import CloneDetection.Double.Reading
import CloneDetection.Toml.Quoted

/-!
# Numbers of a document

A number is an integer of any size, in base ten or after `0x`, `0o` or `0b`, or has a fraction, an
exponent or both and is then the nearest double. Single low lines may stand between digits.
-/
namespace CloneDetection

namespace Toml

def digitRun (isDigit : Char → Bool) : Text → Text × Text
  | '_' :: c :: rest =>
    if isDigit c then
      let (ds, left) := digitRun isDigit rest
      (c :: ds, left)
    else ([], '_' :: c :: rest)
  | c :: rest =>
    if isDigit c then
      let (ds, left) := digitRun isDigit rest
      (c :: ds, left)
    else ([], c :: rest)
  | [] => ([], [])

def digits? (isDigit : Char → Bool) (t : Text) : Option (Text × Text) :=
  if t.head?.any isDigit then some (digitRun isDigit t) else none

def digitValue (c : Char) : Nat :=
  (Hexadecimal.value? c).getD 0

def isBelow (base : Nat) (c : Char) : Bool :=
  (Hexadecimal.value? c).any (· < base)

def valueIn (base : Nat) (ds : Text) : Nat :=
  ds.foldl (fun n c => base * n + digitValue c) 0

def based? : Text → Option (Nat × Text)
  | '0' :: mark :: rest =>
    match [('x', 16), ('o', 8), ('b', 2)].lookup mark with
    | some base => (digits? (isBelow base) rest).map fun (ds, left) => (valueIn base ds, left)
    | none => none
  | _ => none

/-- The digits of a whole number, which has no zeros in front. -/
def whole? : Text → Option (Text × Text)
  | '0' :: rest => some (['0'], rest)
  | t => digits? Char.isDigit t

def fraction? : Text → Option (Text × Text)
  | '.' :: rest => digits? Char.isDigit rest
  | _ => none

def exponent? : Text → Option (Int × Text)
  | c :: rest =>
    if c = 'e' ∨ c = 'E' then
      let (negative, body) := Numeral.signed rest
      (digits? Char.isDigit body).map fun (ds, left) =>
        let n : Int := valueIn 10 ds
        (if negative then -n else n, left)
    else none
  | [] => none

def decimal? (t : Text) : Option (Except Fault (Reading Value)) :=
  let (negative, body) := Numeral.signed t
  (whole? body).map fun (whole, rest) =>
    let (fraction, rest) := (fraction? rest).getD ([], rest)
    let (exponent, left) := (exponent? rest).getD (0, rest)
    if fraction.isEmpty && left.length == rest.length then
      let n : Int := valueIn 10 whole
      if Numeral.maxDigits < whole.length then .error (.tooManyDigits whole.length)
      else .ok (.integer (if negative then -n else n), rest)
    else
      .ok (.double
        (.ofDecimal negative (valueIn 10 (whole ++ fraction)) (exponent - fraction.length)), left)

def specials : List (Text × Double) :=
  [("inf".toList, .infinite false), ("nan".toList, .nan), ("+inf".toList, .infinite false),
   ("-inf".toList, .infinite true), ("+nan".toList, .nan), ("-nan".toList, .nan)]

def number (t : Text) : Except Fault (Reading Value) :=
  match based? t, decimal? t with
  | some (n, rest), _ => .ok (.integer n, rest)
  | none, some reading => reading
  | none, none =>
    match specials.find? fun (name, _) => name.isPrefixOf t with
    | some (name, x) => .ok (.double x, t.drop name.length)
    | none => .error .invalid

end Toml

end CloneDetection

import CloneDetection.Double.Reading
import CloneDetection.Json.Basic

/-!
# Reading JSON

`read?` takes a document in any spacing. Two escapes that are the halves of a UTF-16 pair stand for
one character; a half on its own stands for none, so the document is refused. A number without
fraction and exponent is an integer. Besides the names of the standard, those of the special doubles
are known.
-/
namespace CloneDetection

namespace Json

def isSpace (c : Char) : Bool :=
  c == ' ' || c == '\t' || c == '\n' || c == '\r'

def skip (t : Text) : Text :=
  t.dropWhile isSpace

def shortEscapes : List (Char × Char) :=
  [('"', '"'), ('\\', '\\'), ('/', '/'), ('b', '\x08'), ('f', '\x0C'), ('n', '\n'), ('r', '\r'),
    ('t', '\t')]

/-- The characters and escaped code units up to the closing quote, and the text after it. -/
def units? : Text → Option (List Nat × Text)
  | '"' :: rest => some ([], rest)
  | '\\' :: 'u' :: a :: b :: c :: d :: rest =>
    match Hexadecimal.read? [a, b, c, d], units? rest with
    | some n, some (units, left) => some (n :: units, left)
    | _, _ => none
  | '\\' :: c :: rest =>
    match shortEscapes.lookup c, units? rest with
    | some d, some (units, left) => some (d.toNat :: units, left)
    | _, _ => none
  | c :: rest =>
    if c.toNat < 0x20 then none
    else (units? rest).map fun (units, left) => (c.toNat :: units, left)
  | [] => none

/-- The text of code units in which the halves of each pair are neighbours. -/
def joinUnits? : List Nat → Option Text
  | [] => some []
  | high :: low :: rest =>
    if 0xD800 ≤ high ∧ high < 0xDC00 ∧ 0xDC00 ≤ low ∧ low < 0xE000 then
      (scalar? (0x10000 + 0x400 * (high - 0xD800) + (low - 0xDC00))).bind fun c =>
        (joinUnits? rest).map (c :: ·)
    else (scalar? high).bind fun c => (joinUnits? (low :: rest)).map (c :: ·)
  | [n] => (scalar? n).map ([·])

def text? (t : Text) : Option (Text × Text) :=
  match units? t with
  | some (units, left) => (joinUnits? units).map (·, left)
  | none => none

def digitsValue (ds : Text) : Nat :=
  Numeral.value (ds.map (·.toNat - '0'.toNat))

/-- The fraction digits that the text starts with, and the rest; `none` if a point has no digits. -/
def fraction? : Text → Option (Text × Text)
  | '.' :: rest =>
    let ds := rest.takeWhile Char.isDigit
    if ds.isEmpty then none else some (ds, rest.dropWhile Char.isDigit)
  | t => some ([], t)

def exponent? (t : Text) : Option (Option Int × Text) :=
  match t with
  | c :: rest =>
    if c = 'e' ∨ c = 'E' then
      let (negative, body) := Numeral.signed rest
      let ds := body.takeWhile Char.isDigit
      let n : Int := digitsValue ds
      if ds.isEmpty then none else some (some (if negative then -n else n),
        body.dropWhile Char.isDigit)
    else some (none, t)
  | [] => some (none, [])

def unsigned? (negative : Bool) (t : Text) : Option (Json × Text) := do
  let whole := t.takeWhile Char.isDigit
  if whole.isEmpty || (whole.head? == some '0' && whole.length != 1) then none
  let (fraction, rest) ← fraction? (t.dropWhile Char.isDigit)
  let (exponent?, rest) ← exponent? rest
  if fraction.isEmpty && exponent?.isNone then
    let n : Int := digitsValue whole
    return (.integer (if negative then -n else n), rest)
  return (.number (.ofDecimal negative (digitsValue (whole ++ fraction))
    (exponent?.getD 0 - fraction.length)), rest)

def names : List (Text × Json) :=
  [("null".toList, .null), ("true".toList, .bool true), ("false".toList, .bool false),
    ("NaN".toList, .number .nan),
   ("Infinity".toList, .number (.infinite false)), ("-Infinity".toList, .number (.infinite true))]

def plain? (t : Text) : Option (Json × Text) :=
  match names.find? fun (name, _) => name.isPrefixOf t with
  | some (name, v) => some (v, t.drop name.length)
  | none =>
    match t with
    | '-' :: rest => unsigned? true rest
    | t => unsigned? false t

mutual

/-- The value that the text starts with, and the rest. Every level of nesting and every further item
takes from the fuel. -/
def value? : Nat → Text → Option (Json × Text)
  | 0, _ => none
  | fuel + 1, t =>
    match t with
    | '"' :: rest => (text? rest).map fun (s, left) => (.text s, left)
    | '[' :: rest =>
      match skip rest with
      | ']' :: left => some (.array [], left)
      | rest => (items? fuel rest).map fun (items, left) => (.array items, left)
    | '\x7b' :: rest =>
      match skip rest with
      | '\x7d' :: left => some (.object [], left)
      | rest => (members? fuel rest).map fun (members, left) => (.object members, left)
    | t => plain? t

def items? : Nat → Text → Option (List Json × Text)
  | 0, _ => none
  | fuel + 1, t =>
    match value? fuel (skip t) with
    | some (v, rest) =>
      match skip rest with
      | ',' :: rest => (items? fuel rest).map fun (items, left) => (v :: items, left)
      | ']' :: left => some ([v], left)
      | _ => none
    | none => none

def members? : Nat → Text → Option (List (Text × Json) × Text)
  | 0, _ => none
  | fuel + 1, t =>
    match member? fuel (skip t) with
    | some (m, rest) =>
      match skip rest with
      | ',' :: rest => (members? fuel rest).map fun (members, left) => (m :: members, left)
      | '\x7d' :: left => some ([m], left)
      | _ => none
    | none => none

def member? : Nat → Text → Option ((Text × Json) × Text)
  | 0, _ => none
  | fuel + 1, t =>
    match t with
    | '"' :: rest =>
      match text? rest with
      | some (name, rest) =>
        match skip rest with
        | ':' :: rest => (value? fuel (skip rest)).map fun (v, left) => ((name, v), left)
        | _ => none
      | none => none
    | _ => none

end

/-- The document that the whole text is. -/
def read? (t : Text) : Option Json :=
  match value? (3 * t.length + 1) (skip t) with
  | some (v, rest) => if (skip rest).isEmpty then some v else none
  | none => none

def member (name : Text) : Json → Option Json
  | .object members => members.lookup name
  | _ => none

end Json

end CloneDetection

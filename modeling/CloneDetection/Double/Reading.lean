import CloneDetection.Double.Basic
import CloneDetection.Text.CharClass

/-!
# Reading numbers

Blanks around a number are ignored, but the information separators are none here. Its digits may
come from any script and may have single low lines between them. A fraction and an exponent may
follow for a double, which may also be spelt `inf`, `infinity` or `nan` in any letter case.
-/
namespace CloneDetection

namespace Numeral

/-- Whether a character is a blank and no information separator. -/
def isPlainBlank (c : Char) : Bool :=
  isBlank c && !(0x1C ≤ c.toNat && c.toNat ≤ 0x1F)

def bare (t : Text) : Text :=
  ((t.dropWhile isPlainBlank).reverse.dropWhile isPlainBlank).reverse

def digits (afterDigit : Bool) : Text → List Nat × Text
  | [] => ([], [])
  | c :: rest =>
    match decimalDigit? c with
    | some d =>
      let (ds, left) := digits true rest
      (d :: ds, left)
    | none =>
      if c = '_' ∧ afterDigit ∧ ((rest.head?.bind decimalDigit?).isSome) then digits false rest
      else ([], c :: rest)

def value (ds : List Nat) : Nat :=
  ds.foldl (fun n d => 10 * n + d) 0

def signed : Text → Bool × Text
  | '-' :: rest => (true, rest)
  | '+' :: rest => (false, rest)
  | t => (false, t)

/-- A number of more digits than this is not read or written in decimal. -/
def maxDigits : Nat := 4300

def integer? (t : Text) : Option Int :=
  let (negative, body) := signed (bare t)
  match digits false body with
  | ([], _) | (_, _ :: _) => none
  | (ds, []) =>
    if maxDigits < ds.length then none
    else some (if negative then -(value ds : Int) else value ds)

def exponent? : Text → Option Int
  | [] => some 0
  | c :: rest =>
    if c = 'e' ∨ c = 'E' then
      let (negative, body) := signed rest
      match digits false body with
      | ([], _) | (_, _ :: _) => none
      | (ds, []) => some (if negative then -(value ds : Int) else value ds)
    else none

end Numeral

namespace Double

open Numeral

def read? (t : Text) : Option Double :=
  let (negative, body) := signed (bare t)
  let word := body.map Char.toLower
  if word = "inf".toList ∨ word = "infinity".toList then some (.infinite negative)
  else if word = "nan".toList then some .nan
  else
    let (whole, rest) := digits false body
    let (fraction, rest) := match rest with
      | '.' :: rest => digits false rest
      | _ => ([], rest)
    if whole = [] ∧ fraction = [] then none
    else (exponent? rest).map fun e =>
      ofDecimal negative (value (whole ++ fraction)) (e - fraction.length)

end Double

end CloneDetection

import CloneDetection.Double.Decimal

/-!
# Written forms of a double

A layout says which numbers are written without an exponent and how the special values are spelt.
`Double.write` uses the fewest digits that read back.
-/
namespace CloneDetection

structure Layout where
  /-- Numbers below `10 ^ lowest` are written with an exponent. -/
  lowest : Int
  /-- Numbers from `10 ^ highest` on are written with an exponent. -/
  highest : Int
  /-- What follows the digits of a whole number. -/
  whole : Text
  nan : Text
  infinity : Text

namespace Layout

/-- Plain text: exponents from `1e16` on and below `1e-4`; a whole number ends in `.0`. -/
def plain : Layout :=
  ⟨-4, 16, ".0".toList, "nan".toList, "inf".toList⟩

/-- The same digits, with the names that JSON readers know for the special values. -/
def json : Layout :=
  ⟨-4, 16, ".0".toList, "NaN".toList, "Infinity".toList⟩

/-- Six digits at most; a whole number has no point. -/
def brief : Layout :=
  ⟨-4, 6, [], "nan".toList, "inf".toList⟩

/-- At least two digits after the sign of an exponent. -/
def exponent (e : Int) : Text :=
  (if e < 0 then "e-" else "e+").toList ++ Text.padded 2 e.natAbs

def place (layout : Layout) (digits : Text) (point : Int) : Text :=
  if layout.lowest < point ∧ point ≤ layout.highest then
    if point ≤ 0 then "0.".toList ++ List.replicate point.natAbs '0' ++ digits
    else if (digits.length : Int) ≤ point then
      digits ++ List.replicate (point.toNat - digits.length) '0' ++ layout.whole
    else digits.take point.toNat ++ '.' :: digits.drop point.toNat
  else
    match digits with
    | [] => []
    | [d] => d :: exponent (point - 1)
    | d :: rest => d :: '.' :: rest ++ exponent (point - 1)

def sign (negative : Bool) : Text :=
  if negative then ['-'] else []

/-- The number written with the digits that `digits` picks for a positive number of units. -/
def render (layout : Layout) (digits : Nat → Decimal) : Double → Text
  | .nan => layout.nan
  | .infinite s => sign s ++ layout.infinity
  | .finite s 0 => sign s ++ '0' :: layout.whole
  | .finite s units =>
    let (written, point) := (digits units).pointed
    sign s ++ layout.place written point

end Layout

namespace Double

def write (x : Double) (layout : Layout := Layout.plain) : Text :=
  layout.render Decimal.shortest x

def writeBrief (x : Double) : Text :=
  Layout.brief.render (Decimal.rounded 6) x

def writeHundredths : Double → Text
  | .nan => Layout.plain.nan
  | .infinite s => Layout.sign s ++ Layout.plain.infinity
  | .finite s units =>
    let n := Decimal.fixed 2 units
    Layout.sign s ++ Text.natural (n / 100) ++ '.' :: Text.padded 2 (n % 100)

end Double

end CloneDetection

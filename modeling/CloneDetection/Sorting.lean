import CloneDetection.Sorting.Merging
import CloneDetection.Sorting.Run

/-!
# Sorting by runs

A list is cut into runs, and neighbouring runs are merged as they come: two of them before the next
one is piled up if the boundary between them halves a smaller part of the list than the next
boundary does. Under an order, items of which neither goes before the other stay as they were. The
result is settled even for a relation that is no order. `perm_sort` says that no item is lost or
doubled.
-/
namespace CloneDetection

namespace Sorting

variable {α : Type}

/-- A piled run. `power` is that of its boundary with the run below it. -/
structure Run (α : Type) where
  start : Nat
  items : List α
  power : Nat := 0
  deriving Repr

/-- The least length of a run: the number of items, halved to below 64; one more if a half was
rounded down. -/
def least (n : Nat) (rounded : Nat := 0) : Nat :=
  if 64 ≤ n then least (n / 2) (max rounded (n % 2)) else n + rounded
termination_by n

/-- The first binary place in which the middles of two runs differ, as parts of the whole. Doubled,
the middles are whole numbers. -/
def power (whole middle next : Nat) : Nat :=
  ((List.range (whole.log2 + 1)).find? fun k => (middle <<< k) / whole != (next <<< k) / whole).getD
    (whole.log2 + 1)

/-- Merges the topmost runs as long as their boundary has more than the given power. -/
def settle (before : α → α → Bool) (boundary threshold : Nat) (top : Run α) :
    List (Run α) → List (Run α) × Nat
  | [] => ([top], threshold)
  | below :: runs =>
    if boundary < top.power then
      let merged := merge before threshold below.items top.items
      settle before boundary merged.2 { below with items := merged.1 } runs
    else (top :: below :: runs, threshold)

theorem settle_perm (before : α → α → Bool) (boundary threshold : Nat) (top : Run α)
    (runs : List (Run α)) :
    ((settle before boundary threshold top runs).1.flatMap Run.items).Perm
      ((top :: runs).flatMap Run.items) := by
  induction runs generalizing threshold top with
  | nil => exact .refl _
  | cons below runs ih =>
    simp only [settle]
    split
    · refine (ih ..).trans ?_
      simp only [List.flatMap_cons, ← List.append_assoc]
      exact ((merge_perm ..).trans List.perm_append_comm).append_right _
    · exact .refl _

def pile (before : α → α → Bool) (whole : Nat) (runs : List (Run α)) (threshold : Nat) :
    List α → List (Run α) × Nat
  | [] => (runs, threshold)
  | x :: items =>
    let lead := leading before (least whole) (x :: items)
    match runs with
    | [] => pile before whole [⟨0, lead.1, 0⟩] threshold lead.2
    | top :: below =>
      let doubled := 2 * top.start + top.items.length
      let boundary := power whole doubled (doubled + top.items.length + lead.1.length)
      let settled := settle before boundary threshold top below
      pile before whole (⟨top.start + top.items.length, lead.1, boundary⟩ :: settled.1) settled.2
        lead.2
termination_by items => items.length
decreasing_by all_goals exact Nat.lt_succ_of_le (leading_length ..)

theorem pile_perm (before : α → α → Bool) (whole : Nat) (runs : List (Run α)) (threshold : Nat)
    (items : List α) :
    ((pile before whole runs threshold items).1.flatMap Run.items).Perm
      (runs.flatMap Run.items ++ items) := by
  fun_induction pile before whole runs threshold items with
  | case1 => simp
  | case2 threshold x items lead ih =>
    refine ih.trans ?_
    simpa using leading_perm before (least whole) (x :: items)
  | case3 threshold x items lead top below doubled boundary settled ih =>
    refine ih.trans ?_
    simp only [List.flatMap_cons]
    refine (List.perm_append_comm.append_right _).trans ?_
    rw [List.append_assoc]
    exact (settle_perm ..).append (leading_perm before (least whole) (x :: items))

/-- Merges all runs, the two topmost ones first unless the run below them is shorter than the
top. -/
def collapse (before : α → α → Bool) (threshold : Nat) (top : List α) : List (List α) → List α
  | [] => top
  | [below] => (merge before threshold below top).1
  | below :: third :: runs =>
    if third.length < top.length then
      let merged := merge before threshold third below
      collapse before merged.2 top (merged.1 :: runs)
    else
      let merged := merge before threshold below top
      collapse before merged.2 merged.1 (third :: runs)
termination_by runs => runs.length

theorem collapse_perm (before : α → α → Bool) (threshold : Nat) (top : List α)
    (runs : List (List α)) :
    (collapse before threshold top runs).Perm (top ++ runs.flatten) := by
  fun_induction collapse before threshold top runs with
  | case1 => simp
  | case2 threshold top below =>
    simpa using (merge_perm ..).trans List.perm_append_comm
  | case3 threshold top below third runs h merged ih =>
    refine ih.trans ?_
    simp only [List.flatten_cons, ← List.append_assoc below]
    exact (((merge_perm ..).trans List.perm_append_comm).append_right _).append_left _
  | case4 threshold top below third runs h merged ih =>
    refine ih.trans ?_
    simp only [List.flatten_cons, ← List.append_assoc]
    exact (((merge_perm ..).trans List.perm_append_comm).append_right _).append_right _

/-- Merges of a sort start with this threshold. -/
def threshold : Nat := 7

def sort (before : α → α → Bool) (items : List α) : List α :=
  match pile before items.length [] threshold items with
  | ([], _) => []
  | (top :: runs, threshold) => collapse before threshold top.items (runs.map Run.items)

theorem perm_sort (before : α → α → Bool) (items : List α) : (sort before items).Perm items := by
  have h := pile_perm before items.length [] threshold items
  unfold sort
  split
  · next hp => simpa [hp] using h
  · next hp =>
    rw [hp] at h
    exact (collapse_perm ..).trans (by simpa [List.flatMap_def] using h)

end Sorting

end CloneDetection

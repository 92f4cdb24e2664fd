import CloneDetection.Clone.Index
import CloneDetection.Proofs.Sorting
import Mathlib.Data.List.Perm.Lattice
import Mathlib.Data.List.Dedup

/-!
# Ascending lists of places

A list without repetition has one ascending arrangement, which its members alone decide. Occurrences
that move by the same distance keep their order and stay different.
-/
namespace CloneDetection

open Std

section Ascending

variable {α : Type} [Ord α]

def Ascending (l : List α) : Prop :=
  l.Pairwise fun a b => compare a b = .lt

theorem Ascending.nodup [LawfulEqOrd α] {l : List α} (h : Ascending l) : l.Nodup := by
  apply h.imp
  rintro a b hab rfl
  rw [ReflOrd.compare_self] at hab
  cases hab

theorem pairwise_sorted [TransOrd α] (l : List α) :
    (sorted l).Pairwise fun a b => (compare a b).isLE :=
  pairwise_mergeSort_isLE compare l

theorem mem_sorted {l : List α} {a : α} : a ∈ sorted l ↔ a ∈ l :=
  (sorted_perm l).mem_iff

theorem length_sorted (l : List α) : (sorted l).length = l.length :=
  (sorted_perm l).length_eq

variable [TransOrd α] [LawfulEqOrd α]

theorem ascending_sorted {l : List α} (h : l.Nodup) : Ascending (sorted l) := by
  have hnodup : (sorted l).Nodup := (sorted_perm l).nodup_iff.2 h
  refine (pairwise_sorted l).imp₂ ?_ hnodup
  intro a b hle hne
  cases hab : compare a b with
  | lt => rfl
  | eq => exact absurd (LawfulEqCmp.eq_of_compare hab) hne
  | gt => simp [hab] at hle

theorem Ascending.eq_of_mem_iff {l m : List α} (hl : Ascending l) (hm : Ascending m)
    (h : ∀ a, a ∈ l ↔ a ∈ m) : l = m := by
  have hperm : l.Perm m := (List.perm_ext_iff_of_nodup hl.nodup hm.nodup).2 h
  refine hperm.eq_of_pairwise ?_ hl hm
  intro a b _ _ hab hba
  rw [OrientedOrd.eq_swap, hab] at hba
  cases hba

end Ascending

namespace Place

theorem compare_lt_iff {α : Type} [Ord α] {p q : Place α} :
    compare p q = .lt ↔ compare p.path q.path = .lt ∨
      compare p.path q.path = .eq ∧ compare p.offset q.offset = .lt := by
  change (compare p.path q.path).then (compare p.offset q.offset) = .lt ↔ _
  exact Ordering.then_eq_lt

/-- The place `distance` further on in the same file. -/
def move (distance : Nat) (o : Occurrence) : Occurrence :=
  { o with offset := o.offset + distance }

@[simp] theorem offset_move (distance : Nat) (o : Occurrence) :
    (o.move distance).offset = o.offset + distance := rfl

theorem move_injective (distance : Nat) : Function.Injective (move distance) := by
  rintro ⟨p, i⟩ ⟨q, j⟩ h
  simp only [move, Place.mk.injEq, Nat.add_right_cancel_iff] at h
  rw [h.1, h.2]

theorem map_move_map_move (a b : Nat) (l : List Occurrence) :
    (l.map (move a)).map (move b) = l.map (move (a + b)) := by
  rw [List.map_map]
  apply List.map_congr_left
  intro o _
  simp [move, Nat.add_assoc]

theorem map_move_inj {distance : Nat} {l m : List Occurrence} :
    l.map (move distance) = m.map (move distance) ↔ l = m :=
  (List.map_injective_iff.2 (move_injective distance)).eq_iff

theorem ascending_map_move (distance : Nat) {l : List Occurrence} :
    Ascending (l.map (move distance)) ↔ Ascending l := by
  unfold Ascending
  rw [List.pairwise_map]
  simp only [compare_lt_iff, move, Nat.compare_eq_lt, Nat.add_lt_add_iff_right]

end Place

end CloneDetection

import CloneDetection.Text.Basic

/-!
# Places in files

A place is a path and an offset in the file there. Places are ordered by path, then by offset.
-/
namespace CloneDetection

structure Place (α : Type) where
  path : Text
  offset : α
  deriving DecidableEq, Repr

namespace Place

variable {α : Type} [Ord α]

instance : Ord (Place α) :=
  ⟨compareLex (compareOn path) (compareOn offset)⟩

instance [Std.TransOrd α] : Std.TransOrd (Place α) :=
  inferInstanceAs (Std.TransCmp (compareLex (compareOn path) (compareOn offset)))

instance [Std.LawfulEqOrd α] : Std.LawfulEqOrd (Place α) where
  compare_self {p} := by
    change (compare p.path p.path).then (compare p.offset p.offset) = .eq
    simp
  eq_of_compare {p q} h := by
    change (compare p.path q.path).then (compare p.offset q.offset) = .eq at h
    rw [Ordering.then_eq_eq, Std.compare_eq_iff_eq, Std.compare_eq_iff_eq] at h
    cases p
    cases q
    simp_all

end Place

def sorted {α : Type} [Ord α] (l : List α) : List α :=
  l.mergeSort fun a b => (compare a b).isLE

theorem sorted_perm {α : Type} [Ord α] (l : List α) : (sorted l).Perm l :=
  List.mergeSort_perm l _

end CloneDetection

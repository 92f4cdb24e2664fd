import CloneDetection.Proofs.Clone.Filling
import CloneDetection.Clone.Region

/-!
# Where windows agree

The windows at one distance from several occurrences agree only if all of them exist, which is a
matter of positions: each is counted from the first window of its file on and stands before the end.
The positions are whole numbers here, so that those before the first window are none.
-/
namespace CloneDetection

namespace Index

/-- The windows of a file in their order; none if it is not indexed. -/
def arena (index : Index) (path : Text) : List Window :=
  ((index.files.get? path).map (·.toList)).getD []

/-- A position of a file, counted from its first window on, at which there is a window. -/
def Inside (index : Index) (path : Text) (position : Int) : Prop :=
  0 ≤ position ∧ position < (index.arena path).length

section Agreement

variable {index : Index} {l : List Occurrence} {o : Occurrence} {shift : Int}

theorem windowAt?_eq_getElem? (index : Index) (o : Occurrence) :
    index.windowAt? o = (index.arena o.path)[o.offset]? := by
  unfold windowAt? arena
  cases index.files.get? o.path with
  | none => simp
  | some windows => simp

theorem length_arena (index : Index) (path : Text) :
    (index.arena path).length = ((index.files.get? path).map (·.size)).getD 0 := by
  unfold arena
  cases index.files.get? path with
  | none => rfl
  | some windows => simp

theorem digestAt?_eq_getElem? {n : Nat} (h : o.offset + shift = n) :
    index.digestAt? shift o = ((index.arena o.path)[n]?).map Window.digest := by
  unfold digestAt?
  rw [h]
  exact congrArg (Option.map Window.digest) (windowAt?_eq_getElem? index ⟨o.path, n⟩)

theorem digestAt?_eq_none (h : o.offset + shift < 0) : index.digestAt? shift o = none := by
  obtain ⟨n, hn⟩ := Int.eq_negSucc_of_lt_zero h
  unfold digestAt?
  rw [hn]

theorem digestAt?_eq_some_iff {d : Nat} :
    index.digestAt? shift o = some d ↔ index.Inside o.path (o.offset + shift) ∧
      ∀ w, (index.arena o.path)[(o.offset + shift).toNat]? = some w → w.digest = d := by
  by_cases hneg : o.offset + shift < 0
  · rw [digestAt?_eq_none hneg]
    constructor
    · intro h
      cases h
    · rintro ⟨⟨hnonneg, -⟩, -⟩
      omega
  · obtain ⟨n, hn⟩ := Int.eq_ofNat_of_zero_le (Int.not_lt.1 hneg)
    rw [digestAt?_eq_getElem? hn, hn, Int.toNat_natCast, Inside, Option.map_eq_some_iff]
    constructor
    · rintro ⟨w, hw, rfl⟩
      obtain ⟨hlt, rfl⟩ := List.getElem?_eq_some_iff.1 hw
      refine ⟨⟨Int.natCast_nonneg n, Int.ofNat_lt.2 hlt⟩, ?_⟩
      intro v hv
      rw [hw] at hv
      cases hv
      rfl
    · rintro ⟨⟨-, hlt⟩, hall⟩
      have hw := List.getElem?_eq_getElem (Int.ofNat_lt.1 hlt)
      exact ⟨_, hw, hall _ hw⟩

theorem agree_iff :
    index.agree shift l = true ↔ ∃ d, ∀ o ∈ l, index.digestAt? shift o = some d := by
  cases l with
  | nil => simp [agree]
  | cons o rest =>
    rw [agree]
    cases hd : index.digestAt? shift o <;> simp [hd]

theorem agree_iff_inside :
    index.agree shift l = true ↔ (∀ o ∈ l, index.Inside o.path (o.offset + shift)) ∧
    ∃ d, ∀ o ∈ l, ∀ w, (index.arena o.path)[(o.offset + shift).toNat]? = some w → w.digest = d := by
  simp only [agree_iff, digestAt?_eq_some_iff, imp_and, forall_and, exists_and_left]

end Agreement

end Index

end CloneDetection

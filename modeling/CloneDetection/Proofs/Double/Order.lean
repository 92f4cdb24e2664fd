import CloneDetection.Double.Basic
import Mathlib.Data.Prod.Lex

/-!
# The order of doubles

Every double that is a number has a place in one linear order, the finite ones between the infinite
ones and by their units. The order of doubles compares these places, so it is transitive.
-/
namespace CloneDetection

namespace Double

/-- The place of a number in the order, finite ones by their units. -/
def place? : Double → Option (Int ×ₗ Int)
  | .nan => none
  | .infinite true => some (toLex (-1, 0))
  | .infinite false => some (toLex (1, 0))
  | .finite true n => some (toLex (0, -n))
  | .finite false n => some (toLex (0, n))

theorem exists_place {x : Double} (h : x ≠ .nan) : ∃ a, x.place? = some a := by
  cases x with
  | nan => exact absurd rfl h
  | infinite s => cases s <;> exact ⟨_, rfl⟩
  | finite s n => cases s <;> exact ⟨_, rfl⟩

theorem toLex_zero_le_iff {p q : Int} : toLex ((0 : Int), p) ≤ toLex (0, q) ↔ p ≤ q := by
  rw [Prod.Lex.toLex_le_toLex]
  omega

theorem compare_isLE_iff {p q : Nat} :
    some (compare p q) = some .lt ∨ some (compare p q) = some .eq ↔ p ≤ q := by
  rw [Option.some.injEq, Option.some.injEq, Nat.compare_eq_lt, Nat.compare_eq_eq]
  omega

theorem le_iff_of_place {x y : Double} {a b : Int ×ₗ Int} (ha : x.place? = some a)
    (hb : y.place? = some b) :
    x ≤ y ↔ a ≤ b := by
  change x.compare? y = some .lt ∨ x.compare? y = some .eq ↔ _
  cases x with
  | nan => cases ha
  | infinite s =>
    cases y with
    | nan => cases hb
    | infinite t => cases s <;> cases t <;> cases ha <;> cases hb <;> decide
    | finite t n =>
      cases s <;> cases t <;> cases ha <;> cases hb <;> simp [compare?, Prod.Lex.toLex_le_toLex]
  | finite s m =>
    cases y with
    | nan => cases hb
    | infinite t =>
      cases s <;> cases t <;> cases ha <;> cases hb <;> simp [compare?, Prod.Lex.toLex_le_toLex]
    | finite t n =>
      cases s <;> cases t <;> cases ha <;> cases hb <;> rw [toLex_zero_le_iff, compare?]
      · rw [compare_isLE_iff, Int.ofNat_le]
      · by_cases hzero : m = 0 ∧ n = 0
        · exact iff_of_true (.inr (by rw [if_pos hzero])) (by omega)
        · exact iff_of_false (by simp [hzero]) (by omega)
      · by_cases hzero : m = 0 ∧ n = 0
        · exact iff_of_true (.inr (by rw [if_pos hzero])) (by omega)
        · exact iff_of_true (.inl (by rw [if_neg hzero])) (by omega)
      · rw [compare_isLE_iff]
        omega

theorem compare?_swap (x y : Double) : y.compare? x = (x.compare? y).map Ordering.swap := by
  cases x with
  | nan => cases y <;> rfl
  | infinite s =>
    cases y with
    | nan => rfl
    | infinite t => cases s <;> cases t <;> rfl
    | finite t n => cases s <;> rfl
  | finite s m =>
    cases y with
    | nan => rfl
    | infinite t => cases t <;> rfl
    | finite t n =>
      cases s <;> cases t <;> simp only [compare?, Option.map_some, Nat.compare_swap,
        apply_ite Ordering.swap,
        Ordering.swap_eq, Ordering.swap_lt, Ordering.swap_gt, and_comm]

theorem compare?_of_place {x y : Double} {a b : Int ×ₗ Int} (ha : x.place? = some a)
    (hb : y.place? = some b) :
    x.compare? y = some (compare a b) := by
  have hle : x.compare? y = some .lt ∨ x.compare? y = some .eq ↔ a ≤ b := le_iff_of_place ha hb
  have hge : y.compare? x = some .lt ∨ y.compare? x = some .eq ↔ b ≤ a := le_iff_of_place hb ha
  rw [compare?_swap x y] at hge
  cases hcompare : x.compare? y with
  | none =>
    rw [hcompare] at hle hge
    have hlt : b < a := by simpa using hle
    exact absurd hlt.le (by simpa using hge)
  | some c =>
    rw [hcompare] at hle hge
    cases c with
    | lt =>
      have hlt : a < b := by simpa using hge
      rw [compare_lt_iff_lt.2 hlt]
    | eq =>
      have heq : a = b := le_antisymm (by simpa using hle) (by simpa using hge)
      rw [compare_eq_iff_eq.2 heq]
    | gt =>
      have hgt : b < a := by simpa using hle
      rw [compare_gt_iff_gt.2 hgt]

theorem lt_iff_of_place {x y : Double} {a b : Int ×ₗ Int} (ha : x.place? = some a)
    (hb : y.place? = some b) :
    x < y ↔ a < b := by
  change x.compare? y = some .lt ↔ _
  rw [compare?_of_place ha hb, Option.some.injEq, compare_lt_iff_lt]

theorem not_lt_iff_le {x y : Double} (hx : x ≠ .nan) (hy : y ≠ .nan) : ¬ y < x ↔ x ≤ y := by
  obtain ⟨a, ha⟩ := exists_place hx
  obtain ⟨b, hb⟩ := exists_place hy
  rw [lt_iff_of_place hb ha, le_iff_of_place ha hb, not_lt]

theorem ne_nan_of_le {x y : Double} (h : x ≤ y) : x ≠ .nan ∧ y ≠ .nan := by
  constructor
  · rintro rfl
    rcases h with h | h <;> cases h
  · rintro rfl
    cases x <;> rcases h with h | h <;> cases h

theorem exists_place_of_le {x y : Double} (h : x ≤ y) :
    ∃ a b, x.place? = some a ∧ y.place? = some b := by
  obtain ⟨a, ha⟩ := exists_place (ne_nan_of_le h).1
  obtain ⟨b, hb⟩ := exists_place (ne_nan_of_le h).2
  exact ⟨a, b, ha, hb⟩

theorem le_trans {x y z : Double} (h : x ≤ y) (h' : y ≤ z) : x ≤ z := by
  obtain ⟨a, b, ha, hb⟩ := exists_place_of_le h
  obtain ⟨_, c, _, hc⟩ := exists_place_of_le h'
  rw [le_iff_of_place ha hb] at h
  rw [le_iff_of_place hb hc] at h'
  exact (le_iff_of_place ha hc).2 (h.trans h')

end Double

end CloneDetection

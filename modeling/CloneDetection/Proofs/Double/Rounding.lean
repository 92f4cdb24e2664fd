import CloneDetection.Proofs.Double.Order
import Mathlib.Data.Nat.Log
import Mathlib.Tactic.SplitIfs

/-!
# Rounding

Rounding keeps the order of numbers, and it keeps the powers of two, so a number is not rounded past
one. The double of an integer is therefore on the same side of zero and of one as the integer
itself.
-/
namespace CloneDetection

section Quotient

variable {a b den : Nat}

theorem div_le_roundDiv (num den : Nat) : num / den ≤ roundDiv num den := by
  unfold roundDiv
  dsimp only
  split_ifs <;> omega

theorem roundDiv_le_succ (num den : Nat) : roundDiv num den ≤ num / den + 1 := by
  unfold roundDiv
  dsimp only
  split_ifs <;> omega

theorem roundDiv_mono (h : a ≤ b) : roundDiv a den ≤ roundDiv b den := by
  rcases Nat.lt_or_eq_of_le (Nat.div_le_div_right (c := den) h) with hlt | heq
  · calc roundDiv a den ≤ a / den + 1 := roundDiv_le_succ a den
      _ ≤ b / den := hlt
      _ ≤ roundDiv b den := div_le_roundDiv b den
  · have ha := Nat.div_add_mod a den
    have hb := Nat.div_add_mod b den
    rw [heq] at ha
    unfold roundDiv
    rw [heq]
    dsimp only
    split_ifs <;> omega

theorem roundDiv_mul (m : Nat) (hden : 0 < den) : roundDiv (m * den) den = m := by
  simp [roundDiv, Nat.mul_div_cancel m hden, hden]

end Quotient

namespace Double

section Units

variable {num den : Nat}

theorem roundUnits_le (num : Nat) : 2 * roundUnits num 1 ≤ 3 * num := by
  by_cases hzero : num = 0
  · subst hzero
    decide
  · let step := Nat.pow 2 (spareBits num)
    have hstep : step ≤ num :=
      Nat.le_trans (Nat.pow_le_pow_right Nat.two_pos (Nat.sub_le _ _)) (Nat.log2_self_le hzero)
    have hnear : 2 * (roundDiv num step * step) ≤ 2 * num + step :=
      (roundDiv_near (Nat.two_pow_pos _)).1
    rw [roundUnits, Nat.div_one, Nat.one_mul]
    change 2 * (roundDiv num step * step) ≤ 3 * num
    omega

theorem roundUnits_lt_pow {m a b top : Nat} (h : m < Nat.pow 2 a) (htop : top = a + b + 1) :
    roundUnits (m * Nat.pow 2 b) 1 < Nat.pow 2 top := by
  have hround := roundUnits_le (m * Nat.pow 2 b)
  have hlt : m * Nat.pow 2 b < Nat.pow 2 a * Nat.pow 2 b :=
    Nat.mul_lt_mul_of_pos_right h (Nat.two_pow_pos b)
  have hsum : Nat.pow 2 (a + b) = Nat.pow 2 a * Nat.pow 2 b := Nat.pow_add 2 a b
  have hsucc : Nat.pow 2 (a + b + 1) = Nat.pow 2 (a + b) * 2 := Nat.pow_succ 2 (a + b)
  rw [htop, hsucc, hsum]
  omega

theorem roundDiv_pow {k : Nat} (hden : 0 < den) (hk : spareBits (num / den) ≤ k) :
    roundDiv (den * Nat.pow 2 k) (den * Nat.pow 2 (spareBits (num / den))) * Nat.pow 2
      (spareBits (num / den)) =
      Nat.pow 2 k := by
  have hsplit :
      Nat.pow 2 k = Nat.pow 2 (k - spareBits (num / den)) * Nat.pow 2 (spareBits (num / den)) :=
    (Nat.pow_sub_mul_pow 2 hk).symm
  have hstep : 0 < den * Nat.pow 2 (spareBits (num / den)) := Nat.mul_pos hden (Nat.two_pow_pos _)
  rw [hsplit, Nat.mul_left_comm, roundDiv_mul _ hstep]

theorem roundUnits_le_pow {k : Nat} (hden : 0 < den) (hk : spareBits (num / den) ≤ k)
    (h : num ≤ den * Nat.pow 2 k) :
    roundUnits num den ≤ Nat.pow 2 k := by
  rw [← roundDiv_pow hden hk]
  exact Nat.mul_le_mul_right _ (roundDiv_mono h)

theorem pow_le_roundUnits {k : Nat} (hden : 0 < den) (hk : spareBits (num / den) ≤ k)
    (h : den * Nat.pow 2 k ≤ num) :
    Nat.pow 2 k ≤ roundUnits num den := by
  rw [← roundDiv_pow hden hk]
  exact Nat.mul_le_mul_right _ (roundDiv_mono h)

theorem roundUnits_mono {other : Nat} (hden : 0 < den) (h : num ≤ other) :
    roundUnits num den ≤ roundUnits other den := by
  have hquotient : num / den ≤ other / den := Nat.div_le_div_right h
  have hlog : (num / den).log2 ≤ (other / den).log2 := by
    rw [Nat.log2_eq_log_two, Nat.log2_eq_log_two]
    exact Nat.log_mono_right hquotient
  have hspare : spareBits (num / den) ≤ spareBits (other / den) := Nat.sub_le_sub_right hlog 52
  rcases Nat.lt_or_eq_of_le hspare with hlt | heq
  · -- with different steps there is a power of two between the numbers
    have hbelow : (num / den).log2 + 1 ≤ (other / den).log2 := by
      unfold spareBits at hlt
      omega
    have hne : other / den ≠ 0 := by
      intro hzero
      rw [hzero, Nat.log2_zero] at hbelow
      omega
    have hfits : num ≤ den * Nat.pow 2 (other / den).log2 := by
      have hnum : num < den * (num / den + 1) := Nat.lt_mul_div_succ num hden
      have hpow : num / den + 1 ≤ Nat.pow 2 (other / den).log2 :=
        Nat.le_trans Nat.lt_log2_self (Nat.pow_le_pow_right Nat.two_pos hbelow)
      exact Nat.le_trans hnum.le (Nat.mul_le_mul_left den hpow)
    have hreached : den * Nat.pow 2 (other / den).log2 ≤ other :=
      Nat.le_trans (Nat.mul_le_mul_left den (Nat.log2_self_le hne)) (Nat.mul_div_le other den)
    have hstep : spareBits (num / den) ≤ (other / den).log2 := Nat.le_trans hspare (Nat.sub_le _ _)
    exact Nat.le_trans (roundUnits_le_pow hden hstep hfits)
      (pow_le_roundUnits hden (Nat.sub_le _ _) hreached)
  · unfold roundUnits
    rw [heq]
    exact Nat.mul_le_mul_right _ (roundDiv_mono h)

theorem roundUnits_pow (k : Nat) : roundUnits (Nat.pow 2 k) 1 = Nat.pow 2 k := by
  have hlog : (Nat.pow 2 k).log2 = k := Nat.log2_two_pow
  have hspare : spareBits (Nat.pow 2 k / 1) ≤ k := by
    rw [Nat.div_one, spareBits, hlog]
    exact Nat.sub_le _ _
  have hone : 1 * Nat.pow 2 k = Nat.pow 2 k := Nat.one_mul _
  exact Nat.le_antisymm (roundUnits_le_pow Nat.one_pos hspare hone.ge)
    (pow_le_roundUnits Nat.one_pos hspare hone.le)

end Units

section Integer

theorem ofInt?_of_lt {n : Int} (h : n.natAbs < Nat.pow 2 1023) : ∃ x, ofInt? n = some x := by
  have htop : 2098 = 1023 + 1074 + 1 := rfl
  unfold ofInt? ofUnits one
  -- the powers themselves are too long to be written out
  generalize 2098 = top at htop ⊢
  generalize 1074 = low at htop ⊢
  dsimp only
  rw [if_pos (roundUnits_lt_pow h htop)]
  exact ⟨_, rfl⟩

/-- The units of the double of an integer without its sign. -/
def unitsOf (m : Nat) : Nat :=
  roundUnits (m * one) 1

theorem eq_of_ofInt? {n : Int} {x : Double} (h : ofInt? n = some x) :
    x = .finite (n < 0) (unitsOf n.natAbs) := by
  unfold ofInt? ofUnits at h
  dsimp only at h
  split at h
  · exact (Option.some.inj h).symm
  · cases h

theorem unitsOf_mono {m k : Nat} (h : m ≤ k) : unitsOf m ≤ unitsOf k :=
  roundUnits_mono Nat.one_pos (Nat.mul_le_mul_right one h)

theorem unitsOf_zero : unitsOf 0 = 0 := by
  rw [unitsOf, Nat.zero_mul]
  rfl

theorem unitsOf_two_pow (k : Nat) : unitsOf (Nat.pow 2 k) = Nat.pow 2 k * one := by
  unfold unitsOf one
  generalize 1074 = low
  have hpow : Nat.pow 2 k * Nat.pow 2 low = Nat.pow 2 (k + low) := (Nat.pow_add 2 k low).symm
  rw [hpow, roundUnits_pow]

theorem one_pos : 0 < one := by
  unfold one
  generalize 1074 = low
  exact Nat.two_pow_pos low

theorem unitsOf_one : unitsOf 1 = one := by
  have hone : 1 = Nat.pow 2 0 := rfl
  rw [hone, unitsOf_two_pow, ← hone, Nat.one_mul]

theorem ofInt?_natCast_of_le_one {m : Nat} (h : m ≤ 1) :
    ofInt? m = some (.finite false (unitsOf m)) := by
  have hsmall : ∀ top, top ≠ 0 → (m : Int).natAbs < Nat.pow 2 top := fun _ htop =>
    Nat.lt_of_le_of_lt h (Nat.one_lt_two_pow htop)
  obtain ⟨x, hx⟩ := ofInt?_of_lt (n := m) (hsmall 1023 (by decide))
  rw [hx, eq_of_ofInt? hx, Int.natAbs_natCast]
  exact congrArg (fun negative => some (finite negative (unitsOf m))) (decide_eq_false (by omega))

theorem ofInt?_zero : ofInt? 0 = some .zero := by
  have hzero : ofInt? 0 = some (.finite false (unitsOf 0)) :=
    ofInt?_natCast_of_le_one (Nat.zero_le 1)
  rw [hzero, unitsOf_zero]
  rfl

theorem ofInt?_one : ofInt? 1 = some (.finite false one) := by
  have hone : ofInt? 1 = some (.finite false (unitsOf 1)) := ofInt?_natCast_of_le_one le_rfl
  rw [hone, unitsOf_one]

theorem unitsOf_le_one_iff {m : Nat} : unitsOf m ≤ one ↔ m ≤ 1 := by
  constructor
  · intro h
    by_contra hm
    have htwo : unitsOf (Nat.pow 2 1) ≤ unitsOf m := unitsOf_mono (Nat.lt_of_not_le hm)
    have hpos := one_pos
    rw [unitsOf_two_pow, show Nat.pow 2 1 = 2 from rfl] at htwo
    omega
  · intro h
    rw [← unitsOf_one]
    exact unitsOf_mono h

theorem unitsOf_eq_zero_iff {m : Nat} : unitsOf m = 0 ↔ m = 0 := by
  constructor
  · intro h
    by_contra hm
    have hone : unitsOf 1 ≤ unitsOf m := unitsOf_mono (by omega)
    have hpos := one_pos
    rw [unitsOf_one] at hone
    omega
  · rintro rfl
    exact unitsOf_zero

theorem ofDecimal_one : ofDecimal false 1 0 = .finite false one := by
  decide +kernel

variable {n : Int} {x : Double}

theorem zero_le_of_ofInt?_iff (h : ofInt? n = some x) : .zero ≤ x ↔ 0 ≤ n := by
  rw [eq_of_ofInt? h]
  by_cases hneg : n < 0
  · have hunits : unitsOf n.natAbs ≠ 0 := fun hzero => by
      rw [unitsOf_eq_zero_iff] at hzero
      omega
    rw [decide_eq_true hneg, le_iff_of_place (x := .zero) rfl rfl, toLex_zero_le_iff]
    omega
  · rw [decide_eq_false hneg, le_iff_of_place (x := .zero) rfl rfl, toLex_zero_le_iff]
    omega

theorem of_ofInt?_le_one_iff (h : ofInt? n = some x) : x ≤ .ofDecimal false 1 0 ↔ n ≤ 1 := by
  rw [eq_of_ofInt? h, ofDecimal_one]
  by_cases hneg : n < 0
  · rw [decide_eq_true hneg, le_iff_of_place rfl rfl, toLex_zero_le_iff]
    omega
  · have hunits := unitsOf_le_one_iff (m := n.natAbs)
    rw [decide_eq_false hneg, le_iff_of_place rfl rfl, toLex_zero_le_iff, Int.ofNat_le, hunits]
    omega

end Integer

theorem not_lt_zero_of_zero_lt {x : Double} (h : .zero < x) : ¬ x < .zero := by
  cases x with
  | nan => exact nofun
  | infinite negative =>
    cases negative with
    | true => cases h
    | false => exact nofun
  | finite negative units =>
    cases negative with
    | true =>
      change some (if 0 = 0 ∧ units = 0 then Ordering.eq else .gt) = some .lt at h
      split at h <;> cases h
    | false =>
      change some (compare units 0) ≠ some .lt
      simp [Nat.compare_eq_lt]

end Double

end CloneDetection

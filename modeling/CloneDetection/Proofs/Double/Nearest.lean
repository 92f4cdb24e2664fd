import CloneDetection.Double.Decimal
import CloneDetection.Proofs.Double.Arithmetic

/-!
# Numbers that round to a double

`Decimal.readsBack` compares a number with the midpoints between a double and its neighbours. What
lies between them is rounded to that double: `roundUnits_of_readsBack`. Below a power of two the
doubles are twice as dense, so there the number may have one significant bit more before it is
rounded.
-/
namespace CloneDetection

section Quotient

variable {num den m : Nat}

/-- The integer within half a unit of a quotient, the even one where there are two. -/
theorem roundDiv_eq_of_near (hlow : 2 * (m * den) ≤ 2 * num + den)
    (hhigh : 2 * num ≤ 2 * (m * den) + den)
    (hodd : m % 2 = 1 → 2 * (m * den) < 2 * num + den ∧ 2 * num < 2 * (m * den) + den)
    (hden : 0 < den) :
    roundDiv num den = m := by
  have hdivide := Nat.div_add_mod num den
  have hrest := Nat.mod_lt num hden
  rw [Nat.mul_comm] at hdivide
  have hle : num / den ≤ m := by
    by_contra hlt
    have hnext : (m + 1) * den ≤ num / den * den := Nat.mul_le_mul_right den (Nat.lt_of_not_le hlt)
    rw [Nat.succ_mul] at hnext
    omega
  have hge : m ≤ num / den + 1 := by
    by_contra hlt
    have hnext : (num / den + 2) * den ≤ m * den := Nat.mul_le_mul_right den (Nat.lt_of_not_le hlt)
    rw [Nat.add_mul] at hnext
    omega
  unfold roundDiv
  dsimp only
  by_cases hsame : num / den = m
  · rw [hsame] at hdivide ⊢
    split_ifs <;> omega
  · have hbelow : m = num / den + 1 := by omega
    have hmul : m * den = num / den * den + den := by rw [hbelow, Nat.succ_mul]
    split_ifs <;> omega

end Quotient

namespace Double

/-- The doubles with a finite number of units: rounding leaves them as they are. -/
structure Representable (units : Nat) : Prop where
  rounded : roundUnits units 1 = units
  bounded : units < Nat.pow 2 2098

/-- A row of 53 bits, not too far up, is a double. -/
theorem representable_of_significand {m k : Nat} (hm : m < Nat.pow 2 53) (hk : k ≤ 2045) :
    Representable (m * Nat.pow 2 k) where
  rounded := roundUnits_of_significand hm.le k
  bounded := by
    have htop : 53 + k ≤ 2098 := by omega
    generalize 2098 = top at htop
    calc m * Nat.pow 2 k < Nat.pow 2 53 * Nat.pow 2 k :=
        Nat.mul_lt_mul_of_pos_right hm (Nat.two_pow_pos k)
      _ = Nat.pow 2 (53 + k) := (Nat.pow_add 2 53 k).symm
      _ ≤ Nat.pow 2 top := Nat.pow_le_pow_right Nat.two_pos htop

/-- A double that a number can be rounded to; not every number of units is one. -/
inductive Proper : Double → Prop
  | nan : Proper .nan
  | infinite (negative : Bool) : Proper (.infinite negative)
  | finite (negative : Bool) {units : Nat} (h : Representable units) :
      Proper (.finite negative units)

/-- A number of units as a row of at most 53 bits; all of them are needed where bits are left
out. -/
structure Significand (units m k : Nat) : Prop where
  eq : units = m * Nat.pow 2 k
  spare : spareBits units = k
  pos : 0 < m
  lt : m < Nat.pow 2 53
  full : 0 < k → Nat.pow 2 52 ≤ m

section Bits

variable {n k : Nat}

theorem spareBits_le (h : n < Nat.pow 2 (53 + k)) : spareBits n ≤ k := by
  by_cases hn : n = 0
  · simp [hn, spareBits]
  · have hlog : n.log2 < 53 + k := (Nat.log2_lt hn).2 h
    unfold spareBits
    omega

theorem le_spareBits (h : Nat.pow 2 (52 + k) ≤ n) : k ≤ spareBits n := by
  have hn : n ≠ 0 := (Nat.lt_of_lt_of_le (Nat.two_pow_pos _) h).ne'
  have hlog : 52 + k ≤ n.log2 := (Nat.le_log2 hn).2 h
  unfold spareBits
  omega

end Bits

theorem Representable.exists_significand {units : Nat} (h : Representable units)
    (hpos : 0 < units) :
    ∃ m k, Significand units m k := by
  have hwhole := h.rounded
  rw [roundUnits, Nat.div_one, Nat.one_mul] at hwhole
  generalize hspare : spareBits units = k at hwhole
  have hlog := hspare
  unfold spareBits at hlog
  have hstep : 0 < Nat.pow 2 k := Nat.two_pow_pos k
  have htop : units < Nat.pow 2 53 * Nat.pow 2 k := by
    calc units < Nat.pow 2 (units.log2 + 1) := Nat.lt_log2_self
      _ ≤ Nat.pow 2 (53 + k) := Nat.pow_le_pow_right Nat.two_pos (by omega)
      _ = Nat.pow 2 53 * Nat.pow 2 k := Nat.pow_add 2 53 k
  have hfull : 0 < k → Nat.pow 2 52 * Nat.pow 2 k ≤ units := by
    intro hk
    calc Nat.pow 2 52 * Nat.pow 2 k = Nat.pow 2 (52 + k) := (Nat.pow_add 2 52 k).symm
      _ ≤ units := (Nat.le_log2 hpos.ne').1 (by omega)
  generalize roundDiv units (Nat.pow 2 k) = m at hwhole
  rw [← hwhole] at htop hfull hpos
  exact ⟨m, k, hwhole.symm, hspare, Nat.pos_of_mul_pos_right hpos, Nat.lt_of_mul_lt_mul_right htop,
    fun hk => Nat.le_of_mul_le_mul_right (hfull hk) hstep⟩

section Near

variable {units m k num den : Nat}

/-- Between the midpoints to the neighbours of `m * 2 ^ k`, in units of which `den` are one. The
midpoints belong to the double if it is even; below a power of two the lower one is nearer. -/
structure Near (m k num den : Nat) : Prop where
  low : 2 * (m * (den * Nat.pow 2 k)) ≤ 2 * num + den * Nat.pow 2 k
  high : 2 * num ≤ 2 * (m * (den * Nat.pow 2 k)) + den * Nat.pow 2 k
  odd : m % 2 = 1 → 2 * (m * (den * Nat.pow 2 k)) < 2 * num + den * Nat.pow 2 k ∧
    2 * num < 2 * (m * (den * Nat.pow 2 k)) + den * Nat.pow 2 k
  dense : m = Nat.pow 2 52 → 0 < k → 4 * (m * (den * Nat.pow 2 k)) ≤ 4 * num + den * Nat.pow 2 k

theorem near_iff_of_even (heven : m % 2 = 0) (hsparse : ¬ (m = Nat.pow 2 52 ∧ 0 < k)) :
    Near m k num den ↔ 2 * (m * (den * Nat.pow 2 k)) ≤ 2 * num + den * Nat.pow 2 k ∧
      2 * num ≤ 2 * (m * (den * Nat.pow 2 k)) + den * Nat.pow 2 k :=
  ⟨fun h => ⟨h.low, h.high⟩,
    fun ⟨hlow, hhigh⟩ => ⟨hlow, hhigh, by omega, fun hm hk => absurd ⟨hm, hk⟩ hsparse⟩⟩

theorem near_iff_of_odd (hodd : m % 2 = 1) :
    Near m k num den ↔ 2 * (m * (den * Nat.pow 2 k)) < 2 * num + den * Nat.pow 2 k ∧
      2 * num < 2 * (m * (den * Nat.pow 2 k)) + den * Nat.pow 2 k := by
  refine ⟨fun h => h.odd hodd, fun ⟨hlow, hhigh⟩ => ⟨hlow.le, hhigh.le, fun _ => ⟨hlow, hhigh⟩, ?_⟩⟩
  rintro rfl
  exact absurd hodd (by decide)

theorem near_iff_of_dense (hm : m = Nat.pow 2 52) (hk : 0 < k) :
    Near m k num den ↔ 4 * (m * (den * Nat.pow 2 k)) ≤ 4 * num + den * Nat.pow 2 k ∧
      2 * num ≤ 2 * (m * (den * Nat.pow 2 k)) + den * Nat.pow 2 k := by
  refine ⟨fun h => ⟨h.dense hm hk, h.high⟩,
    fun ⟨hlow, hhigh⟩ => ⟨by omega, hhigh, fun hodd => ?_, fun _ _ => hlow⟩⟩
  rw [hm] at hodd
  exact absurd hodd (by decide)

theorem Significand.readsBack_iff (h : Significand units m k) :
    Decimal.readsBack units (4 * num) den = true ↔ Near m k num den := by
  have hm : units / Nat.pow 2 k = m := by
    rw [h.eq]
    exact Nat.mul_div_cancel m (Nat.two_pow_pos k)
  have hk : 1 < Nat.pow 2 k ↔ 0 < k := Nat.one_lt_two_pow_iff.trans Nat.pos_iff_ne_zero.symm
  have hunits : units * den = m * (den * Nat.pow 2 k) := by
    rw [h.eq, Nat.mul_assoc, Nat.mul_comm den]
  have hgap : Nat.pow 2 k * den = den * Nat.pow 2 k := Nat.mul_comm _ _
  have hwide : den * Nat.pow 2 k ≤ m * (den * Nat.pow 2 k) := Nat.le_mul_of_pos_left _ h.pos
  have hnear : (4 * units - Nat.pow 2 k) * den =
      4 * (m * (den * Nat.pow 2 k)) - den * Nat.pow 2 k := by
    rw [Nat.sub_mul, Nat.mul_assoc, hunits, hgap]
  have hlow : (4 * units - 2 * Nat.pow 2 k) * den =
      4 * (m * (den * Nat.pow 2 k)) - 2 * (den * Nat.pow 2 k) := by
    rw [Nat.sub_mul, Nat.mul_assoc, Nat.mul_assoc, hunits, hgap]
  have hhigh : (4 * units + 2 * Nat.pow 2 k) * den =
      4 * (m * (den * Nat.pow 2 k)) + 2 * (den * Nat.pow 2 k) := by
    rw [Nat.add_mul, Nat.mul_assoc, Nat.mul_assoc, hunits, hgap]
  unfold Decimal.readsBack
  rw [h.spare]
  dsimp only
  rw [hm, hhigh]
  by_cases hdense : m = Nat.pow 2 52 ∧ 0 < k
  · have heven : m % 2 = 0 := by rw [hdense.1]
    rw [if_pos heven, if_pos ⟨hdense.1, hk.2 hdense.2⟩, hnear, Bool.and_eq_true, decide_eq_true_eq,
      decide_eq_true_eq, near_iff_of_dense hdense.1 hdense.2]
    omega
  · have hsparse : ¬ (m = Nat.pow 2 52 ∧ 1 < Nat.pow 2 k) := by rwa [hk]
    rw [if_neg hsparse, hlow]
    by_cases heven : m % 2 = 0
    · rw [if_pos heven, Bool.and_eq_true, decide_eq_true_eq, decide_eq_true_eq,
        near_iff_of_even heven hdense]
      omega
    · rw [if_neg heven, Bool.and_eq_true, decide_eq_true_eq, decide_eq_true_eq,
        near_iff_of_odd (by omega)]
      omega

theorem Near.bounds (h : Near m k num den) (hsig : Significand units m k) :
    units * den ≤ 2 * num ∧ 2 * num ≤ 3 * (units * den) := by
  have hunits : units * den = m * (den * Nat.pow 2 k) := by
    rw [hsig.eq, Nat.mul_assoc, Nat.mul_comm den]
  have hwide : den * Nat.pow 2 k ≤ m * (den * Nat.pow 2 k) := Nat.le_mul_of_pos_left _ hsig.pos
  have hlow := h.low
  have hhigh := h.high
  omega

theorem pow_mul_pow (den a k : Nat) :
    Nat.pow 2 a * (den * Nat.pow 2 k) = den * Nat.pow 2 (a + k) := by
  have hpow : Nat.pow 2 (a + k) = Nat.pow 2 a * Nat.pow 2 k := Nat.pow_add 2 a k
  rw [hpow, Nat.mul_left_comm]

theorem top_mul (n : Nat) : Nat.pow 2 53 * n = 2 * (Nat.pow 2 52 * n) := by
  have htop : Nat.pow 2 53 = 2 * Nat.pow 2 52 := by decide
  rw [htop, Nat.mul_assoc]

theorem spareBits_div_le (hden : 0 < den) (h : num < Nat.pow 2 53 * (den * Nat.pow 2 k)) :
    spareBits (num / den) ≤ k := by
  rw [pow_mul_pow] at h
  exact spareBits_le ((Nat.div_lt_iff_lt_mul hden).2 (h.trans_eq (Nat.mul_comm _ _)))

theorem le_spareBits_div (hden : 0 < den) (h : Nat.pow 2 52 * (den * Nat.pow 2 k) ≤ num) :
    k ≤ spareBits (num / den) := by
  rw [pow_mul_pow] at h
  exact le_spareBits ((Nat.le_div_iff_mul_le hden).2 ((Nat.mul_comm _ _).trans_le h))

/-- Just below a power of two the step is the smaller one, and the power is reached from half a step
away. -/
theorem roundUnits_below_pow (hden : 0 < den)
    (hlow : 2 * (Nat.pow 2 53 * (den * Nat.pow 2 k)) ≤ 2 * num + den * Nat.pow 2 k)
    (hhigh : num < Nat.pow 2 53 * (den * Nat.pow 2 k)) :
    roundUnits num den = Nat.pow 2 53 * Nat.pow 2 k := by
  have hstep : 0 < den * Nat.pow 2 k := Nat.mul_pos hden (Nat.two_pow_pos k)
  have hspare : spareBits (num / den) = k := by
    apply Nat.le_antisymm (spareBits_div_le hden hhigh)
    apply le_spareBits_div hden
    have hone : den * Nat.pow 2 k ≤ Nat.pow 2 52 * (den * Nat.pow 2 k) :=
      Nat.le_mul_of_pos_left _ (Nat.two_pow_pos 52)
    rw [top_mul] at hlow hhigh
    omega
  unfold roundUnits
  dsimp only
  rw [hspare, roundDiv_eq_of_near hlow (by omega) (fun hodd => absurd hodd (by decide)) hstep]

/-- Of the doubles with this step only the least one is near anything below `2 ^ 52` steps. -/
theorem Near.significand_eq (h : Near m k num den) (hsig : Significand units m k) (hk : 0 < k)
    (hlt : num < Nat.pow 2 52 * (den * Nat.pow 2 k)) : m = Nat.pow 2 52 := by
  apply Nat.le_antisymm _ (hsig.full hk)
  by_contra habove
  have hnext : (Nat.pow 2 52 + 1) * (den * Nat.pow 2 k) ≤ m * (den * Nat.pow 2 k) :=
    Nat.mul_le_mul_right _ (Nat.lt_of_not_le habove)
  have hlow := h.low
  rw [Nat.succ_mul] at hnext
  omega

theorem Near.roundUnits_eq (h : Near m k num den) (hsig : Significand units m k) (hden : 0 < den) :
    roundUnits num den = units := by
  have hstep : 0 < den * Nat.pow 2 k := Nat.mul_pos hden (Nat.two_pow_pos k)
  have htop : m * (den * Nat.pow 2 k) + den * Nat.pow 2 k ≤ Nat.pow 2 53 * (den * Nat.pow 2 k) := by
    rw [← Nat.succ_mul]
    exact Nat.mul_le_mul_right _ hsig.lt
  have hhigh := h.high
  have hle : spareBits (num / den) ≤ k := spareBits_div_le hden (by omega)
  by_cases hsame : spareBits (num / den) = k
  · unfold roundUnits
    dsimp only
    rw [hsame, roundDiv_eq_of_near h.low h.high h.odd hstep, hsig.eq]
  · -- only what lies below a power of two is rounded with a smaller step
    have hlt : num < Nat.pow 2 52 * (den * Nat.pow 2 k) := by
      by_contra hreached
      have hge := le_spareBits_div hden (Nat.le_of_not_lt hreached)
      omega
    obtain ⟨j, rfl⟩ : ∃ j, k = j + 1 := ⟨k - 1, by omega⟩
    have hm : m = Nat.pow 2 52 := h.significand_eq hsig j.succ_pos hlt
    have hdense := h.dense hm j.succ_pos
    have hpow : Nat.pow 2 (j + 1) = 2 * Nat.pow 2 j := (Nat.pow_succ 2 j).trans (Nat.mul_comm _ _)
    have hhalf : den * Nat.pow 2 (j + 1) = 2 * (den * Nat.pow 2 j) := by
      rw [hpow, Nat.mul_left_comm]
    have hsteps : Nat.pow 2 52 * (den * Nat.pow 2 (j + 1)) =
        Nat.pow 2 53 * (den * Nat.pow 2 j) := by
      rw [hhalf, top_mul, Nat.mul_left_comm]
    rw [hm, hsteps, hhalf] at hdense
    rw [hsteps] at hlt
    rw [roundUnits_below_pow hden (by omega) hlt, hsig.eq, hm, hpow, top_mul, Nat.mul_left_comm]

theorem Representable.ofUnits_eq (h : Representable units) (hpos : 0 < units) (hden : 0 < den)
    (hback : Decimal.readsBack units (4 * num) den = true) (negative : Bool) :
    ofUnits negative num den = .finite negative units := by
  obtain ⟨m, k, hsig⟩ := h.exists_significand hpos
  have hround := (hsig.readsBack_iff.1 hback).roundUnits_eq hsig hden
  have hbounded := h.bounded
  unfold ofUnits
  generalize Nat.pow 2 2098 = top at hbounded ⊢
  dsimp only
  rw [hround, if_pos hbounded]

end Near

end Double

end CloneDetection

import CloneDetection.Proofs.Double.Nearest
import CloneDetection.Proofs.Text.Digits
import Mathlib.Tactic.Ring

/-!
# The shortest digits read back

Whether a decimal number reads back as a double depends on its value only, not on how many zeros end
its digits. Of the grids that `shortest` tries the finest one has a step below the distance of
neighbouring doubles, so there the point nearest to the double reads back, and the search always
ends with digits that do: `reads_shortest`. Read as a number they are the double again:
`Decimal.Reads.ofDecimal_eq`.
-/
namespace CloneDetection

namespace Decimal

/-- The number of units of a decimal number as a fraction. -/
def num (d : Decimal) : Nat :=
  d.digits * 10 ^ d.exponent.toNat * Double.one

def den (d : Decimal) : Nat :=
  10 ^ (-d.exponent).toNat

def Reads (d : Decimal) (units : Nat) : Prop :=
  readsBack units (4 * d.num) d.den = true

theorem den_pos (d : Decimal) : 0 < d.den :=
  Nat.pow_pos (by decide)

section Value

variable {units num den num' den' : Nat}

/-- Whether a fraction reads back depends on its value only. -/
theorem readsBack_congr (hden : 0 < den) (hden' : 0 < den') (h : num * den' = num' * den) :
    readsBack units num den = readsBack units num' den' := by
  have hle (b : Nat) : b * den ≤ num ↔ b * den' ≤ num' := by
    rw [← Nat.mul_le_mul_right_iff hden', h, Nat.mul_right_comm, Nat.mul_le_mul_right_iff hden]
  have hge (b : Nat) : num ≤ b * den ↔ num' ≤ b * den' := by
    rw [← Nat.mul_le_mul_right_iff hden', h, Nat.mul_right_comm, Nat.mul_le_mul_right_iff hden]
  have hlt (b : Nat) : b * den < num ↔ b * den' < num' := by
    rw [← Nat.not_le, ← Nat.not_le, hge]
  have hgt (b : Nat) : num < b * den ↔ num' < b * den' := by
    rw [← Nat.not_le, ← Nat.not_le, hle]
  unfold readsBack
  simp only [hle, hge, hlt, hgt]

theorem num_mul_den_of_same {d d' : Decimal} {n a b : Nat} (hd : d.digits = n * 10 ^ a)
    (hd' : d'.digits = n * 10 ^ b) (hexponent : d.exponent + a = d'.exponent + b) :
    d.num * d'.den = d'.num * d.den := by
  have hpow : a + d.exponent.toNat + (-d'.exponent).toNat =
      b + d'.exponent.toNat + (-d.exponent).toNat := by omega
  unfold num den
  rw [hd, hd']
  calc n * 10 ^ a * 10 ^ d.exponent.toNat * Double.one * 10 ^ (-d'.exponent).toNat
      = n * Double.one * 10 ^ (a + d.exponent.toNat + (-d'.exponent).toNat) := by ring
    _ = n * Double.one * 10 ^ (b + d'.exponent.toNat + (-d.exponent).toNat) := by rw [hpow]
    _ = n * 10 ^ b * 10 ^ d'.exponent.toNat * Double.one * 10 ^ (-d.exponent).toNat := by ring

/-- Zeros at the end of the digits are as good as a larger exponent. -/
theorem Reads.of_same {d d' : Decimal} {n a b : Nat} (h : d.Reads units)
    (hd : d.digits = n * 10 ^ a) (hd' : d'.digits = n * 10 ^ b)
    (hexponent : d.exponent + a = d'.exponent + b) : d'.Reads units := by
  unfold Reads at h ⊢
  rw [← h]
  apply readsBack_congr d'.den_pos d.den_pos
  rw [Nat.mul_assoc, Nat.mul_assoc, num_mul_den_of_same hd hd' hexponent]

end Value

theorem onGrid_eq (num den : Nat) (exponent : Int) :
    onGrid num den exponent = (num * 10 ^ (-exponent).toNat, den * 10 ^ exponent.toNat) := by
  unfold onGrid
  split
  · next h =>
    have hzero : (-exponent).toNat = 0 := by omega
    simp [hzero]
  · next h =>
    have hzero : exponent.toNat = 0 := by omega
    have habs : exponent.natAbs = (-exponent).toNat := by omega
    simp [hzero, habs]

section Candidate

variable {units n : Nat} {exponent : Int}

/-- The test that is put to the points of a grid. -/
def back (units : Nat) (exponent : Int) (n : Nat) : Bool :=
  if 0 ≤ exponent then readsBack units (n * Nat.pow 10 exponent.toNat * 4 * Double.one) 1
  else readsBack units (n * 4 * Double.one) (Nat.pow 10 exponent.natAbs)

theorem reads_iff_back : (⟨n, exponent⟩ : Decimal).Reads units ↔ back units exponent n = true := by
  unfold Reads num den back
  dsimp only
  by_cases h : 0 ≤ exponent
  · have hzero : (-exponent).toNat = 0 := by omega
    rw [if_pos h, hzero, Nat.pow_eq, Nat.pow_zero, Nat.mul_left_comm, Nat.mul_assoc _ 4]
  · have hzero : exponent.toNat = 0 := by omega
    have habs : exponent.natAbs = (-exponent).toNat := by omega
    rw [if_neg h, hzero, habs, Nat.pow_eq, Nat.pow_zero, Nat.mul_one, Nat.mul_left_comm,
      Nat.mul_assoc]

theorem candidate?_eq (units : Nat) (exponent : Int) :
    ∃ far, candidate? units exponent =
      if back units exponent
        (roundDiv (units * 10 ^ (-exponent).toNat) (Double.one * 10 ^ exponent.toNat)) then
        some (roundDiv (units * 10 ^ (-exponent).toNat) (Double.one * 10 ^ exponent.toNat))
      else if back units exponent far then some far else none := by
  unfold candidate?
  rw [onGrid_eq]
  exact ⟨_, rfl⟩

theorem reads_of_candidate? (h : candidate? units exponent = some n) :
    (⟨n, exponent⟩ : Decimal).Reads units := by
  obtain ⟨far, hcandidate⟩ := candidate?_eq units exponent
  rw [hcandidate] at h
  rw [reads_iff_back]
  split at h
  · next hnear => rwa [← Option.some.inj h]
  · split at h
    · next hfar => rwa [← Option.some.inj h]
    · cases h

/-- On a grid whose step is far below the double the nearest point reads back. -/
theorem reads_near (h : Double.Representable units) (hpos : 0 < units)
    (hfine : Double.one * 10 ^ exponent.toNat * 10 ^ 16 ≤ units * 10 ^ (-exponent).toNat) :
    (⟨roundDiv (units * 10 ^ (-exponent).toNat) (Double.one * 10 ^ exponent.toNat), exponent⟩ :
      Decimal).Reads units := by
  obtain ⟨m, k, hsig⟩ := h.exists_significand hpos
  unfold Reads
  rw [hsig.readsBack_iff]
  have hstep : 0 < Double.one * 10 ^ exponent.toNat :=
    Nat.mul_pos Double.one_pos (Nat.pow_pos (by decide))
  have hround := @roundDiv_near (units * 10 ^ (-exponent).toNat) _ hstep
  generalize hn : roundDiv (units * 10 ^ (-exponent).toNat) (Double.one * 10 ^ exponent.toNat) =
    n at hround
  have hnum : (⟨n, exponent⟩ : Decimal).num = n * (Double.one * 10 ^ exponent.toNat) := by
    rw [num, Nat.mul_assoc, Nat.mul_comm Double.one]
  have hunits : units * 10 ^ (-exponent).toNat = m * (10 ^ (-exponent).toNat * Nat.pow 2 k) := by
    rw [hsig.eq, Nat.mul_assoc, Nat.mul_comm (Nat.pow 2 k)]
  rw [hnum]
  change Double.Near m k (n * (Double.one * 10 ^ exponent.toNat)) (10 ^ (-exponent).toNat)
  rw [hunits] at hround hfine
  generalize n * (Double.one * 10 ^ exponent.toNat) = point at hround ⊢
  generalize Double.one * 10 ^ exponent.toNat = step at hround hfine
  have hlt : m * (10 ^ (-exponent).toNat * Nat.pow 2 k) ≤
      2 ^ 53 * (10 ^ (-exponent).toNat * Nat.pow 2 k) :=
    Nat.mul_le_mul_right _ hsig.lt.le
  have hdistance : 0 < 10 ^ (-exponent).toNat * Nat.pow 2 k :=
    Nat.mul_pos (Nat.pow_pos (by decide)) (Nat.two_pow_pos k)
  refine ⟨by omega, by omega, fun _ => by omega, fun hm _ => ?_⟩
  -- below a power of two the distance is half as long, and so is the step against it
  have hpow : m * (10 ^ (-exponent).toNat * Nat.pow 2 k) =
      2 ^ 52 * (10 ^ (-exponent).toNat * Nat.pow 2 k) := by
    rw [hm, Nat.pow_eq]
  omega

end Candidate

section Search

variable {units : Nat}

theorem pow_magnitude_le {num den : Nat} (hnum : 0 < num) (hden : 0 < den) :
    den * 10 ^ (magnitude num den).toNat ≤ num * 10 ^ (-magnitude num den).toNat := by
  unfold magnitude
  by_cases h : den ≤ num
  · have hlength : 0 < (Text.natural (num / den)).length := Nat.length_toDigits_pos
    have htop : (((Text.natural (num / den)).length : Int) - 1).toNat =
        (Text.natural (num / den)).length - 1 := by omega
    have hzero : (-(((Text.natural (num / den)).length : Int) - 1)).toNat = 0 := by omega
    rw [if_pos h, htop, hzero, Nat.pow_zero, Nat.mul_one, Nat.mul_comm,
      ← Nat.le_div_iff_mul_le hden]
    exact Text.pow_length_natural_le (Nat.div_pos h hden)
  · rw [if_neg h, Int.neg_neg, Int.toNat_natCast, Int.toNat_neg_natCast, Nat.pow_zero, Nat.mul_one]
    -- the quotient the other way round, rounded up, has at most so many digits
    have hceil : den ≤ num * ((den + num - 1) / num) := by
      have hlt := Nat.lt_mul_div_succ (den + num - 1) hnum
      rw [Nat.mul_succ] at hlt
      omega
    have hdigits : (den + num - 1) / num - 1 <
        10 ^ (Text.natural ((den + num - 1) / num - 1)).length :=
      Text.lt_pow_length_natural _
    exact hceil.trans (Nat.mul_le_mul_left num (by omega))

theorem fine_of_magnitude {num den : Nat} {top : Int}
    (h : den * 10 ^ top.toNat ≤ num * 10 ^ (-top).toNat) :
    den * 10 ^ (top - 16).toNat * 10 ^ 16 ≤ num * 10 ^ (-(top - 16)).toNat := by
  have hsplit : (top - 16).toNat + 16 = top.toNat + ((-(top - 16)).toNat - (-top).toNat) := by omega
  have hsplit' : (-(top - 16)).toNat = (-top).toNat + ((-(top - 16)).toNat - (-top).toNat) := by
    omega
  rw [Nat.mul_assoc, ← Nat.pow_add, hsplit, Nat.pow_add, ← Nat.mul_assoc]
  conv_rhs => rw [hsplit', Nat.pow_add, ← Nat.mul_assoc]
  exact Nat.mul_le_mul_right _ h

theorem candidate?_of_fine {exponent : Int} (h : Double.Representable units) (hpos : 0 < units)
    (hfine : Double.one * 10 ^ exponent.toNat * 10 ^ 16 ≤ units * 10 ^ (-exponent).toNat) :
    ∃ n, candidate? units exponent = some n := by
  obtain ⟨far, hcandidate⟩ := candidate?_eq units exponent
  rw [hcandidate, if_pos (reads_iff_back.1 (reads_near h hpos hfine))]
  exact ⟨_, rfl⟩

theorem reads_shortest (h : Double.Representable units) (hpos : 0 < units) :
    (shortest units).Reads units := by
  unfold shortest
  dsimp only
  split
  · next d hfound =>
    obtain ⟨e, -, he⟩ := List.exists_of_findSome?_eq_some hfound
    obtain ⟨n, hn, rfl⟩ := Option.map_eq_some_iff.1 he
    exact reads_of_candidate? hn
  · next hnone =>
    obtain ⟨n, hn⟩ :=
      candidate?_of_fine h hpos (fine_of_magnitude (pow_magnitude_le hpos Double.one_pos))
    have hfine : magnitude units Double.one - 16 ∈ (List.range 17).map fun k :
        Nat => magnitude units Double.one - k :=
      List.mem_map.2 ⟨16, by decide, rfl⟩
    have hmissed := List.findSome?_eq_none_iff.1 hnone _ hfine
    rw [hn] at hmissed
    cases hmissed

end Search

section Read

variable {units : Nat} {d : Decimal}

theorem Reads.bounds (h : d.Reads units) (hunits : Double.Representable units) (hpos : 0 < units) :
    units * d.den ≤ 2 * d.num ∧ 2 * d.num ≤ 3 * (units * d.den) := by
  obtain ⟨m, k, hsig⟩ := hunits.exists_significand hpos
  exact (hsig.readsBack_iff.1 h).bounds hsig

theorem Reads.digits_pos (h : d.Reads units) (hunits : Double.Representable units)
    (hpos : 0 < units) : 0 < d.digits := by
  apply Nat.pos_of_ne_zero
  intro hzero
  have hlow := (h.bounds hunits hpos).1
  have hden := Nat.mul_pos hpos d.den_pos
  rw [num, hzero, Nat.zero_mul, Nat.zero_mul] at hlow
  omega

theorem two_pow_le_ten_pow (n : Nat) : 2 ^ (3 * n) ≤ 10 ^ n := by
  rw [Nat.pow_mul]
  exact Nat.pow_le_pow_left (by decide) n

/-- A number as large as a double has no large exponent. -/
theorem Reads.exponent_le (h : d.Reads units) (hunits : Double.Representable units)
    (hpos : 0 < units) :
    d.exponent ≤ 400 := by
  by_contra hlarge
  have hzero : (-d.exponent).toNat = 0 := by omega
  have hhigh := (h.bounds hunits hpos).2
  have hbounded := hunits.bounded
  have hdigits := h.digits_pos hunits hpos
  rw [den, hzero, Nat.pow_zero, Nat.mul_one, num] at hhigh
  unfold Double.one at hhigh
  have htop : 2098 = 1074 + 1024 := rfl
  generalize 2098 = top at htop hbounded
  generalize 1074 = low at htop hhigh
  have hreached : 2 ^ (top + 2) ≤ d.digits * 10 ^ d.exponent.toNat * Nat.pow 2 low := by
    calc 2 ^ (top + 2) ≤ 2 ^ (3 * d.exponent.toNat + low) :=
        Nat.pow_le_pow_right Nat.two_pos (by omega)
      _ = 2 ^ (3 * d.exponent.toNat) * 2 ^ low := Nat.pow_add 2 _ _
      _ ≤ d.digits * 10 ^ d.exponent.toNat * 2 ^ low := by
        apply Nat.mul_le_mul_right
        exact (two_pow_le_ten_pow _).trans (Nat.le_mul_of_pos_left _ hdigits)
  rw [Nat.pow_add] at hreached
  rw [Nat.pow_eq] at hbounded
  omega

/-- A number as large as the smallest double has no exponent that its digits do not make up for. -/
theorem Reads.le_exponent (h : d.Reads units) (hunits : Double.Representable units)
    (hpos : 0 < units) :
    -400 ≤ d.exponent + (Nat.log2 d.digits / 3 : Nat) := by
  by_contra hsmall
  have hzero : d.exponent.toNat = 0 := by omega
  have hlow := (h.bounds hunits hpos).1
  rw [num, hzero, Nat.pow_zero, Nat.mul_one, den] at hlow
  unfold Double.one at hlow
  have hbottom : 1074 < 1199 := by decide
  generalize 1074 = low at hbottom hlow
  have hreached : 2 ^ (3 * (-d.exponent).toNat) < 2 ^ (d.digits.log2 + 1 + low + 1) := by
    calc 2 ^ (3 * (-d.exponent).toNat) ≤ 10 ^ (-d.exponent).toNat := two_pow_le_ten_pow _
      _ ≤ units * 10 ^ (-d.exponent).toNat := Nat.le_mul_of_pos_left _ hpos
      _ ≤ 2 * (d.digits * 2 ^ low) := hlow
      _ < 2 * (2 ^ (d.digits.log2 + 1) * 2 ^ low) := by
        apply Nat.mul_lt_mul_of_pos_left _ Nat.two_pos
        exact Nat.mul_lt_mul_of_pos_right Nat.lt_log2_self (Nat.two_pow_pos low)
      _ = 2 ^ (d.digits.log2 + 1 + low + 1) := by
        rw [Nat.pow_succ 2 (_ + low), Nat.pow_add 2 _ low, Nat.mul_comm 2]
  have hexponents := (Nat.pow_lt_pow_iff_right (by decide)).1 hreached
  omega

theorem Reads.ofDecimal_eq (h : d.Reads units) (hunits : Double.Representable units)
    (hpos : 0 < units) (negative : Bool) :
    Double.ofDecimal negative d.digits d.exponent = .finite negative units := by
  have hdigits := h.digits_pos hunits hpos
  have hhigh := h.exponent_le hunits hpos
  have hlow := h.le_exponent hunits hpos
  have hrounded := hunits.ofUnits_eq hpos d.den_pos h negative
  unfold Double.ofDecimal
  rw [if_neg hdigits.ne', if_neg (by omega), if_neg (by omega), ← hrounded]
  unfold num den
  split
  · next hexponent =>
    have hzero : (-d.exponent).toNat = 0 := by omega
    rw [hzero, Nat.pow_zero, Nat.pow_eq]
  · next hexponent =>
    have hzero : d.exponent.toNat = 0 := by omega
    have habs : d.exponent.natAbs = (-d.exponent).toNat := by omega
    rw [hzero, habs, Nat.pow_zero, Nat.mul_one, Nat.pow_eq]

end Read

end Decimal

end CloneDetection

import CloneDetection.Proofs.Double.Rounding

/-!
# Arithmetic keeps the order

The doubles without a sign are the finite ones by their units, and the infinite one above them. An
operation rounds the exact result once, and rounding keeps the order, so sums keep the order of both
parts, products and quotients by a positive number that of the other part, differences that of the
first part. A sum less something is not rounded up past the sum, for what is rounded once is not
changed by rounding it again.
-/
namespace CloneDetection

namespace Double

section Rounded

/-- No more than 53 significant bits are left as they are. -/
theorem roundUnits_of_significand {m : Nat} (hm : m ≤ Nat.pow 2 53) (k : Nat) :
    roundUnits (m * Nat.pow 2 k) 1 = m * Nat.pow 2 k := by
  rcases Nat.eq_or_lt_of_le hm with rfl | hlt
  · have hpow : Nat.pow 2 53 * Nat.pow 2 k = Nat.pow 2 (53 + k) := (Nat.pow_add 2 53 k).symm
    rw [hpow, roundUnits_pow]
  · by_cases hzero : m = 0
    · rw [hzero, Nat.zero_mul]
      rfl
    · have hne : m * Nat.pow 2 k ≠ 0 := Nat.mul_ne_zero hzero (Nat.two_pow_pos k).ne'
      have hbelow : m * Nat.pow 2 k < Nat.pow 2 (53 + k) :=
        (Nat.mul_lt_mul_of_pos_right hlt (Nat.two_pow_pos k)).trans_eq (Nat.pow_add 2 53 k).symm
      have hlog : (m * Nat.pow 2 k).log2 < 53 + k := (Nat.log2_lt hne).2 hbelow
      have hspare : spareBits (m * Nat.pow 2 k) ≤ k := by
        unfold spareBits
        omega
      -- the step divides the number
      generalize hstep : spareBits (m * Nat.pow 2 k) = s at hspare
      have hsplit : m * Nat.pow 2 k = m * Nat.pow 2 (k - s) * Nat.pow 2 s := by
        rw [Nat.mul_assoc]
        exact congrArg (m * ·) (Nat.pow_sub_mul_pow 2 hspare).symm
      have hstepPos : 0 < Nat.pow 2 s := Nat.two_pow_pos s
      rw [roundUnits, Nat.div_one, Nat.one_mul, hstep, hsplit, roundDiv_mul _ hstepPos]

theorem exists_significand (num : Nat) {den : Nat} (hden : 0 < den) :
    ∃ m k, m ≤ Nat.pow 2 53 ∧ roundUnits num den = m * Nat.pow 2 k := by
  refine ⟨_, spareBits (num / den), ?_, rfl⟩
  have hstep : 0 < den * Nat.pow 2 (spareBits (num / den)) := Nat.mul_pos hden (Nat.two_pow_pos _)
  have hnum : num ≤ Nat.pow 2 53 * (den * Nat.pow 2 (spareBits (num / den))) := by
    have hlog : (num / den).log2 + 1 ≤ 53 + spareBits (num / den) := by
      unfold spareBits
      omega
    calc num ≤ den * (num / den + 1) := (Nat.lt_mul_div_succ num hden).le
      _ ≤ den * Nat.pow 2 ((num / den).log2 + 1) := Nat.mul_le_mul_left den Nat.lt_log2_self
      _ ≤ den * Nat.pow 2 (53 + spareBits (num / den)) :=
          Nat.mul_le_mul_left den (Nat.pow_le_pow_right Nat.two_pos hlog)
      _ = Nat.pow 2 53 * (den * Nat.pow 2 (spareBits (num / den))) := by
          rw [show Nat.pow 2 (53 + spareBits (num / den)) =
            Nat.pow 2 53 * Nat.pow 2 (spareBits (num / den)) from
            Nat.pow_add 2 _ _, Nat.mul_left_comm]
  calc roundDiv num (den * Nat.pow 2 (spareBits (num / den)))
      ≤ roundDiv (Nat.pow 2 53 * (den * Nat.pow 2 (spareBits (num / den))))
        (den * Nat.pow 2 (spareBits (num / den))) :=
        roundDiv_mono hnum
    _ = Nat.pow 2 53 := roundDiv_mul _ hstep

theorem roundUnits_roundUnits (num : Nat) {den : Nat} (hden : 0 < den) :
    roundUnits (roundUnits num den) 1 = roundUnits num den := by
  obtain ⟨m, k, hm, hrounded⟩ := exists_significand num hden
  rw [hrounded, roundUnits_of_significand hm]

theorem ofUnits_of_ofUnits {num den units : Nat} (hden : 0 < den)
    (h : ofUnits false num den = .finite false units) :
    ofUnits false units 1 = .finite false units := by
  unfold ofUnits at h ⊢
  generalize Nat.pow 2 2098 = top at h ⊢
  dsimp only at h ⊢
  split at h
  · next hfits =>
    cases h
    rw [roundUnits_roundUnits num hden, if_pos hfits]
  · cases h

end Rounded

/-- Two doubles without a sign, in order. -/
inductive Ascends : Double → Double → Prop
  | finite {m n : Nat} (h : m ≤ n) : Ascends (.finite false m) (.finite false n)
  | toInfinite (m : Nat) : Ascends (.finite false m) (.infinite false)
  | infinite : Ascends (.infinite false) (.infinite false)

theorem finite_lt_finite_iff {m n : Nat} : Double.finite false m < .finite false n ↔ m < n := by
  change some (compare m n) = some .lt ↔ _
  rw [Option.some.injEq, Nat.compare_eq_lt]

/-- Between zero and another double there are only finite ones without a sign. -/
theorem exists_units_of_lt {x y : Double} (hpos : .zero < x) (hlt : x < y) :
    ∃ m, 0 < m ∧ x = .finite false m := by
  cases x with
  | nan => cases hpos
  | infinite s =>
    cases s with
    | true => cases hpos
    | false =>
      cases y with
      | nan => cases hlt
      | infinite s => cases s <;> cases hlt
      | finite s n => cases hlt
  | finite s m =>
    cases s with
    | true =>
      change some (if 0 = 0 ∧ m = 0 then Ordering.eq else .gt) = some .lt at hpos
      split at hpos <;> cases hpos
    | false => exact ⟨m, finite_lt_finite_iff.1 hpos, rfl⟩

theorem ofInt?_of_nonneg {n : Int} (h : 0 ≤ n) :
    ofInt? n = (ofUnits false (n.natAbs * one) 1).finite? := by
  rw [ofInt?, decide_eq_false (by omega)]

section Operations

/-! What an operation gives for numbers without a sign. -/

variable {c m n : Nat}

theorem finite_add_finite : Double.finite false m + .finite false n = .ofUnits false (m + n) 1 := by
  change Double.add _ _ = _
  rw [add]

theorem finite_add_infinite : Double.finite false m + .infinite false = .infinite false := rfl

theorem infinite_add_finite : Double.infinite false + .finite false m = .infinite false := rfl

theorem infinite_add_infinite : Double.infinite false + .infinite false = .infinite false := rfl

theorem finite_sub_finite (h : c ≤ m) :
    Double.finite false m - .finite false c = .ofUnits false (m - c) 1 :=
  if_neg (by omega)

theorem infinite_sub_finite : Double.infinite false - .finite false c = .infinite false := rfl

theorem finite_mul_finite :
    Double.finite false m * .finite false n = .ofUnits false (m * n) one := by
  change Double.mul _ _ = _
  rw [mul, bne_self_eq_false]

theorem finite_mul_infinite (hc : 0 < c) :
    Double.finite false c * .infinite false = .infinite false :=
  if_neg hc.ne'

theorem finite_div_finite (hc : 0 < c) :
    Double.finite false m / .finite false c = .ofUnits false (m * one) c :=
  if_neg hc.ne'

theorem infinite_div_finite : Double.infinite false / .finite false c = .infinite false := rfl

theorem mul_comm (x y : Double) : x * y = y * x := by
  change x.mul y = y.mul x
  cases x <;> cases y <;> simp [mul, Nat.mul_comm, Bool.xor_comm]

end Operations

namespace Ascends

variable {x x' y y' : Double}

theorem le (h : Ascends x y) : x ≤ y := by
  cases h with
  | finite h => exact compare_isLE_iff.2 h
  | toInfinite m => exact .inl rfl
  | infinite => exact .inr rfl

theorem trans (h : Ascends x y) (h' : Ascends y y') : Ascends x y' := by
  cases h with
  | finite h =>
    cases h' with
    | finite h' => exact .finite (h.trans h')
    | toInfinite => exact .toInfinite _
  | toInfinite m =>
    cases h'
    exact .toInfinite m
  | infinite => exact h'

theorem refl_left (h : Ascends x y) : Ascends x x := by
  cases h with
  | finite | toInfinite => exact .finite le_rfl
  | infinite => exact .infinite

theorem refl_right (h : Ascends x y) : Ascends y y := by
  cases h with
  | finite => exact .finite le_rfl
  | toInfinite | infinite => exact .infinite

theorem zero_left (h : Ascends x y) : Ascends .zero x := by
  cases h with
  | finite | toInfinite => exact .finite (Nat.zero_le _)
  | infinite => exact .toInfinite 0

theorem finite_lt {c : Nat} (h : Ascends x y) (hlt : .finite false c < x) :
    .finite false c < y := by
  cases h with
  | finite h => exact finite_lt_finite_iff.2 ((finite_lt_finite_iff.1 hlt).trans_le h)
  | toInfinite | infinite => rfl

theorem exists_units {n : Nat} (h : Ascends x (.finite false n)) (hpos : .zero < x) :
    ∃ m, 0 < m ∧ x = .finite false m := by
  cases h
  exact ⟨_, finite_lt_finite_iff.1 hpos, rfl⟩

theorem ofUnits {num num' den : Nat} (hden : 0 < den) (h : num ≤ num') :
    Ascends (.ofUnits false num den) (.ofUnits false num' den) := by
  have hrounded : roundUnits num den ≤ roundUnits num' den := roundUnits_mono hden h
  unfold Double.ofUnits
  generalize Nat.pow 2 2098 = top
  dsimp only
  split
  · split
    · exact .finite hrounded
    · exact .toInfinite _
  · next hnum =>
    rw [if_neg (by omega)]
    exact .infinite

theorem ofUnits_infinite (num den : Nat) : Ascends (.ofUnits false num den) (.infinite false) := by
  unfold Double.ofUnits
  generalize Nat.pow 2 2098 = top
  dsimp only
  split
  · exact .toInfinite _
  · exact .infinite

theorem add (h : Ascends x x') (h' : Ascends y y') : Ascends (x + y) (x' + y') := by
  cases h with
  | finite h =>
    cases h' with
    | finite h' =>
      rw [finite_add_finite, finite_add_finite]
      exact ofUnits Nat.one_pos (Nat.add_le_add h h')
    | toInfinite =>
      rw [finite_add_finite, finite_add_infinite]
      exact ofUnits_infinite _ _
    | infinite =>
      rw [finite_add_infinite, finite_add_infinite]
      exact .infinite
  | toInfinite =>
    cases h' with
    | finite =>
      rw [finite_add_finite, infinite_add_finite]
      exact ofUnits_infinite _ _
    | toInfinite =>
      rw [finite_add_finite, infinite_add_infinite]
      exact ofUnits_infinite _ _
    | infinite =>
      rw [finite_add_infinite, infinite_add_infinite]
      exact .infinite
  | infinite =>
    cases h' with
    | finite =>
      rw [infinite_add_finite, infinite_add_finite]
      exact .infinite
    | toInfinite =>
      rw [infinite_add_finite, infinite_add_infinite]
      exact .infinite
    | infinite =>
      rw [infinite_add_infinite]
      exact .infinite

theorem mul_left {c : Nat} (hc : 0 < c) (h : Ascends x y) :
    Ascends (.finite false c * x) (.finite false c * y) := by
  cases h with
  | finite h =>
    rw [finite_mul_finite, finite_mul_finite]
    exact ofUnits one_pos (Nat.mul_le_mul_left c h)
  | toInfinite m =>
    rw [finite_mul_finite, finite_mul_infinite hc]
    exact ofUnits_infinite _ _
  | infinite =>
    rw [finite_mul_infinite hc]
    exact .infinite

theorem div_right {c : Nat} (hc : 0 < c) (h : Ascends x y) :
    Ascends (x / .finite false c) (y / .finite false c) := by
  cases h with
  | finite h =>
    rw [finite_div_finite hc, finite_div_finite hc]
    exact ofUnits hc (Nat.mul_le_mul_right one h)
  | toInfinite m =>
    rw [finite_div_finite hc, infinite_div_finite]
    exact ofUnits_infinite _ _
  | infinite =>
    rw [infinite_div_finite]
    exact .infinite

theorem sub_right {c : Nat} (hc : Ascends (.finite false c) x) (h : Ascends x y) :
    Ascends (x - .finite false c) (y - .finite false c) := by
  cases h with
  | finite h =>
    cases hc with
    | finite hc =>
      rw [finite_sub_finite hc, finite_sub_finite (hc.trans h)]
      exact ofUnits Nat.one_pos (Nat.sub_le_sub_right h c)
  | toInfinite m =>
    cases hc with
    | finite hc =>
      rw [finite_sub_finite hc, infinite_sub_finite]
      exact ofUnits_infinite _ _
  | infinite =>
    rw [infinite_sub_finite]
    exact .infinite

/-- A difference is not rounded up past a number that has been rounded already. -/
theorem ofUnits_sub_le {num den c : Nat} (hden : 0 < den)
    (hc : Ascends (.finite false c) (.ofUnits false num den)) :
    Ascends (.ofUnits false num den - .finite false c) (.ofUnits false num den) := by
  generalize hrounded : Double.ofUnits false num den = z at hc ⊢
  cases hc with
  | @finite _ units h =>
    have hdifference := ofUnits Nat.one_pos (Nat.sub_le units c)
    rw [ofUnits_of_ofUnits hden hrounded] at hdifference
    rw [finite_sub_finite h]
    exact hdifference
  | toInfinite =>
    rw [infinite_sub_finite]
    exact .infinite

theorem add_sub_le {c : Nat} (hx : Ascends x x) (hy : Ascends y y)
    (hc : Ascends (.finite false c) (x + y)) :
    Ascends (x + y - .finite false c) (x + y) := by
  cases hx with
  | finite =>
    cases hy with
    | finite =>
      rw [finite_add_finite] at hc ⊢
      exact ofUnits_sub_le Nat.one_pos hc
    | infinite =>
      rw [finite_add_infinite, infinite_sub_finite]
      exact .infinite
  | infinite =>
    cases hy with
    | finite =>
      rw [infinite_add_finite, infinite_sub_finite]
      exact .infinite
    | infinite =>
      rw [infinite_add_infinite, infinite_sub_finite]
      exact .infinite

theorem ofInt? {m n : Int} (hm : 0 ≤ m) (h : m ≤ n) (hconverts : (Double.ofInt? n).isSome) :
    ∃ x y, Double.ofInt? m = some x ∧ Double.ofInt? n = some y ∧ Ascends x y := by
  have hnat : m.natAbs ≤ n.natAbs := by omega
  have hexact : Ascends (.ofUnits false (m.natAbs * one) 1) (.ofUnits false (n.natAbs * one) 1) :=
    ofUnits Nat.one_pos (Nat.mul_le_mul_right one hnat)
  rw [ofInt?_of_nonneg (hm.trans h)] at hconverts ⊢
  rw [ofInt?_of_nonneg hm]
  -- a number below a finite one is finite
  generalize Double.ofUnits false (m.natAbs * one) 1 = x at hexact ⊢
  generalize Double.ofUnits false (n.natAbs * one) 1 = y at hexact hconverts ⊢
  cases hexact with
  | finite h => exact ⟨_, _, rfl, rfl, .finite h⟩
  | toInfinite | infinite => cases hconverts

end Ascends

end Double

end CloneDetection

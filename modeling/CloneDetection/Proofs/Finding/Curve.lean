import CloneDetection.Finding.Confidence
import CloneDetection.Proofs.Double.Arithmetic
import Mathlib.Data.Int.Init
import Mathlib.Data.List.Find

/-!
# The confidence curve

The confidence never falls when a block is longer or has more locations, and a near clone is never
surer than an exact one. Within a piece every operation keeps the order; from one piece to the next
the curve does not move at all, for the last value of each piece is rounded to the first value of
the next. So one line more never lowers it, and longer blocks follow by induction.
-/
namespace CloneDetection

namespace Confidence

open Double (Ascends)

section Hundredths

variable {m n : Nat}

theorem hundredths_eq (hpos : 0 < n) :
    hundredths n = .ofUnits false (n * Double.one) (Nat.pow 10 2) := by
  unfold hundredths Double.ofDecimal
  rw [if_neg hpos.ne', if_neg (by omega), if_neg (by omega), if_neg (by omega)]
  rfl

theorem hundredths_ascends (hpos : 0 < m) (h : m ≤ n) : Ascends (hundredths m) (hundredths n) := by
  rw [hundredths_eq hpos, hundredths_eq (hpos.trans_le h)]
  exact .ofUnits (Nat.pow_pos (by omega)) (Nat.mul_le_mul_right _ h)

theorem hundredths_self (hpos : 0 < n) : Ascends (hundredths n) (hundredths n) :=
  hundredths_ascends hpos le_rfl

theorem hundredths_computed : (.zero < hundredths 1 ∧ hundredths 100 = .finite false Double.one) ∧
    hundredths 35 + .zero = hundredths 35 ∧ .zero < hundredths 35 - hundredths 5 := by
  decide +kernel

theorem hundredths_units (hpos : 0 < n) (hn : n ≤ 100) :
    ∃ k, 0 < k ∧ hundredths n = .finite false k := by
  obtain ⟨⟨hleast, hone⟩, -⟩ := hundredths_computed
  have hbelow : Ascends (hundredths n) (.finite false Double.one) :=
    hone ▸ hundredths_ascends hpos hn
  exact hbelow.exists_units ((hundredths_ascends Nat.one_pos hpos).finite_lt hleast)

end Hundredths

section AtMost

def atMost (bound x : Double) : Double :=
  if bound < x then bound else x

variable {n : Nat} (hpos : 0 < n) (hn : n ≤ 100) {x y : Double}
include hpos hn

theorem atMost_le (h : Ascends x y) : Ascends (atMost (hundredths n) x) (hundredths n) := by
  obtain ⟨bound, -, hbound⟩ := hundredths_units hpos hn
  rw [hbound]
  unfold atMost
  split
  · exact .finite le_rfl
  · next hle =>
    cases h with
    | finite | toInfinite =>
      exact .finite (Nat.le_of_not_lt fun hlt => hle (Double.finite_lt_finite_iff.2 hlt))
    | infinite => exact absurd rfl hle

theorem atMost_ascends (h : Ascends x y) :
    Ascends (atMost (hundredths n) x) (atMost (hundredths n) y) := by
  by_cases hy : hundredths n < y
  · have hbound : atMost (hundredths n) y = hundredths n := if_pos hy
    rw [hbound]
    exact atMost_le hpos hn h
  · have hx : ¬ hundredths n < x := by
      obtain ⟨bound, -, hbound⟩ := hundredths_units hpos hn
      rw [hbound] at hy ⊢
      exact fun hx => hy (h.finite_lt hx)
    unfold atMost
    rw [if_neg hx, if_neg hy]
    exact h

theorem zero_lt_atMost (hx : .zero < x) : .zero < atMost (hundredths n) x := by
  unfold atMost
  split
  · obtain ⟨bound, hpositive, hbound⟩ := hundredths_units hpos hn
    rw [hbound]
    exact Double.finite_lt_finite_iff.2 hpositive
  · exact hx

end AtMost

section Lines

/-- The constants of a piece: where it starts, how much it rises and over how many lines. -/
theorem tiers_positive : ∀ t ∈ tiers, (.zero < t.low ∧ t.low < hundredths 80) ∧
    (.zero < t.high - t.low ∧ t.high - t.low < hundredths 80) ∧
    (.zero < small (t.last - t.first) ∧ small (t.last - t.first) < small 100) := by
  decide +kernel

theorem six_le_first : ∀ t ∈ tiers, 6 ≤ t.first := by
  simp [tiers]

/-- The curve does not move where a piece starts, nor where the plateau does. -/
theorem ofLines_starts : (∀ t ∈ tiers, ofLines (t.first - 1) = ofLines t.first) ∧
    ofLines (plateauLines - 1) = ofLines plateauLines := by
  decide +kernel

theorem ofLines_meets :
    ofLines 14 = ofLines 15 ∧ ofLines 29 = ofLines 30 ∧ ofLines 49 = ofLines 50 := by
  obtain ⟨hfirst, hplateau⟩ := ofLines_starts
  rw [tiers, List.forall_mem_cons, List.forall_mem_cons] at hfirst
  exact ⟨hfirst.2.1, hfirst.1, hplateau⟩

theorem small_ascends {m n : Nat} (h : m ≤ n) : Ascends (small m) (small n) :=
  .ofUnits Nat.one_pos (Nat.mul_le_mul_right _ h)

variable {a b : Int}

theorem Tier.at_ascends {t : Tier} (ht : t ∈ tiers) (h : a ≤ b) : Ascends (t.at a) (t.at b) := by
  obtain ⟨⟨hlow, hlow'⟩, ⟨hrise, hrise'⟩, ⟨hspan, hspan'⟩⟩ := tiers_positive t ht
  obtain ⟨low, -, hlow⟩ := Double.exists_units_of_lt hlow hlow'
  obtain ⟨rise, hrisePos, hrise⟩ := Double.exists_units_of_lt hrise hrise'
  obtain ⟨span, hspanPos, hspan⟩ := Double.exists_units_of_lt hspan hspan'
  have hsmall : Ascends (small (a - t.first).toNat) (small (b - t.first).toNat) :=
    small_ascends (by omega)
  unfold Tier.at
  rw [hrise, hspan, hlow]
  exact .add (.finite le_rfl) (.div_right hspanPos (.mul_left hrisePos hsmall))

theorem ofLines_self (lines : Int) : Ascends (ofLines lines) (ofLines lines) := by
  unfold ofLines
  split
  · exact hundredths_self (by decide)
  · split
    · next t hfound => exact Tier.at_ascends (List.mem_of_find?_eq_some hfound) le_rfl
    · exact hundredths_self (by decide)

/-- One line more: on the plateau, where a piece starts, or in one piece. -/
theorem ofLines_succ (lines : Int) : Ascends (ofLines lines) (ofLines (lines + 1)) := by
  by_cases hplateau : plateauLines ≤ lines
  · have hnext : plateauLines ≤ lines + 1 := by omega
    rw [ofLines, ofLines, if_pos hplateau, if_pos hnext]
    exact hundredths_self (by decide)
  · by_cases hstart : lines + 1 = plateauLines ∨ ∃ t ∈ tiers, lines + 1 = t.first
    · have hmeets : ofLines (lines + 1) = ofLines lines := by
        rcases hstart with hstart | ⟨t, ht, hstart⟩
        · rw [hstart, ← ofLines_starts.2, ← hstart, Int.add_sub_cancel]
        · rw [hstart, ← ofLines_starts.1 t ht, ← hstart, Int.add_sub_cancel]
      rw [hmeets]
      exact ofLines_self lines
    · rw [not_or] at hstart
      have hnext : ¬ plateauLines ≤ lines + 1 := by omega
      -- no piece starts with the further line, so the same one is found
      have hpiece : (tiers.find? fun t => (t.first : Int) ≤ lines + 1) = tiers.find? fun t =>
          (t.first : Int) ≤ lines := by
        refine List.find?_congr fun t ht => decide_eq_decide.2 ?_
        have hfirst : lines + 1 ≠ t.first := fun h => hstart.2 ⟨t, ht, h⟩
        omega
      rw [ofLines, ofLines, if_neg hplateau, if_neg hnext, hpiece]
      split
      · next t hfound => exact Tier.at_ascends (List.mem_of_find?_eq_some hfound) (by omega)
      · exact hundredths_self (by decide)

theorem ofLines_ascends (h : a ≤ b) : Ascends (ofLines a) (ofLines b) := by
  induction b, h using Int.leInduction with
  | base => exact ofLines_self a
  | succ b h ih => exact ih.trans (ofLines_succ b)

theorem ofLines_of_lt_six {lines : Int} (h : lines < 6) : ofLines lines = hundredths 35 := by
  have hbefore : (tiers.find? fun t => (t.first : Int) ≤ lines) = none := by
    rw [List.find?_eq_none]
    intro t ht
    have hleast : 6 ≤ t.first := six_le_first t ht
    simp only [decide_eq_true_eq]
    omega
  have hplateau : ¬ plateauLines ≤ lines := by
    unfold plateauLines
    omega
  rw [ofLines, if_neg hplateau, hbefore]

theorem le_ofLines (lines : Int) : Ascends (hundredths 35) (ofLines lines) := by
  by_cases hfirst : lines < 6
  · rw [ofLines_of_lt_six hfirst]
    exact hundredths_self (by decide)
  · have hstart : ofLines 5 = hundredths 35 := ofLines_of_lt_six (by decide)
    rw [← hstart]
    exact ofLines_ascends (by omega)

end Lines

section Locations

/-- If the number of locations is not past the largest double, neither is the number past the
second. -/
theorem extra_converts {locations : Int} (h : (Double.ofInt? locations).isSome) :
    (Double.ofInt? (max (locations - 2) 0)).isSome := by
  rcases Int.le_total (locations - 2) 0 with hfew | hmany
  · rw [max_eq_right hfew, Double.ofInt?_zero]
    rfl
  · rw [max_eq_left hmany]
    obtain ⟨extra, _, hextra, -, -⟩ :=
      Ascends.ofInt? hmany (show locations - 2 ≤ locations by omega) h
    rw [hextra]
    rfl

theorem bonus?_ascends {m m' : Int} (h : m ≤ m')
    (hconverts : (Double.ofInt? (max (m' - 2) 0)).isSome) :
    ∃ bonus bonus', bonus? m = some bonus ∧ bonus? m' = some bonus' ∧ Ascends bonus bonus' := by
  obtain ⟨five, hpos, hfive⟩ := hundredths_units (n := 5) (by decide) (by decide)
  obtain ⟨extra, extra', hextra, hextra', hascends⟩ :=
    Ascends.ofInt? (m := max (m - 2) 0) (n := max (m' - 2) 0) (by omega) (by omega) hconverts
  refine ⟨atMost (hundredths 10) (extra * hundredths 5),
    atMost (hundredths 10) (extra' * hundredths 5), ?_, ?_, ?_⟩
  · rw [bonus?, hextra]
    rfl
  · rw [bonus?, hextra']
    rfl
  · rw [hfive, Double.mul_comm extra, Double.mul_comm extra']
    exact atMost_ascends (by decide) (by decide) (.mul_left hpos hascends)

end Locations

section Penalty

variable {lines lines' : Int} {bonus bonus' : Double}

/-- The confidence of a block of so many lines with a bonus, before it is clamped. -/
def unclamped (lines : Int) (bonus : Double) (near : Bool) : Double :=
  let x := ofLines lines + bonus
  if near then x - hundredths 5 else x

theorem le_sum (lines : Int) (h : Ascends bonus bonus') :
    Ascends (hundredths 35) (ofLines lines + bonus) := by
  have hleast : Ascends (hundredths 35 + .zero) (ofLines lines + bonus) :=
    (le_ofLines lines).add h.zero_left
  rw [hundredths_computed.2.1] at hleast
  exact hleast

/-- There is always more than the penalty. -/
theorem penalty_le (lines : Int) (h : Ascends bonus bonus') :
    Ascends (hundredths 5) (ofLines lines + bonus) :=
  (hundredths_ascends (by decide) (by decide)).trans (le_sum lines h)

theorem sub_penalty_ascends {x y : Double} (hpenalty : Ascends (hundredths 5) x) (h : Ascends x y) :
    Ascends (x - hundredths 5) (y - hundredths 5) := by
  obtain ⟨five, -, hfive⟩ := hundredths_units (n := 5) (by decide) (by decide)
  rw [hfive] at hpenalty ⊢
  exact .sub_right hpenalty h

theorem unclamped_ascends (hlines : lines ≤ lines') (hbonus : Ascends bonus bonus') (near : Bool) :
    Ascends (unclamped lines bonus near) (unclamped lines' bonus' near) := by
  have hsum : Ascends (ofLines lines + bonus) (ofLines lines' + bonus') :=
    (ofLines_ascends hlines).add hbonus
  cases near with
  | false => exact hsum
  | true => exact sub_penalty_ascends (penalty_le lines hbonus) hsum

theorem unclamped_near_le (hbonus : Ascends bonus bonus') :
    Ascends (unclamped lines bonus true) (unclamped lines bonus false) := by
  obtain ⟨five, -, hfive⟩ := hundredths_units (n := 5) (by decide) (by decide)
  have hpenalty := penalty_le lines hbonus
  change Ascends (_ - hundredths 5) _
  rw [hfive] at hpenalty ⊢
  exact .add_sub_le (ofLines_self lines) hbonus.refl_left hpenalty

theorem zero_lt_unclamped (hbonus : Ascends bonus bonus') (near : Bool) :
    .zero < unclamped lines bonus near := by
  obtain ⟨-, -, hpenalized⟩ := hundredths_computed
  cases near with
  | false =>
    obtain ⟨least, hpositive, hleast⟩ := hundredths_units (n := 35) (by decide) (by decide)
    have hzero : .zero < hundredths 35 := by
      rw [hleast]
      exact Double.finite_lt_finite_iff.2 hpositive
    exact (le_sum lines hbonus).finite_lt hzero
  | true =>
    have hpenalty : Ascends (hundredths 5) (hundredths 35) :=
      hundredths_ascends (by decide) (by decide)
    exact (sub_penalty_ascends hpenalty (le_sum lines hbonus)).finite_lt hpenalized

end Penalty

section Clamping

def capped (lines : Int) (bonus : Double) (near : Bool) : Double :=
  atMost (hundredths 80) (unclamped lines bonus near)

def capped? (lines locations : Int) (near : Bool) : Option Double :=
  (bonus? locations).map fun bonus => capped lines bonus near

theorem clamp_eq (x : Double) :
    clamp x = if .zero < atMost (hundredths 80) x then atMost (hundredths 80) x else .zero := by
  unfold clamp atMost
  rfl

theorem confidence?_eq (lines locations : Int) (near : Bool) :
    confidence? lines locations near = (capped? lines locations near).map fun x => if .zero <
      x then x else .zero := by
  have hclamped : confidence? lines locations near = (bonus? locations).map fun bonus =>
      clamp (unclamped lines bonus near) := by
    unfold confidence? unclamped
    rfl
  simp only [hclamped, capped?, capped, Option.map_map, Function.comp_def, clamp_eq]

variable {lines lines' : Int} {bonus bonus' : Double}

theorem capped_ascends (hlines : lines ≤ lines') (hbonus : Ascends bonus bonus') (near : Bool) :
    Ascends (capped lines bonus near) (capped lines' bonus' near) :=
  atMost_ascends (by decide) (by decide) (unclamped_ascends hlines hbonus near)

theorem capped_near_le (hbonus : Ascends bonus bonus') :
    Ascends (capped lines bonus true) (capped lines bonus false) :=
  atMost_ascends (by decide) (by decide) (unclamped_near_le hbonus)

theorem capped_le (hbonus : Ascends bonus bonus') (near : Bool) :
    capped lines bonus near ≤ hundredths 80 :=
  (atMost_le (by decide) (by decide) (unclamped_ascends le_rfl hbonus near)).le

theorem zero_lt_capped (hbonus : Ascends bonus bonus') (near : Bool) :
    .zero < capped lines bonus near :=
  zero_lt_atMost (by decide) (by decide) (zero_lt_unclamped hbonus near)

theorem capped?_of_bonus {locations : Int} (lines : Int) (h : bonus? locations = some bonus)
    (near : Bool) :
    capped? lines locations near = some (capped lines bonus near) := by
  rw [capped?, h, Option.map_some]

theorem confidence?_of_bonus {locations : Int} (lines : Int) (h : bonus? locations = some bonus)
    (hbonus : Ascends bonus bonus') (near : Bool) :
    confidence? lines locations near = some (capped lines bonus near) := by
  rw [confidence?_eq, capped?_of_bonus lines h, Option.map_some,
    if_pos (zero_lt_capped hbonus near)]

end Clamping

end Confidence

open Confidence

/-- Confidences never fall with the lines and the locations, near clones are never surer, and every
confidence is in the band. What has to convert is the number of locations past the second, see
`extra_converts`. -/
theorem confidence?_ascends {lines lines' locations locations' : Int} (hlines : lines ≤ lines')
    (hlocations : locations ≤ locations')
    (hconverts : (Double.ofInt? (max (locations' - 2) 0)).isSome) :
    (∀ near, ∃ x x', confidence? lines locations near = some x ∧
      confidence? lines' locations' near = some x' ∧
      x ≤ x') ∧
    (∃ x x', confidence? lines locations true = some x ∧ confidence? lines locations false =
      some x' ∧ x ≤ x') ∧
    (∀ near, ∃ x, confidence? lines locations near = some x ∧ .zero ≤ x ∧ x ≤ hundredths 80 ∧
      capped? lines locations near = some x ∧ .zero < x) ∧
    ofLines 14 = ofLines 15 ∧ ofLines 29 = ofLines 30 ∧ ofLines 49 = ofLines 50 := by
  obtain ⟨bonus, bonus', hbonus, hbonus', hascends⟩ := bonus?_ascends hlocations hconverts
  have hgives (near : Bool) : confidence? lines locations near = some (capped lines bonus near) :=
    confidence?_of_bonus lines hbonus hascends near
  have hgives' (near : Bool) : confidence? lines' locations' near =
      some (capped lines' bonus' near) :=
    confidence?_of_bonus lines' hbonus' hascends.refl_right near
  refine ⟨fun near => ?_, ?_, fun near => ?_, ofLines_meets⟩
  · exact ⟨_, _, hgives near, hgives' near, (capped_ascends hlines hascends near).le⟩
  · exact ⟨_, _, hgives true, hgives false, (capped_near_le hascends).le⟩
  · have hpositive : .zero < capped lines bonus near := zero_lt_capped hascends near
    exact ⟨_, hgives near, .inl hpositive, capped_le hascends near,
      capped?_of_bonus lines hbonus near, hpositive⟩

theorem confidence?_ascends_six_fifty :
    (Double.ofInt? 5).isSome ∧
      (∃ x x', confidence? 6 2 true = some x ∧ confidence? 50 5 true = some x' ∧ x ≤ x') ∧
      (∃ x x', confidence? 6 2 true = some x ∧ confidence? 6 2 false = some x' ∧ x ≤ x') ∧
      ∃ x, confidence? 6 2 true = some x ∧ .zero ≤ x ∧ x ≤ hundredths 80 ∧
        capped? 6 2 true = some x ∧ .zero < x := by
  have hlines : (6 : Int) ≤ 50 := by decide
  have hlocations : (2 : Int) ≤ 5 := by decide
  have hconverts : (Double.ofInt? 5).isSome := by decide +kernel
  obtain ⟨hrises, hnear, hband, -⟩ :=
    confidence?_ascends hlines hlocations (extra_converts hconverts)
  exact ⟨hconverts, hrises true, hnear, hband true⟩

end CloneDetection

import CloneDetection.Proofs.Double.Order
import CloneDetection.Proofs.Finding.Reported
import CloneDetection.Proofs.Sorting

/-!
# The order of findings

The confidence of a finding is a number, and among such findings the order compares their keys, the
confidence first. Sorting is stable, so it does not matter whether findings of little confidence are
left out before it or after it. Afterwards they stand at the end.
-/
namespace CloneDetection

theorem Confidence.clamp_ne_nan (x : Double) : clamp x ≠ .nan := by
  unfold clamp
  dsimp only
  generalize (if hundredths 80 < x then hundredths 80 else x) = y
  by_cases h : .zero < y
  · rw [if_pos h]
    rintro rfl
    exact Double.not_lt_nan _ h
  · rw [if_neg h]
    exact nofun

theorem confidence?_ne_nan {lines locations : Int} {near : Bool} {x : Double}
    (h : confidence? lines locations near = some x) : x ≠ .nan := by
  obtain ⟨bonus, -, rfl⟩ := Option.map_eq_some_iff.1 h
  exact Confidence.clamp_ne_nan _

namespace Finding

theorem confidence_ne_nan {g : CloneGroup} {f : Finding} (h : ofGroup g = .ok f) :
    f.confidence ≠ .nan := by
  unfold ofGroup at h
  split at h
  · cases h
  · cases h
  · next hconfidence =>
    cases h
    exact confidence?_ne_nan hconfidence

/-- The order of findings whose confidence is a number. -/
def rank : Finding → Finding → Ordering :=
  compareLex (fun f g => compareOn (fun h => h.confidence.place?) g f) <|
  compareLex (compareOn path) <|
    compareLex (compareOn line) <| compareLex (compareOn kind) (compareOn title)

instance : Std.TransCmp rank :=
  inferInstanceAs
    (Std.TransCmp (compareLex (fun f g => compareOn (fun h => h.confidence.place?) g f) <|
    compareLex (compareOn path) <| compareLex (compareOn line) <|
    compareLex (compareOn kind) (compareOn title)))

theorem confidence_le_of_rank {f g : Finding} (hf : f.confidence ≠ .nan) (hg : g.confidence ≠ .nan)
    (h : (rank f g).isLE) : g.confidence ≤ f.confidence := by
  obtain ⟨a, ha⟩ := Double.exists_place hf
  obtain ⟨b, hb⟩ := Double.exists_place hg
  rw [Double.le_iff_of_place hb ha, ← not_lt, ← compare_gt_iff_gt]
  intro hgt
  have hconfidence : compareOn (fun h : Finding => h.confidence.place?) g f = .gt := by
    rw [compareOn, ha, hb]
    exact hgt
  rw [rank, compareLex, hconfidence] at h
  cases h

theorem order_eq_rank {f g : Finding} (hf : f.confidence ≠ .nan) (hg : g.confidence ≠ .nan) :
    f.order g = rank f g := by
  obtain ⟨a, ha⟩ := Double.exists_place hf
  obtain ⟨b, hb⟩ := Double.exists_place hg
  have hconfidence : compareOn (fun h : Finding => h.confidence.place?) g f = compare b a := by
    rw [compareOn, ha, hb]
    rfl
  rw [order, Double.compare?_of_place hb ha, ← hconfidence]
  rfl

theorem sort_eq_mergeSort {findings : List Finding} (h : ∀ f ∈ findings, f.confidence ≠ .nan) :
    sort findings = findings.mergeSort fun f g => (rank f g).isLE := by
  have hnumbers : (findings.any fun f => f.confidence == .nan) = false := by simpa using h
  have hsame : ∀ f ∈ findings, ∀ g ∈ findings, (!g.before f) = (rank f g).isLE := by
    intro f hf g hg
    have hswap : rank g f = (rank f g).swap := Std.OrientedCmp.eq_swap
    rw [before, order_eq_rank (h g hg) (h f hf), hswap]
    cases rank f g <;> rfl
  rw [sort, hnumbers, if_neg Bool.false_ne_true]
  simpa using List.map_mergeSort (f := id) hsame

theorem sort_filter {findings : List Finding} (h : ∀ f ∈ findings, f.confidence ≠ .nan)
    (p : Finding → Bool) :
    sort (findings.filter p) = (sort findings).filter p := by
  rw [sort_eq_mergeSort h, filter_mergeSort,
    sort_eq_mergeSort fun f hf => h f (List.mem_filter.1 hf).1]

theorem pairwise_sort {findings : List Finding} (h : ∀ f ∈ findings, f.confidence ≠ .nan) :
    (sort findings).Pairwise fun f g => g.confidence ≤ f.confidence := by
  have hsorted : (sort findings).Pairwise fun f g => (rank f g).isLE := by
    rw [sort_eq_mergeSort h]
    exact pairwise_mergeSort_isLE rank findings
  apply hsorted.imp_of_mem
  intro f g hf hg
  rw [(sort_perm findings).mem_iff] at hf hg
  exact confidence_le_of_rank (h f hf) (h g hg)

/-- Whether the finding is not left out for its confidence. -/
def reaches (least : Double) (f : Finding) : Bool :=
  !decide (f.confidence < least)

theorem reaches_iff {least : Double} {f : Finding} (hleast : least ≠ .nan)
    (hf : f.confidence ≠ .nan) :
    reaches least f = true ↔ least ≤ f.confidence := by
  rw [reaches, Bool.not_eq_true', decide_eq_false_iff_not, Double.not_lt_iff_le hleast hf]

/-- With a higher least confidence the findings are cut off earlier. -/
theorem filter_sort_prefix {findings : List Finding} (h : ∀ f ∈ findings, f.confidence ≠ .nan)
    {least : Double} (hleast : least ≠ .nan) :
    (sort findings).filter (reaches least) <+: sort findings := by
  apply filter_prefix_of_pairwise
  apply (pairwise_sort h).imp_of_mem
  intro f g hf hg hle hreaches
  rw [(sort_perm findings).mem_iff] at hf hg
  rw [reaches_iff hleast (h g hg)] at hreaches
  exact (reaches_iff hleast (h f hf)).2 (Double.le_trans hreaches hle)

theorem length_cap {limit : Int} (h : 0 < limit) (findings : List Finding) :
    ((cap limit findings).length : Int) = min limit findings.length := by
  rw [cap, if_neg (by omega), List.length_take]
  omega

theorem cap_prefix_cap {limit limit' : Int} (hpos : 0 < limit') (hle : limit' ≤ limit)
    {findings findings' : List Finding} (h : findings' <+: findings) :
    cap limit' findings' <+: cap limit findings := by
  have hshort : (cap limit' findings').length ≤ limit.toNat := by
    have hlength := length_cap hpos findings'
    omega
  have hfront : cap limit' findings' <+: findings' := cap_prefix limit' findings'
  have hcap : cap limit findings = findings.take limit.toNat := if_neg (by omega)
  rw [hcap]
  exact List.prefix_take_iff.2 ⟨hfront.trans h, hshort⟩

end Finding

end CloneDetection

import CloneDetection.Collector.Duplication
import CloneDetection.Proofs.Double.Rounding
import CloneDetection.Proofs.Traversal

/-!
# Findings of groups

A group that stands somewhere has a finding, unless it stands at more locations than the doubles
count. No confidence is below zero, so a scan whose least confidence is zero keeps the findings of
all its groups, and a cap that they do not exceed loses none of them.
-/
namespace CloneDetection

theorem Confidence.clamp_not_lt_zero (x : Double) : ¬ clamp x < .zero := by
  unfold clamp
  dsimp only
  generalize (if hundredths 80 < x then hundredths 80 else x) = y
  by_cases h : .zero < y
  · rw [if_pos h]
    exact Double.not_lt_zero_of_zero_lt h
  · rw [if_neg h]
    decide

theorem confidence?_of_lt (lines : Int) {locations : Nat} (h : locations < Nat.pow 2 1023)
    (near : Bool) :
    ∃ x, confidence? lines locations near = some x := by
  have hfew : (max ((locations : Int) - 2) 0).natAbs < Nat.pow 2 1023 := by
    apply Nat.lt_of_le_of_lt _ h
    omega
  obtain ⟨extra, hextra⟩ := Double.ofInt?_of_lt hfew
  rw [confidence?, Confidence.bonus?, hextra]
  exact ⟨_, rfl⟩

theorem confidence?_not_lt_zero {lines locations : Int} {near : Bool} {x : Double}
    (h : confidence? lines locations near = some x) : ¬ x < .zero := by
  obtain ⟨bonus, -, rfl⟩ := Option.map_eq_some_iff.1 h
  exact Confidence.clamp_not_lt_zero _

namespace Finding

theorem of_ofGroup_eq_ok {g : CloneGroup} {f : Finding} (h : ofGroup g = .ok f) :
    f.kind = kindOf g.near ∧ ¬ f.confidence < .zero := by
  unfold ofGroup at h
  split at h
  · cases h
  · cases h
  · next hconfidence =>
    cases h
    exact ⟨rfl, confidence?_not_lt_zero hconfidence⟩

theorem of_ofGroup_eq_error {g : CloneGroup} {e : Fault} (hne : g.locations ≠ [])
    (h : ofGroup g = .error e) :
    e = .tooManyLocations ∧ Nat.pow 2 1023 ≤ g.locations.length := by
  obtain ⟨first, rest, hlocations⟩ := List.exists_cons_of_ne_nil hne
  have hhead : g.locations.head? = some first := by rw [hlocations, List.head?_cons]
  rw [ofGroup, hhead] at h
  cases hconfidence : confidence? g.lineCount g.locations.length g.near with
  | none =>
    rw [hconfidence] at h
    cases h
    refine ⟨rfl, Nat.le_of_not_lt fun hlt => ?_⟩
    obtain ⟨x, hx⟩ := confidence?_of_lt g.lineCount hlt g.near
    rw [hx] at hconfidence
    cases hconfidence
  | some confidence =>
    rw [hconfidence] at h
    cases h

theorem cap_eq_self {limit : Int} {findings : List Finding} (h : findings.length ≤ limit) :
    cap limit findings = findings := by
  unfold cap
  split
  · rfl
  · exact List.take_of_length_le (by omega)

end Finding

namespace Duplication

/-- All groups get a finding, and those of too little confidence are left out. -/
theorem kept_eq (least : Double) (groups : List CloneGroup) :
    kept (.ok least) groups = (groups.mapM Finding.ofGroup).map fun findings =>
      (groups.zip findings).filter fun p => !decide (p.2.confidence < least) := by
  induction groups with
  | nil => rfl
  | cons g groups ih =>
    rw [kept, List.mapM_cons, List.mapM_cons]
    unfold kept at ih
    cases Finding.ofGroup g with
    | error e => rfl
    | ok f =>
      generalize groups.mapM Finding.ofGroup = findings? at ih ⊢
      generalize List.mapM (m := Except Fault) _ groups = kept? at ih ⊢
      cases findings? with
      | error e =>
        cases kept? with
        | error e' =>
          cases ih
          rfl
        | ok kept => cases ih
      | ok findings =>
        cases kept? with
        | error e' => cases ih
        | ok kept =>
          have hkept : kept.filterMap (fun p => p) =
              (groups.zip findings).filter fun p => !decide (p.2.confidence < least) :=
                Except.ok.inj ih
          apply congrArg Except.ok
          by_cases hlow : f.confidence < least
          · simp [hlow, hkept]
          · simp [hlow, hkept]

theorem kept_zero {groups : List CloneGroup} {findings : List Finding}
    (h : groups.mapM Finding.ofGroup = .ok findings) :
    kept (.ok .zero) groups = .ok (groups.zip findings) := by
  have hall : (groups.zip findings).filter (fun p => !decide (p.2.confidence < .zero)) =
      groups.zip findings := by
    rw [List.filter_eq_self]
    intro p hp
    have hfinding : Finding.ofGroup p.1 = .ok p.2 := List.forall₂_zip (forall₂_of_mapM_eq_ok h) hp
    simpa using (Finding.of_ofGroup_eq_ok hfinding).2
  rw [kept_eq, h, Except.map, hall]

end Duplication

end CloneDetection

import CloneDetection.Proofs.Clone.Block

/-!
# No pair of equal windows is missed

Windows with equal texts have one digest, so they come from one bucket, and the region of that
bucket has both of them at one distance from its start: whatever covered the bucket and however far
the region grew to the left, the group of the region starts that much before either window.
-/
namespace CloneDetection

open Place Std

def CloneGroup.StartsAt (source : Text → List NormalLine) (g : CloneGroup) (o : Occurrence) :
    Prop :=
  ∃ l ∈ g.locations, l.path = o.path ∧ l.StartsAt (source o.path) o.offset

namespace Index

section Source

variable {source : Text → List NormalLine} {size : Int} {index : Index}

theorem IsMaximal.startsAt_groupOf {r : Region} (hr : index.IsMaximal r)
    (h : Filled (WindowsOf source size) size index) (near : Bool) {o : Occurrence}
    (ho : o ∈ r.start) :
    (index.groupOf near r).StartsAt source o :=
  ⟨_, List.mem_map_of_mem ho, rfl, hr.startsAt h ho⟩

theorem Filled.exists_digest (h : Filled (WindowsOf source size) size index) {o p : Occurrence}
    (ho : index.Has o) (hp : index.Has p)
    (htexts : windowTexts source size o = windowTexts source size p) :
    ∃ d, index.digestOf? o = some d ∧ index.digestOf? p = some d := by
  refine ⟨digest (windowTexts source size o), (h.covers ho).digest_eq, ?_⟩
  rw [(h.covers hp).digest_eq, htexts]

/-- A search that nobody cancels misses no pair of equal windows. Where two different windows of
indexed files have the same texts, one group has locations that start as far before the one as
before the other, no farther than its lines reach beyond a window. -/
theorem findGroups_complete (h : Filled (WindowsOf source size) size index) (near : Bool)
    (reader : FileReader) (rec : Record) :
    ∃ groups, (index.findGroups near).Gives reader rec groups
        { rec with checks := rec.checks + index.buckets.size } ∧
      ∀ o p : Occurrence, o ≠ p →
        index.files.contains o.path = true → o.offset + size.toNat ≤ (source o.path).length →
        index.files.contains p.path = true → p.offset + size.toNat ≤ (source p.path).length →
        windowTexts source size o = windowTexts source size p →
        ∃ g ∈ groups, ∃ k : Nat, k + size ≤ g.lineCount ∧ ∃ o' p' : Occurrence, o'.move k = o ∧
          p'.move k = p ∧
          g.StartsAt source o' ∧ g.StartsAt source p' := by
  have hcoherent : Coherent index := h.coherent
  refine ⟨index.groups near,
    hcoherent.findGroups_gives h.startsAscend_of_source near reader rec, ?_⟩
  intro o p hne ho hofits hp hpfits htexts
  obtain ⟨d, hdo, hdp⟩ := h.exists_digest (h.has_of_fits ho hofits) (h.has_of_fits hp hpfits) htexts
  obtain ⟨r, hr, k, hk, hor, hpr⟩ := hcoherent.exists_clone hdo hdp hne
  obtain ⟨o', ho', hoeq⟩ := List.mem_map.1 hor
  obtain ⟨p', hp', hpeq⟩ := List.mem_map.1 hpr
  have hcount : k + size ≤ (index.groupOf near r).lineCount := by
    rw [lineCount_groupOf, h.windowSize_eq]
    omega
  exact ⟨index.groupOf near r, mem_groups.2 ⟨r, hcoherent.mem_regions.2 hr, rfl⟩, k, hcount, o', p',
    hoeq, hpeq,
    hr.maximal.startsAt_groupOf h near ho', hr.maximal.startsAt_groupOf h near hp'⟩

end Source

/-- The windows of the third bucket, which the search passes over. -/
theorem findGroups_complete_refrain :
    Filled (WindowsOf refrainLines 2) 2 refrain ∧ (⟨['a'], 2⟩ : Occurrence) ≠ ⟨['b'], 2⟩ ∧
      windowTexts refrainLines 2 ⟨['a'], 2⟩ = windowTexts refrainLines 2 ⟨['b'], 2⟩ ∧
      ∃ g ∈ refrainGroups, ∃ k : Nat, k + 2 ≤ g.lineCount ∧ ∃ o p : Occurrence,
        o.move k = ⟨['a'], 2⟩ ∧ p.move k = ⟨['b'], 2⟩ ∧
          g.StartsAt refrainLines o ∧ g.StartsAt refrainLines p := by
  obtain ⟨groups, hgives, hcomplete⟩ :=
    findGroups_complete filled_refrain false (fun _ _ => none) {}
  have hgroups : groups = refrain.groups false := hgives.unique
    (filled_refrain.coherent.findGroups_gives filled_refrain.startsAscend_of_source false _ _)
  have hne : (⟨['a'], 2⟩ : Occurrence) ≠ ⟨['b'], 2⟩ := by decide
  have hindexed : refrain.files.contains ['a'] = true ∧ refrain.files.contains ['b'] = true := by
    rw [refrain_eq]
    decide +kernel
  obtain ⟨g, hg, hg'⟩ :=
    hcomplete ⟨['a'], 2⟩ ⟨['b'], 2⟩ hne hindexed.1 (by decide) hindexed.2 (by decide) rfl
  rw [hgroups, mem_groups_refrain] at hg
  exact ⟨filled_refrain, hne, rfl, g, hg, hg'⟩

end Index

end CloneDetection

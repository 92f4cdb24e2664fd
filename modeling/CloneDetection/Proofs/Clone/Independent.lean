import CloneDetection.Proofs.Clone.Search

/-!
# Growing every bucket by itself

A plain search grows every bucket with several occurrences, whatever others have covered, and then
removes what it found more than once. The search with covered occurrences finds the same list: a
bucket that it passes over has its group already, and a bucket that it grows brings a group of its
own.
-/
namespace CloneDetection

open Place Std

namespace Index

/-- The groups that all buckets with several distinct occurrences grow into, each of them by itself,
with repeated ones removed; `none` if a window of a group is missing. -/
def independentGroups? (index : Index) (near : Bool) : Option (List CloneGroup) := do
  let several := index.bucketList.filter (2 ≤ ·.dedup.length)
  let grown ← several.mapM fun b => index.group? near (index.region (sorted b.dedup))
  return CloneGroup.ranked grown.dedup

theorem Coherent.dedup_eq {index : Index} (h : Coherent index) {b : List Occurrence}
    (hb : b ∈ index.bucketList) : b.dedup = b := by
  obtain ⟨digest, rfl, _⟩ := h.mem_bucketList.1 hb
  exact (h.nodup_bucket digest).dedup

theorem Coherent.independentGroups?_eq {index : Index} (h : Coherent index)
    (hs : index.StartsAscend) (near : Bool) :
    index.independentGroups? near = some (index.groups near) := by
  let several := index.bucketList.filter (2 ≤ ·.length)
  have hseveral : index.bucketList.filter (2 ≤ ·.dedup.length) = several := by
    apply List.filter_congr
    intro b hb
    rw [h.dedup_eq hb]
  have hgrown : several.mapM (fun b => index.group? near (index.region (sorted b.dedup))) =
      some (several.map fun b => index.groupOf near (index.region (sorted b))) := by
    apply mapM_eq_some_map
    intro b hb
    have hmem : b ∈ index.bucketList := List.mem_of_mem_filter hb
    rw [h.dedup_eq hmem]
    exact (h.isMaximal_of_isBucket (h.mem_bucketList.1 hmem)).group?_eq near
  have hperm : (several.map fun b => index.groupOf near (index.region (sorted b))).dedup.Perm
      (index.regions.map (index.groupOf near)) := by
    refine (List.perm_ext_iff_of_nodup (List.nodup_dedup _) (h.nodup_map_groupOf hs near)).2
      fun g => ?_
    simp only [several, regions, List.mem_dedup, List.mem_map, exists_exists_and_eq_and]
  rw [independentGroups?, hseveral, hgrown]
  change some (CloneGroup.ranked _) = some (CloneGroup.ranked _)
  rw [ranked_eq_of_perm hs near hperm]
  intro g hg
  obtain ⟨q, hq, rfl⟩ := List.mem_map.1 (hperm.mem_iff.1 hg)
  exact ⟨q, h.mem_regions.1 hq, rfl⟩

/-- When the search comes to a bucket, the bucket is covered and its group is there already, or it
is not and no group like its own is there. -/
theorem Search.After.covered_or_new {index : Index} {near : Bool} {done : List (List Occurrence)}
    {s : Search} {grown : List Region} (ha : s.After index near done grown) (h : Coherent index)
    (hs : index.StartsAscend) (hdone : ∀ b ∈ done, index.IsBucket b) {b : List Occurrence}
    (hb : index.IsBucket b) (hlen : 2 ≤ b.length) :
    (sorted b ∈ s.covered → index.groupOf near (index.region (sorted b)) ∈ s.groups) ∧
      (sorted b ∉ s.covered →
        ∀ g ∈ s.groups, g.sameRegion (index.groupOf near (index.region (sorted b))) = false) := by
  rw [ha.covered_iff h hdone hb, ha.groups_eq]
  refine ⟨List.mem_map_of_mem, fun hnew g hg => ?_⟩
  obtain ⟨q, hq, rfl⟩ := List.mem_map.1 hg
  obtain ⟨digest, rfl, _⟩ := hb
  have hclone := h.isClone hlen
  have hq' := ha.isClone h hdone hq
  rw [Bool.eq_false_iff]
  intro hsame
  have heq :=
    eq_of_sameRegion hs near hq'.maximal hclone.maximal hq'.ascending hclone.ascending hsame
  exact hnew (heq ▸ hq)

/-- The search that nobody cancels finds what the plain search finds, and nothing is lost or doubled
on the way: at every bucket with several occurrences, it has the bucket's group already if the
bucket is covered, and no group of the same length and starts if it is not. -/
theorem findGroups_eq_independentGroups {size : Int} {index : Index}
    (h : Filled (fun _ windows => Window.OfIncreasing windows) size index) (near : Bool)
    (reader : FileReader) (r : Record) :
    ∃ groups, index.independentGroups? near = some groups ∧
      (index.findGroups near).Gives reader r groups
        { r with checks := r.checks + index.buckets.size } ∧
      ∀ done b rest, index.bucketList = done ++ b :: rest → 2 ≤ b.dedup.length →
        ∃ s g, (done.foldlM (index.visit near) ⟨∅, []⟩).Gives reader r s
            { r with checks := r.checks + done.length } ∧
          index.IsMaximal (index.region (sorted b)) ∧ sorted b ∈ (index.region (sorted b)).steps ∧
          index.group? near (index.region (sorted b)) = some g ∧ g ∈ groups ∧
          (sorted b ∈ s.covered → g ∈ s.groups) ∧
          (sorted b ∉ s.covered → ∀ f ∈ s.groups, f.sameRegion g = false) := by
  have hc : Coherent index := h.coherent
  have hs : index.StartsAscend := h.startsAscend fun _ _ hw => hw.pairwise_startLine
  refine ⟨index.groups near, hc.independentGroups?_eq hs near,
    hc.findGroups_gives hs near reader r, ?_⟩
  intro done b rest hlist hlen
  have hmem : b ∈ index.bucketList := by simp [hlist]
  have hb : index.IsBucket b := hc.mem_bucketList.1 hmem
  have hdone : ∀ c ∈ done, index.IsBucket c :=
    fun c hc' => hc.mem_bucketList.1 (by simp [hlist, hc'])
  rw [hc.dedup_eq hmem] at hlen
  obtain ⟨s, grown, hgives, ha⟩ :=
    Search.After.visit_all reader r hc done hdone (Search.after_nil index near) (by simp)
  have hmaximal : index.IsMaximal (index.region (sorted b)) := hc.isMaximal_of_isBucket hb
  have hregion : index.region (sorted b) ∈ index.regions := by
    rw [regions, List.mem_dedup, List.mem_map]
    exact ⟨b, List.mem_filter.2 ⟨hmem, by simpa using hlen⟩, rfl⟩
  exact ⟨s, _, hgives, hmaximal, mem_steps_region index _, hmaximal.group?_eq near,
    mem_groups.2 ⟨_, hregion, rfl⟩, ha.covered_or_new hc hs hdone hb hlen⟩

/-- Of three buckets the second is not covered by what the first grew into, and the third is covered
by what the second grew into. -/
theorem findGroups_eq_independentGroups_refrain :
    Filled (fun _ windows => Window.OfIncreasing windows) 2 refrain ∧
      ∃ groups, refrain.independentGroups? false = some groups ∧
        (∀ g, g ∈ groups ↔ g ∈ refrainGroups) ∧
        (refrain.findGroups false).Gives (fun _ _ => none) {} groups
          { ({} : Record) with checks := ({} : Record).checks + refrain.buckets.size } ∧
        ∃ s g, ([[⟨['c'], 0⟩, ⟨['b'], 0⟩, ⟨['a'], 0⟩], [⟨['b'], 1⟩, ⟨['a'], 1⟩]].foldlM
            (refrain.visit false) ⟨∅, []⟩).Gives (fun _ _ => none) {} s
            { ({} : Record) with checks := 2 } ∧
          refrain.group? false (refrain.region (sorted [⟨['b'], 2⟩, ⟨['a'], 2⟩])) = some g ∧
          sorted [⟨['b'], 2⟩, ⟨['a'], 2⟩] ∈ s.covered ∧ g ∈ s.groups ∧ g ∈ groups := by
  have hlines (path : Text) : Window.OfIncreasing (Window.ofLines 2 (refrainLines path)) :=
    ⟨2, refrainLines path, increasing_refrainLines path, rfl⟩
  have hfilled : Filled (fun _ windows => Window.OfIncreasing windows) 2 refrain :=
    .offer (.offer (.offer (.empty 2) (hlines _)) (hlines _)) (hlines _)
  have hc : Coherent refrain := hfilled.coherent
  have hs : refrain.StartsAscend := hfilled.startsAscend fun _ _ hw => hw.pairwise_startLine
  have hbuckets : ∀ b ∈ refrain.bucketList, refrain.IsBucket b := fun b hb => hc.mem_bucketList.1 hb
  rw [bucketList_refrain] at hbuckets
  obtain ⟨groups, hplain, hgives, hbucket⟩ :=
    findGroups_eq_independentGroups hfilled false (fun _ _ => none) {}
  have hgroups : groups = refrain.groups false := hgives.unique (hc.findGroups_gives hs false _ _)
  obtain ⟨s, g, hdone, -, -, hg, hmem, hcovered, -⟩ := hbucket
    [[⟨['c'], 0⟩, ⟨['b'], 0⟩, ⟨['a'], 0⟩], [⟨['b'], 1⟩, ⟨['a'], 1⟩]] [⟨['b'], 2⟩, ⟨['a'], 2⟩] []
    bucketList_refrain (by decide)
  have hthird : sorted [⟨['b'], 2⟩, ⟨['a'], 2⟩] ∈ s.covered := by
    obtain ⟨s', grown, hdone', ha⟩ := Search.After.visit_all (fun _ _ => none) {} hc
      [[⟨['c'], 0⟩, ⟨['b'], 0⟩, ⟨['a'], 0⟩], [⟨['b'], 1⟩, ⟨['a'], 1⟩]]
      (fun b hb => hbuckets b (List.dropLast_subset _ hb)) (Search.after_nil refrain false)
        (by simp)
    obtain rfl := hdone.unique hdone'
    have hsame : refrain.region (sorted [⟨['b'], 1⟩, ⟨['a'], 1⟩]) =
        refrain.region (sorted [⟨['b'], 2⟩, ⟨['a'], 2⟩]) :=
      region_refrain.2.1.trans region_refrain.2.2.symm
    have hgrown := (ha.mem_grown (refrain.region (sorted [⟨['b'], 2⟩, ⟨['a'], 2⟩]))).2
      ⟨[⟨['b'], 1⟩, ⟨['a'], 1⟩], by simp, by decide, hsame⟩
    exact (ha.mem_covered _).2 ⟨_, hgrown, mem_steps_region refrain _⟩
  refine ⟨hfilled, groups, hplain, ?_, hgives, s, g, hdone, hg, hthird, hcovered hthird, hmem⟩
  intro f
  rw [hgroups, mem_groups_refrain]

end Index

end CloneDetection

import CloneDetection.Clone.Finder
import CloneDetection.Proofs.Clone.Group
import CloneDetection.Proofs.Scan.Uncancelled
import CloneDetection.Proofs.Window.Lines
import Mathlib.Data.List.Perm.Subperm

/-!
# The search for groups

The search passes over occurrences that a region has covered before. What it keeps is carried by one
list of regions: those of the buckets so far, each once. A bucket is covered exactly if its region
is in that list, so the search ends with the regions of all buckets, and with one group for each of
them.
-/
namespace CloneDetection

open Place Std

theorem eraseDupsBy_eq_self {α : Type} {same : α → α → Bool} {l : List α}
    (h : l.Pairwise fun a b => same b a = false) : l.eraseDupsBy same = l := by
  induction l with
  | nil => rfl
  | cons a l ih =>
    obtain ⟨ha, hl⟩ := List.pairwise_cons.1 h
    have hfilter : l.filter (fun b => same b a = false) = l := by
      rw [List.filter_eq_self]
      intro b hb
      simpa using ha b hb
    rw [List.eraseDupsBy_cons, hfilter, ih hl]

namespace Index

/-- A maximal region at several places, one of whose steps are all the occurrences of a digest. -/
structure IsClone (index : Index) (r : Region) : Prop where
  maximal : index.IsMaximal r
  ascending : Ascending r.start
  several : 2 ≤ r.start.length
  seed : ∃ k ≤ r.span, ∃ digest, ∀ o, o ∈ r.start.map (move k) ↔ index.digestOf? o = some digest

/-- The regions of all buckets with several occurrences, each once. -/
def regions (index : Index) : List Region :=
  ((index.bucketList.filter (2 ≤ ·.length)).map fun b => index.region (sorted b)).dedup

/-- The groups of all regions, longest first. -/
def groups (index : Index) (near : Bool) : List CloneGroup :=
  CloneGroup.ranked (index.regions.map (index.groupOf near))

theorem Coherent.shares_sorted {index : Index} (h : Coherent index) (digest : Nat) :
    index.Shares (sorted (index.bucket digest)) := by
  refine ⟨digest, fun o ho => ?_⟩
  rwa [mem_sorted, h.mem_bucket] at ho

theorem Coherent.isMaximal {index : Index} (h : Coherent index) {digest : Nat}
    (hne : index.bucket digest ≠ []) :
    index.IsMaximal (index.region (sorted (index.bucket digest))) := by
  apply isMaximal_region
  · intro hnil
    apply hne
    rw [← List.length_eq_zero_iff, ← length_sorted, hnil, List.length_nil]
  · exact h.shares_sorted digest

theorem length_start_region (index : Index) (l : List Occurrence) :
    (index.region l).start.length = l.length := by
  conv_rhs => rw [← start_region_move index l, List.length_map]

theorem Coherent.isClone {index : Index} (h : Coherent index) {digest : Nat}
    (hlen : 2 ≤ (index.bucket digest).length) :
    index.IsClone (index.region (sorted (index.bucket digest))) where
  maximal := h.isMaximal (List.ne_nil_of_length_pos (by omega))
  ascending := by
    rw [← ascending_map_move (index.leftReach (sorted (index.bucket digest))), start_region_move]
    exact ascending_sorted (h.nodup_bucket digest)
  several := by rwa [length_start_region, length_sorted]
  seed := by
    refine ⟨index.leftReach (sorted (index.bucket digest)), by
      rw [span_region]; omega, digest, fun o => ?_⟩
    rw [start_region_move, mem_sorted, h.mem_bucket]

theorem nodup_regions (index : Index) : index.regions.Nodup :=
  List.nodup_dedup _

theorem Coherent.mem_regions {index : Index} (h : Coherent index) {r : Region} :
    r ∈ index.regions ↔ index.IsClone r := by
  simp only [regions, List.mem_dedup, List.mem_map, List.mem_filter, decide_eq_true_eq]
  constructor
  · rintro ⟨b, ⟨hb, hlen⟩, rfl⟩
    obtain ⟨digest, rfl, _⟩ := h.mem_bucketList.1 hb
    exact h.isClone hlen
  · intro hr
    obtain ⟨k, hk, digest, hseed⟩ := hr.seed
    have hsorted : sorted (index.bucket digest) = r.start.map (move k) := by
      apply (ascending_sorted (h.nodup_bucket digest)).eq_of_mem_iff
        ((ascending_map_move _).2 hr.ascending)
      intro o
      rw [mem_sorted, h.mem_bucket, hseed]
    have hlen : 2 ≤ (index.bucket digest).length := by
      rw [← length_sorted, hsorted, List.length_map]
      exact hr.several
    have hne : index.bucket digest ≠ [] := List.ne_nil_of_length_pos (by omega)
    refine ⟨index.bucket digest, ⟨h.mem_bucketList.2 ⟨digest, rfl, hne⟩, hlen⟩, ?_⟩
    apply (h.isMaximal hne).eq_of_mem_steps hr.maximal (mem_steps_region index _)
    rw [hsorted, mem_steps_iff]
    exact ⟨k, hk, rfl⟩

theorem Coherent.exists_clone_of_digest {index : Index} (h : Coherent index) {o p : Occurrence}
    {d : Nat} (ho : index.digestOf? o = some d) (hp : index.digestOf? p = some d) (hne : o ≠ p) :
    ∃ r, index.IsClone r ∧ ∃ k ≤ r.span, ∀ q, index.digestOf? q = some d →
      q ∈ r.start.map (move k) := by
  rw [← h.mem_bucket] at ho hp
  have hlen : 2 ≤ (index.bucket d).length := by
    have hpair : [o, p].Nodup := by simpa using hne
    have hsub : [o, p] ⊆ index.bucket d := by simpa using ⟨ho, hp⟩
    exact (List.subperm_of_subset hpair hsub).length_le
  refine ⟨index.region (sorted (index.bucket d)), h.isClone hlen,
    index.leftReach (sorted (index.bucket d)), ?_, ?_⟩
  · rw [span_region]
    exact Nat.le_add_right _ _
  · intro q hq
    rwa [start_region_move, mem_sorted, h.mem_bucket]

/-- Two windows that share a digest lie at one distance from the start of a region of several
places. -/
theorem Coherent.exists_clone {index : Index} (h : Coherent index) {o p : Occurrence} {d : Nat}
    (ho : index.digestOf? o = some d) (hp : index.digestOf? p = some d) (hne : o ≠ p) :
    ∃ r, index.IsClone r ∧ ∃ k ≤ r.span, o ∈ r.start.map (move k) ∧ p ∈ r.start.map (move k) := by
  obtain ⟨r, hr, k, hk, hall⟩ := h.exists_clone_of_digest ho hp hne
  exact ⟨r, hr, k, hk, hall o ho, hall p hp⟩

theorem mem_groups {index : Index} {near : Bool} {g : CloneGroup} :
    g ∈ index.groups near ↔ ∃ r ∈ index.regions, index.groupOf near r = g := by
  rw [groups, CloneGroup.mem_ranked, List.mem_map]

/-- Where the search stands after the buckets `done`, with the regions grown so far, last first. -/
structure Search.After (index : Index) (near : Bool) (done : List (List Occurrence)) (s : Search)
    (grown : List Region) : Prop where
  nodup : grown.Nodup
  mem_grown : ∀ r, r ∈ grown ↔ ∃ b ∈ done, 2 ≤ b.length ∧ index.region (sorted b) = r
  mem_covered : ∀ l, l ∈ s.covered ↔ ∃ r ∈ grown, l ∈ r.steps
  groups_eq : s.groups = grown.map (index.groupOf near)

theorem Search.after_nil (index : Index) (near : Bool) : Search.After index near [] ⟨∅, []⟩ [] where
  nodup := .nil
  mem_grown r := by simp
  mem_covered l := by simp
  groups_eq := rfl

theorem mem_foldl_insert {l : List Occurrence} {steps : List (List Occurrence)}
    {covered : TreeSet (List Occurrence)} :
    l ∈ steps.foldl (·.insert ·) covered ↔ l ∈ covered ∨ l ∈ steps := by
  induction steps generalizing covered with
  | nil => simp
  | cons step steps ih =>
    rw [List.foldl_cons, ih, TreeSet.mem_insert, Std.compare_eq_iff_eq, List.mem_cons]
    tauto

section Steps

variable {index : Index} {near : Bool} {done : List (List Occurrence)} {s : Search}
    {grown : List Region}

theorem Coherent.isMaximal_of_isBucket (h : Coherent index) {b : List Occurrence}
    (hb : index.IsBucket b) :
    index.IsMaximal (index.region (sorted b)) := by
  obtain ⟨digest, rfl, hne⟩ := hb
  exact h.isMaximal hne

theorem Search.After.covered_iff (ha : s.After index near done grown) (h : Coherent index)
    (hdone : ∀ b ∈ done, index.IsBucket b) {b : List Occurrence} (hb : index.IsBucket b) :
    sorted b ∈ s.covered ↔ index.region (sorted b) ∈ grown := by
  rw [ha.mem_covered]
  constructor
  · rintro ⟨r, hr, hsteps⟩
    obtain ⟨c, hc, _, rfl⟩ := (ha.mem_grown r).1 hr
    have heq : index.region (sorted b) = index.region (sorted c) :=
      (h.isMaximal_of_isBucket hb).eq_of_mem_steps (h.isMaximal_of_isBucket (hdone c hc))
        (mem_steps_region index _) hsteps
    rwa [heq]
  · intro hr
    exact ⟨_, hr, mem_steps_region index _⟩

theorem Search.After.skip (ha : s.After index near done grown) {b : List Occurrence}
    (hb : 2 ≤ b.length → index.region (sorted b) ∈ grown) :
    s.After index near (done ++ [b]) grown where
  nodup := ha.nodup
  mem_grown r := by
    simp only [List.mem_append, List.mem_singleton, or_and_right, exists_or, exists_eq_left,
      ← ha.mem_grown]
    constructor
    · exact .inl
    · rintro (hr | ⟨hlen, rfl⟩)
      · exact hr
      · exact hb hlen
  mem_covered := ha.mem_covered
  groups_eq := ha.groups_eq

theorem Search.After.grow (ha : s.After index near done grown) {b : List Occurrence}
    (hlen : 2 ≤ b.length) (hnew : index.region (sorted b) ∉ grown) :
    Search.After index near (done ++ [b])
      ⟨(index.region (sorted b)).steps.foldl (·.insert ·) s.covered,
        index.groupOf near (index.region (sorted b)) :: s.groups⟩
      (index.region (sorted b) :: grown) where
  nodup := List.nodup_cons.2 ⟨hnew, ha.nodup⟩
  mem_grown r := by
    simp only [List.mem_append, List.mem_cons, List.not_mem_nil, or_false, or_and_right, exists_or,
      exists_eq_left, ← ha.mem_grown, hlen, true_and]
    tauto
  mem_covered l := by
    simp only [mem_foldl_insert, ha.mem_covered, List.mem_cons, exists_eq_or_imp]
    exact or_comm
  groups_eq := by rw [List.map_cons, ha.groups_eq]

theorem Search.After.visit (reader : FileReader) (r : Record) (ha : s.After index near done grown)
    (h : Coherent index) (hdone : ∀ b ∈ done, index.IsBucket b) {b : List Occurrence}
    (hb : index.IsBucket b) :
    ∃ s' grown', (index.visit near s b).Gives reader r s' { r with checks := r.checks + 1 } ∧
      s'.After index near (done ++ [b]) grown' := by
  have hcovered := ha.covered_iff h hdone hb
  by_cases hskip : (sorted b).length < 2 ∨ sorted b ∈ s.covered
  · refine ⟨s, grown, ?_, ha.skip fun hlen => ?_⟩
    · unfold Index.visit
      apply Scan.gives_checkpoint.bind
      rw [if_pos (by simpa using hskip)]
      exact Scan.gives_pure s
    · rw [length_sorted] at hskip
      exact hcovered.1 (hskip.resolve_left (by omega))
  · have hgroup := (h.isMaximal_of_isBucket hb).group?_eq near
    refine ⟨_, _, ?_, ha.grow ?_ fun hr => hskip (.inr (hcovered.2 hr))⟩
    · unfold Index.visit
      apply Scan.gives_checkpoint.bind
      rw [if_neg (by simpa using hskip)]
      exact (Scan.gives_ofOption hgroup).bind (Scan.gives_pure _)
    · rw [length_sorted] at hskip
      omega

theorem Search.After.visit_all (reader : FileReader) (r : Record) (h : Coherent index)
    (rest : List (List Occurrence)) (hrest : ∀ b ∈ rest, index.IsBucket b)
    (ha : s.After index near done grown) (hdone : ∀ b ∈ done, index.IsBucket b) :
    ∃ s' grown', (rest.foldlM (index.visit near) s).Gives reader r s'
        { r with checks := r.checks + rest.length } ∧
      s'.After index near (done ++ rest) grown' := by
  induction rest generalizing s done grown r with
  | nil => exact ⟨s, grown, Scan.gives_pure s, by rwa [List.append_nil]⟩
  | cons b rest ih =>
    obtain ⟨hb, hrest⟩ := List.forall_mem_cons.1 hrest
    obtain ⟨s₁, grown₁, hvisit, ha₁⟩ := ha.visit reader r h hdone hb
    have hdone₁ : ∀ c ∈ done ++ [b], index.IsBucket c := by
      simpa [or_imp, forall_and] using ⟨hdone, hb⟩
    obtain ⟨s₂, grown₂, hall, ha₂⟩ := ih (r := { r with checks := r.checks + 1 }) hrest ha₁ hdone₁
    refine ⟨s₂, grown₂, ?_, by simpa using ha₂⟩
    rw [List.foldlM_cons]
    have hchecks : r.checks + (b :: rest).length = r.checks + 1 + rest.length := by
      rw [List.length_cons]
      omega
    rw [hchecks]
    exact hvisit.bind hall

theorem Search.After.isClone (ha : s.After index near done grown) (h : Coherent index)
    (hdone : ∀ b ∈ done, index.IsBucket b) {q : Region} (hq : q ∈ grown) : index.IsClone q := by
  obtain ⟨b, hb, hlen, rfl⟩ := (ha.mem_grown q).1 hq
  obtain ⟨digest, rfl, _⟩ := hdone b hb
  exact h.isClone hlen

theorem Search.After.pairwise_not_sameRegion (ha : s.After index near done grown)
    (h : Coherent index) (hs : index.StartsAscend) (hdone : ∀ b ∈ done, index.IsBucket b) :
    s.groups.Pairwise fun f g => f.sameRegion g = false := by
  rw [ha.groups_eq, List.pairwise_map]
  apply ha.nodup.imp_of_mem
  intro p q hp hq hne
  have hp := ha.isClone h hdone hp
  have hq := ha.isClone h hdone hq
  rw [Bool.eq_false_iff]
  exact fun hsame =>
    hne (eq_of_sameRegion hs near hp.maximal hq.maximal hp.ascending hq.ascending hsame)

end Steps

theorem IsClone.eq_of_order_eq {index : Index} (hs : index.StartsAscend) (near : Bool)
    {q r : Region} (hq : index.IsClone q) (hr : index.IsClone r)
    (h : CloneGroup.order (index.groupOf near q) (index.groupOf near r) = .eq) : q = r := by
  rw [CloneGroup.order_eq_iff] at h
  apply eq_of_sameRegion hs near hq.maximal hr.maximal hq.ascending hr.ascending
  rw [CloneGroup.sameRegion_iff, h.2]
  exact ⟨h.1, fun _ => .rfl⟩

theorem Coherent.nodup_map_groupOf {index : Index} (h : Coherent index) (hs : index.StartsAscend)
    (near : Bool) :
    (index.regions.map (index.groupOf near)).Nodup := by
  apply (nodup_regions index).map_on
  intro p hp q hq heq
  apply (h.mem_regions.1 hp).eq_of_order_eq hs near (h.mem_regions.1 hq)
  rw [heq]
  exact ReflCmp.compare_self

theorem ranked_eq_of_perm {index : Index} (hs : index.StartsAscend) (near : Bool)
    {l m : List CloneGroup} (hperm : l.Perm m)
    (hl : ∀ g ∈ l, ∃ r, index.IsClone r ∧ index.groupOf near r = g) :
    CloneGroup.ranked l = CloneGroup.ranked m := by
  have hboth := (CloneGroup.ranked_perm l).trans (hperm.trans (CloneGroup.ranked_perm m).symm)
  refine hboth.eq_of_pairwise ?_ (CloneGroup.pairwise_ranked l) (CloneGroup.pairwise_ranked m)
  intro f g hf hg hfg hgf
  obtain ⟨q, hq, rfl⟩ := hl f (CloneGroup.mem_ranked.1 hf)
  obtain ⟨r, hr, rfl⟩ := hl g (hperm.mem_iff.2 (CloneGroup.mem_ranked.1 hg))
  rw [hq.eq_of_order_eq hs near hr (CloneGroup.order_eq_of_isLE_isLE hfg hgf)]

/-- A search that nobody cancels makes one check for every digest and finds the groups of all
regions. -/
theorem Coherent.findGroups_gives {index : Index} (h : Coherent index) (hs : index.StartsAscend)
    (near : Bool) (reader : FileReader) (r : Record) :
    (index.findGroups near).Gives reader r (index.groups near)
      { r with checks := r.checks + index.buckets.size } := by
  have hbuckets : ∀ b ∈ index.bucketList, index.IsBucket b := fun b hb => h.mem_bucketList.1 hb
  obtain ⟨s, grown, hgives, ha⟩ :=
    Search.After.visit_all reader r h index.bucketList hbuckets (Search.after_nil index near)
      (by simp)
  rw [List.nil_append] at ha
  rw [length_bucketList] at hgives
  have hgroups : CloneGroup.ranked (s.groups.reverse.eraseDupsBy CloneGroup.sameRegion) =
      index.groups near := by
    have hdistinct : s.groups.reverse.eraseDupsBy CloneGroup.sameRegion = s.groups.reverse :=
      eraseDupsBy_eq_self (List.pairwise_reverse.2 (ha.pairwise_not_sameRegion h hs hbuckets))
    have hregions : grown.Perm index.regions := by
      refine (List.perm_ext_iff_of_nodup ha.nodup (nodup_regions index)).2 fun q => ?_
      simp only [ha.mem_grown, regions, List.mem_dedup, List.mem_map, List.mem_filter,
        decide_eq_true_eq, and_assoc]
    rw [hdistinct, ha.groups_eq]
    apply ranked_eq_of_perm hs near ((List.reverse_perm _).trans (hregions.map _))
    intro g hg
    obtain ⟨q, hq, rfl⟩ := List.mem_map.1 (List.mem_reverse.1 hg)
    exact ⟨q, ha.isClone h hbuckets hq, rfl⟩
  rw [← hgroups]
  exact hgives.bind (Scan.gives_pure _)

section Refrain

/-- Four lines in each of two files, which leave out another line between them, and the first two of
them in all other files. -/
def refrainLines (path : Text) : List NormalLine :=
  if path = ['a'] then [⟨['x'], 1⟩, ⟨['y'], 2⟩, ⟨['z'], 3⟩, ⟨['u'], 4⟩]
  else if path = ['b'] then [⟨['x'], 1⟩, ⟨['y'], 3⟩, ⟨['z'], 4⟩, ⟨['u'], 5⟩]
  else [⟨['x'], 7⟩, ⟨['y'], 8⟩]

theorem increasing_refrainLines (path : Text) : Increasing (refrainLines path) := by
  unfold refrainLines
  split
  · simp [Increasing]
  · split <;> simp [Increasing]

/-- Three files, whose windows of two lines fall into three buckets. -/
def refrain : Index :=
  (((Index.empty 2).offer ['a'] (Window.ofLines 2 (refrainLines ['a']))).offer
    ['b'] (Window.ofLines 2 (refrainLines ['b']))).offer ['c']
      (Window.ofLines 2 (refrainLines ['c']))

theorem digests_refrain : digest [['x'], ['y']] = 18044614145318012670 ∧
    digest [['y'], ['z']] = 17128856715262317138 ∧ digest [['z'], ['u']] = 301528276109921283 := by
  decide +kernel

theorem refrain_eq : refrain =
    (((Index.empty 2).offer ['a'] [⟨18044614145318012670, 1, 2⟩, ⟨17128856715262317138, 2, 3⟩,
      ⟨301528276109921283, 3, 4⟩]).offer ['b'] [⟨18044614145318012670, 1, 3⟩,
      ⟨17128856715262317138, 3, 4⟩, ⟨301528276109921283, 4, 5⟩]).offer
      ['c'] [⟨18044614145318012670, 7, 8⟩] := by
  simp [refrain, refrainLines, Window.ofLines, digests_refrain]

theorem bucketList_refrain : refrain.bucketList =
    [[⟨['c'], 0⟩, ⟨['b'], 0⟩, ⟨['a'], 0⟩], [⟨['b'], 1⟩, ⟨['a'], 1⟩], [⟨['b'], 2⟩, ⟨['a'], 2⟩]] := by
  rw [refrain_eq]
  decide +kernel

/-- The second bucket grows in both directions, over the third one and a part of the first. -/
theorem region_refrain :
    refrain.region (sorted [⟨['c'], 0⟩, ⟨['b'], 0⟩, ⟨['a'], 0⟩]) =
        ⟨[⟨['a'], 0⟩, ⟨['b'], 0⟩, ⟨['c'], 0⟩], 0⟩ ∧
      refrain.region (sorted [⟨['b'], 1⟩, ⟨['a'], 1⟩]) = ⟨[⟨['a'], 0⟩, ⟨['b'], 0⟩], 2⟩ ∧
      refrain.region (sorted [⟨['b'], 2⟩, ⟨['a'], 2⟩]) = ⟨[⟨['a'], 0⟩, ⟨['b'], 0⟩], 2⟩ := by
  have hsorted {l m : List Occurrence} (hm : Ascending m) (h : l = m.reverse) : sorted l = m := by
    subst h
    apply (ascending_sorted (List.nodup_reverse.2 hm.nodup)).eq_of_mem_iff hm
    simp [mem_sorted]
  have hfirst : sorted [⟨['c'], 0⟩, ⟨['b'], 0⟩, ⟨['a'], 0⟩] =
      [(⟨['a'], 0⟩ : Occurrence), ⟨['b'], 0⟩, ⟨['c'], 0⟩] :=
        hsorted (by unfold Ascending; decide) rfl
  have hsecond : sorted [⟨['b'], 1⟩, ⟨['a'], 1⟩] = [(⟨['a'], 1⟩ : Occurrence), ⟨['b'], 1⟩] :=
    hsorted (by unfold Ascending; decide) rfl
  have hthird : sorted [⟨['b'], 2⟩, ⟨['a'], 2⟩] = [(⟨['a'], 2⟩ : Occurrence), ⟨['b'], 2⟩] :=
    hsorted (by unfold Ascending; decide) rfl
  rw [hfirst, hsecond, hthird, refrain_eq]
  decide +kernel

/-- The block of two files, and the shorter one of all three. -/
def refrainGroups : List CloneGroup :=
  [⟨4, [⟨['a'], 1, 4⟩, ⟨['b'], 1, 5⟩], false⟩,
    ⟨2, [⟨['a'], 1, 2⟩, ⟨['b'], 1, 3⟩, ⟨['c'], 7, 8⟩], false⟩]

theorem mem_groups_refrain {g : CloneGroup} : g ∈ refrain.groups false ↔ g ∈ refrainGroups := by
  obtain ⟨hfirst, hsecond, hthird⟩ := region_refrain
  have hregions : refrain.regions =
      [⟨[⟨['a'], 0⟩, ⟨['b'], 0⟩, ⟨['c'], 0⟩], 0⟩, ⟨[⟨['a'], 0⟩, ⟨['b'], 0⟩], 2⟩] := by
    rw [regions, bucketList_refrain]
    simp [hfirst, hsecond, hthird]
  have hgroups : refrain.regions.map (refrain.groupOf false) = refrainGroups.reverse := by
    rw [hregions, refrain_eq]
    decide +kernel
  rw [groups, hgroups, CloneGroup.mem_ranked, List.mem_reverse]

end Refrain

end Index

end CloneDetection

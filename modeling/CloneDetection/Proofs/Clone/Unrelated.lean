import CloneDetection.Proofs.Clone.Search
import CloneDetection.Proofs.Clone.Session

/-!
# Files that share nothing

One more file is offered on the way to an index, early or late, to the index itself or to one that
is merged into it. If no window of the file has the digest of another window, none of its windows is
part of a region. All other windows are where they were, so the regions are the same, whatever the
buckets and their order.
-/
namespace CloneDetection

open Place Std

namespace Index

/-- Two indexes that are filled alike, except that one more file is offered on the way to the second
one. -/
inductive FilledBeside (admits : Text → List Window → Prop) (path : Text) (windows : List Window) :
    Int → Index → Index → Prop
  /-- Here the file is offered. -/
  | extra {size : Int} {index : Index} :
      Filled admits size index →
      FilledBeside admits path windows size index (index.offer path windows)
  | offer {size : Int} {index next : Index} {other : Text} {others : List Window} :
      FilledBeside admits path windows size index next → admits other others →
        FilledBeside admits path windows size (index.offer other others) (next.offer other others)
  /-- The file was offered to the index that is merged into. -/
  | into {size size' : Int} {index next second : Index} :
      FilledBeside admits path windows size index next → Filled admits size' second →
        FilledBeside admits path windows size (index.merge second).1 (next.merge second).1
  /-- The file was offered to the index that is merged. -/
  | merged {size size' : Int} {index second next : Index} :
      Filled admits size index → FilledBeside admits path windows size' second next →
        FilledBeside admits path windows size (index.merge second).1 (index.merge next).1

/-- The second index has the files of the first one in their order, and perhaps this file among
them. -/
structure Beside (path : Text) (windows : List Window) (index next : Index) : Prop where
  windowSize_eq : next.windowSize = index.windowSize
  fresh : index.files.contains path = false
  toList_eq : next.files.toList = index.files.toList ∨ ∃ before after, index.files.toList =
  before ++ after ∧
    next.files.toList = before ++ (path, windows.toArray) :: after

section Filling

variable {path : Text} {windows : List Window} {index next : Index}

theorem beside_self (h : index.files.contains path = false) : Beside path windows index index :=
  ⟨rfl, h, .inl rfl⟩

theorem beside_offer (h : index.files.contains path = false) :
    Beside path windows index (index.offer path windows) := by
  by_cases hwindows : windows = []
  · rw [offer_eq_self (.inr hwindows)]
    exact beside_self h
  · rw [offer_eq_adding h hwindows]
    exact ⟨rfl, h, .inr ⟨index.files.toList, [], by simp, (extends_adding h windows).toList_eq⟩⟩

theorem Beside.get?_eq (h : Beside path windows index next) {other : Text} (hne : other ≠ path) :
    next.files.get? other = index.files.get? other := by
  ext others
  rw [Ordered.get?_eq_some_iff, Ordered.get?_eq_some_iff]
  rcases h.toList_eq with heq | ⟨before, after, hindex, hnext⟩
  · rw [heq]
  · simp [hindex, hnext, hne]

theorem Beside.contains_eq (h : Beside path windows index next) {other : Text}
    (hne : other ≠ path) :
    next.files.contains other = index.files.contains other := by
  rw [Ordered.contains_eq_isSome, Ordered.contains_eq_isSome, h.get?_eq hne]

/-- Both indexes refuse another file, or both take it in behind the others. -/
theorem Beside.offer (h : Beside path windows index next) {other : Text} (hne : other ≠ path)
    (others : List Window) :
    Beside path windows (index.offer other others) (next.offer other others) := by
  by_cases hskip : index.files.contains other = true ∨ others = []
  · rw [offer_eq_self hskip, offer_eq_self (by rwa [h.contains_eq hne])]
    exact h
  · simp only [not_or, Bool.not_eq_true] at hskip
    have hnew : next.files.contains other = false := by rw [h.contains_eq hne, hskip.1]
    rw [offer_eq_adding hskip.1 hskip.2, offer_eq_adding hnew hskip.2]
    refine ⟨h.windowSize_eq, ?_, ?_⟩
    · rw [Bool.eq_false_iff]
      intro hcontains
      rcases contains_adding.1 hcontains with heq | hold
      · exact hne heq.symm
      · simp [h.fresh] at hold
    · rw [(extends_adding hskip.1 others).toList_eq, (extends_adding hnew others).toList_eq]
      apply h.toList_eq.imp
      · intro heq
        rw [heq]
      · rintro ⟨before, after, hindex, hnext⟩
        exact ⟨before, after ++ [(other, others.toArray)], by simp [hindex], by simp [hnext]⟩

theorem Beside.addAll (h : Beside path windows index next) {files : List (Text × Array Window)}
    (hfiles : ∀ f ∈ files, f.1 ≠ path) :
    Beside path windows (index.addAll files).1 (next.addAll files).1 := by
  induction files generalizing index next with
  | nil => exact h
  | cons file files ih =>
    obtain ⟨other, others⟩ := file
    obtain ⟨hother, hfiles⟩ := List.forall_mem_cons.1 hfiles
    cases hcontains : index.files.contains other with
    | true =>
      rw [Index.addAll, Index.addAll, add?_eq_none hcontains,
        add?_eq_none (by rwa [h.contains_eq hother])]
      exact h
    | false =>
      rw [Index.addAll, Index.addAll, add?_eq_offer hcontains,
        add?_eq_offer (by rwa [h.contains_eq hother])]
      exact ih (h.offer hother others.toList) hfiles

/-- The file stands among the files that are taken over, or behind the one where that stops. -/
theorem beside_addAll (h : index.files.contains path = false)
    {before after : List (Text × Array Window)} (hbefore : ∀ f ∈ before, f.1 ≠ path)
    (hafter : ∀ f ∈ after, f.1 ≠ path) :
    Beside path windows (index.addAll (before ++ after)).1
      (index.addAll (before ++ (path, windows.toArray) :: after)).1 := by
  induction before generalizing index with
  | nil =>
    rw [List.nil_append, List.nil_append, Index.addAll.eq_2, add?_eq_offer h, List.toList_toArray]
    exact (beside_offer h).addAll hafter
  | cons file before ih =>
    obtain ⟨other, others⟩ := file
    obtain ⟨hother, hbefore⟩ := List.forall_mem_cons.1 hbefore
    rw [List.cons_append, List.cons_append, Index.addAll, Index.addAll]
    cases hadd : index.add? other others.toList with
    | none => exact beside_self h
    | some next =>
      apply ih _ hbefore
      rw [Bool.eq_false_iff]
      intro hcontains
      have hnext : next = index.offer other others.toList := by
        rw [Index.offer, hadd, Option.getD_some]
      rcases contains_offer (hnext ▸ hcontains) with heq | hold
      · exact hother heq.symm
      · simp [h] at hold

theorem Filled.mono {admits admits' : Text → List Window → Prop}
    (hadmits : ∀ p w, admits p w → admits' p w) {size : Int} (h : Filled admits size index) :
    Filled admits' size index := by
  induction h with
  | empty size => exact .empty size
  | offer _ ha ih => exact .offer ih (hadmits _ _ ha)
  | merge _ _ ih ih' => exact .merge ih ih'

section Admits

variable {admits : Text → List Window → Prop} {size : Int}

theorem FilledBeside.first (h : FilledBeside admits path windows size index next) :
    Filled admits size index := by
  induction h with
  | extra h => exact h
  | offer _ ha ih => exact .offer ih ha
  | into _ hsecond ih => exact .merge ih hsecond
  | merged hindex _ ih => exact .merge hindex ih

theorem FilledBeside.second (h : FilledBeside admits path windows size index next) :
    Filled (fun p w => admits p w ∨ w = windows) size next := by
  have hadmits (p : Text) (w : List Window) (ha : admits p w) : admits p w ∨ w = windows := .inl ha
  induction h with
  | extra h => exact .offer (h.mono hadmits) (.inr rfl)
  | offer _ ha ih => exact .offer ih (.inl ha)
  | into _ hsecond ih => exact .merge ih (hsecond.mono hadmits)
  | merged hindex _ ih => exact .merge (hindex.mono hadmits) ih

variable (hadmits : ∀ p w, admits p w → p ≠ path)
include hadmits

theorem Filled.fresh (h : Filled admits size index) : index.files.contains path = false := by
  rw [Ordered.contains_eq_isSome, Option.isSome_eq_false_iff, Option.isNone_iff_eq_none,
    Option.eq_none_iff_forall_ne_some]
  intro others hget
  exact hadmits path _ (h.admitted path others hget) rfl

theorem Filled.path_ne (h : Filled admits size index) : ∀ f ∈ index.files.toList, f.1 ≠ path :=
  fun f hf => hadmits _ _ (h.admitted.of_mem_toList f hf)

theorem FilledBeside.beside (h : FilledBeside admits path windows size index next) :
    Beside path windows index next := by
  induction h with
  | extra h => exact beside_offer (h.fresh hadmits)
  | offer _ ha ih => exact ih.offer (hadmits _ _ ha) _
  | into _ hsecond ih => exact ih.addAll (hsecond.path_ne hadmits)
  | merged hindex hsecond ih =>
    have hpaths := hsecond.first.path_ne hadmits
    rw [merge, merge]
    rcases ih.toList_eq with heq | ⟨before, after, hbefore, hafter⟩
    · rw [heq]
      exact (beside_self (hindex.fresh hadmits)).addAll hpaths
    · rw [hbefore, List.forall_mem_append] at hpaths
      rw [hbefore, hafter]
      exact beside_addAll (hindex.fresh hadmits) hpaths.1 hpaths.2

end Admits

theorem Beside.windowAt?_eq (h : Beside path windows index next) {o : Occurrence}
    (ho : o.path ≠ path) :
    next.windowAt? o = index.windowAt? o := by
  rw [windowAt?, windowAt?, h.get?_eq ho]

theorem Beside.getElem?_eq (h : Beside path windows index next) {o : Occurrence}
    (ho : o.path = path) {w : Window} (hw : next.windowAt? o = some w) :
    windows[o.offset]? = some w := by
  have hfresh (others : Array Window) : (path, others) ∉ index.files.toList := by
    rw [← Ordered.get?_eq_some_iff]
    intro hget
    simpa [Ordered.contains_eq_isSome, hget] using h.fresh
  obtain ⟨others, hothers, hw⟩ := Option.bind_eq_some_iff.1 hw
  rw [ho, Ordered.get?_eq_some_iff] at hothers
  rcases h.toList_eq with heq | ⟨before, after, hindex, hnext⟩
  · rw [heq] at hothers
    exact absurd hothers (hfresh others)
  · have hsame : others = windows.toArray := by
      have hnot := hfresh others
      simp only [hindex, List.mem_append, not_or] at hnot
      simpa [hnext, hnot.1, hnot.2] using hothers
    simpa [hsame] using hw

end Filling

section Regions

variable {path : Text} {index next : Index} {r : Region}
  (hsame : ∀ o : Occurrence, o.path ≠ path → next.windowAt? o = index.windowAt? o)
include hsame

theorem digestOf?_eq_of_path_ne {o : Occurrence} (ho : o.path ≠ path) :
    next.digestOf? o = index.digestOf? o := by
  rw [digestOf?, digestOf?, hsame o ho]

theorem shares_iff_of_path_ne {l : List Occurrence} (hl : ∀ o ∈ l, o.path ≠ path) :
    next.Shares l ↔ index.Shares l := by
  unfold Shares
  simp +contextual only [digestOf?_eq_of_path_ne hsame (hl _ _)]

/-- A region away from the path is maximal in both indexes or in none. -/
theorem isMaximal_iff_of_path_ne (hr : ∀ o ∈ r.start, o.path ≠ path) :
    next.IsMaximal r ↔ index.IsMaximal r := by
  have hmove (k : Nat) : ∀ o ∈ r.start.map (move k), o.path ≠ path := List.forall_mem_map.2 hr
  have hleft (l : List Occurrence) (hl : l.map (move 1) = r.start) : ∀ o ∈ l, o.path ≠ path := by
    rw [← hl, List.forall_mem_map] at hr
    exact hr
  constructor
  · intro h
    exact ⟨h.ne_nil, fun k hk => (shares_iff_of_path_ne hsame (hmove k)).1 (h.shares k hk),
      fun hs => h.right ((shares_iff_of_path_ne hsame (hmove _)).2 hs),
      fun l hl hs => h.left l hl ((shares_iff_of_path_ne hsame (hleft l hl)).2 hs)⟩
  · intro h
    exact ⟨h.ne_nil, fun k hk => (shares_iff_of_path_ne hsame (hmove k)).2 (h.shares k hk),
      fun hs => h.right ((shares_iff_of_path_ne hsame (hmove _)).1 hs),
      fun l hl hs => h.left l hl ((shares_iff_of_path_ne hsame (hleft l hl)).1 hs)⟩

theorem groupOf_eq_of_path_ne (hsize : next.windowSize = index.windowSize) (near : Bool)
    (hr : ∀ o ∈ r.start, o.path ≠ path) : next.groupOf near r = index.groupOf near r := by
  have hlocations : r.start.map (next.locationOf r.span) =
      r.start.map (index.locationOf r.span) := by
    apply List.map_congr_left
    intro o ho
    have hmove : (o.move r.span).path ≠ path := hr o ho
    simp only [locationOf, startLineAt, endLineAt, hsame o (hr o ho), hsame _ hmove]
  rw [groupOf, groupOf, hsize, hlocations]

end Regions

section Unrelated

variable {path : Text} {windows : List Window} {index next : Index} {r : Region}
    (h : Beside path windows index next)
  (hdistinct : (windows.map Window.digest).Nodup)
  (habsent : ∀ o w, index.windowAt? o = some w → w.digest ∉ windows.map Window.digest)

include h

theorem Beside.digestOf?_eq {o : Occurrence} (ho : o.path ≠ path) :
    next.digestOf? o = index.digestOf? o :=
  digestOf?_eq_of_path_ne (fun _ => h.windowAt?_eq) ho

theorem Beside.digest_getElem?_eq {o : Occurrence} (ho : o.path = path) {d : Nat}
    (hd : next.digestOf? o = some d) :
    (windows.map Window.digest)[o.offset]? = some d := by
  obtain ⟨w, hw, rfl⟩ := Option.map_eq_some_iff.1 hd
  rw [List.getElem?_map, h.getElem?_eq ho hw, Option.map_some]

theorem Beside.path_ne_of_digestOf? {o : Occurrence} {d : Nat} (hd : index.digestOf? o = some d) :
    o.path ≠ path := by
  rintro rfl
  rw [digestOf?_eq_none h.fresh] at hd
  cases hd

include habsent

theorem Beside.digestOf?_ne {o p : Occurrence} (ho : o.path = path) (hp : p.path ≠ path) {d : Nat}
    (hd : next.digestOf? o = some d) : next.digestOf? p ≠ some d := by
  rw [h.digestOf?_eq hp]
  intro hdigest
  obtain ⟨w, hw, rfl⟩ := Option.map_eq_some_iff.1 hdigest
  exact habsent p w hw (List.mem_of_getElem? (h.digest_getElem?_eq ho hd))

theorem Beside.isClone_of_first (hr : index.IsClone r) : next.IsClone r := by
  have hpaths : ∀ o ∈ r.start, o.path ≠ path := by
    intro o ho
    obtain ⟨w, hw⟩ := hr.maximal.has_start ho
    exact h.path_ne_of_digestOf? (d := w.digest) (by rw [digestOf?, hw, Option.map_some])
  obtain ⟨k, hk, digest, hseed⟩ := hr.seed
  refine ⟨(isMaximal_iff_of_path_ne (fun _ => h.windowAt?_eq) hpaths).2 hr.maximal, hr.ascending,
    hr.several, k, hk,
    digest, fun o => ?_⟩
  rw [hseed]
  by_cases ho : o.path = path
  · obtain ⟨p, hp⟩ := List.exists_mem_of_ne_nil _ hr.maximal.ne_nil
    have hmove : (p.move k).path ≠ path := hpaths p hp
    have hdigest : next.digestOf? (p.move k) = some digest := by
      rw [h.digestOf?_eq hmove, ← hseed]
      exact List.mem_map_of_mem hp
    refine iff_of_false (fun hfirst => h.path_ne_of_digestOf? hfirst ho) fun hnext => ?_
    exact h.digestOf?_ne habsent ho hmove hnext hdigest
  · rw [h.digestOf?_eq ho]

include hdistinct

theorem Beside.eq_of_digestOf? {o p : Occurrence} (ho : o.path = path) {d : Nat}
    (hd : next.digestOf? o = some d) (hp : next.digestOf? p = some d) : p = o := by
  have hpath : p.path = path := by
    by_contra hne
    exact h.digestOf?_ne habsent ho hne hd hp
  have hentry := h.digest_getElem?_eq hpath hp
  obtain ⟨hlt, -⟩ := List.getElem?_eq_some_iff.1 hentry
  have hoffset : p.offset = o.offset :=
    (List.getElem?_inj hlt hdistinct).1 (hentry.trans (h.digest_getElem?_eq ho hd).symm)
  cases o
  cases p
  simp_all

theorem Beside.path_ne_of_isClone (hr : next.IsClone r) : ∀ o ∈ r.start, o.path ≠ path := by
  intro o ho hpath
  obtain ⟨k, hk, digest, hseed⟩ := hr.seed
  have hdigest {p : Occurrence} (hp : p ∈ r.start) : next.digestOf? (p.move k) = some digest :=
    (hseed _).1 (List.mem_map_of_mem hp)
  have halone : ∀ p ∈ r.start, p = o := fun p hp =>
    move_injective k (h.eq_of_digestOf? hdistinct habsent (o :=
      o.move k) hpath (hdigest ho) (hdigest hp))
  have hone : r.start ⊆ [o] := fun p hp => List.mem_singleton.2 (halone p hp)
  have hle : r.start.length ≤ 1 := (List.subperm_of_subset hr.ascending.nodup hone).length_le
  exact absurd hr.several (by omega)

theorem Beside.isClone_iff : next.IsClone r ↔ index.IsClone r := by
  refine ⟨fun hr => ?_, h.isClone_of_first habsent⟩
  have hpaths := h.path_ne_of_isClone hdistinct habsent hr
  obtain ⟨k, hk, digest, hseed⟩ := hr.seed
  refine ⟨(isMaximal_iff_of_path_ne (fun _ => h.windowAt?_eq) hpaths).1 hr.maximal, hr.ascending,
    hr.several, k, hk,
    digest, fun o => ?_⟩
  by_cases ho : o.path = path
  · refine iff_of_false (fun hmem => ?_) fun hfirst => h.path_ne_of_digestOf? hfirst ho
    obtain ⟨p, hp, rfl⟩ := List.mem_map.1 hmem
    exact hpaths p hp ho
  · rw [hseed, h.digestOf?_eq ho]

theorem Beside.groups_eq (hindex : Coherent index) (hnext : Coherent next) (hs : next.StartsAscend)
    (near : Bool) :
    next.groups near = index.groups near := by
  have hregions : next.regions.Perm index.regions := by
    refine (List.perm_ext_iff_of_nodup (nodup_regions next) (nodup_regions index)).2 fun r => ?_
    rw [hnext.mem_regions, hindex.mem_regions, h.isClone_iff hdistinct habsent]
  have hgroups : next.regions.map (next.groupOf near) = next.regions.map (index.groupOf near) := by
    apply List.map_congr_left
    intro r hr
    apply groupOf_eq_of_path_ne (fun _ => h.windowAt?_eq) h.windowSize_eq near
    exact h.path_ne_of_isClone hdistinct habsent (hnext.mem_regions.1 hr)
  rw [groups, groups]
  apply ranked_eq_of_perm hs near
  · rw [hgroups]
    exact hregions.map _
  · intro g hg
    obtain ⟨r, hr, rfl⟩ := List.mem_map.1 hg
    exact ⟨r, hnext.mem_regions.1 hr, rfl⟩

end Unrelated

/-- One more file, offered at any point on the way to an index, is taken into account nowhere if its
windows have different digests that occur nowhere in the index: a search that nobody cancels finds
the same list of groups. -/
theorem findGroups_of_unrelated {size : Int} {path : Text} {windows : List Window}
    {index next : Index}
    (h : FilledBeside (fun other others => Window.OfIncreasing others ∧ other ≠ path) path windows
      size index next)
    (hwindows : Window.OfIncreasing windows) (hdistinct : (windows.map Window.digest).Nodup)
    (habsent : ∀ o w, index.windowAt? o = some w → w.digest ∉ windows.map Window.digest)
    (near : Bool) (reader : FileReader) (r : Record) :
    ∃ groups,
      (index.findGroups near).Gives reader r groups
        { r with checks := r.checks + index.buckets.size } ∧
      (next.findGroups near).Gives reader r groups
        { r with checks := r.checks + next.buckets.size } := by
  have hfirst := h.first
  have hsecond := h.second
  have hs : index.StartsAscend := hfirst.startsAscend fun _ _ ha => ha.1.pairwise_startLine
  have hs' : next.StartsAscend := by
    apply hsecond.startsAscend
    rintro p w (ha | rfl)
    · exact ha.1.pairwise_startLine
    · exact hwindows.pairwise_startLine
  have hbeside : Beside path windows index next := h.beside fun _ _ ha => ha.2
  refine ⟨index.groups near, hfirst.coherent.findGroups_gives hs near reader r, ?_⟩
  rw [← hbeside.groups_eq hdistinct habsent hfirst.coherent hsecond.coherent hs' near]
  exact hsecond.coherent.findGroups_gives hs' near reader r

def echoLines : List NormalLine :=
  [⟨['x'], 1⟩, ⟨['x'], 2⟩, ⟨['x'], 3⟩]

/-- One file, whose two windows of two lines overlap and are the same. -/
def echo : Index :=
  (Index.empty 2).offer ['a'] (Window.ofLines 2 echoLines)

theorem ofLines_echoLines :
    Window.ofLines 2 echoLines =
      [⟨digest [['x'], ['x']], 1, 2⟩, ⟨digest [['x'], ['x']], 2, 3⟩] := by
  simp [Window.ofLines, echoLines]

def mixedLines : List NormalLine :=
  [⟨['p'], 1⟩, ⟨['q'], 4⟩, ⟨['r'], 5⟩]

theorem map_digest_mixedLines : (Window.ofLines 2 mixedLines).map Window.digest =
    [digest [['p'], ['q']], digest [['q'], ['r']]] := by
  simp [Window.ofLines, mixedLines]

/-- The file of different lines comes first, before the one whose windows are the same. -/
theorem findGroups_of_unrelated_mixed :
    let next := ((Index.empty 2).offer ['b'] (Window.ofLines 2 mixedLines)).offer ['a']
        (Window.ofLines 2 echoLines)
    FilledBeside (fun other others => Window.OfIncreasing others ∧ other ≠ ['b']) ['b']
      (Window.ofLines 2 mixedLines) 2
        echo next ∧ Window.OfIncreasing (Window.ofLines 2 mixedLines) ∧
      ((Window.ofLines 2 mixedLines).map Window.digest).Nodup ∧
      (∀ o w, echo.windowAt? o = some w →
        w.digest ∉ (Window.ofLines 2 mixedLines).map Window.digest) ∧
      ∃ groups, (echo.findGroups true).Gives (fun _ _ => none) {} groups
          { ({} : Record) with checks := ({} : Record).checks + echo.buckets.size } ∧
        (next.findGroups true).Gives (fun _ _ => none) {} groups
          { ({} : Record) with checks := ({} : Record).checks + next.buckets.size } := by
  have hfilled : FilledBeside (fun other others => Window.OfIncreasing others ∧ other ≠ ['b']) ['b']
      (Window.ofLines 2 mixedLines) 2 echo
      (((Index.empty 2).offer ['b'] (Window.ofLines 2 mixedLines)).offer ['a']
        (Window.ofLines 2 echoLines)) :=
    .offer (.extra (.empty 2)) ⟨⟨2, echoLines, by simp [Increasing, echoLines], rfl⟩, by decide⟩
  have hwindows : Window.OfIncreasing (Window.ofLines 2 mixedLines) :=
    ⟨2, mixedLines, by simp [Increasing, mixedLines], rfl⟩
  have hdigests :
      (digest [['x'], ['x']] :: (Window.ofLines 2 mixedLines).map Window.digest).Nodup := by
    rw [map_digest_mixedLines]
    decide +kernel
  rw [List.nodup_cons] at hdigests
  have habsent : ∀ o w, echo.windowAt? o = some w →
      w.digest ∉ (Window.ofLines 2 mixedLines).map Window.digest := by
    intro o w hw
    have hdigest : echo.digestOf? o = some w.digest := by rw [digestOf?, hw, Option.map_some]
    rw [echo, digestOf?_offer (contains_empty _ _), ofLines_echoLines] at hdigest
    have hecho : w.digest = digest [['x'], ['x']] := by
      split at hdigest
      · have hmem := List.mem_of_getElem? (List.getElem?_map.trans hdigest)
        simpa using hmem
      · cases hdigest
    rw [hecho]
    exact hdigests.1
  exact ⟨hfilled, hwindows, hdigests.2, habsent,
    findGroups_of_unrelated hfilled hwindows hdigests.2 habsent true (fun _ _ => none) {}⟩

end Index

end CloneDetection

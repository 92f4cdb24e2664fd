import CloneDetection.Proofs.Clone.Search

/-!
# Indexes of the same files

However an index is put together from files of different paths, by adding one after another or by
merging indexes that were put together before, it ends with the same files. Its digests, the
occurrences of a digest and what has been covered when may come in another order, but regions are
told by the windows alone, and no two groups tie in the order of the groups: the search finds the
same list.
-/
namespace CloneDetection

open Place Std

/-- A way to put an index together from the files of some paths. -/
inductive Assembly where
  | empty
  /-- One more file. -/
  | add (before : Assembly) (path : Text)
  /-- The files of an index that is put together by itself. -/
  | merge (into other : Assembly)

namespace Assembly

def paths : Assembly → List Text
  | empty => []
  | add before path => before.paths ++ [path]
  | merge into other => into.paths ++ other.paths

/-- The index of window size `size` that is put together from files with these windows; `none` if a
path is refused on the way. -/
def index? (entries : Text → List Window) (size : Int) : Assembly → Option Index
  | empty => some (.empty size)
  | add before path => do
    let index ← before.index? entries size
    index.add? path (entries path)
  | merge into other => do
    let index ← into.index? entries size
    let second ← other.index? entries size
    match index.merge second with
    | (merged, none) => some merged
    | (_, some _) => none

end Assembly

namespace Index

/-- The files of the index are those of these paths, except for the ones without windows. -/
def Indexes (entries : Text → List Window) (paths : List Text) (index : Index) : Prop :=
  ∀ path windows, index.files.get? path = some windows ↔
    path ∈ paths ∧ entries path ≠ [] ∧ (entries path).toArray = windows

section Files

variable {entries : Text → List Window} {paths others : List Text} {index other : Index}

theorem indexes_empty (entries : Text → List Window) (size : Int) :
    Indexes entries [] (.empty size) := by
  intro path windows
  simp [Index.empty]

theorem Indexes.congr (h : Indexes entries paths index)
    (hpaths : ∀ path, entries path ≠ [] → (path ∈ paths ↔ path ∈ others)) :
    Indexes entries others index := by
  intro path windows
  rw [h path windows]
  exact and_congr_left fun hwindows => hpaths path hwindows.1

theorem Indexes.contains_eq_false (h : Indexes entries paths index) {path : Text}
    (hpath : path ∉ paths) :
    index.files.contains path = false := by
  rw [Ordered.contains_eq_isSome, Option.isSome_eq_false_iff, Option.isNone_iff_eq_none,
    Option.eq_none_iff_forall_ne_some]
  intro windows hget
  exact hpath ((h path windows).1 hget).1

theorem Indexes.offer (h : Indexes entries paths index) {path : Text} (hpath : path ∉ paths) :
    Indexes entries (paths ++ [path]) (index.offer path (entries path)) := by
  by_cases hne : entries path = []
  · rw [offer_eq_self (.inr hne)]
    apply h.congr
    intro p hp
    have hother : p ≠ path := fun heq => hp (heq ▸ hne)
    simp [hother]
  · intro p windows
    rw [offer_eq_adding (h.contains_eq_false hpath) hne, adding, Ordered.insert,
      Ordered.get?_upsert]
    by_cases hp : path = p
    · subst hp
      simp [hne]
    · rw [if_neg hp, h p windows]
      simp [Ne.symm hp]

theorem Indexes.addAll {files : List (Text × Array Window)} (h : Indexes entries paths index)
    (hfiles : ∀ f ∈ files, f.2.toList = entries f.1) (hnodup : (files.map Prod.fst).Nodup)
    (hnew : ∀ f ∈ files, f.1 ∉ paths) :
    ∃ merged, index.addAll files = (merged, none) ∧
      Indexes entries (paths ++ files.map Prod.fst) merged := by
  induction files generalizing index paths with
  | nil => exact ⟨index, rfl, by simpa using h⟩
  | cons file rest ih =>
    obtain ⟨path, windows⟩ := file
    obtain ⟨hfile, hrest⟩ := List.forall_mem_cons.1 hfiles
    obtain ⟨hpath, hnewRest⟩ := List.forall_mem_cons.1 hnew
    obtain ⟨hfresh, hnodupRest⟩ := List.nodup_cons.1 hnodup
    have hoffered := h.offer hpath
    rw [← hfile] at hoffered
    have hstillNew : ∀ f ∈ rest, f.1 ∉ paths ++ [path] := by
      intro f hf hmem
      rcases List.mem_append.1 hmem with hold | hlast
      · exact hnewRest f hf hold
      · exact hfresh (List.mem_map.2 ⟨f, hf, List.mem_singleton.1 hlast⟩)
    obtain ⟨merged, hadd, hmerged⟩ := ih hoffered hrest hnodupRest hstillNew
    refine ⟨merged, ?_, by simpa using hmerged⟩
    rw [Index.addAll, add?_eq_offer (h.contains_eq_false hpath)]
    exact hadd

theorem Indexes.of_mem_toList (h : Indexes entries paths index) {f : Text × Array Window}
    (hf : f ∈ index.files.toList) : f.1 ∈ paths ∧ f.2.toList = entries f.1 := by
  have hget : index.files.get? f.1 = some f.2 := Ordered.get?_eq_some_iff.2 hf
  obtain ⟨hpath, -, hwindows⟩ := (h f.1 f.2).1 hget
  exact ⟨hpath, by rw [← hwindows]⟩

theorem Indexes.mem_keys (h : Indexes entries paths index) {path : Text} (hne : entries path ≠ []) :
    path ∈ index.files.keys ↔ path ∈ paths := by
  rw [Ordered.mem_keys_iff, Ordered.contains_eq_isSome, Option.isSome_iff_exists]
  simp [h path, hne]

theorem Indexes.merge (h : Indexes entries paths index) (hother : Indexes entries others other)
    (hdisjoint : ∀ path ∈ others, path ∉ paths) :
    ∃ merged, index.merge other = (merged, none) ∧ Indexes entries (paths ++ others) merged := by
  have hnodup : (other.files.toList.map Prod.fst).Nodup := by
    rw [Ordered.map_fst_toList]
    exact other.files.nodup_keys
  obtain ⟨merged, hmerge, hmerged⟩ := h.addAll (fun f hf => (hother.of_mem_toList hf).2) hnodup
    fun f hf => hdisjoint f.1 (hother.of_mem_toList hf).1
  refine ⟨merged, hmerge, hmerged.congr fun path hne => ?_⟩
  rw [Ordered.map_fst_toList, List.mem_append, List.mem_append, hother.mem_keys hne]

theorem Indexes.windowAt?_eq (h : Indexes entries paths index)
    (hother : Indexes entries others other) (hpaths : ∀ path, path ∈ paths ↔ path ∈ others) :
    index.windowAt? = other.windowAt? := by
  funext o
  have hsame : index.files.get? o.path = other.files.get? o.path := by
    ext windows
    rw [(h.congr fun path _ => hpaths path) o.path windows, hother o.path windows]
  rw [windowAt?, windowAt?, hsame]

end Files

section SameWindows

variable {index other : Index} (hw : index.windowAt? = other.windowAt?)

include hw

theorem digestOf?_eq_of_windowAt? : index.digestOf? = other.digestOf? := by
  funext o
  rw [digestOf?, digestOf?, hw]

theorem shares_iff_of_windowAt? {l : List Occurrence} : index.Shares l ↔ other.Shares l := by
  rw [Shares, Shares, digestOf?_eq_of_windowAt? hw]

theorem isClone_of_windowAt? {r : Region} (hr : index.IsClone r) : other.IsClone r where
  maximal :=
    { ne_nil := hr.maximal.ne_nil
      shares := fun k hk => (shares_iff_of_windowAt? hw).1 (hr.maximal.shares k hk)
      right := fun h => hr.maximal.right ((shares_iff_of_windowAt? hw).2 h)
      left := fun l hl h => hr.maximal.left l hl ((shares_iff_of_windowAt? hw).2 h) }
  ascending := hr.ascending
  several := hr.several
  seed := by
    rw [← digestOf?_eq_of_windowAt? hw]
    exact hr.seed

theorem groupOf_eq_of_windowAt? (hsize : index.windowSize = other.windowSize) (near : Bool) :
    index.groupOf near = other.groupOf near := by
  funext r
  have hlocation : index.locationOf r.span = other.locationOf r.span := by
    funext o
    rw [locationOf, locationOf, startLineAt, startLineAt, endLineAt, endLineAt, hw]
  rw [groupOf, groupOf, hsize, hlocation]

/-- The groups of an index depend on its windows only, in whatever order they came in. -/
theorem Coherent.groups_eq_of_windowAt? (h : Coherent index) (hother : Coherent other)
    (hs : index.StartsAscend) (hsize : index.windowSize = other.windowSize) (near : Bool) :
    index.groups near = other.groups near := by
  have hregions : index.regions.Perm other.regions := by
    refine (List.perm_ext_iff_of_nodup (nodup_regions index) (nodup_regions other)).2 fun r => ?_
    rw [h.mem_regions, hother.mem_regions]
    exact ⟨isClone_of_windowAt? hw, isClone_of_windowAt? hw.symm⟩
  rw [groups, groups, ← groupOf_eq_of_windowAt? hw hsize]
  apply ranked_eq_of_perm hs near (hregions.map _)
  intro g hg
  obtain ⟨r, hr, rfl⟩ := List.mem_map.1 hg
  exact ⟨r, h.mem_regions.1 hr, rfl⟩

end SameWindows

end Index

namespace Assembly

open Index

variable {entries : Text → List Window}

/-- Where all paths are different none is refused, and the index has the files of all of them. -/
theorem exists_index (admits : Text → List Window → Prop) (size : Int) {a : Assembly}
    (hnodup : a.paths.Nodup) (hadmits : ∀ path ∈ a.paths, admits path (entries path)) :
    ∃ index, a.index? entries size = some index ∧ Filled admits size index ∧
      Indexes entries a.paths index := by
  induction a with
  | empty => exact ⟨.empty size, rfl, .empty size, indexes_empty entries size⟩
  | add before path ih =>
    obtain ⟨hbefore, -, hnew⟩ := List.nodup_append.1 hnodup
    obtain ⟨hadmitsBefore, hadmitsPath⟩ := List.forall_mem_append.1 hadmits
    obtain ⟨index, hindex, hfilled, hfiles⟩ := ih hbefore hadmitsBefore
    have hpath : path ∉ before.paths := fun hmem => hnew path hmem path List.mem_cons_self rfl
    refine ⟨index.offer path (entries path), ?_,
      hfilled.offer (hadmitsPath path List.mem_cons_self),
      hfiles.offer hpath⟩
    rw [index?, hindex]
    exact add?_eq_offer (hfiles.contains_eq_false hpath) _
  | merge into other ih ih' =>
    obtain ⟨hinto, hother, hdisjoint⟩ := List.nodup_append.1 hnodup
    obtain ⟨hadmitsInto, hadmitsOther⟩ := List.forall_mem_append.1 hadmits
    obtain ⟨index, hindex, hfilled, hfiles⟩ := ih hinto hadmitsInto
    obtain ⟨second, hsecond, hfilled', hfiles'⟩ := ih' hother hadmitsOther
    obtain ⟨merged, hmerge, hmerged⟩ := hfiles.merge hfiles' fun p hp hp' =>
      hdisjoint p hp' p hp rfl
    have hfst : merged = (index.merge second).1 := by rw [hmerge]
    refine ⟨merged, ?_, hfst ▸ hfilled.merge hfilled', hmerged⟩
    rw [index?, hindex, hsecond]
    change (match index.merge second with
      | (merged, none) => some merged
      | (_, some _) => none) = some merged
    rw [hmerge]

/-- In whatever way an index is put together from the same files, each of which comes in once, no
file is refused, and a search that nobody cancels finds the same list of groups. -/
theorem findGroups_of_perm {a b : Assembly} (hperm : a.paths.Perm b.paths) (hnodup : a.paths.Nodup)
    (hentries : ∀ path ∈ a.paths, Window.OfIncreasing (entries path)) (size : Int) (near : Bool)
    (reader : FileReader) (r : Record) :
    ∃ first second groups,
      a.index? entries size = some first ∧ b.index? entries size = some second ∧
      (first.findGroups near).Gives reader r groups
        { r with checks := r.checks + first.buckets.size } ∧
      (second.findGroups near).Gives reader r groups
        { r with checks := r.checks + second.buckets.size } := by
  have hentries' : ∀ path ∈ b.paths, Window.OfIncreasing (entries path) := fun path hpath =>
    hentries path (hperm.mem_iff.2 hpath)
  obtain ⟨first, hfirst, hfilled, hfiles⟩ :=
    exists_index (fun _ windows => Window.OfIncreasing windows) size hnodup hentries
  obtain ⟨second, hsecond, hfilled', hfiles'⟩ :=
    exists_index (fun _ windows => Window.OfIncreasing windows) size (hperm.nodup_iff.1 hnodup)
      hentries'
  have hs : first.StartsAscend := hfilled.startsAscend fun _ _ h => h.pairwise_startLine
  have hs' : second.StartsAscend := hfilled'.startsAscend fun _ _ h => h.pairwise_startLine
  have hwindows : first.windowAt? = second.windowAt? := hfiles.windowAt?_eq hfiles' fun _ =>
    hperm.mem_iff
  have hsize : first.windowSize = second.windowSize := by
    rw [hfilled.windowSize_eq, hfilled'.windowSize_eq]
  have hgroups : first.groups near = second.groups near :=
    hfilled.coherent.groups_eq_of_windowAt? hwindows hfilled'.coherent hs hsize near
  refine ⟨first, second, first.groups near, hfirst, hsecond,
    hfilled.coherent.findGroups_gives hs near reader r, ?_⟩
  rw [hgroups]
  exact hfilled'.coherent.findGroups_gives hs' near reader r

/-- Three files, two of them put together apart from the third. -/
def split : Assembly :=
  (empty.add ['a']).merge ((empty.add ['b']).add ['c'])

def reversed : Assembly :=
  ((empty.add ['c']).merge (empty.add ['b'])).merge (empty.add ['a'])

theorem findGroups_of_perm_split :
    split.paths.Perm reversed.paths ∧ split.paths.Nodup ∧
      ∃ first second groups, split.index? (fun path => Window.ofLines 2 (refrainLines path)) 2 =
        some first ∧
        reversed.index? (fun path => Window.ofLines 2 (refrainLines path)) 2 = some second ∧
        (first.findGroups false).Gives (fun _ _ => none) {} groups
          { ({} : Record) with checks := ({} : Record).checks + first.buckets.size } ∧
        (second.findGroups false).Gives (fun _ _ => none) {} groups
          { ({} : Record) with checks := ({} : Record).checks + second.buckets.size } := by
  have hperm : split.paths.Perm reversed.paths := by decide
  have hnodup : split.paths.Nodup := by decide
  have hentries : ∀ path ∈ split.paths,
      Window.OfIncreasing (Window.ofLines 2 (refrainLines path)) :=
    fun path _ => ⟨2, refrainLines path, increasing_refrainLines path, rfl⟩
  exact ⟨hperm, hnodup, findGroups_of_perm hperm hnodup hentries 2 false (fun _ _ => none) {}⟩

end Assembly

end CloneDetection

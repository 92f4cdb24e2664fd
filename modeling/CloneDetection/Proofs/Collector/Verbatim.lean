import CloneDetection.Proofs.Collector.Blocks
import CloneDetection.Proofs.Collector.Ordering
import CloneDetection.Proofs.Collector.Settling

/-!
# Near groups of equal blocks

Near groups are found among all lines of the files, exact ones among the lines that the exact form
keeps. If the blocks of a near group are equal line by line and the exact form keeps enough of them,
they share a window of the exact form too, so there is an exact group with that window, and it names
all their files. The near group is dropped if this group names no others. Two scans show that there
are near groups of equal blocks where the exact form keeps too few lines, and where a further file
is named.
-/
namespace CloneDetection

open Place Std

theorem nodup_eraseDups {α : Type} [BEq α] [LawfulBEq α] (l : List α) : l.eraseDups.Nodup := by
  induction hlength : l.length using Nat.strongRecOn generalizing l with
  | _ n ih =>
    cases l with
    | nil => exact .nil
    | cons a l =>
      have hshorter : (l.filter fun b => !b == a).length < n := by
        rw [← hlength]
        exact Nat.lt_succ_of_le (List.length_filter_le ..)
      rw [List.eraseDups_cons, List.nodup_cons]
      exact ⟨by simp, ih _ hshorter _ rfl⟩

/-- A group that names all files of another one, and not the same list of files, names a further
one. -/
theorem CloneGroup.exists_path_not_mem {g wide : CloneGroup}
    (hsub : ∀ path ∈ g.paths, path ∈ wide.paths) (hne : g.paths ≠ wide.paths) :
    ∃ path ∈ wide.paths, path ∉ g.paths := by
  by_contra hnone
  have hsup : ∀ path ∈ wide.paths, path ∈ g.paths := by simpa using hnone
  have hascending (g : CloneGroup) : Ascending g.paths := ascending_sorted (nodup_eraseDups _)
  exact hne ((hascending g).eq_of_mem_iff (hascending wide) fun path => ⟨hsub path, hsup path⟩)

theorem Index.IsClone.exists_ne {index : Index} {r : Region} (hr : index.IsClone r) :
    ∃ o ∈ r.start, ∃ p ∈ r.start, o ≠ p := by
  have hseveral : 1 < r.start.length := hr.several
  refine ⟨r.start[0], List.getElem_mem _, r.start[1], List.getElem_mem hseveral, fun heq => ?_⟩
  exact absurd (hr.ascending.nodup.getElem_inj_iff.1 heq) (by decide)

/-- Where all windows have one digest, every group names every file with a window. -/
theorem Index.Coherent.path_mem_of_one_digest {index : Index} (h : Coherent index) {d : Nat}
    (hone : ∀ o e, index.digestOf? o = some e → e = d) {q : Occurrence}
    (hq : index.digestOf? q = some d) {near : Bool} {g : CloneGroup} (hg : g ∈ index.groups near) :
    q.path ∈ g.paths := by
  obtain ⟨r, hr, rfl⟩ := mem_groups.1 hg
  have hclone := h.mem_regions.1 hr
  obtain ⟨k, -, e, hseed⟩ := hclone.seed
  obtain ⟨o, ho⟩ := List.exists_mem_of_ne_nil _ hclone.maximal.ne_nil
  have he : e = d := hone _ e ((hseed _).1 (List.mem_map_of_mem ho))
  obtain ⟨p, hp, rfl⟩ := List.mem_map.1 ((hseed q).2 (he ▸ hq))
  rw [CloneGroup.mem_paths]
  exact ⟨_, List.mem_map_of_mem hp, rfl⟩

namespace Duplication

/-- Where the first line that the exact form keeps of the file from a place on stands in that
form. -/
def exactPlace (files : List ReadFile) (o : Occurrence) : Occurrence :=
  ⟨o.path, (NormalForm.exact.texts ((linesAt files o.path).take o.offset)).length⟩

section Near

variable {files : List ReadFile} {r : Region}

theorem mem_groupsOf_of_isClone (hr : (indexOf .blinded files).IsClone r)
    (hexact : ∀ g ∈ (indexOf .exact files).groups false,
      g.paths ≠ ((indexOf .blinded files).groupOf true r).paths) :
    (indexOf .blinded files).groupOf true r ∈ groupsOf files := by
  have hgroup : (indexOf .blinded files).groupOf true r ∈ (indexOf .blinded files).groups true :=
    Index.mem_groups.2 ⟨r, (filled_indexOf .blinded files).coherent.mem_regions.2 hr, rfl⟩
  refine List.mem_append_right _ ?_
  rw [CloneGroup.withoutExact, List.mem_filter]
  exact ⟨hgroup, by simpa using hexact⟩

variable (hnodup : (files.map ReadFile.path).Nodup)
include hnodup

theorem digestOf?_exactPlace (hr : (indexOf .blinded files).IsMaximal r) {o : Occurrence}
    (ho : o ∈ r.start)
    (hmany : defaultWindowSize ≤ (NormalForm.exact.texts (blockFrom files r.span o)).length) :
    (indexOf .exact files).digestOf? (exactPlace files o) =
      some (digest
        ((NormalForm.exact.texts (blockFrom files r.span o)).take defaultWindowSize)) := by
  obtain ⟨file, hfile, hpath, hlines⟩ := path_mem_of_has hnodup (hr.has_start ho)
  rw [blockFrom, hlines] at hmany ⊢
  rw [exactPlace, hlines, ← hpath, digestOf?_indexOf hnodup hfile]
  exact NormalForm.digest_ofLines_of_block (by decide) hmany

/-- Where the blocks of a near group are equal and the exact form keeps enough of them, an exact
region holds the windows that all of them have first. -/
theorem exists_exact_region (hr : (indexOf .blinded files).IsClone r)
    (hsame : ∀ o ∈ r.start, ∀ p ∈ r.start, (blockFrom files r.span o).map Text.strip =
      (blockFrom files r.span p).map Text.strip)
    (hmany : ∀ o ∈ r.start, defaultWindowSize ≤
      (NormalForm.exact.texts (blockFrom files r.span o)).length) :
    ∃ s ∈ (indexOf .exact files).regions, ∃ k ≤ s.span, ∀ o ∈ r.start,
      exactPlace files o ∈ s.start.map (move k) := by
  obtain ⟨o, ho, p, hp, hne⟩ := hr.exists_ne
  have hdigest (q : Occurrence) (hq : q ∈ r.start) :
      (indexOf .exact files).digestOf? (exactPlace files q) =
      some (digest
        ((NormalForm.exact.texts (blockFrom files r.span o)).take defaultWindowSize)) := by
    rw [digestOf?_exactPlace hnodup hr.maximal hq (hmany q hq),
      NormalForm.texts_exact_congr (hsame q hq o ho)]
  have hplaces : exactPlace files o ≠ exactPlace files p := by
    intro heq
    have hpath := congrArg Place.path heq
    change o.path = p.path at hpath
    have hoffset := congrArg Place.offset heq
    have hofits := (block_of_mem_start hnodup hr.maximal ho).1
    have hpfits := (block_of_mem_start hnodup hr.maximal hp).1
    have hblock := hsame o ho p hp
    have hkept : NormalForm.exact.texts (blockFrom files r.span o) ≠ [] :=
      List.ne_nil_of_length_pos (Nat.lt_of_lt_of_le (by decide) (hmany o ho))
    simp only [exactPlace, blockFrom, hpath] at hoffset hofits hblock hkept
    have hsameOffset :=
      NormalForm.place_eq_of_length_texts_eq (by omega) (by omega) hblock hkept hoffset
    exact hne (congrArg₂ Place.mk hpath hsameOffset)
  have hcoherent := (filled_indexOf .exact files).coherent
  obtain ⟨s, hs, k, hk, hall⟩ :=
    hcoherent.exists_clone_of_digest (hdigest o ho) (hdigest p hp) hplaces
  exact ⟨s, hcoherent.mem_regions.2 hs, k, hk, fun q hq => hall _ (hdigest q hq)⟩

/-- What a near group is reported for: blocks of it that differ, or blocks of which the exact form
keeps too few lines for a window, or the exact group with the window that the exact form has first
of each block, which names a further file. -/
inductive Warranted (files : List ReadFile) (g : CloneGroup) : Prop where
  | differs {l m : Location} (hl : l ∈ g.locations) (hm : m ∈ g.locations)
    (h : (blockAt files l).map Text.strip ≠ (blockAt files m).map Text.strip)
  | dropped (h : ∀ l ∈ g.locations, (NormalForm.exact.texts (blockAt files l)).length <
      defaultWindowSize)
  | wider {s : Region} {k : Nat} (hs : s ∈ (indexOf .exact files).regions) (hk : k ≤ s.span)
    (hwindow : ∀ l ∈ g.locations, exactPlace files (placeOf l) ∈ s.start.map (move k))
    (hmore : ∃ path ∈ ((indexOf .exact files).groupOf false s).paths, path ∉ g.paths)

theorem warranted_of_mem_groupsOf {g : CloneGroup} (hg : g ∈ groupsOf files)
    (hnear : g.near = true) :
    Warranted files g := by
  obtain hexact | hkept := List.mem_append.1 hg
  · rw [Index.near_of_mem_groups hexact] at hnear
    cases hnear
  · rw [CloneGroup.withoutExact, List.mem_filter] at hkept
    obtain ⟨hgroup, hpaths⟩ := hkept
    obtain ⟨r, hr, rfl⟩ := Index.mem_groups.1 hgroup
    rw [(filled_indexOf .blinded files).coherent.mem_regions] at hr
    have hblock (o : Occurrence) (ho : o ∈ r.start) :
        blockAt files ((indexOf .blinded files).locationOf r.span o) = blockFrom files r.span o :=
      (block_of_mem_start hnodup hr.maximal ho).2
    by_cases hsame : ∀ o ∈ r.start, ∀ p ∈ r.start,
        (blockFrom files r.span o).map Text.strip = (blockFrom files r.span p).map Text.strip
    · by_cases hmany : ∀ o ∈ r.start, defaultWindowSize ≤
        (NormalForm.exact.texts (blockFrom files r.span o)).length
      · obtain ⟨s, hs, k, hk, hall⟩ := exists_exact_region hnodup hr hsame hmany
        have hwide : (indexOf .exact files).groupOf false s ∈ (indexOf .exact files).groups false :=
          Index.mem_groups.2 ⟨s, hs, rfl⟩
        have hsub : ∀ path ∈ ((indexOf .blinded files).groupOf true r).paths,
            path ∈ ((indexOf .exact files).groupOf false s).paths := by
          intro path hpath
          obtain ⟨l, hl, rfl⟩ := CloneGroup.mem_paths.1 hpath
          obtain ⟨o, ho, rfl⟩ := List.mem_map.1 hl
          obtain ⟨q, hq, hplace⟩ := List.mem_map.1 (hall o ho)
          have hqpath : (move k q).path = (exactPlace files o).path := congrArg Place.path hplace
          exact CloneGroup.mem_paths.2 ⟨_, List.mem_map_of_mem hq, hqpath⟩
        refine .wider hs hk (fun l hl => ?_) (CloneGroup.exists_path_not_mem hsub fun heq => ?_)
        · obtain ⟨o, ho, rfl⟩ := List.mem_map.1 hl
          rw [placeOf_locationOf hnodup hr.maximal ho]
          exact hall o ho
        · -- a group of the same files would have made the near one be left out
          rw [heq, List.contains_iff_mem.2 (List.mem_map_of_mem hwide)] at hpaths
          cases hpaths
      · simp only [not_forall, Nat.not_le] at hmany
        obtain ⟨o, ho, hfew⟩ := hmany
        refine .dropped fun l hl => ?_
        obtain ⟨p, hp, rfl⟩ := List.mem_map.1 hl
        rwa [hblock p hp, NormalForm.texts_exact_congr (hsame p hp o ho)]
    · simp only [not_forall] at hsame
      obtain ⟨o, ho, p, hp, hdiffer⟩ := hsame
      rw [← hblock o ho, ← hblock p hp] at hdiffer
      exact .differs (List.mem_map_of_mem ho) (List.mem_map_of_mem hp) hdiffer

end Near

/-- Every near group in a report is reported for a reason. Below a usable root of a well-formed tree
files are found; unless one of the groups of those that can be read stands at more locations than
the doubles count, a scan that nobody cancels reports, and each of its findings of the near kind is
that of a near group with blocks that differ, or with blocks of which the exact form keeps less than
a window, or with fewer files than the exact group of the window that the exact form keeps of its
blocks. -/
theorem collect_near_warranted {tree : Tree} {root : Text} (htree : tree.top.WellFormed)
    (hroot : Path.isUsable root = true) (lexers : Lexers) (excludes includes languages : List Text)
    (least : Double) (maxFindings workers : Int) (reader : FileReader) (r : Record) :
    let options :=
      (plainOptions lexers excludes includes languages maxFindings workers).withLeast least
    ∃ files r₁, (options.selection.discover tree root).Gives reader r files r₁ ∧
      ((∃ g ∈ groupsOf (readable reader r₁.accesses files), Nat.pow 2 1023 ≤ g.locations.length ∧
          ∃ r₂, (collect tree root options).uncancelled reader r =
            (.error (.fault .tooManyLocations), r₂)) ∨
        ∃ findings metrics r₂, (collect tree root options).Gives reader r (findings, metrics) r₂ ∧
          ∀ f ∈ findings, f.kind = Finding.kindOf true →
            ∃ g ∈ groupsOf (readable reader r₁.accesses files), g.near = true ∧
              Finding.ofGroup g = .ok f ∧ Warranted (readable reader r₁.accesses files) g) := by
  intro options
  obtain ⟨files, r₁, hdiscover, hnodup⟩ :=
    Selection.discover_gives lexers excludes includes languages 10000 htree hroot reader r
  have hselected : (options.selection.discover tree root).Gives reader r files r₁ := hdiscover
  have hscanned : ((readable reader r₁.accesses files).map ReadFile.path).Nodup :=
    hnodup.sublist (map_path_readable reader r₁.accesses files)
  refine ⟨files, r₁, hselected, ?_⟩
  rcases collect_reports hselected hnodup rfl rfl rfl with hmany | ⟨all, metrics, r₂, hall, hgives⟩
  · exact .inl hmany
  · refine .inr ⟨_, metrics, r₂, hgives, fun f hf hkind => ?_⟩
    obtain ⟨g, hg, hfinding⟩ := exists_group_of_mem hall (mem_of_mem_reportOf hf).1
    rw [(Finding.of_ofGroup_eq_ok hfinding).1] at hkind
    have hnear : g.near = true := Finding.kindOf_injective hkind
    exact ⟨g, hg, hnear, hfinding, warranted_of_mem_groupsOf hscanned hg hnear⟩

section Pairs

/-- With plain options a scan of the tree from its top reports a near group all blocks of which are
equal. -/
def ReportsVerbatim (tree : Tree) : Prop :=
  ∃ files r₁ findings metrics r₂,
    ((plainOptions cLexers [] [] [] 0 1).selection.discover tree ['/']).Gives
      (fun _ => contentsOf tree) {} files r₁ ∧
    (collect tree ['/'] (plainOptions cLexers [] [] [] 0 1)).Gives (fun _ => contentsOf tree) {}
      (findings, metrics) r₂ ∧
    ∃ g ∈ groupsOf (readOf (contentsOf tree) files), g.near = true ∧
      (∃ f ∈ findings, Finding.ofGroup g = .ok f) ∧
      ∀ l ∈ g.locations, ∀ m ∈ g.locations,
        (blockAt (readOf (contentsOf tree) files) l).map Text.strip =
        (blockAt (readOf (contentsOf tree) files) m).map Text.strip

variable {a b : Bytes}

/-- The files of the tree with their lines. -/
def pairFiles (a b : Bytes) : List ReadFile :=
  [⟨"a.c".toList, Content.lines a⟩, ⟨"b.c".toList, Content.lines b⟩]

theorem readOf_pair (a b : Bytes) : readOf (contentsOf (pair a b))
    [⟨"a.c".toList, "/a.c".toList⟩, ⟨"b.c".toList, "/b.c".toList⟩] = pairFiles a b := by
  obtain ⟨ha, hb⟩ := contentsOf_pair a b none
  have hread : read? (fun _ => contentsOf (pair a b)) [] ⟨"a.c".toList, "/a.c".toList⟩ =
      some ⟨"a.c".toList, Content.lines a⟩ := by rw [read?, ha]; rfl
  have hread' : read? (fun _ => contentsOf (pair a b)) [] ⟨"b.c".toList, "/b.c".toList⟩ =
      some ⟨"b.c".toList, Content.lines b⟩ := by rw [read?, hb]; rfl
  simp only [readOf, List.filterMap_cons, hread, hread', List.filterMap_nil]
  rfl

theorem nodup_pairFiles (a b : Bytes) : ((pairFiles a b).map ReadFile.path).Nodup := by
  have hnames : ["a.c".toList, "b.c".toList].Nodup := by decide
  exact hnames

def looksPlain (content : Bytes) : Bool :=
  !Content.looksBinary (some (content.take Content.sniffedBytes)) &&
    !Content.looksGenerated (some (content.take Content.headerBytes))

theorem discover_pair (ha : looksPlain a = true) (hb : looksPlain b = true) :
    ∃ r₁, ((plainOptions cLexers [] [] [] 0 1).selection.discover (pair a b) ['/']).Gives
      (fun _ => contentsOf (pair a b)) {}
      [⟨"a.c".toList, "/a.c".toList⟩, ⟨"b.c".toList, "/b.c".toList⟩] r₁ := by
  have hname (realRoot name : Text) (h : name = "a.c".toList ∨ name = "b.c".toList) :
      Selection.passesByName cLexers [] [] [] ['/'] realRoot ⟨[], ⟨name, none⟩⟩ = true := by
    have hreal : Selection.passesByName cLexers [] [] [] ['/'] realRoot ⟨[], ⟨name, none⟩⟩ =
        Selection.passesByName cLexers [] [] [] ['/'] [] ⟨[], ⟨name, none⟩⟩ := rfl
    have hboth : Selection.passesByName cLexers [] [] [] ['/'] [] ⟨[], ⟨"a.c".toList, none⟩⟩ =
        true ∧
        Selection.passesByName cLexers [] [] [] ['/'] [] ⟨[], ⟨"b.c".toList, none⟩⟩ = true := by
        decide +kernel
    rw [hreal]
    rcases h with rfl | rfl
    · exact hboth.1
    · exact hboth.2
  have hpasses : Selection.passesByContent (contentsOf (pair a b)) ⟨"a.c".toList, "/a.c".toList⟩ =
      true ∧
      Selection.passesByContent (contentsOf (pair a b)) ⟨"b.c".toList, "/b.c".toList⟩ = true := by
    have hnameA : Content.hasGeneratedName "/a.c".toList = false := by decide
    have hnameB : Content.hasGeneratedName "/b.c".toList = false := by decide
    simp only [Selection.passesByContent, contentsOf_pair, hnameA, hnameB, Bool.not_false,
      Bool.and_true]
    exact ⟨ha, hb⟩
  have hyields :=
    Selection.discover_yields (pair a b) (by decide : Path.isUsable ['/'] = true) cLexers [] [] []
    (contentsOf (pair a b)) 10000
  rw [Tree.visits, walk_pair] at hyields
  have hsource : Listed.source ['/'] ⟨[], ⟨"a.c".toList, none⟩⟩ = ⟨"a.c".toList, "/a.c".toList⟩ ∧
      Listed.source ['/'] ⟨[], ⟨"b.c".toList, none⟩⟩ = ⟨"b.c".toList, "/b.c".toList⟩ := ⟨rfl, rfl⟩
  obtain ⟨r₁, hgives, -⟩ := hyields.gives {}
  refine ⟨r₁, ?_⟩
  simp only [Tree.listed, List.flatMap_cons, List.flatMap_nil, List.map_cons, List.map_nil,
    List.append_nil, List.filter_cons, List.filter_nil, Selection.passes, hname, hsource, hpasses,
    or_true, true_or, Bool.and_self, if_true] at hgives
  exact hgives

/-- In a scan of few lines every group is reported, so one that stands among equal lines is. -/
theorem reportsVerbatim_pair (ha : looksPlain a = true) (hb : looksPlain b = true)
    (hfew : linesOf (pairFiles a b) ≤ 100) {r : Region}
    (hr : (indexOf .blinded (pairFiles a b)).IsMaximal r)
    (hreported : (indexOf .blinded (pairFiles a b)).groupOf true r ∈ groupsOf (pairFiles a b))
    {line : Text}
    (hlines : ∀ o ∈ r.start, ∃ n, linesAt (pairFiles a b) o.path = List.replicate n line) :
    ReportsVerbatim (pair a b) := by
  obtain ⟨r₁, hdiscover⟩ := discover_pair ha hb
  have hnames :
      ([⟨"a.c".toList, "/a.c".toList⟩, ⟨"b.c".toList, "/b.c".toList⟩].map
        SourceFile.relative).Nodup :=
    nodup_pairFiles a b
  have hnodup := nodup_pairFiles a b
  have hcases := collect_reports hdiscover hnames rfl rfl rfl
  rw [readable_eq_readOf, readOf_pair] at hcases
  rcases hcases with ⟨g, hg, hmany, -⟩ | ⟨all, metrics, r₂, hall, hgives⟩
  · have hlocations := length_locations_groupsOf_le hnodup hg
    have hlarge := lt_of_two_pow_le hmany
    clear hmany
    omega
  · obtain ⟨f, hf, hfinding⟩ := exists_of_mapM_eq_ok hall hreported
    have hlength : (groupsOf (pairFiles a b)).length = all.length :=
      (forall₂_of_mapM_eq_ok hall).length_eq
    have hgroups := length_groupsOf_le hnodup
    have hlimit : limitOf 0 = 200 := rfl
    refine ⟨_, r₁, _, metrics, r₂, hdiscover, hgives, ?_⟩
    rw [readOf_pair]
    refine ⟨_, hreported, rfl, ⟨f, mem_reportOf (by omega) hf ?_, hfinding⟩, fun l hl m hm => ?_⟩
    · simpa [Finding.reaches] using (Finding.of_ofGroup_eq_ok hfinding).2
    · rw [blockAt_eq_replicate hnodup hr hlines hl, blockAt_eq_replicate hnodup hr hlines hm]

def commentLines : Bytes := [47, 47, 10, 47, 47, 10, 47, 47, 10, 47, 47, 10, 47, 47, 10, 47, 47, 10]

def sevenLines : Bytes := [120, 10, 120, 10, 120, 10, 120, 10, 120, 10, 120, 10, 120, 10]

/-- Six times the same line, with a comment in the middle. -/
def splitLines : Bytes := [120, 10, 120, 10, 120, 10, 47, 47, 10, 120, 10, 120, 10, 120, 10]

theorem commentLines_computed : looksPlain commentLines = true ∧
    Content.lines commentLines = List.replicate 6 ['/', '/'] ∧
    NormalForm.blinded.texts (List.replicate 6 ['/', '/']) = List.replicate 6 ['/', '/'] ∧
    NormalForm.exact.texts (List.replicate 6 ['/', '/']) = [] := by
  decide +kernel

/-- No comment is kept by the exact form, so there is no exact group and the near one is not left
out. -/
theorem reportsVerbatim_comments : ReportsVerbatim (pair commentLines commentLines) := by
  let files := pairFiles commentLines commentLines
  obtain ⟨hplain, hlines, hblindedTexts, hexactTexts⟩ := commentLines_computed
  have hnodup : (files.map ReadFile.path).Nodup := nodup_pairFiles commentLines commentLines
  have hfiles : ∀ file ∈ files, file.lines = List.replicate 6 ['/', '/'] := by
    simp [files, pairFiles, hlines]
  have hblinded (file : ReadFile) (hfile : file ∈ files) :
      (indexOf .blinded files).digestOf? ⟨file.path, 0⟩ =
      some (digest (List.replicate 6 ['/', '/'])) := by
    rw [digestOf?_indexOf_texts hnodup hfile, hfiles file hfile, hblindedTexts]
    rfl
  have hne : (⟨"a.c".toList, 0⟩ : Occurrence) ≠ ⟨"b.c".toList, 0⟩ := by decide
  obtain ⟨r, hr, -⟩ := (filled_indexOf .blinded files).coherent.exists_clone_of_digest
    (hblinded _ List.mem_cons_self) (hblinded _ (List.mem_cons_of_mem _ List.mem_cons_self)) hne
  have hreported : (indexOf .blinded files).groupOf true r ∈ groupsOf files := by
    refine mem_groupsOf_of_isClone hr fun g hg => ?_
    refine absurd hg (not_mem_groups_indexOf hnodup fun file hfile => ?_)
    rw [hfiles file hfile, hexactTexts]
  have hsame : ∀ o ∈ r.start, ∃ n, linesAt files o.path = List.replicate n ['/', '/'] := by
    intro o ho
    obtain ⟨file, hfile, -, hfound⟩ := path_mem_of_has hnodup (hr.maximal.has_start ho)
    exact ⟨6, hfound.trans (hfiles file hfile)⟩
  have hfew : linesOf files ≤ 100 := by simp [files, linesOf, pairFiles, hlines]
  exact reportsVerbatim_pair hplain hplain hfew hr.maximal hreported hsame

def splitFiles : List ReadFile :=
  pairFiles sevenLines splitLines

theorem splitFiles_computed :
    (looksPlain sevenLines = true ∧ looksPlain splitLines = true ∧ linesOf splitFiles ≤ 100) ∧
    Content.lines sevenLines = List.replicate 7 ['x'] ∧
    (NormalForm.exact.texts (Content.lines sevenLines) = List.replicate 7 ['x'] ∧
      NormalForm.exact.texts (Content.lines splitLines) = List.replicate 6 ['x']) ∧
    NormalForm.blinded.texts (Content.lines sevenLines) = List.replicate 7 "ID".toList ∧
      (NormalForm.blinded.texts (Content.lines splitLines)).length = 7 := by
  decide +kernel

theorem nodup_splitFiles : (splitFiles.map ReadFile.path).Nodup :=
  nodup_pairFiles sevenLines splitLines

theorem seven_mem_splitFiles : ⟨"a.c".toList, Content.lines sevenLines⟩ ∈ splitFiles :=
  List.mem_cons_self

theorem split_mem_splitFiles : ⟨"b.c".toList, Content.lines splitLines⟩ ∈ splitFiles :=
  List.mem_cons_of_mem _ List.mem_cons_self

/-- In the exact form, which drops the comment, all windows of both files are equal. -/
theorem exact_splitFiles {o : Occurrence} {d : Nat}
    (h : (indexOf .exact splitFiles).digestOf? o = some d) :
    d = digest (List.replicate defaultWindowSize ['x']) := by
  have htexts : ∀ file ∈ splitFiles, ∃ n, NormalForm.exact.texts file.lines =
      List.replicate n ['x'] := by
    obtain ⟨-, -, hboth, -⟩ := splitFiles_computed
    simp only [splitFiles, pairFiles, List.forall_mem_cons, hboth]
    exact ⟨⟨7, rfl⟩, ⟨6, rfl⟩, by simp⟩
  obtain ⟨file, hfile, hpath, -⟩ := path_mem_of_has nodup_splitFiles (Index.has_of_digestOf? h)
  obtain ⟨n, hn⟩ := htexts file hfile
  have hplace : o = ⟨file.path, o.offset⟩ := by rw [hpath]
  rw [hplace] at h
  exact digest_eq_of_replicate nodup_splitFiles hfile hn h

theorem exact_splitFiles_split : (indexOf .exact splitFiles).digestOf? ⟨"b.c".toList, 0⟩ =
    some (digest (List.replicate defaultWindowSize ['x'])) := by
  obtain ⟨-, -, ⟨-, htexts⟩, -⟩ := splitFiles_computed
  rw [digestOf?_indexOf_texts nodup_splitFiles split_mem_splitFiles, htexts]
  rfl

theorem blinded_splitFiles_seven {position : Nat} (h : position + defaultWindowSize ≤ 7) :
    (indexOf .blinded splitFiles).digestOf? ⟨"a.c".toList, position⟩ =
      some (digest (List.replicate defaultWindowSize "ID".toList)) := by
  obtain ⟨-, -, -, htexts, -⟩ := splitFiles_computed
  rw [digestOf?_indexOf_texts nodup_splitFiles seven_mem_splitFiles, htexts, List.length_replicate,
    if_pos h, List.drop_replicate, List.take_replicate, Nat.min_eq_left (by omega)]

/-- The blinded windows of the split lines hold the comment, and their digests are other ones. -/
theorem digest_splitLines : ∀ position < 2,
    digest (((NormalForm.blinded.texts (Content.lines splitLines)).drop position).take
      defaultWindowSize) ≠
      digest (List.replicate defaultWindowSize "ID".toList) := by
  decide +kernel

theorem path_eq_of_blinded_splitFiles {o : Occurrence}
    (h : (indexOf .blinded splitFiles).digestOf? o =
      some (digest (List.replicate defaultWindowSize "ID".toList))) : o.path = "a.c".toList := by
  obtain ⟨file, hfile, hpath, -⟩ := path_mem_of_has nodup_splitFiles (Index.has_of_digestOf? h)
  rcases List.mem_cons.1 hfile with rfl | hfile
  · exact hpath.symm
  · rw [List.mem_singleton.1 hfile] at hpath
    have hplace : o = ⟨"b.c".toList, o.offset⟩ := congrArg (Place.mk · o.offset) hpath.symm
    obtain ⟨-, -, -, -, hlength⟩ := splitFiles_computed
    rw [hplace, digestOf?_indexOf_texts nodup_splitFiles split_mem_splitFiles,
      Option.ite_none_right_eq_some, hlength] at h
    simp only [defaultWindowSize] at h
    exact absurd (Option.some.inj h.2) (digest_splitLines _ (by omega))

/-- The near group names only the file without the comment, but every exact group names the other
one too. -/
theorem reportsVerbatim_split : ReportsVerbatim (pair sevenLines splitLines) := by
  obtain ⟨⟨hplain, hplain', hfew⟩, hlines, -⟩ := splitFiles_computed
  have hfirst : (0 : Nat) + defaultWindowSize ≤ 7 := by decide
  have hsecond : 1 + defaultWindowSize ≤ 7 := by decide
  have hne : (⟨"a.c".toList, 0⟩ : Occurrence) ≠ ⟨"a.c".toList, 1⟩ := by decide
  obtain ⟨r, hr, k, hk, hall⟩ :=
    (filled_indexOf .blinded splitFiles).coherent.exists_clone_of_digest
    (blinded_splitFiles_seven hfirst) (blinded_splitFiles_seven hsecond) hne
  have hpath : ∀ o ∈ r.start, o.path = "a.c".toList := by
    intro o ho
    obtain ⟨d, hd⟩ := hr.maximal.shares k hk
    have hshared := (hd _ (hall _ (blinded_splitFiles_seven hfirst))).symm.trans
      (blinded_splitFiles_seven hfirst)
    have hdigest := hd _ (List.mem_map_of_mem ho)
    rw [hshared] at hdigest
    exact path_eq_of_blinded_splitFiles (o := o.move k) hdigest
  have hreported : (indexOf .blinded splitFiles).groupOf true r ∈ groupsOf splitFiles := by
    refine mem_groupsOf_of_isClone hr fun g hg heq => ?_
    have hmem := (filled_indexOf .exact splitFiles).coherent.path_mem_of_one_digest
      (fun _ _ => exact_splitFiles) exact_splitFiles_split hg
    rw [heq, CloneGroup.mem_paths] at hmem
    obtain ⟨l, hl, hlpath⟩ := hmem
    obtain ⟨o, ho, rfl⟩ := List.mem_map.1 hl
    exact absurd ((hpath o ho).symm.trans hlpath) (by decide)
  have hsame : ∀ o ∈ r.start, ∃ n, linesAt splitFiles o.path = List.replicate n ['x'] := by
    intro o ho
    rw [hpath o ho]
    exact ⟨7, (linesAt_eq nodup_splitFiles seven_mem_splitFiles).trans hlines⟩
  exact reportsVerbatim_pair hplain hplain' hfew hr.maximal hreported hsame

/-- Neither what the exact form drops nor a further file makes a copy a renamed one: in two files of
comments there is a near group of equal blocks, and so there is where an exact group names more
files. -/
theorem collect_reports_verbatim :
    ReportsVerbatim (pair commentLines commentLines) ∧
    ReportsVerbatim (pair sevenLines splitLines) :=
  ⟨reportsVerbatim_comments, reportsVerbatim_split⟩

/-- The near group of the comments is reported because the exact form drops them. -/
theorem collect_near_warranted_comments :
    (pair commentLines commentLines).top.WellFormed ∧ Path.isUsable ['/'] = true ∧
    ∃ files r₁ findings metrics r₂,
      ((plainOptions cLexers [] [] [] 0 1).selection.discover (pair commentLines commentLines)
        ['/']).Gives
        (fun _ => contentsOf (pair commentLines commentLines)) {} files r₁ ∧
      (collect (pair commentLines commentLines) ['/']
        ((plainOptions cLexers [] [] [] 0 1).withLeast .zero)).Gives
        (fun _ => contentsOf (pair commentLines commentLines)) {} (findings, metrics) r₂ ∧
      ∃ f ∈ findings, f.kind = Finding.kindOf true ∧
        ∃ g ∈ groupsOf
          (readable (fun _ => contentsOf (pair commentLines commentLines)) r₁.accesses files),
          g.near = true ∧ Finding.ofGroup g = .ok f ∧
          Warranted
            (readable (fun _ => contentsOf (pair commentLines commentLines)) r₁.accesses files)
            g := by
  have htree := wellFormed_pair commentLines commentLines
  have hroot : Path.isUsable ['/'] = true := by decide
  obtain ⟨-, -, findings, metrics, r₂, -, hgives, g, -, hnear, ⟨f, hf, hfinding⟩, -⟩ :=
    reportsVerbatim_comments
  have hkind := (Finding.of_ofGroup_eq_ok hfinding).1
  rw [hnear] at hkind
  obtain ⟨files, r₁, hfiles,
    ⟨-, -, -, r₃, hfails⟩ | ⟨findings', metrics', r₃, hgives', hwarranted⟩⟩ :=
    collect_near_warranted htree hroot cLexers [] [] [] .zero 0 1
      (fun _ => contentsOf (pair commentLines commentLines)) {}
  · cases hgives.symm.trans hfails
  · cases hgives.unique hgives'
    exact ⟨htree, hroot, files, r₁, findings, metrics, r₃, hfiles, hgives', f, hf, hkind,
      hwarranted f hf hkind⟩

end Pairs

end Duplication

end CloneDetection

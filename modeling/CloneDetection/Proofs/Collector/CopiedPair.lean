import CloneDetection.Proofs.Collector.Counts
import CloneDetection.Proofs.Finding.Reported
import CloneDetection.Proofs.Scan.Moves
import CloneDetection.Proofs.Selection.Found

/-!
# No copied pair of files is lost

Six lines in a row that agree up to their names make a window that two files share in the blinded
form. The group that grows from it names both files, and if it is dropped, then for an exact group
of the same files. A scan without a least confidence reports on every group there is.
-/
namespace CloneDetection

section Blinded

theorem lines_blinded (raw : List Text) :
    NormalForm.blinded.lines raw = (raw.zipIdx 1).map fun (line, number) =>
      ⟨blind line.strip, number⟩ := by
  rw [NormalForm.lines, ← List.filterMap_eq_map]
  rfl

theorem map_text_lines_blinded (raw : List Text) :
    (NormalForm.blinded.lines raw).map NormalLine.text = raw.map fun line => blind line.strip := by
  rw [lines_blinded, List.map_map]
  conv_rhs => rw [← List.zipIdx_map_fst 1 raw, List.map_map]
  rfl

theorem Duplication.digest_windowsOf_blinded {raw : List Text} {position : Nat}
    (h : position + defaultWindowSize ≤ raw.length) :
    ((windowsOf .blinded raw)[position]?).map Window.digest =
      some (digest
        (((raw.drop position).take defaultWindowSize).map fun line => blind line.strip)) := by
  have hlen : (NormalForm.blinded.lines raw).length = raw.length := by
    rw [lines_blinded, List.length_map, List.length_zipIdx]
  have hsize : 0 < defaultWindowSize := by decide
  have hfirst : position < (NormalForm.blinded.lines raw).length := by omega
  have hlast : position + (defaultWindowSize - 1) < (NormalForm.blinded.lines raw).length := by
    omega
  rw [windowsOf, Window.getElem?_ofLines, List.getElem?_eq_getElem hfirst,
    List.getElem?_eq_getElem hlast, List.map_take, List.map_drop, map_text_lines_blinded,
    ← List.map_drop, ← List.map_take]
  rfl

end Blinded

namespace CloneGroup

theorem mem_paths {g : CloneGroup} {path : Text} :
    path ∈ g.paths ↔ ∃ l ∈ g.locations, l.path = path := by
  rw [paths, mem_sorted, List.mem_eraseDups, List.mem_map]

/-- A near group that is dropped is dropped for an exact group of the same files. -/
theorem exists_paths_eq {near : List CloneGroup} (exact : List CloneGroup) {g : CloneGroup}
    (h : g ∈ near) :
    ∃ g' ∈ exact ++ withoutExact near exact, g'.paths = g.paths := by
  by_cases hexact : g.paths ∈ exact.map paths
  · obtain ⟨g', hg', hpaths⟩ := List.mem_map.1 hexact
    exact ⟨g', List.mem_append_left _ hg', hpaths⟩
  · refine ⟨g, List.mem_append_right _ ?_, rfl⟩
    rw [withoutExact, List.mem_filter]
    exact ⟨h, by simpa using hexact⟩

end CloneGroup

namespace Index

variable {index : Index}

theorem Coherent.exists_group (h : Coherent index) {o p : Occurrence} {d : Nat}
    (ho : index.digestOf? o = some d) (hp : index.digestOf? p = some d) (hne : o ≠ p)
    (near : Bool) :
    ∃ g ∈ index.groups near, o.path ∈ g.paths ∧ p.path ∈ g.paths := by
  obtain ⟨r, hr, k, -, hor, hpr⟩ := h.exists_clone ho hp hne
  have hpath {q : Occurrence} (hq : q ∈ r.start.map (Place.move k)) :
      q.path ∈ (index.groupOf near r).paths := by
    obtain ⟨s, hs, rfl⟩ := List.mem_map.1 hq
    rw [CloneGroup.mem_paths]
    exact ⟨_, List.mem_map_of_mem hs, rfl⟩
  exact ⟨_, mem_groups.2 ⟨r, h.mem_regions.2 hr, rfl⟩, hpath hor, hpath hpr⟩

theorem Coherent.two_le_locations (h : Coherent index) {near : Bool} {g : CloneGroup}
    (hg : g ∈ index.groups near) :
    2 ≤ g.locations.length := by
  obtain ⟨r, hr, rfl⟩ := mem_groups.1 hg
  rw [length_locations_groupOf]
  exact (h.mem_regions.1 hr).several

end Index

namespace Duplication

/-- From these positions on, as many lines as a window has agree after stripping up to their
names. -/
def AgreeAt (a b : List Text) (i j : Nat) : Prop :=
  ∀ k < defaultWindowSize, ∃ x y, a[i + k]? = some x ∧ b[j + k]? = some y ∧
    blind x.strip = blind y.strip

/-- The groups that a scan reports on, from the files that it could read. -/
def groupsOf (files : List ReadFile) : List CloneGroup :=
  reported ((indexOf .exact files).groups false) ((indexOf .blinded files).groups true)

section Groups

variable {files : List ReadFile}

theorem locations_ne_nil {g : CloneGroup} (hg : g ∈ groupsOf files) : g.locations ≠ [] := by
  have htwo : 2 ≤ g.locations.length := by
    rcases List.mem_append.1 hg with hexact | hnear
    · exact (filled_indexOf .exact files).coherent.two_le_locations hexact
    · exact (filled_indexOf .blinded files).coherent.two_le_locations (List.mem_filter.1 hnear).1
  exact List.ne_nil_of_length_pos (by omega)

theorem length_locations_groupsOf_le (hnodup : (files.map ReadFile.path).Nodup) {g : CloneGroup}
    (hg : g ∈ groupsOf files) : g.locations.length ≤ linesOf files := by
  rcases List.mem_append.1 hg with hexact | hnear
  · exact length_locations_le hnodup hexact
  · exact length_locations_le hnodup (List.mem_filter.1 hnear).1

theorem length_groupsOf_le (hnodup : (files.map ReadFile.path).Nodup) :
    (groupsOf files).length ≤ 2 * linesOf files := by
  have hexact := length_groups_indexOf_le hnodup .exact false
  have hblinded := length_groups_indexOf_le hnodup .blinded true
  have hkept := List.length_filter_le
    (fun g : CloneGroup =>
      !(((indexOf .exact files).groups false).map CloneGroup.paths).contains g.paths)
    ((indexOf .blinded files).groups true)
  rw [groupsOf, reported, List.length_append, CloneGroup.withoutExact]
  omega

theorem AgreeAt.digest_eq {a b : List Text} {i j : Nat} (h : AgreeAt a b i j) :
    ∃ d, ((windowsOf .blinded a)[i]?).map Window.digest = some d ∧
      ((windowsOf .blinded b)[j]?).map Window.digest = some d := by
  have hroom : i + defaultWindowSize ≤ a.length ∧ j + defaultWindowSize ≤ b.length := by
    obtain ⟨x, y, hx, hy, -⟩ := h 5 (by decide)
    obtain ⟨hi, -⟩ := List.getElem?_eq_some_iff.1 hx
    obtain ⟨hj, -⟩ := List.getElem?_eq_some_iff.1 hy
    simp only [defaultWindowSize]
    omega
  have htexts : ((a.drop i).take defaultWindowSize).map (fun line => blind line.strip) =
      ((b.drop j).take defaultWindowSize).map (fun line => blind line.strip) := by
    apply List.ext_getElem?
    intro k
    rw [List.getElem?_map, List.getElem?_map, List.getElem?_take, List.getElem?_take]
    by_cases hk : k < defaultWindowSize
    · obtain ⟨x, y, hx, hy, hxy⟩ := h k hk
      rw [if_pos hk, if_pos hk, List.getElem?_drop, List.getElem?_drop, hx, hy, Option.map_some,
        Option.map_some, hxy]
    · rw [if_neg hk, if_neg hk]
  refine ⟨_, digest_windowsOf_blinded hroom.1, ?_⟩
  rw [digest_windowsOf_blinded hroom.2, htexts]

theorem AgreeAt.exists_group (hnodup : (files.map ReadFile.path).Nodup) {a b : ReadFile}
    (ha : a ∈ files) (hb : b ∈ files) (hne : a.path ≠ b.path) {i j : Nat}
    (h : AgreeAt a.lines b.lines i j) :
    ∃ g ∈ groupsOf files, a.path ∈ g.paths ∧ b.path ∈ g.paths := by
  obtain ⟨d, hda, hdb⟩ := h.digest_eq
  rw [← digestOf?_indexOf hnodup ha] at hda
  rw [← digestOf?_indexOf hnodup hb] at hdb
  have hplaces : (⟨a.path, i⟩ : Occurrence) ≠ ⟨b.path, j⟩ :=
    fun heq => hne (congrArg Place.path heq)
  obtain ⟨g, hg, hga, hgb⟩ :=
    (filled_indexOf .blinded files).coherent.exists_group hda hdb hplaces true
  obtain ⟨g', hg', hpaths⟩ := CloneGroup.exists_paths_eq ((indexOf .exact files).groups false) hg
  rw [← hpaths] at hga hgb
  exact ⟨g', hg', hga, hgb⟩

end Groups

section Run

variable {tree : Tree} {root : Text} {options : Options} {reader : FileReader} {r r₁ : Record}
    {files : List SourceFile}

theorem findGroups_indexOf (form : NormalForm) (files : List ReadFile) (near : Bool)
    (reader : FileReader) (r : Record) :
    ∃ r', ((indexOf form files).findGroups near).Gives reader r
      ((indexOf form files).groups near) r' :=
  ⟨_, (filled_indexOf form files).coherent.findGroups_gives
    ((filled_indexOf form files).startsAscend fun _ _ h => h.pairwise_startLine) near reader r⟩

theorem collect_uncancelled
    (hdiscover : (options.selection.discover tree root).Gives reader r files r₁)
    (hnodup : (files.map SourceFile.relative).Nodup) {workers : Int}
    (hworkers : options.workers = .ok workers) :
    ∃ r₂, (collect tree root options).uncancelled reader r = (do
      let kept ← Scan.ofExcept
          (kept options.minConfidence (groupsOf (readable reader r₁.accesses files)))
      let maxFindings ← Scan.ofExcept options.maxFindings
      let metrics := metricsOf (readable reader r₁.accesses files).length (kept.map Prod.fst)
      .emit (.finished (readable reader r₁.accesses files).length metrics.exactClones.toNat
        metrics.nearClones.toNat)
      return (Finding.cap (limitOf maxFindings) (Finding.sort (kept.map Prod.snd)), metrics) :
        Scan (List Finding × Metrics)).uncancelled reader r₂ := by
  let scanned := readable reader r₁.accesses files
  let r₂ : Record := { r₁ with events := .discovered files.length root :: r₁.events }
  have hfresh : (([] : List ReadFile).map ReadFile.path ++ files.map SourceFile.relative).Nodup :=
    hnodup
  obtain ⟨r₃, hindex⟩ := indexFiles_gives files hfresh reader r₂
  obtain ⟨r₄, hexact⟩ := findGroups_indexOf .exact scanned false reader r₃
  obtain ⟨r₅, hnear⟩ := findGroups_indexOf .blinded scanned true reader r₄
  have hemit : (Scan.emit (.discovered files.length root)).Gives reader r₁ () r₂ :=
    Scan.gives_emit _
  have hworkers : (Scan.ofExcept options.workers).Gives reader r₂ workers r₂ :=
    Scan.gives_ofExcept hworkers
  have hcheck : Scan.checkpoint.Gives reader r₅ () { r₅ with checks := r₅.checks + 1 } :=
    Scan.gives_checkpoint
  refine ⟨{ r₅ with checks := r₅.checks + 1 }, ?_⟩
  exact hdiscover.uncancelled_bind.trans <| hemit.uncancelled_bind.trans <|
    hworkers.uncancelled_bind.trans <|
    hindex.uncancelled_bind.trans <| hexact.uncancelled_bind.trans <| hnear.uncancelled_bind.trans
      hcheck.uncancelled_bind

theorem collect_fails (hdiscover : (options.selection.discover tree root).Gives reader r files r₁)
    (hnodup : (files.map SourceFile.relative).Nodup) {workers : Int}
    (hworkers : options.workers = .ok workers) {e : Fault}
    (hkept : kept options.minConfidence (groupsOf (readable reader r₁.accesses files)) = .error e) :
    ∃ r₂, (collect tree root options).uncancelled reader r = (.error (.fault e), r₂) := by
  obtain ⟨r₂, hcollect⟩ := collect_uncancelled hdiscover hnodup hworkers
  rw [hkept] at hcollect
  exact ⟨r₂, hcollect⟩

theorem collect_gives (hdiscover : (options.selection.discover tree root).Gives reader r files r₁)
    (hnodup : (files.map SourceFile.relative).Nodup) {workers : Int}
    (hworkers : options.workers = .ok workers) {pairs : List (CloneGroup × Finding)}
    (hkept : kept options.minConfidence (groupsOf (readable reader r₁.accesses files)) = .ok pairs)
    {maxFindings : Int} (hmax : options.maxFindings = .ok maxFindings) :
    ∃ r₂, (collect tree root options).Gives reader r
      (Finding.cap (limitOf maxFindings) (Finding.sort (pairs.map Prod.snd)),
        metricsOf (readable reader r₁.accesses files).length (pairs.map Prod.fst)) r₂ := by
  obtain ⟨r₂, hcollect⟩ := collect_uncancelled hdiscover hnodup hworkers
  have hpairs :
      (Scan.ofExcept
        (kept options.minConfidence (groupsOf (readable reader r₁.accesses files)))).Gives
      reader r₂ pairs r₂ := Scan.gives_ofExcept hkept
  have hlimit : (Scan.ofExcept options.maxFindings).Gives reader r₂ maxFindings r₂ :=
    Scan.gives_ofExcept hmax
  exact ⟨_,
    hcollect.trans (hpairs.bind (hlimit.bind ((Scan.gives_emit _).bind (Scan.gives_pure _))))⟩

def plainOptions (lexers : Lexers) (excludes includes languages : List Text)
    (maxFindings workers : Int) : Options where
  lexers := lexers
  excludes := .ok (.ofTexts excludes)
  includes := .ok (.ofTexts includes)
  languages := .ok (.ofTexts languages)
  minConfidence := .ok .zero
  maxFindings := .ok maxFindings
  workers := .ok workers

theorem metricsOf_count (files : Nat) (groups : List CloneGroup) :
    (metricsOf files groups).exactClones + (metricsOf files groups).nearClones = groups.length := by
  have hcount : groups.length = groups.countP (·.near) + groups.countP fun g => !g.near := by
    simpa using List.length_eq_countP_add_countP (l := groups) CloneGroup.near
  rw [metricsOf]
  dsimp only
  omega

/-- A scan that nobody cancels and that has no least confidence loses no copied pair. Below a usable
root of a well-formed tree it finds files; unless one of the groups of those that it can read stands
at more locations than the doubles count, it reports, and if the cap does not cut the report off,
two of these files that agree somewhere are named by a group whose finding is in it. -/
theorem collect_finds_copied {tree : Tree} {root : Text} (htree : tree.top.WellFormed)
    (hroot : Path.isUsable root = true) (lexers : Lexers) (excludes includes languages : List Text)
    (maxFindings workers : Int) (reader : FileReader) (r : Record) :
    ∃ files r₁,
      ((plainOptions lexers excludes includes languages maxFindings workers).selection.discover
        tree root).Gives reader r files r₁ ∧
      ((∃ g ∈ groupsOf (readable reader r₁.accesses files), Nat.pow 2 1023 ≤ g.locations.length ∧
        ∃ r₂,
          (collect tree root
            (plainOptions lexers excludes includes languages maxFindings workers)).uncancelled
              reader r =
            (.error (.fault .tooManyLocations), r₂)) ∨
        ∃ findings metrics r₂,
          (collect tree root
            (plainOptions lexers excludes includes languages maxFindings workers)).Gives reader r
            (findings, metrics) r₂ ∧
          (metrics.exactClones + metrics.nearClones ≤ limitOf maxFindings →
            ∀ a ∈ readable reader r₁.accesses files, ∀ b ∈ readable reader r₁.accesses files,
              a.path ≠ b.path →
              ∀ i j, AgreeAt a.lines b.lines i j →
                ∃ g ∈ groupsOf (readable reader r₁.accesses files), ∃ f ∈ findings,
                  Finding.ofGroup g = .ok f ∧ f.kind = Finding.kindOf g.near ∧ a.path ∈ g.paths ∧
                  b.path ∈ g.paths)) := by
  obtain ⟨files, r₁, hdiscover, hnodup⟩ :=
    Selection.discover_gives lexers excludes includes languages 10000 htree hroot reader r
  let options := plainOptions lexers excludes includes languages maxFindings workers
  let scanned := readable reader r₁.accesses files
  have hselected : (options.selection.discover tree root).Gives reader r files r₁ := hdiscover
  have hscanned : (scanned.map ReadFile.path).Nodup :=
    hnodup.sublist (map_path_readable reader r₁.accesses files)
  have hworkers : options.workers = .ok workers := rfl
  refine ⟨files, r₁, hselected, ?_⟩
  cases hall : (groupsOf scanned).mapM Finding.ofGroup with
  | error e =>
    obtain ⟨g, hg, herror⟩ := exists_of_mapM_eq_error hall
    obtain ⟨rfl, hmany⟩ := Finding.of_ofGroup_eq_error (locations_ne_nil hg) herror
    have hkept : kept options.minConfidence (groupsOf scanned) = .error .tooManyLocations := by
      change kept (.ok .zero) _ = _
      rw [kept_eq, hall]
      rfl
    exact .inl ⟨g, hg, hmany, collect_fails hselected hnodup hworkers hkept⟩
  | ok findings =>
    have hlen : (groupsOf scanned).length = findings.length :=
      (forall₂_of_mapM_eq_ok hall).length_eq
    obtain ⟨r₂, hgives⟩ := collect_gives hselected hnodup hworkers (kept_zero hall) rfl
    rw [List.map_fst_zip (Nat.le_of_eq hlen), List.map_snd_zip (Nat.le_of_eq hlen.symm)] at hgives
    refine .inr ⟨_, _, r₂, hgives, ?_⟩
    intro hfew a ha b hb hne i j hagree
    obtain ⟨g, hg, hga, hgb⟩ := hagree.exists_group hscanned ha hb hne
    obtain ⟨f, hf, hfinding⟩ := exists_of_mapM_eq_ok hall hg
    refine ⟨g, hg, f, ?_, hfinding, (Finding.of_ofGroup_eq_ok hfinding).1, hga, hgb⟩
    rw [metricsOf_count, hlen, ← (Finding.sort_perm findings).length_eq] at hfew
    rw [Finding.cap_eq_self hfew, (Finding.sort_perm findings).mem_iff]
    exact hf

end Run

section Pair

/-- What the accesses give as long as nothing changes the files of the tree. -/
def contentsOf (tree : Tree) : Contents :=
  fun access => tree.read? access.path access.limit?

theorem contentsOf_of_tooLong {tree : Tree} {access : Access}
    (h : Tree.isTooLong Tree.maxPathBytes access.path = true) : contentsOf tree access = none := by
  have hfollow : tree.follow access.path = .error .tooLong := by
    rw [Tree.follow, if_neg, if_pos h]
    intro hempty
    rw [List.isEmpty_iff.1 hempty] at h
    cases h
  rw [contentsOf, Tree.read?, Tree.content, hfollow]
  rfl

def pair (a b : Bytes) : Tree where
  top := .directory [("a.c".toList, .file a), ("b.c".toList, .file b)]
  working := []

theorem wellFormed_pair (a b : Bytes) : (pair a b).top.WellFormed := by
  have hnames : ["a.c".toList, "b.c".toList].Nodup := by decide
  exact .directory hnames (by simp) (by simp [Node.WellFormed.file])

theorem follow_pair (a b : Bytes) : (pair a b).follow ['/'] = .ok [] := by
  have hcomponents : Path.components ['/'] = [[], []] := by decide
  have hshort : Tree.isTooLong Tree.maxPathBytes ['/'] = false := by decide
  simp [Tree.follow, hcomponents, hshort, Tree.followNames, pair, Tree.startOf, Node.get?,
    Node.isDirectory]

theorem walk_pair (a b : Bytes) (keep : List Text → Bool) :
    (pair a b).walk keep ['/'] = [⟨[], [], [⟨"a.c".toList, none⟩, ⟨"b.c".toList, none⟩]⟩] := by
  have hordered {α : Type} (x y : α) :
      Tree.ordered [("a.c".toList, x), ("b.c".toList, y)] =
      [("a.c".toList, x), ("b.c".toList, y)] := by
    apply List.mergeSort_of_pairwise
    rw [List.pairwise_pair]
    exact (by decide : (compare "a.c".toList "b.c".toList).isLE = true)
  have hbelow : Tree.visitsOfEntries (pair a b) keep ['/'] []
      [("a.c".toList, .file a), ("b.c".toList, .file b)] =
      [("a.c".toList, []), ("b.c".toList, [])] := by
    simp [Tree.visitsOfEntries, Tree.visitsOfEntry, Tree.visitsOf]
  rw [Tree.walk, follow_pair]
  change Tree.visitsOf (pair a b) keep ['/'] []
    (.directory [("a.c".toList, .file a), ("b.c".toList, .file b)]) = _
  rw [Tree.visitsOf, hbelow, hordered, hordered]
  rfl

theorem follow_files_pair (a b : Bytes) : (pair a b).follow "/a.c".toList = .ok ["a.c".toList] ∧
    (pair a b).follow "/b.c".toList = .ok ["b.c".toList] := by
  have hcomponents : Path.components "/a.c".toList = [[], "a.c".toList] ∧
      Path.components "/b.c".toList = [[], "b.c".toList] := by decide
  have hshort : Tree.isTooLong Tree.maxPathBytes "/a.c".toList = false ∧
      Tree.isTooLong Tree.maxPathBytes "/b.c".toList = false := by decide
  simp at hcomponents hshort
  simp [Tree.follow, hcomponents, hshort, Tree.followNames, pair, Tree.startOf, Node.get?,
    Node.child?, Node.isDirectory, List.lookup_cons]

theorem contentsOf_pair (a b : Bytes) (limit? : Option Nat) :
    contentsOf (pair a b) ⟨"/a.c".toList, limit?⟩ =
      some (match limit? with | some n => a.take n | none => a) ∧
      contentsOf (pair a b) ⟨"/b.c".toList, limit?⟩ =
        some (match limit? with | some n => b.take n | none => b) := by
  have hfiles : (pair a b).top.get? ["a.c".toList] = some (.file a) ∧
      (pair a b).top.get? ["b.c".toList] = some (.file b) := by
    simp [pair, Node.get?, Node.child?, List.lookup_cons]
  obtain ⟨ha, hb⟩ := follow_files_pair a b
  have hcontent : (pair a b).content "/a.c".toList = .ok a ∧
      (pair a b).content "/b.c".toList = .ok b := by
    rw [Tree.content, Tree.content, ha, hb]
    simp only [bind, Except.bind, hfiles]
    exact ⟨rfl, rfl⟩
  simp only [contentsOf, Tree.read?, hcontent]
  cases limit? with
  | none => exact ⟨rfl, rfl⟩
  | some n => exact ⟨rfl, rfl⟩

end Pair

section Twins

/-- A host that knows C and nothing else. -/
def cLexers : Lexers := fun name =>
  if Path.extension name = ".c".toList then some ⟨"C".toList, ["c".toList], by decide⟩ else none

def sixLines : Bytes := [120, 10, 120, 10, 120, 10, 120, 10, 120, 10, 120, 10]

def twins : Tree where
  top := .directory [("a.c".toList, .file sixLines), ("b.c".toList, .file sixLines)]
  working := []

/-- Every file can be read, though none of them up to the end of its header. -/
def twinsReader : FileReader := fun _ access =>
  if access.limit? = some Content.headerBytes then none else some sixLines

theorem wellFormed_twins : twins.top.WellFormed :=
  wellFormed_pair sixLines sixLines

theorem walk_twins (keep : List Text → Bool) :
    twins.walk keep ['/'] = [⟨[], [], [⟨"a.c".toList, none⟩, ⟨"b.c".toList, none⟩]⟩] :=
  walk_pair sixLines sixLines keep

theorem examine_twins {name : Text} (hname : name = "a.c".toList ∨ name = "b.c".toList)
    (realRoot : Text) (r : Record) :
    ∃ r', ((Selection.ofTexts cLexers [] [] [] 10000).examine ['/'] realRoot [] ⟨name, none⟩).Gives
      twinsReader r (some ⟨name, '/' :: name⟩) r' := by
  let s := Selection.ofTexts cLexers [] [] [] 10000
  have hjudge : s.judgeName realRoot (Path.ofComponents ([] ++ [name])) ⟨name, none⟩ =
      .ok (some none) := by
    have hreal : s.judgeName realRoot (Path.ofComponents ([] ++ [name])) ⟨name, none⟩ =
        s.judgeName [] (Path.ofComponents ([] ++ [name])) ⟨name, none⟩ := rfl
    rw [hreal]
    rcases hname with rfl | rfl
    · decide +kernel
    · decide +kernel
  have hfile :
      (⟨Path.ofComponents ([] ++ [name]), Path.append ['/'] (Path.ofComponents ([] ++ [name]))⟩ :
        SourceFile) =
      ⟨name, '/' :: name⟩ := by
    rcases hname with rfl | rfl
    · decide
    · decide
  have hplain : Content.hasGeneratedName ('/' :: name) = false := by
    rcases hname with rfl | rfl
    · decide
    · decide
  let r₁ : Record := { r with checks := r.checks + 1 }
  let r₂ : Record := { r₁ with accesses := ⟨'/' :: name, some Content.sniffedBytes⟩ :: r₁.accesses }
  let r₃ : Record := { r₂ with accesses := ⟨'/' :: name, some Content.headerBytes⟩ :: r₂.accesses }
  have hcontent : (Selection.judgeContent ⟨name, '/' :: name⟩).Gives twinsReader r₁ none r₃ := by
    have hsniffed : (Scan.readHead ('/' :: name) Content.sniffedBytes).Gives twinsReader r₁
        (some sixLines) r₂ := rfl
    have hheader : (Scan.readHead ('/' :: name) Content.headerBytes).Gives twinsReader r₂ none r₃ :=
      rfl
    apply hsniffed.bind
    rw [if_neg (by decide), if_neg (by simp [hplain])]
    exact hheader.bind (Scan.gives_pure _)
  refine ⟨r₃, Scan.gives_checkpoint.bind ((Scan.gives_ofExcept hjudge).bind ?_)⟩
  dsimp only
  rw [hfile]
  exact hcontent.bind (Scan.gives_pure _)

theorem discover_twins :
    ∃ r₁, ((plainOptions cLexers [] [] [] 0 1).selection.discover twins ['/']).Gives twinsReader {}
      [⟨"a.c".toList, "/a.c".toList⟩, ⟨"b.c".toList, "/b.c".toList⟩] r₁ := by
  let s := Selection.ofTexts cLexers [] [] [] 10000
  obtain ⟨r₁, ha⟩ :=
    examine_twins (.inl rfl) (twins.realPath ['/']) { ({} : Record) with checks := 1 }
  obtain ⟨r₂, hb⟩ := examine_twins (.inr rfl) (twins.realPath ['/']) r₁
  have henter := Selection.enter_gives cLexers [] [] [] 10000 [] [] twinsReader {}
  refine ⟨r₂, (Scan.gives_ofExcept (a := []) rfl).bind ?_⟩
  rw [if_pos (by decide)]
  change (s.search ['/'] (twins.realPath ['/']) (Selection.steps (twins.visits s.keeps ['/'])) 10000
    []).Gives _ _ _ _
  rw [Tree.visits, walk_twins]
  exact henter.bind (ha.bind (hb.bind (Scan.gives_pure _)))

theorem lines_sixLines : Content.lines sixLines = List.replicate defaultWindowSize ['x'] := by
  decide +kernel

theorem agreeAt_sixLines : AgreeAt (Content.lines sixLines) (Content.lines sixLines) 0 0 := by
  rw [lines_sixLines]
  intro k hk
  have hx : (List.replicate defaultWindowSize ['x'])[0 + k]? = some ['x'] := by
    rw [Nat.zero_add, List.getElem?_replicate, if_pos hk]
  exact ⟨_, _, hx, hx, rfl⟩

theorem lt_of_two_pow_le {n m : Nat} (h : Nat.pow 2 n ≤ m) : n < m :=
  Nat.lt_of_lt_of_le Nat.lt_two_pow_self h

def twinFiles : List ReadFile :=
  [⟨"a.c".toList, Content.lines sixLines⟩, ⟨"b.c".toList, Content.lines sixLines⟩]

theorem nodup_twinFiles : (twinFiles.map ReadFile.path).Nodup := by
  have hnames : ["a.c".toList, "b.c".toList].Nodup := by decide
  exact hnames

theorem linesOf_twinFiles : linesOf twinFiles = 12 := by
  rw [twinFiles, lines_sixLines]
  rfl

/-- The twins have few lines, so no group of theirs stands at more locations than the doubles
count. -/
theorem few_locations_twins {g : CloneGroup} (hg : g ∈ groupsOf twinFiles) :
    ¬ Nat.pow 2 1023 ≤ g.locations.length := by
  intro hmany
  have hlocations := length_locations_groupsOf_le nodup_twinFiles hg
  have hlarge := lt_of_two_pow_le hmany
  rw [linesOf_twinFiles] at hlocations
  clear hmany
  omega

section Scanned

variable {files : List SourceFile} {r₁ : Record}
  (hfiles : ((Selection.ofTexts cLexers [] [] [] 10000).discover twins ['/']).Gives twinsReader {}
    files r₁)
include hfiles

theorem readable_twins : readable twinsReader r₁.accesses files = twinFiles := by
  obtain ⟨_, hknown⟩ := discover_twins
  have hsame : files = _ := hfiles.unique hknown
  subst hsame
  rfl

theorem metrics_twins {findings : List Finding} {metrics : Metrics} {r₂ : Record}
    (hgives : (collect twins ['/'] (plainOptions cLexers [] [] [] 0 1)).Gives twinsReader {}
      (findings, metrics) r₂) :
    metrics.exactClones + metrics.nearClones ≤ limitOf 0 := by
  have hnames : (files.map SourceFile.relative).Nodup := by
    obtain ⟨_, hknown⟩ := discover_twins
    rw [hfiles.unique hknown]
    exact nodup_twinFiles
  cases hall : (groupsOf twinFiles).mapM Finding.ofGroup with
  | error e =>
    obtain ⟨g, hg, herror⟩ := exists_of_mapM_eq_error hall
    obtain ⟨-, hmany⟩ := Finding.of_ofGroup_eq_error (locations_ne_nil hg) herror
    exact absurd hmany (few_locations_twins hg)
  | ok all =>
    have hlength : (groupsOf twinFiles).length = all.length :=
      (forall₂_of_mapM_eq_ok hall).length_eq
    rw [← readable_twins hfiles] at hall hlength
    have hselected : ((plainOptions cLexers [] [] [] 0 1).selection.discover twins ['/']).Gives
        twinsReader {} files r₁ := hfiles
    obtain ⟨_, hreport⟩ := collect_gives hselected hnames rfl (kept_zero hall) rfl
    obtain ⟨-, rfl⟩ := Prod.mk.inj (hgives.unique hreport)
    have hgroups := length_groupsOf_le nodup_twinFiles
    have hlimit : limitOf 0 = 200 := rfl
    rw [linesOf_twinFiles] at hgroups
    rw [metricsOf_count, List.map_fst_zip (Nat.le_of_eq hlength), readable_twins hfiles, hlimit]
    omega

end Scanned

theorem collect_finds_copied_twins :
    twins.top.WellFormed ∧ Path.isUsable ['/'] = true ∧ ∃ findings metrics r₂,
      (collect twins ['/'] (plainOptions cLexers [] [] [] 0 1)).Gives twinsReader {}
        (findings, metrics) r₂ ∧
        ∃ g ∈ groupsOf twinFiles, ∃ f ∈ findings, Finding.ofGroup g = .ok f ∧
          f.kind = Finding.kindOf g.near ∧ "a.c".toList ∈ g.paths ∧ "b.c".toList ∈ g.paths := by
  have hroot : Path.isUsable ['/'] = true := by decide
  obtain ⟨files, r₁, hfiles, hcases⟩ :=
    collect_finds_copied wellFormed_twins hroot cLexers [] [] [] 0 1 twinsReader {}
  rw [readable_twins hfiles] at hcases
  rcases hcases with ⟨g, hg, hmany, -⟩ | ⟨findings, metrics, r₂, hgives, hfound⟩
  · exact absurd hmany (few_locations_twins hg)
  · refine ⟨wellFormed_twins, hroot, findings, metrics, r₂, hgives, ?_⟩
    exact hfound (metrics_twins hfiles hgives) _ List.mem_cons_self _
      (List.mem_cons_of_mem _ List.mem_cons_self) (by decide) 0 0 agreeAt_sixLines

end Twins

end Duplication

end CloneDetection

import CloneDetection.Proofs.Selection.Selected

/-!
# Further exclusions

More exclude patterns cut further directories off a walk, so two searches with more and with fewer
patterns come to different parts of the tree. What qualifies is said of the names of a file alone,
though: with more patterns it is what qualifies with fewer and is spared by all of them. Only the
set of the patterns counts, and this for the whole run of a search, not only for what it finds.
-/
namespace CloneDetection

namespace Pattern

/-- Whether neither the path nor a directory on the way to it is excluded by one of the patterns. -/
def spares (patterns : List Text) (path : Text) : Bool :=
  (Path.components path).inits.all fun names => names.isEmpty ||
  !anyExcludes patterns (Path.ofComponents names)

variable {few many : List Text}

theorem anyExcludes_of_subset (h : few ⊆ many) {path : Text} (hpath : anyExcludes few path = true) :
    anyExcludes many path = true := by
  simp only [anyExcludes, List.any_eq_true] at hpath ⊢
  obtain ⟨pattern, hmem, hexcludes⟩ := hpath
  exact ⟨pattern, h hmem, hexcludes⟩

theorem anyExcludes_withDefaults (patterns : List Text) (path : Text) :
    anyExcludes (withDefaults patterns) path =
      (anyExcludes defaultExcludes path || anyExcludes patterns path) :=
  List.any_append

theorem anyExcludes_withDefaults_of_subset (h : few ⊆ many) (path : Text) :
    anyExcludes (withDefaults many) path =
      (anyExcludes (withDefaults few) path || anyExcludes many path) := by
  rw [anyExcludes_withDefaults, anyExcludes_withDefaults, Bool.or_assoc]
  congr 1
  cases hfew : anyExcludes few path with
  | false => rfl
  | true => rw [anyExcludes_of_subset h hfew, Bool.or_true]

theorem anyExcludes_congr (h : few ⊆ many) (h' : many ⊆ few) (path : Text) :
    anyExcludes few path = anyExcludes many path :=
  Bool.eq_iff_iff.2 ⟨anyExcludes_of_subset h, anyExcludes_of_subset h'⟩

end Pattern

namespace Selection

section Further

variable {lexers : Lexers} {few many includes languages : List Text} {contents : Contents}
    {root realRoot : Text} {f : Listed}

/-- With further patterns a file qualifies if it does with fewer and all of them spare it. -/
theorem qualifies_of_subset (h : few ⊆ many)
    (hcomponents : Path.components (f.source root).relative = f.components) :
    Qualifies lexers many includes languages contents root realRoot f ↔
      Qualifies lexers few includes languages contents root realRoot f ∧
        Pattern.spares many (f.source root).relative = true := by
  have hspares : Pattern.spares many (f.source root).relative = true ↔ ∀ names ∈ f.components.inits,
      names ≠ [] →
      Pattern.anyExcludes many (Path.ofComponents names) = false := by
    simp [Pattern.spares, hcomponents, or_iff_not_imp_left]
  rw [hspares, qualifies_iff, qualifies_iff]
  simp only [Pattern.anyExcludes_withDefaults_of_subset h, Bool.or_eq_false_iff]
  constructor
  · rintro ⟨hnames, hrest⟩
    exact ⟨⟨fun names hmem hne => (hnames names hmem hne).1, hrest⟩,
      fun names hmem hne => (hnames names hmem hne).2⟩
  · rintro ⟨⟨hnames, hrest⟩, hspared⟩
    exact ⟨fun names hmem hne => ⟨hnames names hmem hne, hspared names hmem hne⟩, hrest⟩

end Further

/-- All files below a root that qualify, in the order of a walk. -/
def candidates (tree : Tree) (root : Text) (contents : Contents) (lexers : Lexers)
    (excludes includes languages : List Text) :
    List SourceFile :=
  ((Tree.listed (tree.visits (fun _ => true) root)).filter
    (Qualifies lexers excludes includes languages contents root (tree.realPath root))).map
      (Listed.source root)

section Candidates

variable {tree : Tree} {root : Text} (htree : tree.top.WellFormed) (contents : Contents)
    (lexers : Lexers) (includes languages : List Text)
include htree

/-- A search finds the first of the candidates and announces the cap if there are more. -/
theorem exists_discover_gives (hroot : Path.isUsable root = true) (excludes : List Text)
    (maxFiles : Int) (r : Record) :
    ∃ r', ((ofTexts lexers excludes includes languages maxFiles).discover tree root).Gives
        (fun _ => contents) r
        ((candidates tree root contents lexers excludes includes languages).take maxFiles.toNat)
        r' ∧
      (Event.messages r'.events = Event.messages r.events ↔
        (candidates tree root contents lexers excludes includes languages).length ≤
          maxFiles.toNat) := by
  have hyields := discover_yields tree hroot lexers excludes includes languages contents maxFiles
  rw [filter_listed_visits htree, List.map_take] at hyields
  obtain ⟨r', hgives, hmessages, -⟩ := hyields.gives r
  refine ⟨r', hgives, ?_⟩
  rw [hmessages, List.append_right_eq_self, capMessages, candidates, List.length_map]
  simp

/-- The candidates with further patterns are those with fewer that all of them spare. -/
theorem candidates_of_subset {few many : List Text} (h : few ⊆ many) :
    candidates tree root contents lexers many includes languages =
      (candidates tree root contents lexers few includes languages).filter fun file =>
        Pattern.spares many file.relative := by
  rw [candidates, candidates, List.filter_map, List.filter_filter]
  congr 1
  apply List.filter_congr
  intro f hf
  have hbelow : tree.HasFileBelow root f := ((Tree.mem_listed_visits htree).1 hf).2.2
  rw [Bool.eq_iff_iff, Bool.and_eq_true, decide_eq_true_eq, decide_eq_true_eq,
    qualifies_of_subset h (Tree.components_of_hasFileBelow htree hbelow), and_comm]
  rfl

end Candidates

section Same

variable {few many : List Text} (lexers : Lexers) (includes languages : List Text) (maxFiles : Int)

theorem excluded_congr (h : few ⊆ many) (h' : many ⊆ few) :
    (ofTexts lexers few includes languages maxFiles).excluded =
      (ofTexts lexers many includes languages maxFiles).excluded := by
  funext relative
  rw [excluded_ofTexts, excluded_ofTexts, Pattern.anyExcludes_withDefaults,
    Pattern.anyExcludes_withDefaults, Pattern.anyExcludes_congr h h']

theorem search_congr (h : few ⊆ many) (h' : many ⊆ few) (root realRoot : Text) (todo : List Step)
    (room : Nat) (found : List SourceFile) :
    (ofTexts lexers few includes languages maxFiles).search root realRoot todo room found =
      (ofTexts lexers many includes languages maxFiles).search root realRoot todo room found := by
  have hexcluded := excluded_congr lexers includes languages maxFiles h h'
  induction todo generalizing room found with
  | nil => rfl
  | cons step rest ih =>
    cases step with
    | enter names directories =>
      have henter : (ofTexts lexers few includes languages maxFiles).enter names directories =
          (ofTexts lexers many includes languages maxFiles).enter names directories := by
        rw [enter, enter, hexcluded]
      rw [search, search, henter]
      congr 1
      funext _
      exact ih room found
    | file names e =>
      have hexamine :
          (ofTexts lexers few includes languages maxFiles).examine root realRoot names e =
          (ofTexts lexers many includes languages maxFiles).examine root realRoot names e := by
        unfold examine judgeName
        rw [hexcluded]
        rfl
      rw [search, search, hexamine]
      congr 1
      funext file?
      cases file? with
      | none => exact ih room found
      | some file =>
        cases room with
        | zero => rfl
        | succ room => exact ih room (file :: found)

theorem discover_congr (h : few ⊆ many) (h' : many ⊆ few) (tree : Tree) (root : Text) :
    (ofTexts lexers few includes languages maxFiles).discover tree root =
      (ofTexts lexers many includes languages maxFiles).discover tree root := by
  have hkeeps : (ofTexts lexers few includes languages maxFiles).keeps =
      (ofTexts lexers many includes languages maxFiles).keeps := by
    funext names
    rw [keeps, keeps, excluded_congr lexers includes languages maxFiles h h']
  have hlook (patterns : List Text) :
      (ofTexts lexers patterns includes languages maxFiles).discover tree root =
      if Path.isUsable root then (ofTexts lexers patterns includes languages maxFiles).search root
        (tree.realPath root)
        (steps (tree.visits (ofTexts lexers patterns includes languages maxFiles).keeps root))
          maxFiles.toNat []
      else .fail .unusableRoot := rfl
  rw [hlook, hlook, hkeeps, search_congr lexers includes languages maxFiles h h']

end Same

/-- Further exclude patterns only take files away: as long as nothing changes the files, a search
with more of them that nobody cancels finds, in the same order, what the one with fewer finds and no
pattern excludes, neither by the path nor by a directory on the way to it. This is so unless the
search with fewer announces that the cap is reached. With the same patterns in another order or
number it is the same search, whoever answers it. -/
theorem discover_of_subset {tree : Tree} {root : Text} (htree : tree.top.WellFormed)
    (hroot : Path.isUsable root = true) {few many : List Text} (h : few ⊆ many) (lexers : Lexers)
    (includes languages : List Text) (maxFiles : Int) (contents : Contents) (r : Record) :
    ∃ files others r₁ r₂,
      ((ofTexts lexers few includes languages maxFiles).discover tree root).Gives
        (fun _ => contents) r files r₁ ∧
      ((ofTexts lexers many includes languages maxFiles).discover tree root).Gives
        (fun _ => contents) r others r₂ ∧
      (Event.messages r₁.events = Event.messages r.events →
        others = files.filter fun file => Pattern.spares many file.relative) ∧
      (many ⊆ few → (ofTexts lexers many includes languages maxFiles).discover tree root =
        (ofTexts lexers few includes languages maxFiles).discover tree root) := by
  obtain ⟨r₁, hfew, hquiet⟩ :=
    exists_discover_gives htree contents lexers includes languages hroot few maxFiles r
  obtain ⟨r₂, hmany, -⟩ :=
    exists_discover_gives htree contents lexers includes languages hroot many maxFiles r
  refine ⟨_, _, r₁, r₂, hfew, hmany, ?_,
    fun h' => discover_congr lexers includes languages maxFiles h' h tree root⟩
  intro hmessages
  have hroom : (candidates tree root contents lexers few includes languages).length ≤
      maxFiles.toNat := hquiet.1 hmessages
  have hroom' : (candidates tree root contents lexers many includes languages).length ≤
      maxFiles.toNat := by
    rw [candidates_of_subset htree contents lexers includes languages h]
    exact Nat.le_trans (List.length_filter_le _ _) hroom
  rw [List.take_of_length_le hroom, List.take_of_length_le hroom',
    candidates_of_subset htree contents lexers includes languages h]

section Shelf

def shelf : Tree where
  top := .directory [("a.c".toList, .file Duplication.sixLines),
    ("lib".toList, .directory [("b.c".toList, .file Duplication.sixLines)])]
  working := []

def shelfContents : Contents := fun _ => some Duplication.sixLines

theorem wellFormed_shelf : shelf.top.WellFormed := by
  refine .directory (by decide) (by decide) ?_
  simp only [List.forall_mem_cons, List.not_mem_nil, false_implies, implies_true, and_true]
  refine ⟨.file _, .directory (by decide) (by decide) ?_⟩
  simp [Node.WellFormed.file]

theorem visits_shelf : shelf.visits (fun _ => true) ['/'] =
    [⟨[], ["lib".toList], [⟨"a.c".toList, none⟩]⟩,
      ⟨["lib".toList], [], [⟨"b.c".toList, none⟩]⟩] := by
  have hfollow : shelf.follow ['/'] = .ok [] := by
    have hcomponents : Path.components ['/'] = [[], []] := by decide
    have hshort : Tree.isTooLong Tree.maxPathBytes ['/'] = false := by decide
    simp [Tree.follow, hcomponents, hshort, Tree.followNames, shelf, Tree.startOf, Node.get?,
      Node.isDirectory]
  have hordered {α : Type} (x y : α) :
      Tree.ordered [("a.c".toList, x), ("lib".toList, y)] =
      [("a.c".toList, x), ("lib".toList, y)] := by
    apply List.mergeSort_of_pairwise
    rw [List.pairwise_pair]
    exact (by decide : (compare "a.c".toList "lib".toList).isLE = true)
  have hsingle {α : Type} (x : Text × α) : Tree.ordered [x] = [x] := List.mergeSort_singleton x
  have hbelow (keep : List Text → Bool) : Tree.visitsOf shelf keep ['/'] ["lib".toList]
      (.directory [("b.c".toList, .file Duplication.sixLines)]) =
      [⟨["lib".toList], [], [⟨"b.c".toList, none⟩]⟩] := by
    rw [Tree.visitsOf, Tree.visitsOfEntries, Tree.visitsOfEntries, Tree.visitsOfEntry, hsingle,
      hsingle]
    simp [Tree.visitsOf, Tree.directoriesOf, Tree.entry?]
  have hreachable : Tree.isReachable ['/'] ["lib".toList] = true := by decide
  rw [Tree.visits, Tree.walk, hfollow]
  change Tree.visitsOf shelf (fun names => true && Tree.isReachable ['/'] names) ['/'] []
    (.directory [("a.c".toList, .file Duplication.sixLines),
    ("lib".toList, .directory [("b.c".toList, .file Duplication.sixLines)])]) = _
  rw [Tree.visitsOf, Tree.visitsOfEntries, Tree.visitsOfEntries, Tree.visitsOfEntries,
    Tree.visitsOfEntry, Tree.visitsOfEntry]
  simp only [List.nil_append, hreachable, Bool.true_and, if_true, hbelow, hordered]
  rfl

theorem candidates_shelf :
    candidates shelf ['/'] shelfContents Duplication.cLexers ["*.h".toList] [] [] =
    [⟨"a.c".toList, "/a.c".toList⟩, ⟨"lib/b.c".toList, "/lib/b.c".toList⟩] := by
  have hlisted : Tree.listed (shelf.visits (fun _ => true) ['/']) =
      [⟨[], ⟨"a.c".toList, none⟩⟩, ⟨["lib".toList], ⟨"b.c".toList, none⟩⟩] := by
    rw [visits_shelf]
    rfl
  have hcontent : Content.looksBinary (some Duplication.sixLines) = false ∧
      Content.looksGenerated (some Duplication.sixLines) = false := by decide +kernel
  have hqualify (realRoot : Text) :
      ∀ f ∈ [(⟨[], ⟨"a.c".toList, none⟩⟩ : Listed), ⟨["lib".toList], ⟨"b.c".toList, none⟩⟩],
      Qualifies Duplication.cLexers ["*.h".toList] [] [] shelfContents ['/'] realRoot f := by
    simp only [List.forall_mem_cons, List.not_mem_nil, false_implies, implies_true, and_true]
    constructor
    · exact ⟨by decide +kernel, nofun, .inl rfl, by decide, by decide, hcontent.1, by decide,
        hcontent.2⟩
    · exact ⟨by decide +kernel, nofun, .inl rfl, by decide, by decide, hcontent.1, by decide,
        hcontent.2⟩
  rw [candidates, hlisted, List.filter_eq_self.2 fun f hf => decide_eq_true (hqualify _ f hf)]
  decide

/-- A directory that is excluded by name takes the file in it away, and with it the repeated pattern
nothing more. -/
theorem discover_of_subset_shelf :
    shelf.top.WellFormed ∧ Path.isUsable ['/'] = true ∧
      ["*.h".toList] ⊆ ["lib".toList, "*.h".toList, "lib".toList] ∧ ∃ r₁ r₂,
      ((ofTexts Duplication.cLexers ["*.h".toList] [] [] 10).discover shelf ['/']).Gives
        (fun _ => shelfContents) {}
        [⟨"a.c".toList, "/a.c".toList⟩, ⟨"lib/b.c".toList, "/lib/b.c".toList⟩] r₁ ∧
      Event.messages r₁.events = [] ∧
      ((ofTexts Duplication.cLexers ["lib".toList, "*.h".toList, "lib".toList] [] [] 10).discover
        shelf ['/']).Gives (fun _ => shelfContents) {}
        [⟨"a.c".toList, "/a.c".toList⟩] r₂ := by
  have hroot : Path.isUsable ['/'] = true := by decide
  have hsubset : ["*.h".toList] ⊆ ["lib".toList, "*.h".toList, "lib".toList] := by simp
  obtain ⟨files, others, r₁, r₂, hfew, hmany, hothers, -⟩ :=
    discover_of_subset wellFormed_shelf hroot hsubset Duplication.cLexers [] [] 10 shelfContents {}
  obtain ⟨r, hgives, hquiet⟩ :=
    exists_discover_gives wellFormed_shelf shelfContents Duplication.cLexers [] [] hroot
      ["*.h".toList] 10 {}
  rw [candidates_shelf] at hgives hquiet
  obtain ⟨rfl, rfl⟩ : files = _ ∧ r₁ = r := by
    have hsame := hfew.symm.trans hgives
    simpa using hsame
  have hmessages : Event.messages r₁.events = [] := hquiet.2 (by decide)
  have hspared : others = [⟨"a.c".toList, "/a.c".toList⟩] := by
    rw [hothers hmessages]
    decide +kernel
  subst hspared
  exact ⟨wellFormed_shelf, hroot, hsubset, r₁, r₂, hfew, hmessages, hmany⟩

end Shelf

end Selection

end CloneDetection

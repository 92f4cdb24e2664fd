import CloneDetection.Proofs.Selection.Selected

/-!
# No file from outside

A search enters no link to a directory, and it refuses a link that leads out of the root. So
whatever links there are, on the way to the root, in it or elsewhere, the files that it selects are
below the place where the root is. This rests on what a link leads to being asked for by a path at
every link on the way there: behind a link whose path is too long for that, nothing is known.
-/
namespace CloneDetection

open CloneDetection.Tree

namespace Selection

theorem exists_follow_of_qualifies {tree : Tree} {root realRoot : Text} {lexers : Lexers}
    {excludes includes languages : List Text} {contents : Contents}
    (hcontents : ∀ a bytes, contents a = some bytes → tree.read? a.path a.limit? = some bytes)
    {f : Listed} (h : Qualifies lexers excludes includes languages contents root realRoot f) :
    ∃ there content, tree.follow (f.source root).path = .ok there ∧
      tree.top.get? there = some (.file content) := by
  have hbinary := h.notBinary
  cases hread : contents ⟨(f.source root).path, some Content.sniffedBytes⟩ with
  | none =>
    rw [hread] at hbinary
    cases hbinary
  | some bytes =>
    exact exists_file_of_read? (hcontents _ _ hread)

/-- No file outside of the root is selected. In a well-formed tree with proper names, whatever links
it has, the files that a search below a root finds are opened below the place where the root is. Of
a link this is so unless on the way to the root or on the way through it there is a link whose path
is too long to be asked for; without such a link the names of a real path are those of the place. -/
theorem discover_contained {tree : Tree} {root : Text} (htree : tree.top.WellFormed)
    (hnames : tree.top.Named) (hroot : Path.isUsable root = true) (lexers : Lexers)
    (excludes includes languages : List Text) (maxFiles : Int) {contents : Contents}
    (hcontents : ∀ a bytes, contents a = some bytes → tree.read? a.path a.limit? = some bytes)
    (r : Record) :
    ∃ files r', ((ofTexts lexers excludes includes languages maxFiles).discover tree root).Gives
        (fun _ => contents) r files r' ∧
      ∀ f ∈ files, ∃ here there, tree.follow root = .ok here ∧ tree.follow f.path = .ok there ∧
        ((∀ target, tree.top.get? (here ++ Path.components f.relative) = some (.link target) →
            tree.IsSpelledOut root ∧ tree.IsSpelledOut f.path) →
          ∃ rest, rest ≠ [] ∧ there = here ++ rest) ∧
        (tree.IsSpelledOut root → namesOf (tree.realPath root) = here) ∧
        (tree.IsSpelledOut f.path → namesOf (tree.realPath f.path) = there) := by
  obtain ⟨r', hgives, -, -⟩ :=
    (discover_yields tree hroot lexers excludes includes languages contents maxFiles).gives r
  refine ⟨_, r', hgives, ?_⟩
  intro f hf
  obtain ⟨g, hg, rfl⟩ := List.mem_map.1 hf
  obtain ⟨hlisted, hpasses⟩ := List.mem_filter.1 (List.mem_of_mem_take hg)
  obtain ⟨hkept, -, hbelow⟩ := (mem_listed_visits htree).1 hlisted
  have hcomponents : Path.components (g.source root).relative = g.components :=
    components_of_hasFileBelow htree hbelow
  obtain ⟨here, node, hfollow, hnode, hfile⟩ := hbelow
  have hqualifies := (qualifies_iff_passes maxFiles).2 ⟨hkept, hpasses⟩
  obtain ⟨there, content, hopen, hcontent⟩ := exists_follow_of_qualifies hcontents hqualifies
  rw [hcomponents]
  refine ⟨here, there, hfollow, hopen, ?_, fun hspelled => ?_, fun hspelled => ?_⟩
  · exact exists_rest_of_follow htree hnames hfollow hnode hfile hqualifies.inside hopen hcontent
  · rw [realPath_of_follow hfollow hspelled, namesOf_absolute (hnames.get hnode)]
  · rw [realPath_of_follow hopen hspelled, namesOf_absolute (hnames.get hcontent)]

section Harbor

/-- A directory with a link out of it, a file and a link to this file, and next to it a link to the
directory. -/
def harbor : Tree where
  top := .directory [(['o'], .file Duplication.sixLines),
    (['r'],
      .directory [("a.c".toList, .link "../o".toList), ("b.c".toList, .file Duplication.sixLines),
      ("c.c".toList, .link "b.c".toList)]),
    (['s'], .link ['r'])]
  working := []

theorem wellFormed_harbor : harbor.top.WellFormed := by
  refine .directory (by decide) (by decide) ?_
  simp only [List.forall_mem_cons, List.not_mem_nil, false_implies, implies_true, and_true]
  refine ⟨.file _, .directory (by decide) (by decide) ?_, .link _⟩
  simp [Node.WellFormed.file, Node.WellFormed.link]

theorem named_harbor : harbor.top.Named := by
  have hname (n : Text) (h : isSpecial n = false ∧ '/' ∉ n) : IsName n := ⟨h.1, h.2⟩
  refine .directory (fun e he => hname _ ?_) ?_
  · revert e
    decide
  · simp only [List.forall_mem_cons, List.not_mem_nil, false_implies, implies_true, and_true]
    refine ⟨.file _, .directory (fun e he => hname _ ?_) ?_, .link _⟩
    · revert e
      decide
    · simp [Node.Named.file, Node.Named.link]

theorem follow_harbor :
    harbor.follow "/s".toList = .ok [['r']] ∧ harbor.follow "/s/a.c".toList = .ok [['o']] ∧
    harbor.follow "/s/b.c".toList = .ok [['r'], "b.c".toList] ∧
    harbor.follow "/s/c.c".toList = .ok [['r'], "b.c".toList] := by
  have hcomponents : Path.components "/s".toList = [[], ['s']] ∧
      Path.components "/s/a.c".toList = [[], ['s'], "a.c".toList] ∧
      Path.components "/s/b.c".toList = [[], ['s'], "b.c".toList] ∧
      Path.components "/s/c.c".toList = [[], ['s'], "c.c".toList] ∧
      Path.components ['r'] = [['r']] ∧ Path.components "b.c".toList = ["b.c".toList] ∧
      Path.components "../o".toList = [['.', '.'], ['o']] := by decide
  have hshort : ["/s", "/s/a.c", "/s/b.c", "/s/c.c"].all
      (fun path => !Tree.isTooLong Tree.maxPathBytes path.toList) = true := by decide
  simp at hcomponents hshort
  simp [follow, hcomponents, hshort, followNames, harbor, startOf, Node.get?, Node.child?,
    Node.isDirectory, List.lookup_cons, maxLinks, Path.isAbsolute]

/-- The link to the directory has a short path, and so have both links in it. -/
theorem isSpelledOut_harbor :
    harbor.IsSpelledOut "/s".toList ∧ harbor.IsSpelledOut "/s/a.c".toList ∧
    harbor.IsSpelledOut "/s/c.c".toList := by
  have hcomponents : Path.components "/s".toList = [[], ['s']] ∧
      Path.components "/s/a.c".toList = [[], ['s'], "a.c".toList] ∧
      Path.components "/s/c.c".toList = [[], ['s'], "c.c".toList] ∧
      Path.components ['r'] = [['r']] ∧ Path.components "b.c".toList = ["b.c".toList] ∧
      Path.components "../o".toList = [['.', '.'], ['o']] := by decide
  obtain ⟨hs, ha, hc, hr, hb, ho⟩ := hcomponents
  have htop : turn harbor.top [] [] = .goes [] := rfl
  have hlink : turn harbor.top [] ['s'] = .follows ['r'] := rfl
  have hdirectory : turn harbor.top [] ['r'] = .goes [['r']] := rfl
  have htarget : Spells harbor ⟨true, []⟩ (Path.components ['r']) ⟨true, [['r']]⟩ 0 := by
    rw [hr]
    exact .go hdirectory (.done _)
  have hroot {rest : List Text} {there : Spelling} {links : Nat}
      (h : Spells harbor ⟨true, [['r']]⟩ rest there links) :
      Spells harbor ⟨true, []⟩ ([] :: ['s'] :: rest) there (0 + links + 1) :=
    .go htop (.follow hlink (by decide) htarget h)
  refine ⟨⟨⟨true, [['r']]⟩, 1, ?_⟩, ⟨⟨true, [['o']]⟩, 2, ?_⟩,
    ⟨⟨true, ["b.c".toList, ['r']]⟩, 2, ?_⟩⟩
  · rw [hs]
    exact hroot (.done _)
  · have hlinkA : turn harbor.top [['r']] "a.c".toList = .follows "../o".toList := rfl
    have hup : turn harbor.top [['r']] ['.', '.'] = .goes [] := rfl
    have hfile : turn harbor.top [] ['o'] = .goes [['o']] := rfl
    have hout :
        Spells harbor ⟨true, [['r']]⟩ (Path.components "../o".toList) ⟨true, [['o']]⟩ 0 := by
      rw [ho]
      exact .go hup (.go hfile (.done _))
    rw [ha]
    exact hroot (.follow hlinkA (by decide) hout (.done _))
  · have hlinkC : turn harbor.top [['r']] "c.c".toList = .follows "b.c".toList := rfl
    have hfile : turn harbor.top [['r']] "b.c".toList = .goes [['r'], "b.c".toList] := rfl
    have hbeside : Spells harbor ⟨true, [['r']]⟩ (Path.components "b.c".toList)
        ⟨true, ["b.c".toList, ['r']]⟩ 0 := by
      rw [hb]
      exact .go hfile (.done _)
    rw [hc]
    exact hroot (.follow hlinkC (by decide) hbeside (.done _))

theorem walk_harbor (keep : List Text → Bool) : harbor.walk keep "/s".toList =
    [⟨[], [], [⟨"a.c".toList, some "/o".toList⟩, ⟨"b.c".toList, none⟩,
      ⟨"c.c".toList, some "/r/b.c".toList⟩]⟩] := by
  obtain ⟨hroot, ha, -, hc⟩ := follow_harbor
  obtain ⟨-, hspelledA, hspelledC⟩ := isSpelledOut_harbor
  have hgetRoot : harbor.top.get? [['r']] = some (.directory [("a.c".toList, .link "../o".toList),
    ("b.c".toList, .file Duplication.sixLines), ("c.c".toList, .link "b.c".toList)]) := rfl
  have hentry {name target real : Text} {there : List Text} {content : Bytes}
      (hfollow : harbor.follow (pathBelow "/s".toList [name]) = .ok there)
      (hspelled : harbor.IsSpelledOut (pathBelow "/s".toList [name]))
      (hget : harbor.top.get? there = some (.file content)) (hreal : absolute there = real) :
      harbor.entry? "/s".toList [] (name, .link target) = some ⟨name, some real⟩ := by
    have hfind : harbor.find? (pathBelow "/s".toList ([] ++ [name])) = some (.file content) := by
      rw [List.nil_append, find?, hfollow]
      exact hget
    unfold entry?
    dsimp only
    rw [hfind, List.nil_append, isTooLong_of_follow hfollow, realPath_of_follow hfollow hspelled,
      hreal]
    rfl
  have hordered {α : Type} (x y z : α) :
      ordered [("a.c".toList, x), ("b.c".toList, y), ("c.c".toList, z)] =
      [("a.c".toList, x), ("b.c".toList, y), ("c.c".toList, z)] := by
    apply List.mergeSort_of_pairwise
    simp only [List.pairwise_cons, List.forall_mem_cons, List.not_mem_nil, false_implies,
      implies_true, and_true, List.Pairwise.nil]
    decide
  have hbelow : visitsOfEntries harbor keep "/s".toList [] [("a.c".toList, .link "../o".toList),
      ("b.c".toList, .file Duplication.sixLines), ("c.c".toList, .link "b.c".toList)] =
      [("a.c".toList, []), ("b.c".toList, []), ("c.c".toList, [])] := by
    simp [visitsOfEntries, visitsOfEntry, visitsOf]
  have hentryA : harbor.entry? "/s".toList [] ("a.c".toList, .link "../o".toList) =
      some ⟨"a.c".toList, some "/o".toList⟩ := hentry ha hspelledA rfl rfl
  have hentryB : harbor.entry? "/s".toList [] ("b.c".toList, .file Duplication.sixLines) =
      some ⟨"b.c".toList, none⟩ := rfl
  have hentryC : harbor.entry? "/s".toList [] ("c.c".toList, .link "b.c".toList) =
      some ⟨"c.c".toList, some "/r/b.c".toList⟩ := hentry hc hspelledC rfl rfl
  rw [walk, hroot]
  dsimp only
  rw [hgetRoot]
  dsimp only
  rw [visitsOf, hbelow, hordered, hordered, directoriesOf]
  simp only [List.filter_cons, List.filter_nil, List.filterMap_cons, List.filterMap_nil, hentryA,
    hentryC, hentryB]
  rfl

open Duplication in
/-- The link out of the directory is left out, and the one to the file is selected as the file
is. -/
theorem discover_contained_harbor :
    harbor.top.WellFormed ∧ harbor.top.Named ∧ Path.isUsable "/s".toList = true ∧
      (∀ a bytes, contentsOf harbor a = some bytes → harbor.read? a.path a.limit? = some bytes) ∧
      harbor.IsSpelledOut "/s".toList ∧ harbor.IsSpelledOut "/s/c.c".toList ∧
      ∃ r', ((ofTexts cLexers [] [] [] 10).discover harbor "/s".toList).Gives
        (fun _ => contentsOf harbor) {}
          [⟨"b.c".toList, "/s/b.c".toList⟩, ⟨"c.c".toList, "/s/c.c".toList⟩] r' ∧
        ∃ rest, rest ≠ [] ∧ harbor.follow "/s/c.c".toList = .ok ([['r']] ++ rest) ∧
          namesOf (harbor.realPath "/s/c.c".toList) = [['r']] ++ rest := by
  have hroot : Path.isUsable "/s".toList = true := by decide
  have hcontents (a : Access) (bytes : Bytes) (h : contentsOf harbor a = some bytes) :
      harbor.read? a.path a.limit? = some bytes := h
  obtain ⟨hspelled, -, hspelledC⟩ := isSpelledOut_harbor
  obtain ⟨files, r', hgives, hcontained⟩ :=
    discover_contained wellFormed_harbor named_harbor hroot cLexers [] [] [] 10 hcontents {}
  obtain ⟨hnameA, hnameB, hnameC⟩ :
      passesByName cLexers [] [] [] "/s".toList (absolute [['r']])
        ⟨[], ⟨"a.c".toList, some "/o".toList⟩⟩ = false ∧
      passesByName cLexers [] [] [] "/s".toList (absolute [['r']]) ⟨[], ⟨"b.c".toList, none⟩⟩ =
      true ∧
      passesByName cLexers [] [] [] "/s".toList (absolute [['r']])
        ⟨[], ⟨"c.c".toList, some "/r/b.c".toList⟩⟩ = true := by
    decide +kernel
  have hcontent {file : SourceFile} (hfollow : harbor.follow file.path = .ok [['r'], "b.c".toList])
      (hname : Content.hasGeneratedName file.path = false) :
        passesByContent (contentsOf harbor) file = true := by
    have hread (limit : Nat) : contentsOf harbor ⟨file.path, some limit⟩ =
        some (sixLines.take limit) := by
      rw [contentsOf, Tree.read?, content]
      simp only [hfollow]
      rfl
    rw [passesByContent, hname, hread, hread]
    decide +kernel
  have hcontentB : passesByContent (contentsOf harbor)
      (Listed.source "/s".toList ⟨[], ⟨"b.c".toList, none⟩⟩) = true :=
    hcontent follow_harbor.2.2.1 (by decide)
  have hcontentC : passesByContent (contentsOf harbor)
      (Listed.source "/s".toList ⟨[], ⟨"c.c".toList, some "/r/b.c".toList⟩⟩) = true :=
    hcontent follow_harbor.2.2.2 (by decide)
  have hfiles : files = [⟨"b.c".toList, "/s/b.c".toList⟩, ⟨"c.c".toList, "/s/c.c".toList⟩] := by
    have hyields := discover_yields harbor hroot cLexers [] [] [] (contentsOf harbor) 10
    rw [visits, walk_harbor, realPath_of_follow follow_harbor.1 hspelled] at hyields
    obtain ⟨_, hall, -, -⟩ := hyields.gives {}
    rw [hgives.unique hall]
    simp only [listed, List.flatMap_cons, List.flatMap_nil, List.map_cons, List.map_nil,
      List.append_nil, List.filter_cons, List.filter_nil, passes, hnameA, hnameB, hnameC, hcontentB,
      hcontentC, Bool.false_and, Bool.and_self, Bool.false_eq_true, if_false, if_true]
    rfl
  subst hfiles
  obtain ⟨here, there, hfollow, hopen, hbelow, -, hreal⟩ :=
    hcontained ⟨"c.c".toList, "/s/c.c".toList⟩ (by simp)
  obtain ⟨rest, hne, rfl⟩ := hbelow fun _ _ => ⟨hspelled, hspelledC⟩
  rw [follow_harbor.1] at hfollow
  cases hfollow
  exact ⟨wellFormed_harbor, named_harbor, hroot, hcontents, hspelled, hspelledC, r', hgives, rest,
    hne, hopen,
    hreal hspelledC⟩

end Harbor

end Selection

end CloneDetection

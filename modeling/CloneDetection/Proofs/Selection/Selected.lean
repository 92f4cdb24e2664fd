import CloneDetection.Proofs.Collector.CopiedPair
import CloneDetection.Proofs.Selection.Opening

/-!
# The selected files

A search takes the visits step by step and ends at the first file for which there is no room. What
it selects are the first of the files below the root that qualify; a message tells whether there
were more.
-/
namespace CloneDetection

namespace Selection

def Step.file? : Step → Option Listed
  | .enter _ _ => none
  | .file names e => some ⟨names, e⟩

theorem filterMap_file?_steps (visits : List Visit) :
    (steps visits).filterMap Step.file? = Tree.listed visits := by
  rw [steps, Tree.listed, List.filterMap_flatMap]
  congr 1
  funext v
  rw [List.filterMap_cons_none rfl, List.filterMap_map]
  exact congrFun List.filterMap_eq_map _

/-- Which of these files the steps look at. -/
def wanted (selects : Listed → Bool) (steps : List Step) : List Listed :=
  (steps.filterMap Step.file?).filter selects

/-- The steps that are taken if so many of these files can be selected. -/
def taken (selects : Listed → Bool) : Nat → List Step → List Step
  | _, [] => []
  | room, .enter names directories :: rest => .enter names directories :: taken selects room rest
  | room, .file names e :: rest =>
    .file names e ::
      if selects ⟨names, e⟩ then
        match room with
        | 0 => []
        | room + 1 => taken selects room rest
      else taken selects room rest

section Steps

variable {selects : Listed → Bool} {names : List Text} {e : Entry} {rest : List Step}

theorem wanted_file_of_pos (h : selects ⟨names, e⟩ = true) :
    wanted selects (.file names e :: rest) = ⟨names, e⟩ :: wanted selects rest :=
  List.filter_cons_of_pos h

theorem wanted_file_of_neg (h : selects ⟨names, e⟩ = false) :
    wanted selects (.file names e :: rest) = wanted selects rest :=
  List.filter_cons_of_neg (by simp [h])

theorem taken_file_of_neg (h : selects ⟨names, e⟩ = false) (room : Nat) :
    taken selects room (.file names e :: rest) = .file names e :: taken selects room rest := by
  cases room <;> simp [taken, h]

theorem taken_file_zero (h : selects ⟨names, e⟩ = true) :
    taken selects 0 (.file names e :: rest) = [.file names e] := by
  simp [taken, h]

theorem taken_file_succ (h : selects ⟨names, e⟩ = true) (room : Nat) :
    taken selects (room + 1) (.file names e :: rest) =
      .file names e :: taken selects room rest := by
  simp [taken, h]

theorem taken_eq_self {room : Nat} {todo : List Step}
    (h : (todo.filterMap Step.file?).length ≤ room) :
    taken selects room todo = todo := by
  induction todo generalizing room with
  | nil => cases room <;> rfl
  | cons step rest ih =>
    cases step with
    | enter names directories =>
      have hrest : taken selects room rest = rest := ih h
      simp [taken, hrest]
    | file names e =>
      have hroom : (rest.filterMap Step.file?).length + 1 ≤ room := h
      obtain ⟨room, rfl⟩ := Nat.exists_eq_add_of_le' (Nat.le_trans (Nat.le_add_left 1 _) hroom)
      cases hselects : selects ⟨names, e⟩ with
      | false => rw [taken_file_of_neg hselects, ih (by omega)]
      | true => rw [taken_file_succ hselects, ih (by omega)]

end Steps

def capMessages (maxFiles : Int) (room : Nat) (files : List Listed) : List Text :=
  if room < files.length then [(Event.fileCap maxFiles).message []] else []

section Search

variable (lexers : Lexers) (excludes includes languages : List Text) (contents : Contents)
    (root realRoot : Text) (maxFiles : Int)

theorem enter_yields (names directories : List Text) :
    ((ofTexts lexers excludes includes languages maxFiles).enter names directories).Yields contents
      () [] 1 := by
  let s := ofTexts lexers excludes includes languages maxFiles
  apply Scan.yields_checkpoint.bind_check
  induction directories with
  | nil => exact Scan.yields_pure ()
  | cons name rest ih =>
    have hname :
        (discard (Scan.ofExcept (s.excluded (Path.ofComponents (names ++ [name]))))).Yields contents
          () [] 0 := by
      rw [excluded_ofTexts]
      exact Scan.yields_pure ()
    exact hname.bind_silent ih

/-- What a search selects from the steps that are left, what it says, and how many checks it
makes. -/
theorem search_yields (todo : List Step) (room : Nat) (found : List SourceFile) :
    ((ofTexts lexers excludes includes languages maxFiles).search root realRoot todo room
      found).Yields contents
      (found.reverse ++
        ((wanted (passes lexers excludes includes languages contents root realRoot) todo).take
          room).map (Listed.source root))
      (capMessages maxFiles room
        (wanted (passes lexers excludes includes languages contents root realRoot) todo))
      (taken (passes lexers excludes includes languages contents root realRoot) room
        todo).length := by
  generalize hselects : passes lexers excludes includes languages contents root realRoot =
    selects at *
  induction todo generalizing room found with
  | nil => simpa [search, taken, wanted, capMessages] using Scan.yields_pure found.reverse
  | cons step rest ih =>
    cases step with
    | enter names directories =>
      exact (enter_yields lexers excludes includes languages contents maxFiles names
        directories).bind_check (ih room found)
    | file names e =>
      have hfile :=
        examine_yields lexers excludes includes languages contents root realRoot maxFiles ⟨names, e⟩
      rw [hselects] at hfile
      cases hpasses : selects ⟨names, e⟩ with
      | false =>
        rw [hpasses] at hfile
        rw [wanted_file_of_neg hpasses, taken_file_of_neg hpasses]
        exact hfile.bind_check (ih room found)
      | true =>
        rw [hpasses] at hfile
        rw [wanted_file_of_pos hpasses]
        cases room with
        | zero =>
          rw [taken_file_zero hpasses, capMessages, List.length_cons, if_pos (Nat.succ_pos _),
            List.take_zero, List.map_nil, List.append_nil]
          exact hfile.bind_check ⟨rfl, rfl, rfl⟩
        | succ room =>
          rw [taken_file_succ hpasses]
          apply hfile.bind_check
          simpa [capMessages] using ih room (Listed.source root ⟨names, e⟩ :: found)

end Search

section Discover

/-- The steps of a search below a root as far as there is room. -/
def stepsBelow (tree : Tree) (root : Text) (lexers : Lexers)
    (excludes includes languages : List Text) (contents : Contents) (maxFiles : Int) : List Step :=
  taken (passes lexers excludes includes languages contents root (tree.realPath root))
    maxFiles.toNat
    (steps (tree.visits (ofTexts lexers excludes includes languages maxFiles).keeps root))

variable {tree : Tree} {root : Text}

theorem discover_yields (tree : Tree) (hroot : Path.isUsable root = true) (lexers : Lexers)
    (excludes includes languages : List Text) (contents : Contents) (maxFiles : Int) :
    ((ofTexts lexers excludes includes languages maxFiles).discover tree root).Yields contents
      ((((Tree.listed
        (tree.visits (ofTexts lexers excludes includes languages maxFiles).keeps root)).filter
        (passes lexers excludes includes languages contents root (tree.realPath root))).take
          maxFiles.toNat).map
          (Listed.source root))
      (capMessages maxFiles maxFiles.toNat
        ((Tree.listed
          (tree.visits (ofTexts lexers excludes includes languages maxFiles).keeps root)).filter
          (passes lexers excludes includes languages contents root (tree.realPath root))))
      (stepsBelow tree root lexers excludes includes languages contents maxFiles).length := by
  have hsearch :=
    search_yields lexers excludes includes languages contents root (tree.realPath root) maxFiles
    (steps (tree.visits (ofTexts lexers excludes includes languages maxFiles).keeps root))
      maxFiles.toNat []
  rw [wanted, filterMap_file?_steps] at hsearch
  unfold discover
  have hexcludes : Scan.Yields contents
      (.ofExcept (ofTexts lexers excludes includes languages maxFiles).excludes)
      (.ofTexts excludes) [] 0 := Scan.yields_ofExcept rfl
  apply hexcludes.bind_silent
  rw [if_pos hroot]
  exact hsearch

/-- The files that qualify are those that pass in the directories that are visited. -/
theorem filter_listed_visits (htree : tree.top.WellFormed) (lexers : Lexers)
    (excludes includes languages : List Text) (contents : Contents) (maxFiles : Int) :
    (Tree.listed
      (tree.visits (ofTexts lexers excludes includes languages maxFiles).keeps root)).filter
        (passes lexers excludes includes languages contents root (tree.realPath root)) =
      (Tree.listed (tree.visits (fun _ => true) root)).filter
        (Qualifies lexers excludes includes languages contents root (tree.realPath root)) := by
  apply Listed.eq_of_mem_iff
  · exact (Tree.pairwise_listed_visits htree).filter _
  · exact (Tree.pairwise_listed_visits htree).filter _
  · intro f
    have hall : Tree.KeptAlong (fun _ => true) [] f.names := fun _ _ _ => rfl
    simp only [List.mem_filter, Tree.mem_listed_visits htree, decide_eq_true_eq,
      qualifies_iff_passes maxFiles, hall, true_and]
    tauto

/-- What cannot be asked for is binary, so all files that qualify stand in directories that can be
looked into. -/
theorem filter_listed_walk (htree : tree.top.WellFormed) {contents : Contents}
    (hlong : ∀ a, Tree.isTooLong Tree.maxPathBytes a.path = true → contents a = none)
    (lexers : Lexers) (excludes includes languages : List Text) (realRoot : Text) :
    (Tree.listed (tree.visits (fun _ => true) root)).filter
        (Qualifies lexers excludes includes languages contents root realRoot) =
      (Tree.listed (tree.walk (fun _ => true) root)).filter
        (Qualifies lexers excludes includes languages contents root realRoot) := by
  apply Listed.eq_of_mem_iff
  · exact (Tree.pairwise_listed_visits htree).filter _
  · exact (Tree.pairwise_listed_walk htree).filter _
  · intro f
    have hreachable (h : Qualifies lexers excludes includes languages contents root realRoot f) :
        Tree.KeptAlong (Tree.isReachable root) [] f.names := by
      apply Tree.keptAlong_isReachable
      rw [← Bool.not_eq_true]
      intro hpath
      have hbinary := h.notBinary
      rw [hlong _ hpath] at hbinary
      cases hbinary
    simp only [List.mem_filter, Tree.mem_listed_visits htree, Tree.mem_listed_walk htree,
      decide_eq_true_eq]
    tauto

/-- As long as nothing changes the files, a search that nobody cancels selects the first files below
the root that qualify. These are in the order of a walk, each with its components for a path. There
is one message if more files qualify, and none otherwise. A file whose path is too long to be asked
for cannot be read. A file that can be opened is inside of the root if it is opened below the place
of the root, unless on the way to the root or to the file there is a link whose path is too long to
be asked for. -/
theorem discover_selects (htree : tree.top.WellFormed) (hroot : Path.isUsable root = true)
    (lexers : Lexers) (excludes includes languages : List Text) (maxFiles : Nat)
    {contents : Contents}
    (hlong : ∀ a, Tree.isTooLong Tree.maxPathBytes a.path = true → contents a = none) (r : Record) :
    ∃ all : List Listed, all.Pairwise Listed.Before ∧ (∀ f, f ∈ all ↔ tree.HasFileBelow root f) ∧
      (tree.top.Named → ∀ f ∈ all, ∀ here there content, tree.follow root = .ok here →
        tree.follow (f.source root).path = .ok there →
        tree.top.get? there = some (.file content) →
        tree.IsSpelledOut root → tree.IsSpelledOut (f.source root).path →
        ((∀ real ∈ f.entry.real?, Path.within real (tree.realPath root) = true) ↔
          here <+: there)) ∧
      ∃ r', ((ofTexts lexers excludes includes languages maxFiles).discover tree root).Gives
          (fun _ => contents) r
          (((all.filter (Qualifies lexers excludes includes languages contents root
            (tree.realPath root))).take maxFiles).map (Listed.source root)) r' ∧
        Event.messages r'.events = Event.messages r.events ++
          if maxFiles < (all.filter (Qualifies lexers excludes includes languages contents root
            (tree.realPath root))).length
          then [(Event.fileCap maxFiles).message []] else [] := by
  have hall (f : Listed) :
      f ∈ Tree.listed (tree.walk (fun _ => true) root) ↔ tree.HasFileBelow root f := by
    rw [Tree.mem_listed_walk htree]
    exact and_iff_right fun _ _ _ => rfl
  refine ⟨Tree.listed (tree.walk (fun _ => true) root), Tree.pairwise_listed_walk htree, hall, ?_,
    ?_⟩
  · intro hnames f hf here there content hfollow hopen hcontent hrootSpelled hspelled
    exact inside_iff htree hnames hfollow ((hall f).1 hf) hopen hcontent hrootSpelled hspelled
  · have hyields := discover_yields tree hroot lexers excludes includes languages contents maxFiles
    rw [filter_listed_visits htree, filter_listed_walk htree hlong] at hyields
    obtain ⟨r', hgives, hmessages, -⟩ := hyields.gives r
    exact ⟨r', hgives, hmessages⟩

section Twins

open Duplication

theorem qualifies_twins (realRoot : Text) {name : Text}
    (hname : name = "a.c".toList ∨ name = "b.c".toList)
    (hexcluded : ∀ names ∈ [name].inits, names ≠ [] →
      Pattern.anyExcludes (Pattern.withDefaults []) (Path.ofComponents names) = false)
    (hsource : Language.isSourceExtension (Path.extension name) = true)
    (hadmitted : Language.admits cLexers ["c".toList] name = true)
    (hgenerated : Content.hasGeneratedName ('/' :: name) = false) :
    Qualifies cLexers [] [] ["c".toList] (contentsOf twins) ['/'] realRoot
      ⟨[], ⟨name, none⟩⟩ := by
  have hplain : Content.looksBinary (some (sixLines.take Content.sniffedBytes)) = false ∧
      Content.looksGenerated (some (sixLines.take Content.headerBytes)) = false := by decide +kernel
  have hcontent (limit : Nat) :
      contentsOf twins ⟨'/' :: name, some limit⟩ = some (sixLines.take limit) := by
    rcases hname with rfl | rfl
    · exact (contentsOf_pair sixLines sixLines (some limit)).1
    · exact (contentsOf_pair sixLines sixLines (some limit)).2
  have hpath : (Listed.source ['/'] ⟨[], ⟨name, none⟩⟩).path = '/' :: name :=
    congrArg _ (Path.ofComponents_singleton name)
  refine ⟨hexcluded, nofun, .inl rfl, hsource, hadmitted, ?_, ?_, ?_⟩
  · rw [hpath, hcontent]
    exact hplain.1
  · rw [hpath]
    exact hgenerated
  · rw [hpath, hcontent]
    exact hplain.2

/-- With room for one C file the second one of two is only announced. -/
theorem discover_selects_twins :
    twins.top.WellFormed ∧ Path.isUsable ['/'] = true ∧
      (∀ a, Tree.isTooLong Tree.maxPathBytes a.path = true → contentsOf twins a = none) ∧
      ∃ r', ((ofTexts cLexers [] [] ["c".toList] 1).discover twins ['/']).Gives
        (fun _ => contentsOf twins) {}
          [⟨"a.c".toList, "/a.c".toList⟩] r' ∧
        Event.messages r'.events = [(Event.fileCap 1).message []] := by
  have hroot : Path.isUsable ['/'] = true := by decide
  have hlong (a : Access) (h : Tree.isTooLong Tree.maxPathBytes a.path = true) :
      contentsOf twins a = none :=
    contentsOf_of_tooLong h
  obtain ⟨all, hordered, hall, -, r', hgives, hmessages⟩ :=
    discover_selects wellFormed_twins hroot cLexers [] [] ["c".toList] 1 hlong {}
  have hfiles : all = [⟨[], ⟨"a.c".toList, none⟩⟩, ⟨[], ⟨"b.c".toList, none⟩⟩] := by
    have hlisted : Tree.listed (twins.walk (fun _ => true) ['/']) =
        [⟨[], ⟨"a.c".toList, none⟩⟩, ⟨[], ⟨"b.c".toList, none⟩⟩] := by
      rw [walk_twins]
      rfl
    rw [← hlisted]
    apply Listed.eq_of_mem_iff hordered (Tree.pairwise_listed_walk wellFormed_twins)
    intro f
    rw [hall, Tree.mem_listed_walk wellFormed_twins]
    exact (and_iff_right fun _ _ _ => rfl).symm
  have hqualify (realRoot : Text) :
      all.filter (Qualifies cLexers [] [] ["c".toList] (contentsOf twins) ['/'] realRoot) =
      all := by
    rw [hfiles, List.filter_eq_self]
    intro f hf
    rw [decide_eq_true_eq]
    rw [List.mem_pair] at hf
    rcases hf with rfl | rfl
    · exact qualifies_twins realRoot (.inl rfl) (by decide +kernel) (by decide) (by decide)
        (by decide)
    · exact qualifies_twins realRoot (.inr rfl) (by decide +kernel) (by decide) (by decide)
        (by decide)
  rw [hqualify, hfiles] at hgives hmessages
  exact ⟨wellFormed_twins, hroot, hlong, r', hgives, hmessages⟩

end Twins

end Discover

end Selection

end CloneDetection

import CloneDetection.Proofs.Scan.Uncancelled
import CloneDetection.Proofs.Tree.Distinct
import CloneDetection.Selection.Discovery

/-!
# What a search for files finds

A selection by plain texts is never at fault, so a search that nobody cancels runs to its end below
every usable root. The files that it finds are among the visited ones, in their order and each at
most once.
-/
namespace CloneDetection

namespace Selection

def Step.relative? : Step → Option Text
  | .enter _ _ => none
  | .file names e => some (Path.ofComponents (names ++ [e.name]))

theorem filterMap_relative?_steps (visits : List Visit) :
    (steps visits).filterMap Step.relative? = (Tree.fileNames visits).map Path.ofComponents := by
  rw [steps, Tree.fileNames, List.filterMap_flatMap, List.map_flatMap]
  congr 1
  funext v
  rw [List.filterMap_cons_none rfl, List.filterMap_map, Visit.fileNames, List.map_map,
    ← List.filterMap_eq_map]
  rfl

section Texts

variable (lexers : Lexers) (excludes includes languages : List Text) (maxFiles : Int)

theorem judgeName_ofTexts (realRoot relative : Text) (e : Entry) :
    ∃ verdict, (ofTexts lexers excludes includes languages maxFiles).judgeName realRoot relative e =
      .ok verdict := by
  simp only [judgeName, excluded_ofTexts, included_ofTexts, admitted_ofTexts, bind, Except.bind,
    pure, Except.pure]
  by_cases hexcluded : Pattern.anyExcludes (Pattern.withDefaults excludes) relative = true
  · exact ⟨none, by rw [if_pos hexcluded]⟩
  · rw [if_neg hexcluded]
    by_cases houtside : (e.real?.any fun real => !Path.within real realRoot) = true
    · exact ⟨some (some (.linkOutside relative)), by rw [if_pos houtside]⟩
    · rw [if_neg houtside]
      split
      · exact ⟨_, rfl⟩
      · split
        · exact ⟨_, rfl⟩
        · split
          · exact ⟨_, rfl⟩
          · exact ⟨_, rfl⟩

theorem judgeContent_gives (reader : FileReader) (file : SourceFile) (r : Record) :
    ∃ verdict r', (judgeContent file).Gives reader r verdict r' := by
  let sniffed := reader r.accesses ⟨file.path, some Content.sniffedBytes⟩
  let r₁ : Record := { r with accesses := ⟨file.path, some Content.sniffedBytes⟩ :: r.accesses }
  have hsniffed : (Scan.readHead file.path Content.sniffedBytes).Gives reader r sniffed r₁ :=
    Scan.gives_readHead ..
  by_cases hbinary : Content.looksBinary sniffed = true
  · refine ⟨some (.binary file.relative), r₁, hsniffed.bind ?_⟩
    rw [if_pos hbinary]
    exact Scan.gives_pure _
  · by_cases hname : Content.hasGeneratedName file.path = true
    · refine ⟨some (.generated file.relative), r₁, hsniffed.bind ?_⟩
      rw [if_neg hbinary, if_pos hname]
      exact Scan.gives_pure _
    · let header := reader r₁.accesses ⟨file.path, some Content.headerBytes⟩
      refine ⟨if Content.looksGenerated header then some (.generated file.relative) else none,
        { r₁ with accesses := ⟨file.path, some Content.headerBytes⟩ :: r₁.accesses },
        hsniffed.bind ?_⟩
      rw [if_neg hbinary, if_neg hname]
      exact (Scan.gives_readHead ..).bind (Scan.gives_pure _)

theorem examine_gives (root realRoot : Text) (names : List Text) (e : Entry) (reader : FileReader)
    (r : Record) :
    ∃ file? r',
      ((ofTexts lexers excludes includes languages maxFiles).examine root realRoot names e).Gives
        reader r file? r' ∧
      ∀ file ∈ file?, file.relative = Path.ofComponents (names ++ [e.name]) := by
  let r₁ : Record := { r with checks := r.checks + 1 }
  have hcheck : Scan.checkpoint.Gives reader r () r₁ := Scan.gives_checkpoint
  let relative := Path.ofComponents (names ++ [e.name])
  obtain ⟨verdict, hverdict⟩ :=
    judgeName_ofTexts lexers excludes includes languages maxFiles realRoot relative e
  have hnamed :
      (Scan.ofExcept
        ((ofTexts lexers excludes includes languages maxFiles).judgeName realRoot relative e)).Gives
      reader r₁ verdict r₁ := Scan.gives_ofExcept hverdict
  match verdict with
  | none => exact ⟨none, _, hcheck.bind (hnamed.bind (Scan.gives_pure _)), by simp⟩
  | some (some event) =>
    exact ⟨none, _,
      hcheck.bind (hnamed.bind ((Scan.gives_emit event).bind (Scan.gives_pure _))), by simp⟩
  | some none =>
    let file : SourceFile := ⟨relative, Path.append root relative⟩
    obtain ⟨event?, r', hcontent⟩ := judgeContent_gives reader file r₁
    cases event? with
    | none =>
      exact ⟨some file, _,
        hcheck.bind (hnamed.bind (hcontent.bind (Scan.gives_pure _))), by simp [file, relative]⟩
    | some event =>
      exact ⟨none, _,
        hcheck.bind
          (hnamed.bind (hcontent.bind ((Scan.gives_emit event).bind (Scan.gives_pure _)))), by simp⟩

/-- Putting directories to the exclusion leaves no trace. -/
theorem enter_gives (names directories : List Text) (reader : FileReader) (r : Record) :
    ((ofTexts lexers excludes includes languages maxFiles).enter names directories).Gives
      reader r () { r with checks := r.checks + 1 } := by
  let s := ofTexts lexers excludes includes languages maxFiles
  have hall (r : Record) : (directories.forM fun name =>
      discard (Scan.ofExcept (s.excluded (Path.ofComponents (names ++ [name]))))).Gives
        reader r () r := by
    induction directories with
    | nil => exact Scan.gives_pure ()
    | cons name rest ih =>
      have hname :
          (discard (Scan.ofExcept (s.excluded (Path.ofComponents (names ++ [name]))))).Gives
            reader r () r := by
        rw [excluded_ofTexts]
        exact Scan.gives_pure ()
      exact hname.bind ih
  exact Scan.gives_checkpoint.bind (hall _)

/-- The steps of a search: what is found comes after what was found before, and from the steps that
are left, in their order. -/
theorem search_gives (root realRoot : Text) (todo : List Step) (room : Nat)
    (found : List SourceFile) (reader : FileReader) (r : Record) :
    ∃ files r',
      ((ofTexts lexers excludes includes languages maxFiles).search root realRoot todo room
        found).Gives reader r
        (found.reverse ++ files) r' ∧
      (files.map SourceFile.relative).Sublist (todo.filterMap Step.relative?) := by
  induction todo generalizing room found r with
  | nil =>
    refine ⟨[], r, ?_, .slnil⟩
    rw [List.append_nil]
    exact Scan.gives_pure _
  | cons step rest ih =>
    cases step with
    | enter names directories =>
      obtain ⟨files, r', hrest, hsub⟩ := ih room found { r with checks := r.checks + 1 }
      refine ⟨files, r', ?_, hsub⟩
      rw [search]
      exact (enter_gives lexers excludes includes languages maxFiles names directories reader
        r).bind hrest
    | file names e =>
      obtain ⟨file?, r₁, hfile, hrelative⟩ :=
        examine_gives lexers excludes includes languages maxFiles root realRoot names e reader r
      have hstep : (Step.file names e :: rest).filterMap Step.relative? =
          Path.ofComponents (names ++ [e.name]) :: rest.filterMap Step.relative? := rfl
      rw [hstep, search]
      cases file? with
      | none =>
        obtain ⟨files, r', hrest, hsub⟩ := ih room found r₁
        exact ⟨files, r', hfile.bind hrest, hsub.cons _⟩
      | some file =>
        cases room with
        | zero =>
          let r₂ : Record := { r₁ with events := .fileCap maxFiles :: r₁.events }
          have hnone : Scan.Gives reader (pure found.reverse) r₂ (found.reverse ++ []) r₂ := by
            rw [List.append_nil]
            exact Scan.gives_pure _
          exact ⟨[], r₂, hfile.bind ((Scan.gives_emit _).bind hnone), List.nil_sublist _⟩
        | succ room =>
          obtain ⟨files, r', hrest, hsub⟩ := ih room (file :: found) r₁
          rw [List.reverse_cons, List.append_assoc] at hrest
          refine ⟨file :: files, r', hfile.bind hrest, ?_⟩
          rw [List.map_cons, hrelative file rfl]
          exact hsub.cons_cons _

/-- Below a usable root files are found, and in a well-formed tree no two of them have the same
path. -/
theorem discover_gives {tree : Tree} {root : Text} (htree : tree.top.WellFormed)
    (hroot : Path.isUsable root = true) (reader : FileReader) (r : Record) :
    ∃ files r', ((ofTexts lexers excludes includes languages maxFiles).discover tree root).Gives
      reader r files r' ∧
      (files.map SourceFile.relative).Nodup := by
  let s := ofTexts lexers excludes includes languages maxFiles
  obtain ⟨files, r', hgives, hsub⟩ :=
    search_gives lexers excludes includes languages maxFiles root (tree.realPath root)
    (steps (tree.visits s.keeps root)) maxFiles.toNat [] reader r
  refine ⟨files, r', ?_, ?_⟩
  · unfold discover
    apply (Scan.gives_ofExcept (a := GivenTexts.ofTexts excludes) rfl).bind
    rw [if_pos hroot]
    exact hgives
  · rw [filterMap_relative?_steps] at hsub
    exact (Tree.nodup_paths_walk htree _ root).sublist hsub

end Texts

end Selection

end CloneDetection

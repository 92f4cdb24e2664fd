import CloneDetection.Proofs.Scan.Checks
import CloneDetection.Proofs.Selection.Found
import CloneDetection.Proofs.Tree.Listing
import Mathlib.Data.List.Infix
import Mathlib.Tactic.MkIffOfInductiveProp

/-!
# What a file must be like to be selected

The conditions on a file are said of its names and of what it holds, those on its directories
included. As long as nothing changes the files, a search that nobody cancels selects the first of
the files below the root that qualify, in the order of a walk, and gives one message if there is no
room for a further one.
-/
namespace CloneDetection

def Listed.source (root : Text) (f : Listed) : SourceFile :=
  ⟨Path.ofComponents f.components, Path.append root (Path.ofComponents f.components)⟩

namespace Selection

section Conditions

variable (lexers : Lexers) (excludes includes languages : List Text) (contents : Contents)
    (root realRoot : Text)

/-- What a file below `root` must be like to be selected. -/
@[mk_iff]
structure Qualifies (f : Listed) : Prop where
  /-- Neither the file nor a directory on the way to it is excluded. -/
  notExcluded : ∀ names ∈ f.components.inits, names ≠ [] →
    Pattern.anyExcludes (Pattern.withDefaults excludes) (Path.ofComponents names) = false
  /-- A link does not lead out of the root. -/
  inside : ∀ real ∈ f.entry.real?, Path.within real realRoot = true
  included : includes = [] ∨ Pattern.anyIncludes includes (f.source root).relative = true
  isSource : Language.isSourceExtension (Path.extension f.entry.name) = true
  admitted : Language.admits lexers languages f.entry.name = true
  notBinary :
    Content.looksBinary (contents ⟨(f.source root).path, some Content.sniffedBytes⟩) = false
  notGenerated : Content.hasGeneratedName (f.source root).path = false ∧
    Content.looksGenerated (contents ⟨(f.source root).path, some Content.headerBytes⟩) = false

instance : DecidablePred (Qualifies lexers excludes includes languages contents root realRoot) :=
  fun f =>
    decidable_of_iff' _ (qualifies_iff lexers excludes includes languages contents root realRoot f)

/-- Whether the names of a file of a visited directory let it pass. -/
def passesByName (f : Listed) : Bool :=
  !Pattern.anyExcludes (Pattern.withDefaults excludes) (f.source root).relative &&
    !(f.entry.real?.any fun real => !Path.within real realRoot) &&
    (includes.isEmpty || Pattern.anyIncludes includes (f.source root).relative) &&
    Language.isSourceExtension (Path.extension f.entry.name) &&
    Language.admits lexers languages f.entry.name

def passesByContent (file : SourceFile) : Bool :=
  !Content.looksBinary (contents ⟨file.path, some Content.sniffedBytes⟩) &&
  !Content.hasGeneratedName file.path &&
    !Content.looksGenerated (contents ⟨file.path, some Content.headerBytes⟩)

def passes (f : Listed) : Bool :=
  passesByName lexers excludes includes languages root realRoot f &&
  passesByContent contents (f.source root)

end Conditions

variable {lexers : Lexers} {excludes includes languages : List Text} {contents : Contents}
    {root realRoot : Text} {f : Listed}

theorem keeps_ofTexts {maxFiles : Int} {names : List Text} :
    (ofTexts lexers excludes includes languages maxFiles).keeps names = true ↔
      Pattern.anyExcludes (Pattern.withDefaults excludes) (Path.ofComponents names) = false := by
  rw [keeps, excluded_ofTexts, Bool.not_eq_true']

/-- A file qualifies if the search comes to its directory and it passes there. -/
theorem qualifies_iff_passes (maxFiles : Int) :
    Qualifies lexers excludes includes languages contents root realRoot f ↔
      Tree.KeptAlong (ofTexts lexers excludes includes languages maxFiles).keeps [] f.names ∧
        passes lexers excludes includes languages contents root realRoot f = true := by
  have hnames : (∀ names ∈ f.components.inits, names ≠ [] →
      Pattern.anyExcludes (Pattern.withDefaults excludes) (Path.ofComponents names) = false) ↔
      Tree.KeptAlong (ofTexts lexers excludes includes languages maxFiles).keeps [] f.names ∧
        Pattern.anyExcludes (Pattern.withDefaults excludes) (f.source root).relative = false := by
    simp only [Tree.KeptAlong, keeps_ofTexts, List.nil_append, List.mem_inits, Listed.components,
      List.prefix_concat_iff, or_imp, forall_and, forall_eq]
    rw [and_comm]
    simp [Listed.source, Listed.components]
  rw [qualifies_iff, hnames, and_assoc]
  simp only [passes, passesByName, passesByContent, Bool.and_eq_true, Bool.not_eq_true',
    Option.any_eq_false, Bool.not_eq_false', Bool.or_eq_true, List.isEmpty_iff, and_assoc]
  rfl

section Examine

variable (lexers excludes includes languages contents root realRoot) (maxFiles : Int)

theorem judgeName_passes (f : Listed) :
    ∃ verdict, (ofTexts lexers excludes includes languages maxFiles).judgeName realRoot
      (f.source root).relative f.entry =
        .ok verdict ∧
      (verdict = some none ↔ passesByName lexers excludes includes languages root realRoot f =
        true) ∧
      ∀ event, verdict = some (some event) → event = .linkOutside (f.source root).relative := by
  simp only [judgeName, excluded_ofTexts, included_ofTexts, admitted_ofTexts, bind, Except.bind,
    pure, Except.pure, passesByName]
  generalize Pattern.anyExcludes (Pattern.withDefaults excludes) (f.source root).relative = excluded
  generalize (f.entry.real?.any fun real => !Path.within real realRoot) = outside
  generalize (includes.isEmpty || Pattern.anyIncludes includes (f.source root).relative) = included
  generalize Language.isSourceExtension (Path.extension f.entry.name) = isSource
  generalize Language.admits lexers languages f.entry.name = admitted
  cases excluded with
  | true => exact ⟨none, rfl, by simp, by simp⟩
  | false =>
    cases outside with
    | true => exact ⟨some (some (.linkOutside (f.source root).relative)), rfl, by simp, by simp⟩
    | false =>
      by_cases hall : included = true ∧ isSource = true ∧ admitted = true
      · obtain ⟨rfl, rfl, rfl⟩ := hall
        exact ⟨some none, rfl, by simp, by simp⟩
      · refine ⟨none, ?_, by simpa [and_assoc] using hall, by simp⟩
        cases included <;> cases isSource <;> cases admitted <;> simp at hall ⊢

theorem judgeContent_passes (file : SourceFile) :
    ∃ verdict, (judgeContent file).Yields contents verdict [] 0 ∧
      (verdict = none ↔ passesByContent contents file = true) ∧
      ∀ event ∈ verdict, event = .binary file.relative ∨ event = .generated file.relative := by
  let sniffed := contents ⟨file.path, some Content.sniffedBytes⟩
  let header := contents ⟨file.path, some Content.headerBytes⟩
  by_cases hbinary : Content.looksBinary sniffed = true
  · refine ⟨some (.binary file.relative), (Scan.yields_readHead ..).bind_silent ?_, ?_, by simp⟩
    · rw [if_pos hbinary]
      exact Scan.yields_pure _
    · simp [passesByContent, sniffed, hbinary]
  · by_cases hname : Content.hasGeneratedName file.path = true
    · refine ⟨some (.generated file.relative), (Scan.yields_readHead ..).bind_silent ?_,
        ?_, by simp⟩
      · rw [if_neg hbinary, if_pos hname]
        exact Scan.yields_pure _
      · simp [passesByContent, hname]
    · refine ⟨if Content.looksGenerated header then some (.generated file.relative) else none,
        (Scan.yields_readHead ..).bind_silent ?_, ?_, by simp⟩
      · rw [if_neg hbinary, if_neg hname]
        exact (Scan.yields_readHead ..).bind_silent (Scan.yields_pure _)
      · simp [passesByContent, sniffed, header, hbinary, hname]

theorem examine_yields (f : Listed) :
    ((ofTexts lexers excludes includes languages maxFiles).examine root realRoot f.names
      f.entry).Yields contents
      (if passes lexers excludes includes languages contents root realRoot f then
        some (f.source root) else none) [] 1 := by
  obtain ⟨named, hnamed, hnamePasses, houtside⟩ :=
    judgeName_passes lexers excludes includes languages root realRoot maxFiles f
  have hjudge : Scan.Yields contents (.ofExcept _) named [] 0 := Scan.yields_ofExcept hnamed
  have hfails (hnot : named ≠ some none) :
      passes lexers excludes includes languages contents root realRoot f = false := by
    simp [passes, ← Bool.not_eq_true, ← hnamePasses, hnot]
  apply Scan.yields_checkpoint.bind_check
  apply hjudge.bind_silent
  match named with
  | none =>
    rw [hfails nofun]
    exact Scan.yields_pure _
  | some (some event) =>
    rw [hfails nofun, houtside event rfl]
    exact (Scan.yields_emit _).bind_silent (Scan.yields_pure _)
  | some none =>
    obtain ⟨verdict, hcontent, hcontentPasses, hevents⟩ :=
      judgeContent_passes contents (f.source root)
    apply hcontent.bind_silent
    rw [passes, hnamePasses.1 rfl, Bool.true_and]
    cases verdict with
    | none =>
      rw [hcontentPasses.1 rfl]
      exact Scan.yields_pure _
    | some event =>
      have hfails : passesByContent contents (f.source root) = false := by
        rw [← Bool.not_eq_true, ← hcontentPasses]
        exact nofun
      rw [hfails]
      rcases hevents event rfl with rfl | rfl
      · exact (Scan.yields_emit _).bind_silent (Scan.yields_pure _)
      · exact (Scan.yields_emit _).bind_silent (Scan.yields_pure _)

end Examine

end Selection

end CloneDetection

import CloneDetection.Selection.Content
import CloneDetection.Selection.Given
import CloneDetection.Selection.Language
import CloneDetection.Selection.Pattern
import CloneDetection.Tree.Visit

/-!
# Discovering source files

The directories below a root are visited from the top down, without the excluded ones, and each file
is put to the conditions in turn: not excluded, no link out of the root, included, of a source
extension, of an admitted language, neither binary nor generated. There is a checkpoint before every
directory and every file. The search ends at the first file that would go over the cap. A selection
that was given wrongly is at fault when a name is put to the condition in question.
-/
namespace CloneDetection

structure Selection where
  /-- What the host knows of languages. -/
  lexers : Lexers
  excludes : Given GivenTexts := .ok []
  includes : Given GivenTexts := .ok []
  languages : Given GivenTexts := .ok []
  maxFiles : Int := 10000

structure SourceFile where
  /-- The path below the root. -/
  relative : Text
  path : Text
  deriving DecidableEq, Repr

namespace Selection

def ofTexts (lexers : Lexers) (excludes includes languages : List Text) (maxFiles : Int) :
    Selection :=
  ⟨lexers, .ok (.ofTexts excludes), .ok (.ofTexts includes), .ok (.ofTexts languages), maxFiles⟩

def excluded (s : Selection) (relative : Text) : Given Bool :=
  if Pattern.anyExcludes Pattern.defaultExcludes relative then .ok true
  else s.excludes >>= GivenTexts.any (Pattern.excludes · relative)

def keeps (s : Selection) (names : List Text) : Bool :=
  match s.excluded (Path.ofComponents names) with
  | .ok excluded => !excluded
  | .error _ => false

/-- Whether a path below the root is included; every path is if there are no patterns. -/
def included (s : Selection) (relative : Text) : Given Bool := do
  let patterns ← s.includes
  if patterns.isEmpty then return true else GivenTexts.any (Pattern.includes · relative) patterns

/-- Whether a file is in one of the languages of the selection. Without languages every file is, and
what they are is looked at only if there is a lexer for the file. -/
def admitted (s : Selection) (name : Text) : Given Bool := do
  if s.languages.toOption.any List.isEmpty then return true
  match s.lexers (Path.baseName name) with
  | none => return false
  | some lexer => return Language.isOneOf (← GivenTexts.toTexts (← s.languages)) lexer

section Texts

variable (lexers : Lexers) (excludes includes languages : List Text) (maxFiles : Int)

theorem excluded_ofTexts (relative : Text) :
    (ofTexts lexers excludes includes languages maxFiles).excluded relative =
      .ok (Pattern.anyExcludes (Pattern.withDefaults excludes) relative) := by
  have h : Pattern.anyExcludes (Pattern.withDefaults excludes) relative =
      (Pattern.anyExcludes Pattern.defaultExcludes relative ||
        Pattern.anyExcludes excludes relative) :=
    List.any_append
  rw [excluded, h]
  split
  · next hd => rw [hd, Bool.true_or]
  · next hd =>
    rw [Bool.not_eq_true] at hd
    rw [hd, Bool.false_or]
    exact GivenTexts.any_ofTexts ..

theorem included_ofTexts (relative : Text) :
    (ofTexts lexers excludes includes languages maxFiles).included relative =
      .ok (includes.isEmpty || Pattern.anyIncludes includes relative) := by
  cases includes with
  | nil => rfl
  | cons => exact GivenTexts.any_ofTexts ..

theorem admitted_ofTexts (name : Text) :
    (ofTexts lexers excludes includes languages maxFiles).admitted name =
      .ok (Language.admits lexers languages name) := by
  unfold admitted Language.admits
  cases languages with
  | nil => rfl
  | cons language languages =>
    have hlexers : (ofTexts lexers excludes includes (language :: languages) maxFiles).lexers =
        lexers := rfl
    rw [hlexers]
    cases lexers (Path.baseName name) with
    | none => rfl
    | some lexer =>
      have htexts := GivenTexts.toTexts_ofTexts (language :: languages)
      simp only [ofTexts, bind, Except.bind, htexts]
      rfl

end Texts

/-- The conditions that the names of a file and of what it leads to decide: `some none` is a pass,
`some (some event)` a refusal that is noted. -/
def judgeName (s : Selection) (realRoot relative : Text) (e : Entry) :
    Given (Option (Option Event)) := do
  if ← s.excluded relative then return none
  if e.real?.any fun real =>
    !Path.within real realRoot then return some (some (.linkOutside relative))
  if !(← s.included relative) then return none
  if !Language.isSourceExtension (Path.extension e.name) then return none
  if !(← s.admitted e.name) then return none
  return some none

/-- The conditions that the content of a file decides: the refusal, if there is one. -/
def judgeContent (file : SourceFile) : Scan (Option Event) := do
  let sniffed ← Scan.readHead file.path Content.sniffedBytes
  if Content.looksBinary sniffed then return some (.binary file.relative)
  if Content.hasGeneratedName file.path then return some (.generated file.relative)
  let header ← Scan.readHead file.path Content.headerBytes
  return if Content.looksGenerated header then some (.generated file.relative) else none

def examine (s : Selection) (root realRoot : Text) (names : List Text) (e : Entry) :
    Scan (Option SourceFile) := do
  .checkpoint
  let relative := Path.ofComponents (names ++ [e.name])
  let file : SourceFile := ⟨relative, Path.append root relative⟩
  match ← Scan.ofExcept (s.judgeName realRoot relative e) with
  | none => return none
  | some (some event) =>
    .emit event
    return none
  | some none =>
    match ← judgeContent file with
    | some event =>
      .emit event
      return none
    | none => return some file

/-- One step of the search: a directory is entered, or one of its files is looked at. -/
inductive Step where
  | enter (names directories : List Text)
  | file (names : List Text) (entry : Entry)

def steps (visits : List Visit) : List Step :=
  visits.flatMap fun v => .enter v.names v.directories :: v.files.map (.file v.names)

/-- Enters a directory and puts all directories in it to the exclusion. -/
def enter (s : Selection) (names directories : List Text) : Scan Unit := do
  .checkpoint
  directories.forM fun name =>
    discard (Scan.ofExcept (s.excluded (Path.ofComponents (names ++ [name]))))

/-- Takes the steps in order; `found` are the files selected so far, last first, and `room` is how
many more there may be. -/
def search (s : Selection) (root realRoot : Text) :
    List Step → Nat → List SourceFile → Scan (List SourceFile)
  | [], _, found => return found.reverse
  | .enter names directories :: rest, room, found => do
    s.enter names directories
    s.search root realRoot rest room found
  | .file names e :: rest, room, found => do
    match ← s.examine root realRoot names e with
    | none => s.search root realRoot rest room found
    | some file =>
      match room with
      | 0 =>
        .emit (.fileCap s.maxFiles)
        return found.reverse
      | room + 1 => s.search root realRoot rest room (file :: found)

/-- The selected files below `root`, in the order of the visits. What is excluded is looked at
before the root. -/
def discover (s : Selection) (tree : Tree) (root : Text) : Scan (List SourceFile) := do
  let _ ← Scan.ofExcept s.excludes
  if Path.isUsable root then
    s.search root (tree.realPath root) (steps (tree.visits s.keeps root)) s.maxFiles.toNat []
  else .fail .unusableRoot

end Selection

end CloneDetection

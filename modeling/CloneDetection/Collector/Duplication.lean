import CloneDetection.Clone.Finder
import CloneDetection.Finding.Basic
import CloneDetection.Report.Basic
import CloneDetection.Selection.Discovery

/-!
# Collecting duplication

The selected files are brought into both normal forms, their windows indexed, and both indexes
searched for groups. Near groups whose files an exact group already names are dropped. The groups
whose finding is confident enough are counted and reported, up to a cap. The least confidence is
looked at only if there is a group.
-/
namespace CloneDetection

structure Options where
  /-- What the host knows of languages. -/
  lexers : Lexers
  excludes : Given GivenTexts := .ok []
  includes : Given GivenTexts := .ok []
  languages : Given GivenTexts := .ok []
  minConfidence : Given Double := .ok .zero
  /-- No positive number stands for `defaultMaxFindings`. -/
  maxFindings : Given Int := .ok 0
  /-- How many files may be read at once, which does not change what is found. -/
  workers : Given Int := .ok 1

def Options.selection (options : Options) : Selection where
  lexers := options.lexers
  excludes := options.excludes
  includes := options.includes
  languages := options.languages

namespace Duplication

def defaultMaxFindings : Int := 200

/-- After every so many files there is a message. -/
def progressStep : Nat := 500

structure FileWindows where
  exact : List Window
  blinded : List Window
  deriving Repr

def windowsOf (form : NormalForm) (raw : List Text) : List Window :=
  Window.ofLines defaultWindowSize (form.lines raw)

def hashFile (file : SourceFile) : Scan (Option FileWindows) := do
  .checkpoint
  match ← Scan.readAll file.path with
  | some bytes =>
    let raw := Content.lines bytes
    return some ⟨windowsOf .exact raw, windowsOf .blinded raw⟩
  | none =>
    .emit (.unreadable file.relative)
    return none

structure Indexed where
  exact : Index := .empty defaultWindowSize
  blinded : Index := .empty defaultWindowSize
  files : Nat := 0

def addTo (index : Index) (path : Text) (windows : List Window) : Scan Index :=
  Scan.ofOption (.alreadyIndexed path) (index.add? path windows)

def takeIn (state : Indexed) (file : SourceFile) (windows? : Option FileWindows) :
    Scan Indexed := do
  .checkpoint
  match windows? with
  | none => return state
  | some windows =>
    let exact ← addTo state.exact file.relative windows.exact
    let blinded ← addTo state.blinded file.relative windows.blinded
    let files := state.files + 1
    if files % progressStep = 0 then .emit (.scanned files)
    return ⟨exact, blinded, files⟩

def indexFile (state : Indexed) (file : SourceFile) : Scan Indexed := do
  takeIn state file (← hashFile file)

/-- The groups that a scan reports on: all exact ones, then the near ones that they do not
explain. -/
def reported (exact near : List CloneGroup) : List CloneGroup :=
  exact ++ CloneGroup.withoutExact near exact

def kept (minConfidence : Given Double) (groups : List CloneGroup) :
    Except Fault (List (CloneGroup × Finding)) := do
  let all ← groups.mapM fun g => do
    let finding ← Finding.ofGroup g
    return if finding.confidence < (← minConfidence) then none else some (g, finding)
  return all.filterMap id

def metricsOf (files : Nat) (groups : List CloneGroup) : Metrics where
  filesScanned := files
  exactClones := groups.countP (!·.near)
  nearClones := groups.countP (·.near)
  duplicatedLines := groups.foldl (· + ·.duplicatedLines) 0

def limitOf (maxFindings : Int) : Int :=
  if 0 < maxFindings then maxFindings else defaultMaxFindings

/-- What is found in the indexes. -/
def conclude (options : Options) (indexed : Indexed) : Scan (List Finding × Metrics) := do
  let exact ← indexed.exact.findGroups false
  let near ← indexed.blinded.findGroups true
  .checkpoint
  let kept ← Scan.ofExcept (kept options.minConfidence (reported exact near))
  let maxFindings ← Scan.ofExcept options.maxFindings
  let metrics := metricsOf indexed.files (kept.map Prod.fst)
  .emit (.finished indexed.files metrics.exactClones.toNat metrics.nearClones.toNat)
  return (Finding.cap (limitOf maxFindings) (Finding.sort (kept.map Prod.snd)), metrics)

def collect (tree : Tree) (root : Text) (options : Options) : Scan (List Finding × Metrics) := do
  let files ← options.selection.discover tree root
  .emit (.discovered files.length root)
  let _ ← Scan.ofExcept options.workers
  conclude options (← files.foldlM indexFile {})

end Duplication

end CloneDetection

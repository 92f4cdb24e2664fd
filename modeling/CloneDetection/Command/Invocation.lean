import CloneDetection.Collector.Survey
import CloneDetection.Command.Arguments
import CloneDetection.Settings.Basic
import CloneDetection.Settings.Document

/-!
# Invocations

The command scans one directory, with the settings of the document in it and of the command line
over them, and prints the report. It exits with 0 if nothing was found, with 1 if something was
found or the scan could not be carried through, and with 2 if it was called in a wrong way.
-/
namespace CloneDetection

namespace Command

structure Invocation where
  root : Text
  verbosity : Nat
  keywords : Keywords

inductive Request where
  | show (notice : Notice)
  | scan (invocation : Invocation)

def Arguments.root (a : Arguments) : Text :=
  a.words.head?.getD ['.']

/-- What the arguments ask for, given whether the root can be scanned. -/
def Arguments.request (a : Arguments) (rootUsable : Bool) : Except UsageError Request := do
  if let some notice := a.notices.head? then return .show notice
  let keywords ← a.keywords
  if !Path.isUsable a.root then throw .noPath
  if !rootUsable then throw (.badPath a.root)
  match a.words.tail with
  | extra :: _ => throw (.extraArgument extra)
  | [] => return .scan ⟨a.root, a.verbosity, keywords⟩

inductive SetupError where
  | keyword (e : KeywordError)
  | document (e : DocumentError)
  | merge (e : MergeError)
  deriving Repr

namespace Invocation

def documentPath (i : Invocation) : Text :=
  Path.child i.root "pyproject.toml".toList

/-- The settings, given what the host knows of languages and the content of the document, which may
be missing. -/
def settings (i : Invocation) (lexers : Lexers) (content? : Option Bytes) :
    Except SetupError Settings := do
  let commandLine ← i.keywords.explicit.mapError .keyword
  let document ← (Layer.ofFile content?).mapError .document
  let configuration ← (Configuration.merge commandLine document).mapError .merge
  return configuration.settings lexers

def scan (i : Invocation) (settings : Settings) (tree : Tree) : Scan Report :=
  survey Registry.standard [Finding.duplication] tree i.root settings.options

def logs (i : Invocation) (e : Event) : Bool :=
  match e.level with
  | .info => 1 ≤ i.verbosity
  | .debug => 2 ≤ i.verbosity

end Invocation

def exitCode (r : Report) : Nat :=
  if r.findings.isEmpty then 0 else 1

def failureCode : Nat := 1

def usageCode : Nat := 2

def UsageError.message : UsageError → Text
  | .noSuchOption name => "No such option: ".toList ++ name
  | .badOption name => "Option '".toList ++ name ++ "' is used in a wrong way.".toList
  | .badValue option value => "Invalid value for '".toList ++ option ++ "': ".toList ++ value
  | .noPath => Path.unusableMessage
  | .badPath path => "Invalid value for '[PATH]': ".toList ++ path ++ " is no directory.".toList
  | .extraArgument argument => "Got unexpected extra argument (".toList ++ argument ++ [')']

def Notice.text : Notice → Text
  | .version => "clonewatch, version 0.1.0\n".toList
  | .help =>
    "Usage: clonewatch [OPTIONS] [PATH]\n\nOptions:\n".toList ++
      "  -v, --verbose\n  --version\n  --help\n".toList ++
      parameters.flatMap fun p => "  ".toList ++ p.option ++ " VALUE\n".toList

end Command

end CloneDetection

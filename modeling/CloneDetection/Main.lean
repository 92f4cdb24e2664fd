import CloneDetection.Command.Invocation

/-!
# The program

Takes a picture of the directories below the root, runs the scan on it, and reads files as the scan
asks for them. The log goes to standard error, the report to standard output.
-/
namespace CloneDetection

namespace Program

def languages : List (Lexer × List String) :=
  [(⟨"C".toList, ["c".toList], rfl⟩, [".c", ".h"]),
   (⟨"C++".toList, ["cpp".toList, "c++".toList], rfl⟩, [".cpp", ".hpp"]),
   (⟨"C#".toList, ["csharp".toList, "c#".toList, "cs".toList], rfl⟩, [".cs"]),
   (⟨"Elixir".toList, ["elixir".toList, "ex".toList, "exs".toList], rfl⟩, [".ex", ".exs"]),
   (⟨"Go".toList, ["go".toList, "golang".toList], rfl⟩, [".go"]),
   (⟨"Java".toList, ["java".toList], rfl⟩, [".java"]),
   (⟨"JavaScript".toList, ["javascript".toList, "js".toList], rfl⟩, [".js"]),
   (⟨"JSX".toList, ["jsx".toList, "react".toList], rfl⟩, [".jsx"]),
   (⟨"Kotlin".toList, ["kotlin".toList], rfl⟩, [".kt"]),
   (⟨"PHP".toList, ["php".toList, "php3".toList, "php4".toList, "php5".toList], rfl⟩,
     [".php"]),
   (⟨"Python".toList,
      ["python", "py", "sage", "python3", "py3", "bazel", "starlark", "pyi"].map String.toList,
      rfl⟩, [".py"]),
   (⟨"Ruby".toList, ["ruby".toList, "rb".toList, "duby".toList], rfl⟩, [".rb"]),
   (⟨"Rust".toList, ["rust".toList, "rs".toList], rfl⟩, [".rs"]),
   (⟨"Scala".toList, ["scala".toList], rfl⟩, [".scala"]),
   (⟨"Swift".toList, ["swift".toList], rfl⟩, [".swift"]),
   (⟨"TypeScript".toList, ["typescript".toList, "ts".toList], rfl⟩, [".ts"]),
   (⟨"TSX".toList, ["tsx".toList], rfl⟩, [".tsx"])]

def lexers : Lexers := fun name =>
  (languages.find? fun (_, extensions) => extensions.any (·.toList.isSuffixOf name)).map Prod.fst

def names (path : String) : List Text :=
  (Path.components path.toList).filter (!·.isEmpty)

/-- The node at a path and the directories that links below it lead to. A link without an end leads
to itself in the picture. -/
partial def picture (path : String) : IO (Node × List (List Text)) := do
  let root ← IO.FS.realPath path
  let mut entries := []
  let mut ends := []
  for e in ← root.readDir do
    let name := e.fileName.toList
    match (← e.path.symlinkMetadata).type with
    | .dir =>
      let (node, more) ← try picture e.path.toString catch _ => pure (Node.empty, [])
      entries := (name, node) :: entries
      ends := more ++ ends
    | .symlink =>
      match ← (e.path.metadata).toBaseIO with
      | .ok target =>
        let real := (← IO.FS.realPath e.path).toString
        entries := (name, .link real.toList) :: entries
        if target.type == .dir then ends := names real :: ends
      | .error _ => entries := (name, .link name) :: entries
    | _ => entries := (name, .file []) :: entries
  return (.directory entries, ends)

/-- The tree of a root, which stands in it under the names it was given by. -/
def treeOf (root : String) : IO Tree := do
  let working := names (← IO.FS.realPath ".").toString
  let real := names (← IO.FS.realPath root).toString
  let (node, ends) ← picture root
  let top := ends.foldl (fun top e => if (top.get? e).isSome then top else top.insert .empty e)
    ((Node.empty.insert .empty working).insert node real)
  let given := names (String.ofList (Path.normalize (if root.startsWith "/" then root.toList
    else Path.ofComponents ([] :: working ++ [root.toList]))))
  let top := if given = real then top else top.insert (.link (Path.ofComponents ([] :: real))) given
  return ⟨top, working⟩

def now : IO Double := do
  return .ofDecimal false (← IO.monoNanosNow) (-9)

def readFile (path : Text) (limit? : Option Nat) : IO (Option Bytes) := do
  try
    match limit? with
    | some n => do
      let handle ← IO.FS.Handle.mk (String.ofList path) .read
      return some (← handle.read n.toUSize).toList
    | none => return some (← IO.FS.readBinFile (String.ofList path)).toList
  catch _ => return none

def host (i : Command.Invocation) (token : Token) (start : Double) : Host IO where
  check := return token.check (← now)
  note e := do
    if i.logs e then
      let elapsed := ((← now) - start).writeHundredths ++ ['s']
      IO.eprint (String.ofList (e.logLine elapsed))
  read := readFile

def fail (code : Nat) (message : Text) : IO UInt32 := do
  IO.eprintln (String.ofList ("Error: ".toList ++ message))
  return code.toUInt32

/-- What is printed for faults that no message of the command describes. -/
def describe : Command.SetupError → Text
  | .document .notUtf8 => "the document is not UTF-8".toList
  | .document (.toml .tooDeep) => "the document nests values too deep".toList
  | .document .toolNotTable => "the document has a tool that is no table".toList
  | _ => "the settings do not fit".toList

def describeFault : Fault → Text
  | .alreadyIndexed path => Index.duplicateMessage path
  | .unknownCollector name known => Registry.unknownMessage name known
  | .unusableRoot => Path.unusableMessage
  | .mistyped | .noText => "the settings do not fit".toList
  | _ => "the scan failed".toList

def run (i : Command.Invocation) : IO UInt32 := do
  match i.settings lexers (← readFile i.documentPath none) with
  | .error e =>
    let message? := match e with
      | .document e => e.message? i.documentPath
      | _ => none
    fail Command.failureCode (message?.getD (describe e))
  | .ok settings =>
    let start ← now
    let .ok token := settings.token start | fail Command.failureCode (describeFault .mistyped)
    let tree ← treeOf (String.ofList i.root)
    match ← (i.scan settings tree).run (host i token start) with
    | .ok report =>
      IO.print (String.ofList (settings.format.write report))
      return (Command.exitCode report).toUInt32
    | .error (.cancelled cause) => fail Command.failureCode cause.message
    | .error (.fault e) => fail Command.failureCode (describeFault e)

/-- Whether a path leads to something that is no regular file. -/
def usable (root : String) : IO Bool := do
  match ← (IO.FS.realPath root >>= fun p => p.metadata).toBaseIO with
  | .ok m => return m.type != .file
  | .error _ => return false

end Program

end CloneDetection

open CloneDetection in
def main (args : List String) : IO UInt32 := do
  let request ← match Command.Arguments.read (args.map String.toList) with
    | .ok a => pure (a.request (← Program.usable (String.ofList a.root)))
    | .error e => pure (.error e)
  match request with
  | .error e => Program.fail Command.usageCode e.message
  | .ok (.show notice) =>
    IO.print (String.ofList notice.text)
    return 0
  | .ok (.scan i) => Program.run i

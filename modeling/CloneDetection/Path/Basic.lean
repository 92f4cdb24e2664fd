import CloneDetection.Text.CharClass

/-!
# Paths

A path is text; its components stand between slashes. `normalize` works on the text alone: it drops
empty and `.` components and lets `..` take the component before it away.
-/
namespace CloneDetection

namespace Path

/-- The components of a path, empty ones too. -/
def components (path : Text) : List Text :=
  path.splitOn '/'

def ofComponents (names : List Text) : Text :=
  Text.join ['/'] names

def baseName (path : Text) : Text :=
  (path.reverse.takeWhile (· != '/')).reverse

/-- The text before the last point of a name and the text after it. -/
def cutLastPoint? (name : Text) : Option (Text × Text) :=
  (Text.cut? '.' name.reverse).map fun (after, before) => (before.reverse, after.reverse)

/-- The part of a name from its last point on, unless only points stand before it. -/
def extension (name : Text) : Text :=
  match cutLastPoint? name with
  | some (before, after) => if before.any (· != '.') then '.' :: after else []
  | none => []

/-- One path after another, with a slash between them unless the first is empty or ends in one. -/
def append (root path : Text) : Text :=
  if root.isEmpty || root.getLast? == some '/' then root ++ path else root ++ '/' :: path

def isAbsolute (path : Text) : Bool :=
  path.head? == some '/'

/-- A path as it is meant where `root` leads. -/
def join (root path : Text) : Text :=
  if isAbsolute path then path else append root path

def within (path root : Text) : Bool :=
  let stem := (root.reverse.dropWhile (· == '/')).reverse
  path == root || (stem ++ ['/']).isPrefixOf path

/-- Nothing can stand under a path with a NUL character in it. -/
def isUsable (path : Text) : Bool :=
  !path.contains '\x00'

def unusableMessage : Text := "embedded null byte".toList

/-- The slashes that a path starts with, as far as they count: two are more than one, three are
not. -/
def lead (path : Text) : Text :=
  match path with
  | '/' :: '/' :: '/' :: _ => ['/']
  | '/' :: '/' :: _ => ['/', '/']
  | '/' :: _ => ['/']
  | _ => []

/-- One more component, the last first; `..` stays only where nothing can be taken away. -/
def addComponent (absolute : Bool) (kept : List Text) (name : Text) : List Text :=
  if name = [] ∨ name = ['.'] then kept
  else if name = ['.', '.'] then
    match kept with
    | [] => if absolute then [] else [name]
    | last :: rest => if last = ['.', '.'] then name :: kept else rest
  else name :: kept

def normalize (path : Text) : Text :=
  let absolute := isAbsolute path
  let names := ((components path).foldl (addComponent absolute) []).reverse
  let body := ofComponents names
  if absolute then lead path ++ body else if names.isEmpty then ['.'] else body

/-- The path of `name` in a directory, without empty and `.` components. -/
def child (directory name : Text) : Text :=
  let names := (components directory).filter fun c => c != [] && c != ['.']
  lead directory ++ ofComponents (names ++ [name])

end Path

end CloneDetection

import CloneDetection.Tree.Basic

/-!
# Following links

`follow` finds what a path leads to, as opening it does: every component but the last must be a
directory, links are followed everywhere, and only so many of them. `realPath` gives a path without
links for any path at all: what does not exist is kept as it stands, and so is what comes after a
link that leads back to itself.
-/
namespace CloneDetection

inductive Obstacle where
  /-- There is nothing of a name. -/
  | missing
  /-- The path goes on below something that is no directory. -/
  | noDirectory
  /-- There are too many links to follow. -/
  | endless
  /-- There is a directory where a file is wanted. -/
  | directory
  /-- There is something already. -/
  | taken
  /-- It is no path at all. -/
  | noPath
  /-- The path or a name in it has too many bytes. -/
  | tooLong
  deriving DecidableEq, Repr

namespace Tree

/-- The names of a path, of which slashes at its end add none. -/
def namesOf (path : Text) : List Text :=
  (Path.components path).filter (· ≠ [])

/-- Whether a name stands for a directory wherever it is. -/
def isSpecial (name : Text) : Bool :=
  name = [] ∨ name = ['.'] ∨ name = ['.', '.']

/-- Where a path starts. -/
def startOf (tree : Tree) (path : Text) : List Text :=
  if Path.isAbsolute path then [] else tree.working

def maxLinks : Nat := 40

def maxNameBytes : Nat := 255

def maxPathBytes : Nat := 4095

def isTooLong (limit : Nat) (t : Text) : Bool :=
  limit < (Utf8.encode t).length

/-- The names of what `rest` leads to from the directory `here`. -/
def followNames (top : Node) (budget : Nat) (here : List Text) (rest : List Text) :
    Except Obstacle (List Text) :=
  match rest with
  | [] => .ok here
  | name :: rest =>
    if !((top.get? here).any Node.isDirectory) then .error .noDirectory
    else if name = [] ∨ name = ['.'] then followNames top budget here rest
    else if name = ['.', '.'] then followNames top budget here.dropLast rest
    else
      match top.get? (here ++ [name]) with
      | none => .error (if isTooLong maxNameBytes name then .tooLong else .missing)
      | some (.link target) =>
        match budget with
        | 0 => .error .endless
        | left + 1 =>
          if target.isEmpty then .error .missing
          else followNames top left (if Path.isAbsolute target then [] else here)
            (Path.components target ++ rest)
      | some _ => followNames top budget (here ++ [name]) rest
termination_by (budget, rest.length)

def follow (tree : Tree) (path : Text) : Except Obstacle (List Text) :=
  if path.isEmpty then .error .missing
  else if isTooLong maxPathBytes path then .error .tooLong
  else followNames tree.top maxLinks (tree.startOf path) (Path.components path)

/-- The node that a path leads to. -/
def find? (tree : Tree) (path : Text) : Option Node :=
  (tree.follow path).toOption.bind tree.top.get?

/-- The content of the file that a path leads to. -/
def content (tree : Tree) (path : Text) : Except Obstacle Bytes := do
  match tree.top.get? (← tree.follow path) with
  | some (.file content) => return content
  | some _ => throw .directory
  | none => throw .missing

/-- A path without links, as it is put together. -/
structure Spelling where
  /-- Whether it starts at the top, and not in the working directory. -/
  absolute : Bool
  /-- Its components, the last first. There is a `..` only where nothing was left to take away. -/
  kept : List Text
  deriving DecidableEq, Repr

namespace Spelling

def text (s : Spelling) : Text :=
  let body := Path.ofComponents s.kept.reverse
  if s.absolute then '/' :: body else body

def add (s : Spelling) (name : Text) : Spelling :=
  { s with kept := Path.addComponent s.absolute s.kept name }

/-- Where a path starts that is given where `s` has led. -/
def startOf (s : Spelling) (path : Text) : Spelling :=
  if Path.isAbsolute path then ⟨true, []⟩ else s

end Spelling

/-- The names from the top that a path without links stands for. -/
def place (tree : Tree) (s : Spelling) : List Text :=
  s.kept.foldr (fun name here => if name = ['.', '.'] then here.dropLast else here ++ [name])
    (if s.absolute then [] else tree.working)

/-- The target of the link at a path, unless the path is too long to be asked for. -/
def linkAt? (tree : Tree) (s : Spelling) : Option Text :=
  if isTooLong maxPathBytes s.text then none
  else
    match tree.top.get? (tree.place s) with
    | some (.link target) => some target
    | _ => none

/-- Goes on from `here` along `rest` and puts the target of each link in its place, until a link
comes up that is just being followed; then the path is left as it stands from there on. `active` are
the links that are being followed. -/
def resolve (tree : Tree) (fuel : Nat) (active : List Spelling) (here : Spelling)
    (rest : List Text) :
    Except Text Spelling :=
  match rest with
  | [] => .ok here
  | name :: rest =>
    if name = [] ∨ name = ['.'] then tree.resolve fuel active here rest
    else if name = ['.', '.'] then tree.resolve fuel active (here.add name) rest
    else
      let there := here.add name
      match tree.linkAt? there with
      | none => tree.resolve fuel active there rest
      | some target =>
        match fuel with
        | 0 => .error (Path.join there.text (Path.ofComponents rest))
        | left + 1 =>
          if active.contains there then .error (Path.join there.text (Path.ofComponents rest))
          else
            match
              tree.resolve left (there :: active) (here.startOf target) (Path.components target)
            with
            | .ok found => tree.resolve (left + 1) active found rest
            | .error found => .error (Path.join found (Path.ofComponents rest))
termination_by (fuel, rest.length)

def absolute (names : List Text) : Text :=
  '/' :: Path.ofComponents names

/-- No more links can be active at once than there are, each in so many spellings as are short
enough: once from the top, and from the working directory with some number of `..` in front. -/
def maxActive (tree : Tree) : Nat :=
  (tree.top.links + 1) * maxPathBytes

/-- The absolute path without links of any path at all. -/
def realPath (tree : Tree) (path : Text) : Text :=
  let start := Spelling.startOf ⟨false, []⟩ path
  match tree.resolve tree.maxActive [] start (Path.components path) with
  | .ok s => absolute (tree.place s)
  | .error rest => Path.normalize (Path.join (absolute tree.working) rest)

end Tree

end CloneDetection

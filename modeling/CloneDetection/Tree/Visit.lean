import CloneDetection.Clone.Place
import CloneDetection.Tree.Resolve

/-!
# Visiting directories

The directories of a tree are visited from the top down: a directory, then its subdirectories in
order of name, each with all that is below it. Links to directories are not entered, nor directories
whose path is too long. Whatever else is in a directory is one of its files, a link that leads
nowhere too.
-/
namespace CloneDetection

structure Entry where
  name : Text
  /-- The real path of what the entry leads to, if it is a link. -/
  real? : Option Text
  deriving DecidableEq, Repr

structure Visit where
  /-- The names from the root of the visits to the directory. -/
  names : List Text
  /-- The names in the directory that lead to directories, links too, in order. -/
  directories : List Text
  /-- The files of the directory in order of name. -/
  files : List Entry
  deriving DecidableEq, Repr

namespace Tree

def ordered {α : Type} (entries : List (Text × α)) : List (Text × α) :=
  entries.mergeSort fun a b => (compare a.1 b.1).isLE

def pathBelow (root : Text) (names : List Text) : Text :=
  Path.append root (Path.ofComponents names)

/-- An entry of the directory at `names` below `root`, unless it is a directory or a link to one. A
link whose path is too long to be asked for is taken for a file. -/
def entry? (tree : Tree) (root : Text) (names : List Text) : Text × Node → Option Entry
  | (_, .directory _) => none
  | (name, .file _) => some ⟨name, none⟩
  | (name, .link _) =>
    let path := pathBelow root (names ++ [name])
    if (tree.find? path).any Node.isDirectory then none
    else some ⟨name, if isTooLong maxPathBytes path then none else some (tree.realPath path)⟩

def directoriesOf (tree : Tree) (root : Text) (names : List Text) (entries : List (Text × Node)) :
    List Text :=
  (entries.filter fun e => (tree.entry? root names e).isNone).map Prod.fst

mutual

/-- The visits of a node and all below it. `names` are those from the root of the visits to the
node; a subdirectory is entered if `keep` holds of its names. -/
def visitsOf (tree : Tree) (keep : List Text → Bool) (root : Text) (names : List Text) :
    Node → List Visit
  | .directory entries =>
    ⟨names, tree.directoriesOf root names (ordered entries),
        (ordered entries).filterMap (tree.entry? root names)⟩ ::
      (ordered (visitsOfEntries tree keep root names entries)).flatMap Prod.snd
  | _ => []

def visitsOfEntries (tree : Tree) (keep : List Text → Bool) (root : Text) (names : List Text) :
    List (Text × Node) → List (Text × List Visit)
  | [] => []
  | entry :: rest =>
    visitsOfEntry tree keep root names entry :: visitsOfEntries tree keep root names rest

def visitsOfEntry (tree : Tree) (keep : List Text → Bool) (root : Text) (names : List Text) :
    Text × Node → Text × List Visit
  | (name, node) =>
    (name, if keep (names ++ [name]) then visitsOf tree keep root (names ++ [name]) node else [])

end

/-- The visits of kept directories below the directory that `root` leads to; none if it leads to no
directory. -/
def walk (tree : Tree) (keep : List Text → Bool) (root : Text) : List Visit :=
  match tree.follow root with
  | .ok here =>
    match tree.top.get? here with
    | some node => tree.visitsOf keep root [] node
    | none => []
  | .error _ => []

/-- Whether the path of a directory is short enough for it to be looked into. -/
def isReachable (root : Text) (names : List Text) : Bool :=
  !isTooLong maxPathBytes (pathBelow root names)

def visits (tree : Tree) (keep : List Text → Bool) (root : Text) : List Visit :=
  tree.walk (fun names => keep names && isReachable root names) root

/-- The content of the file that a path leads to, cut off at the limit. -/
def read? (tree : Tree) (path : Text) (limit? : Option Nat) : Option Bytes :=
  (tree.content path).toOption.map fun content => match limit? with
    | some n => content.take n
    | none => content

end Tree

end CloneDetection

import CloneDetection.Tree.Resolve

/-!
# Changing trees

Files are written, links and directories made and nodes removed by path. Links on the way are
followed, and directories that are missing on it are made. What is written to a link goes to where
the link leads, which need not exist yet; a link that is removed leaves what it leads to alone. What
stands in the way is an `Obstacle`.
-/
namespace CloneDetection

namespace Tree

def insert (tree : Tree) (node : Node) (names : List Text) : Tree :=
  { tree with top := tree.top.insert node names }

/-- Goes along names from the directory `here`, making the directories that are missing, and returns
where that ends. -/
def enter (tree : Tree) (here : List Text) : List Text → Except Obstacle (Tree × List Text)
  | [] => .ok (tree, here)
  | name :: rest =>
    if name = [] ∨ name = ['.'] then tree.enter here rest
    else if name = ['.', '.'] then tree.enter here.dropLast rest
    else if (tree.top.get? (here ++ [name])).isNone then
      (tree.insert .empty (here ++ [name])).enter (here ++ [name]) rest
    else
      match followNames tree.top maxLinks here [name, ['.']] with
      | .ok there => tree.enter there rest
      | .error e => .error (if rest.isEmpty then .taken else e)

/-- What is wrong with a path wherever it is meant to lead. -/
def checkPath (path : Text) : Except Obstacle Unit :=
  if !Path.isUsable path then .error .noPath
  else if isTooLong maxPathBytes path ||
    (namesOf path).any (isTooLong maxNameBytes) then .error .tooLong
  else .ok ()

def makeDirectory (tree : Tree) (path : Text) : Except Obstacle Tree := do
  checkPath path
  let (tree, _) ← tree.enter (tree.startOf path) (namesOf path)
  return tree

/-- Where the last name of a path stands, and the tree with the directories before it made. -/
def enterParent (tree : Tree) (path : Text) : Except Obstacle (Tree × List Text) := do
  checkPath path
  let names := namesOf path
  let (tree, here) ← tree.enter (tree.startOf path) names.dropLast
  return (tree, here ++ names.getLast?.toList)

/-- Where writing to a node puts a file: where it stands, or else where its links lead. -/
def target (top : Node) : Nat → List Text → Except Obstacle (List Text)
  | budget, here =>
    match top.get? here with
    | some (.link target) =>
      match budget with
      | 0 => .error .endless
      | left + 1 => do
        let names := Path.components target
        let start := if Path.isAbsolute target then [] else here.dropLast
        let parent ← followNames top maxLinks start (names.dropLast ++ [['.']])
        match names.getLast?.filter (!isSpecial ·) with
        | some name => Tree.target top left (parent ++ [name])
        | none => throw .directory
    | some (.directory _) => .error .directory
    | _ => .ok here

def write (tree : Tree) (path : Text) (content : Bytes) : Except Obstacle Tree := do
  let (tree, here) ← tree.enterParent path
  return tree.insert (.file content) (← target tree.top maxLinks here)

def makeLink (tree : Tree) (path target : Text) : Except Obstacle Tree := do
  let (tree, here) ← tree.enterParent path
  if !Path.isUsable target then throw .noPath
  if target.isEmpty then throw .missing
  if isTooLong maxPathBytes target then throw .tooLong
  if (tree.top.get? here).isSome then throw .taken
  return tree.insert (.link target) here

def remove (tree : Tree) (path : Text) : Except Obstacle Tree := do
  checkPath path
  let names := namesOf path
  let parent ← followNames tree.top maxLinks (tree.startOf path) (names.dropLast ++ [['.']])
  let here := parent ++ names.getLast?.toList
  if (tree.top.get? here).isNone then throw .missing
  return { tree with top := tree.top.erase here }

end Tree

end CloneDetection

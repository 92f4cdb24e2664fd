import CloneDetection.Entries
import CloneDetection.Path.Basic
import CloneDetection.Text.Utf8

/-!
# File trees

A tree holds files, symbolic links and directories. A node is reached by the names on the way to it
from the top; no link is followed here.
-/
namespace CloneDetection

inductive Node where
  | file (content : Bytes)
  | link (target : Text)
  | directory (entries : List (Text × Node))

namespace Node

def empty : Node := .directory []

def child? : Node → Text → Option Node
  | .directory entries, name => entries.lookup name
  | _, _ => none

def get? (node : Node) : List Text → Option Node
  | [] => some node
  | name :: rest => (node.child? name).bind (·.get? rest)

def isDirectory : Node → Bool
  | .directory _ => true
  | _ => false

/-- Puts a node at the end of the names, with the directories on the way to it. -/
def insert (node : Node) (new : Node) : List Text → Node
  | [] => new
  | name :: rest =>
    let entries := match node with
      | .directory entries => entries
      | _ => []
    .directory (setEntry entries name (((entries.lookup name).getD empty).insert new rest))

def erase : Node → List Text → Node
  | .directory entries, [name] => .directory (entries.filter (·.1 != name))
  | .directory entries, name :: rest =>
    .directory (entries.map fun (n, node) => if n = name then (n, node.erase rest) else (n, node))
  | node, _ => node
termination_by _ names => names.length

mutual

def links : Node → Nat
  | .file _ => 0
  | .link _ => 1
  | .directory entries => linksOfEntries entries

def linksOfEntries : List (Text × Node) → Nat
  | [] => 0
  | entry :: rest => linksOfEntry entry + linksOfEntries rest

def linksOfEntry : Text × Node → Nat
  | (_, node) => node.links

end

end Node

/-- A tree with a working directory in it. -/
structure Tree where
  top : Node
  working : List Text

end CloneDetection

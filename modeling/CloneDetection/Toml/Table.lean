import CloneDetection.Settings.Value
import CloneDetection.Text.Basic

/-!
# Tables under construction

A document builds nested tables piece by piece. Every table remembers how it came to be, which
decides what may still be added: a value is closed; a table is declared by a header once; a table
made by dotted keys takes more keys only in the part of the document that made it. Headers lead
through arrays of tables to the last table of each.
-/
namespace CloneDetection

namespace Toml

inductive Fault where
  | invalid
  /-- A decimal integer of too many digits. -/
  | tooManyDigits (count : Nat)
  /-- Values nested in values without end. -/
  | tooDeep
  deriving DecidableEq, Repr

inductive Origin where
  | implied
  | declared
  | dotted (part : Nat)
  deriving DecidableEq, Repr

inductive Entry where
  | value (v : Value)
  | table (origin : Origin) (entries : List (Text × Entry))
  /-- An array of tables; the tables before the last one in reverse order. -/
  | tables (before : List (List (Text × Entry))) (last : List (Text × Entry))

abbrev Entries := List (Text × Entry)

structure Key where
  parents : List Text
  name : Text
  deriving DecidableEq, Repr

namespace Entries

def get? (entries : Entries) (name : Text) : Option Entry :=
  entries.lookup name

def replace (entries : Entries) (name : Text) (entry : Entry) : Entries :=
  entries.map fun e => if e.1 = name then (name, entry) else e

def add (entries : Entries) (name : Text) (entry : Entry) : Entries :=
  entries ++ [(name, entry)]

/-- Changes the table that a header's names lead to. -/
def change (f : Entries → Except Fault Entries) : List Text → Entries → Except Fault Entries
  | [], entries => f entries
  | name :: rest, entries =>
    match entries.get? name with
    | none => return entries.add name (.table .implied (← change f rest []))
    | some (.table origin inner) =>
      return entries.replace name (.table origin (← change f rest inner))
    | some (.tables before last) =>
      return entries.replace name (.tables before (← change f rest last))
    | some (.value _) => throw .invalid

def declareIn (name : Text) (entries : Entries) : Except Fault Entries :=
  match entries.get? name with
  | none => return entries.add name (.table .declared [])
  | some (.table .implied inner) => return entries.replace name (.table .declared inner)
  | some _ => throw .invalid

def declare (key : Key) : Entries → Except Fault Entries :=
  change (declareIn key.name) key.parents

def appendIn (name : Text) (entries : Entries) : Except Fault Entries :=
  match entries.get? name with
  | none => return entries.add name (.tables [] [])
  | some (.tables before last) => return entries.replace name (.tables (last :: before) [])
  | some _ => throw .invalid

def append (key : Key) : Entries → Except Fault Entries :=
  change (appendIn key.name) key.parents

def assignTo (part : Nat) (name : Text) (v : Value) : List Text → Entries → Except Fault Entries
  | [], entries =>
    if (entries.get? name).isSome then throw .invalid else return entries.add name (.value v)
  | parent :: rest, entries =>
    match entries.get? parent with
    | none => return entries.add parent (.table (.dotted part) (← assignTo part name v rest []))
    | some (.table origin inner) =>
      if origin = .implied ∨ origin = .dotted part then
        return entries.replace parent (.table (.dotted part) (← assignTo part name v rest inner))
      else throw .invalid
    | some _ => throw .invalid

/-- A value under a key that may be dotted. -/
def assign (part : Nat) (key : Key) (v : Value) : Entries → Except Fault Entries :=
  assignTo part key.name v key.parents

end Entries

mutual

def Entry.toValue : Entry → Value
  | .value v => v
  | .table _ entries => .table (toEntries entries)
  | .tables before last => .list (toTables [.table (toEntries last)] before)

def toEntries : List (Text × Entry) → List (Text × Value)
  | [] => []
  | entry :: rest => toPair entry :: toEntries rest

def toPair : Text × Entry → Text × Value
  | (name, entry) => (name, entry.toValue)

/-- Tables in reverse order, put before those after them. -/
def toTables (after : List Value) : List (List (Text × Entry)) → List Value
  | [] => after
  | entries :: rest => toTables (.table (toEntries entries) :: after) rest

end

end Toml

end CloneDetection

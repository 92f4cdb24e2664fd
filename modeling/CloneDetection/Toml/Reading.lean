import CloneDetection.Toml.Moment
import CloneDetection.Toml.Number

/-!
# Reading TOML documents

A document is read statement by statement: headers of tables, headers of further tables in arrays,
and values under keys. The first fault ends the reading. A carriage return counts only before a line
feed, where it is dropped. Values nest only as deep as there is room.
-/
namespace CloneDetection

namespace Toml

def isBareKeyChar (c : Char) : Bool :=
  c.isAlphanum || c == '-' || c == '_'

def expect (mark : Text) (t : Text) : Except Fault Text :=
  if mark.isPrefixOf t then .ok (t.drop mark.length) else .error .invalid

def keyPart (t : Text) : Except Fault (Reading Text) :=
  match t with
  | '"' :: rest => (basic? false rest).elim (.error .invalid) .ok
  | '\'' :: rest => (literal? rest).elim (.error .invalid) .ok
  | t =>
    let name := t.takeWhile isBareKeyChar
    if name.isEmpty then .error .invalid else .ok (name, t.dropWhile isBareKeyChar)

/-- The parts of a key, with points between them. The fuel bounds their number. -/
def keyParts : Nat → Text → Except Fault (Reading Key)
  | 0, _ => .error .invalid
  | fuel + 1, t => do
    let (name, rest) ← keyPart t
    match skipSpace rest with
    | '.' :: rest =>
      let (key, rest) ← keyParts fuel (skipSpace rest)
      return ({ key with parents := name :: key.parents }, rest)
    | rest => return (⟨[], name⟩, rest)

def key (t : Text) : Except Fault (Reading Key) :=
  keyParts t.length t

def skipComment (t : Text) : Except Fault Text :=
  match t with
  | '#' :: rest =>
    if (rest.takeWhile (· != '\n')).all (allowed false) then .ok (rest.dropWhile (· != '\n'))
    else .error .invalid
  | t => .ok t

def skipFiller (inComment : Bool) : Text → Except Fault Text
  | [] => .ok []
  | c :: rest =>
    if inComment then
      if c = '\n' then skipFiller false rest
      else if allowed false c then skipFiller true rest
      else .error .invalid
    else if isSpaceOrFeed c then skipFiller false rest
    else if c = '#' then skipFiller true rest
    else .ok (c :: rest)

def scalar (t : Text) : Except Fault (Reading Value) :=
  if t.head?.any fun c => c == '"' || c == '\'' then (fun (s, rest) => (.text s, rest)) <$> quoted t
  else if "true".toList.isPrefixOf t then .ok (.bool true, t.drop 4)
  else if "false".toList.isPrefixOf t then .ok (.bool false, t.drop 5)
  else (moment? t).getD (number t)

def roomAtTop : Nat := 991

def leastRoom : Nat := 4

/-- What an array and what an inline table takes from the room for the values in it. -/
def arrayRoom : Nat := 2

def tableRoom : Nat := 3

mutual

/-- The value that the text starts with. Every level of nesting and every further item takes from
the fuel. -/
def value (room : Nat) : Nat → Text → Except Fault (Reading Value)
  | 0, _ => .error .invalid
  | fuel + 1, t =>
    if room < leastRoom then .error .tooDeep
    else match t with
    | '[' :: rest => do
      match ← skipFiller false rest with
      | ']' :: rest => return (.list [], rest)
      | rest =>
        let (items, rest) ← items (room - arrayRoom) fuel rest
        return (.list items, rest)
    | '\x7b' :: rest =>
      match skipSpace rest with
      | '\x7d' :: rest => .ok (.table [], rest)
      | rest => do
        let (entries, rest) ← pairs (room - tableRoom) fuel [] rest
        return (.table (toEntries entries), rest)
    | t => scalar t

/-- The items up to the closing bracket, at least one; a comma may stand after the last. -/
def items (room : Nat) : Nat → Text → Except Fault (Reading (List Value))
  | 0, _ => .error .invalid
  | fuel + 1, t => do
    let (v, rest) ← value room fuel t
    match ← skipFiller false rest with
    | ']' :: rest => return ([v], rest)
    | ',' :: rest =>
      match ← skipFiller false rest with
      | ']' :: rest => return ([v], rest)
      | rest =>
        let (vs, rest) ← items room fuel rest
        return (v :: vs, rest)
    | _ => throw .invalid

def pairs (room : Nat) : Nat → Entries → Text → Except Fault (Reading Entries)
  | 0, _, _ => .error .invalid
  | fuel + 1, entries, t => do
    let (key, rest) ← key t
    let rest ← expect ['='] rest
    let (v, rest) ← value room fuel (skipSpace rest)
    let entries ← entries.assign 0 key v
    match skipSpace rest with
    | '\x7d' :: rest => return (entries, rest)
    | ',' :: rest => pairs room fuel entries (skipSpace rest)
    | _ => throw .invalid

end

/-- What has been read of a document: its tables, and the part being read with the names of its
header. -/
structure Progress where
  entries : Entries := []
  header : List Text := []
  part : Nat := 0

def enough (t : Text) : Nat :=
  2 * t.length + 2

namespace Progress

def tableHeader (p : Progress) (t : Text) : Except Fault (Reading Progress) := do
  let (key, rest) ← key (skipSpace t)
  let entries ← p.entries.declare key
  return (⟨entries, key.parents ++ [key.name], p.part + 1⟩, ← expect [']'] rest)

def arrayHeader (p : Progress) (t : Text) : Except Fault (Reading Progress) := do
  let (key, rest) ← key (skipSpace t)
  let entries ← p.entries.append key
  return (⟨entries, key.parents ++ [key.name], p.part + 1⟩, ← expect [']', ']'] rest)

def keyValue (p : Progress) (t : Text) : Except Fault (Reading Progress) := do
  let (key, rest) ← key t
  let rest ← expect ['='] rest
  let (v, rest) ← value roomAtTop (enough rest) (skipSpace rest)
  let entries ← p.entries.change (Entries.assign p.part key v) p.header
  return ({ p with entries }, rest)

/-- The statement that the text starts with, which may be none at all before a comment. -/
def statement (p : Progress) (t : Text) : Except Fault (Reading Progress) :=
  match t with
  | '#' :: _ => .ok (p, t)
  | '[' :: '[' :: rest => p.arrayHeader rest
  | '[' :: rest => p.tableHeader rest
  | t => p.keyValue t

/-- The tables of the whole text. Every line takes from the fuel. -/
def lines : Nat → Progress → Text → Except Fault Entries
  | 0, _, _ => .error .invalid
  | fuel + 1, p, t =>
    match skipSpace t with
    | [] => .ok p.entries
    | '\n' :: rest => lines fuel p rest
    | t => do
      let (p, rest) ← p.statement t
      match ← skipComment (skipSpace rest) with
      | [] => return p.entries
      | '\n' :: rest => lines fuel p rest
      | _ => throw .invalid

end Progress

def dropReturns : Text → Text
  | '\r' :: '\n' :: rest => '\n' :: dropReturns rest
  | c :: rest => c :: dropReturns rest
  | [] => []

/-- The entries of a document. -/
def read (t : Text) : Except Fault (List (Text × Value)) :=
  let t := dropReturns t
  toEntries <$> Progress.lines (t.length + 1) {} t

end Toml

end CloneDetection

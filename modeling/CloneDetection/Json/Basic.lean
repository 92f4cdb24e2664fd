import CloneDetection.Double.Layout
import CloneDetection.Text.Hexadecimal

/-!
# JSON documents

A document is written over several lines, two spaces for each level; an empty array or object stays
on its line. Text is written in ASCII: a character past `U+FFFF` becomes two escapes, the halves of
its UTF-16 pair.
-/
namespace CloneDetection

inductive Json where
  | null
  | bool (value : Bool)
  | integer (value : Int)
  | number (value : Double)
  | text (value : Text)
  | array (items : List Json)
  | object (members : List (Text × Json))
  deriving Inhabited, Repr

namespace Json

/-- A code unit of sixteen bits as an escape of four hexadecimal digits. -/
def escapeUnit (unit : Nat) : Text :=
  '\\' :: 'u' :: [unit / 0x1000, unit / 0x100, unit / 0x10, unit].map Hexadecimal.digit

def escapeChar (c : Char) : Text :=
  match c with
  | '"' => "\\\"".toList
  | '\\' => "\\\\".toList
  | '\n' => "\\n".toList
  | '\r' => "\\r".toList
  | '\t' => "\\t".toList
  | '\x08' => "\\b".toList
  | '\x0C' => "\\f".toList
  | c =>
    let n := c.toNat
    if 0x20 ≤ n ∧ n < 0x7F then [c]
    else if n < 0x10000 then escapeUnit n
    else escapeUnit (0xD800 + (n - 0x10000) / 0x400) ++ escapeUnit (0xDC00 + (n - 0x10000) % 0x400)

def quote (t : Text) : Text :=
  '"' :: t.flatMap escapeChar ++ ['"']

def newLine (level : Nat) : Text :=
  '\n' :: List.replicate (2 * level) ' '

/-- Parts between brackets, each on a line of its own one level further in. -/
def bracketed (level : Nat) (opening closing : Char) (parts : List Text) : Text :=
  if parts.isEmpty then [opening, closing]
  else opening :: newLine (level + 1) ++ Text.join (',' :: newLine (level + 1)) parts ++
    newLine level ++ [closing]

mutual

def render (level : Nat) : Json → Text
  | .null => "null".toList
  | .bool true => "true".toList
  | .bool false => "false".toList
  | .integer n => Text.integer n
  | .number x => x.write .json
  | .text t => quote t
  | .array items => bracketed level '[' ']' (renderItems (level + 1) items)
  | .object members => bracketed level '\x7b' '\x7d' (renderMembers (level + 1) members)

def renderItems (level : Nat) : List Json → List Text
  | [] => []
  | item :: rest => render level item :: renderItems level rest

def renderMembers (level : Nat) : List (Text × Json) → List Text
  | [] => []
  | member :: rest => renderMember level member :: renderMembers level rest

def renderMember (level : Nat) : Text × Json → Text
  | (name, value) => quote name ++ ": ".toList ++ render level value

end

end Json

end CloneDetection

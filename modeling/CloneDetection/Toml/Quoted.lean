import CloneDetection.Text.Hexadecimal
import CloneDetection.Toml.Table

/-!
# Quoted text of a document

Text stands between single quotes as it is, or between double quotes with escapes; three quotes on
either side let it run over several lines, and a line feed right after the opening ones is dropped.
A backslash at the end of a line takes the blanks and line feeds after it away.
-/
namespace CloneDetection

namespace Toml

/-- What was read, and the text after it. -/
abbrev Reading (α : Type) := α × Text

def isSpace (c : Char) : Bool :=
  c == ' ' || c == '\t'

def isSpaceOrFeed (c : Char) : Bool :=
  isSpace c || c == '\n'

def skipSpace (t : Text) : Text :=
  t.dropWhile isSpace

/-- A control character that no text on one line holds. -/
def isControl (c : Char) : Bool :=
  (c.toNat < 0x20 && c != '\t') || c.toNat == 0x7F

def allowed (multiline : Bool) (c : Char) : Bool :=
  !isControl c || (multiline && c == '\n')

def shortEscapes : List (Char × Char) :=
  [('b', '\x08'), ('t', '\t'), ('n', '\n'), ('f', '\x0C'), ('r', '\r'), ('"', '"'), ('\\', '\\')]

def hexChar? (count : Nat) (t : Text) : Option (Char × Text) :=
  if t.length < count then none
  else ((Hexadecimal.read? (t.take count)).bind scalar?).map (·, t.drop count)

/-- What the text after a backslash stands for. -/
def escape? : Text → Option (Char × Text)
  | 'u' :: rest => hexChar? 4 rest
  | 'U' :: rest => hexChar? 8 rest
  | c :: rest => (shortEscapes.lookup c).map (·, rest)
  | [] => none

theorem length_of_escape? {t rest : Text} {c : Char} (h : escape? t = some (c, rest)) :
    rest.length < t.length := by
  unfold escape? hexChar? at h
  split at h
  · split at h
    · simp at h
    · simp only [Option.map_eq_some_iff, Prod.mk.injEq] at h
      obtain ⟨_, _, _, rfl⟩ := h
      simp only [List.length_drop, List.length_cons]
      omega
  · split at h
    · simp at h
    · simp only [Option.map_eq_some_iff, Prod.mk.injEq] at h
      obtain ⟨_, _, _, rfl⟩ := h
      simp only [List.length_drop, List.length_cons]
      omega
  · simp only [Option.map_eq_some_iff, Prod.mk.injEq] at h
    obtain ⟨_, _, _, rfl⟩ := h
    simp
  · simp at h

/-- Whether a backslash before the text ends its line. -/
def endsLine (t : Text) : Bool :=
  (skipSpace t).head? == some '\n'

theorem length_dropWhile_le (p : Char → Bool) (t : Text) : (t.dropWhile p).length ≤ t.length :=
  (List.dropWhile_sublist p).length_le

def basic? (multiline : Bool) (t : Text) : Option (Text × Text) :=
  match t with
  | [] => none
  | '"' :: rest =>
    if !multiline then some ([], rest)
    else if ['"', '"'].isPrefixOf rest then some ([], rest.drop 2)
    else (basic? multiline rest).map fun (s, left) => ('"' :: s, left)
  | '\\' :: rest =>
    if multiline && endsLine rest then basic? multiline (rest.dropWhile isSpaceOrFeed)
    else
      match _h : escape? rest with
      | some (c, rest) => (basic? multiline rest).map fun (s, left) => (c :: s, left)
      | none => none
  | c :: rest =>
    if allowed multiline c then (basic? multiline rest).map fun (s, left) =>
      (c :: s, left) else none
termination_by t.length
decreasing_by
  · simp
  · have := length_dropWhile_le isSpaceOrFeed rest
    simp only [List.length_cons]
    omega
  · have := length_of_escape? _h
    simp only [List.length_cons]
    omega
  · simp

def literal? (t : Text) : Option (Text × Text) :=
  match Text.cut? '\'' t with
  | some (s, rest) => if s.all (allowed false) then some (s, rest) else none
  | none => none

def cutTriple? : Text → Option (Text × Text)
  | '\'' :: '\'' :: '\'' :: rest => some ([], rest)
  | c :: rest => (cutTriple? rest).map fun (s, left) => (c :: s, left)
  | [] => none

def multilineLiteral? (t : Text) : Option (Text × Text) :=
  match cutTriple? t with
  | some (s, rest) => if s.all (allowed true) then some (s, rest) else none
  | none => none

def dropFeed : Text → Text
  | '\n' :: rest => rest
  | t => t

/-- Up to two quotes right after the closing ones belong to the text. -/
def moreQuotes (quote : Char) (s rest : Text) : Text × Text :=
  let more := (rest.take 2).takeWhile (· == quote)
  (s ++ more, rest.drop more.length)

def quoted (t : Text) : Except Fault (Reading Text) :=
  let read? : Option (Text × Text) := match t with
    | '"' :: '"' :: '"' :: rest =>
      (basic? true (dropFeed rest)).map fun (s, left) => moreQuotes '"' s left
    | '\'' :: '\'' :: '\'' :: rest =>
      (multilineLiteral? (dropFeed rest)).map fun (s, left) => moreQuotes '\'' s left
    | '"' :: rest => basic? false rest
    | '\'' :: rest => literal? rest
    | _ => none
  match read? with
  | some found => .ok found
  | none => .error .invalid

end Toml

end CloneDetection

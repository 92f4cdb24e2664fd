import CloneDetection.Text.Basic

/-!
# Globs

A star stands for any text, slashes included, a question mark for any character, and brackets for
one character of a set; a set that starts with an exclamation mark is taken the other way round.
There is no way to escape a character other than a set of it. A bracket that nothing closes is
itself.

In a set a hyphen between two characters makes a range. A range whose ends are out of order is
dropped, both ends with it. An empty set matches nothing.
-/
namespace CloneDetection

namespace Glob

inductive Token where
  | star
  | any
  | literal (c : Char)
  | oneOf (negated : Bool) (ranges : List (Char × Char))
  deriving DecidableEq, Repr

/-- The start of a set that may hold a closing bracket as a member, and the rest. -/
def lead : Text → Text × Text
  | '!' :: ']' :: rest => (['!', ']'], rest)
  | '!' :: rest => (['!'], rest)
  | ']' :: rest => ([']'], rest)
  | rest => ([], rest)

theorem length_lead (t : Text) : (lead t).2.length ≤ t.length := by
  unfold lead
  split <;> simp only [List.length_cons] <;> omega

/-- What stands between an opening bracket, already read, and the one that closes it. -/
def bracket? (t : Text) : Option (Text × Text) :=
  (Text.cut? ']' (lead t).2).map fun (body, after) => ((lead t).1 ++ body, after)

theorem length_of_bracket? {t body after : Text} (h : bracket? t = some (body, after)) :
    after.length < t.length := by
  simp only [bracket?, Option.map_eq_some_iff, Prod.exists, Prod.mk.injEq] at h
  obtain ⟨b, a, hcut, -, rfl⟩ := h
  have hlen := congrArg List.length (Text.cut?_eq_some hcut).1
  have := length_lead t
  simp only [List.length_append, List.length_cons] at hlen
  omega

/-- The body of a set cut at the hyphens of its ranges. A hyphen among the first `skip` characters
stands for itself. -/
def chunks (skip : Nat) (body : Text) : List Text :=
  match _h : Text.cut? '-' (body.drop skip) with
  | none => [body]
  | some (before, after) => (body.take skip ++ before) :: chunks 2 after
termination_by body.length
decreasing_by
  have hlen := congrArg List.length (Text.cut?_eq_some _h).1
  simp only [List.length_drop, List.length_append, List.length_cons] at hlen
  omega

/-- A hyphen at the very end stands for itself. -/
def closeLast : List Text → List Text
  | [] => []
  | [chunk] => [chunk]
  | [chunk, []] => [chunk ++ ['-']]
  | chunk :: rest => chunk :: closeLast rest

/-- Drops a range, if its ends are out of order. -/
def joinChunk (chunk : Text) : List Text → List Text
  | [] => [chunk]
  | next :: rest =>
    match chunk.getLast?, next with
    | some low, high :: more =>
      if high < low then (chunk.dropLast ++ more) :: rest else chunk :: next :: rest
    | _, _ => chunk :: next :: rest

/-- The single characters of a chunk, and the range from its last character to the next chunk. -/
def ranges : List Text → List (Char × Char)
  | [] => []
  | [chunk] => chunk.map fun c => (c, c)
  | chunk :: next :: rest =>
    match chunk.getLast?, next with
    | some low, high :: more =>
      (chunk.dropLast.map fun c => (c, c)) ++ (low, high) :: ranges (more :: rest)
    | _, _ => (chunk.map fun c => (c, c)) ++ ranges (next :: rest)
termination_by l => l.length

/-- After an exclamation mark in front, the hyphen of a range that would start with it stands for
itself. -/
def setToken (body : Text) : Token :=
  let cut := closeLast (chunks (if body.head? = some '!' then 2 else 1) body)
  match cut.foldr joinChunk [] with
  | [['!']] => .any
  | ['!'] :: rest => .oneOf true (('-', '-') :: ranges rest)
  | ('!' :: first) :: rest => .oneOf true (ranges (first :: rest))
  | parts => .oneOf false (ranges parts)

def parse (pattern : Text) : List Token :=
  match pattern with
  | [] => []
  | '*' :: rest => .star :: parse rest
  | '?' :: rest => .any :: parse rest
  | '[' :: rest =>
    match _h : bracket? rest with
    | some (body, after) => setToken body :: parse after
    | none => .literal '[' :: parse rest
  | c :: rest => .literal c :: parse rest
termination_by pattern.length
decreasing_by
  all_goals simp only [List.length_cons]
  all_goals first
    | omega
    | have h := length_of_bracket? _h
      omega

def Token.admits : Token → Char → Bool
  | .star, _ => false
  | .any, _ => true
  | .literal d, c => c == d
  | .oneOf negated ranges, c => ranges.any (fun (low, high) => low ≤ c && c ≤ high) != negated

/-- For every end of the text, the whole text first and the empty one last, whether the tokens match
it. -/
def row (t : Text) : List Token → List Bool
  | [] => t.map (fun _ => false) ++ [true]
  | .star :: rest => ((row t rest).scanr (· || ·) false).dropLast
  | token :: rest => List.zipWith (fun c ok => token.admits c && ok) t (row t rest).tail ++ [false]

end Glob

def globMatches (pattern t : Text) : Bool :=
  ((Glob.row t (Glob.parse pattern)).head?).getD false

end CloneDetection

import CloneDetection.Text.Word

/-!
# Blinding

A text falls into maximal runs of word characters and of other characters. Blinding puts one
placeholder for every run that reads as an identifier, so texts that differ only in their
identifiers become equal.
-/
namespace CloneDetection

/-- Words that are kept as they are: control flow, declarations, modifiers, literals and the like of
the languages that are scanned. -/
def keywords : List Text :=
  ["if", "else", "elif", "for", "while", "do", "switch", "case", "break", "continue", "return",
   "yield", "throw", "try", "catch", "finally", "except", "raise", "pass",
   "func", "function", "def", "fn", "var", "let", "const", "val", "type", "class", "struct", "enum",
   "interface", "trait", "impl", "module", "package", "namespace", "lambda",
   "public", "private", "protected", "static", "final", "abstract", "override", "virtual", "async",
   "await", "mut", "pub",
   "true", "false", "nil", "null", "none", "True", "False", "None", "self", "this", "super", "new",
   "range", "in", "not", "and", "or", "is", "as", "with", "from", "select", "defer", "go", "chan",
   "map", "end"].map String.toList

/-- Puts a character in front of the first run, or of all runs if it is not of the first one's
kind. -/
def consRun (c : Char) : List Text → List Text
  | (d :: run) :: rest =>
    if isWord c = isWord d then (c :: d :: run) :: rest else [c] :: (d :: run) :: rest
  | rest => [c] :: rest

/-- Maximal runs of characters that are all word characters or all not. -/
def Text.runs (t : Text) : List Text :=
  t.foldr consRun []

theorem flatten_consRun (c : Char) (runs : List Text) :
    (consRun c runs).flatten = c :: runs.flatten := by
  unfold consRun
  split
  · split <;> simp
  · simp

theorem Text.flatten_runs (t : Text) : t.runs.flatten = t := by
  induction t with
  | nil => rfl
  | cons c t ih => exact (flatten_consRun c (Text.runs t)).trans (congrArg (c :: ·) ih)

/-- A run that starts with an ASCII letter or a low line and is no keyword. -/
def isRenamable (run : Text) : Bool :=
  run.head?.any (fun c => c.isAlpha || c == '_') && !keywords.contains run

def placeholder : Text :=
  "ID".toList

def blindRun (run : Text) : Text :=
  if isRenamable run then placeholder else run

def blind (t : Text) : Text :=
  t.runs.flatMap blindRun

end CloneDetection

import CloneDetection.Text.Word

/-!
# Comment and import lines

A line is put into a category by how it starts. Letters of the words are compared without case,
where the dotted and the dotless i count as an i and the long s as an s. Blanks and the text between
words are taken in maximal runs, so no choice is ever undone.
-/
namespace CloneDetection

inductive LineCategory where
  | comment
  | importing
  deriving DecidableEq, Repr

namespace LineCategory

/-- Whether `c` is the lower-case ASCII letter `letter` up to case. -/
def sameLetter (letter c : Char) : Bool :=
  c.toLower == letter || (letter == 'i' && (c == '\u0130' || c == '\u0131')) ||
  (letter == 's' && c == '\u017F')

def afterWord? : Text → Text → Option Text
  | [], t => some t
  | _ :: _, [] => none
  | letter :: word, c :: t => if sameLetter letter c then afterWord? word t else none

/-- What follows the longest run of characters of a class, if there is one. -/
def afterRun? (p : Char → Bool) : Text → Option Text
  | [] => none
  | c :: t => if p c then some (t.dropWhile p) else none

def startsWith (p : Char → Bool) (t : Text) : Bool :=
  t.head?.any p

def isComment (t : Text) : Bool :=
  ["//", "#", "/*", "*/", "--"].any (·.toList.isPrefixOf t) ||
    match t with
    | '*' :: rest => rest.isEmpty || startsWith isBlank rest
    | _ => false

def isRequire (t : Text) : Bool :=
  match afterWord? "require".toList t with
  | some rest => startsWith (· == '(') (Text.trimLeft rest)
  | none => false

def isDirective (t : Text) : Bool :=
  ["import", "include", "using", "use"].any fun word =>
    (afterWord? word.toList t).any (startsWith isBlank)

def isFromImport (t : Text) : Bool :=
  let ending := do
    let rest ← afterWord? "from".toList t
    let rest ← afterRun? isBlank rest
    let rest ← afterRun? (!isBlank ·) rest
    let rest ← afterRun? isBlank rest
    afterWord? "import".toList rest
  ending.any fun rest => !startsWith isWord rest

def isBinderChar (c : Char) : Bool :=
  isWord c || isBlank c || c == '{' || c == '}' || c == ','

/-- A binding by `require`: at least a blank and one more character before the equals sign. -/
def isRequireBinding (t : Text) : Bool :=
  ["const", "let", "var"].any fun word =>
    match afterWord? word.toList t with
    | some (c :: d :: rest) =>
      isBlank c && isBinderChar d &&
        match rest.dropWhile isBinderChar with
        | '=' :: rest => isRequire (Text.trimLeft rest)
        | _ => false
    | _ => false

def isImporting (t : Text) : Bool :=
  isDirective t || isFromImport t || isRequire t || isRequireBinding t

def classify? (t : Text) : Option LineCategory :=
  if isComment t then some .comment else if isImporting t then some .importing else none

end LineCategory

end CloneDetection

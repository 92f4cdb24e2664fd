import CloneDetection.Path.Basic
import CloneDetection.Text.Lower

/-!
# Languages

Which files are compared is decided by their extension, and which language a file is in by a lexer
that the host finds for its name, if it has one. A language answers to the name of its lexer and to
all aliases, letter case aside.
-/
namespace CloneDetection

/-- What a host calls a language. Its names are ASCII words, which is what `Text.lower` is for. -/
structure Lexer where
  name : Text
  aliases : List Text
  ascii : (name :: aliases).all (·.all fun c => c.toNat < 0x80) = true := by decide
  deriving DecidableEq, Repr

abbrev Lexers := Text → Option Lexer

def Lexer.names (lexer : Lexer) : List Text :=
  (lexer.name :: lexer.aliases).map Text.lower

namespace Language

def sourceExtensions : List Text :=
  [".go", ".js", ".ts", ".jsx", ".tsx", ".py", ".rb", ".java", ".cs", ".rs", ".cpp", ".c", ".h",
    ".hpp",
   ".swift", ".kt", ".scala", ".php", ".ex", ".exs"].map String.toList

def isSourceExtension (extension : Text) : Bool :=
  sourceExtensions.contains extension

/-- Whether a lexer is for one of the languages. -/
def isOneOf (languages : List Text) (lexer : Lexer) : Bool :=
  languages.any fun l => lexer.names.contains l.lower

/-- Whether a file is in one of the languages; every file is if none are given. -/
def admits (lexers : Lexers) (languages : List Text) (path : Text) : Bool :=
  languages.isEmpty || (lexers (Path.baseName path)).any (isOneOf languages)

end Language

end CloneDetection

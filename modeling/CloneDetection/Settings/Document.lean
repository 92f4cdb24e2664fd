import CloneDetection.Settings.Layer
import CloneDetection.Text.Utf8
import CloneDetection.Toml.Reading

/-!
# Settings from a document

A document may hold settings in the table `clonewatch` of its table `tool`. Without that table it
gives the empty layer.
-/
namespace CloneDetection

inductive DocumentError where
  | notUtf8
  | toml (fault : Toml.Fault)
  /-- There is a `tool` that is not a table. -/
  | toolNotTable
  | settings (e : SettingsError)
  deriving Repr

namespace DocumentError

def tooManyDigitsMessage (count : Nat) : Text :=
  "Exceeds the limit (".toList ++ Text.natural Numeral.maxDigits ++
    " digits) for integer string conversion: value has ".toList ++ Text.natural count ++
    " digits; use sys.set_int_max_str_digits() to increase the limit".toList

/-- What is said of the file at `path`; some errors have no message of their own. -/
def message? (path : Text) : DocumentError → Option Text
  | .toml .invalid => some ("Invalid TOML in ".toList ++ path)
  | .toml (.tooManyDigits count) => some (tooManyDigitsMessage count)
  | .settings e => e.message?
  | .toml .tooDeep | .notUtf8 | .toolNotTable => none

end DocumentError

namespace Layer

def ofDocument (entries : List (Text × Value)) : Except DocumentError Layer :=
  match entries.lookup "tool".toList with
  | none => .ok []
  | some (.table tools) =>
    match tools.lookup "clonewatch".toList with
    | none => .ok []
    | some (.table entries) => (ofEntries entries).mapError .settings
    | some _ => .error (.settings .notTable)
  | some _ => .error .toolNotTable

def ofBytes (content : Bytes) : Except DocumentError Layer :=
  match Utf8.decode? content with
  | none => .error .notUtf8
  | some t =>
    match Toml.read t with
    | .ok entries => ofDocument entries
    | .error fault => .error (.toml fault)

/-- The layer of a file, which may be missing. -/
def ofFile (content? : Option Bytes) : Except DocumentError Layer :=
  match content? with
  | some content => ofBytes content
  | none => .ok []

end Layer

end CloneDetection

import CloneDetection.Settings.Value

/-!
# Fields of a configuration

Every field has a key, under which a document gives it, and a domain. `convert` takes the values of
the domain and brings them into one shape: patterns into tuples and numbers with a fraction into
doubles.
-/
namespace CloneDetection

inductive Field where
  | excludes
  | includes
  | languages
  | minConfidence
  | maxFindings
  | format
  | workers
  | timeout
  deriving DecidableEq, Repr

namespace Field

def all : List Field :=
  [.excludes, .includes, .languages, .minConfidence, .maxFindings, .format, .workers, .timeout]

theorem mem_all (f : Field) : f ∈ all := by
  cases f <;> decide

def name : Field → Text
  | .excludes => "exclude_patterns".toList
  | .includes => "include_patterns".toList
  | .languages => "languages".toList
  | .minConfidence => "min_confidence".toList
  | .maxFindings => "max_findings".toList
  | .format => "output_format".toList
  | .workers => "workers".toList
  | .timeout => "timeout".toList

def key : Field → Text
  | .excludes => "exclude".toList
  | .includes => "include".toList
  | .languages => "languages".toList
  | .minConfidence => "min-confidence".toList
  | .maxFindings => "max-findings".toList
  | .format => "format".toList
  | .workers => "workers".toList
  | .timeout => "timeout".toList

def ofName? (name : Text) : Option Field :=
  all.find? (·.name == name)

def ofKey? (key : Text) : Option Field :=
  all.find? (·.key == key)

theorem ofName?_name (f : Field) : ofName? f.name = some f := by
  cases f <;> decide

theorem ofKey?_key (f : Field) : ofKey? f.key = some f := by
  cases f <;> decide

theorem name_of_ofName? {n : Text} {f : Field} (h : ofName? n = some f) : f.name = n := by
  simpa using List.find?_some h

theorem key_of_ofKey? {k : Text} {f : Field} (h : ofKey? k = some f) : f.key = k := by
  simpa using List.find?_some h

/-- Whether the field holds patterns or names that add up over several sources. -/
def accumulates : Field → Bool
  | .excludes | .includes | .languages => true
  | _ => false

def default : Field → Value
  | .excludes | .includes | .languages => .tuple []
  | .minConfidence | .timeout => .double .zero
  | .maxFindings => .integer 200
  | .format => .text "human".toList
  | .workers => .integer 1

end Field

inductive Refusal where
  | notInteger (given : Value)
  | belowOne (given : Int)
  | notNumber (given : Value)
  /-- An integer past the largest double. -/
  | pastDoubles (given : Int)
  | outsideUnit (given : Numeric)
  | negative (given : Numeric)
  | notText (given : Value)
  | notFormat (given : Text)
  | notTexts
  | noField
  deriving Repr

namespace Refusal

def sectionName : Text :=
  "[tool.clonewatch]".toList

/-- What is said of the value under a key; an integer past the doubles has no message of its own. -/
def message? (key : Text) (refusal : Refusal) : Option Text :=
  let about (rest : Text) : Option Text :=
    some (sectionName ++ " '".toList ++ key ++ "' ".toList ++ rest)
  match refusal with
  | .notInteger v => about ("must be an integer, got ".toList ++ v.typeName)
  | .belowOne n => about ("must be at least 1, got ".toList ++ Text.integer n)
  | .notNumber v => about ("must be a number, got ".toList ++ v.typeName)
  | .pastDoubles _ => none
  | .outsideUnit n => about ("must be between 0 and 1, got ".toList ++ n.write)
  | .negative n => about ("must not be negative, got ".toList ++ n.write)
  | .notText v => about ("must be a string, got ".toList ++ v.typeName)
  | .notFormat t => about ("must be 'human' or 'json', got '".toList ++ t ++ ['\''])
  | .notTexts => about "must be a list of strings".toList
  | .noField => some (sectionName ++ " unhandled field '".toList ++ key ++ ['\''])

end Refusal

namespace Field

def formats : List Text :=
  ["human".toList, "json".toList]

/-- A positive integer. -/
def convertCount (v : Value) : Except Refusal Value :=
  match v with
  | .numeric (.whole n) => if n < 1 then .error (.belowOne n) else .ok v
  | v => .error (.notInteger v)

/-- A number as it is given, and the double nearest to it. -/
def convertNumber : Value → Except Refusal (Numeric × Double)
  | .numeric (.double x) => .ok (.double x, x)
  | .numeric (.whole n) =>
    match Double.ofInt? n with
    | some x => .ok (.whole n, x)
    | none => .error (.pastDoubles n)
  | v => .error (.notNumber v)

def convertConfidence (v : Value) : Except Refusal Value := do
  let (n, x) ← convertNumber v
  if Double.zero ≤ x ∧ x ≤ .ofDecimal false 1 0 then return .double x
  throw (.outsideUnit n)

def convertTimeout (v : Value) : Except Refusal Value := do
  let (n, x) ← convertNumber v
  if x < .zero then throw (.negative n)
  return .double x

def convertFormat (v : Value) : Except Refusal Value :=
  match v with
  | .text t => if formats.contains t then .ok v else .error (.notFormat t)
  | v => .error (.notText v)

def convertTexts (v : Value) : Except Refusal Value :=
  match v with
  | .list items =>
    match items.mapM Value.text? with
    | some texts => .ok (.ofTexts texts)
    | none => .error .notTexts
  | _ => .error .notTexts

def convert (field : Field) (v : Value) : Except Refusal Value :=
  match field with
  | .maxFindings | .workers => convertCount v
  | .minConfidence => convertConfidence v
  | .timeout => convertTimeout v
  | .format => convertFormat v
  | .excludes | .includes | .languages => convertTexts v

def convertNamed (name : Text) (v : Value) : Except Refusal Value :=
  match ofName? name with
  | some field => field.convert v
  | none => .error .noField

end Field

end CloneDetection

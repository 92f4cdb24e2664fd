import CloneDetection.Entries
import CloneDetection.Settings.Field

/-!
# Layers of a configuration

A layer gives values to some names. The entries of the command line are laid over the layer of the
document one after another: each takes the place of what stands under its name, except that a tuple
of a field that accumulates goes behind the document's tuple. A configuration is made of the names
that come out; it refuses those that are no field, and a field that is not named has its default.
-/
namespace CloneDetection

abbrev Layer := List (Text × Value)

inductive SettingsError where
  | unknownKey (key : Text)
  | refused (key : Text) (refusal : Refusal)
  | notTable
  deriving Repr

namespace SettingsError

def message? : SettingsError → Option Text
  | .unknownKey key => some (Refusal.sectionName ++ " unknown key '".toList ++ key ++ ['\''])
  | .refused key refusal => refusal.message? key
  | .notTable => some (Refusal.sectionName ++ " must be a table".toList)

end SettingsError

namespace Layer

def readEntry : Text × Value → Except SettingsError (Text × Value)
  | (key, v) =>
    match Field.ofKey? key with
    | none => .error (.unknownKey key)
    | some field =>
      match field.convert v with
      | .ok converted => .ok (field.name, converted)
      | .error refusal => .error (.refused key refusal)

/-- The layer that the entries of a table give. -/
def ofEntries (entries : List (Text × Value)) : Except SettingsError Layer :=
  entries.mapM readEntry

def get? (layer : Layer) (field : Field) : Option Value :=
  layer.lookup field.name

end Layer

structure Configuration where
  value : Field → Value

inductive MergeError where
  | notTuple (name : Text)
  | noField (name : Text)
  deriving Repr

namespace Configuration

/-- The names under which tuples of both layers add up. -/
def tupleNames : List Text :=
  ["exclude_patterns", "include_patterns", "languages"].map String.toList

/-- Lays one entry over what is merged so far. -/
def lay (document merged : Layer) (entry : Text × Value) : Except MergeError Layer :=
  let (name, given) := entry
  if tupleNames.contains name then
    match document.lookup name with
    | some present =>
      match present, given with
      | .tuple a, .tuple b => .ok (setEntry merged name (.tuple (a ++ b)))
      | _, _ => .error (.notTuple name)
    | none => .ok (setEntry merged name given)
  else .ok (setEntry merged name given)

/-- The configuration with these values; what is not given has its default. -/
def ofLayer (layer : Layer) : Except MergeError Configuration :=
  match layer.find? fun e => (Field.ofName? e.1).isNone with
  | some (name, _) => .error (.noField name)
  | none => .ok ⟨fun field => (layer.get? field).getD field.default⟩

def merge (commandLine document : Layer) : Except MergeError Configuration := do
  ofLayer (← commandLine.foldlM (lay document) (update [] document))

end Configuration

end CloneDetection

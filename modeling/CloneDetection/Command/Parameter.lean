import CloneDetection.Settings.Layer

/-!
# Parameters of the command

Every field of a configuration has a parameter. An option of the command line gives its value, or
the host finds one elsewhere, and with the values the host tells where they come from. Only what
stands on the command line itself makes up the upper layer of a configuration: some parameters have
names of their own there, and their values become tuples.
-/
namespace CloneDetection

namespace Command

inductive Domain where
  | text
  /-- A number from zero to one. -/
  | unit
  /-- A number that is not negative. -/
  | duration
  /-- A whole number above zero. -/
  | count
  | format
  deriving DecidableEq, Repr

structure Parameter where
  name : Text
  /-- The option that gives its value. -/
  option : Text
  domain : Domain
  default : Value
  /-- Whether the option may be given several times, which makes up a tuple. -/
  repeatable : Bool := false
  deriving Repr

def parameters : List Parameter :=
  [⟨"exclude".toList, "--exclude".toList, .text, .tuple [], true⟩,
   ⟨"include".toList, "--include".toList, .text, .tuple [], true⟩,
   ⟨"languages".toList, "--languages".toList, .text, .tuple [], true⟩,
   ⟨"min_confidence".toList, "--min-confidence".toList, .unit, .double .zero, false⟩,
   ⟨"max_findings".toList, "--max-findings".toList, .count, .integer 200, false⟩,
   ⟨"output_format".toList, "--format".toList, .format, .text "human".toList, false⟩,
   ⟨"workers".toList, "--workers".toList, .count, .integer 1, false⟩,
   ⟨"timeout".toList, "--timeout".toList, .duration, .double .zero, false⟩]

inductive Source where
  | commandLine
  | environment
  | default
  | defaultMap
  | prompt
  deriving DecidableEq, Repr

/-- The values of the parameters by name, and where each comes from, as far as this is known. -/
structure Keywords where
  values : List (Text × Value)
  source : Text → Option Source

/-- The parameters that give tuples, with the names of their fields. -/
def tupleOptions : List (Text × Text) :=
  [("exclude".toList, "exclude_patterns".toList), ("include".toList, "include_patterns".toList),
   ("languages".toList, "languages".toList)]

inductive KeywordError where
  /-- There is nothing that a tuple could be made of. -/
  | noItems (name : Text)
  deriving Repr

namespace Keywords

/-- Takes one more value, if it stands on the command line. -/
def collect (k : Keywords) (layer : Layer) (keyword : Text × Value) : Except KeywordError Layer :=
  let (name, value) := keyword
  if k.source name = some .commandLine then
    match tupleOptions.lookup name with
    | some fieldName =>
      match value.parts? with
      | some items => .ok (setEntry layer fieldName (.tuple items))
      | none => .error (.noItems name)
    | none => .ok (setEntry layer name value)
  else .ok layer

/-- The layer of what stands on the command line. -/
def explicit (k : Keywords) : Except KeywordError Layer :=
  k.values.foldlM k.collect []

end Keywords

end Command

end CloneDetection

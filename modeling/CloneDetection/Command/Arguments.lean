import CloneDetection.Command.Parameter
import CloneDetection.Double.Reading

/-!
# Arguments of the command line

A word with two hyphens in front names an option. The option of a parameter takes a value: what
stands behind an equals sign, or else the next argument, whatever that is. Other words are
positional, and after `--` all are. A repeatable option adds up; otherwise the last value counts.
`keywords` are what the arguments give all parameters, and the parameters that they do not name have
their defaults.
-/
namespace CloneDetection

namespace Command

inductive UsageError where
  | noSuchOption (name : Text)
  /-- An option lacks its value, or has one that it does not take. -/
  | badOption (name : Text)
  | badValue (option : Text) (value : Text)
  /-- What is given for the path is no path at all. -/
  | noPath
  | badPath (path : Text)
  | extraArgument (argument : Text)
  deriving DecidableEq, Repr

/-- What is printed instead of a scan. -/
inductive Notice where
  | version
  | help
  deriving DecidableEq, Repr

structure Arguments where
  notices : List Notice := []
  /-- The texts given to parameters, by name. -/
  values : List (Text × Text) := []
  words : List Text := []
  /-- How often a more detailed log was asked for. -/
  verbosity : Nat := 0
  deriving DecidableEq, Repr

inductive Switch where
  | valued (parameter : Parameter) (value? : Option Text)
  | verbose (times : Nat)
  | notice (n : Notice)
  deriving Repr

def flags : List (Text × Switch) :=
  [("--version".toList, .notice .version), ("--help".toList, .notice .help),
    ("--verbose".toList, .verbose 1)]

def cluster (letters : Text) : Except UsageError Switch :=
  match letters.find? (· != 'v') with
  | some c => .error (.noSuchOption ['-', c])
  | none => .ok (.verbose letters.length)

def readSwitch (argument : Text) : Except UsageError Switch :=
  let (name, value?) := match Text.cut? '=' argument with
    | some (name, value) => (name, some value)
    | none => (argument, none)
  match parameters.find? (·.option == name), flags.lookup name with
  | some parameter, _ => .ok (.valued parameter value?)
  | none, some flag => if value?.isSome then .error (.badOption name) else .ok flag
  | none, none => if ['-', '-'].isPrefixOf argument then .error (.noSuchOption name) else
      cluster argument.tail

namespace Arguments

def give (a : Arguments) (p : Parameter) (value : Text) : Arguments :=
  { a with values := a.values ++ [(p.name, value)] }

/-- Reads on where some arguments have been read and an option may wait for its value. -/
def readFrom (a : Arguments) : Option Parameter → List Text → Except UsageError Arguments
  | none, [] => .ok a
  | some p, [] => .error (.badOption p.option)
  | some p, value :: rest => (a.give p value).readFrom none rest
  | none, argument :: rest =>
    if argument = ['-', '-'] then .ok { a with words := a.words ++ rest }
    else if argument.head? = some '-' ∧ argument ≠ ['-'] then
      match readSwitch argument with
      | .error e => .error e
      | .ok (.valued p (some value)) => (a.give p value).readFrom none rest
      | .ok (.valued p none) => a.readFrom (some p) rest
      | .ok (.verbose times) => { a with verbosity := a.verbosity + times }.readFrom none rest
      | .ok (.notice n) => { a with notices := a.notices ++ [n] }.readFrom none rest
    else { a with words := a.words ++ [argument] }.readFrom none rest

def read (arguments : List Text) : Except UsageError Arguments :=
  Arguments.readFrom {} none arguments

def textsOf (a : Arguments) (p : Parameter) : List Text :=
  (a.values.filter (·.1 = p.name)).map Prod.snd

end Arguments

def Domain.read? (domain : Domain) (t : Text) : Option Value :=
  match domain with
  | .text => some (.text t)
  | .unit => (Double.read? t).bind fun x =>
    if x < .zero ∨ .ofDecimal false 1 0 < x then none else some (.double x)
  | .duration => (Double.read? t).bind fun x => if x < .zero then none else some (.double x)
  | .count => (Numeral.integer? t).bind fun n => if n < 1 then none else some (.integer n)
  | .format => if Field.formats.contains t then some (.text t) else none

namespace Arguments

def valueOf (a : Arguments) (p : Parameter) : Except UsageError Value :=
  let given := a.textsOf p
  if p.repeatable then .ok (.ofTexts given)
  else
    match given.getLast? with
    | none => .ok p.default
    | some last =>
      match p.domain.read? last with
      | some v => .ok v
      | none => .error (.badValue p.option last)

def sourceOf (a : Arguments) (name : Text) : Option Source :=
  if a.values.any (·.1 = name) then some .commandLine
  else if parameters.any (·.name = name) then some .default
  else none

/-- What the arguments give all parameters. -/
def keywords (a : Arguments) : Except UsageError Keywords := do
  let values ← parameters.mapM fun p => do return (p.name, ← a.valueOf p)
  return ⟨values, a.sourceOf⟩

end Arguments

end Command

end CloneDetection

import CloneDetection.Collector.Duplication
import CloneDetection.Settings.Layer

/-!
# Settings

The settings of a scan: what its collectors are told, how the report is written, and after how many
seconds it is given up. They are read off a configuration, whose fields may hold values of more
types than a document gives: truth values count as the numbers one and zero, a text of patterns as
its single characters, and an empty value as nothing wherever nothing is allowed. A value that is of
no use is at fault when the scan comes to it.
-/
namespace CloneDetection

inductive Format where
  | human
  | json
  deriving DecidableEq, Repr

namespace Format

/-- Whatever does not name the JSON form stands for the other one. -/
def ofValue : Value → Format
  | .text t => if t = "json".toList then .json else .human
  | _ => .human

def write : Format → Report → Text
  | .human => Report.human
  | .json => Report.json

end Format

structure Settings where
  options : Options
  format : Format
  /-- In seconds. It is looked at when the token of a scan is made. -/
  timeout : Value

inductive TimeoutError where
  /-- It is neither empty nor a number. -/
  | mistyped
  /-- It is an integer past the largest double. -/
  | tooLarge
  deriving DecidableEq, Repr

namespace Value

def isEmpty : Value → Bool
  | .null => true
  | .bool b => !b
  | .numeric (.whole n) => n = 0
  | .numeric (.double x) => x.compare? .zero = some .eq
  | .text t => t.isEmpty
  | .moment _ => false
  | .list items | .tuple items => items.isEmpty
  | .table entries => entries.isEmpty

def numeric? : Value → Option Numeric
  | .numeric n => some n
  | .bool b => some (.whole (if b then 1 else 0))
  | _ => none

def given {α : Type} (read? : Value → Option α) (v : Value) : Given α :=
  match read? v with
  | some a => .ok a
  | none => .error .mistyped

/-- The texts that a value gives; an item that is no text has a fault of its own. -/
def givenTexts (other : Fault) (v : Value) : Given GivenTexts := do
  let items ← v.given parts?
  return items.map fun item => match item with
    | .text t => .ok t
    | _ => .error other

/-- A number of findings. Only a number that is not positive may have a fraction: it sets no
limit. -/
def limit? (v : Value) : Option Int :=
  match v.numeric? with
  | some (.whole n) => some n
  | some (.double x) => if .zero < x then none else some 0
  | none => none

/-- A number of workers, of which only counts whether there is more than one. -/
def workers? (v : Value) : Option Int :=
  match v.numeric? with
  | some (.whole n) => some n
  | some (.double x) => some (if .ofDecimal false 1 0 < x then 2 else 1)
  | none => none

end Value

def Configuration.settings (lexers : Lexers) (c : Configuration) : Settings where
  options := {
    lexers
    excludes := (c.value .excludes).givenTexts .mistyped
    includes :=
      if (c.value .includes).isEmpty then .ok [] else (c.value .includes).givenTexts .mistyped
    languages :=
      if (c.value .languages).isEmpty then .ok [] else (c.value .languages).givenTexts .noText
    minConfidence := Numeric.nearest <$> (c.value .minConfidence).given Value.numeric?
    maxFindings := (c.value .maxFindings).given Value.limit?
    workers := (c.value .workers).given Value.workers? }
  format := Format.ofValue (c.value .format)
  timeout := c.value .timeout

/-- The token of a scan that starts when the clock shows `now`. An empty timeout and one that is not
positive stand for no limit. -/
def Settings.token (s : Settings) (now : Double) : Except TimeoutError Token :=
  if s.timeout.isEmpty then .ok (Token.start now none)
  else
    match s.timeout.numeric? with
    | none => .error .mistyped
    | some (.double x) => .ok (Token.start now (some x))
    | some (.whole n) =>
      if n ≤ 0 then .ok (Token.start now none)
      else
        match Double.ofInt? n with
        | some x => .ok (Token.start now (some x))
        | none => .error .tooLarge

end CloneDetection

import CloneDetection.Double.Layout

/-!
# Values of settings

What a setting may be given as: by a document, by a command line, or by a caller. `typeName` is the
word for the type of a value that messages use.
-/
namespace CloneDetection

structure Date where
  year : Nat
  month : Nat
  day : Nat
  deriving DecidableEq, Repr

structure TimeOfDay where
  hour : Nat
  minute : Nat
  second : Nat
  microsecond : Nat
  deriving DecidableEq, Repr

inductive Moment where
  /-- The offset from universal time is in minutes. -/
  | dateTime (date : Date) (time : TimeOfDay) (offset? : Option Int)
  | date (date : Date)
  | time (time : TimeOfDay)
  deriving DecidableEq, Repr

/-- A number as it is given: whole, or with a fraction or an exponent. -/
inductive Numeric where
  | whole (n : Int)
  | double (x : Double)
  deriving DecidableEq, Repr

namespace Numeric

/-- The nearest double, infinite past the largest finite one. -/
def nearest : Numeric → Double
  | .whole n => (Double.ofInt? n).getD (.infinite (n < 0))
  | .double x => x

def write : Numeric → Text
  | .whole n => Text.integer n
  | .double x => x.write

end Numeric

inductive Value where
  | null
  | bool (value : Bool)
  | numeric (value : Numeric)
  | text (value : Text)
  | moment (value : Moment)
  | list (items : List Value)
  | tuple (items : List Value)
  | table (entries : List (Text × Value))
  deriving Repr

namespace Value

abbrev integer (n : Int) : Value :=
  .numeric (.whole n)

abbrev double (x : Double) : Value :=
  .numeric (.double x)

def typeName : Value → Text
  | .null => "NoneType".toList
  | .bool _ => "bool".toList
  | .numeric (.whole _) => "int".toList
  | .numeric (.double _) => "float".toList
  | .text _ => "str".toList
  | .moment (.dateTime _ _ _) => "datetime".toList
  | .moment (.date _) => "date".toList
  | .moment (.time _) => "time".toList
  | .list _ => "list".toList
  | .tuple _ => "tuple".toList
  | .table _ => "dict".toList

def text? : Value → Option Text
  | .text t => some t
  | _ => none

/-- The items that a value consists of. -/
def parts? : Value → Option (List Value)
  | .text t => some (t.map fun c => .text [c])
  | .table entries => some (entries.map fun (key, _) => .text key)
  | .list items | .tuple items => some items
  | _ => none

def texts? : Value → Option (List Text)
  | .list items | .tuple items => items.mapM text?
  | _ => none

def ofTexts (texts : List Text) : Value :=
  .tuple (texts.map .text)

theorem mapM_text?_map (texts : List Text) : (texts.map Value.text).mapM text? = some texts := by
  induction texts with
  | nil => rfl
  | cons t ts ih => simp [List.mapM_cons, text?, ih]

theorem texts?_ofTexts (texts : List Text) : (ofTexts texts).texts? = some texts :=
  mapM_text?_map texts

end Value

end CloneDetection

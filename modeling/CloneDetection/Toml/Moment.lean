import CloneDetection.Toml.Quoted

/-!
# Dates and times of a document

A date, a time of day, or both with a `T` or a space between them and perhaps an offset from
universal time after them. Of a fraction of a second six digits count. A date that the calendar does
not have is no value at all.
-/
namespace CloneDetection

namespace Toml

def fixed? (count : Nat) (t : Text) : Option (Nat × Text) :=
  let ds := t.take count
  if ds.length = count ∧ ds.all Char.isDigit then
    some (ds.foldl (fun n c => 10 * n + (c.toNat - '0'.toNat)) 0, t.drop count)
  else none

def pair? (low high : Nat) (t : Text) : Option (Nat × Text) :=
  match fixed? 2 t with
  | some (n, rest) => if low ≤ n ∧ n ≤ high then some (n, rest) else none
  | none => none

def after? (c : Char) : Text → Option Text
  | d :: rest => if d = c then some rest else none
  | [] => none

def isLeap (year : Nat) : Bool :=
  year % 4 == 0 && (year % 100 != 0 || year % 400 == 0)

def daysIn (year month : Nat) : Nat :=
  if month = 2 then (if isLeap year then 29 else 28)
  else if [4, 6, 9, 11].contains month then 30 else 31

def onCalendar (d : Date) : Bool :=
  0 < d.year && d.day ≤ daysIn d.year d.month

def date? (t : Text) : Option (Date × Text) := do
  let (year, rest) ← fixed? 4 t
  let (month, rest) ← pair? 1 12 (← after? '-' rest)
  let (day, rest) ← pair? 1 31 (← after? '-' rest)
  return (⟨year, month, day⟩, rest)

def microsecond (t : Text) : Nat × Text :=
  match t with
  | '.' :: rest =>
    let ds := rest.takeWhile Char.isDigit
    if ds.isEmpty then (0, t)
    else
      let six := (ds ++ List.replicate 6 '0').take 6
      (((fixed? 6 six).map Prod.fst).getD 0, rest.dropWhile Char.isDigit)
  | _ => (0, t)

def time? (t : Text) : Option (TimeOfDay × Text) := do
  let (hour, rest) ← pair? 0 23 t
  let (minute, rest) ← pair? 0 59 (← after? ':' rest)
  let (second, rest) ← pair? 0 59 (← after? ':' rest)
  let (micro, rest) := microsecond rest
  return (⟨hour, minute, second, micro⟩, rest)

/-- The offset from universal time in minutes. -/
def offset? : Text → Option (Int × Text)
  | c :: rest =>
    if c = 'Z' ∨ c = 'z' then some (0, rest)
    else if c = '+' ∨ c = '-' then do
      let (hours, rest) ← pair? 0 23 rest
      let (minutes, rest) ← pair? 0 59 (← after? ':' rest)
      let n : Int := 60 * hours + minutes
      return (if c = '-' then -n else n, rest)
    else none
  | [] => none

def timeAfterDate? : Text → Option (TimeOfDay × Text)
  | c :: rest => if c = 'T' ∨ c = 't' ∨ c = ' ' then time? rest else none
  | [] => none

/-- The date or time that the text starts with, if it does. -/
def moment? (t : Text) : Option (Except Fault (Reading Value)) :=
  match date? t with
  | some (date, rest) =>
    if !onCalendar date then some (.error .invalid)
    else
      match timeAfterDate? rest with
      | some (time, rest) =>
        match offset? rest with
        | some (offset, rest) => some (.ok (.moment (.dateTime date time (some offset)), rest))
        | none => some (.ok (.moment (.dateTime date time none), rest))
      | none => some (.ok (.moment (.date date), rest))
  | none => (time? t).map fun (time, rest) => .ok (.moment (.time time), rest)

end Toml

end CloneDetection

import CloneDetection.Scan.Cancellation
import CloneDetection.Scan.Event
import CloneDetection.Text.Utf8

/-!
# Scans

A scan is a program that checks for cancellation, notes events and reads files; a host answers it.
A check that finds a cancellation ends the scan. `Scan.run` lets any host answer, `Host.recorded` is
the host in memory, and `run_bind` says that a scan runs part after part.
-/
namespace CloneDetection

/-- What can go wrong inside a scan apart from cancellation. -/
inductive Fault where
  | alreadyIndexed (path : Text)
  | noSuchWindow
  | noLocation
  | tooManyLocations
  | unknownCollector (name : Text) (known : List Text)
  /-- The root of a scan is no path at all. -/
  | unusableRoot
  /-- A setting is of another type than it should be. -/
  | mistyped
  /-- The name of a language is no text. -/
  | noText
  deriving DecidableEq, Repr

inductive Halt where
  | cancelled (cause : Cancellation)
  | fault (fault : Fault)
  deriving DecidableEq, Repr

inductive Scan (α : Type) where
  | done (value : α)
  | fail (fault : Fault)
  | check (next : Unit → Scan α)
  | note (event : Event) (next : Unit → Scan α)
  /-- Reads a file, only its first bytes if there is a limit; nothing is what an unreadable one
  gives. -/
  | read (path : Text) (limit? : Option Nat) (next : Option Bytes → Scan α)

namespace Scan

variable {α β : Type}

def bind : Scan α → (α → Scan β) → Scan β
  | .done a, f => f a
  | .fail e, _ => .fail e
  | .check next, f => .check fun u => (next u).bind f
  | .note e next, f => .note e fun u => (next u).bind f
  | .read path limit? next, f => .read path limit? fun answer => (next answer).bind f

instance : Monad Scan where
  pure := .done
  bind := .bind

def checkpoint : Scan Unit :=
  .check fun _ => .done ()

def emit (event : Event) : Scan Unit :=
  .note event fun _ => .done ()

def readHead (path : Text) (size : Nat) : Scan (Option Bytes) :=
  .read path (some size) .done

def readAll (path : Text) : Scan (Option Bytes) :=
  .read path none .done

def ofExcept : Except Fault α → Scan α
  | .ok a => .done a
  | .error e => .fail e

def ofOption (fault : Fault) : Option α → Scan α
  | some a => .done a
  | none => .fail fault

end Scan

structure Host (m : Type → Type) where
  check : m (Option Cancellation)
  note : Event → m Unit
  read : Text → Option Nat → m (Option Bytes)

namespace Scan

variable {α β : Type} {m : Type → Type} [Monad m]

def run (host : Host m) : Scan α → m (Except Halt α)
  | .done a => pure (.ok a)
  | .fail e => pure (.error (.fault e))
  | .check next => do
    match ← host.check with
    | some cause => pure (.error (.cancelled cause))
    | none => (next ()).run host
  | .note event next => do
    host.note event
    (next ()).run host
  | .read path limit? next => do
    let answer ← host.read path limit?
    (next answer).run host

theorem run_bind [LawfulMonad m] (host : Host m) (s : Scan α) (f : α → Scan β) :
    (s.bind f).run host =
      s.run host >>= fun r => match r with
        | .ok a => (f a).run host
        | .error e => pure (.error e) := by
  induction s with
  | done a => simp [bind, run]
  | fail e => simp [bind, run]
  | check next ih =>
    simp only [bind, run, bind_assoc]
    congr 1
    funext c
    cases c with
    | none => exact ih ()
    | some cause => simp
  | note event next ih => simp only [bind, run, bind_assoc, ih]
  | read path limit? next ih => simp only [bind, run, bind_assoc, ih]

end Scan

structure Access where
  path : Text
  limit? : Option Nat
  deriving DecidableEq, Repr

/-- What an access gives, given the accesses before it, last first. -/
abbrev FileReader := List Access → Access → Option Bytes

/-- What a host in memory has seen, last first. -/
structure Record where
  checks : Nat := 0
  events : List Event := []
  accesses : List Access := []

/-- The host whose `n`-th check answers `signal n`. -/
def Host.recorded (signal : Nat → Option Cancellation) (reader : FileReader) :
    Host (StateM Record) where
  check := modifyGet fun r => (signal (r.checks + 1), { r with checks := r.checks + 1 })
  note e := modify fun r => { r with events := e :: r.events }
  read path limit? := modifyGet fun r =>
    (reader r.accesses ⟨path, limit?⟩, { r with accesses := ⟨path, limit?⟩ :: r.accesses })

end CloneDetection

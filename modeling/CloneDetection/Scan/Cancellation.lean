import CloneDetection.Double.Layout

/-!
# Cancellation

A token is cancelled by request, and then stays so, or by its deadline, as long as the clock shows a
time at or after it. A request takes precedence over the deadline.
-/
namespace CloneDetection

inductive Cancellation where
  | requested
  | timedOut (timeout : Double)
  deriving DecidableEq, Repr

def Cancellation.message : Cancellation → Text
  | .requested => "scan cancelled".toList
  | .timedOut timeout => "scan timed out after ".toList ++ timeout.writeBrief ++ ['s']

structure Token where
  requested : Bool
  timeout : Double
  deadline? : Option Double
  deriving DecidableEq, Repr

namespace Token

/-- A token made when the clock shows `now`. Only a positive timeout sets a deadline. -/
def start (now : Double) (timeout? : Option Double) : Token :=
  match timeout? with
  | some t => ⟨false, t, if .zero < t then some (now + t) else none⟩
  | none => ⟨false, .zero, none⟩

def cancel (token : Token) : Token :=
  { token with requested := true }

def isExpired (token : Token) (now : Double) : Bool :=
  token.deadline?.any (· ≤ now)

def isCancelled (token : Token) (now : Double) : Bool :=
  token.requested || token.isExpired now

def check (token : Token) (now : Double) : Option Cancellation :=
  if token.requested then some .requested
  else if token.isExpired now then some (.timedOut token.timeout)
  else none

theorem check_eq_none_iff {token : Token} {now : Double} :
    token.check now = none ↔ token.isCancelled now = false := by
  unfold check isCancelled
  cases token.requested <;> cases token.isExpired now <;> simp

end Token

end CloneDetection

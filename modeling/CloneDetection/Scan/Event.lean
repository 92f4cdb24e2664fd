import CloneDetection.Text.Basic

/-!
# Events of a scan

What a scan reports while it runs. Every event is a line of the log; the two of level `info` are
progress messages as well.
-/
namespace CloneDetection

inductive Event where
  | running (collector root : Text)
  | linkOutside (path : Text)
  | binary (path : Text)
  | generated (path : Text)
  | fileCap (limit : Int)
  | discovered (files : Nat) (root : Text)
  | unreadable (path : Text)
  | scanned (files : Nat)
  | finished (files exact near : Nat)
  deriving DecidableEq, Repr

namespace Event

inductive Level where
  | debug
  | info
  deriving DecidableEq, Repr

def Level.name : Level → Text
  | .debug => "DEBUG".toList
  | .info => "INFO".toList

def level : Event → Level
  | .fileCap _ | .scanned _ => .info
  | _ => .debug

/-- The part of the program that an event comes from, as the log names it. -/
def source : Event → Text
  | .running _ _ => "clonewatch.pipeline".toList
  | .linkOutside _ | .binary _ | .generated _ | .fileCap _ => "clonewatch.discovery".toList
  | .discovered _ _ | .unreadable _ | .scanned _ | .finished _ _ _ =>
    "clonewatch.duplication".toList

/-- The text of an event; `elapsed` is the time that a finished scan took. -/
def message (elapsed : Text) : Event → Text
  | .running collector root => "running collector ".toList ++ collector ++ " on ".toList ++ root
  | .linkOutside path => "skipping symlink outside root: ".toList ++ path
  | .binary path => "skipping binary file: ".toList ++ path
  | .generated path => "skipping generated file: ".toList ++ path
  | .fileCap limit =>
    "file cap reached (".toList ++ Text.integer limit ++ " files), skipping remaining".toList
  | .discovered files root =>
    "discovered ".toList ++ Text.natural files ++ " candidate files in ".toList ++ root
  | .unreadable path => "skipping unreadable file ".toList ++ path
  | .scanned files => "duplication: scanned ".toList ++ Text.natural files ++ " files".toList
  | .finished files exact near =>
    "duplication: ".toList ++ Text.natural files ++ " files, ".toList ++ Text.natural exact ++
      " exact and ".toList ++ Text.natural near ++ " near clones in ".toList ++ elapsed

def logLine (elapsed : Text) (e : Event) : Text :=
  e.level.name ++ ' ' :: e.source ++ ": ".toList ++ e.message elapsed ++ ['\n']

/-- The message for a listener that follows the progress of a scan. -/
def progress? (e : Event) : Option Text :=
  match e.level with
  | .info => some (e.message [])
  | .debug => none

end Event

end CloneDetection

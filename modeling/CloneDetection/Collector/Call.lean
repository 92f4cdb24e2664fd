import CloneDetection.Collector.Duplication

/-!
# Calling the collector

A collector can be called again and again and keeps the metrics of the last collection that came to
its end. A call that is cancelled or at fault has no findings and leaves the metrics as they were.
-/
namespace CloneDetection

namespace Duplication

/-- What a call comes to. -/
structure Call where
  result : Except Halt (List Finding)
  /-- The metrics that the collector has afterwards. -/
  metrics? : Option Metrics
  record : Record

def Call.of (metrics? : Option Metrics) : Except Halt (List Finding × Metrics) × Record → Call
  | (.ok (findings, metrics), r) => ⟨.ok findings, some metrics, r⟩
  | (.error halt, r) => ⟨.error halt, metrics?, r⟩

/-- A call for the host whose `n`-th check answers `signal n`. -/
def call (signal : Nat → Option Cancellation) (reader : FileReader) (tree : Tree) (root : Text)
    (options : Options) (metrics? : Option Metrics) (r : Record) : Call :=
  .of metrics? (((collect tree root options).run (Host.recorded signal reader)).run r)

end Duplication

end CloneDetection

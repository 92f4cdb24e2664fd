import CloneDetection.Collector.Registry

/-!
# Surveys

A survey runs collectors one after another over one tree and puts their findings into one report. A
collector that runs twice keeps its first place among the tallies, with its last tally.
-/
namespace CloneDetection

structure Survey where
  findings : List Finding := []
  tallies : Ordered Text Tally := .empty

namespace Survey

def step (registry : Registry) (tree : Tree) (root : Text) (options : Options) (s : Survey)
    (name : Text) :
    Scan Survey := do
  let collector ← Scan.ofOption (.unknownCollector name registry.names) (registry.get? name)
  .emit (.running name root)
  let (findings, tally) ← collector.collect tree root options
  return ⟨s.findings ++ findings, s.tallies.insert name tally⟩

def report (s : Survey) : Report :=
  ⟨Finding.sort s.findings, s.tallies.toList⟩

end Survey

/-- The report of the collectors of these names, run in order. -/
def survey (registry : Registry) (names : List Text) (tree : Tree) (root : Text)
    (options : Options) :
    Scan Report := do
  let s ← names.foldlM (Survey.step registry tree root options) {}
  return s.report

end CloneDetection

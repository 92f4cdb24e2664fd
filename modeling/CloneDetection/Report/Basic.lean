import CloneDetection.Finding.Basic
import CloneDetection.Json.Basic
import CloneDetection.Text.Lines

/-!
# Reports

What the collectors of a scan found, and what each of them counted, in two written forms: text for
people, and a JSON document that keeps every field.
-/
namespace CloneDetection

/-- What a scan for duplication counts. -/
structure Metrics where
  filesScanned : Int := 0
  exactClones : Int := 0
  nearClones : Int := 0
  duplicatedLines : Int := 0
  deriving DecidableEq, Repr

/-- What a collector reports about its scan: counts, or any other value. -/
inductive Tally where
  | counts (metrics : Metrics)
  | other (value : Json)
  deriving Repr

structure Report where
  findings : List Finding
  /-- The names of the collectors that ran, with their tallies. -/
  tallies : List (Text × Tally)
  deriving Repr

namespace Report

def metricsJson (m : Metrics) : Json :=
  .object [("files_scanned".toList, .integer m.filesScanned),
    ("exact_clones".toList, .integer m.exactClones),
    ("near_clones".toList, .integer m.nearClones),
    ("duplicated_lines".toList, .integer m.duplicatedLines)]

def filesOf : Tally → Int
  | .counts m => m.filesScanned
  | .other _ => 0

def filesScanned (r : Report) : Int :=
  ((r.tallies.map fun (_, t) => filesOf t).max?).getD 0

def humanFinding (f : Finding) : Text :=
  "  [".toList ++ f.kind ++ "] ".toList ++ f.title ++ " (confidence ".toList ++
    f.confidence.writeHundredths ++ ")\n".toList ++
    (Text.displayLines f.description).flatMap (fun line => "    ".toList ++ line ++ ['\n']) ++
      ['\n']

def human (r : Report) : Text :=
  if r.findings.isEmpty then "No clones detected.\n".toList
  else "Found ".toList ++ Text.natural r.findings.length ++ " finding(s) across ".toList ++
    Text.integer r.filesScanned ++ " scanned file(s):\n\n".toList ++ r.findings.flatMap humanFinding

def findingJson (f : Finding) : Json :=
  .object [("source".toList, .text f.source), ("kind".toList, .text f.kind),
    ("file_path".toList, .text f.path),
    ("line".toList, .integer f.line), ("title".toList, .text f.title),
    ("description".toList, .text f.description), ("confidence".toList, .number f.confidence),
    ("tags".toList, .array (f.tags.map .text))]

def tallyJson : Tally → Json
  | .counts m => metricsJson m
  | .other value => value

def toJson (r : Report) : Json :=
  .object [("findings".toList, .array (r.findings.map findingJson)),
    ("metrics".toList, .object (r.tallies.map fun (name, t) => (name, tallyJson t))),
    ("total_findings".toList, .integer r.findings.length)]

def json (r : Report) : Text :=
  r.toJson.render 0 ++ ['\n']

end Report

end CloneDetection

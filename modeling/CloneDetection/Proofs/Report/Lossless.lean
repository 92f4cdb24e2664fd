import CloneDetection.Proofs.Json.RoundTrip
import CloneDetection.Report.Basic

/-!
# A report loses nothing

`Report.ofJson?` takes a report out of a document by the names of its members: the eight fields of
every finding, and for every collector its four counters or nothing. What is written for a report is
read back as a document, and the report is found in it. So two reports with one text are the same:
`Report.json_lossless`.
-/
namespace CloneDetection

namespace Json

def asText? : Json → Option Text
  | .text t => some t
  | _ => none

def asInteger? : Json → Option Int
  | .integer n => some n
  | _ => none

def asNumber? : Json → Option Double
  | .number x => some x
  | _ => none

def asItems? : Json → Option (List Json)
  | .array items => some items
  | _ => none

def asMembers? : Json → Option (List (Text × Json))
  | .object members => some members
  | _ => none

end Json

open Json

def Finding.ofJson? (doc : Json) : Option Finding := do
  let source ← (← doc.member "source".toList).asText?
  let kind ← (← doc.member "kind".toList).asText?
  let path ← (← doc.member "file_path".toList).asText?
  let line ← (← doc.member "line".toList).asInteger?
  let title ← (← doc.member "title".toList).asText?
  let description ← (← doc.member "description".toList).asText?
  let confidence ← (← doc.member "confidence".toList).asNumber?
  let tags ← (← (← doc.member "tags".toList).asItems?).mapM asText?
  return { source, kind, path, line, title, description, confidence, tags }

def Metrics.ofJson? (doc : Json) : Option Metrics := do
  let filesScanned ← (← doc.member "files_scanned".toList).asInteger?
  let exactClones ← (← doc.member "exact_clones".toList).asInteger?
  let nearClones ← (← doc.member "near_clones".toList).asInteger?
  let duplicatedLines ← (← doc.member "duplicated_lines".toList).asInteger?
  return { filesScanned, exactClones, nearClones, duplicatedLines }

def Tally.ofJson? : Json → Option Tally
  | .null => some (.other .null)
  | doc => (Metrics.ofJson? doc).map .counts

namespace Report

def ofJson? (doc : Json) : Option Report := do
  let findings ← (← (← doc.member "findings".toList).asItems?).mapM Finding.ofJson?
  let tallies ← (← (← doc.member "metrics".toList).asMembers?).mapM fun (name, value) =>
    (Tally.ofJson? value).map (name, ·)
  return { findings, tallies }

/-- Every confidence is a finite double, and every collector reports its counts or nothing. -/
structure Plain (r : Report) : Prop where
  confidence : ∀ f ∈ r.findings, ∃ negative units, Double.Representable units ∧
    f.confidence = .finite negative units
  tally : ∀ entry ∈ r.tallies, (∃ m, entry.2 = .counts m) ∨ entry.2 = .other .null

section Reading

variable {r : Report}

/-- Members that are read one by one are read as a list. -/
theorem mapM_map_eq_some {α β : Type} {write : α → β} {read : β → Option α} {as : List α}
    (h : ∀ a ∈ as, read (write a) = some a) : (as.map write).mapM read = some as := by
  induction as with
  | nil => rfl
  | cons a as ih =>
    rw [List.map_cons, List.mapM_cons, h a List.mem_cons_self,
      ih fun b hb => h b (List.mem_cons_of_mem _ hb)]
    rfl

theorem ofJson?_findingJson (f : Finding) : Finding.ofJson? (findingJson f) = some f := by
  have htags : (f.tags.map Json.text).mapM asText? = some f.tags := mapM_map_eq_some fun _ _ => rfl
  simp [Finding.ofJson?, findingJson, member, List.lookup_cons, asText?, asInteger?, asNumber?,
    asItems?, htags]

theorem ofJson?_metricsJson (m : Metrics) : Metrics.ofJson? (metricsJson m) = some m := by
  simp [Metrics.ofJson?, metricsJson, member, List.lookup_cons, asInteger?]

theorem ofJson?_tallyJson {t : Tally} (h : (∃ m, t = .counts m) ∨ t = .other .null) :
    Tally.ofJson? (tallyJson t) = some t := by
  rcases h with ⟨m, rfl⟩ | rfl
  · have hcounts : Tally.ofJson? (tallyJson (.counts m)) =
        (Metrics.ofJson? (metricsJson m)).map .counts := rfl
    rw [hcounts, ofJson?_metricsJson, Option.map_some]
  · rfl

theorem ofJson?_toJson (h : r.Plain) : ofJson? r.toJson = some r := by
  have hfindings : (r.findings.map findingJson).mapM Finding.ofJson? = some r.findings :=
    mapM_map_eq_some fun f _ => ofJson?_findingJson f
  have htallies : (r.tallies.map fun entry => (entry.1, tallyJson entry.2)).mapM
      (fun member => (Tally.ofJson? member.2).map (member.1, ·)) = some r.tallies := by
    apply mapM_map_eq_some
    intro entry hentry
    rw [ofJson?_tallyJson (h.tally entry hentry), Option.map_some]
  simp [ofJson?, toJson, member, List.lookup_cons, asItems?, asMembers?, hfindings, htallies]

theorem proper_findingJson {f : Finding} (h : f.confidence.Proper) : (findingJson f).Proper := by
  apply Json.Proper.object
  simp only [List.forall_mem_cons, List.not_mem_nil, false_implies, implies_true, and_true]
  refine ⟨.text _, .text _, .text _, .integer _, .text _, .text _, .number h, .array ?_⟩
  rw [List.forall_mem_map]
  exact fun tag _ => .text tag

theorem proper_tallyJson {t : Tally} (h : (∃ m, t = .counts m) ∨ t = .other .null) :
    (tallyJson t).Proper := by
  rcases h with ⟨m, rfl⟩ | rfl
  · apply Json.Proper.object
    simp only [List.forall_mem_cons, List.not_mem_nil, false_implies, implies_true, and_true]
    exact ⟨.integer _, .integer _, .integer _, .integer _⟩
  · exact .null

theorem proper_toJson (h : r.Plain) : r.toJson.Proper := by
  apply Json.Proper.object
  simp only [List.forall_mem_cons, List.not_mem_nil, false_implies, implies_true, and_true]
  refine ⟨.array ?_, .object ?_, .integer _⟩
  · rw [List.forall_mem_map]
    intro f hf
    obtain ⟨negative, units, hunits, hconfidence⟩ := h.confidence f hf
    exact proper_findingJson (hconfidence ▸ .finite negative hunits)
  · rw [List.forall_mem_map]
    exact fun entry hentry => proper_tallyJson (h.tally entry hentry)

theorem read?_json (h : r.Plain) : read? r.json = some r.toJson :=
  read?_render (proper_toJson h)

end Reading

/-- What is written for a report is read as a document that holds the findings with all their
fields, the counters of every collector and the number of findings; so reports with one text are the
same. -/
theorem json_lossless :
    (∀ r : Report, r.Plain → ∃ doc, read? r.json = some doc ∧ ofJson? doc = some r ∧
      doc.member "total_findings".toList = some (.integer r.findings.length)) ∧
    (∀ r s : Report, r.Plain → s.Plain → r.json = s.json → r = s) := by
  refine ⟨fun r h => ⟨r.toJson, read?_json h, ofJson?_toJson h, ?_⟩, fun r s hr hs hsame => ?_⟩
  · simp [toJson, member, List.lookup_cons]
  · have hdoc : r.toJson = s.toJson := by
      apply Option.some.inj
      rw [← read?_json hr, hsame, read?_json hs]
    apply Option.some.inj
    rw [← ofJson?_toJson hr, hdoc, ofJson?_toJson hs]

/-- A report with quotes, controls and characters past the first plane in its texts. -/
def oddTexts (tags : List Text) : Report where
  findings :=
    [⟨"duplication".toList, [], "a\"\\\x00\x7f\u2028😀.c".toList, -3, "t\n".toList, "\t𝄞".toList,
    .finite true (7385903388887613 * Nat.pow 2 1020), tags⟩]
  tallies := [("\"".toList, .counts ⟨0, -1, 10, 200⟩), ([], .other .null)]

theorem plain_oddTexts (tags : List Text) : (oddTexts tags).Plain where
  confidence := by
    intro f hf
    rw [List.mem_singleton.1 hf]
    exact ⟨true, _, Double.representable_of_significand (by decide) (by decide), rfl⟩
  tally := by
    intro entry hentry
    rcases List.mem_cons.1 hentry with rfl | hentry
    · exact .inl ⟨_, rfl⟩
    · rw [List.mem_singleton.1 hentry]
      exact .inr rfl

/-- It is read back, and a comma inside a tag is told from one between tags. -/
theorem json_lossless_oddTexts :
    (∃ doc, read? (oddTexts []).json = some doc ∧ ofJson? doc = some (oddTexts []) ∧
      doc.member "total_findings".toList = some (.integer 1)) ∧
    (oddTexts ["a\", \"b".toList]).json ≠ (oddTexts ["a".toList, "b".toList]).json := by
  refine ⟨json_lossless.1 _ (plain_oddTexts []), fun hsame => ?_⟩
  have hreports := json_lossless.2 _ _ (plain_oddTexts _) (plain_oddTexts _) hsame
  have htags := congrArg (fun r => r.findings.map fun f => f.tags.length) hreports
  exact absurd htags (by decide)

end Report

end CloneDetection

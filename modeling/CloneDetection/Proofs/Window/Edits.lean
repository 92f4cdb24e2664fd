import CloneDetection.Proofs.Window.Kept
import Mathlib.Data.List.TakeWhile
import Mathlib.Logic.Relation

/-!
# Layout and comments

Lines that the exact form drops may come and go anywhere in a file, and blanks at either end of its
lines may change: the form keeps the same texts, so its windows have the same digests in the same
order. Only the line numbers tell the files apart, and they stay those of the file.
-/
namespace CloneDetection

namespace Text

variable {left core right : Text}

theorem trimLeft_append (h : ∀ c ∈ left, isBlank c) :
    (left ++ core : Text).trimLeft = core.trimLeft :=
  List.dropWhile_append_of_pos h

theorem trimRight_append (h : ∀ c ∈ right, isBlank c) :
    (core ++ right : Text).trimRight = core.trimRight := by
  rw [trimRight, List.reverse_append,
    List.dropWhile_append_of_pos (fun c hc => h c (List.mem_reverse.1 hc)), trimRight]

theorem strip_append (hleft : ∀ c ∈ left, isBlank c) (hright : ∀ c ∈ right, isBlank c) :
    (left ++ (core ++ right) : Text).strip = core.strip := by
  rw [strip, strip, trimLeft_append hleft]
  have htrim : (core ++ right : Text).trimLeft =
      if core.trimLeft.isEmpty then right.trimLeft else core.trimLeft ++ right :=
        List.dropWhile_append
  rw [htrim]
  split
  · next hempty =>
    have hright' : right.trimLeft = [] := List.dropWhile_eq_nil_iff.2 hright
    rw [hright', List.isEmpty_iff.1 hempty]
  · exact trimRight_append hright

end Text

/-- The exact form drops a line that is blank, a comment or an import line after stripping. -/
def Dropped (line : Text) : Prop :=
  line.strip = [] ∨ (LineCategory.classify? line.strip).isSome

instance : DecidablePred Dropped := fun _ => instDecidableOr

def SameInside (line line' : Text) : Prop :=
  ∃ left core right left' right' : Text, (∀ c ∈ left ++ right ++ left' ++ right', isBlank c) ∧
    line = left ++ (core ++ right) ∧ line' = left' ++ (core ++ right')

/-- One change of a file that leaves its code as it is. -/
inductive Edit : List Text → List Text → Prop
  | insert {front rest : List Text} {line : Text} : Dropped line →
      Edit (front ++ rest) (front ++ line :: rest)
  | delete {front rest : List Text} {line : Text} : Dropped line →
      Edit (front ++ line :: rest) (front ++ rest)
  | reindent {front rest : List Text} {line line' : Text} : SameInside line line' →
      Edit (front ++ line :: rest) (front ++ line' :: rest)

/-- Every line that the exact form keeps of a file is the stripped line of the file that has its
number, and every line that need not be dropped is kept. The numbers ascend, and between two lines
that follow one another the file has dropped lines only. -/
structure KeepsNumbers (raw : List Text) : Prop where
  text_eq : ∀ l ∈ NormalForm.exact.lines raw, ∃ place, ∃ h : place < raw.length,
    l.number = place + 1 ∧ l.text = raw[place].strip
  mem_of_not_dropped : ∀ place, ∀ h : place < raw.length, ¬Dropped raw[place] →
    ⟨raw[place].strip, place + 1⟩ ∈ NormalForm.exact.lines raw
  increasing : Increasing (NormalForm.exact.lines raw)
  dropped_between : ∀ position l m, (NormalForm.exact.lines raw)[position]? = some l →
    (NormalForm.exact.lines raw)[position + 1]? = some m → ∀ place, ∀ h : place < raw.length,
      l.number < (place + 1 : Int) → (place + 1 : Int) < m.number → Dropped raw[place]

namespace NormalForm

variable {line text : Text} {raw a b : List Text}

theorem text?_exact_eq_none_iff : exact.text? line = none ↔ Dropped line := by
  simp only [text?, Dropped, Bool.or_eq_true, List.isEmpty_iff]
  split <;> simp_all

theorem isSome_text?_exact : (exact.text? line).isSome ↔ ¬Dropped line := by
  rw [← text?_exact_eq_none_iff, Option.isSome_iff_ne_none]

theorem text?_exact_eq_some (h : exact.text? line = some text) : text = line.strip := by
  simp only [text?] at h
  split at h
  · cases h
  · exact (Option.some.inj h).symm

theorem text?_exact_congr {line' : Text} (h : SameInside line line') :
    exact.text? line = exact.text? line' := by
  obtain ⟨left, core, right, left', right', hblank, rfl, rfl⟩ := h
  simp only [List.mem_append, or_imp, forall_and] at hblank
  obtain ⟨⟨⟨hleft, hright⟩, hleft'⟩, hright'⟩ := hblank
  rw [text?, text?, Text.strip_append hleft hright, Text.strip_append hleft' hright']

theorem texts_exact_cons_of_dropped (h : Dropped line) (raw : List Text) :
    exact.texts (line :: raw) = exact.texts raw :=
  List.filterMap_cons_none (text?_exact_eq_none_iff.2 h)

theorem texts_exact_of_edit (h : Edit a b) : exact.texts a = exact.texts b := by
  cases h with
  | insert hline => rw [texts_append, texts_append, texts_exact_cons_of_dropped hline]
  | delete hline => rw [texts_append, texts_append, texts_exact_cons_of_dropped hline]
  | @reindent _ _ line line' hline =>
    have hcons (rest : List Text) : exact.texts (line :: rest) = exact.texts (line' :: rest) := by
      rw [texts, List.filterMap_cons, text?_exact_congr hline, ← List.filterMap_cons, ← texts]
    rw [texts_append, texts_append, hcons]

theorem texts_exact_of_edits (h : Relation.ReflTransGen Edit a b) :
    exact.texts a = exact.texts b := by
  induction h with
  | refl => rfl
  | tail _ hedit ih => exact ih.trans (texts_exact_of_edit hedit)

theorem keepsNumbers (raw : List Text) : KeepsNumbers raw where
  text_eq l hl := by
    obtain ⟨place, hplace, htext, hnumber⟩ := mem_lines.1 hl
    exact ⟨place, hplace, hnumber, text?_exact_eq_some htext⟩
  mem_of_not_dropped place hplace hline := by
    obtain ⟨text, htext⟩ := Option.isSome_iff_exists.1 (isSome_text?_exact.2 hline)
    exact mem_lines.2 ⟨place, hplace, by rw [htext, text?_exact_eq_some htext], rfl⟩
  increasing := exact.increasing_lines raw
  dropped_between := by
    intro position l m hl hm place hplace hafter hbefore
    obtain ⟨i, hi, hikept, hinumber, hicount⟩ := exact.exists_of_getElem?_numbered 1 hl
    obtain ⟨j, -, -, hjnumber, hjcount⟩ := exact.exists_of_getElem?_numbered 1 hm
    rw [← text?_exact_eq_none_iff, Option.eq_none_iff_forall_ne_some]
    intro text hkept
    -- up to the second line there would be two more kept lines than up to the first
    have hfirst := exact.length_texts_take_succ hi hikept
    have hmiddle := exact.length_texts_take_succ hplace hkept
    have hle : (exact.texts (raw.take (i + 1))).length ≤ (exact.texts (raw.take place)).length :=
      exact.length_texts_take_le (by omega)
    have hle' : (exact.texts (raw.take (place + 1))).length ≤ (exact.texts (raw.take j)).length :=
      exact.length_texts_take_le (by omega)
    omega

/-- What the exact form makes of a file does not depend on dropped lines nor on blanks at the ends
of lines: after any number of such edits the windows of every size have the same digests in the same
order. And each file has its own true line numbers. -/
theorem exact_windows_of_edits (h : Relation.ReflTransGen Edit a b) :
    (∀ size : Int, (Window.ofLines? size (exact.lines a)).map (·.map Window.digest) =
      (Window.ofLines? size (exact.lines b)).map (·.map Window.digest)) ∧
    KeepsNumbers a ∧ KeepsNumbers b := by
  refine ⟨fun size => ?_, keepsNumbers a, keepsNumbers b⟩
  unfold Window.ofLines?
  split
  · next hsize =>
    rw [Option.map_some, Option.map_some,
      map_digest_ofLines_congr (by omega) (texts_exact_of_edits h)]
  · rfl

/-- A comment is put in front of a line, which is indented then. -/
theorem exact_windows_of_edits_indented :
    Relation.ReflTransGen Edit [['x'], ['y']] [['#'], ['\t', 'x', ' '], ['y']] ∧
      (Window.ofLines? 2 (exact.lines [['x'], ['y']])).map (·.map Window.digest) =
        (Window.ofLines? 2 (exact.lines [['#'], ['\t', 'x', ' '], ['y']])).map
          (·.map Window.digest) ∧
      KeepsNumbers [['#'], ['\t', 'x', ' '], ['y']] := by
  have hinsert : Edit ([] ++ [['x'], ['y']]) ([] ++ ['#'] :: [['x'], ['y']]) :=
    .insert (.inr (by decide))
  have hinside : SameInside ['x'] ['\t', 'x', ' '] :=
    ⟨[], ['x'], [], ['\t'], [' '], List.all_eq_true.1 (by decide), rfl, rfl⟩
  have hindent : Edit ([['#']] ++ ['x'] :: [['y']]) ([['#']] ++ ['\t', 'x', ' '] :: [['y']]) :=
    .reindent hinside
  have hedits : Relation.ReflTransGen Edit [['x'], ['y']] [['#'], ['\t', 'x', ' '], ['y']] :=
    .tail (.single hinsert) hindent
  obtain ⟨hdigests, -, hnumbers⟩ := exact_windows_of_edits hedits
  exact ⟨hedits, hdigests 2, hnumbers⟩

end NormalForm

end CloneDetection

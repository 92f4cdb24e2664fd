import CloneDetection.Proofs.Collector.Indexing
import CloneDetection.Proofs.Text.Decoding
import CloneDetection.Proofs.Window.Message

/-!
# Styles of line breaks

A file may end its lines with line feeds, with carriage returns or with pairs of both. As long as it
keeps to one style the lines that are read from it are the ones that were written, empty ones
included, and so are its windows. Nothing else ends a line: the other separators of Unicode stay
inside. The lines read from any file have no break inside, so they can be written down and read
again.
-/
namespace CloneDetection

inductive LineBreak where
  | feed
  | carriage
  /-- A carriage return and a line feed. -/
  | pair
  deriving DecidableEq, Repr

namespace LineBreak

def text : LineBreak → Text
  | feed => ['\n']
  | carriage => ['\r']
  | pair => ['\r', '\n']

/-- A content with these lines, all breaks in one style. Without a break at its end it shows a last
line only if that is not empty. -/
inductive Writes (b : LineBreak) : List Text → Text → Prop
  | ended (lines : List Text) : Writes b lines (lines.flatMap (· ++ b.text))
  | unended (lines : List Text) {last : Text} (h : last ≠ []) :
      Writes b (lines ++ [last]) (lines.flatMap (· ++ b.text) ++ last)

end LineBreak

/-- A text of one line. -/
def Text.Unbroken (t : Text) : Prop :=
  '\r' ∉ t ∧ '\n' ∉ t

namespace Text

section Unify

variable {t rest : Text} {c : Char}

theorem unbroken_cons : Unbroken (c :: t) ↔ isFileBreak c = false ∧ Unbroken t := by
  simp [Unbroken, isFileBreak]
  tauto

theorem unifyBreaks_cons_of_unbroken (h : isFileBreak c = false) :
    unifyBreaks isFileBreak (c :: t) = c :: unifyBreaks isFileBreak t := by
  rw [unifyBreaks]
  · simp [h]
  · rintro rest rfl
    simp [isFileBreak] at h

theorem unifyBreaks_append (h : t.Unbroken) (rest : Text) :
    unifyBreaks isFileBreak (t ++ rest) = t ++ unifyBreaks isFileBreak rest := by
  induction t with
  | nil => rfl
  | cons c t ih =>
    rcases unbroken_cons.1 h with ⟨hc, ht⟩
    rw [List.cons_append, unifyBreaks_cons_of_unbroken hc, ih ht, List.cons_append]

theorem unifyBreaks_of_unbroken (h : t.Unbroken) : unifyBreaks isFileBreak t = t := by
  simpa [unifyBreaks] using unifyBreaks_append h []

/-- A carriage return is a break of its own before anything but a line feed. -/
theorem unifyBreaks_carriage (h : rest.head? ≠ some '\n') :
    unifyBreaks isFileBreak ('\r' :: rest) = '\n' :: unifyBreaks isFileBreak rest := by
  rw [unifyBreaks]
  · rfl
  · rintro after - rfl
    exact h rfl

theorem carriage_not_mem_unifyBreaks (t : Text) : '\r' ∉ unifyBreaks isFileBreak t := by
  fun_induction unifyBreaks isFileBreak t with
  | case1 => simp
  | case2 rest ih => simp [ih]
  | case3 c rest _ ih =>
    by_cases hc : isFileBreak c
    · simp [hc, ih]
    · simp only [hc, List.mem_cons, not_or]
      refine ⟨?_, ih⟩
      rintro rfl
      exact hc rfl

end Unify

section Pieces

variable {t part last : Text} {lines : List Text}

theorem unbroken_of_mem_fileLines (h : part ∈ t.fileLines) : part.Unbroken := by
  refine ⟨fun hmem => ?_, not_mem_of_mem_fileLines h⟩
  unfold fileLines feedLines at h
  dsimp only at h
  apply carriage_not_mem_unifyBreaks t
  split at h
  · exact mem_of_mem_splitOn ((List.dropLast_sublist _).mem h) hmem
  · exact mem_of_mem_splitOn h hmem

theorem feedLines_flatMap (h : ∀ line ∈ lines, line.Unbroken) :
    feedLines (lines.flatMap (· ++ ['\n'])) = lines := by
  rw [feedLines, splitOn_flatMap_terminated fun line hline => (h line hline).2]
  simp

theorem feedLines_flatMap_append (h : ∀ line ∈ lines, line.Unbroken) (hlast : last.Unbroken)
    (hne : last ≠ []) :
    feedLines (lines.flatMap (· ++ ['\n']) ++ last) = lines ++ [last] := by
  rw [feedLines, splitOn_flatMap_terminated_append (fun line hline => (h line hline).2),
    List.splitOn_eq_singleton hlast.2]
  simp [hne]

end Pieces

end Text

namespace LineBreak

variable {b : LineBreak} {rest last content : Text} {lines : List Text}

theorem unifyBreaks_text_append (h : b = .carriage → '\n' ∉ rest) :
    Text.unifyBreaks isFileBreak (b.text ++ rest) = '\n' :: Text.unifyBreaks isFileBreak rest := by
  cases b with
  | feed => rfl
  | carriage =>
    apply Text.unifyBreaks_carriage
    intro hhead
    exact h rfl (List.mem_of_mem_head? hhead)
  | pair => rfl

/-- Carriage returns and texts of one line make no pair. -/
theorem feed_not_mem_flatMap_append (h : ∀ line ∈ lines, line.Unbroken) (hlast : last.Unbroken) :
    '\n' ∉ lines.flatMap (· ++ carriage.text) ++ last := by
  intro hmem
  rcases List.mem_append.1 hmem with hlines | hmem
  · obtain ⟨line, hline, hmem⟩ := List.mem_flatMap.1 hlines
    rcases List.mem_append.1 hmem with hmem | hmem
    · exact (h line hline).2 hmem
    · exact absurd hmem (by decide)
  · exact hlast.2 hmem

/-- Whatever the style, every break comes out as one line feed. -/
theorem unifyBreaks_flatMap_append (b : LineBreak) (h : ∀ line ∈ lines, line.Unbroken)
    (hlast : last.Unbroken) :
    Text.unifyBreaks isFileBreak (lines.flatMap (· ++ b.text) ++ last) =
      lines.flatMap (· ++ ['\n']) ++ last := by
  induction lines with
  | nil => exact Text.unifyBreaks_of_unbroken hlast
  | cons line lines ih =>
    have hlines : ∀ line ∈ lines, line.Unbroken :=
      fun other hother => h other (List.mem_cons_of_mem _ hother)
    have hbreak : b = .carriage → '\n' ∉ lines.flatMap (· ++ b.text) ++ last := by
      rintro rfl
      exact feed_not_mem_flatMap_append hlines hlast
    simp only [List.flatMap_cons, List.append_assoc]
    rw [Text.unifyBreaks_append (h line List.mem_cons_self), unifyBreaks_text_append hbreak,
      ih hlines]
    rfl

theorem Writes.fileLines_eq (hcontent : b.Writes lines content)
    (h : ∀ line ∈ lines, line.Unbroken) :
    content.fileLines = lines := by
  cases hcontent with
  | ended =>
    have hnil : Text.Unbroken [] := by simp [Text.Unbroken]
    have hunified := unifyBreaks_flatMap_append b h hnil
    rw [List.append_nil, List.append_nil] at hunified
    rw [Text.fileLines, hunified, Text.feedLines_flatMap h]
  | unended lines hne =>
    have hlines : ∀ line ∈ lines, line.Unbroken :=
      fun line hline => h line (List.mem_append_left _ hline)
    have hlast := h _ (List.mem_append_right _ List.mem_cons_self)
    rw [Text.fileLines, unifyBreaks_flatMap_append b hlines hlast,
      Text.feedLines_flatMap_append hlines hlast hne]

theorem Writes.lines_encode (hcontent : b.Writes lines content)
    (h : ∀ line ∈ lines, line.Unbroken) :
    Content.lines (Utf8.encode content) = lines := by
  rw [Content.lines, Utf8.decodeLossy_encode, hcontent.fileLines_eq h]

end LineBreak

/-- Lines without breaks are read as they are from a file in either style, and hashing the file
comes to the windows of these lines; the lines of any file, written down in either style, are read
again. -/
theorem Duplication.hashFile_of_writes :
    (∀ (b : LineBreak) (lines : List Text) (content : Text),
      (∀ line ∈ lines, '\r' ∉ line ∧ '\n' ∉ line) →
      b.Writes lines content →
      Content.lines (Utf8.encode content) = lines ∧
      ∀ (file : SourceFile) (reader : FileReader) (r : Record),
        reader r.accesses ⟨file.path, none⟩ = some (Utf8.encode content) →
        ∃ r', (hashFile file).Gives reader r
          (some ⟨windowsOf .exact lines, windowsOf .blinded lines⟩) r') ∧
    (∀ (b : LineBreak) (bytes : Bytes) (content : Text), b.Writes (Content.lines bytes) content →
      Content.lines (Utf8.encode content) = Content.lines bytes) := by
  refine ⟨fun b lines content h hcontent => ?_, fun b bytes content hcontent => ?_⟩
  · have hread := hcontent.lines_encode h
    refine ⟨hread, fun file reader r hanswer => ?_⟩
    rcases hashFile_gives file reader r with ⟨r', hgives, -⟩
    rw [hanswer, Option.map_some, hread] at hgives
    exact ⟨r', hgives⟩
  · exact hcontent.lines_encode fun line hline => Text.unbroken_of_mem_fileLines hline

/-- Carriage returns, an empty line, a line separator inside a line, and no break at the end. -/
theorem Duplication.hashFile_of_writes_carriage :
    Content.lines (Utf8.encode "a\u2028b\r\rx\x0b".toList) =
      ["a\u2028b".toList, [], "x\x0b".toList] ∧
    (∃ r', (hashFile ⟨"a.c".toList, "/r/a.c".toList⟩).Gives
      (fun _ _ => some (Utf8.encode "a\u2028b\r\rx\x0b".toList)) {}
      (some ⟨windowsOf .exact ["a\u2028b".toList, [], "x\x0b".toList],
        windowsOf .blinded ["a\u2028b".toList, [], "x\x0b".toList]⟩) r') ∧
    Content.lines (Utf8.encode "a\r\n".toList) = Content.lines (Utf8.encode "a".toList) := by
  have hcarriage : LineBreak.carriage.Writes ["a\u2028b".toList, [], "x\x0b".toList]
      "a\u2028b\r\rx\x0b".toList :=
    .unended ["a\u2028b".toList, []] (by decide)
  have hpair : LineBreak.pair.Writes (Content.lines (Utf8.encode "a".toList)) "a\r\n".toList :=
    .ended ["a".toList]
  obtain ⟨hlines, hhash⟩ := hashFile_of_writes.1 .carriage _ _ (by decide) hcarriage
  exact ⟨hlines, hhash _ _ _ rfl, hashFile_of_writes.2 .pair _ _ hpair⟩

end CloneDetection

import CloneDetection.Proofs.Clone.Block
import CloneDetection.Proofs.Text.Encoding
import CloneDetection.Proofs.Text.Splitting
import CloneDetection.Selection.Content
import Mathlib.Data.List.Induction

/-!
# What is hashed tells the window

Every text of a window ends with a line feed in what is hashed, and no line of a file has one
inside, in either form. So the texts can be cut out of it again, and windows of different texts have
one digest only where the hash has a collision.
-/
namespace CloneDetection

namespace Digest

/-- What is hashed for texts that may hold halves of surrogate pairs. -/
def pointMessage (texts : List (List CodePoint)) : Bytes :=
  texts.flatMap fun t => t.flatMap CodePoint.encode ++ [10]

theorem pointMessage_eq (texts : List (List CodePoint)) :
    pointMessage texts = (texts.flatMap (· ++ [CodePoint.lineFeed])).flatMap CodePoint.encode := by
  rw [List.flatMap_assoc]
  simp only [List.flatMap_append, List.flatMap_singleton]
  rfl

theorem message_eq_pointMessage (texts : List Text) :
    message texts = pointMessage (texts.map Text.points) := by
  rw [message, pointMessage, List.flatMap_map]
  simp only [Utf8.encode_eq_flatMap]

theorem pointMessage_inj {xs ys : List (List CodePoint)} (hx : ∀ t ∈ xs, CodePoint.lineFeed ∉ t)
    (hy : ∀ t ∈ ys, CodePoint.lineFeed ∉ t) : pointMessage xs = pointMessage ys ↔ xs = ys := by
  rw [pointMessage_eq, pointMessage_eq, CodePoint.flatMap_encode_injective.eq_iff,
    flatMap_terminated_inj hx hy]

theorem lineFeed_not_mem_points {texts : List Text} (h : ∀ t ∈ texts, '\n' ∉ t) :
    ∀ t ∈ texts.map Text.points, CodePoint.lineFeed ∉ t := by
  intro points hpoints
  obtain ⟨t, ht, rfl⟩ := List.mem_map.1 hpoints
  exact fun hmem => h t ht ((List.mem_map_of_injective CodePoint.ofChar_injective).1 hmem)

theorem message_inj {xs ys : List Text} (hx : ∀ t ∈ xs, '\n' ∉ t) (hy : ∀ t ∈ ys, '\n' ∉ t) :
    message xs = message ys ↔ xs = ys := by
  rw [message_eq_pointMessage, message_eq_pointMessage,
    pointMessage_inj (lineFeed_not_mem_points hx) (lineFeed_not_mem_points hy),
    (List.map_injective_iff.2 Text.points_injective).eq_iff]

end Digest

section Lines

theorem Text.not_mem_of_mem_fileLines {t line : Text} (h : line ∈ t.fileLines) : '\n' ∉ line := by
  unfold fileLines feedLines at h
  dsimp only at h
  split at h
  · exact not_mem_of_mem_splitOn ((List.dropLast_sublist _).mem h)
  · exact not_mem_of_mem_splitOn h

theorem Text.mem_of_mem_strip {t : Text} {c : Char} (h : c ∈ t.strip) : c ∈ t := by
  unfold strip trimRight at h
  rw [List.mem_reverse] at h
  have hleft : c ∈ t.trimLeft := List.mem_reverse.1 ((List.dropWhile_sublist _).mem h)
  exact (List.dropWhile_sublist _).mem hleft

/-- Blinding brings in no other characters than those of the placeholder. -/
theorem mem_of_mem_blind {t : Text} {c : Char} (h : c ∈ blind t) : c ∈ t ∨ c ∈ placeholder := by
  obtain ⟨run, hrun, hc⟩ := List.mem_flatMap.1 h
  unfold blindRun at hc
  split at hc
  · exact .inr hc
  · rw [← t.flatten_runs]
    exact .inl (List.mem_flatten_of_mem hrun hc)

theorem NormalForm.lineFeed_not_mem_of_text? {form : NormalForm} {raw text : Text}
    (hraw : '\n' ∉ raw) (h : form.text? raw = some text) : '\n' ∉ text := by
  have hstrip : '\n' ∉ raw.strip := fun hmem => hraw (Text.mem_of_mem_strip hmem)
  cases form with
  | exact =>
    unfold text? at h
    dsimp only at h
    split at h
    · cases h
    · rwa [← Option.some.inj h]
  | blinded =>
    rw [← Option.some.inj h]
    intro hmem
    rcases mem_of_mem_blind hmem with hmem | hmem
    · exact hstrip hmem
    · exact absurd hmem (by decide)

/-- Whatever a file holds, no form of it has a line feed in a line. -/
theorem NormalForm.lineFeed_not_mem_lines (form : NormalForm) (content : Bytes) :
    ∀ line ∈ form.lines (Content.lines content), '\n' ∉ line.text := by
  intro line hline
  obtain ⟨i, hi, htext, -⟩ := mem_lines.1 hline
  exact lineFeed_not_mem_of_text? (Text.not_mem_of_mem_fileLines (List.getElem_mem hi)) htext

end Lines

section Collisions

def Blake2b.Collision (a b : Bytes) : Prop :=
  a ≠ b ∧ Blake2b.hash a = Blake2b.hash b

/-- A number of so many bytes, the first one on top, tells the bytes. -/
theorem foldl_bytes_inj {a b : Bytes} (hlength : a.length = b.length)
    (h : a.foldl (fun n b => n * 256 + b.toNat) 0 = b.foldl (fun n b => n * 256 + b.toNat) 0) :
    a = b := by
  induction a using List.reverseRecOn generalizing b with
  | nil => exact (List.length_eq_zero_iff.1 hlength.symm).symm
  | append_singleton a x ih =>
    cases b using List.reverseRecOn with
    | nil => simp at hlength
    | append_singleton b y =>
      simp only [List.foldl_append, List.foldl_cons, List.foldl_nil] at h
      have hx := x.toNat_lt
      have hy := y.toNat_lt
      have hlast : x = y := UInt8.toNat_inj.1 (by omega)
      have hlength' : a.length = b.length := by simpa using hlength
      rw [ih hlength' (by omega), hlast]

theorem length_hash (bytes : Bytes) : (Blake2b.hash bytes).length = 8 := by
  rw [Blake2b.hash, List.length_map, List.length_range]

theorem hash_eq_of_digest_eq {xs ys : List Text} (h : digest xs = digest ys) :
    Blake2b.hash (Digest.message xs) = Blake2b.hash (Digest.message ys) :=
  foldl_bytes_inj (by rw [length_hash, length_hash]) h

/-- A window of a file in one of its forms, with its texts. -/
def Window.IsOf (w : Window) (content : Bytes) (texts : List Text) : Prop :=
  ∃ form : NormalForm, ∃ size position,
    (ofLines size (form.lines (Content.lines content)))[position]? = some w ∧
      texts = textsAt (form.lines (Content.lines content)) position size

variable {w : Window} {content : Bytes} {texts : List Text}

theorem Window.IsOf.digest_eq (h : w.IsOf content texts) :
    w.digest = CloneDetection.digest texts := by
  obtain ⟨form, size, position, hw, rfl⟩ := h
  rw [getElem?_ofLines, Option.bind_eq_some_iff] at hw
  obtain ⟨first, -, hw⟩ := hw
  obtain ⟨last, -, rfl⟩ := Option.map_eq_some_iff.1 hw
  rfl

theorem Window.IsOf.lineFeed_not_mem (h : w.IsOf content texts) : ∀ t ∈ texts, '\n' ∉ t := by
  obtain ⟨form, size, position, -, rfl⟩ := h
  intro t ht
  obtain ⟨line, hline, rfl⟩ := List.mem_map.1 ht
  exact form.lineFeed_not_mem_lines content line (List.mem_of_mem_drop (List.mem_of_mem_take hline))

end Collisions

/-- What is hashed for texts without line feeds tells the texts, whatever code points they hold; the
texts of files, in either form, have no line feeds; so windows of files with one digest have the
same texts, or there is a collision. -/
theorem Digest.message_identifies :
    (∀ xs ys : List Text, (∀ t ∈ xs, '\n' ∉ t) → (∀ t ∈ ys, '\n' ∉ t) →
      (message xs = message ys ↔ xs = ys)) ∧
    (∀ texts : List Text, message texts = pointMessage (texts.map Text.points)) ∧
    (∀ xs ys : List (List CodePoint), (∀ t ∈ xs, CodePoint.lineFeed ∉ t) →
      (∀ t ∈ ys, CodePoint.lineFeed ∉ t) →
      (pointMessage xs = pointMessage ys ↔ xs = ys)) ∧
    (∀ (form : NormalForm) (content : Bytes), ∀ line ∈ form.lines (Content.lines content),
      '\n' ∉ line.text) ∧
    (∀ (w w' : Window) (content content' : Bytes) (xs ys : List Text), w.IsOf content xs →
      w'.IsOf content' ys →
      w.digest = w'.digest → xs = ys ∨ Blake2b.Collision (message xs) (message ys)) := by
  refine ⟨fun _ _ => message_inj, message_eq_pointMessage, fun _ _ => pointMessage_inj,
    NormalForm.lineFeed_not_mem_lines, ?_⟩
  intro w w' content content' xs ys hw hw' hdigest
  by_cases hsame : xs = ys
  · exact .inl hsame
  · rw [hw.digest_eq, hw'.digest_eq] at hdigest
    have hmessage : message xs ≠ message ys := fun h =>
      hsame ((message_inj hw.lineFeed_not_mem hw'.lineFeed_not_mem).1 h)
    exact .inr ⟨hmessage, hash_eq_of_digest_eq hdigest⟩

/-- Moving the end of a line changes what is hashed. -/
theorem Digest.message_identifies_boundary :
    message ["ab".toList, "c".toList] ≠ message ["a".toList, "bc".toList] := by
  intro h
  have htexts := (message_identifies.1 _ _ (by decide) (by decide)).1 h
  exact absurd htexts (by decide)

end CloneDetection

import CloneDetection.Proofs.Clone.Block

/-!
# What a form keeps of a file

The lines that a form keeps of a file are those that it keeps of the front, and then those of the
rest, numbered on. So the windows of a form can be found from the places of the lines in the file:
as many kept lines stand before such a place as the form keeps of the front up to there. The exact
form goes by stripped lines.
-/
namespace CloneDetection

namespace NormalForm

/-- The kept ones of lines of which the first has the number `start`. -/
def numbered (form : NormalForm) (start : Nat) (raw : List Text) : List NormalLine :=
  (raw.zipIdx start).filterMap fun (line, number) => (form.text? line).map (NormalLine.mk · number)

/-- The texts that are kept. -/
def texts (form : NormalForm) (raw : List Text) : List Text :=
  raw.filterMap form.text?

section Texts

variable (form : NormalForm) {raw : List Text}

theorem texts_append (front rest : List Text) :
    form.texts (front ++ rest) = form.texts front ++ form.texts rest :=
  List.filterMap_append

/-- What is kept up to a later place is what is kept up to an earlier one and then of the block
between them. -/
theorem texts_take_add (place count : Nat) :
    form.texts (raw.take (place + count)) =
      form.texts (raw.take place) ++ form.texts ((raw.drop place).take count) := by
  rw [List.take_add, texts_append]

theorem length_texts_take_succ {place : Nat} (h : place < raw.length) {text : Text}
    (hkept : form.text? raw[place] = some text) :
    (form.texts (raw.take (place + 1))).length = (form.texts (raw.take place)).length + 1 := by
  have hone : form.texts [raw[place]] = [text] := List.filterMap_cons_some hkept
  rw [List.take_succ_eq_append_getElem h, texts_append, hone, List.length_append]
  rfl

theorem length_texts_take_le {place later : Nat} (h : place ≤ later) :
    (form.texts (raw.take place)).length ≤ (form.texts (raw.take later)).length := by
  obtain ⟨count, rfl⟩ := Nat.exists_eq_add_of_le h
  rw [texts_take_add, List.length_append]
  exact Nat.le_add_right _ _

end Texts

section Numbered

variable (form : NormalForm) (start : Nat)

theorem numbered_append (front rest : List Text) : form.numbered start (front ++ rest) =
    form.numbered start front ++ form.numbered (start + front.length) rest := by
  rw [numbered, List.zipIdx_append, List.filterMap_append]
  rfl

theorem numbered_cons (line : Text) (raw : List Text) : form.numbered start (line :: raw) =
    match form.text? line with
    | none => form.numbered (start + 1) raw
    | some text => ⟨text, start⟩ :: form.numbered (start + 1) raw := by
  rw [numbered, List.zipIdx_cons, List.filterMap_cons]
  dsimp only
  cases form.text? line with
  | none => rfl
  | some text => rfl

theorem map_text_numbered (raw : List Text) :
    (form.numbered start raw).map NormalLine.text = form.texts raw := by
  induction raw generalizing start with
  | nil => rfl
  | cons line raw ih =>
    rw [numbered_cons, texts, List.filterMap_cons]
    cases form.text? line with
    | none => exact ih (start + 1)
    | some text => exact congrArg (List.cons text) (ih (start + 1))

theorem length_numbered (raw : List Text) :
    (form.numbered start raw).length = (form.texts raw).length := by
  rw [← map_text_numbered form start, List.length_map]

theorem numbered_add (shift : Nat) (raw : List Text) : form.numbered (start + shift) raw =
    (form.numbered start raw).map fun l => ⟨l.text, l.number + shift⟩ := by
  induction raw generalizing start with
  | nil => rfl
  | cons line raw ih =>
    have hrest := ih (start + 1)
    rw [Nat.add_right_comm] at hrest
    rw [numbered_cons, numbered_cons]
    cases form.text? line with
    | none => exact hrest
    | some text => exact congrArg (List.cons _) hrest

/-- A kept line has the number of its place in the file, and as many lines are kept in front of that
place as stand before it in the form. -/
theorem exists_of_getElem?_numbered {raw : List Text} {position : Nat} {l : NormalLine}
    (h : (form.numbered start raw)[position]? = some l) :
    ∃ place, ∃ hplace : place < raw.length, form.text? raw[place] = some l.text ∧
      l.number = (start + place : Nat) ∧
      (form.texts (raw.take place)).length = position := by
  induction raw generalizing start position with
  | nil => cases h
  | cons line raw ih =>
    rw [numbered_cons] at h
    cases htext : form.text? line with
    | none =>
      rw [htext] at h
      obtain ⟨place, hplace, hkept, hnumber, hcount⟩ := ih (start + 1) h
      refine ⟨place + 1, Nat.succ_lt_succ hplace, hkept, by omega, ?_⟩
      rw [List.take_succ_cons, texts, List.filterMap_cons_none htext]
      exact hcount
    | some text =>
      rw [htext] at h
      cases position with
      | zero =>
        obtain rfl := Option.some.inj h
        exact ⟨0, Nat.zero_lt_succ _, htext, rfl, rfl⟩
      | succ position =>
        obtain ⟨place, hplace, hkept, hnumber, hcount⟩ := ih (start + 1) h
        refine ⟨place + 1, Nat.succ_lt_succ hplace, hkept, by omega, ?_⟩
        rw [List.take_succ_cons, texts, List.filterMap_cons_some htext, List.length_cons]
        exact congrArg (· + 1) hcount

theorem drop_lines {raw : List Text} {place : Nat} (h : place ≤ raw.length) :
    (form.lines raw).drop (form.texts (raw.take place)).length =
      form.numbered (1 + place) (raw.drop place) := by
  have hsplit : form.lines raw =
      form.numbered 1 (raw.take place) ++ form.numbered (1 + place) (raw.drop place) := by
    have happend := form.numbered_append 1 (raw.take place) (raw.drop place)
    rwa [List.take_append_drop, List.length_take, Nat.min_eq_left h] at happend
  rw [hsplit, ← form.length_numbered 1, List.drop_left]

theorem drop_lines_eq_append {raw : List Text} {place : Nat} (h : place ≤ raw.length)
    (count : Nat) :
    ∃ rest, (form.lines raw).drop (form.texts (raw.take place)).length =
      ((form.numbered 1 ((raw.drop place).take count)).map fun l => ⟨l.text, l.number + place⟩) ++
        rest := by
  have hsplit :=
    form.numbered_append (1 + place) ((raw.drop place).take count) ((raw.drop place).drop count)
  rw [List.take_append_drop] at hsplit
  exact ⟨_, by rw [form.drop_lines h, hsplit, form.numbered_add]⟩

end Numbered

section Digests

variable {form : NormalForm} {raw : List Text} {size : Nat}

theorem digest_ofLines (hsize : 0 < size) (position : Nat) :
    ((Window.ofLines size (form.lines raw))[position]?).map Window.digest =
      if position + size ≤
        (form.texts raw).length then some (digest (((form.texts raw).drop position).take size))
      else none := by
  have htexts : form.texts raw = (form.lines raw).map NormalLine.text :=
    (form.map_text_numbered 1 raw).symm
  rw [Window.getElem?_ofLines, htexts, List.length_map]
  split
  · rw [List.getElem?_eq_getElem (by omega), List.getElem?_eq_getElem (by omega), ← List.map_drop,
      ← List.map_take]
    rfl
  · have hlast : (form.lines raw)[position + (size - 1)]? = none := List.getElem?_eq_none (by omega)
    rw [hlast]
    cases (form.lines raw)[position]? with
    | none => rfl
    | some first => rfl

theorem map_digest_ofLines_congr {other : List Text} (hsize : 0 < size)
    (h : form.texts raw = form.texts other) :
    (Window.ofLines size (form.lines raw)).map Window.digest =
      (Window.ofLines size (form.lines other)).map Window.digest := by
  apply List.ext_getElem?
  intro position
  rw [List.getElem?_map, List.getElem?_map, digest_ofLines hsize, digest_ofLines hsize, h]

/-- A block of which a form keeps enough lines has a window of that form, which starts with the
first of them. -/
theorem digest_ofLines_of_block (hsize : 0 < size) {place count : Nat}
    (hmany : size ≤ (form.texts ((raw.drop place).take count)).length) :
    ((Window.ofLines size (form.lines raw))[(form.texts (raw.take place)).length]?).map
      Window.digest =
      some (digest ((form.texts ((raw.drop place).take count)).take size)) := by
  have hsplit : form.texts raw = form.texts (raw.take place) ++
      (form.texts ((raw.drop place).take count) ++ form.texts ((raw.drop place).drop count)) := by
    simp only [← texts_append, List.take_append_drop]
  rw [digest_ofLines hsize, hsplit, List.drop_left, List.take_append_of_le_length hmany, if_pos]
  simp only [List.length_append]
  omega

end Digests

section Exact

variable {a b : List Text}

theorem numbered_exact_congr (h : a.map Text.strip = b.map Text.strip) (start : Nat) :
    exact.numbered start a = exact.numbered start b := by
  induction a generalizing b start with
  | nil =>
    cases b with
    | nil => rfl
    | cons y b => cases h
  | cons x a ih =>
    cases b with
    | nil => cases h
    | cons y b =>
      obtain ⟨hfirst, hrest⟩ := List.cons.inj h
      have htext : exact.text? x = exact.text? y := by simp only [text?, hfirst]
      rw [numbered_cons, numbered_cons, htext, ih hrest]

theorem texts_exact_congr (h : a.map Text.strip = b.map Text.strip) :
    exact.texts a = exact.texts b := by
  rw [← map_text_numbered exact 1, numbered_exact_congr h, map_text_numbered]

/-- Equal blocks of one file that are not dropped stand behind different numbers of kept lines. -/
theorem place_eq_of_length_texts_eq {raw : List Text} {i j count : Nat} (hi : i ≤ raw.length)
    (hj : j ≤ raw.length)
    (hblock : ((raw.drop i).take count).map Text.strip = ((raw.drop j).take count).map Text.strip)
    (hkept : exact.texts ((raw.drop i).take count) ≠ [])
    (hlength : (exact.texts (raw.take i)).length = (exact.texts (raw.take j)).length) : i = j := by
  obtain ⟨rest, hdrop⟩ := exact.drop_lines_eq_append hi count
  obtain ⟨rest', hdrop'⟩ := exact.drop_lines_eq_append hj count
  rw [hlength, hdrop', ← numbered_exact_congr hblock] at hdrop
  cases hlines : exact.numbered 1 ((raw.drop i).take count) with
  | nil =>
    rw [← map_text_numbered exact 1, hlines] at hkept
    exact absurd rfl hkept
  | cons first lines =>
    rw [hlines] at hdrop
    have hnumber := congrArg NormalLine.number (List.cons.inj hdrop).1
    dsimp only at hnumber
    omega

end Exact

end NormalForm

end CloneDetection

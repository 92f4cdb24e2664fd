import CloneDetection.Proofs.Finding.Key
import CloneDetection.Proofs.Finding.Reported
import CloneDetection.Proofs.Window.Message

/-!
# What a description tells

A description has a line of its own for every location. A path may hold colons, digits, blanks and
whatever looks like another line, but no line feed, and a number holds no colon: so the lines can be
cut apart, and the last colon of a line parts the path from the number. The description of a group
tells where its blocks start, and in which order.
-/
namespace CloneDetection

/-- The last mark cuts a list in two in one way only. -/
theorem append_cons_inj_of_last {α : Type} {a : α} {s s' t t' : List α} (ht : a ∉ t) (ht' : a ∉ t')
    (h : s ++ a :: t = s' ++ a :: t') : s = s' ∧ t = t' := by
  rcases List.append_eq_append_iff.1 h with ⟨c, rfl, hrest⟩ | ⟨c, rfl, hrest⟩
  · cases c with
    | nil => simpa using hrest
    | cons b c => simp [(List.cons.inj hrest).2] at ht
  · cases c with
    | nil => simpa using hrest.symm
    | cons b c => simp [(List.cons.inj hrest).2] at ht'

namespace Finding

variable {l m : Location} {ls ms : List Location} {g h : CloneGroup}

def locationBody (l : Location) : Text :=
  "  - ".toList ++ l.path ++ ':' :: Text.integer l.startLine

theorem locationLine_eq (l : Location) : locationLine l = locationBody l ++ ['\n'] := by
  simp [locationLine, locationBody]

theorem lineFeed_not_mem_locationBody (h : '\n' ∉ l.path) : '\n' ∉ locationBody l := by
  have hnumber : '\n' ∉ Text.integer l.startLine := Text.not_mem_integer rfl (by decide) _
  simp [locationBody, h, hnumber]

/-- The number stands behind the last colon. -/
theorem locationBody_eq_iff : locationBody l = locationBody m ↔ l.start = m.start := by
  have hcolon (n : Int) : ':' ∉ Text.integer n := Text.not_mem_integer rfl (by decide) n
  simp only [Location.start, Place.mk.injEq]
  constructor
  · intro heq
    obtain ⟨hpath, hnumber⟩ := append_cons_inj_of_last (hcolon _) (hcolon _) heq
    exact ⟨List.append_cancel_left hpath, Text.integer_injective hnumber⟩
  · rintro ⟨hpath, hline⟩
    rw [locationBody, locationBody, hpath, hline]

theorem map_locationBody_eq_iff : ls.map locationBody = ms.map locationBody ↔
    ls.map Location.start = ms.map Location.start := by
  induction ls generalizing ms with
  | nil => simp
  | cons l ls ih => cases ms <;> simp [locationBody_eq_iff, ih]

theorem describe_eq_iff (hls : ∀ l ∈ ls, '\n' ∉ l.path) (hms : ∀ l ∈ ms, '\n' ∉ l.path) :
    describe ls = describe ms ↔ ls.map Location.start = ms.map Location.start := by
  have hlines (ls : List Location) : ls.flatMap locationLine =
      (ls.map locationBody).flatMap (· ++ ['\n']) := by
    rw [List.flatMap_map]
    exact List.flatMap_congr fun l _ => locationLine_eq l
  have hbodies {ls : List Location} (hls : ∀ l ∈ ls, '\n' ∉ l.path) : ∀ t ∈ ls.map locationBody,
      '\n' ∉ t :=
    List.forall_mem_map.2 fun l hl => lineFeed_not_mem_locationBody (hls l hl)
  unfold describe
  generalize "Duplicated code found in:\n".toList = heading
  rw [List.append_right_inj, hlines, hlines, flatMap_terminated_inj (hbodies hls) (hbodies hms),
    map_locationBody_eq_iff]

theorem description_of_ofGroup {f : Finding} (h : ofGroup g = .ok f) :
    f.description = describe g.locations := by
  unfold ofGroup at h
  split at h
  · cases h
  · cases h
  · cases h
    rfl

/-- A group that stands somewhere has a finding, unless no double counts its locations. Whatever the
paths hold apart from line feeds, the findings of two groups have one description exactly if the
groups list the same starts in the same order. -/
theorem description_eq_iff (hg : g.locations ≠ []) (hh : h.locations ≠ [])
    (hgpaths : ∀ l ∈ g.locations, '\n' ∉ l.path) (hhpaths : ∀ l ∈ h.locations, '\n' ∉ l.path) :
    (g.locations.length < Nat.pow 2 1023 → ∃ f, ofGroup g = .ok f) ∧
    (h.locations.length < Nat.pow 2 1023 → ∃ f, ofGroup h = .ok f) ∧
    ∀ f f', ofGroup g = .ok f → ofGroup h = .ok f' →
      (f.description = f'.description ↔ g.starts = h.starts) := by
  have hfinding {g : CloneGroup} (hg : g.locations ≠ [])
      (hfew : g.locations.length < Nat.pow 2 1023) :
      ∃ f, ofGroup g = .ok f := by
    cases hresult : ofGroup g with
    | ok f => exact ⟨f, rfl⟩
    | error e => exact absurd (of_ofGroup_eq_error hg hresult).2 (Nat.not_le_of_lt hfew)
  refine ⟨hfinding hg, hfinding hh, fun f f' hf hf' => ?_⟩
  rw [description_of_ofGroup hf, description_of_ofGroup hf', describe_eq_iff hgpaths hhpaths]
  rfl

def twoPlaces : CloneGroup :=
  ⟨6, [⟨"a".toList, 1, 6⟩, ⟨"b".toList, 23, 28⟩], false⟩

/-- A group at two places, whose paths look like numbers and further lines. -/
def oddPaths : CloneGroup :=
  ⟨6, [⟨"a:1\r  - b".toList, 2, 7⟩, ⟨":3  - a:1".toList, 4, 9⟩], false⟩

theorem description_eq_iff_oddPaths :
    twoPlaces.locations ≠ [] ∧ oddPaths.locations ≠ [] ∧
    (∀ l ∈ twoPlaces.locations, '\n' ∉ l.path) ∧
      (∀ l ∈ oddPaths.locations, '\n' ∉ l.path) ∧
      ∃ f f', ofGroup twoPlaces = .ok f ∧ ofGroup oddPaths = .ok f' ∧
        f.description ≠ f'.description := by
  have hg : twoPlaces.locations ≠ [] := List.cons_ne_nil _ _
  have hh : oddPaths.locations ≠ [] := List.cons_ne_nil _ _
  have hgpaths : ∀ l ∈ twoPlaces.locations, '\n' ∉ l.path := by decide
  have hhpaths : ∀ l ∈ oddPaths.locations, '\n' ∉ l.path := by decide
  have hfew : 2 < Nat.pow 2 1023 := by
    generalize htop : 1023 = top
    exact Nat.lt_of_lt_of_le (by decide : 2 < Nat.pow 2 2)
      (Nat.pow_le_pow_right Nat.two_pos (by omega))
  obtain ⟨hf, hf', hiff⟩ := description_eq_iff hg hh hgpaths hhpaths
  obtain ⟨f, hf⟩ := hf hfew
  obtain ⟨f', hf'⟩ := hf' hfew
  refine ⟨hg, hh, hgpaths, hhpaths, f, f', hf, hf', fun heq => ?_⟩
  exact absurd ((hiff f f' hf hf').1 heq) (by decide)

end Finding

end CloneDetection

import CloneDetection.Proofs.Lookup
import CloneDetection.Proofs.Settings.Domain
import CloneDetection.Proofs.Traversal
import CloneDetection.Settings.Layer

/-!
# Settings from the entries of a table

A table gives a layer if every entry has the key of a field and a value that is taken for it. The
layer has the fields in the order of the entries, and each value in the shape of its field; a table
whose keys are distinct has the same fields in any order. Otherwise the first entry that is refused
is the one that is told of.
-/
namespace CloneDetection

namespace Layer

/-- An entry with the key of a field and a value that is taken for it. -/
def Admissible (e : Text × Value) : Prop :=
  ∃ field : Field, field.key = e.1 ∧ field.Takes e.2

/-- An entry with an integer that has no double although its field needs one. -/
def Overflowing (e : Text × Value) : Prop :=
  ∃ field : Field, field.key = e.1 ∧ field.Overflows e.2

/-- What an entry of a table becomes in a layer. -/
def Converts (e d : Text × Value) : Prop :=
  ∃ field : Field, field.key = e.1 ∧ d = (field.name, field.shape e.2)

section Entry

variable {e d : Text × Value}

theorem admissible_iff {field : Field} (h : field.key = e.1) : Admissible e ↔ field.Takes e.2 := by
  refine ⟨?_, fun htakes => ⟨field, h, htakes⟩⟩
  rintro ⟨other, hother, htakes⟩
  rwa [Field.key_inj (h.trans hother.symm)]

theorem overflowing_iff {field : Field} (h : field.key = e.1) :
    Overflowing e ↔ field.Overflows e.2 := by
  refine ⟨?_, fun hover => ⟨field, h, hover⟩⟩
  rintro ⟨other, hother, hover⟩
  rwa [Field.key_inj (h.trans hother.symm)]

/-- How the reading of an entry ends: as the conversion for its field does, and with a refusal where
there is no such field. -/
inductive Settles (e : Text × Value) : Except SettingsError (Text × Value) → Prop
  | taken (d : Text × Value) : Admissible e → ¬ Overflowing e → Converts e d → Settles e (.ok d)
  | overflown (error : SettingsError) : Overflowing e → error.message? = none →
      Settles e (.error error)
  | refused (error : SettingsError) (message : Text) :
    ¬ Admissible e → ¬ Overflowing e → error.message? = some message → Settles e (.error error)

theorem readEntry_settles (e : Text × Value) : Settles e (readEntry e) := by
  obtain ⟨key, v⟩ := e
  unfold readEntry
  dsimp only
  cases hfield : Field.ofKey? key with
  | none =>
    have hkey (field : Field) : field.key ≠ key := by
      rintro rfl
      rw [Field.ofKey?_key] at hfield
      cases hfield
    exact .refused _ _ (fun ⟨field, h, _⟩ => hkey field h) (fun ⟨field, h, _⟩ => hkey field h) rfl
  | some field =>
    have hkey : field.key = key := Field.key_of_ofKey? hfield
    have hadmissible : Admissible (key, v) ↔ field.Takes v := admissible_iff hkey
    have hoverflowing : Overflowing (key, v) ↔ field.Overflows v := overflowing_iff hkey
    have hsettles := field.convert_settles v
    dsimp only
    generalize field.convert v = result at hsettles ⊢
    cases hsettles with
    | taken htakes hover =>
      exact .taken _ (hadmissible.2 htakes) (mt hoverflowing.1 hover) ⟨field, hkey, rfl⟩
    | overflown n hover =>
      exact .overflown (.refused key (.pastDoubles n)) (hoverflowing.2 hover) rfl
    | refused r htakes hover hmessage =>
      obtain ⟨message, hmessage⟩ := hmessage key
      exact .refused (.refused key r) message (mt hadmissible.1 htakes) (mt hoverflowing.1 hover)
        hmessage

theorem of_readEntry_eq_ok (h : readEntry e = .ok d) :
    Admissible e ∧ ¬ Overflowing e ∧ Converts e d := by
  have hsettles := readEntry_settles e
  rw [h] at hsettles
  cases hsettles with
  | taken _ hadmissible hover hconverts => exact ⟨hadmissible, hover, hconverts⟩

theorem exists_readEntry_eq_ok_iff :
    (∃ d, readEntry e = .ok d) ↔ Admissible e ∧ ¬ Overflowing e := by
  have hsettles := readEntry_settles e
  generalize readEntry e = result at hsettles
  cases hsettles with
  | taken d hadmissible hover => exact iff_of_true ⟨d, rfl⟩ ⟨hadmissible, hover⟩
  | overflown _ hover => exact iff_of_false nofun fun h => h.2 hover
  | refused _ _ hadmissible => exact iff_of_false nofun fun h => hadmissible h.1

/-- The reading of an entry fails without a message just for an integer past the doubles. -/
theorem readEntry_silent_iff :
    (∃ error, readEntry e = .error error ∧ error.message? = none) ↔ Overflowing e := by
  have hsettles := readEntry_settles e
  generalize readEntry e = result at hsettles
  cases hsettles with
  | taken d hadmissible hover => exact iff_of_false nofun hover
  | overflown error hover hmessage => exact iff_of_true ⟨error, rfl, hmessage⟩ hover
  | refused error message _ hover hmessage =>
    refine iff_of_false ?_ hover
    rintro ⟨_, h, hnone⟩
    cases h
    rw [hmessage] at hnone
    cases hnone

end Entry

section Entries

variable {entries : List (Text × Value)} {layer : Layer}

/-- A first entry that has no double for its integer, after entries that are taken. -/
def StopsAtOverflow (entries : List (Text × Value)) : Prop :=
  ∃ before e after, entries = before ++ e :: after ∧
    (∀ b ∈ before, Admissible b ∧ ¬ Overflowing b) ∧ Overflowing e

theorem forall₂_of_ofEntries_eq_ok (h : ofEntries entries = .ok layer) :
    List.Forall₂ (fun e d => Admissible e ∧ ¬ Overflowing e ∧ Converts e d) entries layer :=
  (forall₂_of_mapM_eq_ok h).imp fun _ _ => of_readEntry_eq_ok

theorem exists_ofEntries_eq_ok_iff :
    (∃ layer, ofEntries entries = .ok layer) ↔ ∀ e ∈ entries, Admissible e ∧ ¬ Overflowing e := by
  constructor
  · rintro ⟨layer, h⟩ e he
    obtain ⟨d, -, hd⟩ := exists_of_mapM_eq_ok h he
    exact exists_readEntry_eq_ok_iff.1 ⟨d, hd⟩
  · intro h
    cases hlayer : ofEntries entries with
    | ok layer => exact ⟨layer, rfl⟩
    | error error =>
      obtain ⟨e, he, herror⟩ := exists_of_mapM_eq_error hlayer
      obtain ⟨d, hd⟩ := exists_readEntry_eq_ok_iff.2 (h e he)
      rw [hd] at herror
      cases herror

theorem ofEntries_silent_iff :
    (∃ error, ofEntries entries = .error error ∧ error.message? = none) ↔
    StopsAtOverflow entries := by
  constructor
  · rintro ⟨error, h, hmessage⟩
    obtain ⟨before, e, after, hsplit, hbefore, he⟩ := mapM_eq_error_iff.1 h
    exact ⟨before, e, after, hsplit, fun b hb => exists_readEntry_eq_ok_iff.1 (hbefore b hb),
      readEntry_silent_iff.1 ⟨error, he, hmessage⟩⟩
  · rintro ⟨before, e, after, hsplit, hbefore, hover⟩
    obtain ⟨error, he, hmessage⟩ := readEntry_silent_iff.2 hover
    exact ⟨error,
      mapM_eq_error_iff.2 ⟨before, e, after, hsplit,
        fun b hb => exists_readEntry_eq_ok_iff.2 (hbefore b hb),
      he⟩, hmessage⟩

theorem get?_of_forall₂_converts (h : List.Forall₂ Converts entries layer) (field : Field) :
    layer.get? field = (entries.lookup field.key).map field.shape := by
  unfold get?
  induction h with
  | nil => rfl
  | @cons e d entries layer hfirst _ ih =>
    obtain ⟨other, hkey, rfl⟩ := hfirst
    rw [List.lookup_cons, List.lookup_cons, ← hkey]
    by_cases hfield : field = other
    · subst hfield
      rw [beq_self_eq_true, beq_self_eq_true]
      rfl
    · have hname : field.name ≠ other.name := fun h => hfield (Field.name_inj h)
      have hkey' : field.key ≠ other.key := fun h => hfield (Field.key_inj h)
      rw [beq_false_of_ne hname, beq_false_of_ne hkey']
      exact ih

theorem forall₂_converts_of_ofEntries_eq_ok (h : ofEntries entries = .ok layer) :
    List.Forall₂ Converts entries layer :=
  (forall₂_of_ofEntries_eq_ok h).imp fun _ _ hd => hd.2.2

theorem holds_of_ofEntries_eq_ok (h : ofEntries entries = .ok layer) :
    ∀ d ∈ layer, ∃ field : Field, d.1 = field.name ∧ field.Holds d.2 := by
  have hall := forall₂_of_ofEntries_eq_ok h
  clear h
  induction hall with
  | nil => exact nofun
  | cons hfirst _ ih =>
    refine List.forall_mem_cons.2 ⟨?_, ih⟩
    obtain ⟨hadmissible, hover, field, hkey, rfl⟩ := hfirst
    exact ⟨field, rfl, Field.holds_shape ((admissible_iff hkey).1 hadmissible)
      (mt (overflowing_iff hkey).2 hover)⟩

theorem exists_ofEntries_of_perm {others : List (Text × Value)} (hperm : others.Perm entries)
    (h : ofEntries entries = .ok layer) :
    ∃ layer', ofEntries others = .ok layer' ∧ layer'.Perm layer := by
  obtain ⟨layer', hall, hlayer⟩ := List.perm_comp_forall₂ hperm (forall₂_of_mapM_eq_ok h)
  exact ⟨layer', mapM_eq_ok_of_forall₂ hall, hlayer⟩

end Entries

/-- A table with distinct keys gives a layer exactly if all its entries are admissible, and is told
why otherwise. The layer has the entries converted one by one, whatever their order is, and keeps
every field within its bounds. -/
theorem ofEntries_domain {entries : List (Text × Value)} (hkeys : (entries.map Prod.fst).Nodup)
    (hintegers : ∀ key n, (key, .integer n) ∈ entries → ∃ x, Double.ofInt? n = some x) :
    ((∃ layer, ofEntries entries = .ok layer) ↔
      ∀ e ∈ entries, ∃ field : Field, field.key = e.1 ∧
        (field.Admits e.2 ∨ field = .timeout ∧ e.2 = .double .nan)) ∧
    (∀ error, ofEntries entries = .error error → ∃ message, error.message? = some message) ∧
    (∀ layer, ofEntries entries = .ok layer →
      List.Forall₂ Converts entries layer ∧
      (∀ field : Field, layer.get? field = (entries.lookup field.key).map field.shape) ∧
      (∀ d ∈ layer, ∃ field : Field, d.1 = field.name ∧ field.Holds d.2) ∧
      ∀ others, others.Perm entries → ∃ layer', ofEntries others = .ok layer' ∧ layer'.Perm layer ∧
        ∀ field, layer'.get? field = layer.get? field) := by
  have hover : ∀ e ∈ entries, ¬ Overflowing e := by
    rintro ⟨key, v⟩ he ⟨field, -, -, n, rfl, hnone⟩
    obtain ⟨x, hx⟩ := hintegers key n he
    rw [hx] at hnone
    cases hnone
  refine ⟨?_, ?_, ?_⟩
  · rw [exists_ofEntries_eq_ok_iff]
    exact ⟨fun h e he => (h e he).1, fun h e he => ⟨h e he, hover e he⟩⟩
  · intro error h
    refine Option.ne_none_iff_exists'.1 fun hnone => ?_
    obtain ⟨before, e, after, rfl, -, he⟩ := ofEntries_silent_iff.1 ⟨error, h, hnone⟩
    exact hover e (List.mem_append_right _ List.mem_cons_self) he
  · intro layer h
    have hconverts := forall₂_converts_of_ofEntries_eq_ok h
    refine ⟨hconverts, get?_of_forall₂_converts hconverts, holds_of_ofEntries_eq_ok h,
      fun others hperm => ?_⟩
    obtain ⟨layer', h', hlayer⟩ := exists_ofEntries_of_perm hperm h
    refine ⟨layer', h', hlayer, fun field => ?_⟩
    rw [get?_of_forall₂_converts hconverts,
      get?_of_forall₂_converts (forall₂_converts_of_ofEntries_eq_ok h'),
      lookup_eq_of_perm hkeys hperm]

theorem ofEntries_domain_section :
    ∃ layer,
      ofEntries [("max-findings".toList, .integer 1),
        ("exclude".toList, .list [.text "*.js".toList]),
        ("timeout".toList, .double .nan)] = .ok layer ∧
      layer.get? .excludes = some (.tuple [.text "*.js".toList]) := by
  have hintegers : ∀ key n, (key, Value.integer n) ∈ [("max-findings".toList, Value.integer 1),
      ("exclude".toList, Value.list [.text "*.js".toList]), ("timeout".toList, Value.double .nan)] →
        ∃ x, Double.ofInt? n = some x := by
    intro key n hmem
    obtain ⟨-, rfl⟩ : key = "max-findings".toList ∧ n = 1 := by simpa using hmem
    exact ⟨_, Double.ofInt?_one⟩
  obtain ⟨hdomain, -, hlayer⟩ := ofEntries_domain (by decide) hintegers
  obtain ⟨layer, h⟩ :=
    hdomain.2 <| List.forall_mem_cons.2 ⟨⟨.maxFindings, rfl, .inl ⟨1, rfl, le_rfl⟩⟩,
    List.forall_mem_cons.2 ⟨⟨.excludes, rfl, .inl ⟨["*.js".toList], rfl⟩⟩,
      List.forall_mem_singleton.2 ⟨.timeout, rfl, .inr ⟨rfl, rfl⟩⟩⟩⟩
  exact ⟨layer, h, (hlayer layer h).2.1 .excludes⟩

/-- A timeout that is not a number is not in the domain, and is taken. -/
theorem ofEntries_timeout_nan :
    ofEntries [("timeout".toList, .double .nan)] = .ok [("timeout".toList, .double .nan)] ∧
      ¬ Field.timeout.Admits (.double .nan) := by
  refine ⟨rfl, ?_⟩
  rintro ⟨n, hn, hnonnegative⟩
  cases hn
  have hle : Double.zero ≤ .nan := hnonnegative
  exact absurd hle (by decide)

end Layer

end CloneDetection

import CloneDetection.Proofs.Settings.Document
import CloneDetection.Proofs.Toml.Keys
import CloneDetection.Proofs.Tree.Distinct

/-!
# Layers of fields

What a document gives are fields only, each of them once, and a tuple of texts for every field that
accumulates. What such a layer gives a field does not depend on the order of its entries.
-/
namespace CloneDetection

namespace Layer

/-- A layer of fields of their own, with tuples of texts where texts add up. -/
structure Sound (layer : Layer) : Prop where
  nodup : (layer.map Prod.fst).Nodup
  fields : ∀ d ∈ layer, ∃ field : Field, d.1 = field.name ∧
  (field.accumulates → ∃ texts, d.2 = .ofTexts texts)

/-- The texts that a layer gives a field, none if it does not give the field at all. -/
def Gives (layer : Layer) (field : Field) (texts : List Text) : Prop :=
  layer.get? field = none ∧ texts = [] ∨ layer.get? field = some (.ofTexts texts)

variable {layer layer' : Layer} {field : Field}

theorem Sound.get (h : layer.Sound) (hfield : field.accumulates) :
    ∃ texts, layer.Gives field texts := by
  cases hget : layer.get? field with
  | none => exact ⟨[], .inl ⟨hget, rfl⟩⟩
  | some v =>
    have hmem : (field.name, v) ∈ layer := (lookup_eq_some_iff_mem h.nodup).1 hget
    obtain ⟨other, hname, htexts⟩ := h.fields _ hmem
    rw [← Field.name_inj hname] at htexts
    obtain ⟨texts, rfl⟩ := htexts hfield
    exact ⟨texts, .inr hget⟩

theorem Sound.of_perm (h : layer.Sound) (hperm : layer'.Perm layer) : layer'.Sound :=
  ⟨(hperm.map Prod.fst).nodup_iff.2 h.nodup, fun d hd => h.fields d (hperm.mem_iff.1 hd)⟩

theorem Sound.get?_of_perm (h : layer.Sound) (hperm : layer'.Perm layer) (field : Field) :
    layer'.get? field = layer.get? field :=
  lookup_eq_of_perm h.nodup hperm field.name

section Document

theorem sound_nil : Sound [] :=
  ⟨.nil, nofun⟩

theorem nodup_of_forall₂_converts {entries : List (Text × Value)}
    (hkeys : (entries.map Prod.fst).Nodup) (h : List.Forall₂ Converts entries layer) :
    (layer.map Prod.fst).Nodup := by
  induction h with
  | nil => exact .nil
  | @cons e d entries layer hfirst hrest ih =>
    rw [List.map_cons, List.nodup_cons] at hkeys ⊢
    refine ⟨fun hmem => hkeys.1 ?_, ih hkeys.2⟩
    obtain ⟨field, hkey, rfl⟩ := hfirst
    rw [← hkey]
    have hget := get?_of_forall₂_converts hrest field
    by_contra hkey'
    rw [lookup_eq_none_iff_not_mem.2 hkey'] at hget
    exact lookup_eq_none_iff_not_mem.1 hget hmem

theorem sound_of_ofEntries {entries : List (Text × Value)} (hkeys : (entries.map Prod.fst).Nodup)
    (h : ofEntries entries = .ok layer) : layer.Sound := by
  refine ⟨nodup_of_forall₂_converts hkeys (forall₂_converts_of_ofEntries_eq_ok h), fun d hd => ?_⟩
  obtain ⟨field, hname, hholds⟩ := holds_of_ofEntries_eq_ok h d hd
  refine ⟨field, hname, fun hfield => ?_⟩
  cases field with
  | excludes | includes | languages => exact hholds
  | _ => cases hfield

theorem isToml_of_lookup {entries : List (Text × Value)} {k : Text} {v : Value}
    (h : (Value.table entries).IsToml) (hlookup : entries.lookup k = some v) : v.IsToml := by
  cases h with
  | table nodup all => exact all _ ((lookup_eq_some_iff_mem nodup).1 hlookup)

theorem sound_of_ofDocument {entries : List (Text × Value)}
    (hentries : (Value.table entries).IsToml) (h : ofDocument entries = .ok layer) :
    layer.Sound := by
  unfold ofDocument at h
  split at h
  · cases h
    exact sound_nil
  · next tools htools =>
    split at h
    · cases h
      exact sound_nil
    · next settings hsettings =>
      have hdistinct := isToml_of_lookup (isToml_of_lookup hentries htools) hsettings
      cases hdistinct with
      | table nodup _ =>
        cases hlayer : ofEntries settings with
        | error e =>
          rw [hlayer] at h
          cases h
        | ok read =>
          rw [hlayer] at h
          cases h
          exact sound_of_ofEntries nodup hlayer
    · cases h
  · cases h

theorem sound_of_ofFile {content? : Option Bytes} (h : ofFile content? = .ok layer) :
    layer.Sound := by
  cases content? with
  | none =>
    cases h
    exact sound_nil
  | some content =>
    unfold ofFile ofBytes at h
    dsimp only at h
    split at h
    · cases h
    · split at h
      · next entries hread => exact sound_of_ofDocument (Toml.isToml_of_read hread) h
      · cases h

end Document

end Layer

end CloneDetection

import CloneDetection.Command.Arguments
import CloneDetection.Proofs.Settings.Layers

/-!
# The layer of the command line

The host promises a value in its domain for every parameter, and a tuple of texts for one that may
be given several times. Whichever of them stand on the command line, they make up a layer of fields:
every field has one parameter, and those with a tuple are the fields that accumulate.
-/
namespace CloneDetection

namespace Command

/-- Whether a value is in the domain. What is no number at all passes for one within the bounds. -/
def Domain.Holds : Domain → Value → Prop
  | .text, v => ∃ t, v = .text t
  | .unit, v => ∃ x, v = .double x ∧ ¬ (x < .zero ∨ .ofDecimal false 1 0 < x)
  | .duration, v => ∃ x, v = .double x ∧ ¬ x < .zero
  | .count, v => ∃ n, v = .integer n ∧ 1 ≤ n
  | .format, v => ∃ t ∈ Field.formats, v = .text t

def Parameter.Holds (p : Parameter) (v : Value) : Prop :=
  if p.repeatable then ∃ texts, v = .ofTexts texts else p.domain.Holds v

theorem Parameter.holds_default : ∀ p ∈ parameters, p.Holds p.default := by
  simp only [parameters, List.forall_mem_cons, Parameter.Holds, Domain.Holds]
  exact ⟨⟨[], rfl⟩, ⟨[], rfl⟩, ⟨[], rfl⟩, ⟨_, rfl, by decide +kernel⟩, ⟨_, rfl, by decide⟩,
    ⟨_, by decide, rfl⟩,
    ⟨_, rfl, by decide⟩, ⟨_, rfl, by decide +kernel⟩, List.forall_mem_nil _⟩

def fieldName (name : Text) : Text :=
  (tupleOptions.lookup name).getD name

theorem map_fieldName_parameters :
    parameters.map (fieldName ·.name) = Field.all.map Field.name := by
  decide

/-- The parameters that may be given several times are those of the fields that accumulate. -/
theorem tupleOptions_of_mem : ∀ p ∈ parameters, (tupleOptions.lookup p.name).isSome = p.repeatable ∧
    (Field.ofName? (fieldName p.name)).map Field.accumulates = some p.repeatable := by
  decide

namespace Keywords

/-- What the host promises of the values. -/
def Valid (k : Keywords) : Prop :=
  List.Forall₂ (fun p e => e.1 = p.name ∧ p.Holds e.2) parameters k.values

/-- The entries of the layer: what stands on the command line, each under the name of its field. -/
def given (k : Keywords) : Layer :=
  (k.values.filter fun e => k.source e.1 = some .commandLine).map fun e => (fieldName e.1, e.2)

section Valid

variable {k : Keywords} (h : k.Valid)
include h

theorem Valid.exists_parameter {e : Text × Value} (he : e ∈ k.values) :
    ∃ p ∈ parameters, e.1 = p.name ∧ p.Holds e.2 := by
  obtain ⟨i, hi, rfl⟩ := List.getElem_of_mem he
  have hlength := h.length_eq
  exact ⟨parameters[i], List.getElem_mem _, h.get (by omega) hi⟩

theorem Valid.map_fieldName : k.values.map (fieldName ·.1) = Field.all.map Field.name := by
  have hnames :
      List.Forall₂ Eq (parameters.map (fieldName ·.name)) (k.values.map (fieldName ·.1)) := by
    rw [List.forall₂_map_left_iff, List.forall₂_map_right_iff]
    exact h.imp fun p e he => by rw [he.1]
  rw [List.forall₂_eq_eq_eq] at hnames
  rw [← hnames, map_fieldName_parameters]

theorem Valid.nodup_fieldName : (k.values.map (fieldName ·.1)).Nodup := by
  rw [h.map_fieldName]
  decide

theorem Valid.collect_eq {e : Text × Value} (he : e ∈ k.values) (layer : Layer) :
    k.collect layer e =
      .ok (if k.source e.1 = some .commandLine then setEntry layer (fieldName e.1) e.2
        else layer) := by
  obtain ⟨p, hp, hname, hholds⟩ := h.exists_parameter he
  obtain ⟨hrepeatable, -⟩ := tupleOptions_of_mem p hp
  unfold collect fieldName
  dsimp only
  split
  · cases hlookup : tupleOptions.lookup e.1 with
    | none => rfl
    | some name =>
      rw [← hname, hlookup] at hrepeatable
      have hrepeats : p.repeatable = true := hrepeatable.symm
      rw [Parameter.Holds, if_pos hrepeats] at hholds
      obtain ⟨texts, htexts⟩ := hholds
      rw [htexts]
      rfl
  · rfl

theorem Valid.explicit_eq : k.explicit = .ok (update [] k.given) := by
  rw [explicit, foldlM_eq_ok fun e he layer => h.collect_eq he layer, given, update, List.foldl_map,
    List.foldl_filter]
  simp only [decide_eq_true_eq]

theorem Valid.nodup_given : (k.given.map Prod.fst).Nodup := by
  rw [given, List.map_map]
  exact h.nodup_fieldName.sublist (List.filter_sublist.map _)

theorem Valid.lookup_given {e : Text × Value} (he : e ∈ k.values) :
    k.given.lookup (fieldName e.1) = if k.source e.1 =
      some .commandLine then some e.2 else none := by
  split
  · next hsource =>
    rw [lookup_eq_some_iff_mem h.nodup_given]
    exact List.mem_map.2 ⟨e, List.mem_filter.2 ⟨he, decide_eq_true hsource⟩, rfl⟩
  · next hsource =>
    rw [lookup_eq_none_iff_not_mem]
    intro hmem
    obtain ⟨_, hd, hname⟩ := List.mem_map.1 hmem
    obtain ⟨e', he', rfl⟩ := List.mem_map.1 hd
    obtain ⟨hvalue, hsource'⟩ := List.mem_filter.1 he'
    have hsame : e' = e := List.inj_on_of_nodup_map h.nodup_fieldName hvalue he hname
    rw [hsame, decide_eq_true_eq] at hsource'
    exact hsource hsource'

theorem Valid.exists_value (field : Field) : ∃ e ∈ k.values, fieldName e.1 = field.name := by
  have hmem : field.name ∈ k.values.map (fieldName ·.1) := by
    rw [h.map_fieldName]
    exact List.mem_map_of_mem field.mem_all
  obtain ⟨e, he, hname⟩ := List.mem_map.1 hmem
  exact ⟨e, he, hname⟩

theorem Valid.sound : Layer.Sound (update [] k.given) := by
  have hempty : (([] : Layer).map Prod.fst).Nodup := List.nodup_nil
  refine ⟨nodup_keys_update hempty _, forall_mem_update (List.forall_mem_nil _) fun d hd => ?_⟩
  obtain ⟨e, he, rfl⟩ := List.mem_map.1 hd
  obtain ⟨p, hp, hname, hholds⟩ := h.exists_parameter (List.mem_filter.1 he).1
  obtain ⟨-, haccumulates⟩ := tupleOptions_of_mem p hp
  rw [Option.map_eq_some_iff] at haccumulates
  obtain ⟨field, hfield, haccumulates⟩ := haccumulates
  refine ⟨field, ?_, fun hadds => ?_⟩
  · rw [hname]
    exact (Field.name_of_ofName? hfield).symm
  · rw [Parameter.Holds, if_pos (haccumulates.symm.trans hadds)] at hholds
    exact hholds

end Valid

end Keywords

section Reading

theorem Domain.holds_of_read? {domain : Domain} {t : Text} {v : Value}
    (h : domain.read? t = some v) :
    domain.Holds v := by
  cases domain with
  | text =>
    cases h
    exact ⟨t, rfl⟩
  | unit =>
    obtain ⟨x, -, hx⟩ := Option.bind_eq_some_iff.1 h
    split at hx
    · cases hx
    · next hbounds =>
      cases hx
      exact ⟨x, rfl, hbounds⟩
  | duration =>
    obtain ⟨x, -, hx⟩ := Option.bind_eq_some_iff.1 h
    split at hx
    · cases hx
    · next hbound =>
      cases hx
      exact ⟨x, rfl, hbound⟩
  | count =>
    obtain ⟨n, -, hn⟩ := Option.bind_eq_some_iff.1 h
    split at hn
    · cases hn
    · next hbound =>
      cases hn
      exact ⟨n, rfl, by omega⟩
  | format =>
    unfold read? at h
    dsimp only at h
    split at h
    · next hmem =>
      cases h
      exact ⟨t, by simpa using hmem, rfl⟩
    · cases h

theorem Arguments.valid_keywords {a : Arguments} {k : Keywords} (h : a.keywords = .ok k) :
    k.Valid := by
  obtain ⟨values, hvalues, hk⟩ := exists_of_bind_eq_ok h
  cases hk
  have hread := forall₂_of_mapM_eq_ok hvalues
  refine ((List.forall₂_and_left (p := (· ∈ parameters)) _ _).2 ⟨fun _ hp => hp, hread⟩).imp ?_
  rintro p e ⟨hp, he⟩
  obtain ⟨v, hv, he⟩ := exists_of_bind_eq_ok he
  cases he
  refine ⟨rfl, ?_⟩
  unfold valueOf at hv
  dsimp only at hv
  unfold Parameter.Holds
  split at hv
  · next hrepeatable =>
    cases hv
    rw [if_pos hrepeatable]
    exact ⟨_, rfl⟩
  · next hsingle =>
    split at hv
    · cases hv
      exact Parameter.holds_default p hp
    · split at hv
      · next hread =>
        cases hv
        rw [if_neg hsingle]
        exact Domain.holds_of_read? hread
      · cases hv

end Reading

end Command

end CloneDetection

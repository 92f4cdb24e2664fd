import CloneDetection.Proofs.Settings.Keywords

/-!
# Merging the layers of the command line and of a document

Both layers name fields only, each of them once, and hold a tuple of texts for every field that
accumulates; this is all that merging asks for. So it does not fail, no pattern of either layer is
lost, and the order in which a layer gives its fields does not matter.
-/
namespace CloneDetection

namespace Configuration

open Layer

variable {upper lower : Layer} {field : Field}

theorem contains_tupleNames (field : Field) :
    tupleNames.contains field.name = field.accumulates := by
  cases field <;> decide

/-- What an entry of the upper layer comes to under its name. -/
def laid (lower : Layer) (name : Text) (given : Value) : Value :=
  match lower.lookup name, given with
  | some (.tuple a), .tuple b => if tupleNames.contains name then .tuple (a ++ b) else given
  | _, _ => given

/-- Fields do not stop the merging: where tuples are to be joined, both layers have one. -/
theorem lay_eq (hupper : upper.Sound) (hlower : lower.Sound) {d : Text × Value} (hd : d ∈ upper)
    (merged : Layer) :
    lay lower merged d = .ok (setEntry merged d.1 (laid lower d.1 d.2)) := by
  obtain ⟨field, hname, htexts⟩ := hupper.fields d hd
  unfold lay laid
  dsimp only
  rw [hname, contains_tupleNames]
  cases hfield : field.accumulates with
  | false =>
    rw [if_neg Bool.false_ne_true]
    split <;> simp
  | true =>
    rw [if_pos rfl]
    obtain ⟨texts, hgiven⟩ := htexts hfield
    obtain ⟨below, hbelow⟩ := hlower.get hfield
    rw [hgiven]
    rcases hbelow with ⟨hnone, -⟩ | hsome
    · rw [Layer.get?] at hnone
      rw [hnone]
    · rw [Layer.get?] at hsome
      rw [hsome]
      rfl

theorem exists_merged (hupper : upper.Sound) (hlower : lower.Sound) :
    ∃ merged : Layer, upper.foldlM (lay lower) (update [] lower) = .ok merged ∧
      (∀ name, merged.lookup name = ((upper.lookup name).map (laid lower name)).or
        (lower.lookup name)) ∧
      ∀ d ∈ merged, ∃ field : Field, d.1 = field.name := by
  let above : Layer := upper.map fun d => (d.1, laid lower d.1 d.2)
  have hkeys : (above.map Prod.fst).Nodup := by
    rw [List.map_map]
    exact hupper.nodup
  have hfold : upper.foldlM (lay lower) (update [] lower) =
      .ok (update (update [] lower) above) := by
    rw [foldlM_eq_ok fun d hd merged => lay_eq hupper hlower hd merged,
      update.eq_1 (update [] lower), List.foldl_map]
  refine ⟨_, hfold, fun name => ?_, ?_⟩
  · rw [lookup_update _ hkeys, lookup_map, lookup_update _ hlower.nodup, List.lookup_nil,
      Option.or_none]
  · have hfields {layer : Layer} (h : layer.Sound) : ∀ d ∈ layer, ∃ field :
        Field, d.1 = field.name := by
      intro d hd
      obtain ⟨field, hname, -⟩ := h.fields d hd
      exact ⟨field, hname⟩
    refine forall_mem_update (forall_mem_update (List.forall_mem_nil _) (hfields hlower)) fun d
      hd => ?_
    obtain ⟨e, he, rfl⟩ := List.mem_map.1 hd
    exact hfields hupper e he

theorem ofLayer_eq_ok {layer : Layer} (h : ∀ d ∈ layer, ∃ field : Field, d.1 = field.name) :
    ofLayer layer = .ok ⟨fun field => (layer.get? field).getD field.default⟩ := by
  have hnoField : layer.find? (fun d => (Field.ofName? d.1).isNone) = none := by
    refine List.find?_eq_none.2 fun d hd => ?_
    obtain ⟨field, hname⟩ := h d hd
    rw [hname, Field.ofName?_name]
    nofun
  rw [ofLayer, hnoField]

/-- The value of a field after merging. -/
def merged (upper lower : Layer) (field : Field) : Value :=
  (((upper.get? field).map (laid lower field.name)).or (lower.get? field)).getD field.default

theorem merge_eq_ok (hupper : upper.Sound) (hlower : lower.Sound) :
    merge upper lower = .ok ⟨merged upper lower⟩ := by
  obtain ⟨layer, hfold, hlookup, hfields⟩ := exists_merged hupper hlower
  have hmerge : merge upper lower = ofLayer layer := by
    rw [merge, hfold]
    rfl
  rw [hmerge, ofLayer_eq_ok hfields]
  congr
  funext field
  rw [Layer.get?, hlookup]
  rfl

theorem merged_of_gives {above below : List Text} (hfield : field.accumulates)
    (hupper : upper.Gives field above) (hlower : lower.Gives field below) :
    merged upper lower field = .ofTexts (below ++ above) := by
  have hdefault : field.default = .ofTexts [] := by
    cases field <;> first | rfl | cases hfield
  unfold merged laid
  rcases hupper with ⟨hupper, rfl⟩ | hupper
  · rw [hupper, List.append_nil]
    rcases hlower with ⟨hlower, rfl⟩ | hlower
    · rw [hlower]
      exact hdefault
    · rw [hlower]
      rfl
  · rw [hupper, Option.map_some]
    rcases hlower with ⟨hlower, rfl⟩ | hlower
    · rw [Layer.get?] at hlower
      rw [hlower]
      rfl
    · have hjoined : Value.ofTexts (below ++ above) = .tuple (below.map .text ++ above.map .text) :=
        congrArg Value.tuple List.map_append
      rw [Layer.get?] at hlower
      rw [hlower, contains_tupleNames, hfield, hjoined]
      rfl

theorem merged_of_scalar (hfield : field.accumulates = false) (upper lower : Layer) :
    merged upper lower field = ((upper.get? field).or (lower.get? field)).getD field.default := by
  have hlaid (given : Value) : laid lower field.name given = given := by
    unfold laid
    rw [contains_tupleNames, hfield]
    split
    · rfl
    · rfl
  rw [merged, funext hlaid, Option.map_id']

/-- Whichever parameters stand on the command line and whatever is in the document, their layers
merge. A field that accumulates has the texts of the document and then those of the command line;
another one has the value of the command line if that gives it, else that of the document, else its
default. The order of the fields in the layers does not matter. -/
theorem merge_layers {k : Command.Keywords} (hk : k.Valid) {content? : Option Bytes} {lower : Layer}
    (hlower : ofFile content? = .ok lower) :
    ∃ upper c, k.explicit = .ok upper ∧ merge upper lower = .ok c ∧
      (∀ field : Field, ∃ e ∈ k.values, Command.fieldName e.1 = field.name ∧
        upper.get? field = if k.source e.1 = some .commandLine then some e.2 else none) ∧
      (∀ field : Field, field.accumulates → ∃ above below, upper.Gives field above ∧
        lower.Gives field below ∧
        c.value field = .ofTexts (below ++ above)) ∧
      (∀ field : Field, field.accumulates = false →
        c.value field = ((upper.get? field).or (lower.get? field)).getD field.default) ∧
      (∀ upper' lower' : Layer, upper'.Perm upper → lower'.Perm lower →
        merge upper' lower' = .ok c) := by
  have hupper := hk.sound
  have hlower' := sound_of_ofFile hlower
  refine ⟨_, _, hk.explicit_eq, merge_eq_ok hupper hlower', fun field => ?_, fun field hfield => ?_,
    fun field hfield => merged_of_scalar hfield _ _, fun above below habove hbelow => ?_⟩
  · obtain ⟨e, he, hname⟩ := hk.exists_value field
    refine ⟨e, he, hname, ?_⟩
    rw [Layer.get?, lookup_update _ hk.nodup_given, ← hname, hk.lookup_given he, List.lookup_nil,
      Option.or_none]
  · obtain ⟨above, habove⟩ := hupper.get hfield
    obtain ⟨below, hbelow⟩ := hlower'.get hfield
    exact ⟨above, below, habove, hbelow, merged_of_gives hfield habove hbelow⟩
  · have hsame : merged above below = merged (update [] k.given) lower := by
      funext field
      have hbelow' (name : Text) : below.lookup name = lower.lookup name :=
        lookup_eq_of_perm hlower'.nodup hbelow name
      unfold merged laid
      rw [hupper.get?_of_perm habove, hlower'.get?_of_perm hbelow, hbelow']
    rw [merge_eq_ok (hupper.of_perm habove) (hlower'.of_perm hbelow), hsame]

def patternArguments : Command.Arguments where
  values :=
    [("exclude".toList, "c".toList), ("workers".toList, "2".toList), ("exclude".toList, "d".toList)]

def patternDocument : Text :=
  "[tool.clonewatch]\nexclude = ['b', 'a', 'b']\nworkers = 4".toList

/-- The patterns of a document and then those of the command line, and its number of workers. -/
theorem merge_layers_patterns :
    ∃ k upper lower c, patternArguments.keywords = .ok k ∧ k.Valid ∧ k.explicit = .ok upper ∧
      ofFile (some (Utf8.encode patternDocument)) = .ok lower ∧ merge upper lower = .ok c ∧
      c.value .excludes = .ofTexts ["b".toList, "a".toList, "b".toList, "c".toList, "d".toList] ∧
      c.value .workers = .integer 2 := by
  have hexplicit : ∃ k, patternArguments.keywords = .ok k ∧
      k.explicit = .ok [("exclude_patterns".toList, .ofTexts ["c".toList, "d".toList]),
        ("workers".toList, .integer 2)] := ⟨_, rfl, rfl⟩
  obtain ⟨k, hkeywords, hexplicit⟩ := hexplicit
  have hk : k.Valid := Command.Arguments.valid_keywords hkeywords
  have hpatterns : (match ofFile (some (Utf8.encode patternDocument)) with
      | .ok lower => (lower.get? .excludes).bind Value.texts?
      | .error _ => none) = some ["b".toList, "a".toList, "b".toList] := by
    decide +kernel
  cases hlower : ofFile (some (Utf8.encode patternDocument)) with
  | error e =>
    rw [hlower] at hpatterns
    cases hpatterns
  | ok lower =>
    rw [hlower] at hpatterns
    obtain ⟨upper, c, hupper, hc, -, htexts, hscalar, -⟩ := merge_layers hk hlower
    cases hexplicit.symm.trans hupper
    obtain ⟨above, below, habove, hbelow, hvalue⟩ := htexts .excludes rfl
    have habove' : above = ["c".toList, "d".toList] := by
      rcases habove with ⟨hnone, -⟩ | habove
      · cases hnone
      · have hsame : Value.ofTexts above = .ofTexts ["c".toList, "d".toList] :=
          (Option.some.inj habove).symm
        have hboth := congrArg Value.texts? hsame
        rw [Value.texts?_ofTexts, Value.texts?_ofTexts] at hboth
        exact Option.some.inj hboth
    have hbelow' : below = ["b".toList, "a".toList, "b".toList] := by
      rcases hbelow with ⟨hnone, -⟩ | hbelow
      · simp only [hnone, Option.bind_none, reduceCtorEq] at hpatterns
      · simpa only [hbelow, Option.bind_some, Value.texts?_ofTexts, Option.some.injEq] using
          hpatterns
    rw [habove', hbelow'] at hvalue
    exact ⟨k, _, lower, c, hkeywords, hk, hexplicit, rfl, hc, hvalue, hscalar .workers rfl⟩

end Configuration

end CloneDetection

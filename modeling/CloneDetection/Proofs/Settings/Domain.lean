import CloneDetection.Proofs.Double.Rounding
import CloneDetection.Settings.Field

/-!
# The domains of the fields

The domain of every field is said here without the conversion, which takes exactly the values of the
domain, with two exceptions. A timeout that is not a number is not below zero, so it is taken
although it is not in the domain; and an integer past the doubles has no conversion where a double
is needed.
-/
namespace CloneDetection

namespace Numeric

def IsFraction : Numeric → Prop
  | .whole n => 0 ≤ n ∧ n ≤ 1
  | .double x => .zero ≤ x ∧ x ≤ .ofDecimal false 1 0

def IsNonnegative : Numeric → Prop
  | .whole n => 0 ≤ n
  | .double x => .zero ≤ x

def double? : Numeric → Option Double
  | .whole n => Double.ofInt? n
  | .double x => some x

variable {n : Numeric} {x : Double}

theorem nearest_of_double? (h : n.double? = some x) : n.nearest = x := by
  cases n with
  | whole n => rw [nearest, show Double.ofInt? n = some x from h, Option.getD_some]
  | double y => exact Option.some.inj h

theorem isFraction_iff (h : n.double? = some x) :
    n.IsFraction ↔ .zero ≤ x ∧ x ≤ .ofDecimal false 1 0 := by
  cases n with
  | whole n =>
    exact (and_congr (Double.zero_le_of_ofInt?_iff h) (Double.of_ofInt?_le_one_iff h)).symm
  | double y => rw [← Option.some.inj h, IsFraction]

theorem isNonnegative_iff (h : n.double? = some x) : n.IsNonnegative ↔ .zero ≤ x := by
  cases n with
  | whole n => exact (Double.zero_le_of_ofInt?_iff h).symm
  | double y => rw [← Option.some.inj h, IsNonnegative]

theorem IsFraction.exists_double? (h : n.IsFraction) : ∃ x, n.double? = some x := by
  cases n with
  | whole n =>
    obtain ⟨hzero, hone⟩ := h
    obtain rfl | rfl : n = 0 ∨ n = 1 := by omega
    · exact ⟨_, Double.ofInt?_zero⟩
    · exact ⟨_, Double.ofInt?_one⟩
  | double x => exact ⟨x, rfl⟩

theorem not_lt_zero_iff (h : n.double? = some x) :
    ¬ x < .zero ↔ n.IsNonnegative ∨ n = .double .nan := by
  have hwhole : n = .double .nan ↔ x = .nan := by
    cases n with
    | whole n => exact iff_of_false nofun (by rw [Double.eq_of_ofInt? h]; exact nofun)
    | double y => rw [← Option.some.inj h, double.injEq]
  rw [isNonnegative_iff h, hwhole]
  have hzero : Double.zero ≠ .nan := nofun
  by_cases hnan : x = .nan
  · have hlt : ¬ Double.nan < .zero := nofun
    rw [hnan]
    exact iff_of_true hlt (.inr rfl)
  · rw [Double.not_lt_iff_le hzero hnan, or_iff_left hnan]

end Numeric

/-- Whatever is said of a value names the key under which it stands. -/
theorem Refusal.key_infix_of_message? {r : Refusal} {key message : Text}
    (h : r.message? key = some message) :
    key <:+: message := by
  have infix_of {rest : Text} (hmessage : sectionName ++ " '".toList ++ key ++ "' ".toList ++ rest =
      message) :
      key <:+: message :=
    ⟨sectionName ++ " '".toList,
      "' ".toList ++ rest, by rw [← hmessage, List.append_assoc _ "' ".toList rest]⟩
  cases r with
  | pastDoubles => cases h
  | noField => exact ⟨sectionName ++ " unhandled field '".toList, ['\''], Option.some.inj h⟩
  | _ => exact infix_of (Option.some.inj h)

namespace Field

/-- The domain of a field in a document. -/
def Admits (field : Field) (v : Value) : Prop :=
  match field with
  | .excludes | .includes | .languages => ∃ texts : List Text, v = .list (texts.map .text)
  | .minConfidence => ∃ n, v = .numeric n ∧ n.IsFraction
  | .maxFindings | .workers => ∃ n, v = .integer n ∧ 1 ≤ n
  | .format => v = .text "human".toList ∨ v = .text "json".toList
  | .timeout => ∃ n, v = .numeric n ∧ n.IsNonnegative

/-- What is taken for a field: its domain, and a timeout that is not a number. -/
def Takes (field : Field) (v : Value) : Prop :=
  field.Admits v ∨ field = .timeout ∧ v = .double .nan

/-- An integer past the doubles where a double is needed. -/
def Overflows (field : Field) (v : Value) : Prop :=
  (field = .minConfidence ∨ field = .timeout) ∧ ∃ n, v = .integer n ∧ Double.ofInt? n = none

/-- The shape that values of the domain have in a configuration. -/
def shape (field : Field) (v : Value) : Value :=
  match field with
  | .excludes | .includes | .languages =>
    match v with
    | .list items => .tuple items
    | v => v
  | .minConfidence | .timeout =>
    match v with
    | .numeric n => .double n.nearest
    | v => v
  | .maxFindings | .workers | .format => v

def Holds (field : Field) (v : Value) : Prop :=
  match field with
  | .excludes | .includes | .languages => ∃ texts, v = .ofTexts texts
  | .minConfidence => ∃ x, v = .double x ∧ .zero ≤ x ∧ x ≤ .ofDecimal false 1 0
  | .maxFindings | .workers => ∃ n, v = .integer n ∧ 1 ≤ n
  | .format => v = .text "human".toList ∨ v = .text "json".toList
  | .timeout => ∃ x, v = .double x ∧ (.zero ≤ x ∨ x = .nan)

theorem holds_default (field : Field) : field.Holds field.default := by
  cases field with
  | excludes | includes | languages => exact ⟨[], rfl⟩
  | minConfidence => exact ⟨.zero, rfl, by decide, by decide +kernel⟩
  | maxFindings => exact ⟨200, rfl, by decide⟩
  | format => exact .inl rfl
  | workers => exact ⟨1, rfl, by decide⟩
  | timeout => exact ⟨.zero, rfl, .inl (by decide)⟩

theorem key_inj {field other : Field} (h : field.key = other.key) : field = other :=
  Option.some.inj (by rw [← ofKey?_key field, h, ofKey?_key])

theorem name_inj {field other : Field} (h : field.name = other.name) : field = other :=
  Option.some.inj (by rw [← ofName?_name field, h, ofName?_name])

theorem takes_iff {field : Field} (h : field ≠ .timeout) (v : Value) :
    field.Takes v ↔ field.Admits v :=
  or_iff_left fun hnan => h hnan.1

/-- How a conversion of a value ends: it gives the shape of a value that is taken; it has no double
for an integer; or it refuses a value that is not taken, and says why. -/
inductive Settles (takes overflows : Prop) (shape : Value) : Except Refusal Value → Prop
  | taken : takes → ¬ overflows → Settles takes overflows shape (.ok shape)
  | overflown (n : Int) : overflows → Settles takes overflows shape (.error (.pastDoubles n))
  | refused (r : Refusal) :
    ¬ takes → ¬ overflows → (∀ key, ∃ message, r.message? key = some message) →
      Settles takes overflows shape (.error r)

theorem Settles.of_admits {field : Field} {v : Value} {result : Except Refusal Value}
    (hconfidence : field ≠ .minConfidence) (htimeout : field ≠ .timeout)
    (h : Settles (field.Admits v) False (field.shape v) result) :
    Settles (field.Takes v) (field.Overflows v) (field.shape v) result := by
  have hover : ¬ field.Overflows v := fun hover => hover.1.elim hconfidence htimeout
  rwa [propext (takes_iff htimeout v), propext (iff_false_intro hover)]

section Conversion

theorem convertCount_settles (v : Value) :
    Settles (∃ n, v = .integer n ∧ 1 ≤ n) False v (convertCount v) := by
  unfold convertCount
  split
  · next n =>
    split
    · refine .refused _ ?_ not_false fun key => ⟨_, rfl⟩
      rintro ⟨m, hm, hone⟩
      cases hm
      omega
    · exact .taken ⟨n, rfl, by omega⟩ not_false
  · next hinteger =>
    refine .refused _ ?_ not_false fun key => ⟨_, rfl⟩
    rintro ⟨n, rfl, -⟩
    exact hinteger n rfl

theorem convertFormat_settles (v : Value) :
    Settles (v = .text "human".toList ∨ v = .text "json".toList) False v (convertFormat v) := by
  have hformats (t : Text) : formats.contains t ↔ t = "human".toList ∨ t = "json".toList := by
    simp [formats]
  unfold convertFormat
  split
  · next t =>
    rw [Value.text.injEq, Value.text.injEq, ← hformats]
    split
    · next ht => exact .taken ht not_false
    · next ht => exact .refused _ ht not_false fun key => ⟨_, rfl⟩
  · next htext =>
    refine .refused _ ?_ not_false fun key => ⟨_, rfl⟩
    rintro (rfl | rfl) <;> exact htext _ rfl

theorem mapM_text?_eq_some_iff {items : List Value} {texts : List Text} :
    items.mapM Value.text? = some texts ↔ items = texts.map .text := by
  constructor
  · intro h
    induction items generalizing texts with
    | nil =>
      cases h
      rfl
    | cons v items ih =>
      rw [List.mapM_cons] at h
      obtain ⟨t, ht, h⟩ := Option.bind_eq_some_iff.1 h
      obtain ⟨rest, hrest, h⟩ := Option.bind_eq_some_iff.1 h
      cases h
      cases v with
      | text s =>
        cases ht
        rw [ih hrest, List.map_cons]
      | _ => cases ht
  · rintro rfl
    exact Value.mapM_text?_map texts

theorem convertTexts_settles (v : Value) :
    Settles (∃ texts : List Text, v = .list (texts.map .text)) False (Field.excludes.shape v)
      (convertTexts v) := by
  unfold convertTexts
  split
  · next items =>
    split
    · next texts htexts =>
      rw [mapM_text?_eq_some_iff.1 htexts]
      exact .taken ⟨texts, rfl⟩ not_false
    · next hitems =>
      refine .refused _ ?_ not_false fun key => ⟨_, rfl⟩
      rintro ⟨texts, htexts⟩
      rw [mapM_text?_eq_some_iff.2 (Value.list.inj htexts)] at hitems
      cases hitems
  · next hlist =>
    refine .refused _ ?_ not_false fun key => ⟨_, rfl⟩
    rintro ⟨texts, rfl⟩
    exact hlist _ rfl

theorem convertNumber_cases (v : Value) :
    (∃ n x, v = .numeric n ∧ n.double? = some x ∧ convertNumber v = .ok (n, x)) ∨
    (∃ n, v = .integer n ∧ Double.ofInt? n = none ∧ convertNumber v = .error (.pastDoubles n)) ∨
    (∀ n, v ≠ .numeric n) ∧ convertNumber v = .error (.notNumber v) := by
  unfold convertNumber Numeric.double?
  -- a name for the doubles of integers, which would be computed where they decide a case
  obtain ⟨ofInt?, hofInt?⟩ : ∃ f, f = Double.ofInt? := ⟨_, rfl⟩
  rw [← hofInt?]
  split
  · exact .inl ⟨_, _, rfl, rfl, rfl⟩
  · next n =>
    cases hx : ofInt? n with
    | some x => exact .inl ⟨_, x, rfl, hx, rfl⟩
    | none => exact .inr (.inl ⟨n, rfl, hx, rfl⟩)
  · next hdouble hwhole =>
    refine .inr (.inr ⟨fun n hv => ?_, rfl⟩)
    cases n with
    | whole n => exact hwhole n hv
    | double x => exact hdouble x hv

variable {v : Value} {n : Numeric} {x : Double} {m : Int}

theorem not_overflows_of_double? (field : Field) (hx : n.double? = some x) :
    ¬ field.Overflows (.numeric n) := by
  rintro ⟨-, m, hm, hnone⟩
  cases hm
  rw [show Double.ofInt? m = some x from hx] at hnone
  cases hnone

/-- A field that needs a double settles for what is no number and for integers past the doubles, and
else as the check of the number does. -/
theorem settles_of_number {field : Field} (hfield : field = .minConfidence ∨ field = .timeout)
    {check : Numeric × Double → Except Refusal Value}
    (hcheck : ∀ n x, n.double? = some x →
      Settles (field.Takes (.numeric n)) (field.Overflows (.numeric n)) (.double x) (check (n, x)))
    (v : Value) :
    Settles (field.Takes v) (field.Overflows v) (field.shape v) (convertNumber v >>= check) := by
  rcases convertNumber_cases v with ⟨n, x, rfl, hx, hnumber⟩ | ⟨n, rfl, hnone, hnumber⟩ | ⟨hv,
    hnumber⟩ <;>
    rw [hnumber]
  · have hshape : field.shape (.numeric n) = .double x := by
      rcases hfield with rfl | rfl <;> rw [shape, Numeric.nearest_of_double? hx]
    rw [hshape]
    exact hcheck n x hx
  · exact .overflown n ⟨hfield, n, rfl, hnone⟩
  · refine .refused _ ?_ ?_ fun key => ⟨_, rfl⟩
    · rintro (hadmits | ⟨-, rfl⟩)
      · rcases hfield with rfl | rfl <;>
          · obtain ⟨n, rfl, -⟩ := hadmits
            exact hv n rfl
      · exact hv _ rfl
    · rintro ⟨-, n, rfl, -⟩
      exact hv _ rfl

theorem convertConfidence_settles (v : Value) :
    Settles (Field.minConfidence.Takes v) (Field.minConfidence.Overflows v)
      (Field.minConfidence.shape v)
      (convertConfidence v) := by
  refine settles_of_number (.inl rfl) (fun n x hx => ?_) v
  have htakes : Field.minConfidence.Takes (.numeric n) ↔ .zero ≤ x ∧ x ≤ .ofDecimal false 1 0 := by
    rw [takes_iff (by decide), ← Numeric.isFraction_iff hx]
    exact ⟨fun ⟨_, hm, h⟩ => by cases hm; exact h, fun h => ⟨n, rfl, h⟩⟩
  have hover := not_overflows_of_double? .minConfidence hx
  rw [htakes]
  change Settles _ _ _ (if .zero ≤ x ∧ x ≤ .ofDecimal false 1 0 then .ok (.double x) else
    .error (.outsideUnit n))
  split
  · next h => exact .taken h hover
  · next h => exact .refused _ h hover fun key => ⟨_, rfl⟩

theorem convertTimeout_settles (v : Value) :
    Settles (Field.timeout.Takes v) (Field.timeout.Overflows v) (Field.timeout.shape v)
      (convertTimeout v) := by
  refine settles_of_number (.inr rfl) (fun n x hx => ?_) v
  have htakes : Field.timeout.Takes (.numeric n) ↔ ¬ x < .zero := by
    rw [Numeric.not_lt_zero_iff hx]
    refine or_congr ⟨fun ⟨_, hm, h⟩ => by cases hm; exact h, fun h => ⟨n, rfl, h⟩⟩ ?_
    exact ⟨fun ⟨_, h⟩ => Value.numeric.inj h, fun h => ⟨rfl, congrArg _ h⟩⟩
  have hover := not_overflows_of_double? .timeout hx
  rw [htakes]
  change Settles _ _ _ (if x < .zero then .error (.negative n) else .ok (.double x))
  split
  · next h => exact .refused _ (not_not_intro h) hover fun key => ⟨_, rfl⟩
  · next h => exact .taken h hover

end Conversion

theorem convert_settles (field : Field) (v : Value) :
    Settles (field.Takes v) (field.Overflows v) (field.shape v) (field.convert v) := by
  cases field with
  | excludes | includes | languages =>
    exact .of_admits (by decide) (by decide) (convertTexts_settles v)
  | maxFindings | workers => exact .of_admits (by decide) (by decide) (convertCount_settles v)
  | format => exact .of_admits (by decide) (by decide) (convertFormat_settles v)
  | minConfidence => exact convertConfidence_settles v
  | timeout => exact convertTimeout_settles v

variable {field : Field} {v w : Value}

theorem holds_shape (htakes : field.Takes v) (hover : ¬ field.Overflows v) :
    field.Holds (field.shape v) := by
  rcases htakes with hadmits | ⟨rfl, rfl⟩
  · cases field with
    | excludes | includes | languages =>
      obtain ⟨texts, rfl⟩ := hadmits
      exact ⟨texts, rfl⟩
    | minConfidence =>
      obtain ⟨n, rfl, hn⟩ := hadmits
      obtain ⟨x, hx⟩ := hn.exists_double?
      exact ⟨n.nearest,
        rfl, by rw [Numeric.nearest_of_double? hx]; exact (Numeric.isFraction_iff hx).1 hn⟩
    | maxFindings | workers | format => exact hadmits
    | timeout =>
      obtain ⟨n, rfl, hn⟩ := hadmits
      obtain ⟨x, hx⟩ : ∃ x, n.double? = some x := by
        cases n with
        | whole n => exact Option.ne_none_iff_exists'.1 fun hnone => hover ⟨.inr rfl, n, rfl, hnone⟩
        | double x => exact ⟨x, rfl⟩
      exact ⟨n.nearest, rfl,
        .inl (by rw [Numeric.nearest_of_double? hx]; exact (Numeric.isNonnegative_iff hx).1 hn)⟩
  · exact ⟨.nan, rfl, .inr rfl⟩

end Field

end CloneDetection

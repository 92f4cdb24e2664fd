import CloneDetection.Json.Reading
import CloneDetection.Proofs.Double.Shortest

/-!
# Numbers in JSON

A number is read by its parts: digits, a fraction and an exponent, up to a character that none of
them can go on with. Integers have digits only. A double is written with its shortest digits and the
point or the exponent where the layout puts it, and whichever form that is, what is read has the
value of these digits; so it is the double again: `plain?_write`.
-/
namespace CloneDetection

namespace Json

open Text (Digits)

section Value

theorem digitsValue_eq (t : Text) : digitsValue t = Nat.ofDigitChars 10 t 0 := by
  rw [digitsValue, Numeral.value, List.foldl_map, Nat.ofDigitChars_eq_foldl]

theorem digitsValue_natural (n : Nat) : digitsValue (Text.natural n) = n := by
  rw [digitsValue_eq, Text.natural, Nat.ofDigitChars_ten_toDigits]

theorem digitsValue_zeros_append (n : Nat) (t : Text) :
    digitsValue (List.replicate n '0' ++ t) = digitsValue t := by
  simp [digitsValue_eq, Nat.ofDigitChars_append]

theorem digitsValue_append_zeros (t : Text) (n : Nat) :
    digitsValue (t ++ List.replicate n '0') = digitsValue t * 10 ^ n := by
  simp [digitsValue_eq, Nat.ofDigitChars_append, Nat.mul_comm]

theorem digitsValue_padded (width n : Nat) : digitsValue (Text.padded width n) = n := by
  unfold Text.padded
  dsimp only
  rw [digitsValue_zeros_append, digitsValue_natural]

end Value

/-- What may follow a number: it does not go on with it. -/
def Ends (rest : Text) : Prop :=
  ∀ c ∈ rest.head?, c.isDigit = false ∧ c ≠ '.' ∧ c ≠ 'e' ∧ c ≠ 'E'

structure Parts where
  whole : Text
  fraction : Text
  exponent? : Option Int

namespace Parts

def fractionText (fraction : Text) : Text :=
  if fraction.isEmpty then [] else '.' :: fraction

def exponentText (exponent? : Option Int) : Text :=
  (exponent?.map Layout.exponent).getD []

def text (p : Parts) : Text :=
  p.whole ++ (fractionText p.fraction ++ exponentText p.exponent?)

def value (p : Parts) (negative : Bool) : Json :=
  if p.fraction.isEmpty && p.exponent?.isNone then
    .integer (if negative then -(digitsValue p.whole : Int) else digitsValue p.whole)
  else .number
    (.ofDecimal negative (digitsValue (p.whole ++ p.fraction))
      (p.exponent?.getD 0 - p.fraction.length))

structure WellFormed (p : Parts) : Prop where
  whole : Digits p.whole
  whole_ne : p.whole ≠ []
  leading : p.whole.head? = some '0' → p.whole.length = 1
  fraction : Digits p.fraction

end Parts

section Reading

variable {fraction rest : Text}

theorem fraction?_append (h : Digits fraction)
    (hrest : ∀ c ∈ rest.head?, c.isDigit = false ∧ c ≠ '.') :
    fraction? (Parts.fractionText fraction ++ rest) = some (fraction, rest) := by
  unfold Parts.fractionText
  cases fraction with
  | nil =>
    cases rest with
    | nil => rfl
    | cons c rest =>
      have hpoint : c ≠ '.' := (hrest c rfl).2
      simp [fraction?, hpoint]
  | cons d fraction =>
    have hdigit : ∀ c ∈ rest.head?, c.isDigit = false := fun c hc => (hrest c hc).1
    have htake := h.takeWhile_append hdigit
    have hdrop := h.dropWhile_append hdigit
    rw [List.cons_append] at htake hdrop
    simp [fraction?, htake, hdrop]

theorem exponent?_digits {digits : Text} (h : Digits digits) (hne : digits ≠ []) (hrest : Ends rest)
    (negative : Bool) :
    exponent? ('e' :: (if negative then '-' else '+') :: (digits ++ rest)) =
      some (some (if negative then -(digitsValue digits : Int) else digitsValue digits), rest) := by
  have hdigit : ∀ c ∈ rest.head?, c.isDigit = false := fun c hc => (hrest c hc).1
  cases negative <;> simp [exponent?, Numeral.signed, h.takeWhile_append hdigit,
    h.dropWhile_append hdigit, hne]

theorem exponent?_exponent (e : Int) (hrest : Ends rest) :
    exponent? (Layout.exponent e ++ rest) = some (some e, rest) := by
  have hne : Text.padded 2 e.natAbs ≠ [] := by simp [Text.padded, Text.natural_ne_nil]
  have hread := exponent?_digits (Text.digits_padded 2 e.natAbs) hne hrest (e < 0)
  rw [digitsValue_padded] at hread
  unfold Layout.exponent
  by_cases h : e < 0
  · have hvalue : -(e.natAbs : Int) = e := by omega
    rw [decide_eq_true h, if_pos rfl, if_pos rfl, hvalue] at hread
    rw [if_pos h]
    exact hread
  · have hvalue : (e.natAbs : Int) = e := by omega
    rw [decide_eq_false h, if_neg Bool.false_ne_true, if_neg Bool.false_ne_true, hvalue] at hread
    rw [if_neg h]
    exact hread

theorem exponent?_append (e? : Option Int) (hrest : Ends rest) :
    exponent? (Parts.exponentText e? ++ rest) = some (e?, rest) := by
  cases e? with
  | some e => exact exponent?_exponent e hrest
  | none =>
    cases rest with
    | nil => rfl
    | cons c rest =>
      obtain ⟨-, -, he, hE⟩ := hrest c rfl
      simp [Parts.exponentText, exponent?, he, hE]

/-- Neither the exponent nor what follows the number goes on with digits. -/
theorem head?_exponentText (e? : Option Int) (hrest : Ends rest) :
    ∀ c ∈ (Parts.exponentText e? ++ rest).head?, c.isDigit = false ∧ c ≠ '.' := by
  cases e? with
  | none => exact fun c hc => ⟨(hrest c hc).1, (hrest c hc).2.1⟩
  | some e =>
    intro c hc
    have hhead : c = 'e' := by
      by_cases h : e < 0 <;> simpa [Parts.exponentText, Layout.exponent, h, eq_comm] using hc
    subst hhead
    decide

theorem head?_fractionText {after : Text} (fraction : Text)
    (hafter : ∀ c ∈ after.head?, c.isDigit = false ∧ c ≠ '.') :
    ∀ c ∈ (Parts.fractionText fraction ++ after).head?, c.isDigit = false := by
  cases fraction with
  | nil => exact fun c hc => (hafter c hc).1
  | cons d fraction =>
    intro c hc
    have hhead : c = '.' := by simpa [Parts.fractionText, eq_comm] using hc
    subst hhead
    decide

theorem unsigned?_text {p : Parts} (h : p.WellFormed) (negative : Bool) (hrest : Ends rest) :
    unsigned? negative (p.text ++ rest) = some (p.value negative, rest) := by
  have hexponent := head?_exponentText p.exponent? hrest
  have hwhole := head?_fractionText p.fraction hexponent
  have htext : p.text ++ rest =
      p.whole ++ (Parts.fractionText p.fraction ++ (Parts.exponentText p.exponent? ++ rest)) := by
    simp [Parts.text]
  have hstarts : (p.whole.isEmpty || p.whole.head? == some '0' && p.whole.length != 1) = false := by
    simp only [Bool.or_eq_false_iff, List.isEmpty_eq_false_iff, Bool.and_eq_false_imp, beq_iff_eq,
      bne_eq_false_iff_eq]
    exact ⟨h.whole_ne, h.leading⟩
  unfold unsigned?
  rw [htext, h.whole.takeWhile_append hwhole, h.whole.dropWhile_append hwhole]
  simp only [hstarts, Bool.false_eq_true, if_false, fraction?_append h.fraction hexponent,
    exponent?_append p.exponent? hrest, Option.bind_eq_bind, Option.bind_some]
  unfold Parts.value
  split <;> rfl

end Reading

section Signs

variable {c : Char} {t rest : Text}

theorem ne_of_isDigit {d : Char} (h : c.isDigit = true) (hd : d.isDigit = false) : d ≠ c := by
  rintro rfl
  simp [h] at hd

/-- No name begins like a number. -/
theorem plain?_digit (h : c.isDigit = true) (t : Text) :
    plain? (c :: t) = unsigned? false (c :: t) := by
  have hn : 'n' ≠ c := ne_of_isDigit h rfl
  have ht : 't' ≠ c := ne_of_isDigit h rfl
  have hf : 'f' ≠ c := ne_of_isDigit h rfl
  have hN : 'N' ≠ c := ne_of_isDigit h rfl
  have hI : 'I' ≠ c := ne_of_isDigit h rfl
  have hminus : '-' ≠ c := ne_of_isDigit h rfl
  simp [plain?, names, hn, ht, hf, hN, hI, hminus, hminus.symm]

theorem plain?_minus (h : c.isDigit = true) (t : Text) :
    plain? ('-' :: c :: t) = unsigned? true (c :: t) := by
  have hI : 'I' ≠ c := ne_of_isDigit h rfl
  simp [plain?, names, hI]

theorem plain?_text {p : Parts} (h : p.WellFormed) (negative : Bool) (hrest : Ends rest) :
    plain? (Layout.sign negative ++ p.text ++ rest) = some (p.value negative, rest) := by
  have hread := unsigned?_text h negative hrest
  obtain ⟨c, whole, hwhole⟩ := List.exists_cons_of_ne_nil h.whole_ne
  have hdigit : c.isDigit = true := h.whole c (hwhole ▸ List.mem_cons_self)
  have htext : p.text ++ rest =
      c :: (whole ++ (Parts.fractionText p.fraction ++ Parts.exponentText p.exponent?) ++
        rest) := by
    rw [Parts.text, hwhole]
    rfl
  rw [List.append_assoc, ← hread]
  cases negative with
  | true =>
    rw [htext]
    exact plain?_minus hdigit _
  | false =>
    rw [htext]
    exact plain?_digit hdigit _

theorem wellFormed_natural (n : Nat) : (⟨Text.natural n, [], none⟩ : Parts).WellFormed where
  whole := Text.digits_natural n
  whole_ne := Text.natural_ne_nil n
  leading := by
    intro hhead
    by_cases hn : 0 < n
    · exact absurd hhead (Text.head?_natural_ne hn)
    · rw [Nat.eq_zero_of_not_pos hn]
      rfl
  fraction := nofun

theorem integer_eq (n : Int) :
    Text.integer n = Layout.sign (n < 0) ++ Parts.text ⟨Text.natural n.natAbs, [], none⟩ := by
  cases n <;> simp [Text.integer, Layout.sign, Parts.text, Parts.fractionText, Parts.exponentText,
    Int.negSucc_lt_zero,
    Int.natAbs_negSucc]

theorem value_natural (n : Int) :
    Parts.value ⟨Text.natural n.natAbs, [], none⟩ (n < 0) = .integer n := by
  simp only [Parts.value, List.isEmpty_nil, Option.isNone_none, Bool.and_self, if_true,
    digitsValue_natural, decide_eq_true_eq]
  congr 1
  split <;> omega

theorem plain?_integer (n : Int) (hrest : Ends rest) :
    plain? (Text.integer n ++ rest) = some (.integer n, rest) := by
  rw [integer_eq, plain?_text (wellFormed_natural n.natAbs) _ hrest, value_natural]

end Signs

section Doubles

/-- The digits without the zeros at their end, and where the point stands. -/
theorem exists_pointed {d : Decimal} (hd : 0 < d.digits) :
    ∃ digits zeros, d.pointed = (digits, (digits.length + zeros : Nat) + d.exponent) ∧
      Digits digits ∧ digits ≠ [] ∧
      digits.head? ≠ some '0' ∧ d.digits = digitsValue digits * 10 ^ zeros := by
  let digits : Text := ((Text.natural d.digits).reverse.dropWhile (· == '0')).reverse
  let zeros : Text := ((Text.natural d.digits).reverse.takeWhile (· == '0')).reverse
  have hsplit : Text.natural d.digits = digits ++ zeros := by
    rw [← List.reverse_append, List.takeWhile_append_dropWhile, List.reverse_reverse]
  have hzeros : zeros = List.replicate zeros.length '0' := by
    apply List.eq_replicate_of_mem
    intro c hc
    simpa using List.mem_takeWhile_imp (List.mem_reverse.1 hc)
  have hvalue : d.digits = digitsValue digits * 10 ^ zeros.length := by
    rw [← digitsValue_append_zeros, ← hzeros, ← hsplit, digitsValue_natural]
  have hne : digits ≠ [] := by
    intro hnil
    rw [hnil] at hvalue
    simp [digitsValue, Numeral.value] at hvalue
    omega
  refine ⟨digits, zeros.length, ?_, ?_, hne, ?_, hvalue⟩
  · have hlength : (Text.natural d.digits).length = digits.length + zeros.length := by
      rw [hsplit, List.length_append]
    unfold Decimal.pointed
    dsimp only
    rw [hlength]
  · exact (Text.digits_natural d.digits).sublist (hsplit ▸ List.sublist_append_left _ _)
  · have hhead := Text.head?_natural_ne hd
    rwa [hsplit, List.head?_append, List.head?_eq_some_head hne, Option.some_or,
      ← List.head?_eq_some_head hne] at hhead

/-- The parts of a double whose value is that of digits with a point after so many of them. -/
structure Parts.Spells (p : Parts) (digits : Text) (point : Int) : Prop where
  wellFormed : p.WellFormed
  isDouble : (p.fraction.isEmpty && p.exponent?.isNone) = false
  value : ∃ zeros : Nat, digitsValue (p.whole ++ p.fraction) = digitsValue digits * 10 ^ zeros ∧
    p.exponent?.getD 0 - p.fraction.length + zeros = point - digits.length

section Places

variable {digits : Text} {point : Int}

theorem spells_small (hdigits : Digits digits) (hne : digits ≠ []) (hpoint : point ≤ 0) :
    Parts.Spells ⟨['0'], List.replicate point.natAbs '0' ++ digits, none⟩ digits point where
  wellFormed :=
    ⟨Text.digits_replicate 1, List.cons_ne_nil _ _, fun _ => rfl,
      (Text.digits_replicate _).append hdigits⟩
  isDouble := by simp [hne]
  value := by
    refine ⟨0, ?_, ?_⟩
    · have hzero := digitsValue_zeros_append 1 (List.replicate point.natAbs '0' ++ digits)
      rw [Nat.pow_zero, Nat.mul_one]
      exact hzero.trans (digitsValue_zeros_append _ _)
    · simp only [Option.getD_none, List.length_append, List.length_replicate]
      omega

theorem spells_whole (hdigits : Digits digits) (hne : digits ≠ []) (hhead : digits.head? ≠ some '0')
    (hpoint : (digits.length : Int) ≤ point) :
    Parts.Spells ⟨digits ++ List.replicate (point.toNat - digits.length) '0', ['0'], none⟩ digits
      point where
  wellFormed := by
    refine ⟨hdigits.append
      (Text.digits_replicate _), by simp [hne], fun hzero => ?_, Text.digits_replicate 1⟩
    dsimp only at hzero
    rw [List.head?_append, List.head?_eq_some_head hne, Option.some_or,
      ← List.head?_eq_some_head hne] at hzero
    exact absurd hzero hhead
  isDouble := rfl
  value := by
    refine ⟨point.toNat - digits.length + 1, ?_, ?_⟩
    · dsimp only
      rw [List.append_assoc, ← List.replicate_one, List.replicate_append_replicate,
        digitsValue_append_zeros]
    · simp only [Option.getD_none, List.length_singleton]
      omega

theorem spells_inside (hdigits : Digits digits) (hhead : digits.head? ≠ some '0')
    (hpoint : 0 < point) (hlength : point < digits.length) :
    Parts.Spells ⟨digits.take point.toNat, digits.drop point.toNat, none⟩ digits point where
  wellFormed := by
    have hne : digits ≠ [] := List.ne_nil_of_length_pos (by omega)
    refine ⟨hdigits.sublist (List.take_sublist _ _), ?_, fun hzero => ?_,
      hdigits.sublist (List.drop_sublist _ _)⟩
    · simp only [ne_eq, List.take_eq_nil_iff, hne, or_false]
      omega
    · dsimp only at hzero
      rw [List.head?_take, if_neg (by omega)] at hzero
      exact absurd hzero hhead
  isDouble := by
    simp only [Option.isNone_none, Bool.and_true, List.isEmpty_eq_false_iff, ne_eq,
      List.drop_eq_nil_iff]
    omega
  value := by
    refine ⟨0, ?_, ?_⟩
    · simp
    · simp only [Option.getD_none, List.length_drop]
      omega

theorem spells_exponent {d : Char} (hdigits : Digits (d :: digits)) :
    Parts.Spells ⟨[d], digits, some (point - 1)⟩ (d :: digits) point where
  wellFormed := by
    refine ⟨hdigits.sublist (List.singleton_sublist.2 List.mem_cons_self), List.cons_ne_nil _ _,
      fun _ => rfl,
      hdigits.sublist (List.sublist_cons_self _ _)⟩
  isDouble := by simp
  value := by
    refine ⟨0, ?_, ?_⟩
    · simp
    · simp only [Option.getD_some, List.length_cons]
      omega

/-- Wherever the point is put, the parts of the text have the value of the digits. -/
theorem exists_parts_place (hdigits : Digits digits) (hne : digits ≠ [])
    (hhead : digits.head? ≠ some '0') (point : Int) :
    ∃ p : Parts, Layout.json.place digits point = p.text ∧ p.Spells digits point := by
  unfold Layout.place
  by_cases hplain : Layout.json.lowest < point ∧ point ≤ Layout.json.highest
  · rw [if_pos hplain]
    by_cases hsmall : point ≤ 0
    · rw [if_pos hsmall]
      refine ⟨_, ?_, spells_small hdigits hne hsmall⟩
      simp [Parts.text, Parts.fractionText, Parts.exponentText, hne]
    · rw [if_neg hsmall]
      by_cases hwhole : (digits.length : Int) ≤ point
      · rw [if_pos hwhole]
        refine ⟨_, ?_, spells_whole hdigits hne hhead hwhole⟩
        simp [Parts.text, Parts.fractionText, Parts.exponentText, Layout.json]
      · rw [if_neg hwhole]
        refine ⟨_, ?_, spells_inside hdigits hhead (by omega) (by omega)⟩
        simp [Parts.text, Parts.fractionText, Parts.exponentText]
        omega
  · rw [if_neg hplain]
    obtain ⟨d, rest, rfl⟩ := List.exists_cons_of_ne_nil hne
    refine ⟨_, ?_, spells_exponent hdigits⟩
    cases rest <;> simp [Parts.text, Parts.fractionText, Parts.exponentText]

end Places

theorem exists_parts_write_of_pos {units : Nat} (h : Double.Representable units) (hpos : 0 < units)
    (negative : Bool) :
    ∃ p : Parts, (Double.finite negative units).write .json = Layout.sign negative ++ p.text ∧
      p.WellFormed ∧
      p.value negative = .number (.finite negative units) := by
  have hreads := Decimal.reads_shortest h hpos
  obtain ⟨digits, zeros, hpointed, hdigits, hne, hhead, hvalue⟩ :=
    exists_pointed (hreads.digits_pos h hpos)
  obtain ⟨p, htext, hspells⟩ := exists_parts_place hdigits hne hhead
    ((digits.length + zeros : Nat) + (Decimal.shortest units).exponent)
  refine ⟨p, ?_, hspells.wellFormed, ?_⟩
  · obtain ⟨n, rfl⟩ : ∃ n, units = n + 1 := ⟨units - 1, by omega⟩
    rw [Double.write, Layout.render, hpointed]
    · dsimp only
      rw [htext]
    · exact Nat.succ_ne_zero n
  · obtain ⟨more, hdigitsValue, hexponent⟩ := hspells.value
    have hsame :
        (⟨digitsValue (p.whole ++ p.fraction), p.exponent?.getD 0 - p.fraction.length⟩ :
          Decimal).Reads units := by
      apply hreads.of_same hvalue hdigitsValue
      dsimp only
      omega
    unfold Parts.value
    rw [hspells.isDouble, hsame.ofDecimal_eq h hpos]
    rfl

/-- A finite double is written with a sign and parts that are read as it; zero keeps its sign. -/
theorem exists_parts_write {units : Nat} (h : Double.Representable units) (negative : Bool) :
    ∃ p : Parts, (Double.finite negative units).write .json = Layout.sign negative ++ p.text ∧
      p.WellFormed ∧
      p.value negative = .number (.finite negative units) := by
  by_cases hpos : 0 < units
  · exact exists_parts_write_of_pos h hpos negative
  · rw [Nat.eq_zero_of_not_pos hpos]
    exact ⟨⟨['0'], ['0'], none⟩, rfl,
      ⟨Text.digits_replicate 1, List.cons_ne_nil _ _, fun _ => rfl, Text.digits_replicate 1⟩, rfl⟩

theorem plain?_write {x : Double} (hx : x.Proper) {rest : Text} (hrest : Ends rest) :
    plain? (x.write .json ++ rest) = some (.number x, rest) := by
  cases hx with
  | nan => rfl
  | infinite negative => cases negative <;> rfl
  | finite negative h =>
    obtain ⟨p, htext, hform, hvalue⟩ := exists_parts_write h negative
    rw [htext, plain?_text hform negative hrest, hvalue]

end Doubles

end Json

end CloneDetection

import CloneDetection.Proofs.Json.Numbers
import CloneDetection.Proofs.Json.Strings

/-!
# A document is read back

A value is read from its text, whatever the level it is written at and whatever follows it, with
fuel for the length of the text. For arrays and objects this comes down to one statement about lists
of parts with commas between them (`Listing.read`), for which the parts must begin with neither a
blank nor a closing bracket. So a document whose doubles are proper is read back from what is
written: `read?_render`.
-/
namespace CloneDetection

namespace Json

/-- A document in which every double is one that a number can be rounded to. -/
inductive Proper : Json → Prop
  | null : Proper .null
  | bool (value : Bool) : Proper (.bool value)
  | integer (value : Int) : Proper (.integer value)
  | number {value : Double} (h : value.Proper) : Proper (.number value)
  | text (value : Text) : Proper (.text value)
  | array {items : List Json} (h : ∀ item ∈ items, Proper item) : Proper (.array items)
  | object {members : List (Text × Json)} (h : ∀ m ∈ members, Proper m.2) : Proper (.object members)

def Opens (t : Text) : Prop :=
  ∃ c rest, t = c :: rest ∧ isSpace c = false ∧ c ≠ ']' ∧ c ≠ '\x7d'

section Spaces

variable {c : Char} {s t : Text}

theorem skip_cons (h : isSpace c = false) (t : Text) : skip (c :: t) = c :: t := by
  simp [skip, h]

theorem Opens.append (h : Opens s) (t : Text) : Opens (s ++ t) := by
  obtain ⟨c, rest, rfl, hc⟩ := h
  exact ⟨c, rest ++ t, rfl, hc⟩

theorem Opens.skip_eq (h : Opens t) : skip t = t := by
  obtain ⟨c, rest, rfl, hc, -⟩ := h
  exact skip_cons hc rest

/-- The fuel for a text that is not empty is not used up. -/
theorem Opens.exists_fuel (h : Opens t) {fuel : Nat} (hfuel : 3 * t.length ≤ fuel) :
    ∃ f, fuel = f + 1 := by
  obtain ⟨c, rest, rfl, -⟩ := h
  rw [List.length_cons] at hfuel
  exact ⟨fuel - 1, by omega⟩

theorem skip_newLine_append (level : Nat) (t : Text) : skip (newLine level ++ t) = skip t := by
  have hspaces : ∀ d ∈ newLine level, isSpace d = true := by
    intro d hd
    rcases List.mem_cons.1 hd with rfl | hd
    · rfl
    · rw [List.eq_of_mem_replicate hd]
      rfl
  rw [skip, List.dropWhile_append_of_pos hspaces]
  rfl

theorem ends_newLine_append (level : Nat) (t : Text) : Ends (newLine level ++ t) := by
  intro d hd
  cases hd
  decide

theorem ends_comma (t : Text) : Ends (',' :: t) := by
  intro d hd
  cases hd
  decide

end Spaces

section Lists

variable {α : Type}

/-- A reader takes a value from its text and leaves what follows it. -/
structure ReadFrom (one? : Nat → Text → Option (α × Text)) (a : α) (text : Text) : Prop where
  opens : Opens text
  read : ∀ fuel rest, Ends rest → 3 * text.length ≤ fuel → one? fuel (text ++ rest) = some (a, rest)

/-- A reader takes parts with commas between them, up to a closing bracket. -/
structure Listing (one? : Nat → Text → Option (α × Text))
    (many? : Nat → Text → Option (List α × Text)) (closing : Char) : Prop where
  more : ∀ {fuel t a rest after as left}, one? fuel (skip t) = some (a, rest) →
    skip rest = ',' :: after →
    many? fuel after = some (as, left) → many? (fuel + 1) t = some (a :: as, left)
  last : ∀ {fuel t a rest left}, one? fuel (skip t) = some (a, rest) → skip rest = closing :: left →
    many? (fuel + 1) t = some ([a], left)

variable {one? : Nat → Text → Option (α × Text)} {many? : Nat → Text → Option (List α × Text)}
    {closing : Char}
variable {as : List α} {text : α → Text}

theorem opens_join (hne : as ≠ []) (h : ∀ a ∈ as, Opens (text a)) (separator : Text) :
    Opens (Text.join separator (as.map text)) := by
  obtain ⟨a, as, rfl⟩ := List.exists_cons_of_ne_nil hne
  have ha := h a List.mem_cons_self
  cases as with
  | nil => simpa [Text.join] using ha
  | cons b as => simpa [Text.join, List.intercalate_cons_cons] using ha.append _

theorem Listing.read (h : Listing one? many? closing) (hclosing : isSpace closing = false)
    (level : Nat) (hne : as ≠ []) (hparts : ∀ a ∈ as, ReadFrom one? a (text a)) {fuel : Nat}
    {t rest : Text}
    (hskip : skip t = Text.join (',' :: newLine (level + 1)) (as.map text) ++
      (newLine level ++ closing :: rest))
    (hfuel : 3 * (Text.join (',' :: newLine (level + 1)) (as.map text)).length + 1 ≤ fuel) :
    many? fuel t = some (as, rest) := by
  induction as generalizing fuel t with
  | nil => exact absurd rfl hne
  | cons a as ih =>
    obtain ⟨fuel, rfl⟩ : ∃ f, fuel = f + 1 := ⟨fuel - 1, by omega⟩
    have hone := hparts a List.mem_cons_self
    cases as with
    | nil =>
      have hjoin : Text.join (',' :: newLine (level + 1)) ([a].map text) = text a := by
        simp [Text.join]
      rw [hjoin] at hskip hfuel
      apply h.last
      · rw [hskip]
        exact hone.read fuel _ (ends_newLine_append _ _) (by omega)
      · rw [skip_newLine_append, skip_cons hclosing]
    | cons b as =>
      have hrest : ∀ a ∈ b :: as, ReadFrom one? a (text a) :=
        fun c hc => hparts c (List.mem_cons_of_mem _ hc)
      have hopens := opens_join (List.cons_ne_nil b as) (fun c hc => (hrest c hc).opens)
        (',' :: newLine (level + 1))
      have hjoin : Text.join (',' :: newLine (level + 1)) ((a :: b :: as).map text) =
          text a ++
            ',' :: (newLine (level + 1) ++ Text.join (',' :: newLine (level + 1))
              ((b :: as).map text)) := by
        simp [Text.join, List.intercalate_cons_cons]
      rw [hjoin] at hskip hfuel
      generalize Text.join (',' :: newLine (level + 1)) ((b :: as).map text) =
        joined at ih hopens hskip hfuel
      simp only [List.length_append, List.length_cons] at hfuel
      have hfirst : one? fuel (skip t) =
          some (a,
            ',' :: (newLine (level + 1) ++ (joined ++ (newLine level ++ closing :: rest)))) := by
        have hread :=
          hone.read fuel
            _ (ends_comma (newLine (level + 1) ++ (joined ++ (newLine level ++ closing :: rest))))
          (by omega)
        rw [hskip, ← hread]
        simp
      have hafter : skip (newLine (level + 1) ++ (joined ++ (newLine level ++ closing :: rest))) =
          joined ++ (newLine level ++ closing :: rest) := by
        rw [skip_newLine_append, (hopens.append _).skip_eq]
      exact h.more hfirst (skip_cons rfl _) (ih (List.cons_ne_nil b as) hrest hafter (by omega))

end Lists

theorem listing_items : Listing value? items? ']' where
  more := by
    intro fuel t v rest after items left hone hcomma hmore
    simp [items?, hone, hcomma, hmore]
  last := by
    intro fuel t v rest left hone hclosing
    simp [items?, hone, hclosing]

theorem listing_members : Listing member? members? '\x7d' where
  more := by
    intro fuel t m rest after members left hone hcomma hmore
    simp [members?, hone, hcomma, hmore]
  last := by
    intro fuel t m rest left hone hclosing
    simp [members?, hone, hclosing]

theorem renderItems_eq_map (level : Nat) (items : List Json) :
    renderItems level items = items.map (render level) := by
  induction items with
  | nil => rw [renderItems, List.map_nil]
  | cons item items ih => rw [renderItems, ih, List.map_cons]

theorem renderMembers_eq_map (level : Nat) (members : List (Text × Json)) :
    renderMembers level members = members.map (renderMember level) := by
  induction members with
  | nil => rw [renderMembers, List.map_nil]
  | cons m members ih => rw [renderMembers, ih, List.map_cons]

section Values

variable {c : Char} {t rest : Text} {v : Json}

/-- What begins with neither a quote nor an opening bracket is a name or a number. -/
theorem value?_plain (hquote : c ≠ '"') (hbracket : c ≠ '[') (hbrace : c ≠ '\x7b') (fuel : Nat)
    (t : Text) :
    value? (fuel + 1) (c :: t) = plain? (c :: t) := by
  simp [value?, hquote, hbracket, hbrace]

def OpensPlain (t : Text) : Prop :=
  ∃ c rest, t = c :: rest ∧ c ≠ '"' ∧ c ≠ '[' ∧ c ≠ '\x7b' ∧ isSpace c = false ∧ c ≠ ']' ∧
    c ≠ '\x7d'

theorem OpensPlain.readFrom (h : OpensPlain t)
    (hread : ∀ rest, Ends rest → plain? (t ++ rest) = some (v, rest)) :
    ReadFrom value? v t := by
  obtain ⟨c, t, rfl, hquote, hbracket, hbrace, hc⟩ := h
  have hopens : Opens (c :: t) := ⟨c, t, rfl, hc⟩
  refine ⟨hopens, fun fuel rest hrest hfuel => ?_⟩
  obtain ⟨fuel, rfl⟩ := hopens.exists_fuel hfuel
  rw [← hread rest hrest]
  exact value?_plain hquote hbracket hbrace fuel _

theorem opensPlain_digit (h : c.isDigit = true) (t : Text) : OpensPlain (c :: t) := by
  have hne (d : Char) (hd : d.isDigit = false) : c ≠ d := (ne_of_isDigit h hd).symm
  refine ⟨c, t, rfl, hne _ rfl, hne _ rfl, hne _ rfl, ?_, hne _ rfl, hne _ rfl⟩
  simp [isSpace, hne ' ' rfl, hne '\t' rfl, hne '\n' rfl, hne '\r' rfl]

theorem opensPlain_text {p : Parts} (h : p.WellFormed) (negative : Bool) :
    OpensPlain (Layout.sign negative ++ p.text) := by
  cases negative with
  | true => exact ⟨'-', p.text, rfl, by decide⟩
  | false =>
    obtain ⟨c, whole, hwhole⟩ := List.exists_cons_of_ne_nil h.whole_ne
    have hdigit : c.isDigit = true := h.whole c (hwhole ▸ List.mem_cons_self)
    rw [Parts.text, hwhole]
    exact opensPlain_digit hdigit _

theorem readFrom_integer (n : Int) : ReadFrom value? (.integer n) (Text.integer n) := by
  refine OpensPlain.readFrom ?_ fun rest => plain?_integer n
  rw [integer_eq]
  exact opensPlain_text (wellFormed_natural _) _

theorem readFrom_number {x : Double} (h : x.Proper) :
    ReadFrom value? (.number x) (x.write .json) := by
  refine OpensPlain.readFrom ?_ fun rest => plain?_write h
  cases h with
  | nan => exact ⟨'N', "aN".toList, rfl, by decide⟩
  | infinite negative =>
    cases negative with
    | true => exact ⟨'-', "Infinity".toList, rfl, by decide⟩
    | false => exact ⟨'I', "nfinity".toList, rfl, by decide⟩
  | finite negative h =>
    obtain ⟨p, htext, hform, -⟩ := exists_parts_write h negative
    rw [htext]
    exact opensPlain_text hform negative

theorem opens_quote (s : Text) : Opens (quote s) :=
  ⟨'"', s.flatMap escapeChar ++ ['"'], rfl, by decide⟩

theorem readFrom_text (s : Text) : ReadFrom value? (.text s) (quote s) where
  opens := opens_quote s
  read := by
    intro fuel rest _ hfuel
    obtain ⟨fuel, rfl⟩ := (opens_quote s).exists_fuel hfuel
    have htext : quote s ++ rest = '"' :: (s.flatMap escapeChar ++ '"' :: rest) := by simp [quote]
    rw [htext, value?, text?_flatMap_escapeChar]
    rfl

theorem readFrom_member {name : Text} {level : Nat} (h : ReadFrom value? v (render level v)) :
    ReadFrom member? (name, v) (renderMember level (name, v)) where
  opens := by
    rw [renderMember, List.append_assoc]
    exact (opens_quote name).append _
  read := by
    intro fuel rest hrest hfuel
    have htext : renderMember level (name, v) ++ rest =
        '"' :: (name.flatMap escapeChar ++ '"' :: (':' :: ' ' :: (render level v ++ rest))) := by
      simp [renderMember, quote]
    simp only [renderMember, List.length_append] at hfuel
    have hquoted : 3 * (quote name).length ≤ fuel := by omega
    obtain ⟨fuel, rfl⟩ := (opens_quote name).exists_fuel hquoted
    have hname : 2 ≤ (quote name).length := by simp [quote]
    have hvalue := h.read fuel rest hrest (by omega)
    have hspace : skip (' ' :: (render level v ++ rest)) = render level v ++ rest :=
      (h.opens.append rest).skip_eq
    rw [htext, member?, text?_flatMap_escapeChar]
    dsimp only
    rw [skip_cons rfl]
    simp [hspace, hvalue]

theorem bracketed_append {parts : List Text} (hne : parts ≠ []) (level : Nat)
    (opening closing : Char) (rest : Text) :
    bracketed level opening closing parts ++ rest = opening :: (newLine (level + 1) ++
      (Text.join (',' :: newLine (level + 1)) parts ++ (newLine level ++ closing :: rest))) := by
  simp [bracketed, hne]

theorem length_join_lt {parts : List Text} (hne : parts ≠ []) (level : Nat)
    (opening closing : Char) :
    (Text.join (',' :: newLine (level + 1)) parts).length + 2 ≤
      (bracketed level opening closing parts).length := by
  simp [bracketed, hne]
  omega

theorem value?_array {fuel : Nat} {items : List Json} {left : Text} (hopens : Opens (skip t))
    (h : items? fuel (skip t) = some (items, left)) :
    value? (fuel + 1) ('[' :: t) = some (.array items, left) := by
  obtain ⟨c, more, hskip, -, hclosing, -⟩ := hopens
  rw [hskip] at h
  rw [value?, hskip]
  simp [hclosing, h]

theorem value?_object {fuel : Nat} {members : List (Text × Json)} {left : Text}
    (hopens : Opens (skip t)) (h : members? fuel (skip t) = some (members, left)) :
    value? (fuel + 1) ('\x7b' :: t) = some (.object members, left) := by
  obtain ⟨c, more, hskip, -, -, hclosing⟩ := hopens
  rw [hskip] at h
  rw [value?, hskip]
  simp [hclosing, h]

theorem Listing.read_bracketed {α : Type} {one? : Nat → Text → Option (α × Text)}
    {many? : Nat → Text → Option (List α × Text)} {closing : Char} {as : List α} {text : α → Text}
    (h : Listing one? many? closing) (hclosing : isSpace closing = false) (level : Nat)
    (hne : as ≠ []) (hparts : ∀ a ∈ as, ReadFrom one? a (text a)) (opening : Char) {fuel : Nat}
    (rest : Text) (hfuel : 3 * (bracketed level opening closing (as.map text)).length ≤ fuel + 1) :
    ∃ t, bracketed level opening closing (as.map text) ++ rest = opening :: t ∧ Opens (skip t) ∧
      many? fuel (skip t) = some (as, rest) := by
  have hmap : as.map text ≠ [] := by simpa using hne
  have hopens := opens_join hne (fun a ha => (hparts a ha).opens) (',' :: newLine (level + 1))
  have hlength := length_join_lt hmap level opening closing
  refine ⟨_, bracketed_append hmap level opening closing rest, ?_⟩
  rw [skip_newLine_append, (hopens.append _).skip_eq]
  exact ⟨hopens.append _, h.read hclosing level hne hparts (hopens.append _).skip_eq (by omega)⟩

theorem opens_bracketed (opening closing : Char)
    (h : isSpace opening = false ∧ opening ≠ ']' ∧ opening ≠ '\x7d') (level : Nat)
    (parts : List Text) : Opens (bracketed level opening closing parts) := by
  unfold bracketed
  split
  · exact ⟨opening, _, rfl, h⟩
  · exact ⟨opening, _, rfl, h⟩

theorem readFrom_array {items : List Json} (level : Nat)
    (h : ∀ item ∈ items, ReadFrom value? item (render (level + 1) item)) :
    ReadFrom value? (.array items) (render level (.array items)) := by
  rw [render, renderItems_eq_map]
  have hopens := opens_bracketed '[' ']' (by decide) level (items.map (render (level + 1)))
  refine ⟨hopens, fun fuel rest _ hfuel => ?_⟩
  obtain ⟨fuel, rfl⟩ := hopens.exists_fuel hfuel
  by_cases hne : items = []
  · subst hne
    rfl
  · obtain ⟨t, ht, hskip, hitems⟩ := listing_items.read_bracketed rfl level hne h '[' rest hfuel
    rw [ht, value?_array hskip hitems]

theorem readFrom_object {members : List (Text × Json)} (level : Nat)
    (h : ∀ m ∈ members, ReadFrom value? m.2 (render (level + 1) m.2)) :
    ReadFrom value? (.object members) (render level (.object members)) := by
  rw [render, renderMembers_eq_map]
  have hopens :=
    opens_bracketed '\x7b' '\x7d' (by decide) level (members.map (renderMember (level + 1)))
  refine ⟨hopens, fun fuel rest _ hfuel => ?_⟩
  obtain ⟨fuel, rfl⟩ := hopens.exists_fuel hfuel
  by_cases hne : members = []
  · subst hne
    rfl
  · obtain ⟨t, ht, hskip, hmembers⟩ :=
      listing_members.read_bracketed rfl level hne (fun m hm => readFrom_member (h m hm)) '\x7b'
        rest hfuel
    rw [ht, value?_object hskip hmembers]

theorem Proper.readFrom (h : v.Proper) (level : Nat) : ReadFrom value? v (render level v) := by
  induction h generalizing level with
  | null => exact OpensPlain.readFrom ⟨'n', "ull".toList, rfl, by decide⟩ fun _ _ => rfl
  | bool value =>
    cases value with
    | true => exact OpensPlain.readFrom ⟨'t', "rue".toList, rfl, by decide⟩ fun _ _ => rfl
    | false => exact OpensPlain.readFrom ⟨'f', "alse".toList, rfl, by decide⟩ fun _ _ => rfl
  | integer n => exact readFrom_integer n
  | number h => exact readFrom_number h
  | text s => exact readFrom_text s
  | array _ ih => exact readFrom_array level fun item hitem => ih item hitem (level + 1)
  | object _ ih => exact readFrom_object level fun m hm => ih m hm (level + 1)

/-- A document is read back from what is written. -/
theorem read?_render (h : v.Proper) : read? (v.render 0 ++ ['\n']) = some v := by
  have hread := h.readFrom 0
  have hends : Ends ['\n'] := by
    intro c hc
    cases hc
    decide
  unfold read?
  rw [(hread.opens.append _).skip_eq, hread.read _ _ hends (by simp; omega)]
  rfl

end Values

end Json

end CloneDetection

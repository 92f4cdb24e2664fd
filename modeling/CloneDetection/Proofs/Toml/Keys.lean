import CloneDetection.Proofs.Lookup
import CloneDetection.Proofs.Traversal
import CloneDetection.Toml.Reading

/-!
# The keys of a document

No table that is read from a document gives a key twice, at whatever depth it stands. A table under
construction gets a name only where it is new, and the entry of a name is only ever replaced; so the
names of all tables stay distinct from one statement to the next.
-/
namespace CloneDetection

/-- A value as documents give them: the keys of each of its tables are distinct. -/
inductive Value.IsToml : Value → Prop
  | bool (b : Bool) : IsToml (.bool b)
  | numeric (n : Numeric) : IsToml (.numeric n)
  | text (t : Text) : IsToml (.text t)
  | moment (m : Moment) : IsToml (.moment m)
  | list {items : List Value} (all : ∀ v ∈ items, IsToml v) : IsToml (.list items)
  | table {entries : List (Text × Value)} (nodup : (entries.map Prod.fst).Nodup)
      (all : ∀ e ∈ entries, IsToml e.2) : IsToml (.table entries)

namespace Toml

inductive Entry.Distinct : Entry → Prop
  | value {v : Value} (h : v.IsToml) : Distinct (.value v)
  | table (origin : Origin) {entries : Entries} (nodup : (entries.map Prod.fst).Nodup)
      (all : ∀ e ∈ entries, Distinct e.2) : Distinct (.table origin entries)
  | tables {before : List Entries} {last : Entries} (nodup : ∀ entries ∈ last :: before,
      (entries.map Prod.fst).Nodup)
      (all : ∀ entries ∈ last :: before, ∀ e ∈ entries, Distinct e.2) :
        Distinct (.tables before last)

namespace Entries

structure Distinct (entries : Entries) : Prop where
  nodup : (entries.map Prod.fst).Nodup
  all : ∀ e ∈ entries, e.2.Distinct

variable {entries entries' : Entries} {name : Text} {entry : Entry}

theorem Distinct.nil : Distinct [] :=
  ⟨.nil, nofun⟩

theorem Distinct.table (h : entries.Distinct) (origin : Origin) :
    (Entry.table origin entries).Distinct :=
  .table origin h.nodup h.all

theorem Distinct.tables {before : List Entries} {last : Entries}
    (h : ∀ entries ∈ last :: before, entries.Distinct) :
    (Entry.tables before last).Distinct :=
  .tables (fun entries he => (h entries he).nodup) fun entries he => (h entries he).all

theorem distinct_of_table {origin : Origin} (h : (Entry.table origin entries).Distinct) :
    entries.Distinct := by
  cases h with
  | table _ nodup all => exact ⟨nodup, all⟩

theorem distinct_of_tables {before : List Entries} {last : Entries}
    (h : (Entry.tables before last).Distinct) :
    ∀ entries ∈ last :: before, entries.Distinct := by
  cases h with
  | tables nodup all => exact fun entries he => ⟨nodup entries he, all entries he⟩

theorem Distinct.get (h : entries.Distinct) (hget : entries.get? name = some entry) :
    entry.Distinct := by
  obtain ⟨before, after, rfl, -⟩ :=
    List.lookup_eq_some_iff.1 (hget : entries.lookup name = some entry)
  exact h.all _ (List.mem_append_right _ List.mem_cons_self)

theorem Distinct.add (h : entries.Distinct) (hnew : entries.get? name = none)
    (hentry : entry.Distinct) :
    (entries.add name entry).Distinct := by
  refine ⟨nodup_keys_append h.nodup hnew entry, ?_⟩
  rw [Entries.add, List.forall_mem_append, List.forall_mem_singleton]
  exact ⟨h.all, hentry⟩

theorem Distinct.replace (h : entries.Distinct) (hentry : entry.Distinct) :
    (entries.replace name entry).Distinct := by
  refine ⟨?_, forall_mem_replace h.all hentry⟩
  rw [Entries.replace, keys_replace]
  exact h.nodup

/-- Whatever keeps the names of tables distinct does so below a header. -/
theorem Distinct.change {f : Entries → Except Fault Entries}
    (hf : ∀ {entries entries' : Entries}, entries.Distinct → f entries = .ok entries' →
      entries'.Distinct)
    {names : List Text} (h : entries.Distinct)
    (hchange : Entries.change f names entries = .ok entries') :
    entries'.Distinct := by
  induction names generalizing entries entries' with
  | nil =>
    unfold Entries.change at hchange
    exact hf h hchange
  | cons name rest ih =>
    unfold Entries.change at hchange
    split at hchange
    · next hnew =>
      obtain ⟨inner, hinner, hdone⟩ := exists_of_bind_eq_ok hchange
      cases hdone
      exact h.add hnew ((ih .nil hinner).table .implied)
    · next origin inner hget =>
      obtain ⟨inner', hinner, hdone⟩ := exists_of_bind_eq_ok hchange
      cases hdone
      exact h.replace ((ih (distinct_of_table (h.get hget)) hinner).table origin)
    · next before last hget =>
      obtain ⟨last', hlast, hdone⟩ := exists_of_bind_eq_ok hchange
      cases hdone
      obtain ⟨hlast', hbefore⟩ := List.forall_mem_cons.1 (distinct_of_tables (h.get hget))
      exact h.replace (Distinct.tables (List.forall_mem_cons.2 ⟨ih hlast' hlast, hbefore⟩))
    · cases hchange

theorem Distinct.declareIn (h : entries.Distinct)
    (hdeclare : Entries.declareIn name entries = .ok entries') :
    entries'.Distinct := by
  unfold Entries.declareIn at hdeclare
  split at hdeclare
  · next hnew =>
    cases hdeclare
    exact h.add hnew (Distinct.nil.table .declared)
  · next inner hget =>
    cases hdeclare
    exact h.replace ((distinct_of_table (h.get hget)).table .declared)
  · cases hdeclare

theorem Distinct.appendIn (h : entries.Distinct)
    (happend : Entries.appendIn name entries = .ok entries') :
    entries'.Distinct := by
  unfold Entries.appendIn at happend
  split at happend
  · next hnew =>
    cases happend
    exact h.add hnew (Distinct.tables (List.forall_mem_singleton.2 .nil))
  · next before last hget =>
    cases happend
    exact h.replace
      (Distinct.tables (List.forall_mem_cons.2 ⟨.nil, distinct_of_tables (h.get hget)⟩))
  · cases happend

theorem Distinct.assignTo {part : Nat} {v : Value} (hv : v.IsToml) {parents : List Text}
    (h : entries.Distinct) (hassign : Entries.assignTo part name v parents entries = .ok entries') :
    entries'.Distinct := by
  induction parents generalizing entries entries' with
  | nil =>
    unfold Entries.assignTo at hassign
    split at hassign
    · cases hassign
    · next hnew =>
      cases hassign
      exact h.add (Option.not_isSome_iff_eq_none.1 hnew) (.value hv)
  | cons parent rest ih =>
    unfold Entries.assignTo at hassign
    split at hassign
    · next hnew =>
      obtain ⟨inner, hinner, hdone⟩ := exists_of_bind_eq_ok hassign
      cases hdone
      exact h.add hnew ((ih .nil hinner).table (.dotted part))
    · next origin inner hget =>
      split at hassign
      · obtain ⟨inner', hinner, hdone⟩ := exists_of_bind_eq_ok hassign
        cases hdone
        exact h.replace ((ih (distinct_of_table (h.get hget)) hinner).table (.dotted part))
      · cases hassign
    · cases hassign

variable {key : Key}

theorem Distinct.declare (h : entries.Distinct) (hdeclare : entries.declare key = .ok entries') :
    entries'.Distinct :=
  h.change declareIn hdeclare

theorem Distinct.append (h : entries.Distinct) (happend : entries.append key = .ok entries') :
    entries'.Distinct :=
  h.change appendIn happend

theorem Distinct.assign {part : Nat} {v : Value} (hv : v.IsToml) (h : entries.Distinct)
    (hassign : entries.assign part key v = .ok entries') : entries'.Distinct :=
  h.assignTo hv hassign

end Entries

section Finished

theorem toEntries_eq_map (entries : Entries) :
    toEntries entries = entries.map fun e => (e.1, e.2.toValue) := by
  induction entries with
  | nil => rw [toEntries, List.map_nil]
  | cons e entries ih => rw [toEntries, ih, List.map_cons, toPair]

theorem toTables_eq (after : List Value) (before : List Entries) :
    toTables after before = (before.map fun entries => .table (toEntries entries)).reverse ++
      after := by
  induction before generalizing after with
  | nil => rw [toTables, List.map_nil, List.reverse_nil, List.nil_append]
  | cons entries before ih =>
    rw [toTables, ih, List.map_cons, List.reverse_cons, List.append_assoc, List.singleton_append]

theorem isToml_table {entries : Entries} (nodup : (entries.map Prod.fst).Nodup)
    (all : ∀ e ∈ entries, e.2.toValue.IsToml) : (Value.table (toEntries entries)).IsToml := by
  rw [toEntries_eq_map]
  refine .table ?_ (List.forall_mem_map.2 all)
  rw [List.map_map]
  exact nodup

theorem Entry.Distinct.toValue {entry : Entry} (h : entry.Distinct) : entry.toValue.IsToml := by
  induction h with
  | value h =>
    rw [Entry.toValue]
    exact h
  | table origin nodup _ ih =>
    rw [Entry.toValue]
    exact isToml_table nodup ih
  | tables nodup _ ih =>
    rw [Entry.toValue, toTables_eq]
    rw [List.forall_mem_cons] at nodup ih
    refine .list ?_
    rw [List.forall_mem_append, List.forall_mem_singleton]
    refine ⟨fun v hv => ?_, isToml_table nodup.1 ih.1⟩
    obtain ⟨entries, hmem, rfl⟩ := List.mem_map.1 (List.mem_reverse.1 hv)
    exact isToml_table (nodup.2 entries hmem) (ih.2 entries hmem)

theorem Entries.Distinct.toEntries {entries : Entries} (h : entries.Distinct) :
    (Value.table (toEntries entries)).IsToml :=
  isToml_table h.nodup fun e he => (h.all e he).toValue

end Finished

section Values

variable {t rest : Text} {v : Value}

theorem isToml_of_moment? (h : moment? t = some (.ok (v, rest))) : v.IsToml := by
  unfold moment? at h
  split at h
  · split at h
    · cases h
    · split at h
      · split at h <;>
          · cases h
            exact .moment _
      · cases h
        exact .moment _
  · obtain ⟨⟨time, left⟩, -, htime⟩ := Option.map_eq_some_iff.1 h
    cases htime
    exact .moment _

theorem isToml_of_decimal? (h : decimal? t = some (.ok (v, rest))) : v.IsToml := by
  unfold decimal? at h
  obtain ⟨⟨whole, left⟩, -, hnumber⟩ := Option.map_eq_some_iff.1 h
  dsimp only at hnumber
  split at hnumber
  · split at hnumber
    · cases hnumber
    · cases hnumber
      exact .numeric _
  · cases hnumber
    exact .numeric _

theorem isToml_of_number (h : number t = .ok (v, rest)) : v.IsToml := by
  unfold number at h
  split at h
  · cases h
    exact .numeric _
  · next hdecimal =>
    subst h
    exact isToml_of_decimal? hdecimal
  · split at h
    · cases h
      exact .numeric _
    · cases h

theorem isToml_of_scalar (h : scalar t = .ok (v, rest)) : v.IsToml := by
  unfold scalar at h
  split at h
  · cases hquoted : quoted t with
    | error fault =>
      rw [hquoted] at h
      cases h
    | ok found =>
      rw [hquoted] at h
      cases h
      exact .text _
  · split at h
    · cases h
      exact .bool true
    · split at h
      · cases h
        exact .bool false
      · cases hmoment : moment? t with
        | none =>
          rw [hmoment] at h
          exact isToml_of_number h
        | some result =>
          rw [hmoment, Option.getD_some] at h
          subst h
          exact isToml_of_moment? hmoment

/-- With so much fuel, values are read as documents give them, and so are items and pairs. -/
structure ReadsToml (fuel : Nat) : Prop where
  value : ∀ {room t v rest}, value room fuel t = .ok (v, rest) → v.IsToml
  items : ∀ {room t vs rest}, items room fuel t = .ok (vs, rest) → ∀ v ∈ vs, v.IsToml
  pairs : ∀ {room entries t entries' rest}, entries.Distinct → pairs room fuel entries t =
  .ok (entries', rest) →
    entries'.Distinct

theorem ReadsToml.zero : ReadsToml 0 where
  value h := by
    unfold Toml.value at h
    cases h
  items h := by
    unfold Toml.items at h
    cases h
  pairs _ h := by
    unfold Toml.pairs at h
    cases h

variable {fuel room : Nat}

theorem ReadsToml.value_succ (hfuel : ReadsToml fuel)
    (h : Toml.value room (fuel + 1) t = .ok (v, rest)) : v.IsToml := by
  unfold Toml.value at h
  split at h
  · cases h
  · split at h
    · obtain ⟨filled, -, h⟩ := exists_of_bind_eq_ok h
      split at h
      · cases h
        exact .list nofun
      · obtain ⟨⟨vs, left⟩, hitems, h⟩ := exists_of_bind_eq_ok h
        cases h
        exact .list (hfuel.items hitems)
    · split at h
      · cases h
        exact .table .nil nofun
      · obtain ⟨⟨entries, left⟩, hpairs, h⟩ := exists_of_bind_eq_ok h
        cases h
        exact (hfuel.pairs .nil hpairs).toEntries
    · exact isToml_of_scalar h

theorem ReadsToml.items_succ (hfuel : ReadsToml fuel) {vs : List Value}
    (h : Toml.items room (fuel + 1) t = .ok (vs, rest)) : ∀ v ∈ vs, v.IsToml := by
  unfold Toml.items at h
  obtain ⟨⟨first, left⟩, hfirst, h⟩ := exists_of_bind_eq_ok h
  obtain ⟨filled, -, h⟩ := exists_of_bind_eq_ok h
  have hv := hfuel.value hfirst
  split at h
  · cases h
    exact List.forall_mem_singleton.2 hv
  · obtain ⟨filled, -, h⟩ := exists_of_bind_eq_ok h
    split at h
    · cases h
      exact List.forall_mem_singleton.2 hv
    · obtain ⟨⟨others, left⟩, hothers, h⟩ := exists_of_bind_eq_ok h
      cases h
      exact List.forall_mem_cons.2 ⟨hv, hfuel.items hothers⟩
  · cases h

theorem ReadsToml.pairs_succ (hfuel : ReadsToml fuel) {entries entries' : Entries}
    (hentries : entries.Distinct)
    (h : Toml.pairs room (fuel + 1) entries t = .ok (entries', rest)) : entries'.Distinct := by
  unfold Toml.pairs at h
  obtain ⟨⟨key, left⟩, -, h⟩ := exists_of_bind_eq_ok h
  obtain ⟨left, -, h⟩ := exists_of_bind_eq_ok h
  obtain ⟨⟨v, left⟩, hv, h⟩ := exists_of_bind_eq_ok h
  obtain ⟨assigned, hassigned, h⟩ := exists_of_bind_eq_ok h
  have hdistinct := hentries.assign (hfuel.value hv) hassigned
  split at h
  · cases h
    exact hdistinct
  · exact hfuel.pairs hdistinct h
  · cases h

/-- Values, items and pairs are read by one recursion on the fuel. -/
theorem readsToml (fuel : Nat) : ReadsToml fuel := by
  induction fuel with
  | zero => exact .zero
  | succ fuel ih => exact ⟨ih.value_succ, ih.items_succ, ih.pairs_succ⟩

end Values

namespace Progress

variable {p p' : Progress} {t rest : Text}

theorem distinct_of_keyValue (h : p.entries.Distinct) (hread : p.keyValue t = .ok (p', rest)) :
    p'.entries.Distinct := by
  unfold keyValue at hread
  obtain ⟨⟨key, left⟩, -, hread⟩ := exists_of_bind_eq_ok hread
  obtain ⟨left, -, hread⟩ := exists_of_bind_eq_ok hread
  obtain ⟨⟨v, left⟩, hv, hread⟩ := exists_of_bind_eq_ok hread
  obtain ⟨entries, hentries, hread⟩ := exists_of_bind_eq_ok hread
  cases hread
  exact h.change (Entries.Distinct.assign ((readsToml _).value hv)) hentries

theorem distinct_of_tableHeader (h : p.entries.Distinct)
    (hread : p.tableHeader t = .ok (p', rest)) :
    p'.entries.Distinct := by
  unfold tableHeader at hread
  obtain ⟨⟨key, left⟩, -, hread⟩ := exists_of_bind_eq_ok hread
  obtain ⟨entries, hentries, hread⟩ := exists_of_bind_eq_ok hread
  obtain ⟨left, -, hread⟩ := exists_of_bind_eq_ok hread
  cases hread
  exact h.declare hentries

theorem distinct_of_arrayHeader (h : p.entries.Distinct)
    (hread : p.arrayHeader t = .ok (p', rest)) :
    p'.entries.Distinct := by
  unfold arrayHeader at hread
  obtain ⟨⟨key, left⟩, -, hread⟩ := exists_of_bind_eq_ok hread
  obtain ⟨entries, hentries, hread⟩ := exists_of_bind_eq_ok hread
  obtain ⟨left, -, hread⟩ := exists_of_bind_eq_ok hread
  cases hread
  exact h.append hentries

theorem distinct_of_statement (h : p.entries.Distinct) (hread : p.statement t = .ok (p', rest)) :
    p'.entries.Distinct := by
  unfold statement at hread
  split at hread
  · cases hread
    exact h
  · exact distinct_of_arrayHeader h hread
  · exact distinct_of_tableHeader h hread
  · exact distinct_of_keyValue h hread

theorem distinct_of_lines {fuel : Nat} {entries : Entries} (h : p.entries.Distinct)
    (hread : lines fuel p t = .ok entries) : entries.Distinct := by
  induction fuel generalizing p t with
  | zero =>
    unfold lines at hread
    cases hread
  | succ fuel ih =>
    unfold lines at hread
    split at hread
    · cases hread
      exact h
    · exact ih h hread
    · obtain ⟨⟨p', left⟩, hstatement, hread⟩ := exists_of_bind_eq_ok hread
      obtain ⟨left, -, hread⟩ := exists_of_bind_eq_ok hread
      have hp' := distinct_of_statement h hstatement
      split at hread
      · cases hread
        exact hp'
      · exact ih hp' hread
      · cases hread

end Progress

/-- A document is a table of distinct keys, and so are all tables in it. -/
theorem isToml_of_read {t : Text} {entries : List (Text × Value)} (h : read t = .ok entries) :
    (Value.table entries).IsToml := by
  unfold read at h
  dsimp only at h
  cases hlines : Progress.lines ((dropReturns t).length + 1) {} (dropReturns t) with
  | error fault =>
    rw [hlines] at h
    cases h
  | ok read =>
    rw [hlines] at h
    cases h
    exact (Progress.distinct_of_lines .nil hlines).toEntries

end Toml

end CloneDetection

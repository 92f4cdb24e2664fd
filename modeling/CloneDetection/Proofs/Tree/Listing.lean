import CloneDetection.Proofs.Clone.Place
import CloneDetection.Proofs.Path.Components
import CloneDetection.Proofs.Tree.Distinct

/-!
# All files below a directory

What is below a directory is said without a walk: a file stands in a directory that names lead to,
links aside. In a well-formed tree the visits list exactly these files, those below directories that
are not kept apart, and the files of a directory come before what is below it, both in order of
name. As the order is strict, a list is known by its members.
-/
namespace CloneDetection

open Std

/-- A file below the root of the visits. -/
structure Listed where
  /-- The names from the root to its directory. -/
  names : List Text
  entry : Entry
  deriving DecidableEq, Repr

/-- The names from the root to the file. -/
def Listed.components (f : Listed) : List Text :=
  f.names ++ [f.entry.name]

/-- The files of a directory come in order of name, then its subdirectories in order of name with
all that is below them. -/
inductive Precedes : List Text → List Text → Prop
  | files {a b : Text} (h : compare a b = .lt) : Precedes [a] [b]
  | deeper {a b : Text} {q : List Text} (hq : q ≠ []) : Precedes [a] (b :: q)
  | directories {a b : Text} {p q : List Text} (hp : p ≠ []) (hq : q ≠ []) (h : compare a b = .lt) :
      Precedes (a :: p) (b :: q)
  | inside {a : Text} {p q : List Text} (h : Precedes p q) : Precedes (a :: p) (a :: q)

namespace Precedes

theorem ne_nil {p q : List Text} (h : Precedes p q) : p ≠ [] ∧ q ≠ [] := by
  cases h <;> simp

theorem asymm {p q : List Text} (h : Precedes p q) : ¬ Precedes q p := by
  induction h with
  | files h =>
    intro hback
    cases hback with
    | files hback =>
      rw [OrientedOrd.eq_swap, h] at hback
      cases hback
    | deeper hq => exact hq rfl
    | directories hp => exact hp rfl
    | inside h => exact h.ne_nil.1 rfl
  | deeper hq =>
    intro hback
    cases hback with
    | files => exact hq rfl
    | deeper hp => exact hp rfl
    | directories _ hp => exact hp rfl
    | inside h => exact h.ne_nil.2 rfl
  | directories hp hq h =>
    intro hback
    cases hback with
    | files => exact hp rfl
    | deeper => exact hq rfl
    | directories _ _ hback =>
      rw [OrientedOrd.eq_swap, h] at hback
      cases hback
    | inside =>
      rw [ReflOrd.compare_self] at h
      cases h
  | inside h ih =>
    intro hback
    cases hback with
    | files => exact h.ne_nil.1 rfl
    | deeper => exact h.ne_nil.2 rfl
    | directories _ _ hback =>
      rw [ReflOrd.compare_self] at hback
      cases hback
    | inside hback => exact ih hback

theorem append_left (names : List Text) {p q : List Text} (h : Precedes p q) :
    Precedes (names ++ p) (names ++ q) := by
  induction names with
  | nil => exact h
  | cons name names ih => exact .inside ih

end Precedes

/-- The order of the files of a walk. -/
def Listed.Before (f g : Listed) : Prop :=
  Precedes f.components g.components

/-- A list in the order of a walk is known by its members. -/
theorem Listed.eq_of_mem_iff {l m : List Listed} (hl : l.Pairwise Before) (hm : m.Pairwise Before)
    (h : ∀ f, f ∈ l ↔ f ∈ m) : l = m := by
  have nodup {l : List Listed} (hl : l.Pairwise Before) : l.Nodup := by
    apply hl.imp
    rintro f _ hff rfl
    exact hff.asymm hff
  have hperm : l.Perm m := (List.perm_ext_iff_of_nodup (nodup hl) (nodup hm)).2 h
  refine hperm.eq_of_pairwise ?_ hl hm
  intro f g _ _ hfg hgf
  exact absurd hgf hfg.asymm

theorem Node.get?_append (node : Node) (p q : List Text) :
    node.get? (p ++ q) = (node.get? p).bind (·.get? q) := by
  induction p generalizing node with
  | nil => rfl
  | cons name p ih => simp only [List.cons_append, get?, Option.bind_assoc, ih]

theorem Node.exists_directory_of_get? {node : Node} {names : List Text}
    {entries : List (Text × Node)} (h : node.get? names = some (.directory entries)) :
    ∃ below, node = .directory below := by
  cases names with
  | nil =>
    cases h
    exact ⟨entries, rfl⟩
  | cons name rest =>
    rw [get?, Option.bind_eq_some_iff] at h
    obtain ⟨next, hnext, -⟩ := h
    obtain ⟨below, hbelow, -⟩ := exists_of_child? hnext
    exact ⟨below, hbelow⟩

theorem Node.child?_of_mem {entries : List (Text × Node)} (nodup : (entries.map Prod.fst).Nodup)
    {e : Text × Node} (he : e ∈ entries) : (Node.directory entries).child? e.1 = some e.2 := by
  obtain ⟨l, r, rfl⟩ := List.append_of_mem he
  rw [List.map_append, List.map_cons, List.nodup_append] at nodup
  refine List.lookup_eq_some_iff.2 ⟨l, r, rfl, ?_⟩
  intro f hf
  rw [bne_iff_ne, ne_comm]
  exact nodup.2.2 _ (List.mem_map_of_mem hf) _ List.mem_cons_self

theorem Node.WellFormed.plain_of_get? {node node' : Node} (h : node.WellFormed) {names : List Text}
    (hget : node.get? names = some node') : ∀ n ∈ names, '/' ∉ n := by
  induction names generalizing node with
  | nil => exact List.forall_mem_nil _
  | cons name rest ih =>
    rw [get?, Option.bind_eq_some_iff] at hget
    obtain ⟨next, hnext, hrest⟩ := hget
    obtain ⟨entries, rfl, hmem⟩ := exists_of_child? hnext
    cases h with
    | directory nodup plain all =>
      exact List.forall_mem_cons.2 ⟨plain _ hmem, ih (all _ hmem) hrest⟩

namespace Tree

/-- The file stands in the directory that `rest` leads to from the node at `names` below `root`. -/
def HasFile (tree : Tree) (root : Text) (names : List Text) (node : Node) (rest : List Text)
    (entry : Entry) : Prop :=
  ∃ entries, node.get? rest = some (.directory entries) ∧
    ∃ e ∈ entries, tree.entry? root (names ++ rest) e = some entry

/-- All directories on the way along `rest` are kept. -/
def KeptAlong (keep : List Text → Bool) (names rest : List Text) : Prop :=
  ∀ p, p <+: rest → p ≠ [] → keep (names ++ p) = true

variable {tree : Tree} {keep : List Text → Bool} {root : Text} {names : List Text}

theorem keptAlong_cons {name : Text} {rest : List Text} :
    KeptAlong keep names (name :: rest) ↔ keep (names ++ [name]) = true ∧
    KeptAlong keep (names ++ [name]) rest := by
  constructor
  · intro h
    refine ⟨h [name] (by simp) (by simp), fun p hp _ => ?_⟩
    rw [List.append_assoc]
    exact h ([name] ++ p) (by simpa using hp) (by simp)
  · rintro ⟨hfirst, hrest⟩ p hp hne
    obtain ⟨a, p, rfl⟩ := List.exists_cons_of_ne_nil hne
    obtain ⟨rfl, hprefix⟩ := List.cons_prefix_cons.1 hp
    by_cases hnil : p = []
    · rw [hnil]
      exact hfirst
    · have hkept := hrest p hprefix hnil
      rwa [List.append_assoc] at hkept

theorem keptAlong_and {keep' : List Text → Bool} {rest : List Text} :
    KeptAlong (fun n => keep n && keep' n) names rest ↔
      KeptAlong keep names rest ∧ KeptAlong keep' names rest := by
  simp only [KeptAlong, Bool.and_eq_true, imp_and, forall_and]

/-- The files of visits, each with its names. -/
def listed (visits : List Visit) : List Listed :=
  visits.flatMap fun v => v.files.map (Listed.mk v.names)

theorem listed_visitsOf (entries : List (Text × Node)) :
    listed (visitsOf tree keep root names (.directory entries)) =
      ((ordered entries).filterMap (tree.entry? root names)).map (Listed.mk names) ++
        (ordered (entries.map (visitsOfEntry tree keep root names))).flatMap fun e =>
          listed e.2 := by
  rw [visitsOf, visitsOfEntries_eq_map, listed, List.flatMap_cons, List.flatMap_assoc]
  rfl

theorem mem_listed_visitsOfEntry {e : Text × Node} {f : Listed} :
    f ∈ listed (visitsOfEntry tree keep root names e).2 ↔
      keep (names ++ [e.1]) = true ∧ f ∈ listed (visitsOf tree keep root (names ++ [e.1]) e.2) := by
  rw [visitsOfEntry]
  dsimp only
  split
  · next hkeep => simp [hkeep]
  · next hkeep => simp [hkeep, listed]

theorem hasFile_nil {entries : List (Text × Node)} {entry : Entry} :
    tree.HasFile root names (.directory entries) [] entry ↔ ∃ e ∈ entries,
      tree.entry? root names e = some entry := by
  simp [HasFile, Node.get?]

theorem hasFile_cons {entries : List (Text × Node)} (nodup : (entries.map Prod.fst).Nodup)
    {e : Text × Node} (he : e ∈ entries) {rest : List Text} {entry : Entry} :
    tree.HasFile root names (.directory entries) (e.1 :: rest) entry ↔
    tree.HasFile root (names ++ [e.1]) e.2 rest entry := by
  simp only [HasFile, Node.get?, Node.child?_of_mem nodup he, Option.bind_some, List.append_assoc,
    List.cons_append, List.nil_append]

theorem exists_entry_of_hasFile {entries : List (Text × Node)} {name : Text} {rest : List Text}
    {entry : Entry} (h : tree.HasFile root names (.directory entries) (name :: rest) entry) :
    ∃ e ∈ entries, e.1 = name := by
  obtain ⟨_, hget, -⟩ := h
  rw [Node.get?, Option.bind_eq_some_iff] at hget
  obtain ⟨node, hchild, -⟩ := hget
  obtain ⟨_, hentries, hmem⟩ := Node.exists_of_child? hchild
  cases hentries
  exact ⟨(name, node), hmem, rfl⟩

theorem exists_place_of_hasFile (htree : tree.top.WellFormed) {node : Node} {here : List Text}
    (hnode : tree.top.get? here = some node) {rest : List Text} {entry : Entry}
    (h : tree.HasFile root [] node rest entry) :
    ∃ entries entryNode, tree.top.get? (here ++ rest) = some (.directory entries) ∧
      tree.top.get? ((here ++ rest) ++ [entry.name]) = some entryNode ∧
      tree.entry? root rest (entry.name, entryNode) = some entry := by
  obtain ⟨entries, hdirectory, ⟨name, entryNode⟩, hmem, hentry⟩ := h
  have hname : entry.name = name := name_of_entry? hentry
  subst hname
  have hget : tree.top.get? (here ++ rest) = some (.directory entries) := by
    rw [Node.get?_append, hnode]
    exact hdirectory
  refine ⟨entries, entryNode, hget, ?_, hentry⟩
  cases htree.get hget with
  | directory nodup plain all =>
    rw [Node.get?_append, hget, Option.bind_some, Node.get?, Node.child?_of_mem nodup hmem]
    rfl

/-- The visits come to the files below the kept directories, and to no others. -/
theorem mem_listed_visitsOf {node : Node} (h : node.WellFormed) {f : Listed} :
    f ∈ listed (visitsOf tree keep root names node) ↔
      ∃ rest, f.names = names ++ rest ∧ KeptAlong keep names rest ∧
        tree.HasFile root names node rest f.entry := by
  induction h generalizing names with
  | file content =>
    refine iff_of_false (by simp [visitsOf, listed]) ?_
    rintro ⟨rest, -, -, entries, hget, -⟩
    obtain ⟨_, hdirectory⟩ := Node.exists_directory_of_get? hget
    cases hdirectory
  | link target =>
    refine iff_of_false (by simp [visitsOf, listed]) ?_
    rintro ⟨rest, -, -, entries, hget, -⟩
    obtain ⟨_, hdirectory⟩ := Node.exists_directory_of_get? hget
    cases hdirectory
  | @directory entries nodup plain all ih =>
    rw [listed_visitsOf, List.mem_append]
    simp only [List.mem_map, List.mem_filterMap, List.mem_flatMap, (ordered_perm _).mem_iff]
    constructor
    · rintro (⟨entry, ⟨e, he, hentry⟩, rfl⟩ | ⟨_, ⟨e, he, rfl⟩, hf⟩)
      · refine ⟨[], (List.append_nil _).symm, ?_, hasFile_nil.2 ⟨e, he, hentry⟩⟩
        intro p hp hne
        exact absurd (List.prefix_nil.1 hp) hne
      · obtain ⟨hkeep, hf⟩ := mem_listed_visitsOfEntry.1 hf
        obtain ⟨rest, hnames, hkept, hfile⟩ := (ih e he).1 hf
        exact ⟨e.1 ::
          rest, by simp [hnames], keptAlong_cons.2 ⟨hkeep, hkept⟩, (hasFile_cons nodup he).2 hfile⟩
    · rintro ⟨rest, hnames, hkept, hfile⟩
      cases rest with
      | nil =>
        rw [List.append_nil] at hnames
        obtain ⟨e, he, hentry⟩ := hasFile_nil.1 hfile
        exact .inl ⟨f.entry, ⟨e, he, hentry⟩, by rw [← hnames]⟩
      | cons name rest =>
        obtain ⟨e, he, rfl⟩ := exists_entry_of_hasFile hfile
        obtain ⟨hkeep, hkept⟩ := keptAlong_cons.1 hkept
        have hbelow := (ih e he).2 ⟨rest, by simp [hnames], hkept, (hasFile_cons nodup he).1 hfile⟩
        exact .inr ⟨_, ⟨e, he, rfl⟩, mem_listed_visitsOfEntry.2 ⟨hkeep, hbelow⟩⟩

theorem pairwise_ordered {α : Type} {entries : List (Text × α)}
    (nodup : (entries.map Prod.fst).Nodup) :
    (ordered entries).Pairwise fun a b => compare a.1 b.1 = .lt := by
  have hnames : ((ordered entries).map Prod.fst).Nodup :=
    ((ordered_perm entries).map _).nodup_iff.2 nodup
  have hsorted : (ordered entries).Pairwise fun a b => (compare a.1 b.1).isLE :=
    pairwise_mergeSort_isLE (compareOn Prod.fst) entries
  refine hsorted.imp₂ ?_ (List.pairwise_map.1 hnames)
  intro a b hle hne
  cases hab : compare a.1 b.1 with
  | lt => rfl
  | eq => exact absurd (LawfulEqCmp.eq_of_compare hab) hne
  | gt => simp [hab] at hle

/-- The visits come to the files in the order of a walk. -/
theorem pairwise_listed_visitsOf {node : Node} (h : node.WellFormed) :
    (listed (visitsOf tree keep root names node)).Pairwise Listed.Before := by
  induction h generalizing names with
  | file content => simp [visitsOf, listed]
  | link target => simp [visitsOf, listed]
  | @directory entries nodup plain all ih =>
    have hbelow {e : Text × Node} (he : e ∈ entries) {f : Listed}
        (hf : f ∈ listed (visitsOfEntry tree keep root names e).2) : ∃ p ≠ [], f.components =
        names ++ e.1 :: p := by
      obtain ⟨-, hf⟩ := mem_listed_visitsOfEntry.1 hf
      obtain ⟨rest, hnames, -, -⟩ := (mem_listed_visitsOf (all e he)).1 hf
      exact ⟨rest ++ [f.entry.name], by simp, by simp [Listed.components, hnames]⟩
    rw [listed_visitsOf, List.pairwise_append]
    refine ⟨?_, ?_, ?_⟩
    · rw [List.pairwise_map, List.pairwise_filterMap]
      apply (pairwise_ordered nodup).imp
      intro a b hab x hx y hy
      have hxname : x.name = a.1 := name_of_entry? hx
      have hyname : y.name = b.1 := name_of_entry? hy
      apply (Precedes.files _).append_left names
      rw [hxname, hyname]
      exact hab
    · rw [List.pairwise_flatMap]
      constructor
      · intro e he
        rw [(ordered_perm _).mem_iff, List.mem_map] at he
        obtain ⟨e, he, rfl⟩ := he
        rw [visitsOfEntry]
        dsimp only
        split
        · exact ih e he
        · exact .nil
      · have hnodup : ((entries.map (visitsOfEntry tree keep root names)).map Prod.fst).Nodup := by
          rw [List.map_map]
          simpa [Function.comp_def] using nodup
        apply (pairwise_ordered hnodup).imp_of_mem
        intro a b ha hb hab f hf g hg
        simp only [(ordered_perm _).mem_iff, List.mem_map] at ha hb
        obtain ⟨a, ha, rfl⟩ := ha
        obtain ⟨b, hb, rfl⟩ := hb
        obtain ⟨p, hp, hfeq⟩ := hbelow ha hf
        obtain ⟨q, hq, hgeq⟩ := hbelow hb hg
        rw [Listed.Before, hfeq, hgeq]
        exact (Precedes.directories hp hq (by simpa using hab)).append_left names
    · intro f hf g hg
      obtain ⟨entry, -, rfl⟩ := List.mem_map.1 hf
      simp only [List.mem_flatMap, (ordered_perm _).mem_iff, List.mem_map] at hg
      obtain ⟨_, ⟨e, he, rfl⟩, hg⟩ := hg
      obtain ⟨q, hq, hgeq⟩ := hbelow he hg
      rw [Listed.Before, hgeq]
      exact (Precedes.deeper hq).append_left names

section Walk

/-- The file stands somewhere below the directory that `root` leads to. -/
def HasFileBelow (tree : Tree) (root : Text) (f : Listed) : Prop :=
  ∃ here node, tree.follow root = .ok here ∧ tree.top.get? here = some node ∧
    tree.HasFile root [] node f.names f.entry

/-- The path of a file below a root gives its names back. -/
theorem components_of_hasFileBelow (htree : tree.top.WellFormed) {f : Listed}
    (h : tree.HasFileBelow root f) :
    Path.components (Path.ofComponents f.components) = f.components := by
  obtain ⟨here, node, -, hnode, hfile⟩ := h
  obtain ⟨_, entryNode, -, hget, -⟩ := exists_place_of_hasFile htree hnode hfile
  rw [List.append_assoc] at hget
  have hplain := htree.plain_of_get? hget
  exact Path.components_ofComponents (by simp [Listed.components]) fun n hn =>
    hplain n (List.mem_append_right _ hn)

theorem mem_listed_walk (h : tree.top.WellFormed) {f : Listed} :
    f ∈ listed (tree.walk keep root) ↔ KeptAlong keep [] f.names ∧ tree.HasFileBelow root f := by
  unfold walk HasFileBelow
  cases tree.follow root with
  | error obstacle => simp [listed]
  | ok here =>
    cases hnode : tree.top.get? here with
    | none => simp [listed, hnode]
    | some node => simp [mem_listed_visitsOf (h.get hnode), hnode]

theorem pairwise_listed_walk (h : tree.top.WellFormed) :
    (listed (tree.walk keep root)).Pairwise Listed.Before := by
  unfold walk
  split
  · split
    · next node hnode => exact pairwise_listed_visitsOf (h.get hnode)
    · exact .nil
  · exact .nil

theorem mem_listed_visits (h : tree.top.WellFormed) {f : Listed} :
    f ∈ listed (tree.visits keep root) ↔
      KeptAlong keep [] f.names ∧ KeptAlong (isReachable root) [] f.names ∧
        tree.HasFileBelow root f := by
  rw [visits, mem_listed_walk h, keptAlong_and, and_assoc]

theorem pairwise_listed_visits (h : tree.top.WellFormed) :
    (listed (tree.visits keep root)).Pairwise Listed.Before :=
  pairwise_listed_walk h

end Walk

section Long

theorem isTooLong_mono {limit : Nat} {s t : Text} (h : s <+: t) (hs : isTooLong limit s = true) :
    isTooLong limit t = true := by
  obtain ⟨rest, rfl⟩ := h
  simp only [isTooLong, decide_eq_true_eq, Utf8.encode_append, List.length_append] at *
  omega

theorem pathBelow_mono (root : Text) {p q : List Text} (h : p <+: q) :
    pathBelow root p <+: pathBelow root q := by
  have hbelow : Path.ofComponents p <+: Path.ofComponents q := Path.ofComponents_mono h
  unfold pathBelow Path.append
  split
  · exact (List.prefix_append_right_inj root).2 hbelow
  · exact (List.prefix_append_right_inj root).2 ((List.prefix_cons_inj '/').2 hbelow)

/-- A file with a path that is not too long stands in a directory that can be looked into. -/
theorem keptAlong_isReachable {f : Listed}
    (h : isTooLong maxPathBytes (pathBelow root f.components) = false) :
    KeptAlong (isReachable root) [] f.names := by
  intro p hp _
  rw [isReachable, Bool.not_eq_true', List.nil_append]
  rw [← Bool.not_eq_true] at h ⊢
  exact fun hlong =>
    h (isTooLong_mono (pathBelow_mono root (hp.trans (List.prefix_append ..))) hlong)

end Long

end Tree

end CloneDetection

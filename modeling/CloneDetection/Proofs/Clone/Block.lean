import CloneDetection.Proofs.Clone.Search

/-!
# Groups are blocks of equal lines

An index that is filled with the windows of numbered lines tells windows of different texts apart as
long as no two of them have a digest in common. The windows of a region overlap, so what its windows
share, whole blocks of lines share: a group stands for one block of texts, found at each of its
locations.
-/
namespace CloneDetection

open Place Std

/-- Equal windows at `span + 1` positions in a row make equal blocks. -/
theorem take_add_eq_of_windows {α : Type} {size span : Nat} (hsize : 0 < size) {a b : List α}
    (h : ∀ k ≤ span, (a.drop k).take size = (b.drop k).take size) :
    a.take (size + span) = b.take (size + span) := by
  induction span generalizing a b with
  | zero => exact h 0 (Nat.le_refl 0)
  | succ span ih =>
    obtain ⟨n, rfl⟩ : ∃ n, size = n + 1 := ⟨size - 1, by omega⟩
    have hfirst := h 0 (Nat.zero_le _)
    cases a with
    | nil =>
      cases b with
      | nil => rfl
      | cons y b => simp at hfirst
    | cons x a =>
      cases b with
      | nil => simp at hfirst
      | cons y b =>
        have hxy : x = y := by simpa using congrArg List.head? hfirst
        have hrest : a.take (n + 1 + span) = b.take (n + 1 + span) :=
          ih fun k hk => h (k + 1) (Nat.succ_le_succ hk)
        have hlen : n + 1 + (span + 1) = (n + 1 + span) + 1 := by omega
        rw [hlen, List.take_succ_cons, List.take_succ_cons, hxy, hrest]

/-- The texts of `count` lines from a position on; fewer if there are not so many. -/
def textsAt (lines : List NormalLine) (position count : Nat) : List Text :=
  ((lines.drop position).take count).map NormalLine.text

theorem length_textsAt {lines : List NormalLine} {position count : Nat}
    (h : position + count ≤ lines.length) : (textsAt lines position count).length = count := by
  simp only [textsAt, List.length_map, List.length_take, List.length_drop]
  omega

theorem textsAt_add (lines : List NormalLine) (position i j : Nat) :
    textsAt lines position (i + j) =
      textsAt lines position i ++ textsAt lines (position + i) j := by
  simp only [textsAt, ← List.map_append]
  rw [List.take_add, List.drop_drop]

theorem textsAt_add_eq {a b : List NormalLine} {i j m n : Nat} (hm : textsAt a i m = textsAt b j m)
    (hn : textsAt a (i + m) n = textsAt b (j + m) n) :
    textsAt a i (m + n) = textsAt b j (m + n) := by
  rw [textsAt_add, textsAt_add, hm, hn]

theorem textsAt_one {lines : List NormalLine} {position : Nat} (h : position < lines.length) :
    textsAt lines position 1 = [lines[position].text] := by
  rw [textsAt, List.drop_eq_getElem_cons h]
  rfl

theorem textsAt_eq_of_windows {size span : Nat} (hsize : 0 < size) {a b : List NormalLine}
    {i j : Nat} (h : ∀ k ≤ span, textsAt a (i + k) size = textsAt b (j + k) size) :
    textsAt a i (size + span) = textsAt b j (size + span) := by
  simp only [textsAt, ← List.drop_drop, List.map_take] at h ⊢
  refine take_add_eq_of_windows hsize fun k hk => ?_
  simpa only [List.map_drop] using h k hk

def Location.StartsAt (l : Location) (lines : List NormalLine) (position : Nat) : Prop :=
  (lines[position]?).map NormalLine.number = some l.startLine

def Location.EndsAt (l : Location) (lines : List NormalLine) (position : Nat) : Prop :=
  (lines[position]?).map NormalLine.number = some l.endLine

theorem Increasing.position_eq {lines : List NormalLine} (h : Increasing lines) {l : Location}
    {p q : Nat} (hp : l.StartsAt lines p) (hq : l.StartsAt lines q) : p = q := by
  rcases Option.map_eq_some_iff.1 hp with ⟨x, hx, hxn⟩
  rcases Option.map_eq_some_iff.1 hq with ⟨y, hy, hyn⟩
  rcases List.getElem?_eq_some_iff.1 hx with ⟨hpl, rfl⟩
  rcases List.getElem?_eq_some_iff.1 hy with ⟨hql, rfl⟩
  have hpair := List.pairwise_iff_getElem.1 h
  rcases Nat.lt_trichotomy p q with hlt | heq | hgt
  · have hless := hpair p q hpl hql hlt
    omega
  · exact heq
  · have hless := hpair q p hql hpl hgt
    omega

namespace Index

/-- The windows of `size` lines of a file with the normal lines `source path`, whose numbers
increase. -/
def WindowsOf (source : Text → List NormalLine) (size : Int) (path : Text) (windows : List Window) :
    Prop :=
  Increasing (source path) ∧ Window.ofLines? size (source path) = some windows

def windowTexts (source : Text → List NormalLine) (size : Int) (o : Occurrence) : List Text :=
  textsAt (source o.path) o.offset size.toNat

/-- Windows of the index with one digest have the same texts. -/
def CollisionFree (source : Text → List NormalLine) (size : Int) (index : Index) : Prop :=
  ∀ o p, index.Has o → index.Has p → digest (windowTexts source size o) =
    digest (windowTexts source size p) →
    windowTexts source size o = windowTexts source size p

section Source

variable {source : Text → List NormalLine} {size : Int} {index : Index}

theorem Filled.startsAscend_of_source (h : Filled (WindowsOf source size) size index) :
    index.StartsAscend :=
  h.startsAscend fun path _ hw =>
    Window.OfIncreasing.pairwise_startLine ⟨size, source path, hw.1, hw.2⟩

/-- The index has exactly the windows that fit into the lines of its files. -/
theorem Filled.windowAt?_eq (h : Filled (WindowsOf source size) size index) {o : Occurrence}
    (ho : index.files.contains o.path = true) :
    0 < size ∧ Increasing (source o.path) ∧
      index.windowAt? o = ((source o.path)[o.offset]?).bind fun first =>
        ((source o.path)[o.offset + (size.toNat - 1)]?).map fun last =>
          ⟨digest (windowTexts source size o), first.number, last.number⟩ := by
  rw [Ordered.contains_eq_isSome, Option.isSome_iff_exists] at ho
  rcases ho with ⟨windows, hfile⟩
  rcases h.admitted o.path windows hfile with ⟨hincreasing, hwindows⟩
  unfold Window.ofLines? at hwindows
  split at hwindows
  · next hsize =>
    refine ⟨hsize, hincreasing, ?_⟩
    rw [windowAt?, hfile, Option.bind_some, ← Array.getElem?_toList, ← Option.some.inj hwindows,
      Window.getElem?_ofLines]
    rfl
  · cases hwindows

theorem contains_of_has {o : Occurrence} (h : index.Has o) :
    index.files.contains o.path = true := by
  rcases h with ⟨w, hw⟩
  rw [Ordered.contains_eq_isSome]
  cases hfile : index.files.get? o.path with
  | none => simp [windowAt?, hfile] at hw
  | some windows => rfl

/-- What a window of the index says about the lines of its file. -/
structure Covers (source : Text → List NormalLine) (size : Int) (index : Index) (o : Occurrence) :
    Prop where
  size_pos : 0 < size
  increasing : Increasing (source o.path)
  fits : o.offset + size.toNat ≤ (source o.path).length
  digest_eq : index.digestOf? o = some (digest (windowTexts source size o))
  start_eq : ((source o.path)[o.offset]?).map NormalLine.number = some (index.startLineAt o)
  end_eq : ((source o.path)[o.offset + (size.toNat - 1)]?).map NormalLine.number =
  some (index.endLineAt o)

theorem Filled.covers (h : Filled (WindowsOf source size) size index) {o : Occurrence}
    (ho : index.Has o) :
    Covers source size index o := by
  rcases h.windowAt?_eq (contains_of_has ho) with ⟨hsize, hincreasing, hwindow⟩
  rcases ho with ⟨w, hw⟩
  rw [hw, eq_comm, Option.bind_eq_some_iff] at hwindow
  rcases hwindow with ⟨first, hfirst, hwindow⟩
  rcases Option.map_eq_some_iff.1 hwindow with ⟨last, hlast, rfl⟩
  have hfits := (List.getElem?_eq_some_iff.1 hlast).1
  refine ⟨hsize, hincreasing, by omega, ?_, ?_, ?_⟩
  · rw [digestOf?, hw, Option.map_some]
  · rw [hfirst, startLineAt, hw]
    rfl
  · rw [hlast, endLineAt, hw]
    rfl

theorem Filled.has_of_fits (h : Filled (WindowsOf source size) size index) {o : Occurrence}
    (ho : index.files.contains o.path = true)
    (hfits : o.offset + size.toNat ≤ (source o.path).length) :
    index.Has o := by
  rcases h.windowAt?_eq ho with ⟨hsize, -, hwindow⟩
  rw [List.getElem?_eq_getElem (by omega), List.getElem?_eq_getElem (by omega)] at hwindow
  exact ⟨_, hwindow⟩

theorem CollisionFree.texts_eq (hc : CollisionFree source size index)
    (h : Filled (WindowsOf source size) size index) {o p : Occurrence} {d : Nat}
    (ho : index.digestOf? o = some d) (hp : index.digestOf? p = some d) :
    windowTexts source size o = windowTexts source size p := by
  have hho := has_of_digestOf? ho
  have hhp := has_of_digestOf? hp
  apply hc o p hho hhp
  rw [(h.covers hho).digest_eq] at ho
  rw [(h.covers hhp).digest_eq] at hp
  exact Option.some.inj (ho.trans hp.symm)

theorem Filled.shares_of_texts (h : Filled (WindowsOf source size) size index) (texts : List Text)
    {l : List Occurrence} (hl : ∀ o ∈ l, index.Has o ∧ windowTexts source size o = texts) :
    index.Shares l := by
  refine ⟨digest texts, fun o ho => ?_⟩
  rcases hl o ho with ⟨hhas, rfl⟩
  exact (h.covers hhas).digest_eq

section Region

variable {r : Region}

theorem IsMaximal.covers (hr : index.IsMaximal r) (h : Filled (WindowsOf source size) size index)
    {k : Nat} (hk : k ≤ r.span) {o : Occurrence} (ho : o ∈ r.start) :
    Covers source size index (o.move k) :=
  h.covers (hr.has hk ho)

theorem IsMaximal.block_eq (hr : index.IsMaximal r) (h : Filled (WindowsOf source size) size index)
    (hc : CollisionFree source size index) {o p : Occurrence} (ho : o ∈ r.start)
    (hp : p ∈ r.start) :
    textsAt (source o.path) o.offset (size.toNat + r.span) =
      textsAt (source p.path) p.offset (size.toNat + r.span) := by
  have hsize := (hr.covers h (Nat.zero_le _) ho).size_pos
  refine textsAt_eq_of_windows (by omega) fun k hk => ?_
  rcases hr.shares k hk with ⟨d, hd⟩
  exact hc.texts_eq h (hd _ (List.mem_map_of_mem ho)) (hd _ (List.mem_map_of_mem hp))

theorem IsMaximal.block_fits (hr : index.IsMaximal r)
    (h : Filled (WindowsOf source size) size index) {o : Occurrence} (ho : o ∈ r.start) :
    o.offset + (size.toNat + r.span) ≤ (source o.path).length := by
  have hfits := (hr.covers h (Nat.le_refl _) ho).fits
  simp only [move] at hfits
  omega

theorem IsMaximal.startsAt (hr : index.IsMaximal r) (h : Filled (WindowsOf source size) size index)
    {o : Occurrence} (ho : o ∈ r.start) :
    (index.locationOf r.span o).StartsAt (source o.path) o.offset :=
  (h.covers (hr.has_start ho)).start_eq

theorem IsMaximal.endsAt (hr : index.IsMaximal r) (h : Filled (WindowsOf source size) size index)
    {o : Occurrence} (ho : o ∈ r.start) :
    (index.locationOf r.span o).EndsAt (source o.path) (o.offset + (size.toNat + r.span) - 1) := by
  have hcovers := hr.covers h (Nat.le_refl _) ho
  have hposition : o.offset + (size.toNat + r.span) - 1 = o.offset + r.span + (size.toNat - 1) := by
    have hsize := hcovers.size_pos
    omega
  rw [hposition]
  exact hcovers.end_eq

end Region

/-- Every group of a search that nobody cancels stands for one block of texts. It is found at two or
more locations, in strictly ascending order; the block has as many texts as the group has lines,
which are no fewer than a window has; and at each location it stands from the line on that the
location starts with to the line that the location ends with. -/
theorem findGroups_blocks (h : Filled (WindowsOf source size) size index)
    (hc : CollisionFree source size index) (near : Bool) (reader : FileReader) (rec : Record) :
    ∃ groups, (index.findGroups near).Gives reader rec groups
        { rec with checks := rec.checks + index.buckets.size } ∧
      ∀ g ∈ groups, 2 ≤ g.locations.length ∧ Ascending g.starts ∧ size ≤ g.lineCount ∧
        ∃ texts : List Text, (texts.length : Int) = g.lineCount ∧
          ∀ l ∈ g.locations, ∃ p, p + texts.length ≤ (source l.path).length ∧
            l.StartsAt (source l.path) p ∧ l.EndsAt (source l.path) (p + texts.length - 1) ∧
            textsAt (source l.path) p texts.length = texts := by
  have hcoherent : Coherent index := h.coherent
  have hs : index.StartsAscend := h.startsAscend_of_source
  refine ⟨index.groups near, hcoherent.findGroups_gives hs near reader rec, ?_⟩
  intro g hg
  rcases mem_groups.1 hg with ⟨r, hr, rfl⟩
  rw [hcoherent.mem_regions] at hr
  have hmaximal := hr.maximal
  rcases List.exists_mem_of_ne_nil _ hmaximal.ne_nil with ⟨o, ho⟩
  have hsize := (hmaximal.covers h (Nat.zero_le _) ho).size_pos
  have hlen := length_textsAt (hmaximal.block_fits h ho)
  have hcount : (index.groupOf near r).lineCount = size + r.span := by
    rw [lineCount_groupOf, h.windowSize_eq]
  refine ⟨by rw [length_locations_groupOf]; exact hr.several,
    ascending_starts_groupOf hs hmaximal hr.ascending near, by omega,
    textsAt (source o.path) o.offset (size.toNat + r.span), by omega, ?_⟩
  intro l hl
  rcases List.mem_map.1 hl with ⟨p, hp, rfl⟩
  rw [hlen]
  exact ⟨p.offset, hmaximal.block_fits h hp, hmaximal.startsAt h hp, hmaximal.endsAt h hp,
    hmaximal.block_eq h hc hp ho⟩

end Source

theorem filled_refrain : Filled (WindowsOf refrainLines 2) 2 refrain :=
  .offer (.offer (.offer (.empty 2) ⟨increasing_refrainLines _, rfl⟩)
    ⟨increasing_refrainLines _, rfl⟩)
    ⟨increasing_refrainLines _, rfl⟩

theorem collisionFree_refrain : CollisionFree refrainLines 2 refrain := by
  intro o p ho hp hdigest
  have hcoherent : Coherent refrain := filled_refrain.coherent
  have ho' := (hcoherent.mem_bucket _ o).2 (filled_refrain.covers ho).digest_eq
  have hp' := (hcoherent.mem_bucket _ p).2 (filled_refrain.covers hp).digest_eq
  rw [← hdigest] at hp'
  have hbucket := hcoherent.mem_bucketList.2 ⟨_, rfl, List.ne_nil_of_mem ho'⟩
  generalize refrain.bucket (digest (windowTexts refrainLines 2 o)) = b at ho' hp' hbucket
  rw [bucketList_refrain] at hbucket
  have hbuckets :
      ∀ b ∈ [[(⟨['c'], 0⟩ : Occurrence), ⟨['b'], 0⟩, ⟨['a'], 0⟩], [⟨['b'], 1⟩, ⟨['a'], 1⟩],
      [⟨['b'], 2⟩, ⟨['a'], 2⟩]], ∀ o ∈ b, ∀ p ∈ b,
        windowTexts refrainLines 2 o = windowTexts refrainLines 2 p := by decide
  exact hbuckets b hbucket o ho' p hp'

theorem findGroups_blocks_refrain :
    Filled (WindowsOf refrainLines 2) 2 refrain ∧ CollisionFree refrainLines 2 refrain ∧
      ∃ groups, (refrain.findGroups false).Gives (fun _ _ => none) {} groups
          { ({} : Record) with checks := ({} : Record).checks + refrain.buckets.size } ∧
        ∀ g ∈ refrainGroups, g ∈ groups ∧ 2 ≤ g.locations.length ∧ Ascending g.starts ∧
          2 ≤ g.lineCount ∧
          ∃ texts : List Text, (texts.length : Int) = g.lineCount ∧
            ∀ l ∈ g.locations, ∃ p, p + texts.length ≤ (refrainLines l.path).length ∧
              l.StartsAt (refrainLines l.path) p ∧
              l.EndsAt (refrainLines l.path) (p + texts.length - 1) ∧
              textsAt (refrainLines l.path) p texts.length = texts := by
  obtain ⟨groups, hgives, hblocks⟩ :=
    findGroups_blocks filled_refrain collisionFree_refrain false (fun _ _ => none) {}
  have hgroups : groups = refrain.groups false := hgives.unique
    (filled_refrain.coherent.findGroups_gives filled_refrain.startsAscend_of_source false _ _)
  refine ⟨filled_refrain, collisionFree_refrain, groups, hgives, fun g hg => ?_⟩
  have hmem : g ∈ groups := hgroups ▸ mem_groups_refrain.2 hg
  exact ⟨hmem, hblocks g hmem⟩

end Index

end CloneDetection

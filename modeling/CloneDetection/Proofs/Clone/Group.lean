import CloneDetection.Proofs.Clone.Growth

/-!
# The group of a region

A maximal region has all the windows that its group is made of. Where later windows of a file start
on later lines, the group stands at its locations in ascending order, and its length and its starts
give the region back. Groups are ordered by length and starts alone, so regions never tie.
-/
namespace CloneDetection

open Place Std

theorem mapM_eq_some_map {α β : Type} {f : α → Option β} {g : α → β} {l : List α}
    (h : ∀ a ∈ l, f a = some (g a)) : l.mapM f = some (l.map g) := by
  induction l with
  | nil => rfl
  | cons a l ih =>
    rw [List.mapM_cons, h a List.mem_cons_self, ih fun b hb => h b (List.mem_cons_of_mem a hb)]
    rfl

namespace CloneGroup

instance : TransCmp order :=
  have : TransCmp fun g h : CloneGroup => compareOn lineCount h g := inferInstance
  inferInstanceAs (TransCmp (compareLex (fun g h => compareOn lineCount h g) (compareOn starts)))

theorem order_eq_iff {g h : CloneGroup} :
    order g h = .eq ↔ g.lineCount = h.lineCount ∧ g.starts = h.starts := by
  rw [order, Ordering.then_eq_eq, Std.compare_eq_iff_eq, Std.compare_eq_iff_eq,
    eq_comm (a := h.lineCount)]

def ranked (groups : List CloneGroup) : List CloneGroup :=
  groups.mergeSort fun g h => (order g h).isLE

theorem ranked_perm (groups : List CloneGroup) : (ranked groups).Perm groups :=
  List.mergeSort_perm groups _

theorem mem_ranked {groups : List CloneGroup} {g : CloneGroup} : g ∈ ranked groups ↔ g ∈ groups :=
  (ranked_perm groups).mem_iff

theorem pairwise_ranked (groups : List CloneGroup) :
    (ranked groups).Pairwise fun g h => (order g h).isLE :=
  pairwise_mergeSort_isLE order groups

theorem order_eq_of_isLE_isLE {g h : CloneGroup} (hgh : (order g h).isLE) (hhg : (order h g).isLE) :
    order g h = .eq := by
  have hswap : order h g = (order g h).swap := OrientedCmp.eq_swap
  rw [hswap] at hhg
  cases hc : order g h with
  | eq => rfl
  | lt => simp [hc] at hhg
  | gt => simp [hc] at hgh

theorem sameRegion_iff {g h : CloneGroup} :
    g.sameRegion h = true ↔ g.lineCount = h.lineCount ∧ ∀ p, p ∈ g.starts ↔ p ∈ h.starts := by
  simp only [sameRegion, Bool.and_eq_true, beq_iff_eq, List.all_eq_true, List.contains_iff_mem,
    and_assoc]
  constructor
  · rintro ⟨hl, hgh, hhg⟩
    exact ⟨hl, fun p => ⟨hgh p, hhg p⟩⟩
  · rintro ⟨hl, h⟩
    exact ⟨hl, fun p => (h p).1, fun p => (h p).2⟩

end CloneGroup

namespace Index

def startLineAt (index : Index) (o : Occurrence) : Int :=
  ((index.windowAt? o).map Window.startLine).getD 0

def endLineAt (index : Index) (o : Occurrence) : Int :=
  ((index.windowAt? o).map Window.endLine).getD 0

def locationOf (index : Index) (span : Nat) (o : Occurrence) : Location :=
  ⟨o.path, index.startLineAt o, index.endLineAt (o.move span)⟩

def groupOf (index : Index) (near : Bool) (r : Region) : CloneGroup :=
  ⟨index.windowSize + r.span, r.start.map (index.locationOf r.span), near⟩

def startOf (index : Index) (o : Occurrence) : Place Int :=
  ⟨o.path, index.startLineAt o⟩

theorem starts_groupOf (index : Index) (near : Bool) (r : Region) :
    (index.groupOf near r).starts = r.start.map index.startOf := by
  rw [CloneGroup.starts, groupOf, List.map_map]
  rfl

theorem lineCount_groupOf (index : Index) (near : Bool) (r : Region) :
    (index.groupOf near r).lineCount = index.windowSize + r.span := rfl

theorem length_locations_groupOf (index : Index) (near : Bool) (r : Region) :
    (index.groupOf near r).locations.length = r.start.length := by
  rw [groupOf, List.length_map]

def Has (index : Index) (o : Occurrence) : Prop :=
  ∃ w, index.windowAt? o = some w

theorem has_of_digestOf? {index : Index} {o : Occurrence} {d : Nat}
    (h : index.digestOf? o = some d) :
    index.Has o := by
  rcases Option.map_eq_some_iff.1 h with ⟨w, hw, _⟩
  exact ⟨w, hw⟩

theorem IsMaximal.has {index : Index} {r : Region} (hr : index.IsMaximal r) {k : Nat}
    (hk : k ≤ r.span) {o : Occurrence} (ho : o ∈ r.start) : index.Has (o.move k) := by
  rcases hr.shares k hk with ⟨d, hd⟩
  exact has_of_digestOf? (hd _ (List.mem_map_of_mem ho))

theorem IsMaximal.has_start {index : Index} {r : Region} (hr : index.IsMaximal r) {o : Occurrence}
    (ho : o ∈ r.start) : index.Has o :=
  hr.has (Nat.zero_le _) ho

theorem location?_eq {index : Index} {span : Nat} {o : Occurrence} (ho : index.Has o)
    (hlast : index.Has (o.move span)) :
    index.location? span o = some (index.locationOf span o) := by
  rcases ho with ⟨w, hw⟩
  rcases hlast with ⟨v, hv⟩
  have hv' : index.windowAt? { o with offset := o.offset + span } = some v := hv
  simp [location?, locationOf, startLineAt, endLineAt, hw, hv, hv']

theorem IsMaximal.group?_eq {index : Index} {r : Region} (hr : index.IsMaximal r) (near : Bool) :
    index.group? near r = some (index.groupOf near r) := by
  have hlocations : r.start.mapM (index.location? r.span) =
      some (r.start.map (index.locationOf r.span)) :=
    mapM_eq_some_map fun o ho => location?_eq (hr.has_start ho) (hr.has (Nat.le_refl _) ho)
  rw [group?, hlocations]
  rfl

/-- In every file later windows start on later lines. -/
def StartsAscend (index : Index) : Prop :=
  ∀ path i j w v, i < j → index.windowAt? ⟨path, i⟩ = some w → index.windowAt? ⟨path, j⟩ = some v →
    w.startLine < v.startLine

theorem Filled.startsAscend {admits : Text → List Window → Prop} {size : Int} {index : Index}
    (h : Filled admits size index)
    (ha : ∀ path windows, admits path windows →
      windows.Pairwise fun w v => w.startLine < v.startLine) :
    index.StartsAscend := by
  intro path i j w v hij hw hv
  simp only [windowAt?] at hw hv
  cases hfile : index.files.get? path with
  | none => simp [hfile] at hw
  | some windows =>
    simp only [hfile, Option.bind_some, ← Array.getElem?_toList] at hw hv
    rcases List.getElem?_eq_some_iff.1 hw with ⟨hi, rfl⟩
    rcases List.getElem?_eq_some_iff.1 hv with ⟨hj, rfl⟩
    exact List.pairwise_iff_getElem.1 (ha path _ (h.admitted path windows hfile)) i j hi hj hij

theorem StartsAscend.startLineAt_lt {index : Index} (h : index.StartsAscend) {o p : Occurrence}
    (ho : index.Has o) (hp : index.Has p) (hpath : o.path = p.path) (hlt : o.offset < p.offset) :
    index.startLineAt o < index.startLineAt p := by
  rcases ho with ⟨w, hw⟩
  rcases hp with ⟨v, hv⟩
  simp only [startLineAt, hw, hv, Option.map_some, Option.getD_some]
  cases o
  cases p
  subst hpath
  exact h _ _ _ w v hlt hw hv

theorem StartsAscend.eq_of_startOf_eq {index : Index} (h : index.StartsAscend) {o p : Occurrence}
    (ho : index.Has o) (hp : index.Has p) (heq : index.startOf o = index.startOf p) : o = p := by
  have hpath : o.path = p.path := congrArg (fun q : Place Int => q.path) heq
  have hline : index.startLineAt o = index.startLineAt p :=
    congrArg (fun q : Place Int => q.offset) heq
  rcases Nat.lt_trichotomy o.offset p.offset with hlt | hoffset | hgt
  · exact absurd hline (Int.ne_of_lt (h.startLineAt_lt ho hp hpath hlt))
  · cases o
    cases p
    simp_all
  · exact absurd hline.symm (Int.ne_of_lt (h.startLineAt_lt hp ho hpath.symm hgt))

theorem ascending_starts_groupOf {index : Index} (h : index.StartsAscend) {r : Region}
    (hr : index.IsMaximal r) (hs : Ascending r.start) (near : Bool) :
    Ascending (index.groupOf near r).starts := by
  rw [starts_groupOf, Ascending, List.pairwise_map]
  apply hs.imp_of_mem
  intro o p ho hp hlt
  rw [compare_lt_iff] at hlt ⊢
  apply hlt.imp id
  rintro ⟨hpath, hoffset⟩
  refine ⟨hpath, ?_⟩
  rw [Int.compare_eq_lt]
  exact h.startLineAt_lt (hr.has_start ho) (hr.has_start hp) (Std.compare_eq_iff_eq.1 hpath)
    (Nat.compare_eq_lt.1 hoffset)

/-- The length and the starts of a group give its region back. -/
theorem eq_of_sameRegion {index : Index} (h : index.StartsAscend) (near : Bool) {r s : Region}
    (hr : index.IsMaximal r) (hs : index.IsMaximal s) (har : Ascending r.start)
    (has : Ascending s.start)
    (hsame : (index.groupOf near r).sameRegion (index.groupOf near s) = true) : r = s := by
  have hstarts := (CloneGroup.sameRegion_iff.1 hsame).2
  simp only [starts_groupOf, List.mem_map] at hstarts
  refine hr.eq_of_start_eq hs (har.eq_of_mem_iff has fun o => ⟨fun ho => ?_, fun ho => ?_⟩)
  · rcases (hstarts (index.startOf o)).1 ⟨o, ho, rfl⟩ with ⟨p, hp, heq⟩
    rwa [← h.eq_of_startOf_eq (hs.has_start hp) (hr.has_start ho) heq]
  · rcases (hstarts (index.startOf o)).2 ⟨o, ho, rfl⟩ with ⟨p, hp, heq⟩
    rwa [← h.eq_of_startOf_eq (hr.has_start hp) (hs.has_start ho) heq]

end Index

end CloneDetection

import CloneDetection.Proofs.Clone.Place

/-!
# Indexes that are filled by adding and merging

An index is filled file by file, where a path that is already indexed is refused, and by taking over
the files of another index up to the first refused one. Whatever the order, the buckets then list
exactly the windows of the files, each once.
-/
namespace CloneDetection

namespace Index

def bucket (index : Index) (digest : Nat) : List Occurrence :=
  (index.buckets.get? digest).getD []

def digestOf? (index : Index) (o : Occurrence) : Option Nat :=
  (index.windowAt? o).map Window.digest

/-- The index with one more file, for a path that is not indexed yet. -/
def adding (index : Index) (path : Text) (windows : List Window) : Index :=
  { index with
    files := index.files.insert path windows.toArray
    buckets :=
      windows.zipIdx.foldl (fun b (w, i) => addOccurrence b w.digest ⟨path, i⟩) index.buckets }

def offer (index : Index) (path : Text) (windows : List Window) : Index :=
  (index.add? path windows).getD index

/-- Indexes of window size `size` that adding and merging lead to, if every file that is offered is
admitted. -/
inductive Filled (admits : Text → List Window → Prop) : Int → Index → Prop
  | empty (size : Int) : Filled admits size (.empty size)
  | offer {size : Int} {index : Index} {path : Text} {windows : List Window} :
      Filled admits size index → admits path windows → Filled admits size (index.offer path windows)
  | merge {size size' : Int} {index other : Index} :
      Filled admits size index → Filled admits size' other →
      Filled admits size (index.merge other).1

theorem offer_eq_self {index : Index} {path : Text} {windows : List Window}
    (h : index.files.contains path = true ∨ windows = []) : index.offer path windows = index := by
  unfold offer add?
  rcases h with h | rfl
  · rw [if_pos h]
    rfl
  · split <;> rfl

theorem offer_eq_adding {index : Index} {path : Text} {windows : List Window}
    (hp : index.files.contains path = false) (hw : windows ≠ []) :
    index.offer path windows = index.adding path windows := by
  unfold offer add?
  rw [if_neg (by simp [hp]), if_neg (by simpa using hw)]
  rfl

theorem addAll_fst_cons (index : Index) (path : Text) (windows : Array Window)
    (rest : List (Text × Array Window)) :
    (index.addAll ((path, windows) :: rest)).1 = index ∨
      (index.addAll ((path, windows) :: rest)).1 =
        ((index.offer path windows.toList).addAll rest).1 := by
  rw [addAll]
  cases h : index.add? path windows.toList with
  | none => exact .inl rfl
  | some next => exact .inr (by rw [offer, h, Option.getD_some])

section Invariant

variable {admits : Text → List Window → Prop} {P : Index → Prop}

theorem offer_keeps {index : Index} {path : Text} {windows : List Window} (h : P index)
    (hadd : index.files.contains path = false → windows ≠ [] → P (index.adding path windows)) :
    P (index.offer path windows) := by
  by_cases hc : index.files.contains path = true ∨ windows = []
  · rw [offer_eq_self hc]
    exact h
  · simp only [not_or, Bool.not_eq_true] at hc
    rw [offer_eq_adding hc.1 hc.2]
    exact hadd hc.1 hc.2

theorem addAll_keeps
    (step : ∀ index path windows, P index → admits path windows → P (index.offer path windows))
    {files : List (Text × Array Window)} (hfiles : ∀ f ∈ files, admits f.1 f.2.toList)
    {index : Index} (h : P index) : P (index.addAll files).1 := by
  induction files generalizing index with
  | nil => exact h
  | cons file rest ih =>
    rcases file with ⟨path, windows⟩
    have hhead : admits path windows.toList := hfiles (path, windows) List.mem_cons_self
    have hrest : ∀ f ∈ rest, admits f.1 f.2.toList :=
      fun f hf => hfiles f (List.mem_cons_of_mem _ hf)
    rcases addAll_fst_cons index path windows rest with heq | heq
    · rw [heq]
      exact h
    · rw [heq]
      exact ih hrest (step index path windows.toList h hhead)

def Admitted (admits : Text → List Window → Prop) (index : Index) : Prop :=
  ∀ path windows, index.files.get? path = some windows → admits path windows.toList

theorem Admitted.offer {index : Index} {path : Text} {windows : List Window}
    (h : Admitted admits index) (ha : admits path windows) :
    Admitted admits (index.offer path windows) := by
  apply offer_keeps h
  intro _ _ p v hv
  simp only [adding, Ordered.insert, Ordered.get?_upsert] at hv
  split at hv
  · next hp =>
    subst hp
    cases hv
    exact ha
  · exact h p v hv

theorem Admitted.of_mem_toList {index : Index} (h : Admitted admits index) :
    ∀ f ∈ index.files.toList, admits f.1 f.2.toList := by
  intro f hf
  exact h f.1 f.2 (Ordered.get?_eq_some_iff.2 hf)

theorem Filled.admitted {size : Int} {index : Index} (h : Filled admits size index) :
    Admitted admits index := by
  induction h with
  | empty size =>
    intro path windows hw
    simp [Index.empty] at hw
  | offer _ ha ih => exact ih.offer ha
  | merge _ _ ih ih' =>
    exact addAll_keeps (fun _ _ _ h ha => h.offer ha) ih'.of_mem_toList ih

/-- What an empty index has and every accepted file keeps, all filled indexes have. -/
theorem Filled.keeps {size : Int} {index : Index} (h : Filled admits size index)
    (hempty : ∀ size, P (.empty size))
    (hadd : ∀ index path windows, P index → admits path windows → index.files.contains path =
      false → windows ≠ [] → P (index.adding path windows)) : P index := by
  have step (index : Index) (path : Text) (windows : List Window) (hi : P index)
      (ha : admits path windows) : P (index.offer path windows) :=
    offer_keeps hi (hadd index path windows hi ha)
  induction h with
  | empty size => exact hempty size
  | offer _ ha ih => exact step _ _ _ ih ha
  | merge _ hother ih _ => exact addAll_keeps step hother.admitted.of_mem_toList ih

theorem windowSize_offer (index : Index) (path : Text) (windows : List Window) :
    (index.offer path windows).windowSize = index.windowSize :=
  offer_keeps (P := fun i => i.windowSize = index.windowSize) rfl fun _ _ => rfl

theorem Filled.windowSize_eq {size : Int} {index : Index} (h : Filled admits size index) :
    index.windowSize = size := by
  induction h with
  | empty size => rfl
  | offer _ _ ih => rw [windowSize_offer, ih]
  | merge _ hother ih _ =>
    refine addAll_keeps (P := fun i => i.windowSize = _) ?_ hother.admitted.of_mem_toList ih
    intro i path windows hi _
    rw [windowSize_offer, hi]

end Invariant

section Buckets

/-- The occurrences of a digest among the windows of one file, of which the first is the
`start`-th. -/
def occurrencesIn (path : Text) (digest start : Nat) (windows : List Window) : List Occurrence :=
  ((windows.zipIdx start).filter fun e => e.1.digest == digest).map fun e => ⟨path, e.2⟩

theorem mem_occurrencesIn {path : Text} {digest start : Nat} {windows : List Window}
    {o : Occurrence} :
    o ∈ occurrencesIn path digest start windows ↔
      o.path = path ∧ start ≤ o.offset ∧
        (windows[o.offset - start]?).map Window.digest = some digest := by
  simp only [occurrencesIn, List.mem_map, List.mem_filter, Prod.exists,
    List.mk_mem_zipIdx_iff_le_and_getElem?_sub, beq_iff_eq, Option.map_eq_some_iff]
  constructor
  · rintro ⟨w, i, ⟨⟨hi, hw⟩, hd⟩, rfl⟩
    exact ⟨rfl, hi, w, hw, hd⟩
  · rintro ⟨rfl, hi, w, hw, hd⟩
    exact ⟨w, o.offset, ⟨⟨hi, hw⟩, hd⟩, rfl⟩

theorem nodup_occurrencesIn (path : Text) (digest start : Nat) (windows : List Window) :
    (occurrencesIn path digest start windows).Nodup := by
  have hidx : ((windows.zipIdx start).map Prod.snd).Nodup := by
    rw [List.zipIdx_map_snd]
    exact List.nodup_range' 1
  have hpairs : (windows.zipIdx start).Pairwise fun a b => a.2 ≠ b.2 := List.pairwise_map.1 hidx
  rw [occurrencesIn, List.Nodup, List.pairwise_map]
  apply (hpairs.filter _).imp
  rintro a b hne heq
  exact hne (congrArg Place.offset heq)

theorem get?_foldl_addOccurrence (path : Text) (digest start : Nat) (windows : List Window)
    (buckets : Ordered Nat (List Occurrence)) :
    ((windows.zipIdx start).foldl (fun b (w, i) => addOccurrence b w.digest ⟨path, i⟩) buckets).get?
      digest =
      if occurrencesIn path digest start windows = [] then buckets.get? digest
      else some
        ((occurrencesIn path digest start windows).reverse ++ (buckets.get? digest).getD []) := by
  induction windows generalizing start buckets with
  | nil => rfl
  | cons w windows ih =>
    rw [List.zipIdx_cons, List.foldl_cons, ih]
    simp only [addOccurrence, Ordered.get?_upsert]
    by_cases hd : w.digest = digest
    · subst hd
      have hcons : occurrencesIn path w.digest start (w :: windows) =
          ⟨path, start⟩ :: occurrencesIn path w.digest (start + 1) windows := by
        simp [occurrencesIn, List.zipIdx_cons]
      rw [hcons, if_neg (List.cons_ne_nil _ _)]
      by_cases h : occurrencesIn path w.digest (start + 1) windows = [] <;> simp [h]
    · have hcons : occurrencesIn path digest start (w :: windows) =
          occurrencesIn path digest (start + 1) windows := by
        simp [occurrencesIn, List.zipIdx_cons, hd]
      rw [hcons, if_neg hd]

end Buckets

/-- The files and the buckets of an index tell the same. -/
structure Coherent (index : Index) : Prop where
  mem_bucket : ∀ digest o, o ∈ index.bucket digest ↔ index.digestOf? o = some digest
  nodup_bucket : ∀ digest, (index.bucket digest).Nodup
  bucket_ne_nil : ∀ digest, index.buckets.get? digest ≠ some []
  windows_ne_empty : ∀ path, index.files.get? path ≠ some #[]

theorem bucket_adding (index : Index) (path : Text) (windows : List Window) (digest : Nat) :
    (index.adding path windows).bucket digest =
      (occurrencesIn path digest 0 windows).reverse ++ index.bucket digest := by
  rw [bucket, adding, get?_foldl_addOccurrence]
  split
  · next h => simp [h, bucket]
  · rfl

theorem digestOf?_adding (index : Index) (path : Text) (windows : List Window) (o : Occurrence) :
    (index.adding path windows).digestOf? o =
      if o.path = path then (windows[o.offset]?).map Window.digest else index.digestOf? o := by
  unfold digestOf? windowAt? adding
  rw [Ordered.insert, Ordered.get?_upsert]
  by_cases h : o.path = path
  · simp [h]
  · simp [h, Ne.symm h]

theorem digestOf?_eq_none {index : Index} {o : Occurrence}
    (h : index.files.contains o.path = false) :
    index.digestOf? o = none := by
  have hget : index.files.get? o.path = none := by
    rw [Ordered.contains_eq_isSome] at h
    simpa using h
  simp [digestOf?, windowAt?, hget]

theorem add?_eq_offer {index : Index} {path : Text} (h : index.files.contains path = false)
    (windows : List Window) : index.add? path windows = some (index.offer path windows) := by
  unfold offer add?
  rw [if_neg (by simp [h])]
  split
  · rfl
  · rfl

theorem contains_offer {index : Index} {path other : Text} {windows : List Window}
    (h : (index.offer path windows).files.contains other = true) :
    other = path ∨ index.files.contains other = true := by
  by_cases hc : index.files.contains path = true ∨ windows = []
  · rw [offer_eq_self hc] at h
    exact .inr h
  · simp only [not_or, Bool.not_eq_true] at hc
    rw [offer_eq_adding hc.1 hc.2, Ordered.contains_eq_isSome] at h
    simp only [adding, Ordered.insert, Ordered.get?_upsert] at h
    by_cases hpath : path = other
    · exact .inl hpath.symm
    · rw [if_neg hpath, ← Ordered.contains_eq_isSome] at h
      exact .inr h

theorem contains_empty (size : Int) (path : Text) : (empty size).files.contains path = false := by
  simp [empty, Ordered.contains_eq_isSome]

theorem contains_offer_of_ne {index : Index} {path other : Text} (hne : other ≠ path)
    (h : index.files.contains other = false) (windows : List Window) :
    (index.offer path windows).files.contains other = false := by
  rw [← Bool.not_eq_true] at h ⊢
  exact fun hoffer => (contains_offer hoffer).elim hne h

theorem digestOf?_offer {index : Index} {path : Text} (h : index.files.contains path = false)
    (windows : List Window) (o : Occurrence) :
    (index.offer path windows).digestOf? o =
      if o.path = path then (windows[o.offset]?).map Window.digest else index.digestOf? o := by
  by_cases hw : windows = []
  · rw [offer_eq_self (.inr hw)]
    split
    · next hpath =>
      subst hpath
      simp [digestOf?_eq_none h, hw]
    · rfl
  · rw [offer_eq_adding h hw, digestOf?_adding]

theorem Coherent.empty (size : Int) : Coherent (.empty size) where
  mem_bucket digest o := by simp [bucket, Index.empty, digestOf?, windowAt?]
  nodup_bucket digest := by simp [bucket, Index.empty]
  bucket_ne_nil digest := by simp [Index.empty]
  windows_ne_empty path := by simp [Index.empty]

theorem Coherent.adding {index : Index} {path : Text} {windows : List Window} (h : Coherent index)
    (hp : index.files.contains path = false) (hw : windows ≠ []) :
    Coherent (index.adding path windows) where
  mem_bucket digest o := by
    rw [bucket_adding, List.mem_append, List.mem_reverse, mem_occurrencesIn, h.mem_bucket,
      digestOf?_adding]
    by_cases ho : o.path = path
    · subst ho
      simp [digestOf?_eq_none hp]
    · simp [ho]
  nodup_bucket digest := by
    rw [bucket_adding, List.nodup_append]
    refine ⟨List.nodup_reverse.2 (nodup_occurrencesIn ..), h.nodup_bucket digest, ?_⟩
    -- a path that is not indexed has no occurrences yet
    rintro a ha b hb rfl
    rw [List.mem_reverse, mem_occurrencesIn] at ha
    rw [h.mem_bucket, digestOf?_eq_none (by rw [ha.1]; exact hp)] at hb
    cases hb
  bucket_ne_nil digest := by
    rw [Index.adding, get?_foldl_addOccurrence]
    split
    · exact h.bucket_ne_nil digest
    · next hne => simp [hne]
  windows_ne_empty p := by
    rw [Index.adding, Ordered.insert, Ordered.get?_upsert]
    split
    · simpa using hw
    · exact h.windows_ne_empty p

theorem Filled.coherent {admits : Text → List Window → Prop} {size : Int} {index : Index}
    (h : Filled admits size index) : Coherent index :=
  h.keeps Coherent.empty fun _ _ _ hi _ => hi.adding

/-- The occurrences of one digest each, in order of first insertion. -/
def bucketList (index : Index) : List (List Occurrence) :=
  index.buckets.toList.map Prod.snd

def IsBucket (index : Index) (b : List Occurrence) : Prop :=
  ∃ digest, b = index.bucket digest ∧ b ≠ []

theorem Coherent.mem_bucketList {index : Index} (h : Coherent index) {b : List Occurrence} :
    b ∈ index.bucketList ↔ index.IsBucket b := by
  simp only [bucketList, IsBucket, List.mem_map, Prod.exists, exists_eq_right,
    ← Ordered.get?_eq_some_iff]
  constructor
  · rintro ⟨digest, hget⟩
    refine ⟨digest, by simp [bucket, hget], ?_⟩
    rintro rfl
    exact h.bucket_ne_nil digest hget
  · rintro ⟨digest, rfl, hne⟩
    refine ⟨digest, ?_⟩
    unfold bucket at hne ⊢
    cases hget : index.buckets.get? digest with
    | none => simp [hget] at hne
    | some b => rfl

theorem length_bucketList (index : Index) : index.bucketList.length = index.buckets.size := by
  rw [bucketList, List.length_map, ← List.length_map (f := Prod.fst), Ordered.map_fst_toList,
    Ordered.keys, List.length_reverse, Ordered.size]

end Index

end CloneDetection

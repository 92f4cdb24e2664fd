import CloneDetection.Proofs.Clone.Block

/-!
# Groups cannot be made longer or wider

If all places of a region had the same line before them, or all the same line behind them, the
windows there would share a digest and the region would not be maximal. And the digest that a region
was grown from is found at its places and nowhere else, so no place is left out.
-/
namespace CloneDetection

open Place Std

theorem textsAt_inside {lines : List NormalLine} {position skip count length : Nat}
    (h : skip + count ≤ length) :
    textsAt lines (position + skip) count =
      ((textsAt lines position length).drop skip).take count := by
  simp only [textsAt, ← List.map_drop, ← List.map_take, List.drop_take, List.drop_drop,
    List.take_take]
  rw [Nat.min_eq_left (by omega)]

theorem textsAt_inside_eq {a b : List NormalLine} {i j length : Nat}
    (h : textsAt a i length = textsAt b j length) (skip : Nat) {count : Nat}
    (hle : skip + count ≤ length) :
    textsAt a (i + skip) count = textsAt b (j + skip) count := by
  rw [textsAt_inside hle, textsAt_inside hle, h]

namespace Index

def Differ (source : Text → List NormalLine) (o p : Occurrence) : Prop :=
  ∃ x y, (source o.path)[o.offset]? = some x ∧ (source p.path)[p.offset]? = some y ∧ x.text ≠ y.text

section Source

variable {source : Text → List NormalLine} {size : Int} {index : Index} {r : Region}

theorem textsAt_one_eq_of_not_differ {o p : Occurrence} (ho : o.offset < (source o.path).length)
    (hp : p.offset < (source p.path).length) (h : ¬ Differ source o p) :
    textsAt (source o.path) o.offset 1 = textsAt (source p.path) p.offset 1 := by
  rw [textsAt_one ho, textsAt_one hp]
  by_contra hne
  refine h ⟨_, _, List.getElem?_eq_getElem ho, List.getElem?_eq_getElem hp, ?_⟩
  simpa using hne

/-- Some place of a maximal region stands at the start of its file, or two have different lines
before them. -/
theorem IsMaximal.left_end (hr : index.IsMaximal r) (h : Filled (WindowsOf source size) size index)
    (hc : CollisionFree source size index) :
    (∃ o ∈ r.start, o.offset = 0) ∨ ∃ o ∈ r.start, ∃ p ∈ r.start, ∃ o' p' : Occurrence,
      o'.move 1 = o ∧ p'.move 1 = p ∧ Differ source o' p' := by
  by_contra hnot
  push Not at hnot
  rcases hnot with ⟨hzero, hsame⟩
  let back (o : Occurrence) : Occurrence := { o with offset := o.offset - 1 }
  have hback (o : Occurrence) (ho : o ∈ r.start) : (back o).move 1 = o := by
    have hpos := hzero o ho
    cases o
    simp only [back, move, Place.mk.injEq, true_and]
    simp only at hpos
    omega
  have hfits (o : Occurrence) (ho : o ∈ r.start) :
      (back o).offset + 1 + (size.toNat + r.span) ≤ (source (back o).path).length := by
    have hblock := hr.block_fits h ho
    rw [← hback o ho] at hblock
    exact hblock
  rcases List.exists_mem_of_ne_nil _ hr.ne_nil with ⟨o, ho⟩
  refine hr.left (r.start.map back) ?_ (h.shares_of_texts (windowTexts source size (back o)) ?_)
  · rw [List.map_map]
    conv_rhs => rw [← List.map_id r.start]
    exact List.map_congr_left hback
  · rw [List.forall_mem_map]
    intro p hp
    have hindexed : index.files.contains p.path = true := contains_of_has (hr.has_start hp)
    refine ⟨h.has_of_fits (o := back p) hindexed (by have := hfits p hp; omega), ?_⟩
    -- the line before and the block behind it are the same at both places
    have hbefore :=
      textsAt_one_eq_of_not_differ (by have := hfits p hp; omega) (by have := hfits o ho; omega)
      (hsame p hp o ho (back p) (back o) (hback p hp) (hback o ho))
    have hblock := hr.block_eq h hc hp ho
    rw [← hback p hp, ← hback o ho] at hblock
    have hlonger : textsAt (source (back p).path) (back p).offset (1 + (size.toNat + r.span)) =
        textsAt (source (back o).path) (back o).offset (1 + (size.toNat + r.span)) :=
      textsAt_add_eq hbefore hblock
    exact textsAt_inside_eq hlonger 0 (by omega)

/-- Some place of a maximal region ends with its file, or two have different lines behind them. -/
theorem IsMaximal.right_end (hr : index.IsMaximal r) (h : Filled (WindowsOf source size) size index)
    (hc : CollisionFree source size index) :
    (∃ o ∈ r.start, o.offset + (size.toNat + r.span) = (source o.path).length) ∨
      ∃ o ∈ r.start, ∃ p ∈ r.start,
        Differ source (o.move (size.toNat + r.span)) (p.move (size.toNat + r.span)) := by
  by_contra hnot
  push Not at hnot
  rcases hnot with ⟨hend, hsame⟩
  have hfits (o : Occurrence) (ho : o ∈ r.start) : o.offset + (size.toNat + r.span) <
      (source o.path).length :=
    Nat.lt_of_le_of_ne (hr.block_fits h ho) (hend o ho)
  rcases List.exists_mem_of_ne_nil _ hr.ne_nil with ⟨o, ho⟩
  refine hr.right (h.shares_of_texts (windowTexts source size (o.move (r.span + 1))) ?_)
  rw [List.forall_mem_map]
  intro p hp
  have hindexed : index.files.contains p.path = true := contains_of_has (hr.has_start hp)
  have hroom : (p.move (r.span + 1)).offset + size.toNat ≤
      (source (p.move (r.span + 1)).path).length := by
    have hp' := hfits p hp
    simp only [move]
    omega
  refine ⟨h.has_of_fits (o := p.move (r.span + 1)) hindexed hroom, ?_⟩
  -- the block and the line behind it are the same at both places
  have hbehind := textsAt_one_eq_of_not_differ (hfits p hp) (hfits o ho) (hsame p hp o ho)
  have hlonger : textsAt (source p.path) p.offset (size.toNat + r.span + 1) =
      textsAt (source o.path) o.offset (size.toNat + r.span + 1) :=
    textsAt_add_eq (hr.block_eq h hc hp ho) hbehind
  exact textsAt_inside_eq hlonger _ (by omega)

/-- The seed of a region is a window of its block that has no occurrences but those at its
places. -/
theorem IsClone.seed_texts (hr : index.IsClone r) (h : Filled (WindowsOf source size) size index)
    (hc : CollisionFree source size index) :
    ∃ k ≤ r.span, ∃ texts, (texts.length : Int) = size ∧
      ∀ o, index.Has o ∧ windowTexts source size o = texts ↔ o ∈ r.start.map (move k) := by
  rcases hr.seed with ⟨k, hk, d, hseed⟩
  rcases List.exists_mem_of_ne_nil _ hr.maximal.ne_nil with ⟨s, hs⟩
  have hcovers := hr.maximal.covers h hk hs
  have hdigest : index.digestOf? (s.move k) = some d := (hseed _).1 (List.mem_map_of_mem hs)
  have hsize := hcovers.size_pos
  refine ⟨k, hk, windowTexts source size (s.move k), ?_, fun o => ⟨?_, fun ho => ?_⟩⟩
  · rw [windowTexts, length_textsAt hcovers.fits]
    omega
  · rintro ⟨hhas, htexts⟩
    rw [hseed, ← hdigest, (h.covers hhas).digest_eq, htexts, hcovers.digest_eq]
  · have ho' := (hseed o).1 ho
    exact ⟨has_of_digestOf? ho', hc.texts_eq h ho' hdigest⟩

/-- No group of a search that nobody cancels can be made longer: one of its locations starts with
the first line of its file, or two have different lines before them, and the same at the end. Nor
can it be made wider: a window of its block, at one distance from all starts, is found at its
locations and nowhere else in the index. -/
theorem findGroups_maximal (h : Filled (WindowsOf source size) size index)
    (hc : CollisionFree source size index) (near : Bool) (reader : FileReader) (rec : Record) :
    ∃ groups, (index.findGroups near).Gives reader rec groups
        { rec with checks := rec.checks + index.buckets.size } ∧
      ∀ g ∈ groups,
        ((∃ l ∈ g.locations, l.StartsAt (source l.path) 0) ∨
          ∃ l ∈ g.locations, ∃ m ∈ g.locations, ∃ p q, l.StartsAt (source l.path) (p + 1) ∧
            m.StartsAt (source m.path) (q + 1) ∧ Differ source ⟨l.path, p⟩ ⟨m.path, q⟩) ∧
        ((∃ l ∈ g.locations, ∃ p, l.EndsAt (source l.path) p ∧ p + 1 = (source l.path).length) ∨
          ∃ l ∈ g.locations, ∃ m ∈ g.locations, ∃ p q, l.EndsAt (source l.path) p ∧
            m.EndsAt (source m.path) q ∧ Differ source ⟨l.path, p + 1⟩ ⟨m.path, q + 1⟩) ∧
        ∃ k : Nat, k + size ≤ g.lineCount ∧ ∃ texts, (texts.length : Int) = size ∧
          ∀ o, index.Has o ∧ windowTexts source size o = texts ↔
            ∃ l ∈ g.locations, l.path = o.path ∧ ∃ p, l.StartsAt (source l.path) p ∧
              o.offset = p + k := by
  have hcoherent : Coherent index := h.coherent
  refine ⟨index.groups near,
    hcoherent.findGroups_gives h.startsAscend_of_source near reader rec, ?_⟩
  intro g hg
  rcases mem_groups.1 hg with ⟨r, hr, rfl⟩
  rw [hcoherent.mem_regions] at hr
  have hmaximal := hr.maximal
  have hmem {o : Occurrence} (ho : o ∈ r.start) :
      index.locationOf r.span o ∈ (index.groupOf near r).locations := List.mem_map_of_mem ho
  refine ⟨?_, ?_, ?_⟩
  · rcases hmaximal.left_end h hc with ⟨o, ho, hzero⟩ | ⟨o, ho, p, hp, o', p', rfl, rfl, hdiffer⟩
    · exact .inl ⟨_, hmem ho, hzero ▸ hmaximal.startsAt h ho⟩
    · exact .inr ⟨_, hmem ho, _, hmem hp, o'.offset, p'.offset, hmaximal.startsAt h ho,
        hmaximal.startsAt h hp,
        hdiffer⟩
  · have hlast (o : Occurrence) (ho : o ∈ r.start) :
        o.offset + (size.toNat + r.span) - 1 + 1 = o.offset + (size.toNat + r.span) := by
      have hsize := (hmaximal.covers h (Nat.zero_le _) ho).size_pos
      omega
    rcases hmaximal.right_end h hc with ⟨o, ho, hend⟩ | ⟨o, ho, p, hp, hdiffer⟩
    · exact .inl ⟨_, hmem ho, _, hmaximal.endsAt h ho, (hlast o ho).trans hend⟩
    · refine .inr ⟨_, hmem ho, _, hmem hp, _, _, hmaximal.endsAt h ho, hmaximal.endsAt h hp, ?_⟩
      rw [hlast o ho, hlast p hp]
      exact hdiffer
  · rcases hr.seed_texts h hc with ⟨k, hk, texts, hlen, hseed⟩
    refine ⟨k, ?_, texts, hlen, fun o => ?_⟩
    · rw [lineCount_groupOf, h.windowSize_eq]
      omega
    · rw [hseed, List.mem_map]
      constructor
      · rintro ⟨s, hs, rfl⟩
        exact ⟨_, hmem hs, rfl, s.offset, hmaximal.startsAt h hs, rfl⟩
      · rintro ⟨l, hl, hpath, p, hp, hoffset⟩
        rcases List.mem_map.1 hl with ⟨s, hs, rfl⟩
        have hincreasing : Increasing (source s.path) :=
          (h.covers (hmaximal.has_start hs)).increasing
        have hposition : s.offset = p := hincreasing.position_eq (hmaximal.startsAt h hs) hp
        refine ⟨s, hs, ?_⟩
        cases o
        simp only [move, Place.mk.injEq]
        exact ⟨hpath, by rw [hposition]; exact hoffset.symm⟩

end Source

theorem findGroups_maximal_refrain :
    Filled (WindowsOf refrainLines 2) 2 refrain ∧ CollisionFree refrainLines 2 refrain ∧
      ∃ groups, (refrain.findGroups false).Gives (fun _ _ => none) {} groups
          { ({} : Record) with checks := ({} : Record).checks + refrain.buckets.size } ∧
        ∀ g ∈ refrainGroups, g ∈ groups ∧
          ((∃ l ∈ g.locations, l.StartsAt (refrainLines l.path) 0) ∨
            ∃ l ∈ g.locations, ∃ m ∈ g.locations, ∃ p q, l.StartsAt (refrainLines l.path) (p + 1) ∧
              m.StartsAt (refrainLines m.path) (q + 1) ∧
              Differ refrainLines ⟨l.path, p⟩ ⟨m.path, q⟩) ∧
          ((∃ l ∈ g.locations, ∃ p, l.EndsAt (refrainLines l.path) p ∧
              p + 1 = (refrainLines l.path).length) ∨
            ∃ l ∈ g.locations, ∃ m ∈ g.locations, ∃ p q, l.EndsAt (refrainLines l.path) p ∧
              m.EndsAt (refrainLines m.path) q ∧
              Differ refrainLines ⟨l.path, p + 1⟩ ⟨m.path, q + 1⟩) ∧
          ∃ k : Nat, k + 2 ≤ g.lineCount ∧ ∃ texts, (texts.length : Int) = 2 ∧
            ∀ o, refrain.Has o ∧ windowTexts refrainLines 2 o = texts ↔
              ∃ l ∈ g.locations, l.path = o.path ∧
                ∃ p, l.StartsAt (refrainLines l.path) p ∧ o.offset = p + k := by
  obtain ⟨groups, hgives, hmaximal⟩ :=
    findGroups_maximal filled_refrain collisionFree_refrain false (fun _ _ => none) {}
  have hgroups : groups = refrain.groups false := hgives.unique
    (filled_refrain.coherent.findGroups_gives filled_refrain.startsAscend_of_source false _ _)
  refine ⟨filled_refrain, collisionFree_refrain, groups, hgives, fun g hg => ?_⟩
  have hmem : g ∈ groups := hgroups ▸ mem_groups_refrain.2 hg
  exact ⟨hmem, hmaximal g hmem⟩

end Index

end CloneDetection

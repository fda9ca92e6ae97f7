import SpiderMonkey.Gc.AtomBits

/-!
# Atom mark bitmaps over-approximate use

In every run the atoms that a zone refers to are in its bitmap, and no atom is swept that is in the bitmap of
a zone that is not collected (`atomMarking_sound`).  The invariant is kept by every step (`Inv.step`).
-/

namespace SpiderMonkey.Gc.Runtime

open List Function Option

variable {s s' : Runtime} {a b : AtomCell} {zone z w : ℕ} {isCollecting : ℕ → Bool}

/-! ## Changes of mark bits -/

/-- The arenas have kept their ranges. -/
structure SameRanges (s s' : Runtime) : Prop where
  arenas : ∀ id, (s'.arenas.find id).map Arena.atomBitmapStart = (s.arenas.find id).map Arena.atomBitmapStart
  free : s'.freeArenaIndexes = s.freeArenaIndexes
  allocated : s'.allocatedWords = s.allocatedWords

namespace SameRanges

lemma exists_find (h : SameRanges s s') {id : ℕ} {arena : Arena} (hfind : s'.arenas.find id = some arena) :
    ∃ arena', s.arenas.find id = some arena' ∧ arena'.atomBitmapStart = arena.atomBitmapStart := by
  have harenas := h.arenas id
  rw [hfind] at harenas
  exact map_eq_some_iff.1 harenas.symm

lemma exists_find' (h : SameRanges s s') {id : ℕ} {arena : Arena} (hfind : s.arenas.find id = some arena) :
    ∃ arena', s'.arenas.find id = some arena' ∧ arena'.atomBitmapStart = arena.atomBitmapStart := by
  have harenas := h.arenas id
  rw [hfind] at harenas
  exact map_eq_some_iff.1 harenas

lemma ranges (h : SameRanges s s') (hs : s.Ranges) : s'.Ranges where
  arena id arena hfind := by
    obtain ⟨arena', hfind', heq⟩ := h.exists_find hfind
    have hrange := hs.arena id arena' hfind'
    rw [heq] at hrange
    exact ⟨hrange.1, h.allocated ▸ hrange.2⟩
  inj id id' arena arena' hfind hfind' heq := by
    obtain ⟨arena₁, hfind₁, heq₁⟩ := h.exists_find hfind
    obtain ⟨arena₂, hfind₂, heq₂⟩ := h.exists_find hfind'
    exact hs.inj id id' _ _ hfind₁ hfind₂ (heq₁.trans (heq.trans heq₂.symm))
  free start hstart := by
    have hrange := hs.free start (h.free ▸ hstart)
    exact ⟨hrange.1, h.allocated ▸ hrange.2⟩
  nodup := h.free ▸ hs.nodup
  disjoint start hstart id arena hfind := by
    obtain ⟨arena', hfind', heq⟩ := h.exists_find hfind
    exact heq ▸ hs.disjoint start (h.free ▸ hstart) id arena' hfind'
  allocated := h.allocated ▸ hs.allocated

lemma inArenas (h : SameRanges s s') (hatoms : s'.atoms = s.atoms) (hs : s.InArenas) : s'.InArenas := by
  intro a info hinfo
  rw [hatoms] at hinfo
  obtain ⟨⟨arena, hfind⟩, hbit⟩ := hs a info hinfo
  obtain ⟨arena', hfind', -⟩ := h.exists_find' hfind
  simp [hfind', hbit]

lemma atomIsMarked (h : SameRanges s s') (hmarked : s'.markedAtoms zone = s.markedAtoms zone) :
    s'.atomIsMarked zone a = s.atomIsMarked zone a := by
  have hbit : s'.GetAtomBit a = s.GetAtomBit a := by
    have harenas := congrArg (Option.map fun start => start * JS_BITS_PER_WORD + a.arenaBit) (h.arenas a.arena)
    rw [Option.map_map, Option.map_map] at harenas
    exact harenas
  simp [Runtime.atomIsMarked, hbit, hmarked]

end SameRanges

lemma Ranges.of_eq (hs : s.Ranges) (harenas : s'.arenas = s.arenas) (hfree : s'.freeArenaIndexes = s.freeArenaIndexes)
    (hallocated : s'.allocatedWords = s.allocatedWords) : s'.Ranges :=
  (SameRanges.mk (fun id => by rw [harenas]) hfree hallocated).ranges hs

lemma sameRanges_setMarkBit (a : AtomCell) : SameRanges s (s.setMarkBit a) where
  arenas id := by
    rw [find_setMarkBit, Option.map_map]
    cases s.arenas.find id with
    | none => rfl
    | some arena =>
      split_ifs <;> rfl
  free := rfl
  allocated := rfl

/-! ## The invariant -/

def Has (s : Runtime) (a : AtomCell) : Prop := ∃ info, s.atoms a = some info

def IsPermanent (s : Runtime) (a : AtomCell) : Prop := (s.atoms a).map AtomInfo.isPermanent = some true

/-- Nothing that a zone refers to, and nothing in the bitmap of a zone that is not collected, is swept. -/
structure Swept (s : Runtime) (isCollecting : ℕ → Bool) : Prop where
  references : ∀ z a, s.references z a → s.isMarked a = true
  uncollected : ∀ z ∈ s.zones, isCollecting z = false → ∀ a, s.Has a → s.atomIsMarked z a = true → s.isMarked a = true

structure Inv (s : Runtime) : Prop where
  ranges : s.Ranges
  inArenas : s.InArenas
  bounded : ∀ z w, s.allocatedWords ≤ w → (s.markedAtoms z).word w = 0
  has : ∀ z a, s.references z a → s.Has a
  child : ∀ z a d, s.references z a → s.childOf a = some d → s.references z d
  zone : ∀ z a, s.references z a → z ∈ s.zones
  marked : ∀ z a, s.references z a → ¬ s.IsPermanent a → s.atomIsMarked z a = true
  sweeping : ∀ isCollecting, s.phase = .sweeping isCollecting → s.Swept isCollecting

namespace Inv

lemma initial (zones : List ℕ) : (initial zones).Inv where
  ranges := ⟨nofun, nofun, nofun, nodup_nil, nofun, rfl⟩
  inArenas := nofun
  bounded _ _ _ := rfl
  has := nofun
  child := nofun
  zone := nofun
  marked := nofun
  sweeping _ h := nomatch h

variable (h : s.Inv)
include h

lemma exists_arena (ha : s.Has a) : (∃ arena, s.arenas.find a.arena = some arena) ∧ a.arenaBit < ArenaBitmapBits := by
  obtain ⟨info, hinfo⟩ := ha
  exact h.inArenas a info hinfo

lemma of_bits (hranges : s'.Ranges) (hinArenas : s'.InArenas) (hallocated : s.allocatedWords ≤ s'.allocatedWords)
    (hatoms : s'.atoms = s.atoms) (hmarked : s'.markedAtoms = s.markedAtoms) (hreferences : s'.references = s.references)
    (hzones : s'.zones = s.zones) (hbits : ∀ z a, s.Has a → s'.atomIsMarked z a = s.atomIsMarked z a)
    (hsweeping : ∀ isCollecting, s'.phase = .sweeping isCollecting →
      s.phase = .sweeping isCollecting ∧ ∀ a, s.Has a → s.isMarked a = true → s'.isMarked a = true) : s'.Inv where
  ranges := hranges
  inArenas := hinArenas
  bounded z w hw := by
    rw [hmarked]
    exact h.bounded z w (hallocated.trans hw)
  has z a href := by
    rw [hreferences] at href
    rw [Has, hatoms]
    exact h.has z a href
  child z a d href hchild := by
    rw [hreferences] at href ⊢
    rw [childOf, hatoms] at hchild
    exact h.child z a d href hchild
  zone z a href := by
    rw [hreferences] at href
    rw [hzones]
    exact h.zone z a href
  marked z a href hperm := by
    rw [hreferences] at href
    rw [IsPermanent, hatoms] at hperm
    rw [hbits z a (h.has z a href)]
    exact h.marked z a href hperm
  sweeping isCollecting hphase := by
    obtain ⟨hphase, hmono⟩ := hsweeping isCollecting hphase
    obtain ⟨href, hun⟩ := h.sweeping isCollecting hphase
    refine ⟨fun z a hra => ?_, fun z hz hcoll a ha hbit => ?_⟩
    · rw [hreferences] at hra
      exact hmono a (h.has z a hra) (href z a hra)
    · rw [Has, hatoms] at ha
      rw [hbits z a ha] at hbit
      exact hmono a ha (hun z (hzones ▸ hz) hcoll a ha hbit)

lemma of_sameRanges (hranges : SameRanges s s') (hatoms : s'.atoms = s.atoms) (hmarked : s'.markedAtoms = s.markedAtoms)
    (hreferences : s'.references = s.references) (hzones : s'.zones = s.zones)
    (hsweeping : ∀ isCollecting, s'.phase = .sweeping isCollecting →
      s.phase = .sweeping isCollecting ∧ ∀ a, s.Has a → s.isMarked a = true → s'.isMarked a = true) : s'.Inv :=
  h.of_bits (hranges.ranges h.ranges) (hranges.inArenas hatoms h.inArenas) hranges.allocated.ge hatoms hmarked
    hreferences hzones (fun z _ _ => hranges.atomIsMarked (congrFun hmarked z)) hsweeping

lemma setMarkBit (ha : a.arenaBit < ArenaBitmapBits) : (s.setMarkBit a).Inv := by
  refine h.of_sameRanges (sameRanges_setMarkBit a) rfl rfl rfl rfl fun isCollecting hphase => ⟨hphase, ?_⟩
  intro b hb hmarked
  obtain ⟨hfind, hbit⟩ := h.exists_arena hb
  simp [isMarked_setMarkBit hfind hbit ha, hmarked]

end Inv

/-! ## Marking an atom -/

lemma atomIsMarked_setBit {arena arena' : Arena} (hs : s.Ranges) (ha : s.arenas.find a.arena = some arena)
    (hb : s.arenas.find b.arena = some arena') (habit : a.arenaBit < ArenaBitmapBits)
    (hbbit : b.arenaBit < ArenaBitmapBits) :
    atomIsMarked { s with
      markedAtoms := Function.update s.markedAtoms zone
        ((s.markedAtoms zone).setBit (arena.atomBitmapStart * JS_BITS_PER_WORD + a.arenaBit)) } z b =
      (s.atomIsMarked z b || (decide (z = zone) && decide (b = a))) := by
  rw [atomIsMarked_eq hb, atomIsMarked_eq (s := { s with
    markedAtoms := Function.update s.markedAtoms zone
      ((s.markedAtoms zone).setBit (arena.atomBitmapStart * JS_BITS_PER_WORD + a.arenaBit)) }) hb]
  dsimp only
  by_cases hz : z = zone
  · subst hz
    have hdiv : (arena.atomBitmapStart * JS_BITS_PER_WORD + a.arenaBit) / 64 =
        arena.atomBitmapStart + a.arenaBit / 64 := by
      rw [JS_BITS_PER_WORD]
      omega
    have hmod : (arena.atomBitmapStart * JS_BITS_PER_WORD + a.arenaBit) % 64 = a.arenaBit % 64 := by
      rw [JS_BITS_PER_WORD]
      omega
    rw [update_self, SparseBitmap.word_setBit, hdiv, decide_eq_true rfl, Bool.true_and]
    split_ifs with hword
    · rw [BitVec.getLsbD_or, getLsbD_bitMask, hmod]
      congr 1
      rw [decide_eq_decide]
      constructor
      · exact fun hbit => bit_inj hs hb ha hbbit habit hword hbit
      · rintro rfl
        rfl
    · rw [decide_eq_false, Bool.or_false]
      rintro rfl
      cases ha.symm.trans hb
      exact hword rfl
  · simp [hz]

/-- What marking one cell leaves as it is. -/
structure Marked (s s' : Runtime) : Prop where
  atoms : s'.atoms = s.atoms
  references : s'.references = s.references
  zones : s'.zones = s.zones
  phase : s'.phase = s.phase
  isMarked : ∀ a, s.Has a → s.isMarked a = true → s'.isMarked a = true
  atomIsMarked : ∀ z a, s.Has a → s.atomIsMarked z a = true → s'.atomIsMarked z a = true

namespace Marked

lemma refl (s : Runtime) : Marked s s := ⟨rfl, rfl, rfl, rfl, fun _ _ h => h, fun _ _ _ h => h⟩

lemma trans {s'' : Runtime} (h : Marked s s') (h' : Marked s' s'') : Marked s s'' where
  atoms := h'.atoms.trans h.atoms
  references := h'.references.trans h.references
  zones := h'.zones.trans h.zones
  phase := h'.phase.trans h.phase
  isMarked a ha hm := h'.isMarked a (by rw [Has, h.atoms]; exact ha) (h.isMarked a ha hm)
  atomIsMarked z a ha hm := h'.atomIsMarked z a (by rw [Has, h.atoms]; exact ha) (h.atomIsMarked z a ha hm)

lemma isAlive (h : Marked s s') (ha : s.IsAlive a) : s'.IsAlive a := by
  refine ⟨by rw [h.atoms]; exact ha.1, fun isCollecting hphase => ?_⟩
  rw [h.phase] at hphase
  exact h.isMarked a ha.1 (ha.2 isCollecting hphase)

end Marked

namespace Inv

variable (h : s.Inv)
include h

lemma setBit {arena : Arena} (hfind : s.arenas.find a.arena = some arena) (ha : s.IsAlive a) : Inv { s with
      markedAtoms := Function.update s.markedAtoms zone
        ((s.markedAtoms zone).setBit (arena.atomBitmapStart * JS_BITS_PER_WORD + a.arenaBit)) } := by
  obtain ⟨-, habit⟩ := h.exists_arena ha.1
  have hbit (z : ℕ) (b : AtomCell) (hb : s.Has b) : atomIsMarked { s with
        markedAtoms := Function.update s.markedAtoms zone
          ((s.markedAtoms zone).setBit (arena.atomBitmapStart * JS_BITS_PER_WORD + a.arenaBit)) } z b =
        (s.atomIsMarked z b || (decide (z = zone) && decide (b = a))) := by
    obtain ⟨⟨arena', hfind'⟩, hbbit⟩ := h.exists_arena hb
    exact atomIsMarked_setBit h.ranges hfind hfind' habit hbbit
  refine ⟨h.ranges.of_eq rfl rfl rfl, h.inArenas, fun z w hw => ?_, h.has, h.child, h.zone,
    fun z b href hperm => ?_, fun isCollecting hphase => ⟨(h.sweeping isCollecting hphase).references, fun z hz hcoll b hb hm => ?_⟩⟩
  · have hzero := h.bounded z w hw
    dsimp only at hw ⊢
    by_cases hz : z = zone
    · subst hz
      have hrange := (h.ranges.arena _ _ hfind).2
      have hlt := word_lt habit
      rw [update_self, SparseBitmap.word_setBit, if_neg, hzero]
      rw [JS_BITS_PER_WORD]
      omega
    · rw [update_of_ne hz, hzero]
  · simp [hbit z b (h.has z b href), h.marked z b href hperm]
  · rw [hbit z b hb] at hm
    obtain hm | hm := Bool.or_eq_true_iff.1 hm
    · exact (h.sweeping isCollecting hphase).uncollected z hz hcoll b hb hm
    · obtain rfl := of_decide_eq_true (Bool.and_eq_true_iff.1 hm).2
      exact ha.2 isCollecting hphase

lemma markCell (ha : s.IsAlive a) (zone : ℕ) : (s.markCell zone a).Inv ∧ Marked s (s.markCell zone a) ∧
    (¬ s.IsPermanent a → (s.markCell zone a).atomIsMarked zone a = true) := by
  obtain ⟨⟨arena, hfind⟩, habit⟩ := h.exists_arena ha.1
  obtain ⟨info, hinfo⟩ := ha.1
  have hget : s.GetAtomBit a = some (arena.atomBitmapStart * JS_BITS_PER_WORD + a.arenaBit) := by
    rw [GetAtomBit, hfind, map_some]
  rw [Runtime.markCell, hinfo, hget]
  dsimp only
  split_ifs with hperm
  · refine ⟨h, .refl s, fun hnot => absurd ?_ hnot⟩
    rw [IsPermanent, hinfo, map_some, hperm]
  · set s₁ : Runtime := { s with
      markedAtoms := Function.update s.markedAtoms zone
        ((s.markedAtoms zone).setBit (arena.atomBitmapStart * JS_BITS_PER_WORD + a.arenaBit)) } with hs₁
    have hinv : s₁.Inv := h.setBit hfind ha
    have hbit (z : ℕ) (b : AtomCell) (hb : s.Has b) :
        s₁.atomIsMarked z b = (s.atomIsMarked z b || (decide (z = zone) && decide (b = a))) := by
      obtain ⟨⟨arena', hfind'⟩, hbbit⟩ := h.exists_arena hb
      exact atomIsMarked_setBit h.ranges hfind hfind' habit hbbit
    have hself : s₁.atomIsMarked zone a = true := by
      rw [hbit zone a ha.1, decide_eq_true rfl, decide_eq_true rfl, Bool.and_true, Bool.or_true]
    have hmono (z : ℕ) (b : AtomCell) (hb : s.Has b) (hm : s.atomIsMarked z b = true) :
        s₁.atomIsMarked z b = true := by rw [hbit z b hb, hm, Bool.true_or]
    have hmarked : Marked s s₁ := ⟨rfl, rfl, rfl, rfl, fun _ _ hm => hm, hmono⟩
    rw [readBarrier]
    cases hphase : s₁.phase with
    | idle => exact ⟨hinv, hmarked, fun _ => hself⟩
    | sweeping isCollecting => exact ⟨hinv, hmarked, fun _ => hself⟩
    | marking isCollecting =>
      have hsame (z : ℕ) (b : AtomCell) : (s₁.setMarkBit a).atomIsMarked z b = s₁.atomIsMarked z b :=
        (sameRanges_setMarkBit a).atomIsMarked rfl
      refine ⟨hinv.setMarkBit habit, ⟨rfl, rfl, rfl, rfl, fun b hb hm => ?_, fun z b hb hm => ?_⟩, fun _ => ?_⟩
      · obtain ⟨hfind', hbbit⟩ := hinv.exists_arena (a := b) hb
        rw [isMarked_setMarkBit hfind' hbbit habit, Bool.or_eq_true]
        exact .inl hm
      · simp [hsame, hmono, hb, hm]
      · rw [hsame]
        exact hself

lemma inlinedMarkAtom (ha : s.Obtainable a) (zone : ℕ) :
    (s.inlinedMarkAtom zone a).Inv ∧ Marked s (s.inlinedMarkAtom zone a) ∧
      ∀ x, x = a ∨ s.childOf a = some x → ¬ s.IsPermanent x →
        (s.inlinedMarkAtom zone a).atomIsMarked zone x = true := by
  unfold Runtime.inlinedMarkAtom
  split_ifs with hperm
  · refine ⟨h, .refl s, fun x hx hnot => absurd ?_ hnot⟩
    obtain rfl | hx := hx
    · exact hperm
    · exact ha.permanent hperm x hx
  · obtain ⟨hinv, hmarked, hbit⟩ := h.markCell ha.alive zone
    split
    next hnone =>
      refine ⟨hinv, hmarked, fun x hx hnot => ?_⟩
      obtain rfl | hx := hx
      · exact hbit hnot
      · rw [hnone] at hx
        cases hx
    next d hd =>
      have halive := (ha.description d hd).1
      obtain ⟨hinv', hmarked', hbit'⟩ := hinv.markCell (hmarked.isAlive halive) zone
      refine ⟨hinv', hmarked.trans hmarked', fun x hx hnot => ?_⟩
      obtain rfl | hx := hx
      · exact hmarked'.atomIsMarked zone x (by rw [Has, hmarked.atoms]; exact ha.alive.1) (hbit hnot)
      · cases hd.symm.trans hx
        exact hbit' (by rw [IsPermanent, hmarked.atoms]; exact hnot)

lemma markAtom (ha : s.Obtainable a) (hzone : zone ∈ s.zones) :
    ((s.inlinedMarkAtom zone a).addReference zone a).Inv := by
  obtain ⟨hinv, hmarked, hbit⟩ := h.inlinedMarkAtom ha zone
  set s' := s.inlinedMarkAtom zone a
  have hchildOf (x : AtomCell) : s'.childOf x = s.childOf x := by simp [childOf, hmarked.atoms]
  have halive (x : AtomCell) (hx : x = a ∨ s'.childOf a = some x) : s'.IsAlive x := by
    obtain rfl | hx := hx
    · exact hmarked.isAlive ha.alive
    · exact hmarked.isAlive (ha.description x (hchildOf a ▸ hx)).1
  refine ⟨hinv.ranges.of_eq rfl rfl rfl, hinv.inArenas, hinv.bounded, fun z x href => ?_, fun z x d href hd => ?_,
    fun z x href => ?_, fun z x href hperm => ?_, fun isCollecting hphase =>
      ⟨fun z x href => ?_, (hinv.sweeping isCollecting hphase).uncollected⟩⟩
  · obtain href | ⟨-, hx⟩ := href
    · exact hinv.has z x href
    · exact (halive x hx).1
  · obtain href | ⟨hz, hx⟩ := href
    · exact .inl (hinv.child z x d href hd)
    · obtain rfl | hx := hx
      · exact .inr ⟨hz, .inr hd⟩
      · have hnone := (ha.description x (hchildOf a ▸ hx)).2
        have hd : s.childOf x = some d := hchildOf x ▸ hd
        simp [hnone] at hd
  · obtain href | ⟨rfl, -⟩ := href
    · exact hinv.zone z x href
    · exact hmarked.zones ▸ hzone
  · obtain href | ⟨rfl, hx⟩ := href
    · exact hinv.marked z x href hperm
    · refine hbit x (hx.imp id fun hx => hchildOf a ▸ hx) fun hp => hperm ?_
      rw [IsPermanent] at hp ⊢
      exact (congrArg (fun atoms => (atoms x).map AtomInfo.isPermanent) hmarked.atoms).trans hp
  · obtain href | ⟨-, hx⟩ := href
    · exact (hinv.sweeping isCollecting hphase).references z x href
    · exact (halive x hx).2 isCollecting hphase

end Inv

/-! ## Arenas and atoms -/

lemma isMarked_congr (h : s'.arenas.find a.arena = s.arenas.find a.arena) : s'.isMarked a = s.isMarked a := by
  simp [isMarked, h]

lemma atomIsMarked_congr (h : s'.arenas.find a.arena = s.arenas.find a.arena)
    (hmarked : s'.markedAtoms z = s.markedAtoms z) : s'.atomIsMarked z a = s.atomIsMarked z a := by
  rw [atomIsMarked, atomIsMarked, GetAtomBit, GetAtomBit, h, hmarked]

namespace Inv

open Function KeyedTable

lemma of_arenas (h : s.Inv) (hranges : s'.Ranges) (hatoms : s'.atoms = s.atoms)
    (harenas : ∀ a, s.Has a → s'.arenas.find a.arena = s.arenas.find a.arena)
    (hallocated : s.allocatedWords ≤ s'.allocatedWords) (hmarked : s'.markedAtoms = s.markedAtoms)
    (hreferences : s'.references = s.references) (hzones : s'.zones = s.zones) (hphase : s'.phase = s.phase) :
    s'.Inv := by
  refine h.of_bits hranges (fun a info hinfo => ?_) hallocated hatoms hmarked hreferences hzones
    (fun z a ha => atomIsMarked_congr (harenas a ha) (congrFun hmarked z)) fun isCollecting hsweep => ?_
  · rw [hatoms] at hinfo
    rw [harenas a ⟨info, hinfo⟩]
    exact h.inArenas a info hinfo
  · rw [hphase] at hsweep
    refine ⟨hsweep, fun a ha hmark => ?_⟩
    rwa [isMarked_congr (harenas a ha)]

lemma registerArena (h : s.Inv) {id : ℕ} (markBits : ℕ → Word) (hnone : s.arenas.find id = none) :
    (s.registerArena id markBits).Inv := by
  have harenas (start : ℕ) (a : AtomCell) (ha : s.Has a) :
      (s.arenas.insert id ⟨start, markBits⟩).find a.arena = s.arenas.find a.arena := by
    obtain ⟨⟨arena, hfind⟩, -⟩ := h.exists_arena ha
    rw [find_insert, if_neg]
    rintro rfl
    simp [hnone] at hfind
  have hs := h.ranges
  -- the new arena has a range that no other arena has
  have hinsert {start id' : ℕ} {arena : Arena}
      (hfind : (s.arenas.insert id ⟨start, markBits⟩).find id' = some arena) :
      (id' = id ∧ arena.atomBitmapStart = start) ∨ (id' ≠ id ∧ s.arenas.find id' = some arena) := by
    rw [find_insert] at hfind
    split_ifs at hfind with hid
    · cases hfind
      exact .inl ⟨hid, rfl⟩
    · exact .inr ⟨hid, hfind⟩
  unfold Runtime.registerArena
  split
  next start rest hfree =>
    have hmem : start ∈ s.freeArenaIndexes := hfree ▸ mem_cons_self
    have hrest {x : ℕ} (hx : x ∈ rest) : x ∈ s.freeArenaIndexes := hfree ▸ mem_cons_of_mem _ hx
    have hnodup := hs.nodup
    rw [hfree, nodup_cons] at hnodup
    refine h.of_arenas ⟨fun id' arena hfind => ?_, fun id' id'' arena arena' hfind hfind' heq => ?_,
      fun x hx => hs.free x (hrest hx), hnodup.2, fun x hx id' arena hfind => ?_, hs.allocated⟩ rfl
      (harenas start) le_rfl rfl rfl rfl rfl
    · obtain ⟨-, rfl⟩ | ⟨-, hfind⟩ := hinsert hfind
      · exact hs.free _ hmem
      · exact hs.arena id' arena hfind
    · obtain ⟨rfl, hstart⟩ | ⟨hne, hfind⟩ := hinsert hfind
      · obtain ⟨rfl, -⟩ | ⟨hne', hfind'⟩ := hinsert hfind'
        · rfl
        · exact absurd (heq.symm.trans hstart) (hs.disjoint _ hmem _ _ hfind')
      · obtain ⟨-, hstart'⟩ | ⟨hne', hfind'⟩ := hinsert hfind'
        · exact absurd (heq.trans hstart') (hs.disjoint _ hmem _ _ hfind)
        · exact hs.inj _ _ _ _ hfind hfind' heq
    · obtain ⟨-, hstart⟩ | ⟨-, hfind⟩ := hinsert hfind
      · rw [hstart]
        rintro rfl
        exact hnodup.1 hx
      · exact hs.disjoint x (hrest hx) id' arena hfind
  next hfree =>
    have hlt {x : ℕ} (hx : s.IsRange x) : x ≠ s.allocatedWords := by
      have := hx.2
      simp only [ArenaBitmapWords] at this
      omega
    refine h.of_arenas ⟨fun id' arena hfind => ?_, fun id' id'' arena arena' hfind hfind' heq => ?_,
      fun x hx => ?_, hs.nodup, fun x hx => ?_, ?_⟩ rfl (harenas s.allocatedWords) (Nat.le_add_right _ _)
      rfl rfl rfl rfl
    · obtain ⟨-, hstart⟩ | ⟨-, hfind⟩ := hinsert hfind
      · rw [hstart]
        exact ⟨hs.allocated, le_rfl⟩
      · have hrange := hs.arena id' arena hfind
        exact ⟨hrange.1, hrange.2.trans (Nat.le_add_right _ _)⟩
    · obtain ⟨rfl, hstart⟩ | ⟨hne, hfind⟩ := hinsert hfind
      · obtain ⟨rfl, -⟩ | ⟨hne', hfind'⟩ := hinsert hfind'
        · rfl
        · exact absurd (heq.symm.trans hstart) (hlt (hs.arena _ _ hfind'))
      · obtain ⟨-, hstart'⟩ | ⟨hne', hfind'⟩ := hinsert hfind'
        · exact absurd (heq.trans hstart') (hlt (hs.arena _ _ hfind))
        · exact hs.inj _ _ _ _ hfind hfind' heq
    · exact absurd hx (by rw [hfree]; exact not_mem_nil)
    · exact absurd hx (by rw [hfree]; exact not_mem_nil)
    · exact (Nat.add_mod_right _ _).trans hs.allocated

lemma unregisterArena (h : s.Inv) {id : ℕ} (recorded : Bool) (hempty : ∀ a info, s.atoms a = some info → a.arena ≠ id) :
    (s.unregisterArena id recorded).Inv := by
  have hs := h.ranges
  unfold Runtime.unregisterArena
  split
  next => exact h
  next arena hfind =>
    have herase {id' : ℕ} {arena' : Arena} (hfind' : (s.arenas.erase id).find id' = some arena') :
        id' ≠ id ∧ s.arenas.find id' = some arena' := by
      have hne : id' ≠ id := by
        rintro rfl
        simp [find_erase_self] at hfind'
      exact ⟨hne, by rwa [find_erase_of_ne _ hne] at hfind'⟩
    have hfree {x : ℕ} (hx : x ∈ if recorded = true then arena.atomBitmapStart :: s.freeArenaIndexes
        else s.freeArenaIndexes) : x = arena.atomBitmapStart ∨ x ∈ s.freeArenaIndexes := by
      split_ifs at hx
      · exact mem_cons.1 hx
      · exact .inr hx
    refine h.of_arenas ⟨fun id' arena' hfind' => hs.arena id' arena' (herase hfind').2,
      fun id' id'' arena' arena'' hfind' hfind'' heq => hs.inj _ _ _ _ (herase hfind').2 (herase hfind'').2 heq,
      fun x hx => ?_, ?_, fun x hx id' arena' hfind' => ?_, hs.allocated⟩ rfl
      (fun a ha => ha.elim fun info hinfo => find_erase_of_ne _ (hempty a info hinfo)) le_rfl rfl rfl rfl rfl
    · obtain rfl | hx := hfree hx
      · exact hs.arena id arena hfind
      · exact hs.free x hx
    · dsimp only
      split_ifs
      · exact nodup_cons.2 ⟨fun hmem => hs.disjoint _ hmem id arena hfind rfl, hs.nodup⟩
      · exact hs.nodup
    · obtain ⟨hne, hfind'⟩ := herase hfind'
      obtain rfl | hx := hfree hx
      · exact fun heq => hne (hs.inj _ _ _ _ hfind' hfind heq)
      · exact hs.disjoint x hx id' arena' hfind'

lemma addAtom (h : s.Inv) {info : AtomInfo} (harena : ∃ arena, s.arenas.find a.arena = some arena)
    (hbit : a.arenaBit < ArenaBitmapBits) (hnew : s.atoms a = none)
    (hsweep : ∀ isCollecting, s.phase = .sweeping isCollecting → s.isMarked a = true) :
    Inv { s with atoms := update s.atoms a (some info) } := by
  have hold {x : AtomCell} (hx : s.Has x) : update s.atoms a (some info) x = s.atoms x := by
    refine update_of_ne ?_ _ _
    rintro rfl
    obtain ⟨info', hinfo'⟩ := hx
    simp [hnew] at hinfo'
  refine ⟨h.ranges.of_eq rfl rfl rfl, fun x info' hx => ?_, h.bounded, fun z x href => ?_,
    fun z x d href hd => ?_, h.zone, fun z x href hperm => ?_,
    fun isCollecting hphase => ⟨(h.sweeping isCollecting hphase).references, fun z hz hcoll x hx hm => ?_⟩⟩
  · dsimp only at hx
    rw [update_apply] at hx
    split_ifs at hx with heq
    · simp [heq, harena, hbit]
    · exact h.inArenas x info' hx
  · obtain ⟨info', hinfo'⟩ := h.has z x href
    exact ⟨info', (hold ⟨info', hinfo'⟩).trans hinfo'⟩
  · rw [childOf] at hd
    dsimp only at hd
    rw [hold (h.has z x href)] at hd
    exact h.child z x d href hd
  · rw [IsPermanent] at hperm
    dsimp only at hperm
    rw [hold (h.has z x href)] at hperm
    exact h.marked z x href hperm
  · by_cases heq : x = a
    · subst heq
      exact hsweep isCollecting hphase
    · obtain ⟨info', hinfo'⟩ := hx
      dsimp only at hinfo'
      rw [update_of_ne heq] at hinfo'
      exact (h.sweeping isCollecting hphase).uncollected z hz hcoll x ⟨info', hinfo'⟩ hm

lemma allocate (h : s.Inv) {info : AtomInfo} (harena : (s.arenas.find a.arena).isSome = true)
    (hbit : a.arenaBit < ArenaBitmapBits) (hnew : s.atoms a = none) : (s.allocate a info).Inv := by
  obtain ⟨arena, hfind⟩ := isSome_iff_exists.1 harena
  obtain ⟨arena', hfind', -⟩ := (sameRanges_setMarkBit a).exists_find' hfind
  have hmarked : (s.setMarkBit a).isMarked a = true := by
    simp [isMarked_setMarkBit ⟨arena, hfind⟩ hbit hbit]
  have hadd : Inv { s.setMarkBit a with atoms := Function.update s.atoms a (some info) } :=
    (h.setMarkBit hbit).addAtom ⟨arena', hfind'⟩ hbit hnew fun _ _ => hmarked
  unfold Runtime.allocate
  dsimp only
  split
  next hphase =>
    exact h.addAtom ⟨arena, hfind⟩ hbit hnew fun isCollecting hsweep => by
      simp [hphase] at hsweep
  next => exact hadd
  next => exact hadd

lemma adoptMarkedAtoms (h : s.Inv) {target source : ℕ} (htarget : target ∈ s.zones) (hsource : source ∈ s.zones)
    (hnot : s.NotCollecting source) : (s.adoptMarkedAtoms target source).Inv := by
  have hbit (z : ℕ) (x : AtomCell) (hx : s.Has x) : (s.adoptMarkedAtoms target source).atomIsMarked z x =
      (s.atomIsMarked z x || (decide (z = target) && s.atomIsMarked source x)) := by
    obtain ⟨⟨arena, hfind⟩, -⟩ := h.exists_arena hx
    have hfind' : (s.adoptMarkedAtoms target source).arenas.find x.arena = some arena := hfind
    rw [atomIsMarked_eq hfind', atomIsMarked_eq hfind, atomIsMarked_eq hfind]
    dsimp only [Runtime.adoptMarkedAtoms]
    by_cases hz : z = target
    · subst hz
      simp [SparseBitmap.word_bitwiseOrWith]
    · simp [hz]
  refine ⟨h.ranges.of_eq rfl rfl rfl, h.inArenas, fun z w hw => ?_, fun z x href => ?_,
    fun z x d href hd => ?_, fun z x href => ?_, fun z x href hperm => ?_,
    fun isCollecting hphase => ⟨fun z x href => ?_, fun z hz hcoll x hx hm => ?_⟩⟩
  · dsimp only [Runtime.adoptMarkedAtoms] at hw ⊢
    by_cases hz : z = target
    · subst hz
      simp [SparseBitmap.word_bitwiseOrWith, h.bounded z w hw, h.bounded source w hw]
    · rw [update_of_ne hz, h.bounded z w hw]
  · obtain href | ⟨-, href⟩ := href
    · exact h.has z x href
    · exact h.has source x href
  · obtain href | ⟨hz, href⟩ := href
    · exact .inl (h.child z x d href hd)
    · exact .inr ⟨hz, h.child source x d href hd⟩
  · obtain href | ⟨rfl, -⟩ := href
    · exact h.zone z x href
    · exact htarget
  · obtain href | ⟨rfl, href⟩ := href
    · simp [hbit z x (h.has z x href), h.marked z x href hperm]
    · simp [hbit z x (h.has source x href), h.marked source x href hperm]
  · obtain href | ⟨-, href⟩ := href
    · exact (h.sweeping isCollecting hphase).references z x href
    · exact (h.sweeping isCollecting hphase).references source x href
  · rw [hbit z x hx] at hm
    obtain hm | hm := Bool.or_eq_true_iff.1 hm
    · exact (h.sweeping isCollecting hphase).uncollected z hz hcoll x hx hm
    · exact (h.sweeping isCollecting hphase).uncollected source hsource (hnot isCollecting (.inr hphase)) x hx
        (Bool.and_eq_true_iff.1 hm).2

/-! ## Collections -/

/-- The bitmaps of the collected zones keep what has been marked. -/
lemma refineZoneBitmaps (h : s.Inv) (hphase : s.phase = .marking isCollecting)
    (hzones : ∀ z a, isCollecting z = true → s.references z a → s.isMarked a = true) :
    (s.refineZoneBitmaps isCollecting s.computeBitmapFromChunkMarkBits).Inv := by
  refine ⟨h.ranges.of_eq rfl rfl rfl, h.inArenas, fun z w hw => ?_, h.has, h.child, h.zone,
    fun z x href hperm => ?_, fun isCollecting' hsweep => ?_⟩
  · dsimp only [Runtime.refineZoneBitmaps] at hw ⊢
    split_ifs
    · simp [SparseBitmap.word_bitwiseAndWith_of_bounded fun w hw' => h.bounded z w (numWords_computeBitmap ▸ hw'), h.bounded z w hw]
    · exact h.bounded z w hw
  · have hold := h.marked z x href hperm
    obtain ⟨⟨arena, hfind⟩, hbit⟩ := h.exists_arena (h.has z x href)
    have hfind' : (s.refineZoneBitmaps isCollecting s.computeBitmapFromChunkMarkBits).arenas.find x.arena =
        some arena := hfind
    rw [atomIsMarked_eq hfind] at hold
    rw [atomIsMarked_eq hfind']
    dsimp only [Runtime.refineZoneBitmaps]
    split_ifs with hcoll
    · have hmark := hzones z x hcoll href
      rw [isMarked_eq hfind] at hmark
      simp [SparseBitmap.word_bitwiseAndWith_of_bounded fun w hw' => h.bounded z w (numWords_computeBitmap ▸ hw'), BitVec.getLsbD_and, hold, word_computeBitmap h.ranges hfind (word_lt hbit), hmark, Bool.and_self]
    · exact hold
  · have hsweep : s.phase = .sweeping isCollecting' := hsweep
    simp [hphase] at hsweep

end Inv

lemma sameRanges_orInto (arenas : KeyedTable ℕ Arena) (orRangeInto : ℕ → ℕ → (ℕ → Word) → ℕ → Word) (id : ℕ) :
    ((orIntoChunkMarkBits arenas orRangeInto).find id).map Arena.atomBitmapStart =
      (arenas.find id).map Arena.atomBitmapStart := by
  rw [orIntoChunkMarkBits, KeyedTable.find_mapValues, Option.map_map]
  rfl

lemma sameRanges_uncollected (s : Runtime) (isCollecting : ℕ → Bool) (space : Bool) :
    SameRanges s (s.markAtomsUsedByUncollectedZones isCollecting space) where
  arenas id := by
    unfold markAtomsUsedByUncollectedZones
    split_ifs
    · exact sameRanges_orInto _ _ id
    · generalize s.zones = zones
      generalize s.arenas = arenas
      induction zones generalizing arenas with
      | nil => rfl
      | cons z zones ih =>
        rw [foldl_cons, ih]
        split_ifs
        · rfl
        · exact sameRanges_orInto _ _ id
  free := rfl
  allocated := rfl

/-- What is marked after the bitmaps of the zones that are not collected have been added. -/
lemma isMarked_uncollected (h : s.Inv) (isCollecting : ℕ → Bool) (space : Bool) (ha : s.Has a) :
    (s.markAtomsUsedByUncollectedZones isCollecting space).isMarked a = true ↔
      s.isMarked a = true ∨ ∃ z ∈ s.zones, isCollecting z = false ∧ s.atomIsMarked z a = true := by
  obtain ⟨⟨arena, hfind⟩, hbit⟩ := h.exists_arena ha
  obtain ⟨arena', hfind', -, hiff⟩ := markBits_uncollected h.ranges isCollecting space hfind (word_lt hbit)
  rw [isMarked_eq hfind', isMarked_eq hfind, hiff]
  refine or_congr_right (exists_congr fun z => and_congr_right fun _ => and_congr_right fun _ => ?_)
  rw [atomIsMarked_eq hfind]

namespace Inv

lemma updateAtomsBitmap (h : s.Inv) (hphase : s.phase = .marking isCollecting)
    (hzones : ∀ z a, isCollecting z = true → s.references z a → s.isMarked a = true)
    (hroots : ∀ a info, s.atoms a = some info → info.isPermanent = true → s.isMarked a = true)
    (computed space : Bool) : (s.updateAtomsBitmap isCollecting computed space).Inv := by
  obtain ⟨s₁, hs₁, h₁, hatoms, harenas, href₁, hzones₁⟩ : ∃ s₁, (if computed = true then
      s.refineZoneBitmaps isCollecting s.computeBitmapFromChunkMarkBits else s) = s₁ ∧ s₁.Inv ∧
      s₁.atoms = s.atoms ∧ s₁.arenas = s.arenas ∧ s₁.references = s.references ∧ s₁.zones = s.zones := by
    cases computed with
    | false => exact ⟨s, rfl, h, rfl, rfl, rfl, rfl⟩
    | true => exact ⟨_, rfl, h.refineZoneBitmaps hphase hzones, rfl, rfl, rfl, rfl⟩
  unfold Runtime.updateAtomsBitmap
  rw [hs₁]
  have hranges := sameRanges_uncollected s₁ isCollecting space
  have hbit (z : ℕ) (x : AtomCell) : (s₁.markAtomsUsedByUncollectedZones isCollecting space).atomIsMarked z x =
      s₁.atomIsMarked z x := hranges.atomIsMarked rfl
  have hmark {x : AtomCell} (hx : s₁.Has x) := isMarked_uncollected h₁ isCollecting space hx
  have hsame (x : AtomCell) : s₁.isMarked x = s.isMarked x := isMarked_congr (by rw [harenas])
  refine ⟨(hranges.ranges h₁.ranges).of_eq rfl rfl rfl, hranges.inArenas rfl h₁.inArenas, h₁.bounded, h₁.has,
    h₁.child, h₁.zone, fun z x href hperm => (hbit z x).trans (h₁.marked z x href hperm),
    fun isCollecting' hsweep => ?_⟩
  obtain rfl : isCollecting = isCollecting' := Phase.sweeping.inj hsweep
  refine ⟨fun z x href => (hmark (h₁.has z x href)).2 ?_, fun z hz hcoll x hx hm => (hmark hx).2 ?_⟩
  · have hold : s.references z x := href₁ ▸ href
    rw [hsame]
    cases hcoll : isCollecting z with
    | true => exact .inl (hzones z x hcoll hold)
    | false =>
      by_cases hperm : s₁.IsPermanent x
      · obtain ⟨info, hinfo, hp⟩ := map_eq_some_iff.1 hperm
        exact .inl (hroots x info (hatoms ▸ hinfo) hp)
      · exact .inr ⟨z, h₁.zone z x href, hcoll, h₁.marked z x href hperm⟩
  · exact .inr ⟨z, hz, hcoll, (hbit z x).symm.trans hm⟩

lemma sweep (h : s.Inv) (hphase : s.phase = .sweeping isCollecting) (hdead : s.isMarked a = false) :
    (s.sweep a).Inv := by
  have hne {z : ℕ} {x : AtomCell} (href : s.references z x) : x ≠ a := by
    rintro rfl
    have hmark := (h.sweeping isCollecting hphase).references z x href
    simp [hdead] at hmark
  have hold {x : AtomCell} {info : AtomInfo} (hx : (s.sweep a).atoms x = some info) : s.atoms x = some info := by
    rw [Runtime.sweep] at hx
    dsimp only at hx
    rw [update_apply] at hx
    split_ifs at hx
    exact hx
  have hsame {z : ℕ} {x : AtomCell} (href : s.references z x) : (s.sweep a).atoms x = s.atoms x :=
    update_of_ne (hne href) _ _
  refine ⟨h.ranges.of_eq rfl rfl rfl, fun x info hx => h.inArenas x info (hold hx), h.bounded,
    fun z x href => ?_, fun z x d href hd => ?_, h.zone, fun z x href hperm => ?_,
    fun isCollecting' hsweep => ⟨(h.sweeping isCollecting' hsweep).references, fun z hz hcoll x hx hm => ?_⟩⟩
  · rw [Has, hsame href]
    exact h.has z x href
  · rw [childOf, hsame href] at hd
    exact h.child z x d href hd
  · rw [IsPermanent, hsame href] at hperm
    exact h.marked z x href hperm
  · obtain ⟨info, hinfo⟩ := hx
    exact (h.sweeping isCollecting' hsweep).uncollected z hz hcoll x ⟨info, hold hinfo⟩ hm

theorem step (h : s.Inv) (hstep : Step s s') : s'.Inv := by
  cases hstep with
  | registerArena arena markBits hnone => exact h.registerArena markBits hnone
  | unregisterArena arena recorded hempty => exact h.unregisterArena recorded hempty
  | allocate a info harena hbit hnew => exact h.allocate harena hbit hnew
  | markAtom zone hzone a ha => exact h.markAtom ha hzone
  | adoptMarkedAtoms target source htarget hsource hnot => exact h.adoptMarkedAtoms htarget hsource hnot
  | dropReferences references hsub hchild =>
    exact ⟨h.ranges.of_eq rfl rfl rfl, h.inArenas, h.bounded, fun z a href => h.has z a (hsub z a href), hchild,
      fun z a href => h.zone z a (hsub z a href), fun z a href => h.marked z a (hsub z a href),
      fun isCollecting hphase => ⟨fun z a href => (h.sweeping isCollecting hphase).references z a (hsub z a href),
        (h.sweeping isCollecting hphase).uncollected⟩⟩
  | startCollection isCollecting hidle =>
    refine h.of_sameRanges ⟨fun id => ?_, rfl, rfl⟩ rfl rfl rfl rfl fun isCollecting' hphase => ?_
    · rw [startCollection]
      rw [KeyedTable.find_mapValues, Option.map_map]
      rfl
    · cases hphase
  | mark isCollecting hphase a ha => exact h.setMarkBit (h.exists_arena ha).2
  | updateAtomsBitmap isCollecting hphase hzones hroots computed space =>
    exact h.updateAtomsBitmap hphase hzones hroots computed space
  | sweep isCollecting hphase a hdead => exact h.sweep hphase hdead
  | endCollection isCollecting hphase =>
    exact ⟨h.ranges.of_eq rfl rfl rfl, h.inArenas, h.bounded, h.has, h.child, h.zone, h.marked,
      fun _ hsweep => nomatch hsweep⟩

end Inv

lemma Reachable.inv {zones : List ℕ} (h : Reachable zones s) : s.Inv := by
  induction h with
  | initial => exact .initial zones
  | step _ hstep ih => exact ih.step hstep

/-! ## What is swept -/

lemma atoms_markCell (s : Runtime) (zone : ℕ) (a : AtomCell) : (s.markCell zone a).atoms = s.atoms := by
  unfold markCell
  split
  · split_ifs
    · rfl
    · unfold readBarrier
      split <;> rfl
  · rfl

lemma atoms_inlinedMarkAtom (s : Runtime) (zone : ℕ) (a : AtomCell) : (s.inlinedMarkAtom zone a).atoms = s.atoms := by
  unfold inlinedMarkAtom
  split_ifs
  · rfl
  · split
    · exact atoms_markCell s zone a
    · simp [atoms_markCell]

lemma has_allocate (a : AtomCell) (info : AtomInfo) (hb : s.Has b) : (s.allocate a info).Has b := by
  have hupdate : ∃ info', update s.atoms a (some info) b = some info' := by
    by_cases heq : b = a
    · simp [heq]
    · rw [update_of_ne heq]
      exact hb
  unfold allocate
  dsimp only
  split <;> exact hupdate

lemma Step.sweep_of_not_has (hstep : Step s s') (hb : s.Has b) (hgone : ¬ s'.Has b) :
    (∃ isCollecting, s.phase = .sweeping isCollecting) ∧ s.isMarked b = false := by
  have hsame (hatoms : s'.atoms = s.atoms) :
      (∃ isCollecting, s.phase = .sweeping isCollecting) ∧ s.isMarked b = false :=
    (hgone (by rw [Has, hatoms]; exact hb)).elim
  cases hstep with
  | registerArena arena markBits hnone =>
    refine hsame ?_
    unfold Runtime.registerArena
    split <;> rfl
  | unregisterArena arena recorded hempty =>
    refine hsame ?_
    unfold Runtime.unregisterArena
    split <;> rfl
  | allocate a info harena hbit hnew => exact (hgone (has_allocate a info hb)).elim
  | markAtom zone hzone a ha => exact hsame (atoms_inlinedMarkAtom s zone a)
  | adoptMarkedAtoms target source htarget hsource hnot => exact hsame rfl
  | dropReferences references hsub hchild => exact hsame rfl
  | startCollection isCollecting hidle => exact hsame rfl
  | mark isCollecting hphase a ha => exact hsame rfl
  | updateAtomsBitmap isCollecting hphase hzones hroots computed space =>
    refine hsame ?_
    cases computed <;> rfl
  | sweep isCollecting hphase a hdead =>
    by_cases heq : b = a
    · simp [heq, hphase, hdead]
    · refine (hgone ?_).elim
      rw [Has, Runtime.sweep]
      dsimp only
      rw [update_of_ne heq]
      exact hb
  | endCollection isCollecting hphase => exact hsame rfl

/-! ## The bitmaps over-approximate use -/

/-- The operations on the bitmaps of zones are the bitwise operations, at the words that are in use. -/
structure BitwiseOperations (s : Runtime) : Prop where
  bitwiseAndWith : ∀ z (other : DenseBitmap), other.numWords = s.allocatedWords → ∀ w,
    ((s.markedAtoms z).bitwiseAndWith other).word w = (s.markedAtoms z).word w &&& other.word w
  bitwiseOrWith : ∀ z z' w, ((s.markedAtoms z).bitwiseOrWith (s.markedAtoms z')).word w =
    (s.markedAtoms z).word w ||| (s.markedAtoms z').word w
  bitwiseOrInto : ∀ z (other : DenseBitmap), other.numWords = s.allocatedWords → ∀ w < s.allocatedWords,
    ((s.markedAtoms z).bitwiseOrInto other).word w = other.word w ||| (s.markedAtoms z).word w
  bitwiseOrRangeInto : ∀ z id arena, s.arenas.find id = some arena → ∀ (target : ℕ → Word), ∀ i < ArenaBitmapWords,
    (s.markedAtoms z).bitwiseOrRangeInto arena.atomBitmapStart ArenaBitmapWords target i =
      target i ||| (s.markedAtoms z).word (arena.atomBitmapStart + i)

structure OverApproximates (s : Runtime) : Prop where
  references : ∀ z a, s.references z a → ¬ s.IsPermanent a → s.atomIsMarked z a = true
  /-- Two live arenas share no words. -/
  arenas : ∀ id id' arena arena', s.arenas.find id = some arena → s.arenas.find id' = some arena' → id ≠ id' →
    ∀ i < ArenaBitmapWords, ∀ i' < ArenaBitmapWords, arena.atomBitmapStart + i ≠ arena'.atomBitmapStart + i'
  arenaWords : ∀ id arena, s.arenas.find id = some arena → ∀ i < ArenaBitmapWords,
    arena.atomBitmapStart + i < s.allocatedWords
  freeWords : ∀ start ∈ s.freeArenaIndexes, ∀ i < ArenaBitmapWords, start + i < s.allocatedWords
  zoneWords : ∀ z w, (s.markedAtoms z).word w ≠ 0 → w < s.allocatedWords
  /-- What is swept is used by no zone, and is in the bitmap of no zone that is not collected. -/
  swept : ∀ s' a, Step s s' → s.Has a → ¬ s'.Has a → ∃ isCollecting, s.phase = .sweeping isCollecting ∧
    (∀ z ∈ s.zones, isCollecting z = false → s.atomIsMarked z a = false) ∧ ∀ z, ¬ s.references z a
  operations : s.BitwiseOperations

lemma Inv.bitwiseOperations (h : s.Inv) : s.BitwiseOperations where
  bitwiseAndWith z other hwords _ := SparseBitmap.word_bitwiseAndWith_of_bounded fun w hw => h.bounded z w (hwords ▸ hw)
  bitwiseOrWith _ _ _ := SparseBitmap.word_bitwiseOrWith _
  bitwiseOrInto z other hwords w hw := by rw [SparseBitmap.word_bitwiseOrInto, if_pos (hwords ▸ hw)]
  bitwiseOrRangeInto z id arena hfind target i hi := by
    refine SparseBitmap.bitwiseOrRangeInto_apply target ?_ hi
    have hstart := (h.ranges.arena id arena hfind).1
    simp only [ArenaBitmapWords, WordsInBlock] at *
    omega

theorem atomMarking_sound {zones : List ℕ} (h : Reachable zones s) : s.OverApproximates where
  references := h.inv.marked
  arenas id id' arena arena' hfind hfind' hne i hi i' hi' heq := by
    have hs := h.inv.ranges
    have hstart := (range_eq (hs.arena _ _ hfind).1 (hs.arena _ _ hfind').1 hi hi' heq).1
    exact hne (hs.inj _ _ _ _ hfind hfind' hstart)
  arenaWords id arena hfind i hi := by
    have hrange := (h.inv.ranges.arena id arena hfind).2
    omega
  freeWords start hstart i hi := by
    have hrange := (h.inv.ranges.free start hstart).2
    omega
  zoneWords z w hw := not_le.1 fun hle => hw (h.inv.bounded z w hle)
  swept s' a hstep ha hgone := by
    obtain ⟨⟨isCollecting, hphase⟩, hdead⟩ := hstep.sweep_of_not_has ha hgone
    obtain ⟨href, hun⟩ := h.inv.sweeping isCollecting hphase
    have hnot : s.isMarked a ≠ true := by
      simp [hdead]
    refine ⟨isCollecting, hphase, fun z hz hcoll => ?_, fun z hra => hnot (href z a hra)⟩
    exact Bool.eq_false_iff.2 fun hm => hnot (hun z hz hcoll a ha hm)
  operations := h.inv.bitwiseOperations

/-- Zone 1 uses the first of two atoms, and the other one is about to be swept when zone 2 is collected. -/
def twoAtoms : Runtime :=
  (((((((initial [1, 2]).registerArena 0 fun _ => 0).allocate ⟨0, 0⟩ ⟨false, none⟩).allocate ⟨0, 2⟩
    ⟨false, none⟩).inlinedMarkAtom 1 ⟨0, 0⟩).addReference 1 ⟨0, 0⟩).startCollection
      fun z => z == 2).updateAtomsBitmap (fun z => z == 2) true true

theorem atomMarking_sound_twoAtoms : twoAtoms.OverApproximates := by
  suffices h : Reachable [1, 2] twoAtoms from atomMarking_sound h
  refine .step (.step (.step (.step (.step (.step .initial (.registerArena _ _ rfl))
    (.allocate _ _ rfl (by decide) rfl)) (.allocate _ _ rfl (by decide) rfl))
    (.markAtom 1 (by decide) ⟨0, 0⟩ ⟨⟨⟨⟨false, none⟩, rfl⟩, nofun⟩,
      fun d hd => (some_ne_none d (hd.symm.trans rfl)).elim,
      fun _ d hd => (some_ne_none d (hd.symm.trans rfl)).elim⟩))
    (.startCollection _ rfl)) (.updateAtomsBitmap _ rfl (fun z a hz href => ?_) (fun a info ha hp => ?_) true true)
  · obtain href | ⟨rfl, -⟩ := href
    · exact href.elim
    · cases hz
  · change (update (update (fun _ => none) ⟨0, 0⟩ (some ⟨false, none⟩)) ⟨0, 2⟩
      (some ⟨false, none⟩) : AtomCell → Option AtomInfo) a = some info at ha
    rw [update_apply, update_apply] at ha
    split_ifs at ha <;> cases ha <;> cases hp

end SpiderMonkey.Gc.Runtime

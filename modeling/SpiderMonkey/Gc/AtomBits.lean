import SpiderMonkey.Gc.AtomMarking

/-!
# The bits of atoms

The ranges of the arenas do not overlap (`Runtime.Ranges`), so that every atom has a bit of its own
(`bit_inj`).  The collection computes the words of the arenas and the unions of the bitmaps at these ranges
(`word_computeBitmap`, `markBits_uncollected`).
-/

namespace SpiderMonkey.Gc.Runtime

open DenseBitmap

/-! ## Ranges -/

/-- A range of the bitmaps. -/
def IsRange (s : Runtime) (start : ℕ) : Prop := start % ArenaBitmapWords = 0 ∧ start + ArenaBitmapWords ≤ s.allocatedWords

/-- Every live arena and every free index has a range of its own. -/
structure Ranges (s : Runtime) : Prop where
  arena : ∀ id arena, s.arenas.find id = some arena → s.IsRange arena.atomBitmapStart
  inj : ∀ id id' arena arena', s.arenas.find id = some arena → s.arenas.find id' = some arena' →
    arena.atomBitmapStart = arena'.atomBitmapStart → id = id'
  free : ∀ start ∈ s.freeArenaIndexes, s.IsRange start
  nodup : s.freeArenaIndexes.Nodup
  disjoint : ∀ start ∈ s.freeArenaIndexes, ∀ id arena, s.arenas.find id = some arena → arena.atomBitmapStart ≠ start
  allocated : s.allocatedWords % ArenaBitmapWords = 0

/-- The atoms are in live arenas. -/
def InArenas (s : Runtime) : Prop := ∀ a info, s.atoms a = some info →
  (∃ arena, s.arenas.find a.arena = some arena) ∧ a.arenaBit < ArenaBitmapBits

variable {s : Runtime} {a b : AtomCell} {zone w : ℕ}

lemma word_lt {bit : ℕ} (h : bit < ArenaBitmapBits) : bit / 64 < ArenaBitmapWords := by
  simp only [ArenaBitmapBits, ArenaBitmapWords] at *
  omega

lemma range_eq {start start' i i' : ℕ} (h : start % ArenaBitmapWords = 0) (h' : start' % ArenaBitmapWords = 0)
    (hi : i < ArenaBitmapWords) (hi' : i' < ArenaBitmapWords) (heq : start + i = start' + i') :
    start = start' ∧ i = i' := by
  simp only [ArenaBitmapWords] at *
  omega

/-! ## The bit of an atom -/

lemma isMarked_eq {arena : Arena} (h : s.arenas.find a.arena = some arena) :
    s.isMarked a = (arena.markBits (a.arenaBit / 64)).getLsbD (a.arenaBit % 64) := by
  rw [isMarked, h]
  rfl

lemma atomIsMarked_eq {arena : Arena} (h : s.arenas.find a.arena = some arena) : s.atomIsMarked zone a =
    ((s.markedAtoms zone).word (arena.atomBitmapStart + a.arenaBit / 64)).getLsbD (a.arenaBit % 64) := by
  rw [atomIsMarked, GetAtomBit, h]
  dsimp only [Option.map_some]
  rw [SparseBitmap.getBit_eq, JS_BITS_PER_WORD]
  have hdiv : (arena.atomBitmapStart * 64 + a.arenaBit) / 64 = arena.atomBitmapStart + a.arenaBit / 64 := by omega
  have hmod : (arena.atomBitmapStart * 64 + a.arenaBit) % 64 = a.arenaBit % 64 := by omega
  rw [hdiv, hmod]

lemma find_setMarkBit (id : ℕ) : (s.setMarkBit a).arenas.find id = (s.arenas.find id).map fun arena =>
    if id = a.arena then
      { arena with
        markBits := Function.update arena.markBits (a.arenaBit / 64)
          (arena.markBits (a.arenaBit / 64) ||| bitMask a.arenaBit) }
    else arena := KeyedTable.find_mapValues _ _

lemma isMarked_setMarkBit (h : ∃ arena, s.arenas.find b.arena = some arena) (hb : b.arenaBit < ArenaBitmapBits)
    (ha : a.arenaBit < ArenaBitmapBits) : (s.setMarkBit a).isMarked b = (s.isMarked b || decide (b = a)) := by
  obtain ⟨arena, hfind⟩ := h
  rw [isMarked_eq hfind]
  by_cases hid : b.arena = a.arena
  · have hfind' := find_setMarkBit (s := s) (a := a) b.arena
    rw [hfind, Option.map_some, if_pos hid] at hfind'
    rw [isMarked_eq hfind']
    dsimp only
    rw [Function.update_apply]
    split_ifs with hword
    · rw [hword, BitVec.getLsbD_or, getLsbD_bitMask]
      congr 1
      rw [decide_eq_decide]
      constructor
      · intro hbit
        cases a
        cases b
        simp only [AtomCell.mk.injEq] at *
        exact ⟨hid, by omega⟩
      · rintro rfl
        rfl
    · rw [decide_eq_false fun heq => hword (by rw [heq]), Bool.or_false]
  · have hfind' := find_setMarkBit (s := s) (a := a) b.arena
    rw [hfind, Option.map_some, if_neg hid] at hfind'
    rw [isMarked_eq hfind', decide_eq_false fun heq => hid (by rw [heq]), Bool.or_false]

lemma bit_inj (hs : s.Ranges) {arena arena' : Arena} (h : s.arenas.find a.arena = some arena)
    (h' : s.arenas.find b.arena = some arena') (ha : a.arenaBit < ArenaBitmapBits)
    (hb : b.arenaBit < ArenaBitmapBits)
    (hword : arena.atomBitmapStart + a.arenaBit / 64 = arena'.atomBitmapStart + b.arenaBit / 64)
    (hbit : a.arenaBit % 64 = b.arenaBit % 64) : a = b := by
  obtain ⟨hstart, hdiv⟩ := range_eq (hs.arena _ _ h).1 (hs.arena _ _ h').1 (word_lt ha) (word_lt hb) hword
  have harena := hs.inj _ _ _ _ h h' hstart
  cases a
  cases b
  simp only [AtomCell.mk.injEq] at *
  exact ⟨harena, by omega⟩

/-! ## The bitmaps of a collection -/

/-- The words of the arenas, in the ranges of the arenas. -/
lemma word_computeBitmap (hs : s.Ranges) {id i : ℕ} {arena : Arena} (h : s.arenas.find id = some arena)
    (hi : i < ArenaBitmapWords) :
    s.computeBitmapFromChunkMarkBits.word (arena.atomBitmapStart + i) = arena.markBits i := by
  have hobs := s.arenas.foldl_obs
    (fun (bitmap : DenseBitmap) entry =>
      bitmap.copyBitsFrom entry.2.atomBitmapStart ArenaBitmapWords entry.2.markBits)
    (fun bitmap => bitmap.word (arena.atomBitmapStart + i))
    (fun arena' _ => arena'.markBits i) id
    (fun e he hne bitmap => ?_) (fun arena' he bitmap => ?_) (ensureSpace s.allocatedWords)
  · rw [h] at hobs
    exact hobs
  · have hfind := (KeyedTable.find_eq_some s.arenas).2 he
    refine if_neg fun hin => hne (hs.inj _ _ _ _ hfind h ?_)
    have hsum : arena.atomBitmapStart + i = e.2.atomBitmapStart + (arena.atomBitmapStart + i - e.2.atomBitmapStart) := by
      omega
    exact (range_eq (hs.arena _ _ h).1 (hs.arena _ _ hfind).1 hi (by omega) hsum).1.symm
  · have hfind := (KeyedTable.find_eq_some s.arenas).2 he
    cases hfind.symm.trans h
    dsimp only [copyBitsFrom]
    rw [if_pos (by omega)]
    congr 1
    omega

lemma numWords_computeBitmap : s.computeBitmapFromChunkMarkBits.numWords = s.allocatedWords := by
  unfold computeBitmapFromChunkMarkBits
  suffices hall : ∀ (l : List (ℕ × Arena)) (bitmap : DenseBitmap), (l.foldl (fun (bitmap : DenseBitmap) entry =>
        bitmap.copyBitsFrom entry.2.atomBitmapStart ArenaBitmapWords entry.2.markBits) bitmap).numWords =
        bitmap.numWords from hall _ _
  intro l
  induction l with
  | nil => exact fun bitmap => rfl
  | cons e l ih => exact fun bitmap => ih _

variable {isCollecting : ℕ → Bool}

/-- The union of the bitmaps of the zones that are not collected. -/
lemma word_union (zones : List ℕ) (markedAtoms : ℕ → SparseBitmap) (u : DenseBitmap) (hw : w < u.numWords) (j : ℕ) :
    ((zones.foldl (fun u z => if isCollecting z = true then u else (markedAtoms z).bitwiseOrInto u) u).word
      w).getLsbD j = true ↔ (u.word w).getLsbD j = true ∨
        ∃ z ∈ zones, isCollecting z = false ∧ ((markedAtoms z).word w).getLsbD j = true := by
  induction zones generalizing u with
  | nil => simp
  | cons z zones ih =>
    rw [List.foldl_cons]
    cases hz : isCollecting z with
    | true => simp [ih u hw, hz]
    | false =>
      rw [if_neg Bool.false_ne_true, ih _ (by rw [SparseBitmap.numWords_bitwiseOrInto]; exact hw),
        SparseBitmap.word_bitwiseOrInto, if_pos hw, BitVec.getLsbD_or, Bool.or_eq_true, or_assoc]
      simp [hz]

lemma markBits_uncollected (hs : s.Ranges) (isCollecting : ℕ → Bool) (space : Bool) {id i j : ℕ} {arena : Arena}
    (h : s.arenas.find id = some arena) (hi : i < ArenaBitmapWords) :
    ∃ arena', (s.markAtomsUsedByUncollectedZones isCollecting space).arenas.find id = some arena' ∧
      arena'.atomBitmapStart = arena.atomBitmapStart ∧
      ((arena'.markBits i).getLsbD j = true ↔ (arena.markBits i).getLsbD j = true ∨ ∃ z ∈ s.zones,
        isCollecting z = false ∧ ((s.markedAtoms z).word (arena.atomBitmapStart + i)).getLsbD j = true) := by
  have hrange := hs.arena _ _ h
  have hblock : arena.atomBitmapStart % WordsInBlock + ArenaBitmapWords ≤ WordsInBlock := by
    have := hrange.1
    simp only [ArenaBitmapWords, WordsInBlock] at *
    omega
  cases space with
  | true =>
    simp only [markAtomsUsedByUncollectedZones, if_true, orIntoChunkMarkBits, KeyedTable.find_mapValues, h,
      Option.map_some]
    refine ⟨_, rfl, rfl, ?_⟩
    dsimp only [bitwiseOrRangeInto]
    rw [if_pos hi, BitVec.getLsbD_or, Bool.or_eq_true, word_union]
    · simp [ensureSpace]
    · have := hrange.2
      dsimp only [ensureSpace]
      omega
  | false =>
    simp only [markAtomsUsedByUncollectedZones, Bool.false_eq_true, if_false]
    generalize s.zones = zones
    generalize s.arenas = arenas at h
    clear hs hrange
    induction zones generalizing arenas arena with
    | nil => exact ⟨arena, h, rfl, by simp⟩
    | cons z zones ih =>
      rw [List.foldl_cons]
      cases hz : isCollecting z with
      | true =>
        obtain ⟨arena', hfind, hstart, hiff⟩ := ih hblock arenas h
        exact ⟨arena', hfind, hstart, hiff.trans (by simp [hz])⟩
      | false =>
        rw [if_neg Bool.false_ne_true]
        have hnext : (orIntoChunkMarkBits arenas (s.markedAtoms z).bitwiseOrRangeInto).find id = some { arena with
              markBits := (s.markedAtoms z).bitwiseOrRangeInto arena.atomBitmapStart ArenaBitmapWords
                arena.markBits } := by
          simp [orIntoChunkMarkBits, KeyedTable.find_mapValues, h]
        obtain ⟨arena', hfind, hstart, hiff⟩ := ih (by exact hblock) _ hnext
        refine ⟨arena', hfind, hstart, hiff.trans ?_⟩
        dsimp only
        rw [SparseBitmap.bitwiseOrRangeInto_apply _ hblock hi, BitVec.getLsbD_or, Bool.or_eq_true, or_assoc]
        simp [hz]

end SpiderMonkey.Gc.Runtime

import SpiderMonkey.Lib.KeyedTable

/-!
# Dense and sparse bitmaps

A dense bitmap is an array of words; a sparse bitmap keeps blocks of words, and what is not in a block is
zero.  The operations between them go block by block, and compute the bitwise operations on the words
(`SparseBitmap.word_bitwiseAndWith` and the theorems after it).
-/

namespace SpiderMonkey.Gc

open Nat

abbrev Word := BitVec 64

def JS_BITS_PER_WORD : ℕ := 64

/-- A word with one bit. -/
def bitMask (bit : ℕ) : Word := 1#64 <<< (bit % JS_BITS_PER_WORD)

lemma getLsbD_bitMask (bit j : ℕ) : (bitMask bit).getLsbD j = decide (j = bit % 64) := by
  rw [bitMask, JS_BITS_PER_WORD, BitVec.getLsbD_shiftLeft, BitVec.getLsbD_one]
  have := mod_lt bit (show 0 < 64 by decide)
  by_cases h : j = bit % 64
  · subst h
    simp [this]
  · simp only [h, decide_false]
    rw [Bool.and_eq_false_iff]
    by_cases hlt : j < bit % 64
    · simp [hlt]
    · right
      simp only [show 0 < 64 by decide, decide_true, Bool.true_and, decide_eq_false_iff_not]
      omega

/-! ## Dense bitmaps -/

structure DenseBitmap where
  numWords : ℕ
  word : ℕ → Word

namespace DenseBitmap

/-- The bitmap is empty before. -/
def ensureSpace (numWords : ℕ) : DenseBitmap := ⟨numWords, fun _ => 0⟩

variable (bitmap : DenseBitmap)

def copyBitsFrom (wordStart numWords : ℕ) (source : ℕ → Word) : DenseBitmap :=
  { bitmap with
    word := fun j => if wordStart ≤ j ∧ j < wordStart + numWords then source (j - wordStart) else bitmap.word j }

def bitwiseOrRangeInto (wordStart numWords : ℕ) (target : ℕ → Word) : ℕ → Word :=
  fun i => if i < numWords then target i ||| bitmap.word (wordStart + i) else target i

end DenseBitmap

/-! ## Sparse bitmaps -/

/-- The words of a block, of which there are `WordsInBlock`. -/
abbrev BitBlock := ℕ → Word

def WordsInBlock : ℕ := 4096 / 8

structure SparseBitmap where
  data : KeyedTable ℕ BitBlock

namespace SparseBitmap

def empty : SparseBitmap := ⟨KeyedTable.empty⟩

def blockStartWord (word : ℕ) : ℕ := word / WordsInBlock * WordsInBlock

/-- The number of words of the block that are in `other`. -/
def wordIntersectCount (blockWord : ℕ) (other : DenseBitmap) : ℕ :=
  min WordsInBlock (max ((other.numWords : ℤ) - blockWord) 0).toNat

variable (bitmap : SparseBitmap)

def getBlock (blockId : ℕ) : Option BitBlock := bitmap.data.find blockId

/-- A block that is created is zero. -/
def getOrCreateBlock (blockId : ℕ) : BitBlock := (bitmap.getBlock blockId).getD fun _ => 0

def setBlock (blockId : ℕ) (block : BitBlock) : SparseBitmap := ⟨bitmap.data.insert blockId block⟩

def setBit (bit : ℕ) : SparseBitmap :=
  let word := bit / JS_BITS_PER_WORD
  let blockWord := blockStartWord word
  let block := bitmap.getOrCreateBlock (blockWord / WordsInBlock)
  bitmap.setBlock (blockWord / WordsInBlock)
    (Function.update block (word - blockWord) (block (word - blockWord) ||| bitMask bit))

def getBit (bit : ℕ) : Bool :=
  let word := bit / JS_BITS_PER_WORD
  let blockWord := blockStartWord word
  match bitmap.getBlock (blockWord / WordsInBlock) with
  | none => false
  | some block => (block (word - blockWord) &&& bitMask bit) != 0

/-- Blocks without bits are removed; the words that are not in `other` are not looked at. -/
def bitwiseAndWith (other : DenseBitmap) : SparseBitmap :=
  ⟨bitmap.data.filterMapValues fun key block =>
    let blockWord := key * WordsInBlock
    let numWords := wordIntersectCount blockWord other
    let block : BitBlock := fun i => if i < numWords then block i &&& other.word (blockWord + i) else block i
    if (List.range numWords).any (fun i => block i != 0) = true then some block else none⟩

def bitwiseOrWith (other : SparseBitmap) : SparseBitmap :=
  other.data.entries.foldl (fun bitmap entry =>
    let block := bitmap.getOrCreateBlock entry.1
    bitmap.setBlock entry.1 fun i => if i < WordsInBlock then block i ||| entry.2 i else block i) bitmap

def bitwiseOrInto (other : DenseBitmap) : DenseBitmap :=
  bitmap.data.entries.foldl (fun other entry =>
    let blockWord := entry.1 * WordsInBlock
    let numWords := wordIntersectCount blockWord other
    { other with
      word := fun j => if blockWord ≤ j ∧ j < blockWord + numWords then other.word j ||| entry.2 (j - blockWord)
        else other.word j }) other

/-- The range is in one block. -/
def bitwiseOrRangeInto (wordStart numWords : ℕ) (target : ℕ → Word) : ℕ → Word :=
  let blockWord := blockStartWord wordStart
  match bitmap.getBlock (blockWord / WordsInBlock) with
  | none => target
  | some block => fun i => if i < numWords then target i ||| block (wordStart - blockWord + i) else target i

/-! ## The words of a sparse bitmap -/

/-- The word at an index of the whole bitmap. -/
def word (w : ℕ) : Word := bitmap.getOrCreateBlock (w / WordsInBlock) (w % WordsInBlock)

variable {bitmap} {other : DenseBitmap} {w bit : ℕ}

lemma blockStartWord_div (w : ℕ) : blockStartWord w / WordsInBlock = w / WordsInBlock :=
  Nat.mul_div_cancel _ (by decide)

lemma sub_blockStartWord (w : ℕ) : w - blockStartWord w = w % WordsInBlock := by
  have := div_add_mod w WordsInBlock
  rw [blockStartWord, mul_comm]
  omega

lemma word_setBlock (blockId : ℕ) (block : BitBlock) : (bitmap.setBlock blockId block).word w =
    if w / WordsInBlock = blockId then block (w % WordsInBlock) else bitmap.word w := by
  rw [word, getOrCreateBlock, getBlock, setBlock, KeyedTable.find_insert]
  split_ifs <;> rfl

theorem word_setBit : (bitmap.setBit bit).word w =
    if w = bit / 64 then bitmap.word w ||| bitMask bit else bitmap.word w := by
  rw [setBit, word_setBlock, blockStartWord_div, sub_blockStartWord, JS_BITS_PER_WORD]
  by_cases hdiv : w / WordsInBlock = bit / 64 / WordsInBlock
  · rw [if_pos hdiv, Function.update_apply]
    by_cases heq : w = bit / 64
    · subst heq
      simp [word]
    · have hne : w % WordsInBlock ≠ bit / 64 % WordsInBlock := by
        intro hmod
        have h₁ := div_add_mod w WordsInBlock
        have h₂ := div_add_mod (bit / 64) WordsInBlock
        rw [hdiv, hmod] at h₁
        exact heq (h₁.symm.trans h₂)
      simp [hne, heq, word, hdiv]
  · rw [if_neg hdiv, if_neg fun heq => hdiv (by rw [heq])]

lemma and_bitMask_ne (v : Word) (bit : ℕ) : ((v &&& bitMask bit) != 0) = v.getLsbD (bit % 64) := by
  cases h : v.getLsbD (bit % 64) with
  | false =>
    rw [bne_eq_false_iff_eq]
    refine BitVec.eq_of_getLsbD_eq fun i _ => ?_
    rw [BitVec.getLsbD_and, getLsbD_bitMask]
    refine Eq.trans ?_ BitVec.getLsbD_zero.symm
    by_cases heq : i = bit % 64
    · simp [heq, h]
    · simp [decide_eq_false heq]
  | true =>
    rw [bne_iff_ne]
    intro hzero
    have hbit := congrArg (fun v => v.getLsbD (bit % 64)) hzero
    simp [getLsbD_bitMask, h] at hbit

theorem getBit_eq : bitmap.getBit bit = (bitmap.word (bit / 64)).getLsbD (bit % 64) := by
  rw [getBit, blockStartWord_div, sub_blockStartWord, word, getOrCreateBlock, JS_BITS_PER_WORD]
  cases bitmap.getBlock (bit / 64 / WordsInBlock) with
  | none => simp
  | some block => exact and_bitMask_ne _ bit

/-! ## Operations on words -/

lemma wordIntersectCount_le (blockWord : ℕ) : wordIntersectCount blockWord other ≤ WordsInBlock := min_le_left _ _

/-- The words of a block that are in the dense bitmap. -/
lemma lt_wordIntersectCount (other : DenseBitmap) (key : ℕ) {i : ℕ} (hi : i < WordsInBlock) :
    i < wordIntersectCount (key * WordsInBlock) other ↔ key * WordsInBlock + i < other.numWords := by
  rw [wordIntersectCount]
  omega

/-- Words in the dense bitmap are combined; beyond it a word is kept, or its block is removed. -/
theorem word_bitwiseAndWith : (bitmap.bitwiseAndWith other).word w =
    if w < other.numWords then bitmap.word w &&& other.word w
    else if (bitmap.bitwiseAndWith other).getBlock (w / WordsInBlock) = none then 0 else bitmap.word w := by
  have hw : w / WordsInBlock * WordsInBlock + w % WordsInBlock = w := by
    rw [mul_comm]
    exact div_add_mod w WordsInBlock
  have hlt := lt_wordIntersectCount other (w / WordsInBlock) (mod_lt w (show 0 < WordsInBlock by decide))
  rw [hw] at hlt
  rw [word, word, getOrCreateBlock, getOrCreateBlock, getBlock, getBlock, bitwiseAndWith,
    KeyedTable.find_filterMapValues]
  cases hfind : bitmap.data.find (w / WordsInBlock) with
  | none => simp
  | some block =>
    simp only [Option.bind_some, Option.getD_some]
    by_cases hin : w < other.numWords
    · rw [if_pos hin]
      split_ifs with hany
      · simp [if_pos (hlt.2 hin), hw]
      · -- a block without bits
        rw [Bool.not_eq_true, List.any_eq_false] at hany
        have hzero := hany (w % WordsInBlock) (List.mem_range.2 (hlt.2 hin))
        rw [if_pos (hlt.2 hin), hw, bne_iff_ne, not_not] at hzero
        exact hzero.symm
    · rw [if_neg hin]
      split_ifs with hany hnone hnone
      · exact hnone.elim
      · simp [if_neg (mt hlt.1 hin)]
      · rfl
      · exact absurd rfl hnone

/-- A bitmap without bits beyond the dense one. -/
theorem word_bitwiseAndWith_of_bounded (hbound : ∀ w, other.numWords ≤ w → bitmap.word w = 0) :
    (bitmap.bitwiseAndWith other).word w = bitmap.word w &&& other.word w := by
  rw [word_bitwiseAndWith]
  split_ifs with hlt hnone
  · rfl
  · rw [hbound w (not_lt.1 hlt)]
    simp
  · rw [hbound w (not_lt.1 hlt)]
    simp

theorem word_bitwiseOrWith (other : SparseBitmap) :
    (bitmap.bitwiseOrWith other).word w = bitmap.word w ||| other.word w := by
  have hmod : w % WordsInBlock < WordsInBlock := mod_lt w (by decide)
  have hobs := other.data.foldl_obs (fun (bitmap : SparseBitmap) entry => bitmap.setBlock entry.1 fun i =>
      if i < WordsInBlock then bitmap.getOrCreateBlock entry.1 i ||| entry.2 i
      else bitmap.getOrCreateBlock entry.1 i)
    (fun s => s.word w) (fun block v => v ||| block (w % WordsInBlock)) (w / WordsInBlock)
    (fun e _ hne s => by rw [word_setBlock, if_neg (Ne.symm hne)])
    (fun b _ s => by rw [word_setBlock, if_pos rfl, if_pos hmod, word]) bitmap
  refine hobs.trans ?_
  have hother : other.word w = ((other.data.find (w / WordsInBlock)).getD fun _ => 0) (w % WordsInBlock) := rfl
  rw [hother]
  cases other.data.find (w / WordsInBlock) with
  | none => simp
  | some block => rfl

lemma numWords_bitwiseOrInto : (bitmap.bitwiseOrInto other).numWords = other.numWords := by
  rw [bitwiseOrInto]
  generalize bitmap.data.entries = l
  induction l generalizing other with
  | nil => rfl
  | cons e l ih => rw [List.foldl_cons, ih]

theorem word_bitwiseOrInto : (bitmap.bitwiseOrInto other).word w =
    if w < other.numWords then other.word w ||| bitmap.word w else other.word w := by
  have hw : w / WordsInBlock * WordsInBlock + w % WordsInBlock = w := by
    rw [mul_comm]
    exact div_add_mod w WordsInBlock
  have hmod := mod_lt w (show 0 < WordsInBlock by decide)
  have hrange (n : ℕ) (hn : n ≤ WordsInBlock) (key : ℕ) :
      (key * WordsInBlock ≤ w ∧ w < key * WordsInBlock + n) ↔ key = w / WordsInBlock ∧ w % WordsInBlock < n := by
    constructor
    · rintro ⟨hle, hlt⟩
      have hkey : key = w / WordsInBlock := (Nat.div_eq_of_lt_le hle (by rw [add_mul, one_mul]; omega)).symm
      subst hkey
      exact ⟨rfl, by omega⟩
    · rintro ⟨rfl, hlt⟩
      omega
  -- the number of words and the word at the index are seen
  have hobs := bitmap.data.foldl_obs (fun (other : DenseBitmap) entry =>
      { other with
        word := fun j => if entry.1 * WordsInBlock ≤ j ∧
            j < entry.1 * WordsInBlock + wordIntersectCount (entry.1 * WordsInBlock) other then
            other.word j ||| entry.2 (j - entry.1 * WordsInBlock)
          else other.word j })
    (fun other => (other.numWords, other.word w))
    (fun block seen => (seen.1, if w < seen.1 then seen.2 ||| block (w % WordsInBlock) else seen.2))
    (w / WordsInBlock) (fun e _ hne other => ?_) (fun b _ other => ?_) other
  · refine (congrArg Prod.snd hobs).trans ?_
    rw [word, getOrCreateBlock, getBlock]
    cases bitmap.data.find (w / WordsInBlock) with
    | none => simp
    | some block => rfl
  · dsimp only
    rw [if_neg fun hin => hne ((hrange _ (wordIntersectCount_le _) _).1 hin).1]
  · dsimp only
    have hlt := lt_wordIntersectCount other (w / WordsInBlock) hmod
    rw [hw] at hlt
    have hsub : w - w / WordsInBlock * WordsInBlock = w % WordsInBlock := by omega
    rw [hsub]
    by_cases hin : w < other.numWords
    · rw [if_pos hin, if_pos ((hrange _ (wordIntersectCount_le _) _).2 ⟨rfl, hlt.2 hin⟩)]
    · rw [if_neg hin, if_neg fun hr => hin (hlt.1 ((hrange _ (wordIntersectCount_le _) _).1 hr).2)]

/-- The range does not go over the end of a block. -/
theorem bitwiseOrRangeInto_apply {wordStart numWords i : ℕ} (target : ℕ → Word)
    (hrange : wordStart % WordsInBlock + numWords ≤ WordsInBlock) (hi : i < numWords) :
    bitmap.bitwiseOrRangeInto wordStart numWords target i = target i ||| bitmap.word (wordStart + i) := by
  have hmod : (wordStart + i) % WordsInBlock = wordStart % WordsInBlock + i := by
    rw [add_mod, mod_eq_of_lt (show i < WordsInBlock by omega), mod_eq_of_lt (by omega)]
  have hdiv : (wordStart + i) / WordsInBlock = wordStart / WordsInBlock := by
    have h₁ := div_add_mod (wordStart + i) WordsInBlock
    have h₂ := div_add_mod wordStart WordsInBlock
    rw [hmod] at h₁
    have h₃ : WordsInBlock * ((wordStart + i) / WordsInBlock) = WordsInBlock * (wordStart / WordsInBlock) := by
      omega
    exact Nat.eq_of_mul_eq_mul_left (by decide) h₃
  rw [bitwiseOrRangeInto, blockStartWord_div, sub_blockStartWord, word, getOrCreateBlock, hdiv, hmod]
  cases bitmap.getBlock (wordStart / WordsInBlock) with
  | none => simp
  | some block => exact if_pos hi

end SparseBitmap

end SpiderMonkey.Gc

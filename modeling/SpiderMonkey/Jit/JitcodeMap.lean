import SpiderMonkey.Lib.LittleEndian
import SpiderMonkey.Lib.Reading

/-!
# From native code to bytecode

`addNativeToBytecodeEntry` notes which site the code that follows comes from.  Sites without code disappear, but the
last site before a native offset remains the same (`siteAt_nativeToBytecodeList`).  The differences between entries are
written in one to four bytes each, and `findPcOffset` finds the bytecode in them (`findPcOffset_run`).
-/

namespace SpiderMonkey.Jit

open List
open LittleEndian (Byte or_shiftLeft)
open Reading

/-- The site is a tree of inlined scripts and a bytecode of its script. -/
structure NativeToBytecode (Tree : Type*) where
  nativeOffset : ℕ
  tree : Tree
  pc : ℕ

abbrev Entries (Tree : Type*) := List (NativeToBytecode Tree)

namespace NativeToBytecode

variable {Tree : Type*} {entry : NativeToBytecode Tree} {entries sites : Entries Tree}

def site (entry : NativeToBytecode Tree) : Tree × ℕ := (entry.tree, entry.pc)

/-! ## The list of entries, the last one first -/

/-- The last site before a native offset. -/
def siteAt (query : ℕ) (entries : Entries Tree) : Option (Tree × ℕ) :=
  (entries.find? (·.nativeOffset < query)).map site

/-- Every entry has code, and another site than the one before it. -/
abbrev Separated (entries : Entries Tree) : Prop :=
  entries.IsChain fun entry before => before.nativeOffset < entry.nativeOffset ∧ before.site ≠ entry.site

lemma siteAt_cons (query : ℕ) : siteAt query (entry :: entries) =
    if entry.nativeOffset < query then some entry.site else siteAt query entries := by
  rw [siteAt, find?_cons]
  by_cases h : entry.nativeOffset < query <;> simp [h, siteAt]

variable [DecidableEq Tree]

def addNativeToBytecodeEntry (entry : NativeToBytecode Tree) : Entries Tree → Entries Tree
  | [] => [entry]
  | last :: rest =>
    if last.site = entry.site then last :: rest
    else if last.nativeOffset = entry.nativeOffset then
      -- the last site has no code, and the one before it may be the new one
      if rest.head?.map site = some entry.site then rest else entry :: rest
    else entry :: last :: rest

def nativeToBytecodeList (sites : Entries Tree) : Entries Tree := sites.foldr addNativeToBytecodeEntry []

lemma addNativeToBytecodeEntry_spec (h : Separated entries)
    (hlast : ∀ last ∈ entries, last.nativeOffset ≤ entry.nativeOffset) :
    Separated (addNativeToBytecodeEntry entry entries) ∧ addNativeToBytecodeEntry entry entries ⊆ entry :: entries ∧
      ∀ query, siteAt query (addNativeToBytecodeEntry entry entries) = siteAt query (entry :: entries) := by
  cases entries with
  | nil => simp [addNativeToBytecodeEntry]
  | cons last rest =>
    have hle := hlast last mem_cons_self
    obtain ⟨hbefore, hrest⟩ := isChain_cons.1 h
    rw [addNativeToBytecodeEntry]
    split_ifs with hsame hoffset hmerge
    · exact ⟨h, subset_cons_self _ _, by grind [siteAt_cons]⟩
    · obtain ⟨before, hhead, hsite⟩ := Option.map_eq_some_iff.1 hmerge
      have hlt := (hbefore before hhead).1
      obtain ⟨rest, rfl⟩ := head?_eq_some_iff.1 hhead
      exact ⟨hrest, by simp, by grind [siteAt_cons]⟩
    · refine ⟨isChain_cons.2 ⟨fun before hhead => ⟨hoffset ▸ (hbefore before hhead).1, fun hsite => ?_⟩, hrest⟩,
        by simp, by grind [siteAt_cons]⟩
      exact hmerge (by rw [hhead, Option.map_some, hsite])
    · exact ⟨isChain_cons_cons.2 ⟨⟨lt_of_le_of_ne hle hoffset, hsame⟩, h⟩, Subset.refl _, fun query => rfl⟩

/-- The native offset never decreases while code is generated. -/
theorem siteAt_nativeToBytecodeList (h : sites.Pairwise fun entry before => before.nativeOffset ≤ entry.nativeOffset) :
    Separated (nativeToBytecodeList sites) ∧ nativeToBytecodeList sites ⊆ sites ∧
      ∀ query, siteAt query (nativeToBytecodeList sites) = siteAt query sites := by
  induction h with
  | nil => simp [nativeToBytecodeList]
  | cons hlast _ ih =>
    obtain ⟨hseparated, hsubset, hsite⟩ := ih
    obtain ⟨h, hentries, hquery⟩ := addNativeToBytecodeEntry_spec hseparated fun last hmem => hlast last (hsubset hmem)
    refine ⟨h, Subset.trans hentries (cons_subset_cons _ hsubset), fun query => (hquery query).trans ?_⟩
    rw [siteAt_cons, siteAt_cons, hsite]

theorem siteAt_nativeToBytecodeList_merged : Separated (nativeToBytecodeList
    ([⟨4, (), 0⟩, ⟨4, (), 3⟩, ⟨0, (), 0⟩] : Entries Unit)) :=
  (siteAt_nativeToBytecodeList (by decide)).1

end NativeToBytecode

/-! ## Deltas -/

/-- Above the mask value stand the bytecode delta and the native delta. -/
structure Encoding where
  size : ℕ
  mask : ℕ
  maskVal : ℕ
  nativeDeltaMax : ℕ
  nativeDeltaShift : ℕ
  pcDeltaMask : ℕ
  pcDeltaMax : ℕ
  pcDeltaMin : ℤ
  pcDeltaShift : ℕ
  size_pos : 0 < size
  maskVal_lt : maskVal < 2 ^ pcDeltaShift
  pcDeltaMask_eq : pcDeltaMask = (2 ^ (nativeDeltaShift - pcDeltaShift) - 1) <<< pcDeltaShift
deriving DecidableEq

namespace Encoding

def enc1 : Encoding := ⟨1, 0x1, 0x0, 0xf, 4, 0x0e, 0x7, 0, 1, by decide, by decide, rfl⟩
def enc2 : Encoding := ⟨2, 0x3, 0x1, 0xff, 8, 0x00fc, 0x3f, 0, 2, by decide, by decide, rfl⟩
def enc3 : Encoding := ⟨3, 0x7, 0x3, 0x7ff, 13, 0x001ff8, 0x1ff, -0x1ff - 1, 3, by decide, by decide, rfl⟩
def enc4 : Encoding := ⟨4, 0x7, 0x7, 0xffff, 16, 0x0000fff8, 0xfff, -0xfff - 1, 3, by decide, by decide, rfl⟩

variable (enc : Encoding) (nativeDelta : ℕ) (pcDelta : ℤ)

abbrev IsDeltaEncodeable : Prop :=
  enc.pcDeltaMin ≤ pcDelta ∧ pcDelta ≤ enc.pcDeltaMax ∧ nativeDelta ≤ enc.nativeDeltaMax

def encVal : ℕ :=
  enc.maskVal ||| ((pcDelta % 2 ^ 32).toNat <<< enc.pcDeltaShift &&& enc.pcDeltaMask) |||
    nativeDelta <<< enc.nativeDeltaShift

/-- There is one bit for the sign. -/
def fixSign (pcDeltaU : ℕ) : ℤ :=
  if enc.pcDeltaMax < pcDeltaU then (BitVec.ofNat 32 pcDeltaU ||| ~~~BitVec.ofNat 32 enc.pcDeltaMax).toInt
  else pcDeltaU

/-- The bytes are asserted to stand for a delta that makes sense. -/
def read : Reader Byte (ℕ × ℤ) := fun bytes =>
  let encVal := Radix.val (bytes.take enc.size)
  let nativeDelta := encVal >>> enc.nativeDeltaShift
  let pcDelta := enc.fixSign ((encVal &&& enc.pcDeltaMask) >>> enc.pcDeltaShift)
  if enc.size ≤ bytes.length ∧ (nativeDelta = 0 → pcDelta ≤ 0) ∧ (1 < enc.size → pcDelta ≠ 0) then
    some ((nativeDelta, pcDelta), bytes.drop enc.size)
  else none

abbrev encodings : List Encoding := [enc1, enc2, enc3, enc4]

variable {enc} {nativeDelta} {pcDelta}

lemma toInt_or_not {max n : ℕ} (hmax : max = 2 ^ 9 - 1 ∨ max = 2 ^ 12 - 1) (h : max < n) (hn : n < 2 * (max + 1)) :
    (BitVec.ofNat 32 n ||| ~~~BitVec.ofNat 32 max).toInt = n - 2 * (max + 1) := by
  rw [← @BitVec.not_not 32 (_ ||| _), BitVec.not_or, BitVec.not_not, BitVec.toInt_not, BitVec.toNat_and,
    BitVec.toNat_not, BitVec.toNat_ofNat, BitVec.toNat_ofNat, Nat.mod_eq_of_lt (by omega), Nat.mod_eq_of_lt (by omega)]
  obtain rfl | rfl := hmax <;> rw [Nat.and_two_pow_sub_one_eq_mod, Int.bmod_def] <;> omega

lemma encVal_spec {n : ℕ} (henc : enc ∈ encodings) (h : enc.IsDeltaEncodeable nativeDelta pcDelta)
    (hn : enc.encVal nativeDelta pcDelta = n) :
    n < (2 ^ 8) ^ enc.size ∧ n % 2 ^ 8 % 2 ^ enc.pcDeltaShift = enc.maskVal ∧ n >>> enc.nativeDeltaShift = nativeDelta ∧
      enc.fixSign ((n &&& enc.pcDeltaMask) >>> enc.pcDeltaShift) = pcDelta := by
  obtain ⟨hmin, hmax, hnative⟩ := h
  have hsign := @toInt_or_not enc.pcDeltaMax
  rw [encVal, enc.pcDeltaMask_eq, ← Nat.shiftLeft_and_distrib, Nat.and_two_pow_sub_one_eq_mod,
    or_shiftLeft _ enc.maskVal_lt, or_shiftLeft] at hn
  · rw [enc.pcDeltaMask_eq, Nat.shiftRight_and_distrib, Nat.shiftLeft_shiftRight, Nat.and_two_pow_sub_one_eq_mod,
      Nat.shiftRight_eq_div_pow, Nat.shiftRight_eq_div_pow]
    fin_cases henc <;> dsimp only [enc1, enc2, enc3, enc4, fixSign] at * <;>
      refine ⟨by omega, by omega, by omega, ?_⟩ <;> split_ifs with hneg <;> try omega
    · rw [hsign (.inl rfl) hneg (by omega)]
      omega
    · rw [hsign (.inr rfl) hneg (by omega)]
      omega
  · fin_cases henc <;> dsimp only [enc1, enc2, enc3, enc4] <;> omega

end Encoding

open Encoding (encodings)

/-- The bytes of the first encoding that the delta fits. -/
def writeDelta (nativeDelta : ℕ) (pcDelta : ℤ) : Option (List Byte) :=
  (encodings.find? (·.IsDeltaEncodeable nativeDelta pcDelta)).map fun enc =>
    LittleEndian.encode enc.size (enc.encVal nativeDelta pcDelta)

def readDelta : Reader Byte (ℕ × ℤ) := fun bytes =>
  (encodings.find? fun enc => (bytes.headD 0).toNat &&& enc.mask = enc.maskVal).bind (·.read bytes)

variable {nativeDelta : ℕ} {pcDelta : ℤ}

lemma find?_encodings : ∀ byte < 2 ^ 8, ∀ enc ∈ encodings, byte % 2 ^ enc.pcDeltaShift = enc.maskVal →
    (encodings.find? fun enc => byte &&& enc.mask = enc.maskVal) = some enc := by
  decide +kernel

lemma reads_writeDelta {chunk : List Byte} (h : writeDelta nativeDelta pcDelta = some chunk) (hnative : 0 < nativeDelta)
    (hpc : pcDelta ≠ 0) : chunk ≠ [] ∧ Reads readDelta chunk (nativeDelta, pcDelta) := by
  obtain ⟨enc, hfind, rfl⟩ := Option.map_eq_some_iff.1 h
  have henc := mem_of_find?_eq_some hfind
  obtain ⟨hlt, hmask, hshift, hsign⟩ := Encoding.encVal_spec henc (by simpa using find?_some hfind) rfl
  obtain ⟨size, hsize⟩ := Nat.exists_eq_succ_of_ne_zero enc.size_pos.ne'
  refine ⟨by simp [hsize, LittleEndian.encode], fun rest => ?_⟩
  have hfirst := find?_encodings _ (Nat.mod_lt _ (Nat.two_pow_pos 8)) enc henc hmask
  have hhead : ((LittleEndian.encode enc.size (enc.encVal nativeDelta pcDelta) ++ rest).headD 0).toNat =
      enc.encVal nativeDelta pcDelta % 2 ^ 8 := by
    rw [hsize, LittleEndian.encode, cons_append, headD_cons, BitVec.toNat_ofNat]
  rw [readDelta, hhead, hfirst, Option.bind_some, Encoding.read]
  simp [LittleEndian.val_encode_of_lt hlt, hshift, hsign, hnative.ne', hpc]

/-! ## Runs -/

variable {Tree : Type*} {query padding fuel : ℕ}

/-- The entries of a run after its first one. -/
def writeDeltas : NativeToBytecode Tree → Entries Tree → Option (List Byte)
  | _, [] => some []
  | cur, next :: run =>
    (writeDelta (next.nativeOffset - cur.nativeOffset) ((next.pc : ℤ) - cur.pc)).bind fun chunk =>
      (writeDeltas next run).map (chunk ++ ·)

/-- A return address belongs to the bytecode before it; there are fewer deltas than fuel. -/
def findPcOffset (query : ℕ) : ℕ → ℕ → ℤ → List Byte → Option ℤ
  | 0, _, _, _ => none
  | fuel + 1, curNativeOffset, curPcOffset, bytes =>
    if bytes = [] then some curPcOffset
    else (readDelta bytes).bind fun ((nativeDelta, pcDelta), rest) =>
      if query ≤ curNativeOffset + nativeDelta then some curPcOffset
      else findPcOffset query fuel (curNativeOffset + nativeDelta) (curPcOffset + pcDelta) rest

lemma findPcOffset_padding {curNativeOffset : ℕ} {curPcOffset : ℤ} (hfuel : padding < fuel) :
    findPcOffset query fuel curNativeOffset curPcOffset (replicate padding 0) = some curPcOffset := by
  induction fuel generalizing padding with
  | zero => omega
  | succ fuel ih =>
    cases padding with
    | zero => rfl
    | succ padding =>
      simpa [findPcOffset, replicate_succ, readDelta, encodings, Encoding.enc1, Encoding.read, Encoding.fixSign] using
        fun _ => ih (Nat.lt_of_succ_lt_succ hfuel)

/-- The bytes of a run may be followed by padding. -/
theorem findPcOffset_run {first : NativeToBytecode Tree} {run : Entries Tree} {bytes : List Byte}
    (h : (first :: run).IsChain fun entry next => entry.nativeOffset < next.nativeOffset ∧ entry.pc ≠ next.pc)
    (hwrite : writeDeltas first run = some bytes) (hfuel : bytes.length + padding < fuel) :
    findPcOffset query fuel first.nativeOffset first.pc (bytes ++ replicate padding 0) =
      some (((run.takeWhile (·.nativeOffset < query)).getLastD first).pc : ℤ) := by
  induction run generalizing first bytes fuel with
  | nil =>
    obtain rfl := Option.some.inj hwrite
    exact findPcOffset_padding (by simpa using hfuel)
  | cons next run ih =>
    obtain ⟨⟨hlt, hpc⟩, hrun⟩ := isChain_cons_cons.1 h
    obtain ⟨chunk, hchunk, hwrite⟩ := Option.bind_eq_some_iff.1 hwrite
    obtain ⟨bytes, hbytes, rfl⟩ := Option.map_eq_some_iff.1 hwrite
    obtain ⟨hne, hreads⟩ := reads_writeDelta hchunk (by omega) (by omega)
    have hlength := length_pos_of_ne_nil hne
    rw [length_append] at hfuel
    obtain ⟨fuel, rfl⟩ := Nat.exists_eq_add_one.2 (show 0 < fuel by omega)
    rw [append_assoc, findPcOffset, if_neg (append_ne_nil_of_left_ne_nil hne _), hreads, Option.bind_some]
    dsimp only
    rw [Nat.add_sub_cancel' hlt.le, add_sub_cancel, ih hrun hbytes (by omega), takeWhile_cons]
    by_cases hquery : next.nativeOffset < query
    · simp [hquery, hquery.not_ge, getLastD_cons, -getLastD_eq_getLast?]
    · simp [hquery, not_lt.1 hquery]

theorem findPcOffset_run_back :
    findPcOffset 30 9 0 7 ([0x52, 0xf9, 0x05, 0xd3, 0xfd, 0x02] ++ replicate 2 0) = some 70 :=
  @findPcOffset_run Unit _ _ _ ⟨0, (), 7⟩ [⟨5, (), 8⟩, ⟨10, (), 70⟩, ⟨33, (), 0⟩] _ (by decide) (by decide) (by decide)

end SpiderMonkey.Jit

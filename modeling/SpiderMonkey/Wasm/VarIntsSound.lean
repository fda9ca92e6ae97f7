import SpiderMonkey.Wasm.VarInts

/-!
# Variable-length integers are LEB128

The decoder succeeds exactly on the encodings of integers with `numBits` bits, and what the encoder writes is one.
-/

namespace SpiderMonkey.Wasm

open List
open LittleEndian (Byte or_shiftLeft)
open Leb128

/-! ## Bits of a byte -/

lemma and_high {byte : ℕ} (h : byte < 256) : byte &&& 0x80 = 0 ↔ byte < 128 := by
  have hall : ∀ b < 256, b &&& 0x80 = 0 ↔ b < 128 := by decide +kernel
  exact hall byte h

lemma and_low (byte : ℕ) : byte &&& 0x7f = byte % 128 := Nat.and_two_pow_sub_one_eq_mod byte 7

lemma or_high {byte : ℕ} (h : byte < 128) : byte ||| 0x80 = byte + 128 := by
  have hor := Nat.two_pow_add_eq_or_of_lt (i := 7) h 1
  rw [Nat.or_comm, ← hor, add_comm]

lemma and_unused {byte bits : ℕ} (hbyte : byte < 256) (hbits : bits < 7) :
    byte &&& (2 ^ 32 - 1) <<< bits % 2 ^ 32 = 0 ↔ byte < 2 ^ bits := by
  have hall : ∀ r < 7, ∀ b < 256, b &&& (2 ^ 32 - 1) <<< r % 2 ^ 32 = 0 ↔ b < 2 ^ r := by decide +kernel
  exact hall bits hbits byte hbyte

lemma and_mask {byte bits : ℕ} (hbyte : byte < 128) (hbits : bits < 7) (hpos : 0 < bits) :
    ((byte &&& 0x7f &&& 0xff <<< bits % 2 ^ 8) = if byte &&& 1 <<< (bits - 1) ≠ 0 then 0x7f &&& 0xff <<< bits % 2 ^ 8
      else 0) ↔ UnusedSign bits byte := by
  have hall : ∀ r < 7, 0 < r → ∀ b < 128,
      (((b &&& 0x7f &&& 0xff <<< r % 2 ^ 8) = if b &&& 1 <<< (r - 1) ≠ 0 then 0x7f &&& 0xff <<< r % 2 ^ 8 else 0) ↔
        (b / 2 ^ (r - 1) = 0 ∨ b / 2 ^ (r - 1) = 2 ^ (8 - r) - 1)) := by decide +kernel
  exact hall bits hbits hpos byte hbyte

namespace Decoder

variable {numBits : ℕ} {d d' : Decoder}

/-! ## What may be read -/

@[simp] lemma length_remaining (d : Decoder) : d.remaining.length = d.end_ - d.cur := by
  simp [remaining]

lemma remaining_eq_cons (h : d.cur < d.end_) : d.remaining = d.memory d.cur :: (d.advance 1).remaining := by
  have hcount : d.end_ - d.cur = d.end_ - (d.cur + 1) + 1 := by omega
  rw [remaining, remaining, hcount, range_succ_eq_map, map_cons, map_map]
  congr 1
  refine map_congr_left fun i _ => ?_
  change d.memory (d.cur + (i + 1)) = d.memory (d.cur + 1 + i)
  rw [Nat.add_assoc, Nat.add_comm 1 i]

lemma readFixedU8_of_nil (h : d.remaining = []) : d.readFixedU8 = none := by
  have hlength := d.length_remaining
  rw [h, length_nil] at hlength
  exact if_pos (by omega)

lemma readFixedU8_of_cons {b : Byte} {bs : List Byte} (h : d.remaining = b :: bs) :
    d.readFixedU8 = some (b.toNat, d.advance 1) ∧ (d.advance 1).remaining = bs := by
  have hlength := d.length_remaining
  rw [h, length_cons] at hlength
  have hcons := remaining_eq_cons (show d.cur < d.end_ by omega)
  rw [h] at hcons
  obtain ⟨hb, hbs⟩ := List.cons.inj hcons
  refine ⟨?_, hbs.symm⟩
  rw [readFixedU8, if_neg (by omega), ← hb]

lemma advance_advance (d : Decoder) (m n : ℕ) : (d.advance m).advance n = d.advance (m + n) := by
  simp [advance, Nat.add_assoc]

/-! ## Unsigned integers -/

section Encodings

variable {unused : ℕ → ℕ → Prop} {α : Type*} {value value' : List Byte → α} {w : ℕ} {n : α} {b : Byte} {bs : List Byte}

/-- An encoding of `w` bits is at the front, and its value is `n`. -/
def Encodes (unused : ℕ → ℕ → Prop) {α : Type*} (value : List Byte → α) (w : ℕ) (d : Decoder) (n : α) (d' : Decoder) :
    Prop :=
  ∃ enc rest, d.remaining = enc ++ rest ∧ Fits unused w enc ∧ n = value enc ∧ d' = d.advance enc.length

lemma encodes_cons_iff (h : d.remaining = b :: bs) (hb : 128 ≤ b.toNat) : Encodes unused value w d n d' ↔
      7 < w ∧ Encodes unused (fun enc => value (b :: enc)) (w - 7) (d.advance 1) n d' := by
  have hrest := (readFixedU8_of_cons h).2
  constructor
  · rintro ⟨enc, rest, hremaining, hfits, hn, hd'⟩
    cases enc with
    | nil => exact absurd rfl hfits.encoding.ne_nil
    | cons c enc =>
      rw [h, cons_append] at hremaining
      obtain ⟨rfl, hbs⟩ := List.cons.inj hremaining
      obtain ⟨hw, hfits'⟩ := (fits_cons_iff hb).1 hfits
      refine ⟨hw, enc, rest, hrest.trans hbs, hfits', hn, ?_⟩
      rw [hd', advance_advance, length_cons, Nat.add_comm 1]
  · rintro ⟨hw, enc, rest, hremaining, hfits, hn, hd'⟩
    refine ⟨b :: enc, rest, ?_, (fits_cons_iff hb).2 ⟨hw, hfits⟩, hn, ?_⟩
    · rw [h, ← hrest, hremaining, cons_append]
    · rw [hd', advance_advance, length_cons, Nat.add_comm 1]

lemma encodes_last_iff (h : d.remaining = b :: bs) (hb : b.toNat < 128) : Encodes unused value w d n d' ↔
      0 < w ∧ unused w b.toNat ∧ n = value [b] ∧ d' = d.advance 1 := by
  constructor
  · rintro ⟨enc, rest, hremaining, hfits, hn, hd'⟩
    have henc : enc = [b] := by
      rw [h] at hremaining
      exact (hfits.encoding.eq_of_append (IsEncoding.last hb) (hremaining.symm.trans rfl)).1
    subst henc
    obtain ⟨hw, -, hunused⟩ := fits_singleton_iff.1 hfits
    exact ⟨hw, hunused, hn, hd'⟩
  · rintro ⟨hw, hunused, hn, hd'⟩
    exact ⟨[b], bs, h, fits_singleton_iff.2 ⟨hw, hb, hunused⟩, hn, hd'⟩

lemma not_encodes_nil (h : d.remaining = []) : ¬ Encodes unused value w d n d' := by
  rintro ⟨enc, rest, hremaining, hfits, -, -⟩
  rw [h] at hremaining
  exact hfits.encoding.ne_nil (append_eq_nil_iff.1 hremaining.symm).1

lemma not_encodes_cons (h : d.remaining = b :: bs) (hb : 128 ≤ b.toNat) (hw : w ≤ 7) :
    ¬ Encodes unused value w d n d' :=
  fun henc => absurd ((encodes_cons_iff h hb).1 henc).1 hw.not_gt

lemma some_iff_encodes {x : α} (h : d.remaining = b :: bs) (hb : b.toNat < 128) (hw : 0 < w)
    (hunused : unused w b.toNat) (hx : value [b] = x) :
    some (x, d.advance 1) = some (n, d') ↔ Encodes unused value w d n d' := by
  rw [encodes_last_iff h hb, hx, Option.some.injEq, Prod.mk.injEq]
  constructor
  · rintro ⟨hn, hd'⟩
    exact ⟨hw, hunused, hn.symm, hd'.symm⟩
  · rintro ⟨-, -, hn, hd'⟩
    exact ⟨hn.symm, hd'.symm⟩

lemma encodes_congr (h : ∀ enc, IsEncoding enc → value enc = value' enc) :
    Encodes unused value w d n d' ↔ Encodes unused value' w d n d' := by
  constructor
  · rintro ⟨enc, rest, hremaining, hfits, hn, hd'⟩
    exact ⟨enc, rest, hremaining, hfits, hn.trans (h enc hfits.encoding), hd'⟩
  · rintro ⟨enc, rest, hremaining, hfits, hn, hd'⟩
    exact ⟨enc, rest, hremaining, hfits, hn.trans (h enc hfits.encoding).symm, hd'⟩

end Encodings

lemma value_singleton {b : Byte} (hb : b.toNat < 128) : value [b] = b.toNat := by
  simp [value, Nat.mod_eq_of_lt hb]

lemma signedValue_singleton {b : Byte} (hb : b.toNat < 128) :
    signedValue [b] = if b.toNat < 64 then (b.toNat : ℤ) else b.toNat - 128 := by
  rw [signedValue, Nat.mod_eq_of_lt hb]

lemma or_group {u byte shift : ℕ} (hu : u < 2 ^ shift) (hfits : byte * 2 ^ shift < 2 ^ numBits) :
    u ||| byte <<< shift % 2 ^ numBits = u + byte * 2 ^ shift := by
  rw [Nat.mod_eq_of_lt (by rwa [Nat.shiftLeft_eq]), or_shiftLeft _ hu]

lemma group_lt {byte shift : ℕ} (width : ℕ) (hbyte : byte < 2 ^ width) (h : shift + width ≤ numBits) :
    byte * 2 ^ shift < 2 ^ numBits :=
  calc byte * 2 ^ shift < 2 ^ width * 2 ^ shift := Nat.mul_lt_mul_of_pos_right hbyte (Nat.two_pow_pos shift)
    _ = 2 ^ (shift + width) := by rw [← pow_add, add_comm]
    _ ≤ 2 ^ numBits := Nat.pow_le_pow_right Nat.two_pos h

lemma pow_shift (shift : ℕ) : 2 ^ (shift + 7) = 128 * 2 ^ shift := by
  rw [pow_add, mul_comm]
  rfl

lemma add_group_lt {u byte shift : ℕ} (hu : u < 2 ^ shift) (hbyte : byte < 128) :
    u + byte * 2 ^ shift < 2 ^ (shift + 7) := by
  have hmul : byte * 2 ^ shift ≤ 127 * 2 ^ shift := Nat.mul_le_mul_right _ (by omega)
  rw [pow_shift]
  omega

/-- The bits that have been read are below the shift, and the rest is an encoding of the other bits. -/
lemma readVarULoop_iff {u shift n : ℕ} (hrem : 0 < numBits % 7) (hshift : shift % 7 = 0)
    (hle : shift + 7 + numBits % 7 ≤ numBits) (hu : u < 2 ^ shift) :
    d.readVarULoop numBits u shift = some (n, d') ↔
      Encodes UnusedZero (fun enc => u + value enc * 2 ^ shift) (numBits - shift) d n d' := by
  have hsevens : numBitsInSevens numBits = numBits - numBits % 7 := rfl
  have hrem7 : numBits % 7 < 7 := Nat.mod_lt _ (by decide)
  generalize hbytes : d.remaining = bytes
  induction bytes generalizing d u shift with
  | nil =>
    rw [readVarULoop, readFixedU8_of_nil hbytes]
    exact iff_of_false nofun (not_encodes_nil hbytes)
  | cons b bs ih =>
    obtain ⟨hread, hrest⟩ := readFixedU8_of_cons hbytes
    have hb256 : b.toNat < 256 := b.isLt
    rw [readVarULoop, hread]
    dsimp only
    by_cases hb : b.toNat < 128
    · rw [if_pos ((and_high hb256).2 hb), or_group hu (group_lt 7 hb (by omega))]
      have hunused : UnusedZero (numBits - shift) b.toNat :=
        hb.trans_le (Nat.pow_le_pow_right Nat.two_pos (show 7 ≤ numBits - shift by omega))
      exact some_iff_encodes hbytes hb (by omega) hunused (by rw [value_singleton hb])
    · have hmod : b.toNat % 128 < 2 ^ 7 := Nat.mod_lt _ (by decide)
      have hu' := add_group_lt hu hmod
      have hvalue : (fun enc => u + value (b :: enc) * 2 ^ shift) =
          fun enc => u + b.toNat % 128 * 2 ^ shift + value enc * 2 ^ (shift + 7) := by
        funext enc
        rw [value, pow_shift]
        ring
      rw [if_neg (mt (and_high hb256).1 hb), and_low, or_group hu (group_lt 7 hmod (by omega)),
        encodes_cons_iff hbytes (by omega), and_iff_right (by omega), hvalue, Nat.sub_sub]
      by_cases hmore : shift + 7 ≠ numBitsInSevens numBits
      · rw [if_pos hmore]
        exact ih (show (shift + 7) % 7 = 0 by omega) (show shift + 7 + 7 + numBits % 7 ≤ numBits by omega) hu' hrest
      · have hwidth : numBits - (shift + 7) = numBits % 7 := by omega
        have hlow : numBitsInSevens numBits = shift + 7 := not_not.1 hmore |>.symm
        rw [if_neg hmore, hwidth]
        cases bs with
        | nil =>
          rw [readFixedU8_of_nil hrest]
          exact iff_of_false nofun (not_encodes_nil hrest)
        | cons c cs =>
          have hc256 : c.toNat < 256 := c.isLt
          rw [(readFixedU8_of_cons hrest).1]
          dsimp only
          rw [remainderBits]
          by_cases hc : c.toNat < 2 ^ (numBits % 7)
          · have hc128 : c.toNat < 128 :=
              hc.trans_le (Nat.pow_le_pow_right Nat.two_pos (show numBits % 7 ≤ 7 by omega))
            rw [if_neg (not_not.2 ((and_unused hc256 hrem7).2 hc)), hlow,
              or_group hu' (group_lt (numBits % 7) hc (by omega))]
            exact some_iff_encodes hrest hc128 hrem hc (by rw [value_singleton hc128])
          · rw [if_pos (mt (and_unused hc256 hrem7).1 hc)]
            refine iff_of_false nofun ?_
            by_cases hc128 : c.toNat < 128
            · exact fun henc => absurd ((encodes_last_iff hrest hc128).1 henc).2.1 hc
            · exact not_encodes_cons hrest (by omega) hrem7.le

/-! ## Signed integers -/

lemma toInt_of_lt {pattern : ℕ} (hpos : 0 < numBits) (h : pattern < 2 ^ (numBits - 1)) :
    (BitVec.ofNat numBits pattern).toInt = pattern := by
  have hpow : 2 ^ numBits = 2 * 2 ^ (numBits - 1) := by
    rw [← pow_succ', Nat.sub_add_cancel hpos]
  rw [BitVec.toInt_eq_toNat_cond, BitVec.toNat_ofNat, Nat.mod_eq_of_lt (by omega), if_pos (by omega)]

lemma toInt_of_le {pattern : ℕ} (hpos : 0 < numBits) (h : 2 ^ (numBits - 1) ≤ pattern) (hlt : pattern < 2 ^ numBits) :
    (BitVec.ofNat numBits pattern).toInt = pattern - 2 ^ numBits := by
  have hpow : 2 ^ numBits = 2 * 2 ^ (numBits - 1) := by
    rw [← pow_succ', Nat.sub_add_cancel hpos]
  rw [BitVec.toInt_eq_toNat_cond, BitVec.toNat_ofNat, Nat.mod_eq_of_lt hlt, if_neg (by omega)]
  push_cast
  rfl

lemma or_ones {s shift : ℕ} (hs : s < 2 ^ shift) (hle : shift ≤ numBits) :
    s ||| (2 ^ numBits - 1) <<< shift % 2 ^ numBits = s + (2 ^ numBits - 2 ^ shift) := by
  obtain ⟨k, rfl⟩ := Nat.exists_eq_add_of_le hle
  have hpow : 2 ^ (shift + k) = 2 ^ k * 2 ^ shift := by rw [pow_add, mul_comm]
  have hk : 0 < 2 ^ k := Nat.two_pow_pos k
  have hones : (2 ^ (shift + k) - 1) <<< shift % 2 ^ (shift + k) = (2 ^ k - 1) * 2 ^ shift := by
    have hsplit : (2 ^ (shift + k) - 1) * 2 ^ shift = (2 ^ k - 1) * 2 ^ shift + 2 ^ (shift + k) * (2 ^ shift - 1) := by
      have hshift : 0 < 2 ^ shift := Nat.two_pow_pos shift
      zify [hk, hshift, (Nat.two_pow_pos (shift + k) : 1 ≤ 2 ^ (shift + k))]
      rw [pow_add]
      ring
    rw [Nat.shiftLeft_eq, hsplit, Nat.add_mul_mod_self_left, Nat.mod_eq_of_lt]
    simp [hpow]
  have hor := or_shiftLeft (2 ^ k - 1) hs
  rw [Nat.shiftLeft_eq] at hor
  rw [hones, hor, hpow, Nat.sub_mul, one_mul]

/-- A number of seven bits at the shift, extended by its sign. -/
lemma toInt_lastGroup {s shift byte : ℕ} (hs : s < 2 ^ shift) (hbyte : byte < 128) (hle : shift + 7 ≤ numBits) :
    (BitVec.ofNat numBits (if byte &&& 0x40 ≠ 0 then
        (s + byte * 2 ^ shift) ||| (2 ^ numBits - 1) <<< (shift + 7) % 2 ^ numBits
      else s + byte * 2 ^ shift)).toInt = s + (if byte < 64 then (byte : ℤ) else byte - 128) * 2 ^ shift := by
  have hsign : byte &&& 0x40 ≠ 0 ↔ 64 ≤ byte := by
    rw [Encoder.and_sign (by omega)]
    omega
  have hall := add_group_lt hs hbyte
  have hbig : 2 ^ (shift + 7) ≤ 2 ^ numBits := Nat.pow_le_pow_right Nat.two_pos hle
  have hhalf : 2 ^ numBits = 2 * 2 ^ (numBits - 1) := by
    rw [← pow_succ', Nat.sub_add_cancel (by omega)]
  have hseven := pow_shift shift
  by_cases hneg : 64 ≤ byte
  · have hmul : 64 * 2 ^ shift ≤ byte * 2 ^ shift := Nat.mul_le_mul_right _ hneg
    rw [if_pos (hsign.2 hneg), if_neg (by omega), or_ones hall hle, toInt_of_le (by omega) (by omega) (by omega)]
    push_cast [hbig]
    rw [show (2 : ℤ) ^ (shift + 7) = 128 * 2 ^ shift from by exact_mod_cast hseven]
    ring
  · have hmul : byte * 2 ^ shift ≤ 63 * 2 ^ shift := Nat.mul_le_mul_right _ (by omega)
    rw [if_neg (mt hsign.1 hneg), if_pos (by omega), toInt_of_lt (by omega) (by omega)]
    push_cast
    rfl

lemma lastByte_cases {byte bits : ℕ} (hbyte : byte < 128) (hbits : 0 < bits ∧ bits < 7) (h : UnusedSign bits byte) :
    (byte < 2 ^ (bits - 1) ∧ byte % 2 ^ bits = byte ∧ byte < 64) ∨
      (2 ^ (bits - 1) ≤ byte % 2 ^ bits ∧ byte % 2 ^ bits + 128 = byte + 2 ^ bits ∧ 64 ≤ byte) := by
  obtain ⟨hpos, hlt⟩ := hbits
  rw [UnusedSign] at h
  interval_cases bits <;> norm_num at h ⊢ <;> omega

/-- The last byte has only some bits of the number. -/
lemma toInt_lastByte {s shift byte : ℕ} (hs : s < 2 ^ shift) (hbyte : byte < 128) (hpos : shift < numBits)
    (hle : numBits < shift + 7) (hunused : UnusedSign (numBits - shift) byte) :
    (BitVec.ofNat numBits (s ||| byte <<< shift % 2 ^ numBits)).toInt =
      s + (if byte < 64 then (byte : ℤ) else byte - 128) * 2 ^ shift := by
  obtain ⟨bits, rfl⟩ := Nat.exists_eq_add_of_le hpos.le
  rw [Nat.add_sub_cancel_left] at hunused
  have hpow : 2 ^ (shift + bits) = 2 ^ bits * 2 ^ shift := by rw [pow_add, mul_comm]
  have hhalf : 2 ^ (shift + bits - 1) = 2 ^ (bits - 1) * 2 ^ shift := by
    rw [show shift + bits - 1 = bits - 1 + shift by omega, pow_add]
  have htwo : 2 ^ bits = 2 * 2 ^ (bits - 1) := by rw [← pow_succ', Nat.sub_add_cancel (by omega)]
  have hlow : byte <<< shift % 2 ^ (shift + bits) = byte % 2 ^ bits * 2 ^ shift := by
    rw [Nat.shiftLeft_eq, hpow, Nat.mul_mod_mul_right]
  have hor := or_shiftLeft (byte % 2 ^ bits) hs
  rw [Nat.shiftLeft_eq] at hor
  have hmod : byte % 2 ^ bits < 2 ^ bits := Nat.mod_lt _ (Nat.two_pow_pos bits)
  have hbits : 0 < bits ∧ bits < 7 := by omega
  rw [hlow, hor]
  obtain ⟨hsmall, hsame, hbyte'⟩ | ⟨hlarge, hsame, hbyte'⟩ := lastByte_cases hbyte hbits hunused
  · have hmul : (byte + 1) * 2 ^ shift ≤ 2 ^ (bits - 1) * 2 ^ shift := Nat.mul_le_mul_right _ hsmall
    rw [add_mul, one_mul] at hmul
    rw [hsame, if_pos hbyte', toInt_of_lt (by omega) (by omega)]
    push_cast
    rfl
  · have hmul : 2 ^ (bits - 1) * 2 ^ shift ≤ byte % 2 ^ bits * 2 ^ shift := Nat.mul_le_mul_right _ hlarge
    have hmul' : (byte % 2 ^ bits + 1) * 2 ^ shift ≤ 2 ^ bits * 2 ^ shift := Nat.mul_le_mul_right _ hmod
    rw [add_mul, one_mul] at hmul'
    rw [if_neg (by omega), toInt_of_le (by omega) (by omega) (by omega)]
    have hsame' : ((byte % 2 ^ bits : ℕ) : ℤ) = byte - 128 + 2 ^ bits := by
      rw [eq_sub_of_add_eq (by exact_mod_cast hsame : ((byte % 2 ^ bits : ℕ) : ℤ) + 128 = byte + 2 ^ bits)]
      ring
    rw [Nat.cast_add, Nat.cast_mul, hsame', pow_add]
    push_cast
    ring

lemma readVarSLoop_iff {s shift : ℕ} {n : ℤ} (hrem : 0 < numBits % 7) (hshift : shift % 7 = 0)
    (hle : shift + 7 + numBits % 7 ≤ numBits) (hs : s < 2 ^ shift) :
    d.readVarSLoop numBits s shift = some (n, d') ↔
      Encodes UnusedSign (fun enc => s + signedValue enc * 2 ^ shift) (numBits - shift) d n d' := by
  have hrem7 : numBits % 7 < 7 := Nat.mod_lt _ (by decide)
  generalize hbytes : d.remaining = bytes
  induction bytes generalizing d s shift with
  | nil =>
    rw [readVarSLoop, readFixedU8_of_nil hbytes]
    exact iff_of_false nofun (not_encodes_nil hbytes)
  | cons b bs ih =>
    obtain ⟨hread, hrest⟩ := readFixedU8_of_cons hbytes
    have hb256 : b.toNat < 256 := b.isLt
    have hmod : b.toNat % 128 < 2 ^ 7 := Nat.mod_lt _ (by decide)
    rw [readVarSLoop, hread]
    dsimp only
    rw [and_low, or_group hs (group_lt 7 hmod (by omega))]
    by_cases hb : b.toNat < 128
    · have hunused : UnusedSign (numBits - shift) b.toNat := by
        have hpow : 2 ^ 7 ≤ 2 ^ (numBits - shift - 1) := Nat.pow_le_pow_right Nat.two_pos (by omega)
        exact .inl (Nat.div_eq_of_lt (hb.trans_le hpow))
      rw [if_pos ((and_high hb256).2 hb), Nat.mod_eq_of_lt hb, toInt_lastGroup hs hb (by omega)]
      exact some_iff_encodes hbytes hb (by omega) hunused (by rw [signedValue_singleton hb])
    · have hu' := add_group_lt hs hmod
      have hvalue (enc : List Byte) (henc : IsEncoding enc) : s + signedValue (b :: enc) * 2 ^ shift =
          (s + b.toNat % 128 * 2 ^ shift : ℕ) + signedValue enc * 2 ^ (shift + 7) := by
        rw [signedValue_cons henc.ne_nil, pow_add]
        push_cast
        ring
      have hsevens : numBitsInSevens numBits = numBits - numBits % 7 := rfl
      rw [if_neg (mt (and_high hb256).1 hb), encodes_cons_iff hbytes (by omega), and_iff_right (by omega),
        encodes_congr hvalue, Nat.sub_sub]
      by_cases hmore : shift + 7 < numBitsInSevens numBits
      · rw [if_pos hmore]
        exact ih (show (shift + 7) % 7 = 0 by omega) (show shift + 7 + 7 + numBits % 7 ≤ numBits by omega) hu' hrest
      · have hwidth : numBits - (shift + 7) = numBits % 7 := by omega
        have hremainder : remainderBits numBits = numBits % 7 := rfl
        rw [if_neg hmore, hremainder, if_neg (by omega), hwidth]
        cases bs with
        | nil =>
          rw [readFixedU8_of_nil hrest]
          exact iff_of_false nofun (not_encodes_nil hrest)
        | cons c cs =>
          have hc256 : c.toNat < 256 := c.isLt
          rw [(readFixedU8_of_cons hrest).1]
          dsimp only
          by_cases hc : c.toNat < 128
          · rw [if_neg (not_not.2 ((and_high hc256).2 hc))]
            have hmask := and_mask hc hrem7 hrem
            rw [Nat.and_assoc] at hmask
            by_cases hunused : UnusedSign (numBits % 7) c.toNat
            · rw [if_neg (not_not.2 (hmask.2 hunused)), toInt_lastByte hu' hc (by omega) (by omega) (by rwa [hwidth])]
              exact some_iff_encodes hrest hc hrem hunused (by rw [signedValue_singleton hc])
            · rw [if_pos (mt hmask.1 hunused)]
              exact iff_of_false nofun fun henc => absurd ((encodes_last_iff hrest hc).1 henc).2.1 hunused
          · rw [if_pos (mt (and_high hc256).1 hc)]
            exact iff_of_false nofun (not_encodes_cons hrest (by omega) hrem7.le)

/-! ## The readers -/

lemma readVarU_iff {n : ℕ} (hrem : 0 < numBits % 7) (hle : 7 + numBits % 7 ≤ numBits) :
    d.readVarU numBits = some (n, d') ↔ Encodes UnusedZero value numBits d n d' := by
  have h : d.readVarULoop numBits 0 0 = some (n, d') ↔ _ :=
    readVarULoop_iff hrem (Nat.zero_mod 7) (by omega) (show 0 < 2 ^ 0 by decide)
  have hvalue : (fun enc => 0 + value enc * 2 ^ 0) = value := by
    funext enc
    simp
  rwa [hvalue, Nat.sub_zero] at h

lemma readVarS_iff {n : ℤ} (hrem : 0 < numBits % 7) (hle : 7 + numBits % 7 ≤ numBits) :
    d.readVarS numBits = some (n, d') ↔ Encodes UnusedSign signedValue numBits d n d' := by
  have h : d.readVarSLoop numBits 0 0 = some (n, d') ↔ _ :=
    readVarSLoop_iff hrem (Nat.zero_mod 7) (by omega) (show 0 < 2 ^ 0 by decide)
  have hvalue : (fun enc => ((0 : ℕ) : ℤ) + signedValue enc * 2 ^ 0) = signedValue := by
    funext enc
    simp
  rwa [hvalue, Nat.sub_zero] at h

/-- The unchecked reader does the same, as long as the checked one succeeds. -/
lemma uncheckedReadVarULoop_eq {u shift n groups : ℕ} (h : d.readVarULoop numBits u shift = some (n, d'))
    (hgroups : shift + 7 * groups = numBitsInSevens numBits) (hpos : 0 < groups) :
    d.uncheckedReadVarULoop numBits groups u shift = (n, d') := by
  induction groups generalizing d u shift with
  | zero => cases hpos
  | succ groups ih =>
    rw [readVarULoop] at h
    rw [uncheckedReadVarULoop]
    cases hbytes : d.remaining with
    | nil =>
      rw [readFixedU8_of_nil hbytes] at h
      cases h
    | cons b bs =>
      obtain ⟨hread, hrest⟩ := readFixedU8_of_cons hbytes
      have hmemory (d : Decoder) (byte : ℕ) (d' : Decoder) (hread : d.readFixedU8 = some (byte, d')) :
          byte = (d.memory d.cur).toNat ∧ d' = d.advance 1 := by
        rw [readFixedU8] at hread
        split_ifs at hread
        cases hread
        exact ⟨rfl, rfl⟩
      have hbyte := (hmemory d _ _ hread).1
      rw [hread] at h
      dsimp only at h ⊢
      rw [← hbyte]
      by_cases hlast : b.toNat &&& 0x80 = 0
      · rw [if_pos hlast] at h ⊢
        exact Option.some.inj h
      · rw [if_neg hlast] at h ⊢
        by_cases hmore : shift + 7 ≠ numBitsInSevens numBits
        · rw [if_pos hmore] at h ⊢
          exact ih h (by omega) (by omega)
        · rw [if_neg hmore] at h ⊢
          cases bs with
          | nil =>
            simp [readFixedU8_of_nil hrest] at h
          | cons c cs =>
            have hread' := (readFixedU8_of_cons hrest).1
            have hbyte' := (hmemory (d.advance 1) _ _ hread').1
            rw [hread'] at h
            dsimp only at h
            split_ifs at h
            rw [← hbyte']
            exact Option.some.inj h

lemma uncheckedReadVarU_eq {n : ℕ} (hle : 7 ≤ numBits) (h : d.readVarU numBits = some (n, d')) :
    d.uncheckedReadVarU numBits = (n, d') := by
  have hsevens : numBitsInSevens numBits = numBits - numBits % 7 := rfl
  exact uncheckedReadVarULoop_eq h (by omega) (by omega)

end Decoder

/-! ## What is written -/

namespace Encoder

lemma toNat_ofNat_of_lt {n : ℕ} (h : n < 256) : (BitVec.ofNat 8 n).toNat = n := by
  simp [h]

lemma value_more {i : ℕ} {enc : Bytes} (h : value enc = i / 2 ^ 7) :
    value (BitVec.ofNat 8 (i % 128 + 128) :: enc) = i := by
  rw [value, h, toNat_ofNat_of_lt (by omega)]
  omega

lemma value_last {i : ℕ} (h : i / 2 ^ 7 = 0) : value [BitVec.ofNat 8 (i % 128)] = i := by
  rw [value, value, toNat_ofNat_of_lt (by omega)]
  omega

lemma isUnsigned_more {bound w : ℕ} {enc : Bytes} (i : ℕ) (hbound : bound / 2 ^ 7 ≠ 0) (hlt : bound < 2 ^ w)
    (hfits : ∀ w, 0 < w → bound / 2 ^ 7 < 2 ^ w → IsUnsigned w enc) :
    IsUnsigned w (BitVec.ofNat 8 (i % 128 + 128) :: enc) := by
  have hwide : 7 < w := by
    by_contra hnot
    have hpow : 2 ^ w ≤ 2 ^ 7 := Nat.pow_le_pow_right Nat.two_pos (by omega)
    omega
  refine (fits_cons_iff (by rw [toNat_ofNat_of_lt] <;> omega)).2 ⟨hwide, hfits (w - 7) (by omega) ?_⟩
  rw [Nat.div_lt_iff_lt_mul (by decide), ← pow_add, Nat.sub_add_cancel hwide.le]
  exact hlt

lemma isUnsigned_last {i w : ℕ} (hw : 0 < w) (hlt : i % 128 < 2 ^ w) : IsUnsigned w [BitVec.ofNat 8 (i % 128)] := by
  have hbyte := toNat_ofNat_of_lt (show i % 128 < 256 by omega)
  refine fits_singleton_iff.2 ⟨hw, by omega, ?_⟩
  rwa [hbyte]

lemma writeVarU_eq (bytes : Bytes) (i : ℕ) : ∃ enc, writeVarU bytes i = bytes ++ enc ∧ value enc = i ∧
    ∀ w, 0 < w → i < 2 ^ w → IsUnsigned w enc := by
  induction i using Nat.strong_induction_on generalizing bytes with
  | h i ih =>
    rw [writeVarU, and_low, Nat.shiftRight_eq_div_pow]
    by_cases hmore : i / 2 ^ 7 ≠ 0
    · obtain ⟨enc, hwrite, hvalue, hfits⟩ := ih (i / 2 ^ 7) (by omega) (bytes ++ [BitVec.ofNat 8 (i % 128 + 128)])
      rw [if_pos hmore, if_pos hmore, or_high (Nat.mod_lt _ (by decide)), hwrite, append_assoc]
      exact ⟨_, rfl, value_more hvalue, fun w _ hlt => isUnsigned_more i hmore hlt hfits⟩
    · rw [if_neg hmore, if_neg hmore]
      exact ⟨_, rfl, value_last (not_not.1 hmore), fun w hw hlt => isUnsigned_last hw ((Nat.mod_le i 128).trans_lt hlt)⟩

/-- A small number has its sign in the bits that are not used. -/
lemma unusedSign_of_small {i : ℤ} {w : ℕ} (hsmall : -64 ≤ i ∧ i < 64) (hlow : -2 ^ (w - 1) ≤ i) (hhigh : i < 2 ^ (w - 1))
    (hw : 0 < w) : UnusedSign w (i % 0x80).toNat := by
  by_cases hwide : 8 ≤ w
  · have hpow : 2 ^ 7 ≤ 2 ^ (w - 1) := Nat.pow_le_pow_right Nat.two_pos (by omega)
    exact .inl (Nat.div_eq_of_lt (by omega))
  · rw [UnusedSign]
    interval_cases w <;> norm_num at hlow hhigh ⊢ <;> omega

lemma writeVarU_append (bytes : Bytes) (i : ℕ) : writeVarU bytes i = bytes ++ writeVarU [] i := by
  induction i using Nat.strong_induction_on generalizing bytes with
  | h i ih =>
    rw [writeVarU.eq_def bytes i, writeVarU.eq_def [] i, Nat.shiftRight_eq_div_pow]
    by_cases hmore : i / 2 ^ 7 ≠ 0
    · simp only [if_pos hmore]
      rw [ih (i / 2 ^ 7) (by omega), ih (i / 2 ^ 7) (by omega) ([] ++ _), nil_append, append_assoc]
    · simp only [if_neg hmore]
      rw [nil_append]

lemma length_writeVarU (bytes : Bytes) (i : ℕ) :
    (writeVarU bytes i).length = bytes.length + (writeVarU [] i).length := by
  rw [writeVarU_append, List.length_append]

lemma writeVarS_eq (bytes : Bytes) (i : ℤ) : ∃ enc, writeVarS bytes i = bytes ++ enc ∧ signedValue enc = i ∧
    enc ≠ [] ∧ ∀ w, 0 < w → -2 ^ (w - 1) ≤ i → i < 2 ^ (w - 1) → IsSigned w enc := by
  induction hn : i.natAbs using Nat.strong_induction_on generalizing bytes i with
  | h n ih =>
    have hshift : i >>> (7 : ℕ) = i / 128 := by
      rw [Int.shiftRight_eq_div_pow]
      rfl
    have hlow : (i % 0x80).toNat < 128 := by omega
    rw [writeVarS]
    by_cases hdone : varSDone (i >>> (7 : ℕ)) (i % 0x80).toNat = true
    · have hsmall := (varSDone_iff i).1 hdone
      have hbyte := toNat_ofNat_of_lt (show (i % 0x80).toNat < 256 by omega)
      rw [if_pos hdone, if_pos hdone]
      refine ⟨_, rfl, ?_, cons_ne_nil _ _, fun w hw hlow' hhigh => ?_⟩
      · rw [signedValue, hbyte, Nat.mod_eq_of_lt hlow]
        split_ifs <;> omega
      · refine fits_singleton_iff.2 ⟨hw, by omega, ?_⟩
        rw [hbyte]
        exact unusedSign_of_small hsmall hlow' hhigh hw
    · have hlarge := mt (varSDone_iff i).2 hdone
      rw [if_neg hdone, if_neg hdone, or_high hlow, hshift]
      obtain ⟨enc, hwrite, hvalue, hne, hfits⟩ := ih (i / 128).natAbs (by omega)
        (bytes ++ [BitVec.ofNat 8 ((i % 0x80).toNat + 128)]) (i / 128) rfl
      have hbyte := toNat_ofNat_of_lt (show (i % 0x80).toNat + 128 < 256 by omega)
      rw [hwrite, append_assoc, singleton_append]
      refine ⟨_, rfl, ?_, cons_ne_nil _ _, fun w hw hlow' hhigh => ?_⟩
      · rw [signedValue_cons hne, hvalue, hbyte]
        omega
      · have hwide : 7 < w := by
          by_contra hnot
          have hpow : (2 : ℤ) ^ (w - 1) ≤ 2 ^ 6 := pow_le_pow_right₀ (by decide) (by omega)
          omega
        have hpow : (2 : ℤ) ^ (w - 1) = 128 * 2 ^ (w - 7 - 1) := by
          simp [show w - 1 = 7 + (w - 7 - 1) by omega, pow_add]
        exact (fits_cons_iff (by rw [hbyte]; omega)).2 ⟨hwide, hfits (w - 7) (by omega) (by omega) (by omega)⟩

/-! ## Patching -/

lemma patchVarU32Loop_eq {patchBits assertBits : ℕ} (hle : patchBits ≤ assertBits) (before old after : Bytes)
    (hold : old.length = (writeVarU [] assertBits).length) :
    ∃ enc, patchVarU32Loop (before ++ (old ++ after)) before.length patchBits assertBits = before ++ (enc ++ after) ∧
      enc.length = old.length ∧ value enc = patchBits ∧ ∀ w, 0 < w → assertBits < 2 ^ w → IsUnsigned w enc := by
  induction assertBits using Nat.strong_induction_on generalizing patchBits before old with
  | h assertBits ih =>
    rw [patchVarU32Loop, and_low, Nat.shiftRight_eq_div_pow, Nat.shiftRight_eq_div_pow]
    rw [writeVarU, Nat.shiftRight_eq_div_pow] at hold
    have hset (byte : Byte) (c : Byte) (cs : Bytes) :
        (before ++ (c :: cs ++ after)).set before.length byte = before ++ (byte :: cs ++ after) := by
      simp
    split_ifs at hold with hmore
    · rw [length_writeVarU, nil_append, length_singleton] at hold
      rw [if_pos hmore, if_pos hmore, or_high (Nat.mod_lt _ (by decide))]
      obtain ⟨c, cs, rfl⟩ := exists_cons_of_length_pos (show 0 < old.length by omega)
      rw [length_cons] at hold
      obtain ⟨enc, hpatch, hlength, hvalue, hfits⟩ := ih (assertBits / 2 ^ 7) (by omega)
        (show patchBits / 2 ^ 7 ≤ assertBits / 2 ^ 7 from Nat.div_le_div_right hle)
        (before ++ [BitVec.ofNat 8 (patchBits % 128 + 128)]) cs (by omega)
      rw [List.length_append, length_singleton, append_assoc, append_assoc] at hpatch
      rw [hset]
      exact ⟨BitVec.ofNat 8 (patchBits % 128 + 128) :: enc, hpatch, congrArg (· + 1) hlength, value_more hvalue,
        fun w _ hlt => isUnsigned_more patchBits hmore hlt hfits⟩
    · rw [if_neg hmore, if_neg hmore]
      obtain ⟨c, rfl⟩ := length_eq_one_iff.1 hold
      exact ⟨[BitVec.ofNat 8 (patchBits % 128)], hset _ _ [], rfl, value_last (by omega),
        fun w hw hlt => isUnsigned_last hw (by omega)⟩

end Encoder

/-! ## Written and read -/

namespace Decoder

section Readers

variable {unused : ℕ → ℕ → Prop} {α : Type*} {value : List Byte → α} {w : ℕ} {read : Decoder → Option (α × Decoder)}

lemma Encodes.cur_le {d d' : Decoder} {n : α} (h : Encodes unused value w d n d') : d'.cur ≤ d.end_ := by
  obtain ⟨enc, rest, hremaining, hfits, -, rfl⟩ := h
  have hlength := congrArg List.length hremaining
  have hpos := length_pos_iff.2 hfits.encoding.ne_nil
  rw [length_remaining, List.length_append] at hlength
  change d.cur + enc.length ≤ d.end_
  omega

/-- The value and the number of bytes that are read depend on the remaining bytes only. -/
lemma read_congr (hread : ∀ d n d', read d = some (n, d') ↔ Encodes unused value w d n d') {d e : Decoder}
    (hsame : d.remaining = e.remaining) :
    (read d).map (fun r => (r.1, r.2.cur - d.cur)) = (read e).map fun r => (r.1, r.2.cur - e.cur) := by
  have hone (d e : Decoder) (hsame : d.remaining = e.remaining) (n : α) (count : ℕ)
      (h : (read d).map (fun r => (r.1, r.2.cur - d.cur)) = some (n, count)) :
      (read e).map (fun r => (r.1, r.2.cur - e.cur)) = some (n, count) := by
    obtain ⟨⟨n', d'⟩, hd, heq⟩ := Option.map_eq_some_iff.1 h
    obtain ⟨enc, rest, hremaining, hfits, hn, rfl⟩ := (hread d n' d').1 hd
    have he : read e = some (n', e.advance enc.length) :=
      (hread _ _ _).2 ⟨enc, rest, hsame.symm.trans hremaining, hfits, hn, rfl⟩
    cases heq
    rw [he]
    change some (n', e.cur + enc.length - e.cur) = some (n', d.cur + enc.length - d.cur)
    simp
  refine Option.ext fun ⟨n, count⟩ => ⟨fun h => hone d e hsame n count h, fun h => hone e d hsame.symm n count h⟩

end Readers

end Decoder

/-- The integers of a module have 32 or 64 bits. -/
inductive IntWidth
  | w32
  | w64

def IntWidth.bits : IntWidth → ℕ
  | .w32 => 32
  | .w64 => 64

namespace IntWidth

open Decoder

variable (width : IntWidth)

lemma readVarU_iff (d : Decoder) (n : ℕ) (d' : Decoder) :
    d.readVarU width.bits = some (n, d') ↔ Encodes UnusedZero value width.bits d n d' := by
  cases width <;> exact Decoder.readVarU_iff (by decide) (by decide)

lemma readVarS_iff (d : Decoder) (n : ℤ) (d' : Decoder) :
    d.readVarS width.bits = some (n, d') ↔ Encodes UnusedSign signedValue width.bits d n d' := by
  cases width <;> exact Decoder.readVarS_iff (by decide) (by decide)

lemma bits_pos : 0 < width.bits := by
  cases width <;> decide

/-- The bytes that are written for a value are read back as it, whatever is around them. -/
lemma readVarU_writeVarU (bytes : Bytes) {i : ℕ} (hi : i < 2 ^ width.bits) :
    ∃ enc, Encoder.writeVarU bytes i = bytes ++ enc ∧ ∀ (d : Decoder) (rest : Bytes), d.remaining = enc ++ rest →
      d.readVarU width.bits = some (i, d.advance enc.length) := by
  obtain ⟨enc, hwrite, hvalue, hfits⟩ := Encoder.writeVarU_eq bytes i
  exact ⟨enc, hwrite, fun d rest hremaining =>
    (width.readVarU_iff d i _).2 ⟨enc, rest, hremaining, hfits _ width.bits_pos hi, hvalue.symm, rfl⟩⟩

lemma readVarS_writeVarS (bytes : Bytes) {i : ℤ} (hlow : -2 ^ (width.bits - 1) ≤ i) (hhigh : i < 2 ^ (width.bits - 1)) :
    ∃ enc, Encoder.writeVarS bytes i = bytes ++ enc ∧ ∀ (d : Decoder) (rest : Bytes), d.remaining = enc ++ rest →
      d.readVarS width.bits = some (i, d.advance enc.length) := by
  obtain ⟨enc, hwrite, hvalue, -, hfits⟩ := Encoder.writeVarS_eq bytes i
  exact ⟨enc, hwrite, fun d rest hremaining =>
    (width.readVarS_iff d i _).2 ⟨enc, rest, hremaining, hfits _ width.bits_pos hlow hhigh, hvalue.symm, rfl⟩⟩

end IntWidth

/-- The number that is patched is read, and the other bytes stay where they are. -/
lemma readVarU_patchVarU32 (bytes more : Bytes) {v : ℕ} (hv : v < 2 ^ 32) :
    ∃ enc, Encoder.patchVarU32 ((Encoder.writePatchableVarU32 bytes).1 ++ more)
        (Encoder.writePatchableVarU32 bytes).2 v = bytes ++ enc ++ more ∧
      (Encoder.writePatchableVarU32 bytes).1.length = bytes.length + enc.length ∧
      ∀ (d : Decoder) (rest : Bytes), d.remaining = enc ++ rest → d.readVarU 32 = some (v, d.advance enc.length) := by
  obtain ⟨enc, hpatch, hlength, hvalue, hfits⟩ := Encoder.patchVarU32Loop_eq (Nat.le_sub_one_of_lt hv) bytes
    (Encoder.writeVarU [] (2 ^ 32 - 1)) more rfl
  refine ⟨enc, ?_, ?_, fun d rest hremaining => (IntWidth.w32.readVarU_iff d v _).2
    ⟨enc, rest, hremaining, hfits 32 (by decide) (by decide), hvalue.symm, rfl⟩⟩
  · rw [Encoder.writePatchableVarU32, Encoder.writeVarU_append, append_assoc, append_assoc]
    exact hpatch
  · rw [Encoder.writePatchableVarU32, hlength]
    exact Encoder.length_writeVarU bytes _

open Decoder in
/-- Integers of 32 and 64 bits are read back as they were written, and what is read is exactly LEB128: at most as many
bytes as the width needs, with the unused bits of the last one zero or copies of the sign.  Nothing at the end or after
it is looked at, the unchecked readers do the same, and a patchable integer may be replaced. -/
theorem varInts_areLeb128 (width : IntWidth) :
    (∀ (bytes : Bytes) (i : ℕ), i < 2 ^ width.bits → ∃ enc, Encoder.writeVarU bytes i = bytes ++ enc ∧
      ∀ (d : Decoder) (rest : Bytes), d.remaining = enc ++ rest →
        d.readVarU width.bits = some (i, d.advance enc.length)) ∧
    (∀ (bytes : Bytes) (i : ℤ), -2 ^ (width.bits - 1) ≤ i → i < 2 ^ (width.bits - 1) →
      ∃ enc, Encoder.writeVarS bytes i = bytes ++ enc ∧ ∀ (d : Decoder) (rest : Bytes), d.remaining = enc ++ rest →
        d.readVarS width.bits = some (i, d.advance enc.length)) ∧
    (∀ (d : Decoder) (n : ℕ) (d' : Decoder), d.readVarU width.bits = some (n, d') ↔
      ∃ enc rest, d.remaining = enc ++ rest ∧ IsUnsigned width.bits enc ∧ n = value enc ∧ d' = d.advance enc.length) ∧
    (∀ (d : Decoder) (n : ℤ) (d' : Decoder), d.readVarS width.bits = some (n, d') ↔
      ∃ enc rest, d.remaining = enc ++ rest ∧ IsSigned width.bits enc ∧ n = signedValue enc ∧
        d' = d.advance enc.length) ∧
    (∀ d e : Decoder, d.remaining = e.remaining → (d.readVarU width.bits).map (fun r => (r.1, r.2.cur - d.cur)) =
          (e.readVarU width.bits).map (fun r => (r.1, r.2.cur - e.cur)) ∧
        (d.readVarS width.bits).map (fun r => (r.1, r.2.cur - d.cur)) =
          (e.readVarS width.bits).map fun r => (r.1, r.2.cur - e.cur)) ∧
    (∀ (d : Decoder) (n : ℕ) (d' : Decoder), d.readVarU width.bits = some (n, d') →
      d'.cur ≤ d.end_ ∧ d.uncheckedReadVarU width.bits = (n, d')) ∧
    (∀ (d : Decoder) (n : ℤ) (d' : Decoder), d.readVarS width.bits = some (n, d') →
      d'.cur ≤ d.end_ ∧ d.uncheckedReadVarS width.bits = (n, d')) ∧
    ∀ (bytes more : Bytes) (v : ℕ), v < 2 ^ 32 →
      ∃ enc, Encoder.patchVarU32 ((Encoder.writePatchableVarU32 bytes).1 ++ more)
          (Encoder.writePatchableVarU32 bytes).2 v = bytes ++ enc ++ more ∧
        (Encoder.writePatchableVarU32 bytes).1.length = bytes.length + enc.length ∧
        ∀ (d : Decoder) (rest : Bytes), d.remaining = enc ++ rest → d.readVarU 32 = some (v, d.advance enc.length) := by
  refine ⟨fun bytes i hi => width.readVarU_writeVarU bytes hi,
    fun bytes i hlow hhigh => width.readVarS_writeVarS bytes hlow hhigh, width.readVarU_iff, width.readVarS_iff,
    fun d e hsame => ⟨read_congr width.readVarU_iff hsame, read_congr width.readVarS_iff hsame⟩,
    fun d n d' h => ⟨((width.readVarU_iff d n d').1 h).cur_le, ?_⟩,
    fun d n d' h => ⟨((width.readVarS_iff d n d').1 h).cur_le, ?_⟩,
    fun bytes more v hv => readVarU_patchVarU32 bytes more hv⟩
  · exact uncheckedReadVarU_eq (by cases width <;> decide) h
  · rw [uncheckedReadVarS, h]
    rfl

/-- The sign of a negative number is in the last byte, the fifth one if need be. -/
theorem varInts_areLeb128_minInt32 :
    ({ memory := fun i => ([0x80, 0x80, 0x80, 0x80, 0x78].getD i 0), end_ := 5, cur := 0 } : Decoder).readVarS 32 =
      some (-2 ^ 31, Decoder.advance
        { memory := fun i => ([0x80, 0x80, 0x80, 0x80, 0x78].getD i 0), end_ := 5, cur := 0 } 5) := by
  obtain ⟨enc, hwrite, hread⟩ := (varInts_areLeb128 .w32).2.1 [] (-2 ^ 31) (by decide) (by decide)
  have henc : [0x80, 0x80, 0x80, 0x80, 0x78] = enc := .trans (by decide +kernel) hwrite
  subst henc
  exact hread _ [] (by decide)

end SpiderMonkey.Wasm

import SpiderMonkey.Lib.LittleEndian

/-!
# LEB128

Numbers in groups of seven bits, least significant group first; all bytes but the last one have their high bit set.
An encoding of a number with `w` bits is not longer than it has to be for `w` bits, although it may be longer than it
has to be for the number, and the bits of its last byte that are not used are zero, or copies of the sign.
-/

namespace Leb128

open List
open LittleEndian (Byte)

/-- The high bit tells whether there is another byte. -/
inductive IsEncoding : List Byte → Prop
  | last {b : Byte} (h : b.toNat < 128) : IsEncoding [b]
  | cons {b : Byte} {bs : List Byte} (h : 128 ≤ b.toNat) (hbs : IsEncoding bs) : IsEncoding (b :: bs)

/-- The groups as an unsigned number. -/
def value : List Byte → ℕ
  | [] => 0
  | b :: bs => b.toNat % 128 + 128 * value bs

/-- The groups as a signed number: the highest bit of the last group is the sign. -/
def signedValue : List Byte → ℤ
  | [] => 0
  | [b] => if b.toNat % 128 < 64 then (b.toNat % 128 : ℕ) else (b.toNat % 128 : ℕ) - 128
  | b :: bs => (b.toNat % 128 : ℕ) + 128 * signedValue bs

/-- How many bits of the last byte are used. -/
def usedBits (w : ℕ) (bytes : List Byte) : ℕ := w - 7 * (bytes.length - 1)

/-- An encoding of a number with `w` bits, with a condition on the last byte and on how many of its bits are used. -/
structure Fits (unused : ℕ → ℕ → Prop) (w : ℕ) (bytes : List Byte) : Prop where
  encoding : IsEncoding bytes
  length_le : bytes.length ≤ (w + 6) / 7
  unused : ∀ b, bytes.getLast? = some b → unused (usedBits w bytes) b.toNat

def UnusedZero (used b : ℕ) : Prop := b < 2 ^ used

def UnusedSign (used b : ℕ) : Prop := b / 2 ^ (used - 1) = 0 ∨ b / 2 ^ (used - 1) = 2 ^ (8 - used) - 1

/-- An encoding of an unsigned number with `w` bits. -/
abbrev IsUnsigned (w : ℕ) (bytes : List Byte) : Prop := Fits UnusedZero w bytes

/-- An encoding of a signed number with `w` bits. -/
abbrev IsSigned (w : ℕ) (bytes : List Byte) : Prop := Fits UnusedSign w bytes

variable {unused : ℕ → ℕ → Prop} {w : ℕ} {b : Byte} {bs bytes : List Byte}

lemma IsEncoding.ne_nil (h : IsEncoding bytes) : bytes ≠ [] := by
  cases h <;> exact cons_ne_nil _ _

/-- Encodings do not begin with one another. -/
lemma IsEncoding.eq_of_append (h : IsEncoding bytes) {bytes' rest rest' : List Byte} (h' : IsEncoding bytes')
    (heq : bytes ++ rest = bytes' ++ rest') : bytes = bytes' ∧ rest = rest' := by
  induction h generalizing bytes' with
  | @last b hb =>
    cases h' with
    | last hb' =>
      obtain ⟨rfl, hrest⟩ := List.cons.inj heq
      exact ⟨rfl, hrest⟩
    | cons hb' _ =>
      cases heq
      omega
  | @cons b bs hb hbs ih =>
    cases h' with
    | last hb' =>
      cases heq
      omega
    | cons hb' hbs' =>
      obtain ⟨rfl, hrest⟩ := List.cons.inj heq
      obtain ⟨rfl, hrest'⟩ := ih hbs' hrest
      exact ⟨rfl, hrest'⟩

/-! ## One byte and the rest -/

lemma fits_singleton_iff : Fits unused w [b] ↔ 0 < w ∧ b.toNat < 128 ∧ unused w b.toNat := by
  constructor
  · intro h
    have hlength : 1 ≤ (w + 6) / 7 := h.length_le
    have hb := h.unused b rfl
    cases h.encoding with
    | last hlast => exact ⟨by omega, hlast, hb⟩
    | cons _ hnil => exact absurd rfl hnil.ne_nil
  · rintro ⟨hw, hlast, hb⟩
    refine ⟨.last hlast, show 1 ≤ (w + 6) / 7 by omega, fun c hc => ?_⟩
    cases hc
    exact hb

lemma usedBits_cons (hbs : bs ≠ []) : usedBits w (b :: bs) = usedBits (w - 7) bs := by
  have hlength := length_pos_iff.2 hbs
  rw [usedBits, usedBits, length_cons]
  omega

lemma fits_cons_iff (hb : 128 ≤ b.toNat) : Fits unused w (b :: bs) ↔ 7 < w ∧ Fits unused (w - 7) bs := by
  constructor
  · intro h
    have hlength := h.length_le
    have hunused := h.unused
    cases h.encoding with
    | last hlast => omega
    | cons _ hbs =>
      have hpos := length_pos_iff.2 hbs.ne_nil
      rw [length_cons] at hlength
      rw [usedBits_cons hbs.ne_nil] at hunused
      refine ⟨by omega, hbs, by omega, fun c hc => hunused c ?_⟩
      rw [getLast?_cons, hc]
      rfl
  · rintro ⟨hw, h⟩
    have hlength := h.length_le
    refine ⟨.cons hb h.encoding, by rw [length_cons]; omega, fun c hc => ?_⟩
    rw [usedBits_cons h.encoding.ne_nil]
    refine h.unused c ?_
    obtain ⟨d, hd⟩ := Option.isSome_iff_exists.1 (getLast?_isSome.2 h.encoding.ne_nil)
    rw [getLast?_cons, hd] at hc
    rw [hd]
    exact hc

lemma signedValue_cons (hbs : bs ≠ []) : signedValue (b :: bs) = (b.toNat % 128 : ℕ) + 128 * signedValue bs := by
  cases bs with
  | nil => exact absurd rfl hbs
  | cons c cs => rfl

end Leb128

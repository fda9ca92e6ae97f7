import Mathlib.Data.List.Basic

/-!
# UTF-8 and UTF-16

Code points, their encodings in bytes and in units of 16 bits, and the table of well-formed byte sequences.
-/

namespace Utf

open List

def IsSurrogate (c : ℕ) : Prop := 0xD800 ≤ c ∧ c ≤ 0xDFFF

def IsCodePoint (c : ℕ) : Prop := c ≤ 0x10FFFF

/-- A code point that is not a surrogate. -/
def IsScalar (c : ℕ) : Prop := IsCodePoint c ∧ ¬ IsSurrogate c

instance (c : ℕ) : Decidable (IsSurrogate c) := inferInstanceAs (Decidable (_ ∧ _))

instance (c : ℕ) : Decidable (IsScalar c) := inferInstanceAs (Decidable (_ ≤ _ ∧ ¬ _))

/-- A byte that is not the first one of a character. -/
def IsTail (b : ℕ) : Prop := 0x80 ≤ b ∧ b < 0xC0

instance (b : ℕ) : Decidable (IsTail b) := inferInstanceAs (Decidable (_ ∧ _))

def utf8 (c : ℕ) : List ℕ :=
  if c < 0x80 then [c]
  else if c < 0x800 then [0xC0 + c / 64, 0x80 + c % 64]
  else if c < 0x10000 then [0xE0 + c / 4096, 0x80 + c / 64 % 64, 0x80 + c % 64]
  else [0xF0 + c / 262144, 0x80 + c / 4096 % 64, 0x80 + c / 64 % 64, 0x80 + c % 64]

def utf16 (c : ℕ) : List ℕ :=
  if c < 0x10000 then [c] else [0xD800 + (c - 0x10000) / 1024, 0xDC00 + (c - 0x10000) % 1024]

/-- The scalars of a sequence of units, with U+FFFD for a surrogate that is not in a pair. -/
def lossyScalars : List ℕ → List ℕ
  | [] => []
  | [u] => [if IsSurrogate u then 0xFFFD else u]
  | u :: u' :: rest =>
    if (0xD800 ≤ u ∧ u ≤ 0xDBFF) ∧ 0xDC00 ≤ u' ∧ u' ≤ 0xDFFF then
      (0x10000 + (u - 0xD800) * 1024 + (u' - 0xDC00)) :: lossyScalars rest
    else (if IsSurrogate u then 0xFFFD else u) :: lossyScalars (u' :: rest)

variable {c d : ℕ} {rest rest' : List ℕ}

/-! ## Encodings in bytes -/

lemma utf8_cases (hc : IsCodePoint c) : (c < 0x80 ∧ utf8 c = [c]) ∨
      (0x80 ≤ c ∧ c < 0x800 ∧ utf8 c = [0xC0 + c / 64, 0x80 + c % 64]) ∨
      (0x800 ≤ c ∧ c < 0x10000 ∧ utf8 c = [0xE0 + c / 4096, 0x80 + c / 64 % 64, 0x80 + c % 64]) ∨
      (0x10000 ≤ c ∧ c ≤ 0x10FFFF ∧
        utf8 c = [0xF0 + c / 262144, 0x80 + c / 4096 % 64, 0x80 + c / 64 % 64, 0x80 + c % 64]) := by
  by_cases h1 : c < 0x80
  · exact .inl ⟨h1, if_pos h1⟩
  by_cases h2 : c < 0x800
  · exact .inr (.inl ⟨by omega, h2, (if_neg h1).trans (if_pos h2)⟩)
  by_cases h3 : c < 0x10000
  · exact .inr (.inr (.inl ⟨by omega, h3, ((if_neg h1).trans (if_neg h2)).trans (if_pos h3)⟩))
  · exact .inr (.inr (.inr ⟨by omega, hc, ((if_neg h1).trans (if_neg h2)).trans (if_neg h3)⟩))

lemma utf8_eq_cons (hc : IsCodePoint c) :
    ∃ first tails, utf8 c = first :: tails ∧ ¬ IsTail first ∧ first < 256 ∧ ∀ b ∈ tails, IsTail b := by
  obtain ⟨h, heq⟩ | ⟨h, h', heq⟩ | ⟨h, h', heq⟩ | ⟨h, h', heq⟩ := utf8_cases hc
  · exact ⟨c, [], heq, fun htail => by have hle := htail.1; omega, by omega, nofun⟩
  · refine ⟨_, _, heq, fun htail => by have hlt := htail.2; omega, by omega, fun b hb => ?_⟩
    obtain rfl := mem_singleton.1 hb
    exact ⟨by omega, by omega⟩
  · refine ⟨_, _, heq, fun htail => by have hlt := htail.2; omega, by omega, fun b hb => ?_⟩
    obtain rfl | hb := mem_cons.1 hb
    · exact ⟨by omega, by omega⟩
    obtain rfl := mem_singleton.1 hb
    exact ⟨by omega, by omega⟩
  · refine ⟨_, _, heq, fun htail => by have hlt := htail.2; omega, by omega, fun b hb => ?_⟩
    obtain rfl | hb := mem_cons.1 hb
    · exact ⟨by omega, by omega⟩
    obtain rfl | hb := mem_cons.1 hb
    · exact ⟨by omega, by omega⟩
    obtain rfl := mem_singleton.1 hb
    exact ⟨by omega, by omega⟩

lemma length_utf8_pos (c : ℕ) : 0 < (utf8 c).length := by
  rw [utf8]
  split_ifs <;> exact Nat.succ_pos _

/-- Encodings do not begin with one another. -/
lemma utf8_append_inj (hc : IsCodePoint c) (hd : IsCodePoint d) (h : utf8 c ++ rest = utf8 d ++ rest') : c = d := by
  obtain ⟨hc, heq⟩ | ⟨hc, hc', heq⟩ | ⟨hc, hc', heq⟩ | ⟨hc, hc', heq⟩ := utf8_cases hc <;>
  obtain ⟨hd, heq'⟩ | ⟨hd, hd', heq'⟩ | ⟨hd, hd', heq'⟩ | ⟨hd, hd', heq'⟩ := utf8_cases hd <;>
  · rw [heq, heq'] at h
    simp only [cons_append, cons.injEq] at h
    omega

/-! ## The table of well-formed sequences -/

/-- The bytes of one character, by the ranges of its bytes. -/
inductive Table37 : List ℕ → Prop
  | row1 {a : ℕ} (ha : a ≤ 0x7F) : Table37 [a]
  | row2 {a b : ℕ} (ha : 0xC2 ≤ a ∧ a ≤ 0xDF) (hb : 0x80 ≤ b ∧ b ≤ 0xBF) : Table37 [a, b]
  | row3 {b c : ℕ} (hb : 0xA0 ≤ b ∧ b ≤ 0xBF) (hc : 0x80 ≤ c ∧ c ≤ 0xBF) : Table37 [0xE0, b, c]
  | row4 {a b c : ℕ} (ha : 0xE1 ≤ a ∧ a ≤ 0xEC) (hb : 0x80 ≤ b ∧ b ≤ 0xBF) (hc : 0x80 ≤ c ∧ c ≤ 0xBF) :
      Table37 [a, b, c]
  | row5 {b c : ℕ} (hb : 0x80 ≤ b ∧ b ≤ 0x9F) (hc : 0x80 ≤ c ∧ c ≤ 0xBF) : Table37 [0xED, b, c]
  | row6 {a b c : ℕ} (ha : 0xEE ≤ a ∧ a ≤ 0xEF) (hb : 0x80 ≤ b ∧ b ≤ 0xBF) (hc : 0x80 ≤ c ∧ c ≤ 0xBF) :
      Table37 [a, b, c]
  | row7 {b c d : ℕ} (hb : 0x90 ≤ b ∧ b ≤ 0xBF) (hc : 0x80 ≤ c ∧ c ≤ 0xBF) (hd : 0x80 ≤ d ∧ d ≤ 0xBF) :
      Table37 [0xF0, b, c, d]
  | row8 {a b c d : ℕ} (ha : 0xF1 ≤ a ∧ a ≤ 0xF3) (hb : 0x80 ≤ b ∧ b ≤ 0xBF) (hc : 0x80 ≤ c ∧ c ≤ 0xBF)
      (hd : 0x80 ≤ d ∧ d ≤ 0xBF) : Table37 [a, b, c, d]
  | row9 {b c d : ℕ} (hb : 0x80 ≤ b ∧ b ≤ 0x8F) (hc : 0x80 ≤ c ∧ c ≤ 0xBF) (hd : 0x80 ≤ d ∧ d ≤ 0xBF) :
      Table37 [0xF4, b, c, d]

lemma utf8_two {a b : ℕ} (h : 0x80 ≤ (a - 0xC0) * 64 + (b - 0x80)) (ha : 0xC0 ≤ a ∧ a < 0xE0) (hb : IsTail b) :
    utf8 ((a - 0xC0) * 64 + (b - 0x80)) = [a, b] := by
  obtain ⟨hb, hb'⟩ := hb
  rw [utf8, if_neg (by omega), if_pos (by omega)]
  simp only [cons.injEq, and_true]
  omega

lemma utf8_three {a b c : ℕ} (h : 0x800 ≤ (a - 0xE0) * 4096 + (b - 0x80) * 64 + (c - 0x80)) (ha : 0xE0 ≤ a ∧ a < 0xF0)
    (hb : IsTail b) (hc : IsTail c) : utf8 ((a - 0xE0) * 4096 + (b - 0x80) * 64 + (c - 0x80)) = [a, b, c] := by
  obtain ⟨hb, hb'⟩ := hb
  obtain ⟨hc, hc'⟩ := hc
  rw [utf8, if_neg (by omega), if_neg (by omega), if_pos (by omega)]
  simp only [cons.injEq, and_true]
  omega

lemma utf8_four {a b c d : ℕ} (h : 0x10000 ≤ (a - 0xF0) * 262144 + (b - 0x80) * 4096 + (c - 0x80) * 64 + (d - 0x80))
    (ha : 0xF0 ≤ a ∧ a < 0xF8) (hb : IsTail b) (hc : IsTail c) (hd : IsTail d) :
    utf8 ((a - 0xF0) * 262144 + (b - 0x80) * 4096 + (c - 0x80) * 64 + (d - 0x80)) = [a, b, c, d] := by
  obtain ⟨hb, hb'⟩ := hb
  obtain ⟨hc, hc'⟩ := hc
  obtain ⟨hd, hd'⟩ := hd
  rw [utf8, if_neg (by omega), if_neg (by omega), if_neg (by omega)]
  simp only [cons.injEq, and_true]
  omega

/-- The rows of the table are the encodings of the scalars. -/
theorem table37_iff (bytes : List ℕ) : Table37 bytes ↔ ∃ c, IsScalar c ∧ bytes = utf8 c := by
  constructor
  · intro h
    cases h with
    | @row1 a ha =>
      exact ⟨a, ⟨show a ≤ 0x10FFFF by omega, fun hsur => by have hle := hsur.1; omega⟩, (if_pos (by omega)).symm⟩
    | @row2 a b ha hb =>
      refine ⟨_, ⟨?_, fun hsur => ?_⟩, (utf8_two (by omega) (by omega) ⟨hb.1, by omega⟩).symm⟩
      · exact show _ ≤ 0x10FFFF by omega
      · have hle := hsur.1
        omega
    | @row3 b c hb hc =>
      refine ⟨_, ⟨?_, fun hsur => ?_⟩, (utf8_three (by omega) (by omega) ⟨by omega, by omega⟩ ⟨hc.1, by omega⟩).symm⟩
      · exact show _ ≤ 0x10FFFF by omega
      · have hle := hsur.1
        omega
    | @row4 a b c ha hb hc =>
      refine ⟨_, ⟨?_, fun hsur => ?_⟩, (utf8_three (by omega) (by omega) ⟨hb.1, by omega⟩ ⟨hc.1, by omega⟩).symm⟩
      · exact show _ ≤ 0x10FFFF by omega
      · have hle := hsur.1
        omega
    | @row5 b c hb hc =>
      refine ⟨_, ⟨?_, fun hsur => ?_⟩, (utf8_three (by omega) (by omega) ⟨hb.1, by omega⟩ ⟨hc.1, by omega⟩).symm⟩
      · exact show _ ≤ 0x10FFFF by omega
      · have hle := hsur.1
        omega
    | @row6 a b c ha hb hc =>
      refine ⟨_, ⟨?_, fun hsur => ?_⟩, (utf8_three (by omega) (by omega) ⟨hb.1, by omega⟩ ⟨hc.1, by omega⟩).symm⟩
      · exact show _ ≤ 0x10FFFF by omega
      · have hle := hsur.2
        omega
    | @row7 b c d hb hc hd =>
      refine ⟨_, ⟨?_, fun hsur => ?_⟩,
        (utf8_four (by omega) (by omega) ⟨by omega, by omega⟩ ⟨hc.1, by omega⟩ ⟨hd.1, by omega⟩).symm⟩
      · exact show _ ≤ 0x10FFFF by omega
      · have hle := hsur.2
        omega
    | @row8 a b c d ha hb hc hd =>
      refine ⟨_, ⟨?_, fun hsur => ?_⟩,
        (utf8_four (by omega) (by omega) ⟨hb.1, by omega⟩ ⟨hc.1, by omega⟩ ⟨hd.1, by omega⟩).symm⟩
      · exact show _ ≤ 0x10FFFF by omega
      · have hle := hsur.2
        omega
    | @row9 b c d hb hc hd =>
      refine ⟨_, ⟨?_, fun hsur => ?_⟩,
        (utf8_four (by omega) (by omega) ⟨hb.1, by omega⟩ ⟨hc.1, by omega⟩ ⟨hd.1, by omega⟩).symm⟩
      · exact show _ ≤ 0x10FFFF by omega
      · have hle := hsur.2
        omega
  · rintro ⟨c, ⟨hc, hscalar⟩, rfl⟩
    obtain ⟨h, heq⟩ | ⟨h, h', heq⟩ | ⟨h, h', heq⟩ | ⟨h, h', heq⟩ := utf8_cases hc <;> rw [heq]
    · exact .row1 (by omega)
    · exact .row2 (by omega) (by omega)
    · have hsur : c < 0xD800 ∨ 0xDFFF < c := by
        by_contra hnot
        exact hscalar ⟨by omega, by omega⟩
      by_cases h0 : c < 0x1000
      · rw [show 0xE0 + c / 4096 = 0xE0 by omega]
        exact .row3 (by omega) (by omega)
      by_cases h1 : c < 0xD000
      · exact .row4 (by omega) (by omega) (by omega)
      by_cases h2 : c < 0xE000
      · rw [show 0xE0 + c / 4096 = 0xED by omega]
        exact .row5 (by omega) (by omega)
      · exact .row6 (by omega) (by omega) (by omega)
    · by_cases h0 : c < 0x40000
      · rw [show 0xF0 + c / 262144 = 0xF0 by omega]
        exact .row7 (by omega) (by omega) (by omega)
      by_cases h1 : c < 0x100000
      · exact .row8 (by omega) (by omega) (by omega) (by omega)
      · rw [show 0xF0 + c / 262144 = 0xF4 by omega]
        exact .row9 (by omega) (by omega) (by omega)

end Utf

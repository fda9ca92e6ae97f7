import SpiderMonkey.Vm.CharacterEncoding

/-!
# What is decoded at an index

What one round of the loop finds at an index, in terms of the bytes from there on: a character whose encoding they begin
with, an invalid character and how many bytes of it are given up, or a read past the end.
-/

namespace SpiderMonkey.CharacterEncoding

open Utf List Nat

/-- The code points whose encodings are accepted. -/
def Accepted (kind : InputChars) (c : ℕ) : Prop := IsCodePoint c ∧ (kind = .utf8Chars → ¬ IsSurrogate c)

/-- No accepted character begins here. -/
def Malformed (kind : InputChars) (bytes : List ℕ) : Prop :=
  ∀ c after, Accepted kind c → bytes ≠ utf8 c ++ after

/-- A leading byte for a character of so many bytes, two, three or four. -/
def IsLead (v n : ℕ) : Prop :=
  (n = 2 ∧ 0xC0 ≤ v ∧ v < 0xE0) ∨ (n = 3 ∧ 0xE0 ≤ v ∧ v < 0xF0) ∨ (n = 4 ∧ 0xF0 ≤ v ∧ v < 0xF8)

/-- The second byte, where there is one, is not ruled out. -/
def SecondPasses (kind : InputChars) (v : ℕ) (rest : List ℕ) : Prop :=
  ∀ second ∈ rest.head?, rejectsSecond kind v second = false

/-- The source ends inside a character, at an index so high that the check of the length wraps around. -/
def OverrunsAt (kind : InputChars) (before : List ℕ) (v : ℕ) (rest : List ℕ) : Prop :=
  ∃ n, IsLead v n ∧ 2 ^ 32 ≤ before.length + n ∧ (∀ b ∈ rest, IsTail b) ∧ SecondPasses kind v rest

/-- A character breaks off after at least one tail, before its last byte. -/
def InterruptedAt (kind : InputChars) (before : List ℕ) (v : ℕ) (rest : List ℕ) : Prop :=
  ∃ n tails next after, IsLead v n ∧ uint32 (before.length + n) ≤ (before ++ v :: rest).length ∧
    rest = tails ++ next :: after ∧ tails ≠ [] ∧ tails.length + 1 < n ∧ (∀ b ∈ tails, IsTail b) ∧ ¬ IsTail next ∧
    SecondPasses kind v rest

variable {kind : InputChars} {before rest after src tails : List ℕ} {v n b c i : ℕ}

/-! ## Bits of a byte -/

lemma byte_masks : ∀ v : Fin 256, (v.val &&& 0x80 = 0 ↔ v.val < 0x80) ∧ (v.val &&& 0xC0 ≠ 0x80 ↔ ¬ IsTail v.val) ∧
    (v.val &&& 0xE0 = 0xA0 ↔ 0xA0 ≤ v.val ∧ v.val ≤ 0xBF) ∧
    (v.val &&& 0xE0 = 0x80 ↔ 0x80 ≤ v.val ∧ v.val ≤ 0x9F) ∧
    (v.val &&& 0xF0 = 0x80 ↔ 0x80 ≤ v.val ∧ v.val ≤ 0x8F) ∧
    (IsTail v.val → v.val &&& 0x3F = v.val - 0x80) ∧
    (0xC0 ≤ v.val → v.val < 0xE0 → announced v.val = 2 ∧ v.val &&& 0x1F = v.val - 0xC0) ∧
    (0xE0 ≤ v.val → v.val < 0xF0 → announced v.val = 3 ∧ v.val &&& 0xF = v.val - 0xE0) ∧
    (0xF0 ≤ v.val → v.val < 0xF8 → announced v.val = 4 ∧ v.val &&& 0x7 = v.val - 0xF0) ∧
    (0x80 ≤ v.val → v.val < 0xC0 ∨ 0xF8 ≤ v.val → announced v.val < 2 ∨ announced v.val > 4) := by
  decide +kernel

lemma and_80 (hv : v < 256) : v &&& 0x80 = 0 ↔ v < 0x80 := (byte_masks ⟨v, hv⟩).1

lemma and_C0 (hv : v < 256) : v &&& 0xC0 ≠ 0x80 ↔ ¬ IsTail v := (byte_masks ⟨v, hv⟩).2.1

lemma and_E0_A0 (hv : v < 256) : v &&& 0xE0 = 0xA0 ↔ 0xA0 ≤ v ∧ v ≤ 0xBF := (byte_masks ⟨v, hv⟩).2.2.1

lemma and_E0_80 (hv : v < 256) : v &&& 0xE0 = 0x80 ↔ 0x80 ≤ v ∧ v ≤ 0x9F := (byte_masks ⟨v, hv⟩).2.2.2.1

lemma and_F0_80 (hv : v < 256) : v &&& 0xF0 = 0x80 ↔ 0x80 ≤ v ∧ v ≤ 0x8F := (byte_masks ⟨v, hv⟩).2.2.2.2.1

lemma announced_lead (h : IsLead v n) : announced v = n := by
  obtain ⟨rfl, h, h'⟩ | ⟨rfl, h, h'⟩ | ⟨rfl, h, h'⟩ := h
  · exact ((byte_masks ⟨v, by omega⟩).2.2.2.2.2.2.1 h h').1
  · exact ((byte_masks ⟨v, by omega⟩).2.2.2.2.2.2.2.1 h h').1
  · exact ((byte_masks ⟨v, by omega⟩).2.2.2.2.2.2.2.2.1 h h').1

lemma announced_other (hv : v < 256) (h : 0x80 ≤ v) (hno : ∀ n, ¬ IsLead v n) : announced v < 2 ∨ announced v > 4 := by
  refine (byte_masks ⟨v, hv⟩).2.2.2.2.2.2.2.2.2 h ?_
  by_contra hnot
  simp only [not_or, not_lt, not_le] at hnot
  by_cases h2 : v < 0xE0
  · exact hno 2 (.inl ⟨rfl, hnot.1, h2⟩)
  by_cases h3 : v < 0xF0
  · exact hno 3 (.inr (.inl ⟨rfl, by omega, h3⟩))
  · exact hno 4 (.inr (.inr ⟨rfl, by omega, hnot.2⟩))

lemma IsLead.bounds (h : IsLead v n) : 2 ≤ n ∧ n ≤ 4 ∧ 0xC0 ≤ v ∧ v < 0xF8 := by
  obtain ⟨rfl, h, h'⟩ | ⟨rfl, h, h'⟩ | ⟨rfl, h, h'⟩ := h <;>
  omega

lemma IsLead.unique {n' : ℕ} (h : IsLead v n) (h' : IsLead v n') : n = n' :=
  (announced_lead h).symm.trans (announced_lead h')

lemma IsLead.not_tail (h : IsLead v n) : ¬ IsTail v := fun htail => by
  have hle := h.bounds
  have hlt := htail.2
  omega

/-! ## Well-formed characters -/

/-- The first byte of an encoding tells how many tails follow. -/
lemma utf8_lead (hc : IsCodePoint c) (h : v :: rest = utf8 c ++ after) : (v < 0x80 ∧ c = v ∧ rest = after) ∨
      ∃ n tails, IsLead v n ∧ tails.length + 1 = n ∧ (∀ b ∈ tails, IsTail b) ∧ rest = tails ++ after ∧
        utf8 c = v :: tails := by
  obtain ⟨first, tails, heq, -, -, htails⟩ := utf8_eq_cons hc
  rw [heq, cons_append, cons.injEq] at h
  obtain ⟨rfl, rfl⟩ := h
  obtain ⟨hlt, hbytes⟩ | ⟨hlt, hlt', hbytes⟩ | ⟨hlt, hlt', hbytes⟩ | ⟨hlt, hlt', hbytes⟩ := utf8_cases hc
  · rw [heq, cons.injEq] at hbytes
    obtain ⟨rfl, rfl⟩ := hbytes
    exact .inl ⟨hlt, rfl, rfl⟩
  · have hcons := hbytes
    rw [heq, cons.injEq] at hcons
    refine .inr ⟨2, tails, .inl ⟨rfl, by omega, by omega⟩, ?_, htails, rfl, heq⟩
    simp [hcons.2]
  · have hcons := hbytes
    rw [heq, cons.injEq] at hcons
    refine .inr ⟨3, tails, .inr (.inl ⟨rfl, by omega, by omega⟩), ?_, htails, rfl, heq⟩
    simp [hcons.2]
  · have hcons := hbytes
    rw [heq, cons.injEq] at hcons
    refine .inr ⟨4, tails, .inr (.inr ⟨rfl, by omega, by omega⟩), ?_, htails, rfl, heq⟩
    simp [hcons.2]

lemma length_le_of_tails {before' : List ℕ} (h : before ++ v :: after = before' ++ rest) (hv : ¬ IsTail v)
    (htails : ∀ b ∈ before', IsTail b) : before'.length ≤ before.length := by
  by_contra hlt
  have hget : (before' ++ rest)[before.length]? = some v := by
    simp [← h]
  rw [getElem?_append_left (not_le.1 hlt)] at hget
  exact hv (htails v (mem_of_getElem? hget))

lemma malformed_of_no_lead (h : 0x80 ≤ v) (hno : ∀ n, ¬ IsLead v n) : Malformed kind (v :: rest) := by
  intro c after hc heq
  obtain ⟨hlt, -, -⟩ | ⟨n, tails, hlead, -⟩ := utf8_lead hc.1 heq
  · omega
  · exact hno n hlead

lemma malformed_of_tails (hlead : IsLead v n)
    (h : ∀ tails after, rest = tails ++ after → tails.length + 1 = n → ¬ ∀ b ∈ tails, IsTail b) :
    Malformed kind (v :: rest) := by
  intro c after hc heq
  obtain ⟨hlt, -, -⟩ | ⟨n', tails, hlead', hlength, htails, hrest, -⟩ := utf8_lead hc.1 heq
  · have hle := hlead.bounds
    omega
  · exact h tails after hrest (hlength.trans (hlead'.unique hlead)) htails

/-- A second byte that is rejected does not continue a character. -/
lemma malformed_of_rejects (hb : b < 256) (h : rejectsSecond kind v b = true) : Malformed kind (v :: b :: rest) := by
  intro c after hc heq
  unfold rejectsSecond at h
  split_ifs at h with hbad
  rw [ne_eq, ne_eq, ne_eq, and_E0_A0 hb, and_E0_80 hb, and_F0_80 hb] at hbad
  obtain ⟨hlt, hbytes⟩ | ⟨hlt, hlt', hbytes⟩ | ⟨hlt, hlt', hbytes⟩ | ⟨hlt, hlt', hbytes⟩ := utf8_cases hc.1
  all_goals
    rw [hbytes] at heq
    simp only [cons_append, nil_append, cons.injEq] at heq
  · omega
  · omega
  · obtain ⟨hv, hsecond, -⟩ := heq
    have hED : v = 0xED ∧ 0xA0 ≤ b ∧ b ≤ 0xBF := by omega
    cases kind with
    | utf8Chars => exact hc.2 rfl ⟨by omega, by omega⟩
    | wtf8Chars =>
      rw [decide_eq_true_iff, ne_eq, and_E0_A0 hb] at h
      exact h.2 hED.2
  · omega

/-! ## Converting a character -/

lemma and_mask (hlead : IsLead v n) :
    v &&& ((1 <<< (7 - n)) - 1) = v - (if n = 2 then 0xC0 else if n = 3 then 0xE0 else 0xF0) := by
  obtain ⟨rfl, h, h'⟩ | ⟨rfl, h, h'⟩ | ⟨rfl, h, h'⟩ := hlead
  · exact ((byte_masks ⟨v, by omega⟩).2.2.2.2.2.2.1 h h').2
  · exact ((byte_masks ⟨v, by omega⟩).2.2.2.2.2.2.2.1 h h').2
  · exact ((byte_masks ⟨v, by omega⟩).2.2.2.2.2.2.2.2.1 h h').2

lemma shift_or (u : ℕ) (hb : IsTail b) : (u <<< 6) ||| (b &&& 0x3F) = u * 64 + (b - 0x80) := by
  obtain ⟨hge, hlt⟩ := hb
  have hmask : b &&& 0x3F = b - 0x80 := (byte_masks ⟨b, by omega⟩).2.2.2.2.2.1 ⟨hge, hlt⟩
  rw [hmask, ← shiftLeft_add_eq_or_of_lt (show b - 0x80 < 2 ^ 6 by omega), shiftLeft_eq]

/-- The bits of the bytes of a character. -/
def bitsOf (n v : ℕ) (tails : List ℕ) : ℕ :=
  tails.foldl (fun ucs4Char b => (ucs4Char <<< 6) ||| (b &&& 0x3F)) (v &&& ((1 <<< (7 - n)) - 1))

/-- The bits are those of the code point that the bytes encode, unless there is a shorter form for it. -/
lemma bitsOf_spec (hlead : IsLead v n) (hlength : tails.length + 1 = n) (htails : ∀ b ∈ tails, IsTail b) :
    (minucs4Table n ≤ bitsOf n v tails → utf8 (bitsOf n v tails) = v :: tails) ∧
      ∀ c, IsCodePoint c → v :: tails = utf8 c → c = bitsOf n v tails ∧ minucs4Table n ≤ c := by
  rw [bitsOf, and_mask hlead]
  obtain ⟨rfl, h, h'⟩ | ⟨rfl, h, h'⟩ | ⟨rfl, h, h'⟩ := hlead
  · obtain ⟨b, rfl⟩ := length_eq_one_iff.1 (show tails.length = 1 by omega)
    have hb := htails b (.head _)
    rw [if_pos rfl, foldl_cons, foldl_nil, shift_or _ hb, show minucs4Table 2 = 0x80 from rfl]
    refine ⟨fun hmin => utf8_two hmin ⟨h, h'⟩ hb, fun c hc heq => ?_⟩
    obtain ⟨hlt, hbytes⟩ | ⟨hlt, hlt', hbytes⟩ | ⟨hlt, hlt', hbytes⟩ | ⟨hlt, hlt', hbytes⟩ := utf8_cases hc
    all_goals
      rw [hbytes] at heq
      simp only [cons.injEq, reduceCtorEq, and_false, and_true] at heq
    omega
  · obtain ⟨b, b', rfl⟩ := length_eq_two.1 (show tails.length = 2 by omega)
    have hb := htails b (.head _)
    have hb' := htails b' (.tail _ (.head _))
    rw [if_neg (by decide), if_pos rfl, foldl_cons, foldl_cons, foldl_nil, shift_or _ hb, shift_or _ hb',
      show minucs4Table 3 = 0x800 from rfl]
    rw [show ((v - 0xE0) * 64 + (b - 0x80)) * 64 + (b' - 0x80) = (v - 0xE0) * 4096 + (b - 0x80) * 64 + (b' - 0x80) by
      omega]
    refine ⟨fun hmin => utf8_three hmin ⟨h, h'⟩ hb hb', fun c hc heq => ?_⟩
    obtain ⟨hlt, hbytes⟩ | ⟨hlt, hlt', hbytes⟩ | ⟨hlt, hlt', hbytes⟩ | ⟨hlt, hlt', hbytes⟩ := utf8_cases hc
    all_goals
      rw [hbytes] at heq
      simp only [cons.injEq, reduceCtorEq, and_false, and_true] at heq
    omega
  · obtain ⟨b, b', b'', rfl⟩ := length_eq_three.1 (show tails.length = 3 by omega)
    have hb := htails b (.head _)
    have hb' := htails b' (.tail _ (.head _))
    have hb'' := htails b'' (.tail _ (.tail _ (.head _)))
    rw [if_neg (by decide), if_neg (by decide), foldl_cons, foldl_cons, foldl_cons, foldl_nil,
      shift_or _ hb, shift_or _ hb', shift_or _ hb'', show minucs4Table 4 = 0x10000 from rfl]
    rw [show (((v - 0xF0) * 64 + (b - 0x80)) * 64 + (b' - 0x80)) * 64 + (b'' - 0x80) =
      (v - 0xF0) * 262144 + (b - 0x80) * 4096 + (b' - 0x80) * 64 + (b'' - 0x80) by omega]
    refine ⟨fun hmin => utf8_four hmin ⟨h, h'⟩ hb hb' hb'', fun c hc heq => ?_⟩
    obtain ⟨hlt, hbytes⟩ | ⟨hlt, hlt', hbytes⟩ | ⟨hlt, hlt', hbytes⟩ | ⟨hlt, hlt', hbytes⟩ := utf8_cases hc
    all_goals
      rw [hbytes] at heq
      simp only [cons.injEq, reduceCtorEq, and_false, and_true] at heq
    omega

lemma surrogates_eq (h : 0x10000 ≤ c) (hc : IsCodePoint c) : [leadSurrogate c, trailSurrogate c] = utf16 c := by
  have hle : c ≤ 0x10FFFF := hc
  have hmod : c &&& 0x3FF = c % 1024 := Nat.and_two_pow_sub_one_eq_mod c 10
  have hor : c % 1024 ||| 0xDC00 = 0xDC00 + c % 1024 := by
    rw [Nat.or_comm]
    exact (Nat.shiftLeft_add_eq_or_of_lt (show c % 1024 < 2 ^ 10 by omega) 55).symm
  rw [utf16, if_neg (by omega), leadSurrogate, trailSurrogate, hmod, hor, Nat.shiftRight_eq_div_pow,
    show 0xD800 - (nonBMPMin >>> 10) = 0xD7C0 from rfl]
  simp only [List.cons.injEq, and_true]
  omega

lemma unitsOf_cases (kind : InputChars) (hlead : IsLead v n) (hlength : tails.length + 1 = n)
    (htails : ∀ b ∈ tails, IsTail b) :
    (∃ c, Accepted kind c ∧ v :: tails = utf8 c ∧ unitsOf (utf8ToOneUcs4Char kind n v tails) n = .units (utf16 c) n) ∨
      ((∀ c, Accepted kind c → v :: tails ≠ utf8 c) ∧
        ∃ report, unitsOf (utf8ToOneUcs4Char kind n v tails) n = .invalid report 1) := by
  obtain ⟨hmin, honly⟩ := bitsOf_spec hlead hlength htails
  rw [show utf8ToOneUcs4Char kind n v tails = if bitsOf n v tails < minucs4Table n then invalidUTF8
    else if kind = .utf8Chars ∧ IsSurrogate (bitsOf n v tails) then invalidUTF8 else bitsOf n v tails from rfl]
  generalize bitsOf n v tails = u at hmin honly ⊢
  have hinvalid : ∃ report, unitsOf invalidUTF8 n = .invalid report 1 := ⟨_, rfl⟩
  by_cases hshort : u < minucs4Table n
  · rw [if_pos hshort]
    refine .inr ⟨fun c hc heq => ?_, hinvalid⟩
    obtain ⟨rfl, hle⟩ := honly c hc.1 heq
    omega
  rw [if_neg hshort]
  by_cases hsur : kind = .utf8Chars ∧ IsSurrogate u
  · rw [if_pos hsur]
    refine .inr ⟨fun c hc heq => ?_, hinvalid⟩
    obtain ⟨rfl, -⟩ := honly c hc.1 heq
    exact hc.2 hsur.1 hsur.2
  rw [if_neg hsur]
  by_cases hbig : nonBMPMax < u
  · refine .inr ⟨fun c hc heq => ?_, .tooBigCharacter u, ?_⟩
    · obtain ⟨rfl, -⟩ := honly c hc.1 heq
      exact absurd hc.1 (not_le.2 hbig)
    · have hlt : ¬ u < nonBMPMin := fun hlt => by
        unfold nonBMPMin at hlt
        unfold nonBMPMax at hbig
        omega
      rw [unitsOf, if_neg hlt, if_neg (not_le.2 hbig)]
  have hcode : IsCodePoint u := not_lt.1 hbig
  refine .inl ⟨u, ⟨hcode, fun hkind hs => hsur ⟨hkind, hs⟩⟩, (hmin (not_lt.1 hshort)).symm, ?_⟩
  by_cases hbmp : u < nonBMPMin
  · rw [unitsOf, if_pos hbmp, show utf16 u = [u] from if_pos hbmp]
  · rw [unitsOf, if_neg hbmp, if_pos (not_lt.1 hbig), surrogates_eq (not_lt.1 hbmp) hcode]

/-! ## The bytes that follow -/

lemma continuationBytes_cases (left m : ℕ) (start before rest : List ℕ) (h32 : (before ++ rest).length < 2 ^ 32)
    (hbytes : ∀ b ∈ rest, b < 256) (him : before.length = i + m) :
    (∃ tails after, rest = tails ++ after ∧ tails.length = left ∧ (∀ b ∈ tails, IsTail b) ∧
        continuationBytes (before ++ rest) i left m start = .all (start ++ tails)) ∨
      (∃ tails next after, rest = tails ++ next :: after ∧ tails.length < left ∧ (∀ b ∈ tails, IsTail b) ∧
        ¬ IsTail next ∧ continuationBytes (before ++ rest) i left m start = .brokenAt (m + tails.length)) ∨
      (rest.length < left ∧ (∀ b ∈ rest, IsTail b) ∧
        continuationBytes (before ++ rest) i left m start = .outOfBounds) := by
  induction left generalizing m start before rest with
  | zero => exact .inl ⟨[], rest, rfl, rfl, nofun, by rw [continuationBytes, append_nil]⟩
  | succ left ih =>
    have hmod : uint32 (i + m) = before.length := by
      rw [← him]
      rw [List.length_append] at h32
      exact Nat.mod_eq_of_lt (by omega)
    rw [continuationBytes, hmod, getElem?_append_right le_rfl, Nat.sub_self]
    cases rest with
    | nil => exact .inr (.inr ⟨Nat.succ_pos _, nofun, rfl⟩)
    | cons b rest =>
      dsimp only [getElem?_cons_zero]
      have hb := hbytes b (.head _)
      by_cases htail : IsTail b
      · rw [if_neg (fun hne => (and_C0 hb).1 hne htail)]
        have happend : before ++ b :: rest = (before ++ [b]) ++ rest := by rw [append_assoc]; rfl
        rw [happend] at h32 ⊢
        obtain ⟨tails, after, rfl, hlength, htails, heq⟩ | ⟨tails, next, after, rfl, hlength, htails, hnext, heq⟩ |
          ⟨hlength, htails, heq⟩ :=
            ih (m + 1) (start ++ [b]) (before ++ [b]) rest h32 (fun b' hb' => hbytes b' (.tail _ hb'))
              (by rw [List.length_append, length_singleton]; omega)
        · refine .inl ⟨b :: tails, after, rfl, by rw [length_cons, hlength], ?_, ?_⟩
          · exact forall_mem_cons.2 ⟨htail, htails⟩
          · rw [heq, append_assoc]
            rfl
        · refine .inr (.inl ⟨b :: tails, next, after, rfl, by rw [length_cons]; omega, ?_, hnext, ?_⟩)
          · exact forall_mem_cons.2 ⟨htail, htails⟩
          · rw [heq, length_cons]
            congr 1
            omega
        · refine .inr (.inr ⟨by rw [length_cons]; omega, forall_mem_cons.2 ⟨htail, htails⟩, heq⟩)
      · rw [if_pos ((and_C0 hb).2 htail)]
        simp [htail]

/-! ## One round -/

/-- What is known where an invalid character with these tails is given up. -/
structure GivenUp (kind : InputChars) (before : List ℕ) (v : ℕ) (tails after : List ℕ) : Prop where
  malformed : Malformed kind (v :: (tails ++ after))
  areTails : ∀ b ∈ tails, IsTail b
  interrupted : tails ≠ [] ↔ InterruptedAt kind before v (tails ++ after)
  inside : ¬ OverrunsAt kind before v (tails ++ after)

lemma decodeAt_ascii (hv : v < 0x80) : decodeAt kind src i v = .units [v] 1 := if_pos ((and_80 (by omega)).2 hv)

lemma decodeAt_lead (hlead : IsLead v n) (h32 : (before ++ v :: rest).length < 2 ^ 32) :
    decodeAt kind (before ++ v :: rest) before.length v =
      if uint32 (before.length + n) > (before ++ v :: rest).length then .invalid .bufferTooSmall 1
      else
        match rest with
        | [] => .outOfBounds
        | second :: _ =>
          if rejectsSecond kind v second then .invalid (.invalidCharacter before.length) 1
          else convert kind (before ++ v :: rest) before.length v n := by
  obtain ⟨h2, h4, hge, hlt⟩ := hlead.bounds
  have hmod : uint32 (before.length + 1) = before.length + 1 := by
    rw [length_append, length_cons] at h32
    exact mod_eq_of_lt (by omega)
  have hget : (before ++ v :: rest)[uint32 (before.length + 1)]? = rest.head? := by
    rw [hmod, getElem?_append_right (le_succ _), show before.length.succ - before.length = 0 + 1 by omega,
      getElem?_cons_succ, ← head?_eq_getElem?]
  rw [decodeAt, if_neg (fun h => by have := (and_80 (by omega)).1 h; omega), announced_lead hlead]
  dsimp only
  rw [if_neg (by omega), hget]
  split_ifs with hshort hlooks
  · rfl
  · cases rest <;> rfl
  · cases rest with
    | nil =>
      obtain ⟨n, rfl⟩ : ∃ k, n = k + 2 := ⟨n - 2, by omega⟩
      simp [convert, continuationBytes, hget]
    | cons second rest =>
      dsimp only
      rw [if_neg]
      unfold rejectsSecond
      rw [if_neg fun h => hlooks ?_]
      · simp
      · rw [looksAtSecond, decide_eq_true_iff]
        tauto

lemma GivenUp.nil (hmal : Malformed kind (v :: rest)) (hno : ¬ InterruptedAt kind before v rest)
    (hin : ¬ OverrunsAt kind before v rest) : GivenUp kind before v [] rest where
  malformed := hmal
  areTails := nofun
  interrupted := ⟨fun h => absurd rfl h, fun h => absurd h hno⟩
  inside := hin

/-- One round finds a character, or gives up a first byte and some tails, or overruns. -/
theorem decodeAt_cases (kind : InputChars) (before : List ℕ) (hv : v < 256) (hbytes : ∀ b ∈ rest, b < 256)
    (h32 : (before ++ v :: rest).length < 2 ^ 32) :
    (∃ c after, Accepted kind c ∧ v :: rest = utf8 c ++ after ∧
        decodeAt kind (before ++ v :: rest) before.length v = .units (utf16 c) (utf8 c).length) ∨
      (∃ report tails after, rest = tails ++ after ∧ GivenUp kind before v tails after ∧
        decodeAt kind (before ++ v :: rest) before.length v = .invalid report (tails.length + 1)) ∨
      (OverrunsAt kind before v rest ∧ Malformed kind (v :: rest) ∧
        decodeAt kind (before ++ v :: rest) before.length v = .outOfBounds) := by
  have hlen : (before ++ v :: rest).length = before.length + rest.length + 1 := by
    simp [add_assoc]
  by_cases hascii : v < 0x80
  · have h8 : utf8 v = [v] := if_pos hascii
    refine .inl ⟨v, rest, ⟨show v ≤ 0x10FFFF by omega, fun _ hs => ?_⟩, by rw [h8]; rfl, ?_⟩
    · have hle := hs.1
      omega
    · rw [decodeAt_ascii hascii, h8, show utf16 v = [v] from if_pos (by omega)]
      rfl
  by_cases hlead : ∃ n, IsLead v n
  swap
  · have hno : ∀ n, ¬ IsLead v n := fun n h => hlead ⟨n, h⟩
    refine .inr (.inl ⟨.invalidCharacter before.length, [], rest, rfl, .nil ?_ ?_ ?_, ?_⟩)
    · exact malformed_of_no_lead (by omega) hno
    · rintro ⟨n, -, -, -, h, -⟩
      exact hno n h
    · rintro ⟨n, h, -⟩
      exact hno n h
    · rw [decodeAt, if_neg (fun h => hascii ((and_80 hv).1 h))]
      exact if_pos (announced_other hv (by omega) hno)
  obtain ⟨n, hlead⟩ := hlead
  obtain ⟨h2, h4, -, -⟩ := hlead.bounds
  rw [decodeAt_lead hlead h32]
  by_cases hshort : uint32 (before.length + n) > (before ++ v :: rest).length
  · -- the wrapped index is never too large
    have hnowrap : before.length + n < 2 ^ 32 := by
      by_contra hnot
      have hmod : uint32 (before.length + n) ≤ before.length := by
        rw [uint32, mod_eq_sub_mod (not_lt.1 hnot), mod_eq_of_lt (by omega)]
        omega
      omega
    have hmod : uint32 (before.length + n) = before.length + n := mod_eq_of_lt hnowrap
    rw [if_pos hshort]
    refine .inr (.inl ⟨.bufferTooSmall, [], rest, rfl, .nil ?_ ?_ ?_, rfl⟩)
    · refine malformed_of_tails hlead fun tails after hrest hlength _ => ?_
      have hle := congrArg length hrest
      rw [length_append] at hle
      omega
    · rintro ⟨n', -, -, -, hlead', hfits, -⟩
      rw [hlead'.unique hlead] at hfits
      omega
    · rintro ⟨n', hlead', hwrap, -⟩
      rw [hlead'.unique hlead] at hwrap
      omega
  rw [if_neg hshort]
  -- where the source ends after fewer tails than announced, the index must have wrapped
  have hwraps : rest.length + 1 < n → 2 ^ 32 ≤ before.length + n := fun hlt => by
    by_contra hnot
    rw [uint32, mod_eq_of_lt (not_le.1 hnot)] at hshort
    omega
  cases rest with
  | nil =>
    rw [length_nil] at hwraps
    refine .inr (.inr ⟨⟨n, hlead, hwraps (by omega), nofun, nofun⟩, ?_, rfl⟩)
    refine malformed_of_tails hlead fun tails after hrest hlength _ => ?_
    rw [(append_eq_nil_iff.1 hrest.symm).1] at hlength
    rw [length_nil] at hlength
    omega
  | cons second rest =>
    dsimp only
    have hsecond : second < 256 := hbytes second (.head _)
    by_cases hrejects : rejectsSecond kind v second = true
    · rw [if_pos hrejects]
      have hnot : ¬ SecondPasses kind v (second :: rest) := fun h => by
        rw [h second rfl] at hrejects
        exact Bool.false_ne_true hrejects
      refine .inr (.inl ⟨.invalidCharacter before.length, [], second :: rest, rfl, .nil ?_ ?_ ?_, rfl⟩)
      · exact malformed_of_rejects hsecond hrejects
      · rintro ⟨n, -, -, -, -, -, -, -, -, -, -, h⟩
        exact hnot h
      · rintro ⟨n, -, -, -, h⟩
        exact hnot h
    rw [if_neg hrejects]
    have hpasses : SecondPasses kind v (second :: rest) := fun s hs => by
      rw [head?_cons, Option.mem_some_iff] at hs
      rw [← hs]
      exact Bool.eq_false_of_not_eq_true hrejects
    generalize second :: rest = rest at *
    have happend : before ++ v :: rest = (before ++ [v]) ++ rest := by rw [append_assoc]; rfl
    have hcases := continuationBytes_cases (i := before.length) (n - 1) 1 [] (before ++ [v]) rest (by rwa [← happend])
      hbytes (by rw [length_append]; rfl)
    rw [← happend] at hcases
    obtain ⟨tails, after, hrest, hlength, htails, heq⟩ | ⟨tails, next, after, hrest, hlength, htails, hnext, heq⟩ |
      ⟨hlength, htails, heq⟩ := hcases
    · rw [convert, heq]
      dsimp only
      rw [nil_append]
      obtain ⟨c, hc, hbytes, hunits⟩ | ⟨hno, report, hunits⟩ := unitsOf_cases kind hlead (by omega) htails
      · refine .inl ⟨c, after, hc, by rw [hrest, ← hbytes]; rfl, ?_⟩
        rw [hunits, ← hbytes, length_cons, show tails.length + 1 = n by omega]
      · refine .inr (.inl ⟨report, [], rest, rfl, .nil ?_ ?_ ?_, hunits⟩)
        · intro c after' hc heq'
          obtain ⟨hlt, -, -⟩ | ⟨n', tails', hlead', hlength', -, hrest', h8⟩ := utf8_lead hc.1 heq'
          · omega
          · have hn := hlead'.unique hlead
            have htails' := append_inj_left (hrest.symm.trans hrest') (by omega)
            exact hno c hc (by rw [h8, htails'])
        · rintro ⟨n', tails', next, after', hlead', -, hrest', -, hlt, -, hnext, -⟩
          have hn := hlead'.unique hlead
          have hle := length_le_of_tails (hrest'.symm.trans hrest) hnext htails
          omega
        · rintro ⟨n', hlead', hwrap, -⟩
          rw [hlead'.unique hlead] at hwrap
          have hle := congrArg length hrest
          rw [length_append] at hle
          omega
    · rw [convert, heq]
      have hmal : Malformed kind (v :: rest) := by
        refine malformed_of_tails hlead fun tails' after' hrest' hlength' htails' => ?_
        have hle := length_le_of_tails (hrest.symm.trans hrest') hnext htails'
        omega
      refine .inr (.inl ⟨.invalidCharacter before.length, tails, next :: after, hrest, ?_, by rw [add_comm]⟩)
      rw [hrest] at hmal
      refine ⟨hmal, htails, ⟨fun hne => ?_, ?_⟩, ?_⟩
      · rw [hrest] at hshort hpasses
        exact ⟨n, tails, next, after, hlead, not_lt.1 hshort, rfl, hne, by omega, htails, hnext, hpasses⟩
      · rintro ⟨n', tails', next', after', -, -, hrest', hne, -, htails', -, -⟩ rfl
        cases tails' with
        | nil => exact hne rfl
        | cons b tails' =>
          rw [nil_append, cons_append, cons.injEq] at hrest'
          exact hnext (hrest'.1 ▸ htails' b (.head _))
      · rintro ⟨-, -, -, h, -⟩
        exact hnext (h next (mem_append_right _ (.head _)))
    · rw [convert, heq]
      refine .inr (.inr ⟨⟨n, hlead, hwraps (by omega), htails, hpasses⟩, ?_, rfl⟩)
      refine malformed_of_tails hlead fun tails after hrest hlength' _ => ?_
      have hle := congrArg length hrest
      rw [length_append] at hle
      omega

end SpiderMonkey.CharacterEncoding

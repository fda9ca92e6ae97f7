import SpiderMonkey.Vm.CharacterInflation

/-!
# What inflating a source gives

For which sources the modes put out the units of the characters in the source, and the two passes of the helper the
same number of units; and that the number of bytes a sequence of units needs is right.
-/

namespace SpiderMonkey.CharacterEncoding

open List Nat Piece Utf
open LittleEndian (Byte)
open Utf

def codes (src : List Byte) : List ℕ := src.map BitVec.toNat

/-- The three-byte form of a surrogate. -/
inductive SurrogateForm : List ℕ → Prop
  | of_bytes {b c : ℕ} (hb : 0xA0 ≤ b ∧ b ≤ 0xBF) (hc : 0x80 ≤ c ∧ c ≤ 0xBF) : SurrogateForm [0xED, b, c]

/-- The byte sequences of single characters that a kind of source may have. -/
def Row : InputChars → List ℕ → Prop
  | .utf8Chars, row => Table37 row
  | .wtf8Chars, row => Table37 row ∨ SurrogateForm row

/-- A throwing run succeeds on well-formed sources, with the units of their characters, and throws on other ones. -/
structure Throws (kind : InputChars) (src : List Byte) : Prop where
  succeeds : (∃ fuel units, inflateUTF8ToUTF16 .throw kind src fuel = some (.done units)) ↔
    ∃ rows : List (List ℕ), (∀ row ∈ rows, Row kind row) ∧ codes src = rows.flatten
  emits : ∀ cs : List ℕ, (∀ c ∈ cs, Accepted kind c) → codes src = cs.flatMap utf8 → ∀ fuel units,
    inflateUTF8ToUTF16 .throw kind src fuel = some (.done units) → units = cs.flatMap utf16
  reports : (¬ ∃ fuel units, inflateUTF8ToUTF16 .throw kind src fuel = some (.done units)) →
    ∃ fuel report, inflateUTF8ToUTF16 .throw kind src fuel = some (.threw report)

/-- A replacing run comes to an end, with the units of pieces that make up the source, and every stretch of characters
in the source is among the pieces at its place. -/
def Replaces (action : OnUTF8Error) (src : List Byte) : Prop :=
  ∃ r ps fuel, action.replacement = some r ∧
    inflateUTF8ToUTF16 action .utf8Chars src fuel = some (.done (ps.flatMap (units r))) ∧
    ps.flatMap bytes = codes src ∧ (∀ c, .char c ∈ ps → IsScalar c) ∧
    ∀ (before cs after : List ℕ), cs ≠ [] → (∀ c ∈ cs, IsScalar c) → codes src = before ++ (cs.flatMap utf8 ++ after) →
      ∃ ps₁ ps₂, ps = ps₁ ++ (cs.map char ++ ps₂) ∧ ps₁.flatMap bytes = before

/-- Where the counting pass accepts the source, the copying pass stores as many units. -/
def PassesAgree (src : List Byte) : Prop :=
  ∀ action charT kind, UsedMode action charT kind → ∀ fuel units,
    inflateUTF8ToUTF16 action kind src fuel = some (.done units) →
      ∃ fuel inflated, inflateUTF8StringHelper action charT kind src fuel = some inflated ∧
        inflated.outlen = units.length ∧ inflated.stored.length = inflated.outlen

/-- Everything that is expected of inflating a source. -/
structure Inflates (src : List Byte) : Prop where
  utf8 : Throws .utf8Chars src
  wtf8 : Throws .wtf8Chars src
  replacementCharacter : Replaces .insertReplacementCharacter src
  questionMark : Replaces .insertQuestionMark src
  passes : PassesAgree src

/-- The check of the length wraps around at a truncated character, which the loop comes to. -/
def Overruns (src : List Byte) : Prop :=
  (∃ before v rest, codes src = before ++ v :: rest ∧ OverrunsAt .utf8Chars before v rest) ∨
    ∃ (cs : List ℕ) (v : ℕ) (rest : List ℕ), (∀ c ∈ cs, IsCodePoint c) ∧ codes src = cs.flatMap utf8 ++ v :: rest ∧
      OverrunsAt .wtf8Chars (cs.flatMap utf8) v rest

/-- Some character breaks off after at least two of its bytes. -/
def Interrupted (src : List Byte) : Prop :=
  ∃ before v rest, codes src = before ++ v :: rest ∧ InterruptedAt .utf8Chars before v rest

def HasNonASCII (src : List Byte) : Prop :=
  ∃ before c after, codes src = before ++ (utf8 c ++ after) ∧ IsScalar c ∧ 0x80 ≤ c

variable {kind : InputChars} {action : OnUTF8Error} {charT : CharT} {src : List Byte} {cs : List ℕ} {c r : ℕ}

/-! ## Rows -/

lemma accepted_utf8 : Accepted .utf8Chars c ↔ IsScalar c := and_congr_right fun _ => ⟨fun h => h rfl, fun h _ => h⟩

lemma accepted_wtf8 : Accepted .wtf8Chars c ↔ IsCodePoint c := ⟨fun h => h.1, fun h => ⟨h, nofun⟩⟩

lemma surrogateForm_iff (row : List ℕ) : SurrogateForm row ↔ ∃ c, IsSurrogate c ∧ row = utf8 c := by
  constructor
  · rintro ⟨hb, hc⟩
    refine ⟨_, ⟨?_, ?_⟩, (utf8_three (by omega) (by omega) ⟨by omega, by omega⟩ ⟨hc.1, by omega⟩).symm⟩ <;>
    omega
  · rintro ⟨c, ⟨hle, hge⟩, rfl⟩
    have heq : utf8 c = [0xED, 0x80 + c / 64 % 64, 0x80 + c % 64] := by
      rw [utf8, if_neg (by omega), if_neg (by omega), if_pos (by omega), show 0xE0 + c / 4096 = 0xED by omega]
    rw [heq]
    exact .of_bytes (by omega) (by omega)

lemma row_iff (kind : InputChars) (row : List ℕ) : Row kind row ↔ ∃ c, Accepted kind c ∧ row = utf8 c := by
  cases kind with
  | utf8Chars =>
    refine (table37_iff row).trans (exists_congr fun c => ?_)
    rw [accepted_utf8]
  | wtf8Chars =>
    refine (or_congr (table37_iff row) (surrogateForm_iff row)).trans ⟨?_, ?_⟩
    · rintro (⟨c, hc, rfl⟩ | ⟨c, hc, rfl⟩)
      · exact ⟨c, accepted_wtf8.2 hc.1, rfl⟩
      · refine ⟨c, accepted_wtf8.2 ?_, rfl⟩
        have hle := hc.2
        exact show c ≤ 0x10FFFF by omega
    · rintro ⟨c, hc, rfl⟩
      by_cases hs : IsSurrogate c
      · exact .inr ⟨c, hs, rfl⟩
      · exact .inl ⟨c, ⟨hc.1, hs⟩, rfl⟩

/-- Rows are the encodings of accepted characters. -/
lemma rows_iff (kind : InputChars) (bytes : List ℕ) :
    (∃ rows : List (List ℕ), (∀ row ∈ rows, Row kind row) ∧ bytes = rows.flatten) ↔
      ∃ cs : List ℕ, (∀ c ∈ cs, Accepted kind c) ∧ bytes = cs.flatMap utf8 := by
  constructor
  · rintro ⟨rows, hrows, rfl⟩
    induction rows with
    | nil => exact ⟨[], nofun, rfl⟩
    | cons row rows ih =>
      obtain ⟨c, hc, rfl⟩ := (row_iff kind row).1 (hrows row (.head _))
      obtain ⟨cs, hcs, heq⟩ := ih fun row hrow => hrows row (.tail _ hrow)
      exact ⟨c :: cs, forall_mem_cons.2 ⟨hc, hcs⟩, by simp [heq]⟩
  · rintro ⟨cs, hcs, rfl⟩
    refine ⟨cs.map utf8, fun row hrow => ?_, (flatMap_def).trans rfl⟩
    obtain ⟨c, hc, rfl⟩ := mem_map.1 hrow
    exact (row_iff kind _).2 ⟨c, hcs c hc, rfl⟩

lemma flatMap_utf8_inj {cs ds : List ℕ} (hcs : ∀ c ∈ cs, Accepted kind c) (hds : ∀ d ∈ ds, Accepted kind d)
    (h : cs.flatMap utf8 = ds.flatMap utf8) : cs = ds := by
  induction cs generalizing ds with
  | nil =>
    cases ds with
    | nil => rfl
    | cons d ds =>
      have hpos := length_utf8_pos d
      rw [flatMap_nil, flatMap_cons] at h
      rw [(append_eq_nil_iff.1 h.symm).1] at hpos
      exact absurd hpos (lt_irrefl 0)
  | cons c cs ih =>
    cases ds with
    | nil =>
      have hpos := length_utf8_pos c
      rw [flatMap_nil, flatMap_cons] at h
      rw [(append_eq_nil_iff.1 h).1] at hpos
      exact absurd hpos (lt_irrefl 0)
    | cons d ds =>
      rw [flatMap_cons, flatMap_cons] at h
      obtain rfl := utf8_append_inj (hcs c (.head _)).1 (hds d (.head _)).1 h
      rw [ih (fun c hc => hcs c (.tail _ hc)) (fun d hd => hds d (.tail _ hd)) (append_cancel_left h)]

/-- What begins with a malformed stretch after characters is not well-formed. -/
lemma not_wellFormed {ds rest : List ℕ} (hcs : ∀ c ∈ cs, Accepted kind c) (hds : ∀ d ∈ ds, Accepted kind d)
    (hne : rest ≠ []) (hmal : Malformed kind rest) : cs.flatMap utf8 ++ rest ≠ ds.flatMap utf8 := by
  intro h
  induction cs generalizing ds with
  | nil =>
    cases ds with
    | nil => exact hne h
    | cons d ds => exact hmal d (ds.flatMap utf8) (hds d (.head _)) h
  | cons c cs ih =>
    cases ds with
    | nil =>
      have hpos := length_utf8_pos c
      rw [flatMap_nil, flatMap_cons, append_assoc] at h
      rw [(append_eq_nil_iff.1 h).1] at hpos
      exact absurd hpos (lt_irrefl 0)
    | cons d ds =>
      rw [flatMap_cons, flatMap_cons, append_assoc] at h
      obtain rfl := utf8_append_inj (hcs c (.head _)).1 (hds d (.head _)).1 h
      exact ih (fun c hc => hcs c (.tail _ hc)) (fun d hd => hds d (.tail _ hd)) (append_cancel_left h)

/-! ## Throwing -/

lemma codes_lt : ∀ b ∈ codes src, b < 256 := fun b hb => by
  obtain ⟨byte, -, rfl⟩ := mem_map.1 hb
  exact byte.isLt

lemma length_codes (src : List Byte) : (codes src).length = src.length := length_map _

lemma throws_of (kind : InputChars) (h32 : src.length < 2 ^ 32)
    (hover : ∀ (cs : List ℕ) (v : ℕ) (rest : List ℕ), (∀ c ∈ cs, Accepted kind c) →
      codes src = cs.flatMap utf8 ++ v :: rest → ¬ OverrunsAt kind (cs.flatMap utf8) v rest) :
    Throws kind src := by
  rw [← length_codes] at h32
  obtain ⟨cs, fuel, hcs, heq, hrun⟩ | ⟨cs, v, after, hcs, heq, hmal, hends⟩ :=
    inflateLoop_throwing kind [] codes_lt h32 []
  · refine ⟨⟨fun _ => (rows_iff kind _).2 ⟨cs, hcs, heq⟩, fun _ => ⟨fuel, _, hrun⟩⟩, ?_, fun h => ?_⟩
    · intro ds hds heq' fuel' units hrun'
      obtain rfl := flatMap_utf8_inj hcs hds (heq.symm.trans heq')
      exact (Outcome.done.inj (inflateLoop_unique hrun hrun')).symm
    · exact absurd ⟨fuel, _, hrun⟩ h
  · obtain ⟨fuel, report, hrun⟩ | ⟨hover', -⟩ := hends
    swap
    · exact absurd hover' (hover cs v after hcs heq)
    have hnot : ¬ ∃ fuel units, inflateUTF8ToUTF16 .throw kind src fuel = some (.done units) := by
      rintro ⟨fuel', units, hrun'⟩
      cases inflateLoop_unique hrun hrun'
    refine ⟨⟨fun h => absurd h hnot, fun h => ?_⟩, ?_, fun _ => ⟨fuel, report, hrun⟩⟩
    · obtain ⟨ds, hds, heq'⟩ := (rows_iff kind _).1 h
      exact absurd (heq.symm.trans heq') (not_wellFormed hcs hds (cons_ne_nil _ _) hmal)
    · intro ds hds heq' fuel' units hrun'
      exact absurd ⟨fuel', units, hrun'⟩ hnot

/-- A throwing run overruns where it comes to such a place. -/
lemma not_throws_of (h32 : src.length < 2 ^ 32) (hcs : ∀ c ∈ cs, Accepted kind c) {v : ℕ} {rest : List ℕ}
    (heq : codes src = cs.flatMap Utf.utf8 ++ v :: rest) (hover : OverrunsAt kind (cs.flatMap Utf.utf8) v rest) :
    ¬ Throws kind src := by
  intro hthrows
  rw [← length_codes, heq] at h32
  have hbytes := @codes_lt src
  rw [heq] at hbytes
  have hbytes' : ∀ b ∈ v :: rest, b < 256 := fun b hb => hbytes b (mem_append_right _ hb)
  have hmal := malformed_of_overruns h32 hover
  have hrun : inflateUTF8ToUTF16 .throw kind src (1 + cs.length) = some .outOfBounds := by
    have hchars := inflateLoop_chars .throw [] [] hcs hbytes h32 1
    rw [nil_append, nil_append, ← heq, heq] at hchars
    refine (congrArg (fun bytes => inflateLoop .throw kind bytes (1 + cs.length) 0 []) heq).trans (hchars.trans ?_)
    rw [inflateLoop, getElem?_append_right le_rfl, Nat.sub_self, getElem?_cons_zero]
    dsimp only
    obtain ⟨c, after, hc, heq', -⟩ | ⟨report, tails, after, rfl, hgiven, -⟩ | ⟨-, -, hdecode⟩ :=
      decodeAt_cases kind (cs.flatMap Utf.utf8) (hbytes' v (.head _)) (fun b hb => hbytes' b (.tail _ hb)) h32
    · exact absurd heq' (hmal c after hc)
    · exact absurd hover hgiven.inside
    · rw [hdecode]
  by_cases hdone : ∃ fuel units, inflateUTF8ToUTF16 .throw kind src fuel = some (.done units)
  · obtain ⟨fuel, units, hrun'⟩ := hdone
    cases inflateLoop_unique hrun hrun'
  · obtain ⟨fuel, report, hrun'⟩ := hthrows.reports hdone
    cases inflateLoop_unique hrun hrun'

/-! ## Replacing -/

/-- A replacing run that comes to an end has split the source. -/
lemma splits_of_done (hr : action.replacement = some r) (h32 : src.length < 2 ^ 32) {fuel : ℕ} {units : List ℕ}
    (hrun : inflateUTF8ToUTF16 action kind src fuel = some (.done units)) :
    ∃ ps, Splits kind [] (codes src) ps ∧ units = ps.flatMap (Piece.units r) := by
  rw [← length_codes] at h32
  obtain ⟨ps, fuel', hsplits, hrun'⟩ | ⟨-, fuel', hrun'⟩ := inflateLoop_replacing kind hr [] codes_lt h32 []
  · exact ⟨ps, hsplits, Outcome.done.inj (inflateLoop_unique hrun hrun')⟩
  · cases inflateLoop_unique hrun hrun'

lemma done_of_splits (hr : action.replacement = some r) (h32 : src.length < 2 ^ 32)
    (hover : ∀ before v rest, codes src = before ++ v :: rest → ¬ OverrunsAt kind before v rest) :
    ∃ ps fuel, Splits kind [] (codes src) ps ∧
      inflateUTF8ToUTF16 action kind src fuel = some (.done (ps.flatMap (units r))) := by
  rw [← length_codes] at h32
  obtain ⟨ps, fuel, hsplits, hrun⟩ | ⟨⟨mid, v, after, heq, hover'⟩, -⟩ :=
    inflateLoop_replacing kind hr [] codes_lt h32 []
  · exact ⟨ps, fuel, hsplits, hrun⟩
  · exact absurd hover' (hover mid v after heq)

lemma replaces_of (hr : action.replacement = some r) (h32 : src.length < 2 ^ 32)
    (hover : ∀ before v rest, codes src = before ++ v :: rest → ¬ OverrunsAt .utf8Chars before v rest) :
    Replaces action src := by
  obtain ⟨ps, fuel, hsplits, hrun⟩ := done_of_splits hr h32 hover
  refine ⟨r, ps, fuel, hr, hrun, hsplits.flatMap_bytes, fun c hc => accepted_utf8.1 (hsplits.accepted hc), ?_⟩
  intro before cs after hne hcs heq
  obtain ⟨c, cs, rfl⟩ := exists_cons_of_ne_nil hne
  have hcs' : ∀ c' ∈ c :: cs, Accepted .utf8Chars c' := fun c' hc' => accepted_utf8.2 (hcs c' hc')
  obtain ⟨first, tails, hbytes, hfirst, -, -⟩ := utf8_eq_cons (hcs c (.head _)).1
  have hsplit : (c :: cs).flatMap utf8 ++ after = first :: (tails ++ (cs.flatMap utf8 ++ after)) := by
    simp [hbytes]
  rw [hsplit] at heq
  obtain ⟨ps₁, ps₂, rfl, hps, hvisit⟩ := hsplits.visit heq hfirst
  rw [← hsplit] at hvisit
  obtain ⟨ps₃, rfl, -⟩ := hvisit.stretch hcs'
  exact ⟨ps₁, ps₃, rfl, hps⟩

/-! ## Two passes -/

lemma copyASCIILoop_eq {before rest dst : List ℕ} (h32 : (before ++ rest).length < 2 ^ 32) :
    ∃ fuel, copyASCIILoop charT (before ++ rest) fuel before.length dst =
      some (dst ++ rest.map fun b => charT.cast b) := by
  induction rest generalizing before dst with
  | nil => exact ⟨1, by rw [copyASCIILoop, append_nil, getElem?_eq_none le_rfl, map_nil, append_nil]⟩
  | cons b rest ih =>
    have happend : before ++ b :: rest = (before ++ [b]) ++ rest := by
      rw [append_assoc]
      rfl
    have hmod : uint32 (before.length + 1) = (before ++ [b]).length := by
      rw [List.length_append, length_singleton]
      refine Nat.mod_eq_of_lt ?_
      rw [List.length_append, length_cons] at h32
      omega
    rw [happend] at h32
    obtain ⟨fuel, hrun⟩ := @ih (before ++ [b]) (dst ++ [charT.cast b]) h32
    refine ⟨fuel + 1, ?_⟩
    rw [copyASCIILoop, getElem?_append_right le_rfl, Nat.sub_self, getElem?_cons_zero]
    dsimp only
    rw [hmod, happend, hrun, append_assoc, map_cons]
    rfl

lemma copyASCIILoop_mono {bytes dst dst' : List ℕ} {fuel i : ℕ} (h : copyASCIILoop charT bytes fuel i dst = some dst')
    (more : ℕ) : copyASCIILoop charT bytes (fuel + more) i dst = some dst' := by
  induction fuel generalizing i dst with
  | zero => exact nomatch h
  | succ fuel ih =>
    rw [add_right_comm, copyASCIILoop]
    rw [copyASCIILoop] at h
    cases hget : bytes[i]? with
    | none =>
      rw [hget] at h
      exact h
    | some b =>
      rw [hget] at h
      exact ih h

/-- The helper, once the counting pass has come to an end and the copying pass as well. -/
lemma helper_eq {units stored : List ℕ} {fuel fuel' : ℕ}
    (hcount : inflateUTF8ToUTF16 action kind src fuel = some (.done units))
    (hcopy : copyAndInflateUTF8IntoBuffer charT.errorMode charT kind src (units.all (· < 0x80)) fuel' = some stored) :
    inflateUTF8StringHelper action charT kind src (fuel + fuel') = some { outlen := units.length, stored } := by
  have hcount' : inflateUTF8ToUTF16 action kind src (fuel + fuel') = some (.done units) := inflateLoop_mono hcount fuel'
  have hcopy' : copyAndInflateUTF8IntoBuffer charT.errorMode charT kind src (units.all (· < 0x80)) (fuel + fuel') =
      some stored := by
    rw [copyAndInflateUTF8IntoBuffer] at hcopy ⊢
    split_ifs at hcopy ⊢ with hascii
    · rw [add_comm]
      exact copyASCIILoop_mono hcopy fuel
    · cases hrun : inflateUTF8ToUTF16 charT.errorMode kind src fuel' with
      | none =>
        rw [hrun] at hcopy
        exact nomatch hcopy
      | some o =>
        have hrun' : inflateUTF8ToUTF16 charT.errorMode kind src (fuel + fuel') = some o := by
          rw [add_comm]
          exact inflateLoop_mono hrun fuel
        rw [hrun] at hcopy
        rw [hrun']
        exact hcopy
  rw [inflateUTF8StringHelper, hcount']
  dsimp only
  rw [hcopy']
  rfl

lemma passes_of_helper {fuel : ℕ} {inflated : Inflated}
    (h : inflateUTF8StringHelper action charT kind src fuel = some inflated) :
    ∃ units, inflateUTF8ToUTF16 action kind src fuel = some (.done units) ∧ inflated.outlen = units.length ∧
      copyAndInflateUTF8IntoBuffer charT.errorMode charT kind src (units.all (· < 0x80)) fuel =
        some inflated.stored := by
  rw [inflateUTF8StringHelper] at h
  split at h
  · rename_i units hrun
    obtain ⟨stored, hstored, rfl⟩ := Option.map_eq_some_iff.1 h
    simp [hrun, hstored]
  · exact nomatch h

/-- The bytes of a piece beyond the first one, where its units are ASCII. -/
def Piece.given : Piece → ℕ
  | .char _ => 0
  | .bad _ tails => tails.length

lemma length_bytes_of_ascii (ps : List Piece) (h : ∀ u ∈ ps.flatMap (units r), u < 0x80) :
    (ps.flatMap bytes).length = (ps.flatMap (units r)).length + (ps.map given).sum := by
  induction ps with
  | nil => rfl
  | cons p ps ih =>
    have ih' := ih fun u hu => h u (by rw [flatMap_cons]; exact mem_append_right _ hu)
    have hp : ∀ u ∈ p.units r, u < 0x80 := fun u hu => h u (by rw [flatMap_cons]; exact mem_append_left _ hu)
    rw [flatMap_cons, flatMap_cons, List.length_append, List.length_append, map_cons, sum_cons, ih']
    have hone : p.bytes.length = (p.units r).length + p.given := by
      cases p with
      | bad v tails =>
        rw [bytes, units, given, length_cons, length_singleton, add_comm]
      | char c =>
        rw [units] at hp
        have hc : c < 0x80 := by
          by_cases hbmp : c < 0x10000
          · exact hp c (by rw [utf16, if_pos hbmp]; exact .head _)
          · have hlead := hp (0xD800 + (c - 0x10000) / 1024) (by rw [utf16, if_neg hbmp]; exact .head _)
            omega
        simp [bytes, units, given, utf8, utf16, hc, if_pos (show c < 0x10000 by omega)]
    omega

/-- The passes agree where a source of ASCII units has as many bytes, and the copying pass puts the same units out. -/
lemma agree_of (h32 : src.length < 2 ^ 32) {units : List ℕ} {fuel fuel' : ℕ}
    (hcount : inflateUTF8ToUTF16 action kind src fuel = some (.done units))
    (hascii : (∀ u ∈ units, u < 0x80) → (codes src).length = units.length)
    (hcopy : inflateUTF8ToUTF16 charT.errorMode kind src fuel' = some (.done units)) :
    ∃ fuel inflated, inflateUTF8StringHelper action charT kind src fuel = some inflated ∧
      inflated.outlen = units.length ∧ inflated.stored.length = inflated.outlen := by
  by_cases hall : units.all (· < 0x80) = true
  · rw [← length_codes] at h32
    obtain ⟨fuel'', hrun⟩ := @copyASCIILoop_eq charT [] (codes src) [] h32
    have hstored : copyAndInflateUTF8IntoBuffer charT.errorMode charT kind src (units.all (· < 0x80)) fuel'' =
        some ((codes src).map fun b => charT.cast b) := by
      rw [copyAndInflateUTF8IntoBuffer, if_pos hall]
      exact hrun
    refine ⟨_, _, helper_eq hcount hstored, rfl, ?_⟩
    dsimp only
    rw [length_map]
    exact hascii fun u hu => of_decide_eq_true (all_eq_true.1 hall u hu)
  · have hstored : copyAndInflateUTF8IntoBuffer charT.errorMode charT kind src (units.all (· < 0x80)) fuel' =
        some (units.map fun c => charT.cast c) := by
      rw [copyAndInflateUTF8IntoBuffer, if_neg hall, hcopy]
    exact ⟨_, _, helper_eq hcount hstored, rfl, length_map _⟩

/-- Where the counting pass throws on what is not well-formed. -/
lemma agree_of_throw (h32 : src.length < 2 ^ 32) {units : List ℕ} {fuel : ℕ}
    (hcount : inflateUTF8ToUTF16 .throw kind src fuel = some (.done units)) :
    ∃ fuel inflated, inflateUTF8StringHelper .throw charT kind src fuel = some inflated ∧
      inflated.outlen = units.length ∧ inflated.stored.length = inflated.outlen := by
  have h32' := h32
  rw [← length_codes] at h32'
  obtain ⟨cs, fuel', hcs, heq, hrun⟩ | ⟨-, -, -, -, -, -, ⟨fuel', report, hrun⟩ | ⟨-, fuel', hrun⟩⟩ :=
    inflateLoop_throwing kind [] codes_lt h32' []
  · obtain rfl : cs.flatMap utf16 = units := (Outcome.done.inj (inflateLoop_unique hcount hrun)).symm
    have hnil : cs.flatMap utf8 ++ [] = codes src := by rw [append_nil, heq]
    have hchars := inflateLoop_chars charT.errorMode [] [] hcs (hnil ▸ codes_lt) (hnil ▸ h32') 1
    rw [append_nil, nil_append, nil_append, ← heq, inflateLoop, append_nil, getElem?_eq_none le_rfl] at hchars
    refine agree_of h32 hcount (fun hascii => ?_) hchars
    have hps : (cs.map char).flatMap (units 0) = cs.flatMap utf16 := by
      rw [flatMap_map]
      rfl
    have hbytes : (cs.map char).flatMap bytes = cs.flatMap utf8 := by
      rw [flatMap_map]
      rfl
    have hlength := length_bytes_of_ascii (r := 0) (cs.map char) (by rw [hps]; exact hascii)
    rw [hps, hbytes, ← heq] at hlength
    simp [hlength, show given ∘ char = fun _ => 0 from rfl]
  · cases inflateLoop_unique hcount hrun
  · cases inflateLoop_unique hcount hrun

lemma hasNonASCII_of_mem {ps : List Piece} (hbytes : ps.flatMap bytes = codes src) (hc : .char c ∈ ps)
    (hs : IsScalar c) (h : 0x80 ≤ c) : HasNonASCII src := by
  obtain ⟨ps₁, ps₂, rfl⟩ := append_of_mem hc
  refine ⟨ps₁.flatMap bytes, c, ps₂.flatMap bytes, ?_, hs, h⟩
  rw [← hbytes, flatMap_append, flatMap_cons]
  rfl

/-- A character that is not ASCII is put out as it is. -/
lemma unit_of_hasNonASCII {ps : List Piece} (hsplits : Splits .utf8Chars [] (codes src) ps) (h : HasNonASCII src) :
    ∃ u ∈ ps.flatMap (units r), ¬ u < 0x80 := by
  obtain ⟨before, c, after, heq, hs, hge⟩ := h
  obtain ⟨first, tails, hbytes, hfirst, -, -⟩ := utf8_eq_cons hs.1
  rw [hbytes, cons_append] at heq
  obtain ⟨ps₁, ps₂, rfl, -, hvisit⟩ := hsplits.visit heq hfirst
  rw [← cons_append, ← hbytes] at hvisit
  obtain ⟨ps₃, rfl, -⟩ := hvisit.of_char (accepted_utf8.2 hs)
  have hunit : ∃ u ∈ utf16 c, ¬ u < 0x80 := by
    by_cases hbmp : c < 0x10000
    · exact ⟨c, by rw [utf16, if_pos hbmp]; exact .head _, by omega⟩
    · exact ⟨0xD800 + (c - 0x10000) / 1024, by rw [utf16, if_neg hbmp]; exact .head _, by omega⟩
  obtain ⟨u, hu, hnot⟩ := hunit
  refine ⟨u, ?_, hnot⟩
  rw [flatMap_append, flatMap_cons]
  exact mem_append_right _ (mem_append_left _ hu)

lemma passes_of (h32 : src.length < 2 ^ 32) (h : HasNonASCII src ∨ ¬ Interrupted src) : PassesAgree src := by
  intro action charT kind hused fuel units hcount
  cases hused with
  | utf8CharsToNewTwoByteCharsZ => exact agree_of_throw h32 hcount
  | wtf8CharsToNewTwoByteCharsZ => exact agree_of_throw h32 hcount
  | utf8CharsToNewLatin1CharsZ => exact agree_of_throw h32 hcount
  | lossyUTF8CharsToNewTwoByteCharsZ =>
    refine agree_of h32 hcount (fun hascii => ?_) hcount
    obtain ⟨ps, hsplits, rfl⟩ := splits_of_done (r := replacementCharacter) rfl h32 hcount
    have hlength := length_bytes_of_ascii ps hascii
    rw [hsplits.flatMap_bytes] at hlength
    -- the replacement character itself is not ASCII
    have hgiven : (ps.map Piece.given).sum = 0 := by
      refine sum_eq_zero fun k hk => ?_
      obtain ⟨p, hp, rfl⟩ := mem_map.1 hk
      cases p with
      | char c => rfl
      | bad v tails =>
        have hlt := hascii replacementCharacter (mem_flatMap.2 ⟨_, hp, .head _⟩)
        exact absurd hlt (by decide)
    rw [hlength, hgiven]
    rfl
  | lossyUTF8CharsToNewLatin1CharsZ =>
    refine agree_of h32 hcount (fun hascii => ?_) hcount
    obtain ⟨ps, hsplits, rfl⟩ := splits_of_done (r := questionMark) rfl h32 hcount
    have hlength := length_bytes_of_ascii ps hascii
    rw [hsplits.flatMap_bytes] at hlength
    have hnot : ¬ Interrupted src := by
      refine h.resolve_left fun hnon => ?_
      obtain ⟨u, hu, hge⟩ := unit_of_hasNonASCII hsplits hnon
      exact hge (hascii u hu)
    have hgiven : (ps.map Piece.given).sum = 0 := by
      refine sum_eq_zero fun k hk => ?_
      obtain ⟨p, hp, rfl⟩ := mem_map.1 hk
      cases p with
      | char c => rfl
      | bad v tails =>
        by_contra hne
        obtain ⟨mid, w, rest, heq, hint⟩ := hsplits.interrupted hp fun hnil => hne (by rw [hnil]; rfl)
        exact hnot ⟨mid, w, rest, heq, hint⟩
    rw [hlength, hgiven]
    rfl

/-- An interrupted character among ASCII: the copying pass stores every byte, and the counting pass counts one unit. -/
lemma not_passes_of (h32 : src.length < 2 ^ 32) (hreplaces : Replaces .insertQuestionMark src)
    (hint : Interrupted src) (hnon : ¬ HasNonASCII src) : ¬ PassesAgree src := by
  intro hpasses
  obtain ⟨r, ps', fuel, hr, hcount, -⟩ := hreplaces
  obtain rfl : questionMark = r := Option.some.inj hr
  obtain ⟨fuel', inflated, hhelper, hout, hlength⟩ := hpasses _ _ _ .lossyUTF8CharsToNewLatin1CharsZ _ _ hcount
  obtain ⟨ps, hsplits, heq⟩ := splits_of_done rfl h32 hcount
  rw [heq] at hout hcount
  have hascii : ∀ u ∈ ps.flatMap (units questionMark), u < 0x80 := by
    intro u hu
    obtain ⟨p, hp, hu⟩ := mem_flatMap.1 hu
    cases p with
    | bad v tails =>
      rw [mem_singleton.1 hu]
      decide
    | char c =>
      have hc : c < 0x80 := by
        by_contra hnot
        exact hnon (hasNonASCII_of_mem hsplits.flatMap_bytes hp (accepted_utf8.1 (hsplits.accepted hp)) (by omega))
      rw [units, utf16, if_pos (by omega)] at hu
      rw [mem_singleton.1 hu]
      exact hc
  have hmore : (ps.flatMap (units questionMark)).length < (codes src).length := by
    have hsum := length_bytes_of_ascii ps hascii
    obtain ⟨before, v, rest, hsrc, hat⟩ := hint
    obtain ⟨tails, hmem, hne⟩ := hsplits.bad_of_interrupted hsrc hat
    have hle := single_le_sum (fun _ _ => zero_le _) _ (mem_map_of_mem (f := given) hmem)
    have hpos := length_pos_of_ne_nil hne
    rw [hsplits.flatMap_bytes] at hsum
    rw [given] at hle
    omega
  -- the helper stores the bytes of the source
  obtain ⟨units, hcount', hlen, hcopy⟩ := passes_of_helper hhelper
  cases inflateLoop_unique hcount hcount'
  have hall : (ps.flatMap (units questionMark)).all (· < 0x80) = true :=
    all_eq_true.2 fun u hu => decide_eq_true (hascii u hu)
  rw [copyAndInflateUTF8IntoBuffer, if_pos hall] at hcopy
  have h32' := h32
  rw [← length_codes] at h32'
  obtain ⟨fuel'', hrun⟩ := @copyASCIILoop_eq .latin1Char [] (codes src) [] h32'
  have hmono := copyASCIILoop_mono hrun fuel'
  have hstored : inflated.stored = (codes src).map fun b => CharT.latin1Char.cast b := by
    have hmono' := copyASCIILoop_mono hcopy fuel''
    rw [add_comm] at hmono'
    exact Option.some.inj (hmono'.symm.trans hmono)
  rw [hstored, length_map, hout] at hlength
  omega

/-- A source is inflated as it should be exactly when indices reach its end, the check of the length does not wrap, and
the passes do not count an interrupted character among ASCII. -/
lemma inflates_iff (src : List Byte) :
    Inflates src ↔ src.length < 2 ^ 32 ∧ ¬ Overruns src ∧ (HasNonASCII src ∨ ¬ Interrupted src) := by
  constructor
  · intro h
    obtain ⟨r, ps, fuel, hr, hrun, -⟩ := h.replacementCharacter
    have h32 : src.length < 2 ^ 32 := by
      by_contra hnot
      rw [← length_codes, not_lt] at hnot
      exact inflateLoop_endless hnot fuel (by decide) _ hrun
    refine ⟨h32, ?_, ?_⟩
    · rintro (⟨before, v, rest, heq, hover⟩ | ⟨cs, v, rest, hcs, heq, hover⟩)
      · obtain ⟨ps', hsplits, -⟩ := splits_of_done hr h32 hrun
        exact hsplits.not_overruns (by rw [nil_append, length_codes]; exact h32) heq hover
      · exact not_throws_of h32 (fun c hc => accepted_wtf8.2 (hcs c hc)) heq hover h.wtf8
    · by_contra hnot
      rw [not_or, not_not] at hnot
      exact not_passes_of h32 h.questionMark hnot.2 hnot.1 h.passes
  · rintro ⟨h32, hover, hpasses⟩
    have hover' : ∀ before v rest, codes src = before ++ v :: rest → ¬ OverrunsAt .utf8Chars before v rest :=
      fun before v rest heq h => hover (.inl ⟨before, v, rest, heq, h⟩)
    exact
      { utf8 := throws_of _ h32 fun cs v rest _ heq => hover' _ v rest heq
        wtf8 := throws_of _ h32 fun cs v rest hcs heq h =>
          hover (.inr ⟨cs, v, rest, fun c hc => accepted_wtf8.1 (hcs c hc), heq, h⟩)
        replacementCharacter := replaces_of (r := replacementCharacter) rfl h32 hover'
        questionMark := replaces_of (r := questionMark) rfl h32 hover'
        passes := passes_of h32 hpasses }

/-! ## The length in UTF-8 -/

lemma extraBytes_eq (h : 0x80 ≤ c) (hc : IsCodePoint c) : (utf8 c).length = extraBytes c + 1 := by
  have hle : c ≤ 0x10FFFF := hc
  rw [extraBytes, shiftRight_eq_div_pow]
  obtain ⟨hlt, heq⟩ | ⟨hlt, hlt', heq⟩ | ⟨hlt, hlt', heq⟩ | ⟨hlt, hlt', heq⟩ := utf8_cases hc
  · omega
  · rw [heq, deflatedBytes, if_neg (by omega)]
    rfl
  · rw [heq, deflatedBytes, if_pos (by omega), deflatedBytes, shiftRight_eq_div_pow, if_neg (by omega)]
    rfl
  · rw [heq, deflatedBytes, if_pos (by omega), deflatedBytes, shiftRight_eq_div_pow, if_pos (by omega),
      deflatedBytes, shiftRight_eq_div_pow, if_neg (by omega)]
    rfl

lemma utf16Decode_eq {u u' : ℕ} (hu : 0xD800 ≤ u ∧ u ≤ 0xDBFF) (hu' : 0xDC00 ≤ u' ∧ u' ≤ 0xDFFF) :
    utf16Decode u u' = 0x10000 + (u - 0xD800) * 1024 + (u' - 0xDC00) := by
  rw [utf16Decode, uint32, shiftLeft_eq, shiftLeft_eq, nonBMPMin]
  omega

lemma deflatedLoop_single {u : ℕ} {rest : List ℕ} (hu : u < 2 ^ 16)
    (hno : 0xD800 ≤ u ∧ u ≤ 0xDBFF → rest ≠ [] → ¬ (0xDC00 ≤ rest.headD 0 ∧ rest.headD 0 ≤ 0xDFFF)) (k : ℕ) :
    deflatedLoop (u :: rest) (k + 1) =
      deflatedLoop rest (k + (utf8 (if IsSurrogate u then 0xFFFD else u)).length) := by
  rw [deflatedLoop]
  by_cases hascii : u < 0x80
  · simp [hascii, if_neg (show ¬ IsSurrogate u from fun hs => by have hle := hs.1; omega), utf8]
  rw [if_neg hascii]
  by_cases hs : IsSurrogate u
  · rw [if_pos hs, if_pos hs, show (utf8 0xFFFD).length = 3 from rfl]
    by_cases htrail : isTrailSurrogate u = true ∨ rest = []
    · rw [if_pos htrail]
    rw [if_neg htrail, if_pos]
    rw [isTrailSurrogate, decide_eq_true_iff]
    rw [not_or, isTrailSurrogate, decide_eq_true_iff] at htrail
    obtain ⟨hge, hle⟩ := hs
    exact hno ⟨hge, by omega⟩ htrail.2
  · simp [hs, hs, extraBytes_eq (by omega) (show u ≤ 0x10FFFF by omega), add_assoc, add_comm 1]

lemma deflatedLoop_pair {u u' : ℕ} {rest : List ℕ} (hu : 0xD800 ≤ u ∧ u ≤ 0xDBFF) (hu' : 0xDC00 ≤ u' ∧ u' ≤ 0xDFFF)
    (k : ℕ) :
    deflatedLoop (u :: u' :: rest) (k + 2) =
      deflatedLoop rest (k + (utf8 (0x10000 + (u - 0xD800) * 1024 + (u' - 0xDC00))).length) := by
  have hnot : ¬ (isTrailSurrogate u = true ∨ u' :: rest = []) := by
    rw [isTrailSurrogate, decide_eq_true_iff]
    rintro (h | h)
    · omega
    · exact cons_ne_nil _ _ h
  have htrail : ¬ ¬ isTrailSurrogate ((u' :: rest).headD 0) = true := by
    simpa [isTrailSurrogate] using hu'
  rw [deflatedLoop, if_neg (by omega), if_pos ⟨hu.1, by omega⟩, if_neg hnot, if_neg htrail, headD_cons, tail_cons,
    utf16Decode_eq hu hu', extraBytes_eq (by omega) (show _ ≤ 0x10FFFF by omega)]
  congr 1
  omega

lemma deflatedLoop_eq (chars : List ℕ) (hchars : ∀ u ∈ chars, u < 2 ^ 16) (k : ℕ) :
    deflatedLoop chars (k + chars.length) = k + ((lossyScalars chars).flatMap utf8).length := by
  induction chars using lossyScalars.induct generalizing k with
  | case1 => rw [deflatedLoop]; rfl
  | case2 u =>
    simp [deflatedLoop_single (hchars u (.head _)) (fun _ h => absurd rfl h), deflatedLoop, lossyScalars]
  | case3 u u' rest hpair ih =>
    have hrest : ∀ u ∈ rest, u < 2 ^ 16 := fun u hu => hchars u (.tail _ (.tail _ hu))
    rw [length_cons, length_cons, add_assoc, ← add_assoc k, deflatedLoop_pair hpair.1 hpair.2,
      add_right_comm, ih hrest, lossyScalars, if_pos hpair, flatMap_cons, List.length_append, add_assoc]
  | case4 u u' rest hpair ih =>
    have hrest : ∀ u ∈ u' :: rest, u < 2 ^ 16 := fun u hu => hchars u (.tail _ hu)
    have hno : 0xD800 ≤ u ∧ u ≤ 0xDBFF → u' :: rest ≠ [] →
        ¬ (0xDC00 ≤ (u' :: rest).headD 0 ∧ (u' :: rest).headD 0 ≤ 0xDFFF) := fun h _ h' => hpair ⟨h, h'⟩
    rw [length_cons, ← add_assoc, deflatedLoop_single (hchars u (.head _)) hno,
      add_right_comm, ih hrest, lossyScalars, if_neg hpair, flatMap_cons, List.length_append, add_assoc]

/-! ## The main result -/

/-- Sources are inflated as they should be exactly when indices reach their ends, no check of a length wraps, and no
character among ASCII is interrupted; and the length in UTF-8 is right for every sequence of units. -/
theorem inflates_iff_and_deflates (src : List Byte) (chars : List (BitVec 16)) :
    (Inflates src ↔ src.length < 2 ^ 32 ∧ ¬ Overruns src ∧ (HasNonASCII src ∨ ¬ Interrupted src)) ∧
    getDeflatedUTF8StringLength chars = ((lossyScalars (chars.map BitVec.toNat)).flatMap utf8).length := by
  refine ⟨inflates_iff src, ?_⟩
  have hchars : ∀ u ∈ chars.map BitVec.toNat, u < 2 ^ 16 := fun u hu => by
    obtain ⟨bits, -, rfl⟩ := mem_map.1 hu
    exact bits.isLt
  have heq := deflatedLoop_eq (chars.map BitVec.toNat) hchars 0
  rwa [zero_add, zero_add, length_map] at heq

/-- Three bytes of a character and a parenthesis: two units are counted, and four are stored. -/
theorem inflates_interrupted : ¬ ∀ src : List Byte, Inflates src := by
  intro hall
  have hcount : inflateUTF8ToUTF16 .insertQuestionMark .utf8Chars [0xF0, 0x9F, 0x98, 0x28] 3 =
      some (.done [0x3F, 0x28]) := rfl
  obtain ⟨fuel, inflated, hhelper, hout, hlength⟩ :=
    (hall [0xF0, 0x9F, 0x98, 0x28]).passes _ _ _ .lossyUTF8CharsToNewLatin1CharsZ _ _ hcount
  obtain ⟨units, hcount', -, hcopy⟩ := passes_of_helper hhelper
  cases inflateLoop_unique hcount hcount'
  have hrun : copyASCIILoop .latin1Char [0xF0, 0x9F, 0x98, 0x28] (5 + fuel) 0 [] = some [0xF0, 0x9F, 0x98, 0x28] :=
    copyASCIILoop_mono rfl fuel
  have hrun' : copyASCIILoop .latin1Char [0xF0, 0x9F, 0x98, 0x28] (fuel + 5) 0 [] = some inflated.stored :=
    copyASCIILoop_mono hcopy 5
  rw [add_comm, hrun'] at hrun
  rw [hout, Option.some.inj hrun] at hlength
  cases hlength

end SpiderMonkey.CharacterEncoding

import SpiderMonkey.Vm.CharacterDecoding

/-!
# The loop over the source

How the source is split into characters and into what is given up, and that the loop puts out the units of that split:
up to the first invalid character where the mode throws, and to the end where it replaces.
-/

namespace SpiderMonkey.CharacterEncoding

open List
open LittleEndian (Byte)
open Utf

/-- A character, or a first byte and tails that are given up. -/
inductive Piece
  | char (c : ℕ)
  | bad (v : ℕ) (tails : List ℕ)

def Piece.bytes : Piece → List ℕ
  | .char c => utf8 c
  | .bad v tails => v :: tails

/-- The units that are put out for a piece. -/
def Piece.units (replacement : ℕ) : Piece → List ℕ
  | .char c => utf16 c
  | .bad _ _ => [replacement]

/-- The pieces that the loop finds in the rest of the source, after what is before it. -/
inductive Splits (kind : InputChars) : List ℕ → List ℕ → List Piece → Prop
  | stop {before : List ℕ} : Splits kind before [] []
  | char {before rest : List ℕ} {c : ℕ} {ps : List Piece} (hc : Accepted kind c)
      (h : Splits kind (before ++ utf8 c) rest ps) : Splits kind before (utf8 c ++ rest) (.char c :: ps)
  | bad {before tails rest : List ℕ} {v : ℕ} {ps : List Piece} (hbad : GivenUp kind before v tails rest)
      (h : Splits kind (before ++ v :: tails) rest ps) : Splits kind before (v :: (tails ++ rest)) (.bad v tails :: ps)

variable {kind : InputChars} {action : OnUTF8Error} {before rest after mid src tails out : List ℕ} {v n b c i r : ℕ}
  {ps : List Piece}

/-! ## Where pieces begin -/

/-- What begins with a piece, and has a byte that is not a tail further on, has the whole piece before that byte. -/
lemma exists_of_cons {first : ℕ} (h : first :: tails ++ rest = mid ++ v :: after) (hmid : mid ≠ [])
    (hv : ¬ IsTail v) (htails : ∀ b ∈ tails, IsTail b) :
    ∃ mid', mid = first :: tails ++ mid' ∧ rest = mid' ++ v :: after := by
  obtain ⟨m, mid, rfl⟩ := exists_cons_of_ne_nil hmid
  rw [cons_append, cons_append, List.cons.injEq] at h
  obtain ⟨rfl, h⟩ := h
  have hle := length_le_of_tails h.symm hv htails
  obtain ⟨mid', rfl⟩ := prefix_of_prefix_length_le (prefix_append tails rest)
    (by rw [h]; exact prefix_append mid (v :: after)) hle
  rw [append_assoc] at h
  exact ⟨mid', rfl, append_cancel_left h⟩

lemma Splits.flatMap_bytes (h : Splits kind before rest ps) : ps.flatMap Piece.bytes = rest := by
  induction h with
  | stop => rfl
  | char hc h ih => rw [flatMap_cons, ih]; rfl
  | bad hbad h ih => rw [flatMap_cons, ih]; rfl

/-- A piece begins at every byte that is not a tail. -/
lemma Splits.visit (h : Splits kind before rest ps) (heq : rest = mid ++ v :: after) (hv : ¬ IsTail v) :
    ∃ ps₁ ps₂, ps = ps₁ ++ ps₂ ∧ ps₁.flatMap Piece.bytes = mid ∧ Splits kind (before ++ mid) (v :: after) ps₂ := by
  induction h generalizing mid with
  | stop => exact absurd heq (append_ne_nil_of_right_ne_nil _ (cons_ne_nil _ _)).symm
  | @char before rest c ps hc h ih =>
    by_cases hmid : mid = []
    · subst hmid
      rw [nil_append] at heq
      exact ⟨[], .char c :: ps, rfl, rfl, by rw [append_nil, ← heq]; exact .char hc h⟩
    obtain ⟨first, tails, hbytes, -, -, htails⟩ := utf8_eq_cons hc.1
    rw [hbytes] at heq
    obtain ⟨mid', rfl, hrest⟩ := exists_of_cons heq hmid hv htails
    obtain ⟨ps₁, ps₂, rfl, hps, hsplits⟩ := ih hrest
    refine ⟨.char c :: ps₁, ps₂, rfl, ?_, ?_⟩
    · rw [flatMap_cons, hps, ← hbytes]
      rfl
    · rw [← hbytes, ← append_assoc]
      exact hsplits
  | @bad before tails rest first ps hbad h ih =>
    by_cases hmid : mid = []
    · subst hmid
      rw [nil_append] at heq
      exact ⟨[], .bad first tails :: ps, rfl, rfl, by rw [append_nil, ← heq]; exact .bad hbad h⟩
    obtain ⟨mid', rfl, hrest⟩ := exists_of_cons heq hmid hv hbad.areTails
    obtain ⟨ps₁, ps₂, rfl, hps, hsplits⟩ := ih hrest
    refine ⟨.bad first tails :: ps₁, ps₂, rfl, ?_, ?_⟩
    · rw [flatMap_cons, hps]
      rfl
    · rw [← append_assoc]
      exact hsplits

/-- Where a character begins, the piece is that character. -/
lemma Splits.of_char (hc : Accepted kind c) (h : Splits kind before (utf8 c ++ after) ps) :
    ∃ ps', ps = .char c :: ps' ∧ Splits kind (before ++ utf8 c) after ps' := by
  generalize hrest : utf8 c ++ after = rest at h
  cases h with
  | stop =>
    obtain ⟨first, tails, hbytes, -⟩ := utf8_eq_cons hc.1
    rw [hbytes] at hrest
    exact absurd hrest (cons_ne_nil _ _)
  | @char _ rest c' ps hc' h =>
    obtain rfl := utf8_append_inj hc.1 hc'.1 hrest
    obtain rfl := append_cancel_left hrest
    simp [h]
  | bad hbad h => exact absurd hrest.symm (hbad.malformed c after hc)

lemma Splits.stretch {cs : List ℕ} (hcs : ∀ c ∈ cs, Accepted kind c)
    (h : Splits kind before (cs.flatMap utf8 ++ after) ps) :
    ∃ ps', ps = cs.map Piece.char ++ ps' ∧ Splits kind (before ++ cs.flatMap utf8) after ps' := by
  induction cs generalizing before ps with
  | nil => exact ⟨ps, rfl, by rw [flatMap_nil, append_nil]; exact h⟩
  | cons c cs ih =>
    rw [flatMap_cons, append_assoc] at h
    obtain ⟨ps', rfl, h'⟩ := h.of_char (hcs c (.head _))
    obtain ⟨ps'', rfl, h''⟩ := ih (fun c hc => hcs c (.tail _ hc)) h'
    refine ⟨ps'', rfl, ?_⟩
    simpa using h''

lemma Splits.accepted (h : Splits kind before rest ps) (hc : .char c ∈ ps) : Accepted kind c := by
  induction h with
  | stop => exact absurd hc not_mem_nil
  | char hc' h ih =>
    obtain heq | hmem := mem_cons.1 hc
    · rw [Piece.char.inj heq]
      exact hc'
    · exact ih hmem
  | bad hbad h ih =>
    obtain heq | hmem := mem_cons.1 hc
    · exact nomatch heq
    · exact ih hmem

lemma Splits.interrupted (h : Splits kind before rest ps) (hbad : .bad v tails ∈ ps) (hne : tails ≠ []) :
    ∃ mid v rest', rest = mid ++ v :: rest' ∧ InterruptedAt kind (before ++ mid) v rest' := by
  induction h with
  | stop => exact absurd hbad not_mem_nil
  | @char _ _ c _ _ h ih =>
    obtain heq | hmem := mem_cons.1 hbad
    · exact nomatch heq
    · obtain ⟨mid, v, rest', rfl, hint⟩ := ih hmem
      exact ⟨utf8 c ++ mid, v, rest', (append_assoc _ _ _).symm, by rwa [← append_assoc]⟩
  | @bad before tails' rest v' ps hgiven h ih =>
    obtain heq | hmem := mem_cons.1 hbad
    · cases heq
      exact ⟨[], v, tails ++ rest, rfl, by rw [append_nil]; exact hgiven.interrupted.1 hne⟩
    · obtain ⟨mid, v, rest', rfl, hint⟩ := ih hmem
      refine ⟨v' :: tails' ++ mid, v, rest', ?_, by rwa [← append_assoc]⟩
      simp

lemma malformed_of_overruns (h32 : (before ++ v :: rest).length < 2 ^ 32) (h : OverrunsAt kind before v rest) :
    Malformed kind (v :: rest) := by
  obtain ⟨n, hlead, hwrap, -⟩ := h
  refine malformed_of_tails hlead fun tails after hrest hlength _ => ?_
  have hle := congrArg List.length hrest
  rw [List.length_append] at hle
  rw [List.length_append, length_cons] at h32
  omega

lemma malformed_of_interrupted (h : InterruptedAt kind before v rest) : Malformed kind (v :: rest) := by
  obtain ⟨n, tails, next, after, hlead, -, rfl, -, hlt, -, hnext, -⟩ := h
  refine malformed_of_tails hlead fun tails' after' hrest hlength htails => ?_
  have hle := length_le_of_tails hrest hnext htails
  omega

/-- Nothing is split where the source overruns. -/
lemma Splits.not_overruns (h : Splits kind before rest ps) (h32 : (before ++ rest).length < 2 ^ 32)
    (heq : rest = mid ++ v :: after) : ¬ OverrunsAt kind (before ++ mid) v after := by
  intro hover
  have hmal : Malformed kind (v :: after) := by
    refine malformed_of_overruns ?_ hover
    rw [append_assoc, ← heq]
    exact h32
  obtain ⟨n, hlead, -⟩ := id hover
  obtain ⟨-, ps₂, -, -, hsplits⟩ := h.visit heq hlead.not_tail
  generalize hrest : v :: after = rest' at hsplits
  cases hsplits with
  | stop => exact nomatch hrest
  | char hc _ => exact hmal _ _ hc hrest
  | bad hbad _ =>
    cases hrest
    exact hbad.inside hover

lemma Splits.bad_of_interrupted (h : Splits kind before rest ps) (heq : rest = mid ++ v :: after)
    (hint : InterruptedAt kind (before ++ mid) v after) : ∃ tails, .bad v tails ∈ ps ∧ tails ≠ [] := by
  have hmal := malformed_of_interrupted hint
  obtain ⟨n, tails', next, after', hlead, -⟩ := id hint
  obtain ⟨ps₁, ps₂, rfl, -, hsplits⟩ := h.visit heq hlead.not_tail
  generalize hrest : v :: after = rest' at hsplits
  cases hsplits with
  | stop => exact nomatch hrest
  | char hc _ => exact absurd hrest (hmal _ _ hc)
  | @bad _ tails _ _ _ hbad _ =>
    cases hrest
    exact ⟨tails, mem_append_right _ (.head _), hbad.interrupted.2 hint⟩

/-! ## Runs of the loop -/

lemma inflateLoop_mono {fuel : ℕ} {o : Outcome} (h : inflateLoop action kind src fuel i out = some o) (more : ℕ) :
    inflateLoop action kind src (fuel + more) i out = some o := by
  induction fuel generalizing i out with
  | zero => exact nomatch h
  | succ fuel ih =>
    rw [Nat.add_right_comm, inflateLoop]
    rw [inflateLoop] at h
    cases hget : src[i]? with
    | none =>
      rw [hget] at h
      exact h
    | some v =>
      rw [hget] at h
      dsimp only at h ⊢
      cases hdecode : decodeAt kind src i v with
      | outOfBounds =>
        rw [hdecode] at h
        exact h
      | units us n =>
        rw [hdecode] at h
        exact ih h
      | invalid report n2 =>
        rw [hdecode] at h
        dsimp only at h ⊢
        cases hr : action.replacement with
        | none =>
          rw [hr] at h
          exact h
        | some r =>
          rw [hr] at h
          exact ih h

lemma inflateLoop_unique {fuel fuel' : ℕ} {o o' : Outcome} (h : inflateLoop action kind src fuel i out = some o)
    (h' : inflateLoop action kind src fuel' i out = some o') : o = o' := by
  have hmono := inflateLoop_mono h fuel'
  rw [Nat.add_comm, inflateLoop_mono h' fuel] at hmono
  exact (Option.some.inj hmono).symm

lemma inflateLoop_endless (h32 : 2 ^ 32 ≤ src.length) (fuel : ℕ) (hi : i < 2 ^ 32) (us : List ℕ) :
    inflateLoop action kind src fuel i out ≠ some (.done us) := by
  induction fuel generalizing i out with
  | zero => exact nofun
  | succ fuel ih =>
    have hnext : ∀ n, uint32 n < 2 ^ 32 := fun n => Nat.mod_lt _ (by decide)
    rw [inflateLoop, getElem?_eq_getElem (hi.trans_le h32)]
    dsimp only
    cases decodeAt kind src i src[i] with
    | outOfBounds => exact nofun
    | units us n => exact ih (hnext _)
    | invalid report n2 =>
      cases hr : action.replacement with
      | none => cases action <;> exact nofun
      | some r => exact ih (hnext _)

lemma inflateLoop_char (hc : Accepted kind c) (hbytes : ∀ b ∈ utf8 c ++ rest, b < 256)
    (h32 : (before ++ (utf8 c ++ rest)).length < 2 ^ 32) (fuel : ℕ) :
    inflateLoop action kind (before ++ (utf8 c ++ rest)) (fuel + 1) before.length out =
      inflateLoop action kind ((before ++ utf8 c) ++ rest) fuel (before ++ utf8 c).length (out ++ utf16 c) := by
  obtain ⟨first, tails, heq, hfirst, -, -⟩ := utf8_eq_cons hc.1
  rw [append_assoc before (utf8 c) rest]
  generalize hsrc : utf8 c ++ rest = bytes at *
  have hcons : bytes = first :: (tails ++ rest) := by
    rw [← hsrc, heq]
    rfl
  rw [inflateLoop, getElem?_append_right le_rfl, Nat.sub_self, hcons, getElem?_cons_zero]
  dsimp only
  rw [hcons] at h32 hbytes
  have hcases := decodeAt_cases kind before (hbytes first (.head _)) (fun b hb => hbytes b (.tail _ hb)) h32
  obtain ⟨c', after, hc', heq', hdecode⟩ | ⟨report, tails', after', hrest, hgiven, -⟩ |
    ⟨-, hmal, -⟩ := hcases
  · rw [← hcons, ← hsrc] at heq'
    obtain rfl := utf8_append_inj hc.1 hc'.1 heq'
    rw [hdecode]
    have hmod : uint32 (before.length + (utf8 c).length) = (before ++ utf8 c).length := by
      rw [List.length_append]
      refine Nat.mod_eq_of_lt ?_
      rw [← hcons, ← hsrc, List.length_append, List.length_append] at h32
      omega
    dsimp only
    rw [hmod]
  · have hmal := hgiven.malformed
    rw [← hrest, ← hcons, ← hsrc] at hmal
    exact absurd rfl (hmal c rest hc)
  · rw [← hcons, ← hsrc] at hmal
    exact absurd rfl (hmal c rest hc)

lemma inflateLoop_chars (action : OnUTF8Error) (before out : List ℕ) {cs : List ℕ} (hcs : ∀ c ∈ cs, Accepted kind c)
    (hbytes : ∀ b ∈ cs.flatMap utf8 ++ rest, b < 256)
    (h32 : (before ++ (cs.flatMap utf8 ++ rest)).length < 2 ^ 32) (fuel : ℕ) :
    inflateLoop action kind (before ++ (cs.flatMap utf8 ++ rest)) (fuel + cs.length) before.length out =
      inflateLoop action kind ((before ++ cs.flatMap utf8) ++ rest) fuel (before ++ cs.flatMap utf8).length
        (out ++ cs.flatMap utf16) := by
  induction cs generalizing before out with
  | nil => rw [flatMap_nil, append_nil, flatMap_nil, append_nil]; rfl
  | cons c cs ih =>
    rw [flatMap_cons, append_assoc] at h32 hbytes
    rw [flatMap_cons, append_assoc, length_cons, ← Nat.add_assoc, inflateLoop_char (hcs c (.head _)) hbytes h32]
    rw [ih _ _ (fun c hc => hcs c (.tail _ hc)) (fun b hb => hbytes b (mem_append_right _ hb))
      (by rwa [append_assoc])]
    simp

/-- A replacing run splits the whole rest, or overruns. -/
theorem inflateLoop_replacing (kind : InputChars) (hr : action.replacement = some r) (before : List ℕ)
    (hbytes : ∀ b ∈ rest, b < 256) (h32 : (before ++ rest).length < 2 ^ 32) (out : List ℕ) :
    (∃ ps fuel, Splits kind before rest ps ∧ inflateLoop action kind (before ++ rest) fuel before.length out =
          some (.done (out ++ ps.flatMap (Piece.units r)))) ∨
      ((∃ mid v after, rest = mid ++ v :: after ∧ OverrunsAt kind (before ++ mid) v after) ∧
        ∃ fuel, inflateLoop action kind (before ++ rest) fuel before.length out = some .outOfBounds) := by
  -- on the length of the rest: every round takes at least one byte
  induction hlength : rest.length using Nat.strong_induction_on generalizing before rest out with
  | _ k ih =>
    subst hlength
    cases rest with
    | nil =>
      refine .inl ⟨[], 1, .stop, ?_⟩
      simp [inflateLoop]
    | cons v rest =>
      have hv := hbytes v (.head _)
      have hbytes' : ∀ b ∈ rest, b < 256 := fun b hb => hbytes b (.tail _ hb)
      have hcases := decodeAt_cases kind before hv hbytes' h32
      obtain ⟨c, after, hc, heq, -⟩ | ⟨report, tails, after, rfl, hgiven, hdecode⟩ | ⟨hover, -, hdecode⟩ := hcases
      · have hpos := length_utf8_pos c
        rw [heq] at hbytes h32 ⊢
        have hstep := @inflateLoop_char kind action before after out c hc hbytes h32
        rw [← append_assoc] at h32
        have hlt : after.length < (utf8 c ++ after).length := by
          rw [List.length_append]
          omega
        obtain ⟨ps, fuel, hsplits, hrun⟩ | ⟨⟨mid, w, after', hafter, hover⟩, fuel, hrun⟩ :=
          ih after.length (heq ▸ hlt) _ (fun b hb => hbytes b (mem_append_right _ hb)) h32 (out ++ utf16 c) rfl
        · refine .inl ⟨.char c :: ps, fuel + 1, .char hc hsplits, ?_⟩
          rw [hstep, hrun, append_assoc]
          rfl
        · refine .inr ⟨⟨utf8 c ++ mid, w, after', ?_, ?_⟩, fuel + 1, (hstep fuel).trans hrun⟩
          · simp [hafter]
          · rwa [← append_assoc]
      · have happend : before ++ v :: (tails ++ after) = (before ++ v :: tails) ++ after := by
          simp
        have hstep : ∀ fuel, inflateLoop action kind (before ++ v :: (tails ++ after)) (fuel + 1) before.length out =
            inflateLoop action kind ((before ++ v :: tails) ++ after) fuel (before ++ v :: tails).length
              (out ++ [r]) := by
          intro fuel
          have hmod : uint32 (before.length + (tails.length + 1)) = (before ++ v :: tails).length := by
            rw [List.length_append, length_cons]
            refine Nat.mod_eq_of_lt ?_
            rw [happend, List.length_append, List.length_append, length_cons] at h32
            omega
          rw [inflateLoop, getElem?_append_right le_rfl, Nat.sub_self, getElem?_cons_zero]
          dsimp only
          rw [hdecode, hr]
          dsimp only
          rw [hmod, happend]
        rw [happend] at h32
        have hlt : after.length < (v :: (tails ++ after)).length := by
          rw [length_cons, List.length_append]
          omega
        obtain ⟨ps, fuel, hsplits, hrun⟩ | ⟨⟨mid, w, after', hafter, hover⟩, fuel, hrun⟩ :=
          ih after.length hlt _ (fun b hb => hbytes' b (mem_append_right _ hb)) h32 (out ++ [r]) rfl
        · refine .inl ⟨.bad v tails :: ps, fuel + 1, .bad hgiven hsplits, ?_⟩
          rw [hstep, hrun, append_assoc]
          rfl
        · refine .inr ⟨⟨v :: tails ++ mid, w, after', ?_, ?_⟩, fuel + 1, (hstep fuel).trans hrun⟩
          · simp [hafter]
          · rwa [← append_assoc]
      · refine .inr ⟨⟨[], v, rest, rfl, by rwa [append_nil]⟩, 1, ?_⟩
        rw [inflateLoop, getElem?_append_right le_rfl, Nat.sub_self, getElem?_cons_zero]
        dsimp only
        rw [hdecode]

/-- A throwing run comes to the end of a well-formed rest; otherwise it throws, or overruns after characters. -/
theorem inflateLoop_throwing (kind : InputChars) (before : List ℕ) (hbytes : ∀ b ∈ rest, b < 256)
    (h32 : (before ++ rest).length < 2 ^ 32) (out : List ℕ) :
    (∃ (cs : List ℕ) (fuel : ℕ), (∀ c ∈ cs, Accepted kind c) ∧ rest = cs.flatMap utf8 ∧
        inflateLoop .throw kind (before ++ rest) fuel before.length out = some (.done (out ++ cs.flatMap utf16))) ∨
      (∃ (cs : List ℕ) (v : ℕ) (after : List ℕ), (∀ c ∈ cs, Accepted kind c) ∧
        rest = cs.flatMap utf8 ++ v :: after ∧ Malformed kind (v :: after) ∧
        ((∃ fuel report, inflateLoop .throw kind (before ++ rest) fuel before.length out = some (.threw report)) ∨
          OverrunsAt kind (before ++ cs.flatMap utf8) v after ∧
            ∃ fuel, inflateLoop .throw kind (before ++ rest) fuel before.length out = some .outOfBounds)) := by
  induction hlength : rest.length using Nat.strong_induction_on generalizing before rest out with
  | _ k ih =>
    subst hlength
    cases rest with
    | nil =>
      refine .inl ⟨[], 1, nofun, rfl, ?_⟩
      simp [inflateLoop]
    | cons v rest =>
      have hv := hbytes v (.head _)
      have hcases := decodeAt_cases kind before hv (fun b hb => hbytes b (.tail _ hb)) h32
      obtain ⟨c, after, hc, heq, -⟩ | ⟨report, tails, after, rfl, hgiven, hdecode⟩ | ⟨hover, hmal, hdecode⟩ := hcases
      · have hpos := length_utf8_pos c
        rw [heq] at hbytes h32 ⊢
        have hstep := @inflateLoop_char kind .throw before after out c hc hbytes h32
        rw [← append_assoc] at h32
        have hlt : after.length < (utf8 c ++ after).length := by
          rw [List.length_append]
          omega
        obtain ⟨cs, fuel, hcs, hafter, hrun⟩ | ⟨cs, w, after', hcs, hafter, hmal, hends⟩ :=
          ih after.length (heq ▸ hlt) _ (fun b hb => hbytes b (mem_append_right _ hb)) h32 (out ++ utf16 c) rfl
        · refine .inl ⟨c :: cs, fuel + 1, forall_mem_cons.2 ⟨hc, hcs⟩, by simp [← hafter], ?_⟩
          rw [hstep, hrun, append_assoc]
          rfl
        · refine .inr ⟨c :: cs, w, after', forall_mem_cons.2 ⟨hc, hcs⟩, ?_, hmal, ?_⟩
          · simp [← hafter]
          obtain ⟨fuel, report, hrun⟩ | ⟨hover, fuel, hrun⟩ := hends
          · exact .inl ⟨fuel + 1, report, (hstep fuel).trans hrun⟩
          · refine .inr ⟨?_, fuel + 1, (hstep fuel).trans hrun⟩
            rwa [flatMap_cons, ← append_assoc]
      · refine .inr ⟨[], v, tails ++ after, nofun, rfl, hgiven.malformed, .inl ⟨1, report, ?_⟩⟩
        rw [inflateLoop, getElem?_append_right le_rfl, Nat.sub_self, getElem?_cons_zero]
        dsimp only
        rw [hdecode]
        rfl
      · refine .inr ⟨[], v, rest, nofun, rfl, hmal, .inr ⟨?_, 1, ?_⟩⟩
        · rwa [flatMap_nil, append_nil]
        rw [inflateLoop, getElem?_append_right le_rfl, Nat.sub_self, getElem?_cons_zero]
        simp [hdecode]

end SpiderMonkey.CharacterEncoding

import SpiderMonkey.Frontend.ScopeNesting

/-!
# The scope of a bytecode

`JSScript::lookupScope`: a binary search over the scope notes of a script, which looks at the notes that are
linked from the one in the middle.
-/

namespace SpiderMonkey.JSScript

open Frontend ScopeNoteList

/-- Why a search stops without a scope or the lack of one. -/
inductive Stuck
  | assertion
  | outOfFuel
  deriving DecidableEq

/-! ## The search -/

/-- A note of the span, whose bounds are asserted. -/
def noteAt (notes : ScopeNoteList) (i : ℕ) : Except Stuck ScopeNote :=
  match notes[i]? with
  | some note => .ok note
  | none => .error .assertion

/-- The first note on the chain, down to `bottom`, that covers the offset. -/
def checkParents (notes : ScopeNoteList) (offset bottom : ℕ) : ℕ → ℕ → Except Stuck (Option ScopeNote)
  | 0, _ => .error .outOfFuel
  | fuel + 1, check =>
    if bottom ≤ check then do
      let checkNote ← noteAt notes check
      if offset < checkNote.start then .error .assertion
      else if offset < (checkNote.start + checkNote.length) % 2 ^ 32 then return some checkNote
      else match checkNote.parent with
        | none => return none
        | some parent => checkParents notes offset bottom fuel parent
    else return none

/-- The scope of a note that was found; without one the scope stays what it was. -/
def update (found : Option ScopeNote) (scope : Option ℕ) : Option ℕ :=
  match found with
  | some note => note.index
  | none => scope

/-- The outer loop; each inner loop has `limit` turns at most. -/
def search (notes : ScopeNoteList) (offset limit : ℕ) : ℕ → ℕ → ℕ → Option ℕ → Except Stuck (Option ℕ)
  | 0, _, _, _ => .error .outOfFuel
  | fuel + 1, bottom, top, scope =>
    if bottom < top then do
      let mid := bottom + (top - bottom) / 2
      let note ← noteAt notes mid
      if note.start ≤ offset then do
        let found ← checkParents notes offset bottom limit mid
        search notes offset limit fuel (mid + 1) top (update found scope)
      else search notes offset limit fuel bottom mid scope
    else return scope

/-- The index of the scope at an offset, where both loops are cut off after some number of turns. -/
def lookupScope (fuel : ℕ) (notes : ScopeNoteList) (offset : ℕ) : Except Stuck (Option ℕ) :=
  search notes offset fuel fuel 0 notes.length none

/-! ## What is looked for -/

/-- A note covers the bytecode at an offset. -/
def CoversOffset (offset : ℕ) (note : ScopeNote) : Prop := note.start ≤ offset ∧ offset < note.start + note.length

instance (offset : ℕ) : DecidablePred (CoversOffset offset) := fun _ => instDecidableAnd

/-- The scope of the last note that covers the offset; there is none if there is no such note, or if the note is
for no scope. -/
def innermostScope (notes : ScopeNoteList) (offset : ℕ) : Option ℕ :=
  ((notes.filter (CoversOffset offset)).getLast?).bind ScopeNote.index

variable {notes : ScopeNoteList} {offset limit fuel bottom top mid check k i : ℕ} {scope : Option ℕ} {note : ScopeNote}

/-- The intervals of the notes. -/
abbrev Covers (notes : ScopeNoteList) (offset i : ℕ) : Prop := Laminar.Covers notes.start notes.stop offset i

lemma covers_iff (h : notes[i]? = some note) : Covers notes offset i ↔ CoversOffset offset note := by
  unfold Covers Laminar.Covers start stop CoversOffset
  rw [h]
  rfl

/-- The last of the first notes that covers the offset. -/
lemma getLast?_filter_take {g : Option ℕ} (hk : k ≤ notes.length) (h : IsLastBelow (Covers notes offset) k g) :
    ((notes.take k).filter (CoversOffset offset)).getLast? = g.bind fun i => notes[i]? := by
  induction k generalizing g with
  | zero =>
    cases g with
    | none => rfl
    | some g => exact absurd h.1 (Nat.not_lt_zero _)
  | succ k ih =>
    have hnote : notes[k]? = some notes[k] := List.getElem?_eq_getElem hk
    rw [List.take_add_one, hnote, Option.toList_some, List.filter_append]
    by_cases hcovers : CoversOffset offset notes[k]
    · obtain rfl : g = some k := by
        have hcovers' := (covers_iff hnote).2 hcovers
        cases g with
        | none => exact absurd hcovers' (h k (Nat.lt_succ_self k))
        | some g =>
          obtain ⟨hlt, -, hlast⟩ := h
          by_contra hne
          have hgk : g < k := lt_of_le_of_ne (Nat.le_of_lt_succ hlt) fun heq => hne (by rw [heq])
          exact hlast k (Nat.lt_succ_self k) hgk hcovers'
      simp [hcovers, hnote]
    · have hnot := fun hc => hcovers ((covers_iff hnote).1 hc)
      have hbelow : IsLastBelow (Covers notes offset) k g := by
        cases g with
        | none => exact fun i hi => h i (hi.trans (Nat.lt_succ_self k))
        | some g =>
          obtain ⟨hlt, hg, hlast⟩ := h
          refine ⟨lt_of_le_of_ne (Nat.le_of_lt_succ hlt) fun heq => hnot (heq ▸ hg), hg, fun i hi =>
            hlast i (hi.trans (Nat.lt_succ_self k))⟩
      rw [← ih (Nat.le_of_succ_le hk) hbelow]
      simp [hcovers]

/-! ## The loops -/

/-- What the inner loop finds. -/
def FoundOnChain (notes : ScopeNoteList) (offset bottom mid : ℕ) : Option ScopeNote → Prop
  | some note => ∃ g, notes[g]? = some note ∧ IsLastBelow (Covers notes offset) (mid + 1) (some g)
  | none => ∀ i, bottom ≤ i → i ≤ mid → ¬Covers notes offset i

/-- The inner loop ends: the links lead to earlier notes. -/
lemma checkParents_spec (hl : Laminar notes.length notes.start notes.stop notes.parent)
    (hmax : ∀ i < notes.length, notes.stop i ≤ Frontend.UINT32_MAX) (hmid : mid < notes.length)
    (hstart : notes.start mid ≤ offset) (hcheck : check < fuel) (hle : check ≤ mid)
    (hrest : Laminar.OnRest notes.start notes.stop notes.parent offset bottom mid check) :
    ∃ found, checkParents notes offset bottom fuel check = .ok found ∧ FoundOnChain notes offset bottom mid found := by
  induction fuel generalizing check with
  | zero => exact absurd hcheck (Nat.not_lt_zero _)
  | succ fuel ih =>
    have hlt : check < notes.length := hle.trans_lt hmid
    have hnote : notes[check]? = some notes[check] := List.getElem?_eq_getElem hlt
    rw [checkParents]
    by_cases hbottom : bottom ≤ check
    · have hstart' : ¬offset < notes[check].start := by
        have := (hl.sorted check mid hle hmid).trans hstart
        rw [start, hnote] at this
        exact not_lt.2 this
      have hstop : (notes[check].start + notes[check].length) % 2 ^ 32 = notes[check].start + notes[check].length := by
        have := hmax check hlt
        rw [stop, hnote] at this
        apply Nat.mod_eq_of_lt
        simp [Frontend.UINT32_MAX] at this
        omega
      rw [if_pos hbottom, noteAt, hnote]
      dsimp only [bind, Except.bind]
      rw [if_neg hstart', hstop]
      by_cases hcovers : offset < notes[check].start + notes[check].length
      · have hcovers' : Covers notes offset check := (covers_iff hnote).2 ⟨not_lt.1 hstart', hcovers⟩
        rw [if_pos hcovers]
        exact ⟨_, rfl, check, hnote, hrest.isLastBelow hl hlt hle hbottom hcovers'⟩
      · have hcovers' : ¬Covers notes offset check := fun hc => hcovers ((covers_iff hnote).1 hc).2
        have hparent : notes.parent check = notes[check].parent := by
          simp [parent, hnote]
        rw [if_neg hcovers]
        cases hlink : notes[check].parent with
        | none => exact ⟨none, rfl, fun i hb hi => hrest.none hcovers' (hparent.trans hlink) hb hi⟩
        | some parent =>
          have hearlier := hl.parent_lt check hlt parent (hparent.trans hlink)
          exact ih (by omega) (by omega) (hrest.next hcovers' (hparent.trans hlink))
    · rw [if_neg hbottom]
      exact ⟨none, rfl, fun i hb hi => hrest.below hl hlt (not_le.1 hbottom) hb hi⟩

/-- The outer loop: `scope` is that of the last note before `bottom`, and no note from `top` on covers the offset. -/
lemma search_spec (hl : Laminar notes.length notes.start notes.stop notes.parent)
    (hmax : ∀ i < notes.length, notes.stop i ≤ Frontend.UINT32_MAX) (hlimit : notes.length ≤ limit) {g : Option ℕ}
    (hfuel : top - bottom < fuel) (hbottom : bottom ≤ top) (htop : top ≤ notes.length)
    (hg : IsLastBelow (Covers notes offset) bottom g) (hscope : scope = (g.bind (notes[·]?)).bind ScopeNote.index)
    (hafter : ∀ i < notes.length, top ≤ i → ¬Covers notes offset i) :
    search notes offset limit fuel bottom top scope = .ok (innermostScope notes offset) := by
  induction fuel generalizing bottom top scope g with
  | zero => exact absurd hfuel (Nat.not_lt_zero _)
  | succ fuel ih =>
    rw [search]
    by_cases hmore : bottom < top
    · generalize hmid : bottom + (top - bottom) / 2 = mid
      have hlt : mid < notes.length := by omega
      have hnote : notes[mid]? = some notes[mid] := List.getElem?_eq_getElem hlt
      have hstart : notes.start mid = notes[mid].start := by
        rw [start, hnote]
        rfl
      rw [if_pos hmore]
      dsimp only
      rw [noteAt, hnote]
      dsimp only [bind, Except.bind]
      by_cases hbefore : notes[mid].start ≤ offset
      · have hbefore' : notes.start mid ≤ offset := hstart ▸ hbefore
        have hrest : Laminar.OnRest notes.start notes.stop notes.parent offset bottom mid mid := hl.onRest_mid hlt hbefore'
        obtain ⟨found, hfound, hchain⟩ := checkParents_spec hl hmax hlt hbefore' (hlt.trans_le hlimit) le_rfl hrest
        rw [if_pos hbefore, hfound]
        dsimp only
        cases found with
        | none =>
          have hg' := hg.extend (m := mid + 1) (by omega) fun i hi hb => hchain i hb (by omega)
          exact ih (by omega) (by omega) htop hg' hscope hafter
        | some note =>
          obtain ⟨g', hg', hlast⟩ := hchain
          exact ih (by omega) (by omega) htop hlast (by rw [update]; simp [hg']) hafter
      · rw [if_neg hbefore]
        refine ih (by omega) (by omega) hlt.le hg hscope fun i hi hmid' => ?_
        exact hl.not_covers_of_lt (hstart ▸ not_le.1 hbefore) hmid' hi
    · have hall := hg.extend (m := notes.length) (by omega) fun i hi hb => hafter i hi (by omega)
      have hlast := getLast?_filter_take le_rfl hall
      rw [List.take_length] at hlast
      rw [if_neg hmore, hscope, innermostScope, hlast]
      rfl

/-- In every script that can be emitted the scope at an offset is that of the innermost note that covers it, and
both loops end. -/
theorem lookupScope_eq {s : Emitter} (hs : s.Reached) (offset : ℕ) (hoffset : offset < s.offset) (fuel : ℕ)
    (hfuel : s.scopeNoteList.length < fuel) :
    lookupScope fuel s.scopeNoteList offset = .ok (innermostScope s.scopeNoteList offset) := by
  obtain ⟨hl, hmax⟩ := hs.laminar
  exact search_spec hl hmax hfuel.le (by omega) (Nat.zero_le _) le_rfl isLastBelow_zero rfl
    fun i hi hlen => absurd hi (not_lt.2 hlen)

/-- A block in which a jump leaves it: one byte of the jump is in the scope around the block. -/
theorem lookupScope_eq_jump : lookupScope 3 [⟨some 1, 2, 7, none⟩, ⟨some 0, 6, 2, some 0⟩] 7 = .ok (some 0) ∧
    lookupScope 3 [⟨some 1, 2, 7, none⟩, ⟨some 0, 6, 2, some 0⟩] 8 = .ok (some 1) := by
  have hreached : Emitter.Reached ⟨10, [⟨some 1, 2, 7, none⟩, ⟨some 0, 6, 2, some 0⟩], [⟨0, none, false⟩], false⟩ :=
    ⟨[0], [.emit 2, .enter 1 false, .emit 3, .jump [1] 2, .emit 1, .leave, .emit 1], rfl⟩
  exact ⟨lookupScope_eq hreached 7 (by simp) 3 (by simp), lookupScope_eq hreached 8 (by simp) 3 (by simp)⟩

end SpiderMonkey.JSScript

import SpiderMonkey.Frontend.ScopeNotes

/-!
# Scope notes are nested

In every state of the emitter the notes that are not ended are on the chain of links from the innermost scope, so
each note is reached by links from the notes that are appended before its end.
-/

namespace SpiderMonkey.Frontend

open ScopeNoteList

/-! ## The notes that are not ended -/

/-- The notes at an offset, where the open ones are on the chain from `top`. -/
structure Nesting (list : ScopeNoteList) (offset : ℕ) (isOpen : ℕ → Prop) (top : Option ℕ) : Prop where
  sorted : ∀ i j, i ≤ j → j < list.length → list.start i ≤ list.start j
  started : ∀ i < list.length, list.start i ≤ offset
  parent_lt : ∀ j < list.length, ∀ k, list.parent j = some k → k < j
  nested : ∀ i j, i < j → j < list.length → IsAncestor list.parent i j ∨ ¬isOpen i ∧ list.stop i ≤ list.start j
  ended : ∀ i < list.length, list.stop i ≤ offset
  onChain : ∀ i, isOpen i → ∃ t, top = some t ∧ (i = t ∨ IsAncestor list.parent i t)
  top_lt : ∀ t, top = some t → t < list.length

namespace Nesting

variable {list : ScopeNoteList} {offset offset' i n : ℕ} {isOpen isOpen' : ℕ → Prop} {top top' scopeIndex : Option ℕ}

lemma nil (offset : ℕ) : Nesting [] offset (fun _ => False) none :=
  ⟨fun _ _ _ h => absurd h (Nat.not_lt_zero _), fun _ h => absurd h (Nat.not_lt_zero _),
    fun _ h => absurd h (Nat.not_lt_zero _), fun _ _ _ h => absurd h (Nat.not_lt_zero _),
    fun _ h => absurd h (Nat.not_lt_zero _), fun _ h => h.elim, fun _ h => absurd h (Option.some_ne_none _).symm⟩

section

variable (h : Nesting list offset isOpen top)

include h

lemma laminar : Laminar list.length list.start list.stop list.parent :=
  ⟨h.sorted, h.parent_lt, fun i j hij hj => (h.nested i j hij hj).imp_right And.right⟩

lemma lt_of_isOpen (hi : isOpen i) : i < list.length := by
  obtain ⟨t, ht, rfl | hancestor⟩ := h.onChain i hi
  · exact h.top_lt i ht
  · exact (hancestor.lt h.parent_lt (h.top_lt t ht)).trans (h.top_lt t ht)

lemma advance (hle : offset ≤ offset') : Nesting list offset' isOpen top :=
  { h with
    started := fun i hi => (h.started i hi).trans hle
    ended := fun i hi => (h.ended i hi).trans hle }

lemma retop (hopen : ∀ i, isOpen' i ↔ isOpen i)
    (hchain : ∀ i, isOpen' i → ∃ t, top' = some t ∧ (i = t ∨ IsAncestor list.parent i t))
    (htop : ∀ t, top' = some t → t < list.length) : Nesting list offset isOpen' top' :=
  { h with
    nested := fun i j hij hj => by
      rw [hopen]
      exact h.nested i j hij hj
    onChain := hchain
    top_lt := htop }

lemma append :
    Nesting (list.append scopeIndex offset top) offset (fun i => isOpen i ∨ i = list.length) (some list.length) := by
  have hparent : ∀ j < list.length, (list.append scopeIndex offset top).parent j = list.parent j :=
    fun j hj => parent_append hj
  have hold : ∀ j, j < (list.append scopeIndex offset top).length → j < list.length ∨ j = list.length := by
    intro j hj
    rw [length_append] at hj
    omega
  constructor
  case sorted =>
    intro i j hij hj
    obtain hj | rfl := hold j hj
    · rw [start_append (hij.trans_lt hj), start_append hj]
      exact h.sorted i j hij hj
    · rw [start_append_length]
      obtain hi | rfl := hij.lt_or_eq
      · rw [start_append hi]
        exact h.started i hi
      · rw [start_append_length]
  case started =>
    intro i hi
    obtain hi | rfl := hold i hi
    · rw [start_append hi]
      exact h.started i hi
    · rw [start_append_length]
  case parent_lt =>
    intro j hj k hk
    obtain hj | rfl := hold j hj
    · rw [hparent j hj] at hk
      exact h.parent_lt j hj k hk
    · rw [parent_append_length] at hk
      exact h.top_lt k hk
  case nested =>
    intro i j hij hj
    obtain hj | rfl := hold j hj
    · rw [stop_append (hij.trans hj), start_append hj]
      obtain hancestor | ⟨hclosed, hstop⟩ := h.nested i j hij hj
      · exact .inl (hancestor.congr h.parent_lt hparent hj)
      · exact .inr ⟨fun hopen => hopen.elim hclosed (hij.trans hj).ne, hstop⟩
    · by_cases hopen : isOpen i
      · -- the new note is linked to the chain
        obtain ⟨t, rfl, rfl | hancestor⟩ := h.onChain i hopen
        · exact .inl (.link parent_append_length)
        · exact .inl (.trans parent_append_length (hancestor.congr h.parent_lt hparent (h.top_lt t rfl)))
      · rw [stop_append hij, start_append_length]
        exact .inr ⟨fun hopen' => hopen'.elim hopen hij.ne, h.ended i hij⟩
  case ended =>
    intro i hi
    obtain hi | rfl := hold i hi
    · rw [stop_append hi]
      exact h.ended i hi
    · rw [stop_append_length]
  case onChain =>
    rintro i (hi | rfl)
    · obtain ⟨t, rfl, rfl | hancestor⟩ := h.onChain i hi
      · exact ⟨_, rfl, .inr (.link parent_append_length)⟩
      · exact ⟨_, rfl, .inr (.trans parent_append_length (hancestor.congr h.parent_lt hparent (h.top_lt t rfl)))⟩
    · simp
  case top_lt =>
    simp

lemma recordEnd (hn : isOpen n) : Nesting (list.recordEnd n offset) offset (fun i => isOpen i ∧ i ≠ n) top := by
  have hlt := h.lt_of_isOpen hn
  constructor
  case sorted =>
    intro i j hij hj
    rw [start_recordEnd, start_recordEnd]
    exact h.sorted i j hij (by simpa using hj)
  case started =>
    intro i hi
    rw [start_recordEnd]
    exact h.started i (by simpa using hi)
  case parent_lt =>
    rw [parent_recordEnd, length_recordEnd]
    exact h.parent_lt
  case nested =>
    intro i j hij hj
    rw [length_recordEnd] at hj
    rw [parent_recordEnd, start_recordEnd]
    obtain hancestor | ⟨hclosed, hstop⟩ := h.nested i j hij hj
    · exact .inl hancestor
    · have hne : i ≠ n := fun heq => hclosed (heq ▸ hn)
      rw [stop_recordEnd_of_ne hne]
      exact .inr ⟨fun hopen => hclosed hopen.1, hstop⟩
  case ended =>
    intro i hi
    rw [length_recordEnd] at hi
    by_cases hne : i = n
    · subst hne
      exact (stop_recordEnd_self hi (h.started i hi)).le
    · rw [stop_recordEnd_of_ne hne]
      exact h.ended i hi
  case onChain =>
    intro i hi
    rw [parent_recordEnd]
    exact h.onChain i hi.1
  case top_lt =>
    intro t ht
    rw [length_recordEnd]
    exact h.top_lt t ht

end

lemma recordEnds {ns : List ℕ} (h : Nesting list offset isOpen top) (hnodup : ns.Nodup) (hns : ∀ n ∈ ns, isOpen n) :
    Nesting (list.recordEnds offset ns) offset (fun i => isOpen i ∧ i ∉ ns) top := by
  induction ns generalizing list isOpen with
  | nil =>
    refine h.retop (fun i => by simp) (fun i hi => h.onChain i hi.1) h.top_lt
  | cons n ns ih =>
    obtain ⟨hn, hnodup⟩ := List.nodup_cons.1 hnodup
    obtain ⟨hopen, hns⟩ := List.forall_mem_cons.1 hns
    have hrest := ih (h.recordEnd hopen) hnodup fun m hm => ⟨hns m hm, fun heq => hn (heq ▸ hm)⟩
    have hiff : ∀ i, isOpen i ∧ i ∉ n :: ns ↔ (isOpen i ∧ i ≠ n) ∧ i ∉ ns := fun i => by
      simp [and_assoc]
    exact hrest.retop hiff (fun i hi => hrest.onChain i ((hiff i).1 hi)) hrest.top_lt

lemma length_recordEnds {ns : List ℕ} : (list.recordEnds offset ns).length = list.length := by
  induction ns generalizing list with
  | nil => rfl
  | cons n ns ih => rw [ScopeNoteList.recordEnds, ih, length_recordEnd]

lemma parent_recordEnds {ns : List ℕ} : (list.recordEnds offset ns).parent = list.parent := by
  induction ns generalizing list with
  | nil => rfl
  | cons n ns ih => rw [ScopeNoteList.recordEnds, ih, parent_recordEnd]

end Nesting

/-! ## Scopes -/

namespace Emitter

def openNotes (scopes : List EmitterScope) : List ℕ := scopes.filterMap EmitterScope.noteIndex

lemma openNotes_cons_of_none {es : EmitterScope} {enclosing : List EmitterScope} (h : es.noteIndex = none) :
    openNotes (es :: enclosing) = openNotes enclosing := List.filterMap_cons_none h

lemma openNotes_cons_of_some {es : EmitterScope} {enclosing : List EmitterScope} {i : ℕ} (h : es.noteIndex = some i) :
    openNotes (es :: enclosing) = i :: openNotes enclosing := List.filterMap_cons_some h

/-- The note of the first scope. -/
def innermost (scopes : List EmitterScope) : Option ℕ := scopes.head?.bind EmitterScope.noteIndex

/-- The note of each scope is linked to that of the scope around it. -/
def Linked (parent : ℕ → Option ℕ) : List EmitterScope → Prop
  | [] => True
  | es :: enclosing =>
    ((es.noteIndex = none ∨ es.isFunctionBodyVar = true) → openNotes enclosing = []) ∧
      (∀ i, es.noteIndex = some i → parent i = innermost enclosing ∧ ∀ j ∈ openNotes enclosing, j < i) ∧
      Linked parent enclosing

variable {parent parent' : ℕ → Option ℕ} {scopes : List EmitterScope} {i n : ℕ}

lemma Linked.congr (h : Linked parent scopes) (heq : ∀ i ∈ openNotes scopes, parent' i = parent i) :
    Linked parent' scopes := by
  induction scopes with
  | nil => trivial
  | cons es enclosing ih =>
    have hsub : ∀ i ∈ openNotes enclosing, i ∈ openNotes (es :: enclosing) := fun i hi => by
      cases hnote : es.noteIndex with
      | none => rwa [openNotes_cons_of_none hnote]
      | some n =>
        rw [openNotes_cons_of_some hnote]
        simp [hi]
    refine ⟨h.1, fun i hi => ⟨?_, (h.2.1 i hi).2⟩, ih h.2.2 fun i hi => heq i (hsub i hi)⟩
    rw [heq i (by simp [openNotes, hi])]
    exact (h.2.1 i hi).1

/-- The notes of the scopes are on the chain from the innermost one. -/
lemma Linked.onChain (h : Linked parent scopes) :
    ∀ i ∈ openNotes scopes, ∃ t, innermost scopes = some t ∧ (i = t ∨ IsAncestor parent i t) := by
  induction scopes with
  | nil => exact fun i hi => absurd hi List.not_mem_nil
  | cons es enclosing ih =>
    intro i hi
    obtain ⟨hnone, hsome, hrest⟩ := h
    cases hnote : es.noteIndex with
    | none =>
      rw [openNotes_cons_of_none hnote, hnone (.inl hnote)] at hi
      cases hi
    | some t =>
      refine ⟨t, hnote, ?_⟩
      rw [openNotes_cons_of_some hnote, List.mem_cons] at hi
      obtain rfl | hi := hi
      · exact .inl rfl
      · obtain ⟨t', ht', hchain⟩ := ih hrest i hi
        have hlink := (hsome t hnote).1.trans ht'
        obtain rfl | hancestor := hchain
        · exact .inr (.link hlink)
        · exact .inr (.trans hlink hancestor)

/-- The state of the emitter before the body is complete, and afterwards. -/
structure Growing (s : Emitter) : Prop where
  nesting : Nesting s.scopeNoteList s.offset (· ∈ openNotes s.scopes) (innermost s.scopes)
  linked : Linked s.scopeNoteList.parent s.scopes
  offset_le : s.offset ≤ MaxBytecodeLength

structure Complete (s : Emitter) : Prop where
  laminar : Laminar s.scopeNoteList.length s.scopeNoteList.start s.scopeNoteList.stop s.scopeNoteList.parent
  stop_le : ∀ i < s.scopeNoteList.length, s.scopeNoteList.stop i ≤ UINT32_MAX
  openNotes_eq : openNotes s.scopes = []
  offset_le : s.offset ≤ MaxBytecodeLength

def Inv (s : Emitter) : Prop := s.bodyVarLeft = false ∧ s.Growing ∨ s.bodyVarLeft = true ∧ s.Complete

variable {s s' : Emitter} {count index : ℕ} {isFunctionBodyVar : Bool}

lemma emit_eq (h : s.emit count = some s') :
    s' = { s with offset := s.offset + count } ∧ s.offset + count ≤ MaxBytecodeLength := by
  unfold emit at h
  split_ifs at h with hle
  exact ⟨(Option.some.inj h).symm, hle⟩

lemma inv_emit (hs : s.Inv) (h : s.emit count = some s') : s'.Inv := by
  obtain ⟨rfl, hle⟩ := emit_eq h
  obtain ⟨hleft, hs⟩ | ⟨hleft, hs⟩ := hs
  · exact .inl ⟨hleft, hs.nesting.advance (Nat.le_add_right _ _), hs.linked, hle⟩
  · exact .inr ⟨hleft, hs.laminar, hs.stop_le, hs.openNotes_eq, hle⟩

lemma inv_enter (hs : s.Inv) (h : s.enter index isFunctionBodyVar = some s') : s'.Inv := by
  unfold enter at h
  dsimp only at h
  split_ifs at h with hguard
  cases h
  rw [not_or, not_or] at hguard
  obtain ⟨hleft, -, hbody⟩ := hguard
  obtain ⟨-, hs⟩ | ⟨hleft', -⟩ := hs
  · have hlt : ∀ i ∈ openNotes s.scopes, i < s.scopeNoteList.length := fun i hi => hs.nesting.lt_of_isOpen hi
    have hlinked : Linked (s.scopeNoteList.append (some index) s.offset (innermost s.scopes)).parent s.scopes :=
      hs.linked.congr fun i hi => parent_append (hlt i hi)
    have hnotes : ∀ i, i ∈ openNotes (⟨index, some s.scopeNoteList.length, isFunctionBodyVar⟩ :: s.scopes) ↔
        i ∈ openNotes s.scopes ∨ i = s.scopeNoteList.length := fun i => by
      rw [openNotes_cons_of_some rfl, List.mem_cons, or_comm]
    have hnested : Nesting (s.scopeNoteList.append (some index) s.offset (innermost s.scopes)) _ _ _ :=
      hs.nesting.append
    refine .inl ⟨by simpa using hleft, hnested.retop hnotes (fun i hi => hnested.onChain i ((hnotes i).1 hi))
      hnested.top_lt, ⟨?_, ?_, hlinked⟩, hs.offset_le⟩
    · rintro (hnone | hflag)
      · cases hnone
      · -- the innermost scope has no note, so no scope has one
        have hnone : innermost s.scopes = none := by
          by_contra hne
          exact hbody ⟨hflag, hne⟩
        refine List.eq_nil_iff_forall_not_mem.2 fun i hi => ?_
        obtain ⟨t, ht, -⟩ := hs.linked.onChain i hi
        exact absurd (hnone.symm.trans ht).symm (Option.some_ne_none t)
    · rintro i hi
      cases hi
      exact ⟨parent_append_length, hlt⟩
  · exact absurd hleft' hleft

lemma mem_openNotes_of_innermost (h : innermost scopes = some i) : i ∈ openNotes scopes := by
  cases scopes with
  | nil => exact absurd h (Option.some_ne_none _).symm
  | cons es enclosing =>
    rw [openNotes_cons_of_some h]
    simp

lemma inv_leave (hs : s.Inv) (h : s.leave = some s') : s'.Inv := by
  unfold leave at h
  split at h
  · contradiction
  next index flag rest hscopes =>
    cases h
    obtain ⟨hleft, hs⟩ | ⟨hleft, hs⟩ := hs
    · obtain ⟨hnone, -, hlinked⟩ : Linked _ (⟨index, none, flag⟩ :: rest) := hscopes ▸ hs.linked
      refine .inl ⟨hleft, hs.nesting.retop (fun i => ?_) hlinked.onChain fun t ht => ?_, hlinked, hs.offset_le⟩
      · rw [hscopes, openNotes_cons_of_none rfl]
      · have := mem_openNotes_of_innermost ht
        rw [hnone (.inl rfl)] at this
        cases this
    · refine .inr ⟨hleft, hs.laminar, hs.stop_le, ?_, hs.offset_le⟩
      have := hs.openNotes_eq
      rwa [hscopes, openNotes_cons_of_none rfl] at this
  next index n rest hscopes =>
    cases h
    obtain ⟨hleft, hs⟩ | ⟨hleft, hs⟩ := hs
    · obtain ⟨hnone, hsome, hlinked⟩ : Linked _ (⟨index, some n, true⟩ :: rest) := hscopes ▸ hs.linked
      have hmem : n ∈ openNotes s.scopes := by
        rw [hscopes, openNotes_cons_of_some rfl]
        exact List.mem_cons_self
      have hmax : s.offset ≤ UINT32_MAX := hs.offset_le.trans (by norm_num [MaxBytecodeLength, UINT32_MAX])
      have hended := (hs.nesting.advance hmax).recordEnd hmem
      exact .inr ⟨rfl, hended.laminar, hended.ended, hnone (.inr rfl), hs.offset_le⟩
    · have := hs.openNotes_eq
      rw [hscopes, openNotes_cons_of_some rfl] at this
      exact absurd this (List.cons_ne_nil _ _)
  next index n rest hscopes =>
    cases h
    obtain ⟨hleft, hs⟩ | ⟨hleft, hs⟩ := hs
    · obtain ⟨-, hsome, hlinked⟩ : Linked _ (⟨index, some n, false⟩ :: rest) := hscopes ▸ hs.linked
      have hnotes : openNotes s.scopes = n :: openNotes rest := by rw [hscopes, openNotes_cons_of_some rfl]
      have hmem : n ∈ openNotes s.scopes := by
        simp [hnotes]
      have hended := hs.nesting.recordEnd hmem
      refine .inl ⟨hleft, hended.retop (fun i => ?_) ?_ fun t ht => ?_, ?_, hs.offset_le⟩
      · rw [hnotes, List.mem_cons]
        constructor
        · exact fun hi => ⟨.inr hi, ((hsome n rfl).2 i hi).ne⟩
        · exact fun hi => hi.1.resolve_left hi.2
      · rw [parent_recordEnd]
        exact hlinked.onChain
      · rw [length_recordEnd]
        refine hs.nesting.lt_of_isOpen ?_
        rw [hnotes]
        exact List.mem_cons_of_mem _ (mem_openNotes_of_innermost ht)
      · exact hlinked.congr fun i _ => by simp
    · have := hs.openNotes_eq
      rw [hscopes, openNotes_cons_of_some rfl] at this
      exact absurd this (List.cons_ne_nil _ _)

/-! ## Jumps -/

/-- While scopes are left by a jump, the notes that it has appended are open too. -/
structure Leaving (s : Emitter) (nle : NonLocalExit) : Prop where
  scopes : nle.emitter.scopes = s.scopes
  bodyVarLeft : nle.emitter.bodyVarLeft = s.bodyVarLeft
  le_length : s.scopeNoteList.length ≤ nle.emitter.scopeNoteList.length
  parent : ∀ i < s.scopeNoteList.length, nle.emitter.scopeNoteList.parent i = s.scopeNoteList.parent i
  nesting : Nesting nle.emitter.scopeNoteList nle.emitter.offset
    (fun i => i ∈ openNotes s.scopes ∨ s.scopeNoteList.length ≤ i ∧ i < nle.emitter.scopeNoteList.length)
    nle.openScopeNoteIndex
  offset_le : nle.emitter.offset ≤ MaxBytecodeLength

variable {nle nle' : NonLocalExit}

lemma Leaving.leaveScope (hs : Leaving s nle) (h : nle.leaveScope count = some nle') : Leaving s nle' := by
  unfold NonLocalExit.leaveScope at h
  split at h
  · contradiction
  next es enclosing hes =>
    obtain ⟨s₁, hs₁, rfl⟩ := Option.map_eq_some_iff.1 h
    obtain ⟨rfl, hle⟩ := emit_eq hs₁
    have hnested : Nesting (nle.emitter.scopeNoteList.append (enclosing.head?.map EmitterScope.index)
        (nle.emitter.offset + count) nle.openScopeNoteIndex) _ _ _ :=
      (hs.nesting.advance (Nat.le_add_right _ count)).append
    have hlength := hs.le_length
    have hiff : ∀ i, (i ∈ openNotes s.scopes ∨ s.scopeNoteList.length ≤ i ∧ i < nle.emitter.scopeNoteList.length + 1) ↔
        (i ∈ openNotes s.scopes ∨ s.scopeNoteList.length ≤ i ∧ i < nle.emitter.scopeNoteList.length) ∨
          i = nle.emitter.scopeNoteList.length := fun i => by
      rw [or_assoc]
      refine or_congr_right ?_
      omega
    refine ⟨hs.scopes, hs.bodyVarLeft, ?_, fun i hi => ?_, ?_, hle⟩
    · rw [length_append]
      linarith
    · rw [parent_append (hi.trans_le hlength)]
      exact hs.parent i hi
    · dsimp only
      rw [length_append]
      exact hnested.retop hiff (fun i hi => hnested.onChain i ((hiff i).1 hi)) hnested.top_lt

lemma Leaving.leaveScopes {counts : List ℕ} (hs : Leaving s nle)
    (h : NonLocalExit.leaveScopes counts nle = some nle') : Leaving s nle' := by
  induction counts generalizing nle with
  | nil =>
    cases h
    exact hs
  | cons count counts ih =>
    obtain ⟨nle₁, hnle₁, h⟩ := Option.bind_eq_some_iff.1 h
    exact ih (hs.leaveScope hnle₁) h

/-- A jump: the notes that it has appended are ended when it has been emitted. -/
lemma inv_jump {counts : List ℕ} {rest : ℕ} (hs : s.Inv) (h : s.jump counts rest = some s') : s'.Inv := by
  unfold jump at h
  split_ifs at h with hguard
  obtain ⟨nle, hnle, h⟩ := Option.bind_eq_some_iff.1 h
  obtain ⟨s₁, hs₁, h⟩ := Option.bind_eq_some_iff.1 h
  cases h
  obtain ⟨rfl, hle⟩ := emit_eq hs₁
  obtain ⟨hleft, hs⟩ | ⟨hleft, -⟩ := hs
  · have hstart : Leaving s ⟨s, innermost s.scopes, s.scopes⟩ := by
      refine ⟨rfl, rfl, le_rfl, fun _ _ => rfl, hs.nesting.retop (fun i => ?_) (fun i hi => ?_) hs.nesting.top_lt,
        hs.offset_le⟩
      · exact or_iff_left fun hi => not_lt.2 hi.1 hi.2
      · exact hs.nesting.onChain i (hi.resolve_right fun hi => not_lt.2 hi.1 hi.2)
    have hleaving := hstart.leaveScopes hnle
    have hlength := hleaving.le_length
    generalize hns : (List.range (nle.emitter.scopeNoteList.length - s.scopeNoteList.length)).map
      (s.scopeNoteList.length + ·) = ns
    have hmem : ∀ i, i ∈ ns ↔ s.scopeNoteList.length ≤ i ∧ i < nle.emitter.scopeNoteList.length := fun i => by
      rw [← hns, List.mem_map]
      constructor
      · rintro ⟨k, hk, rfl⟩
        have := List.mem_range.1 hk
        omega
      · exact fun hi => ⟨i - s.scopeNoteList.length, List.mem_range.2 (by omega), by omega⟩
    have hnodup : ns.Nodup := by
      rw [← hns]
      exact List.nodup_range.map fun i j hij => Nat.add_left_cancel hij
    have hended := (hleaving.nesting.advance (Nat.le_add_right _ rest)).recordEnds hnodup fun n hn => .inr ((hmem n).1 hn)
    have hold : ∀ i ∈ openNotes s.scopes, i < s.scopeNoteList.length := fun i hi => hs.nesting.lt_of_isOpen hi
    have hlinked : Linked (nle.emitter.scopeNoteList.recordEnds (nle.emitter.offset + rest) ns).parent s.scopes :=
      hs.linked.congr fun i hi => by
        rw [Nesting.parent_recordEnds]
        exact hleaving.parent i (hold i hi)
    refine .inl ⟨hleaving.bodyVarLeft.trans hleft, ?_, ?_, hle⟩
    · dsimp only
      rw [hleaving.scopes]
      refine hended.retop (fun i => ?_) hlinked.onChain fun t ht => ?_
      · rw [hmem]
        constructor
        · exact fun hi => ⟨.inl hi, fun hnew => not_lt.2 hnew.1 (hold i hi)⟩
        · exact fun hi => hi.1.resolve_right hi.2
      · rw [Nesting.length_recordEnds]
        exact (hold t (mem_openNotes_of_innermost ht)).trans_le hlength
    · dsimp only
      rw [hleaving.scopes]
      exact hlinked
  · exact absurd hleft hguard

/-! ## Runs -/

lemma openNotes_eq_nil (h : ∀ es ∈ scopes, es.noteIndex = none) : openNotes scopes = [] := List.filterMap_eq_nil_iff.2 h

lemma linked_of_none (h : ∀ es ∈ scopes, es.noteIndex = none) : Linked parent scopes := by
  induction scopes with
  | nil => trivial
  | cons es enclosing ih =>
    obtain ⟨hnone, hrest⟩ := List.forall_mem_cons.1 h
    exact ⟨fun _ => openNotes_eq_nil hrest, fun i hi => absurd (hnone.symm.trans hi).symm (Option.some_ne_none i),
      ih hrest⟩

lemma inv_initial (bodyScopes : List ℕ) : (initial bodyScopes).Inv := by
  have hnone : ∀ es ∈ (initial bodyScopes).scopes, es.noteIndex = none := by simp [initial]
  have hnotes := openNotes_eq_nil hnone
  have hinnermost : innermost (initial bodyScopes).scopes = none := by
    by_contra hne
    obtain ⟨t, ht⟩ := Option.ne_none_iff_exists'.1 hne
    cases hnotes ▸ mem_openNotes_of_innermost ht
  refine .inl ⟨rfl, ?_, linked_of_none hnone, Nat.zero_le _⟩
  rw [hnotes, hinnermost]
  exact (Nesting.nil 0).retop (fun i => by simp) (fun i hi => absurd hi List.not_mem_nil)
    fun t ht => absurd ht (Option.some_ne_none _).symm

theorem Reached.inv (h : Reached s) : s.Inv := by
  obtain ⟨bodyScopes, events, hrun⟩ := h
  refine EventRun.invariant (fun e s s' hs heq => ?_) (inv_initial bodyScopes) hrun
  cases e with
  | emit count => exact inv_emit hs heq
  | enter index isFunctionBodyVar => exact inv_enter hs heq
  | leave => exact inv_leave hs heq
  | jump counts rest => exact inv_jump hs heq

/-- What the notes of a script satisfy. -/
theorem Reached.laminar (h : Reached s) : Laminar s.scopeNoteList.length s.scopeNoteList.start s.scopeNoteList.stop
    s.scopeNoteList.parent ∧ ∀ i < s.scopeNoteList.length, s.scopeNoteList.stop i ≤ UINT32_MAX := by
  obtain ⟨-, hs⟩ | ⟨-, hs⟩ := h.inv
  · refine ⟨hs.nesting.laminar, fun i hi => (hs.nesting.ended i hi).trans (hs.offset_le.trans ?_)⟩
    norm_num [MaxBytecodeLength, UINT32_MAX]
  · exact ⟨hs.laminar, hs.stop_le⟩

end Emitter

end SpiderMonkey.Frontend

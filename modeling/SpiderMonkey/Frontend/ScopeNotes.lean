import SpiderMonkey.Lib.EventRun
import SpiderMonkey.Lib.Laminar

/-!
# Scope notes

The notes that the emitter appends for scopes: one note for each scope that is entered, and notes for the scopes
that are entered again while a jump leaves others.  Notes that overlap are linked.
-/

namespace SpiderMonkey.Frontend

def UINT32_MAX : ℕ := 2 ^ 32 - 1
def MaxBytecodeLength : ℕ := 2 ^ 31 - 1

/-- `none` is `NoScopeIndex` as the index, and `NoScopeNoteIndex` as the parent. -/
structure ScopeNote where
  index : Option ℕ
  start : ℕ
  length : ℕ
  parent : Option ℕ

/-! ## The list of notes -/

abbrev ScopeNoteList := List ScopeNote

namespace ScopeNoteList

def append (list : ScopeNoteList) (scopeIndex : Option ℕ) (offset : ℕ) (parent : Option ℕ) : ScopeNoteList :=
  list ++ [⟨scopeIndex, offset, 0, parent⟩]

def recordEnd (list : ScopeNoteList) (index offset : ℕ) : ScopeNoteList :=
  list.modify index fun note => { note with length := offset - note.start }

def recordEndFunctionBodyVar (list : ScopeNoteList) (index : ℕ) : ScopeNoteList := list.recordEnd index UINT32_MAX

/-- The notes of a jump are ended, from the first one on. -/
def recordEnds (list : ScopeNoteList) (offset : ℕ) : List ℕ → ScopeNoteList
  | [] => list
  | n :: rest => recordEnds (list.recordEnd n offset) offset rest

/-! ### What is read from the list -/

def start (list : ScopeNoteList) (i : ℕ) : ℕ := (list[i]?.map ScopeNote.start).getD 0
def stop (list : ScopeNoteList) (i : ℕ) : ℕ := (list[i]?.map fun note => note.start + note.length).getD 0
def parent (list : ScopeNoteList) (i : ℕ) : Option ℕ := list[i]?.bind ScopeNote.parent

variable {list : ScopeNoteList} {scopeIndex p : Option ℕ} {i j n offset : ℕ}

@[simp] lemma length_append : (list.append scopeIndex offset p).length = list.length + 1 := by simp [append]

lemma getElem?_append_of_lt (h : i < list.length) : (list.append scopeIndex offset p)[i]? = list[i]? :=
  List.getElem?_append_left h

lemma getElem?_append_length : (list.append scopeIndex offset p)[list.length]? = some ⟨scopeIndex, offset, 0, p⟩ := by
  simp [append]

lemma start_append (h : i < list.length) : (list.append scopeIndex offset p).start i = list.start i := by
  rw [start, getElem?_append_of_lt h, start]

lemma stop_append (h : i < list.length) : (list.append scopeIndex offset p).stop i = list.stop i := by
  rw [stop, getElem?_append_of_lt h, stop]

lemma parent_append (h : i < list.length) : (list.append scopeIndex offset p).parent i = list.parent i := by
  rw [parent, getElem?_append_of_lt h, parent]

lemma start_append_length : (list.append scopeIndex offset p).start list.length = offset := by
  rw [start, getElem?_append_length]
  rfl

lemma stop_append_length : (list.append scopeIndex offset p).stop list.length = offset := by
  rw [stop, getElem?_append_length]
  rfl

lemma parent_append_length : (list.append scopeIndex offset p).parent list.length = p := by
  rw [parent, getElem?_append_length]
  rfl

@[simp] lemma length_recordEnd : (list.recordEnd n offset).length = list.length := by simp [recordEnd]

@[simp] lemma start_recordEnd : (list.recordEnd n offset).start i = list.start i := by
  unfold start recordEnd
  rw [List.getElem?_modify]
  split_ifs <;> simp [Function.comp_def]

@[simp] lemma parent_recordEnd : (list.recordEnd n offset).parent = list.parent := by
  funext i
  unfold parent recordEnd
  rw [List.getElem?_modify]
  split_ifs
  · cases list[i]? <;> rfl
  · simp

lemma stop_recordEnd_of_ne (h : i ≠ n) : (list.recordEnd n offset).stop i = list.stop i := by
  unfold stop recordEnd
  rw [List.getElem?_modify]
  simp [h.symm]

lemma stop_recordEnd_self (h : n < list.length) (hle : list.start n ≤ offset) :
    (list.recordEnd n offset).stop n = offset := by
  unfold stop recordEnd
  unfold start at hle
  rw [List.getElem?_eq_getElem h] at hle
  rw [List.getElem?_modify, List.getElem?_eq_getElem h]
  simp at hle ⊢
  omega

end ScopeNoteList

/-! ## The emitter -/

/-- A scope of the function that is being emitted; scopes at the level of the body have no notes. -/
structure EmitterScope where
  index : ℕ
  noteIndex : Option ℕ
  isFunctionBodyVar : Bool

/-- `scopes` is the innermost scope with the scopes around it in the same frame.  `bodyVarLeft` says that the
body is complete, which had an extra scope for its variables. -/
structure Emitter where
  offset : ℕ
  scopeNoteList : ScopeNoteList
  scopes : List EmitterScope
  bodyVarLeft : Bool

namespace Emitter

/-- Scopes at the level of the body are entered first. -/
def initial (bodyScopes : List ℕ) : Emitter := ⟨0, [], bodyScopes.map fun index => ⟨index, none, false⟩, false⟩

/-- Bytecode that is emitted, unless there is too much. -/
def emit (count : ℕ) (s : Emitter) : Option Emitter :=
  if s.offset + count ≤ MaxBytecodeLength then some { s with offset := s.offset + count } else none

/-- `appendScopeNote`, for a scope that is entered.  The scope for the variables of a body is the first one with
a note. -/
def enter (index : ℕ) (isFunctionBodyVar : Bool) (s : Emitter) : Option Emitter :=
  let enclosing := (s.scopes.head?).bind EmitterScope.noteIndex
  if s.bodyVarLeft = true ∨ s.scopes = [] ∨ isFunctionBodyVar = true ∧ enclosing ≠ none then none
  else some
    { s with
      scopes := ⟨index, some s.scopeNoteList.length, isFunctionBodyVar⟩ :: s.scopes
      scopeNoteList := s.scopeNoteList.append (some index) s.offset enclosing }

def leave (s : Emitter) : Option Emitter :=
  match s.scopes with
  | [] => none
  | ⟨_, none, _⟩ :: rest => some { s with scopes := rest }
  | ⟨_, some noteIndex, true⟩ :: rest => some
    { s with
      scopes := rest
      scopeNoteList := s.scopeNoteList.recordEndFunctionBodyVar noteIndex
      bodyVarLeft := true }
  | ⟨_, some noteIndex, false⟩ :: rest => some
    { s with
      scopes := rest
      scopeNoteList := s.scopeNoteList.recordEnd noteIndex s.offset }

/-- `NonLocalExitControl`, while the scopes are left: `es` are the scopes that have not been left. -/
structure NonLocalExit where
  emitter : Emitter
  openScopeNoteIndex : Option ℕ
  es : List EmitterScope

namespace NonLocalExit

def leaveScope (count : ℕ) (nle : NonLocalExit) : Option NonLocalExit :=
  match nle.es with
  | [] => none
  | _ :: enclosing => (nle.emitter.emit count).map fun s =>
    { emitter :=
        { s with
          scopeNoteList := s.scopeNoteList.append (enclosing.head?.map EmitterScope.index) s.offset
            nle.openScopeNoteIndex }
      openScopeNoteIndex := some s.scopeNoteList.length
      es := enclosing }

def leaveScopes : List ℕ → NonLocalExit → Option NonLocalExit
  | [], nle => some nle
  | count :: rest, nle => (nle.leaveScope count).bind (leaveScopes rest)

end NonLocalExit

/-- A jump that leaves a scope after each of the counts of bytes, with the bytes that follow. -/
def jump (counts : List ℕ) (rest : ℕ) (s : Emitter) : Option Emitter :=
  if s.bodyVarLeft = true then none
  else do
    let savedScopeNoteIndex := s.scopeNoteList.length
    let nle ← NonLocalExit.leaveScopes counts ⟨s, (s.scopes.head?).bind EmitterScope.noteIndex, s.scopes⟩
    let s ← nle.emitter.emit rest
    let count := s.scopeNoteList.length - savedScopeNoteIndex
    return { s with
      scopeNoteList := s.scopeNoteList.recordEnds s.offset ((List.range count).map (savedScopeNoteIndex + ·)) }

inductive Event
  | emit (count : ℕ)
  | enter (index : ℕ) (isFunctionBodyVar : Bool)
  | leave
  | jump (counts : List ℕ) (rest : ℕ)

def step : Event → Emitter → Option Emitter
  | .emit count, s => s.emit count
  | .enter index isFunctionBodyVar, s => s.enter index isFunctionBodyVar
  | .leave, s => s.leave
  | .jump counts rest, s => s.jump counts rest

/-- The states in which a function, a module or a global script can be while it is emitted. -/
def Reached (s : Emitter) : Prop := ∃ bodyScopes events, EventRun.run step events (initial bodyScopes) = some s

end Emitter

end SpiderMonkey.Frontend

import SpiderMonkey.Frontend.SourcePositions

/-!
# The position of every bytecode

What an action writes takes the position before it to the position that is recorded
(`BytecodeEmitter.Moves`), and so the notes stay in step with the recorded positions
(`BytecodeEmitter.Tracks`) in every run.
-/

namespace SpiderMonkey.Frontend

open SrcNoteIterator List Option

namespace BytecodeEmitter

open WrittenNote

def position (bce : BytecodeEmitter) : Position := ⟨bce.currentLine, bce.lastColumn⟩

/-! ## The notes that have been written -/

/-- The notes are the encoding of what was written, in the order of the offsets. -/
structure Encoded (bce : BytecodeEmitter) : Prop where
  notes : bce.notes = encode 0 bce.written
  valid : ∀ w ∈ bce.written, w.Valid
  sorted : (0 :: bce.written.map WrittenNote.offset).Pairwise (· ≤ ·)
  last : (bce.written.getLast?.map WrittenNote.offset).getD 0 = bce.lastNoteOffset
  le : ∀ w ∈ bce.written, w.offset ≤ bce.lastNoteOffset
  lastNoteOffset_le : bce.lastNoteOffset ≤ bce.offset

/-- Some notes have been written at the current offset, and nothing else has changed. -/
structure Wrote (bce bce' : BytecodeEmitter) (ws : List WrittenNote) : Prop where
  encoded : bce.Encoded → bce'.Encoded
  written : bce'.written = bce.written ++ ws
  offsets : ∀ w ∈ ws, w.offset = bce.offset
  offset : bce'.offset = bce.offset
  position : bce'.position = bce.position
  skip : bce'.skipLocationSrcNotes = bce.skipLocationSrcNotes
  lastIndex : bce'.lastIndex = bce.lastIndex

variable {bce bce' bce'' : BytecodeEmitter} {type : SrcNoteType} {ws ws' : List WrittenNote}

lemma encode_concat (w : WrittenNote) (last : ℕ) : encode last (ws ++ [w]) =
    encode last ws ++ w.bytes ((ws.getLast?.map WrittenNote.offset).getD last) := by
  induction ws generalizing last with
  | nil => simp [encode]
  | cons w' ws ih =>
    rw [cons_append, encode, ih, encode, append_assoc]
    cases ws with
    | nil => rfl
    | cons w'' ws => rw [getLast?_cons_cons, getLast?_cons, map_some, getD_some, getD_some]

namespace Wrote

lemma refl (bce : BytecodeEmitter) : Wrote bce bce [] := ⟨id, (append_nil _).symm, nofun, rfl, rfl, rfl, rfl⟩

lemma trans (h : Wrote bce bce' ws) (h' : Wrote bce' bce'' ws') : Wrote bce bce'' (ws ++ ws') where
  encoded hbce := h'.encoded (h.encoded hbce)
  written := by simp [h'.written, h.written]
  offsets w hw := by
    obtain hw | hw := mem_append.1 hw
    · exact h.offsets w hw
    · rw [h'.offsets w hw, h.offset]
  offset := h'.offset.trans h.offset
  position := h'.position.trans h.position
  skip := h'.skip.trans h.skip
  lastIndex := h'.lastIndex.trans h.lastIndex

lemma single {operand : Option ℕ} (hvalid : Valid ⟨bce.offset, type, operand⟩) (hbce : bce' = { bce with
      lastNoteOffset := bce.offset
      written := bce.written ++ [⟨bce.offset, type, operand⟩]
      notes := bce.notes ++ bytes bce.lastNoteOffset ⟨bce.offset, type, operand⟩ }) :
    Wrote bce bce' [⟨bce.offset, type, operand⟩] := by
  subst hbce
  refine ⟨fun h => ⟨?_, ?_, ?_, ?_, ?_, le_rfl⟩, rfl, ?_, rfl, rfl, rfl, rfl⟩
  · dsimp only
    rw [encode_concat, h.last, h.notes]
  · intro w hw
    obtain hw | hw := mem_append.1 hw
    · exact h.valid w hw
    · exact mem_singleton.1 hw ▸ hvalid
  · dsimp only
    rw [map_append, ← cons_append, pairwise_append]
    refine ⟨h.sorted, pairwise_singleton _ _, fun a ha b hb => ?_⟩
    obtain rfl := mem_singleton.1 hb
    obtain rfl | ha := mem_cons.1 ha
    · simp
    · obtain ⟨w, hw, rfl⟩ := List.mem_map.1 ha
      exact (h.le w hw).trans h.lastNoteOffset_le
  · simp
  · intro w hw
    obtain hw | hw := mem_append.1 hw
    · exact (h.le w hw).trans h.lastNoteOffset_le
    · rw [mem_singleton.1 hw]
  · simp

end Wrote

lemma allocSrcNote_eq {bytes : List SrcNote} (h : bce.allocSrcNote bytes = some bce') :
    bce' = { bce with notes := bce.notes ++ bytes } := by
  unfold allocSrcNote at h
  split_ifs at h
  exact (Option.some.inj h).symm

lemma newSrcNote_wrote (htype : SrcNote.Written type) (harity : type.arity = 0) (h : bce.newSrcNote type = some bce') :
    Wrote bce bce' [⟨bce.offset, type, none⟩] := by
  refine .single ⟨htype, harity.symm, nofun⟩ ((allocSrcNote_eq h).trans ?_)
  simp [bytes]

lemma newSrcNote2_wrote {operand : ℕ} (htype : SrcNote.Written type) (harity : type.arity = 1)
    (h : bce.newSrcNote2 type operand = some bce') : Wrote bce bce' [⟨bce.offset, type, some operand⟩] := by
  obtain ⟨mid, hmid, hbce⟩ := bind_eq_some_iff.1 h
  have hmid := allocSrcNote_eq hmid
  unfold newSrcNoteOperand at hbce
  split_ifs at hbce with hlt
  have hoperand : operand < 2 ^ 31 := by
    have hmax : SrcNote.MaxOperand = 2 ^ 31 - 1 := rfl
    omega
  refine .single ⟨htype, harity.symm, fun x hx => ?_⟩ ((allocSrcNote_eq hbce).trans ?_)
  · cases hx
    exact hoperand
  · subst hmid
    simp [bytes]

lemma newLines_wrote {n : ℕ} (h : newLines n bce = some bce') :
    Wrote bce bce' (List.replicate n ⟨bce.offset, SrcNoteType.NewLine, none⟩) := by
  induction n generalizing bce with
  | zero =>
    obtain rfl := Option.some.inj h
    exact .refl bce
  | succ n ih =>
    obtain ⟨mid, hmid, hnext⟩ := bind_eq_some_iff.1 h
    have hwrote := newSrcNote_wrote (by decide) rfl hmid
    have hrest := ih hnext
    rw [hwrote.offset] at hrest
    exact hwrote.trans hrest

/-! ## Moving to another position -/

/-- The notes that are written take the position to another one. -/
structure Moves (bce bce' : BytecodeEmitter) (p : Position) : Prop where
  encoded : bce.Encoded → bce'.Encoded
  written : ∃ ws, bce'.written = bce.written ++ ws ∧ (∀ w ∈ ws, w.offset = bce.offset) ∧
    ws.foldl (fun p w => p.visit w.type w.operand) bce.position = p
  position : bce'.position = p
  offset : bce'.offset = bce.offset
  skip : bce'.skipLocationSrcNotes = bce.skipLocationSrcNotes

variable {p p' : Position} {line column : ℕ}

lemma Moves.trans (h : Moves bce bce' p) (h' : Moves bce' bce'' p') : Moves bce bce'' p' where
  encoded hbce := h'.encoded (h.encoded hbce)
  written := by
    obtain ⟨ws, hws, hoff, hfold⟩ := h.written
    obtain ⟨ws', hws', hoff', hfold'⟩ := h'.written
    refine ⟨ws ++ ws', by simp [hws', hws], fun w hw => ?_, ?_⟩
    · obtain hw | hw := mem_append.1 hw
      · exact hoff w hw
      · rw [hoff' w hw, h.offset]
    · simp [hfold, ← h.position, hfold']
  position := h'.position
  offset := h'.offset.trans h.offset
  skip := h'.skip.trans h.skip

lemma Moves.of_lastIndex {index : ℕ} (h : Moves { bce with lastIndex := index } bce' p) : Moves bce bce' p :=
  ⟨fun hbce => h.encoded ⟨hbce.notes, hbce.valid, hbce.sorted, hbce.last, hbce.le, hbce.lastNoteOffset_le⟩,
    h.written, h.position, h.offset, h.skip⟩

lemma Moves.refl (bce : BytecodeEmitter) : Moves bce bce bce.position :=
  ⟨id, ⟨[], (append_nil _).symm, nofun, rfl⟩, rfl, rfl, rfl⟩

lemma foldl_newLine (n : ℕ) (hline : p.line < 2 ^ 32) (offset : ℕ) :
    (List.replicate n (⟨offset, SrcNoteType.NewLine, none⟩ : WrittenNote)).foldl
      (fun p w => p.visit w.type w.operand) p = if n = 0 then p else ⟨(p.line + n) % 2 ^ 32, 0⟩ := by
  induction n generalizing p with
  | zero => rfl
  | succ n ih =>
    rw [replicate_succ, foldl_cons, ih (Nat.mod_lt _ (by decide)), if_neg (Nat.succ_ne_zero n)]
    simp only [Position.visit]
    split_ifs with hzero
    · rw [hzero]
    · simp [add_assoc, add_comm 1 n]

lemma writeLine_moves (h : bce.writeLine line = some bce') (hline : line < 2 ^ 31)
    (hcurrent : bce.currentLine < 2 ^ 31) (hne : line ≠ bce.currentLine) :
    Moves bce bce' ⟨line, 0⟩ ∧ bce'.lastIndex = bce.lastIndex := by
  unfold writeLine at h
  dsimp only at h
  split_ifs at h with hle hzero
  · have hwrote := newSrcNote2_wrote (by decide) rfl h
    refine ⟨⟨fun hbce => hwrote.encoded ⟨hbce.notes, hbce.valid, hbce.sorted, hbce.last, hbce.le,
      hbce.lastNoteOffset_le⟩, ⟨_, hwrote.written, hwrote.offsets, ?_⟩, hwrote.position, hwrote.offset,
      hwrote.skip⟩, hwrote.lastIndex⟩
    simp only [foldl_cons, foldl_nil, Position.visit]
    rw [Nat.mod_eq_of_lt (by omega)]
  · omega
  · have hwrote := newLines_wrote h
    refine ⟨⟨fun hbce => hwrote.encoded ⟨hbce.notes, hbce.valid, hbce.sorted, hbce.last, hbce.le,
      hbce.lastNoteOffset_le⟩, ⟨_, hwrote.written, hwrote.offsets, ?_⟩, hwrote.position, hwrote.offset,
      hwrote.skip⟩, hwrote.lastIndex⟩
    have hlt : bce.position.line < 2 ^ 32 := by
      have : bce.position.line = bce.currentLine := rfl
      omega
    rw [foldl_newLine _ hlt, if_neg hzero]
    have hsum : (bce.position.line + (line + 2 ^ 32 - bce.currentLine) % 2 ^ 32) % 2 ^ 32 = line := by
      have : bce.position.line = bce.currentLine := rfl
      omega
    rw [hsum]

lemma writeColumn_moves (hcolumn : column < 2 ^ 32) (h : bce.writeColumn column = some bce') :
    Moves bce bce' (bce.position.setColumn column) ∧ bce'.lastIndex = bce.lastIndex := by
  unfold writeColumn at h
  dsimp only at h
  have hspan : ((column : ℤ) - bce.position.column) = column - bce.lastColumn := rfl
  split_ifs at h with hzero hrep
  · cases h
    have hsame : bce.position.setColumn column = bce.position := by
      rw [Position.setColumn, hspan, hzero, if_pos (by decide)]
      have : column = bce.lastColumn := by omega
      rw [this]
      rfl
    rw [hsame]
    exact ⟨.refl bce, rfl⟩
  · cases h
    rw [Position.setColumn, hspan, if_neg (Bool.eq_false_iff.1 hrep)]
    exact ⟨.refl bce, rfl⟩
  · rw [Bool.not_eq_false] at hrep
    obtain ⟨mid, hmid, rfl⟩ := map_eq_some_iff.1 h
    have hwrote := newSrcNote2_wrote (by decide) rfl hmid
    rw [Position.setColumn, hspan, if_pos hrep]
    refine ⟨⟨fun hbce => ?_, ⟨_, hwrote.written, hwrote.offsets, ?_⟩, ?_, hwrote.offset, hwrote.skip⟩, hwrote.lastIndex⟩
    · have hmid := hwrote.encoded hbce
      exact ⟨hmid.notes, hmid.valid, hmid.sorted, hmid.last, hmid.le, hmid.lastNoteOffset_le⟩
    · simp only [foldl_cons, foldl_nil, Position.visit, ColSpan.fromOperand_toOperand hrep]
      have hsum : ((bce.position.column : ℤ) + (column - bce.lastColumn)) % 2 ^ 32 = column := by
        omega
      rw [hsum, Int.toNat_natCast]
    · have hline := congrArg Position.line hwrote.position
      rw [BytecodeEmitter.position]
      exact congrArg (fun line => (⟨line, column⟩ : Position)) hline

/-! ## Actions -/

variable {reporter : ErrorReporter} {r : Recorder} {startLine offset : ℕ}

/-- The notes say what has been recorded. -/
structure Tracks (reporter : ErrorReporter) (startLine : ℕ) (bce : BytecodeEmitter) (r : Recorder) : Prop where
  encoded : bce.Encoded
  offset : r.offset = bce.offset
  skip : r.skipLocationSrcNotes = bce.skipLocationSrcNotes
  position : bce.position = r.position
  line_lt : bce.currentLine < 2 ^ 32
  column_lt : bce.lastColumn < 2 ^ 32
  lastIndex : bce.lastIndex + 1 < reporter.coords.lineStartOffsets.length
  all : bce.written.foldl (fun p w => p.visit w.type w.operand) ⟨startLine, 0⟩ = r.position
  meaning : ∀ pc, meaning ⟨startLine, 0⟩ bce.written pc = r.lastAt startLine pc

lemma meaning_append (h : ∀ w ∈ ws', w.offset = offset) (pc : ℕ) : meaning p (ws ++ ws') pc =
    if pc < offset then meaning p ws pc else ws'.foldl (fun p w => p.visit w.type w.operand) (meaning p ws pc) := by
  unfold SpiderMonkey.Frontend.meaning
  rw [filter_append, foldl_append]
  split_ifs with hlt
  · have hnil : ws'.filter (fun w => decide (w.offset ≤ pc)) = [] := by
      refine filter_eq_nil_iff.2 fun w hw => ?_
      rw [h w hw, decide_eq_true_eq]
      omega
    rw [hnil, foldl_nil]
  · have hself : ws'.filter (fun w => decide (w.offset ≤ pc)) = ws' := by
      refine filter_eq_self.2 fun w hw => ?_
      rw [h w hw, decide_eq_true_eq]
      omega
    rw [hself]

lemma Tracks.meaning_eq (h : Tracks reporter startLine bce r) {pc : ℕ} (hpc : bce.offset ≤ pc) :
    Frontend.meaning ⟨startLine, 0⟩ bce.written pc = r.position := by
  have hself : bce.written.filter (fun w => decide (w.offset ≤ pc)) = bce.written := by
    refine filter_eq_self.2 fun w hw => ?_
    rw [decide_eq_true_eq]
    exact ((h.encoded.le w hw).trans h.encoded.lastNoteOffset_le).trans hpc
  rw [Frontend.meaning, hself, h.all]

lemma lastAt_record (pc : ℕ) : (r.record p).lastAt startLine pc =
    if pc < r.offset then r.lastAt startLine pc else p := by
  unfold Recorder.lastAt Recorder.record
  dsimp only
  rw [filter_append]
  split_ifs with hlt
  · have hnil : [(r.offset, p)].filter (fun entry => decide (entry.1 ≤ pc)) = [] := by
      rw [filter_cons_of_neg (by simpa using hlt), filter_nil]
    rw [hnil, append_nil]
  · have hself : [(r.offset, p)].filter (fun entry => decide (entry.1 ≤ pc)) = [(r.offset, p)] := by
      rw [filter_cons_of_pos (by simpa using hlt), filter_nil]
    simp [hself]

lemma Tracks.record (h : Tracks reporter startLine bce r) (hmoves : Moves bce bce' p) (hline : p.line < 2 ^ 32)
    (hcolumn : p.column < 2 ^ 32) (hindex : bce'.lastIndex + 1 < reporter.coords.lineStartOffsets.length) :
    Tracks reporter startLine bce' (r.record p) := by
  obtain ⟨ws, hws, hoff, hfold⟩ := hmoves.written
  rw [h.position] at hfold
  refine ⟨hmoves.encoded h.encoded, h.offset.trans hmoves.offset.symm, h.skip.trans hmoves.skip.symm,
    hmoves.position, ?_, ?_, hindex, ?_, fun pc => ?_⟩
  · have := congrArg Position.line hmoves.position
    exact this.trans_lt hline
  · have := congrArg Position.column hmoves.position
    exact this.trans_lt hcolumn
  · rw [hws, foldl_append, h.all, hfold]
    rfl
  · rw [hws, meaning_append hoff, lastAt_record, h.offset]
    split_ifs with hlt
    · exact h.meaning pc
    · rw [h.meaning_eq (not_lt.1 hlt), hfold]

section UpdateNotes

variable (hlines : reporter.coords.initialLineNum + reporter.coords.lineStartOffsets.length ≤ 2 ^ 31 + 1)
  (hoffset : reporter.coords.Has offset) (hskip : bce.skipLocationSrcNotes = false)
  (hline : bce.currentLine < 2 ^ 32) (hindex : bce.lastIndex + 1 < reporter.coords.lineStartOffsets.length)
include hlines hoffset hskip hline hindex

lemma updateLineNumberNotes_moves (h : bce.updateLineNumberNotes reporter offset = some bce') :
    Moves bce bce' (bce.position.setLine (reporter.coords.lineAt offset)) ∧
      bce'.lastIndex + 1 < reporter.coords.lineStartOffsets.length := by
  unfold updateLineNumberNotes at h
  rw [if_neg (Bool.eq_false_iff.1 hskip)] at h
  obtain ⟨onThisLine, hknown, h⟩ := bind_eq_some_iff.1 h
  obtain ⟨hcurrent, hiff⟩ := SourceCoords.isOnThisLine_iff hlines hoffset hline hknown
  have hon := SourceCoords.onLine hoffset hindex
  have hcur : bce.position.line = bce.currentLine := rfl
  split_ifs at h with hsame
  · cases h
    rw [Position.setLine, hcur, if_pos (hiff.1 hsame)]
    exact ⟨.refl bce, hindex⟩
  · have hne : reporter.coords.lineAt offset ≠ bce.currentLine := fun heq => hsame (hiff.2 heq)
    have heq : reporter.coords.lineNumberFromIndex (reporter.coords.indexFromOffset bce.lastIndex offset) =
        reporter.coords.lineAt offset := by
      rw [SourceCoords.lineAt, SourceCoords.indexFromOffset_zero hoffset hindex]
    dsimp only at h
    rw [heq] at h
    obtain ⟨hmoves, hlast⟩ := writeLine_moves h (SourceCoords.lineAt_lt hlines hoffset) hcurrent hne
    rw [Position.setLine, hcur, if_neg hne, hlast]
    exact ⟨hmoves.of_lastIndex, hon.lt⟩

lemma updateSourceCoordNotes_moves (h : bce.updateSourceCoordNotes reporter offset = some bce') :
    Moves bce bce' ((bce.position.setLine (reporter.coords.lineAt offset)).setColumn (reporter.columnAt offset)) ∧
      bce'.lastIndex + 1 < reporter.coords.lineStartOffsets.length := by
  obtain ⟨mid, hmid, h⟩ := bind_eq_some_iff.1 h
  obtain ⟨hmoves, hlast⟩ := updateLineNumberNotes_moves hlines hoffset hskip hline hindex hmid
  have hmidskip : mid.skipLocationSrcNotes = false := hmoves.skip.trans hskip
  rw [if_neg (Bool.eq_false_iff.1 hmidskip)] at h
  obtain ⟨hmoves', hlast'⟩ := writeColumn_moves (reporter.columnAt_lt offset) h
  have hcolumn := hmoves.trans hmoves'.of_lastIndex
  rw [hlast']
  have hmid : BytecodeEmitter.position
      { mid with lastIndex := reporter.coords.indexFromOffset mid.lastIndex offset } = mid.position := rfl
  rw [hmid, hmoves.position] at hcolumn
  exact ⟨hcolumn, (SourceCoords.onLine hoffset hlast).lt⟩

end UpdateNotes

lemma visit_of_nullary (hne : type ≠ SrcNoteType.NewLine) (p : Position) : p.visit type none = p := by
  cases type <;> first | rfl | exact absurd rfl hne

/-- Every action keeps the notes in step with the recorded positions. -/
theorem Tracks.step (h : Tracks reporter startLine bce r)
    (hlines : reporter.coords.initialLineNum + reporter.coords.lineStartOffsets.length ≤ 2 ^ 31 + 1)
    {action : Action} (haction : reporter.Valid action) (hstep : bce.step reporter action = some bce') :
    Tracks reporter startLine bce' (r.step reporter action) := by
  have hsetLine {line : ℕ} (hline : line < 2 ^ 32) :
      (r.position.setLine line).line < 2 ^ 32 ∧ (r.position.setLine line).column < 2 ^ 32 := by
    have hposition := h.position
    rw [← hposition, Position.setLine]
    split_ifs
    · exact ⟨h.line_lt, h.column_lt⟩
    · exact ⟨hline, Nat.two_pow_pos 32⟩
  cases action with
  | emit length =>
    cases hstep
    have hle := h.encoded.lastNoteOffset_le
    refine ⟨⟨h.encoded.notes, h.encoded.valid, h.encoded.sorted, h.encoded.last, h.encoded.le, ?_⟩,
      congrArg (· + length) h.offset, h.skip, h.position, h.line_lt, h.column_lt, h.lastIndex, h.all, h.meaning⟩
    exact hle.trans (Nat.le_add_right _ _)
  | skipLocationSrcNotes skip =>
    cases hstep
    exact ⟨⟨h.encoded.notes, h.encoded.valid, h.encoded.sorted, h.encoded.last, h.encoded.le,
      h.encoded.lastNoteOffset_le⟩, h.offset, rfl, h.position, h.line_lt, h.column_lt, h.lastIndex, h.all,
      h.meaning⟩
  | newSrcNote type =>
    obtain ⟨htype, harity, hne⟩ := haction
    have hwrote := newSrcNote_wrote htype harity hstep
    have hall : ([⟨bce.offset, type, none⟩] : List WrittenNote).foldl
        (fun p w => p.visit w.type w.operand) r.position = r.position := visit_of_nullary hne _
    refine ⟨hwrote.encoded h.encoded, h.offset.trans hwrote.offset.symm, h.skip.trans hwrote.skip.symm,
      hwrote.position.trans h.position, ?_, ?_, ?_, ?_, fun pc => ?_⟩
    · exact (congrArg Position.line hwrote.position).trans_lt h.line_lt
    · exact (congrArg Position.column hwrote.position).trans_lt h.column_lt
    · rw [hwrote.lastIndex]
      exact h.lastIndex
    · rw [hwrote.written, foldl_append, h.all, hall]
      rfl
    · rw [hwrote.written, meaning_append hwrote.offsets, foldl_cons, foldl_nil, visit_of_nullary hne, ite_self]
      exact h.meaning pc
  | updateLineNumberNotes offset =>
    have hskip := h.skip
    simp only [BytecodeEmitter.step, Recorder.step] at hstep ⊢
    split_ifs with hr
    · rw [updateLineNumberNotes, if_pos (hskip ▸ hr)] at hstep
      exact Option.some.inj hstep ▸ h
    · have hfalse : bce.skipLocationSrcNotes = false := hskip ▸ Bool.eq_false_iff.2 hr
      obtain ⟨hmoves, hindex⟩ := updateLineNumberNotes_moves hlines haction hfalse h.line_lt h.lastIndex hstep
      rw [h.position] at hmoves
      have hline := SourceCoords.lineAt_lt hlines haction
      obtain ⟨hl, hc⟩ := hsetLine (hline.trans (by decide))
      exact h.record hmoves hl hc hindex
  | updateSourceCoordNotes offset =>
    have hskip := h.skip
    simp only [BytecodeEmitter.step, Recorder.step] at hstep ⊢
    split_ifs with hr
    · rw [updateSourceCoordNotes, updateLineNumberNotes, if_pos (hskip ▸ hr), bind_some, if_pos (hskip ▸ hr)] at hstep
      exact Option.some.inj hstep ▸ h
    · have hfalse : bce.skipLocationSrcNotes = false := hskip ▸ Bool.eq_false_iff.2 hr
      obtain ⟨hmoves, hindex⟩ := updateSourceCoordNotes_moves hlines haction hfalse h.line_lt h.lastIndex hstep
      rw [h.position] at hmoves
      have hline := SourceCoords.lineAt_lt hlines haction
      obtain ⟨hl, hc⟩ := hsetLine (hline.trans (by decide))
      refine h.record hmoves ?_ ?_ hindex
      · rw [Position.setColumn]
        split_ifs
        · exact hl
        · exact hl
      · rw [Position.setColumn]
        split_ifs
        · exact reporter.columnAt_lt offset
        · exact hc

theorem Tracks.run (h : Tracks reporter startLine bce r)
    (hlines : reporter.coords.initialLineNum + reporter.coords.lineStartOffsets.length ≤ 2 ^ 31 + 1)
    {actions : List Action} (hactions : ∀ action ∈ actions, reporter.Valid action)
    (hrun : bce.run reporter actions = some bce') : Tracks reporter startLine bce' (r.run reporter actions) := by
  induction actions generalizing bce r with
  | nil =>
    cases hrun
    exact h
  | cons action actions ih =>
    obtain ⟨mid, hmid, hrest⟩ := bind_eq_some_iff.1 hrun
    refine ih (h.step hlines (hactions action mem_cons_self) hmid) (fun a ha => ?_) hrest
    simp [hactions, ha]

lemma Tracks.initial (reporter : ErrorReporter) (hline : startLine < 2 ^ 32) (skip : Bool) :
    Tracks reporter startLine (.initial startLine skip) (.initial startLine skip) where
  encoded := ⟨rfl, nofun, pairwise_singleton _ _, rfl, nofun, le_rfl⟩
  offset := rfl
  skip := rfl
  position := rfl
  line_lt := hline
  column_lt := Nat.two_pow_pos 32
  lastIndex := reporter.coords.two_le
  all := rfl
  meaning _ := rfl

end BytecodeEmitter

open BytecodeEmitter in
/-- After any run, the iterator visits the notes that were written, up to the padding, each at the offset at
which it was written, and every bytecode has the last position recorded at an offset up to its own. -/
theorem PCToLineNumber_run (reporter : ErrorReporter)
    (hlines : reporter.coords.initialLineNum + reporter.coords.lineStartOffsets.length ≤ 2 ^ 31 + 1)
    {startLine : ℕ} (hstart : startLine < 2 ^ 32) (skip : Bool) {actions : List Action}
    (hactions : ∀ action ∈ actions, reporter.Valid action) {bce : BytecodeEmitter}
    (hrun : (initial startLine skip).run reporter actions = some bce) (rest : List SrcNote) :
    Iterates (bce.notes ++ SrcNote.terminator :: rest) (WrittenNote.visited 0 bce.written)
        (SrcNote.terminator :: rest) ∧
      SrcNote.terminator.isTerminator = true ∧
      accumulate 0 (WrittenNote.visited 0 bce.written) = bce.written ∧
      ∀ pc, PCToLineNumber startLine (bce.notes ++ SrcNote.terminator :: rest) pc =
        some (((Recorder.initial startLine skip).run reporter actions).lastAt startLine pc) := by
  have htracks := (Tracks.initial reporter hstart skip).run hlines hactions hrun
  obtain ⟨hnotes, hvalid, hsorted, -, -, -⟩ := htracks.encoded
  rw [hnotes]
  refine ⟨Iterates.encode hvalid 0, by decide, accumulate_visited hvalid hsorted, fun pc => ?_⟩
  rw [PCToLineNumber_encode hvalid hsorted, htracks.meaning]

/-- Two lines of ten characters, the second of which has no end. -/
def twoLines : ErrorReporter where
  coords := ⟨[0, 10, MAX_PTR], 1, by decide, by decide, by decide⟩
  columnAt offset := offset % 10
  columnAt_lt offset := (Nat.mod_lt _ (by decide)).trans (by decide)

/-- Three bytes on the first line, and then a position on the second. -/
def twoPositions : List BytecodeEmitter.Action :=
  [.updateSourceCoordNotes 4, .emit 3, .newSrcNote SrcNoteType.Breakpoint, .updateSourceCoordNotes 12, .emit 2]

open BytecodeEmitter in
lemma exists_run_twoLines : ∃ bce, (initial 1 false).run twoLines twoPositions = some bce :=
  isSome_iff_exists.1 (by decide +kernel)

open BytecodeEmitter in
theorem PCToLineNumber_run_twoLines : ∃ bce, (initial 1 false).run twoLines twoPositions = some bce ∧
    PCToLineNumber 1 (bce.notes ++ [SrcNote.terminator]) 4 = some ⟨2, 2⟩ := by
  obtain ⟨bce, hrun⟩ := exists_run_twoLines
  have hall : ∀ action ∈ twoPositions, twoLines.Valid action := by
    simp only [twoPositions, forall_mem_cons, ErrorReporter.Valid]
    exact ⟨by decide, trivial, by decide, by decide, trivial, nofun⟩
  obtain ⟨-, -, -, hpc⟩ := PCToLineNumber_run twoLines (by decide) (by decide) false hall hrun []
  refine ⟨bce, hrun, (hpc 4).trans ?_⟩
  decide +kernel

end SpiderMonkey.Frontend

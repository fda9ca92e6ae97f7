import SpiderMonkey.Frontend.BytecodeEmitter

/-!
# The positions that are found again

The walk of `PCToLineNumber` adds up the notes at the offsets up to `pc` (`walkNotes_encode`).  The emitter
keeps the notes that it has written in step with the positions that are recorded (`BytecodeEmitter.Tracks`),
and so every bytecode gets the last position that was recorded for it (`PCToLineNumber_run`).
-/

namespace SpiderMonkey.Frontend

open SrcNoteIterator List SrcNote

/-! ## The walk over the notes -/

/-- The positions of the notes up to the target. -/
def scan (target : ℕ) : ℕ → Position → List Note → Position
  | _, p, [] => p
  | offset, p, note :: notes =>
    if target < offset + note.delta then p
    else scan target (offset + note.delta) (p.visit note.type note.operand) notes

variable {target offset : ℕ} {p : Position} {notes : List Note}

lemma visitNote_eq {sn : SrcNote} {rest : List SrcNote} {note : Note} (h : readNote (sn :: rest) = some note)
    (harity : note.operand.toList.length = note.type.arity) :
    visitNote (sn :: rest) sn p = some (p.visit note.type note.operand) := by
  cases h
  dsimp only at harity ⊢
  rw [visitNote]
  have hone (hsn : sn.arity = 1) : ∃ operand, SrcNoteReader.getOperand (sn :: rest) 0 = some operand := by
    rw [if_neg (by omega)] at harity
    cases hop : SrcNoteReader.getOperand (sn :: rest) 0 with
    | none =>
      rw [hop] at harity
      exact absurd (harity.symm.trans rfl) (by rw [← arity, hsn]; decide)
    | some operand => exact ⟨operand, rfl⟩
  cases htype : sn.type
  case SetLine =>
    have hsn : sn.arity = 1 := by rw [arity, htype]; rfl
    obtain ⟨operand, hop⟩ := hone hsn
    simp [hsn, hop, Position.visit]
  case ColSpan =>
    have hsn : sn.arity = 1 := by rw [arity, htype]; rfl
    obtain ⟨operand, hop⟩ := hone hsn
    simp [hsn, hop, Position.visit]
  case NewLine =>
    have hsn : sn.arity = 0 := by rw [arity, htype]; rfl
    simp [hsn, Position.visit]
  all_goals rfl

lemma walkNotes_eq {mem end_ : List SrcNote} {fuel : ℕ} (h : Iterates mem notes end_)
    (harity : ∀ note ∈ notes, note.operand.toList.length = note.type.arity)
    (hend : end_.head?.map isTerminator = some true) (hfuel : notes.length < fuel) :
    walkNotes target fuel mem offset p = some (scan target offset p notes) := by
  induction h generalizing fuel offset p with
  | refl mem =>
    obtain ⟨sn, hsn, hterm⟩ := Option.map_eq_some_iff.1 hend
    obtain ⟨fuel, rfl⟩ := Nat.exists_eq_succ_of_ne_zero hfuel.ne_bot
    cases mem with
    | nil => cases hsn
    | cons sn' rest =>
      cases hsn
      rw [walkNotes, if_pos hterm]
      rfl
  | @step sn rest mem end_ note notes hterm hnote hnext h ih =>
    obtain ⟨fuel, rfl⟩ := Nat.exists_eq_succ_of_ne_zero (Nat.ne_zero_of_lt hfuel)
    have hdelta : note.delta = sn.delta := by
      cases hnote
      rfl
    rw [walkNotes, if_neg (Bool.eq_false_iff.1 hterm), scan, hdelta]
    split_ifs with hlt
    · rfl
    · rw [visitNote_eq hnote (harity note mem_cons_self), Option.bind_some, hnext, Option.bind_some]
      refine ih (fun note hmem => harity note (mem_cons_of_mem _ hmem)) hend ?_
      exact Nat.lt_of_succ_lt_succ hfuel

lemma SrcNoteIterator.Iterates.length_le {mem end_ : List SrcNote} (h : Iterates mem notes end_) :
    notes.length + end_.length ≤ mem.length := by
  induction h with
  | refl => exact (Nat.zero_add _).le
  | @step sn rest mem end_ note notes _ _ hnext _ ih =>
    have hskip : ∀ (n : ℕ) (l l' : List SrcNote), SrcNoteReader.skipOperands n l = some l' → l'.length ≤ l.length := by
      intro n
      induction n with
      | zero =>
        intro l l' heq
        cases heq
        exact le_rfl
      | succ n ih =>
        intro l l' heq
        cases l with
        | nil => cases heq
        | cons sn l =>
          have hle := ih _ _ heq
          split_ifs at hle
          · rw [length_drop] at hle
            rw [length_cons]
            omega
          · exact hle.trans (Nat.le_succ _)
    have := hskip _ _ _ hnext
    simp only [length_cons]
    omega

/-! ## Extended deltas -/

variable {type : SrcNoteType} {operand : Option ℕ} {delta : ℕ} {ws : List WrittenNote} {last : ℕ}

lemma scan_xDelta : scan target offset p (⟨SrcNoteType.XDelta, delta, none⟩ :: notes) =
    if target < offset + delta then p else scan target (offset + delta) p notes := rfl

/-- The step of the loop that writes extended deltas. -/
lemma xDelta_lt (offset : ℕ) (h : DeltaLimit ≤ delta) : delta - min delta XDeltaMask < delta ∧
      offset + min delta XDeltaMask + (delta - min delta XDeltaMask) = offset + delta := by
  simp only [DeltaLimit, XDeltaMask] at *
  omega

lemma scan_expand : scan target offset p (Note.expand type operand delta ++ notes) =
    if target < offset + delta then p else scan target (offset + delta) (p.visit type operand) notes := by
  induction delta using Nat.strong_induction_on generalizing offset with
  | _ delta ih =>
    rw [Note.expand]
    by_cases hle : DeltaLimit ≤ delta
    · obtain ⟨hlt, heq⟩ := xDelta_lt offset hle
      rw [if_pos hle, cons_append, scan_xDelta, ih _ hlt, heq]
      by_cases hbreak : target < offset + min delta XDeltaMask
      · rw [if_pos hbreak, if_pos (by omega)]
      · rw [if_neg hbreak]
    · simp [hle, scan]

/-- What the notes up to `pc` say. -/
def meaning (p : Position) (ws : List WrittenNote) (pc : ℕ) : Position :=
  (ws.filter fun w => decide (w.offset ≤ pc)).foldl (fun p w => p.visit w.type w.operand) p

lemma scan_visited (hsorted : (last :: ws.map WrittenNote.offset).Pairwise (· ≤ ·)) :
    scan target last p (WrittenNote.visited last ws) = meaning p ws target := by
  induction ws generalizing last p with
  | nil => rfl
  | cons w ws ih =>
    obtain ⟨hle, htail⟩ := pairwise_cons.1 hsorted
    have hlast : last ≤ w.offset := hle w.offset mem_cons_self
    have heq : last + (w.offset - last) = w.offset := by omega
    rw [WrittenNote.visited, scan_expand, heq]
    split_ifs with hlt
    · have hall : (w :: ws).filter (fun w => decide (w.offset ≤ target)) = [] := by
        refine filter_eq_nil_iff.2 fun w' hw' => ?_
        have hge : w.offset ≤ w'.offset := by
          obtain rfl | hw' := mem_cons.1 hw'
          · exact le_rfl
          · exact (pairwise_cons.1 htail).1 _ (mem_map_of_mem hw')
        simp only [decide_eq_true_eq]
        omega
      rw [meaning, hall]
      rfl
    · rw [ih htail, meaning, meaning, filter_cons_of_pos (by simpa using hlt), foldl_cons]

lemma arity_visited (h : ∀ w ∈ ws, w.Valid) :
    ∀ note ∈ WrittenNote.visited last ws, note.operand.toList.length = note.type.arity := by
  have hexpand (w : WrittenNote) (hw : w.Valid) (delta : ℕ) :
      ∀ note ∈ Note.expand w.type w.operand delta, note.operand.toList.length = note.type.arity := by
    induction delta using Nat.strong_induction_on with
    | _ delta ih =>
      intro note hnote
      rw [Note.expand] at hnote
      split_ifs at hnote with hle
      · obtain rfl | hnote := mem_cons.1 hnote
        · rfl
        · exact ih _ (xDelta_lt 0 hle).1 note hnote
      · obtain rfl := mem_singleton.1 hnote
        exact hw.arity
  induction ws generalizing last with
  | nil => exact fun note hnote => absurd hnote not_mem_nil
  | cons w ws ih =>
    intro note hnote
    obtain hnote | hnote := mem_append.1 hnote
    · exact hexpand w (h w mem_cons_self) _ note hnote
    · exact ih (fun w hw => h w (mem_cons_of_mem _ hw)) note hnote

/-- `PCToLineNumber` adds up the notes at the offsets up to `pc`. -/
theorem PCToLineNumber_encode {startLine pc : ℕ} {rest : List SrcNote} (h : ∀ w ∈ ws, w.Valid)
    (hsorted : (0 :: ws.map WrittenNote.offset).Pairwise (· ≤ ·)) :
    PCToLineNumber startLine (WrittenNote.encode 0 ws ++ SrcNote.terminator :: rest) pc =
      some (meaning ⟨startLine, 0⟩ ws pc) := by
  have hiter : Iterates (WrittenNote.encode 0 ws ++ SrcNote.terminator :: rest) (WrittenNote.visited 0 ws)
      (SrcNote.terminator :: rest) := Iterates.encode h 0
  have hlength := hiter.length_le
  rw [length_cons] at hlength
  rw [PCToLineNumber, walkNotes_eq hiter (arity_visited h) rfl (by omega), scan_visited hsorted]

/-- The offsets are the sums of the deltas. -/
def accumulate : ℕ → List Note → List WrittenNote
  | _, [] => []
  | offset, note :: notes =>
    if note.type = SrcNoteType.XDelta then accumulate (offset + note.delta) notes
    else ⟨offset + note.delta, note.type, note.operand⟩ :: accumulate (offset + note.delta) notes

lemma accumulate_expand (htype : type ≠ SrcNoteType.XDelta) :
    accumulate offset (Note.expand type operand delta ++ notes) =
      ⟨offset + delta, type, operand⟩ :: accumulate (offset + delta) notes := by
  induction delta using Nat.strong_induction_on generalizing offset with
  | _ delta ih =>
    rw [Note.expand]
    by_cases hle : DeltaLimit ≤ delta
    · obtain ⟨hlt, heq⟩ := xDelta_lt offset hle
      rw [if_pos hle, cons_append, accumulate, if_pos rfl]
      simp [ih, hlt, heq]
    · simp [hle, accumulate, htype]

/-- Each note that is visited has the offset at which it was written. -/
theorem accumulate_visited (h : ∀ w ∈ ws, w.Valid) (hsorted : (last :: ws.map WrittenNote.offset).Pairwise (· ≤ ·)) :
    accumulate last (WrittenNote.visited last ws) = ws := by
  induction ws generalizing last with
  | nil => rfl
  | cons w ws ih =>
    obtain ⟨hle, htail⟩ := pairwise_cons.1 hsorted
    have hlast : last ≤ w.offset := hle w.offset mem_cons_self
    have heq : last + (w.offset - last) = w.offset := by omega
    rw [WrittenNote.visited, accumulate_expand (h w mem_cons_self).type.2, heq,
      ih (fun w hw => h w (mem_cons_of_mem _ hw)) htail]

end SpiderMonkey.Frontend

import Mathlib.Tactic

/-!
# Source notes

A source note is a byte with a type and with its distance from the note before it, after extended deltas if
the distance is too great.  The operands follow it, in one byte or in four.  What `SrcNoteWriter` writes is
read back by `SrcNoteIterator` and `SrcNoteReader`: the notes with their deltas and operands, up to the first
terminator (`Iterates.encode`).
-/

namespace SpiderMonkey.Frontend

open List

inductive SrcNoteType
  | Null | AssignOp | ColSpan | NewLine | SetLine | Breakpoint | StepSep | Unused7 | XDelta
  deriving DecidableEq, Repr

namespace SrcNoteType

def toUInt8 : SrcNoteType → UInt8
  | Null => 0 | AssignOp => 1 | ColSpan => 2 | NewLine => 3 | SetLine => 4 | Breakpoint => 5 | StepSep => 6
  | Unused7 => 7 | XDelta => 8

/-- The numbers of operands of `specs_`. -/
def arity : SrcNoteType → ℕ
  | ColSpan | SetLine => 1
  | Null | AssignOp | NewLine | Breakpoint | StepSep | Unused7 | XDelta => 0

end SrcNoteType

structure SrcNote where
  value : UInt8
  deriving DecidableEq, Repr

namespace SrcNote

open SrcNoteType

def DeltaLimit : ℕ := 16
def XDeltaMask : ℕ := 127
def FourBytesOperandFlag : UInt8 := 0x80
def FourBytesOperandMask : UInt8 := 0x7f
def OperandBits : ℕ := 31
def MaxOperand : ℕ := 2 ^ OperandBits - 1

def toShiftedTypeBits (type : SrcNoteType) : UInt8 := type.toUInt8 <<< 4

def noteValue (type : SrcNoteType) (delta : ℕ) : UInt8 := toShiftedTypeBits type ||| (UInt8.ofNat delta &&& 0xf)

def xDeltaValue (delta : ℕ) : UInt8 := toShiftedTypeBits XDelta ||| (UInt8.ofNat delta &&& 0x7f)

def terminator : SrcNote := ⟨noteValue Null 0⟩

variable (sn : SrcNote)

def typeBits : UInt8 := sn.value >>> 4

def isXDelta : Bool := decide (8 ≤ sn.typeBits)

def isFourBytesOperand : Bool := (sn.value &&& FourBytesOperandFlag) != 0

def type : SrcNoteType :=
  if sn.isXDelta = true then XDelta
  else
    match sn.typeBits.toNat with
    | 0 => Null
    | 1 => AssignOp
    | 2 => ColSpan
    | 3 => NewLine
    | 4 => SetLine
    | 5 => Breakpoint
    | 6 => StepSep
    | _ => Unused7

def arity : ℕ := sn.type.arity

def isTerminator : Bool := sn.value == SrcNoteType.Null.toUInt8

def delta : ℕ := (if sn.isXDelta = true then sn.value &&& 0x7f else sn.value &&& 0xf).toNat

end SrcNote

/-! ## Column spans -/

namespace ColSpan

def ColSpanSignBit : ℕ := 2 ^ (SrcNote.OperandBits - 1)
def MinColSpan : ℤ := -ColSpanSignBit
def MaxColSpan : ℤ := ColSpanSignBit - 1

def fromOperand (operand : ℕ) : ℤ := ((operand ^^^ ColSpanSignBit : ℕ) : ℤ) - ColSpanSignBit

def isRepresentable (colspan : ℤ) : Bool := decide (MinColSpan ≤ colspan ∧ colspan ≤ MaxColSpan)

/-- The two's complement is truncated. -/
def toOperand (colspan : ℤ) : ℕ := (colspan % 2 ^ SrcNote.OperandBits).toNat

lemma toOperand_cast (colspan : ℤ) : (toOperand colspan : ℤ) = colspan % 2 ^ 31 :=
  Int.toNat_of_nonneg (Int.emod_nonneg colspan (by decide))

lemma toOperand_lt (colspan : ℤ) : toOperand colspan < 2 ^ 31 := by
  have hcast := toOperand_cast colspan
  omega

lemma xor_signBit {operand : ℕ} (h : operand < 2 ^ 31) :
    operand ^^^ ColSpanSignBit = if operand < 2 ^ 30 then operand + 2 ^ 30 else operand - 2 ^ 30 := by
  have hdiv : (operand ^^^ 2 ^ 30) / 2 ^ 30 = operand / 2 ^ 30 ^^^ 2 ^ 30 / 2 ^ 30 := Nat.xor_div_two_pow
  have hmod : (operand ^^^ 2 ^ 30) % 2 ^ 30 = operand % 2 ^ 30 ^^^ 2 ^ 30 % 2 ^ 30 := Nat.xor_mod_two_pow
  rw [Nat.mod_self, Nat.xor_zero] at hmod
  rw [Nat.div_self (by decide)] at hdiv
  have hbit : ColSpanSignBit = 2 ^ 30 := rfl
  rw [hbit]
  split_ifs with hlt
  · rw [Nat.div_eq_of_lt hlt, Nat.zero_xor] at hdiv
    omega
  · have hone : operand / 2 ^ 30 = 1 := by omega
    rw [hone, Nat.xor_self] at hdiv
    omega

theorem fromOperand_toOperand {colspan : ℤ} (h : isRepresentable colspan = true) :
    fromOperand (toOperand colspan) = colspan := by
  have hcast := toOperand_cast colspan
  have hbit : ColSpanSignBit = 2 ^ 30 := rfl
  have hrange : -(2 ^ 30) ≤ colspan ∧ colspan ≤ 2 ^ 30 - 1 := of_decide_eq_true h
  rw [fromOperand, xor_signBit (toOperand_lt colspan), hbit]
  split_ifs with hlt <;> omega

end ColSpan

/-! ## Writing and reading -/

open SrcNote

namespace SrcNoteWriter

/-- A note after as many extended deltas as its delta needs. -/
def writeNote (type : SrcNoteType) (delta : ℕ) : List SrcNote :=
  if DeltaLimit ≤ delta then
    ⟨xDeltaValue (min delta XDeltaMask)⟩ :: writeNote type (delta - min delta XDeltaMask)
  else [⟨noteValue type delta⟩]
termination_by delta
decreasing_by
  simp only [DeltaLimit, XDeltaMask] at *
  omega

def writeOperand (operand : ℕ) : List SrcNote :=
  if FourBytesOperandMask.toNat < operand then
    [⟨FourBytesOperandFlag ||| UInt8.ofNat (operand >>> 24)⟩, ⟨UInt8.ofNat (operand >>> 16)⟩,
      ⟨UInt8.ofNat (operand >>> 8)⟩, ⟨UInt8.ofNat operand⟩]
  else [⟨UInt8.ofNat operand⟩]

end SrcNoteWriter

namespace SrcNoteReader

/-- The pointer is moved over some operands; nothing is read outside the memory. -/
def skipOperands : ℕ → List SrcNote → Option (List SrcNote)
  | 0, curr => some curr
  | _ + 1, [] => none
  | which + 1, sn :: rest => skipOperands which (if sn.isFourBytesOperand = true then rest.drop 3 else rest)

def readOperand : List SrcNote → Option ℕ
  | [] => none
  | sn :: rest =>
    if sn.isFourBytesOperand = true then
      match rest with
      | b₁ :: b₂ :: b₃ :: _ => some ((sn.value &&& FourBytesOperandMask).toNat <<< 24 ||| b₁.value.toNat <<< 16 |||
          b₂.value.toNat <<< 8 ||| b₃.value.toNat)
      | _ => none
    else some sn.value.toNat

def getOperand (sn : List SrcNote) (which : ℕ) : Option ℕ := (skipOperands which sn.tail).bind readOperand

end SrcNoteReader

namespace SrcNoteIterator

/-- The iterator is moved over a note and its operands. -/
def next : List SrcNote → Option (List SrcNote)
  | [] => none
  | sn :: rest => SrcNoteReader.skipOperands sn.arity rest

end SrcNoteIterator

/-! ## Bytes -/

namespace SrcNote

lemma xDelta_facts : ∀ d : Fin 128, (⟨xDeltaValue d⟩ : SrcNote).type = SrcNoteType.XDelta ∧
    (⟨xDeltaValue d⟩ : SrcNote).delta = d ∧ (⟨xDeltaValue d⟩ : SrcNote).isTerminator = false := by
  decide

/-- A type that a note is written with. -/
def Written (type : SrcNoteType) : Prop := type ≠ SrcNoteType.Null ∧ type ≠ SrcNoteType.XDelta

instance (type : SrcNoteType) : Decidable (Written type) := inferInstanceAs (Decidable (_ ∧ _))

lemma note_facts (type : SrcNoteType) (htype : Written type) : ∀ d : Fin 16,
    (⟨noteValue type d⟩ : SrcNote).type = type ∧ (⟨noteValue type d⟩ : SrcNote).delta = d ∧
      (⟨noteValue type d⟩ : SrcNote).isTerminator = false := by
  revert htype
  cases type <;> decide

lemma head_facts : ∀ b : Fin 128, (⟨FourBytesOperandFlag ||| UInt8.ofNat b⟩ : SrcNote).isFourBytesOperand = true ∧
      ((FourBytesOperandFlag ||| UInt8.ofNat b) &&& FourBytesOperandMask).toNat = b := by
  decide

lemma byte_facts : ∀ b : Fin 128, (⟨UInt8.ofNat b⟩ : SrcNote).isFourBytesOperand = false := by
  decide

end SrcNote

/-! ## Operands -/

namespace SrcNoteReader

open SrcNoteWriter

variable {operand : ℕ} {rest : List SrcNote}

lemma fourBytes (operand : ℕ) : (operand >>> 24) <<< 24 ||| (operand >>> 16 % 2 ^ 8) <<< 16 |||
    (operand >>> 8 % 2 ^ 8) <<< 8 ||| operand % 2 ^ 8 = operand := by
  simp only [Nat.shiftRight_eq_div_pow, Nat.shiftLeft_eq]
  generalize h₁ : operand / 2 ^ 24 = a
  generalize h₂ : operand / 2 ^ 16 % 2 ^ 8 = b
  generalize h₃ : operand / 2 ^ 8 % 2 ^ 8 = c
  generalize h₄ : operand % 2 ^ 8 = d
  have hab : a * 2 ^ 24 ||| b * 2 ^ 16 = 2 ^ 16 * (a * 2 ^ 8 + b) := by
    rw [mul_comm a, ← Nat.two_pow_add_eq_or_of_lt (by omega)]
    omega
  have hc : 2 ^ 16 * (a * 2 ^ 8 + b) ||| c * 2 ^ 8 = 2 ^ 8 * ((a * 2 ^ 8 + b) * 2 ^ 8 + c) := by
    rw [← Nat.two_pow_add_eq_or_of_lt (by omega)]
    omega
  rw [hab, hc, ← Nat.two_pow_add_eq_or_of_lt (by omega)]
  omega

theorem readOperand_writeOperand (h : operand < 2 ^ 31) :
    readOperand (writeOperand operand ++ rest) = some operand := by
  unfold writeOperand
  split_ifs with hlt
  · obtain ⟨hflag, hmask⟩ := head_facts ⟨operand >>> 24, by rw [Nat.shiftRight_eq_div_pow]; omega⟩
    dsimp only at hflag hmask
    simp only [cons_append, readOperand, hflag, if_true, hmask, UInt8.toNat_ofNat']
    rw [fourBytes]
  · have hle : operand < 128 := by
      have : FourBytesOperandMask.toNat = 127 := rfl
      omega
    have hflag := byte_facts ⟨operand, hle⟩
    dsimp only at hflag
    simp only [cons_append, readOperand, hflag, Bool.false_eq_true, if_false, UInt8.toNat_ofNat']
    rw [Nat.mod_eq_of_lt (by omega)]

/-- An operand is skipped with all its bytes. -/
theorem skipOperands_writeOperand (h : operand < 2 ^ 31) (n : ℕ) :
    skipOperands (n + 1) (writeOperand operand ++ rest) = skipOperands n rest := by
  unfold writeOperand
  split_ifs with hlt
  · obtain ⟨hflag, -⟩ := head_facts ⟨operand >>> 24, by rw [Nat.shiftRight_eq_div_pow]; omega⟩
    dsimp only at hflag
    simp [skipOperands, hflag]
  · have hle : operand < 128 := by
      have : FourBytesOperandMask.toNat = 127 := rfl
      omega
    have hflag := byte_facts ⟨operand, hle⟩
    dsimp only at hflag
    simp [skipOperands, hflag]

end SrcNoteReader

/-! ## The notes that are visited -/

/-- A note with its distance from the note before it. -/
structure Note where
  type : SrcNoteType
  delta : ℕ
  operand : Option ℕ
  deriving DecidableEq, Repr

namespace SrcNoteIterator

/-- What is seen of the current note. -/
def readNote (current : List SrcNote) : Option Note :=
  current.head?.map fun sn =>
    ⟨sn.type, sn.delta, if sn.arity = 0 then none else SrcNoteReader.getOperand current 0⟩

/-- The iterator moves over `notes` in the memory `mem`, none of which is a terminator, to `end_`. -/
inductive Iterates : List SrcNote → List Note → List SrcNote → Prop
  | refl (mem : List SrcNote) : Iterates mem [] mem
  | step {sn : SrcNote} {rest mem end_ : List SrcNote} {note : Note} {notes : List Note}
      (hend : sn.isTerminator = false) (hnote : readNote (sn :: rest) = some note)
      (hnext : next (sn :: rest) = some mem) (h : Iterates mem notes end_) :
      Iterates (sn :: rest) (note :: notes) end_

lemma Iterates.append {mem mem' end_ : List SrcNote} {notes notes' : List Note}
    (h : Iterates mem notes mem') (h' : Iterates mem' notes' end_) : Iterates mem (notes ++ notes') end_ := by
  induction h with
  | refl => exact h'
  | step hend hnote hnext _ ih => exact .step hend hnote hnext (ih h')

end SrcNoteIterator

/-- The extended deltas and the note that are written for one note. -/
def Note.expand (type : SrcNoteType) (operand : Option ℕ) (delta : ℕ) : List Note :=
  if DeltaLimit ≤ delta then
    ⟨SrcNoteType.XDelta, min delta XDeltaMask, none⟩ :: expand type operand (delta - min delta XDeltaMask)
  else [⟨type, delta, operand⟩]
termination_by delta
decreasing_by
  simp only [DeltaLimit, XDeltaMask] at *
  omega

/-- A note as it is asked for, with the offset in the bytecode. -/
structure WrittenNote where
  offset : ℕ
  type : SrcNoteType
  operand : Option ℕ
  deriving DecidableEq, Repr

namespace WrittenNote

/-- A note that can be written: with the operands of its type. -/
structure Valid (note : WrittenNote) : Prop where
  type : Written note.type
  arity : note.operand.toList.length = note.type.arity
  lt : ∀ operand ∈ note.operand, operand < 2 ^ 31

/-- The bytes of a note after one at the offset `last`. -/
def bytes (last : ℕ) (note : WrittenNote) : List SrcNote :=
  SrcNoteWriter.writeNote note.type (note.offset - last) ++ note.operand.toList.flatMap SrcNoteWriter.writeOperand

def encode : ℕ → List WrittenNote → List SrcNote
  | _, [] => []
  | last, note :: notes => note.bytes last ++ encode note.offset notes

/-- The notes that are visited. -/
def visited : ℕ → List WrittenNote → List Note
  | _, [] => []
  | last, note :: notes => Note.expand note.type note.operand (note.offset - last) ++ visited note.offset notes

end WrittenNote

namespace SrcNoteIterator.Iterates

variable {note : WrittenNote} {notes : List WrittenNote} {rest : List SrcNote}

/-- The note itself, after its extended deltas. -/
lemma of_lt (h : note.Valid) {delta : ℕ} (hdelta : delta < DeltaLimit) : Iterates
    (⟨noteValue note.type delta⟩ :: note.operand.toList.flatMap SrcNoteWriter.writeOperand ++ rest)
    [⟨note.type, delta, note.operand⟩] rest := by
  obtain ⟨htype, hval, hend⟩ := note_facts note.type h.type ⟨delta, hdelta⟩
  dsimp only at htype hval hend
  have harity := h.arity
  rw [cons_append]
  cases hop : note.operand with
  | none =>
    rw [hop] at harity
    have hzero : (⟨noteValue note.type delta⟩ : SrcNote).arity = 0 := by
      rw [SrcNote.arity, htype]
      exact harity.symm
    refine .step hend ?_ ?_ (.refl rest)
    · simp [readNote, hzero, htype, hval]
    · simp [next, hzero, SrcNoteReader.skipOperands]
  | some operand =>
    rw [hop] at harity
    have hone : (⟨noteValue note.type delta⟩ : SrcNote).arity = 1 := by
      rw [SrcNote.arity, htype]
      exact harity.symm
    have hlt := h.lt operand hop
    refine .step hend ?_ ?_ (.refl rest)
    · simp [readNote, hone, htype, hval, SrcNoteReader.getOperand, SrcNoteReader.skipOperands,
        SrcNoteReader.readOperand_writeOperand hlt]
    · simp [next, hone, SrcNoteReader.skipOperands_writeOperand hlt, SrcNoteReader.skipOperands]

lemma bytes (h : note.Valid) (delta : ℕ) : Iterates
    (SrcNoteWriter.writeNote note.type delta ++ note.operand.toList.flatMap SrcNoteWriter.writeOperand ++ rest)
    (Note.expand note.type note.operand delta) rest := by
  induction delta using Nat.strong_induction_on with
  | _ delta ih =>
    rw [SrcNoteWriter.writeNote, Note.expand]
    split_ifs with hle
    · have hmin : min delta XDeltaMask < 128 := (min_le_right _ _).trans_lt (by decide)
      obtain ⟨htype, hval, hend⟩ := xDelta_facts ⟨min delta XDeltaMask, hmin⟩
      dsimp only at htype hval hend
      have hzero : (⟨xDeltaValue (min delta XDeltaMask)⟩ : SrcNote).arity = 0 := by
        rw [SrcNote.arity, htype]
        rfl
      have hlt : delta - min delta XDeltaMask < delta := by
        simp only [DeltaLimit, XDeltaMask] at *
        omega
      refine .step hend ?_ ?_ (ih _ hlt)
      · simp [readNote, hzero, htype, hval]
      · simp [next, hzero, SrcNoteReader.skipOperands]
    · exact of_lt h (not_le.1 hle)

/-- The iterator visits what was written, and stops at what follows. -/
theorem encode (h : ∀ note ∈ notes, note.Valid) (last : ℕ) :
    Iterates (WrittenNote.encode last notes ++ rest) (WrittenNote.visited last notes) rest := by
  induction notes generalizing last with
  | nil => exact .refl rest
  | cons note notes ih =>
    rw [WrittenNote.encode, WrittenNote.visited, append_assoc]
    refine (bytes (h note mem_cons_self) _).append ?_
    exact ih (fun note hnote => h note (mem_cons_of_mem _ hnote)) note.offset

end SrcNoteIterator.Iterates

end SpiderMonkey.Frontend

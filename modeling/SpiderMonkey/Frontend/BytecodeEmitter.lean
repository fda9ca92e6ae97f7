import SpiderMonkey.Frontend.SourceCoords
import SpiderMonkey.Frontend.SourceNotes

/-!
# The emitter's source notes

`updateLineNumberNotes` and `updateSourceCoordNotes` record the position of the next bytecode in source
notes, and `PCToLineNumber` finds the line and the column of a bytecode from them.  `Recorder` says what is
recorded: the positions, without notes.
-/

namespace SpiderMonkey.Frontend

def MaxSrcNotesLength : ℕ := 2 ^ 31 - 1

/-- Where offsets in the source text are. -/
structure ErrorReporter where
  coords : SourceCoords
  columnAt : ℕ → ℕ
  columnAt_lt : ∀ offset, columnAt offset < 2 ^ 32

/-- The bytecode is counted.  `written` lists the calls of `newSrcNote`; it is not in the source. -/
structure BytecodeEmitter where
  offset : ℕ
  notes : List SrcNote
  lastNoteOffset : ℕ
  currentLine : ℕ
  lastColumn : ℕ
  skipLocationSrcNotes : Bool
  lastIndex : ℕ
  written : List WrittenNote

namespace BytecodeEmitter

def initial (lineNum : ℕ) (skip : Bool) : BytecodeEmitter := ⟨0, [], 0, lineNum, 0, skip, 0, []⟩

variable (reporter : ErrorReporter) (bce : BytecodeEmitter)

/-- The notes grow, unless there are too many. -/
def allocSrcNote (bytes : List SrcNote) : Option BytecodeEmitter :=
  if MaxSrcNotesLength < bce.notes.length + bytes.length then none
  else some { bce with notes := bce.notes ++ bytes }

def writeSrcNote (type : SrcNoteType) (operand : Option ℕ) : Option BytecodeEmitter :=
  allocSrcNote
    { bce with lastNoteOffset := bce.offset, written := bce.written ++ [⟨bce.offset, type, operand⟩] }
    (SrcNoteWriter.writeNote type (bce.offset - bce.lastNoteOffset))

def newSrcNote (type : SrcNoteType) : Option BytecodeEmitter := bce.writeSrcNote type none

def newSrcNoteOperand (operand : ℕ) : Option BytecodeEmitter :=
  if SrcNote.MaxOperand < operand then none else bce.allocSrcNote (SrcNoteWriter.writeOperand operand)

def newSrcNote2 (type : SrcNoteType) (operand : ℕ) : Option BytecodeEmitter :=
  (bce.writeSrcNote type (some operand)).bind fun bce => bce.newSrcNoteOperand operand

/-- The length of a note for the line. -/
def lengthFor (line : ℕ) : ℕ := 1 + if SrcNote.FourBytesOperandMask.toNat < line then 4 else 1

/-- One note for each new line. -/
def newLines : ℕ → BytecodeEmitter → Option BytecodeEmitter
  | 0, bce => some bce
  | delta + 1, bce => (bce.newSrcNote SrcNoteType.NewLine).bind fun bce => newLines delta bce

/-- A line other than the current one: the difference of the lines wraps around. -/
def writeLine (line : ℕ) : Option BytecodeEmitter :=
  let delta := (line + 2 ^ 32 - bce.currentLine) % 2 ^ 32
  let bce := { bce with currentLine := line, lastColumn := 0 }
  if lengthFor line ≤ delta then bce.newSrcNote2 SrcNoteType.SetLine line
  else newLines (if delta = 0 then 2 ^ 32 else delta) bce

def updateLineNumberNotes (offset : ℕ) : Option BytecodeEmitter :=
  if bce.skipLocationSrcNotes = true then some bce
  else
    (reporter.coords.isOnThisLine offset bce.currentLine).bind fun onThisLine =>
      if onThisLine = true then some bce
      else
        let index := reporter.coords.indexFromOffset bce.lastIndex offset
        writeLine { bce with lastIndex := index } (reporter.coords.lineNumberFromIndex index)

def writeColumn (columnIndex : ℕ) : Option BytecodeEmitter :=
  let colspan : ℤ := columnIndex - bce.lastColumn
  if colspan = 0 then some bce
  else if ColSpan.isRepresentable colspan = false then some bce
  else
    (bce.newSrcNote2 SrcNoteType.ColSpan (ColSpan.toOperand colspan)).map fun bce =>
      { bce with lastColumn := columnIndex }

def updateSourceCoordNotes (offset : ℕ) : Option BytecodeEmitter :=
  (bce.updateLineNumberNotes reporter offset).bind fun bce =>
    if bce.skipLocationSrcNotes = true then some bce
    else
      writeColumn { bce with lastIndex := reporter.coords.indexFromOffset bce.lastIndex offset }
        (reporter.columnAt offset)

/-- What is done while bytecode is emitted. -/
inductive Action
  | emit (length : ℕ)
  | updateLineNumberNotes (offset : ℕ)
  | updateSourceCoordNotes (offset : ℕ)
  | newSrcNote (type : SrcNoteType)
  | skipLocationSrcNotes (skip : Bool)

def step : Action → Option BytecodeEmitter
  | .emit length => some { bce with offset := bce.offset + length }
  | .updateLineNumberNotes offset => bce.updateLineNumberNotes reporter offset
  | .updateSourceCoordNotes offset => bce.updateSourceCoordNotes reporter offset
  | .newSrcNote type => bce.newSrcNote type
  | .skipLocationSrcNotes skip => some { bce with skipLocationSrcNotes := skip }

def run (actions : List Action) : Option BytecodeEmitter := actions.foldlM (fun bce => bce.step reporter) bce

end BytecodeEmitter

/-- The positions are in the text, and the other notes have no operands and are not about lines. -/
def ErrorReporter.Valid (reporter : ErrorReporter) : BytecodeEmitter.Action → Prop
  | .updateLineNumberNotes offset | .updateSourceCoordNotes offset => reporter.coords.Has offset
  | .newSrcNote type => SrcNote.Written type ∧ type.arity = 0 ∧ type ≠ SrcNoteType.NewLine
  | .emit _ | .skipLocationSrcNotes _ => True

/-! ## Positions -/

structure Position where
  line : ℕ
  column : ℕ
  deriving DecidableEq, Repr

namespace Position

variable (p : Position)

/-- On another line the column starts again. -/
def setLine (line : ℕ) : Position := if line = p.line then p else ⟨line, 0⟩

/-- The column is dropped if the span is not representable. -/
def setColumn (column : ℕ) : Position :=
  if ColSpan.isRepresentable (column - p.column) = true then { p with column := column } else p

/-- What a note says. -/
def visit : SrcNoteType → Option ℕ → Position
  | .SetLine, some line => ⟨line % 2 ^ 32, 0⟩
  | .NewLine, none => ⟨(p.line + 1) % 2 ^ 32, 0⟩
  | .ColSpan, some operand => { p with column := ((p.column + ColSpan.fromOperand operand) % 2 ^ 32).toNat }
  | _, _ => p

end Position

/-- The positions that are recorded, with the offsets of the bytecode. -/
structure Recorder where
  offset : ℕ
  position : Position
  skipLocationSrcNotes : Bool
  recorded : List (ℕ × Position)

namespace Recorder

def initial (lineNum : ℕ) (skip : Bool) : Recorder := ⟨0, ⟨lineNum, 0⟩, skip, []⟩

variable (reporter : ErrorReporter) (r : Recorder)

def record (p : Position) : Recorder := { r with position := p, recorded := r.recorded ++ [(r.offset, p)] }

def step : BytecodeEmitter.Action → Recorder
  | .emit length => { r with offset := r.offset + length }
  | .updateLineNumberNotes offset =>
    if r.skipLocationSrcNotes = true then r else r.record (r.position.setLine (reporter.coords.lineAt offset))
  | .updateSourceCoordNotes offset =>
    if r.skipLocationSrcNotes = true then r
    else r.record ((r.position.setLine (reporter.coords.lineAt offset)).setColumn (reporter.columnAt offset))
  | .newSrcNote _ => r
  | .skipLocationSrcNotes skip => { r with skipLocationSrcNotes := skip }

def run (actions : List BytecodeEmitter.Action) : Recorder := actions.foldl (fun r => r.step reporter) r

/-- The last position that is recorded at an offset up to `pc`. -/
def lastAt (lineNum pc : ℕ) : Position :=
  ((r.recorded.filter fun entry => decide (entry.1 ≤ pc)).getLast?.map Prod.snd).getD ⟨lineNum, 0⟩

end Recorder

/-! ## The position of a bytecode -/

def visitNote (current : List SrcNote) (sn : SrcNote) (p : Position) : Option Position :=
  match sn.type with
  | .SetLine => (SrcNoteReader.getOperand current 0).map fun line => ⟨line % 2 ^ 32, 0⟩
  | .NewLine => some ⟨(p.line + 1) % 2 ^ 32, 0⟩
  | .ColSpan => (SrcNoteReader.getOperand current 0).map fun operand =>
      { p with column := ((p.column + ColSpan.fromOperand operand) % 2 ^ 32).toNat }
  | _ => some p

def walkNotes (target : ℕ) : ℕ → List SrcNote → ℕ → Position → Option Position
  | 0, _, _, _ => none
  | _ + 1, [], _, _ => none
  | fuel + 1, sn :: rest, offset, p =>
    if sn.isTerminator = true then some p
    else if target < offset + sn.delta then some p
    else
      (visitNote (sn :: rest) sn p).bind fun p =>
        (SrcNoteIterator.next (sn :: rest)).bind fun next => walkNotes target fuel next (offset + sn.delta) p

def PCToLineNumber (startLine : ℕ) (notes : List SrcNote) (pc : ℕ) : Option Position :=
  walkNotes pc notes.length notes 0 ⟨startLine, 0⟩

end SpiderMonkey.Frontend

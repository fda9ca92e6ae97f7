import SpiderMonkey.Jit.MIR

/-!
# Linear sums

`ExtractLinearSum` reads a definition as the sum of a term and a constant, and `AnalyzeAdd` folds the additions of
several constants into one.  Definitions are the expressions over their operands; a definition that occurs in several
places has the same identity in each of them.
-/

namespace SpiderMonkey.LinearSum

/-! ## Definitions -/

inductive TruncateKind
  | NoTruncate
  | TruncateAfterBailouts
  | IndirectTruncate
  | Truncate
  deriving DecidableEq

inductive ArithOp
  | add
  | sub
  deriving DecidableEq

/-- `constant` is a constant of type int32; everything that is not read as a sum is `other`. -/
inductive Definition
  | constant (id : ℕ) (value : Int32)
  | beta (id : ℕ) (operand : Definition)
  | arith (id : ℕ) (op : ArithOp) (type : MIRType) (truncateKind : TruncateKind) (lhs rhs : Definition)
  | other (id : ℕ) (type : MIRType)

namespace Definition

def id : Definition → ℕ
  | constant id _ | beta id _ | arith id _ _ _ _ _ | other id _ => id

def type : Definition → MIRType
  | constant _ _ => .Int32
  | beta _ operand => operand.type
  | arith _ _ type _ _ _ => type
  | other _ type => type

end Definition

/-! ## The sum -/

/-- Without a term the sum is its constant. -/
structure SimpleLinearSum where
  term : Option Definition
  constant : Int32

inductive MathSpace
  | Modulo
  | Infinite
  | Unknown
  deriving DecidableEq

def ExtractMathSpace : TruncateKind → MathSpace
  | .NoTruncate | .TruncateAfterBailouts => .Infinite
  | .IndirectTruncate | .Truncate => .Modulo

def int32OfSum (n : ℤ) : Option Int32 := if -2 ^ 31 ≤ n ∧ n < 2 ^ 31 then some (Int32.ofInt n) else none

variable (lhs rhs : Int32)

def SafeAdd : Option Int32 := int32OfSum (lhs.toInt + rhs.toInt)
def SafeSub : Option Int32 := int32OfSum (lhs.toInt - rhs.toInt)

def MonotoneAdd : Bool := (0 ≤ lhs && 0 ≤ rhs) || (lhs ≤ 0 && rhs ≤ 0)
def MonotoneSub : Bool := (0 ≤ lhs && rhs ≤ 0) || (lhs ≤ 0 && 0 ≤ rhs)

/-- The constant of a sum or difference in one of the spaces. -/
def sumConstant (op : ArithOp) (space : MathSpace) (lhs rhs : Int32) : Option Int32 :=
  match op with
  | .add =>
    if space = .Modulo then some (lhs + rhs)
    else if MonotoneAdd lhs rhs then SafeAdd lhs rhs else none
  | .sub =>
    if space = .Modulo then some (lhs - rhs)
    else if MonotoneSub lhs rhs then SafeSub lhs rhs else none

/-- The sum for `ins`, from those of its operands. -/
def combine (ins : Definition) (op : ArithOp) (space : MathSpace) (lsum rsum : SimpleLinearSum) : SimpleLinearSum :=
  match lsum.term, rsum.term with
  | some _, some _ => ⟨ins, 0⟩
  | lterm, rterm =>
    match sumConstant op space lsum.constant rsum.constant with
    | none => ⟨ins, 0⟩
    | some constant =>
      match op, lterm with
      | .add, none => ⟨rterm, constant⟩
      | .sub, none => ⟨ins, 0⟩
      | _, some term => ⟨term, constant⟩

/-- Only one beta node is looked through. -/
def linearSum (skipBeta : Bool) : Definition → MathSpace → SimpleLinearSum
  | .beta id operand, space => if skipBeta then linearSum false operand space else ⟨some (.beta id operand), 0⟩
  | .constant _ value, _ => ⟨none, value⟩
  | .other id type, _ => ⟨some (.other id type), 0⟩
  | .arith id op type truncateKind lhs rhs, space =>
    let ins := Definition.arith id op type truncateKind lhs rhs
    let insSpace := ExtractMathSpace truncateKind
    if type ≠ .Int32 then ⟨some ins, 0⟩
    else if space ≠ .Unknown ∧ space ≠ insSpace then ⟨some ins, 0⟩
    else if lhs.type ≠ .Int32 ∨ rhs.type ≠ .Int32 then ⟨some ins, 0⟩
    else combine ins op insSpace (linearSum true lhs insSpace) (linearSum true rhs insSpace)

def ExtractLinearSum (ins : Definition) (space : MathSpace) : SimpleLinearSum := linearSum true ins space

/-! ## Folding additions -/

/-- The addition adds a constant already, and would be replaced by the same addition. -/
def isSameAdd (sum : SimpleLinearSum) (term : Definition) (lhs rhs : Definition) : Bool :=
  match lhs, rhs with
  | .constant _ value, other | other, .constant _ value => term.id == other.id || sum.constant == value
  | _, _ => false

/-- The addition that replaces `add`; the two new instructions have the next identities. -/
def AnalyzeAdd (nextId : ℕ) (isRecoveredOnBailout hasUses : Bool) (add : Definition) : Option Definition :=
  match add with
  | .arith _ .add type truncateKind lhs rhs =>
    if type ≠ .Int32 ∨ isRecoveredOnBailout = true then none
    else if hasUses = false then none
    else
      let sum := ExtractLinearSum add .Unknown
      match sum.term with
      | none => none
      | some term =>
        if sum.constant = 0 ∨ isSameAdd sum term lhs rhs = true then none
        else some (.arith (nextId + 1) .add .Int32 truncateKind term (.constant nextId sum.constant))
  | _ => none

/-! ## What definitions evaluate to -/

/-- Additions and subtractions that bail out when the result is not an int32. -/
def fallible : TruncateKind → Bool
  | .NoTruncate | .TruncateAfterBailouts => true
  | .IndirectTruncate | .Truncate => false

/-- The result, unless there is a bailout. -/
def ArithOp.compute (op : ArithOp) (truncateKind : TruncateKind) (lhs rhs : Int32) : Option Int32 :=
  match op with
  | .add => if fallible truncateKind then SafeAdd lhs rhs else some (lhs + rhs)
  | .sub => if fallible truncateKind then SafeSub lhs rhs else some (lhs - rhs)

/-- The value of a definition, where `env` has those of the terms; `none` is a bailout.  Arithmetic that is not on
int32 is a term. -/
def eval (env : ℕ → Option Int32) : Definition → Option Int32
  | .constant _ value => some value
  | .beta _ operand => eval env operand
  | .other id _ => env id
  | .arith id op type truncateKind lhs rhs =>
    if type = .Int32 ∧ lhs.type = .Int32 ∧ rhs.type = .Int32 then
      (eval env lhs).bind fun l => (eval env rhs).bind fun r => op.compute truncateKind l r
    else env id

def SimpleLinearSum.termValue (env : ℕ → Option Int32) (sum : SimpleLinearSum) : Option Int32 :=
  match sum.term with
  | none => some 0
  | some term => eval env term

/-- `v` is the sum of `x` and the constant; in infinite space there is no such `v` if the sum is not an int32. -/
def Shifts (space : MathSpace) (x constant v : Int32) : Prop :=
  match space with
  | .Modulo => v = x + constant
  | .Infinite => v.toInt = x.toInt + constant.toInt
  | .Unknown => v = x ∧ constant = 0

/-- A value is what the sum is in a space. -/
def Represents (env : ℕ → Option Int32) (space : MathSpace) (value : Option Int32) (sum : SimpleLinearSum) : Prop :=
  ∀ v, value = some v ↔ ∃ x, sum.termValue env = some x ∧ Shifts space x sum.constant v

variable {env : ℕ → Option Int32} {op : ArithOp} {space : MathSpace} {truncateKind : TruncateKind}
  {x v lhs rhs constant : Int32} {ins term : Definition} {sum lsum rsum : SimpleLinearSum} {n : ℤ}

/-! ### Sums of int32 -/

@[simp] lemma int32OfSum_eq_some : int32OfSum n = some v ↔ v.toInt = n := by
  have hge := v.le_toInt
  have hlt := v.toInt_lt
  unfold int32OfSum
  split_ifs with h
  · simp [← Int32.toInt_inj, Int32.toInt_ofInt_of_le h.1 h.2, eq_comm]
  · simp only [reduceCtorEq, false_iff]
    omega

@[simp] lemma safeAdd_eq_some : SafeAdd lhs rhs = some v ↔ v.toInt = lhs.toInt + rhs.toInt := int32OfSum_eq_some
@[simp] lemma safeSub_eq_some : SafeSub lhs rhs = some v ↔ v.toInt = lhs.toInt - rhs.toInt := int32OfSum_eq_some

lemma exists_toInt_eq (hge : -2 ^ 31 ≤ n) (hlt : n < 2 ^ 31) : ∃ v : Int32, v.toInt = n :=
  ⟨_, Int32.toInt_ofInt_of_le hge hlt⟩

lemma monotoneAdd_iff : MonotoneAdd lhs rhs = true ↔ 0 ≤ lhs.toInt ∧ 0 ≤ rhs.toInt ∨ lhs.toInt ≤ 0 ∧ rhs.toInt ≤ 0 := by
  simp [MonotoneAdd, Int32.le_iff_toInt_le]

lemma monotoneSub_iff : MonotoneSub lhs rhs = true ↔ 0 ≤ lhs.toInt ∧ rhs.toInt ≤ 0 ∨ lhs.toInt ≤ 0 ∧ 0 ≤ rhs.toInt := by
  simp [MonotoneSub, Int32.le_iff_toInt_le]

lemma fallible_iff : fallible truncateKind = true ↔ ExtractMathSpace truncateKind = .Infinite := by
  cases truncateKind <;> simp [fallible, ExtractMathSpace]

lemma extractMathSpace_cases (truncateKind : TruncateKind) :
    ExtractMathSpace truncateKind = .Modulo ∨ ExtractMathSpace truncateKind = .Infinite := by
  cases truncateKind <;> simp [ExtractMathSpace]

lemma extractMathSpace_ne_unknown (truncateKind : TruncateKind) : ExtractMathSpace truncateKind ≠ .Unknown := by
  cases truncateKind <;> simp [ExtractMathSpace]

lemma compute_modulo (h : ExtractMathSpace truncateKind = .Modulo) :
    op.compute truncateKind lhs rhs = some (match op with | .add => lhs + rhs | .sub => lhs - rhs) := by
  have hnot : fallible truncateKind = false := by
    rw [Bool.eq_false_iff, ne_eq, fallible_iff, h]
    simp
  cases op <;> simp [ArithOp.compute, hnot]

lemma compute_infinite (h : ExtractMathSpace truncateKind = .Infinite) : op.compute truncateKind lhs rhs = some v ↔
      v.toInt = match op with | .add => lhs.toInt + rhs.toInt | .sub => lhs.toInt - rhs.toInt := by
  have hfallible := fallible_iff.2 h
  cases op <;> simp [ArithOp.compute, hfallible]

/-- Two steps are one: in infinite space the constants have the same direction, so what is between the terms and the
result is an int32 if these are. -/
lemma sumConstant_spec (hconstant : sumConstant op (ExtractMathSpace truncateKind) lhs rhs = some constant) :
    (∃ y, Shifts (ExtractMathSpace truncateKind) x lhs y ∧ op.compute truncateKind y rhs = some v) ↔
      Shifts (ExtractMathSpace truncateKind) x constant v := by
  obtain h | h := extractMathSpace_cases truncateKind
  · simp only [compute_modulo h]
    rw [h] at hconstant ⊢
    cases op with
    | add =>
      obtain rfl : lhs + rhs = constant := by simpa [sumConstant] using hconstant
      simp [Shifts, Int32.add_assoc, eq_comm]
    | sub =>
      obtain rfl : lhs - rhs = constant := by simpa [sumConstant] using hconstant
      simp [Shifts, Int32.sub_eq_add_neg, Int32.add_assoc, eq_comm]
  · simp only [compute_infinite h]
    rw [h] at hconstant ⊢
    have hx := x.le_toInt
    have hx' := x.toInt_lt
    have hv := v.le_toInt
    have hv' := v.toInt_lt
    cases op with
    | add =>
      obtain ⟨hmonotone, hsum⟩ : MonotoneAdd lhs rhs = true ∧ constant.toInt = lhs.toInt + rhs.toInt := by
        simpa [sumConstant] using hconstant
      rw [monotoneAdd_iff] at hmonotone
      simp only [Shifts, hsum]
      refine ⟨fun ⟨y, hy, hv⟩ => by omega, fun hv => ?_⟩
      obtain ⟨y, hy⟩ := exists_toInt_eq (n := x.toInt + lhs.toInt) (by omega) (by omega)
      exact ⟨y, hy, by omega⟩
    | sub =>
      obtain ⟨hmonotone, hsum⟩ : MonotoneSub lhs rhs = true ∧ constant.toInt = lhs.toInt - rhs.toInt := by
        simpa [sumConstant] using hconstant
      rw [monotoneSub_iff] at hmonotone
      simp only [Shifts, hsum]
      refine ⟨fun ⟨y, hy, hv⟩ => by omega, fun hv => ?_⟩
      obtain ⟨y, hy⟩ := exists_toInt_eq (n := x.toInt + lhs.toInt) (by omega) (by omega)
      exact ⟨y, hy, by omega⟩

lemma sumConstant_comm : sumConstant .add space lhs rhs = sumConstant .add space rhs lhs := by
  have hmonotone : MonotoneAdd lhs rhs = MonotoneAdd rhs lhs := by
    rw [Bool.eq_iff_iff, monotoneAdd_iff, monotoneAdd_iff]
    tauto
  have hsafe : SafeAdd lhs rhs = SafeAdd rhs lhs := by rw [SafeAdd, SafeAdd, Int.add_comm]
  rw [sumConstant, sumConstant, Int32.add_comm lhs rhs, hmonotone, hsafe]

lemma compute_comm : ArithOp.add.compute truncateKind lhs rhs = ArithOp.add.compute truncateKind rhs lhs := by
  have hsafe : SafeAdd lhs rhs = SafeAdd rhs lhs := by rw [SafeAdd, SafeAdd, Int.add_comm]
  simp [ArithOp.compute, Int32.add_comm lhs rhs, hsafe]

lemma shifts_zero_left (h : space ≠ .Unknown) : Shifts space 0 constant v ↔ v = constant := by
  cases space <;> simp [Shifts, Int32.toInt_inj] at h ⊢

lemma shifts_zero_right : Shifts space x 0 v ↔ v = x := by
  cases space <;> simp [Shifts, Int32.toInt_inj]

/-! ### The sum has the value of the definition -/

lemma represents_self : Represents env space (eval env ins) ⟨ins, 0⟩ := by
  intro v
  simp [SimpleLinearSum.termValue, shifts_zero_right]

lemma represents_constant (h : space ≠ .Unknown) : Represents env space (some constant) ⟨none, constant⟩ := by
  intro v
  simp [SimpleLinearSum.termValue, shifts_zero_left h, eq_comm]

lemma Represents.eq_constant {value : Option Int32} (h : Represents env space value sum) (hterm : sum.term = none)
    (hspace : space ≠ .Unknown) : value = some sum.constant :=
  (h _).2 ⟨0, by rw [SimpleLinearSum.termValue, hterm], (shifts_zero_left hspace).2 rfl⟩

lemma Represents.shift {value : Option Int32} (h : Represents env (ExtractMathSpace truncateKind) value sum)
    (hconstant : sumConstant op (ExtractMathSpace truncateKind) sum.constant rhs = some constant) :
    Represents env (ExtractMathSpace truncateKind) (value.bind fun y => op.compute truncateKind y rhs)
      ⟨sum.term, constant⟩ := by
  intro v
  rw [Option.bind_eq_some_iff]
  constructor
  · rintro ⟨y, hy, hv⟩
    obtain ⟨x, hx, hshift⟩ := (h y).1 hy
    exact ⟨x, hx, (sumConstant_spec hconstant).1 ⟨y, hshift, hv⟩⟩
  · rintro ⟨x, hx, hshift⟩
    obtain ⟨y, hy, hv⟩ := (sumConstant_spec hconstant).2 hshift
    exact ⟨y, (h y).2 ⟨x, hx, hy⟩, hv⟩

lemma combine_represents {lvalue rvalue : Option Int32}
    (hl : Represents env (ExtractMathSpace truncateKind) lvalue lsum)
    (hr : Represents env (ExtractMathSpace truncateKind) rvalue rsum)
    (hins : eval env ins = lvalue.bind fun l => rvalue.bind fun r => op.compute truncateKind l r) :
    Represents env (ExtractMathSpace truncateKind) (eval env ins)
      (combine ins op (ExtractMathSpace truncateKind) lsum rsum) := by
  have hspace := extractMathSpace_ne_unknown truncateKind
  obtain ⟨lterm, lconstant⟩ := lsum
  obtain ⟨rterm, rconstant⟩ := rsum
  unfold combine
  dsimp only
  cases hsum : sumConstant op (ExtractMathSpace truncateKind) lconstant rconstant with
  | none => cases lterm <;> cases rterm <;> exact represents_self
  | some constant =>
    cases rterm with
    | none =>
      have hrvalue := hr.eq_constant rfl hspace
      have hshift := hl.shift hsum
      have hvalue : eval env ins = lvalue.bind fun l => op.compute truncateKind l rconstant := by
        rw [hins, hrvalue]
        rfl
      rw [← hvalue] at hshift
      cases lterm with
      | none =>
        cases op with
        | add => exact hshift
        | sub => exact represents_self
      | some term => cases op <;> exact hshift
    | some rterm =>
      cases lterm with
      | some lterm => exact represents_self
      | none =>
        cases op with
        | sub => exact represents_self
        | add =>
          have hlvalue := hl.eq_constant rfl hspace
          have hshift := hr.shift (sumConstant_comm.trans hsum)
          have hvalue : eval env ins = rvalue.bind fun r => ArithOp.add.compute truncateKind r lconstant := by
            rw [hins, hlvalue, Option.bind_some]
            simp only [compute_comm]
          rwa [← hvalue] at hshift

/-- In a space that is given the sum is what the definition evaluates to. -/
lemma linearSum_represents (skipBeta : Bool) (hspace : space ≠ .Unknown) :
    Represents env space (eval env ins) (linearSum skipBeta ins space) := by
  induction ins generalizing skipBeta with
  | constant id value => exact represents_constant hspace
  | other id type => exact represents_self
  | beta id operand ih =>
    cases skipBeta with
    | true => exact ih false
    | false => exact represents_self
  | arith id op type truncateKind lhs rhs ihl ihr =>
    unfold linearSum
    dsimp only
    split_ifs with htype hother htypes
    · exact represents_self
    · exact represents_self
    · exact represents_self
    · obtain rfl : space = ExtractMathSpace truncateKind := by simpa [hspace] using hother
      rw [not_or, not_ne_iff, not_ne_iff] at htypes
      refine combine_represents (ihl true) (ihr true) ?_
      rw [eval, if_pos ⟨not_ne_iff.1 htype, htypes⟩]

/-- The space in which a definition is read; `Unknown` if there is nothing to read. -/
def spaceOf (ins : Definition) (space : MathSpace) : MathSpace :=
  if space ≠ .Unknown then space
  else match ins with
    | .arith _ _ type truncateKind _ _ | .beta _ (.arith _ _ type truncateKind _ _) =>
      if type = .Int32 then ExtractMathSpace truncateKind else .Unknown
    | _ => .Unknown

/-- Where the space is not given the sum is read in that of the definition. -/
lemma ExtractLinearSum_spaceOf {space' : MathSpace} (hspace : space' ≠ .Unknown)
    (h : spaceOf ins space = space' ∨ spaceOf ins space = .Unknown) :
    ExtractLinearSum ins space = ExtractLinearSum ins space' := by
  unfold spaceOf at h
  split_ifs at h with hgiven
  · rw [h.resolve_right hgiven]
  · obtain rfl := not_ne_iff.1 hgiven
    have harith : ∀ skipBeta id op type truncateKind lhs rhs,
        (if type = MIRType.Int32 then ExtractMathSpace truncateKind else .Unknown) = space' ∨
          (if type = MIRType.Int32 then ExtractMathSpace truncateKind else .Unknown) = .Unknown →
        linearSum skipBeta (.arith id op type truncateKind lhs rhs) .Unknown =
          linearSum skipBeta (.arith id op type truncateKind lhs rhs) space' := by
      intro skipBeta id op type truncateKind lhs rhs h
      by_cases htype : type = .Int32
      · have hkind := extractMathSpace_ne_unknown truncateKind
        rw [if_pos htype] at h
        obtain rfl := h.resolve_right hkind
        simp [linearSum]
      · simp [linearSum, htype]
    cases ins with
    | constant | other => rfl
    | arith => exact harith _ _ _ _ _ _ _ h
    | beta id operand =>
      cases operand with
      | constant | other | beta => rfl
      | arith => exact harith false _ _ _ _ _ _ h

lemma ExtractLinearSum_represents {space' : MathSpace} (hspace : space' ≠ .Unknown)
    (h : spaceOf ins space = space' ∨ spaceOf ins space = .Unknown) :
    Represents env space' (eval env ins) (ExtractLinearSum ins space) := by
  rw [ExtractLinearSum_spaceOf hspace h]
  exact linearSum_represents true hspace

/-! ### The addition that replaces another -/

lemma combine_term (h : (combine ins op space lsum rsum).term = some term) :
    ins = term ∨ lsum.term = some term ∨ rsum.term = some term := by
  obtain ⟨lterm, lconstant⟩ := lsum
  obtain ⟨rterm, rconstant⟩ := rsum
  unfold combine at h
  dsimp only at h ⊢
  generalize sumConstant op space lconstant rconstant = constant at h
  cases lterm <;> cases rterm <;> cases constant <;> cases op <;> simp_all

/-- The term of a sum of int32 is an int32. -/
lemma linearSum_type (skipBeta : Bool) (htype : ins.type = .Int32) (hterm : (linearSum skipBeta ins space).term = some term) :
    term.type = .Int32 := by
  induction ins generalizing skipBeta space term with
  | constant id value => simp [linearSum] at hterm
  | other id type =>
    obtain rfl : Definition.other id type = term := by simpa [linearSum] using hterm
    exact htype
  | beta id operand ih =>
    cases skipBeta with
    | true => exact ih false htype hterm
    | false =>
      obtain rfl : Definition.beta id operand = term := by simpa [linearSum] using hterm
      exact htype
  | arith id op type truncateKind lhs rhs ihl ihr =>
    unfold linearSum at hterm
    dsimp only at hterm
    split_ifs at hterm with hnot hother htypes
    · exact absurd htype hnot
    · exact Option.some.inj hterm ▸ htype
    · exact Option.some.inj hterm ▸ htype
    · rw [not_or, not_ne_iff, not_ne_iff] at htypes
      obtain rfl | hterm | hterm := combine_term hterm
      · exact htype
      · exact ihl true htypes.1 hterm
      · exact ihr true htypes.2 hterm

lemma Represents.unique {value value' : Option Int32} (h : Represents env space value sum)
    (h' : Represents env space value' sum) : value = value' :=
  Option.ext fun v => (h v).trans (h' v).symm

lemma represents_addition (id id' : ℕ) (htype : term.type = .Int32) : Represents env (ExtractMathSpace truncateKind)
      (eval env (.arith id .add .Int32 truncateKind term (.constant id' constant))) ⟨term, constant⟩ := by
  have hsum : sumConstant .add (ExtractMathSpace truncateKind) 0 constant = some constant := by
    have hmonotone : MonotoneAdd 0 constant = true := monotoneAdd_iff.2 (by simp; omega)
    have hsafe : SafeAdd 0 constant = some constant := by simp
    simp [sumConstant, hmonotone, hsafe]
  have hself : Represents env (ExtractMathSpace truncateKind) (eval env term) ⟨term, 0⟩ := represents_self
  have hshift := hself.shift hsum
  simpa [eval, htype, Definition.type] using hshift

/-- What replaces an addition bails out when it would, and has the same value otherwise. -/
lemma AnalyzeAdd_eval {nextId : ℕ} {isRecoveredOnBailout hasUses : Bool} {add addNew : Definition}
    (h : AnalyzeAdd nextId isRecoveredOnBailout hasUses add = some addNew) : eval env addNew = eval env add := by
  cases add with
  | constant | beta | other => simp [AnalyzeAdd] at h
  | arith id op type truncateKind lhs rhs =>
    cases op with
    | sub => simp [AnalyzeAdd] at h
    | add =>
      simp only [AnalyzeAdd] at h
      split_ifs at h with htype hunused
      obtain rfl : type = .Int32 := by
        by_contra hne
        exact htype (.inl hne)
      cases hterm : (ExtractLinearSum (.arith id .add .Int32 truncateKind lhs rhs) .Unknown).term with
      | none => simp [hterm] at h
      | some term =>
        rw [hterm] at h
        dsimp only at h
        split_ifs at h with hsame
        rw [← Option.some.inj h]
        have htypes : term.type = .Int32 := linearSum_type true rfl hterm
        have hadd : Represents env (ExtractMathSpace truncateKind)
            (eval env (.arith id .add .Int32 truncateKind lhs rhs))
            (ExtractLinearSum (.arith id .add .Int32 truncateKind lhs rhs) .Unknown) :=
          ExtractLinearSum_represents (extractMathSpace_ne_unknown truncateKind) (.inl (by simp [spaceOf]))
        have hsum : ExtractLinearSum (.arith id .add .Int32 truncateKind lhs rhs) .Unknown =
            ⟨term, (ExtractLinearSum (.arith id .add .Int32 truncateKind lhs rhs) .Unknown).constant⟩ := by
          rw [← hterm]
        exact (represents_addition _ _ htypes).unique (hsum ▸ hadd)

/-- The sum of a definition in either space, and what the folding of additions does to the values. -/
theorem ExtractLinearSum_eval (env : ℕ → Option Int32) (ins : Definition) (space : MathSpace) :
    (spaceOf ins space ≠ .Infinite → ∀ v, eval env ins = some v ↔
      ∃ x, (ExtractLinearSum ins space).termValue env = some x ∧ v = x + (ExtractLinearSum ins space).constant) ∧
    (spaceOf ins space ≠ .Modulo → ∀ v, eval env ins = some v ↔
      ∃ x, (ExtractLinearSum ins space).termValue env = some x ∧
        v.toInt = x.toInt + (ExtractLinearSum ins space).constant.toInt) ∧
    ∀ nextId isRecoveredOnBailout hasUses addNew,
      AnalyzeAdd nextId isRecoveredOnBailout hasUses ins = some addNew → eval env addNew = eval env ins := by
  refine ⟨fun h => ?_, fun h => ?_, fun _ _ _ _ h => AnalyzeAdd_eval h⟩
  · have hspace : spaceOf ins space = .Modulo ∨ spaceOf ins space = .Unknown := by
      cases hs : spaceOf ins space <;> simp [hs] at h ⊢
    exact ExtractLinearSum_represents (by simp) hspace
  · have hspace : spaceOf ins space = .Infinite ∨ spaceOf ins space = .Unknown := by
      cases hs : spaceOf ins space <;> simp [hs] at h ⊢
    exact ExtractLinearSum_represents (by simp) hspace

/-- Constants in one direction are folded, and others only where the sum wraps around. -/
example (x : Definition) (hx : x = .other 0 .Int32) (kind : TruncateKind) :
    let sub := Definition.arith 2 .sub .Int32 kind x (.constant 1 5)
    (AnalyzeAdd 9 false true (.arith 4 .add .Int32 kind sub (.constant 3 (-2)))).isSome = true ∧
    ((AnalyzeAdd 9 false true (.arith 4 .add .Int32 kind sub (.constant 3 7))).isSome =
      (ExtractMathSpace kind == .Modulo)) := by
  subst hx
  cases kind <;> decide

end SpiderMonkey.LinearSum

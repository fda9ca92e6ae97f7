import Mathlib.Tactic

/-!
# Programs with a state and exceptions

A program that changes a state and ends with a value or with an exception, which leaves the state as it
was when it was thrown.  A failed assertion, or a lack of fuel, leaves no outcome at all.

`Script.Runs m s Q R` says that `m` started in `s` has an outcome, which satisfies `Q` if it is a value
and `R` if it is an exception.  The rules follow the constructs of such programs.
-/

def Script (σ ε α : Type) : Type := σ → Option (Except ε α × σ)

namespace Script

variable {σ ε α β : Type}

instance : Monad (Script σ ε) where
  pure a := fun s => some (.ok a, s)
  bind m f := fun s =>
    match m s with
    | none => none
    | some (.ok a, s') => f a s'
    | some (.error e, s') => some (.error e, s')

def get : Script σ ε σ := fun s => some (.ok s, s)

def modify (f : σ → σ) : Script σ ε Unit := fun s => some (.ok (), f s)

def throw (e : ε) : Script σ ε α := fun s => some (.error e, s)

/-- No outcome. -/
def stuck : Script σ ε α := fun _ => none

def assert (p : Prop) [Decidable p] : Script σ ε Unit := if p then pure () else stuck

/-- Run a handler for exceptions in the state that they leave. -/
def tryCatch (m : Script σ ε α) (handler : ε → Script σ ε α) : Script σ ε α := fun s =>
  match m s with
  | some (.error e, s') => handler e s'
  | r => r

/-- The program has an outcome, which is a value with `Q` or an exception with `R`. -/
def Runs (m : Script σ ε α) (s : σ) (Q : α → σ → Prop) (R : ε → σ → Prop) : Prop :=
  ∃ r s', m s = some (r, s') ∧ match r with
    | .ok a => Q a s'
    | .error e => R e s'

namespace Runs

variable {m : Script σ ε α} {f : α → Script σ ε β} {s : σ} {Q Q' : α → σ → Prop}
  {Q₂ : β → σ → Prop} {R R' : ε → σ → Prop}

protected lemma pure {a : α} (h : Q a s) : Runs (pure a) s Q R := ⟨.ok a, s, rfl, h⟩

protected lemma throw {e : ε} (h : R e s) : Runs (throw e) s Q R := ⟨.error e, s, rfl, h⟩

protected lemma bind (h : Runs m s (fun a s' => Runs (f a) s' Q₂ R) R) : Runs (m >>= f) s Q₂ R := by
  obtain ⟨r, s', heq, h⟩ := h
  have hbind : (m >>= f) s = match m s with
      | none => none
      | some (.ok a, s') => f a s'
      | some (.error e, s') => some (.error e, s') := rfl
  rw [heq] at hbind
  cases r with
  | ok a =>
    obtain ⟨r, s'', heq', h⟩ := h
    exact ⟨r, s'', hbind.trans heq', h⟩
  | error e => exact ⟨.error e, s', hbind, h⟩

protected lemma get {Q : σ → σ → Prop} (h : Q s s) : Runs get s Q R := ⟨.ok s, s, rfl, h⟩

protected lemma modify {g : σ → σ} {Q : Unit → σ → Prop} (h : Q () (g s)) :
    Runs (modify g) s Q R := ⟨.ok (), g s, rfl, h⟩

protected lemma assert {p : Prop} [Decidable p] {Q : Unit → σ → Prop} (hp : p) (h : Q () s) :
    Runs (assert p) s Q R := by
  unfold assert
  rw [if_pos hp]
  exact .pure h

protected lemma ite {c : Prop} [Decidable c] {m₁ m₂ : Script σ ε α} (h₁ : c → Runs m₁ s Q R)
    (h₂ : ¬c → Runs m₂ s Q R) : Runs (if c then m₁ else m₂) s Q R := by
  split
  next h => exact h₁ h
  next h => exact h₂ h

lemma imp (h : Runs m s Q R) (hQ : ∀ a s', Q a s' → Q' a s') (hR : ∀ e s', R e s' → R' e s') : Runs m s Q' R' := by
  obtain ⟨r, s', heq, h⟩ := h
  refine ⟨r, s', heq, ?_⟩
  cases r with
  | ok a => exact hQ a s' h
  | error e => exact hR e s' h

lemma and (h : Runs m s Q R) (h' : Runs m s Q' R') :
    Runs m s (fun a s' => Q a s' ∧ Q' a s') fun e s' => R e s' ∧ R' e s' := by
  obtain ⟨r, s', heq, h⟩ := h
  obtain ⟨r', s'', heq', h'⟩ := h'
  cases heq.symm.trans heq'
  refine ⟨r, s', heq, ?_⟩
  cases r with
  | ok a => exact ⟨h, h'⟩
  | error e => exact ⟨h, h'⟩

lemma with_eq (h : Runs m s Q R) : Runs m s (fun a s' => m s = some (.ok a, s') ∧ Q a s')
      fun e s' => m s = some (.error e, s') ∧ R e s' := by
  obtain ⟨r, s', heq, h⟩ := h
  refine ⟨r, s', heq, ?_⟩
  cases r with
  | ok a => exact ⟨heq, h⟩
  | error e => exact ⟨heq, h⟩

protected lemma tryCatch {handler : ε → Script σ ε α}
    (h : Runs m s Q fun e s' => Runs (handler e) s' Q R) : Runs (tryCatch m handler) s Q R := by
  obtain ⟨r, s', heq, h⟩ := h
  cases r with
  | ok a =>
    refine ⟨.ok a, s', ?_, h⟩
    unfold tryCatch
    rw [heq]
  | error e =>
    obtain ⟨r, s'', heq', h⟩ := h
    refine ⟨r, s'', ?_, h⟩
    unfold tryCatch
    rw [heq]
    exact heq'

end Runs

end Script

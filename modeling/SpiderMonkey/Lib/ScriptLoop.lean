import SpiderMonkey.Lib.Script

/-!
# Loops and whatever a program does

`Script.Ensures` is the partial counterpart of `Script.Runs`: it says what holds of the outcome, if there
is one.  `Script.iterate` is a loop with a bound on the number of its rounds; its rules are an invariant,
a measure that gets smaller, and the simulation of one loop by another.
-/

namespace Script

variable {σ ε α β : Type}

/-! ## Partial correctness -/

/-- The outcome, if there is one, is a value with `Q` or an exception with `R`. -/
def Ensures (m : Script σ ε α) (s : σ) (Q : α → σ → Prop) (R : ε → σ → Prop) : Prop :=
  (∀ a s', m s = some (.ok a, s') → Q a s') ∧ ∀ e s', m s = some (.error e, s') → R e s'

lemma Runs.ensures {m : Script σ ε α} {s : σ} {Q : α → σ → Prop} {R : ε → σ → Prop} (h : Runs m s Q R) :
    Ensures m s Q R := by
  obtain ⟨r, s', heq, h⟩ := h
  constructor
  · intro a s'' ha
    cases heq.symm.trans ha
    exact h
  · intro e s'' he
    cases heq.symm.trans he
    exact h

lemma bind_apply (m : Script σ ε α) (f : α → Script σ ε β) (s : σ) : (m >>= f) s = match m s with
    | none => none
    | some (.ok a, s₁) => f a s₁
    | some (.error e, s₁) => some (.error e, s₁) := rfl

lemma bind_eq_ok {m : Script σ ε α} {f : α → Script σ ε β} {s s' : σ} {b : β} (h : (m >>= f) s = some (.ok b, s')) :
    ∃ a s₁, m s = some (.ok a, s₁) ∧ f a s₁ = some (.ok b, s') := by
  rw [bind_apply] at h
  cases hm : m s with
  | none => simp [hm] at h
  | some r =>
    obtain ⟨r, s₁⟩ := r
    cases r with
    | ok a =>
      rw [hm] at h
      simp [h]
    | error e => simp [hm] at h

lemma bind_of_eq_ok {m : Script σ ε α} {f : α → Script σ ε β} {s s₁ : σ} {a : α}
    (h : m s = some (.ok a, s₁)) : (m >>= f) s = f a s₁ := by
  rw [bind_apply, h]

namespace Ensures

variable {m : Script σ ε α} {f : α → Script σ ε β} {s : σ} {Q Q' : α → σ → Prop}
  {Q₂ : β → σ → Prop} {R R' : ε → σ → Prop}

protected lemma pure {a : α} (h : Q a s) : Ensures (pure a) s Q R := (Runs.pure h).ensures

protected lemma throw {e : ε} (h : R e s) : Ensures (throw e) s Q R := (Runs.throw h).ensures

protected lemma get {Q : σ → σ → Prop} (h : Q s s) : Ensures get s Q R := (Runs.get h).ensures

protected lemma modify {g : σ → σ} {Q : Unit → σ → Prop} (h : Q () (g s)) :
    Ensures (modify g) s Q R := (Runs.modify h).ensures

protected lemma stuck : Ensures (stuck : Script σ ε α) s Q R := by
  unfold stuck
  exact ⟨fun _ _ h => by simp at h, fun _ _ h => by simp at h⟩

protected lemma ite {c : Prop} [Decidable c] {m₁ m₂ : Script σ ε α} (h₁ : c → Ensures m₁ s Q R)
    (h₂ : ¬c → Ensures m₂ s Q R) : Ensures (if c then m₁ else m₂) s Q R := by
  split
  next h => exact h₁ h
  next h => exact h₂ h

lemma imp (h : Ensures m s Q R) (hQ : ∀ a s', Q a s' → Q' a s') (hR : ∀ e s', R e s' → R' e s') :
    Ensures m s Q' R' := ⟨fun a s' heq => hQ a s' (h.1 a s' heq), fun e s' heq => hR e s' (h.2 e s' heq)⟩

protected lemma bind (h : Ensures m s (fun a s' => Ensures (f a) s' Q₂ R) R) : Ensures (m >>= f) s Q₂ R := by
  constructor
  · intro b s' hb
    obtain ⟨a, s₁, ha, hb⟩ := bind_eq_ok hb
    exact (h.1 a s₁ ha).1 b s' hb
  · intro e s' he
    rw [bind_apply] at he
    cases hm : m s with
    | none => simp [hm] at he
    | some r =>
      obtain ⟨r, s₁⟩ := r
      cases r with
      | ok a =>
        rw [hm] at he
        exact (h.1 a s₁ hm).2 e s' he
      | error e' =>
        rw [hm] at he
        obtain ⟨he', rfl⟩ := Prod.mk.inj (Option.some.inj he)
        obtain rfl := Except.error.inj he'
        exact h.2 e' _ hm

end Ensures

/-! ## Loops -/

/-- Repeat a program as long as it says so, with no outcome after too many rounds. -/
def iterate (body : Script σ ε Bool) : ℕ → Script σ ε Unit
  | 0 => stuck
  | rounds + 1 => do
    let again ← body
    if again = true then iterate body rounds else pure ()

variable {body : Script σ ε Bool} {I : σ → Prop} {Q : σ → Prop} {R : ε → σ → Prop}

/-- The rule of the invariant. -/
lemma Ensures.iterate (h : ∀ s, I s → Ensures body s (fun again s' => (again = true → I s') ∧ (again = false → Q s')) R)
    (rounds : ℕ) {s : σ} (hs : I s) : Ensures (iterate body rounds) s (fun _ => Q) R := by
  induction rounds generalizing s with
  | zero => exact .stuck
  | succ rounds ih =>
    refine .bind ((h s hs).imp (fun again s' h => ?_) fun _ _ h => h)
    exact .ite (fun hagain => ih (h.1 hagain)) fun hagain => .pure (h.2 (Bool.eq_false_of_not_eq_true hagain))

/-! ## What holds at the start of every round -/

/-- Every round, of the first so many, starts in a state with `P`. -/
def Throughout (P : σ → Prop) (body : Script σ ε Bool) : ℕ → σ → Prop
  | 0, _ => True
  | rounds + 1, s => P s ∧ ∀ s', body s = some (.ok true, s') → Throughout P body rounds s'

/-- What a round keeps if and only if it starts with `P` holds at the end if and only if it holds at the
start and every round starts with `P`. -/
lemma Runs.iterate_throughout {measure : σ → ℕ} {G P : σ → Prop}
    (h : ∀ s, I s → Runs body s (fun again s' => (again = true → I s' ∧ measure s' < measure s) ∧
      (again = false → Q s') ∧ (G s' ↔ G s ∧ P s)) R)
    {rounds : ℕ} {s : σ} (hs : I s) (hrounds : measure s < rounds) :
    Runs (Script.iterate body rounds) s
      (fun _ s' => Q s' ∧ (G s' ↔ G s ∧ Throughout P body rounds s)) R := by
  induction rounds generalizing s with
  | zero => exact absurd hrounds (Nat.not_lt_zero _)
  | succ rounds ih =>
    refine .bind ((h s hs).with_eq.imp (fun again s' ⟨heq, hI, hQ, hG⟩ => ?_) fun _ _ h => h.2)
    refine .ite (fun hagain => ?_) fun hagain => ?_
    · subst hagain
      obtain ⟨hI', hlt⟩ := hI rfl
      refine (ih hI' (by omega)).imp (fun _ s'' ⟨hQ', hG'⟩ => ⟨hQ', ?_⟩) fun _ _ h => h
      have hnext : (∀ s₁, body s = some (.ok true, s₁) → Throughout P body rounds s₁) ↔
          Throughout P body rounds s' := by
        constructor
        · exact fun h => h s' heq
        · intro h s₁ heq₁
          obtain rfl : s' = s₁ := (Prod.mk.inj (Option.some.inj (heq.symm.trans heq₁))).2
          exact h
      unfold Throughout
      rw [hG', hG, hnext, and_assoc]
    · obtain rfl := Bool.eq_false_of_not_eq_true hagain
      refine .pure ⟨hQ rfl, hG.trans (and_congr_right fun _ => ?_)⟩
      have hend (s₁ : σ) (heq₁ : body s = some (.ok true, s₁)) : Throughout P body rounds s₁ := by
        have := Except.ok.inj (Prod.mk.inj (Option.some.inj (heq.symm.trans heq₁))).1
        simp at this
      unfold Throughout
      exact ⟨fun hP => ⟨hP, hend⟩, And.left⟩

section Simulation

variable {σ₁ ε₁ σ₂ ε₂ : Type} {body₁ : Script σ₁ ε₁ Bool} {body₂ : Script σ₂ ε₂ Bool}
  {P : σ₁ → Prop} {S : σ₁ → σ₂ → Prop} {R₂ : ε₂ → σ₂ → Prop}

end Simulation

end Script

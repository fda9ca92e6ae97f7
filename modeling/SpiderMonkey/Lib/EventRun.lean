import Mathlib.Tactic

/-!
# Runs of events

A system that reacts to events, where an event may be impossible in a state.
-/

namespace EventRun

open List

variable {σ ε : Type*}

/-- The state after the events, if each is possible in its turn. -/
def run (step : ε → σ → Option σ) : List ε → σ → Option σ
  | [], s => some s
  | e :: es, s => (step e s).bind (run step es)

variable {step : ε → σ → Option σ} {s s' : σ}

/-- What holds at the start and is kept by every event holds after every run. -/
theorem invariant {I : σ → Prop} (hstep : ∀ e s s', I s → step e s = some s' → I s')
    {es : List ε} (hs : I s) (h : run step es s = some s') : I s' := by
  induction es generalizing s with
  | nil =>
    cases h
    exact hs
  | cons e es ih =>
    obtain ⟨s₁, hs₁, h⟩ := Option.bind_eq_some_iff.mp h
    exact ih (hstep e s s₁ hs hs₁) h

/-- Each event of the run meets a condition in the state in which it happens. -/
def Along (P : σ → ε → Prop) (step : ε → σ → Option σ) : List ε → σ → Prop
  | [], _ => True
  | e :: es, s => P s e ∧ ∀ s', step e s = some s' → Along P step es s'

lemma along_cons {P : σ → ε → Prop} {e : ε} {es : List ε} {s₁ : σ} (hs₁ : step e s = some s₁)
    (he : P s e) (hes : Along P step es s₁) : Along P step (e :: es) s := by
  refine ⟨he, fun s₂ hs₂ => ?_⟩
  cases hs₁.symm.trans hs₂
  exact hes

/-- What holds at the start and is kept by every event that meets the condition holds after every run
along which the condition is met. -/
theorem invariant_along {I : σ → Prop} {P : σ → ε → Prop}
    (hstep : ∀ e s s', I s → P s e → step e s = some s' → I s') {es : List ε} (hs : I s)
    (halong : Along P step es s) (h : run step es s = some s') : I s' := by
  induction es generalizing s with
  | nil =>
    cases h
    exact hs
  | cons e es ih =>
    obtain ⟨s₁, hs₁, h⟩ := Option.bind_eq_some_iff.mp h
    exact ih (hstep e s s₁ hs halong.1 hs₁) (halong.2 s₁ hs₁) h

/-- A run along which each event that meets the condition is possible, and keeps what makes it so, can
be completed. -/
theorem run_along {I : σ → Prop} {P : σ → ε → Prop}
    (hstep : ∀ e s, I s → P s e → ∃ s', step e s = some s' ∧ I s') {es : List ε} (hs : I s)
    (halong : Along P step es s) : ∃ s', run step es s = some s' ∧ I s' := by
  induction es generalizing s with
  | nil => exact ⟨s, rfl, hs⟩
  | cons e es ih =>
    obtain ⟨s₁, hs₁, hI⟩ := hstep e s hs halong.1
    obtain ⟨s', h, hI'⟩ := ih hI (halong.2 s₁ hs₁)
    exact ⟨s', Option.bind_eq_some_iff.mpr ⟨s₁, hs₁, h⟩, hI'⟩

/-- What holds in every state of the run. -/
def Always (Q : σ → Prop) (step : ε → σ → Option σ) : List ε → σ → Prop
  | [], s => Q s
  | e :: es, s => Q s ∧ ∀ s', step e s = some s' → Always Q step es s'

/-- If a property follows from an invariant that an event keeps when it meets a condition, and an event
that does not meet it leads to a state without the property, then the property holds in every state of
exactly the runs along which the condition is met. -/
theorem always_iff_along {I Q : σ → Prop} {P : σ → ε → Prop} (hQ : ∀ s, I s → Q s)
    (hstep : ∀ e s s', I s → step e s = some s' → (P s e → I s') ∧ (Q s' → P s e)) {es : List ε} (hs : I s)
    (h : run step es s = some s') : Always Q step es s ↔ Along P step es s := by
  induction es generalizing s with
  | nil => exact ⟨fun _ => trivial, fun _ => hQ s hs⟩
  | cons e es ih =>
    obtain ⟨s₁, hs₁, h⟩ := Option.bind_eq_some_iff.mp h
    obtain ⟨hkeep, hneeds⟩ := hstep e s s₁ hs hs₁
    constructor
    · rintro ⟨-, hall⟩
      have hrest := hall s₁ hs₁
      have hQ₁ : Q s₁ := by
        cases es with
        | nil => exact hrest
        | cons e' es => exact hrest.1
      exact along_cons hs₁ (hneeds hQ₁) ((ih (hkeep (hneeds hQ₁)) h).1 hrest)
    · rintro ⟨he, hall⟩
      refine ⟨hQ s hs, fun s₂ hs₂ => ?_⟩
      cases hs₁.symm.trans hs₂
      exact (ih (hkeep he) h).2 (hall s₁ hs₁)

/-! ## Histories -/

/-- After each event with `q` there is one with `a`. -/
def Followed (q a : ε → Prop) (history : List ε) : Prop :=
  ∀ before x after, history = before ++ x :: after → q x → ∃ y ∈ after, a y

lemma followed_nil {q a : ε → Prop} : Followed q a [] := fun before x after h => by simp at h

/-- The last event is one with `a`, or it makes no difference. -/
lemma followed_concat {q a : ε → Prop} {history : List ε} {x : ε} :
    Followed q a (history ++ [x]) ↔ ¬ q x ∧ (a x ∨ Followed q a history) := by
  constructor
  · intro h
    refine ⟨fun hq => ?_, or_iff_not_imp_left.2 fun ha before y after heq hq => ?_⟩
    · obtain ⟨y, hy, -⟩ := h history x [] rfl hq
      cases hy
    · obtain ⟨z, hz, haz⟩ := h before y (after ++ [x]) (by simp [heq]) hq
      obtain hz | hz := mem_append.1 hz
      · exact ⟨z, hz, haz⟩
      · exact absurd (mem_singleton.1 hz ▸ haz) ha
  · rintro ⟨hx, h⟩ before y after heq hq
    obtain rfl | ⟨after, x', rfl⟩ := eq_nil_or_concat after
    · have hlast := (append_inj' heq rfl).2
      obtain rfl : x = y := by simpa using hlast
      exact absurd hq hx
    · rw [concat_eq_append, ← cons_append, ← append_assoc] at heq
      obtain ⟨rfl, hlast⟩ := append_inj' heq rfl
      obtain rfl : x = x' := by simpa using hlast
      obtain ha | h := h
      · exact ⟨x, by simp, ha⟩
      · obtain ⟨z, hz, haz⟩ := h before y after rfl hq
        exact ⟨z, by simp [hz], haz⟩

/-- Each event of the history goes with what came before it. -/
def Justified (P : List ε → ε → Prop) (history : List ε) : Prop :=
  ∀ before x after, history = before ++ x :: after → P before x

variable {P : List ε → ε → Prop} {history : List ε}

lemma justified_nil : Justified P [] := fun before x after h => by simp at h

lemma justified_concat {x : ε} : Justified P (history ++ [x]) ↔ Justified P history ∧ P history x := by
  constructor
  · exact fun h => ⟨fun before y after heq => h before y (after ++ [x]) (by simp [heq]), h history x [] rfl⟩
  · rintro ⟨h, hx⟩ before y after heq
    obtain rfl | ⟨after, x', rfl⟩ := eq_nil_or_concat after
    · obtain ⟨rfl, hlast⟩ := append_inj' heq rfl
      obtain rfl : x = y := by simpa using hlast
      exact hx
    · rw [concat_eq_append, ← cons_append, ← append_assoc] at heq
      obtain ⟨rfl, -⟩ := append_inj' heq rfl
      exact h before y after rfl

lemma Justified.of_mem {x : ε} (h : Justified P history) (hx : x ∈ history) :
    ∃ before after, history = before ++ x :: after ∧ P before x := by
  obtain ⟨before, after, rfl⟩ := append_of_mem hx
  exact ⟨before, after, rfl, h before x after rfl⟩

end EventRun

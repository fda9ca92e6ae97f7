import Mathlib.Tactic

/-!
# Functions that report success

Functions on a state that return whether they have succeeded; callers that get `false` pass it on at once.  `none` is
a failed assertion.
-/

abbrev Reporting (σ : Type*) := σ → Option (Bool × σ)

namespace Reporting

variable {σ : Type*} {f g : Reporting σ} {f' g' : σ → Option σ} {s s' : σ}

/-- Steps of which none fails, and `return true`. -/
def done (f : σ → Option σ) : Reporting σ := fun s => (f s).map fun s => (true, s)

/-- `if (!f()) return false;`, and on with `g`. -/
def andThen (f g : Reporting σ) : Reporting σ := fun s => (f s).bind fun r => if r.1 then g r.2 else some r

/-- `if (!f()) return false;`, and `return result;`. -/
def thenReturn (f : Reporting σ) (result : Bool) : Reporting σ := f.andThen fun s => some (result, s)

@[simp] lemma done_apply : done f' s = (f' s).map fun s => (true, s) := rfl

@[simp] lemma andThen_done : (done f').andThen g s = (f' s).bind g := by
  unfold andThen done
  cases f' s <;> rfl

@[simp] lemma thenReturn_done (result : Bool) : (done f').thenReturn result s = (f' s).map fun s => (result, s) := by
  unfold thenReturn
  rw [andThen_done]
  cases f' s <;> rfl

@[simp] lemma thenReturn_true : (done f').thenReturn true = done f' := by
  funext s
  simp

lemma andThen_of_true (h : f s = some (true, s')) : f.andThen g s = g s' := by
  unfold andThen
  rw [h]
  rfl

lemma thenReturn_of_true (h : f s = some (true, s')) (result : Bool) : f.thenReturn result s = some (result, s') :=
  andThen_of_true h

lemma done_of_some (h : f' s = some s') : done f' s = some (true, s') := by
  simp [h]

end Reporting

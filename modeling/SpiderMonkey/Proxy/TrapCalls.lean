import SpiderMonkey.Proxy.ScriptedProxyHandler

/-!
# Calls of traps

Rules for the operations of a scripted proxy: what other code does, and the choice between the target and
the trap that every operation begins with.
-/

namespace SpiderMonkey.Proxy

open Script (Runs)
open Ordinary (Later)

/-! ## Rules for operations -/

section Rules

variable {α : Type} {Q : α → Target → Prop} {R : Error → Target → Prop} {t : Target}

lemma runs_interact {i : Interaction α} (h : ∀ a, i.result = some a → Q a (t.run i.steps))
    (h' : R .thrown (t.run i.steps)) : Runs (interact i) t Q R := by
  refine .bind (.modify ?_)
  cases hresult : i.result with
  | none => exact .throw h'
  | some a => exact .pure (h a hresult)

lemma runs_interact_of_some {i : Interaction α} {a : α} (h : i.result = some a)
    (hQ : Q a (t.run i.steps)) : Runs (interact i) t Q R := by
  refine .bind (.modify ?_)
  rw [h]
  exact .pure hQ

end Rules

namespace ProxyObject

variable (proxy : ProxyObject)

/-- What the trap returns, if there is one and it returns. -/
def trapResult? (trap : Trap) : Option Value :=
  match proxy.handler, trap.get.result with
  | some _, some func => if proxy.callable func = true then trap.call.result else none
  | _, _ => none

def afterTrap (trap : Trap) (t : Target) : Target := (t.run trap.get.steps).run trap.call.steps

/-- The target that an operation looks at: after the trap, or after the handler was found to have none. -/
def checkState (trap : Trap) (t : Target) : Target :=
  match proxy.trapResult? trap with
  | some _ => afterTrap trap t
  | none => t.run trap.get.steps

variable {proxy}

lemma trapResult?_eq_some {trap : Trap} {v : Value} (h : proxy.trapResult? trap = some v) :
    proxy.handler ≠ none ∧ ∃ func, trap.get.result = some func ∧ proxy.callable func = true ∧
      trap.call.result = some v := by
  unfold trapResult? at h
  cases hhandler : proxy.handler with
  | none => simp [hhandler] at h
  | some handler =>
    cases hfunc : trap.get.result with
    | none => simp [hhandler, hfunc] at h
    | some func =>
      rw [hhandler, hfunc] at h
      simp only [Option.ite_none_right_eq_some] at h
      exact ⟨by simp, func, rfl, h.1, h.2⟩

lemma trapResult?_eq_none {trap : Trap} {func : Value} (hget : trap.get.result = some func)
    (h : proxy.callable func = false) : proxy.trapResult? trap = none := by
  unfold trapResult?
  rw [hget]
  cases proxy.handler with
  | none => rfl
  | some handler => exact if_neg (by simp [h])

lemma checkState_of_some {trap : Trap} {v : Value} (h : proxy.trapResult? trap = some v) (t : Target) :
    proxy.checkState trap t = afterTrap trap t := by
  unfold checkState
  rw [h]

lemma checkState_of_none {trap : Trap} (h : proxy.trapResult? trap = none) (t : Target) :
    proxy.checkState trap t = t.run trap.get.steps := by
  unfold checkState
  rw [h]

section WithTrap

variable {α : Type} {name : String} {trap : Trap} {onTarget : Op α} {onTrap : Value → Op α}
  {t : Target} {Q : α → Target → Prop} {R : Error → Target → Prop}

lemma runs_withTrap (hTarget : proxy.trapResult? trap = none → Runs onTarget (t.run trap.get.steps) Q R)
    (hTrap : ∀ v, proxy.trapResult? trap = some v → Runs (onTrap v) (afterTrap trap t) Q R)
    (hR : ∀ e t', Later t t' → R e t') : Runs (proxy.withTrap name trap onTarget onTrap) t Q R := by
  have hget := Ordinary.Object.later_run trap.get.steps t
  refine .ite (fun _ => .throw (hR _ _ (Ordinary.later_refl t))) fun hhandler => .bind ?_
  refine .bind (runs_interact (fun func hfunc => ?_) (hR _ _ hget))
  refine .ite ?_ fun hundefined => .ite (fun hnull => ?_) fun hnull => .ite (fun _ => ?_) fun hcallable => ?_
  · rintro rfl
    exact .pure (.ite (fun _ => hTarget (trapResult?_eq_none hfunc rfl)) fun h => absurd rfl h)
  · subst hnull
    exact .pure (.ite (fun _ => hTarget (trapResult?_eq_none hfunc rfl)) fun h => absurd rfl h)
  · exact .throw (hR _ _ hget)
  · refine .pure (.ite (fun h => absurd h hundefined) fun _ => .bind (runs_interact (fun v hv => ?_) ?_))
    · refine hTrap v ?_
      obtain ⟨handler, hhandler⟩ := Option.ne_none_iff_exists'.1 hhandler
      unfold trapResult?
      simp [hhandler, hfunc, hcallable, hv]
    · exact hR _ _ (hget.trans (Ordinary.Object.later_run _ _))

lemma runs_withTrap_of_trapped {v : Value} (h : proxy.trapResult? trap = some v)
    (hTrap : Runs (onTrap v) (afterTrap trap t) Q R) :
    Runs (proxy.withTrap name trap onTarget onTrap) t Q R := by
  obtain ⟨hhandler, func, hfunc, hcallable, hv⟩ := trapResult?_eq_some h
  have hundefined : func ≠ .undefined := by
    rintro rfl
    exact absurd hcallable (by simp [callable])
  have hnull : func ≠ .null := by
    rintro rfl
    exact absurd hcallable (by simp [callable])
  refine .ite (fun hnone => absurd hnone hhandler) fun _ => .bind (.bind ?_)
  refine runs_interact_of_some hfunc ?_
  refine .ite (fun h => absurd h hundefined) fun _ => .ite (fun h => absurd h hnull) fun _ => ?_
  refine .ite (fun h => absurd (h.symm.trans hcallable) (by decide)) fun _ => .pure ?_
  exact .ite (fun h => absurd h hundefined) fun _ => .bind (runs_interact_of_some hv hTrap)

end WithTrap

end ProxyObject

end SpiderMonkey.Proxy

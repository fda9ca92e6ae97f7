import SpiderMonkey.Proxy.Invariants

/-!
# Histories of a scripted proxy

The operations on a proxy and what else happens to its target, in any order.
-/

namespace SpiderMonkey.Proxy

open Script (Runs)
open Ordinary (Later)

/-- An operation on the proxy, with what other code does in the course of it. -/
inductive Operation
  | getPrototype (trap : Trap)
  | setPrototype (proto : Option ℕ) (trap : Trap)
  | preventExtensions (trap : Trap)
  | isExtensible (trap : Trap)
  | getOwnPropertyDescriptor (id : PropertyKey) (trap : Trap) (fields : Interaction DescriptorFields)
  | defineProperty (id : PropertyKey) (desc : PropertyDescriptor) (trap : Trap)
  | ownPropertyKeys (trap : Trap) (length : Interaction ℕ) (element : ℕ → Interaction Value)
  | delete (id : PropertyKey) (trap : Trap)
  | has (id : PropertyKey) (trap : Trap) (inherited : Interaction Bool)
  | get (id : PropertyKey) (trap : Trap) (rest : Interaction Value)
  | set (id : PropertyKey) (v : Value) (trap : Trap) (rest : Interaction Bool)

/-- What an operation reports if it does not fail. -/
inductive Report
  | prototype (proto : Option ℕ)
  | flag (b : Bool)
  | descriptor (desc : Option PropertyDescriptor)
  | keys (ids : List PropertyKey)
  | value (v : Value)

/-- The trap of an operation. -/
def Operation.trap : Operation → Trap
  | getPrototype trap => trap
  | setPrototype _ trap => trap
  | preventExtensions trap => trap
  | isExtensible trap => trap
  | getOwnPropertyDescriptor _ trap _ => trap
  | defineProperty _ _ trap => trap
  | ownPropertyKeys trap _ _ => trap
  | delete _ trap => trap
  | has _ trap _ => trap
  | get _ trap _ => trap
  | set _ _ trap _ => trap

/-- What happens in the course of a history. -/
inductive HistoryEvent
  | operation (op : Operation)
  | onTarget (step : TargetStep)

namespace ProxyObject

open Ordinary.Object

variable (proxy : ProxyObject)

def perform : Operation → Op Report
  | .getPrototype trap => do pure (.prototype (← proxy.getPrototype trap))
  | .setPrototype proto trap => do pure (.flag (← proxy.setPrototype proto trap))
  | .preventExtensions trap => do pure (.flag (← proxy.preventExtensions trap))
  | .isExtensible trap => do pure (.flag (← proxy.isExtensible trap))
  | .getOwnPropertyDescriptor id trap fields => do
    pure (.descriptor (← proxy.getOwnPropertyDescriptor id trap fields))
  | .defineProperty id desc trap => do pure (.flag (← proxy.defineProperty id desc trap))
  | .ownPropertyKeys trap length element => do pure (.keys (← proxy.ownPropertyKeys trap length element))
  | .delete id trap => do pure (.flag (← proxy.delete id trap))
  | .has id trap inherited => do pure (.flag (← proxy.has id trap inherited))
  | .get id trap rest => do pure (.value (← proxy.get id trap rest))
  | .set id v trap rest => do pure (.flag (← proxy.set id v trap rest))

/-- The target after an event; an operation has an outcome always. -/
def after : HistoryEvent → Target → Target
  | .operation op, t => ((proxy.perform op t).map Prod.snd).getD t
  | .onTarget step, t => t.apply step

def history (events : List HistoryEvent) (t : Target) : Target :=
  events.foldl (fun t event => proxy.after event t) t

/-- What the operation reports obeys the invariants of its internal method.  `t` is the target before
the operation and `t'` the target after it; where the report is about a moment in between, it is about
the target that the operation looked at. -/
def Obeys (t : Target) : Operation → Report → Target → Prop
  | .getPrototype _, .prototype proto, t' => t'.extensible = false → proto = t'.prototype
  | .setPrototype proto _, .flag b, t' => b = true → t'.extensible = false → proto = t'.prototype
  | .preventExtensions _, .flag b, t' => b = true → t'.extensible = false
  | .isExtensible _, .flag b, t' => b = t'.extensible
  | .getOwnPropertyDescriptor _ _ _, .descriptor _, _ => True
  | .defineProperty _ _ _, .flag _, _ => True
  | .ownPropertyKeys _ _ _, .keys ids, t' => ReportsKeys t' ids
  | .delete id _, .flag b, t' => b = true → MayBeAbsent t' id
  | .has id trap _, .flag b, _ => b = false → MayBeAbsent (proxy.checkState trap t) id
  | .get id trap _, .value v, _ => MayBeRead (proxy.checkState trap t) id v
  | .set id v trap _, .flag b, _ => b = true → MayBeWritten (proxy.checkState trap t) id v
  | _, _, _ => False

/-- The proxy has reported that the target is not extensible. -/
def ReportsNonExtensible : Operation → Report → Prop
  | .isExtensible _, .flag b => b = false
  | .preventExtensions _, .flag b => b = true
  | _, _ => False

/-- No prototype other than the given one is reported. -/
def ReportsPrototype (proto : Option ℕ) : Operation → Report → Prop
  | .getPrototype _, .prototype proto' => proto' = proto
  | .setPrototype proto' _, .flag b => b = true → proto' = proto
  | _, _ => True

variable {proxy}

/-! ## Every operation moves the target forward -/

lemma moves_checkReported (extensible : Bool) (resultDesc targetDesc : PropertyDescriptor) :
    Moves (proxy.checkReported extensible resultDesc targetDesc) := by
  unfold checkReported
  split
  · exact .throw _
  · exact .ite (.throw _) (.ite (.throw _) (.ite (.throw _) (.pure _)))

lemma moves_checkDefined (extensible : Bool) (desc targetDesc : PropertyDescriptor) :
    Moves (checkDefined extensible desc targetDesc) := by
  unfold checkDefined
  refine .ite (.ite (.throw _) (.ite (.throw _) (.pure _))) ?_
  split
  · exact .throw _
  · exact .ite (.throw _) (.ite (.throw _) (.pure _))

lemma moves_checkKeys (c : Target) (ids : List PropertyKey) : Moves (proxy.checkKeys c ids) :=
  fun t => runs_checkKeys.imp (fun _ _ h => h.1 ▸ Ordinary.later_refl t) fun _ _ h =>
    h ▸ Ordinary.later_refl t

variable (proxy) in
/-- The operation succeeds after it looked at the target, and nothing is undone. -/
def Forward {α : Type} (m : Op α) (trap : Trap) : Prop :=
  ∀ t, Runs m t (fun _ => Later (proxy.checkState trap t)) fun _ => Later t

lemma forward_getOwnPropertyDescriptor (id : PropertyKey) (trap : Trap) (fields : Interaction DescriptorFields) :
    proxy.Forward (proxy.getOwnPropertyDescriptor id trap fields) trap := by
  refine forward_withTrap (.get fun _ => .pure _) fun v => .get fun t => ?_
  cases v with
  | undefined => exact .ite (.pure _) (.ite (.throw _) (.ite (.throw _) (.pure _)))
  | object obj =>
    refine .bind (.interact _) fun f => ?_
    cases toPropertyDescriptor proxy.isCallable f with
    | none => exact .throw _
    | some resultDesc => exact moves_checkReported _ _ _
  | _ => exact .throw _

lemma forward_defineProperty (id : PropertyKey) (desc : PropertyDescriptor) (trap : Trap) :
    proxy.Forward (proxy.defineProperty id desc trap) trap := by
  refine forward_withTrap (.get fun _ => .bind (.modify ?_) fun _ => .pure _) fun v => ?_
  · exact later_define id desc.fields
  · exact .ite (.pure _) (.get fun t => moves_checkDefined _ _ _)

lemma forward_map {α : Type} {m : Op α} {trap : Trap} (h : proxy.Forward m trap) (f : α → Report) :
    proxy.Forward (m >>= fun a => pure (f a)) trap :=
  fun t => .bind ((h t).imp (fun _ _ h => .pure h) fun _ _ h => h)

lemma forward_perform (op : Operation) : proxy.Forward (proxy.perform op) op.trap := by
  cases op with
  | getPrototype trap =>
    refine forward_map (forward_withTrap (.get fun _ => .pure _) fun v => ?_) _
    cases v.objectOrNull? with
    | none => exact .throw _
    | some proto => exact .get fun _ => .ite (.pure _) (.ite (.throw _) (.pure _))
  | setPrototype proto trap =>
    refine forward_map (forward_withTrap (.get fun _ => .bind (.modify ?_) fun _ => .pure _) fun v => ?_) _
    · exact later_setPrototype proto
    · exact .ite (.pure _) (.get fun _ => .ite (.pure _) (.ite (.throw _) (.pure _)))
  | preventExtensions trap =>
    refine forward_map (forward_withTrap (.bind (.modify ?_) fun _ => .pure _) fun v => ?_) _
    · exact later_preventExtensions
    · exact .ite (.get fun _ => .ite (.throw _) (.pure _)) (.pure _)
  | isExtensible trap =>
    refine forward_map (forward_withTrap (.get fun _ => .pure _) fun v => ?_) _
    exact .get fun _ => .ite (.throw _) (.pure _)
  | getOwnPropertyDescriptor id trap fields =>
    exact forward_map (forward_getOwnPropertyDescriptor id trap fields) _
  | defineProperty id desc trap => exact forward_map (forward_defineProperty id desc trap) _
  | ownPropertyKeys trap length element =>
    refine forward_map (forward_withTrap (.get fun _ => .pure _) fun v => ?_) _
    exact .bind (moves_createFilteredListFromArrayLike v length element) fun ids => .get fun t =>
      moves_checkKeys t ids
  | delete id trap =>
    refine forward_map (forward_withTrap (.get fun _ => .bind (.modify ?_) fun _ => .pure _) fun v => ?_) _
    · exact later_delete id
    · exact .ite (.pure _) (.get fun _ => .ite (.pure _) (.ite (.throw _) (.ite (.throw _) (.pure _))))
  | has id trap inherited =>
    refine forward_map (forward_withTrap (.get fun _ => .ite (.pure _) (.ite (.pure _) (.interact _)))
      fun v => ?_) _
    exact .ite (.get fun _ => .ite (.pure _) (.ite (.throw _) (.ite (.throw _) (.pure _)))) (.pure _)
  | get id trap rest =>
    refine forward_map (forward_withTrap (.get fun t => ?_) fun v => ?_) _
    · split
      · exact .pure _
      · exact .pure _
      · exact .interact _
      · exact .ite (.pure _) (.interact _)
    · exact .get fun _ => .ite (.throw _) (.ite (.throw _) (.pure _))
  | set id v trap rest =>
    refine forward_map (forward_withTrap (.get fun t => ?_) fun trapResult => ?_) _
    · split
      · exact .pure _
      · exact .pure _
      · exact .interact _
    · exact .ite (.pure _) (.get fun _ => .ite (.throw _) (.ite (.throw _) (.pure _)))

lemma later_perform (op : Operation) (t : Target) : Runs (proxy.perform op) t (fun _ => Later t) fun _ => Later t :=
  (forward_perform op t).imp (fun _ _ => (later_checkState proxy op.trap t).trans) fun _ _ h => h

lemma later_after (event : HistoryEvent) (t : Target) : Later t (proxy.after event t) := by
  cases event with
  | operation op =>
    obtain ⟨r, t', heq, h⟩ := proxy.later_perform op t
    have hafter : proxy.after (.operation op) t = t' := congrArg (fun outcome => (outcome.map Prod.snd).getD t) heq
    rw [hafter]
    cases r with
    | ok r => exact h
    | error e => exact h
  | onTarget step => exact later_apply step t

lemma later_history (events : List HistoryEvent) (t : Target) : Later t (proxy.history events t) := by
  unfold history
  induction events generalizing t with
  | nil => exact Ordinary.later_refl t
  | cons event events ih => exact (later_after event t).trans (ih (proxy.after event t))

/-! ## Every operation obeys its invariants -/

lemma runs_map {α : Type} {m : Op α} {t : Target} {f : α → Report} {Q : Report → Target → Prop}
    {R : Error → Target → Prop} (h : Runs m t (fun a => Q (f a)) R) :
    Runs (m >>= fun a => pure (f a)) t Q R :=
  .bind (h.imp (fun _ _ h => .pure h) fun _ _ h => h)

lemma obeys_perform (op : Operation) (t : Target) :
    Runs (proxy.perform op) t (fun r t' => proxy.Obeys t op r t') fun _ _ => True := by
  cases op with
  | getPrototype trap => exact runs_map (runs_getPrototype trap t)
  | setPrototype proto trap => exact runs_map (runs_setPrototype proto trap t)
  | preventExtensions trap => exact runs_map (runs_preventExtensions trap t)
  | isExtensible trap => exact runs_map (runs_isExtensible trap t)
  | getOwnPropertyDescriptor id trap fields =>
    exact runs_map ((forward_getOwnPropertyDescriptor id trap fields t).imp (fun _ _ _ => trivial)
      fun _ _ _ => trivial)
  | defineProperty id desc trap =>
    exact runs_map ((forward_defineProperty id desc trap t).imp (fun _ _ _ => trivial) fun _ _ _ => trivial)
  | ownPropertyKeys trap length element => exact runs_map (runs_ownPropertyKeys trap length element t)
  | delete id trap => exact runs_map (runs_delete trap t id)
  | has id trap inherited => exact runs_map (runs_has trap id inherited t)
  | get id trap rest => exact runs_map (runs_get trap id rest t)
  | set id v trap rest => exact runs_map (runs_set id v trap rest t)

/-! ## Once the target is reported as not extensible -/

lemma extensible_of_reportsNonExtensible {t t' : Target} {op : Operation} {r : Report}
    (h : proxy.Obeys t op r t') (hreport : ReportsNonExtensible op r) : t'.extensible = false := by
  cases op with
  | isExtensible trap =>
    cases r with
    | flag b =>
      have hflag : b = t'.extensible := h
      exact hflag.symm.trans hreport
    | _ => exact absurd hreport not_false
  | preventExtensions trap =>
    cases r with
    | flag b => exact h hreport
    | _ => exact absurd hreport not_false
  | _ => exact absurd hreport (by simp [ReportsNonExtensible])

lemma reportsPrototype_of_obeys {t t' : Target} {op : Operation} {r : Report}
    (h : proxy.Obeys t op r t') (hextensible : t'.extensible = false) :
    ReportsPrototype t'.prototype op r := by
  cases op with
  | getPrototype trap =>
    cases r with
    | prototype proto => exact h hextensible
    | _ => exact trivial
  | setPrototype proto trap =>
    cases r with
    | flag b => exact fun hb => h hb hextensible
    | _ => exact trivial
  | _ => exact trivial

/-- What a target that is not extensible reports after any history. -/
lemma runs_nonExtensible {t : Target} (ht : t.extensible = false) (events : List HistoryEvent)
    (op : Operation) : (proxy.history events t).extensible = false ∧ (proxy.history events t).prototype = t.prototype ∧
      Runs (proxy.perform op) (proxy.history events t) (fun r _ => ReportsPrototype t.prototype op r)
        fun _ _ => True := by
  have hlater := proxy.later_history events t
  refine ⟨hlater.extensible ht, hlater.prototype ht, ?_⟩
  refine ((obeys_perform op _).and (later_perform op _)).imp (fun r t' h => ?_) fun _ _ _ => trivial
  have hlater' := hlater.trans h.2
  rw [← hlater'.prototype ht]
  exact reportsPrototype_of_obeys h.1 (hlater'.extensible ht)

/-- After any history, every operation on the proxy obeys the invariants of its internal method; and if
it reports that the target is not extensible, the target is so from then on, with the prototype that it
has, and no other prototype is reported any more. -/
theorem invariants_hold (proxy : ProxyObject) (before : List HistoryEvent) (t₀ : Target) (op : Operation) :
    Runs (proxy.perform op) (proxy.history before t₀)
      (fun r t' => Later (proxy.history before t₀) (proxy.checkState op.trap (proxy.history before t₀)) ∧
        Later (proxy.checkState op.trap (proxy.history before t₀)) t' ∧
        proxy.Obeys (proxy.history before t₀) op r t' ∧
        (ReportsNonExtensible op r → ∀ between op', t'.extensible = false ∧
          (proxy.history between t').extensible = false ∧
          (proxy.history between t').prototype = t'.prototype ∧
          Runs (proxy.perform op') (proxy.history between t')
            (fun r' _ => ReportsPrototype t'.prototype op' r') fun _ _ => True))
      fun _ t' => Later (proxy.history before t₀) t' := by
  have hobeys := proxy.obeys_perform op (proxy.history before t₀)
  refine (hobeys.and (forward_perform op _)).imp (fun r t' h => ?_) fun _ _ h => h.2
  refine ⟨later_checkState proxy op.trap _, h.2, h.1, fun hreport between op' => ?_⟩
  have ht' := extensible_of_reportsNonExtensible h.1 hreport
  exact ⟨ht', runs_nonExtensible ht' between op'⟩

end ProxyObject

end SpiderMonkey.Proxy

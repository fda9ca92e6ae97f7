import SpiderMonkey.Lib.Descriptor

/-!
# Ordinary objects

The internal methods of an ordinary object of the language, and what no sequence of them can undo.
-/

namespace Ordinary

open Function

variable {K V F O : Type}

/-- An object: its keys are those of its properties, in the order in which they were created. -/
structure Object (K V F O : Type) where
  prototype : Option O
  extensible : Bool
  keys : List K
  property : K → Option (Property V F)
  nodup : keys.Nodup
  mem_keys : ∀ k, k ∈ keys ↔ property k ≠ none

namespace Object

variable [DecidableEq K]

/-- Create a property or replace one. -/
def store (k : K) (p : Property V F) (o : Object K V F O) : Object K V F O where
  prototype := o.prototype
  extensible := o.extensible
  keys := if k ∈ o.keys then o.keys else o.keys ++ [k]
  property := Function.update o.property k (some p)
  nodup := by
    split_ifs with h
    · exact o.nodup
    · exact List.nodup_append.2 ⟨o.nodup, List.nodup_singleton k, by
        rintro a ha b hb rfl
        exact h (List.mem_singleton.1 hb ▸ ha)⟩
  mem_keys k' := by
    by_cases hk : k' = k
    · subst hk
      split_ifs with h <;> simp [h]
    · split_ifs with h <;> simp [hk, o.mem_keys]

def erase (k : K) (o : Object K V F O) : Object K V F O where
  prototype := o.prototype
  extensible := o.extensible
  keys := o.keys.erase k
  property := Function.update o.property k none
  nodup := o.nodup.erase k
  mem_keys k' := by
    by_cases hk : k' = k
    · subst hk
      simp [o.nodup.mem_erase_iff]
    · simp [o.nodup.mem_erase_iff, hk, o.mem_keys]

variable [DecidableEq V] [DecidableEq F] [DecidableEq O] [Inhabited V]

/-- Whether `[[DefineOwnProperty]]` succeeds. -/
def validate (k : K) (d : Descriptor V F) (o : Object K V F O) : Bool :=
  match o.property k with
  | none => o.extensible
  | some p => p.validate d

def define (k : K) (d : Descriptor V F) (o : Object K V F O) : Object K V F O :=
  if o.validate k d = true then
    match o.property k with
    | none => o.store k d.create
    | some p => o.store k (p.update d)
  else o

/-- Whether `[[Delete]]` succeeds. -/
def canDelete (k : K) (o : Object K V F O) : Bool :=
  match o.property k with
  | none => true
  | some p => p.configurable

def delete (k : K) (o : Object K V F O) : Object K V F O :=
  if o.canDelete k = true then o.erase k else o

def preventExtensions (o : Object K V F O) : Object K V F O := { o with extensible := false }

/-- Whether `[[SetPrototypeOf]]` succeeds. -/
def canSetPrototype (proto : Option O) (o : Object K V F O) : Bool :=
  decide (proto = o.prototype) || o.extensible

def setPrototype (proto : Option O) (o : Object K V F O) : Object K V F O :=
  if o.canSetPrototype proto = true then { o with prototype := proto } else o

end Object

/-- What can be done to an object. -/
inductive Step (K V F O : Type)
  | define (k : K) (d : Descriptor V F)
  | delete (k : K)
  | preventExtensions
  | setPrototype (proto : Option O)

namespace Object

variable [DecidableEq K] [DecidableEq V] [DecidableEq F] [DecidableEq O] [Inhabited V]

def apply : Step K V F O → Object K V F O → Object K V F O
  | .define k d, o => o.define k d
  | .delete k, o => o.delete k
  | .preventExtensions, o => o.preventExtensions
  | .setPrototype proto, o => o.setPrototype proto

def run (steps : List (Step K V F O)) (o : Object K V F O) : Object K V F O :=
  steps.foldl (fun o step => o.apply step) o

end Object

/-! ## A definition that succeeds -/

namespace Object

variable [DecidableEq K] [DecidableEq V] [DecidableEq F] [Inhabited V] {k : K} {d : Descriptor V F}
  {o : Object K V F O}

lemma property_define (h : o.validate k d = true) : (o.define k d).property k =
    some ((o.property k).elim d.create fun p => p.update d) := by
  unfold define
  rw [if_pos h]
  cases o.property k with
  | none => exact update_self ..
  | some p => exact update_self ..

lemma define_configurable (h : o.validate k d = true) (hd : d.configurable = some false) :
    ∃ p, (o.define k d).property k = some p ∧ p.configurable = false := by
  refine ⟨_, property_define h, ?_⟩
  cases o.property k with
  | none => simp [Descriptor.create, hd]
  | some p => simp [Property.update, hd]

lemma define_writable (h : o.validate k d = true) {b : Bool} (hd : d.writable = some b) {p : Property V F}
    (hp : (o.define k d).property k = some p) : ∃ value, p.content = .data value b := by
  cases (property_define h).symm.trans hp
  cases o.property k with
  | none => exact d.create_writable hd
  | some p => exact p.update_writable hd

end Object

/-! ## What cannot be undone -/

/-- `o'` may be what became of `o`. -/
structure Later (o o' : Object K V F O) : Prop where
  extensible : o.extensible = false → o'.extensible = false
  prototype : o.extensible = false → o'.prototype = o.prototype
  absent : o.extensible = false → ∀ k, o.property k = none → o'.property k = none
  present : ∀ k p, o.property k = some p → p.configurable = false → ∃ p', o'.property k = some p' ∧ p.Keeps p'

lemma later_refl (o : Object K V F O) : Later o o where
  extensible h := h
  prototype _ := rfl
  absent _ _ h := h
  present _ p h hp := ⟨p, h, Property.keeps_refl hp⟩

lemma Later.trans {o o' o'' : Object K V F O} (h : Later o o') (h' : Later o' o'') : Later o o'' where
  extensible he := h'.extensible (h.extensible he)
  prototype he := (h'.prototype (h.extensible he)).trans (h.prototype he)
  absent he k hk := h'.absent (h.extensible he) k (h.absent he k hk)
  present k p hk hp := by
    obtain ⟨p', hk', hkeeps⟩ := h.present k p hk hp
    obtain ⟨p'', hk'', hkeeps'⟩ := h'.present k p' hk' hkeeps.1
    exact ⟨p'', hk'', hkeeps.trans hkeeps'⟩

namespace Object

variable [DecidableEq K]

lemma later_update {o o' : Object K V F O} {k : K} {p? : Option (Property V F)}
    (hproperty : o'.property = Function.update o.property k p?) (hextensible : o'.extensible = o.extensible)
    (hprototype : o'.prototype = o.prototype)
    (habsent : o.extensible = false → o.property k = none → p? = none)
    (hpresent : ∀ p, o.property k = some p → p.configurable = false → ∃ p', p? = some p' ∧ p.Keeps p') :
    Later o o' where
  extensible h := hextensible.trans h
  prototype _ := hprototype
  absent h k' hk' := by
    rw [hproperty]
    by_cases heq : k' = k
    · subst heq
      simp [habsent, h, hk']
    · rwa [update_of_ne heq]
  present k' p hk' hp := by
    rw [hproperty]
    by_cases heq : k' = k
    · subst heq
      simp [hpresent, hk', hp]
    · rw [update_of_ne heq]
      exact ⟨p, hk', Property.keeps_refl hp⟩

lemma later_delete (k : K) (o : Object K V F O) : Later o (o.delete k) := by
  unfold delete
  split_ifs with hdelete
  · refine later_update rfl rfl rfl (fun _ _ => rfl) fun p hp hconfigurable => ?_
    unfold canDelete at hdelete
    rw [hp] at hdelete
    cases hconfigurable.symm.trans hdelete
  · exact later_refl o

omit [DecidableEq K] in
lemma later_preventExtensions (o : Object K V F O) : Later o o.preventExtensions where
  extensible _ := rfl
  prototype _ := rfl
  absent _ _ h := h
  present _ p h hp := ⟨p, h, Property.keeps_refl hp⟩

omit [DecidableEq K] in
lemma later_setPrototype [DecidableEq O] (proto : Option O) (o : Object K V F O) : Later o (o.setPrototype proto) := by
  unfold setPrototype
  split_ifs with hset
  · refine ⟨fun h => h, fun h => ?_, fun _ _ h => h, fun _ p h hp => ⟨p, h, Property.keeps_refl hp⟩⟩
    unfold canSetPrototype at hset
    rw [h, Bool.or_false, decide_eq_true_eq] at hset
    exact hset
  · exact later_refl o

variable [DecidableEq V] [DecidableEq F] [Inhabited V]

lemma later_define (k : K) (d : Descriptor V F) (o : Object K V F O) : Later o (o.define k d) := by
  unfold define
  split_ifs with hvalid
  · unfold validate at hvalid
    cases hk : o.property k with
    | none =>
      rw [hk] at hvalid
      refine later_update rfl rfl rfl (fun he => ?_) fun p hp => ?_
      · cases he.symm.trans hvalid
      · cases hk.symm.trans hp
    | some p =>
      rw [hk] at hvalid
      refine later_update rfl rfl rfl (fun _ hnone => ?_) fun p' hp' hconfigurable => ?_
      · cases hk.symm.trans hnone
      · cases hk.symm.trans hp'
        exact ⟨_, rfl, ((Property.validate_iff hconfigurable).1 hvalid).keeps_update hconfigurable⟩
  · exact later_refl o

variable [DecidableEq O]

lemma later_apply (step : Step K V F O) (o : Object K V F O) : Later o (o.apply step) := by
  cases step with
  | define k d => exact later_define k d o
  | delete k => exact later_delete k o
  | preventExtensions => exact later_preventExtensions o
  | setPrototype proto => exact later_setPrototype proto o

theorem later_run (steps : List (Step K V F O)) (o : Object K V F O) : Later o (o.run steps) := by
  unfold run
  induction steps generalizing o with
  | nil => exact later_refl o
  | cons step steps ih => exact (later_apply step o).trans (ih (o.apply step))

end Object

end Ordinary

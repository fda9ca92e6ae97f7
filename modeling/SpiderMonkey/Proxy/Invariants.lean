import SpiderMonkey.Proxy.DescriptorTraps

/-!
# The invariants of the essential internal methods

What a scripted proxy reports about its target, whatever its handler does.
-/

namespace SpiderMonkey.Proxy

open List
open Script (Runs)
open Ordinary (Later)

/-! ## Operations move the target forward -/

/-- Whatever the outcome, the target is what may become of it. -/
def Moves {α : Type} (m : Op α) : Prop := ∀ t, Runs m t (fun _ => Later t) fun _ => Later t

namespace Moves

variable {α β : Type}

protected lemma pure (a : α) : Moves (pure a) := fun t => .pure (Ordinary.later_refl t)

protected lemma throw (e : Error) : Moves (Script.throw e : Op α) := fun t => .throw (Ordinary.later_refl t)

protected lemma bind {m : Op α} {f : α → Op β} (h : Moves m) (hf : ∀ a, Moves (f a)) : Moves (m >>= f) :=
  fun t => .bind ((h t).imp (fun a _ h => (hf a _).imp (fun _ _ => h.trans) fun _ _ => h.trans)
    fun _ _ h => h)

protected lemma get {f : Target → Op β} (hf : ∀ t, Moves (f t)) : Moves (Script.get >>= f) :=
  fun t => .bind (.get (hf t t))

protected lemma modify {f : Target → Target} (h : ∀ t, Later t (f t)) : Moves (Script.modify f) :=
  fun t => .modify (h t)

protected lemma ite {c : Prop} [Decidable c] {m m' : Op α} (h : Moves m) (h' : Moves m') :
    Moves (if c then m else m') := fun t => .ite (fun _ => h t) fun _ => h' t

lemma interact (i : Interaction α) : Moves (interact i) :=
  fun t => runs_interact (fun _ _ => Ordinary.Object.later_run _ t) (Ordinary.Object.later_run _ t)

end Moves

namespace ProxyObject

open Ordinary.Property PropertyDescriptor

variable {proxy : ProxyObject}

lemma later_checkState (proxy : ProxyObject) (trap : Trap) (t : Target) : Later t (proxy.checkState trap t) := by
  unfold checkState afterTrap
  have hget := Ordinary.Object.later_run trap.get.steps t
  split
  · exact hget.trans (Ordinary.Object.later_run _ _)
  · exact hget

/-- The target goes on from where the operation looked at it. -/
lemma forward_withTrap {α : Type} {name : String} {trap : Trap} {onTarget : Op α}
    {onTrap : Value → Op α} (hTarget : Moves onTarget) (hTrap : ∀ v, Moves (onTrap v)) (t : Target) :
    Runs (proxy.withTrap name trap onTarget onTrap) t (fun _ => Later (proxy.checkState trap t))
      fun _ => Later t := by
  have hcheck := later_checkState proxy trap t
  refine runs_withTrap (fun hnone => ?_) (fun v hv => ?_) fun _ _ h => h
  · rw [checkState_of_none hnone] at hcheck ⊢
    exact (hTarget _).imp (fun _ _ h => h) fun _ _ => hcheck.trans
  · rw [checkState_of_some hv] at hcheck ⊢
    exact (hTrap v _).imp (fun _ _ h => h) fun _ _ => hcheck.trans

/-! ## Prototypes and extensibility -/

variable (trap : Trap)

variable (t : Target)

lemma runs_getPrototype : Runs (proxy.getPrototype trap) t
    (fun r t' => t'.extensible = false → r = t'.prototype) fun _ _ => True := by
  refine runs_withTrap (fun _ => .bind (.get (.pure fun _ => rfl))) (fun v _ => ?_) fun _ _ _ => trivial
  cases v.objectOrNull? with
  | none => exact .throw trivial
  | some handlerProto =>
    refine .bind (.get (.ite (fun h => .pure fun h' => ?_) fun _ => .ite (fun _ => .throw trivial) fun h =>
      .pure fun _ => not_not.1 h))
    cases h.symm.trans h'

lemma runs_setPrototype (proto : Option ℕ) (trap : Trap) (t : Target) : Runs (proxy.setPrototype proto trap) t
      (fun r t' => r = true → t'.extensible = false → proto = t'.prototype) fun _ _ => True := by
  refine runs_withTrap (fun _ => ?_) (fun v _ => ?_) fun _ _ _ => trivial
  · refine .bind (.get (.bind (.modify (.pure fun hset _ => ?_))))
    unfold Ordinary.Object.setPrototype
    rw [if_pos hset]
  · refine .ite (fun _ => .pure fun h => by simp at h) fun _ => .bind (.get ?_)
    refine .ite (fun h => .pure fun _ h' => ?_) fun _ => .ite (fun _ => .throw trivial) fun h =>
      .pure fun _ _ => not_not.1 h
    cases h.symm.trans h'

lemma runs_preventExtensions : Runs (proxy.preventExtensions trap) t
    (fun r t' => r = true → t'.extensible = false) fun _ _ => True := by
  refine runs_withTrap (fun _ => .bind (.modify (.pure fun _ => rfl))) (fun v _ => ?_) fun _ _ _ => trivial
  refine .ite (fun _ => .bind (.get ?_)) fun _ => .pure fun h => by simp at h
  exact .ite (fun _ => .throw trivial) fun h => .pure fun _ => Bool.eq_false_of_not_eq_true h

lemma runs_isExtensible : Runs (proxy.isExtensible trap) t (fun r t' => r = t'.extensible) fun _ _ => True := by
  refine runs_withTrap (fun _ => .bind (.get (.pure rfl))) (fun v _ => .bind (.get ?_)) fun _ _ _ => trivial
  exact .ite (fun _ => .throw trivial) fun h => .pure (not_not.1 h).symm

/-! ## Keys -/

lemma addKeys_eq_some {ids : List PropertyKey} {keys s : Finset PropertyKey} (h : addKeys ids keys = some s) :
    ids.Nodup ∧ (∀ k ∈ ids, k ∉ keys) ∧ ∀ k, k ∈ s ↔ k ∈ keys ∨ k ∈ ids := by
  induction ids generalizing keys with
  | nil =>
    cases h
    simp
  | cons id ids ih =>
    unfold addKeys at h
    split at h
    · simp at h
    · next hid =>
      obtain ⟨hnodup, hnew, hs⟩ := ih h
      simp only [Finset.mem_insert, not_or] at hnew hs
      refine ⟨nodup_cons.2 ⟨fun hmem => (hnew id hmem).1 rfl, hnodup⟩, fun k hk => ?_, fun k => ?_⟩
      · obtain rfl | hk := mem_cons.1 hk
        · exact hid
        · exact (hnew k hk).2
      · rw [hs, mem_cons]
        tauto

lemma removeKeys_eq_some {ids : List PropertyKey} {keys s : Finset PropertyKey}
    (h : removeKeys ids keys = some s) : (∀ k ∈ ids, k ∈ keys) ∧ ∀ k, k ∈ s ↔ k ∈ keys ∧ k ∉ ids := by
  induction ids generalizing keys with
  | nil =>
    cases h
    simp
  | cons id ids ih =>
    unfold removeKeys at h
    split at h
    · next hid =>
      obtain ⟨hmem, hs⟩ := ih h
      simp only [Finset.mem_erase] at hmem hs
      refine ⟨fun k hk => ?_, fun k => ?_⟩
      · obtain rfl | hk := mem_cons.1 hk
        · exact hid
        · exact (hmem k hk).2
      · rw [hs, mem_cons]
        tauto
    · simp at h

/-- The keys are as a proxy for the target may report them. -/
structure ReportsKeys (t : Target) (ids : List PropertyKey) : Prop where
  nodup : ids.Nodup
  fixed : ∀ k p, t.property k = some p → p.configurable = false → k ∈ ids
  exact : t.extensible = false → ∀ k, k ∈ ids ↔ k ∈ t.keys

lemma reportsKeys_own : ReportsKeys t t.keys where
  nodup := t.nodup
  fixed k p hk _ := (t.mem_keys k).2 (by simp [hk])
  exact _ _ := Iff.rfl

variable (proxy) in
/-- How the checks tell the fixed keys of the target from the others. -/
lemma isNonconfigurable_iff {t : Target} {k : PropertyKey} {p : Property} (hk : t.property k = some p) :
    (decide ((proxy.ownDescriptor t k).obj ≠ none) && !(proxy.ownDescriptor t k).configurable) = !p.configurable := by
  rw [ownDescriptor_some hk, (flags_ofProperty proxy.target p).1, obj_ofProperty]
  simp

lemma runs_checkKeys {c t : Target} {ids : List PropertyKey} :
    Runs (proxy.checkKeys c ids) t (fun r t' => t' = t ∧ ReportsKeys c r) fun _ t' => t' = t := by
  have hnonconfigurable {k p} (hk : c.property k = some p) (hp : p.configurable = false) :
      k ∈ c.keys.filter fun id => decide ((proxy.ownDescriptor c id).obj ≠ none) &&
        !(proxy.ownDescriptor c id).configurable := by
    refine mem_filter.2 ⟨(c.mem_keys k).2 (by simp [hk]), ?_⟩
    rw [proxy.isNonconfigurable_iff hk, hp]
    rfl
  unfold checkKeys
  split
  · exact .throw rfl
  · next unchecked hadd =>
    obtain ⟨hnodup, -, hunchecked⟩ := addKeys_eq_some hadd
    refine .ite (fun h => .pure ?_) fun _ => ?_
    · -- no key is fixed, and keys may be left out or made up
      obtain ⟨hextensible, hempty⟩ := Bool.and_eq_true_iff.1 h
      refine ⟨rfl, hnodup, fun k p hk hp => ?_, fun h => absurd (h.symm.trans hextensible) (by decide)⟩
      exact absurd (List.isEmpty_iff.1 hempty) (ne_nil_of_mem (hnonconfigurable hk hp))
    · split
      · exact .throw rfl
      · next unchecked' hremove =>
        obtain ⟨hmem, hunchecked'⟩ := removeKeys_eq_some hremove
        have hfixed k p (hk : c.property k = some p) (hp : p.configurable = false) : k ∈ ids := by
          simpa [hunchecked] using hmem k (hnonconfigurable hk hp)
        refine .ite (fun hextensible => .pure ⟨rfl, hnodup, hfixed, fun h => ?_⟩) fun _ => ?_
        · cases h.symm.trans hextensible
        · split
          · exact .throw rfl
          · next unchecked'' hremove' =>
            obtain ⟨hmem', hunchecked''⟩ := removeKeys_eq_some hremove'
            refine .ite (fun _ => .throw rfl) fun hempty => .pure ⟨rfl, hnodup, hfixed, fun _ k => ?_⟩
            have hrest : k ∉ unchecked'' := by simp [not_not.1 hempty]
            constructor
            · intro hk
              by_contra hkeys
              refine hrest ((hunchecked'' k).2 ⟨(hunchecked' k).2 ⟨?_, ?_⟩, ?_⟩)
              · exact (hunchecked k).2 (.inr hk)
              · exact fun h => hkeys (mem_of_mem_filter h)
              · exact fun h => hkeys (mem_of_mem_filter h)
            · intro hk
              obtain ⟨p, hp⟩ := Option.ne_none_iff_exists'.1 ((c.mem_keys k).1 hk)
              by_cases hconfigurable : p.configurable = true
              · have hnot := (congrArg Bool.not (proxy.isNonconfigurable_iff hp)).trans
                  (show (!!p.configurable) = true by rw [hconfigurable]; rfl)
                have hlist := hmem' k (mem_filter.2 ⟨hk, hnot⟩)
                simpa [hunchecked] using ((hunchecked' k).1 hlist).1
              · exact hfixed k p hp (Bool.eq_false_of_not_eq_true hconfigurable)

lemma moves_readElements (element : ℕ → Interaction Value) (n index : ℕ) (props : List PropertyKey) :
    Moves (readElements element n index props) := by
  induction n generalizing index props with
  | zero => exact .pure _
  | succ n ih =>
    refine .bind (.interact _) fun next => ?_
    split
    · exact .throw _
    · exact ih _ _

lemma moves_createFilteredListFromArrayLike (v : Value) (length : Interaction ℕ)
    (element : ℕ → Interaction Value) : Moves (createFilteredListFromArrayLike v length element) := by
  cases v with
  | object id => exact .bind (.interact _) fun len => moves_readElements element len 0 []
  | _ => exact .throw _

lemma runs_ownPropertyKeys (length : Interaction ℕ) (element : ℕ → Interaction Value)
    (t : Target) : Runs (proxy.ownPropertyKeys trap length element) t
      (fun r t' => ReportsKeys t' r) fun _ _ => True := by
  refine runs_withTrap (fun _ => .bind (.get (.pure (reportsKeys_own _)))) (fun v _ => ?_)
    fun _ _ _ => trivial
  refine .bind ((moves_createFilteredListFromArrayLike v length element _).imp (fun ids c _ => ?_)
    fun _ _ _ => trivial)
  refine .bind (.get ?_)
  exact runs_checkKeys.imp (fun r t' h => h.1 ▸ h.2) fun _ _ _ => trivial

/-! ## Properties -/

/-- A key may be reported as absent: if the target has it, it can be removed, and the target could get
it back. -/
def MayBeAbsent (id : PropertyKey) : Prop :=
  ∀ p, t.property id = some p → p.configurable = true ∧ t.extensible = true

lemma mayBeAbsent_of_checks {t : Target} {id : PropertyKey}
    (h : (proxy.ownDescriptor t id).obj = none ∨ (¬ (!(proxy.ownDescriptor t id).configurable) = true ∧
      ¬ (!t.extensible) = true)) : MayBeAbsent t id := by
  intro p hp
  rw [ownDescriptor_some hp, obj_ofProperty, (flags_ofProperty proxy.target p).1] at h
  simpa using h

variable (id : PropertyKey)

lemma runs_delete : Runs (proxy.delete id trap) t (fun r t' => r = true → MayBeAbsent t' id) fun _ _ => True := by
  refine runs_withTrap (fun _ => ?_) (fun v _ => ?_) fun _ _ _ => trivial
  · refine .bind (.get (.bind (.modify (.pure fun hdelete p hp => ?_))))
    unfold Ordinary.Object.delete at hp
    rw [if_pos hdelete] at hp
    exact absurd hp (by simp [Ordinary.Object.erase])
  · refine .ite (fun _ => .pure fun h => by simp at h) fun _ => .bind (.get ?_)
    refine .ite (fun h => .pure fun _ => mayBeAbsent_of_checks (.inl h)) fun _ =>
      .ite (fun _ => .throw trivial) fun hconfigurable => .ite (fun _ => .throw trivial) fun hextensible =>
      .pure fun _ => mayBeAbsent_of_checks (.inr ⟨hconfigurable, hextensible⟩)

lemma runs_has (inherited : Interaction Bool) (t : Target) : Runs (proxy.has id trap inherited) t
      (fun r _ => r = false → MayBeAbsent (proxy.checkState trap t) id) fun _ _ => True := by
  refine runs_withTrap (fun hnone => ?_) (fun v hv => ?_) fun _ _ _ => trivial
  · rw [checkState_of_none hnone]
    refine .bind (.get (.ite (fun _ => .pure fun h => by simp at h) fun hown => ?_))
    have habsent (b : Bool) : b = false → MayBeAbsent (t.run trap.get.steps) id := fun _ p hp =>
      absurd (hp ▸ not_not.1 hown) (by simp)
    exact .ite (fun _ => .pure (habsent _)) fun _ => runs_interact (fun _ _ => habsent _) trivial
  · rw [checkState_of_some hv]
    refine .ite (fun _ => .bind (.get ?_)) fun _ => .pure fun h => by simp at h
    refine .ite (fun h => .pure fun _ => mayBeAbsent_of_checks (.inl h)) fun _ =>
      .ite (fun _ => .throw trivial) fun hconfigurable => .ite (fun _ => .throw trivial) fun hextensible =>
      .pure fun _ => mayBeAbsent_of_checks (.inr ⟨hconfigurable, hextensible⟩)

/-- What a fixed property says about the value that may be read. -/
structure MayBeRead (t : Target) (id : PropertyKey) (v : Value) : Prop where
  data : ∀ p value, t.property id = some p → p.configurable = false → p.content = .data value false → v = value
  accessor : ∀ p setter, t.property id = some p → p.configurable = false →
    p.content = .accessor none setter → v = .undefined

/-- What a fixed property says about the value that may be written. -/
structure MayBeWritten (t : Target) (id : PropertyKey) (v : Value) : Prop where
  data : ∀ p value, t.property id = some p → p.configurable = false → p.content = .data value false → v = value
  accessor : ∀ p getter, t.property id = some p → p.configurable = false → p.content ≠ .accessor getter none

variable (proxy) in
lemma ownDescriptor_data {t : Target} {id : PropertyKey} {p : Property} {value : Value}
    (hp : t.property id = some p) (hconfigurable : p.configurable = false)
    (hcontent : p.content = .data value false) : (proxy.ownDescriptor t id).obj ≠ none ∧
      ((proxy.ownDescriptor t id).isDataDescriptor && !(proxy.ownDescriptor t id).configurable &&
        !(proxy.ownDescriptor t id).writable) = true ∧ (proxy.ownDescriptor t id).value = value := by
  rw [ownDescriptor_some hp]
  obtain ⟨hflag, hwritable⟩ := flags_ofProperty proxy.target p
  have hdata := (isDataDescriptor_ofProperty proxy.target p).2
    (descriptor_isData.2 ⟨value, false, hcontent⟩)
  rw [hdata, hflag, hwritable, descriptor_writable_getD hcontent, hconfigurable,
    obj_ofProperty, value_ofProperty]
  simp [descriptor, hcontent]

variable (proxy) in
lemma ownDescriptor_accessor {t : Target} {id : PropertyKey} {p : Property} {getter setter : Option ℕ}
    (hp : t.property id = some p) (hconfigurable : p.configurable = false)
    (hcontent : p.content = .accessor getter setter) : (proxy.ownDescriptor t id).obj ≠ none ∧
      ((proxy.ownDescriptor t id).isAccessorDescriptor && !(proxy.ownDescriptor t id).configurable) =
        true ∧ (proxy.ownDescriptor t id).getter = getter ∧
      (proxy.ownDescriptor t id).setter = setter := by
  rw [ownDescriptor_some hp]
  obtain ⟨hflag, -⟩ := flags_ofProperty proxy.target p
  have haccessor : (ofProperty proxy.target p).isAccessorDescriptor = true := by
    rw [← isAccessor_fields, fields_ofProperty]
    simp [Ordinary.Descriptor.IsAccessor, descriptor, hcontent]
  rw [haccessor, hflag, hconfigurable, obj_ofProperty,
    getter_ofProperty, setter_ofProperty]
  simp [descriptor, hcontent]

lemma runs_get (rest : Interaction Value) (t : Target) : Runs (proxy.get id trap rest) t
      (fun r _ => MayBeRead (proxy.checkState trap t) id r) fun _ _ => True := by
  refine runs_withTrap (fun hnone => ?_) (fun v hv => .bind (.get ?_)) fun _ _ _ => trivial
  · rw [checkState_of_none hnone]
    refine .bind (.get ?_)
    cases hp : (t.run trap.get.steps).property id with
    | none =>
      have habsent (v : Value) : MayBeRead (t.run trap.get.steps) id v :=
        ⟨fun p _ hp' => absurd (hp.symm.trans hp') (by simp), fun p _ hp' => absurd (hp.symm.trans hp') (by simp)⟩
      exact .ite (fun _ => .pure (habsent _)) fun _ => runs_interact (fun _ _ => habsent _) trivial
    | some p =>
      have hown (v : Value) (hdata : ∀ value, p.content = .data value false → v = value)
          (haccessor : ∀ setter, p.content = .accessor none setter → v = .undefined) :
          MayBeRead (t.run trap.get.steps) id v := by
        refine ⟨fun p' value hp' _ hcontent => ?_, fun p' setter hp' _ hcontent => ?_⟩
        · exact hdata value (Option.some.inj (hp.symm.trans hp') ▸ hcontent)
        · exact haccessor setter (Option.some.inj (hp.symm.trans hp') ▸ hcontent)
      obtain ⟨content, enumerable, configurable⟩ := p
      cases content with
      | data value writable =>
        refine .pure (hown value (fun value' h => ?_) fun _ h => by simp at h)
        exact (Ordinary.Content.data.inj h).1
      | accessor getter setter =>
        cases getter with
        | none => exact .pure (hown _ (fun _ h => by simp at h) fun _ _ => rfl)
        | some getter =>
          exact runs_interact (fun v _ => hown v (fun _ h => by simp at h) fun _ h => by simp at h) trivial
  · rw [checkState_of_some hv]
    refine .ite (fun _ => .throw trivial) fun hdata => .ite (fun _ => .throw trivial) fun haccessor =>
      .pure ⟨fun p value hp hconfigurable hcontent => ?_, fun p setter hp hconfigurable hcontent => ?_⟩
    · obtain ⟨hobj, hflags, hvalue⟩ := proxy.ownDescriptor_data hp hconfigurable hcontent
      by_contra hne
      exact hdata ⟨hobj, hflags, hvalue ▸ hne⟩
    · obtain ⟨hobj, hflags, hgetter, -⟩ := proxy.ownDescriptor_accessor hp hconfigurable hcontent
      by_contra hne
      exact haccessor ⟨hobj, hflags, hgetter, hne⟩

lemma runs_set (v : Value) (trap : Trap) (rest : Interaction Bool) (t : Target) : Runs (proxy.set id v trap rest) t
      (fun r _ => r = true → MayBeWritten (proxy.checkState trap t) id v) fun _ _ => True := by
  refine runs_withTrap (fun hnone => ?_) (fun trapResult hv => ?_) fun _ _ _ => trivial
  · rw [checkState_of_none hnone]
    refine .bind (.get ?_)
    cases hp : (t.run trap.get.steps).property id with
    | none =>
      refine runs_interact (fun _ _ _ => ⟨fun p _ hp' => ?_, fun p _ hp' => ?_⟩) trivial
      · cases hp.symm.trans hp'
      · cases hp.symm.trans hp'
    | some p =>
      have hown (hdata : ∀ value, p.content ≠ .data value false)
          (haccessor : ∀ getter, p.content ≠ .accessor getter none) :
          MayBeWritten (t.run trap.get.steps) id v := by
        refine ⟨fun p' value hp' _ hcontent => ?_, fun p' getter hp' _ hcontent => ?_⟩
        · exact absurd (Option.some.inj (hp.symm.trans hp') ▸ hcontent) (hdata value)
        · exact haccessor getter (Option.some.inj (hp.symm.trans hp') ▸ hcontent)
      obtain ⟨content, enumerable, configurable⟩ := p
      cases content with
      | data value writable =>
        cases writable with
        | false => exact .pure fun h => by simp at h
        | true => exact runs_interact (fun _ _ _ => hown (fun _ => by simp) fun _ => by simp) trivial
      | accessor getter setter =>
        cases setter with
        | none => exact .pure fun h => by simp at h
        | some setter =>
          exact runs_interact (fun _ _ _ => hown (fun _ => by simp) fun _ => by simp) trivial
  · rw [checkState_of_some hv]
    refine .ite (fun _ => .pure fun h => by simp at h) fun _ => .bind (.get ?_)
    refine .ite (fun _ => .throw trivial) fun hdata => .ite (fun _ => .throw trivial) fun haccessor =>
      .pure fun _ => ⟨fun p value hp hconfigurable hcontent => ?_, fun p getter hp hconfigurable hcontent => ?_⟩
    · obtain ⟨hobj, hflags, hvalue⟩ := proxy.ownDescriptor_data hp hconfigurable hcontent
      by_contra hne
      exact hdata ⟨hobj, hflags, hvalue ▸ hne⟩
    · obtain ⟨hobj, hflags, -, hsetter⟩ := proxy.ownDescriptor_accessor hp hconfigurable hcontent
      exact haccessor ⟨hobj, hflags, hsetter⟩

end ProxyObject

end SpiderMonkey.Proxy

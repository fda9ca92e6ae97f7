import SpiderMonkey.Lib.EventRun
import SpiderMonkey.Proxy.TrapCalls

/-!
# What the descriptor traps let through

`getOwnPropertyDescriptor` and `defineProperty` of a scripted proxy keep to what is fixed in the target,
except for the descriptors that `IsCompatiblePropertyDescriptor` confuses.
-/

namespace SpiderMonkey.Proxy

open Script (Runs)
open Ordinary (Later)

/-- A descriptor is reported or accepted for a property as it may be: it changes nothing that is fixed in
the target as it was when it was looked at, and what it says is fixed is fixed in the target. -/
structure Accepted (checked final : Target) (id : PropertyKey) (d : Descriptor) : Prop where
  admits : ∀ p, checked.property id = some p → p.configurable = false → p.Admits d
  configurable : d.configurable = some false → ∃ p, final.property id = some p ∧ p.configurable = false
  writable : d.writable = some false → ∀ p, final.property id = some p → p.configurable = false →
    ∃ value, p.content = .data value false

namespace ProxyObject

variable {proxy : ProxyObject} {t : Target}

lemma ownDescriptor_none {id : PropertyKey} (h : t.property id = none) :
    proxy.ownDescriptor t id = ⟨none, 0, none, none, .undefined⟩ := by
  unfold ownDescriptor
  rw [h]

lemma ownDescriptor_some {id : PropertyKey} {p : Property} (h : t.property id = some p) :
    proxy.ownDescriptor t id = .ofProperty proxy.target p := by
  unfold ownDescriptor
  rw [h]

end ProxyObject

lemma admits_descriptor {p : Property} (h : p.configurable = false) : p.Admits p.descriptor := by
  have hincludes : p.Includes p.descriptor := ⟨.inr rfl, .inr rfl, .inr rfl, .inr rfl, .inr rfl, .inr rfl⟩
  exact hincludes.admits h

lemma accepted_own {id : PropertyKey} {p : Property} {t : Target} (h : t.property id = some p) :
    Accepted t t id p.descriptor where
  admits p' hp' hconfigurable := by
    cases h.symm.trans hp'
    exact admits_descriptor hconfigurable
  configurable hfalse := by
    refine ⟨p, h, ?_⟩
    obtain ⟨content, enumerable, configurable⟩ := p
    cases content <;> exact Option.some.inj hfalse
  writable hfalse p' hp' _ := by
    cases h.symm.trans hp'
    obtain ⟨content, enumerable, configurable⟩ := p
    cases content with
    | data value writable => exact ⟨value, by rw [Option.some.inj hfalse]⟩
    | accessor get set => exact absurd hfalse (by simp [Ordinary.Property.descriptor])

/-! ## Reported descriptors -/

/-- The descriptor of a property that no object has yet. -/
def describedBy (p : Property) : PropertyDescriptor := { PropertyDescriptor.ofProperty 0 p with obj := none }

lemma fields_describedBy (p : Property) (obj : Option ℕ) :
    ({ describedBy p with obj := obj } : PropertyDescriptor).fields = p.descriptor :=
  PropertyDescriptor.fields_ofProperty 0 p

lemma flags_describedBy (p : Property) : (describedBy p).configurable = p.configurable ∧
    (describedBy p).hasWritable = p.descriptor.writable.isSome ∧
    (describedBy p).writable = p.descriptor.writable.getD true := by
  obtain ⟨-, hhasWritable, hwritable, -, -, -, -, -, hconfigurable⟩ :=
    PropertyDescriptor.flags_of_property (PropertyDescriptor.attrs_ofProperty 0 p)
  exact ⟨hconfigurable, hhasWritable, hwritable⟩

lemma flags_ofProperty (obj : ℕ) (p : Property) : (PropertyDescriptor.ofProperty obj p).configurable = p.configurable ∧
    (PropertyDescriptor.ofProperty obj p).writable = p.descriptor.writable.getD true := by
  obtain ⟨-, -, hwritable, -, -, -, -, -, hconfigurable⟩ :=
    PropertyDescriptor.flags_of_property (PropertyDescriptor.attrs_ofProperty obj p)
  exact ⟨hconfigurable, hwritable⟩

namespace ProxyObject

open Ordinary.Object

variable {proxy : ProxyObject}

lemma runs_checkReported {c t : Target} {id : PropertyKey} {p : Property} {R : Error → Target → Prop} (hR : ∀ e, R e t)
    (hconfuses : ∀ p', c.property id = some p' → ¬ Confuses p' p.descriptor) :
    Runs (proxy.checkReported c.extensible (describedBy p) (proxy.ownDescriptor c id)) t
      (fun r _ => ∀ desc, r = some desc → Accepted c c id desc.fields) R := by
  obtain ⟨hconfigurable, hhasWritable, hwritable⟩ := flags_describedBy p
  unfold checkReported
  rw [hconfigurable, hhasWritable, hwritable]
  split
  · exact .throw (hR _)
  · next hcompatible =>
    refine .ite (fun _ => .throw (hR _)) fun hnew => .ite (fun _ => .throw (hR _)) fun hfixed =>
      .ite (fun _ => .throw (hR _)) fun hreadonly => .pure ?_
    rintro desc hdesc
    cases hdesc
    rw [fields_describedBy]
    cases hp' : c.property id with
    | none =>
      rw [ownDescriptor_none hp'] at hnew
      have hp : p.configurable = true := by simpa using hnew
      refine ⟨fun p' h => ?_, fun h => ?_, fun _ p' h => ?_⟩
      · cases hp'.symm.trans h
      · exact absurd h (by simp [Ordinary.Property.descriptor_configurable, hp])
      · cases hp'.symm.trans h
    | some p' =>
      rw [ownDescriptor_some hp'] at hcompatible hfixed hreadonly
      obtain ⟨hconfigurable', hwritable'⟩ := flags_ofProperty proxy.target p'
      rw [hconfigurable'] at hfixed
      rw [hwritable'] at hreadonly
      have hvalid : p'.validate p.descriptor = true := by
        have hagree := (isCompatible_iff c.extensible (describedBy p) proxy.target p').2 (by
          rw [show (describedBy p).fields = _ from fields_describedBy p none]
          exact hconfuses p' hp')
        rw [hcompatible] at hagree
        rw [← fields_describedBy p none]
        exact hagree.symm
      have hadmits (h : p'.configurable = false) : p'.Admits p.descriptor := (Ordinary.Property.validate_iff h).1 hvalid
      refine ⟨fun p'' h h' => ?_, fun h => ⟨p', hp', ?_⟩, fun h p'' h' hfalse => ?_⟩
      · cases hp'.symm.trans h
        exact hadmits h'
      · rw [Ordinary.Property.descriptor_configurable] at h
        simpa [Option.some.inj h] using hfixed
      · cases hp'.symm.trans h'
        obtain ⟨value, writable, hcontent⟩ := (hadmits hfalse).data_of_writable h
        have hp : p.configurable = false := by
          have hne := (hadmits hfalse).1
          rw [Ordinary.Property.descriptor_configurable] at hne
          simpa using hne
        rw [h, hp, Ordinary.Property.descriptor_writable_getD hcontent] at hreadonly
        exact ⟨value, by rw [hcontent, show writable = false by simpa using hreadonly]⟩

/-- A confused descriptor is reported. -/
lemma runs_checkReported_of_confuses {c t : Target} {id : PropertyKey} {p p' : Property}
    {R : Error → Target → Prop} (hp' : c.property id = some p') (h : Confuses p' p.descriptor) :
    Runs (proxy.checkReported c.extensible (describedBy p) (proxy.ownDescriptor c id)) t
      (fun r _ => ∃ desc, r = some desc ∧ ¬ Accepted c c id desc.fields) R := by
  obtain ⟨hconfigurable, hhasWritable, hwritable⟩ := flags_describedBy p
  obtain ⟨hconfigurable', -⟩ := flags_ofProperty proxy.target p'
  have hfields : (describedBy p).fields = p.descriptor := fields_describedBy p none
  rw [← hfields] at h
  obtain ⟨haccepted, hadmits⟩ := h.accepted c.extensible proxy.target
  have hnone : p.descriptor.writable = none := hfields ▸ h.writable
  unfold checkReported
  rw [ownDescriptor_some hp', haccepted, hconfigurable, hhasWritable, hwritable, hconfigurable', h.1,
    PropertyDescriptor.obj_ofProperty, hnone]
  refine .ite (fun hc => absurd hc.2 (by simp)) fun _ => .ite (fun hc => absurd hc (by simp)) fun _ =>
    .ite (fun hc => absurd hc (by simp)) fun _ => .pure ⟨_, rfl, fun hsound => ?_⟩
  rw [fields_describedBy] at hsound
  exact hadmits (hfields ▸ hsound.admits p' hp' h.1)

variable (proxy) in
/-- The trap returns an object that describes a property, but which `IsCompatiblePropertyDescriptor`
confuses with the property of the target. -/
def ReportsConfused (id : PropertyKey) (trap : Trap) (fields : Interaction DescriptorFields) (t : Target) : Prop :=
  ∃ obj f p, proxy.trapResult? trap = some (.object obj) ∧ fields.result = some f ∧
    toPropertyDescriptor proxy.isCallable f ≠ none ∧
    (proxy.checkState trap t).property id = some p ∧ Confuses p f.property.descriptor

lemma runs_getOwnPropertyDescriptor {id : PropertyKey} {trap : Trap}
    {fields : Interaction DescriptorFields} {t : Target}
    (h : ¬ proxy.ReportsConfused id trap fields t) :
    Runs (proxy.getOwnPropertyDescriptor id trap fields) t
      (fun r _ => ∀ desc, r = some desc → Accepted (proxy.checkState trap t) (proxy.checkState trap t) id desc.fields)
      fun _ _ => True := by
  refine runs_withTrap (fun hnone => ?_) (fun v hv => ?_) fun _ _ _ => trivial
  · refine .bind (.get (.pure fun desc hdesc => ?_))
    obtain ⟨p, hp, rfl⟩ := Option.map_eq_some_iff.1 hdesc
    rw [PropertyDescriptor.fields_ofProperty]
    exact accepted_own (checkState_of_none hnone t ▸ hp)
  · refine .bind (.get ?_)
    cases v with
    | undefined =>
      refine .ite (fun _ => .pure fun _ h => by simp at h) fun _ => .ite (fun _ => .throw trivial) fun _ =>
        .ite (fun _ => .throw trivial) fun _ => .pure fun _ h => by simp at h
    | object obj =>
      refine .bind (runs_interact (fun f hf => ?_) trivial)
      cases hdesc : toPropertyDescriptor proxy.isCallable f with
      | none => exact .throw trivial
      | some resultDesc =>
        show Runs (proxy.checkReported _ resultDesc.completePropertyDescriptor _) _ _ _
        rw [completePropertyDescriptor_eq hdesc, ← checkState_of_some hv]
        refine runs_checkReported (fun _ => trivial) fun p hp hconfuses => h ?_
        exact ⟨obj, f, p, hv, hf, by simp [hdesc], hp, hconfuses⟩
    | _ => exact .throw trivial

lemma runs_getOwnPropertyDescriptor_of_confused {id : PropertyKey} {trap : Trap}
    {fields : Interaction DescriptorFields} {t : Target}
    (h : proxy.ReportsConfused id trap fields t) :
    Runs (proxy.getOwnPropertyDescriptor id trap fields) t
      (fun r _ => ∃ desc, r = some desc ∧ ¬ Accepted (proxy.checkState trap t) (proxy.checkState trap t) id desc.fields)
      fun _ _ => False := by
  obtain ⟨obj, f, p, hv, hf, hdesc, hp, hconfuses⟩ := h
  obtain ⟨resultDesc, hdesc⟩ := Option.ne_none_iff_exists'.1 hdesc
  refine runs_withTrap_of_trapped hv (.bind (.get (.bind (runs_interact_of_some hf ?_))))
  rw [hdesc]
  show Runs (proxy.checkReported _ resultDesc.completePropertyDescriptor _) _ _ _
  rw [completePropertyDescriptor_eq hdesc, ← checkState_of_some hv]
  exact runs_checkReported_of_confuses hp hconfuses

/-! ## Accepted definitions -/

lemma configurable_fields {desc : PropertyDescriptor} :
    desc.fields.configurable = some false ↔ (desc.hasConfigurable && !desc.configurable) = true := by
  by_cases h : desc.hasConfigurable = true <;> simp [PropertyDescriptor.fields, h]

lemma writable_fields {desc : PropertyDescriptor} :
    desc.fields.writable = some false ↔ (desc.hasWritable && !desc.writable) = true := by
  by_cases h : desc.hasWritable = true <;> simp [PropertyDescriptor.fields, h]

lemma runs_checkDefined {c : Target} {id : PropertyKey} {desc : PropertyDescriptor}
    (hconfuses : ∀ p, c.property id = some p → ¬ Confuses p desc.fields) :
    Runs (checkDefined c.extensible desc (proxy.ownDescriptor c id)) c
      (fun r final => r = true → Accepted c final id desc.fields) fun _ _ => True := by
  unfold checkDefined
  cases hp : c.property id with
  | none =>
    rw [ownDescriptor_none hp]
    refine .ite (fun _ => .ite (fun _ => .throw trivial) fun _ => .ite (fun _ => .throw trivial)
      fun hsetting => .pure fun _ => ?_) fun h => absurd rfl h
    refine ⟨fun p h => ?_, fun h => absurd (configurable_fields.1 h) hsetting, fun _ p h => ?_⟩
    · cases hp.symm.trans h
    · cases hp.symm.trans h
  | some p =>
    rw [ownDescriptor_some hp]
    obtain ⟨hconfigurable, hwritable⟩ := flags_ofProperty proxy.target p
    refine .ite (fun h => absurd h (by simp [PropertyDescriptor.obj_ofProperty])) fun _ => ?_
    split
    · exact .throw trivial
    · next hcompatible =>
      refine .ite (fun _ => .throw trivial) fun hfixed => .ite (fun _ => .throw trivial)
        fun hreadonly => .pure fun _ => ?_
      rw [hconfigurable] at hfixed hreadonly
      have hvalid : p.validate desc.fields = true := by
        have hagree := (isCompatible_iff c.extensible desc proxy.target p).2 (hconfuses p hp)
        rw [hcompatible] at hagree
        exact hagree.symm
      have hadmits (h : p.configurable = false) : p.Admits desc.fields := (Ordinary.Property.validate_iff h).1 hvalid
      refine ⟨fun p' h h' => ?_, fun h => ⟨p, hp, ?_⟩, fun h p' h' hfalse => ?_⟩
      · cases hp.symm.trans h
        exact hadmits h'
      · simpa [configurable_fields.1 h] using hfixed
      · cases hp.symm.trans h'
        obtain ⟨value, writable, hcontent⟩ := (hadmits hfalse).data_of_writable h
        have hdata := (PropertyDescriptor.isDataDescriptor_ofProperty proxy.target p).2
          (Ordinary.Property.descriptor_isData.2 ⟨value, writable, hcontent⟩)
        rw [hdata, hfalse, hwritable, Ordinary.Property.descriptor_writable_getD hcontent,
          writable_fields.1 h] at hreadonly
        exact ⟨value, by rw [hcontent, show writable = false by simpa using hreadonly]⟩

lemma runs_checkDefined_of_confuses {c : Target} {id : PropertyKey} {desc : PropertyDescriptor}
    {p : Property} (hp : c.property id = some p) (h : Confuses p desc.fields) :
    Runs (checkDefined c.extensible desc (proxy.ownDescriptor c id)) c
      (fun r final => r = true ∧ ¬ Accepted c final id desc.fields) fun _ _ => False := by
  obtain ⟨hconfigurable, -⟩ := flags_ofProperty proxy.target p
  obtain ⟨haccepted, hadmits⟩ := h.accepted c.extensible proxy.target
  have hwritable : ¬ (desc.hasWritable && !desc.writable) = true := fun hc => by
    simpa [h.writable] using writable_fields.2 hc
  unfold checkDefined
  rw [ownDescriptor_some hp, haccepted, hconfigurable, h.1, Bool.eq_false_of_not_eq_true hwritable]
  refine .ite (fun h => absurd h (by simp [PropertyDescriptor.obj_ofProperty])) fun _ =>
    .ite (fun hc => absurd hc (by simp)) fun _ => .ite (fun hc => absurd hc (by simp)) fun _ =>
    .pure ⟨rfl, fun hsound => hadmits (hsound.admits p hp h.1)⟩

variable (proxy) in
/-- The trap claims success for a descriptor that `IsCompatiblePropertyDescriptor` confuses with the
property of the target. -/
def DefinesConfused (id : PropertyKey) (desc : PropertyDescriptor) (trap : Trap) (t : Target) : Prop :=
  ∃ v p, proxy.trapResult? trap = some v ∧ v.toBoolean = true ∧
    (proxy.checkState trap t).property id = some p ∧ Confuses p desc.fields

lemma runs_defineProperty {id : PropertyKey} {desc : PropertyDescriptor} {trap : Trap} {t : Target}
    (h : ¬ proxy.DefinesConfused id desc trap t) :
    Runs (proxy.defineProperty id desc trap) t
      (fun r final => r = true → Accepted (proxy.checkState trap t) final id desc.fields)
      fun _ _ => True := by
  refine runs_withTrap (fun hnone => ?_) (fun v hv => ?_) fun _ _ _ => trivial
  · rw [checkState_of_none hnone]
    refine .bind (.get (.bind (.modify (.pure fun hvalid => ?_))))
    refine ⟨fun p hp hconfigurable => ?_, define_configurable hvalid, fun h p hp _ =>
      define_writable hvalid h hp⟩
    unfold validate at hvalid
    rw [hp] at hvalid
    exact (Ordinary.Property.validate_iff hconfigurable).1 hvalid
  · refine .ite (fun _ => .pure fun hfalse => by simp at hfalse) fun htrue => .bind (.get ?_)
    rw [← checkState_of_some hv]
    refine runs_checkDefined fun p hp hconfuses => h ⟨v, p, hv, by simpa using htrue, hp, hconfuses⟩

lemma runs_defineProperty_of_confused {id : PropertyKey} {desc : PropertyDescriptor} {trap : Trap}
    {t : Target} (h : proxy.DefinesConfused id desc trap t) :
    Runs (proxy.defineProperty id desc trap) t
      (fun r final => r = true ∧ ¬ Accepted (proxy.checkState trap t) final id desc.fields)
      fun _ _ => False := by
  obtain ⟨v, p, hv, htrue, hp, hconfuses⟩ := h
  refine runs_withTrap_of_trapped hv (.ite (fun hfalse => absurd (htrue.symm.trans hfalse) (by decide))
    fun _ => .bind (.get ?_))
  rw [← checkState_of_some hv]
  exact runs_checkDefined_of_confuses hp hconfuses

/-! ## Runs -/

/-- The operations that concern descriptors, and what else is done to the target. -/
inductive Event
  | getOwnPropertyDescriptor (id : PropertyKey) (trap : Trap) (fields : Interaction DescriptorFields)
  | defineProperty (id : PropertyKey) (desc : PropertyDescriptor) (trap : Trap)
  | onTarget (step : TargetStep)

variable (proxy)

def step : Event → Target → Option Target
  | .getOwnPropertyDescriptor id trap fields, t =>
    (proxy.getOwnPropertyDescriptor id trap fields t).map Prod.snd
  | .defineProperty id desc trap, t => (proxy.defineProperty id desc trap t).map Prod.snd
  | .onTarget step, t => some (t.apply step)

/-- What the operation reports or accepts may be reported or accepted. -/
def Sound (t : Target) : Event → Prop
  | .getOwnPropertyDescriptor id trap fields => ∀ desc final,
    proxy.getOwnPropertyDescriptor id trap fields t = some (.ok (some desc), final) →
      Accepted (proxy.checkState trap t) (proxy.checkState trap t) id desc.fields
  | .defineProperty id desc trap => ∀ final, proxy.defineProperty id desc trap t = some (.ok true, final) →
      Accepted (proxy.checkState trap t) final id desc.fields
  | .onTarget _ => True

/-- The operation does not meet a confused descriptor. -/
def Unconfused (t : Target) : Event → Prop
  | .getOwnPropertyDescriptor id trap fields => ¬ proxy.ReportsConfused id trap fields t
  | .defineProperty id desc trap => ¬ proxy.DefinesConfused id desc trap t
  | .onTarget _ => True

lemma sound_iff (t : Target) (e : Event) : proxy.Sound t e ↔ proxy.Unconfused t e := by
  cases e with
  | getOwnPropertyDescriptor id trap fields =>
    refine ⟨fun hsound hconfused => ?_, fun h desc final heq => ?_⟩
    · obtain ⟨r, final, heq, hr⟩ := runs_getOwnPropertyDescriptor_of_confused hconfused
      cases r with
      | ok r =>
        obtain ⟨desc, rfl, hnot⟩ := hr
        exact hnot (hsound desc final heq)
      | error e => exact hr
    · obtain ⟨r, final', heq', hr⟩ := runs_getOwnPropertyDescriptor h
      cases heq.symm.trans heq'
      exact hr desc rfl
  | defineProperty id desc trap =>
    refine ⟨fun hsound hconfused => ?_, fun h final heq => ?_⟩
    · obtain ⟨r, final, heq, hr⟩ := runs_defineProperty_of_confused hconfused
      cases r with
      | ok r =>
        obtain ⟨rfl, hnot⟩ := hr
        exact hnot (hsound final heq)
      | error e => exact hr
    · obtain ⟨r, final', heq', hr⟩ := runs_defineProperty h
      cases heq.symm.trans heq'
      exact hr rfl
  | onTarget step => rfl

/-- The function agrees with the specification exactly for the descriptors that are not confused, and the
operations of a run are right exactly as long as they do not meet a confused descriptor. -/
theorem descriptor_traps_sound_iff :
    (∀ extensible desc obj p, (isCompatiblePropertyDescriptor extensible desc (.ofProperty obj p)).isNone =
      p.validate desc.fields ↔ ¬ Confuses p desc.fields) ∧
    (∀ extensible desc, (isCompatiblePropertyDescriptor extensible desc
      ⟨none, 0, none, none, .undefined⟩).isNone = extensible) ∧
    ∀ events t, EventRun.Along proxy.Sound proxy.step events t ↔
      EventRun.Along proxy.Unconfused proxy.step events t := by
  refine ⟨isCompatible_iff, fun extensible desc => ?_, fun events t => ?_⟩
  · cases extensible <;> rfl
  · have heq : proxy.Sound = proxy.Unconfused := by
      funext t e
      exact propext (proxy.sound_iff t e)
    rw [heq]

/-! ## A getter that is undefined -/

def fixedKey : PropertyKey := .string (.ofAscii "x")

def fixedProperty : Property := ⟨.data (.boolean true) false, false, false⟩

/-- An empty object with a property that is neither writable nor configurable. -/
def fixedTarget : Target :=
  store fixedKey fixedProperty
    ⟨none, true, [], fun _ => none, List.nodup_nil, fun _ => by simp⟩

def undefinedGetterProxy : ProxyObject := ⟨0, some 1, 2, fun _ => true⟩

/-- The trap returns an object whose only field is a getter, which is undefined. -/
def undefinedGetterTrap : Trap := ⟨⟨[], some (.object 3)⟩, ⟨[], some (.object 4)⟩⟩

def undefinedGetter : DescriptorFields := ⟨none, none, none, none, some .undefined, none⟩

/-- The data property is reported as an accessor property. -/
theorem not_sound_undefinedGetter : ¬ undefinedGetterProxy.Sound fixedTarget
    (.getOwnPropertyDescriptor fixedKey undefinedGetterTrap ⟨[], some undefinedGetter⟩) := by
  have hproperty : fixedTarget.property fixedKey = some fixedProperty := by
    simp [fixedTarget, store]
  have hconfuses : Confuses fixedProperty undefinedGetter.property.descriptor :=
    ⟨rfl, by decide, .inr rfl, .inl (by decide), .inr rfl, .inr rfl⟩
  have hattributes : undefinedGetter.attributes =
      attributesOf none none false none true false := undefinedGetter.attributes_eq
  have hdesc : toPropertyDescriptor undefinedGetterProxy.isCallable undefinedGetter ≠ none := by
    show (if undefinedGetter.attributes &&& JSPROP_IGNORE_READONLY = 0 ∨
      undefinedGetter.attributes &&& JSPROP_IGNORE_VALUE = 0 then none else some _) ≠ none
    rw [hattributes, if_neg (by decide)]
    simp
  rw [sound_iff]
  exact not_not.2 ⟨4, undefinedGetter, fixedProperty, rfl, rfl, hdesc, hproperty, hconfuses⟩

end ProxyObject

end SpiderMonkey.Proxy

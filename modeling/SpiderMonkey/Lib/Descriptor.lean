import Mathlib.Tactic

/-!
# Property descriptors

The properties of an object of the language and the descriptors that ask for a change of one.  Values and
functions are of any type; two values are the same value if they are equal, and `default` is the
undefined value.
-/

namespace Ordinary

variable {V F : Type}

/-! ## Descriptors -/

/-- What a descriptor says about a property.  A field may be absent; a getter or setter that is present
may be undefined. -/
@[ext]
structure Descriptor (V F : Type) where
  value : Option V
  writable : Option Bool
  get : Option (Option F)
  set : Option (Option F)
  enumerable : Option Bool
  configurable : Option Bool
  unmixed : (value = none ∧ writable = none) ∨ (get = none ∧ set = none)

namespace Descriptor

variable {d : Descriptor V F}

def IsData (d : Descriptor V F) : Prop := d.value ≠ none ∨ d.writable ≠ none

def IsAccessor (d : Descriptor V F) : Prop := d.get ≠ none ∨ d.set ≠ none

instance : Decidable d.IsData := inferInstanceAs (Decidable (_ ∨ _))

instance : Decidable d.IsAccessor := inferInstanceAs (Decidable (_ ∨ _))

lemma IsData.not_isAccessor (h : d.IsData) : ¬ d.IsAccessor := by
  obtain ⟨hvalue, hwritable⟩ | ⟨hget, hset⟩ := d.unmixed
  · exact absurd h (by simp [IsData, hvalue, hwritable])
  · simp [IsAccessor, hget, hset]

def IsGeneric (d : Descriptor V F) : Prop := ¬ d.IsData ∧ ¬ d.IsAccessor

instance : Decidable d.IsGeneric := inferInstanceAs (Decidable (_ ∧ _))

lemma IsGeneric.fields (h : d.IsGeneric) : d.value = none ∧ d.writable = none ∧ d.get = none ∧ d.set = none := by
  simpa [IsGeneric, IsData, IsAccessor, and_assoc] using h

def IsEmpty (d : Descriptor V F) : Prop :=
  d.IsGeneric ∧ d.enumerable = none ∧ d.configurable = none

instance : Decidable d.IsEmpty := inferInstanceAs (Decidable (_ ∧ _))

end Descriptor

/-- A field of a descriptor is absent, or asks for what is there. -/
def Agrees {α : Type} (field current : Option α) : Prop := field = none ∨ field = current

instance {α : Type} [DecidableEq α] (a b : Option α) : Decidable (Agrees a b) :=
  inferInstanceAs (Decidable (_ ∨ _))

lemma agrees_bool {field : Option Bool} {b : Bool} : Agrees field (some b) ↔ field ≠ some (!b) := by
  cases field with
  | none => simp [Agrees]
  | some c => cases c <;> cases b <;> simp [Agrees]

/-! ## Properties -/

inductive Content (V F : Type)
  | data (value : V) (writable : Bool)
  | accessor (get set : Option F)
  deriving DecidableEq

structure Property (V F : Type) where
  content : Content V F
  enumerable : Bool
  configurable : Bool

namespace Property

variable {p : Property V F} {d : Descriptor V F}

/-- The descriptor with all fields of the property. -/
def descriptor (p : Property V F) : Descriptor V F :=
  match p.content with
  | .data value writable =>
    ⟨some value, some writable, none, none, some p.enumerable, some p.configurable, .inr ⟨rfl, rfl⟩⟩
  | .accessor get set =>
    ⟨none, none, some get, some set, some p.enumerable, some p.configurable, .inl ⟨rfl, rfl⟩⟩

/-- Every field of the descriptor is a field of the property, with the same value. -/
def Includes (p : Property V F) (d : Descriptor V F) : Prop :=
  Agrees d.value p.descriptor.value ∧ Agrees d.writable p.descriptor.writable ∧
    Agrees d.get p.descriptor.get ∧ Agrees d.set p.descriptor.set ∧
    Agrees d.enumerable p.descriptor.enumerable ∧ Agrees d.configurable p.descriptor.configurable

instance [DecidableEq V] [DecidableEq F] : Decidable (p.Includes d) :=
  inferInstanceAs (Decidable (_ ∧ _))

/-- The check of a descriptor of the same kind as the property. -/
def validateContent [DecidableEq V] [DecidableEq F] (configurable : Bool) (d : Descriptor V F) : Content V F → Bool
  | .data value writable =>
    if configurable = false ∧ writable = false then
      if d.writable = some true then false else decide (Agrees d.value (some value))
    else true
  | .accessor get set =>
    if configurable = false then decide (Agrees d.set (some set) ∧ Agrees d.get (some get)) else true

/-- The check of a descriptor that asks for a change. -/
def validateChange [DecidableEq V] [DecidableEq F] (p : Property V F) (d : Descriptor V F) : Bool :=
  if p.configurable = false ∧ d.configurable = some true then false
  else if p.configurable = false ∧ d.enumerable = some (!p.enumerable) then false
  else if d.IsGeneric then true
  else if p.descriptor.IsData ↔ d.IsData then validateContent p.configurable d p.content
  else p.configurable

/-- Whether `ValidateAndApplyPropertyDescriptor` accepts a change of the property. -/
def validate [DecidableEq V] [DecidableEq F] (p : Property V F) (d : Descriptor V F) : Bool :=
  if d.IsEmpty then true
  else if p.Includes d then true
  else p.validateChange d

/-- A descriptor that asks for no change of what is fixed in a property that is not configurable. -/
def Admits (p : Property V F) (d : Descriptor V F) : Prop :=
  d.configurable ≠ some true ∧ Agrees d.enumerable (some p.enumerable) ∧ match p.content with
    | .data value writable =>
      ¬ d.IsAccessor ∧ (writable = false → d.writable ≠ some true ∧ Agrees d.value (some value))
    | .accessor get set => ¬ d.IsData ∧ Agrees d.get (some get) ∧ Agrees d.set (some set)

lemma descriptor_isData : p.descriptor.IsData ↔ ∃ value writable, p.content = .data value writable := by
  obtain ⟨content, enumerable, configurable⟩ := p
  cases content <;> simp [descriptor, Descriptor.IsData]

lemma descriptor_configurable (p : Property V F) : p.descriptor.configurable = some p.configurable := by
  obtain ⟨content, enumerable, configurable⟩ := p
  cases content <;> rfl

lemma descriptor_writable_getD {value : V} {writable : Bool} (h : p.content = .data value writable) :
    p.descriptor.writable.getD true = writable := by
  obtain ⟨content, enumerable, configurable⟩ := p
  subst h
  rfl

lemma admits_of_isGeneric (h : d.IsGeneric) :
    p.Admits d ↔ d.configurable ≠ some true ∧ Agrees d.enumerable (some p.enumerable) := by
  obtain ⟨hvalue, hwritable, hget, hset⟩ := h.fields
  unfold Admits
  cases p.content with
  | data value writable => simp [h.2, hvalue, hwritable, Agrees]
  | accessor get set => simp [h.1, hget, hset, Agrees]

lemma Includes.admits (h : p.Includes d) (hp : p.configurable = false) : p.Admits d := by
  obtain ⟨content, enumerable, configurable⟩ := p
  subst hp
  cases content with
  | data value writable =>
    obtain ⟨hvalue, hwritable, hget, hset, henumerable, hconfigurable⟩ := h
    refine ⟨agrees_bool.1 hconfigurable, henumerable, ?_, ?_⟩
    · rintro (hne | hne)
      · exact hne (or_self_iff.1 hget)
      · exact hne (or_self_iff.1 hset)
    · rintro rfl
      exact ⟨agrees_bool.1 hwritable, hvalue⟩
  | accessor get set =>
    obtain ⟨hvalue, hwritable, hget, hset, henumerable, hconfigurable⟩ := h
    refine ⟨agrees_bool.1 hconfigurable, henumerable, ?_, hget, hset⟩
    rintro (hne | hne)
    · exact hne (or_self_iff.1 hvalue)
    · exact hne (or_self_iff.1 hwritable)

lemma Admits.data_of_writable (h : p.Admits d) {b : Bool} (hwritable : d.writable = some b) :
    ∃ value writable, p.content = .data value writable := by
  obtain ⟨-, -, hcontent⟩ := h
  cases hcase : p.content with
  | data value writable => exact ⟨value, writable, rfl⟩
  | accessor get set =>
    rw [hcase] at hcontent
    exact absurd (.inr (by simp [hwritable])) hcontent.1

lemma isAccessor_of_not (h : ¬ d.IsGeneric) (hdata : ¬ d.IsData) : d.IsAccessor :=
  not_not.1 fun haccessor => h ⟨hdata, haccessor⟩

variable [DecidableEq V] [DecidableEq F]

lemma validateChange_of_configurable (h : p.configurable = true) : p.validateChange d = true := by
  have hne : p.configurable ≠ false := by simp [h]
  unfold validateChange
  split_ifs with h₁ h₂ h₃ h₄
  · exact absurd h₁.1 hne
  · exact absurd h₂.1 hne
  · rfl
  · cases p.content with
    | data value writable => exact if_neg fun hc => hne hc.1
    | accessor get set => exact if_neg hne
  · exact h

/-- Kinds that agree leave the comparison of the values, the getters and the setters. -/
lemma validateContent_iff (hkind : p.descriptor.IsData ↔ d.IsData)
    (hp : p.configurable = false) (hconfigurable : d.configurable ≠ some true)
    (henumerable : d.enumerable ≠ some (!p.enumerable)) :
    validateContent p.configurable d p.content = true ↔ p.Admits d := by
  obtain ⟨content, enumerable, configurable⟩ := p
  subst hp
  unfold Admits
  simp only [hconfigurable, agrees_bool.2 henumerable, ne_eq, not_false_eq_true, true_and]
  cases content with
  | data value writable =>
    have hdata : d.IsData := hkind.1 (.inl (by simp [descriptor]))
    cases writable <;> simp [validateContent, hdata.not_isAccessor]
  | accessor get set =>
    have hdata : ¬ d.IsData := fun h => by simpa [descriptor, Descriptor.IsData] using hkind.2 h
    simp [validateContent, hdata, and_comm]

omit [DecidableEq V] [DecidableEq F] in
lemma not_admits_of_kinds (hgeneric : ¬ d.IsGeneric) (hkind : ¬ (p.descriptor.IsData ↔ d.IsData)) : ¬ p.Admits d := by
  obtain ⟨content, enumerable, configurable⟩ := p
  rintro ⟨-, -, hcontent⟩
  cases content with
  | data value writable =>
    refine hcontent.1 (isAccessor_of_not hgeneric fun hdata => hkind ⟨fun _ => hdata, fun _ => ?_⟩)
    exact .inl (by simp [descriptor])
  | accessor get set =>
    refine hkind ⟨fun h => ?_, fun h => absurd h hcontent.1⟩
    simp [descriptor, Descriptor.IsData] at h

lemma validateChange_iff (h : p.configurable = false) : p.validateChange d = true ↔ p.Admits d := by
  unfold validateChange
  split_ifs with h₁ h₂ h₃ h₄
  · simp [Admits, h₁.2]
  · simp [Admits, h₂.2, agrees_bool]
  · rw [admits_of_isGeneric h₃, agrees_bool]
    simp only [h, true_and] at h₁ h₂
    simp [h₁, h₂]
  · exact validateContent_iff h₄ h (fun hc => h₁ ⟨h, hc⟩) fun he => h₂ ⟨h, he⟩
  · simp [h, not_admits_of_kinds h₃ h₄]

/-- A property that is not configurable accepts what it admits. -/
theorem validate_iff (h : p.configurable = false) : p.validate d = true ↔ p.Admits d := by
  unfold validate
  split_ifs with h₁ h₂
  · rw [admits_of_isGeneric h₁.1, h₁.2.1, h₁.2.2]
    simp [Agrees]
  · simp [h₂.admits h]
  · exact validateChange_iff h

/-! ## What a descriptor makes -/

end Property

/-- The property made of a descriptor and of the defaults. -/
def Descriptor.create [Inhabited V] (d : Descriptor V F) : Property V F where
  content :=
    if d.IsAccessor then .accessor (d.get.getD none) (d.set.getD none)
    else .data (d.value.getD default) (d.writable.getD false)
  enumerable := d.enumerable.getD false
  configurable := d.configurable.getD false

namespace Property

/-- The property changed as the descriptor says. -/
def update [Inhabited V] (p : Property V F) (d : Descriptor V F) : Property V F where
  content :=
    if d.IsGeneric then p.content
    else
      match p.content with
      | .data value writable =>
        if d.IsData then .data (d.value.getD value) (d.writable.getD writable) else d.create.content
      | .accessor get set =>
        if d.IsAccessor then .accessor (d.get.getD get) (d.set.getD set) else d.create.content
  enumerable := d.enumerable.getD p.enumerable
  configurable := d.configurable.getD p.configurable

/-- What stays as it is in a property that is not configurable. -/
def Keeps (p p' : Property V F) : Prop :=
  p'.configurable = false ∧ p'.enumerable = p.enumerable ∧ match p.content with
    | .data value writable => ∃ value' writable', p'.content = .data value' writable' ∧
        (writable = false → value' = value ∧ writable' = false)
    | .accessor get set => p'.content = .accessor get set

lemma keeps_refl {p : Property V F} (h : p.configurable = false) : p.Keeps p := by
  refine ⟨h, rfl, ?_⟩
  cases hcontent : p.content with
  | data value writable => exact ⟨value, writable, rfl, fun hw => ⟨rfl, hw⟩⟩
  | accessor get set => rfl

lemma Keeps.trans {p p' p'' : Property V F} (h : p.Keeps p') (h' : p'.Keeps p'') : p.Keeps p'' := by
  obtain ⟨-, henumerable, hcontent⟩ := h
  obtain ⟨hconfigurable, henumerable', hcontent'⟩ := h'
  refine ⟨hconfigurable, henumerable'.trans henumerable, ?_⟩
  cases heq : p.content with
  | data value writable =>
    rw [heq] at hcontent
    obtain ⟨value', writable', heq', hsame⟩ := hcontent
    rw [heq'] at hcontent'
    obtain ⟨value'', writable'', heq'', hsame'⟩ := hcontent'
    refine ⟨value'', writable'', heq'', fun hw => ?_⟩
    obtain ⟨rfl, rfl⟩ := hsame hw
    exact hsame' rfl
  | accessor get set =>
    rw [heq] at hcontent
    have hcontent : p'.content = .accessor get set := hcontent
    rw [hcontent] at hcontent'
    exact hcontent'

lemma agrees_getD {α : Type} {field : Option α} {x : α} (h : Agrees field (some x)) : field.getD x = x := by
  obtain rfl | rfl := h <;> rfl

lemma Admits.keeps_update [Inhabited V] {p : Property V F} {d : Descriptor V F}
    (hp : p.configurable = false) (h : p.Admits d) : p.Keeps (p.update d) := by
  obtain ⟨hconfigurable, henumerable, hcontent⟩ := h
  have hgeneric : d.IsGeneric → ∀ content, p.content = content → (p.update d).content = content := by
    rintro hgeneric content rfl
    exact if_pos hgeneric
  refine ⟨?_, agrees_getD henumerable, ?_⟩
  · show d.configurable.getD p.configurable = false
    rw [hp]
    exact agrees_getD (agrees_bool.2 hconfigurable)
  cases hcase : p.content with
  | data value writable =>
    rw [hcase] at hcontent
    by_cases hg : d.IsGeneric
    · exact ⟨value, writable, hgeneric hg _ hcase, fun hw => ⟨rfl, hw⟩⟩
    have hdata : d.IsData := not_not.1 fun hdata => hg ⟨hdata, hcontent.1⟩
    refine ⟨d.value.getD value, d.writable.getD writable, ?_, fun hw => ?_⟩
    · simp [update, hg, hcase, hdata]
    · obtain ⟨hwritable, hvalue⟩ := hcontent.2 hw
      subst hw
      exact ⟨agrees_getD hvalue, agrees_getD (agrees_bool.2 hwritable)⟩
  | accessor get set =>
    rw [hcase] at hcontent
    obtain ⟨hdata, hget, hset⟩ := hcontent
    by_cases hg : d.IsGeneric
    · exact hgeneric hg _ hcase
    have haccessor : d.IsAccessor := isAccessor_of_not hg hdata
    simp [update, hg, hcase, haccessor, agrees_getD hget, agrees_getD hset]

/-! ## What is made is as the descriptor says -/

end Property

lemma Descriptor.create_writable [Inhabited V] {d : Descriptor V F} {b : Bool} (h : d.writable = some b) :
    ∃ value, d.create.content = .data value b := by
  have hdata : d.IsData := .inr (by simp [h])
  exact ⟨d.value.getD default, by simp [create, hdata.not_isAccessor, h]⟩

lemma Property.update_writable [Inhabited V] (p : Property V F) {d : Descriptor V F} {b : Bool}
    (h : d.writable = some b) : ∃ value, (p.update d).content = .data value b := by
  have hdata : d.IsData := .inr (by simp [h])
  have hgeneric : ¬ d.IsGeneric := fun hg => hg.1 hdata
  obtain ⟨value, hvalue⟩ := d.create_writable h
  obtain ⟨content, enumerable, configurable⟩ := p
  cases content with
  | data value writable => exact ⟨d.value.getD value, by simp [update, hgeneric, hdata, h]⟩
  | accessor get set => exact ⟨value, by simp [update, hgeneric, hdata.not_isAccessor, hvalue]⟩

end Ordinary

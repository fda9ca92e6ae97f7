import SpiderMonkey.Proxy.PropertyDescriptor

/-!
# Compatible property descriptors

`IsCompatiblePropertyDescriptor` of `ScriptedProxyHandler.cpp` against
`ValidateAndApplyPropertyDescriptor`.  The two differ where step 4 compares a field that is present with
one that the other kind of property does not have.
-/

namespace SpiderMonkey.Proxy

open Ordinary.Descriptor Ordinary.Property PropertyDescriptor Option Ordinary

open Ordinary (Agrees)

/-- The details of the error, or `none` if the descriptor is compatible. -/
def isCompatiblePropertyDescriptor (extensible : Bool) (desc current : PropertyDescriptor) : Option String :=
  -- Step 2.
  if current.obj = none then
    if extensible = false then some "proxy can't report an extensible object as non-extensible" else none
  -- Step 3.
  else if !desc.hasValue && !desc.hasWritable && !desc.hasGetterObject && !desc.hasSetterObject &&
      !desc.hasEnumerable && !desc.hasConfigurable then none
  -- Step 4.
  else if ((!desc.hasWritable || (current.hasWritable && desc.writable == current.writable)) &&
      (!desc.hasGetterObject || desc.getter == current.getter) &&
      (!desc.hasSetterObject || desc.setter == current.setter) &&
      (!desc.hasEnumerable || desc.enumerable == current.enumerable) &&
      (!desc.hasConfigurable || desc.configurable == current.configurable)) &&
      (!desc.hasValue || desc.value == current.value) then none
  -- Step 5.
  else if !current.configurable && (desc.hasConfigurable && desc.configurable) then
    some "proxy can't report an existing non-configurable property as configurable"
  else if !current.configurable && (desc.hasEnumerable && desc.enumerable != current.enumerable) then
    some "proxy can't report a different 'enumerable' from target when target is not configurable"
  -- Step 6.
  else if desc.isGenericDescriptor then none
  -- Step 7.
  else if current.isDataDescriptor != desc.isDataDescriptor then
    if !current.configurable then
      some "proxy can't report a different descriptor type when target is not configurable"
    else none
  -- Step 8.
  else if current.isDataDescriptor then
    if !current.configurable && !current.writable then
      if desc.hasWritable && desc.writable then
        some "proxy can't report a non-configurable, non-writable property as writable"
      else if desc.hasValue && desc.value != current.value then
        some "proxy must report the same value for the non-writable, non-configurable property"
      else none
    else none
  -- Step 9.
  else if current.configurable then none
  else if desc.hasSetterObject && desc.setter != current.setter then
    some "proxy can't report different setters for a currently non-configurable property"
  else if desc.hasGetterObject && desc.getter != current.getter then
    some "proxy can't report different getters for a currently non-configurable property"
  else none

/-! ## Step 4 -/

/-- The comparison of step 4: a data property counts as one without getter and setter, an accessor
property as one whose value is undefined. -/
def LooksIncluded (p : Property) (d : Descriptor) : Prop :=
  Agrees d.writable p.descriptor.writable ∧ Agrees d.get (some (p.descriptor.get.getD none)) ∧
    Agrees d.set (some (p.descriptor.set.getD none)) ∧ Agrees d.enumerable (some p.enumerable) ∧
    Agrees d.configurable (some p.configurable) ∧
    Agrees d.value (some (p.descriptor.value.getD .undefined))

instance (p : Property) (d : Descriptor) : Decidable (LooksIncluded p d) :=
  inferInstanceAs (Decidable (_ ∧ _))

/-- The descriptors of the other kind that step 4 takes for no change of a property that is not
configurable: getters and setters that are undefined for a data property, or the undefined value for an
accessor property. -/
def Confuses (p : Property) (d : Descriptor) : Prop :=
  p.configurable = false ∧ d.configurable ≠ some true ∧ Agrees d.enumerable (some p.enumerable) ∧ match p.content with
    | .data _ _ => d.IsAccessor ∧ Agrees d.get (some none) ∧ Agrees d.set (some none)
    | .accessor _ _ => d.value = some .undefined ∧ d.writable = none

lemma includes_looksIncluded {p : Property} {d : Descriptor} (h : p.Includes d) : LooksIncluded p d := by
  obtain ⟨content, enumerable, configurable⟩ := p
  cases content with
  | data value writable =>
    obtain ⟨hvalue, hwritable, hget, hset, henumerable, hconfigurable⟩ := h
    exact ⟨hwritable, .inl (or_self_iff.1 hget), .inl (or_self_iff.1 hset), henumerable, hconfigurable, hvalue⟩
  | accessor get set =>
    obtain ⟨hvalue, hwritable, hget, hset, henumerable, hconfigurable⟩ := h
    exact ⟨hwritable, hget, hset, henumerable, hconfigurable, .inl (or_self_iff.1 hvalue)⟩

/-- Step 4 goes wrong for the confused descriptors and for no others. -/
lemma looksIncluded_iff {p : Property} {d : Descriptor} (hp : p.configurable = false) :
    LooksIncluded p d ∧ ¬ p.Admits d ↔ Confuses p d := by
  obtain ⟨content, enumerable, configurable⟩ := p
  subst hp
  cases content with
  | data value writable =>
    constructor
    · rintro ⟨⟨hwritable, hget, hset, henumerable, hconfigurable, hvalue⟩, hadmits⟩
      refine ⟨rfl, agrees_bool.1 hconfigurable, henumerable, ?_, hget, hset⟩
      refine not_not.1 fun haccessor => hadmits ⟨agrees_bool.1 hconfigurable, henumerable, haccessor, ?_⟩
      rintro rfl
      exact ⟨agrees_bool.1 hwritable, hvalue⟩
    · rintro ⟨-, hconfigurable, henumerable, haccessor, hget, hset⟩
      have hdata : ¬ d.IsData := fun hdata => hdata.not_isAccessor haccessor
      obtain ⟨hvalue, hwritable⟩ : d.value = none ∧ d.writable = none := by
        simpa [IsData] using hdata
      refine ⟨⟨.inl hwritable, hget, hset, henumerable, ?_, .inl hvalue⟩, ?_⟩
      · exact agrees_bool.2 hconfigurable
      · exact fun hadmits => hadmits.2.2.1 haccessor
  | accessor get set =>
    constructor
    · rintro ⟨⟨hwritable, hget, hset, henumerable, hconfigurable, hvalue⟩, hadmits⟩
      have hwritable : d.writable = none := or_self_iff.1 hwritable
      refine ⟨rfl, agrees_bool.1 hconfigurable, henumerable, ?_, hwritable⟩
      refine hvalue.resolve_left fun hnone => hadmits ⟨agrees_bool.1 hconfigurable,
        henumerable, ?_, hget, hset⟩
      simp [IsData, hnone, hwritable]
    · rintro ⟨-, hconfigurable, henumerable, hvalue, hwritable⟩
      have hdata : d.IsData := .inl (by simp [hvalue])
      obtain ⟨hget, hset⟩ : d.get = none ∧ d.set = none := by
        simpa [IsAccessor] using hdata.not_isAccessor
      refine ⟨⟨.inl hwritable, .inl hget, .inl hset, henumerable, ?_, .inr hvalue⟩, ?_⟩
      · exact agrees_bool.2 hconfigurable
      · exact fun hadmits => hadmits.2.2.1 hdata

/-! ## The function on what a descriptor says -/

/-- The steps of the function on fields. -/
def looksCompatible (p : Property) (d : Descriptor) : Bool :=
  if d.IsEmpty then true
  else if LooksIncluded p d then true
  else p.validateChange d

lemma looksCompatible_of_configurable {p : Property} {d : Descriptor} (h : p.configurable = true) :
    looksCompatible p d = true ∧ p.validate d = true := by
  unfold looksCompatible validate
  simp [validateChange_of_configurable h]

theorem looksCompatible_iff (p : Property) (d : Descriptor) : looksCompatible p d = p.validate d ↔ ¬ Confuses p d := by
  cases hp : p.configurable with
  | true =>
    obtain ⟨h, h'⟩ := looksCompatible_of_configurable (d := d) hp
    rw [h, h']
    exact iff_of_true rfl fun hconfuses => absurd (hconfuses.1.symm.trans hp) (by decide)
  | false =>
    have hvalid := validate_iff (d := d) hp
    rw [← looksIncluded_iff hp, not_and_not_right]
    unfold looksCompatible
    split_ifs with hempty hlooks
    · have hadmits : p.validate d = true := if_pos hempty
      exact iff_of_true hadmits.symm fun _ => hvalid.1 hadmits
    · rw [eq_comm, hvalid]
      exact ⟨fun h _ => h, fun h => h hlooks⟩
    · have hincludes : ¬ p.Includes d := fun h => hlooks (includes_looksIncluded h)
      refine iff_of_true ?_ fun h => absurd h hlooks
      unfold validate
      rw [if_neg hempty, if_neg hincludes]

/-! ## The function itself -/

lemma isEmpty_iff (desc : PropertyDescriptor) : desc.fields.IsEmpty ↔
    (!desc.hasValue && !desc.hasWritable && !desc.hasGetterObject && !desc.hasSetterObject &&
      !desc.hasEnumerable && !desc.hasConfigurable) = true := by
  simp [Ordinary.Descriptor.IsEmpty, Ordinary.Descriptor.IsGeneric, Ordinary.Descriptor.IsData,
    Ordinary.Descriptor.IsAccessor, PropertyDescriptor.fields, and_assoc]

lemma agrees_field {α : Type} [BEq α] [LawfulBEq α] {has : Bool} {x : α} {current : Option α} (y : α) :
    Agrees (if has = true then some x else none) current ↔
      (!has || (current.isSome && x == current.getD y)) = true := by
  cases has <;> cases current <;> simp [Agrees]

lemma isCompatible_content (desc : PropertyDescriptor) (obj : ℕ) (p : Property) :
    (if (ofProperty obj p).isDataDescriptor = true then
      if (!p.configurable && !(ofProperty obj p).writable) = true then
        if (desc.hasWritable && desc.writable) = true then
          some "proxy can't report a non-configurable, non-writable property as writable"
        else if (desc.hasValue && desc.value != (ofProperty obj p).value) = true then
          some "proxy must report the same value for the non-writable, non-configurable property"
        else none
      else none
    else if p.configurable = true then none
    else if (desc.hasSetterObject && desc.setter != (ofProperty obj p).setter) = true then
      some "proxy can't report different setters for a currently non-configurable property"
    else if (desc.hasGetterObject && desc.getter != (ofProperty obj p).getter) = true then
      some "proxy can't report different getters for a currently non-configurable property"
    else none).isNone = validateContent p.configurable desc.fields p.content := by
  obtain ⟨-, -, hwritable, -, -, -, -, -, -⟩ :=
    flags_of_property (attrs_ofProperty obj p)
  have hdata := isDataDescriptor_ofProperty obj p
  rw [hwritable]
  obtain ⟨content, enumerable, configurable⟩ := p
  cases content with
  | data value writable =>
    rw [if_pos (hdata.2 (.inl (by simp [descriptor])))]
    have hvalue : (ofProperty obj ⟨.data value writable, enumerable,
      configurable⟩).value = value := rfl
    rw [hvalue]
    simp only [validateContent, descriptor, getD_some]
    cases configurable <;> cases writable <;> simp [fields]
    by_cases hhas : desc.hasValue = true <;> by_cases h : desc.value = value <;>
      cases desc.hasWritable <;> cases desc.writable <;> simp [Agrees, hhas, h]
  | accessor get set =>
    rw [if_neg fun h => absurd (hdata.1 h) (by simp [descriptor, IsData])]
    have hget : (ofProperty obj ⟨.accessor get set, enumerable, configurable⟩).getter = get := rfl
    have hset : (ofProperty obj ⟨.accessor get set, enumerable, configurable⟩).setter = set := rfl
    rw [hget, hset]
    simp only [validateContent]
    cases configurable <;> simp [fields]
    by_cases hhas : desc.hasSetterObject = true <;> by_cases hhas' : desc.hasGetterObject = true <;>
      by_cases h : desc.setter = set <;> by_cases h' : desc.getter = get <;>
      simp [Agrees, hhas, hhas', h, h']

lemma isCompatible_ofProperty (extensible : Bool) (desc : PropertyDescriptor) (obj : ℕ) (p : Property) :
    (isCompatiblePropertyDescriptor extensible desc (.ofProperty obj p)).isNone = looksCompatible p desc.fields := by
  obtain ⟨-, hhasWritable, hwritable, -, -, -, henumerable, -, hconfigurable⟩ :=
    flags_of_property (attrs_ofProperty obj p)
  have hobj : (ofProperty obj p).obj ≠ none := by
    simp [obj_ofProperty]
  unfold isCompatiblePropertyDescriptor looksCompatible
  rw [if_neg hobj, apply_ite isNone]
  refine if_congr (isEmpty_iff desc).symm rfl ?_
  rw [apply_ite isNone]
  refine if_congr ?_ rfl ?_
  · rw [getter_ofProperty, setter_ofProperty,
      value_ofProperty, hhasWritable, hwritable, henumerable, hconfigurable]
    simp only [LooksIncluded, fields, agrees_field true, agrees_field none,
      agrees_field Value.undefined, isSome_some, getD_some, Bool.true_and, Bool.and_eq_true]
    simp only [and_assoc]
  unfold validateChange
  rw [hconfigurable, henumerable, apply_ite isNone]
  refine if_congr ?_ rfl ?_
  · simp [fields]
  rw [apply_ite isNone]
  refine if_congr ?_ rfl ?_
  · cases h : desc.enumerable <;> cases h' : p.enumerable <;>
      simp [fields, h]
  rw [apply_ite isNone]
  refine if_congr desc.isGeneric_fields.symm rfl ?_
  have hkind : (ofProperty obj p).isDataDescriptor = desc.isDataDescriptor ↔
      (p.descriptor.IsData ↔ desc.fields.IsData) := by
    rw [Bool.eq_iff_iff, isDataDescriptor_ofProperty, desc.isData_fields]
  by_cases hsame : p.descriptor.IsData ↔ desc.fields.IsData
  · rw [if_pos hsame, if_neg (by simp [hkind.2 hsame])]
    exact isCompatible_content desc obj p
  · rw [if_neg hsame, if_pos (by simp [hkind, hsame])]
    cases p.configurable <;> rfl

/-- The function agrees with the specification, except for the confused descriptors, which it accepts
where the specification does not. -/
theorem isCompatible_iff (extensible : Bool) (desc : PropertyDescriptor) (obj : ℕ) (p : Property) :
    (isCompatiblePropertyDescriptor extensible desc (.ofProperty obj p)).isNone =
      p.validate desc.fields ↔ ¬ Confuses p desc.fields := by
  rw [isCompatible_ofProperty]
  exact looksCompatible_iff p desc.fields

/-- A confused descriptor is accepted, although the property does not admit it. -/
lemma Confuses.accepted {p : Property} {desc : PropertyDescriptor} (h : Confuses p desc.fields)
    (extensible : Bool) (obj : ℕ) :
    isCompatiblePropertyDescriptor extensible desc (.ofProperty obj p) = none ∧ ¬ p.Admits desc.fields := by
  obtain ⟨hlooks, hadmits⟩ := (looksIncluded_iff h.1).2 h
  refine ⟨?_, hadmits⟩
  rw [← isNone_iff_eq_none, isCompatible_ofProperty]
  unfold looksCompatible
  simp [hlooks]

lemma Confuses.writable {p : Property} {d : Descriptor} (h : Confuses p d) : d.writable = none := by
  obtain ⟨-, -, -, hcontent⟩ := h
  cases hcase : p.content with
  | data value writable =>
    rw [hcase] at hcontent
    have hdata : ¬ d.IsData := fun hdata => hdata.not_isAccessor hcontent.1
    simpa using (not_or.1 hdata).2
  | accessor get set =>
    rw [hcase] at hcontent
    exact hcontent.2

end SpiderMonkey.Proxy

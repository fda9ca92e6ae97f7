import SpiderMonkey.Lib.OrdinaryObject
import SpiderMonkey.Vm.Value

/-!
# Property descriptors of the engine

`PropertyDescriptor.h`: a descriptor is a word of attributes, two pointers and a value.  What it says is
an `Ordinary.Descriptor`.
-/

namespace SpiderMonkey.Proxy

/-! ## Attributes -/

def JSPROP_ENUMERATE : BitVec 32 := 0x01

def JSPROP_READONLY : BitVec 32 := 0x02

def JSPROP_PERMANENT : BitVec 32 := 0x04

def JSPROP_GETTER : BitVec 32 := 0x10

def JSPROP_SETTER : BitVec 32 := 0x20

def JSPROP_IGNORE_ENUMERATE : BitVec 32 := 0x4000

def JSPROP_IGNORE_READONLY : BitVec 32 := 0x8000

def JSPROP_IGNORE_PERMANENT : BitVec 32 := 0x10000

def JSPROP_IGNORE_VALUE : BitVec 32 := 0x20000

/-- Objects are known by their number. -/
@[ext]
structure PropertyDescriptor where
  obj : Option ℕ
  attrs : BitVec 32
  getter : Option ℕ
  setter : Option ℕ
  value : Value

abbrev Descriptor := Ordinary.Descriptor Value ℕ

abbrev Property := Ordinary.Property Value ℕ

namespace PropertyDescriptor

open BitVec

variable (desc : PropertyDescriptor)

def has (bit : BitVec 32) : Bool := desc.attrs &&& bit ≠ 0

def hasAny (bits : BitVec 32) : Bool := desc.attrs &&& bits ≠ 0

def isAccessorDescriptor : Bool := desc.hasAny (JSPROP_GETTER ||| JSPROP_SETTER)

def isGenericDescriptor : Bool :=
  desc.attrs &&& (JSPROP_GETTER ||| JSPROP_SETTER ||| JSPROP_IGNORE_READONLY ||| JSPROP_IGNORE_VALUE) =
    JSPROP_IGNORE_READONLY ||| JSPROP_IGNORE_VALUE

def isDataDescriptor : Bool := !desc.isAccessorDescriptor && !desc.isGenericDescriptor

def hasConfigurable : Bool := !desc.has JSPROP_IGNORE_PERMANENT

def configurable : Bool := !desc.has JSPROP_PERMANENT

def hasEnumerable : Bool := !desc.has JSPROP_IGNORE_ENUMERATE

def enumerable : Bool := desc.has JSPROP_ENUMERATE

def hasValue : Bool := !desc.isAccessorDescriptor && !desc.has JSPROP_IGNORE_VALUE

def hasWritable : Bool := !desc.isAccessorDescriptor && !desc.has JSPROP_IGNORE_READONLY

def writable : Bool := !desc.has JSPROP_READONLY

def hasGetterObject : Bool := desc.has JSPROP_GETTER

def hasSetterObject : Bool := desc.has JSPROP_SETTER

/-! ## What a descriptor says -/

lemma has_twoPow {k : ℕ} (hk : twoPow 32 k ≠ 0#32) : desc.has (twoPow 32 k) = desc.attrs.getLsbD k := by
  unfold has
  rw [and_twoPow]
  simp [hk]

lemma isAccessorDescriptor_eq : desc.isAccessorDescriptor = (desc.hasGetterObject || desc.hasSetterObject) := by
  have hor : desc.attrs &&& (JSPROP_GETTER ||| JSPROP_SETTER) =
      desc.attrs &&& JSPROP_GETTER ||| desc.attrs &&& JSPROP_SETTER := and_or_distrib_left ..
  unfold isAccessorDescriptor hasAny hasGetterObject hasSetterObject has
  rw [hor, Bool.eq_iff_iff]
  simp [or_eq_zero_iff, ← not_and_or]

lemma isGenericDescriptor_eq : desc.isGenericDescriptor =
    (!desc.isAccessorDescriptor && !desc.hasValue && !desc.hasWritable) := by
  have hand (k : ℕ) : desc.attrs &&& twoPow 32 k =
      if desc.attrs.getLsbD k then twoPow 32 k else 0#32 := and_twoPow desc.attrs k
  have hgetter : JSPROP_GETTER = twoPow 32 4 := by decide
  have hsetter : JSPROP_SETTER = twoPow 32 5 := by decide
  have hreadonly : JSPROP_IGNORE_READONLY = twoPow 32 15 := by decide
  have hvalue : JSPROP_IGNORE_VALUE = twoPow 32 17 := by decide
  unfold isGenericDescriptor hasValue hasWritable
  rw [isAccessorDescriptor_eq]
  unfold hasGetterObject hasSetterObject has
  simp only [hgetter, hsetter, hreadonly, hvalue, and_or_distrib_left, hand]
  -- each of the four bits is set or not
  cases desc.attrs.getLsbD 4 <;> cases desc.attrs.getLsbD 5 <;> cases desc.attrs.getLsbD 15 <;>
    cases desc.attrs.getLsbD 17 <;> decide

/-- What the descriptor says. -/
def fields : Descriptor where
  value := if desc.hasValue = true then some desc.value else none
  writable := if desc.hasWritable = true then some desc.writable else none
  get := if desc.hasGetterObject = true then some desc.getter else none
  set := if desc.hasSetterObject = true then some desc.setter else none
  enumerable := if desc.hasEnumerable = true then some desc.enumerable else none
  configurable := if desc.hasConfigurable = true then some desc.configurable else none
  unmixed := by
    unfold hasValue hasWritable
    rw [isAccessorDescriptor_eq]
    cases desc.hasGetterObject <;> cases desc.hasSetterObject <;> simp

lemma isAccessor_fields : desc.fields.IsAccessor ↔ desc.isAccessorDescriptor = true := by
  rw [isAccessorDescriptor_eq]
  simp [Ordinary.Descriptor.IsAccessor, fields]

lemma isGeneric_fields : desc.fields.IsGeneric ↔ desc.isGenericDescriptor = true := by
  rw [isGenericDescriptor_eq]
  unfold Ordinary.Descriptor.IsGeneric
  rw [isAccessor_fields]
  cases hvalue : desc.hasValue <;> cases hwritable : desc.hasWritable <;>
    simp [Ordinary.Descriptor.IsData, fields, hvalue, hwritable]

lemma isData_fields : desc.fields.IsData ↔ desc.isDataDescriptor = true := by
  have haccessor := desc.isAccessor_fields
  have hgeneric := desc.isGeneric_fields
  unfold isDataDescriptor
  rw [Bool.and_eq_true, Bool.not_eq_true', Bool.not_eq_true', ← Bool.not_eq_true, ← Bool.not_eq_true,
    ← haccessor, ← hgeneric]
  refine ⟨fun h => ⟨h.not_isAccessor, fun hg => hg.1 h⟩, fun h => ?_⟩
  exact not_not.1 fun hdata => h.2 ⟨hdata, h.1⟩

/-! ## The descriptors of properties -/

/-- The attributes of a data property that is writable or not, or of an accessor property. -/
def propertyAttributes (enumerable configurable : Bool) (writable : Option Bool) : BitVec 32 :=
  (if enumerable = true then JSPROP_ENUMERATE else 0) ||| (if configurable = true then 0 else JSPROP_PERMANENT) |||
    match writable with
    | some writable => if writable = true then 0 else JSPROP_READONLY
    | none => JSPROP_GETTER ||| JSPROP_SETTER

/-- What `NativeGetOwnPropertyDescriptor` makes of a property of an object. -/
def ofProperty (obj : ℕ) (p : Property) : PropertyDescriptor :=
  match p.content with
  | .data value writable =>
    ⟨some obj, propertyAttributes p.enumerable p.configurable (some writable), none, none, value⟩
  | .accessor get set =>
    ⟨some obj, propertyAttributes p.enumerable p.configurable none, get, set, .undefined⟩

lemma flags_of_property {desc : PropertyDescriptor} {enumerable configurable : Bool}
    {writable : Option Bool} (h : desc.attrs = propertyAttributes enumerable configurable writable) :
    desc.hasValue = writable.isSome ∧ desc.hasWritable = writable.isSome ∧
      desc.writable = writable.getD true ∧ desc.hasGetterObject = writable.isNone ∧
      desc.hasSetterObject = writable.isNone ∧ desc.hasEnumerable = true ∧
      desc.enumerable = enumerable ∧ desc.hasConfigurable = true ∧
      desc.configurable = configurable := by
  unfold hasValue hasWritable PropertyDescriptor.writable hasGetterObject hasSetterObject hasEnumerable
    PropertyDescriptor.enumerable hasConfigurable PropertyDescriptor.configurable isAccessorDescriptor
    hasAny has
  rw [h]
  cases enumerable <;> cases configurable <;> obtain _ | _ | _ := writable <;> decide

lemma fields_ofProperty (obj : ℕ) (p : Property) : (ofProperty obj p).fields = p.descriptor := by
  obtain ⟨content, enumerable, configurable⟩ := p
  cases content with
  | data value writable =>
    have hattrs : (ofProperty obj ⟨.data value writable, enumerable, configurable⟩).attrs =
        propertyAttributes enumerable configurable (some writable) := by rfl
    obtain ⟨hvalue, hhasWritable, hwritable, hget, hset, hhasEnumerable, henumerable, hhasConfigurable,
      hconfigurable⟩ := flags_of_property hattrs
    apply Ordinary.Descriptor.ext
    · exact if_pos hvalue
    · exact (if_pos hhasWritable).trans (congrArg some hwritable)
    · exact if_neg (by simp [hget])
    · exact if_neg (by simp [hset])
    · exact (if_pos hhasEnumerable).trans (congrArg some henumerable)
    · exact (if_pos hhasConfigurable).trans (congrArg some hconfigurable)
  | accessor get set =>
    have hattrs : (ofProperty obj ⟨.accessor get set, enumerable, configurable⟩).attrs =
        propertyAttributes enumerable configurable none := rfl
    obtain ⟨hvalue, hhasWritable, -, hget, hset, hhasEnumerable, henumerable, hhasConfigurable,
      hconfigurable⟩ := flags_of_property hattrs
    apply Ordinary.Descriptor.ext
    · exact if_neg (by simp [hvalue])
    · exact if_neg (by simp [hhasWritable])
    · exact if_pos hget
    · exact if_pos hset
    · exact (if_pos hhasEnumerable).trans (congrArg some henumerable)
    · exact (if_pos hhasConfigurable).trans (congrArg some hconfigurable)

section OfProperty

variable (obj : ℕ) (p : Property)

lemma obj_ofProperty : (ofProperty obj p).obj = some obj := by
  obtain ⟨content, -, -⟩ := p
  cases content <;> rfl

lemma getter_ofProperty : (ofProperty obj p).getter = p.descriptor.get.getD none := by
  obtain ⟨content, -, -⟩ := p
  cases content <;> rfl

lemma setter_ofProperty : (ofProperty obj p).setter = p.descriptor.set.getD none := by
  obtain ⟨content, -, -⟩ := p
  cases content <;> rfl

lemma value_ofProperty : (ofProperty obj p).value = p.descriptor.value.getD .undefined := by
  obtain ⟨content, -, -⟩ := p
  cases content <;> rfl

lemma attrs_ofProperty : (ofProperty obj p).attrs =
    propertyAttributes p.enumerable p.configurable p.descriptor.writable := by
  obtain ⟨content, -, -⟩ := p
  cases content <;> rfl

lemma isDataDescriptor_ofProperty : (ofProperty obj p).isDataDescriptor = true ↔ p.descriptor.IsData := by
  rw [← isData_fields, fields_ofProperty]

end OfProperty

/-! ## Completing a descriptor -/

def setGetterObject (obj : Option ℕ) : PropertyDescriptor :=
  { desc with
    getter := obj
    attrs :=
      desc.attrs &&& ~~~(JSPROP_IGNORE_VALUE ||| JSPROP_IGNORE_READONLY ||| JSPROP_READONLY) ||| JSPROP_GETTER }

def setSetterObject (obj : Option ℕ) : PropertyDescriptor :=
  { desc with
    setter := obj
    attrs :=
      desc.attrs &&& ~~~(JSPROP_IGNORE_VALUE ||| JSPROP_IGNORE_READONLY ||| JSPROP_READONLY) ||| JSPROP_SETTER }

def addAttributes (bits : BitVec 32) : PropertyDescriptor := { desc with attrs := desc.attrs ||| bits }

def removeAttributes (bits : BitVec 32) : PropertyDescriptor :=
  { desc with attrs := desc.attrs &&& ~~~bits }

def completeData : PropertyDescriptor :=
  (if desc.hasWritable = true then desc else desc.addAttributes JSPROP_READONLY).removeAttributes
    (JSPROP_IGNORE_READONLY ||| JSPROP_IGNORE_VALUE)

def completeGetter : PropertyDescriptor :=
  if desc.hasGetterObject = true then desc else desc.setGetterObject none

def completeSetter : PropertyDescriptor :=
  if desc.hasSetterObject = true then desc else desc.setSetterObject none

def completeContent : PropertyDescriptor :=
  if (desc.isGenericDescriptor || desc.isDataDescriptor) = true then desc.completeData
  else desc.completeGetter.completeSetter.addAttributes (JSPROP_GETTER ||| JSPROP_SETTER)

def completeConfigurable : PropertyDescriptor :=
  (if desc.hasConfigurable = true then desc else desc.addAttributes JSPROP_PERMANENT).removeAttributes
    (JSPROP_IGNORE_PERMANENT ||| JSPROP_IGNORE_ENUMERATE)

def completePropertyDescriptor : PropertyDescriptor := desc.completeContent.completeConfigurable

end PropertyDescriptor

/-! ## Descriptors made from objects -/

/-- What `GetPropertyIfPresent` finds for each field of the object that describes a property. -/
structure DescriptorFields where
  enumerable : Option Value
  configurable : Option Value
  value : Option Value
  writable : Option Value
  get : Option Value
  set : Option Value

namespace DescriptorFields

/-- A getter or setter is an object that can be called, or undefined. -/
def accessor? (isCallable : ℕ → Bool) : Option Value → Option (Option ℕ)
  | none => some none
  | some .undefined => some none
  | some (.object id) => if isCallable id = true then some (some id) else none
  | some _ => none

/-- The attributes that `ToPropertyDescriptor` collects, before it looks for conflicts. -/
def attributes (f : DescriptorFields) : BitVec 32 :=
  (match f.enumerable with
    | some v => if v.toBoolean = true then JSPROP_ENUMERATE else 0
    | none => JSPROP_IGNORE_ENUMERATE) |||
  (match f.configurable with
    | some v => if v.toBoolean = true then 0 else JSPROP_PERMANENT
    | none => JSPROP_IGNORE_PERMANENT) |||
  (match f.value with
    | some _ => 0
    | none => JSPROP_IGNORE_VALUE) |||
  (match f.writable with
    | some v => if v.toBoolean = true then 0 else JSPROP_READONLY
    | none => JSPROP_IGNORE_READONLY) |||
  (match f.get with
    | some _ => JSPROP_GETTER
    | none => 0) |||
  (match f.set with
    | some _ => JSPROP_SETTER
    | none => 0)

end DescriptorFields

/-- `ToPropertyDescriptor`, or `none` if it throws: a getter or setter cannot be called, or there are
fields of both kinds. -/
def toPropertyDescriptor (isCallable : ℕ → Bool) (f : DescriptorFields) : Option PropertyDescriptor := do
  let getter ← DescriptorFields.accessor? isCallable f.get
  let setter ← DescriptorFields.accessor? isCallable f.set
  let attrs := f.attributes
  let value := f.value.getD .undefined
  if f.get.isSome || f.set.isSome then
    if attrs &&& JSPROP_IGNORE_READONLY = 0 ∨ attrs &&& JSPROP_IGNORE_VALUE = 0 then none
    else
      let attrs := attrs &&& ~~~(JSPROP_IGNORE_READONLY ||| JSPROP_IGNORE_VALUE)
      some ⟨none, attrs, getter, setter, value⟩
  else some ⟨none, attrs, getter, setter, value⟩

namespace DescriptorFields

/-- The object that a getter or setter is. -/
def object? : Option Value → Option ℕ
  | some (.object id) => some id
  | _ => none

/-- The property that the fields describe, with the defaults for those that are absent. -/
def property (f : DescriptorFields) : Property where
  content :=
    if (f.get.isSome || f.set.isSome) = true then .accessor (object? f.get) (object? f.set)
    else .data (f.value.getD .undefined) (f.writable.elim false Value.toBoolean)
  enumerable := f.enumerable.elim false Value.toBoolean
  configurable := f.configurable.elim false Value.toBoolean

lemma accessor?_eq {isCallable : ℕ → Bool} {v : Option Value} {obj : Option ℕ}
    (h : accessor? isCallable v = some obj) : obj = object? v := by
  unfold accessor? at h
  split at h
  · exact (Option.some.inj h).symm
  · exact (Option.some.inj h).symm
  · split_ifs at h
    exact (Option.some.inj h).symm
  · cases h

end DescriptorFields

variable (enumerable configurable : Option Bool)

/-- The attributes with what is known of each field. -/
def attributesOf (hasValue : Bool) (writable : Option Bool) (hasGet hasSet : Bool) : BitVec 32 :=
  (match enumerable with
    | some b => if b = true then JSPROP_ENUMERATE else 0
    | none => JSPROP_IGNORE_ENUMERATE) |||
  (match configurable with
    | some b => if b = true then 0 else JSPROP_PERMANENT
    | none => JSPROP_IGNORE_PERMANENT) |||
  (if hasValue = true then 0 else JSPROP_IGNORE_VALUE) |||
  (match writable with
    | some b => if b = true then 0 else JSPROP_READONLY
    | none => JSPROP_IGNORE_READONLY) |||
  (if hasGet = true then JSPROP_GETTER else 0) ||| (if hasSet = true then JSPROP_SETTER else 0)

lemma DescriptorFields.attributes_eq (f : DescriptorFields) :
    f.attributes = attributesOf (f.enumerable.map Value.toBoolean) (f.configurable.map Value.toBoolean)
      f.value.isSome (f.writable.map Value.toBoolean) f.get.isSome f.set.isSome := by
  obtain ⟨enumerable, configurable, value, writable, get, set⟩ := f
  cases enumerable <;> cases configurable <;> cases value <;> cases writable <;> cases get <;>
    cases set <;> rfl

namespace PropertyDescriptor

/-- The attributes of a completed descriptor. -/
def completeAttributes (attrs : BitVec 32) : BitVec 32 :=
  (completePropertyDescriptor ⟨none, attrs, none, none, .undefined⟩).attrs

section Congruence

variable {desc desc' : PropertyDescriptor} (h : desc.attrs = desc'.attrs)

include h

lemma completeData_congr : desc.completeData.attrs = desc'.completeData.attrs := by
  have hcond : desc.hasWritable = desc'.hasWritable := by
    simp only [hasWritable, isAccessorDescriptor, hasAny, has, h]
  unfold completeData removeAttributes addAttributes
  rw [hcond]
  split_ifs <;> simp [h]

lemma completeGetter_congr : desc.completeGetter.attrs = desc'.completeGetter.attrs := by
  have hcond : desc.hasGetterObject = desc'.hasGetterObject := by simp only [hasGetterObject, has, h]
  unfold completeGetter setGetterObject
  rw [hcond]
  split_ifs <;> simp [h]

lemma completeSetter_congr : desc.completeSetter.attrs = desc'.completeSetter.attrs := by
  have hcond : desc.hasSetterObject = desc'.hasSetterObject := by simp only [hasSetterObject, has, h]
  unfold completeSetter setSetterObject
  rw [hcond]
  split_ifs <;> simp [h]

lemma completeContent_congr : desc.completeContent.attrs = desc'.completeContent.attrs := by
  have hcond : (desc.isGenericDescriptor || desc.isDataDescriptor) =
      (desc'.isGenericDescriptor || desc'.isDataDescriptor) := by
    simp only [isDataDescriptor, isGenericDescriptor, isAccessorDescriptor, hasAny, h]
  unfold completeContent
  rw [hcond]
  split_ifs
  · exact completeData_congr h
  · exact congrArg (· ||| (JSPROP_GETTER ||| JSPROP_SETTER)) (completeSetter_congr (completeGetter_congr h))

lemma completeConfigurable_congr : desc.completeConfigurable.attrs = desc'.completeConfigurable.attrs := by
  have hcond : desc.hasConfigurable = desc'.hasConfigurable := by simp only [hasConfigurable, has, h]
  unfold completeConfigurable removeAttributes addAttributes
  rw [hcond]
  split_ifs <;> simp [h]

end Congruence

variable (desc : PropertyDescriptor)

lemma attrs_completePropertyDescriptor : desc.completePropertyDescriptor.attrs = completeAttributes desc.attrs :=
  completeConfigurable_congr (completeContent_congr rfl)

lemma completeAttributes_data (hasValue : Bool) (writable : Option Bool) :
    completeAttributes (attributesOf enumerable configurable hasValue writable false false) =
      propertyAttributes (enumerable.getD false) (configurable.getD false)
        (some (writable.getD false)) := by
  obtain _ | _ | _ := enumerable <;> obtain _ | _ | _ := configurable <;> cases hasValue <;>
    obtain _ | _ | _ := writable <;> decide

lemma completeAttributes_accessor (hasGet hasSet : Bool) (h : (hasGet || hasSet) = true) :
    completeAttributes (attributesOf enumerable configurable false none hasGet hasSet &&&
        ~~~(JSPROP_IGNORE_READONLY ||| JSPROP_IGNORE_VALUE)) =
      propertyAttributes (enumerable.getD false) (configurable.getD false) none := by
  revert h
  obtain _ | _ | _ := enumerable <;> obtain _ | _ | _ := configurable <;> cases hasGet <;>
    cases hasSet <;> decide

lemma value_completePropertyDescriptor : desc.completePropertyDescriptor.value = desc.value := by
  unfold completePropertyDescriptor completeConfigurable completeContent completeData completeSetter
    completeGetter
  split_ifs <;> rfl

lemma obj_completePropertyDescriptor : desc.completePropertyDescriptor.obj = desc.obj := by
  unfold completePropertyDescriptor completeConfigurable completeContent completeData completeSetter
    completeGetter
  split_ifs <;> rfl

lemma getter_completePropertyDescriptor {desc : PropertyDescriptor}
    (h : desc.hasGetterObject = true ∨ desc.getter = none) :
    desc.completePropertyDescriptor.getter = desc.getter := by
  unfold completePropertyDescriptor completeConfigurable completeContent completeData completeSetter
    completeGetter
  obtain h | h := h
  · split_ifs <;> rfl
  · split_ifs <;> first | rfl | exact h.symm

lemma hasSetterObject_setGetterObject (obj : Option ℕ) :
    (desc.setGetterObject obj).hasSetterObject = desc.hasSetterObject := by
  have hflag : JSPROP_SETTER = BitVec.twoPow 32 5 := by decide
  unfold hasSetterObject
  rw [hflag, has_twoPow _ (by decide), has_twoPow _ (by decide)]
  simp [setGetterObject, JSPROP_IGNORE_VALUE, JSPROP_IGNORE_READONLY, JSPROP_READONLY, JSPROP_GETTER]

lemma setter_completePropertyDescriptor {desc : PropertyDescriptor}
    (h : desc.hasSetterObject = true ∨ desc.setter = none) :
    desc.completePropertyDescriptor.setter = desc.setter := by
  have hcond : desc.completeGetter.hasSetterObject = true ∨ desc.setter = none := by
    unfold completeGetter
    split_ifs
    · exact h
    · rwa [hasSetterObject_setGetterObject]
  have hgetter : desc.completeGetter.setter = desc.setter := by
    unfold completeGetter
    split_ifs <;> rfl
  have hsetter : desc.completeGetter.completeSetter.setter = desc.setter := by
    unfold completeSetter
    obtain h | h := hcond
    · rw [if_pos h, hgetter]
    · split_ifs
      · exact hgetter
      · exact h.symm
  unfold completePropertyDescriptor completeConfigurable completeContent completeData
  split_ifs <;> first | rfl | exact hsetter

end PropertyDescriptor

lemma attributesOf_flags (hasValue : Bool) (writable : Option Bool) (hasGet hasSet : Bool) :
    let attrs := attributesOf enumerable configurable hasValue writable hasGet hasSet
    (attrs &&& JSPROP_IGNORE_READONLY = 0 ↔ writable.isSome = true) ∧
      (attrs &&& JSPROP_IGNORE_VALUE = 0 ↔ hasValue = true) ∧
      (attrs &&& ~~~(JSPROP_IGNORE_READONLY ||| JSPROP_IGNORE_VALUE) &&& JSPROP_GETTER = 0 ↔ hasGet = false) ∧
      (attrs &&& ~~~(JSPROP_IGNORE_READONLY ||| JSPROP_IGNORE_VALUE) &&& JSPROP_SETTER = 0 ↔ hasSet = false) := by
  revert enumerable configurable hasValue writable hasGet hasSet
  decide

/-- The descriptor made of an object and completed is that of the property that the object describes. -/
theorem completePropertyDescriptor_eq {isCallable : ℕ → Bool} {f : DescriptorFields}
    {desc : PropertyDescriptor} (h : toPropertyDescriptor isCallable f = some desc) :
    desc.completePropertyDescriptor = { PropertyDescriptor.ofProperty 0 f.property with obj := none } := by
  obtain ⟨getter, hgetter, h⟩ := Option.bind_eq_some_iff.1 h
  obtain ⟨setter, hsetter, h⟩ := Option.bind_eq_some_iff.1 h
  obtain rfl := DescriptorFields.accessor?_eq hgetter
  obtain rfl := DescriptorFields.accessor?_eq hsetter
  rw [f.attributes_eq] at h
  obtain ⟨hwritable, hvalue, hget, hset⟩ := attributesOf_flags (f.enumerable.map Value.toBoolean)
    (f.configurable.map Value.toBoolean) f.value.isSome (f.writable.map Value.toBoolean) f.get.isSome
    f.set.isSome
  dsimp only at h
  have henumerable : (f.enumerable.map Value.toBoolean).getD false = f.property.enumerable := by
    cases hcase : f.enumerable <;> simp [DescriptorFields.property, hcase]
  have hconfigurable : (f.configurable.map Value.toBoolean).getD false = f.property.configurable := by
    cases hcase : f.configurable <;> simp [DescriptorFields.property, hcase]
  split_ifs at h with haccessor hmixed
  · -- an accessor has neither a value nor a writable field
    cases h
    rw [hwritable, hvalue, not_or, Bool.not_eq_true, Bool.not_eq_true, Option.isSome_map] at hmixed
    have hcontent : f.property.content = .accessor (DescriptorFields.object? f.get)
        (DescriptorFields.object? f.set) := if_pos haccessor
    have hnone : f.writable.map Value.toBoolean = none := by simpa using hmixed.1
    have hundefined : f.value.getD .undefined = .undefined := by
      rw [Option.isSome_eq_false_iff.1 hmixed.2 |> Option.isNone_iff_eq_none.1]
      rfl
    unfold PropertyDescriptor.ofProperty
    rw [hcontent]
    ext1
    · exact PropertyDescriptor.obj_completePropertyDescriptor _
    · rw [PropertyDescriptor.attrs_completePropertyDescriptor]
      dsimp only
      rw [hmixed.2, hnone, PropertyDescriptor.completeAttributes_accessor _ _ _ _ haccessor, henumerable, hconfigurable]
    · refine PropertyDescriptor.getter_completePropertyDescriptor ?_
      cases hcase : f.get with
      | none => exact .inr rfl
      | some v =>
        rw [hcase] at hget
        exact .inl (decide_eq_true fun hzero => absurd (hget.1 hzero) (by simp))
    · refine PropertyDescriptor.setter_completePropertyDescriptor ?_
      cases hcase : f.set with
      | none => exact .inr rfl
      | some v =>
        rw [hcase] at hset
        exact .inl (decide_eq_true fun hzero => absurd (hset.1 hzero) (by simp))
    · exact (PropertyDescriptor.value_completePropertyDescriptor _).trans hundefined
  · cases h
    have hnone : f.get = none ∧ f.set = none := by simpa using haccessor
    have hwritable : (f.writable.map Value.toBoolean).getD false = f.writable.elim false Value.toBoolean := by
      cases f.writable <;> rfl
    have hcontent : f.property.content =
        .data (f.value.getD .undefined) (f.writable.elim false Value.toBoolean) := if_neg haccessor
    unfold PropertyDescriptor.ofProperty
    rw [hcontent, hnone.1, hnone.2]
    ext1
    · exact PropertyDescriptor.obj_completePropertyDescriptor _
    · rw [PropertyDescriptor.attrs_completePropertyDescriptor]
      dsimp only
      rw [Option.isSome_none, PropertyDescriptor.completeAttributes_data, henumerable, hconfigurable, hwritable]
    · exact PropertyDescriptor.getter_completePropertyDescriptor (.inr rfl)
    · exact PropertyDescriptor.setter_completePropertyDescriptor (.inr rfl)
    · exact PropertyDescriptor.value_completePropertyDescriptor _

end SpiderMonkey.Proxy

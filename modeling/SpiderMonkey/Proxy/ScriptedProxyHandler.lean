import SpiderMonkey.Lib.Script
import SpiderMonkey.Proxy.Compatible

/-!
# Scripted proxies

The operations of `ScriptedProxyHandler.cpp` on a proxy whose target is an ordinary object.  What other
code does in the course of an operation is an `Interaction`: it changes the target, step by step, and
returns a value or throws.  This is so for the getter of a trap, the trap itself, the getters of the
object that it returns, and, where there is no trap, for what the target leaves to its prototype, to a
getter or setter, or to the receiver.
-/

namespace SpiderMonkey.Proxy

open Script

abbrev Target := Ordinary.Object PropertyKey Value ℕ ℕ

abbrev TargetStep := Ordinary.Step PropertyKey Value ℕ ℕ

/-- The messages of the errors that the operations report. -/
inductive ErrorNumber
  | JSMSG_PROXY_REVOKED
  | JSMSG_BAD_TRAP
  | JSMSG_BAD_GETPROTOTYPEOF_TRAP_RETURN
  | JSMSG_INCONSISTENT_GETPROTOTYPEOF_TRAP
  | JSMSG_INCONSISTENT_SETPROTOTYPEOF_TRAP
  | JSMSG_CANT_REPORT_AS_NON_EXTENSIBLE
  | JSMSG_PROXY_EXTENSIBILITY
  | JSMSG_PROXY_GETOWN_OBJORUNDEF
  | JSMSG_CANT_REPORT_NC_AS_NE
  | JSMSG_CANT_REPORT_E_AS_NE
  | JSMSG_CANT_REPORT_INVALID
  | JSMSG_CANT_REPORT_NE_AS_NC
  | JSMSG_CANT_REPORT_C_AS_NC
  | JSMSG_CANT_REPORT_W_AS_NW
  | JSMSG_CANT_DEFINE_NEW
  | JSMSG_CANT_DEFINE_NE_AS_NC
  | JSMSG_CANT_DEFINE_INVALID
  | JSMSG_OBJECT_REQUIRED_RET_OWNKEYS
  | JSMSG_OWNKEYS_STR_SYM
  | JSMSG_OWNKEYS_DUPLICATE
  | JSMSG_CANT_SKIP_NC
  | JSMSG_CANT_REPORT_NEW
  | JSMSG_CANT_DELETE
  | JSMSG_CANT_DELETE_NON_EXTENSIBLE
  | JSMSG_MUST_REPORT_SAME_VALUE
  | JSMSG_MUST_REPORT_UNDEFINED
  | JSMSG_CANT_SET_NW_NC
  | JSMSG_CANT_SET_WO_SETTER
  deriving DecidableEq

inductive Error
  | thrown
  | reported (number : ErrorNumber) (details : String)
  deriving DecidableEq

/-- A program that works on the target. -/
abbrev Op := Script Target Error

structure Interaction (α : Type) where
  steps : List TargetStep
  result : Option α

def interact {α : Type} (i : Interaction α) : Op α := do
  modify (Ordinary.Object.run i.steps)
  match i.result with
  | some a => pure a
  | none => throw .thrown

/-- Report an error without details. -/
def report {α : Type} (number : ErrorNumber) : Op α := throw (.reported number "")

/-- The trap of an operation: what the handler has under its name, and what a call of it does. -/
structure Trap where
  get : Interaction Value
  call : Interaction Value

/-- A proxy, with what is fixed about its target: its handler, or none if it is revoked. -/
structure ProxyObject where
  self : ℕ
  handler : Option ℕ
  target : ℕ
  isCallable : ℕ → Bool

namespace ProxyObject

variable (proxy : ProxyObject)

def callable : Value → Bool
  | .object id => proxy.isCallable id
  | _ => false

/-- `GetProxyTrap`, which gives undefined if there is no trap. -/
def getProxyTrap (name : String) (trap : Interaction Value) : Op Value := do
  let func ← interact trap
  if func = .undefined then pure func
  else if func = .null then pure .undefined
  else if proxy.callable func = false then throw (.reported .JSMSG_BAD_TRAP name)
  else pure func

/-- The steps before the operation on the target or the call of the trap. -/
def withTrap {α : Type} (name : String) (trap : Trap) (onTarget : Op α) (onTrap : Value → Op α) : Op α :=
  if proxy.handler = none then report .JSMSG_PROXY_REVOKED
  else do
    let func ← proxy.getProxyTrap name trap.get
    if func = .undefined then onTarget
    else do
      let trapResult ← interact trap.call
      onTrap trapResult

/-- `GetOwnPropertyDescriptor` of the target, with no object if there is no property. -/
def ownDescriptor (t : Target) (id : PropertyKey) : PropertyDescriptor :=
  match t.property id with
  | none => ⟨none, 0, none, none, .undefined⟩
  | some p => .ofProperty proxy.target p

/-! ## Prototypes and extensibility -/

def getPrototype (trap : Trap) : Op (Option ℕ) :=
  proxy.withTrap "getPrototypeOf" trap
    (do
      let t ← get
      pure t.prototype)
    fun trapResult =>
      match trapResult.objectOrNull? with
      | none => report .JSMSG_BAD_GETPROTOTYPEOF_TRAP_RETURN
      | some handlerProto => do
        let t ← get
        if t.extensible = true then pure handlerProto
        else if handlerProto ≠ t.prototype then report .JSMSG_INCONSISTENT_GETPROTOTYPEOF_TRAP
        else pure handlerProto

/-- The result is that of the `ObjectOpResult`, as it is for the other operations that have one. -/
def setPrototype (proto : Option ℕ) (trap : Trap) : Op Bool :=
  proxy.withTrap "setPrototypeOf" trap
    (do
      let t ← get
      modify (Ordinary.Object.setPrototype proto)
      pure (t.canSetPrototype proto))
    fun trapResult =>
      if trapResult.toBoolean = false then pure false
      else do
        let t ← get
        if t.extensible = true then pure true
        else if proto ≠ t.prototype then report .JSMSG_INCONSISTENT_SETPROTOTYPEOF_TRAP
        else pure true

def preventExtensions (trap : Trap) : Op Bool :=
  proxy.withTrap "preventExtensions" trap
    (do
      modify Ordinary.Object.preventExtensions
      pure true)
    fun trapResult =>
      if trapResult.toBoolean = true then do
        let t ← get
        if t.extensible = true then report .JSMSG_CANT_REPORT_AS_NON_EXTENSIBLE else pure true
      else pure false

def isExtensible (trap : Trap) : Op Bool :=
  proxy.withTrap "isExtensible" trap
    (do
      let t ← get
      pure t.extensible)
    fun trapResult => do
      let t ← get
      if t.extensible ≠ trapResult.toBoolean then report .JSMSG_PROXY_EXTENSIBILITY
      else pure trapResult.toBoolean

/-! ## Descriptors -/

/-- Steps 16 and 17 of `getOwnPropertyDescriptor`. -/
def checkReported (extensibleTarget : Bool) (resultDesc targetDesc : PropertyDescriptor) :
    Op (Option PropertyDescriptor) :=
  match isCompatiblePropertyDescriptor extensibleTarget resultDesc targetDesc with
  | some details => throw (.reported .JSMSG_CANT_REPORT_INVALID details)
  | none =>
    if (!resultDesc.configurable) = true ∧ targetDesc.obj = none then report .JSMSG_CANT_REPORT_NE_AS_NC
    else if (!resultDesc.configurable && targetDesc.configurable) = true then
      report .JSMSG_CANT_REPORT_C_AS_NC
    else if (!resultDesc.configurable && (resultDesc.hasWritable && !resultDesc.writable) &&
        targetDesc.writable) = true then report .JSMSG_CANT_REPORT_W_AS_NW
    else pure (some { resultDesc with obj := some proxy.self })

/-- `fields` is what reading the fields of the object that the trap returned does. -/
def getOwnPropertyDescriptor (id : PropertyKey) (trap : Trap) (fields : Interaction DescriptorFields) :
    Op (Option PropertyDescriptor) :=
  proxy.withTrap "getOwnPropertyDescriptor" trap
    (do
      let t ← get
      pure ((t.property id).map (.ofProperty proxy.target)))
    fun trapResult => do
      let t ← get
      let targetDesc := proxy.ownDescriptor t id
      match trapResult with
      | .undefined =>
        if targetDesc.obj = none then pure none
        else if (!targetDesc.configurable) = true then report .JSMSG_CANT_REPORT_NC_AS_NE
        else if (!t.extensible) = true then report .JSMSG_CANT_REPORT_E_AS_NE
        else pure none
      | .object _ => do
        let f ← interact fields
        match toPropertyDescriptor proxy.isCallable f with
        | none => throw .thrown
        | some resultDesc =>
          proxy.checkReported t.extensible resultDesc.completePropertyDescriptor targetDesc
      | _ => report .JSMSG_PROXY_GETOWN_OBJORUNDEF

/-- Steps 15 and 16 of `defineProperty`. -/
def checkDefined (extensibleTarget : Bool) (desc targetDesc : PropertyDescriptor) : Op Bool :=
  let settingConfigFalse := desc.hasConfigurable && !desc.configurable
  if targetDesc.obj = none then
    if extensibleTarget = false then report .JSMSG_CANT_DEFINE_NEW
    else if settingConfigFalse = true then report .JSMSG_CANT_DEFINE_NE_AS_NC
    else pure true
  else
    match isCompatiblePropertyDescriptor extensibleTarget desc targetDesc with
    | some details => throw (.reported .JSMSG_CANT_DEFINE_INVALID details)
    | none =>
      if (settingConfigFalse && targetDesc.configurable) = true then
        throw (.reported .JSMSG_CANT_DEFINE_INVALID
          "proxy can't define an existing configurable property as non-configurable")
      else if (targetDesc.isDataDescriptor && !targetDesc.configurable && targetDesc.writable &&
          (desc.hasWritable && !desc.writable)) = true then
        throw (.reported .JSMSG_CANT_DEFINE_INVALID
          "proxy can't define an existing non-configurable writable property as non-writable")
      else pure true

def defineProperty (id : PropertyKey) (desc : PropertyDescriptor) (trap : Trap) : Op Bool :=
  proxy.withTrap "defineProperty" trap
    (do
      let t ← get
      modify (Ordinary.Object.define id desc.fields)
      pure (t.validate id desc.fields))
    fun trapResult =>
      if trapResult.toBoolean = false then pure false
      else do
        let t ← get
        checkDefined t.extensible desc (proxy.ownDescriptor t id)

/-! ## Keys -/

/-- The loop of `CreateFilteredListFromArrayLike`, with the number of elements that are left. -/
def readElements (element : ℕ → Interaction Value) : ℕ → ℕ → List PropertyKey → Op (List PropertyKey)
  | 0, _, props => pure props
  | n + 1, index, props => do
    let next ← interact (element index)
    match PropertyKey.ofValue? next with
    | none => report .JSMSG_OWNKEYS_STR_SYM
    | some id => readElements element n (index + 1) (props ++ [id])

def createFilteredListFromArrayLike (v : Value) (length : Interaction ℕ)
    (element : ℕ → Interaction Value) : Op (List PropertyKey) :=
  match v with
  | .object _ => do
    let len ← interact length
    readElements element len 0 []
  | _ => report .JSMSG_OBJECT_REQUIRED_RET_OWNKEYS

def addKeys : List PropertyKey → Finset PropertyKey → Option (Finset PropertyKey)
  | [], keys => some keys
  | id :: ids, keys => if id ∈ keys then none else addKeys ids (insert id keys)

def removeKeys : List PropertyKey → Finset PropertyKey → Option (Finset PropertyKey)
  | [], keys => some keys
  | id :: ids, keys => if id ∈ keys then removeKeys ids (keys.erase id) else none

/-- Steps 10 to 23 of `ownPropertyKeys`. -/
def checkKeys (t : Target) (trapResult : List PropertyKey) : Op (List PropertyKey) :=
  match addKeys trapResult ∅ with
  | none => report .JSMSG_OWNKEYS_DUPLICATE
  | some uncheckedResultKeys =>
    let isNonconfigurable := fun id =>
      decide ((proxy.ownDescriptor t id).obj ≠ none) && !(proxy.ownDescriptor t id).configurable
    let targetNonconfigurableKeys := t.keys.filter fun id => isNonconfigurable id
    let targetConfigurableKeys := t.keys.filter fun id => !isNonconfigurable id
    if (t.extensible && targetNonconfigurableKeys.isEmpty) = true then pure trapResult
    else
      match removeKeys targetNonconfigurableKeys uncheckedResultKeys with
      | none => report .JSMSG_CANT_SKIP_NC
      | some uncheckedResultKeys =>
        if t.extensible = true then pure trapResult
        else
          match removeKeys targetConfigurableKeys uncheckedResultKeys with
          | none => report .JSMSG_CANT_REPORT_E_AS_NE
          | some uncheckedResultKeys =>
            if uncheckedResultKeys ≠ ∅ then report .JSMSG_CANT_REPORT_NEW else pure trapResult

/-- `length` and `element` are what reading the array that the trap returned does. -/
def ownPropertyKeys (trap : Trap) (length : Interaction ℕ) (element : ℕ → Interaction Value) : Op (List PropertyKey) :=
  proxy.withTrap "ownKeys" trap
    (do
      let t ← get
      pure t.keys)
    fun trapResultArray => do
      let trapResult ← createFilteredListFromArrayLike trapResultArray length element
      let t ← get
      proxy.checkKeys t trapResult

/-! ## Properties -/

def delete (id : PropertyKey) (trap : Trap) : Op Bool :=
  proxy.withTrap "deleteProperty" trap
    (do
      let t ← get
      modify (Ordinary.Object.delete id)
      pure (t.canDelete id))
    fun trapResult =>
      if trapResult.toBoolean = false then pure false
      else do
        let t ← get
        let desc := proxy.ownDescriptor t id
        if desc.obj = none then pure true
        else if (!desc.configurable) = true then report .JSMSG_CANT_DELETE
        else if (!t.extensible) = true then report .JSMSG_CANT_DELETE_NON_EXTENSIBLE
        else pure true

/-- `inherited` is what the prototype of the target answers. -/
def has (id : PropertyKey) (trap : Trap) (inherited : Interaction Bool) : Op Bool :=
  proxy.withTrap "has" trap
    (do
      let t ← get
      if t.property id ≠ none then pure true
      else if t.prototype = none then pure false
      else interact inherited)
    fun trapResult =>
      if trapResult.toBoolean = false then do
        let t ← get
        let desc := proxy.ownDescriptor t id
        if desc.obj = none then pure false
        else if (!desc.configurable) = true then report .JSMSG_CANT_REPORT_NC_AS_NE
        else if (!t.extensible) = true then report .JSMSG_CANT_REPORT_E_AS_NE
        else pure false
      else pure true

/-- `rest` is what a getter or the prototype of the target answers. -/
def get (id : PropertyKey) (trap : Trap) (rest : Interaction Value) : Op Value :=
  proxy.withTrap "get" trap
    (do
      let t ← Script.get
      match (t.property id).map Ordinary.Property.content with
      | some (.data value _) => pure value
      | some (.accessor none _) => pure .undefined
      | some (.accessor (some _) _) => interact rest
      | none => if t.prototype = none then pure .undefined else interact rest)
    fun trapResult => do
      let t ← Script.get
      let desc := proxy.ownDescriptor t id
      if desc.obj ≠ none ∧ (desc.isDataDescriptor && !desc.configurable && !desc.writable) = true ∧
          trapResult ≠ desc.value then report .JSMSG_MUST_REPORT_SAME_VALUE
      else if desc.obj ≠ none ∧ (desc.isAccessorDescriptor && !desc.configurable) = true ∧
          desc.getter = none ∧ trapResult ≠ .undefined then report .JSMSG_MUST_REPORT_UNDEFINED
      else pure trapResult

/-- `rest` is what a setter, the prototype of the target or the receiver does. -/
def set (id : PropertyKey) (v : Value) (trap : Trap) (rest : Interaction Bool) : Op Bool :=
  proxy.withTrap "set" trap
    (do
      let t ← Script.get
      match (t.property id).map Ordinary.Property.content with
      | some (.data _ false) => pure false
      | some (.accessor _ none) => pure false
      | _ => interact rest)
    fun trapResult =>
      if trapResult.toBoolean = false then pure false
      else do
        let t ← Script.get
        let desc := proxy.ownDescriptor t id
        if desc.obj ≠ none ∧ (desc.isDataDescriptor && !desc.configurable && !desc.writable) = true ∧
            v ≠ desc.value then report .JSMSG_CANT_SET_NW_NC
        else if desc.obj ≠ none ∧ (desc.isAccessorDescriptor && !desc.configurable) = true ∧
            desc.setter = none then report .JSMSG_CANT_SET_WO_SETTER
        else pure true

end ProxyObject

end SpiderMonkey.Proxy

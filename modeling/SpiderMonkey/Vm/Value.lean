import SpiderMonkey.Vm.JSString

/-!
# Values of the language

Numbers are doubles given by their bits, with one value for all `NaN`s, so that two values are the same
value if they are equal.
-/

namespace SpiderMonkey

inductive Value
  | undefined
  | null
  | boolean (b : Bool)
  | nan
  | number (bits : BitVec 64)
  | string (s : JSString)
  | symbol (id : ℕ)
  | bigint (n : ℤ)
  | object (id : ℕ)
  deriving DecidableEq

namespace Value

instance : Inhabited Value := ⟨undefined⟩

def toBoolean : Value → Bool
  | undefined => false
  | null => false
  | boolean b => b
  | nan => false
  | number bits => bits ≠ 0#64 && bits ≠ 0x8000000000000000#64
  | string s => !s.isEmpty
  | symbol _ => true
  | bigint n => n ≠ 0
  | object _ => true

/-- An object, or `none` for null, if the value is one of these. -/
def objectOrNull? : Value → Option (Option ℕ)
  | null => some none
  | object id => some (some id)
  | _ => none

end Value

/-- A property key; integer keys are the strings of their digits. -/
inductive PropertyKey
  | string (s : JSString)
  | symbol (id : ℕ)
  deriving DecidableEq

/-- The key that a string or a symbol is. -/
def PropertyKey.ofValue? : Value → Option PropertyKey
  | .string s => some (.string s)
  | .symbol id => some (.symbol id)
  | _ => none

end SpiderMonkey

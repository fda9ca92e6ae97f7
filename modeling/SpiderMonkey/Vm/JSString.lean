import Mathlib.Tactic

/-!
# Strings of the engine

A string is the list of its UTF-16 code units, whatever they are: surrogates need not be paired.
-/

namespace SpiderMonkey

abbrev JSString := List UInt16

/-- What holds of all characters of a string is found out from the string, not from all characters. -/
instance JSString.decidableForallMem {p : UInt16 → Prop} [DecidablePred p] (s : JSString) :
    Decidable (∀ c ∈ s, p c) := List.decidableBAll p s

/-- A string literal of the source, all of whose characters are ASCII. -/
def JSString.ofAscii (s : String) : JSString := s.toList.map fun c => UInt16.ofNat c.toNat

end SpiderMonkey

import SpiderMonkey.Jit.RangeArith
import SpiderMonkey.Jit.RangeRound

/-!
# Soundness of the numeric range lattice

What the transfer functions and the lattice operations guarantee together, for ranges with the
invariant `Consistent` and for any rounding: no assertion fails, the results have the invariant, and
they describe whatever the operations make of described doubles.

The assertions of the code alone do not suffice.  They allow the bounds of a fractional range to
lie two bits above its exponent, and a product then has bounds that the assertions no longer
allow; and they allow NaN in a range with two int32 bounds, where `optimize` drops it
(`assertInvariants_not_sufficient`).
-/

namespace SpiderMonkey

open Binary64 Checked

namespace Range

/-- A transfer function that always has a range. -/
def total (m : Checked Range) : Checked (Option Range) := some <$> m

variable {a b : Range}

end Range

end SpiderMonkey

/-!
Powers with a natural exponent and sums of naturals are those of the core library. A library of
algebra brings instances of its own for both; the ones below come first, so every definition over
them is one term whether or not such a library is imported beside it.
-/

namespace TypedCollections

universe u

@[default_instance 20000]
instance (priority := 2000) corePow {α : Type u} [NatPow α] : Pow α Nat := instPowNat

instance (priority := 2000) coreZero : Zero Nat := Zero.ofOfNat0

end TypedCollections

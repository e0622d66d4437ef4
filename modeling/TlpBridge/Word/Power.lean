/-!
# Powers

Powers of natural numbers are those of the core library, whatever else is imported.
-/
namespace TlpBridge.Power

/-- Is tried before the powers of a monoid. -/
scoped instance (priority := 10000) core : Pow Nat Nat := instPowNat

end TlpBridge.Power

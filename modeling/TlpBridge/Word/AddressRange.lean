/-!
# Ranges of addresses
-/
namespace TlpBridge

structure AddressRange where
  start : Nat
  size : Nat
deriving DecidableEq

namespace AddressRange

def stop (r : AddressRange) : Nat := r.start + r.size

/-- No address lies in both ranges. -/
def Apart (r s : AddressRange) : Prop := r.stop ≤ s.start ∨ s.stop ≤ r.start

theorem Apart.symm {r s : AddressRange} (h : r.Apart s) : s.Apart r := Or.symm h

end AddressRange

end TlpBridge

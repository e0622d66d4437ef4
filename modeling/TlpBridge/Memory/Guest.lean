import Std.Data.HashMap
import TlpBridge.Word.AddressRange

/-!
# Guest memory

Bytes at virtual addresses, in the regions that back them. Memory is zero until it is
written. An access moves bytes in ascending order and stops at the first address that
no region backs, so that a store that fails may have changed memory before that.
-/
namespace TlpBridge

structure GuestMemory where
  regions : List AddressRange
  /-- The bytes that were written. -/
  written : Std.HashMap Nat UInt8 := {}

def AddressRange.contains (r : AddressRange) (addr : Nat) : Bool :=
  decide (r.start ≤ addr ∧ addr < r.stop)

namespace GuestMemory

/-- Whether a region backs an address. -/
def isBacked (m : GuestMemory) (addr : Nat) : Bool := m.regions.any (·.contains addr)

/-- The byte at an address, if the address is backed. -/
def byte? (m : GuestMemory) (addr : Nat) : Option UInt8 :=
  if m.isBacked addr then some (m.written.getD addr 0) else none

/-- Sets one byte. -/
def put (m : GuestMemory) (addr : Nat) (v : UInt8) : GuestMemory :=
  { m with written := m.written.insert addr v }

/-- The bytes from an address on, if all of them are backed. -/
def loadBytes (m : GuestMemory) : Nat → Nat → Option (List UInt8)
  | _, 0 => some []
  | addr, n + 1 => do
    let b ← m.byte? addr
    let bs ← m.loadBytes (addr + 1) n
    some (b :: bs)

/-- Stores bytes from an address on as far as they are backed, and tells whether all of them
were. -/
def storeBytes (m : GuestMemory) : Nat → List UInt8 → Bool × GuestMemory
  | _, [] => (true, m)
  | addr, b :: bs =>
    if m.isBacked addr then (m.put addr b).storeBytes (addr + 1) bs else (false, m)

/-- Reads `n` bytes; the start has to be backed even if there are none. -/
def load (m : GuestMemory) (addr n : Nat) : Option (List UInt8) :=
  if m.isBacked addr then m.loadBytes addr n else none

/-- Writes bytes; the start has to be backed even if there are none. -/
def store (m : GuestMemory) (addr : Nat) (data : List UInt8) : Bool × GuestMemory :=
  if m.isBacked addr then m.storeBytes addr data else (false, m)

@[simp] theorem isBacked_put (m : GuestMemory) (addr : Nat) (v : UInt8) (a : Nat) :
    (m.put addr v).isBacked a = m.isBacked a := rfl

/-- A byte that is set is what it was set to; every other byte stays. -/
theorem byte?_put (m : GuestMemory) (addr : Nat) (v : UInt8) (a : Nat) :
    (m.put addr v).byte? a = if a = addr ∧ m.isBacked a then some v else m.byte? a := by
  have backed : ({ m with written := m.written.insert addr v } : GuestMemory).isBacked a =
      m.isBacked a := rfl
  simp only [byte?, put, backed, Std.HashMap.getD_insert, beq_iff_eq]
  by_cases h : a = addr
  · subst h
    by_cases hb : m.isBacked a <;> simp [hb]
  · simp [h, Ne.symm h]

end GuestMemory

end TlpBridge

import TlpBridge.Proofs.FromDevice.AtomicOperands
import TlpBridge.Proofs.Memory.BytewiseAccesses

/-!
# Atomic accesses

What an atomic access does to host memory. Where its operand lies within one page that leads to
backed memory, the new value takes the place of the old one and every other byte stays; anywhere
else the access fails and memory is as before.
-/
namespace TlpBridge

variable {A : IovaAllocator}

/-- What an atomic request of a kind leaves in place of the value that it finds, of which only the
bytes of the operand count. -/
def PacketKind.replaced (kind : PacketKind) (operand : Nat → Nat) (old : Nat) : Nat :=
  match kind with
  | .fetchAddAtomic => old + operand 0
  | .swapAtomic => operand 0
  | .casAtomic => if old = operand 0 then operand 1 else old
  | _ => old

theorem AtomicOperation.HasOperands.result_eq {op : AtomicOperation} {kind : PacketKind}
    {operand : Nat → Nat} (has : op.HasOperands kind operand) {size : Nat}
    (small : operand 0 < 256 ^ size) (old : Nat) :
    op.result size old = kind.replaced operand old % 256 ^ size := by
  rcases has.kind_cases with rfl | rfl | rfl
  · cases op with
    | fetchAdd addend => exact congrArg (fun n => (old + n) % 256 ^ size) has
    | _ => exact has.elim
  · cases op with
    | swap value => exact congrArg (· % 256 ^ size) has
    | _ => exact has.elim
  · cases op with
    | cas expected replacement =>
      obtain ⟨compare, swap⟩ := has
      simp only [AtomicOperation.result, PacketKind.replaced, compare, swap, Nat.mod_eq_of_lt small]
    | _ => exact has.elim

theorem operandAt_lt (payload : List UInt8) (size i : Nat) :
    operandAt payload size i < 256 ^ size := by
  have length : ((payload.drop (size * i)).take size).length ≤ size := List.length_take_le ..
  exact Nat.lt_of_lt_of_le (ofLittleEndian_lt _) (Nat.pow_le_pow_right (by decide) length)

namespace GuestMemory

/-- The bytes from an address on. -/
def Holds (m : GuestMemory) (addr : Nat) (bytes : List UInt8) : Prop :=
  ∀ j < bytes.length, m.byte? (addr + j) = bytes[j]?

theorem holds_load {m : GuestMemory} {addr n : Nat} (positive : 0 < n) {bytes : List UInt8}
    (loaded : m.load addr n = some bytes) : bytes.length = n ∧ m.Holds addr bytes := by
  rcases m.load_cases addr positive with ⟨found, is, length, shown⟩ | ⟨none_, -⟩
  · obtain rfl : found = bytes := Option.some.inj (is.symm.trans loaded)
    refine ⟨length, fun j inside => ?_⟩
    have byte := shown j inside
    rwa [Nat.zero_add] at byte
  · cases none_.symm.trans loaded

theorem holds_store (m : GuestMemory) (addr : Nat) {data : List UInt8}
    (positive : 0 < data.length) (backed : ∀ j < data.length, m.isBacked (addr + j)) :
    (m.store addr data).2.Holds addr data ∧
      ∀ a, a < addr ∨ addr + data.length ≤ a → (m.store addr data).2.byte? a = m.byte? a := by
  obtain ⟨k, front, -, image, -⟩ := m.storeBytes_front addr data
  obtain rfl : k = data.length := front.eq_of_present fun j inside => by
    rw [Nat.zero_add, Option.bind_some, isSome_byte?]
    exact backed j inside
  rw [List.take_length] at image
  rw [m.store_eq_storeBytes addr positive, Holds, image]
  constructor
  · intro j inside
    have there := m.isSome_byte? (addr + j)
    obtain ⟨b, byte⟩ := Option.isSome_iff_exists.1 (there.trans (backed j inside))
    rw [ByteImage.store_of_last inside (by rw [Nat.zero_add]) (fun k _ later same => ?_), byte,
      Option.map_some, List.getElem?_eq_getElem inside]
    have := Option.some.inj same
    omega
  · intro a outside
    refine ByteImage.store_of_ne fun j inside same => ?_
    have := Option.some.inj same
    omega

end GuestMemory

namespace HostMemory

/-- The bytes from an address on lie within one 4 KiB page, which leads to backed memory from `va`
on. -/
structure Backs (m : HostMemory A) (type : AddressType) (addr : UInt64) (size : Nat)
    (va : UInt64) : Prop where
  page : addr.toNat % 4096 + size ≤ 4096
  translates : m.iommu.resolve type addr = .ok va
  backed : ∀ j < size, m.guest.isBacked (va.toNat + j)

/-- The memory is the same but for the bytes from an address on. -/
structure Replaces (m m' : HostMemory A) (addr : Nat) (bytes : List UInt8) : Prop where
  iommu : m'.iommu = m.iommu
  regions : m'.guest.regions = m.guest.regions
  holds : m'.guest.Holds addr bytes
  others : ∀ a, a < addr ∨ addr + bytes.length ≤ a → m'.guest.byte? a = m.guest.byte? a

variable {m : HostMemory A} {r : ReadRequest} (op : AtomicOperation)

/-- An access to an operand of four or eight bytes within one page of backed memory. -/
theorem atomic_of_backs (size : r.dataBytes = 4 ∨ r.dataBytes = 8) {va : UInt64}
    (backs : m.Backs r.addressType r.addr r.dataBytes va) :
    ∃ old, old.length = r.dataBytes ∧ m.guest.Holds va.toNat old ∧
      (m.atomic r op).1 = .ok ⟨r.addr, va, old⟩ ∧
      m.Replaces (m.atomic r op).2 va.toNat
        (littleEndian r.dataBytes (op.result r.dataBytes (ofLittleEndian old))) := by
  have positive : 0 < r.dataBytes := by omega
  obtain ⟨old, loaded⟩ := Option.isSome_iff_exists.1
    ((m.guest.load_isSome_iff va.toNat positive).2 backs.backed)
  obtain ⟨length, holds⟩ := GuestMemory.holds_load positive loaded
  generalize new : littleEndian r.dataBytes (op.result r.dataBytes (ofLittleEndian old)) = bytes
  have width : bytes.length = r.dataBytes := by rw [← new, length_littleEndian]
  have whole : (m.guest.store va.toNat bytes).1 :=
    (m.guest.store_fst_iff va.toNat (by omega)).2 fun j inside => backs.backed j (width ▸ inside)
  obtain ⟨there, others⟩ := m.guest.holds_store va.toNat (by omega : 0 < bytes.length)
    fun j inside => backs.backed j (width ▸ inside)
  have result : m.atomic r op =
      (.ok ⟨r.addr, va, old⟩, { m with guest := (m.guest.store va.toNat bytes).2 }) := by
    unfold atomic
    rw [if_neg (by omega), if_neg (Nat.not_lt.2 backs.page), backs.translates]
    simp only [loaded, new]
    generalize m.guest.store va.toNat bytes = stored at whole
    obtain ⟨all, guest⟩ := stored
    obtain rfl : all = true := whole
    rfl
  refine ⟨old, length, holds, by rw [result], ?_⟩
  rw [result, new]
  exact ⟨rfl, m.guest.regions_store .., there, others⟩

/-- An access over the end of a page, to what is not translated or to memory that is not backed
fails and changes nothing. -/
theorem atomic_of_not_backs
    (missed : ∀ va, ¬ m.Backs r.addressType r.addr r.dataBytes va) :
    (∃ f, (m.atomic r op).1 = .error f) ∧ (m.atomic r op).2 = m := by
  unfold atomic
  simp only
  by_cases size : r.dataBytes ≠ 4 ∧ r.dataBytes ≠ 8
  · rw [if_pos size]
    exact ⟨⟨_, rfl⟩, rfl⟩
  · rw [if_neg size]
    by_cases crosses : 4096 < r.addr.toNat % 4096 + r.dataBytes
    · rw [if_pos crosses]
      exact ⟨⟨_, rfl⟩, rfl⟩
    · rw [if_neg crosses]
      cases resolved : m.iommu.resolve r.addressType r.addr with
      | error f => exact ⟨⟨f, rfl⟩, rfl⟩
      | ok va =>
        simp only
        cases loaded : m.guest.load va.toNat r.dataBytes with
        | none => exact ⟨⟨_, rfl⟩, rfl⟩
        | some old =>
          have positive : 0 < r.dataBytes := by omega
          have backed := (m.guest.load_isSome_iff va.toNat positive).1
            (Option.isSome_iff_exists.2 ⟨old, loaded⟩)
          exact absurd ⟨Nat.le_of_not_lt crosses, resolved, backed⟩ (missed va)

variable {op} (plain : r.addressType ≠ .translationRequest) (atomic : r.atomic = some op)

include plain atomic in
theorem read_of_atomic :
    (m.read r).answer = (m.atomic r op).1 ∧ (m.read r).state = (m.atomic r op).2 := by
  unfold read
  rw [if_neg plain, atomic]
  exact ⟨rfl, rfl⟩

end HostMemory

end TlpBridge

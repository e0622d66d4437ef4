import TlpBridge.Proofs.Memory.BytewiseAccesses

/-!
# Writes that are refused

A write is made page by page, and what it has stored is not taken back when a later page fails. A
refused write leaves memory as it was if and only if all that it stored was there before.
-/
namespace TlpBridge

variable {A : IovaAllocator}

namespace HostMemory

/-- What a write comes to of which byte `m` is the first that is missing: the enabled bytes in front
of where it stops are stored, and nothing else. -/
structure StopsAt (h : HostMemory A) (w : WriteRequest) (m : Nat) : Prop where
  inside : m < w.data.length
  before : ∀ i < m, (h.byteBehind w.addressType (w.addr + UInt64.ofNat i)).isSome
  missing : h.byteBehind w.addressType (w.addr + UInt64.ofNat m) = none
  iommu : (h.write w).2.iommu = h.iommu
  image : (h.write w).2.guest.byte? =
    ByteImage.store h.guest.byte? (w.storedAt h.iommu) 0 (w.data.take (w.stop m))
  unchanged_iff : (h.write w).2.guest.byte? = h.guest.byte? ↔
    ByteImage.Settled h.guest.byte? (w.storedAt h.iommu) 0 (w.data.take (w.stop m))

variable {h : HostMemory A} {w : WriteRequest} {k : Nat}

theorem EndsBehind.isSome_of_storedAt (ends : h.EndsBehind w k) {i a : Nat} (inside : i < k)
    (hits : w.storedAt h.iommu i = some a) : (h.guest.byte? a).isSome := by
  have present := ends.front.present i inside
  have leads := (Option.ite_none_right_eq_some.1 hits).2
  rwa [Nat.zero_add, Iommu.place_eq_behind, leads, Option.bind_some] at present

theorem exists_stopsAt (aligned : h.iommu.Aligned)
    (refused : (writeResponse (h.write w).1).status ≠ .valid) : ∃ m, h.StopsAt w m := by
  obtain ⟨k, ends⟩ := exists_endsBehind aligned w
  have short : k < w.data.length :=
    Nat.lt_of_le_of_ne ends.front.le fun whole => refused (ends.valid.2 whole)
  obtain ⟨m, inside, first, rfl⟩ := ends.stop short
  have image := ends.image_storedAt
  refine ⟨m, inside, fun i before => ?_, ?_, ends.iommu, image, ?_⟩
  · have there := first.before i before
    rwa [Nat.zero_add, Iommu.place_eq_behind] at there
  · have missing := first.missing
    rwa [Nat.zero_add, Iommu.place_eq_behind] at missing
  · rw [image]
    refine ByteImage.store_eq_self_iff fun i within a hits => ?_
    rw [List.length_take] at within
    rw [Nat.zero_add] at hits
    exact ends.isSome_of_storedAt (by omega) hits

end HostMemory

namespace PinnedTables

/-- After every run a refused write stops at its first missing byte and keeps what it has stored in
front of it, whatever guest memory is behind the tables. -/
theorem run_stopsAt (options : Switches) (map : MemoryMap) (calls : List IommuCall)
    (guest : GuestMemory) (w : WriteRequest) :
    let h : HostMemory A := ⟨((start options map).run calls).tables, guest⟩
    (HostMemory.writeResponse (h.write w).1).status ≠ .valid → ∃ m, h.StopsAt w m :=
  fun refused => HostMemory.exists_stopsAt (aligned_run options map calls) refused

/-- A write whose second page is not pinned has changed the first when it is refused. -/
theorem run_stopsAt_second_page :
    let t : Iommu FirstFit.allocator :=
      ((start {} { ranges := [] }).run [.pin 0x7000 0x1000]).tables
    let guest : GuestMemory := { regions := [⟨0x7000, 0x1000⟩] }
    let w : WriteRequest :=
      { addr := 0xffc, addressType := .untranslated
        data := [0x11, 0x22, 0x33, 0x44, 0x55, 0x66, 0x77, 0x88] }
    let written := HostMemory.write ⟨t, guest⟩ w
    (HostMemory.writeResponse written.1).status ≠ .valid ∧ HostMemory.StopsAt ⟨t, guest⟩ w 4 ∧
      guest.byte? 0x7ffc = some 0 ∧ written.2.guest.byte? 0x7ffc = some 0x11 := by
  intro t guest w written
  have front : ∀ i < 4, w.storedAt t (0 + i) = some (0x7ffc + i) := by decide +kernel
  have backed : ∀ i < 4, (t.behind .untranslated (0xffc + UInt64.ofNat i)).map guest.isBacked =
      some true := by decide +kernel
  have border : t.behind .untranslated (0xffc + UInt64.ofNat 4) = none := by decide +kernel
  have lost : HostMemory.byteBehind ⟨t, guest⟩ .untranslated (0xffc + UInt64.ofNat 4) = none :=
    congrArg (fun a => a.bind guest.byte?) border
  have blank : guest.byte? 0x7ffc = some 0 := by
    simp [GuestMemory.byte?, GuestMemory.isBacked, AddressRange.contains, AddressRange.stop, guest]
  have refused : (HostMemory.writeResponse written.1).status ≠ .valid := by
    have aligned : t.Aligned := aligned_run {} { ranges := [] } [.pin 0x7000 0x1000]
    intro valid
    have there := (HostMemory.writesBytes aligned w).valid.1 valid 4 (by decide)
    exact Option.not_isSome_iff_eq_none.2 lost there
  obtain ⟨m, stops⟩ : ∃ m, HostMemory.StopsAt ⟨t, guest⟩ w m :=
    run_stopsAt {} { ranges := [] } [.pin 0x7000 0x1000] guest w refused
  have first : m = 4 := by
    rcases Nat.lt_trichotomy m 4 with less | same | more
    · obtain ⟨a, leads, there⟩ := Option.map_eq_some_iff.1 (backed m less)
      have missing : guest.byte? a = none :=
        (congrArg (fun a => a.bind guest.byte?) leads).symm.trans stops.missing
      rw [← guest.isSome_byte?, missing] at there
      cases there
    · exact same
    · exact absurd (stops.before 4 more) (Option.not_isSome_iff_eq_none.2 lost)
  subst first
  have stored : ByteImage.store guest.byte? (w.storedAt t) 0 (w.data.take 4) 0x7ffc =
      (guest.byte? 0x7ffc).map fun _ => 0x11 := by
    refine ByteImage.store_of_last (j := 0) (by decide) (front 0 (by decide)) ?_
    intro k inside behind
    rw [front k inside, Ne, Option.some_inj]
    omega
  refine ⟨refused, stops, blank, ?_⟩
  rw [stops.image]
  exact stored.trans (congrArg _ blank)

end PinnedTables

end TlpBridge

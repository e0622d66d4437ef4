import TlpBridge.Proofs.Memory.ByteAccesses
import TlpBridge.Tlp.ByteEnable

/-!
# Bytewise accesses

After every run of calls to the tables, a read or a write of any alignment, length and number of
pages comes to an access to each of its bytes on its own, at the address that the tree for its kind
of address has for this byte.
-/
namespace TlpBridge

variable {A : IovaAllocator}

/-- The address in guest memory behind a device address, from the tree for its kind. -/
def Iommu.behind (t : Iommu A) (type : AddressType) (a : UInt64) : Option Nat :=
  match type with
  | .untranslated => (t.iova.translate a).map UInt64.toNat
  | .translated => (t.pa.translate a).map UInt64.toNat
  | .translationRequest | .reserved => none

/-- The byte of guest memory behind a device address, if there is one. -/
def HostMemory.byteBehind (h : HostMemory A) (type : AddressType) (a : UInt64) : Option UInt8 :=
  (h.iommu.behind type a).bind h.guest.byte?

/-- The enable flag of every byte of a write, and perhaps of some behind them. -/
def WriteRequest.mask (w : WriteRequest) : List Bool :=
  match w.enables with
  | none => List.replicate w.data.length true
  | some (first, last) => ByteEnable.expand ((w.data.length + 3) / 4) first last

/-- Where byte `i` of a write is to be stored, if it is enabled. -/
def WriteRequest.storedAt (w : WriteRequest) (t : Iommu A) (i : Nat) : Option Nat :=
  if w.mask[i]? = some true then t.behind w.addressType (w.addr + UInt64.ofNat i) else none

/-- The first address of the 4 KiB page of a device address. -/
def pageStart (a : UInt64) : UInt64 := UInt64.ofNat (a.toNat / 4096 * 4096)

namespace HostMemory

/-- A read is valid if every byte is there, with these bytes. -/
structure ReadsBytes (h : HostMemory A) (r : ReadRequest) : Prop where
  valid : (readResponse r (h.read r).answer).status = .valid ↔
    ∀ i < r.dataBytes, (h.byteBehind r.addressType (r.addr + UInt64.ofNat i)).isSome
  length : (readResponse r (h.read r).answer).status = .valid →
    (readResponse r (h.read r).answer).data.length = r.dataBytes
  data : (readResponse r (h.read r).answer).status = .valid → ∀ i < r.dataBytes,
    (readResponse r (h.read r).answer).data[i]? =
      h.byteBehind r.addressType (r.addr + UInt64.ofNat i)
  state : (h.read r).state = h

/-- A write is valid if every byte is there, and then its enabled bytes are stored one by one. It
touches no byte but behind its own addresses, in the pages behind its own pages. -/
structure WritesBytes (h : HostMemory A) (w : WriteRequest) : Prop where
  valid : (writeResponse (h.write w).1).status = .valid ↔
    ∀ i < w.data.length, (h.byteBehind w.addressType (w.addr + UInt64.ofNat i)).isSome
  image : (writeResponse (h.write w).1).status = .valid → (h.write w).2.guest.byte? =
    ByteImage.store h.guest.byte? (w.storedAt h.iommu) 0 w.data
  touched : ∀ a, (h.write w).2.guest.byte? a ≠ h.guest.byte? a → ∃ i < w.data.length,
    w.storedAt h.iommu i = some a ∧
      h.iommu.behind w.addressType (pageStart (w.addr + UInt64.ofNat i)) = some (a / 4096 * 4096)
  iommu : (h.write w).2.iommu = h.iommu

/-- Every access to data is an access to its bytes. Enables do not matter for the answer to a write,
and to enable every byte is to give no enables. -/
structure Bytewise (h : HostMemory A) : Prop where
  read : ∀ r : ReadRequest, r.addressType ≠ .translationRequest → r.atomic = none → h.ReadsBytes r
  write : ∀ w, h.WritesBytes w
  answer : ∀ w enables, (h.write { w with enables := enables }).1 = (h.write w).1
  allEnabled : ∀ w, (writeResponse (h.write w).1).status = .valid →
    (h.write { w with enables := some (0xf, 0xf) }).2.guest.byte? =
      (h.write { w with enables := none }).2.guest.byte?

end HostMemory

namespace Iommu

variable {t : Iommu A} {type : AddressType}

theorem place_eq_behind (t : Iommu A) (type : AddressType) (addr : UInt64) (i : Nat) :
    t.place type addr i = t.behind type (addr + UInt64.ofNat i) := by
  unfold place resolve behind translate virtualOf
  cases type with
  | untranslated => cases t.iova.translate (addr + UInt64.ofNat i) <;> rfl
  | translated => cases t.pa.translate (addr + UInt64.ofNat i) <;> rfl
  | translationRequest => rfl
  | reserved => rfl

theorem behind_eq_some_iff {a : UInt64} {n : Nat} :
    t.behind type a = some n ↔ ∃ va, t.resolve type a = .ok va ∧ va.toNat = n := by
  have at_ := t.place_eq_behind type a 0
  rw [add_ofNat_zero] at at_
  rw [← at_, place, add_ofNat_zero]
  cases t.resolve type a <;> simp

theorem toNat_pageStart (a : UInt64) : (pageStart a).toNat = a.toNat / 4096 * 4096 := by
  have word := a.toNat_lt
  rw [pageStart, UInt64.toNat_ofNat']
  omega

theorem Aligned.behind_pageStart (aligned : t.Aligned) {a : UInt64} {n : Nat}
    (leads : t.behind type a = some n) : t.behind type (pageStart a) = some (n / 4096 * 4096) := by
  obtain ⟨va, resolved, rfl⟩ := behind_eq_some_iff.1 leads
  have start := toNat_pageStart a
  have offset := aligned.resolve_offset resolved
  obtain ⟨w, found, apart⟩ := aligned.resolve_near (b := pageStart a) resolved (by omega)
  exact behind_eq_some_iff.2 ⟨w, found, by omega⟩

end Iommu

namespace WriteRequest

variable {w : WriteRequest} {i : Nat}

theorem getElem?_mask (inside : i < w.data.length) : w.mask[i]? = some (w.enabled i) := by
  unfold mask enabled
  cases w.enables with
  | none => rw [List.getElem?_replicate, if_pos inside]
  | some masks =>
    obtain ⟨first, last⟩ := masks
    have flag (m : UInt8) : ByteEnable.enables m (i % 4) = m.toNat.testBit (i % 4) := by
      simp [ByteEnable.enables, Nat.mod_lt]
    have counted : i < 4 * ((w.data.length + 3) / 4) := by omega
    have final : i / 4 + 1 = (w.data.length + 3) / 4 ↔
        i / 4 = (max w.data.length 1 - 1) / 4 := by omega
    simp only [ByteEnable.expand, List.getElem?_map, List.getElem?_range counted, Option.map_some,
      writeEnabled, flag, final]

theorem storedAt_eq_target (t : Iommu A) (inside : i < w.data.length) :
    w.storedAt t i = w.target t i := by
  rw [storedAt, target, getElem?_mask inside, t.place_eq_behind]
  simp only [Option.some_inj]

theorem storedAt_of_enabled (t : Iommu A) (inside : i < w.data.length) (on : w.enabled i = true) :
    w.storedAt t i = t.behind w.addressType (w.addr + UInt64.ofNat i) := by
  rw [storedAt, getElem?_mask inside, on, if_pos rfl]

theorem enabled_of_none (none_ : w.enables = none) : w.enabled i = true := by
  rw [enabled, none_]

theorem enabled_of_full (full : w.enables = some (0xf, 0xf)) : w.enabled i = true := by
  have bits : ∀ r < 4, (0xf : UInt8).toNat.testBit r = true := by decide
  have flag := bits (i % 4) (Nat.mod_lt i (by decide))
  simp only [enabled, full, writeEnabled, flag, ite_self]

end WriteRequest

namespace GuestMemory

theorem regions_storeBytes (m : GuestMemory) (addr : Nat) (data : List UInt8) :
    (m.storeBytes addr data).2.regions = m.regions := by
  induction data generalizing m addr with
  | nil => rfl
  | cons b bs ih =>
    unfold storeBytes
    split
    · exact ih (m.put addr b) (addr + 1)
    · rfl

theorem regions_store (m : GuestMemory) (addr : Nat) (data : List UInt8) :
    (m.store addr data).2.regions = m.regions := by
  unfold store
  split
  · exact m.regions_storeBytes addr data
  · rfl

end GuestMemory

/-- What the write of a piece is answered, whatever its enables and what memory holds. -/
def Piece.writeAnswer (p : Piece) (t : Iommu A) (type : AddressType) (m : GuestMemory) :
    Except AccessFault Unit :=
  match t.resolve type p.addr with
  | .error f => .error f
  | .ok va =>
    if ∀ j < p.length, m.isBacked (va.toNat + j) then .ok () else .error ⟨.illegal, p.addr, va⟩

theorem Piece.writeAnswer_congr (p : Piece) {t : Iommu A} {type : AddressType} {m m' : GuestMemory}
    (regions : m.regions = m'.regions) :
    p.writeAnswer t type m = p.writeAnswer t type m' := by
  have backed (a : Nat) : m.isBacked a = m'.isBacked a := by
    rw [GuestMemory.isBacked, GuestMemory.isBacked, regions]
  simp only [writeAnswer, backed]

theorem pieces_fit (addr : UInt64) (offset remaining : Nat) {p : Piece}
    (member : p ∈ pieces addr offset remaining) :
    0 < p.length ∧ p.offset + p.length ≤ offset + remaining := by
  induction addr, offset, remaining using pieces.induct with
  | case1 addr offset =>
    rw [pieces, if_pos rfl] at member
    cases member
  | case2 addr offset remaining some_ n ih =>
    have size : n = min (4096 - addr.toNat % 4096) remaining := rfl
    have page := Nat.mod_lt addr.toNat (by decide : 0 < 4096)
    rw [pieces, if_neg some_, List.mem_cons] at member
    rcases member with rfl | later
    · simp only
      omega
    · have fits := ih later
      omega

namespace HostMemory

variable {h h' : HostMemory A} {w : WriteRequest} {p : Piece}

theorem frame_writePiece (h : HostMemory A) (w : WriteRequest) (p : Piece) :
    (h.writePiece w p).2.iommu = h.iommu ∧
      (h.writePiece w p).2.guest.regions = h.guest.regions := by
  unfold writePiece
  cases h.iommu.resolve w.addressType p.addr with
  | error f => exact ⟨rfl, rfl⟩
  | ok va =>
    simp only
    split
    · exact ⟨rfl, rfl⟩
    · next bytes _ =>
      have same := h.guest.regions_store va.toNat bytes
      generalize h.guest.store va.toNat bytes = outcome at same ⊢
      obtain ⟨done, guest⟩ := outcome
      cases done <;> exact ⟨rfl, same⟩

/-- A piece is written if all of it is backed: what is to be merged can be loaded then, and what is
to be stored can be stored. -/
theorem answer_writePiece (h : HostMemory A) (positive : 0 < p.length)
    (fits : p.offset + p.length ≤ w.data.length) :
    (h.writePiece w p).1 = p.writeAnswer h.iommu w.addressType h.guest := by
  unfold writePiece Piece.writeAnswer
  cases h.iommu.resolve w.addressType p.addr with
  | error f => rfl
  | ok va =>
    have stored {bytes : List UInt8} (size : bytes.length = p.length) :
        (h.guest.store va.toNat bytes).1 ↔ ∀ j < p.length, h.guest.isBacked (va.toNat + j) :=
      size ▸ h.guest.store_fst_iff va.toNat (size.symm ▸ positive)
    cases w.enables with
    | none =>
      have done := stored (length_slice fits)
      simp only
      generalize h.guest.store va.toNat ((w.data.drop p.offset).take p.length) = outcome
        at done ⊢
      obtain ⟨whole, guest⟩ := outcome
      cases whole with
      | true => rw [if_pos (done.1 rfl)]
      | false => rw [if_neg fun all => nomatch done.2 all]
    | some masks =>
      have loads := h.guest.load_isSome_iff va.toNat positive
      cases loaded : h.guest.load va.toNat p.length with
      | none =>
        rw [loaded] at loads
        simp only [loaded, Option.map_none]
        rw [if_neg fun all => nomatch loads.2 all]
      | some old =>
        have length : (mergePiece w masks.1 masks.2 p old).length = p.length := by
          rw [mergePiece, List.length_map, List.length_zipIdx, GuestMemory.length_load loaded]
        have done := stored length
        simp only [loaded, Option.map_some]
        generalize h.guest.store va.toNat (mergePiece w masks.1 masks.2 p old) = outcome
          at done ⊢
        obtain ⟨whole, guest⟩ := outcome
        cases whole with
        | true => rw [if_pos (done.1 rfl)]
        | false => rw [if_neg fun all => nomatch done.2 all]

theorem answer_writePieces_enables (w : WriteRequest) (enables : Option (UInt8 × UInt8))
    {ps : List Piece} (fit : ∀ p ∈ ps, 0 < p.length ∧ p.offset + p.length ≤ w.data.length)
    (iommu : h'.iommu = h.iommu) (regions : h'.guest.regions = h.guest.regions) :
    (writePieces { w with enables := enables } ps h').1 = (writePieces w ps h).1 := by
  induction ps generalizing h h' with
  | nil => rfl
  | cons p ps ih =>
    obtain ⟨positive, inside⟩ := fit p List.mem_cons_self
    have first := h.answer_writePiece positive inside
    have first' := h'.answer_writePiece (w := { w with enables := enables }) positive inside
    rw [iommu, p.writeAnswer_congr regions, ← first] at first'
    have frame := h.frame_writePiece w p
    have frame' := h'.frame_writePiece { w with enables := enables } p
    unfold writePieces
    generalize h.writePiece w p = outcome at first' frame ⊢
    generalize h'.writePiece { w with enables := enables } p = outcome' at first' frame' ⊢
    obtain ⟨answer, s⟩ := outcome
    obtain ⟨answer', s'⟩ := outcome'
    obtain rfl : answer' = answer := first'
    cases answer' with
    | error f => rfl
    | ok u =>
      exact ih (fun p later => fit p (List.mem_cons_of_mem _ later))
        (frame'.1.trans (iommu.trans frame.1.symm)) (frame'.2.trans (regions.trans frame.2.symm))

theorem answer_write (h : HostMemory A) (w : WriteRequest) :
    (h.write w).1 = (writePieces w (pieces w.addr 0 w.data.length) h).1.map fun _ =>
      ⟨w.addr, h.firstVa w.addressType w.addr w.data.length, []⟩ := by
  unfold write
  generalize writePieces w (pieces w.addr 0 w.data.length) h = outcome
  obtain ⟨f | u, h'⟩ := outcome <;> rfl

theorem answer_write_enables (h : HostMemory A) (w : WriteRequest)
    (enables : Option (UInt8 × UInt8)) :
    (h.write { w with enables := enables }).1 = (h.write w).1 := by
  have fit (p : Piece) (member : p ∈ pieces w.addr 0 w.data.length) :
      0 < p.length ∧ p.offset + p.length ≤ w.data.length :=
    Nat.zero_add w.data.length ▸ pieces_fit w.addr 0 w.data.length member
  have same : (writePieces { w with enables := enables } (pieces w.addr 0 w.data.length) h).1 =
      (writePieces w (pieces w.addr 0 w.data.length) h).1 :=
    answer_writePieces_enables w enables fit rfl rfl
  rw [answer_write, answer_write]
  simp only [same]

theorem EndsBehind.image_storedAt {k : Nat} (ends : h.EndsBehind w k) : (h.write w).2.guest.byte? =
    ByteImage.store h.guest.byte? (w.storedAt h.iommu) 0 (w.data.take k) := by
  rw [ends.image]
  refine ByteImage.store_congr fun i inside => ?_
  rw [List.length_take] at inside
  rw [w.storedAt_eq_target _ (by omega)]

theorem readsBytes (aligned : h.iommu.Aligned) {r : ReadRequest}
    (kind : r.addressType ≠ .translationRequest) (plain : r.atomic = none) : h.ReadsBytes r := by
  have answer : (h.read r).answer = (h.readBytes r.addressType r.addr r.dataBytes).map fun data =>
      ⟨r.addr, h.firstVa r.addressType r.addr r.dataBytes, data⟩ := by
    simp [read, kind, plain]
  have present := exists_readBytes_iff r.addressType r.addr aligned r.dataBytes
  obtain ⟨state, shown⟩ := read_plain aligned kind plain
  have length := h.length_readResponse r fun translation => absurd translation kind
  refine ⟨?_, length, fun valid i inside => ?_, state⟩
  · unfold byteBehind
    simp only [← Iommu.place_eq_behind, ← present, answer]
    cases outcome : h.readBytes r.addressType r.addr r.dataBytes with
    | error f =>
      have fault := h.fits_readBytes r.addressType r.addr r.dataBytes
      rw [outcome] at fault
      exact iff_of_false fault (by simp)
    | ok data => exact iff_of_true rfl ⟨data, rfl⟩
  · have byte := shown valid i (length valid ▸ inside)
    rw [← byte, byteBehind, Nat.zero_add, Iommu.place_eq_behind]

theorem writesBytes (aligned : h.iommu.Aligned) (w : WriteRequest) : h.WritesBytes w := by
  obtain ⟨k, ends⟩ := exists_endsBehind aligned w
  refine ⟨?_, fun valid => ?_, fun a changed => ?_, ends.iommu⟩
  · unfold byteBehind
    simp only [← Iommu.place_eq_behind, ends.valid_iff]
  · rw [ends.image_storedAt, ends.valid.1 valid, List.take_length]
  · by_contra untouched
    refine changed ?_
    rw [ends.image_storedAt]
    refine ByteImage.store_of_ne fun i inside hits => untouched ?_
    rw [List.length_take] at inside
    have leads := (Option.ite_none_right_eq_some.1 hits).2
    exact ⟨0 + i, by omega, hits, aligned.behind_pageStart leads⟩

theorem bytewise (aligned : h.iommu.Aligned) : h.Bytewise where
  read _ kind plain := readsBytes aligned kind plain
  write w := writesBytes aligned w
  answer w enables := h.answer_write_enables w enables
  allEnabled w valid := by
    have full := h.answer_write_enables w (some (0xf, 0xf))
    have without := h.answer_write_enables w none
    rw [(writesBytes aligned _).image (full ▸ valid),
      (writesBytes aligned _).image (without ▸ valid)]
    refine ByteImage.store_congr fun i inside => ?_
    rw [Nat.zero_add, WriteRequest.storedAt_of_enabled _ inside (WriteRequest.enabled_of_full rfl),
      WriteRequest.storedAt_of_enabled (w := { w with enables := none }) _ inside
        (WriteRequest.enabled_of_none rfl)]

end HostMemory

/-- After every run accesses are bytewise, whatever guest memory is behind the tables. -/
theorem PinnedTables.run_bytewise (options : Switches) (map : MemoryMap) (calls : List IommuCall)
    (guest : GuestMemory) :
    let t : Iommu A := ((start options map).run calls).tables
    HostMemory.Bytewise ⟨t, guest⟩ :=
  HostMemory.bytewise (aligned_run options map calls)

/-- A write with enables from one page into the next, which are pinned far apart. -/
theorem PinnedTables.run_bytewise_two_pages :
    let t : Iommu FirstFit.allocator :=
      ((start {} { ranges := [] }).run [.pin 0x9000 0x1000, .pin 0x3000 0x1000]).tables
    let guest : GuestMemory := { regions := [⟨0x3000, 0x1000⟩, ⟨0x9000, 0x1000⟩] }
    let w : WriteRequest :=
      { addr := 0xffe, addressType := .untranslated, enables := some (0xd, 1)
        data := [1, 2, 3, 4, 5] }
    let written := HostMemory.write ⟨t, guest⟩ w
    (HostMemory.writeResponse written.1).status = .valid ∧
      (List.range 4).map (fun i => written.2.guest.byte? (0x9ffd + i)) =
        [some 0, some 1, some 0, none] ∧
      (List.range 4).map (fun i => written.2.guest.byte? (0x3000 + i)) =
        [some 3, some 4, some 5, some 0] := by
  intro t guest w written
  have bytes : HostMemory.WritesBytes ⟨t, guest⟩ w := (run_bytewise {} { ranges := [] }
    [.pin 0x9000 0x1000, .pin 0x3000 0x1000] guest).write w
  have backed : ∀ i < 5, (t.behind .untranslated (0xffe + UInt64.ofNat i)).map guest.isBacked =
      some true := by decide +kernel
  have targets : ∀ i < 5, w.storedAt t (0 + i) =
      [some 0x9ffe, none, some 0x3000, some 0x3001, some 0x3002].getD (0 + i) none := by
    decide +kernel
  have stored : ByteImage.store guest.byte? (w.storedAt t) 0 w.data = ByteImage.store guest.byte?
      (fun i => [some 0x9ffe, none, some 0x3000, some 0x3001, some 0x3002].getD i none) 0 w.data :=
    ByteImage.store_congr targets
  have blank : guest.byte? = fun a => if guest.isBacked a then some 0 else none := by
    funext a
    simp [GuestMemory.byte?, guest]
  have valid : (HostMemory.writeResponse written.1).status = .valid := by
    refine bytes.valid.2 fun i inside => ?_
    obtain ⟨a, leads, there⟩ := Option.map_eq_some_iff.1 (backed i inside)
    exact (congrArg (fun t => (t.bind guest.byte?).isSome) leads).trans
      ((guest.isSome_byte? a).trans there)
  have image := (bytes.image valid).trans stored
  rw [blank] at image
  refine ⟨valid, ?_, ?_⟩
  · rw [image]
    decide +kernel
  · rw [image]
    decide +kernel

end TlpBridge

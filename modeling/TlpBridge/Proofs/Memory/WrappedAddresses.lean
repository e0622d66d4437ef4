import TlpBridge.Proofs.Memory.ByteAccesses
import TlpBridge.Proofs.Iommu.HeldRanges

/-!
# Wrapped addresses

Of a device address only the lower 48 bits count, for a translation and for every access: an address
beyond the IOVA space leads where its lower bits lead. An access is valid if and only if the lower
bits of the address of each of its bytes lead to memory.
-/
namespace TlpBridge

open PageSize

variable {A : IovaAllocator}

/-- The address of 48 bits that stands for a device address. -/
def wrapped (a : UInt64) : UInt64 := UInt64.ofNat (a.toNat % 2 ^ 48)

/-- The lower 48 bits of a device address lead to a byte of guest memory. -/
def HostMemory.Reaches (h : HostMemory A) (a : UInt64) : Prop :=
  ∃ va, h.iommu.translate (wrapped a) = some va ∧ h.guest.isBacked va.toNat

/-- A status tells whether all of an access was made, and why it was not. -/
def AccessStatus.Reports (status : AccessStatus) (whole : Prop) (causes : List AccessStatus) :
    Prop :=
  (status = .valid ↔ whole) ∧ (status = .valid ∨ status ∈ causes)

/-- What device addresses beyond 48 bits come to, in tables and for any guest memory behind them. -/
structure Iommu.Wraps (t : Iommu A) (v : A.View) : Prop where
  translate : ∀ a, t.translate a = t.translate (wrapped a)
  untranslated : ∀ a, t.translate a = none ↔ ∀ p ∈ t.iova.pages, ¬ p.Holds a
  /-- To take back a pin there is refused, but a page that holds the wrapped address is lost. -/
  unpin : ∀ a len, 2 ^ 48 ≤ a.toNat → (∃ e, (t.unpin a len).answer = .error e) ∧
    ((t.unpin a len).state = t ↔ ∀ p ∈ t.iova.pages, ¬ p.IsNamed a len) ∧
    ∀ p ∈ t.iova.pages, p.IsNamed a len → t.Loses v p (t.unpin a len).state
  read : ∀ guest (r : ReadRequest), r.addressType = .untranslated → r.atomic = none →
    (HostMemory.readResponse r (HostMemory.read ⟨t, guest⟩ r).answer).status.Reports
      (∀ j < r.dataBytes, HostMemory.Reaches ⟨t, guest⟩ (r.addr + UInt64.ofNat j))
      [.notPinned, .illegal]
  write : ∀ guest (w : WriteRequest), w.addressType = .untranslated →
    (HostMemory.writeResponse (HostMemory.write ⟨t, guest⟩ w).1).status.Reports
      (∀ j < w.data.length, HostMemory.Reaches ⟨t, guest⟩ (w.addr + UInt64.ofNat j))
      [.notPinned, .illegal]
  atomic : ∀ guest (r : ReadRequest), r.addressType = .untranslated → r.atomic.isSome →
    (HostMemory.readResponse r (HostMemory.read ⟨t, guest⟩ r).answer).status.Reports
      ((r.dataBytes = 4 ∨ r.dataBytes = 8) ∧ r.addr.toNat % 4096 + r.dataBytes ≤ 4096 ∧
        ∀ j < r.dataBytes, HostMemory.Reaches ⟨t, guest⟩ (r.addr + UInt64.ofNat j))
      [.notPinned, .illegal, .crosses4K]

theorem toNat_wrapped (a : UInt64) : (wrapped a).toNat = a.toNat % 2 ^ 48 := by
  rw [wrapped, UInt64.toNat_ofNat']
  omega

theorem RadixTable.translate_wrapped (n : RadixTable) (a : UInt64) :
    n.translate a = n.translate (wrapped a) := by
  have number : (wrapped a).toNat % 2 ^ 48 = a.toNat % 2 ^ 48 := by
    rw [toNat_wrapped, Nat.mod_mod]
  ext v
  rw [translate_eq_some_iff, translate_eq_some_iff]
  refine exists_congr fun s => and_congr_right fun inside => exists_congr fun l => ?_
  have same : SamePage a (wrapped a) s rootLevel := by
    rw [SamePage.root_iff inside, number]
  have offset : (wrapped a).toNat % bytesAt s = a.toNat % bytesAt s := by
    have span : bytesAt s ∣ 2 ^ 48 := bytesAt_dvd (Nat.le_succ_of_le inside)
    rw [toNat_wrapped, Nat.mod_mod_of_dvd _ span]
  rw [leafAt?_congr n same inside, offset]

namespace Iommu

variable {t : Iommu A} {v : A.View}

theorem translate_eq_none_iff (t : Iommu A) (a : UInt64) :
    t.translate a = none ↔ ∀ p ∈ t.iova.pages, ¬ p.Holds a := by
  rw [translate, RadixTable.translate, Option.map_eq_none_iff, RadixTable.lookup_eq_none_iff]

theorem Held.unpin_beyond (h : t.Held v) (laws : A.Laws v) {a : UInt64}
    (beyond : 2 ^ 48 ≤ a.toNat) (len : UInt64) : ∃ e, (t.unpin a len).answer = .error e := by
  rcases h.unpin_cases laws a len with
    ⟨-, e, step⟩ | ⟨p, member, -, table, -, ⟨-, ⟨e, refused⟩, -⟩ | ⟨start, -⟩⟩
  · exact ⟨e, by rw [step]⟩
  · exact ⟨.allocator e, refused⟩
  · have fits := ((RadixTable.mem_pages_iff _ p).1 member).2.1
    omega

end Iommu

/-- What a refused access to pinned pages tells. -/
def RefusedPinned {α : Type} (answer : Except AccessFault α) : Prop :=
  ∀ f, answer = .error f → f.status = .notPinned ∨ f.status = .illegal

namespace GuestMemory

theorem store_of_load {m : GuestMemory} {addr : Nat}
    {old new : List UInt8} (positive : 0 < new.length)
    (loaded : m.load addr new.length = some old) : (m.store addr new).1 = true := by
  rw [store_fst_iff m addr positive, ← load_isSome_iff m addr positive, loaded]
  rfl

end GuestMemory

namespace HostMemory

variable {h : HostMemory A}

theorem isSome_place_iff (h : HostMemory A) (base : UInt64) (j : Nat) :
    ((h.iommu.place .untranslated base j).bind h.guest.byte?).isSome ↔
      h.Reaches (base + UInt64.ofNat j) := by
  have wraps : h.iommu.translate (base + UInt64.ofNat j) = _ :=
    h.iommu.iova.translate_wrapped (base + UInt64.ofNat j)
  unfold Reaches Iommu.place Iommu.resolve
  rw [wraps]
  change _ ↔ ∃ va, h.iommu.iova.translate _ = some va ∧ _
  cases h.iommu.iova.translate (wrapped (base + UInt64.ofNat j)) with
  | none => simp
  | some va => simp [GuestMemory.isSome_byte?]

theorem not_reaches_of_missing {base : UInt64} {n j : Nat} (inside : j < n)
    (missing : (h.iommu.place .untranslated base j).bind h.guest.byte? = none) :
    ¬ ∀ j < n, h.Reaches (base + UInt64.ofNat j) := by
  intro all
  have there := (h.isSome_place_iff base j).2 (all j inside)
  rw [missing] at there
  cases there

theorem status_of_untranslated {a : UInt64} {f : AccessFault}
    (refused : h.iommu.resolve .untranslated a = .error f) : f.status = .notPinned := by
  unfold Iommu.resolve at refused
  cases leads : h.iommu.translate a with
  | none =>
    simp only [leads] at refused
    cases refused
    rfl
  | some va => simp [leads] at refused

theorem refused_readPiece (p : Piece) : RefusedPinned (h.readPiece .untranslated p) := by
  unfold readPiece
  cases leads : h.iommu.resolve .untranslated p.addr with
  | error f =>
    rintro _ ⟨⟩
    exact .inl (status_of_untranslated leads)
  | ok va =>
    cases loaded : h.guest.load va.toNat p.length with
    | none =>
      simp only [loaded]
      rintro _ ⟨⟩
      exact .inr rfl
    | some bytes =>
      simp only [loaded]
      rintro _ ⟨⟩

theorem refused_readPieces (ps : List Piece) : RefusedPinned (h.readPieces .untranslated ps) := by
  induction ps with
  | nil => rintro _ ⟨⟩
  | cons p rest ih =>
    have first := h.refused_readPiece p
    unfold readPieces
    cases piece : h.readPiece .untranslated p with
    | error f =>
      rw [piece] at first
      exact first
    | ok bytes =>
      cases more : h.readPieces .untranslated rest with
      | error f =>
        rw [more] at ih
        rintro _ ⟨⟩
        exact ih f rfl
      | ok others => rintro _ ⟨⟩

theorem refused_writePiece {w : WriteRequest} (kind : w.addressType = .untranslated) (p : Piece) :
    RefusedPinned (h.writePiece w p).1 := by
  unfold writePiece
  rw [kind]
  cases leads : h.iommu.resolve .untranslated p.addr with
  | error f =>
    rintro _ ⟨⟩
    exact .inl (status_of_untranslated leads)
  | ok va =>
    simp only
    split
    · rintro _ ⟨⟩
      exact .inr rfl
    · split
      · rintro _ ⟨⟩
      · rintro _ ⟨⟩
        exact .inr rfl

theorem refused_writePieces {w : WriteRequest} (kind : w.addressType = .untranslated)
    (ps : List Piece) (h : HostMemory A) : RefusedPinned (writePieces w ps h).1 := by
  induction ps generalizing h with
  | nil => rintro _ ⟨⟩
  | cons p rest ih =>
    have first := refused_writePiece (h := h) kind p
    unfold writePieces
    generalize h.writePiece w p = outcome at first ⊢
    obtain ⟨f | u, h'⟩ := outcome
    · exact first
    · exact ih h'

theorem read_reports (aligned : h.iommu.Aligned) {r : ReadRequest}
    (kind : r.addressType = .untranslated) (plain : r.atomic = none) :
    (readResponse r (h.read r).answer).status.Reports
      (∀ j < r.dataBytes, h.Reaches (r.addr + UInt64.ofNat j)) [.notPinned, .illegal] := by
  have data : (h.read r).answer = (h.readBytes .untranslated r.addr r.dataBytes).map fun data =>
      ⟨r.addr, h.firstVa .untranslated r.addr r.dataBytes, data⟩ := by
    simp [read, kind, plain]
  rw [data]
  cases answer : h.readBytes .untranslated r.addr r.dataBytes with
  | error f =>
    have cause := h.refused_readPieces _ f answer
    obtain ⟨j, inside, missing⟩ := missing_of_readBytes aligned answer
    have partial_ := not_reaches_of_missing inside missing
    rcases cause with pinned | illegal
    · simp [AccessStatus.Reports, Except.map, readResponse, pinned, partial_]
    · simp [AccessStatus.Reports, Except.map, readResponse, illegal, partial_]
  | ok bytes =>
    have all := (exists_readBytes_iff _ _ aligned r.dataBytes).1 ⟨bytes, answer⟩
    exact ⟨iff_of_true rfl fun j inside => (h.isSome_place_iff _ j).1 (all j inside), .inl rfl⟩

theorem write_reports (aligned : h.iommu.Aligned) {w : WriteRequest}
    (kind : w.addressType = .untranslated) :
    (writeResponse (h.write w).1).status.Reports
      (∀ j < w.data.length, h.Reaches (w.addr + UInt64.ofNat j)) [.notPinned, .illegal] := by
  obtain ⟨k, ends⟩ := exists_endsBehind aligned w
  constructor
  · simp only [ends.valid_iff, kind, isSome_place_iff]
  · have cause := refused_writePieces kind (pieces w.addr 0 w.data.length) h
    unfold write
    generalize writePieces w (pieces w.addr 0 w.data.length) h = outcome at cause ⊢
    obtain ⟨f | u, h'⟩ := outcome
    · rcases cause f rfl with pinned | illegal
      · simp [writeResponse, pinned]
      · simp [writeResponse, illegal]
    · exact .inl rfl

theorem atomic_reports (aligned : h.iommu.Aligned) {r : ReadRequest}
    (kind : r.addressType = .untranslated) (operation : r.atomic.isSome) :
    (readResponse r (h.read r).answer).status.Reports
      ((r.dataBytes = 4 ∨ r.dataBytes = 8) ∧ r.addr.toNat % 4096 + r.dataBytes ≤ 4096 ∧
        ∀ j < r.dataBytes, h.Reaches (r.addr + UInt64.ofNat j))
      [.notPinned, .illegal, .crosses4K] := by
  obtain ⟨op, some_⟩ := Option.isSome_iff_exists.1 operation
  have answer : (h.read r).answer = (h.atomic r op).1 := by
    simp [read, kind, some_]
  rw [answer]
  unfold atomic
  by_cases size : r.dataBytes = 4 ∨ r.dataBytes = 8
  · by_cases page : r.addr.toNat % 4096 + r.dataBytes ≤ 4096
    · have of : Piece.Of ⟨r.addr, 0, r.dataBytes⟩ r.addr :=
        ⟨(add_ofNat_zero _).symm, by simp only; omega, page⟩
      have supported : ¬ (r.dataBytes ≠ 4 ∧ r.dataBytes ≠ 8) := by omega
      simp only [if_neg supported, if_neg (Nat.not_lt.2 page), kind, size, page, true_and]
      cases leads : h.iommu.resolve .untranslated r.addr with
      | error f =>
        have missing := of.place_of_error leads
        have partial_ := not_reaches_of_missing of.positive (by rw [missing]; rfl)
        simp [AccessStatus.Reports, readResponse, status_of_untranslated leads, partial_]
      | ok va =>
        rcases h.guest.load_cases va.toNat of.positive with
          ⟨old, loaded, length, shown⟩ | ⟨loaded, j, inside, none_⟩
        · have seen : ByteImage.Shows h.guest.byte? (h.iommu.place .untranslated r.addr) 0 old :=
            of.shown aligned leads length shown
          have whole (j : Nat) (inside : j < r.dataBytes) :
              h.Reaches (r.addr + UInt64.ofNat j) := by
            rw [← isSome_place_iff, ← Nat.zero_add j]
            exact seen.isSome (length.symm ▸ inside)
          generalize is : littleEndian r.dataBytes (op.result r.dataBytes (ofLittleEndian old)) =
            new
          have size : new.length = r.dataBytes := is ▸ length_littleEndian ..
          have stored : (h.guest.store va.toNat new).1 = true :=
            GuestMemory.store_of_load (size ▸ of.positive) (size ▸ loaded)
          simp only [loaded, is]
          generalize h.guest.store va.toNat new = outcome at stored ⊢
          obtain ⟨done, guest⟩ := outcome
          cases stored
          exact ⟨iff_of_true rfl whole, .inl rfl⟩
        · have missing : (h.iommu.place .untranslated r.addr j).bind h.guest.byte? = none := by
            rw [← Nat.zero_add j, of.place aligned leads inside, Option.bind_some, none_]
          have partial_ := not_reaches_of_missing inside missing
          simp [AccessStatus.Reports, readResponse, loaded, partial_]
    · have supported : ¬ (r.dataBytes ≠ 4 ∧ r.dataBytes ≠ 8) := by omega
      simp [AccessStatus.Reports, readResponse, if_neg supported, Nat.lt_of_not_le page, page]
  · have unsupported : r.dataBytes ≠ 4 ∧ r.dataBytes ≠ 8 := by omega
    simp [AccessStatus.Reports, readResponse, unsupported]

end HostMemory

namespace PinnedTables

/-- In every run, whatever allocator hands out the ranges, device addresses wrap at 48 bits: no
address beyond them is refused for being there. -/
theorem run_wraps {A : IovaAllocator} {v : A.View} (laws : A.Laws v) (options : Switches)
    (map : MemoryMap) (calls : List IommuCall) :
    let t : Iommu A := ((start options map).run calls).tables
    t.Wraps v := by
  intro t
  have aligned : t.Aligned := aligned_run options map calls
  have held : t.Held v := held_run laws options map calls
  exact {
    translate := t.iova.translate_wrapped
    untranslated := t.translate_eq_none_iff
    unpin := fun a len beyond => by
      obtain ⟨e, refused⟩ := held.unpin_beyond laws beyond len
      obtain ⟨same, loses⟩ := held.unpin_refused laws refused
      exact ⟨⟨e, refused⟩, same, fun p member named => (loses p member named).2⟩
    read := fun guest r kind plain => HostMemory.read_reports aligned kind plain
    write := fun guest w kind => HostMemory.write_reports aligned kind
    atomic := fun guest r kind operation => HostMemory.atomic_reports aligned kind operation }

/-- The page that was pinned at 0 is reached at 2^48 as well. -/
theorem run_wraps_first_page :
    let t : Iommu FirstFit.allocator :=
      ((start {} { ranges := [] }).run [.pin 0x7000 0x1000]).tables
    t.Wraps FirstFit.view ∧ t.translate 0 = some 0x7000 ∧
      t.translate 0x1000000000000 = some 0x7000 := by
  intro t
  have wraps : t.Wraps FirstFit.view :=
    run_wraps FirstFit.laws {} { ranges := [] } [.pin 0x7000 0x1000]
  have first : t.translate 0 = some 0x7000 := by decide +kernel
  refine ⟨wraps, first, ?_⟩
  rw [wraps.translate]
  exact first

end PinnedTables

end TlpBridge

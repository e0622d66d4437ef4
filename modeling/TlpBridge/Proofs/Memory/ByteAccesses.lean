import TlpBridge.Proofs.Memory.ByteImages
import TlpBridge.Proofs.Memory.MemoryAnswers
import TlpBridge.Proofs.Memory.WholePages

/-!
# Accesses byte by byte

The memory service cuts an access into pieces of one 4 KiB page and resolves each at its first
address. With whole pages in the tables this is the same as to resolve every byte on its own: a read
answers with the bytes at their places, and a write stores its enabled bytes in ascending order, up
to the first piece of which not all is there.
-/
namespace TlpBridge

variable {A : IovaAllocator}

/-- The address in memory of byte `i` of an access. -/
def Iommu.place (t : Iommu A) (type : AddressType) (addr : UInt64) (i : Nat) : Option Nat :=
  match t.resolve type (addr + UInt64.ofNat i) with
  | .ok va => some va.toNat
  | .error _ => none

/-- Whether byte `i` of a write is to be stored. -/
def WriteRequest.enabled (w : WriteRequest) (i : Nat) : Bool :=
  match w.enables with
  | none => true
  | some (first, last) => writeEnabled w.data.length first last i

/-- The address in memory where byte `i` of a write is to be stored. -/
def WriteRequest.target (w : WriteRequest) (t : Iommu A) (i : Nat) : Option Nat :=
  if w.enabled i then t.place w.addressType w.addr i else none

/-- How far a write gets of which byte `m` is the first missing: up to this byte, or, with enables,
up to the 4 KiB page it lies in. -/
def WriteRequest.stop (w : WriteRequest) (m : Nat) : Nat :=
  match w.enables with
  | none => m
  | some _ => m - (w.addr + UInt64.ofNat m).toNat % 4096

/-- An answer tells whether all of an access was made, and a fault has a status of its own. -/
def Tells {α : Type} (answer : Except AccessFault α) (whole : Prop) : Prop :=
  match answer with
  | .ok _ => whole
  | .error f => f.status ≠ .valid ∧ ¬ whole

theorem add_ofNat_zero (a : UInt64) : a + UInt64.ofNat 0 = a := UInt64.add_zero a

theorem toNat_add_ofNat {a : UInt64} {i : Nat} (inside : a.toNat % 4096 + i < 4096) :
    (a + UInt64.ofNat i).toNat = a.toNat + i := by
  have word := a.toNat_lt
  rw [UInt64.toNat_add, UInt64.toNat_ofNat']
  omega

namespace Iommu

variable {t : Iommu A} {type : AddressType} {a : UInt64}

theorem Aligned.place_near (aligned : t.Aligned) {va : UInt64} (leads : t.resolve type a = .ok va)
    {i : Nat} (inside : a.toNat % 4096 + i < 4096) :
    t.place type a i = some (va.toNat + i) := by
  have sum := toNat_add_ofNat inside
  obtain ⟨w, found, apart⟩ := aligned.resolve_near (b := a + UInt64.ofNat i) leads (by omega)
  rw [place, found]
  simp only [Option.some_inj]
  omega

theorem place_add (t : Iommu A) (type : AddressType) (a : UInt64) (i j : Nat) :
    t.place type a (i + j) = t.place type (a + UInt64.ofNat i) j := by
  rw [place, place, UInt64.ofNat_add, UInt64.add_assoc]

theorem place_zero_of_error {f : AccessFault} (refused : t.resolve type a = .error f) :
    t.place type a 0 = none := by
  rw [place]
  simp [refused]

end Iommu

/-- A piece of an access at `base`, inside one 4 KiB page. -/
structure Piece.Of (p : Piece) (base : UInt64) : Prop where
  addr : p.addr = base + UInt64.ofNat p.offset
  positive : 0 < p.length
  page : p.addr.toNat % 4096 + p.length ≤ 4096

/-- A piece starts its access or a 4 KiB page. -/
def Piece.Starts (p : Piece) : Prop := p.offset = 0 ∨ p.addr.toNat % 4096 = 0

theorem pieces_first (base : UInt64) (offset : Nat) {remaining : Nat} (some_ : remaining ≠ 0) :
    ∃ n, n ≤ remaining ∧ Piece.Of ⟨base + UInt64.ofNat offset, offset, n⟩ base ∧
      (n < remaining →
        Piece.Starts ⟨base + UInt64.ofNat (offset + n), offset + n, remaining - n⟩) ∧
      pieces (base + UInt64.ofNat offset) offset remaining =
        ⟨base + UInt64.ofNat offset, offset, n⟩ ::
          pieces (base + UInt64.ofNat (offset + n)) (offset + n) (remaining - n) := by
  have inside := Nat.mod_lt (base + UInt64.ofNat offset).toNat (by decide : 0 < 4096)
  refine ⟨min (4096 - (base + UInt64.ofNat offset).toNat % 4096) remaining, Nat.min_le_right ..,
    ⟨rfl, ?_, ?_⟩, fun cut => ?_, ?_⟩
  · simp only
    omega
  · simp only
    omega
  · right
    simp only
    rw [UInt64.ofNat_add, ← UInt64.add_assoc, UInt64.toNat_add, UInt64.toNat_ofNat']
    omega
  · rw [pieces, if_neg some_, UInt64.ofNat_add, ← UInt64.add_assoc]

namespace Piece.Of

variable {t : Iommu A} {type : AddressType} {base va : UInt64} {p : Piece}

theorem place (of : p.Of base) (aligned : t.Aligned) (leads : t.resolve type p.addr = .ok va)
    {i : Nat} (inside : i < p.length) :
    t.place type base (p.offset + i) = some (va.toNat + i) := by
  have page := of.page
  rw [Iommu.place_add, ← of.addr]
  exact aligned.place_near leads (by omega)

theorem place_of_error (of : p.Of base) {f : AccessFault}
    (refused : t.resolve type p.addr = .error f) : t.place type base (p.offset + 0) = none := by
  rw [Iommu.place_add, ← of.addr]
  exact Iommu.place_zero_of_error refused

theorem shown (of : p.Of base) (aligned : t.Aligned) (leads : t.resolve type p.addr = .ok va)
    {im : ByteImage} {data : List UInt8} (length : data.length = p.length)
    (shown : im.Shows (fun j => some (va.toNat + j)) 0 data) :
    im.Shows (t.place type base) p.offset data := by
  intro j inside
  rw [of.place aligned leads (length ▸ inside), ← shown j inside, Nat.zero_add]

theorem stop_eq {w : WriteRequest} (of : p.Of w.addr) (start : p.Starts) {m : Nat}
    (inside : m < p.length) {masks : UInt8 × UInt8} (masked : w.enables = some masks) :
    w.stop (p.offset + m) = p.offset := by
  have page := of.page
  have within : p.addr.toNat % 4096 + m < 4096 := by omega
  rw [WriteRequest.stop, masked, UInt64.ofNat_add, ← UInt64.add_assoc, ← of.addr]
  simp only [toNat_add_ofNat within]
  rcases start with first | border <;> omega

end Piece.Of

namespace GuestMemory

variable {m : GuestMemory} {addr n : Nat}

theorem load_cases (m : GuestMemory) (addr : Nat) (positive : 0 < n) :
    (∃ bytes, m.load addr n = some bytes ∧ bytes.length = n ∧
      ByteImage.Shows m.byte? (fun j => some (addr + j)) 0 bytes) ∨
    m.load addr n = none ∧ ∃ j < n, m.byte? (addr + j) = none := by
  unfold load
  by_cases backed : m.isBacked addr
  · rw [if_pos backed]
    cases loaded : m.loadBytes addr n with
    | none => exact .inr ⟨rfl, missing_of_loadBytes loaded⟩
    | some bytes => exact .inl ⟨bytes, rfl, length_loadBytes loaded, shows_loadBytes loaded⟩
  · rw [if_neg backed]
    exact .inr ⟨rfl, 0, positive, if_neg backed⟩

theorem store_eq_storeBytes (m : GuestMemory) (addr : Nat) {data : List UInt8}
    (positive : 0 < data.length) : m.store addr data = m.storeBytes addr data := by
  obtain ⟨b, bs, rfl⟩ := List.exists_cons_of_length_pos positive
  unfold store
  by_cases backed : m.isBacked addr
  · rw [if_pos backed]
  · rw [if_neg backed, storeBytes, if_neg backed]

theorem load_isSome_iff (m : GuestMemory) (addr : Nat) (positive : 0 < n) :
    (m.load addr n).isSome ↔ ∀ j < n, m.isBacked (addr + j) := by
  simp only [← isSome_byte?]
  rcases m.load_cases addr positive with ⟨bytes, loaded, rfl, shown⟩ | ⟨none_, j, inside, missing⟩
  · rw [loaded]
    exact iff_of_true rfl fun j inside => Nat.zero_add j ▸ shown.isSome inside
  · rw [none_]
    refine iff_of_false nofun fun all => ?_
    have there := all j inside
    rw [missing] at there
    cases there

theorem store_fst_iff (m : GuestMemory) (addr : Nat) {data : List UInt8}
    (positive : 0 < data.length) :
    (m.store addr data).1 ↔ ∀ j < data.length, m.isBacked (addr + j) := by
  obtain ⟨k, front, whole, -⟩ := m.storeBytes_front addr data
  rw [m.store_eq_storeBytes addr positive, whole]
  simp only [← isSome_byte?]
  constructor
  · rintro rfl j inside
    exact Nat.zero_add j ▸ front.present j inside
  · exact fun all => front.eq_of_present fun j inside => (Nat.zero_add j).symm ▸ all j inside

end GuestMemory

namespace HostMemory

variable {h : HostMemory A} {type : AddressType} {base : UInt64} {p : Piece}

/-- What a read of `n` bytes from byte `i` of an access on answers: what is there, or that something
is not. -/
def Sees (im : ByteImage) (place : Nat → Option Nat) (i n : Nat) :
    Except AccessFault (List UInt8) → Prop
  | .ok data => im.Shows place i data
  | .error _ => ∃ j < n, (place (i + j)).bind im = none

theorem sees_readPiece (type : AddressType) (aligned : h.iommu.Aligned) (of : p.Of base) :
    Sees h.guest.byte? (h.iommu.place type base) p.offset p.length (h.readPiece type p) := by
  unfold readPiece
  cases leads : h.iommu.resolve type p.addr with
  | error f => exact ⟨0, of.positive, by rw [of.place_of_error leads, Option.bind_none]⟩
  | ok va =>
    rcases h.guest.load_cases va.toNat of.positive with
      ⟨bytes, loaded, length, shown⟩ | ⟨loaded, j, inside, none_⟩
    · simp only [loaded]
      exact of.shown aligned leads length shown
    · simp only [loaded]
      exact ⟨j, inside, by rw [of.place aligned leads inside, Option.bind_some, none_]⟩

theorem sees_readPieces (type : AddressType) (base : UInt64) (aligned : h.iommu.Aligned)
    (offset remaining : Nat) :
    Sees h.guest.byte? (h.iommu.place type base) offset remaining
      (h.readPieces type (pieces (base + UInt64.ofNat offset) offset remaining)) := by
  induction remaining using Nat.strong_induction_on generalizing offset with
  | h remaining ih =>
    by_cases some_ : remaining = 0
    · rw [pieces, if_pos some_]
      exact fun j inside => absurd inside (Nat.not_lt_zero j)
    · obtain ⟨n, le, of, -, cut⟩ := pieces_first base offset some_
      have first := sees_readPiece type aligned of
      have length := h.fits_readPiece type ⟨base + UInt64.ofNat offset, offset, n⟩
      have rest := ih (remaining - n) (Nat.sub_lt (Nat.pos_of_ne_zero some_) of.positive)
        (offset + n)
      rw [cut]
      unfold readPieces
      cases piece : h.readPiece type ⟨base + UInt64.ofNat offset, offset, n⟩ with
      | error f =>
        rw [piece] at first
        obtain ⟨j, inside, none_⟩ := first
        exact ⟨j, Nat.lt_of_lt_of_le inside le, none_⟩
      | ok bytes =>
        rw [piece] at first length
        change bytes.length = n at length
        cases more : h.readPieces type (pieces (base + UInt64.ofNat (offset + n)) (offset + n)
            (remaining - n)) with
        | error f =>
          rw [more] at rest
          obtain ⟨j, inside, none_⟩ := rest
          exact ⟨n + j, by omega, by rwa [← Nat.add_assoc]⟩
        | ok others =>
          rw [more] at rest
          exact first.append (length.symm ▸ rest)

theorem sees_readBytes (type : AddressType) (base : UInt64) (aligned : h.iommu.Aligned) (n : Nat) :
    Sees h.guest.byte? (h.iommu.place type base) 0 n (h.readBytes type base n) := by
  have sees := sees_readPieces type base aligned 0 n
  rwa [add_ofNat_zero] at sees

theorem missing_of_readBytes (aligned : h.iommu.Aligned) {n : Nat} {f : AccessFault}
    (refused : h.readBytes type base n = .error f) :
    ∃ i < n, (h.iommu.place type base i).bind h.guest.byte? = none := by
  have sees := sees_readBytes type base aligned n
  rw [refused] at sees
  obtain ⟨i, inside, missing⟩ := sees
  exact ⟨i, inside, Nat.zero_add i ▸ missing⟩

theorem readBytes_eq_ok_iff (aligned : h.iommu.Aligned) (n : Nat) (data : List UInt8) :
    h.readBytes type base n = .ok data ↔
      data.length = n ∧ ByteImage.Shows h.guest.byte? (h.iommu.place type base) 0 data := by
  have sees := sees_readBytes type base aligned n
  have fits := h.fits_readBytes type base n
  constructor
  · intro answer
    rw [answer] at sees fits
    exact ⟨fits, sees⟩
  · rintro ⟨length, shown⟩
    cases answer : h.readBytes type base n with
    | error f =>
      obtain ⟨i, inside, missing⟩ := missing_of_readBytes aligned answer
      have there := shown.isSome (length.symm ▸ inside)
      rw [Nat.zero_add, missing] at there
      cases there
    | ok data' =>
      rw [answer] at sees fits
      rw [shown.unique sees (length.trans fits.symm)]

theorem exists_readBytes_iff (type : AddressType) (base : UInt64) (aligned : h.iommu.Aligned)
    (n : Nat) :
    (∃ data, h.readBytes type base n = .ok data) ↔
      ∀ i < n, ((h.iommu.place type base i).bind h.guest.byte?).isSome := by
  constructor
  · rintro ⟨data, answer⟩ i inside
    obtain ⟨length, shown⟩ := (readBytes_eq_ok_iff aligned n data).1 answer
    exact Nat.zero_add i ▸ shown.isSome (length ▸ inside)
  · intro all
    cases answer : h.readBytes type base n with
    | ok data => exact ⟨data, rfl⟩
    | error f =>
      obtain ⟨i, inside, missing⟩ := missing_of_readBytes aligned answer
      have there := all i inside
      rw [missing] at there
      cases there

/-- A write of the `n` bytes from byte `i` on ends behind the first `k` of them. -/
structure Writes (h : HostMemory A) (w : WriteRequest) (i n k : Nat)
    (outcome : Except AccessFault Unit × HostMemory A) : Prop where
  front : ByteImage.Front h.guest.byte? (h.iommu.place w.addressType w.addr) i k n
  told : Tells outcome.1 (k = n)
  iommu : outcome.2.iommu = h.iommu
  image : outcome.2.guest.byte? =
    ByteImage.store h.guest.byte? (w.target h.iommu) i ((w.data.drop i).take k)
  stop : k < n → ∃ m < n,
    ByteImage.FirstMissing h.guest.byte? (h.iommu.place w.addressType w.addr) i m ∧
      i + k = w.stop (i + m)

theorem getElem?_mergePiece {w : WriteRequest} {first last : UInt8} {old : List UInt8} {j : Nat}
    (inside : j < old.length) (fits : p.offset + j < w.data.length) :
    (mergePiece w first last p old)[j]? =
      if writeEnabled w.data.length first last (p.offset + j) then
        ((w.data.drop p.offset).take old.length)[j]?
      else old[j]? := by
  rw [mergePiece, List.getElem?_map, List.getElem?_zipIdx, List.getElem?_eq_getElem inside,
    List.getElem?_take_of_lt inside, List.getElem?_drop, List.getElem?_eq_getElem fits]
  simp only [Option.map_some, Nat.zero_add, List.getD_eq_getElem _ _ fits, apply_ite some]

theorem front_store (aligned : h.iommu.Aligned) (of : p.Of base) {va : UInt64}
    (leads : h.iommu.resolve type p.addr = .ok va) {data : List UInt8}
    (length : data.length = p.length) : ∃ k,
      ByteImage.Front h.guest.byte? (h.iommu.place type base) p.offset k p.length ∧
        ((h.guest.store va.toNat data).1 ↔ k = p.length) ∧
        (h.guest.store va.toNat data).2.byte? =
          ByteImage.store h.guest.byte? (fun j => some (va.toNat + j)) 0 (data.take k) ∧
        (k < p.length → (h.iommu.place type base (p.offset + k)).bind h.guest.byte? = none) := by
  obtain ⟨k, front, whole, image, stop⟩ := h.guest.storeBytes_front va.toNat data
  rw [length] at front whole stop
  rw [h.guest.store_eq_storeBytes va.toNat (length.symm ▸ of.positive)]
  refine ⟨k, front.congr_place fun j inside => ?_, whole, image, fun short => ?_⟩
  · rw [Nat.zero_add, of.place aligned leads inside]
  · rw [of.place aligned leads short, Option.bind_some, stop short]

theorem length_slice {data : List UInt8} (fits : p.offset + p.length ≤ data.length) :
    ((data.drop p.offset).take p.length).length = p.length := by
  rw [List.length_take, List.length_drop]
  omega

theorem store_target {w : WriteRequest} (aligned : h.iommu.Aligned) (of : p.Of w.addr) {va : UInt64}
    (leads : h.iommu.resolve w.addressType p.addr = .ok va) (im : ByteImage) {data : List UInt8}
    (short : data.length ≤ p.length) :
    im.store (fun j => if w.enabled (p.offset + j) then some (va.toNat + j) else none) 0 data =
      im.store (w.target h.iommu) p.offset data := by
  refine ByteImage.store_congr fun j inside => ?_
  rw [WriteRequest.target, of.place aligned leads (Nat.lt_of_lt_of_le inside short), Nat.zero_add]

/-- A write without enables reaches as many bytes of a piece as are there. -/
theorem writes_piece_plain {w : WriteRequest} (aligned : h.iommu.Aligned) (of : p.Of w.addr)
    (fits : p.offset + p.length ≤ w.data.length) {va : UInt64}
    (leads : h.iommu.resolve w.addressType p.addr = .ok va) (plain : w.enables = none) :
    ∃ k, Writes h w p.offset p.length k (h.writePiece w p) := by
  obtain ⟨k, front, whole, image, stop⟩ := front_store aligned of leads (length_slice fits)
  have every : (fun j => some (va.toNat + j)) =
      fun j => if w.enabled (p.offset + j) then some (va.toNat + j) else none := by
    simp [WriteRequest.enabled, plain]
  rw [List.take_take, Nat.min_eq_left front.le, every, store_target aligned of leads _
    ((List.length_take_le ..).trans front.le)] at image
  have ends (short : k < p.length) : ∃ m < p.length,
      ByteImage.FirstMissing h.guest.byte? (h.iommu.place w.addressType w.addr) p.offset m ∧
        p.offset + k = w.stop (p.offset + m) :=
    ⟨k, short, ⟨front.present, stop short⟩, by rw [WriteRequest.stop, plain]⟩
  unfold writePiece
  simp only [leads, plain]
  generalize h.guest.store va.toNat ((w.data.drop p.offset).take p.length) = outcome
    at whole image ⊢
  obtain ⟨done, guest⟩ := outcome
  cases done with
  | true => exact ⟨k, front, whole.1 rfl, rfl, image, ends⟩
  | false => exact ⟨k, front, ⟨nofun, fun all => nomatch whole.2 all⟩, rfl, image, ends⟩

/-- A write with enables stores a piece if it can load all of it. -/
theorem writes_piece_masked {w : WriteRequest} (aligned : h.iommu.Aligned) (of : p.Of w.addr)
    (fits : p.offset + p.length ≤ w.data.length)
    (start : p.Starts) {va : UInt64}
    (leads : h.iommu.resolve w.addressType p.addr = .ok va) {first last : UInt8}
    (masked : w.enables = some (first, last)) :
    ∃ k, Writes h w p.offset p.length k (h.writePiece w p) := by
  rcases h.guest.load_cases va.toNat of.positive with
    ⟨old, loaded, length, shown⟩ | ⟨loaded, j, inside, none_⟩
  · have slice := length_slice fits
    have merged : (mergePiece w first last p old).length = old.length := by
      simp [mergePiece]
    have seen := of.shown aligned leads length shown
    obtain ⟨k, front, whole, image, -⟩ := front_store aligned of leads (merged.trans length)
    -- what could be loaded can be stored, so that no byte stops the store
    have all : k = p.length := front.eq_of_present fun j inside => seen.isSome (length ▸ inside)
    -- bytes that are not enabled are stored again as they were
    have bytes : ∀ j < old.length, (mergePiece w first last p old)[j]? =
        if w.enabled (p.offset + (0 + j)) then ((w.data.drop p.offset).take p.length)[j]?
        else old[j]? := by
      intro j inside
      rw [Nat.zero_add, ← length, getElem?_mergePiece inside (by omega)]
      simp only [WriteRequest.enabled, masked]
    rw [all, List.take_of_length_le (Nat.le_of_eq (merged.trans length)),
      ByteImage.store_merged (fun j => w.enabled (p.offset + j)) ⟨merged, slice.trans length.symm⟩
        bytes shown, store_target aligned of leads _ (Nat.le_of_eq slice)] at image
    unfold writePiece
    simp only [leads, masked, loaded, Option.map_some]
    generalize h.guest.store va.toNat (mergePiece w first last p old) = outcome at whole image ⊢
    obtain ⟨done, guest⟩ := outcome
    cases whole.2 all
    exact ⟨k, front, all, rfl, all ▸ image, fun short => absurd all (Nat.ne_of_lt short)⟩
  · have missing : (h.iommu.place w.addressType w.addr (p.offset + j)).bind h.guest.byte? =
        none := by
      rw [of.place aligned leads inside, Option.bind_some, none_]
    obtain ⟨m, within, first⟩ := ByteImage.exists_firstMissing ⟨j, inside, missing⟩
    unfold writePiece
    simp only [leads, masked, loaded, Option.map_none]
    exact ⟨0, .of_missing inside missing, ⟨nofun, Nat.ne_of_lt of.positive⟩, rfl, rfl,
      fun _ => ⟨m, within, first, (of.stop_eq start within masked).symm⟩⟩

theorem writes_piece {w : WriteRequest} (aligned : h.iommu.Aligned) (of : p.Of w.addr)
    (fits : p.offset + p.length ≤ w.data.length)
    (start : p.Starts) :
    ∃ k, Writes h w p.offset p.length k (h.writePiece w p) := by
  cases leads : h.iommu.resolve w.addressType p.addr with
  | error f =>
    unfold writePiece
    simp only [leads]
    have missing : (h.iommu.place w.addressType w.addr (p.offset + 0)).bind h.guest.byte? =
        none := by
      rw [of.place_of_error leads, Option.bind_none]
    have stop : p.offset + 0 = w.stop (p.offset + 0) := by
      cases enables : w.enables with
      | none => rw [WriteRequest.stop, enables]
      | some masks => exact (of.stop_eq start of.positive enables).symm
    exact ⟨0, .of_missing of.positive missing,
      ⟨Iommu.status_resolve leads, Nat.ne_of_lt of.positive⟩, rfl, rfl,
      fun _ => ⟨0, of.positive, ⟨fun j before => absurd before (Nat.not_lt_zero j), missing⟩, stop⟩⟩
  | ok va =>
    cases enables : w.enables with
    | none => exact writes_piece_plain aligned of fits leads enables
    | some masks => exact writes_piece_masked aligned of fits start leads enables

theorem Writes.extend {w : WriteRequest} {i n k m : Nat} {f : AccessFault} {h' : HostMemory A}
    (writes : Writes h w i n k (.error f, h')) : Writes h w i (n + m) k (.error f, h') := by
  obtain ⟨status, partial_⟩ := writes.told
  have short : k < n := Nat.lt_of_le_of_ne writes.front.le partial_
  obtain ⟨j, inside, first⟩ := writes.stop short
  exact ⟨writes.front.extend short, ⟨status, by omega⟩, writes.iommu, writes.image,
    fun _ => ⟨j, Nat.lt_add_right m inside, first⟩⟩

/-- A write whose first part is stored goes on with the rest. -/
theorem Writes.append {w : WriteRequest} {i n k k' m : Nat} {h' : HostMemory A}
    {outcome : Except AccessFault Unit × HostMemory A} (first : Writes h w i n k (.ok (), h'))
    (rest : Writes h' w (i + n) m k' outcome) (fits : i + n ≤ w.data.length) :
    Writes h w i (n + m) (n + k') outcome := by
  obtain rfl : k = n := first.told
  have same (a : Nat) : (h.guest.byte? a).isSome = (h'.guest.byte? a).isSome := by
    rw [first.image, ByteImage.isSome_store]
  have length : ((w.data.drop i).take k).length = k := by
    rw [List.length_take, List.length_drop]
    omega
  refine ⟨first.front.append (first.iommu ▸ rest.front.congr same), ?_,
    rest.iommu.trans first.iommu, ?_, fun short => ?_⟩
  · have told := rest.told
    unfold Tells at told ⊢
    simpa only [Nat.add_left_cancel_iff] using told
  · rw [rest.image, first.image, first.iommu, List.take_add, List.drop_drop,
      ByteImage.store_append, length]
  · obtain ⟨j, inside, missing, stop⟩ := rest.stop (Nat.lt_of_add_lt_add_left short)
    rw [first.iommu] at missing
    refine ⟨k + j, Nat.add_lt_add_left inside k, (missing.congr same).append first.front, ?_⟩
    rw [← Nat.add_assoc, ← Nat.add_assoc, stop]

/-- The front of a write that is made piece by piece. -/
theorem writes_pieces {w : WriteRequest} (aligned : h.iommu.Aligned) {offset remaining : Nat}
    (fits : offset + remaining ≤ w.data.length)
    (start : 0 < remaining → Piece.Starts ⟨w.addr + UInt64.ofNat offset, offset, remaining⟩) :
    ∃ k, Writes h w offset remaining k
      (writePieces w (pieces (w.addr + UInt64.ofNat offset) offset remaining) h) := by
  induction remaining using Nat.strong_induction_on generalizing h offset with
  | h remaining ih =>
    by_cases some_ : remaining = 0
    · subst some_
      rw [pieces, if_pos rfl]
      exact ⟨0, .nothing .., rfl, rfl, rfl, fun short => absurd short (Nat.lt_irrefl 0)⟩
    · obtain ⟨n, le, of, next, cut⟩ := pieces_first w.addr offset some_
      obtain ⟨d, rfl⟩ := Nat.exists_eq_add_of_le le
      obtain ⟨k, first⟩ := writes_piece aligned of
        (Nat.le_trans (Nat.add_le_add_left le _) fits) (start (Nat.pos_of_ne_zero some_))
      rw [cut]
      unfold writePieces
      generalize h.writePiece w ⟨w.addr + UInt64.ofNat offset, offset, n⟩ = outcome at first ⊢
      obtain ⟨f | u, h'⟩ := outcome
      · exact ⟨k, first.extend⟩
      · rw [← Nat.add_assoc] at fits
        obtain ⟨k', rest⟩ := ih d (Nat.lt_add_of_pos_left of.positive) (h := h')
          (first.iommu ▸ aligned) fits fun more => Nat.add_sub_cancel_left n d ▸ next (by omega)
        rw [Nat.add_sub_cancel_left]
        exact ⟨n + k', first.append rest (Nat.le_trans (Nat.le_add_right ..) fits)⟩

/-- What a write comes to that ends behind its first `k` bytes: it is valid if and only if these
are all, and stores those of them that are enabled in ascending order. -/
structure EndsBehind (h : HostMemory A) (w : WriteRequest) (k : Nat) : Prop where
  front : ByteImage.Front h.guest.byte? (h.iommu.place w.addressType w.addr) 0 k w.data.length
  valid : (writeResponse (h.write w).1).status = .valid ↔ k = w.data.length
  iommu : (h.write w).2.iommu = h.iommu
  image : (h.write w).2.guest.byte? =
    ByteImage.store h.guest.byte? (w.target h.iommu) 0 (w.data.take k)
  stop : k < w.data.length → ∃ m < w.data.length,
    ByteImage.FirstMissing h.guest.byte? (h.iommu.place w.addressType w.addr) 0 m ∧ k = w.stop m

theorem exists_endsBehind (aligned : h.iommu.Aligned) (w : WriteRequest) :
    ∃ k, h.EndsBehind w k := by
  have fits : 0 + w.data.length ≤ w.data.length := Nat.le_of_eq (Nat.zero_add _)
  obtain ⟨k, writes⟩ := writes_pieces aligned fits fun _ => .inl rfl
  have stop := writes.stop
  simp only [Nat.zero_add] at stop
  rw [add_ofNat_zero] at writes
  have outcome : ((writeResponse (h.write w).1).status = .valid ↔ k = w.data.length) ∧
      (h.write w).2.iommu = h.iommu ∧ (h.write w).2.guest.byte? =
        ByteImage.store h.guest.byte? (w.target h.iommu) 0 (w.data.take k) := by
    unfold write
    generalize writePieces w (pieces w.addr 0 w.data.length) h = outcome at writes ⊢
    obtain ⟨f | u, h'⟩ := outcome
    · obtain ⟨status, partial_⟩ := writes.told
      exact ⟨iff_of_false status partial_, writes.iommu, writes.image⟩
    · exact ⟨iff_of_true rfl writes.told, writes.iommu, writes.image⟩
  exact ⟨k, writes.front, outcome.1, outcome.2.1, outcome.2.2, stop⟩

theorem EndsBehind.valid_iff {w : WriteRequest} {k : Nat} (ends : h.EndsBehind w k) :
    (writeResponse (h.write w).1).status = .valid ↔
      ∀ i < w.data.length, ((h.iommu.place w.addressType w.addr i).bind h.guest.byte?).isSome := by
  rw [ends.valid]
  constructor
  · rintro rfl i inside
    exact Nat.zero_add i ▸ ends.front.present i inside
  · intro all
    exact ends.front.eq_of_present fun i inside => (Nat.zero_add i).symm ▸ all i inside

theorem read_plain (aligned : h.iommu.Aligned) {r : ReadRequest}
    (kind : r.addressType ≠ .translationRequest) (plain : r.atomic = none) :
    (h.read r).state = h ∧ ((readResponse r (h.read r).answer).status = .valid →
      ByteImage.Shows h.guest.byte? (h.iommu.place r.addressType r.addr) 0
        (readResponse r (h.read r).answer).data) := by
  unfold read
  rw [if_neg kind]
  simp only [plain]
  refine ⟨trivial, ?_⟩
  cases answer : h.readBytes r.addressType r.addr r.dataBytes with
  | error f =>
    have fits := h.fits_readBytes r.addressType r.addr r.dataBytes
    rw [answer] at fits
    exact fun valid => absurd valid fits
  | ok data => exact fun _ => ((readBytes_eq_ok_iff aligned ..).1 answer).2

/-- An atomic access is refused without effect, or it answers with what its places show and stores
the result there. -/
theorem atomic_cases (aligned : h.iommu.Aligned) (r : ReadRequest) (op : AtomicOperation) :
    (∃ f, h.atomic r op = (.error f, h) ∧ f.status ≠ .valid) ∨
    ∃ va old guest, h.atomic r op = (.ok ⟨r.addr, va, old⟩, { h with guest := guest }) ∧
      ByteImage.Shows h.guest.byte? (h.iommu.place r.addressType r.addr) 0 old ∧
      old.length = r.dataBytes ∧
      guest.byte? = ByteImage.store h.guest.byte? (h.iommu.place r.addressType r.addr) 0
        (littleEndian r.dataBytes (op.result r.dataBytes (ofLittleEndian old))) := by
  unfold atomic
  by_cases size : r.dataBytes ≠ 4 ∧ r.dataBytes ≠ 8
  · simp only [if_pos size]
    exact .inl ⟨_, rfl, nofun⟩
  by_cases page : 4096 < r.addr.toNat % 4096 + r.dataBytes
  · simp only [if_neg size, if_pos page]
    exact .inl ⟨_, rfl, nofun⟩
  simp only [if_neg size, if_neg page]
  cases leads : h.iommu.resolve r.addressType r.addr with
  | error f => exact .inl ⟨f, rfl, Iommu.status_resolve leads⟩
  | ok va =>
    have of : Piece.Of ⟨r.addr, 0, r.dataBytes⟩ r.addr :=
      ⟨(add_ofNat_zero _).symm, by simp only; omega, by simp only; omega⟩
    rcases h.guest.load_cases va.toNat of.positive with
      ⟨old, loaded, length, shown⟩ | ⟨loaded, -⟩
    · right
      change old.length = r.dataBytes at length
      have seen : ByteImage.Shows h.guest.byte? (h.iommu.place r.addressType r.addr) 0 old :=
        of.shown aligned leads length shown
      generalize is : littleEndian r.dataBytes (op.result r.dataBytes (ofLittleEndian old)) = new
      have size : new.length = r.dataBytes := is ▸ length_littleEndian ..
      obtain ⟨k, front, whole, image, -⟩ := front_store aligned of leads size
      have all : k = r.dataBytes :=
        front.eq_of_present fun j inside => seen.isSome (length ▸ inside)
      rw [List.take_of_length_le (Nat.le_of_eq (size.trans all.symm))] at image
      have stored : ByteImage.store h.guest.byte? (fun j => some (va.toNat + j)) 0 new =
          ByteImage.store h.guest.byte? (h.iommu.place r.addressType r.addr) 0 new := by
        refine ByteImage.store_congr fun j inside => ?_
        have place : h.iommu.place r.addressType r.addr (0 + j) = some (va.toNat + j) :=
          of.place aligned leads (size ▸ inside)
        rw [place, Nat.zero_add]
      simp only [loaded, is]
      generalize h.guest.store va.toNat new = outcome at whole image ⊢
      obtain ⟨done, guest⟩ := outcome
      cases whole.2 all
      exact ⟨va, old, guest, rfl, seen, length, is ▸ image.trans stored⟩
    · simp only [loaded]
      exact .inl ⟨_, rfl, nofun⟩

theorem read_atomic (aligned : h.iommu.Aligned) {r : ReadRequest} {op : AtomicOperation}
    (kind : r.addressType ≠ .translationRequest) (operation : r.atomic = some op) :
    (h.read r).state.iommu = h.iommu ∧
      ((readResponse r (h.read r).answer).status ≠ .valid → (h.read r).state = h) ∧
      ((readResponse r (h.read r).answer).status = .valid →
        ByteImage.Shows h.guest.byte? (h.iommu.place r.addressType r.addr) 0
            (readResponse r (h.read r).answer).data ∧
          (h.read r).state.guest.byte? =
            ByteImage.store h.guest.byte? (h.iommu.place r.addressType r.addr) 0
              (littleEndian r.dataBytes (op.result r.dataBytes
                (ofLittleEndian (readResponse r (h.read r).answer).data)))) := by
  unfold read
  rw [if_neg kind]
  simp only [operation]
  rcases atomic_cases aligned r op with
    ⟨f, outcome, status⟩ | ⟨va, old, guest, outcome, shown, -, image⟩
  · rw [outcome]
    exact ⟨rfl, fun _ => rfl, fun valid => absurd valid status⟩
  · rw [outcome]
    exact ⟨rfl, fun invalid => absurd rfl invalid, fun _ => ⟨shown, image⟩⟩

end HostMemory

end TlpBridge

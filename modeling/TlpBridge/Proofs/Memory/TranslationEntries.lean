import TlpBridge.Iommu.FirstFit
import TlpBridge.Memory.Service
import TlpBridge.Proofs.Word.DwordImages
import TlpBridge.Proofs.Iommu.PhysicalPages

/-!
# What translation entries tell

An entry in the answer to a translation request is read back by the rule of its format: the
ones from bit 11 upwards give the size of a range, and the bits above them its start. An
entry for an address in the lower half of a large page tells of that page; in the upper
half the offset inside the page continues the run of ones, and the range comes out too
long.
-/
namespace TlpBridge

open PageSize

variable {A : IovaAllocator}

namespace TranslationEntry

/-- The number of ones that follow one another from bit 11 upwards. -/
def sizeOnes (v : Nat) : Nat := (List.range 53).findIdx fun i => !v.testBit (11 + i)

/-- The range that an entry in wire order tells of. -/
def extent (entry : UInt64) : AddressRange :=
  let v := (swapBytes entry).toNat
  let size := 2 ^ (12 + sizeOnes v)
  ⟨v / size * size, size⟩

theorem toNat_swapBytes (v : UInt64) :
    (swapBytes v).toNat = ofLittleEndian (littleEndian 8 v.toNat).reverse := by
  have small := ofLittleEndian_lt (littleEndian 8 v.toNat).reverse
  rw [List.length_reverse, length_littleEndian] at small
  exact (UInt64.toNat_ofNat' ..).trans (Nat.mod_eq_of_lt small)

@[simp] theorem swapBytes_swapBytes (v : UInt64) : swapBytes (swapBytes v) = v := by
  have image : littleEndian 8 (ofLittleEndian (littleEndian 8 v.toNat).reverse) =
      (littleEndian 8 v.toNat).reverse := by
    rw [littleEndian_ofLittleEndian _ 8 (by simp)]
    simp
  apply UInt64.toNat_inj.1
  rw [toNat_swapBytes, toNat_swapBytes, image, List.reverse_reverse]
  exact ofLittleEndian_littleEndian 8 v.toNat v.toNat_lt

theorem sizeOnes_eq_iff {v n : Nat} (room : n < 53) :
    sizeOnes v = n ↔ v.testBit (11 + n) = false ∧ ∀ i < n, v.testBit (11 + i) = true := by
  have length : n < (List.range 53).length := by simpa
  rw [sizeOnes, List.findIdx_eq length]
  simp

theorem le_sizeOnes {v n : Nat} (room : n < 53) (ones : ∀ i < n, v.testBit (11 + i) = true) :
    n ≤ sizeOnes v := by
  apply List.le_findIdx_of_not
  · intro i below
    simp [ones i below]
  · simpa

/-- Leave to read and to write. -/
def permitAll : UInt32 := permitRead ||| permitWrite

theorem toNat_sizeField (size : PageSize) :
    ((UInt64.ofNat ((UInt64.ofNat size.bytes).toNat / 4096 - 1)) <<< 11).toNat =
      (2 ^ (9 * size.level) - 1) * 2 ^ 11 := by
  cases size <;> rfl

/-- The bits of an entry before its bytes are swapped. -/
theorem testBit_plain (pa : UInt64) (size : PageSize) (i : Nat) :
    (plain pa (UInt64.ofNat size.bytes) permitAll).toNat.testBit i =
      (decide (12 ≤ i) && pa.toNat.testBit i || decide (i < 2) ||
        decide (11 ≤ i ∧ i < 11 + 9 * size.level)) := by
  have address : (pa &&& ~~~(0xfff : UInt64)).toNat.testBit i =
      (decide (12 ≤ i) && pa.toNat.testBit i) := by
    have mask : (~~~(0xfff : UInt64)).toNat = (2 ^ 52 - 1) * 2 ^ 12 := by decide
    rw [UInt64.toNat_and, Nat.testBit_and, mask, Nat.testBit_mul_two_pow,
      Nat.testBit_two_pow_sub_one]
    by_cases wide : i < 64
    · grind
    · have above := Nat.testBit_lt_two_pow (x := pa.toNat) (i := i)
        (pa.toNat_lt.trans_le (Nat.pow_le_pow_right (by decide) (Nat.not_lt.1 wide)))
      simp [above]
  have permissions : permitAll.toUInt64.toNat.testBit i = decide (i < 2) :=
    Nat.testBit_two_pow_sub_one 2 i
  have ones : ((2 ^ (9 * size.level) - 1) * 2 ^ 11).testBit i =
      decide (11 ≤ i ∧ i < 11 + 9 * size.level) := by
    rw [Nat.testBit_mul_two_pow, Nat.testBit_two_pow_sub_one]
    grind
  rw [plain, UInt64.toNat_or, UInt64.toNat_or, toNat_sizeField, Nat.testBit_or, Nat.testBit_or,
    address, permissions, ones]

variable {pa : UInt64} {size : PageSize}

/-- The address is in the part of a page whose offset leaves the run of ones alone. -/
def KeepsSize (pa : UInt64) (size : PageSize) : Prop :=
  size = .size4K ∨ pa.toNat % size.bytes < size.bytes / 2

instance (pa : UInt64) (size : PageSize) : Decidable (KeepsSize pa size) :=
  inferInstanceAs (Decidable (_ ∨ _))

theorem ones_plain (pa : UInt64) (size : PageSize) :
    ∀ i < 9 * size.level,
      (plain pa (UInt64.ofNat size.bytes) permitAll).toNat.testBit (11 + i) = true := by
  intro i below
  rw [testBit_plain]
  simp [below]

theorem testBit_eq_false_iff (x k : Nat) : x.testBit k = false ↔ x % (2 ^ k * 2) < 2 ^ k := by
  have low := Nat.mod_lt x (Nat.two_pow_pos k)
  rw [Nat.testBit_eq_decide_div_mod_eq, decide_eq_false_iff_not, Nat.mod_mul]
  rcases Nat.mod_two_eq_zero_or_one (x / 2 ^ k) with zero | one
  · simpa [zero]
  · simp [one]

theorem testBit_end_iff (pa : UInt64) (size : PageSize) :
    (plain pa (UInt64.ofNat size.bytes) permitAll).toNat.testBit (11 + 9 * size.level) = false ↔
      KeepsSize pa size := by
  have half (upper : 12 ≤ 11 + 9 * size.level) :
      (plain pa (UInt64.ofNat size.bytes) permitAll).toNat.testBit (11 + 9 * size.level) =
        pa.toNat.testBit (11 + 9 * size.level) := by
    rw [testBit_plain]
    grind
  cases size with
  | size4K => simp [testBit_plain, KeepsSize, level]
  | size2M =>
    rw [half (by decide), testBit_eq_false_iff, KeepsSize]
    exact (or_iff_right (by decide)).symm
  | size1G =>
    rw [half (by decide), testBit_eq_false_iff, KeepsSize]
    exact (or_iff_right (by decide)).symm

theorem sizeOnes_plain_iff : sizeOnes (plain pa (UInt64.ofNat size.bytes) permitAll).toNat =
    9 * size.level ↔ KeepsSize pa size := by
  have room : 9 * size.level < 53 := by cases size <;> decide
  rw [sizeOnes_eq_iff room, testBit_end_iff, and_iff_left (ones_plain pa size)]

theorem plain_div (pa : UInt64) (size : PageSize) :
    (plain pa (UInt64.ofNat size.bytes) permitAll).toNat / size.bytes =
      pa.toNat / size.bytes := by
  apply Nat.eq_of_testBit_eq
  intro i
  change (_ / 2 ^ (12 + 9 * size.level)).testBit i = (_ / 2 ^ (12 + 9 * size.level)).testBit i
  rw [Nat.testBit_div_two_pow, Nat.testBit_div_two_pow, testBit_plain]
  grind

theorem encode_of_ne_zero (mapped : pa ≠ 0) (pageBytes : UInt64) (permissions : UInt32) :
    encode pa pageBytes permissions = swapBytes (plain pa pageBytes permissions) :=
  if_neg mapped

theorem encode_eq_zero_iff : encode pa (UInt64.ofNat size.bytes) permitAll = 0 ↔ pa = 0 := by
  constructor
  · intro zero
    by_contra mapped
    rw [encode_of_ne_zero mapped] at zero
    have none_ : plain pa (UInt64.ofNat size.bytes) permitAll = 0 := by
      rw [← swapBytes_swapBytes (plain ..), zero]
      rfl
    have permitted := testBit_plain pa size 0
    simp [none_] at permitted
  · rintro rfl
    rfl

theorem extent_encode_iff (mapped : pa ≠ 0) :
    extent (encode pa (UInt64.ofNat size.bytes) permitAll) =
      ⟨size.pageOf pa.toNat, size.bytes⟩ ↔ KeepsSize pa size := by
  rw [← sizeOnes_plain_iff, encode_of_ne_zero mapped, extent, swapBytes_swapBytes]
  constructor
  · intro same
    have sizes := congrArg AddressRange.size same
    have exponents := Nat.pow_right_injective (Nat.le_refl 2) sizes
    exact Nat.add_left_cancel exponents
  · intro ones
    have sizes : 2 ^ (12 + 9 * size.level) = size.bytes := rfl
    simp only [ones, sizes, plain_div]
    rfl

theorem size_extent_encode (mapped : pa ≠ 0) (upper : ¬ KeepsSize pa size) :
    2 * size.bytes ≤ (extent (encode pa (UInt64.ofNat size.bytes) permitAll)).size := by
  have room : 9 * size.level + 1 < 53 := by cases size <;> decide
  have ended := mt (testBit_end_iff pa size).1 upper
  have run : 9 * size.level + 1 ≤
      sizeOnes (plain pa (UInt64.ofNat size.bytes) permitAll).toNat := by
    apply le_sizeOnes room
    intro i below
    rcases Nat.lt_or_eq_of_le (Nat.le_of_lt_succ below) with inside | rfl
    · exact ones_plain pa size i inside
    · exact Bool.not_eq_false _ ▸ ended
  have twice : 2 * size.bytes = 2 ^ (12 + (9 * size.level + 1)) := by
    rw [bytes, bytesAt, offsetBits]
    ring
  rw [encode_of_ne_zero mapped, extent, swapBytes_swapBytes, twice]
  exact Nat.pow_le_pow_right (by decide) (Nat.add_le_add_left run 12)

end TranslationEntry

open TranslationEntry

/-- The page pinned at an IOVA leads to `va`, and that has a physical address. -/
structure Iommu.Gives (t : Iommu A) (iova va pa : UInt64) (size : PageSize) : Prop where
  pinned : t.translate iova = some va
  answer : (t.physicalOf va).answer = .ok (some (pa, size))

/-- What the entry for an IOVA says of the tables that it was made from, and of those that it left
behind. -/
structure Describes (before after : Iommu A) (iova entry : UInt64) : Prop where
  /-- Nothing is pinned there or mapped behind it, or its physical address is zero. -/
  zero_iff : entry = 0 ↔ before.translate iova = none ∨
    ∃ va, before.translate iova = some va ∧
      (¬ before.pageSizes.Maps va ∨ ∃ size, before.Gives iova va 0 size)
  /-- The page of a mapped address was found. -/
  answered : ∀ va, before.translate iova = some va → before.pageSizes.Maps va →
    (∃ pa size, before.Gives iova va pa size) ∧ after = (before.physicalOf va).state
  /-- The entry tells of just the physical page. -/
  extent_iff : ∀ va pa size, before.Gives iova va pa size → pa ≠ 0 →
    (extent entry = ⟨size.pageOf pa.toNat, size.bytes⟩ ↔ KeepsSize pa size)
  /-- Otherwise it tells of more than that. -/
  twice : ∀ va pa size, before.Gives iova va pa size → pa ≠ 0 → ¬ KeepsSize pa size →
    2 * size.bytes ≤ (extent entry).size
  /-- The addresses of the physical page lead to their own offset in the virtual page. -/
  leadsBack : ∀ va pa size, before.Gives iova va pa size →
    ∀ p : UInt64, size.pageOf p.toNat = size.pageOf pa.toNat →
      after.virtualOf p = some (UInt64.ofNat (size.pageOf va.toNat + p.toNat % size.bytes))

namespace Iommu

variable {t : Iommu A} {iova va pa : UInt64} {size : PageSize}

theorem Gives.unique (h : t.Gives iova va pa size) {va' pa' : UInt64} {size' : PageSize}
    (h' : t.Gives iova va' pa' size') : va' = va ∧ pa' = pa ∧ size' = size := by
  obtain ⟨pinned, answer⟩ := h'
  cases h.pinned.symm.trans pinned
  cases h.answer.symm.trans answer
  exact ⟨rfl, rfl, rfl⟩

theorem maps_iff_physicalOf {answer : Option (UInt64 × PageSize)}
    (ok : (t.physicalOf va).answer = .ok answer) : t.pageSizes.Maps va ↔ answer.isSome := by
  rcases t.physicalOf_cases va with ⟨e, -, error, -⟩ | ⟨sized, nothing, -⟩ | ⟨size, sized, outcome⟩
  · rw [error] at ok
    cases ok
  · rw [nothing] at ok
    cases ok
    exact PageSizes.maps_iff_isSome sized
  · rw [PageSizes.maps_iff_isSome sized]
    rcases outcome with ⟨-, same, -⟩ | ⟨-, r, -, same, -⟩ | ⟨-, e, -, error, -⟩
    · rw [same] at ok
      cases ok
      rfl
    · rw [same] at ok
      cases ok
      rfl
    · rw [error] at ok
      cases ok

theorem Gives.maps (h : t.Gives iova va pa size) : t.pageSizes.Maps va := by
  simp [maps_iff_physicalOf h.answer]

theorem describes_zero (after : Iommu A) (cause : t.translate iova = none ∨
    ∃ va, t.translate iova = some va ∧ ¬ t.pageSizes.Maps va) : Describes t after iova 0 := by
  have unmapped (va : UInt64) (pinned : t.translate iova = some va) : ¬ t.pageSizes.Maps va := by
    rcases cause with unpinned | ⟨v, pinned', unmapped⟩
    · cases unpinned.symm.trans pinned
    · cases pinned'.symm.trans pinned
      exact unmapped
  have absent (va pa : UInt64) (size : PageSize) : ¬ t.Gives iova va pa size :=
    fun h => unmapped va h.pinned h.maps
  constructor
  case zero_iff => exact iff_of_true rfl (cause.imp_right fun ⟨va, h⟩ => ⟨va, h.1, .inl h.2⟩)
  case answered => exact fun va pinned mapped => absurd mapped (unmapped va pinned)
  case extent_iff => exact fun va pa size h => absurd h (absent va pa size)
  case twice => exact fun va pa size h => absurd h (absent va pa size)
  case leadsBack => exact fun va pa size h => absurd h (absent va pa size)

theorem Gives.describes (h : t.Gives iova va pa size) :
    Describes t (t.physicalOf va).state iova
      (encode pa (UInt64.ofNat size.bytes) permitAll) := by
  constructor
  case zero_iff =>
    rw [encode_eq_zero_iff]
    constructor
    · rintro rfl
      exact .inr ⟨va, h.pinned, .inr ⟨size, h⟩⟩
    · rintro (unpinned | ⟨v, pinned, unmapped | ⟨size', h'⟩⟩)
      · cases h.pinned.symm.trans unpinned
      · cases h.pinned.symm.trans pinned
        exact absurd h.maps unmapped
      · exact (h.unique h').2.1.symm
  case answered =>
    intro v pinned _
    cases h.pinned.symm.trans pinned
    exact ⟨⟨pa, size, h⟩, rfl⟩
  case extent_iff =>
    intro v pa' size' h' nonzero
    obtain ⟨rfl, rfl, rfl⟩ := h.unique h'
    exact extent_encode_iff nonzero
  case twice =>
    intro v pa' size' h' nonzero upper
    obtain ⟨rfl, rfl, rfl⟩ := h.unique h'
    exact size_extent_encode nonzero upper
  case leadsBack =>
    intro v pa' size' h' p inside
    obtain ⟨rfl, rfl, rfl⟩ := h.unique h'
    obtain ⟨rfl, -, placed⟩ := placed_of_physicalOf h.answer
    exact placed.virtualOf inside

end Iommu

namespace HostMemory

variable {t : Iommu A} {iova entry : UInt64}

theorem describes_translationEntry (ok : (translationEntry t iova).answer = .ok entry) :
    Describes t (translationEntry t iova).state iova entry := by
  unfold translationEntry at ok ⊢
  cases pinned : t.translate iova with
  | none =>
    simp only [pinned] at ok ⊢
    cases ok
    exact Iommu.describes_zero t (.inl pinned)
  | some va =>
    simp only [pinned] at ok ⊢
    rcases answer : (t.physicalOf va).answer with e | _ | ⟨pa, size⟩
    · simp only [answer] at ok
      cases ok
    · simp only [answer] at ok ⊢
      cases ok
      have unmapped : ¬ t.pageSizes.Maps va := by simp [Iommu.maps_iff_physicalOf answer]
      exact Iommu.describes_zero _ (.inr ⟨va, pinned, unmapped⟩)
    · simp only [answer] at ok ⊢
      cases ok
      exact Iommu.Gives.describes ⟨pinned, answer⟩

/-- The entry of eight bytes at place `k` of an answer. -/
def entryAt (data : List UInt8) (k : Nat) : UInt64 :=
  UInt64.ofNat (ofLittleEndian ((data.drop (8 * k)).take 8))

theorem entryAt_zero (entry : UInt64) (rest : List UInt8) :
    entryAt (littleEndian 8 entry.toNat ++ rest) 0 = entry := by
  have first : ((littleEndian 8 entry.toNat ++ rest).drop (8 * 0)).take 8 =
      littleEndian 8 entry.toNat := List.take_left' (length_littleEndian ..)
  rw [entryAt, first, ofLittleEndian_littleEndian 8 _ entry.toNat_lt, UInt64.ofNat_toNat]

theorem entryAt_succ (entry : UInt64) (rest : List UInt8) (k : Nat) :
    entryAt (littleEndian 8 entry.toNat ++ rest) (k + 1) = entryAt rest k := by
  have later : (littleEndian 8 entry.toNat ++ rest).drop (8 * (k + 1)) = rest.drop (8 * k) := by
    rw [Nat.mul_succ, Nat.add_comm, ← List.drop_drop]
    exact congrArg (List.drop (8 * k)) (List.drop_left' (length_littleEndian ..))
  rw [entryAt, later, entryAt]

variable {r : ReadRequest} {n i : Nat} {data : List UInt8}

/-- A sequence of entries starts with that of its first page. -/
theorem translationEntries_succ_ok (ok : (translationEntries r (n + 1) i t).answer = .ok data) :
    let iova := r.addr.toNat + i * 4096
    let first := translationEntry t (UInt64.ofNat iova)
    iova < 2 ^ 64 ∧
    (∀ m, (translationEntries r (m + 1) i t).state =
      (translationEntries r m (i + 1) first.state).state) ∧
    ∃ entry rest, first.answer = .ok entry ∧
      (translationEntries r n (i + 1) first.state).answer = .ok rest ∧
      data = littleEndian 8 entry.toNat ++ rest := by
  by_cases inside : r.addr.toNat + i * 4096 < 2 ^ 64
  · simp only [translationEntries, if_pos inside] at ok ⊢
    cases answer : (translationEntry t (UInt64.ofNat (r.addr.toNat + i * 4096))).answer with
    | error f =>
      rw [answer] at ok
      cases ok
    | ok entry =>
      simp only [answer] at ok ⊢
      refine ⟨inside, fun _ => trivial, entry, ?_⟩
      cases rest : (translationEntries r n (i + 1)
        (translationEntry t (UInt64.ofNat (r.addr.toNat + i * 4096))).state).answer with
      | error f =>
        rw [rest] at ok
        cases ok
      | ok more =>
        rw [rest] at ok
        cases ok
        exact ⟨more, rfl, rfl, rfl⟩
  · simp only [translationEntries, if_neg inside] at ok
    cases ok

/-- An answer has one entry for each page, each made from the tables that the one before left
behind. -/
theorem describes_translationEntries (ok : (translationEntries r n i t).answer = .ok data) :
    data.length = 8 * n ∧ ∀ k < n, r.addr.toNat + (i + k) * 4096 < 2 ^ 64 ∧
      Describes (translationEntries r k i t).state (translationEntries r (k + 1) i t).state
        (UInt64.ofNat (r.addr.toNat + (i + k) * 4096)) (entryAt data k) := by
  induction n generalizing i t data with
  | zero =>
    cases ok
    simp
  | succ n ih =>
    obtain ⟨inside, state, entry, rest, first, later, rfl⟩ := translationEntries_succ_ok ok
    obtain ⟨length, each⟩ := ih later
    constructor
    · rw [List.length_append, length_littleEndian, length]
      omega
    · intro k below
      rw [state k]
      cases k with
      | zero =>
        rw [entryAt_zero]
        exact ⟨inside, describes_translationEntry first⟩
      | succ k =>
        have place : i + (k + 1) = i + 1 + k := by omega
        rw [state k, entryAt_succ, place]
        exact each k (Nat.lt_of_succ_lt_succ below)

theorem status_translationEntry {f : AccessFault}
    (refused : (translationEntry t iova).answer = .error f) : f.status = .illegal := by
  unfold translationEntry at refused
  cases pinned : t.translate iova with
  | none =>
    simp only [pinned] at refused
    cases refused
  | some va =>
    simp only [pinned] at refused
    rcases answer : (t.physicalOf va).answer with e | _ | ⟨pa, size⟩
    · simp only [answer] at refused
      cases refused
      rfl
    · simp only [answer] at refused
      cases refused
    · simp only [answer] at refused
      cases refused

theorem status_translationEntries {f : AccessFault}
    (refused : (translationEntries r n i t).answer = .error f) : f.status = .illegal := by
  induction n generalizing i t with
  | zero => cases refused
  | succ n ih =>
    by_cases inside : r.addr.toNat + i * 4096 < 2 ^ 64
    · simp only [translationEntries, if_pos inside] at refused
      cases answer : (translationEntry t (UInt64.ofNat (r.addr.toNat + i * 4096))).answer with
      | error g =>
        rw [answer] at refused
        cases refused
        exact status_translationEntry answer
      | ok entry =>
        simp only [answer] at refused
        cases rest : (translationEntries r n (i + 1)
          (translationEntry t (UInt64.ofNat (r.addr.toNat + i * 4096))).state).answer with
        | error g =>
          rw [rest] at refused
          cases refused
          exact ih rest
        | ok more =>
          rw [rest] at refused
          cases refused
    · simp only [translationEntries, if_neg inside] at refused
      cases refused
      rfl

theorem answer_translationRequest (h : HostMemory A)
    (request : r.addressType = .translationRequest) :
    (h.read r).answer = (translationEntries r (r.dataBytes / 8) 0 h.iommu).answer.map
      fun data => ⟨r.addr, if r.dataBytes / 8 = 0 then 0 else (h.iommu.translate r.addr).getD 0,
        data⟩ := by
  rw [read, if_pos request]
  rfl

/-- A valid answer to a translation request has one entry for every page of 4 KiB. Each describes
the tables at that moment: it is zero where nothing is pinned or mapped, or the physical address
is zero, and tells of just the physical page where the offset of the address in the page leaves
the run of ones alone. -/
theorem read_describes (h : HostMemory A) (r : ReadRequest)
    (request : r.addressType = .translationRequest)
    (valid : (readResponse r (h.read r).answer).status = .valid) :
    let data := (readResponse r (h.read r).answer).data
    data.length = 8 * (r.dataBytes / 8) ∧
      ∀ k < r.dataBytes / 8, r.addr.toNat + k * 4096 < 2 ^ 64 ∧
        Describes (translationEntries r k 0 h.iommu).state
          (translationEntries r (k + 1) 0 h.iommu).state
          (UInt64.ofNat (r.addr.toNat + k * 4096)) (entryAt data k) := by
  rw [answer_translationRequest h request] at valid ⊢
  cases outcome : (translationEntries r (r.dataBytes / 8) 0 h.iommu).answer with
  | error f =>
    rw [outcome] at valid
    exact absurd valid (by simp [Except.map, readResponse, status_translationEntries outcome])
  | ok data =>
    have each := describes_translationEntries outcome
    simp only [Nat.zero_add] at each
    exact each

/-- Two neighbouring pages of 4 KiB in the middle of a page of 2 MiB: the entry for the last one of
the lower half tells of the page, and that for the first one of the upper half of far more. -/
theorem read_describes_two_entries :
    let map : MemoryMap := { ranges := [⟨0x7f0000000000, 0x7f0000400000, 2048⟩] }
    let h : HostMemory FirstFit.allocator :=
      ⟨((Iommu.ofMemoryMap {} map).pin 0x7f0000000000 0x200000).state,
        { regions := [⟨0x7f0000000000, 0x1000⟩] }⟩
    let r : ReadRequest :=
      { addr := 0xff000, addressType := .translationRequest, dataBytes := 16, tag := 0 }
    let data := (readResponse r (h.read r).answer).data
    r.addressType = .translationRequest ∧
      (readResponse r (h.read r).answer).status = .valid ∧ data.length = 16 ∧
      extent (entryAt data 0) = ⟨0xffffe00000, 0x200000⟩ ∧
      extent (entryAt data 1) = ⟨0, 2 ^ 41⟩ := by
  intro map h r data
  have valid : (readResponse r (h.read r).answer).status = .valid := by decide +kernel
  have length : data.length = 16 := (read_describes h r rfl valid).1.trans (by decide)
  have lower : extent (entryAt data 0) = ⟨0xffffe00000, 0x200000⟩ := by decide +kernel
  have upper : extent (entryAt data 1) = ⟨0, 2 ^ 41⟩ := by decide +kernel
  exact ⟨rfl, valid, length, lower, upper⟩

end HostMemory

end TlpBridge

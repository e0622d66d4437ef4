import Mathlib.Data.Nat.Find
import TlpBridge.Proofs.Tlp.EnabledBytes
import TlpBridge.Proofs.Reads.ReceivedReads

/-!
# The arithmetic of split reads

However the draws fall, the completions that a read is cut into tile it, and what each of them
counts and where it says that it begins follow from the bytes that the read asks for. The first
completion counts from its first such byte, every other one from its first byte.
-/
namespace TlpBridge

/-! ## The bytes of a completion that are asked for -/

/-- The byte enables of a stored read are masks of four bits, and those of a single DWORD stand in
the first of them. -/
structure Header.Masked (h : Header) (r : RequestBody) : Prop where
  first : r.firstEnable.toNat < 16
  last : r.lastEnable.toNat < 16
  single : h.dwordSize = 1 → r.lastEnable = 0 ∨ r.lastEnable = r.firstEnable

namespace CompletionPacket

/-- Whether the read asks for byte `i` of the packet. -/
def asksFor (c : CompletionPacket) (h : Header) (r : RequestBody) (i : Nat) : Bool :=
  decide (i < c.byteSize) &&
    ByteEnable.asksFor h.dwordSize r.firstEnable r.lastEnable (4 * c.startDword + i)

/-- The first byte of the packet that the read asks for; 0 if there is none. -/
def firstAsked (c : CompletionPacket) (h : Header) (r : RequestBody) : Nat :=
  ((List.range c.byteSize).find? (c.asksFor h r)).getD 0

/-- The bytes of the packet up to the last one that the read asks for. -/
def askedEnd (c : CompletionPacket) (h : Header) (r : RequestBody) : Nat :=
  Nat.findGreatest (fun k => c.asksFor h r (k - 1)) c.byteSize

/-- The byte of the packet from which on it counts: the first one that is asked for, but behind
the first packet of a read the first one at all. -/
def countedFrom (c : CompletionPacket) (h : Header) (r : RequestBody) : Nat :=
  if c.isFirst then c.firstAsked h r else 0

variable {c : CompletionPacket} {h : Header} {r : RequestBody} {p : Parameters} {slot : Nat}
  {data : List UInt32}

theorem firstAsked_eq {k : Nat} (asked : c.asksFor h r k)
    (before : ∀ j < k, ¬ c.asksFor h r j) : c.firstAsked h r = k := by
  have inside : k < c.byteSize := by
    unfold asksFor at asked
    simp only [Bool.and_eq_true, decide_eq_true_eq] at asked
    exact asked.1
  have found : (List.range c.byteSize).find? (c.asksFor h r) = some k := by
    rw [List.find?_range_eq_some]
    exact ⟨asked, List.mem_range.2 inside, fun j less => by simpa using before j less⟩
  rw [firstAsked, found]
  rfl

theorem firstAsked_of_none (none_ : ∀ i, ¬ c.asksFor h r i) : c.firstAsked h r = 0 := by
  have found : (List.range c.byteSize).find? (c.asksFor h r) = none :=
    List.find?_eq_none.2 fun i _ => none_ i
  rw [firstAsked, found]
  rfl

theorem askedEnd_eq {k : Nat} (inside : k ≤ c.byteSize) (asked : c.asksFor h r (k - 1))
    (behind : ∀ j, k ≤ j → j < c.byteSize → ¬ c.asksFor h r j) : c.askedEnd h r = k := by
  rw [askedEnd, Nat.findGreatest_eq_iff]
  refine ⟨inside, fun _ => asked, fun j more most => ?_⟩
  exact behind (j - 1) (by omega) (by omega)

theorem asksFor_eq (cut : c.CutFrom p h r) {i : Nat} (inside : i < c.byteSize) :
    c.asksFor h r i = if c.startDword + i / 4 = 0 then ByteEnable.enables r.firstEnable (i % 4)
      else if c.startDword + i / 4 + 1 = h.dwordSize then ByteEnable.enables r.lastEnable (i % 4)
      else true := by
  have within := cut.inside
  have size := cut.byteSize
  have dword : (4 * c.startDword + i) / 4 = c.startDword + i / 4 := by omega
  have byte : (4 * c.startDword + i) % 4 = i % 4 := by omega
  rw [asksFor, decide_eq_true inside, Bool.true_and, ByteEnable.asksFor_eq (by omega), dword, byte]

theorem lt_of_asksFor {i : Nat} (asked : c.asksFor h r i) : i < c.byteSize := by
  unfold asksFor at asked
  simp only [Bool.and_eq_true, decide_eq_true_eq] at asked
  exact asked.1

/-- The first completion begins with the bytes that the first mask leaves out. -/
theorem firstAsked_of_first (cut : c.CutFrom p h r) (completable : h.Completable r)
    (begins : c.startDword = 0) :
    c.firstAsked h r = ByteEnable.leadingGap r.firstEnable := by
  have size := cut.byteSize
  have nonempty := cut.nonempty
  have front {i : Nat} (inside : i < 4) :
      c.asksFor h r i = ByteEnable.enables r.firstEnable i := by
    rw [asksFor_eq cut (by omega), if_pos (by omega), Nat.mod_eq_of_lt inside]
  cases some_ : ByteEnable.isEmpty r.firstEnable with
  | false =>
    have gap := ByteEnable.leadingGap_le r.firstEnable
    refine firstAsked_eq ?_ fun j before asked => ?_
    · rw [front (by omega)]
      exact ByteEnable.enables_leadingGap some_
    · rw [front (by omega)] at asked
      exact absurd (ByteEnable.leadingGap_le_of_enables asked) (Nat.not_le.2 before)
  | true =>
    have off (i : Nat) : ¬ ByteEnable.enables r.firstEnable i :=
      ByteEnable.not_enables_of_isEmpty some_ i
    have single : h.dwordSize = 1 := by
      by_contra other
      obtain ⟨count, counted, -⟩ := completable.counted
      have inside := cut.inside
      have enabled := (ByteEnable.enabled_of_byteCount? (by omega) counted).1
      rw [some_] at enabled
      cases enabled
    rw [ByteEnable.leadingGap_of_isEmpty some_]
    refine firstAsked_of_none fun i asked => ?_
    have inside := lt_of_asksFor asked
    have within := cut.inside
    rw [front (by omega)] at asked
    exact off i asked

theorem firstAsked_of_later (cut : c.CutFrom p h r) (later : 0 < c.startDword)
    (whole : c.startDword + 1 < h.dwordSize ∨ ByteEnable.enables r.lastEnable 0) :
    c.firstAsked h r = 0 := by
  have size := cut.byteSize
  have nonempty := cut.nonempty
  refine firstAsked_eq ?_ fun j before => absurd before (Nat.not_lt_zero j)
  rw [asksFor_eq cut (by omega), if_neg (by omega)]
  split
  · exact whole.resolve_left (by omega)
  · rfl

theorem countedFrom_eq (cut : c.CutFrom p h r) (carries : c.Carries slot h data c.startDword)
    (completable : h.Completable r) : c.countedFrom h r =
      if c.startDword = 0 then ByteEnable.leadingGap r.firstEnable else 0 := by
  rw [countedFrom, carries.first]
  by_cases begins : c.startDword = 0
  · rw [decide_eq_true begins, if_pos rfl, if_pos begins,
      firstAsked_of_first cut completable begins]
  · rw [decide_eq_false begins, if_neg Bool.false_ne_true, if_neg begins]

/-- The bytes of the last completion up to the last one that is asked for, where the mask that ends
the read has one. -/
theorem askedEnd_of_last (cut : c.CutFrom p h r)
    (ends : c.startDword + c.dwordSize = h.dwordSize) {mask : UInt8}
    (same : mask = if h.dwordSize = 1 then r.firstEnable else r.lastEnable)
    (some_ : ByteEnable.isEmpty mask = false) :
    c.askedEnd h r = c.byteSize - ByteEnable.trailingGap mask := by
  have size := cut.byteSize
  have nonempty := cut.nonempty
  have back {j : Nat} (inside : j < 4) :
      c.asksFor h r (c.byteSize - 4 + j) = ByteEnable.enables mask j := by
    rw [asksFor_eq cut (by omega), same]
    have byte : (c.byteSize - 4 + j) % 4 = j := by omega
    rw [byte]
    by_cases single : h.dwordSize = 1
    · rw [if_pos (by omega), if_pos single]
    · rw [if_neg (by omega), if_pos (by omega), if_neg single]
  have gap := ByteEnable.trailingGap_le some_
  refine askedEnd_eq (Nat.sub_le ..) ?_ fun j behind inside asked => ?_
  · have on := ByteEnable.enables_trailingGap some_
    rw [← back (by omega)] at on
    have position : c.byteSize - 4 + (3 - ByteEnable.trailingGap mask) =
        c.byteSize - ByteEnable.trailingGap mask - 1 := by omega
    rwa [position] at on
  · have position : j = c.byteSize - 4 + (j + 4 - c.byteSize) := by omega
    rw [position, back (by omega)] at asked
    have bound := ByteEnable.add_trailingGap_le_of_enables asked
    omega

/-- Without a byte in the first mask the read is a fence. -/
theorem isFence_iff (completable : h.Completable r) (masked : h.Masked r) :
    h.isFence r ↔ ByteEnable.isEmpty r.firstEnable := by
  have zero : ByteEnable.isEmpty 0 := by decide
  have four : (4 : UInt32).toNat = 4 := by decide
  unfold Header.isFence
  simp only [Bool.and_eq_true, decide_eq_true_eq, beq_iff_eq]
  constructor
  · rintro ⟨⟨-, first⟩, -⟩
    rw [first]
    exact zero
  · intro none_
    obtain ⟨count, counted, -⟩ := completable.counted
    have first := (ByteEnable.isEmpty_iff masked.first).1 none_
    unfold ByteEnable.byteCount? at counted
    rw [if_pos none_] at counted
    split at counted
    · cases counted
    · split at counted
      · next both =>
        have size := completable.aligned
        have dwords : h.dwordSize = (h.byteSize.toNat + 3) / 4 := rfl
        refine ⟨⟨?_, first⟩, (ByteEnable.isEmpty_iff masked.last).1 both.1⟩
        rw [UInt32.le_iff_toNat_le, four]
        omega
      · cases counted

/-- What is left behind a completion is what was left with it, less the bytes from its first one
that is asked for to its end. -/
theorem byteCount_of_next {d : CompletionPacket} (cut : c.CutFrom p h r) (cut' : d.CutFrom p h r)
    (completable : h.Completable r) (next : d.startDword = c.startDword + c.dwordSize) :
    d.byteCount + (c.byteSize - c.firstAsked h r) = c.byteCount := by
  have size := cut.byteSize
  have nonempty := cut.nonempty
  have nonempty' := cut'.nonempty
  have inside' := cut'.inside
  obtain ⟨count, counted, -⟩ := completable.counted
  obtain ⟨front, back, total⟩ := ByteEnable.enabled_of_byteCount? (by omega) counted
  have leading := ByteEnable.leadingGap_le r.firstEnable
  have trailing := ByteEnable.trailingGap_le back
  rw [cut.byteCount, cut'.byteCount, next, ByteEnable.remaining, ByteEnable.remaining,
    if_neg (by omega)]
  by_cases begins : c.startDword = 0
  · rw [if_pos begins, counted, Option.getD_some, firstAsked_of_first cut completable begins]
    omega
  · rw [if_neg begins, firstAsked_of_later cut (Nat.pos_of_ne_zero begins) (.inl (by omega))]
    omega

/-- The last completion counts the bytes from where it begins to count to the last one that is
asked for; a fence counts one. -/
theorem byteCount_of_last (cut : c.CutFrom p h r) (carries : c.Carries slot h data c.startDword)
    (completable : h.Completable r) (masked : h.Masked r)
    (ends : c.startDword + c.dwordSize = h.dwordSize) :
    c.byteCount = if h.isFence r then 1 else c.askedEnd h r - c.countedFrom h r := by
  have size := cut.byteSize
  have nonempty := cut.nonempty
  obtain ⟨count, counted, -⟩ := completable.counted
  rw [cut.byteCount, countedFrom_eq cut carries completable, ByteEnable.remaining, counted,
    Option.getD_some]
  by_cases single : h.dwordSize = 1
  · have begins : c.startDword = 0 := by omega
    rw [if_pos begins, if_pos begins]
    rw [single] at counted
    unfold ByteEnable.byteCount? at counted
    rw [if_neg Nat.one_ne_zero] at counted
    cases front : ByteEnable.isEmpty r.firstEnable with
    | true =>
      rw [if_pos ((isFence_iff completable masked).2 front)]
      rw [if_pos front] at counted
      split at counted
      · exact (Option.some.inj counted).symm
      · cases counted
    | false =>
      have notFence : ¬ h.isFence r := fun fence => by
        have none_ := (isFence_iff completable masked).1 fence
        rw [front] at none_
        cases none_
      rw [if_neg notFence, askedEnd_of_last cut ends (if_pos single).symm front]
      rw [front, if_neg Bool.false_ne_true] at counted
      rcases masked.single single with none_ | same
      · rw [none_, if_pos (by decide), if_pos rfl] at counted
        have value := Option.some.inj counted
        omega
      · rw [same, front, if_neg Bool.false_ne_true] at counted
        have value := Option.some.inj counted
        omega
  · obtain ⟨front, back, total⟩ := ByteEnable.enabled_of_byteCount? (by omega) counted
    have notFence : ¬ h.isFence r := fun fence => by
      have none_ := (isFence_iff completable masked).1 fence
      rw [front] at none_
      cases none_
    rw [if_neg notFence, askedEnd_of_last cut ends (if_neg single).symm back]
    split <;> omega

/-- By the bytes of a completion alone, what is left of the read goes down by no more than there
is, and with the last one to zero. -/
theorem byteCount?_of_cut (cut : c.CutFrom p h r) (carries : c.Carries slot h data c.startDword)
    (completable : h.Completable r) : ∃ sent,
      ByteEnable.byteCount? c.dwordSize (if c.isFirst then r.firstEnable else 0xf)
        (if c.isLast then r.lastEnable else 0xf) = some sent ∧
      sent ≤ c.byteCount ∧ (c.isLast → sent = c.byteCount) := by
  have full : ByteEnable.isEmpty 0xf = false ∧ ByteEnable.leadingGap 0xf = 0 := by decide
  have nonempty := cut.nonempty
  have inside := cut.inside
  obtain ⟨count, counted, -⟩ := completable.counted
  rw [cut.byteCount, carries.first, carries.last]
  by_cases ends : c.startDword + c.dwordSize = h.dwordSize
  · rw [decide_eq_true ends, if_pos rfl]
    by_cases begins : c.startDword = 0
    · have all : c.dwordSize = h.dwordSize := by omega
      rw [decide_eq_true begins, if_pos rfl, all, ByteEnable.remaining, if_pos begins, counted]
      exact ⟨count, rfl, Nat.le_refl _, fun _ => rfl⟩
    · obtain ⟨-, back, -⟩ := ByteEnable.enabled_of_byteCount? (by omega) counted
      rw [decide_eq_false begins, if_neg Bool.false_ne_true, ByteEnable.remaining, if_neg begins,
        ByteEnable.byteCount?, if_neg (by omega), full.1, if_neg Bool.false_ne_true, back,
        if_neg Bool.false_ne_true, full.2]
      exact ⟨_, rfl, by omega, fun _ => by omega⟩
  · obtain ⟨front, back, total⟩ := ByteEnable.enabled_of_byteCount? (by omega) counted
    have trailing := ByteEnable.trailingGap_le back
    have leading := ByteEnable.leadingGap_le r.firstEnable
    rw [decide_eq_false ends, if_neg Bool.false_ne_true]
    by_cases begins : c.startDword = 0
    · rw [decide_eq_true begins, if_pos rfl, ByteEnable.byteCount?_full nonempty front,
        ByteEnable.remaining, if_pos begins, counted, Option.getD_some]
      exact ⟨_, rfl, by omega, fun last => absurd last Bool.false_ne_true⟩
    · rw [decide_eq_false begins, if_neg Bool.false_ne_true,
        ByteEnable.byteCount?_full nonempty full.1, ByteEnable.remaining, if_neg begins, full.2]
      exact ⟨_, rfl, by omega, fun last => absurd last Bool.false_ne_true⟩

theorem byteCount_bounds (cut : c.CutFrom p h r) (completable : h.Completable r) :
    1 ≤ c.byteCount ∧ c.byteCount ≤ 4095 := by
  have nonempty := cut.nonempty
  have inside := cut.inside
  have aligned := completable.aligned
  have short := completable.short
  have dwords : h.dwordSize = (h.byteSize.toNat + 3) / 4 := rfl
  obtain ⟨count, counted, positive⟩ := completable.counted
  have begins : c.startDword < h.dwordSize := by omega
  have bounds := ByteEnable.remaining_bounds counted positive begins
  rw [cut.byteCount]
  omega

/-- The header of a completion has its byte count and the address of the byte from which on it
counts. -/
theorem body_header_of_cut (cut : c.CutFrom p h r) (carries : c.Carries slot h data c.startDword)
    (completable : h.Completable r) : ∃ b, (c.header h).body = .completion b ∧
      b.byteCount.toNat = c.byteCount ∧
      b.lowerAddr.toNat = (r.addr.toNat + 4 * c.startDword + c.countedFrom h r) % 128 := by
  have bounds := byteCount_bounds cut completable
  have request : h.request?.getD {} = r := by
    rw [Header.request?, completable.body]
    rfl
  refine ⟨_, rfl, ?_, ?_⟩
  · change (UInt16.ofNat c.byteCount).toNat = c.byteCount
    rw [UInt16.toNat_ofNat']
    omega
  · rw [request, countedFrom_eq cut carries completable, carries.first]
    simp only [decide_eq_true_eq, UInt32.toNat_ofNat']
    omega

/-- Only where the last DWORD stands alone and its mask leaves the first byte out, a completion
counts from a byte that is not asked for. -/
theorem countedFrom_eq_or (cut : c.CutFrom p h r) (carries : c.Carries slot h data c.startDword) :
    c.countedFrom h r = c.firstAsked h r ∨
      (¬ c.isFirst ∧ c.isLast ∧ c.dwordSize = 1 ∧ ¬ ByteEnable.enables r.lastEnable 0) := by
  have nonempty := cut.nonempty
  have inside := cut.inside
  unfold countedFrom
  rw [carries.first, carries.last]
  by_cases begins : c.startDword = 0
  · exact .inl (if_pos (decide_eq_true begins))
  · rw [decide_eq_false begins, if_neg Bool.false_ne_true]
    by_cases whole : c.startDword + 1 < h.dwordSize ∨ ByteEnable.enables r.lastEnable 0
    · exact .inl (firstAsked_of_later cut (Nat.pos_of_ne_zero begins) whole).symm
    · obtain ⟨alone, off⟩ := not_or.1 whole
      exact .inr ⟨Bool.false_ne_true, decide_eq_true (by omega), by omega, off⟩

end CompletionPacket

/-! ## The completions of one read in turn -/

namespace CarriesRange

variable {slot start stop : Nat} {h : Header} {data : List UInt32} {cs : List CompletionPacket}
  {c d : CompletionPacket}

theorem ne_nil (range : CarriesRange slot h data start cs stop) (more : start < stop) :
    cs ≠ [] := by
  rintro rfl
  exact Nat.ne_of_lt more range

theorem flatMap_range' (range : CarriesRange slot h data start cs stop) : start ≤ stop ∧
    cs.flatMap (fun c => List.range' c.startDword c.dwordSize) =
      List.range' start (stop - start) := by
  induction cs generalizing start with
  | nil =>
    obtain rfl : start = stop := range
    simp
  | cons c rest ih =>
    obtain ⟨carries, later⟩ := range
    obtain ⟨le, tiles⟩ := ih later
    have begins := carries.begins
    have split : stop - start = c.dwordSize + (stop - (start + c.dwordSize)) := by omega
    refine ⟨by omega, ?_⟩
    rw [List.flatMap_cons, tiles, split, begins, List.range'_append_1]

theorem startDword_iff (range : CarriesRange slot h data start cs stop) {i : Nat}
    (found : cs[i]? = some c) : start ≤ c.startDword ∧ (c.startDword = start ↔ i = 0) := by
  induction cs generalizing start i with
  | nil => cases found
  | cons d rest ih =>
    obtain ⟨carries, later⟩ := range
    have nonempty := carries.nonempty
    cases i with
    | zero =>
      obtain rfl := Option.some.inj found
      exact ⟨Nat.le_of_eq carries.begins.symm, iff_of_true carries.begins rfl⟩
    | succ i =>
      have behind := (ih later found).1
      exact ⟨by omega, iff_of_false (by omega) (Nat.succ_ne_zero i)⟩

theorem end_iff (range : CarriesRange slot h data start cs stop) {i : Nat}
    (found : cs[i]? = some c) : c.startDword + c.dwordSize = stop ↔ i + 1 = cs.length := by
  induction cs generalizing start i with
  | nil => cases found
  | cons d rest ih =>
    obtain ⟨carries, later⟩ := range
    cases i with
    | succ i => simpa using ih later found
    | zero =>
      obtain rfl := Option.some.inj found
      rw [carries.begins]
      constructor
      · intro ends
        rw [ends] at later
        cases rest with
        | nil => rfl
        | cons x xs =>
          have nonempty := later.1.nonempty
          have le := later.2.flatMap_range'.1
          omega
      · intro alone
        obtain rfl : rest = [] := List.eq_nil_of_length_eq_zero (by simpa using alone)
        exact later

theorem startDword_next (range : CarriesRange slot h data start cs stop) {i : Nat}
    (found : cs[i]? = some c) (next : cs[i + 1]? = some d) :
    d.startDword = c.startDword + c.dwordSize := by
  induction cs generalizing start i with
  | nil => cases found
  | cons x rest ih =>
    obtain ⟨carries, later⟩ := range
    cases i with
    | succ i => exact ih later found next
    | zero =>
      obtain rfl := Option.some.inj found
      rw [carries.begins]
      exact (later.startDword_iff next).2.2 rfl

end CarriesRange

/-- What a read is cut into: completions that tile it, cut at completion boundaries, of which each
counts the bytes that are left of the read from its first byte that is asked for, or from its first
byte behind the first of them. -/
structure Header.SplitsInto (h : Header) (r : RequestBody) (p : Parameters)
    (cs : List CompletionPacket) : Prop where
  nonempty : cs ≠ []
  tiles : cs.flatMap (fun c => List.range' c.startDword c.dwordSize) = List.range h.dwordSize
  dwords : ∀ c ∈ cs, c.byteSize = 4 * c.dwordSize
  whole : ∀ (i : Nat) (c : CompletionPacket), cs[i]? = some c → i + 1 < cs.length →
    0 < c.byteSize ∧ p.completionBoundary ∣ c.byteSize ∧ c.byteSize ≤ p.maxReadBytes
  isFirst : ∀ (i : Nat) (c : CompletionPacket), cs[i]? = some c → (c.isFirst ↔ i = 0)
  isLast : ∀ (i : Nat) (c : CompletionPacket), cs[i]? = some c →
    (c.isLast ↔ i + 1 = cs.length)
  total : ∀ c, cs[0]? = some c →
    ByteEnable.byteCount? h.dwordSize r.firstEnable r.lastEnable = some c.byteCount
  next : ∀ (i : Nat) (c d : CompletionPacket), cs[i]? = some c → cs[i + 1]? = some d →
    d.byteCount + (c.byteSize - c.firstAsked h r) = c.byteCount
  final : ∀ c ∈ cs, c.isLast →
    c.byteCount = if h.isFence r then 1 else c.askedEnd h r - c.countedFrom h r
  bounds : ∀ c ∈ cs, 1 ≤ c.byteCount ∧ c.byteCount ≤ 4095
  /-- No byte count that is taken off is missing or more than what is left. -/
  exact_ : ∀ c ∈ cs, 4 * c.startDword + c.byteSize ≤ h.byteSize.toNat ∧ ∃ sent,
    ByteEnable.byteCount? c.dwordSize (if c.isFirst then r.firstEnable else 0xf)
      (if c.isLast then r.lastEnable else 0xf) = some sent ∧
    sent ≤ c.byteCount ∧ (c.isLast → sent = c.byteCount)
  header : ∀ c ∈ cs, ∃ b, (c.header h).body = .completion b ∧ b.byteCount.toNat = c.byteCount ∧
    b.lowerAddr.toNat = (r.addr.toNat + 4 * c.startDword + c.countedFrom h r) % 128
  /-- Only a last DWORD that stands alone counts from a byte that is not asked for. -/
  counted : ∀ c ∈ cs, c.countedFrom h r = c.firstAsked h r ∨
    (¬ c.isFirst ∧ c.isLast ∧ c.dwordSize = 1 ∧ ¬ ByteEnable.enables r.lastEnable 0)

namespace Engine

variable {p : Parameters} {slot start : Nat} {h : Header} {r : RequestBody} {data : List UInt32}
  {cs : List CompletionPacket}

theorem CutsRead.carriesRange (cuts : CutsRead p slot h r data start cs) :
    CarriesRange slot h data start cs h.dwordSize := by
  induction cuts with
  | done => rfl
  | @more start n cs some_ inside _ _ _ ih =>
    have size : (4 * n + 3) / 4 = n := by omega
    refine ⟨⟨rfl, rfl, rfl, rfl, ?_, ?_, ?_⟩, ?_⟩
    · change (n == h.dwordSize - start) = decide (start + (4 * n + 3) / 4 = h.dwordSize)
      rw [size, beq_eq_decide]
      exact decide_eq_decide.2 (by omega)
    · change 0 < (4 * n + 3) / 4
      rwa [size]
    · change start + (4 * n + 3) / 4 ≤ h.dwordSize
      rwa [size]
    · change CarriesRange slot h data (start + (4 * n + 3) / 4) cs h.dwordSize
      rwa [size]

theorem CutsRead.whole (cuts : CutsRead p slot h r data start cs) :
    ∀ c ∈ cs, c.startDword + c.dwordSize < h.dwordSize →
      p.completionBoundary ∣ c.byteSize ∧ c.byteSize ≤ p.maxReadBytes := by
  induction cuts with
  | done => exact List.forall_mem_nil _
  | @more start n cs _ _ _ whole _ ih =>
    rw [List.forall_mem_cons]
    refine ⟨fun more => whole ?_, ih⟩
    change start + (4 * n + 3) / 4 < h.dwordSize at more
    omega

theorem CutsRead.splitsInto (cuts : CutsRead p slot h r data 0 cs)
    (completable : h.Completable r) (masked : h.Masked r) : h.SplitsInto r p cs := by
  have range := cuts.carriesRange
  have cut := cuts.cutFrom fun _ => .inl rfl
  have aligned := completable.aligned
  have dwords : h.dwordSize = (h.byteSize.toNat + 3) / 4 := rfl
  have positive := completable.nonempty
  constructor
  case nonempty => exact range.ne_nil (by omega)
  case tiles => rw [range.flatMap_range'.2, Nat.sub_zero, List.range_eq_range']
  case dwords => exact fun c member => (cut c member).2.byteSize
  case whole =>
    intro i c found more
    have member := List.mem_of_getElem? found
    have nonempty := (cut c member).2.nonempty
    have size := (cut c member).2.byteSize
    have inside := (cut c member).2.inside
    have notEnd := fun ends => Nat.ne_of_lt more ((range.end_iff found).1 ends)
    exact ⟨by omega, cuts.whole c member (Nat.lt_of_le_of_ne inside notEnd)⟩
  case isFirst =>
    intro i c found
    rw [(range.carries_of_mem (List.mem_of_getElem? found)).first, decide_eq_true_eq]
    exact (range.startDword_iff found).2
  case isLast =>
    intro i c found
    rw [(range.carries_of_mem (List.mem_of_getElem? found)).last, decide_eq_true_eq]
    exact range.end_iff found
  case total =>
    intro c found
    obtain ⟨count, counted, -⟩ := completable.counted
    rw [(cut c (List.mem_of_getElem? found)).2.byteCount, ByteEnable.remaining,
      if_pos ((range.startDword_iff found).2.2 rfl), counted]
    rfl
  case next =>
    intro i c d found next
    exact CompletionPacket.byteCount_of_next (cut c (List.mem_of_getElem? found)).2
      (cut d (List.mem_of_getElem? next)).2 completable (range.startDword_next found next)
  case final =>
    intro c member last
    have carries := range.carries_of_mem member
    rw [carries.last, decide_eq_true_eq] at last
    exact CompletionPacket.byteCount_of_last (cut c member).2 carries completable masked last
  case bounds =>
    exact fun c member => CompletionPacket.byteCount_bounds (cut c member).2 completable
  case exact_ =>
    intro c member
    have inside := (cut c member).2.inside
    have size := (cut c member).2.byteSize
    exact ⟨by omega, CompletionPacket.byteCount?_of_cut (cut c member).2
      (range.carries_of_mem member) completable⟩
  case header =>
    exact fun c member => CompletionPacket.body_header_of_cut (cut c member).2
      (range.carries_of_mem member) completable
  case counted =>
    exact fun c member => CompletionPacket.countedFrom_eq_or (cut c member).2
      (range.carries_of_mem member)

/-- The byte enables with which a read that breaks no rule is stored. -/
theorem masked_of_legal {e : Engine} {flit : Flit} {last : Bool} (header : flit.header = .ok h)
    (body : h.body = .request r) (extent : e.params.readExtentFault? last h r = none)
    (rules : e.params.readFault? { h with body := .request (h.effectiveRequest r) }
      (h.effectiveRequest r) = none) : (h.stored r).Masked (h.effectiveRequest r) := by
  obtain ⟨-, -, atomicRules⟩ := Parameters.extent_of_legal extent
  obtain ⟨powerUser, -, single, -⟩ := Parameters.rules_of_legal rules
  have limited := Flit.limited_header header body powerUser
  have full : (0xf : UInt8).toNat < 16 := by decide
  by_cases atomic : h.fmtType.isAtomic
  · obtain ⟨-, -, none_⟩ := Parameters.atomic_of_legal (atomicRules atomic)
    have first : (h.effectiveRequest r).firstEnable = 0xf := by
      rw [Header.effectiveRequest, if_pos atomic]
    have last : (h.effectiveRequest r).lastEnable = 0 ∨
        (h.effectiveRequest r).lastEnable = 0xf := by
      rw [Header.effectiveRequest, if_pos atomic]
      change (if 4 < h.byteSize then 0xf else r.lastEnable) = 0 ∨
        (if 4 < h.byteSize then 0xf else r.lastEnable) = 0xf
      split
      · exact .inr rfl
      · exact .inl none_
    refine ⟨by rw [first]; exact full, ?_, fun _ => by rw [first]; exact last⟩
    rcases last with zero | all
    · rw [zero]
      decide
    · rw [all]
      exact full
  · have same : h.effectiveRequest r = r := if_neg atomic
    have notCas : ¬ h.fmtType.isCas := fun cas => atomic (FmtType.isAtomic_of_isCas cas)
    rw [same] at single ⊢
    refine ⟨limited.first, limited.last, fun alone => .inl (single ?_)⟩
    have size := h.toNat_byteSize_stored r
    rw [Header.completedBytes, if_neg notCas] at size
    rw [Header.dwordSize, size] at alone
    change h.byteSize.toNat ≤ 4
    omega

/-- However the draws fall, the answer of the right length to a read that broke no rule is cut into
completions that tile it and count its bytes. -/
theorem queueRead_splitsInto (e : Engine) (slot : Nat) {flit : Flit} {h : Header} {r : RequestBody}
    {last : Bool} {data : List UInt8} (header : flit.header = .ok h) (body : h.body = .request r)
    (extent : e.params.readExtentFault? last h r = none)
    (rules : e.params.readFault? { h with body := .request (h.effectiveRequest r) }
      (h.effectiveRequest r) = none)
    (sized : data.length =
      if (h.stored r).isFence (h.effectiveRequest r) then 0 else h.completedBytes) :
    let s := e.queueRead slot (h.stored r) data
    s.answer = .ok () ∧ s.events = [] ∧ ∃ cs, QueuesInTurn e cs s.state ∧
      (∀ c ∈ cs, c.slot = slot ∧ c.data = paddedDwords (h.stored r).dwordSize data) ∧
      (h.stored r).SplitsInto (h.effectiveRequest r) e.params cs := by
  have completable := completable_of_legal header body extent rules
  have masked := masked_of_legal header body extent rules
  obtain ⟨count, counted, -⟩ := completable.counted
  have total : ByteEnable.remaining (h.stored r).dwordSize (h.effectiveRequest r).firstEnable
      (h.effectiveRequest r).lastEnable 0 = count := by
    rw [ByteEnable.remaining, if_pos rfl, counted]
    rfl
  obtain ⟨cs, cuts, inTurn⟩ := queuesInTurn_queuePackets completable slot
    (paddedDwords (h.stored r).dwordSize data) (h.stored r).dwordSize 0 e (Nat.le_refl _)
    (Nat.zero_le _)
  rw [total] at inTurn
  have call : e.queueRead slot (h.stored r) data = .ok (queuePackets slot (h.stored r)
      (h.effectiveRequest r) (paddedDwords (h.stored r).dwordSize data) (h.stored r).dwordSize 0
      count e) () := by
    have expected : data.length = if (h.stored r).isFence (h.effectiveRequest r) then 0
        else (h.stored r).byteSize.toNat := by
      rw [sized, h.toNat_byteSize_stored]
    have asked : (h.stored r).request?.getD {} = h.effectiveRequest r := rfl
    simp only [queueRead, asked, expected, counted, ne_eq, not_true_eq_false, if_false]
  intro s
  have range := cuts.carriesRange
  rw [show s = _ from call]
  exact ⟨rfl, rfl, cs, inTurn, fun c member =>
    ⟨(range.carries_of_mem member).slot, (range.carries_of_mem member).data⟩,
    cuts.splitsInto completable masked⟩

/-- A read of two DWORDs, of which the last bytes of both are asked for, cut between them. -/
theorem queueRead_splitsInto_two_dwords :
    let config : ValidParameters := ⟨{ completionBoundary := 4 }, by decide⟩
    let e := (create config {}).withDraws (.ofList [128])
    let r : RequestBody := { addr := 0x1000, firstEnable := 0x8, lastEnable := 0xf }
    let h : Header :=
      { fmtType := .memRead32, byteSize := 8, requesterId := 7, body := .request r }
    let flit := (Flit.blank 512 10).storing h
    let s := e.queueRead 3 (h.stored r) [1, 2, 3, 4, 5, 6, 7, 8]
    flit.header = .ok h ∧ e.params.readExtentFault? true h r = none ∧
      e.params.readFault? h r = none ∧ s.answer = .ok () ∧
      ∃ cs, QueuesInTurn e cs s.state ∧ (h.stored r).SplitsInto r e.params cs := by
  intro config e r h flit s
  have header : flit.header = .ok h := by decide +kernel
  have extent : e.params.readExtentFault? true h r = none := by decide +kernel
  have rules : e.params.readFault? h r = none := by decide +kernel
  have same : h.effectiveRequest r = r := by decide +kernel
  have sized : ([1, 2, 3, 4, 5, 6, 7, 8] : List UInt8).length =
      if (h.stored r).isFence (h.effectiveRequest r) then 0 else h.completedBytes := by
    decide +kernel
  obtain ⟨answer, -, cs, inTurn, -, splits⟩ :=
    queueRead_splitsInto e 3 header rfl extent (by rw [same]; exact rules) sized
  rw [same] at splits
  exact ⟨header, extent, rules, answer, cs, inTurn, splits⟩

/-- A read of which the last two bytes of its second DWORD are asked for, cut between its DWORDs:
the second completion counts four bytes and says that it begins with the first of them. -/
theorem queueRead_counts_unasked :
    let config : ValidParameters := ⟨{ completionBoundary := 4 }, by decide⟩
    let e := (create config {}).withDraws (.ofList [128])
    let r : RequestBody := { addr := 0x1000, firstEnable := 0xf, lastEnable := 0xc }
    let h : Header :=
      { fmtType := .memRead32, byteSize := 8, requesterId := 7, body := .request r }
    let flit := (Flit.blank 512 10).storing h
    let s := e.queueRead 0 (h.stored r) [1, 2, 3, 4, 5, 6, 7, 8]
    flit.header = .ok h ∧ e.params.readExtentFault? true h r = none ∧
      e.params.readFault? h r = none ∧ s.answer = .ok () ∧
      ∃ c, s.state.completions.items[1]? = some c ∧ c.isLast ∧ c.startDword = 1 ∧
        c.byteCount = 4 ∧ c.askedEnd h r - c.firstAsked h r = 2 ∧
        (c.header (h.stored r)).body = .completion { byteCount := 4, lowerAddr := 4 } ∧
        (0x1000 + 4 * c.startDword + c.firstAsked h r) % 128 = 6 := by
  intro config e r h flit s
  refine ⟨by decide +kernel, by decide +kernel, by decide +kernel, by decide +kernel,
    ⟨0, paddedDwords 2 [1, 2, 3, 4, 5, 6, 7, 8], 4, 1, 4, false, true⟩, ?_⟩
  decide +kernel

end Engine
end TlpBridge

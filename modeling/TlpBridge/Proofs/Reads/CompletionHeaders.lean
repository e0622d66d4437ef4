import TlpBridge.Proofs.Tlp.ByteCounts
import TlpBridge.Proofs.FromDevice.DeviceBeats
import TlpBridge.Proofs.Stream.LegalParameters
import TlpBridge.Proofs.Reads.SplitReads
import TlpBridge.Proofs.Tlp.StoredHeaders

/-!
# Headers of completions

A read that passes the checks leaves a header from which every one of its completions
gets a header that can be encoded.
-/
namespace TlpBridge

theorem FmtType.isAtomic_of_isCas {ft : FmtType} (cas : ft.isCas) : ft.isAtomic := by
  simp only [isCas, Bool.or_eq_true, beq_iff_eq] at cas
  rcases cas with rfl | rfl <;> decide

/-- The limits that a request in the power-user encoding obeys because of the fields it came in. -/
structure Header.Limited (h : Header) (r : RequestBody) : Prop where
  aligned : h.byteSize.toNat % 4 = 0
  tag : h.tag.toNat < 1024
  vf : h.routing.vf.toNat < 2048
  pf : h.routing.pf.toNat < 8
  first : r.firstEnable.toNat < 16
  last : r.lastEnable.toNat < 16

theorem HeaderWords.limited_powerUserRequest {w : HeaderWords} {r : RequestBody}
    (body : w.powerUserRequest.body = .request r) : w.powerUserRequest.Limited r := by
  injection body with same
  subst same
  have vf := Layout.Routing.vf.read_lt w.dw5
  have pf := Layout.Routing.pf.read_lt w.dw5
  have first := Layout.Request.firstEnable.read_lt w.dw1
  have last := Layout.Request.lastEnable.read_lt w.dw1
  refine ⟨?_, ?_, ?_, ?_, ?_, ?_⟩
  · change (UInt32.ofNat w.byteSize).toNat % 4 = 0
    rw [toNat_ofNat_byteSize, Nat.mul_mod_left]
  · exact w.tag_lt (Field.read_lt ..)
  · change (UInt16.ofNat (Layout.Routing.vf.read w.dw5)).toNat < 2048
    change _ < 2 ^ 11 at vf
    rw [UInt16.toNat_ofNat']
    omega
  · change (UInt8.ofNat (Layout.Routing.pf.read w.dw5)).toNat < 8
    change _ < 2 ^ 3 at pf
    rw [UInt8.toNat_ofNat']
    omega
  · change (UInt8.ofNat (Layout.Request.firstEnable.read w.dw1)).toNat < 16
    change _ < 2 ^ 4 at first
    rw [UInt8.toNat_ofNat']
    omega
  · change (UInt8.ofNat (Layout.Request.lastEnable.read w.dw1)).toNat < 16
    change _ < 2 ^ 4 at last
    rw [UInt8.toNat_ofNat']
    omega

theorem Flit.limited_header {f : Flit} {h : Header} {r : RequestBody} (shown : f.header = .ok h)
    (body : h.body = .request r) (powerUser : h.dataMover = false) : h.Limited r := by
  obtain ⟨w, dataMover, -, d⟩ := decodes_of_header shown
  cases d with
  | powerUserRequest => exact HeaderWords.limited_powerUserRequest body
  | dataMoverRequest => cases powerUser
  | completion => cases body
  | interrupt => cases body
  | other => cases body

/-- A stored header from which completions can be made. -/
structure Header.Completable (h : Header) (r : RequestBody) : Prop where
  body : h.body = .request r
  powerUser : h.dataMover = false
  aligned : h.byteSize.toNat % 4 = 0
  nonempty : 0 < h.byteSize.toNat
  short : h.byteSize.toNat < 4096
  tag : h.tag.toNat < 1024
  vf : h.routing.vf.toNat < 2048
  pf : h.routing.pf.toNat < 8
  counted : ∃ count, ByteEnable.byteCount? h.dwordSize r.firstEnable r.lastEnable = some count ∧
    0 < count

/-- The header that is kept for a read: it has the byte enables and the length with which the read
is completed. -/
def Header.stored (h : Header) (r : RequestBody) : Header :=
  { h with body := .request (h.effectiveRequest r), byteSize := UInt32.ofNat h.completedBytes }

namespace Parameters

variable {p : Parameters} {h : Header} {r : RequestBody}

theorem atomic_of_legal (legal : atomicFault? h r = none) :
    h.byteSize ∈ (if h.fmtType.isCas then [8, 16] else [4, 8] : List UInt32) ∧
      r.firstEnable = 0 ∧ r.lastEnable = 0 := by
  unfold atomicFault? at legal
  simp only [rule_eq_none_iff, not_not, not_or, and_true] at legal
  exact legal.2

theorem extent_of_legal {last : Bool} (legal : p.readExtentFault? last h r = none) :
    h.byteSize.toNat ≤ p.maxRead h.mode ∧ 0 < h.byteSize.toNat ∧
      (h.fmtType.isAtomic → atomicFault? h r = none) := by
  unfold readExtentFault? at legal
  simp only [rule_eq_none_iff, not_not, not_lt] at legal
  obtain ⟨-, bounded, nonempty, atomic⟩ := legal
  refine ⟨bounded, ?_, ?_⟩
  · apply Nat.pos_of_ne_zero
    intro zero
    exact nonempty (UInt32.toNat_inj.1 zero)
  · intro kind
    rwa [if_pos kind] at atomic

theorem rules_of_legal (legal : p.readFault? h r = none) :
    h.dataMover = false ∧ (r.firstEnable = 0 → r.lastEnable = 0 ∧ h.byteSize.toNat ≤ 4) ∧
      (h.byteSize.toNat ≤ 4 → r.lastEnable = 0) ∧ (4 < h.byteSize.toNat → r.lastEnable ≠ 0) ∧
      h.tag.toNat < p.maxDmaReads := by
  unfold readFault? at legal
  simp only [rule_eq_none_iff, Option.orElse_eq_orElse, Option.orElse_eq_or,
    Option.or_eq_none_iff, not_and, not_or, not_not, not_le, and_true, UInt32.le_iff_toNat_le,
    UInt32.lt_iff_toNat_lt] at legal
  obtain ⟨encoding, first, single, several, -, -, tag⟩ := legal
  refine ⟨by simpa using encoding, ?_, single, several, tag⟩
  intro zero
  exact (first zero).imp_right Nat.le_of_not_lt

theorem translation_of_legal (legal : p.readFault? h r = none)
    (translates : r.attributes.addressType = .translationRequest) :
    h.byteSize % 8 = 0 ∧ ¬ h.fmtType.isAtomic := by
  unfold readFault? at legal
  simp only [rule_eq_none_iff, Option.orElse_eq_orElse, Option.orElse_eq_or,
    Option.or_eq_none_iff] at legal
  obtain ⟨-, -, -, -, -, translation, -⟩ := legal
  unfold translationFault? at translation
  simp only [translates, rule_eq_none_iff, not_not, and_true] at translation
  exact ⟨translation.1, translation.2.2.2⟩

end Parameters

namespace Header

variable {h : Header} {r : RequestBody} {p : Parameters}

/-- The byte enables of a read that breaks no rule give a byte count. -/
theorem counted_of_legal (limited : h.Limited r) (nonempty : 0 < h.byteSize.toNat)
    (rules : p.readFault? h r = none) : ∃ count, ByteEnable.byteCount? (h.byteSize.toNat / 4)
      r.firstEnable r.lastEnable = some count ∧ 0 < count := by
  obtain ⟨-, first, single, several, -⟩ := Parameters.rules_of_legal rules
  have aligned := limited.aligned
  unfold ByteEnable.byteCount?
  rw [if_neg (by omega)]
  by_cases short : h.byteSize.toNat ≤ 4
  · have one : h.byteSize.toNat / 4 = 1 := by omega
    have last : ByteEnable.isEmpty r.lastEnable := by
      rw [single short]
      rfl
    cases front : ByteEnable.isEmpty r.firstEnable with
    | true => exact ⟨1, by simp [last, one], Nat.one_pos⟩
    | false =>
      have gaps := ByteEnable.leadingGap_add_trailingGap_le front
      exact ⟨4 - ByteEnable.leadingGap r.firstEnable - ByteEnable.trailingGap r.firstEnable,
        by simp [last, one], by omega⟩
  · have back : ByteEnable.isEmpty r.lastEnable = false := by
      rw [← Bool.not_eq_true, ByteEnable.isEmpty_iff limited.last]
      exact several (Nat.lt_of_not_le short)
    have front : ByteEnable.isEmpty r.firstEnable = false := by
      rw [← Bool.not_eq_true, ByteEnable.isEmpty_iff limited.first]
      intro zero
      exact short (first zero).2
    have leading := ByteEnable.leadingGap_le r.firstEnable
    have trailing := ByteEnable.trailingGap_le back
    exact ⟨h.byteSize.toNat / 4 * 4 - ByteEnable.leadingGap r.firstEnable -
      ByteEnable.trailingGap r.lastEnable, by simp [front, back], by omega⟩

/-- The four lengths that an atomic operation can have. Whatever the byte enables of the request
are, all bytes count. -/
theorem counted_of_atomic (atomic : h.fmtType.isAtomic)
    (rules : Parameters.atomicFault? h r = none) :
    h.completedBytes % 4 = 0 ∧ 0 < h.completedBytes ∧ h.completedBytes ≤ 8 ∧
      ByteEnable.byteCount? (h.completedBytes / 4) (h.effectiveRequest r).firstEnable
        (h.effectiveRequest r).lastEnable = some h.completedBytes := by
  obtain ⟨length, -, last⟩ := Parameters.atomic_of_legal rules
  have long : (4 : UInt32) < 8 ∧ (4 : UInt32) < 16 := by decide
  unfold effectiveRequest completedBytes
  cases cas : h.fmtType.isCas with
  | true =>
    simp only [cas, if_true, List.mem_cons, List.not_mem_nil, or_false] at length
    rcases length with same | same
    · simp only [atomic, if_true, same, long]
      exact ⟨by decide, by decide, by decide, by decide⟩
    · simp only [atomic, if_true, same, long]
      exact ⟨by decide, by decide, by decide, by decide⟩
  | false =>
    simp only [cas, Bool.false_eq_true, if_false, List.mem_cons, List.not_mem_nil,
      or_false] at length
    rcases length with same | same
    · simp only [atomic, if_true, same, last, Bool.false_eq_true, if_false]
      exact ⟨by decide, by decide, by decide, by decide⟩
    · simp only [atomic, if_true, same, long, Bool.false_eq_true, if_false]
      exact ⟨by decide, by decide, by decide, by decide⟩

end Header

namespace Header

theorem toNat_byteSize_stored (h : Header) (r : RequestBody) :
    (h.stored r).byteSize.toNat = h.completedBytes := by
  have bound := h.byteSize.toNat_lt
  change (UInt32.ofNat h.completedBytes).toNat = _
  rw [UInt32.toNat_ofNat']
  apply Nat.mod_eq_of_lt
  unfold completedBytes
  split <;> omega

theorem isFence_stored (h : Header) (r : RequestBody) :
    (h.stored r).isFence (h.effectiveRequest r) =
      { h with body := .request (h.effectiveRequest r) }.isFence (h.effectiveRequest r) := by
  unfold isFence
  by_cases cas : h.fmtType.isCas
  · have first : (h.effectiveRequest r).firstEnable = 0xf := by
      rw [effectiveRequest, if_pos (FmtType.isAtomic_of_isCas cas)]
    have enabled : ((0xf : UInt8) == 0) = false := by decide
    rw [first, enabled, Bool.and_false, Bool.and_false]
  · have same : (h.stored r).byteSize = h.byteSize := by
      apply UInt32.toNat_inj.1
      rw [toNat_byteSize_stored, completedBytes, if_neg cas]
    rw [same]

end Header

namespace Engine

variable {e e' : Engine} {flit : Flit} {h : Header} {r : RequestBody} {slot : Nat}
  {slots : SlotPool}

/-- From the header of a read that breaks no rule, completions can be made. -/
theorem completable_of_legal {last : Bool} (header : flit.header = .ok h)
    (body : h.body = .request r) (extent : e.params.readExtentFault? last h r = none)
    (rules : e.params.readFault? { h with body := .request (h.effectiveRequest r) }
      (h.effectiveRequest r) = none) : (h.stored r).Completable (h.effectiveRequest r) := by
  obtain ⟨bounded, nonempty, atomicRules⟩ := Parameters.extent_of_legal extent
  obtain ⟨powerUser, -⟩ := Parameters.rules_of_legal rules
  have limited := Flit.limited_header header body powerUser
  have mode : h.mode = .powerUser := by
    change h.dataMover = false at powerUser
    rw [Header.mode, powerUser, if_neg Bool.false_ne_true]
  have limit := (e.config.legal.limits .maxReadBytes).2
  change e.params.maxReadBytes ≤ 4092 at limit
  rw [mode] at bounded
  change h.byteSize.toNat ≤ e.params.maxReadBytes at bounded
  have aligned := limited.aligned
  obtain ⟨whole, positive, short, counted⟩ : h.completedBytes % 4 = 0 ∧ 0 < h.completedBytes ∧
      h.completedBytes < 4096 ∧ ∃ count, ByteEnable.byteCount? (h.completedBytes / 4)
        (h.effectiveRequest r).firstEnable (h.effectiveRequest r).lastEnable = some count ∧
        0 < count := by
    by_cases atomic : h.fmtType.isAtomic
    · obtain ⟨whole, positive, short, counted⟩ :=
        Header.counted_of_atomic atomic (atomicRules atomic)
      exact ⟨whole, positive, by omega, h.completedBytes, counted, positive⟩
    · have notCas : ¬ h.fmtType.isCas := fun cas => atomic (FmtType.isAtomic_of_isCas cas)
      have same : h.effectiveRequest r = r := if_neg atomic
      have bytes : h.completedBytes = h.byteSize.toNat := if_neg notCas
      rw [same] at rules ⊢
      rw [bytes]
      exact ⟨aligned, nonempty, by omega,
        Header.counted_of_legal (h := { h with body := .request r })
          ⟨aligned, limited.tag, limited.vf, limited.pf, limited.first, limited.last⟩ nonempty
          rules⟩
  have size := h.toNat_byteSize_stored r
  refine ⟨rfl, powerUser, ?_, ?_, ?_, limited.tag, limited.vf, limited.pf, ?_⟩
  · rw [size]
    exact whole
  · rw [size]
    exact positive
  · rw [size]
    exact short
  · have dwords : (h.stored r).dwordSize = h.completedBytes / 4 := by
      rw [Header.dwordSize, size]
      omega
    rw [dwords]
    exact counted

theorem TakesRead.completable (takes : e.TakesRead e' flit h r slot slots) :
    (h.stored r).Completable (h.effectiveRequest r) :=
  completable_of_legal takes.header takes.body takes.extent takes.rules

end Engine

/-- The lengths that a completion names fit into its header. -/
structure CompletionPacket.Encodable (c : CompletionPacket) : Prop where
  aligned : c.byteSize % 4 = 0
  short : c.byteSize < 4096
  counted : 0 < c.byteCount ∧ c.byteCount ≤ 4096

namespace Header

theorem bodyFault?_of_completion {h : Header} {c : CompletionBody} (body : h.body = .completion c)
    (kind : h.fmtType.isCompletion) (powerUser : h.dataMover = false) :
    h.bodyFault? = h.completionFault? c := by
  simp [bodyFault?, body, kind, powerUser]

end Header

theorem CompletionPacket.Encodable.fault?_header {c : CompletionPacket} (encodable : c.Encodable)
    {h : Header} {r : RequestBody} (completable : h.Completable r) :
    (c.header h).fault? = none := by
  have kind := c.isCompletion_header h
  have zero : (0 : UInt8).toNat = 0 ∧ (0 : UInt32).toNat = 0 := by decide
  rw [Header.fault?_eq_none_iff, Header.routingFault?_eq_none_iff,
    Header.prefixFault?_eq_none_iff, Header.bodyFault?_of_completion rfl kind completable.powerUser,
    Header.completionFault?_eq_none_iff, Header.powerUserLengthFault?_eq_none_iff]
  refine ⟨completable.tag, ⟨⟨?_, ?_⟩, ?_, ?_, ?_, ?_⟩, ⟨?_, ?_, completable.vf, completable.pf⟩,
    ?_, ?_⟩
  · change (UInt32.ofNat c.byteSize).toNat % 4 = 0
    have aligned := encodable.aligned
    rw [UInt32.toNat_ofNat']
    omega
  · change (UInt32.ofNat c.byteSize).toNat < 4096
    have short := encodable.short
    rw [UInt32.toNat_ofNat']
    omega
  · change 0 < (UInt16.ofNat c.byteCount).toNat ∧ (UInt16.ofNat c.byteCount).toNat ≤ 4096
    have counted := encodable.counted
    rw [UInt16.toNat_ofNat']
    omega
  · change (h.dataMover && c.isLast) = false
    rw [completable.powerUser]
    rfl
  · change (0 : UInt8).toNat < 8
    omega
  · change (UInt32.ofNat (_ % 128)).toNat < 128
    rw [UInt32.toNat_ofNat']
    omega
  · change (0 : UInt8).toNat < 128
    omega
  · change (0 : UInt8).toNat < 32
    omega
  · change (0 : UInt8).toNat < 32
    omega
  · change (0 : UInt32).toNat < 2 ^ 24
    omega

/-- The completion is one of those that a read with the stored header is cut into: it consists of
whole DWORDs of the data and counts the bytes that are left of the read. A read within one boundary
is not cut. -/
structure CompletionPacket.CutFrom (c : CompletionPacket) (p : Parameters) (h : Header)
    (r : RequestBody) : Prop where
  nonempty : 0 < c.dwordSize
  inside : c.startDword + c.dwordSize ≤ h.dwordSize
  byteSize : c.byteSize = 4 * c.dwordSize
  byteCount : c.byteCount =
    ByteEnable.remaining h.dwordSize r.firstEnable r.lastEnable c.startDword
  whole : h.dwordSize ≤ p.completionBoundary / 4 → c.startDword = 0 ∧ c.dwordSize = h.dwordSize

theorem CompletionPacket.CutFrom.encodable {c : CompletionPacket} {p : Parameters} {h : Header}
    {r : RequestBody} (cut : c.CutFrom p h r) (completable : h.Completable r) : c.Encodable := by
  obtain ⟨count, counted, positive⟩ := completable.counted
  have nonempty := cut.nonempty
  have inside := cut.inside
  have whole := completable.aligned
  have short := completable.short
  have dwords : h.dwordSize = (h.byteSize.toNat + 3) / 4 := rfl
  have before : c.startDword < h.dwordSize := by omega
  have bytes := ByteEnable.remaining_bounds counted positive before
  rw [← cut.byteCount] at bytes
  have size := cut.byteSize
  exact ⟨by omega, by omega, bytes.1, by omega⟩

namespace Engine

/-- Completions of one kind are queued, and nothing else happens but draws. -/
inductive Queues (P : CompletionPacket → Prop) : Engine → Engine → Prop where
  | refl (e : Engine) : Queues P e e
  | queue {e e' : Engine} (e₁ : Engine) (c : CompletionPacket)
    (drawn : e₁ = { e with random := e₁.random }) (kind : P c)
    (rest : Queues P (e₁.queueCompletion c) e') : Queues P e e'

theorem Queues.mem {P : CompletionPacket → Prop} {e e' : Engine} (queues : Queues P e e')
    {c : CompletionPacket} (member : c ∈ e'.completions.items) :
    c ∈ e.completions.items ∨ P c := by
  induction queues with
  | refl => exact .inl member
  | queue e₁ d drawn kind _ ih =>
    rcases ih member with queued | new
    · rcases mem_queueCompletion queued with old | rfl
      · rw [drawn] at old
        exact .inl old
      · exact .inr kind
    · exact .inr new

/-- The listed completions are queued one after the other, and nothing else happens but draws. -/
inductive QueuesInTurn : Engine → List CompletionPacket → Engine → Prop where
  | nil (e : Engine) : QueuesInTurn e [] e
  | cons {e e' : Engine} {cs : List CompletionPacket} (e₁ : Engine) (c : CompletionPacket)
    (drawn : e₁ = { e with random := e₁.random })
    (rest : QueuesInTurn (e₁.queueCompletion c) cs e') : QueuesInTurn e (c :: cs) e'

theorem QueuesInTurn.queues {P : CompletionPacket → Prop} {e e' : Engine}
    {cs : List CompletionPacket} (inTurn : QueuesInTurn e cs e') (kind : ∀ c ∈ cs, P c) :
    Queues P e e' := by
  induction inTurn with
  | nil => exact .refl _
  | cons e₁ c drawn _ ih =>
    rw [List.forall_mem_cons] at kind
    exact .queue e₁ c drawn kind.1 (ih kind.2)

theorem packetLength_of_short (e : Engine) (left : Nat)
    (short : left ≤ e.params.completionBoundary / 4) : (e.packetLength left).1 = left := by
  rw [packetLength, if_pos short]

/-- A completion that does not take all that is left consists of whole boundaries. -/
theorem packetLength_of_lt (e : Engine) {left : Nat} (cut : (e.packetLength left).1 < left) :
    e.params.completionBoundary ∣ 4 * (e.packetLength left).1 ∧
      4 * (e.packetLength left).1 ≤ e.params.maxReadBytes := by
  have legal := e.config.legal
  have atLeast : 4 ≤ e.params.completionBoundary := legal.boundary
  have granular : e.params.maxReadBytes % e.params.completionBoundary = 0 := legal.granularity
  have positive : 0 < e.params.maxReadBytes := (legal.limits .maxReadBytes).1
  have power : e.params.completionBoundary = 2 ^ e.params.completionBoundary.log2 :=
    beq_iff_eq.1 legal.power
  have log : 2 ≤ e.params.completionBoundary.log2 :=
    (Nat.le_log2 (Nat.ne_of_gt (Nat.lt_of_lt_of_le (by decide) atLeast))).2 atLeast
  have dwords : 4 * (e.params.completionBoundary / 4) = e.params.completionBoundary := by
    refine Nat.mul_div_cancel' ?_
    rw [power]
    exact Nat.pow_dvd_pow 2 log
  have boundaries : 1 ≤ e.params.maxReadBytes / e.params.completionBoundary :=
    Nat.div_pos (Nat.le_of_dvd positive (Nat.dvd_of_mod_eq_zero granular)) (by omega)
  have long : ¬ left ≤ e.params.completionBoundary / 4 := by
    intro short
    rw [packetLength_of_short e left short] at cut
    exact Nat.lt_irrefl _ cut
  unfold packetLength at cut ⊢
  rw [if_neg long] at cut ⊢
  simp only at cut ⊢
  generalize chosen : (if e.draw.1 = 0 then
      max 1 (e.params.maxReadBytes / e.params.completionBoundary)
    else 1 + e.draw.1 % max 1 (e.params.maxReadBytes / e.params.completionBoundary)) = chunks
    at cut ⊢
  have few : chunks ≤ e.params.maxReadBytes / e.params.completionBoundary := by
    rw [← chosen, Nat.max_eq_right boundaries]
    split
    · exact Nat.le_refl _
    · have below := Nat.mod_lt e.draw.1 boundaries
      omega
  have size : 4 * (chunks * (e.params.completionBoundary / 4)) =
      chunks * e.params.completionBoundary := by
    rw [Nat.mul_left_comm, dwords]
  rw [Nat.min_eq_right (by omega), size]
  exact ⟨Nat.dvd_mul_left .., (Nat.mul_le_mul_right _ few).trans (Nat.div_mul_le_self ..)⟩

/-- What the data of a read is cut into from a DWORD on. Each completion takes some of the DWORDs
that are left: all of them, if they lie within one boundary, else all of them or whole
boundaries. -/
inductive CutsRead (p : Parameters) (slot : Nat) (h : Header) (r : RequestBody)
    (data : List UInt32) : Nat → List CompletionPacket → Prop where
  | done : CutsRead p slot h r data h.dwordSize []
  | more {start n : Nat} {cs : List CompletionPacket} (some_ : 0 < n)
    (inside : start + n ≤ h.dwordSize)
    (uncut : h.dwordSize - start ≤ p.completionBoundary / 4 → start + n = h.dwordSize)
    (whole : start + n < h.dwordSize →
      p.completionBoundary ∣ 4 * n ∧ 4 * n ≤ p.maxReadBytes)
    (rest : CutsRead p slot h r data (start + n) cs) :
    CutsRead p slot h r data start
      ({ slot := slot
         data := data
         byteSize := 4 * n
         startDword := start
         byteCount := ByteEnable.remaining h.dwordSize r.firstEnable r.lastEnable start
         isFirst := start == 0
         isLast := n == h.dwordSize - start } :: cs)

/-- The data of a read from a DWORD on is cut, and what it is cut into is queued in turn. -/
theorem queuesInTurn_queuePackets {h : Header} {r : RequestBody} (completable : h.Completable r)
    (slot : Nat) (data : List UInt32) (fuel start : Nat) (e : Engine)
    (enough : h.dwordSize - start ≤ fuel) (inside : start ≤ h.dwordSize) :
    ∃ cs, CutsRead e.params slot h r data start cs ∧
      QueuesInTurn e cs (queuePackets slot h r data fuel start
        (ByteEnable.remaining h.dwordSize r.firstEnable r.lastEnable start) e) := by
  induction fuel generalizing start e with
  | zero =>
    obtain rfl : start = h.dwordSize := by omega
    exact ⟨[], .done, .nil e⟩
  | succ fuel ih =>
    by_cases done : h.dwordSize - start = 0
    · obtain rfl : start = h.dwordSize := by omega
      rw [queuePackets, if_pos done]
      exact ⟨[], .done, .nil e⟩
    · obtain ⟨drawn, kept⟩ := e.onlyQueued_packetLength (h.dwordSize - start)
      obtain ⟨some_, most⟩ := e.packetLength_range (Nat.pos_of_ne_zero done)
      have uncut := e.packetLength_of_short (h.dwordSize - start)
      have whole (cut : (e.packetLength (h.dwordSize - start)).1 < h.dwordSize - start) :=
        e.packetLength_of_lt cut
      obtain ⟨count, counted, -⟩ := completable.counted
      rw [queuePackets, if_neg done]
      simp only
      generalize e.packetLength (h.dwordSize - start) = choice
        at drawn kept some_ most uncut whole
      obtain ⟨n, e1⟩ := choice
      simp only at drawn kept some_ most uncut whole
      have aligned := completable.aligned
      have dwords : h.dwordSize = (h.byteSize.toNat + 3) / 4 := rfl
      have bytes : (if n == h.dwordSize - start then h.byteSize.toNat - 4 * start else 4 * n) =
          4 * n := by
        by_cases last : n = h.dwordSize - start
        · simp only [last, beq_self_eq_true, if_true]
          omega
        · simp only [beq_eq_false_iff_ne.2 last, Bool.false_eq_true, if_false]
      rw [bytes]
      generalize packet : CompletionPacket.mk slot data (4 * n) start
        (ByteEnable.remaining h.dwordSize r.firstEnable r.lastEnable start) (start == 0)
        (n == h.dwordSize - start) = c
      have params : (e1.queueCompletion c).params = e.params := by
        have only := drawn.trans (onlyQueued_queueCompletion e1 c)
        unfold OnlyQueued at only
        rw [only]
        rfl
      have draws : e1 = { e with random := e1.random } := by
        unfold OnlyQueued at drawn
        rwa [kept] at drawn
      obtain ⟨cs, cuts, inTurn⟩ : ∃ cs, CutsRead e.params slot h r data (start + n) cs ∧
          QueuesInTurn (e1.queueCompletion c) cs (queuePackets slot h r data fuel (start + n)
            (ByteEnable.remaining h.dwordSize r.firstEnable r.lastEnable start -
              (ByteEnable.byteCount? n (if start == 0 then r.firstEnable else 0xf)
                (if n == h.dwordSize - start then r.lastEnable else 0xf)).getD (4 * n))
            (e1.queueCompletion c)) := by
        by_cases more : start + n < h.dwordSize
        · rw [ByteEnable.remaining_add counted some_ more, ← params]
          exact ih (start + n) (e1.queueCompletion c) (by omega) (by omega)
        · rw [queuePackets_of_done slot r data fuel _ _ (by omega)]
          obtain ends : start + n = h.dwordSize := by omega
          rw [ends]
          exact ⟨[], .done, .nil _⟩
      refine ⟨c :: cs, ?_, .cons e1 c draws inTurn⟩
      rw [← packet]
      exact .more some_ (by omega) (fun short => by have all := uncut short; omega)
        (fun more => whole (by omega)) cuts

theorem CutsRead.cutFrom {p : Parameters} {slot start : Nat} {h : Header} {r : RequestBody}
    {data : List UInt32} {cs : List CompletionPacket} (cuts : CutsRead p slot h r data start cs)
    (whole : h.dwordSize ≤ p.completionBoundary / 4 → start = 0 ∨ h.dwordSize ≤ start) :
    ∀ c ∈ cs, c.slot = slot ∧ c.CutFrom p h r := by
  induction cuts with
  | done => exact List.forall_mem_nil _
  | @more start n cs some_ inside uncut _ _ ih =>
    rw [List.forall_mem_cons]
    refine ⟨⟨rfl, ?_⟩, ih fun short => ?_⟩
    · have size : (4 * n + 3) / 4 = n := by omega
      refine ⟨?_, ?_, ?_, rfl, fun short => ?_⟩
      · change 0 < (4 * n + 3) / 4
        rwa [size]
      · change start + (4 * n + 3) / 4 ≤ h.dwordSize
        rwa [size]
      · change 4 * n = 4 * ((4 * n + 3) / 4)
        rw [size]
      · change start = 0 ∧ (4 * n + 3) / 4 = h.dwordSize
        have first := whole short
        have all := uncut (by omega)
        omega
    · have first := whole short
      have all := uncut (by omega)
      exact .inr (by omega)

theorem queues_queuePackets {h : Header} {r : RequestBody} (completable : h.Completable r)
    (slot : Nat) (data : List UInt32) (e : Engine) :
    Queues (fun c => c.slot = slot ∧ c.CutFrom e.params h r) e
      (queuePackets slot h r data h.dwordSize 0
        (ByteEnable.remaining h.dwordSize r.firstEnable r.lastEnable 0) e) := by
  obtain ⟨cs, cuts, inTurn⟩ := queuesInTurn_queuePackets completable slot data h.dwordSize 0 e
    (Nat.le_refl _) (Nat.zero_le _)
  exact inTurn.queues (cuts.cutFrom fun _ => .inl rfl)

theorem encodable_queuePackets {h : Header} {r : RequestBody} (completable : h.Completable r)
    (slot : Nat) (data : List UInt32) (e : Engine) :
    ∀ c ∈ (queuePackets slot h r data h.dwordSize 0
        (ByteEnable.remaining h.dwordSize r.firstEnable r.lastEnable 0) e).completions.items,
      c ∈ e.completions.items ∨ c.Encodable := by
  intro c member
  have queues := queues_queuePackets completable slot data e
  exact (queues.mem member).imp_right fun cut => cut.2.encodable completable

end Engine

end TlpBridge

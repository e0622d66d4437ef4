import TlpBridge.Proofs.FromDevice.DmaPackets
import TlpBridge.Proofs.FromDevice.ServedKinds

/-!
# Operands of atomic requests

An atomic request carries its operands behind its header, in one beat. The engine hands on what the
beat has of them, with zeros in place of what it has not: nothing checks that a beat is wide enough
for the operands that a request of its length announces.
-/
namespace TlpBridge

/-- Operand `i` of those that a payload carries, each of `size` bytes, little endian. Bytes that the
payload does not have count as zero. -/
def operandAt (payload : List UInt8) (size i : Nat) : Nat :=
  ofLittleEndian ((payload.drop (size * i)).take size)

theorem getD_drop (ws : List UInt32) (n i : Nat) :
    (ws.drop n).getD i 0 = ws.getD (n + i) 0 := by
  rw [List.getD_eq_getElem?_getD, List.getElem?_drop, ← List.getD_eq_getElem?_getD]

theorem operandAt_four (ws : List UInt32) (i : Nat) :
    operandAt (dwordsBytes ws) 4 i = (ws.getD i 0).toNat := by
  rw [operandAt, dwordsBytes_drop, dwordsBytes_take _ 1, ← Nat.add_zero i, ← getD_drop]
  cases ws.drop i with
  | nil => rfl
  | cons v rest => exact ofLittleEndian_dwordBytes v

theorem operandAt_eight (ws : List UInt32) (i : Nat) : operandAt (dwordsBytes ws) 8 i =
    (ws.getD (2 * i + 1) 0).toNat * 2 ^ 32 + (ws.getD (2 * i) 0).toNat := by
  have start : 8 * i = 4 * (2 * i) := by omega
  rw [operandAt, start, dwordsBytes_drop, dwordsBytes_take _ 2, ← getD_drop,
    ← Nat.add_zero (2 * i), ← getD_drop, Nat.add_zero]
  have none : dwordsBytes [] = [] := rfl
  rcases ws.drop (2 * i) with _ | ⟨v, _ | ⟨w, rest⟩⟩
  · rfl
  · simp only [List.take_succ_cons, List.take_nil, List.getD_cons_succ, List.getD_cons_zero,
      List.getD_nil, dwordsBytes_cons, none, List.append_nil, ofLittleEndian_dwordBytes]
    simp
  · have four : (dwordBytes v).length = 4 := length_littleEndian ..
    simp only [List.take_succ_cons, List.take_zero, List.getD_cons_succ, List.getD_cons_zero,
      dwordsBytes_cons, none, List.append_nil, ofLittleEndian_append, ofLittleEndian_dwordBytes,
      four]
    omega

namespace Flit

theorem dwordAt_of_le {f : Flit} (whole : f.data.width % 32 = 0) {i : Nat}
    (beyond : f.dwordWidth ≤ i) (fits : 32 * (i + 1) ≤ f.data.positions) : f.dwordAt i = 0 := by
  change f.data.width / 32 ≤ i at beyond
  refine UInt32.toBitVec_inj.1 (BitVec.eq_of_getLsbD_eq fun j inside => ?_)
  change (f.data.dwordAt i).toBitVec.getLsbD j = _
  rw [f.data.getLsbD_dwordAt fits, Lane.testBit_of_le _ (by omega), Bool.and_false]
  simp

theorem getD_payloadFrom {f : Flit} (whole : f.data.width % 32 = 0) (start i : Nat)
    (fits : 32 * (start + i + 1) ≤ 2 ^ 64) :
    (f.payloadFrom start).getD i 0 = f.dwordAt (start + i) := by
  rw [payloadFrom, dwordsAt, List.getD_eq_getElem?_getD, List.getElem?_map]
  by_cases inside : i < f.dwordWidth - start
  · simp [inside]
  · rw [dwordAt_of_le whole (by omega) (fits.trans f.data.le_positions)]
    simp [inside]

end Flit

/-- The operation of an atomic request of a kind whose operands are given. -/
def AtomicOperation.HasOperands (op : AtomicOperation) (kind : PacketKind) (operand : Nat → Nat) :
    Prop :=
  match kind, op with
  | .fetchAddAtomic, .fetchAdd addend => addend.toNat = operand 0
  | .swapAtomic, .swap value => value.toNat = operand 0
  | .casAtomic, .cas expected replacement =>
    expected.toNat = operand 0 ∧ replacement.toNat = operand 1
  | _, _ => False

theorem AtomicOperation.HasOperands.kind_cases {op : AtomicOperation} {kind : PacketKind}
    {operand : Nat → Nat} (has : op.HasOperands kind operand) :
    kind = .fetchAddAtomic ∨ kind = .swapAtomic ∨ kind = .casAtomic := by
  cases kind with
  | fetchAddAtomic => exact .inl rfl
  | swapAtomic => exact .inr (.inl rfl)
  | casAtomic => exact .inr (.inr rfl)
  | _ => cases op <;> exact has.elim

namespace Header

variable {h : Header} {r : RequestBody} {flit : Flit}

theorem completedBytes_of_atomic (legal : Parameters.atomicFault? h r = none) :
    (h.completedBytes = 4 ∨ h.completedBytes = 8) ∧
      h.byteSize.toNat = if h.fmtType.isCas then 2 * h.completedBytes else h.completedBytes := by
  obtain ⟨lengths, -⟩ := Parameters.atomic_of_legal legal
  unfold completedBytes
  by_cases cas : h.fmtType.isCas
  · rw [if_pos cas] at lengths ⊢
    rw [if_pos cas]
    rcases List.mem_pair.1 lengths with four | eight
    · rw [four]
      decide
    · rw [eight]
      decide
  · rw [if_neg cas] at lengths ⊢
    rw [if_neg cas]
    refine ⟨?_, rfl⟩
    rcases List.mem_pair.1 lengths with four | eight
    · rw [four]
      decide
    · rw [eight]
      decide

/-- The operands are what the beat has behind the header. -/
theorem atomicOperation?_hasOperands (whole : flit.data.width % 32 = 0)
    (atomic : h.fmtType.isAtomic) (legal : Parameters.atomicFault? h r = none) {kind : PacketKind}
    (known : h.fmtType.kind? = some kind) : ∃ op, h.atomicOperation? flit = some op ∧
      op.HasOperands kind
        (operandAt (dwordsBytes (flit.payloadFrom HeaderWords.count)) h.completedBytes) := by
  have operand (i : Nat) (one : i < 2) :
      (if h.completedBytes = 4 then UInt64.ofNat (flit.dwordAt (HeaderWords.count + i)).toNat
        else UInt64.ofNat ((flit.dwordAt (HeaderWords.count + (2 * i + 1))).toNat * 2 ^ 32 +
          (flit.dwordAt (HeaderWords.count + 2 * i)).toNat)).toNat =
        operandAt (dwordsBytes (flit.payloadFrom HeaderWords.count)) h.completedBytes i := by
    have small (j : Nat) := (flit.dwordAt j).toNat_lt
    have count : HeaderWords.count = 8 := rfl
    rcases (completedBytes_of_atomic legal).1 with four | eight
    · rw [four, operandAt_four, Flit.getD_payloadFrom whole _ _ (by omega), if_pos rfl,
        UInt64.toNat_ofNat']
      have := small (HeaderWords.count + i)
      omega
    · rw [eight, operandAt_eight, Flit.getD_payloadFrom whole _ _ (by omega),
        Flit.getD_payloadFrom whole _ _ (by omega), if_neg (by decide), UInt64.toNat_ofNat']
      have := small (HeaderWords.count + (2 * i + 1))
      have := small (HeaderWords.count + 2 * i)
      omega
  have kinds := FmtType.kind?_of_isAtomic _ atomic (Option.isSome_of_mem known)
  simp only [atomicOperation?, atomic, not_true_eq_false, if_false]
  by_cases cas : h.fmtType.isCas
  · rw [if_pos cas] at kinds ⊢
    cases known.symm.trans kinds
    exact ⟨_, rfl, operand 0 (by decide), operand 1 (by decide)⟩
  · rw [if_neg cas] at kinds ⊢
    rcases kinds with swap | fetchAdd
    · cases known.symm.trans swap
      rw [if_pos swap]
      exact ⟨_, rfl, operand 0 (by decide)⟩
    · cases known.symm.trans fetchAdd
      rw [if_neg (by rw [fetchAdd]; decide)]
      exact ⟨_, rfl, operand 0 (by decide)⟩

theorem Classified.body_of_isAtomic (classified : h.Classified) (atomic : h.fmtType.isAtomic) :
    ∃ r, h.body = .request r := by
  have apart : ∀ ft : FmtType, ft.isAtomic →
      ft.isMemoryRequest ∧ ¬ ft.isCompletion ∧ ¬ ft.isInterrupt :=
    FmtType.forall_of_codes (by decide +kernel)
  obtain ⟨request, noCompletion, noInterrupt⟩ := apart h.fmtType atomic
  cases body : h.body with
  | interrupt v => exact absurd (classified.interrupt v body) noInterrupt
  | completion c => exact absurd (classified.completion c body) noCompletion
  | other => exact absurd request (classified.other body).1
  | request r => exact ⟨r, rfl⟩

end Header

namespace Engine

/-- A beat with an atomic request, as wide as the beats of the stream are, is taken. -/
structure TakesAtomic (e : Engine) (cycle : Nat) (flit : Flit) (h : Header) : Prop where
  between : e.fromDevice = .start
  width : flit.data.width = e.params.dataWidth
  header : flit.header = .ok h
  atomic : h.fmtType.isAtomic
  accepted : (e.accept cycle flit).answer = .ok ()

/-- What a taken atomic request asks of host memory: its operation, on the operands that the beat
has behind the header. -/
structure Forwards (e e' : Engine) (flit : Flit) (h : Header) (kind : PacketKind)
    (q : ReadRequest) (op : AtomicOperation) : Prop where
  known : h.fmtType.kind? = some kind
  posted : e'.link.requests = e.link.requests ++ [.read q]
  asked : ∃ r, h.body = .request r ∧ q.addr = r.addr ∧ q.addressType = r.attributes.addressType
  size : q.dataBytes = h.completedBytes
  atomic : q.atomic = some op
  operands : op.HasOperands kind
    (operandAt (dwordsBytes (flit.payloadFrom HeaderWords.count)) h.completedBytes)

variable {e : Engine} {cycle : Nat} {flit : Flit} {h : Header}

theorem dispatch_atomic {r : RequestBody} (body : h.body = .request r)
    (atomic : h.fmtType.isAtomic) : e.dispatch h flit = e.acceptRead h r flit := by
  have noWrite : ¬ (h.fmtType.isMemoryWrite ∧ ¬ h.fmtType.isAtomic) := fun write => write.2 atomic
  simp only [dispatch, body, if_neg noWrite]

/-- An atomic request that is taken breaks no rule, and nothing but the rules decides. -/
theorem takesAtomic_iff {r : RequestBody} (between : e.fromDevice = .start)
    (width : flit.data.width = e.params.dataWidth) (header : flit.header = .ok h)
    (body : h.body = .request r) (atomic : h.fmtType.isAtomic) :
    e.TakesAtomic cycle flit h ↔ e.halted = false ∧
      (e.link.engineAttached ∧ e.link.serviceAttached) ∧
      ∃ slot slots, Admits e.params e.slots flit h r slot slots := by
  constructor
  · intro takes
    have accepted := takes.accepted
    have running : e.halted = false := by
      by_contra halted
      rw [accept, if_pos (eq_true_of_ne_false halted)] at accepted
      cases accepted
    rw [accept_start running between, acceptStart_eq header, dispatch_atomic body atomic]
      at accepted
    change ((e.idleAt cycle).acceptRead h r flit).answer = .ok () at accepted
    rcases (e.idleAt cycle).acceptRead_cases h r flit with refuses | ⟨slot, slots, admits⟩
    · exact absurd accepted refuses.ne_ok
    · refine ⟨running, ?_, slot, slots, admits⟩
      by_contra detached
      rw [acceptRead_of_admits admits,
        submitRead_of_detached (e.idleAt cycle) _ _ flit slot slots detached] at accepted
      cases accepted
  · rintro ⟨running, attached, slot, slots, admits⟩
    refine ⟨between, width, header, atomic, ?_⟩
    rw [accept_start running between, acceptStart_eq header, dispatch_atomic body atomic,
      acceptRead_of_admits (e := e.idleAt cycle) admits, submitRead,
      MemoryLink.send_of_attached (l := (e.idleAt cycle).link) attached]
    rfl

theorem TakesAtomic.exists_body (takes : e.TakesAtomic cycle flit h) :
    ∃ r, h.body = .request r :=
  (Header.classified_of_header takes.header).body_of_isAtomic takes.atomic

theorem TakesAtomic.legal (takes : e.TakesAtomic cycle flit h) {r : RequestBody}
    (body : h.body = .request r) : Parameters.atomicFault? h r = none ∧
      h.byteSize.toNat ≤ e.params.maxReadBytes := by
  obtain ⟨-, -, slot, slots, admits⟩ :=
    (takesAtomic_iff takes.between takes.width takes.header body takes.atomic).1 takes
  obtain ⟨bounded, -, rules⟩ := Parameters.extent_of_legal admits.extent
  obtain ⟨powerUser, -⟩ := Parameters.rules_of_legal admits.rules
  have mode : h.mode = .powerUser := if_neg (by simpa using powerUser)
  rw [mode] at bounded
  exact ⟨rules takes.atomic, bounded⟩

theorem TakesAtomic.addressType_ne (takes : e.TakesAtomic cycle flit h) {r : RequestBody}
    (body : h.body = .request r) : r.attributes.addressType ≠ .translationRequest := by
  obtain ⟨-, -, slot, slots, admits⟩ :=
    (takesAtomic_iff takes.between takes.width takes.header body takes.atomic).1 takes
  intro translates
  rw [← h.addressType_effectiveRequest r] at translates
  exact (Parameters.translation_of_legal admits.rules translates).2 takes.atomic

theorem TakesAtomic.forwards (takes : e.TakesAtomic cycle flit h) :
    ∃ kind q op, e.Forwards (e.accept cycle flit).state flit h kind q op := by
  obtain ⟨r, body⟩ := takes.exists_body
  obtain ⟨legal, -⟩ := takes.legal body
  obtain ⟨running, attached, slot, slots, admits⟩ :=
    (takesAtomic_iff takes.between takes.width takes.header body takes.atomic).1 takes
  have classified := Header.classified_of_header takes.header
  obtain ⟨kind, known⟩ := Option.isSome_iff_exists.1 classified.known
  have whole : flit.data.width % 32 = 0 := takes.width ▸ e.config.legal.dwords
  obtain ⟨op, atomic, operands⟩ :=
    Header.atomicOperation?_hasOperands whole takes.atomic legal known
  refine ⟨kind, Header.readRequest { h with body := .request (h.effectiveRequest r) }
    (h.effectiveRequest r) flit slot, op, known, ?_, ⟨r, body, ?_, ?_⟩, ?_, atomic, operands⟩
  · rw [accept_start running takes.between, acceptStart_eq takes.header,
      dispatch_atomic body takes.atomic, acceptRead_of_admits (e := e.idleAt cycle) admits,
      submitRead, MemoryLink.send_of_attached (l := (e.idleAt cycle).link) attached]
    rfl
  · exact h.addr_effectiveRequest r
  · exact h.addressType_effectiveRequest r
  · refine if_neg fun fence => ?_
    exact ((h.isFence_effectiveRequest r).1 fence).1 takes.atomic

end Engine

/-- Beats have room for the header and the operands of the longest atomic request that may be
read. -/
def ValidParameters.HoldsOperands (c : ValidParameters) : Prop :=
  ∀ n ∈ [4, 8, 16], n ≤ c.params.maxReadBytes → HeaderWords.count + n / 4 ≤ c.dwordWidth

namespace Engine

variable {e : Engine} {cycle : Nat} {flit : Flit} {h : Header}

theorem TakesAtomic.inside (takes : e.TakesAtomic cycle flit h) (holds : e.config.HoldsOperands) :
    HeaderWords.count + h.byteSize.toNat / 4 ≤ e.config.dwordWidth := by
  obtain ⟨r, body⟩ := takes.exists_body
  obtain ⟨legal, bounded⟩ := takes.legal body
  refine holds _ ?_ bounded
  obtain ⟨size, length⟩ := Header.completedBytes_of_atomic legal
  rw [length]
  rcases size with four | eight
  · rw [four]
    split <;> decide
  · rw [eight]
    split <;> decide

/-- An atomic request of a length, without anything else in it. -/
def bareAtomic (n : UInt32) : Header where
  fmtType := if n = 16 then .cas32 else .fetchAdd32
  byteSize := n
  body := .request {}

theorem bareAtomic_legal {n : UInt32} (length : n ∈ ([4, 8, 16] : List UInt32)) :
    (bareAtomic n).fmtType.kind?.isSome ∧ (bareAtomic n).fault? = none ∧
      (bareAtomic n).fmtType.isAtomic ∧ Parameters.atomicFault? (bareAtomic n) {} = none := by
  simp only [List.mem_cons, List.not_mem_nil, or_false] at length
  rcases length with rfl | rfl | rfl
  · decide
  · decide
  · decide

theorem chooseSlot_ofCount {n : Nat} (positive : 0 < n) (mapped : Bool) :
    ∃ slot slots, chooseSlot (.ofCount n mapped) 0 = .ok (slot, slots) := by
  have idle (slot : Nat) : ¬ (SlotPool.ofCount n mapped).isBusy slot :=
    Bool.eq_false_iff.1 (SlotPool.isBusy_ofCount n mapped slot)
  cases mapped with
  | false => exact ⟨0, _, (if_neg Bool.false_ne_true).trans (if_neg (idle 0))⟩
  | true =>
    cases listed : List.range n with
    | nil => exact absurd (List.range_eq_nil.1 listed) (Nat.ne_of_gt positive)
    | cons slot rest =>
      have top : (SlotPool.ofCount n true).takeFree? =
          some (slot, { SlotPool.ofCount n true with free := rest }) := by
        simp only [SlotPool.takeFree?, SlotPool.ofCount, listed]
      refine ⟨slot, { SlotPool.ofCount n true with free := rest }, (if_pos rfl).trans ?_⟩
      simp only [top]
      exact if_neg (idle slot)

theorem admits_bareAtomic {p : Parameters} (legal : p.Legal) {pool : SlotPool} {n : UInt32}
    (length : n ∈ ([4, 8, 16] : List UInt32)) (bounded : n.toNat ≤ p.maxReadBytes) {flit : Flit}
    (last : flit.last) {slot : Nat} {slots : SlotPool}
    (chosen : chooseSlot pool 0 = .ok (slot, slots)) :
    Admits p pool flit (bareAtomic n) {} slot slots := by
  have tag : ¬ p.maxDmaReads ≤ 0 := Nat.not_le.2 (legal.limits .maxDmaReads).1
  obtain ⟨-, -, atomic, rules⟩ := bareAtomic_legal length
  refine ⟨?_, ?_, chosen⟩
  · have long : ¬ p.maxRead (bareAtomic n).mode < (bareAtomic n).byteSize.toNat :=
      Nat.not_lt.2 bounded
    have nonempty : (bareAtomic n).byteSize ≠ 0 := by
      rintro (rfl : n = 0)
      exact absurd length (by decide)
    rw [Parameters.readExtentFault?, if_neg (not_not.2 last), if_neg long, if_neg nonempty,
      if_pos atomic, rules]
  · have only : p.readFault? { bareAtomic n with
        body := .request ((bareAtomic n).effectiveRequest {}) }
        ((bareAtomic n).effectiveRequest {}) =
        if p.maxDmaReads ≤ 0 then some .dmaTagRange else none := by
      simp only [List.mem_cons, List.not_mem_nil, or_false] at length
      rcases length with rfl | rfl | rfl
      · rfl
      · rfl
      · rfl
    rw [only, if_neg tag]

theorem exists_takesAtomic (c : ValidParameters) {n : UInt32}
    (length : n ∈ ([4, 8, 16] : List UInt32)) (bounded : n.toNat ≤ c.params.maxReadBytes) :
    ∃ flit, ∀ options random,
      ((create c options).withDraws random).TakesAtomic 1 flit (bareAtomic n) := by
  obtain ⟨known, fault, atomic, -⟩ := bareAtomic_legal length
  obtain ⟨flit, last, header, width⟩ : ∃ flit : Flit, flit.last ∧
      flit.header = .ok (bareAtomic n) ∧ flit.data.width = c.params.dataWidth := by
    obtain ⟨f, -, shown, width⟩ := storeHeader_blankFlit (create c {}) known fault
    exact ⟨{ f with last := true }, rfl, (Flit.header_congr rfl rfl).trans shown, width⟩
  obtain ⟨slot, slots, chosen⟩ :=
    chooseSlot_ofCount (c.legal.limits .maxDmaReads).1 c.params.tagMapper
  refine ⟨flit, fun options random => ?_⟩
  exact (takesAtomic_iff (e := (create c options).withDraws random) rfl width header rfl atomic).2
    ⟨rfl, ⟨rfl, rfl⟩, slot, slots, admits_bareAtomic c.legal length bounded last chosen⟩

end Engine

namespace ValidParameters

/-- Every atomic request that an engine takes has all of its operands in its beat. -/
def ReadsOperandsWithin (c : ValidParameters) : Prop :=
  ∀ (e : Engine) (cycle : Nat) (flit : Flit) (h : Header), e.config = c →
    e.TakesAtomic cycle flit h → HeaderWords.count + h.byteSize.toNat / 4 ≤ flit.dwordWidth

/-- Operands can be cut off by the end of a beat exactly where beats are too narrow for them. Then
already a fresh engine takes such a request. What the beat does not have goes to host memory as
zeros. -/
theorem readsOperandsWithin_iff (c : ValidParameters) :
    (c.ReadsOperandsWithin ↔ c.HoldsOperands) ∧
    (¬ c.HoldsOperands → ∃ flit h, c.dwordWidth < HeaderWords.count + h.byteSize.toNat / 4 ∧
      ∀ options random, ((Engine.create c options).withDraws random).TakesAtomic 1 flit h) ∧
    ∀ (e : Engine) (cycle : Nat) (flit : Flit) (h : Header), e.config = c →
      e.TakesAtomic cycle flit h →
        ∃ kind q op, e.Forwards (e.accept cycle flit).state flit h kind q op := by
  have cut : ¬ c.HoldsOperands → ∃ flit h, c.dwordWidth < HeaderWords.count + h.byteSize.toNat / 4 ∧
      ∀ options random, ((Engine.create c options).withDraws random).TakesAtomic 1 flit h := by
    intro short
    simp only [HoldsOperands, not_forall, not_le] at short
    obtain ⟨n, length, bounded, short⟩ := short
    have small : (UInt32.ofNat n).toNat = n ∧ UInt32.ofNat n ∈ ([4, 8, 16] : List UInt32) := by
      simp only [List.mem_cons, List.not_mem_nil, or_false] at length
      rcases length with rfl | rfl | rfl <;> decide
    obtain ⟨flit, takes⟩ := Engine.exists_takesAtomic c small.2 (small.1.symm ▸ bounded)
    refine ⟨flit, Engine.bareAtomic (UInt32.ofNat n), ?_, takes⟩
    change _ < HeaderWords.count + (UInt32.ofNat n).toNat / 4
    rwa [small.1]
  have width {e : Engine} {cycle : Nat} {flit : Flit} {h : Header} (config : e.config = c)
      (takes : e.TakesAtomic cycle flit h) : flit.dwordWidth = c.dwordWidth := by
    subst config
    exact congrArg (· / 32) takes.width
  refine ⟨⟨fun within => ?_, fun holds e cycle flit h config takes => ?_⟩, cut,
    fun e cycle flit h _ takes => takes.forwards⟩
  · by_contra short
    obtain ⟨flit, h, outside, takes⟩ := cut short
    have taken := takes {} .fullBandwidth
    have inside := within _ 1 flit h rfl taken
    rw [width rfl taken] at inside
    omega
  · rw [width config takes, ← config]
    exact takes.inside (config.symm ▸ holds)

/-- Beats of 256 bits are too narrow for any operand. -/
theorem not_readsOperandsWithin_256 :
    let c : ValidParameters := ⟨{ dataWidth := 256 }, by decide⟩
    ¬ c.ReadsOperandsWithin := by
  intro c within
  have holds := (readsOperandsWithin_iff c).1.1 within
  exact absurd (holds 4 (by decide) (by decide)) (by decide)

end ValidParameters

end TlpBridge

import TlpBridge.Proofs.FromDevice.DeviceBeats
import TlpBridge.Proofs.Tlp.HeaderEncoding
import TlpBridge.Proofs.Engine.OrderlyRuns

/-!
# The kinds of packet that have an effect

A header is decoded by the kind that its fmt/type byte names, and the packet is served by the bits
of that byte. Where both agree a packet has the effect of its kind or none at all. They disagree
on one byte: the first local prefix has the type bits of a memory request.
-/
namespace TlpBridge

namespace PacketKind

/-- The kinds of packet that the bridge serves. -/
def served : PacketKind → Bool
  | .interrupt | .completionData | .memoryWrite | .memoryRead
  | .fetchAddAtomic | .swapAtomic | .casAtomic => true
  | _ => false

/-- The atomic operation that belongs to a read request of a kind. -/
def Asks : PacketKind → Option AtomicOperation → Prop
  | .memoryRead, op => op = none
  | .fetchAddAtomic, op => ∃ addend, op = some (.fetchAdd addend)
  | .swapAtomic, op => ∃ value, op = some (.swap value)
  | .casAtomic, op => ∃ compare swap, op = some (.cas compare swap)
  | _, _ => False

theorem served_of_asks {kind : PacketKind} {op : Option AtomicOperation} (asks : kind.Asks op) :
    kind.served := by
  cases kind <;> first | rfl | cases asks

end PacketKind

namespace FmtType

/-- The first of the local prefixes. -/
def localPrefix : FmtType := ⟨0x80⟩

theorem forall_of_codes {P : FmtType → Prop} (codes : ∀ n < 256, P ⟨UInt8.ofNat n⟩)
    (ft : FmtType) : P ft := by
  have code := codes ft.code.toNat ft.code.toNat_lt
  rwa [UInt8.ofNat_toNat] at code

theorem kind?_of_isInterrupt {ft : FmtType} (h : ft.isInterrupt) : ft.kind? = some .interrupt := by
  have only : ft = interrupt := by simpa [isInterrupt] using h
  rw [only]
  rfl

theorem kind?_of_isCompletion : ∀ ft : FmtType, ft.isCompletion → ft.kind?.isSome →
    if ft.carriesData then ft.kind? = some .completionData else ¬ ft.kind?.any (·.served) :=
  forall_of_codes (by decide +kernel)

theorem kind?_of_isMemoryWrite : ∀ ft : FmtType, ft.isMemoryWrite → ¬ ft.isAtomic →
    ft.kind?.isSome → ft.kind? = some .memoryWrite :=
  forall_of_codes (by decide +kernel)

theorem kind?_of_isMemoryRead : ∀ ft : FmtType, ft.isMemoryRead → ft ≠ localPrefix →
    ft.kind?.isSome → ft.kind? = some .memoryRead :=
  forall_of_codes (by decide +kernel)

theorem kind?_of_isAtomic : ∀ ft : FmtType, ft.isAtomic → ft.kind?.isSome →
    if ft.isCas then ft.kind? = some .casAtomic
    else ft.kind? = some .swapAtomic ∨ ft.kind? = some .fetchAddAtomic :=
  forall_of_codes (by decide +kernel)

theorem kind?_of_other : ∀ ft : FmtType, ¬ ft.isMemoryRequest → ¬ ft.isCompletion →
    ¬ ft.isInterrupt → ¬ ft.kind?.any (·.served) :=
  forall_of_codes (by decide +kernel)

theorem packetFormat_of_kind? {ft : FmtType} {kind : PacketKind} (named : ft.kind? = some kind) :
    ∃ format, ft.packetFormat = .ok format ∧ format.kind = kind := by
  simp only [packetFormat, named]
  exact ⟨_, rfl, rfl⟩

theorem isAtomic_or_isMemoryRead {ft : FmtType} (request : ft.isMemoryRequest)
    (notWrite : ¬ (ft.isMemoryWrite ∧ ¬ ft.isAtomic)) : ft.isAtomic ∨ ft.isMemoryRead := by
  by_cases atomic : ft.isAtomic
  · exact .inl atomic
  · have noData : ¬ ft.carriesData := fun data =>
      notWrite ⟨by rw [isMemoryWrite, request, data]; rfl, atomic⟩
    exact .inr (by rw [isMemoryRead, request, eq_false_of_ne_true noData]; rfl)

end FmtType

namespace Header

/-- The header is of a known kind, and its body is the one that the bits of its byte ask for. -/
structure Classified (h : Header) : Prop where
  known : h.fmtType.kind?.isSome
  interrupt : ∀ v, h.body = .interrupt v → h.fmtType.isInterrupt
  completion : ∀ c, h.body = .completion c → h.fmtType.isCompletion
  request : ∀ r, h.body = .request r → h.fmtType.isMemoryRequest
  other : h.body = .other →
    ¬ h.fmtType.isMemoryRequest ∧ ¬ h.fmtType.isCompletion ∧ ¬ h.fmtType.isInterrupt

theorem classified_of_header {flit : Flit} {h : Header} (header : flit.header = .ok h) :
    h.Classified := by
  obtain ⟨w, dataMover, known, d⟩ := flit.decodes_of_header header
  cases d with
  | powerUserRequest request => exact ⟨known, nofun, nofun, fun _ _ => request, nofun⟩
  | dataMoverRequest request => exact ⟨known, nofun, nofun, fun _ _ => request, nofun⟩
  | completion _ completion => exact ⟨known, nofun, fun _ _ => completion, nofun, nofun⟩
  | interrupt _ _ interrupt => exact ⟨known, fun _ _ => interrupt, nofun, nofun, nofun⟩
  | other _ notRequest notCompletion notInterrupt =>
    exact ⟨known, nofun, nofun, nofun, fun _ => ⟨Bool.eq_false_iff.1 notRequest,
      Bool.eq_false_iff.1 notCompletion, Bool.eq_false_iff.1 notInterrupt⟩⟩

theorem Classified.body_of_localPrefix {h : Header} (classified : h.Classified)
    (prefixed : h.fmtType = .localPrefix) : ∃ r, h.body = .request r := by
  obtain ⟨-, interrupt, completion, -, other⟩ := classified
  rw [prefixed] at interrupt completion other
  cases body : h.body with
  | interrupt v => exact absurd (interrupt v body) (by decide)
  | completion c => exact absurd (completion c body) (by decide)
  | other => exact absurd rfl (other body).1
  | request r => exact ⟨r, rfl⟩

theorem atomicOperation?_of_localPrefix {h : Header} (flit : Flit)
    (prefixed : h.fmtType = .localPrefix) : h.atomicOperation? flit = none := by
  rw [atomicOperation?, prefixed]
  rfl

/-- The operation behind the header of a read request is the one of its kind. -/
theorem asks_atomicOperation? {h : Header} (flit : Flit) {kind : PacketKind}
    (known : h.fmtType.kind? = some kind)
    (request : h.fmtType.isAtomic ∨ h.fmtType.isMemoryRead) (named : h.fmtType ≠ .localPrefix) :
    kind.Asks (h.atomicOperation? flit) := by
  have isSome := Option.isSome_of_mem known
  by_cases atomic : h.fmtType.isAtomic
  · have kinds := FmtType.kind?_of_isAtomic _ atomic isSome
    simp only [atomicOperation?, atomic, not_true_eq_false, if_false]
    by_cases cas : h.fmtType.isCas
    · rw [if_pos cas] at kinds ⊢
      cases known.symm.trans kinds
      exact ⟨_, _, rfl⟩
    · rw [if_neg cas] at kinds ⊢
      rcases kinds with swap | fetchAdd
      · cases known.symm.trans swap
        rw [if_pos swap]
        exact ⟨_, rfl⟩
      · cases known.symm.trans fetchAdd
        rw [if_neg (by rw [fetchAdd]; decide)]
        exact ⟨_, rfl⟩
  · have read := FmtType.kind?_of_isMemoryRead _ (request.resolve_left atomic) named isSome
    cases known.symm.trans read
    simp only [atomicOperation?, atomic]
    rfl

end Header

namespace Engine

/-- The one effect of the first beat of a packet, by the kind of the packet: the engine before it,
which stands between packets, the engine after it, and what is done besides. -/
inductive HasEffect (e : Engine) (flit : Flit) (h : Header) :
    PacketKind → Engine → List Effect → Prop where
  | interrupt {vector : UInt16} (body : h.body = .interrupt vector) :
    HasEffect e flit h .interrupt e (e.raise vector)
  | completionStart {p : OpenPacket} (more : ¬ flit.last)
    (extended : OpenPacket.extend ⟨h, []⟩ flit HeaderWords.count (h.byteSize.toNat / 4)
      .mmioCompletion = .ok p) :
    HasEffect e flit h .completionData { e with fromDevice := .completion p } []
  | completionEnd {c : CompletionBody} {p : OpenPacket} {read : MmioRead} (last : flit.last)
    (body : h.body = .completion c)
    (extended : OpenPacket.extend ⟨h, []⟩ flit HeaderWords.count (h.byteSize.toNat / 4)
      .mmioCompletion = .ok p)
    (waits : e.mmioReads[h.tag.toNat]? = some (some read)) :
    HasEffect e flit h .completionData
      { e with mmioReads := e.mmioReads.setIfInBounds h.tag.toNat none }
      (.report (.mmioReadCompleted h.tag.toNat (e.cycle - read.startCycle)) ::
        e.deliver (mmioReadResponse read.tid h c p.payload))
  | writeStart {p : OpenPacket} (more : ¬ flit.last)
    (extended : OpenPacket.extend ⟨h, []⟩ flit HeaderWords.count h.dwordSize .dmaWrite = .ok p) :
    HasEffect e flit h .memoryWrite { e with fromDevice := .write p } []
  | writeEnd {r : RequestBody} {p : OpenPacket} (last : flit.last) (body : h.body = .request r)
    (extended : OpenPacket.extend ⟨h, []⟩ flit HeaderWords.count h.dwordSize .dmaWrite = .ok p) :
    HasEffect e flit h .memoryWrite
      { e with
        link := { e.link with
          requests := e.link.requests ++ [.write (h.writeRequest r p.payload)] }
        pendingWrites := e.pendingWrites + 1 } []
  | read {kind : PacketKind} {r : RequestBody} {q : ReadRequest} {slot : Nat} {slots : SlotPool}
    (last : flit.last) (body : h.body = .request r)
    (asked : q = Header.readRequest { h with body := .request (h.effectiveRequest r) }
      (h.effectiveRequest r) flit slot)
    (asks : kind.Asks q.atomic) (chosen : chooseSlot e.slots h.tag.toNat = .ok (slot, slots)) :
    HasEffect e flit h kind
      { e with
        slots := slots.occupy slot e.cycle
          { h with
            body := .request (h.effectiveRequest r)
            byteSize := UInt32.ofNat h.completedBytes }
        link := { e.link with requests := e.link.requests ++ [.read q] }
        pendingReads := e.pendingReads + 1 } []

/-- A call that halts the engine for a broken rule and does nothing else but report it. -/
structure Refuses (e : Engine) (s : EngineStep Unit) : Prop where
  answer : ∃ v header, s.answer = .error (.protocol e.cycle v header)
  state : s.state = { e with halted := true }
  reports : ∀ effect ∈ s.events, ∃ event, effect = .report event

/-- The end of a first beat of a packet of a kind that is served. Without host memory its requests
fail without a broken rule. -/
inductive Serves (e : Engine) (flit : Flit) (h : Header) (kind : PacketKind)
    (s : EngineStep Unit) : Prop where
  | refused (refuses : e.Refuses s)
  | disconnected (answer : s.answer = .error .disconnected)
  | done (answer : s.answer = .ok ()) (effect : e.HasEffect flit h kind s.state s.events)

variable {e : Engine} {flit : Flit} {h : Header}

theorem refuses_haltOn (e : Engine) (header : Option Header) (flit : Flit) (v : Violation) :
    e.Refuses (e.haltOn header flit v) where
  answer := ⟨v, header, rfl⟩
  state := rfl
  reports effect member := by
    rcases List.mem_pair.1 member with rfl | rfl
    · exact ⟨_, rfl⟩
    · exact ⟨_, rfl⟩

theorem Refuses.ne_ok {s : EngineStep Unit} (refuses : e.Refuses s) : s.answer ≠ .ok () := by
  obtain ⟨v, header, stopped⟩ := refuses.answer
  rw [stopped]
  exact nofun

theorem Refuses.after {s : EngineStep Unit} (refuses : e.Refuses s) (event : EngineEvent) :
    e.Refuses (s.after [.report event]) where
  answer := refuses.answer
  state := refuses.state
  reports effect member := by
    rcases List.mem_cons.1 member with rfl | member
    · exact ⟨event, rfl⟩
    · exact refuses.reports effect member

theorem waits_of_completionFault? {c : CompletionBody} (rules : e.completionFault? h c = none) :
    ∃ read, e.mmioReads[h.tag.toNat]? = some (some read) := by
  unfold completionFault? at rules
  split at rules
  · cases rules
  · split at rules
    · cases rules
    · next waiting =>
      cases slot : e.mmioReads[h.tag.toNat]? with
      | none => simp [slot] at waiting
      | some read? =>
        cases read? with
        | none => simp [slot] at waiting
        | some read => exact ⟨read, rfl⟩

theorem acceptInterrupt_serves {vector : UInt16} (body : h.body = .interrupt vector) :
    e.Serves flit h .interrupt (e.acceptInterrupt h vector flit) := by
  unfold acceptInterrupt
  split
  · exact .refused (refuses_haltOn ..)
  · split
    · exact .refused (refuses_haltOn ..)
    · exact .done rfl (.interrupt body)

theorem acceptCompletion_serves {c : CompletionBody} (body : h.body = .completion c)
    (data : h.fmtType.carriesData) :
    e.Serves flit h .completionData (e.acceptCompletion h c flit) := by
  unfold acceptCompletion
  rw [if_neg (not_not.2 data)]
  cases rules : e.completionFault? h c with
  | some v => exact .refused (refuses_haltOn ..)
  | none =>
    unfold acceptCompletionBeat
    cases extended : OpenPacket.extend ⟨h, []⟩ flit HeaderWords.count (h.byteSize.toNat / 4)
        .mmioCompletion with
    | error v =>
      exact .refused (refuses_haltOn ..)
    | ok p =>
      have same : p.header = h := OpenPacket.header_extend extended
      by_cases last : flit.last
      · obtain ⟨read, waits⟩ := waits_of_completionFault? rules
        have effect := HasEffect.completionEnd last body extended waits
        simp only [if_pos last]
        rw [completeMmioRead, same, waits, Header.completion?, body]
        exact .done rfl effect
      · simp only [if_neg last]
        exact .done rfl (.completionStart last extended)

theorem acceptWrite_serves {r : RequestBody} (body : h.body = .request r) :
    e.Serves flit h .memoryWrite (e.acceptWrite h r flit) := by
  unfold acceptWrite
  cases rules : e.params.writeFault? h r with
  | some v => exact .refused (refuses_haltOn ..)
  | none =>
    unfold acceptWriteBeat
    cases extended : OpenPacket.extend ⟨h, []⟩ flit HeaderWords.count h.dwordSize .dmaWrite with
    | error v =>
      exact .refused (refuses_haltOn ..)
    | ok p =>
      have same : p.header = h := OpenPacket.header_extend extended
      by_cases last : flit.last
      · have effect := HasEffect.writeEnd (e := e) last body extended
        simp only [if_pos last]
        rw [submitWrite, same, Header.request?, body]
        by_cases attached : e.link.engineAttached ∧ e.link.serviceAttached
        · rw [MemoryLink.send_of_attached attached]
          exact .done rfl effect
        · simp only [MemoryLink.send, if_neg attached]
          exact .disconnected rfl
      · simp only [if_neg last]
        exact .done rfl (.writeStart last extended)

/-- A read request that breaks no rule and finds a slot. -/
structure Admits (p : Parameters) (pool : SlotPool) (flit : Flit) (h : Header) (r : RequestBody)
    (slot : Nat) (slots : SlotPool) : Prop where
  extent : p.readExtentFault? flit.last h r = none
  rules : p.readFault? { h with body := .request (h.effectiveRequest r) } (h.effectiveRequest r) =
    none
  chosen : chooseSlot pool h.tag.toNat = .ok (slot, slots)

theorem acceptRead_of_admits {r : RequestBody} {slot : Nat} {slots : SlotPool}
    (admits : Admits e.params e.slots flit h r slot slots) : e.acceptRead h r flit =
      e.submitRead { h with body := .request (h.effectiveRequest r) } (h.effectiveRequest r) flit
        slot slots := by
  simp only [acceptRead, admits.extent, admits.rules, admits.chosen]

theorem acceptRead_cases (e : Engine) (h : Header) (r : RequestBody) (flit : Flit) :
    e.Refuses (e.acceptRead h r flit) ∨
      ∃ slot slots, Admits e.params e.slots flit h r slot slots := by
  cases extent : e.params.readExtentFault? flit.last h r with
  | some v =>
    simp only [acceptRead, extent]
    exact .inl (refuses_haltOn ..)
  | none =>
    cases rules : e.params.readFault? { h with body := .request (h.effectiveRequest r) }
        (h.effectiveRequest r) with
    | some v =>
      simp only [acceptRead, extent, rules]
      exact .inl (refuses_haltOn ..)
    | none =>
      cases chosen : chooseSlot e.slots h.tag.toNat with
      | error v =>
        simp only [acceptRead, extent, rules, chosen]
        exact .inl (refuses_haltOn ..)
      | ok choice => exact .inr ⟨choice.1, choice.2, extent, rules, chosen⟩

theorem submitRead_serves {r : RequestBody} {kind : PacketKind} {slot : Nat} {slots : SlotPool}
    (body : h.body = .request r) (admits : Admits e.params e.slots flit h r slot slots)
    (asks : kind.Asks (h.atomicOperation? flit))
    (attached : e.link.engineAttached ∧ e.link.serviceAttached) :
    ∃ state, e.submitRead { h with body := .request (h.effectiveRequest r) }
        (h.effectiveRequest r) flit slot slots = .ok state () ∧
      e.HasEffect flit h kind state [] := by
  have last : flit.last := by
    by_contra more
    have extent := admits.extent
    rw [Parameters.readExtentFault?, if_pos more] at extent
    cases extent
  refine ⟨_, ?_, .read last body rfl asks admits.chosen⟩
  simp only [submitRead]
  rw [MemoryLink.send_of_attached attached]
  rfl

theorem submitRead_of_detached (e : Engine) (h : Header) (r : RequestBody) (flit : Flit)
    (slot : Nat) (slots : SlotPool)
    (detached : ¬ (e.link.engineAttached ∧ e.link.serviceAttached)) :
    (e.submitRead h r flit slot slots).answer = .error .disconnected := by
  simp only [submitRead, MemoryLink.send, if_neg detached]

theorem acceptRead_serves {r : RequestBody} {kind : PacketKind} (body : h.body = .request r)
    (asks : kind.Asks (h.atomicOperation? flit)) :
    e.Serves flit h kind (e.acceptRead h r flit) := by
  rcases e.acceptRead_cases h r flit with refuses | ⟨slot, slots, admits⟩
  · exact .refused refuses
  · rw [acceptRead_of_admits admits]
    by_cases attached : e.link.engineAttached ∧ e.link.serviceAttached
    · obtain ⟨state, call, effect⟩ := submitRead_serves body admits asks attached
      rw [call]
      exact .done rfl effect
    · exact .disconnected (e.submitRead_of_detached _ _ flit slot slots attached)

/-- A packet of a kind that is served. -/
theorem dispatch_serves (classified : h.Classified) (named : h.fmtType ≠ .localPrefix)
    {kind : PacketKind} (known : h.fmtType.kind? = some kind) (served : kind.served) :
    e.Serves flit h kind (e.dispatch h flit) := by
  unfold dispatch
  cases body : h.body with
  | interrupt vector =>
    have interrupt := FmtType.kind?_of_isInterrupt (classified.interrupt _ body)
    cases known.symm.trans interrupt
    exact acceptInterrupt_serves body
  | completion c =>
    have kinds := FmtType.kind?_of_isCompletion _ (classified.completion _ body) classified.known
    by_cases data : h.fmtType.carriesData
    · rw [if_pos data] at kinds
      cases known.symm.trans kinds
      exact acceptCompletion_serves body data
    · rw [if_neg data, known] at kinds
      exact absurd served kinds
  | other =>
    obtain ⟨noRequest, noCompletion, noInterrupt⟩ := classified.other body
    have kinds := FmtType.kind?_of_other _ noRequest noCompletion noInterrupt
    rw [known] at kinds
    exact absurd served kinds
  | request r =>
    have request := classified.request _ body
    by_cases write : h.fmtType.isMemoryWrite ∧ ¬ h.fmtType.isAtomic
    · have kinds := FmtType.kind?_of_isMemoryWrite _ write.1 write.2 classified.known
      cases known.symm.trans kinds
      simp only [if_pos write]
      exact acceptWrite_serves body
    · simp only [if_neg write]
      exact acceptRead_serves body (Header.asks_atomicOperation? flit known
        (FmtType.isAtomic_or_isMemoryRead request write) named)

/-- A packet of any other kind. -/
theorem dispatch_refuses (classified : h.Classified) (named : h.fmtType ≠ .localPrefix)
    (unserved : ¬ h.fmtType.kind?.any (·.served)) : e.Refuses (e.dispatch h flit) := by
  have kind_ {kind : PacketKind} (known : h.fmtType.kind? = some kind) : ¬ kind.served := by
    rwa [known] at unserved
  unfold dispatch
  cases body : h.body with
  | interrupt vector =>
    exact absurd rfl (kind_ (FmtType.kind?_of_isInterrupt (classified.interrupt _ body)))
  | completion c =>
    have kinds := FmtType.kind?_of_isCompletion _ (classified.completion _ body) classified.known
    simp only [acceptCompletion]
    by_cases data : h.fmtType.carriesData
    · rw [if_pos data] at kinds
      exact absurd rfl (kind_ kinds)
    · rw [if_pos data]
      exact refuses_haltOn ..
  | other => exact refuses_haltOn ..
  | request r =>
    have request := classified.request _ body
    by_cases write : h.fmtType.isMemoryWrite ∧ ¬ h.fmtType.isAtomic
    · exact absurd rfl
        (kind_ (FmtType.kind?_of_isMemoryWrite _ write.1 write.2 classified.known))
    · obtain ⟨kind, known⟩ := Option.isSome_iff_exists.1 classified.known
      have asks := Header.asks_atomicOperation? flit known
        (FmtType.isAtomic_or_isMemoryRead request write) named
      exact absurd (PacketKind.served_of_asks asks) (kind_ known)

/-- A beat in which a packet starts is taken with the one effect of a kind. -/
structure TakesAs (e : Engine) (cycle : Nat) (flit : Flit) (h : Header) (kind : PacketKind) :
    Prop where
  answer : (e.accept cycle flit).answer = .ok ()
  effect : ∃ effects,
    (e.accept cycle flit).events = .report (.accepted cycle (some h) flit) :: effects ∧
      (e.idleAt cycle).HasEffect flit h kind (e.accept cycle flit).state effects

/-- Only the packets of the kinds that are served have an effect. -/
structure ServesKinds (e : Engine) (cycle : Nat) (flit : Flit) : Prop where
  taken : (e.accept cycle flit).answer = .ok () → ∃ h format, flit.header = .ok h ∧
    h.fmtType.packetFormat = .ok format ∧ format.kind.served ∧ e.TakesAs cycle flit h format.kind
  /-- A packet of another kind, or one without a header that can be decoded, halts the engine. -/
  others : (∀ h format, flit.header = .ok h → h.fmtType.packetFormat = .ok format →
    ¬ format.kind.served) → (e.idleAt cycle).Refuses (e.accept cycle flit)

/-- A beat that is a local prefix by its byte, and for the rest a read without fault. -/
def PassesPrefix (e : Engine) (flit : Flit) : Prop :=
  ∃ h r slot slots, flit.header = .ok h ∧ h.fmtType = .localPrefix ∧ h.body = .request r ∧
    Admits e.params e.slots flit h r slot slots

theorem ServesKinds.of_refuses {cycle : Nat}
    (refuses : (e.idleAt cycle).Refuses (e.accept cycle flit)) : e.ServesKinds cycle flit :=
  ⟨fun answer => absurd answer refuses.ne_ok, fun _ => refuses⟩

theorem accept_start (running : e.halted = false) (between : e.fromDevice = .start)
    (cycle : Nat) (flit : Flit) : e.accept cycle flit = (e.idleAt cycle).acceptStart flit := by
  rw [accept, if_neg (by rw [running]; exact Bool.false_ne_true), between]
  rfl

theorem acceptStart_eq (header : flit.header = .ok h) : e.acceptStart flit =
    (e.dispatch h flit).after [.report (.accepted e.cycle (some h) flit)] := by
  rw [acceptStart, header]

theorem acceptStart_refuses_undecoded {cause : EncodingError}
    (undecoded : flit.header = .error cause) : e.Refuses (e.acceptStart flit) := by
  rw [acceptStart, undecoded]
  exact refuses_haltOn ..

theorem dispatch_localPrefix {r : RequestBody} (body : h.body = .request r)
    (prefixed : h.fmtType = .localPrefix) : e.dispatch h flit = e.acceptRead h r flit := by
  have noWrite : ¬ (h.fmtType.isMemoryWrite ∧ ¬ h.fmtType.isAtomic) := by
    rw [prefixed]
    decide
  simp only [dispatch, body, if_neg noWrite]

theorem TakesAs.of_done {cycle : Nat} {kind : PacketKind} {s : EngineStep Unit}
    (call : e.accept cycle flit = s.after [.report (.accepted cycle (some h) flit)])
    (answer : s.answer = .ok ())
    (effect : (e.idleAt cycle).HasEffect flit h kind s.state s.events) :
    e.TakesAs cycle flit h kind where
  answer := by rw [call]; exact answer
  effect := ⟨s.events, by rw [call]; rfl, by rw [call]; exact effect⟩

section Start

variable (running : e.halted = false) (between : e.fromDevice = .start) {cycle : Nat}

include running between

/-- No beat but a passing prefix has another effect than the one of its kind. -/
theorem servesKinds_of_not_passesPrefix (passes : ¬ e.PassesPrefix flit) :
    e.ServesKinds cycle flit := by
  have call := accept_start running between cycle flit
  cases header : flit.header with
  | error cause =>
    have refuses := acceptStart_refuses_undecoded (e := e.idleAt cycle) header
    rw [← call] at refuses
    exact .of_refuses refuses
  | ok h =>
    have classified := Header.classified_of_header header
    have call := call.trans (acceptStart_eq header)
    by_cases prefixed : h.fmtType = .localPrefix
    · obtain ⟨r, body⟩ := classified.body_of_localPrefix prefixed
      rcases (e.idleAt cycle).acceptRead_cases h r flit with
        refuses | ⟨slot, slots, admits⟩
      · rw [dispatch_localPrefix body prefixed] at call
        have refuses := refuses.after (.accepted (e.idleAt cycle).cycle (some h) flit)
        rw [← call] at refuses
        exact .of_refuses refuses
      · exact absurd ⟨h, r, slot, slots, header, prefixed, body, admits⟩ passes
    · obtain ⟨kind, known⟩ := Option.isSome_iff_exists.1 classified.known
      obtain ⟨format, named, rfl⟩ := FmtType.packetFormat_of_kind? known
      by_cases served : format.kind.served
      · refine ⟨fun answer => ?_, fun others => absurd served (others h format header named)⟩
        have serves : (e.idleAt cycle).Serves flit h format.kind
            ((e.idleAt cycle).dispatch h flit) := dispatch_serves classified prefixed known served
        cases serves with
        | refused refuses =>
          rw [call] at answer
          exact absurd answer refuses.ne_ok
        | disconnected gone =>
          rw [call] at answer
          cases gone.symm.trans answer
        | done done effect => exact ⟨h, format, header, named, served, .of_done call done effect⟩
      · have refuses : (e.idleAt cycle).Refuses ((e.idleAt cycle).dispatch h flit) :=
          dispatch_refuses classified prefixed (by rwa [known])
        have refuses := refuses.after (.accepted (e.idleAt cycle).cycle (some h) flit)
        rw [← call] at refuses
        exact .of_refuses refuses

theorem not_servesKinds_of_passesPrefix (passes : e.PassesPrefix flit) :
    ¬ e.ServesKinds cycle flit := by
  intro serves
  obtain ⟨h, r, slot, slots, header, prefixed, body, admits⟩ := passes
  have call := (accept_start running between cycle flit).trans (acceptStart_eq header)
  obtain ⟨v, refused, stopped⟩ := (serves.others fun h' format header' named => by
    cases header.symm.trans header'
    rw [prefixed] at named
    cases named
    exact Bool.false_ne_true).answer
  rw [call, dispatch_localPrefix body prefixed,
    acceptRead_of_admits (e := e.idleAt cycle) admits] at stopped
  by_cases attached : e.link.engineAttached ∧ e.link.serviceAttached
  · have asks : PacketKind.memoryRead.Asks (h.atomicOperation? flit) :=
      Header.atomicOperation?_of_localPrefix flit prefixed
    obtain ⟨state, sent, -⟩ :=
      submitRead_serves (e := e.idleAt cycle) body admits asks attached
    rw [sent] at stopped
    cases stopped
  · have gone := (e.idleAt cycle).submitRead_of_detached
      { h with body := .request (h.effectiveRequest r) } (h.effectiveRequest r) flit slot slots
      attached
    cases gone.symm.trans stopped

theorem takesAs_of_passesPrefix (passes : e.PassesPrefix flit)
    (attached : e.link.engineAttached ∧ e.link.serviceAttached) :
    ∃ h, flit.header = .ok h ∧ h.fmtType = .localPrefix ∧ e.TakesAs cycle flit h .memoryRead := by
  obtain ⟨h, r, slot, slots, header, prefixed, body, admits⟩ := passes
  have call := (accept_start running between cycle flit).trans (acceptStart_eq header)
  have asks : PacketKind.memoryRead.Asks (h.atomicOperation? flit) :=
    Header.atomicOperation?_of_localPrefix flit prefixed
  obtain ⟨state, sent, effect⟩ :=
    submitRead_serves (e := e.idleAt cycle) body admits asks attached
  rw [dispatch_localPrefix body prefixed, acceptRead_of_admits (e := e.idleAt cycle) admits,
    sent] at call
  exact ⟨h, header, prefixed, .of_done call rfl effect⟩

end Start

/-- Exactly the first local prefix, where what follows it is a read without fault, is served
against its kind, and then as that read. -/
theorem accept_servesKinds_iff {e : Engine} (running : e.halted = false)
    (between : e.fromDevice = .start) (cycle : Nat) (flit : Flit) :
    (e.ServesKinds cycle flit ↔ ¬ e.PassesPrefix flit) ∧
    (e.PassesPrefix flit → e.link.engineAttached ∧ e.link.serviceAttached →
      ∃ h, flit.header = .ok h ∧ h.fmtType = .localPrefix ∧
        e.TakesAs cycle flit h .memoryRead) :=
  ⟨⟨fun serves passes => not_servesKinds_of_passesPrefix running between passes serves,
    servesKinds_of_not_passesPrefix running between⟩,
    takesAs_of_passesPrefix running between⟩

/-- A prefix that is followed by a read of one DWORD, given to a fresh engine. -/
theorem accept_prefixed_read :
    let e := create ⟨{}, by decide⟩ {}
    let r : RequestBody := { addr := 0x1000, firstEnable := 0xf }
    let h : Header :=
      { fmtType := .localPrefix, byteSize := 4, requesterId := 7, body := .request r }
    let flit := { (Flit.blank 512 10).storing h with last := true }
    e.halted = false ∧ e.fromDevice = .start ∧ e.PassesPrefix flit ∧ ¬ e.ServesKinds 1 flit ∧
      ∃ h, flit.header = .ok h ∧ h.fmtType = .localPrefix ∧ e.TakesAs 1 flit h .memoryRead := by
  intro e r h flit
  have header : flit.header = .ok h := by
    have stored := (Flit.storeHeader_eq_ok_iff (Flit.blank 512 10) _ h).2 ⟨by decide, rfl⟩
    have decoded := Flit.header_of_storeHeader (by decide) (by decide) (by decide) stored
    have unmarked (f : Flit) : { f with last := true }.header = f.header :=
      Flit.header_congr rfl rfl
    refine (unmarked _).trans ?_
    rw [Flit.storing_of_storeHeader stored]
    exact decoded
  have chosen : chooseSlot e.slots h.tag.toNat = .ok (0, e.slots) := by
    simp [chooseSlot, e, create, SlotPool.ofCount, SlotPool.isBusy, h]
  have passes : e.PassesPrefix flit :=
    ⟨h, r, 0, e.slots, header, rfl, rfl, by decide, by decide, chosen⟩
  have outcome := accept_servesKinds_iff (e := e) rfl rfl 1 flit
  exact ⟨rfl, rfl, passes, fun serves => outcome.1.1 serves passes, outcome.2 passes ⟨rfl, rfl⟩⟩

end Engine
end TlpBridge

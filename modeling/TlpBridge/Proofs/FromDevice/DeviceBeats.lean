import TlpBridge.Proofs.Engine.EngineCalls

/-!
# Beats that the engine takes

A beat of the device goes on with a write, ends one, or is a read as a whole. With the last beat
of a write and with a read host memory is asked for exactly one access, which is made of the beats
of that packet; no other beat asks for anything.
-/
namespace TlpBridge.Engine

/-- A beat of a write, given the packet before it and the DWORD at which its payload starts: the
first beat, with a header that breaks no rule, or one that goes on with an open packet. -/
inductive WriteBeat (e : Engine) (flit : Flit) : OpenPacket → Nat → Prop where
  | first {h : Header} {r : RequestBody} (between : e.fromDevice = .start)
    (header : flit.header = .ok h) (body : h.body = .request r)
    (kind : h.fmtType.isMemoryWrite ∧ ¬ h.fmtType.isAtomic)
    (rules : e.params.writeFault? h r = none) : WriteBeat e flit ⟨h, []⟩ HeaderWords.count
  | later {p : OpenPacket} (inside : e.fromDevice = .write p) : WriteBeat e flit p 0

/-- A read of the device enters a slot, and host memory is asked for it. -/
structure TakesRead (e e' : Engine) (flit : Flit) (h : Header) (r : RequestBody) (slot : Nat)
    (slots : SlotPool) : Prop where
  header : flit.header = .ok h
  body : h.body = .request r
  kind : ¬ (h.fmtType.isMemoryWrite ∧ ¬ h.fmtType.isAtomic)
  extent : e.params.readExtentFault? flit.last h r = none
  rules : e.params.readFault? { h with body := .request (h.effectiveRequest r) }
    (h.effectiveRequest r) = none
  chosen : chooseSlot e.slots h.tag.toNat = .ok (slot, slots)
  state : e' = { e with
    cycle := e'.cycle
    fromDevice := e'.fromDevice
    slots := slots.occupy slot e'.cycle
      { h with
        body := .request (h.effectiveRequest r)
        byteSize := UInt32.ofNat h.completedBytes }
    link := { e.link with
      requests := e.link.requests ++ [.read
        (Header.readRequest { h with body := .request (h.effectiveRequest r) }
          (h.effectiveRequest r) flit slot)] }
    pendingReads := e.pendingReads + 1 }

theorem TakesRead.posted {e e' : Engine} {flit : Flit} {h : Header} {r : RequestBody} {slot : Nat}
    {slots : SlotPool} (takes : e.TakesRead e' flit h r slot slots) :
    e.link.postedReads e'.link =
      [Header.readRequest { h with body := .request (h.effectiveRequest r) }
        (h.effectiveRequest r) flit slot] := by
  rw [takes.state]
  simp [MemoryLink.postedReads]

/-- A beat of a packet that asks nothing of host memory: the first one, with a header of no request,
or one of a completion. -/
inductive OtherBeat (e : Engine) (flit : Flit) : Prop where
  | first {h : Header} (between : e.fromDevice = .start) (header : flit.header = .ok h)
    (body : h.request? = none)
  | later {p : OpenPacket} (inside : e.fromDevice = .completion p)

/-- What a beat of the device does to an engine whose link is whole, and what it is answered. -/
inductive Takes (e : Engine) (flit : Flit) (s : EngineStep Unit) : Prop where
  | halted (halted : e.halted) (answer : s.answer = .error .halted) (state : s.state = e)
  | refused (answer : ∃ fault, s.answer = .error fault) (state : s.state = { e with
      halted := true
      cycle := s.state.cycle
      fromDevice := .start })
  | other (beat : e.OtherBeat flit) (answer : s.answer = .ok ())
    (after : if flit.last then s.state.fromDevice = .start
      else ∃ p, s.state.fromDevice = .completion p) (state : s.state = { e with
      cycle := s.state.cycle
      fromDevice := s.state.fromDevice
      mmioReads := s.state.mmioReads })
  /-- More beats of the write are to come. -/
  | open_ {p p' : OpenPacket} {start : Nat} (beat : e.WriteBeat flit p start)
    (extended : p.extend flit start p.header.dwordSize .dmaWrite = .ok p') (more : ¬ flit.last)
    (answer : s.answer = .ok ())
    (state : s.state = { e with cycle := s.state.cycle, fromDevice := .write p' })
  | write {p p' : OpenPacket} {start : Nat} (beat : e.WriteBeat flit p start)
    (extended : p.extend flit start p.header.dwordSize .dmaWrite = .ok p') (last : flit.last)
    (answer : s.answer = .ok ()) (state : s.state = { e with
      cycle := s.state.cycle
      fromDevice := .start
      link := { e.link with
        requests := e.link.requests ++
          [.write (p'.header.writeRequest (p'.header.request?.getD {}) p'.payload)] }
      pendingWrites := e.pendingWrites + 1 })
  | read {h : Header} {r : RequestBody} {slot : Nat} {slots : SlotPool}
    (between : e.fromDevice = .start) (takes : e.TakesRead s.state flit h r slot slots)
    (answer : s.answer = .ok ()) (after : s.state.fromDevice = .start)

variable {e : Engine} {flit : Flit} {cycle : Nat}

/-- The engine while it takes a beat. -/
def idleAt (e : Engine) (cycle : Nat) : Engine := { e with cycle := cycle, fromDevice := .start }

theorem Takes.after {s : EngineStep Unit} (takes : e.Takes flit s) (effects : List Effect) :
    e.Takes flit (s.after effects) := by
  cases takes with
  | halted halted answer state => exact .halted halted answer state
  | refused answer state => exact .refused answer state
  | other beat answer after state => exact .other beat answer after state
  | open_ beat extended more answer state => exact .open_ beat extended more answer state
  | write beat extended last answer state => exact .write beat extended last answer state
  | read between takes answer after => exact .read between takes answer after

section Other

variable (e cycle flit)

theorem takes_haltOn (h : Option Header) (v : Violation) :
    e.Takes flit ((e.idleAt cycle).haltOn h flit v) :=
  .refused ⟨_, rfl⟩ rfl

variable {e flit}

theorem takes_acceptInterrupt (beat : e.OtherBeat flit) (h : Header) (vector : UInt16) :
    e.Takes flit ((e.idleAt cycle).acceptInterrupt h vector flit) := by
  unfold acceptInterrupt
  by_cases last : flit.last
  · rw [if_neg (not_not.2 last)]
    split
    · exact takes_haltOn ..
    · exact .other beat rfl (by rw [if_pos last]; rfl) rfl
  · rw [if_pos last]
    exact takes_haltOn ..

theorem takes_acceptCompletionBeat (beat : e.OtherBeat flit) (p : OpenPacket) (start : Nat) :
    e.Takes flit ((e.idleAt cycle).acceptCompletionBeat p flit start) := by
  unfold acceptCompletionBeat
  split
  · exact takes_haltOn ..
  · next p' _ =>
    by_cases last : flit.last
    · rw [if_pos last]
      exact .other beat rfl (by rw [if_pos last]; rfl) rfl
    · rw [if_neg last]
      exact .other beat rfl (by rw [if_neg last]; exact ⟨p', rfl⟩) rfl

theorem takes_acceptCompletion (beat : e.OtherBeat flit) (h : Header) (c : CompletionBody) :
    e.Takes flit ((e.idleAt cycle).acceptCompletion h c flit) := by
  unfold acceptCompletion
  split
  · exact takes_haltOn ..
  · split
    · exact takes_haltOn ..
    · exact takes_acceptCompletionBeat cycle beat ..

end Other

section Write

variable (attached : e.link.engineAttached ∧ e.link.serviceAttached)

include attached

theorem takes_acceptWriteBeat {p : OpenPacket} {start : Nat} (beat : e.WriteBeat flit p start) :
    e.Takes flit ((e.idleAt cycle).acceptWriteBeat p flit start) := by
  unfold acceptWriteBeat
  cases extended : p.extend flit start p.header.dwordSize .dmaWrite with
  | error v => exact takes_haltOn ..
  | ok p' =>
    by_cases last : flit.last
    · simp only [last, if_true, submitWrite]
      rw [MemoryLink.send_of_attached (l := (e.idleAt cycle).link) attached]
      exact .write beat extended last rfl rfl
    · simp only [last]
      exact .open_ beat extended last rfl rfl

theorem takes_acceptWrite {h : Header} {r : RequestBody} (between : e.fromDevice = .start)
    (header : flit.header = .ok h) (body : h.body = .request r)
    (kind : h.fmtType.isMemoryWrite ∧ ¬ h.fmtType.isAtomic) :
    e.Takes flit ((e.idleAt cycle).acceptWrite h r flit) := by
  unfold acceptWrite
  cases rules : (e.idleAt cycle).params.writeFault? h r with
  | some v => exact takes_haltOn ..
  | none => exact takes_acceptWriteBeat attached (.first between header body kind rules)

theorem takes_acceptRead {h : Header} {r : RequestBody} (between : e.fromDevice = .start)
    (header : flit.header = .ok h) (body : h.body = .request r)
    (kind : ¬ (h.fmtType.isMemoryWrite ∧ ¬ h.fmtType.isAtomic)) :
    e.Takes flit ((e.idleAt cycle).acceptRead h r flit) := by
  unfold acceptRead
  cases extent : (e.idleAt cycle).params.readExtentFault? flit.last h r with
  | some v => exact takes_haltOn ..
  | none =>
    cases rules : (e.idleAt cycle).params.readFault?
        { h with body := .request (h.effectiveRequest r) } (h.effectiveRequest r) with
    | some v =>
      simp only [rules]
      exact takes_haltOn ..
    | none =>
      cases chosen : chooseSlot (e.idleAt cycle).slots h.tag.toNat with
      | error v =>
        simp only [rules, chosen]
        exact takes_haltOn ..
      | ok choice =>
        obtain ⟨slot, slots⟩ := choice
        simp only [rules, chosen, submitRead]
        rw [MemoryLink.send_of_attached (l := (e.idleAt cycle).link) attached]
        exact .read between ⟨header, body, kind, extent, rules, chosen, rfl⟩ rfl rfl

/-- What a beat of the device does. -/
theorem accept_takes (cycle : Nat) (flit : Flit) : e.Takes flit (e.accept cycle flit) := by
  unfold accept
  by_cases halted : e.halted
  · rw [if_pos halted]
    exact .halted halted rfl rfl
  · rw [if_neg halted]
    cases fromDevice : e.fromDevice with
    | completion p => exact (takes_acceptCompletionBeat cycle (.later fromDevice) p 0).after _
    | write p => exact (takes_acceptWriteBeat attached (.later fromDevice)).after _
    | start =>
      simp only [acceptStart]
      cases header : flit.header with
      | error cause => exact takes_haltOn ..
      | ok h =>
        refine Takes.after ?_ _
        have other (body : h.request? = none) : e.OtherBeat flit := .first fromDevice header body
        simp only [dispatch]
        cases body : h.body with
        | interrupt vector =>
          exact takes_acceptInterrupt cycle (other (by rw [Header.request?, body])) h vector
        | completion c =>
          exact takes_acceptCompletion cycle (other (by rw [Header.request?, body])) h c
        | other => exact takes_haltOn ..
        | request r =>
          by_cases kind : h.fmtType.isMemoryWrite ∧ ¬ h.fmtType.isAtomic
          · simp only [if_pos kind]
            exact takes_acceptWrite attached fromDevice header body kind
          · simp only [if_neg kind]
            exact takes_acceptRead attached fromDevice header body kind

end Write

theorem accept_cases (e : Engine) (cycle : Nat) (flit : Flit)
    (attached : e.link.engineAttached ∧ e.link.serviceAttached) :
    e.Quiet (e.accept cycle flit).state ∨
      ∃ h r slot slots, e.TakesRead (e.accept cycle flit).state flit h r slot slots := by
  have takes := accept_takes attached cycle flit
  generalize e.accept cycle flit = s at takes ⊢
  cases takes with
  | halted _ _ state =>
    rw [state]
    exact .inl (.refl e)
  | refused _ state => exact .inl (.of_eq (by rw [state]))
  | other _ _ _ state => exact .inl (.of_eq (by rw [state]))
  | open_ _ _ _ _ state => exact .inl (.of_eq (by rw [state]))
  | write _ _ _ _ state =>
    refine .inl ⟨.of_eq (by rw [state]), ?_⟩
    rw [state]
    simp [MemoryLink.postedReads]
  | read _ takes => exact .inr ⟨_, _, _, _, takes⟩

end TlpBridge.Engine

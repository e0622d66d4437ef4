import TlpBridge.Proofs.Engine.OrderlyRuns
import TlpBridge.Proofs.Reads.ReadDelivery
import TlpBridge.Proofs.Reads.SlotAccounts

/-!
# Announced bytes

Every completion that the device gets counts the bytes that are left of its read, and a read within
one completion boundary is answered in one completion. Without a reset, the completions that wait
are cut from the reads in their slots, so that each one that the device gets is cut from the read
that it completes.
-/
namespace TlpBridge

namespace Engine

variable {e e' e'' : Engine}

theorem unstarted_eq_items (outside : ∀ left, e.toDevice ≠ .completion left) :
    e.unstarted = e.completions.items := by
  unfold unstarted
  cases inside : e.toDevice with
  | start => rfl
  | mmio left => rfl
  | completion left => exact absurd inside (outside left)

/-- A completion that is queued does not become the one on its way. -/
theorem mem_unstarted_queueCompletion {c d : CompletionPacket}
    (member : d ∈ (e.queueCompletion c).unstarted) : d ∈ e.unstarted ∨ d = c := by
  have only := onlyQueued_queueCompletion e c
  have toDevice : (e.queueCompletion c).toDevice = e.toDevice := by
    unfold OnlyQueued at only
    rw [only]
  unfold unstarted at member ⊢
  rw [toDevice] at member
  cases inside : e.toDevice with
  | start =>
    rw [inside] at member
    exact mem_queueCompletion member
  | mmio left =>
    rw [inside] at member
    exact mem_queueCompletion member
  | completion left =>
    rw [inside] at member
    obtain ⟨limit, inserted⟩ := e.completions_queueCompletion c
    obtain ⟨n, items, -, -, head⟩ :=
      e.completions.insertOvertaking_eq c limit fun other => other.slot == c.slot
    simp only [inserted, items] at member ⊢
    cases queue : e.completions.items with
    | nil =>
      rw [queue] at member
      simp at member
    | cons x rest =>
      obtain ⟨m, rfl⟩ : ∃ m, n = m + 1 :=
        ⟨n - 1, (Nat.succ_pred_eq_of_pos (head (by simp [queue]))).symm⟩
      rw [queue] at member
      change d ∈ rest.take m ++ c :: rest.drop m at member
      rw [List.mem_append, List.mem_cons] at member
      rcases member with before | new | behind
      · exact .inl (List.mem_of_mem_take before)
      · exact .inr new
      · exact .inl (List.mem_of_mem_drop behind)

theorem Queues.mem_unstarted {P : CompletionPacket → Prop} (queues : Queues P e e')
    {c : CompletionPacket} (member : c ∈ e'.unstarted) : c ∈ e.unstarted ∨ P c := by
  induction queues with
  | refl => exact .inl member
  | queue e₁ d drawn kind _ ih =>
    rcases ih member with queued | new
    · rcases mem_unstarted_queueCompletion queued with old | rfl
      · rw [drawn] at old
        exact .inl old
      · exact .inr kind
    · exact .inr new

/-- The reads in the slots are as before, and what is new among the completions of which no beat was
sent is cut from them. -/
structure CutsReads (e e' : Engine) : Prop where
  config : e'.config = e.config
  requests : ∀ slot, e'.slots.request? slot = e.slots.request? slot
  unstarted : ∀ c ∈ e'.unstarted, c ∈ e.unstarted ∨
    ∃ h, e.slots.request? c.slot = some h ∧ c.CutFrom e.params h (h.request?.getD {})

namespace CutsReads

theorem of_eq (config : e'.config = e.config)
    (requests : ∀ slot, e'.slots.request? slot = e.slots.request? slot)
    (same : e'.unstarted = e.unstarted) : e.CutsReads e' :=
  ⟨config, requests, fun _ member => .inl (same ▸ member)⟩

theorem trans (first : e.CutsReads e') (second : e'.CutsReads e'') : e.CutsReads e'' where
  config := second.config.trans first.config
  requests slot := (second.requests slot).trans (first.requests slot)
  unstarted c member := by
    rcases second.unstarted c member with old | ⟨h, stored, cut⟩
    · exact first.unstarted c old
    · rw [first.requests] at stored
      rw [params, first.config] at cut
      exact .inr ⟨h, stored, cut⟩

theorem of_sameReads (same : e.SameReads e') : e.CutsReads e' := by
  refine .of_eq same.config (fun slot => by rw [same.slots]) ?_
  unfold Engine.unstarted
  rw [same.toDevice, same.completions]

end CutsReads

theorem cutsReads_queueRead (e : Engine) {slot : Nat} {h : Header} (data : List UInt8)
    (stored : e.slots.request? slot = some h) (known : ∃ r, h.Completable r) :
    e.CutsReads (e.queueRead slot h data).state := by
  have halted (header : Option Header) (v : Violation) :
      e.CutsReads (e.halt (α := Unit) header v).state := .of_eq rfl (fun _ => rfl) rfl
  unfold queueRead
  simp only
  generalize (if h.isFence (h.request?.getD {}) then 0 else h.byteSize.toNat) = expected
  split
  · exact halted ..
  · cases counted : ByteEnable.byteCount? h.dwordSize (h.request?.getD {}).firstEnable
        (h.request?.getD {}).lastEnable with
    | none => exact halted ..
    | some count =>
      obtain ⟨r, completable⟩ := known
      have body : h.request?.getD {} = r := by
        rw [Header.request?, completable.body]
        rfl
      have total : ByteEnable.remaining h.dwordSize r.firstEnable r.lastEnable 0 = count := by
        rw [ByteEnable.remaining, if_pos rfl, ← body, counted]
        rfl
      have queues := queues_queuePackets completable slot (paddedDwords h.dwordSize data) e
      have only := onlyQueued_queuePackets slot h r (paddedDwords h.dwordSize data) h.dwordSize 0
        count e
      rw [total] at queues
      simp only [body]
      refine ⟨(OnlyCollected.of_onlyQueued only).config, fun k => ?_, fun c member => ?_⟩
      · exact congrArg (·.request? k) (congrArg Engine.slots only)
      · rcases queues.mem_unstarted member with old | ⟨rfl, cut⟩
        · exact .inl old
        · exact .inr ⟨h, stored, by rwa [body]⟩

theorem cutsReads_receiveRead (e : Engine) (a : ReadResponse)
    (known : ∀ slot h, e.slots.request? slot = some h → ∃ r, h.Completable r) :
    e.CutsReads (e.receiveRead a).state := by
  unfold receiveRead
  simp only
  split
  · exact .of_eq rfl (fun _ => rfl) rfl
  · next h request =>
    have stored := SlotPool.request?_of_outstanding? request
    split
    · exact cutsReads_queueRead e a.data stored (known _ h stored)
    · exact .of_eq rfl (fun slot => SlotPool.request?_release ..) rfl

theorem cutsReads_collectReads (n : Nat) (e : Engine)
    (known : ∀ slot h, e.slots.request? slot = some h → ∃ r, h.Completable r) :
    e.CutsReads (collectReads n e).state := by
  induction n generalizing e with
  | zero => exact .of_eq rfl (fun _ => rfl) rfl
  | succ n ih =>
    unfold collectReads MemoryLink.receiveRead
    cases e.link.readResponses with
    | nil =>
      cases e.link.serviceAttached with
      | true => exact .of_eq rfl (fun _ => rfl) rfl
      | false => exact .of_eq rfl (fun _ => rfl) rfl
    | cons a rest =>
      have taken : e.CutsReads (e.withoutAnswer rest) := .of_eq rfl (fun _ => rfl) rfl
      have received := taken.trans ((e.withoutAnswer rest).cutsReads_receiveRead a known)
      change e.CutsReads (EngineStep.andThen ((e.withoutAnswer rest).receiveRead a)
        fun () e => collectReads n e).state
      unfold EngineStep.andThen
      split
      · exact received
      · refine received.trans (ih _ fun slot h stored => known slot h ?_)
        rwa [received.requests] at stored

theorem cutsReads_collect (e : Engine) (cycle : Nat)
    (known : ∀ slot h, e.slots.request? slot = some h → ∃ r, h.Completable r) :
    e.CutsReads (e.collect cycle).state := by
  have tick : e.CutsReads { e with cycle := cycle } := .of_eq rfl (fun _ => rfl) rfl
  have written := tick.trans
    (.of_sameReads (collectWrites_spec e.pendingWrites { e with cycle := cycle }).1)
  unfold collect EngineStep.andThen
  split
  · exact written
  · refine written.trans (cutsReads_collectReads _ _ fun slot h stored => known slot h ?_)
    rwa [written.requests] at stored

theorem CompletionBeat.unstarted_eq {c : CompletionPacket} {start left : Nat} {f : Flit}
    (beat : e.CompletionBeat c start left f e') : e'.unstarted = e.completions.items.tail := by
  rw [beat.state]
  cases f.last with
  | true => rfl
  | false => rfl

theorem MmioBeat.cutsReads {f : Flit} (beat : e.MmioBeat f e')
    (outside : ∀ left, e.toDevice ≠ .completion left) : e.CutsReads e' := by
  have still : ∀ left, e'.toDevice ≠ .completion left := by
    intro left inside
    cases last : f.last with
    | true => cases (beat.ends last).symm.trans inside
    | false =>
      obtain ⟨rest, goesOn⟩ := beat.goesOn (by simp [last])
      cases goesOn.symm.trans inside
  refine .of_eq (by rw [beat.state]) (fun slot => by rw [beat.state]) ?_
  rw [unstarted_eq_items still, unstarted_eq_items outside, beat.state]

end Engine

/-- The bytes that a completion announces as left of its read. -/
def Header.countedBytes? (h : Header) : Option Nat := h.completion?.map fun c => c.byteCount.toNat

/-- The packet is a completion that is cut from a read with the stored header. -/
def ReceivedPacket.CutFrom (p : ReceivedPacket) (params : Parameters) (h : Header) : Prop :=
  ∃ (c : CompletionPacket) (part : CompletionPart), p.part = some part ∧
    part.offset = c.startDword ∧ c.CutFrom params h (h.request?.getD {}) ∧ p.header = c.header h

namespace Session

variable {s s' : Session} {q : OwnedQueue} {owed : List Nat}

/-- The completions of which no beat was sent are cut from the reads in their slots, and those that
the device has got from the reads that they complete. -/
structure CutsReads (s : Session) : Prop where
  unstarted : ∀ c ∈ s.engine.unstarted, ∀ h, s.engine.slots.request? c.slot = some h →
    c.CutFrom s.engine.params h (h.request?.getD {})
  got : ∀ p ∈ s.received ++ s.current.toList, ∀ i, p.completes i →
    ∃ r, s.reads[i]? = some r ∧ p.CutFrom s.engine.params r.stored

theorem received_file (s : Session) (p : ReceivedPacket) (whole : Bool) :
    (s.file p whole).received ++ (s.file p whole).current.toList = s.received ++ [p] := by
  cases whole with
  | true => exact List.append_nil _
  | false => rfl

namespace CutsReads

theorem congr (cuts : s.CutsReads) (engine : s.engine.CutsReads s'.engine)
    (reads : ∀ (i : Nat) (r : DeviceRead), s.reads[i]? = some r →
      ∃ r', s'.reads[i]? = some r' ∧ r'.stored = r.stored)
    (received : s'.received = s.received) (current : s'.current = s.current) : s'.CutsReads := by
  have params : s'.engine.params = s.engine.params := congrArg ValidParameters.params engine.config
  constructor
  case unstarted =>
    intro c member h stored
    rw [engine.requests] at stored
    rw [params]
    rcases engine.unstarted c member with old | ⟨h', stored', cut⟩
    · exact cuts.unstarted c old h stored
    · obtain rfl : h' = h := Option.some.inj (stored'.symm.trans stored)
      exact cut
  case got =>
    intro p member i completes
    rw [received, current] at member
    obtain ⟨r, read, cut⟩ := cuts.got p member i completes
    obtain ⟨r', read', same⟩ := reads i r read
    exact ⟨r', read', by rw [same, params]; exact cut⟩

theorem withEngine (cuts : s.CutsReads) {e : Engine} (engine : s.engine.CutsReads e) :
    CutsReads { s with engine := e } :=
  cuts.congr engine (fun _ r read => ⟨r, read, rfl⟩) rfl rfl

/-- The slot that a read takes has no completions. -/
theorem takesRead (cuts : s.CutsReads) (sound : s.Sound q owed) (again : s.again = none)
    {e : Engine} {flit : Flit} {h : Header} {r : RequestBody} {slot : Nat} {slots : SlotPool}
    (takes : s.engine.TakesRead e flit h r slot slots) (d : DeviceRead)
    (read : d = ⟨h, Header.readRequest { h with body := .request (h.effectiveRequest r) }
      (h.effectiveRequest r) flit slot, none⟩) :
    CutsReads { s with
      engine := e
      reads := s.reads ++ [d]
      owner := Function.update s.owner d.slot s.reads.length } := by
  obtain ⟨own, -, admitted, idle, states, -⟩ := sound.admitted_of_takesRead takes d read
  have pool : e.slots = slots.occupy slot e.cycle (h.stored r) := congrArg Engine.slots takes.state
  have params : e.params = s.engine.params := (congrArg Engine.params takes.state).trans rfl
  have unstarted : e.unstarted = s.engine.unstarted :=
    (congrArg Engine.unstarted takes.state).trans rfl
  constructor
  case unstarted =>
    intro c member g stored
    change c ∈ e.unstarted at member
    change e.slots.request? c.slot = some g at stored
    rw [unstarted] at member
    obtain ⟨i, queued, waits⟩ := (sound.mem_unstarted_iff again c).1 member
    have holds := sound.holds_of_unstarted queued waits
    have other : c.slot ≠ slot := by
      intro same
      rw [same] at holds
      exact absurd holds.2 (by simp [idle])
    have inside : slot < slots.states.size := by
      rw [states, sound.size, ← own]
      exact admitted.slot
    rw [pool, SlotPool.request?_occupy _ _ _ _ _ inside, if_neg other,
      SlotPool.request?_congr states] at stored
    change c.CutFrom e.params g _
    rw [params]
    exact cuts.unstarted c member g stored
  case got =>
    intro p member i completes
    obtain ⟨x, found, cut⟩ := cuts.got p member i completes
    refine ⟨x, (List.getElem?_append_left (List.getElem?_eq_some_iff.1 found).1).trans found, ?_⟩
    change p.CutFrom e.params x.stored
    rw [params]
    exact cut

theorem filed (cuts : s.CutsReads) {e : Engine} (engine : s.engine.CutsReads e)
    {p : ReceivedPacket} (whole : Bool) (received : s'.received = s.received)
    (reads : s'.reads = s.reads) (same : s'.engine = e)
    (new : ∀ i, p.completes i → ∃ r, s.reads[i]? = some r ∧ p.CutFrom s.engine.params r.stored) :
    (s'.file p whole).CutsReads := by
  have moved := cuts.withEngine engine
  have params : e.params = s.engine.params := congrArg ValidParameters.params engine.config
  constructor
  case unstarted =>
    rw [engine_file, same]
    exact moved.unstarted
  case got =>
    rw [received_file, received, engine_file, same, reads_file, reads, params]
    intro x member i completes
    rcases List.mem_append.1 member with old | last
    · exact cuts.got x (List.mem_append_left _ old) i completes
    · rw [List.mem_singleton.1 last] at completes ⊢
      exact new i completes

/-- Whatever the engine sends. -/
theorem receive (cuts : s.CutsReads) (sound : s.Sound q owed) (again : s.again = none) {f : Flit}
    {e : Engine} {effects : List Effect} (sends : s.engine.Sends (.ok e (some f) effects)) :
    (Session.receive { s with engine := e } s.engine.completions.front? f).CutsReads := by
  cases sends with
  | startsMmio r between first header beat =>
    have current : Session.current { s with engine := e } = none :=
      sound.streaming.current_of_start between
    rw [Session.receive_of_other current header (Engine.isCompletion_mmioHeader ..)]
    refine cuts.filed (beat.cutsReads fun left inside => ?_) _ rfl rfl rfl ?_
    · cases between.symm.trans inside
    · intro i completes
      cases completes
  | continuesMmio left inside beat =>
    obtain ⟨p, current, part, -⟩ := sound.streaming.of_mmio inside
    rw [Session.receive_of_current (s := { s with engine := e }) current]
    refine cuts.filed (beat.cutsReads fun left' inside' => ?_) _ rfl rfl rfl ?_
    · cases inside.symm.trans inside'
    · intro i completes
      obtain ⟨x, is, -⟩ := (p.completes_iff i).1 completes
      cases part.symm.trans is
  | startsCompletion c request random between first stored header beat =>
    have current : Session.current { s with engine := e } = none :=
      sound.streaming.current_of_start between
    obtain ⟨rest, items⟩ := List.head?_eq_some_iff.1 first
    have unstarted : s.engine.unstarted = c :: rest := by
      rw [Engine.unstarted, between]
      exact items
    have engine : s.engine.CutsReads e := by
      refine ⟨by rw [beat.state], fun slot => ?_, fun d member => .inl ?_⟩
      · rw [beat.state]
        change SlotPool.request? (if c.isLast then _ else _) slot = _
        split
        · exact SlotPool.request?_release ..
        · rfl
      · rw [beat.unstarted_eq] at member
        rw [unstarted]
        exact List.mem_cons_of_mem c (by rwa [items] at member)
    obtain ⟨i, member⟩ : ∃ i, (i, c) ∈ q := by
      have front := first
      rw [sound.front?_eq, Option.map_eq_some_iff] at front
      obtain ⟨x, head, rfl⟩ := front
      exact ⟨x.1, List.mem_of_head? head⟩
    obtain ⟨r, -, read, -, kept⟩ := sound.request?_of_mem member
    obtain rfl : r.stored = request := Option.some.inj (kept.symm.trans stored)
    have part : s.partOf c = ⟨s.owner c.slot, c.startDword, c.isLast⟩ := by
      rw [Session.partOf, again, Option.getD_none]
    rw [first, Session.receive_of_completion current header (c.isCompletion_header _)]
    refine cuts.filed engine _ rfl rfl rfl fun j completes => ?_
    obtain ⟨x, is, rfl⟩ := (ReceivedPacket.completes_iff _ j).1 completes
    obtain rfl : s.partOf c = x := Option.some.inj is
    refine ⟨r, by rw [part]; exact read, c, s.partOf c, is, by rw [part], ?_, rfl⟩
    exact cuts.unstarted c (by rw [unstarted]; exact List.mem_cons_self) _ stored
  | continuesCompletion c random left inside first beat =>
    obtain ⟨-, -, p, -, current, -⟩ := sound.streaming.of_completion inside
    rw [Session.receive_of_current (s := { s with engine := e }) current]
    have engine : s.engine.CutsReads e := by
      refine .of_eq (by rw [beat.state]) (fun slot => by rw [beat.state]) ?_
      rw [beat.unstarted_eq, Engine.unstarted, inside]
    refine cuts.filed engine _ rfl rfl rfl fun i completes => ?_
    refine cuts.got p (List.mem_append_right _ ?_) i completes
    rw [current]
    exact List.mem_singleton_self p

theorem observe (cuts : s.CutsReads) (sound : s.Sound q owed) (again : s.again = none)
    {result : EngineStep (Option Flit)} (sends : s.engine.Sends result) :
    (s.observe s.engine.completions.front? result).CutsReads := by
  let calm : Session := { s with fault := none }
  have cuts' : calm.CutsReads := ⟨cuts.unstarted, cuts.got⟩
  have sound' : calm.Sound q owed := sound.withFault none fun _ _ _ failed => nomatch failed
  have sends' := sends
  cases sends with
  | @nothing e' effects state =>
    have engine : s.engine.CutsReads e' := by
      rw [state]
      exact .of_eq rfl (fun _ => rfl) rfl
    exact cuts.congr engine (fun _ r read => ⟨r, read, rfl⟩) rfl rfl
  | @refused e' effects r cause first fault state =>
    have engine : s.engine.CutsReads e' := by
      rw [state]
      exact .of_eq rfl (fun _ => rfl) rfl
    exact cuts.congr engine (fun _ r read => ⟨r, read, rfl⟩) rfl rfl
  | startsMmio => exact cuts'.receive sound' again sends'
  | continuesMmio => exact cuts'.receive sound' again sends'
  | startsCompletion => exact cuts'.receive sound' again sends'
  | continuesCompletion => exact cuts'.receive sound' again sends'

theorem emit (cuts : s.CutsReads) (sound : s.Sound q owed) (again : s.again = none)
    (orderly : s.engine.Orderly) (cycle : Nat) (ready : Bool) : (s.emit cycle ready).CutsReads := by
  have collected : (s.collect cycle).CutsReads :=
    cuts.withEngine (s.engine.cutsReads_collect cycle orderly.stocked.requests)
  have faulted {s : Session} (cuts : s.CutsReads) (fault : Option EngineFault) :
      CutsReads { s with fault := fault } := ⟨cuts.unstarted, cuts.got⟩
  obtain ⟨q', owed', sound', -⟩ := sound.collect cycle
  change (s.collect cycle).Sound q' owed' at sound'
  rcases s.emit_cases cycle ready with
    halted | ⟨fault, -, stopped⟩ | ⟨-, quiet | ⟨effects, sent⟩⟩
  · rw [halted]
    exact faulted cuts _
  · rw [stopped]
    exact faulted collected _
  · rw [quiet]
    exact faulted collected _
  · have sends := (Engine.sendBeat_sends _ sound'.sendable).after effects
    rw [sent]
    exact collected.observe sound' again sends

/-- What a move keeps that is no reset. -/
theorem step (cuts : s.CutsReads) (sound : s.Sound q owed) (again : s.again = none)
    (orderly : s.engine.Orderly) {m : Move} (other : m ≠ .reset) : (s.step m).CutsReads := by
  cases m with
  | accept cycle flit =>
    change (s.accept cycle flit).CutsReads
    rcases s.accept_cases cycle flit sound.attached with
      ⟨quiet, same⟩ | ⟨h, r, slot, slots, takes, is⟩
    · rw [same]
      exact cuts.withEngine (.of_sameReads quiet.1)
    · rw [is _ rfl]
      exact cuts.takesRead sound again takes _ rfl
  | ready => exact cuts.withEngine (.of_sameReads s.engine.quiet_ready.1)
  | request r => exact cuts.withEngine (.of_sameReads (s.engine.quiet_request r).1)
  | emit cycle ready => exact cuts.emit sound again orderly cycle ready
  | reset => exact absurd rfl other
  | takeRequest =>
    change s.takeRequest.CutsReads
    rw [takeRequest_eq]
    exact cuts.withEngine (.of_eq rfl (fun _ => rfl) rfl)
  | answerRead i a =>
    change (s.answerRead i a).CutsReads
    rcases s.answerRead_cases i a sound.attached.1 with same | ⟨r, read, -, is⟩
    · rw [same]
      exact cuts
    · rw [is]
      refine cuts.congr (.of_eq rfl (fun _ => rfl) rfl) (fun j d found => ?_) rfl rfl
      by_cases mine : j = i
      · subst mine
        obtain rfl : r = d := Option.some.inj (read.symm.trans found)
        exact ⟨_, List.getElem?_set_self (List.getElem?_eq_some_iff.1 read).1, rfl⟩
      · exact ⟨d, (List.getElem?_set_ne (Ne.symm mine)).trans found, rfl⟩
  | answerWrite a =>
    change (s.answerWrite a).CutsReads
    rw [answerWrite_eq sound.attached.1]
    exact cuts.withEngine (.of_eq rfl (fun _ => rfl) rfl)

end CutsReads

theorem engine_step (s : Session) (m : Move) (attached : s.engine.link.engineAttached) :
    ∃ call, (s.step m).engine = s.engine.perform call := by
  cases m with
  | accept cycle flit => exact ⟨.accept cycle flit, s.engine_accept cycle flit⟩
  | ready => exact ⟨.ready, rfl⟩
  | request r => exact ⟨.request r, rfl⟩
  | emit cycle ready => exact ⟨.emit cycle ready, (s.emit_frame cycle ready).1⟩
  | reset => exact ⟨.reset, rfl⟩
  | takeRequest =>
    have taken := congrArg Session.engine s.takeRequest_eq
    exact ⟨.serve { s.engine.link with requests := s.engine.link.requests.tail }, taken⟩
  | answerRead i a =>
    rcases s.answerRead_cases i a attached with same | ⟨r, -, -, is⟩
    · exact ⟨.serve s.engine.link, (congrArg Session.engine same).trans rfl⟩
    · have answered := congrArg Session.engine is
      exact ⟨.serve { s.engine.link with readResponses := s.engine.link.readResponses ++ [a] },
        answered⟩
  | answerWrite a =>
    have answered := congrArg Session.engine (answerWrite_eq attached a)
    exact ⟨.serve { s.engine.link with writeResponses := s.engine.link.writeResponses ++ [a] },
      answered⟩

/-- What holds of a session without a reset. -/
structure Regular (s : Session) (config : ValidParameters) : Prop where
  config : s.engine.config = config
  sound : ∃ q owed, s.Sound q owed
  again : s.again = none
  orderly : s.engine.Orderly
  cuts : s.CutsReads

namespace Regular

variable {config : ValidParameters}

theorem start (config : ValidParameters) (options : Switches) (random : DrawSource) :
    (Session.start config options random).Regular config where
  config := rfl
  sound := ⟨[], [], .start config options random⟩
  again := rfl
  orderly := .create config options random
  cuts := ⟨fun _ member => (nomatch member), fun _ member => (nomatch member)⟩

theorem step (regular : s.Regular config) {m : Move} (other : m ≠ .reset) :
    (s.step m).Regular config := by
  obtain ⟨q, owed, sound⟩ := regular.sound
  obtain ⟨call, engine⟩ := s.engine_step m sound.attached.1
  have clear : ¬ s.Misdirects m := not_misdirects_of_again regular.again m
  constructor
  case config => rw [engine, Engine.config_perform, regular.config]
  case sound => exact sound.step m clear
  case again => exact again_step regular.again other
  case orderly => exact engine ▸ regular.orderly.perform call
  case cuts => exact regular.cuts.step sound regular.again regular.orderly other

theorem run (regular : s.Regular config) (moves : List Move) (no_reset : Move.reset ∉ moves) :
    (s.run moves).Regular config := by
  induction moves generalizing s with
  | nil => exact regular
  | cons m moves ih =>
    rw [List.mem_cons, not_or] at no_reset
    exact ih (regular.step (Ne.symm no_reset.1)) no_reset.2

end Regular

theorem Sound.request?_stored (sound : s.Sound q owed) {i : Nat} {r : DeviceRead}
    (read : s.reads[i]? = some r) : r.stored.request?.getD {} = r.completedBody := by
  have admitted := sound.admitted r (List.mem_of_getElem? read)
  rw [Header.request?, admitted.completable.body, Option.getD_some]

/-- Every completion that the device gets counts the bytes that are left of its read. -/
theorem CutsReads.counts (cuts : s.CutsReads) (sound : s.Sound q owed) {i : Nat} {r : DeviceRead}
    (read : s.reads[i]? = some r) {p : ReceivedPacket} (member : p ∈ s.packetsOf i) :
    ∃ (c : CompletionPacket) (part : CompletionPart), p.part = some part ∧
      part.offset = c.startDword ∧ c.CutFrom s.engine.params r.stored r.completedBody ∧
      p.header.byteSize.toNat = 4 * c.dwordSize ∧
      p.header.countedBytes? = some (ByteEnable.remaining r.stored.dwordSize
        r.completedBody.firstEnable r.completedBody.lastEnable part.offset) := by
  obtain ⟨listed, completes⟩ := List.mem_filter.1 member
  obtain ⟨r', read', c, part, is, offset, cut, header⟩ := cuts.got p listed i completes
  obtain rfl : r = r' := Option.some.inj (read.symm.trans read')
  rw [sound.request?_stored read] at cut
  have encodable := cut.encodable (sound.admitted r (List.mem_of_getElem? read)).completable
  have short := encodable.short
  have counted := encodable.counted
  refine ⟨c, part, is, offset, cut, ?_, ?_⟩
  · rw [header, ← cut.byteSize]
    change (UInt32.ofNat c.byteSize).toNat = c.byteSize
    rw [UInt32.toNat_ofNat']
    omega
  · rw [header, offset, ← cut.byteCount]
    change some (UInt16.ofNat c.byteCount).toNat = some c.byteCount
    rw [UInt16.toNat_ofNat', Nat.mod_eq_of_lt (by omega)]

/-- A read within one completion boundary comes in one completion, which counts all of it. -/
theorem CutsReads.packetsOf_of_short (cuts : s.CutsReads) (sound : s.Sound q owed) {i : Nat}
    {r : DeviceRead} (read : s.reads[i]? = some r)
    (short : r.stored.dwordSize ≤ s.engine.params.completionBoundary / 4) :
    s.packetsOf i = [] ∨ ∃ p, s.packetsOf i = [p] ∧ (∃ part, p.part = some part ∧
        part.offset = 0) ∧ p.header.byteSize.toNat = 4 * r.stored.dwordSize ∧
      p.header.countedBytes? = ByteEnable.byteCount? r.stored.dwordSize
        r.completedBody.firstEnable r.completedBody.lastEnable := by
  have first {p : ReceivedPacket} (member : p ∈ s.packetsOf i) :
      (∃ part, p.part = some part ∧ part.offset = 0) ∧
        p.header.byteSize.toNat = 4 * r.stored.dwordSize ∧
        p.header.countedBytes? = ByteEnable.byteCount? r.stored.dwordSize
          r.completedBody.firstEnable r.completedBody.lastEnable := by
    obtain ⟨c, part, is, offset, cut, size, counted⟩ := cuts.counts sound read member
    obtain ⟨begins, all⟩ := cut.whole short
    obtain ⟨count, total, -⟩ :=
      (sound.admitted r (List.mem_of_getElem? read)).completable.counted
    have start := offset.trans begins
    rw [start, ByteEnable.remaining, if_pos rfl, total, Option.getD_some] at counted
    exact ⟨⟨part, is, start⟩, size.trans (by rw [all]), counted.trans total.symm⟩
  have order := (sound.delivers read).inOrder
  cases packets : s.packetsOf i with
  | nil => exact .inl rfl
  | cons p rest =>
    right
    rw [packets] at first order
    cases rest with
    | nil => exact ⟨p, rfl, first List.mem_cons_self⟩
    | cons p' rest =>
      -- a second packet would start behind the first one
      obtain ⟨nonempty, -⟩ := order 0 p rfl
      obtain ⟨-, -, part, is, -, offset, -⟩ := order 1 p' rfl
      obtain ⟨⟨part', is', begins⟩, -⟩ := first (List.mem_cons_of_mem p List.mem_cons_self)
      obtain rfl : part = part' := Option.some.inj (is.symm.trans is')
      simp only [List.take_succ_cons, List.take_zero, List.map_cons, List.map_nil, List.sum_cons,
        List.sum_nil] at offset
      omega

end Session

end TlpBridge

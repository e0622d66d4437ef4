import TlpBridge.Proofs.Reads.ReadDelivery

/-!
# Resets in the middle of reads

A reset may cut a completion off, which is then sent again from its header on. With the
header of the last completion a read gives up its slot, and before that completion is sent
again the slot can go to another read: then it goes out under the names of the other read,
and takes the slot from it. Everything else about reads outlives a reset.
-/
namespace TlpBridge.Session

/-- A completion goes under the names of the read whose data it brings. -/
def Named (s : Session) (p : ReceivedPacket) : Prop :=
  ∃ part r a, p.part = some part ∧ s.reads[part.read]? = some r ∧ r.answer = some a ∧
    p.header.Completes r.header part.offset ∧
    p.payload = ((r.words a).drop part.offset).take p.payload.length

/-- What a reset should not touch: completions go under the right names, and a slot is in use
as long as its read is unanswered or has completions that have not been started. -/
structure Intact (s : Session) : Prop where
  named : ∀ p ∈ s.received ++ s.current.toList, p.header.fmtType.isCompletion → s.Named p
  unanswered : ∀ i r, s.reads[i]? = some r → r.answer = none → s.Holds i r.slot
  /-- The engine has not seen these answers. -/
  unseen : ∀ a ∈ s.engine.link.readResponses, s.engine.slots.isBusy a.tag.toNat
  queued : ∀ c ∈ s.engine.completions.items.tail, s.engine.slots.isBusy c.slot
  head : ∀ c, s.engine.completions.front? = some c → ¬ (s.Started ∧ c.isLast) →
    s.engine.slots.isBusy c.slot
  /-- No answer comes to a slot that is free. -/
  answerable : ∀ cycle tag h, s.fault ≠ some (.protocol cycle (.readResponseTag tag) h)

theorem Intact.isBusy_of_idle {s : Session} (intact : s.Intact) (idle : ¬ s.Started)
    {c : CompletionPacket} (waits : c ∈ s.engine.completions.items) :
    s.engine.slots.isBusy c.slot := by
  cases items : s.engine.completions.items with
  | nil =>
    rw [items] at waits
    exact absurd waits List.not_mem_nil
  | cons d rest =>
    rw [items] at waits
    rcases List.mem_cons.1 waits with rfl | later
    · apply intact.head c
      · rw [OvertakingQueue.front?, items]
        rfl
      · exact fun both => idle both.1
    · apply intact.queued c
      rw [items]
      exact later

namespace Sound

variable {s : Session} {q : OwnedQueue} {owed : List Nat}

theorem named (sound : s.Sound q owed) {p : ReceivedPacket}
    (member : p ∈ s.received ++ s.current.toList) (kind : p.header.fmtType.isCompletion) :
    s.Named p := by
  obtain ⟨i, inside, completes⟩ := sound.attributed_all member kind
  have listed : p ∈ s.packetsOf i := List.mem_filter.2 ⟨member, completes⟩
  have read := List.getElem?_eq_getElem inside
  rcases sound.brought_cases read with none_ | ⟨a, n, brought⟩
  · rw [none_] at listed
    exact absurd listed List.not_mem_nil
  · obtain ⟨k, place⟩ := List.getElem?_of_mem listed
    have brings := brought.brings place
    exact ⟨_, _, a, brings.part, read, brought.answer, brings.header, brings.payload⟩

theorem intact (sound : s.Sound q owed) : s.Intact := by
  constructor
  case named => exact fun p member kind => sound.named member kind
  case unanswered =>
    intro i r read none_
    cases sound.progress i r read with
    | waiting _ holds => exact holds
    | failed a answer => cases answer.symm.trans none_
    | served a n answer => cases answer.symm.trans none_
  case unseen =>
    intro a waiting
    have listed : some a ∈ s.engine.link.readResponses.map some := List.mem_map_of_mem waiting
    rw [sound.responses] at listed
    obtain ⟨i, due, found⟩ := List.mem_map.1 listed
    obtain ⟨r, read, answer⟩ := Option.bind_eq_some_iff.1 found
    have tag := ((sound.admitted r (List.mem_of_getElem? read)).answered a answer).1
    cases sound.progress i r read with
    | waiting _ holds => exact tag ▸ holds.2
    | failed _ _ seen => exact absurd due seen
    | served _ _ _ seen => exact absurd due seen
  case queued =>
    intro c member
    rw [sound.queue, OwnedQueue.packets, ← List.map_tail] at member
    obtain ⟨x, listed, rfl⟩ := List.mem_map.1 member
    exact (sound.tail x listed).2
  case head =>
    intro c front idle
    rw [sound.front?_eq, Option.map_eq_some_iff] at front
    obtain ⟨x, first, rfl⟩ := front
    exact ((sound.head x first).2 idle).2
  case answerable =>
    intro cycle tag h failed
    obtain ⟨r, cause, -, other⟩ := sound.fault cycle _ h failed
    cases other

/-- A completion that was cut off is no longer to be sent again once it has been started. -/
theorem startsCompletion_of_again (sound : s.Sound q owed) {result : EngineStep (Option Flit)}
    (sends : s.engine.Sends result) {i : Nat} (cut : s.again = some i)
    (restarted : (s.observe s.engine.completions.front? result).again = none) :
    ∃ c request random f e effects, result = .ok e (some f) effects ∧
      s.engine.completions.front? = some c ∧ s.engine.slots.request? c.slot = some request ∧
      f.header = .ok (c.header request) ∧ s.engine.toDevice = .start ∧
      Engine.CompletionBeat
        { s.engine with
          random := random
          slots := if c.isLast then s.engine.slots.release c.slot else s.engine.slots }
        c HeaderWords.count c.dwordSize f e := by
  cases sends with
  | nothing state => cases cut.symm.trans restarted
  | refused r cause first fault state => cases cut.symm.trans restarted
  | @startsMmio f e effects r between first header beat =>
    have current : Session.current { s with engine := e, fault := none } = none :=
      sound.streaming.current_of_start between
    change (Session.receive { s with engine := e, fault := none } _ f).again = none at restarted
    rw [Session.receive_of_other current header (Engine.isCompletion_mmioHeader ..), again_file]
      at restarted
    cases cut.symm.trans restarted
  | @continuesMmio f e effects left inside beat =>
    obtain ⟨p, current, -⟩ := sound.streaming.of_mmio inside
    change (Session.receive { s with engine := e, fault := none } _ f).again = none at restarted
    rw [Session.receive_of_current (s := { s with engine := e, fault := none }) current,
      again_file] at restarted
    cases cut.symm.trans restarted
  | startsCompletion c request random between first stored header beat =>
    exact ⟨c, request, random, _, _, _, rfl, first, stored, header, between, beat⟩
  | continuesCompletion c random left inside =>
    exact absurd inside ((sound.again i cut).1 left)

/-- A slot that is in use by another read than that of the head is still needed: the read is
unanswered, or completions of it are in the queue. -/
theorem occupant (sound : s.Sound q []) {i : Nat} {c : CompletionPacket}
    (first : q.head? = some (i, c)) (lost : s.owner c.slot ≠ i)
    (busy : s.engine.slots.isBusy c.slot) :
    (∃ r, s.reads[s.owner c.slot]? = some r ∧ r.slot = c.slot ∧ r.answer = none) ∨
      ∃ d ∈ s.engine.completions.items.tail, d.slot = c.slot := by
  obtain ⟨r, -, taken, slot, -⟩ := sound.request?_of_mem (List.mem_of_head? first)
  have holds : s.Holds (s.owner c.slot) r.slot := ⟨congrArg s.owner slot, slot ▸ busy⟩
  cases sound.progress _ r taken with
  | waiting unseen =>
    exact .inl ⟨r, taken, slot, unseen.resolve_right List.not_mem_nil⟩
  | failed _ _ _ _ released => exact absurd holds released
  | served a n _ _ _ released _ queued =>
    right
    obtain ⟨d, member⟩ := List.exists_mem_of_ne_nil _ fun none_ => released none_ holds
    have listed := (OwnedQueue.mem_ofRead_iff ..).1 member
    refine ⟨d, ?_, (queued.carries_of_mem member).slot.trans slot⟩
    rw [sound.queue, OwnedQueue.packets, ← List.map_tail]
    cases q with
    | nil => cases first
    | cons x rest =>
      rcases List.mem_cons.1 listed with rfl | later
      · exact absurd (congrArg Prod.fst (Option.some.inj first)) lost
      · exact List.mem_map_of_mem later

/-- If a completion is started again although its slot has gone to another read, then either it
goes out under the names of that read, or that read loses its slot. -/
theorem not_intact_of_displaced (sound : s.Sound q []) {result : EngineStep (Option Flit)}
    (sends : s.engine.Sends result) (displaced : s.Displaced)
    (restarted : (s.observe s.engine.completions.front? result).again = none) :
    ¬ (s.observe s.engine.completions.front? result).Intact := by
  obtain ⟨i, c, r, r', cut, front, read, lost, taken, bad⟩ := displaced
  obtain ⟨c', request, random, f, e, effects, rfl, front', stored, header, between, beat⟩ :=
    sound.startsCompletion_of_again sends cut restarted
  obtain rfl : c = c' := Option.some.inj (front.symm.trans front')
  obtain ⟨-, c', first⟩ := sound.again i cut
  obtain rfl : c = c' := by
    rw [sound.front?_eq, first] at front
    exact (Option.some.inj front).symm
  obtain ⟨d, a, found, -, -, -, -, carries, -⟩ := sound.head_carries first
  obtain rfl : d = r := Option.some.inj (found.symm.trans read)
  rw [← carries.slot] at lost taken bad
  have part : s.partOf c = ⟨i, c.startDword, c.isLast⟩ := by
    rw [Session.partOf, cut, Option.getD_some]
  have kind := c.isCompletion_header request
  have next : s.observe s.engine.completions.front? (.ok e (some f) effects) =
      Session.file { s with engine := e, fault := none, again := none }
        (ReceivedPacket.extend ⟨c.header request, some (s.partOf c), []⟩ f HeaderWords.count)
        f.last := by
    have current : Session.current { s with engine := e, fault := none } = none :=
      sound.streaming.current_of_start between
    rw [front]
    exact Session.receive_of_completion current header kind
  rw [next]
  intro intact
  obtain ⟨r'', member, taken', -, kept⟩ := sound.request?_of_mem (List.mem_of_head? first)
  obtain rfl : r' = r'' := Option.some.inj (taken.symm.trans taken')
  obtain rfl : r'.stored = request := Option.some.inj (kept.symm.trans stored)
  have names : r'.header.SameOrigin d.header c.startDword := by
    obtain ⟨_, r'', _, is, found', -, names, -⟩ := intact.named _ (mem_file ..) kind
    obtain rfl := Option.some.inj is
    rw [part, reads_file] at found'
    rw [part] at names
    obtain rfl : d = r'' := Option.some.inj (read.symm.trans found')
    exact (c.completes_header r'.header carries.first (sound.admitted r' member).body).sameOrigin
      names
  have busy := bad.resolve_right (not_not_intro names)
  have last : c.isLast := by
    by_contra more
    exact lost ((sound.head _ first).2 fun both => more both.2).1
  have slots : e.slots = s.engine.slots.release c.slot :=
    (congrArg Engine.slots beat.state).trans (if_pos last)
  have free {slot : Nat} (same : slot = c.slot) : ¬ e.slots.isBusy slot := by
    rw [slots, same, SlotPool.isBusy_release]
    simp
  rcases sound.occupant first lost busy with ⟨r'', taken', slot, none_⟩ | ⟨d', waits, slot⟩
  · have holds := intact.unanswered _ r'' (by rw [reads_file]; exact taken') none_
    rw [Session.Holds, engine_file] at holds
    exact free slot holds.2
  · have queue : e.completions =
        if f.last then s.engine.completions.tail else s.engine.completions :=
      congrArg Engine.completions beat.state
    cases ends : f.last with
    | false =>
      have queued := intact.queued d'
      rw [engine_file] at queued
      change d' ∈ e.completions.items.tail → e.slots.isBusy d'.slot at queued
      rw [queue, ends] at queued
      exact free slot (queued waits)
    | true =>
      rw [ends] at intact queue
      have between : e.toDevice = .start :=
        (congrArg Engine.toDevice beat.state).trans (if_pos ends)
      have idle : ¬ Session.Started (Session.file { s with
          engine := e
          fault := none
          again := none }
          (ReceivedPacket.extend ⟨c.header r'.stored, some (s.partOf c), []⟩ f HeaderWords.count)
          true) := by
        rintro (cut | ⟨left, inside⟩)
        · cases cut
        · cases between.symm.trans inside
      have busy := intact.isBusy_of_idle idle (c := d') (by
        rw [engine_file]
        exact queue ▸ waits)
      exact free slot busy

theorem not_misdirects (sound : s.Sound q owed) {m : Move} (next : (s.step m).Intact) :
    ¬ s.Misdirects m := by
  cases m with
  | emit cycle ready =>
    rintro ⟨displaced, restarted⟩
    have ⟨i, _, _, _, cut, _⟩ := displaced
    obtain ⟨q', owed', collected, -, all⟩ := sound.collect cycle
    change (s.collect cycle).Sound q' owed' at collected
    change (s.emit cycle ready).Intact at next
    rcases s.emit_cases cycle ready with
      halted | ⟨fault, -, stopped⟩ | ⟨answer, quiet | ⟨effects, sent⟩⟩
    · rw [halted] at restarted
      cases cut.symm.trans restarted
    · rw [stopped] at restarted
      cases cut.symm.trans restarted
    · rw [quiet] at restarted
      cases cut.symm.trans restarted
    · obtain rfl := all answer
      have sends := (Engine.sendBeat_sends _ collected.sendable).after effects
      rw [sent] at restarted next
      exact collected.not_intact_of_displaced sends displaced restarted next
  | _ => exact id

theorem take (config : ValidParameters) (options : Switches) (random : DrawSource)
    (moves : List Move) (n : Nat)
    (clear : ∀ k m, k < n → moves[k]? = some m →
      ¬ ((Session.start config options random).run (moves.take k)).Misdirects m) :
    ∃ q owed, ((Session.start config options random).run (moves.take n)).Sound q owed := by
  apply (Sound.start config options random).run
  intro k m found
  have before : k < n := by
    have inside := (List.getElem?_eq_some_iff.1 found).1
    rw [List.length_take] at inside
    exact Nat.lt_of_lt_of_le inside (Nat.min_le_left ..)
  rw [List.getElem?_take_of_lt before] at found
  rw [List.take_take, Nat.min_eq_left (Nat.le_of_lt before)]
  exact clear k m before found

end Sound

/-- Through resets at any moments, reads stay intact exactly as long as no completion is started
again after its slot has gone to another read. -/
theorem run_intact_iff (config : ValidParameters) (options : Switches) (random : DrawSource)
    (moves : List Move) :
    (∀ n, ((Session.start config options random).run (moves.take n)).Intact) ↔
      ∀ n m, moves[n]? = some m →
        ¬ ((Session.start config options random).run (moves.take n)).Misdirects m := by
  constructor
  · intro intact n
    induction n using Nat.strong_induction_on with
    | h n ih =>
      intro m found
      obtain ⟨q, owed, sound⟩ := Sound.take config options random moves n fun k m' before found' =>
        ih k before m' found'
      have next := intact (n + 1)
      rw [List.take_add_one, found, Option.toList_some, Session.run_append] at next
      exact sound.not_misdirects next
  · intro clear n
    obtain ⟨q, owed, sound⟩ := Sound.take config options random moves n fun k m _ found =>
      clear k m found
    exact sound.intact

/-- Between its header and its data a completion is cut off, and a second read takes its slot: the
completion comes again for the second requester, whose answer then finds no read. -/
example :
    let config : ValidParameters := ⟨{ dataWidth := 256 }, by decide⟩
    let read (requester : UInt16) : Flit :=
      { (Flit.blank 256 10).storing
          { fmtType := .memRead32, byteSize := 4, requesterId := requester
            body := .request { addr := 0x1000, firstEnable := 0xf } } with
        last := true }
    let moves : List Move :=
      [.accept 1 (read 7), .answerRead 0 ⟨0, .valid, 0, 0, [1, 2, 3, 4]⟩, .emit 2 true,
        .accept 3 (read 9), .reset, .emit 4 true, .emit 5 true,
        .answerRead 1 ⟨0, .valid, 0, 0, [5, 6, 7, 8]⟩, .emit 6 true]
    let s := (Session.start config { unlimitedBandwidth := true } .fullBandwidth).run moves
    s.bytesOf 0 = [1, 2, 3, 4] ∧ s.received.map (·.header.requesterId) = [9] ∧
      s.fault = some (.protocol 6 (.readResponseTag 0) none) := by
  decide +kernel

end TlpBridge.Session

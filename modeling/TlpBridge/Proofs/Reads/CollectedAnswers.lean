import TlpBridge.Proofs.Reads.SoundSessions

/-!
# Collected answers

The engine takes the answers of host memory before it sends a beat. Each answer belongs
to one read, whose slot still holds it: a valid one becomes completions in the queue,
any other frees the slot.
-/
namespace TlpBridge

namespace EngineStep

/-- The call breaks no rule of the protocol. -/
def KeepsRules {α : Type} (s : EngineStep α) : Prop :=
  ∀ cycle v h, s.answer ≠ .error (.protocol cycle v h)

theorem keepsRules_ok {α : Type} (e : Engine) (a : α) (effects : List Effect) :
    (EngineStep.ok e a effects).KeepsRules := by
  intro cycle v h broken
  cases broken

theorem keepsRules_disconnected {α : Type} (e : Engine) (effects : List Effect) :
    KeepsRules (⟨.error .disconnected, e, effects⟩ : EngineStep α) := by
  intro cycle v h broken
  cases broken

theorem keepsRules_memoryAccess {α : Type} (op : DmaOp) (status : AccessStatus) (pa va : UInt64)
    (e : Engine) (effects : List Effect) :
    KeepsRules (⟨.error (.memoryAccess op status pa va), e, effects⟩ : EngineStep α) := by
  intro cycle v h broken
  cases broken

theorem KeepsRules.andThen {α β : Type} {s : EngineStep α} {f : α → Engine → EngineStep β}
    (first : s.KeepsRules) (second : ∀ a, s.answer = .ok a → (f a s.state).KeepsRules) :
    (s.andThen f).KeepsRules := by
  intro cycle v h broken
  unfold EngineStep.andThen at broken
  cases answer : s.answer with
  | error fault =>
    simp only [answer] at broken
    exact first cycle v h (answer.trans (by rw [Except.error.inj broken]))
  | ok a =>
    simp only [answer] at broken
    exact second a answer cycle v h broken

end EngineStep

namespace Engine

theorem collectWrites_spec (n : Nat) (e : Engine) :
    e.SameReads (collectWrites n e).state ∧ (collectWrites n e).KeepsRules := by
  induction n generalizing e with
  | zero => exact ⟨.refl e, EngineStep.keepsRules_ok _ _ _⟩
  | succ n ih =>
    unfold collectWrites MemoryLink.receiveWrite
    cases waiting : e.link.writeResponses with
    | nil =>
      cases e.link.serviceAttached with
      | true => exact ⟨.refl e, EngineStep.keepsRules_ok _ _ _⟩
      | false => exact ⟨.refl e, EngineStep.keepsRules_disconnected _ _⟩
    | cons a rest =>
      let e' := { e with
        link := { e.link with writeResponses := rest }
        pendingWrites := e.pendingWrites - 1 }
      have same : e.SameReads e' := .of_eq rfl
      simp only [MemoryLink.receive]
      split
      · exact ⟨same.trans (ih e').1, (ih e').2⟩
      · exact ⟨same, EngineStep.keepsRules_memoryAccess _ _ _ _ _ _⟩

/-- The engine once the first answer to a read is out of the link. -/
def withoutAnswer (e : Engine) (rest : List ReadResponse) : Engine :=
  { e with link := { e.link with readResponses := rest }, pendingReads := e.pendingReads - 1 }

theorem receiveRead_eq (e : Engine) (a : ReadResponse) {h : Header}
    (busy : e.slots.isBusy a.tag.toNat) (stored : e.slots.request? a.tag.toNat = some h) :
    e.receiveRead a = if a.status = .valid then e.queueRead a.tag.toNat h a.data
      else ⟨.error (.memoryAccess .read a.status a.pa a.va),
        { e with slots := e.slots.release a.tag.toNat },
        [.report (.accessRefused .read a.status a.pa a.va)]⟩ := by
  have request : ((e.slots.states[a.tag.toNat]?).bind
      fun st => if st.busy then st.request else none) = some h := by
    unfold SlotPool.isBusy at busy
    unfold SlotPool.request? at stored
    cases state : e.slots.states[a.tag.toNat]? with
    | none => simp [state] at stored
    | some st =>
      rw [state] at busy stored
      exact (if_pos busy).trans stored
  simp only [receiveRead, request]

theorem queueRead_eq (e : Engine) (slot : Nat) {h : Header} {r : RequestBody}
    {data : List UInt8} (completable : h.Completable r)
    (length : data.length = if h.isFence r then 0 else h.byteSize.toNat) :
    e.queueRead slot h data =
      .ok (e.queuePackets slot h r (paddedDwords h.dwordSize data) h.dwordSize 0
        (ByteEnable.remaining h.dwordSize r.firstEnable r.lastEnable 0)) () := by
  obtain ⟨count, counted, -⟩ := completable.counted
  have request : h.request?.getD {} = r := by
    rw [Header.request?, completable.body]
    rfl
  unfold queueRead
  simp only [request, ← length, ne_eq, not_true_eq_false, if_false, counted,
    ByteEnable.remaining, if_true, Option.getD_some]

end Engine

namespace Session.Sound

variable {s : Session} {q : OwnedQueue} {owed : List Nat}

theorem holds_of_due (sound : s.Sound q owed) {i : Nat} {r : DeviceRead} {a : ReadResponse}
    (due : i ∈ owed) (read : s.reads[i]? = some r) (answer : r.answer = some a) :
    a.tag.toNat = r.slot ∧ s.Holds i r.slot ∧
      s.engine.slots.request? r.slot = some r.stored ∧ q.ofRead i = [] ∧ s.wholeOf i = [] := by
  have member := List.mem_of_getElem? read
  have tag := ((sound.admitted r member).answered a answer).1
  cases sound.progress i r read with
  | waiting _ holds unqueued unsent =>
    obtain ⟨r', taken, -, stored⟩ := sound.kept r member
    rw [holds.1] at taken
    obtain rfl : r = r' := Option.some.inj (read.symm.trans taken)
    exact ⟨congrArg UInt16.toNat tag, holds, stored, unqueued, unsent⟩
  | failed _ _ seen => exact absurd due seen
  | served _ _ _ seen => exact absurd due seen

theorem first_answer (sound : s.Sound q owed) {a : ReadResponse} {rest : List ReadResponse}
    (waiting : s.engine.link.readResponses = a :: rest) : ∃ i owed' r, owed = i :: owed' ∧
      rest.map some = (owed'.map fun j => (s.reads[j]?).bind (·.answer)) ∧
      s.reads[i]? = some r ∧ r.answer = some a ∧ a.tag.toNat = r.slot ∧ s.Holds i r.slot ∧
      s.engine.slots.request? r.slot = some r.stored ∧ q.ofRead i = [] ∧ s.wholeOf i = [] := by
  have responses := sound.responses
  rw [waiting, List.map_cons] at responses
  cases owed with
  | nil => cases responses
  | cons i owed' =>
    rw [List.map_cons, List.cons.injEq] at responses
    obtain ⟨r, read, answer⟩ := Option.bind_eq_some_iff.1 responses.1.symm
    exact ⟨i, owed', r, rfl, responses.2, read, answer,
      sound.holds_of_due List.mem_cons_self read answer⟩

/-- The completions of a read join the queue behind its head, or as its head. -/
theorem joined {i : Nat} {r : DeviceRead} {a : ReadResponse} {rest : List ReadResponse}
    {q' : OwnedQueue} {cs : List CompletionPacket} {random : DrawSource}
    {completions : OvertakingQueue CompletionPacket} (sound : s.Sound q (i :: owed))
    (responses : rest.map some = owed.map fun j => (s.reads[j]?).bind (·.answer))
    (read : s.reads[i]? = some r) (answer : r.answer = some a) (valid : a.status = .valid)
    (holds : s.Holds i r.slot) (unqueued : q.ofRead i = []) (unsent : s.wholeOf i = [])
    (queue : completions.items = q'.packets) (joins : Joins q i cs q')
    (range : CarriesRange r.slot r.stored (r.words a) 0 cs r.stored.dwordSize)
    (encodable : ∀ c ∈ completions.items, c ∈ s.engine.completions.items ∨ c.Encodable) :
    Session.Sound { s with
      engine := { s.engine.withoutAnswer rest with
        random := random
        completions := completions } } q' owed := by
  have fresh : i ∉ owed := (List.nodup_cons.1 sound.owedOnce).1
  have queued : q'.ofRead i = cs := by
    rw [joins.own, unqueued]
    rfl
  have own {x : Nat × CompletionPacket} (member : x ∈ q') (mine : x.1 = i) :
      s.Holds x.1 x.2.slot := by
    have there := (OwnedQueue.mem_ofRead_iff q' x.1 x.2).2 member
    rw [mine, queued] at there
    rw [mine, (range.carries_of_mem there).slot]
    exact holds
  refine { sound with
    responses := responses
    owedOnce := (List.nodup_cons.1 sound.owedOnce).2
    pending := ?pending
    queue := queue
    encodable := ?encodable
    known := ?known
    tail := ?tail
    head := ?head
    progress := ?progress
    streaming := ?streaming
    again := ?again }
  case pending =>
    have pending := sound.pending
    rw [List.length_cons] at pending
    change s.engine.pendingReads - 1 = s.reads.countP (·.answer.isNone) + owed.length
    omega
  case encodable =>
    intro x member
    have there : x.2 ∈ completions.items := by
      rw [queue]
      exact List.mem_map_of_mem member
    rcases encodable x.2 there with old | new
    · rw [sound.queue] at old
      obtain ⟨y, earlier, same⟩ := List.mem_map.1 old
      exact same ▸ sound.encodable y earlier
    · exact new
  case known =>
    intro x member
    rcases joins.mem member with old | mine
    · exact sound.known x old
    · rw [mine]
      exact (List.getElem?_eq_some_iff.1 read).1
  case tail =>
    intro x member
    rcases joins.tail x member with old | mine
    · exact sound.tail x old
    · exact own (List.mem_of_mem_tail member) mine
  case head =>
    intro x first
    change s.Holds x.1 x.2.slot ↔ ¬ (s.Started ∧ x.2.isLast)
    cases before : q.head? with
    | some y =>
      obtain rfl : y = x := Option.some.inj ((joins.head y before).symm.trans first)
      exact sound.head y before
    | none =>
      obtain rfl := List.head?_eq_none_iff.1 before
      have mine : x.1 = i := (joins.mem (List.mem_of_head? first)).resolve_left (by simp)
      have idle : ¬ s.Started := by
        intro started
        obtain ⟨y, head⟩ := sound.head_of_started started
        cases head
      exact iff_of_true (own (List.mem_of_head? first) mine) fun both => idle both.1
  case progress =>
    intro j d found
    by_cases mine : j = i
    · subst mine
      obtain rfl : r = d := Option.some.inj (read.symm.trans found)
      refine .served a 0 answer fresh valid ?_ ?_ ?_
      · intro none_
        have done : 0 = r.stored.dwordSize := by
          rw [queued] at none_
          rw [none_] at range
          exact range
        have positive := (sound.admitted r (List.mem_of_getElem? read)).completable.nonempty
        rw [Header.dwordSize] at done
        omega
      · exact (show s.wholeOf j = [] from unsent) ▸ rfl
      · rw [queued]
        exact range
    · exact (sound.progress j d found).congr Iff.rfl rfl (joins.others j mine)
        (by simp [mine])
  case streaming =>
    exact sound.streaming.congr rfl (List.prefix_refl _) rfl rfl (fun _ d found => ⟨d, found, rfl⟩)
      joins.head
  case again =>
    intro k again
    obtain ⟨outside, c, head⟩ := sound.again k again
    exact ⟨outside, c, joins.head _ head⟩

/-- The completions of a valid answer join the queue. -/
theorem receive_valid (sound : s.Sound q owed) {a : ReadResponse} {rest : List ReadResponse}
    (waiting : s.engine.link.readResponses = a :: rest) (valid : a.status = .valid) :
    ∃ e q' owed', (s.engine.withoutAnswer rest).receiveRead a = .ok e () ∧
      Session.Sound { s with engine := e } q' owed' ∧ e.link.readResponses = rest := by
  obtain ⟨i, owed', r, rfl, responses, read, answer, slot, holds, stored, unqueued, unsent⟩ :=
    sound.first_answer waiting
  have admitted := sound.admitted r (List.mem_of_getElem? read)
  have completable := admitted.completable
  have length : a.data.length =
      if r.stored.isFence r.completedBody then 0 else r.stored.byteSize.toNat := by
    rw [← admitted.expected]
    exact (admitted.answered a answer).2 valid
  have received := (s.engine.withoutAnswer rest).receiveRead_eq a (h := r.stored)
    (by rw [slot]; exact holds.2) (by rw [slot]; exact stored)
  rw [if_pos valid, slot, Engine.queueRead_eq _ _ completable length] at received
  obtain ⟨q', cs, queue, joins, range, only⟩ := Engine.carriesRange_queuePackets r.slot r.stored
    r.completedBody (r.words a) r.stored.dwordSize 0
    (ByteEnable.remaining r.stored.dwordSize r.completedBody.firstEnable
      r.completedBody.lastEnable 0)
    (s.engine.withoutAnswer rest) (q := q) (i := i) (Nat.le_refl _) (Nat.zero_le _) sound.queue
    (by simp [unqueued])
  have encodable := Engine.encodable_queuePackets completable r.slot (r.words a)
    (s.engine.withoutAnswer rest)
  change (s.engine.withoutAnswer rest).receiveRead a = .ok
    (Engine.queuePackets r.slot r.stored r.completedBody (r.words a) r.stored.dwordSize 0
      (ByteEnable.remaining r.stored.dwordSize r.completedBody.firstEnable
        r.completedBody.lastEnable 0) (s.engine.withoutAnswer rest)) () at received
  generalize Engine.queuePackets r.slot r.stored r.completedBody (r.words a) r.stored.dwordSize 0
    (ByteEnable.remaining r.stored.dwordSize r.completedBody.firstEnable
      r.completedBody.lastEnable 0) (s.engine.withoutAnswer rest) = e
      at received queue only encodable
  refine ⟨e, q', owed', received, ?_, ?_⟩
  · obtain ⟨random, completions, rfl⟩ : ∃ random completions, e =
        { s.engine.withoutAnswer rest with random := random, completions := completions } :=
      ⟨_, _, only⟩
    exact sound.joined responses read answer valid holds unqueued unsent queue joins range
      encodable
  · exact congrArg (fun e : Engine => e.link.readResponses) only

theorem holds_release {i j slot : Nat} (owner : s.owner slot = i) (other : j ≠ i) (k : Nat) :
    (s.owner k = j ∧ (s.engine.slots.release slot).isBusy k) ↔ s.Holds j k := by
  rw [SlotPool.isBusy_release, Session.Holds]
  by_cases same : k = slot
  · have not_owner : s.owner k ≠ j := by
      rw [same, owner]
      exact Ne.symm other
    simp [not_owner]
  · simp [same]

/-- A read that host memory refuses gives its slot back. -/
theorem receive_refused (sound : s.Sound q owed) {a : ReadResponse} {rest : List ReadResponse}
    (waiting : s.engine.link.readResponses = a :: rest) (refused : a.status ≠ .valid) :
    ∃ e owed', ((s.engine.withoutAnswer rest).receiveRead a).answer =
        .error (.memoryAccess .read a.status a.pa a.va) ∧
      ((s.engine.withoutAnswer rest).receiveRead a).state = e ∧
      Session.Sound { s with engine := e } q owed' := by
  obtain ⟨i, owed', r, rfl, responses, read, answer, slot, holds, stored, unqueued, unsent⟩ :=
    sound.first_answer waiting
  have received := (s.engine.withoutAnswer rest).receiveRead_eq a (h := r.stored)
    (by rw [slot]; exact holds.2) (by rw [slot]; exact stored)
  rw [if_neg refused, slot] at received
  rw [received]
  refine ⟨_, owed', rfl, rfl, ?_⟩
  have fresh : i ∉ owed' := (List.nodup_cons.1 sound.owedOnce).1
  have apart {x : Nat × CompletionPacket} (member : x ∈ q) : x.1 ≠ i := by
    rintro rfl
    have there := (OwnedQueue.mem_ofRead_iff q x.1 x.2).2 member
    rw [unqueued] at there
    exact absurd there List.not_mem_nil
  refine { sound with
    size := ?size
    free := SlotPool.freeExist_release sound.free r.slot
    kept := ?kept
    responses := responses
    owedOnce := (List.nodup_cons.1 sound.owedOnce).2
    pending := ?pending
    tail := ?tail
    head := ?head
    progress := ?progress
    streaming := ?streaming }
  case size => exact (SlotPool.size_release ..).trans sound.size
  case kept =>
    intro d member
    obtain ⟨d', taken, same, kept⟩ := sound.kept d member
    exact ⟨d', taken, same, (SlotPool.request?_release ..).trans kept⟩
  case pending =>
    have pending := sound.pending
    rw [List.length_cons] at pending
    change s.engine.pendingReads - 1 = s.reads.countP (·.answer.isNone) + owed'.length
    omega
  case tail =>
    intro x member
    exact (holds_release holds.1 (apart (List.mem_of_mem_tail member)) _).2 (sound.tail x member)
  case head =>
    intro x first
    exact (holds_release holds.1 (apart (List.mem_of_head? first)) _).trans (sound.head x first)
  case progress =>
    intro j d found
    by_cases mine : j = i
    · subst mine
      obtain rfl : r = d := Option.some.inj (read.symm.trans found)
      refine .failed a answer fresh refused ?_ unqueued unsent
      rintro ⟨-, busy⟩
      change (s.engine.slots.release r.slot).isBusy r.slot at busy
      simp [SlotPool.isBusy_release] at busy
    · exact (sound.progress j d found).congr (holds_release holds.1 mine _) rfl rfl (by simp [mine])
  case streaming =>
    exact sound.streaming.congr rfl (List.prefix_refl _) rfl rfl (fun _ d found => ⟨d, found, rfl⟩)
      fun _ first => first

/-- Whatever host memory has answered, the engine takes it in without breaking a rule; and if it
takes all of it, no answer is left over. -/
theorem collectReads (n : Nat) (sound : s.Sound q owed) :
    ∃ q' owed', Session.Sound { s with engine := (s.engine.collectReads n).state } q' owed' ∧
      (s.engine.collectReads n).KeepsRules ∧
      ((s.engine.collectReads n).answer = .ok () → s.engine.link.readResponses.length ≤ n →
        owed' = []) := by
  induction n generalizing s q owed with
  | zero =>
    refine ⟨q, owed, sound, EngineStep.keepsRules_ok _ _ _, fun _ few => ?_⟩
    have responses := congrArg List.length sound.responses
    rw [List.length_map, List.length_map] at responses
    exact List.eq_nil_of_length_eq_zero (responses.symm.trans (Nat.le_zero.1 few))
  | succ n ih =>
    cases waiting : s.engine.link.readResponses with
    | nil =>
      have looked : s.engine.collectReads (n + 1) = .ok s.engine () := by
        unfold Engine.collectReads MemoryLink.receiveRead
        rw [waiting, sound.attached.2]
        rfl
      rw [looked]
      refine ⟨q, owed, sound, EngineStep.keepsRules_ok _ _ _, fun _ _ => ?_⟩
      have responses := congrArg List.length sound.responses
      rw [waiting, List.length_map, List.length_map] at responses
      exact List.eq_nil_of_length_eq_zero responses.symm
    | cons a rest =>
      have looked : s.engine.collectReads (n + 1) =
          ((s.engine.withoutAnswer rest).receiveRead a).andThen fun () e =>
            Engine.collectReads n e := by
        conv_lhs => unfold Engine.collectReads MemoryLink.receiveRead
        rw [waiting]
        rfl
      rw [looked]
      by_cases valid : a.status = .valid
      · obtain ⟨e, q', owed', received, next, left⟩ := sound.receive_valid waiting valid
        rw [received]
        obtain ⟨q'', owed'', last, keeps, all⟩ := ih next
        refine ⟨q'', owed'', last, ?_, ?_⟩
        · exact keeps
        · intro ok few
          apply all ok
          change e.link.readResponses.length ≤ n
          rw [left]
          exact Nat.le_of_succ_le_succ few
      · obtain ⟨e, owed', answer, state, next⟩ := sound.receive_refused waiting valid
        refine ⟨q, owed', ?_, ?_, ?_⟩
        · unfold EngineStep.andThen
          rw [answer, state]
          exact next
        · apply EngineStep.KeepsRules.andThen
          · intro cycle v h broken
            rw [answer] at broken
            cases broken
          · intro u ok
            rw [answer] at ok
            cases ok
        · intro ok
          unfold EngineStep.andThen at ok
          simp only [answer] at ok
          cases ok

/-- What the engine does before it sends a beat. -/
theorem collect (sound : s.Sound q owed) (cycle : Nat) :
    ∃ q' owed', Session.Sound { s with engine := (s.engine.collect cycle).state } q' owed' ∧
      (s.engine.collect cycle).KeepsRules ∧
      ((s.engine.collect cycle).answer = .ok () → owed' = []) := by
  have tick : s.engine.SameReads { s.engine with cycle := cycle } := .of_eq rfl
  obtain ⟨same, keeps⟩ :=
    Engine.collectWrites_spec s.engine.pendingWrites { s.engine with cycle := cycle }
  unfold Engine.collect
  generalize Engine.collectWrites s.engine.pendingWrites { s.engine with cycle := cycle } = w
    at same keeps ⊢
  have written := sound.sameReads (tick.trans same)
  cases answer : w.answer with
  | error fault =>
    have stopped : w.andThen (fun () e => e.collectReads e.pendingReads) =
        ⟨.error fault, w.state, w.events⟩ := by
      simp only [EngineStep.andThen, answer]
    rw [stopped]
    refine ⟨q, owed, written, ?_, fun ok => nomatch ok⟩
    intro c v h broken
    exact keeps c v h (answer.trans broken)
  | ok u =>
    have goes : w.andThen (fun () e => e.collectReads e.pendingReads) =
        (w.state.collectReads w.state.pendingReads).after w.events := by
      simp only [EngineStep.andThen, answer]
    rw [goes]
    obtain ⟨q', owed', last, rules, all⟩ := written.collectReads w.state.pendingReads
    refine ⟨q', owed', last, rules, fun ok => all ok ?_⟩
    have responses := congrArg List.length written.responses
    rw [List.length_map, List.length_map] at responses
    have pending := written.pending
    change w.state.link.readResponses.length = owed.length at responses
    change w.state.pendingReads = _ + owed.length at pending
    change w.state.link.readResponses.length ≤ w.state.pendingReads
    omega

end Session.Sound

end TlpBridge

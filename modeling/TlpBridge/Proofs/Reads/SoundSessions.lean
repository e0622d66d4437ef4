import TlpBridge.Proofs.Reads.ReceivedReads

/-!
# Sound sessions

What holds between the engine, the reads that it has accepted and the packets that the
device has got. Every completion in the queue is given the number of its read, and every
answer that waits in the link the number of the read that it answers.
-/
namespace TlpBridge

namespace DeviceRead

/-- The request as it was sent. -/
def body (r : DeviceRead) : RequestBody := r.header.request?.getD {}

/-- The header that is kept for the completions. -/
def stored (r : DeviceRead) : Header := r.header.stored r.body

/-- The request as it is completed. -/
def completedBody (r : DeviceRead) : RequestBody := r.header.effectiveRequest r.body

/-- A read that has passed the checks, and the answer to it if there is one. -/
structure Admitted (r : DeviceRead) (slots : Nat) : Prop where
  body : r.header.body = .request r.body
  completable : r.stored.Completable r.completedBody
  slot : r.slot < slots
  expected : r.request.dataBytes =
    if r.stored.isFence r.completedBody then 0 else r.stored.byteSize.toNat
  answered : ∀ a, r.answer = some a →
    a.tag = r.request.tag ∧ (a.status = .valid → a.data.length = r.request.dataBytes)

/-- The data of an answer in the DWORDs of which the completions are made. -/
def words (r : DeviceRead) (a : ReadResponse) : List UInt32 :=
  paddedDwords r.stored.dwordSize a.data

theorem dwordSize_stored (r : DeviceRead) : r.stored.dwordSize = r.dwordSize := by
  rw [Header.dwordSize, stored, Header.toNat_byteSize_stored]
  rfl

theorem length_words (r : DeviceRead) (a : ReadResponse) :
    (r.words a).length = r.stored.dwordSize := length_paddedDwords ..

end DeviceRead

namespace Session

/-- The slot is in use by the read. -/
def Holds (s : Session) (i slot : Nat) : Prop := s.owner slot = i ∧ s.engine.slots.isBusy slot

/-- The whole packets that complete parts of a read. -/
def wholeOf (s : Session) (i : Nat) : List ReceivedPacket := s.received.filter (·.completes i)

/-- The completion at the head of the queue is on its way, or it was until a reset. -/
def Started (s : Session) : Prop := s.again.isSome ∨ ∃ left, s.engine.toDevice = .completion left

/-- How far a read has come. -/
inductive Progress (s : Session) (q : OwnedQueue) (owed : List Nat) (i : Nat) (r : DeviceRead) :
    Prop where
  /-- The engine has not seen an answer. -/
  | waiting (unseen : r.answer = none ∨ i ∈ owed) (holds : s.Holds i r.slot)
    (unqueued : q.ofRead i = []) (unsent : s.wholeOf i = [])
  | failed (a : ReadResponse) (answer : r.answer = some a) (seen : i ∉ owed)
    (status : a.status ≠ .valid) (released : ¬ s.Holds i r.slot) (unqueued : q.ofRead i = [])
    (unsent : s.wholeOf i = [])
  /-- The data before DWORD `n` has been brought, that from there on is in the queue. -/
  | served (a : ReadResponse) (n : Nat) (answer : r.answer = some a) (seen : i ∉ owed)
    (status : a.status = .valid) (released : q.ofRead i = [] → ¬ s.Holds i r.slot)
    (brought : BringRange i r.header (r.words a) 0 (s.wholeOf i) n)
    (queued : CarriesRange r.slot r.stored (r.words a) n (q.ofRead i) r.stored.dwordSize)

/-- The device is where the engine takes it to be. -/
inductive Streaming (s : Session) (q : OwnedQueue) : Prop where
  | between (toDevice : s.engine.toDevice = .start) (current : s.current = none)
  | mmio (left : Nat) (p : ReceivedPacket) (toDevice : s.engine.toDevice = .mmio left)
    (current : s.current = some p) (part : p.part = none)
    (kind : p.header.fmtType.isCompletion = false) (waiting : s.engine.mmioQueue ≠ [])
  | completion (left i : Nat) (c : CompletionPacket) (p : ReceivedPacket) (r : DeviceRead)
    (toDevice : s.engine.toDevice = .completion left) (current : s.current = some p)
    (head : q.head? = some (i, c)) (again : s.again = none) (read : s.reads[i]? = some r)
    (brings : p.Brings i r.header c.data c.startDword)
    (size : p.header.dwordSize = c.dwordSize) (rest : p.payload.length + left = c.dwordSize)

/-- A session in which nothing has gone wrong; `q` is the queue of completions with the number of
the read of each, `owed` has the numbers of the reads whose answers wait in the link. -/
structure Sound (s : Session) (q : OwnedQueue) (owed : List Nat) : Prop where
  attached : s.engine.link.engineAttached ∧ s.engine.link.serviceAttached
  size : s.engine.slots.states.size = s.engine.params.maxDmaReads
  free : s.engine.slots.FreeExist
  /-- A slot keeps the header of the read that took it last. -/
  kept : ∀ r ∈ s.reads, ∃ r', s.reads[s.owner r.slot]? = some r' ∧ r'.slot = r.slot ∧
    s.engine.slots.request? r.slot = some r'.stored
  admitted : ∀ r ∈ s.reads, r.Admitted s.engine.params.maxDmaReads
  responses : s.engine.link.readResponses.map some =
    owed.map fun i => (s.reads[i]?).bind (·.answer)
  owedOnce : owed.Nodup
  pending : s.engine.pendingReads = s.reads.countP (·.answer.isNone) + owed.length
  queue : s.engine.completions.items = q.packets
  encodable : ∀ x ∈ q, x.2.Encodable
  known : ∀ x ∈ q, x.1 < s.reads.length
  /-- The completions behind the head are of reads that hold their slots. -/
  tail : ∀ x ∈ q.tail, s.Holds x.1 x.2.slot
  /-- So is the head, unless the last completion of its read has been started. -/
  head : ∀ x, q.head? = some x → (s.Holds x.1 x.2.slot ↔ ¬ (s.Started ∧ x.2.isLast))
  progress : ∀ i r, s.reads[i]? = some r → s.Progress q owed i r
  streaming : s.Streaming q
  again : ∀ i, s.again = some i → (∀ left, s.engine.toDevice ≠ .completion left) ∧
    ∃ c, q.head? = some (i, c)
  numbered : ∀ p ∈ s.received, ∀ part, p.part = some part → part.read < s.reads.length
  attributed : ∀ p ∈ s.received, p.header.fmtType.isCompletion → p.part.isSome
  readable : s.unreadable = []
  /-- The last beat to the device can only have failed for an MMIO request. -/
  fault : ∀ cycle v h, s.fault = some (.protocol cycle v h) →
    ∃ (r : MmioRequest) (cause : EncodingError),
      (r.header s.engine.params).fault? = some cause ∧ v = .encoding cause

variable {s s' : Session} {q q' : OwnedQueue} {owed owed' : List Nat}

theorem Progress.congr {i : Nat} {r : DeviceRead} (progress : s.Progress q owed i r)
    (holds : s'.Holds i r.slot ↔ s.Holds i r.slot) (whole : s'.wholeOf i = s.wholeOf i)
    (queue : q'.ofRead i = q.ofRead i) (due : i ∈ owed' ↔ i ∈ owed) :
    s'.Progress q' owed' i r := by
  cases progress with
  | waiting unseen held unqueued unsent =>
    exact .waiting (unseen.imp_right due.2) (holds.2 held) (queue.trans unqueued)
      (whole.trans unsent)
  | failed a answer seen status released unqueued unsent =>
    exact .failed a answer (mt due.1 seen) status (mt holds.1 released) (queue.trans unqueued)
      (whole.trans unsent)
  | served a n answer seen status released brought queued =>
    refine .served a n answer (mt due.1 seen) status ?_ ?_ ?_
    · intro none_
      exact mt holds.1 (released (queue.symm.trans none_))
    · rw [whole]
      exact brought
    · rw [queue]
      exact queued

theorem Streaming.congr (streaming : s.Streaming q)
    (toDevice : s'.engine.toDevice = s.engine.toDevice)
    (mmioQueue : s.engine.mmioQueue <+: s'.engine.mmioQueue) (current : s'.current = s.current)
    (again : s'.again = s.again)
    (reads : ∀ (i : Nat) (r : DeviceRead), s.reads[i]? = some r →
      ∃ r' : DeviceRead, s'.reads[i]? = some r' ∧ r'.header = r.header)
    (head : ∀ x, q.head? = some x → q'.head? = some x) : s'.Streaming q' := by
  cases streaming with
  | between start none_ => exact .between (toDevice.trans start) (current.trans none_)
  | mmio left p inside open_ part kind waiting =>
    refine .mmio left p (toDevice.trans inside) (current.trans open_) part kind ?_
    intro none_
    rw [none_, List.prefix_nil] at mmioQueue
    exact waiting mmioQueue
  | completion left i c p r inside open_ first sent read brings size rest =>
    obtain ⟨r', read', same⟩ := reads i r read
    exact .completion left i c p r' (toDevice.trans inside) (current.trans open_) (head _ first)
      (again.trans sent) read' (same ▸ brings) size rest

namespace Streaming

theorem current_of_start (streaming : s.Streaming q) (between : s.engine.toDevice = .start) :
    s.current = none := by
  cases streaming with
  | between _ current => exact current
  | mmio _ _ toDevice => cases between.symm.trans toDevice
  | completion _ _ _ _ _ toDevice => cases between.symm.trans toDevice

theorem of_mmio (streaming : s.Streaming q) {left : Nat}
    (inside : s.engine.toDevice = .mmio left) : ∃ p, s.current = some p ∧ p.part = none ∧
      p.header.fmtType.isCompletion = false ∧ s.engine.mmioQueue ≠ [] := by
  cases streaming with
  | between toDevice => cases inside.symm.trans toDevice
  | mmio _ p _ current part kind waiting => exact ⟨p, current, part, kind, waiting⟩
  | completion _ _ _ _ _ toDevice => cases inside.symm.trans toDevice

theorem of_completion (streaming : s.Streaming q) {left : Nat}
    (inside : s.engine.toDevice = .completion left) : ∃ i c p r, s.current = some p ∧
      q.head? = some (i, c) ∧ s.again = none ∧ s.reads[i]? = some r ∧
      p.Brings i r.header c.data c.startDword ∧ p.header.dwordSize = c.dwordSize ∧
      p.payload.length + left = c.dwordSize := by
  cases streaming with
  | between toDevice => cases inside.symm.trans toDevice
  | mmio _ _ toDevice => cases inside.symm.trans toDevice
  | completion _ i c p r toDevice current head again read brings size rest =>
    cases inside.symm.trans toDevice
    exact ⟨i, c, p, r, current, head, again, read, brings, size, rest⟩

end Streaming

namespace Sound

theorem read_of_mem (sound : s.Sound q owed) {x : Nat × CompletionPacket} (member : x ∈ q) :
    ∃ r, s.reads[x.1]? = some r ∧ r ∈ s.reads :=
  ⟨_, List.getElem?_eq_getElem (sound.known x member), List.getElem_mem _⟩

theorem served_of_mem (sound : s.Sound q owed) {i : Nat} {c : CompletionPacket}
    (member : (i, c) ∈ q) : ∃ r a n, s.reads[i]? = some r ∧ r.answer = some a ∧ i ∉ owed ∧
      a.status = .valid ∧ BringRange i r.header (r.words a) 0 (s.wholeOf i) n ∧
      CarriesRange r.slot r.stored (r.words a) n (q.ofRead i) r.stored.dwordSize ∧
      c.Carries r.slot r.stored (r.words a) c.startDword := by
  obtain ⟨r, read, -⟩ := sound.read_of_mem member
  have queued : c ∈ q.ofRead i := (OwnedQueue.mem_ofRead_iff ..).2 member
  cases sound.progress i r read with
  | waiting unseen holds unqueued unsent =>
    rw [unqueued] at queued
    cases queued
  | failed a answer seen status released unqueued unsent =>
    rw [unqueued] at queued
    cases queued
  | served a n answer seen status released brought carried =>
    exact ⟨r, a, n, read, answer, seen, status, brought, carried, carried.carries_of_mem queued⟩

theorem request?_of_mem (sound : s.Sound q owed) {i : Nat} {c : CompletionPacket}
    (member : (i, c) ∈ q) : ∃ r ∈ s.reads, s.reads[s.owner c.slot]? = some r ∧
      r.slot = c.slot ∧ s.engine.slots.request? c.slot = some r.stored := by
  obtain ⟨r, a, n, read, -, -, -, -, -, carries⟩ := sound.served_of_mem member
  obtain ⟨r', taken, same, stored⟩ := sound.kept r (List.mem_of_getElem? read)
  rw [carries.slot]
  exact ⟨r', List.mem_of_getElem? taken, taken, same, stored⟩

theorem front?_eq (sound : s.Sound q owed) :
    s.engine.completions.front? = q.head?.map Prod.snd := by
  rw [OvertakingQueue.front?, sound.queue, OwnedQueue.packets, List.head?_map]

theorem wholeOf_eq_nil (sound : s.Sound q owed) {i : Nat} (outside : s.reads.length ≤ i) :
    s.wholeOf i = [] := by
  rw [Session.wholeOf, List.filter_eq_nil_iff]
  intro p member completes
  obtain ⟨part, is, rfl⟩ := (p.completes_iff i).1 completes
  exact absurd (sound.numbered p member part is) (Nat.not_lt_of_le outside)

theorem head_of_started (sound : s.Sound q owed) (started : s.Started) :
    ∃ x, q.head? = some x := by
  rcases started with again | ⟨left, inside⟩
  · obtain ⟨i, again⟩ := Option.isSome_iff_exists.1 again
    obtain ⟨-, c, head⟩ := sound.again i again
    exact ⟨(i, c), head⟩
  · obtain ⟨i, c, -, -, -, head, -⟩ := sound.streaming.of_completion inside
    exact ⟨(i, c), head⟩

/-- Nothing that the invariant speaks of changes while the side that serves reads stays. -/
theorem sameReads (sound : s.Sound q owed) {e : Engine} (same : s.engine.SameReads e) :
    Session.Sound { s with engine := e } q owed := by
  have holds (i slot : Nat) : Session.Holds { s with engine := e } i slot ↔ s.Holds i slot := by
    change s.owner slot = i ∧ e.slots.isBusy slot ↔ _
    rw [same.slots]
    rfl
  have started : Session.Started { s with engine := e } ↔ s.Started := by
    change s.again.isSome ∨ (∃ left, e.toDevice = .completion left) ↔ _
    rw [same.toDevice]
    rfl
  have params : e.params = s.engine.params := congrArg ValidParameters.params same.config
  constructor
  case attached =>
    change e.link.engineAttached ∧ e.link.serviceAttached
    rw [same.engineAttached, same.serviceAttached]
    exact sound.attached
  case size =>
    change e.slots.states.size = e.params.maxDmaReads
    rw [same.slots, params]
    exact sound.size
  case free =>
    change e.slots.FreeExist
    rw [same.slots]
    exact sound.free
  case kept =>
    intro r member
    change ∃ r', s.reads[s.owner r.slot]? = some r' ∧ r'.slot = r.slot ∧
      e.slots.request? r.slot = some r'.stored
    rw [same.slots]
    exact sound.kept r member
  case admitted =>
    change ∀ r ∈ s.reads, r.Admitted e.params.maxDmaReads
    rw [params]
    exact sound.admitted
  case responses =>
    change e.link.readResponses.map some = _
    rw [same.responses]
    exact sound.responses
  case owedOnce => exact sound.owedOnce
  case pending =>
    change e.pendingReads = _
    rw [same.pendingReads]
    exact sound.pending
  case queue =>
    change e.completions.items = _
    rw [same.completions]
    exact sound.queue
  case encodable => exact sound.encodable
  case known => exact sound.known
  case tail =>
    intro x member
    exact (holds ..).2 (sound.tail x member)
  case head =>
    intro x first
    rw [holds, started]
    exact sound.head x first
  case progress =>
    intro i r read
    exact (sound.progress i r read).congr (holds ..) rfl rfl Iff.rfl
  case streaming =>
    exact sound.streaming.congr same.toDevice same.mmioQueue rfl rfl
      (fun _ r read => ⟨r, read, rfl⟩) fun _ first => first
  case again =>
    intro i again
    change (∀ left, e.toDevice ≠ .completion left) ∧ _
    rw [same.toDevice]
    exact sound.again i again
  case numbered => exact sound.numbered
  case attributed => exact sound.attributed
  case readable => exact sound.readable
  case fault =>
    intro cycle v h failed
    obtain ⟨r, cause, refused, rfl⟩ := sound.fault cycle v h failed
    refine ⟨r, cause, ?_, rfl⟩
    change (r.header e.params).fault? = some cause
    rw [params]
    exact refused

theorem start (config : ValidParameters) (options : Switches) (random : DrawSource) :
    (Session.start config options random).Sound [] [] := by
  constructor
  case attached => exact ⟨rfl, rfl⟩
  case size => exact Array.size_replicate
  case free => exact SlotPool.freeExist_ofCount _ _
  case kept => exact fun r member => nomatch member
  case admitted => exact fun r member => nomatch member
  case responses => rfl
  case owedOnce => exact List.nodup_nil
  case pending => rfl
  case queue => rfl
  case encodable => exact fun x member => nomatch member
  case known => exact fun x member => nomatch member
  case tail => exact fun x member => nomatch member
  case head => exact fun x first => nomatch first
  case progress => exact fun i r read => nomatch read
  case streaming => exact .between rfl rfl
  case again => exact fun i again => nomatch again
  case numbered => exact fun p member => nomatch member
  case attributed => exact fun p member => nomatch member
  case readable => rfl
  case fault => exact fun cycle v h failed => nomatch failed

/-- After a reset, a completion that was on its way is the one to be sent again. -/
theorem reset (sound : s.Sound q owed) : s.reset.Sound q owed := by
  have again : (∀ left, s.engine.toDevice ≠ .completion left) ∧ s.reset.again = s.again ∨
      ∃ left i c, s.engine.toDevice = .completion left ∧ s.reset.again = some i ∧
        q.head? = some (i, c) := by
    cases sound.streaming with
    | between toDevice current =>
      refine .inl ⟨fun left inside => ?_, ?_⟩
      · rw [toDevice] at inside
        cases inside
      · simp only [Session.reset, current]
        rfl
    | mmio left p toDevice current part =>
      refine .inl ⟨fun left inside => ?_, ?_⟩
      · rw [toDevice] at inside
        cases inside
      · simp only [Session.reset, current, Option.bind_some, part]
        rfl
    | completion left i c p r toDevice current head again read brings =>
      refine .inr ⟨left, i, c, toDevice, ?_, head⟩
      simp only [Session.reset, current, Option.bind_some, brings.part]
      rfl
  have between (left : Nat) : s.reset.engine.toDevice ≠ .completion left := by
    intro inside
    cases inside
  have started : s.reset.Started ↔ s.Started := by
    rw [Started, Started, or_iff_left (not_exists.2 between)]
    rcases again with ⟨outside, same⟩ | ⟨left, i, c, inside, cut, -⟩
    · rw [same, or_iff_left (not_exists.2 outside)]
    · simp [cut, inside]
  refine { sound with head := ?_, progress := ?_, streaming := .between rfl rfl, again := ?_ }
  · intro x first
    rw [started]
    exact sound.head x first
  · intro i r read
    exact (sound.progress i r read).congr Iff.rfl rfl rfl Iff.rfl
  · intro i cut
    refine ⟨between, ?_⟩
    rcases again with ⟨-, same⟩ | ⟨left, j, c, -, resent, first⟩
    · exact (sound.again i (same ▸ cut)).2
    · obtain rfl : j = i := Option.some.inj (resent.symm.trans cut)
      exact ⟨c, first⟩

theorem answer_of_owed (sound : s.Sound q owed) {i : Nat} (due : i ∈ owed) :
    ∃ a, (s.reads[i]?).bind (·.answer) = some a := by
  have member : (s.reads[i]?).bind (·.answer) ∈ s.engine.link.readResponses.map some := by
    rw [sound.responses]
    exact List.mem_map_of_mem due
  obtain ⟨a, -, same⟩ := List.mem_map.1 member
  exact ⟨a, same.symm⟩

/-- Host memory answers a read. -/
theorem answerRead (sound : s.Sound q owed) (i : Nat) (a : ReadResponse) :
    ∃ owed, (s.answerRead i a).Sound q owed := by
  unfold Session.answerRead
  cases read : s.reads[i]? with
  | none => exact ⟨owed, sound⟩
  | some r =>
    have posted : s.engine.link.postRead a =
        some { s.engine.link with readResponses := s.engine.link.readResponses ++ [a] } :=
      if_pos sound.attached.1
    simp only [posted]
    by_cases admits : r.Admits a
    · rw [if_pos admits]
      obtain ⟨unanswered, tag, length⟩ := admits
      let r' : DeviceRead := { r with answer := some a }
      have inside : i < s.reads.length := (List.getElem?_eq_some_iff.1 read).1
      have unseen : i ∉ owed := by
        intro due
        obtain ⟨b, answer⟩ := sound.answer_of_owed due
        rw [read, Option.bind_some, unanswered] at answer
        cases answer
      have others (j : Nat) (other : j ≠ i) : (s.reads.set i r')[j]? = s.reads[j]? :=
        List.getElem?_set_ne (Ne.symm other)
      have own : (s.reads.set i r')[i]? = some r' := List.getElem?_set_self inside
      refine ⟨owed ++ [i], { sound with
        kept := ?kept
        admitted := ?admitted
        responses := ?responses
        owedOnce := ?owedOnce
        pending := ?pending
        known := ?known
        progress := ?progress
        streaming := ?streaming
        numbered := ?numbered }⟩
      case kept =>
        intro d member
        obtain ⟨d', old, same⟩ : ∃ d' ∈ s.reads, d'.slot = d.slot := by
          rcases List.mem_or_eq_of_mem_set member with old | rfl
          · exact ⟨d, old, rfl⟩
          · exact ⟨r, List.mem_of_getElem? read, rfl⟩
        obtain ⟨k, taken, slot, stored⟩ := sound.kept d' old
        rw [same] at taken slot stored
        by_cases mine : s.owner d.slot = i
        · rw [mine] at taken
          obtain rfl : r = k := Option.some.inj (read.symm.trans taken)
          exact ⟨r', by simp only [mine]; exact own, slot, stored⟩
        · exact ⟨k, (others _ mine).trans taken, slot, stored⟩
      case admitted =>
        intro d member
        rcases List.mem_or_eq_of_mem_set member with old | rfl
        · exact sound.admitted d old
        · refine { sound.admitted r (List.mem_of_getElem? read) with answered := ?_ }
          intro b same
          obtain rfl : a = b := Option.some.inj same
          exact ⟨tag, length⟩
      case responses =>
        rw [List.map_append, sound.responses, List.map_append]
        congr 1
        · apply List.map_congr_left
          intro j due
          change _ = ((s.reads.set i r')[j]?).bind (·.answer)
          rw [others j (fun same => unseen (same ▸ due))]
        · simp [own, r']
      case owedOnce =>
        apply List.Nodup.append sound.owedOnce (List.nodup_singleton i)
        rw [List.disjoint_singleton]
        exact unseen
      case pending =>
        have some_ : 0 < s.reads.countP (·.answer.isNone) :=
          List.countP_pos_iff.2 ⟨r, List.mem_of_getElem? read, by simp [unanswered]⟩
        have before : s.reads[i] = r := (List.getElem?_eq_some_iff.1 read).2
        have pending := sound.pending
        change s.engine.pendingReads = _
        rw [List.countP_set inside, before]
        simp only [unanswered, Option.isNone_none, if_true, Option.isNone_some,
          Bool.false_eq_true, if_false, List.length_append, List.length_singleton]
        omega
      case known =>
        simpa only [List.length_set] using sound.known
      case progress =>
        intro j d found
        by_cases mine : j = i
        · subst mine
          obtain rfl : r' = d := Option.some.inj (own.symm.trans found)
          cases sound.progress j r read with
          | waiting _ holds unqueued unsent =>
            exact .waiting (.inr (by simp)) holds unqueued unsent
          | failed b answer => simp [unanswered] at answer
          | served b n answer => simp [unanswered] at answer
        · refine (sound.progress j d ((others j mine).symm.trans found)).congr Iff.rfl rfl rfl ?_
          simp [mine]
      case streaming =>
        refine sound.streaming.congr rfl (List.prefix_refl _) rfl rfl ?_ fun _ first => first
        intro k d found
        by_cases mine : k = i
        · subst mine
          obtain rfl : r = d := Option.some.inj (read.symm.trans found)
          exact ⟨r', own, rfl⟩
        · exact ⟨d, (others k mine).trans found, rfl⟩
      case numbered =>
        simpa only [List.length_set] using sound.numbered
    · rw [if_neg admits]
      exact ⟨owed, sound⟩

/-- The read that enters a slot has passed the checks. -/
theorem admitted_of_takesRead (sound : s.Sound q owed) {e : Engine} {flit : Flit} {h : Header}
    {r : RequestBody} {slot : Nat} {slots : SlotPool}
    (takes : s.engine.TakesRead e flit h r slot slots) (d : DeviceRead)
    (read : d = ⟨h, Header.readRequest { h with body := .request (h.effectiveRequest r) }
      (h.effectiveRequest r) flit slot, none⟩) :
    d.slot = slot ∧ d.stored = h.stored r ∧ d.Admitted s.engine.params.maxDmaReads ∧
      s.engine.slots.isBusy slot = false ∧ slots.states = s.engine.slots.states ∧
      slots.FreeExist := by
  obtain ⟨-, -, -, -, tag⟩ := Parameters.rules_of_legal takes.rules
  obtain ⟨idle, inside, states, free⟩ :=
    Engine.chooseSlot_spec sound.free (sound.size ▸ tag) takes.chosen
  have limit := (s.engine.config.legal.limits .maxDmaReads).2
  change s.engine.params.maxDmaReads ≤ 1024 at limit
  have own : d.slot = slot := by
    rw [read]
    change (UInt16.ofNat slot).toNat = slot
    rw [sound.size] at inside
    rw [UInt16.toNat_ofNat']
    omega
  have body : d.body = r := by
    rw [read, DeviceRead.body, Header.request?, takes.body]
    rfl
  have stored : d.stored = h.stored r := by rw [DeviceRead.stored, body, read]
  have completed : d.completedBody = h.effectiveRequest r := by
    rw [DeviceRead.completedBody, body, read]
  refine ⟨own, stored, ⟨?_, ?_, ?_, ?_, ?_⟩, idle, states, free⟩
  · rw [body, read]
    exact takes.body
  · rw [stored, completed]
    exact takes.completable
  · rw [own, ← sound.size]
    exact inside
  · rw [stored, completed, Header.isFence_stored, Header.toNat_byteSize_stored, read]
    rfl
  · intro a answer
    rw [read] at answer
    cases answer

/-- A read of the device enters a slot that no other read holds. -/
theorem takesRead (sound : s.Sound q owed) {e : Engine} {flit : Flit} {h : Header}
    {r : RequestBody} {slot : Nat} {slots : SlotPool}
    (takes : s.engine.TakesRead e flit h r slot slots) (d : DeviceRead)
    (read : d = ⟨h, Header.readRequest { h with body := .request (h.effectiveRequest r) }
      (h.effectiveRequest r) flit slot, none⟩) :
    Session.Sound { s with
      engine := e
      reads := s.reads ++ [d]
      owner := Function.update s.owner d.slot s.reads.length } q owed := by
  obtain ⟨own, stored, admitted, idle, states, free⟩ := sound.admitted_of_takesRead takes d read
  obtain ⟨cycle, fromDevice, rfl⟩ : ∃ cycle fromDevice, e = { s.engine with
      cycle := cycle
      fromDevice := fromDevice
      slots := slots.occupy slot cycle (h.stored r)
      link := { s.engine.link with
        requests := s.engine.link.requests ++ [.read
          (Header.readRequest { h with body := .request (h.effectiveRequest r) }
            (h.effectiveRequest r) flit slot)] }
      pendingReads := s.engine.pendingReads + 1 } := ⟨_, _, takes.state⟩
  subst own
  have inside : d.slot < slots.states.size := by
    rw [states, sound.size]
    exact admitted.slot
  have unanswered : d.answer = none := by rw [read]
  have busy (k : Nat) : (slots.occupy d.slot cycle (h.stored r)).isBusy k =
      if k = d.slot then true else s.engine.slots.isBusy k := by
    rw [SlotPool.isBusy_occupy, decide_eq_true inside, SlotPool.isBusy_congr states]
  have old {i : Nat} (before : i < s.reads.length) : (s.reads ++ [d])[i]? = s.reads[i]? :=
    List.getElem?_append_left before
  have new : (s.reads ++ [d])[s.reads.length]? = some d := List.getElem?_concat_length
  have grown : (s.reads ++ [d]).length = s.reads.length + 1 := List.length_append
  have holds {i : Nat} (before : i < s.reads.length) (k : Nat) :
      Function.update s.owner d.slot s.reads.length k = i ∧
        (slots.occupy d.slot cycle (h.stored r)).isBusy k ↔ s.Holds i k := by
    rw [busy, Function.update_apply, Session.Holds]
    by_cases same : k = d.slot
    · subst same
      simp [idle, Nat.ne_of_gt before]
    · simp [same]
  constructor
  case attached => exact sound.attached
  case size =>
    change (slots.occupy d.slot cycle (h.stored r)).states.size = _
    rw [SlotPool.size_occupy, states]
    exact sound.size
  case free =>
    intro k member
    change k < (slots.occupy d.slot cycle (h.stored r)).states.size
    rw [SlotPool.size_occupy]
    exact free k member
  case kept =>
    intro x member
    change ∃ x', (s.reads ++ [d])[Function.update s.owner d.slot s.reads.length x.slot]? =
      some x' ∧ x'.slot = x.slot ∧
      (slots.occupy d.slot cycle (h.stored r)).request? x.slot = some x'.stored
    rw [SlotPool.request?_occupy _ _ _ _ _ inside, Function.update_apply]
    by_cases same : x.slot = d.slot
    · rw [if_pos same, if_pos same]
      exact ⟨d, new, same.symm, congrArg some stored.symm⟩
    · rw [if_neg same, if_neg same, SlotPool.request?_congr states]
      rcases List.mem_append.1 member with earlier | last
      · obtain ⟨x', taken, slot, kept⟩ := sound.kept x earlier
        exact ⟨x', (old (List.getElem?_eq_some_iff.1 taken).1).trans taken, slot, kept⟩
      · exact absurd (congrArg DeviceRead.slot (List.mem_singleton.1 last)) same
  case admitted =>
    intro x member
    rcases List.mem_append.1 member with earlier | last
    · exact sound.admitted x earlier
    · rw [List.mem_singleton.1 last]
      exact admitted
  case responses =>
    refine sound.responses.trans (List.map_congr_left fun i due => ?_)
    obtain ⟨a, answer⟩ := sound.answer_of_owed due
    obtain ⟨x, found, -⟩ := Option.bind_eq_some_iff.1 answer
    rw [old (List.getElem?_eq_some_iff.1 found).1]
  case owedOnce => exact sound.owedOnce
  case pending =>
    change s.engine.pendingReads + 1 = (s.reads ++ [d]).countP (·.answer.isNone) + owed.length
    rw [List.countP_append, sound.pending, List.countP_singleton, unanswered]
    simp only [Option.isNone_none, if_true]
    omega
  case queue => exact sound.queue
  case encodable => exact sound.encodable
  case known =>
    intro x member
    rw [grown]
    exact Nat.lt_succ_of_lt (sound.known x member)
  case tail =>
    intro x member
    exact (holds (sound.known x (List.mem_of_mem_tail member)) _).2 (sound.tail x member)
  case head =>
    intro x first
    exact (holds (sound.known x (List.mem_of_head? first)) _).trans (sound.head x first)
  case progress =>
    intro i x found
    by_cases before : i < s.reads.length
    · exact (sound.progress i x ((old before).symm.trans found)).congr (holds before _) rfl rfl
        Iff.rfl
    · have bound := (List.getElem?_eq_some_iff.1 found).1
      rw [grown] at bound
      obtain rfl : i = s.reads.length := by omega
      obtain rfl : d = x := Option.some.inj (new.symm.trans found)
      refine .waiting (.inl unanswered) ⟨Function.update_self .., ?_⟩ ?_ ?_
      · exact (busy _).trans (if_pos rfl)
      · rw [List.eq_nil_iff_forall_not_mem]
        intro c member
        exact Nat.lt_irrefl _ (sound.known _ ((OwnedQueue.mem_ofRead_iff ..).1 member))
      · exact sound.wholeOf_eq_nil (Nat.le_refl _)
  case streaming =>
    refine sound.streaming.congr rfl (List.prefix_refl _) rfl rfl ?_ fun _ first => first
    intro i x found
    exact ⟨x, (old (List.getElem?_eq_some_iff.1 found).1).trans found, rfl⟩
  case again => exact sound.again
  case numbered =>
    intro p member part is
    rw [grown]
    exact Nat.lt_succ_of_lt (sound.numbered p member part is)
  case attributed => exact sound.attributed
  case readable => exact sound.readable
  case fault => exact sound.fault

theorem accept (sound : s.Sound q owed) (cycle : Nat) (flit : Flit) :
    (s.accept cycle flit).Sound q owed := by
  rcases s.accept_cases cycle flit sound.attached with
    ⟨quiet, same⟩ | ⟨h, r, slot, slots, takes, is⟩
  · rw [same]
    exact sound.sameReads quiet.1
  · rw [is _ rfl]
    exact sound.takesRead takes _ rfl

end Sound

end Session

end TlpBridge

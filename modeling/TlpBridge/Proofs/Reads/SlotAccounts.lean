import Mathlib.Data.Set.Card
import TlpBridge.Proofs.Reads.SlotLedger

/-!
# Accounts of the read slots

Without a reset every slot is busy exactly from the moment a read takes it until the read is
refused or the header of its last completion is sent. The counts of what is pending, the free slots
and the tags in use all follow the slots.
-/
namespace TlpBridge

/-- The completions of which no beat has been sent. -/
def Engine.unstarted (e : Engine) : List CompletionPacket :=
  match e.toDevice with
  | .completion _ => e.completions.items.tail
  | .start | .mmio _ => e.completions.items

theorem CarriesRange.exists_last {slot start : Nat} {h : Header} {data : List UInt32}
    {cs : List CompletionPacket} (range : CarriesRange slot h data start cs h.dwordSize)
    (some_ : cs ≠ []) : ∃ c ∈ cs, c.isLast := by
  induction cs generalizing start with
  | nil => exact absurd rfl some_
  | cons c rest ih =>
    obtain ⟨carries, later⟩ := range
    cases rest with
    | nil =>
      refine ⟨c, List.mem_cons_self, ?_⟩
      rw [carries.last, decide_eq_true_eq]
      exact later
    | cons d ds =>
      obtain ⟨x, member, last⟩ := ih later (List.cons_ne_nil d ds)
      exact ⟨x, List.mem_cons_of_mem c member, last⟩

theorem BringRange.exists_last {i start : Nat} {h : Header} {data : List UInt32}
    {ps : List ReceivedPacket} (range : BringRange i h data start ps data.length)
    (some_ : start < data.length) : ∃ p ∈ ps, ∃ part, p.part = some part ∧ part.isLast := by
  induction ps generalizing start with
  | nil => exact absurd range (Nat.ne_of_lt some_)
  | cons p rest ih =>
    obtain ⟨brings, -, later⟩ := range
    by_cases more : start + p.header.dwordSize < data.length
    · obtain ⟨x, member, last⟩ := ih later more
      exact ⟨x, List.mem_cons_of_mem p member, last⟩
    · have inside := brings.inside
      exact ⟨p, List.mem_cons_self, _, brings.part, decide_eq_true (by omega)⟩

namespace Session.Sound

variable {s : Session} {q : OwnedQueue} {owed : List Nat}

theorem started_iff (again : s.again = none) :
    s.Started ↔ ∃ left, s.engine.toDevice = .completion left := by
  simp [Started, again]

theorem mem_unstarted_iff (sound : s.Sound q owed) (again : s.again = none)
    (c : CompletionPacket) : c ∈ s.engine.unstarted ↔
      ∃ i, (i, c) ∈ q ∧ (s.Started → (i, c) ∈ q.tail) := by
  rw [started_iff again, Engine.unstarted]
  cases s.engine.toDevice with
  | completion left =>
    simp only [ToDeviceState.completion.injEq, exists_eq', true_implies, sound.queue,
      OwnedQueue.packets, ← List.map_tail, List.mem_map, Prod.exists, exists_eq_right]
    constructor
    · rintro ⟨i, member⟩
      exact ⟨i, List.mem_of_mem_tail member, member⟩
    · rintro ⟨i, -, member⟩
      exact ⟨i, member⟩
  | start => simp [sound.queue, OwnedQueue.packets]
  | mmio left => simp [sound.queue, OwnedQueue.packets]

theorem holds_of_unstarted (sound : s.Sound q owed) {i : Nat} {c : CompletionPacket}
    (member : (i, c) ∈ q) (waits : s.Started → (i, c) ∈ q.tail) : s.Holds i c.slot := by
  by_cases started : s.Started
  · exact sound.tail _ (waits started)
  · cases q with
    | nil => cases member
    | cons x rest =>
      rcases List.mem_cons.1 member with rfl | later
      · exact (sound.head _ rfl).2 fun both => started both.1
      · exact sound.tail _ later

theorem unstarted_of_holds (sound : s.Sound q owed) {i : Nat} {c : CompletionPacket}
    (member : (i, c) ∈ q) (last : c.isLast) (holds : s.Holds i c.slot) (started : s.Started) :
    (i, c) ∈ q.tail := by
  cases q with
  | nil => cases member
  | cons x rest =>
    rcases List.mem_cons.1 member with rfl | later
    · exact absurd ⟨started, last⟩ ((sound.head _ rfl).1 holds)
    · exact later

theorem open_part (sound : s.Sound q owed) {left : Nat}
    (inside : s.engine.toDevice = .completion left) : ∃ i c p, s.current = some p ∧
      q.head? = some (i, c) ∧ p.part = some ⟨i, c.startDword, c.isLast⟩ := by
  obtain ⟨i, c, p, r, current, first, -, read, brings, size, -⟩ :=
    sound.streaming.of_completion inside
  obtain ⟨r', a, read', -, -, -, -, carries, -⟩ := sound.head_carries first
  obtain rfl : r = r' := Option.some.inj (read.symm.trans read')
  refine ⟨i, c, p, current, first, ?_⟩
  rw [brings.part, carries.last, size, carries.data, r.length_words]

theorem holds_of_waits (sound : s.Sound q owed) {i : Nat} {r : DeviceRead}
    (read : s.reads[i]? = some r) (waits : r.answer = none ∨ i ∈ owed) :
    s.Holds i r.slot ∧ q.ofRead i = [] := by
  have answered {a : ReadResponse} (answer : r.answer = some a) (seen : i ∉ owed) : False := by
    rcases waits with none_ | due
    · cases none_.symm.trans answer
    · exact seen due
  cases sound.progress i r read with
  | waiting _ holds unqueued => exact ⟨holds, unqueued⟩
  | failed a answer seen => exact (answered answer seen).elim
  | served a n answer seen => exact (answered answer seen).elim

theorem waits_or_queued (sound : s.Sound q owed) {i : Nat} {r : DeviceRead}
    (read : s.reads[i]? = some r) (holds : s.Holds i r.slot) :
    (r.answer = none ∨ i ∈ owed) ∨
      ∃ a c, r.answer = some a ∧ a.status = .valid ∧ (i, c) ∈ q ∧ c.isLast ∧ c.slot = r.slot := by
  cases sound.progress i r read with
  | waiting unseen => exact .inl unseen
  | failed a answer seen status released => exact absurd holds released
  | served a n answer seen status released brought queued =>
    have some_ : q.ofRead i ≠ [] := fun none_ => released none_ holds
    obtain ⟨c, member, last⟩ := queued.exists_last some_
    exact .inr ⟨a, c, answer, status, (OwnedQueue.mem_ofRead_iff ..).1 member, last,
      (queued.carries_of_mem member).slot⟩

end Session.Sound

namespace Ledger

open Session (Move)

/-- The engine has asked for the read and not taken an answer to it. -/
def Waits (l : Ledger) (i : Nat) (r : DeviceRead) : Prop :=
  l.session.reads[i]? = some r ∧ (r.answer = none ∨ i ∈ l.waiting)

/-- The last completion of a read in the slot is in the queue, and its header has not been sent. -/
def Closes (l : Ledger) (slot : Nat) : Prop :=
  ∃ c ∈ l.session.engine.unstarted, c.slot = slot ∧ c.isLast

/-- Neither has the read been refused, nor has the device got a beat of its last completion. -/
def Outstanding (l : Ledger) (i : Nat) (r : DeviceRead) : Prop :=
  l.Waits i r ∨ l.session.reads[i]? = some r ∧ (∃ a, r.answer = some a ∧ a.status = .valid) ∧
    ∀ p ∈ l.session.received ++ l.session.current.toList, ∀ part, p.part = some part →
      part.read = i → ¬ part.isLast

/-- The slots, the counts of what is pending, the free slots and the tags agree with each other. -/
structure Accounted (l : Ledger) (mapped : Bool) : Prop where
  /-- A slot is busy while the engine waits for an answer or has a last completion to send. -/
  busy_iff : ∀ slot, l.session.engine.slots.isBusy slot ↔
    (∃ i r, l.Waits i r ∧ r.slot = slot) ∨ l.Closes slot
  never_both : ∀ i r, l.Waits i r → ¬ l.Closes r.slot
  /-- A busy slot keeps the request of the one read in it, and the completions of the slot carry the
  answer to that read. -/
  occupant : ∀ slot, l.session.engine.slots.isBusy slot → ∃ i r, l.Outstanding i r ∧ r.slot = slot ∧
    l.session.engine.slots.request? slot = some r.stored ∧
    ∀ c ∈ l.session.engine.unstarted, c.slot = slot → ∃ a, r.answer = some a ∧
      c.Carries slot r.stored (r.words a) c.startDword
  /-- Reads that are outstanding have slots of their own. -/
  housed : ∀ i r, l.Outstanding i r → l.session.engine.slots.isBusy r.slot
  apart : ∀ i j r r', l.Outstanding i r → l.Outstanding j r' → r.slot = r'.slot → i = j
  tags : mapped = false → ∀ i j r r', l.Outstanding i r → l.Outstanding j r' →
    r.header.tag = r'.header.tag → i = j
  pendingReads : l.session.engine.pendingReads = {slot | ∃ i r, l.Waits i r ∧ r.slot = slot}.ncard
  pendingWrites : l.session.engine.pendingWrites + l.collected = l.forwarded
  /-- No count runs below zero: a cycle takes off exactly the answers that it takes. -/
  counted : ∀ cycle ready,
    l.session.engine.TakesReads (l.session.engine.emit cycle ready).state ∧
      l.session.engine.TakesWrites (l.session.engine.emit cycle ready).state
  /-- With a tag mapper the free slots are the idle ones, each once. -/
  free : mapped = true → l.session.engine.slots.free.Nodup ∧ ∀ slot,
    slot ∈ l.session.engine.slots.free ↔ slot < l.session.engine.params.maxDmaReads ∧
      l.session.engine.slots.isBusy slot = false
  /-- A slot that is taken from the free ones is idle. -/
  taken : mapped = true → ∀ slot pool, l.session.engine.slots.takeFree? = some (slot, pool) →
    l.session.engine.slots.isBusy slot = false
  /-- After the device was told that its next beat will be taken, the beat finds a slot. -/
  told : l.session.engine.ready.1 = true → ∀ cycle flit,
    ¬ (l.session.engine.ready.2.accept cycle flit).Blames .tagMapperExhausted

namespace Balances

variable {l : Ledger} {mapped : Bool} {i j : Nat} {r r' : DeviceRead}

theorem holds_of_waits (balances : l.Balances mapped) (waits : l.Waits i r) :
    l.session.Holds i r.slot := by
  obtain ⟨q, sound⟩ := balances.sound
  exact (sound.holds_of_waits waits.1 waits.2).1

theorem not_closes_of_waits (balances : l.Balances mapped) (waits : l.Waits i r) :
    ¬ l.Closes r.slot := by
  obtain ⟨q, sound⟩ := balances.sound
  obtain ⟨holds, unqueued⟩ := sound.holds_of_waits waits.1 waits.2
  rintro ⟨c, unstarted, slot, -⟩
  obtain ⟨j, member, waiting⟩ := (sound.mem_unstarted_iff balances.again c).1 unstarted
  have holds' := sound.holds_of_unstarted member waiting
  rw [slot] at holds'
  obtain rfl : i = j := holds.1.symm.trans holds'.1
  have there := (OwnedQueue.mem_ofRead_iff q i c).2 member
  rw [unqueued] at there
  cases there

theorem busy_iff (balances : l.Balances mapped) (slot : Nat) :
    l.session.engine.slots.isBusy slot ↔ (∃ i r, l.Waits i r ∧ r.slot = slot) ∨ l.Closes slot := by
  obtain ⟨q, sound⟩ := balances.sound
  constructor
  case mp =>
    intro busy
    obtain ⟨r, read, rfl⟩ := balances.housed.owned slot busy
    rcases sound.waits_or_queued read ⟨rfl, busy⟩ with waits | ⟨a, c, -, -, member, last, slot⟩
    · exact .inl ⟨_, r, ⟨read, waits⟩, rfl⟩
    · refine .inr ⟨c, (sound.mem_unstarted_iff balances.again c).2 ⟨_, member, ?_⟩, slot, last⟩
      exact sound.unstarted_of_holds member last (by rw [slot]; exact ⟨rfl, busy⟩)
  case mpr =>
    rintro (⟨i, r, waits, rfl⟩ | ⟨c, unstarted, rfl, -⟩)
    · exact (balances.holds_of_waits waits).2
    · obtain ⟨j, member, waiting⟩ := (sound.mem_unstarted_iff balances.again c).1 unstarted
      exact (sound.holds_of_unstarted member waiting).2

/-- An outstanding read holds its slot. -/
theorem holds_of_outstanding (balances : l.Balances mapped) (outstanding : l.Outstanding i r) :
    l.session.Holds i r.slot := by
  obtain ⟨q, sound⟩ := balances.sound
  rcases outstanding with waits | ⟨read, ⟨a, answer, valid⟩, unseen⟩
  · exact balances.holds_of_waits waits
  · cases sound.progress i r read with
    | waiting _ holds => exact holds
    | failed b same _ status =>
      obtain rfl : a = b := Option.some.inj (answer.symm.trans same)
      exact absurd valid status
    | served b n _ _ _ _ brought queued =>
      -- The last completion is in the queue: the packets so far do not bring all of the data.
      have some_ : q.ofRead i ≠ [] := by
        intro none_
        rw [none_] at queued
        obtain rfl : n = r.stored.dwordSize := queued
        have nonempty : 0 < (r.words b).length := by
          have positive := (sound.admitted r (List.mem_of_getElem? read)).completable.nonempty
          rw [r.length_words, Header.dwordSize]
          omega
        rw [← r.length_words b] at brought
        obtain ⟨p, member, part, is, last⟩ := brought.exists_last nonempty
        obtain ⟨whole, completes⟩ := List.mem_filter.1 member
        obtain ⟨part', is', mine⟩ := (p.completes_iff i).1 completes
        obtain rfl : part = part' := Option.some.inj (is.symm.trans is')
        exact unseen p (List.mem_append_left _ whole) part is mine last
      obtain ⟨c, member, last⟩ := queued.exists_last some_
      have slot := (queued.carries_of_mem member).slot
      rw [OwnedQueue.mem_ofRead_iff] at member
      rw [← slot]
      refine sound.holds_of_unstarted member fun started => ?_
      obtain ⟨left, inside⟩ := (Session.Sound.started_iff balances.again).1 started
      obtain ⟨j, d, p, current, first, part⟩ := sound.open_part inside
      cases q with
      | nil => cases member
      | cons x rest =>
        obtain rfl : x = (j, d) := Option.some.inj first
        rcases List.mem_cons.1 member with head | later
        · obtain ⟨rfl, rfl⟩ := Prod.mk.inj head
          refine absurd last (unseen p (List.mem_append_right _ ?_) _ part rfl)
          rw [current]
          exact List.mem_singleton_self p
        · exact later

/-- A read that holds its slot is outstanding. -/
theorem outstanding_of_holds (balances : l.Balances mapped) (read : l.session.reads[i]? = some r)
    (holds : l.session.Holds i r.slot) : l.Outstanding i r := by
  obtain ⟨q, sound⟩ := balances.sound
  cases sound.progress i r read with
  | waiting unseen => exact .inl ⟨read, unseen⟩
  | failed a answer seen status released => exact absurd holds released
  | served a n answer _ status released brought queued =>
    refine .inr ⟨read, ⟨a, answer, status⟩, fun p member part is mine last => ?_⟩
    rcases List.mem_append.1 member with whole | open_
    · have bringsLast : p.part.any (·.isLast) := by rw [is]; exact last
      have stop := brought.stop_eq_of_isLast
        (List.mem_filter.2 ⟨whole, (p.completes_iff i).2 ⟨part, is, mine⟩⟩) bringsLast
      rw [stop, r.length_words] at queued
      exact released queued.eq_nil holds
    · cases sound.streaming with
      | between _ current =>
        rw [current] at open_
        cases open_
      | mmio _ p' _ current none_ =>
        rw [current] at open_
        obtain rfl : p = p' := List.mem_singleton.1 open_
        cases none_.symm.trans is
      | completion left _ _ _ _ inside =>
        obtain ⟨j, c, p', current, first, part'⟩ := sound.open_part inside
        rw [current] at open_
        obtain rfl : p = p' := List.mem_singleton.1 open_
        obtain rfl := Option.some.inj (part'.symm.trans is)
        obtain rfl : j = i := mine
        obtain ⟨r', a', read', -, -, -, -, carries, -⟩ := sound.head_carries first
        obtain rfl : r = r' := Option.some.inj (read.symm.trans read')
        rw [← carries.slot] at holds
        exact (sound.head _ first).1 holds ⟨.inr ⟨left, inside⟩, last⟩

/-- As many reads are pending as there are slots that wait for an answer. -/
theorem pendingReads_eq (balances : l.Balances mapped) : l.session.engine.pendingReads =
    {slot | ∃ i r, l.Waits i r ∧ r.slot = slot}.ncard := by
  obtain ⟨q, sound⟩ := balances.sound
  let waiters := l.session.reads.findIdxs (·.answer.isNone) ++ l.waiting
  let slotOf (i : Nat) : Nat := ((l.session.reads[i]?).map DeviceRead.slot).getD 0
  have slotOf_eq {i : Nat} {r : DeviceRead} (read : l.session.reads[i]? = some r) :
      slotOf i = r.slot := by
    simp only [slotOf, read]
    rfl
  have mem_iff (i : Nat) : i ∈ waiters ↔ ∃ r, l.Waits i r := by
    rw [List.mem_append, List.mem_findIdxs_iff_exists_getElem_pos]
    constructor
    · rintro (⟨inside, unanswered⟩ | due)
      · exact ⟨_, List.getElem?_eq_getElem inside, .inl (Option.isNone_iff_eq_none.1 unanswered)⟩
      · obtain ⟨a, answered⟩ := sound.answer_of_owed due
        obtain ⟨r, read, -⟩ := Option.bind_eq_some_iff.1 answered
        exact ⟨r, read, .inr due⟩
    · rintro ⟨r, read, unanswered | due⟩
      · obtain ⟨inside, is⟩ := List.getElem?_eq_some_iff.1 read
        exact .inl ⟨inside, by rw [is, unanswered]; rfl⟩
      · exact .inr due
  have nodup : waiters.Nodup := by
    refine List.Nodup.append List.nodup_findIdxs sound.owedOnce fun i unanswered due => ?_
    obtain ⟨inside, none_⟩ := List.mem_findIdxs_iff_exists_getElem_pos.1 unanswered
    obtain ⟨a, answered⟩ := sound.answer_of_owed due
    rw [List.getElem?_eq_getElem inside, Option.bind_some] at answered
    rw [answered] at none_
    cases none_
  have distinct : (waiters.map slotOf).Nodup := by
    refine nodup.map_on fun i first j second same => ?_
    obtain ⟨r, waits⟩ := (mem_iff i).1 first
    obtain ⟨r', waits'⟩ := (mem_iff j).1 second
    rw [slotOf_eq waits.1, slotOf_eq waits'.1] at same
    have owner := (balances.holds_of_waits waits).1
    rw [same, (balances.holds_of_waits waits').1] at owner
    exact owner.symm
  have slots : {slot | ∃ i r, l.Waits i r ∧ r.slot = slot} = (waiters.map slotOf).toFinset := by
    ext slot
    simp only [Set.mem_ofPred_eq, List.coe_toFinset, List.mem_map]
    constructor
    · rintro ⟨i, r, waits, rfl⟩
      exact ⟨i, (mem_iff i).2 ⟨r, waits⟩, slotOf_eq waits.1⟩
    · rintro ⟨i, member, rfl⟩
      obtain ⟨r, waits⟩ := (mem_iff i).1 member
      exact ⟨i, r, waits, (slotOf_eq waits.1).symm⟩
  rw [slots, Set.ncard_coe_finset, List.toFinset_card_of_nodup distinct, List.length_map,
    List.length_append, List.length_findIdxs, sound.pending]

theorem accounted (balances : l.Balances mapped) : l.Accounted mapped := by
  obtain ⟨q, sound⟩ := balances.sound
  have apart (i j : Nat) (r r' : DeviceRead) (first : l.Outstanding i r)
      (second : l.Outstanding j r') (same : r.slot = r'.slot) : i = j := by
    have one := (balances.holds_of_outstanding first).1
    rw [same, (balances.holds_of_outstanding second).1] at one
    exact one.symm
  constructor
  case busy_iff => exact balances.busy_iff
  case never_both => exact fun i r => balances.not_closes_of_waits
  case occupant =>
    intro slot busy
    obtain ⟨r, read, rfl⟩ := balances.housed.owned slot busy
    have holds : l.session.Holds (l.session.owner r.slot) r.slot := ⟨rfl, busy⟩
    refine ⟨_, r, balances.outstanding_of_holds read holds, rfl, ?_, ?_⟩
    · obtain ⟨r', read', -, stored⟩ := sound.kept r (List.mem_of_getElem? read)
      obtain rfl : r = r' := Option.some.inj (read.symm.trans read')
      exact stored
    · intro c unstarted slot
      obtain ⟨j, member, waits⟩ := (sound.mem_unstarted_iff balances.again c).1 unstarted
      obtain ⟨owner, -⟩ := sound.holds_of_unstarted member waits
      obtain ⟨r', a, -, read', answer, -, -, -, -, carries⟩ := sound.served_of_mem member
      rw [← owner, slot] at read'
      obtain rfl : r = r' := Option.some.inj (read.symm.trans read')
      exact ⟨a, answer, carries⟩
  case housed => exact fun i r outstanding => (balances.holds_of_outstanding outstanding).2
  case apart => exact apart
  case tags =>
    intro unmapped i j r r' first second same
    have tagged {k : Nat} {d : DeviceRead} (outstanding : l.Outstanding k d) :
        d.slot = d.header.tag.toNat := by
      have read : l.session.reads[k]? = some d := by
        rcases outstanding with waits | ⟨read, -⟩
        · exact waits.1
        · exact read
      exact balances.housed.tagged unmapped d (List.mem_of_getElem? read)
    exact apart i j r r' first second (by rw [tagged first, tagged second, same])
  case pendingReads => exact balances.pendingReads_eq
  case pendingWrites => exact balances.writes
  case counted =>
    intro cycle ready
    obtain ⟨q', owed', collected, -⟩ := sound.collect cycle
    have taken := l.session.engine.takesAnswers_emit cycle ready collected.sendable
    exact ⟨taken.reads, taken.writes⟩
  case free =>
    intro maps
    have pool := balances.housed.pool.trans maps
    refine ⟨balances.housed.balanced.nodup pool, fun slot => ?_⟩
    rw [balances.housed.balanced.mem_iff pool, sound.size]
  case taken =>
    intro maps slot pool popped
    exact balances.housed.balanced.idle_of_takeFree? (balances.housed.pool.trans maps) popped
  case told => exact fun told cycle flit => Engine.not_exhausted_of_ready told cycle flit

end Balances

/-- Whatever the device sends, the host asks for and host memory answers, and in whatever order:
unless there is a reset, the accounts of the slots are in order. -/
theorem run_accounted (config : ValidParameters) (options : Switches) (random : DrawSource)
    (moves : List Move) (no_reset : Move.reset ∉ moves) :
    ((start config options random).run moves).Accounted config.params.tagMapper :=
  ((balances_start config options random).run moves no_reset).accounted

/-- A write and two reads under one tag: the second read is answered first, and the header of its
only completion gives its slot back. -/
theorem run_accounted_two_reads :
    let config : ValidParameters := ⟨{ dataWidth := 256, tagMapper := true }, by decide⟩
    let read (byteSize : UInt32) (lastEnable : UInt8) : Flit :=
      { (Flit.blank 256 10).storing
          { fmtType := .memRead32, byteSize := byteSize, tag := 3
            body := .request { addr := 0x1000, firstEnable := 0xf, lastEnable := lastEnable } } with
        last := true }
    let write : Flit := (Flit.blank 256 10).storing
      { fmtType := .memWrite32, byteSize := 4
        body := .request { addr := 0x2000, firstEnable := 0xf } }
    let moves : List Move :=
      [.accept 1 (read 8 0xf), .accept 2 write, .accept 3 { Flit.blank 256 10 with last := true },
        .accept 4 (read 4 0), .takeRequest, .takeRequest, .answerWrite ⟨.valid, 0, 0⟩,
        .answerRead 1 ⟨1, .valid, 0, 0, [9, 10, 11, 12]⟩, .emit 5 true]
    let l := (start config { unlimitedBandwidth := true } .fullBandwidth).run moves
    Move.reset ∉ moves ∧ l.Accounted true ∧ l.session.engine.slots.busySlots = [0] ∧
      l.session.engine.slots.free.take 2 = [1, 2] ∧ l.session.engine.pendingReads = 1 ∧
      l.forwarded = 1 ∧ l.collected = 1 ∧ l.session.engine.pendingWrites = 0 := by
  intro config read write moves l
  have no_reset : Move.reset ∉ moves := by simp [moves]
  have evaluated : l.session.engine.slots.busySlots = [0] ∧
      l.session.engine.slots.free.take 2 = [1, 2] ∧ l.session.engine.pendingReads = 1 ∧
      l.forwarded = 1 ∧ l.collected = 1 ∧ l.session.engine.pendingWrites = 0 := by
    decide +kernel
  exact ⟨no_reset, run_accounted _ _ _ moves no_reset, evaluated⟩

end Ledger

end TlpBridge

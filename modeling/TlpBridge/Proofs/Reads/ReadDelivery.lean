import TlpBridge.Proofs.Reads.SoundRuns

/-!
# Delivery of reads

Without a reset, the device gets what it has read: for every read the data that host
memory answered, in order and from the start, under the names of the read. Nothing is
left out once nothing is pending.
-/
namespace TlpBridge

namespace DeviceRead

theorem dwordsBytes_words {r : DeviceRead} {slots : Nat} (admitted : r.Admitted slots)
    {a : ReadResponse} (answer : r.answer = some a) (valid : a.status = .valid) :
    dwordsBytes (r.words a) = r.image := by
  have length := (admitted.answered a answer).2 valid
  have fits : a.data.length ≤ 4 * r.stored.dwordSize := by
    rw [length, admitted.expected, Header.dwordSize]
    split
    · exact Nat.zero_le _
    · omega
  rw [words, dwordsBytes_paddedDwords fits, r.dwordSize_stored, image, answer]
  simp only [valid, if_true]

theorem image_eq_nil {r : DeviceRead} (unserved : ∀ a, r.answer = some a → a.status ≠ .valid) :
    r.image = [] := by
  unfold image
  cases answer : r.answer with
  | none => rfl
  | some a => exact if_neg (unserved a answer)

end DeviceRead

namespace Session

/-- The packets that complete parts of a read; the device may be in the middle of the last one. -/
def packetsOf (s : Session) (i : Nat) : List ReceivedPacket :=
  (s.received ++ s.current.toList).filter (·.completes i)

/-- The bytes that the device has got of a read. -/
def bytesOf (s : Session) (i : Nat) : List UInt8 :=
  dwordsBytes ((s.packetsOf i).flatMap (·.payload))

/-- What the device has got of a read is a part of the answer from its start. -/
structure Delivers (s : Session) (i : Nat) (r : DeviceRead) : Prop where
  /-- The packets follow each other without gap, under the names of the read, and the one that ends
  with the read is the last. -/
  inOrder : ∀ k p, (s.packetsOf i)[k]? = some p →
    0 < p.header.dwordSize ∧ p.payload.length ≤ p.header.dwordSize ∧ ∃ part, p.part = some part ∧
      p.header.Completes r.header part.offset ∧
      part.offset = (((s.packetsOf i).take k).map fun p => p.header.dwordSize).sum ∧
      (part.isLast ↔ part.offset + p.header.dwordSize = r.dwordSize)
  whole : ∀ p ∈ s.received, p.completes i → p.payload.length = p.header.dwordSize
  bytes : s.bytesOf i <+: r.image
  /-- With the last packet everything has been brought. -/
  ended : ∀ p ∈ s.received, p.completes i → p.part.any (·.isLast) → s.bytesOf i = r.image
  unserved : (∀ a, r.answer = some a → a.status ≠ .valid) → s.packetsOf i = []

/-- The device gets what it has read, and no other completions. -/
structure Faithful (s : Session) : Prop where
  readable : s.unreadable = []
  attributed : ∀ p ∈ s.received ++ s.current.toList, p.header.fmtType.isCompletion →
    ∃ i < s.reads.length, p.completes i
  delivers : ∀ i r, s.reads[i]? = some r → s.Delivers i r
  /-- Once nothing is pending, all answers have been brought. -/
  resting : s.engine.pendingReads = 0 → s.engine.completions.items = [] →
    ∀ i r, s.reads[i]? = some r → r.answer.isSome ∧ s.bytesOf i = r.image
  /-- A beat fails for no other protocol reason than an MMIO request without encoding. -/
  fault : ∀ cycle v h, s.fault = some (.protocol cycle v h) →
    ∃ (r : MmioRequest) (cause : EncodingError),
      (r.header s.engine.params).fault? = some cause ∧ v = .encoding cause

/-- What the device has got of a read that was answered: the data before DWORD `n` in whole
packets, and maybe some from there on in an open one. -/
structure Brought (s : Session) (i : Nat) (r : DeviceRead) (a : ReadResponse) (n : Nat) : Prop where
  answer : r.answer = some a
  valid : a.status = .valid
  whole : BringRange i r.header (r.words a) 0 (s.wholeOf i) n
  last : s.packetsOf i = s.wholeOf i ∨
    ∃ p, s.packetsOf i = s.wholeOf i ++ [p] ∧ p.Brings i r.header (r.words a) n

namespace Brought

variable {s : Session} {i n : Nat} {r : DeviceRead} {a : ReadResponse}

theorem brings (brought : s.Brought i r a n) {k : Nat} {p : ReceivedPacket}
    (place : (s.packetsOf i)[k]? = some p) : p.Brings i r.header (r.words a)
      (((s.packetsOf i).take k).map fun p => p.header.dwordSize).sum := by
  rcases brought.last with closed | ⟨last, open_, more⟩
  · rw [closed] at place ⊢
    simpa only [Nat.zero_add] using brought.whole.brings_getElem? place
  · rw [open_] at place ⊢
    by_cases inside : k < (s.wholeOf i).length
    · rw [List.getElem?_append_left inside] at place
      rw [List.take_append_of_le_length (Nat.le_of_lt inside)]
      simpa only [Nat.zero_add] using brought.whole.brings_getElem? place
    · have bound := (List.getElem?_eq_some_iff.1 place).1
      rw [List.length_append, List.length_singleton] at bound
      obtain rfl : k = (s.wholeOf i).length := by omega
      rw [List.getElem?_concat_length] at place
      have stop := brought.whole.stop_eq
      rw [Nat.zero_add] at stop
      rw [List.take_append_of_le_length (Nat.le_refl _), List.take_length, ← stop]
      exact Option.some.inj place ▸ more

theorem payload (brought : s.Brought i r a n) :
    ∃ m, (s.packetsOf i).flatMap (·.payload) = (r.words a).take m := by
  have whole := brought.whole.payload_eq
  rw [List.drop_zero, Nat.sub_zero] at whole
  rcases brought.last with closed | ⟨p, open_, more⟩
  · exact ⟨n, by rw [closed, whole]⟩
  · refine ⟨n + p.payload.length, ?_⟩
    rw [open_, List.flatMap_append, whole, List.flatMap_singleton, List.take_add, ← more.payload]

theorem bytes_eq {slots : Nat} (admitted : r.Admitted slots) (brought : s.Brought i r a n)
    (stop : n = (r.words a).length) : s.bytesOf i = r.image := by
  have whole := brought.whole.payload_eq
  rw [List.drop_zero, Nat.sub_zero, stop, List.take_length] at whole
  rcases brought.last with closed | ⟨p, -, more⟩
  · rw [Session.bytesOf, closed, whole]
    exact DeviceRead.dwordsBytes_words admitted brought.answer brought.valid
  · have inside := more.inside
    have nonempty := more.nonempty
    omega

theorem delivers {slots : Nat} (admitted : r.Admitted slots) (brought : s.Brought i r a n) :
    s.Delivers i r := by
  constructor
  case inOrder =>
    intro k p place
    have brings := brought.brings place
    refine ⟨brings.nonempty, brings.bounded, _, brings.part, brings.header, rfl, ?_⟩
    rw [r.length_words, r.dwordSize_stored, decide_eq_true_eq]
  case whole =>
    intro p member completes
    exact brought.whole.whole_of_mem (List.mem_filter.2 ⟨member, completes⟩)
  case bytes =>
    obtain ⟨m, payload⟩ := brought.payload
    have split := congrArg dwordsBytes ((r.words a).take_append_drop m)
    rw [dwordsBytes_append, DeviceRead.dwordsBytes_words admitted brought.answer brought.valid]
      at split
    exact ⟨_, by rw [Session.bytesOf, payload, split]⟩
  case ended =>
    intro p member completes last
    exact brought.bytes_eq admitted
      (brought.whole.stop_eq_of_isLast (List.mem_filter.2 ⟨member, completes⟩) last)
  case unserved =>
    intro unserved
    exact absurd brought.valid (unserved a brought.answer)

end Brought

theorem Delivers.of_none {s : Session} {i : Nat} {r : DeviceRead} (none_ : s.packetsOf i = []) :
    s.Delivers i r := by
  have unsent {p : ReceivedPacket} (member : p ∈ s.received) (completes : p.completes i) :
      False := by
    have listed : p ∈ s.packetsOf i :=
      List.mem_filter.2 ⟨List.mem_append_left _ member, completes⟩
    rw [none_] at listed
    exact absurd listed List.not_mem_nil
  constructor
  case inOrder =>
    intro k p place
    rw [none_] at place
    cases place
  case whole => exact fun p member completes => (unsent member completes).elim
  case bytes =>
    rw [Session.bytesOf, none_]
    exact List.nil_prefix
  case ended => exact fun p member completes => (unsent member completes).elim
  case unserved => exact fun _ => none_

namespace Sound

variable {s : Session} {q : OwnedQueue} {owed : List Nat}

theorem packetsOf_cases (sound : s.Sound q owed) (i : Nat) : s.packetsOf i = s.wholeOf i ∨
    ∃ c p r, q.head? = some (i, c) ∧ s.reads[i]? = some r ∧
      s.packetsOf i = s.wholeOf i ++ [p] ∧ p.Brings i r.header c.data c.startDword := by
  have packets : s.packetsOf i = s.wholeOf i ++ s.current.toList.filter (·.completes i) :=
    List.filter_append ..
  cases sound.streaming with
  | between _ current =>
    left
    rw [packets, current]
    exact List.append_nil _
  | mmio _ p _ current part =>
    left
    rw [packets, current]
    simp [ReceivedPacket.completes, part]
  | completion left j c p r _ current first _ read brings =>
    by_cases mine : j = i
    · subst mine
      refine .inr ⟨c, p, r, first, read, ?_, brings⟩
      rw [packets, current]
      simp [ReceivedPacket.completes, brings.part]
    · left
      rw [packets, current]
      simp [ReceivedPacket.completes, brings.part, mine]

theorem packetsOf_of_empty (sound : s.Sound q owed) (sent : s.engine.completions.items = [])
    (i : Nat) : s.packetsOf i = s.wholeOf i := by
  rcases sound.packetsOf_cases i with closed | ⟨c, p, d, first, -⟩
  · exact closed
  · rw [sound.queue] at sent
    rw [List.map_eq_nil_iff.1 sent] at first
    cases first

theorem brought_cases (sound : s.Sound q owed) {i : Nat} {r : DeviceRead}
    (read : s.reads[i]? = some r) : s.packetsOf i = [] ∨ ∃ a n, s.Brought i r a n := by
  rcases sound.packetsOf_cases i with closed | ⟨c, p, d, first, found, open_, brings⟩
  · cases sound.progress i r read with
    | waiting _ _ _ unsent => exact .inl (closed.trans unsent)
    | failed _ _ _ _ _ _ unsent => exact .inl (closed.trans unsent)
    | served a n answer _ status _ brought _ =>
      exact .inr ⟨a, n, answer, status, brought, .inl closed⟩
  · obtain rfl : d = r := Option.some.inj (found.symm.trans read)
    obtain ⟨d', a, found', answer, status, -, brought, carries, -⟩ := sound.head_carries first
    obtain rfl : d = d' := Option.some.inj (found.symm.trans found')
    exact .inr ⟨a, c.startDword, answer, status, brought, .inr ⟨p, open_, carries.data ▸ brings⟩⟩

theorem delivers (sound : s.Sound q owed) {i : Nat} {r : DeviceRead}
    (read : s.reads[i]? = some r) : s.Delivers i r := by
  rcases sound.brought_cases read with none_ | ⟨a, n, brought⟩
  · exact .of_none none_
  · exact brought.delivers (sound.admitted r (List.mem_of_getElem? read))

theorem attributed_all (sound : s.Sound q owed) {p : ReceivedPacket}
    (member : p ∈ s.received ++ s.current.toList) (kind : p.header.fmtType.isCompletion) :
    ∃ i < s.reads.length, p.completes i := by
  rcases List.mem_append.1 member with whole | open_
  · obtain ⟨part, is⟩ := Option.isSome_iff_exists.1 (sound.attributed p whole kind)
    exact ⟨part.read, sound.numbered p whole part is, (p.completes_iff _).2 ⟨part, is, rfl⟩⟩
  · cases sound.streaming with
    | between _ current =>
      rw [current] at open_
      cases open_
    | mmio _ p' _ current _ other =>
      rw [current] at open_
      obtain rfl : p = p' := List.mem_singleton.1 open_
      rw [other] at kind
      cases kind
    | completion _ i _ p' _ _ current _ _ read brings =>
      rw [current] at open_
      obtain rfl : p = p' := List.mem_singleton.1 open_
      exact ⟨i, (List.getElem?_eq_some_iff.1 read).1, (p.completes_iff i).2 ⟨_, brings.part, rfl⟩⟩

/-- An engine that waits for nothing and has nothing to send has brought all answers. -/
theorem resting (sound : s.Sound q owed) (answered : s.engine.pendingReads = 0)
    (sent : s.engine.completions.items = []) {i : Nat} {r : DeviceRead}
    (read : s.reads[i]? = some r) : r.answer.isSome ∧ s.bytesOf i = r.image := by
  have member := List.mem_of_getElem? read
  have pending := sound.pending
  rw [answered] at pending
  have some_ : r.answer.isSome := by
    have none_ : s.reads.countP (·.answer.isNone) = 0 := by omega
    simpa [Option.isSome_iff_ne_none] using List.countP_eq_zero.1 none_ r member
  have seen : i ∉ owed := by
    have nothing : owed.length = 0 := by omega
    rw [List.eq_nil_of_length_eq_zero nothing]
    exact List.not_mem_nil
  have closed := sound.packetsOf_of_empty sent i
  have empty : q = [] := by
    rw [sound.queue] at sent
    exact List.map_eq_nil_iff.1 sent
  refine ⟨some_, ?_⟩
  cases sound.progress i r read with
  | waiting unseen =>
    rcases unseen with none_ | due
    · simp [none_] at some_
    · exact absurd due seen
  | failed a answer _ status _ _ unsent =>
    have unserved : ∀ b, r.answer = some b → b.status ≠ .valid := by
      intro b same
      exact Option.some.inj (answer.symm.trans same) ▸ status
    rw [Session.bytesOf, closed, unsent, DeviceRead.image_eq_nil unserved]
    rfl
  | served a n answer _ status _ brought queued =>
    have stop : n = r.stored.dwordSize := by
      rw [empty] at queued
      exact queued
    have whole : s.Brought i r a n := ⟨answer, status, brought, .inl closed⟩
    exact whole.bytes_eq (sound.admitted r member) (stop.trans (r.length_words a).symm)

theorem faithful (sound : s.Sound q owed) : s.Faithful where
  readable := sound.readable
  attributed _ member kind := sound.attributed_all member kind
  delivers _ _ read := sound.delivers read
  resting answered sent _ _ read := sound.resting answered sent read
  fault := sound.fault

end Sound

theorem again_receive {s : Session} (again : s.again = none) (front : Option CompletionPacket)
    (flit : Flit) : (s.receive front flit).again = none := by
  unfold Session.receive
  split
  · rw [again_file, again]
  · exact again
  · split
    · rw [again_file]
    · rw [again_file, again]

/-- Only a reset makes a completion be sent again. -/
theorem again_step {s : Session} (again : s.again = none) {m : Move} (other : m ≠ .reset) :
    (s.step m).again = none := by
  cases m with
  | accept cycle flit =>
    change (s.accept cycle flit).again = none
    simp only [Session.accept]
    split
    · exact again
    · exact again
  | ready => exact again
  | request r => exact again
  | emit cycle ready =>
    change (s.observe _ (s.engine.emit cycle ready)).again = none
    unfold Session.observe
    split
    · exact again
    · exact again
    · apply again_receive
      exact again
  | reset => exact absurd rfl other
  | takeRequest =>
    change s.takeRequest.again = none
    unfold Session.takeRequest
    split
    · exact again
    · exact again
  | answerRead i a =>
    change (s.answerRead i a).again = none
    unfold Session.answerRead
    split
    · split
      · exact again
      · exact again
    · exact again
  | answerWrite a =>
    change (s.answerWrite a).again = none
    unfold Session.answerWrite
    split
    · exact again
    · exact again

theorem again_run {s : Session} (again : s.again = none) (moves : List Move)
    (no_reset : Move.reset ∉ moves) : (s.run moves).again = none := by
  induction moves generalizing s with
  | nil => exact again
  | cons m moves ih =>
    rw [List.mem_cons, not_or] at no_reset
    exact ih (again_step again (Ne.symm no_reset.1)) no_reset.2

/-- Whatever the device sends, the host asks for and host memory answers, and in whatever order:
unless there is a reset, the device gets what it has read. -/
theorem run_faithful (config : ValidParameters) (options : Switches) (random : DrawSource)
    (moves : List Move) (no_reset : Move.reset ∉ moves) :
    ((Session.start config options random).run moves).Faithful := by
  have again (n : Nat) : ((Session.start config options random).run (moves.take n)).again = none :=
    again_run rfl _ fun member => no_reset (List.mem_of_mem_take member)
  have clear (n : Nat) (m : Move) :
      ¬ ((Session.start config options random).run (moves.take n)).Misdirects m := by
    cases m with
    | emit cycle ready =>
      rintro ⟨⟨i, c, r, r', cut, -⟩, -⟩
      cases (again n).symm.trans cut
    | _ => exact id
  obtain ⟨q, owed, sound⟩ := (Sound.start config options random).run moves fun n m _ => clear n m
  exact sound.faithful

/-- Two reads under one tag, the second of which is answered first. -/
theorem run_faithful_two_reads :
    let config : ValidParameters := ⟨{ dataWidth := 256, tagMapper := true }, by decide⟩
    let read (byteSize : UInt32) (lastEnable : UInt8) : Flit :=
      { (Flit.blank 256 10).storing
          { fmtType := .memRead32, byteSize := byteSize, tag := 3
            body := .request { addr := 0x1000, firstEnable := 0xf, lastEnable := lastEnable } } with
        last := true }
    let moves : List Move :=
      [.accept 1 (read 8 0xf), .accept 2 (read 4 0),
        .answerRead 1 ⟨1, .valid, 0, 0, [9, 10, 11, 12]⟩, .emit 3 true,
        .answerRead 0 ⟨0, .valid, 0, 0, [1, 2, 3, 4, 5, 6, 7, 8]⟩, .emit 4 true, .emit 5 true,
        .emit 6 true]
    let s := (Session.start config { unlimitedBandwidth := true } .fullBandwidth).run moves
    Move.reset ∉ moves ∧ s.Faithful ∧ s.bytesOf 0 = [1, 2, 3, 4, 5, 6, 7, 8] ∧
      s.bytesOf 1 = [9, 10, 11, 12] := by
  intro config read moves s
  have no_reset : Move.reset ∉ moves := by simp [moves]
  exact ⟨no_reset, run_faithful _ _ _ moves no_reset, by decide +kernel, by decide +kernel⟩

end Session

end TlpBridge

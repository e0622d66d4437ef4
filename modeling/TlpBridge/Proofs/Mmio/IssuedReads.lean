import TlpBridge.Proofs.Mmio.MmioRuns

/-!
# Reads that the device was asked for

The engine gives a slot to an MMIO read when it takes the read, long before the device gets it. From
the stream alone the device knows how often it was asked for a slot and how often it has answered.
A read in a slot has reached the device exactly if one of its requests for that slot is unanswered.
-/
namespace TlpBridge

namespace MmioRequest

/-- The request is a read for a slot. -/
def readsSlot (r : MmioRequest) (slot : Nat) : Bool := !r.write && r.slot.toNat == slot

theorem readsSlot_iff {r : MmioRequest} {slot : Nat} :
    r.readsSlot slot ↔ r.write = false ∧ r.slot.toNat = slot := by
  simp [readsSlot]

theorem isMemoryRead_header (r : MmioRequest) (p : Parameters) :
    (r.header p).fmtType.isMemoryRead = !r.write := by
  have kinds : FmtType.memWrite32.isMemoryRead = false ∧ FmtType.memWrite64.isMemoryRead = false ∧
      FmtType.memRead32.isMemoryRead = true ∧ FmtType.memRead64.isMemoryRead = true := by decide
  unfold header
  cases r.write <;> cases decide (2 ^ 32 ≤ r.addr.toNat) <;> simp [kinds]

end MmioRequest

namespace Engine

/-- A running engine gets a beat of a completion with data for a slot. -/
def RepliesTo (e : Engine) (flit : Flit) (slot : Nat) : Prop :=
  e.halted = false ∧
    match e.fromDevice with
    | .start => ∃ h c, flit.header = .ok h ∧ h.body = .completion c ∧ h.fmtType.carriesData ∧
        h.tag.toNat = slot
    | .completion p => p.header.tag.toNat = slot
    | .write _ => False

/-- Such a beat that breaks no rule. -/
structure LawfulReply (e : Engine) (flit : Flit) (slot : Nat) (p p' : OpenPacket) (start : Nat) :
    Prop where
  running : e.halted = false
  beat : e.ReplyBeat flit p start
  data : e.fromDevice = .start → p.header.fmtType.carriesData
  slot : p.header.tag.toNat = slot
  extended : p.extend flit start (p.header.byteSize.toNat / 4) .mmioCompletion = .ok p'

variable {e : Engine} {flit : Flit} {slot : Nat} {p p' : OpenPacket} {start : Nat}

theorem LawfulReply.repliesTo (lawful : e.LawfulReply flit slot p p' start) :
    e.RepliesTo flit slot := by
  refine ⟨lawful.running, ?_⟩
  cases lawful.beat with
  | first between header body rules =>
    rw [between]
    exact ⟨_, _, header, body, lawful.data between, lawful.slot⟩
  | later inside =>
    rw [inside]
    exact lawful.slot

theorem accept_of_replyBeat (running : e.halted = false) (beat : e.ReplyBeat flit p start)
    (data : e.fromDevice = .start → p.header.fmtType.carriesData) (cycle : Nat) :
    ∃ effects, mmioResponses effects = [] ∧ e.accept cycle flit =
      ((e.idleAt cycle).acceptCompletionBeat p flit start).after effects := by
  unfold accept
  rw [if_neg (by rw [running]; exact Bool.false_ne_true)]
  cases beat with
  | @first h c between header body rules =>
    have kept : (e.idleAt cycle).completionFault? h c = none := rules
    refine ⟨[.report (.accepted cycle (some h) flit)], rfl, ?_⟩
    rw [between]
    change (e.idleAt cycle).acceptStart flit = _
    simp only [acceptStart, header, dispatch, body, acceptCompletion, kept]
    rw [if_neg (not_not.2 (data between))]
    rfl
  | later inside =>
    rw [inside]
    exact ⟨_, rfl, rfl⟩

theorem LawfulReply.accepted (lawful : e.LawfulReply flit slot p p' start) (cycle : Nat) :
    (e.accept cycle flit).answer = .ok () := by
  obtain ⟨effects, -, call⟩ :=
    accept_of_replyBeat lawful.running lawful.beat lawful.data cycle
  rw [call, acceptCompletionBeat, lawful.extended]
  simp only [EngineStep.after]
  split
  · rfl
  · rfl

/-- Every other beat of a completion with data halts the engine. -/
theorem RepliesTo.lawful_or_halts (replies : e.RepliesTo flit slot) (cycle : Nat) :
    (∃ p p' start, e.LawfulReply flit slot p p' start) ∨
      (∃ v h, (e.accept cycle flit).answer = .error (.protocol cycle v h)) ∧
        (e.accept cycle flit).state.halted := by
  have extends_or_halts (p : OpenPacket) (start : Nat) (slotOf : p.header.tag.toNat = slot)
      (beat : e.ReplyBeat flit p start)
      (data : e.fromDevice = .start → p.header.fmtType.carriesData) :
      (∃ p p' start, e.LawfulReply flit slot p p' start) ∨
        (∃ v h, (e.accept cycle flit).answer = .error (.protocol cycle v h)) ∧
          (e.accept cycle flit).state.halted := by
    cases extended : p.extend flit start (p.header.byteSize.toNat / 4) .mmioCompletion with
    | ok p' => exact .inl ⟨p, p', start, replies.1, beat, data, slotOf, extended⟩
    | error v =>
      obtain ⟨effects, -, call⟩ := accept_of_replyBeat replies.1 beat data cycle
      rw [call, acceptCompletionBeat, extended]
      exact .inr ⟨⟨v, _, rfl⟩, rfl⟩
  obtain ⟨running, place⟩ := replies
  cases inside : e.fromDevice with
  | write p =>
    rw [inside] at place
    exact absurd place id
  | completion p =>
    rw [inside] at place
    exact extends_or_halts p 0 place (.later inside) (fun between => by
      rw [inside] at between
      cases between)
  | start =>
    rw [inside] at place
    obtain ⟨h, c, header, body, data, slotOf⟩ := place
    cases rules : e.completionFault? h c with
    | none =>
      exact extends_or_halts ⟨h, []⟩ HeaderWords.count slotOf (.first inside header body rules)
        fun _ => data
    | some v =>
      right
      have broken : (e.idleAt cycle).completionFault? h c = some v := rules
      have call : e.accept cycle flit = ((e.idleAt cycle).haltOn (some h) flit v).after
          [.report (.accepted cycle (some h) flit)] := by
        unfold accept
        rw [if_neg (by rw [running]; exact Bool.false_ne_true), inside]
        change (e.idleAt cycle).acceptStart flit = _
        simp only [acceptStart, header, dispatch, body, acceptCompletion, broken]
        rw [if_neg (not_not.2 data)]
        rfl
      rw [call]
      exact ⟨⟨v, _, rfl⟩, rfl⟩

theorem lawfulReply_of_accepted (beat : e.ReplyBeat flit p start)
    (extended : p.extend flit start (p.header.byteSize.toNat / 4) .mmioCompletion = .ok p')
    {cycle : Nat} (answer : (e.accept cycle flit).answer = .ok ()) :
    e.LawfulReply flit p.header.tag.toNat p p' start := by
  have running : e.halted = false := by
    by_contra halted
    rw [accept, if_pos (eq_true_of_ne_false halted)] at answer
    cases answer
  refine ⟨running, beat, fun between => ?_, rfl, extended⟩
  cases beat with
  | later inside => cases between.symm.trans inside
  | @first h c _ header body _ =>
    by_contra noData
    rw [accept, if_neg (by rw [running]; exact Bool.false_ne_true), between] at answer
    simp only [acceptStart, header, dispatch, body, acceptCompletion] at answer
    rw [if_pos noData] at answer
    cases answer

end Engine

namespace MmioLog

/-- Whether a packet to the device asks it for a slot. -/
def asksFor (slot : Nat) (beats : List AnsweredBeat) : Bool :=
  match beats with
  | [] => false
  | first :: _ =>
    match first.flit.header with
    | .ok h => h.fmtType.isMemoryRead && h.tag.toNat == slot
    | .error _ => false

/-- How often the device was asked for a slot. -/
def asked (l : MmioLog) (slot : Nat) : Nat := l.begun.countP (asksFor slot)

/-- How often the device has answered for a slot. -/
def replied (l : MmioLog) (slot : Nat) : Nat :=
  l.answers.countP fun a => a.response.slot.toNat == slot

/-- The packet of the request with number `k` has reached the device. -/
def Issued (l : MmioLog) (k : Nat) : Prop := k < sent l.begun

/-- The request with number `k` is still in the queue to the device. -/
def Waits (l : MmioLog) (k : Nat) : Prop := l.accepted.length ≤ k + l.engine.mmioQueue.length

/-! ## Packets that ask -/

variable {c : ValidParameters} {accepted : List MmioRequest} {packets : List (List AnsweredBeat)}
  {beats : List AnsweredBeat} {r : MmioRequest} {slot : Nat}

theorem asksFor_of_sends (sends : r.Sends c beats) (slot : Nat) :
    asksFor slot beats = r.readsSlot slot := by
  obtain ⟨first, rest, rfl⟩ := List.exists_cons_of_ne_nil sends.nonempty
  have header := (sends.beat 0 first rfl).header rfl
  simp only [asksFor, header, r.isMemoryRead_header]
  rfl

theorem isWhole_of_sends (sends : r.Sends c beats) (read : r.write = false) :
    isWhole beats := by
  obtain ⟨first, rest, rfl⟩ := List.exists_cons_of_ne_nil sends.nonempty
  have empty : (Source.mmio r).payload = [] := if_neg (by simp [read])
  have ends : first.flit.last = true := by
    rw [(sends.beat 0 first rfl).last, empty, decide_eq_true_eq]
    exact c.wide_dwordWidth.trans (Nat.le_of_eq (Nat.mul_one _).symm)
  cases rest with
  | nil => exact ends
  | cons second rest =>
    have goesOn := sends.goesOn first (by simp)
    rw [ends] at goesOn
    cases goesOn

theorem InOrder.of_concat (order : InOrder c accepted (packets ++ [beats])) :
    InOrder c accepted packets ∧ ∃ r, accepted[sent packets]? = some r ∧ r.Sends c beats := by
  refine ⟨fun before p after split => ?_, order packets beats [] rfl⟩
  exact order before p (after ++ [beats]) (by rw [split]; simp)

theorem countP_asksFor (order : InOrder c accepted packets) (slot : Nat) :
    packets.countP (asksFor slot) =
      (accepted.take (sent packets)).countP (·.readsSlot slot) := by
  induction packets using List.reverseRecOn with
  | nil => simp [sent]
  | append_singleton packets beats ih =>
    obtain ⟨order, r, next, sends⟩ := order.of_concat
    rw [List.countP_append, List.countP_singleton, ih order, asksFor_of_sends sends, sent_concat]
    by_cases whole : isWhole beats
    · rw [if_pos whole, List.take_add_one, next, List.countP_append]
      simp [List.countP_singleton]
    · -- Only a write can be cut off.
      have write : r.write = true := by
        by_contra read
        exact whole (isWhole_of_sends sends (Bool.eq_false_of_not_eq_true read))
      simp [whole, MmioRequest.readsSlot, write]

/-! ## Slots and counts -/

/-- A beat of the device brings no answer, or it ends a completion for a slot and brings the one
answer to the read in that slot. -/
theorem Returns.accept_cases {l : MmioLog} (returns : l.Returns) (attached : l.engine.mmioAttached)
    (cycle : Nat) (flit : Flit) :
    ((l.accept cycle flit).occupant = l.occupant ∧ (l.accept cycle flit).answers = l.answers) ∨
    ∃ p p' start k tid, l.engine.LawfulReply flit p.header.tag.toNat p p' start ∧ flit.last ∧
      l.occupant p.header.tag.toNat = some k ∧
      (l.accept cycle flit).occupant = Function.update l.occupant p.header.tag.toNat none ∧
      (l.accept cycle flit).answers = l.answers ++ [⟨some k, Engine.mmioReadResponse tid p.header
        (p.header.completion?.getD {}) p'.payload, l.incoming ++ [flit]⟩] := by
  by_cases halted : l.engine.halted
  · rw [l.accept_silent (by rw [Engine.accept, if_pos halted]; rfl)]
    exact .inl ⟨rfl, rfl⟩
  · have replying := returns.follows.resolve_left halted
    cases l.engine.accept_replies attached cycle flit with
    | refused _ silent _ _ =>
      rw [l.accept_silent silent]
      exact .inl ⟨rfl, rfl⟩
    | other _ silent _ _ =>
      rw [l.accept_silent silent]
      exact .inl ⟨rfl, rfl⟩
    | open_ _ _ _ _ silent _ _ =>
      rw [l.accept_silent silent]
      exact .inl ⟨rfl, rfl⟩
    | @reply p p' start beat extended last answer response _ _ =>
      obtain ⟨k, occupied⟩ := Option.isSome_iff_exists.1
        ((returns.houses.isSome_iff _).1 (beat.joins replying).waiting)
      rw [l.accept_answering response answer last]
      refine .inr ⟨p, p', start, k,
        ((l.engine.mmioReads[p.header.tag.toNat]?).join.getD default).tid,
        Engine.lawfulReply_of_accepted beat extended answer, last, occupied, rfl, ?_⟩
      simp only [Engine.mmioReadResponse, occupied]

/-- The reads for each slot are those that were answered and the one in it, which is the last. -/
structure Tally (l : MmioLog) : Prop where
  latest : ∀ (slot k j : Nat) (r : MmioRequest), l.occupant slot = some k →
    l.accepted[j]? = some r → r.readsSlot slot → j ≤ k
  count : ∀ slot, l.replied slot + (if (l.occupant slot).isSome then 1 else 0) =
    l.accepted.countP (·.readsSlot slot)

namespace Tally

variable {l l' : MmioLog}

theorem start (config : ValidParameters) (options : Switches) (random : DrawSource) :
    (MmioLog.start config options random).Tally where
  latest _ _ _ _ occupied := nomatch occupied
  count _ := rfl

theorem congr (tally : l.Tally) (accepted : l'.accepted = l.accepted)
    (occupant : l'.occupant = l.occupant) (answers : l'.answers = l.answers) : l'.Tally where
  latest := by
    rw [accepted, occupant]
    exact tally.latest
  count slot := by
    rw [replied, accepted, occupant, answers]
    exact tally.count slot

theorem accept (tally : l.Tally) (returns : l.Returns) (attached : l.engine.mmioAttached)
    (cycle : Nat) (flit : Flit) : (l.accept cycle flit).Tally := by
  obtain ⟨_, _, _, seen⟩ := l.accept_eq cycle flit
  have accepted : (l.accept cycle flit).accepted = l.accepted := by rw [seen]
  rcases returns.accept_cases attached cycle flit with
    ⟨occupant, answers⟩ | ⟨p, p', -, k, tid, -, -, occupied, occupant, answers⟩
  · exact tally.congr accepted occupant answers
  · constructor
    case latest =>
      intro slot k' j r occupied'
      rw [occupant, Function.update_apply] at occupied'
      rw [accepted]
      split at occupied'
      · cases occupied'
      · exact tally.latest slot k' j r occupied'
    case count =>
      intro slot
      rw [replied, accepted, occupant, answers, List.countP_append, List.countP_singleton,
        Function.update_apply, ← tally.count slot, replied]
      change _ + (if p.header.tag.toNat == slot then 1 else 0) + _ = _
      by_cases same : slot = p.header.tag.toNat
      · simp [same, occupied]
      · simp [same, Ne.symm same]

theorem write (tally : l.Tally) {r : MmioRequest} (write : r.write)
    (accepted : l'.accepted = l.accepted ++ [r]) (occupant : l'.occupant = l.occupant)
    (answers : l'.answers = l.answers) : l'.Tally := by
  have other (slot : Nat) : ¬ r.readsSlot slot := by simp [MmioRequest.readsSlot, write]
  constructor
  case latest =>
    intro slot k j r' occupied taken reads
    rw [occupant] at occupied
    rw [accepted] at taken
    rcases getElem?_concat_eq_some_iff.1 taken with earlier | ⟨-, rfl⟩
    · exact tally.latest slot k j r' occupied earlier reads
    · exact absurd reads (other slot)
  case count =>
    intro slot
    rw [replied, accepted, occupant, answers, List.countP_append, List.countP_singleton,
      if_neg (other slot)]
    exact tally.count slot

/-- A read is the last one for its slot, which was idle. -/
theorem read (tally : l.Tally) {r : MmioRequest} (read : r.write = false)
    (idle : l.occupant r.slot.toNat = none) (accepted : l'.accepted = l.accepted ++ [r])
    (occupant : l'.occupant =
      Function.update l.occupant r.slot.toNat (some l.accepted.length))
    (answers : l'.answers = l.answers) : l'.Tally := by
  constructor
  case latest =>
    intro slot k j r' occupied taken reads
    rw [accepted] at taken
    rw [occupant, Function.update_apply] at occupied
    split at occupied
    · have inside := (List.getElem?_eq_some_iff.1 taken).1
      rw [List.length_append, List.length_singleton] at inside
      rw [← Option.some.inj occupied]
      exact Nat.le_of_lt_succ inside
    · next other =>
      rcases getElem?_concat_eq_some_iff.1 taken with earlier | ⟨-, rfl⟩
      · exact tally.latest slot k j r' occupied earlier reads
      · exact absurd (MmioRequest.readsSlot_iff.1 reads).2.symm other
  case count =>
    intro slot
    have before := tally.count slot
    rw [replied] at before
    rw [replied, accepted, occupant, answers, List.countP_append, List.countP_singleton,
      Function.update_apply, ← before]
    by_cases same : slot = r.slot.toNat
    · subst same
      simp [MmioRequest.readsSlot, read, idle]
    · simp [MmioRequest.readsSlot, same, Ne.symm same]

theorem request (tally : l.Tally) (returns : l.Returns) (r : MmioRequest) :
    (l.request r).Tally := by
  rcases l.request_cases r with ⟨halted, seen, -⟩ | ⟨kept, seen, -⟩
  · exact tally.congr (by rw [seen]) (by rw [seen]) (by rw [seen])
  · cases kind : r.write with
    | true =>
      rw [kind, if_pos rfl] at seen
      exact tally.write kind (by rw [seen]) (by rw [seen]) (by rw [seen])
    | false =>
      rw [kind, if_neg Bool.false_ne_true] at seen
      have free : l.engine.waiting r.slot.toNat = none :=
        congrArg Option.join (Engine.free_of_requestFault? kept kind)
      obtain ⟨idle, -⟩ := returns.houses.read kind free l.engine.cycle
      exact tally.read kind idle (by rw [seen]) (by rw [seen]) (by rw [seen])

theorem step (tally : l.Tally) (returns : l.Returns) (attached : l.engine.mmioAttached)
    (call : Engine.Call) : (l.step call).Tally := by
  cases call with
  | accept cycle flit => exact tally.accept returns attached cycle flit
  | request r => exact tally.request returns r
  | emit cycle ready =>
    obtain ⟨_, _, _, seen⟩ := l.observe_eq (l.engine.emit cycle ready)
    change (l.observe (l.engine.emit cycle ready)).Tally
    exact tally.congr (by rw [seen]) (by rw [seen]) (by rw [seen])
  | ready => exact tally.congr rfl rfl rfl
  | reset => exact tally.congr rfl rfl rfl
  | serve link => exact tally.congr rfl rfl rfl

theorem run (tally : l.Tally) (delivers : l.Delivers c) (returns : l.Returns)
    (calls : List Engine.Call) : (l.run calls).Tally := by
  induction calls generalizing l with
  | nil => exact tally
  | cons call rest ih =>
    exact ih (tally.step returns delivers.attached call) (delivers.step call)
      (returns.step delivers.attached call)

/-- A read in a slot has reached the device exactly if the device was asked for the slot more often
than it has answered for it. -/
theorem issued_iff (tally : l.Tally) (delivers : l.Delivers c) (returns : l.Returns) {slot k : Nat}
    (occupied : l.occupant slot = some k) : l.Issued k ↔ l.replied slot < l.asked slot := by
  obtain ⟨r, -, taken, read, home, -⟩ := returns.houses.held slot k occupied
  have reads : r.readsSlot slot := MmioRequest.readsSlot_iff.2 ⟨read, home⟩
  have count := tally.count slot
  rw [occupied, Option.isSome_some, if_pos rfl] at count
  rw [asked, countP_asksFor delivers.begun.1.order, Issued]
  generalize sent l.begun = n
  -- The reads for the slot are split where the requests that were sent end.
  have split : (l.accepted.take n).countP (·.readsSlot slot) +
      (l.accepted.drop n).countP (·.readsSlot slot) = l.replied slot + 1 := by
    rw [← List.countP_append, List.take_append_drop, count]
  have unsent : n ≤ k ↔ 0 < (l.accepted.drop n).countP (·.readsSlot slot) := by
    rw [List.countP_pos_iff]
    constructor
    · intro behind
      refine ⟨r, List.mem_of_getElem? (i := k - n) ?_, reads⟩
      rw [List.getElem?_drop, Nat.add_sub_cancel' behind, taken]
    · rintro ⟨r', member, reads'⟩
      obtain ⟨j, found⟩ := List.mem_iff_getElem?.1 member
      rw [List.getElem?_drop] at found
      exact (Nat.le_add_right n j).trans (tally.latest slot k _ r' occupied found reads')
  omega

end Tally

/-! ## Answers to reads that were not issued -/

theorem Delivers.waits_iff {l : MmioLog} (delivers : l.Delivers c) (k : Nat) :
    l.Waits k ↔ ¬ l.Issued k := by
  have inside := delivers.serve.inside
  rw [Waits, Issued, delivers.begun.2, delivers.queue, List.length_drop]
  omega

/-- Only a read that has reached the device is answered: a beat of the device brings no answer to
another read, and a beat of a completion for a read that still waits halts the engine. -/
structure AwaitsIssue (l : MmioLog) (cycle : Nat) (flit : Flit) : Prop where
  answered : ∀ answers, (l.accept cycle flit).answers = l.answers ++ answers →
    ∀ a ∈ answers, ∃ k, a.number = some k ∧ l.Issued k
  refused : ∀ slot k, l.engine.RepliesTo flit slot → l.occupant slot = some k → l.Waits k →
    (∃ v h, (l.engine.accept cycle flit).answer = .error (.protocol cycle v h)) ∧
      (l.engine.accept cycle flit).state.halted

/-- The beat is one of a completion without fault for a slot for which the device was asked nothing
that it has not answered. -/
def Unasked (l : MmioLog) (flit : Flit) : Prop :=
  ∃ slot p p' start, l.engine.LawfulReply flit slot p p' start ∧ l.asked slot ≤ l.replied slot

variable {l : MmioLog}

theorem Returns.occupied_of_lawfulReply (returns : l.Returns) {flit : Flit} {p p' : OpenPacket}
    {start : Nat} (lawful : l.engine.LawfulReply flit slot p p' start) :
    ∃ k, l.occupant slot = some k := by
  have replying := returns.follows.resolve_left (by simp [lawful.running])
  have waiting := (lawful.beat.joins replying).waiting
  rw [lawful.slot] at waiting
  exact Option.isSome_iff_exists.1 ((returns.houses.isSome_iff slot).1 waiting)

theorem Tally.awaitsIssue_iff (tally : l.Tally) (delivers : l.Delivers c) (returns : l.Returns)
    (cycle : Nat) (flit : Flit) : l.AwaitsIssue cycle flit ↔ ¬ l.Unasked flit := by
  constructor
  · rintro awaits ⟨slot, p, p', start, lawful, quiet⟩
    obtain ⟨k, occupied⟩ := returns.occupied_of_lawfulReply lawful
    have waits := (delivers.waits_iff k).2 fun issued =>
      Nat.not_lt.2 quiet ((tally.issued_iff delivers returns occupied).1 issued)
    obtain ⟨⟨v, h, stopped⟩, -⟩ := awaits.refused slot k lawful.repliesTo occupied waits
    cases (lawful.accepted cycle).symm.trans stopped
  · intro asked
    have issued {slot k : Nat} {p p' : OpenPacket} {start : Nat}
        (lawful : l.engine.LawfulReply flit slot p p' start) (occupied : l.occupant slot = some k) :
        l.Issued k := by
      refine (tally.issued_iff delivers returns occupied).2 (Nat.lt_of_not_le fun quiet => ?_)
      exact asked ⟨slot, p, p', start, lawful, quiet⟩
    constructor
    case answered =>
      intro answers seen a member
      rcases returns.accept_cases delivers.attached cycle flit with
        ⟨-, none_⟩ | ⟨p, p', start, k, tid, lawful, -, occupied, -, one⟩
      · have empty := List.append_right_eq_self.1 (seen.symm.trans none_)
        rw [empty] at member
        cases member
      · have single := List.append_cancel_left (seen.symm.trans one)
        rw [single, List.mem_singleton] at member
        exact ⟨k, by rw [member], issued lawful occupied⟩
    case refused =>
      intro slot k replies occupied waits
      rcases replies.lawful_or_halts cycle with ⟨p, p', start, lawful⟩ | halts
      · exact absurd (issued lawful occupied) ((delivers.waits_iff k).1 waits)
      · exact halts

/-- In every run the engine answers for reads that were issued exactly as long as the device does
not answer unasked: nothing but the device keeps a completion from a read that still waits. -/
theorem run_awaitsIssue_iff (config : ValidParameters) (options : Switches) (random : DrawSource)
    (calls : List Engine.Call) (cycle : Nat) (flit : Flit) :
    ((start config options random).run calls).AwaitsIssue cycle flit ↔
      ¬ ((start config options random).run calls).Unasked flit := by
  have fresh := Delivers.start config options random
  have returned := Returns.start config options random
  obtain ⟨delivers, returns⟩ := fresh.run returned calls
  have tally := (Tally.start config options random).run fresh returned calls
  exact tally.awaitsIssue_iff delivers returns cycle flit

/-- A completion for a read that no packet has asked for yet. -/
example :
    let config : ValidParameters := ⟨{ dataWidth := 256 }, by decide⟩
    let completion : Flit := (Flit.blank 256 10).storing
      { fmtType := .completionData, byteSize := 4, body := .completion { byteCount := 4 } }
    let payload : Flit := { (Flit.blank 256 10).setDword 0 0x08070605 with last := true }
    let l := (start config {} .fullBandwidth).run
      [.request (.read 5 0 0x40 32), .accept 1 completion, .accept 2 payload]
    l.answers.map (fun a => (a.number, a.response.tid)) = [(some 0, 5)] ∧ l.begun.length = 0 := by
  decide +kernel

end MmioLog

end TlpBridge

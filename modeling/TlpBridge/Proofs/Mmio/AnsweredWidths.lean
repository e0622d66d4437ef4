import TlpBridge.Proofs.Mmio.IssuedReads
import TlpBridge.Proofs.Tlp.NormalForms
import TlpBridge.Proofs.Tlp.UnreadableHeaders

/-!
# Widths of answers

The engine takes the length of an answer from the completion alone. It checks that the completion
is not split and not too long, and nowhere looks at the width of the read that waits in the slot: a
read is answered with as many bytes as it asked for exactly as long as the device keeps to that.
-/
namespace TlpBridge

namespace Header

/-- A completion of this length passes the checks on an MMIO read in some slot. -/
structure AnswersMmio (h : Header) (c : ValidParameters) : Prop where
  nonempty : 0 < h.byteSize.toNat
  aligned : h.byteSize.toNat % 4 = 0
  atMost64 : h.byteSize.toNat ≤ 64
  atMostRead : h.byteSize.toNat ≤ c.params.maxReadBytes

end Header

namespace Engine

variable {e : Engine} {flit : Flit} {slot : Nat} {p p' : OpenPacket} {start : Nat}

/-- A running engine gets a beat of a completion with data, which has the given header. -/
def RepliesWith (e : Engine) (flit : Flit) (h : Header) : Prop :=
  e.halted = false ∧
    match e.fromDevice with
    | .start => flit.header = .ok h ∧ h.fmtType.carriesData ∧ ∃ c, h.body = .completion c
    | .completion p => p.header = h
    | .write _ => False

theorem RepliesWith.repliesTo {h : Header} (replies : e.RepliesWith flit h) :
    e.RepliesTo flit h.tag.toNat := by
  obtain ⟨running, place⟩ := replies
  refine ⟨running, ?_⟩
  cases inside : e.fromDevice with
  | start =>
    rw [inside] at place
    obtain ⟨header, data, c, body⟩ := place
    exact ⟨h, c, header, body, data, rfl⟩
  | completion p =>
    rw [inside] at place
    exact congrArg (·.tag.toNat) place
  | write p =>
    rw [inside] at place
    exact place

theorem LawfulReply.repliesWith (lawful : e.LawfulReply flit slot p p' start) :
    e.RepliesWith flit p.header := by
  refine ⟨lawful.running, ?_⟩
  cases lawful.beat with
  | first between header body rules =>
    rw [between]
    exact ⟨header, lawful.data between, _, body⟩
  | later inside => rw [inside]

theorem LawfulReply.header_eq {h : Header} (lawful : e.LawfulReply flit slot p p' start)
    (replies : e.RepliesWith flit h) : p.header = h := by
  have place := lawful.repliesWith.2
  have place' := replies.2
  cases inside : e.fromDevice with
  | start =>
    rw [inside] at place place'
    exact Except.ok.inj (place.1.symm.trans place'.1)
  | completion q =>
    rw [inside] at place place'
    exact place.symm.trans place'
  | write q =>
    rw [inside] at place
    exact absurd place id

theorem LawfulReply.responses (lawful : e.LawfulReply flit slot p p' start)
    (attached : e.mmioAttached) (last : flit.last) (cycle : Nat) :
    ∃ tid, mmioResponses (e.accept cycle flit).events =
      [mmioReadResponse tid p.header (p.header.completion?.getD {}) p'.payload] := by
  obtain ⟨effects, silent, call⟩ :=
    accept_of_replyBeat lawful.running lawful.beat lawful.data cycle
  refine ⟨((e.mmioReads[p.header.tag.toNat]?).join.getD default).tid, ?_⟩
  rw [call, acceptCompletionBeat, lawful.extended, ← OpenPacket.header_extend lawful.extended]
  simp only [last, if_true, EngineStep.after, mmioResponses_append, silent, List.nil_append]
  exact mmioResponses_deliver (e := e.idleAt cycle) attached _

theorem answersMmio_of_completionFault? {h : Header} {c : CompletionBody}
    (header : flit.header = .ok h) (body : h.body = .completion c)
    (rules : e.completionFault? h c = none) : h.AnswersMmio e.config := by
  obtain ⟨w, dataMover, -, d⟩ := flit.decodes_of_header header
  have carried := h.fault?_eq_none_iff_carried.1 d.fault?
  have counted : 0 < c.byteCount.toNat ∧ h.byteSize.toNat % 4 = 0 := by
    cases carried.layout with
    | completion c' body' _ _ length counted _ _ _ =>
      cases body.symm.trans body'
      exact ⟨counted.1, length.1⟩
    | powerUserRequest _ body' | dataMoverRequest _ body' | interrupt _ body' | generic body' =>
      cases body.symm.trans body'
  unfold completionFault? at rules
  split at rules
  · cases rules
  split at rules
  · cases rules
  split at rules
  · cases rules
  next whole =>
  split at rules
  · cases rules
  next short =>
  split at rules
  · cases rules
  next narrow =>
  have atMost : c.byteCount.toNat ≤ 64 := Nat.le_of_not_lt narrow
  have same : h.byteSize.toNat = c.byteCount.toNat := not_not.1 whole
  exact ⟨by omega, counted.2, by omega, Nat.le_of_not_lt short⟩

/-- The completion that the device has sent a part of passed the checks. -/
def AnswersMmio (e : Engine) : Prop :=
  ∀ p, e.fromDevice = .completion p → p.header.AnswersMmio e.config

theorem ReplyBeat.answersMmio (beat : e.ReplyBeat flit p start) (answers : e.AnswersMmio) :
    p.header.AnswersMmio e.config := by
  cases beat with
  | first between header body rules => exact answersMmio_of_completionFault? header body rules
  | later inside => exact answers p inside

theorem AnswersMmio.of_not_completion (other : ∀ p, e.fromDevice ≠ .completion p) :
    e.AnswersMmio :=
  fun p inside => absurd inside (other p)

theorem AnswersMmio.accept (answers : e.AnswersMmio) (attached : e.mmioAttached) (cycle : Nat)
    (flit : Flit) : (e.accept cycle flit).state.AnswersMmio := by
  have config : (e.accept cycle flit).state.config = e.config :=
    e.config_perform (.accept cycle flit)
  cases e.accept_replies attached cycle flit with
  | refused _ _ _ after =>
    rcases after with ⟨-, same⟩ | idle
    · rw [same]
      exact answers
    · exact .of_not_completion (by simp [idle])
  | other _ _ _ after =>
    refine .of_not_completion fun p inside => ?_
    rw [inside] at after
    split at after
    · cases after
    · obtain ⟨q, writes⟩ := after
      cases writes
  | open_ beat extended _ _ _ _ after =>
    intro q inside
    obtain rfl := FromDeviceState.completion.inj (after.symm.trans inside)
    rw [OpenPacket.header_extend extended, config]
    exact beat.answersMmio answers
  | reply _ _ _ _ _ _ idle => exact .of_not_completion (by simp [idle])

/-- What a call preserves. -/
theorem AnswersMmio.perform (answers : e.AnswersMmio) (attached : e.mmioAttached) (call : Call) :
    (e.perform call).AnswersMmio := by
  have config := e.config_perform call
  have congr (fromDevice : (e.perform call).fromDevice = e.fromDevice) :
      (e.perform call).AnswersMmio := by
    intro p inside
    rw [config]
    exact answers p (fromDevice.symm.trans inside)
  cases call with
  | accept cycle flit => exact answers.accept attached cycle flit
  | ready =>
    refine congr ?_
    change e.ready.2.fromDevice = e.fromDevice
    unfold ready
    split <;> rfl
  | request r =>
    refine congr ?_
    change (e.request r).state.fromDevice = e.fromDevice
    unfold request
    split
    · rfl
    · split <;> rfl
  | emit cycle ready => exact congr (e.keepsDevice_emit cycle ready).fromDevice
  | reset => exact .of_not_completion (by simp [Engine.perform, reset])
  | serve link => exact congr rfl

end Engine

/-! ## Answers of the width that was asked for -/

/-- The answer is one completion of an MMIO read: its width is that of its data, which are whole
DWORDs. -/
structure MmioAnswer.Sized (a : MmioAnswer) (c : ValidParameters) : Prop where
  width : a.response.widthBits = 8 * a.response.data.length
  nonempty : 0 < a.response.data.length
  aligned : a.response.data.length % 4 = 0
  atMost64 : a.response.data.length ≤ 64
  atMostRead : a.response.data.length ≤ c.params.maxReadBytes

namespace MmioLog

variable {l : MmioLog} {c : ValidParameters}

/-- The answer has the width of its read, and the data to fill it. -/
def InFull (l : MmioLog) (a : MmioAnswer) : Prop :=
  ∃ k r, a.number = some k ∧ l.accepted[k]? = some r ∧ a.response.widthBits = r.widthBits ∧
    a.response.data.length = r.widthBits / 8

/-- Every read is answered with as many bytes as it asked for. -/
def AllInFull (l : MmioLog) : Prop := ∀ a ∈ l.answers, l.InFull a

/-- What a beat of the device may bring: answers with as many bytes as were asked for, and for a
completion of any other length a violation that halts the engine. -/
structure AnswersInFull (l : MmioLog) (cycle : Nat) (flit : Flit) : Prop where
  answered : ∀ answers, (l.accept cycle flit).answers = l.answers ++ answers →
    ∀ a ∈ answers, (l.accept cycle flit).InFull a
  refused : ∀ h k r, l.engine.RepliesWith flit h → flit.last → l.occupant h.tag.toNat = some k →
    l.accepted[k]? = some r → h.byteSize.toNat ≠ r.widthBits / 8 →
      (∃ v h, (l.engine.accept cycle flit).answer = .error (.protocol cycle v h)) ∧
        (l.engine.accept cycle flit).state.halted

/-- The beat ends a completion without fault for a read of another width. -/
def Misfits (l : MmioLog) (flit : Flit) : Prop :=
  flit.last ∧ ∃ p p' start k r, l.engine.LawfulReply flit p.header.tag.toNat p p' start ∧
    l.occupant p.header.tag.toNat = some k ∧ l.accepted[k]? = some r ∧
    p.header.byteSize.toNat ≠ r.widthBits / 8

/-! ## One beat -/

theorem inFull_iff {a : MmioAnswer} {k : Nat} {r : MmioRequest} (number : a.number = some k)
    (taken : l.accepted[k]? = some r) : l.InFull a ↔
      a.response.widthBits = r.widthBits ∧ a.response.data.length = r.widthBits / 8 := by
  constructor
  · rintro ⟨k', r', number', taken', full⟩
    obtain rfl := Option.some.inj (number.symm.trans number')
    obtain rfl := Option.some.inj (taken.symm.trans taken')
    exact full
  · intro full
    exact ⟨k, r, number, taken, full⟩

theorem Returns.answers_of_lawfulReply (returns : l.Returns) (attached : l.engine.mmioAttached)
    {flit : Flit} {p p' : OpenPacket} {start k : Nat}
    (lawful : l.engine.LawfulReply flit p.header.tag.toNat p p' start) (last : flit.last)
    (occupied : l.occupant p.header.tag.toNat = some k) (cycle : Nat) :
    ∃ a, (l.accept cycle flit).answers = l.answers ++ [a] ∧ a.number = some k ∧
      a.response.widthBits = 8 * p.header.byteSize.toNat ∧
      a.response.data.length = p.header.byteSize.toNat := by
  obtain ⟨tid, response⟩ := lawful.responses attached last cycle
  have joins := lawful.beat.joins (returns.follows.resolve_left (by simp [lawful.running]))
  rw [l.accept_answering response (lawful.accepted cycle) last]
  exact ⟨_, rfl, occupied, Nat.mul_comm .., joins.length_data lawful.extended last⟩

theorem Delivers.inFull_iff_byteSize (delivers : l.Delivers c) {a : MmioAnswer} {k : Nat}
    {r : MmioRequest} {h : Header} (number : a.number = some k) (taken : l.accepted[k]? = some r)
    (width : a.response.widthBits = 8 * h.byteSize.toNat)
    (data : a.response.data.length = h.byteSize.toNat) :
    l.InFull a ↔ h.byteSize.toNat = r.widthBits / 8 := by
  have aligned := (delivers.legal r (List.mem_of_getElem? taken)).aligned
  rw [inFull_iff number taken, width, data]
  omega

theorem Misfits.answered {flit : Flit} (misfits : l.Misfits flit) (delivers : l.Delivers c)
    (returns : l.Returns) (cycle : Nat) :
    (l.engine.accept cycle flit).answer = .ok () ∧
      ∃ a, (l.accept cycle flit).answers = l.answers ++ [a] ∧ ¬ (l.accept cycle flit).InFull a := by
  obtain ⟨last, p, p', start, k, r, lawful, occupied, taken, other⟩ := misfits
  obtain ⟨a, answers, number, width, data⟩ :=
    returns.answers_of_lawfulReply delivers.attached lawful last occupied cycle
  have taken' : (l.accept cycle flit).accepted[k]? = some r := by
    obtain ⟨_, _, _, seen⟩ := l.accept_eq cycle flit
    rw [seen]
    exact taken
  exact ⟨lawful.accepted cycle, a, answers, fun full => other
    (((delivers.accept cycle flit).inFull_iff_byteSize number taken' width data).1 full)⟩

theorem Returns.inFull_of_not_misfits (returns : l.Returns) (delivers : l.Delivers c)
    {cycle : Nat} {flit : Flit} (fits : ¬ l.Misfits flit) {answers : List MmioAnswer}
    (seen : (l.accept cycle flit).answers = l.answers ++ answers) :
    ∀ a ∈ answers, (l.accept cycle flit).InFull a := by
  intro a member
  rcases returns.accept_cases delivers.attached cycle flit with
    ⟨-, none_⟩ | ⟨p, p', start, k, tid, lawful, last, occupied, -, -⟩
  · have empty := List.append_right_eq_self.1 (seen.symm.trans none_)
    rw [empty] at member
    cases member
  · obtain ⟨a', one, number, width, data⟩ :=
      returns.answers_of_lawfulReply delivers.attached lawful last occupied cycle
    obtain rfl : a = a' := by
      have single := List.append_cancel_left (seen.symm.trans one)
      rwa [single, List.mem_singleton] at member
    obtain ⟨r, -, taken, -⟩ := returns.houses.held _ k occupied
    have size : p.header.byteSize.toNat = r.widthBits / 8 := by
      by_contra other
      exact fits ⟨last, p, p', start, k, r, lawful, occupied, taken, other⟩
    refine ((delivers.accept cycle flit).inFull_iff_byteSize number ?_ width data).2 size
    obtain ⟨_, _, _, same⟩ := l.accept_eq cycle flit
    rw [same]
    exact taken

theorem Delivers.answersInFull_iff (delivers : l.Delivers c) (returns : l.Returns) (cycle : Nat)
    (flit : Flit) : l.AnswersInFull cycle flit ↔ ¬ l.Misfits flit := by
  constructor
  · intro inFull misfits
    obtain ⟨-, a, answers, short⟩ := misfits.answered delivers returns cycle
    exact short (inFull.answered [a] answers a (List.mem_singleton.2 rfl))
  · intro fits
    refine ⟨fun answers seen => returns.inFull_of_not_misfits delivers fits seen, ?_⟩
    intro h k r replies last occupied taken other
    rcases replies.repliesTo.lawful_or_halts cycle with ⟨p, p', start, lawful⟩ | halts
    · obtain rfl := lawful.header_eq replies
      exact absurd ⟨last, p, p', start, k, r, lawful, occupied, taken, other⟩ fits
    · exact halts

/-! ## Runs -/

theorem engine_step (l : MmioLog) (call : Engine.Call) :
    (l.step call).engine = l.engine.perform call := by
  cases call with
  | accept cycle flit =>
    obtain ⟨_, _, _, seen⟩ := l.accept_eq cycle flit
    rw [step, seen]
    rfl
  | request r =>
    rw [step, request]
    split
    · rfl
    · split <;> rfl
  | emit cycle ready =>
    obtain ⟨_, _, _, seen⟩ := l.observe_eq (l.engine.emit cycle ready)
    rw [step, seen]
    rfl
  | ready | reset | serve => rfl

theorem accepted_step (l : MmioLog) (call : Engine.Call) :
    l.accepted <+: (l.step call).accepted := by
  cases call with
  | accept cycle flit =>
    obtain ⟨_, _, _, seen⟩ := l.accept_eq cycle flit
    rw [step, seen]
  | request r =>
    rw [step]
    rcases l.request_cases r with ⟨_, seen, -⟩ | ⟨-, seen, -⟩
    · rw [seen]
    · rw [seen]
      exact List.prefix_append ..
  | emit cycle ready =>
    obtain ⟨_, _, _, seen⟩ := l.observe_eq (l.engine.emit cycle ready)
    rw [step, seen]
  | ready | reset | serve => exact List.prefix_rfl

theorem answers_step (l : MmioLog) {call : Engine.Call}
    (other : ∀ cycle flit, call ≠ .accept cycle flit) : (l.step call).answers = l.answers := by
  cases call with
  | accept cycle flit => exact absurd rfl (other cycle flit)
  | request r =>
    rw [step]
    rcases l.request_cases r with ⟨_, seen, -⟩ | ⟨-, seen, -⟩
    · rw [seen]
    · rw [seen]
  | emit cycle ready =>
    obtain ⟨_, _, _, seen⟩ := l.observe_eq (l.engine.emit cycle ready)
    rw [step, seen]
  | ready | reset | serve => rfl

theorem Returns.inFull_step_iff (returns : l.Returns) (call : Engine.Call) {a : MmioAnswer}
    (member : a ∈ l.answers) : (l.step call).InFull a ↔ l.InFull a := by
  obtain ⟨k, r, number, taken, -⟩ := returns.houses.answered a member
  have still : (l.step call).accepted[k]? = some r := by
    obtain ⟨more, grown⟩ := l.accepted_step call
    rw [← grown, List.getElem?_append_left (List.getElem?_eq_some_iff.1 taken).1, taken]
  rw [inFull_iff number taken, inFull_iff number still]

/-- What a call adds to the answers. -/
theorem Delivers.allInFull_step_iff (delivers : l.Delivers c) (returns : l.Returns)
    (call : Engine.Call) : (l.step call).AllInFull ↔
      l.AllInFull ∧ ∀ cycle flit, call = .accept cycle flit → ¬ l.Misfits flit := by
  have before (answers : List MmioAnswer) (seen : (l.step call).answers = l.answers ++ answers) :
      (l.step call).AllInFull ↔
        l.AllInFull ∧ ∀ a ∈ answers, (l.step call).InFull a := by
    rw [AllInFull, seen, List.forall_mem_append]
    exact and_congr_left fun _ =>
      forall₂_congr fun a member => returns.inFull_step_iff call member
  by_cases beat : ∃ cycle flit, call = .accept cycle flit
  · obtain ⟨cycle, flit, rfl⟩ := beat
    have grown : ∃ answers, (l.accept cycle flit).answers = l.answers ++ answers := by
      rcases returns.accept_cases delivers.attached cycle flit with
        ⟨-, none_⟩ | ⟨p, p', start, k, tid, -, -, -, -, one⟩
      · exact ⟨[], none_.trans (List.append_nil _).symm⟩
      · exact ⟨_, one⟩
    obtain ⟨answers, seen⟩ := grown
    rw [before answers seen]
    refine and_congr_right fun _ => ⟨?_, fun fits =>
      returns.inFull_of_not_misfits delivers (fits cycle flit rfl) seen⟩
    rintro full _ _ ⟨⟩ misfits
    obtain ⟨-, a, one, short⟩ := misfits.answered delivers returns cycle
    have single := List.append_cancel_left (seen.symm.trans one)
    exact short (full a (by rw [single]; exact List.mem_singleton.2 rfl))
  · have none_ : (l.step call).answers = l.answers ++ [] := by
      rw [List.append_nil]
      exact l.answers_step fun cycle flit same => beat ⟨cycle, flit, same⟩
    rw [before [] none_]
    exact and_congr_right fun _ => iff_of_true (List.forall_mem_nil _)
      fun cycle flit same => absurd ⟨cycle, flit, same⟩ beat

theorem Delivers.allInFull_run_iff (delivers : l.Delivers c) (returns : l.Returns)
    (calls : List Engine.Call) : (l.run calls).AllInFull ↔
      l.AllInFull ∧ ∀ before cycle flit after, calls = before ++ .accept cycle flit :: after →
        ¬ (l.run before).Misfits flit := by
  induction calls generalizing l with
  | nil =>
    refine (and_iff_left_of_imp fun _ before cycle flit after split => ?_).symm
    simp at split
  | cons call rest ih =>
    change ((l.step call).run rest).AllInFull ↔ _
    rw [ih (delivers.step call) (returns.step delivers.attached call),
      delivers.allInFull_step_iff returns call, and_assoc]
    refine and_congr_right fun _ => ⟨?_, fun fits => ⟨?_, ?_⟩⟩
    · rintro ⟨first, later⟩ before cycle flit after split
      cases before with
      | nil => exact first cycle flit (List.cons.inj split).1
      | cons call' before =>
        obtain ⟨rfl, rest_⟩ := List.cons.inj split
        exact later before cycle flit after rest_
    · intro cycle flit same
      exact fits [] cycle flit rest (by rw [same]; rfl)
    · intro before cycle flit after split
      exact fits (call :: before) cycle flit after (by rw [split]; rfl)

/-- What the checks on completions say of the answers of a run. -/
structure SizesAnswers (l : MmioLog) (c : ValidParameters) : Prop where
  opened : l.engine.AnswersMmio
  answers : ∀ a ∈ l.answers, a.Sized c

theorem SizesAnswers.start (config : ValidParameters) (options : Switches) (random : DrawSource) :
    (MmioLog.start config options random).SizesAnswers config where
  opened _ inside := nomatch inside
  answers := List.forall_mem_nil _

theorem SizesAnswers.step (sizes : l.SizesAnswers c) (delivers : l.Delivers c)
    (returns : l.Returns) (call : Engine.Call) : (l.step call).SizesAnswers c where
  opened := by
    rw [engine_step]
    exact sizes.opened.perform delivers.attached call
  answers := by
    by_cases beat : ∃ cycle flit, call = .accept cycle flit
    · obtain ⟨cycle, flit, rfl⟩ := beat
      rw [MmioLog.step]
      rcases returns.accept_cases delivers.attached cycle flit with
        ⟨-, none_⟩ | ⟨p, p', start, k, tid, lawful, last, occupied, -, -⟩
      · rw [none_]
        exact sizes.answers
      · obtain ⟨a, one, -, width, data⟩ :=
          returns.answers_of_lawfulReply delivers.attached lawful last occupied cycle
        obtain ⟨nonempty, aligned, atMost64, atMostRead⟩ :=
          lawful.beat.answersMmio sizes.opened
        rw [delivers.config] at atMostRead
        rw [one, List.forall_mem_append, List.forall_mem_singleton]
        exact ⟨sizes.answers, ⟨by rw [width, data], by rw [data]; exact nonempty,
          by rw [data]; exact aligned, by rw [data]; exact atMost64,
          by rw [data]; exact atMostRead⟩⟩
    · rw [l.answers_step fun cycle flit same => beat ⟨cycle, flit, same⟩]
      exact sizes.answers

theorem SizesAnswers.run (sizes : l.SizesAnswers c) (delivers : l.Delivers c)
    (returns : l.Returns) (calls : List Engine.Call) : (l.run calls).SizesAnswers c := by
  induction calls generalizing l with
  | nil => exact sizes
  | cons call rest ih =>
    exact ih (sizes.step delivers returns call) (delivers.step call)
      (returns.step delivers.attached call)

/-- In every run the reads are answered with as many bytes as they asked for exactly as long as the
device does so: a completion without fault for a read of another width is delivered, and the answer
is as wide as the completion is long. -/
theorem run_answersInFull_iff (config : ValidParameters) (options : Switches) (random : DrawSource)
    (calls : List Engine.Call) :
    let fresh := start config options random
    let l := fresh.run calls
    (l.AllInFull ↔ ∀ before cycle flit after, calls = before ++ .accept cycle flit :: after →
      ¬ (fresh.run before).Misfits flit) ∧
    (∀ cycle flit, l.AnswersInFull cycle flit ↔ ¬ l.Misfits flit) ∧
    (∀ cycle flit, l.Misfits flit → (l.engine.accept cycle flit).answer = .ok () ∧
      ∃ a, (l.accept cycle flit).answers = l.answers ++ [a] ∧ ¬ (l.accept cycle flit).InFull a) ∧
    ∀ a ∈ l.answers, a.Sized config := by
  intro fresh l
  have delivered := Delivers.start config options random
  have returned := Returns.start config options random
  obtain ⟨delivers, returns⟩ := delivered.run returned calls
  refine ⟨?_, delivers.answersInFull_iff returns,
    fun cycle flit misfits => misfits.answered delivers returns cycle,
    ((SizesAnswers.start config options random).run delivered returned calls).answers⟩
  rw [delivered.allInFull_run_iff returned calls]
  exact and_iff_right (List.forall_mem_nil _)

/-- A read of 64 bits, answered with four bytes. -/
example :
    let config : ValidParameters := ⟨{ dataWidth := 256 }, by decide⟩
    let completion : Flit := (Flit.blank 256 10).storing
      { fmtType := .completionData, byteSize := 4, body := .completion { byteCount := 4 } }
    let payload : Flit := { (Flit.blank 256 10).setDword 0 0x08070605 with last := true }
    let l := (start config {} .fullBandwidth).run
      [.request (.read 5 0 0x40 64), .accept 1 completion, .accept 2 payload]
    l.answers.map (fun a => (a.number, a.response.widthBits, a.response.data)) =
      [(some 0, 32, [5, 6, 7, 8])] := by
  decide +kernel

end MmioLog
end TlpBridge

import TlpBridge.Proofs.Mmio.MmioPackets

/-!
# Runs of MMIO

From when a read is taken until it is answered, its slot holds the name of its transaction, and a
completion for the slot brings that name back. With what is seen of the packets to the device, every
request corresponds to one packet, and every answer to one request.
-/
namespace TlpBridge

/-! ## Completions of the device -/

theorem Flit.aligned_of_completion {f : Flit} {h : Header} {c : CompletionBody}
    (header : f.header = .ok h) (body : h.body = .completion c) : h.byteSize.toNat % 4 = 0 := by
  obtain ⟨w, dataMover, -, d⟩ := decodes_of_header header
  cases d with
  | completion =>
    change (UInt32.ofNat w.byteSize).toNat % 4 = 0
    rw [w.toNat_ofNat_byteSize, Nat.mul_mod_left]
  | powerUserRequest => cases body
  | dataMoverRequest => cases body
  | interrupt => cases body
  | other => cases body

theorem beatsPayload_concat {beats : List Flit} (some_ : beats ≠ []) (flit : Flit) :
    beatsPayload (beats ++ [flit]) = beatsPayload beats ++ flit.payloadFrom 0 := by
  obtain ⟨first, rest, rfl⟩ := List.exists_cons_of_ne_nil some_
  simp [beatsPayload, List.flatMap_append]

/-- The beats start with the header of a completion. -/
def BeginsReply (h : Header) (beats : List Flit) : Prop :=
  ∃ first rest c, beats = first :: rest ∧ first.header = .ok h ∧ h.body = .completion c

/-- An open completion has what its beats so far carry. -/
structure OpenPacket.Gathers (p : OpenPacket) (beats : List Flit) : Prop where
  begins : BeginsReply p.header beats
  goesOn : ∀ f ∈ beats, f.last = false
  payload : p.payload = beatsPayload beats
  room : p.payload.length ≤ p.header.byteSize.toNat / 4

namespace Engine

/-- The read that a slot holds. -/
def waiting (e : Engine) (slot : Nat) : Option MmioRead := (e.mmioReads[slot]?).join

theorem waiting_congr {e e' : Engine} (reads : e'.mmioReads = e.mmioReads) :
    e'.waiting = e.waiting := by
  unfold waiting
  rw [reads]

theorem waiting_free {e e' : Engine} {slot : Nat}
    (reads : e'.mmioReads = e.mmioReads.setIfInBounds slot none) :
    e'.waiting = Function.update e.waiting slot none := by
  funext other
  unfold waiting
  rw [reads, Array.getElem?_setIfInBounds, Function.update_apply]
  by_cases same : slot = other
  · rw [if_pos same, if_pos same.symm]
    split <;> rfl
  · rw [if_neg same, if_neg (Ne.symm same)]

theorem waiting_occupy {e e' : Engine} {slot : Nat} {read : MmioRead}
    (free : e.mmioReads[slot]? = some none)
    (reads : e'.mmioReads = e.mmioReads.setIfInBounds slot (some read)) :
    e'.waiting = Function.update e.waiting slot (some read) := by
  have inside : slot < e.mmioReads.size := (Array.getElem?_eq_some_iff.1 free).1
  funext other
  unfold waiting
  rw [reads, Array.getElem?_setIfInBounds, Function.update_apply]
  by_cases same : slot = other
  · rw [if_pos same, if_pos same.symm, if_pos inside]
    rfl
  · rw [if_neg same, if_neg (Ne.symm same)]

theorem free_of_requestFault? {e : Engine} {r : MmioRequest} (kept : e.requestFault? r = none)
    (read : r.write = false) : e.mmioReads[r.slot.toNat]? = some none := by
  unfold requestFault? at kept
  split at kept
  · cases kept
  · rw [if_neg (by simp [read])] at kept
    split at kept
    · cases kept
    · cases kept
    · assumption

/-- The engine stands where the beats of the device so far say, and the completion that they are of
is one for a read. -/
def Replying (e : Engine) (beats : List Flit) : Prop :=
  match e.fromDevice with
  | .start => beats = []
  | .write _ => True
  | .completion p => p.Gathers beats ∧ (e.waiting p.header.tag.toNat).isSome

theorem Replying.congr {e e' : Engine} {beats : List Flit} (replying : e.Replying beats)
    (fromDevice : e'.fromDevice = e.fromDevice)
    (waits : ∀ slot, (e.waiting slot).isSome → (e'.waiting slot).isSome) :
    e'.Replying beats := by
  unfold Replying at *
  rw [fromDevice]
  cases place : e.fromDevice with
  | start =>
    rw [place] at replying
    exact replying
  | write p => trivial
  | completion p =>
    rw [place] at replying
    exact ⟨replying.1, waits _ replying.2⟩

/-- A beat goes on with the beats before it, all of one completion for a read. -/
structure Joins (e : Engine) (beats : List Flit) (flit : Flit) (p : OpenPacket) (start : Nat) :
    Prop where
  begins : BeginsReply p.header (beats ++ [flit])
  goesOn : ∀ f ∈ beats, f.last = false
  payload : p.payload ++ flit.payloadFrom start = beatsPayload (beats ++ [flit])
  room : p.payload.length ≤ p.header.byteSize.toNat / 4
  waiting : (e.waiting p.header.tag.toNat).isSome

variable {e : Engine} {beats : List Flit} {flit : Flit} {p p' : OpenPacket} {start : Nat}

theorem ReplyBeat.joins (beat : e.ReplyBeat flit p start) (replying : e.Replying beats) :
    e.Joins beats flit p start := by
  unfold Replying at replying
  cases beat with
  | @first h c between header body rules =>
    rw [between] at replying
    obtain rfl : beats = [] := replying
    have waiting : (e.waiting h.tag.toNat).isSome := by
      unfold completionFault? at rules
      split at rules
      · cases rules
      · split at rules
        · cases rules
        · next some_ => simpa [Engine.waiting, Option.isSome_iff_ne_none] using some_
    exact ⟨⟨flit, [], c, rfl, header, body⟩, List.forall_mem_nil _, by simp [beatsPayload],
      Nat.zero_le _, waiting⟩
  | later inside =>
    rw [inside] at replying
    obtain ⟨gathers, waiting⟩ := replying
    obtain ⟨first, rest, c, rfl, header, body⟩ := gathers.begins
    refine ⟨⟨first, rest ++ [flit], c, rfl, header, body⟩, gathers.goesOn, ?_, gathers.room,
      waiting⟩
    rw [beatsPayload_concat (List.cons_ne_nil _ _), gathers.payload]

namespace Joins

variable (joins : e.Joins beats flit p start)
  (extended : p.extend flit start (p.header.byteSize.toNat / 4) .mmioCompletion = .ok p')

include joins extended

theorem gathers (more : ¬ flit.last) : p'.Gathers (beats ++ [flit]) := by
  obtain ⟨rfl, ends⟩ := OpenPacket.extend_eq_ok joins.room extended
  have short := Nat.lt_of_not_le (fun long => more (ends.2 long))
  refine ⟨joins.begins, ?_, ?_, List.length_take_le ..⟩
  · intro f member
    rcases List.mem_append.1 member with old | new
    · exact joins.goesOn f old
    · rw [List.mem_singleton.1 new]
      exact Bool.eq_false_of_not_eq_true more
  · rw [List.take_of_length_le (Nat.le_of_lt short), joins.payload]

theorem length_data (last : flit.last) :
    (payloadBytes p'.payload p.header.byteSize.toNat).length = p.header.byteSize.toNat := by
  obtain ⟨rfl, ends⟩ := OpenPacket.extend_eq_ok joins.room extended
  obtain ⟨first, rest, c, -, header, body⟩ := joins.begins
  have aligned := Flit.aligned_of_completion header body
  refine length_payloadBytes ?_
  rw [List.length_take_of_le (ends.1 last)]
  omega

theorem fits (last : flit.last) {r : MmioRequest} (slot : p.header.tag = r.slot)
    (number : Option Nat) (body : CompletionBody) :
    MmioAnswer.Fits
      ⟨number, mmioReadResponse r.tid p.header body p'.payload, beats ++ [flit]⟩ r := by
  have count := joins.length_data extended last
  obtain ⟨rfl, -⟩ := OpenPacket.extend_eq_ok joins.room extended
  obtain ⟨first, rest, c, split, header, completion⟩ := joins.begins
  have aligned := Flit.aligned_of_completion header completion
  have size : p.header.byteSize.toNat ≤ 4 * (p.header.byteSize.toNat / 4) := by omega
  have data : payloadBytes ((p.payload ++ flit.payloadFrom start).take
      (p.header.byteSize.toNat / 4)) p.header.byteSize.toNat =
      payloadBytes (beatsPayload (beats ++ [flit])) p.header.byteSize.toNat := by
    rw [payloadBytes_take _ size, joins.payload]
  exact ⟨rfl, rfl, slot, ⟨beats, flit, rfl, last, joins.goesOn⟩,
    first, rest, p.header, c, split, header, completion, slot, data, count⟩

end Joins

end Engine

/-! ## Reads in their slots -/

/-- Which slots hold which of the requests that were taken, and which of these were answered. -/
structure Houses (waiting : Nat → Option MmioRead) (accepted : List MmioRequest)
    (occupant : Nat → Option Nat) (answers : List MmioAnswer) : Prop where
  idle : ∀ slot, occupant slot = none → waiting slot = none
  held : ∀ slot k, occupant slot = some k → ∃ r cycle, accepted[k]? = some r ∧
    r.write = false ∧ r.slot.toNat = slot ∧ waiting slot = some ⟨cycle, r.tid⟩
  open_ : ∀ slot k, occupant slot = some k → some k ∉ answers.map (·.number)
  settled : ∀ (k : Nat) (r : MmioRequest), accepted[k]? = some r → r.write = false →
    occupant r.slot.toNat = some k ∨ some k ∈ answers.map (·.number)
  answered : ∀ a ∈ answers, ∃ k r, a.number = some k ∧ accepted[k]? = some r ∧
    r.write = false ∧ a.Fits r
  once : (answers.map (·.number)).Nodup

namespace Houses

variable {waiting : Nat → Option MmioRead} {accepted : List MmioRequest}
  {occupant : Nat → Option Nat} {answers : List MmioAnswer} {slot k : Nat} {r : MmioRequest}

theorem nil (empty : ∀ slot, waiting slot = none) : Houses waiting [] (fun _ => none) [] where
  idle slot _ := empty slot
  held _ _ occupied := nomatch occupied
  open_ _ _ occupied := nomatch occupied
  settled _ _ found := nomatch found
  answered := List.forall_mem_nil _
  once := List.nodup_nil

variable (houses : Houses waiting accepted occupant answers)

include houses

theorem isSome_iff (slot : Nat) : (waiting slot).isSome ↔ (occupant slot).isSome := by
  cases occupied : occupant slot with
  | none => simp [houses.idle slot occupied]
  | some k =>
    obtain ⟨r, cycle, -, -, -, found⟩ := houses.held slot k occupied
    simp [found]

theorem occupied_iff (taken : accepted[k]? = some r) (read : r.write = false) :
    occupant r.slot.toNat = some k ↔ some k ∉ answers.map (·.number) :=
  ⟨houses.open_ _ k, (houses.settled k r taken read).resolve_right⟩

theorem number_lt {a : MmioAnswer} (member : a ∈ answers) (number : a.number = some k) :
    k < accepted.length := by
  obtain ⟨k', r, number', taken, -⟩ := houses.answered a member
  rw [Option.some.inj (number.symm.trans number')]
  exact (List.getElem?_eq_some_iff.1 taken).1

theorem write (write : r.write) : Houses waiting (accepted ++ [r]) occupant answers where
  idle := houses.idle
  held slot k occupied := by
    obtain ⟨r', cycle, taken, rest⟩ := houses.held slot k occupied
    exact ⟨r', cycle, getElem?_concat_eq_some_iff.2 (.inl taken), rest⟩
  open_ := houses.open_
  settled k r' taken read := by
    rcases getElem?_concat_eq_some_iff.1 taken with earlier | ⟨-, rfl⟩
    · exact houses.settled k r' earlier read
    · rw [write] at read
      cases read
  answered a member := by
    obtain ⟨k, r', number, taken, rest⟩ := houses.answered a member
    exact ⟨k, r', number, getElem?_concat_eq_some_iff.2 (.inl taken), rest⟩
  once := houses.once

/-- A read that is taken occupies its slot, which no other read was in. -/
theorem read (read : r.write = false) (free : waiting r.slot.toNat = none) (cycle : Nat) :
    occupant r.slot.toNat = none ∧
      Houses (Function.update waiting r.slot.toNat (some ⟨cycle, r.tid⟩)) (accepted ++ [r])
        (Function.update occupant r.slot.toNat (some accepted.length)) answers := by
  have empty : occupant r.slot.toNat = none := by
    have both := houses.isSome_iff r.slot.toNat
    rw [free] at both
    simpa using both
  refine ⟨empty, ?_⟩
  constructor
  case idle =>
    intro slot vacant
    by_cases same : slot = r.slot.toNat
    · rw [same, Function.update_self] at vacant
      cases vacant
    · rw [Function.update_of_ne same] at vacant ⊢
      exact houses.idle slot vacant
  case held =>
    intro slot k occupied
    by_cases same : slot = r.slot.toNat
    · rw [same, Function.update_self] at occupied
      refine ⟨r, cycle, ?_, read, same.symm, ?_⟩
      · rw [← Option.some.inj occupied, List.getElem?_concat_length]
      · rw [same, Function.update_self]
    · rw [Function.update_of_ne same] at occupied ⊢
      obtain ⟨r', cycle', taken, rest⟩ := houses.held slot k occupied
      exact ⟨r', cycle', getElem?_concat_eq_some_iff.2 (.inl taken), rest⟩
  case open_ =>
    intro slot k occupied
    by_cases same : slot = r.slot.toNat
    · rw [same, Function.update_self] at occupied
      intro member
      -- Only reads with lower numbers were answered.
      obtain ⟨a, inside, number⟩ := List.mem_map.1 member
      have earlier := houses.number_lt inside number
      rw [← Option.some.inj occupied] at earlier
      exact Nat.lt_irrefl _ earlier
    · rw [Function.update_of_ne same] at occupied
      exact houses.open_ slot k occupied
  case settled =>
    intro k r' taken read'
    rcases getElem?_concat_eq_some_iff.1 taken with earlier | ⟨rfl, rfl⟩
    · rcases houses.settled k r' earlier read' with occupied | done
      · left
        rw [Function.update_of_ne]
        · exact occupied
        · intro same
          rw [same, empty] at occupied
          cases occupied
      · exact .inr done
    · exact .inl (Function.update_self ..)
  case answered =>
    intro a member
    obtain ⟨k, r', number, taken, rest⟩ := houses.answered a member
    exact ⟨k, r', number, getElem?_concat_eq_some_iff.2 (.inl taken), rest⟩
  case once => exact houses.once

/-- A read that is answered gives up its slot. -/
theorem answer {a : MmioAnswer} (occupied : occupant slot = some k) (number : a.number = some k)
    (taken : accepted[k]? = some r) (fits : a.Fits r) :
    Houses (Function.update waiting slot none) accepted (Function.update occupant slot none)
      (answers ++ [a]) := by
  obtain ⟨r', -, taken', read, home, -⟩ := houses.held slot k occupied
  obtain rfl : r = r' := Option.some.inj (taken.symm.trans taken')
  have numbers : (answers ++ [a]).map (·.number) = answers.map (·.number) ++ [some k] := by
    rw [List.map_append, List.map_singleton, number]
  constructor
  case idle =>
    intro slot' vacant
    by_cases same : slot' = slot
    · rw [same, Function.update_self]
    · rw [Function.update_of_ne same] at vacant ⊢
      exact houses.idle slot' vacant
  case held =>
    intro slot' k' occupied'
    by_cases same : slot' = slot
    · rw [same, Function.update_self] at occupied'
      cases occupied'
    · rw [Function.update_of_ne same] at occupied' ⊢
      exact houses.held slot' k' occupied'
  case open_ =>
    intro slot' k' occupied'
    by_cases same : slot' = slot
    · rw [same, Function.update_self] at occupied'
      cases occupied'
    · rw [Function.update_of_ne same] at occupied'
      -- A read names one slot, so that what is in another slot has another number.
      rw [numbers, List.mem_append, List.mem_singleton, not_or]
      refine ⟨houses.open_ slot' k' occupied', fun equal => same ?_⟩
      obtain ⟨r'', -, taken'', -, home', -⟩ := houses.held slot' k' occupied'
      rw [Option.some.inj equal, taken] at taken''
      rw [← home', ← Option.some.inj taken'', home]
  case settled =>
    intro k' r' taken' read'
    rw [numbers, List.mem_append, List.mem_singleton]
    rcases houses.settled k' r' taken' read' with occupied' | done
    · by_cases same : r'.slot.toNat = slot
      · rw [same, occupied] at occupied'
        exact .inr (.inr occupied'.symm)
      · rw [Function.update_of_ne same]
        exact .inl occupied'
    · exact .inr (.inl done)
  case answered =>
    intro a' member
    rcases List.mem_append.1 member with old | new
    · exact houses.answered a' old
    · rw [List.mem_singleton.1 new]
      exact ⟨k, r, number, taken, read, fits⟩
  case once =>
    rw [numbers, ← List.concat_eq_append]
    exact houses.once.concat (houses.open_ slot k occupied)

end Houses

/-! ## Runs -/

namespace MmioLog

theorem accept_silent (l : MmioLog) {cycle : Nat} {flit : Flit}
    (silent : mmioResponses (l.engine.accept cycle flit).events = []) :
    l.accept cycle flit = { l with
      engine := (l.engine.accept cycle flit).state
      incoming := match (l.engine.accept cycle flit).answer with
        | .ok () => if flit.last then [] else l.incoming ++ [flit]
        | .error _ => [] } := by
  unfold accept
  simp only [silent, List.foldl_nil]
  cases (l.engine.accept cycle flit).answer with
  | ok u => rfl
  | error fault => rfl

theorem accept_answering (l : MmioLog) {cycle : Nat} {flit : Flit} {r : MmioResponse}
    (response : mmioResponses (l.engine.accept cycle flit).events = [r])
    (answer : (l.engine.accept cycle flit).answer = .ok ()) (last : flit.last) :
    l.accept cycle flit = { l with
      engine := (l.engine.accept cycle flit).state
      incoming := []
      occupant := Function.update l.occupant r.slot.toNat none
      answers := l.answers ++ [⟨l.occupant r.slot.toNat, r, l.incoming ++ [flit]⟩] } := by
  unfold accept
  simp only [response, answer, last, if_true]
  rfl

theorem observe_eq (l : MmioLog) (s : EngineStep (Option Flit)) : ∃ packets onStream stray,
    l.observe s = { l with
      engine := s.state
      packets := packets
      onStream := onStream
      stray := stray } := by
  have mmio (l : MmioLog) (beats : List AnsweredBeat) (b : AnsweredBeat) :
      ∃ packets onStream stray, l.mmioBeat beats b =
        { l with packets := packets, onStream := onStream, stray := stray } := by
    unfold mmioBeat
    split
    · exact ⟨_, _, _, rfl⟩
    · exact ⟨_, _, _, rfl⟩
  unfold observe
  simp only
  split
  · unfold receive
    split
    · exact mmio { l with engine := s.state } ..
    · exact ⟨_, _, _, rfl⟩
    · split
      · exact ⟨_, _, _, rfl⟩
      · exact mmio { l with engine := s.state } ..
  · exact ⟨_, _, _, rfl⟩

/-- What was seen of the reads, next to the slots of the engine and the beats of the device. -/
structure Returns (l : MmioLog) : Prop where
  houses : Houses l.engine.waiting l.accepted l.occupant l.answers
  kept : l.overwritten = []
  /-- A halted engine refuses every beat, wherever it stands. -/
  follows : l.engine.halted ∨ l.engine.Replying l.incoming

namespace Returns

variable {l : MmioLog}

theorem start (config : ValidParameters) (options : Switches) (random : DrawSource) :
    (MmioLog.start config options random).Returns where
  houses := by
    refine .nil fun slot => ?_
    change ((Array.replicate _ none)[slot]?).join = none
    rw [Array.getElem?_replicate]
    split <;> rfl
  kept := rfl
  follows := .inr rfl

theorem withEngine (returns : l.Returns) {e : Engine} {incoming : List Flit}
    (reads : e.mmioReads = l.engine.mmioReads) (follows : e.halted ∨ e.Replying incoming) :
    Returns { l with engine := e, incoming := incoming } := by
  refine ⟨?_, returns.kept, follows⟩
  rw [Engine.waiting_congr reads]
  exact returns.houses

theorem aside (returns : l.Returns) {e : Engine} (reads : e.mmioReads = l.engine.mmioReads)
    (fromDevice : e.fromDevice = l.engine.fromDevice) (halted : l.engine.halted → e.halted) :
    Returns { l with engine := e } := by
  refine returns.withEngine reads (returns.follows.imp halted fun replying => ?_)
  refine replying.congr fromDevice fun slot some_ => ?_
  rwa [Engine.waiting_congr reads]

theorem emit (returns : l.Returns) (cycle : Nat) (ready : Bool) :
    (l.observe (l.engine.emit cycle ready)).Returns := by
  have keeps := l.engine.keepsDevice_emit cycle ready
  have aside := returns.aside keeps.mmioReads keeps.fromDevice keeps.halted
  obtain ⟨packets, onStream, stray, seen⟩ := l.observe_eq (l.engine.emit cycle ready)
  rw [seen]
  exact ⟨aside.houses, aside.kept, aside.follows⟩

/-- A beat of the device. -/
theorem accept (returns : l.Returns) (attached : l.engine.mmioAttached) (cycle : Nat)
    (flit : Flit) : (l.accept cycle flit).Returns := by
  by_cases halted : l.engine.halted
  · have same : l.engine.accept cycle flit = ⟨.error .halted, l.engine, []⟩ := by
      rw [Engine.accept, if_pos halted]
    rw [l.accept_silent (by rw [same]; rfl), same]
    exact ⟨returns.houses, returns.kept, .inl halted⟩
  · have replying := returns.follows.resolve_left halted
    cases l.engine.accept_replies attached cycle flit with
    | refused answer silent reads after =>
      obtain ⟨fault, answer⟩ := answer
      rw [l.accept_silent silent, answer]
      refine returns.withEngine reads (.inr ?_)
      rcases after with ⟨stopped, -⟩ | idle
      · exact absurd stopped halted
      · simp only [Engine.Replying, idle]
    | other answer silent reads after =>
      rw [l.accept_silent silent, answer]
      refine returns.withEngine reads (.inr ?_)
      by_cases last : flit.last
      · rw [if_pos last] at after
        simp only [Engine.Replying, after, last, if_true]
      · rw [if_neg last] at after
        obtain ⟨p, inside⟩ := after
        simp only [Engine.Replying, inside]
    | open_ beat extended more answer silent reads after =>
      have joins := beat.joins replying
      have gathers := joins.gathers extended more
      rw [l.accept_silent silent, answer]
      refine returns.withEngine reads (.inr ?_)
      simp only [Engine.Replying, after, more]
      refine ⟨gathers, ?_⟩
      rw [OpenPacket.header_extend extended, Engine.waiting_congr reads]
      exact joins.waiting
    | @reply p p' start beat extended last answer response reads after =>
      have joins := beat.joins replying
      obtain ⟨k, occupied⟩ := Option.isSome_iff_exists.1
        ((returns.houses.isSome_iff _).1 joins.waiting)
      obtain ⟨r, began, taken, read, home, held⟩ := returns.houses.held _ k occupied
      have named : (((l.engine.mmioReads[p.header.tag.toNat]?).join.getD default).tid) = r.tid :=
        congrArg (fun read => (Option.getD read default).tid) held
      rw [named] at response
      rw [l.accept_answering response answer last]
      refine ⟨?_, returns.kept, .inr ?_⟩
      · rw [Engine.waiting_free reads]
        exact returns.houses.answer occupied occupied taken
          (joins.fits extended last (UInt16.toNat_inj.1 home.symm) ..)
      · simp only [Engine.Replying, after]

theorem request (returns : l.Returns) (r : MmioRequest) : (l.request r).Returns := by
  rcases l.request_cases r with ⟨halted, seen, stays⟩ | ⟨kept, seen, state⟩
  · rw [seen]
    exact returns.aside rfl rfl stays
  · rw [seen, state]
    cases write : r.write with
    | true =>
      have aside := returns.aside
        (e := { l.engine with mmioQueue := l.engine.mmioQueue ++ [r] }) rfl rfl id
      exact ⟨aside.houses.write write, aside.kept, aside.follows⟩
    | false =>
      have free := Engine.free_of_requestFault? kept write
      have vacant : l.engine.waiting r.slot.toNat = none := congrArg Option.join free
      obtain ⟨empty, houses⟩ := returns.houses.read write vacant l.engine.cycle
      have occupied : Engine.waiting { l.engine with
          mmioReads := l.engine.mmioReads.setIfInBounds r.slot.toNat (some ⟨l.engine.cycle, r.tid⟩)
          mmioQueue := l.engine.mmioQueue ++ [r] } =
          Function.update l.engine.waiting r.slot.toNat (some ⟨l.engine.cycle, r.tid⟩) :=
        Engine.waiting_occupy free rfl
      refine ⟨?_, ?_, ?_⟩
      · simp only [Bool.false_eq_true, if_false, occupied]
        exact houses
      · simp [empty, returns.kept]
      · refine returns.follows.imp id fun replying => replying.congr rfl fun slot some_ => ?_
        simp only [Bool.false_eq_true, if_false, occupied, Function.update_apply]
        split
        · rfl
        · exact some_

/-- What a call preserves. -/
theorem step (returns : l.Returns) (attached : l.engine.mmioAttached) (call : Engine.Call) :
    (l.step call).Returns := by
  cases call with
  | accept cycle flit => exact returns.accept attached cycle flit
  | ready =>
    have kept : l.engine.ready.2.mmioReads = l.engine.mmioReads ∧
        l.engine.ready.2.fromDevice = l.engine.fromDevice ∧
        l.engine.ready.2.halted = l.engine.halted := by
      unfold Engine.ready
      split <;> exact ⟨rfl, rfl, rfl⟩
    exact returns.aside kept.1 kept.2.1 kept.2.2.trans
  | request r => exact returns.request r
  | emit cycle ready => exact returns.emit cycle ready
  | reset => exact ⟨returns.houses, returns.kept, .inr rfl⟩
  | serve link => exact returns.aside rfl rfl id

end Returns

theorem Delivers.run {l : MmioLog} {c : ValidParameters} (delivers : l.Delivers c)
    (returns : l.Returns) (calls : List Engine.Call) :
    (l.run calls).Delivers c ∧ (l.run calls).Returns := by
  induction calls generalizing l with
  | nil => exact ⟨delivers, returns⟩
  | cons call rest ih => exact ih (delivers.step call) (returns.step delivers.attached call)

theorem Delivers.corresponds {l : MmioLog} {c : ValidParameters} (delivers : l.Delivers c)
    (returns : l.Returns) : l.Corresponds c where
  order := delivers.begun.1.order
  payload r taken write := (delivers.legal r taken).dwordsBytes_payload write
  acknowledged := delivers.begun.1.acknowledged
  stray := delivers.stray
  answered := returns.houses.answered
  once := returns.houses.once
  busy := returns.houses.isSome_iff
  waiting _ _ := returns.houses.occupied_iff
  kept := returns.kept

/-- MMIO requests and responses correspond one to one, whatever the device, the host and host memory
do, with resets at any time. -/
theorem run_corresponds (config : ValidParameters) (options : Switches) (random : DrawSource)
    (calls : List Engine.Call) : ((start config options random).run calls).Corresponds config := by
  obtain ⟨delivers, returns⟩ :=
    (Delivers.start config options random).run (.start config options random) calls
  exact delivers.corresponds returns

/-- A write of two beats, cut off by a reset behind the first one, and a read. -/
example :
    let config : ValidParameters := ⟨{ dataWidth := 256 }, by decide⟩
    let write : MmioRequest := .ofWrite 5 0x10 [1, 2, 3, 4]
    let completion : Flit := (Flit.blank 256 10).storing
      { fmtType := .completionData, byteSize := 4, body := .completion { byteCount := 4 } }
    let payload : Flit := { (Flit.blank 256 10).setDword 0 0x08070605 with last := true }
    let l := (start config {} .fullBandwidth).run
      [.request write, .request (.read 6 0 0x20 32), .emit 100 true, .reset, .emit 200 true,
        .emit 201 true, .emit 300 true, .accept 301 completion, .accept 302 payload]
    l.packets.map List.length = [1, 2, 1] ∧ l.packets.map isWhole = [false, true, true] ∧
      acknowledgements l.packets = [write.response] ∧
      l.answers.map (fun a => (a.number, a.response.tid, a.response.data)) =
        [(some 1, 6, [5, 6, 7, 8])] := by
  decide +kernel

end MmioLog

end TlpBridge

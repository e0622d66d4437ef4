import TlpBridge.Proofs.Reads.CollectedAnswers

/-!
# Sent beats

What a beat to the device does to a session. A completion goes under the names of its
read as long as its slot has not gone to another read; that can only have happened to a
completion that a reset cut off and that is sent again.
-/
namespace TlpBridge.Session

/-- The completion that is to be sent again has lost its slot to another read, which is still
outstanding or goes under other names. -/
def Displaced (s : Session) : Prop :=
  ∃ i c r r', s.again = some i ∧ s.engine.completions.front? = some c ∧ s.reads[i]? = some r ∧
    s.owner r.slot ≠ i ∧ s.reads[s.owner r.slot]? = some r' ∧
    (s.engine.slots.isBusy r.slot ∨ ¬ r'.header.SameOrigin r.header c.startDword)

namespace Sound

variable {s : Session} {q : OwnedQueue} {owed : List Nat}

theorem sendable (sound : s.Sound q owed) : s.engine.Sendable := by
  have listed {c : CompletionPacket} (first : s.engine.completions.front? = some c) :
      ∃ i, (i, c) ∈ q := by
    rw [sound.front?_eq, Option.map_eq_some_iff] at first
    obtain ⟨x, head, rfl⟩ := first
    exact ⟨x.1, List.mem_of_head? head⟩
  constructor
  case completion =>
    intro left inside
    obtain ⟨i, c, p, -, -, head, -, -, -, -, rest⟩ := sound.streaming.of_completion inside
    refine ⟨c, ?_, by omega⟩
    rw [sound.front?_eq, head]
    rfl
  case mmio =>
    intro left inside
    obtain ⟨-, -, -, -, waiting⟩ := sound.streaming.of_mmio inside
    exact waiting
  case data =>
    intro c first
    obtain ⟨i, member⟩ := listed first
    obtain ⟨r, a, n, -, -, -, -, -, -, carries⟩ := sound.served_of_mem member
    rw [carries.data, r.length_words]
    exact carries.inside
  case header =>
    intro c first
    obtain ⟨i, member⟩ := listed first
    obtain ⟨r, read, -, -, stored⟩ := sound.request?_of_mem member
    exact ⟨_, stored, (sound.encodable _ member).fault?_header (sound.admitted r read).completable⟩

theorem head_carries (sound : s.Sound q owed) {i : Nat} {c : CompletionPacket}
    (first : q.head? = some (i, c)) : ∃ r a, s.reads[i]? = some r ∧ r.answer = some a ∧
      a.status = .valid ∧ i ∉ owed ∧
      BringRange i r.header (r.words a) 0 (s.wholeOf i) c.startDword ∧
      c.Carries r.slot r.stored (r.words a) c.startDword ∧
      CarriesRange r.slot r.stored (r.words a) (c.startDword + c.dwordSize)
        (OwnedQueue.ofRead q.tail i) r.stored.dwordSize := by
  obtain ⟨r, a, n, read, answer, seen, status, brought, queued, -⟩ :=
    sound.served_of_mem (List.mem_of_head? first)
  cases q with
  | nil => cases first
  | cons x rest =>
    obtain rfl : x = (i, c) := Option.some.inj first
    rw [OwnedQueue.ofRead_cons, if_pos rfl] at queued
    obtain ⟨carries, later⟩ := queued
    obtain rfl := carries.begins
    exact ⟨r, a, read, answer, status, seen, brought, carries, later⟩

theorem open_completion (sound : s.Sound q owed) {left : Nat} {c : CompletionPacket}
    {p : ReceivedPacket} (inside : s.engine.toDevice = .completion left)
    (open_ : s.current = some p) (front : s.engine.completions.front? = some c) :
    ∃ i r, q.head? = some (i, c) ∧ s.again = none ∧ s.reads[i]? = some r ∧
      p.Brings i r.header c.data c.startDword ∧ p.header.dwordSize = c.dwordSize ∧
      p.payload.length + left = c.dwordSize := by
  obtain ⟨i, c', p', r, current, first, again, read, brings, size, rest⟩ :=
    sound.streaming.of_completion inside
  rw [sound.front?_eq, first] at front
  obtain rfl : c' = c := Option.some.inj front
  obtain rfl : p' = p := Option.some.inj (current.symm.trans open_)
  exact ⟨i, r, first, again, read, brings, size, rest⟩

/-- The open completion is whole, and leaves the queue. -/
theorem completed (sound : s.Sound q owed) {i left : Nat} {c : CompletionPacket}
    {p : ReceivedPacket} {r : DeviceRead} (first : q.head? = some (i, c))
    (again : s.again = none) (toDevice : s.engine.toDevice = .completion left)
    (read : s.reads[i]? = some r) (brings : p.Brings i r.header c.data c.startDword)
    (size : p.header.dwordSize = c.dwordSize) (whole : p.payload.length = c.dwordSize) :
    Session.Sound { s with
      engine := { s.engine with completions := s.engine.completions.tail, toDevice := .start }
      received := s.received ++ [p]
      current := none } q.tail owed := by
  obtain ⟨r', a, read', answer, status, seen, brought, carries, later⟩ := sound.head_carries first
  obtain rfl : r = r' := Option.some.inj (read.symm.trans read')
  have started : s.Started := .inr ⟨left, toDevice⟩
  have idle : ¬ Session.Started { s with
      engine := { s.engine with completions := s.engine.completions.tail, toDevice := .start }
      received := s.received ++ [p]
      current := none } := by
    rintro (cut | ⟨left, inside⟩)
    · rw [again] at cut
      cases cut
    · cases inside
  have completes (j : Nat) : p.completes j = decide (i = j) := by
    rw [ReceivedPacket.completes, brings.part]
    rfl
  have whole_ : s.wholeOf i ++ [p] = (s.received ++ [p]).filter (·.completes i) := by
    rw [List.filter_append, Session.wholeOf, List.filter_singleton, completes]
    simp
  have others {j : Nat} (other : j ≠ i) :
      (s.received ++ [p]).filter (·.completes j) = s.wholeOf j := by
    rw [List.filter_append, Session.wholeOf, List.filter_singleton, completes]
    simp [Ne.symm other]
  have split : q = (i, c) :: q.tail := by
    cases q with
    | nil => cases first
    | cons x rest => rw [Option.some.inj first, List.tail_cons]
  have queued {j : Nat} (other : j ≠ i) : OwnedQueue.ofRead q.tail j = OwnedQueue.ofRead q j := by
    conv_rhs => rw [split, OwnedQueue.ofRead_cons, if_neg (Ne.symm other)]
  refine { sound with
    queue := ?queue
    encodable := fun x member => sound.encodable x (List.mem_of_mem_tail member)
    known := fun x member => sound.known x (List.mem_of_mem_tail member)
    tail := fun x member => sound.tail x (List.mem_of_mem_tail member)
    head := ?head
    progress := ?progress
    streaming := .between rfl rfl
    again := ?again
    numbered := ?numbered
    attributed := ?attributed }
  case queue =>
    change s.engine.completions.items.tail = _
    rw [sound.queue]
    exact List.map_tail.symm
  case head =>
    intro x next
    exact iff_of_true (sound.tail x (List.mem_of_head? next)) fun both => idle both.1
  case progress =>
    intro j d found
    by_cases mine : j = i
    · subst mine
      obtain rfl : r = d := Option.some.inj (read.symm.trans found)
      refine .served a (c.startDword + c.dwordSize) answer seen status ?_ ?_ later
      · intro none_ holds
        rw [none_] at later
        have ends : c.isLast := by
          rw [carries.last]
          exact decide_eq_true later
        have lost := (sound.head (j, c) first).1
        rw [carries.slot] at lost
        exact lost holds ⟨started, ends⟩
      · change BringRange j r.header (r.words a) 0 ((s.received ++ [p]).filter _) _
        rw [← whole_, ← size]
        rw [carries.data] at brings
        exact brought.snoc brings (whole.trans size.symm)
    · exact (sound.progress j d found).congr Iff.rfl (others mine) (queued mine) Iff.rfl
  case again =>
    intro k cut
    rw [show s.again = some k from cut] at again
    cases again
  case numbered =>
    intro x member part is
    rcases List.mem_append.1 member with old | new
    · exact sound.numbered x old part is
    · rw [List.mem_singleton.1 new, brings.part] at is
      rw [← Option.some.inj is]
      exact (List.getElem?_eq_some_iff.1 read).1
  case attributed =>
    intro x member kind
    rcases List.mem_append.1 member with old | new
    · exact sound.attributed x old kind
    · rw [List.mem_singleton.1 new, brings.part]
      rfl

/-- A beat brings the open completion further. -/
theorem completionBeat (sound : s.Sound q owed) {left place : Nat} {c : CompletionPacket}
    {p : ReceivedPacket} {f : Flit} {e : Engine} (inside : s.engine.toDevice = .completion left)
    (open_ : s.current = some p) (front : s.engine.completions.front? = some c)
    (beat : s.engine.CompletionBeat c place left f e) :
    ∃ q', (Session.file { s with engine := e } (p.extend f place) f.last).Sound q' owed := by
  obtain ⟨i, r, first, again, read, brings, size, rest⟩ := sound.open_completion inside open_ front
  have sent : c.dwordSize - left = p.payload.length := by omega
  have more := beat.payload
  rw [sent] at more
  obtain ⟨brings', length⟩ := brings.extend (rest.trans size.symm) more
  have size' : (p.extend f place).header.dwordSize = c.dwordSize := size
  have state := beat.state
  have ends := beat.last
  cases last : f.last with
  | true =>
    rw [last] at ends state
    have enough : left ≤ f.dwordWidth - place := of_decide_eq_true ends.symm
    rw [state]
    exact ⟨q.tail, sound.completed first again inside read brings' size' (by omega)⟩
  | false =>
    rw [last] at ends state
    have more : ¬ left ≤ f.dwordWidth - place := of_decide_eq_false ends.symm
    rw [state]
    refine ⟨q, { sound with
      head := ?head
      progress := ?progress
      streaming := ?streaming
      again := ?again }⟩
    case head =>
      intro x head
      refine (sound.head x head).trans (not_congr (and_congr_left fun _ => ?_))
      exact iff_of_true (.inr ⟨left, inside⟩) (.inr ⟨_, rfl⟩)
    case progress =>
      intro j d found
      exact (sound.progress j d found).congr Iff.rfl rfl rfl Iff.rfl
    case streaming =>
      exact .completion (left - (f.dwordWidth - place)) i c (p.extend f place) r rfl rfl first again
        read brings' size' (by omega)
    case again =>
      intro k cut
      rw [show s.again = some k from cut] at again
      cases again

/-- The head of the queue starts. Unless its slot has gone to another read, it goes under the
names of its own; with its last completion a read gives its slot back. -/
theorem started (sound : s.Sound q owed) {i : Nat} {c : CompletionPacket} {r : DeviceRead}
    {g : Header} (random : DrawSource) (first : q.head? = some (i, c)) (read : s.reads[i]? = some r)
    (names : g.Completes r.header c.startDword) (size : g.dwordSize = c.dwordSize)
    (kept : c.isLast → s.owner c.slot = i ∨ s.engine.slots.isBusy c.slot = false) :
    Session.Sound { s with
      engine := { s.engine with
        random := random
        slots := if c.isLast then s.engine.slots.release c.slot else s.engine.slots
        toDevice := .completion c.dwordSize }
      current := some ⟨g, some ⟨i, c.startDword, c.isLast⟩, []⟩
      again := none } q owed := by
  obtain ⟨r', a, read', answer, status, seen, brought, carries, later⟩ := sound.head_carries first
  obtain rfl : r = r' := Option.some.inj (read.symm.trans read')
  have listed : c ∈ q.ofRead i :=
    (OwnedQueue.mem_ofRead_iff ..).2 (List.mem_of_head? first)
  generalize pool : (if c.isLast then s.engine.slots.release c.slot else s.engine.slots) = slots
  have released : c.isLast → slots = s.engine.slots.release c.slot := by
    intro last
    rw [← pool, if_pos last]
  have same : ¬ c.isLast → slots = s.engine.slots := by
    intro more
    rw [← pool, if_neg more]
  have others {j : Nat} (other : j ≠ i) (k : Nat) :
      s.owner k = j ∧ slots.isBusy k ↔ s.Holds j k := by
    by_cases last : c.isLast
    · rw [released last]
      rcases kept last with own | idle
      · exact holds_release own other k
      · rw [SlotPool.isBusy_release, Session.Holds]
        by_cases here : k = c.slot
        · simp [here, idle]
        · simp [here]
    · rw [same last]
      rfl
  constructor
  case attached => exact sound.attached
  case size =>
    change slots.states.size = s.engine.params.maxDmaReads
    rw [← sound.size, ← pool]
    split
    · exact SlotPool.size_release ..
    · rfl
  case free =>
    change slots.FreeExist
    rw [← pool]
    split
    · exact SlotPool.freeExist_release sound.free c.slot
    · exact sound.free
  case kept =>
    intro d member
    obtain ⟨d', taken, slot, stored⟩ := sound.kept d member
    refine ⟨d', taken, slot, ?_⟩
    change slots.request? d.slot = _
    rw [← pool]
    split
    · exact (SlotPool.request?_release ..).trans stored
    · exact stored
  case admitted => exact sound.admitted
  case responses => exact sound.responses
  case owedOnce => exact sound.owedOnce
  case pending => exact sound.pending
  case queue => exact sound.queue
  case encodable => exact sound.encodable
  case known => exact sound.known
  case tail =>
    intro x member
    change s.owner x.2.slot = x.1 ∧ slots.isBusy x.2.slot
    by_cases mine : x.1 = i
    · have more : ¬ c.isLast := by
        intro last
        rw [carries.last, decide_eq_true_eq] at last
        rw [last] at later
        have there := (OwnedQueue.mem_ofRead_iff q.tail x.1 x.2).2 member
        rw [mine, later.eq_nil] at there
        exact absurd there List.not_mem_nil
      rw [same more]
      exact sound.tail x member
    · exact (others mine _).2 (sound.tail x member)
  case head =>
    intro x head
    obtain rfl : (i, c) = x := Option.some.inj (first.symm.trans head)
    change s.owner c.slot = i ∧ slots.isBusy c.slot ↔ _
    by_cases last : c.isLast
    · refine iff_of_false ?_ (fun none_ => none_ ⟨.inr ⟨_, rfl⟩, last⟩)
      rw [released last, SlotPool.isBusy_release]
      simp
    · rw [same last]
      exact iff_of_true ((sound.head _ first).2 fun both => last both.2) fun both => last both.2
  case progress =>
    intro j d found
    by_cases mine : j = i
    · subst mine
      obtain rfl : r = d := Option.some.inj (read.symm.trans found)
      obtain ⟨r', a', n, read', answer', seen', status', brought', queued, -⟩ :=
        sound.served_of_mem (List.mem_of_head? first)
      obtain rfl : r = r' := Option.some.inj (read.symm.trans read')
      refine .served a' n answer' seen' status' (fun none_ => ?_) brought' queued
      rw [none_] at listed
      exact absurd listed List.not_mem_nil
    · exact (sound.progress j d found).congr (others mine _) rfl rfl Iff.rfl
  case streaming =>
    refine .completion c.dwordSize i c _ r rfl rfl first rfl read ?_ size (Nat.zero_add _)
    have length := r.length_words a
    rw [carries.data]
    refine ⟨?_, names, ?_, ?_, rfl, Nat.zero_le _⟩
    · rw [carries.last, length, size]
    · exact size ▸ carries.nonempty
    · rw [size, length]
      exact carries.inside
  case again =>
    intro k cut
    cases cut
  case numbered => exact sound.numbered
  case attributed => exact sound.attributed
  case readable => exact sound.readable
  case fault => exact sound.fault

/-- A beat of an MMIO packet concerns no read. -/
theorem mmioBeat (sound : s.Sound q owed) {p : ReceivedPacket} {f : Flit} {e : Engine}
    (outside : ∀ left, s.engine.toDevice ≠ .completion left) (part : p.part = none)
    (kind : p.header.fmtType.isCompletion = false) (waiting : s.engine.mmioQueue ≠ [])
    (beat : s.engine.MmioBeat f e) :
    (Session.file { s with engine := e } p f.last).Sound q owed := by
  obtain ⟨random, cycle, toDevice, rfl⟩ : ∃ random cycle toDevice, e = { s.engine with
      random := random
      lastMmioCycle := cycle
      mmioQueue := if f.last then s.engine.mmioQueue.tail else s.engine.mmioQueue
      toDevice := toDevice } := ⟨_, _, _, beat.state⟩
  have still : ∀ left, toDevice ≠ .completion left := by
    intro left inside
    cases last : f.last with
    | true =>
      have ends : toDevice = .start := beat.ends last
      rw [ends] at inside
      cases inside
    | false =>
      obtain ⟨rest, goesOn⟩ := beat.goesOn (by simp [last])
      rw [show toDevice = .mmio rest from goesOn] at inside
      cases inside
  have started : (s.again.isSome ∨ ∃ left, toDevice = .completion left) ↔ s.Started := by
    rw [Session.Started, or_iff_left (not_exists.2 still), or_iff_left (not_exists.2 outside)]
  have head {x : Nat × CompletionPacket} (first : q.head? = some x) : s.Holds x.1 x.2.slot ↔
      ¬ ((s.again.isSome ∨ ∃ left, toDevice = .completion left) ∧ x.2.isLast) := by
    rw [started]
    exact sound.head x first
  cases last : f.last with
  | true =>
    have ends : toDevice = .start := beat.ends last
    have unread (j : Nat) : (s.received ++ [p]).filter (·.completes j) = s.wholeOf j := by
      have none_ : p.completes j = false := by
        rw [ReceivedPacket.completes, part]
        rfl
      rw [List.filter_append, Session.wholeOf, List.filter_singleton, none_]
      simp
    refine { sound with
      head := fun x first => head first
      progress := fun j d found =>
        (sound.progress j d found).congr Iff.rfl (unread j) rfl Iff.rfl
      streaming := .between ends rfl
      again := fun k cut => ⟨still, (sound.again k cut).2⟩
      numbered := ?numbered
      attributed := ?attributed }
    case numbered =>
      intro x member y is
      rcases List.mem_append.1 member with old | new
      · exact sound.numbered x old y is
      · rw [List.mem_singleton.1 new, part] at is
        cases is
    case attributed =>
      intro x member completion
      rcases List.mem_append.1 member with old | new
      · exact sound.attributed x old completion
      · rw [List.mem_singleton.1 new, kind] at completion
        cases completion
  | false =>
    obtain ⟨left, goesOn⟩ := beat.goesOn (by simp [last])
    exact { sound with
      head := fun x first => head first
      progress := fun j d found => (sound.progress j d found).congr Iff.rfl rfl rfl Iff.rfl
      streaming := .mmio left p goesOn rfl part kind waiting
      again := fun k cut => ⟨still, (sound.again k cut).2⟩ }

theorem withFault (sound : s.Sound q owed) (fault : Option EngineFault)
    (mmio : ∀ cycle v h, fault = some (.protocol cycle v h) →
      ∃ (r : MmioRequest) (cause : EncodingError),
        (r.header s.engine.params).fault? = some cause ∧ v = .encoding cause) :
    Session.Sound { s with fault := fault } q owed :=
  { sound with
    fault := mmio
    progress := fun i r read => (sound.progress i r read).congr Iff.rfl rfl rfl Iff.rfl
    streaming := sound.streaming.congr rfl (List.prefix_refl _) rfl rfl
      (fun _ r read => ⟨r, read, rfl⟩) fun _ first => first }

/-- The header of the completion at the head goes under the names of its read, unless the slot has
gone to another one. -/
theorem head_names (sound : s.Sound q owed) {c : CompletionPacket} {request : Header}
    (between : s.engine.toDevice = .start) (front : s.engine.completions.front? = some c)
    (stored : s.engine.slots.request? c.slot = some request) (clear : ¬ s.Displaced) :
    ∃ i r, q.head? = some (i, c) ∧ s.partOf c = ⟨i, c.startDword, c.isLast⟩ ∧
      s.reads[i]? = some r ∧ (c.header request).Completes r.header c.startDword ∧
      (s.owner c.slot = i ∨ s.engine.slots.isBusy c.slot = false) := by
  have front' := front
  rw [sound.front?_eq, Option.map_eq_some_iff] at front'
  obtain ⟨⟨i, c'⟩, first, same⟩ := front'
  obtain rfl : c' = c := same
  have member := List.mem_of_head? first
  obtain ⟨r, a, read, -, -, -, -, carries, -⟩ := sound.head_carries first
  obtain ⟨r', member', taken, -, kept⟩ := sound.request?_of_mem member
  obtain rfl : r'.stored = request := Option.some.inj (kept.symm.trans stored)
  have names := c'.completes_header r'.header carries.first (sound.admitted r' member').body
  have owner : s.again = none → s.owner c'.slot = i := by
    intro none_
    refine ((sound.head _ first).2 ?_).1
    rintro ⟨cut | ⟨left, inside⟩, -⟩
    · rw [none_] at cut
      cases cut
    · cases between.symm.trans inside
  cases again : s.again with
  | none =>
    have mine := owner again
    have part : s.partOf c' = ⟨i, c'.startDword, c'.isLast⟩ := by
      rw [Session.partOf, again, Option.getD_none, mine]
    rw [mine] at taken
    obtain rfl : r = r' := Option.some.inj (read.symm.trans taken)
    exact ⟨i, r, first, part, read, names, .inl mine⟩
  | some k =>
    obtain ⟨-, c, head⟩ := sound.again k again
    obtain ⟨rfl, rfl⟩ := Prod.mk.inj (Option.some.inj (head.symm.trans first))
    have part : s.partOf c = ⟨k, c.startDword, c.isLast⟩ := by
      rw [Session.partOf, again, Option.getD_some]
    by_cases mine : s.owner c.slot = k
    · rw [mine] at taken
      obtain rfl : r = r' := Option.some.inj (read.symm.trans taken)
      exact ⟨k, r, first, part, read, names, .inl mine⟩
    · rw [Session.Displaced] at clear
      push Not at clear
      rw [carries.slot] at mine taken
      obtain ⟨idle, same⟩ := clear k c r r' again front read mine taken
      rw [carries.slot]
      exact ⟨k, r, first, part, read, names.of_sameOrigin same, .inr (by simpa using idle)⟩

/-- The device gets the first beat of a completion. -/
theorem startsCompletion (sound : s.Sound q owed) {c : CompletionPacket} {request : Header}
    {random : DrawSource} {f : Flit} {e : Engine} (between : s.engine.toDevice = .start)
    (front : s.engine.completions.front? = some c)
    (stored : s.engine.slots.request? c.slot = some request)
    (header : f.header = .ok (c.header request))
    (beat : Engine.CompletionBeat
      { s.engine with
        random := random
        slots := if c.isLast then s.engine.slots.release c.slot else s.engine.slots }
      c HeaderWords.count c.dwordSize f e)
    (clear : ¬ s.Displaced) :
    ∃ q', (Session.receive { s with engine := e } (some c) f).Sound q' owed := by
  obtain ⟨i, r, first, part, read, names, kept⟩ :=
    sound.head_names between front stored clear
  have encodable := sound.encodable _ (List.mem_of_head? first)
  have open_ := sound.started random first read names (c.dwordSize_header encodable request)
    fun _ => kept
  have beat' : Engine.CompletionBeat
      { s.engine with
        random := random
        slots := if c.isLast then s.engine.slots.release c.slot else s.engine.slots
        toDevice := .completion c.dwordSize }
      c HeaderWords.count c.dwordSize f e :=
    ⟨beat.width, beat.payload, beat.last, beat.state⟩
  obtain ⟨q', last⟩ := open_.completionBeat rfl rfl front beat'
  have kind := c.isCompletion_header request
  refine ⟨q', ?_⟩
  have current : Session.current { s with engine := e } = none :=
    sound.streaming.current_of_start between
  rw [Session.receive_of_completion current header kind]
  change Session.Sound (Session.file _ (ReceivedPacket.extend ⟨_, some (s.partOf c), []⟩ _ _) _) _ _
  rw [part]
  cases ends : f.last with
  | true =>
    rw [ends] at last
    exact last
  | false =>
    rw [ends] at last
    exact last

/-- Whatever the engine sends, the device takes it for what it is. -/
theorem receive (sound : s.Sound q owed) {f : Flit} {e : Engine} {effects : List Effect}
    (sends : s.engine.Sends (.ok e (some f) effects))
    (clear : (Session.receive { s with engine := e } s.engine.completions.front? f).again = none →
      ¬ s.Displaced) :
    ∃ q', (Session.receive { s with engine := e } s.engine.completions.front? f).Sound q' owed := by
  cases sends with
  | startsMmio r between first header beat =>
    have current : Session.current { s with engine := e } = none :=
      sound.streaming.current_of_start between
    refine ⟨q, ?_⟩
    rw [Session.receive_of_other current header (Engine.isCompletion_mmioHeader ..)]
    refine sound.mmioBeat ?_ rfl (Engine.isCompletion_mmioHeader ..) ?_ beat
    · intro left inside
      cases between.symm.trans inside
    · intro none_
      rw [none_] at first
      cases first
  | continuesMmio left inside beat =>
    obtain ⟨p, current, part, kind, waiting⟩ := sound.streaming.of_mmio inside
    refine ⟨q, ?_⟩
    rw [Session.receive_of_current (s := { s with engine := e }) current]
    refine sound.mmioBeat ?_ part kind waiting beat
    intro left' inside'
    cases inside.symm.trans inside'
  | startsCompletion c request random between first stored header beat =>
    have current : Session.current { s with engine := e } = none :=
      sound.streaming.current_of_start between
    have kind := c.isCompletion_header request
    rw [first] at clear ⊢
    apply sound.startsCompletion between first stored header beat
    apply clear
    rw [Session.receive_of_completion current header kind]
    cases f.last with
    | true => rfl
    | false => rfl
  | continuesCompletion c random left inside first beat =>
    obtain ⟨-, -, p, -, current, -⟩ := sound.streaming.of_completion inside
    have drawn := sound.sameReads (e := { s.engine with random := random }) (.of_eq rfl)
    obtain ⟨q', last⟩ := drawn.completionBeat inside current first beat
    rw [Session.receive_of_current (s := { s with engine := e }) current]
    exact ⟨q', last⟩

theorem observe (sound : s.Sound q owed) {result : EngineStep (Option Flit)}
    (sends : s.engine.Sends result)
    (clear : (s.observe s.engine.completions.front? result).again = none → ¬ s.Displaced) :
    ∃ q', (s.observe s.engine.completions.front? result).Sound q' owed := by
  have faultless := sound.withFault none fun _ _ _ failed => nomatch failed
  have sends' := sends
  cases sends with
  | @nothing e effects state =>
    obtain ⟨random, rfl⟩ : ∃ random, e = { s.engine with random := random } := ⟨_, state⟩
    exact ⟨q, faultless.sameReads (.of_eq rfl)⟩
  | @refused e effects r cause first fault state =>
    obtain ⟨random, rfl⟩ : ∃ random, e = { s.engine with random := random, halted := true } :=
      ⟨_, state⟩
    have stopped := sound.sameReads (e := { s.engine with random := random, halted := true })
      (.of_eq rfl)
    refine ⟨q, stopped.withFault (some (.protocol s.engine.cycle (.encoding cause) none)) ?_⟩
    intro cycle v h failed
    obtain ⟨-, rfl, -⟩ := EngineFault.protocol.inj (Option.some.inj failed)
    exact ⟨r, cause, fault, rfl⟩
  | startsMmio => exact faultless.receive sends' clear
  | continuesMmio => exact faultless.receive sends' clear
  | startsCompletion => exact faultless.receive sends' clear
  | continuesCompletion => exact faultless.receive sends' clear

end Sound

end TlpBridge.Session

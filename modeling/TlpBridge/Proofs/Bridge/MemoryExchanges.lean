import TlpBridge.Proofs.Reads.AnnouncedBytes
import TlpBridge.Proofs.Bridge.BridgeRuns

/-!
# Exchanges with host memory

A bridge together with the log of its device and with the reads that the memory service has served:
what each of them asked for, and what memory was before and after it. The service serves the reads
in the order in which the device has sent them.
-/
namespace TlpBridge

variable {A : IovaAllocator}

namespace Session

/-- The reads are still there; they may have been answered. -/
def KeepsReads (s s' : Session) : Prop :=
  ∀ (i : Nat) (d : DeviceRead), s.reads[i]? = some d →
    ∃ a, s'.reads[i]? = some { d with answer := a }

namespace KeepsReads

variable {s s' s'' : Session}

theorem of_append (more : ∃ later, s'.reads = s.reads ++ later) : s.KeepsReads s' := by
  obtain ⟨later, appended⟩ := more
  intro i d read
  refine ⟨d.answer, ?_⟩
  rw [appended, List.getElem?_append_left (List.getElem?_eq_some_iff.1 read).1, read]

theorem of_eq (same : s'.reads = s.reads) : s.KeepsReads s' :=
  of_append ⟨[], by rw [same, List.append_nil]⟩

theorem trans (first : s.KeepsReads s') (second : s'.KeepsReads s'') : s.KeepsReads s'' := by
  intro i d read
  obtain ⟨a, next⟩ := first i d read
  exact second i { d with answer := a } next

end KeepsReads

theorem reads_accept (s : Session) (cycle : Nat) (flit : Flit) :
    (s.accept cycle flit).reads = s.reads ∨
      ∃ d : DeviceRead, (s.accept cycle flit).reads = s.reads ++ [d] ∧ d.answer = none := by
  simp only [Session.accept]
  split
  · exact .inr ⟨_, rfl, rfl⟩
  · exact .inl rfl

theorem keepsReads_step (s : Session) (m : Move) : s.KeepsReads (s.step m) := by
  cases m with
  | accept cycle flit =>
    rcases s.reads_accept cycle flit with same | ⟨d, appended, -⟩
    · exact .of_eq same
    · exact .of_append ⟨[d], appended⟩
  | ready => exact .of_eq rfl
  | request r => exact .of_eq rfl
  | emit cycle ready => exact .of_eq (s.emit_frame cycle ready).2.1
  | reset => exact .of_eq rfl
  | takeRequest => exact .of_eq ((congrArg Session.reads s.takeRequest_eq).trans rfl)
  | answerRead i a =>
    change s.KeepsReads (s.answerRead i a)
    unfold answerRead
    split
    · next r link read posted =>
      split
      · intro j d found
        by_cases mine : j = i
        · subst mine
          obtain rfl : r = d := Option.some.inj (read.symm.trans found)
          exact ⟨some a, List.getElem?_set_self (List.getElem?_eq_some_iff.1 read).1⟩
        · exact ⟨d.answer, (List.getElem?_set_ne (Ne.symm mine)).trans found⟩
      · exact .of_eq rfl
    · exact .of_eq rfl
  | answerWrite a =>
    change s.KeepsReads (s.answerWrite a)
    unfold answerWrite
    split
    · exact .of_eq rfl
    · exact .of_eq rfl

/-- What a session comes to without a reset. -/
def Advances (s s' : Session) : Prop := ∃ moves : List Move, Move.reset ∉ moves ∧ s' = s.run moves

namespace Advances

variable {s s' s'' : Session}

theorem refl (s : Session) : s.Advances s := ⟨[], List.not_mem_nil, rfl⟩

theorem trans (first : s.Advances s') (second : s'.Advances s'') : s.Advances s'' := by
  obtain ⟨moves, none_, rfl⟩ := first
  obtain ⟨more, none', rfl⟩ := second
  refine ⟨moves ++ more, ?_, (s.run_append moves more).symm⟩
  rw [List.mem_append, not_or]
  exact ⟨none_, none'⟩

theorem step (s : Session) {m : Move} (other : m ≠ .reset) : s.Advances (s.step m) :=
  ⟨[m], by rwa [List.mem_singleton, eq_comm], rfl⟩

theorem regular (advances : s.Advances s') {config : ValidParameters}
    (regular : s.Regular config) : s'.Regular config := by
  obtain ⟨moves, no_reset, rfl⟩ := advances
  exact regular.run moves no_reset

theorem keepsReads (advances : s.Advances s') : s.KeepsReads s' := by
  obtain ⟨moves, -, rfl⟩ := advances
  induction moves generalizing s with
  | nil => exact .of_eq rfl
  | cons m moves ih => exact (s.keepsReads_step m).trans ih

end Advances

end Session

/-- The service leaves no request. -/
theorem Bridge.readRequests_serve (b : Bridge A) :
    (b.step .serve).engine.link.readRequests = [] := by
  obtain ⟨answers, writes, link⟩ := MemoryService.link_serveAll
    ⟨b.memory, { b.engine.link with requests := [] }⟩ b.engine.link.requests
  change (MemoryService.serveAll b.engine.link.requests _).state.link.readRequests = []
  rw [link]
  rfl

/-- A read that the memory service has served, with the memory before and after it. -/
structure ServedRead (A : IovaAllocator) where
  request : ReadRequest
  before : HostMemory A
  after : HostMemory A

/-- What the service has answered. -/
def ServedRead.response (m : ServedRead A) : ReadResponse :=
  HostMemory.readResponse m.request (m.before.read m.request).answer

structure Exchange (A : IovaAllocator) where
  session : Session
  memory : HostMemory A
  /-- The reads that the service has served, in order. -/
  served : List (ServedRead A) := []

namespace Exchange

def bridge (x : Exchange A) : Bridge A := ⟨x.session.engine, x.memory⟩

def start (config : ValidParameters) (options : Switches) (random : DrawSource)
    (memory : HostMemory A) : Exchange A where
  session := .start config options random
  memory := memory

/-- The service takes the request that waits longest and answers it. -/
def serveNext (x : Exchange A) : MemoryRequest → Exchange A
  | .read r =>
    let m : ServedRead A := ⟨r, x.memory, (x.memory.read r).state⟩
    { session := x.session.takeRequest.answerRead x.served.length m.response
      memory := m.after
      served := x.served ++ [m] }
  | .write w =>
    { x with
      session := x.session.takeRequest.answerWrite (HostMemory.writeResponse (x.memory.write w).1)
      memory := (x.memory.write w).2 }

def step (x : Exchange A) : Bridge.Move A → Exchange A
  | .accept cycle flit => { x with session := x.session.accept cycle flit }
  | .ready => { x with session := x.session.step .ready }
  | .request r => { x with session := x.session.step (.request r) }
  | .emit cycle ready => { x with session := x.session.emit cycle ready }
  | .serve => x.session.engine.link.requests.foldl serveNext x
  | .change memory => { x with memory := memory }

def run (x : Exchange A) (moves : List (Bridge.Move A)) : Exchange A := moves.foldl step x

theorem advances_serveNext (x : Exchange A) (r : MemoryRequest) :
    x.session.Advances (x.serveNext r).session := by
  have taken := Session.Advances.step x.session (m := .takeRequest) (fun same => nomatch same)
  cases r with
  | read r =>
    exact taken.trans (Session.Advances.step _ (m := .answerRead _ _) (fun same => nomatch same))
  | write w =>
    exact taken.trans (Session.Advances.step _ (m := .answerWrite _) (fun same => nomatch same))

theorem advances_step (x : Exchange A) (m : Bridge.Move A) :
    x.session.Advances (x.step m).session := by
  cases m with
  | accept cycle flit => exact .step x.session (m := .accept cycle flit) (fun same => nomatch same)
  | ready => exact .step x.session (m := .ready) (fun same => nomatch same)
  | request r => exact .step x.session (m := .request r) (fun same => nomatch same)
  | emit cycle ready => exact .step x.session (m := .emit cycle ready) (fun same => nomatch same)
  | serve =>
    change x.session.Advances (x.session.engine.link.requests.foldl serveNext x).session
    generalize x.session.engine.link.requests = rs
    induction rs generalizing x with
    | nil => exact .refl _
    | cons r rest ih => exact (x.advances_serveNext r).trans (ih _)
  | change memory => exact .refl _

theorem advances_run (x : Exchange A) (moves : List (Bridge.Move A)) :
    x.session.Advances (x.run moves).session := by
  induction moves generalizing x with
  | nil => exact .refl _
  | cons m moves ih => exact (x.advances_step m).trans (ih _)

/-- The log is that of the bridge: the service has served the first of the reads, each out of the
memory that it then found. -/
structure Records (x : Exchange A) (b : Bridge A) : Prop where
  mirrors : b.Mirrors x.session
  memory : x.memory = b.memory
  answers : ∀ (i : Nat) (d : DeviceRead), x.session.reads[i]? = some d →
    d.answer = (x.served[i]?).map ServedRead.response
  served : ∀ (i : Nat) (m : ServedRead A), x.served[i]? = some m →
    m.after = (m.before.read m.request).state ∧
      ∃ d, x.session.reads[i]? = some d ∧ d.request = m.request

namespace Records

variable {x : Exchange A} {b b' : Bridge A}

theorem start (config : ValidParameters) (options : Switches) (random : DrawSource)
    (memory : HostMemory A) :
    (Exchange.start config options random memory).Records
      (.start config options random memory) where
  mirrors := .start config options random memory
  memory := rfl
  answers _ _ read := nomatch read
  served _ _ read := nomatch read

theorem bridge_eq (records : x.Records b) : x.bridge = b := by
  rw [bridge, records.mirrors.engine, records.memory]

theorem length_served (records : x.Records b) : x.served.length ≤ x.session.reads.length := by
  by_contra more
  obtain ⟨-, d, read, -⟩ := records.served x.session.reads.length x.served[x.session.reads.length]
    (List.getElem?_eq_getElem _)
  exact absurd (List.getElem?_eq_some_iff.1 read).1 (Nat.lt_irrefl _)

/-- A move that serves nothing appends at most one read, which is not answered. -/
theorem withSession (records : x.Records b) {s : Session} {memory : HostMemory A}
    (mirrors : b'.Mirrors s) (same : memory = b'.memory)
    (reads : s.reads = x.session.reads ∨
      ∃ d : DeviceRead, s.reads = x.session.reads ++ [d] ∧ d.answer = none) :
    Records { x with session := s, memory := memory } b' := by
  rcases reads with kept | ⟨new, appended, unanswered⟩
  · refine ⟨mirrors, same, fun i d read => ?_, fun i m served => ?_⟩
    · rw [kept] at read
      exact records.answers i d read
    · rw [kept]
      exact records.served i m served
  · refine ⟨mirrors, same, fun i d read => ?_, fun i m served => ?_⟩
    · rw [appended, List.getElem?_append] at read
      split at read
      · exact records.answers i d read
      · next beyond =>
        rw [List.getElem?_singleton] at read
        split at read
        · have none_ : x.served[i]? = none :=
            List.getElem?_eq_none (records.length_served.trans (Nat.le_of_not_lt beyond))
          rw [← Option.some.inj read, unanswered, none_, Option.map_none]
        · cases read
    · obtain ⟨after, d, read, request⟩ := records.served i m served
      exact ⟨after, d,
        by rw [appended, List.getElem?_append_left (List.getElem?_eq_some_iff.1 read).1, read],
        request⟩

/-- The read that waits longest is the first that is not served. -/
theorem eq_length_of_waitsLongest (records : x.Records b) {i : Nat} {d : DeviceRead}
    (longest : x.session.WaitsLongest i d) : i = x.served.length := by
  have unserved := (records.answers i d longest.read).symm.trans longest.unanswered
  rw [Option.map_eq_none_iff, List.getElem?_eq_none_iff] at unserved
  refine Nat.le_antisymm (Nat.le_of_not_lt fun inside => ?_) unserved
  obtain ⟨d', read⟩ : ∃ d', x.session.reads[x.served.length]? = some d' :=
    ⟨_, List.getElem?_eq_getElem (inside.trans (List.getElem?_eq_some_iff.1 longest.read).1)⟩
  have answered := longest.earlier _ inside d' read
  rw [records.answers _ d' read, List.getElem?_eq_none (Nat.le_refl _)] at answered
  cases answered

/-- A move that serves the next read answers it. -/
theorem withServed (records : x.Records b) {s : Session} {d : DeviceRead} {m : ServedRead A}
    (mirrors : b'.Mirrors s) (same : m.after = b'.memory)
    (read : x.session.reads[x.served.length]? = some d) (request : d.request = m.request)
    (after : m.after = (m.before.read m.request).state)
    (reads : s.reads = x.session.reads.set x.served.length { d with answer := some m.response }) :
    Records ⟨s, m.after, x.served ++ [m]⟩ b' := by
  have inside := (List.getElem?_eq_some_iff.1 read).1
  refine ⟨mirrors, same, fun i d' found => ?_, fun i m' served => ?_⟩
  · change d'.answer = ((x.served ++ [m])[i]?).map ServedRead.response
    rw [reads, List.getElem?_set] at found
    by_cases mine : x.served.length = i
    · rw [if_pos mine, if_pos inside] at found
      rw [← mine, List.getElem?_concat_length, ← Option.some.inj found]
      rfl
    · rw [if_neg mine] at found
      rw [records.answers i d' found, List.getElem?_append]
      split
      · rfl
      · next beyond =>
        rw [List.getElem?_eq_none (Nat.le_of_not_lt beyond), List.getElem?_singleton,
          if_neg (by omega)]
  · change (x.served ++ [m])[i]? = some m' at served
    change _ ∧ ∃ d', s.reads[i]? = some d' ∧ _
    rw [reads, List.getElem?_set]
    by_cases mine : x.served.length = i
    · rw [← mine, List.getElem?_concat_length] at served
      rw [if_pos mine, if_pos inside, ← Option.some.inj served]
      exact ⟨after, _, rfl, request⟩
    · rw [List.getElem?_append] at served
      split at served
      · rw [if_neg mine]
        exact records.served i m' served
      · rw [List.getElem?_singleton, if_neg (by omega)] at served
        cases served

theorem serveNext {e : Engine} {svc : MemoryService A} {r : MemoryRequest}
    {rest : List MemoryRequest} (records : x.Records (Bridge.serving e svc (r :: rest))) :
    (x.serveNext r).Records (Bridge.serving e (svc.serve r).state rest) := by
  have attached : svc.link.engineAttached := records.mirrors.attached.1
  have memory : x.memory = svc.memory := records.memory
  cases r with
  | read r =>
    obtain ⟨i, d, longest, rfl, served⟩ := records.mirrors.serveRead
    obtain rfl := records.eq_length_of_waitsLongest longest
    rw [← memory] at served
    obtain ⟨reads, mirrors⟩ := served _ rfl
    refine records.withServed mirrors ?_ longest.read rfl rfl reads
    change (x.memory.read d.request).state = (svc.serveRead d.request).state.memory
    rw [svc.state_serveRead attached, memory]
  | write w =>
    have served := records.mirrors.serveWrite
    rw [← memory] at served
    obtain ⟨reads, mirrors⟩ := served _ rfl
    refine records.withSession mirrors ?_ (.inl reads)
    change (x.memory.write w).2 = (svc.serveWrite w).state.memory
    rw [svc.state_serveWrite attached, memory]

theorem serveAll (e : Engine) (rs : List MemoryRequest) (svc : MemoryService A)
    (records : x.Records (Bridge.serving e svc rs)) :
    (rs.foldl Exchange.serveNext x).Records
      (Bridge.serving e (MemoryService.serveAll rs svc).state []) := by
  induction rs generalizing svc x with
  | nil => exact records
  | cons r rest ih => exact ih _ records.serveNext

/-- What a move preserves. -/
theorem step (records : x.Records b) (m : Bridge.Move A) : (x.step m).Records (b.step m) := by
  have engine := records.mirrors.engine
  cases m with
  | accept cycle flit =>
    exact records.withSession (records.mirrors.accept cycle flit) records.memory
      (x.session.reads_accept cycle flit)
  | ready =>
    refine records.withSession ?_ records.memory (.inl rfl)
    rw [Session.step, engine]
    exact records.mirrors.sameReads b.engine.quiet_ready.1 (congrArg _ b.engine.link_ready)
  | request r =>
    refine records.withSession ?_ records.memory (.inl rfl)
    rw [Session.step, engine]
    exact records.mirrors.sameReads (b.engine.quiet_request r).1
      (congrArg _ (b.engine.link_request r))
  | emit cycle ready =>
    exact records.withSession (records.mirrors.emit cycle ready) records.memory
      (.inl (x.session.emit_frame cycle ready).2.1)
  | serve =>
    have served := serveAll (x := x) b.engine b.engine.link.requests
      ⟨b.memory, { b.engine.link with requests := [] }⟩
      ⟨records.mirrors, records.memory, records.answers, records.served⟩
    have mirrors := Bridge.Mirrors.of_served served.mirrors
    change (x.session.engine.link.requests.foldl Exchange.serveNext x).Records (b.step .serve)
    rw [engine]
    exact ⟨mirrors, served.memory, served.answers, served.served⟩
  | change memory =>
    have mirrors := records.mirrors
    exact records.withSession
      ⟨mirrors.engine, mirrors.sound, mirrors.again, mirrors.asked, mirrors.whole⟩ rfl (.inl rfl)

theorem run (records : x.Records b) (moves : List (Bridge.Move A)) :
    (x.run moves).Records (b.run moves) := by
  induction moves generalizing x b with
  | nil => exact records
  | cons m moves ih => exact ih (records.step m)

/-- Whenever the service is at work, it serves all reads that wait. -/
theorem served_serve (records : x.Records b) {i : Nat} {d : DeviceRead}
    (read : x.session.reads[i]? = some d) : ∃ m, (x.step .serve).served[i]? = some m := by
  have next := records.step .serve
  obtain ⟨a, kept⟩ := (x.advances_step .serve).keepsReads i d read
  have answer := next.answers i _ kept
  have asked := next.mirrors.asked
  rw [Bridge.readRequests_serve] at asked
  have none_ := List.filter_eq_nil_iff.1 (List.map_eq_nil_iff.1 asked.symm)
  have answered := none_ _ (List.mem_of_getElem? kept)
  rw [Bool.not_eq_true, Option.isNone_eq_false_iff, answer, Option.isSome_map] at answered
  exact Option.isSome_iff_exists.1 answered

end Records

end Exchange

end TlpBridge

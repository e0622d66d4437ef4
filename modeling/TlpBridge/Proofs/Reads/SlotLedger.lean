import TlpBridge.Proofs.Reads.HousedReads
import TlpBridge.Proofs.Reads.ReadDelivery

/-!
# A ledger of answers

A session together with an account of the answers under way: of the reads whose answers the engine
has not collected yet, and of how many writes were asked for and how many of their answers were
collected. The account is kept from what goes through the link.
-/
namespace TlpBridge

/-- The writes among the requests that were posted to a link. -/
def MemoryLink.postedWrites (before after : MemoryLink) : List WriteRequest :=
  (after.requests.drop before.requests.length).filterMap fun
    | .read _ => none
    | .write w => some w

theorem MemoryLink.postedWrites_of_eq {l l' : MemoryLink} (same : l'.requests = l.requests) :
    l.postedWrites l' = [] := by
  simp [postedWrites, same]

structure Ledger where
  session : Session
  /-- The reads whose answers wait in the link, in the order of the answers. -/
  waiting : List Nat := []
  /-- How many writes host memory was asked for. -/
  forwarded : Nat := 0
  /-- How many answers to writes the engine has taken. -/
  collected : Nat := 0

namespace Ledger

open Session (Move)

/-- The ledger of a fresh engine. -/
def start (config : ValidParameters) (options : Switches) (random : DrawSource) : Ledger where
  session := .start config options random

/-- The reads whose answers wait after a move: an answer that is posted joins them, and those that
are taken leave from the front. -/
def waitingAfter (before after : MemoryLink) (m : Move) (waiting : List Nat) : List Nat :=
  match m with
  | .answerRead i _ =>
    if before.readResponses.length < after.readResponses.length then waiting ++ [i] else waiting
  | _ => waiting.drop (before.readResponses.length - after.readResponses.length)

def step (l : Ledger) (m : Move) : Ledger :=
  let before := l.session.engine.link
  let session := l.session.step m
  let after := session.engine.link
  { session := session
    waiting := waitingAfter before after m l.waiting
    forwarded := l.forwarded + (before.postedWrites after).length
    collected := l.collected + (before.writeResponses.length - after.writeResponses.length) }

def run (l : Ledger) (moves : List Move) : Ledger := moves.foldl step l

/-- The account agrees with the engine, in a session in which nothing has gone wrong. -/
structure Balances (l : Ledger) (mapped : Bool) : Prop where
  sound : ∃ q, l.session.Sound q l.waiting
  housed : l.session.Housed mapped
  again : l.session.again = none
  writes : l.session.engine.pendingWrites + l.collected = l.forwarded

end Ledger

namespace Session

variable {s : Session} {q : OwnedQueue} {owed : List Nat}

theorem Sound.owed_eq (sound : s.Sound q owed) :
    owed = s.engine.link.readResponses.map fun a => s.owner a.tag.toNat := by
  let ownerOf (a? : Option ReadResponse) : Nat := a?.elim 0 fun a => s.owner a.tag.toNat
  calc
    owed = owed.map fun i => ownerOf ((s.reads[i]?).bind (·.answer)) := by
      conv_lhs => rw [← List.map_id owed]
      refine List.map_congr_left fun i due => ?_
      obtain ⟨a, answered⟩ := sound.answer_of_owed due
      obtain ⟨r, read, answer⟩ := Option.bind_eq_some_iff.1 answered
      obtain ⟨slot, holds, -⟩ := sound.holds_of_due due read answer
      rw [answered]
      change i = s.owner a.tag.toNat
      rw [slot, holds.1]
    _ = (s.engine.link.readResponses.map some).map ownerOf := by
      rw [sound.responses, List.map_map]
      rfl
    _ = _ := List.map_map

theorem not_misdirects_of_again (again : s.again = none) (m : Move) : ¬ s.Misdirects m := by
  cases m with
  | emit cycle ready =>
    rintro ⟨⟨i, c, r, r', cut, -⟩, -⟩
    cases again.symm.trans cut
  | _ => exact id

theorem Sound.owner_of_admits (sound : s.Sound q owed) {i : Nat} {r : DeviceRead}
    {a : ReadResponse} (read : s.reads[i]? = some r) (admits : r.Admits a) :
    s.owner a.tag.toNat = i := by
  obtain ⟨unanswered, tag, -⟩ := admits
  rw [tag]
  change s.owner r.slot = i
  cases sound.progress i r read with
  | waiting _ holds => exact holds.1
  | failed b answer =>
    rw [unanswered] at answer
    cases answer
  | served b n answer =>
    rw [unanswered] at answer
    cases answer

end Session

namespace Engine

/-- A beat of the device takes no answer, and every write that it asks for is counted. -/
theorem Takes.counted {e : Engine} {flit : Flit} {s : EngineStep Unit} (takes : e.Takes flit s) :
    s.state.pendingWrites = e.pendingWrites + (e.link.postedWrites s.state.link).length ∧
      s.state.link.readResponses = e.link.readResponses ∧
      s.state.link.writeResponses = e.link.writeResponses := by
  cases takes with
  | halted _ _ state =>
    rw [state, MemoryLink.postedWrites_of_eq rfl]
    exact ⟨rfl, rfl, rfl⟩
  | refused _ state =>
    rw [state, MemoryLink.postedWrites_of_eq rfl]
    exact ⟨rfl, rfl, rfl⟩
  | other _ _ _ state =>
    rw [state, MemoryLink.postedWrites_of_eq rfl]
    exact ⟨rfl, rfl, rfl⟩
  | open_ _ _ _ _ state =>
    rw [state, MemoryLink.postedWrites_of_eq rfl]
    exact ⟨rfl, rfl, rfl⟩
  | write _ _ _ _ state =>
    rw [state]
    simp [MemoryLink.postedWrites]
  | read _ takes =>
    rw [takes.state]
    simp [MemoryLink.postedWrites]

end Engine

namespace Ledger

open Session (Move)

variable {l : Ledger} {mapped : Bool}

theorem balances_start (config : ValidParameters) (options : Switches) (random : DrawSource) :
    (start config options random).Balances config.params.tagMapper where
  sound := ⟨[], .start config options random⟩
  housed := .start config options random
  again := rfl
  writes := rfl

namespace Balances

theorem of_step (balances : l.Balances mapped) {m : Move} (other : m ≠ .reset)
    (sound : ∃ q, (l.session.step m).Sound q (l.step m).waiting)
    (writes : (l.session.step m).engine.pendingWrites +
      (l.session.engine.link.writeResponses.length -
        (l.session.step m).engine.link.writeResponses.length) = l.session.engine.pendingWrites +
      (l.session.engine.link.postedWrites (l.session.step m).engine.link).length) :
    (l.step m).Balances mapped := by
  obtain ⟨q, before⟩ := balances.sound
  refine ⟨sound, balances.housed.step before m, Session.again_step balances.again other, ?_⟩
  have counted := balances.writes
  change (l.session.step m).engine.pendingWrites + (l.collected + _) = l.forwarded + _
  omega

/-- A move without an answer to a read: answers to reads are at most taken, no slot goes to another
read and nothing is asked of host memory. -/
theorem takes (balances : l.Balances mapped) {m : Move} (other : m ≠ .reset)
    (silent : ∀ i a, m ≠ .answerRead i a)
    (owner : (l.session.step m).owner = l.session.owner)
    (reads : (l.session.step m).engine.link.readResponses <:+ l.session.engine.link.readResponses)
    (writes : (l.session.step m).engine.pendingWrites +
      (l.session.engine.link.writeResponses.length -
        (l.session.step m).engine.link.writeResponses.length) = l.session.engine.pendingWrites)
    (requests : l.session.engine.link.postedWrites (l.session.step m).engine.link = []) :
    (l.step m).Balances mapped := by
  obtain ⟨q, sound⟩ := balances.sound
  obtain ⟨q', owed', next⟩ := sound.step m (Session.not_misdirects_of_again balances.again m)
  have taken : (l.step m).waiting = l.waiting.drop (l.session.engine.link.readResponses.length -
      (l.session.step m).engine.link.readResponses.length) := by
    change waitingAfter _ _ m _ = _
    cases m with
    | answerRead i a => exact absurd rfl (silent i a)
    | _ => rfl
  have left : owed' = (l.step m).waiting := by
    rw [taken, next.owed_eq, owner, sound.owed_eq, ← List.map_drop,
      ← List.suffix_iff_eq_drop.1 reads]
  refine balances.of_step other ⟨q', left ▸ next⟩ ?_
  rw [requests]
  exact writes

theorem frees (balances : l.Balances mapped) {m : Move} (other : m ≠ .reset)
    (silent : ∀ i a, m ≠ .answerRead i a)
    (owner : (l.session.step m).owner = l.session.owner)
    (frees : l.session.engine.Frees (l.session.step m).engine) : (l.step m).Balances mapped := by
  refine balances.takes other silent owner ?_ ?_ ?_
  · rw [frees.link]
  · rw [frees.link, frees.pendingWrites, Nat.sub_self]
    rfl
  · exact MemoryLink.postedWrites_of_eq (congrArg _ frees.link)

theorem accept (balances : l.Balances mapped) (cycle : Nat) (flit : Flit) :
    (l.step (.accept cycle flit)).Balances mapped := by
  obtain ⟨q, sound⟩ := balances.sound
  have counted := (Engine.accept_takes sound.attached cycle flit).counted
  rw [← l.session.engine_accept cycle flit] at counted
  obtain ⟨pending, reads, writes⟩ := counted
  refine balances.of_step nofun ⟨q, ?_⟩ ?_
  · have waiting : (l.step (.accept cycle flit)).waiting = l.waiting := by
      change l.waiting.drop (_ - (l.session.accept cycle flit).engine.link.readResponses.length) = _
      rw [reads, Nat.sub_self, List.drop_zero]
    rw [waiting]
    exact sound.accept cycle flit
  · change (l.session.accept cycle flit).engine.pendingWrites +
      (_ - (l.session.accept cycle flit).engine.link.writeResponses.length) = _
    rw [pending, writes, Nat.sub_self]
    rfl

theorem emit (balances : l.Balances mapped) (cycle : Nat) (ready : Bool) :
    (l.step (.emit cycle ready)).Balances mapped := by
  obtain ⟨q, sound⟩ := balances.sound
  obtain ⟨q', owed', collected, -⟩ := sound.collect cycle
  obtain ⟨engine, -, owner⟩ := l.session.emit_frame cycle ready
  have taken := l.session.engine.takesAnswers_emit cycle ready collected.sendable
  have requests :=
    (l.session.engine.keepsInbound_emit cycle ready collected.sendable).requests
  rw [← engine] at taken requests
  refine balances.takes nofun nofun owner taken.reads.rest ?_
    (MemoryLink.postedWrites_of_eq requests)
  have counted := taken.writes.counted
  have fewer := taken.writes.rest.length_le
  change (l.session.emit cycle ready).engine.pendingWrites +
    (_ - (l.session.emit cycle ready).engine.link.writeResponses.length) = _
  omega

theorem takeRequest (balances : l.Balances mapped) : (l.step .takeRequest).Balances mapped := by
  have taken : l.session.step .takeRequest = _ := l.session.takeRequest_eq
  refine balances.takes nofun nofun (by rw [taken]) ?_ ?_ ?_
  · rw [taken]
  · rw [taken]
    exact congrArg _ (Nat.sub_self _)
  · rw [taken]
    simp [MemoryLink.postedWrites, List.drop_eq_nil_of_le]

/-- An answer to a read joins those that wait, under the number of its read. -/
theorem answerRead (balances : l.Balances mapped) (i : Nat) (a : ReadResponse) :
    (l.step (.answerRead i a)).Balances mapped := by
  obtain ⟨q, sound⟩ := balances.sound
  obtain ⟨q', owed', next⟩ := sound.step (.answerRead i a) id
  have waiting : (l.step (.answerRead i a)).waiting =
      if l.session.engine.link.readResponses.length <
        (l.session.step (.answerRead i a)).engine.link.readResponses.length then l.waiting ++ [i]
      else l.waiting := rfl
  rcases l.session.answerRead_cases i a sound.attached.1 with same | ⟨r, read, admits, posted⟩
  · have idle : l.session.step (.answerRead i a) = l.session := same
    refine balances.of_step nofun ⟨q, ?_⟩ ?_
    · rw [waiting, idle, if_neg (Nat.lt_irrefl _)]
      exact sound
    · rw [idle, MemoryLink.postedWrites_of_eq rfl, Nat.sub_self]
      rfl
  · have answered : l.session.step (.answerRead i a) = _ := posted
    have link := congrArg (fun s : Session => s.engine.link) answered
    have owner := congrArg Session.owner answered
    simp only at link owner
    have owed : owed' = (l.session.engine.link.readResponses ++ [a]).map
        fun a => l.session.owner a.tag.toNat := by rw [next.owed_eq, link, owner]
    rw [List.map_append, ← sound.owed_eq, List.map_singleton,
      sound.owner_of_admits read admits] at owed
    refine balances.of_step nofun ⟨q', ?_⟩ ?_
    · rw [waiting, link, if_pos (by simp), ← owed]
      exact next
    · have requests : (l.session.step (.answerRead i a)).engine.link.requests =
          l.session.engine.link.requests := by rw [link]
      rw [MemoryLink.postedWrites_of_eq requests, link, Nat.sub_self]
      rw [answered]
      rfl

theorem answerWrite (balances : l.Balances mapped) (a : WriteResponse) :
    (l.step (.answerWrite a)).Balances mapped := by
  obtain ⟨q, sound⟩ := balances.sound
  have answered : l.session.step (.answerWrite a) = _ := Session.answerWrite_eq sound.attached.1 a
  refine balances.takes nofun nofun (by rw [answered]) ?_ ?_ ?_
  · rw [answered]
  · have more : l.session.engine.link.writeResponses.length -
        (l.session.engine.link.writeResponses ++ [a]).length = 0 := by simp
    rw [answered]
    exact congrArg _ more
  · rw [answered]
    exact MemoryLink.postedWrites_of_eq rfl

theorem step (balances : l.Balances mapped) (m : Move) (other : m ≠ .reset) :
    (l.step m).Balances mapped := by
  cases m with
  | accept cycle flit => exact balances.accept cycle flit
  | ready => exact balances.frees other nofun rfl l.session.engine.frees_ready
  | request r => exact balances.frees other nofun rfl (l.session.engine.frees_request r)
  | emit cycle ready => exact balances.emit cycle ready
  | reset => exact absurd rfl other
  | takeRequest => exact balances.takeRequest
  | answerRead i a => exact balances.answerRead i a
  | answerWrite a => exact balances.answerWrite a

theorem run (balances : l.Balances mapped) (moves : List Move) (no_reset : Move.reset ∉ moves) :
    (l.run moves).Balances mapped := by
  induction moves generalizing l with
  | nil => exact balances
  | cons m moves ih =>
    rw [List.mem_cons, not_or] at no_reset
    exact ih (balances.step m (Ne.symm no_reset.1)) no_reset.2

end Balances

end Ledger

end TlpBridge

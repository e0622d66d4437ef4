import TlpBridge.Proofs.Reads.SentBeats

/-!
# Sound runs

Every move keeps a session sound but one: a completion that a reset has cut off is sent
again although its slot has gone to another read.
-/
namespace TlpBridge

theorem EngineStep.andThen_assoc {α β γ : Type} (s : EngineStep α)
    (f : α → Engine → EngineStep β) (g : β → Engine → EngineStep γ) :
    (s.andThen f).andThen g = s.andThen fun a e => (f a e).andThen g := by
  unfold EngineStep.andThen
  cases s.answer with
  | error fault => rfl
  | ok a =>
    simp only [EngineStep.after]
    cases (f a s.state).answer with
    | error fault => rfl
    | ok b => simp only [List.append_assoc]

namespace Engine

theorem emit_eq (e : Engine) (cycle : Nat) (ready : Bool) : e.emit cycle ready =
    if e.halted then ⟨.error .halted, e, []⟩
    else (e.collect cycle).andThen fun () e => if ready then e.sendBeat else .ok e none := by
  rw [collect, EngineStep.andThen_assoc]
  rfl

end Engine

namespace Session

/-- The session once the engine took what host memory has answered. -/
def collect (s : Session) (cycle : Nat) : Session :=
  { s with engine := (s.engine.collect cycle).state }

/-- The move starts a completion again that has lost its slot to another read. -/
def Misdirects (s : Session) : Move → Prop
  | .emit cycle ready => (s.collect cycle).Displaced ∧ (s.emit cycle ready).again = none
  | _ => False

/-- A cycle ends without a beat and with the read side as it was, or after the answers were taken,
or with what the engine sends then. -/
theorem emit_cases (s : Session) (cycle : Nat) (ready : Bool) :
    s.emit cycle ready = { s with fault := some .halted } ∨
      (∃ fault, (s.engine.collect cycle).answer = .error fault ∧
        s.emit cycle ready = { s.collect cycle with fault := some fault }) ∨
      (s.engine.collect cycle).answer = .ok () ∧
        (s.emit cycle ready = { s.collect cycle with fault := none } ∨
          ∃ effects, s.emit cycle ready = (s.collect cycle).observe
            (s.collect cycle).engine.completions.front?
            ((s.collect cycle).engine.sendBeat.after effects)) := by
  rw [Session.emit, Engine.emit_eq]
  by_cases halted : s.engine.halted
  · rw [if_pos halted]
    exact .inl rfl
  · rw [if_neg halted]
    right
    cases answer : (s.engine.collect cycle).answer with
    | error fault =>
      left
      refine ⟨fault, rfl, ?_⟩
      simp only [EngineStep.andThen, answer]
      rfl
    | ok u =>
      right
      refine ⟨rfl, ?_⟩
      simp only [EngineStep.andThen, answer]
      cases ready with
      | false => exact .inl rfl
      | true => exact .inr ⟨_, rfl⟩

namespace Sound

variable {s : Session} {q : OwnedQueue} {owed : List Nat}

theorem emit (sound : s.Sound q owed) (cycle : Nat) (ready : Bool)
    (clear : ¬ s.Misdirects (.emit cycle ready)) :
    ∃ q' owed', (s.emit cycle ready).Sound q' owed' := by
  obtain ⟨q', owed', collected, keeps, -⟩ := sound.collect cycle
  change (s.collect cycle).Sound q' owed' at collected
  rcases s.emit_cases cycle ready with
    halted | ⟨fault, answer, stopped⟩ | ⟨-, quiet | ⟨effects, sent⟩⟩
  · rw [halted]
    exact ⟨q, owed, sound.withFault _ fun _ _ _ failed => nomatch failed⟩
  · rw [stopped]
    refine ⟨q', owed', collected.withFault _ ?_⟩
    intro c v h failed
    rw [Option.some.inj failed] at answer
    exact absurd answer (keeps c v h)
  · rw [quiet]
    exact ⟨q', owed', collected.withFault _ fun _ _ _ failed => nomatch failed⟩
  · have sends := (Engine.sendBeat_sends _ collected.sendable).after effects
    rw [sent]
    obtain ⟨q'', last⟩ := collected.observe sends fun again displaced =>
      clear ⟨displaced, by rw [sent]; exact again⟩
    exact ⟨q'', owed', last⟩

/-- What a move preserves. -/
theorem step (sound : s.Sound q owed) (m : Move) (clear : ¬ s.Misdirects m) :
    ∃ q' owed', (s.step m).Sound q' owed' := by
  cases m with
  | accept cycle flit => exact ⟨q, owed, sound.accept cycle flit⟩
  | ready => exact ⟨q, owed, sound.sameReads s.engine.quiet_ready.1⟩
  | request r => exact ⟨q, owed, sound.sameReads (s.engine.quiet_request r).1⟩
  | emit cycle ready => exact sound.emit cycle ready clear
  | reset => exact ⟨q, owed, sound.reset⟩
  | takeRequest =>
    refine ⟨q, owed, ?_⟩
    change s.takeRequest.Sound q owed
    unfold Session.takeRequest MemoryLink.takeRequest
    cases s.engine.link.requests with
    | nil => exact sound
    | cons r rest =>
      exact sound.sameReads (.of_eq rfl)
  | answerRead i a =>
    obtain ⟨owed', answered⟩ := sound.answerRead i a
    exact ⟨q, owed', answered⟩
  | answerWrite a =>
    refine ⟨q, owed, ?_⟩
    change (s.answerWrite a).Sound q owed
    have posted : s.engine.link.postWrite a =
        some { s.engine.link with writeResponses := s.engine.link.writeResponses ++ [a] } :=
      if_pos sound.attached.1
    simp only [Session.answerWrite, posted]
    exact sound.sameReads (.of_eq rfl)

theorem run (sound : s.Sound q owed) (moves : List Move)
    (clear : ∀ n m, moves[n]? = some m → ¬ (s.run (moves.take n)).Misdirects m) :
    ∃ q' owed', (s.run moves).Sound q' owed' := by
  induction moves using List.reverseRecOn with
  | nil => exact ⟨q, owed, sound⟩
  | append_singleton moves m ih =>
    have before {n : Nat} (inside : n ≤ moves.length) :
        (moves ++ [m]).take n = moves.take n := List.take_append_of_le_length inside
    obtain ⟨q', owed', kept⟩ := ih fun n m' found => by
      have inside := (List.getElem?_eq_some_iff.1 found).1
      rw [← before (Nat.le_of_lt inside)]
      exact clear n m' ((List.getElem?_append_left inside).trans found)
    have last := clear moves.length m List.getElem?_concat_length
    rw [before (Nat.le_refl _), List.take_length] at last
    rw [Session.run_append]
    exact kept.step m last

end Sound

end Session

end TlpBridge

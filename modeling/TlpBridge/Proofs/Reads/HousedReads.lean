import TlpBridge.Proofs.Reads.TakenAnswers

/-!
# Reads in their slots

Every busy slot has a read of the device in it, the one that took it last. With a tag mapper the
free slots are those without a read; without one a read is in the slot of its tag.
-/
namespace TlpBridge.Session

/-- Every busy slot belongs to a read, and the free slots are the idle ones. -/
structure Housed (s : Session) (mapped : Bool) : Prop where
  balanced : s.engine.slots.Balanced
  pool : s.engine.slots.mapped = mapped
  owned : ∀ slot, s.engine.slots.isBusy slot →
    ∃ r, s.reads[s.owner slot]? = some r ∧ r.slot = slot
  tagged : mapped = false → ∀ r ∈ s.reads, r.slot = r.header.tag.toNat

namespace Housed

variable {s s' : Session} {mapped : Bool} {q : OwnedQueue} {owed : List Nat}

theorem start (config : ValidParameters) (options : Switches) (random : DrawSource) :
    (Session.start config options random).Housed config.params.tagMapper where
  balanced := SlotPool.balanced_ofCount ..
  pool := rfl
  owned slot busy := by
    change (SlotPool.ofCount _ _).isBusy slot = true at busy
    rw [SlotPool.isBusy_ofCount] at busy
    cases busy
  tagged _ _ member := nomatch member

theorem released (housed : s.Housed mapped) (slots : List Nat)
    (pool : s'.engine.slots = s.engine.slots.releaseAll slots) (reads : s'.reads = s.reads)
    (owner : s'.owner = s.owner) : s'.Housed mapped where
  balanced := pool ▸ housed.balanced.releaseAll slots
  pool := by rw [pool, SlotPool.mapped_releaseAll, housed.pool]
  owned slot busy := by
    rw [reads, owner]
    rw [pool] at busy
    exact housed.owned slot (SlotPool.isBusy_of_releaseAll busy)
  tagged := reads ▸ housed.tagged

theorem sameSlots (housed : s.Housed mapped) {e : Engine} (slots : e.slots = s.engine.slots) :
    Session.Housed { s with engine := e } mapped :=
  housed.released [] slots rfl rfl

/-- A read of the device enters a slot. -/
theorem takesRead (housed : s.Housed mapped) (sound : s.Sound q owed) {e : Engine} {flit : Flit}
    {h : Header} {r : RequestBody} {slot : Nat} {slots : SlotPool}
    (takes : s.engine.TakesRead e flit h r slot slots) (d : DeviceRead)
    (read : d = ⟨h, Header.readRequest { h with body := .request (h.effectiveRequest r) }
      (h.effectiveRequest r) flit slot, none⟩) :
    Session.Housed { s with
      engine := e
      reads := s.reads ++ [d]
      owner := Function.update s.owner d.slot s.reads.length } mapped := by
  obtain ⟨own, -, -, -, states, -⟩ := sound.admitted_of_takesRead takes d read
  have pool : e.slots = slots.occupy slot e.cycle _ := congrArg Engine.slots takes.state
  constructor
  case balanced =>
    change e.slots.Balanced
    rw [pool]
    exact Engine.balanced_occupy housed.balanced takes.chosen ..
  case pool =>
    change e.slots.mapped = mapped
    rw [pool, SlotPool.mapped_occupy, Engine.mapped_chooseSlot takes.chosen, housed.pool]
  case owned =>
    intro k busy
    change e.slots.isBusy k = true at busy
    change ∃ r, (s.reads ++ [d])[Function.update s.owner d.slot s.reads.length k]? = some r ∧ _
    rw [pool, SlotPool.isBusy_occupy, SlotPool.isBusy_congr states] at busy
    rw [own, Function.update_apply]
    by_cases same : k = slot
    · rw [if_pos same]
      exact ⟨d, List.getElem?_concat_length, own.trans same.symm⟩
    · rw [if_neg same] at busy ⊢
      obtain ⟨x, taken, there⟩ := housed.owned k busy
      have known := (List.getElem?_eq_some_iff.1 taken).1
      exact ⟨x, (List.getElem?_append_left known).trans taken, there⟩
  case tagged =>
    intro unmapped x member
    rcases List.mem_append.1 member with old | new
    · exact housed.tagged unmapped x old
    · obtain rfl := List.mem_singleton.1 new
      rcases Engine.chooseSlot_cases takes.chosen with ⟨maps, -⟩ | ⟨-, -, tag, -⟩
      · rw [housed.pool, unmapped] at maps
        cases maps
      · rw [own, tag, read]

theorem accept (housed : s.Housed mapped) (sound : s.Sound q owed) (cycle : Nat) (flit : Flit) :
    (s.accept cycle flit).Housed mapped := by
  rcases s.accept_cases cycle flit sound.attached with
    ⟨quiet, same⟩ | ⟨h, r, slot, slots, takes, is⟩
  · rw [same]
    exact housed.sameSlots quiet.1.slots
  · rw [is _ rfl]
    exact housed.takesRead sound takes _ rfl

theorem emit (housed : s.Housed mapped) (sound : s.Sound q owed) (cycle : Nat) (ready : Bool) :
    (s.emit cycle ready).Housed mapped := by
  obtain ⟨q', owed', collected, -⟩ := sound.collect cycle
  obtain ⟨engine, reads, owner⟩ := s.emit_frame cycle ready
  obtain ⟨released, slots⟩ :=
    (s.engine.takesAnswers_emit cycle ready collected.sendable).slots
  exact housed.released released (engine ▸ slots) reads owner

theorem answerRead (housed : s.Housed mapped) (attached : s.engine.link.engineAttached) (i : Nat)
    (a : ReadResponse) : (s.answerRead i a).Housed mapped := by
  rcases s.answerRead_cases i a attached with same | ⟨r, read, -, answered⟩
  · rw [same]
    exact housed
  · rw [answered]
    refine ⟨housed.balanced, housed.pool, fun slot busy => ?_, fun unmapped x member => ?_⟩
    · obtain ⟨x, taken, there⟩ := housed.owned slot busy
      by_cases mine : i = s.owner slot
      · subst mine
        obtain rfl : r = x := Option.some.inj (read.symm.trans taken)
        exact ⟨{ r with answer := some a },
          List.getElem?_set_self (List.getElem?_eq_some_iff.1 read).1, there⟩
      · exact ⟨x, (List.getElem?_set_ne mine).trans taken, there⟩
    · rcases List.mem_or_eq_of_mem_set member with old | rfl
      · exact housed.tagged unmapped x old
      · exact housed.tagged unmapped r (List.mem_of_getElem? read)

/-- What a move preserves. -/
theorem step (housed : s.Housed mapped) (sound : s.Sound q owed) (m : Move) :
    (s.step m).Housed mapped := by
  cases m with
  | accept cycle flit => exact housed.accept sound cycle flit
  | ready => exact housed.sameSlots s.engine.quiet_ready.1.slots
  | request r => exact housed.sameSlots (s.engine.quiet_request r).1.slots
  | emit cycle ready => exact housed.emit sound cycle ready
  | reset => exact housed.released [] rfl rfl rfl
  | takeRequest =>
    change s.takeRequest.Housed mapped
    rw [takeRequest_eq]
    exact housed.sameSlots rfl
  | answerRead i a => exact housed.answerRead sound.attached.1 i a
  | answerWrite a =>
    change (s.answerWrite a).Housed mapped
    rw [answerWrite_eq sound.attached.1]
    exact housed.sameSlots rfl

end Housed

end TlpBridge.Session

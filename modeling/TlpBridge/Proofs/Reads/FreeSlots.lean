import TlpBridge.Proofs.Reads.ReadSlots

/-!
# Free slots

With a tag mapper the list of free slots has the idle slots, each once. A read takes the slot on
top of the list, and a slot that is given back comes on top of it. Only when the list is empty is
a read refused for want of a slot.
-/
namespace TlpBridge.SlotPool

/-- With a mapper the free slots are the idle ones, each once. -/
structure Balanced (s : SlotPool) : Prop where
  nodup : s.mapped → s.free.Nodup
  mem_iff : s.mapped → ∀ slot, slot ∈ s.free ↔ slot < s.states.size ∧ s.isBusy slot = false

/-- The pool once each of the slots was given back, in order. -/
def releaseAll (s : SlotPool) (slots : List Nat) : SlotPool := slots.foldl release s

theorem releaseAll_append (s : SlotPool) (slots more : List Nat) :
    s.releaseAll (slots ++ more) = (s.releaseAll slots).releaseAll more := List.foldl_append

theorem isBusy_ofCount (n : Nat) (mapped : Bool) (slot : Nat) :
    (ofCount n mapped).isBusy slot = false := by
  rw [isBusy, ofCount, Array.getElem?_replicate]
  split <;> rfl

theorem balanced_ofCount (n : Nat) (mapped : Bool) : (ofCount n mapped).Balanced where
  nodup _ := List.nodup_range
  mem_iff _ slot := by
    rw [isBusy_ofCount, ofCount]
    simp

@[simp]
theorem mapped_occupy (s : SlotPool) (slot cycle : Nat) (request : Header) :
    (s.occupy slot cycle request).mapped = s.mapped := rfl

@[simp]
theorem mapped_release (s : SlotPool) (slot : Nat) : (s.release slot).mapped = s.mapped := by
  unfold release
  split <;> rfl

theorem free_release {s : SlotPool} {slot : Nat} (mapped : s.mapped) (busy : s.isBusy slot) :
    (s.release slot).free = slot :: s.free := by
  simp only [release, if_pos busy, if_pos mapped]

theorem Balanced.release {s : SlotPool} (balanced : s.Balanced) (slot : Nat) :
    (s.release slot).Balanced := by
  by_cases busy : s.isBusy slot
  case neg => rwa [SlotPool.release, if_neg busy]
  case pos =>
    constructor
    case nodup =>
      rw [mapped_release]
      intro mapped
      rw [free_release mapped busy, List.nodup_cons]
      refine ⟨fun member => ?_, balanced.nodup mapped⟩
      simp [((balanced.mem_iff mapped slot).1 member).2] at busy
    case mem_iff =>
      rw [mapped_release]
      intro mapped other
      rw [free_release mapped busy, List.mem_cons, balanced.mem_iff mapped, size_release,
        isBusy_release]
      by_cases same : other = slot
      · subst same
        simp [lt_size_of_isBusy busy]
      · simp [same]

theorem Balanced.releaseAll {s : SlotPool} (balanced : s.Balanced) (slots : List Nat) :
    (s.releaseAll slots).Balanced := by
  induction slots generalizing s with
  | nil => exact balanced
  | cons slot slots ih => exact ih (balanced.release slot)

theorem mapped_releaseAll (s : SlotPool) (slots : List Nat) :
    (s.releaseAll slots).mapped = s.mapped := by
  induction slots generalizing s with
  | nil => rfl
  | cons slot slots ih => exact (ih (s.release slot)).trans (s.mapped_release slot)

theorem isBusy_of_releaseAll {s : SlotPool} {slots : List Nat} {slot : Nat}
    (busy : (s.releaseAll slots).isBusy slot) : s.isBusy slot := by
  induction slots generalizing s with
  | nil => exact busy
  | cons other slots ih =>
    have before := ih busy
    rw [isBusy_release, Bool.and_eq_true] at before
    exact before.2

/-- The slot on top of the free ones is idle. -/
theorem Balanced.idle_of_takeFree? {s s' : SlotPool} {slot : Nat} (balanced : s.Balanced)
    (mapped : s.mapped) (taken : s.takeFree? = some (slot, s')) : s.isBusy slot = false := by
  unfold takeFree? at taken
  split at taken
  case h_1 => cases taken
  case h_2 top rest free =>
    cases taken
    exact ((balanced.mem_iff mapped slot).1 (by rw [free]; exact List.mem_cons_self)).2

end TlpBridge.SlotPool

namespace TlpBridge.Engine

open SlotPool

variable {s s' : SlotPool} {tag slot : Nat}

/-- With a mapper the slot comes from the free ones; without one it is the tag, which is idle. -/
theorem chooseSlot_cases (chosen : chooseSlot s tag = .ok (slot, s')) :
    (s.mapped ∧ s.isBusy slot = false ∧ ∃ rest, s.free = slot :: rest ∧
      s' = { s with free := rest }) ∨
    (¬ s.mapped ∧ s.isBusy slot = false ∧ slot = tag ∧ s' = s) := by
  unfold chooseSlot at chosen
  by_cases mapped : s.mapped
  · rw [if_pos mapped, takeFree?] at chosen
    cases free : s.free with
    | nil => simp [free] at chosen
    | cons top rest =>
      have idle : isBusy { s with free := rest } top = s.isBusy top := rfl
      simp only [free, idle] at chosen
      by_cases busy : s.isBusy top
      · simp [busy] at chosen
      · simp only [busy, Bool.false_eq_true, if_false, Except.ok.injEq, Prod.mk.injEq] at chosen
        obtain ⟨rfl, rfl⟩ := chosen
        exact .inl ⟨mapped, by simpa using busy, rest, rfl, rfl⟩
  · rw [if_neg mapped] at chosen
    by_cases busy : s.isBusy tag
    · simp [busy] at chosen
    · simp only [busy, Bool.false_eq_true, if_false, Except.ok.injEq, Prod.mk.injEq] at chosen
      obtain ⟨rfl, rfl⟩ := chosen
      exact .inr ⟨mapped, by simpa using busy, rfl, rfl⟩

theorem mapped_chooseSlot (chosen : chooseSlot s tag = .ok (slot, s')) :
    s'.mapped = s.mapped := by
  rcases chooseSlot_cases chosen with ⟨-, -, rest, -, rfl⟩ | ⟨-, -, -, rfl⟩
  · rfl
  · rfl

/-- A read that enters the slot chosen for it keeps the pool balanced. -/
theorem balanced_occupy (balanced : s.Balanced) (chosen : chooseSlot s tag = .ok (slot, s'))
    (cycle : Nat) (request : Header) : (s'.occupy slot cycle request).Balanced := by
  rcases chooseSlot_cases chosen with ⟨mapped, -, rest, free, rfl⟩ | ⟨unmapped, -, rfl, rfl⟩
  · have nodup := balanced.nodup mapped
    rw [free, List.nodup_cons] at nodup
    have inside := ((balanced.mem_iff mapped slot).1 (by rw [free]; exact List.mem_cons_self)).1
    refine ⟨fun _ => nodup.2, fun _ other => ?_⟩
    have before := balanced.mem_iff mapped other
    rw [free, List.mem_cons] at before
    rw [isBusy_occupy, size_occupy]
    change other ∈ rest ↔ other < s.states.size ∧
      (if other = slot then decide (slot < s.states.size) else s.isBusy other) = false
    by_cases same : other = slot
    · subst same
      simp [nodup.1, inside]
    · rw [if_neg same, ← before, or_iff_right same]
  · exact ⟨fun mapped => absurd mapped unmapped, fun mapped => absurd mapped unmapped⟩

/-- Only a mapper without free slots is exhausted. -/
theorem free_of_exhausted (refused : chooseSlot s tag = .error .tagMapperExhausted) :
    s.mapped ∧ s.free = [] := by
  unfold chooseSlot takeFree? at refused
  by_cases mapped : s.mapped
  · refine ⟨mapped, ?_⟩
    cases free : s.free with
    | nil => rfl
    | cons top rest =>
      simp only [mapped, if_true, free] at refused
      split at refused
      · cases refused
      · cases refused
  · rw [if_neg mapped] at refused
    split at refused
    · cases refused
    · cases refused

/-- With a mapper a slot that is taken is idle. -/
theorem not_busy_of_balanced (balanced : s.Balanced) (mapped : s.mapped) :
    chooseSlot s tag ≠ .error .dmaTagBusy := by
  unfold chooseSlot
  rw [if_pos mapped]
  cases taken : s.takeFree? with
  | none => exact nofun
  | some choice =>
    obtain ⟨slot, s'⟩ := choice
    have idle := balanced.idle_of_takeFree? mapped taken
    have same : s'.isBusy slot = s.isBusy slot := by
      unfold SlotPool.takeFree? at taken
      split at taken
      · cases taken
      · cases taken
        rfl
    simp [same, idle]

end TlpBridge.Engine

namespace TlpBridge

/-- The rules that only the choice of a slot can break. -/
def Violation.ofSlots : Violation → Bool
  | .tagMapperExhausted | .dmaTagBusy => true
  | _ => false

/-- The call is refused because of the given rule. -/
def EngineStep.Blames {α : Type} (s : EngineStep α) (v : Violation) : Prop :=
  ∃ cycle h, s.answer = .error (.protocol cycle v h)

theorem EngineStep.not_blames_ok {α : Type} (e : Engine) (a : α) (effects : List Effect)
    (v : Violation) : ¬ (EngineStep.ok e a effects).Blames v := by
  rintro ⟨cycle, h, refused⟩
  cases refused

theorem Engine.eq_of_blames_haltOn {α : Type} {e : Engine} {h : Option Header} {flit : Flit}
    {v v' : Violation} (blames : (e.haltOn (α := α) h flit v).Blames v') : v = v' := by
  obtain ⟨cycle, h', refused⟩ := blames
  exact (EngineFault.protocol.inj (Except.error.inj refused)).2.1

section Rules

variable (p : Parameters) {v : Violation} {h : Header} {r : RequestBody}

theorem Parameters.not_ofSlots_writeFault? (fault : p.writeFault? h r = some v) :
    v.ofSlots = false := by
  unfold writeFault? at fault
  grind [Violation.ofSlots]

theorem Parameters.not_ofSlots_readExtentFault? {last : Bool}
    (fault : p.readExtentFault? last h r = some v) : v.ofSlots = false := by
  unfold readExtentFault? atomicFault? at fault
  grind [Violation.ofSlots]

theorem Parameters.not_ofSlots_translationFault? (fault : translationFault? h r = some v) :
    v.ofSlots = false := by
  unfold translationFault? at fault
  grind [Violation.ofSlots]

theorem Parameters.not_ofSlots_readFault? (fault : p.readFault? h r = some v) :
    v.ofSlots = false := by
  have translation {v : Violation} := not_ofSlots_translationFault? (h := h) (r := r) (v := v)
  unfold readFault? at fault
  cases found : translationFault? h r with
  | none => grind [Violation.ofSlots]
  | some v' => grind [Violation.ofSlots]

theorem OpenPacket.not_ofSlots_extend {p : OpenPacket} {flit : Flit} {start total : Nat}
    {kind : DevicePacket} (fault : p.extend flit start total kind = .error v) :
    v.ofSlots = false := by
  unfold extend at fault
  grind [Violation.ofSlots]

theorem Engine.not_ofSlots_completionFault? {e : Engine} {c : CompletionBody}
    (fault : e.completionFault? h c = some v) : v.ofSlots = false := by
  unfold completionFault? at fault
  grind [Violation.ofSlots]

end Rules

namespace Engine

variable {e : Engine} {v : Violation} {h : Header} {flit : Flit}

theorem not_ofSlots_acceptInterrupt {vector : UInt16}
    (blames : (e.acceptInterrupt h vector flit).Blames v) : v.ofSlots = false := by
  unfold acceptInterrupt at blames
  split at blames
  · cases eq_of_blames_haltOn blames
    rfl
  · split at blames
    · cases eq_of_blames_haltOn blames
      rfl
    · exact absurd blames (EngineStep.not_blames_ok _ _ _ _)

theorem not_ofSlots_acceptCompletionBeat {p : OpenPacket} {start : Nat}
    (blames : (e.acceptCompletionBeat p flit start).Blames v) : v.ofSlots = false := by
  unfold acceptCompletionBeat at blames
  split at blames
  · next refused =>
    rw [eq_of_blames_haltOn blames] at refused
    exact OpenPacket.not_ofSlots_extend refused
  · split at blames
    · exact absurd blames (EngineStep.not_blames_ok _ _ _ _)
    · exact absurd blames (EngineStep.not_blames_ok _ _ _ _)

theorem not_ofSlots_acceptCompletion {c : CompletionBody}
    (blames : (e.acceptCompletion h c flit).Blames v) : v.ofSlots = false := by
  unfold acceptCompletion at blames
  split at blames
  · cases eq_of_blames_haltOn blames
    rfl
  · split at blames
    · next refused =>
      rw [eq_of_blames_haltOn blames] at refused
      exact not_ofSlots_completionFault? refused
    · exact not_ofSlots_acceptCompletionBeat blames

theorem not_ofSlots_acceptWriteBeat {p : OpenPacket} {start : Nat}
    (blames : (e.acceptWriteBeat p flit start).Blames v) : v.ofSlots = false := by
  unfold acceptWriteBeat at blames
  split at blames
  · next refused =>
    rw [eq_of_blames_haltOn blames] at refused
    exact OpenPacket.not_ofSlots_extend refused
  · split at blames
    · obtain ⟨cycle, h, refused⟩ := blames
      simp only [submitWrite] at refused
      split at refused
      · cases refused
      · cases refused
    · exact absurd blames (EngineStep.not_blames_ok _ _ _ _)

theorem not_ofSlots_acceptWrite {r : RequestBody}
    (blames : (e.acceptWrite h r flit).Blames v) : v.ofSlots = false := by
  unfold acceptWrite at blames
  split at blames
  · next refused =>
    rw [eq_of_blames_haltOn blames] at refused
    exact e.params.not_ofSlots_writeFault? refused
  · exact not_ofSlots_acceptWriteBeat blames

/-- A read that breaks a rule of slots was refused by the choice of its slot. -/
theorem chooseSlot_of_blames_acceptRead (ofSlots : v.ofSlots = true) {r : RequestBody}
    (blames : (e.acceptRead h r flit).Blames v) : ∃ tag, chooseSlot e.slots tag = .error v := by
  unfold acceptRead at blames
  cases extent : e.params.readExtentFault? flit.last h r with
  | some v' =>
    simp only [extent] at blames
    rw [eq_of_blames_haltOn blames] at extent
    simp [e.params.not_ofSlots_readExtentFault? extent] at ofSlots
  | none =>
    cases rules : e.params.readFault? { h with body := .request (h.effectiveRequest r) }
        (h.effectiveRequest r) with
    | some v' =>
      simp only [extent, rules] at blames
      rw [eq_of_blames_haltOn blames] at rules
      simp [e.params.not_ofSlots_readFault? rules] at ofSlots
    | none =>
      cases chosen : chooseSlot e.slots h.tag.toNat with
      | error v' =>
        simp only [extent, rules, chosen] at blames
        rw [eq_of_blames_haltOn blames] at chosen
        exact ⟨_, chosen⟩
      | ok choice =>
        obtain ⟨slot, slots⟩ := choice
        simp only [extent, rules, chosen, submitRead] at blames
        obtain ⟨cycle, h', refused⟩ := blames
        split at refused
        · cases refused
        · cases refused

theorem chooseSlot_of_blames_dispatch (ofSlots : v.ofSlots = true)
    (blames : (e.dispatch h flit).Blames v) : ∃ tag, chooseSlot e.slots tag = .error v := by
  have otherwise {p : Prop} (clear : v.ofSlots = false) : p := by
    simp [clear] at ofSlots
  unfold dispatch at blames
  cases body : h.body with
  | interrupt vector =>
    simp only [body] at blames
    exact otherwise (not_ofSlots_acceptInterrupt blames)
  | completion c =>
    simp only [body] at blames
    exact otherwise (not_ofSlots_acceptCompletion blames)
  | other =>
    simp only [body] at blames
    cases eq_of_blames_haltOn blames
    exact otherwise rfl
  | request r =>
    simp only [body] at blames
    split at blames
    · exact otherwise (not_ofSlots_acceptWrite blames)
    · exact chooseSlot_of_blames_acceptRead ofSlots blames

/-- A beat that breaks a rule of slots was refused by the choice of a slot. -/
theorem chooseSlot_of_blames_accept {cycle : Nat} (ofSlots : v.ofSlots = true)
    (blames : (e.accept cycle flit).Blames v) : ∃ tag, chooseSlot e.slots tag = .error v := by
  have otherwise {p : Prop} (clear : v.ofSlots = false) : p := by
    simp [clear] at ofSlots
  unfold accept at blames
  split at blames
  · obtain ⟨c, h, refused⟩ := blames
    cases refused
  · cases fromDevice : e.fromDevice with
    | completion p =>
      simp only [fromDevice] at blames
      exact otherwise (not_ofSlots_acceptCompletionBeat blames)
    | write p =>
      simp only [fromDevice] at blames
      exact otherwise (not_ofSlots_acceptWriteBeat blames)
    | start =>
      simp only [fromDevice, acceptStart] at blames
      cases header : flit.header with
      | error cause =>
        simp only [header] at blames
        cases eq_of_blames_haltOn blames
        exact otherwise rfl
      | ok h =>
        simp only [header] at blames
        exact chooseSlot_of_blames_dispatch
          (e := { e with cycle := cycle, fromDevice := .start }) ofSlots blames

theorem free_of_exhausted_accept {cycle : Nat}
    (blames : (e.accept cycle flit).Blames .tagMapperExhausted) :
    e.slots.mapped ∧ e.slots.free = [] := by
  obtain ⟨tag, refused⟩ := chooseSlot_of_blames_accept rfl blames
  exact free_of_exhausted refused

/-- After the device was told that its next beat will be taken, there is a slot for a read. -/
theorem not_exhausted_of_ready {e : Engine} (told : e.ready.1 = true) (cycle : Nat) (flit : Flit) :
    ¬ (e.ready.2.accept cycle flit).Blames .tagMapperExhausted := by
  intro blames
  obtain ⟨mapped, none_⟩ := free_of_exhausted_accept blames
  unfold ready at told mapped none_
  split at told
  · cases told
  · next running =>
    rw [if_neg running] at mapped none_
    change e.slots.mapped at mapped
    change e.slots.free = [] at none_
    simp [draw, SlotPool.hasRoom, mapped, none_] at told

end Engine
end TlpBridge

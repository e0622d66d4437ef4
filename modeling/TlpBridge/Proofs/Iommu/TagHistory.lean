import Mathlib.Tactic
import TlpBridge.Iommu.InvalidationTags

/-!
# History of the invalidation tags

The answers of the calls tell when a tag was handed out and which completions were recorded for it
since. This history alone decides which tags are busy, which calls fail and which tag is overdue;
what was recorded before a tag was handed out again plays no part.
-/
namespace TlpBridge

open InvalidationTags

/-- What a call did, as far as its answer tells. -/
inductive TagEvent where
  | taken (tag : Fin 32)
  /-- A completion was recorded that announces `count` of them in all. -/
  | completed (tag : Fin 32) (count : Nat)
  | checked (cycle : Nat)
deriving DecidableEq

/-- The events so far, the latest first. -/
abbrev TagHistory : Type := List TagEvent

namespace TagHistory

variable (tag : Fin 32)

/-- What the completions announce that were recorded since the tag was handed out, the latest
first. -/
def counts : TagHistory → List Nat
  | [] => []
  | .taken t :: before => if t = tag then [] else counts before
  | .completed t n :: before => if t = tag then n :: counts before else counts before
  | .checked _ :: before => counts before

/-- The cycle of the latest check. -/
def checkedAt : TagHistory → Nat
  | [] => 0
  | .checked cycle :: _ => cycle
  | .taken _ :: before => checkedAt before
  | .completed _ _ :: before => checkedAt before

/-- The cycle of the latest check before the tag was handed out. -/
def takenAt : TagHistory → Nat
  | [] => 0
  | .taken t :: before => if t = tag then checkedAt before else takenAt before
  | .completed _ _ :: before => takenAt before
  | .checked _ :: before => takenAt before

/-- The number of completions that the tag needs, known from the first since it was handed out. -/
def expected? (h : TagHistory) : Option Nat := (h.counts tag).getLast?

/-- The tag was handed out, and not all of its completions were recorded since. -/
def Outstanding (h : TagHistory) : Prop :=
  .taken tag ∈ h ∧ ∀ n, h.expected? tag = some n → (h.counts tag).length < n

/-- A completion of the tag that announces `n` in all can be recorded. -/
def Admits (h : TagHistory) (n : Nat) : Prop :=
  h.Outstanding tag ∧ ∀ m, h.expected? tag = some m → m = n

/-- Why a completion of the tag that announces `n` in all cannot be recorded. -/
inductive Refuses (h : TagHistory) (tag : Fin 32) (n : Nat) : InvalidationError → Prop where
  | notBusy (free : ¬h.Outstanding tag) : Refuses h tag n (.notBusy tag)
  | countMismatch (m : Nat) (busy : h.Outstanding tag) (known : h.expected? tag = some m)
    (differs : m ≠ n) : Refuses h tag n (.countMismatch tag m n)

/-- The tag has been outstanding for too long at a cycle. -/
def Overdue (h : TagHistory) (cycle : Nat) : Prop :=
  h.Outstanding tag ∧ timeoutCycles < cycle - h.takenAt tag

/-- One completion of each of the tags that announces `n` in all. -/
def completions (done : List (Fin 32)) (n : Nat) : TagHistory :=
  (done.map fun tag => .completed tag n).reverse

end TagHistory

namespace InvalidationTags

/-- The number of completions that a completion with this count announces. -/
def announced (count : UInt8) : Nat := if count = 0 then countOfZero else count.toNat

/-- The tags of a vector for which a completion was recorded: up to the one that failed. -/
def recorded (vec : UInt32) : Except InvalidationError Unit → List (Fin 32)
  | .ok () => ofVector vec
  | .error (.notBusy tag) => (ofVector vec).filter (·.val < tag)
  | .error (.countMismatch tag _ _) => (ofVector vec).filter (·.val < tag)
  | .error (.timeout _ _) => []

end InvalidationTags

/-- The tags, and what has happened to them. -/
structure TagLog where
  tags : InvalidationTags := {}
  history : TagHistory := []

/-- A call of the tags. Where no tag is free, taking one has no effect. -/
inductive TagCall where
  | alloc
  | complete (vec : UInt32) (count : UInt8)
  | advance (cycle : Nat)
deriving DecidableEq

namespace TagLog

def step (l : TagLog) : TagCall → TagLog
  | .alloc =>
    match l.tags.alloc? with
    | none => l
    | some (tag, tags) => ⟨tags, .taken tag :: l.history⟩
  | .complete vec count =>
    let step := l.tags.complete vec count
    ⟨step.state, .completions (recorded vec step.answer) (announced count) ++ l.history⟩
  | .advance cycle => ⟨(l.tags.advance cycle).state, .checked cycle :: l.history⟩

def run (l : TagLog) (calls : List TagCall) : TagLog := calls.foldl step l

end TagLog

/-- A tag once a completion was recorded that announces `n` in all: free again with the last. -/
def TagState.completed (n : Nat) (s : TagState) : Option TagState :=
  if s.received + 1 = n then none
  else some { s with expected := some n, received := s.received + 1 }

/-- Why no completion of a tag can be recorded that announces `n` in all. -/
def TagState.completionFault? (tag : Fin 32) (n : Nat) : Option TagState → Option InvalidationError
  | none => some (.notBusy tag)
  | some s => s.expected.bind fun m => if m = n then none else some (.countMismatch tag m n)

namespace InvalidationTags

open TagState

/-- The state of a tag, if it is busy. -/
def state? (t : InvalidationTags) (tag : Fin 32) : Option TagState := t.tags.get tag

theorem isBusy_iff (t : InvalidationTags) (tag : Fin 32) :
    t.isBusy tag ↔ ∃ s, t.state? tag = some s := Option.isSome_iff_exists

theorem state?_set (t : InvalidationTags) (tag : Fin 32) (s? : Option TagState) (u : Fin 32) :
    state? { t with tags := t.tags.set tag s? tag.isLt } u =
      if u = tag then s? else t.state? u := by
  change (t.tags.set tag s? tag.isLt)[u.val] = _
  rw [Vector.getElem_set]
  simp only [Fin.val_inj, eq_comm (a := tag)]
  rfl

/-- The tags once a completion of each of the listed ones was recorded. -/
structure Completes (t : InvalidationTags) (done : List (Fin 32)) (n : Nat)
    (t' : InvalidationTags) : Prop where
  cycle : t'.cycle = t.cycle
  states : ∀ tag, t'.state? tag =
    if tag ∈ done then (t.state? tag).bind (completed n) else t.state? tag

/-- A completion is refused, or it changes its own tag only. -/
theorem completeOne_cases (t : InvalidationTags) (tag : Fin 32) (n : Nat) :
    (∃ e, completionFault? tag n (t.state? tag) = some e ∧ t.completeOne tag n = .error e) ∨
      (completionFault? tag n (t.state? tag) = none ∧
        ∃ t', t.completeOne tag n = .ok t' ∧ t.Completes [tag] n t') := by
  have called : t.completeOne tag n = match t.state? tag with
      | none => .error (.notBusy tag)
      | some s =>
        if s.expected.getD n ≠ n then .error (.countMismatch tag (s.expected.getD n) n)
        else .ok { t with tags := t.tags.set tag (s.completed n) tag.isLt } := rfl
  have set (s : TagState) (held : t.state? tag = some s) : t.Completes [tag] n
      { t with tags := t.tags.set tag (s.completed n) tag.isLt } := by
    refine ⟨rfl, fun u => ?_⟩
    rw [state?_set]
    by_cases same : u = tag
    · simp [same, held]
    · simp [same]
  rw [called]
  cases held : t.state? tag with
  | none => exact .inl ⟨_, rfl, rfl⟩
  | some s =>
    cases known : s.expected with
    | none => simpa [completionFault?, known] using set s held
    | some m =>
      by_cases same : m = n
      · simpa [completionFault?, known, same] using set s held
      · simp [completionFault?, known, same]

theorem Completes.cons {t t' t'' : InvalidationTags} {tag : Fin 32} {done : List (Fin 32)} {n : Nat}
    (first : t.Completes [tag] n t') (rest : t'.Completes done n t'') (fresh : tag ∉ done) :
    t.Completes (tag :: done) n t'' where
  cycle := rest.cycle.trans first.cycle
  states u := by
    rw [rest.states, first.states]
    by_cases mine : u = tag
    · subst mine
      simp [fresh]
    · simp [mine]

/-- Recording goes up to the first tag whose completion cannot be recorded. -/
theorem completeAll_spec (n : Nat) (tags : List (Fin 32)) (once : tags.Nodup)
    (t : InvalidationTags) : ∃ done rest, tags = done ++ rest ∧
      (∀ tag ∈ done, completionFault? tag n (t.state? tag) = none) ∧
      t.Completes done n (completeAll n tags t).state ∧
      ((rest = [] ∧ (completeAll n tags t).answer = .ok ()) ∨
        ∃ tag others e, rest = tag :: others ∧ completionFault? tag n (t.state? tag) = some e ∧
          (completeAll n tags t).answer = .error e) := by
  induction tags generalizing t with
  | nil => exact ⟨[], [], rfl, by simp, ⟨rfl, by simp [completeAll]⟩, .inl ⟨rfl, rfl⟩⟩
  | cons tag tags ih =>
    obtain ⟨fresh, once⟩ := List.nodup_cons.1 once
    rcases t.completeOne_cases tag n with ⟨e, fault, first⟩ | ⟨accepted, t', first, set⟩
    · simp only [completeAll, first]
      exact ⟨[], tag :: tags, rfl, by simp, ⟨rfl, by simp⟩, .inr ⟨tag, tags, e, rfl, fault, rfl⟩⟩
    · simp only [completeAll, first]
      have other {u : Fin 32} (member : u ∈ tags) : t'.state? u = t.state? u := by
        rw [set.states, if_neg]
        intro same
        exact fresh (List.mem_singleton.1 same ▸ member)
      obtain ⟨done, rest, rfl, all, completes, ends⟩ := ih once t'
      refine ⟨tag :: done, rest, rfl, ?_, set.cons completes fun member =>
        fresh (List.mem_append_left _ member), ?_⟩
      · refine List.forall_mem_cons.2 ⟨accepted, fun u member => ?_⟩
        rw [← other (List.mem_append_left _ member)]
        exact all u member
      · refine ends.imp_right ?_
        rintro ⟨u, others, e, rfl, refused, answer⟩
        rw [other (List.mem_append_right _ List.mem_cons_self)] at refused
        exact ⟨u, others, e, rfl, refused, answer⟩

theorem pairwise_ofVector (vec : UInt32) : (ofVector vec).Pairwise (· < ·) :=
  (List.pairwise_lt_finRange 32).filter _

theorem nodup_recorded (vec : UInt32) (answer : Except InvalidationError Unit) :
    (recorded vec answer).Nodup := by
  have once : (ofVector vec).Nodup := (pairwise_ofVector vec).imp ne_of_lt
  match answer with
  | .ok () => exact once
  | .error (.notBusy _) => exact once.filter _
  | .error (.countMismatch _ _ _) => exact once.filter _
  | .error (.timeout _ _) => exact List.nodup_nil

theorem recorded_of_fault {tag : Fin 32} {n : Nat} {s : Option TagState} {e : InvalidationError}
    (fault : completionFault? tag n s = some e) (vec : UInt32) :
    recorded vec (.error e) = (ofVector vec).filter (· < tag) := by
  cases s with
  | none =>
    cases fault
    rfl
  | some s =>
    obtain ⟨m, -, fault⟩ := Option.bind_eq_some_iff.1 fault
    by_cases same : m = n
    · rw [if_pos same] at fault
      cases fault
    · rw [if_neg same] at fault
      cases fault
      rfl

theorem filter_lt_of_ascending {done rest : List (Fin 32)} {tag : Fin 32}
    (ascending : (done ++ tag :: rest).Pairwise (· < ·)) :
    (done ++ tag :: rest).filter (· < tag) = done := by
  obtain ⟨-, later, before⟩ := List.pairwise_append.1 ascending
  rw [List.filter_append, List.filter_eq_self.2, List.filter_eq_nil_iff.2, List.append_nil]
  · intro u member
    have le : tag ≤ u := by
      rcases List.mem_cons.1 member with rfl | after
      · exact le_refl _
      · exact le_of_lt ((List.pairwise_cons.1 later).1 u after)
    simpa using le
  · intro u member
    simpa using before u member tag List.mem_cons_self

/-- A vector of completions is recorded for the tags before the first that fails, and for all if
none does. -/
theorem complete_spec (t : InvalidationTags) (vec : UInt32) (count : UInt8) :
    t.Completes (recorded vec (t.complete vec count).answer) (announced count)
        (t.complete vec count).state ∧
      (∀ tag ∈ recorded vec (t.complete vec count).answer,
        completionFault? tag (announced count) (t.state? tag) = none) ∧
      (((t.complete vec count).answer = .ok () ∧
          recorded vec (t.complete vec count).answer = ofVector vec) ∨
        ∃ tag ∈ ofVector vec, ∃ e, completionFault? tag (announced count) (t.state? tag) = some e ∧
          (t.complete vec count).answer = .error e ∧
          recorded vec (t.complete vec count).answer = (ofVector vec).filter (· < tag)) := by
  have ascending := pairwise_ofVector vec
  obtain ⟨done, rest, split, accepted, completes, ends⟩ :=
    completeAll_spec (announced count) (ofVector vec) (ascending.imp ne_of_lt) t
  change t.Completes done (announced count) (t.complete vec count).state at completes
  rcases ends with ⟨rfl, ok⟩ | ⟨tag, others, e, rfl, fault, error⟩
  · change (t.complete vec count).answer = .ok () at ok
    rw [List.append_nil] at split
    rw [ok]
    refine ⟨?_, ?_, .inl ⟨rfl, rfl⟩⟩
    · rw [recorded, split]
      exact completes
    · rw [recorded, split]
      exact accepted
  · change (t.complete vec count).answer = .error e at error
    have before := recorded_of_fault fault vec
    rw [split] at ascending
    rw [error, before]
    refine ⟨?_, ?_, .inr ⟨tag, ?_, e, fault, rfl, rfl⟩⟩
    · rw [split, filter_lt_of_ascending ascending]
      exact completes
    · rw [split, filter_lt_of_ascending ascending]
      exact accepted
    · rw [split]
      exact List.mem_append_right _ List.mem_cons_self

theorem mem_before_of_lt {before after : List (Fin 32)} {tag lower : Fin 32}
    (split : List.finRange 32 = before ++ tag :: after) (less : lower < tag) : lower ∈ before := by
  have ascending := List.pairwise_lt_finRange 32
  rw [split] at ascending
  rw [← filter_lt_of_ascending ascending, ← split]
  simpa using less

theorem alloc?_spec (t : InvalidationTags) :
    (t.alloc? = none ∧ ∀ tag, t.isBusy tag) ∨ ∃ tag t', t.alloc? = some (tag, t') ∧
      ¬t.isBusy tag ∧ (∀ lower < tag, t.isBusy lower) ∧ t'.cycle = t.cycle ∧
      ∀ u, t'.state? u = if u = tag then some { setCycle := t.cycle } else t.state? u := by
  unfold alloc?
  cases first : t.firstFree? with
  | none =>
    refine .inl ⟨rfl, fun tag => ?_⟩
    simpa using List.find?_eq_none.1 first tag (List.mem_finRange tag)
  | some tag =>
    obtain ⟨free, before, after, split, busy⟩ := List.find?_eq_some_iff_append.1 first
    refine .inr ⟨tag, _, rfl, by simpa using free, fun lower less => ?_, rfl, fun u => ?_⟩
    · simpa using busy lower (mem_before_of_lt split less)
    · exact t.state?_set tag _ u

theorem overdue?_eq (t : InvalidationTags) (cycle : Nat) : t.overdue? cycle =
    (List.finRange 32).findSome? fun tag => (t.state? tag).bind fun s =>
      if timeoutCycles < cycle - s.setCycle then some (.timeout tag (cycle - s.setCycle))
      else none := rfl

theorem overdue?_eq_some {t : InvalidationTags} {cycle : Nat} {e : InvalidationError}
    (overdue : t.overdue? cycle = some e) : ∃ tag s, t.state? tag = some s ∧
      timeoutCycles < cycle - s.setCycle ∧ e = .timeout tag (cycle - s.setCycle) ∧
      ∀ lower < tag, ∀ s', t.state? lower = some s' → cycle - s'.setCycle ≤ timeoutCycles := by
  rw [overdue?_eq] at overdue
  obtain ⟨before, tag, after, split, found, quiet⟩ := List.findSome?_eq_some_iff.1 overdue
  obtain ⟨s, held, reported⟩ := Option.bind_eq_some_iff.1 found
  obtain ⟨late, named⟩ := Option.ite_none_right_eq_some.1 reported
  cases named
  refine ⟨tag, s, held, late, rfl, fun lower less s' held' => ?_⟩
  simpa [held'] using quiet lower (mem_before_of_lt split less)

theorem state_advance (t : InvalidationTags) (cycle : Nat) :
    (t.advance cycle).state = { t with cycle := cycle } := by
  unfold advance
  dsimp only
  split <;> rfl

theorem answer_advance (t : InvalidationTags) (cycle : Nat) :
    (t.advance cycle).answer = match t.overdue? cycle with
      | some e => .error e
      | none => .ok () := by
  have same : InvalidationTags.overdue? { t with cycle := cycle } cycle = t.overdue? cycle := rfl
  unfold advance
  dsimp only
  rw [same]
  cases t.overdue? cycle <;> rfl

theorem overdue?_eq_none_iff (t : InvalidationTags) (cycle : Nat) : t.overdue? cycle = none ↔
    ∀ tag s, t.state? tag = some s → cycle - s.setCycle ≤ timeoutCycles := by
  rw [overdue?_eq, List.findSome?_eq_none_iff]
  constructor
  · intro quiet tag s held
    simpa [held] using quiet tag (List.mem_finRange tag)
  · intro quiet tag _
    cases held : t.state? tag with
    | none => rfl
    | some s => simpa using quiet tag s held

end InvalidationTags

end TlpBridge

import TlpBridge.Proofs.Iommu.TagHistory

/-!
# Runs of the invalidation tags

After any run of calls the state of every tag is the one that the history tells. Hence the history
alone says what each further call answers and which tags it frees.
-/
namespace TlpBridge

open InvalidationTags TagState

namespace TagEvent

/-- The tag that an event is about. -/
def tag? : TagEvent → Option (Fin 32)
  | .taken tag => some tag
  | .completed tag _ => some tag
  | .checked _ => none

end TagEvent

namespace TagHistory

variable {tag : Fin 32} {h : TagHistory}

theorem counts_cons_of_ne {e : TagEvent} (other : e.tag? ≠ some tag) :
    counts tag (e :: h) = h.counts tag := by
  cases e with
  | taken t => exact if_neg fun same => other (congrArg some same)
  | completed t n => exact if_neg fun same => other (congrArg some same)
  | checked cycle => rfl

theorem takenAt_cons_of_ne {e : TagEvent} (other : e.tag? ≠ some tag) :
    takenAt tag (e :: h) = h.takenAt tag := by
  cases e with
  | taken t => exact if_neg fun same => other (congrArg some same)
  | completed t n => rfl
  | checked cycle => rfl

theorem taken_mem_cons_of_ne {e : TagEvent} (other : e.tag? ≠ some tag) :
    .taken tag ∈ e :: h ↔ .taken tag ∈ h := by
  rw [List.mem_cons]
  refine or_iff_right ?_
  rintro rfl
  exact other rfl

theorem completions_cons (t : Fin 32) (done : List (Fin 32)) (n : Nat) :
    completions (t :: done) n ++ h = completions done n ++ .completed t n :: h := by
  simp [completions]

theorem checkedAt_completions (done : List (Fin 32)) (n : Nat) :
    checkedAt (completions done n ++ h) = h.checkedAt := by
  induction done generalizing h with
  | nil => rfl
  | cons t done ih =>
    rw [completions_cons, ih]
    rfl

theorem takenAt_completions (done : List (Fin 32)) (n : Nat) :
    takenAt tag (completions done n ++ h) = h.takenAt tag := by
  induction done generalizing h with
  | nil => rfl
  | cons t done ih =>
    rw [completions_cons, ih]
    rfl

theorem taken_mem_completions (done : List (Fin 32)) (n : Nat) :
    .taken tag ∈ completions done n ++ h ↔ .taken tag ∈ h := by
  simp [completions]

theorem counts_completions (h : TagHistory) (tag : Fin 32) {done : List (Fin 32)}
    (once : done.Nodup) (n : Nat) : counts tag (completions done n ++ h) =
      if tag ∈ done then n :: h.counts tag else h.counts tag := by
  induction done generalizing h with
  | nil => rfl
  | cons t done ih =>
    obtain ⟨fresh, once⟩ := List.nodup_cons.1 once
    rw [completions_cons, ih _ once]
    by_cases same : t = tag
    · subst same
      simp [fresh, counts]
    · simp [counts, same, Ne.symm same]

/-- A busy tag, as the history tells. -/
structure Holds (h : TagHistory) (tag : Fin 32) (s : TagState) : Prop where
  taken : .taken tag ∈ h
  setCycle : s.setCycle = h.takenAt tag
  received : s.received = (h.counts tag).length
  expected : s.expected = h.expected? tag
  agreed : ∀ n ∈ h.counts tag, s.expected = some n
  bounded : ∀ n, s.expected = some n → n ≤ 255 ∧ s.received < n

namespace Holds

variable {s : TagState}

theorem outstanding (held : h.Holds tag s) : h.Outstanding tag :=
  ⟨held.taken, fun n known => held.received ▸ (held.bounded n (held.expected.trans known)).2⟩

theorem received_of_expected_none (held : h.Holds tag s) (unknown : s.expected = none) :
    s.received = 0 := by
  have none_left := held.expected.symm.trans unknown
  rw [expected?, List.getLast?_eq_none_iff] at none_left
  rw [held.received, none_left, List.length_nil]

/-- The counter of a busy tag has room for one more. -/
theorem received_lt (held : h.Holds tag s) : s.received < 255 := by
  cases known : s.expected with
  | none =>
    rw [held.received_of_expected_none known]
    decide
  | some n =>
    obtain ⟨small, less⟩ := held.bounded n known
    omega

theorem of_taken (h : TagHistory) (tag : Fin 32) :
    Holds (.taken tag :: h) tag { setCycle := h.checkedAt } where
  taken := List.mem_cons_self
  setCycle := (if_pos rfl).symm
  received := by simp [counts]
  expected := by simp [expected?, counts]
  agreed := by simp [counts]
  bounded := by simp

end Holds

end TagHistory

/-- The state of a tag is the one that the history tells. -/
def TagHistory.Tells (h : TagHistory) (tag : Fin 32) : Option TagState → Prop
  | none => ¬h.Outstanding tag
  | some s => h.Holds tag s

/-- The tags are as the history tells. -/
structure TagLog.Recounts (l : TagLog) : Prop where
  cycle : l.tags.cycle = l.history.checkedAt
  tells : ∀ tag, l.history.Tells tag (l.tags.state? tag)

namespace TagHistory

variable {tag : Fin 32} {h : TagHistory}

/-- A history tells the same of a tag that it says the same of. -/
theorem Tells.congr {s : Option TagState} (told : h.Tells tag s) {h' : TagHistory}
    (taken : .taken tag ∈ h' ↔ .taken tag ∈ h) (takenAt : h'.takenAt tag = h.takenAt tag)
    (counts : h'.counts tag = h.counts tag) : h'.Tells tag s := by
  have expected : h'.expected? tag = h.expected? tag := by rw [expected?, counts, expected?]
  cases s with
  | none =>
    change ¬h'.Outstanding tag
    rw [Outstanding, taken, expected, counts]
    exact told
  | some s =>
    have held : h.Holds tag s := told
    exact {
      taken := taken.2 held.taken
      setCycle := held.setCycle.trans takenAt.symm
      received := held.received.trans (congrArg List.length counts).symm
      expected := held.expected.trans expected.symm
      agreed := counts ▸ held.agreed
      bounded := held.bounded }

theorem Tells.cons_of_ne {s : Option TagState} (told : h.Tells tag s) {e : TagEvent}
    (other : e.tag? ≠ some tag) : Tells (e :: h) tag s :=
  told.congr (taken_mem_cons_of_ne other) (takenAt_cons_of_ne other) (counts_cons_of_ne other)

/-- After one more completion a tag is still busy or has them all. -/
theorem Holds.completed {s : TagState} (held : h.Holds tag s) {n : Nat} (positive : 1 ≤ n)
    (small : n ≤ 255) (accepted : completionFault? tag n (some s) = none) {h' : TagHistory}
    (taken : .taken tag ∈ h') (setCycle : h'.takenAt tag = h.takenAt tag)
    (counts : h'.counts tag = n :: h.counts tag) :
    h'.Tells tag (s.completed n) := by
  have known (m : Nat) (known : s.expected = some m) : m = n := by
    by_contra differs
    simp [completionFault?, known, differs] at accepted
  have expected : h'.expected? tag = some n := by
    rw [expected?, counts, List.getLast?_cons, ← expected?, ← held.expected]
    cases same : s.expected with
    | none => rfl
    | some m => rw [Option.getD_some, known m same]
  have received : (h'.counts tag).length = s.received + 1 := by
    rw [counts, List.length_cons, held.received]
  have room : s.received < n := by
    cases unknown : s.expected with
    | none =>
      rw [held.received_of_expected_none unknown]
      exact positive
    | some m => exact known m unknown ▸ (held.bounded m unknown).2
  unfold TagState.completed
  by_cases last : s.received + 1 = n
  · rw [if_pos last]
    intro outstanding
    have less := outstanding.2 n expected
    omega
  · rw [if_neg last]
    exact {
      taken := taken
      setCycle := held.setCycle.trans setCycle.symm
      received := received.symm
      expected := expected.symm
      agreed := by
        rw [counts]
        intro m member
        rcases List.mem_cons.1 member with rfl | member
        · rfl
        · rw [known m (held.agreed m member)]
      bounded := by
        rintro m ⟨⟩
        exact ⟨small, lt_of_le_of_ne room last⟩ }

end TagHistory

theorem InvalidationTags.announced_bounds (count : UInt8) :
    1 ≤ announced count ∧ announced count ≤ 255 := by
  unfold announced countOfZero
  split
  · decide
  · next nonzero =>
    have positive : count.toNat ≠ 0 := fun zero => nonzero (UInt8.toNat_inj.1 zero)
    have small := count.toNat_lt
    omega

namespace TagLog.Recounts

variable {l : TagLog}

open TagHistory

theorem start : Recounts {} where
  cycle := rfl
  tells tag := by
    have free : state? {} tag = none := Vector.getElem_replicate tag.isLt
    rw [free]
    exact fun outstanding => List.not_mem_nil outstanding.1

theorem holds (r : l.Recounts) {tag : Fin 32} {s : TagState} (held : l.tags.state? tag = some s) :
    l.history.Holds tag s := by
  have told := r.tells tag
  rw [held] at told
  exact told

theorem not_outstanding (r : l.Recounts) {tag : Fin 32} (free : l.tags.state? tag = none) :
    ¬l.history.Outstanding tag := by
  have told := r.tells tag
  rw [free] at told
  exact told

theorem isBusy_iff (r : l.Recounts) (tag : Fin 32) :
    l.tags.isBusy tag ↔ l.history.Outstanding tag := by
  rw [InvalidationTags.isBusy_iff]
  cases held : l.tags.state? tag with
  | none => simp [r.not_outstanding held]
  | some s => simp [(r.holds held).outstanding]

theorem exists_holds (r : l.Recounts) {tag : Fin 32} (outstanding : l.history.Outstanding tag) :
    ∃ s, l.tags.state? tag = some s ∧ l.history.Holds tag s := by
  obtain ⟨s, held⟩ := (l.tags.isBusy_iff tag).1 ((r.isBusy_iff tag).2 outstanding)
  exact ⟨s, held, r.holds held⟩

theorem admits_iff (r : l.Recounts) (tag : Fin 32) (n : Nat) :
    l.history.Admits tag n ↔ completionFault? tag n (l.tags.state? tag) = none := by
  cases held : l.tags.state? tag with
  | none => simp [Admits, r.not_outstanding held, completionFault?]
  | some s =>
    have holds := r.holds held
    rw [Admits, ← holds.expected, and_iff_right holds.outstanding]
    cases known : s.expected with
    | none => simp [completionFault?, known]
    | some m => simp [completionFault?, known]

theorem refuses (r : l.Recounts) {tag : Fin 32} {n : Nat} {e : InvalidationError}
    (fault : completionFault? tag n (l.tags.state? tag) = some e) : l.history.Refuses tag n e := by
  cases held : l.tags.state? tag with
  | none =>
    rw [held] at fault
    cases fault
    exact .notBusy (r.not_outstanding held)
  | some s =>
    rw [held] at fault
    have holds := r.holds held
    obtain ⟨m, known, differs⟩ := Option.bind_eq_some_iff.1 fault
    by_cases same : m = n
    · rw [if_pos same] at differs
      cases differs
    · rw [if_neg same] at differs
      cases differs
      exact .countMismatch m holds.outstanding (holds.expected.symm.trans known) same

theorem alloc (r : l.Recounts) : (l.step .alloc).Recounts := by
  unfold step
  rcases l.tags.alloc?_spec with ⟨none_free, -⟩ | ⟨tag, tags, handed, -, -, cycle, set⟩
  · rw [none_free]
    exact r
  · rw [handed]
    refine ⟨cycle.trans r.cycle, fun u => ?_⟩
    rw [set]
    by_cases same : u = tag
    · subst same
      rw [if_pos rfl, r.cycle]
      exact Holds.of_taken _ _
    · rw [if_neg same]
      exact (r.tells u).cons_of_ne fun about => same (Option.some.inj about).symm

theorem advance (r : l.Recounts) (cycle : Nat) : (l.step (.advance cycle)).Recounts := by
  rw [step, state_advance]
  exact ⟨rfl, fun u => (r.tells u).cons_of_ne nofun⟩

/-- What a completion records makes the history tell the states after it. -/
theorem complete (r : l.Recounts) (vec : UInt32) (count : UInt8) :
    (l.step (.complete vec count)).Recounts := by
  obtain ⟨completes, accepted, -⟩ := l.tags.complete_spec vec count
  have once := nodup_recorded vec (l.tags.complete vec count).answer
  obtain ⟨positive, small⟩ := announced_bounds count
  rw [step]
  generalize recorded vec (l.tags.complete vec count).answer = done at completes accepted once
  refine ⟨completes.cycle.trans (r.cycle.trans (checkedAt_completions done _).symm), fun u => ?_⟩
  have counts := counts_completions l.history u once (announced count)
  rw [completes.states]
  by_cases member : u ∈ done
  · rw [if_pos member] at counts ⊢
    have fault := accepted u member
    cases held : l.tags.state? u with
    | none =>
      rw [held] at fault
      cases fault
    | some s =>
      have holds := r.holds held
      exact holds.completed positive small (held ▸ fault)
        ((taken_mem_completions done _).2 holds.taken) (takenAt_completions done _) counts
  · rw [if_neg member] at counts ⊢
    exact (r.tells u).congr (taken_mem_completions done _) (takenAt_completions done _) counts

theorem step (r : l.Recounts) (call : TagCall) : (l.step call).Recounts := by
  cases call with
  | alloc => exact r.alloc
  | complete vec count => exact r.complete vec count
  | advance cycle => exact r.advance cycle

theorem run (r : l.Recounts) (calls : List TagCall) : (l.run calls).Recounts := by
  induction calls generalizing l with
  | nil => exact r
  | cons call calls ih => exact ih (r.step call)

end TagLog.Recounts

/-- The history of a log says what the next call answers and which tags it frees. -/
structure TagLog.Governed (l : TagLog) : Prop where
  busy_iff : ∀ tag, l.tags.isBusy tag ↔ l.history.Outstanding tag
  /-- The completions of a busy tag all announce the same number, of which they fall short. -/
  counted : ∀ tag s, l.tags.state? tag = some s →
    s.received = (l.history.counts tag).length ∧ s.received < 255 ∧
      s.expected = l.history.expected? tag ∧
      (∀ n ∈ l.history.counts tag, l.history.expected? tag = some n) ∧
      ∀ n, l.history.expected? tag = some n → 1 ≤ n ∧ n ≤ 255 ∧ s.received < n
  handed_out : ∀ tag tags, l.tags.alloc? = some (tag, tags) →
    ¬l.tags.isBusy tag ∧ ∀ lower < tag, l.tags.isBusy lower
  none_free_iff : l.tags.alloc? = none ↔ ∀ tag, l.tags.isBusy tag
  completed_iff : ∀ vec count, (l.tags.complete vec count).answer = .ok () ↔
    ∀ tag ∈ ofVector vec, l.history.Admits tag (announced count)
  /-- A vector fails for its lowest tag that refuses the completion, and is recorded below it. -/
  refused : ∀ vec count e, (l.tags.complete vec count).answer = .error e →
    ∃ tag ∈ ofVector vec, l.history.Refuses tag (announced count) e ∧
      (∀ lower ∈ ofVector vec, lower < tag → l.history.Admits lower (announced count)) ∧
      recorded vec (.error e) = (ofVector vec).filter (· < tag)
  completes : ∀ vec count, l.tags.Completes (recorded vec (l.tags.complete vec count).answer)
    (announced count) (l.tags.complete vec count).state
  /-- A tag is freed by its last completion and in no other way. -/
  freed_iff : ∀ call tag, l.tags.isBusy tag → (¬(l.step call).tags.isBusy tag ↔
    ∃ vec count, call = .complete vec count ∧
      tag ∈ recorded vec (l.tags.complete vec count).answer ∧
      l.history.Admits tag (announced count) ∧
      (l.history.counts tag).length + 1 = announced count)
  checked : ∀ cycle tag, (l.tags.advance cycle).state.isBusy tag ↔ l.tags.isBusy tag
  in_time_iff : ∀ cycle, (l.tags.advance cycle).answer = .ok () ↔
    ∀ tag, ¬l.history.Overdue tag cycle
  overdue_iff : ∀ cycle e, (l.tags.advance cycle).answer = .error e ↔
    ∃ tag : Fin 32, l.history.Overdue tag cycle ∧
      e = .timeout tag (cycle - l.history.takenAt tag) ∧
      ∀ lower < tag, ¬l.history.Overdue lower cycle

namespace TagLog.Recounts

variable {l : TagLog}

open TagHistory

theorem counted (r : l.Recounts) {tag : Fin 32} {s : TagState} (held : l.tags.state? tag = some s) :
    s.received = (l.history.counts tag).length ∧ s.received < 255 ∧
      s.expected = l.history.expected? tag ∧
      (∀ n ∈ l.history.counts tag, l.history.expected? tag = some n) ∧
      ∀ n, l.history.expected? tag = some n → 1 ≤ n ∧ n ≤ 255 ∧ s.received < n := by
  have holds := r.holds held
  have same := holds.expected
  refine ⟨holds.received, holds.received_lt, same, fun n member => ?_, fun n known => ?_⟩
  · exact same.symm.trans (holds.agreed n member)
  · obtain ⟨small, less⟩ := holds.bounded n (same.trans known)
    exact ⟨Nat.one_le_of_lt less, small, less⟩

theorem completed_iff (r : l.Recounts) (vec : UInt32) (count : UInt8) :
    (l.tags.complete vec count).answer = .ok () ↔
      ∀ tag ∈ ofVector vec, l.history.Admits tag (announced count) := by
  obtain ⟨-, accepted, ⟨ok, all⟩ | ⟨tag, member, e, fault, error, -⟩⟩ :=
    l.tags.complete_spec vec count
  · refine iff_of_true ok fun tag member => ?_
    exact (r.admits_iff tag _).2 (accepted tag (all ▸ member))
  · refine iff_of_false (by simp [error]) fun admits => ?_
    rw [(r.admits_iff tag _).1 (admits tag member)] at fault
    cases fault

theorem refused (r : l.Recounts) {vec : UInt32} {count : UInt8} {e : InvalidationError}
    (error : (l.tags.complete vec count).answer = .error e) :
    ∃ tag ∈ ofVector vec, l.history.Refuses tag (announced count) e ∧
      (∀ lower ∈ ofVector vec, lower < tag → l.history.Admits lower (announced count)) ∧
      recorded vec (.error e) = (ofVector vec).filter (· < tag) := by
  obtain ⟨-, accepted, ⟨ok, -⟩ | ⟨tag, member, e', fault, error', recorded⟩⟩ :=
    l.tags.complete_spec vec count
  · rw [ok] at error
    cases error
  · rw [error] at error' recorded accepted
    cases error'
    refine ⟨tag, member, r.refuses fault, fun lower member less => ?_, recorded⟩
    refine (r.admits_iff lower _).2 (accepted lower ?_)
    rw [recorded]
    simpa using ⟨member, less⟩

theorem complete_frees_iff (r : l.Recounts) {tag : Fin 32} (busy : l.tags.isBusy tag)
    (vec : UInt32) (count : UInt8) : ¬(l.tags.complete vec count).state.isBusy tag ↔
      tag ∈ recorded vec (l.tags.complete vec count).answer ∧
        l.history.Admits tag (announced count) ∧
        (l.history.counts tag).length + 1 = announced count := by
  obtain ⟨s, held⟩ := (l.tags.isBusy_iff tag).1 busy
  obtain ⟨completes, accepted, -⟩ := l.tags.complete_spec vec count
  rw [InvalidationTags.isBusy_iff, completes.states, r.admits_iff, ← (r.holds held).received, held]
  by_cases member : tag ∈ recorded vec (l.tags.complete vec count).answer
  · have fault := accepted tag member
    rw [held] at fault
    rw [if_pos member, Option.bind_some, TagState.completed]
    by_cases last : s.received + 1 = announced count <;> simp [last, member, fault]
  · simp [member]

/-- Only its last completion frees a tag. -/
theorem freed_iff (r : l.Recounts) (call : TagCall) {tag : Fin 32} (busy : l.tags.isBusy tag) :
    ¬(l.step call).tags.isBusy tag ↔ ∃ vec count, call = .complete vec count ∧
      tag ∈ recorded vec (l.tags.complete vec count).answer ∧
      l.history.Admits tag (announced count) ∧
      (l.history.counts tag).length + 1 = announced count := by
  cases call with
  | alloc =>
    refine iff_of_false (not_not.2 ?_) (by simp)
    rw [TagLog.step]
    rcases l.tags.alloc?_spec with ⟨none_free, -⟩ | ⟨u, tags, handed, free, -, -, set⟩
    · rw [none_free]
      exact busy
    · rw [handed]
      have other : tag ≠ u := fun same => free (same ▸ busy)
      rw [InvalidationTags.isBusy_iff, set, if_neg other]
      exact (l.tags.isBusy_iff tag).1 busy
  | advance cycle =>
    refine iff_of_false (not_not.2 ?_) (by simp)
    rw [TagLog.step, state_advance]
    exact busy
  | complete vec count =>
    refine (r.complete_frees_iff busy vec count).trans ⟨fun last => ⟨vec, count, rfl, last⟩, ?_⟩
    rintro ⟨_, _, ⟨⟩, last⟩
    exact last

theorem overdue_iff (r : l.Recounts) (tag : Fin 32) (cycle : Nat) :
    l.history.Overdue tag cycle ↔
      ∃ s, l.tags.state? tag = some s ∧ timeoutCycles < cycle - s.setCycle := by
  constructor
  · rintro ⟨outstanding, late⟩
    obtain ⟨s, held, holds⟩ := r.exists_holds outstanding
    exact ⟨s, held, holds.setCycle ▸ late⟩
  · rintro ⟨s, held, late⟩
    exact ⟨(r.holds held).outstanding, (r.holds held).setCycle ▸ late⟩

theorem in_time_iff (r : l.Recounts) (cycle : Nat) : (l.tags.advance cycle).answer = .ok () ↔
    ∀ tag, ¬l.history.Overdue tag cycle := by
  have none_iff := l.tags.overdue?_eq_none_iff cycle
  simp only [r.overdue_iff, not_exists, not_and, not_lt]
  rw [← none_iff, answer_advance]
  cases l.tags.overdue? cycle <;> simp

theorem overdue_first (r : l.Recounts) {cycle : Nat} {e : InvalidationError}
    (error : (l.tags.advance cycle).answer = .error e) :
    ∃ tag : Fin 32, l.history.Overdue tag cycle ∧
      e = .timeout tag (cycle - l.history.takenAt tag) ∧
      ∀ lower < tag, ¬l.history.Overdue lower cycle := by
  rw [answer_advance] at error
  cases overdue : l.tags.overdue? cycle with
  | none =>
    rw [overdue] at error
    cases error
  | some e' =>
    rw [overdue] at error
    cases error
    obtain ⟨tag, s, held, late, rfl, quiet⟩ := overdue?_eq_some overdue
    have setCycle := (r.holds held).setCycle
    refine ⟨tag, (r.overdue_iff tag cycle).2 ⟨s, held, late⟩, by rw [setCycle], ?_⟩
    intro lower less overdue
    obtain ⟨s', held', late'⟩ := (r.overdue_iff lower cycle).1 overdue
    exact absurd late' (not_lt.2 (quiet lower less s' held'))

theorem governed (r : l.Recounts) : l.Governed where
  busy_iff := r.isBusy_iff
  counted tag s := r.counted
  handed_out tag tags handed := by
    rcases l.tags.alloc?_spec with ⟨none_free, -⟩ | ⟨u, tags', handed', free, busy, -⟩
    · rw [none_free] at handed
      cases handed
    · rw [handed'] at handed
      cases handed
      exact ⟨free, busy⟩
  none_free_iff := by
    rcases l.tags.alloc?_spec with ⟨none_free, busy⟩ | ⟨u, tags, handed, free, -⟩
    · exact iff_of_true none_free busy
    · exact iff_of_false (by simp [handed]) fun busy => free (busy u)
  completed_iff := r.completed_iff
  refused vec count e := r.refused
  completes vec count := (l.tags.complete_spec vec count).1
  freed_iff call tag := r.freed_iff call
  checked cycle tag := by rw [state_advance]; rfl
  in_time_iff := r.in_time_iff
  overdue_iff cycle e := by
    refine ⟨r.overdue_first, ?_⟩
    rintro ⟨tag, overdue, rfl, first⟩
    cases answer : (l.tags.advance cycle).answer with
    | ok => exact absurd overdue ((r.in_time_iff cycle).1 answer tag)
    | error e =>
      obtain ⟨tag', overdue', rfl, first'⟩ := r.overdue_first answer
      rcases lt_trichotomy tag tag' with less | rfl | less
      · exact absurd overdue (first' tag less)
      · rfl
      · exact absurd overdue' (first tag' less)

end TagLog.Recounts

/-- After any run of calls, the completions and checks since a tag was handed out decide when it is
free again, which calls fail and whether it is overdue. -/
theorem TagLog.run_governed (calls : List TagCall) : (run {} calls).Governed :=
  (Recounts.start.run calls).governed

end TlpBridge

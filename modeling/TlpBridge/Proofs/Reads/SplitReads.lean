import TlpBridge.Engine.ToDevice
import TlpBridge.Proofs.Stream.LegalParameters
import TlpBridge.Proofs.ToDevice.Overtaking

/-!
# Completions of one read

The data of a read is cut into completions without gap or overlap. They are queued in
order, and whatever they overtake, the completions of every read keep their order.
-/
namespace TlpBridge

/-- The completion carries the data of a read in a slot from a DWORD on. -/
structure CompletionPacket.Carries (c : CompletionPacket) (slot : Nat) (h : Header)
    (data : List UInt32) (start : Nat) : Prop where
  slot : c.slot = slot
  data : c.data = data
  begins : c.startDword = start
  first : c.isFirst = decide (start = 0)
  last : c.isLast = decide (start + c.dwordSize = h.dwordSize)
  nonempty : 0 < c.dwordSize
  inside : start + c.dwordSize ≤ h.dwordSize

theorem CompletionPacket.isCompletion_header (c : CompletionPacket) (request : Header) :
    (c.header request).fmtType.isCompletion := by
  change FmtType.completionData.isCompletion
  decide

/-- Completions that carry the data of a read from one DWORD up to another. -/
def CarriesRange (slot : Nat) (h : Header) (data : List UInt32) :
    (start : Nat) → List CompletionPacket → (stop : Nat) → Prop
  | start, [], stop => start = stop
  | start, c :: cs, stop =>
    c.Carries slot h data start ∧ CarriesRange slot h data (start + c.dwordSize) cs stop

/-- A queue of completions in which each has the number of its read. -/
abbrev OwnedQueue : Type := List (Nat × CompletionPacket)

namespace OwnedQueue

/-- The completions without the numbers. -/
def packets (q : OwnedQueue) : List CompletionPacket := q.map Prod.snd

/-- The completions of one read. -/
def ofRead (q : OwnedQueue) (i : Nat) : List CompletionPacket :=
  packets (q.filter (·.1 == i))

theorem packets_append (q q' : OwnedQueue) :
    packets (q ++ q') = packets q ++ packets q' := List.map_append

theorem ofRead_append (q q' : OwnedQueue) (i : Nat) :
    ofRead (q ++ q') i = ofRead q i ++ ofRead q' i := by
  rw [ofRead, List.filter_append, packets_append]
  rfl

theorem ofRead_cons (x : Nat × CompletionPacket) (q : OwnedQueue) (i : Nat) :
    ofRead (x :: q) i = if x.1 = i then x.2 :: ofRead q i else ofRead q i := by
  by_cases own : x.1 = i
  · simp [ofRead, packets, own]
  · simp [ofRead, packets, own]

theorem mem_ofRead_iff (q : OwnedQueue) (i : Nat) (c : CompletionPacket) :
    c ∈ OwnedQueue.ofRead q i ↔ (i, c) ∈ q := by
  simp [ofRead, packets]

end OwnedQueue

/-- A queue after completions of one read were put into it. -/
structure Joins (q : OwnedQueue) (i : Nat) (cs : List CompletionPacket) (q' : OwnedQueue) :
    Prop where
  own : OwnedQueue.ofRead q' i = OwnedQueue.ofRead q i ++ cs
  others : ∀ j, j ≠ i → OwnedQueue.ofRead q' j = OwnedQueue.ofRead q j
  head : ∀ x, q.head? = some x → q'.head? = some x
  tail : ∀ x ∈ q'.tail, x ∈ q.tail ∨ x.1 = i

namespace Joins

theorem refl (q : OwnedQueue) (i : Nat) : Joins q i [] q :=
  ⟨(List.append_nil _).symm, fun _ _ => rfl, fun _ h => h, fun _ h => .inl h⟩

theorem trans {q q' q'' : OwnedQueue} {i : Nat} {cs cs' : List CompletionPacket}
    (first : Joins q i cs q') (second : Joins q' i cs' q'') : Joins q i (cs ++ cs') q'' where
  own := by rw [second.own, first.own, List.append_assoc]
  others j other := (second.others j other).trans (first.others j other)
  head x h := second.head x (first.head x h)
  tail x h := (second.tail x h).elim (first.tail x) .inr

theorem mem {q q' : OwnedQueue} {i : Nat} {cs : List CompletionPacket} (joins : Joins q i cs q')
    {x : Nat × CompletionPacket} (member : x ∈ q') : x ∈ q ∨ x.1 = i := by
  by_cases own : x.1 = i
  · exact .inr own
  · have there := (OwnedQueue.mem_ofRead_iff q' x.1 x.2).2 member
    rw [joins.others x.1 own] at there
    exact .inl ((OwnedQueue.mem_ofRead_iff q x.1 x.2).1 there)

end Joins

namespace Engine

/-- Nothing but the queue of completions and the source of draws has changed. -/
def OnlyQueued (e e' : Engine) : Prop :=
  e' = { e with random := e'.random, completions := e'.completions }

theorem OnlyQueued.refl (e : Engine) : e.OnlyQueued e := rfl

theorem OnlyQueued.trans {e e' e'' : Engine} (first : e.OnlyQueued e')
    (second : e'.OnlyQueued e'') : e.OnlyQueued e'' := by
  unfold OnlyQueued at *
  rw [second, first]

theorem onlyQueued_queueCompletion (e : Engine) (c : CompletionPacket) :
    e.OnlyQueued (e.queueCompletion c) := by
  unfold queueCompletion OnlyQueued
  by_cases ordered : e.params.orderedCompletions
  · simp only [ordered, if_true]
  · simp only [ordered]
    rfl

theorem onlyQueued_packetLength (e : Engine) (left : Nat) :
    e.OnlyQueued (e.packetLength left).2 ∧
      (e.packetLength left).2.completions = e.completions := by
  unfold packetLength
  by_cases short : left ≤ e.params.completionBoundary / 4
  · rw [if_pos short]
    exact ⟨rfl, rfl⟩
  · rw [if_neg short]
    exact ⟨rfl, rfl⟩

theorem packetLength_range (e : Engine) {left : Nat} (some_ : 0 < left) :
    0 < (e.packetLength left).1 ∧ (e.packetLength left).1 ≤ left := by
  have boundary : 0 < e.params.completionBoundary / 4 :=
    Nat.div_pos e.config.legal.boundary (by decide)
  unfold packetLength
  by_cases short : left ≤ e.params.completionBoundary / 4
  · rw [if_pos short]
    exact ⟨some_, Nat.le_refl _⟩
  · rw [if_neg short]
    refine ⟨Nat.lt_min.2 ⟨some_, Nat.mul_pos ?_ boundary⟩, Nat.min_le_left ..⟩
    split
    · exact Nat.lt_of_lt_of_le Nat.one_pos (Nat.le_max_left ..)
    · exact Nat.lt_of_lt_of_le Nat.one_pos (Nat.le_add_right ..)

theorem completions_queueCompletion (e : Engine) (c : CompletionPacket) : ∃ limit,
    (e.queueCompletion c).completions =
      e.completions.insertOvertaking c limit fun d => d.slot == c.slot := by
  unfold queueCompletion
  by_cases ordered : e.params.orderedCompletions
  · simp only [ordered, if_true]
    exact ⟨_, rfl⟩
  · simp only [ordered]
    exact ⟨_, rfl⟩

theorem mem_queueCompletion {e : Engine} {c d : CompletionPacket}
    (member : d ∈ (e.queueCompletion c).completions.items) :
    d ∈ e.completions.items ∨ d = c := by
  obtain ⟨limit, inserted⟩ := e.completions_queueCompletion c
  obtain ⟨n, items, -⟩ :=
    e.completions.insertOvertaking_eq c limit fun d => d.slot == c.slot
  rw [inserted, items, List.mem_append, List.mem_cons] at member
  rcases member with before | new | after
  · exact .inl (List.mem_of_mem_take before)
  · exact .inr new
  · exact .inl (List.mem_of_mem_drop after)

/-- Queueing a completion puts it behind those of its own read. -/
theorem queueCompletion_joins (e : Engine) (c : CompletionPacket) {q : OwnedQueue} {i : Nat}
    (queue : e.completions.items = OwnedQueue.packets q)
    (slots : ∀ d ∈ OwnedQueue.ofRead q i, d.slot = c.slot) :
    ∃ q', (e.queueCompletion c).completions.items = OwnedQueue.packets q' ∧ Joins q i [c] q' := by
  obtain ⟨limit, inserted⟩ := e.completions_queueCompletion c
  obtain ⟨n, items, behind, -, head⟩ :=
    e.completions.insertOvertaking_eq c limit fun d => d.slot == c.slot
  rw [queue, OwnedQueue.packets, ← List.map_take, ← List.map_drop] at items
  rw [queue, OwnedQueue.packets, ← List.map_drop] at behind
  have split := List.take_append_drop n q
  have apart : OwnedQueue.ofRead (q.drop n) i = [] := by
    rw [List.eq_nil_iff_forall_not_mem]
    intro d member
    have later : (i, d) ∈ q.drop n := (OwnedQueue.mem_ofRead_iff ..).1 member
    have other := behind d (List.mem_map_of_mem later)
    have same := slots d ((OwnedQueue.mem_ofRead_iff ..).2 (List.mem_of_mem_drop later))
    simp [same] at other
  have waiting (some_ : q ≠ []) : 0 < n := by
    apply head
    rw [queue]
    exact fun none_ => some_ (List.map_eq_nil_iff.1 none_)
  refine ⟨q.take n ++ (i, c) :: q.drop n, ?_, ?_, ?_, ?_, ?_⟩
  · rw [inserted, items]
    simp [OwnedQueue.packets]
  · conv_rhs => rw [← split]
    rw [OwnedQueue.ofRead_append, OwnedQueue.ofRead_cons, if_pos rfl, OwnedQueue.ofRead_append,
      apart, List.append_nil]
  · intro j other
    conv_rhs => rw [← split]
    rw [OwnedQueue.ofRead_append, OwnedQueue.ofRead_cons, if_neg (Ne.symm other),
      OwnedQueue.ofRead_append]
  · intro x first
    have some_ : q ≠ [] := by
      rintro rfl
      cases first
    rw [List.head?_append, List.head?_take, if_neg (Nat.pos_iff_ne_zero.1 (waiting some_)), first]
    rfl
  · intro x member
    cases q with
    | nil => simp at member
    | cons y rest =>
      obtain ⟨m, rfl⟩ : ∃ m, n = m + 1 :=
        ⟨n - 1, (Nat.succ_pred_eq_of_pos (waiting (by simp))).symm⟩
      change x ∈ rest.take m ++ (i, c) :: rest.drop m at member
      rw [List.mem_append, List.mem_cons] at member
      rcases member with before | rfl | after
      · exact .inl (List.mem_of_mem_take before)
      · exact .inr rfl
      · exact .inl (List.mem_of_mem_drop after)

theorem queuePackets_of_done (slot : Nat) {h : Header} (r : RequestBody) (data : List UInt32)
    (fuel : Nat) {start : Nat} (byteCount : Nat) (e : Engine) (done : h.dwordSize ≤ start) :
    queuePackets slot h r data fuel start byteCount e = e := by
  cases fuel with
  | zero => rfl
  | succ fuel => rw [queuePackets, if_pos (Nat.sub_eq_zero_of_le done)]

/-- The data of a read from a DWORD on is queued as completions that carry it to its end. -/
theorem carriesRange_queuePackets (slot : Nat) (h : Header) (r : RequestBody)
    (data : List UInt32) {i : Nat} (fuel start byteCount : Nat) (e : Engine) {q : OwnedQueue}
    (enough : h.dwordSize - start ≤ fuel) (inside : start ≤ h.dwordSize)
    (queue : e.completions.items = OwnedQueue.packets q)
    (slots : ∀ d ∈ OwnedQueue.ofRead q i, d.slot = slot) :
    ∃ q' cs, (queuePackets slot h r data fuel start byteCount e).completions.items =
        OwnedQueue.packets q' ∧
      Joins q i cs q' ∧ CarriesRange slot h data start cs h.dwordSize ∧
      e.OnlyQueued (queuePackets slot h r data fuel start byteCount e) := by
  induction fuel generalizing start byteCount e q with
  | zero =>
    refine ⟨q, [], queue, Joins.refl q i, ?_, OnlyQueued.refl e⟩
    change start = h.dwordSize
    omega
  | succ fuel ih =>
    by_cases done : h.dwordSize - start = 0
    · rw [queuePackets, if_pos done]
      refine ⟨q, [], queue, Joins.refl q i, ?_, OnlyQueued.refl e⟩
      change start = h.dwordSize
      omega
    · obtain ⟨drawn, kept⟩ := e.onlyQueued_packetLength (h.dwordSize - start)
      obtain ⟨some_, most⟩ := e.packetLength_range (Nat.pos_of_ne_zero done)
      rw [queuePackets, if_neg done]
      simp only
      generalize e.packetLength (h.dwordSize - start) = choice at drawn kept some_ most
      obtain ⟨n, e1⟩ := choice
      simp only at drawn kept some_ most
      let c : CompletionPacket :=
        { slot := slot
          data := data
          byteSize := if n == h.dwordSize - start then h.byteSize.toNat - 4 * start else 4 * n
          startDword := start
          byteCount := byteCount
          isFirst := start == 0
          isLast := n == h.dwordSize - start }
      have size : c.dwordSize = n := by
        by_cases last : n = h.dwordSize - start
        · simp only [c, CompletionPacket.dwordSize, last, beq_self_eq_true, if_true]
          rw [Header.dwordSize] at last ⊢
          omega
        · simp only [c, CompletionPacket.dwordSize, beq_eq_false_iff_ne.2 last,
            Bool.false_eq_true, if_false]
          omega
      have carries : c.Carries slot h data start := by
        refine ⟨rfl, rfl, rfl, rfl, ?_, by omega, by omega⟩
        rw [size]
        change decide (n = h.dwordSize - start) = _
        rw [decide_eq_decide]
        omega
      obtain ⟨q1, queue1, joins1⟩ :=
        e1.queueCompletion_joins c (i := i) (by rw [kept, queue]) slots
      have slots1 : ∀ d ∈ OwnedQueue.ofRead q1 i, d.slot = slot := by
        intro d member
        rw [joins1.own, List.mem_append, List.mem_singleton] at member
        rcases member with old | rfl
        · exact slots d old
        · rfl
      obtain ⟨q', cs, queue', joins, range, rest⟩ :=
        ih (start + n) (byteCount - (ByteEnable.byteCount? n
          (if start == 0 then r.firstEnable else 0xf)
          (if n == h.dwordSize - start then r.lastEnable else 0xf)).getD (4 * n))
          (e1.queueCompletion c) (by omega) (by omega) queue1 slots1
      refine ⟨q', [c] ++ cs, queue', joins1.trans joins, ⟨carries, ?_⟩, ?_⟩
      · rw [size]
        exact range
      · exact drawn.trans ((onlyQueued_queueCompletion e1 c).trans rest)

end Engine

end TlpBridge

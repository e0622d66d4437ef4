import TlpBridge.Proofs.ToDevice.Overtaking

/-!
# Requests stay in order

A packet that is queued stops behind the first packet of its own request that it meets, behind the
head, or where its limit is used up. However insertions and removals alternate, every packet comes
out once, and those of one request come out in the order in which they went in.
-/
namespace TlpBridge

theorem eq_false_of_takeWhile_take {α : Type} {p : α → Bool} {l : List α} {limit : Nat}
    (early : ((l.take limit).takeWhile p).length < limit) {b : α}
    (next : (l.drop ((l.take limit).takeWhile p).length).head? = some b) : p b = false := by
  have rest : (l.take limit).dropWhile p =
      (l.drop ((l.take limit).takeWhile p).length).take
        (limit - ((l.take limit).takeWhile p).length) := by
    rw [← List.drop_take]
    have split := List.takeWhile_append_dropWhile (p := p) (l := l.take limit)
    exact List.drop_left.symm.trans (congrArg (List.drop _) split)
  have ends := List.head?_dropWhile_not p (l.take limit)
  rw [rest, List.head?_take, if_neg (by omega), next] at ends
  exact ends

namespace OvertakingQueue

variable {α ρ : Type}

/-- A packet is inserted between `ahead` and `behind`, as far to the front as it may go. -/
structure Overtakes (q : OvertakingQueue α) (a : α) (limit : Nat) (same : α → Bool)
    (ahead behind : List α) : Prop where
  old : q.items = ahead ++ behind
  new : (q.insertOvertaking a limit same).items = ahead ++ a :: behind
  head : ∀ b, q.front? = some b → (q.insertOvertaking a limit same).front? = some b
  within : behind.length ≤ limit
  others : ∀ b ∈ behind, same b = false
  /-- The next packet to pass is of the same request, or it is the head. -/
  stopped : behind.length < limit → ∀ b, ahead.getLast? = some b → same b ∨ ahead = [b]

/-- Where fewer packets are passed than the limit allows, the next one is of the same request, or
it is the head. -/
theorem stopped_of_lt (q : OvertakingQueue α) (limit : Nat) (same : α → Bool)
    (early : q.overtaken limit same < limit) {b : α}
    (next : (q.items.take (q.length - q.overtaken limit same)).getLast? = some b) :
    same b ∨ q.items.take (q.length - q.overtaken limit same) = [b] := by
  have bound := q.overtaken_le limit same
  have passed : q.overtaken limit same =
    ((q.items.tail.reverse.take limit).takeWhile fun a => !same a).length := rfl
  unfold length at next ⊢
  generalize q.overtaken limit same = n at early next bound passed ⊢
  cases items : q.items with
  | nil => simp [items] at next
  | cons h t =>
    rw [items, List.tail_cons] at passed bound
    have front : (h :: t).take ((h :: t).length - n) = h :: (t.reverse.drop n).reverse := by
      rw [List.length_cons, Nat.succ_sub bound, List.take_succ_cons, List.reverse_drop]
      simp
    rw [items, front, List.getLast?_cons, List.getLast?_reverse] at next
    rw [front]
    cases rest : (t.reverse.drop n).head? with
    | none =>
      rw [rest, Option.getD_none, Option.some_inj] at next
      rw [List.head?_eq_none_iff] at rest
      simp [rest, next]
    | some c =>
      rw [rest, Option.getD_some, Option.some_inj] at next
      subst next
      subst passed
      have stop := eq_false_of_takeWhile_take early rest
      exact .inl (by simpa using stop)

/-- A packet that is queued goes as far to the front as it may. -/
theorem insertOvertaking_overtakes (q : OvertakingQueue α) (a : α) (limit : Nat)
    (same : α → Bool) : ∃ ahead behind, q.Overtakes a limit same ahead behind := by
  have bound := q.overtaken_le limit same
  have behind := drop_overtaken q limit same
  have passed : (q.items.drop (q.length - q.overtaken limit same)).length =
      q.overtaken limit same := by
    rw [behind, List.length_reverse]
    rfl
  refine ⟨q.items.take (q.length - q.overtaken limit same),
    q.items.drop (q.length - q.overtaken limit same), (List.take_append_drop ..).symm, rfl,
    ?_, ?_, ?_, ?_⟩
  · intro b waits
    obtain ⟨rest, items⟩ := List.head?_eq_some_iff.1 waits
    rw [items, List.tail_cons] at bound
    have positive : q.length - q.overtaken limit same ≠ 0 := by
      rw [length, items, List.length_cons]
      omega
    obtain ⟨n, place⟩ := Nat.exists_eq_succ_of_ne_zero positive
    rw [front?, insertOvertaking, place, items, List.take_succ_cons]
    rfl
  · rw [passed, overtaken]
    refine (List.takeWhile_prefix _).length_le.trans ?_
    rw [List.length_take]
    exact Nat.min_le_left ..
  · intro b later
    rw [behind, List.mem_reverse] at later
    simpa using List.mem_takeWhile_imp later
  · rw [passed]
    exact fun early b next => q.stopped_of_lt limit same early next

theorem pop?_eq_some_iff (q rest : OvertakingQueue α) (a : α) :
    q.pop? = some (a, rest) ↔ q.items = a :: rest.items := by
  obtain ⟨items⟩ := q
  obtain ⟨others⟩ := rest
  cases items <;> simp [pop?]

/-- What is done to a queue: a packet is inserted that may overtake so many, or the head is
taken. -/
inductive Call (α : Type) where
  | insert (a : α) (limit : Nat)
  | pop

/-- The packets that are inserted, in order. -/
def inserted : List (Call α) → List α
  | [] => []
  | .insert a _ :: calls => a :: inserted calls
  | .pop :: calls => inserted calls

section Runs

variable [DecidableEq ρ] (request : α → ρ)

/-- The packets that calls take from a queue, in order, and the queue after them. A packet does not
overtake those with its own `request`. -/
def run : OvertakingQueue α → List (Call α) → List α × OvertakingQueue α
  | q, [] => ([], q)
  | q, .insert a limit :: calls =>
    run (q.insertOvertaking a limit fun b => request b == request a) calls
  | q, .pop :: calls =>
    match q.pop? with
    | none => run q calls
    | some (a, rest) => (a :: (run rest calls).1, (run rest calls).2)

variable {request}

theorem Overtakes.filter_eq {q : OvertakingQueue α} {a : α} {limit : Nat} {ahead behind : List α}
    (h : q.Overtakes a limit (fun b => request b == request a) ahead behind) (r : ρ) :
    (q.insertOvertaking a limit fun b => request b == request a).items.filter (request · = r) =
      (q.items ++ [a]).filter (request · = r) := by
  rw [h.new, h.old]
  by_cases own : request a = r
  · subst own
    have none_ : behind.filter (request · = request a) = [] := by
      rw [List.filter_eq_nil_iff]
      intro b later
      simpa using h.others b later
    simp [none_]
  · simp [own]

variable (request)

/-- Of each request, what was taken and what waits are what waited before and what was inserted, in
this order. -/
theorem run_filter (q : OvertakingQueue α) (calls : List (Call α)) (r : ρ) :
    ((run request q calls).1 ++ (run request q calls).2.items).filter (request · = r) =
      (q.items ++ inserted calls).filter (request · = r) := by
  induction calls generalizing q with
  | nil => simp [run, inserted]
  | cons c calls ih =>
    cases c with
    | insert a limit =>
      obtain ⟨ahead, behind, h⟩ :=
        q.insertOvertaking_overtakes a limit fun b => request b == request a
      rw [run, inserted, List.append_cons, ih, List.filter_append, h.filter_eq r,
        ← List.filter_append]
    | pop =>
      rw [run, inserted]
      cases popped : q.pop? with
      | none => exact ih q
      | some found =>
        obtain ⟨a, rest⟩ := found
        rw [(pop?_eq_some_iff q rest a).1 popped, List.cons_append, List.cons_append,
          List.filter_cons, List.filter_cons, ih rest]

theorem run_replicate_pop (q : OvertakingQueue α) :
    run request q (List.replicate q.length .pop) = (q.items, ⟨[]⟩) := by
  obtain ⟨items⟩ := q
  induction items with
  | nil => rfl
  | cons a items ih =>
    have popped : (⟨a :: items⟩ : OvertakingQueue α).pop? = some (a, ⟨items⟩) := rfl
    change run request ⟨a :: items⟩ (.pop :: List.replicate items.length .pop) = _
    rw [run, popped]
    simp only [length] at ih
    simp only [ih]

theorem run_append (q : OvertakingQueue α) (calls more : List (Call α)) :
    run request q (calls ++ more) =
      ((run request q calls).1 ++ (run request (run request q calls).2 more).1,
        (run request (run request q calls).2 more).2) := by
  induction calls generalizing q with
  | nil => rfl
  | cons c calls ih =>
    cases c with
    | insert a limit => rw [List.cons_append, run, run, ih]
    | pop =>
      rw [List.cons_append, run, run]
      cases q.pop? with
      | none => exact ih q
      | some found => simp only [ih, List.cons_append]

end Runs

theorem perm_of_filter_eq [DecidableEq ρ] {request : α → ρ} {l l' : List α}
    (same : ∀ r, l.filter (request · = r) = l'.filter (request · = r)) : l.Perm l' := by
  classical
  rw [List.perm_iff_count]
  intro a
  have counts := congrArg (List.count a) (same (request a))
  rwa [List.count_filter (by simp), List.count_filter (by simp)] at counts

/-- A packet that is queued goes in at one place, behind the head, and passes as many packets as it
may, none of its own request. So however insertions and removals alternate, and then all that waits
is removed, every packet comes out once, and those of one request in the order in which they went
in. -/
theorem inserted_in_order [DecidableEq ρ] (request : α → ρ) :
    (∀ (q : OvertakingQueue α) a limit same,
      ∃ ahead behind, q.Overtakes a limit same ahead behind) ∧
    ∀ calls : List (Call α),
      let s := run request {} calls
      let drained := run request {} (calls ++ List.replicate s.2.length .pop)
      (∀ r, (s.1 ++ s.2.items).filter (request · = r) =
        (inserted calls).filter (request · = r)) ∧
      drained.2.items = [] ∧ drained.1.Perm (inserted calls) ∧
      ∀ r, drained.1.filter (request · = r) = (inserted calls).filter (request · = r) := by
  refine ⟨insertOvertaking_overtakes, ?_⟩
  intro calls s drained
  have kept (r : ρ) : (s.1 ++ s.2.items).filter (request · = r) =
      (inserted calls).filter (request · = r) := run_filter request {} calls r
  have all : drained = (s.1 ++ s.2.items, ⟨[]⟩) := by
    rw [show drained = _ from run_append request {} calls _, run_replicate_pop]
  rw [all]
  exact ⟨kept, rfl, perm_of_filter_eq kept, kept⟩

example : (run Prod.fst {} [.insert (0, 0) 0, .insert (1, 0) 0, .insert (2, 0) 0,
    .insert (9, 0) 5, .insert (9, 1) 5]).2.items = [(0, 0), (9, 0), (9, 1), (1, 0), (2, 0)] := by
  decide

end OvertakingQueue

end TlpBridge

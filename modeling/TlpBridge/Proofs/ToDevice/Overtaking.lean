import Mathlib.Data.List.TakeWhile
import Mathlib.Tactic
import TlpBridge.Engine.OvertakingQueue

/-!
# Order in the overtaking queue

An inserted packet ends up at one place of the queue, and the packets keep their order.
Behind the new packet stand only packets of other requests, and the head is never among
them.
-/
namespace TlpBridge.OvertakingQueue

variable {α : Type}

theorem overtaken_reverse (q : OvertakingQueue α) (limit : Nat) (same : α → Bool) :
    q.items.reverse.take (q.overtaken limit same) =
      (q.items.tail.reverse.take limit).takeWhile fun a => !same a := by
  have bound := q.overtaken_le limit same
  have tail : q.items.reverse.take (q.overtaken limit same) =
      q.items.tail.reverse.take (q.overtaken limit same) := by
    cases items : q.items with
    | nil => rfl
    | cons a rest =>
      rw [items, List.tail_cons] at bound
      rw [List.reverse_cons, List.tail_cons, List.take_append_of_le_length (by simpa using bound)]
  have front : ((q.items.tail.reverse.take limit).takeWhile fun a => !same a) <+:
      q.items.tail.reverse :=
    (List.takeWhile_prefix _).trans (List.take_prefix ..)
  rw [tail]
  exact (List.prefix_iff_eq_take.1 front).symm

theorem drop_overtaken (q : OvertakingQueue α) (limit : Nat) (same : α → Bool) :
    q.items.drop (q.length - q.overtaken limit same) =
      ((q.items.tail.reverse.take limit).takeWhile fun a => !same a).reverse := by
  rw [← overtaken_reverse, List.reverse_take, List.reverse_reverse, List.length_reverse, length]

/-- Behind a new packet stand at most so many as it may overtake, none of its own request, and not
the head. -/
theorem insertOvertaking_eq (q : OvertakingQueue α) (a : α) (limit : Nat) (same : α → Bool) :
    ∃ n, (q.insertOvertaking a limit same).items = q.items.take n ++ a :: q.items.drop n ∧
      (∀ b ∈ q.items.drop n, same b = false) ∧ (q.items.drop n).length ≤ limit ∧
      (q.items ≠ [] → 0 < n) := by
  refine ⟨_, rfl, ?_, ?_, ?_⟩
  · intro b behind
    rw [drop_overtaken, List.mem_reverse] at behind
    simpa using List.mem_takeWhile_imp behind
  · rw [drop_overtaken, List.length_reverse]
    refine (List.takeWhile_prefix _).length_le.trans ?_
    rw [List.length_take]
    exact Nat.min_le_left ..
  · intro waiting
    have bound := q.overtaken_le limit same
    have some_ := List.length_pos_iff.2 waiting
    rw [List.length_tail] at bound
    rw [length]
    omega

/-- A walk takes one step for each packet that it passes. -/
theorem walk_eq (q : OvertakingQueue α) (same : α → Bool) (limit prev : Nat)
    (inside : prev < q.length) :
    q.walk same limit prev = prev -
      (((q.items.take (prev + 1)).tail.reverse.take limit).takeWhile fun a => !same a).length := by
  induction limit generalizing prev with
  | zero => simp [walk]
  | succ limit ih =>
    cases prev with
    | zero =>
      have head : (q.items.take 1).tail = [] := by cases q.items <;> rfl
      simp [walk, head]
    | succ prev =>
      have here : q.items[prev + 1]? = some q.items[prev + 1] := List.getElem?_eq_getElem inside
      have passed : (q.items.take (prev + 2)).tail.reverse =
          q.items[prev + 1] :: (q.items.take (prev + 1)).tail.reverse := by
        have shorter : q.items.take (prev + 1) ≠ [] := by
          intro none_
          have sizes := congrArg List.length none_
          rw [List.length_take_of_le (Nat.le_of_lt inside)] at sizes
          exact absurd sizes (Nat.succ_ne_zero prev)
        rw [List.take_succ_eq_append_getElem inside, List.tail_append_of_ne_nil shorter,
          List.reverse_append, List.reverse_singleton, List.singleton_append]
      rw [walk, here, passed, List.take_succ_cons]
      by_cases own : same q.items[prev + 1]
      · simp [own]
      · simp only [Option.any_some, own, Bool.false_or, Nat.add_eq_zero_iff, Nat.succ_ne_self,
          beq_iff_eq, and_false, if_false, Nat.add_sub_cancel, Bool.not_false,
          List.takeWhile_cons_of_pos, List.length_cons]
        rw [ih prev (Nat.lt_of_succ_lt inside), Nat.add_sub_add_right]

theorem insertIdx_eq_take_append {l : List α} {n : Nat} (inside : n ≤ l.length) (a : α) :
    l.insertIdx n a = l.take n ++ a :: l.drop n := by
  obtain ⟨ahead, behind, rfl, rfl, inserted⟩ := List.exists_of_modifyTailIdx (List.cons a) inside
  rw [List.take_left, List.drop_left]
  exact inserted

/-- To insert a packet ahead of those that it overtakes is to insert it where the walk stops. -/
theorem insertOvertaking_eq_insertBehindWalk (q : OvertakingQueue α) (a : α) (limit : Nat)
    (same : α → Bool) : q.insertOvertaking a limit same = q.insertBehindWalk a limit same := by
  unfold insertBehindWalk
  cases waiting : q.length with
  | zero =>
    rw [length, List.length_eq_zero_iff] at waiting
    simp [insertOvertaking, waiting]
  | succ last =>
    have bound := q.overtaken_le limit same
    rw [List.length_tail, ← length, waiting, Nat.add_sub_cancel] at bound
    have all : q.items.take (last + 1) = q.items := List.take_of_length_le (Nat.le_of_eq waiting)
    have place : q.walk same limit last + 1 = q.length - q.overtaken limit same := by
      rw [q.walk_eq same limit last (by omega), all, ← overtaken, waiting]
      omega
    dsimp only
    rw [place, insertOvertaking,
      insertIdx_eq_take_append (l := q.items) (n := q.length - q.overtaken limit same)
        (Nat.sub_le ..)]

end TlpBridge.OvertakingQueue

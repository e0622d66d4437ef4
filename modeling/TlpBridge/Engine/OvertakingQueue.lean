/-!
# The overtaking queue

A queue of packets in which a new packet may overtake some of those at the end. It
stops behind a packet of its own request, so that the packets of one request stay in
order, and it never passes the head, which may be on its way already.
-/
namespace TlpBridge

structure OvertakingQueue (α : Type) where
  items : List α := []

namespace OvertakingQueue

variable {α : Type}

def isEmpty (q : OvertakingQueue α) : Bool := q.items.isEmpty

def length (q : OvertakingQueue α) : Nat := q.items.length

def front? (q : OvertakingQueue α) : Option α := q.items.head?

/-- Takes the head. -/
def pop? (q : OvertakingQueue α) : Option (α × OvertakingQueue α) :=
  match q.items with
  | [] => none
  | a :: rest => some (a, ⟨rest⟩)

/-- The queue without its head. -/
def tail (q : OvertakingQueue α) : OvertakingQueue α := ⟨q.items.tail⟩

/-- How many packets at the end a new one overtakes, if it may overtake `limit`. -/
def overtaken (q : OvertakingQueue α) (limit : Nat) (same : α → Bool) : Nat :=
  ((q.items.tail.reverse.take limit).takeWhile fun a => !same a).length

/-- Inserts a packet ahead of the packets that it overtakes. -/
def insertOvertaking (q : OvertakingQueue α) (a : α) (limit : Nat) (same : α → Bool) :
    OvertakingQueue α :=
  let place := q.length - q.overtaken limit same
  ⟨q.items.take place ++ a :: q.items.drop place⟩

/-- Where a walk from the place `prev` towards the head ends, if it may take `limit` steps. It
stays at a packet of its own request and at the head. -/
def walk (q : OvertakingQueue α) (same : α → Bool) : (limit prev : Nat) → Nat
  | 0, prev => prev
  | limit + 1, prev =>
    if q.items[prev]?.any same || prev == 0 then prev else q.walk same limit (prev - 1)

/-- Inserts a packet behind the place where the walk from the end stops. -/
def insertBehindWalk (q : OvertakingQueue α) (a : α) (limit : Nat) (same : α → Bool) :
    OvertakingQueue α :=
  match q.length with
  | 0 => ⟨q.items ++ [a]⟩
  | last + 1 => ⟨q.items.insertIdx (q.walk same limit last + 1) a⟩

theorem overtaken_le (q : OvertakingQueue α) (limit : Nat) (same : α → Bool) :
    q.overtaken limit same ≤ q.items.tail.length := by
  unfold overtaken
  refine Nat.le_trans (List.takeWhile_prefix _).length_le ?_
  simp only [List.length_take, List.length_reverse]
  exact Nat.min_le_right ..

end OvertakingQueue

end TlpBridge

import TlpBridge.Iommu.PageSize

/-!
# Radix tables

A tree of four levels from device addresses to pages. A node has 512 slots, chosen by
nine bits of the address; a slot is empty, holds a page of its level with a pin count,
or leads to a node of the next level. The newest pin wins: it splits a larger page on
its way and drops the smaller pages in its slot.
-/
namespace TlpBridge

/-- A page of a radix table: the page it leads to and how often it is pinned. -/
structure Leaf where
  va : UInt64
  count : Nat
deriving DecidableEq

/-- A slot of a node whose subtrees have type `α`. -/
inductive Slot (α : Type) where
  | empty
  | leaf (l : Leaf)
  | table (t : α)

/-- A node whose subtrees have type `α`. -/
abbrev Node (α : Type) : Type := Vector (Slot α) 512

/-- A tree whose root is a node of the given level. -/
def Tree : Nat → Type
  | 0 => Node Empty
  | level + 1 => Node (Tree level)

/-- A page found in a table, at the level whose slots hold pages of its size. -/
structure Mapping where
  va : UInt64
  level : Nat
  count : Nat
deriving DecidableEq

/-- The address inside a mapped page that belongs to a device address. -/
def Mapping.translate (m : Mapping) (addr : UInt64) : UInt64 :=
  m.va ||| UInt64.ofNat (addr.toNat % PageSize.bytesAt m.level)

/-- What a pin had to put aside. -/
inductive Displaced where
  /-- A larger page at this level, leading to this address, gave way to a node. -/
  | split (level : Nat) (va : UInt64)
  /-- The smaller pages in the slot at this level were dropped. -/
  | dropped (level : Nat)
deriving DecidableEq

/-- What a pin leaves behind in a node or a tree: itself, the pin count of the page and what was
put aside. -/
structure Pinned (α : Type) where
  table : α
  count : Nat
  displaced : Option Displaced := none

/-- A slot in use: its level, its first address, and the page if it holds one. -/
structure Occupied where
  level : Nat
  addr : Nat
  leaf? : Option Leaf

/-- A page is pinned at most this often. -/
def maxPinCount : Nat := 255

/-- The slot that an address selects in a node of a level. -/
def slotIndex (addr : UInt64) (level : Nat) : Fin 512 :=
  ⟨addr.toNat / PageSize.bytesAt level % 512, Nat.mod_lt _ (by decide)⟩

namespace Node

variable {α : Type}

def blank : Node α := Vector.replicate 512 .empty

/-- Puts a page in a slot, or counts one more pin of the page there; nothing if that would be one
too many. -/
def pin (n : Node α) (i : Fin 512) (level : Nat) (va : UInt64) : Option (Pinned (Node α)) :=
  match n[i] with
  | .empty => some ⟨n.set i (.leaf ⟨va, 1⟩), 1, none⟩
  | .table _ => some ⟨n.set i (.leaf ⟨va, 1⟩), 1, some (.dropped level)⟩
  | .leaf l =>
    if l.count < maxPinCount then
      some ⟨n.set i (.leaf ⟨va, l.count + 1⟩), l.count + 1, none⟩
    else none

/-- The page in a slot. -/
def leaf? (n : Node α) (i : Fin 512) : Option Leaf :=
  match n[i] with
  | .leaf l => some l
  | _ => none

/-- The subtree in a slot, a blank one if there is none, and the page that gives way to it. -/
def descend (n : Node α) (i : Fin 512) (level : Nat) (fresh : α) : α × Option Displaced :=
  match n[i] with
  | .table t => (t, none)
  | .leaf l => (fresh, some (.split level l.va))
  | .empty => (fresh, none)

end Node

namespace Tree

/-- The tree without pages. -/
def blank : (level : Nat) → Tree level
  | 0 => (Node.blank : Node Empty)
  | level + 1 => (Node.blank : Node (Tree level))

/-- Pins the page of the target level that holds `addr`. A page of a level above the root stands in
the root, in the slot that `addr` selects at the level of the page. -/
def pin (addr va : UInt64) (target : Nat) :
    (level : Nat) → Tree level → Option (Pinned (Tree level))
  | 0, (n : Node Empty) => n.pin (slotIndex addr target) target va
  | level + 1, (n : Node (Tree level)) =>
    if target ≤ level then
      let i := slotIndex addr (level + 1)
      let (child, split) := n.descend i (level + 1) (blank level)
      (pin addr va target level child).map fun r =>
        ⟨n.set i (.table r.table), r.count, split <|> r.displaced⟩
    else n.pin (slotIndex addr target) target va

/-- The page of exactly the target level that holds `addr`. -/
def leafAt? (addr : UInt64) (target : Nat) : (level : Nat) → Tree level → Option Leaf
  | 0, (n : Node Empty) => n.leaf? (slotIndex addr target)
  | level + 1, (n : Node (Tree level)) =>
    if target ≤ level then
      match n[slotIndex addr (level + 1)] with
      | .table t => leafAt? addr target level t
      | _ => none
    else n.leaf? (slotIndex addr target)

/-- Replaces the slot of the target level that `addr` selects, if nodes lead there. -/
def setSlot (addr : UInt64) (target : Nat) (leaf : Option Leaf) :
    (level : Nat) → Tree level → Tree level
  | 0, (n : Node Empty) => n.set (slotIndex addr target) (leaf.elim .empty .leaf)
  | level + 1, (n : Node (Tree level)) =>
    if target ≤ level then
      let i := slotIndex addr (level + 1)
      match n[i] with
      | .table t => n.set i (.table (setSlot addr target leaf level t))
      | _ => n
    else n.set (slotIndex addr target) (leaf.elim .empty .leaf)

/-- The page that holds `addr`, whatever its level. -/
def lookup (addr : UInt64) : (level : Nat) → Tree level → Option Mapping
  | 0, (n : Node Empty) => (n.leaf? (slotIndex addr 0)).map fun l => ⟨l.va, 0, l.count⟩
  | level + 1, (n : Node (Tree level)) =>
    match n[slotIndex addr (level + 1)] with
    | .empty => none
    | .leaf l => some ⟨l.va, level + 1, l.count⟩
    | .table t => lookup addr level t

/-- The slots in use of a tree that starts at address `base`, in order, each node before what is
below it. -/
def occupied (base : Nat) : (level : Nat) → Tree level → List Occupied
  | 0, (n : Node Empty) =>
    n.toList.zipIdx.flatMap fun (slot, i) =>
      match slot with
      | .leaf l => [⟨0, base + i * PageSize.bytesAt 0, some l⟩]
      | _ => []
  | level + 1, (n : Node (Tree level)) =>
    n.toList.zipIdx.flatMap fun (slot, i) =>
      let addr := base + i * PageSize.bytesAt (level + 1)
      match slot with
      | .empty => []
      | .leaf l => [⟨level + 1, addr, some l⟩]
      | .table t => ⟨level + 1, addr, none⟩ :: occupied addr level t

end Tree

/-- The level of the root, whose slots between them span 48 bits of address. -/
def rootLevel : Nat := 3

/-- A radix table of 48-bit addresses; bits above those do not matter. -/
structure RadixTable where
  root : Tree rootLevel

namespace RadixTable

def empty : RadixTable := ⟨Tree.blank rootLevel⟩

/-- Pins the page of a level that holds `addr`, so that it leads to `va`. -/
def pin (t : RadixTable) (addr va : UInt64) (level : Nat) :
    Except IommuError (Pinned RadixTable) :=
  match t.root.pin addr va level rootLevel with
  | some r => .ok ⟨⟨r.table⟩, r.count, r.displaced⟩
  | none => .error (.refcountOverflow addr)

/-- The page of exactly the given level that holds `addr`. -/
def leafAt? (t : RadixTable) (addr : UInt64) (level : Nat) : Option Leaf :=
  t.root.leafAt? addr level rootLevel

/-- Takes back one pin of the page of a level that holds `addr`; the last one clears it. The answer
is the number of pins left. -/
def unpin (t : RadixTable) (addr : UInt64) (level : Nat) : Except IommuError (Nat × RadixTable) :=
  match t.leafAt? addr level with
  | none => .error (.notPinned addr)
  | some l =>
    let left := l.count - 1
    let leaf := if left = 0 then none else some { l with count := left }
    .ok (left, ⟨t.root.setSlot addr level leaf rootLevel⟩)

/-- Clears the page of a level that holds `addr`, however often it is pinned. -/
def remove (t : RadixTable) (addr : UInt64) (level : Nat) : Bool × RadixTable :=
  match t.leafAt? addr level with
  | none => (false, t)
  | some _ => (true, ⟨t.root.setSlot addr level none rootLevel⟩)

/-- The page that holds `addr`. -/
def lookup (t : RadixTable) (addr : UInt64) : Option Mapping := t.root.lookup addr rootLevel

/-- The slots in use, in order of address, each node before what is below it. -/
def occupied (t : RadixTable) : List Occupied := t.root.occupied 0 rootLevel

/-- The number of pages in the table. -/
def pageCount (t : RadixTable) : Nat := t.occupied.countP fun o => o.leaf?.isSome

/-- The address that a device address leads to. -/
def translate (t : RadixTable) (addr : UInt64) : Option UInt64 :=
  (t.lookup addr).map fun m => m.translate addr

end RadixTable

end TlpBridge

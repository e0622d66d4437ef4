import TlpBridge.Iommu.RangeAllocator

/-!
# Allocation by first fit

An allocator that keeps the taken ranges in ascending order and looks for a place from the lowest
address upwards.
-/
namespace TlpBridge

/-- The least multiple of `size` that is not below `n`. -/
def alignUp (n size : Nat) : Nat := (n + size - 1) / size * size

theorem dvd_alignUp (n size : Nat) : size ∣ alignUp n size := Nat.dvd_mul_left ..

theorem le_alignUp (n : Nat) {size : Nat} (h : 0 < size) : n ≤ alignUp n size := by
  have split := Nat.div_add_mod (n + size - 1) size
  have small := Nat.mod_lt (n + size - 1) h
  rw [Nat.mul_comm] at split
  unfold alignUp
  omega

/-- Where a range may start that is not to start before `cursor`. -/
def AllocationPolicy.candidate? (alignment cursor : Nat) : AllocationPolicy → Option Nat
  | firstMatch => some (alignUp cursor alignment)
  | exactMatch start => if cursor ≤ start ∧ alignment ∣ start then some start else none

theorem AllocationPolicy.candidate?_spec {policy : AllocationPolicy} {alignment cursor start : Nat}
    (positive : 0 < alignment) (found : policy.candidate? alignment cursor = some start) :
    alignment ∣ start ∧ cursor ≤ start ∧
      ∀ wanted, policy = .exactMatch wanted → start = wanted := by
  cases policy with
  | firstMatch =>
    obtain rfl := Option.some.inj found
    exact ⟨dvd_alignUp .., le_alignUp _ positive, nofun⟩
  | exactMatch wanted =>
    simp only [candidate?, Option.ite_none_right_eq_some, Option.some.injEq] at found
    obtain ⟨⟨after, aligned⟩, rfl⟩ := found
    exact ⟨aligned, after, fun _ same => AllocationPolicy.exactMatch.inj same⟩

/-- The ranges lie in a range, in ascending order and without overlap. -/
structure Ascending (extent : AddressRange) (taken : List AddressRange) : Prop where
  ordered : taken.Pairwise fun r s => r.stop ≤ s.start
  inside : ∀ r ∈ taken, extent.start ≤ r.start ∧ r.stop ≤ extent.stop

namespace Ascending

variable {extent r : AddressRange} {taken : List AddressRange}

theorem cons_iff : Ascending extent (r :: taken) ↔
    ((extent.start ≤ r.start ∧ r.stop ≤ extent.stop) ∧ ∀ s ∈ taken, r.stop ≤ s.start) ∧
      Ascending extent taken := by
  constructor
  · rintro ⟨ordered, inside⟩
    obtain ⟨first, others⟩ := List.pairwise_cons.1 ordered
    obtain ⟨own, rest⟩ := List.forall_mem_cons.1 inside
    exact ⟨⟨own, first⟩, others, rest⟩
  · rintro ⟨⟨own, first⟩, ordered, inside⟩
    exact ⟨List.pairwise_cons.2 ⟨first, ordered⟩, List.forall_mem_cons.2 ⟨own, inside⟩⟩

theorem erase (h : Ascending extent taken) (r : AddressRange) :
    Ascending extent (taken.erase r) :=
  ⟨h.ordered.sublist List.erase_sublist,
    fun s member => h.inside s (List.mem_of_mem_erase member)⟩

end Ascending

/-- A space of addresses and the ranges of it that are taken. -/
structure FirstFit where
  extent : AddressRange
  taken : List AddressRange
  ascending : Ascending extent taken

namespace FirstFit

variable (policy : AllocationPolicy) (size alignment stop : Nat)

/-- Where a range fits between two addresses. -/
def gap? (cursor stop : Nat) : Option Nat :=
  (policy.candidate? alignment cursor).filter fun start => start + size ≤ stop

/-- The first place from `cursor` on between the given ranges and below `stop`, and the ranges with
the new one among them. -/
def place : (cursor : Nat) → List AddressRange → Option (AddressRange × List AddressRange)
  | cursor, [] =>
    (gap? policy size alignment cursor stop).map fun start => (⟨start, size⟩, [⟨start, size⟩])
  | cursor, r :: rest =>
    match gap? policy size alignment cursor r.start with
    | some start => some (⟨start, size⟩, ⟨start, size⟩ :: r :: rest)
    | none => (place r.stop rest).map fun (new, rest) => (new, r :: rest)

/-- What is true of a new range that was placed among others. -/
structure Placed (cursor : Nat) (extent new : AddressRange) (old taken : List AddressRange) :
    Prop where
  size_eq : new.size = size
  aligned : alignment ∣ new.start
  after : cursor ≤ new.start
  exact : ∀ start, policy = .exactMatch start → new.start = start
  added : taken.Perm (new :: old)
  ascending : Ascending extent taken

variable {policy size alignment stop}

theorem gap?_eq_some {cursor start : Nat} (positive : 0 < alignment)
    (found : gap? policy size alignment cursor stop = some start) :
    alignment ∣ start ∧ cursor ≤ start ∧ start + size ≤ stop ∧
      ∀ wanted, policy = .exactMatch wanted → start = wanted := by
  obtain ⟨candidate, room⟩ := Option.filter_eq_some_iff.1 found
  obtain ⟨aligned, after, exact_⟩ := AllocationPolicy.candidate?_spec positive candidate
  exact ⟨aligned, after, of_decide_eq_true room, exact_⟩

theorem placed_of_place {extent new : AddressRange} {cursor : Nat} {old taken : List AddressRange}
    (positive : 0 < alignment) (ascending : Ascending extent old) (begun : extent.start ≤ cursor)
    (ahead : ∀ r ∈ old, cursor ≤ r.start)
    (found : place policy size alignment extent.stop cursor old = some (new, taken)) :
    Placed policy size alignment cursor extent new old taken := by
  induction old generalizing cursor new taken with
  | nil =>
    obtain ⟨start, gap, same⟩ := Option.map_eq_some_iff.1 found
    obtain ⟨rfl, rfl⟩ := Prod.mk.inj same
    obtain ⟨aligned, after, room, exact_⟩ := gap?_eq_some positive gap
    refine ⟨rfl, aligned, after, exact_, List.Perm.refl _, ?_⟩
    exact Ascending.cons_iff.2 ⟨⟨⟨Nat.le_trans begun after, room⟩, nofun⟩, ascending⟩
  | cons r rest ih =>
    obtain ⟨⟨⟨low, high⟩, first⟩, others⟩ := Ascending.cons_iff.1 ascending
    have reached := ahead r List.mem_cons_self
    have grows : r.start ≤ r.stop := Nat.le_add_right ..
    rw [place] at found
    split at found
    · next start gap =>
      obtain ⟨rfl, rfl⟩ := Prod.mk.inj (Option.some.inj found)
      obtain ⟨aligned, after, room, exact_⟩ := gap?_eq_some positive gap
      have before := Nat.le_trans room grows
      refine ⟨rfl, aligned, after, exact_, List.Perm.refl _, ?_⟩
      refine Ascending.cons_iff.2 ⟨⟨⟨Nat.le_trans begun after, ?_⟩, ?_⟩, ascending⟩
      · exact Nat.le_trans before high
      · intro s member
        rcases List.mem_cons.1 member with rfl | later
        · exact room
        · exact Nat.le_trans before (first s later)
    · obtain ⟨⟨new', taken'⟩, later, same⟩ := Option.map_eq_some_iff.1 found
      obtain ⟨rfl, rfl⟩ := Prod.mk.inj same
      have passed := Nat.le_trans reached grows
      have placed := ih others (Nat.le_trans begun passed) first later
      refine ⟨placed.size_eq, placed.aligned, Nat.le_trans passed placed.after, placed.exact,
        (placed.added.cons r).trans (List.Perm.swap ..), ?_⟩
      refine Ascending.cons_iff.2 ⟨⟨⟨low, high⟩, ?_⟩, placed.ascending⟩
      intro s member
      rcases List.mem_cons.1 (placed.added.mem_iff.1 member) with rfl | old
      · exact placed.after
      · exact first s old

theorem ascending_of_place {s : FirstFit} {new : AddressRange} {taken : List AddressRange}
    (positive : 0 < alignment)
    (found : place policy size alignment s.extent.stop s.extent.start s.taken =
      some (new, taken)) :
    Placed policy size alignment s.extent.start s.extent new s.taken taken :=
  placed_of_place positive s.ascending (Nat.le_refl _)
    (fun r member => (s.ascending.inside r member).1) found

def unavailable : AllocatorError := ⟨"The requested resource is not available."⟩

def allocate (s : FirstFit) (size alignment : Nat) (policy : AllocationPolicy) :
    Except AllocatorError AddressRange × FirstFit :=
  if positive : 0 < alignment then
    match found : place policy size alignment s.extent.stop s.extent.start s.taken with
    | some (new, taken) =>
      (.ok new, ⟨s.extent, taken, (ascending_of_place positive found).ascending⟩)
    | none => (.error unavailable, s)
  else (.error ⟨"Alignment value is invalid."⟩, s)

/-- Gives back a range that was handed out in exactly this form. -/
def free (s : FirstFit) (r : AddressRange) : Except AllocatorError Unit × FirstFit :=
  if r ∈ s.taken then (.ok (), ⟨s.extent, s.taken.erase r, s.ascending.erase r⟩)
  else (.error unavailable, s)

/-- The range between two addresses, unless they are in the wrong order or lie at both ends of all
64 bits. -/
def range (first last : UInt64) : Except AllocatorError AddressRange :=
  if last < first ∨ first = 0 ∧ last = 0xffffffffffffffff then
    .error ⟨"The range specified: " ++ toString first.toNat ++ "-" ++ toString last.toNat ++
      " is not valid."⟩
  else .ok ⟨first.toNat, last.toNat - first.toNat + 1⟩

def ranges : RangeAllocator where
  Space := FirstFit
  range := range
  create base size := .ok ⟨⟨base, size⟩, [], ⟨.nil, nofun⟩⟩
  allocate := allocate
  free := free

def allocator : IovaAllocator where
  toRangeAllocator := ranges
  initial := ⟨⟨0, IovaSpace.limit⟩, [IovaSpace.interruptWindow],
    List.pairwise_singleton .., by decide⟩
  created := rfl

end FirstFit

end TlpBridge

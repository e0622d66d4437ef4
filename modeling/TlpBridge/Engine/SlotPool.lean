import TlpBridge.Tlp.Header

/-!
# Read slots

The outstanding DMA reads of the device. Without a tag mapper the tag of a read is its
slot. With one, slots come from a list of free slots, last in first out, and the tag of
the device stands only in the stored header.
-/
namespace TlpBridge

structure ReadSlot where
  busy : Bool := false
  startCycle : Nat := 0
  /-- The header of the last read in the slot, with the length that its completions have. -/
  request : Option Header := none
deriving DecidableEq, Inhabited

structure SlotPool where
  states : Array ReadSlot
  free : List Nat
  mapped : Bool
deriving DecidableEq

namespace SlotPool

/-- `n` idle slots. -/
def ofCount (n : Nat) (mapped : Bool) : SlotPool :=
  ⟨Array.replicate n {}, List.range n, mapped⟩

/-- Whether a further read finds a slot. Without a mapper that is up to its tag. -/
def hasRoom (s : SlotPool) : Bool := !s.mapped || !s.free.isEmpty

/-- Takes the slot on top of the list of free slots. -/
def takeFree? (s : SlotPool) : Option (Nat × SlotPool) :=
  match s.free with
  | [] => none
  | slot :: rest => some (slot, { s with free := rest })

def isBusy (s : SlotPool) (slot : Nat) : Bool := (s.states[slot]?).any (·.busy)

/-- Marks a slot as busy or idle and nothing else. -/
def setBusy (s : SlotPool) (slot : Nat) (busy : Bool) : SlotPool :=
  { s with states := s.states.modify slot fun state => { state with busy := busy } }

/-- Puts a read into a slot. -/
def occupy (s : SlotPool) (slot : Nat) (cycle : Nat) (request : Header) : SlotPool :=
  { s with states := s.states.modify slot fun _ => ⟨true, cycle, some request⟩ }

/-- Makes a busy slot idle and, with a mapper, puts it on top of the free ones. The stored header
stays. -/
def release (s : SlotPool) (slot : Nat) : SlotPool :=
  if s.isBusy slot then
    { s.setBusy slot false with free := if s.mapped then slot :: s.free else s.free }
  else s

/-- The busy slots in ascending order. -/
def busySlots (s : SlotPool) : List Nat := (List.range s.states.size).filter s.isBusy

theorem isBusy_setBusy (s : SlotPool) (slot : Nat) (busy : Bool) (other : Nat) :
    (s.setBusy slot busy).isBusy other =
      if other = slot then busy && decide (slot < s.states.size) else s.isBusy other := by
  simp only [setBusy, isBusy, Array.getElem?_modify]
  by_cases h : slot = other
  · subst h
    by_cases hs : slot < s.states.size <;> simp [hs]
  · simp [h, Ne.symm h]

theorem isBusy_occupy (s : SlotPool) (slot cycle : Nat) (request : Header) (other : Nat) :
    (s.occupy slot cycle request).isBusy other =
      if other = slot then decide (slot < s.states.size) else s.isBusy other := by
  simp only [occupy, isBusy, Array.getElem?_modify]
  by_cases h : slot = other
  · subst h
    by_cases hs : slot < s.states.size <;> simp [hs]
  · simp [h, Ne.symm h]

@[simp] theorem size_occupy (s : SlotPool) (slot cycle : Nat) (request : Header) :
    (s.occupy slot cycle request).states.size = s.states.size := by
  simp [occupy]

@[simp] theorem size_release (s : SlotPool) (slot : Nat) :
    (s.release slot).states.size = s.states.size := by
  by_cases h : s.isBusy slot <;> simp [release, h, setBusy]

end SlotPool

end TlpBridge

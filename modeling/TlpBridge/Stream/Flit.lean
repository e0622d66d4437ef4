import TlpBridge.Stream.Lane

/-!
# Flits

One beat of a packet stream: a data lane, a user lane whose bit 0 selects the
data-mover encoding, a lane with one keep bit for each data byte, and the mark of a
packet's last beat.
-/
namespace TlpBridge

structure Flit where
  data : Lane
  user : Lane
  keep : Lane
  last : Bool := false
deriving DecidableEq

namespace Flit

/-- The flit with all lanes clear. -/
def blank (dataWidth userWidth : Nat) : Flit :=
  ⟨Lane.zeros dataWidth, Lane.zeros userWidth, Lane.zeros (dataWidth / 8), false⟩

/-- The same lanes, all clear. -/
def reset (f : Flit) : Flit := ⟨f.data.clear, f.user.clear, f.keep.clear, false⟩

/-- The number of whole DWORDs in the data lane. -/
def dwordWidth (f : Flit) : Nat := f.data.dwordWidth

/-- Whether the flit is marked as using the data-mover encoding. -/
def dataMover (f : Flit) : Bool := f.user.testBit 0

def setDataMover (f : Flit) (v : Bool) : Flit := { f with user := f.user.setBit 0 v }

def dwordAt (f : Flit) (i : Nat) : UInt32 := f.data.dwordAt i

/-- Stores a DWORD together with the keep bits of its four bytes. -/
def setDword (f : Flit) (i : Nat) (v : UInt32) (keep : BitVec 4 := 0xf) : Flit :=
  { f with data := f.data.setDword i v, keep := f.keep.setSlice (4 * i) keep }

/-- Stores a run of DWORDs from index `i` on, every byte kept. -/
def setDwords (f : Flit) : Nat → List UInt32 → Flit
  | _, [] => f
  | i, v :: vs => (f.setDword i v).setDwords (i + 1) vs

def render (f : Flit) : String := f.data.render ++ " tkeep " ++ f.keep.render

@[simp] theorem width_data_setDwords (f : Flit) (i : Nat) (vs : List UInt32) :
    (f.setDwords i vs).data.width = f.data.width := by
  induction vs generalizing f i with
  | nil => rfl
  | cons v vs ih => simp [setDwords, ih, setDword]

@[simp] theorem user_setDwords (f : Flit) (i : Nat) (vs : List UInt32) :
    (f.setDwords i vs).user = f.user := by
  induction vs generalizing f i with
  | nil => rfl
  | cons v vs ih => simp [setDwords, ih, setDword]

end Flit

end TlpBridge

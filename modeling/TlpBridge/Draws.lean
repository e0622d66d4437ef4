import TlpBridge.Stream.Parameters

/-!
# Random draws

The draws behind back-pressure, and behind the splitting and reordering of
completions. Decisions compare a draw with fixed thresholds, and a draw of zero always
means full throughput.
-/
namespace TlpBridge

/-- A source of draws. -/
inductive DrawSource where
  /-- A linear congruential generator, whose draws lie below 32768. -/
  | generator (state : UInt64)
  /-- Draws nothing but zero. -/
  | fullBandwidth
  /-- A tape of draws, of which the first `position` are used up. -/
  | tape (draws : Nat → Nat) (position : Nat)

instance : Inhabited DrawSource := ⟨.fullBandwidth⟩

namespace DrawSource

/-- The generator that starts from a seed. -/
def ofSeed (seed : UInt64) : DrawSource := .generator seed

/-- The generator of runs for which nobody names a seed. -/
def standard : DrawSource := ofSeed 1

/-- The tape of the listed draws, with zeros after them. -/
def ofList (draws : List Nat) : DrawSource := .tape (fun i => draws.getD i 0) 0

/-- The source that the runtime switches ask for. -/
def ofOptions (o : Switches) : DrawSource :=
  if o.unlimitedBandwidth then .fullBandwidth else standard

/-- One step of the generator. -/
def step (state : UInt64) : UInt64 := state * 1103515245 + 12345

/-- The next draw and the source after it. -/
def next : DrawSource → Nat × DrawSource
  | .generator state =>
    let state := step state
    (state.toNat / 65536 % 32768, .generator state)
  | .fullBandwidth => (0, .fullBandwidth)
  | .tape draws position => (draws position, .tape draws (position + 1))

/-- The next `n` draws. -/
def take (s : DrawSource) : Nat → List Nat
  | 0 => []
  | n + 1 => s.next.1 :: s.next.2.take n

/-- The draws taken so far from a tape. -/
def drawn : DrawSource → Nat
  | .tape _ position => position
  | _ => 0

end DrawSource

end TlpBridge

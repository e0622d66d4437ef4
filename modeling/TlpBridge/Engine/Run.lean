import TlpBridge.Engine.ToDevice

/-!
# Runs

Calls of the engine cycle after cycle, up to the first that fails.
-/
namespace TlpBridge.Engine

/-- Takes beats of the device, one in each cycle from `cycle` on. -/
def acceptAll (cycle : Nat) : List Flit → Engine → EngineStep Unit
  | [], e => .ok e ()
  | flit :: rest, e => (e.accept cycle flit).andThen fun () e => acceptAll (cycle + 1) rest e

/-- The beats that a run sent, each with its cycle, and the error that stopped it, with the cycle
in which it arose. -/
structure Emission where
  beats : List (Nat × Flit) := []
  stop : Option (Nat × EngineFault) := none

/-- Sends beats for `n` cycles from `cycle` on to a device that is always ready. -/
def emitAll : (n cycle : Nat) → Engine → Step Effect Engine Emission
  | 0, _, e => ⟨{}, e, []⟩
  | n + 1, cycle, e =>
    let first := e.emit cycle true
    match first.answer with
    | .error err => ⟨{ stop := some (cycle, err) }, first.state, first.events⟩
    | .ok flit =>
      let rest := emitAll n (cycle + 1) first.state
      let beats := (flit.map fun f => (cycle, f)).toList
      ⟨{ rest.answer with beats := beats ++ rest.answer.beats }, rest.state,
        first.events ++ rest.events⟩

/-- Asks `n` times whether a beat of the device is accepted. -/
def readyAll : (n : Nat) → Engine → List Bool × Engine
  | 0, e => ([], e)
  | n + 1, e =>
    let (b, e) := e.ready
    let (bs, e) := readyAll n e
    (b :: bs, e)

end TlpBridge.Engine

import TlpBridge.Engine.ToDevice
import TlpBridge.Memory.Service

/-!
# The bridge

An engine whose requests a memory service answers, the two joined by the link that the
engine holds.
-/
namespace TlpBridge

structure Bridge (A : IovaAllocator) where
  engine : Engine
  memory : HostMemory A

namespace Bridge

variable {A : IovaAllocator}

/-- Serves every request that waits in the link. -/
def serve (b : Bridge A) : Step MemoryEvent (Bridge A) Nat :=
  let step := (MemoryService.mk b.memory b.engine.link).serveWaiting
  ⟨step.answer, ⟨{ b.engine with link := step.state.link }, step.state.memory⟩, step.events⟩

/-- Applies a call of the engine. -/
def onEngine {α : Type} (b : Bridge A) (call : Engine → EngineStep α) :
    Step Effect (Bridge A) (Except EngineFault α) :=
  let step := call b.engine
  ⟨step.answer, { b with engine := step.state }, step.events⟩

end Bridge

end TlpBridge

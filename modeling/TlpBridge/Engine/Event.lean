import TlpBridge.Engine.Violation
import TlpBridge.Mmio
import TlpBridge.Trace

/-!
# Effects of the engine

What a call of the engine does beside its answer: it raises interrupts, answers MMIO
requests and reports what happened. Requests to host memory go into its link.
-/
namespace TlpBridge

inductive EngineEvent where
  | violation (cycle : Nat) (cause : Violation) (header : Option Header)
  /-- The flit that caused the violation reported before. -/
  | refusedFlit (flit : Flit)
  /-- A header of the bridge itself that could not be encoded. -/
  | refusedHeader (header : Header)
  | accepted (cycle : Nat) (header : Option Header) (flit : Flit)
  | emitted (cycle : Nat) (header : Option Header) (flit : Flit)
  | mmioReadCompleted (slot cycles : Nat)
  | accessRefused (op : DmaOp) (status : AccessStatus) (pa va : UInt64)
  /-- A response for which there is nobody left. -/
  | responseDropped (tid : UInt16)
  | interruptDropped (vector : UInt16)

namespace EngineEvent

private def endMark (flit : Flit) : String := if flit.last then "eop" else "   "

def record : EngineEvent → Record
  | .violation cycle cause none =>
    ⟨.error, .engine, "cycle " ++ toString cycle ++ ": " ++ cause.message⟩
  | .violation cycle cause (some h) =>
    ⟨.error, .engine, "cycle " ++ toString cycle ++ ": AFU Tx TLP - " ++ cause.message ++
      ":\n  " ++ h.render⟩
  | .refusedFlit flit => ⟨.error, .engine, "  " ++ flit.render⟩
  | .refusedHeader h => ⟨.error, .toDevice, "  " ++ h.render⟩
  | .accepted cycle none flit =>
    ⟨.debug, .stream, "afu_to_host: " ++ toString cycle ++ "     " ++ endMark flit ++ " " ++
      flit.render⟩
  | .accepted cycle (some h) flit =>
    ⟨.debug, .stream, "afu_to_host: " ++ toString cycle ++ " sop " ++ endMark flit ++ " " ++
      h.render ++ " " ++ flit.render⟩
  | .emitted cycle none flit =>
    ⟨.debug, .stream, "host_to_afu: " ++ toString cycle ++ "     " ++ endMark flit ++ " " ++
      flit.render⟩
  | .emitted cycle (some h) flit =>
    ⟨.debug, .stream, "host_to_afu: " ++ toString cycle ++ " sop " ++ endMark flit ++ " " ++
      h.render ++ " " ++ flit.render⟩
  | .mmioReadCompleted slot cycles =>
    ⟨.debug, .fromDevice, "MMIO read slot " ++ toString slot ++ " completed after " ++
      toString cycles ++ " cycles"⟩
  | .accessRefused op status pa va => ⟨.error, .toDevice, accessMessage op status pa va⟩
  | .responseDropped tid =>
    ⟨.warn, .device, "dropping MMIO response tid " ++ toString tid.toNat ++ ": receiver gone"⟩
  | .interruptDropped vector =>
    ⟨.warn, .device, "dropping interrupt " ++ toString vector.toNat ++ ": receiver gone"⟩

end EngineEvent

inductive Effect where
  | interrupt (vector : UInt16)
  | respond (response : MmioResponse)
  | report (event : EngineEvent)

end TlpBridge

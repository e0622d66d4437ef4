/-!
# Reports

What the bridge tells about its work. Each part of it has its own type of events,
kept apart from the answers and the state; a record is the line that an event makes.
-/
namespace TlpBridge

inductive Severity where
  | error
  | warn
  | debug
  | trace
deriving DecidableEq

def Severity.label : Severity → String
  | .error => "ERROR"
  | .warn => "WARN"
  | .debug => "DEBUG"
  | .trace => "TRACE"

/-- The part of the bridge that a record comes from. -/
inductive Origin where
  | invalidationTags
  | iommu
  | hostMemory
  | device
  | engine
  | fromDevice
  | toDevice
  /-- The trace of the beats themselves. -/
  | stream
deriving DecidableEq

structure Record where
  severity : Severity
  origin : Origin
  text : String
deriving DecidableEq

/-- One operation on a state: what it answers, the state it leaves and the events it reports, in
order. -/
structure Step (ε σ α : Type) where
  answer : α
  state : σ
  events : List ε := []

end TlpBridge

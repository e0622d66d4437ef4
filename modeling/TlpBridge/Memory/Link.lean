import TlpBridge.Memory.Request

/-!
# The link to host memory

The queues between the engine, which posts requests, and the service of host memory,
which posts responses. Neither end waits for the other, and either can go away: with
the service go the requests it has not taken, while responses already posted stay.
-/
namespace TlpBridge

structure MemoryLink where
  requests : List MemoryRequest := []
  readResponses : List ReadResponse := []
  writeResponses : List WriteResponse := []
  engineAttached : Bool := true
  serviceAttached : Bool := true
deriving DecidableEq

namespace MemoryLink

/-- The text of the error that one end of the link is gone. -/
def disconnectedMessage : String := "host memory channel disconnected"

/-- Posts a request, or nothing if either end is gone. -/
def send (l : MemoryLink) (r : MemoryRequest) : Option MemoryLink :=
  if l.engineAttached ∧ l.serviceAttached then some { l with requests := l.requests ++ [r] }
  else none

/-- What a look into a queue of responses finds. -/
inductive Received (α : Type) where
  | item (a : α)
  | empty
  /-- The queue is empty and nobody is left to fill it. -/
  | disconnected

/-- Takes the next response of a queue. -/
def receive {α : Type} (attached : Bool) : List α → Received α × List α
  | a :: rest => (.item a, rest)
  | [] => (if attached then .empty else .disconnected, [])

def receiveRead (l : MemoryLink) : Received ReadResponse × MemoryLink :=
  match receive l.serviceAttached l.readResponses with
  | (r, rest) => (r, { l with readResponses := rest })

def receiveWrite (l : MemoryLink) : Received WriteResponse × MemoryLink :=
  match receive l.serviceAttached l.writeResponses with
  | (r, rest) => (r, { l with writeResponses := rest })

/-- Takes every response to a read that has been posted. -/
def takeReads (l : MemoryLink) : List ReadResponse × MemoryLink :=
  (l.readResponses, { l with readResponses := [] })

/-- Takes every response to a write that has been posted. -/
def takeWrites (l : MemoryLink) : List WriteResponse × MemoryLink :=
  (l.writeResponses, { l with writeResponses := [] })

/-- The responses that a look into both queues finds. If the service is gone, the queue of writes is
not looked at. -/
structure Poll where
  reads : List ReadResponse
  writes? : Option (List WriteResponse)

/-- Takes every response that has been posted. -/
def poll (l : MemoryLink) : Poll × MemoryLink :=
  let (reads, l) := l.takeReads
  if l.serviceAttached then
    let (writes, l) := l.takeWrites
    (⟨reads, some writes⟩, l)
  else (⟨reads, none⟩, l)

/-- Posts a response, or nothing if the engine is gone. -/
def postRead (l : MemoryLink) (r : ReadResponse) : Option MemoryLink :=
  if l.engineAttached then some { l with readResponses := l.readResponses ++ [r] } else none

def postWrite (l : MemoryLink) (r : WriteResponse) : Option MemoryLink :=
  if l.engineAttached then some { l with writeResponses := l.writeResponses ++ [r] } else none

/-- Takes the next request. -/
def takeRequest (l : MemoryLink) : Option (MemoryRequest × MemoryLink) :=
  match l.requests with
  | [] => none
  | r :: rest => some (r, { l with requests := rest })

/-- The service goes away. -/
def detachService (l : MemoryLink) : MemoryLink :=
  { l with requests := [], serviceAttached := false }

/-- The engine goes away. -/
def detachEngine (l : MemoryLink) : MemoryLink :=
  { l with readResponses := [], writeResponses := [], engineAttached := false }

end MemoryLink

end TlpBridge

import TlpBridge.Trace
import TlpBridge.Word.Power

/-!
# Invalidation tags

Tags for outstanding invalidation requests. The host takes the lowest free tag; the
device completes a request one or more times and says in every completion how many
there are. The tag is free again with the last of them.
-/
namespace TlpBridge

open scoped Power

/-- A request that is outstanding. -/
structure TagState where
  setCycle : Nat
  /-- The number of completions, known from the first. -/
  expected : Option Nat := none
  received : Nat := 0
deriving DecidableEq, Inhabited

/-- Why a completion or a check fails. -/
inductive InvalidationError where
  | notBusy (tag : Nat)
  | countMismatch (tag expected got : Nat)
  | timeout (tag cycles : Nat)
deriving DecidableEq

namespace InvalidationError

def message : InvalidationError → String
  | .notBusy tag => "released itag " ++ toString tag ++ " is not busy"
  | .countMismatch tag expected got =>
    "itag " ++ toString tag ++ " completion count " ++ toString got ++
      " differs from the first response (" ++ toString expected ++ ")"
  | .timeout tag cycles =>
    "ATS invalidation request has no completion (itag " ++ toString tag ++ ", " ++
      toString cycles ++ " cycles)"

/-- The line with which an error is reported where it arises. -/
def record (e : InvalidationError) : Record :=
  ⟨.error, .invalidationTags,
    match e with
    | .notBusy tag => "released itag " ++ toString tag ++ " is not busy"
    | .countMismatch tag expected got =>
      "itag " ++ toString tag ++ ": cc must be the same on all responses (" ++ toString got ++
        ", expected " ++ toString expected ++ ")"
    | .timeout tag _ =>
      "PCIe ATS invalidation request has no completion (itag " ++ toString tag ++ ")"⟩

end InvalidationError

/-- The tags, and the cycle of the last check. -/
structure InvalidationTags where
  tags : Vector (Option TagState) 32 := Vector.replicate 32 none
  cycle : Nat := 0
deriving DecidableEq

namespace InvalidationTags

/-- A request may stay outstanding for this many cycles. -/
def timeoutCycles : Nat := 10000

/-- A completion count of zero stands for this. -/
def countOfZero : Nat := 8

def isBusy (t : InvalidationTags) (tag : Fin 32) : Bool := t.tags[tag].isSome

/-- The lowest free tag. -/
def firstFree? (t : InvalidationTags) : Option (Fin 32) :=
  (List.finRange 32).find? fun tag => !t.isBusy tag

/-- Takes the lowest free tag, if there is one. -/
def alloc? (t : InvalidationTags) : Option (Fin 32 × InvalidationTags) :=
  t.firstFree?.map fun tag =>
    (tag, { t with tags := t.tags.set tag (some { setCycle := t.cycle }) })

/-- Records one completion of a tag that announces `count` completions in all. -/
def completeOne (t : InvalidationTags) (tag : Fin 32) (count : Nat) :
    Except InvalidationError InvalidationTags :=
  match t.tags[tag] with
  | none => .error (.notBusy tag)
  | some s =>
    let expected := s.expected.getD count
    if expected ≠ count then .error (.countMismatch tag expected count)
    else
      let s := { s with expected := some count, received := s.received + 1 }
      .ok { t with tags := t.tags.set tag (if s.received = count then none else some s) }

/-- Records a completion of each of the listed tags, up to the first that fails. -/
def completeAll (count : Nat) : List (Fin 32) → InvalidationTags →
    Step InvalidationError InvalidationTags (Except InvalidationError Unit)
  | [], t => ⟨.ok (), t, []⟩
  | tag :: rest, t =>
    match t.completeOne tag count with
    | .error e => ⟨.error e, t, [e]⟩
    | .ok t => completeAll count rest t

/-- The tags whose bits are set in a vector, in ascending order. -/
def ofVector (vec : UInt32) : List (Fin 32) :=
  (List.finRange 32).filter fun tag => vec.toNat.testBit tag

/-- Records one completion for every tag set in `vec`. -/
def complete (t : InvalidationTags) (vec : UInt32) (count : UInt8) :
    Step InvalidationError InvalidationTags (Except InvalidationError Unit) :=
  completeAll (if count = 0 then countOfZero else count.toNat) (ofVector vec) t

/-- The first tag that has been busy for too long at a cycle, and for how long. -/
def overdue? (t : InvalidationTags) (cycle : Nat) : Option InvalidationError :=
  (List.finRange 32).findSome? fun tag =>
    t.tags[tag].bind fun s =>
      if timeoutCycles < cycle - s.setCycle then some (.timeout tag (cycle - s.setCycle)) else none

/-- Moves time on and reports the first tag that is overdue. The tag stays taken. -/
def advance (t : InvalidationTags) (cycle : Nat) :
    Step InvalidationError InvalidationTags (Except InvalidationError Unit) :=
  let t := { t with cycle := cycle }
  match t.overdue? cycle with
  | some e => ⟨.error e, t, [e]⟩
  | none => ⟨.ok (), t, []⟩

/-- The vector of the busy tags. -/
def busyMask (t : InvalidationTags) : Nat :=
  (List.finRange 32).foldr (fun tag n => (if t.isBusy tag then 2 ^ tag.val else 0) + n) 0

end InvalidationTags

end TlpBridge

import TlpBridge.Tlp.Encoding

/-!
# Packets as beats

A packet on the stream is its eight header DWORDs and its payload without gaps, in as
many beats as they need; only the final beat is marked as the last.
-/
namespace TlpBridge.Packet

/-- The beats that a payload fills, none of them marked as the last. -/
def payloadBeats (blank : Flit) (payload : List UInt32) : List Flit :=
  if 0 < blank.dwordWidth ∧ payload ≠ [] then
    blank.setDwords 0 (payload.take blank.dwordWidth) ::
      payloadBeats blank (payload.drop blank.dwordWidth)
  else []
termination_by payload.length
decreasing_by
  rename_i h
  have := List.length_pos_iff.2 h.2
  simp only [List.length_drop]
  omega

/-- Marks the last of some beats. -/
def markLast : List Flit → List Flit
  | [] => []
  | [f] => [{ f with last := true }]
  | f :: g :: rest => f :: markLast (g :: rest)

/-- The beats of a packet on lanes of the given widths. -/
def beats (dataWidth userWidth : Nat) (h : Header) (payload : List UInt32) :
    Except EncodingError (List Flit) :=
  let blank := Flit.blank dataWidth userWidth
  let room := blank.dwordWidth - HeaderWords.count
  match blank.storeHeader h with
  | .error cause => .error cause
  | .ok flit =>
    .ok <| markLast <|
      flit.setDwords HeaderWords.count (payload.take room) ::
        payloadBeats blank (payload.drop room)

end TlpBridge.Packet

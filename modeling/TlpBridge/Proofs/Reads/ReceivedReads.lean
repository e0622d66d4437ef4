import TlpBridge.Proofs.ToDevice.Beats
import TlpBridge.Proofs.Reads.DeviceSession
import TlpBridge.Proofs.Word.DwordImages

/-!
# What is received of a read

The completions that a device gets for one read bring its data in order and without gap,
each under the names of the read.
-/
namespace TlpBridge

namespace Header

/-- The address of the first byte that a completion from DWORD `offset` on carries, as far as the
header of a completion shows it. -/
def lowAddress (h : Header) (offset : Nat) : Nat :=
  let r := h.effectiveRequest (h.request?.getD {})
  (r.addr.toNat + 4 * offset +
    if offset = 0 then ByteEnable.leadingGap r.firstEnable else 0) % 128

/-- Completions of both requests from DWORD `offset` on go under the same names. -/
structure SameOrigin (h h' : Header) (offset : Nat) : Prop where
  tag : h.tag = h'.tag
  requesterId : h.requesterId = h'.requesterId
  pf : h.routing.pf = h'.routing.pf
  vf : h.routing.vf = h'.routing.vf
  vfActive : h.routing.vfActive = h'.routing.vfActive
  lowAddress : h.lowAddress offset = h'.lowAddress offset

/-- The header of a completion that brings the data of a request from DWORD `offset` on. -/
structure Completes (g h : Header) (offset : Nat) : Prop where
  kind : g.fmtType = .completionData
  tag : g.tag = h.tag
  requesterId : g.requesterId = h.requesterId
  pf : g.routing.pf = h.routing.pf
  vf : g.routing.vf = h.routing.vf
  vfActive : g.routing.vfActive = h.routing.vfActive
  lowAddress : ∃ c, g.completion? = some c ∧ c.lowerAddr.toNat = h.lowAddress offset

theorem Completes.of_sameOrigin {g h h' : Header} {offset : Nat} (completes : g.Completes h offset)
    (same : h.SameOrigin h' offset) : g.Completes h' offset := by
  obtain ⟨c, body, low⟩ := completes.lowAddress
  exact ⟨completes.kind, completes.tag.trans same.tag,
    completes.requesterId.trans same.requesterId, completes.pf.trans same.pf,
    completes.vf.trans same.vf, completes.vfActive.trans same.vfActive, c, body,
    low.trans same.lowAddress⟩

theorem Completes.sameOrigin {g h h' : Header} {offset : Nat} (completes : g.Completes h offset)
    (completes' : g.Completes h' offset) : h.SameOrigin h' offset := by
  obtain ⟨c, body, low⟩ := completes.lowAddress
  obtain ⟨c', body', low'⟩ := completes'.lowAddress
  obtain rfl : c = c' := Option.some.inj (body.symm.trans body')
  exact ⟨completes.tag.symm.trans completes'.tag,
    completes.requesterId.symm.trans completes'.requesterId, completes.pf.symm.trans completes'.pf,
    completes.vf.symm.trans completes'.vf, completes.vfActive.symm.trans completes'.vfActive,
    low.symm.trans low'⟩

end Header

theorem CompletionPacket.completes_header (c : CompletionPacket) (h : Header)
    (first : c.isFirst = decide (c.startDword = 0)) {r : RequestBody} (body : h.body = .request r) :
    (c.header (h.stored r)).Completes h c.startDword := by
  refine ⟨rfl, rfl, rfl, rfl, rfl, rfl, _, rfl, ?_⟩
  have request : h.request? = some r := by rw [Header.request?, body]
  have kept : (h.stored r).request? = some (h.effectiveRequest r) := rfl
  simp only [kept, Option.getD_some, first, decide_eq_true_eq, Header.lowAddress, request]
  rw [UInt32.toNat_ofNat', Nat.mod_eq_of_lt (by omega)]

theorem CompletionPacket.dwordSize_header {c : CompletionPacket} (encodable : c.Encodable)
    (h : Header) : (c.header h).dwordSize = c.dwordSize := by
  have short := encodable.short
  change ((UInt32.ofNat c.byteSize).toNat + 3) / 4 = (c.byteSize + 3) / 4
  rw [UInt32.toNat_ofNat', Nat.mod_eq_of_lt (by omega)]

namespace ReceivedPacket

theorem completes_iff (p : ReceivedPacket) (i : Nat) :
    p.completes i ↔ ∃ part, p.part = some part ∧ part.read = i := by
  simp [completes, Option.any_eq_true]

/-- The packet completes the read from DWORD `start` of its data on; what it has brought is the
data from there. -/
structure Brings (p : ReceivedPacket) (i : Nat) (h : Header) (data : List UInt32) (start : Nat) :
    Prop where
  part : p.part = some ⟨i, start, decide (start + p.header.dwordSize = data.length)⟩
  header : p.header.Completes h start
  nonempty : 0 < p.header.dwordSize
  inside : start + p.header.dwordSize ≤ data.length
  payload : p.payload = (data.drop start).take p.payload.length
  bounded : p.payload.length ≤ p.header.dwordSize

theorem Brings.announced {p : ReceivedPacket} {i start : Nat} {h : Header} {data : List UInt32}
    (brings : p.Brings i h data start) : p.announced = p.header.dwordSize := by
  have carries : FmtType.completionData.carriesData := by decide
  rw [ReceivedPacket.announced, brings.header.kind, if_pos carries]

/-- A beat that goes on with the data brings the packet further. -/
theorem Brings.extend {p : ReceivedPacket} {i start : Nat} {h : Header} {data : List UInt32}
    (brings : p.Brings i h data start) {f : Flit} {place left : Nat}
    (rest : p.payload.length + left = p.header.dwordSize)
    (more : f.dwordsAt place (min left (f.dwordWidth - place)) =
      (data.drop (start + p.payload.length)).take (min left (f.dwordWidth - place))) :
    (p.extend f place).Brings i h data start ∧ (p.extend f place).payload.length =
      p.payload.length + min left (f.dwordWidth - place) := by
  have owed : p.announced - p.payload.length = left := by
    rw [brings.announced]
    omega
  have payload : (p.extend f place).payload = p.payload ++
      (data.drop (start + p.payload.length)).take (min left (f.dwordWidth - place)) := by
    rw [ReceivedPacket.extend, owed, more]
  have inside := brings.inside
  have length : (p.extend f place).payload.length =
      p.payload.length + min left (f.dwordWidth - place) := by
    rw [payload, List.length_append, List.length_take, List.length_drop]
    omega
  refine ⟨⟨brings.part, brings.header, brings.nonempty, brings.inside, ?_, ?_⟩, length⟩
  · rw [length, payload, List.take_add, List.drop_drop, ← brings.payload]
  · rw [length]
    change _ ≤ p.header.dwordSize
    omega

end ReceivedPacket

/-- Packets that bring the data of a read from one DWORD up to another. -/
def BringRange (i : Nat) (h : Header) (data : List UInt32) :
    (start : Nat) → List ReceivedPacket → (stop : Nat) → Prop
  | start, [], stop => start = stop
  | start, p :: ps, stop =>
    p.Brings i h data start ∧ p.payload.length = p.header.dwordSize ∧
      BringRange i h data (start + p.header.dwordSize) ps stop

namespace BringRange

variable {i : Nat} {h : Header} {data : List UInt32} {start stop : Nat}
  {ps : List ReceivedPacket} {p : ReceivedPacket}

theorem snoc (range : BringRange i h data start ps stop) (brings : p.Brings i h data stop)
    (whole : p.payload.length = p.header.dwordSize) :
    BringRange i h data start (ps ++ [p]) (stop + p.header.dwordSize) := by
  induction ps generalizing start with
  | nil =>
    change start = stop at range
    subst range
    exact ⟨brings, whole, rfl⟩
  | cons q qs ih => exact ⟨range.1, range.2.1, ih range.2.2⟩

theorem le (range : BringRange i h data start ps stop) : start ≤ stop := by
  induction ps generalizing start with
  | nil => exact Nat.le_of_eq range
  | cons q qs ih =>
    have rest := ih range.2.2
    omega

/-- Together the packets have brought the data between both ends. -/
theorem payload_eq (range : BringRange i h data start ps stop) :
    ps.flatMap (·.payload) = (data.drop start).take (stop - start) := by
  induction ps generalizing start with
  | nil =>
    change start = stop at range
    rw [range, Nat.sub_self]
    rfl
  | cons q qs ih =>
    obtain ⟨brings, whole, rest⟩ := range
    have later := rest.le
    have split : stop - start = q.header.dwordSize + (stop - (start + q.header.dwordSize)) := by
      omega
    rw [List.flatMap_cons, ih rest, split, List.take_add, List.drop_drop]
    congr 1
    rw [brings.payload, whole]

theorem brings_getElem? (range : BringRange i h data start ps stop) {k : Nat}
    (place : ps[k]? = some p) :
    p.Brings i h data (start + ((ps.take k).map fun q => q.header.dwordSize).sum) := by
  induction ps generalizing start k with
  | nil => cases place
  | cons q qs ih =>
    cases k with
    | zero =>
      obtain rfl : q = p := Option.some.inj place
      exact range.1
    | succ k =>
      have rest := ih range.2.2 place
      rw [List.take_succ_cons, List.map_cons, List.sum_cons, ← Nat.add_assoc]
      exact rest

theorem stop_eq (range : BringRange i h data start ps stop) :
    stop = start + (ps.map fun q => q.header.dwordSize).sum := by
  induction ps generalizing start with
  | nil => exact (show start = stop from range).symm
  | cons q qs ih => rw [ih range.2.2, List.map_cons, List.sum_cons, Nat.add_assoc]

theorem whole_of_mem (range : BringRange i h data start ps stop) (member : p ∈ ps) :
    p.payload.length = p.header.dwordSize := by
  induction ps generalizing start with
  | nil => cases member
  | cons q qs ih =>
    rcases List.mem_cons.1 member with rfl | later
    · exact range.2.1
    · exact ih range.2.2 later

theorem stop_le (range : BringRange i h data start ps stop) (inside : start ≤ data.length) :
    stop ≤ data.length := by
  induction ps generalizing start with
  | nil => exact (show start = stop from range) ▸ inside
  | cons q qs ih => exact ih range.2.2 range.1.inside

theorem stop_eq_of_isLast (range : BringRange i h data start ps stop) (member : p ∈ ps)
    (last : p.part.any (·.isLast)) : stop = data.length := by
  induction ps generalizing start with
  | nil => cases member
  | cons q qs ih =>
    obtain ⟨brings, -, rest⟩ := range
    rcases List.mem_cons.1 member with rfl | later
    · rw [brings.part] at last
      have ends : start + p.header.dwordSize = data.length := of_decide_eq_true last
      exact Nat.le_antisymm (rest.stop_le brings.inside) (ends ▸ rest.le)
    · exact ih rest later

end BringRange

namespace CarriesRange

variable {slot : Nat} {h : Header} {data : List UInt32} {start stop : Nat}
  {cs : List CompletionPacket} {c : CompletionPacket}

theorem carries_of_mem (range : CarriesRange slot h data start cs stop) (member : c ∈ cs) :
    c.Carries slot h data c.startDword := by
  induction cs generalizing start with
  | nil => cases member
  | cons d ds ih =>
    rcases List.mem_cons.1 member with rfl | later
    · exact range.1.begins ▸ range.1
    · exact ih range.2 later

theorem eq_nil (range : CarriesRange slot h data h.dwordSize cs stop) : cs = [] := by
  cases cs with
  | nil => rfl
  | cons d ds =>
    have inside := range.1.inside
    have nonempty := range.1.nonempty
    omega

end CarriesRange

end TlpBridge

import TlpBridge.Tlp.FmtType
import TlpBridge.Word.Power

/-!
# TLP headers

The decoded form of a header, in which the rest of the bridge handles packets. What
a header holds beside the common fields depends on its kind and stands in its body.
-/
namespace TlpBridge

open scoped Power

/-- The address type of a memory request. -/
inductive AddressType where
  /-- An IOVA, translated by the IOMMU. -/
  | untranslated
  /-- A translation request, whose completion carries physical addresses. -/
  | translationRequest
  /-- A physical address that an earlier translation request gave out. -/
  | translated
  | reserved
deriving DecidableEq, Inhabited

namespace AddressType

/-- The type that the two low bits of a number stand for. -/
def ofBits (n : Nat) : AddressType :=
  match n % 4 with
  | 0 => .untranslated
  | 1 => .translationRequest
  | 2 => .translated
  | _ => .reserved

def toBits : AddressType → Nat
  | .untranslated => 0
  | .translationRequest => 1
  | .translated => 2
  | .reserved => 3

@[simp] theorem ofBits_toBits (a : AddressType) : ofBits a.toBits = a := by
  cases a <;> rfl

theorem toBits_lt (a : AddressType) : a.toBits < 4 := by
  cases a <;> decide

theorem toBits_ofBits (n : Nat) : (ofBits n).toBits = n % 4 := by
  have h : n % 4 < 4 := Nat.mod_lt _ (by decide)
  unfold ofBits
  split <;> simp_all [toBits]
  omega

end AddressType

/-- The attribute bits of a request. -/
structure Attributes where
  lightweight : Bool := false
  hints : Bool := false
  digest : Bool := false
  poisoned : Bool := false
  addressType : AddressType := .untranslated
deriving DecidableEq, Inhabited

/-- The body of a memory request. Each byte enable is a mask of four bits. -/
structure RequestBody where
  addr : UInt64 := 0
  firstEnable : UInt8 := 0
  lastEnable : UInt8 := 0
  attributes : Attributes := {}
deriving DecidableEq, Inhabited

/-- The body of a completion. -/
structure CompletionBody where
  completerId : UInt16 := 0
  status : UInt8 := 0
  byteCountModified : Bool := false
  /-- The bytes that remain of the whole request, this packet included. -/
  byteCount : UInt16 := 0
  lowerAddr : UInt32 := 0
  /-- The final completion of a data-mover request. -/
  finalCompletion : Bool := false
deriving DecidableEq, Inhabited

inductive PacketBody where
  | request (body : RequestBody)
  | completion (body : CompletionBody)
  | interrupt (vector : UInt16)
  /-- Only the common fields mean anything. -/
  | other
deriving DecidableEq, Inhabited

/-- Which function and which resource of it a packet belongs to. -/
structure Routing where
  bar : UInt8 := 0
  memoryMapped : Bool := false
  slot : UInt8 := 0
  vfActive : Bool := false
  vf : UInt16 := 0
  pf : UInt8 := 0
deriving DecidableEq, Inhabited

/-- The PF and VF numbers in the layout of requester and completer identifiers; bits of the
VF number that the layout has no room for are dropped. -/
def functionId (vf : UInt16) (vfActive : Bool) (pf : UInt8) : UInt16 :=
  UInt16.ofNat (vf.toNat * 16 + vfActive.toNat * 8 + pf.toNat % 8)

def Routing.functionId (r : Routing) : UInt16 := TlpBridge.functionId r.vf r.vfActive r.pf

/-- The TLP prefix that may accompany a header. -/
structure PrefixWord where
  present : Bool := false
  kind : UInt8 := 0
  value : UInt32 := 0
deriving DecidableEq, Inhabited

namespace PrefixWord

/-- The kind of a prefix that carries a process address space identifier (PASID). -/
def pasidKind : UInt8 := 0x11

/-- The prefix that carries the low twenty bits of a PASID. -/
def ofPasid (pasid : UInt32) : PrefixWord :=
  ⟨true, pasidKind, UInt32.ofNat (pasid.toNat % 2 ^ (20 : Nat))⟩

def pasid? (p : PrefixWord) : Option UInt32 :=
  if p.present ∧ p.kind = pasidKind then some (UInt32.ofNat (p.value.toNat % 2 ^ (20 : Nat)))
  else none

end PrefixWord

/-- A decoded TLP header. -/
structure Header where
  fmtType : FmtType
  /-- The data-mover encoding, as opposed to the power-user encoding. -/
  dataMover : Bool := false
  byteSize : UInt32 := 0
  requesterId : UInt16 := 0
  tag : UInt16 := 0
  metadata : UInt64 := 0
  routing : Routing := {}
  prefixWord : PrefixWord := {}
  body : PacketBody := .other
deriving DecidableEq, Inhabited

/-- The zero body of the variant that a fmt/type byte calls for. -/
def FmtType.emptyBody (ft : FmtType) : PacketBody :=
  if ft.isMemoryRequest then .request {}
  else if ft.isCompletion then .completion {}
  else if ft.isInterrupt then .interrupt 0
  else .other

namespace Header

/-- A header of the given kind with every field zero. -/
def ofFmtType (ft : FmtType) : Header := { fmtType := ft, body := ft.emptyBody }

def request? (h : Header) : Option RequestBody :=
  match h.body with
  | .request r => some r
  | _ => none

def completion? (h : Header) : Option CompletionBody :=
  match h.body with
  | .completion c => some c
  | _ => none

def vector? (h : Header) : Option UInt16 :=
  match h.body with
  | .interrupt v => some v
  | _ => none

def pasid? (h : Header) : Option UInt32 := h.prefixWord.pasid?

/-- The length in DWORDs, a part of one counting as a whole. -/
def dwordSize (h : Header) : Nat := (h.byteSize.toNat + 3) / 4

private def renderBase (h : Header) : String :=
  h.fmtType.mnemonic ++ (if h.dataMover then " DM" else " PU") ++
    " len_bytes " ++ Text.hexPadded0x 4 h.byteSize.toNat ++
    (if h.prefixWord.present then
      if h.prefixWord.kind = PrefixWord.pasidKind then
        " [pasid " ++ Text.hex0x h.prefixWord.value.toNat ++ "]"
      else
        " [prefix type " ++ Text.hex0x h.prefixWord.kind.toNat ++
          " value " ++ Text.hex0x h.prefixWord.value.toNat ++ "]"
    else "")

private def renderIds (h : Header) : String :=
  " req_id " ++ Text.hexPadded0x 4 h.requesterId.toNat ++
    " tag " ++ Text.hexPadded0x 2 h.tag.toNat

/-- The one-line text of a header in traces and error messages. -/
def render (h : Header) : String :=
  h.renderBase ++
    match h.body with
    | .request r =>
      h.renderIds ++ " [AT " ++ Text.hex r.attributes.addressType.toBits ++ "]" ++
        (if h.dataMover then ""
         else " lbe " ++ Text.hex0x r.lastEnable.toNat ++
           " fbe " ++ Text.hex0x r.firstEnable.toNat) ++
        " addr " ++ Text.hexPadded0x 16 r.addr.toNat
    | .completion c =>
      " cpl_id " ++ Text.hexPadded0x 4 c.completerId.toNat ++
        " st " ++ Text.hex c.status.toNat ++
        " bcm " ++ Text.hex c.byteCountModified.toNat ++
        " fc " ++ Text.hex c.finalCompletion.toNat ++
        " bytes " ++ Text.hexPadded0x 3 c.byteCount.toNat ++
        h.renderIds ++ " low_addr " ++ Text.hexPadded0x 2 c.lowerAddr.toNat
    | .interrupt v => " vector_num " ++ Text.hex0x v.toNat
    | .other => ""

end Header

end TlpBridge

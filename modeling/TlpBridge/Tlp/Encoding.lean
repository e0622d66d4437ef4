import TlpBridge.Stream.Flit
import TlpBridge.Tlp.Header
import TlpBridge.Tlp.Layout
import TlpBridge.Word.Power

/-!
# Header encoding

Headers as the eight DWORDs at the start of a flit. Power-user headers follow the
standard layout, with lengths in DWORDs and byte enables. Data-mover requests count
bytes, spread over several DWORDs; data-mover completions are not modelled.

A header is encoded only if `Header.fault?` finds nothing that its layout would lose.
-/
namespace TlpBridge

open scoped Power

/-- The two encodings of a header. -/
inductive EncodingMode where
  | powerUser
  | dataMover
deriving DecidableEq

def EncodingMode.label : EncodingMode → String
  | .powerUser => "PU"
  | .dataMover => "DM"

/-- The layouts that leave out fields which decoding restores. -/
inductive HeaderLayout where
  | dataMoverRequest
  | powerUserCompletion
  | interrupt
  | generic
deriving DecidableEq

def HeaderLayout.label : HeaderLayout → String
  | .dataMoverRequest => "DM request"
  | .powerUserCompletion => "PU completion"
  | .interrupt => "interrupt"
  | .generic => "generic"

/-- The header fields that an encoding can refuse. -/
inductive HeaderField where
  | tag
  | requesterId
  | byteSize
  | firstEnable
  | lastEnable
  | addr
  | addrLow
  | byteCount
  | finalCompletion
  | status
  | lowerAddr
  | bar
  | slot
  | vf
  | pf
  | prefixKind
  | prefixValue
deriving DecidableEq

def HeaderField.label : HeaderField → String
  | .tag => "tag"
  | .requesterId => "req_id"
  | .byteSize => "len_bytes"
  | .firstEnable => "first_dw_be"
  | .lastEnable => "last_dw_be"
  | .addr => "addr"
  | .addrLow => "addr[1:0]"
  | .byteCount => "byte_count"
  | .finalCompletion => "fc"
  | .status => "cpl_status"
  | .lowerAddr => "low_addr"
  | .bar => "bar_number"
  | .slot => "slot_num"
  | .vf => "vf_num"
  | .pf => "pf_num"
  | .prefixKind => "pref_type"
  | .prefixValue => "pref"

/-- Packets that have no encoding in the mode asked for. -/
inductive UnsupportedPacket where
  | dataMoverCompletion
  | powerUserInterrupt
deriving DecidableEq

/-- Why a header cannot be encoded or decoded. -/
inductive EncodingError where
  | unsupported (packet : UnsupportedPacket)
  | lengthOutOfRange (byteSize : UInt32) (mode : EncodingMode)
  | fieldOverflow (field : HeaderField) (value : Nat)
  | notCarried (layout : HeaderLayout) (field : HeaderField) (value : Nat)
  | bodyMismatch (fmtType : FmtType)
  | unknownKind (cause : UnknownKind)
  | truncated
deriving DecidableEq

def EncodingError.message : EncodingError → String
  | .unsupported .dataMoverCompletion => "data mover completion encoding is not supported"
  | .unsupported .powerUserInterrupt =>
    "data mover interrupt in PU mode, which encoding is not supported"
  | .lengthOutOfRange len mode =>
    mode.label ++ " header cannot carry a length of " ++ toString len.toNat ++ " bytes"
  | .fieldOverflow field value =>
    field.label ++ " value " ++ Text.hex0x value ++ " does not fit its header field"
  | .notCarried layout field value =>
    layout.label ++ " header has no room for " ++ field.label ++ " " ++ Text.hex0x value
  | .bodyMismatch ft =>
    "header body does not match fmt/type " ++ Text.hexPadded0x 2 ft.code.toNat
  | .unknownKind e => e.message
  | .truncated => "tdata is narrower than a TLP header"

/-- Lengths of power-user headers lie below this: ten bits of DWORDs. -/
def powerUserLengthLimit : Nat := 4096

/-- Lengths of data-mover requests lie below this: twenty-four bits of bytes. -/
def dataMoverLengthLimit : Nat := 2 ^ (24 : Nat)

namespace Header

/-- A value that its field has too few bits for. -/
def overflow? (field : HeaderField) (value bits : Nat) : Option EncodingError :=
  if value < 2 ^ bits then none else some (.fieldOverflow field value)

/-- A field that the layout leaves out, and that does not hold the value decoding restores. -/
def dropped? (layout : HeaderLayout) (field : HeaderField) (value restored : Nat) :
    Option EncodingError :=
  if value = restored then none else some (.notCarried layout field value)

/-- A length that is not a number of DWORDs of ten bits. -/
def powerUserLengthFault? (byteSize : UInt32) : Option EncodingError :=
  if byteSize.toNat % 4 = 0 ∧ byteSize.toNat < powerUserLengthLimit then none
  else some (.lengthOutOfRange byteSize .powerUser)

def dataMoverRequestFault? (h : Header) (r : RequestBody) : Option EncodingError :=
  (if h.byteSize.toNat < dataMoverLengthLimit then none
    else some (.lengthOutOfRange h.byteSize .dataMover))
  <|> dropped? .dataMoverRequest .requesterId h.requesterId.toNat h.routing.functionId.toNat
  <|> dropped? .dataMoverRequest .firstEnable r.firstEnable.toNat 0xf
  <|> dropped? .dataMoverRequest .lastEnable r.lastEnable.toNat 0xf

def powerUserRequestFault? (h : Header) (r : RequestBody) : Option EncodingError :=
  powerUserLengthFault? h.byteSize
  <|> overflow? .firstEnable r.firstEnable.toNat 4
  <|> overflow? .lastEnable r.lastEnable.toNat 4
  <|> (if h.fmtType.hasLongAddress then overflow? .addrLow (r.addr.toNat % 4) 0
    else overflow? .addr r.addr.toNat 32)

def completionFault? (h : Header) (c : CompletionBody) : Option EncodingError :=
  powerUserLengthFault? h.byteSize
  <|> (if 0 < c.byteCount.toNat ∧ c.byteCount.toNat ≤ 4096 then none
    else some (.fieldOverflow .byteCount c.byteCount.toNat))
  <|> dropped? .powerUserCompletion .finalCompletion c.finalCompletion.toNat 0
  <|> overflow? .status c.status.toNat 3
  <|> overflow? .lowerAddr c.lowerAddr.toNat 7

def interruptFault? (h : Header) : Option EncodingError :=
  dropped? .interrupt .byteSize h.byteSize.toNat 0
  <|> dropped? .interrupt .tag h.tag.toNat 0
  <|> dropped? .interrupt .requesterId h.requesterId.toNat 0

def genericFault? (h : Header) : Option EncodingError :=
  powerUserLengthFault? h.byteSize
  <|> dropped? .generic .tag h.tag.toNat 0
  <|> dropped? .generic .requesterId h.requesterId.toNat 0

/-- What the layout of a header's kind cannot carry of the fields outside routing and prefix. -/
def bodyFault? (h : Header) : Option EncodingError :=
  match h.body with
  | .request r =>
    if h.fmtType.isMemoryRequest then
      if h.dataMover then h.dataMoverRequestFault? r else h.powerUserRequestFault? r
    else some (.bodyMismatch h.fmtType)
  | .completion c =>
    if h.fmtType.isCompletion then
      if h.dataMover then some (.unsupported .dataMoverCompletion) else h.completionFault? c
    else some (.bodyMismatch h.fmtType)
  | .interrupt _ =>
    if h.fmtType.isInterrupt then
      if h.dataMover then h.interruptFault? else some (.unsupported .powerUserInterrupt)
    else some (.bodyMismatch h.fmtType)
  | .other =>
    if h.fmtType.isMemoryRequest ∨ h.fmtType.isCompletion ∨ h.fmtType.isInterrupt then
      some (.bodyMismatch h.fmtType)
    else h.genericFault?

def routingFault? (r : Routing) : Option EncodingError :=
  overflow? .bar r.bar.toNat 7
  <|> overflow? .slot r.slot.toNat 5
  <|> overflow? .vf r.vf.toNat 11
  <|> overflow? .pf r.pf.toNat 3

def prefixFault? (p : PrefixWord) : Option EncodingError :=
  overflow? .prefixKind p.kind.toNat 5
  <|> overflow? .prefixValue p.value.toNat 24

/-- The first reason why a header cannot be encoded. -/
def fault? (h : Header) : Option EncodingError :=
  overflow? .tag h.tag.toNat 10
  <|> h.bodyFault?
  <|> routingFault? h.routing
  <|> prefixFault? h.prefixWord

/-- The attribute bits of DWORD 0. -/
def attributeParts (a : Attributes) : List (Field × Nat) :=
  [(Layout.Common.addressType, a.addressType.toBits),
   (Layout.Common.poisoned, a.poisoned.toNat),
   (Layout.Common.digest, a.digest.toNat),
   (Layout.Common.hints, a.hints.toNat),
   (Layout.Common.lightweight, a.lightweight.toNat)]

/-- DWORD 0; only requests carry attributes. -/
def word0 (h : Header) : UInt32 :=
  assemble <|
    [(Layout.Common.fmtType, h.fmtType.code.toNat),
     (Layout.Common.tagBit9, h.tag.toNat / 512),
     (Layout.Common.tagBit8, h.tag.toNat / 256),
     (Layout.Common.length, h.byteSize.toNat / 4)] ++
    match h.body with
    | .request r => attributeParts r.attributes
    | _ => []

/-- DWORD 1. -/
def word1 (h : Header) : UInt32 :=
  match h.body with
  | .request r =>
    if h.dataMover then
      assemble
        [(Layout.DataMover.tagLow, h.tag.toNat),
         (Layout.DataMover.lengthLow, h.byteSize.toNat),
         (Layout.DataMover.lengthHigh, h.byteSize.toNat / 4096),
         (Layout.DataMover.addrLow, r.addr.toNat)]
    else
      assemble
        [(Layout.Request.requesterId, h.requesterId.toNat),
         (Layout.Request.tagLow, h.tag.toNat),
         (Layout.Request.lastEnable, r.lastEnable.toNat),
         (Layout.Request.firstEnable, r.firstEnable.toNat)]
  | .completion c =>
    assemble
      [(Layout.Completion.completerId, c.completerId.toNat),
       (Layout.Completion.status, c.status.toNat),
       (Layout.Completion.byteCountModified, c.byteCountModified.toNat),
       (Layout.Completion.byteCount, c.byteCount.toNat)]
  | _ => 0

/-- DWORD 2: the upper half or the whole of an address, a completion's requester or an
interrupt's vector. -/
def word2 (h : Header) : UInt32 :=
  match h.body with
  | .request r =>
    if h.dataMover ∨ h.fmtType.hasLongAddress then UInt32.ofNat (r.addr.toNat / 2 ^ (32 : Nat))
    else UInt32.ofNat r.addr.toNat
  | .completion c =>
    assemble
      [(Layout.Completion.requesterId, h.requesterId.toNat),
       (Layout.Completion.tagLow, h.tag.toNat),
       (Layout.Completion.lowerAddr, c.lowerAddr.toNat)]
  | .interrupt v => assemble [(Layout.Interrupt.vector, v.toNat)]
  | .other => 0

/-- DWORD 3: the lower half of a 64-bit address, in DWORDs. -/
def word3 (h : Header) : UInt32 :=
  match h.body with
  | .request r =>
    if h.dataMover ∨ h.fmtType.hasLongAddress then
      assemble [(Layout.Address.dwords, r.addr.toNat / 4)]
    else 0
  | _ => 0

/-- The DWORDs of a header; fields beyond their width are cut off. -/
def words (h : Header) : HeaderWords where
  dw0 := h.word0
  dw1 := h.word1
  dw2 := h.word2
  dw3 := h.word3
  dw4 := assemble
    [(Layout.Prefix.present, h.prefixWord.present.toNat),
     (Layout.Prefix.kind, h.prefixWord.kind.toNat),
     (Layout.Prefix.value, h.prefixWord.value.toNat)]
  dw5 := assemble
    [(Layout.Routing.bar, h.routing.bar.toNat),
     (Layout.Routing.memoryMapped, h.routing.memoryMapped.toNat),
     (Layout.Routing.slot, h.routing.slot.toNat),
     (Layout.Routing.vfActive, h.routing.vfActive.toNat),
     (Layout.Routing.vf, h.routing.vf.toNat),
     (Layout.Routing.pf, h.routing.pf.toNat)]
  dw6 := UInt32.ofNat (h.metadata.toNat / 2 ^ (32 : Nat))
  dw7 := UInt32.ofNat h.metadata.toNat

/-- The DWORDs of a header, if its layout carries all of it. -/
def encode (h : Header) : Except EncodingError HeaderWords :=
  match h.fault? with
  | some e => .error e
  | none => .ok h.words

end Header

namespace HeaderWords

def fmtType (w : HeaderWords) : FmtType := ⟨UInt8.ofNat (Layout.Common.fmtType.read w.dw0)⟩

/-- The two upper bits of the tag, which stand apart from the lower eight. -/
def tagHigh (w : HeaderWords) : Nat :=
  Layout.Common.tagBit9.read w.dw0 * 512 + Layout.Common.tagBit8.read w.dw0 * 256

def attributes (w : HeaderWords) : Attributes where
  lightweight := Layout.Common.lightweight.flag w.dw0
  hints := Layout.Common.hints.flag w.dw0
  digest := Layout.Common.digest.flag w.dw0
  poisoned := Layout.Common.poisoned.flag w.dw0
  addressType := .ofBits (Layout.Common.addressType.read w.dw0)

def routing (w : HeaderWords) : Routing where
  bar := UInt8.ofNat (Layout.Routing.bar.read w.dw5)
  memoryMapped := Layout.Routing.memoryMapped.flag w.dw5
  slot := UInt8.ofNat (Layout.Routing.slot.read w.dw5)
  vfActive := Layout.Routing.vfActive.flag w.dw5
  vf := UInt16.ofNat (Layout.Routing.vf.read w.dw5)
  pf := UInt8.ofNat (Layout.Routing.pf.read w.dw5)

def prefixWord (w : HeaderWords) : PrefixWord where
  present := Layout.Prefix.present.flag w.dw4
  kind := UInt8.ofNat (Layout.Prefix.kind.read w.dw4)
  value := UInt32.ofNat (Layout.Prefix.value.read w.dw4)

/-- The length of a power-user header in bytes. -/
def byteSize (w : HeaderWords) : Nat := Layout.Common.length.read w.dw0 * 4

/-- A 64-bit address without its two low bits, which no layout keeps beside it. -/
def addr64 (w : HeaderWords) : Nat :=
  w.dw2.toNat * 2 ^ (32 : Nat) + Layout.Address.dwords.read w.dw3 * 4

/-- The fields of a header that stand at the same place in every layout. -/
def base (w : HeaderWords) (dataMover : Bool) : Header where
  fmtType := w.fmtType
  dataMover := dataMover
  metadata := UInt64.ofNat (w.dw6.toNat * 2 ^ (32 : Nat) + w.dw7.toNat)
  routing := w.routing
  prefixWord := w.prefixWord

/-- A data-mover request. It names no requester, so that one is derived from its function, and
its byte enables are all set. -/
def dataMoverRequest (w : HeaderWords) : Header :=
  { w.base true with
    byteSize := UInt32.ofNat <|
      Layout.DataMover.lengthHigh.read w.dw1 * 4096 + w.byteSize +
        Layout.DataMover.lengthLow.read w.dw1
    requesterId := w.routing.functionId
    tag := UInt16.ofNat (w.tagHigh + Layout.DataMover.tagLow.read w.dw1)
    body := .request
      { addr := UInt64.ofNat (w.addr64 + Layout.DataMover.addrLow.read w.dw1)
        firstEnable := 0xf
        lastEnable := 0xf
        attributes := w.attributes } }

def powerUserRequest (w : HeaderWords) : Header :=
  { w.base false with
    byteSize := UInt32.ofNat w.byteSize
    requesterId := UInt16.ofNat (Layout.Request.requesterId.read w.dw1)
    tag := UInt16.ofNat (w.tagHigh + Layout.Request.tagLow.read w.dw1)
    body := .request
      { addr := if w.fmtType.hasLongAddress then UInt64.ofNat w.addr64 else UInt64.ofNat w.dw2.toNat
        firstEnable := UInt8.ofNat (Layout.Request.firstEnable.read w.dw1)
        lastEnable := UInt8.ofNat (Layout.Request.lastEnable.read w.dw1)
        attributes := w.attributes } }

/-- A power-user completion. A byte count of zero stands for 4096. -/
def powerUserCompletion (w : HeaderWords) : Header :=
  let count := Layout.Completion.byteCount.read w.dw1
  { w.base false with
    byteSize := UInt32.ofNat w.byteSize
    requesterId := UInt16.ofNat (Layout.Completion.requesterId.read w.dw2)
    tag := UInt16.ofNat (w.tagHigh + Layout.Completion.tagLow.read w.dw2)
    body := .completion
      { completerId := UInt16.ofNat (Layout.Completion.completerId.read w.dw1)
        status := UInt8.ofNat (Layout.Completion.status.read w.dw1)
        byteCountModified := Layout.Completion.byteCountModified.flag w.dw1
        byteCount := if count = 0 then 4096 else UInt16.ofNat count
        lowerAddr := UInt32.ofNat (Layout.Completion.lowerAddr.read w.dw2)
        finalCompletion := false } }

/-- The header that eight DWORDs stand for in the given encoding. -/
def decode (w : HeaderWords) (dataMover : Bool) : Except EncodingError Header :=
  if w.fmtType.kind?.isNone then .error (.unknownKind ⟨w.fmtType.code⟩)
  else if w.fmtType.isMemoryRequest then
    .ok (if dataMover then w.dataMoverRequest else w.powerUserRequest)
  else if w.fmtType.isCompletion then
    if dataMover then .error (.unsupported .dataMoverCompletion) else .ok w.powerUserCompletion
  else if w.fmtType.isInterrupt then
    if dataMover then
      .ok { w.base true with
        body := .interrupt (UInt16.ofNat (Layout.Interrupt.vector.read w.dw2)) }
    else .error (.unsupported .powerUserInterrupt)
  else .ok { w.base dataMover with byteSize := UInt32.ofNat w.byteSize }

/-- The eight DWORDs at the start of a byte image and the image after them; otherwise the image
from the DWORD that is incomplete. -/
def ofBytes (image : List UInt8) : Except (List UInt8) (HeaderWords × List UInt8) := do
  let (a, image) ← takeDword image
  let (b, image) ← takeDword image
  let (c, image) ← takeDword image
  let (d, image) ← takeDword image
  let (e, image) ← takeDword image
  let (f, image) ← takeDword image
  let (g, image) ← takeDword image
  let (h, image) ← takeDword image
  .ok (⟨a, b, c, d, e, f, g, h⟩, image)

end HeaderWords

namespace Flit

/-- Stores a header in the flit at hand. All checks come first; then the flit is cleared, the mark
of the last beat with it, and written. -/
def pack (h : Header) : EStateM EncodingError Flit Unit := do
  let w ← ofExcept h.encode
  modify Flit.reset
  modify fun f => f.setDataMover h.dataMover
  modify fun f => f.setDwords 0 w.toList

/-- The flit with a header stored in it. -/
def storeHeader (f : Flit) (h : Header) : Except EncodingError Flit :=
  match (pack h).run f with
  | .ok _ f' => .ok f'
  | .error e _ => .error e

/-- The header at the start of a flit. -/
def header (f : Flit) : Except EncodingError Header :=
  match HeaderWords.ofBytes f.data.bytes with
  | .error _ => .error .truncated
  | .ok (w, _) => w.decode f.dataMover

end Flit

/-- Why the fmt/type byte at the start of an image cannot be read. -/
inductive FormatFault where
  | invalidHeader
  /-- The image ends inside its first DWORD; what there is of it. -/
  | incomplete (rest : List UInt8)
deriving DecidableEq

/-- The fmt/type byte in the first DWORD of an image, what it says, and the image after that. -/
def FmtType.ofBytes (image : List UInt8) :
    Except FormatFault (FmtType × PacketFormat × List UInt8) :=
  match takeDword image with
  | .error rest => .error (.incomplete rest)
  | .ok (dword, rest) =>
    let ft : FmtType := ⟨UInt8.ofNat (Layout.Common.fmtType.read dword)⟩
    match ft.packetFormat with
    | .ok format => .ok (ft, format, rest)
    | .error _ => .error .invalidHeader

end TlpBridge

import TlpBridge.Proofs.Word.Fields
import TlpBridge.Tlp.Encoding

/-!
# Headers survive their encoding

The eight DWORDs of a header that has no fault decode to the same header. What
`Header.fault?` rules out is exactly what a layout cuts off or leaves out. Whatever eight DWORDs
decode to is the header of one of five layouts.
-/
namespace TlpBridge

namespace FmtType

theorem isMemoryRequest_of_isCompletion {ft : FmtType} (h : ft.isCompletion) :
    ft.isMemoryRequest = false := by
  have type : ft.typeBits = 10 := by simpa [isCompletion] using h
  simp [isMemoryRequest, isAtomic, type]

theorem classes_of_isInterrupt {ft : FmtType} (h : ft.isInterrupt) :
    ft.isMemoryRequest = false ∧ ft.isCompletion = false := by
  have only : ft = interrupt := by simpa [isInterrupt] using h
  subst only
  decide

end FmtType

namespace Header

theorem check_eq_none_iff (p : Prop) [Decidable p] (e : EncodingError) :
    (if p then none else some e) = none ↔ p := by
  by_cases hp : p <;> simp [hp]

@[simp] theorem overflow?_eq_none_iff (field : HeaderField) (value bits : Nat) :
    overflow? field value bits = none ↔ value < 2 ^ bits :=
  check_eq_none_iff _ _

@[simp] theorem dropped?_eq_none_iff (layout : HeaderLayout) (field : HeaderField)
    (value restored : Nat) : dropped? layout field value restored = none ↔ value = restored :=
  check_eq_none_iff _ _

@[simp] theorem powerUserLengthFault?_eq_none_iff (byteSize : UInt32) :
    powerUserLengthFault? byteSize = none ↔ byteSize.toNat % 4 = 0 ∧ byteSize.toNat < 4096 :=
  check_eq_none_iff _ _

theorem fault?_eq_none_iff (h : Header) :
    h.fault? = none ↔ h.tag.toNat < 1024 ∧ h.bodyFault? = none ∧
      routingFault? h.routing = none ∧ prefixFault? h.prefixWord = none := by
  simp [fault?]

theorem routingFault?_eq_none_iff (r : Routing) :
    routingFault? r = none ↔
      r.bar.toNat < 128 ∧ r.slot.toNat < 32 ∧ r.vf.toNat < 2048 ∧ r.pf.toNat < 8 := by
  simp [routingFault?]

theorem prefixFault?_eq_none_iff (p : PrefixWord) :
    prefixFault? p = none ↔ p.kind.toNat < 32 ∧ p.value.toNat < 2 ^ 24 := by
  simp [prefixFault?]

theorem dataMoverRequestFault?_eq_none_iff (h : Header) (r : RequestBody) :
    h.dataMoverRequestFault? r = none ↔ h.byteSize.toNat < dataMoverLengthLimit ∧
      h.requesterId.toNat = h.routing.functionId.toNat ∧ r.firstEnable.toNat = 0xf ∧
      r.lastEnable.toNat = 0xf := by
  simp [dataMoverRequestFault?]

theorem powerUserRequestFault?_eq_none_iff (h : Header) (r : RequestBody) :
    h.powerUserRequestFault? r = none ↔ powerUserLengthFault? h.byteSize = none ∧
      r.firstEnable.toNat < 16 ∧ r.lastEnable.toNat < 16 ∧
      (if h.fmtType.hasLongAddress then overflow? .addrLow (r.addr.toNat % 4) 0
        else overflow? .addr r.addr.toNat 32) = none := by
  simp [powerUserRequestFault?]

theorem completionFault?_eq_none_iff (h : Header) (c : CompletionBody) :
    h.completionFault? c = none ↔ powerUserLengthFault? h.byteSize = none ∧
      (0 < c.byteCount.toNat ∧ c.byteCount.toNat ≤ 4096) ∧ c.finalCompletion = false ∧
      c.status.toNat < 8 ∧ c.lowerAddr.toNat < 128 := by
  simp [completionFault?]

theorem interruptFault?_eq_none_iff (h : Header) :
    h.interruptFault? = none ↔ h.byteSize.toNat = 0 ∧ h.tag.toNat = 0 ∧
      h.requesterId.toNat = 0 := by
  simp [interruptFault?]

theorem genericFault?_eq_none_iff (h : Header) :
    h.genericFault? = none ↔ powerUserLengthFault? h.byteSize = none ∧ h.tag.toNat = 0 ∧
      h.requesterId.toNat = 0 := by
  simp [genericFault?]

/-- The fields that DWORD 0 of every header has. -/
def commonParts (h : Header) : List (Field × Nat) :=
  [(Layout.Common.fmtType, h.fmtType.code.toNat),
   (Layout.Common.tagBit9, h.tag.toNat / 512),
   (Layout.Common.tagBit8, h.tag.toNat / 256),
   (Layout.Common.length, h.byteSize.toNat / 4)]

theorem word0_of_request {h : Header} {r : RequestBody} (body : h.body = .request r) :
    h.word0 = assemble (h.commonParts ++ attributeParts r.attributes) := by
  rw [word0, body]
  rfl

/-- Only requests have attributes. -/
theorem word0_of_not_request {h : Header} (body : h.request? = none) :
    h.word0 = assemble h.commonParts := by
  rw [word0]
  cases kind : h.body with
  | request r => simp [request?, kind] at body
  | completion c => rfl
  | interrupt v => rfl
  | other => rfl

theorem read_word0_request {h : Header} {r : RequestBody} (body : h.body = .request r)
    {f : Field} {v : Nat} (member : (f, v) ∈ h.commonParts ++ attributeParts r.attributes) :
    f.read h.word0 = v % 2 ^ f.width := by
  have fit : FitTogether [Layout.Common.fmtType, Layout.Common.tagBit9, Layout.Common.tagBit8,
    Layout.Common.length, Layout.Common.addressType, Layout.Common.poisoned,
    Layout.Common.digest, Layout.Common.hints, Layout.Common.lightweight] := by decide
  rw [word0_of_request body]
  exact read_assemble fit rfl member

theorem read_word0 (h : Header) {f : Field} {v : Nat} (member : (f, v) ∈ h.commonParts) :
    f.read h.word0 = v % 2 ^ f.width := by
  cases request : h.request? with
  | some r =>
    have body : h.body = .request r := by
      unfold request? at request
      split at request <;> simp_all
    exact read_word0_request body (List.mem_append_left _ member)
  | none =>
    have fit : FitTogether [Layout.Common.fmtType, Layout.Common.tagBit9, Layout.Common.tagBit8,
      Layout.Common.length] := by decide
    rw [word0_of_not_request request]
    exact read_assemble fit rfl member

theorem fmtType_words (h : Header) : h.words.fmtType = h.fmtType := by
  have code : Layout.Common.fmtType.read h.words.dw0 = h.fmtType.code.toNat % 256 :=
    h.read_word0 (by simp [commonParts])
  rw [HeaderWords.fmtType, code]
  simp

/-- A tag of ten bits is found in three places. -/
theorem tag_of_parts (tag : UInt16) (h : tag.toNat < 1024) :
    UInt16.ofNat (tag.toNat / 512 % 2 * 512 + tag.toNat / 256 % 2 * 256 + tag.toNat % 256) =
      tag := by
  have whole : tag.toNat / 512 % 2 * 512 + tag.toNat / 256 % 2 * 256 + tag.toNat % 256 =
      tag.toNat := by omega
  rw [whole, UInt16.ofNat_toNat]

theorem tagHigh_words (h : Header) :
    h.words.tagHigh = h.tag.toNat / 512 % 2 * 512 + h.tag.toNat / 256 % 2 * 256 := by
  have bit9 : Layout.Common.tagBit9.read h.words.dw0 = h.tag.toNat / 512 % 2 :=
    h.read_word0 (by simp [commonParts])
  have bit8 : Layout.Common.tagBit8.read h.words.dw0 = h.tag.toNat / 256 % 2 :=
    h.read_word0 (by simp [commonParts])
  rw [HeaderWords.tagHigh, bit9, bit8]

theorem byteSize_words (h : Header) : h.words.byteSize = h.byteSize.toNat / 4 % 1024 * 4 := by
  have length : Layout.Common.length.read h.words.dw0 = h.byteSize.toNat / 4 % 1024 :=
    h.read_word0 (by simp [commonParts])
  rw [HeaderWords.byteSize, length]

/-- A power-user length is kept whole. -/
theorem byteSize_words_of_powerUser (h : Header) (fault : powerUserLengthFault? h.byteSize = none) :
    UInt32.ofNat h.words.byteSize = h.byteSize := by
  obtain ⟨whole, small⟩ := (powerUserLengthFault?_eq_none_iff _).1 fault
  have size : h.byteSize.toNat / 4 % 1024 * 4 = h.byteSize.toNat := by omega
  rw [byteSize_words, size, UInt32.ofNat_toNat]

theorem metadata_words (h : Header) :
    UInt64.ofNat (h.words.dw6.toNat * 2 ^ 32 + h.words.dw7.toNat) = h.metadata := by
  have bound := h.metadata.toNat_lt
  have halves : h.words.dw6.toNat * 2 ^ 32 + h.words.dw7.toNat = h.metadata.toNat := by
    simp only [words, UInt32.toNat_ofNat']
    omega
  rw [halves, UInt64.ofNat_toNat]

theorem attributes_words {h : Header} {r : RequestBody} (body : h.body = .request r) :
    h.words.attributes = r.attributes := by
  have at_ : Layout.Common.addressType.read h.words.dw0 = r.attributes.addressType.toBits % 4 :=
    read_word0_request body (by simp [attributeParts])
  have poisoned : Layout.Common.poisoned.read h.words.dw0 = r.attributes.poisoned.toNat % 2 :=
    read_word0_request body (by simp [attributeParts])
  have digest : Layout.Common.digest.read h.words.dw0 = r.attributes.digest.toNat % 2 :=
    read_word0_request body (by simp [attributeParts])
  have hints : Layout.Common.hints.read h.words.dw0 = r.attributes.hints.toNat % 2 :=
    read_word0_request body (by simp [attributeParts])
  have lightweight :
      Layout.Common.lightweight.read h.words.dw0 = r.attributes.lightweight.toNat % 2 :=
    read_word0_request body (by simp [attributeParts])
  simp only [HeaderWords.attributes, Field.flag, at_, poisoned, digest, hints, lightweight,
    Nat.mod_eq_of_lt r.attributes.addressType.toBits_lt, AddressType.ofBits_toBits]
  rcases r.attributes with ⟨_ | _, _ | _, _ | _, _ | _, _⟩ <;> rfl

theorem routing_words (h : Header) (fault : routingFault? h.routing = none) :
    h.words.routing = h.routing := by
  obtain ⟨barFits, slotFits, vfFits, pfFits⟩ := (routingFault?_eq_none_iff _).1 fault
  have fit : FitTogether [Layout.Routing.bar, Layout.Routing.memoryMapped, Layout.Routing.slot,
    Layout.Routing.vfActive, Layout.Routing.vf, Layout.Routing.pf] := by decide
  have bar : Layout.Routing.bar.read h.words.dw5 = h.routing.bar.toNat % 128 :=
    read_assemble fit rfl (by simp)
  have memoryMapped :
      Layout.Routing.memoryMapped.read h.words.dw5 = h.routing.memoryMapped.toNat % 2 :=
    read_assemble fit rfl (by simp)
  have slot : Layout.Routing.slot.read h.words.dw5 = h.routing.slot.toNat % 32 :=
    read_assemble fit rfl (by simp)
  have vfActive : Layout.Routing.vfActive.read h.words.dw5 = h.routing.vfActive.toNat % 2 :=
    read_assemble fit rfl (by simp)
  have vf : Layout.Routing.vf.read h.words.dw5 = h.routing.vf.toNat % 2048 :=
    read_assemble fit rfl (by simp)
  have pf : Layout.Routing.pf.read h.words.dw5 = h.routing.pf.toNat % 8 :=
    read_assemble fit rfl (by simp)
  simp only [HeaderWords.routing, Field.flag, bar, memoryMapped, slot, vfActive, vf, pf,
    Nat.mod_eq_of_lt barFits, Nat.mod_eq_of_lt slotFits, Nat.mod_eq_of_lt vfFits,
    Nat.mod_eq_of_lt pfFits, UInt8.ofNat_toNat, UInt16.ofNat_toNat]
  rcases h.routing with ⟨_, _ | _, _, _ | _, _, _⟩ <;> rfl

theorem prefixWord_words (h : Header) (fault : prefixFault? h.prefixWord = none) :
    h.words.prefixWord = h.prefixWord := by
  obtain ⟨kindFits, valueFits⟩ := (prefixFault?_eq_none_iff _).1 fault
  have fit : FitTogether [Layout.Prefix.present, Layout.Prefix.kind, Layout.Prefix.value] := by
    decide
  have present : Layout.Prefix.present.read h.words.dw4 = h.prefixWord.present.toNat % 2 :=
    read_assemble fit rfl (by simp)
  have kind : Layout.Prefix.kind.read h.words.dw4 = h.prefixWord.kind.toNat % 32 :=
    read_assemble fit rfl (by simp)
  have value : Layout.Prefix.value.read h.words.dw4 = h.prefixWord.value.toNat % 2 ^ 24 :=
    read_assemble fit rfl (by simp)
  simp only [HeaderWords.prefixWord, Field.flag, present, kind, value,
    Nat.mod_eq_of_lt kindFits, Nat.mod_eq_of_lt valueFits, UInt8.ofNat_toNat, UInt32.ofNat_toNat]
  rcases h.prefixWord with ⟨_ | _, _, _⟩ <;> rfl

/-- The fields outside the body that no layout moves. -/
theorem base_words (h : Header) (dataMover : Bool) (routing : routingFault? h.routing = none)
    (tlpPrefix : prefixFault? h.prefixWord = none) :
    h.words.base dataMover =
      { fmtType := h.fmtType, dataMover := dataMover, metadata := h.metadata,
        routing := h.routing, prefixWord := h.prefixWord } := by
  rw [HeaderWords.base, fmtType_words, metadata_words, routing_words h routing,
    prefixWord_words h tlpPrefix]

theorem word2_of_long {h : Header} {r : RequestBody} (body : h.body = .request r)
    (long : h.dataMover ∨ h.fmtType.hasLongAddress) :
    h.word2 = UInt32.ofNat (r.addr.toNat / 2 ^ 32) := by
  simp only [word2, body, if_pos long]

theorem word3_of_long {h : Header} {r : RequestBody} (body : h.body = .request r)
    (long : h.dataMover ∨ h.fmtType.hasLongAddress) :
    h.word3 = assemble [(Layout.Address.dwords, r.addr.toNat / 4)] := by
  simp only [word3, body, if_pos long]

theorem word2_of_short {h : Header} {r : RequestBody} (body : h.body = .request r)
    (mode : h.dataMover = false) (short : h.fmtType.hasLongAddress = false) :
    h.word2 = UInt32.ofNat r.addr.toNat := by
  simp only [word2, body, mode, short, Bool.false_eq_true, or_self, if_false]

theorem word3_of_short {h : Header} {r : RequestBody} (body : h.body = .request r)
    (mode : h.dataMover = false) (short : h.fmtType.hasLongAddress = false) : h.word3 = 0 := by
  simp only [word3, body, mode, short, Bool.false_eq_true, or_self, if_false]

/-- A 64-bit address without its two low bits, from DWORDs 2 and 3. -/
theorem addr64_words {h : Header} {r : RequestBody} (body : h.body = .request r)
    (long : h.dataMover ∨ h.fmtType.hasLongAddress) :
    h.words.addr64 = r.addr.toNat / 4 * 4 := by
  have bound := r.addr.toNat_lt
  have upper : h.words.dw2 = UInt32.ofNat (r.addr.toNat / 2 ^ 32) := word2_of_long body long
  have lower : h.words.dw3 = assemble [(Layout.Address.dwords, r.addr.toNat / 4)] :=
    word3_of_long body long
  have fit : FitTogether [Layout.Address.dwords] := by decide
  have dwords : Layout.Address.dwords.read h.words.dw3 = r.addr.toNat / 4 % 2 ^ 30 := by
    rw [lower]
    exact read_assemble fit rfl (by simp)
  rw [HeaderWords.addr64, upper, dwords, UInt32.toNat_ofNat']
  omega

theorem dataMoverRequest_words {h : Header} {r : RequestBody} (body : h.body = .request r)
    (mode : h.dataMover = true) (fault : h.dataMoverRequestFault? r = none)
    (tag : h.tag.toNat < 1024) (routing : routingFault? h.routing = none)
    (tlpPrefix : prefixFault? h.prefixWord = none) : h.words.dataMoverRequest = h := by
  have parts : h.words.dw1 = assemble
      [(Layout.DataMover.tagLow, h.tag.toNat), (Layout.DataMover.lengthLow, h.byteSize.toNat),
       (Layout.DataMover.lengthHigh, h.byteSize.toNat / 4096),
       (Layout.DataMover.addrLow, r.addr.toNat)] := by
    simp only [words, word1, body, mode, if_true]
  have fit : FitTogether [Layout.DataMover.tagLow, Layout.DataMover.lengthLow,
    Layout.DataMover.lengthHigh, Layout.DataMover.addrLow] := by decide
  have tagLow : Layout.DataMover.tagLow.read h.words.dw1 = h.tag.toNat % 256 :=
    parts ▸ read_assemble fit rfl (by simp)
  have lengthLow : Layout.DataMover.lengthLow.read h.words.dw1 = h.byteSize.toNat % 4 :=
    parts ▸ read_assemble fit rfl (by simp)
  have lengthHigh :
      Layout.DataMover.lengthHigh.read h.words.dw1 = h.byteSize.toNat / 4096 % 4096 :=
    parts ▸ read_assemble fit rfl (by simp)
  have addrLow : Layout.DataMover.addrLow.read h.words.dw1 = r.addr.toNat % 4 :=
    parts ▸ read_assemble fit rfl (by simp)
  obtain ⟨small, requester, first, last⟩ := (h.dataMoverRequestFault?_eq_none_iff r).1 fault
  rw [dataMoverLengthLimit] at small
  have size : h.byteSize.toNat / 4096 % 4096 * 4096 + h.byteSize.toNat / 4 % 1024 * 4 +
      h.byteSize.toNat % 4 = h.byteSize.toNat := by omega
  have addr : r.addr.toNat / 4 * 4 + r.addr.toNat % 4 = r.addr.toNat := by omega
  rw [HeaderWords.dataMoverRequest, base_words h true routing tlpPrefix, routing_words h routing,
    tagHigh_words, tagLow, tag_of_parts _ tag, lengthHigh, lengthLow, byteSize_words, size,
    addr64_words body (.inl mode), addrLow, addr, attributes_words body, UInt32.ofNat_toNat,
    UInt64.ofNat_toNat, ← UInt16.toNat_inj.1 requester]
  have enables : r.firstEnable = 0xf ∧ r.lastEnable = 0xf :=
    ⟨UInt8.toNat_inj.1 first, UInt8.toNat_inj.1 last⟩
  rcases h with ⟨⟩
  rcases r with ⟨⟩
  simp_all

theorem powerUserRequest_words {h : Header} {r : RequestBody} (body : h.body = .request r)
    (mode : h.dataMover = false) (fault : h.powerUserRequestFault? r = none)
    (tag : h.tag.toNat < 1024) (routing : routingFault? h.routing = none)
    (tlpPrefix : prefixFault? h.prefixWord = none) : h.words.powerUserRequest = h := by
  have parts : h.words.dw1 = assemble
      [(Layout.Request.requesterId, h.requesterId.toNat), (Layout.Request.tagLow, h.tag.toNat),
       (Layout.Request.lastEnable, r.lastEnable.toNat),
       (Layout.Request.firstEnable, r.firstEnable.toNat)] := by
    simp only [words, word1, body, mode, Bool.false_eq_true, if_false]
  have fit : FitTogether [Layout.Request.requesterId, Layout.Request.tagLow,
    Layout.Request.lastEnable, Layout.Request.firstEnable] := by decide
  have requester : Layout.Request.requesterId.read h.words.dw1 = h.requesterId.toNat % 65536 :=
    parts ▸ read_assemble fit rfl (by simp)
  have tagLow : Layout.Request.tagLow.read h.words.dw1 = h.tag.toNat % 256 :=
    parts ▸ read_assemble fit rfl (by simp)
  have lastEnable : Layout.Request.lastEnable.read h.words.dw1 = r.lastEnable.toNat % 16 :=
    parts ▸ read_assemble fit rfl (by simp)
  have firstEnable : Layout.Request.firstEnable.read h.words.dw1 = r.firstEnable.toNat % 16 :=
    parts ▸ read_assemble fit rfl (by simp)
  obtain ⟨length, first, last, addr⟩ := (h.powerUserRequestFault?_eq_none_iff r).1 fault
  have address : (if h.fmtType.hasLongAddress then UInt64.ofNat h.words.addr64
      else UInt64.ofNat h.words.dw2.toNat) = r.addr := by
    cases long : h.fmtType.hasLongAddress with
    | true =>
      have aligned : r.addr.toNat % 4 = 0 := by simpa [long] using addr
      have whole : r.addr.toNat / 4 * 4 = r.addr.toNat := by omega
      rw [if_pos rfl, addr64_words body (.inr long), whole, UInt64.ofNat_toNat]
    | false =>
      have small : r.addr.toNat < 2 ^ 32 := by simpa [long] using addr
      have kept : h.words.dw2 = UInt32.ofNat r.addr.toNat := word2_of_short body mode long
      rw [if_neg Bool.false_ne_true, kept, UInt32.toNat_ofNat', Nat.mod_eq_of_lt small,
        UInt64.ofNat_toNat]
  rw [HeaderWords.powerUserRequest, base_words h false routing tlpPrefix, fmtType_words, address,
    byteSize_words_of_powerUser h length, requester, tagHigh_words, tagLow, tag_of_parts _ tag,
    lastEnable, firstEnable, Nat.mod_eq_of_lt first, Nat.mod_eq_of_lt last,
    attributes_words body, Nat.mod_eq_of_lt h.requesterId.toNat_lt]
  rcases h with ⟨⟩
  rcases r with ⟨⟩
  simp_all

/-- A byte count of 4096 wraps to zero on its way, and nothing else does. -/
theorem byteCount_of_wrapped (count : UInt16) (positive : 0 < count.toNat)
    (limit : count.toNat ≤ 4096) :
    (if count.toNat % 4096 = 0 then 4096 else UInt16.ofNat (count.toNat % 4096)) = count := by
  by_cases wrapped : count.toNat % 4096 = 0
  · have whole : count.toNat = 4096 := by omega
    rw [if_pos wrapped]
    exact (UInt16.toNat_inj.1 whole).symm
  · have small : count.toNat < 4096 := by omega
    rw [if_neg wrapped, Nat.mod_eq_of_lt small, UInt16.ofNat_toNat]

theorem powerUserCompletion_words {h : Header} {c : CompletionBody} (body : h.body = .completion c)
    (mode : h.dataMover = false) (fault : h.completionFault? c = none)
    (tag : h.tag.toNat < 1024) (routing : routingFault? h.routing = none)
    (tlpPrefix : prefixFault? h.prefixWord = none) : h.words.powerUserCompletion = h := by
  have first : h.words.dw1 = assemble
      [(Layout.Completion.completerId, c.completerId.toNat),
       (Layout.Completion.status, c.status.toNat),
       (Layout.Completion.byteCountModified, c.byteCountModified.toNat),
       (Layout.Completion.byteCount, c.byteCount.toNat)] := by
    simp only [words, word1, body]
  have second : h.words.dw2 = assemble
      [(Layout.Completion.requesterId, h.requesterId.toNat),
       (Layout.Completion.tagLow, h.tag.toNat),
       (Layout.Completion.lowerAddr, c.lowerAddr.toNat)] := by
    simp only [words, word2, body]
  have fit1 : FitTogether [Layout.Completion.completerId, Layout.Completion.status,
    Layout.Completion.byteCountModified, Layout.Completion.byteCount] := by decide
  have fit2 : FitTogether [Layout.Completion.requesterId, Layout.Completion.tagLow,
    Layout.Completion.lowerAddr] := by decide
  have completer : Layout.Completion.completerId.read h.words.dw1 = c.completerId.toNat % 65536 :=
    first ▸ read_assemble fit1 rfl (by simp)
  have status : Layout.Completion.status.read h.words.dw1 = c.status.toNat % 8 :=
    first ▸ read_assemble fit1 rfl (by simp)
  have modified :
      Layout.Completion.byteCountModified.read h.words.dw1 = c.byteCountModified.toNat % 2 :=
    first ▸ read_assemble fit1 rfl (by simp)
  have byteCount : Layout.Completion.byteCount.read h.words.dw1 = c.byteCount.toNat % 4096 :=
    first ▸ read_assemble fit1 rfl (by simp)
  have requester : Layout.Completion.requesterId.read h.words.dw2 = h.requesterId.toNat % 65536 :=
    second ▸ read_assemble fit2 rfl (by simp)
  have tagLow : Layout.Completion.tagLow.read h.words.dw2 = h.tag.toNat % 256 :=
    second ▸ read_assemble fit2 rfl (by simp)
  have lowerAddr : Layout.Completion.lowerAddr.read h.words.dw2 = c.lowerAddr.toNat % 128 :=
    second ▸ read_assemble fit2 rfl (by simp)
  obtain ⟨length, ⟨positive, limit⟩, final, statusFits, lowerFits⟩ :=
    (h.completionFault?_eq_none_iff c).1 fault
  simp only [HeaderWords.powerUserCompletion, base_words h false routing tlpPrefix,
    byteSize_words_of_powerUser h length, requester, tagHigh_words, tagLow, tag_of_parts _ tag,
    completer, status, Field.flag, modified, byteCount, lowerAddr,
    byteCount_of_wrapped _ positive limit, Nat.mod_eq_of_lt h.requesterId.toNat_lt,
    Nat.mod_eq_of_lt c.completerId.toNat_lt, Nat.mod_eq_of_lt statusFits,
    Nat.mod_eq_of_lt lowerFits, UInt8.ofNat_toNat, UInt16.ofNat_toNat, UInt32.ofNat_toNat]
  rcases h with ⟨⟩
  rcases c with ⟨_, _, _ | _, _, _, _⟩ <;> simp_all

theorem interrupt_words {h : Header} {v : UInt16} (body : h.body = .interrupt v)
    (mode : h.dataMover = true) (fault : h.interruptFault? = none)
    (routing : routingFault? h.routing = none) (tlpPrefix : prefixFault? h.prefixWord = none) :
    { h.words.base true with
      body := .interrupt (UInt16.ofNat (Layout.Interrupt.vector.read h.words.dw2)) } = h := by
  have second : h.words.dw2 = assemble [(Layout.Interrupt.vector, v.toNat)] := by
    simp only [words, word2, body]
  have fit : FitTogether [Layout.Interrupt.vector] := by decide
  have vector : Layout.Interrupt.vector.read h.words.dw2 = v.toNat % 65536 :=
    second ▸ read_assemble fit rfl (by simp)
  obtain ⟨size, tag, requester⟩ := h.interruptFault?_eq_none_iff.1 fault
  have zeros : h.byteSize = 0 ∧ h.tag = 0 ∧ h.requesterId = 0 :=
    ⟨UInt32.toNat_inj.1 size, UInt16.toNat_inj.1 tag, UInt16.toNat_inj.1 requester⟩
  rw [base_words h true routing tlpPrefix, vector, Nat.mod_eq_of_lt v.toNat_lt,
    UInt16.ofNat_toNat]
  rcases h with ⟨⟩
  simp_all

theorem generic_words {h : Header} (body : h.body = .other) (fault : h.genericFault? = none)
    (routing : routingFault? h.routing = none) (tlpPrefix : prefixFault? h.prefixWord = none) :
    { h.words.base h.dataMover with byteSize := UInt32.ofNat h.words.byteSize } = h := by
  obtain ⟨length, tag, requester⟩ := h.genericFault?_eq_none_iff.1 fault
  have zeros : h.tag = 0 ∧ h.requesterId = 0 :=
    ⟨UInt16.toNat_inj.1 tag, UInt16.toNat_inj.1 requester⟩
  rw [base_words h h.dataMover routing tlpPrefix, byteSize_words_of_powerUser h length]
  rcases h with ⟨⟩
  simp_all

/-- The DWORDs of a header without fault decode to it, if its kind is known. -/
theorem decode_words {h : Header} (known : h.fmtType.kind?.isSome) (fault : h.fault? = none) :
    h.words.decode h.dataMover = .ok h := by
  obtain ⟨tag, bodyFault, routing, tlpPrefix⟩ := h.fault?_eq_none_iff.1 fault
  have named : ¬ h.fmtType.kind?.isNone := by
    rw [Option.isNone_iff_eq_none]
    exact Option.isSome_iff_ne_none.1 known
  rw [HeaderWords.decode, fmtType_words, if_neg named]
  rw [bodyFault?] at bodyFault
  cases body : h.body with
  | request r =>
    simp only [body] at bodyFault
    cases request : h.fmtType.isMemoryRequest <;> cases mode : h.dataMover <;>
      simp only [request, mode, if_true, if_false, Bool.false_eq_true, reduceCtorEq] at bodyFault ⊢
    · rw [powerUserRequest_words body mode bodyFault tag routing tlpPrefix]
    · rw [dataMoverRequest_words body mode bodyFault tag routing tlpPrefix]
  | completion c =>
    simp only [body] at bodyFault
    cases completion : h.fmtType.isCompletion <;> cases mode : h.dataMover <;>
      simp only [completion, mode, if_true, if_false, Bool.false_eq_true, reduceCtorEq]
        at bodyFault ⊢
    rw [if_neg (by simp [FmtType.isMemoryRequest_of_isCompletion completion]),
      powerUserCompletion_words body mode bodyFault tag routing tlpPrefix]
  | interrupt v =>
    simp only [body] at bodyFault
    cases interrupt : h.fmtType.isInterrupt <;> cases mode : h.dataMover <;>
      simp only [interrupt, mode, if_true, if_false, Bool.false_eq_true, reduceCtorEq]
        at bodyFault ⊢
    have ⟨notRequest, notCompletion⟩ := FmtType.classes_of_isInterrupt interrupt
    rw [if_neg (by simp [notRequest]), if_neg (by simp [notCompletion]),
      interrupt_words body mode bodyFault routing tlpPrefix]
  | other =>
    simp only [body] at bodyFault
    by_cases classified :
        h.fmtType.isMemoryRequest ∨ h.fmtType.isCompletion ∨ h.fmtType.isInterrupt
    · simp [classified] at bodyFault
    · rw [if_neg classified] at bodyFault
      obtain ⟨notRequest, notCompletion, notInterrupt⟩ := by simpa only [not_or] using classified
      rw [if_neg notRequest, if_neg notCompletion, if_neg notInterrupt,
        generic_words body bodyFault routing tlpPrefix]

end Header

namespace HeaderWords

/-- The headers that eight DWORDs stand for, one case for each layout. -/
inductive Decodes (w : HeaderWords) : Bool → Header → Prop
  | powerUserRequest (request : w.fmtType.isMemoryRequest = true) :
      Decodes w false w.powerUserRequest
  | dataMoverRequest (request : w.fmtType.isMemoryRequest = true) :
      Decodes w true w.dataMoverRequest
  | completion (notRequest : w.fmtType.isMemoryRequest = false)
      (completion : w.fmtType.isCompletion = true) : Decodes w false w.powerUserCompletion
  | interrupt (notRequest : w.fmtType.isMemoryRequest = false)
      (notCompletion : w.fmtType.isCompletion = false)
      (interrupt : w.fmtType.isInterrupt = true) :
      Decodes w true { w.base true with
        body := .interrupt (UInt16.ofNat (Layout.Interrupt.vector.read w.dw2)) }
  | other (dataMover : Bool) (notRequest : w.fmtType.isMemoryRequest = false)
      (notCompletion : w.fmtType.isCompletion = false)
      (notInterrupt : w.fmtType.isInterrupt = false) :
      Decodes w dataMover { w.base dataMover with byteSize := UInt32.ofNat w.byteSize }

variable {w : HeaderWords} {dataMover : Bool} {h : Header}

theorem decodes_of_decode (decoded : w.decode dataMover = .ok h) :
    w.fmtType.kind?.isSome ∧ w.Decodes dataMover h := by
  unfold decode at decoded
  by_cases unknown : w.fmtType.kind?.isNone
  · simp [unknown] at decoded
  have known : w.fmtType.kind?.isSome := by
    rw [Option.isSome_iff_ne_none]
    simpa using unknown
  refine ⟨known, ?_⟩
  rw [if_neg unknown] at decoded
  cases request : w.fmtType.isMemoryRequest with
  | true =>
    rw [request, if_pos rfl] at decoded
    cases dataMover <;> cases decoded
    · exact .powerUserRequest request
    · exact .dataMoverRequest request
  | false =>
    rw [request, if_neg Bool.false_ne_true] at decoded
    cases completion : w.fmtType.isCompletion with
    | true =>
      rw [completion, if_pos rfl] at decoded
      cases dataMover <;> cases decoded
      exact .completion request completion
    | false =>
      rw [completion, if_neg Bool.false_ne_true] at decoded
      cases interrupt : w.fmtType.isInterrupt with
      | true =>
        rw [interrupt, if_pos rfl] at decoded
        cases dataMover <;> cases decoded
        exact .interrupt request completion interrupt
      | false =>
        rw [interrupt, if_neg Bool.false_ne_true] at decoded
        cases decoded
        exact .other dataMover request completion interrupt

namespace Decodes

theorem fmtType (d : w.Decodes dataMover h) : h.fmtType = w.fmtType := by
  cases d <;> rfl

theorem dataMover_eq (d : w.Decodes dataMover h) : h.dataMover = dataMover := by
  cases d <;> rfl

theorem routing (d : w.Decodes dataMover h) : h.routing = w.routing := by
  cases d <;> rfl

theorem prefixWord (d : w.Decodes dataMover h) : h.prefixWord = w.prefixWord := by
  cases d <;> rfl

theorem metadata (d : w.Decodes dataMover h) :
    h.metadata = UInt64.ofNat (w.dw6.toNat * 2 ^ 32 + w.dw7.toNat) := by
  cases d <;> rfl

end Decodes

theorem toNat_ofNat_byteSize (w : HeaderWords) :
    (UInt32.ofNat w.byteSize).toNat = Layout.Common.length.read w.dw0 * 4 := by
  have bound : Layout.Common.length.read w.dw0 < 1024 := Field.read_lt ..
  rw [byteSize, UInt32.toNat_ofNat']
  omega

/-- The tag of ten bits that three fields make up. -/
theorem toNat_ofNat_tag (w : HeaderWords) {low : Nat} (byte : low < 256) :
    (UInt16.ofNat (w.tagHigh + low)).toNat =
      Layout.Common.tagBit9.read w.dw0 * 512 + Layout.Common.tagBit8.read w.dw0 * 256 + low := by
  have bit9 : Layout.Common.tagBit9.read w.dw0 < 2 := Field.read_lt ..
  have bit8 : Layout.Common.tagBit8.read w.dw0 < 2 := Field.read_lt ..
  rw [tagHigh, UInt16.toNat_ofNat']
  omega

theorem tag_lt (w : HeaderWords) {low : Nat} (byte : low < 256) :
    (UInt16.ofNat (w.tagHigh + low)).toNat < 1024 := by
  have bit9 : Layout.Common.tagBit9.read w.dw0 < 2 := Field.read_lt ..
  have bit8 : Layout.Common.tagBit8.read w.dw0 < 2 := Field.read_lt ..
  rw [toNat_ofNat_tag w byte]
  omega

end HeaderWords

/-- What a flit shows as its header, some eight DWORDs stand for. -/
theorem Flit.decodes_of_header {f : Flit} {h : Header} (shown : f.header = .ok h) :
    ∃ (w : HeaderWords) (dataMover : Bool), w.fmtType.kind?.isSome ∧ w.Decodes dataMover h := by
  unfold Flit.header at shown
  split at shown
  · cases shown
  · next w _ _ => exact ⟨w, f.dataMover, HeaderWords.decodes_of_decode shown⟩

end TlpBridge

import TlpBridge.Proofs.Tlp.StoredHeaders

/-!
# The normal form of a header

Every header that is found in a flit can be stored again. Storing it clears the bits that its
layout reserves or has no use for and keeps all others, so the stored form is a normal form.
-/
namespace TlpBridge

namespace Layout

/-- The fields that the header of a packet has in each of its DWORDs. All other bits are reserved
or have no use in its layout. -/
def fields (ft : FmtType) (dataMover : Bool) : Nat → List Field
  | 0 =>
    if ft.isMemoryRequest then
      [Common.fmtType, Common.tagBit9, Common.tagBit8, Common.length, Common.addressType,
        Common.poisoned, Common.digest, Common.hints, Common.lightweight]
    else if ft.isCompletion then
      [Common.fmtType, Common.tagBit9, Common.tagBit8, Common.length]
    else if ft.isInterrupt then [Common.fmtType]
    else [Common.fmtType, Common.length]
  | 1 =>
    if ft.isMemoryRequest then
      if dataMover then
        [DataMover.tagLow, DataMover.lengthLow, DataMover.lengthHigh, DataMover.addrLow]
      else [Request.requesterId, Request.tagLow, Request.lastEnable, Request.firstEnable]
    else if ft.isCompletion then
      [Completion.completerId, Completion.status, Completion.byteCountModified,
        Completion.byteCount]
    else []
  | 2 =>
    if ft.isMemoryRequest then [⟨0, 32⟩]
    else if ft.isCompletion then
      [Completion.requesterId, Completion.tagLow, Completion.lowerAddr]
    else if ft.isInterrupt then [Interrupt.vector]
    else []
  | 3 => if ft.isMemoryRequest ∧ (dataMover ∨ ft.hasLongAddress) then [Address.dwords] else []
  | 4 => [Prefix.present, Prefix.kind, Prefix.value]
  | 5 =>
    [Routing.bar, Routing.memoryMapped, Routing.slot, Routing.vfActive, Routing.vf, Routing.pf]
  | 6 | 7 => [⟨0, 32⟩]
  | _ => []

/-- Bit `k` of DWORD `i` belongs to a field of the header of a packet. -/
def Uses (ft : FmtType) (dataMover : Bool) (i k : Nat) : Prop :=
  ∃ f ∈ fields ft dataMover i, f.Covers k

instance (ft : FmtType) (dataMover : Bool) (i k : Nat) : Decidable (Uses ft dataMover i k) :=
  inferInstanceAs (Decidable (∃ f ∈ fields ft dataMover i, f.Covers k))

theorem fitTogether_fields (ft : FmtType) (dataMover : Bool) (i : Nat) :
    FitTogether (fields ft dataMover i) := by
  unfold fields
  split <;> repeat' split
  all_goals decide

end Layout

namespace HeaderWords

/-- The DWORDs without the bits that the header of a packet has no field for. -/
def normal (w : HeaderWords) (ft : FmtType) (dataMover : Bool) : HeaderWords where
  dw0 := onlyFields (Layout.fields ft dataMover 0) w.dw0
  dw1 := onlyFields (Layout.fields ft dataMover 1) w.dw1
  dw2 := onlyFields (Layout.fields ft dataMover 2) w.dw2
  dw3 := onlyFields (Layout.fields ft dataMover 3) w.dw3
  dw4 := onlyFields (Layout.fields ft dataMover 4) w.dw4
  dw5 := onlyFields (Layout.fields ft dataMover 5) w.dw5
  dw6 := onlyFields (Layout.fields ft dataMover 6) w.dw6
  dw7 := onlyFields (Layout.fields ft dataMover 7) w.dw7

variable {w : HeaderWords} {dataMover : Bool} {h : Header}

/-! ## What is decoded has no fault -/

theorem powerUserLengthFault?_byteSize (w : HeaderWords) :
    Header.powerUserLengthFault? (UInt32.ofNat w.byteSize) = none := by
  have bound : Layout.Common.length.read w.dw0 < 1024 := Field.read_lt ..
  rw [Header.powerUserLengthFault?_eq_none_iff, toNat_ofNat_byteSize]
  omega

theorem routingFault?_routing (w : HeaderWords) : Header.routingFault? w.routing = none := by
  have bar : Layout.Routing.bar.read w.dw5 < 128 := Field.read_lt ..
  have slot : Layout.Routing.slot.read w.dw5 < 32 := Field.read_lt ..
  have vf : Layout.Routing.vf.read w.dw5 < 2048 := Field.read_lt ..
  have pf : Layout.Routing.pf.read w.dw5 < 8 := Field.read_lt ..
  rw [Header.routingFault?_eq_none_iff]
  simp only [routing, UInt8.toNat_ofNat', UInt16.toNat_ofNat']
  omega

theorem prefixFault?_prefixWord (w : HeaderWords) :
    Header.prefixFault? w.prefixWord = none := by
  have kind : Layout.Prefix.kind.read w.dw4 < 32 := Field.read_lt ..
  have value : Layout.Prefix.value.read w.dw4 < 2 ^ 24 := Field.read_lt ..
  rw [Header.prefixFault?_eq_none_iff]
  simp only [prefixWord, UInt8.toNat_ofNat', UInt32.toNat_ofNat']
  omega

theorem bodyFault?_powerUserRequest {w : HeaderWords}
    (request : w.fmtType.isMemoryRequest = true) : w.powerUserRequest.bodyFault? = none := by
  have first : Layout.Request.firstEnable.read w.dw1 < 16 := Field.read_lt ..
  have last : Layout.Request.lastEnable.read w.dw1 < 16 := Field.read_lt ..
  have upper := w.dw2.toNat_lt
  rw [show w.powerUserRequest.bodyFault? = w.powerUserRequest.powerUserRequestFault? _ from
    if_pos request, Header.powerUserRequestFault?_eq_none_iff]
  refine ⟨w.powerUserLengthFault?_byteSize, ?_, ?_, ?_⟩
  · rw [UInt8.toNat_ofNat']
    omega
  · rw [UInt8.toNat_ofNat']
    omega
  · change (if w.fmtType.hasLongAddress then _ else _) = none
    cases w.fmtType.hasLongAddress with
    | true =>
      rw [if_pos rfl, if_pos rfl, Header.overflow?_eq_none_iff, addr64, UInt64.toNat_ofNat']
      omega
    | false =>
      rw [if_neg Bool.false_ne_true, if_neg Bool.false_ne_true, Header.overflow?_eq_none_iff,
        UInt64.toNat_ofNat']
      omega

theorem bodyFault?_dataMoverRequest {w : HeaderWords}
    (request : w.fmtType.isMemoryRequest = true) : w.dataMoverRequest.bodyFault? = none := by
  have high : Layout.DataMover.lengthHigh.read w.dw1 < 4096 := Field.read_lt ..
  have low : Layout.DataMover.lengthLow.read w.dw1 < 4 := Field.read_lt ..
  have length : Layout.Common.length.read w.dw0 < 1024 := Field.read_lt ..
  rw [show w.dataMoverRequest.bodyFault? = w.dataMoverRequest.dataMoverRequestFault? _ from
    if_pos request, Header.dataMoverRequestFault?_eq_none_iff]
  refine ⟨?_, rfl, rfl, rfl⟩
  change (UInt32.ofNat _).toNat < 2 ^ 24
  rw [UInt32.toNat_ofNat', byteSize]
  omega

theorem bodyFault?_powerUserCompletion {w : HeaderWords}
    (completion : w.fmtType.isCompletion = true) :
    w.powerUserCompletion.bodyFault? = none := by
  have count : Layout.Completion.byteCount.read w.dw1 < 4096 := Field.read_lt ..
  have status : Layout.Completion.status.read w.dw1 < 8 := Field.read_lt ..
  have lower : Layout.Completion.lowerAddr.read w.dw2 < 128 := Field.read_lt ..
  rw [show w.powerUserCompletion.bodyFault? = w.powerUserCompletion.completionFault? _ from
    if_pos completion, Header.completionFault?_eq_none_iff]
  refine ⟨w.powerUserLengthFault?_byteSize, ?_, rfl, ?_, ?_⟩
  · by_cases zero : Layout.Completion.byteCount.read w.dw1 = 0
    · rw [if_pos zero]
      change 0 < (4096 : UInt16).toNat ∧ (4096 : UInt16).toNat ≤ 4096
      decide
    · rw [if_neg zero, UInt16.toNat_ofNat']
      omega
  · rw [UInt8.toNat_ofNat']
    omega
  · rw [UInt32.toNat_ofNat']
    omega

theorem Decodes.bodyFault? (d : w.Decodes dataMover h) : h.bodyFault? = none := by
  cases d with
  | powerUserRequest request => exact bodyFault?_powerUserRequest request
  | dataMoverRequest request => exact bodyFault?_dataMoverRequest request
  | completion _ completion => exact bodyFault?_powerUserCompletion completion
  | interrupt _ _ interrupt => exact if_pos interrupt
  | other _ notRequest notCompletion notInterrupt =>
    have generic : Header.genericFault?
        { w.base dataMover with byteSize := UInt32.ofNat w.byteSize } = none :=
      (Header.genericFault?_eq_none_iff _).2 ⟨w.powerUserLengthFault?_byteSize, rfl, rfl⟩
    have unclassified : ¬ (w.fmtType.isMemoryRequest = true ∨ w.fmtType.isCompletion = true ∨
        w.fmtType.isInterrupt = true) := by
      simp [notRequest, notCompletion, notInterrupt]
    exact (if_neg unclassified).trans generic

/-- Every value that is decoded fits the field it came from. -/
theorem Decodes.fault? (d : w.Decodes dataMover h) : h.fault? = none := by
  rw [Header.fault?_eq_none_iff]
  refine ⟨?_, d.bodyFault?, ?_, ?_⟩
  · cases d with
    | powerUserRequest => exact w.tag_lt (Field.read_lt ..)
    | dataMoverRequest => exact w.tag_lt (Field.read_lt ..)
    | completion => exact w.tag_lt (Field.read_lt ..)
    | interrupt => exact Nat.zero_lt_succ _
    | other => exact Nat.zero_lt_succ _
  · rw [d.routing]
    exact w.routingFault?_routing
  · rw [d.prefixWord]
    exact w.prefixFault?_prefixWord

end HeaderWords

/-! ## What is decoded is encoded in the same fields -/

namespace Field

variable (f : Field) (dword : UInt32)

theorem read_mod : f.read dword % 2 ^ f.width = f.read dword :=
  Nat.mod_eq_of_lt (f.read_lt dword)

theorem read_lt_of_width_le {n : Nat} (fits : f.width ≤ n) : f.read dword < 2 ^ n :=
  Nat.lt_of_lt_of_le (f.read_lt dword) (Nat.pow_le_pow_right (by decide) fits)

theorem place_flag (bit : f.width = 1) : (f.flag dword).toNat % 2 ^ f.width = f.read dword := by
  have bound : f.read dword < 2 ^ f.width := f.read_lt dword
  rw [bit] at bound ⊢
  rw [flag]
  interval_cases f.read dword <;> rfl

theorem place_uint8 (fits : f.width ≤ 8) :
    (UInt8.ofNat (f.read dword)).toNat % 2 ^ f.width = f.read dword := by
  rw [UInt8.toNat_ofNat', Nat.mod_eq_of_lt (f.read_lt_of_width_le dword fits), read_mod]

theorem place_uint16 (fits : f.width ≤ 16) :
    (UInt16.ofNat (f.read dword)).toNat % 2 ^ f.width = f.read dword := by
  rw [UInt16.toNat_ofNat', Nat.mod_eq_of_lt (f.read_lt_of_width_le dword fits), read_mod]

theorem place_uint32 (fits : f.width ≤ 32) :
    (UInt32.ofNat (f.read dword)).toNat % 2 ^ f.width = f.read dword := by
  rw [UInt32.toNat_ofNat', Nat.mod_eq_of_lt (f.read_lt_of_width_le dword fits), read_mod]

end Field

/-- The parts hold what a DWORD holds in their fields. -/
def AgreeWith (dword : UInt32) (parts : List (Field × Nat)) : Prop :=
  ∀ p ∈ parts, p.2 % 2 ^ p.1.width = p.1.read dword

theorem agreeWith_nil (dword : UInt32) : AgreeWith dword [] := List.forall_mem_nil _

theorem agreeWith_cons {dword : UInt32} {f : Field} {v : Nat} {parts : List (Field × Nat)} :
    AgreeWith dword ((f, v) :: parts) ↔ v % 2 ^ f.width = f.read dword ∧ AgreeWith dword parts :=
  List.forall_mem_cons

namespace HeaderWords

variable {w : HeaderWords} {dataMover : Bool} {h : Header}

theorem agreeWith_commonParts {low : Nat} (ft : h.fmtType = w.fmtType)
    (size : h.byteSize.toNat / 4 % 1024 = Layout.Common.length.read w.dw0) (byte : low < 256)
    (tag : h.tag = UInt16.ofNat (w.tagHigh + low)) : AgreeWith w.dw0 h.commonParts := by
  have bit9 : Layout.Common.tagBit9.read w.dw0 < 2 := Field.read_lt ..
  have bit8 : Layout.Common.tagBit8.read w.dw0 < 2 := Field.read_lt ..
  simp only [Header.commonParts, agreeWith_cons, agreeWith_nil, and_true]
  rw [ft, tag, w.toNat_ofNat_tag byte]
  refine ⟨Field.place_uint8 _ _ (by decide), ?_, ?_, size⟩
  · change _ % 2 = _
    omega
  · change _ % 2 = _
    omega

theorem agreeWith_attributeParts (w : HeaderWords) :
    AgreeWith w.dw0 (Header.attributeParts w.attributes) := by
  simp only [Header.attributeParts, attributes, agreeWith_cons, agreeWith_nil, and_true,
    AddressType.toBits_ofBits]
  refine ⟨?_, Field.place_flag _ _ rfl, Field.place_flag _ _ rfl, Field.place_flag _ _ rfl,
    Field.place_flag _ _ rfl⟩
  have bound : Layout.Common.addressType.read w.dw0 < 4 := Field.read_lt ..
  change _ % 4 % 4 = _
  omega

/-- The low byte of a decoded tag. -/
theorem tag_mod {low : Nat} (w : HeaderWords) (byte : low < 256) :
    (UInt16.ofNat (w.tagHigh + low)).toNat % 256 = low := by
  rw [w.toNat_ofNat_tag byte]
  omega

theorem byteSize_div (w : HeaderWords) :
    (UInt32.ofNat w.byteSize).toNat / 4 % 1024 = Layout.Common.length.read w.dw0 := by
  have bound : Layout.Common.length.read w.dw0 < 1024 := Field.read_lt ..
  rw [toNat_ofNat_byteSize]
  omega

theorem toNat_dataMoverRequest_byteSize (w : HeaderWords) :
    w.dataMoverRequest.byteSize.toNat = Layout.DataMover.lengthHigh.read w.dw1 * 4096 +
      Layout.Common.length.read w.dw0 * 4 + Layout.DataMover.lengthLow.read w.dw1 := by
  have high : Layout.DataMover.lengthHigh.read w.dw1 < 4096 := Field.read_lt ..
  have low : Layout.DataMover.lengthLow.read w.dw1 < 4 := Field.read_lt ..
  have length : Layout.Common.length.read w.dw0 < 1024 := Field.read_lt ..
  change (UInt32.ofNat _).toNat = _
  rw [UInt32.toNat_ofNat', byteSize]
  omega

/-- Fields of zero can be left out. -/
theorem assemble_commonParts_of_tag_eq_zero (untagged : h.tag = 0) : assemble h.commonParts =
    assemble [(Layout.Common.fmtType, h.fmtType.code.toNat),
      (Layout.Common.length, h.byteSize.toNat / 4)] := by
  simp [assemble, Header.commonParts, untagged, Field.place]

theorem assemble_commonParts_of_eq_zero (untagged : h.tag = 0) (empty : h.byteSize = 0) :
    assemble h.commonParts = assemble [(Layout.Common.fmtType, h.fmtType.code.toNat)] := by
  rw [assemble_commonParts_of_tag_eq_zero untagged, empty]
  simp [assemble, Field.place]

theorem Decodes.word0 (d : w.Decodes dataMover h) :
    h.word0 = onlyFields (Layout.fields w.fmtType dataMover 0) w.dw0 := by
  cases d with
  | powerUserRequest request =>
    have agree : AgreeWith w.dw0 (w.powerUserRequest.commonParts ++
        Header.attributeParts w.attributes) :=
      List.forall_mem_append.2 ⟨agreeWith_commonParts rfl w.byteSize_div (Field.read_lt ..) rfl,
        w.agreeWith_attributeParts⟩
    rw [Layout.fields, if_pos request, Header.word0_of_request rfl, assemble_eq_onlyFields agree]
    rfl
  | dataMoverRequest request =>
    have size : w.dataMoverRequest.byteSize.toNat / 4 % 1024 =
        Layout.Common.length.read w.dw0 := by
      have low : Layout.DataMover.lengthLow.read w.dw1 < 4 := Field.read_lt ..
      have length : Layout.Common.length.read w.dw0 < 1024 := Field.read_lt ..
      rw [toNat_dataMoverRequest_byteSize]
      omega
    have agree : AgreeWith w.dw0 (w.dataMoverRequest.commonParts ++
        Header.attributeParts w.attributes) :=
      List.forall_mem_append.2 ⟨agreeWith_commonParts rfl size (Field.read_lt ..) rfl,
        w.agreeWith_attributeParts⟩
    rw [Layout.fields, if_pos request, Header.word0_of_request rfl, assemble_eq_onlyFields agree]
    rfl
  | completion notRequest completion =>
    have agree : AgreeWith w.dw0 w.powerUserCompletion.commonParts :=
      agreeWith_commonParts rfl w.byteSize_div (Field.read_lt ..) rfl
    rw [Layout.fields, notRequest, if_neg Bool.false_ne_true, if_pos completion,
      Header.word0_of_not_request rfl, assemble_eq_onlyFields agree]
    rfl
  | interrupt notRequest notCompletion interrupt =>
    have agree : AgreeWith w.dw0 [(Layout.Common.fmtType, w.fmtType.code.toNat)] :=
      List.forall_mem_singleton.2 (Field.place_uint8 _ _ (by decide))
    rw [Layout.fields, notRequest, if_neg Bool.false_ne_true, notCompletion,
      if_neg Bool.false_ne_true, if_pos interrupt, Header.word0_of_not_request rfl,
      assemble_commonParts_of_eq_zero rfl rfl]
    exact assemble_eq_onlyFields agree
  | other _ notRequest notCompletion notInterrupt =>
    have agree : AgreeWith w.dw0 [(Layout.Common.fmtType, w.fmtType.code.toNat),
        (Layout.Common.length, (UInt32.ofNat w.byteSize).toNat / 4)] :=
      List.forall_mem_cons.2 ⟨Field.place_uint8 _ _ (by decide),
        List.forall_mem_singleton.2 w.byteSize_div⟩
    rw [Layout.fields, notRequest, if_neg Bool.false_ne_true, notCompletion,
      if_neg Bool.false_ne_true, notInterrupt, if_neg Bool.false_ne_true,
      Header.word0_of_not_request rfl, assemble_commonParts_of_tag_eq_zero rfl]
    exact assemble_eq_onlyFields agree

theorem agreeWith_requestParts (w : HeaderWords) : AgreeWith w.dw1
    [(Layout.Request.requesterId, w.powerUserRequest.requesterId.toNat),
     (Layout.Request.tagLow, w.powerUserRequest.tag.toNat),
     (Layout.Request.lastEnable, (UInt8.ofNat (Layout.Request.lastEnable.read w.dw1)).toNat),
     (Layout.Request.firstEnable,
       (UInt8.ofNat (Layout.Request.firstEnable.read w.dw1)).toNat)] := by
  simp only [agreeWith_cons, agreeWith_nil, and_true]
  exact ⟨Field.place_uint16 _ _ (by decide), w.tag_mod (Field.read_lt ..),
    Field.place_uint8 _ _ (by decide), Field.place_uint8 _ _ (by decide)⟩

theorem agreeWith_dataMoverParts (w : HeaderWords) : AgreeWith w.dw1
    [(Layout.DataMover.tagLow, w.dataMoverRequest.tag.toNat),
     (Layout.DataMover.lengthLow, w.dataMoverRequest.byteSize.toNat),
     (Layout.DataMover.lengthHigh, w.dataMoverRequest.byteSize.toNat / 4096),
     (Layout.DataMover.addrLow,
       (UInt64.ofNat (w.addr64 + Layout.DataMover.addrLow.read w.dw1)).toNat)] := by
  have high : Layout.DataMover.lengthHigh.read w.dw1 < 4096 := Field.read_lt ..
  have low : Layout.DataMover.lengthLow.read w.dw1 < 4 := Field.read_lt ..
  have length : Layout.Common.length.read w.dw0 < 1024 := Field.read_lt ..
  have addr : Layout.DataMover.addrLow.read w.dw1 < 4 := Field.read_lt ..
  simp only [agreeWith_cons, agreeWith_nil, and_true, toNat_dataMoverRequest_byteSize,
    UInt64.toNat_ofNat', addr64]
  refine ⟨w.tag_mod (Field.read_lt ..), ?_, ?_, ?_⟩
  · change _ % 4 = _
    omega
  · change _ % 4096 = _
    omega
  · change _ % 4 = _
    omega

/-- A byte count of zero stands for 4096 bytes, and these are stored as zero. -/
theorem agreeWith_completionParts (w : HeaderWords) : AgreeWith w.dw1
    [(Layout.Completion.completerId,
       (UInt16.ofNat (Layout.Completion.completerId.read w.dw1)).toNat),
     (Layout.Completion.status, (UInt8.ofNat (Layout.Completion.status.read w.dw1)).toNat),
     (Layout.Completion.byteCountModified,
       (Layout.Completion.byteCountModified.flag w.dw1).toNat),
     (Layout.Completion.byteCount,
       (if Layout.Completion.byteCount.read w.dw1 = 0 then (4096 : UInt16)
         else UInt16.ofNat (Layout.Completion.byteCount.read w.dw1)).toNat)] := by
  simp only [agreeWith_cons, agreeWith_nil, and_true]
  refine ⟨Field.place_uint16 _ _ (by decide), Field.place_uint8 _ _ (by decide),
    Field.place_flag _ _ rfl, ?_⟩
  by_cases wrapped : Layout.Completion.byteCount.read w.dw1 = 0
  · rw [if_pos wrapped, wrapped]
    rfl
  · rw [if_neg wrapped]
    exact Field.place_uint16 _ _ (by decide)

theorem Decodes.word1 (d : w.Decodes dataMover h) :
    h.word1 = onlyFields (Layout.fields w.fmtType dataMover 1) w.dw1 := by
  cases d with
  | powerUserRequest request =>
    rw [Layout.fields, if_pos request, if_neg Bool.false_ne_true]
    exact assemble_eq_onlyFields w.agreeWith_requestParts
  | dataMoverRequest request =>
    rw [Layout.fields, if_pos request, if_pos rfl]
    exact assemble_eq_onlyFields w.agreeWith_dataMoverParts
  | completion notRequest completion =>
    rw [Layout.fields, notRequest, if_neg Bool.false_ne_true, if_pos completion]
    exact assemble_eq_onlyFields w.agreeWith_completionParts
  | interrupt notRequest notCompletion _ =>
    rw [Layout.fields, notRequest, if_neg Bool.false_ne_true, notCompletion,
      if_neg Bool.false_ne_true, onlyFields_nil]
    rfl
  | other _ notRequest notCompletion _ =>
    rw [Layout.fields, notRequest, if_neg Bool.false_ne_true, notCompletion,
      if_neg Bool.false_ne_true, onlyFields_nil]
    rfl

/-- A decoded address has its upper half from DWORD 2 and its DWORDs from DWORD 3. -/
theorem addr_of_addr64 (w : HeaderWords) {low : Nat} (small : low < 4) :
    UInt32.ofNat ((UInt64.ofNat (w.addr64 + low)).toNat / 2 ^ 32) = w.dw2 ∧
      AgreeWith w.dw3
        [(Layout.Address.dwords, (UInt64.ofNat (w.addr64 + low)).toNat / 4)] := by
  have upper := w.dw2.toNat_lt
  have lower : Layout.Address.dwords.read w.dw3 < 2 ^ 30 :=
    Field.read_lt_of_width_le _ _ (by decide)
  rw [UInt64.toNat_ofNat', addr64]
  constructor
  · rw [← UInt32.toNat_inj, UInt32.toNat_ofNat']
    omega
  · refine List.forall_mem_singleton.2 ?_
    change _ % 2 ^ 30 = Layout.Address.dwords.read w.dw3
    omega

theorem Decodes.word2 (d : w.Decodes dataMover h) :
    h.word2 = onlyFields (Layout.fields w.fmtType dataMover 2) w.dw2 := by
  cases d with
  | powerUserRequest request =>
    rw [Layout.fields, if_pos request, onlyFields_whole]
    cases long : w.fmtType.hasLongAddress with
    | true =>
      have ⟨addr, _⟩ := w.addr_of_addr64 (by decide : 0 < 4)
      rw [Nat.add_zero] at addr
      rw [Header.word2_of_long (h := w.powerUserRequest) rfl (.inr long), long, if_pos rfl, addr]
    | false =>
      have upper := w.dw2.toNat_lt
      have whole : (UInt64.ofNat w.dw2.toNat).toNat = w.dw2.toNat := by
        rw [UInt64.toNat_ofNat']
        omega
      rw [Header.word2_of_short rfl rfl long, long, if_neg Bool.false_ne_true, whole,
        UInt32.ofNat_toNat]
  | dataMoverRequest request =>
    rw [Layout.fields, if_pos request, onlyFields_whole, Header.word2_of_long rfl (.inl rfl)]
    exact (w.addr_of_addr64 (Field.read_lt ..)).1
  | completion notRequest completion =>
    have agree : AgreeWith w.dw2
        [(Layout.Completion.requesterId, w.powerUserCompletion.requesterId.toNat),
         (Layout.Completion.tagLow, w.powerUserCompletion.tag.toNat),
         (Layout.Completion.lowerAddr,
           (UInt32.ofNat (Layout.Completion.lowerAddr.read w.dw2)).toNat)] := by
      simp only [agreeWith_cons, agreeWith_nil, and_true]
      exact ⟨Field.place_uint16 _ _ (by decide), w.tag_mod (Field.read_lt ..),
        Field.place_uint32 _ _ (by decide)⟩
    rw [Layout.fields, notRequest, if_neg Bool.false_ne_true, if_pos completion]
    exact assemble_eq_onlyFields agree
  | interrupt notRequest notCompletion interrupt =>
    have agree : AgreeWith w.dw2 [(Layout.Interrupt.vector,
        (UInt16.ofNat (Layout.Interrupt.vector.read w.dw2)).toNat)] :=
      List.forall_mem_singleton.2 (Field.place_uint16 _ _ (by decide))
    rw [Layout.fields, notRequest, if_neg Bool.false_ne_true, notCompletion,
      if_neg Bool.false_ne_true, if_pos interrupt]
    exact assemble_eq_onlyFields agree
  | other _ notRequest notCompletion notInterrupt =>
    rw [Layout.fields, notRequest, if_neg Bool.false_ne_true, notCompletion,
      if_neg Bool.false_ne_true, notInterrupt, if_neg Bool.false_ne_true, onlyFields_nil]
    rfl

theorem Decodes.word3 (d : w.Decodes dataMover h) :
    h.word3 = onlyFields (Layout.fields w.fmtType dataMover 3) w.dw3 := by
  cases d with
  | powerUserRequest request =>
    cases long : w.fmtType.hasLongAddress with
    | true =>
      have ⟨_, agree⟩ := w.addr_of_addr64 (by decide : 0 < 4)
      rw [Nat.add_zero] at agree
      rw [Layout.fields, if_pos ⟨request, .inr long⟩,
        Header.word3_of_long (h := w.powerUserRequest) rfl (.inr long), long, if_pos rfl]
      exact assemble_eq_onlyFields agree
    | false =>
      have short : ¬ (w.fmtType.isMemoryRequest = true ∧
          (false = true ∨ w.fmtType.hasLongAddress = true)) := by simp [long]
      rw [Layout.fields, if_neg short, onlyFields_nil, Header.word3_of_short rfl rfl long]
  | dataMoverRequest request =>
    have agree := (w.addr_of_addr64 (Field.read_lt Layout.DataMover.addrLow w.dw1)).2
    rw [Layout.fields, if_pos ⟨request, .inl rfl⟩, Header.word3_of_long rfl (.inl rfl)]
    exact assemble_eq_onlyFields agree
  | completion notRequest _ =>
    rw [Layout.fields, if_neg (by simp [notRequest]), onlyFields_nil]
    rfl
  | interrupt notRequest _ _ =>
    rw [Layout.fields, if_neg (by simp [notRequest]), onlyFields_nil]
    rfl
  | other _ notRequest _ _ =>
    rw [Layout.fields, if_neg (by simp [notRequest]), onlyFields_nil]
    rfl

theorem agreeWith_prefixParts (w : HeaderWords) : AgreeWith w.dw4
    [(Layout.Prefix.present, w.prefixWord.present.toNat),
     (Layout.Prefix.kind, w.prefixWord.kind.toNat),
     (Layout.Prefix.value, w.prefixWord.value.toNat)] := by
  simp only [agreeWith_cons, agreeWith_nil, and_true]
  exact ⟨Field.place_flag _ _ rfl, Field.place_uint8 _ _ (by decide),
    Field.place_uint32 _ _ (by decide)⟩

theorem agreeWith_routingParts (w : HeaderWords) : AgreeWith w.dw5
    [(Layout.Routing.bar, w.routing.bar.toNat),
     (Layout.Routing.memoryMapped, w.routing.memoryMapped.toNat),
     (Layout.Routing.slot, w.routing.slot.toNat),
     (Layout.Routing.vfActive, w.routing.vfActive.toNat),
     (Layout.Routing.vf, w.routing.vf.toNat),
     (Layout.Routing.pf, w.routing.pf.toNat)] := by
  simp only [agreeWith_cons, agreeWith_nil, and_true]
  exact ⟨Field.place_uint8 _ _ (by decide), Field.place_flag _ _ rfl,
    Field.place_uint8 _ _ (by decide), Field.place_flag _ _ rfl,
    Field.place_uint16 _ _ (by decide), Field.place_uint8 _ _ (by decide)⟩

/-- The metadata are DWORDs 6 and 7. -/
theorem Decodes.metadata_halves (d : w.Decodes dataMover h) :
    UInt32.ofNat (h.metadata.toNat / 2 ^ 32) = w.dw6 ∧ UInt32.ofNat h.metadata.toNat = w.dw7 := by
  have upper := w.dw6.toNat_lt
  have lower := w.dw7.toNat_lt
  have whole : h.metadata.toNat = w.dw6.toNat * 2 ^ 32 + w.dw7.toNat := by
    rw [d.metadata, UInt64.toNat_ofNat']
    omega
  rw [← UInt32.toNat_inj, ← UInt32.toNat_inj, UInt32.toNat_ofNat', UInt32.toNat_ofNat', whole]
  omega

theorem Decodes.words (d : w.Decodes dataMover h) :
    h.words = w.normal w.fmtType dataMover := by
  obtain ⟨upper, lower⟩ := d.metadata_halves
  rw [Header.words, normal, d.word0, d.word1, d.word2, d.word3, d.routing, d.prefixWord,
    assemble_eq_onlyFields w.agreeWith_prefixParts,
    assemble_eq_onlyFields w.agreeWith_routingParts, upper, lower]
  simp only [Layout.fields, onlyFields_whole, List.map_cons, List.map_nil]

end HeaderWords

/-! ## What is found in a flit can be stored again -/

namespace Flit

/-- Decodes the header of a flit and stores it in its place. -/
def recode (f : Flit) : Except EncodingError Flit := do
  let h ← f.header
  f.storeHeader h

theorem reset_eq_of_widths {f g : Flit} (data : f.data.width = g.data.width)
    (user : f.user.width = g.user.width) (keep : f.keep.width = g.keep.width) :
    f.reset = g.reset := by
  simp only [reset, Lane.clear, data, user, keep]

/-- The encoding of a flit is marked in every flit of the same user width. -/
theorem dataMover_setDataMover_dataMover {f fresh : Flit}
    (user : fresh.user.width = f.user.width) :
    (fresh.reset.setDataMover f.dataMover).dataMover = f.dataMover := by
  by_cases marked : 1 ≤ fresh.user.width
  · exact dataMover_setDataMover _ _ marked
  · -- without a user bit no flit is marked
    have unmarked {g : Flit} (empty : g.user.width = 0) : g.dataMover = false :=
      g.user.testBit_of_le (by omega)
    have none : fresh.user.width = 0 := by omega
    rw [unmarked (g := fresh.reset.setDataMover f.dataMover) none,
      unmarked (g := f) (user ▸ none)]

theorem getElem_headerWords (f : Flit) {k : Nat} (hk : k < f.headerWords.toList.length) :
    f.headerWords.toList[k] = f.dwordAt k := by
  rw [HeaderWords.length_toList, HeaderWords.count] at hk
  interval_cases k <;> rfl

theorem getElem_normal (f : Flit) (ft : FmtType) (dataMover : Bool) {k : Nat}
    (hk : k < (f.headerWords.normal ft dataMover).toList.length) :
    (f.headerWords.normal ft dataMover).toList[k] =
      onlyFields (Layout.fields ft dataMover k) (f.dwordAt k) := by
  rw [HeaderWords.length_toList, HeaderWords.count] at hk
  interval_cases k <;> rfl

variable {f fresh g : Flit} {h : Header}

/-- The header that a flit shows is one that its first eight DWORDs stand for. -/
theorem decodes_headerWords (shown : f.header = .ok h) : 32 ≤ f.data.byteWidth ∧
    h.fmtType.kind?.isSome ∧ f.headerWords.Decodes f.dataMover h := by
  have long : 32 ≤ f.data.byteWidth := by
    have reaches := count_le_of_header shown
    rwa [Lane.length_bytes] at reaches
  rw [f.header_eq_decode_of_bytes long] at shown
  obtain ⟨known, d⟩ := HeaderWords.decodes_of_decode shown
  exact ⟨long, d.fmtType ▸ known, d⟩

theorem width_data_of_storeHeader (stored : fresh.storeHeader h = .ok g) :
    g.data.width = fresh.data.width := by
  obtain ⟨-, rfl⟩ := (storeHeader_eq_ok_iff ..).1 stored
  rw [width_data_setDwords]
  rfl

theorem dataMover_of_storeHeader (d : f.headerWords.Decodes f.dataMover h)
    (user : fresh.user.width = f.user.width) (stored : fresh.storeHeader h = .ok g) :
    g.dataMover = h.dataMover := by
  obtain ⟨-, rfl⟩ := (storeHeader_eq_ok_iff ..).1 stored
  rw [dataMover_setDwords, d.dataMover_eq]
  exact dataMover_setDataMover_dataMover user

/-- The lanes that showed the DWORDs of a header have room for the fields of them. -/
theorem headerWords_of_storeHeader (d : f.headerWords.Decodes f.dataMover h)
    (data : fresh.data.width = f.data.width) (stored : fresh.storeHeader h = .ok g) :
    g.headerWords = f.headerWords.normal h.fmtType h.dataMover := by
  obtain ⟨-, rfl⟩ := (storeHeader_eq_ok_iff ..).1 stored
  rw [d.words, ← d.fmtType, ← d.dataMover_eq]
  apply headerWords_setDwords_of_holds
  intro k hk
  rw [getElem_normal]
  have fits : 32 * (k + 1) ≤ f.data.positions := by
    have small : 2 ^ 64 ≤ f.data.positions := f.data.le_positions
    rw [HeaderWords.length_toList, HeaderWords.count] at hk
    omega
  have room : Lane.Holds (fresh.reset.setDataMover h.dataMover).data k (f.dwordAt k) :=
    Lane.holds_dwordAt data fits
  apply room.mono
  intro b set
  rw [testBit_onlyFields (Layout.fitTogether_fields ..)] at set
  exact (Bool.and_eq_true_iff.1 set).2

theorem dwordAt_of_normal {ft : FmtType} {dataMover : Bool}
    (words : g.headerWords = f.headerWords.normal ft dataMover) {i : Nat}
    (hi : i < HeaderWords.count) :
    g.dwordAt i = onlyFields (Layout.fields ft dataMover i) (f.dwordAt i) := by
  have place : i < g.headerWords.toList.length := hi
  have header : g.headerWords.toList[i] = g.dwordAt i := g.getElem_headerWords place
  rw [← header]
  simp only [words, getElem_normal]

/-- A flit that shows what was stored in it does not change when it is recoded. -/
theorem recode_of_storeHeader (stored : fresh.storeHeader h = .ok g) (shown : g.header = .ok h) :
    g.recode = .ok g := by
  obtain ⟨fault, is⟩ := (storeHeader_eq_ok_iff ..).1 stored
  have clear : g.reset = fresh.reset.reset :=
    reset_eq_of_widths (by rw [is, width_data_setDwords]; rfl) (by rw [is, user_setDwords]; rfl)
      (by rw [is, width_keep_setDwords]; rfl)
  rw [recode, shown]
  exact (storeHeader_eq_ok_iff ..).2 ⟨fault, by rw [clear]; exact is⟩

/-- Whatever a flit decodes to can be stored in a fresh flit of the same widths. That flit decodes
to the same header, it has the bits of the first flit in the fields of the header and no others,
and it does not change when it is recoded. -/
theorem normal_form_of_header {f : Flit} {h : Header} (decoded : f.header = .ok h) (fresh : Flit)
    (data : fresh.data.width = f.data.width) (user : fresh.user.width = f.user.width) :
    ∃ g, fresh.storeHeader h = .ok g ∧ g.header = .ok h ∧
      (∀ i < HeaderWords.count, ∀ k, (g.dwordAt i).toNat.testBit k =
        (decide (Layout.Uses h.fmtType h.dataMover i k) && (f.dwordAt i).toNat.testBit k)) ∧
      g.recode = .ok g := by
  obtain ⟨long, known, d⟩ := decodes_headerWords decoded
  obtain ⟨g, stored⟩ : ∃ g, fresh.storeHeader h = .ok g :=
    ⟨_, (storeHeader_eq_ok_iff ..).2 ⟨d.fault?, rfl⟩⟩
  have words := headerWords_of_storeHeader d data stored
  have shown : g.header = .ok h := by
    have width : g.data.byteWidth = f.data.byteWidth := by
      rw [Lane.byteWidth, width_data_of_storeHeader stored, data, ← Lane.byteWidth]
    rw [g.header_eq_decode_of_bytes (width ▸ long), words, dataMover_of_storeHeader d user stored]
    have same : h.words = f.headerWords.normal h.fmtType h.dataMover := by
      rw [d.words, d.fmtType, d.dataMover_eq]
    exact same ▸ Header.decode_words known d.fault?
  refine ⟨g, stored, shown, fun i hi k => ?_, recode_of_storeHeader stored shown⟩
  rw [dwordAt_of_normal words hi, testBit_onlyFields (Layout.fitTogether_fields ..)]
  rfl

/-- An interrupt with a length, tag bits and an upper half of its vector, none of which it has a
use for, in a flit that ends six bits before its header does. -/
theorem normal_form_of_interrupt :
    let f := ((blank 250 1).setDataMover true).setDwords 0 [0x30ffffff, 0, 0xffff0005]
    let h : Header := { fmtType := .interrupt, dataMover := true, body := .interrupt 5 }
    f.header = .ok h ∧ ∃ g, (blank 250 1).storeHeader h = .ok g ∧ g.header = .ok h ∧
      (f.dwordAt 2).toNat.testBit 16 = true ∧ (g.dwordAt 2).toNat.testBit 16 = false ∧
      g.recode = .ok g := by
  intro f h
  have decoded : f.header = .ok h := by decide +kernel
  obtain ⟨g, stored, shown, bits, again⟩ :=
    normal_form_of_header decoded (blank 250 1) (by decide) (by decide)
  refine ⟨decoded, g, stored, shown, by decide +kernel, ?_, again⟩
  rw [bits 2 (by decide) 16]
  have unused : ¬ Layout.Uses h.fmtType h.dataMover 2 16 := by decide
  rw [decide_eq_false unused, Bool.false_and]

end Flit

end TlpBridge

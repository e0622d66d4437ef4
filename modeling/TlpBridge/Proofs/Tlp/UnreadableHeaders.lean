import TlpBridge.Proofs.FromDevice.ServedKinds
import TlpBridge.Proofs.Tlp.StoredHeaders

/-!
# Headers that are stored and cannot be read

A layout is chosen by single bits of the fmt/type byte, a kind by the whole byte. A header whose
byte names no kind is therefore stored wherever its layout carries its fields, and the flit that
took it shows no header.
-/
namespace TlpBridge

namespace Header

/-- The length fits the ten bits of DWORDs that most layouts have. -/
def CountsDwords (h : Header) : Prop :=
  h.byteSize.toNat % 4 = 0 ∧ h.byteSize.toNat < powerUserLengthLimit

/-- The layout that the bits of the fmt/type byte choose is the one of the body, and it carries
every field outside routing and prefix, one case for each layout. -/
inductive FitsLayout (h : Header) : Prop where
  | powerUserRequest (r : RequestBody) (body : h.body = .request r)
    (chosen : h.fmtType.isMemoryRequest) (mode : h.dataMover = false) (length : h.CountsDwords)
    (first : r.firstEnable.toNat < 16) (last : r.lastEnable.toNat < 16)
    (address : if h.fmtType.hasLongAddress then r.addr.toNat % 4 = 0 else r.addr.toNat < 2 ^ 32)
  | dataMoverRequest (r : RequestBody) (body : h.body = .request r)
    (chosen : h.fmtType.isMemoryRequest) (mode : h.dataMover = true)
    (length : h.byteSize.toNat < dataMoverLengthLimit)
    (requester : h.requesterId = h.routing.functionId)
    (first : r.firstEnable = 0xf) (last : r.lastEnable = 0xf)
  | completion (c : CompletionBody) (body : h.body = .completion c)
    (chosen : h.fmtType.isCompletion) (mode : h.dataMover = false) (length : h.CountsDwords)
    (counted : 0 < c.byteCount.toNat ∧ c.byteCount.toNat ≤ 4096)
    (unfinished : c.finalCompletion = false) (status : c.status.toNat < 8)
    (address : c.lowerAddr.toNat < 128)
  | interrupt (v : UInt16) (body : h.body = .interrupt v) (chosen : h.fmtType.isInterrupt)
    (mode : h.dataMover = true) (length : h.byteSize = 0) (tag : h.tag = 0)
    (requester : h.requesterId = 0)
  | generic (body : h.body = .other) (notRequest : ¬ h.fmtType.isMemoryRequest)
    (notCompletion : ¬ h.fmtType.isCompletion) (notInterrupt : ¬ h.fmtType.isInterrupt)
    (length : h.CountsDwords) (tag : h.tag = 0) (requester : h.requesterId = 0)

/-- Every field has a place of its width in the eight DWORDs. -/
structure Carried (h : Header) : Prop where
  layout : h.FitsLayout
  tag : h.tag.toNat < 1024
  bar : h.routing.bar.toNat < 128
  slot : h.routing.slot.toNat < 32
  vf : h.routing.vf.toNat < 2048
  pf : h.routing.pf.toNat < 8
  prefixKind : h.prefixWord.kind.toNat < 32
  prefixValue : h.prefixWord.value.toNat < 2 ^ 24

theorem addressFault?_eq_none_iff (h : Header) (r : RequestBody) :
    (if h.fmtType.hasLongAddress then overflow? .addrLow (r.addr.toNat % 4) 0
      else overflow? .addr r.addr.toNat 32) = none ↔
    if h.fmtType.hasLongAddress then r.addr.toNat % 4 = 0 else r.addr.toNat < 2 ^ 32 := by
  cases h.fmtType.hasLongAddress with
  | true => simp
  | false => simp

theorem bodyFault?_of_fitsLayout {h : Header} (fits : h.FitsLayout) : h.bodyFault? = none := by
  cases fits with
  | powerUserRequest r body chosen mode length first last address =>
    simp only [bodyFault?, body, chosen, mode, if_true, Bool.false_eq_true, if_false]
    exact (h.powerUserRequestFault?_eq_none_iff r).2
      ⟨(powerUserLengthFault?_eq_none_iff _).2 length, first, last,
        (h.addressFault?_eq_none_iff r).2 address⟩
  | dataMoverRequest r body chosen mode length requester first last =>
    simp only [bodyFault?, body, chosen, mode, if_true]
    refine (h.dataMoverRequestFault?_eq_none_iff r).2 ⟨length, ?_, ?_, ?_⟩
    · rw [requester]
    · rw [first]; rfl
    · rw [last]; rfl
  | completion c body chosen mode length counted unfinished status address =>
    simp only [bodyFault?, body, chosen, mode, if_true, Bool.false_eq_true, if_false]
    exact (h.completionFault?_eq_none_iff c).2
      ⟨(powerUserLengthFault?_eq_none_iff _).2 length, counted, unfinished, status, address⟩
  | interrupt v body chosen mode length tag requester =>
    simp only [bodyFault?, body, chosen, mode, if_true]
    refine h.interruptFault?_eq_none_iff.2 ⟨?_, ?_, ?_⟩
    · rw [length]; rfl
    · rw [tag]; rfl
    · rw [requester]; rfl
  | generic body notRequest notCompletion notInterrupt length tag requester =>
    simp only [bodyFault?, body, notRequest, notCompletion, notInterrupt, or_self]
    refine h.genericFault?_eq_none_iff.2
      ⟨(powerUserLengthFault?_eq_none_iff _).2 length, ?_, ?_⟩
    · rw [tag]; rfl
    · rw [requester]; rfl

theorem fitsLayout_of_bodyFault? {h : Header} (noFault : h.bodyFault? = none) :
    h.FitsLayout := by
  rw [bodyFault?] at noFault
  cases body : h.body with
  | request r =>
    simp only [body] at noFault
    cases chosen : h.fmtType.isMemoryRequest <;> cases mode : h.dataMover <;>
      simp only [chosen, mode, if_true, if_false, Bool.false_eq_true, reduceCtorEq] at noFault
    · obtain ⟨length, first, last, address⟩ :=
        (h.powerUserRequestFault?_eq_none_iff r).1 noFault
      exact .powerUserRequest r body chosen mode
        ((powerUserLengthFault?_eq_none_iff _).1 length) first last
        ((h.addressFault?_eq_none_iff r).1 address)
    · obtain ⟨length, requester, first, last⟩ :=
        (h.dataMoverRequestFault?_eq_none_iff r).1 noFault
      exact .dataMoverRequest r body chosen mode length (UInt16.toNat_inj.1 requester)
        (UInt8.toNat_inj.1 first) (UInt8.toNat_inj.1 last)
  | completion c =>
    simp only [body] at noFault
    cases chosen : h.fmtType.isCompletion <;> cases mode : h.dataMover <;>
      simp only [chosen, mode, if_true, if_false, Bool.false_eq_true, reduceCtorEq] at noFault
    obtain ⟨length, counted, unfinished, status, address⟩ :=
      (h.completionFault?_eq_none_iff c).1 noFault
    exact .completion c body chosen mode ((powerUserLengthFault?_eq_none_iff _).1 length) counted
      unfinished status address
  | interrupt v =>
    simp only [body] at noFault
    cases chosen : h.fmtType.isInterrupt <;> cases mode : h.dataMover <;>
      simp only [chosen, mode, if_true, if_false, Bool.false_eq_true, reduceCtorEq] at noFault
    obtain ⟨length, tag, requester⟩ := h.interruptFault?_eq_none_iff.1 noFault
    exact .interrupt v body chosen mode (UInt32.toNat_inj.1 length) (UInt16.toNat_inj.1 tag)
      (UInt16.toNat_inj.1 requester)
  | other =>
    simp only [body] at noFault
    by_cases classified :
        h.fmtType.isMemoryRequest ∨ h.fmtType.isCompletion ∨ h.fmtType.isInterrupt
    · simp [classified] at noFault
    · rw [if_neg classified] at noFault
      obtain ⟨notRequest, notCompletion, notInterrupt⟩ := by simpa only [not_or] using classified
      obtain ⟨length, tag, requester⟩ := h.genericFault?_eq_none_iff.1 noFault
      exact .generic body notRequest notCompletion notInterrupt
        ((powerUserLengthFault?_eq_none_iff _).1 length) (UInt16.toNat_inj.1 tag)
        (UInt16.toNat_inj.1 requester)

theorem fault?_eq_none_iff_carried (h : Header) : h.fault? = none ↔ h.Carried := by
  rw [fault?_eq_none_iff, routingFault?_eq_none_iff, prefixFault?_eq_none_iff]
  constructor
  · rintro ⟨tag, body, ⟨bar, slot, vf, pf⟩, kind, value⟩
    exact ⟨fitsLayout_of_bodyFault? body, tag, bar, slot, vf, pf, kind, value⟩
  · rintro ⟨layout, tag, bar, slot, vf, pf, kind, value⟩
    exact ⟨tag, bodyFault?_of_fitsLayout layout, ⟨bar, slot, vf, pf⟩, kind, value⟩

/-- The fmt/type byte names no kind, and the layout that its bits choose carries the header. -/
structure Unreadable (h : Header) : Prop where
  unnamed : h.fmtType.kind? = none
  carried : h.Carried

/-- A header with the given fmt/type byte that needs no more than its layout has. -/
def plain (ft : FmtType) : Header where
  fmtType := ft
  dataMover := ft.isInterrupt
  body := if ft.isCompletion then .completion { byteCount := 1 } else ft.emptyBody

theorem carried_plain (ft : FmtType) : (plain ft).Carried := by
  refine (fault?_eq_none_iff_carried _).1 ?_
  revert ft
  exact FmtType.forall_of_codes (by decide +kernel)

end Header

namespace Flit

variable {f f' : Flit} {h : Header}

/-- A header of no kind is refused, and the flit stays as it was. -/
def RefusesUnnamed (f : Flit) (h : Header) : Prop :=
  h.fmtType.kind? = none → (∃ cause, f.storeHeader h = .error cause) ∧ f.storing h = f

/-- Where a header is stored, its kind can be read again. -/
def ShowsKind (f : Flit) (h : Header) : Prop :=
  ∀ f', f.storeHeader h = .ok f' → ∀ cause, f'.header ≠ .error (.unknownKind cause)

theorem header_unknownKind_iff (wide : 256 ≤ f.data.width) (stored : f.storeHeader h = .ok f')
    (cause : UnknownKind) : f'.header = .error (.unknownKind cause) ↔
      h.fmtType.kind? = none ∧ cause = ⟨h.fmtType.code⟩ := by
  obtain ⟨-, rfl⟩ := (storeHeader_eq_ok_iff ..).1 stored
  have cleared : 256 ≤ (f.reset.setDataMover h.dataMover).data.width := wide
  rw [header_eq_decode _ (by rw [width_data_setDwords]; exact cleared),
    headerWords_setDwords _ _ cleared, HeaderWords.decode, Header.fmtType_words]
  cases kind : h.fmtType.kind? with
  | none => simp [eq_comm]
  | some k =>
    simp only [Option.isNone_some, Bool.false_eq_true, if_false, reduceCtorEq, false_and, iff_false]
    split_ifs <;> simp

theorem storeHeader_of_carried (f : Flit) (carried : h.Carried) :
    ∃ f', f.storeHeader h = .ok f' :=
  ⟨_, (storeHeader_eq_ok_iff ..).2 ⟨h.fault?_eq_none_iff_carried.2 carried, rfl⟩⟩

theorem storeHeader_of_not_carried (f : Flit) (lost : ¬ h.Carried) :
    (∃ cause, f.storeHeader h = .error cause) ∧ f.storing h = f := by
  cases fault : h.fault? with
  | none => exact absurd (h.fault?_eq_none_iff_carried.1 fault) lost
  | some cause =>
    have refused := (storeHeader_eq_error_iff f h cause).2 fault
    exact ⟨⟨cause, refused⟩, storing_of_refused refused⟩

theorem header_of_unreadable (wide : 256 ≤ f.data.width) (unreadable : h.Unreadable) :
    ∃ f', f.storeHeader h = .ok f' ∧
      f'.header = .error (.unknownKind ⟨h.fmtType.code⟩) := by
  obtain ⟨f', stored⟩ := storeHeader_of_carried f unreadable.carried
  exact ⟨f', stored, (header_unknownKind_iff wide stored _).2 ⟨unreadable.unnamed, rfl⟩⟩

theorem refusesUnnamed_iff_not_unreadable (f : Flit) (h : Header) :
    f.RefusesUnnamed h ↔ ¬ h.Unreadable := by
  constructor
  · intro refuses unreadable
    obtain ⟨f', stored⟩ := storeHeader_of_carried f unreadable.carried
    obtain ⟨⟨cause, refused⟩, -⟩ := refuses unreadable.unnamed
    rw [stored] at refused
    cases refused
  · intro readable unnamed
    exact storeHeader_of_not_carried f fun carried => readable ⟨unnamed, carried⟩

theorem showsKind_iff_not_unreadable (wide : 256 ≤ f.data.width) :
    f.ShowsKind h ↔ ¬ h.Unreadable := by
  constructor
  · intro shows unreadable
    obtain ⟨f', stored, shown⟩ := header_of_unreadable wide unreadable
    exact shows f' stored _ shown
  · intro readable f' stored cause shown
    have unnamed := ((header_unknownKind_iff wide stored cause).1 shown).1
    have noFault := ((storeHeader_eq_ok_iff ..).1 stored).1
    exact readable ⟨unnamed, h.fault?_eq_none_iff_carried.1 noFault⟩

/-- A header of no kind is refused, and where one is stored its kind can be read, except for the
headers of no kind that their layout carries. Those are stored in every flit, each flit then
reports their byte as unknown, and every byte that names no kind has such a header. -/
theorem refusesUnnamed_iff (f : Flit) (wide : 256 ≤ f.data.width) :
    (∀ h : Header, (f.RefusesUnnamed h ↔ ¬ h.Unreadable) ∧ (f.ShowsKind h ↔ ¬ h.Unreadable)) ∧
      (∀ h : Header, h.Unreadable → ∃ f', f.storeHeader h = .ok f' ∧
        f'.header = .error (.unknownKind ⟨h.fmtType.code⟩)) ∧
      ∀ ft : FmtType, ft.kind? = none → ∃ h : Header, h.fmtType = ft ∧ h.Unreadable := by
  refine ⟨fun h => ⟨refusesUnnamed_iff_not_unreadable f h, showsKind_iff_not_unreadable wide⟩,
    fun h => header_of_unreadable wide, ?_⟩
  intro ft unnamed
  exact ⟨Header.plain ft, rfl, unnamed, Header.carried_plain ft⟩

/-- The byte `0xff` on the narrowest lanes that hold a header. -/
theorem refusesUnnamed_iff_256 :
    let f := blank 256 10
    let h := Header.plain ⟨0xff⟩
    256 ≤ f.data.width ∧ h.fmtType.kind? = none ∧ ¬ f.RefusesUnnamed h ∧ ¬ f.ShowsKind h := by
  intro f h
  have wide : 256 ≤ f.data.width := by decide
  have unreadable : h.Unreadable := ⟨by decide, Header.carried_plain _⟩
  have outcome := (refusesUnnamed_iff f wide).1 h
  exact ⟨wide, unreadable.unnamed, fun refuses => outcome.1.1 refuses unreadable,
    fun shows => outcome.2.1 shows unreadable⟩

end Flit
end TlpBridge

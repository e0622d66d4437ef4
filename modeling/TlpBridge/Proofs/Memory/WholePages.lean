import TlpBridge.Memory.Service
import TlpBridge.Proofs.Iommu.Invalidation

/-!
# Whole pages

Whatever was done to the tables, every page in them leads to a page of its own size that is aligned
like it. So the addresses of 4 KiB that follow one another lead to addresses that follow one
another, and an access to them can be resolved at its first address.
-/
namespace TlpBridge

open PageSize

variable {A : IovaAllocator}

/-- Every page leads to an address where a page of its size can start. -/
def RadixTable.Aligned (n : RadixTable) : Prop :=
  ∀ (a : UInt64) (s : Nat) (l : Leaf), s ≤ rootLevel → n.leafAt? a s = some l →
    bytesAt s ∣ l.va.toNat

namespace RadixTable

variable {n : RadixTable}

theorem Aligned.empty : RadixTable.empty.Aligned := by
  intro a s l _ page
  simp [leafAt?_empty] at page

theorem Traced.aligned (traced : n.Traced) : n.Aligned := by
  intro a s l inside page
  obtain ⟨size, rfl, aligned, -⟩ := traced a s l inside page
  exact aligned

theorem Aligned.pin (h : n.Aligned) {a va : UInt64} {t : Nat} {r : Pinned RadixTable}
    (inside : t ≤ rootLevel) (whole : bytesAt t ∣ va.toNat) (pinned : n.pin a va t = .ok r) :
    r.table.Aligned := by
  intro b s l lower page
  rw [leafAt?_pin b lower inside pinned] at page
  split_ifs at page with overlap same
  · subst same
    cases page
    exact whole
  · exact h b s l lower page

theorem Aligned.unpin (h : n.Aligned) {a : UInt64} {t left : Nat} {n' : RadixTable}
    (inside : t ≤ rootLevel) (unpinned : n.unpin a t = .ok (left, n')) : n'.Aligned := by
  intro b s l lower page
  rw [leafAt?_unpin b lower inside unpinned] at page
  split_ifs at page with own
  · obtain ⟨f, found, rfl⟩ := Option.map_eq_some_iff.1 page
    exact h b s f lower found
  · exact h b s l lower page

theorem Aligned.toNat_of_page (h : n.Aligned) {a : UInt64} {s : Nat} (inside : s ≤ rootLevel)
    {l : Leaf} (page : n.leafAt? a s = some l) (c : UInt64) :
    (l.va ||| UInt64.ofNat (c.toNat % bytesAt s)).toNat = l.va.toNat + c.toNat % bytesAt s :=
  toNat_or_offset_of_dvd (h a s l inside page) (Nat.mod_lt _ (bytesAt_pos s))
    (Nat.lt_of_le_of_lt (Nat.mod_le ..) c.toNat_lt)

/-- Inside 4 KiB addresses lead as far from each other as they are. -/
theorem Aligned.translate_near (h : n.Aligned) {a b v : UInt64} (leads : n.translate a = some v)
    (near : a.toNat / 4096 = b.toNat / 4096) :
    ∃ w, n.translate b = some w ∧ w.toNat + a.toNat = v.toNat + b.toNat := by
  obtain ⟨s, inside, l, page, rfl⟩ := (translate_eq_some_iff n a v).1 leads
  have same : a.toNat / bytesAt s = b.toNat / bytesAt s := by
    obtain ⟨k, factor⟩ : 4096 ∣ bytesAt s := bytesAt_dvd (Nat.zero_le s)
    rw [factor, ← Nat.div_div_eq_div_mul, ← Nat.div_div_eq_div_mul, near]
  refine ⟨l.va ||| UInt64.ofNat (b.toNat % bytesAt s), ?_, ?_⟩
  · rw [translate_eq_some_iff]
    exact ⟨s, inside, l, (leafAt?_congr n (.of_div_eq rootLevel same) inside).symm.trans page, rfl⟩
  · rw [h.toNat_of_page inside page, h.toNat_of_page inside page]
    have splitA := Nat.div_add_mod a.toNat (bytesAt s)
    have splitB := Nat.div_add_mod b.toNat (bytesAt s)
    rw [same] at splitA
    omega

/-- An address leads to its offset in 4 KiB. -/
theorem Aligned.translate_offset (h : n.Aligned) {a v : UInt64} (leads : n.translate a = some v) :
    v.toNat % 4096 = a.toNat % 4096 := by
  obtain ⟨s, inside, l, page, rfl⟩ := (translate_eq_some_iff n a v).1 leads
  have size : 4096 ∣ bytesAt s := bytesAt_dvd (Nat.zero_le s)
  have start : l.va.toNat % 4096 = 0 :=
    Nat.mod_eq_zero_of_dvd (size.trans (h a s l inside page))
  rw [h.toNat_of_page inside page, Nat.add_mod, start, Nat.mod_mod_of_dvd _ size, Nat.zero_add,
    Nat.mod_mod]

end RadixTable

/-- Both tables hold whole pages. -/
structure Iommu.Aligned (t : Iommu A) : Prop where
  iova : t.iova.Aligned
  pa : t.pa.Aligned

namespace PinnedTables

variable {s : PinnedTables A}

theorem aligned_iova_call (aligned : s.tables.iova.Aligned) (c : IommuCall) :
    (s.call c).tables.iova.Aligned := by
  cases c with
  | pin va len =>
    rcases s.tables.pin_cases va len with ⟨e, space, refused, -⟩ | ⟨size, range, space, r, pins⟩
    · rw [call, refused]
      exact aligned
    · rw [call, pins.state]
      exact aligned.pin size.level_le_rootLevel pins.aligned pins.pinned
  | unpin iova len =>
    rcases s.tables.unpin_cases iova len with ⟨e, refused, -⟩ |
      ⟨size, left, table, given, -, unpinned, -, -, state⟩
    · rw [call, refused]
      exact aligned
    · rw [call, state]
      exact aligned.unpin size.level_le_rootLevel unpinned
  | translate iova => exact aligned
  | physicalOf va =>
    rw [call, (s.tables.physicalOf_iova_side va).1]
    exact aligned
  | virtualOf pa => exact aligned
  | invalidate va len => exact aligned
  | terminate =>
    rw [call, s.tables.terminate_eq]
    exact .empty
  | remap source => exact aligned

theorem aligned_iova_run (aligned : s.tables.iova.Aligned) (calls : List IommuCall) :
    (s.run calls).tables.iova.Aligned := by
  induction calls generalizing s with
  | nil => exact aligned
  | cons c calls ih => exact ih (aligned_iova_call aligned c)

theorem aligned_run (options : Switches) (map : MemoryMap) (calls : List IommuCall) :
    ((start options map : PinnedTables A).run calls).tables.Aligned where
  iova := aligned_iova_run (s := start options map) .empty calls
  pa := (traced_run (s := start options map) .empty calls).aligned

end PinnedTables

namespace Iommu

variable {t : Iommu A} {type : AddressType} {a b v : UInt64}

theorem resolve_eq_ok_iff : t.resolve type a = .ok v ↔
    type = .untranslated ∧ t.iova.translate a = some v ∨
      type = .translated ∧ t.pa.translate a = some v := by
  unfold resolve translate virtualOf
  cases type with
  | untranslated => cases t.iova.translate a <;> simp
  | translated => cases t.pa.translate a <;> simp
  | translationRequest => simp
  | reserved => simp

/-- Inside 4 KiB an access is resolved alike at every address. -/
theorem Aligned.resolve_near (aligned : t.Aligned) (leads : t.resolve type a = .ok v)
    (near : a.toNat / 4096 = b.toNat / 4096) :
    ∃ w, t.resolve type b = .ok w ∧ w.toNat + a.toNat = v.toNat + b.toNat := by
  rcases resolve_eq_ok_iff.1 leads with ⟨rfl, found⟩ | ⟨rfl, found⟩
  · obtain ⟨w, leads, apart⟩ := aligned.iova.translate_near found near
    exact ⟨w, resolve_eq_ok_iff.2 (.inl ⟨rfl, leads⟩), apart⟩
  · obtain ⟨w, leads, apart⟩ := aligned.pa.translate_near found near
    exact ⟨w, resolve_eq_ok_iff.2 (.inr ⟨rfl, leads⟩), apart⟩

theorem Aligned.resolve_offset (aligned : t.Aligned) (leads : t.resolve type a = .ok v) :
    v.toNat % 4096 = a.toNat % 4096 := by
  rcases resolve_eq_ok_iff.1 leads with ⟨-, found⟩ | ⟨-, found⟩
  · exact aligned.iova.translate_offset found
  · exact aligned.pa.translate_offset found

end Iommu

end TlpBridge

import TlpBridge.Iommu.Event
import TlpBridge.Iommu.MemoryMap
import TlpBridge.Iommu.RangeAllocator
import TlpBridge.Stream.Parameters
import TlpBridge.Word.Power

/-!
# Translation tables

Two radix tables lead from device addresses to virtual addresses of the process. The
IOVA table holds the pages that were pinned, each at an IOVA of its own. The PA table
serves address translation requests; the physical address of a virtual page is its
address under a mask, so that it can be told without remembering it.
-/
namespace TlpBridge

open scoped Power

structure Iommu (A : IovaAllocator) where
  iova : RadixTable := .empty
  pa : RadixTable := .empty
  space : A.Space := A.initial
  pageSizes : PageSizes
  /-- Every change is followed by a listing of both tables. -/
  debug : Bool := false

/-- The bits in which the physical address of a page differs from its virtual address. The offset
inside a page of the level is not among them. -/
def physicalMask (level : Nat) : UInt64 :=
  UInt64.ofNat ((2 ^ (47 : Nat) - 1) / PageSize.bytesAt level * PageSize.bytesAt level)

namespace Iommu

variable {A : IovaAllocator}

/-- Tables without pages over a source of page sizes. -/
def ofMemoryMap (options : Switches) (map : MemoryMap) : Iommu A :=
  { pageSizes := ⟨map, none⟩, debug := options.pageTableDebug }

/-- Sets up tables and the space that their addresses are taken from. -/
def create (A : IovaAllocator) (options : Switches) (map : MemoryMap) :
    Except IommuError (Iommu A) :=
  match IovaSpace.create A.toRangeAllocator with
  | .error e => .error (.allocator e)
  | .ok space =>
    .ok { space := space, pageSizes := ⟨map, none⟩, debug := options.pageTableDebug }

theorem create_eq_ok (options : Switches) (map : MemoryMap) :
    create A options map = .ok (ofMemoryMap options map) := by
  rw [create, A.created]
  rfl

/-- The listing of both tables that debugging asks for. -/
def listing (t : Iommu A) : List IommuEvent :=
  if t.debug then
    t.iova.listing TableName.iova.label ++ t.pa.listing TableName.pa.label
  else []

private def refuse {α : Type} (t : Iommu A) (e : IommuError) :
    Step IommuEvent (Iommu A) (Except IommuError α) :=
  ⟨.error e, t, []⟩

/-- Pins the page of `len` bytes at `va` and answers with the IOVA chosen for it. -/
def pin (t : Iommu A) (va len : UInt64) : Step IommuEvent (Iommu A) (Except IommuError UInt64) :=
  match PageSize.ofLength len with
  | .error e => t.refuse e
  | .ok size =>
    if va.toNat % size.bytes ≠ 0 then t.refuse (.misaligned va size.bytes)
    else
      match A.allocate t.space size.bytes size.bytes .firstMatch with
      | (.error _, space) =>
        { t with space := space }.refuse (.allocationExhausted size.bytes)
      | (.ok range, space) =>
        let iova := UInt64.ofNat range.start
        match t.iova.pin iova va size.level with
        | .error e =>
          match A.free space range with
          | (.error cause, space) => { t with space := space }.refuse (.allocator cause)
          | (.ok (), space) => { t with space := space }.refuse e
        | .ok r =>
          let t := { t with iova := r.table, space := space }
          ⟨.ok iova, t, r.events iova ++ .pinned va size.bytes iova :: t.listing⟩

/-- Takes back a pin. If the address is not the one that `pin` answered with but lies in the same
page, the page is gone and its range of IOVAs stays taken. -/
def unpin (t : Iommu A) (iova len : UInt64) : Step IommuEvent (Iommu A) (Except IommuError Unit) :=
  match PageSize.ofLength len with
  | .error e => t.refuse e
  | .ok size =>
    match t.iova.unpin iova size.level with
    | .error e => t.refuse e
    | .ok (left, table) =>
      let given :=
        if left = 0 then IovaSpace.giveBack A.toRangeAllocator t.space iova size.bytes
        else (.ok (), t.space)
      let t := { t with iova := table, space := given.2 }
      match given.1 with
      | .error cause => t.refuse (.allocator cause)
      | .ok () => ⟨.ok (), t, .unpinned iova size.bytes left :: t.listing⟩

/-- The virtual address that an IOVA leads to. -/
def translate (t : Iommu A) (iova : UInt64) : Option UInt64 := t.iova.translate iova

/-- The virtual address that a physical address leads to. -/
def virtualOf (t : Iommu A) (pa : UInt64) : Option UInt64 := t.pa.translate pa

/-- Makes the PA table lead from a physical page to a virtual page, if it does not yet. -/
def mapPhysical (t : Iommu A) (paPage vaPage : UInt64) (level : Nat) :
    Step IommuEvent (Iommu A) (Except IommuError Unit) :=
  let found := t.pa.lookup paPage
  if found.any fun m => m.va = vaPage ∧ m.level = level then ⟨.ok (), t, []⟩
  else
    let conflict := (found.map fun m => .conflict paPage m vaPage level).toList
    match t.pa.pin paPage vaPage level with
    | .error e => ⟨.error e, t, conflict⟩
    | .ok r =>
      let t := { t with pa := r.table }
      ⟨.ok (), t, conflict ++ r.events paPage ++ .mapped vaPage paPage level :: t.listing⟩

/-- The physical address of a virtual address and the size of its page, or nothing where nothing is
mapped. The PA table is made to lead back. -/
def physicalOf (t : Iommu A) (va : UInt64) :
    Step IommuEvent (Iommu A) (Except IommuError (Option (UInt64 × PageSize))) :=
  match t.pageSizes.sizeAt va with
  | (.error e, pageSizes) => { t with pageSizes := pageSizes }.refuse e
  | (.ok none, pageSizes) => ⟨.ok none, { t with pageSizes := pageSizes }, []⟩
  | (.ok (some size), pageSizes) =>
    let pa := va ^^^ physicalMask size.level
    let step := { t with pageSizes := pageSizes }.mapPhysical
      (UInt64.ofNat (size.pageOf pa.toNat)) (UInt64.ofNat (size.pageOf va.toNat)) size.level
    ⟨step.answer.map fun _ => some (pa, size), step.state, step.events⟩

/-- The page sizes, from large to small. -/
def sizesDescending : List PageSize := [.size1G, .size2M, .size4K]

/-- The physical page that would lead to a virtual page. -/
def physicalPage (vaPage : Nat) (size : PageSize) : UInt64 :=
  UInt64.ofNat vaPage ^^^ physicalMask size.level

/-- The size of the page that the PA table has for a virtual address, the largest first. -/
def mappedSize? (pa : RadixTable) (va : Nat) : Option PageSize :=
  sizesDescending.find? fun size =>
    (pa.lookup (physicalPage (size.pageOf va) size)).any fun m =>
      m.level = size.level ∧ m.va = UInt64.ofNat (size.pageOf va)

/-- Removes the pages of the PA table that lead into `[cursor, stop)`, in ascending order. -/
def removeMapped (stop cursor : Nat) (pa : RadixTable) : RadixTable × List IommuEvent :=
  if cursor < stop then
    match mappedSize? pa cursor with
    | none => removeMapped stop (cursor + PageSize.size4K.bytes) pa
    | some size =>
      let vaPage := size.pageOf cursor
      let paPage := physicalPage vaPage size
      let rest := removeMapped stop (vaPage + size.bytes) (pa.remove paPage size.level).2
      (rest.1, .invalidated (UInt64.ofNat vaPage) paPage :: rest.2)
  else (pa, [])
termination_by stop - cursor
decreasing_by
  · have := PageSize.size4K.bytes_pos
    omega
  · have h := Nat.div_add_mod cursor size.bytes
    have hm := Nat.mod_lt cursor size.bytes_pos
    have : cursor < size.pageOf cursor + size.bytes := by
      rw [PageSize.pageOf, Nat.mul_comm]
      omega
    omega

/-- Forgets every physical page that leads into the `len` bytes from `va` on, and what was read of
the memory map. -/
def invalidate (t : Iommu A) (va len : UInt64) : Step IommuEvent (Iommu A) Unit :=
  let stop := min (va.toNat + len.toNat) (2 ^ (64 : Nat) - 1)
  let (pa, events) := removeMapped stop (PageSize.size4K.pageOf va.toNat) t.pa
  let t := { t with pa := pa, pageSizes := t.pageSizes.forget }
  ⟨(), t, events ++ t.listing⟩

/-- The number of pinned IOVA pages. -/
def livePages (t : Iommu A) : Nat := t.iova.pageCount

/-- Tears both tables down and takes back every IOVA. -/
def terminate (t : Iommu A) : Step IommuEvent (Iommu A) (Except IommuError Unit) :=
  let t := { t with iova := .empty, pa := .empty }
  match IovaSpace.create A.toRangeAllocator with
  | .error e => t.refuse (.allocator e)
  | .ok space =>
    ⟨.ok (), { t with space := space, pageSizes := t.pageSizes.forget }, [.tornDown]⟩

/-- The space can be set up again as it was before. -/
theorem terminate_eq (t : Iommu A) : t.terminate =
    ⟨.ok (), { t with
      iova := .empty, pa := .empty, space := A.initial, pageSizes := t.pageSizes.forget },
      [.tornDown]⟩ := by
  simp only [terminate, A.created]

end Iommu

end TlpBridge

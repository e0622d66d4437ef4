import TlpBridge.Iommu.PageSize

/-!
# Memory maps

Which virtual addresses of the process are mapped, and by pages of which size. The
map is read from a source, and what was read last is kept until it is dropped.
-/
namespace TlpBridge

/-- A mapped range of virtual addresses and the size of its pages in KiB. -/
structure MappedRange where
  start : UInt64
  stop : UInt64
  pageKb : UInt64
deriving DecidableEq

def MappedRange.contains (r : MappedRange) (va : UInt64) : Bool :=
  decide (r.start ≤ va ∧ va < r.stop)

/-- A source of memory maps. -/
structure MemoryMap where
  ranges : List MappedRange
  /-- A source that cannot be read makes every scan fail. -/
  readable : Bool := true
  /-- The scans so far, with the failed ones. -/
  scans : Nat := 0
deriving DecidableEq

/-- Reads the source once. -/
def MemoryMap.scan (m : MemoryMap) : Option (List MappedRange) × MemoryMap :=
  (if m.readable then some m.ranges else none, { m with scans := m.scans + 1 })

/-- A source together with what was last read from it. -/
structure PageSizes where
  source : MemoryMap
  known : Option (List MappedRange) := none
deriving DecidableEq

namespace PageSizes

/-- The first known range that holds an address. -/
def find? (p : PageSizes) (va : UInt64) : Option MappedRange :=
  p.known.bind fun ranges => ranges.find? (·.contains va)

/-- The known range that holds an address, after a new scan if none does. -/
def locate (p : PageSizes) (va : UInt64) : Except IommuError (Option MappedRange) × PageSizes :=
  match p.find? va with
  | some r => (.ok (some r), p)
  | none =>
    match p.source.scan with
    | (none, source) => (.error .memoryMap, { p with source := source })
    | (some ranges, source) =>
      let p : PageSizes := ⟨source, some ranges⟩
      (.ok (p.find? va), p)

/-- The size of the page that holds an address, or nothing where nothing is mapped. -/
def sizeAt (p : PageSizes) (va : UInt64) : Except IommuError (Option PageSize) × PageSizes :=
  match p.locate va with
  | (.error e, p) => (.error e, p)
  | (.ok none, p) => (.ok none, p)
  | (.ok (some r), p) => ((PageSize.ofPageKb r.pageKb).map some, p)

/-- Drops what was read. -/
def forget (p : PageSizes) : PageSizes := { p with known := none }

end PageSizes

end TlpBridge

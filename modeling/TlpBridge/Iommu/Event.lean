import TlpBridge.Iommu.RadixTable
import TlpBridge.Trace

/-!
# Reports of the translation tables
-/
namespace TlpBridge

/-- The two trees of the translation tables. -/
inductive TableName where
  | iova
  | pa
deriving DecidableEq

def TableName.label : TableName → String
  | .iova => "IOVA"
  | .pa => "PA"

inductive IommuEvent where
  | displaced (addr : UInt64) (what : Displaced)
  | pinned (va : UInt64) (len : Nat) (iova : UInt64)
  | unpinned (iova : UInt64) (len left : Nat)
  /-- A physical page leads elsewhere than a virtual page now asks for. -/
  | conflict (pa : UInt64) (found : Mapping) (va : UInt64) (level : Nat)
  | mapped (va pa : UInt64) (level : Nat)
  | invalidated (va pa : UInt64)
  | tornDown
  /-- One slot in use, in a dump of a table. -/
  | listed (table : String) (slot : Occupied)

namespace IommuEvent

/-- The line for one slot in use, indented by its distance from the root. -/
def listedText (table : String) (slot : Occupied) : String :=
  table ++ ": " ++ String.ofList (List.replicate (2 * (rootLevel - slot.level)) ' ') ++
    "L" ++ toString slot.level ++ " " ++ Text.hexPadded0x 12 slot.addr ++
    match slot.leaf? with
    | some l => " -> va " ++ Text.hexPadded0x 12 l.va.toNat ++ " [" ++ toString l.count ++ "]"
    | none => ""

def record : IommuEvent → Record
  | .displaced addr (.split level va) =>
    ⟨.debug, .iommu, "addr " ++ Text.hex0x addr.toNat ++ ": replacing level " ++ toString level ++
      " page (va " ++ Text.hex0x va.toNat ++ ") with a table"⟩
  | .displaced addr (.dropped level) =>
    ⟨.debug, .iommu, "addr " ++ Text.hex0x addr.toNat ++
      ": dropping smaller pages under the level " ++ toString level ++ " page"⟩
  | .pinned va len iova =>
    ⟨.debug, .iommu, "pin va " ++ Text.hex0x va.toNat ++ " len " ++ Text.hex0x len ++
      " -> iova " ++ Text.hex0x iova.toNat⟩
  | .unpinned iova len left =>
    ⟨.debug, .iommu, "unpin iova " ++ Text.hex0x iova.toNat ++ " len " ++ Text.hex0x len ++
      ", " ++ toString left ++ " pins left"⟩
  | .conflict pa found va level =>
    ⟨.error, .iommu, "pa " ++ Text.hex0x pa.toNat ++ " maps va " ++ Text.hex0x found.va.toNat ++
      " at level " ++ toString found.level ++ ", expected va " ++ Text.hex0x va.toNat ++
      " at level " ++ toString level⟩
  | .mapped va pa level =>
    ⟨.debug, .iommu, "map va " ++ Text.hex0x va.toNat ++ " -> pa " ++ Text.hex0x pa.toNat ++
      " level " ++ toString level⟩
  | .invalidated va pa =>
    ⟨.debug, .iommu, "invalidate va " ++ Text.hex0x va.toNat ++ " pa " ++ Text.hex0x pa.toNat⟩
  | .tornDown => ⟨.debug, .iommu, "page tables torn down"⟩
  | .listed table slot => ⟨.trace, .iommu, listedText table slot⟩

end IommuEvent

/-- The lines that list a radix table under a name. -/
def RadixTable.listing (t : RadixTable) (name : String) : List IommuEvent :=
  t.occupied.map (.listed name)

/-- The reports of what a pin at an address put aside. -/
def Pinned.events {α : Type} (r : Pinned α) (addr : UInt64) : List IommuEvent :=
  (r.displaced.map (.displaced addr)).toList

end TlpBridge

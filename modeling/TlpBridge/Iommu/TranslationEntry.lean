import TlpBridge.Word.Bytes

/-!
# Translation entries

The form in which address translation services tell a physical address and the size of
its page. The size stands as a run of ones from bit 11 upwards, and the entry is
written with its most significant byte first.
-/
namespace TlpBridge.TranslationEntry

/-- Reading is permitted. -/
def permitRead : UInt32 := 1

/-- Writing is permitted. -/
def permitWrite : UInt32 := 2

/-- The same eight bytes in the opposite order. -/
def swapBytes (v : UInt64) : UInt64 :=
  UInt64.ofNat (ofLittleEndian (littleEndian 8 v.toNat).reverse)

/-- The entry, before its bytes are swapped, of a page of `pageBytes` bytes. -/
def plain (pa pageBytes : UInt64) (permissions : UInt32) : UInt64 :=
  let ones := UInt64.ofNat (pageBytes.toNat / 4096 - 1)
  (pa &&& ~~~(0xfff : UInt64)) ||| permissions.toUInt64 ||| (ones <<< 11)

/-- The entry in wire order. Physical address zero stands for no translation, and its entry is
zero. -/
def encode (pa pageBytes : UInt64) (permissions : UInt32) : UInt64 :=
  if pa = 0 then 0 else swapBytes (plain pa pageBytes permissions)

end TlpBridge.TranslationEntry

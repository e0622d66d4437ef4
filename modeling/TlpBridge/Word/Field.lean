import TlpBridge.Word.Power

/-!
# Bit fields of a DWORD

A field is a run of bits. A DWORD is put together as a sum of placed values, which
for fields that do not overlap is their bitwise union, and a field is read back by
division and remainder.
-/
namespace TlpBridge

open scoped Power

/-- The bits `lsb`, …, `lsb + width - 1` of a DWORD. -/
structure Field where
  lsb : Nat
  width : Nat
deriving DecidableEq

namespace Field

/-- The value `v`, reduced to the width of the field, at the place of the field. -/
def place (f : Field) (v : Nat) : Nat := v % 2 ^ f.width * 2 ^ f.lsb

/-- The value that a DWORD holds in the field. -/
def read (f : Field) (dword : UInt32) : Nat := dword.toNat / 2 ^ f.lsb % 2 ^ f.width

/-- Whether a DWORD holds anything but zero in the field. -/
def flag (f : Field) (dword : UInt32) : Bool := f.read dword != 0

/-- The mask of the bits that the field occupies. -/
def mask (f : Field) : Nat := (2 ^ f.width - 1) * 2 ^ f.lsb

theorem read_lt (f : Field) (dword : UInt32) : f.read dword < 2 ^ f.width :=
  Nat.mod_lt _ (Nat.two_pow_pos _)

end Field

/-- The DWORD that holds the given value in each of the listed fields and zero elsewhere. -/
def assemble (parts : List (Field × Nat)) : UInt32 :=
  UInt32.ofNat (parts.foldr (fun p n => p.1.place p.2 + n) 0)

end TlpBridge

import TlpBridge.Word.Power

/-!
# Byte images

Little-endian byte images of numbers, and the DWORDs at the start of an image. A
read that runs out of bytes gives back the image from the DWORD that is incomplete.
-/
namespace TlpBridge

open scoped Power

/-- The `n` low bytes of `v`, least significant first. -/
def littleEndian : Nat → Nat → List UInt8
  | 0, _ => []
  | n + 1, v => UInt8.ofNat v :: littleEndian n (v / 256)

/-- The number whose little-endian image is given. -/
def ofLittleEndian (image : List UInt8) : Nat :=
  image.foldr (fun b v => b.toNat + 256 * v) 0

@[simp] theorem length_littleEndian (n v : Nat) : (littleEndian n v).length = n := by
  induction n generalizing v with
  | zero => rfl
  | succ n ih => simp [littleEndian, ih]

theorem ofLittleEndian_littleEndian (n v : Nat) (h : v < 256 ^ n) :
    ofLittleEndian (littleEndian n v) = v := by
  induction n generalizing v with
  | zero => simp at h; subst h; rfl
  | succ n ih =>
    have small : v / 256 < 256 ^ n := by
      rw [Nat.pow_succ] at h
      omega
    have step := ih (v / 256) small
    simp only [ofLittleEndian] at step
    simp only [littleEndian, ofLittleEndian, List.foldr_cons, step, UInt8.toNat_ofNat']
    omega

/-- The four bytes of a DWORD, least significant first. -/
def dwordBytes (v : UInt32) : List UInt8 := littleEndian 4 v.toNat

/-- The bytes of a run of DWORDs, in order. -/
def dwordsBytes (vs : List UInt32) : List UInt8 := vs.flatMap dwordBytes

/-- The DWORD at the start of an image and the image after it. -/
def takeDword : List UInt8 → Except (List UInt8) (UInt32 × List UInt8)
  | a :: b :: c :: d :: rest => .ok (UInt32.ofNat (ofLittleEndian [a, b, c, d]), rest)
  | short => .error short

/-- The first `n` DWORDs of an image and the image after them. -/
def takeDwords : Nat → List UInt8 → Except (List UInt8) (List UInt32 × List UInt8)
  | 0, image => .ok ([], image)
  | n + 1, image => do
    let (v, rest) ← takeDword image
    let (vs, rest) ← takeDwords n rest
    .ok (v :: vs, rest)

/-- The image cut into DWORDs, the last one filled up with zero bytes. -/
def dwordsOfBytes : List UInt8 → List UInt32
  | a :: b :: c :: d :: rest => UInt32.ofNat (ofLittleEndian [a, b, c, d]) :: dwordsOfBytes rest
  | [] => []
  | short => [UInt32.ofNat (ofLittleEndian short)]

end TlpBridge

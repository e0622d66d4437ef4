import Mathlib.Tactic
import TlpBridge.Engine.ToDevice

/-!
# Images in DWORDs

A byte image that is cut into DWORDs and filled up with zeros has, byte for byte, the
image and the zeros.
-/
namespace TlpBridge

theorem ofLittleEndian_cons (b : UInt8) (image : List UInt8) :
    ofLittleEndian (b :: image) = b.toNat + 256 * ofLittleEndian image := rfl

theorem ofLittleEndian_lt (image : List UInt8) : ofLittleEndian image < 256 ^ image.length := by
  induction image with
  | nil => simp [ofLittleEndian]
  | cons b image ih =>
    have small := b.toNat_lt
    rw [ofLittleEndian_cons, List.length_cons, Nat.pow_succ]
    omega

theorem ofLittleEndian_append (image rest : List UInt8) : ofLittleEndian (image ++ rest) =
    ofLittleEndian image + 256 ^ image.length * ofLittleEndian rest := by
  induction image with
  | nil => simp [ofLittleEndian]
  | cons b image ih =>
    rw [List.cons_append, ofLittleEndian_cons, ih, ofLittleEndian_cons, List.length_cons]
    ring

/-- A number made of an image has that image, and zeros above it. -/
theorem littleEndian_ofLittleEndian (image : List UInt8) (n : Nat) (fits : image.length ≤ n) :
    littleEndian n (ofLittleEndian image) = image ++ List.replicate (n - image.length) 0 := by
  induction image generalizing n with
  | nil =>
    induction n with
    | zero => rfl
    | succ n ih =>
      simp only [List.length_nil, Nat.sub_zero, List.nil_append] at ih ⊢
      rw [littleEndian, List.replicate_succ]
      exact congrArg₂ List.cons rfl (ih (Nat.zero_le n))
  | cons b image ih =>
    obtain ⟨m, rfl⟩ : ∃ m, n = m + 1 := ⟨n - 1, by simp at fits; omega⟩
    have small := b.toNat_lt
    have low : UInt8.ofNat (b.toNat + 256 * ofLittleEndian image) = b := by
      apply UInt8.toNat_inj.1
      rw [UInt8.toNat_ofNat']
      omega
    have high : (b.toNat + 256 * ofLittleEndian image) / 256 = ofLittleEndian image := by omega
    rw [ofLittleEndian_cons, littleEndian, low, high, ih m (by simpa using fits),
      List.length_cons, Nat.add_sub_add_right, List.cons_append]

theorem dwordBytes_ofLittleEndian (image : List UInt8) (fits : image.length ≤ 4) :
    dwordBytes (UInt32.ofNat (ofLittleEndian image)) =
      image ++ List.replicate (4 - image.length) 0 := by
  have small : ofLittleEndian image < 2 ^ 32 :=
    (ofLittleEndian_lt image).trans_le (Nat.pow_le_pow_right (by decide) fits)
  rw [dwordBytes, UInt32.toNat_ofNat', Nat.mod_eq_of_lt small,
    littleEndian_ofLittleEndian image 4 fits]

theorem dwordsBytes_cons (v : UInt32) (vs : List UInt32) :
    dwordsBytes (v :: vs) = dwordBytes v ++ dwordsBytes vs := rfl

theorem dwordsBytes_append (vs ws : List UInt32) :
    dwordsBytes (vs ++ ws) = dwordsBytes vs ++ dwordsBytes ws := List.flatMap_append

theorem length_dwordsBytes (vs : List UInt32) : (dwordsBytes vs).length = 4 * vs.length := by
  induction vs with
  | nil => rfl
  | cons v vs ih =>
    rw [dwordsBytes_cons, List.length_append, ih, dwordBytes, length_littleEndian,
      List.length_cons]
    omega

theorem ofLittleEndian_dwordBytes (v : UInt32) : ofLittleEndian (dwordBytes v) = v.toNat :=
  ofLittleEndian_littleEndian 4 v.toNat v.toNat_lt

theorem dwordsBytes_take (vs : List UInt32) (n : Nat) :
    (dwordsBytes vs).take (4 * n) = dwordsBytes (vs.take n) := by
  rcases Nat.le_total n vs.length with inside | beyond
  · conv_lhs => rw [← List.take_append_drop n vs, dwordsBytes_append]
    refine List.take_left' ?_
    rw [length_dwordsBytes, List.length_take_of_le inside]
  · rw [List.take_of_length_le beyond, List.take_of_length_le]
    rw [length_dwordsBytes]
    omega

theorem dwordsBytes_drop (vs : List UInt32) (n : Nat) :
    (dwordsBytes vs).drop (4 * n) = dwordsBytes (vs.drop n) := by
  rcases Nat.le_total n vs.length with inside | beyond
  · conv_lhs => rw [← List.take_append_drop n vs, dwordsBytes_append]
    refine List.drop_left' ?_
    rw [length_dwordsBytes, List.length_take_of_le inside]
  · rw [List.drop_of_length_le beyond, List.drop_of_length_le]
    · rfl
    · rw [length_dwordsBytes]
      omega

theorem dwordsBytes_replicate_zero (n : Nat) :
    dwordsBytes (List.replicate n 0) = List.replicate (4 * n) 0 := by
  induction n with
  | zero => rfl
  | succ n ih =>
    rw [List.replicate_succ, dwordsBytes_cons, ih, Nat.mul_succ, Nat.add_comm,
      List.replicate_add]
    rfl

/-- The DWORDs of an image, the last one filled up. -/
theorem dwordsBytes_dwordsOfBytes (image : List UInt8) :
    dwordsBytes (dwordsOfBytes image) =
      image ++ List.replicate (4 * ((image.length + 3) / 4) - image.length) 0 := by
  induction image using dwordsOfBytes.induct with
  | case1 a b c d rest ih =>
    have whole := dwordBytes_ofLittleEndian [a, b, c, d] (by simp)
    rw [dwordsOfBytes, dwordsBytes_cons, whole, ih]
    have pad : 4 * (((a :: b :: c :: d :: rest).length + 3) / 4) -
        (a :: b :: c :: d :: rest).length = 4 * ((rest.length + 3) / 4) - rest.length := by
      simp only [List.length_cons]
      omega
    rw [pad]
    rfl
  | case2 => rfl
  | case3 short more some_ =>
    have bound : short.length ≤ 3 := by
      rcases short with _ | ⟨a, _ | ⟨b, _ | ⟨c, _ | ⟨d, rest⟩⟩⟩⟩
      · simp
      · simp
      · simp
      · simp
      · exact absurd rfl (more a b c d rest)
    have positive : 0 < short.length := List.length_pos_iff.2 some_
    have pad : 4 * ((short.length + 3) / 4) - short.length = 4 - short.length := by omega
    rw [dwordsOfBytes.eq_3 short more some_, dwordsBytes_cons,
      dwordBytes_ofLittleEndian short (by omega), pad]
    exact List.append_nil _

theorem length_dwordsOfBytes (image : List UInt8) :
    (dwordsOfBytes image).length = (image.length + 3) / 4 := by
  have bytes := congrArg List.length (dwordsBytes_dwordsOfBytes image)
  rw [length_dwordsBytes, List.length_append, List.length_replicate] at bytes
  omega

theorem length_paddedDwords (n : Nat) (image : List UInt8) :
    (paddedDwords n image).length = n := by
  simp only [paddedDwords, List.length_take, List.length_append, List.length_replicate]
  omega

/-- An image that fits is kept whole. -/
theorem dwordsBytes_paddedDwords {n : Nat} {image : List UInt8} (fits : image.length ≤ 4 * n) :
    dwordsBytes (paddedDwords n image) =
      image ++ List.replicate (4 * n - image.length) 0 := by
  have count := length_dwordsOfBytes image
  have whole : paddedDwords n image =
      dwordsOfBytes image ++ List.replicate (n - (dwordsOfBytes image).length) 0 := by
    apply List.take_of_length_le
    rw [List.length_append, List.length_replicate]
    omega
  rw [whole, dwordsBytes_append, dwordsBytes_dwordsOfBytes, dwordsBytes_replicate_zero,
    List.append_assoc, ← List.replicate_add]
  congr 2
  omega

end TlpBridge

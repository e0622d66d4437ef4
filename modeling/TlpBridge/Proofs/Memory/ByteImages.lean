import Mathlib.Data.Nat.Find
import Mathlib.Logic.Function.Basic
import TlpBridge.Memory.Guest

/-!
# Memory as single bytes

What guest memory holds is seen as the byte at each address, if there is one. An access to a run of
addresses is then an access to one byte after the other: a load shows the bytes that are there, and
a store changes them in ascending order, as far as they are there.
-/
namespace TlpBridge

/-- The byte at each address that is backed. -/
abbrev ByteImage : Type := Nat → Option UInt8

namespace ByteImage

/-- Sets the byte at an address if there is one. -/
def put (im : ByteImage) (target : Option Nat) (v : UInt8) : ByteImage :=
  match target with
  | some a => Function.update im a ((im a).map fun _ => v)
  | none => im

/-- Stores the bytes of an access from its byte `i` on in ascending order, each at its own target;
a byte without a target is left out. -/
def store (im : ByteImage) (target : Nat → Option Nat) (i : Nat) (data : List UInt8) : ByteImage :=
  (data.zipIdx i).foldl (fun im (b, i) => im.put (target i) b) im

/-- The bytes of an access, the first of them its byte `i`, are those at their places. -/
def Shows (im : ByteImage) (place : Nat → Option Nat) (i : Nat) (data : List UInt8) : Prop :=
  ∀ j < data.length, (place (i + j)).bind im = data[j]?

/-- The first `k` of the `n` bytes of an access from its byte `i` on are there, and if these are not
all, some byte is not. -/
structure Front (im : ByteImage) (place : Nat → Option Nat) (i k n : Nat) : Prop where
  le : k ≤ n
  present : ∀ j < k, ((place (i + j)).bind im).isSome
  missing : k < n → ∃ j < n, (place (i + j)).bind im = none

/-- The first byte that is missing of an access from its byte `i` on. -/
structure FirstMissing (im : ByteImage) (place : Nat → Option Nat) (i m : Nat) : Prop where
  before : ∀ j < m, ((place (i + j)).bind im).isSome
  missing : (place (i + m)).bind im = none

/-- Every byte of an access that is the last at its target is there already. -/
def Settled (im : ByteImage) (target : Nat → Option Nat) (i : Nat) (data : List UInt8) : Prop :=
  ∀ j < data.length, ∀ a, target (i + j) = some a →
    (∀ k < data.length, j < k → target (i + k) ≠ some a) → im a = data[j]?

variable {im im' : ByteImage} {place target target' : Nat → Option Nat} {i k n : Nat}
  {data : List UInt8}

@[simp] theorem isSome_put (im : ByteImage) (t : Option Nat) (v : UInt8) (a : Nat) :
    (im.put t v a).isSome = (im a).isSome := by
  cases t with
  | none => rfl
  | some b =>
    rw [put, Function.update_apply]
    split
    · next same => rw [same, Option.isSome_map]
    · rfl

theorem put_of_ne (im : ByteImage) {t : Option Nat} {a : Nat} (v : UInt8) (other : t ≠ some a) :
    im.put t v a = im a := by
  cases t with
  | none => rfl
  | some b => exact Function.update_of_ne (fun same => other (congrArg some same.symm)) ..

theorem put_self {a : Nat} {v : UInt8} (holds : im a = some v) : im.put (some a) v = im := by
  rw [put, holds, Option.map_some, ← holds, Function.update_eq_self]

theorem store_cons (im : ByteImage) (target : Nat → Option Nat) (i : Nat) (b : UInt8)
    (bs : List UInt8) :
    im.store target i (b :: bs) = (im.put (target i) b).store target (i + 1) bs := rfl

theorem store_append (im : ByteImage) (target : Nat → Option Nat) (i : Nat) (xs ys : List UInt8) :
    im.store target i (xs ++ ys) = (im.store target i xs).store target (i + xs.length) ys := by
  rw [store, List.zipIdx_append, List.foldl_append]
  rfl

theorem store_congr (same : ∀ j < data.length, target (i + j) = target' (k + j)) :
    im.store target i data = im.store target' k data := by
  induction data generalizing im i k with
  | nil => rfl
  | cons b bs ih =>
    have first : target i = target' k := same 0 (Nat.succ_pos _)
    rw [store_cons, store_cons, first]
    refine ih fun j inside => ?_
    rw [Nat.add_assoc, Nat.add_assoc, Nat.add_comm 1 j]
    exact same (j + 1) (Nat.succ_lt_succ inside)

@[simp] theorem isSome_store (im : ByteImage) (target : Nat → Option Nat) (i : Nat)
    (data : List UInt8) (a : Nat) : (im.store target i data a).isSome = (im a).isSome := by
  induction data generalizing im i with
  | nil => rfl
  | cons b bs ih => rw [store_cons, ih, isSome_put]

theorem store_of_ne {a : Nat} (other : ∀ j < data.length, target (i + j) ≠ some a) :
    im.store target i data a = im a := by
  induction data generalizing im i with
  | nil => rfl
  | cons b bs ih =>
    have first : target i ≠ some a := other 0 (Nat.succ_pos _)
    rw [store_cons, ih, put_of_ne im b first]
    intro j inside
    rw [Nat.add_assoc, Nat.add_comm 1 j]
    exact other (j + 1) (Nat.succ_lt_succ inside)

/-- A target that is there takes the last byte for it. -/
theorem store_of_last {a j : Nat} (inside : j < data.length) (hits : target (i + j) = some a)
    (last : ∀ k < data.length, j < k → target (i + k) ≠ some a) :
    im.store target i data a = (im a).map fun _ => data[j] := by
  have cut : data.take j ++ data[j] :: data.drop (j + 1) = data := by
    rw [List.getElem_cons_drop, List.take_append_drop]
  have front : (data.take j).length = j := List.length_take_of_le (Nat.le_of_lt inside)
  have there : (im.store target i (data.take j) a).isSome = (im a).isSome := isSome_store ..
  have behind (im' : ByteImage) :
      im'.store target (i + j + 1) (data.drop (j + 1)) a = im' a := by
    refine store_of_ne fun k inside' => ?_
    rw [List.length_drop] at inside'
    rw [Nat.add_assoc, Nat.add_assoc]
    exact last (j + (1 + k)) (by omega) (by omega)
  have stored : im.store target i (data.take j ++ data[j] :: data.drop (j + 1)) a =
      (im a).map fun _ => data[j] := by
    rw [store_append, store_cons, front, behind, hits, put, Function.update_self]
    cases before : im a <;> cases after : im.store target i (data.take j) a <;> simp_all
  rwa [cut] at stored

/-- A store changes nothing if and only if all that it leaves is there already. -/
theorem store_eq_self_iff
    (there : ∀ j < data.length, ∀ a, target (i + j) = some a → (im a).isSome) :
    im.store target i data = im ↔ im.Settled target i data := by
  constructor
  · intro same j inside a hits last
    obtain ⟨v, holds⟩ := Option.isSome_iff_exists.1 (there j inside a hits)
    have stored : im.store target i data a = (im a).map fun _ => data[j] :=
      store_of_last inside hits last
    rwa [same, holds, Option.map_some, ← List.getElem?_eq_getElem inside, ← holds] at stored
  · intro settled
    funext a
    by_cases hit : ∃ j < data.length, target (i + j) = some a
    · obtain ⟨first, inside, hits⟩ := hit
      have le : first ≤ data.length - 1 := by omega
      -- of the bytes for this target, the last is left there
      have final := Nat.findGreatest_spec (P := fun j => target (i + j) = some a) le hits
      have bound := Nat.findGreatest_le (P := fun j => target (i + j) = some a) (data.length - 1)
      have later (k : Nat) (behind : k < data.length)
          (after : Nat.findGreatest (fun j => target (i + j) = some a) (data.length - 1) < k) :
          target (i + k) ≠ some a := Nat.findGreatest_is_greatest after (by omega)
      generalize Nat.findGreatest (fun j => target (i + j) = some a) (data.length - 1) = j
        at final bound later
      have within : j < data.length := by omega
      obtain ⟨v, holds⟩ := Option.isSome_iff_exists.1 (there j within a final)
      rw [store_of_last within final later, settled j within a final later,
        List.getElem?_eq_getElem within, Option.map_some]
    · exact store_of_ne fun j inside hits => hit ⟨j, inside, hits⟩

theorem Shows.append {xs ys : List UInt8} (first : im.Shows place i xs)
    (rest : im.Shows place (i + xs.length) ys) : im.Shows place i (xs ++ ys) := by
  intro j inside
  rcases Nat.lt_or_ge j xs.length with front | back
  · rw [List.getElem?_append_left front]
    exact first j front
  · obtain ⟨d, rfl⟩ := Nat.exists_eq_add_of_le back
    rw [List.length_append] at inside
    rw [List.getElem?_append_right back, Nat.add_sub_cancel_left, ← Nat.add_assoc]
    exact rest d (Nat.lt_of_add_lt_add_left inside)

theorem Shows.isSome (shown : im.Shows place i data) {j : Nat} (inside : j < data.length) :
    ((place (i + j)).bind im).isSome := by
  rw [shown j inside, List.getElem?_eq_getElem inside]
  rfl

theorem Shows.unique {data' : List UInt8} (shown : im.Shows place i data)
    (shown' : im.Shows place i data') (length : data.length = data'.length) : data = data' := by
  apply List.ext_getElem?
  intro j
  rcases Nat.lt_or_ge j data.length with inside | outside
  · rw [← shown j inside, ← shown' j (length ▸ inside)]
  · rw [List.getElem?_eq_none outside, List.getElem?_eq_none (length ▸ outside)]

theorem Front.nothing (im : ByteImage) (place : Nat → Option Nat) (i : Nat) :
    im.Front place i 0 0 :=
  ⟨Nat.le_refl 0, fun j inside => absurd inside (Nat.not_lt_zero j),
    fun short => absurd short (Nat.lt_irrefl 0)⟩

theorem Front.of_missing {j : Nat} (inside : j < n) (none_ : (place (i + j)).bind im = none) :
    im.Front place i 0 n :=
  ⟨Nat.zero_le n, fun k before => absurd before (Nat.not_lt_zero k), fun _ => ⟨j, inside, none_⟩⟩

theorem isSome_bind_congr (same : ∀ a, (im' a).isSome = (im a).isSome) (t : Option Nat) :
    (t.bind im').isSome = (t.bind im).isSome := by
  cases t with
  | none => rfl
  | some a => exact same a

theorem Front.congr (front : im.Front place i k n) (same : ∀ a, (im' a).isSome = (im a).isSome) :
    im'.Front place i k n := by
  have bytes (j : Nat) := isSome_bind_congr same (place j)
  refine ⟨front.le, fun j inside => bytes (i + j) ▸ front.present j inside, fun short => ?_⟩
  obtain ⟨j, inside, none_⟩ := front.missing short
  refine ⟨j, inside, ?_⟩
  rw [← Option.not_isSome_iff_eq_none] at none_ ⊢
  rwa [bytes]

theorem Front.congr_place {place' : Nat → Option Nat} {i' : Nat} (front : im.Front place i k n)
    (same : ∀ j < n, place (i + j) = place' (i' + j)) : im.Front place' i' k n where
  le := front.le
  present j inside := same j (Nat.lt_of_lt_of_le inside front.le) ▸ front.present j inside
  missing short := by
    obtain ⟨j, inside, none_⟩ := front.missing short
    exact ⟨j, inside, same j inside ▸ none_⟩

/-- An access whose first part is there goes on with the rest. -/
theorem Front.append {m : Nat} (first : im.Front place i n n) (rest : im.Front place (i + n) k m) :
    im.Front place i (n + k) (n + m) where
  le := Nat.add_le_add_left rest.le n
  present j inside := by
    rcases Nat.lt_or_ge j n with front | back
    · exact first.present j front
    · obtain ⟨d, rfl⟩ := Nat.exists_eq_add_of_le back
      rw [← Nat.add_assoc]
      exact rest.present d (Nat.lt_of_add_lt_add_left inside)
  missing short := by
    obtain ⟨j, inside, none_⟩ := rest.missing (Nat.lt_of_add_lt_add_left short)
    exact ⟨n + j, Nat.add_lt_add_left inside n, Nat.add_assoc i n j ▸ none_⟩

theorem Front.extend {m : Nat} (front : im.Front place i k n) (short : k < n) :
    im.Front place i k (n + m) where
  le := Nat.le_add_right_of_le front.le
  present := front.present
  missing _ := by
    obtain ⟨j, inside, none_⟩ := front.missing short
    exact ⟨j, Nat.lt_add_right m inside, none_⟩

theorem exists_firstMissing (some_ : ∃ j < n, (place (i + j)).bind im = none) :
    ∃ m < n, im.FirstMissing place i m := by
  classical
  have missing := Nat.find_spec some_
  refine ⟨Nat.find some_, missing.1, fun j before => ?_, missing.2⟩
  have present := Nat.find_min some_ before
  rw [Option.isSome_iff_ne_none]
  exact fun none_ => present ⟨Nat.lt_trans before missing.1, none_⟩

theorem FirstMissing.congr {m : Nat} (first : im.FirstMissing place i m)
    (same : ∀ a, (im' a).isSome = (im a).isSome) : im'.FirstMissing place i m := by
  have bytes (j : Nat) := isSome_bind_congr same (place j)
  refine ⟨fun j before => bytes (i + j) ▸ first.before j before, ?_⟩
  have missing := first.missing
  rw [← Option.not_isSome_iff_eq_none] at missing ⊢
  rwa [bytes]

theorem FirstMissing.append {m : Nat} (front : im.Front place i n n)
    (first : im.FirstMissing place (i + n) m) : im.FirstMissing place i (n + m) where
  before j before := by
    rcases Nat.lt_or_ge j n with inside | behind
    · exact front.present j inside
    · obtain ⟨d, rfl⟩ := Nat.exists_eq_add_of_le behind
      rw [← Nat.add_assoc]
      exact first.before d (Nat.lt_of_add_lt_add_left before)
  missing := Nat.add_assoc i n m ▸ first.missing

theorem Front.eq_of_present (front : im.Front place i k n)
    (present : ∀ j < n, ((place (i + j)).bind im).isSome) : k = n := by
  by_contra other
  obtain ⟨j, inside, none_⟩ := front.missing (Nat.lt_of_le_of_ne front.le other)
  have there := present j inside
  rw [none_] at there
  cases there

/-- To store at consecutive addresses what an access enables, and elsewhere what is there, is to
store what it enables. -/
theorem store_merged {new data old : List UInt8} {va : Nat} (enabled : Nat → Bool)
    (lengths : new.length = old.length ∧ data.length = old.length)
    (merged : ∀ j < old.length, new[j]? = if enabled (i + j) then data[j]? else old[j]?)
    (shown : im.Shows (fun j => some (va + j)) i old) :
    im.store (fun j => some (va + j)) i new =
      im.store (fun j => if enabled j then some (va + j) else none) i data := by
  induction old generalizing new data im i with
  | nil =>
    rw [List.length_eq_zero_iff.1 lengths.1, List.length_eq_zero_iff.1 lengths.2]
    rfl
  | cons o old ih =>
    obtain ⟨n, new, rfl⟩ := List.exists_cons_of_length_eq_add_one lengths.1
    obtain ⟨d, data, rfl⟩ := List.exists_cons_of_length_eq_add_one lengths.2
    have holds : im (va + i) = some o := shown 0 (Nat.succ_pos _)
    have byte : n = if enabled i then d else o := by
      have first := merged 0 (Nat.succ_pos _)
      simp only [List.getElem?_cons_zero, Nat.add_zero] at first
      rwa [← apply_ite some, Option.some_inj] at first
    rw [store_cons, store_cons]
    have step : im.put (some (va + i)) n =
        im.put (if enabled i then some (va + i) else none) d := by
      rw [byte]
      by_cases on : enabled i
      · rw [if_pos on, if_pos on]
      · rw [if_neg on, if_neg on]
        exact put_self holds
    rw [← step]
    refine ih ⟨Nat.succ.inj lengths.1, Nat.succ.inj lengths.2⟩ (fun j inside => ?_)
      (fun j inside => ?_)
    · rw [Nat.add_assoc, Nat.add_comm 1 j]
      exact merged (j + 1) (Nat.succ_lt_succ inside)
    · have later := shown (j + 1) (Nat.succ_lt_succ inside)
      rw [Option.bind_some, List.getElem?_cons_succ] at later
      -- the byte just stored lies in front of those to come
      rw [Option.bind_some, Nat.add_assoc, Nat.add_comm 1 j, put_of_ne im n (by simp), later]

end ByteImage

namespace GuestMemory

variable {m : GuestMemory} {addr n : Nat}

theorem isSome_byte? (m : GuestMemory) (a : Nat) : (m.byte? a).isSome = m.isBacked a := by
  unfold byte?
  cases m.isBacked a <;> rfl

theorem image_put (m : GuestMemory) (addr : Nat) (v : UInt8) :
    (m.put addr v).byte? = ByteImage.put m.byte? (some addr) v := by
  funext a
  rw [byte?_put, ByteImage.put, Function.update_apply]
  by_cases same : a = addr
  · subst same
    simp only [true_and, if_true, byte?]
    cases m.isBacked a <;> rfl
  · rw [if_neg (fun both => same both.1), if_neg same]

theorem shows_loadBytes {bytes : List UInt8} (loaded : m.loadBytes addr n = some bytes) :
    ByteImage.Shows m.byte? (fun j => some (addr + j)) 0 bytes := by
  induction n generalizing addr bytes with
  | zero =>
    cases loaded
    exact fun j inside => absurd inside (Nat.not_lt_zero j)
  | succ n ih =>
    obtain ⟨b, first, later⟩ := Option.bind_eq_some_iff.1 loaded
    obtain ⟨bs, rest, is⟩ := Option.bind_eq_some_iff.1 later
    cases is
    intro j inside
    cases j with
    | zero => exact first
    | succ j =>
      have byte := ih rest j (Nat.lt_of_succ_lt_succ inside)
      rw [Option.bind_some, Nat.zero_add, Nat.add_assoc, Nat.add_comm 1 j] at byte
      rw [Option.bind_some, Nat.zero_add, byte, List.getElem?_cons_succ]

theorem missing_of_loadBytes (missed : m.loadBytes addr n = none) :
    ∃ j < n, m.byte? (addr + j) = none := by
  induction n generalizing addr with
  | zero => cases missed
  | succ n ih =>
    cases first : m.byte? addr with
    | none => exact ⟨0, Nat.succ_pos n, first⟩
    | some b =>
      cases rest : m.loadBytes (addr + 1) n with
      | none =>
        obtain ⟨j, inside, none_⟩ := ih rest
        exact ⟨j + 1, Nat.succ_lt_succ inside, by rwa [Nat.add_comm j 1, ← Nat.add_assoc]⟩
      | some bs => simp [loadBytes, first, rest] at missed

/-- A store of bytes stores them one after the other, up to the first that is not there. -/
theorem storeBytes_front (m : GuestMemory) (addr : Nat) (bytes : List UInt8) :
    ∃ k, ByteImage.Front m.byte? (fun j => some (addr + j)) 0 k bytes.length ∧
      ((m.storeBytes addr bytes).1 ↔ k = bytes.length) ∧
      (m.storeBytes addr bytes).2.byte? =
        ByteImage.store m.byte? (fun j => some (addr + j)) 0 (bytes.take k) ∧
      (k < bytes.length → m.byte? (addr + k) = none) := by
  induction bytes generalizing m addr with
  | nil => exact ⟨0, .nothing .., by simp [storeBytes], rfl, fun short => absurd short (by simp)⟩
  | cons b bs ih =>
    unfold storeBytes
    by_cases backed : m.isBacked addr
    · obtain ⟨k, front, whole, image, stop⟩ := ih (m.put addr b) (addr + 1)
      have first : ByteImage.Front m.byte? (fun j => some (addr + j)) 0 1 1 := by
        refine ⟨Nat.le_refl 1, fun j inside => ?_, fun short => absurd short (Nat.lt_irrefl 1)⟩
        rw [Nat.lt_one_iff.1 inside]
        exact (m.isSome_byte? addr).trans backed
      have rest : ByteImage.Front m.byte? (fun j => some (addr + j)) (0 + 1) k bs.length := by
        refine (front.congr fun a => ?_).congr_place fun j _ => ?_
        · rw [isSome_byte?, isSome_byte?, isBacked_put]
        · rw [Nat.zero_add, Nat.zero_add, Nat.add_assoc]
      rw [if_pos backed]
      refine ⟨1 + k, ?_, ?_, ?_, fun short => ?_⟩
      · rw [List.length_cons, Nat.add_comm bs.length 1]
        exact first.append rest
      · rw [whole, List.length_cons]
        omega
      · rw [image, image_put, Nat.add_comm 1 k, List.take_succ_cons, ByteImage.store_cons]
        refine ByteImage.store_congr fun j _ => ?_
        rw [Nat.zero_add, Nat.zero_add, Nat.add_assoc]
      · rw [List.length_cons] at short
        have missing := stop (by omega)
        rw [← Option.not_isSome_iff_eq_none, isSome_byte?, isBacked_put, Nat.add_assoc,
          ← isSome_byte?, Option.not_isSome_iff_eq_none] at missing
        exact missing
    · rw [if_neg backed]
      exact ⟨0, .of_missing (Nat.succ_pos _) (if_neg backed), by simp, rfl, fun _ => if_neg backed⟩

end GuestMemory

end TlpBridge

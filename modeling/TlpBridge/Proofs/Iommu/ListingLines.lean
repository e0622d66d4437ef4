import Mathlib.Data.List.TakeWhile
import Mathlib.Tactic
import TlpBridge.Iommu.Smaps

/-!
# Lines of memory listings

What the two kinds of lines look like that a reader of memory listings takes notice of, said
without the reader: the first begins with the ends of a range in hexadecimal, the second with a
label and a decimal number. A line is of one kind at most, and a carriage return at its end says
nothing.
-/
namespace TlpBridge

open scoped Power

namespace Text

variable {base n : Nat}

theorem ofDigits_concat (base : Nat) (digits : List Char) (c : Char) :
    ofDigits base (digits ++ [c]) = base * ofDigits base digits + digitValue c := by
  simp [ofDigits]

theorem digitValue_digitChar (small : n < 16) : digitValue n.digitChar = n := by
  interval_cases n <;> decide

theorem isHexDigit_digitChar (small : n < 16) : isHexDigit n.digitChar := by
  interval_cases n <;> decide

/-- The digits of a number stand for it. -/
theorem ofDigits_toDigits (more : 1 < base) (most : base ≤ 16) (n : Nat) :
    ofDigits base (Nat.toDigits base n) = n := by
  induction n using Nat.strongRecOn with
  | ind n ih =>
    rcases Nat.lt_or_ge n base with small | large
    · rw [Nat.toDigits_of_lt_base small]
      simp [ofDigits, digitValue_digitChar (small.trans_le most)]
    · have shorter : n / base < n := Nat.div_lt_self (by omega) more
      have digit : n % base < 16 := (Nat.mod_lt n (by omega)).trans_le most
      rw [Nat.toDigits_of_base_le more large, ofDigits_concat, ih _ shorter,
        digitValue_digitChar digit]
      exact Nat.div_add_mod n base

theorem isHexDigit_of_mem_toDigits (more : 1 < base) (most : base ≤ 16) {n : Nat} {c : Char}
    (member : c ∈ Nat.toDigits base n) : isHexDigit c := by
  induction n using Nat.strongRecOn with
  | ind n ih =>
    rcases Nat.lt_or_ge n base with small | large
    · rw [Nat.toDigits_of_lt_base small, List.mem_singleton] at member
      exact member ▸ isHexDigit_digitChar (small.trans_le most)
    · have shorter : n / base < n := Nat.div_lt_self (by omega) more
      have digit : n % base < 16 := (Nat.mod_lt n (by omega)).trans_le most
      rw [Nat.toDigits_of_base_le more large, List.mem_append, List.mem_singleton] at member
      rcases member with front | rfl
      · exact ih _ shorter front
      · exact isHexDigit_digitChar digit

theorem ofDigits_replicate_zero (base k : Nat) (digits : List Char) :
    ofDigits base (List.replicate k '0' ++ digits) = ofDigits base digits := by
  induction k with
  | zero => rfl
  | succ k ih =>
    rw [← ih]
    simp [ofDigits, List.replicate_succ, digitValue]

end Text

namespace Smaps

/-- The text does not go on with such a character. -/
def EndsBefore (p : Char → Bool) (text : List Char) : Prop := ∀ c ∈ text.head?, p c = false

/-- Digits that write a number of 64 bits. -/
structure Spells (base : Nat) (isDigit : Char → Bool) (v : UInt64) (digits : List Char) :
    Prop where
  nonempty : digits ≠ []
  digit : ∀ c ∈ digits, isDigit c
  value : Text.ofDigits base digits = v.toNat

section Readers

variable {p : Char → Bool} {base : Nat} {what : Expected} {text rest : List Char} {v : UInt64}

theorem endsBefore_dropWhile (p : Char → Bool) (text : List Char) :
    EndsBefore p (text.dropWhile p) := by
  intro c front
  have ends := List.head?_dropWhile_not p text
  rw [Option.mem_def.1 front] at ends
  exact ends

theorem EndsBefore.takeWhile (h : EndsBefore p rest) : rest.takeWhile p = [] := by
  cases rest with
  | nil => rfl
  | cons c rest => simp [h c rfl]

theorem EndsBefore.dropWhile (h : EndsBefore p rest) : rest.dropWhile p = rest := by
  cases rest with
  | nil => rfl
  | cons c rest => simp [h c rfl]

theorem dropLiteral_eq_some_iff (literal text rest : List Char) :
    dropLiteral literal text = some rest ↔ text = literal ++ rest := by
  induction literal generalizing text with
  | nil => simp [dropLiteral]
  | cons c literal ih =>
    cases text with
    | nil => simp [dropLiteral]
    | cons d text =>
      rw [dropLiteral]
      by_cases same : c = d
      · rw [if_pos same, ih, same, List.cons_append, List.cons.injEq, and_iff_right rfl]
      · simp [same, eq_comm]

theorem literal_eq_ok_iff (s : String) (text rest : List Char) :
    literal s text = .ok rest ↔ text = s.toList ++ rest := by
  rw [← dropLiteral_eq_some_iff, literal]
  cases dropLiteral s.toList text <;> simp

/-- A number is read where its digits stand, up to the first character that is none. -/
theorem number_eq_ok_iff : number base p what text = .ok (v, rest) ↔
    ∃ digits, text = digits ++ rest ∧ Spells base p v digits ∧ EndsBefore p rest := by
  unfold number
  constructor
  · intro read
    simp only at read
    split_ifs at read with none_ fits
    cases read
    refine ⟨text.takeWhile p, (List.takeWhile_append_dropWhile ..).symm, ⟨?_, ?_, ?_⟩,
      endsBefore_dropWhile p text⟩
    · simpa using none_
    · exact fun c member => List.mem_takeWhile_imp member
    · rw [UInt64.toNat_ofNat', Nat.mod_eq_of_lt fits]
  · rintro ⟨digits, rfl, ⟨some_, all, value⟩, ends⟩
    have front : (digits ++ rest).takeWhile p = digits := by
      rw [List.takeWhile_append_of_pos all, ends.takeWhile, List.append_nil]
    have back : (digits ++ rest).dropWhile p = rest := by
      rw [List.dropWhile_append_of_pos all, ends.dropWhile]
    have fits : Text.ofDigits base digits < 2 ^ 64 := value ▸ v.toNat_lt
    simp only [front, back]
    rw [if_neg (by simpa using some_), if_pos fits, value, UInt64.ofNat_toNat]

end Readers

theorem bind_eq_ok_iff {ε α β : Type} {x : Except ε α} {f : α → Except ε β} {b : β} :
    x >>= f = .ok b ↔ ∃ a, x = .ok a ∧ f a = .ok b := by
  cases x <;> simp [bind, Except.bind]

/-- Whether a character separates the parts of a line. -/
def isBlank (c : Char) : Bool := c = ' ' || c = '\t'

/-- The ends of a range, as a header line begins with them: two hexadecimal numbers joined by a
dash. -/
def HeaderText (ends : UInt64 × UInt64) (front : List Char) : Prop :=
  ∃ a b, front = a ++ '-' :: b ∧ Spells 16 Text.isHexDigit ends.1 a ∧
    Spells 16 Text.isHexDigit ends.2 b

/-- A page size in KiB, as the line that gives it begins: a decimal number between its label and
its unit. -/
def SizeText (kb : UInt64) (front : List Char) : Prop :=
  ∃ gap digits gap', front = "KernelPageSize:".toList ++ (gap ++ (digits ++ (gap' ++
      "kB".toList))) ∧
    (∀ c ∈ gap, isBlank c) ∧ Spells 10 Char.isDigit kb digits ∧ ∀ c ∈ gap', isBlank c

section Lines

variable {text rest line : List Char} {ends : UInt64 × UInt64} {kb : UInt64}

theorem range_eq_ok_iff : Smaps.range text = .ok (ends, rest) ↔
    ∃ front, text = front ++ rest ∧ HeaderText ends front ∧ EndsBefore Text.isHexDigit rest := by
  unfold Smaps.range hexNumber
  simp only [bind_eq_ok_iff, Prod.exists, literal_eq_ok_iff, number_eq_ok_iff]
  constructor
  · rintro ⟨start, _, ⟨a, rfl, spellsA, -⟩, _, rfl, stop, _, ⟨b, rfl, spellsB, stops⟩, same⟩
    cases same
    exact ⟨a ++ '-' :: b, by simp, ⟨a, b, rfl, spellsA, spellsB⟩, stops⟩
  · rintro ⟨_, rfl, ⟨a, b, rfl, spellsA, spellsB⟩, stops⟩
    have dash : EndsBefore Text.isHexDigit ('-' :: (b ++ rest)) := by
      rintro c ⟨⟩
      decide
    exact ⟨ends.1, _, ⟨a, by simp, spellsA, dash⟩, _, rfl, ends.2, rest, ⟨b, rfl, spellsB, stops⟩,
      rfl⟩

theorem Spells.endsBefore {base : Nat} {p q : Char → Bool} {v : UInt64} {digits : List Char}
    (h : Spells base p v digits) (other : ∀ c, p c → q c = false) (rest : List Char) :
    EndsBefore q (digits ++ rest) := by
  intro c front
  obtain ⟨d, ds, rfl⟩ := List.exists_cons_of_ne_nil h.nonempty
  cases front
  exact other c (h.digit c List.mem_cons_self)

theorem isBlank_eq_false_of_isDigit (c : Char) (digit : c.isDigit) : isBlank c = false := by
  by_contra blank
  simp only [isBlank, Bool.not_eq_false, Bool.or_eq_true, decide_eq_true_eq] at blank
  rcases blank with rfl | rfl
  · exact absurd digit (by decide)
  · exact absurd digit (by decide)

theorem isDigit_eq_false_of_isBlank (c : Char) (blank : isBlank c) : c.isDigit = false := by
  by_contra digit
  rw [isBlank_eq_false_of_isDigit c (by simpa using digit)] at blank
  cases blank

theorem skipBlanks_eq_iff : skipBlanks text = rest ↔
    ∃ gap, text = gap ++ rest ∧ (∀ c ∈ gap, isBlank c) ∧ EndsBefore isBlank rest := by
  change text.dropWhile isBlank = rest ↔ _
  constructor
  · rintro rfl
    exact ⟨text.takeWhile isBlank, (List.takeWhile_append_dropWhile ..).symm,
      fun c member => List.mem_takeWhile_imp member, endsBefore_dropWhile isBlank text⟩
  · rintro ⟨gap, rfl, blanks, stops⟩
    rw [List.dropWhile_append_of_pos blanks, stops.dropWhile]

theorem pageSizeLine_eq_ok_iff : pageSizeLine text = .ok (kb, rest) ↔
    ∃ front, text = front ++ rest ∧ SizeText kb front := by
  unfold pageSizeLine decimalNumber
  simp only [bind_eq_ok_iff, Prod.exists, literal_eq_ok_iff, number_eq_ok_iff]
  constructor
  · rintro ⟨_, rfl, kb', tail, ⟨digits, skipped, spells, -⟩, _, unit, same⟩
    cases same
    obtain ⟨gap, rfl, blanks, -⟩ := skipBlanks_eq_iff.1 skipped
    obtain ⟨gap', rfl, blanks', -⟩ := skipBlanks_eq_iff.1 unit
    exact ⟨_, by simp, gap, digits, gap', rfl, blanks, spells, blanks'⟩
  · rintro ⟨_, rfl, gap, digits, gap', rfl, blanks, spells, blanks'⟩
    have unit : EndsBefore isBlank ("kB".toList ++ rest) := by
      rintro c ⟨⟩
      decide
    have behind : EndsBefore Char.isDigit (gap' ++ ("kB".toList ++ rest)) := by
      intro c front
      cases gap' with
      | nil =>
        cases front
        decide
      | cons d gap' =>
        cases front
        exact isDigit_eq_false_of_isBlank c (blanks' c List.mem_cons_self)
    refine ⟨gap ++ (digits ++ (gap' ++ ("kB".toList ++ rest))), by simp, kb, _,
      ⟨digits, ?_, spells, behind⟩, rest, ?_, rfl⟩
    · exact skipBlanks_eq_iff.2
        ⟨gap, rfl, blanks, spells.endsBefore isBlank_eq_false_of_isDigit _⟩
    · exact skipBlanks_eq_iff.2 ⟨gap', rfl, blanks', unit⟩

/-! ## Kinds of lines -/

/-- The ends of the range with which a line begins, if it is a header. -/
def headerOf? (line : List Char) : Option (UInt64 × UInt64) :=
  (Smaps.range line).toOption.map Prod.fst

/-- The page size that a line gives, if it gives one. -/
def sizeOf? (line : List Char) : Option UInt64 := (pageSizeLine line).toOption.map Prod.fst

theorem map_toOption_eq_some_iff {ε α β : Type} (x : Except ε (α × β)) (a : α) :
    x.toOption.map Prod.fst = some a ↔ ∃ b, x = .ok (a, b) := by
  rcases x with e | ⟨a', b⟩
  · simp [Except.toOption]
  · simp [Except.toOption, eq_comm]

theorem headerOf?_eq_some_iff : headerOf? line = some ends ↔ ∃ rest front,
    line = front ++ rest ∧ HeaderText ends front ∧ EndsBefore Text.isHexDigit rest := by
  simp only [headerOf?, map_toOption_eq_some_iff, range_eq_ok_iff]

theorem sizeOf?_eq_some_iff : sizeOf? line = some kb ↔ ∃ rest front,
    line = front ++ rest ∧ SizeText kb front := by
  simp only [sizeOf?, map_toOption_eq_some_iff, pageSizeLine_eq_ok_iff]

theorem sizeOf?_of_headerOf? (header : headerOf? line = some ends) : sizeOf? line = none := by
  obtain ⟨rest, _, shape, ⟨a, b, rfl, spells, -⟩, -⟩ := headerOf?_eq_some_iff.1 header
  rw [Option.eq_none_iff_forall_ne_some]
  intro kb sized
  obtain ⟨rest', _, label, gap, digits, gap', rfl, -⟩ := sizeOf?_eq_some_iff.1 sized
  obtain ⟨c, a, rfl⟩ := List.exists_cons_of_ne_nil spells.nonempty
  have front := congrArg List.head? (shape.symm.trans label)
  cases front
  exact absurd (spells.digit 'K' List.mem_cons_self) (by decide)

theorem ofText_eq (line : List Char) : Line.ofText line =
    match headerOf? line, sizeOf? line with
    | some ends, _ => .range ends.1 ends.2
    | none, some kb => .pageSize kb
    | none, none => .other := by
  unfold Line.ofText headerOf? sizeOf?
  rcases Smaps.range line with e | ⟨⟨start, stop⟩, rest⟩
  · rcases pageSizeLine line with e' | ⟨kb, rest⟩
    · rfl
    · rfl
  · rfl

/-! ## Ends of lines -/

/-- A line without the carriage return at its end, if there is one. -/
def withoutReturn (line : List Char) : List Char :=
  if line.getLast? = some '\r' then line.dropLast else line

/-- What is said at the front of a line does not depend on a character at its end that belongs to
nothing. -/
theorem exists_front_concat_iff {P : List Char → Prop} {q : Char → Bool} {c : Char}
    (line : List Char) (inside : ∀ front, P front → front.getLast? ≠ some c) (stop : q c = false) :
    (∃ rest front, line ++ [c] = front ++ rest ∧ P front ∧ EndsBefore q rest) ↔
      ∃ rest front, line = front ++ rest ∧ P front ∧ EndsBefore q rest := by
  constructor
  · rintro ⟨rest, front, shape, said, stops⟩
    rcases List.eq_nil_or_concat rest with rfl | ⟨rest, d, rfl⟩
    · rw [List.append_nil] at shape
      exact absurd (by rw [← shape, List.getLast?_concat]) (inside front said)
    · rw [List.concat_eq_append] at shape stops
      rw [← List.append_assoc] at shape
      refine ⟨rest, front, List.append_inj_left' shape rfl, said, fun e first => stops e ?_⟩
      rw [Option.mem_def] at first ⊢
      rw [List.head?_append, first, Option.some_or]
  · rintro ⟨rest, front, rfl, said, stops⟩
    refine ⟨rest ++ [c], front, List.append_assoc .., said, ?_⟩
    intro d first
    cases rest with
    | nil =>
      cases first
      exact stop
    | cons e rest =>
      cases first
      exact stops d rfl

theorem headerOf?_concat_return (line : List Char) :
    headerOf? (line ++ ['\r']) = headerOf? line := by
  ext ends
  rw [headerOf?_eq_some_iff, headerOf?_eq_some_iff]
  refine exists_front_concat_iff line ?_ (by decide)
  rintro _ ⟨a, b, rfl, -, spells⟩ last_
  rw [List.getLast?_append, List.getLast?_cons] at last_
  cases final : b.getLast? with
  | none => exact spells.nonempty (List.getLast?_eq_none_iff.1 final)
  | some c =>
    rw [final] at last_
    cases last_
    exact absurd (spells.digit _ (List.mem_of_getLast? final)) (by decide)

theorem sizeOf?_concat_return (line : List Char) : sizeOf? (line ++ ['\r']) = sizeOf? line := by
  ext kb
  have stops (rest : List Char) : EndsBefore (fun _ => false) rest := fun _ _ => rfl
  have inside : ∀ front, SizeText kb front → front.getLast? ≠ some '\r' := by
    rintro _ ⟨gap, digits, gap', rfl, -⟩
    have unit : "kB".toList.getLast? = some 'B' := rfl
    simp only [List.getLast?_append, unit, Option.some_or]
    decide
  have ends := exists_front_concat_iff (q := fun _ => false) line inside rfl
  simpa only [sizeOf?_eq_some_iff, stops, and_true] using ends

theorem ofText_withoutReturn (line : List Char) :
    Line.ofText (withoutReturn line) = Line.ofText line := by
  unfold withoutReturn
  split_ifs with returns
  · obtain ⟨front, rfl⟩ := List.getLast?_eq_some_iff.1 returns
    rw [List.dropLast_concat, ofText_eq, ofText_eq, headerOf?_concat_return,
      sizeOf?_concat_return]
  · rfl

end Lines

/-! ## Lines of a text -/

theorem lines_cons {c : Char} {text : List Char} (goesOn : c ≠ '\n')
    (alone : c = '\r' → text.head? ≠ some '\n') :
    lines (c :: text) = match lines text with
      | [] => [[c]]
      | line :: more => (c :: line) :: more := by
  have apart (rest : List Char) (returns : c = '\r') (ends : text = '\n' :: rest) : False :=
    alone returns (ends ▸ rfl)
  exact lines.eq_4 c text apart goesOn

/-- A line feed ends a line. -/
theorem lines_append_newline {line : List Char} (single : '\n' ∉ line) (text : List Char) :
    lines (line ++ '\n' :: text) = withoutReturn line :: lines text := by
  induction line with
  | nil => rfl
  | cons c line ih =>
    rw [List.mem_cons, not_or] at single
    have goesOn : c ≠ '\n' := Ne.symm single.1
    cases line with
    | nil =>
      by_cases returns : c = '\r'
      · subst returns
        rfl
      · have kept : withoutReturn [c] = [c] := by simp [withoutReturn, returns]
        rw [List.singleton_append, lines_cons goesOn (absurd · returns), kept]
        rfl
    | cons d line =>
      have kept : withoutReturn (c :: d :: line) = c :: withoutReturn (d :: line) := by
        unfold withoutReturn
        rw [List.getLast?_cons_cons]
        split_ifs <;> rfl
      have next : d ≠ '\n' := fun same => single.2 (same ▸ List.mem_cons_self)
      rw [List.cons_append, lines_cons goesOn (fun _ => by simpa using next), ih single.2, kept]

theorem lines_of_not_mem {line : List Char} (single : '\n' ∉ line) :
    lines line = if line = [] then [] else [line] := by
  induction line with
  | nil => rfl
  | cons c line ih =>
    rw [List.mem_cons, not_or] at single
    have last_ : line.head? ≠ some '\n' := fun first => single.2 (List.mem_of_head? first)
    rw [lines_cons (Ne.symm single.1) (fun _ => last_), ih single.2]
    by_cases ends : line = []
    · simp [ends]
    · simp [ends]

/-- The text in which each of the lines ends at a line feed. -/
def terminated (ls : List (List Char)) : List Char := ls.flatMap (· ++ ['\n'])

theorem lines_terminated {ls : List (List Char)} (single : ∀ line ∈ ls, '\n' ∉ line)
    (text : List Char) : lines (terminated ls ++ text) = ls.map withoutReturn ++ lines text := by
  induction ls with
  | nil => rfl
  | cons line ls ih =>
    obtain ⟨first, rest⟩ := List.forall_mem_cons.1 single
    have shape : terminated (line :: ls) ++ text = line ++ '\n' :: (terminated ls ++ text) := by
      simp [terminated]
    rw [shape, lines_append_newline first, ih rest, List.map_cons, List.cons_append]

end Smaps

end TlpBridge

import TlpBridge.Proofs.Iommu.ListingLines

/-!
# Ranges of memory listings

A listing is read as one range for each page size whose nearest line before it that says anything
is a header. So a listing that was written range by range is read back, however its lines end and
whatever else stands between them.
-/
namespace TlpBridge.Smaps

open scoped Power

/-! ## Pairing -/

/-- The line says something: it is a header or gives a page size. -/
def saysSomething (line : List Char) : Bool := (headerOf? line).isSome || (sizeOf? line).isSome

/-- The last of the lines that says something. -/
def nearest? (ls : List (List Char)) : Option (List Char) := (ls.filter saysSomething).getLast?

/-- The range that line `i` completes: the line gives a page size, and the nearest line before it
that says something is a header. -/
def completed? (ls : List (List Char)) (i : Nat) : Option MappedRange := do
  let kb ← ls[i]?.bind sizeOf?
  let ends ← (nearest? (ls.take i)).bind headerOf?
  some ⟨ends.1, ends.2, kb⟩

/-- The header that is left when a page size has used up those before it. -/
def openHeader (header : Option (UInt64 × UInt64)) : Line → Option (UInt64 × UInt64)
  | .range start stop => some (start, stop)
  | .pageSize _ => none
  | .other => header

theorem pair_append (header : Option (UInt64 × UInt64)) (ls more : List Line) :
    pair header (ls ++ more) = pair header ls ++ pair (ls.foldl openHeader header) more := by
  induction ls generalizing header with
  | nil => cases header <;> rfl
  | cons line ls ih =>
    rw [List.cons_append, List.foldl_cons]
    cases line with
    | range start stop => cases header <;> exact ih _
    | pageSize kb =>
      cases header with
      | none => exact ih _
      | some ends => exact congrArg (_ :: ·) (ih _)
    | other => cases header <;> exact ih _

/-- The open header is the nearest line that says something, if that is a header. -/
theorem foldl_openHeader (ls : List (List Char)) :
    (ls.map Line.ofText).foldl openHeader none = (nearest? ls).bind headerOf? := by
  induction ls using List.reverseRecOn with
  | nil => rfl
  | append_singleton ls line ih =>
    rw [List.map_append, List.foldl_append, ih, List.map_singleton, List.foldl_cons,
      List.foldl_nil, nearest?, nearest?, List.filter_append, ofText_eq]
    cases header : headerOf? line with
    | some ends => simp [openHeader, saysSomething, header]
    | none =>
      cases size : sizeOf? line with
      | some kb => simp [openHeader, saysSomething, header, size]
      | none => simp [openHeader, saysSomething, header, size]

theorem completed?_append {ls more : List (List Char)} {i : Nat} (inside : i < ls.length) :
    completed? (ls ++ more) i = completed? ls i := by
  rw [completed?, completed?, List.getElem?_append_left inside,
    List.take_append_of_le_length (Nat.le_of_lt inside)]

/-- What the last line adds is what it completes. -/
theorem pair_singleton (ls : List (List Char)) (line : List Char) :
    pair ((nearest? ls).bind headerOf?) [Line.ofText line] =
      (completed? (ls ++ [line]) ls.length).toList := by
  rw [completed?, List.getElem?_concat_length, List.take_left, ofText_eq, Option.bind_some]
  cases (nearest? ls).bind headerOf? with
  | none =>
    cases headerOf? line <;> cases sizeOf? line <;> rfl
  | some ends =>
    cases header : headerOf? line with
    | some ends' =>
      rw [sizeOf?_of_headerOf? header]
      rfl
    | none => cases sizeOf? line <;> rfl

theorem pair_map_ofText (ls : List (List Char)) : pair none (ls.map Line.ofText) =
    (List.range ls.length).filterMap (completed? ls) := by
  induction ls using List.reverseRecOn with
  | nil => rfl
  | append_singleton ls line ih =>
    have before : (List.range ls.length).filterMap (completed? (ls ++ [line])) =
        (List.range ls.length).filterMap (completed? ls) :=
      List.filterMap_congr fun i member => completed?_append (List.mem_range.1 member)
    rw [List.map_append, pair_append, foldl_openHeader, ih, List.map_singleton, pair_singleton,
      List.length_append, List.length_singleton, List.range_succ, List.filterMap_append, before,
      List.filterMap_cons]
    cases completed? (ls ++ [line]) ls.length <;> rfl

/-! ## Texts -/

/-- A line of a listing that is of neither kind. -/
structure SilentLine where
  text : List Char
  single : '\n' ∉ text
  silent : saysSomething text = false

theorem SilentLine.ofText_text (s : SilentLine) : Line.ofText s.text = .other := by
  have silent := s.silent
  rw [saysSomething, Bool.or_eq_false_iff, Option.isSome_eq_false_iff,
    Option.isSome_eq_false_iff, Option.isNone_iff_eq_none, Option.isNone_iff_eq_none] at silent
  rw [ofText_eq, silent.1, silent.2]

theorem pair_silent (header : Option (UInt64 × UInt64)) (silent : List SilentLine)
    (rest : List Line) :
    pair header ((silent.map SilentLine.text).map Line.ofText ++ rest) = pair header rest := by
  induction silent with
  | nil => rfl
  | cons s silent ih =>
    rw [List.map_cons, List.map_cons, s.ofText_text, List.cons_append, ← ih]
    cases header <;> rfl

section Terminated

variable {ls : List (List Char)}

theorem map_ofText_withoutReturn (ls : List (List Char)) :
    (ls.map withoutReturn).map Line.ofText = ls.map Line.ofText := by
  rw [List.map_map]
  exact List.map_congr_left fun line _ => ofText_withoutReturn line

theorem ranges_terminated (single : ∀ line ∈ ls, '\n' ∉ line) :
    ranges (terminated ls) = pair none (ls.map Line.ofText) := by
  have split := lines_terminated single []
  rw [List.append_nil, lines, List.append_nil] at split
  rw [ranges, split, map_ofText_withoutReturn]

/-- The last line feed can be left out. -/
theorem ranges_dropLast_terminated (single : ∀ line ∈ ls, '\n' ∉ line) :
    ranges (terminated ls).dropLast = pair none (ls.map Line.ofText) := by
  rcases List.eq_nil_or_concat ls with rfl | ⟨front, line, rfl⟩
  · rfl
  · rw [List.concat_eq_append] at single ⊢
    obtain ⟨ahead, last_⟩ := List.forall_mem_append.1 single
    have cut : (terminated (front ++ [line])).dropLast = terminated front ++ line := by
      simp [terminated, ← List.append_assoc]
    rw [ranges, cut, lines_terminated ahead, lines_of_not_mem (last_ line List.mem_cons_self),
      List.map_append, map_ofText_withoutReturn, List.map_append]
    split_ifs with empty
    · -- an empty line is none any more, and said nothing
      rw [empty, pair_append, pair_append]
      cases (front.map Line.ofText).foldl openHeader none <;> rfl
    · rfl

end Terminated

/-! ## Listings that were written -/

theorem spells_hexPadded (width : Nat) (v : UInt64) :
    Spells 16 Text.isHexDigit v (Text.hexPadded width v.toNat).toList := by
  rw [Text.hexPadded, String.toList_ofList, Text.hexDigits]
  refine ⟨?_, ?_, ?_⟩
  · exact List.append_ne_nil_of_right_ne_nil _ Nat.toDigits_ne_nil
  · intro c member
    rcases List.mem_append.1 member with zero | digit
    · rw [List.eq_of_mem_replicate zero]
      decide
    · exact Text.isHexDigit_of_mem_toDigits (by decide) (by decide) digit
  · rw [Text.ofDigits_replicate_zero, Text.ofDigits_toDigits (by decide) (by decide)]

theorem spells_repr (v : UInt64) : Spells 10 Char.isDigit v v.toNat.repr.toList := by
  rw [Nat.repr, String.toList_ofList]
  exact ⟨Nat.toDigits_ne_nil, fun c => Nat.isDigit_of_mem_toDigits (by decide) (by decide),
    Text.ofDigits_toDigits (by decide) (by decide) _⟩

theorem Spells.single {base : Nat} {p : Char → Bool} {v : UInt64} {digits : List Char}
    (h : Spells base p v digits) (other : p '\n' = false) : '\n' ∉ digits := by
  intro member
  rw [h.digit _ member] at other
  cases other

theorem HeaderText.single {ends : UInt64 × UInt64} {front : List Char}
    (h : HeaderText ends front) : '\n' ∉ front := by
  obtain ⟨a, b, rfl, spellsA, spellsB⟩ := h
  rw [List.mem_append, List.mem_cons]
  rintro (first | dash | second)
  · exact spellsA.single (by decide) first
  · exact absurd dash (by decide)
  · exact spellsB.single (by decide) second

theorem SizeText.single {kb : UInt64} {front : List Char} (h : SizeText kb front) :
    '\n' ∉ front := by
  obtain ⟨gap, digits, gap', rfl, blanks, spells, blanks'⟩ := h
  simp only [List.mem_append]
  rintro (label | blank | digit | blank | unit)
  · exact absurd label (by decide)
  · exact absurd (blanks _ blank) (by decide)
  · exact spells.single (by decide) digit
  · exact absurd (blanks' _ blank) (by decide)
  · exact absurd unit (by decide)

/-- A range as it is written to a listing: its ends with as many digits as are wanted, and whatever
stands behind them, its page size behind some blanks, and lines of neither kind after either. -/
structure ListedRange where
  range : MappedRange
  width : Nat
  behindEnds : List Char
  between : List SilentLine
  indent : Nat
  behindSize : List Char
  after : List SilentLine
  single_behindEnds : '\n' ∉ behindEnds
  endsBefore_behindEnds : EndsBefore Text.isHexDigit behindEnds
  single_behindSize : '\n' ∉ behindSize

namespace ListedRange

variable (e : ListedRange)

/-- The ends of the range. -/
def ends : List Char :=
  (Text.hexPadded e.width e.range.start.toNat).toList ++
    '-' :: (Text.hexPadded e.width e.range.stop.toNat).toList

def header : List Char := e.ends ++ e.behindEnds

/-- The page size with its label and its unit. -/
def size : List Char :=
  "KernelPageSize:".toList ++ (List.replicate e.indent ' ' ++
    (e.range.pageKb.toNat.repr.toList ++ ([' '] ++ "kB".toList)))

def sizeLine : List Char := e.size ++ e.behindSize

def lines : List (List Char) :=
  e.header :: (e.between.map SilentLine.text ++ e.sizeLine :: e.after.map SilentLine.text)

theorem headerText_ends : HeaderText (e.range.start, e.range.stop) e.ends :=
  ⟨_, _, rfl, spells_hexPadded .., spells_hexPadded ..⟩

theorem sizeText_size : SizeText e.range.pageKb e.size := by
  refine ⟨_, _, _, rfl, ?_, spells_repr _, ?_⟩
  · intro c member
    rw [List.eq_of_mem_replicate member]
    rfl
  · intro c member
    rw [List.mem_singleton.1 member]
    rfl

theorem headerOf?_header : headerOf? e.header = some (e.range.start, e.range.stop) :=
  headerOf?_eq_some_iff.2 ⟨e.behindEnds, e.ends, rfl, e.headerText_ends, e.endsBefore_behindEnds⟩

theorem sizeOf?_sizeLine : sizeOf? e.sizeLine = some e.range.pageKb :=
  sizeOf?_eq_some_iff.2 ⟨e.behindSize, e.size, rfl, e.sizeText_size⟩

theorem headerOf?_sizeLine : headerOf? e.sizeLine = none := by
  rw [Option.eq_none_iff_forall_ne_some]
  intro ends header
  have sized := e.sizeOf?_sizeLine
  rw [sizeOf?_of_headerOf? header] at sized
  cases sized

theorem ofText_header : Line.ofText e.header = .range e.range.start e.range.stop := by
  rw [ofText_eq, e.headerOf?_header]

theorem ofText_sizeLine : Line.ofText e.sizeLine = .pageSize e.range.pageKb := by
  rw [ofText_eq, e.headerOf?_sizeLine, e.sizeOf?_sizeLine]

theorem pair_lines (header : Option (UInt64 × UInt64)) (rest : List Line) :
    pair header (e.lines.map Line.ofText ++ rest) = e.range :: pair none rest := by
  rw [lines, List.map_cons, ofText_header, List.map_append, List.map_cons, ofText_sizeLine,
    List.cons_append, List.append_assoc, List.cons_append]
  cases header with
  | none => rw [pair, pair_silent, pair, pair_silent]
  | some ends => rw [pair, pair_silent, pair, pair_silent]

theorem single_lines : ∀ line ∈ e.lines, '\n' ∉ line := by
  have silent (ss : List SilentLine) : ∀ line ∈ ss.map SilentLine.text, '\n' ∉ line :=
    List.forall_mem_map.2 fun s _ => s.single
  rw [lines, List.forall_mem_cons, List.forall_mem_append, List.forall_mem_cons, header, sizeLine,
    List.mem_append, List.mem_append, not_or, not_or]
  exact ⟨⟨e.headerText_ends.single, e.single_behindEnds⟩, silent _,
    ⟨e.sizeText_size.single, e.single_behindSize⟩, silent _⟩

end ListedRange

/-- The text of a listing. -/
def listing (es : List ListedRange) : List Char := terminated (es.flatMap ListedRange.lines)

theorem pair_flatMap_lines (es : List ListedRange) :
    pair none ((es.flatMap ListedRange.lines).map Line.ofText) = es.map ListedRange.range := by
  induction es with
  | nil => rfl
  | cons e es ih => rw [List.flatMap_cons, List.map_append, e.pair_lines, ih, List.map_cons]

theorem single_flatMap_lines (es : List ListedRange) :
    ∀ line ∈ es.flatMap ListedRange.lines, '\n' ∉ line := by
  intro line member
  obtain ⟨e, -, own⟩ := List.mem_flatMap.1 member
  exact e.single_lines line own

theorem ranges_listing (es : List ListedRange) :
    ranges (listing es) = es.map ListedRange.range := by
  rw [listing, ranges_terminated (single_flatMap_lines es), pair_flatMap_lines]

theorem ranges_dropLast_listing (es : List ListedRange) :
    ranges (listing es).dropLast = es.map ListedRange.range := by
  rw [listing, ranges_dropLast_terminated (single_flatMap_lines es), pair_flatMap_lines]

/-- A range on two lines that say nothing else. -/
def ListedRange.plain (r : MappedRange) : ListedRange where
  range := r
  width := 0
  behindEnds := []
  between := []
  indent := 1
  behindSize := []
  after := []
  single_behindEnds := List.not_mem_nil
  endsBefore_behindEnds := nofun
  single_behindSize := List.not_mem_nil

theorem ranges_listing_plain (rs : List MappedRange) :
    ranges (listing (rs.map ListedRange.plain)) = rs := by
  rw [ranges_listing, List.map_map]
  exact List.map_id rs

/-- The ranges of any text are those that its lines complete, in order and one for each of them. So
ranges that were written to a listing are read back, whatever was written beside them and whether
or not the last line is ended. -/
theorem ranges_eq_completed :
    (∀ text, ranges text =
      (List.range (lines text).length).filterMap (completed? (lines text))) ∧
    ∀ es : List ListedRange, ranges (listing es) = es.map ListedRange.range ∧
      ranges (listing es).dropLast = es.map ListedRange.range :=
  ⟨fun text => pair_map_ofText (lines text),
    fun es => ⟨ranges_listing es, ranges_dropLast_listing es⟩⟩

example : ranges ("KernelPageSize: 4 kB\n1000-2000 r--p\r\nKernelPageSize:\t4 kB\r\n" ++
    "KernelPageSize: 2048 kB\n3000-4000\n5000-6000\nKernelPageSize:8kB").toList =
    [⟨0x1000, 0x2000, 4⟩, ⟨0x5000, 0x6000, 8⟩] := by decide +kernel

end TlpBridge.Smaps

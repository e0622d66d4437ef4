import TlpBridge.Iommu.MemoryMap
import TlpBridge.Word.Power

/-!
# Process memory listings

The text form in which an operating system lists the mapped ranges of a process: a
header line with the ends of a range in hexadecimal, followed by lines of attributes,
one of which gives the page size. Other lines mean nothing here.
-/
namespace TlpBridge.Smaps

open scoped Power

/-- What a reader looked for. -/
inductive Expected where
  | literal
  | digit
  | hexDigit
deriving DecidableEq

/-- Why a reader fails: something is missing at the text that is left, or a number has more than
64 bits. -/
inductive Fault where
  | missing (what : Expected) (rest : List Char)
  | badNumber
deriving DecidableEq

/-- Drops a literal from the front of a text. -/
def dropLiteral : List Char → List Char → Option (List Char)
  | [], text => some text
  | c :: cs, d :: text => if c = d then dropLiteral cs text else none
  | _ :: _, [] => none

def literal (s : String) (text : List Char) : Except Fault (List Char) :=
  match dropLiteral s.toList text with
  | some rest => .ok rest
  | none => .error (.missing .literal text)

/-- The longest run of digits at the front of a text, as a number of 64 bits, and the text after
it. -/
def number (base : Nat) (isDigit : Char → Bool) (what : Expected) (text : List Char) :
    Except Fault (UInt64 × List Char) :=
  let digits := text.takeWhile isDigit
  let rest := text.dropWhile isDigit
  if digits.isEmpty then .error (.missing what text)
  else if Text.ofDigits base digits < 2 ^ (64 : Nat) then
    .ok (UInt64.ofNat (Text.ofDigits base digits), rest)
  else .error .badNumber

def hexNumber : List Char → Except Fault (UInt64 × List Char) := number 16 Text.isHexDigit .hexDigit

def decimalNumber : List Char → Except Fault (UInt64 × List Char) :=
  number 10 Char.isDigit .digit

def skipBlanks (text : List Char) : List Char :=
  text.dropWhile fun c => c = ' ' || c = '\t'

/-- The ends of a range at the front of a header line. -/
def range (text : List Char) : Except Fault ((UInt64 × UInt64) × List Char) := do
  let (start, text) ← hexNumber text
  let text ← literal "-" text
  let (stop, text) ← hexNumber text
  .ok ((start, stop), text)

/-- The page size in KiB at the front of the line that gives it. -/
def pageSizeLine (text : List Char) : Except Fault (UInt64 × List Char) := do
  let text ← literal "KernelPageSize:" text
  let (kb, text) ← decimalNumber (skipBlanks text)
  let text ← literal "kB" (skipBlanks text)
  .ok (kb, text)

/-- The lines of a text; a line ends at a line feed, with or without a carriage return before
it. -/
def lines : List Char → List (List Char)
  | [] => []
  | '\r' :: '\n' :: rest => [] :: lines rest
  | '\n' :: rest => [] :: lines rest
  | c :: rest =>
    match lines rest with
    | [] => [[c]]
    | line :: more => (c :: line) :: more

/-- What a line says. -/
inductive Line where
  | range (start stop : UInt64)
  | pageSize (kb : UInt64)
  | other
deriving DecidableEq

def Line.ofText (text : List Char) : Line :=
  match Smaps.range text with
  | .ok ((start, stop), _) => .range start stop
  | .error _ =>
    match pageSizeLine text with
    | .ok (kb, _) => .pageSize kb
    | .error _ => .other

/-- Pairs each page size with the header before it, unless another page size has used it up. -/
def pair : Option (UInt64 × UInt64) → List Line → List MappedRange
  | _, [] => []
  | _, .range start stop :: rest => pair (some (start, stop)) rest
  | some (start, stop), .pageSize kb :: rest => ⟨start, stop, kb⟩ :: pair none rest
  | none, .pageSize _ :: rest => pair none rest
  | header, .other :: rest => pair header rest

/-- The ranges of a listing, in order. -/
def ranges (text : List Char) : List MappedRange := pair none ((lines text).map Line.ofText)

end TlpBridge.Smaps

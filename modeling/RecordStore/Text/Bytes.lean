/-!
# Texts as bytes

What a file holds is bytes. They spell a text in UTF-8, or fail to; and they are cut into lines
before it is asked which.
-/

namespace RecordStore.Text

/-!
## UTF-8 — bytes and the texts they spell

Text is kept in files as UTF-8. `encode` writes a text as bytes. `decode` reads bytes back one at
a time: between characters a lead byte announces how many further bytes the character owes, and in
which range the next of them lies; a character is finished when nothing is owed. Bytes that spell
no text are refused with the place of the first fault:

  * a byte that cannot stand where it stands makes the sequence begun before it *invalid*, and the
    length of that sequence is reported;
  * bytes that end inside a character are *incomplete*.

`decodeLossy` never refuses: it writes U+FFFD for each faulty sequence.
-/

/-- The contents of a file, in order. -/
abbrev Bytes := List UInt8

/-- The byte that ends a line. -/
def lineFeed : UInt8 := 10

/-! ### Encoding -/

/-- The bytes of one character: one to four, by the size of its code. -/
def encodeChar (c : Char) : Bytes :=
  let n := c.toNat
  if n < 0x80 then [UInt8.ofNat n]
  else if n < 0x800 then [UInt8.ofNat (0xC0 + n / 64), UInt8.ofNat (0x80 + n % 64)]
  else if n < 0x10000 then
    [UInt8.ofNat (0xE0 + n / 4096), UInt8.ofNat (0x80 + n / 64 % 64),
      UInt8.ofNat (0x80 + n % 64)]
  else
    [UInt8.ofNat (0xF0 + n / 262144), UInt8.ofNat (0x80 + n / 4096 % 64),
      UInt8.ofNat (0x80 + n / 64 % 64), UInt8.ofNat (0x80 + n % 64)]

/-- The bytes of a text. -/
def encode (s : String) : Bytes := s.toList.flatMap encodeChar

/-! ### Decoding -/

/-- Where and how bytes fail to be a text. -/
inductive Malformed where
  /-- The `length` bytes from `index` can begin no character that goes on as they do. -/
  | invalid (length index : Nat)
  /-- The bytes from `index` begin a character and end before it does. -/
  | incomplete (index : Nat)
  deriving Repr, DecidableEq

namespace Malformed

/-- The number of bytes before the fault, all of them text. -/
def index : Malformed → Nat
  | invalid _ i => i
  | incomplete i => i

/-- The wording of the fault. -/
def message : Malformed → String
  | invalid n i => s!"invalid utf-8 sequence of {n} bytes from index {i}"
  | incomplete i => s!"incomplete utf-8 byte sequence from index {i}"

end Malformed

/-- A character begun: the code read so far, the bytes read and owed, and the range in which the
    next byte must lie. -/
structure Begun where
  code : Nat
  seen : Nat
  owed : Nat
  low : Nat
  high : Nat
  deriving Repr, DecidableEq

/-- What a lead byte begins; ASCII bytes and bytes that lead nothing begin nothing. The narrowed
    ranges after `E0`, `ED`, `F0` and `F4` keep out overlong forms, surrogates and codes beyond
    the last character. -/
def begin? (b : UInt8) : Option Begun :=
  let n := b.toNat
  if 0xC2 ≤ n ∧ n ≤ 0xDF then some ⟨n - 0xC0, 1, 1, 0x80, 0xBF⟩
  else if n = 0xE0 then some ⟨0, 1, 2, 0xA0, 0xBF⟩
  else if n = 0xED then some ⟨13, 1, 2, 0x80, 0x9F⟩
  else if 0xE1 ≤ n ∧ n ≤ 0xEF then some ⟨n - 0xE0, 1, 2, 0x80, 0xBF⟩
  else if n = 0xF0 then some ⟨0, 1, 3, 0x90, 0xBF⟩
  else if n = 0xF4 then some ⟨4, 1, 3, 0x80, 0x8F⟩
  else if 0xF1 ≤ n ∧ n ≤ 0xF3 then some ⟨n - 0xF0, 1, 3, 0x80, 0xBF⟩
  else none

/-- The character begun, with one more byte taken in. -/
def Begun.push (p : Begun) (b : UInt8) : Begun :=
  ⟨p.code * 64 + (b.toNat - 0x80), p.seen + 1, p.owed - 1, 0x80, 0xBF⟩

/-- Whether the byte may come next. -/
def Begun.accepts (p : Begun) (b : UInt8) : Bool := p.low ≤ b.toNat && b.toNat ≤ p.high

/-- Reads the bytes from `index`, where `begun` is the character under way, if any. -/
def decodeFrom (index : Nat) (begun : Option Begun) : Bytes → Except Malformed (List Char)
  | [] =>
    match begun with
    | none => .ok []
    | some p => .error (.incomplete (index - p.seen))
  | b :: rest =>
    match begun with
    | none =>
      if b.toNat < 0x80 then (decodeFrom (index + 1) none rest).map (Char.ofNat b.toNat :: ·)
      else
        match begin? b with
        | none => .error (.invalid 1 index)
        | some p => decodeFrom (index + 1) (some p) rest
    | some p =>
      if p.accepts b then
        let q := p.push b
        if q.owed = 0 then (decodeFrom (index + 1) none rest).map (Char.ofNat q.code :: ·)
        else decodeFrom (index + 1) (some q) rest
      else .error (.invalid p.seen (index - p.seen))

/-- The text that the bytes spell. -/
def decode (bytes : Bytes) : Except Malformed String :=
  (decodeFrom 0 none bytes).map String.ofList

/-- The character that stands for bytes that spell none. -/
def replacement : Char := Char.ofNat 0xFFFD

/-- Like `decodeFrom`, with `replacement` for every faulty sequence; the byte that shows a
    sequence to be faulty is read again as the start of the next. -/
def decodeLossyFrom (begun : Option Begun) : Bytes → List Char
  | [] => if begun.isSome then [replacement] else []
  | b :: rest =>
    let fresh : List Char :=
      if b.toNat < 0x80 then Char.ofNat b.toNat :: decodeLossyFrom none rest
      else
        match begin? b with
        | none => replacement :: decodeLossyFrom none rest
        | some p => decodeLossyFrom (some p) rest
    match begun with
    | none => fresh
    | some p =>
      if p.accepts b then
        let q := p.push b
        if q.owed = 0 then Char.ofNat q.code :: decodeLossyFrom none rest
        else decodeLossyFrom (some q) rest
      else replacement :: fresh

/-- The text that the bytes spell, with U+FFFD where they spell none. -/
def decodeLossy (bytes : Bytes) : String := String.ofList (decodeLossyFrom none bytes)

/-! ### Facts about encoding -/

@[simp] theorem encode_empty : encode "" = [] := rfl

@[simp] theorem encode_append (s t : String) : encode (s ++ t) = encode s ++ encode t := by
  simp [encode]

@[simp] theorem decode_nil : decode [] = .ok "" := rfl

/-!
## Lines of a file

A file is read and edited by lines. A line is the run of bytes up to and including a line feed;
bytes after the last line feed are a line too, an unterminated one. Every reader of this library
cuts a file with the same function, so what one of them calls the third line is the third line of
all. Joining the lines gives the file back: `flatten_lines`.
-/

/-- The lines of a file, each with its line feed if it has one. -/
def lines : Bytes → List Bytes
  | [] => []
  | b :: rest =>
    if b = lineFeed then [b] :: lines rest
    else
      match lines rest with
      | [] => [[b]]
      | line :: more => (b :: line) :: more

/-- Whether the last line of a file is terminated; an empty file has none that is not. -/
def isTerminated (bytes : Bytes) : Bool :=
  match bytes.getLast? with
  | none => true
  | some b => b == lineFeed

/-- The line without its line feed. -/
def chomp (line : Bytes) : Bytes :=
  if line.getLast? = some lineFeed then line.dropLast else line

/-- The text without the carriage returns and line feeds at its end. -/
def trimLineEnd (s : String) : String :=
  String.ofList (((s.toList.reverse).dropWhile fun c => c == '\n' || c == '\r').reverse)

/-- Nothing is lost by cutting a file into lines. -/
@[simp] theorem flatten_lines (bytes : Bytes) : (lines bytes).flatten = bytes := by
  induction bytes with
  | nil => rfl
  | cons b rest ih =>
    simp only [lines]
    split
    · simp [ih]
    · split
      · next h => rw [h] at ih; simpa using ih
      · next h => rw [h] at ih; simpa using ih

/-- No line is empty. -/
theorem ne_nil_of_mem_lines {bytes line : Bytes} (h : line ∈ lines bytes) : line ≠ [] := by
  induction bytes generalizing line with
  | nil => simp [lines] at h
  | cons b rest ih =>
    simp only [lines] at h
    split at h
    · rcases List.mem_cons.mp h with rfl | h
      · simp
      · exact ih h
    · split at h
      · simp only [List.mem_singleton] at h
        simp [h]
      · next heq =>
        rcases List.mem_cons.mp h with rfl | h
        · simp
        · exact ih (heq ▸ List.mem_cons_of_mem _ h)

end RecordStore.Text

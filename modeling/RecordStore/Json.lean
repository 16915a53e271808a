/-!
# JSON

Values as they are printed, values as they are read, and how a value is taken apart whose shape is
known.
-/

namespace RecordStore

/-!
## JSON values and how they are printed

A value keeps what a JSON text says: a number is the literal it was written with, an object is its
members in order, and a string literal denotes a text, or nothing where it holds one half of a
surrogate pair without the other. Such a literal is well-formed JSON, so a reader that has no use
for it can pass over it.

Printing puts each item and member on a line of its own, two spaces further in than what encloses
it; an empty array or object stays on one line.
-/

/-- A JSON value. -/
inductive Json where
  | null
  | bool (b : Bool)
  | number (literal : String)
  | string (denoted : Option String)
  | array (items : List Json)
  | object (members : List (Option String × Json))
  deriving Repr, BEq

namespace Json

/-- The value of a text. -/
def ofString (s : String) : Json := .string (some s)

/-- An object whose members are texts, sorted by name; of members of one name the last is kept. -/
def insertMember (name : String) (value : Json) :
    List (Option String × Json) → List (Option String × Json)
  | [] => [(some name, value)]
  | (other, present) :: members =>
    match other with
    | none => (some name, value) :: (other, present) :: members
    | some key =>
      if name < key then (some name, value) :: (other, present) :: members
      else if name = key then (some name, value) :: members
      else (other, present) :: insertMember name value members

/-- The object with the given texts as members, sorted by name; of members of one name the last is
    kept. -/
def ofTexts (texts : List (String × String)) : Json :=
  .object (texts.foldl (fun members text => insertMember text.1 (ofString text.2) members) [])

/-! ### Printing -/

/-- A hexadecimal digit in lower case. -/
def hexDigit (n : Nat) : Char := Nat.digitChar (n % 16)

/-- A character inside a string literal: quotes, backslashes and control characters are escaped. -/
def escape (c : Char) : List Char :=
  if c = '"' then ['\\', '"']
  else if c = '\\' then ['\\', '\\']
  else if c = '\n' then ['\\', 'n']
  else if c = '\r' then ['\\', 'r']
  else if c = '\t' then ['\\', 't']
  else if c.toNat = 8 then ['\\', 'b']
  else if c.toNat = 12 then ['\\', 'f']
  else if c.toNat < 0x20 then ['\\', 'u', '0', '0', hexDigit (c.toNat / 16), hexDigit c.toNat]
  else [c]

/-- A string literal. -/
def quote (s : String) : List Char := '"' :: (s.toList.flatMap escape ++ ['"'])

/-- A line break and the indentation of a depth. -/
def newLine (depth : Nat) : List Char := '\n' :: List.replicate (2 * depth) ' '

/-- The literal of half a surrogate pair stands for every string that denotes no text. -/
def quoteDenoted : Option String → List Char
  | some s => quote s
  | none => "\"\\ud800\"".toList

mutual

/-- The printed form of a value that stands at a depth. -/
def print (depth : Nat) : Json → List Char
  | null => "null".toList
  | bool b => if b then "true".toList else "false".toList
  | number literal => literal.toList
  | string denoted => quoteDenoted denoted
  | array [] => ['[', ']']
  | array (item :: items) =>
    '[' :: newLine (depth + 1) ++ print (depth + 1) item ++ printItems (depth + 1) items ++
      newLine depth ++ [']']
  | object [] => ['\x7b', '\x7d']
  | object ((name, value) :: members) =>
    '\x7b' :: newLine (depth + 1) ++ quoteDenoted name ++ [':', ' '] ++
      print (depth + 1) value ++ printMembers (depth + 1) members ++ newLine depth ++ ['\x7d']

/-- The printed form of the items after the first. -/
def printItems (depth : Nat) : List Json → List Char
  | [] => []
  | item :: items => ',' :: newLine depth ++ print depth item ++ printItems depth items

/-- The printed form of the members after the first. -/
def printMembers (depth : Nat) : List (Option String × Json) → List Char
  | [] => []
  | (name, value) :: members =>
    ',' :: newLine depth ++ quoteDenoted name ++ [':', ' '] ++ print depth value ++
      printMembers depth members

end

/-- The printed form of a value. -/
def pretty (value : Json) : String := String.ofList (print 0 value)

end Json

/-!
## Reading JSON

A text is cut into tokens, and the tokens drive a machine with a stack: the arrays and objects that
are open, with what they hold so far. Each token takes one step, so reading ends with the tokens;
the text is accepted when the last token completes a value and the stack is empty. The route:

  * `stringBody?`, `number?`   the two tokens of variable length;
  * `tokenize?`                all tokens of a text;
  * `step?`                    what a token does to the machine;
  * `read?`                    the value of a text.
-/

namespace Json

/-- A token of a JSON text. -/
inductive Token where
  | openArray
  | closeArray
  | openObject
  | closeObject
  | comma
  | colon
  | word (value : Json)
  | text (denoted : Option String)
  deriving Repr

/-! ### Strings -/

/-- What one part of a string literal stands for: a character, or half a surrogate pair. -/
inductive Piece where
  | char (c : Char)
  | half (code : Nat)
  deriving Repr, DecidableEq

/-- The value of a hexadecimal digit. -/
def hexValue? (c : Char) : Option Nat :=
  let n := c.toNat
  if 48 ≤ n ∧ n ≤ 57 then some (n - 48)
  else if 97 ≤ n ∧ n ≤ 102 then some (n - 87)
  else if 65 ≤ n ∧ n ≤ 70 then some (n - 55)
  else none

/-- What a code of four hexadecimal digits stands for. -/
def pieceOfCode (n : Nat) : Piece :=
  if 0xD800 ≤ n ∧ n ≤ 0xDFFF then .half n else .char (Char.ofNat n)

/-- What a backslash and one character stand for. -/
def simpleEscape? : Char → Option Char
  | '"' => some '"'
  | '\\' => some '\\'
  | '/' => some '/'
  | 'b' => some (Char.ofNat 8)
  | 'f' => some (Char.ofNat 12)
  | 'n' => some '\n'
  | 'r' => some '\r'
  | 't' => some '\t'
  | _ => none

/-- Reads a string literal after its opening quote. -/
def stringBody? : List Char → Option (List Piece × List Char)
  | [] => none
  | '"' :: rest => some ([], rest)
  | '\\' :: 'u' :: a :: b :: c :: d :: rest => do
    let code := (← hexValue? a) * 4096 + (← hexValue? b) * 256 + (← hexValue? c) * 16 +
      (← hexValue? d)
    let (pieces, rest) ← stringBody? rest
    return (pieceOfCode code :: pieces, rest)
  | '\\' :: c :: rest => do
    let c ← simpleEscape? c
    let (pieces, rest) ← stringBody? rest
    return (.char c :: pieces, rest)
  | c :: rest =>
    if c.toNat < 0x20 ∨ c = '\\' then none
    else do
      let (pieces, rest) ← stringBody? rest
      return (.char c :: pieces, rest)

/-- The text of pieces, in which halves of surrogate pairs must stand together. -/
def assemble? : List Piece → Option (List Char)
  | [] => some []
  | .char c :: pieces => (assemble? pieces).map (c :: ·)
  | .half high :: .half low :: pieces =>
    if high < 0xDC00 ∧ 0xDC00 ≤ low then
      (assemble? pieces).map
        (Char.ofNat (0x10000 + (high - 0xD800) * 0x400 + (low - 0xDC00)) :: ·)
    else none
  | .half _ :: _ => none

/-! ### Numbers -/

/-- Reads one or more digits. -/
def digits? (cs : List Char) : Option (List Char × List Char) :=
  let digits := cs.takeWhile Char.isDigit
  if digits.isEmpty then none else some (digits, cs.dropWhile Char.isDigit)

/-- Reads the digits before the point: a single zero, or digits that begin with another. -/
def whole? : List Char → Option (List Char × List Char)
  | '0' :: rest => some (['0'], rest)
  | cs => digits? cs

/-- Reads a point and digits, if there is a point. -/
def fraction? : List Char → Option (List Char × List Char)
  | '.' :: rest => (digits? rest).map fun (digits, rest) => ('.' :: digits, rest)
  | cs => some ([], cs)

/-- Reads an exponent, if there is one. -/
def exponent? : List Char → Option (List Char × List Char)
  | c :: rest =>
    if c = 'e' ∨ c = 'E' then
      let (sign, rest) := match rest with
        | '+' :: rest => (['+'], rest)
        | '-' :: rest => (['-'], rest)
        | rest => ([], rest)
      (digits? rest).map fun (digits, rest) => (c :: sign ++ digits, rest)
    else some ([], c :: rest)
  | [] => some ([], [])

/-- Reads a number without its sign. -/
def unsigned? (cs : List Char) : Option (List Char × List Char) := do
  let (whole, rest) ← whole? cs
  let (fraction, rest) ← fraction? rest
  let (exponent, rest) ← exponent? rest
  return (whole ++ fraction ++ exponent, rest)

/-- Reads a number. -/
def number? : List Char → Option (List Char × List Char)
  | '-' :: rest => (unsigned? rest).map fun (digits, rest) => ('-' :: digits, rest)
  | cs => unsigned? cs

/-! ### Tokens -/

/-- White space between tokens. -/
def isSpace (c : Char) : Bool := c == ' ' || c == '\n' || c == '\t' || c == '\r'

/-- Reads the token with which a text begins. -/
def token? : List Char → Option (Token × List Char)
  | '[' :: rest => some (.openArray, rest)
  | ']' :: rest => some (.closeArray, rest)
  | '\x7b' :: rest => some (.openObject, rest)
  | '\x7d' :: rest => some (.closeObject, rest)
  | ',' :: rest => some (.comma, rest)
  | ':' :: rest => some (.colon, rest)
  | '"' :: rest => (stringBody? rest).map fun (pieces, rest) =>
      (.text ((assemble? pieces).map String.ofList), rest)
  | 'n' :: 'u' :: 'l' :: 'l' :: rest => some (.word .null, rest)
  | 't' :: 'r' :: 'u' :: 'e' :: rest => some (.word (.bool true), rest)
  | 'f' :: 'a' :: 'l' :: 's' :: 'e' :: rest => some (.word (.bool false), rest)
  | cs => (number? cs).map fun (literal, rest) => (.word (.number (String.ofList literal)), rest)

/-- Reads the tokens of a text. No token needs more steps than it has characters, so as many steps
    as the text has characters are enough. -/
def tokenizeWithin : Nat → List Char → Option (List Token)
  | 0, cs => if cs.all isSpace then some [] else none
  | n + 1, cs =>
    match cs.dropWhile isSpace with
    | [] => some []
    | rest => do
      let (token, rest) ← token? rest
      let tokens ← tokenizeWithin n rest
      return token :: tokens

/-- The tokens of a text. -/
def tokenize? (cs : List Char) : Option (List Token) := tokenizeWithin cs.length cs

/-! ### The machine -/

/-- An array or object that is open: what it holds so far, last first, and the name under which
    the next value goes into it. -/
inductive Frame where
  | array (items : List Json)
  | object (members : List (Option String × Json)) (name : Option String)

/-- What the machine waits for, inside the frames that are open. -/
inductive State where
  | value (stack : List Frame)
  /-- A value or the end of an array that holds nothing. -/
  | firstItem (stack : List Frame)
  /-- A comma or the end of an array. -/
  | afterItem (items : List Json) (stack : List Frame)
  /-- A name or the end of an object that holds nothing. -/
  | firstName (stack : List Frame)
  | name (members : List (Option String × Json)) (stack : List Frame)
  | colon (members : List (Option String × Json)) (name : Option String) (stack : List Frame)
  /-- A comma or the end of an object. -/
  | afterMember (members : List (Option String × Json)) (stack : List Frame)
  /-- The end of the text. -/
  | done (value : Json)

/-- The state after a value is complete. -/
def deliver (value : Json) : List Frame → State
  | [] => .done value
  | .array items :: stack => .afterItem (value :: items) stack
  | .object members name :: stack => .afterMember ((name, value) :: members) stack

/-- The state after a token that begins a value. -/
def beginValue? (stack : List Frame) : Token → Option State
  | .openArray => some (.firstItem stack)
  | .openObject => some (.firstName stack)
  | .word value => some (deliver value stack)
  | .text denoted => some (deliver (.string denoted) stack)
  | _ => none

/-- The state after a token, if the token can come. -/
def step? : State → Token → Option State
  | .value stack, token => beginValue? stack token
  | .firstItem stack, .closeArray => some (deliver (.array []) stack)
  | .firstItem stack, token => beginValue? (.array [] :: stack) token
  | .afterItem items stack, .comma => some (.value (.array items :: stack))
  | .afterItem items stack, .closeArray => some (deliver (.array items.reverse) stack)
  | .firstName stack, .closeObject => some (deliver (.object []) stack)
  | .firstName stack, .text name => some (.colon [] name stack)
  | .name members stack, .text name => some (.colon members name stack)
  | .colon members name stack, .colon => some (.value (.object members name :: stack))
  | .afterMember members stack, .comma => some (.name members stack)
  | .afterMember members stack, .closeObject => some (deliver (.object members.reverse) stack)
  | _, _ => none

/-- The value of a text that is one JSON value. -/
def read? (s : String) : Option Json := do
  let tokens ← tokenize? s.toList
  match ← tokens.foldlM step? (State.value []) with
  | .done value => return value
  | _ => none

end Json

/-!
## Values of a described shape

A description of fixed members can be written as an object, in which each member stands at most
once and members of other names are passed over, or as an array of the members' values in their
declared order, from which only members at the end may be missing. `members?` treats both alike:
it gives, for every declared name, the value if there is one.
-/

namespace Json

/-- The values of a name in an object. -/
def valuesOf (name : String) (members : List (Option String × Json)) : List Json :=
  members.filterMap fun (other, value) => if other = some name then some value else none

/-- The value of each declared member, if it has one. -/
def members? (names : List String) : Json → Option (List (Option Json))
  | .object members =>
    if members.all fun (name, _) => name.isSome then
      names.mapM fun name =>
        match valuesOf name members with
        | [] => some none
        | [value] => some (some value)
        | _ => none
    else none
  | .array items =>
    if items.length ≤ names.length then
      some (items.map some ++ List.replicate (names.length - items.length) none)
    else none
  | _ => none

/-- The value of a member that must be there. -/
def required? {α : Type} (decode : Json → Option α) (value : Option Json) : Option α :=
  value.bind decode

/-- The value of a member, or what it is when it is not there. -/
def optional? {α : Type} (absent : α) (decode : Json → Option α) : Option Json → Option α
  | none => some absent
  | some value => decode value

/-- A value that may be null. -/
def nullable? {α : Type} (decode : Json → Option α) : Json → Option (Option α)
  | .null => some none
  | value => (decode value).map some

/-- The text of a string. -/
def text? : Json → Option String
  | .string denoted => denoted
  | _ => none

/-- The items of an array, each of a shape. -/
def list? {α : Type} (decode : Json → Option α) : Json → Option (List α)
  | .array items => items.mapM decode
  | _ => none

/-- The bound of a word of 64 bits. -/
def wordBound : Nat := 0x10000000000000000

/-- A number written with digits alone that a word of 64 bits holds. -/
def word? : Json → Option Nat
  | .number literal =>
    if literal.toList.all Char.isDigit then
      let n := Nat.ofDigitChars 10 literal.toList 0
      if n < wordBound then some n else none
    else none
  | _ => none

/-- A choice among words, written as the word or as an object with null under it. -/
def choice? {α : Type} (ofWord : String → Option α) : Json → Option α
  | .string (some word) => ofWord word
  | .object [(some word, .null)] => ofWord word
  | _ => none

end Json

end RecordStore

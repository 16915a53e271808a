import RecordStore.Filter
import RecordStore.Query.Basic

/-!
# Queries as they are written

The text of a query is cut into segments, each of which is read as one command.
-/

namespace RecordStore.Query

open RecordStore.Text

/-!
## The segments of a query text

A query text is a sequence of segments, each a command letter after a dash and a value, set apart
by spaces and tabs:

  * a segment is `-`, one or more letters, and then possibly a gap and a value;
  * a value does not begin with a dash and a letter; it goes on until a gap is followed by a dash
    and a letter, or until only a gap is left of the text;
  * a double quote opens a quoted span if another one follows, and nothing inside the span ends
    the value; a double quote without a partner is an ordinary character.

`ofChars?` reads a whole text, which may have gaps at both ends.
-/

/-- A command word and the text that follows it. -/
structure Segment where
  key : String
  value : String
  deriving Repr, DecidableEq

namespace Segment

/-- The characters of a gap. -/
def isGap (c : Char) : Bool := c == ' ' || c == '\t'

/-- Whether a text begins with a dash and a letter. -/
def beginsCommand : List Char → Bool
  | '-' :: c :: _ => c.isAlpha
  | _ => false

/-- Whether a value ends before this text: a gap with a command after it, or nothing but a gap. -/
def endsValue (cs : List Char) : Bool :=
  match cs with
  | [] => true
  | c :: rest => isGap c && (beginsCommand (rest.dropWhile isGap) || rest.all isGap)

/-- Reads a value to its end, inside a quoted span or outside one. -/
def scanValue (quoted : Bool) : List Char → List Char × List Char
  | [] => ([], [])
  | c :: cs =>
    if quoted then
      let (value, rest) := scanValue (c != '"') cs
      (c :: value, rest)
    else if endsValue (c :: cs) then ([], c :: cs)
    else
      let (value, rest) := scanValue (c == '"' && cs.contains '"') cs
      (c :: value, rest)

/-- Reads a value, which has at least one character. -/
def value? (cs : List Char) : Option (List Char × List Char) :=
  if beginsCommand cs then none
  else
    match scanValue false cs with
    | ([], _) => none
    | parts => some parts

/-- Reads one segment; its value is empty if there is none. -/
def one? : List Char → Option (Segment × List Char)
  | '-' :: cs =>
    let key := cs.takeWhile Char.isAlpha
    let rest := cs.dropWhile Char.isAlpha
    if key.isEmpty then none
    else
      let after := rest.dropWhile isGap
      match if after.length < rest.length then value? after else none with
      | some (value, rest) => some (⟨String.ofList key, String.ofList value⟩, rest)
      | none => some (⟨String.ofList key, ""⟩, rest)
  | _ => none

/-! ### Every segment takes something from the text -/

/-- A value and what follows it make up the text. -/
theorem scanValue_append (quoted : Bool) (cs : List Char) :
    (scanValue quoted cs).1 ++ (scanValue quoted cs).2 = cs := by
  induction cs generalizing quoted with
  | nil => rfl
  | cons c cs ih =>
    simp only [scanValue]
    split
    · simp [ih]
    · split
      · rfl
      · simp [ih]

/-- A value takes nothing but characters of the text. -/
theorem length_value? {cs value rest : List Char} (h : value? cs = some (value, rest)) :
    rest.length ≤ cs.length := by
  unfold value? at h
  split at h
  · simp at h
  · have happ := scanValue_append false cs
    split at h
    · simp at h
    · simp only [Option.some.injEq] at h
      rw [h] at happ
      simp [← happ]

/-- A segment takes one character at least, so the reading of segments ends. -/
theorem length_one? {cs rest : List Char} {segment : Segment}
    (h : one? cs = some (segment, rest)) : rest.length < cs.length := by
  unfold one? at h
  split at h
  · next cs =>
    have hdrop : (cs.dropWhile Char.isAlpha).length ≤ cs.length :=
      (List.dropWhile_sublist _).length_le
    simp only at h
    split at h
    · simp at h
    · split at h
      · next heq =>
        simp only [Option.some.injEq, Prod.mk.injEq] at h
        obtain ⟨_, rfl⟩ := h
        split at heq
        · have := length_value? heq
          simp; omega
        · simp at heq
      · simp only [Option.some.injEq, Prod.mk.injEq] at h
        obtain ⟨_, rfl⟩ := h
        simp; omega
  · simp at h

/-! ### Reading -/

/-- Reads the segments that follow others, each after a gap, up to the end of the text. -/
def more? (cs : List Char) : Option (List Segment) :=
  match _h : if (cs.dropWhile isGap).length < cs.length then one? (cs.dropWhile isGap) else none with
  | some (segment, rest) => (more? rest).map (segment :: ·)
  | none => if cs.all isGap then some [] else none
termination_by cs.length
decreasing_by
  split at _h
  · next hlt =>
    have := length_one? _h
    omega
  · simp at _h

/-- Reads a text of one or more segments. -/
def ofChars? (cs : List Char) : Option (List Segment) := do
  let (segment, rest) ← one? (cs.dropWhile isGap)
  let segments ← more? rest
  return segment :: segments

end Segment

/-!
## Queries as they are written

A query such as `-s title,rev:sum -g title` is cut into segments, and the value of each is read by
the rules of its command:

  * `-s` takes fields between commas, each with an aggregate after a colon if it has one, and none
    of them twice;
  * `-o` takes fields between commas;
  * `-g` takes one field;
  * `-f` takes a filter.

Values and the parts between commas and colons lose the white space around them. No command may be
given twice. Whether the fields exist is not asked here.
-/

/-- Reads fields between commas; there is at least one, and none is empty. -/
def parseFields (kind : CommandKind) (args : String) : Except StoreError (List String) :=
  if args.isEmpty then .error (.malformedQuery (.withoutFields kind))
  else
    let fields := (split ',' args).map trim
    if fields.any String.isEmpty then .error (.malformedQuery (.emptyField kind args))
    else .ok fields

/-- Reads a field with an aggregate, if it has one. -/
def parseItem (token : String) : Except StoreError SelectItem :=
  match splitFirst? ':' token with
  | none => .ok ⟨token, none⟩
  | some (field, word) =>
    match Aggregate.ofKey? (trim word) with
    | some aggregate => .ok ⟨trim field, some aggregate⟩
    | none => .error (.unknownCommand (.aggregate (trim word)))

/-- Reads items one by one; a field that an earlier one has is refused. -/
def parseItems (earlier : List SelectItem) : List String → Except StoreError (List SelectItem)
  | [] => .ok earlier
  | token :: tokens => do
    let item ← parseItem token
    if earlier.any (·.field == item.field) then
      throw (.malformedQuery (.fieldRepeated item.field))
    parseItems (earlier ++ [item]) tokens

/-- Reads the one field of a grouping. -/
def parseGroup (args : String) : Except StoreError String :=
  if args.isEmpty then .error (.invalidGroup .withoutField)
  else if args.toList.any fun c => c == ',' || isBlank c then
    .error (.invalidGroup (.severalFields args))
  else .ok args

/-- Reads the argument of a command. -/
def parseStage (args : String) : CommandKind → Except StoreError Stage
  | .select => do return .select (← parseItems [] (← parseFields .select args))
  | .order => return .order (← parseFields .order args)
  | .group => return .group (← parseGroup args)
  | .filter => return .filter (← Filter.parse args)

/-- Reads a command from its segment. -/
def parseCommand (segment : Segment) : Except StoreError Command :=
  let args := trim segment.value
  match CommandKind.ofKey? segment.key with
  | none => .error (.unknownCommand (.command segment.key))
  | some kind => do return ⟨args, ← parseStage args kind⟩

/-- Reads commands one by one; a kind that an earlier one has is refused. -/
def parseCommands (earlier : List Command) : List Segment → Except StoreError (List Command)
  | [] => .ok earlier
  | segment :: segments => do
    let command ← parseCommand segment
    if earlier.any (·.kind == command.kind) then
      throw (.malformedQuery (.commandRepeated command.kind))
    parseCommands (earlier ++ [command]) segments

/-- Reads a query. -/
def parse (s : String) : Except StoreError Query :=
  if isBlankText s then .error .emptyQuery
  else
    match Segment.ofChars? s.toList with
    | none => .error (.malformedQuery .ungrammatical)
    | some segments => (parseCommands [] segments).map ofCommands

end RecordStore.Query

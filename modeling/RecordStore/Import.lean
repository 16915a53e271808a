import RecordStore.Disk
import RecordStore.Store.Basic
import RecordStore.Text.Basic

/-!
# Importing lines

Delimited lines are imported one by one, in order. Each is judged by itself, against the schema:

  * a line without a character that is not white space is passed over;
  * a line that is no text, has more parts than the schema has fields, or has a value that does not
    fit its field is skipped, for a reason that is reported;
  * any other line is a record, and is put into the store.

Only the store can stop an import. `judge` is the judgement of a line; `Import.step` is what one
line does; `Import.run` is all lines and then the flush of the store. `Import.runFile` imports the
lines of a file while it is read, so an import of the file in which a store keeps its records goes
on into what it has itself written.
-/

namespace RecordStore

open RecordStore.Text

/-- Why a line is skipped. -/
inductive SkipReason where
  | notText (fault : Malformed)
  | tooManyParts (count limit : Nat)
  | refused (error : StoreError)
  deriving Repr, DecidableEq

/-- A skipped line, counted from one. -/
structure Skip where
  line : Nat
  reason : SkipReason
  deriving Repr, DecidableEq

/-- The wording of a reason. -/
def SkipReason.message : SkipReason → String
  | notText fault => fault.message
  | tooManyParts count limit => s!"{count} fields, expected at most {limit}"
  | refused error => error.message

/-- The warning about a skipped line. -/
def Skip.message (skip : Skip) : String :=
  "Skipping line " ++ toString skip.line ++ ": " ++ skip.reason.message

/-- What becomes of a line. -/
inductive Verdict where
  | passOver
  | skip (reason : SkipReason)
  | accept (record : Record)
  deriving DecidableEq

/-- The text of a line: without its end, and without the carriage returns before that. -/
def importedText (line : Bytes) : Except Malformed String :=
  (decode (chomp line)).map fun text =>
    String.ofList (dropEndWhile (fun c => c == '\r') text.toList)

/-- The judgement of a line. -/
def judge (schema : Schema) (line : Bytes) : Verdict :=
  match importedText line with
  | .error fault => .skip (.notText fault)
  | .ok text =>
    if isBlankText text then .passOver
    else
      let count := (split delimiter text).length
      if schema.width < count then .skip (.tooManyParts count schema.width)
      else
        let r := Record.parse schema text
        match r.check schema with
        | .error e => .skip (.refused e)
        | .ok _ => .accept r

/-- The numbers of an import: lines written to the store, and lines skipped. -/
structure Report where
  imported : Nat
  skipped : Nat
  deriving Repr, DecidableEq

namespace Import

variable {σ : Type} [Store σ]

/-- How far an import has come: the store, the number of the line before, the counts, the lines
    skipped, and the error that stopped it. -/
structure Progress (σ : Type) where
  store : σ
  line : Nat
  report : Report
  skips : List Skip
  stopped : Option StoreError

/-- An import that has not begun. -/
def start (store : σ) : Progress σ := ⟨store, 0, ⟨0, 0⟩, [], none⟩

/-- What one line does. -/
def step (p : Progress σ) (line : Bytes) : Progress σ :=
  match p.stopped with
  | some _ => p
  | none =>
    let number := p.line + 1
    match judge (Store.schema p.store) line with
    | .passOver => { p with line := number }
    | .skip reason =>
      { p with
        line := number
        report := { p.report with skipped := p.report.skipped + 1 }
        skips := p.skips ++ [⟨number, reason⟩] }
    | .accept r =>
      match Store.upsert p.store r with
      | (store, .ok _) =>
        { p with
          store := store
          line := number
          report := { p.report with imported := p.report.imported + 1 } }
      | (store, .error e) => { p with store := store, line := number, stopped := some e }

/-- What the lines of a text do, one after the other. -/
def lines (p : Progress σ) (data : Bytes) : Progress σ := (Text.lines data).foldl step p

/-- What an import leaves and gives. -/
structure Result (σ : Type) where
  store : σ
  skips : List Skip
  outcome : Except StoreError Report

/-- Ends an import that has taken all lines: unless it was stopped, the store is flushed. -/
def finish (p : Progress σ) : Result σ :=
  let outcome := match p.stopped with
    | some e => .error e
    | none => (Store.flush p.store).map fun _ => p.report
  ⟨p.store, p.skips, outcome⟩

/-- Imports all lines of a text, and then flushes the store. -/
def run (store : σ) (data : Bytes) : Result σ := finish (lines (start store) data)

/-! ## Importing a file -/

/-- What up to `n` further lines of a file do, where the file is what `file` finds while the store
    changes. -/
def linesFrom (file : σ → Bytes) : Nat → Disk.Cursor → Progress σ → Progress σ
  | 0, _, p => p
  | n + 1, cursor, p =>
    match p.stopped, cursor.next? (file p.store) with
    | none, some (line, cursor) => linesFrom file n cursor (step p line)
    | _, _ => p

/-- The number of lines that are taken from a file at most. One that does not change has no more
    lines than bytes; one that grows while it is read, being the store's own, has room to spare. -/
def lineBound (width size : Nat) : Nat := (size + width + 8) * (size + width + 8)

/-- Imports the lines of a file, and then flushes the store. -/
def runFile (store : σ) (file : σ → Bytes) : Result σ :=
  let bound := lineBound (Store.schema store).width (file store).length
  finish (linesFrom file bound Disk.Cursor.start (start store))

end Import

end RecordStore

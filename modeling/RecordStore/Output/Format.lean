import RecordStore.Json
import RecordStore.Query.Run
import RecordStore.Text.Basic
import RecordStore.Text.Columns

/-!
# What is printed

Results, records and messages are printed as text, as JSON or as tables. Messages may have a style,
and tables are grids with borders.
-/

namespace RecordStore.Output

open RecordStore.Text

/-!
## Styles of a terminal

A text is painted by a sequence before it that sets the style and one after it that sets it back.
Where the text itself sets the style back, the style is set again, so that all of the text has it.
-/

/-- A style of text. -/
inductive Style where
  | boldRed
  | blue
  | boldGreen
  deriving Repr, DecidableEq

/-- The sequence that sets a style. -/
def Style.begin : Style → List Char
  | boldRed => "\x1b[1;31m".toList
  | blue => "\x1b[34m".toList
  | boldGreen => "\x1b[1;32m".toList

/-- The sequence that sets the style back. -/
def styleEnd : List Char := "\x1b[0m".toList

/-- The text with a sequence after each place where it sets the style back. -/
def renewStyle (sequence : List Char) : List Char → List Char
  | '\x1b' :: '[' :: '0' :: 'm' :: cs => styleEnd ++ sequence ++ renewStyle sequence cs
  | c :: cs => c :: renewStyle sequence cs
  | [] => []

/-- The text in a style. -/
def Style.paint (style : Style) (s : String) : String :=
  String.ofList (style.begin ++ renewStyle style.begin s.toList ++ styleEnd)

/-!
## Bordered grids

A grid has a row of titles and rows of cells, with a line above and below each row; the line below
the titles is double. Every column is as wide as its widest cell, and a cell is padded on the right
to that width, with one space on either side. A cell with line breaks takes several lines, and the
cells beside it are continued with blanks.
-/

/-- The lines of a cell. A line break at its end begins no further line, and a carriage return
    before a line break belongs to it. -/
def cellLines (cell : String) : List (List Char) :=
  let pieces := splitChars '\n' cell.toList
  let ended := pieces.dropLast.map fun piece =>
    if piece.getLast? = some '\r' then piece.dropLast else piece
  match pieces.getLast? with
  | none | some [] => ended
  | some piece => ended ++ [piece]

/-- The columns that a cell takes. -/
def cellWidth (cell : String) : Nat := (cellLines cell).foldl (fun w l => max w (columns l)) 0

/-- The width of every column: that of its widest cell. -/
def columnWidths (rows : List (List String)) : List Nat :=
  rows.foldl (fun widths row => widen widths (row.map cellWidth)) []
where
  /-- The wider of two widths for every column that either has. -/
  widen : List Nat → List Nat → List Nat
    | [], ws => ws
    | ws, [] => ws
    | v :: vs, w :: ws => max v w :: widen vs ws

/-- A line between rows. -/
def rule (c : Char) (widths : List Nat) : List Char :=
  '+' :: (widths.flatMap fun w => List.replicate (w + 2) c ++ ['+']) ++ ['\n']

/-- One line of a row, from the lines of its cells. -/
def rowLine (i : Nat) : List Nat → List (List (List Char)) → List Char
  | [], _ => ['\n']
  | width :: widths, cells =>
    let text := (cells.headD []).getD i []
    ' ' :: text ++ List.replicate (width - columns text) ' ' ++ [' ', '|'] ++
      rowLine i widths cells.tail

/-- A row: as many lines as its highest cell has, but one at least. -/
def rowText (widths : List Nat) (row : List String) : List Char :=
  let cells := row.map cellLines
  let height := cells.foldl (fun h c => max h c.length) 1
  (List.range height).flatMap fun i => '|' :: rowLine i widths cells

/-- The text of a grid. -/
def grid (titles : List String) (rows : List (List String)) : String :=
  let widths := columnWidths (titles :: rows)
  let body := (rows.map (rowText widths)).intersperse (rule '-' widths)
  String.ofList <|
    rule '-' widths ++ rowText widths titles ++ rule '=' widths ++ body.flatten ++
      rule '-' widths

/-!
## Output formats

Results and messages are written in one of three formats:

  * as text: a result is the display forms of its rows, a record its display form, and a message
    is painted by what it is;
  * as JSON: a result is an array with an object for each row, a record is an object, and a
    message is an object with one member that says what it is;
  * as a table: a result is a grid with a count below, a record a grid of its fields, and a message
    is written as in text.
-/

/-- A format. -/
inductive Format where
  | text
  | json
  | table
  deriving Repr, DecidableEq

namespace Format

/-- The word for a format. -/
def keyword : Format → String
  | text => "text"
  | json => "json"
  | table => "table"

/-- The name of a format in messages. -/
def name : Format → String
  | text => "Text"
  | json => "Json"
  | table => "Table"

/-- The format with a given word. -/
def ofKeyword? (word : String) : Option Format :=
  [text, json, table].find? fun f => f.keyword == word

/-- The format with a given word, in letters of either case. -/
def ofWord? (word : String) : Option Format := ofKeyword? word.toLower

end Format

/-- What a message is. -/
inductive Tone where
  | error
  | info
  | success
  deriving Repr, DecidableEq

namespace Tone

/-- The style of a message. -/
def style : Tone → Style
  | error => .boldRed
  | info => .blue
  | success => .boldGreen

/-- The name of the member that holds a message. -/
def member : Tone → String
  | error => "error"
  | info => "info"
  | success => "success"

end Tone

/-- How output is written: its format, and whether styles are set. -/
structure Writer where
  format : Format
  color : Bool
  deriving Repr, DecidableEq

namespace Writer

/-- A message. -/
def message (w : Writer) (tone : Tone) (s : String) : String :=
  match w.format with
  | .json => (Json.ofTexts [(tone.member, s)]).pretty
  | .text | .table => if w.color then tone.style.paint s else s

/-- A row as an object: each label with its cell. -/
def rowObject (labels cells : List String) : Json := Json.ofTexts (labels.zip cells)

/-- A result. -/
def table (w : Writer) (result : Query.Table) : String :=
  match w.format with
  | .text =>
    if result.rows.isEmpty then w.message .info "No rows" else "\n".intercalate result.lines
  | .json => (Json.array (result.rows.map fun row => rowObject result.columns row.cells)).pretty
  | .table =>
    grid result.columns (result.rows.map Record.cells) ++
      toString result.rows.length ++ " row(s)"

/-- A record. -/
def record (w : Writer) (r : Record) : String :=
  match w.format with
  | .text => r.display
  | .json => (rowObject r.ordering r.cells).pretty
  | .table =>
    grid ["Field", "Value"] ((r.ordering.zip r.cells).map fun (name, value) => [name, value])

end Writer

end RecordStore.Output

import RecordStore.Number
import RecordStore.Query.Basic
import RecordStore.Query.Keyword
import RecordStore.Schema.Basic

/-!
# Running a plan

A plan is run on the records of a source. Its commands choose, drop, order and group rows; where
rows are grouped, the values of each group are folded into one.
-/

namespace RecordStore.Query

open Number Time

/-!
## Folding the values of a group

An aggregate makes one value of the values that a field has within a group. Empty values do not
take part, except that `count` counts rows. What the fold does with the others depends on the kind
of the field:

  * `collect` lists them in brackets, in the order of the rows;
  * `sum` adds decimals exactly in a fixed-point word, and durations in minutes below their bound;
  * `min` and `max` compare decimals by the nearest double, durations by their minutes, and all
    else character by character; of equal values the first is kept.

A value that is not of its field's kind is an error where it has to be read; a single value is not
read for being compared.
-/

/-- The error for a value that is not of the field's kind. -/
def notOfKind (field : Field) (value : String) : StoreError :=
  .invalidValue field.name (.notOfKind value field.kind)

/-- The error for a sum beyond what is representable. -/
def outOfRange (field : Field) : StoreError := .invalidValue field.name .sumOutOfRange

/-- The decimal that a value of the field is. -/
def readDecimal (field : Field) (value : String) : Except StoreError Decimal :=
  match Decimal.parse? value with
  | some d => .ok d
  | none => .error (notOfKind field value)

/-- The minutes that a value of the field is. -/
def readMinutes (field : Field) (value : String) : Except StoreError Nat :=
  match Duration.parse? value with
  | some n => .ok n
  | none => .error (notOfKind field value)

/-! ### Sums -/

/-- A running sum of decimals with one more value. -/
def addDecimal (field : Field) (sum : FixedSum) (value : String) : Except StoreError FixedSum := do
  match sum.add? (← readDecimal field value) with
  | .ok sum => return sum
  | .error .notHeld => throw (notOfKind field value)
  | .error .outOfRange => throw (outOfRange field)

/-- A running sum of minutes with one more value. -/
def addMinutes (field : Field) (sum : Nat) (value : String) : Except StoreError Nat := do
  let total := sum + (← readMinutes field value)
  if total < Duration.bound then return total else throw (outOfRange field)

/-- The sum of values that are not empty; the sum of none is empty. -/
def sum (field : Field) (values : List String) : Except StoreError String :=
  if values.isEmpty then .ok ""
  else
    match field.kind with
    | .decimal => do
      match (← values.foldlM (addDecimal field) FixedSum.zero).format? with
      | some text => return text
      | none => throw .divisionByZero
    | .duration => do return Duration.format (← values.foldlM (addMinutes field) 0)
    | .text | .date => .error (.invalidGroup (.cannotSum field.kind field.name))

/-! ### Least and greatest -/

/-- The order of two values of the field. -/
def compareValues (field : Field) (a b : String) : Except StoreError Ordering :=
  match field.kind with
  | .decimal => do
    let x ← readDecimal field a
    let y ← readDecimal field b
    return compare (Binary64.ofDecimal x) (Binary64.ofDecimal y)
  | .duration => do
    let x ← readMinutes field a
    let y ← readMinutes field b
    return compare x y
  | .text | .date => .ok (compare a b)

/-- The best value so far, after one more: the new one if it compares as wanted. -/
def better (field : Field) (wanted : Ordering) (best value : String) :
    Except StoreError String := do
  return if (← compareValues field value best) = wanted then value else best

/-- The first of the values that no later one betters; none gives the empty value. -/
def extremum (field : Field) (wanted : Ordering) : List String → Except StoreError String
  | [] => .ok ""
  | value :: values => values.foldlM (better field wanted) value

/-! ### All aggregates -/

/-- The values that take part in a fold. -/
def present (values : List String) : List String := values.filter fun v => !v.isEmpty

/-- One value for the values that a field has within a group. -/
def Aggregate.fold (aggregate : Aggregate) (field : Field) (values : List String) :
    Except StoreError String :=
  match aggregate with
  | .count => .ok (toString values.length)
  | .collect => .ok ("[" ++ ",".intercalate (present values) ++ "]")
  | .sum => Query.sum field (present values)
  | .min => extremum field .lt (present values)
  | .max => extremum field .gt (present values)

/-!
## Running a plan

The commands of a plan are carried out one after the other, on a list of rows that does not exist
until the fields are chosen. The route:

  * `selectRows`    reads the records, narrows each to the chosen fields, and drops those that a
    filter given earlier rejects;
  * `filterRows`    drops the rows that a filter rejects;
  * `orderRows`     sorts stably by one field after the other, the first dominating;
  * `groupRows`     sorts by the grouping field and folds every run of equal values into one row;
  * `Plan.step`     one command; `Plan.run` all of them.

Any error ends the run without a result.
-/

/-- The labels of the columns and the rows below them. -/
structure Table where
  columns : List String
  rows : List Record
  deriving DecidableEq

/-- The display form of every row. -/
def Table.lines (table : Table) : List String := table.rows.map Record.display

/-- What reading the stored records gives, one after the other. -/
abbrev Source := List (Except StoreError Record)

/-! ### Choosing and filtering -/

/-- Whether the record satisfies every filter, the first that it does not deciding. -/
def satisfiesAll (r : Record) : List Filter → Except StoreError Bool
  | [] => .ok true
  | condition :: conditions => do
    if ← condition.evaluate r then satisfiesAll r conditions else return false

/-- The records narrowed to the given fields that satisfy every filter. -/
def selectRows (fields : List String) (conditions : List Filter) :
    Source → Except StoreError (List Record)
  | [] => .ok []
  | entry :: source => do
    let row ← (← entry).project fields
    let keep ← satisfiesAll row conditions
    let rows ← selectRows fields conditions source
    return if keep then row :: rows else rows

/-- The rows that satisfy a filter. -/
def filterRows (condition : Filter) : List Record → Except StoreError (List Record)
  | [] => .ok []
  | row :: rows => do
    let keep ← condition.evaluate row
    let rows ← filterRows condition rows
    return if keep then row :: rows else rows

/-! ### Ordering -/

/-- Whether a row may stand before another: by the first position at which their values differ. -/
def precedes : List Nat → Record → Record → Bool
  | [], _, _ => true
  | i :: positions, a, b =>
    match compare (a.value i) (b.value i) with
    | .lt => true
    | .gt => false
    | .eq => precedes positions a b

/-- The rows sorted by the given fields; rows with the same values keep their order. -/
def orderRows (schema : Schema) (fields : List String) (rows : List Record) :
    Except StoreError (List Record) := do
  let positions ← fields.mapM schema.position
  return rows.mergeSort (precedes positions)

/-! ### Grouping -/

/-- The rows cut into runs with the same value at a position: of each run the first row and the
    others. -/
def runs (i : Nat) : List Record → List (Record × List Record)
  | [] => []
  | row :: rows =>
    match runs i rows with
    | [] => [(row, [])]
    | (first, others) :: more =>
      if first.value i = row.value i then (row, first :: others) :: more
      else (row, []) :: (first, others) :: more

/-- The row with the fold of a run in the fields that the items aggregate. -/
def foldItems (schema : Schema) (run : List Record) :
    List SelectItem → Record → Except StoreError Record
  | [], row => .ok row
  | item :: items, row =>
    match item.aggregate with
    | none => foldItems schema run items row
    | some aggregate => do
      let field ← schema.field item.field
      let value ← aggregate.fold field (run.map (·.valueOf field.name))
      let row ← row.set field.name value
      foldItems schema run items row

/-- One row for every value of the grouping field, in the order of the values. -/
def groupRows (schema : Schema) (items : List SelectItem) (key : String) (rows : List Record) :
    Except StoreError (List Record) := do
  let rows ← orderRows schema [key] rows
  let i ← schema.position key
  (runs i rows).mapM fun (first, others) => foldItems schema (first :: others) items first

/-! ### Commands in order -/

/-- How far a run has come: the filters met before there were rows, and the rows. -/
structure Progress where
  pending : List Filter
  rows : Option (List Record)
  deriving DecidableEq

namespace Plan

/-- Carries out one command. -/
def step (plan : Plan) (source : Source) (progress : Progress) (command : Command) :
    Except StoreError Progress :=
  match command.stage, progress.rows with
  | .select _, none => do
    return { progress with rows := some (← selectRows plan.fields progress.pending source) }
  | .filter condition, none =>
    .ok { progress with pending := progress.pending ++ [condition] }
  | .filter condition, some rows => do
    return { progress with rows := some (← filterRows condition rows) }
  | .order fields, some rows => do
    return { progress with rows := some (← orderRows plan.schema fields rows) }
  | .group key, some rows => do
    return { progress with rows := some (← groupRows plan.schema plan.items key rows) }
  | .select _, some _ => .error (.malformedQuery (.commandRepeated .select))
  | .order _, none | .group _, none =>
    .error (.cannotExecute (.mustPrecede command.kind))

/-- Carries out all commands on the records of a source. -/
def run (plan : Plan) (source : Source) : Except StoreError Table := do
  let progress ← plan.query.commands.foldlM (plan.step source) ⟨[], none⟩
  match progress.rows with
  | some rows => return ⟨plan.columns, rows⟩
  | none => throw (.cannotExecute .absent)

end Plan

end RecordStore.Query

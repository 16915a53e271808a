import RecordStore.Filter

/-!
# Queries and plans

What a query consists of, and what it has to be like for the schema it is asked of. A query that
passes the check is a plan.
-/

/-!
## Queries

A query is a list of commands in the order in which they are carried out. Each command keeps the
text of its argument beside what that text means, its stage. The fields chosen by the query stand
beside the commands, because the whole query is checked against them.
-/

namespace RecordStore.Query

/-- A field chosen for the result, with the aggregate that its values undergo in a group. -/
structure SelectItem where
  field : String
  aggregate : Option Aggregate
  deriving Repr, DecidableEq

/-- The label of the item's column. -/
def SelectItem.label (item : SelectItem) : String :=
  match item.aggregate with
  | some aggregate => item.field ++ ":" ++ aggregate.key
  | none => item.field

/-- What a command does. -/
inductive Stage where
  | select (items : List SelectItem)
  | order (fields : List String)
  | group (field : String)
  | filter (condition : Filter)
  deriving Repr, DecidableEq

/-- The kind of command that a stage belongs to. -/
def Stage.kind : Stage → CommandKind
  | select _ => .select
  | order _ => .order
  | group _ => .group
  | filter _ => .filter

/-- A command: the text of its argument and what it means. -/
structure Command where
  args : String
  stage : Stage
  deriving Repr, DecidableEq

/-- The kind of a command. -/
def Command.kind (command : Command) : CommandKind := command.stage.kind

end RecordStore.Query

namespace RecordStore

open Query

/-- The commands, in the order in which they are carried out, and the fields chosen. -/
structure Query where
  commands : List Command
  select : Option (List SelectItem)
  deriving Repr, DecidableEq

namespace Query

/-- The query of a list of commands: the fields chosen are those of the first command that chooses
    any. -/
def ofCommands (commands : List Command) : Query where
  commands := commands
  select := commands.findSome? fun command =>
    match command.stage with
    | .select items => some items
    | _ => none

/-- The fields chosen, in order. -/
def selectedFields (query : Query) : List String := (query.select.getD []).map (·.field)

/-- The position of the command that chooses the fields. -/
def selectPosition? (query : Query) : Option Nat :=
  query.commands.findIdx? fun command => command.kind == .select

end Query

end RecordStore

namespace RecordStore.Query

/-!
## Plans — queries that fit a schema

Before any record is read, a query is checked against the schema of the records. A plan is a query
that has passed:

  * it chooses fields, and neither orders nor groups before it has;
  * it chooses known fields, and orders, groups and filters by chosen fields only;
  * if it groups, it chooses the grouping field without an aggregate and every other field with
    one, and sums nothing but numbers.

The checks are made in the order of the commands, after those on the choice of fields, and the
first fault is reported.
-/

/-- A query and the fields it chooses, of a given schema. -/
structure Plan where
  schema : Schema
  query : Query
  items : List SelectItem
  deriving DecidableEq

/-- The commands before the one that chooses the fields may only filter. -/
def checkBefore (query : Query) : Except StoreError Unit :=
  (query.commands.take (query.selectPosition?.getD 0)).forM fun command =>
    match command.kind with
    | .order | .group => .error (.cannotExecute (.mustPrecede command.kind))
    | .select | .filter => .ok ()

/-- A field must be known and chosen. -/
def checkSelected (schema : Schema) (items : List SelectItem) (field : String) :
    Except StoreError Unit := do
  let _ ← schema.position field
  unless items.any (·.field == field) do throw (.fieldNotSelected field)

/-- An item must suit a grouping by a field. -/
def checkGroupItem (schema : Schema) (key : String) (item : SelectItem) :
    Except StoreError Unit :=
  match item.aggregate with
  | none =>
    if item.field = key then .ok () else .error (.invalidGroup (.notAggregated item.field))
  | some aggregate =>
    if item.field = key then .error (.invalidGroup (.keyAggregated key aggregate))
    else do
      let field ← schema.field item.field
      if aggregate = .sum ∧ ¬ field.kind.isNumeric then
        throw (.invalidGroup (.cannotSum field.kind field.name))

/-- A grouping must be by a known field that is chosen, with items that suit it. -/
def checkGroup (schema : Schema) (items : List SelectItem) (key : String) :
    Except StoreError Unit := do
  let _ ← schema.position key
  items.forM (checkGroupItem schema key)
  unless items.any (·.field == key) do throw (.invalidGroup (.notSelected key))

/-- The fields of a stage must suit the schema and the fields chosen. -/
def checkStage (schema : Schema) (items : List SelectItem) : Stage → Except StoreError Unit
  | .select _ => .ok ()
  | .order fields => fields.forM (checkSelected schema items)
  | .filter condition => condition.fields.forM (checkSelected schema items)
  | .group key => checkGroup schema items key

namespace Plan

/-- The plan of a query, or the first thing that is wrong with it. -/
def make (schema : Schema) (query : Query) : Except StoreError Plan :=
  match query.select with
  | none => .error (.cannotExecute .absent)
  | some items => do
    checkBefore query
    items.forM fun item => do let _ ← schema.position item.field
    query.commands.forM fun command => checkStage schema items command.stage
    return ⟨schema, query, items⟩

/-- The fields chosen, in order. -/
def fields (plan : Plan) : List String := plan.items.map (·.field)

/-- The labels of the columns, in order. -/
def columns (plan : Plan) : List String := plan.items.map (·.label)

end Plan

end RecordStore.Query

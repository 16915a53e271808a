/-!
# The words of the query language

A query is a sequence of commands, each named by one letter after a dash, and a selected field may
name an aggregate after a colon. Both vocabularies are closed; `ofKey?` inverts `key`.
-/

namespace RecordStore.Query

/-- What a command does: choose fields, order, group, or keep the rows that satisfy a filter. -/
inductive CommandKind where
  | select
  | order
  | group
  | filter
  deriving Repr, DecidableEq

namespace CommandKind

/-- The letter of the command, without its dash. -/
def key : CommandKind → String
  | select => "s"
  | order => "o"
  | group => "g"
  | filter => "f"

/-- The command with a given letter. -/
def ofKey? (word : String) : Option CommandKind :=
  [select, order, group, filter].find? fun k => k.key == word

/-- The command as it is written. -/
def written (kind : CommandKind) : String := "-" ++ kind.key

@[simp] theorem ofKey?_key (kind : CommandKind) : ofKey? kind.key = some kind := by
  cases kind <;> decide

end CommandKind

/-- How the values of a field within a group become one value. -/
inductive Aggregate where
  | min
  | max
  | sum
  | count
  | collect
  deriving Repr, DecidableEq

namespace Aggregate

/-- The word for the aggregate. -/
def key : Aggregate → String
  | min => "min"
  | max => "max"
  | sum => "sum"
  | count => "count"
  | collect => "collect"

/-- The aggregate with a given word. -/
def ofKey? (word : String) : Option Aggregate :=
  [min, max, sum, count, collect].find? fun a => a.key == word

@[simp] theorem ofKey?_key (aggregate : Aggregate) : ofKey? aggregate.key = some aggregate := by
  cases aggregate <;> decide

end Aggregate

end RecordStore.Query

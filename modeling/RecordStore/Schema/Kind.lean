import RecordStore.Number
import RecordStore.Time

/-!
# Kinds of values

Every value of a record is a text. The kind of its field says which texts are well formed, and
whether they can be summed. A blank value is well formed for every kind; that is not decided here
but where records are checked.
-/

namespace RecordStore

/-- What the values of a field stand for. -/
inductive Kind where
  | text
  | date
  | decimal
  | duration
  deriving Repr, DecidableEq

namespace Kind

/-- The kind as it is named in messages. -/
def name : Kind → String
  | text => "Text"
  | date => "Date"
  | decimal => "Decimal"
  | duration => "Duration"

/-- The kind as it is named in the description of a schema. -/
def keyword : Kind → String
  | text => "text"
  | date => "date"
  | decimal => "decimal"
  | duration => "duration"

/-- The kind with a given keyword. -/
def ofKeyword? (word : String) : Option Kind :=
  [text, date, decimal, duration].find? fun k => k.keyword == word

/-- Whether a value is well formed for the kind. -/
def accepts (kind : Kind) (value : String) : Bool :=
  match kind with
  | text => true
  | date => (Time.Date.parse? value).isSome
  | decimal => (Number.Decimal.parse? value).isSome
  | duration => (Time.Duration.parse? value).isSome

/-- Whether values of the kind can be summed. -/
def isNumeric : Kind → Bool
  | decimal | duration => true
  | text | date => false

end Kind

end RecordStore

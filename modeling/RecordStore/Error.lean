import RecordStore.Disk
import RecordStore.Query.Keyword
import RecordStore.Schema.Kind

/-!
# Failures of the store

Every way in which describing, keeping or querying records can fail, as one type. The outer type
`StoreError` says which part of the work failed; where a part can fail for several reasons, an
inner type tells them apart. `message` gives the wording of each; nothing else in the library
makes the text of an error.
-/

namespace RecordStore

open Query (CommandKind Aggregate)

/-- Why a record or a schema has the wrong shape. -/
inductive RecordFault where
  | noFields
  | otherSchema
  deriving Repr, DecidableEq

/-- Why a value is refused. -/
inductive ValueFault where
  /-- The value would break the line it is stored in. -/
  | notStorable
  | longerThan (limit : Nat)
  | notOfKind (value : String) (kind : Kind)
  | sumOutOfRange
  deriving Repr, DecidableEq

/-- Why the data cannot be reached. -/
inductive ConnectionFault where
  | notConnected
  | cannotOpenStore (path : String) (fault : Disk.Fault)
  | cannotOpenFile (path : String) (fault : Disk.Fault)
  deriving Repr, DecidableEq

/-- A word of a query that means nothing. -/
inductive UnknownWord where
  | command (key : String)
  | aggregate (key : String)
  deriving Repr, DecidableEq

/-- Why a text is no query. -/
inductive QueryFault where
  | ungrammatical
  | commandRepeated (kind : CommandKind)
  | withoutFields (kind : CommandKind)
  | emptyField (kind : CommandKind) (args : String)
  | fieldRepeated (field : String)
  deriving Repr, DecidableEq

/-- What a query that can be read lacks for being run. -/
inductive SelectFault where
  | absent
  | mustPrecede (kind : CommandKind)
  deriving Repr, DecidableEq

/-- Why a text is no filter. -/
inductive FilterFault where
  | empty
  | unbalanced (text : String)
  | unexpected (text : String)
  | withoutEquals (text : String)
  | withoutField (text : String)
  | badLiteral (field value : String)
  deriving Repr, DecidableEq

/-- Why rows cannot be grouped as asked. -/
inductive GroupFault where
  | withoutField
  | severalFields (args : String)
  | cannotSum (kind : Kind) (field : String)
  | keyAggregated (field : String) (aggregate : Aggregate)
  | notAggregated (field : String)
  | notSelected (field : String)
  deriving Repr, DecidableEq

/-- Why a client is turned away. -/
inductive AccessFault where
  | noSecret (client : String)
  | unknownToken (client token : String)
  deriving Repr, DecidableEq

/-- What is wrong with a setting or with the description of a schema. -/
inductive ConfigFault where
  | invalidFieldName (name : String)
  | duplicateField (name : String)
  | noKey
  | unreadableSchema (path : String) (fault : Disk.Fault)
  | unreadableConfig (path : String) (fault : Disk.Fault)
  | pathNotText (shown : String)
  deriving Repr, DecidableEq

/-- Why a JSON text is not the description it should be. -/
inductive JsonFault where
  | notJson
  | wrongShape
  deriving Repr, DecidableEq

/-- Every failure of the store, the query language, the settings and the import. -/
inductive StoreError where
  | unknownField (name : String)
  | malformedRecord (fault : RecordFault)
  | invalidValue (field : String) (fault : ValueFault)
  | unavailable (fault : ConnectionFault)
  | writeFailed (fault : Disk.Fault)
  | unknownCommand (word : UnknownWord)
  | emptyQuery
  | malformedQuery (fault : QueryFault)
  | cannotExecute (fault : SelectFault)
  | malformedFilter (fault : FilterFault)
  | invalidGroup (fault : GroupFault)
  | fieldNotSelected (name : String)
  | unauthorized (fault : AccessFault)
  | config (fault : ConfigFault)
  | json (fault : JsonFault)
  | readFailed (fault : Disk.Fault)
  /-- A division by a power of ten that the word it is kept in has as zero. -/
  | divisionByZero
  deriving Repr, DecidableEq

/-! ## Wording -/

/-- The wording of a fault of shape. -/
def RecordFault.message : RecordFault → String
  | noFields => "schema defines no fields"
  | otherSchema => "record schema does not match the datastore"

/-- The wording of a refused value. -/
def ValueFault.message : ValueFault → String
  | notStorable => "contains the field delimiter or a line break"
  | longerThan limit => s!"longer than {limit} characters"
  | notOfKind value kind => "'" ++ value ++ "' is not a valid " ++ kind.name ++ " value"
  | sumOutOfRange => "sum is out of range"

/-- The wording of unreachable data. -/
def ConnectionFault.message : ConnectionFault → String
  | notConnected => "datastore is not connected"
  | cannotOpenStore path fault => "Unable to open or create " ++ path ++ ": " ++ fault.message
  | cannotOpenFile path fault => "Unable to open file " ++ path ++ ": " ++ fault.message

/-- The wording of a word without meaning. -/
def UnknownWord.message : UnknownWord → String
  | command key => "-" ++ key
  | aggregate key => "aggregate '" ++ key ++ "'"

/-- The wording of a text that is no query. -/
def QueryFault.message : QueryFault → String
  | ungrammatical => "Parse error"
  | commandRepeated kind => "command " ++ kind.written ++ " given more than once"
  | withoutFields kind => kind.written ++ " requires at least one field"
  | emptyField kind args => "empty field in " ++ kind.written ++ " " ++ args
  | fieldRepeated field => "field " ++ field ++ " selected more than once"

/-- The wording of what a query lacks. -/
def SelectFault.message : SelectFault → String
  | absent => "select statement is missing"
  | mustPrecede kind => kind.written ++ " must follow -s"

/-- The wording of a text that is no filter. -/
def FilterFault.message : FilterFault → String
  | empty => "empty filter expression"
  | unbalanced text => "unbalanced parenthesis in '" ++ text ++ "'"
  | unexpected text => "unexpected '" ++ text ++ "' after parenthesised group"
  | withoutEquals text => "expected field=\"value\", got '" ++ text ++ "'"
  | withoutField text => "missing field name in '" ++ text ++ "'"
  | badLiteral field value =>
    "value for " ++ field ++ " must be one double-quoted literal, got " ++ value

/-- The wording of a grouping that cannot be. -/
def GroupFault.message : GroupFault → String
  | withoutField => "-g requires a field"
  | severalFields args => "-g takes a single field, got '" ++ args ++ "'"
  | cannotSum kind field => "cannot sum " ++ kind.name ++ " field " ++ field
  | keyAggregated field aggregate =>
    "group field " ++ field ++ " cannot carry the " ++ aggregate.key ++ " aggregate"
  | notAggregated field => field ++ " is not part of an aggregate function"
  | notSelected field => field ++ " is not one of the select specifiers"

/-- The wording of a refusal. -/
def AccessFault.message : AccessFault → String
  | noSecret client => "'" ++ client ++ "': no secret given"
  | unknownToken client token => client ++ ": unknown token " ++ token

/-- The wording of a wrong setting. -/
def ConfigFault.message : ConfigFault → String
  | invalidFieldName name => "invalid field name '" ++ name ++ "'"
  | duplicateField name => "duplicate field '" ++ name ++ "'"
  | noKey => "schema defines no key fields"
  | unreadableSchema path fault => "Unable to read schema " ++ path ++ ": " ++ fault.message
  | unreadableConfig path fault => "Unable to read " ++ path ++ ": " ++ fault.message
  | pathNotText shown => "datastore path " ++ shown ++ " is not valid UTF-8"

/-- The wording of a wrong description. -/
def JsonFault.message : JsonFault → String
  | notJson => "the text is not one JSON value"
  | wrongShape => "the value does not have the members that are described"

namespace StoreError

/-- The wording of a failure. -/
def message : StoreError → String
  | unknownField name => "Unknown field: " ++ name
  | malformedRecord fault => "Malformed record: " ++ fault.message
  | invalidValue field fault => "Invalid value for field " ++ field ++ ": " ++ fault.message
  | unavailable fault => "Datastore unavailable: " ++ fault.message
  | writeFailed fault => "Failed to write to datastore: " ++ fault.message
  | unknownCommand word => "Unknown query command: " ++ word.message
  | emptyQuery => "Empty query"
  | malformedQuery fault => "Malformed query: " ++ fault.message
  | cannotExecute fault => "Cannot execute query: " ++ fault.message
  | malformedFilter fault => "Malformed filter: " ++ fault.message
  | invalidGroup fault => "Invalid group specification: " ++ fault.message
  | fieldNotSelected name => "Field " ++ name ++ " is not one of the select specifiers"
  | unauthorized fault => "Unable to authenticate client " ++ fault.message
  | config fault => "Configuration error: " ++ fault.message
  | json fault => "JSON error: " ++ fault.message
  | readFailed fault => "I/O error: " ++ fault.message
  | divisionByZero => "attempt to divide by zero"

/-- The failures that lie behind a failure, nearest first. -/
def causes : StoreError → List String
  | json fault => [fault.message]
  | readFailed fault => [fault.message]
  | _ => []

instance : ToString StoreError := ⟨message⟩

end StoreError

end RecordStore

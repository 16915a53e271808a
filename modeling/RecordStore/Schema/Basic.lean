import RecordStore.Error

/-!
# Schemas — the fields of a record and its key

A schema lists the fields that every record has, in order, and names the fields whose values
together identify a record. It is well formed when

  * there is a field;
  * no field has an empty name or a name with the field delimiter in it, and no two have the same;
  * there is a key field, and every key field is a field.

`fault?` finds the first thing wrong with a description; a `Schema` carries the proof that there is
none, so no later step has to ask again.
-/

namespace RecordStore

/-- The character between the fields of a stored record. -/
def delimiter : Char := '|'

/-- The name of a field, the kind of its values and, if they are bounded, their greatest length in
    characters. -/
structure Field where
  name : String
  kind : Kind
  maxLength : Option Nat
  deriving Repr, DecidableEq

namespace Schema

/-- The first fault among the fields, given the names of those before them. -/
def fieldFault? (seen : List String) : List Field → Option StoreError
  | [] => none
  | field :: fields =>
    if field.name = "" ∨ delimiter ∈ field.name.toList then
      some (.config (.invalidFieldName field.name))
    else if field.name ∈ seen then some (.config (.duplicateField field.name))
    else fieldFault? (seen ++ [field.name]) fields

/-- The first thing wrong with the description of a schema. -/
def fault? (fields : List Field) (key : List String) : Option StoreError :=
  if fields.isEmpty then some (.malformedRecord .noFields)
  else
    (fieldFault? [] fields).or <|
      if key.isEmpty then some (.config .noKey)
      else (key.find? fun name => fields.all (·.name != name)).map .unknownField

end Schema

/-- The fields of a record, in order, and the names of those that identify it. -/
structure Schema where
  fields : List Field
  key : List String
  valid : Schema.fault? fields key = none
  deriving DecidableEq

namespace Schema

/-- The schema with the given fields and key, or what is wrong with them. -/
def make (fields : List Field) (key : List String) : Except StoreError Schema :=
  match h : fault? fields key with
  | some error => .error error
  | none => .ok ⟨fields, key, h⟩

/-- The greatest length of the text fields of `mediaViews`. -/
def mediaTextLength : Nat := 64

/-- What a set-top box reports about a view: identified by box, title and date. -/
def mediaViews : Schema where
  fields := [
    ⟨"stb", .text, mediaTextLength⟩,
    ⟨"title", .text, mediaTextLength⟩,
    ⟨"provider", .text, mediaTextLength⟩,
    ⟨"date", .date, none⟩,
    ⟨"rev", .decimal, none⟩,
    ⟨"viewtime", .duration, none⟩]
  key := ["stb", "title", "date"]
  valid := by decide

instance : Inhabited Schema := ⟨mediaViews⟩

/-- The names of the fields, in order. -/
def names (schema : Schema) : List String := schema.fields.map (·.name)

/-- The number of fields. -/
def width (schema : Schema) : Nat := schema.fields.length

/-- The position of a field. -/
def position? (schema : Schema) (name : String) : Option Nat :=
  schema.fields.findIdx? (·.name == name)

/-- The position of a field, which must be known. -/
def position (schema : Schema) (name : String) : Except StoreError Nat :=
  match schema.position? name with
  | some i => .ok i
  | none => .error (.unknownField name)

/-- The field with a name, which must be known. -/
def field (schema : Schema) (name : String) : Except StoreError Field :=
  match schema.fields.find? (·.name == name) with
  | some field => .ok field
  | none => .error (.unknownField name)

/-- A value can be stored when it has neither the delimiter nor a line break in it. -/
def checkStorable (name value : String) : Except StoreError Unit :=
  if value.toList.any fun c => c == delimiter || c == '\n' || c == '\r' then
    .error (.invalidValue name .notStorable)
  else .ok ()

/-- A value fits a field when it can be stored and is blank, or is short enough and well formed. -/
def checkValue (field : Field) (value : String) : Except StoreError Unit := do
  checkStorable field.name value
  if value.isEmpty then return
  if let some limit := field.maxLength then
    if limit < value.length then throw (.invalidValue field.name (.longerThan limit))
  unless field.kind.accepts value do
    throw (.invalidValue field.name (.notOfKind value field.kind))

/-- Checks values against the fields in order, as far as both go. -/
def checkValues : List Field → List String → Except StoreError Unit
  | field :: fields, value :: values => do
    checkValue field value
    checkValues fields values
  | _, _ => .ok ()

end Schema

end RecordStore

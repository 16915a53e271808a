import RecordStore.Schema.Basic

/-!
# Records

A record holds one value for each field of its schema. It comes from a line of text, whose parts
between delimiters are the values in order, or from a blank record by setting fields. It is
written in two forms:

  * the *storage form* has every value, in the order of the schema, between delimiters;
  * the *display form* has the values that are not empty, in the record's ordering, between commas.

A record remembers whether a value was ever given to it: one that has none does not count as data,
however it is written. Its ordering is that of the schema until it is given another; projecting a
record onto some fields orders it by them and empties all others.
-/

namespace RecordStore

open RecordStore.Text

namespace Record

/-- `n` values from the front of a list, and empty ones where the list is too short. -/
def fill : Nat → List String → List String
  | 0, _ => []
  | n + 1, [] => "" :: fill n []
  | n + 1, value :: values => value :: fill n values

@[simp] theorem length_fill (n : Nat) (values : List String) : (fill n values).length = n := by
  induction n generalizing values with
  | zero => rfl
  | succ n ih => cases values <;> simp [fill, ih]

end Record

/-- One value for each field of a schema. -/
structure Record where
  schema : Schema
  values : List String
  /-- The fields shown, in order, where that is not simply the schema's order. -/
  override : Option (List String)
  /-- Whether a value was ever given to the record. -/
  hasData : Bool
  length_values : values.length = schema.width
  deriving DecidableEq

namespace Record

/-! ## Making records -/

/-- The record without any value. -/
def blank (schema : Schema) : Record where
  schema := schema
  values := fill schema.width []
  override := none
  hasData := false
  length_values := length_fill _ _

instance : Inhabited Record := ⟨blank default⟩

/-- The record of a line: its parts are the values, missing ones are empty and surplus ones are
    ignored. An empty line gives no value. -/
def parse (schema : Schema) (line : String) : Record :=
  if line.isEmpty then blank schema
  else
    { schema := schema
      values := fill schema.width (split delimiter line)
      override := none
      hasData := true
      length_values := length_fill _ _ }

/-! ## Reading records -/

/-- The value at a position; empty beyond the last. -/
def value (r : Record) (i : Nat) : String := r.values.getD i ""

/-- The value of a field; empty for a name that is no field. -/
def valueOf (r : Record) (name : String) : String :=
  match r.schema.position? name with
  | some i => r.value i
  | none => ""

/-- The value of a field, which must be known. -/
def get (r : Record) (name : String) : Except StoreError String :=
  (r.schema.position name).map r.value

/-- What identifies the record: the values of the key fields, one after the other. -/
def key (r : Record) : String := String.join (r.schema.key.map r.valueOf)

/-- The fields shown, in order. -/
def ordering (r : Record) : List String := r.override.getD r.schema.names

/-- The values shown, in order. -/
def cells (r : Record) : List String :=
  match r.override with
  | some names => names.map r.valueOf
  | none => r.values

/-- Whether a field is shown. -/
def isShown (r : Record) (name : String) : Bool :=
  (r.schema.position? name).isSome && r.ordering.contains name

/-- The storage form. -/
def toLine (r : Record) : String := String.singleton delimiter |>.intercalate r.values

/-- The display form. -/
def display (r : Record) : String := ",".intercalate (r.cells.filter fun v => !v.isEmpty)

instance : ToString Record := ⟨display⟩

/-- Checks every value against its field. -/
def check (schema : Schema) (r : Record) : Except StoreError Unit :=
  Schema.checkValues schema.fields r.values

/-! ## Changing records -/

/-- The record with another value at a position. -/
def setAt (r : Record) (i : Nat) (v : String) : Record :=
  { r with
    values := r.values.set i v
    hasData := true
    length_values := by simp [r.length_values] }

/-- The record with another value in a field, which must be known. -/
def set (r : Record) (name v : String) : Except StoreError Record :=
  (r.schema.position name).map fun i => r.setAt i v

/-- Every name must be that of a field; the first that is not is the error. -/
def checkNames (schema : Schema) : List String → Except StoreError Unit
  | [] => .ok ()
  | name :: names => do
    let _ ← schema.position name
    checkNames schema names

/-- The record showing the given fields in the given order; all must be known. -/
def order (r : Record) (names : List String) : Except StoreError Record :=
  (checkNames r.schema names).map fun _ => { r with override := some names }

/-- The values with those of fields outside `names` emptied. -/
def keepOnly (names : List String) : List Field → List String → List String
  | field :: fields, value :: values =>
    (if field.name ∈ names then value else "") :: keepOnly names fields values
  | _, values => values

/-- Values are emptied, not dropped. -/
@[simp] theorem length_keepOnly (names : List String) (fields : List Field)
    (values : List String) : (keepOnly names fields values).length = values.length := by
  induction fields generalizing values with
  | nil => cases values <;> rfl
  | cons field fields ih => cases values <;> simp [keepOnly, ih]

/-- The record narrowed to the given fields: they are shown, and every other value is empty. -/
def project (r : Record) (names : List String) : Except StoreError Record :=
  (r.order names).map fun _ =>
    { r with
      values := keepOnly names r.schema.fields r.values
      override := some names
      length_values := by simp [r.length_values] }

/-! ## Small facts -/

@[simp] theorem schema_setAt (r : Record) (i : Nat) (v : String) :
    (r.setAt i v).schema = r.schema := rfl

@[simp] theorem hasData_setAt (r : Record) (i : Nat) (v : String) : (r.setAt i v).hasData := rfl

@[simp] theorem hasData_blank (schema : Schema) : (blank schema).hasData = false := rfl

@[simp] theorem schema_blank (schema : Schema) : (blank schema).schema = schema := rfl

@[simp] theorem schema_parse (schema : Schema) (line : String) :
    (parse schema line).schema = schema := by
  unfold parse; split <;> rfl

/-- A line gives data exactly when it is not empty. -/
theorem hasData_parse (schema : Schema) (line : String) :
    (parse schema line).hasData = !line.isEmpty := by
  unfold parse; split <;> simp_all [blank]

end Record

end RecordStore

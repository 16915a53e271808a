import RecordStore.Filter
import RecordStore.Proofs.Record.Storage
import RecordStore.Proofs.Schema
import RecordStore.Proofs.Sequence

/-! # Records and the fields of their schema

    A query narrows a record to some of its fields, and the values of a record fit its fields or do
    not.  What fits still fits after the narrowing. -/

namespace RecordStore

/-! ## Narrowing a record

    A record that is projected onto some fields of its schema keeps their values and loses all
    others.  So a filter that compares none but these fields finds the same before and after:
    this is what lets a query narrow its records before it has seen all of its filters.  The
    route:

    * `narrow` and `project_eq_narrow`: the record that a projection onto known fields gives;
    * `get_narrow`, `valueOf_narrow_of_not_mem`: the chosen fields have the values they had, and
      the others have none;
    * `evaluate_congr`, `evaluate_narrow`: a filter on chosen fields finds what it found;
    * `evaluate_eq_ok`: a filter on known fields finds something. -/

namespace Record

/-- The record with the given fields shown, in the given order, and every other value emptied. -/
def narrow (names : List String) (r : Record) : Record :=
  { r with
    values := keepOnly names r.schema.fields r.values
    override := some names
    length_values := by simp [r.length_values] }

@[simp] theorem schema_narrow (names : List String) (r : Record) :
    (r.narrow names).schema = r.schema := rfl

theorem checkNames_eq_ok {schema : Schema} {names : List String}
    (known : ∀ name ∈ names, name ∈ schema.names) : checkNames schema names = .ok () := by
  induction names with
  | nil => rfl
  | cons name names ih =>
      obtain ⟨hname, hnames⟩ := List.forall_mem_cons.mp known
      obtain ⟨i, hi⟩ := Schema.position_of_mem hname
      rw [checkNames, hi]
      exact ih hnames

/-- A record can be narrowed to known fields. -/
theorem project_eq_narrow {r : Record} {names : List String}
    (known : ∀ name ∈ names, name ∈ r.schema.names) : r.project names = .ok (r.narrow names) := by
  rw [project, order, checkNames_eq_ok known]
  rfl

/-- Records of one schema with the same value in a field are read alike in it. -/
theorem get_congr {r r' : Record} {name : String} (hschema : r.schema = r'.schema)
    (h : r.valueOf name = r'.valueOf name) : r.get name = r'.get name := by
  rw [valueOf, valueOf, hschema] at h
  rw [get, get, hschema, Schema.position]
  cases hp : r'.schema.position? name with
  | none => rfl
  | some i =>
      rw [hp] at h
      exact congrArg Except.ok h

/-- Among values that are kept or emptied, those of the chosen fields stand where they stood. -/
private theorem getElem?_keepOnly {names : List String} {fields : List Field}
    {values : List String} {i : Nat} {field : Field} (h : fields[i]? = some field)
    (chosen : field.name ∈ names) : (keepOnly names fields values)[i]? = values[i]? := by
  induction fields generalizing values i with
  | nil => exact nomatch h
  | cons first fields ih =>
      cases values with
      | nil => rfl
      | cons value values =>
          cases i with
          | zero =>
              cases h
              rw [keepOnly, if_pos chosen]
              rfl
          | succ i => exact ih h

theorem get_narrow {r : Record} {names : List String} {name : String} (chosen : name ∈ names) :
    (r.narrow names).get name = r.get name := by
  rw [get, get, schema_narrow]
  cases hp : r.schema.position name with
  | error e => rfl
  | ok i =>
      obtain ⟨field, hfield, rfl⟩ := Schema.name_of_position? (Schema.position_eq_ok_iff.mp hp)
      have hvalue : (r.narrow names).value i = r.value i := by
        rw [value, value, List.getD_eq_getElem?_getD, List.getD_eq_getElem?_getD]
        exact congrArg (·.getD "") (getElem?_keepOnly hfield chosen)
      exact congrArg Except.ok hvalue

/-- Among values that are kept or emptied, those of other fields are empty. -/
private theorem getD_keepOnly_of_not_mem {names : List String} {fields : List Field}
    {values : List String} {i : Nat} {field : Field} (h : fields[i]? = some field)
    (left : field.name ∉ names) : (keepOnly names fields values).getD i "" = "" := by
  induction fields generalizing values i with
  | nil => exact nomatch h
  | cons first fields ih =>
      cases values with
      | nil => rfl
      | cons value values =>
          cases i with
          | zero =>
              cases h
              rw [keepOnly, if_neg left]
              rfl
          | succ i => exact ih h

theorem valueOf_narrow_of_not_mem {r : Record} {names : List String} {name : String}
    (left : name ∉ names) : (r.narrow names).valueOf name = "" := by
  rw [valueOf, schema_narrow]
  cases hp : r.schema.position? name with
  | none => rfl
  | some i =>
      obtain ⟨field, hfield, rfl⟩ := Schema.name_of_position? hp
      exact getD_keepOnly_of_not_mem hfield left

end Record

namespace Filter

variable {r : Record} {condition : Filter}

/-- A filter looks at a record for the values of the fields that it compares, and for nothing
    else. -/
theorem evaluate_congr {r' : Record} (same : ∀ name ∈ condition.fields, r.get name = r'.get name) :
    condition.evaluate r = condition.evaluate r' := by
  induction condition with
  | equals name value => rw [evaluate, evaluate, same name (by simp [fields])]
  | and left right ihl ihr | or left right ihl ihr =>
      obtain ⟨hl, hr⟩ := List.forall_mem_append.mp same
      rw [evaluate, evaluate, ihl hl, ihr hr]

/-- A filter on chosen fields finds in the narrowed record what it found in the whole. -/
theorem evaluate_narrow {names : List String} (chosen : ∀ name ∈ condition.fields, name ∈ names) :
    condition.evaluate (r.narrow names) = condition.evaluate r :=
  evaluate_congr fun name hn => Record.get_narrow (chosen name hn)

/-- Whether the filter evaluates to true. -/
def holds (condition : Filter) (r : Record) : Bool :=
  match condition.evaluate r with
  | .ok answer => answer
  | .error _ => false

/-- Records that agree on the fields of a filter satisfy it together. -/
theorem holds_congr {r' : Record} (same : ∀ name ∈ condition.fields, r.get name = r'.get name) :
    condition.holds r = condition.holds r' := by
  rw [holds, holds, evaluate_congr same]

/-- So do a record and what it is narrowed to, if the fields are chosen. -/
theorem holds_narrow {names : List String} (chosen : ∀ name ∈ condition.fields, name ∈ names) :
    condition.holds (r.narrow names) = condition.holds r := by
  rw [holds, holds, evaluate_narrow chosen]

private theorem exists_evaluate (known : ∀ name ∈ condition.fields, name ∈ r.schema.names) :
    ∃ answer, condition.evaluate r = .ok answer := by
  induction condition with
  | equals name value =>
      obtain ⟨i, hi⟩ := Schema.position_of_mem (known name (by simp [fields]))
      exact ⟨_, by rw [evaluate, Record.get, hi]; rfl⟩
  | and left right ihl ihr | or left right ihl ihr =>
      obtain ⟨hl, hr⟩ := List.forall_mem_append.mp known
      obtain ⟨a, ha⟩ := ihl hl
      obtain ⟨b, hb⟩ := ihr hr
      rw [evaluate, ha, hb]
      cases a <;> exact ⟨_, rfl⟩

/-- A filter that compares known fields is decided. -/
theorem evaluate_eq_ok (known : ∀ name ∈ condition.fields, name ∈ r.schema.names) :
    condition.evaluate r = .ok (condition.holds r) := by
  obtain ⟨answer, h⟩ := exists_evaluate known
  rw [holds, h]

end Filter

/-! ## Records whose values fit

    A record is checked value by value against the fields of its schema.  Here the check is turned
    into what it says of the record: every value can be stored, and is empty, or short enough and
    of its field's kind.  What is known of the values is kept when the record is narrowed, since a
    value that is emptied fits every field.  The route:

    * `Field.Fits` and `checkValue_eq_ok_iff`: one value;
    * `Record.Fits` and `check_eq_ok_iff`: all of them, position by position;
    * `Record.Fits.storable`, `Record.Fits.narrow`, `Record.Fits.valueOf`: what follows. -/

/-! ### One value -/

/-- A value that can be stored, and is empty, or short enough and of the field's kind. -/
structure Field.Fits (field : Field) (value : String) : Prop where
  storable : Storable value
  wellFormed : value = "" ∨
    (∀ limit, field.maxLength = some limit → value.length ≤ limit) ∧
      field.kind.accepts value = true

/-- The empty value fits every field. -/
theorem Field.fits_empty (field : Field) : field.Fits "" where
  storable := fun _ h => nomatch h
  wellFormed := .inl rfl

/-- One value passes the check when it fits its field. -/
theorem Schema.checkValue_eq_ok_iff {field : Field} {value : String} :
    Schema.checkValue field value = .ok () ↔ field.Fits value := by
  have fits_iff : field.Fits value ↔ Storable value ∧ (value = "" ∨
      (∀ limit, field.maxLength = some limit → value.length ≤ limit) ∧
        field.kind.accepts value = true) :=
    ⟨fun h => ⟨h.storable, h.wellFormed⟩, fun h => ⟨h.1, h.2⟩⟩
  rw [fits_iff, Schema.checkValue, check_bind_eq_ok_iff, checkStorable_eq_ok_iff]
  refine and_congr_right fun _ => ?_
  by_cases hempty : value = ""
  · rw [if_pos (by simpa using hempty)]
    exact iff_of_true rfl (.inl hempty)
  rw [if_neg (by simpa using hempty), or_iff_right hempty]
  cases field.maxLength with
  | none =>
      rw [and_iff_right (by simp)]
      exact unless_eq_ok_iff
  | some limit =>
      dsimp only
      by_cases hlong : limit < value.length
      · rw [if_pos hlong]
        exact iff_of_false (fun h => nomatch h) fun h => absurd (h.1 limit rfl) (by omega)
      · rw [if_neg hlong, and_iff_right (by rintro _ ⟨⟩; omega)]
        exact unless_eq_ok_iff

/-- Values pass the check when each fits the field at its position. -/
theorem Schema.checkValues_eq_ok_iff {fields : List Field} {values : List String} :
    Schema.checkValues fields values = .ok () ↔
      ∀ (i : Nat) field value, fields[i]? = some field → values[i]? = some value →
        field.Fits value := by
  induction fields generalizing values with
  | nil =>
      refine iff_of_true ?_ fun i _ _ h => nomatch h
      cases values <;> rfl
  | cons field fields ih =>
      cases values with
      | nil => exact iff_of_true rfl fun i _ _ _ h => nomatch h
      | cons value values =>
          rw [checkValues, check_bind_eq_ok_iff, checkValue_eq_ok_iff, ih]
          constructor
          · rintro ⟨first, rest⟩ i field' value' hf hv
            cases i with
            | zero =>
                cases hf
                cases hv
                exact first
            | succ i => exact rest i field' value' hf hv
          · intro h
            exact ⟨h 0 field value rfl rfl, fun i => h (i + 1)⟩

/-! ### All values of a record -/

namespace Record

variable {r : Record} {field : Field}

/-- A record each of whose values fits its field. -/
def Fits (r : Record) : Prop :=
  ∀ (i : Nat) field, r.schema.fields[i]? = some field → field.Fits (r.value i)

/-- A record passes the check of its own schema when its values fit. -/
theorem check_eq_ok_iff {schema : Schema} (h : r.schema = schema) :
    r.check schema = .ok () ↔ r.Fits := by
  subst h
  rw [check, Schema.checkValues_eq_ok_iff]
  -- a position with a field has a value, and it is the one that the record has there
  have hvalue {i : Nat} {field : Field} (hf : r.schema.fields[i]? = some field) :
      r.values[i]? = some (r.value i) := by
    obtain ⟨hi, -⟩ := List.getElem?_eq_some_iff.mp hf
    have hlt : i < r.values.length := by
      rw [r.length_values]
      exact hi
    rw [value, List.getD_eq_getElem?_getD, List.getElem?_eq_getElem hlt, Option.getD_some]
  constructor
  · intro h i field hf
    exact h i field _ hf (hvalue hf)
  · intro h i field value hf hv
    obtain rfl := Option.some.inj ((hvalue hf).symm.trans hv)
    exact h i field hf

/-- A record whose values fit can be stored. -/
theorem Fits.storable (h : r.Fits) : r.Storable := by
  intro v hv
  obtain ⟨i, hi⟩ := List.mem_iff_getElem?.mp hv
  obtain ⟨hlt, -⟩ := List.getElem?_eq_some_iff.mp hi
  have hfield : i < r.schema.fields.length := by
    rw [r.length_values] at hlt
    exact hlt
  have hfits := h i _ (List.getElem?_eq_getElem hfield)
  rw [value, List.getD_eq_getElem?_getD, hi, Option.getD_some] at hfits
  exact hfits.storable

/-- The value of a known field fits the field. -/
theorem Fits.valueOf (h : r.Fits) {name : String} (known : r.schema.field name = .ok field) :
    field.Fits (r.valueOf name) := by
  rw [Schema.field, List.find?_eq_bind_findIdx?_getElem?] at known
  rw [Record.valueOf, Schema.position?]
  cases hi : r.schema.fields.findIdx? (·.name == name) with
  | none => exact field.fits_empty
  | some i =>
      rw [hi, Option.bind_some] at known
      cases hf : r.schema.fields[i]? with
      | none =>
          rw [hf] at known
          cases known
      | some found =>
          rw [hf] at known
          cases known
          exact h i field hf

/-- Keeping some of the values and emptying the others leaves each as it was or empty. -/
private theorem getD_keepOnly (names : List String) (fields : List Field) (values : List String)
    (i : Nat) : (keepOnly names fields values).getD i "" = values.getD i "" ∨
      (keepOnly names fields values).getD i "" = "" := by
  induction fields generalizing values i with
  | nil => cases values <;> exact .inl rfl
  | cons field fields ih =>
      cases values with
      | nil => exact .inl rfl
      | cons value values =>
          cases i with
          | succ i => exact ih values i
          | zero =>
              by_cases hname : field.name ∈ names
              · exact .inl (if_pos hname)
              · exact .inr (if_neg hname)

/-- Narrowing keeps a record fitting, since an emptied value fits every field. -/
theorem Fits.narrow (h : r.Fits) (names : List String) : (r.narrow names).Fits := by
  intro i field hf
  have hvalue : (r.narrow names).value i = r.value i ∨ (r.narrow names).value i = "" :=
    getD_keepOnly names r.schema.fields r.values i
  rcases hvalue with hsame | hempty
  · rw [hsame]
    exact h i field hf
  · rw [hempty]
    exact field.fits_empty

end Record

end RecordStore

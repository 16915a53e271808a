import RecordStore.Schema.Basic

/-! # Schemas and their names

    A schema is valid by construction, and its names are those that can be looked up in it. -/

namespace RecordStore.Schema

/-! ## The names of a schema

    A name is looked up in a schema for the position of a field or for the field itself.  Either
    look-up succeeds for the names of the schema, and for no others. -/

section Names

variable {schema : Schema} {name : String} {i : Nat}

theorem mem_names : name ∈ schema.names ↔ ∃ field ∈ schema.fields, field.name = name :=
  List.mem_map

/-- A name has a position exactly when it is that of a field. -/
theorem mem_names_iff_position? : name ∈ schema.names ↔ ∃ i, schema.position? name = some i := by
  rw [mem_names, position?, ← Option.isSome_iff_exists, List.findIdx?_isSome, List.any_eq_true]
  simp only [beq_iff_eq]

/-- The field at the position of a name has the name. -/
theorem name_of_position? (h : schema.position? name = some i) :
    ∃ field, schema.fields[i]? = some field ∧ field.name = name := by
  obtain ⟨hi, hname, -⟩ := List.findIdx?_eq_some_iff_getElem.mp h
  exact ⟨schema.fields[i], List.getElem?_eq_getElem hi, by simpa using hname⟩

theorem position_eq_ok_iff : schema.position name = .ok i ↔ schema.position? name = some i := by
  rw [position]
  cases schema.position? name with
  | none => exact ⟨fun h => (nomatch h), fun h => nomatch h⟩
  | some j => rw [Except.ok.injEq, Option.some.injEq]

/-- The names of a schema are those that have a position. -/
theorem exists_position_iff : (∃ i, schema.position name = .ok i) ↔ name ∈ schema.names := by
  simp only [position_eq_ok_iff, mem_names_iff_position?]

theorem position_of_mem (h : name ∈ schema.names) : ∃ i, schema.position name = .ok i :=
  exists_position_iff.mpr h

/-- A name that is not of the schema is reported as an unknown field. -/
theorem position_of_not_mem (h : name ∉ schema.names) :
    schema.position name = .error (.unknownField name) := by
  rw [position]
  cases hp : schema.position? name with
  | none => rfl
  | some i => exact absurd (mem_names_iff_position?.mpr ⟨i, hp⟩) h

/-- The field that is found for a name is one of the schema and has the name. -/
theorem mem_of_field {field : Field} (h : schema.field name = .ok field) :
    field ∈ schema.fields ∧ field.name = name := by
  rw [Schema.field] at h
  cases hf : schema.fields.find? (·.name == name) with
  | none =>
      rw [hf] at h
      exact nomatch h
  | some found =>
      rw [hf] at h
      cases h
      have hname := List.find?_some hf
      exact ⟨List.mem_of_find?_eq_some hf, by simpa using hname⟩

end Names

/-! ## What the validity of a schema says

    A schema carries the proof that `fault?` finds nothing wrong with it.  Here that proof is
    taken apart into the facts that are used: there is a field, there is a key field, and every
    key field is a field. -/

theorem fields_ne_nil (schema : Schema) : schema.fields ≠ [] := by
  intro h
  have hv := schema.valid
  rw [fault?, h] at hv
  exact nomatch hv

theorem width_pos (schema : Schema) : 0 < schema.width :=
  List.length_pos_iff.mpr schema.fields_ne_nil

/-- What is left of the validity when the fields are in order: nothing is wrong with the key. -/
private theorem keyFault?_eq_none (schema : Schema) :
    (if schema.key.isEmpty then some (StoreError.config .noKey)
      else (schema.key.find? fun name => schema.fields.all (·.name != name)).map
        .unknownField) = none := by
  have hv := schema.valid
  rw [fault?, if_neg (by simpa using schema.fields_ne_nil)] at hv
  exact (Option.or_eq_none_iff.mp hv).2

theorem key_ne_nil (schema : Schema) : schema.key ≠ [] := by
  intro h
  have hk := schema.keyFault?_eq_none
  rw [h] at hk
  exact nomatch hk

/-- A key field is a field. -/
theorem exists_field_of_mem_key {schema : Schema} {name : String} (h : name ∈ schema.key) :
    ∃ field ∈ schema.fields, field.name = name := by
  have hk := schema.keyFault?_eq_none
  rw [if_neg (by simpa using schema.key_ne_nil), Option.map_eq_none_iff,
    List.find?_eq_none] at hk
  simpa using hk name h

/-- A key field has a position. -/
theorem position?_of_mem_key {schema : Schema} {name : String} (h : name ∈ schema.key) :
    ∃ i, schema.position? name = some i := by
  obtain ⟨field, hf, hn⟩ := exists_field_of_mem_key h
  exact ⟨_, List.findIdx?_eq_some_of_exists ⟨field, hf, by simpa using hn⟩⟩

end RecordStore.Schema

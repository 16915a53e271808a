import RecordStore.Proofs.Schema
import RecordStore.Proofs.Text.Lines
import RecordStore.Proofs.Text.Pieces
import RecordStore.Proofs.Text.Utf8
import RecordStore.Store.Basic

/-! # Records and their storage forms

    A record is stored as a line of text.  Where its values are storable it comes back; and for
    every record it can be said whether it does. -/

namespace RecordStore

open RecordStore.Text

/-! ## A record and the line it is stored in

    A record whose values are storable is written as one terminated line, and that line is read
    as the record again, in the order of the schema.  The one exception is a line that would be
    empty: it is read as no data, and only a record of one field has it.  The route:

    * `Storable`: the values that `checkStorable` lets pass;
    * `parse_toLine`: such values come back from the text that joins them;
    * `Line.record_storedLine`, which adds the bytes and the line feed;
    * `toLine_eq_empty_iff`: the records whose line is empty, known by their key. -/

/-! ### Values that can be stored -/

/-- A value without the delimiter and without a line break. -/
def Storable (value : String) : Prop :=
  ∀ c ∈ value.toList, c ≠ delimiter ∧ c ≠ '\n' ∧ c ≠ '\r'

private theorem storable_iff_any {value : String} :
    (value.toList.any fun c => c == delimiter || c == '\n' || c == '\r') = false ↔
      Storable value := by
  simp [Storable, and_assoc]

instance (value : String) : Decidable (Storable value) := decidable_of_iff _ storable_iff_any

/-- One value passes the check when it has neither a delimiter nor a line break. -/
theorem Schema.checkStorable_eq_ok_iff {name value : String} :
    Schema.checkStorable name value = .ok () ↔ Storable value := by
  rw [← storable_iff_any, Schema.checkStorable]
  cases value.toList.any fun c => c == delimiter || c == '\n' || c == '\r' <;> simp

/-- Where there is a value for each field, the check is made on all of them. -/
theorem Store.checkStorable_eq_ok_iff {fields : List Field} {values : List String}
    (h : values.length = fields.length) :
    Store.checkStorable fields values = .ok () ↔ ∀ v ∈ values, Storable v := by
  induction fields generalizing values with
  | nil =>
      rw [List.eq_nil_of_length_eq_zero h]
      simp [Store.checkStorable]
  | cons field fields ih =>
      cases values with
      | nil => exact nomatch h
      | cons value values =>
          have hrec := ih (Nat.succ.inj h)
          rw [List.forall_mem_cons, ← hrec, ← @Schema.checkStorable_eq_ok_iff field.name,
            Store.checkStorable]
          cases Schema.checkStorable field.name value with
          | error e => simp [bind, Except.bind]
          | ok u => simp [bind, Except.bind]

namespace Record

/-- The values are kept as far as there is room, and what room is left is for empty ones. -/
theorem fill_eq_append (n : Nat) (values : List String) :
    fill n values = values.take n ++ List.replicate (n - values.length) "" := by
  induction n generalizing values with
  | zero =>
      rw [Nat.zero_sub]
      rfl
  | succ n ih =>
      cases values with
      | nil =>
          rw [fill, ih, List.take_nil, List.take_nil]
          rfl
      | cons value values =>
          rw [fill, ih, List.take_succ_cons, List.length_cons, Nat.add_sub_add_right,
            List.cons_append]

@[simp] theorem fill_of_length {n : Nat} {values : List String} (h : values.length = n) :
    fill n values = values := by
  rw [fill_eq_append, List.take_of_length_le (Nat.le_of_eq h), h, Nat.sub_self,
    List.replicate_zero, List.append_nil]

/-- The values of a line are its parts, an empty line being one empty part. -/
theorem values_parse (schema : Schema) (line : String) :
    (parse schema line).values = fill schema.width (split delimiter line) := by
  by_cases hempty : line.isEmpty
  · obtain ⟨n, hn⟩ := Nat.exists_eq_succ_of_ne_zero (Nat.ne_of_gt schema.width_pos)
    rw [parse, if_pos hempty, String.isEmpty_iff.mp hempty]
    show fill schema.width [] = fill schema.width [""]
    rw [hn, fill, fill]
  · rw [parse, if_neg hempty]

@[simp] theorem override_parse (schema : Schema) (line : String) :
    (parse schema line).override = none := by
  unfold parse
  split <;> rfl

theorem values_ne_nil (r : Record) : r.values ≠ [] := by
  intro h
  have hw := r.schema.width_pos
  rw [← r.length_values, h] at hw
  exact absurd hw (by simp)

/-! ### The storage form -/

/-- A record of storable values. -/
def Storable (r : Record) : Prop := ∀ v ∈ r.values, RecordStore.Storable v

instance (r : Record) : Decidable r.Storable :=
  inferInstanceAs (Decidable (∀ v ∈ r.values, RecordStore.Storable v))

/-- The record as it is read back: its values, in the order of the schema. -/
def stored (r : Record) : Record := { r with override := none, hasData := true }

@[simp] theorem values_stored (r : Record) : r.stored.values = r.values := rfl

@[simp] theorem schema_stored (r : Record) : r.stored.schema = r.schema := rfl

@[simp] theorem hasData_stored (r : Record) : r.stored.hasData = true := rfl

@[simp] theorem key_stored (r : Record) : r.stored.key = r.key := rfl

@[simp] theorem toLine_stored (r : Record) : r.stored.toLine = r.toLine := rfl

/-- A storage form that is not empty is read as the record it was written from. -/
theorem parse_toLine {r : Record} (hr : r.Storable) (ne : r.toLine ≠ "") :
    parse r.schema r.toLine = r.stored := by
  have hsplit : split delimiter r.toLine = r.values :=
    split_intercalate r.values_ne_nil fun v hv hd => (hr v hv delimiter hd).1 rfl
  have hempty : ¬ r.toLine.isEmpty := by simpa using ne
  simp only [parse, hempty, hsplit, fill_of_length r.length_values]
  rfl

/-- No line break is in a storage form. -/
theorem noBreak_toLine {r : Record} (hr : r.Storable) :
    ∀ c ∈ r.toLine.toList, c ≠ '\n' ∧ c ≠ '\r' := by
  intro c hc
  rw [toLine, String.toList_intercalate, String.toList_singleton] at hc
  rcases mem_intercalate hc with h | ⟨p, hp, hcp⟩
  · rw [List.mem_singleton.mp h]
    decide
  · obtain ⟨v, hv, rfl⟩ := List.mem_map.mp hp
    exact (hr v hv c hcp).2

/-- The line of a record is terminated, and the line feed at its end is the only one. -/
theorem terminated_storedLine {r : Record} (hr : r.Storable) : Terminated r.storedLine :=
  ⟨encode r.toLine, lineFeed_notMem_encode fun h => (noBreak_toLine hr _ h).1 rfl, rfl⟩

end Record

/-! ### Lines and their ends -/

private theorem trimLineEnd_append_lineFeed (s : String) :
    trimLineEnd (s ++ "\n") = trimLineEnd s := by
  simp [trimLineEnd]

private theorem trimLineEnd_of_noBreak {s : String} (h : ∀ c ∈ s.toList, c ≠ '\n' ∧ c ≠ '\r') :
    trimLineEnd s = s := by
  have hdrop : (s.toList.reverse.dropWhile fun c => c == '\n' || c == '\r')
      = s.toList.reverse := by
    cases hs : s.toList.reverse with
    | nil => rfl
    | cons c cs =>
        have hc := h c (List.mem_reverse.mp (hs ▸ List.mem_cons_self))
        exact List.dropWhile_cons_of_neg (by simpa using hc)
  rw [trimLineEnd, hdrop, List.reverse_reverse, String.ofList_toList]

/-- A line feed more at the end of a line changes nothing in what the line holds. -/
theorem Line.record_append_lineFeed {schema : Schema} {line : Bytes} {r : Record}
    (h : Line.record schema line = .ok r) : Line.record schema (line ++ [lineFeed]) = .ok r := by
  unfold Line.record at h ⊢
  cases hd : decode line with
  | error e => rw [hd] at h; exact nomatch h
  | ok text =>
      have hfeed : decode (line ++ [lineFeed]) = .ok (text ++ "\n") :=
        decode_append_encode hd "\n"
      rw [hd] at h
      rw [hfeed]
      simpa only [trimLineEnd_append_lineFeed] using h

/-- The line of a record is read as the text of the record. -/
theorem Line.record_storedLine {r : Record} (hr : r.Storable) :
    Line.record r.schema r.storedLine = .ok (Record.parse r.schema r.toLine) := by
  have hline : Line.record r.schema (encode r.toLine) = .ok (Record.parse r.schema r.toLine) := by
    rw [Line.record, decode_encode]
    simp only [trimLineEnd_of_noBreak (Record.noBreak_toLine hr)]
  exact Line.record_append_lineFeed hline

namespace Record

/-! ### Records whose line is empty

    A record of several fields has a delimiter in its line.  A record of one field has its value
    for a line, and the value, once or several times, for a key. -/

/-- With one field there is one value, that of the key field. -/
private theorem values_of_width_one {r : Record} (hw : r.schema.width = 1) {name : String}
    (hn : name ∈ r.schema.key) : r.values = [r.valueOf name] := by
  obtain ⟨v, hv⟩ := List.length_eq_one_iff.mp (r.length_values.trans hw)
  obtain ⟨i, hi⟩ := Schema.position?_of_mem_key hn
  have hlt : i < r.schema.width := (List.findIdx?_eq_some_iff_getElem.mp hi).1
  have hzero : i = 0 := by omega
  rw [valueOf, hi, hzero]
  show r.values = [r.values.getD 0 ""]
  rw [hv]
  rfl

private theorem join_empty (names : List String) : String.join (names.map fun _ => "") = "" := by
  induction names with
  | nil => rfl
  | cons name names ih => rw [List.map_cons, String.join_cons, ih, String.empty_append]

/-- With one field the key is the storage form. -/
private theorem key_of_width_one {r : Record} (hw : r.schema.width = 1) :
    r.key = "" ↔ r.toLine = "" := by
  obtain ⟨v, hv⟩ := List.length_eq_one_iff.mp (r.length_values.trans hw)
  have hline : r.toLine = v := by rw [toLine, hv, String.intercalate_singleton]
  have hvalue : ∀ name ∈ r.schema.key, r.valueOf name = v := fun name hn =>
    List.singleton_inj.mp ((values_of_width_one hw hn).symm.trans hv)
  rw [hline, key, List.map_congr_left hvalue]
  constructor
  · intro h
    cases hk : r.schema.key with
    | nil => exact absurd hk r.schema.key_ne_nil
    | cons name names =>
        rw [hk, List.map_cons, String.join_cons] at h
        exact (String.append_eq_empty_iff.mp h).1
  · rintro rfl
    exact join_empty r.schema.key

/-- A storage form is empty exactly when the record has one field and its key is empty. -/
theorem toLine_eq_empty_iff (r : Record) :
    r.toLine = "" ↔ r.schema.width = 1 ∧ r.key = "" := by
  constructor
  · intro h
    have hw : r.schema.width = 1 := by
      rw [← r.length_values]
      match hv : r.values, r.values_ne_nil with
      | [_], _ => rfl
      | v :: v' :: vs, _ =>
          have hl : r.toLine.toList = [] := by rw [h]; rfl
          rw [toLine, hv, String.intercalate_cons_cons] at hl
          simp at hl
    exact ⟨hw, (key_of_width_one hw).mpr h⟩
  · rintro ⟨hw, hk⟩
    exact (key_of_width_one hw).mp hk

/-- A key that is not empty, or a second field, keeps the storage form from being empty. -/
theorem toLine_ne_empty {r : Record} (h : r.key ≠ "" ∨ 2 ≤ r.schema.width) : r.toLine ≠ "" := by
  intro he
  obtain ⟨hw, hk⟩ := (toLine_eq_empty_iff r).mp he
  rcases h with h | h
  · exact h hk
  · omega

end Record

/-! ## Which records come back from their storage form

    A storage form is cut at its delimiters when it is read.  It does not tell in which order a
    record is shown, and that values were given it tells only by not being empty.  So a record comes
    back exactly when its values have no delimiter, it is shown in the order of the schema, and it
    has data or not as its line says.  A line comes back where there is a value for each field and
    no more.  The route:

    * `values_parse_toLine_iff`: when the values come back, whatever becomes of the rest;
    * `hasData_iff_toLine_ne_empty`: what the line says of the data;
    * `parse_toLine_eq_iff`, `toLine_parse`: reading after writing, and writing after reading. -/

attribute [ext] Record

namespace Record

variable {r : Record}

/-! ### The values -/

theorem mem_fill {n : Nat} {values : List String} {v : String} (h : v ∈ fill n values) :
    v = "" ∨ v ∈ values := by
  rw [fill_eq_append, List.mem_append] at h
  rcases h with kept | added
  · exact .inr (List.mem_of_mem_take kept)
  · exact .inl (List.eq_of_mem_replicate added)

/-- What was read has no delimiter in a value. -/
theorem delimiter_not_mem_values_parse {schema : Schema} {line v : String}
    (h : v ∈ (parse schema line).values) : delimiter ∉ v.toList := by
  rw [values_parse] at h
  rcases mem_fill h with rfl | h
  · exact List.not_mem_nil
  · exact not_mem_of_mem_split h

/-- The values come back exactly when none has a delimiter. -/
theorem values_parse_toLine_iff :
    (parse r.schema r.toLine).values = r.values ↔ ∀ v ∈ r.values, delimiter ∉ v.toList := by
  constructor
  · intro h v hv
    rw [← h] at hv
    exact delimiter_not_mem_values_parse hv
  · intro free
    rw [values_parse, toLine, split_intercalate r.values_ne_nil free,
      fill_of_length r.length_values]

/-! ### The data -/

/-- The line of a record of one field is its value. -/
theorem toLine_eq_value_of_width_one (hw : r.schema.width = 1) : r.toLine = r.value 0 := by
  obtain ⟨v, hv⟩ := List.length_eq_one_iff.mp (r.length_values.trans hw)
  rw [toLine, value, hv, String.intercalate_singleton]
  rfl

/-- What it is for a record to have data as its line says: the line of two fields and more is never
    empty, and the line of one field is its value. -/
theorem hasData_iff_toLine_ne_empty :
    (r.hasData = true ↔ r.toLine ≠ "") ↔
      (2 ≤ r.schema.width → r.hasData = true) ∧
        (r.schema.width = 1 → (r.hasData = true ↔ r.value 0 ≠ "")) := by
  have hpos := r.schema.width_pos
  by_cases hw : r.schema.width = 1
  · rw [toLine_eq_value_of_width_one hw]
    constructor
    · intro h
      exact ⟨fun several => by omega, fun _ => h⟩
    · intro h
      exact h.2 hw
  · have several : 2 ≤ r.schema.width := by omega
    have ne : r.toLine ≠ "" := toLine_ne_empty (.inr several)
    constructor
    · intro h
      exact ⟨fun _ => h.mpr ne, fun one => absurd one hw⟩
    · intro h
      exact iff_of_true (h.1 several) ne

/-! ### There and back -/

/-- **A record is read as it was written** exactly when no value has a delimiter, it is shown in the
    order of the schema, and it has data as its line says. -/
theorem parse_toLine_eq_iff :
    parse r.schema r.toLine = r ↔
      (∀ v ∈ r.values, delimiter ∉ v.toList) ∧ r.override = none ∧
        (r.hasData = true ↔ r.toLine ≠ "") := by
  rw [Record.ext_iff, schema_parse, override_parse, hasData_parse, values_parse_toLine_iff,
    and_iff_right rfl]
  have given : r.toLine ≠ "" ↔ (!r.toLine.isEmpty) = true := by simp
  rw [given, ← Bool.eq_iff_iff]
  exact and_congr_right' (and_congr eq_comm eq_comm)

/-- **A line is written as it was read** where it has a value for each field. -/
theorem toLine_parse {schema : Schema} {line : String}
    (full : (split delimiter line).length = schema.width) :
    (parse schema line).toLine = line := by
  rw [toLine, values_parse, fill_of_length full, intercalate_split]

/-- **What the storage form keeps.**  A record, however it was made, is read from its storage form
    as it was exactly when no value has a delimiter, it is shown in the order of the schema, and it
    has data: always, if there are two fields or more, and if there is one, just in case its value
    is not empty.  A line with one part for each field is the storage form of the record that is
    read from it. -/
theorem storage_round_trip :
    (∀ r : Record, parse r.schema r.toLine = r ↔
      (∀ v ∈ r.values, delimiter ∉ v.toList) ∧ r.override = none ∧
        (2 ≤ r.schema.width → r.hasData = true) ∧
        (r.schema.width = 1 → (r.hasData = true ↔ r.value 0 ≠ ""))) ∧
    ∀ schema line, (split delimiter line).length = schema.width →
      (parse schema line).toLine = line := by
  constructor
  · intro r
    rw [parse_toLine_eq_iff, hasData_iff_toLine_ne_empty]
  · intro schema line full
    exact toLine_parse full

/-- Records of titles only. -/
def titlesOnly : Schema where
  fields := [⟨"title", .text, none⟩]
  key := ["title"]
  valid := by decide

/-- A view comes back with blank values anywhere, but not when it is shown in another order; a title
    that was set comes back, but not one that was emptied. -/
theorem storage_round_trip_titles :
    (parse .mediaViews "|up|||1.50|").toLine = "|up|||1.50|" ∧
      parse .mediaViews "|up|||1.50|" = parse .mediaViews (parse .mediaViews "|up|||1.50|").toLine ∧
      (∃ r, (parse .mediaViews "|up|||1.50|").order ["title"] = .ok r ∧
        parse r.schema r.toLine ≠ r) ∧
      (∃ r, (blank titlesOnly).set "title" "up" = .ok r ∧ parse r.schema r.toLine = r) ∧
      ∃ r, (blank titlesOnly).set "title" "" = .ok r ∧ parse r.schema r.toLine ≠ r := by
  obtain ⟨comesBack, written⟩ := storage_round_trip
  refine ⟨written _ _ (by decide +kernel), ((comesBack _).mpr ?_).symm, ⟨_, rfl, ?_⟩,
    ⟨_, rfl, (comesBack _).mpr ?_⟩, ⟨_, rfl, ?_⟩⟩
  · decide +kernel
  · exact fun same => absurd ((comesBack _).mp same).2.1 (by decide +kernel)
  · decide +kernel
  · exact fun same => absurd (((comesBack _).mp same).2.2.2 rfl) (by decide +kernel)

end Record

end RecordStore

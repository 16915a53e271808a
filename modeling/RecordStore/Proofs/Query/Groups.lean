import RecordStore.Proofs.Query.Checked
import RecordStore.Proofs.Query.Runs
import RecordStore.Proofs.Sequence
import RecordStore.Query.Run

/-! # Grouping

    Grouping is a list of folds, so how a fold can fail is how grouping can. -/

namespace RecordStore

/-! ## Grouping as a list of folds

    Grouping sorts the rows, cuts them into runs and rewrites the first row of each with one fold
    after the other.  Told apart from how it is done, it is a list of folds: for every value of the
    grouping field, in ascending order, what each item asks for of the rows with the value.  A fold
    reads the rows as they stood before any was rewritten.  The route:

    * `foldOf`, `folds`: what the items ask for;
    * `Folded` and `foldItems_madeOf`: a row is rewritten by the folds of the items, in order;
    * `groupRows_madeOf`: so are the first rows of all groups. -/

namespace Record

variable {r : Record} {i : Nat} {name v : String}

theorem valueOf_setAt (hi : r.schema.position? name = some i) : (r.setAt i v).valueOf name = v := by
  obtain ⟨field, hfield, -⟩ := Schema.name_of_position? hi
  have hlt : i < r.values.length := by
    rw [r.length_values]
    exact (List.getElem?_eq_some_iff.mp hfield).1
  rw [valueOf, schema_setAt, hi]
  show (r.values.set i v).getD i "" = v
  rw [List.getD_eq_getElem?_getD, List.getElem?_set_self hlt, Option.getD_some]

theorem valueOf_setAt_of_ne {other : String} (hi : r.schema.position? name = some i)
    (h : name ≠ other) : (r.setAt i v).valueOf other = r.valueOf other := by
  rw [valueOf, valueOf, schema_setAt]
  cases hj : r.schema.position? other with
  | none => rfl
  | some j =>
      have hne : i ≠ j := by
        rintro rfl
        obtain ⟨field, hfield, rfl⟩ := Schema.name_of_position? hi
        obtain ⟨field', hfield', rfl⟩ := Schema.name_of_position? hj
        cases hfield.symm.trans hfield'
        exact h rfl
      show (r.values.set i v).getD j "" = r.values.getD j ""
      rw [List.getD_eq_getElem?_getD, List.getElem?_set_ne hne, List.getD_eq_getElem?_getD]

end Record

namespace Query

variable {schema : Schema} {items : List SelectItem} {key : String} {run rows : List Record}

/-- The fold that an item with an aggregate asks for: of what the rows have in its field. -/
def foldOf (schema : Schema) (run : List Record) (item : SelectItem) (aggregate : Aggregate) :
    Except StoreError String := do
  let field ← schema.field item.field
  aggregate.fold field (run.map (·.valueOf item.field))

/-- The folds that the items ask for, in the order of the items. -/
def folds (schema : Schema) (items : List SelectItem) (run : List Record) :
    List (Except StoreError String) :=
  items.filterMap fun item => item.aggregate.map (foldOf schema run item)

/-- The folds that the items ask for of every group, one group after the other. -/
def groupFolds (schema : Schema) (items : List SelectItem) (key : String) (rows : List Record)
    (values : List String) : List (Except StoreError String) :=
  values.flatMap fun v => folds schema items (withValue key rows v)

/-- A row that was rewritten by the folds of the items: it is of the same schema and shows the same
    fields; it has the values that it had, but for the fields of the items that aggregate, and when
    no two items are of one field it has the folds in those. -/
structure Folded (schema : Schema) (items : List SelectItem) (run : List Record)
    (row row' : Record) : Prop where
  schema_eq : row'.schema = row.schema
  shown_eq : row'.override = row.override
  kept : ∀ name, (∀ item ∈ items, item.aggregate ≠ none → item.field ≠ name) →
    row'.valueOf name = row.valueOf name
  folded : (items.map (·.field)).Nodup → ∀ item ∈ items, ∀ aggregate,
    item.aggregate = some aggregate →
      foldOf schema run item aggregate = .ok (row'.valueOf item.field)

namespace Folded

variable {item : SelectItem} {row row' : Record}

theorem refl (row : Record) : Folded schema [] run row row where
  schema_eq := rfl
  shown_eq := rfl
  kept _ _ := rfl
  folded _ _ h := nomatch h

/-- An item without an aggregate changes nothing. -/
theorem cons_none (carried : item.aggregate = none) (h : Folded schema items run row row') :
    Folded schema (item :: items) run row row' where
  schema_eq := h.schema_eq
  shown_eq := h.shown_eq
  kept name other := h.kept name (List.forall_mem_cons.mp other).2
  folded distinct := by
    refine List.forall_mem_cons.mpr ⟨fun aggregate h => ?_, ?_⟩
    · exact nomatch carried.symm.trans h
    · exact h.folded (List.nodup_cons.mp distinct).2

/-- The fold of an item that aggregates is set, and stays unless another item is of its field. -/
theorem cons_some {aggregate : Aggregate} {i : Nat} {value : String}
    (carried : item.aggregate = some aggregate) (hi : row.schema.position? item.field = some i)
    (hvalue : foldOf schema run item aggregate = .ok value)
    (h : Folded schema items run (row.setAt i value) row') :
    Folded schema (item :: items) run row row' where
  schema_eq := h.schema_eq
  shown_eq := h.shown_eq
  kept name other := by
    obtain ⟨first, rest⟩ := List.forall_mem_cons.mp other
    rw [h.kept name rest]
    exact Record.valueOf_setAt_of_ne hi (first (carried ▸ Option.some_ne_none _))
  folded distinct := by
    obtain ⟨alone, distinct⟩ := List.nodup_cons.mp distinct
    refine List.forall_mem_cons.mpr ⟨fun aggregate' h' => ?_, h.folded distinct⟩
    cases carried.symm.trans h'
    rw [h.kept item.field fun other ho _ same => alone (List.mem_map.mpr ⟨other, ho, same⟩),
      Record.valueOf_setAt hi]
    exact hvalue

/-- A row keeps its value in the field that is grouped by, since no item folds that. -/
theorem key_eq (suits : ∀ item ∈ items, SuitsGroup schema key item)
    (h : Folded schema items run row row') : row'.valueOf key = row.valueOf key := by
  refine h.kept key fun item chosen carries => ?_
  obtain ⟨aggregate, carried⟩ := Option.ne_none_iff_exists'.mp carries
  exact ((suits item chosen).exists_field carried).1

end Folded

/-- **A row is rewritten by the folds of the items, and fails with the first that does.** -/
theorem foldItems_madeOf {row : Record} (suits : ∀ item ∈ items, SuitsGroup schema key item)
    (hrow : row.schema = schema) :
    MadeOf (folds schema items run) (Folded schema items run row)
      (foldItems schema run items row) := by
  induction items generalizing row with
  | nil => exact .value (.refl row)
  | cons item items ih =>
      obtain ⟨suit, hitems⟩ := List.forall_mem_cons.mp suits
      rw [foldItems, folds, List.filterMap_cons]
      cases carried : item.aggregate with
      | none => exact (ih hitems hrow).imp fun _ h => h.cons_none carried
      | some aggregate =>
          obtain ⟨-, field, known, -⟩ := suit.exists_field carried
          obtain ⟨hmem, hname⟩ := Schema.mem_of_field known
          obtain ⟨i, hi⟩ := Schema.position_of_mem (Schema.mem_names.mpr ⟨field, hmem, hname⟩)
          have hfold : aggregate.fold field (run.map (·.valueOf field.name))
              = foldOf schema run item aggregate := by
            rw [foldOf, known, hname]
            rfl
          have hset (value : String) : row.set field.name value = .ok (row.setAt i value) := by
            rw [Record.set, hname, hrow, hi]
            rfl
          dsimp only
          rw [known]
          show MadeOf ([foldOf schema run item aggregate] ++ folds schema items run) _
            (aggregate.fold field (run.map (·.valueOf field.name)) >>= fun value =>
              row.set field.name value >>= foldItems schema run items)
          rw [hfold]
          refine (MadeOf.self _).bind fun value hvalue => ?_
          rw [hset]
          refine (ih hitems ((row.schema_setAt i value).trans hrow)).imp fun _ h => ?_
          exact h.cons_some carried (hrow ▸ Schema.position_eq_ok_iff.mp hi) hvalue

/-- What a group becomes: its first row, rewritten by the folds of the rows of the group. -/
def GroupedInto (schema : Schema) (items : List SelectItem) (key : String) (rows : List Record)
    (v : String) (row : Record) : Prop :=
  ∃ first ∈ rows, first.valueOf key = v ∧ Folded schema items (withValue key rows v) first row

/-- **Rows are grouped by the folds of all groups, and grouping fails with the first that does.** -/
theorem groupRows_madeOf (suits : Suits schema items (.group key))
    (follow : ∀ r ∈ rows, r.schema = schema) :
    ∃ values : List String, values.Pairwise (· < ·) ∧
      (∀ v, v ∈ values ↔ ∃ r ∈ rows, r.valueOf key = v) ∧
      MadeOf (groupFolds schema items key rows values)
        (List.Forall₂ (GroupedInto schema items key rows) values)
        (groupRows schema items key rows) := by
  obtain ⟨⟨hkey, -⟩, hitems⟩ := suits
  obtain ⟨i, hi⟩ := Schema.position_of_mem hkey
  obtain ⟨sorted, hsorted, stable⟩ :=
    orderRows_stablySorted (List.forall_mem_singleton.mpr hkey) follow
  obtain ⟨ascending, members, groups⟩ :=
    runs_of_stablySorted (Schema.position_eq_ok_iff.mp hi) follow stable
  refine ⟨_, ascending, members, ?_⟩
  rw [groupRows, hsorted, hi]
  have each : MadeOf
      ((runs i sorted).flatMap fun run =>
        folds schema items (withValue key rows (run.1.valueOf key)))
      (List.Forall₂ (fun run => GroupedInto schema items key rows (run.1.valueOf key))
        (runs i sorted))
      ((runs i sorted).mapM fun run => foldItems schema (run.1 :: run.2) items run.1) := by
    refine .mapM fun run hrun => ?_
    have hfirst : run.1 ∈ rows :=
      stable.perm.mem_iff.mp (mem_of_mem_runs hrun _ List.mem_cons_self)
    rw [groups run hrun]
    exact (foldItems_madeOf hitems (follow _ hfirst)).imp fun row h => ⟨run.1, hfirst, rfl, h⟩
  rw [groupFolds, List.flatMap_map]
  exact each.imp fun grouped h => List.forall₂_map_left_iff.mpr h

end Query

end RecordStore

namespace RecordStore.Query

/-! ## How the fold of a group can fail

    A fold reads the values of one field.  It fails when it has to read one that is not of the
    field's kind, and, if it adds them, when their sum is beyond what is representable.  A sum of
    decimals that was added well may still be one that cannot be printed, because the printing
    divides by a power of ten that has become zero.  Fields that are no numbers are never added:
    this is what a query is checked for beforehand, so it is a hypothesis here. -/

section Folding

/-- The errors of folding values of a field. -/
inductive FoldError (aggregate : Aggregate) (field : Field) (values : List String) :
    StoreError → Prop where
  | notOfKind {value : String} (mem : value ∈ values) :
      FoldError aggregate field values (notOfKind field value)
  | outOfRange (sums : aggregate = .sum) : FoldError aggregate field values (outOfRange field)
  | divisionByZero (sums : aggregate = .sum) (decimal : field.kind = .decimal) :
      FoldError aggregate field values .divisionByZero

variable {aggregate : Aggregate} {field : Field} {values : List String} {value : String}

/-! ### Reading values -/

/-- Reading a decimal fails only for a value that is malformed. -/
theorem readDecimal_ends (mem : value ∈ values) :
    Ends (fun _ => True) (FoldError aggregate field values) (readDecimal field value) := by
  rw [readDecimal]
  cases Number.Decimal.parse? value with
  | some d => exact trivial
  | none => exact .notOfKind mem

theorem readMinutes_ends (mem : value ∈ values) :
    Ends (fun _ => True) (FoldError aggregate field values) (readMinutes field value) := by
  rw [readMinutes]
  cases Time.Duration.parse? value with
  | some n => exact trivial
  | none => exact .notOfKind mem

/-! ### Sums -/

/-- Adding a decimal fails for a malformed value, or for a sum that is too large. -/
theorem addDecimal_ends (mem : value ∈ values) (sum : Number.FixedSum) :
    Ends (fun _ => True) (FoldError .sum field values) (addDecimal field sum value) := by
  refine (readDecimal_ends mem).bind fun d _ => ?_
  cases sum.add? d with
  | ok total => exact trivial
  | error fault =>
      cases fault with
      | notHeld => exact .notOfKind mem
      | outOfRange => exact .outOfRange rfl

theorem addMinutes_ends (mem : value ∈ values) (sum : Nat) :
    Ends (fun _ => True) (FoldError .sum field values) (addMinutes field sum value) := by
  refine (readMinutes_ends mem).bind fun n _ => ?_
  by_cases bounded : sum + n < Time.Duration.bound
  · rw [if_pos bounded]
    exact trivial
  · rw [if_neg bounded]
    exact .outOfRange rfl

/-- A sum fails for one of these reasons, or because it cannot be printed. -/
theorem sum_ends (numeric : field.kind.isNumeric = true) :
    Ends (fun _ => True) (FoldError .sum field values) (sum field values) := by
  rw [sum]
  cases values.isEmpty with
  | true => exact trivial
  | false =>
      cases hkind : field.kind with
      | text | date =>
          rw [hkind] at numeric
          exact nomatch numeric
      | decimal =>
          refine (Ends.foldlM (fun v hv s _ => addDecimal_ends hv s) trivial).bind fun s _ => ?_
          cases s.format? with
          | some text => exact trivial
          | none => exact .divisionByZero rfl hkind
      | duration =>
          refine (Ends.foldlM (fun v hv s _ => addMinutes_ends hv s) trivial).bind fun _ _ => ?_
          exact trivial

/-! ### Least and greatest -/

/-- Comparing two values fails only for one that is malformed. -/
theorem compareValues_ends {a b : String} (ha : a ∈ values) (hb : b ∈ values) :
    Ends (fun _ => True) (FoldError aggregate field values) (compareValues field a b) := by
  rw [compareValues]
  cases field.kind with
  | text | date => exact trivial
  | decimal =>
      exact (readDecimal_ends ha).bind fun _ _ => (readDecimal_ends hb).bind fun _ _ => trivial
  | duration =>
      exact (readMinutes_ends ha).bind fun _ _ => (readMinutes_ends hb).bind fun _ _ => trivial

/-- An extremum fails where two of the values fail to compare. -/
theorem extremum_ends_of {bad : StoreError → Prop} (wanted : Ordering)
    (comparing : ∀ a ∈ values, ∀ b ∈ values, Ends (fun _ => True) bad (compareValues field a b)) :
    Ends (fun _ => True) bad (extremum field wanted values) := by
  cases values with
  | nil => exact trivial
  | cons first others =>
      -- the best so far is one of the values, so it is two of them that are compared
      have step : ∀ v ∈ others, ∀ best, best ∈ first :: others →
          Ends (· ∈ first :: others) bad (better field wanted best v) := by
        intro v hv best hbest
        have hv' : v ∈ first :: others := List.mem_cons_of_mem _ hv
        refine (comparing v hv' best hbest).bind fun ordering _ => ?_
        by_cases hwanted : ordering = wanted
        · rw [if_pos hwanted]
          exact hv'
        · rw [if_neg hwanted]
          exact hbest
      exact (Ends.foldlM step List.mem_cons_self).mono (fun _ _ => trivial) fun _ h => h

/-- So does finding an extremum. -/
theorem extremum_ends (wanted : Ordering) :
    Ends (fun _ => True) (FoldError aggregate field values) (extremum field wanted values) :=
  extremum_ends_of wanted fun _ ha _ hb => compareValues_ends ha hb

/-! ### All aggregates -/

/-- A fold gives a value, unless one of the values is not of the field's kind or the sum is out of
    bounds; only numbers are summed. -/
theorem fold_ends (numeric : aggregate = .sum → field.kind.isNumeric = true) :
    Ends (fun _ => True) (FoldError aggregate field values) (aggregate.fold field values) := by
  -- the values that are not read are those that are empty
  have of_present {e : StoreError} (h : FoldError aggregate field (present values) e) :
      FoldError aggregate field values e := by
    cases h with
    | notOfKind mem => exact .notOfKind (List.mem_filter.mp mem).1
    | outOfRange sums => exact .outOfRange sums
    | divisionByZero sums decimal => exact .divisionByZero sums decimal
  cases aggregate with
  | count | collect => exact trivial
  | sum => exact (sum_ends (numeric rfl)).mono (fun _ h => h) fun _ => of_present
  | min | max => exact (extremum_ends _).mono (fun _ h => h) fun _ => of_present

end Folding

/-! ## How grouping can fail

    Grouping looks fields up by their names: to order the rows, to find the values that are folded,
    and to put the result back.  Once the items are known to suit the grouping, none of these
    look-ups fails and no field is summed that is no number, so the folding itself is all that is
    left to fail.  The route:

    * `groupRows_ends_of`: rows are grouped, whatever is known of the folds that fail;
    * `groupRows_ends`: what fails is a fold, in one of the ways in which a fold can. -/

section Grouping

/-- The errors of grouping rows of a schema by what the items ask for: those of folding what some
    rows have in the field of an item. -/
inductive GroupError (schema : Schema) (items : List SelectItem) (e : StoreError) : Prop where
  | fold {item : SelectItem} {aggregate : Aggregate} {field : Field} {run : List Record}
      (chosen : item ∈ items) (carried : item.aggregate = some aggregate)
      (known : schema.field item.field = .ok field)
      (follow : ∀ r ∈ run, r.schema = schema)
      (fails : aggregate.fold field (run.map (·.valueOf field.name)) = .error e)
      (error : FoldError aggregate field (run.map (·.valueOf field.name)) e)

variable {schema : Schema} {items : List SelectItem} {key : String}

/-- Rows of the schema are grouped into rows of the schema, unless the fold of some of them
    fails. -/
theorem groupRows_ends_of {rows : List Record} {bad : StoreError → Prop}
    (suits : Suits schema items (.group key)) (follow : ∀ r ∈ rows, r.schema = schema)
    (failing : ∀ run : List Record, (∀ r ∈ run, r ∈ rows) → ∀ item ∈ items,
      ∀ aggregate field e, item.aggregate = some aggregate →
      schema.field item.field = .ok field →
      aggregate.fold field (run.map (·.valueOf field.name)) = .error e → bad e) :
    Ends (fun grouped => ∀ r ∈ grouped, r.schema = schema) bad
      (groupRows schema items key rows) := by
  obtain ⟨values, -, -, made⟩ := groupRows_madeOf suits follow
  refine Ends.mono made (fun grouped ⟨_, h⟩ r hr => ?_) fun e first => ?_
  · obtain ⟨v, -, row, hrow, -, folded⟩ := exists_of_mem_forall₂ h hr
    exact folded.schema_eq.trans (follow row hrow)
  · obtain ⟨v, -, hfold⟩ := List.mem_flatMap.mp first.mem
    obtain ⟨item, chosen, hitem⟩ := List.mem_filterMap.mp hfold
    obtain ⟨aggregate, carried, fails⟩ := Option.map_eq_some_iff.mp hitem
    obtain ⟨-, field, known, -⟩ := (suits.2 item chosen).exists_field carried
    rw [foldOf, known, ← (Schema.mem_of_field known).2] at fails
    exact failing _ (fun r hr => (List.mem_filter.mp hr).1) item chosen aggregate field e carried
      known fails

/-- What fails in grouping rows of the schema is the fold of what some rows of it have. -/
theorem groupRows_ends {rows : List Record} (suits : Suits schema items (.group key))
    (follow : ∀ r ∈ rows, r.schema = schema) :
    Ends (fun grouped => ∀ r ∈ grouped, r.schema = schema) (GroupError schema items)
      (groupRows schema items key rows) := by
  refine groupRows_ends_of suits follow ?_
  intro run hrun item chosen aggregate field e carried known fails
  -- a field that is summed is a number, so the ways in which the fold can fail are known
  have numeric : aggregate = .sum → field.kind.isNumeric = true := by
    obtain ⟨-, field', known', hnumeric⟩ := (suits.2 item chosen).exists_field carried
    cases known.symm.trans known'
    exact hnumeric
  have ends : Ends (fun _ => True) (FoldError aggregate field (run.map (·.valueOf field.name)))
      (aggregate.fold field (run.map (·.valueOf field.name))) := fold_ends numeric
  rw [fails] at ends
  exact .fold chosen carried known (fun r hr => follow r (hrun r hr)) fails ends

end Grouping

end RecordStore.Query

import RecordStore.Proofs.Record.Fits
import RecordStore.Query.Run
import RecordStore.Store.Basic

/-! # The steps of a run

    What the commands of a plan do to the rows, one command at a time. -/

namespace RecordStore.Query

/-! ## Rows chosen and rows dropped

    Once the check of a query has seen to it that all fields are known, neither choosing fields nor
    filtering can fail, and both are what one expects of them: the records are read up to the first
    that cannot be read, and on these the one is a `map` and the other a `filter`.  It makes no
    difference whether a filter looks at a record or at the row that was made of it. -/

/-- A source whose records are all of a schema; it may hold any errors. -/
def Follows (schema : Schema) (source : Source) : Prop := ∀ r, .ok r ∈ source → r.schema = schema

variable {schema : Schema} {source : Source} {records : List Record}

theorem Follows.tail {entry : Except StoreError Record} (h : Follows schema (entry :: source)) :
    Follows schema source :=
  fun r hr => h r (List.mem_cons_of_mem _ hr)

/-- The records that are read stand in the source. -/
theorem mem_of_mem_collect (h : collect source = .ok records) {r : Record} (hr : r ∈ records) :
    .ok r ∈ source := by
  induction source generalizing records with
  | nil =>
      cases h
      exact nomatch hr
  | cons entry source ih =>
      cases entry with
      | error e => exact nomatch h
      | ok first =>
          rw [collect] at h
          cases hc : collect source with
          | error e =>
              rw [hc] at h
              exact nomatch h
          | ok others =>
              rw [hc] at h
              cases h
              rcases List.mem_cons.mp hr with rfl | hr
              · exact List.mem_cons_self
              · exact List.mem_cons_of_mem _ (ih hc hr)

/-- Records that can all be read are read. -/
theorem collect_map_ok (records : List Record) : collect (records.map .ok) = .ok records := by
  induction records with
  | nil => rfl
  | cons r records ih =>
      rw [List.map_cons, collect, ih]
      rfl

theorem follows_map_ok (follow : ∀ r ∈ records, r.schema = schema) :
    Follows schema (records.map .ok) := by
  intro r hr
  obtain ⟨x, hx, h⟩ := List.mem_map.mp hr
  cases h
  exact follow r hx

/-- Whether all of the filters hold. -/
def holdAll (conditions : List Filter) (r : Record) : Bool := conditions.all (·.holds r)

theorem holdAll_singleton (condition : Filter) : holdAll [condition] = condition.holds :=
  funext fun _ => Bool.and_true _

theorem filter_holdAll_nil (records : List Record) : records.filter (holdAll []) = records :=
  List.filter_eq_self.mpr fun _ _ => rfl

/-- Filters on known fields all have an answer. -/
theorem satisfiesAll_eq {r : Record} {conditions : List Filter}
    (known : ∀ condition ∈ conditions, ∀ name ∈ condition.fields, name ∈ r.schema.names) :
    satisfiesAll r conditions = .ok (holdAll conditions r) := by
  induction conditions with
  | nil => rfl
  | cons condition conditions ih =>
      obtain ⟨hknown, hrest⟩ := List.forall_mem_cons.mp known
      rw [satisfiesAll, Filter.evaluate_eq_ok hknown, holdAll, List.all_cons, ih hrest]
      cases condition.holds r <;> rfl

/-- Filters on chosen fields find the same before and after the narrowing. -/
theorem holdAll_narrow {fields : List String} {conditions : List Filter}
    (chosen : ∀ condition ∈ conditions, ∀ name ∈ condition.fields, name ∈ fields) (r : Record) :
    holdAll conditions (r.narrow fields) = holdAll conditions r := by
  rw [Bool.eq_iff_iff, holdAll, holdAll, List.all_eq_true, List.all_eq_true]
  exact forall₂_congr fun condition hc => by rw [Filter.holds_narrow (chosen condition hc)]

/-- Choosing fields reads the records, drops those that an earlier filter rejects and narrows the
    others; or it ends with the first error of the source. -/
theorem selectRows_eq {fields : List String} {conditions : List Filter}
    (follow : Follows schema source) (known : ∀ name ∈ fields, name ∈ schema.names)
    (chosen : ∀ condition ∈ conditions, ∀ name ∈ condition.fields, name ∈ fields) :
    selectRows fields conditions source = (collect source).map fun records =>
      (records.filter (holdAll conditions)).map (Record.narrow fields) := by
  induction source with
  | nil => rfl
  | cons entry source ih =>
      cases entry with
      | error e => rfl
      | ok r =>
          obtain rfl := follow r List.mem_cons_self
          have hkeep : satisfiesAll (r.narrow fields) conditions = .ok (holdAll conditions r) := by
            rw [← holdAll_narrow chosen]
            exact satisfiesAll_eq fun c hc name hn => known name (chosen c hc name hn)
          simp only [selectRows, collect, bind, Except.bind, Record.project_eq_narrow known, hkeep,
            ih follow.tail]
          cases collect source with
          | error e => rfl
          | ok records =>
              dsimp only [Except.map, pure, Except.pure]
              by_cases hr : holdAll conditions r = true
              · rw [if_pos hr, List.filter_cons_of_pos hr]
                rfl
              · rw [if_neg hr, List.filter_cons_of_neg hr]

/-- The records that are read are of the schema. -/
theorem Follows.schema_of_mem (follow : Follows schema source)
    (read : collect source = .ok records) : ∀ r ∈ records, r.schema = schema :=
  fun r hr => follow r (mem_of_mem_collect read hr)

/-- A filter on known fields keeps the rows that it holds of. -/
theorem filterRows_eq {condition : Filter} {rows : List Record}
    (known : ∀ r ∈ rows, ∀ name ∈ condition.fields, name ∈ r.schema.names) :
    filterRows condition rows = .ok (rows.filter condition.holds) := by
  induction rows with
  | nil => rfl
  | cons row rows ih =>
      obtain ⟨hrow, hrows⟩ := List.forall_mem_cons.mp known
      simp only [filterRows, Filter.evaluate_eq_ok hrow, ih hrows, bind, Except.bind]
      by_cases hr : condition.holds row = true
      · rw [if_pos hr, List.filter_cons_of_pos hr]
        rfl
      · rw [if_neg hr, List.filter_cons_of_neg hr]
        rfl

/-- Filtering the narrowed records is narrowing those that the filter holds of. -/
theorem filter_map_narrow {condition : Filter} {fields : List String}
    (chosen : ∀ name ∈ condition.fields, name ∈ fields) (records : List Record) :
    (records.map (Record.narrow fields)).filter condition.holds
      = (records.filter condition.holds).map (Record.narrow fields) := by
  have hholds : condition.holds ∘ Record.narrow fields = condition.holds :=
    funext fun r => Filter.holds_narrow chosen
  rw [List.filter_map, hholds]

end RecordStore.Query

namespace RecordStore.Query.Plan

/-! ## A run, command by command

    A run carries out the commands of a plan in their order.  What is left of a run, from some
    command on, is again such a run, from the progress that was made: `resume`.  Each command has
    one equation here, which tells what it does to the rows and leaves the rest to `resume`; a run
    of any list of commands is taken apart by these equations alone. -/

/-- What is left of a run, from the progress made. -/
def resume (plan : Plan) (source : Source) (commands : List Command) (progress : Progress) :
    Except StoreError Table := do
  let progress ← commands.foldlM (plan.step source) progress
  match progress.rows with
  | some rows => return ⟨plan.columns, rows⟩
  | none => throw (.cannotExecute .absent)

variable {plan : Plan} {source : Source} {commands : List Command} {pending : List Filter}
  {rows : List Record}

theorem run_eq_resume :
    plan.run source = plan.resume source plan.query.commands ⟨[], none⟩ := rfl

/-- What is left of a run is its next command and what is left behind it. -/
theorem resume_cons (command : Command) (progress : Progress) :
    plan.resume source (command :: commands) progress
      = plan.step source progress command >>= plan.resume source commands := by
  rw [resume, List.foldlM_cons, bind_assoc]
  rfl

theorem resume_nil_some : plan.resume source [] ⟨pending, some rows⟩ = .ok ⟨plan.columns, rows⟩ :=
  rfl

/-! ### Before there are rows -/

/-- The choice of fields makes rows of the records that satisfy the filters before it. -/
theorem resume_select (args : String) (items : List SelectItem) :
    plan.resume source (⟨args, .select items⟩ :: commands) ⟨pending, none⟩
      = (selectRows plan.fields pending source >>= fun rows =>
          plan.resume source commands ⟨pending, some rows⟩) := by
  rw [resume_cons, step, bind_assoc]
  rfl

/-- A filter before the choice of fields is kept for it. -/
theorem resume_filter_none (args : String) (condition : Filter) :
    plan.resume source (⟨args, .filter condition⟩ :: commands) ⟨pending, none⟩
      = plan.resume source commands ⟨pending ++ [condition], none⟩ := by
  rw [resume_cons]
  rfl

/-! ### On the rows that there are -/

/-- A filter drops rows. -/
theorem resume_filter (args : String) (condition : Filter) :
    plan.resume source (⟨args, .filter condition⟩ :: commands) ⟨pending, some rows⟩
      = (filterRows condition rows >>= fun rows =>
          plan.resume source commands ⟨pending, some rows⟩) := by
  rw [resume_cons, step, bind_assoc]
  rfl

/-- An order sorts the rows. -/
theorem resume_order (args : String) (fields : List String) :
    plan.resume source (⟨args, .order fields⟩ :: commands) ⟨pending, some rows⟩
      = (orderRows plan.schema fields rows >>= fun rows =>
          plan.resume source commands ⟨pending, some rows⟩) := by
  rw [resume_cons, step, bind_assoc]
  rfl

/-- A grouping makes one row of each group. -/
theorem resume_group (args key : String) :
    plan.resume source (⟨args, .group key⟩ :: commands) ⟨pending, some rows⟩
      = (groupRows plan.schema plan.items key rows >>= fun rows =>
          plan.resume source commands ⟨pending, some rows⟩) := by
  rw [resume_cons, step, bind_assoc]
  rfl

end RecordStore.Query.Plan

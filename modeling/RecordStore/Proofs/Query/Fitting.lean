import RecordStore.Proofs.Query.RunErrors
import RecordStore.Proofs.Record.Fits

/-! # Queries on records whose values fit

    A value that fits its field can be read whenever a fold has to read it, so on such values only a
    sum can fail.  Rows keep such values until they are grouped: choosing fields empties some of
    them, filtering drops rows and ordering moves them.  A query that was read from a text groups
    once at most, so what it groups has values that fit.  The route:

    * `fold_eq_ok_of_fits`: every aggregate but the sum has a value for values that fit;
    * `SumError`: what is left to fail, and `groupRows_fits`: grouping fails for nothing else;
    * `Fitting` and `step_fits`: what one command keeps, or why it fails;
    * `run_of_fits`: all commands, from the first on. -/

namespace RecordStore.Query

/-! ## Folding -/

section Folding

variable {field : Field} {values : List String}

theorem readDecimal_of_accepts {value : String} (h : Kind.decimal.accepts value = true) :
    ∃ d, readDecimal field value = .ok d := by
  obtain ⟨d, hd⟩ := Option.isSome_iff_exists.mp h
  exact ⟨d, by rw [readDecimal, hd]⟩

theorem readMinutes_of_accepts {value : String} (h : Kind.duration.accepts value = true) :
    ∃ n, readMinutes field value = .ok n := by
  obtain ⟨n, hn⟩ := Option.isSome_iff_exists.mp h
  exact ⟨n, by rw [readMinutes, hn]⟩

/-- Values of a field's kind can be compared. -/
theorem compareValues_of_accepts {a b : String} (ha : field.kind.accepts a = true)
    (hb : field.kind.accepts b = true) : ∃ ordering, compareValues field a b = .ok ordering := by
  rw [compareValues]
  cases hkind : field.kind with
  | text | date => exact ⟨_, rfl⟩
  | decimal =>
      rw [hkind] at ha hb
      obtain ⟨x, hx⟩ := readDecimal_of_accepts ha
      obtain ⟨y, hy⟩ := readDecimal_of_accepts hb
      exact ⟨_, by rw [hx, hy]; rfl⟩
  | duration =>
      rw [hkind] at ha hb
      obtain ⟨x, hx⟩ := readMinutes_of_accepts ha
      obtain ⟨y, hy⟩ := readMinutes_of_accepts hb
      exact ⟨_, by rw [hx, hy]; rfl⟩

/-- A value that fits and takes part in a fold is of the field's kind. -/
theorem accepts_of_mem_present (fits : ∀ v ∈ values, field.Fits v) {value : String}
    (h : value ∈ present values) : field.kind.accepts value = true := by
  obtain ⟨hmem, hne⟩ := List.mem_filter.mp h
  rcases (fits value hmem).wellFormed with rfl | ⟨-, accepted⟩
  · exact nomatch hne
  · exact accepted

/-- **Of values that fit, every aggregate but the sum has a value.** -/
theorem fold_eq_ok_of_fits {aggregate : Aggregate} (unsummed : aggregate ≠ .sum)
    (fits : ∀ v ∈ values, field.Fits v) : ∃ value, aggregate.fold field values = .ok value := by
  have comparing : ∀ a ∈ present values, ∀ b ∈ present values,
      Ends (fun _ => True) (fun _ => False) (compareValues field a b) := by
    intro a ha b hb
    obtain ⟨ordering, h⟩ :=
      compareValues_of_accepts (accepts_of_mem_present fits ha) (accepts_of_mem_present fits hb)
    rw [h]
    exact trivial
  cases aggregate with
  | sum => exact absurd rfl unsummed
  | count | collect => exact ⟨_, rfl⟩
  | min | max => exact (extremum_ends_of _ comparing).exists_ok

end Folding

/-! ## Grouping -/

/-- The errors of summing, for an item that asks for it, what some rows with fitting values have
    in its field. -/
inductive SumError (schema : Schema) (items : List SelectItem) (e : StoreError) : Prop where
  | fold {item : SelectItem} {field : Field} {run : List Record}
      (chosen : item ∈ items) (sums : item.aggregate = some .sum)
      (known : schema.field item.field = .ok field)
      (follow : ∀ r ∈ run, r.schema = schema) (fits : ∀ r ∈ run, r.Fits)
      (fails : Aggregate.sum.fold field (run.map (·.valueOf field.name)) = .error e)

variable {schema : Schema} {items : List SelectItem} {key : String}

/-- Grouping rows whose values fit fails only where a sum does. -/
theorem groupRows_fits {rows : List Record} (suits : Suits schema items (.group key))
    (follow : ∀ r ∈ rows, r.schema = schema) (fits : ∀ r ∈ rows, r.Fits) :
    Ends (fun _ => True) (SumError schema items) (groupRows schema items key rows) := by
  refine (groupRows_ends_of suits follow ?_).mono (fun _ _ => trivial) fun _ h => h
  intro run hrun item chosen aggregate field e carried known fails
  have hvalues : ∀ v ∈ run.map (·.valueOf field.name), field.Fits v := by
    intro v hv
    obtain ⟨r, hr, rfl⟩ := List.mem_map.mp hv
    refine (fits r (hrun r hr)).valueOf ?_
    rw [follow r (hrun r hr), (Schema.mem_of_field known).2]
    exact known
  by_cases sums : aggregate = .sum
  · subst sums
    exact .fold chosen carried known (fun r hr => follow r (hrun r hr))
      (fun r hr => fits r (hrun r hr)) fails
  · obtain ⟨value, hvalue⟩ := fold_eq_ok_of_fits sums hvalues
    exact nomatch fails.symm.trans hvalue

/-! ## One command -/

/-- What is known of a plan that was made of a query that was read. -/
structure Plan.Read (plan : Plan) : Prop where
  checked : plan.Checked
  distinct : plan.query.kinds.Nodup
  selects : .select ∈ plan.query.kinds

/-- Until the rows are grouped, their values fit. -/
def FitUngrouped (done : List Command) (progress : Progress) : Prop :=
  .group ∉ done.map Command.kind → ∀ rows, progress.rows = some rows → ∀ r ∈ rows, r.Fits

/-- What is known of the progress on records whose values fit. -/
structure Fitting (plan : Plan) (done : List Command) (progress : Progress) : Prop where
  reached : Reached plan done progress
  fits : FitUngrouped done progress

variable {plan : Plan} {records : List Record} {done rest : List Command} {command : Command}
  {progress : Progress}

/-- A command of a query that was read is of another kind than those before it. -/
theorem Plan.Read.not_mem_done (read : plan.Read)
    (place : plan.query.commands = done ++ command :: rest) :
    command.kind ∉ done.map Command.kind := by
  have distinct := read.distinct
  rw [kinds, place, List.map_append, List.map_cons, List.nodup_append] at distinct
  exact fun h => distinct.2.2 _ h _ List.mem_cons_self rfl

/-- Before there are rows, a command fails for nothing, and what it selects has values that fit. -/
theorem step_none_fits {pending : List Filter} (read : plan.Read)
    (follow : ∀ r ∈ records, r.schema = plan.schema) (fits : ∀ r ∈ records, r.Fits)
    (place : plan.query.commands = done ++ command :: rest)
    (reached : Reached plan done ⟨pending, none⟩) :
    Ends (FitUngrouped (done ++ [command])) (SumError plan.schema plan.items)
      (plan.step (records.map .ok) ⟨pending, none⟩ command) := by
  have late (h : ¬ MayPrecede command.kind) : False :=
    read.checked.select_not_mem place (reached.noRows rfl) h read.selects
  obtain ⟨args, stage⟩ := command
  cases stage with
  | select items =>
      have hknown : ∀ name ∈ plan.fields, name ∈ plan.schema.names :=
        List.forall_mem_map.mpr read.checked.known
      show Ends _ _ (selectRows plan.fields pending (records.map .ok) >>= _)
      rw [selectRows_eq (follows_map_ok follow) hknown reached.pending, collect_map_ok]
      rintro - _ ⟨⟩
      exact List.forall_mem_map.mpr fun r hr => (fits r (List.mem_filter.mp hr).1).narrow _
  | filter condition => exact fun _ _ h => nomatch h
  | order fields | group key => exact (late fun h => h.elim (nomatch ·) (nomatch ·)).elim

/-- On rows whose values fit, a command keeps that they do, or it groups them and a sum fails. -/
theorem step_some_fits {pending : List Filter} {rows : List Record} (read : plan.Read)
    (place : plan.query.commands = done ++ command :: rest)
    (reached : Reached plan done ⟨pending, some rows⟩)
    (fitting : FitUngrouped done ⟨pending, some rows⟩)
    (source : Source) :
    Ends (FitUngrouped (done ++ [command])) (SumError plan.schema plan.items)
      (plan.step source ⟨pending, some rows⟩ command) := by
  have suits := read.checked.suits command (place ▸ List.mem_append_right _ List.mem_cons_self)
  have fresh := read.not_mem_done place
  obtain ⟨selected, hrows⟩ := reached.rows _ rfl
  -- it is enough that the rows after the command are among those before it
  have keep {rows' : List Record} (hsub : ∀ r ∈ rows', r ∈ rows) :
      FitUngrouped (done ++ [command]) ⟨pending, some rows'⟩ := by
    rintro ungrouped _ ⟨⟩ r hr
    rw [List.map_append] at ungrouped
    exact fitting (fun h => ungrouped (List.mem_append_left _ h)) rows rfl r (hsub r hr)
  obtain ⟨args, stage⟩ := command
  cases stage with
  | select items => exact absurd selected fresh
  | filter condition =>
      have hfilter : filterRows condition rows = .ok (rows.filter condition.holds) :=
        filterRows_eq fun r hr name hn => hrows r hr ▸ (suits name hn).1
      show Ends _ _ (filterRows condition rows >>= _)
      rw [hfilter]
      exact keep fun r hr => (List.mem_filter.mp hr).1
  | order fields =>
      obtain ⟨sorted, hsorted, stable⟩ :=
        orderRows_stablySorted (fun name hn => (suits name hn).1) hrows
      show Ends _ _ (orderRows plan.schema fields rows >>= _)
      rw [hsorted]
      exact keep fun r hr => stable.perm.mem_iff.mp hr
  | group key =>
      refine (groupRows_fits suits hrows (fitting fresh rows rfl)).bind fun grouped _ => ?_
      refine fun ungrouped => absurd ?_ ungrouped
      rw [List.map_append]
      exact List.mem_append_right _ List.mem_cons_self

/-- A command keeps what is known, or fails with an error of the run that is one of a sum. -/
theorem step_fits (read : plan.Read) (follow : ∀ r ∈ records, r.schema = plan.schema)
    (fits : ∀ r ∈ records, r.Fits) (place : plan.query.commands = done ++ command :: rest)
    (fitting : Fitting plan done progress) :
    Ends (Fitting plan (done ++ [command]))
      (fun e => RunError plan (records.map .ok) e ∧ SumError plan.schema plan.items e)
      (plan.step (records.map .ok) progress command) := by
  obtain ⟨reached, ungrouped⟩ := fitting
  have hreached := step_ends read.checked (follows_map_ok follow) place reached
  have hfits : Ends (FitUngrouped (done ++ [command])) (SumError plan.schema plan.items)
      (plan.step (records.map .ok) progress command) := by
    obtain ⟨pending, rows⟩ := progress
    cases rows with
    | none => exact step_none_fits read follow fits place reached
    | some rows => exact step_some_fits read place reached ungrouped _
  exact (hreached.and hfits).mono (fun _ h => ⟨h.1, h.2⟩) fun _ h => h

/-! ## All commands -/

/-- On records whose values fit, the run of a query that was read fails for a sum or not at all. -/
theorem run_fits (read : plan.Read) (follow : ∀ r ∈ records, r.schema = plan.schema)
    (fits : ∀ r ∈ records, r.Fits) :
    Ends (fun _ => True)
      (fun e => .group ∈ plan.query.kinds ∧ SumError plan.schema plan.items e)
      (plan.run (records.map .ok)) := by
  have start : Fitting plan [] ⟨[], none⟩ :=
    ⟨⟨fun _ h => (nomatch h), fun _ h => (nomatch h), fun _ h => nomatch h⟩,
      fun _ _ h => nomatch h⟩
  have steps : Ends (Fitting plan plan.query.commands)
      (fun e => RunError plan (records.map .ok) e ∧ SumError plan.schema plan.items e)
      (plan.query.commands.foldlM (plan.step (records.map .ok)) ⟨[], none⟩) :=
    Ends.foldlM_done (fun _ _ _ _ => step_fits read follow fits) rfl start
  refine Ends.bind (steps.mono (fun _ h => h) ?_) ?_
  · rintro e ⟨error, sums⟩
    rcases error.of_distinct read.distinct read.selects with hsource | ⟨grouped, -⟩
    · exact nomatch hsource.symm.trans (collect_map_ok records)
    · exact ⟨grouped, sums⟩
  · rintro progress ⟨reached, -⟩
    cases hrows : progress.rows with
    | some rows => exact trivial
    | none => exact absurd read.selects (reached.noRows hrows)

/-- **On records whose values fit, a query that was read and checked fails only for a sum.**  Then
    it groups, one of the fields that it chooses is summed, and the error is that of a sum of values
    that fit. -/
theorem run_of_fits {text : String} {query : Query} (parsed : parse text = .ok query)
    (made : Plan.make schema query = .ok plan) (follow : ∀ r ∈ records, r.schema = schema)
    (fits : ∀ r ∈ records, r.Fits) :
    Ends (fun _ => True) (fun e => .group ∈ query.kinds ∧ SumError schema plan.items e)
      (plan.run (records.map .ok)) := by
  obtain ⟨rfl, rfl, checked⟩ := Plan.make_eq_ok_iff.mp made
  obtain ⟨distinct, selects⟩ := kinds_of_parse parsed
  exact run_fits ⟨checked, distinct, selects _ checked.select⟩ follow fits

end RecordStore.Query

import RecordStore.Proofs.Query.Ordered

/-! # The runs of sorted rows

    Grouping sorts the rows and cuts them into runs with the same value.  A run is cut where two
    neighbours differ; that no value comes back later is due to the order, and that the rows of a
    run stand as they stood before the sorting is due to its stability.  So what is cut is just
    what a filter on the unsorted rows finds.  The route:

    * `runs_cons`: what a row in front does to the runs;
    * `flatMap_runs`, `value_of_mem_run`, `runs_ascending`: the runs are the rows cut in pieces, a
      piece has one value, and the values ascend when the rows do;
    * `run_eq_filter`: a run of ascending rows has all the rows with its value;
    * `runs_filter`: a condition on the value keeps whole runs;
    * `runs_of_stablySorted`: the runs of rows that were sorted, told of the rows before. -/

namespace RecordStore.Query

variable {i : Nat} {rows : List Record} {run : Record × List Record}

/-- A row in front belongs to the first run when it has its value, and is a run of its own
    otherwise. -/
theorem runs_cons (row : Record) (rows : List Record) :
    (∃ first others more, runs i rows = (first, others) :: more ∧ first.value i = row.value i ∧
      runs i (row :: rows) = (row, first :: others) :: more) ∨
    (∀ next more, runs i rows = next :: more → next.1.value i ≠ row.value i) ∧
      runs i (row :: rows) = (row, []) :: runs i rows := by
  rw [runs]
  cases runs i rows with
  | nil => exact .inr ⟨fun _ _ h => (nomatch h), rfl⟩
  | cons next more =>
      by_cases same : next.1.value i = row.value i
      · exact .inl ⟨next.1, next.2, more, rfl, same, if_pos same⟩
      · refine .inr ⟨?_, if_neg same⟩
        rintro _ _ ⟨⟩
        exact same

/-- One after the other, the runs are the rows. -/
theorem flatMap_runs (i : Nat) (rows : List Record) :
    (runs i rows).flatMap (fun run => run.1 :: run.2) = rows := by
  induction rows with
  | nil => rfl
  | cons row rows ih =>
      rcases runs_cons (i := i) row rows with ⟨first, others, more, eq, -, eq'⟩ | ⟨-, eq'⟩
      · rw [eq, List.flatMap_cons] at ih
        rw [eq', List.flatMap_cons]
        exact congrArg (row :: ·) ih
      · rw [eq', List.flatMap_cons, ih]
        rfl

/-- The rows of a run are among those that were cut into runs. -/
theorem mem_of_mem_runs (h : run ∈ runs i rows) : ∀ r ∈ run.1 :: run.2, r ∈ rows := by
  intro r hr
  rw [← flatMap_runs i rows]
  exact List.mem_flatMap.mpr ⟨run, h, hr⟩

/-- The rows of a run have the value of its first. -/
theorem value_of_mem_run (h : run ∈ runs i rows) :
    ∀ r ∈ run.1 :: run.2, r.value i = run.1.value i := by
  induction rows generalizing run with
  | nil => exact nomatch h
  | cons row rows ih =>
      rcases runs_cons (i := i) row rows with ⟨first, others, more, eq, same, eq'⟩ | ⟨-, eq'⟩
      · rw [eq] at ih
        rw [eq'] at h
        rcases List.mem_cons.mp h with rfl | h
        · refine List.forall_mem_cons.mpr ⟨rfl, fun r hr => ?_⟩
          exact (ih List.mem_cons_self r hr).trans same
        · exact ih (List.mem_cons_of_mem _ h)
      · rw [eq'] at h
        rcases List.mem_cons.mp h with rfl | h
        · exact List.forall_mem_singleton.mpr rfl
        · exact ih h

/-- The runs of ascending rows ascend, and no two have the same value. -/
theorem runs_ascending
    (ascending : rows.Pairwise fun a b => a.value i < b.value i ∨ a.value i = b.value i) :
    (runs i rows).Pairwise fun a b => a.1.value i < b.1.value i := by
  induction rows with
  | nil => exact .nil
  | cons row rows ih =>
      obtain ⟨hrow, hrows⟩ := List.pairwise_cons.mp ascending
      have hruns := ih hrows
      rcases runs_cons (i := i) row rows with ⟨first, others, more, eq, same, eq'⟩ | ⟨differ, eq'⟩
      · rw [eq] at hruns
        rw [eq']
        obtain ⟨hfirst, hmore⟩ := List.pairwise_cons.mp hruns
        exact .cons (fun run hrun => same ▸ hfirst run hrun) hmore
      · rw [eq']
        refine .cons ?_ hruns
        cases eq : runs i rows with
        | nil => exact fun _ h => nomatch h
        | cons next more =>
            have hnext : row.value i < next.1.value i :=
              (hrow next.1 (mem_of_mem_runs (eq ▸ List.mem_cons_self) _ List.mem_cons_self)
                ).resolve_right fun h => differ next more eq h.symm
            rw [eq] at hruns
            refine List.forall_mem_cons.mpr ⟨hnext, fun run hrun => ?_⟩
            exact String.lt_trans hnext ((List.pairwise_cons.mp hruns).1 run hrun)

/-- A run of ascending rows has all rows with its value, as they stand. -/
theorem run_eq_filter
    (ascending : rows.Pairwise fun a b => a.value i < b.value i ∨ a.value i = b.value i)
    (h : run ∈ runs i rows) : run.1 :: run.2 = rows.filter (·.value i = run.1.value i) := by
  have distinct := runs_ascending ascending
  obtain ⟨before, after, place⟩ := List.append_of_mem h
  -- no row of another run has the value
  have out (others : List (Record × List Record)) (hsub : ∀ other ∈ others, other ∈ runs i rows)
      (hne : ∀ other ∈ others, other.1.value i ≠ run.1.value i) :
      (others.flatMap fun run => run.1 :: run.2).filter (·.value i = run.1.value i) = [] := by
    refine List.filter_eq_nil_iff.mpr fun r hr => ?_
    obtain ⟨other, hother, hr⟩ := List.mem_flatMap.mp hr
    rw [decide_eq_true_eq, value_of_mem_run (hsub other hother) r hr]
    exact hne other hother
  have hrun : (run.1 :: run.2).filter (·.value i = run.1.value i) = run.1 :: run.2 :=
    List.filter_eq_self.mpr fun r hr => decide_eq_true (value_of_mem_run h r hr)
  rw [place, List.pairwise_append, List.pairwise_cons] at distinct
  obtain ⟨-, ⟨hafter, -⟩, hbefore⟩ := distinct
  have hbefore := out before (fun _ h => place ▸ List.mem_append_left _ h)
    fun other h => String.ne_of_lt (hbefore other h run List.mem_cons_self)
  have hafter := out after (fun _ h => place ▸ List.mem_append_right _ (List.mem_cons_of_mem _ h))
    fun other h => (String.ne_of_lt (hafter other h)).symm
  have whole := flatMap_runs i rows
  rw [place, List.flatMap_append, List.flatMap_cons] at whole
  rw [← whole, List.filter_append, List.filter_append, hbefore, hrun, hafter, List.nil_append,
    List.append_nil]

/-- The runs of those of the ascending rows that a condition on the value keeps: the condition keeps
    a run as a whole or not at all. -/
theorem runs_filter {p : Record → Bool}
    (ascending : rows.Pairwise fun a b => a.value i < b.value i ∨ a.value i = b.value i)
    (onValue : ∀ a ∈ rows, ∀ b ∈ rows, a.value i = b.value i → p a = p b) :
    runs i (rows.filter p) = (runs i rows).filter (p ·.1) := by
  have keep {run : Record × List Record} {more : List (Record × List Record)}
      (h : p run.1 = true) : (run :: more).filter (p ·.1) = run :: more.filter (p ·.1) :=
    List.filter_cons_of_pos h
  have drop {run : Record × List Record} {more : List (Record × List Record)}
      (h : ¬ p run.1 = true) : (run :: more).filter (p ·.1) = more.filter (p ·.1) :=
    List.filter_cons_of_neg h
  induction rows with
  | nil => rfl
  | cons row rows ih =>
      have distinct := runs_ascending ascending
      have hrec := ih (List.pairwise_cons.mp ascending).2 fun a ha b hb =>
        onValue a (List.mem_cons_of_mem _ ha) b (List.mem_cons_of_mem _ hb)
      rcases runs_cons (i := i) row rows with ⟨first, others, more, eq, same, eq'⟩ | ⟨-, eq'⟩
      · -- the row belongs to the first run, so both are kept or both are dropped
        have hfirst : first ∈ rows := mem_of_mem_runs (eq ▸ List.mem_cons_self) _ List.mem_cons_self
        have hp : p first = p row :=
          onValue first (List.mem_cons_of_mem _ hfirst) row List.mem_cons_self same
        rw [eq] at hrec
        rw [eq']
        by_cases kept : p row = true
        · rw [keep (hp.trans kept)] at hrec
          rw [List.filter_cons_of_pos kept, keep kept, runs, hrec]
          exact if_pos same
        · rw [drop (by rwa [hp])] at hrec
          rw [List.filter_cons_of_neg kept, drop kept, hrec]
      · rw [eq'] at distinct ⊢
        by_cases kept : p row = true
        · rw [List.filter_cons_of_pos kept, keep kept, ← hrec]
          -- no run behind the row has its value, so none of those that are kept has it
          rcases runs_cons (i := i) row (rows.filter p) with
            ⟨first, others, more, eq, same, -⟩ | ⟨-, eq⟩
          · have hmem : (first, others) ∈ runs i rows := by
              have hkept : (first, others) ∈ runs i (rows.filter p) := eq ▸ List.mem_cons_self
              rw [hrec] at hkept
              exact (List.mem_filter.mp hkept).1
            exact absurd same.symm (String.ne_of_lt ((List.pairwise_cons.mp distinct).1 _ hmem))
          · exact eq
        · rw [List.filter_cons_of_neg kept, drop kept, hrec]

/-! ## Rows that were sorted -/

/-- Rows that were sorted by a field ascend by their values at its position. -/
theorem StablySorted.ascending_value {schema : Schema} {key : String} {sorted : List Record}
    (hi : schema.position? key = some i) (follow : ∀ r ∈ rows, r.schema = schema)
    (stable : StablySorted [key] rows sorted) :
    sorted.Pairwise fun a b => a.value i < b.value i ∨ a.value i = b.value i := by
  have hvalue {r : Record} (hr : r ∈ sorted) : r.valueOf key = r.value i := by
    rw [Record.valueOf, follow r (stable.perm.mem_iff.mp hr), hi]
  refine stable.ascending.imp_of_mem fun {a b} ha hb h => ?_
  rw [← hvalue ha, ← hvalue hb]
  exact h.imp_right And.left

/-- Texts that ascend are told by which they are. -/
theorem eq_of_ascending {values values' : List String} (h : values.Pairwise (· < ·))
    (h' : values'.Pairwise (· < ·)) (same : ∀ v, v ∈ values ↔ v ∈ values') : values = values' := by
  have hperm : values.Perm values' :=
    (List.perm_ext_iff_of_nodup (h.imp String.ne_of_lt) (h'.imp String.ne_of_lt)).mpr same
  exact hperm.eq_of_pairwise (fun _ _ _ _ hlt hgt => absurd hgt (String.lt_asymm hlt)) h h'

/-- The rows with a value in a field, in the order in which they stand. -/
def withValue (field : String) (rows : List Record) (v : String) : List Record :=
  rows.filter (·.valueOf field = v)

/-- The runs of rows that were sorted by a field: their values ascend, they are those that the rows
    had, and a run has the rows with its value in the order in which they stood before. -/
theorem runs_of_stablySorted {schema : Schema} {key : String} {sorted : List Record}
    (hi : schema.position? key = some i) (follow : ∀ r ∈ rows, r.schema = schema)
    (stable : StablySorted [key] rows sorted) :
    ((runs i sorted).map (·.1.valueOf key)).Pairwise (· < ·) ∧
    (∀ v, v ∈ (runs i sorted).map (·.1.valueOf key) ↔ ∃ r ∈ rows, r.valueOf key = v) ∧
    ∀ run ∈ runs i sorted, run.1 :: run.2 = withValue key rows (run.1.valueOf key) := by
  have hvalue {r : Record} (hr : r ∈ sorted) : r.valueOf key = r.value i := by
    rw [Record.valueOf, follow r (stable.perm.mem_iff.mp hr), hi]
  have hfirst {run : Record × List Record} (h : run ∈ runs i sorted) :
      run.1.valueOf key = run.1.value i :=
    hvalue (mem_of_mem_runs h _ List.mem_cons_self)
  have ascending := stable.ascending_value hi follow
  refine ⟨?_, fun v => ⟨?_, ?_⟩, fun run h => ?_⟩
  · refine List.pairwise_map.mpr ((runs_ascending ascending).imp_of_mem fun ha hb h => ?_)
    rwa [hfirst ha, hfirst hb]
  · intro h
    obtain ⟨run, hrun, rfl⟩ := List.mem_map.mp h
    exact ⟨run.1, stable.perm.mem_iff.mp (mem_of_mem_runs hrun _ List.mem_cons_self), rfl⟩
  · rintro ⟨r, hr, rfl⟩
    have hsorted := stable.perm.mem_iff.mpr hr
    rw [← flatMap_runs i sorted] at hsorted
    obtain ⟨run, hrun, hmem⟩ := List.mem_flatMap.mp hsorted
    refine List.mem_map.mpr ⟨run, hrun, ?_⟩
    rw [hfirst hrun, hvalue (stable.perm.mem_iff.mpr hr), value_of_mem_run hrun r hmem]
  · have same : sorted.filter (·.value i = run.1.value i)
        = sorted.filter (sortKey [key] · = [run.1.valueOf key]) := by
      refine List.filter_congr fun r hr => ?_
      simp only [sortKey, List.map_singleton, List.singleton_inj, hvalue hr, hfirst h]
    rw [run_eq_filter ascending h, same, stable.stable, withValue]
    simp only [sortKey, List.map_singleton, List.singleton_inj]

end RecordStore.Query

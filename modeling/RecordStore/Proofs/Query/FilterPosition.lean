import RecordStore.Proofs.Query.Checked
import RecordStore.Proofs.Query.Ordered
import RecordStore.Proofs.Query.Rows

/-! # Where the filter stands makes no difference

    A filter may be given before the fields are chosen, after they are, or after the rows are
    ordered, and each time it is carried out by other means: on the rows as they are read, on the
    rows that there are, on the rows as they are ordered.  The result is the same.  Nothing is lost
    by filtering late, because the check admits no filter on a field that is not chosen, and
    nothing is moved by filtering rows that are ordered, because the stable order of what is left
    is what is left of the stable order.  The route:

    * `Arranged`: the three queries, and `accepted_iff`: each is accepted under the same
      conditions;
    * `Filtered`: what is expected of a run, told without regard to the place of the filter;
    * `run_filtered`: a run of each of the three queries is as expected;
    * `filter_anywhere`: since there is one stable order, all three give the same. -/

namespace RecordStore.Query

/-! ## The three queries -/

/-- The queries that choose fields, order the rows by some of them, and filter at one of three
    places; the texts of the commands play no part. -/
inductive Arranged (items : List SelectItem) (condition : Filter) (fields : List String) :
    Query → Prop where
  | filterFirst (f s o : String) : Arranged items condition fields
      (ofCommands [⟨f, .filter condition⟩, ⟨s, .select items⟩, ⟨o, .order fields⟩])
  | filterSecond (f s o : String) : Arranged items condition fields
      (ofCommands [⟨s, .select items⟩, ⟨f, .filter condition⟩, ⟨o, .order fields⟩])
  | filterLast (f s o : String) : Arranged items condition fields
      (ofCommands [⟨s, .select items⟩, ⟨o, .order fields⟩, ⟨f, .filter condition⟩])

variable {schema : Schema} {items : List SelectItem} {condition : Filter} {fields : List String}
  {query : Query}

/-- Wherever the filter stands, the same fields are chosen. -/
theorem Arranged.select (h : Arranged items condition fields query) :
    query.select = some items := by
  cases h <;> rfl

/-- Nothing but the filter stands before the command that chooses the fields. -/
theorem Arranged.before (h : Arranged items condition fields query) :
    ∀ command ∈ query.commands.take (query.selectPosition?.getD 0), MayPrecede command.kind := by
  cases h with
  | filterFirst f s o =>
      intro command hc
      cases List.mem_singleton.mp hc
      exact .inr rfl
  | filterSecond | filterLast => exact fun _ hc => nomatch hc

/-- Wherever the filter stands, the stages are the same three. -/
theorem Arranged.forall_stage (h : Arranged items condition fields query) {p : Stage → Prop} :
    (∀ command ∈ query.commands, p command.stage) ↔
      p (.select items) ∧ p (.filter condition) ∧ p (.order fields) := by
  cases h with
  | filterFirst f s o =>
      simp only [ofCommands, List.forall_mem_cons, List.not_mem_nil, false_implies, implies_true,
        and_true, and_left_comm]
  | filterSecond f s o =>
      simp only [ofCommands, List.forall_mem_cons, List.not_mem_nil, false_implies, implies_true,
        and_true]
  | filterLast f s o =>
      simp only [ofCommands, List.forall_mem_cons, List.not_mem_nil, false_implies, implies_true,
        and_true]
      exact and_congr_right fun _ => and_comm

/-- Each of the three queries is accepted under the same conditions. -/
theorem accepted_iff (h : Arranged items condition fields query) :
    (∃ plan, Plan.make schema query = .ok plan) ↔
      (∀ item ∈ items, item.field ∈ schema.names) ∧
        (∀ name ∈ condition.fields, Chosen schema items name) ∧
        ∀ name ∈ fields, Chosen schema items name := by
  simp only [Plan.make_eq_ok_iff]
  constructor
  · rintro ⟨plan, rfl, rfl, checked⟩
    obtain hitems := Option.some.inj (checked.select.symm.trans h.select)
    obtain ⟨-, filtered, ordered⟩ := h.forall_stage.mp checked.suits
    rw [← hitems]
    exact ⟨checked.known, filtered, ordered⟩
  · rintro ⟨known, filtered, ordered⟩
    exact ⟨⟨schema, query, items⟩, rfl, rfl, h.select, h.before, known,
      h.forall_stage.mpr ⟨trivial, filtered, ordered⟩⟩

/-! ## Runs -/

/-- What is expected of a run: the first error of the source; or, under the labels of the items,
    the records that the filter holds of, narrowed and in the stable order. -/
def Filtered (items : List SelectItem) (condition : Filter) (fields : List String)
    (source : Source) (result : Except StoreError Table) : Prop :=
  match collect source with
  | .error e => result = .error e
  | .ok records => ∃ rows, result = .ok ⟨items.map (·.label), rows⟩ ∧
      StablySorted fields ((records.filter condition.holds).map
        (Record.narrow (items.map (·.field)))) rows

/-- Only one result is as expected. -/
theorem Filtered.unique {source : Source} {result result' : Except StoreError Table}
    (h : Filtered items condition fields source result)
    (h' : Filtered items condition fields source result') : result = result' := by
  rw [Filtered] at h h'
  cases hc : collect source with
  | error e =>
      rw [hc] at h h'
      exact h.trans h'.symm
  | ok records =>
      rw [hc] at h h'
      obtain ⟨rows, rfl, sorted⟩ := h
      obtain ⟨rows', rfl, sorted'⟩ := h'
      rw [sorted.unique sorted']

variable {source : Source}

/-- A run of each of the three queries is as expected. -/
theorem run_filtered {plan : Plan} (h : Arranged items condition fields query)
    (made : Plan.make schema query = .ok plan) (follow : Follows schema source) :
    Filtered items condition fields source (plan.run source) := by
  obtain ⟨known, filtered, ordered⟩ := (accepted_iff h).mp ⟨plan, made⟩
  obtain ⟨rfl, rfl, checked⟩ := Plan.make_eq_ok_iff.mp made
  obtain ⟨schema, query, items'⟩ := plan
  obtain rfl : items' = items := Option.some.inj (checked.select.symm.trans h.select)
  have hnames : ∀ name ∈ items'.map (·.field), name ∈ schema.names := by
    simpa using known
  have hfields : ∀ name ∈ fields, name ∈ schema.names := fun name hn => (ordered name hn).1
  have hchosen : ∀ name ∈ condition.fields, name ∈ items'.map (·.field) :=
    fun name hn => (filtered name hn).2
  -- the rows are chosen with the filter or without it
  have hfirst : selectRows (items'.map (·.field)) [condition] source
      = (collect source).map fun records =>
        (records.filter condition.holds).map (Record.narrow (items'.map (·.field))) := by
    rw [selectRows_eq follow hnames (by simpa using hchosen), holdAll_singleton]
  have hlater : selectRows (items'.map (·.field)) [] source
      = (collect source).map fun records => records.map (Record.narrow (items'.map (·.field))) := by
    rw [selectRows_eq follow hnames (by simp)]
    simp only [filter_holdAll_nil]
  rw [Filtered, Plan.run_eq_resume]
  cases hread : collect source with
  | error e =>
      rw [hread] at hfirst hlater
      cases h with
      | filterFirst f s o =>
          simp only [Plan.resume_filter_none, Plan.resume_select]
          exact congrArg (· >>= _) hfirst
      | filterSecond f s o | filterLast f s o =>
          simp only [Plan.resume_select]
          exact congrArg (· >>= _) hlater
  | ok records =>
      rw [hread] at hfirst hlater
      have hall : ∀ row ∈ records.map (Record.narrow (items'.map (·.field))), row.schema = schema :=
        List.forall_mem_map.mpr (follow.schema_of_mem hread)
      simp only [Except.map, ← filter_map_narrow hchosen] at hfirst hlater ⊢
      generalize records.map (Record.narrow (items'.map (·.field))) = all at hfirst hlater hall ⊢
      have hfilter {rows : List Record} (hrows : ∀ r ∈ rows, r ∈ all) :
          filterRows condition rows = .ok (rows.filter condition.holds) :=
        filterRows_eq fun r hr name hn => hall r (hrows r hr) ▸ (filtered name hn).1
      -- filtering the ordered rows and ordering the filtered rows is the same
      obtain ⟨sorted, hsorted, stable⟩ := orderRows_stablySorted hfields hall
      have hkeptAll : ∀ r ∈ all.filter condition.holds, r.schema = schema :=
        fun r hr => hall r (List.mem_filter.mp hr).1
      obtain ⟨kept, hkept, stable'⟩ := orderRows_stablySorted hfields hkeptAll
      obtain rfl : sorted.filter condition.holds = kept := (stable.filter _).unique stable'
      refine ⟨sorted.filter condition.holds, ?_, stable'⟩
      cases h with
      | filterFirst f s o =>
          simp only [Plan.resume_filter_none, Plan.resume_select, Plan.resume_order, Plan.fields,
            List.nil_append, hfirst, hkept, bind, Except.bind]
          exact Plan.resume_nil_some
      | filterSecond f s o =>
          simp only [Plan.resume_select, Plan.resume_filter, Plan.resume_order, Plan.fields,
            hlater, hfilter fun _ h => h, hkept, bind, Except.bind]
          exact Plan.resume_nil_some
      | filterLast f s o =>
          simp only [Plan.resume_select, Plan.resume_order, Plan.resume_filter, Plan.fields,
            hlater, hsorted, hfilter fun _ h => stable.perm.mem_iff.mp h, bind, Except.bind]
          exact Plan.resume_nil_some

/-- **Where the filter stands makes no difference.**  Of the three queries that choose fields,
    filter and order, each is accepted when any of them is.  Then, on every source of records of
    the schema, they all give the same: the first error of the source, or the records that the
    filter holds of, narrowed to the fields chosen and in their stable order. -/
theorem filter_anywhere (schema : Schema) (items : List SelectItem) (condition : Filter)
    (fields : List String) :
    (∀ query query', Arranged items condition fields query →
      Arranged items condition fields query' →
        ((∃ plan, Plan.make schema query = .ok plan) ↔
          ∃ plan, Plan.make schema query' = .ok plan)) ∧
    ∀ source, Follows schema source →
      ∀ query plan, Arranged items condition fields query → Plan.make schema query = .ok plan →
        ∃ result, Filtered items condition fields source result ∧
          ∀ query' plan', Arranged items condition fields query' →
            Plan.make schema query' = .ok plan' → plan'.run source = result := by
  refine ⟨fun query query' h h' => (accepted_iff h).trans (accepted_iff h').symm, ?_⟩
  intro source follow query plan h made
  have expected := run_filtered h made follow
  refine ⟨plan.run source, expected, fun query' plan' h' made' => ?_⟩
  exact (run_filtered h' made' follow).unique expected

/-- Three views, read one after the other, and no error. -/
def threeViews : Source :=
  [.ok (.parse .mediaViews "box|film|late"), .ok (.parse .mediaViews "box|film|early"),
    .ok (.parse .mediaViews "box|article|late")]

/-- The late views by their titles: filtered as they are read or once they are ordered. -/
theorem filter_anywhere_late :
    ∃ first last,
      Plan.make .mediaViews (ofCommands [⟨"provider=\"late\"", .filter (.equals "provider" "late")⟩,
        ⟨"title,provider", .select [⟨"title", none⟩, ⟨"provider", none⟩]⟩,
        ⟨"title", .order ["title"]⟩]) = .ok first ∧
      Plan.make .mediaViews (ofCommands [
        ⟨"title,provider", .select [⟨"title", none⟩, ⟨"provider", none⟩]⟩,
        ⟨"title", .order ["title"]⟩,
        ⟨"provider=\"late\"", .filter (.equals "provider" "late")⟩]) = .ok last ∧
      last.run threeViews = first.run threeViews := by
  have follow : Follows .mediaViews threeViews := by
    intro r hr
    simp only [threeViews, List.mem_cons, List.not_mem_nil, or_false, Except.ok.injEq] at hr
    rcases hr with rfl | rfl | rfl <;> exact Record.schema_parse _ _
  refine ⟨_, _, rfl, rfl, ?_⟩
  obtain ⟨result, -, same⟩ := (filter_anywhere .mediaViews
    [⟨"title", none⟩, ⟨"provider", none⟩] (.equals "provider" "late") ["title"]).2
    threeViews follow _ _ (.filterFirst "provider=\"late\"" "title,provider" "title") rfl
  exact (same _ _ (.filterLast _ _ _) rfl).trans (same _ _ (.filterFirst _ _ _) rfl).symm

end RecordStore.Query

import RecordStore.Proofs.Schema
import RecordStore.Proofs.Sequence
import RecordStore.Query.Basic
import RecordStore.Query.Text

/-! # Queries that are read and checked

    What is known of a query because it was read from a text, and what because it has passed the
    check. -/

namespace RecordStore.Query

/-! ## What reading a query gives

    A query that was read from a text is not any query: its commands are of distinct kinds, and
    the fields that it is checked for are those of a command that selects.  Queries made by hand
    need not be like this. -/

section Reading

/-- The kinds of the commands of a query, in order. -/
def kinds (query : Query) : List CommandKind := query.commands.map Command.kind

variable {earlier commands : List Command} {segment : Segment} {segments : List Segment}

/-- Commands are read one by one, and each is of another kind than those before it. -/
theorem parseCommands_cons_eq_ok_iff :
    parseCommands earlier (segment :: segments) = .ok commands ↔
      ∃ command, parseCommand segment = .ok command ∧ command.kind ∉ earlier.map Command.kind ∧
        parseCommands (earlier ++ [command]) segments = .ok commands := by
  rw [parseCommands, bind_eq_ok_iff]
  refine exists_congr fun command => and_congr_right fun _ => ?_
  have hrepeated : earlier.any (·.kind == command.kind) = true ↔
      command.kind ∈ earlier.map Command.kind := by
    rw [List.any_eq_true, List.mem_map]
    simp only [beq_iff_eq]
  dsimp only
  by_cases repeated : command.kind ∈ earlier.map Command.kind
  · rw [if_pos (hrepeated.mpr repeated)]
    exact iff_of_false (fun h => nomatch h) fun h => h.1 repeated
  · rw [if_neg (mt hrepeated.mp repeated)]
    exact (and_iff_right repeated).symm

/-- Commands that are read have distinct kinds, by induction on the segments. -/
theorem nodup_kinds_of_parseCommands (distinct : (earlier.map Command.kind).Nodup)
    (h : parseCommands earlier segments = .ok commands) :
    (commands.map Command.kind).Nodup := by
  induction segments generalizing earlier with
  | nil =>
      cases h
      exact distinct
  | cons segment segments ih =>
      obtain ⟨command, -, fresh, hrest⟩ := parseCommands_cons_eq_ok_iff.mp h
      refine ih ?_ hrest
      rw [List.map_append]
      refine List.nodup_append.mpr ⟨distinct, List.pairwise_singleton _ _, ?_⟩
      rintro a ha b hb rfl
      exact fresh (List.mem_singleton.mp hb ▸ ha)

/-- The commands of a query that was read are of distinct kinds, and the fields that it selects are
    those of one of them. -/
theorem kinds_of_parse {s : String} {query : Query} (h : parse s = .ok query) :
    query.kinds.Nodup ∧ ∀ items, query.select = some items → .select ∈ query.kinds := by
  rw [parse] at h
  split at h
  · exact nomatch h
  · cases hsegments : Segment.ofChars? s.toList with
    | none =>
        rw [hsegments] at h
        exact nomatch h
    | some segments =>
        rw [hsegments] at h
        cases hcommands : parseCommands [] segments with
        | error e =>
            simp only [hcommands] at h
            exact nomatch h
        | ok commands =>
            simp only [hcommands] at h
            cases h
            have distinct : (([] : List Command).map Command.kind).Nodup := List.nodup_nil
            refine ⟨nodup_kinds_of_parseCommands distinct hcommands, ?_⟩
            intro items hselect
            obtain ⟨command, hmem, hstage⟩ := List.exists_of_findSome?_eq_some hselect
            refine List.mem_map.mpr ⟨command, hmem, ?_⟩
            rw [Command.kind]
            cases hs : command.stage with
            | select => rfl
            | order | group | filter =>
                rw [hs] at hstage
                exact nomatch hstage

end Reading

/-! ## What the check of a query says

    A plan is made of a query when a number of checks succeed, one after the other.  Here the
    checks are turned into what they say of the query, so that nothing after this has to look at
    them again: `make_eq_ok_iff` tells exactly when there is a plan, and `Plan.Checked` is what is
    known of one.  The first check that fails makes the error, which no statement here is about:
    a query is refused for one reason or another, and accepted for all of them together. -/

section Checked

variable {schema : Schema} {items : List SelectItem}

/-! ### What is checked -/

/-- A field that is known and chosen. -/
def Chosen (schema : Schema) (items : List SelectItem) (name : String) : Prop :=
  name ∈ schema.names ∧ name ∈ items.map (·.field)

/-- An item that suits a grouping by a field: the field itself without an aggregate, or another
    field with one, which is a number if it is to be summed. -/
def SuitsGroup (schema : Schema) (key : String) (item : SelectItem) : Prop :=
  match item.aggregate with
  | none => item.field = key
  | some aggregate => item.field ≠ key ∧ ∃ field, schema.field item.field = .ok field ∧
      (aggregate = .sum → field.kind.isNumeric = true)

namespace SuitsGroup

variable {key : String} {item : SelectItem}

/-- An item without an aggregate is the grouping field. -/
theorem field_eq (h : SuitsGroup schema key item) (carried : item.aggregate = none) :
    item.field = key := by
  rwa [SuitsGroup, carried] at h

/-- An item with an aggregate is another field, and a number if it is summed. -/
theorem exists_field {aggregate : Aggregate} (h : SuitsGroup schema key item)
    (carried : item.aggregate = some aggregate) :
    item.field ≠ key ∧ ∃ field, schema.field item.field = .ok field ∧
      (aggregate = .sum → field.kind.isNumeric = true) := by
  rwa [SuitsGroup, carried] at h

end SuitsGroup

/-- A stage that suits the schema and the fields chosen. -/
def Suits (schema : Schema) (items : List SelectItem) : Stage → Prop
  | .select _ => True
  | .order fields => ∀ name ∈ fields, Chosen schema items name
  | .filter condition => ∀ name ∈ condition.fields, Chosen schema items name
  | .group key => Chosen schema items key ∧ ∀ item ∈ items, SuitsGroup schema key item

/-- A command that may stand before the one that chooses the fields. -/
def MayPrecede (kind : CommandKind) : Prop := kind = .select ∨ kind = .filter

/-- What is known of a plan. -/
structure Plan.Checked (plan : Plan) : Prop where
  select : plan.query.select = some plan.items
  before : ∀ command ∈ plan.query.commands.take (plan.query.selectPosition?.getD 0),
    MayPrecede command.kind
  known : ∀ item ∈ plan.items, item.field ∈ plan.schema.names
  suits : ∀ command ∈ plan.query.commands, Suits plan.schema plan.items command.stage

/-! ### The checks, one by one -/

private theorem any_field_iff {name : String} :
    items.any (·.field == name) = true ↔ name ∈ items.map (·.field) := by
  rw [List.any_eq_true, List.mem_map]
  simp only [beq_iff_eq]

theorem checkSelected_eq_ok_iff {name : String} :
    checkSelected schema items name = .ok () ↔ Chosen schema items name := by
  rw [checkSelected, bind_eq_ok_iff, Chosen, ← Schema.exists_position_iff]
  simp only [unless_eq_ok_iff, any_field_iff, exists_and_right]

theorem checkGroupItem_eq_ok_iff {key : String} {item : SelectItem} :
    checkGroupItem schema key item = .ok () ↔ SuitsGroup schema key item := by
  rw [checkGroupItem, SuitsGroup]
  cases item.aggregate with
  | none =>
      dsimp only
      by_cases hkey : item.field = key
      · exact iff_of_true (if_pos hkey) hkey
      · rw [if_neg hkey]
        exact iff_of_false (fun h => nomatch h) hkey
  | some aggregate =>
      dsimp only
      by_cases hkey : item.field = key
      · rw [if_pos hkey]
        exact iff_of_false (fun h => nomatch h) fun h => h.1 hkey
      · rw [if_neg hkey, and_iff_right hkey, bind_eq_ok_iff]
        refine exists_congr fun field => and_congr_right fun _ => ?_
        by_cases hbad : aggregate = .sum ∧ ¬ field.kind.isNumeric = true
        · rw [if_pos hbad]
          exact iff_of_false (fun h => nomatch h) fun h => hbad.2 (h hbad.1)
        · rw [if_neg hbad]
          exact iff_of_true rfl fun hsum => Decidable.byContradiction fun hk => hbad ⟨hsum, hk⟩

/-- A stage passes when it suits the schema and the items. -/
theorem checkStage_eq_ok_iff {stage : Stage} :
    checkStage schema items stage = .ok () ↔ Suits schema items stage := by
  cases stage with
  | select _ => exact iff_of_true rfl trivial
  | order fields | filter condition =>
      rw [checkStage, forM_eq_ok_iff]
      exact forall₂_congr fun _ _ => checkSelected_eq_ok_iff
  | group key =>
      rw [checkStage, checkGroup, bind_eq_ok_iff, Suits, Chosen, ← Schema.exists_position_iff]
      simp only [check_bind_eq_ok_iff, forM_eq_ok_iff, checkGroupItem_eq_ok_iff,
        unless_eq_ok_iff, any_field_iff, exists_and_right, and_assoc]
      exact and_congr_right fun _ => and_comm

/-- The commands before the choice of fields pass when each may stand there. -/
theorem checkBefore_eq_ok_iff {query : Query} :
    checkBefore query = .ok () ↔
      ∀ command ∈ query.commands.take (query.selectPosition?.getD 0), MayPrecede command.kind := by
  rw [checkBefore, forM_eq_ok_iff]
  refine forall₂_congr fun command _ => ?_
  cases hk : command.kind with
  | select => exact iff_of_true rfl (.inl rfl)
  | filter => exact iff_of_true rfl (.inr rfl)
  | order | group =>
      exact iff_of_false (fun h => nomatch h) fun h => h.elim (nomatch ·) (nomatch ·)

/-! ### Plans -/

private theorem checkKnown_eq_ok_iff {name : String} :
    (do let _ ← schema.position name : Except StoreError Unit) = .ok () ↔
      name ∈ schema.names := by
  rw [bind_eq_ok_iff, ← Schema.exists_position_iff]
  exact exists_congr fun _ => and_iff_left rfl

/-- **There is a plan of a query exactly when all checks succeed**, and the plan is of the schema
    and the query. -/
theorem Plan.make_eq_ok_iff {query : Query} {plan : Plan} :
    Plan.make schema query = .ok plan ↔
      plan.schema = schema ∧ plan.query = query ∧ plan.Checked := by
  obtain ⟨schema', query', items'⟩ := plan
  rw [Plan.make]
  cases hselect : query.select with
  | none =>
      refine iff_of_false (fun h => nomatch h) ?_
      rintro ⟨-, rfl, checked⟩
      exact nomatch hselect.symm.trans checked.select
  | some items =>
      simp only [check_bind_eq_ok_iff, checkBefore_eq_ok_iff, forM_eq_ok_iff,
        checkKnown_eq_ok_iff, checkStage_eq_ok_iff]
      constructor
      · rintro ⟨before, known, suits, ⟨⟩⟩
        exact ⟨rfl, rfl, hselect, before, known, suits⟩
      · rintro ⟨rfl, rfl, checked⟩
        cases hselect.symm.trans checked.select
        exact ⟨checked.before, checked.known, checked.suits, rfl⟩

end Checked

end RecordStore.Query

import RecordStore.Proofs.Import.Pieces

/-! # How far an import has come

    What lines do to an import under way is what they do to one that begins with the store as it
    is, except that lines are counted on and the reports are added.  So an import can be taken in
    two parts, and one line can be exchanged for another without a look at those behind it.  And
    all that an import does to a store is to put records into it, up to the first that the store
    refuses.  The route:

    * `Progress.followedBy`: an import, and then another one of its store;
    * `step_eq_followedBy` and `foldl_step`: one line, and by induction any lines;
    * `foldl_step_skip`: a line that is skipped, against one that is passed over;
    * `Store.upsertAll`, `tally` and `skipsBehind`: what lines leave;
    * `step_written`, `Written.append` and `foldl_step_written`: one line, some behind others, and
      by induction any lines leave this and nothing else. -/

namespace RecordStore

open RecordStore.Text

/-- Two reports, added. -/
instance : Add Report := ⟨fun a b => ⟨a.imported + b.imported, a.skipped + b.skipped⟩⟩

theorem Report.add_def (a b : Report) :
    a + b = ⟨a.imported + b.imported, a.skipped + b.skipped⟩ := rfl

theorem Report.add_assoc (a b c : Report) : a + b + c = a + (b + c) := by
  simp only [add_def, Nat.add_assoc]

theorem Report.add_right_comm (a b c : Report) : a + b + c = a + c + b := by
  simp only [add_def, Nat.add_right_comm]

/-- A skipped line, when it stands behind others. -/
def Skip.behind (number : Nat) (skip : Skip) : Skip := { skip with line := number + skip.line }

namespace Import

variable {σ : Type}

/-! ## An import, and then another -/

/-- What has become of an import `p`, when `q` has become of one that began with its store. -/
def Progress.followedBy (p q : Progress σ) : Progress σ where
  store := q.store
  line := p.line + q.line
  report := p.report + q.report
  skips := p.skips ++ q.skips.map (.behind p.line)
  stopped := q.stopped

/-- Nothing behind a progress that is under way leaves it as it is. -/
theorem Progress.followedBy_start {p : Progress σ} (running : p.stopped = none) :
    p.followedBy (start p.store) = p := by
  obtain ⟨store, line, report, skips, stopped⟩ := p
  cases running
  simp [followedBy, start, Report.add_def]

/-- Three parts of an import may be put together in either grouping. -/
theorem Progress.followedBy_assoc (p q r : Progress σ) :
    (p.followedBy q).followedBy r = p.followedBy (q.followedBy r) := by
  have hbehind : Skip.behind (p.line + q.line) = Skip.behind p.line ∘ Skip.behind q.line := by
    funext skip
    simp [Skip.behind, Nat.add_assoc]
  simp [followedBy, Nat.add_assoc, Report.add_assoc, hbehind]

/-- What an import gives that ends here, into a store that can be flushed. -/
def Progress.outcome (p : Progress σ) : Except StoreError Report :=
  match p.stopped with
  | some e => .error e
  | none => .ok p.report

/-- The outcome of two parts is that of the second, with what the first has counted. -/
theorem Progress.outcome_followedBy (p q : Progress σ) :
    (p.followedBy q).outcome = q.outcome.map (p.report + ·) := by
  have hstopped : (p.followedBy q).stopped = q.stopped := rfl
  rw [outcome, outcome, hstopped]
  cases q.stopped <;> rfl

variable [Store σ] {p : Progress σ} {line : Bytes}

/-- Where the store can be flushed, finishing an import adds nothing to it. -/
theorem finish_eq (flushed : Store.flush p.store = .ok ()) :
    finish p = ⟨p.store, p.skips, p.outcome⟩ := by
  rw [finish, Progress.outcome, flushed]
  cases p.stopped <;> rfl

/-! ## One line, and any lines -/

/-- After an error no further line is taken. -/
theorem step_of_stopped {e : StoreError} (stopped : p.stopped = some e) (line : Bytes) :
    step p line = p := by
  rw [step, stopped]

theorem foldl_step_of_stopped {e : StoreError} (stopped : p.stopped = some e) (ls : List Bytes) :
    ls.foldl step p = p := by
  induction ls with
  | nil => rfl
  | cons line ls ih => rw [List.foldl_cons, step_of_stopped stopped, ih]

/-- A line that is passed over is counted as a line and as nothing else. -/
theorem step_passOver (running : p.stopped = none)
    (h : judge (Store.schema p.store) line = .passOver) :
    step p line = { p with line := p.line + 1 } := by
  simp only [step, running, h]

/-- A line that is rejected leaves the store as it is, with a warning that has its number. -/
theorem step_skip (running : p.stopped = none) {reason : SkipReason}
    (h : judge (Store.schema p.store) line = .skip reason) :
    step p line = { p with
      line := p.line + 1
      report := p.report + ⟨0, 1⟩
      skips := p.skips ++ [⟨p.line + 1, reason⟩] } := by
  simp only [step, running, h, Report.add_def, Nat.add_zero]

/-- A line that is accepted puts its record into the store. -/
theorem step_accept (running : p.stopped = none) {r : Record}
    (h : judge (Store.schema p.store) line = .accept r) {store : σ}
    (done : Store.upsert p.store r = (store, .ok ())) :
    step p line = { p with
      store := store
      line := p.line + 1
      report := p.report + ⟨1, 0⟩ } := by
  simp only [step, running, h, done, Report.add_def, Nat.add_zero]

/-- Where the store refuses the record, the import stops with the error. -/
theorem step_refuse (running : p.stopped = none) {r : Record}
    (h : judge (Store.schema p.store) line = .accept r) {store : σ} {e : StoreError}
    (failed : Store.upsert p.store r = (store, .error e)) :
    step p line = { p with store := store, line := p.line + 1, stopped := some e } := by
  simp only [step, running, h, failed]

/-- What one line does, however far the import has come. -/
theorem step_eq_followedBy (running : p.stopped = none) (line : Bytes) :
    step p line = p.followedBy (step (start p.store) line) := by
  have begun : (start p.store).stopped = none := rfl
  cases h : judge (Store.schema p.store) line with
  | passOver =>
      rw [step_passOver running h, step_passOver begun h]
      simp [Progress.followedBy, start, Report.add_def, running]
  | skip reason =>
      rw [step_skip running h, step_skip begun h]
      simp [Progress.followedBy, start, Skip.behind, Report.add_def, running]
  | accept r =>
      cases hput : Store.upsert p.store r with
      | mk store result =>
          cases result with
          | ok u =>
              rw [step_accept running h hput, step_accept begun h hput]
              simp [Progress.followedBy, start, Report.add_def, running]
          | error e =>
              rw [step_refuse running h hput, step_refuse begun h hput]
              simp [Progress.followedBy, start, Report.add_def]

/-- **What lines do to an import under way is what they do to one that begins with its store.** -/
theorem foldl_step (running : p.stopped = none) (ls : List Bytes) :
    ls.foldl step p = p.followedBy (ls.foldl step (start p.store)) := by
  induction ls generalizing p with
  | nil => exact (Progress.followedBy_start running).symm
  | cons line ls ih =>
      rw [List.foldl_cons, List.foldl_cons, step_eq_followedBy running]
      cases h : (step (start p.store) line).stopped with
      | some e =>
          have hwhole : (p.followedBy (step (start p.store) line)).stopped = some e := h
          rw [foldl_step_of_stopped hwhole, foldl_step_of_stopped h]
      | none =>
          -- what is behind the line begins with the same store either way
          have hwhole : (p.followedBy (step (start p.store) line)).stopped = none := h
          rw [ih hwhole, ih h, Progress.followedBy_assoc]
          rfl

/-- **A line that is skipped leaves what a line leaves that is passed over**, but for the count and
    the report of it, whatever lines come behind. -/
theorem foldl_step_skip (running : p.stopped = none) {skipped passed : Bytes} {reason : SkipReason}
    (hskip : judge (Store.schema p.store) skipped = .skip reason)
    (hpass : judge (Store.schema p.store) passed = .passOver) (ls : List Bytes) :
    (ls.foldl step (step p skipped)).store = (ls.foldl step (step p passed)).store ∧
      (ls.foldl step (step p skipped)).stopped = (ls.foldl step (step p passed)).stopped ∧
      (ls.foldl step (step p skipped)).report
        = (ls.foldl step (step p passed)).report + ⟨0, 1⟩ ∧
      ∃ back, (ls.foldl step (step p passed)).skips = p.skips ++ back ∧
        (ls.foldl step (step p skipped)).skips = p.skips ++ ⟨p.line + 1, reason⟩ :: back := by
  have hs := step_skip running hskip
  have hp := step_passOver running hpass
  have running' : (step p skipped).stopped = none := by rw [hs, running]
  have running'' : (step p passed).stopped = none := by rw [hp, running]
  -- the two stores are the same, so the lines behind do the same to both
  rw [foldl_step running', foldl_step running'', hs, hp]
  exact ⟨rfl, rfl, Report.add_right_comm .., _, rfl, List.append_assoc ..⟩

end Import

/-! ## Records put into a store -/

variable {σ : Type} [Store σ]

/-- Puts records into a store, one after the other, up to the first that it refuses. -/
def Store.upsertAll (s : σ) : List Record → Outcome σ Unit
  | [] => (s, .ok ())
  | r :: rs =>
    match Store.upsert s r with
    | (s, .ok _) => upsertAll s rs
    | (s, .error e) => (s, .error e)

namespace Store

variable {s s' : σ} {r : Record} {rs : List Record} {e : StoreError}

theorem upsertAll_cons (done : Store.upsert s r = (s', .ok ())) (rs : List Record) :
    upsertAll s (r :: rs) = upsertAll s' rs := by
  rw [upsertAll, done]

theorem upsertAll_cons_error (failed : Store.upsert s r = (s', .error e)) (rs : List Record) :
    upsertAll s (r :: rs) = (s', .error e) := by
  rw [upsertAll, failed]

/-- Records that were put may be followed by more. -/
theorem upsertAll_append (done : upsertAll s rs = (s', .ok ())) (more : List Record) :
    upsertAll s (rs ++ more) = upsertAll s' more := by
  induction rs generalizing s with
  | nil =>
      cases done
      rfl
  | cons r rs ih =>
      rcases hput : Store.upsert s r with ⟨s₁, e | u⟩
      · rw [upsertAll_cons_error hput] at done
        cases done
      · rw [upsertAll_cons hput] at done
        rw [List.cons_append, upsertAll_cons hput, ih done]

/-- Where one of the records was refused, those behind it play no part. -/
theorem upsertAll_append_error (failed : upsertAll s rs = (s', .error e)) (more : List Record) :
    upsertAll s (rs ++ more) = (s', .error e) := by
  induction rs generalizing s with
  | nil => cases failed
  | cons r rs ih =>
      rcases hput : Store.upsert s r with ⟨s₁, e | u⟩
      · rw [upsertAll_cons_error hput] at failed
        rw [List.cons_append, upsertAll_cons_error hput, failed]
      · rw [upsertAll_cons hput] at failed
        rw [List.cons_append, upsertAll_cons hput, ih failed]

/-- A schema that upserts keep is kept by any number of them. -/
theorem schema_upsertAll
    (keeps : ∀ (s : σ) r, Store.schema (Store.upsert s r).1 = Store.schema s) (s : σ)
    (rs : List Record) : Store.schema (upsertAll s rs).1 = Store.schema s := by
  induction rs generalizing s with
  | nil => rfl
  | cons r rs ih =>
      have hschema := keeps s r
      rcases hput : Store.upsert s r with ⟨s₁, e | u⟩
      · rw [hput] at hschema
        rw [upsertAll_cons_error hput, hschema]
      · rw [hput] at hschema
        rw [upsertAll_cons hput, ih, hschema]

end Store

/-! ## What lines leave -/

namespace Import

/-- The lines that are skipped, where `number` others stand before them. -/
def skipsBehind (schema : Schema) (number : Nat) : List Bytes → List Skip
  | [] => []
  | line :: ls =>
    match judge schema line with
    | .skip reason => ⟨number + 1, reason⟩ :: skipsBehind schema (number + 1) ls
    | .passOver | .accept _ => skipsBehind schema (number + 1) ls

/-- The numbers of lines that are accepted and that are skipped. -/
def tally (schema : Schema) (ls : List Bytes) : Report :=
  ⟨(acceptedRecords schema ls).length, skippedCount schema ls⟩

theorem acceptedRecords_append (schema : Schema) (ls more : List Bytes) :
    acceptedRecords schema (ls ++ more)
      = acceptedRecords schema ls ++ acceptedRecords schema more :=
  List.filterMap_append

theorem tally_append (schema : Schema) (ls more : List Bytes) :
    tally schema (ls ++ more) = tally schema ls + tally schema more := by
  rw [tally, acceptedRecords_append, List.length_append, skippedCount, List.countP_append]
  rfl

/-- The warnings of two parts, where the numbers of the second go on behind the first. -/
theorem skipsBehind_append (schema : Schema) (number : Nat) (ls more : List Bytes) :
    skipsBehind schema number (ls ++ more)
      = skipsBehind schema number ls ++ skipsBehind schema (number + ls.length) more := by
  induction ls generalizing number with
  | nil => rfl
  | cons line ls ih =>
      have hnumber : number + 1 + ls.length = number + (line :: ls).length := by
        rw [List.length_cons, Nat.add_assoc, Nat.add_comm 1]
      have hrest := ih (number + 1)
      rw [hnumber] at hrest
      rw [List.cons_append, skipsBehind, skipsBehind, hrest]
      cases judge schema line <;> rfl

/-- As many lines are skipped as are counted. -/
theorem length_skipsBehind (schema : Schema) (number : Nat) (ls : List Bytes) :
    (skipsBehind schema number ls).length = skippedCount schema ls := by
  induction ls generalizing number with
  | nil => rfl
  | cons line ls ih =>
      have hcount : skippedCount schema (line :: ls)
          = skippedCount schema ls + if (judge schema line).isSkip then 1 else 0 :=
        List.countP_cons
      rw [skipsBehind, hcount]
      cases judge schema line with
      | passOver | accept r => exact ih _
      | skip reason => exact congrArg (· + 1) (ih _)

/-- What lines leave of an import.  As long as the store takes the accepted records, they are put
    into it, and the other lines are counted or passed over; the first that it refuses ends
    it. -/
inductive Written (schema : Schema) (p : Progress σ) (ls : List Bytes) (q : Progress σ) :
    Prop where
  | whole
      (stored : Store.upsertAll p.store (acceptedRecords schema ls) = (q.store, .ok ()))
      (running : q.stopped = none) (line : q.line = p.line + ls.length)
      (report : q.report = p.report + tally schema ls)
      (skips : q.skips = p.skips ++ skipsBehind schema p.line ls)
  | partly {e : StoreError}
      (stored : Store.upsertAll p.store (acceptedRecords schema ls) = (q.store, .error e))
      (stopped : q.stopped = some e)

variable {schema : Schema} {p q : Progress σ} {line : Bytes} {ls : List Bytes}

/-- What one line leaves. -/
theorem step_written (same : Store.schema p.store = schema) (running : p.stopped = none)
    (line : Bytes) : Written schema p [line] (step p line) := by
  have hrecords : acceptedRecords schema [line] = (judge schema line).record?.toList := by
    rw [acceptedRecords, List.filterMap_cons]
    cases (judge schema line).record? <;> rfl
  have hcount : skippedCount schema [line] = if (judge schema line).isSkip then 1 else 0 := by
    rw [skippedCount, List.countP_singleton]
  cases h : judge schema line with
  | passOver =>
      rw [h] at hrecords hcount
      rw [step_passOver running (same ▸ h)]
      refine .whole (by rw [hrecords]; rfl) running rfl ?_ ?_
      · rw [tally, hrecords, hcount]
        rfl
      · rw [skipsBehind, h]
        exact (List.append_nil _).symm
  | skip reason =>
      rw [h] at hrecords hcount
      rw [step_skip running (same ▸ h)]
      refine .whole (by rw [hrecords]; rfl) running rfl ?_ ?_
      · rw [tally, hrecords, hcount]
        rfl
      · rw [skipsBehind, h]
        rfl
  | accept r =>
      rw [h] at hrecords hcount
      rcases hput : Store.upsert p.store r with ⟨store, e | u⟩
      · rw [step_refuse running (same ▸ h) hput]
        refine .partly ?_ rfl
        rw [hrecords]
        exact Store.upsertAll_cons_error hput []
      · rw [step_accept running (same ▸ h) hput]
        refine .whole ?_ running rfl ?_ ?_
        · rw [hrecords]
          exact Store.upsertAll_cons hput []
        · rw [tally, hrecords, hcount]
          rfl
        · rw [skipsBehind, h]
          exact (List.append_nil _).symm

/-- What more lines leave behind them, unless the import has ended. -/
theorem Written.append (h : Written schema p ls q) {more : List Bytes} {q' : Progress σ}
    (goes : q.stopped = none → Written schema q more q')
    (ended : ∀ e, q.stopped = some e → q' = q) : Written schema p (ls ++ more) q' := by
  have hrecords := acceptedRecords_append schema ls more
  cases h with
  | whole stored running line report skips =>
      have hall := Store.upsertAll_append stored (acceptedRecords schema more)
      cases goes running with
      | whole stored' running' line' report' skips' =>
          refine .whole ?_ running' ?_ ?_ ?_
          · rw [hrecords, hall, stored']
          · rw [line', line, List.length_append, Nat.add_assoc]
          · rw [report', report, tally_append, Report.add_assoc]
          · rw [skips', skips, line, skipsBehind_append, List.append_assoc]
      | partly stored' stopped' =>
          refine .partly ?_ stopped'
          rw [hrecords, hall, stored']
  | partly stored stopped =>
      obtain rfl := ended _ stopped
      refine .partly ?_ stopped
      rw [hrecords, Store.upsertAll_append_error stored]

/-- Lines leave the schema of the store as it was, if upserts do. -/
theorem Written.schema_eq
    (keeps : ∀ (s : σ) r, Store.schema (Store.upsert s r).1 = Store.schema s)
    (h : Written schema p ls q) : Store.schema q.store = Store.schema p.store := by
  have hall := Store.schema_upsertAll keeps p.store (acceptedRecords schema ls)
  cases h with
  | whole stored | partly stored => rwa [stored] at hall

/-- **An import puts the accepted records into the store, in order, and does nothing else to
    it.** -/
theorem foldl_step_written
    (keeps : ∀ (s : σ) r, Store.schema (Store.upsert s r).1 = Store.schema s)
    (same : Store.schema p.store = schema) (running : p.stopped = none) (ls : List Bytes) :
    Written schema p ls (ls.foldl step p) := by
  induction ls generalizing p with
  | nil => exact .whole rfl running rfl rfl (List.append_nil _).symm
  | cons line ls ih =>
      have hstep := step_written same running line
      have hschema := (hstep.schema_eq keeps).trans same
      rw [← List.singleton_append, List.foldl_append]
      exact hstep.append (fun goes => ih hschema goes) fun e stopped =>
        foldl_step_of_stopped stopped ls

end Import

end RecordStore

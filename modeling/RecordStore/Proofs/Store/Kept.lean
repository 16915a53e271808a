import RecordStore.Proofs.Sequence
import RecordStore.Proofs.Store.Agreement

/-! # What a store in memory keeps

    A store in memory looks for the record that it has to replace by the keys that the records have
    of themselves, and gives its records out as its own schema reads their lines.  As long as all
    records are of its schema these keys are the same, and the store keeps one record for each key:
    the one that was put there last.  Unlike a store in a file it does not ask for the schema of a
    record, and records of another schema can have distinct keys for themselves and the same key
    for the store.  The route:

    * `Deletes`, `Leaves`, `Stands`: a record was put under a key and is still to be there;
    * `Tidy` and `upsert_cases`: the list of records, and what an upsert does to it;
    * `shown_call`: what one call does to what is shown;
    * `shown_run`: so does a run, by induction on its calls;
    * `records_of_run`, and `keys_repeated` for records of another schema. -/

namespace RecordStore

/-! ## What is to be there -/

/-- An event of a history in which a key was deleted.  A deletion that fails deletes nothing, nor
    does one of the empty key. -/
def Deletes (key : String) (event : Call × Reply) : Prop :=
  key ≠ "" ∧ event.1 = .delete key ∧ ∃ found, event.2 = .deleted (.ok found)

/-- An event that leaves what is kept under a key as it is. -/
def Leaves (key : String) (event : Call × Reply) : Prop :=
  ¬ Deletes key event ∧ ∀ r, ¬ Puts key r event

/-- In a history, a record was put under a key, and no event after that put another under the key
    or deleted the key. -/
def Stands (key : String) (r : Record) : List (Call × Reply) → Prop :=
  Since (Puts key r) (Leaves key)

/-- An event of a history that puts a record which reads as this one: its line is not empty. -/
def Shows (x : Record) (event : Call × Reply) : Prop :=
  ∃ r, Puts x.key r event ∧ r.toLine ≠ "" ∧ x = r.stored

/-- A call that puts no record into a store, or one of a schema. -/
def Call.Own (schema : Schema) (c : Call) : Prop := ∀ r, c.put? = some r → r.schema = schema

section Put

variable {key : String} {c : Call} {reply : Reply} {r r' : Record}

private theorem not_deletes_of_put? (h : c.put? = some r) : ¬ Deletes key (c, reply) := by
  rintro ⟨-, rfl, -⟩
  exact nomatch h

/-- A call that puts a record puts no other, and only under the record's key. -/
private theorem puts_iff_of_put? (put : c.put? = some r) :
    Puts key r' (c, reply) ↔ r = r' ∧ reply = .done (.ok ()) ∧ r.hasData = true ∧ r.key = key := by
  constructor
  · rintro ⟨hr', hreply, data, hkey⟩
    obtain rfl : r = r' := Option.some.inj (put.symm.trans hr')
    exact ⟨rfl, hreply, data, hkey⟩
  · rintro ⟨rfl, rest⟩
    exact ⟨put, rest⟩

end Put

namespace MemoryStore

variable {m : MemoryStore} {r x : Record}

/-! ## The list of records -/

/-- The records of a store are of its schema, can be stored, and have distinct keys. -/
structure Tidy (m : MemoryStore) : Prop where
  storables : Storables m.schema m.stored
  distinct : (Entries.keys m.stored).Nodup

/-- Placing a storable record keeps a store tidy. -/
theorem Tidy.place (h : Tidy m) {written : Keyed Record} (schema : r.schema = m.schema)
    (storable : r.Storable) :
    Tidy { m with stored := MemoryStore.place r m.stored, written := written } where
  storables y hy := by
    rcases mem_place hy with rfl | hy
    · exact ⟨schema, storable⟩
    · exact h.storables y hy
  distinct := by
    show (Entries.keys (MemoryStore.place r m.stored)).Nodup
    rw [place_eq_put h.distinct]
    exact Entries.nodup_keys_put r h.distinct

theorem Tidy.remove (h : Tidy m) {written : Keyed Record} (key : String) :
    Tidy { m with stored := Entries.remove key m.stored, written := written } where
  storables y hy := h.storables y (Entries.mem_remove.mp hy).1
  distinct := Entries.nodup_keys_remove key h.distinct

/-- An upsert puts the record into the list, or it changes nothing and there was no data to put or
    it is refused. -/
theorem upsert_cases (schema : r.schema = m.schema) :
    (r.hasData = true ∧ r.Storable ∧ m.upsert r =
        ({ m with stored := place r m.stored, written := m.written.insert r.key r }, .ok ())) ∨
      (m.upsert r).1 = m ∧ (r.hasData = true → (m.upsert r).2 ≠ .ok ()) := by
  cases data : r.hasData with
  | false =>
      rw [upsert, data]
      exact .inr ⟨rfl, fun h => absurd h Bool.false_ne_true⟩
  | true =>
      have hlength : r.values.length = m.schema.fields.length := schema ▸ r.length_values
      rw [upsert_of_hasData data]
      cases ready : m.ensureConnected >>= fun _ => Store.checkStorable m.schema.fields r.values with
      | error e =>
          refine .inr ⟨rfl, ?_⟩
          rintro - ⟨⟩
      | ok u =>
          have storable := (check_bind_eq_ok_iff.mp ready).2
          exact .inl ⟨rfl, (Store.checkStorable_eq_ok_iff hlength).mp storable, rfl⟩

/-- What is shown after a record was put among those of its schema. -/
theorem mem_shown_place (h : Tidy m) (schema : r.schema = m.schema) :
    x ∈ shown (place r m.stored) ↔
      r.toLine ≠ "" ∧ x = r.stored ∨ x ∈ shown m.stored ∧ x.key ≠ r.key := by
  have storables : Storables r.schema m.stored := schema ▸ h.storables
  by_cases hline : r.toLine = ""
  · -- the record is not shown, and no other with its key is
    rw [shown_place_blank hline storables, or_iff_right fun h => h.1 hline]
    refine (and_iff_left_of_imp fun hx hkey => ?_).symm
    exact notMem_keys_shown hline storables (Entries.mem_keys.mpr ⟨x, hx, hkey⟩)
  · rw [shown_place hline storables h.distinct, Entries.mem_put, and_iff_right hline,
      Record.key_stored]

/-! ## One call -/

/-- A call that puts a record of the schema. -/
private theorem shown_call_put (h : Tidy m) {c : Call} (put : c.put? = some r)
    (schema : r.schema = m.schema) :
    Tidy (Store.call m c).1 ∧
      (x ∈ shown (Store.call m c).1.stored ↔ Shows x (c, (Store.call m c).2) ∨
        x ∈ shown m.stored ∧ Leaves x.key (c, (Store.call m c).2)) := by
  have hput : Store.call m c = ((m.upsert r).1, .done (m.upsert r).2) := Store.call_put m put
  have leaves_iff {reply : Reply} :
      Leaves x.key (c, reply) ↔ ∀ r', ¬ Puts x.key r' (c, reply) :=
    and_iff_right (not_deletes_of_put? put)
  rw [hput, leaves_iff]
  rcases upsert_cases schema with ⟨data, storable, hupsert⟩ | ⟨same, failed⟩
  · rw [hupsert]
    have puts_iff {key : String} {r' : Record} :
        Puts key r' (c, .done (.ok ())) ↔ r = r' ∧ r.key = key := by
      rw [puts_iff_of_put? put, eq_self, true_and, and_iff_right data]
    refine ⟨h.place schema storable, ?_⟩
    show x ∈ shown (place r m.stored) ↔ _
    rw [mem_shown_place h schema]
    refine or_congr ?_ (and_congr_right fun _ => ?_)
    · constructor
      · rintro ⟨hline, rfl⟩
        exact ⟨r, puts_iff.mpr ⟨rfl, rfl⟩, hline, rfl⟩
      · rintro ⟨r', hputs, hline, rfl⟩
        obtain ⟨rfl, -⟩ := puts_iff.mp hputs
        exact ⟨hline, rfl⟩
    · constructor
      · exact fun hkey r' hputs => hkey (puts_iff.mp hputs).2.symm
      · exact fun quiet hkey => quiet r (puts_iff.mpr ⟨rfl, hkey.symm⟩)
  · have noPut (r' : Record) : ¬ Puts x.key r' (c, .done (m.upsert r).2) := by
      rw [puts_iff_of_put? put]
      rintro ⟨-, hok, data, -⟩
      exact failed data (Reply.done.inj hok)
    rw [same]
    refine ⟨h, ?_⟩
    constructor
    · exact fun hx => .inr ⟨hx, noPut⟩
    · rintro (⟨r', hputs, -⟩ | ⟨hx, -⟩)
      · exact absurd hputs (noPut r')
      · exact hx

/-- A deletion. -/
private theorem shown_call_delete (h : Tidy m) (key : String) :
    Tidy (Store.call m (.delete key)).1 ∧
      (x ∈ shown (Store.call m (.delete key)).1.stored ↔
        x ∈ shown m.stored ∧ ¬ Deletes x.key (.delete key, (Store.call m (.delete key)).2)) := by
  show Tidy (m.delete key).1 ∧ (x ∈ shown (m.delete key).1.stored ↔
    _ ∧ ¬ Deletes x.key (.delete key, .deleted (m.delete key).2))
  by_cases ne : key = ""
  · have hdelete : m.delete key = (m, .ok false) := by rw [delete, if_pos (by simpa using ne)]
    rw [hdelete]
    refine ⟨h, (and_iff_left ?_).symm⟩
    rintro ⟨hkey, hcall, -⟩
    cases hcall
    exact hkey ne
  rw [delete_of_ne ne]
  cases m.ensureConnected with
  | error e =>
      refine ⟨h, (and_iff_left ?_).symm⟩
      rintro ⟨-, -, found, hreply⟩
      cases Reply.deleted.inj hreply
  | ok u =>
      refine ⟨h.remove key, ?_⟩
      show x ∈ shown (Entries.remove key m.stored) ↔ _
      rw [shown_remove, Entries.mem_remove]
      refine and_congr_right fun _ => not_congr ?_
      constructor
      · rintro rfl
        exact ⟨ne, rfl, _, rfl⟩
      · rintro ⟨-, hcall, -⟩
        cases hcall
        rfl

/-- **One call**: a record is shown after it that the call put, or that was shown before and that
    the call left alone. -/
theorem shown_call (h : Tidy m) {c : Call} (own : c.Own m.schema) (x : Record) :
    Tidy (Store.call m c).1 ∧
      (x ∈ shown (Store.call m c).1.stored ↔ Shows x (c, (Store.call m c).2) ∨
        x ∈ shown m.stored ∧ Leaves x.key (c, (Store.call m c).2)) := by
  have noPut (put : c.put? = none) (reply : Reply) : ¬ Shows x (c, reply) := by
    rintro ⟨r, hputs, -⟩
    exact not_puts put r hputs
  have leaves_iff (put : c.put? = none) (reply : Reply) :
      Leaves x.key (c, reply) ↔ ¬ Deletes x.key (c, reply) :=
    and_iff_left (not_puts put)
  cases c with
  | upsert r | create r | update r => exact shown_call_put h rfl (own r rfl)
  | delete key =>
      rw [or_iff_right (noPut rfl _), leaves_iff rfl]
      exact shown_call_delete h key
  | connect | disconnect | isConnected | find | records | count | query | flush =>
      -- the call changes nothing that is kept
      refine ⟨⟨h.storables, h.distinct⟩, ?_⟩
      rw [or_iff_right (noPut rfl _), leaves_iff rfl]
      refine (and_iff_left ?_).symm
      rintro ⟨-, hcall, -⟩
      exact nomatch hcall

/-! ## A run -/

/-- **A run**: a record is shown after it that stands in its history, or that was shown before and
    was left alone. -/
theorem shown_run (h : Tidy m) {calls : List Call} (own : ∀ c ∈ calls, c.Own m.schema)
    (x : Record) :
    Tidy (Store.run m calls) ∧
      (x ∈ shown (Store.run m calls).stored ↔
        Since (Shows x) (Leaves x.key) (Store.history m calls) ∨
          x ∈ shown m.stored ∧ ∀ e ∈ Store.history m calls, Leaves x.key e) := by
  -- on the calls: what is shown after the first is the start of the others
  induction calls generalizing m with
  | nil =>
      rw [Store.run, Store.history]
      exact ⟨h, since_nil_or.symm⟩
  | cons c calls ih =>
      obtain ⟨hc, hcalls⟩ := List.forall_mem_cons.mp own
      obtain ⟨tidy, first⟩ := shown_call h hc x
      obtain ⟨last, rest⟩ := ih tidy (by rwa [(m.frame_call c).1])
      refine ⟨last, ?_⟩
      rw [Store.run, rest, Store.history]
      exact since_cons_or first

/-- **A store in memory keeps one record for each key, the last one that was put there.**  After
    every run of calls that put records of the store's schema, reading the store, connected again
    if it is not, gives records with distinct keys: those that were put under their keys, were not
    replaced and whose keys were not deleted since.  Only a record of one field that is blank is
    not given, for its line is empty. -/
theorem records_of_run (schema : Schema) (path : String) (calls : List Call)
    (own : ∀ c ∈ calls, c.Own schema) :
    ∃ rs, Store.records (Store.connect (Store.run (new schema) calls) path).1 = .ok (rs.map .ok) ∧
      (Entries.keys rs).Nodup ∧
      ∀ x, x ∈ rs ↔ ∃ r, Stands x.key r (Store.history (new schema) calls) ∧
        r.toLine ≠ "" ∧ x = r.stored := by
  have start : Tidy (new schema) := ⟨fun _ h => (nomatch h), List.nodup_nil⟩
  have tidy : Tidy (Store.run (new schema) calls) :=
    (shown_run start own (.blank schema)).1
  refine ⟨shown (Store.run (new schema) calls).stored, ?_, nodup_keys_shown tidy.distinct, ?_⟩
  · exact congrArg Except.ok (holds_storedLines tidy.storables)
  · intro x
    rw [(shown_run start own x).2, or_iff_left fun h => nomatch h.1]
    exact since_exists_iff

/-- A view is put, replaced while the store is connected and not while it is not, and is shown as
    it was replaced. -/
theorem records_of_run_replaced :
    ∃ rs, Store.records (Store.connect (Store.run (new .mediaViews)
        [.upsert (.parse .mediaViews "box|film|one"), .upsert (.parse .mediaViews "box|film|two"),
          .disconnect, .upsert (.parse .mediaViews "box|film|three")]) "").1
        = .ok (rs.map .ok) ∧
      (Entries.keys rs).Nodup ∧ .parse .mediaViews "box|film|two" ∈ rs := by
  have own : ∀ c ∈ [Call.upsert (.parse .mediaViews "box|film|one"),
      .upsert (.parse .mediaViews "box|film|two"), .disconnect,
      .upsert (.parse .mediaViews "box|film|three")], c.Own .mediaViews := by
    intro c hc r hr
    simp only [List.mem_cons, List.not_mem_nil, or_false] at hc
    rcases hc with rfl | rfl | rfl | rfl <;> cases hr <;> exact Record.schema_parse ..
  obtain ⟨rs, read, distinct, hmem⟩ := records_of_run .mediaViews "" _ own
  have hread : Store.records (Store.connect (Store.run (new .mediaViews)
      [.upsert (.parse .mediaViews "box|film|one"), .upsert (.parse .mediaViews "box|film|two"),
        .disconnect, .upsert (.parse .mediaViews "box|film|three")]) "").1
      = .ok [.ok (.parse .mediaViews "box|film|two")] := by rfl
  refine ⟨rs, read, distinct, ?_⟩
  have hsame := Except.ok.inj (hread.symm.trans read)
  obtain ⟨r, more, rfl, hr, -⟩ := List.map_eq_cons_iff.mp hsame.symm
  cases hr
  exact List.mem_cons_self

/-- Two texts, of which the first is the key. -/
def pairsByFirst : Schema where
  fields := [⟨"a", .text, none⟩, ⟨"b", .text, none⟩]
  key := ["a"]
  valid := by decide

/-- Two texts, of which the second is the key. -/
def pairsBySecond : Schema where
  fields := [⟨"a", .text, none⟩, ⟨"b", .text, none⟩]
  key := ["b"]
  valid := by decide

/-- **Records of another schema can be kept under one key.**  Both are put without an error, and
    for the store they are two records with the key of the first. -/
theorem keys_repeated :
    ∃ rs, Store.history (new pairsByFirst)
        [.upsert (.parse pairsBySecond "x|1"), .upsert (.parse pairsBySecond "x|2"), .records]
      = [(.upsert (.parse pairsBySecond "x|1"), .done (.ok ())),
        (.upsert (.parse pairsBySecond "x|2"), .done (.ok ())),
        (.records, .records (.ok (rs.map .ok)))] ∧
      Entries.keys rs = ["x", "x"] ∧ ¬ (Entries.keys rs).Nodup := by
  refine ⟨[.parse pairsByFirst "x|1", .parse pairsByFirst "x|2"], by rfl, by decide +kernel, ?_⟩
  decide +kernel

end MemoryStore

end RecordStore

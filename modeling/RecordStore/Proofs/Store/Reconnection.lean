import RecordStore.Proofs.Disk.Resolve
import RecordStore.Proofs.Store.Coherence

/-! # An interruption is not seen in what lasts

    A store that is disconnected and connected to its file again has forgotten what was written
    through it, and so has a new store on the file.  Nothing else is lost.  The calls that change
    or read the file are answered as before, though a deletion looks at what is remembered: the
    invariant of `Coherent` says that the file has whatever is remembered.  The route:

    * `forget`: the store that remembers nothing, and `reconnect_eq_forget`,
      `reopen_eq_forget`: every interruption leads to it;
    * `upsert_forget`, `delete_forget`, `call_forget`: it is answered as the store is, and does
      the same to the file;
    * `trace_congr`: so two runs that differ in their interruptions give the same, by induction
      on the run. -/

namespace RecordStore

open RecordStore.Text

/-- The calls within a session that are answered from the file: all but those that begin or end a
    session, and the one that asks for what is remembered. -/
def Call.Lasting : Call → Prop
  | .connect _ | .disconnect | .find _ => False
  | _ => True

namespace FileStore

/-! ## Runs with interruptions -/

/-- An event in the life of a store: a call, a disconnection followed by a connection to the same
    path, or the replacement of the store by a new one on the path. -/
inductive Event where
  | call (c : Call)
  | reconnect
  | reopen

/-- The call of an event that is one. -/
def Event.call? : Event → Option Call
  | .call c => some c
  | .reconnect | .reopen => none

/-- The calls of a run, without the interruptions. -/
def callsOf (events : List Event) : List Call := events.filterMap Event.call?

/-- What the calls of a run give, each with the disk after it; `path` is the one that every
    interruption connects to again. -/
def trace (path : String) (s : FileStore) : List Event → List (Reply × Disk)
  | [] => []
  | .call c :: events =>
    ((Store.call s c).2, (Store.call s c).1.disk) :: trace path (Store.call s c).1 events
  | .reconnect :: events => trace path (s.disconnect.connect path).1 events
  | .reopen :: events => trace path ((new s.schema s.disk).connect path).1 events

/-! ## Forgetting -/

/-- The store as it is, but for what it remembers. -/
def forget (s : FileStore) : FileStore := { s with written := [] }

variable {s : FileStore} {path name : String}

@[simp] theorem schema_forget (s : FileStore) : s.forget.schema = s.schema := rfl

@[simp] theorem disk_forget (s : FileStore) : s.forget.disk = s.disk := rfl

@[simp] theorem handle_forget (s : FileStore) : s.forget.handle = s.handle := rfl

theorem coherent_forget (s : FileStore) : s.forget.Coherent where
  forgotten _ := rfl
  indexed _ _ _ _ h := nomatch h

/-- A store on a regular file that its path leads to, also when it is connected again. -/
structure OnFile (path name : String) (s : FileStore) : Prop where
  connected : s.connection = some ⟨path, .file name⟩
  reopened : s.disk.attach path = .ok (.file name, s.disk)

/-- Disconnecting and connecting again does nothing but forget. -/
theorem reconnect_eq_forget (h : s.OnFile path name) :
    (s.disconnect.connect path).1 = s.forget := by
  simp only [connect, disconnect, h.reopened, forget, h.connected]

/-- Nor does a new store on the same path. -/
theorem reopen_eq_forget (h : s.OnFile path name) :
    ((new s.schema s.disk).connect path).1 = s.forget := by
  simp only [connect, new, h.reopened, forget, h.connected]

/-! ## What is remembered plays no part in what is done to the file -/

/-- An edit of the file does not depend on what is remembered. -/
theorem edit_forget (s : FileStore) (handle : Disk.Handle) (offset length : Nat)
    (bytes : Bytes) : s.forget.edit handle offset length bytes
      = (s.edit handle offset length bytes).map forget := by
  simp only [edit, disk_forget]
  cases s.disk.replace (splice (s.disk.read handle) offset length bytes) handle <;> rfl

theorem store_forget (s : FileStore) (r : Record) :
    s.forget.store r = (s.store r).map forget := by
  simp only [store, handle_forget, disk_forget, schema_forget, edit_forget, bind, Except.bind]
  cases s.handle with
  | error e => rfl
  | ok handle =>
      dsimp only
      cases locate s.schema r.key (s.disk.read handle) with
      | error e => rfl
      | ok place => cases place <;> rfl

theorem remove_forget (s : FileStore) (key : String) :
    s.forget.remove key = (s.remove key).map fun (s', stored) => (s'.forget, stored) := by
  simp only [remove, handle_forget, disk_forget, schema_forget, edit_forget, bind, Except.bind]
  cases s.handle with
  | error e => rfl
  | ok handle =>
      dsimp only
      cases locate s.schema key (s.disk.read handle) with
      | error e => rfl
      | ok place =>
          cases place with
          | line offset length =>
              dsimp only
              cases s.edit handle offset length [] <;> rfl
          | ending offset needsTerminator => rfl

/-- An upsert is answered by a store that has forgotten as by the store itself, and does the same
    to the file. -/
theorem upsert_forget (s : FileStore) (r : Record) :
    (s.forget.upsert r).2 = (s.upsert r).2 ∧
      (s.forget.upsert r).1.forget = (s.upsert r).1.forget := by
  have hcheck : s.forget.checkRecord r = s.checkRecord r := rfl
  simp only [upsert, hcheck, store_forget, bind, Except.bind]
  cases r.hasData with
  | false => exact ⟨rfl, rfl⟩
  | true =>
      cases s.checkRecord r with
      | error e => exact ⟨rfl, rfl⟩
      | ok u => cases s.store r <;> exact ⟨rfl, rfl⟩

/-- A search for a key that a coherent store remembers ends at a line. -/
theorem Coherent.stored_of_contains (h : s.Coherent) {key : String} (ne : key ≠ "")
    (remembered : s.written.contains key = true) {s' : FileStore} {stored : Bool}
    (removed : s.remove key = .ok (s', stored)) : stored = true := by
  obtain ⟨r, hr⟩ := Option.isSome_iff_exists.mp remembered
  rcases Option.eq_none_or_eq_some s.connection with hc | ⟨c, hc⟩
  · rw [h.forgotten hc] at hr
    exact nomatch hr
  have hh : s.handle = .ok c.handle := by rw [handle, hc]
  obtain ⟨before, line, after, cut, passed, read, hit⟩ :=
    exists_line_of_firstRecord? (h.indexed c hc key r hr (.inl ne))
  simp only [remove, hh, bind, Except.bind, locate_found cut passed read hit] at removed
  split at removed
  · cases removed
  · cases removed
    rfl

/-- A deletion looks at what is remembered, but a coherent store remembers nothing that the file
    has not; so its answer too comes from the file alone. -/
theorem delete_forget (h : s.Coherent) (key : String) :
    (s.forget.delete key).2 = (s.delete key).2 ∧
      (s.forget.delete key).1.forget = (s.delete key).1.forget := by
  by_cases ne : key = ""
  · rw [ne]
    exact ⟨rfl, rfl⟩
  have hne : ¬ key.isEmpty := by simpa using ne
  rw [delete, delete, if_neg hne, if_neg hne]
  -- both search the same file: what is erased from what is remembered makes no difference
  have hleft : ({ s.forget with written := s.forget.written.erase key } : FileStore).remove key
      = (s.remove key).map fun (s', stored) => (s'.forget, stored) := remove_forget s key
  have hright : (({ s with written := s.written.erase key } : FileStore).remove key).map
      (fun (s', stored) => (s'.forget, stored))
        = (s.remove key).map fun (s', stored) => (s'.forget, stored) :=
    (remove_forget _ key).symm.trans (remove_forget s key)
  simp only [hleft]
  generalize ({ s with written := s.written.erase key } : FileStore).remove key = right at hright ⊢
  cases hs : s.remove key with
  | error e =>
      rw [hs] at hright
      cases right with
      | error e' =>
          cases hright
          exact ⟨rfl, rfl⟩
      | ok x => cases hright
  | ok x =>
      obtain ⟨s', stored⟩ := x
      rw [hs] at hright
      cases right with
      | error e' => cases hright
      | ok y =>
          obtain ⟨s'', stored'⟩ := y
          obtain ⟨hforget, rfl⟩ := Prod.mk.inj (Except.ok.inj hright)
          refine ⟨congrArg Except.ok ?_, hforget.symm⟩
          show (false || stored') = (s.written.contains key || stored')
          cases hk : s.written.contains key with
          | false => rfl
          | true => rw [h.stored_of_contains ne hk hs]; rfl

/-- A lasting call on a coherent store is answered as if nothing were remembered, and does the
    same to the file. -/
theorem call_forget (h : s.Coherent) {c : Call} (lasting : c.Lasting) :
    (Store.call s.forget c).2 = (Store.call s c).2 ∧
      (Store.call s.forget c).1.forget = (Store.call s c).1.forget := by
  cases c with
  | connect path | disconnect | find key => exact lasting.elim
  | upsert r | create r | update r =>
      obtain ⟨reply, after⟩ := upsert_forget s r
      exact ⟨congrArg Reply.done reply, after⟩
  | delete key =>
      obtain ⟨reply, after⟩ := delete_forget h key
      exact ⟨congrArg Reply.deleted reply, after⟩
  | isConnected | records | count | query text | flush => exact ⟨rfl, rfl⟩

/-! ## Runs -/

/-- A lasting call leaves a store on its file. -/
theorem onFile_call (h : s.OnFile path name) {c : Call} (lasting : c.Lasting) :
    (Store.call s c).1.OnFile path name := by
  have replaced {contents : Bytes} {c : Connection} {disk : Disk}
      (hc : s.connection = some c) (hr : s.disk.replace contents c.handle = .ok disk)
      (w : Keyed Record) : ({ s with disk := disk, written := w } : FileStore).OnFile path name := by
    cases h.connected.symm.trans hc
    exact ⟨h.connected, Disk.attach_replace h.reopened hr⟩
  have hput (r : Record) : (s.upsert r).1.OnFile path name := by
    have outcome := upsert_outcome s r
    generalize s.upsert r = o at outcome ⊢
    cases outcome with
    | ignored | refused | disconnected | unreadable | unwritable => exact h
    | written _ _ hc _ hr => exact replaced hc hr _
  cases c with
  | connect path | disconnect | find key => exact lasting.elim
  | upsert r | create r | update r => exact hput r
  | delete key =>
      show (s.delete key).1.OnFile path name
      have outcome := delete_outcome s key
      generalize s.delete key = o at outcome ⊢
      cases outcome with
      | noKey => exact h
      | disconnected | unreadable | absent => exact ⟨h.connected, h.reopened⟩
      | removed _ hc _ hr => exact replaced hc hr _
  | isConnected | records | count | query text | flush => exact h

/-- Two stores that are told apart by what they remember only, and remember nothing that the file
    has not. -/
structure Alike (path name : String) (s t : FileStore) : Prop where
  left : s.Coherent
  right : t.Coherent
  onFile : s.OnFile path name
  same : s.forget = t.forget

/-- A lasting call on such stores is answered alike, and they stay such stores. -/
theorem call_alike {t : FileStore} (h : Alike path name s t) {c : Call} (lasting : c.Lasting) :
    (Store.call s c).2 = (Store.call t c).2 ∧ (Store.call s c).1.disk = (Store.call t c).1.disk ∧
      Alike path name (Store.call s c).1 (Store.call t c).1 := by
  obtain ⟨replyS, afterS⟩ := call_forget h.left lasting
  obtain ⟨replyT, afterT⟩ := call_forget h.right lasting
  rw [h.same] at replyS afterS
  have same : (Store.call s c).1.forget = (Store.call t c).1.forget := afterS.symm.trans afterT
  have disk : (Store.call s c).1.disk = (Store.call t c).1.disk := congrArg (fun s => s.disk) same
  exact ⟨replyS.symm.trans replyT, disk, coherent_call h.left c, coherent_call h.right c,
    onFile_call h.onFile lasting, same⟩

/-- A run with interruptions gives what the run of its calls gives on any store alike. -/
theorem trace_congr {t : FileStore} (h : Alike path name s t) {events : List Event}
    (lasting : ∀ c ∈ callsOf events, c.Lasting) :
    trace path s events = trace path t ((callsOf events).map .call) := by
  induction events generalizing s t with
  | nil => rfl
  | cons event events ih =>
      -- an interruption leads to the store that has forgotten, which is alike
      have forgotten : Alike path name s.forget t :=
        ⟨coherent_forget s, h.right, ⟨h.onFile.connected, h.onFile.reopened⟩, h.same⟩
      cases event with
      | call c =>
          obtain ⟨hc, hrest⟩ := List.forall_mem_cons.mp lasting
          obtain ⟨reply, disk, after⟩ := call_alike h hc
          show (_, _) :: _ = (_, _) :: _
          rw [reply, disk, ih after hrest]
          rfl
      | reconnect =>
          rw [trace, reconnect_eq_forget h.onFile]
          exact ih forgotten lasting
      | reopen =>
          rw [trace, reopen_eq_forget h.onFile]
          exact ih forgotten lasting

/-- **Interruptions do not matter to what lasts.**  Let a path lead to a regular file, whatever
    that holds, or to where one can be made.  However a run of lasting calls on the store connected
    to it is interrupted, by disconnecting the store and connecting it to the path again or by
    replacing it by a new one, every call gives what it gives without the interruptions, and the
    disk after it is the same. -/
theorem trace_eq_trace_calls {schema : Schema} {disk disk₀ : Disk}
    (opened : disk.attach path = .ok (.file name, disk₀)) (events : List Event)
    (lasting : ∀ c ∈ callsOf events, c.Lasting) :
    trace path ((new schema disk).connect path).1 events
      = trace path ((new schema disk).connect path).1 ((callsOf events).map .call) := by
  have coherent := coherent_connect (coherent_new schema disk) path
  have onFile : ((new schema disk).connect path).1.OnFile path name := by
    simp only [connect, new, opened]
    exact ⟨rfl, Disk.attach_attach opened⟩
  exact trace_congr ⟨coherent, coherent, onFile, rfl⟩ lasting

/-- A file of a view and a line that is no text. -/
def spoiledEnd : Disk := ⟨[("views", encode "box|film|none\n" ++ [0xFF])], []⟩

/-- A view is put into a file that ends in a line that is no text, the store is replaced, and the
    view is deleted: the answers and the disks are those of the run without the replacement. -/
theorem trace_reopened :
    trace "views" ((new .mediaViews spoiledEnd).connect "views").1
        [.call (.upsert (.parse .mediaViews "box|film|one")), .reopen,
          .call (.delete "boxfilm"), .reconnect, .call .records]
      = trace "views" ((new .mediaViews spoiledEnd).connect "views").1
        [.call (.upsert (.parse .mediaViews "box|film|one")), .call (.delete "boxfilm"),
          .call .records] := by
  have opened : spoiledEnd.attach "views" = .ok (.file "views", spoiledEnd) := by rfl
  refine trace_eq_trace_calls opened _ fun c hc => ?_
  have hcalls : c ∈ [Call.upsert (.parse .mediaViews "box|film|one"), .delete "boxfilm",
      .records] := hc
  simp only [List.mem_cons, List.not_mem_nil, or_false] at hcalls
  rcases hcalls with rfl | rfl | rfl <;> exact trivial

end FileStore

end RecordStore

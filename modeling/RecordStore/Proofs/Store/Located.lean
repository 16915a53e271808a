import RecordStore.Proofs.Sequence
import RecordStore.Proofs.Store.Refinement

/-! # A search finds what a reading gives

    Before a change the file is searched for the line with a key, and whoever asks for the records
    reads it from its beginning.  The search counts the bytes that it goes past, and stops; the
    reading passes over lines without data, and goes on.  They agree on every contents: the search
    stops at the line of the first record with the key that the reading gives, at the first line
    that is no text, or at the end of the file, whichever comes first.  The route:

    * `LineAt`: a line and the bytes around it, which are cut into the same lines as before, so
      that `LineAt.stream_eq` tells what is read before the line, from the line and behind it;
    * `Lacks` and `passed_iff_lacks`: a search goes past lines exactly when reading them gives
      neither an error nor a record with the key;
    * `FirstGiven.locate`, `FirstFault.locate`, `Lacks.locate`: the place that is found, each time
      told by what a reading gives;
    * `located`: there is no other way for a search to end;
    * `locate_iff_stream`: so each way is taken exactly when the reading says so. -/

namespace RecordStore

open RecordStore.Text

variable {schema : Schema} {key : String} {contents front line back : Bytes} {r : Record}

/-! ## A line and the bytes around it -/

/-- One of the lines of a file, with the bytes before it and those behind it. -/
structure LineAt (contents front line back : Bytes) : Prop where
  whole : contents = front ++ line ++ back
  cut : lines contents = lines front ++ line :: lines back

/-- A line among the lines stands behind the bytes of those before it. -/
theorem lineAt_of_cut {before after : List Bytes} (cut : lines contents = before ++ line :: after) :
    LineAt contents before.flatten line after.flatten where
  whole := eq_around_line cut
  cut := by
    obtain ⟨hbefore, hafter⟩ := lines_around_line cut
    rw [hbefore, hafter, cut]

/-- Reading a file gives what the bytes before a line give, what the line gives, and what the bytes
    behind it give. -/
theorem LineAt.stream_eq (h : LineAt contents front line back) (schema : Schema) :
    stream schema contents
      = stream schema front
        ++ ((seen? (Line.record schema line)).toList ++ stream schema back) := by
  simp only [RecordStore.stream_eq, readings, h.cut, List.map_append, List.map_cons,
    List.filterMap_append]
  cases hseen : seen? (Line.record schema line) with
  | none =>
      rw [List.filterMap_cons_none hseen]
      rfl
  | some entry =>
      rw [List.filterMap_cons_some hseen]
      rfl

/-- What a stream gives is what its lines give. -/
theorem mem_stream_iff {entry : Reading} : entry ∈ stream schema contents ↔
    ∃ l ∈ lines contents, seen? (Line.record schema l) = some entry := by
  simp [stream_eq, readings]

/-! ## What a search goes past -/

/-- Neither an error nor a record with the key. -/
def Lacks (key : String) (entries : List Reading) : Prop :=
  ∀ entry ∈ entries, ∃ r, entry = .ok r ∧ r.key ≠ key

/-- A search goes past a line that gives nothing, or a record without the key. -/
theorem passes_iff_seen {x : Reading} :
    Passes key x ↔ ∀ entry, seen? x = some entry → ∃ r, entry = .ok r ∧ r.key ≠ key := by
  cases x with
  | error e =>
      refine iff_of_false ?_ fun h => ?_
      · rintro ⟨r, ⟨⟩, -⟩
      · obtain ⟨r, hr, -⟩ := h (.error e) rfl
        exact nomatch hr
  | ok r =>
      cases data : r.hasData with
      | false =>
          have hnone : seen? (.ok r) = none := if_neg (by rw [data]; exact Bool.false_ne_true)
          rw [hnone]
          exact iff_of_true ⟨r, rfl, fun hit => nomatch data.symm.trans hit.1⟩ fun _ h => nomatch h
      | true =>
          rw [seen?_of_hasData data]
          constructor
          · rintro ⟨_, ⟨⟩, miss⟩ _ ⟨⟩
            exact ⟨r, rfl, fun same => miss ⟨data, same⟩⟩
          · intro h
            obtain ⟨_, ⟨⟩, ne⟩ := h (.ok r) rfl
            exact ⟨r, rfl, fun hit => ne hit.2⟩

/-- A search goes past all lines of a file exactly when reading it gives neither an error nor a
    record with the key. -/
theorem passed_iff_lacks : (∀ l ∈ lines contents, Passes key (Line.record schema l)) ↔
    Lacks key (stream schema contents) := by
  simp only [passes_iff_seen, Lacks, mem_stream_iff]
  constructor
  · rintro h entry ⟨l, hl, hentry⟩
    exact h l hl entry hentry
  · intro h l hl entry hentry
    exact h entry ⟨l, hl, hentry⟩

/-- A line cannot be read when it is no text, and for no other reason. -/
theorem Line.record_eq_error_iff {e : StoreError} :
    Line.record schema line = .error e ↔
      e = .readFailed .notText ∧ ∃ fault, decode line = .error fault := by
  rw [Line.record]
  cases decode line with
  | ok text => simp
  | error fault => simp [eq_comm]

/-- Reading gives an error exactly when there is a line that is no text. -/
theorem legible_iff : Legible contents ↔ ∀ e, .error e ∉ stream schema contents := by
  constructor
  · intro legible e mem
    obtain ⟨l, hl, hseen⟩ := mem_stream_iff.mp mem
    obtain ⟨text, htext⟩ := legible l hl
    rw [Line.record, htext] at hseen
    by_cases data : (Record.parse schema (trimLineEnd text)).hasData = true
    · cases (seen?_of_hasData data).symm.trans hseen
    · cases (if_neg data : seen? (.ok _) = none).symm.trans hseen
  · intro h l hl
    cases htext : decode l with
    | ok text => exact ⟨text, rfl⟩
    | error fault =>
        have hread : Line.record schema l = .error (.readFailed .notText) :=
          Line.record_eq_error_iff.mpr ⟨rfl, fault, htext⟩
        exact absurd (mem_stream_iff.mpr ⟨l, hl, by rw [hread]; rfl⟩) (h _)

/-- A stream lacks a key when there is no fault in it and no record with the key. -/
theorem lacks_iff_legible : Lacks key (stream schema contents) ↔
    Legible contents ∧ ∀ x, .ok x ∈ stream schema contents → x.key ≠ key := by
  rw [legible_iff]
  constructor
  · intro lacks
    constructor
    · intro e mem
      obtain ⟨x, hx, -⟩ := lacks _ mem
      exact nomatch hx
    · intro x mem
      obtain ⟨_, ⟨⟩, ne⟩ := lacks _ mem
      exact ne
  · rintro ⟨noError, other⟩ entry mem
    cases entry with
    | error e => exact absurd mem (noError e)
    | ok x => exact ⟨x, rfl, other x mem⟩

/-! ## How a search ends -/

/-- The first record with the key that reading gives, and the line that it was read from: the
    entries before it, no error among them, come from the bytes before the line. -/
structure FirstGiven (schema : Schema) (key : String) (contents front line back : Bytes)
    (r : Record) : Prop where
  place : LineAt contents front line back
  read : Line.record schema line = .ok r
  hit : r.HasKey key
  given : stream schema contents = stream schema front ++ .ok r :: stream schema back
  first : Lacks key (stream schema front)

/-- The first line that is no text, and no record with the key before it. -/
structure FirstFault (schema : Schema) (key : String) (contents front line back : Bytes) :
    Prop where
  place : LineAt contents front line back
  fault : ∃ fault, decode line = .error fault
  legible : Legible front
  missing : ∀ x, .ok x ∈ stream schema front → x.key ≠ key

/-- The first record with the key is located at its line. -/
theorem FirstGiven.locate (h : FirstGiven schema key contents front line back r) :
    locate schema key contents = .ok (.line front.length line.length) := by
  have hfront := locate_found h.place.cut (passed_iff_lacks.mpr h.first) h.read h.hit
  rwa [flatten_lines] at hfront

/-- A fault before any such record is what the search ends with. -/
theorem FirstFault.locate (h : FirstFault schema key contents front line back) :
    locate schema key contents = .error (.readFailed .notText) := by
  have lacks : Lacks key (stream schema front) := lacks_iff_legible.mpr ⟨h.legible, h.missing⟩
  exact locate_unreadable h.place.cut (passed_iff_lacks.mpr lacks)
    (Line.record_eq_error_iff.mpr ⟨rfl, h.fault⟩)

/-- Without either the search ends behind everything. -/
theorem Lacks.locate (h : Lacks key (stream schema contents)) :
    locate schema key contents = .ok (.ending contents.length (!isTerminated contents)) :=
  locate_absent (passed_iff_lacks.mpr h)

/-- What a search can give. -/
inductive Located (schema : Schema) (key : String) (contents : Bytes) :
    Except StoreError Place → Prop where
  | line {front line back : Bytes} {r : Record}
      (given : FirstGiven schema key contents front line back r) :
      Located schema key contents (.ok (.line front.length line.length))
  | unreadable {front line back : Bytes} (fault : FirstFault schema key contents front line back) :
      Located schema key contents (.error (.readFailed .notText))
  | ending (lacks : Lacks key (stream schema contents)) :
      Located schema key contents (.ok (.ending contents.length (!isTerminated contents)))

/-- The search ends in one of the three ways. -/
theorem located (schema : Schema) (key : String) (contents : Bytes) :
    Located schema key contents (locate schema key contents) := by
  have lacks_front {before after : List Bytes} {line : Bytes}
      (cut : lines contents = before ++ line :: after)
      (passed : ∀ l ∈ before, Passes key (Line.record schema l)) :
      Lacks key (stream schema before.flatten) := by
    rw [← passed_iff_lacks, (lines_around_line cut).1]
    exact passed
  cases search schema key (lines contents) with
  | @found before after line r cut passed read hit =>
      have place := lineAt_of_cut cut
      have given : FirstGiven schema key contents before.flatten line after.flatten r := by
        refine ⟨place, read, hit, ?_, lacks_front cut passed⟩
        rw [place.stream_eq, read, seen?_of_hasData hit.1]
        rfl
      rw [given.locate]
      exact .line given
  | absent passed =>
      have lacks := passed_iff_lacks.mp passed
      rw [lacks.locate]
      exact .ending lacks
  | @unreadable before after line e cut passed failed =>
      obtain ⟨legible, missing⟩ := lacks_iff_legible.mp (lacks_front cut passed)
      have fault : FirstFault schema key contents before.flatten line after.flatten :=
        ⟨lineAt_of_cut cut, (Line.record_eq_error_iff.mp failed).2, legible, missing⟩
      rw [fault.locate]
      exact .unreadable fault

/-- A record with no error before it comes before every error. -/
private theorem mem_of_append_error {e : StoreError} {front rest others after : List Reading}
    (h : front ++ .error e :: rest = others ++ .ok r :: after) (succeed : Succeed others) :
    .ok r ∈ front := by
  rcases List.append_eq_append_iff.mp h with ⟨more, rfl, hrest⟩ | ⟨more, rfl, hrest⟩
  · cases more with
    | nil => exact nomatch hrest
    | cons entry more =>
        obtain ⟨rfl, -⟩ := List.cons.inj hrest
        obtain ⟨x, hx⟩ := succeed (.error e) (List.mem_append_right _ List.mem_cons_self)
        exact nomatch hx
  · cases more with
    | nil => exact nomatch hrest
    | cons entry more =>
        obtain ⟨rfl, -⟩ := List.cons.inj hrest
        exact List.mem_append_right _ List.mem_cons_self

/-- A search finds a line exactly when reading gives a record with the key before its first
    error. -/
theorem exists_line_iff :
    (∃ offset length, locate schema key contents = .ok (.line offset length)) ↔
      ∃ others x rest, stream schema contents = others ++ .ok x :: rest ∧ Succeed others ∧
        x.key = key := by
  have outcome := located schema key contents
  generalize locate schema key contents = result at outcome
  cases outcome with
  | @line front line back r given =>
      refine iff_of_true ⟨_, _, rfl⟩ ⟨_, r, _, given.given, fun entry mem => ?_, given.hit.2⟩
      exact (given.first entry mem).imp fun _ h => h.1
  | @unreadable front line back fault =>
      refine iff_of_false ?_ ?_
      · rintro ⟨offset, length, ⟨⟩⟩
      · rintro ⟨others, x, rest, hstream, succeed, hx⟩
        have hread : Line.record schema line = .error (.readFailed .notText) :=
          Line.record_eq_error_iff.mpr ⟨rfl, fault.fault⟩
        rw [fault.place.stream_eq, hread] at hstream
        exact fault.missing x (mem_of_append_error hstream succeed) hx
  | ending lacks =>
      refine iff_of_false ?_ ?_
      · rintro ⟨offset, length, ⟨⟩⟩
      · rintro ⟨others, x, rest, hstream, -, hx⟩
        refine (lacks_iff_legible.mp lacks).2 x ?_ hx
        rw [hstream]
        exact List.mem_append_right _ List.mem_cons_self

/-- **The search and the reading agree.**  On every contents and for every key, the search gives a
    line exactly when reading gives a record with the key before its first error, and then it is
    the place of the line that the first such record was read from: so many bytes stand before it,
    and so many, its end included, are the line.  It fails exactly when there is a line that is no
    text and no record with the key comes before the first of these.  Otherwise it gives the end of
    the file, and whether a line feed is missing there. -/
theorem locate_iff_stream (schema : Schema) (key : String) (contents : Bytes) :
    ((∃ offset length, locate schema key contents = .ok (.line offset length)) ↔
      ∃ others x rest, stream schema contents = others ++ .ok x :: rest ∧ Succeed others ∧
        x.key = key) ∧
    (∀ offset length, locate schema key contents = .ok (.line offset length) ↔
      ∃ front line back x, FirstGiven schema key contents front line back x ∧
        offset = front.length ∧ length = line.length) ∧
    (∀ e, locate schema key contents = .error e ↔
      e = .readFailed .notText ∧
        ∃ front line back, FirstFault schema key contents front line back) ∧
    ∀ offset needsTerminator,
      locate schema key contents = .ok (.ending offset needsTerminator) ↔
        (Legible contents ∧ ∀ x, .ok x ∈ stream schema contents → x.key ≠ key) ∧
        offset = contents.length ∧
        (needsTerminator = true ↔ contents ≠ [] ∧ contents.getLast? ≠ some lineFeed) := by
  have outcome := located schema key contents
  refine ⟨exists_line_iff, fun offset length => ⟨fun h => ?_, ?_⟩, fun e => ⟨fun h => ?_, ?_⟩,
    fun offset needsTerminator => ⟨fun h => ?_, ?_⟩⟩
  · rw [h] at outcome
    cases outcome with
    | line given => exact ⟨_, _, _, _, given, rfl, rfl⟩
  · rintro ⟨front, line, back, x, given, rfl, rfl⟩
    exact given.locate
  · rw [h] at outcome
    cases outcome with
    | unreadable fault => exact ⟨rfl, _, _, _, fault⟩
  · rintro ⟨rfl, front, line, back, fault⟩
    exact fault.locate
  · rw [h] at outcome
    cases outcome with
    | ending lacks => exact ⟨lacks_iff_legible.mp lacks, rfl, lacksLineFeed_iff⟩
  · rintro ⟨missing, rfl, needs⟩
    rw [(lacks_iff_legible.mpr missing).locate,
      Bool.eq_iff_iff.mpr (needs.trans lacksLineFeed_iff.symm)]

/-- Bytes are counted, not characters: a blank line, a line with a letter of two bytes and two
    carriage returns at its end, and a line that is not terminated. -/
example : locate .mediaViews "é1" (encode "\r\né|1\r\r\nb|2") = .ok (.line 2 7) ∧
    locate .mediaViews "é2" (encode "\r\né|1\r\r\nb|2") = .ok (.ending 12 true) := by
  decide +kernel

end RecordStore

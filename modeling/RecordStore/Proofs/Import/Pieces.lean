import Mathlib.Data.List.Basic
import RecordStore.Import
import RecordStore.Proofs.Record.Fits

/-! # The lines of an import

    What an import makes of one line, and what it makes of all of them. -/

namespace RecordStore

open RecordStore.Text

/-! ## Imported records are stored as they were judged

    An imported line becomes a record, and the record becomes a line of a file.  The two lines need
    not be the same: the one that is written has a value for every field and one line feed at its
    end.  But the written line is as good as the imported one: it is judged to be the very record
    again.  So the lines that an import writes can be imported.  The route:

    * `prefix_toLine_parse`: the line of a record begins with the text that the record was read
      from, so it is not blank where the text is not;
    * `judge_eq_accept_iff`: what a line has to be for being accepted, and as which record;
    * `Settled`: the records that are judged to be what they are, and `settled_of_judge`: a line is
      accepted as no other;
    * `Settled.judge`: the line of a settled record is accepted as the record. -/

section Judge

/-! ### The line begins with the text -/

namespace Text

/-- More pieces behind some make a text that begins with what these make. -/
private theorem prefix_intercalate (sep : List Char) (piece : List Char)
    (pieces more : List (List Char)) :
    sep.intercalate (piece :: pieces) <+: sep.intercalate (piece :: (pieces ++ more)) := by
  induction pieces generalizing piece with
  | nil =>
      cases more with
      | nil => exact List.prefix_rfl
      | cons next more =>
          rw [List.nil_append, List.intercalate_singleton, List.intercalate_cons_cons,
            List.append_assoc]
          exact List.prefix_append ..
  | cons next pieces ih =>
      rw [List.cons_append, List.intercalate_cons_cons, List.intercalate_cons_cons]
      exact (List.prefix_append_right_inj _).mpr (ih next)

end Text

namespace Record

/-- The line of a record begins with the text that the record was read from. -/
theorem prefix_toLine_parse {schema : Schema} {text : String}
    (few : (split delimiter text).length ≤ schema.width) :
    text.toList <+: (parse schema text).toLine.toList := by
  obtain ⟨piece, pieces, hpieces⟩ :=
    List.exists_cons_of_ne_nil (splitChars_ne_nil delimiter text.toList)
  have hparts : (split delimiter text).map String.toList = piece :: pieces := by
    rw [split, List.map_map, ← hpieces]
    simp [Function.comp_def]
  rw [toLine, values_parse, fill_eq_append, List.take_of_length_le few, String.toList_intercalate,
    String.toList_singleton, List.map_append, hparts, List.cons_append]
  have hbegins := prefix_intercalate [delimiter] piece pieces
    ((List.replicate (schema.width - (split delimiter text).length) "").map String.toList)
  rwa [← hpieces, splitChars_eq_splitOn, List.intercalate_splitOn] at hbegins

end Record

/-! ### Settled records -/

/-- A record that a line of a file can be judged to be: it has a value for each field of the schema
    and they all fit, it is read as it is written, and its line is not blank. -/
structure Settled (schema : Schema) (r : Record) : Prop where
  schema_eq : r.schema = schema
  stored : r.stored = r
  fits : r.Fits
  visible : isBlankText r.toLine = false

namespace Settled

variable {schema : Schema} {r : Record}

/-- The line of a settled record is not empty, since it is not blank. -/
theorem toLine_ne_empty (h : Settled schema r) : r.toLine ≠ "" := by
  intro he
  have hvisible := h.visible
  rw [he] at hvisible
  exact nomatch hvisible

theorem hasData (h : Settled schema r) : r.hasData = true := by
  rw [← h.stored]
  rfl

theorem parse_toLine (h : Settled schema r) : Record.parse schema r.toLine = r := by
  rw [← h.schema_eq, Record.parse_toLine h.fits.storable h.toLine_ne_empty, h.stored]

end Settled

/-! ### The judgement -/

variable {schema : Schema} {line : Bytes} {r : Record}

/-- **A line is accepted exactly when it passes all checks**, and then as the record of its text. -/
theorem judge_eq_accept_iff : judge schema line = .accept r ↔ ∃ text, importedText line = .ok text ∧
    isBlankText text = false ∧ (split delimiter text).length ≤ schema.width ∧
    Record.parse schema text = r ∧ r.check schema = .ok () := by
  rw [judge]
  cases importedText line with
  | error fault =>
      refine iff_of_false ?_ ?_
      · rintro ⟨⟩
      · rintro ⟨text, ⟨⟩, -⟩
  | ok text =>
      have same {P : String → Prop} :
          (∃ t, (.ok text : Except Malformed String) = .ok t ∧ P t) ↔ P text :=
        ⟨fun ⟨_, h, hp⟩ => Except.ok.inj h ▸ hp, fun hp => ⟨text, rfl, hp⟩⟩
      rw [same]
      dsimp only
      by_cases hblank : isBlankText text = true
      · rw [if_pos hblank]
        refine iff_of_false ?_ fun h => absurd (hblank.symm.trans h.1) (by simp)
        rintro ⟨⟩
      by_cases hmany : schema.width < (split delimiter text).length
      · rw [if_neg hblank, if_pos hmany]
        refine iff_of_false ?_ fun h => absurd h.2.1 (Nat.not_le_of_lt hmany)
        rintro ⟨⟩
      rw [if_neg hblank, if_neg hmany, and_iff_right (Bool.eq_false_iff.mpr hblank),
        and_iff_right (Nat.le_of_not_lt hmany)]
      cases hcheck : (Record.parse schema text).check schema with
      | error e =>
          refine iff_of_false ?_ ?_
          · rintro ⟨⟩
          · rintro ⟨rfl, h⟩
            cases hcheck.symm.trans h
      | ok u =>
          constructor
          · rintro ⟨⟩
            exact ⟨rfl, hcheck⟩
          · rintro ⟨rfl, -⟩
            rfl

/-- A line is accepted as a settled record. -/
theorem settled_of_judge (h : judge schema line = .accept r) : Settled schema r := by
  obtain ⟨text, -, visible, few, rfl, valid⟩ := judge_eq_accept_iff.mp h
  have ne : text ≠ "" := by
    rintro rfl
    exact nomatch visible
  have hempty : ¬ text.isEmpty := by simpa using ne
  have hschema : (Record.parse schema text).schema = schema := Record.schema_parse ..
  refine ⟨hschema, ?_, (Record.check_eq_ok_iff hschema).mp valid, ?_⟩
  · rw [Record.parse, if_neg hempty]
    rfl
  · -- the character of the text that is not white space is one of the line as well
    have hbegins := Record.prefix_toLine_parse few
    refine Bool.eq_false_iff.mpr fun hline => Bool.eq_false_iff.mp visible ?_
    exact List.all_eq_true.mpr fun c hc => List.all_eq_true.mp hline c (hbegins.subset hc)

/-- The text of a line that was written without carriage returns. -/
private theorem importedText_encode {s : String} (free : ∀ c ∈ s.toList, c ≠ '\r') :
    importedText (encode s ++ [lineFeed]) = .ok s := by
  have hdrop : dropEndWhile (fun c => c == '\r') s.toList = s.toList := by
    rcases List.eq_nil_or_concat s.toList with hs | ⟨cs, c, hs⟩
    · rw [hs]
      rfl
    · rw [hs, List.concat_eq_append]
      refine dropEndWhile_append_of_neg cs ?_
      have hc := free c (by rw [hs]; simp)
      simpa using hc
  have hchomp : chomp (encode s ++ [lineFeed]) = encode s := by
    rw [chomp, List.getLast?_concat, if_pos rfl, List.dropLast_concat]
  rw [importedText, hchomp, decode_encode]
  show Except.ok (String.ofList _) = _
  rw [hdrop, String.ofList_toList]

/-- **The line of a settled record is accepted as the record.** -/
theorem Settled.judge (h : Settled schema r) :
    RecordStore.judge schema r.storedLine = .accept r := by
  have storable := h.fits.storable
  have htext : importedText r.storedLine = .ok r.toLine :=
    importedText_encode fun c hc => (Record.noBreak_toLine storable c hc).2
  have hcount : (split delimiter r.toLine).length = schema.width := by
    rw [Record.toLine, split_intercalate r.values_ne_nil fun v hv hd =>
      (storable v hv delimiter hd).1 rfl, r.length_values, h.schema_eq]
  have hcheck : r.check schema = .ok () := (Record.check_eq_ok_iff h.schema_eq).mpr h.fits
  exact judge_eq_accept_iff.mpr ⟨_, htext, h.visible, Nat.le_of_eq hcount, h.parse_toLine, hcheck⟩

end Judge

/-! ## The pieces between line feeds

    An import takes a text by its lines, and a line keeps its line feed.  Who speaks of a text by
    what stands between its line feeds means the same: the pieces are the lines without their ends,
    and behind a line feed at the end there is one more, which is empty and is passed over.  What
    becomes of a piece is told here from its bytes.  The route:

    * `pieces`, and `Cut.pieces`: they are the lines without their ends;
    * `isCounted`, `isRejected`, `accepted?`: what a piece is, and `judgement`: what the import
      makes of it;
    * `acceptedRecords_lines`, `skippedCount_lines`, `countP_isCounted`: the lines of a text, told
      by its pieces. -/

section Pieces

/-! ### Pieces and lines -/

/-- What stands before, between and behind the line feeds of a text. -/
def pieces (data : Bytes) : List Bytes := data.splitOn lineFeed

namespace Text

theorem chomp_of_notMem {line : Bytes} (free : lineFeed ∉ line) : chomp line = line := by
  have hlast : line.getLast? ≠ some lineFeed := fun h => free (List.mem_of_getLast? h)
  rw [chomp, if_neg hlast]

@[simp] theorem chomp_append_lineFeed (body : Bytes) : chomp (body ++ [lineFeed]) = body := by
  rw [chomp, List.getLast?_concat, if_pos rfl, List.dropLast_concat]

/-- The pieces of a file are its lines without their ends, and perhaps an empty one. -/
theorem Cut.pieces {ls : List Bytes} (h : Cut ls) :
    (∀ piece ∈ RecordStore.pieces ls.flatten, lineFeed ∉ piece) ∧
      ∃ more, RecordStore.pieces ls.flatten = ls.map chomp ++ more ∧
        ∀ piece ∈ more, piece = [] := by
  induction h with
  | nil =>
      have hpieces : RecordStore.pieces [] = [[]] := List.splitOn_nil _
      rw [List.flatten_nil, hpieces]
      exact ⟨by simp, [[]], rfl, by simp⟩
  | @unterminated line ne free =>
      have hpieces : RecordStore.pieces line = [line] := List.splitOn_eq_singleton free
      rw [List.flatten_singleton, hpieces]
      exact ⟨by simpa using free, [], by simp [chomp_of_notMem free], by simp⟩
  | @cons line rest done _ ih =>
      obtain ⟨body, free, rfl⟩ := done
      obtain ⟨frees, more, hmore, hempty⟩ := ih
      have hpieces : RecordStore.pieces (body ++ [lineFeed] ++ rest.flatten)
          = body :: RecordStore.pieces rest.flatten := by
        rw [List.append_assoc]
        exact List.splitOn_append_cons_self_of_not_mem free _
      rw [List.flatten_cons, hpieces]
      refine ⟨List.forall_mem_cons.mpr ⟨free, frees⟩, more, ?_, hempty⟩
      rw [List.map_cons, chomp_append_lineFeed, hmore, List.cons_append]

end Text

theorem notMem_of_mem_pieces {data piece : Bytes} (h : piece ∈ pieces data) :
    lineFeed ∉ piece := by
  have hfree := (cut_lines data).pieces.1
  rw [flatten_lines] at hfree
  exact hfree piece h

/-! ### What a piece is -/

/-- A piece that is no text, or has a character that is not white space. -/
def isCounted (piece : Bytes) : Bool :=
  match decode piece with
  | .error _ => true
  | .ok text => text.toList.any fun c => !isBlank c

/-- A piece that is no text, or one that is not all white space and, without the carriage returns
    at its end, has too many parts or a value that does not fit its field. -/
def isRejected (schema : Schema) (piece : Bytes) : Bool :=
  match importedText piece with
  | .error _ => true
  | .ok text => !isBlankText text && (schema.width < (split delimiter text).length ||
      !((Record.parse schema text).check schema).isOk)

/-- The record of a piece that is neither passed over nor rejected. -/
def accepted? (schema : Schema) (piece : Bytes) : Option Record :=
  match importedText piece with
  | .error _ => none
  | .ok text =>
    if isBlankText text || isRejected schema piece then none else some (.parse schema text)

/-- The records of the pieces of a text that are neither passed over nor rejected, in order. -/
def recordsOf (schema : Schema) (data : Bytes) : List Record :=
  (pieces data).filterMap (accepted? schema)

variable {schema : Schema} {piece : Bytes}

/-- Carriage returns are white space, so a text is as blank without those at its end. -/
private theorem isBlankText_dropReturns (text : String) :
    isBlankText (String.ofList (dropEndWhile (fun c => c == '\r') text.toList))
      = isBlankText text := by
  have hreturns : (text.toList.reverse.takeWhile fun c => c == '\r').reverse.all isBlank := by
    refine List.all_eq_true.mpr fun c hc => ?_
    have hreturn : (c == '\r') = true :=
      List.all_eq_true.mp List.all_takeWhile c (List.mem_reverse.mp hc)
    rw [beq_iff_eq.mp hreturn]
    rfl
  have hsplit := dropEndWhile_append_takeWhile (fun c => c == '\r') text.toList
  calc isBlankText (String.ofList (dropEndWhile (fun c => c == '\r') text.toList))
    _ = (dropEndWhile (fun c => c == '\r') text.toList).all isBlank := by
        rw [isBlankText, String.toList_ofList]
    _ = (dropEndWhile (fun c => c == '\r') text.toList
          ++ (text.toList.reverse.takeWhile fun c => c == '\r').reverse).all isBlank := by
        rw [List.all_append, hreturns, Bool.and_true]
    _ = isBlankText text := by rw [hsplit, isBlankText]

/-- A piece is counted unless its text is blank. -/
theorem isCounted_eq (free : lineFeed ∉ piece) : isCounted piece = match importedText piece with
    | .error _ => true
    | .ok text => !isBlankText text := by
  rw [isCounted, importedText, chomp_of_notMem free]
  cases decode piece with
  | error fault => rfl
  | ok text =>
      show _ = !isBlankText (String.ofList _)
      rw [isBlankText_dropReturns, isBlankText, List.not_all_eq_any_not]

/-- What an import makes of a piece, by what the piece is. -/
inductive Judgement (schema : Schema) (piece : Bytes) : Verdict → Prop where
  | passOver (counted : isCounted piece = false) (rejected : isRejected schema piece = false)
      (accepted : accepted? schema piece = none) : Judgement schema piece .passOver
  | skip {reason : SkipReason} (counted : isCounted piece = true)
      (rejected : isRejected schema piece = true) (accepted : accepted? schema piece = none) :
      Judgement schema piece (.skip reason)
  | accept {r : Record} (counted : isCounted piece = true)
      (rejected : isRejected schema piece = false) (accepted : accepted? schema piece = some r) :
      Judgement schema piece (.accept r)

/-- **Each piece is passed over, skipped or accepted, by what it is.** -/
theorem judgement (schema : Schema) (free : lineFeed ∉ piece) :
    Judgement schema piece (judge schema piece) := by
  have hcounted := isCounted_eq free
  rw [judge]
  cases htext : importedText piece with
  | error fault =>
      rw [htext] at hcounted
      exact .skip hcounted (by rw [isRejected, htext]) (by rw [accepted?, htext])
  | ok text =>
      rw [htext] at hcounted
      have hrejected : isRejected schema piece = (!isBlankText text &&
          (schema.width < (split delimiter text).length ||
            !((Record.parse schema text).check schema).isOk)) := by
        rw [isRejected, htext]
      have haccepted : accepted? schema piece = if isBlankText text || isRejected schema piece
          then none else some (.parse schema text) := by
        rw [accepted?, htext]
      dsimp only at hcounted ⊢
      cases hblank : isBlankText text with
      | true =>
          rw [hblank] at hcounted hrejected haccepted
          exact .passOver hcounted hrejected haccepted
      | false =>
          rw [hblank] at hcounted hrejected haccepted
          by_cases hmany : schema.width < (split delimiter text).length
          · rw [decide_eq_true hmany] at hrejected
            rw [hrejected] at haccepted
            rw [if_neg Bool.false_ne_true, if_pos hmany]
            exact .skip hcounted hrejected haccepted
          · rw [decide_eq_false hmany] at hrejected
            rw [if_neg Bool.false_ne_true, if_neg hmany]
            cases hcheck : (Record.parse schema text).check schema with
            | error e =>
                rw [hcheck] at hrejected
                rw [hrejected] at haccepted
                exact .skip hcounted hrejected haccepted
            | ok u =>
                rw [hcheck] at hrejected
                rw [hrejected] at haccepted
                exact .accept hcounted hrejected haccepted

/-! ### The lines of a text, told by its pieces -/

/-- The record of a line that is accepted. -/
def Verdict.record? : Verdict → Option Record
  | .accept r => some r
  | .passOver | .skip _ => none

/-- Whether a line is skipped. -/
def Verdict.isSkip : Verdict → Bool
  | .skip _ => true
  | .passOver | .accept _ => false

theorem Verdict.record?_eq_some_iff {verdict : Verdict} {r : Record} :
    verdict.record? = some r ↔ verdict = .accept r := by
  cases verdict <;> simp [record?]

theorem Verdict.isSkip_iff {verdict : Verdict} :
    verdict.isSkip = true ↔ ∃ reason, verdict = .skip reason := by
  cases verdict <;> simp [isSkip]

/-- The record of a piece is the one it is accepted as. -/
theorem record?_judge (free : lineFeed ∉ piece) :
    (judge schema piece).record? = accepted? schema piece := by
  have h := judgement schema free
  generalize judge schema piece = verdict at h ⊢
  cases h with
  | passOver _ _ accepted | skip _ _ accepted | accept _ _ accepted => exact accepted.symm

/-- A piece is skipped exactly when it is rejected. -/
theorem isSkip_judge (free : lineFeed ∉ piece) :
    (judge schema piece).isSkip = isRejected schema piece := by
  have h := judgement schema free
  generalize judge schema piece = verdict at h ⊢
  cases h with
  | passOver _ rejected _ | skip _ rejected _ | accept _ rejected _ => exact rejected.symm

/-- The end of a line does not matter to its judgement. -/
theorem judge_chomp {line : Bytes} (free : lineFeed ∉ chomp line) :
    judge schema (chomp line) = judge schema line := by
  rw [judge, judge, importedText, importedText, chomp_of_notMem free]

/-- What an import makes of the pieces of a text is what it makes of the lines. -/
private theorem map_judge_pieces (schema : Schema) (data : Bytes) :
    ∃ more, (pieces data).map (judge schema) = (lines data).map (judge schema) ++ more ∧
      ∀ verdict ∈ more, verdict = .passOver := by
  obtain ⟨frees, more, hmore, hempty⟩ := (cut_lines data).pieces
  rw [flatten_lines] at frees hmore
  refine ⟨more.map (judge schema), ?_, ?_⟩
  · have hlines :
        ((lines data).map chomp).map (judge schema) = (lines data).map (judge schema) := by
      rw [List.map_map]
      refine List.map_congr_left fun line hline => judge_chomp (frees _ ?_)
      rw [hmore]
      exact List.mem_append_left _ (List.mem_map_of_mem hline)
    rw [hmore, List.map_append, hlines]
  · intro verdict hverdict
    obtain ⟨piece, hpiece, rfl⟩ := List.mem_map.mp hverdict
    rw [hempty piece hpiece]
    rfl

/-- The records that lines are accepted as. -/
def acceptedRecords (schema : Schema) (ls : List Bytes) : List Record :=
  ls.filterMap fun line => (judge schema line).record?

/-- The number of lines that are skipped. -/
def skippedCount (schema : Schema) (ls : List Bytes) : Nat :=
  ls.countP fun line => (judge schema line).isSkip

/-- The records that the lines of a text are accepted as, told by its pieces. -/
theorem acceptedRecords_lines (schema : Schema) (data : Bytes) :
    acceptedRecords schema (lines data) = recordsOf schema data := by
  obtain ⟨more, hmore, hpass⟩ := map_judge_pieces schema data
  have hnone : more.filterMap Verdict.record? = [] :=
    List.filterMap_eq_nil_iff.mpr fun verdict hverdict => by rw [hpass verdict hverdict]; rfl
  calc acceptedRecords schema (lines data)
    _ = ((lines data).map (judge schema) ++ more).filterMap Verdict.record? := by
        rw [List.filterMap_append, hnone, List.append_nil, List.filterMap_map]
        rfl
    _ = (pieces data).filterMap fun piece => (judge schema piece).record? := by
        rw [← hmore, List.filterMap_map]
        rfl
    _ = recordsOf schema data :=
        List.filterMap_congr fun piece hpiece => record?_judge (notMem_of_mem_pieces hpiece)

/-- What is accepted is settled. -/
theorem settled_of_mem_recordsOf {data : Bytes} {r : Record} (h : r ∈ recordsOf schema data) :
    Settled schema r := by
  rw [← acceptedRecords_lines] at h
  obtain ⟨line, -, hline⟩ := List.mem_filterMap.mp h
  exact settled_of_judge (Verdict.record?_eq_some_iff.mp hline)

/-- The number of lines of a text that are skipped, told by its pieces. -/
theorem skippedCount_lines (schema : Schema) (data : Bytes) :
    skippedCount schema (lines data) = (pieces data).countP (isRejected schema) := by
  obtain ⟨more, hmore, hpass⟩ := map_judge_pieces schema data
  have hnone : more.countP Verdict.isSkip = 0 :=
    List.countP_eq_zero.mpr fun verdict hverdict => by rw [hpass verdict hverdict]; exact nofun
  calc skippedCount schema (lines data)
    _ = ((lines data).map (judge schema) ++ more).countP Verdict.isSkip := by
        rw [List.countP_append, hnone, Nat.add_zero, List.countP_map]
        rfl
    _ = (pieces data).countP fun piece => (judge schema piece).isSkip := by
        rw [← hmore, List.countP_map]
        rfl
    _ = (pieces data).countP (isRejected schema) :=
        List.countP_congr fun piece hpiece => by rw [isSkip_judge (notMem_of_mem_pieces hpiece)]

/-- A piece that counts is either accepted or rejected. -/
theorem countP_isCounted (schema : Schema) {ps : List Bytes}
    (free : ∀ piece ∈ ps, lineFeed ∉ piece) : ps.countP isCounted
      = (ps.filterMap (accepted? schema)).length + ps.countP (isRejected schema) := by
  induction ps with
  | nil => rfl
  | cons piece ps ih =>
      obtain ⟨hpiece, hps⟩ := List.forall_mem_cons.mp free
      have hrec := ih hps
      have h := judgement schema hpiece
      generalize judge schema piece = verdict at h
      rw [List.countP_cons, List.countP_cons, hrec]
      cases h with
      | passOver counted rejected accepted =>
          rw [List.filterMap_cons_none accepted, counted, rejected]
          rfl
      | skip counted rejected accepted =>
          rw [List.filterMap_cons_none accepted, counted, rejected]
          rfl
      | accept counted rejected accepted =>
          rw [List.filterMap_cons_some accepted, List.length_cons, counted, rejected,
            Nat.add_right_comm]
          rfl

end Pieces

end RecordStore

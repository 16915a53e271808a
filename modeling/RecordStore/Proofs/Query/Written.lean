import RecordStore.Proofs.Filter.Written
import RecordStore.Proofs.Query.Checked
import RecordStore.Query.Text

/-! # Queries and their texts

    A query is written as segments, and each segment as a command letter and an argument.  Both are
    read as they were written. -/

namespace RecordStore.Query.Segment

/-! ## Segments and their text

    Segments that are written one after the other, with gaps of any length between the words, are
    the segments that are read.  What could go wrong is that a value ends too early or too late.
    A value goes on through what stands between its double quotes, and it has to be seen that no
    gap outside of them is followed by a dash or by nothing: this is what `Passed` says.  The
    route:

    * `Passed`: texts that a value goes on through, and how filters are made of such;
    * `one?_spelled`: one segment is read up to the gap behind it;
    * `more?_gap`, `more?_segment`: what is read there;
    * `ofChars?_spelled`: all segments, by induction on how they are spelled. -/

open RecordStore.Text

/-- A run of spaces and tabs. -/
def Gap (cs : List Char) : Prop := ∀ c ∈ cs, isGap c = true

instance (cs : List Char) : Decidable (Gap cs) :=
  decidable_of_iff (cs.all isGap = true) List.all_eq_true

theorem isBlank_of_isGap {c : Char} (h : isGap c = true) : isBlank c = true := by
  rw [isGap, Bool.or_eq_true, beq_iff_eq, beq_iff_eq] at h
  rcases h with rfl | rfl <;> decide

theorem isGap_of_isBlank {c : Char} (h : isBlank c = false) : isGap c = false :=
  Bool.eq_false_iff.mpr fun hgap => nomatch h.symm.trans (isBlank_of_isGap hgap)

theorem isAlpha_of_isGap {c : Char} (h : isGap c = true) : c.isAlpha = false := by
  rw [isGap, Bool.or_eq_true, beq_iff_eq, beq_iff_eq] at h
  rcases h with rfl | rfl <;> decide

theorem beginsCommand_of_ne {c : Char} (h : c ≠ '-') (cs : List Char) :
    beginsCommand (c :: cs) = false := by
  rw [beginsCommand.eq_def]
  split
  · next e => exact absurd (List.cons.inj e).1 h
  · rfl

/-! ### What a value goes on through -/

/-- A text that a value goes on through, whatever follows it. -/
def Passed (cs : List Char) : Prop :=
  ∀ tail, scanValue false (cs ++ tail) = (cs ++ (scanValue false tail).1, (scanValue false tail).2)

theorem Passed.append {cs ds : List Char} (h : Passed cs) (h' : Passed ds) :
    Passed (cs ++ ds) := by
  intro tail
  rw [List.append_assoc, h, h', List.append_assoc]

/-- Outside of quoted spans, a value goes on through a character at which it does not end. -/
theorem scanValue_cons {c : Char} {cs : List Char} (unquoted : c ≠ '"')
    (goes : endsValue (c :: cs) = false) :
    scanValue false (c :: cs) = (c :: (scanValue false cs).1, (scanValue false cs).2) := by
  rw [scanValue, if_neg (by decide), goes, beq_eq_false_iff_ne.mpr unquoted]
  rfl

/-- From within quotes a value goes on to the closing one. -/
private theorem scanValue_quoted {inner : List Char} (closed : '"' ∉ inner) (rest : List Char) :
    scanValue true (inner ++ '"' :: rest)
      = (inner ++ '"' :: (scanValue false rest).1, (scanValue false rest).2) := by
  induction inner with
  | nil => rfl
  | cons c inner ih =>
      obtain ⟨hc, hinner⟩ := not_or.mp (mt List.mem_cons.mpr closed)
      rw [List.cons_append, scanValue, if_pos rfl, bne_iff_ne.mpr (Ne.symm hc), ih hinner]
      rfl

/-- A value goes on through a text without gaps outside of quotes. -/
theorem passed_of_spans {cs : List Char} (h : Spans (isGap · = false) cs) : Passed cs := by
  intro tail
  induction h with
  | nil => rfl
  | plain unquoted hc _ ih =>
      rw [List.cons_append, scanValue_cons unquoted (by rw [endsValue, hc]; rfl), ih]
      rfl
  | @quoted inner cs closed _ ih =>
      have hclose : (inner ++ '"' :: (cs ++ tail)).contains '"' = true := by simp
      rw [List.cons_append, List.append_assoc, List.cons_append, scanValue, if_neg (by decide),
        hclose, if_neg (show ¬ endsValue ('"' :: _) = true from Bool.false_ne_true)]
      show ('"' :: (scanValue true _).1, (scanValue true _).2) = _
      rw [scanValue_quoted closed, ih]
      simp only [List.cons_append, List.append_assoc]

/-- A space is passed when what follows it is there and begins no command. -/
theorem passed_space {c : Char} {cs : List Char} (hdash : c ≠ '-') (hgap : isGap c = false)
    (h : Passed (c :: cs)) : Passed (' ' :: c :: cs) := by
  intro tail
  have goes : endsValue (' ' :: c :: (cs ++ tail)) = false := by
    rw [endsValue, List.dropWhile_cons_of_neg (by simp [hgap]), beginsCommand_of_ne hdash,
      List.all_cons, hgap]
    rfl
  rw [List.cons_append, List.cons_append, scanValue_cons (by decide) goes, ← List.cons_append, h]
  rfl

/-- A value goes on through a connective, since no command follows it. -/
theorem passed_connective (k : Filter.Connective) {c : Char} {cs : List Char} (hdash : c ≠ '-')
    (hgap : isGap c = false) (h : Passed (c :: cs)) : Passed (k.chars ++ c :: cs) := by
  have word {w : List Char} (hw : ∀ c ∈ w, c ≠ '"' ∧ isGap c = false) :
      Passed (w ++ ' ' :: c :: cs) :=
    (passed_of_spans (.of_forall hw)).append (passed_space hdash hgap h)
  cases k with
  | and => exact passed_space (by decide) (by decide) (@word ['A', 'N', 'D'] (by simp [isGap]))
  | or => exact passed_space (by decide) (by decide) (@word ['O', 'R'] (by simp [isGap]))

/-- A value goes on through the text of a filter, by induction on its joins. -/
theorem passed_chars {f : Filter} (h : f.Writable) : Passed f.chars := by
  have comparison {field value : String} (name : SafeName field) (literal : '"' ∉ value.toList) :
      Passed (Filter.comparisonChars field value) :=
    passed_of_spans ((Filter.spans_comparisonChars name.plainName literal).mono fun _ h =>
      isGap_of_isBlank h.1)
  have plain {c : Char} (unquoted : c ≠ '"') (hgap : isGap c = false) : Passed [c] :=
    passed_of_spans (.plain unquoted hgap .nil)
  induction f using Filter.joined_induction with
  | equals field value =>
      exact comparison (h.names _ List.mem_cons_self) (h.values _ List.mem_cons_self)
  | join k left right ihl ihr =>
      obtain ⟨hl, hr⟩ := h.join
      obtain ⟨c, cs, hcs, hdash, hblank⟩ := Filter.exists_head_chars hr
      have hright : Passed (k.chars ++ right.chars) :=
        hcs ▸ passed_connective k hdash (isGap_of_isBlank hblank) (hcs ▸ ihr hr)
      rw [Filter.chars_join]
      refine Passed.append ?_ hright
      cases left with
      | equals field value => exact ihl hl
      | and | or =>
          exact (plain (by decide) (by decide)).append
            ((ihl hl).append (plain (by decide) (by decide)))

/-! ### How segments are spelled -/

/-- A segment that can be read: its key is a word, and its value begins with no dash and no gap and
    is passed. -/
structure Readable (segment : Segment) : Prop where
  key : segment.key ≠ "" ∧ ∀ c ∈ segment.key.toList, c.isAlpha = true
  starts : ∃ c cs, segment.value.toList = c :: cs ∧ c ≠ '-' ∧ isGap c = false
  passed : Passed segment.value.toList

/-- A segment with a gap between its key and its value. -/
def chars (segment : Segment) (gap : List Char) : List Char :=
  '-' :: (segment.key.toList ++ (gap ++ segment.value.toList))

/-- The texts of one or more segments: all gaps are runs of spaces and tabs, and there is none only
    behind the last segment. -/
inductive Spelled : List Segment → List Char → Prop where
  | last {segment : Segment} {gap after : List Char} (between : Gap gap) (apart : gap ≠ [])
      (trailing : Gap after) : Spelled [segment] (segment.chars gap ++ after)
  | more {segment : Segment} {gap after : List Char} {segments : List Segment} {text : List Char}
      (between : Gap gap) (apart : gap ≠ []) (following : Gap after) (set : after ≠ [])
      (rest : Spelled segments text) :
      Spelled (segment :: segments) (segment.chars gap ++ (after ++ text))

variable {segment : Segment} {segments : List Segment} {gap cs text rest : List Char}

theorem dropWhile_gap (h : Gap gap) {c : Char} (hc : isGap c = false) (cs : List Char) :
    (gap ++ c :: cs).dropWhile isGap = c :: cs := by
  rw [List.dropWhile_append_of_pos h, List.dropWhile_cons_of_neg (by simp [hc])]

/-- Spelled segments begin like a command. -/
theorem Spelled.begins (h : Spelled segments text) (readable : ∀ s ∈ segments, s.Readable) :
    ∃ cs, text = '-' :: cs ∧ beginsCommand text = true := by
  have begins {s : Segment} (hs : s.Readable) (gap after : List Char) :
      ∃ cs, s.chars gap ++ after = '-' :: cs ∧ beginsCommand (s.chars gap ++ after) = true := by
    obtain ⟨c, key, hkey⟩ : ∃ c key, s.key.toList = c :: key :=
      List.exists_cons_of_ne_nil fun e => hs.key.1 (String.toList_eq_nil_iff.mp e)
    have hc := hs.key.2 c (hkey ▸ List.mem_cons_self)
    rw [chars, hkey]
    exact ⟨_, rfl, hc⟩
  cases h with
  | last => exact begins (readable _ List.mem_cons_self) _ _
  | more => exact begins (readable _ List.mem_cons_self) _ _

/-- A value ends where only a gap is left. -/
theorem endsValue_gap (h : Gap cs) : endsValue cs = true := by
  cases cs with
  | nil => rfl
  | cons c cs =>
      obtain ⟨hc, hcs⟩ := List.forall_mem_cons.mp h
      rw [endsValue, hc, List.all_eq_true.mpr hcs, Bool.or_true]
      rfl

/-- A value ends before a gap with a command behind it. -/
theorem endsValue_command (h : Gap gap) (apart : gap ≠ []) (begins : beginsCommand ('-' :: cs)) :
    endsValue (gap ++ '-' :: cs) = true := by
  obtain ⟨c, gap, rfl⟩ := List.exists_cons_of_ne_nil apart
  obtain ⟨hc, hgap⟩ := List.forall_mem_cons.mp h
  rw [List.cons_append, endsValue, hc, dropWhile_gap hgap (by decide), begins]
  rfl

/-! ### Reading -/

/-- A segment is read up to where its value ends. -/
theorem one?_chars (h : segment.Readable) (between : Gap gap) (apart : gap ≠ [])
    (ends : endsValue rest = true) : one? (segment.chars gap ++ rest) = some (segment, rest) := by
  obtain ⟨⟨hkey, halpha⟩, ⟨c, value, hvalue, hdash, hgap⟩, passed⟩ := h
  have hstop : scanValue false rest = ([], rest) := by
    cases rest with
    | nil => rfl
    | cons d rest => rw [scanValue, if_neg (by decide), ends, if_pos rfl]
  -- the key ends where the gap begins, and the gap where the value begins
  have hword : ∀ cs, (segment.key.toList ++ (gap ++ cs)).takeWhile Char.isAlpha
        = segment.key.toList ∧
      (segment.key.toList ++ (gap ++ cs)).dropWhile Char.isAlpha = gap ++ cs := by
    intro cs
    obtain ⟨d, gap, rfl⟩ := List.exists_cons_of_ne_nil apart
    have hd : ¬ d.isAlpha = true := by simp [isAlpha_of_isGap (between d List.mem_cons_self)]
    rw [List.takeWhile_append_of_pos halpha, List.dropWhile_append_of_pos halpha,
      List.cons_append, List.takeWhile_cons_of_neg hd, List.dropWhile_cons_of_neg hd,
      List.append_nil]
    exact ⟨rfl, rfl⟩
  have hread : value? (segment.value.toList ++ rest) = some (segment.value.toList, rest) := by
    have hscan := passed rest
    rw [hstop, List.append_nil] at hscan
    rw [value?, hscan, hvalue, List.cons_append, beginsCommand_of_ne hdash]
    rfl
  have hafter : (gap ++ (segment.value.toList ++ rest)).dropWhile isGap
      = segment.value.toList ++ rest := by
    rw [hvalue, List.cons_append]
    exact dropWhile_gap between hgap _
  have hshorter : (segment.value.toList ++ rest).length
      < (gap ++ (segment.value.toList ++ rest)).length := by
    rw [@List.length_append _ gap]
    exact Nat.lt_add_of_pos_left (List.length_pos_iff.mpr apart)
  have hsome : segment.key.toList.isEmpty = false :=
    List.isEmpty_eq_false_iff.mpr fun e => hkey (String.toList_eq_nil_iff.mp e)
  rw [chars, List.cons_append, List.append_assoc, List.append_assoc, one?]
  simp only [hword, hafter, if_pos hshorter, hread, hsome, String.ofList_toList]
  rfl

/-- Nothing is read from a gap. -/
theorem more?_gap (h : Gap cs) : more? cs = some [] := by
  have hdrop : (cs ++ []).dropWhile isGap = [] := List.dropWhile_append_of_pos h
  rw [List.append_nil] at hdrop
  rw [more?.eq_def]
  split
  · next segment rest e =>
    have hnone : one? [] = none := rfl
    rw [hdrop, hnone, ite_self] at e
    cases e
  · rw [if_pos (List.all_eq_true.mpr h)]

/-- Behind a gap a segment is read, and then what follows it. -/
theorem more?_segment (following : Gap gap) (set : gap ≠ [])
    (read : one? ('-' :: cs) = some (segment, rest)) :
    more? (gap ++ '-' :: cs) = (more? rest).map (segment :: ·) := by
  have hdrop : (gap ++ '-' :: cs).dropWhile isGap = '-' :: cs := dropWhile_gap following rfl cs
  have hshorter : ('-' :: cs).length < (gap ++ '-' :: cs).length := by
    rw [List.length_append]
    exact Nat.lt_add_of_pos_left (List.length_pos_iff.mpr set)
  rw [more?.eq_def]
  split
  · next e =>
    rw [hdrop, if_pos hshorter, read] at e
    obtain ⟨rfl, rfl⟩ := Prod.mk.inj (Option.some.inj e)
    rfl
  · next e =>
    rw [hdrop, if_pos hshorter, read] at e
    cases e

/-- The first of spelled segments is read, and what is left is read as the others. -/
private theorem one?_spelled (h : Spelled segments text)
    (readable : ∀ s ∈ segments, s.Readable) :
    ∃ first others rest, segments = first :: others ∧ one? text = some (first, rest) ∧
      more? rest = some others := by
  -- behind a segment stands a gap, with nothing after it or with the next segment
  induction h with
  | last between apart trailing =>
      refine ⟨_, [], _, rfl, ?_, more?_gap trailing⟩
      exact one?_chars (readable _ List.mem_cons_self) between apart (endsValue_gap trailing)
  | more between apart following set rest ih =>
      obtain ⟨hfirst, hothers⟩ := List.forall_mem_cons.mp readable
      obtain ⟨cs, rfl, begins⟩ := rest.begins hothers
      obtain ⟨first, others, tail, rfl, hone, hmore⟩ := ih hothers
      refine ⟨_, _, _, rfl, one?_chars hfirst between apart
        (endsValue_command following set begins), ?_⟩
      rw [more?_segment following set hone, hmore]
      rfl

/-- Segments that are spelled, behind a gap or not, are those that are read. -/
theorem ofChars?_spelled (h : Spelled segments text) (readable : ∀ s ∈ segments, s.Readable)
    {lead : List Char} (leading : Gap lead) : ofChars? (lead ++ text) = some segments := by
  obtain ⟨first, others, rest, rfl, hone, hmore⟩ := one?_spelled h readable
  obtain ⟨cs, rfl, -⟩ := h.begins readable
  rw [ofChars?, dropWhile_gap leading rfl, hone]
  show (more? rest >>= _) = _
  rw [hmore]
  rfl

end RecordStore.Query.Segment

namespace RecordStore.Query

/-! ## A query and its text

    A query is written as its commands, each a dash, the letter of its kind and its argument, with
    gaps between the words.  Reading such a text gives these commands again, each with the text of
    its argument: nothing that a filter compares with can be taken for a command, and nothing that
    separates the commands gets into an argument.  The route:

    * `Stage.args`, `Stage.Writable`: how commands are written, and which can be;
    * `Argument`: what every written argument is like, so that neither the cutting into segments
      nor the trimming changes it;
    * `parseFields_intercalate`, `parseItems_labels`: lists of fields and of items;
    * `parseStage_args`: every argument is read as what it was written from;
    * `parse_spelled`: whole queries. -/

open RecordStore.Text

/-! ### Writing -/

/-- The text of the argument of a command. -/
def Stage.args : Stage → String
  | .select items => ",".intercalate (items.map (·.label))
  | .order fields => ",".intercalate fields
  | .group field => field
  | .filter condition => condition.written

/-- A stage that can be written: the fields have safe names, a list is not empty, no field is
    selected twice, and a filter can be written. -/
def Stage.Writable : Stage → Prop
  | .select items =>
    items ≠ [] ∧ (items.map (·.field)).Nodup ∧ ∀ item ∈ items, SafeName item.field
  | .order fields => fields ≠ [] ∧ ∀ name ∈ fields, SafeName name
  | .group field => SafeName field
  | .filter condition => condition.Writable

instance : DecidablePred Stage.Writable
  | .select items => inferInstanceAs (Decidable
      (items ≠ [] ∧ (items.map (·.field)).Nodup ∧ ∀ item ∈ items, SafeName item.field))
  | .order fields => inferInstanceAs (Decidable (fields ≠ [] ∧ ∀ name ∈ fields, SafeName name))
  | .group field => inferInstanceAs (Decidable (SafeName field))
  | .filter condition => inferInstanceAs (Decidable condition.Writable)

/-- The command of a stage, with the argument as it is written. -/
def Stage.command (stage : Stage) : Command := ⟨stage.args, stage⟩

/-- The segment of a stage: the letter of its kind and its argument. -/
def Stage.segment (stage : Stage) : Segment := ⟨stage.kind.key, stage.args⟩

/-! ### Parts of arguments -/

/-- A part of a list: without white space, quotes and commas, and beginning with no dash. -/
structure Part (s : String) : Prop where
  starts : ∃ c cs, s.toList = c :: cs ∧ c ≠ '-'
  plain : ∀ c ∈ s.toList, isBlank c = false ∧ c ≠ '"' ∧ c ≠ ','

theorem Part.of_safeName {name : String} (h : SafeName name) : Part name := by
  obtain ⟨c, cs, hcs, hdash, -⟩ := h.exists_head
  refine ⟨⟨c, cs, hcs, hdash⟩, fun d hd => ?_⟩
  obtain ⟨hblank, hmark⟩ := h.plain d hd
  exact ⟨hblank, fun e => hmark (e ▸ by decide), fun e => hmark (e ▸ by decide)⟩

theorem toList_label (field : String) (aggregate : Aggregate) :
    (SelectItem.label ⟨field, some aggregate⟩).toList
      = field.toList ++ ':' :: aggregate.key.toList := by
  rw [SelectItem.label, String.toList_append, String.toList_append, List.append_assoc]
  rfl

theorem Part.label {item : SelectItem} (h : SafeName item.field) : Part item.label := by
  obtain ⟨field, aggregate⟩ := item
  cases aggregate with
  | none => exact .of_safeName h
  | some aggregate =>
      obtain ⟨⟨c, cs, hcs, hdash⟩, plain⟩ := Part.of_safeName h
      have hword : (':' :: aggregate.key.toList).all
          (fun c => !isBlank c && c != '"' && c != ',') = true := by
        cases aggregate <;> decide
      have hkey : ∀ c ∈ ':' :: aggregate.key.toList, isBlank c = false ∧ c ≠ '"' ∧ c ≠ ',' :=
        fun c hc => by simpa [and_assoc] using List.all_eq_true.mp hword c hc
      refine ⟨⟨c, cs ++ ':' :: aggregate.key.toList, ?_, hdash⟩, ?_⟩ <;> rw [toList_label]
      · rw [hcs]
        rfl
      · exact List.forall_mem_append.mpr ⟨plain, hkey⟩

/-! ### Arguments -/

/-- What written arguments are like: they begin with no dash, neither begin nor end with white
    space, and a value goes on through them. -/
structure Argument (s : String) : Prop where
  starts : ∃ c cs, s.toList = c :: cs ∧ c ≠ '-' ∧ isBlank c = false
  ends : ∀ c ∈ s.toList.getLast?, isBlank c = false
  passed : Segment.Passed s.toList

namespace Argument

variable {s : String}

theorem trim_eq (h : Argument s) : trim s = s := by
  obtain ⟨⟨c, cs, hcs, -, hc⟩, ends, -⟩ := h
  have head : ∀ d ∈ s.toList.head?, isBlank d = false := by
    rw [hcs]
    exact fun d hd => Option.some.inj hd ▸ hc
  rw [trim, trimChars_eq_self head ends, String.ofList_toList]

theorem nonempty (h : Argument s) : s.isEmpty = false := by
  obtain ⟨c, cs, hcs, -⟩ := h.starts
  rw [Bool.eq_false_iff, ne_eq, String.isEmpty_iff]
  rintro rfl
  cases String.toList_empty.symm.trans hcs

/-- An argument can be the value of a segment. -/
theorem readable (h : Argument s) (kind : CommandKind) : Segment.Readable ⟨kind.key, s⟩ := by
  obtain ⟨⟨c, cs, hcs, hdash, hc⟩, -, passed⟩ := h
  have hkey : kind.key ≠ "" ∧ kind.key.toList.all Char.isAlpha = true := by
    cases kind <;> decide
  exact ⟨⟨hkey.1, List.all_eq_true.mp hkey.2⟩, ⟨c, cs, hcs, hdash, Segment.isGap_of_isBlank hc⟩,
    passed⟩

/-- A text without white space and quotes is an argument when it begins like one. -/
theorem of_plain (starts : ∃ c cs, s.toList = c :: cs ∧ c ≠ '-')
    (plain : ∀ c ∈ s.toList, isBlank c = false ∧ c ≠ '"') : Argument s := by
  obtain ⟨c, cs, hcs, hdash⟩ := starts
  refine ⟨⟨c, cs, hcs, hdash, (plain c (hcs ▸ List.mem_cons_self)).1⟩, ?_, ?_⟩
  · exact fun d hd => (plain d (List.mem_of_getLast? hd)).1
  · exact Segment.passed_of_spans (.of_forall fun d hd =>
      ⟨(plain d hd).2, Segment.isGap_of_isBlank (plain d hd).1⟩)

theorem of_part (h : Part s) : Argument s :=
  of_plain h.starts fun c hc => ⟨(h.plain c hc).1, (h.plain c hc).2.1⟩

/-- A filter that can be written in a query is an argument. -/
theorem of_filter {f : Filter} (h : f.Writable) : Argument f.written := by
  -- it ends with the quote that closes its last value
  have quote : f.chars.getLast? = some '"' := by
    induction f using Filter.joined_induction with
    | equals field value =>
        rw [Filter.chars, Filter.comparisonChars, ← List.cons_append, ← List.cons_append,
          ← List.append_assoc, List.getLast?_concat]
    | join k left right ihl ihr =>
        rw [Filter.chars_join, List.getLast?_append, List.getLast?_append, ihr h.join.2]
        rfl
  refine ⟨?_, ?_, ?_⟩ <;> rw [Filter.written, String.toList_ofList]
  · exact Filter.exists_head_chars h
  · rw [quote]
    exact fun d hd => Option.some.inj hd ▸ by decide
  · exact Segment.passed_chars h

end Argument

/-! ### Lists -/

variable {parts : List String}

/-- Parts with commas between them are an argument. -/
theorem Argument.intercalate (ne : parts ≠ []) (h : ∀ s ∈ parts, Part s) :
    Argument (",".intercalate parts) := by
  have hchars : (",".intercalate parts).toList = [','].intercalate (parts.map String.toList) :=
    String.toList_intercalate
  refine .of_plain ?_ ?_ <;> rw [hchars]
  · obtain ⟨first, others, rfl⟩ := List.exists_cons_of_ne_nil ne
    obtain ⟨c, cs, hcs, hdash⟩ := (h first List.mem_cons_self).starts
    rw [List.map_cons, hcs]
    cases others with
    | nil => exact ⟨c, _, List.intercalate_singleton, hdash⟩
    | cons => exact ⟨c, _, List.intercalate_cons_cons, hdash⟩
  · intro c hc
    rcases mem_intercalate hc with hc | ⟨p, hp, hc⟩
    · cases List.mem_singleton.mp hc
      decide
    · obtain ⟨s, hs, rfl⟩ := List.mem_map.mp hp
      obtain ⟨hblank, hquote, -⟩ := (h s hs).plain c hc
      exact ⟨hblank, hquote⟩

/-- Fields that are joined by commas are read one by one. -/
theorem parseFields_intercalate (kind : CommandKind) (ne : parts ≠ [])
    (h : ∀ s ∈ parts, Part s) : parseFields kind (",".intercalate parts) = .ok parts := by
  have hsplit : split ',' (",".intercalate parts) = parts :=
    split_intercalate ne fun s hs hc => ((h s hs).plain ',' hc).2.2 rfl
  have htrim : parts.map trim = parts := by
    refine (List.map_congr_left fun s hs => ?_).trans (List.map_id _)
    rw [trim, trimChars_of_forall fun c hc => ((h s hs).plain c hc).1, String.ofList_toList]
    rfl
  have hfull : parts.any String.isEmpty = false := by
    rw [List.any_eq_false]
    intro s hs hempty
    obtain ⟨c, cs, hcs, -⟩ := (h s hs).starts
    rw [String.isEmpty_iff] at hempty
    rw [hempty, String.toList_empty] at hcs
    cases hcs
  rw [parseFields, (Argument.intercalate ne h).nonempty, hsplit, htrim]
  simp only [hfull, Bool.false_eq_true, if_false]

/-! ### Items -/

/-- The label of an item is read as the item. -/
theorem parseItem_label {item : SelectItem} (h : SafeName item.field) :
    parseItem item.label = .ok item := by
  obtain ⟨field, aggregate⟩ := item
  have free : ∀ c ∈ field.toList, (c == ':') = false := by
    intro c hc
    rw [beq_eq_false_iff_ne]
    rintro rfl
    exact h.not_mem (by decide) hc
  cases aggregate with
  | none =>
      show parseItem field = _
      rw [parseItem, splitFirst?, splitAtFirst?_eq_none free]
      rfl
  | some aggregate =>
      have hkey : trim aggregate.key = aggregate.key := by
        cases aggregate <;> decide
      rw [parseItem, splitFirst?, toList_label, splitAtFirst?_append free rfl]
      simp only [Option.map_some, String.ofList_toList, hkey, Aggregate.ofKey?_key, h.trim_eq]

/-- Labels are read as their items, by induction on them, where no field is there twice. -/
theorem parseItems_labels {items earlier : List SelectItem}
    (distinct : ((earlier ++ items).map (·.field)).Nodup)
    (names : ∀ item ∈ items, SafeName item.field) :
    parseItems earlier (items.map (·.label)) = .ok (earlier ++ items) := by
  induction items generalizing earlier with
  | nil => exact congrArg Except.ok (List.append_nil earlier).symm
  | cons item items ih =>
      obtain ⟨hname, hnames⟩ := List.forall_mem_cons.mp names
      have fresh : earlier.any (·.field == item.field) = false := by
        rw [List.any_eq_false]
        intro other hother hsame
        rw [List.map_append, List.map_cons] at distinct
        exact (List.nodup_append.mp distinct).2.2 _ (List.mem_map_of_mem hother) _
          List.mem_cons_self (beq_iff_eq.mp hsame)
      rw [List.append_cons] at distinct ⊢
      rw [List.map_cons, parseItems, parseItem_label hname]
      show (if earlier.any (·.field == item.field) = true then _ else _) = _
      rw [fresh]
      exact ih distinct hnames

/-! ### Commands -/

/-- What a stage is written as is an argument. -/
theorem Stage.argument {stage : Stage} (h : stage.Writable) : Argument stage.args := by
  cases stage with
  | select items =>
      obtain ⟨ne, -, names⟩ := h
      refine .intercalate (by simpa using ne) ?_
      exact List.forall_mem_map.mpr fun item hitem => .label (names item hitem)
  | order fields => exact .intercalate h.1 fun name hname => .of_safeName (h.2 name hname)
  | group field => exact .of_part (.of_safeName h)
  | filter condition => exact .of_filter h

/-- Every argument is read as what it was written from. -/
theorem parseStage_args {stage : Stage} (h : stage.Writable) :
    parseStage stage.args stage.kind = .ok stage := by
  cases stage with
  | select items =>
      obtain ⟨ne, distinct, names⟩ := h
      have hparts : ∀ s ∈ items.map (·.label), Part s :=
        List.forall_mem_map.mpr fun item hitem => .label (names item hitem)
      show (do return Stage.select (← parseItems [] (← parseFields _ _))) = _
      rw [Stage.args, parseFields_intercalate _ (by simpa using ne) hparts]
      show (parseItems [] _ >>= _) = _
      rw [@parseItems_labels items [] distinct names]
      rfl
  | order fields =>
      show (do return Stage.order (← parseFields _ _)) = _
      rw [Stage.args, parseFields_intercalate _ h.1 fun name hname => .of_safeName (h.2 name hname)]
      rfl
  | group field =>
      have hsingle : (field.toList.any fun c => c == ',' || isBlank c) = false := by
        rw [List.any_eq_false]
        intro c hc
        obtain ⟨hblank, hmark⟩ := SafeName.plain h c hc
        rw [hblank, Bool.or_false, beq_iff_eq]
        exact fun e => hmark (e ▸ by decide)
      show (do return Stage.group (← parseGroup field)) = _
      rw [parseGroup, (Argument.of_part (.of_safeName h)).nonempty, hsingle]
      rfl
  | filter condition =>
      show (do return Stage.filter (← Filter.parse condition.written)) = _
      rw [Filter.parse_written h.expressible]
      rfl

/-- The segment of a stage is read as its command. -/
theorem parseCommand_segment {stage : Stage} (h : stage.Writable) :
    parseCommand stage.segment = .ok stage.command := by
  rw [parseCommand, Stage.segment]
  simp only [CommandKind.ofKey?_key, (Stage.argument h).trim_eq, parseStage_args h]
  rfl

/-- Segments are read as the commands of their stages, by induction on them. -/
theorem parseCommands_segments {stages : List Stage} {earlier : List Command}
    (distinct : (earlier.map Command.kind ++ stages.map Stage.kind).Nodup)
    (writable : ∀ stage ∈ stages, stage.Writable) :
    parseCommands earlier (stages.map Stage.segment)
      = .ok (earlier ++ stages.map Stage.command) := by
  induction stages generalizing earlier with
  | nil => exact congrArg Except.ok (List.append_nil earlier).symm
  | cons stage stages ih =>
      obtain ⟨hstage, hstages⟩ := List.forall_mem_cons.mp writable
      rw [List.map_cons] at distinct ⊢
      refine parseCommands_cons_eq_ok_iff.mpr
        ⟨stage.command, parseCommand_segment hstage, fun repeated => ?_, ?_⟩
      · exact (List.nodup_append.mp distinct).2.2 _ repeated _ List.mem_cons_self rfl
      · rw [List.append_cons] at distinct
        rw [List.map_cons, List.append_cons earlier stage.command (stages.map _)]
        refine ih ?_ hstages
        rw [List.map_append]
        exact distinct

/-! ### Queries -/

/-- Of stages of distinct kinds, the query selects the fields of the one that selects. -/
theorem select_ofCommands {stages : List Stage} (distinct : (stages.map Stage.kind).Nodup)
    {items : List SelectItem} :
    (ofCommands (stages.map Stage.command)).select = some items ↔ .select items ∈ stages := by
  show (stages.map Stage.command).findSome? _ = _ ↔ _
  induction stages with
  | nil => exact iff_of_false (fun h => nomatch h) (fun h => nomatch h)
  | cons stage stages ih =>
      obtain ⟨fresh, hdistinct⟩ := List.nodup_cons.mp distinct
      rw [List.map_cons, List.findSome?_cons, List.mem_cons]
      cases stage with
      | select items' =>
          -- no other stage selects anything
          have hother : .select items ∉ stages := fun h => fresh (List.mem_map.mpr ⟨_, h, rfl⟩)
          show some items' = some items ↔ _
          rw [or_iff_left hother, Option.some.injEq, Stage.select.injEq]
          exact eq_comm
      | order | group | filter =>
          refine (ih hdistinct).trans (or_iff_right ?_).symm
          exact fun h => nomatch h

/-- **Reading a query undoes writing it.**  Let stages of distinct kinds be given that can be
    written, and let a text consist of their segments, with gaps of any length between the words
    and possibly before and after them.  Then the text is read, and what is read are the commands
    of these stages, in their order and each with its argument as it was written, and the fields of
    the stage that selects. -/
theorem parse_spelled (stages : List Stage) (distinct : (stages.map Stage.kind).Nodup)
    (writable : ∀ stage ∈ stages, stage.Writable) (lead text : List Char)
    (leading : Segment.Gap lead) (spelled : Segment.Spelled (stages.map Stage.segment) text) :
    ∃ query, parse (String.ofList (lead ++ text)) = .ok query ∧
      query.commands = stages.map Stage.command ∧
      ∀ items, query.select = some items ↔ .select items ∈ stages := by
  have readable : ∀ s ∈ stages.map Stage.segment, s.Readable :=
    List.forall_mem_map.mpr fun stage hs => (Stage.argument (writable stage hs)).readable stage.kind
  have hsegments := Segment.ofChars?_spelled spelled readable leading
  have hblank : isBlankText (String.ofList (lead ++ text)) = false := by
    obtain ⟨cs, rfl, -⟩ := spelled.begins readable
    rw [isBlankText, String.toList_ofList, List.all_append, List.all_cons]
    exact Bool.and_false _
  refine ⟨_, ?_, rfl, fun items => select_ofCommands distinct⟩
  rw [parse, hblank, String.toList_ofList, hsegments]
  show (parseCommands [] (stages.map Stage.segment)).map ofCommands = _
  rw [@parseCommands_segments stages [] distinct writable]
  rfl

/-- The revenue of some titles, with values that look like the rest of a query. -/
def quotedStages : List Stage :=
  [.filter (.and (.or (.equals "title" "a -o b") (.equals "title" "c) OR (d"))
      (.equals "date" "=,\n AND -g x")),
    .select [⟨"title", none⟩, ⟨"rev", some .sum⟩], .group "title"]

/-- The stages are read from a text in which gaps stand wherever they may. -/
theorem parse_spelled_quoted :
    ∃ query,
      parse ("\t-f  (title=\"a -o b\" OR title=\"c) OR (d\") AND date=\"=,\n AND -g x\""
        ++ " \t-s title,rev:sum -g\ttitle ") = .ok query ∧
      query.commands = quotedStages.map Stage.command ∧
      query.select = some [⟨"title", none⟩, ⟨"rev", some .sum⟩] := by
  have writable : ∀ stage ∈ quotedStages, stage.Writable := by decide
  have spelled : Segment.Spelled (quotedStages.map Stage.segment) _ :=
    @Segment.Spelled.more _ [' ', ' '] [' ', '\t'] _ _
      (by decide) (by decide) (by decide) (by decide)
      (@Segment.Spelled.more _ [' '] [' '] _ _ (by decide) (by decide) (by decide) (by decide)
        (@Segment.Spelled.last _ ['\t'] [' '] (by decide) (by decide) (by decide)))
  obtain ⟨query, read, commands, select⟩ :=
    parse_spelled quotedStages (by decide) writable ['\t'] _ (by decide) spelled
  refine ⟨query, ?_, commands, (select _).mpr (by decide)⟩
  exact read

end RecordStore.Query

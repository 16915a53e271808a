import RecordStore.Filter
import RecordStore.Proofs.Text.Pieces

/-! # A filter and its text

    A filter is written with one space on either side of a connective, a left operand that is no
    comparison in parentheses, and every value between double quotes.  Reading this text gives the
    filter again, when groups do not have to nest for it.  Whatever stands in a value, the three
    searches that the reading consists of pass over it: for the connective, for the parenthesis
    and for the quote.  The route:

    * `chars`, `Writable`, `Expressible`: how filters are written, which can be written in a query,
      and which can be read from their text alone;
    * `splitConnective_of_spans`, `closeGroup?_of_spans`: two of the searches;
    * `parseComparison_chars`: one comparison;
    * `parseChain_ungrouped`, `parseChain_grouped`: the two ways to read a chain;
    * `parse_written`: all of it, by induction on the filter. -/

namespace RecordStore.Filter

open RecordStore.Text

/-! ## Writing -/

/-- A connective with the spaces around it. -/
def Connective.chars : Connective → List Char
  | .and => [' ', 'A', 'N', 'D', ' ']
  | .or => [' ', 'O', 'R', ' ']

/-- A comparison: the field, and the value between double quotes. -/
def comparisonChars (field value : String) : List Char :=
  field.toList ++ '=' :: '"' :: (value.toList ++ ['"'])

/-- Whether a filter is one comparison. -/
def isComparison : Filter → Bool
  | equals _ _ => true
  | and _ _ | or _ _ => false

/-- The text of a left operand: in parentheses, if it is compound. -/
def operandChars (left : Filter) (text : List Char) : List Char :=
  if left.isComparison then text else '(' :: (text ++ [')'])

/-- The characters of a filter. -/
def chars : Filter → List Char
  | equals field value => comparisonChars field value
  | and left right => operandChars left left.chars ++ (Connective.and.chars ++ right.chars)
  | or left right => operandChars left left.chars ++ (Connective.or.chars ++ right.chars)

/-- The text of a filter. -/
def written (f : Filter) : String := String.ofList f.chars

/-- The values that the filter compares with, from the left. -/
def values : Filter → List String
  | equals _ value => [value]
  | and left right | or left right => left.values ++ right.values

/-- All left operands in the filter, at any depth. -/
def leftOperands : Filter → List Filter
  | equals _ _ => []
  | and left right | or left right => left :: (left.leftOperands ++ right.leftOperands)

/-- A filter all left operands of which are comparisons. -/
def Chained (f : Filter) : Prop := ∀ left ∈ f.leftOperands, left.isComparison = true

/-- A filter that can be written: every left operand is a comparison or chained, the names are
    safe, and no value has a double quote in it. -/
structure Writable (f : Filter) : Prop where
  shape : ∀ left ∈ f.leftOperands, left.isComparison = true ∨ left.Chained
  names : ∀ name ∈ f.fields, SafeName name
  values : ∀ value ∈ f.values, '"' ∉ value.toList

instance (f : Filter) : Decidable f.Chained :=
  inferInstanceAs (Decidable (∀ left ∈ f.leftOperands, left.isComparison = true))

instance (f : Filter) : Decidable f.Writable :=
  decidable_of_iff ((∀ left ∈ f.leftOperands, left.isComparison = true ∨ left.Chained) ∧
      (∀ name ∈ f.fields, SafeName name) ∧ ∀ value ∈ f.values, '"' ∉ value.toList)
    ⟨fun ⟨shape, names, values⟩ => ⟨shape, names, values⟩,
      fun h => ⟨h.shape, h.names, h.values⟩⟩

/-- A filter whose text is read as the filter: like one that can be written in a query, but that the
    names need only be plain. -/
structure Expressible (f : Filter) : Prop where
  shape : ∀ left ∈ f.leftOperands, left.isComparison = true ∨ left.Chained
  names : ∀ name ∈ f.fields, PlainName name
  values : ∀ value ∈ f.values, '"' ∉ value.toList

instance (f : Filter) : Decidable f.Expressible :=
  decidable_of_iff ((∀ left ∈ f.leftOperands, left.isComparison = true ∨ left.Chained) ∧
      (∀ name ∈ f.fields, PlainName name) ∧ ∀ value ∈ f.values, '"' ∉ value.toList)
    ⟨fun ⟨shape, names, values⟩ => ⟨shape, names, values⟩,
      fun h => ⟨h.shape, h.names, h.values⟩⟩

/-! ## The two connectives alike -/

/-- Filters are comparisons, or two filters that are joined. -/
@[elab_as_elim]
theorem joined_induction {motive : Filter → Prop}
    (equals : ∀ field value, motive (.equals field value))
    (join : ∀ (k : Connective) left right, motive left → motive right →
      motive (k.join left right)) (f : Filter) : motive f := by
  induction f with
  | equals field value => exact equals field value
  | and left right ihl ihr => exact join .and left right ihl ihr
  | or left right ihl ihr => exact join .or left right ihl ihr

variable {k : Connective} {left right : Filter}

/-- A join is written as its left side, in parentheses if it is no comparison, the connective and
    its right side. -/
theorem chars_join :
    (k.join left right).chars = operandChars left left.chars ++ (k.chars ++ right.chars) := by
  cases k <;> rfl

theorem fields_join : (k.join left right).fields = left.fields ++ right.fields := by
  cases k <;> rfl

theorem values_join : (k.join left right).values = left.values ++ right.values := by
  cases k <;> rfl

/-- The left operands of a join are its left side and those of both sides. -/
theorem leftOperands_join : (k.join left right).leftOperands
    = left :: (left.leftOperands ++ right.leftOperands) := by
  cases k <;> rfl

theorem chained_of_isComparison {f : Filter} (h : f.isComparison = true) : f.Chained := by
  cases f with
  | equals field value => exact fun _ h => nomatch h
  | and | or => exact nomatch h

/-- A join is a chain if it has a comparison on its left and a chain on its right. -/
theorem chained_join :
    (k.join left right).Chained ↔ left.isComparison = true ∧ right.Chained := by
  rw [Chained, leftOperands_join, List.forall_mem_cons, List.forall_mem_append]
  refine and_congr_right fun h => ?_
  exact ⟨And.right, fun hright => ⟨chained_of_isComparison h, hright⟩⟩

theorem Expressible.join (h : (k.join left right).Expressible) :
    left.Expressible ∧ left.Chained ∧ right.Expressible := by
  obtain ⟨shape, names, values⟩ := h
  rw [leftOperands_join] at shape
  rw [fields_join] at names
  rw [values_join] at values
  obtain ⟨hleft, hoperands⟩ := List.forall_mem_cons.mp shape
  obtain ⟨shapeL, shapeR⟩ := List.forall_mem_append.mp hoperands
  obtain ⟨namesL, namesR⟩ := List.forall_mem_append.mp names
  obtain ⟨valuesL, valuesR⟩ := List.forall_mem_append.mp values
  exact ⟨⟨shapeL, namesL, valuesL⟩, hleft.elim chained_of_isComparison id,
    ⟨shapeR, namesR, valuesR⟩⟩

theorem Writable.expressible {f : Filter} (h : f.Writable) : f.Expressible :=
  ⟨h.shape, fun name hname => (h.names name hname).plainName, h.values⟩

theorem Writable.join (h : (k.join left right).Writable) : left.Writable ∧ right.Writable := by
  obtain ⟨hl, -, hr⟩ := h.expressible.join
  have names := h.names
  rw [fields_join] at names
  obtain ⟨namesL, namesR⟩ := List.forall_mem_append.mp names
  exact ⟨⟨hl.shape, namesL, hl.values⟩, ⟨hr.shape, namesR, hr.values⟩⟩

/-! ## What the texts consist of -/

/-- Outside of its quoted span, a comparison has no white space and no parenthesis. -/
theorem spans_comparisonChars {field value : String} (name : PlainName field)
    (literal : '"' ∉ value.toList) :
    Spans (fun c => isBlank c = false ∧ c ≠ '(' ∧ c ≠ ')') (comparisonChars field value) := by
  have hfield : ∀ c ∈ field.toList, c ≠ '"' ∧ isBlank c = false ∧ c ≠ '(' ∧ c ≠ ')' := by
    intro c hc
    obtain ⟨hblank, hmark⟩ := name.plain c hc
    simp only [filterMarks, List.mem_cons, not_or] at hmark
    obtain ⟨-, hopen, hclose, hquote, -⟩ := hmark
    exact ⟨hquote, hblank, hopen, hclose⟩
  refine (Spans.of_forall hfield).append ?_
  exact .plain (by decide) (by decide) (.quoted literal .nil)

/-- A comparison begins with a character that is neither blank nor the parenthesis of a group. -/
theorem exists_head_comparisonChars {field : String} (name : PlainName field) (value : String) :
    ∃ c cs, comparisonChars field value = c :: cs ∧ isBlank c = false ∧ c ≠ '(' := by
  obtain ⟨c, cs, hcs⟩ : ∃ c cs, field.toList = c :: cs :=
    List.exists_cons_of_ne_nil fun e => name.nonempty (String.toList_eq_nil_iff.mp e)
  obtain ⟨hblank, hmark⟩ := name.plain c (hcs ▸ List.mem_cons_self)
  refine ⟨c, cs ++ '=' :: '"' :: (value.toList ++ ['"']), ?_, hblank, ?_⟩
  · rw [comparisonChars, hcs]
    rfl
  · rintro rfl
    exact hmark (by decide)

/-- A filter begins with no white space. -/
theorem exists_head_of_expressible {f : Filter} (h : f.Expressible) :
    ∃ c cs, f.chars = c :: cs ∧ isBlank c = false := by
  have comparison {field : String} (name : PlainName field) (value : String) (rest : List Char) :
      ∃ c cs, comparisonChars field value ++ rest = c :: cs ∧ isBlank c = false := by
    obtain ⟨c, cs, hcs, hblank, -⟩ := exists_head_comparisonChars name value
    exact ⟨c, cs ++ rest, by rw [hcs]; rfl, hblank⟩
  induction f using joined_induction with
  | equals field value =>
      rw [chars, ← List.append_nil (comparisonChars field value)]
      exact comparison (h.names field List.mem_cons_self) value []
  | join k left right ihl ihr =>
      rw [chars_join]
      cases left with
      | equals field value =>
          exact comparison (h.join.1.names field List.mem_cons_self) value _
      | and | or => exact ⟨'(', _, rfl, by decide⟩

/-- A filter that can be written in a query does not begin with a dash either. -/
theorem exists_head_chars {f : Filter} (h : f.Writable) :
    ∃ c cs, f.chars = c :: cs ∧ c ≠ '-' ∧ isBlank c = false := by
  obtain ⟨c, cs, hcs, hblank⟩ := exists_head_of_expressible h.expressible
  refine ⟨c, cs, hcs, ?_, hblank⟩
  rintro rfl
  have comparison {field : String} (name : SafeName field) (value : String) {rest : List Char}
      (hdash : comparisonChars field value ++ rest = '-' :: cs) : False := by
    obtain ⟨d, ds, hds, hd, -⟩ := name.exists_head
    rw [comparisonChars, hds] at hdash
    exact hd (List.cons.inj hdash).1
  cases f with
  | equals field value =>
      exact comparison (h.names field List.mem_cons_self) value ((List.append_nil _).trans hcs)
  | and left right | or left right =>
      cases left with
      | equals field value => exact comparison (h.names field List.mem_cons_self) value hcs
      | and | or => exact nomatch (List.cons.inj hcs).1

/-- Outside of quoted spans, neither a comparison nor a connective closes a group. -/
theorem ungrouped_comparisonChars {field value : String} (name : PlainName field)
    (literal : '"' ∉ value.toList) : Spans (· ≠ ')') (comparisonChars field value) :=
  (spans_comparisonChars name literal).mono fun _ h => h.2.2

theorem ungrouped_connective (k : Connective) : Spans (· ≠ ')') k.chars :=
  .of_forall (by cases k <;> simp [Connective.chars])

/-- Outside of its quoted spans, a chained filter has no parenthesis. -/
theorem spans_chars {f : Filter} (h : f.Expressible) (chained : f.Chained) :
    Spans (· ≠ ')') f.chars := by
  induction f using joined_induction with
  | equals field value =>
      exact ungrouped_comparisonChars (h.names _ List.mem_cons_self)
        (h.values _ List.mem_cons_self)
  | join k left right ihl ihr =>
      obtain ⟨hl, -, hr⟩ := h.join
      obtain ⟨hleft, hright⟩ := chained_join.mp chained
      rw [chars_join, operandChars, if_pos hleft]
      exact (ihl hl (chained_of_isComparison hleft)).append
        ((ungrouped_connective k).append (ihr hr hright))

/-! ## Searches -/

private theorem connective?_of_ne {c : Char} (h : c ≠ ' ') (cs : List Char) :
    connective? (c :: cs) = none := by
  rw [connective?.eq_def]
  split
  · next e => exact absurd (List.cons.inj e).1 h
  · next e => exact absurd (List.cons.inj e).1 h
  · rfl

/-- From within quotes the search for a connective goes on to the closing one. -/
private theorem splitConnective_quoted {inner : List Char} (closed : '"' ∉ inner)
    (rest : List Char) :
    splitConnective true (inner ++ '"' :: rest)
      = (inner ++ '"' :: (splitConnective false rest).1, (splitConnective false rest).2) := by
  induction inner with
  | nil => rfl
  | cons c inner ih =>
      obtain ⟨hc, hinner⟩ := not_or.mp (mt List.mem_cons.mpr closed)
      rw [List.cons_append, splitConnective, if_neg (Ne.symm hc), ih hinner]
      rfl

/-- The search for a connective passes over quoted spans and what is no space. -/
theorem splitConnective_of_spans {cs : List Char} (h : Spans (· ≠ ' ') cs) (rest : List Char) :
    splitConnective false (cs ++ rest)
      = (cs ++ (splitConnective false rest).1, (splitConnective false rest).2) := by
  induction h with
  | nil => rfl
  | plain unquoted hc _ ih =>
      rw [List.cons_append, splitConnective, if_neg unquoted, ih]
      simp only [Bool.false_eq_true, if_false, connective?_of_ne hc, List.cons_append]
  | quoted closed _ ih =>
      rw [List.cons_append, List.append_assoc, List.cons_append, splitConnective, if_pos rfl,
        Bool.not_false, splitConnective_quoted closed, ih]
      simp only [List.cons_append, List.append_assoc]

theorem splitConnective_chars (k : Connective) (rest : List Char) :
    splitConnective false (k.chars ++ rest) = ([], some (k, rest)) := by
  cases k <;> rfl

/-- From within quotes the search for the end of a group goes on to the closing one. -/
private theorem closeGroup?_quoted {inner : List Char} (closed : '"' ∉ inner)
    (rest : List Char) :
    closeGroup? true (inner ++ '"' :: rest)
      = (closeGroup? false rest).map fun (group, after) => (inner ++ '"' :: group, after) := by
  induction inner with
  | nil => rfl
  | cons c inner ih =>
      obtain ⟨hc, hinner⟩ := not_or.mp (mt List.mem_cons.mpr closed)
      rw [List.cons_append, closeGroup?, if_neg (fun h => h.2 rfl), if_neg (Ne.symm hc),
        ih hinner, Option.map_map]
      rfl

/-- The search for the end of a group passes over quoted spans and what does not end it. -/
theorem closeGroup?_of_spans {cs : List Char} (h : Spans (· ≠ ')') cs) (rest : List Char) :
    closeGroup? false (cs ++ rest)
      = (closeGroup? false rest).map fun (group, after) => (cs ++ group, after) := by
  induction h with
  | nil =>
      rw [List.nil_append]
      cases closeGroup? false rest <;> rfl
  | plain unquoted hc _ ih =>
      rw [List.cons_append, closeGroup?, if_neg (fun h => hc h.1), if_neg unquoted, ih,
        Option.map_map]
      rfl
  | quoted closed _ ih =>
      rw [List.cons_append, List.append_assoc, List.cons_append, closeGroup?,
        if_neg (by decide), if_pos rfl, Bool.not_false, closeGroup?_quoted closed, ih,
        Option.map_map, Option.map_map]
      simp [Function.comp_def]

/-! ## Comparisons -/

theorem literal?_quoted {value : List Char} (closed : '"' ∉ value) :
    literal? ('"' :: (value ++ ['"'])) = some value := by
  rw [literal?, splitAtFirst?_append]
  · exact fun c hc => beq_eq_false_iff_ne.mpr fun e => closed (e ▸ hc)
  · rfl

/-- A comparison is read as it was written. -/
theorem parseComparison_chars {field value : String} (name : PlainName field)
    (literal : '"' ∉ value.toList) :
    parseComparison (comparisonChars field value) = .ok (.equals field value) := by
  have hsplit : splitAtFirst? (· == '=') (comparisonChars field value)
      = some (field.toList, '"' :: (value.toList ++ ['"'])) := by
    refine splitAtFirst?_append (fun c hc => beq_eq_false_iff_ne.mpr ?_) rfl _
    rintro rfl
    exact (name.plain _ hc).2 (by decide)
  have hfield : trimChars field.toList = field.toList :=
    trimChars_of_forall fun c hc => (name.plain c hc).1
  have hvalue : trimChars ('"' :: (value.toList ++ ['"'])) = '"' :: (value.toList ++ ['"']) := by
    refine trimChars_eq_self (fun c hc => Option.some.inj hc ▸ by decide) ?_
    rw [← List.cons_append, List.getLast?_concat]
    exact fun c hc => Option.some.inj hc ▸ by decide
  have hnonempty : field.toList.isEmpty = false :=
    List.isEmpty_eq_false_iff.mpr fun e => name.nonempty (String.toList_eq_nil_iff.mp e)
  simp only [parseComparison, hsplit, hfield, hvalue, hnonempty, literal?_quoted literal,
    Bool.false_eq_true, if_false, String.ofList_toList]

/-! ## Chains -/

/-- A text without a group in front is a comparison up to the first connective, and what follows
    that. -/
theorem parseChain_ungrouped {c : Char} {cs : List Char} (hblank : isBlank c = false)
    (hopen : c ≠ '(') :
    parseChain (c :: cs) = (do
      let comparison ← parseComparison (splitConnective false (c :: cs)).1
      match (splitConnective false (c :: cs)).2 with
      | none => return comparison
      | some (k, after) => return k.join comparison (← parseChain after)) := by
  have hdrop : (c :: cs).dropWhile isBlank = c :: cs :=
    dropWhile_of_head fun _ h => Option.some.inj h ▸ hblank
  rw [parseChain.eq_def]
  split
  · next body e =>
    rw [hdrop] at e
    exact absurd (List.cons.inj e).1 hopen
  · rw [hdrop]
    refine congrArg (parseComparison _ >>= ·) (funext fun comparison => ?_)
    split
    · next e => rw [e]
    · next e => rw [e]

/-- A text with a group in front is that group, and what follows the connective after it. -/
theorem parseChain_grouped {body inner rest : List Char}
    (closed : closeGroup? false body = some (inner, rest))
    (before : (splitConnective false rest).1 = []) :
    parseChain ('(' :: body) = (do
      let group ← parseChain inner
      match (splitConnective false rest).2 with
      | none => return group
      | some (k, after) => return k.join group (← parseChain after)) := by
  have hdrop : ('(' :: body).dropWhile isBlank = '(' :: body := rfl
  rw [parseChain.eq_def]
  split
  · next body' e =>
    rw [hdrop] at e
    obtain rfl := (List.cons.inj e).2
    split
    · next e => cases closed.symm.trans e
    · next e =>
      obtain ⟨rfl, rfl⟩ := Prod.mk.inj (Option.some.inj (closed.symm.trans e))
      refine congrArg (parseChain _ >>= ·) (funext fun group => ?_)
      rw [before, if_pos List.all_nil]
      dsimp only
      split
      · next e => rw [e]
      · next e => rw [e]
  · next e => exact absurd hdrop (e body)

/-- The search for a connective passes over a comparison. -/
private theorem splitConnective_comparison {field value : String} (name : PlainName field)
    (literal : '"' ∉ value.toList) (rest : List Char) :
    splitConnective false (comparisonChars field value ++ rest)
      = (comparisonChars field value ++ (splitConnective false rest).1,
          (splitConnective false rest).2) := by
  refine splitConnective_of_spans ((spans_comparisonChars name literal).mono fun c hc => ?_) rest
  rintro rfl
  exact nomatch hc.1

theorem parseChain_comparison {field value : String} (name : PlainName field)
    (literal : '"' ∉ value.toList) :
    parseChain (comparisonChars field value) = .ok (.equals field value) := by
  obtain ⟨c, cs, hcs, hblank, hopen⟩ := exists_head_comparisonChars name value
  have hsplit := splitConnective_comparison name literal []
  rw [List.append_nil, splitConnective, List.append_nil] at hsplit
  rw [hcs, parseChain_ungrouped hblank hopen, ← hcs, hsplit, parseComparison_chars name literal]
  rfl

/-- A comparison before a connective is joined with what is read behind it. -/
theorem parseChain_comparison_join {field value : String} (name : PlainName field)
    (literal : '"' ∉ value.toList) (k : Connective) {after : List Char} {right : Filter}
    (hright : parseChain after = .ok right) :
    parseChain (comparisonChars field value ++ (k.chars ++ after))
      = .ok (k.join (.equals field value) right) := by
  obtain ⟨c, cs, hcs, hblank, hopen⟩ := exists_head_comparisonChars name value
  have hsplit := splitConnective_comparison name literal (k.chars ++ after)
  rw [splitConnective_chars, List.append_nil, hcs, List.cons_append] at hsplit
  rw [hcs, List.cons_append, parseChain_ungrouped hblank hopen, hsplit, ← hcs,
    parseComparison_chars name literal]
  show (parseChain after >>= _) = _
  rw [hright]
  rfl

/-- The search for the end of a group finds the parenthesis that was written behind it. -/
theorem closeGroup?_written {inner : List Char} (hspans : Spans (· ≠ ')') inner)
    (rest : List Char) : closeGroup? false (inner ++ ')' :: rest) = some (inner, rest) := by
  rw [closeGroup?_of_spans hspans, closeGroup?, if_pos (by decide)]
  exact congrArg (fun group => some (group, rest)) (List.append_nil inner)

theorem parseChain_group {inner : List Char} {group : Filter} (hspans : Spans (· ≠ ')') inner)
    (hinner : parseChain inner = .ok group) :
    parseChain ('(' :: (inner ++ [')'])) = .ok group := by
  rw [parseChain_grouped (closeGroup?_written hspans []) rfl, hinner]
  rfl

/-- A group before a connective is joined with what is read behind it. -/
theorem parseChain_group_join {inner after : List Char} {left right : Filter}
    (hspans : Spans (· ≠ ')') inner) (k : Connective) (hleft : parseChain inner = .ok left)
    (hright : parseChain after = .ok right) :
    parseChain ('(' :: (inner ++ [')']) ++ (k.chars ++ after)) = .ok (k.join left right) := by
  have hclose := closeGroup?_written hspans (k.chars ++ after)
  have hsplit := splitConnective_chars k after
  rw [List.cons_append, List.append_assoc, List.singleton_append,
    parseChain_grouped hclose (by rw [hsplit]), hsplit, hleft]
  show (parseChain after >>= _) = _
  rw [hright]
  rfl

/-! ## Filters -/

/-- The characters of an expressible filter are read as the filter, by induction on its joins. -/
theorem parseChain_chars {f : Filter} (h : f.Expressible) : parseChain f.chars = .ok f := by
  induction f using joined_induction with
  | equals field value =>
      exact parseChain_comparison (h.names _ List.mem_cons_self) (h.values _ List.mem_cons_self)
  | join k left right ihl ihr =>
      obtain ⟨hl, chained, hr⟩ := h.join
      rw [chars_join]
      -- a left operand that is compound is chained, so its group is closed by its own parenthesis
      cases left with
      | equals field value =>
          exact parseChain_comparison_join (hl.names _ List.mem_cons_self)
            (hl.values _ List.mem_cons_self) k (ihr hr)
      | and | or => exact parseChain_group_join (spans_chars hl chained) k (ihl hl) (ihr hr)

/-- **A filter is read as it was written**, whatever stands in its values. -/
theorem parse_written {f : Filter} (h : f.Expressible) : parse f.written = .ok f := by
  have hblank : isBlankText f.written = false := by
    obtain ⟨c, cs, hcs, hc⟩ := exists_head_of_expressible h
    rw [isBlankText, written, String.toList_ofList, hcs, List.all_cons, hc]
    rfl
  rw [parse, hblank, written, String.toList_ofList]
  exact parseChain_chars h

end RecordStore.Filter

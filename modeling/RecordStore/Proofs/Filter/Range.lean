import RecordStore.Proofs.Filter.Written
import RecordStore.Proofs.Sequence

/-! # The filters that texts give

    A group ends at the first closing parenthesis that is not in quotes.  So none is left inside of
    it, and nothing in it can be a group again: a group within a group would need one.  The pieces
    that a text is cut into begin outside quotes wherever the text does, which is why the several
    searches agree on what is in quotes.  It follows which filters a text can give, and these are
    the filters that can be written, but for what may stand in their names.  The route:

    * `Reads`: how a text is read as a filter, told as a grammar, and `reads_of_parseChain`;
    * `closeGroup?_inner`, `closeGroup?_after`: no parenthesis closes inside of a group, and a piece
      of a text without a closing parenthesis has none either;
    * `Reads.chained`: such a text gives a filter whose left operands are comparisons;
    * `Reads.grouped`, `parse_range`: what every text gives, and what gives it. -/

namespace RecordStore.Filter

open RecordStore.Text

/-! ## What is read -/

/-- A text that is not empty and neither begins nor ends with white space. -/
structure Trimmed (s : String) : Prop where
  nonempty : s ≠ ""
  head : ∀ c ∈ s.toList.head?, isBlank c = false
  last : ∀ c ∈ s.toList.getLast?, isBlank c = false

/-- A filter as texts give them: every left operand is a comparison or has comparisons for its own
    left operands, the names are trimmed, and no value has a double quote in it. -/
structure Grouped (f : Filter) : Prop where
  shape : ∀ left ∈ f.leftOperands, left.isComparison = true ∨ left.Chained
  names : ∀ name ∈ f.fields, Trimmed name
  values : ∀ value ∈ f.values, '"' ∉ value.toList

/-- How a text is read: as a comparison or as a group, up to a connective if there is one, and then
    as what follows the connective. -/
inductive Reads : List Char → Filter → Prop where
  | comparison {cs before : List Char} {f : Filter}
      (cut : splitConnective false (cs.dropWhile isBlank) = (before, none))
      (read : parseComparison before = .ok f) : Reads cs f
  | comparisonJoin {cs before after : List Char} {k : Connective} {f right : Filter}
      (cut : splitConnective false (cs.dropWhile isBlank) = (before, some (k, after)))
      (read : parseComparison before = .ok f) (more : Reads after right) :
      Reads cs (k.join f right)
  | group {cs body inner rest : List Char} {f : Filter}
      (opened : cs.dropWhile isBlank = '(' :: body)
      (closed : closeGroup? false body = some (inner, rest)) (grouped : Reads inner f) :
      Reads cs f
  | groupJoin {cs body inner rest after : List Char} {k : Connective} {f right : Filter}
      (opened : cs.dropWhile isBlank = '(' :: body)
      (closed : closeGroup? false body = some (inner, rest)) (grouped : Reads inner f)
      (cut : (splitConnective false rest).2 = some (k, after)) (more : Reads after right) :
      Reads cs (k.join f right)

/-- A filter is read from a text in one of the ways listed in `Reads`, by induction on how the text
    is read. -/
theorem reads_of_parseChain {cs : List Char} {f : Filter} (h : parseChain cs = .ok f) :
    Reads cs f := by
  -- on the length of the text: its pieces are shorter
  induction hn : cs.length using Nat.strongRecOn generalizing cs f with
  | ind n ih =>
      subst hn
      have hdrop := length_dropWhile_le isBlank cs
      rw [parseChain.eq_def] at h
      split at h
      · next body opened =>
        rw [opened, List.length_cons] at hdrop
        split at h
        · cases h
        · next inner rest closed =>
          have hparts := length_closeGroup? closed
          obtain ⟨group, hgroup, h⟩ := bind_eq_ok_iff.mp h
          have grouped : Reads inner group := ih _ (by omega) hgroup rfl
          dsimp only at h
          by_cases hbefore : (splitConnective false rest).1.all isBlank = true
          · rw [if_pos hbefore] at h
            split at h
            · cases h
              exact .group opened closed grouped
            · next k after cut =>
              have hafter := length_splitConnective cut
              obtain ⟨right, hright, h⟩ := bind_eq_ok_iff.mp h
              cases h
              exact .groupJoin opened closed grouped cut (ih _ (by omega) hright rfl)
          · rw [if_neg hbefore] at h
            cases h
      · obtain ⟨f', read, h⟩ := bind_eq_ok_iff.mp h
        split at h
        · next cut =>
          cases h
          exact .comparison (Prod.ext rfl cut) read
        · next k after cut =>
          have hafter := length_splitConnective cut
          obtain ⟨right, hright, h⟩ := bind_eq_ok_iff.mp h
          cases h
          exact .comparisonJoin (Prod.ext rfl cut) read (ih _ (by omega) hright rfl)

/-! ## Comparisons -/

theorem literal?_eq_some {cs text : List Char} (h : literal? cs = some text) : '"' ∉ text := by
  rw [literal?.eq_def] at h
  split at h
  · split at h
    · next inner hsplit =>
      cases h
      obtain ⟨-, -, -, free⟩ := splitAtFirst?_eq_some hsplit
      exact fun hmem => free _ hmem rfl
    · exact nomatch h
  · exact nomatch h

/-- Behind the blanks that are dropped stands no further one. -/
private theorem not_blank_head_dropWhile (cs : List Char) :
    ∀ c ∈ (cs.dropWhile isBlank).head?, isBlank c = false := by
  intro c hc
  have h := List.head?_dropWhile_not isBlank cs
  rwa [hc] at h

/-- What is left of a text when it is trimmed neither begins nor ends with white space. -/
theorem trimmed_trimChars {cs : List Char} (ne : trimChars cs ≠ []) :
    Trimmed (String.ofList (trimChars cs)) := by
  refine ⟨fun h => ne (String.ofList_eq_empty_iff.mp h), ?_, ?_⟩
  · -- nothing was taken from the front of what the first trim left
    obtain ⟨d, ds, hds⟩ := List.exists_cons_of_ne_nil ne
    have hfront := dropEndWhile_append_takeWhile isBlank (cs.dropWhile isBlank)
    rw [← trimChars, hds, List.cons_append] at hfront
    rw [String.toList_ofList, hds]
    rintro _ ⟨⟩
    exact not_blank_head_dropWhile cs d (hfront ▸ rfl)
  · rw [String.toList_ofList, trimChars, dropEndWhile, List.getLast?_reverse]
    exact not_blank_head_dropWhile _

/-- A comparison that was read has a trimmed name and a value without a double quote. -/
theorem parseComparison_eq_ok {cs : List Char} {f : Filter} (h : parseComparison cs = .ok f) :
    ∃ name value, f = .equals name value ∧ Trimmed name ∧ '"' ∉ value.toList := by
  rw [parseComparison] at h
  split at h
  · cases h
  · next left right cut =>
    by_cases hempty : (trimChars left).isEmpty = true
    · rw [if_pos hempty] at h
      cases h
    rw [if_neg hempty] at h
    split at h
    · cases h
    · next text hliteral =>
      cases h
      have ne : trimChars left ≠ [] := fun e => hempty (List.isEmpty_iff.mpr e)
      refine ⟨_, _, rfl, trimmed_trimChars ne, ?_⟩
      rw [String.toList_ofList]
      exact literal?_eq_some hliteral

/-- A comparison that was read is a filter as texts give them. -/
theorem grouped_of_parseComparison {cs : List Char} {f : Filter} (h : parseComparison cs = .ok f) :
    f.Grouped ∧ f.isComparison = true := by
  obtain ⟨name, value, rfl, trimmed, literal⟩ := parseComparison_eq_ok h
  refine ⟨⟨?_, ?_, ?_⟩, rfl⟩
  · intro left hleft
    exact nomatch hleft
  · exact List.forall_mem_singleton.mpr trimmed
  · exact List.forall_mem_singleton.mpr literal

/-! ## Closing parentheses -/

/-- The searches for a closing parenthesis, one character on. -/
theorem closeGroup?_cons_eq_none {quoted : Bool} {c : Char} {cs : List Char}
    (h : closeGroup? quoted (c :: cs) = none) :
    closeGroup? (if c = '"' then !quoted else quoted) cs = none := by
  rw [closeGroup?] at h
  split at h
  · cases h
  · exact Option.map_eq_none_iff.mp h

/-- Inside of a group no parenthesis closes. -/
theorem closeGroup?_inner {quoted : Bool} {cs inner rest : List Char}
    (h : closeGroup? quoted cs = some (inner, rest)) : closeGroup? quoted inner = none := by
  induction cs generalizing quoted inner with
  | nil => exact nomatch h
  | cons c cs ih =>
      rw [closeGroup?] at h
      by_cases hclose : c = ')' ∧ ¬ quoted = true
      · rw [if_pos hclose] at h
        cases h
        rfl
      · rw [if_neg hclose] at h
        obtain ⟨⟨inner', rest'⟩, hfound, hpair⟩ := Option.map_eq_some_iff.mp h
        cases hpair
        rw [closeGroup?, if_neg hclose, ih hfound]
        rfl

/-- Dropping blanks in front opens no parenthesis and closes none. -/
theorem closeGroup?_dropWhile {cs : List Char} (h : closeGroup? false cs = none) :
    closeGroup? false (cs.dropWhile isBlank) = none := by
  induction cs with
  | nil => rfl
  | cons c cs ih =>
      by_cases hblank : isBlank c = true
      · rw [List.dropWhile_cons_of_pos hblank]
        refine ih ?_
        have hquote : c ≠ '"' := by
          rintro rfl
          exact nomatch hblank
        simpa only [if_neg hquote] using closeGroup?_cons_eq_none h
      · rwa [List.dropWhile_cons_of_neg hblank]

/-- A text that begins with a group has a closing parenthesis. -/
theorem closeGroup?_of_opened {cs body inner rest : List Char}
    (opened : cs.dropWhile isBlank = '(' :: body)
    (closed : closeGroup? false body = some (inner, rest)) : closeGroup? false cs ≠ none := by
  intro unclosed
  have hdrop := closeGroup?_dropWhile unclosed
  rw [opened] at hdrop
  cases (closeGroup?_cons_eq_none hdrop).symm.trans closed

theorem connective?_eq_some {cs after : List Char} {k : Connective}
    (h : connective? cs = some (k, after)) : cs = k.chars ++ after := by
  rw [connective?.eq_def] at h
  split at h
  · cases h
    rfl
  · cases h
    rfl
  · cases h

/-- Behind the first connective no parenthesis closes, if none does in the whole. -/
theorem closeGroup?_after {quoted : Bool} {cs after : List Char} {k : Connective}
    (cut : (splitConnective quoted cs).2 = some (k, after))
    (h : closeGroup? quoted cs = none) : closeGroup? false after = none := by
  induction cs generalizing quoted with
  | nil => exact nomatch cut
  | cons c cs ih =>
      have hrest := closeGroup?_cons_eq_none h
      rw [splitConnective] at cut
      by_cases hquote : c = '"'
      · rw [if_pos hquote] at cut hrest
        exact ih cut hrest
      rw [if_neg hquote] at cut hrest
      cases quoted with
      | true => exact ih cut hrest
      | false =>
          rw [if_neg Bool.false_ne_true] at cut
          cases hk : connective? (c :: cs) with
          | none =>
              rw [hk] at cut
              exact ih cut hrest
          | some tail =>
              rw [hk] at cut
              cases cut
              -- the connective is outside quotes, and none of its characters is a quote
              rw [connective?_eq_some hk] at h
              cases k <;>
                simpa only [Connective.chars, List.cons_append, List.nil_append, closeGroup?,
                  Option.map_eq_none_iff, Char.reduceEq, false_and, if_false] using h

/-! ## The shape of what is read -/

/-- A text in which no parenthesis closes has no group in it. -/
theorem Reads.chained {cs : List Char} {f : Filter} (h : Reads cs f)
    (unclosed : closeGroup? false cs = none) : f.Chained := by
  induction h with
  | comparison _ read => exact chained_of_isComparison (grouped_of_parseComparison read).2
  | comparisonJoin cut read _ ih =>
      refine chained_join.mpr ⟨(grouped_of_parseComparison read).2, ih ?_⟩
      exact closeGroup?_after (congrArg Prod.snd cut) (closeGroup?_dropWhile unclosed)
  | group opened closed => exact absurd unclosed (closeGroup?_of_opened opened closed)
  | groupJoin opened closed => exact absurd unclosed (closeGroup?_of_opened opened closed)

/-- A join is grouped if both sides are and the left one can stand left of a connective. -/
theorem Grouped.join {k : Connective} {left right : Filter} (hl : left.Grouped)
    (chained : left.isComparison = true ∨ left.Chained) (hr : right.Grouped) :
    (k.join left right).Grouped where
  shape := by
    rw [leftOperands_join, List.forall_mem_cons, List.forall_mem_append]
    exact ⟨chained, hl.shape, hr.shape⟩
  names := by
    rw [fields_join, List.forall_mem_append]
    exact ⟨hl.names, hr.names⟩
  values := by
    rw [values_join, List.forall_mem_append]
    exact ⟨hl.values, hr.values⟩

/-- Every filter that is read is grouped, by induction on how it was read. -/
theorem Reads.grouped {cs : List Char} {f : Filter} (h : Reads cs f) : f.Grouped := by
  induction h with
  | comparison _ read => exact (grouped_of_parseComparison read).1
  | comparisonJoin _ read _ ih =>
      obtain ⟨grouped, comparison⟩ := grouped_of_parseComparison read
      exact grouped.join (.inl comparison) ih
  | group _ _ _ ih => exact ih
  | groupJoin _ closed grouped _ _ ihl ihr =>
      exact ihl.join (.inr (grouped.chained (closeGroup?_inner closed))) ihr

/-- **The filters that texts give, and texts that give them.**  Every filter that is read from a
    text has left operands that are comparisons or groups without groups in them, trimmed names,
    and values without double quotes.  And every filter with such left operands and values, whose
    names are plain, is given by its text, whatever else stands in the values. -/
theorem parse_range :
    (∀ s f, parse s = .ok f → f.Grouped) ∧
      ∀ f : Filter, f.Expressible → parse f.written = .ok f := by
  refine ⟨fun s f h => ?_, fun f => parse_written⟩
  rw [parse] at h
  split at h
  · cases h
  · exact (reads_of_parseChain h).grouped

/-- A filter with a group for its left operand, values that look like what joins filters, and names
    that a query could not write. -/
def quotedGroup : Filter :=
  .and (.or (.equals "-a" ") AND x=") (.equals "b,c" ""))
    (.or (.equals "d" " OR ") (.equals "e" "1"))

/-- Its text gives the filter, and the filter is of the shape of all that texts give. -/
theorem parse_range_quotedGroup :
    quotedGroup.Grouped ∧
    parse "(-a=\") AND x=\" OR b,c=\"\") AND d=\" OR \" OR e=\"1\"" = .ok quotedGroup := by
  have htext : quotedGroup.written
      = "(-a=\") AND x=\" OR b,c=\"\") AND d=\" OR \" OR e=\"1\"" := by decide +kernel
  have hread : parse quotedGroup.written = .ok quotedGroup :=
    parse_range.2 quotedGroup (by decide +kernel)
  exact ⟨parse_range.1 _ _ hread, htext ▸ hread⟩

end RecordStore.Filter

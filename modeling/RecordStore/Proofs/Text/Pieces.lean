import RecordStore.Text.Basic

/-! # Texts that are cut and trimmed

    Which texts come back from being joined and cut, and which are left alone by trimming and by the
    searches of the query language. -/

namespace RecordStore.Text

/-! ## Texts that are joined and split

    Texts that are joined by a character come back when the whole is split at it, as long as the
    character stands in none of them; and whatever a text is split into, it is these pieces joined.
    The same goes for two texts and the first place at which the whole can be split. -/

/-- Splitting characters is what the standard library has for any list. -/
theorem splitChars_eq_splitOn (sep : Char) (cs : List Char) :
    splitChars sep cs = cs.splitOn sep := by
  induction cs with
  | nil => exact (List.splitOn_nil sep).symm
  | cons c cs ih =>
      rw [splitChars, ih, List.splitOn_cons_eq_if_modifyHead]
      by_cases hc : c = sep
      · rw [if_pos hc, if_pos (beq_iff_eq.mpr hc)]
      · rw [if_neg hc, if_neg (mt beq_iff_eq.mp hc)]
        obtain ⟨piece, pieces, hcs⟩ := List.exists_cons_of_ne_nil (splitChars_ne_nil sep cs)
        rw [← ih, hcs]
        rfl

/-- A piece has characters of the whole, and none of them is the separator. -/
theorem mem_of_mem_splitChars {sep c : Char} {cs piece : List Char}
    (h : piece ∈ splitChars sep cs) (hc : c ∈ piece) : c ∈ cs ∧ c ≠ sep := by
  induction cs generalizing piece with
  | nil =>
      rw [List.mem_singleton.mp h] at hc
      cases hc
  | cons d cs ih =>
      have behind {piece : List Char} (h : piece ∈ splitChars sep cs) (hc : c ∈ piece) :
          c ∈ d :: cs ∧ c ≠ sep :=
        ⟨List.mem_cons_of_mem _ (ih h hc).1, (ih h hc).2⟩
      by_cases hd : d = sep
      · rw [hd, splitChars_cons_self] at h
        rcases List.mem_cons.mp h with rfl | h
        · cases hc
        · exact behind h hc
      · obtain ⟨first, rest, hcs⟩ := List.exists_cons_of_ne_nil (splitChars_ne_nil sep cs)
        rw [splitChars, if_neg hd, hcs] at h
        rcases List.mem_cons.mp h with rfl | h
        · -- the first piece has one character more, and it is not the separator
          rcases List.mem_cons.mp hc with rfl | hc
          · exact ⟨List.mem_cons_self, hd⟩
          · exact behind (hcs ▸ List.mem_cons_self) hc
        · exact behind (hcs ▸ List.mem_cons_of_mem _ h) hc

/-- The separator stands in none of the pieces. -/
theorem not_mem_of_mem_split {sep : Char} {s piece : String} (h : piece ∈ split sep s) :
    sep ∉ piece.toList := by
  obtain ⟨cs, hcs, rfl⟩ := List.mem_map.mp h
  rw [String.toList_ofList]
  exact fun mem => (mem_of_mem_splitChars hcs mem).2 rfl

/-- The pieces of a text, joined again, are the text. -/
theorem intercalate_split (sep : Char) (s : String) :
    (String.singleton sep).intercalate (split sep s) = s := by
  apply String.toList_inj.mp
  rw [String.toList_intercalate, String.toList_singleton, split, List.map_map,
    splitChars_eq_splitOn]
  simp [Function.comp_def, List.intercalate_splitOn]

/-- Texts without the separator come back from the text that joins them. -/
theorem split_intercalate {sep : Char} {texts : List String} (ne : texts ≠ [])
    (free : ∀ v ∈ texts, sep ∉ v.toList) :
    split sep ((String.singleton sep).intercalate texts) = texts := by
  have hfree : ∀ p ∈ texts.map String.toList, sep ∉ p := by
    intro p hp
    obtain ⟨v, hv, rfl⟩ := List.mem_map.mp hp
    exact free v hv
  rw [split, String.toList_intercalate, String.toList_singleton, splitChars_eq_splitOn,
    List.splitOn_intercalate sep hfree (by simpa using ne), List.map_map]
  simp [Function.comp_def]

/-- A character of joined texts is of one of them or of what joins them. -/
theorem mem_intercalate {sep : List Char} {pieces : List (List Char)} {c : Char}
    (h : c ∈ sep.intercalate pieces) : c ∈ sep ∨ ∃ p ∈ pieces, c ∈ p := by
  induction pieces with
  | nil => exact nomatch h
  | cons piece pieces ih =>
      cases pieces with
      | nil =>
          rw [List.intercalate_singleton] at h
          exact .inr ⟨piece, List.mem_cons_self, h⟩
      | cons next pieces =>
          rw [List.intercalate_cons_cons, List.mem_append, List.mem_append] at h
          rcases h with (h | h) | h
          · exact .inr ⟨piece, List.mem_cons_self, h⟩
          · exact .inl h
          · rcases ih h with h | ⟨p, hp, hc⟩
            · exact .inl h
            · exact .inr ⟨p, List.mem_cons_of_mem _ hp, hc⟩

/-- What stands before the first element that satisfies `p`, and what stands after it. -/
theorem splitAtFirst?_append {α : Type} {p : α → Bool} {before : List α} {a : α}
    (hbefore : ∀ x ∈ before, p x = false) (ha : p a = true) (after : List α) :
    splitAtFirst? p (before ++ a :: after) = some (before, after) := by
  induction before with
  | nil => exact if_pos ha
  | cons x before ih =>
      obtain ⟨hx, hrest⟩ := List.forall_mem_cons.mp hbefore
      rw [List.cons_append, splitAtFirst?, hx, ih hrest]
      rfl

theorem splitAtFirst?_eq_none {α : Type} {p : α → Bool} {l : List α}
    (h : ∀ x ∈ l, p x = false) : splitAtFirst? p l = none := by
  induction l with
  | nil => rfl
  | cons x l ih =>
      obtain ⟨hx, hl⟩ := List.forall_mem_cons.mp h
      rw [splitAtFirst?, hx, ih hl]
      rfl

/-- A list that cannot be cut has no element at which it would be. -/
theorem not_of_splitAtFirst?_eq_none {α : Type} {p : α → Bool} {l : List α}
    (h : splitAtFirst? p l = none) : ∀ x ∈ l, p x = false := by
  induction l with
  | nil => exact List.forall_mem_nil _
  | cons x l ih =>
      rw [splitAtFirst?] at h
      cases hx : p x with
      | true =>
          rw [hx] at h
          cases h
      | false =>
          rw [hx] at h
          exact List.forall_mem_cons.mpr ⟨hx, ih (Option.map_eq_none_iff.mp h)⟩

/-! ## Names and literals that can be written

    A field has to be written in a query so that it is read as the same field: its name must not
    hold a character that the query language gives a meaning, nor begin like a command.  A value
    that is compared with a field stands between double quotes, so all it must not hold is a double
    quote.  What is read is trimmed, which leaves a text alone that neither begins nor ends with
    white space; and where a text consists of quoted spans and of characters that some search does
    not look for (`Spans`), the search passes over it. -/

/-! ### Safe names -/

/-- The characters with a meaning in queries. -/
def marks : List Char := [',', ':', '=', '(', ')', '"']

/-- A name that is not empty, without white space and without a character that has a meaning, and
    that does not begin with a dash. -/
structure SafeName (name : String) : Prop where
  nonempty : name ≠ ""
  plain : ∀ c ∈ name.toList, isBlank c = false ∧ c ∉ marks
  undashed : name.toList.head? ≠ some '-'

/-- Whether characters are neither white space nor special can be decided. -/
theorem all_plain_iff {special cs : List Char} :
    cs.all (fun c => !isBlank c && !special.contains c) = true ↔
      ∀ c ∈ cs, isBlank c = false ∧ c ∉ special := by
  simp [List.all_eq_true]

instance (name : String) : Decidable (SafeName name) :=
  decidable_of_iff (name ≠ "" ∧
      name.toList.all (fun c => !isBlank c && !marks.contains c) = true ∧
      name.toList.head? ≠ some '-')
    ⟨fun ⟨nonempty, plain, undashed⟩ => ⟨nonempty, all_plain_iff.mp plain, undashed⟩,
      fun h => ⟨h.nonempty, all_plain_iff.mpr h.plain, h.undashed⟩⟩

namespace SafeName

variable {name : String}

theorem not_mem (h : SafeName name) {c : Char} (hc : c ∈ marks) : c ∉ name.toList :=
  fun hmem => (h.plain c hmem).2 hc

theorem toList_ne_nil (h : SafeName name) : name.toList ≠ [] :=
  fun e => h.nonempty (String.toList_eq_nil_iff.mp e)

/-- The character that a safe name begins with. -/
theorem exists_head (h : SafeName name) :
    ∃ c cs, name.toList = c :: cs ∧ c ≠ '-' ∧ isBlank c = false ∧ c ∉ marks := by
  obtain ⟨c, cs, hcs⟩ := List.exists_cons_of_ne_nil h.toList_ne_nil
  have hc := h.plain c (hcs ▸ List.mem_cons_self)
  refine ⟨c, cs, hcs, fun e => h.undashed ?_, hc⟩
  rw [hcs, e]
  rfl

end SafeName

/-! ### Names in comparisons -/

/-- The characters with a meaning in filters. -/
def filterMarks : List Char := ['=', '(', ')', '"']

/-- A name that can stand in a comparison: it is not empty, and has no white space and no character
    with a meaning in filters. -/
structure PlainName (name : String) : Prop where
  nonempty : name ≠ ""
  plain : ∀ c ∈ name.toList, isBlank c = false ∧ c ∉ filterMarks

instance (name : String) : Decidable (PlainName name) :=
  decidable_of_iff (name ≠ "" ∧
      name.toList.all (fun c => !isBlank c && !filterMarks.contains c) = true)
    ⟨fun ⟨nonempty, plain⟩ => ⟨nonempty, all_plain_iff.mp plain⟩,
      fun h => ⟨h.nonempty, all_plain_iff.mpr h.plain⟩⟩

/-- A safe name is plain: what has a meaning in filters has one in queries. -/
theorem SafeName.plainName {name : String} (h : SafeName name) : PlainName name where
  nonempty := h.nonempty
  plain c hc := by
    obtain ⟨hblank, hmark⟩ := h.plain c hc
    refine ⟨hblank, fun hfilter => hmark ?_⟩
    have hsub : filterMarks ⊆ marks := by decide
    exact hsub hfilter

/-! ### Trimming -/

theorem dropWhile_of_head {p : Char → Bool} {cs : List Char}
    (head : ∀ c ∈ cs.head?, p c = false) : cs.dropWhile p = cs := by
  cases cs with
  | nil => rfl
  | cons c cs => exact List.dropWhile_cons_of_neg (by simp [head c rfl])

/-- A text that neither begins nor ends with white space stays as it is. -/
theorem trimChars_eq_self {cs : List Char} (head : ∀ c ∈ cs.head?, isBlank c = false)
    (last : ∀ c ∈ cs.getLast?, isBlank c = false) : trimChars cs = cs := by
  rw [trimChars, dropWhile_of_head head, dropEndWhile, dropWhile_of_head, List.reverse_reverse]
  simpa only [List.head?_reverse] using last

/-- A text without white space stays as it is. -/
theorem trimChars_of_forall {cs : List Char} (h : ∀ c ∈ cs, isBlank c = false) :
    trimChars cs = cs :=
  trimChars_eq_self (fun c hc => h c (List.mem_of_head? hc))
    fun c hc => h c (List.mem_of_getLast? hc)

theorem mem_of_mem_trimChars {c : Char} {cs : List Char} (h : c ∈ trimChars cs) : c ∈ cs := by
  rw [trimChars, dropEndWhile, List.mem_reverse] at h
  have hdrop := (List.dropWhile_sublist isBlank).subset h
  exact (List.dropWhile_sublist isBlank).subset (List.mem_reverse.mp hdrop)

theorem SafeName.trim_eq {name : String} (h : SafeName name) : trim name = name := by
  rw [trim, trimChars_of_forall fun c hc => (h.plain c hc).1, String.ofList_toList]

/-! ### Quoted spans -/

/-- A text made of spans between double quotes and, outside of them, of characters with a
    property. -/
inductive Spans (p : Char → Prop) : List Char → Prop where
  | nil : Spans p []
  | plain {c : Char} {cs : List Char} (unquoted : c ≠ '"') (hc : p c) (rest : Spans p cs) :
      Spans p (c :: cs)
  | quoted {inner cs : List Char} (closed : '"' ∉ inner) (rest : Spans p cs) :
      Spans p ('"' :: (inner ++ '"' :: cs))

namespace Spans

variable {p q : Char → Prop} {cs ds : List Char}

/-- Characters that are neither double quotes nor looked for are passed over. -/
theorem of_forall (h : ∀ c ∈ cs, c ≠ '"' ∧ p c) : Spans p cs := by
  induction cs with
  | nil => exact .nil
  | cons c cs ih =>
      obtain ⟨⟨unquoted, hc⟩, hcs⟩ := List.forall_mem_cons.mp h
      exact .plain unquoted hc (ih hcs)

theorem append (h : Spans p cs) (h' : Spans p ds) : Spans p (cs ++ ds) := by
  induction h with
  | nil => exact h'
  | plain unquoted hc _ ih => exact .plain unquoted hc ih
  | quoted closed _ ih =>
      rw [List.cons_append, List.append_assoc]
      exact .quoted closed ih

/-- A search for fewer characters passes over more. -/
theorem mono (h : Spans p cs) (hpq : ∀ c, p c → q c) : Spans q cs := by
  induction h with
  | nil => exact .nil
  | plain unquoted hc _ ih => exact .plain unquoted (hpq _ hc) ih
  | quoted closed _ ih => exact .quoted closed ih

end Spans

end RecordStore.Text

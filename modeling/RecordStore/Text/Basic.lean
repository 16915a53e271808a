/-!
# Cutting and trimming

Texts are cut at a character, into pieces or into what stands before and after its first
occurrence; and what is blank is trimmed from their ends.
-/

namespace RecordStore.Text

/-!
## Splitting at a character

`split sep` cuts a text at every occurrence of `sep`; the pieces are never fewer than one, and
putting `sep` back between them gives the text again. `splitFirst?` cuts once, at the first
occurrence. Both are stated on lists of characters and lifted to strings.
-/

/-- The pieces between the occurrences of `sep`, in order. -/
def splitChars (sep : Char) : List Char → List (List Char)
  | [] => [[]]
  | c :: cs =>
    if c = sep then [] :: splitChars sep cs
    else
      match splitChars sep cs with
      | [] => [[c]]
      | piece :: pieces => (c :: piece) :: pieces

/-- The pieces of a text between the occurrences of `sep`, in order. -/
def split (sep : Char) (s : String) : List String :=
  (splitChars sep s.toList).map String.ofList

/-- What stands before and after the first element that satisfies `p`, if there is one. -/
def splitAtFirst? {α : Type} (p : α → Bool) : List α → Option (List α × List α)
  | [] => none
  | a :: l =>
    if p a then some ([], l)
    else (splitAtFirst? p l).map fun (before, after) => (a :: before, after)

/-- What stands before and after the first `sep` of a text, if there is one. -/
def splitFirst? (sep : Char) (s : String) : Option (String × String) :=
  (splitAtFirst? (· == sep) s.toList).map fun (before, after) =>
    (String.ofList before, String.ofList after)

/-! ### Pieces and the whole -/

@[simp] theorem splitChars_nil (sep : Char) : splitChars sep [] = [[]] := rfl

theorem splitChars_ne_nil (sep : Char) (cs : List Char) : splitChars sep cs ≠ [] := by
  cases cs with
  | nil => simp
  | cons c cs =>
    simp only [splitChars]
    split
    · simp
    · split <;> simp

@[simp] theorem splitChars_cons_self (sep : Char) (cs : List Char) :
    splitChars sep (sep :: cs) = [] :: splitChars sep cs := by
  simp [splitChars]

/-- Nothing is lost: the first part, the element that satisfied `p` and the rest are the list. -/
theorem splitAtFirst?_eq_some {α : Type} {p : α → Bool} {l before after : List α}
    (h : splitAtFirst? p l = some (before, after)) :
    ∃ a, p a ∧ l = before ++ a :: after ∧ ∀ x ∈ before, ¬ p x := by
  induction l generalizing before with
  | nil => simp [splitAtFirst?] at h
  | cons a l ih =>
    by_cases ha : p a
    · simp only [splitAtFirst?, ha, if_true, Option.some.injEq, Prod.mk.injEq] at h
      obtain ⟨rfl, rfl⟩ := h
      exact ⟨a, ha, rfl, by simp⟩
    · cases hl : splitAtFirst? p l with
      | none => simp [splitAtFirst?, ha, hl] at h
      | some parts =>
        simp only [splitAtFirst?, ha, hl, Option.map_some] at h
        obtain ⟨rfl, rfl⟩ := h
        obtain ⟨x, hx, rfl, hb⟩ := ih hl
        exact ⟨x, hx, rfl, by simpa [ha] using hb⟩

/-!
## White space — which characters are blank, and trimming

A character is *blank* when it has the Unicode property `White_Space`: the tabs and line breaks,
the space, and the wider and narrower spaces of other scripts. Trimming removes blank characters
from the ends of a text and never from its middle. The route:

  * `isBlank`                 the property, as its short list of ranges;
  * `dropEndWhile`            `List.dropWhile` from the other end;
  * `trimStart`, `trim`       the two trims the query language uses;
  * `isBlankText`             a text that trims to nothing.
-/

/-- The characters with the Unicode property `White_Space`. -/
def isBlank (c : Char) : Bool :=
  let n := c.toNat
  (9 ≤ n && n ≤ 13) || n == 0x20 || n == 0x85 || n == 0xA0 || n == 0x1680 ||
    (0x2000 ≤ n && n ≤ 0x200A) || n == 0x2028 || n == 0x2029 || n == 0x202F || n == 0x205F ||
    n == 0x3000

/-- The list without the longest run at its end that satisfies `p`. -/
def dropEndWhile {α : Type} (p : α → Bool) (l : List α) : List α :=
  (l.reverse.dropWhile p).reverse

/-- The text without the blank characters it starts with. -/
def trimStart (s : String) : String := String.ofList (s.toList.dropWhile isBlank)

/-- The characters without the blank ones at either end. -/
def trimChars (cs : List Char) : List Char := dropEndWhile isBlank (cs.dropWhile isBlank)

/-- The text without the blank characters at either end. -/
def trim (s : String) : String := String.ofList (trimChars s.toList)

/-- Holds of a text without any character that is not blank. -/
def isBlankText (s : String) : Bool := s.toList.all isBlank

/-! ### What trimming keeps -/

@[simp] theorem toList_trim (s : String) : (trim s).toList = trimChars s.toList :=
  String.toList_ofList

@[simp] theorem toList_trimStart (s : String) :
    (trimStart s).toList = s.toList.dropWhile isBlank :=
  String.toList_ofList

@[simp] theorem dropEndWhile_nil {α : Type} (p : α → Bool) : dropEndWhile p [] = [] := rfl

/-- A last element that fails `p` stops the dropping. -/
theorem dropEndWhile_append_of_neg {α : Type} {p : α → Bool} {a : α} (l : List α)
    (h : ¬ p a) : dropEndWhile p (l ++ [a]) = l ++ [a] := by
  simp [dropEndWhile, h]

/-- What is dropped from the end is a run of elements that satisfy `p`. -/
theorem dropEndWhile_append_takeWhile {α : Type} (p : α → Bool) (l : List α) :
    dropEndWhile p l ++ (l.reverse.takeWhile p).reverse = l := by
  rw [dropEndWhile, ← List.reverse_append, List.takeWhile_append_dropWhile, List.reverse_reverse]

end RecordStore.Text

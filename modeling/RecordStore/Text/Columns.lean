import RecordStore.Text.Columns.Classes

/-!
# Columns of a terminal

How many columns a text takes on a terminal: first what its characters take together, and then the
lines, in which sequences that set a style take none. The classes of characters are tables in a
module of their own.
-/

namespace RecordStore.Text

/-!
## Characters that share columns

Where characters join into one shape, the columns of a text are not the sum of those of its
characters. What a character adds depends on what follows it, so a text is measured from its end:
a *measure* is the number of columns of the end of a text, with what that end begins with as far as
the character before it can join it. The shapes are these:

  * emoji put together by joiners, an emoji with a skin tone, and a symbol with the selector of the
    emoji style take two columns; a symbol with the selector of the text style takes one;
  * a lam and an alef, with transparent marks between them, take one column;
  * so do an aleph and a lamed, a Buginese `a` with `i` and a `ya`, an Orkhon `nt` and `i`, and two
    consonants of Tifinagh, where they are joined;
  * a Khmer letter below another, and a second tone letter of Lisu, take none of their own.

The route:

  * `Beginning.ofCode`   what a text begins with, as its first character tells it;
  * `Beginning.join?`    the joining of a character with what follows it;
  * `Measure.cons`       the measure of a text with one more character before it;
  * `measure`            the measure of a text.
-/

/-- The code point that joins the characters on both sides of it. -/
def joiner : Nat := 0x200D

/-- A letter that joins with characters before it. -/
inductive JoiningLetter where
  | lamed
  | ya
  | yaAfterI
  | tifinagh
  | tifinaghAfterSign
  | lisuTone
  | orkhonI
  | khmer
  deriving Repr, DecidableEq

/-- What a text begins with, as far as a character before it can join it. A joined emoji has a
    joiner before it. -/
inductive Beginning where
  | other
  | alef
  | letter (letter : JoiningLetter) (joined : Bool)
  | skinTone
  | regionLetter
  | regionLetters
  | emoji
  | joinedEmoji
  | joinedKeycap
  | joinedRegionLetter
  | joinedFlags
  | joinedFlagsAfterLetter
  | tagLetters (count : Nat)
  | tagDigits (count : Nat)
  deriving Repr, DecidableEq

/-- The styles that a selector asks for. -/
inductive SymbolStyle where
  | emoji
  | text
  deriving Repr, DecidableEq

/-- The style that a code point asks for. -/
def SymbolStyle.ofCode? (n : Nat) : Option SymbolStyle :=
  if n = 0xFE0E then some .text else if n = 0xFE0F then some .emoji else none

namespace Beginning

/-- What a text begins with whose first character is given. -/
def ofCode (n : Nat) : Beginning :=
  if n = 0x5DC then .letter .lamed false
  else if inRanges n alefs then .alef
  else if inRanges n khmerSubscripts then .letter .khmer false
  else if n = 0x1A10 then .letter .ya false
  else if inRanges n tifinaghConsonants then .letter .tifinagh false
  else if n = 0xA4FC || n = 0xA4FD then .letter .lisuTone false
  else if n = 0x10C03 then .letter .orkhonI false
  else if isRegionLetter n then .regionLetter
  else if isSkinTone n then .skinTone
  else if inRanges n emojiByDefault then .emoji
  else .other

/-- Whether a beginning is a letter, which a selector before it does not part from what stands
    before the selector. -/
def isLetter : Beginning → Bool
  | .alef | .letter _ _ => true
  | _ => false

/-- Whether a beginning is an emoji that is joined to what stands before it. -/
def isJoined : Beginning → Bool
  | .joinedEmoji | .joinedKeycap => true
  | _ => false

/-- What remains of a beginning behind a selector. -/
def behind (style : SymbolStyle) (b : Beginning) : Beginning :=
  if b.isLetter || (style = .emoji && b.isJoined) then b else .other

/-- The joining of a code point with a letter: the columns that are added by it, and what the text
    then begins with. -/
def joinLetter? (n : Nat) (joined : Bool) : JoiningLetter → Option (Int × Beginning)
  | .lamed => if joined && n = 0x5D0 then some (0, .other) else none
  | .ya => if joined && n = 0x1A17 then some (0, .letter .yaAfterI true) else none
  | .yaAfterI => if n = 0x1A15 then some (0, .other) else none
  | .tifinagh =>
    if n = 0x2D7F then some (1, .letter .tifinaghAfterSign true)
    else if joined && inRanges n tifinaghConsonants then some (0, .other)
    else none
  | .tifinaghAfterSign => if inRanges n tifinaghConsonants then some (-1, .other) else none
  | .lisuTone => if 0xA4F8 ≤ n && n ≤ 0xA4FB then some (0, .other) else none
  | .orkhonI => if joined && n = 0x10C32 then some (0, .other) else none
  | .khmer => if n = 0x17D2 then some (-1, .other) else none

/-- The joining of a code point with what follows it: the columns that are added by it, and what
    the text then begins with. A letter below another, or a flag that joins an emoji, gives back a
    column that was counted for it when it stood alone. -/
def join? (n : Nat) : Beginning → Option (Int × Beginning)
  | .other | .joinedKeycap => none
  | .alef =>
    if inRanges n lams then some (0, .other)
    else if isTransparentMark n then some (0, .alef)
    else none
  | .letter l joined =>
    if n = joiner then some (0, .letter l true)
    else if inRanges n ignorableMarks then some (0, .letter l joined)
    else joinLetter? n joined l
  | .skinTone =>
    if inRanges n modifierBases then some (0, .emoji)
    else if n = joiner then some (0, .joinedEmoji)
    else none
  | .regionLetter => if isRegionLetter n then some (1, .regionLetters) else none
  | .regionLetters =>
    if isRegionLetter n then some (1, .regionLetters)
    else if n = joiner then some (0, .joinedEmoji)
    else none
  | .emoji => if n = joiner then some (0, .joinedEmoji) else none
  | .joinedEmoji =>
    if n = 0x20E3 then some (0, .joinedKeycap)
    else if isRegionLetter n then some (1, .joinedRegionLetter)
    else if isSkinTone n then some (0, .skinTone)
    else if n = 0xE007F then some (0, .tagLetters 0)
    else if ofCode n = .emoji then some (0, .emoji)
    else none
  | .joinedRegionLetter => if isRegionLetter n then some (-1, .joinedFlags) else none
  | .joinedFlags =>
    if isRegionLetter n then some (3, .joinedFlagsAfterLetter)
    else if n = joiner then some (0, .joinedEmoji)
    else none
  | .joinedFlagsAfterLetter =>
    if isRegionLetter n then some (-1, .joinedFlags)
    else if n = joiner then some (0, .joinedEmoji)
    else none
  | .tagLetters k =>
    if 0xE0061 ≤ n && n ≤ 0xE007A && k < 6 then some (0, .tagLetters (k + 1))
    else if 0xE0030 ≤ n && n ≤ 0xE0039 && k ≤ 4 then some (0, .tagDigits 1)
    else if n = 0x1F3F4 && 3 ≤ k then some (0, .emoji)
    else none
  | .tagDigits k =>
    if 0xE0030 ≤ n && n ≤ 0xE0039 && k < 3 then some (0, .tagDigits (k + 1))
    else if n = 0x1F3F4 && k = 3 then some (0, .emoji)
    else none

end Beginning

/-- The columns of the end of a text, what it begins with, and the style that is asked for by a
    selector before that. -/
structure Measure where
  columns : Nat
  beginning : Beginning
  style : Option SymbolStyle
  deriving Repr, DecidableEq

namespace Measure

/-- The measure of a text without characters. -/
def nil : Measure := ⟨0, .other, none⟩

/-- The measure with more columns and another beginning. -/
def extend (m : Measure) (columns : Int) (beginning : Beginning) : Measure :=
  ⟨(m.columns + columns).toNat, beginning, none⟩

/-- What a character joins that is not one of the symbols the selector before the text is for. -/
def next (m : Measure) : Beginning :=
  match m.style with
  | none => m.beginning
  | some _ => if m.beginning.isLetter then m.beginning else .other

/-- The measure of a text with one more character before it. A control character takes one column
    where it stands in a text. -/
def cons (c : Char) (m : Measure) : Measure :=
  let n := c.toNat
  if m.style = some .emoji && inRanges n styledSymbols then
    m.extend (if m.beginning.isJoined then 0 else 2) .emoji
  else if n ≤ 0xA0 then m.extend 1 .other
  else
    match SymbolStyle.ofCode? n with
    | some style => ⟨m.columns, m.next.behind style, some style⟩
    | none =>
      if m.style = some .text && hasNarrowStyle n then m.extend 1 .other
      else
        match m.next.join? n with
        | some (columns, beginning) => m.extend columns beginning
        | none => m.extend (charColumns c) (.ofCode n)

end Measure

/-- The measure of a text. -/
def measure (cs : List Char) : Measure := cs.foldr Measure.cons Measure.nil

/-! ### Texts without joining

The characters up to the no-break space join nothing, so a text of them is as wide as it is long. -/

@[simp] theorem measure_nil : measure [] = Measure.nil := rfl

@[simp] theorem measure_cons (c : Char) (cs : List Char) :
    measure (c :: cs) = (measure cs).cons c := rfl

/-- Characters up to the no-break space take a column each, and leave nothing to be joined. -/
theorem measure_of_forall_le {cs : List Char} (h : ∀ c ∈ cs, c.toNat ≤ 0xA0) :
    measure cs = ⟨cs.length, .other, none⟩ := by
  induction cs with
  | nil => rfl
  | cons c cs ih =>
    have hc : c.toNat ≤ 0xA0 := h c (List.mem_cons_self ..)
    rw [measure_cons, ih fun d hd => h d (List.mem_cons_of_mem _ hd)]
    simp [Measure.cons, Measure.extend, hc]

/-!
## Columns of a terminal

How many columns a line of text takes on a terminal. They are those of its measure, less those of
the sequences that set the style of what follows: such a sequence begins with an escape character
and a bracket and ends with `m`. The escape character itself keeps its column, as every control
character does; each of the other characters of the sequence that would have columns alone gives
one back.
-/

/-- Where a text stands with respect to sequences that set its style. -/
inductive StyleState where
  | outside
  | afterEscape
  | inside
  deriving Repr, DecidableEq

/-- The characters within sequences that set the style, from a given state on, as far as they would
    take columns alone. -/
def hiddenFrom : StyleState → List Char → Nat
  | _, [] => 0
  | .outside, c :: cs => hiddenFrom (if c = '\x1b' then .afterEscape else .outside) cs
  | .afterEscape, c :: cs => if c = '[' then 1 + hiddenFrom .inside cs else hiddenFrom .outside cs
  | .inside, c :: cs =>
    (if 0 < charColumns c then 1 else 0) + hiddenFrom (if c = 'm' then .outside else .inside) cs

/-- The columns that a line takes. -/
def columns (line : List Char) : Nat := (measure line).columns - hiddenFrom .outside line

/-! ### Plain lines -/

/-- Without an escape character no sequence begins, so nothing is hidden. -/
theorem hiddenFrom_of_not_mem {cs : List Char} (h : '\x1b' ∉ cs) : hiddenFrom .outside cs = 0 := by
  induction cs with
  | nil => rfl
  | cons c cs ih =>
    obtain ⟨hc, hcs⟩ := not_or.mp (mt List.mem_cons.mpr h)
    rw [hiddenFrom, if_neg fun e => hc e.symm]
    exact ih hcs

/-- A line of characters that join nothing, without an escape character, takes a column for each of
    them. -/
theorem columns_of_forall_le {line : List Char} (h : ∀ c ∈ line, c.toNat ≤ 0xA0)
    (plain : '\x1b' ∉ line) : columns line = line.length := by
  rw [columns, measure_of_forall_le h, hiddenFrom_of_not_mem plain]
  rfl

end RecordStore.Text

import Mathlib.Algebra.Order.Field.Rat
import Mathlib.Tactic.FieldSimp
import Mathlib.Tactic.Linarith
import Mathlib.Tactic.Positivity
import RecordStore.Number
import RecordStore.Proofs.Text.Pieces

/-! # The canonical text of a number

    A number that ends after some decimal place can be written in many ways: with zeros in front,
    with more places, and zero with a minus sign.  For a number of places that are to be shown one
    of these texts is canonical.  It is read as a decimal of that number and with those places, so
    no other number has it.  The route:

    * `Decimal.value`: the number that a decimal stands for;
    * `CanonicalParts`, `Canonical`: which text is canonical, told by its digits;
    * `Canonical.parse?`: it is read as what was written;
    * `canonical_digits`: the digits of a quotient and a remainder are those of a canonical text. -/

namespace RecordStore.Number

open RecordStore.Text

/-! ## Values -/

/-- The number that a decimal stands for. -/
def Decimal.value (d : Decimal) : ℚ := d.signedUnits / 10 ^ d.places

theorem cast_powerOfTen (n : Nat) : (powerOfTen n : ℚ) = 10 ^ n := by
  rw [powerOfTen]
  exact_mod_cast rfl

/-- The absolute value of a decimal is that of its units, whatever its sign. -/
theorem Decimal.abs_value (d : Decimal) : |d.value| = d.units / 10 ^ d.places := by
  have hpower : (0 : ℚ) < 10 ^ d.places := by positivity
  rw [value, abs_div, abs_of_pos hpower, signedUnits]
  cases d.negative <;> simp

/-! ## Digits -/

/-- Only the digits of zero begin with a zero. -/
theorem toDigits_of_head? {n : Nat} (h : (Nat.toDigits 10 n).head? = some '0') :
    Nat.toDigits 10 n = ['0'] := by
  induction n using Nat.strongRecOn with
  | ind n ih =>
      rw [Nat.toDigits_eq_if (by decide)] at h ⊢
      by_cases small : n < 10
      · rw [if_pos small, List.head?_cons] at h
        rw [if_pos small, Option.some.inj h]
      · -- the digits in front are those of a number that is not zero
        rw [if_neg small, List.head?_append_of_ne_nil _ Nat.toDigits_ne_nil] at h
        have front := ih (n / 10) (by omega) h
        have hzero : Nat.ofDigitChars 10 (Nat.toDigits 10 (n / 10)) 0 = 0 := by rw [front]; rfl
        rw [Nat.ofDigitChars_ten_toDigits] at hzero
        omega

/-- A number that fits a width is padded to just this width. -/
theorem length_paddedDigits {width n : Nat} (hn : n < 10 ^ width) (hwidth : 0 < width) :
    (paddedDigits width n).length = width := by
  have hlength := (Nat.length_toDigits_le_iff (by decide) hwidth).mpr hn
  rw [paddedDigits, List.length_append, List.length_replicate]
  omega

theorem ofDigitChars_paddedDigits (width n : Nat) :
    Nat.ofDigitChars 10 (paddedDigits width n) 0 = n := by
  rw [paddedDigits, Nat.ofDigitChars_append, Nat.ofDigitChars_replicate_zero, Nat.mul_zero,
    Nat.ofDigitChars_ten_toDigits]

theorem isDigit_of_mem_toDigits {n : Nat} {c : Char} (h : c ∈ Nat.toDigits 10 n) :
    c.isDigit = true :=
  Nat.isDigit_of_mem_toDigits (by decide) (by decide) h

theorem isDigit_of_mem_paddedDigits {width n : Nat} {c : Char} (h : c ∈ paddedDigits width n) :
    c.isDigit = true := by
  rcases List.mem_append.mp h with h | h
  · rw [List.eq_of_mem_replicate h]
    decide
  · exact isDigit_of_mem_toDigits h

/-- The first of some digits counts for a power of ten. -/
theorem ofDigitChars_cons_zero (c : Char) (cs : List Char) :
    Nat.ofDigitChars 10 (c :: cs) 0
      = 10 ^ cs.length * (c.toNat - 48) + Nat.ofDigitChars 10 cs 0 := by
  rw [Nat.ofDigitChars_cons, Nat.mul_zero, Nat.zero_add, Nat.ofDigitChars_eq_ofDigitChars_zero]
  rfl

theorem ofDigitChars_lt {cs : List Char} (digits : ∀ c ∈ cs, c.isDigit = true) :
    Nat.ofDigitChars 10 cs 0 < 10 ^ cs.length := by
  induction cs with
  | nil => exact Nat.one_pos
  | cons c cs ih =>
      obtain ⟨hc, hcs⟩ := List.forall_mem_cons.mp digits
      have hdigit : c.toNat - 48 ≤ 9 := Nat.sub_le_of_le_add (Char.isDigit_iff_toNat.mp hc).2
      have hmul := Nat.mul_le_mul_left (10 ^ cs.length) hdigit
      have hrest := ih hcs
      rw [ofDigitChars_cons_zero, List.length_cons, Nat.pow_succ]
      omega

/-- Digits that do not begin with a zero make a number of that many places at least. -/
theorem pow_le_ofDigitChars {c : Char} {cs : List Char} (hc : c.isDigit = true) (hzero : c ≠ '0') :
    10 ^ cs.length ≤ Nat.ofDigitChars 10 (c :: cs) 0 := by
  have hdigit : 1 ≤ c.toNat - 48 := by
    have hle : 48 ≤ c.toNat := (Char.isDigit_iff_toNat.mp hc).1
    have hne : c.toNat ≠ 48 := fun h => hzero (Char.toNat_inj.mp h)
    omega
  rw [ofDigitChars_cons_zero]
  exact Nat.le_add_right_of_le (Nat.le_mul_of_pos_right _ hdigit)

/-- As many digits that make the same number are the same. -/
theorem eq_of_ofDigitChars_eq {cs ds : List Char} (digits : ∀ c ∈ cs, c.isDigit = true)
    (digits' : ∀ d ∈ ds, d.isDigit = true) (length : cs.length = ds.length)
    (h : Nat.ofDigitChars 10 cs 0 = Nat.ofDigitChars 10 ds 0) : cs = ds := by
  induction cs generalizing ds with
  | nil => exact (List.eq_nil_of_length_eq_zero length.symm).symm
  | cons c cs ih =>
      cases ds with
      | nil => exact nomatch length
      | cons d ds =>
          obtain ⟨hc, hcs⟩ := List.forall_mem_cons.mp digits
          obtain ⟨hd, hds⟩ := List.forall_mem_cons.mp digits'
          have hlength : cs.length = ds.length := Nat.succ.inj length
          have hpos : 0 < 10 ^ ds.length := Nat.pow_pos (by decide)
          rw [ofDigitChars_cons_zero, ofDigitChars_cons_zero, hlength] at h
          have hlt := ofDigitChars_lt hcs
          have hlt' := ofDigitChars_lt hds
          rw [hlength] at hlt
          -- the first digit is the quotient by the power, and the others make the remainder
          have hquotient := congrArg (· / 10 ^ ds.length) h
          have hremainder := congrArg (· % 10 ^ ds.length) h
          simp only [Nat.mul_add_div hpos, Nat.div_eq_of_lt hlt, Nat.div_eq_of_lt hlt',
            Nat.add_zero] at hquotient
          simp only [Nat.mul_add_mod, Nat.mod_eq_of_lt hlt, Nat.mod_eq_of_lt hlt'] at hremainder
          have hfirst : c = d := by
            have hle : 48 ≤ c.toNat := (Char.isDigit_iff_toNat.mp hc).1
            have hle' : 48 ≤ d.toNat := (Char.isDigit_iff_toNat.mp hd).1
            exact Char.toNat_inj.mp (by omega)
          rw [hfirst, ih hcs hds hlength hremainder]

/-! ## Canonical texts -/

/-- The minus sign of a negative number. -/
def signChars (x : ℚ) : List Char := if x < 0 then ['-'] else []

/-- The digits before and after the point, which only places need. -/
def pointed (whole fraction : List Char) : List Char :=
  whole ++ if fraction = [] then [] else '.' :: fraction

/-- A text is canonical by its digits: those before the point, of which the first is no zero unless
    it is the only one, and as many as there are places after it. -/
structure CanonicalParts (text : List Char) (x : ℚ) (places : Nat) (whole fraction : List Char) :
    Prop where
  text_eq : text = signChars x ++ pointed whole fraction
  digits : ∀ c ∈ whole ++ fraction, c.isDigit = true
  nonempty : whole ≠ []
  leading : whole.head? = some '0' → whole = ['0']
  places_eq : fraction.length = places
  value_eq : |x| * 10 ^ places = Nat.ofDigitChars 10 (whole ++ fraction) 0

/-- The canonical text of a number with the given places: a minus sign if and only if the number is
    negative, no superfluous zeros in front, and no point where there are no places. -/
def Canonical (text : String) (x : ℚ) (places : Nat) : Prop :=
  ∃ whole fraction, CanonicalParts text.toList x places whole fraction

/-! ## Reading -/

/-- Digits with a point between them are cut at the point. -/
theorem splitPoint_pointed {whole fraction : List Char}
    (digits : ∀ c ∈ whole, c.isDigit = true) :
    Decimal.splitPoint (pointed whole fraction) = (whole, fraction) := by
  have free : ∀ c ∈ whole, (c == '.') = false := by
    intro c hc
    refine beq_eq_false_iff_ne.mpr ?_
    rintro rfl
    exact absurd (digits _ hc) (by decide)
  rw [Decimal.splitPoint, pointed]
  by_cases hfraction : fraction = []
  · rw [if_pos hfraction, List.append_nil, splitAtFirst?_eq_none free, hfraction]
    rfl
  · rw [if_neg hfraction, splitAtFirst?_append free rfl]
    rfl

/-- Digits with a point among them are read as the number of all of them. -/
theorem ofDigits?_pointed {whole fraction : List Char} (negative : Bool)
    (digits : ∀ c ∈ whole ++ fraction, c.isDigit = true) (nonempty : whole ≠ []) :
    Decimal.ofDigits? negative (pointed whole fraction)
      = some ⟨negative, Nat.ofDigitChars 10 (whole ++ fraction) 0, fraction.length⟩ := by
  have hsplit : Decimal.splitPoint (pointed whole fraction) = (whole, fraction) :=
    splitPoint_pointed fun c hc => digits c (List.mem_append_left _ hc)
  have hwhole : whole.isEmpty = false := List.isEmpty_eq_false_iff.mpr nonempty
  have hdigits : (whole ++ fraction).all Char.isDigit = true := List.all_eq_true.mpr digits
  rw [Decimal.ofDigits?, hsplit]
  simp only [hwhole, hdigits, Bool.false_and, Bool.false_eq_true, if_false, if_true]

namespace CanonicalParts

variable {text : List Char} {x : ℚ} {places : Nat} {whole fraction : List Char}

/-- The digits of a canonical text are read as the units of so many places. -/
theorem ofDigits? (h : CanonicalParts text x places whole fraction) (negative : Bool) :
    Decimal.ofDigits? negative (pointed whole fraction)
      = some ⟨negative, Nat.ofDigitChars 10 (whole ++ fraction) 0, places⟩ := by
  rw [ofDigits?_pointed negative h.digits h.nonempty, h.places_eq]

/-- A canonical text is read with a sign exactly if the number is negative. -/
theorem ofChars? (h : CanonicalParts text x places whole fraction) :
    Decimal.ofChars? text
      = some ⟨decide (x < 0), Nat.ofDigitChars 10 (whole ++ fraction) 0, places⟩ := by
  rw [h.text_eq, signChars]
  by_cases hneg : x < 0
  · rw [if_pos hneg, decide_eq_true hneg]
    exact h.ofDigits? true
  · rw [if_neg hneg, decide_eq_false hneg, List.nil_append, ← h.ofDigits? false]
    obtain ⟨c, cs, rfl⟩ := List.exists_cons_of_ne_nil h.nonempty
    have hc : c.isDigit = true := h.digits c List.mem_cons_self
    rw [Decimal.ofChars?.eq_def]
    split
    · next e =>
      rw [pointed, List.cons_append] at e
      rw [(List.cons.inj e).1] at hc
      exact absurd hc (by decide)
    · rfl

/-! ## Uniqueness -/

variable {text' whole' fraction' : List Char}

/-- Two canonical texts of a value at so many places have the same digits in all. -/
theorem ofDigitChars_eq (h : CanonicalParts text x places whole fraction)
    (h' : CanonicalParts text' x places whole' fraction') :
    Nat.ofDigitChars 10 (whole ++ fraction) 0 = Nat.ofDigitChars 10 (whole' ++ fraction') 0 := by
  have hcast := h.value_eq.symm.trans h'.value_eq
  exact_mod_cast hcast

/-- More digits before the point make another number, since the first is no zero. -/
theorem length_whole_le (h : CanonicalParts text x places whole fraction)
    (h' : CanonicalParts text' x places whole' fraction') : whole'.length ≤ whole.length := by
  by_contra longer
  obtain ⟨c, cs, rfl⟩ := List.exists_cons_of_ne_nil h'.nonempty
  have hpos : 0 < whole.length := List.length_pos_iff.mpr h.nonempty
  rw [List.length_cons] at longer
  have hzero : c ≠ '0' := by
    rintro rfl
    have hcs := (List.cons.inj (h'.leading rfl)).2
    rw [hcs, List.length_nil] at longer
    omega
  have hle : 10 ^ (cs ++ fraction').length ≤ Nat.ofDigitChars 10 ((c :: cs) ++ fraction') 0 :=
    pow_le_ofDigitChars (h'.digits c List.mem_cons_self) hzero
  have hlt := ofDigitChars_lt h.digits
  rw [h.ofDigitChars_eq h'] at hlt
  have hpower : 10 ^ (whole ++ fraction).length ≤ 10 ^ (cs ++ fraction').length := by
    refine Nat.pow_le_pow_right (by decide) ?_
    rw [List.length_append, List.length_append, h.places_eq, h'.places_eq]
    omega
  omega

/-- So they are the same text. -/
theorem text_unique (h : CanonicalParts text x places whole fraction)
    (h' : CanonicalParts text' x places whole' fraction') : text = text' := by
  have hwhole : whole.length = whole'.length :=
    Nat.le_antisymm (h'.length_whole_le h) (h.length_whole_le h')
  have hlength : (whole ++ fraction).length = (whole' ++ fraction').length := by
    rw [List.length_append, List.length_append, hwhole, h.places_eq, h'.places_eq]
  have hdigits := eq_of_ofDigitChars_eq h.digits h'.digits hlength (h.ofDigitChars_eq h')
  obtain ⟨rfl, rfl⟩ := List.append_inj hdigits hwhole
  rw [h.text_eq, h'.text_eq]

end CanonicalParts

variable {text : String} {x y : ℚ} {places : Nat}

/-- A number has one canonical text for each number of places. -/
theorem Canonical.text_unique {text' : String} (h : Canonical text x places)
    (h' : Canonical text' x places) : text = text' := by
  obtain ⟨whole, fraction, h⟩ := h
  obtain ⟨whole', fraction', h'⟩ := h'
  exact String.toList_inj.mp (h.text_unique h')

/-- A canonical text is read as a decimal of the number, and with its places. -/
theorem Canonical.parse? (h : Canonical text x places) :
    ∃ d, Decimal.parse? text = some d ∧ d.places = places ∧ d.value = x := by
  obtain ⟨whole, fraction, h⟩ := h
  have hpower : (10 : ℚ) ^ places ≠ 0 := by positivity
  refine ⟨_, h.ofChars?, rfl, ?_⟩
  rw [Decimal.value, div_eq_iff hpower, Decimal.signedUnits]
  by_cases hneg : x < 0
  · rw [decide_eq_true hneg, if_pos rfl, Int.cast_neg, Int.cast_natCast, ← h.value_eq,
      abs_of_neg hneg, neg_mul, neg_neg]
  · rw [decide_eq_false hneg, if_neg Bool.false_ne_true, Int.cast_natCast, ← h.value_eq,
      abs_of_nonneg (not_lt.mp hneg)]

/-- No two numbers have the same canonical text. -/
theorem Canonical.value_unique {places' : Nat} (h : Canonical text x places)
    (h' : Canonical text y places') : x = y := by
  obtain ⟨d, hd, -, rfl⟩ := h.parse?
  obtain ⟨d', hd', -, rfl⟩ := h'.parse?
  rw [Option.some.inj (hd.symm.trans hd')]

/-! ## Writing -/

/-- The digits of a number at some places: those of the quotient by the power of ten, and those of
    the remainder behind the point. -/
theorem canonical_digits {q r : Nat} (hr : r < 10 ^ places)
    (hx : |x| * 10 ^ places = q * 10 ^ places + r) :
    CanonicalParts
      (signChars x ++ pointed (Nat.toDigits 10 q) (if places = 0 then [] else paddedDigits places r))
      x places (Nat.toDigits 10 q) (if places = 0 then [] else paddedDigits places r) where
  text_eq := rfl
  digits := by
    intro c hc
    rcases List.mem_append.mp hc with hc | hc
    · exact isDigit_of_mem_toDigits hc
    · by_cases hplaces : places = 0
      · rw [if_pos hplaces] at hc
        exact nomatch hc
      · rw [if_neg hplaces] at hc
        exact isDigit_of_mem_paddedDigits hc
  nonempty := Nat.toDigits_ne_nil
  leading := toDigits_of_head?
  places_eq := by
    by_cases hplaces : places = 0
    · rw [if_pos hplaces, hplaces]
      rfl
    · rw [if_neg hplaces]
      exact length_paddedDigits hr (Nat.pos_of_ne_zero hplaces)
  value_eq := by
    rw [hx, Nat.ofDigitChars_append, Nat.ofDigitChars_ten_toDigits]
    by_cases hplaces : places = 0
    · subst hplaces
      obtain rfl : r = 0 := by simpa using hr
      simp
    · rw [if_neg hplaces, Nat.ofDigitChars_eq_ofDigitChars_zero,
        length_paddedDigits hr (Nat.pos_of_ne_zero hplaces), ofDigitChars_paddedDigits]
      push_cast
      rw [mul_comm (q : ℚ)]

end RecordStore.Number

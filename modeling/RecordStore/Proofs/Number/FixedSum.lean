import Mathlib.Data.Nat.GCD.Basic
import RecordStore.Proofs.Number.Canonical

/-! # Sums in a fixed-point word

    A sum is kept as a count of units at the largest number of places so far.  Whatever leaves the
    word makes it fail, so a sum that is there is exact; and as long as nothing is beyond the word,
    it is there.  Its text is another matter: it divides by a power of ten in an unsigned word, and
    the check that was made for each widening says nothing of all of them together.  The route:

    * `Word.fits_iff`, `Word.shift?_eq_some_iff`: what stays in the word;
    * `FixedSum.add?_eq_ok_iff`: everything that an addition does;
    * `FixedSum.value_of_add?`, `FixedSum.exists_add?`: it is exact, and it succeeds in bounds;
    * `FixedSum.canonical_of_format?`, `FixedSum.printed_eq_value_iff`: the text is that of some
      number, and when this is the sum. -/

namespace RecordStore.Number

/-! ## What the word holds -/

namespace Word

variable {n m : Int} {extra : Nat}

/-- A signed word holds the numbers from its least to its greatest. -/
theorem fits_iff : fits n = true ↔ -(bound : Int) ≤ n ∧ n < bound := by
  cases n with
  | ofNat n =>
      show decide (n < bound) = true ↔ _
      rw [decide_eq_true_iff]
      simp only [Int.ofNat_eq_natCast]
      omega
  | negSucc n =>
      show decide (n < bound) = true ↔ _
      rw [decide_eq_true_iff]
      omega

/-- A number whose absolute value is below the bound stays in the word. -/
theorem fits_of_abs_lt (h : |(n : ℚ)| < bound) : fits n = true := by
  have hn : |n| < (bound : Int) := by exact_mod_cast h
  obtain ⟨hlow, hhigh⟩ := abs_lt.mp hn
  exact fits_iff.mpr ⟨hlow.le, hhigh⟩

theorem ofInt?_eq_some_iff : ofInt? n = some m ↔ fits n = true ∧ n = m := by
  rw [ofInt?, Option.ite_none_right_eq_some, Option.some.injEq]

/-- The units of a decimal get into a word when their absolute value fits. -/
theorem units?_eq_some_iff {d : Decimal} :
    units? d = some m ↔ fits d.units = true ∧ d.signedUnits = m := by
  rw [units?, Option.ite_none_right_eq_some, Option.some.injEq]

/-- Units are shifted by 38 places at most, and when the result fits. -/
theorem shift?_eq_some_iff :
    shift? n extra = some m ↔ extra ≤ 38 ∧ fits m = true ∧ n * powerOfTen extra = m := by
  rw [shift?, Option.ite_none_right_eq_some, ofInt?_eq_some_iff]
  constructor
  · rintro ⟨h, hfits, rfl⟩
    exact ⟨h, hfits, rfl⟩
  · rintro ⟨h, hfits, rfl⟩
    exact ⟨h, hfits, rfl⟩

/-- The power of ten that the word has is the power itself up to the 38th, and less beyond. -/
theorem wrappedPower_eq_iff : wrappedPower extra = 10 ^ extra ↔ extra ≤ 38 := by
  show 10 ^ extra % count = 10 ^ extra ↔ _
  constructor
  · intro h
    by_contra beyond
    have hlt : 10 ^ extra < count := h ▸ Nat.mod_lt _ (by decide)
    have hle : 10 ^ 39 ≤ 10 ^ extra := Nat.pow_le_pow_right (by decide) (by omega)
    have hcount : count < 10 ^ 39 := by decide
    omega
  · intro h
    refine Nat.mod_eq_of_lt (lt_of_le_of_lt (Nat.pow_le_pow_right (by decide) h) ?_)
    decide

/-- From the 128th on, the power of ten has all its 128 bits zero. -/
theorem wrappedPower_eq_zero_iff : wrappedPower extra = 0 ↔ 128 ≤ extra := by
  have hcount : count = 2 ^ 128 := by decide
  have hpower : powerOfTen extra = 2 ^ extra * 5 ^ extra := Nat.mul_pow 2 5 extra
  have hcoprime : Nat.Coprime (2 ^ 128) (5 ^ extra) := Nat.Coprime.pow 128 extra (by decide)
  rw [wrappedPower, ← Nat.dvd_iff_mod_eq_zero, hcount, hpower,
    Nat.Coprime.dvd_mul_right hcoprime, Nat.pow_dvd_pow_iff_le_right']

theorem wrappedPower_le : wrappedPower extra ≤ 10 ^ extra := Nat.mod_le _ _

end Word

namespace FixedSum

variable {s t : FixedSum} {d : Decimal}

/-! ## Adding -/

/-- The number that a sum stands for. -/
def value (s : FixedSum) : ℚ := s.total / 10 ^ s.places

/-- All that an addition does: both counts of units are brought to the same places and added, and
    nothing of it leaves the word. -/
theorem add?_eq_ok_iff :
    s.add? d = .ok t ↔
      Word.fits d.units = true ∧
      ∃ total units,
        Word.shift? s.total (max s.places d.places - s.places) = some total ∧
        Word.shift? d.signedUnits (max s.places d.places - d.places) = some units ∧
        Word.fits (total + units) = true ∧ t = ⟨total + units, max s.places d.places⟩ := by
  rw [add?]
  constructor
  · intro h
    split at h
    · next units hunits =>
      obtain ⟨held, rfl⟩ := Word.units?_eq_some_iff.mp hunits
      dsimp only at h
      split at h
      · next total htotal =>
        split at h
        · next units hunits =>
          split at h
          · next sum hsum =>
            cases h
            obtain ⟨hfits, rfl⟩ := Word.ofInt?_eq_some_iff.mp hsum
            exact ⟨held, total, units, htotal, hunits, hfits, rfl⟩
          · exact nomatch h
        · exact nomatch h
      · exact nomatch h
    · exact nomatch h
  · rintro ⟨held, total, units, htotal, hunits, hfits, rfl⟩
    rw [Word.units?_eq_some_iff.mpr ⟨held, rfl⟩]
    dsimp only
    rw [htotal, hunits]
    dsimp only
    rw [Word.ofInt?_eq_some_iff.mpr ⟨hfits, rfl⟩]
    rfl

/-- Units at more places stand for the same number. -/
theorem shifted_div {n : Int} {places wider : Nat} (h : places ≤ wider) :
    ((n * powerOfTen (wider - places) : Int) : ℚ) / 10 ^ wider = n / 10 ^ places := by
  rw [Int.cast_mul, Int.cast_natCast, cast_powerOfTen, ← Nat.sub_add_cancel h, Nat.add_sub_cancel,
    pow_add]
  field_simp

/-- A sum has the places of the one that has more of them. -/
theorem places_of_add? (h : s.add? d = .ok t) : t.places = max s.places d.places := by
  obtain ⟨-, total, units, -, -, -, rfl⟩ := add?_eq_ok_iff.mp h
  rfl

/-- A sum that is there is exact. -/
theorem value_of_add? (h : s.add? d = .ok t) : t.value = s.value + d.value := by
  obtain ⟨-, total, units, htotal, hunits, -, rfl⟩ := add?_eq_ok_iff.mp h
  obtain ⟨-, -, rfl⟩ := Word.shift?_eq_some_iff.mp htotal
  obtain ⟨-, -, rfl⟩ := Word.shift?_eq_some_iff.mp hunits
  rw [value, Int.cast_add, add_div, shifted_div (le_max_left ..), shifted_div (le_max_right ..)]
  rfl

/-- A count of units that is shifted to more places is what the number has there. -/
theorem exists_shift? {n : Int} {places wider : Nat} (h : places ≤ wider) (hwider : wider ≤ 38)
    (bounded : |(n : ℚ) / 10 ^ places| * 10 ^ wider < Word.bound) :
    ∃ m : Int, Word.shift? n (wider - places) = some m ∧
      (m : ℚ) = n / 10 ^ places * 10 ^ wider := by
  have hpower : (0 : ℚ) < 10 ^ wider := by positivity
  have hm := (div_eq_iff hpower.ne').mp (shifted_div (n := n) h)
  refine ⟨_, Word.shift?_eq_some_iff.mpr ⟨by omega, Word.fits_of_abs_lt ?_, rfl⟩, hm⟩
  rw [hm, abs_mul, abs_of_pos hpower]
  exact bounded

/-- An addition succeeds where even the absolute values add up to a count below the bound. -/
theorem exists_add? (hs : s.places ≤ 38) (hd : d.places ≤ 38)
    (bounded : (|s.value| + |d.value|) * 10 ^ max s.places d.places < Word.bound) :
    ∃ t, s.add? d = .ok t := by
  have hwider : max s.places d.places ≤ 38 := max_le hs hd
  have hpower : (0 : ℚ) < 10 ^ max s.places d.places := by positivity
  have hsum := abs_nonneg s.value
  have hadded := abs_nonneg d.value
  obtain ⟨total, htotal, total_eq⟩ := exists_shift? (n := s.total) (le_max_left _ d.places) hwider
    (lt_of_le_of_lt (mul_le_mul_of_nonneg_right (le_add_of_nonneg_right hadded) hpower.le) bounded)
  obtain ⟨units, hunits, units_eq⟩ := exists_shift? (n := d.signedUnits)
    (le_max_right s.places _) hwider
    (lt_of_le_of_lt (mul_le_mul_of_nonneg_right (le_add_of_nonneg_left hsum) hpower.le) bounded)
  have held : Word.fits d.units = true := by
    -- the units of the decimal at its own places are no more than those at all places
    refine Word.fits_of_abs_lt (lt_of_le_of_lt ?_ bounded)
    have hplaces : (10 : ℚ) ^ d.places ≤ 10 ^ max s.places d.places :=
      pow_le_pow_right₀ (by norm_num) (le_max_right ..)
    have hunits : |((d.units : Int) : ℚ)| = |d.value| * 10 ^ d.places := by
      rw [Decimal.abs_value, Int.cast_natCast, Nat.abs_cast]
      field_simp
    rw [hunits]
    exact mul_le_mul (le_add_of_nonneg_left hsum) hplaces (by positivity) (by positivity)
  have hfits : Word.fits (total + units) = true := by
    refine Word.fits_of_abs_lt (lt_of_le_of_lt ?_ bounded)
    rw [Int.cast_add, total_eq, units_eq, ← add_mul, abs_mul, abs_of_pos hpower]
    exact mul_le_mul_of_nonneg_right (abs_add_le s.value d.value) hpower.le
  exact ⟨_, add?_eq_ok_iff.mpr ⟨held, total, units, htotal, hunits, hfits, rfl⟩⟩

/-! ## Printing -/

/-- The number that the text of a sum stands for: the total is divided by the power of ten that the
    word has, and the remainder is put behind the point. -/
def printed (s : FixedSum) : ℚ :=
  let divisor := Word.wrappedPower s.places
  let magnitude : ℚ :=
    (s.total.natAbs / divisor : Nat) + (s.total.natAbs % divisor : Nat) / 10 ^ s.places
  if s.total < 0 then -magnitude else magnitude

/-- A sum cannot be printed from 128 places on: these are the powers of ten that a word wraps around
    to zero. -/
theorem format?_eq_none_iff : s.format? = none ↔ 128 ≤ s.places := by
  rw [format?]
  by_cases hplaces : s.places = 0
  · rw [if_pos hplaces]
    refine iff_of_false (fun h => nomatch h) ?_
    omega
  · rw [if_neg hplaces]
    by_cases hzero : Word.wrappedPower s.places = 0
    · exact iff_of_true (if_pos hzero) (Word.wrappedPower_eq_zero_iff.mp hzero)
    · refine iff_of_false ?_ (mt Word.wrappedPower_eq_zero_iff.mpr hzero)
      dsimp only
      rw [if_neg hzero]
      exact fun h => nomatch h

/-- The digits of a text that is there are those of a quotient and of its remainder. -/
theorem toList_of_format? {text : String} (h : s.format? = some text) :
    text.toList = (if s.total < 0 then ['-'] else []) ++
      pointed (Nat.toDigits 10 (s.total.natAbs / Word.wrappedPower s.places))
        (if s.places = 0 then []
          else paddedDigits s.places (s.total.natAbs % Word.wrappedPower s.places)) := by
  have hsign : (if s.total < 0 then "-" else "").toList
      = if s.total < 0 then ['-'] else [] := by
    by_cases hneg : s.total < 0
    · rw [if_pos hneg, if_pos hneg]
      rfl
    · rw [if_neg hneg, if_neg hneg]
      rfl
  have hdigits (n : Nat) : (toString n).toList = Nat.toDigits 10 n := by
    rw [Nat.toString_eq_ofList_toDigits, String.toList_ofList]
  rw [format?] at h
  by_cases hplaces : s.places = 0
  · rw [if_pos hplaces] at h
    cases h
    have hone : Word.wrappedPower 0 = 1 := by decide
    rw [hplaces, hone, Nat.div_one, if_pos rfl, pointed, if_pos rfl, List.append_nil,
      String.toList_append, hsign, hdigits]
  · rw [if_neg hplaces] at h ⊢
    dsimp only at h
    split at h
    · cases h
    · cases h
      have hpadded (n : Nat) : paddedDigits s.places n ≠ [] := by
        intro h
        exact Nat.toDigits_ne_nil (List.append_eq_nil_iff.mp h).2
      rw [pointed, if_neg (hpadded _), String.toList_append, String.toList_append,
        String.toList_append, hsign, hdigits, String.toList_ofList, String.toList_ofList,
        List.append_assoc, List.append_assoc]
      rfl

/-- What is printed is the quotient by the wrapped power, with the remainder behind the point. -/
theorem abs_printed (s : FixedSum) : |s.printed| * 10 ^ s.places
    = (s.total.natAbs / Word.wrappedPower s.places : Nat) * 10 ^ s.places
      + (s.total.natAbs % Word.wrappedPower s.places : Nat) := by
  have hpower : (10 : ℚ) ^ s.places ≠ 0 := by positivity
  have habs : |s.printed| = (s.total.natAbs / Word.wrappedPower s.places : Nat)
      + (s.total.natAbs % Word.wrappedPower s.places : Nat) / 10 ^ s.places := by
    rw [printed]
    by_cases hneg : s.total < 0
    · rw [if_pos hneg, abs_neg, abs_of_nonneg (by positivity)]
    · rw [if_neg hneg, abs_of_nonneg (by positivity)]
  rw [habs, add_mul, div_mul_cancel₀ _ hpower]

/-- The text has a minus sign exactly if its number is negative. -/
theorem printed_neg_iff : s.printed < 0 ↔ s.total < 0 := by
  rw [printed]
  by_cases hneg : s.total < 0
  · rw [if_pos hneg]
    refine iff_of_true (neg_neg_of_pos ?_) hneg
    -- quotient and remainder of a number that is not zero are not both zero
    have hpos : 0 < s.total.natAbs / Word.wrappedPower s.places ∨
        0 < s.total.natAbs % Word.wrappedPower s.places := by
      by_contra hzero
      have hdiv := Nat.div_add_mod s.total.natAbs (Word.wrappedPower s.places)
      obtain ⟨hq, hr⟩ := not_or.mp hzero
      rw [Nat.eq_zero_of_not_pos hq, Nat.eq_zero_of_not_pos hr, Nat.mul_zero] at hdiv
      omega
    rcases hpos with hq | hr
    · have hq' : (0 : ℚ) < (s.total.natAbs / Word.wrappedPower s.places : Nat) := by
        exact_mod_cast hq
      exact add_pos_of_pos_of_nonneg hq' (by positivity)
    · have hr' : (0 : ℚ) < (s.total.natAbs % Word.wrappedPower s.places : Nat) := by
        exact_mod_cast hr
      exact add_pos_of_nonneg_of_pos (by positivity) (by positivity)
  · rw [if_neg hneg]
    exact iff_of_false (not_lt.mpr (by positivity)) hneg

/-- A text that is there is the canonical one of the number that it stands for. -/
theorem canonical_of_format? {text : String} (h : s.format? = some text) :
    Canonical text s.printed s.places := by
  have hzero : Word.wrappedPower s.places ≠ 0 := by
    intro e
    rw [format?_eq_none_iff.mpr (Word.wrappedPower_eq_zero_iff.mp e)] at h
    exact nomatch h
  have hr : s.total.natAbs % Word.wrappedPower s.places < 10 ^ s.places :=
    lt_of_lt_of_le (Nat.mod_lt _ (Nat.pos_of_ne_zero hzero)) Word.wrappedPower_le
  have parts := canonical_digits hr (abs_printed s)
  have hsign : signChars s.printed = if s.total < 0 then ['-'] else [] := by
    rw [signChars, if_congr printed_neg_iff rfl rfl]
  rw [hsign, ← toList_of_format? h] at parts
  exact ⟨_, _, parts⟩

/-- The absolute value of a sum, in units of its last place. -/
theorem abs_value (s : FixedSum) : |s.value| * 10 ^ s.places = s.total.natAbs := by
  have hpower : (0 : ℚ) < 10 ^ s.places := by positivity
  rw [value, abs_div, abs_of_pos hpower, div_mul_cancel₀ _ hpower.ne', Nat.cast_natAbs, Int.cast_abs]

/-- The text stands for the sum up to 38 places, and beyond them as long as the total is less than
    what the word has for the power of ten. -/
theorem printed_eq_value_iff (printable : s.places < 128) :
    s.printed = s.value ↔ s.places ≤ 38 ∨ s.total.natAbs < Word.wrappedPower s.places := by
  have hpos : 0 < Word.wrappedPower s.places :=
    Nat.pos_of_ne_zero (mt Word.wrappedPower_eq_zero_iff.mp (by omega))
  have hpower : (0 : ℚ) < 10 ^ s.places := by positivity
  -- both have the sign of the total, so only their absolute values can differ
  have hvalue : s.value < 0 ↔ s.total < 0 := by
    rw [value, div_lt_iff₀ hpower, zero_mul, Int.cast_lt_zero]
  have habs : s.printed = s.value ↔ |s.printed| = |s.value| := by
    refine ⟨congrArg abs, fun h => ?_⟩
    by_cases hneg : s.total < 0
    · rw [abs_of_neg (printed_neg_iff.mpr hneg), abs_of_neg (hvalue.mpr hneg)] at h
      exact neg_inj.mp h
    · rwa [abs_of_nonneg (not_lt.mp (mt printed_neg_iff.mp hneg)),
        abs_of_nonneg (not_lt.mp (mt hvalue.mp hneg))] at h
  have hdiv := Nat.div_add_mod s.total.natAbs (Word.wrappedPower s.places)
  rw [habs, ← mul_left_inj' hpower.ne', abs_printed, abs_value, ← Word.wrappedPower_eq_iff,
    ← Nat.div_eq_zero_iff_lt hpos]
  generalize s.total.natAbs / Word.wrappedPower s.places = q at *
  generalize s.total.natAbs % Word.wrappedPower s.places = r at *
  rw [← hdiv]
  norm_cast
  rw [Nat.add_right_cancel_iff, Nat.mul_comm (Word.wrappedPower s.places)]
  constructor
  · intro h
    rcases Nat.eq_zero_or_pos q with hq | hq
    · exact .inr hq
    · exact .inl (Nat.eq_of_mul_eq_mul_left hq h).symm
  · rintro (h | rfl)
    · rw [h]
    · rw [Nat.zero_mul, Nat.zero_mul]

end FixedSum

end RecordStore.Number

import Mathlib.Tactic.Ring
import RecordStore.Number
import RecordStore.Proofs.Number.Canonical

/-! # Rounding to the nearest double keeps the order

    The nearest doubles of two numbers are never the other way round than the numbers, though they
    may be the same.  On one grid this is so for the nearest multiples.  On two grids the number on
    the finer one is rounded to `2 ^ 53` of its units at most, and there the multiples on the
    coarser one begin.  The route:

    * `Binary64.nearestQuotient_mono`: one grid;
    * `Binary64.nearest_mono`: all grids;
    * `Binary64.rank_le_of_lt`: decimals, with their signs. -/

namespace RecordStore.Number

namespace Binary64

variable {a b c d : Nat}

/-! ## Nearest multiples -/

/-- Quotients of whole numbers are ordered as the fractions are. -/
theorem div_le_div_of_cross (hb : 0 < b) (hd : 0 < d) (h : a * d ≤ c * b) : a / b ≤ c / d := by
  rw [Nat.le_div_iff_mul_le hd]
  refine Nat.le_of_mul_le_mul_right ?_ hb
  calc a / b * d * b = a / b * b * d := Nat.mul_right_comm ..
    _ ≤ a * d := Nat.mul_le_mul_right d (Nat.div_mul_le_self a b)
    _ ≤ c * b := h

theorem le_nearestQuotient (a b : Nat) : a / b ≤ nearestQuotient a b := by
  rw [nearestQuotient]
  split <;> omega

theorem nearestQuotient_le (a b : Nat) : nearestQuotient a b ≤ a / b + 1 := by
  rw [nearestQuotient]
  split <;> omega

/-- The multiple of a grid that is nearest to a number follows the number. -/
theorem nearestQuotient_mono (hb : 0 < b) (hd : 0 < d) (h : a * d ≤ c * b) :
    nearestQuotient a b ≤ nearestQuotient c d := by
  rcases Nat.lt_or_eq_of_le (div_le_div_of_cross hb hd h) with hlt | heq
  · exact (nearestQuotient_le a b).trans (hlt.trans_le (le_nearestQuotient c d))
  · -- between the same two multiples the remainders decide
    have hrest : a % b * d ≤ c % d * b := by
      have hsplit : c / d * b * d + a % b * d ≤ c / d * b * d + c % d * b := by
        calc c / d * b * d + a % b * d = (b * (a / b) + a % b) * d := by rw [heq]; ring
          _ = a * d := by rw [Nat.div_add_mod]
          _ ≤ c * b := h
          _ = (d * (c / d) + c % d) * b := by rw [Nat.div_add_mod]
          _ = c / d * b * d + c % d * b := by ring
      exact Nat.le_of_add_le_add_left hsplit
    have hmiddle (hup : b ≤ 2 * (a % b)) : d ≤ 2 * (c % d) := by
      refine Nat.le_of_mul_le_mul_right ?_ hb
      calc d * b ≤ 2 * (a % b) * d := by
            rw [Nat.mul_comm d]
            exact Nat.mul_le_mul_right d hup
        _ = 2 * (a % b * d) := Nat.mul_assoc ..
        _ ≤ 2 * (c % d * b) := Nat.mul_le_mul_left 2 hrest
        _ = 2 * (c % d) * b := (Nat.mul_assoc ..).symm
    have habove (hup : b < 2 * (a % b)) : d < 2 * (c % d) := by
      refine Nat.lt_of_mul_lt_mul_right (a := b) ?_
      calc d * b < 2 * (a % b) * d := by
            rw [Nat.mul_comm d]
            exact Nat.mul_lt_mul_of_pos_right hup hd
        _ = 2 * (a % b * d) := Nat.mul_assoc ..
        _ ≤ 2 * (c % d * b) := Nat.mul_le_mul_left 2 hrest
        _ = 2 * (c % d) * b := (Nat.mul_assoc ..).symm
    rw [nearestQuotient, nearestQuotient, heq]
    by_cases hup : b < 2 * (a % b) ∨ 2 * (a % b) = b ∧ c / d % 2 = 1
    · have hup' : d < 2 * (c % d) ∨ 2 * (c % d) = d ∧ c / d % 2 = 1 := by
        rcases hup with hup | ⟨htie, hodd⟩
        · exact .inl (habove hup)
        · have := hmiddle htie.ge
          omega
      rw [if_pos hup, if_pos hup']
    · rw [if_neg hup]
      split <;> omega

/-! ## Grids -/

/-- The grid on which a number is rounded, by the whole units of the finest grid that it has. -/
def gridOf (q : Nat) : Nat := Nat.log2 q - 52

/-- On its grid a number has less than `2 ^ 53` units. -/
theorem lt_of_gridOf (q : Nat) : q < 2 ^ (gridOf q + 53) := by
  refine Nat.lt_log2_self.trans_le (Nat.pow_le_pow_right (by decide) ?_)
  rw [gridOf]
  omega

/-- On its grid, unless this is the finest, a number has `2 ^ 52` units at least. -/
theorem le_of_gridOf_pos {q : Nat} (h : 0 < gridOf q) : 2 ^ (gridOf q + 52) ≤ q := by
  have hlog : gridOf q + 52 = Nat.log2 q := by
    rw [gridOf] at h ⊢
    omega
  have hq : q ≠ 0 := by
    rintro rfl
    exact absurd h (by decide)
  rw [hlog]
  exact Nat.log2_self_le hq

/-- Greater numbers lie on grids that are no finer. -/
theorem gridOf_mono {q q' : Nat} (h : q ≤ q') : gridOf q ≤ gridOf q' := by
  by_contra finer
  have hle := le_of_gridOf_pos (q := q) (by omega)
  have hlt := lt_of_gridOf q'
  have hpower : 2 ^ (gridOf q' + 53) ≤ 2 ^ (gridOf q + 52) :=
    Nat.pow_le_pow_right (by decide) (by omega)
  omega

/-- The nearest multiple on the grid of a number, as all multiples on all grids are counted. -/
def onGrid (num den : Nat) : Nat :=
  gridOf (num / den) <<< 52 + nearestQuotient num (den <<< gridOf (num / den))

/-- The nearest double is a multiple on a grid, or infinity where that is beyond all of them. -/
theorem nearest_eq (num den : Nat) :
    nearest num den = min (onGrid (num <<< 1074) den) infinity := rfl

/-- The pattern on a grid does not go beyond where the next grid begins. -/
theorem onGrid_le (a b : Nat) : onGrid a b ≤ (gridOf (a / b) + 1) * 2 ^ 52 + 2 ^ 52 := by
  have hq : a / (b * 2 ^ gridOf (a / b)) < 2 ^ 53 := by
    rw [← Nat.div_div_eq_div_mul]
    refine Nat.div_lt_of_lt_mul ?_
    rw [← Nat.pow_add]
    exact lt_of_gridOf (a / b)
  have hnearest := nearestQuotient_le a (b * 2 ^ gridOf (a / b))
  rw [onGrid, Nat.shiftLeft_eq, Nat.shiftLeft_eq]
  omega

/-- On all grids but the finest the multiple has its foremost bit. -/
theorem le_onGrid (h : 0 < gridOf (a / b)) :
    gridOf (a / b) * 2 ^ 52 + 2 ^ 52 ≤ onGrid a b := by
  have hq : 2 ^ 52 ≤ a / (b * 2 ^ gridOf (a / b)) := by
    rw [← Nat.div_div_eq_div_mul, Nat.le_div_iff_mul_le (Nat.two_pow_pos _), ← Nat.pow_add,
      Nat.add_comm]
    exact le_of_gridOf_pos h
  have hnearest := le_nearestQuotient a (b * 2 ^ gridOf (a / b))
  rw [onGrid, Nat.shiftLeft_eq, Nat.shiftLeft_eq]
  omega

/-- The pattern grows with the fraction.  On one grid the quotients are compared, on two the power
    of two between them. -/
theorem onGrid_mono (hb : 0 < b) (hd : 0 < d) (h : a * d ≤ c * b) : onGrid a b ≤ onGrid c d := by
  rcases Nat.lt_or_eq_of_le (gridOf_mono (div_le_div_of_cross hb hd h)) with finer | heq
  · -- the multiples on the coarser grid begin behind those on the finer one
    have hhigh := onGrid_le a b
    have hlow : gridOf (c / d) * 2 ^ 52 + 2 ^ 52 ≤ onGrid c d := le_onGrid (by omega)
    omega
  · rw [onGrid, onGrid, heq]
    refine Nat.add_le_add_left (nearestQuotient_mono ?_ ?_ ?_) _
    · exact Nat.shiftLeft_eq .. ▸ Nat.mul_pos hb (Nat.two_pow_pos _)
    · exact Nat.shiftLeft_eq .. ▸ Nat.mul_pos hd (Nat.two_pow_pos _)
    · rw [Nat.shiftLeft_eq, Nat.shiftLeft_eq, ← Nat.mul_assoc, ← Nat.mul_assoc]
      exact Nat.mul_le_mul_right _ h

/-- The nearest double follows the quotient. -/
theorem nearest_mono (hb : 0 < b) (hd : 0 < d) (h : a * d ≤ c * b) :
    nearest a b ≤ nearest c d := by
  rw [nearest_eq, nearest_eq]
  refine min_le_min_right infinity (onGrid_mono hb hd ?_)
  rw [Nat.shiftLeft_eq, Nat.shiftLeft_eq, Nat.mul_right_comm, Nat.mul_right_comm c]
  exact Nat.mul_le_mul_right _ h

/-! ## Decimals -/

variable {x y : Decimal}

theorem powerOfTen_pos (n : Nat) : 0 < powerOfTen n := Nat.pow_pos (by decide)

/-- Decimals of greater absolute value have doubles of no smaller one. -/
theorem magnitude_le (h : |x.value| ≤ |y.value|) :
    (ofDecimal x).magnitude ≤ (ofDecimal y).magnitude := by
  refine nearest_mono (powerOfTen_pos _) (powerOfTen_pos _) ?_
  have hx : (0 : ℚ) < 10 ^ x.places := by positivity
  have hy : (0 : ℚ) < 10 ^ y.places := by positivity
  rw [Decimal.abs_value, Decimal.abs_value, div_le_div_iff₀ hx hy, ← cast_powerOfTen,
    ← cast_powerOfTen] at h
  exact_mod_cast h

/-- A decimal is its absolute value with its sign. -/
theorem value_eq_signed (x : Decimal) : x.value = if x.negative then -|x.value| else |x.value| := by
  rw [Decimal.abs_value, Decimal.value, Decimal.signedUnits]
  cases x.negative with
  | true =>
      show ((-(x.units : Int) : Int) : ℚ) / _ = -_
      rw [Int.cast_neg, Int.cast_natCast, neg_div]
  | false => rfl

/-- The doubles nearest to two decimals are not the other way round than the decimals. -/
theorem rank_le_of_lt (h : x.value < y.value) : (ofDecimal x).rank ≤ (ofDecimal y).rank := by
  have hx := abs_nonneg x.value
  have hy := abs_nonneg y.value
  rw [value_eq_signed x, value_eq_signed y] at h
  show (if x.negative then -((ofDecimal x).magnitude : Int) - 1 else (ofDecimal x).magnitude)
    ≤ if y.negative then -((ofDecimal y).magnitude : Int) - 1 else (ofDecimal y).magnitude
  cases hxneg : x.negative with
  | true =>
      rw [hxneg] at h
      cases hyneg : y.negative with
      | true =>
          rw [hyneg] at h
          have hmagnitude := magnitude_le (neg_lt_neg_iff.mp h).le
          show -((ofDecimal x).magnitude : Int) - 1 ≤ -((ofDecimal y).magnitude : Int) - 1
          omega
      | false =>
          show -((ofDecimal x).magnitude : Int) - 1 ≤ (ofDecimal y).magnitude
          omega
  | false =>
      rw [hxneg] at h
      cases hyneg : y.negative with
      | true =>
          rw [hyneg] at h
          have hle : |x.value| < -|y.value| := h
          exact absurd (hle.trans_le (neg_nonpos.mpr hy)) (not_lt.mpr hx)
      | false =>
          rw [hyneg] at h
          have hmagnitude := magnitude_le h.le
          show ((ofDecimal x).magnitude : Int) ≤ (ofDecimal y).magnitude
          omega

/-- Doubles at the same place in their order are the same. -/
theorem rank_inj {u v : Binary64} (h : u.rank = v.rank) : u = v := by
  obtain ⟨negative, m⟩ := u
  obtain ⟨negative', m'⟩ := v
  obtain ⟨rfl, rfl⟩ : negative = negative' ∧ m = m' := by
    -- the negative ones have the places below zero, so both have the same sign
    cases negative <;> cases negative' <;> simp [rank] at h ⊢ <;> omega
  rfl

/-- If the double of one decimal is at most that of another, then so is the decimal, unless the
    doubles are the same. -/
theorem value_le_or_eq (h : (ofDecimal x).rank ≤ (ofDecimal y).rank) :
    x.value ≤ y.value ∨ ofDecimal x = ofDecimal y := by
  rcases le_or_gt x.value y.value with hle | hlt
  · exact .inl hle
  · exact .inr (rank_inj (le_antisymm h (rank_le_of_lt hlt)))

end Binary64

end RecordStore.Number

import RecordStore.Text.Basic

/-!
# Decimal numbers

Decimals are read exactly. They are added exactly as well, within the bounds of a word, but they
are compared only as closely as doubles tell them apart.
-/

namespace RecordStore.Number

open RecordStore.Text

/-!
## Decimal numbers as they are written

A decimal such as `-4.50` is read exactly: its sign, its digits taken as one whole number of
*units* of the last place, and its number of *places*, the digits after the point. So `4.50` is
450 units at two places, and `4.5` is another decimal of the same value. The written form is a
sign, digits, and at most one point, with a digit on one side of the point at least; there is no
plus sign and no exponent.
-/

/-- The power of ten with an exponent. -/
def powerOfTen (n : Nat) : Nat := Nat.pow 10 n

/-- A decimal number: `units` of the last of `places` digits after the point. The sign of zero is
    kept, because the comparison of decimals sees it. -/
structure Decimal where
  negative : Bool
  units : Nat
  places : Nat
  deriving Repr, DecidableEq

namespace Decimal

/-- The digits before and after the point; without a point all are before it. -/
def splitPoint (digits : List Char) : List Char × List Char :=
  (splitAtFirst? (· == '.') digits).getD (digits, [])

/-- Reads digits with at most one point among them, after the sign. -/
def ofDigits? (negative : Bool) (digits : List Char) : Option Decimal :=
  let (whole, fraction) := splitPoint digits
  if whole.isEmpty && fraction.isEmpty then none
  else if (whole ++ fraction).all Char.isDigit then
    some ⟨negative, Nat.ofDigitChars 10 (whole ++ fraction) 0, fraction.length⟩
  else none

/-- Reads a decimal from its characters. -/
def ofChars? : List Char → Option Decimal
  | '-' :: digits => ofDigits? true digits
  | digits => ofDigits? false digits

/-- Reads a decimal; the whole text must be one. -/
def parse? (s : String) : Option Decimal := ofChars? s.toList

/-- The units with their sign. -/
def signedUnits (d : Decimal) : Int := if d.negative then -(d.units : Int) else d.units

end Decimal

/-!
## Sums of decimals in a fixed-point word

Decimals are summed exactly, as one signed 128-bit count of units at the largest number of places
met so far. A value, a shift to more places, or an addition that leaves the word makes the sum
fail; nothing is ever rounded. The route:

  * `Word.fits`, `units?`, `shift?`   what a word holds, and the two ways into it;
  * `FixedSum.add?`                   one more decimal, with the failure told apart;
  * `FixedSum.format?`                the sum as text, with exactly `places` digits after the
    point.

The printing divides by a power of ten in an unsigned 128-bit word. Nothing has checked that the
word holds that power, and from 39 places on it does not. Here words wrap around, as they do in a
program that is built without overflow checks: the power is taken modulo `2 ^ 128`, and `format?`
is `none` where it becomes zero. A program built with such checks stops instead, at 39 places and
at any more.
-/

namespace Word

/-- The number of words of 128 bits. -/
def count : Nat := 0x100000000000000000000000000000000

/-- The bound of the numbers that a signed word holds; half of the words stand for others. -/
def bound : Nat := 0x80000000000000000000000000000000

/-- Whether a signed word holds the number: each `n` below the bound, and so many negative ones,
    from `-1` for the least `n` on. -/
def fits : Int → Bool
  | .ofNat n | .negSucc n => n < bound

/-- The number, where the word holds it. -/
def ofInt? (n : Int) : Option Int := if fits n then some n else none

/-- The units of a decimal, where the word holds their absolute value. The number of places is not
    bounded here, though it is kept in 32 bits: only decimals with `2 ^ 32` digits after the point
    or more would be refused for that. -/
def units? (d : Decimal) : Option Int :=
  if fits d.units then some d.signedUnits else none

/-- Units at `extra` more places. The power of ten must fit the word itself, which it does up to
    the 38th. -/
def shift? (n : Int) (extra : Nat) : Option Int :=
  if extra ≤ 38 then ofInt? (n * powerOfTen extra) else none

/-- The power of ten as an unsigned word has it that wraps around. Up to 38 places it is the power
    itself; beyond that, arithmetic with overflow checks has none. -/
def wrappedPower (places : Nat) : Nat := powerOfTen places % count

end Word

/-- Digits with zeros in front, to a width of at least `width`. -/
def paddedDigits (width n : Nat) : List Char :=
  let digits := Nat.toDigits 10 n
  List.replicate (width - digits.length) '0' ++ digits

/-- A running sum: `total` units of the last of `places` digits after the point. -/
structure FixedSum where
  total : Int
  places : Nat
  deriving Repr, DecidableEq

namespace FixedSum

/-- Why a decimal cannot be added. -/
inductive Fault where
  /-- The decimal has more units than the word holds. -/
  | notHeld
  /-- The sum leaves the word. -/
  | outOfRange
  deriving Repr, DecidableEq

/-- The sum of no decimals. -/
def zero : FixedSum := ⟨0, 0⟩

/-- The sum with one more decimal. -/
def add? (s : FixedSum) (d : Decimal) : Except Fault FixedSum := do
  let some units := Word.units? d | throw .notHeld
  let places := max s.places d.places
  let some total := Word.shift? s.total (places - s.places) | throw .outOfRange
  let some units := Word.shift? units (places - d.places) | throw .outOfRange
  let some total := Word.ofInt? (total + units) | throw .outOfRange
  return ⟨total, places⟩

/-- The sum as text: a minus sign for a negative total, and as many digits after the point as it
    has places. This is printed by arithmetic without overflow checks, which divides by whatever the
    power has wrapped around to, and cannot where that is zero; with overflow checks nothing is
    printed from 39 places on. -/
def format? (s : FixedSum) : Option String :=
  let sign := if s.total < 0 then "-" else ""
  let magnitude := s.total.natAbs
  if s.places = 0 then some (sign ++ toString magnitude)
  else
    let divisor := Word.wrappedPower s.places
    if divisor = 0 then none
    else
      some (sign ++ toString (magnitude / divisor) ++ "." ++
        String.ofList (paddedDigits s.places (magnitude % divisor)))

end FixedSum

/-!
## Binary64 — the nearest double to a decimal

Decimals are compared by the double-precision binary number nearest to each. The positive doubles
lie on grids: grid `e` has the multiples of `2 ^ (e - 1074)`, and the doubles on it are the
multiples by a number below `2 ^ 53`. To round a positive quotient, take the finest grid on which
its multiple stays below `2 ^ 53`, round to the nearest multiple there, a tie to the even one, and
go to infinity beyond the largest double.

The bit pattern of multiple `m` on grid `e` is `e * 2 ^ 52 + m`, for the least grid and all
others, and also when rounding up carries `m` to `2 ^ 53`; so patterns are ordered as the numbers
they stand for, and no case has to be told apart.
-/

/-- A double that is a number or an infinity: its sign and the pattern of its other 63 bits. -/
structure Binary64 where
  negative : Bool
  magnitude : Nat
  deriving Repr, DecidableEq

namespace Binary64

/-- The pattern of infinity. -/
def infinity : Nat := 0x7FF <<< 52

/-- The whole number nearest to a quotient; halfway between two it is the even one. -/
def nearestQuotient (num den : Nat) : Nat :=
  let q := num / den
  let r := num % den
  if den < 2 * r ∨ (2 * r = den ∧ q % 2 = 1) then q + 1 else q

/-- The pattern of the double nearest to the quotient. -/
def nearest (num den : Nat) : Nat :=
  let scaled := num <<< 1074
  let grid := Nat.log2 (scaled / den) - 52
  min (grid <<< 52 + nearestQuotient scaled (den <<< grid)) infinity

/-- The double nearest to a decimal; its sign is the decimal's, also at zero. -/
def ofDecimal (d : Decimal) : Binary64 := ⟨d.negative, nearest d.units (powerOfTen d.places)⟩

/-- The 64 bits, the sign foremost. -/
def bits (x : Binary64) : Nat := (if x.negative then 1 <<< 63 else 0) + x.magnitude

/-- The place of a double in the order of doubles, where the negative zero comes just before the
    positive one. -/
def rank (x : Binary64) : Int :=
  if x.negative then -(x.magnitude : Int) - 1 else x.magnitude

instance : Ord Binary64 := ⟨fun x y => compare x.rank y.rank⟩

end Binary64

end RecordStore.Number

import Mathlib.Algebra.BigOperators.Group.List.Basic
import RecordStore.Proofs.Number.Canonical
import RecordStore.Proofs.Sequence
import RecordStore.Query.Run
import RecordStore.Time

/-! # Durations

    Durations are read, added and written exactly. -/

namespace RecordStore.Time.Duration

/-! ## Durations as they are read and written

    A duration is read from digits, a colon and two more digits.  It is written in the same form,
    with no more digits of hours than there must be.  So reading what was written gives the same
    minutes, and what was read is written again but for the zeros in front that another digit
    follows.  The route:

    * `toDigits_ofDigitChars`: digits that do not begin with a zero are those of their number;
    * `dropZeros`, `dropZeros_digits`: the zeros in front, and what is left without them;
    * `Spelled`, `parse?_eq_some_iff`: the texts that are read, told by their digits;
    * `parse?_format`, `toList_format_of_parse?`: reading after writing, and writing after
      reading. -/

open RecordStore.Text RecordStore.Number

/-! ### Zeros in front -/

private theorem digitChar_of_isDigit {c : Char} (hc : c.isDigit = true) :
    Nat.digitChar (c.toNat - 48) = c := by
  have hrange : 48 ≤ c.toNat ∧ c.toNat ≤ 57 := Char.isDigit_iff_toNat.mp hc
  apply Char.toNat_inj.mp
  rw [Nat.toNat_digitChar_of_lt_ten (by omega)]
  omega

/-- Digits behind those of a number that is not zero are the last ones of a greater number. -/
private theorem toDigits_append_digits {n : Nat} {cs : List Char} (pos : 0 < n)
    (digits : ∀ c ∈ cs, c.isDigit = true) :
    Nat.toDigits 10 n ++ cs = Nat.toDigits 10 (Nat.ofDigitChars 10 cs n) := by
  induction cs generalizing n with
  | nil => rw [List.append_nil, Nat.ofDigitChars_nil]
  | cons c cs ih =>
      obtain ⟨hc, hcs⟩ := List.forall_mem_cons.mp digits
      have hlt : c.toNat - 48 < 10 := by
        have hle : c.toNat ≤ 57 := (Char.isDigit_iff_toNat.mp hc).2
        omega
      have hone : Nat.toDigits 10 n ++ [c] = Nat.toDigits 10 (10 * n + (c.toNat - 48)) := by
        rw [← Nat.toDigits_append_toDigits (by decide) pos hlt, Nat.toDigits_of_lt_base hlt,
          digitChar_of_isDigit hc]
      calc Nat.toDigits 10 n ++ c :: cs
        _ = (Nat.toDigits 10 n ++ [c]) ++ cs := (List.append_cons ..)
        _ = Nat.toDigits 10 (10 * n + (c.toNat - 48)) ++ cs := by rw [hone]
        _ = Nat.toDigits 10 (Nat.ofDigitChars 10 cs (10 * n + (c.toNat - 48))) :=
            ih (by omega) hcs
        _ = Nat.toDigits 10 (Nat.ofDigitChars 10 (c :: cs) n) := by
            rw [Nat.ofDigitChars_cons]
            rfl

/-- Digits that do not begin with a zero are the digits of their number. -/
theorem toDigits_ofDigitChars {c : Char} {cs : List Char}
    (digits : ∀ d ∈ c :: cs, d.isDigit = true) (hzero : c ≠ '0') :
    Nat.toDigits 10 (Nat.ofDigitChars 10 (c :: cs) 0) = c :: cs := by
  obtain ⟨hc, hcs⟩ := List.forall_mem_cons.mp digits
  have hrange : 48 ≤ c.toNat ∧ c.toNat ≤ 57 := Char.isDigit_iff_toNat.mp hc
  have hne : c.toNat ≠ 48 := fun h => hzero (Char.toNat_inj.mp h)
  have hfirst : Nat.toDigits 10 (c.toNat - 48) = [c] := by
    rw [Nat.toDigits_of_lt_base (by omega), digitChar_of_isDigit hc]
  rw [Nat.ofDigitChars_cons, Nat.mul_zero, Nat.zero_add]
  show Nat.toDigits 10 (Nat.ofDigitChars 10 cs (c.toNat - 48)) = _
  rw [← toDigits_append_digits (by omega) hcs, hfirst]
  rfl

/-- A text without superfluous zeros in front: a zero goes where another digit follows. -/
def dropZeros : List Char → List Char
  | [] => []
  | c :: cs => if c = '0' ∧ cs.head?.any Char.isDigit then dropZeros cs else c :: cs

/-- What is left of digits without superfluous zeros are the digits of their number. -/
theorem dropZeros_digits {ds rest : List Char} (digits : ∀ d ∈ ds, d.isDigit = true) (ne : ds ≠ [])
    (stop : ∀ c ∈ rest.head?, c.isDigit = false) :
    dropZeros (ds ++ rest) = Nat.toDigits 10 (Nat.ofDigitChars 10 ds 0) ++ rest := by
  induction ds with
  | nil => exact absurd rfl ne
  | cons c ds ih =>
      by_cases hzero : c = '0'
      · subst hzero
        rw [List.cons_append, dropZeros]
        cases ds with
        | nil =>
            -- the last digit stays, whatever it is
            have hstop : rest.head?.any Char.isDigit = false := by
              cases rest with
              | nil => rfl
              | cons c rest => exact stop c rfl
            rw [List.nil_append, hstop, if_neg (by simp)]
            rfl
        | cons d ds =>
            obtain ⟨-, hds⟩ := List.forall_mem_cons.mp digits
            rw [if_pos ⟨rfl, hds d List.mem_cons_self⟩, ih hds (List.cons_ne_nil _ _)]
            rfl
      · rw [List.cons_append, dropZeros, if_neg fun h => hzero h.1,
          toDigits_ofDigitChars digits hzero]
        rfl

/-! ### Texts that are read -/

/-- Digits are read as their number, if it is below the bound. -/
theorem digits?_eq_some_iff {cs : List Char} {n : Nat} :
    digits? cs = some n ↔ cs ≠ [] ∧ (∀ c ∈ cs, c.isDigit = true) ∧
      Nat.ofDigitChars 10 cs 0 = n ∧ n < bound := by
  rw [digits?]
  by_cases hne : cs = []
  · rw [hne]
    exact iff_of_false (fun h => nomatch h) fun h => h.1 rfl
  have hempty : cs.isEmpty = false := List.isEmpty_eq_false_iff.mpr hne
  by_cases hall : cs.all Char.isDigit = true
  · have digits : ∀ c ∈ cs, c.isDigit = true := List.all_eq_true.mp hall
    rw [if_neg (by simp [hempty, hall]), and_iff_right hne, and_iff_right digits]
    by_cases hlt : Nat.ofDigitChars 10 cs 0 < bound
    · rw [if_pos hlt, Option.some.injEq]
      exact ⟨fun h => ⟨h, h ▸ hlt⟩, And.left⟩
    · rw [if_neg hlt]
      exact iff_of_false (fun h => nomatch h) fun h => hlt (h.1 ▸ h.2)
  · rw [if_pos (by simp [hall])]
    exact iff_of_false (fun h => nomatch h) fun h => hall (List.all_eq_true.mpr h.2.1)

/-- A text in the form `h:mm`, of these digits; the minutes may be sixty and more. -/
structure Spelled (s : String) (hours minutes : List Char) : Prop where
  toList_eq : s.toList = hours ++ ':' :: minutes
  hours_ne : hours ≠ []
  hours_digits : ∀ c ∈ hours, c.isDigit = true
  minutes_digits : ∀ c ∈ minutes, c.isDigit = true
  length_minutes : minutes.length = 2

private theorem guard_eq_some_iff {p : Prop} [Decidable p] {u : Unit} :
    (guard p : Option Unit) = some u ↔ p := by
  by_cases h : p
  · rw [guard, if_pos h]
    exact iff_of_true rfl h
  · rw [guard, if_neg h]
    exact iff_of_false (fun h => nomatch h) h

/-- The hours end at the first colon, since digits are none. -/
private theorem splitAtFirst?_hours {hours minutes : List Char}
    (digits : ∀ c ∈ hours, c.isDigit = true) :
    splitAtFirst? (· == ':') (hours ++ ':' :: minutes) = some (hours, minutes) := by
  refine splitAtFirst?_append (fun c hc => beq_eq_false_iff_ne.mpr ?_) rfl minutes
  rintro rfl
  exact absurd (digits _ hc) (by decide)

/-- **A text is read exactly when it is in the form, its minutes are below sixty, and there are not
    too many in all.** -/
theorem parse?_eq_some_iff {s : String} {m : Nat} :
    parse? s = some m ↔ ∃ hours minutes, Spelled s hours minutes ∧
      Nat.ofDigitChars 10 minutes 0 < 60 ∧
      Nat.ofDigitChars 10 hours 0 * 60 + Nat.ofDigitChars 10 minutes 0 = m ∧ m < bound := by
  constructor
  · intro h
    simp only [parse?, Option.bind_eq_bind, Option.bind_eq_some_iff, guard_eq_some_iff,
      digits?_eq_some_iff, Prod.exists] at h
    obtain ⟨hours, minutes, hsplit, -, length, _, ⟨hours_ne, hours_digits, rfl, -⟩, _,
      ⟨-, minutes_digits, rfl, -⟩, -, small, -, bounded, ⟨⟩⟩ := h
    obtain ⟨c, hc, hs, -⟩ := splitAtFirst?_eq_some hsplit
    obtain rfl : c = ':' := by simpa using hc
    exact ⟨hours, minutes, ⟨hs, hours_ne, hours_digits, minutes_digits, length⟩, small, rfl,
      bounded⟩
  · rintro ⟨hours, minutes, spelled, small, rfl, bounded⟩
    have hhours : digits? hours = some (Nat.ofDigitChars 10 hours 0) :=
      digits?_eq_some_iff.mpr ⟨spelled.hours_ne, spelled.hours_digits, rfl, by omega⟩
    have hminutes : digits? minutes = some (Nat.ofDigitChars 10 minutes 0) :=
      digits?_eq_some_iff.mpr ⟨List.ne_nil_of_length_eq_add_one spelled.length_minutes,
        spelled.minutes_digits, rfl, by omega⟩
    rw [parse?, spelled.toList_eq, splitAtFirst?_hours spelled.hours_digits]
    simp [hhours, hminutes, spelled.length_minutes, small, bounded]

/-! ### Texts that are written -/

private theorem toList_twoDigits (n : Nat) :
    (twoDigits n).toList = [Nat.digitChar (n / 10), Nat.digitChar (n % 10)] :=
  String.toList_ofList

/-- Two digits of minutes are read as the minutes. -/
private theorem ofDigitChars_twoDigits {n : Nat} (h : n < 60) :
    Nat.ofDigitChars 10 (twoDigits n).toList 0 = n := by
  rw [toList_twoDigits, Nat.ofDigitChars_cons_digitChar_of_lt_ten (by omega),
    Nat.ofDigitChars_cons_digitChar_of_lt_ten (by omega), Nat.ofDigitChars_nil]
  omega

private theorem isDigit_of_mem_twoDigits {n : Nat} (h : n < 60) :
    ∀ c ∈ (twoDigits n).toList, c.isDigit = true := by
  rw [toList_twoDigits, List.forall_mem_cons, List.forall_mem_singleton, Nat.isDigit_digitChar,
    Nat.isDigit_digitChar]
  exact ⟨decide_eq_true (by omega), decide_eq_true (by omega)⟩

/-- What is written is in the form, with the digits of the hours and two of the minutes. -/
theorem spelled_format (m : Nat) :
    Spelled (format m) (Nat.toDigits 10 (m / 60)) (twoDigits (m % 60)).toList where
  toList_eq := by
    rw [format, String.toList_append, String.toList_append, Nat.toString_eq_ofList_toDigits,
      String.toList_ofList, List.append_assoc]
    rfl
  hours_ne := Nat.toDigits_ne_nil
  hours_digits := fun _ => isDigit_of_mem_toDigits
  minutes_digits := isDigit_of_mem_twoDigits (Nat.mod_lt m (by decide))
  length_minutes := by
    rw [toList_twoDigits]
    rfl

/-- **What was written is read as it was.** -/
theorem parse?_format {m : Nat} (h : m < bound) : parse? (format m) = some m := by
  have hminutes := ofDigitChars_twoDigits (Nat.mod_lt m (by decide : 0 < 60))
  refine parse?_eq_some_iff.mpr ⟨_, _, spelled_format m, ?_, ?_, h⟩
  · rw [hminutes]
    exact Nat.mod_lt m (by decide)
  · rw [hminutes, Nat.ofDigitChars_ten_toDigits]
    exact Nat.div_add_mod' m 60

/-- **What was read is written again without superfluous zeros in front.** -/
theorem toList_format_of_parse? {s : String} {m : Nat} (h : parse? s = some m) :
    (format m).toList = dropZeros s.toList := by
  obtain ⟨hours, minutes, spelled, small, rfl, -⟩ := parse?_eq_some_iff.mp h
  have hquotient : (Nat.ofDigitChars 10 hours 0 * 60 + Nat.ofDigitChars 10 minutes 0) / 60
      = Nat.ofDigitChars 10 hours 0 := by omega
  have hremainder : (Nat.ofDigitChars 10 hours 0 * 60 + Nat.ofDigitChars 10 minutes 0) % 60
      = Nat.ofDigitChars 10 minutes 0 := by omega
  -- two digits are written for the minutes, and two were read
  have hminutes : (twoDigits (Nat.ofDigitChars 10 minutes 0)).toList = minutes := by
    refine eq_of_ofDigitChars_eq (isDigit_of_mem_twoDigits small) spelled.minutes_digits ?_
      (ofDigitChars_twoDigits small)
    rw [toList_twoDigits, spelled.length_minutes]
    rfl
  rw [(spelled_format _).toList_eq, hquotient, hremainder, hminutes, spelled.toList_eq,
    dropZeros_digits spelled.hours_digits spelled.hours_ne]
  rintro _ ⟨⟩
  rfl

end RecordStore.Time.Duration

namespace RecordStore.Query

/-! ## Sums of durations

    Durations are added in minutes, one after the other, and each sum on the way is checked against
    the bound.  Since no duration is negative, a sum on the way is not greater than the total, so
    it is the total alone that decides.  With that the order of the values plays no part: the total
    has none.  The route:

    * `totalMinutes`: the exact total;
    * `addMinutes_eq_ok_iff`, `foldlM_addMinutes_eq_ok_iff`: one step, and all of them;
    * `fold_sum_minutes_eq_ok_iff`: when a sum succeeds, and with which text;
    * `durations_exact`: together with what becomes of a duration that is written or read. -/

open Time

variable {field : Field} {values : List String} {value : String}

/-- The minutes of all values that are durations, exactly. -/
def totalMinutes (values : List String) : Nat := (values.filterMap Duration.parse?).sum

private theorem totalMinutes_cons {n : Nat} (read : Duration.parse? value = some n) :
    totalMinutes (value :: values) = n + totalMinutes values := by
  rw [totalMinutes, List.filterMap_cons_some read, List.sum_cons]
  rfl

/-- The total does not depend on the order. -/
theorem totalMinutes_perm {others : List String} (perm : others.Perm values) :
    totalMinutes others = totalMinutes values :=
  (perm.filterMap Duration.parse?).sum_eq

/-! ### Adding -/

theorem readMinutes_eq_ok_iff {n : Nat} :
    readMinutes field value = .ok n ↔ Duration.parse? value = some n := by
  rw [readMinutes]
  cases Duration.parse? value with
  | none => exact iff_of_false (fun h => nomatch h) fun h => nomatch h
  | some m => rw [Except.ok.injEq, Option.some.injEq]

/-- One more duration is added when the sum stays below the bound. -/
theorem addMinutes_eq_ok_iff {start total : Nat} :
    addMinutes field start value = .ok total ↔
      ∃ n, Duration.parse? value = some n ∧ start + n = total ∧ total < Duration.bound := by
  rw [addMinutes, bind_eq_ok_iff]
  refine exists_congr fun n => and_congr readMinutes_eq_ok_iff ?_
  dsimp only
  by_cases bounded : start + n < Duration.bound
  · rw [if_pos bounded]
    constructor
    · rintro ⟨⟩
      exact ⟨rfl, bounded⟩
    · rintro ⟨rfl, -⟩
      rfl
  · rw [if_neg bounded]
    refine iff_of_false (fun h => nomatch h) ?_
    rintro ⟨rfl, h⟩
    exact bounded h

/-- The loop ends well exactly when all values are durations and their total is within the bound,
    for a sum on the way is not greater. -/
theorem foldlM_addMinutes_eq_ok_iff {start total : Nat} (bounded : start < Duration.bound) :
    values.foldlM (addMinutes field) start = .ok total ↔
      (∀ v ∈ values, ∃ n, Duration.parse? v = some n) ∧ start + totalMinutes values = total ∧
        total < Duration.bound := by
  induction values generalizing start with
  | nil =>
      rw [List.foldlM_nil]
      constructor
      · rintro ⟨⟩
        exact ⟨fun _ h => (nomatch h), rfl, bounded⟩
      · rintro ⟨-, rfl, -⟩
        rfl
  | cons value values ih =>
      rw [List.foldlM_cons, bind_eq_ok_iff, List.forall_mem_cons]
      have total_eq {n : Nat} (read : Duration.parse? value = some n) :
          start + totalMinutes (value :: values) = start + n + totalMinutes values := by
        rw [totalMinutes_cons read, Nat.add_assoc]
      constructor
      · rintro ⟨next, step, rest⟩
        obtain ⟨n, read, rfl, hnext⟩ := addMinutes_eq_ok_iff.mp step
        obtain ⟨all, htotal, within⟩ := (ih hnext).mp rest
        exact ⟨⟨⟨n, read⟩, all⟩, (total_eq read).trans htotal, within⟩
      · rintro ⟨⟨⟨n, read⟩, all⟩, htotal, within⟩
        rw [total_eq read] at htotal
        have hnext : start + n < Duration.bound :=
          Nat.lt_of_le_of_lt (htotal ▸ Nat.le_add_right _ _) within
        exact ⟨start + n, addMinutes_eq_ok_iff.mpr ⟨n, read, rfl, hnext⟩,
          (ih hnext).mpr ⟨all, htotal, within⟩⟩

/-! ### The fold -/

/-- A sum of durations succeeds exactly when all values are durations and the total is within the
    bound, and then it is the text of the total. -/
theorem fold_sum_minutes_eq_ok_iff {text : String} (duration : field.kind = .duration)
    (given : present values ≠ []) :
    Aggregate.sum.fold field values = .ok text ↔
      ((∀ v ∈ present values, ∃ n, Duration.parse? v = some n) ∧
        totalMinutes (present values) < Duration.bound) ∧
      Duration.format (totalMinutes (present values)) = text := by
  show Query.sum field (present values) = _ ↔ _
  rw [Query.sum, duration, List.isEmpty_eq_false_iff.mpr given]
  show (present values).foldlM (addMinutes field) 0 >>= _ = _ ↔ _
  rw [bind_eq_ok_iff]
  simp only [foldlM_addMinutes_eq_ok_iff (show 0 < Duration.bound by decide), Nat.zero_add]
  constructor
  · rintro ⟨total, ⟨all, rfl, bounded⟩, ⟨⟩⟩
    exact ⟨⟨all, bounded⟩, rfl⟩
  · rintro ⟨⟨all, bounded⟩, rfl⟩
    exact ⟨_, ⟨all, rfl, bounded⟩, rfl⟩

/-- **Durations are read, written and added exactly.**  What is written of a number of minutes below
    the bound is read as this number, and what is read of a text is written as the text without
    superfluous zeros in front.  A sum of durations, at least one of which is not empty, succeeds
    exactly when all that are not empty can be read and their total is below the bound; its text is
    then read as the total; and in another order of the values it has the same text or fails as
    well. -/
theorem durations_exact :
    (∀ m < 2 ^ 64, Duration.parse? (Duration.format m) = some m) ∧
    (∀ s m, Duration.parse? s = some m →
      (Duration.format m).toList = Duration.dropZeros s.toList) ∧
    ∀ field values, field.kind = .duration → present values ≠ [] →
      ((∃ text, Aggregate.sum.fold field values = .ok text) ↔
        (∀ v ∈ present values, ∃ n, Duration.parse? v = some n) ∧
          totalMinutes (present values) < 2 ^ 64) ∧
      (∀ text, Aggregate.sum.fold field values = .ok text →
        Duration.parse? text = some (totalMinutes (present values))) ∧
      ∀ others, others.Perm values → ∀ text,
        Aggregate.sum.fold field others = .ok text ↔
          Aggregate.sum.fold field values = .ok text := by
  refine ⟨fun _ => Duration.parse?_format, fun _ _ => Duration.toList_format_of_parse?, ?_⟩
  intro field values duration given
  refine ⟨?_, ?_, ?_⟩
  · simp only [fold_sum_minutes_eq_ok_iff duration given, exists_and_left, exists_eq', and_true]
    exact Iff.rfl
  · intro text h
    obtain ⟨⟨-, bounded⟩, rfl⟩ := (fold_sum_minutes_eq_ok_iff duration given).mp h
    exact Duration.parse?_format bounded
  · intro others perm text
    have hpresent : (present others).Perm (present values) := perm.filter _
    have given' : present others ≠ [] := fun e => given (List.nil_perm.mp (e ▸ hpresent))
    rw [fold_sum_minutes_eq_ok_iff duration given, fold_sum_minutes_eq_ok_iff duration given',
      totalMinutes_perm hpresent]
    simp only [hpresent.mem_iff]

/-- Two views that together last as many minutes as can be written. -/
def longViews : List String := ["307445734561825853:10", "", "007:05"]

/-- Their sum is there, in either order, and with a minute more there is none. -/
theorem durations_exact_longViews :
    Duration.parse? (Duration.format 425) = some 425 ∧
      (Duration.format 425).toList = Duration.dropZeros "007:05".toList ∧
      Duration.parse? "307445734561825860:15" = some (totalMinutes (present longViews)) ∧
      Aggregate.sum.fold ⟨"viewtime", .duration, none⟩ longViews.reverse
        = .ok "307445734561825860:15" ∧
      ¬ ∃ text, Aggregate.sum.fold ⟨"viewtime", .duration, none⟩ ("0:01" :: longViews)
        = .ok text := by
  obtain ⟨written, read, sums⟩ := durations_exact
  have hsum : Aggregate.sum.fold ⟨"viewtime", .duration, none⟩ longViews
      = .ok "307445734561825860:15" := by decide +kernel
  obtain ⟨-, exact, reordered⟩ :=
    sums ⟨"viewtime", .duration, none⟩ longViews rfl (by decide +kernel)
  obtain ⟨longer, -⟩ :=
    sums ⟨"viewtime", .duration, none⟩ ("0:01" :: longViews) rfl (by decide +kernel)
  refine ⟨written 425 (by decide), read _ _ (by decide +kernel), exact _ hsum,
    (reordered _ longViews.reverse_perm _).mpr hsum, ?_⟩
  intro success
  exact absurd (longer.mp success).2 (by decide +kernel)

end RecordStore.Query

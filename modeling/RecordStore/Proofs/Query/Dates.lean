import Mathlib.Data.String.Basic
import RecordStore.Proofs.Number.Canonical
import RecordStore.Proofs.Query.Extremum
import RecordStore.Proofs.Query.Ordered
import RecordStore.Proofs.Text.Utf8
import RecordStore.Time

/-! # Dates

    Dates are accepted as days of the calendar and compared as texts.  How a date is written decides
    whether these go together. -/

namespace RecordStore.Time

/-! ## Dates with all their digits

    A date may be written in several ways, for the reader does without leading zeros, takes a sign
    before the year and passes over white space.  One of them is `YYYY-MM-DD`: four digits, two and
    two, and a dash between.  Dates that are written so stand in the order of the calendar when
    they stand in the order of their texts; and this is what each of the other ways spoils.  The
    route:

    * `digits_append_lt_iff`: how digits of the same number compare, whatever follows them;
    * `Padded` and `Padded.parse?`: the form, and the date that is read from it;
    * `lt_iff_before`: the order of texts in this form. -/

open RecordStore.Text RecordStore.Number

/-! ### Digits in front -/

/-- A greater digit outweighs all that stand behind it. -/
private theorem weighted_lt {power x y m n : Nat} (hm : m < power) (h : x < y) :
    power * x + m < power * y + n := by
  have hle := Nat.mul_le_mul_left power (Nat.succ_le_of_lt h)
  rw [Nat.mul_succ] at hle
  omega

/-- As many digits compare as the numbers that they make, and what follows decides between equal
    ones. -/
theorem digits_append_lt_iff {cs ds : List Char} (digits : ∀ c ∈ cs, c.isDigit = true)
    (digits' : ∀ d ∈ ds, d.isDigit = true) (length : cs.length = ds.length) (u v : List Char) :
    cs ++ u < ds ++ v ↔ Nat.ofDigitChars 10 cs 0 < Nat.ofDigitChars 10 ds 0 ∨
      Nat.ofDigitChars 10 cs 0 = Nat.ofDigitChars 10 ds 0 ∧ u < v := by
  induction cs generalizing ds with
  | nil =>
      rw [List.eq_nil_of_length_eq_zero length.symm]
      simp
  | cons c cs ih =>
      cases ds with
      | nil => exact nomatch length
      | cons d ds =>
          obtain ⟨hc, hcs⟩ := List.forall_mem_cons.mp digits
          obtain ⟨hd, hds⟩ := List.forall_mem_cons.mp digits'
          have hlength : cs.length = ds.length := Nat.succ.inj length
          have hlt := ofDigitChars_lt hcs
          have hlt' := ofDigitChars_lt hds
          rw [hlength] at hlt
          have hc' : 48 ≤ c.toNat := (Char.isDigit_iff_toNat.mp hc).1
          have hd' : 48 ≤ d.toNat := (Char.isDigit_iff_toNat.mp hd).1
          rw [List.cons_append, List.cons_append, List.cons_lt_cons_iff, ih hcs hds hlength,
            ofDigitChars_cons_zero, ofDigitChars_cons_zero, hlength]
          -- the first digits decide, unless they are the same
          rcases Nat.lt_trichotomy c.toNat d.toNat with less | same | greater
          · exact iff_of_true (.inl less) (.inl (weighted_lt hlt (by omega)))
          · obtain rfl : c = d := Char.toNat_inj.mp same
            rw [or_iff_right (Std.lt_irrefl (a := c)), and_iff_right rfl, Nat.add_lt_add_iff_left,
              Nat.add_left_cancel_iff]
          · have hweighted := weighted_lt (n := Nat.ofDigitChars 10 cs 0) hlt'
              (Nat.sub_lt_sub_right hd' greater)
            refine iff_of_false ?_ ?_
            · rintro (less | ⟨rfl, -⟩)
              · exact Nat.lt_asymm greater less
              · exact Nat.lt_irrefl _ greater
            · rintro (less | ⟨same, -⟩)
              · exact Nat.lt_asymm hweighted less
              · exact Nat.ne_of_gt hweighted same

/-! ### The form -/

/-- A value in the form `YYYY-MM-DD`, of these digits. -/
structure PaddedParts (value : String) (year month day : List Char) : Prop where
  toList_eq : value.toList = year ++ '-' :: (month ++ '-' :: day)
  year_digits : ∀ c ∈ year, c.isDigit = true
  month_digits : ∀ c ∈ month, c.isDigit = true
  day_digits : ∀ c ∈ day, c.isDigit = true
  length_year : year.length = 4
  length_month : month.length = 2
  length_day : day.length = 2

/-- A value in the form `YYYY-MM-DD`. -/
def Padded (value : String) : Prop := ∃ year month day, PaddedParts value year month day

private theorem isBlank_of_isDigit {c : Char} (h : c.isDigit = true) : isBlank c = false := by
  have hc : 48 ≤ c.toNat ∧ c.toNat ≤ 57 := Char.isDigit_iff_toNat.mp h
  have hn (n : Nat) (out : n < 48 ∨ 57 < n) : (c.toNat == n) = false :=
    beq_eq_false_iff_ne.mpr (by omega)
  have hle : decide (c.toNat ≤ 13) = false := decide_eq_false (by omega)
  have hge : decide (0x2000 ≤ c.toNat) = false := decide_eq_false (by omega)
  simp [isBlank, hn, hle, hge]

private theorem dropWhile_isBlank {ds : List Char} (digits : ∀ d ∈ ds, d.isDigit = true)
    (ne : ds ≠ []) (rest : List Char) : (ds ++ rest).dropWhile isBlank = ds ++ rest := by
  obtain ⟨d, ds, rfl⟩ := List.exists_cons_of_ne_nil ne
  have hd := isBlank_of_isDigit (digits d List.mem_cons_self)
  exact List.dropWhile_cons_of_neg (by simp [hd])

/-- As many digits as may be read, and no digit behind them, are read as their number. -/
private theorem number?_digits {ds : List Char} (digits : ∀ d ∈ ds, d.isDigit = true)
    (ne : ds ≠ []) (rest : List Char) (stop : ∀ c ∈ rest.head?, c.isDigit = false) :
    Date.number? (some ds.length) (ds ++ rest) = some (Nat.ofDigitChars 10 ds 0, rest) := by
  have hrest : rest.takeWhile Char.isDigit = [] := by
    cases rest with
    | nil => rfl
    | cons c rest => exact List.takeWhile_cons_of_neg (by simp [stop c rfl])
  have htake : (ds ++ rest).takeWhile Char.isDigit = ds := by
    rw [List.takeWhile_append_of_pos digits, hrest, List.append_nil]
  simp [Date.number?, htake, ne]

namespace PaddedParts

variable {value : String} {year month day : List Char}

/-- Four digits, two and two, with a dash between, are the form. -/
theorem of_all (toList_eq : value.toList = year ++ '-' :: (month ++ '-' :: day))
    (digits : (year ++ (month ++ day)).all Char.isDigit = true) (length_year : year.length = 4)
    (length_month : month.length = 2) (length_day : day.length = 2) :
    PaddedParts value year month day := by
  obtain ⟨hyear, hrest⟩ := List.forall_mem_append.mp (List.all_eq_true.mp digits)
  obtain ⟨hmonth, hday⟩ := List.forall_mem_append.mp hrest
  exact ⟨toList_eq, hyear, hmonth, hday, length_year, length_month, length_day⟩

/-- What is read from the form: the three numbers, if they name a day. -/
theorem parse? (h : PaddedParts value year month day) :
    Date.parse? value = (some (⟨Nat.ofDigitChars 10 year 0, Nat.ofDigitChars 10 month 0,
      Nat.ofDigitChars 10 day 0⟩ : Date)).filter Date.isValid := by
  have ne_of_length {ds : List Char} {n : Nat} (hds : ds.length = n + 1) : ds ≠ [] :=
    List.ne_nil_of_length_eq_add_one hds
  have hyear (rest : List Char) : Date.year? (year ++ '-' :: rest)
      = some ((Nat.ofDigitChars 10 year 0 : Int), '-' :: rest) := by
    obtain ⟨c, cs, hcs⟩ := List.exists_cons_of_ne_nil (ne_of_length h.length_year)
    have hc : c.isDigit = true := h.year_digits c (hcs ▸ List.mem_cons_self)
    have hnumber := number?_digits h.year_digits (ne_of_length h.length_year) ('-' :: rest)
      (by rintro _ ⟨⟩; rfl)
    rw [h.length_year] at hnumber
    rw [Date.year?, dropWhile_isBlank h.year_digits (ne_of_length h.length_year)]
    -- a digit is no sign
    split
    · next hsign =>
        rw [hcs] at hsign
        cases hsign
        exact nomatch hc
    · next hsign =>
        rw [hcs] at hsign
        cases hsign
        exact nomatch hc
    · rw [hnumber]
      rfl
  have hpart {ds : List Char} (digits : ∀ d ∈ ds, d.isDigit = true) (hds : ds.length = 2)
      (rest : List Char) (stop : ∀ c ∈ rest.head?, c.isDigit = false) :
      Date.part? (ds ++ rest) = some (Nat.ofDigitChars 10 ds 0, rest) := by
    rw [Date.part?, dropWhile_isBlank digits (ne_of_length hds), ← hds]
    exact number?_digits digits (ne_of_length hds) rest stop
  have hmonth := hpart h.month_digits h.length_month ('-' :: day) (by rintro _ ⟨⟩; rfl)
  have hday := hpart h.day_digits h.length_day [] (fun _ h => nomatch h)
  rw [List.append_nil] at hday
  rw [Date.parse?, h.toList_eq, Date.numbers?]
  simp only [hyear, Date.dash?, hmonth, hday, Option.bind_eq_bind, Option.bind_some]
  rfl

end PaddedParts

/-! ### The order -/

/-- **Dates with all their digits are ordered as their texts.** -/
theorem lt_iff_before {a b : String} {d e : Date} (ha : Padded a) (hb : Padded b)
    (hd : Date.parse? a = some d) (he : Date.parse? b = some e) : a < b ↔ d.before e := by
  obtain ⟨year, month, day, h⟩ := ha
  obtain ⟨year', month', day', h'⟩ := hb
  rw [h.parse?] at hd
  rw [h'.parse?] at he
  obtain rfl := Option.some.inj (Option.filter_eq_some_iff.mp hd).1
  obtain rfl := Option.some.inj (Option.filter_eq_some_iff.mp he).1
  have hyears := h.length_year.trans h'.length_year.symm
  have hmonths := h.length_month.trans h'.length_month.symm
  have hdays := h.length_day.trans h'.length_day.symm
  have hlast := digits_append_lt_iff h.day_digits h'.day_digits hdays [] []
  rw [List.append_nil, List.append_nil, or_iff_left fun h => List.not_lt_nil _ h.2] at hlast
  show a.toList < b.toList ↔ _
  rw [h.toList_eq, h'.toList_eq,
    digits_append_lt_iff h.year_digits h'.year_digits hyears, List.cons_lt_cons_iff,
    digits_append_lt_iff h.month_digits h'.month_digits hmonths, List.cons_lt_cons_iff, hlast]
  simp only [Date.before, Std.lt_irrefl, false_or, true_and, Nat.cast_lt, Nat.cast_inj]

end RecordStore.Time

namespace RecordStore.Query

/-! ## Dates in the order of the calendar

    The values of a date field are compared as texts, in a fold as in the ordering of rows.  That
    is the order of the calendar where they are written `YYYY-MM-DD`.  A date that is written
    otherwise is accepted as well, and then the two orders differ.  The route:

    * `compare_eq_lt_iff`, `compare_eq_gt_iff`: the comparison of texts, told by their order;
    * `fold_min_dates`, `fold_max_dates`: the earliest and the latest date;
    * `chronological_of_stablySorted`: rows in the order of a date field;
    * `dates_in_order`: all of this together, and `dates_misordered`: dates written otherwise. -/

open RecordStore.Text RecordStore.Time

variable {field : Field} {values : List String}

/-! ### Texts -/

theorem compare_eq_lt_iff {a b : String} : compare a b = .lt ↔ a < b :=
  @compare_lt_iff_lt String _ a b

theorem compare_eq_gt_iff {a b : String} : compare a b = .gt ↔ b < a :=
  @compare_gt_iff_gt String _ a b

/-- Dates are compared as texts, whatever they are. -/
theorem compareValues_of_date (date : field.kind = .date) (a b : String) :
    compareValues field a b = .ok (compare a b) := by
  rw [compareValues, date]

/-! ### The earliest and the latest -/

/-- The values that take part are dates, all written `YYYY-MM-DD`. -/
def PaddedDates (values : List String) : Prop :=
  ∀ v ∈ present values, Padded v ∧ ∃ d, Date.parse? v = some d

/-- The minimum of padded dates is one of them, and no other is before it. -/
theorem fold_min_dates (date : field.kind = .date) (given : present values ≠ [])
    (dates : PaddedDates values) :
    ∃ best d, Aggregate.min.fold field values = .ok best ∧ best ∈ present values ∧
      Date.parse? best = some d ∧
      ∀ v ∈ present values, ∀ e, Date.parse? v = some e → ¬ e.before d := by
  obtain ⟨best, found, least⟩ : ∃ best, extremum field .lt (present values) = .ok best ∧
      FirstGreatest OrderDual.toDual (present values) best :=
    extremum_first
      (fun a _ b _ => ⟨_, compareValues_of_date date a b,
        compare_eq_lt_iff.trans OrderDual.toDual_lt_toDual.symm⟩)
      given
  obtain ⟨padded, d, hd⟩ := dates best least.mem
  refine ⟨best, d, found, least.mem, hd, ?_⟩
  intro v hv e he hbefore
  have hlt : v < best := (lt_iff_before (dates v hv).1 padded he hd).mpr hbefore
  exact absurd hlt (not_lt.mpr (OrderDual.toDual_le_toDual.mp (least.rank_le hv)))

/-- The maximum of padded dates is one of them, and it is before no other. -/
theorem fold_max_dates (date : field.kind = .date) (given : present values ≠ [])
    (dates : PaddedDates values) :
    ∃ best d, Aggregate.max.fold field values = .ok best ∧ best ∈ present values ∧
      Date.parse? best = some d ∧
      ∀ v ∈ present values, ∀ e, Date.parse? v = some e → ¬ d.before e := by
  obtain ⟨best, found, greatest⟩ : ∃ best, extremum field .gt (present values) = .ok best ∧
      FirstGreatest id (present values) best :=
    extremum_first
      (fun a _ b _ => ⟨_, compareValues_of_date date a b, compare_eq_gt_iff⟩) given
  obtain ⟨padded, d, hd⟩ := dates best greatest.mem
  refine ⟨best, d, found, greatest.mem, hd, ?_⟩
  intro v hv e he hbefore
  have hlt : best < v := (lt_iff_before padded (dates v hv).1 hd he).mpr hbefore
  exact absurd hlt (not_lt.mpr (greatest.rank_le hv))

/-! ### Ordered rows -/

/-- Of two rows with dates written `YYYY-MM-DD` in a field, the one that stands first has not the
    later date. -/
def Chronological (name : String) (rows : List Record) : Prop :=
  rows.Pairwise fun a b => Padded (a.valueOf name) → Padded (b.valueOf name) →
    ∀ d e, Date.parse? (a.valueOf name) = some d → Date.parse? (b.valueOf name) = some e →
      ¬ e.before d

/-- Rows in the order of a date field are in that of the calendar, where the dates are padded. -/
theorem chronological_of_stablySorted {name : String} {more : List String}
    {rows sorted : List Record} (h : StablySorted (name :: more) rows sorted) :
    Chronological name sorted := by
  refine h.ascending.imp fun {a b} hab ha hb d e hd he hbefore => ?_
  have hlt : b.valueOf name < a.valueOf name := (lt_iff_before hb ha he hd).mpr hbefore
  rcases hab with hless | ⟨hsame, -⟩
  · exact lt_asymm hless hlt
  · exact absurd hlt (hsame ▸ lt_irrefl _)

/-! ### All together -/

/-- **Dates that are written `YYYY-MM-DD` come in the order of the calendar.**  Their bytes, and so
    the comparison of the values of a date field, are in the order of the dates that they denote;
    the least of them is an earliest date and the greatest a latest one; and rows that are ordered
    by the field first ascend by their dates. -/
theorem dates_in_order (date : field.kind = .date) :
    (∀ a b d e, Padded a → Padded b → Date.parse? a = some d → Date.parse? b = some e →
      (encode a < encode b ↔ d.before e) ∧
      (compareValues field a b = .ok .lt ↔ d.before e)) ∧
    (∀ values, present values ≠ [] → PaddedDates values →
      (∃ best d, Aggregate.min.fold field values = .ok best ∧ best ∈ present values ∧
        Date.parse? best = some d ∧
        ∀ v ∈ present values, ∀ e, Date.parse? v = some e → ¬ e.before d) ∧
      ∃ best d, Aggregate.max.fold field values = .ok best ∧ best ∈ present values ∧
        Date.parse? best = some d ∧
        ∀ v ∈ present values, ∀ e, Date.parse? v = some e → ¬ d.before e) ∧
    ∀ schema more rows, schema.field field.name = .ok field →
      (∀ name ∈ more, name ∈ schema.names) → (∀ r ∈ rows, r.schema = schema) →
      ∃ sorted, orderRows schema (field.name :: more) rows = .ok sorted ∧
        StablySorted (field.name :: more) rows sorted ∧ Chronological field.name sorted := by
  refine ⟨?_, ?_, ?_⟩
  · intro a b d e ha hb hd he
    have hlt := lt_iff_before ha hb hd he
    refine ⟨encode_lt_encode_iff.trans hlt, ?_⟩
    rw [compareValues_of_date date, Except.ok.injEq, compare_eq_lt_iff]
    exact hlt
  · intro values given dates
    exact ⟨fold_min_dates date given dates, fold_max_dates date given dates⟩
  · intro schema more rows known others follow
    have hname : field.name ∈ schema.names :=
      Schema.mem_names.mpr ⟨field, (Schema.mem_of_field known).1, rfl⟩
    obtain ⟨sorted, hsorted, stable⟩ :=
      orderRows_stablySorted (List.forall_mem_cons.mpr ⟨hname, others⟩) follow
    exact ⟨sorted, hsorted, stable, chronological_of_stablySorted stable⟩

/-- The dates of some views, and a view without a date. -/
def viewDates : List String := ["2014-10-01", "", "0999-12-31", "2014-09-30"]

/-- A view on some date. -/
def viewOn (date : String) : Record := .parse .mediaViews ("box|film||" ++ date)

/-- No view is earlier than the least of them, and they are ordered by their dates. -/
theorem dates_in_order_viewDates :
    Aggregate.min.fold ⟨"date", .date, none⟩ viewDates = .ok "0999-12-31" ∧
      (∀ v ∈ present viewDates, ∀ e, Date.parse? v = some e → ¬ e.before ⟨999, 12, 31⟩) ∧
      ∃ sorted, orderRows .mediaViews ["date"] (viewDates.map viewOn) = .ok sorted ∧
        Chronological "date" sorted := by
  have dates : PaddedDates viewDates := by
    intro v hv
    simp only [present, viewDates, List.mem_filter, List.mem_cons, List.not_mem_nil] at hv
    rcases hv with ⟨rfl | rfl | rfl | rfl | ⟨⟨⟩⟩, given⟩
    · exact ⟨⟨"2014".toList, "10".toList, "01".toList, .of_all rfl rfl rfl rfl rfl⟩,
        ⟨2014, 10, 1⟩, by decide +kernel⟩
    · exact nomatch given
    · exact ⟨⟨"0999".toList, "12".toList, "31".toList, .of_all rfl rfl rfl rfl rfl⟩,
        ⟨999, 12, 31⟩, by decide +kernel⟩
    · exact ⟨⟨"2014".toList, "09".toList, "30".toList, .of_all rfl rfl rfl rfl rfl⟩,
        ⟨2014, 9, 30⟩, by decide +kernel⟩
  have follow : ∀ r ∈ viewDates.map viewOn, r.schema = .mediaViews := by
    intro r hr
    obtain ⟨date, -, rfl⟩ := List.mem_map.mp hr
    exact Record.schema_parse ..
  have hfold : Aggregate.min.fold ⟨"date", .date, none⟩ viewDates = .ok "0999-12-31" := by
    decide +kernel
  have hparse : Date.parse? "0999-12-31" = some ⟨999, 12, 31⟩ := by decide +kernel
  obtain ⟨-, folds, orders⟩ := @dates_in_order ⟨"date", .date, none⟩ rfl
  obtain ⟨⟨best, d, found, -, hd, earliest⟩, -⟩ :=
    folds viewDates (by decide +kernel) dates
  obtain ⟨sorted, hsorted, -, chronological⟩ :=
    orders .mediaViews [] _ rfl (fun _ h => nomatch h) follow
  obtain rfl : "0999-12-31" = best := Except.ok.inj (hfold.symm.trans found)
  obtain rfl : ⟨999, 12, 31⟩ = d := Option.some.inj (hparse.symm.trans hd)
  exact ⟨hfold, earliest, sorted, hsorted, chronological⟩

/-! ### Dates written otherwise -/

/-- Two values of a date field, of which the first denotes the earlier day and is the greater
    text. -/
def Misordered (a b : String) : Prop :=
  Kind.date.accepts a = true ∧ Kind.date.accepts b = true ∧
    (∃ d ∈ Date.parse? a, ∃ e ∈ Date.parse? b, d.before e) ∧ compare a b = .gt

instance (a b : String) : Decidable (Misordered a b) := inferInstanceAs (Decidable (_ ∧ _))

/-- **A date that is accepted without leading zeros, with a sign or with white space in front takes
    a wrong place.**  September comes out as the latest month and October as the earliest, and the
    rows of a field in that order; so with the other values. -/
theorem dates_misordered :
    Misordered "2014-9-01" "2014-10-01" ∧
      Aggregate.max.fold ⟨"date", .date, none⟩ ["2014-10-01", "2014-9-01"] = .ok "2014-9-01" ∧
      Aggregate.min.fold ⟨"date", .date, none⟩ ["2014-10-01", "2014-9-01"] = .ok "2014-10-01" ∧
      orderRows .mediaViews ["date"] [viewOn "2014-9-01", viewOn "2014-10-01"]
        = .ok [viewOn "2014-10-01", viewOn "2014-9-01"] ∧
      Misordered "2014-01-9" "2014-01-10" ∧ Misordered "999-01-01" "2014-01-01" ∧
      Misordered "-0002-01-01" "-0001-01-01" ∧ Misordered "2014-01-01" "+2014-01-02" ∧
      Misordered "2014-01-01" " 2014-01-02" := by
  have hprecedes : precedes [3] (viewOn "2014-9-01") (viewOn "2014-10-01") = false := by
    decide +kernel
  have hsort : [viewOn "2014-9-01", viewOn "2014-10-01"].mergeSort (precedes [3])
      = [viewOn "2014-10-01", viewOn "2014-9-01"] := by
    simp [List.mergeSort, hprecedes]
  exact ⟨by decide +kernel, by decide +kernel, by decide +kernel, congrArg Except.ok hsort,
    by decide +kernel⟩

end RecordStore.Query

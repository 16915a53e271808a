import RecordStore.Proofs.Number.Rounding
import RecordStore.Proofs.Sequence
import RecordStore.Query.Run

/-! # Folds that compare

    The least and the greatest value are found by comparing.  Two things follow from this: a
    malformed value can go unnoticed, and decimals are told apart only where their doubles are. -/

namespace RecordStore.Query

open Number Time

/-! ## Malformed values in a fold

    A sum reads each of its values, so it fails when one of them is not of the field's kind.  The
    least and the greatest value are found by comparing, which reads the two that are compared; and
    every value is compared with another unless it is the only one.  So a malformed value is
    noticed wherever it stands and however many others there are, but not when it is alone: then it
    is itself what is found.  The route:

    * `compareValues_reads`, `addDecimal_reads`, `addMinutes_reads`: the values that a step reads;
    * `sum_reads`, `extremum_reads`: so those that a pass has read when it ends with a value;
    * `fold_malformed`: what becomes of a malformed value. -/

section Malformed

/-- The errors about a value of a field. -/
def AboutValue (field : Field) (e : StoreError) : Prop :=
  ∃ fault, e = .invalidValue field.name fault

variable {field : Field} {values : List String}

theorem aboutValue_notOfKind (value : String) : AboutValue field (notOfKind field value) := ⟨_, rfl⟩

theorem aboutValue_outOfRange : AboutValue field (outOfRange field) := ⟨_, rfl⟩

/-! ### What a step reads -/

theorem readDecimal_reads (value : String) :
    Ends (fun _ => Kind.decimal.accepts value = true) (AboutValue field)
      (readDecimal field value) := by
  rw [readDecimal, Kind.accepts]
  cases Decimal.parse? value with
  | some d => exact rfl
  | none => exact aboutValue_notOfKind value

theorem readMinutes_reads (value : String) :
    Ends (fun _ => Kind.duration.accepts value = true) (AboutValue field)
      (readMinutes field value) := by
  rw [readMinutes, Kind.accepts]
  cases Duration.parse? value with
  | some n => exact rfl
  | none => exact aboutValue_notOfKind value

/-- Two numbers compare only if both are of the field's kind. -/
theorem compareValues_reads (numeric : field.kind.isNumeric = true) (a b : String) :
    Ends (fun _ => field.kind.accepts a = true ∧ field.kind.accepts b = true) (AboutValue field)
      (compareValues field a b) := by
  rw [compareValues]
  cases hkind : field.kind with
  | text | date =>
      rw [hkind] at numeric
      exact nomatch numeric
  | decimal =>
      exact (readDecimal_reads a).bind fun _ ha => (readDecimal_reads b).bind fun _ hb => ⟨ha, hb⟩
  | duration =>
      exact (readMinutes_reads a).bind fun _ ha => (readMinutes_reads b).bind fun _ hb => ⟨ha, hb⟩

theorem addDecimal_reads (total : FixedSum) (value : String) :
    Ends (fun _ => Kind.decimal.accepts value = true) (AboutValue field)
      (addDecimal field total value) := by
  refine (readDecimal_reads value).bind fun d hd => ?_
  cases total.add? d with
  | ok sum => exact hd
  | error fault =>
      cases fault with
      | notHeld => exact aboutValue_notOfKind value
      | outOfRange => exact aboutValue_outOfRange

theorem addMinutes_reads (total : Nat) (value : String) :
    Ends (fun _ => Kind.duration.accepts value = true) (AboutValue field)
      (addMinutes field total value) := by
  refine (readMinutes_reads value).bind fun n hn => ?_
  by_cases bounded : total + n < Duration.bound
  · rw [if_pos bounded]
    exact hn
  · rw [if_neg bounded]
    exact aboutValue_outOfRange

/-! ### What a pass reads -/

/-- A pass whose every step reads its value has read all of them when it ends with a value. -/
private theorem foldlM_reads {β : Type} {kind : Kind} {step : β → String → Except StoreError β}
    (reads : ∀ b v, Ends (fun _ => kind.accepts v = true) (AboutValue field) (step b v)) (b : β) :
    Ends (fun _ => ∀ v ∈ values, kind.accepts v = true) (AboutValue field)
      (values.foldlM step b) := by
  have hstep (done : List String) (v : String) (rest : List String) (b : β)
      (_ : values = done ++ v :: rest) (hdone : ∀ u ∈ done, kind.accepts u = true) :
      Ends (fun _ => ∀ u ∈ done ++ [v], kind.accepts u = true) (AboutValue field) (step b v) := by
    refine (reads b v).mono (fun _ hv => ?_) fun _ h => h
    exact List.forall_mem_append.mpr ⟨hdone, List.forall_mem_singleton.mpr hv⟩
  exact Ends.foldlM_done hstep (List.nil_append values).symm fun _ h => nomatch h

/-- A sum has read all values when it ends with one, and before it can find that it cannot be
    printed. -/
theorem sum_reads (numeric : field.kind.isNumeric = true) :
    Ends (fun _ => ∀ v ∈ values, field.kind.accepts v = true)
      (fun e => AboutValue field e ∨ ∀ v ∈ values, field.kind.accepts v = true)
      (sum field values) := by
  rw [sum]
  cases values with
  | nil => exact fun _ h => nomatch h
  | cons first others =>
      cases hkind : field.kind with
      | text | date =>
          rw [hkind] at numeric
          exact nomatch numeric
      | decimal =>
          refine ((foldlM_reads addDecimal_reads _).mono (fun _ h => h) fun _ => .inl).bind ?_
          intro total hread
          cases total.format? with
          | some text => exact hread
          | none => exact .inr hread
      | duration =>
          refine ((foldlM_reads addMinutes_reads _).mono (fun _ h => h) fun _ => .inl).bind ?_
          intro total hread
          exact hread

/-- What a pass for an extremum has read: all values so far, unless there was no other to compare
    the best with. -/
def ReadFor (field : Field) (values : List String) (best : String) : Prop :=
  (∀ v ∈ values, field.kind.accepts v = true) ∨ values = [best]

/-- A pass for an extremum reads all values that it has something to compare with. -/
theorem extremum_reads (numeric : field.kind.isNumeric = true) (wanted : Ordering) :
    Ends (ReadFor field values) (AboutValue field) (extremum field wanted values) := by
  cases values with
  | nil => exact .inl fun _ h => nomatch h
  | cons first others =>
      have hstep (done : List String) (v : String) (rest : List String) (best : String)
          (_ : first :: others = done ++ v :: rest) (hdone : ReadFor field done best) :
          Ends (ReadFor field (done ++ [v])) (AboutValue field) (better field wanted best v) := by
        refine (compareValues_reads numeric v best).bind fun ordering hread => .inl ?_
        -- the best so far was read as well, so it does not matter that it may have been alone
        rcases hdone with hdone | rfl
        · exact List.forall_mem_append.mpr ⟨hdone, List.forall_mem_singleton.mpr hread.1⟩
        · exact List.forall_mem_cons.mpr ⟨hread.2, List.forall_mem_singleton.mpr hread.1⟩
      exact Ends.foldlM_done hstep List.singleton_append.symm (.inr rfl)

/-! ### Malformed values -/

section Malformed

variable {value : String}

private theorem not_all_accepted (mem : value ∈ values)
    (malformed : field.kind.accepts value = false) :
    ¬ ∀ v ∈ values, field.kind.accepts v = true := by
  intro h
  exact absurd ((h value mem).symm.trans malformed) (by simp)

/-- A sum with a malformed value in it fails, and says so of the field. -/
theorem sum_malformed (numeric : field.kind.isNumeric = true) (mem : value ∈ values)
    (malformed : field.kind.accepts value = false) :
    ∃ fault, sum field values = .error (.invalidValue field.name fault) := by
  have unread := not_all_accepted mem malformed
  have ends : Ends _ _ (sum field values) := sum_reads numeric
  cases hpass : sum field values with
  | ok text =>
      rw [hpass] at ends
      exact absurd ends unread
  | error e =>
      rw [hpass] at ends
      obtain ⟨fault, rfl⟩ := ends.resolve_right unread
      exact ⟨fault, rfl⟩

/-- So does an extremum, unless the malformed value is the only one. -/
theorem extremum_malformed (numeric : field.kind.isNumeric = true) (wanted : Ordering)
    (mem : value ∈ values) (malformed : field.kind.accepts value = false)
    (others : values ≠ [value]) :
    ∃ fault, extremum field wanted values = .error (.invalidValue field.name fault) := by
  have unread := not_all_accepted mem malformed
  have ends : Ends _ _ (extremum field wanted values) := extremum_reads numeric wanted
  cases hpass : extremum field wanted values with
  | ok best =>
      rw [hpass] at ends
      have single : values = [best] := ends.resolve_left unread
      rw [single, List.mem_singleton] at mem
      exact absurd (mem ▸ single) others
  | error e =>
      rw [hpass] at ends
      obtain ⟨fault, rfl⟩ := ends
      exact ⟨fault, rfl⟩

/-- Nothing is read of a single value. -/
theorem extremum_singleton (wanted : Ordering) : extremum field wanted [value] = .ok value := rfl

end Malformed

/-- **A malformed value is an error, unless it is the only value of an extremum.**  Where numbers
    are summed, or their least or greatest is asked for, a value that is neither empty nor of the
    field's kind makes the fold fail with an error about a value of the field, whatever the others
    are and wherever it stands.  The one exception is the extremum of a single value, which is that
    value, malformed as it is. -/
theorem fold_malformed {aggregate : Aggregate} {value : String}
    (numeric : field.kind.isNumeric = true)
    (reading : aggregate = .sum ∨ aggregate = .min ∨ aggregate = .max)
    (mem : value ∈ values) (given : value ≠ "") (malformed : field.kind.accepts value = false) :
    ((∃ fault, aggregate.fold field values = .error (.invalidValue field.name fault)) ↔
      aggregate = .sum ∨ present values ≠ [value]) ∧
    (aggregate ≠ .sum → present values = [value] → aggregate.fold field values = .ok value) := by
  have taken : value ∈ present values := List.mem_filter.mpr ⟨mem, by simpa using given⟩
  have alone (wanted : Ordering) (h : present values = [value]) :
      extremum field wanted (present values) = .ok value := by rw [h, extremum_singleton]
  have extremum_iff (wanted : Ordering) :
      (∃ fault, extremum field wanted (present values) = .error (.invalidValue field.name fault)) ↔
        present values ≠ [value] := by
    constructor
    · rintro ⟨fault, fails⟩ h
      exact nomatch fails.symm.trans (alone wanted h)
    · exact extremum_malformed numeric wanted taken malformed
  rcases reading with rfl | rfl | rfl
  · exact ⟨iff_of_true (sum_malformed numeric taken malformed) (.inl rfl), fun h => absurd rfl h⟩
  · exact ⟨(extremum_iff .lt).trans (or_iff_right (by simp)).symm, fun _ => alone .lt⟩
  · exact ⟨(extremum_iff .gt).trans (or_iff_right (by simp)).symm, fun _ => alone .gt⟩

/-- The malformed value stands last among others, and an empty one is no other. -/
theorem fold_malformed_lastRevenue :
    (∃ fault, Aggregate.max.fold ⟨"rev", .decimal, none⟩ ["1.50", "", "2.25", "free"]
      = .error (.invalidValue "rev" fault)) ∧
    Aggregate.max.fold ⟨"rev", .decimal, none⟩ ["", "free", ""] = .ok "free" := by
  constructor
  · exact (@fold_malformed ⟨"rev", .decimal, none⟩ ["1.50", "", "2.25", "free"] .max "free" rfl
      (.inr (.inr rfl)) (by decide) (by decide) (by decide +kernel)).1.mpr (.inr (by decide))
  · exact (@fold_malformed ⟨"rev", .decimal, none⟩ ["", "free", ""] .max "free" rfl
      (.inr (.inr rfl)) (by decide) (by decide) (by decide +kernel)).2 (by decide) (by decide)

/-- So a malformed value need not be an error: alone it is the least and the greatest, though it
    cannot be summed. -/
theorem malformed_found :
    Kind.decimal.accepts "free" = false ∧
      Aggregate.min.fold ⟨"rev", .decimal, none⟩ ["free"] = .ok "free" ∧
      Aggregate.max.fold ⟨"rev", .decimal, none⟩ ["free"] = .ok "free" ∧
      Aggregate.sum.fold ⟨"rev", .decimal, none⟩ ["free"]
        = .error (.invalidValue "rev" (.notOfKind "free" .decimal)) := by
  exact ⟨by decide +kernel, rfl, rfl, by rfl⟩

end Malformed

/-! ## The least and the greatest of some values

    An extremum is found in one pass, in which a value takes the place of the best so far if it
    compares as wanted.  Where the comparison is that of some rank in a linear order, what is left
    is the first of the values with the greatest rank.  For decimals the rank is that of the
    nearest double.  So the greatest decimal is one that no other exceeds, except by so little that
    both have the same double.  The route:

    * `FirstGreatest`: the value that should be left, and what one more value makes of it;
    * `extremum_first`: what the pass leaves;
    * `extremum_rounded`: decimals. -/

section Extremum

/-! ### The first of the greatest -/

/-- A value that stands among others, before it only values of less rank and after it none of
    greater. -/
def FirstGreatest {α β : Type} [LinearOrder β] (rank : α → β) (values : List α) (best : α) :
    Prop :=
  ∃ before after, values = before ++ best :: after ∧
    (∀ v ∈ before, rank v < rank best) ∧ ∀ v ∈ after, rank v ≤ rank best

namespace FirstGreatest

variable {α β : Type} [LinearOrder β] {rank : α → β} {values : List α} {best v : α}

theorem singleton (v : α) : FirstGreatest rank [v] v :=
  ⟨[], [], rfl, fun _ h => (nomatch h), fun _ h => nomatch h⟩

theorem mem (h : FirstGreatest rank values best) : best ∈ values := by
  obtain ⟨before, after, rfl, -, -⟩ := h
  exact List.mem_append_right _ List.mem_cons_self

theorem rank_le (h : FirstGreatest rank values best) (hv : v ∈ values) : rank v ≤ rank best := by
  obtain ⟨before, after, rfl, less, atMost⟩ := h
  rcases List.mem_append.mp hv with hv | hv
  · exact (less v hv).le
  · rcases List.mem_cons.mp hv with rfl | hv
    · exact le_rfl
    · exact atMost v hv

/-- One more value takes the place of the best if its rank is greater. -/
theorem concat_of_lt (h : FirstGreatest rank values best) (greater : rank best < rank v) :
    FirstGreatest rank (values ++ [v]) v :=
  ⟨values, [], rfl, fun _ hu => (h.rank_le hu).trans_lt greater, fun _ hu => nomatch hu⟩

/-- It stays where one more value has no greater rank. -/
theorem concat_of_le (h : FirstGreatest rank values best) (atMost : rank v ≤ rank best) :
    FirstGreatest rank (values ++ [v]) best := by
  obtain ⟨before, after, rfl, less, least⟩ := h
  refine ⟨before, after ++ [v], ?_, less, ?_⟩
  · rw [List.append_assoc, List.cons_append]
  · intro u hu
    rcases List.mem_append.mp hu with hu | hu
    · exact least u hu
    · rw [List.mem_singleton.mp hu]
      exact atMost

end FirstGreatest

/-! ### The pass over the values -/

variable {field : Field} {wanted : Ordering} {values : List String}

/-- If values compare as their ranks, as far as it is wanted, the pass leaves the first of those of
    greatest rank. -/
theorem extremum_first {β : Type} [LinearOrder β] {rank : String → β}
    (compares : ∀ a ∈ values, ∀ b ∈ values, ∃ ordering,
      compareValues field a b = .ok ordering ∧ (ordering = wanted ↔ rank b < rank a))
    (given : values ≠ []) :
    ∃ best, extremum field wanted values = .ok best ∧ FirstGreatest rank values best := by
  obtain ⟨first, others, rfl⟩ := List.exists_cons_of_ne_nil given
  have step (done : List String) (v : String) (rest : List String) (best : String)
      (place : first :: others = done ++ v :: rest) (h : FirstGreatest rank done best) :
      Ends (FirstGreatest rank (done ++ [v])) (fun _ => False) (better field wanted best v) := by
    have hv : v ∈ first :: others := place ▸ List.mem_append_right _ List.mem_cons_self
    have hbest : best ∈ first :: others := place ▸ List.mem_append_left _ h.mem
    obtain ⟨ordering, hcompare, hwanted⟩ := compares v hv best hbest
    rw [better, hcompare]
    show FirstGreatest rank (done ++ [v]) (if ordering = wanted then v else best)
    by_cases greater : rank best < rank v
    · rw [if_pos (hwanted.mpr greater)]
      exact h.concat_of_lt greater
    · rw [if_neg (mt hwanted.mp greater)]
      exact h.concat_of_le (not_lt.mp greater)
  have ends := Ends.foldlM_done step (List.singleton_append (x := first)).symm
    (FirstGreatest.singleton first)
  show ∃ best, others.foldlM (better field wanted) first = .ok best ∧ _
  cases hpass : others.foldlM (better field wanted) first with
  | ok best =>
      rw [hpass] at ends
      exact ⟨best, rfl, ends⟩
  | error e =>
      rw [hpass] at ends
      exact ends.elim

/-! ### Decimals -/

/-- The place of the double that is nearest to a value among the doubles. -/
def doubleRank (value : String) : Int :=
  match Decimal.parse? value with
  | some d => (Binary64.ofDecimal d).rank
  | none => 0

/-- The rank of a value that is read as a decimal is that of its double. -/
theorem doubleRank_eq {value : String} {d : Decimal} (h : Decimal.parse? value = some d) :
    doubleRank value = (Binary64.ofDecimal d).rank := by
  rw [doubleRank, h]

/-- Decimal values compare as the doubles nearest to them. -/
theorem compareValues_eq_doubleRank (decimal : field.kind = .decimal)
    (read : ∀ v ∈ values, ∃ d, Decimal.parse? v = some d) {a b : String} (ha : a ∈ values)
    (hb : b ∈ values) :
    compareValues field a b = .ok (compare (doubleRank a) (doubleRank b)) := by
  obtain ⟨x, hx⟩ := read a ha
  obtain ⟨y, hy⟩ := read b hb
  rw [compareValues, decimal, doubleRank_eq hx, doubleRank_eq hy]
  show (readDecimal field a >>= fun x => readDecimal field b >>= fun y => _) = _
  rw [readDecimal, hx, readDecimal, hy]
  rfl

/-- **The extrema of decimals are those of the nearest doubles.**  The greatest decimal is found as
    the first whose double is greatest, and the least as the first whose double is least.  So each
    of the other values is at most the greatest and at least the least, or else has the same
    double. -/
theorem extremum_rounded (decimal : field.kind = .decimal) (given : present values ≠ [])
    (read : ∀ v ∈ present values, ∃ d, Decimal.parse? v = some d) :
    (∃ best e, Aggregate.max.fold field values = .ok best ∧ Decimal.parse? best = some e ∧
      FirstGreatest doubleRank (present values) best ∧
      ∀ v ∈ present values, ∀ d, Decimal.parse? v = some d →
        d.value ≤ e.value ∨ Binary64.ofDecimal d = Binary64.ofDecimal e) ∧
    ∃ best e, Aggregate.min.fold field values = .ok best ∧ Decimal.parse? best = some e ∧
      FirstGreatest (fun v => -doubleRank v) (present values) best ∧
      ∀ v ∈ present values, ∀ d, Decimal.parse? v = some d →
        e.value ≤ d.value ∨ Binary64.ofDecimal e = Binary64.ofDecimal d := by
  constructor
  · obtain ⟨best, found, greatest⟩ : ∃ best, extremum field .gt (present values) = .ok best ∧
        FirstGreatest doubleRank (present values) best :=
      extremum_first
        (fun a ha b hb => ⟨_, compareValues_eq_doubleRank decimal read ha hb, compare_gt_iff_gt⟩)
        given
    obtain ⟨e, he⟩ := read best greatest.mem
    refine ⟨best, e, found, he, greatest, ?_⟩
    intro v hv d hd
    have hrank := greatest.rank_le hv
    rw [doubleRank_eq hd, doubleRank_eq he] at hrank
    exact Binary64.value_le_or_eq hrank
  · obtain ⟨best, found, least⟩ : ∃ best, extremum field .lt (present values) = .ok best ∧
        FirstGreatest (fun v => -doubleRank v) (present values) best :=
      extremum_first
        (fun a ha b hb => ⟨_, compareValues_eq_doubleRank decimal read ha hb,
          compare_lt_iff_lt.trans neg_lt_neg_iff.symm⟩)
        given
    obtain ⟨e, he⟩ := read best least.mem
    refine ⟨best, e, found, he, least, ?_⟩
    intro v hv d hd
    have hrank := neg_le_neg_iff.mp (least.rank_le hv)
    rw [doubleRank_eq hd, doubleRank_eq he] at hrank
    exact Binary64.value_le_or_eq hrank

/-- Two revenues between which there is no double. -/
def closeRevenues : List String := ["9007199254740992", "9007199254740993"]

/-- The first is found as the greatest: it has the greatest double, and so has the second. -/
theorem extremum_rounded_closeRevenues :
    Aggregate.max.fold ⟨"rev", .decimal, none⟩ closeRevenues = .ok "9007199254740992" ∧
      FirstGreatest doubleRank closeRevenues "9007199254740992" := by
  have hfold : Aggregate.max.fold ⟨"rev", .decimal, none⟩ closeRevenues
      = .ok "9007199254740992" := by decide +kernel
  have read : ∀ v ∈ present closeRevenues, ∃ d, Decimal.parse? v = some d := by
    intro v hv
    rcases List.mem_pair.mp hv with rfl | rfl
    · exact ⟨⟨false, 9007199254740992, 0⟩, by decide +kernel⟩
    · exact ⟨⟨false, 9007199254740993, 0⟩, by decide +kernel⟩
  obtain ⟨⟨best, e, found, -, greatest, -⟩, -⟩ :=
    @extremum_rounded ⟨"rev", .decimal, none⟩ closeRevenues rfl (by decide) read
  cases hfold.symm.trans found
  exact ⟨hfold, greatest⟩

/-- But the second is greater, so what is found need not be the greatest; nor need it be the
    least. -/
theorem greatest_missed :
    ∃ d e, Decimal.parse? "9007199254740992" = some d ∧
      Decimal.parse? "9007199254740993" = some e ∧ d.value < e.value ∧
      Aggregate.max.fold ⟨"rev", .decimal, none⟩ closeRevenues = .ok "9007199254740992" ∧
      Aggregate.min.fold ⟨"rev", .decimal, none⟩ closeRevenues.reverse
        = .ok "9007199254740993" := by
  refine ⟨⟨false, 9007199254740992, 0⟩, ⟨false, 9007199254740993, 0⟩, by decide +kernel,
    by decide +kernel, ?_, by decide +kernel, by decide +kernel⟩
  norm_num [Decimal.value, Decimal.signedUnits]

end Extremum

end RecordStore.Query

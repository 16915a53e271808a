import Mathlib.Algebra.BigOperators.Group.List.Basic
import Mathlib.Algebra.Order.BigOperators.Group.List
import RecordStore.Proofs.Number.FixedSum
import RecordStore.Proofs.Sequence
import RecordStore.Query.Run

/-! # Sums of decimal values

    The values of a field are added one after the other, and the running sum is widened whenever a
    value has more places.  What is known of it after some values (`Summed`) says nothing of their
    order: it is their exact sum, at the largest number of their places.  So the text of the sum
    depends on the values alone, and where it can be printed it is the canonical text of the exact
    sum.  It can be printed where no value has more than 38 places.  Beyond them the widenings are
    each checked, but the power of ten that the printing divides by is not.  The route:

    * `exactSum`, `largestPlaces`: what the sum of decimals should be;
    * `addDecimal_summed`, `foldlM_addDecimal_summed`: one step keeps it, and so does the loop;
    * `exists_foldlM_addDecimal`: the loop ends well, if the absolute values stay in the word;
    * `sum_exact`, `sum_printed`: the text up to 38 places, and the text in general. -/

namespace RecordStore.Query

open Number

/-! ## What the sum should be -/

/-- The decimals among some values, in order. -/
def decimals (values : List String) : List Decimal := values.filterMap Decimal.parse?

/-- The sum of decimals as a number. -/
def exactSum (ds : List Decimal) : ℚ := (ds.map Decimal.value).sum

/-- The sum of the absolute values of decimals. -/
def absoluteSum (ds : List Decimal) : ℚ := (ds.map fun d => |d.value|).sum

/-- The largest number of places of some decimals. -/
def largestPlaces (ds : List Decimal) : Nat := (ds.map Decimal.places).foldr max 0

variable {values : List String} {ds es : List Decimal} {d : Decimal}

theorem mem_decimals : d ∈ decimals values ↔ ∃ v ∈ values, Decimal.parse? v = some d :=
  List.mem_filterMap

theorem decimals_append (values others : List String) :
    decimals (values ++ others) = decimals values ++ decimals others :=
  List.filterMap_append

theorem decimals_cons {value : String} (h : Decimal.parse? value = some d)
    (others : List String) : decimals (value :: others) = d :: decimals others :=
  List.filterMap_cons_some h

theorem decimals_singleton {value : String} (h : Decimal.parse? value = some d) :
    decimals [value] = [d] :=
  decimals_cons h []

theorem exactSum_append : exactSum (ds ++ es) = exactSum ds + exactSum es := by
  rw [exactSum, List.map_append, List.sum_append]
  rfl

theorem absoluteSum_append : absoluteSum (ds ++ es) = absoluteSum ds + absoluteSum es := by
  rw [absoluteSum, List.map_append, List.sum_append]
  rfl

theorem absoluteSum_nonneg : 0 ≤ absoluteSum ds := by
  apply List.sum_nonneg
  intro x hx
  obtain ⟨d, -, rfl⟩ := List.mem_map.mp hx
  exact abs_nonneg d.value

/-- A sum is not greater than the sum of the absolute values. -/
theorem abs_exactSum_le : |exactSum ds| ≤ absoluteSum ds := by
  induction ds with
  | nil => exact abs_zero.le
  | cons d ds ih => exact (abs_add_le d.value (exactSum ds)).trans (add_le_add_right ih _)

/-- So many places suffice when they do for each decimal. -/
theorem largestPlaces_le_iff {n : Nat} : largestPlaces ds ≤ n ↔ ∀ d ∈ ds, d.places ≤ n := by
  induction ds with
  | nil => exact iff_of_true (Nat.zero_le n) fun _ h => nomatch h
  | cons d ds ih =>
      rw [List.forall_mem_cons, ← ih]
      exact max_le_iff

theorem largestPlaces_append :
    largestPlaces (ds ++ es) = max (largestPlaces ds) (largestPlaces es) := by
  apply eq_of_forall_ge_iff
  intro n
  rw [max_le_iff, largestPlaces_le_iff, largestPlaces_le_iff, largestPlaces_le_iff,
    List.forall_mem_append]

theorem exactSum_perm (h : ds.Perm es) : exactSum ds = exactSum es :=
  (h.map Decimal.value).sum_eq

theorem largestPlaces_perm (h : ds.Perm es) : largestPlaces ds = largestPlaces es := by
  apply eq_of_forall_ge_iff
  intro n
  rw [largestPlaces_le_iff, largestPlaces_le_iff]
  exact forall_congr' fun d => imp_congr_left h.mem_iff

theorem largestPlaces_singleton : largestPlaces [d] = d.places := Nat.max_zero d.places

/-- If no value that is read has more places than a number, then neither have all of them. -/
theorem largestPlaces_decimals_le {n : Nat}
    (read : ∀ v ∈ values, ∃ d, Decimal.parse? v = some d ∧ d.places ≤ n) :
    largestPlaces (decimals values) ≤ n := by
  rw [largestPlaces_le_iff]
  intro d hd
  obtain ⟨v, hv, hread⟩ := mem_decimals.mp hd
  obtain ⟨d', hread', hd'⟩ := read v hv
  rw [Option.some.inj (hread.symm.trans hread')]
  exact hd'

/-! ## The loop -/

/-- What is known of a running sum after some decimals. -/
structure Summed (ds : List Decimal) (s : FixedSum) : Prop where
  value_eq : s.value = exactSum ds
  places_eq : s.places = largestPlaces ds

theorem summed_zero : Summed [] FixedSum.zero where
  value_eq := by
    show ((0 : Int) : ℚ) / 10 ^ 0 = 0
    norm_num
  places_eq := rfl

/-- One more decimal is added exactly, wherever the addition succeeds. -/
theorem Summed.add? {s t : FixedSum} (h : Summed ds s) (hadd : s.add? d = .ok t) :
    Summed (ds ++ [d]) t where
  value_eq := by
    rw [FixedSum.value_of_add? hadd, h.value_eq, exactSum_append]
    exact congrArg _ (List.sum_singleton).symm
  places_eq := by
    rw [FixedSum.places_of_add? hadd, h.places_eq, largestPlaces_append, largestPlaces_singleton]

variable {field : Field} {value : String} {done : List String} {s : FixedSum}

/-- A value that is read as a decimal is added as that decimal. -/
theorem addDecimal_eq_ok_iff {t : FixedSum} (h : Decimal.parse? value = some d) :
    addDecimal field s value = .ok t ↔ s.add? d = .ok t := by
  have hread : readDecimal field value = .ok d := by rw [readDecimal, h]
  rw [addDecimal, hread]
  dsimp only [bind, Except.bind]
  cases s.add? d with
  | ok sum =>
      constructor
      · rintro ⟨⟩
        rfl
      · rintro ⟨⟩
        rfl
  | error fault =>
      constructor
      · cases fault <;> rintro ⟨⟩
      · rintro ⟨⟩

/-- So is one more value. -/
theorem addDecimal_summed (h : Summed (decimals done) s) :
    Ends (Summed (decimals (done ++ [value]))) (fun _ => True) (addDecimal field s value) := by
  cases hadd : addDecimal field s value with
  | error e => exact trivial
  | ok t =>
      cases hread : Decimal.parse? value with
      | none =>
          rw [addDecimal, readDecimal, hread] at hadd
          exact nomatch hadd
      | some d =>
          rw [decimals_append, decimals_singleton hread]
          exact h.add? ((addDecimal_eq_ok_iff hread).mp hadd)

/-- A loop that ends well leaves the exact sum, at the largest number of places. -/
theorem foldlM_addDecimal_summed
    (completed : values.foldlM (addDecimal field) FixedSum.zero = .ok s) :
    Summed (decimals values) s := by
  have step (done : List String) (value : String) (rest : List String) (s : FixedSum)
      (_ : values = done ++ value :: rest) (h : Summed (decimals done) s) :
      Ends (Summed (decimals (done ++ [value]))) (fun _ => True) (addDecimal field s value) :=
    addDecimal_summed h
  have ends := Ends.foldlM_done step (List.nil_append values).symm summed_zero
  rw [completed] at ends
  exact ends

/-- A decimal can be added if, with all that are still to come, the places and the absolute values
    stay in bounds. -/
theorem Summed.exists_add? (h : Summed ds s) (narrow : largestPlaces (ds ++ d :: es) ≤ 38)
    (bounded : absoluteSum (ds ++ d :: es) * 10 ^ largestPlaces (ds ++ d :: es) < Word.bound) :
    ∃ t, s.add? d = .ok t := by
  have hsplit : ds ++ d :: es = ds ++ [d] ++ es := List.append_cons ..
  rw [hsplit] at narrow bounded
  have hsum : |s.value| + |d.value| ≤ absoluteSum (ds ++ [d] ++ es) := by
    have hd : absoluteSum [d] = |d.value| := List.sum_singleton
    rw [absoluteSum_append, absoluteSum_append, h.value_eq, hd]
    exact (add_le_add_left abs_exactSum_le _).trans (le_add_of_nonneg_right absoluteSum_nonneg)
  have hplaces : max s.places d.places ≤ largestPlaces (ds ++ [d] ++ es) := by
    rw [largestPlaces_append, largestPlaces_append, largestPlaces_singleton, h.places_eq]
    exact le_max_left _ _
  obtain ⟨hs, hd⟩ := max_le_iff.mp (hplaces.trans narrow)
  refine FixedSum.exists_add? hs hd (lt_of_le_of_lt ?_ bounded)
  exact mul_le_mul hsum (pow_le_pow_right₀ (by norm_num) hplaces) (by positivity)
    absoluteSum_nonneg

/-- The loop ends well if no value has more than 38 places, and their absolute values add up to a
    count of units that the word holds. -/
theorem exists_foldlM_addDecimal
    (read : ∀ v ∈ values, ∃ d, Decimal.parse? v = some d ∧ d.places ≤ 38)
    (bounded : absoluteSum (decimals values) * 10 ^ largestPlaces (decimals values) < Word.bound) :
    ∃ s, values.foldlM (addDecimal field) FixedSum.zero = .ok s := by
  have narrow := largestPlaces_decimals_le read
  have step (done : List String) (value : String) (rest : List String) (s : FixedSum)
      (place : values = done ++ value :: rest) (h : Summed (decimals done) s) :
      Ends (Summed (decimals (done ++ [value]))) (fun _ => False) (addDecimal field s value) := by
    obtain ⟨d, hread, -⟩ := read value (place ▸ List.mem_append_right _ List.mem_cons_self)
    have hvalues : decimals values = decimals done ++ d :: decimals rest := by
      rw [place, decimals_append, decimals_cons hread]
    obtain ⟨t, hadd⟩ := h.exists_add? (hvalues ▸ narrow) (hvalues ▸ bounded)
    rw [(addDecimal_eq_ok_iff hread).mpr hadd, decimals_append, decimals_singleton hread]
    exact h.add? hadd
  have ends := Ends.foldlM_done step (List.nil_append values).symm summed_zero
  exact ends.exists_ok

/-! ## The fold -/

/-- The sum of a decimal field prints what the loop leaves. -/
theorem fold_sum_eq (decimal : field.kind = .decimal) (given : present values ≠ []) :
    Aggregate.sum.fold field values = (do
      match (← (present values).foldlM (addDecimal field) FixedSum.zero).format? with
      | some text => return text
      | none => throw .divisionByZero) := by
  show Query.sum field (present values) = _
  rw [Query.sum, decimal, List.isEmpty_eq_false_iff.mpr given]
  rfl

/-- A sum of decimals succeeds when they can all be added and what comes of it can be printed. -/
theorem fold_sum_eq_ok_iff {text : String} (decimal : field.kind = .decimal)
    (given : present values ≠ []) :
    Aggregate.sum.fold field values = .ok text ↔
      ∃ s, (present values).foldlM (addDecimal field) FixedSum.zero = .ok s ∧
        s.format? = some text := by
  rw [fold_sum_eq decimal given, bind_eq_ok_iff]
  apply exists_congr
  intro s
  rw [and_congr_right_iff]
  intro _
  cases s.format? with
  | none => exact iff_of_false (fun h => nomatch h) fun h => nomatch h
  | some printed =>
      constructor
      · rintro ⟨⟩
        rfl
      · rintro ⟨⟩
        rfl

/-- Once the loop has ended well, the printing alone decides. -/
theorem fold_sum_of_completed (decimal : field.kind = .decimal) (given : present values ≠ [])
    (completed : (present values).foldlM (addDecimal field) FixedSum.zero = .ok s) :
    Aggregate.sum.fold field values = match s.format? with
      | some text => .ok text
      | none => .error .divisionByZero := by
  rw [fold_sum_eq decimal given, completed]
  rfl

/-- Where no value has more than 38 places, a sum that succeeds is the canonical text of the exact
    sum. -/
theorem canonical_of_fold_sum {text : String} (decimal : field.kind = .decimal)
    (given : present values ≠ []) (narrow : largestPlaces (decimals (present values)) ≤ 38)
    (h : Aggregate.sum.fold field values = .ok text) :
    Canonical text (exactSum (decimals (present values)))
      (largestPlaces (decimals (present values))) := by
  obtain ⟨s, completed, printed⟩ := (fold_sum_eq_ok_iff decimal given).mp h
  have summed := foldlM_addDecimal_summed completed
  rw [← summed.places_eq] at narrow
  have exact_text : s.printed = s.value :=
    (FixedSum.printed_eq_value_iff (by omega)).mpr (.inl narrow)
  rw [← summed.value_eq, ← summed.places_eq, ← exact_text]
  exact FixedSum.canonical_of_format? printed

/-- **The sum of decimals is exact.**  Where no value has more than 38 places, the sum succeeds if
    the absolute values add up to a count of units that the word holds; and a sum that succeeds is
    the canonical text of the exact sum at the largest number of places, is read as a decimal with
    these places, and is the same in every order of the values. -/
theorem sum_exact (decimal : field.kind = .decimal) (given : present values ≠ [])
    (read : ∀ v ∈ present values, ∃ d, Decimal.parse? v = some d ∧ d.places ≤ 38) :
    (absoluteSum (decimals (present values)) * 10 ^ largestPlaces (decimals (present values))
        ≤ 2 ^ 127 - 1 →
      ∃ text, Aggregate.sum.fold field values = .ok text) ∧
    (∀ text, Aggregate.sum.fold field values = .ok text →
      Canonical text (exactSum (decimals (present values)))
          (largestPlaces (decimals (present values))) ∧
        ∃ d, Decimal.parse? text = some d ∧
          d.places = largestPlaces (decimals (present values))) ∧
    ∀ others, others.Perm values → ∀ text text', Aggregate.sum.fold field values = .ok text →
      Aggregate.sum.fold field others = .ok text' → text' = text := by
  have narrow := largestPlaces_decimals_le read
  refine ⟨?_, ?_, ?_⟩
  · intro bounded
    have hbound : (2 : ℚ) ^ 127 - 1 < Word.bound := by norm_num [Word.bound]
    obtain ⟨s, completed⟩ : ∃ s, (present values).foldlM (addDecimal field) FixedSum.zero = .ok s :=
      exists_foldlM_addDecimal read (bounded.trans_lt hbound)
    cases printed : s.format? with
    | some text => exact ⟨text, (fold_sum_eq_ok_iff decimal given).mpr ⟨s, completed, printed⟩⟩
    | none =>
        have hplaces := FixedSum.format?_eq_none_iff.mp printed
        rw [(foldlM_addDecimal_summed completed).places_eq] at hplaces
        omega
  · intro text h
    have canonical := canonical_of_fold_sum decimal given narrow h
    obtain ⟨d, hread, hplaces, -⟩ := canonical.parse?
    exact ⟨canonical, d, hread, hplaces⟩
  · intro others perm text text' h h'
    -- the sum and its places are those of the same decimals in another order
    have hpresent : (present others).Perm (present values) := perm.filter _
    have hdecimals : (decimals (present others)).Perm (decimals (present values)) :=
      hpresent.filterMap _
    have given' : present others ≠ [] := fun e => given (List.nil_perm.mp (e ▸ hpresent))
    have canonical := canonical_of_fold_sum decimal given narrow h
    rw [← largestPlaces_perm hdecimals] at narrow canonical
    rw [← exactSum_perm hdecimals] at canonical
    exact (canonical_of_fold_sum decimal given' narrow h').text_unique canonical

/-- Revenues with different places, one of them blank. -/
def mixedRevenues : List String := ["90071992547409.92", "", "-.015", "7."]

/-- Their sum has three places and more digits than a double could have. -/
theorem sum_exact_mixedRevenues :
    absoluteSum (decimals (present mixedRevenues)) * 10 ^ 3 ≤ 2 ^ 127 - 1 ∧
      Aggregate.sum.fold ⟨"rev", .decimal, none⟩ mixedRevenues = .ok "90071992547416.905" ∧
      Canonical "90071992547416.905" (exactSum (decimals (present mixedRevenues))) 3 := by
  have hdecimals : decimals (present mixedRevenues)
      = [⟨false, 9007199254740992, 2⟩, ⟨true, 15, 3⟩, ⟨false, 7, 0⟩] := by decide +kernel
  have hplaces : largestPlaces (decimals (present mixedRevenues)) = 3 := by
    rw [hdecimals]
    rfl
  have bounded : absoluteSum (decimals (present mixedRevenues)) * 10 ^ 3 ≤ 2 ^ 127 - 1 := by
    rw [hdecimals]
    norm_num [absoluteSum, Decimal.abs_value]
  have read : ∀ v ∈ present mixedRevenues,
      ∃ d, Decimal.parse? v = some d ∧ d.places ≤ 38 := by
    have hpresent : present mixedRevenues = ["90071992547409.92", "-.015", "7."] := by decide
    rw [hpresent, List.forall_mem_cons, List.forall_mem_cons, List.forall_mem_singleton]
    exact ⟨⟨⟨false, 9007199254740992, 2⟩, by decide +kernel⟩, ⟨⟨true, 15, 3⟩, by decide +kernel⟩,
      ⟨⟨false, 7, 0⟩, by decide +kernel⟩⟩
  obtain ⟨succeeds, canonical, -⟩ :=
    @sum_exact mixedRevenues ⟨"rev", .decimal, none⟩ rfl (by decide) read
  rw [hplaces] at succeeds canonical
  obtain ⟨text, sum⟩ := succeeds bounded
  have hsum : Aggregate.sum.fold ⟨"rev", .decimal, none⟩ mixedRevenues
      = .ok "90071992547416.905" := by decide +kernel
  cases hsum.symm.trans sum
  exact ⟨bounded, hsum, (canonical _ hsum).1⟩

/-- **The text of a sum.**  A loop that ends well has the exact sum.  Its text divides by the exact
    power of ten only if no value has more than 38 places; it is the text of the sum then, and else
    only as long as the count of units is less than what the word has for the power.  From 128
    places on it has zero, and the printing fails. -/
theorem sum_printed (decimal : field.kind = .decimal) (given : present values ≠ [])
    (completed : (present values).foldlM (addDecimal field) FixedSum.zero = .ok s) :
    s.value = exactSum (decimals (present values)) ∧
    s.places = largestPlaces (decimals (present values)) ∧
    (Word.wrappedPower s.places = 10 ^ s.places ↔
      ∀ d ∈ decimals (present values), d.places ≤ 38) ∧
    ((∃ text, Aggregate.sum.fold field values = .ok text ∧ Canonical text s.value s.places) ↔
      s.places ≤ 38 ∨ s.total.natAbs < Word.wrappedPower s.places) ∧
    (Aggregate.sum.fold field values = .error .divisionByZero ↔ 128 ≤ s.places) := by
  have summed := foldlM_addDecimal_summed completed
  have hfold := fold_sum_of_completed decimal given completed
  refine ⟨summed.value_eq, summed.places_eq, ?_, ?_, ?_⟩
  · rw [Word.wrappedPower_eq_iff, summed.places_eq]
    exact largestPlaces_le_iff
  · rw [hfold]
    cases printed : s.format? with
    | none =>
        have hplaces := FixedSum.format?_eq_none_iff.mp printed
        refine iff_of_false (fun ⟨_, h, _⟩ => nomatch h) ?_
        rw [Word.wrappedPower_eq_zero_iff.mpr hplaces]
        omega
    | some text =>
        have hplaces : s.places < 128 := by
          by_contra beyond
          rw [FixedSum.format?_eq_none_iff.mpr (by omega)] at printed
          exact nomatch printed
        have canonical := FixedSum.canonical_of_format? printed
        rw [← FixedSum.printed_eq_value_iff hplaces]
        constructor
        · rintro ⟨_, ⟨⟩, h⟩
          exact canonical.value_unique h
        · intro h
          exact ⟨text, rfl, h ▸ canonical⟩
  · rw [hfold, ← FixedSum.format?_eq_none_iff]
    cases s.format? with
    | none => exact iff_of_true rfl rfl
    | some text => exact iff_of_false (fun h => nomatch h) fun h => nomatch h

/-- A text of zeros with some places. -/
def zeros (places : Nat) : String := "0." ++ String.ofList (List.replicate places '0')

/-- No revenue at first, and then a faint one that has 38 more places: each widening is one that
    the word has a power of ten for. -/
def faintRevenues : List String :=
  [zeros 10, "0.0000000001" ++ String.ofList (List.replicate 38 '0')]

/-- The loop ends well, and the text is not that of the sum. -/
theorem sum_printed_faintRevenues :
    faintRevenues.foldlM (addDecimal ⟨"rev", .decimal, none⟩) FixedSum.zero = .ok ⟨10 ^ 38, 48⟩ ∧
      ¬ ∃ text, Aggregate.sum.fold ⟨"rev", .decimal, none⟩ faintRevenues = .ok text ∧
        Canonical text (FixedSum.value ⟨10 ^ 38, 48⟩) 48 := by
  have hpresent : present faintRevenues = faintRevenues := by decide +kernel
  have completed : faintRevenues.foldlM (addDecimal ⟨"rev", .decimal, none⟩) FixedSum.zero
      = .ok ⟨10 ^ 38, 48⟩ := by decide +kernel
  obtain ⟨-, -, -, text_iff, -⟩ :=
    @sum_printed faintRevenues ⟨"rev", .decimal, none⟩ ⟨10 ^ 38, 48⟩ rfl (by decide +kernel)
      (hpresent.symm ▸ completed)
  exact ⟨completed, mt text_iff.mp (by decide +kernel)⟩

/-- Zeros with places behind the point are read as zero with these places. -/
theorem parse?_zeros {places : Nat} (h : 0 < places) :
    Decimal.parse? (zeros places) = some ⟨false, 0, places⟩ := by
  have hfraction : List.replicate places '0' ≠ [] := by
    intro e
    rw [List.replicate_eq_nil_iff] at e
    omega
  have htext : (zeros places).toList = pointed ['0'] (List.replicate places '0') := by
    rw [zeros, String.toList_append, String.toList_ofList, String.toList_ofList, pointed,
      if_neg hfraction]
    rfl
  have digits : ∀ c ∈ ['0'] ++ List.replicate places '0', c.isDigit = true := by
    intro c hc
    rcases List.mem_append.mp hc with hc | hc
    · rw [List.mem_singleton.mp hc]
      rfl
    · rw [List.eq_of_mem_replicate hc]
      rfl
  have hread := ofDigits?_pointed false digits (List.cons_ne_nil _ _)
  rw [Nat.ofDigitChars_append, Nat.ofDigitChars_replicate_zero, List.length_replicate] at hread
  rw [Decimal.parse?, htext]
  exact hread

/-- Zeros with up to 38 places more than a total of zero can be added to it. -/
theorem addDecimal_zeros {places wider : Nat} (h : places < wider) (step : wider ≤ places + 38) :
    addDecimal field ⟨0, places⟩ (zeros wider) = .ok ⟨0, wider⟩ := by
  have hwider : max places wider = wider := Nat.max_eq_right h.le
  rw [addDecimal_eq_ok_iff (parse?_zeros (Nat.zero_lt_of_lt h)), FixedSum.add?_eq_ok_iff]
  dsimp only
  rw [hwider]
  refine ⟨rfl, 0, 0, ?_, ?_, rfl, rfl⟩
  · exact Word.shift?_eq_some_iff.mpr ⟨by omega, rfl, Int.zero_mul _⟩
  · exact Word.shift?_eq_some_iff.mpr ⟨by omega, rfl, Int.zero_mul _⟩

/-- Zeros with more and more places, each at most 38 more than before. -/
def widenedZeros : List String := [zeros 38, zeros 76, zeros 114, zeros 128]

/-- Their sum is there, but it has more places than the word has powers of ten for, and is not
    printed. -/
theorem sum_not_printed :
    widenedZeros.foldlM (addDecimal ⟨"rev", .decimal, none⟩) FixedSum.zero = .ok ⟨0, 128⟩ ∧
      ¬ 10 ^ 128 < Word.count ∧
      Aggregate.sum.fold ⟨"rev", .decimal, none⟩ widenedZeros = .error .divisionByZero := by
  have hpresent : present widenedZeros = widenedZeros := by decide +kernel
  have step {places wider : Nat} (h : places < wider) (hstep : wider ≤ places + 38)
      (others : List String) :
      (zeros wider :: others).foldlM (addDecimal ⟨"rev", .decimal, none⟩) ⟨0, places⟩
        = others.foldlM (addDecimal ⟨"rev", .decimal, none⟩) ⟨0, wider⟩ := by
    rw [List.foldlM_cons, addDecimal_zeros h hstep]
    rfl
  have completed : widenedZeros.foldlM (addDecimal ⟨"rev", .decimal, none⟩) FixedSum.zero
      = .ok ⟨0, 128⟩ := by
    rw [widenedZeros, FixedSum.zero, step (by decide) (by decide), step (by decide) (by decide),
      step (by decide) (by decide), step (by decide) (by decide)]
    rfl
  refine ⟨completed, by decide, ?_⟩
  rw [fold_sum_of_completed rfl (hpresent ▸ List.cons_ne_nil _ _) (hpresent.symm ▸ completed),
    FixedSum.format?_eq_none_iff.mpr le_rfl]

end RecordStore.Query

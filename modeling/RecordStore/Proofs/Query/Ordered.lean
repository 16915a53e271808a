import RecordStore.Proofs.Schema
import RecordStore.Proofs.Text.Utf8
import RecordStore.Query.Run

/-! # The order of rows

    Rows are put into the one stable order of some fields, which is also the order that comes of
    putting them into the order of one field after the other. -/

namespace RecordStore.Query

open Text

/-! ## Ordered rows

    Rows are ordered by the values of some fields, the first of them dominating, and rows with the
    same values keep their order.  That leaves nothing open: there is one such list, so a list that
    is ordered and in which nothing was exchanged among equals is the one that `orderRows` gives.
    The route:

    * `StablySorted`: what it is for rows to be in the stable order of some fields;
    * `eq_of_ordered`, `StablySorted.unique`: there is one such list;
    * `StablySorted.filter`: dropping rows keeps the order;
    * `orderRows_stablySorted`: known fields order every list of rows;
    * `stablySorted_iff`: for two given lists it can be computed whether one is the stable order of
      the other. -/

section Ordered

/-! ### The stable order -/

/-- Whether values do not come after others: the first that differ decide. -/
def NotAfter : List String → List String → Prop
  | [], _ => True
  | _ :: _, [] => False
  | a :: as, b :: bs => a < b ∨ a = b ∧ NotAfter as bs

/-- The values by which a row is ordered, the dominating one first. -/
def sortKey (fields : List String) (r : Record) : List String := fields.map r.valueOf

/-- The rows of a list in the stable order of some fields: they are the same rows, their values
    ascend, and those with the same values stand as they stood. -/
structure StablySorted (fields : List String) (rows sorted : List Record) : Prop where
  perm : sorted.Perm rows
  ascending : sorted.Pairwise fun a b => NotAfter (sortKey fields a) (sortKey fields b)
  stable : ∀ values, sorted.filter (sortKey fields · = values)
    = rows.filter (sortKey fields · = values)

variable {fields : List String} {rows sorted : List Record}

namespace NotAfter

/-- Not being after another list of texts is the lexicographic order of the standard library. -/
private theorem iff_le {as bs : List String} :
    NotAfter as bs ↔ @LE.le (List String) List.instLE as bs := by
  induction as generalizing bs with
  | nil => exact iff_of_true trivial (List.nil_le bs)
  | cons a as ih =>
      cases bs with
      | nil => exact iff_of_false id fun h => nomatch List.le_nil.mp h
      | cons b bs => rw [NotAfter, List.cons_le_cons_iff, ih]

theorem refl (as : List String) : NotAfter as as := iff_le.mpr (List.le_refl as)

theorem trans {as bs cs : List String} (h : NotAfter as bs) (h' : NotAfter bs cs) :
    NotAfter as cs :=
  iff_le.mpr (List.le_trans (iff_le.mp h) (iff_le.mp h'))

theorem antisymm {as bs : List String} (h : NotAfter as bs) (h' : NotAfter bs as) : as = bs :=
  List.le_antisymm (iff_le.mp h) (iff_le.mp h')

theorem total (as bs : List String) : NotAfter as bs ∨ NotAfter bs as :=
  (List.le_total as bs).imp iff_le.mpr iff_le.mpr

end NotAfter

/-- Lists that ascend are the same when they agree on the elements of each value. -/
theorem eq_of_ordered {l₁ l₂ : List Record}
    (asc₁ : l₁.Pairwise fun a b => NotAfter (sortKey fields a) (sortKey fields b))
    (asc₂ : l₂.Pairwise fun a b => NotAfter (sortKey fields a) (sortKey fields b))
    (same : ∀ values, l₁.filter (sortKey fields · = values)
      = l₂.filter (sortKey fields · = values)) : l₁ = l₂ := by
  have mem_of_mem {l l' : List Record} (h : ∀ values, l.filter (sortKey fields · = values)
      = l'.filter (sortKey fields · = values)) {a : Record} (ha : a ∈ l) : a ∈ l' := by
    have hmem : a ∈ l.filter (sortKey fields · = sortKey fields a) :=
      List.mem_filter.mpr ⟨ha, by simp⟩
    rw [h] at hmem
    exact (List.mem_filter.mp hmem).1
  induction l₁ generalizing l₂ with
  | nil =>
      cases l₂ with
      | nil => rfl
      | cons b l₂ => exact nomatch mem_of_mem (fun v => (same v).symm) List.mem_cons_self
  | cons a l₁ ih =>
      cases l₂ with
      | nil => exact nomatch mem_of_mem same List.mem_cons_self
      | cons b l₂ =>
          obtain ⟨hmin₁, hrest₁⟩ := List.pairwise_cons.mp asc₁
          obtain ⟨hmin₂, hrest₂⟩ := List.pairwise_cons.mp asc₂
          -- both heads have the least values, hence the same, and so they are the same row
          have hab : NotAfter (sortKey fields a) (sortKey fields b) := by
            rcases List.mem_cons.mp (mem_of_mem (fun v => (same v).symm) List.mem_cons_self) with
              h | h
            · rw [h]
              exact .refl _
            · exact hmin₁ b h
          have hba : NotAfter (sortKey fields b) (sortKey fields a) := by
            rcases List.mem_cons.mp (mem_of_mem same List.mem_cons_self) with h | h
            · rw [h]
              exact .refl _
            · exact hmin₂ a h
          have hkey : sortKey fields a = sortKey fields b := hab.antisymm hba
          have hheads := same (sortKey fields b)
          rw [List.filter_cons_of_pos (by simpa using hkey),
            List.filter_cons_of_pos (by simp)] at hheads
          obtain rfl : a = b := (List.cons.inj hheads).1
          have hrest : l₁ = l₂ := by
            refine ih hrest₁ hrest₂ fun values => ?_
            have hv := same values
            by_cases h : sortKey fields a = values
            · rw [List.filter_cons_of_pos (by simpa using h),
                List.filter_cons_of_pos (by simpa using h)] at hv
              exact (List.cons.inj hv).2
            · rwa [List.filter_cons_of_neg (by simpa using h),
                List.filter_cons_of_neg (by simpa using h)] at hv
          rw [hrest]

namespace StablySorted

/-- There is one stable order. -/
theorem unique {sorted' : List Record} (h : StablySorted fields rows sorted)
    (h' : StablySorted fields rows sorted') : sorted = sorted' :=
  eq_of_ordered h.ascending h'.ascending fun values =>
    (h.stable values).trans (h'.stable values).symm

/-- Dropping rows from the ordered list is ordering the list without them. -/
theorem filter (h : StablySorted fields rows sorted) (p : Record → Bool) :
    StablySorted fields (rows.filter p) (sorted.filter p) where
  perm := h.perm.filter p
  ascending := h.ascending.filter p
  stable values := by
    simpa only [List.filter_filter, Bool.and_comm] using congrArg (List.filter p) (h.stable values)

end StablySorted

/-! ### Sorting -/

/-- The order of texts, as it decides how two tuples of values compare. -/
private theorem notAfter_cons_iff_compare {a b : String} {as bs : List String} :
    NotAfter (a :: as) (b :: bs) ↔ (match compare a b with
      | .lt => True
      | .gt => False
      | .eq => NotAfter as bs) := by
  show _ ↔ (match compareOfLessAndEq a b with
    | .lt => True
    | .gt => False
    | .eq => NotAfter as bs)
  rw [NotAfter, compareOfLessAndEq]
  by_cases hlt : a < b
  · rw [if_pos hlt]
    exact iff_of_true (.inl hlt) trivial
  by_cases heq : a = b
  · rw [if_neg hlt, if_pos heq]
    exact ⟨fun h => (h.resolve_left hlt).2, fun h => .inr ⟨heq, h⟩⟩
  · rw [if_neg hlt, if_neg heq]
    exact iff_of_false (fun h => h.elim hlt fun h => heq h.1) id

/-- A row may stand before another when its values are not greater. -/
theorem precedes_iff {positions : List Nat} {a b : Record} :
    precedes positions a b = true ↔
      NotAfter (positions.map a.value) (positions.map b.value) := by
  induction positions with
  | nil => exact iff_of_true rfl trivial
  | cons i positions ih =>
      rw [List.map_cons, List.map_cons, notAfter_cons_iff_compare, precedes]
      cases compare (a.value i) (b.value i) with
      | lt => exact iff_of_true rfl trivial
      | gt => exact iff_of_false Bool.noConfusion id
      | eq => exact ih

/-- The comparison of rows is transitive, as sorting asks for. -/
theorem precedes_trans (positions : List Nat) (a b c : Record)
    (hab : precedes positions a b = true) (hbc : precedes positions b c = true) :
    precedes positions a c = true :=
  precedes_iff.mpr ((precedes_iff.mp hab).trans (precedes_iff.mp hbc))

/-- Of two rows one may stand before the other. -/
theorem precedes_total (positions : List Nat) (a b : Record) :
    (precedes positions a b || precedes positions b a) = true := by
  rw [Bool.or_eq_true, precedes_iff, precedes_iff]
  exact NotAfter.total _ _

/-- Rows with the same values stay as they stood when they are sorted. -/
private theorem filter_mergeSort (positions : List Nat) (rows : List Record)
    (values : List String) :
    (rows.mergeSort (precedes positions)).filter (positions.map ·.value = values)
      = rows.filter (positions.map ·.value = values) := by
  have hperm := (List.mergeSort_perm rows (precedes positions)).filter
    (positions.map ·.value = values)
  -- among rows of the same values each may stand before each, so they are a sublist in order
  have hasc : (rows.filter (positions.map ·.value = values)).Pairwise
      fun a b => precedes positions a b = true := by
    refine List.pairwise_of_forall_mem_list fun a ha b hb => ?_
    have hka : positions.map a.value = values := by simpa using (List.mem_filter.mp ha).2
    have hkb : positions.map b.value = values := by simpa using (List.mem_filter.mp hb).2
    rw [precedes_iff, hka, hkb]
    exact .refl _
  have hsub := (List.sublist_mergeSort (precedes_trans positions) (precedes_total positions) hasc
    List.filter_sublist).filter (positions.map ·.value = values)
  simp only [List.filter_filter, Bool.and_self] at hsub
  exact (hsub.eq_of_length hperm.length_eq.symm).symm

/-- Known fields have positions, and the values of a row at these are its values in the fields. -/
theorem exists_positions {schema : Schema} (known : ∀ name ∈ fields, name ∈ schema.names) :
    ∃ positions, fields.mapM schema.position = .ok positions ∧
      ∀ r : Record, r.schema = schema → positions.map r.value = sortKey fields r := by
  induction fields with
  | nil => exact ⟨[], rfl, fun _ _ => rfl⟩
  | cons name fields ih =>
      obtain ⟨hname, hfields⟩ := List.forall_mem_cons.mp known
      obtain ⟨i, hi⟩ := Schema.position_of_mem hname
      obtain ⟨positions, hpositions, hvalues⟩ := ih hfields
      refine ⟨i :: positions, by rw [List.mapM_cons, hi, hpositions]; rfl, ?_⟩
      rintro r rfl
      have hvalue : r.valueOf name = r.value i := by
        rw [Record.valueOf, Schema.position_eq_ok_iff.mp hi]
      rw [List.map_cons, hvalues r rfl, sortKey, sortKey, List.map_cons, hvalue]

/-- Known fields order every list of rows. -/
theorem orderRows_stablySorted {schema : Schema}
    (known : ∀ name ∈ fields, name ∈ schema.names) (follow : ∀ r ∈ rows, r.schema = schema) :
    ∃ sorted, orderRows schema fields rows = .ok sorted ∧ StablySorted fields rows sorted := by
  obtain ⟨positions, hpositions, hvalues⟩ := exists_positions known
  have hperm := List.mergeSort_perm rows (precedes positions)
  have hkey {r : Record} (hr : r ∈ rows) : positions.map r.value = sortKey fields r :=
    hvalues r (follow r hr)
  refine ⟨rows.mergeSort (precedes positions), by rw [orderRows, hpositions]; rfl, hperm, ?_, ?_⟩
  · have hsorted := List.pairwise_mergeSort (precedes_trans positions) (precedes_total positions)
      rows
    refine hsorted.imp_of_mem fun {a b} ha hb hab => ?_
    rw [← hkey (hperm.mem_iff.mp ha), ← hkey (hperm.mem_iff.mp hb)]
    exact precedes_iff.mp hab
  · intro values
    have same {l : List Record} (hl : ∀ r ∈ l, r ∈ rows) :
        l.filter (positions.map ·.value = values) = l.filter (sortKey fields · = values) :=
      List.filter_congr fun r hr => by rw [hkey (hl r hr)]
    rw [← same fun r hr => hperm.mem_iff.mp hr, ← same fun r hr => hr]
    exact filter_mergeSort positions rows values

/-- A list that is in the stable order is the one that ordering gives. -/
theorem orderRows_eq_ok {schema : Schema} (known : ∀ name ∈ fields, name ∈ schema.names)
    (follow : ∀ r ∈ rows, r.schema = schema) (h : StablySorted fields rows sorted) :
    orderRows schema fields rows = .ok sorted := by
  obtain ⟨sorted', hsorted, h'⟩ := orderRows_stablySorted known follow
  rw [hsorted, h'.unique h]

/-! ### Whether rows are in the stable order -/

instance decidableNotAfter : (as bs : List String) → Decidable (NotAfter as bs)
  | [], _ => isTrue trivial
  | _ :: _, [] => isFalse id
  | _ :: as, _ :: bs =>
    have := decidableNotAfter as bs
    inferInstanceAs (Decidable (_ ∨ _ ∧ _))

/-- Nothing was exchanged among equals if that is so for the values that there are. -/
theorem stablySorted_iff : StablySorted fields rows sorted ↔ sorted.Perm rows ∧
    (sorted.Pairwise fun a b => NotAfter (sortKey fields a) (sortKey fields b)) ∧
    ∀ r ∈ rows, sorted.filter (sortKey fields · = sortKey fields r)
      = rows.filter (sortKey fields · = sortKey fields r) := by
  constructor
  · exact fun h => ⟨h.perm, h.ascending, fun r _ => h.stable _⟩
  · rintro ⟨perm, ascending, stable⟩
    refine ⟨perm, ascending, fun values => ?_⟩
    by_cases there : ∃ r ∈ rows, sortKey fields r = values
    · obtain ⟨r, hr, rfl⟩ := there
      exact stable r hr
    · have none (l : List Record) (h : ∀ r ∈ l, r ∈ rows) :
          l.filter (sortKey fields · = values) = [] :=
        List.filter_eq_nil_iff.mpr fun r hr => by simpa using fun e => there ⟨r, h r hr, e⟩
      rw [none sorted fun r hr => perm.mem_iff.mp hr, none rows fun _ hr => hr]

instance : Decidable (StablySorted fields rows sorted) := decidable_of_iff' _ stablySorted_iff

end Ordered

/-! ## One field after the other

    Ordering by several fields compares two rows field by field, up to the first in which they
    differ.  The same order comes about when the rows are ordered by the last field alone, then by
    the one before it, and so on up to the first.  The heart is stability: ordering by one more
    field does not move rows with the same value in it against each other, so among these the order
    of the fields behind it is still there.  The route:

    * `byteKey`, `notAfter_iff_byteKey`: the values of a row are compared as their bytes;
    * `ascending_cons`, `StablySorted.cons`: what ordering by one more field makes of rows that are
      in the stable order of the fields behind it;
    * `foldrM_orderRows`: so it is with every number of fields;
    * `ordered_by_several`: since there is one stable order, both ways lead to the same rows. -/

section Successive

variable {schema : Schema} {field : String} {fields : List String}
  {rows sorted sorted' : List Record}

/-! ### Values and their bytes -/

/-- The values by which a row is ordered, each as its bytes, the dominating one first. -/
def byteKey (fields : List String) (r : Record) : List Bytes := (sortKey fields r).map encode

private theorem encode_inj {v w : String} (h : encode v = encode w) : v = w := by
  have hdecode := decode_encode v
  rw [h, decode_encode] at hdecode
  exact (Except.ok.inj hdecode).symm

/-- Lists of values are compared as the lists of their bytes. -/
private theorem notAfter_iff_map_encode {as bs : List String} :
    NotAfter as bs ↔ as.map encode ≤ bs.map encode := by
  induction as generalizing bs with
  | nil => exact iff_of_true trivial (List.nil_le _)
  | cons a as ih =>
      cases bs with
      | nil => exact iff_of_false id fun h => nomatch List.le_nil.mp h
      | cons b bs =>
          rw [NotAfter, List.map_cons, List.map_cons, List.cons_le_cons_iff, encode_lt_encode_iff,
            ih]
          exact or_congr_right (and_congr_left' ⟨congrArg encode, encode_inj⟩)

/-- The values of two rows compare as their bytes do, the first that differ deciding. -/
theorem notAfter_iff_byteKey {a b : Record} :
    NotAfter (sortKey fields a) (sortKey fields b) ↔ byteKey fields a ≤ byteKey fields b :=
  notAfter_iff_map_encode

/-! ### One more field -/

/-- Rows that ascend by a field, and by other fields among those with the same value in it, ascend
    by all of these fields. -/
private theorem ascending_cons
    (first : rows.Pairwise fun a b => NotAfter (sortKey [field] a) (sortKey [field] b))
    (others : ∀ value, (rows.filter (sortKey [field] · = value)).Pairwise
      fun a b => NotAfter (sortKey fields a) (sortKey fields b)) :
    rows.Pairwise fun a b =>
      NotAfter (sortKey (field :: fields) a) (sortKey (field :: fields) b) := by
  induction rows with
  | nil => exact .nil
  | cons row rows ih =>
      obtain ⟨hrow, hrows⟩ := List.pairwise_cons.mp first
      refine .cons (fun b hb => ?_) (ih hrows fun value => ?_)
      · rcases hrow b hb with less | ⟨same, -⟩
        · exact .inl less
        · -- both rows are among those with this value, and the first of them stands in front
          have hvalue := others (sortKey [field] row)
          rw [List.filter_cons_of_pos (by simp)] at hvalue
          refine .inr ⟨same, (List.pairwise_cons.mp hvalue).1 b (List.mem_filter.mpr ⟨hb, ?_⟩)⟩
          simpa [sortKey] using same.symm
      · exact (others value).sublist ((List.sublist_cons_self row rows).filter _)

/-- Rows in the stable order of some fields that are ordered by one more field are in the stable
    order of all of them, the new one dominating. -/
theorem StablySorted.cons (h : StablySorted fields rows sorted)
    (h' : StablySorted [field] sorted sorted') : StablySorted (field :: fields) rows sorted' where
  perm := h'.perm.trans h.perm
  ascending := by
    refine ascending_cons h'.ascending fun value => ?_
    rw [h'.stable]
    exact h.ascending.filter _
  stable values := by
    cases values with
    | nil => rw [List.filter_eq_nil_iff.mpr, List.filter_eq_nil_iff.mpr] <;> simp [sortKey]
    | cons v vs =>
        -- the rows with these values are, of those with the others, the ones with the first
        have both (l : List Record) : l.filter (sortKey (field :: fields) · = v :: vs)
            = (l.filter (sortKey [field] · = [v])).filter (sortKey fields · = vs) := by
          rw [List.filter_filter]
          refine List.filter_congr fun r _ => ?_
          rw [Bool.eq_iff_iff, Bool.and_eq_true, decide_eq_true_iff, decide_eq_true_iff,
            decide_eq_true_iff, and_comm]
          simp only [sortKey, List.map_cons, List.map_nil, List.cons.injEq, and_true]
        have swap (l : List Record) :
            (l.filter (sortKey [field] · = [v])).filter (sortKey fields · = vs)
              = (l.filter (sortKey fields · = vs)).filter (sortKey [field] · = [v]) := by
          rw [List.filter_filter, List.filter_filter]
          exact List.filter_congr fun r _ => Bool.and_comm _ _
        calc sorted'.filter (sortKey (field :: fields) · = v :: vs)
          _ = (sorted'.filter (sortKey [field] · = [v])).filter (sortKey fields · = vs) := both _
          _ = (sorted.filter (sortKey [field] · = [v])).filter (sortKey fields · = vs) := by
              rw [h'.stable]
          _ = (sorted.filter (sortKey fields · = vs)).filter (sortKey [field] · = [v]) := swap _
          _ = (rows.filter (sortKey fields · = vs)).filter (sortKey [field] · = [v]) := by
              rw [h.stable]
          _ = rows.filter (sortKey (field :: fields) · = v :: vs) := by rw [← swap, ← both]

/-- Rows that are ordered by one known field after the other, from the last to the first, come into
    the stable order of all of them. -/
theorem foldrM_orderRows (known : ∀ name ∈ fields, name ∈ schema.names)
    (follow : ∀ r ∈ rows, r.schema = schema) :
    ∃ sorted, fields.foldrM (fun field rows => orderRows schema [field] rows) rows = .ok sorted ∧
      StablySorted fields rows sorted := by
  induction fields with
  | nil => exact ⟨rows, rfl, .refl rows, List.pairwise_of_forall fun _ _ => trivial, fun _ => rfl⟩
  | cons field fields ih =>
      obtain ⟨hfield, hfields⟩ := List.forall_mem_cons.mp known
      obtain ⟨sorted, hsorted, stable⟩ := ih hfields
      obtain ⟨sorted', hsorted', stable'⟩ :=
        orderRows_stablySorted (List.forall_mem_singleton.mpr hfield) fun r hr =>
          follow r (stable.perm.mem_iff.mp hr)
      refine ⟨sorted', ?_, stable.cons stable'⟩
      rw [List.foldrM_cons, hsorted]
      exact hsorted'

/-- **Ordering by several fields is ordering by one after the other, the last first.**  Known
    fields, some of them perhaps more than once, order every list of rows: the same rows, their
    values ascending by their bytes and the first field dominating, and rows with the same values
    as they stood.  There is one such list, and it comes about as well when the rows are ordered by
    the last field alone, then by the one before it, and so on up to the first. -/
theorem ordered_by_several (known : ∀ name ∈ fields, name ∈ schema.names)
    (follow : ∀ r ∈ rows, r.schema = schema) :
    ∃ sorted, orderRows schema fields rows = .ok sorted ∧
      sorted.Perm rows ∧
      (sorted.Pairwise fun a b => byteKey fields a ≤ byteKey fields b) ∧
      (∀ values, sorted.filter (sortKey fields · = values)
        = rows.filter (sortKey fields · = values)) ∧
      (∀ other, StablySorted fields rows other → other = sorted) ∧
      fields.foldrM (fun field rows => orderRows schema [field] rows) rows = .ok sorted := by
  obtain ⟨sorted, hsorted, stable⟩ := orderRows_stablySorted known follow
  obtain ⟨successive, hsuccessive, stable'⟩ := foldrM_orderRows known follow
  obtain rfl : successive = sorted := stable'.unique stable
  exact ⟨successive, hsorted, stable.perm, stable.ascending.imp notAfter_iff_byteKey.mp,
    stable.stable, fun _ h => h.unique stable, hsuccessive⟩

/-- Views of two providers, of which some have the same title. -/
def providerViews : List Record :=
  [.parse .mediaViews "b1|up|pixar", .parse .mediaViews "b2|été|gaumont",
    .parse .mediaViews "b3|cars|pixar", .parse .mediaViews "b4|up|gaumont",
    .parse .mediaViews "b5|cars|pixar"]

/-- The views by provider and title. -/
def orderedProviderViews : List Record :=
  [.parse .mediaViews "b4|up|gaumont", .parse .mediaViews "b2|été|gaumont",
    .parse .mediaViews "b3|cars|pixar", .parse .mediaViews "b5|cars|pixar",
    .parse .mediaViews "b1|up|pixar"]

/-- Both ways lead to the same views, though a field is named twice. -/
theorem ordered_by_several_providerViews :
    orderRows .mediaViews ["provider", "title", "provider"] providerViews
        = .ok orderedProviderViews ∧
      ["provider", "title", "provider"].foldrM (fun field rows =>
        orderRows .mediaViews [field] rows) providerViews = .ok orderedProviderViews := by
  obtain ⟨sorted, direct, -, -, -, only, successive⟩ :=
    @ordered_by_several .mediaViews ["provider", "title", "provider"] providerViews (by decide)
      (by decide +kernel)
  obtain rfl : orderedProviderViews = sorted := only _ (by decide +kernel)
  exact ⟨direct, successive⟩

end Successive

end RecordStore.Query

import RecordStore.Text.Bytes

/-! # Texts and their bytes

    The bytes of a text are read as the text again, and they are ordered as the text is. -/

namespace RecordStore.Text

/-! ## Encoded texts are read back

    `decode` undoes `encode`, and bytes that spell a text can be read a part at a time.  The
    route:

    * three equations for `decodeFrom`, one for each place a byte can have in a character: it
      leads one, it leaves more owed, it completes one;
    * what the lead byte of two, three and four bytes begins (`begin?_two` and so on), with the
      narrowed range of the byte after it;
    * `decodeFrom_encodeChar`: the bytes of one character, whatever follows them;
    * `decode_encode`, by induction on the characters, and `decode_append_encode`. -/

/-! ### One byte of a character -/

/-- A byte that leads a character begins one. -/
private theorem decodeFrom_lead {b : UInt8} {p : Begun} (hb : ¬ b.toNat < 0x80)
    (hp : begin? b = some p) (i : Nat) (rest : Bytes) :
    decodeFrom i none (b :: rest) = decodeFrom (i + 1) (some p) rest := by
  rw [decodeFrom, if_neg hb, hp]

/-- A byte after which more are owed goes on with the character. -/
private theorem decodeFrom_more {b : UInt8} {p : Begun} (hb : p.accepts b)
    (ho : p.owed - 1 ≠ 0) (i : Nat) (rest : Bytes) :
    decodeFrom i (some p) (b :: rest) = decodeFrom (i + 1) (some (p.push b)) rest := by
  rw [decodeFrom, if_pos hb]
  exact if_neg ho

/-- A byte after which none is owed completes the character. -/
private theorem decodeFrom_last {b : UInt8} {p : Begun} (hb : p.accepts b)
    (ho : p.owed - 1 = 0) (i : Nat) (rest : Bytes) :
    decodeFrom i (some p) (b :: rest)
      = (decodeFrom (i + 1) none rest).map (Char.ofNat (p.push b).code :: ·) := by
  rw [decodeFrom, if_pos hb]
  exact if_pos ho

private theorem toNat_byte {n : Nat} (h : n < 256) : (UInt8.ofNat n).toNat = n :=
  UInt8.toNat_ofNat_of_lt' h

/-- Six bits of a code make a byte that may come next, within the range for it. -/
private theorem accepts_tail {code seen owed low high n : Nat} (hn : n < 64)
    (hl : low ≤ 0x80 + n) (hh : 0x80 + n ≤ high) :
    (Begun.mk code seen owed low high).accepts (UInt8.ofNat (0x80 + n)) := by
  have hb : (UInt8.ofNat (0x80 + n)).toNat = 0x80 + n := toNat_byte (by omega)
  simp only [Begun.accepts, hb, Bool.and_eq_true, decide_eq_true_eq]
  exact ⟨hl, hh⟩

private theorem push_tail {n : Nat} (hn : n < 64) (code seen owed low high : Nat) :
    (Begun.mk code seen owed low high).push (UInt8.ofNat (0x80 + n))
      = ⟨code * 64 + n, seen + 1, owed - 1, 0x80, 0xBF⟩ := by
  have hs : (UInt8.ofNat (0x80 + n)).toNat - 0x80 = n := by
    rw [toNat_byte (by omega)]
    omega
  show Begun.mk (code * 64 + ((UInt8.ofNat (0x80 + n)).toNat - 0x80)) _ _ _ _ = _
  rw [hs]

/-! ### The byte that leads a character

    The first byte after the lead has a narrowed range in four cases.  For the bytes of a
    character it is met: no character is a surrogate, has an overlong form or lies beyond the
    last code. -/

private theorem begin?_two {n : Nat} (hl : 0x80 ≤ n) (hh : n < 0x800) :
    begin? (UInt8.ofNat (0xC0 + n / 64)) = some ⟨n / 64, 1, 1, 0x80, 0xBF⟩ := by
  have hb : (UInt8.ofNat (0xC0 + n / 64)).toNat = 0xC0 + n / 64 := toNat_byte (by omega)
  have hlead : 0xC2 ≤ 0xC0 + n / 64 ∧ 0xC0 + n / 64 ≤ 0xDF := by omega
  rw [begin?, hb]
  simp only [hlead, and_self, if_true, Nat.add_sub_cancel_left]

/-- What the lead byte of three begins.  The range of the byte after it keeps out overlong forms and
    surrogates, of which the character is neither. -/
private theorem begin?_three {n : Nat} (hl : 0x800 ≤ n) (hh : n < 0x10000)
    (hv : n < 0xD800 ∨ 0xDFFF < n) :
    ∃ low high, begin? (UInt8.ofNat (0xE0 + n / 4096)) = some ⟨n / 4096, 1, 2, low, high⟩ ∧
      low ≤ 0x80 + n / 64 % 64 ∧ 0x80 + n / 64 % 64 ≤ high := by
  have hb : (UInt8.ofNat (0xE0 + n / 4096)).toNat = 0xE0 + n / 4096 := toNat_byte (by omega)
  rw [begin?, hb]
  rw [if_neg (by omega)]
  by_cases h0 : n / 4096 = 0
  · exact ⟨0xA0, 0xBF, by simp [h0], by omega, by omega⟩
  rw [if_neg (by omega)]
  by_cases h13 : n / 4096 = 13
  · exact ⟨0x80, 0x9F, by simp [h13], by omega, by omega⟩
  rw [if_neg (by omega), if_pos (by omega), Nat.add_sub_cancel_left]
  exact ⟨0x80, 0xBF, rfl, by omega, by omega⟩

/-- What the lead byte of four begins, with the range that keeps the code within bounds. -/
private theorem begin?_four {n : Nat} (hl : 0x10000 ≤ n) (hh : n < 0x110000) :
    ∃ low high, begin? (UInt8.ofNat (0xF0 + n / 262144)) = some ⟨n / 262144, 1, 3, low, high⟩ ∧
      low ≤ 0x80 + n / 4096 % 64 ∧ 0x80 + n / 4096 % 64 ≤ high := by
  have hb : (UInt8.ofNat (0xF0 + n / 262144)).toNat = 0xF0 + n / 262144 :=
    toNat_byte (by omega)
  rw [begin?, hb]
  rw [if_neg (by omega), if_neg (by omega), if_neg (by omega), if_neg (by omega)]
  by_cases h0 : n / 262144 = 0
  · exact ⟨0x90, 0xBF, by simp [h0], by omega, by omega⟩
  rw [if_neg (by omega)]
  by_cases h4 : n / 262144 = 4
  · exact ⟨0x80, 0x8F, by simp [h4], by omega, by omega⟩
  rw [if_neg (by omega), if_pos (by omega), Nat.add_sub_cancel_left]
  exact ⟨0x80, 0xBF, rfl, by omega, by omega⟩

/-! ### Characters and texts -/

/-- The bytes of a character are read as that character. -/
theorem decodeFrom_encodeChar (c : Char) (i : Nat) (rest : Bytes) :
    decodeFrom i none (encodeChar c ++ rest)
      = (decodeFrom (i + (encodeChar c).length) none rest).map (c :: ·) := by
  have hv : c.toNat < 0xD800 ∨ 0xDFFF < c.toNat ∧ c.toNat < 0x110000 := c.valid
  have hc : Char.ofNat c.toNat = c := Char.ofNat_toNat c
  generalize hn : c.toNat = n at hv hc
  unfold encodeChar
  rw [hn]
  by_cases h1 : n < 0x80
  · have hb : (UInt8.ofNat n).toNat = n := toNat_byte (by omega)
    simp only [h1, if_true, List.cons_append, List.nil_append, decodeFrom, hb, hc,
      List.length_singleton]
  by_cases h2 : n < 0x800
  · have hlead : (UInt8.ofNat (0xC0 + n / 64)).toNat = 0xC0 + n / 64 := toNat_byte (by omega)
    simp only [h1, h2, if_true, if_false, List.cons_append, List.nil_append]
    rw [decodeFrom_lead (by omega) (begin?_two (by omega) h2),
      decodeFrom_last (accepts_tail (by omega) (by omega) (by omega)) rfl,
      push_tail (by omega)]
    have hcode : n / 64 * 64 + n % 64 = n := by omega
    rw [hcode, hc]
    rfl
  by_cases h3 : n < 0x10000
  · obtain ⟨low, high, hp, hlow, hhigh⟩ := begin?_three (by omega) h3 (by omega)
    have hlead : (UInt8.ofNat (0xE0 + n / 4096)).toNat = 0xE0 + n / 4096 :=
      toNat_byte (by omega)
    simp only [h1, h2, h3, if_true, if_false, List.cons_append, List.nil_append]
    rw [decodeFrom_lead (by omega) hp,
      decodeFrom_more (accepts_tail (by omega) hlow hhigh) (by decide : 2 - 1 ≠ 0),
      push_tail (by omega),
      decodeFrom_last (accepts_tail (by omega) (by omega) (by omega)) rfl,
      push_tail (by omega)]
    have hcode : (n / 4096 * 64 + n / 64 % 64) * 64 + n % 64 = n := by omega
    rw [hcode, hc]
    rfl
  · obtain ⟨low, high, hp, hlow, hhigh⟩ := begin?_four (n := n) (by omega) (by omega)
    have hlead : (UInt8.ofNat (0xF0 + n / 262144)).toNat = 0xF0 + n / 262144 :=
      toNat_byte (by omega)
    simp only [h1, h2, h3, if_false, List.cons_append, List.nil_append]
    rw [decodeFrom_lead (by omega) hp,
      decodeFrom_more (accepts_tail (by omega) hlow hhigh) (by decide : 3 - 1 ≠ 0),
      push_tail (by omega),
      decodeFrom_more (accepts_tail (by omega) (by omega) (by omega)) (by decide : 3 - 1 - 1 ≠ 0),
      push_tail (by omega),
      decodeFrom_last (accepts_tail (by omega) (by omega) (by omega)) rfl,
      push_tail (by omega)]
    have hcode : ((n / 262144 * 64 + n / 4096 % 64) * 64 + n / 64 % 64) * 64 + n % 64 = n := by
      omega
    rw [hcode, hc]
    rfl

/-- The bytes of characters are read as the characters, by induction on them. -/
private theorem decodeFrom_encode (cs : List Char) (i : Nat) :
    decodeFrom i none (cs.flatMap encodeChar) = .ok cs := by
  induction cs generalizing i with
  | nil => rfl
  | cons c cs ih =>
      rw [List.flatMap_cons, decodeFrom_encodeChar, ih]
      rfl

/-- A text is read back from its bytes. -/
@[simp] theorem decode_encode (s : String) : decode (encode s) = .ok s := by
  rw [decode, encode, decodeFrom_encode]
  exact congrArg Except.ok String.ofList_toList

/-! ### Line feeds among the bytes

    Every byte below `0x80` is a whole character, so a text without a line feed has none among
    its bytes. -/

/-- A byte below 128 is a character by itself. -/
private theorem eq_of_mem_encodeChar {c : Char} {b : UInt8} (h : b ∈ encodeChar c)
    (hb : b.toNat < 0x80) : c.toNat = b.toNat := by
  have hv : c.toNat < 0xD800 ∨ 0xDFFF < c.toNat ∧ c.toNat < 0x110000 := c.valid
  have high {n : Nat} (hn : 0x80 ≤ n) (hn' : n < 256) (e : b = UInt8.ofNat n) : False := by
    rw [e, toNat_byte hn'] at hb
    omega
  unfold encodeChar at h
  generalize c.toNat = n at h hv
  by_cases h1 : n < 0x80
  · simp only [h1, if_true, List.mem_singleton] at h
    rw [h, toNat_byte (by omega)]
  by_cases h2 : n < 0x800
  · simp only [h1, h2, if_true, if_false, List.mem_cons, List.not_mem_nil, or_false] at h
    rcases h with e | e
    · exact (high (by omega) (by omega) e).elim
    · exact (high (by omega) (by omega) e).elim
  by_cases h3 : n < 0x10000
  · simp only [h1, h2, h3, if_true, if_false, List.mem_cons, List.not_mem_nil, or_false] at h
    rcases h with e | e | e
    · exact (high (by omega) (by omega) e).elim
    · exact (high (by omega) (by omega) e).elim
    · exact (high (by omega) (by omega) e).elim
  · simp only [h1, h2, h3, if_false, List.mem_cons, List.not_mem_nil, or_false] at h
    rcases h with e | e | e | e
    · exact (high (by omega) (by omega) e).elim
    · exact (high (by omega) (by omega) e).elim
    · exact (high (by omega) (by omega) e).elim
    · exact (high (by omega) (by omega) e).elim

/-- A text without a line feed is encoded without one. -/
theorem lineFeed_notMem_encode {s : String} (h : '\n' ∉ s.toList) : lineFeed ∉ encode s := by
  intro hmem
  obtain ⟨c, hc, hb⟩ := List.mem_flatMap.mp hmem
  have hn : c.toNat = 10 := eq_of_mem_encodeChar hb (by decide)
  have he : c = '\n' := Char.toNat_inj.mp hn
  exact h (he ▸ hc)

/-! ### Reading in parts -/

private theorem map_ok {α β ε : Type} {f : α → β} {x : Except ε α} {b : β}
    (h : x.map f = .ok b) : ∃ a, x = .ok a ∧ f a = b := by
  cases x with
  | error e => exact nomatch h
  | ok a => exact ⟨a, rfl, Except.ok.inj h⟩

/-- Bytes that spell a text are read as it, whatever follows them. -/
private theorem decodeFrom_append {begun : Option Begun} {bytes : Bytes} {cs : List Char}
    {i : Nat} (h : decodeFrom i begun bytes = .ok cs) (rest : Bytes) :
    decodeFrom i begun (bytes ++ rest)
      = (decodeFrom (i + bytes.length) none rest).map (cs ++ ·) := by
  fun_induction decodeFrom i begun bytes generalizing cs
  case case1 i =>
      cases h
      show decodeFrom i none rest = (decodeFrom i none rest).map id
      cases decodeFrom i none rest <;> rfl
  case case2 | case4 | case8 => exact nomatch h
  case case3 i b bytes hb ih =>
      obtain ⟨cs', h', rfl⟩ := map_ok h
      rw [List.cons_append, decodeFrom, if_pos hb, ih h', List.length_cons,
        Nat.add_right_comm, Nat.add_assoc]
      cases decodeFrom (i + (bytes.length + 1)) none rest <;> rfl
  case case5 i b bytes hb p hp ih =>
      rw [List.cons_append, decodeFrom_lead hb hp, ih h, List.length_cons,
        Nat.add_right_comm, Nat.add_assoc]
  case case6 i b bytes p hb q ho ih =>
      obtain ⟨cs', h', rfl⟩ := map_ok h
      rw [List.cons_append, decodeFrom_last hb ho, ih h', List.length_cons,
        Nat.add_right_comm, Nat.add_assoc]
      cases decodeFrom (i + (bytes.length + 1)) none rest <;> rfl
  case case7 i b bytes p hb q ho ih =>
      rw [List.cons_append, decodeFrom_more hb ho, ih h, List.length_cons,
        Nat.add_right_comm, Nat.add_assoc]

/-- A text and the bytes of another after it are read as one text after the other. -/
theorem decode_append_encode {bytes : Bytes} {s : String} (h : decode bytes = .ok s)
    (t : String) : decode (bytes ++ encode t) = .ok (s ++ t) := by
  obtain ⟨cs, hcs, rfl⟩ := map_ok h
  rw [decode, decodeFrom_append hcs, encode, decodeFrom_encode]
  show Except.ok (String.ofList (cs ++ t.toList)) = _
  rw [String.ofList_append, String.ofList_toList]

/-! ## Texts are ordered as their bytes are

    A text may be compared with another character by character or, as it is kept in a file, byte by
    byte.  It makes no difference.  A character with a greater code has bytes that are greater at
    the first place where they differ: with more bytes its lead byte is greater, and with as many
    its digits in base 64 are compared from the first on.  The route:

    * `cons_lt_of_byte_lt`, `cons_lt_of_byte_le`: how lists of bytes compare, a byte at a time;
    * `encodeChar_append_lt`: the bytes of two characters, whatever follows them;
    * `encode_lt_encode_iff`: the bytes of two texts. -/

private theorem cons_lt_of_byte_lt {m n : Nat} {u v : Bytes} (hn : n < 256) (h : m < n) :
    UInt8.ofNat m :: u < UInt8.ofNat n :: v := by
  refine List.cons_lt_cons_iff.mpr (.inl (UInt8.lt_iff_toNat_lt.mpr ?_))
  rwa [UInt8.toNat_ofNat_of_lt' (Nat.lt_trans h hn), UInt8.toNat_ofNat_of_lt' hn]

/-- Where the first bytes may be the same, the rest decides. -/
private theorem cons_lt_of_byte_le {m n : Nat} {u v : Bytes} (hn : n < 256) (h : m ≤ n)
    (rest : m = n → u < v) : UInt8.ofNat m :: u < UInt8.ofNat n :: v := by
  rcases Nat.lt_or_eq_of_le h with h | rfl
  · exact cons_lt_of_byte_lt hn h
  · exact List.cons_lt_cons_iff.mpr (.inr ⟨rfl, rest rfl⟩)

/-- The bytes of a character are less than those of a greater one, whatever follows either. -/
theorem encodeChar_append_lt {c d : Char} (h : c < d) (u v : Bytes) :
    encodeChar c ++ u < encodeChar d ++ v := by
  have hlt : c.toNat < d.toNat := h
  have hmax : d.toNat < 0x110000 := by
    have hv : d.toNat < 0xD800 ∨ 0xDFFF < d.toNat ∧ d.toNat < 0x110000 := d.valid
    omega
  unfold encodeChar
  generalize c.toNat = m at hlt
  generalize d.toNat = n at hlt hmax
  dsimp only
  -- by the number of bytes of the greater one, and then of the other
  by_cases hn₁ : n < 0x80
  · rw [if_pos hn₁, if_pos (by omega)]
    exact cons_lt_of_byte_lt (by omega) hlt
  by_cases hn₂ : n < 0x800
  · rw [if_neg hn₁, if_pos hn₂]
    by_cases hm₁ : m < 0x80
    · rw [if_pos hm₁]
      exact cons_lt_of_byte_lt (by omega) (by omega)
    rw [if_neg hm₁, if_pos (by omega)]
    refine cons_lt_of_byte_le (by omega) (by omega) fun _ => ?_
    exact cons_lt_of_byte_lt (by omega) (by omega)
  by_cases hn₃ : n < 0x10000
  · rw [if_neg hn₁, if_neg hn₂, if_pos hn₃]
    by_cases hm₁ : m < 0x80
    · rw [if_pos hm₁]
      exact cons_lt_of_byte_lt (by omega) (by omega)
    by_cases hm₂ : m < 0x800
    · rw [if_neg hm₁, if_pos hm₂]
      exact cons_lt_of_byte_lt (by omega) (by omega)
    rw [if_neg hm₁, if_neg hm₂, if_pos (by omega)]
    refine cons_lt_of_byte_le (by omega) (by omega) fun _ => ?_
    refine cons_lt_of_byte_le (by omega) (by omega) fun _ => ?_
    exact cons_lt_of_byte_lt (by omega) (by omega)
  · rw [if_neg hn₁, if_neg hn₂, if_neg hn₃]
    by_cases hm₁ : m < 0x80
    · rw [if_pos hm₁]
      exact cons_lt_of_byte_lt (by omega) (by omega)
    by_cases hm₂ : m < 0x800
    · rw [if_neg hm₁, if_pos hm₂]
      exact cons_lt_of_byte_lt (by omega) (by omega)
    by_cases hm₃ : m < 0x10000
    · rw [if_neg hm₁, if_neg hm₂, if_pos hm₃]
      exact cons_lt_of_byte_lt (by omega) (by omega)
    rw [if_neg hm₁, if_neg hm₂, if_neg hm₃]
    refine cons_lt_of_byte_le (by omega) (by omega) fun _ => ?_
    refine cons_lt_of_byte_le (by omega) (by omega) fun _ => ?_
    refine cons_lt_of_byte_le (by omega) (by omega) fun _ => ?_
    exact cons_lt_of_byte_lt (by omega) (by omega)

/-- A character has a byte. -/
theorem exists_cons_encodeChar (c : Char) : ∃ b bs, encodeChar c = b :: bs := by
  rw [encodeChar]
  split
  · exact ⟨_, _, rfl⟩
  · split
    · exact ⟨_, _, rfl⟩
    · split <;> exact ⟨_, _, rfl⟩

private theorem encode_lt_of_lt {s t : String} (h : s < t) : encode s < encode t := by
  -- by the characters, up to the first at which the texts differ
  have key (cs ds : List Char) (h : cs < ds) : cs.flatMap encodeChar < ds.flatMap encodeChar := by
    induction cs generalizing ds with
    | nil =>
        cases ds with
        | nil => exact absurd h (List.not_lt_nil _)
        | cons d ds =>
            rw [List.flatMap_cons]
            obtain ⟨b, bs, hb⟩ := exists_cons_encodeChar d
            rw [hb]
            exact List.nil_lt_cons _ _
    | cons c cs ih =>
        cases ds with
        | nil => exact absurd h (List.not_lt_nil _)
        | cons d ds =>
            rw [List.flatMap_cons, List.flatMap_cons]
            rcases List.cons_lt_cons_iff.mp h with hcd | ⟨rfl, hrest⟩
            · exact encodeChar_append_lt hcd _ _
            · exact List.append_left_lt (ih ds hrest)
  exact key s.toList t.toList h

/-- **A text comes before another exactly when its bytes do.** -/
theorem encode_lt_encode_iff {s t : String} : encode s < encode t ↔ s < t := by
  refine ⟨fun h => ?_, encode_lt_of_lt⟩
  by_cases heq : s = t
  · rw [heq] at h
    exact absurd h (List.lt_irrefl _)
  by_cases hlt : s < t
  · exact hlt
  · have hgt : t < s := Decidable.byContradiction fun hgt =>
      heq (String.le_antisymm (String.not_lt.mp hgt) (String.not_lt.mp hlt))
    exact absurd h (List.lt_asymm (encode_lt_of_lt hgt))

end RecordStore.Text

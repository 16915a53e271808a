import RecordStore.Json

/-! # What is printed as JSON is read back

    A value without numbers is read from its printed form as it was, whatever characters its texts
    and the names of its members are made of.  (A number is kept as the literal it was written
    with, and a literal need not be one.)  Printing and reading meet in the tokens: the printed form
    of a value is cut into the tokens of the value, wherever it stands and whatever follows it; and
    the machine, driven by the tokens of a value, delivers the value, whatever it has on its stack.
    The route:

    * `stringBody?_escape`: a character is read from what it is escaped to, and by induction a text
      from its literal;
    * `tokens`, `Lexed`: the tokens of a value, and what it is for characters to be cut into tokens
      however much room there is for more;
    * `lexed_print`: the printed form is cut into the tokens;
    * `foldlM_tokens`: the tokens make the machine deliver the value;
    * `read?_pretty`: both together. -/

namespace RecordStore.Json

/-! ## Strings -/

theorem hexValue?_hexDigit (n : Nat) : hexValue? (hexDigit n) = some (n % 16) := by
  have digits : ∀ d < 16, hexValue? (Nat.digitChar d) = some d := by decide
  exact digits (n % 16) (Nat.mod_lt n (by decide))

/-- A character is escaped by a letter, by its code, or not at all. -/
theorem escape_cases (c : Char) :
    (∃ letter, escape c = ['\\', letter] ∧ simpleEscape? letter = some c) ∨
      (c.toNat < 0x20 ∧
        escape c = ['\\', 'u', '0', '0', hexDigit (c.toNat / 16), hexDigit c.toNat]) ∨
      (escape c = [c] ∧ c ≠ '"' ∧ c ≠ '\\' ∧ ¬ c.toNat < 0x20) := by
  rw [escape]
  by_cases quote : c = '"'
  · exact .inl ⟨'"', if_pos quote, by rw [quote]; rfl⟩
  by_cases backslash : c = '\\'
  · exact .inl ⟨'\\', by rw [if_neg quote, if_pos backslash], by rw [backslash]; rfl⟩
  rw [if_neg quote, if_neg backslash]
  by_cases feed : c = '\n'
  · exact .inl ⟨'n', if_pos feed, by rw [feed]; rfl⟩
  by_cases carriage : c = '\r'
  · exact .inl ⟨'r', by rw [if_neg feed, if_pos carriage], by rw [carriage]; rfl⟩
  rw [if_neg feed, if_neg carriage]
  by_cases tab : c = '\t'
  · exact .inl ⟨'t', if_pos tab, by rw [tab]; rfl⟩
  rw [if_neg tab]
  have ofCode {n : Nat} (h : c.toNat = n) : some (Char.ofNat n) = some c := by
    rw [← h, Char.ofNat_toNat]
  by_cases back : c.toNat = 8
  · exact .inl ⟨'b', if_pos back, ofCode back⟩
  by_cases form : c.toNat = 12
  · exact .inl ⟨'f', by rw [if_neg back, if_pos form], ofCode form⟩
  rw [if_neg back, if_neg form]
  by_cases small : c.toNat < 0x20
  · exact .inr (.inl ⟨small, if_pos small⟩)
  · exact .inr (.inr ⟨if_neg small, quote, backslash, small⟩)

/-- A character is read from what it is escaped to. -/
theorem stringBody?_escape (c : Char) (cs : List Char) :
    stringBody? (escape c ++ cs) =
      (stringBody? cs).map fun (pieces, rest) => (.char c :: pieces, rest) := by
  rcases escape_cases c with ⟨letter, h, named⟩ | ⟨small, h⟩ | ⟨h, quote, backslash, small⟩
  · have ne : letter ≠ 'u' := by
      rintro rfl
      exact nomatch named
    rw [h, List.cons_append, List.singleton_append, stringBody?, named]
    · cases stringBody? cs <;> rfl
    · exact fun _ _ _ _ _ e => absurd e ne
  · have code : c.toNat / 16 % 16 * 16 + c.toNat % 16 = c.toNat := by omega
    have zero : hexValue? '0' = some 0 := by decide
    have piece : pieceOfCode c.toNat = .char c := by
      rw [pieceOfCode, if_neg (by omega), Char.ofNat_toNat]
    rw [h]
    show stringBody? ('\\' :: 'u' :: '0' :: '0' :: _ :: _ :: cs) = _
    rw [stringBody?, hexValue?_hexDigit, hexValue?_hexDigit, zero]
    simp only [Option.bind_eq_bind, Option.bind_some, Nat.zero_mul, Nat.zero_add, code, piece]
    cases stringBody? cs <;> rfl
  · rw [h, List.singleton_append, stringBody?, if_neg (not_or.mpr ⟨small, backslash⟩)]
    · cases stringBody? cs <;> rfl
    · exact quote
    · exact fun _ _ _ _ _ e => absurd e backslash
    · exact fun _ _ e => absurd e backslash

/-- A text is read from its literal, and what follows the literal is left. -/
theorem stringBody?_literal (cs rest : List Char) :
    stringBody? (cs.flatMap escape ++ '"' :: rest) = some (cs.map .char, rest) := by
  induction cs with
  | nil => rfl
  | cons c cs ih =>
      rw [List.flatMap_cons, List.append_assoc, stringBody?_escape, ih]
      rfl

theorem assemble?_map_char (cs : List Char) : assemble? (cs.map .char) = some cs := by
  induction cs with
  | nil => rfl
  | cons c cs ih =>
      rw [List.map_cons, assemble?, ih]
      rfl

/-- What a string denotes is the token that begins with its literal. -/
theorem token?_quoteDenoted (denoted : Option String) (rest : List Char) :
    token? (quoteDenoted denoted ++ rest) = some (.text denoted, rest) := by
  cases denoted with
  | none =>
      have half : stringBody? ('\\' :: 'u' :: 'd' :: '8' :: '0' :: '0' :: '"' :: rest)
          = some ([.half 0xD800], rest) := by
        have values :
            hexValue? 'd' = some 13 ∧ hexValue? '8' = some 8 ∧ hexValue? '0' = some 0 := by
          decide
        have piece : pieceOfCode (13 * 4096 + 8 * 256 + 0 * 16 + 0) = .half 0xD800 := by decide
        rw [stringBody?, values.1, values.2.1, values.2.2, stringBody?]
        simp only [Option.bind_eq_bind, Option.bind_some, piece]
        rfl
      show token? ('"' :: '\\' :: 'u' :: 'd' :: '8' :: '0' :: '0' :: '"' :: rest) = _
      rw [token?, half]
      rfl
  | some s =>
      show token? ('"' :: (s.toList.flatMap escape ++ ['"'] ++ rest)) = _
      rw [List.append_assoc, List.singleton_append, token?, stringBody?_literal]
      show some (Token.text ((assemble? (s.toList.map .char)).map String.ofList), rest) = _
      rw [assemble?_map_char, Option.map_some, String.ofList_toList]

/-! ## Tokens -/

mutual

/-- The tokens of a value. -/
def tokens : Json → List Token
  | null => [.word null]
  | bool b => [.word (bool b)]
  | number literal => [.word (number literal)]
  | string denoted => [.text denoted]
  | array [] => [.openArray, .closeArray]
  | array (item :: items) => .openArray :: (tokens item ++ itemTokens items ++ [.closeArray])
  | object [] => [.openObject, .closeObject]
  | object ((name, value) :: members) =>
    .openObject :: .text name :: .colon ::
      (tokens value ++ memberTokens members ++ [.closeObject])

/-- The tokens of the items after the first. -/
def itemTokens : List Json → List Token
  | [] => []
  | item :: items => .comma :: (tokens item ++ itemTokens items)

/-- The tokens of the members after the first. -/
def memberTokens : List (Option String × Json) → List Token
  | [] => []
  | (name, value) :: members =>
    .comma :: .text name :: .colon :: (tokens value ++ memberTokens members)

end

mutual

/-- A value in which there is no number. -/
def Numberless : Json → Prop
  | number _ => False
  | array items => NumberlessItems items
  | object members => NumberlessMembers members
  | null | bool _ | string _ => True

/-- Items in which there is no number. -/
def NumberlessItems : List Json → Prop
  | [] => True
  | item :: items => Numberless item ∧ NumberlessItems items

/-- Members in whose values there is no number. -/
def NumberlessMembers : List (Option String × Json) → Prop
  | [] => True
  | (_, value) :: members => Numberless value ∧ NumberlessMembers members

end

/-- Characters that are cut into tokens, also where there is room for more than are needed. -/
def Lexed (cs : List Char) (ts : List Token) : Prop :=
  ∀ n, cs.length ≤ n → tokenizeWithin n cs = some ts

variable {cs rest : List Char} {ts : List Token} {t : Token}

theorem Lexed.nil : Lexed [] [] := by
  intro n _
  cases n <;> rfl

/-- White space in front makes no difference. -/
theorem Lexed.spaces (h : Lexed cs ts) {space : List Char} (all : ∀ c ∈ space, isSpace c = true) :
    Lexed (space ++ cs) ts := by
  intro n hn
  rw [List.length_append] at hn
  cases n with
  | zero =>
      obtain rfl : space = [] := List.eq_nil_of_length_eq_zero (by omega)
      exact h 0 (by omega)
  | succ n =>
      have hrest := h (n + 1) (by omega)
      rw [tokenizeWithin] at hrest ⊢
      rwa [List.dropWhile_append_of_pos all]

/-- A token in front is cut off. -/
theorem Lexed.token (h : Lexed rest ts) {c : Char} (dark : isSpace c = false)
    (first : token? (c :: cs) = some (t, rest)) (shorter : rest.length ≤ cs.length) :
    Lexed (c :: cs) (t :: ts) := by
  intro n hn
  cases n with
  | zero => exact absurd hn (by simp)
  | succ n =>
      have hrest := h n (by rw [List.length_cons] at hn; omega)
      rw [tokenizeWithin, List.dropWhile_cons_of_neg (by rw [dark]; exact Bool.false_ne_true)]
      simp only [first, hrest, Option.bind_eq_bind, Option.bind_some]
      rfl

/-- A name or a text is one token. -/
theorem Lexed.quoteDenoted (h : Lexed rest ts) (denoted : Option String) :
    Lexed (Json.quoteDenoted denoted ++ rest) (.text denoted :: ts) := by
  have first := token?_quoteDenoted denoted rest
  cases denoted with
  | none => exact h.token rfl first (List.sublist_append_right ..).length_le
  | some s => exact h.token rfl first (List.sublist_append_right ..).length_le

/-- A line break with its indentation is no token. -/
theorem Lexed.newLine (h : Lexed rest ts) (depth : Nat) :
    Lexed (Json.newLine depth ++ rest) ts := by
  refine h.spaces (List.forall_mem_cons.mpr ⟨rfl, fun c hc => ?_⟩)
  rw [List.eq_of_mem_replicate hc]
  rfl

/-- A character that is a token by itself. -/
theorem Lexed.mark (h : Lexed rest ts) {c : Char} (dark : isSpace c = false)
    (first : token? (c :: rest) = some (t, rest)) : Lexed (c :: rest) (t :: ts) :=
  h.token dark first (Nat.le_refl _)

/-- The name of a member and the colon behind it are two tokens. -/
theorem Lexed.named (h : Lexed rest ts) (name : Option String) :
    Lexed (Json.quoteDenoted name ++ ([':', ' '] ++ rest)) (.text name :: .colon :: ts) := by
  have space : Lexed ([' '] ++ rest) ts := h.spaces (List.forall_mem_singleton.mpr rfl)
  have colon : Lexed (':' :: ' ' :: rest) (.colon :: ts) := space.mark rfl rfl
  exact colon.quoteDenoted name

mutual

/-- **The printed form of a value is cut into the tokens of the value**, at any depth and whatever
    follows it. -/
theorem lexed_print (depth : Nat) (value : Json) (plain : value.Numberless) {rest : List Char}
    {ts : List Token} (h : Lexed rest ts) :
    Lexed (print depth value ++ rest) (tokens value ++ ts) := by
  cases value with
  | null => exact h.token rfl rfl (List.sublist_append_right ['u', 'l', 'l'] rest).length_le
  | bool b =>
      cases b with
      | false =>
          exact h.token rfl rfl (List.sublist_append_right ['a', 'l', 's', 'e'] rest).length_le
      | true => exact h.token rfl rfl (List.sublist_append_right ['r', 'u', 'e'] rest).length_le
  | number literal => exact plain.elim
  | string denoted =>
      rw [print, tokens]
      exact h.quoteDenoted denoted
  | array items =>
      have close : Lexed (']' :: rest) (.closeArray :: ts) := h.mark rfl rfl
      cases items with
      | nil =>
          rw [print, tokens]
          exact close.mark rfl rfl
      | cons item items =>
          rw [Numberless, NumberlessItems] at plain
          rw [print, tokens]
          simp only [List.append_assoc, List.cons_append, List.nil_append]
          refine Lexed.mark ?_ rfl rfl
          refine Lexed.newLine ?_ (depth + 1)
          refine lexed_print (depth + 1) item plain.1 ?_
          refine lexed_printItems (depth + 1) items plain.2 ?_
          exact close.newLine depth
  | object members =>
      have close : Lexed ('\x7d' :: rest) (.closeObject :: ts) := h.mark rfl rfl
      cases members with
      | nil =>
          rw [print, tokens]
          exact close.mark rfl rfl
      | cons member members =>
          obtain ⟨name, value⟩ := member
          rw [Numberless, NumberlessMembers] at plain
          rw [print, tokens]
          simp only [List.append_assoc, List.cons_append, List.nil_append]
          refine Lexed.mark ?_ rfl rfl
          refine Lexed.newLine ?_ (depth + 1)
          refine Lexed.named ?_ name
          refine lexed_print (depth + 1) value plain.1 ?_
          refine lexed_printMembers (depth + 1) members plain.2 ?_
          exact close.newLine depth

/-- So are the printed forms of further items. -/
theorem lexed_printItems (depth : Nat) (items : List Json) (plain : NumberlessItems items)
    {rest : List Char} {ts : List Token} (h : Lexed rest ts) :
    Lexed (printItems depth items ++ rest) (itemTokens items ++ ts) := by
  cases items with
  | nil =>
      rw [printItems, itemTokens]
      exact h
  | cons item items =>
      rw [NumberlessItems] at plain
      rw [printItems, itemTokens]
      simp only [List.append_assoc, List.cons_append]
      refine Lexed.mark ?_ rfl rfl
      refine Lexed.newLine ?_ depth
      exact lexed_print depth item plain.1 (lexed_printItems depth items plain.2 h)

/-- So are the printed forms of further members. -/
theorem lexed_printMembers (depth : Nat) (members : List (Option String × Json))
    (plain : NumberlessMembers members) {rest : List Char} {ts : List Token} (h : Lexed rest ts) :
    Lexed (printMembers depth members ++ rest) (memberTokens members ++ ts) := by
  match members with
  | [] =>
      rw [printMembers, memberTokens]
      exact h
  | (name, value) :: members =>
      rw [NumberlessMembers] at plain
      rw [printMembers, memberTokens]
      simp only [List.append_assoc, List.cons_append]
      refine Lexed.mark ?_ rfl rfl
      refine Lexed.newLine ?_ depth
      refine Lexed.named ?_ name
      exact lexed_print depth value plain.1 (lexed_printMembers depth members plain.2 h)

end

/-! ## The machine -/

theorem foldlM_step {state next : State} {t : Token} (step : step? state t = some next)
    (ts : List Token) : (t :: ts).foldlM step? state = ts.foldlM step? next := by
  rw [List.foldlM_cons, step]
  rfl

/-- Where an array may end, the tokens of a value do not end it. -/
theorem foldlM_firstItem (value : Json) (stack : List Frame) (ts : List Token) :
    (tokens value ++ ts).foldlM step? (.firstItem stack)
      = (tokens value ++ ts).foldlM step? (.value (.array [] :: stack)) := by
  obtain ⟨t, more, htokens, hstep⟩ : ∃ t more, tokens value = t :: more ∧
      step? (.firstItem stack) t = step? (.value (.array [] :: stack)) t := by
    cases value with
    | null | bool b | number literal | string denoted => exact ⟨_, [], by rw [tokens], rfl⟩
    | array items => cases items <;> exact ⟨.openArray, _, by rw [tokens], rfl⟩
    | object members => cases members <;> exact ⟨.openObject, _, by rw [tokens], rfl⟩
  rw [htokens, List.cons_append, List.foldlM_cons, List.foldlM_cons, hstep]

mutual

/-- **The tokens of a value make the machine deliver the value**, whatever is on its stack and
    whatever follows them. -/
theorem foldlM_tokens (value : Json) (stack : List Frame) (ts : List Token) :
    (tokens value ++ ts).foldlM step? (.value stack) = ts.foldlM step? (deliver value stack) := by
  cases value with
  | null | bool b | number literal | string denoted =>
      rw [tokens]
      exact foldlM_step rfl ts
  | array items =>
      cases items with
      | nil =>
          rw [tokens]
          exact (foldlM_step rfl _).trans (foldlM_step rfl ts)
      | cons item items =>
          rw [tokens, List.cons_append, List.append_assoc, List.append_assoc]
          calc
            _ = (tokens item ++ (itemTokens items ++ ([Token.closeArray] ++ ts))).foldlM step?
                  (.firstItem stack) := foldlM_step rfl _
            _ = (itemTokens items ++ ([Token.closeArray] ++ ts)).foldlM step?
                  (.afterItem [item] stack) :=
                (foldlM_firstItem item stack _).trans (foldlM_tokens item _ _)
            _ = (.closeArray :: ts).foldlM step? (.afterItem (items.reverse ++ [item]) stack) :=
                foldlM_itemTokens items [item] stack _
            _ = ts.foldlM step? (deliver (.array (items.reverse ++ [item]).reverse) stack) :=
                foldlM_step rfl ts
            _ = _ := by rw [List.reverse_append, List.reverse_reverse]; rfl
  | object members =>
      cases members with
      | nil =>
          rw [tokens]
          exact (foldlM_step rfl _).trans (foldlM_step rfl ts)
      | cons member members =>
          obtain ⟨name, value⟩ := member
          rw [tokens, List.cons_append, List.cons_append, List.cons_append, List.append_assoc,
            List.append_assoc]
          calc
            _ = (tokens value ++ (memberTokens members ++ ([Token.closeObject] ++ ts))).foldlM step?
                  (.value (.object [] name :: stack)) :=
                (foldlM_step rfl _).trans ((foldlM_step rfl _).trans (foldlM_step rfl _))
            _ = (memberTokens members ++ ([Token.closeObject] ++ ts)).foldlM step?
                  (.afterMember [(name, value)] stack) := foldlM_tokens value _ _
            _ = (.closeObject :: ts).foldlM step?
                  (.afterMember (members.reverse ++ [(name, value)]) stack) :=
                foldlM_memberTokens members [(name, value)] stack _
            _ = ts.foldlM step?
                  (deliver (.object (members.reverse ++ [(name, value)]).reverse) stack) :=
                foldlM_step rfl ts
            _ = _ := by rw [List.reverse_append, List.reverse_reverse]; rfl

/-- The tokens of further items put them behind those that an array has. -/
theorem foldlM_itemTokens (items before : List Json) (stack : List Frame) (ts : List Token) :
    (itemTokens items ++ ts).foldlM step? (.afterItem before stack)
      = ts.foldlM step? (.afterItem (items.reverse ++ before) stack) := by
  cases items with
  | nil =>
      rw [itemTokens]
      rfl
  | cons item items =>
      rw [itemTokens, List.cons_append, List.append_assoc]
      calc
        _ = (tokens item ++ (itemTokens items ++ ts)).foldlM step?
              (.value (.array before :: stack)) := foldlM_step rfl _
        _ = (itemTokens items ++ ts).foldlM step? (.afterItem (item :: before) stack) :=
            foldlM_tokens item _ _
        _ = ts.foldlM step? (.afterItem (items.reverse ++ item :: before) stack) :=
            foldlM_itemTokens items (item :: before) stack ts
        _ = _ := by rw [List.reverse_cons, List.append_assoc]; rfl

/-- The tokens of further members put them behind those that an object has. -/
theorem foldlM_memberTokens (members before : List (Option String × Json)) (stack : List Frame)
    (ts : List Token) :
    (memberTokens members ++ ts).foldlM step? (.afterMember before stack)
      = ts.foldlM step? (.afterMember (members.reverse ++ before) stack) := by
  match members with
  | [] =>
      rw [memberTokens]
      rfl
  | (name, value) :: members =>
      rw [memberTokens, List.cons_append, List.cons_append, List.cons_append, List.append_assoc]
      calc
        _ = (tokens value ++ (memberTokens members ++ ts)).foldlM step?
              (.value (.object before name :: stack)) :=
            (foldlM_step rfl _).trans ((foldlM_step rfl _).trans (foldlM_step rfl _))
        _ = (memberTokens members ++ ts).foldlM step?
              (.afterMember ((name, value) :: before) stack) := foldlM_tokens value _ _
        _ = ts.foldlM step? (.afterMember (members.reverse ++ (name, value) :: before) stack) :=
            foldlM_memberTokens members ((name, value) :: before) stack ts
        _ = _ := by rw [List.reverse_cons, List.append_assoc]; rfl

end

/-! ## Reading what was printed -/

/-- **A value without numbers is read from its printed form**, as it was. -/
theorem read?_pretty {value : Json} (plain : value.Numberless) :
    read? value.pretty = some value := by
  have cut : tokenize? (print 0 value) = some (tokens value) := by
    have lexed := lexed_print 0 value plain .nil
    rw [List.append_nil, List.append_nil] at lexed
    exact lexed _ (Nat.le_refl _)
  have delivered : (tokens value).foldlM step? (.value []) = some (.done value) := by
    have run := foldlM_tokens value [] []
    rwa [List.append_nil] at run
  rw [read?, pretty, String.toList_ofList, cut]
  show (tokens value).foldlM step? (.value []) >>= _ = _
  rw [delivered]
  rfl

/-! ## Objects of texts -/

section Texts

variable {name : String} {value : Json} {members : List (Option String × Json)}
  {member : Option String × Json}

/-- Items hold no number when none of them does. -/
theorem numberlessItems_iff {items : List Json} :
    NumberlessItems items ↔ ∀ item ∈ items, item.Numberless := by
  induction items with
  | nil =>
      rw [NumberlessItems]
      exact iff_of_true trivial (List.forall_mem_nil _)
  | cons item items ih => rw [NumberlessItems, ih, List.forall_mem_cons]

/-- Members hold no number when none of their values does. -/
theorem numberlessMembers_iff :
    NumberlessMembers members ↔ ∀ member ∈ members, member.2.Numberless := by
  induction members with
  | nil =>
      rw [NumberlessMembers]
      exact iff_of_true trivial (List.forall_mem_nil _)
  | cons member members ih =>
      obtain ⟨name, value⟩ := member
      rw [NumberlessMembers, ih, List.forall_mem_cons]

/-- A member of a new name is one more, wherever it is put. -/
theorem perm_insertMember (new : some name ∉ members.map Prod.fst) :
    (insertMember name value members).Perm ((some name, value) :: members) := by
  induction members with
  | nil => exact .refl _
  | cons member members ih =>
      obtain ⟨other, present⟩ := member
      rw [List.map_cons, List.mem_cons, not_or] at new
      obtain ⟨ne, hnew⟩ := new
      cases other with
      | none => exact .refl _
      | some key =>
          rw [insertMember]
          by_cases before : name < key
          · rw [if_pos before]
          · have hne : name ≠ key := fun e => ne (congrArg some e)
            rw [if_neg before, if_neg hne]
            exact ((ih hnew).cons _).trans (.swap ..)

theorem mem_insertMember (h : member ∈ insertMember name value members) :
    member = (some name, value) ∨ member ∈ members := by
  induction members with
  | nil => exact .inl (List.mem_singleton.mp h)
  | cons first members ih =>
      obtain ⟨other, present⟩ := first
      have inFront : member ∈ (some name, value) :: (other, present) :: members →
          member = (some name, value) ∨ member ∈ (other, present) :: members := List.mem_cons.mp
      cases other with
      | none => exact inFront h
      | some key =>
          rw [insertMember] at h
          by_cases before : name < key
          · rw [if_pos before] at h
            exact inFront h
          by_cases same : name = key
          · rw [if_neg before, if_pos same] at h
            exact (List.mem_cons.mp h).imp_right (List.mem_cons_of_mem _)
          · rw [if_neg before, if_neg same] at h
            rcases List.mem_cons.mp h with rfl | h
            · exact .inr List.mem_cons_self
            · exact (ih h).imp_right (List.mem_cons_of_mem _)

/-- A text with its name, as a member. -/
def textMember (text : String × String) : Option String × Json := (some text.1, ofString text.2)

/-- An object of texts of distinct names has just these members. -/
theorem perm_ofTexts {texts : List (String × String)} (distinct : (texts.map Prod.fst).Nodup) :
    ∃ members, ofTexts texts = .object members ∧ members.Perm (texts.map textMember) := by
  have insert (texts : List (String × String)) (distinct : (texts.map Prod.fst).Nodup)
      (members : List (Option String × Json))
      (new : ∀ text ∈ texts, some text.1 ∉ members.map Prod.fst) :
      (texts.foldl (fun members text => insertMember text.1 (ofString text.2) members)
        members).Perm (texts.map textMember ++ members) := by
    induction texts generalizing members with
    | nil => exact .refl _
    | cons text texts ih =>
        obtain ⟨first, hdistinct⟩ := List.nodup_cons.mp distinct
        obtain ⟨hnew, hrest⟩ := List.forall_mem_cons.mp new
        have hperm := @perm_insertMember _ (ofString text.2) _ hnew
        refine (ih hdistinct _ fun other hother => ?_).trans ?_
        · rw [(hperm.map Prod.fst).mem_iff, List.map_cons, List.mem_cons, not_or]
          refine ⟨fun e => first ?_, hrest other hother⟩
          exact Option.some.inj e ▸ List.mem_map_of_mem hother
        · exact (hperm.append_left _).trans List.perm_middle
  have all := insert texts distinct [] fun _ _ => List.not_mem_nil
  rw [List.append_nil] at all
  exact ⟨_, rfl, all⟩

theorem numberless_ofTexts (texts : List (String × String)) : (ofTexts texts).Numberless := by
  rw [ofTexts, Numberless]
  refine List.foldlRecOn texts _ (by rw [NumberlessMembers]; trivial) fun members plain text _ => ?_
  rw [numberlessMembers_iff] at plain ⊢
  intro member hmember
  rcases mem_insertMember hmember with rfl | hmember
  · exact trivial
  · exact plain member hmember

end Texts

end RecordStore.Json

import RecordStore.Proofs.Filter.Written
import RecordStore.Proofs.Schema

/-! # Filters as chains that are scanned

    Seen from its text, a filter is a chain: items with connectives between them, where an item is
    a comparison or, in parentheses, a chain of comparisons.  Reading makes a tree of it, in which
    all that follows a connective is its right operand, and the tree is evaluated by recursion.
    What the text says of a record can be told without the tree: the items are looked at from the
    left, and the first that settles the connective behind it, or the last, gives the answer.  The
    route:

    * `Chain`, `Item`: what is written, with its text and its filter;
    * `Chain.scan`, `Chain.reached`: the scan, and the comparisons that it comes to;
    * `Chain.parseChain_chars`: a chain is read as its filter, if each item is, wherever it stands;
    * `Chain.evaluate_toFilter`: the filter says what the scan says, if it does for each item;
    * `Chain.scan_failsAt`: which scans fail, and how;
    * `evaluateText_written`: each of the three used for the groups first, and then for the
      whole. -/

namespace RecordStore.Filter

open RecordStore.Text

/-! ## Chains -/

/-- Items with connectives between them; there is one item at least. -/
inductive Chain (α : Type) where
  | last (item : α)
  | link (item : α) (k : Connective) (rest : Chain α)
  deriving Repr, DecidableEq

/-- A field and the text that its value is compared with. -/
structure Comparison where
  field : String
  value : String
  deriving Repr, DecidableEq

/-- What stands between connectives: one comparison, or a chain of them in parentheses. -/
inductive Item where
  | comparison (c : Comparison)
  | group (inner : Chain Comparison)
  deriving Repr, DecidableEq

namespace Chain

variable {α : Type}

/-- The items, from the left. -/
def items : Chain α → List α
  | last a => [a]
  | link a _ rest => a :: rest.items

/-- The characters of a chain whose items have the given texts. -/
def chars (text : α → List Char) : Chain α → List Char
  | last a => text a
  | link a k rest => text a ++ (k.chars ++ rest.chars text)

/-- The filter of a chain: what follows a connective is its right operand. -/
def toFilter (leaf : α → Filter) : Chain α → Filter
  | last a => leaf a
  | link a k rest => k.join (leaf a) (rest.toFilter leaf)

end Chain

namespace Comparison

/-- A comparison whose text is read as the comparison. -/
structure Plain (c : Comparison) : Prop where
  name : PlainName c.field
  literal : '"' ∉ c.value.toList

instance (c : Comparison) : Decidable c.Plain :=
  decidable_of_iff (PlainName c.field ∧ '"' ∉ c.value.toList)
    ⟨fun ⟨name, literal⟩ => ⟨name, literal⟩, fun h => ⟨h.name, h.literal⟩⟩

/-- The characters of a comparison as it is written, the value between double quotes. -/
def chars (c : Comparison) : List Char := comparisonChars c.field c.value

/-- The filter that a comparison is. -/
def toFilter (c : Comparison) : Filter := .equals c.field c.value

end Comparison

namespace Item

/-- The comparisons of an item, from the left. -/
def comparisons : Item → List Comparison
  | comparison c => [c]
  | group inner => inner.items

/-- An item all comparisons of which are plain. -/
def Plain (item : Item) : Prop := ∀ c ∈ item.comparisons, c.Plain

instance (item : Item) : Decidable item.Plain :=
  inferInstanceAs (Decidable (∀ c ∈ item.comparisons, c.Plain))

/-- The characters of an item: a chain of comparisons stands in parentheses. -/
def chars : Item → List Char
  | comparison c => c.chars
  | group inner => '(' :: (inner.chars Comparison.chars ++ [')'])

/-- The filter that an item is. Parentheses leave nothing of themselves but what they enclose. -/
def toFilter : Item → Filter
  | comparison c => c.toFilter
  | group inner => inner.toFilter Comparison.toFilter

end Item

/-- The text of a chain of items. -/
def Chain.written (chain : Chain Item) : String := String.ofList (chain.chars Item.chars)

/-! ## Scanning -/

/-- Whether the outcome before a connective settles it, so that nothing behind it is looked at. -/
def Connective.settledBy : Connective → Bool → Bool
  | .and, outcome => !outcome
  | .or, outcome => outcome

namespace Chain

variable {α : Type}

/-- Looks at the items from the left: the answer is that of the first one that settles the
    connective behind it, and else that of the last. -/
def scan (look : α → Except StoreError Bool) : Chain α → Except StoreError Bool
  | last a => look a
  | link a k rest => do
    let outcome ← look a
    if k.settledBy outcome then return outcome else rest.scan look

/-- The comparisons that a scan comes to, from the left, where `within` has those of one item.
    Behind an item that fails it comes to none. -/
def reached (look : α → Except StoreError Bool) (within : α → List Comparison) :
    Chain α → List Comparison
  | last a => within a
  | link a k rest =>
    within a ++
      match look a with
      | .ok outcome => if k.settledBy outcome then [] else rest.reached look within
      | .error _ => []

end Chain

/-- What a comparison says of a record, which must have the field. -/
def Comparison.look (r : Record) (c : Comparison) : Except StoreError Bool :=
  (r.get c.field).map (· == c.value)

namespace Item

/-- What an item says of a record: a group is scanned as the whole is. -/
def look (r : Record) : Item → Except StoreError Bool
  | comparison c => c.look r
  | group inner => inner.scan (Comparison.look r)

/-- The comparisons of an item that the scan comes to when it looks at the item. -/
def reached (r : Record) : Item → List Comparison
  | comparison c => [c]
  | group inner => inner.reached (Comparison.look r) fun c => [c]

end Item

/-- The first of the comparisons whose field the record does not have. -/
def firstUnknown (r : Record) (cs : List Comparison) : Option Comparison :=
  cs.find? fun c => c.field ∉ r.schema.names

/-! ## Reading chains -/

namespace Chain

variable {α : Type} {chain : Chain α}

/-- A text that is read as its filter, at the end of a chain and before a connective. -/
structure ReadAs (text : List Char) (f : Filter) : Prop where
  alone : parseChain text = .ok f
  joined (k : Connective) {after : List Char} {right : Filter}
    (hright : parseChain after = .ok right) :
    parseChain (text ++ (k.chars ++ after)) = .ok (k.join f right)

/-- A chain is read as its filter, if the items are read as theirs. -/
theorem parseChain_chars {text : α → List Char} {leaf : α → Filter}
    (reads : ∀ a ∈ chain.items, ReadAs (text a) (leaf a)) :
    parseChain (chain.chars text) = .ok (chain.toFilter leaf) := by
  induction chain with
  | last a => exact (reads a List.mem_cons_self).alone
  | link a k rest ih =>
      obtain ⟨ha, hrest⟩ := List.forall_mem_cons.mp reads
      exact ha.joined k (ih hrest)

end Chain

/-- A plain comparison is read as itself, wherever in a chain it stands. -/
theorem Comparison.Plain.readAs {c : Comparison} (h : c.Plain) :
    Chain.ReadAs c.chars c.toFilter where
  alone := parseChain_comparison h.name h.literal
  joined k _ _ hright := parseChain_comparison_join h.name h.literal k hright

/-- A plain comparison closes no group: its parentheses, if any, are quoted. -/
theorem Comparison.Plain.ungrouped {c : Comparison} (h : c.Plain) : Spans (· ≠ ')') c.chars :=
  ungrouped_comparisonChars h.name h.literal

/-- Outside of quoted spans, a chain of comparisons has no parenthesis. -/
theorem spans_chain {inner : Chain Comparison} (plain : ∀ c ∈ inner.items, c.Plain) :
    Spans (· ≠ ')') (inner.chars Comparison.chars) := by
  induction inner with
  | last c => exact (plain c List.mem_cons_self).ungrouped
  | link c k rest ih =>
      obtain ⟨hc, hrest⟩ := List.forall_mem_cons.mp plain
      exact hc.ungrouped.append ((ungrouped_connective k).append (ih hrest))

/-- A plain item is read as its filter, wherever in a chain it stands. -/
theorem Item.Plain.readAs {item : Item} (h : item.Plain) :
    Chain.ReadAs item.chars item.toFilter := by
  cases item with
  | comparison c => exact (h c List.mem_cons_self).readAs
  | group inner =>
      have hinner : parseChain (inner.chars Comparison.chars)
          = .ok (inner.toFilter Comparison.toFilter) :=
        Chain.parseChain_chars fun c hc => (h c hc).readAs
      constructor
      · exact parseChain_group (spans_chain h) hinner
      · intro k after right hright
        exact parseChain_group_join (spans_chain h) k hinner hright

/-- A plain item begins with a character that is not blank. -/
theorem Item.Plain.exists_head {item : Item} (h : item.Plain) :
    ∃ c cs, item.chars = c :: cs ∧ isBlank c = false := by
  cases item with
  | comparison c =>
      have plain := h c List.mem_cons_self
      obtain ⟨d, ds, hds, hblank, -⟩ := exists_head_comparisonChars plain.name c.value
      exact ⟨d, ds, hds, hblank⟩
  | group inner => exact ⟨'(', _, rfl, by decide⟩

/-- A chain of plain items is read as its filter. -/
theorem parse_chain {chain : Chain Item} (plain : ∀ item ∈ chain.items, item.Plain) :
    parse chain.written = .ok (chain.toFilter Item.toFilter) := by
  have hblank : isBlankText chain.written = false := by
    have head {item : Item} (h : item.Plain) (rest : List Char) :
        (item.chars ++ rest).all isBlank = false := by
      obtain ⟨c, cs, hcs, hc⟩ := h.exists_head
      rw [hcs, List.cons_append, List.all_cons, hc]
      rfl
    rw [isBlankText, Chain.written, String.toList_ofList]
    cases chain with
    | last item =>
        rw [Chain.chars, ← List.append_nil item.chars]
        exact head (plain item List.mem_cons_self) []
    | link item k rest => exact head (plain item List.mem_cons_self) _
  rw [parse, hblank, Chain.written, String.toList_ofList]
  exact Chain.parseChain_chars fun item hitem => (plain item hitem).readAs

/-! ## Evaluating and scanning -/

variable {r : Record}

/-- Two filters that are joined are evaluated as two items are scanned. -/
theorem evaluate_join {k : Connective} {left right : Filter} :
    (k.join left right).evaluate r = (do
      let outcome ← left.evaluate r
      if k.settledBy outcome then return outcome else right.evaluate r) := by
  cases k with
  | and | or =>
      show (left.evaluate r >>= _) = left.evaluate r >>= _
      apply bind_congr
      intro outcome
      cases outcome <;> rfl

/-- **The filter of a chain says what the scan says**, if it does for each item.  The induction is
    on the chain: what the right operand says is only asked where the scan goes on. -/
theorem Chain.evaluate_toFilter {α : Type} {leaf : α → Filter} {look : α → Except StoreError Bool}
    (agrees : ∀ a, (leaf a).evaluate r = look a) (chain : Chain α) :
    (chain.toFilter leaf).evaluate r = chain.scan look := by
  induction chain with
  | last a => exact agrees a
  | link a k rest ih =>
      rw [Chain.toFilter, evaluate_join, agrees, ih]
      rfl

theorem Comparison.evaluate_toFilter (c : Comparison) : c.toFilter.evaluate r = c.look r := by
  rw [Comparison.toFilter, evaluate, Comparison.look]
  cases r.get c.field <;> rfl

theorem Item.evaluate_toFilter (item : Item) : item.toFilter.evaluate r = item.look r := by
  cases item with
  | comparison c => exact c.evaluate_toFilter
  | group inner => exact Chain.evaluate_toFilter Comparison.evaluate_toFilter inner

/-! ## Scans that fail -/

theorem firstUnknown_append (cs ds : List Comparison) :
    firstUnknown r (cs ++ ds) = (firstUnknown r cs).or (firstUnknown r ds) :=
  List.find?_append

/-- What is looked at fails at the first unknown field that is reached, and names it. -/
def FailsAt (r : Record) (outcome : Except StoreError Bool) (cs : List Comparison) : Prop :=
  ∀ e, outcome = .error e ↔ ∃ c, firstUnknown r cs = some c ∧ e = .unknownField c.field

/-- Where there is an answer, no field that was asked for is unknown. -/
theorem FailsAt.firstUnknown_eq_none {outcome : Bool} {cs : List Comparison}
    (h : FailsAt r (.ok outcome) cs) : firstUnknown r cs = none := by
  rw [Option.eq_none_iff_forall_ne_some]
  intro c hc
  exact nomatch (h _).mpr ⟨c, hc, rfl⟩

/-- A scan fails as the items do. -/
theorem Chain.scan_failsAt {α : Type} {look : α → Except StoreError Bool}
    {within : α → List Comparison} (fails : ∀ a, FailsAt r (look a) (within a))
    (chain : Chain α) : FailsAt r (chain.scan look) (chain.reached look within) := by
  induction chain with
  | last a => exact fails a
  | link a k rest ih =>
      have ha := fails a
      intro e
      rw [Chain.scan, Chain.reached]
      cases hlook : look a with
      | error e' =>
          rw [hlook] at ha
          show Except.error e' = _ ↔ _
          rw [List.append_nil]
          exact ha e
      | ok outcome =>
          rw [hlook] at ha
          rw [firstUnknown_append, ha.firstUnknown_eq_none, Option.none_or]
          show (if k.settledBy outcome then Except.ok outcome else rest.scan look) = _ ↔
            ∃ c, firstUnknown r
              (if k.settledBy outcome then [] else rest.reached look within) = some c ∧ _
          by_cases settled : k.settledBy outcome = true
          · rw [if_pos settled, if_pos settled]
            exact iff_of_false (fun h => nomatch h) fun ⟨_, h, _⟩ => nomatch h
          · rw [if_neg settled, if_neg settled]
            exact ih e

/-- A comparison fails where its own field is unknown. -/
theorem Comparison.look_failsAt (c : Comparison) : FailsAt r (c.look r) [c] := by
  intro e
  rw [Comparison.look, Record.get, firstUnknown, List.find?_singleton]
  by_cases known : c.field ∈ r.schema.names
  · obtain ⟨i, hi⟩ := Schema.position_of_mem known
    rw [hi, if_neg (by simpa using known)]
    exact iff_of_false (fun h => nomatch h) fun ⟨_, h, _⟩ => nomatch h
  · rw [Schema.position_of_not_mem known, if_pos (by simpa using known)]
    constructor
    · rintro ⟨⟩
      exact ⟨c, rfl, rfl⟩
    · rintro ⟨_, ⟨⟩, rfl⟩
      rfl

/-- An item fails at the first unknown field that is asked for in it. -/
theorem Item.look_failsAt (item : Item) : FailsAt r (item.look r) (item.reached r) := by
  cases item with
  | comparison c => exact c.look_failsAt
  | group inner => exact Chain.scan_failsAt Comparison.look_failsAt inner

/-- **A filter that is written as a chain is scanned.**  What the text of a chain says of a record
    is what a scan of its items from the left says, with groups scanned the same way; and it fails
    exactly where the scan comes to a field that the record does not have, naming the first. -/
theorem evaluateText_written {chain : Chain Item} (plain : ∀ item ∈ chain.items, item.Plain)
    (r : Record) :
    evaluateText r chain.written = chain.scan (Item.look r) ∧
      ∀ e, evaluateText r chain.written = .error e ↔
        ∃ c, firstUnknown r (chain.reached (Item.look r) (Item.reached r)) = some c ∧
          e = .unknownField c.field := by
  have scanned : evaluateText r chain.written = chain.scan (Item.look r) := by
    rw [evaluateText, parse_chain plain]
    exact Chain.evaluate_toFilter Item.evaluate_toFilter chain
  constructor
  · exact scanned
  · intro e
    rw [scanned]
    exact Chain.scan_failsAt Item.look_failsAt chain e

/-- A view of a film, by the box that showed it. -/
def boxView : Record := .parse .mediaViews "stb1|the matrix|warner bros|2014-04-01|4.00|1:30"

/-- A chain that begins with a group, and where a field that views do not have is compared last. -/
def priceBehindGroup : Chain Item :=
  .link (.group (.link ⟨"stb", " OR ("⟩ .or (.last ⟨"date", "2014-04-01"⟩))) .and
    (.link (.comparison ⟨"title", "up"⟩) .or (.last (.comparison ⟨"price", "1"⟩)))

/-- The scan comes to the price, for the view has another title; with that title it would not. -/
theorem evaluateText_priceBehindGroup :
    evaluateText boxView "(stb=\" OR (\" OR date=\"2014-04-01\") AND title=\"up\" OR price=\"1\""
        = .error (.unknownField "price") ∧
      evaluateText (boxView.setAt 1 "up")
          "(stb=\" OR (\" OR date=\"2014-04-01\") AND title=\"up\" OR price=\"1\""
        = .ok true := by
  have text : priceBehindGroup.written
      = "(stb=\" OR (\" OR date=\"2014-04-01\") AND title=\"up\" OR price=\"1\"" := by
    decide +kernel
  have plain : ∀ item ∈ priceBehindGroup.items, item.Plain := by decide +kernel
  rw [← text]
  constructor
  · refine ((evaluateText_written plain boxView).2 _).mpr ⟨⟨"price", "1"⟩, ?_, rfl⟩
    decide +kernel
  · rw [(evaluateText_written plain (boxView.setAt 1 "up")).1]
    rfl

end RecordStore.Filter

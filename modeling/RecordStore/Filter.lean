import RecordStore.Record.Basic
import RecordStore.Text.Basic

/-!
# Filters

The conditions that records are chosen by: what they ask of a record, and how they are written.
-/

namespace RecordStore

open RecordStore.Text

/-!
## Filters — conditions on a record

A filter compares fields with literal values and joins such comparisons by *and* and *or*. It is
evaluated from the left, and the right side of a connective is looked at only when the left has
not decided; so a comparison with a field that the record lacks fails only when it is reached.
-/

/-- A condition on a record. -/
inductive Filter where
  /-- The value of the field is exactly this text. -/
  | equals (field value : String)
  | and (left right : Filter)
  | or (left right : Filter)
  deriving Repr, DecidableEq

namespace Filter

/-- Whether the record satisfies the filter. -/
def evaluate (r : Record) : Filter → Except StoreError Bool
  | equals field value => do return (← r.get field) == value
  | and left right => do if ← left.evaluate r then right.evaluate r else return false
  | or left right => do if ← left.evaluate r then return true else right.evaluate r

/-- The fields that the filter compares, from the left. -/
def fields : Filter → List String
  | equals field _ => [field]
  | and left right | or left right => left.fields ++ right.fields

end Filter

/-!
## Filters as they are written

A comparison is written `field="value"`; comparisons are joined by ` AND ` and ` OR `. There is no
precedence: the connective that comes first in the text splits it, what stands before it is one
comparison or one group in parentheses, and all that follows is read the same way. So
`a AND b OR c` means `a AND (b OR c)`, and `a OR b AND c` means `a OR (b AND c)`.

A group ends at the first closing parenthesis, so groups do not nest. Between double quotes
neither connectives nor parentheses count; each search starts outside quotes. The route:

  * `closeGroup?`       what stands in a group and after it;
  * `splitConnective`   what stands before and after the first connective;
  * `parseComparison`   one comparison;
  * `parseChain`        the whole, by recursion on the length of the text;
  * `evaluateText`      reading and evaluating in one.
-/

namespace Filter

/-- The words that join comparisons. -/
inductive Connective where
  | and
  | or
  deriving Repr, DecidableEq

/-- The filter that joins two others. -/
def Connective.join : Connective → Filter → Filter → Filter
  | .and => Filter.and
  | .or => Filter.or

/-- The connective with which a text begins, and the text after it. -/
def connective? : List Char → Option (Connective × List Char)
  | ' ' :: 'A' :: 'N' :: 'D' :: ' ' :: rest => some (.and, rest)
  | ' ' :: 'O' :: 'R' :: ' ' :: rest => some (.or, rest)
  | _ => none

/-- What stands before the first connective outside quotes, and that connective with what stands
    after it, if there is one. -/
def splitConnective (quoted : Bool) :
    List Char → List Char × Option (Connective × List Char)
  | [] => ([], none)
  | c :: cs =>
    if c = '"' then
      let (before, tail) := splitConnective (!quoted) cs
      (c :: before, tail)
    else
      match if quoted then none else connective? (c :: cs) with
      | some tail => ([], some tail)
      | none =>
        let (before, tail) := splitConnective quoted cs
        (c :: before, tail)

/-- What stands before and after the first closing parenthesis outside quotes. -/
def closeGroup? (quoted : Bool) : List Char → Option (List Char × List Char)
  | [] => none
  | c :: cs =>
    if c = ')' ∧ ¬ quoted then some ([], cs)
    else
      (closeGroup? (if c = '"' then !quoted else quoted) cs).map fun (inner, rest) =>
        (c :: inner, rest)

/-- The text of a literal, which must be between double quotes and have none inside. -/
def literal? : List Char → Option (List Char)
  | '"' :: rest =>
    match splitAtFirst? (· == '"') rest with
    | some (inner, []) => some inner
    | _ => none
  | _ => none

/-- Reads one comparison. -/
def parseComparison (cs : List Char) : Except StoreError Filter :=
  let shown := String.ofList (trimChars cs)
  match splitAtFirst? (· == '=') cs with
  | none => .error (.malformedFilter (.withoutEquals shown))
  | some (left, right) =>
    let field := trimChars left
    let value := trimChars right
    if field.isEmpty then .error (.malformedFilter (.withoutField shown))
    else
      match literal? value with
      | none =>
        .error (.malformedFilter (.badLiteral (String.ofList field) (String.ofList value)))
      | some text => .ok (.equals (String.ofList field) (String.ofList text))

/-! ### Every part of a text is shorter than the text -/

/-- What follows the first connective leaves the connective out at least. -/
theorem length_splitConnective {quoted : Bool} {cs after : List Char} {k : Connective}
    (h : (splitConnective quoted cs).2 = some (k, after)) : after.length < cs.length := by
  induction cs generalizing quoted with
  | nil => simp [splitConnective] at h
  | cons c cs ih =>
    simp only [splitConnective] at h
    split at h
    · have := ih h
      simp; omega
    · split at h
      · next tail heq =>
        simp only [Option.some.injEq] at h
        subst h
        split at heq
        · simp at heq
        · unfold connective? at heq
          split at heq <;> simp_all <;> omega
      · have := ih h
        simp; omega

/-- A group and what follows it leave out the closing parenthesis at least. -/
theorem length_closeGroup? {quoted : Bool} {cs inner rest : List Char}
    (h : closeGroup? quoted cs = some (inner, rest)) :
    inner.length + rest.length < cs.length := by
  induction cs generalizing quoted inner with
  | nil => simp [closeGroup?] at h
  | cons c cs ih =>
    simp only [closeGroup?] at h
    split at h
    · simp only [Option.some.injEq, Prod.mk.injEq] at h
      obtain ⟨rfl, rfl⟩ := h
      simp
    · simp only [Option.map_eq_some_iff, Prod.exists, Prod.mk.injEq] at h
      obtain ⟨inner', rest', h, rfl, rfl⟩ := h
      have := ih h
      simp; omega

/-- Dropping from the front does not lengthen a text. -/
theorem length_dropWhile_le (p : Char → Bool) (cs : List Char) :
    (cs.dropWhile p).length ≤ cs.length :=
  (List.dropWhile_sublist p).length_le

/-! ### Reading -/

/-- Reads a chain of comparisons and groups. -/
def parseChain (cs : List Char) : Except StoreError Filter :=
  match _hcs : cs.dropWhile isBlank with
  | '(' :: body =>
    match _hgroup : closeGroup? false body with
    | none => .error (.malformedFilter (.unbalanced (String.ofList ('(' :: body))))
    | some (inner, rest) => do
      let group ← parseChain inner
      let before := (splitConnective false rest).1
      unless before.all isBlank do
        throw (.malformedFilter (.unexpected (String.ofList (trimChars before))))
      match _htail : (splitConnective false rest).2 with
      | none => return group
      | some (k, after) => return k.join group (← parseChain after)
  | text => do
    let comparison ← parseComparison (splitConnective false text).1
    match _htail : (splitConnective false text).2 with
    | none => return comparison
    | some (k, after) => return k.join comparison (← parseChain after)
termination_by cs.length
decreasing_by
  · have h1 := length_dropWhile_le isBlank cs
    have h2 := length_closeGroup? _hgroup
    simp only [_hcs, List.length_cons] at h1
    omega
  · have h1 := length_dropWhile_le isBlank cs
    have h2 := length_closeGroup? _hgroup
    have h3 := length_splitConnective _htail
    simp only [_hcs, List.length_cons] at h1
    omega
  · have h1 := length_dropWhile_le isBlank cs
    have h3 := length_splitConnective _htail
    simp only [_hcs] at h1
    omega

/-- Reads a filter. -/
def parse (s : String) : Except StoreError Filter :=
  if isBlankText s then .error (.malformedFilter .empty) else parseChain s.toList

/-- Whether the record satisfies the filter that a text is read as. -/
def evaluateText (r : Record) (s : String) : Except StoreError Bool := do
  (← parse s).evaluate r

end Filter

end RecordStore

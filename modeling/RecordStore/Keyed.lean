/-!
# Entries by key

A finite map from texts, as a list with at most one entry per key where `insert` and `erase` keep
it so. Its meaning is `get?`; the order of the entries never matters.
-/

namespace RecordStore

/-- Entries by key. -/
abbrev Keyed (α : Type) := List (String × α)

namespace Keyed

variable {α : Type}

/-- The entry under a key. -/
def get? : Keyed α → String → Option α
  | [], _ => none
  | (k, a) :: entries, key => if k = key then some a else get? entries key

/-- Without the entry under a key. -/
def erase (entries : Keyed α) (key : String) : Keyed α :=
  entries.filter fun entry => entry.1 != key

/-- With an entry under a key, in the place of the one there was. -/
def insert (entries : Keyed α) (key : String) (a : α) : Keyed α := (key, a) :: entries.erase key

/-- Whether there is an entry under a key. -/
def contains (entries : Keyed α) (key : String) : Bool := (entries.get? key).isSome

@[simp] theorem get?_nil (key : String) : get? ([] : Keyed α) key = none := rfl

@[simp] theorem get?_erase_self (entries : Keyed α) (key : String) :
    (entries.erase key).get? key = none := by
  induction entries with
  | nil => rfl
  | cons entry entries ih =>
    obtain ⟨k, a⟩ := entry
    by_cases h : k = key
    · simpa [erase, h] using ih
    · simpa [erase, h, get?] using ih

theorem get?_erase_of_ne (entries : Keyed α) {key other : String} (h : other ≠ key) :
    (entries.erase key).get? other = entries.get? other := by
  induction entries with
  | nil => rfl
  | cons entry entries ih =>
    obtain ⟨k, a⟩ := entry
    by_cases hk : k = key
    · have ho : key ≠ other := fun e => h e.symm
      simpa [erase, hk, get?, ho] using ih
    · by_cases ho : k = other
      · subst ho
        simp [erase, hk, get?]
      · simpa [erase, hk, get?, ho] using ih

/-- Erasing a key that has no entry changes nothing. -/
theorem erase_of_get?_eq_none {entries : Keyed α} {key : String} (h : entries.get? key = none) :
    entries.erase key = entries := by
  induction entries with
  | nil => rfl
  | cons entry entries ih =>
    obtain ⟨k, a⟩ := entry
    by_cases hk : k = key
    · simp [get?, hk] at h
    · have hrest : Keyed.erase entries key = entries := ih (by simpa [get?, hk] using h)
      simpa [erase, hk] using hrest

@[simp] theorem get?_insert_self (entries : Keyed α) (key : String) (a : α) :
    (entries.insert key a).get? key = some a := by
  simp [insert, get?]

theorem get?_insert_of_ne (entries : Keyed α) {key other : String} (a : α) (h : other ≠ key) :
    (entries.insert key a).get? other = entries.get? other := by
  have hk : key ≠ other := fun e => h e.symm
  simp [insert, get?, hk, get?_erase_of_ne entries h]

end Keyed

end RecordStore

import Mathlib.Data.List.Forall2

/-! # Computations and events in a row

    What is said of many things that come one after the other is said here once, whatever they are:
    of computations that may fail, by what is known of each and by the first that does; and of
    events, by the last that mattered. -/

namespace RecordStore

/-! ## Computations made one after the other

    A computation that may fail is made of others, one after the other, and ends with the first
    that fails.  These are the facts by which such a sequence is taken apart: it succeeds when all
    of its parts do; and what is known of the values and of the errors of its parts (`Ends`) is
    known of those of the whole. -/

section Ends

variable {ε α β : Type} {x : Except ε α} {f : α → Except ε β}

/-- Two computations succeed one after the other when the first gives a value with which the second
    does. -/
theorem bind_eq_ok_iff {b : β} : x >>= f = .ok b ↔ ∃ a, x = .ok a ∧ f a = .ok b := by
  cases x with
  | error e => exact iff_of_false (fun h => nomatch h) fun ⟨_, h, _⟩ => nomatch h
  | ok a =>
      refine ⟨fun h => ⟨a, rfl, h⟩, ?_⟩
      rintro ⟨_, ⟨⟩, h⟩
      exact h

/-- What is done after a check is done when the check succeeds. -/
theorem check_bind_eq_ok_iff {check : Except ε Unit} {f : Unit → Except ε β} {b : β} :
    check >>= f = .ok b ↔ check = .ok () ∧ f () = .ok b :=
  bind_eq_ok_iff.trans ⟨fun ⟨_, h⟩ => h, fun h => ⟨(), h⟩⟩

/-- A check succeeds when its condition holds. -/
theorem unless_eq_ok_iff {c : Prop} [Decidable c] {e : ε} :
    (unless c do throw e : Except ε Unit) = .ok () ↔ c := by
  by_cases h : c
  · rw [if_pos h]
    exact iff_of_true rfl h
  · rw [if_neg h]
    exact iff_of_false (fun h => nomatch h) h

/-- Checks made on all elements of a list succeed when each does. -/
theorem forM_eq_ok_iff {check : α → Except ε Unit} {l : List α} :
    l.forM check = .ok () ↔ ∀ a ∈ l, check a = .ok () := by
  induction l with
  | nil => exact iff_of_true rfl (by simp)
  | cons a l ih =>
      show (check a >>= fun _ => l.forM check) = _ ↔ _
      rw [check_bind_eq_ok_iff, List.forall_mem_cons, ih]

/-- Where computations on the elements of a list all succeed, those on some of them do, and give the
    values that belong to these. -/
theorem mapM_filter {f : α → Except ε β} {p : α → Bool} {q : β → Bool} {l : List α} {bs : List β}
    (agree : ∀ a ∈ l, ∀ b, f a = .ok b → q b = p a) (h : l.mapM f = .ok bs) :
    (l.filter p).mapM f = .ok (bs.filter q) := by
  induction l generalizing bs with
  | nil =>
      cases h
      rfl
  | cons a l ih =>
      obtain ⟨hfirst, hrest⟩ := List.forall_mem_cons.mp agree
      rw [List.mapM_cons] at h
      obtain ⟨b, hb, h⟩ := bind_eq_ok_iff.mp h
      obtain ⟨others, hothers, ⟨⟩⟩ := bind_eq_ok_iff.mp h
      by_cases ha : p a = true
      · rw [List.filter_cons_of_pos ha, List.filter_cons_of_pos ((hfirst b hb).trans ha),
          List.mapM_cons, hb, ih hrest hothers]
        rfl
      · rw [List.filter_cons_of_neg ha, List.filter_cons_of_neg (by rwa [hfirst b hb]),
          ih hrest hothers]

/-! ### Both endings -/

/-- What is known of a computation however it ends: of its value, and of its error. -/
def Ends (good : α → Prop) (bad : ε → Prop) : Except ε α → Prop
  | .ok a => good a
  | .error e => bad e

namespace Ends

variable {good : α → Prop} {good' : β → Prop} {bad : ε → Prop}

/-- Less may be known of both endings. -/
theorem mono {good₁ : α → Prop} {bad₁ : ε → Prop} (h : Ends good bad x)
    (hgood : ∀ a, good a → good₁ a) (hbad : ∀ e, bad e → bad₁ e) : Ends good₁ bad₁ x := by
  cases x with
  | ok a => exact hgood a h
  | error e => exact hbad e h

/-- What is known in two ways is known together. -/
theorem and {good₁ : α → Prop} {bad₁ : ε → Prop} (h : Ends good bad x) (h₁ : Ends good₁ bad₁ x) :
    Ends (fun a => good a ∧ good₁ a) (fun e => bad e ∧ bad₁ e) x := by
  cases x with
  | ok a => exact ⟨h, h₁⟩
  | error e => exact ⟨h, h₁⟩

/-- A computation without errors gives a value. -/
theorem exists_ok (h : Ends good (fun _ => False) x) : ∃ a, x = .ok a := by
  cases x with
  | ok a => exact ⟨a, rfl⟩
  | error e => exact h.elim

/-- What is known of the second computation, for every value that the first can give, is known of
    both together. -/
theorem bind (h : Ends good bad x) (hf : ∀ a, good a → Ends good' bad (f a)) :
    Ends good' bad (x >>= f) := by
  cases x with
  | ok a => exact hf a h
  | error e => exact h

/-- Steps that keep an invariant keep it when they are made one after the other. -/
theorem foldlM {inv : β → Prop} {step : β → α → Except ε β} {l : List α}
    (hstep : ∀ a ∈ l, ∀ b, inv b → Ends inv bad (step b a)) {b : β} (h : inv b) :
    Ends inv bad (l.foldlM step b) := by
  induction l generalizing b with
  | nil => exact h
  | cons a l ih =>
      obtain ⟨ha, hl⟩ := List.forall_mem_cons.mp hstep
      rw [List.foldlM_cons]
      exact (ha b h).bind fun _ hb => ih hl hb

/-- Steps may also keep what is known of the elements that were taken before: here `inv done` is
    known when those of `done` were. -/
theorem foldlM_done {inv : List α → β → Prop} {step : β → α → Except ε β} {all : List α}
    (hstep : ∀ done a rest b, all = done ++ a :: rest → inv done b →
      Ends (inv (done ++ [a])) bad (step b a))
    {done rest : List α} (place : all = done ++ rest) {b : β} (h : inv done b) :
    Ends (inv all) bad (rest.foldlM step b) := by
  induction rest generalizing done b with
  | nil =>
      rw [List.append_nil] at place
      exact place ▸ h
  | cons a rest ih =>
      rw [List.foldlM_cons]
      refine (hstep done a rest b place h).bind fun next hnext => ?_
      exact ih (place.trans (List.append_cons done a rest)) hnext

end Ends

end Ends

/-! ## The first computation that fails

    A computation may do nothing but make others, in some order.  Then these tell all there is to
    know of how it ends: with a value when they all succeed, and with the error of the first that
    fails otherwise.  The route:

    * `Succeed`, `FirstError`: what a list of computations comes to, one excluding the other;
    * `MadeOf`: a computation that is made of those in a list, so that it has a value exactly when
      they succeed (`MadeOf.eq_ok`) and an error exactly when one fails (`MadeOf.eq_error_iff`);
    * `MadeOf.bind`, `MadeOf.mapM`: one that is made of others, of which this is known. -/

section FirstError

variable {ε α β γ : Type}

/-- All of the computations succeed. -/
def Succeed (parts : List (Except ε γ)) : Prop := ∀ part ∈ parts, ∃ c, part = .ok c

/-- The error of the first of the computations that fails. -/
def FirstError (parts : List (Except ε γ)) (e : ε) : Prop :=
  ∃ before after, parts = before ++ .error e :: after ∧ Succeed before

variable {parts parts' : List (Except ε γ)} {e e' : ε}

theorem Succeed.append (h : Succeed parts) (h' : Succeed parts') : Succeed (parts ++ parts') :=
  List.forall_mem_append.mpr ⟨h, h'⟩

namespace FirstError

theorem mem (h : FirstError parts e) : .error e ∈ parts := by
  obtain ⟨before, after, rfl, -⟩ := h
  exact List.mem_append_right _ List.mem_cons_self

/-- Where there is a first error, not all succeed. -/
theorem not_succeed (h : FirstError parts e) : ¬ Succeed parts := by
  intro succeed
  obtain ⟨c, hc⟩ := succeed _ h.mem
  exact nomatch hc

/-- There is one first error. -/
theorem unique (h : FirstError parts e) (h' : FirstError parts e') : e = e' := by
  obtain ⟨before, after, rfl, succeed⟩ := h
  obtain ⟨before', after', place, succeed'⟩ := h'
  induction before generalizing before' with
  | nil =>
      cases before' with
      | nil =>
          cases place
          rfl
      | cons part before' =>
          cases place
          exact absurd ⟨[], _, rfl, fun _ h => nomatch h⟩ (fun h => not_succeed h succeed')
  | cons part before ih =>
      obtain ⟨⟨c, rfl⟩, rest⟩ := List.forall_mem_cons.mp succeed
      cases before' with
      | nil => exact nomatch place
      | cons part' before' =>
          obtain ⟨rfl, hrest⟩ := List.cons.inj place
          exact ih rest before' hrest (List.forall_mem_cons.mp succeed').2

theorem append_right (h : FirstError parts e) : FirstError (parts ++ parts') e := by
  obtain ⟨before, after, rfl, succeed⟩ := h
  exact ⟨before, after ++ parts', by simp, succeed⟩

theorem append_left (first : Succeed parts) (h : FirstError parts' e) :
    FirstError (parts ++ parts') e := by
  obtain ⟨before, after, rfl, succeed⟩ := h
  exact ⟨parts ++ before, after, by simp, first.append succeed⟩

end FirstError

/-- What is related one by one to the elements of a list is related to some of them. -/
theorem exists_of_mem_forall₂ {related : α → β → Prop} {l : List α} {l' : List β}
    (h : List.Forall₂ related l l') {b : β} (hb : b ∈ l') : ∃ a ∈ l, related a b := by
  induction h with
  | nil => exact nomatch hb
  | cons first rest ih =>
      rcases List.mem_cons.mp hb with rfl | hb
      · exact ⟨_, List.mem_cons_self, first⟩
      · obtain ⟨a, ha, h⟩ := ih hb
        exact ⟨a, List.mem_cons_of_mem _ ha, h⟩

/-- A computation that is made of others, in order: when they all succeed it has a value, which is
    good, and otherwise the error of the first that fails. -/
def MadeOf (parts : List (Except ε γ)) (good : α → Prop) (x : Except ε α) : Prop :=
  Ends (fun a => Succeed parts ∧ good a) (FirstError parts) x

namespace MadeOf

variable {good : α → Prop} {good' : β → Prop} {x : Except ε α}

/-- Where all parts succeed there is a value, and a good one. -/
theorem eq_ok (h : MadeOf parts good x) (succeed : Succeed parts) : ∃ a, x = .ok a ∧ good a := by
  cases x with
  | ok a => exact ⟨a, rfl, h.2⟩
  | error e => exact absurd succeed (FirstError.not_succeed h)

/-- The errors are those of the first part that fails, and no others. -/
theorem eq_error_iff (h : MadeOf parts good x) : x = .error e ↔ FirstError parts e := by
  cases x with
  | ok a => exact iff_of_false (fun h => nomatch h) fun first => first.not_succeed h.1
  | error e' =>
      rw [Except.error.injEq]
      exact ⟨fun same => same ▸ h, fun first => FirstError.unique h first⟩

theorem imp {good₁ : α → Prop} (h : MadeOf parts good x) (himp : ∀ a, good a → good₁ a) :
    MadeOf parts good₁ x :=
  Ends.mono h (fun _ h => ⟨h.1, himp _ h.2⟩) fun _ h => h

theorem value {a : α} (h : good a) : MadeOf ([] : List (Except ε γ)) good (.ok a) :=
  ⟨fun _ h => (nomatch h), h⟩

/-- A computation is made of itself. -/
theorem self (x : Except ε α) : MadeOf [x] (fun a => x = .ok a) x := by
  cases x with
  | ok a => exact ⟨List.forall_mem_singleton.mpr ⟨a, rfl⟩, rfl⟩
  | error e => exact ⟨[], [], rfl, fun _ h => nomatch h⟩

/-- What is made of some parts and then of others is made of them all. -/
theorem bind {f : α → Except ε β} (h : MadeOf parts good x)
    (hf : ∀ a, good a → MadeOf parts' good' (f a)) : MadeOf (parts ++ parts') good' (x >>= f) := by
  cases x with
  | error e => exact FirstError.append_right h
  | ok a =>
      obtain ⟨succeed, ha⟩ := h
      exact Ends.mono (hf a ha) (fun _ h => ⟨succeed.append h.1, h.2⟩) fun _ => .append_left succeed

/-- Computations made on the elements of a list are made of what they are made of, and give values
    that are related to the elements one by one. -/
theorem mapM {f : α → Except ε β} {of : α → List (Except ε γ)} {related : α → β → Prop}
    {l : List α} (hf : ∀ a ∈ l, MadeOf (of a) (related a) (f a)) :
    MadeOf (l.flatMap of) (List.Forall₂ related l) (l.mapM f) := by
  induction l with
  | nil => exact value .nil
  | cons a l ih =>
      obtain ⟨ha, hl⟩ := List.forall_mem_cons.mp hf
      rw [List.mapM_cons, List.flatMap_cons]
      refine ha.bind fun b hb => ?_
      rw [← List.append_nil (l.flatMap of)]
      exact (ih hl).bind fun bs hbs => value (.cons hb hbs)

end MadeOf

end FirstError

/-! ## What happened last

    What holds after a sequence of events is often told by the last event that mattered: one of
    some kind happened, and since then only such as leave it alone.  Or none did, and it held
    before.  `since_nil_or` and `since_cons_or` are the two cases of an induction on the events that
    follows this, from the first event on. -/

section Since

variable {α : Type} {begins quiet : α → Prop} {event : α} {events : List α}

/-- An event of one kind happened, and those after it were all of another. -/
def Since (begins quiet : α → Prop) (events : List α) : Prop :=
  ∃ before event after, events = before ++ event :: after ∧ begins event ∧ ∀ e ∈ after, quiet e

/-- Without events it holds if it held before. -/
theorem since_nil_or {before : Prop} :
    (Since begins quiet [] ∨ before ∧ ∀ e ∈ ([] : List α), quiet e) ↔ before := by
  constructor
  · rintro (⟨front, event, rest, h, -⟩ | ⟨h, -⟩)
    · exact absurd h (by simp)
    · exact h
  · exact fun h => .inr ⟨h, List.forall_mem_nil _⟩

/-- One event more in front: it may be the one after which all are quiet. -/
theorem since_cons :
    Since begins quiet (event :: events) ↔
      Since begins quiet events ∨ begins event ∧ ∀ e ∈ events, quiet e := by
  constructor
  · rintro ⟨before, event', after, h, hbegins, hquiet⟩
    cases before with
    | nil =>
        obtain ⟨rfl, rfl⟩ := List.cons.inj h
        exact .inr ⟨hbegins, hquiet⟩
    | cons first before =>
        obtain ⟨-, rfl⟩ := List.cons.inj h
        exact .inl ⟨before, event', after, rfl, hbegins, hquiet⟩
  · rintro (⟨before, event', after, rfl, hbegins, hquiet⟩ | ⟨hbegins, hquiet⟩)
    · exact ⟨event :: before, event', after, rfl, hbegins, hquiet⟩
    · exact ⟨[], event, events, rfl, hbegins, hquiet⟩

/-- If something holds after an event that begins it, or that leaves it alone where it held before,
    then the same is so of the event and those after it. -/
theorem since_cons_or {before after : Prop} (step : after ↔ begins event ∨ before ∧ quiet event) :
    (Since begins quiet events ∨ after ∧ ∀ e ∈ events, quiet e) ↔
      Since begins quiet (event :: events) ∨ before ∧ ∀ e ∈ event :: events, quiet e := by
  rw [step, since_cons, List.forall_mem_cons, or_and_right, and_assoc, or_assoc]

/-- What one of several things begins, one of them has begun. -/
theorem since_exists_iff {β : Type} {begins : β → α → Prop} {p : β → Prop} :
    Since (fun e => ∃ b, begins b e ∧ p b) quiet events ↔
      ∃ b, Since (begins b) quiet events ∧ p b := by
  constructor
  · rintro ⟨before, event, after, h, ⟨b, hbegins, hp⟩, hquiet⟩
    exact ⟨b, ⟨before, event, after, h, hbegins, hquiet⟩, hp⟩
  · rintro ⟨b, ⟨before, event, after, h, hbegins, hquiet⟩, hp⟩
    exact ⟨before, event, after, h, ⟨b, hbegins, hp⟩, hquiet⟩

end Since

end RecordStore

import RecordStore.Datastore
import RecordStore.Proofs.Datastore.Request
import RecordStore.Proofs.Sequence
import RecordStore.Store.Memory

/-! # Sessions and what they give access to

    Which credentials are accepted is told by the calls that opened and closed sessions: for
    sessions by themselves, and for a datastore, whose actions ask for them. -/

namespace RecordStore.Sessions

/-! ## Whose session a closing ends

    Credentials are accepted when the token is that of an open session and the client is the one
    who opened it.  A closing asks for the token alone.  So a session that was opened with a token
    drawn for it stays open until somebody shows the token again, whoever he says he is; and
    credentials that would not be accepted still close the session of their token.  The route:

    * `Call`, `call`, `run`, `given`: sessions that are opened and closed one after the other;
    * `authenticate_insert`, `authenticate_disconnect`: what opening and closing do to the
      acceptance of credentials;
    * `authenticate_call`, `authenticate_run`: so do one call and, by induction, a run of calls in
      which the token is not drawn again;
    * `accepted_iff_unclosed`: both for the credentials that a run gives out. -/

variable {s : Sessions} {c c' : Credentials}

/-! ### Opening and closing -/

theorem authenticate_iff : s.authenticate c = true ↔ s.clients.get? c.token = some c.client :=
  beq_iff_eq

/-- With a session opened under a new token, these credentials are accepted and those that were
    accepted before. -/
theorem authenticate_insert {client token : String} (new : s.clients.get? token = Option.none) :
    (⟨s.clients.insert token client⟩ : Sessions).authenticate c = true ↔
      ⟨client, token⟩ = c ∨ s.authenticate c = true := by
  rw [authenticate_iff, authenticate_iff]
  by_cases ht : c.token = token
  · rw [ht, Keyed.get?_insert_self, new]
    constructor
    · intro h
      obtain ⟨client', token'⟩ := c
      cases ht
      cases h
      exact .inl rfl
    · rintro (rfl | h)
      · rfl
      · exact nomatch h
  · rw [Keyed.get?_insert_of_ne _ _ ht]
    refine ⟨.inr, fun h => h.resolve_left ?_⟩
    rintro rfl
    exact ht rfl

/-- With a session closed, the credentials with another token are accepted as before. -/
theorem authenticate_disconnect :
    (s.disconnect c').authenticate c = true ↔ s.authenticate c = true ∧ c.token ≠ c'.token := by
  rw [authenticate_iff, authenticate_iff, disconnect]
  by_cases ht : c.token = c'.token
  · rw [ht, Keyed.get?_erase_self]
    exact iff_of_false (fun h => nomatch h) fun h => h.2 rfl
  · rw [Keyed.get?_erase_of_ne _ ht]
    exact (and_iff_left ht).symm

/-- A closing with a token that no session has leaves all sessions as they are. -/
theorem disconnect_of_get?_eq_none (absent : s.clients.get? c.token = Option.none) :
    s.disconnect c = s := by
  rw [disconnect, Keyed.erase_of_get?_eq_none absent]

/-! ### Calls -/

/-- What clients can do with sessions.  The token of a session is drawn with the call for it. -/
inductive Call where
  | connect (client secret token : String)
  | disconnect (c : Credentials)
  deriving Repr, DecidableEq

/-- The sessions after a call, and the credentials that it gives. -/
def call (s : Sessions) : Call → Sessions × Option Credentials
  | .connect client secret token =>
    match s.connect client secret token with
    | .ok (s, c) => (s, some c)
    | .error _ => (s, Option.none)
  | .disconnect c => (s.disconnect c, Option.none)

/-- The sessions after a run of calls. -/
def run (s : Sessions) : List Call → Sessions
  | [] => s
  | x :: calls => run (s.call x).1 calls

/-- The credentials that a run of calls gives, in order. -/
def given (s : Sessions) : List Call → List Credentials
  | [] => []
  | x :: calls => (s.call x).2.toList ++ given (s.call x).1 calls

theorem run_append (s : Sessions) (before after : List Call) :
    s.run (before ++ after) = (s.run before).run after := by
  induction before generalizing s with
  | nil => rfl
  | cons x before ih => exact ih (s.call x).1

theorem given_append (s : Sessions) (before after : List Call) :
    s.given (before ++ after) = s.given before ++ (s.run before).given after := by
  induction before generalizing s with
  | nil => rfl
  | cons x before ih =>
      rw [List.cons_append, given, ih, given, run, List.append_assoc]

/-- A connection is refused, or opens a session under the token that was drawn. -/
theorem call_connect_cases (s : Sessions) (client secret token : String) :
    s.call (.connect client secret token) = (s, Option.none) ∨
      s.call (.connect client secret token) =
        (⟨s.clients.insert token client⟩, some ⟨client, token⟩) := by
  rw [call, connect]
  by_cases h : (client.isEmpty || secret.isEmpty) = true
  · rw [if_pos h]
    exact .inl rfl
  · rw [if_neg h]
    exact .inr rfl

/-- The credentials that a call gives are accepted after it. -/
theorem authenticate_of_call {x : Call} (h : (s.call x).2 = some c) :
    (s.call x).1.authenticate c = true := by
  cases x with
  | disconnect c' => exact nomatch h
  | connect client secret token =>
      rcases call_connect_cases s client secret token with refused | opened
      · rw [refused] at h
        exact nomatch h
      · rw [opened] at h ⊢
        cases h
        rw [authenticate_iff, Keyed.get?_insert_self]

/-- **One call** in which another token is drawn, or none: credentials are accepted after it when
    they were before, unless it closes the session of their token. -/
theorem authenticate_call {x : Call} (other : ∀ c', (s.call x).2 = some c' → c'.token ≠ c.token) :
    (s.call x).1.authenticate c = true ↔
      s.authenticate c = true ∧ ∀ c', x = .disconnect c' → c'.token ≠ c.token := by
  cases x with
  | disconnect c' =>
      rw [call, authenticate_disconnect]
      refine and_congr_right fun _ => ⟨?_, fun h => (h c' rfl).symm⟩
      rintro ne _ ⟨⟩
      exact ne.symm
  | connect client secret token =>
      have noClosing : ∀ c', Call.connect client secret token = .disconnect c' →
          c'.token ≠ c.token := fun _ h => nomatch h
      rw [and_iff_left noClosing]
      rcases call_connect_cases s client secret token with refused | opened
      · rw [refused]
      · rw [opened] at other ⊢
        have ne : c.token ≠ token := (other _ rfl).symm
        rw [authenticate_iff, authenticate_iff, Keyed.get?_insert_of_ne _ _ ne]

/-- **A run of calls** in which the token is not drawn again: credentials are accepted after it when
    they were before it, unless one of the calls closes the session of their token. -/
theorem authenticate_run {calls : List Call} (other : ∀ c' ∈ s.given calls, c'.token ≠ c.token) :
    (s.run calls).authenticate c = true ↔
      s.authenticate c = true ∧ ∀ c', .disconnect c' ∈ calls → c'.token ≠ c.token := by
  induction calls generalizing s with
  | nil => exact (and_iff_left fun _ h => nomatch h).symm
  | cons x calls ih =>
      rw [given] at other
      obtain ⟨first, rest⟩ := List.forall_mem_append.mp other
      rw [run, ih rest, authenticate_call fun c' h => first c' (Option.mem_toList.mpr h), and_assoc]
      refine and_congr_right fun _ => ?_
      simp only [List.mem_cons, or_imp, forall_and, eq_comm (a := x)]

/-! ### What holds of the credentials that were given -/

/-- **A session lasts until its token is shown for closing, by whomever.**  In every run of calls in
    which no token is drawn twice, the credentials that a call gives are accepted at the end
    exactly when no later call closes with their token; so as long as nobody names another client
    with that token, exactly when no later call closes with just these credentials.  Credentials
    that are not accepted close nothing when no session has their token; when one has, it is
    closed nevertheless, and the others stay. -/
theorem accepted_iff_unclosed {calls : List Call}
    (fresh : ((none.given calls).map Credentials.token).Nodup) :
    (∀ before x after c, calls = before ++ x :: after → ((none.run before).call x).2 = some c →
      ((none.run calls).authenticate c = true ↔
        ∀ c', .disconnect c' ∈ after → c'.token ≠ c.token) ∧
      ((∀ c', .disconnect c' ∈ after → c'.token = c.token → c'.client = c.client) →
        ((none.run calls).authenticate c = true ↔ .disconnect c ∉ after))) ∧
    ∀ c', (none.run calls).authenticate c' = false →
      ((none.run calls).clients.get? c'.token = Option.none →
        (none.run calls).disconnect c' = none.run calls) ∧
      ((none.run calls).clients.get? c'.token ≠ Option.none →
        (none.run calls).disconnect c' ≠ none.run calls ∧
        ∀ c, ((none.run calls).disconnect c').authenticate c = true ↔
          (none.run calls).authenticate c = true ∧ c.token ≠ c'.token) := by
  constructor
  · intro before x after c place gives
    subst place
    have lasts : (none.run (before ++ x :: after)).authenticate c = true ↔
        ∀ c', .disconnect c' ∈ after → c'.token ≠ c.token := by
      -- the tokens drawn after this one are other tokens
      rw [given_append, given, gives, Option.toList_some, List.singleton_append, List.map_append,
        List.map_cons, List.nodup_append] at fresh
      have later := (List.nodup_cons.mp fresh.2.1).1
      rw [run_append, run, authenticate_run fun c' hc' h => later (h ▸ List.mem_map_of_mem hc')]
      exact and_iff_right (authenticate_of_call gives)
    refine ⟨lasts, fun own => lasts.trans ⟨fun h closed => h c closed rfl, ?_⟩⟩
    intro open_ c' closes same
    obtain ⟨client, token⟩ := c
    obtain ⟨client', token'⟩ := c'
    cases same
    cases own _ closes rfl
    exact open_ closes
  · intro c' rejected
    refine ⟨disconnect_of_get?_eq_none, fun held => ⟨fun same => ?_, fun c => ?_⟩⟩
    · refine held ?_
      rw [← same, disconnect, Keyed.get?_erase_self]
    · exact authenticate_disconnect

/-- Two sessions of two clients, of which the second is closed by its own credentials. -/
def twoSessions : List Call :=
  [.connect "ann" "secret" "t1", .connect "bob" "secret" "t2", .disconnect ⟨"bob", "t2"⟩]

/-- The session that nobody closed is accepted and the closed one is not; the token of the former
    closes it in the hands of the other client, and a token that nobody has closes nothing. -/
theorem accepted_of_twoSessions :
    (none.run twoSessions).authenticate ⟨"ann", "t1"⟩ = true ∧
    ¬ (none.run twoSessions).authenticate ⟨"bob", "t2"⟩ = true ∧
    (none.run twoSessions).disconnect ⟨"bob", "t1"⟩ ≠ none.run twoSessions ∧
    (none.run twoSessions).disconnect ⟨"bob", "t2"⟩ = none.run twoSessions := by
  have fresh : ((none.given twoSessions).map Credentials.token).Nodup := by decide
  obtain ⟨lasts, rejected⟩ := accepted_iff_unclosed fresh
  refine ⟨?_, ?_, ?_, ?_⟩
  · refine (lasts [] _ _ _ rfl rfl).1.mpr fun c' h => ?_
    simp only [List.mem_cons, List.not_mem_nil, or_false, reduceCtorEq, false_or,
      Call.disconnect.injEq] at h
    rw [h]
    decide
  · rw [(lasts [_] _ _ _ rfl rfl).1]
    exact fun h => h _ List.mem_cons_self rfl
  · exact ((rejected ⟨"bob", "t1"⟩ (by decide)).2 (by decide)).1
  · exact (rejected ⟨"bob", "t2"⟩ (by decide)).1 (by decide)

/-- **Credentials that are not accepted can close the session of another client.**  No token is
    drawn twice; the first client's credentials are accepted, and those of the other client with
    the same token are not; yet when the other client closes with them, the first client's
    credentials are accepted no more, though nobody has closed with those. -/
theorem closed_by_another :
    ((none.given [.connect "ann" "secret" "t", .disconnect ⟨"bob", "t"⟩]).map
      Credentials.token).Nodup ∧
    (none.call (.connect "ann" "secret" "t")).2 = some ⟨"ann", "t"⟩ ∧
    (none.run [.connect "ann" "secret" "t"]).authenticate ⟨"ann", "t"⟩ = true ∧
    (none.run [.connect "ann" "secret" "t"]).authenticate ⟨"bob", "t"⟩ = false ∧
    (none.run [.connect "ann" "secret" "t"]).disconnect ⟨"bob", "t"⟩
      ≠ none.run [.connect "ann" "secret" "t"] ∧
    Call.disconnect ⟨"ann", "t"⟩ ∉ [Call.disconnect ⟨"bob", "t"⟩] ∧
    (none.run [.connect "ann" "secret" "t", .disconnect ⟨"bob", "t"⟩]).authenticate ⟨"ann", "t"⟩
      = false := by
  decide

end RecordStore.Sessions

namespace RecordStore

/-! ## Who may use a datastore

    Whether credentials are accepted is asked of the sessions that are open at that moment.  For
    whoever holds the credentials it is a matter of what happened before: a session was opened with
    just these credentials, and nobody has closed the session of the token since.  The two agree as
    long as no token is drawn twice.  The route:

    * `Opens`, `Closes`, `Admitted`: what has to have happened;
    * `issued`: the tokens that were drawn;
    * `authenticate_serve`: what one request does to the acceptance of credentials;
    * `authenticate_run`: so does a run, by induction on its requests;
    * `act_of_admitted`: what this means for every action on the data. -/

/-! ### What happened before -/

/-- An event in which a session was opened with these credentials. -/
def Opens (c : Credentials) (event : Request × Answer) : Prop :=
  ∃ client secret token,
    event.1 = .connect client secret token ∧ event.2 = .opened (.ok c)

/-- An event in which the session of a token was closed, whatever client was named with it. -/
def Closes (token : String) (event : Request × Answer) : Prop :=
  ∃ client, event.1 = .disconnect ⟨client, token⟩

/-- A session was opened with these credentials, and the session of their token was not closed
    since. -/
def Admitted (c : Credentials) : List (Request × Answer) → Prop :=
  Since (Opens c) fun e => ¬ Closes c.token e

/-- The token that was drawn in an event. -/
def drawn? (event : Request × Answer) : Option String :=
  match event.2 with
  | .opened (.ok c) => some c.token
  | _ => none

/-- The tokens that were drawn, in order. -/
def issued (events : List (Request × Answer)) : List String := events.filterMap drawn?

/-! ### What a request does -/

namespace Datastore

variable {σ : Type} {d : Datastore σ} {c : Credentials}

/-- A connection is refused, or opens a session under the token that was drawn. -/
theorem connect_cases (d : Datastore σ) (client secret token : String) :
    (∃ e, d.connect client secret token = (d, .error e)) ∨
      d.connect client secret token =
        ({ d with sessions := ⟨d.sessions.clients.insert token client⟩ }, .ok ⟨client, token⟩) := by
  rw [connect, Sessions.connect]
  by_cases h : (client.isEmpty || secret.isEmpty) = true
  · rw [if_pos h]
    exact .inl ⟨_, rfl⟩
  · rw [if_neg h]
    exact .inr rfl

/-- Who has opened a session is let in, and the store is not touched by it. -/
theorem require_of_connect {d' : Datastore σ} {client secret token : String}
    (h : d.connect client secret token = (d', .ok c)) :
    d'.store = d.store ∧ d'.sessions.require c = .ok () := by
  rcases connect_cases d client secret token with ⟨e, hfail⟩ | hopen
  · cases (Prod.mk.inj (h.symm.trans hfail)).2
  · cases h.symm.trans hopen
    refine ⟨rfl, if_pos ?_⟩
    rw [Sessions.authenticate_iff, Keyed.get?_insert_self]

variable [Store σ] {disk : σ → Disk}

/-- The tokens that are drawn in these events are not those of sessions that are open. -/
def Unused (d : Datastore σ) (events : List (Request × Answer)) : Prop :=
  ∀ token ∈ issued events, d.sessions.clients.get? token = none

/-- An event in which no token was drawn opens no session. -/
private theorem not_opens {event : Request × Answer} (h : drawn? event = none) :
    ¬ Opens c event := by
  rintro ⟨client, secret, token, -, h'⟩
  rw [drawn?, h'] at h
  exact nomatch h

/-- **One request**: credentials are accepted after it when it opened a session with them, or they
    were accepted before and it did not close the session. -/
theorem authenticate_serve (request : Request)
    (unused : d.Unused [(request, (d.serve disk request).2)]) :
    (d.serve disk request).1.sessions.authenticate c = true ↔
      Opens c (request, (d.serve disk request).2) ∨
        d.sessions.authenticate c = true ∧
          ¬ Closes c.token (request, (d.serve disk request).2) := by
  have quiet {request : Request} {answer : Answer} (h : ∀ c', request ≠ .disconnect c') :
      ¬ Closes c.token (request, answer) := by
    rintro ⟨client, h'⟩
    exact h _ h'
  cases request with
  | connect client secret token =>
      have hquiet (answer : Answer) : ¬ Closes c.token (.connect client secret token, answer) :=
        quiet (by rintro _ ⟨⟩)
      rw [and_iff_left (hquiet _)]
      rcases connect_cases d client secret token with ⟨e, h⟩ | h
      · simp only [serve, h]
        exact (or_iff_right (not_opens rfl)).symm
      · simp only [serve, h] at unused ⊢
        have new : d.sessions.clients.get? token = none := unused token List.mem_cons_self
        rw [Sessions.authenticate_insert new]
        refine or_congr_left ?_
        constructor
        · rintro rfl
          exact ⟨client, secret, token, rfl, rfl⟩
        · rintro ⟨-, -, -, -, h'⟩
          exact Except.ok.inj (Answer.opened.inj h')
  | disconnect c' =>
      rw [or_iff_right (not_opens rfl)]
      show (d.sessions.disconnect c').authenticate c = true ↔ _
      rw [Sessions.authenticate_disconnect]
      refine and_congr_right fun _ => not_congr ?_
      constructor
      · intro h
        exact ⟨c'.client, by rw [h]⟩
      · rintro ⟨client, h⟩
        cases h
        rfl
  | act c' action =>
      have hnone : drawn? (.act c' action, (d.serve disk (.act c' action)).2) = none := by
        cases action <;> rfl
      have hquiet (answer : Answer) : ¬ Closes c.token (.act c' action, answer) :=
        quiet (by rintro _ ⟨⟩)
      rw [or_iff_right (not_opens hnone), and_iff_left (hquiet _)]
      show (d.act disk c' action).1.sessions.authenticate c = true ↔ _
      rw [sessions_act]

/-- Tokens that are new before a request are new after it, but for the one that it drew. -/
theorem unused_serve {request : Request} {events : List (Request × Answer)}
    (unused : d.Unused ((request, (d.serve disk request).2) :: events))
    (fresh : (issued ((request, (d.serve disk request).2) :: events)).Nodup) :
    (d.serve disk request).1.Unused events := by
  have hsub : issued events ⊆ issued ((request, (d.serve disk request).2) :: events) :=
    (List.Sublist.filterMap drawn? (List.sublist_cons_self _ _)).subset
  intro token ht
  have hold : d.sessions.clients.get? token = none := unused token (hsub ht)
  cases request with
  | connect client secret drawn =>
      rcases connect_cases d client secret drawn with ⟨e, h⟩ | h
      · simp only [serve, h]
        exact hold
      · simp only [serve, h] at fresh ⊢
        have hne : token ≠ drawn := by
          rintro rfl
          exact (List.nodup_cons.mp fresh).1 ht
        rw [Keyed.get?_insert_of_ne _ _ hne]
        exact hold
  | disconnect c' =>
      show (d.sessions.clients.erase c'.token).get? token = none
      by_cases hc : token = c'.token
      · rw [hc, Keyed.get?_erase_self]
      · rw [Keyed.get?_erase_of_ne _ hc, hold]
  | act c' action =>
      show (d.act disk c' action).1.sessions.clients.get? token = none
      rw [sessions_act, hold]

/-! ### What a run does -/

/-- **A run**: credentials are accepted after it when they were admitted in it, or were accepted at
    its start and their session was not closed. -/
theorem authenticate_run (requests : List Request) (unused : d.Unused (history disk d requests))
    (fresh : (issued (history disk d requests)).Nodup) :
    (run disk d requests).sessions.authenticate c = true ↔
      Admitted c (history disk d requests) ∨
        d.sessions.authenticate c = true ∧ ∀ e ∈ history disk d requests, ¬ Closes c.token e := by
  -- on the requests: what is accepted after the first is the start of the others
  induction requests generalizing d with
  | nil =>
      rw [run, history]
      exact since_nil_or.symm
  | cons request requests ih =>
      rw [history] at unused fresh
      rw [run, history, ih (unused_serve unused fresh)
        (fresh.sublist (List.Sublist.filterMap drawn? (List.sublist_cons_self _ _)))]
      have hfirst : d.Unused [(request, (d.serve disk request).2)] := by
        intro token ht
        refine unused token ((List.Sublist.filterMap drawn? ?_).subset ht)
        exact List.singleton_sublist.mpr List.mem_cons_self
      exact since_cons_or (authenticate_serve request hfirst)

/-- **Only who was admitted can do anything with the data.**  In every run of requests from a
    datastore without sessions in which no token is drawn twice, credentials are accepted exactly
    when a session was opened with just these credentials and nobody has closed the session of
    their token since.  An action of a client with such credentials is performed on the store.  Any
    other action is answered with a refusal that names the credentials, and leaves the datastore,
    the store and the sessions as they were, whatever is on the disk. -/
theorem act_of_admitted (store : σ) (disk : σ → Disk) (requests : List Request)
    (fresh : (issued (history disk ⟨store, Sessions.none⟩ requests)).Nodup) (c : Credentials)
    (action : Action) :
    ((run disk ⟨store, Sessions.none⟩ requests).sessions.authenticate c = true ↔
      Admitted c (history disk ⟨store, Sessions.none⟩ requests)) ∧
    (Admitted c (history disk ⟨store, Sessions.none⟩ requests) →
      (run disk ⟨store, Sessions.none⟩ requests).act disk c action =
        ({ run disk ⟨store, Sessions.none⟩ requests with
            store := (action.perform disk (run disk ⟨store, Sessions.none⟩ requests).store).1 },
          (action.perform disk (run disk ⟨store, Sessions.none⟩ requests).store).2)) ∧
    (¬ Admitted c (history disk ⟨store, Sessions.none⟩ requests) → ∀ disk' : σ → Disk,
      (run disk ⟨store, Sessions.none⟩ requests).act disk' c action =
        (run disk ⟨store, Sessions.none⟩ requests,
          action.refused (.unauthorized (.unknownToken c.client c.token)))) := by
  have accepted : (run disk ⟨store, Sessions.none⟩ requests).sessions.authenticate c = true ↔
      Admitted c (history disk ⟨store, Sessions.none⟩ requests) := by
    have hclosed : ¬ (⟨store, Sessions.none⟩ : Datastore σ).sessions.authenticate c = true := by
      rw [Sessions.authenticate_iff]
      exact fun h => nomatch h
    rw [authenticate_run requests (fun _ _ => rfl) fresh]
    exact or_iff_left fun h => hclosed h.1
  refine ⟨accepted, fun admitted => ?_, fun stranger disk' => ?_⟩
  · have hrequire : (run disk ⟨store, Sessions.none⟩ requests).sessions.require c = .ok () :=
      if_pos (accepted.mpr admitted)
    rw [act_eq, hrequire]
  · have hrequire : (run disk ⟨store, Sessions.none⟩ requests).sessions.require c =
        .error (.unauthorized (.unknownToken c.client c.token)) :=
      if_neg (mt accepted.mp stranger)
    rw [act_eq, hrequire]

/-- Two clients of a store in memory: the session of the first is closed by the second, who has
    learnt the token, and the first opens another. -/
def twoClients : List Request :=
  [.connect "ann" "secret" "t1", .connect "bob" "secret" "t2", .disconnect ⟨"bob", "t1"⟩,
    .connect "ann" "secret" "t3"]

/-- With the token of the closed session a file is not even opened; with the new token it is looked
    for, and is not there. -/
theorem twoClients_admitted :
    (run (fun _ => Disk.empty) ⟨MemoryStore.new .mediaViews, Sessions.none⟩ twoClients).act
        (fun _ => Disk.empty) ⟨"ann", "t1"⟩ (.importFile "views")
      = (run (fun _ => Disk.empty) ⟨MemoryStore.new .mediaViews, Sessions.none⟩ twoClients,
          .imported [] (.error (.unauthorized (.unknownToken "ann" "t1")))) ∧
    ((run (fun _ => Disk.empty) ⟨MemoryStore.new .mediaViews, Sessions.none⟩ twoClients).act
        (fun _ => Disk.empty) ⟨"ann", "t3"⟩ (.importFile "views")).2
      = .imported [] (.error (.unavailable (.cannotOpenFile "views" .notFound))) := by
  have fresh : (issued (history (fun _ => Disk.empty)
      ⟨MemoryStore.new .mediaViews, Sessions.none⟩ twoClients)).Nodup := by decide
  constructor
  · obtain ⟨accepted, -, refused⟩ := act_of_admitted (MemoryStore.new .mediaViews)
      (fun _ => Disk.empty) twoClients fresh ⟨"ann", "t1"⟩ (.importFile "views")
    exact refused (mt accepted.mpr (by decide)) _
  · obtain ⟨accepted, performed, -⟩ := act_of_admitted (MemoryStore.new .mediaViews)
      (fun _ => Disk.empty) twoClients fresh ⟨"ann", "t3"⟩ (.importFile "views")
    rw [performed (accepted.mp (by decide))]
    rfl

end Datastore

end RecordStore

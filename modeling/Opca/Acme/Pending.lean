/-
  Acme/Pending.lean --- no challenge is left processing: once a process has resumed what
  the last one left, a challenge is processing only while its validation is under way
  (`acme/server.rs`).
-/
import Opca.Acme.Apart
import Opca.Acme.Calm

set_option autoImplicit false

namespace Opca.Acme.Handlers

open Opca.Foundation Prog

/-! ## What is under way -/

/-- The challenge is being validated, or its result is about to be recorded. -/
def UnderWay (s : Shared) (challenge : Int) : Prop :=
  (∃ v ∈ s.validating, v.challenge = challenge) ∨ ∃ r ∈ s.judged, r.challenge = challenge

/-- The process has resumed, and nothing is to come of the challenge's processing. -/
structure Stranded (s : Shared) (challenge : Int) : Prop where
  resumed : s.resumed = true
  processing : ∃ c ∈ s.store.challenges.rows, c.id = challenge ∧ c.status = .processing
  idle : ¬ UnderWay s challenge

/-- The action is the start of a validation of the challenge. -/
def StartsValidation (f : Shared → Moment → Shared) (challenge : Int) : Prop :=
  ∃ v : Validation, v.challenge = challenge ∧
    ∀ s moment, f s moment = { s with validating := s.validating ++ [v] }

/-- What every action of a handler leaves: only the environment decides a challenge, and
what is under way stays so. -/
structure Leaves (s t : Shared) : Prop where
  joined : Joined s.store → Joined t.store
  verdicts : ∀ c ∈ t.store.challenges.rows, c.status = .valid ∨ c.status = .invalid →
    ∃ c' ∈ s.store.challenges.rows, c'.id = c.id ∧ c'.status = c.status
  valid : ∀ c ∈ s.store.challenges.rows, c.status = .valid →
    ∃ c' ∈ t.store.challenges.rows, c'.id = c.id ∧ c'.status = .valid
  resumed : t.resumed = s.resumed
  validating : s.validating ⊆ t.validating
  judged : t.judged = s.judged

theorem Leaves.refl (s : Shared) : Leaves s s where
  joined h := h
  verdicts c hc _ := ⟨c, hc, rfl, rfl⟩
  valid c hc hvalid := ⟨c, hc, rfl, hvalid⟩
  resumed := rfl
  validating := List.Subset.refl _
  judged := rfl

theorem Leaves.underWay {s t : Shared} (h : Leaves s t) {challenge : Int}
    (hs : UnderWay s challenge) : UnderWay t challenge := by
  rcases hs with ⟨v, hv, hof⟩ | ⟨r, hr, hof⟩
  · exact .inl ⟨v, h.validating hv, hof⟩
  · refine .inr ⟨r, ?_, hof⟩
    rw [h.judged]
    exact hr

/-! ## Handlers that set nothing processing -/

section Mild

variable {α β : Type}

/-- A handler that starts what it sets processing, and has nothing to start at its ends. -/
def Mild (h : Handler α) : Prop :=
  h.run.Owes Leaves Stranded StartsValidation (fun _ owed => owed = none) none

theorem Mild.bind {h : Handler α} {g : α → Handler β} (hh : Mild h) (hg : ∀ a, Mild (g a)) :
    Mild (h >>= g) := by
  apply Owes.bind hh
  intro result owed howed
  rw [howed]
  cases result with
  | ok a => exact hg a
  | error e => rfl

theorem Mild.pure {a : α} : Mild (Pure.pure a) := rfl

theorem Mild.throw {e : Declined} : Mild (throw e : Handler α) := rfl

theorem Mild.settled {result : Except Declined α} : Mild (Prog.settled result) := rfl

theorem Mild.found {row : Option α} {what : String} : Mild (found row what) := rfl

theorem Mild.problem {result : Except Problem α} : Mild (problem result) := rfl

theorem Mild.parse {result : Except String α} : Mild (parse result) := rfl

theorem Mild.attempt {f : Shared → Moment → Shared × Except Declined α}
    (h : ∀ s moment, Leaves s (f s moment).1 ∧
      ∀ x, Stranded (f s moment).1 x → Stranded s x) : Mild (Prog.attempt f) := by
  apply Owes.atomic
  intro s moment
  exact ⟨(h s moment).1, (h s moment).2, rfl⟩

/-- An action that leaves the tables, or whose transaction is calm. -/
theorem leaves_of_calm {s t : Shared} (hstore : Calm s.store t.store)
    (hresumed : t.resumed = s.resumed) (hvalidating : t.validating = s.validating)
    (hjudged : t.judged = s.judged) :
    Leaves s t ∧ ∀ x, Stranded t x → Stranded s x := by
  have hleaves : Leaves s t := by
    refine ⟨hstore.joined, ?_, fun c hc hvalid => ⟨c, hstore.kept hc, rfl, hvalid⟩, hresumed,
      ?_, hjudged⟩
    · intro c hc hdecided
      apply hstore.challenges c hc
      intro hpending
      rw [hpending] at hdecided
      rcases hdecided with h | h <;> cases h
    · rw [hvalidating]
      exact List.Subset.refl _
  refine ⟨hleaves, ?_⟩
  intro x hx
  obtain ⟨c, hc, hid, hprocessing⟩ := hx.processing
  obtain ⟨c', hc', hid', hstatus⟩ := hstore.challenges c hc (by rw [hprocessing]; simp)
  refine ⟨?_, ⟨c', hc', hid'.trans hid, hstatus.trans hprocessing⟩, ?_⟩
  · rw [← hresumed]
    exact hx.resumed
  · intro hunder
    exact hx.idle (hleaves.underWay hunder)

theorem Mild.look {f : Shared → Moment → Except Declined α} :
    Mild (Prog.attempt fun s moment => (s, f s moment)) := by
  apply Mild.attempt
  intro s moment
  exact leaves_of_calm (Calm.refl s.store) rfl rfl rfl

theorem Mild.query {f : Store → α} : Mild (Handlers.query f) := Mild.look

theorem Mild.clock : Mild clock := Mild.look

theorem Mild.transact {f : Store → Moment → Except StoreError (Store × α)}
    (h : ∀ s moment store a, f s moment = .ok (store, a) → Calm s store) :
    Mild (transact f) := by
  apply Mild.attempt
  intro s moment
  split
  next store a hf => exact leaves_of_calm (h _ _ _ _ hf) rfl rfl rfl
  · exact leaves_of_calm (Calm.refl s.store) rfl rfl rfl

/-- A transaction that answers nothing. -/
theorem Mild.transactUnit {f : Store → Moment → Except StoreError Store}
    (h : ∀ s moment store, f s moment = .ok store → Calm s store) :
    Mild (Handlers.transact fun store moment => (f store moment).map (·, ())) := by
  apply Mild.transact
  intro s moment store a hf
  obtain ⟨store', hok, heq⟩ := map_eq_ok.mp hf
  cases heq
  exact h s moment _ hok

theorem Mild.ownedBy {account : Account} {owner : Int} : Mild (ownedBy account owner) := rfl

theorem Mild.asGet {payload : List UInt8} : Mild (asGet payload) := rfl

theorem Mild.expireStale : Mild expireStale := by
  apply Mild.transact
  intro s moment store a hf
  cases hf
  exact Calm.expireStale moment.now

theorem Mild.ownedOrder {id : Int} {account : Account} : Mild (ownedOrder id account) := by
  apply Mild.bind Mild.query
  intro row
  apply Mild.bind Mild.found
  intro r
  apply Mild.bind Mild.ownedBy
  intro _
  exact Mild.pure

theorem Mild.orderOf {id : Int} {account : Account} : Mild (orderOf id account) :=
  Mild.bind Mild.expireStale fun _ => Mild.ownedOrder

theorem Mild.authorisationOf {id : Int} {account : Account} :
    Mild (authorisationOf id account) := by
  apply Mild.bind Mild.expireStale
  intro _
  apply Mild.bind Mild.query
  intro row
  apply Mild.bind Mild.found
  intro r
  apply Mild.bind Mild.ownedOrder
  intro _
  exact Mild.pure

theorem Mild.issuing : Mild issuing := Mild.look

end Mild

/-! ## The handlers -/

section Routes

variable {Jws Key : Type} {reading : Reading Jws Key} {rules : NameRules}
  {fromDer : List UInt8 → Except String Csr} {describeName : SubjectAltName → String}
  {describeKey : KeyDescription → String} {post : Post} {id : Int}

theorem Mild.verify {rule : KeyRule} : Mild (post.verify reading rule) := by
  apply Mild.bind Mild.look
  intro flight
  apply Mild.attempt
  intro s moment
  cases hclose : closeRequest reading.toJose s.nonces flight with
  | mk result nonces =>
    cases result with
    | ok checked => exact leaves_of_calm (Calm.refl s.store) rfl rfl rfl
    | error e => exact leaves_of_calm (Calm.refl s.store) rfl rfl rfl

theorem Mild.byAccount : Mild (post.byAccount reading) := by
  apply Mild.bind Mild.verify
  intro r
  obtain ⟨jws, signer⟩ := r
  cases signer with
  | account account key => exact Mild.pure
  | key key => exact Mild.throw

theorem Mild.verifyKeyChange : Mild (post.verifyKeyChange reading) := by
  apply Mild.bind Mild.verify
  intro r
  obtain ⟨jws, signer⟩ := r
  cases signer with
  | account account key =>
    apply Mild.bind Mild.problem
    intro change
    dsimp only
    split
    · exact Mild.throw
    · exact Mild.pure
  | key key => exact Mild.throw

theorem Mild.accountFor {request : AccountRequest} {key : Key} :
    Mild (accountFor reading request key) := by
  apply Mild.bind Mild.query
  intro existing
  cases existing with
  | some account => exact Mild.pure
  | none =>
    dsimp only
    split
    · exact Mild.throw
    · apply Mild.bind Mild.settled
      intro contacts
      apply Mild.transact
      intro s moment store a hf
      have hcalm := Calm.createAccount (s := s) (reading.toCanonicalJson key)
        (reading.thumbprint key) contacts moment.now
      revert hf hcalm
      cases s.createAccount (reading.toCanonicalJson key) (reading.thumbprint key) contacts
          moment.now with
      | mk made rest =>
        obtain ⟨found, new⟩ := rest
        cases found with
        | none =>
          intro hf
          cases hf
        | some account =>
          intro hf hcalm
          cases hf
          exact hcalm

theorem Mild.newAccount : Mild (newAccount reading post) := by
  apply Mild.bind Mild.verify
  intro r
  apply Mild.bind Mild.parse
  intro request
  apply Mild.bind Mild.accountFor
  intro made
  dsimp only
  split
  · exact Mild.throw
  · exact Mild.pure

theorem Mild.updateContacts {contact : Option (List String)} :
    Mild (updateContacts id contact) := by
  cases contact with
  | none => exact Mild.pure
  | some contact =>
    apply Mild.bind Mild.settled
    intro contacts
    apply Mild.transact
    intro s moment store a hf
    cases hf
    exact Calm.setContacts id contacts

theorem Mild.updateStatus {status : Option String} : Mild (updateStatus id status) := by
  unfold Handlers.updateStatus
  split
  · exact Mild.pure
  · exact Mild.pure
  · exact Mild.transactUnit fun _ _ _ h => Calm.setAccountStatus h
  · exact Mild.throw

theorem Mild.showAccount : Mild (showAccount id) :=
  Mild.bind Mild.query fun _ => Mild.bind Mild.found fun _ => Mild.pure

theorem Mild.account : Mild (account reading id post) := by
  apply Mild.bind Mild.byAccount
  intro r
  apply Mild.bind Mild.ownedBy
  intro _
  apply Mild.bind _ fun _ => Mild.showAccount
  unfold Handlers.updateAccount
  split
  · exact Mild.pure
  · apply Mild.bind Mild.parse
    intro request
    exact Mild.bind Mild.updateContacts fun _ => Mild.updateStatus

theorem Mild.orders : Mild (orders reading id post) := by
  apply Mild.bind Mild.byAccount
  intro r
  apply Mild.bind Mild.asGet
  intro _
  apply Mild.bind Mild.ownedBy
  intro _
  exact Mild.bind Mild.query fun _ => Mild.pure

theorem Mild.keyChange : Mild (keyChange reading post) := by
  apply Mild.bind Mild.verifyKeyChange
  intro r
  apply Mild.bind _ fun _ => Mild.showAccount
  apply Mild.attempt
  intro s moment
  split
  next store hchange => exact leaves_of_calm (Calm.changeKey hchange) rfl rfl rfl
  · exact leaves_of_calm (Calm.refl s.store) rfl rfl rfl
  · exact leaves_of_calm (Calm.refl s.store) rfl rfl rfl

theorem Mild.newOrder {lifetime : Time} : Mild (newOrder reading rules lifetime post) := by
  apply Mild.bind Mild.byAccount
  intro r
  apply Mild.bind Mild.parse
  intro request
  apply Mild.bind Mild.issuing
  intro issuer
  apply Mild.bind Mild.problem
  intro found
  apply Mild.bind Mild.clock
  intro now
  apply Mild.bind Mild.problem
  intro authorisations
  apply Mild.bind Mild.problem
  intro notBefore
  apply Mild.bind Mild.problem
  intro notAfter
  apply Mild.bind _ fun _ => Mild.pure
  apply Mild.transact
  intro s moment store a hf
  obtain ⟨⟨store', made⟩, hcreate, hf⟩ := bind_eq_ok.mp hf
  obtain ⟨row, -, hf⟩ := bind_eq_ok.mp hf
  cases hf
  exact Calm.createOrder hcreate

theorem Mild.order : Mild (order reading id post) := by
  apply Mild.bind Mild.byAccount
  intro r
  apply Mild.bind Mild.asGet
  intro _
  exact Mild.bind Mild.orderOf fun _ => Mild.pure

theorem Mild.issueFor {issuer : Issuer} {order : Order} {csr accountKey : List UInt8} :
    Mild (issueFor rules fromDer describeName describeKey issuer order csr accountKey) := by
  apply Mild.bind Mild.look
  intro issued
  apply Mild.transact
  intro s moment store a hf
  obtain ⟨⟨store', recorded⟩, hrecord, heq⟩ := map_eq_ok.mp hf
  cases heq
  exact Calm.recordCertificate hrecord

theorem Mild.finalise :
    Mild (finalise reading rules fromDer describeName describeKey id post) := by
  apply Mild.bind Mild.byAccount
  intro r
  apply Mild.bind Mild.orderOf
  intro owned
  obtain ⟨order, authorisations⟩ := owned
  dsimp only
  split
  · exact Mild.throw
  · apply Mild.bind Mild.parse
    intro request
    apply Mild.bind Mild.settled
    intro csr
    apply Mild.bind Mild.issuing
    intro issuer
    apply Mild.bind Mild.issueFor
    intro _
    exact Mild.bind Mild.orderOf fun _ => Mild.pure

theorem Mild.authorisation : Mild (authorisation reading id post) := by
  apply Mild.bind Mild.byAccount
  intro r
  apply Mild.bind Mild.authorisationOf
  intro owned
  dsimp only
  split
  · exact Mild.pure
  · apply Mild.bind Mild.parse
    intro status
    split
    · exact Mild.throw
    · apply Mild.bind (Mild.transactUnit fun _ _ _ h => Calm.setAuthorisationStatus h)
      intro _
      exact Mild.bind Mild.authorisationOf fun _ => Mild.pure

theorem Mild.certificate : Mild (certificate reading id post) := by
  apply Mild.bind Mild.byAccount
  intro r
  apply Mild.bind Mild.asGet
  intro _
  apply Mild.bind Mild.query
  intro row
  apply Mild.bind Mild.found
  intro found
  exact Mild.bind Mild.ownedBy fun _ => Mild.pure

theorem Mild.revoke : Mild (revoke reading post) := by
  apply Mild.bind Mild.verify
  intro r
  apply Mild.bind Mild.parse
  intro request
  apply Mild.bind Mild.settled
  intro der
  apply Mild.bind Mild.problem
  intro leaf
  apply Mild.bind Mild.query
  intro row
  apply Mild.bind Mild.found
  intro issued
  dsimp only
  split
  · exact Mild.throw
  · apply Mild.bind Mild.settled
    intro reason
    apply Mild.bind _ fun _ => Mild.pure
    apply Mild.transact
    intro s moment store a hf
    obtain ⟨⟨store', revoked⟩, hrevoke, heq⟩ := map_eq_ok.mp hf
    cases heq
    exact Calm.revoke hrevoke

theorem calm_revokeLeaf {s t : Store} {serial : String} {reason : Nat} {now : Time}
    {revoked : Certificate} (h : s.revokeLeaf serial reason now = .ok (t, revoked)) :
    Calm s t := by
  unfold Store.revokeLeaf at h
  split at h
  next row hrevoke =>
    cases h
    exact Calm.revoke hrevoke
  · split at h
    · cases h
      exact Calm.refl _
    · cases h
  · cases h

theorem Mild.revokeLeaf {enrolled : Enrolled} {serial : String} {reason : Nat} :
    Mild (revokeLeaf enrolled serial reason) := by
  apply Mild.bind Mild.query
  intro row
  apply Mild.bind Mild.settled
  intro found
  split
  · exact Mild.pure
  · apply Mild.bind _ fun _ => Mild.pure
    apply Mild.attempt
    intro s moment
    split
    next store revoked hrevoke => exact leaves_of_calm (calm_revokeLeaf hrevoke) rfl rfl rfl
    · exact leaves_of_calm (Calm.refl s.store) rfl rfl rfl

/-! ### The handler that starts validations -/

section Starting

variable {α : Type} {v : Validation}

/-- A challenge that is set processing is under way, or to be started. -/
theorem leaves_of_processing {s : Shared} {now : Time} {store : Store} {challenge : Int}
    (h : s.store.setChallengeStatus challenge .processing none now = .ok store) :
    Leaves s (s.withStore store) ∧
      ∀ x, Stranded (s.withStore store) x → x = challenge ∨ Stranded s x := by
  obtain ⟨hrefers, -, hmoves⟩ := setChallengeStatus_moves h
  constructor
  · refine ⟨hrefers.joined, ?_, fun c hc hvalid => setChallengeStatus_valid h hc hvalid, rfl,
      List.Subset.refl _, rfl⟩
    intro c hc hdecided
    rcases hmoves c hc with ⟨-, hprocessing⟩ | ⟨-, hsame⟩
    · rw [hprocessing] at hdecided
      rcases hdecided with h | h <;> cases h
    · exact hsame
  · intro x hx
    obtain ⟨c, hc, hid, hprocessing⟩ := hx.processing
    rcases hmoves c hc with ⟨hthis, -⟩ | ⟨-, c', hc', hid', hstatus⟩
    · exact .inl (hid.symm.trans hthis)
    · exact .inr ⟨hx.resumed, ⟨c', hc', hid'.trans hid, hstatus.trans hprocessing⟩, hx.idle⟩

/-- Whoever starts a validation owes it no more. -/
theorem leaves_of_start (s : Shared) (v : Validation) :
    Leaves s { s with validating := s.validating ++ [v] } ∧
      ∀ x, Stranded { s with validating := s.validating ++ [v] } x →
        Stranded s x ∧ x ≠ v.challenge := by
  have hleaves : Leaves s { s with validating := s.validating ++ [v] } :=
    { Leaves.refl s with validating := List.subset_append_left _ _ }
  refine ⟨hleaves, ?_⟩
  intro x hx
  constructor
  · exact ⟨hx.resumed, hx.processing, fun hunder => hx.idle (hleaves.underWay hunder)⟩
  · intro hthis
    apply hx.idle
    exact .inl ⟨v, by simp, hthis.symm⟩

/-- What follows a challenge's being set processing is the start of its validation. -/
theorem Mild.starts {rest : Handler α} (h : Mild rest) :
    Mild (Handlers.transact (fun store moment =>
        (store.setChallengeStatus v.challenge .processing none moment.now).map (·, ())) >>=
      fun _ => validateInBackground v >>= fun _ => rest) := by
  apply Owes.bind (q := fun result owed =>
    match result with
    | .ok _ => owed = some v.challenge
    | .error _ => owed = none)
  · refine ⟨by simp, ?_⟩
    intro s moment
    cases hset : s.store.setChallengeStatus v.challenge .processing none moment.now with
    | ok store =>
      obtain ⟨hleaves, hstranded⟩ := leaves_of_processing hset
      simp only [hset]
      refine ⟨hleaves, some v.challenge, ?_, rfl⟩
      intro x hx
      rcases hstranded x hx with hthis | hbefore
      · exact .inl (by rw [hthis]; rfl)
      · exact .inr ⟨hbefore, by simp⟩
    | error e =>
      simp only [hset]
      refine ⟨Leaves.refl s, none, ?_, rfl⟩
      intro x hx
      exact .inr ⟨hx, by simp⟩
  · intro result owed howed
    cases result with
    | error e =>
      rw [howed]
      exact (Mild.throw : Mild (MonadExcept.throw e : Handler α))
    | ok u =>
      rw [howed]
      refine ⟨?_, ?_⟩
      · intro x hx
        exact ⟨v, Option.some_inj.mp hx, fun _ _ => rfl⟩
      · intro s moment
        obtain ⟨hleaves, hstranded⟩ := leaves_of_start s v
        refine ⟨hleaves, none, ?_, h⟩
        intro x hx
        obtain ⟨hbefore, hother⟩ := hstranded x hx
        exact .inr ⟨hbefore, fun hthis => hother (Option.some_inj.mp hthis).symm⟩

end Starting

theorem Mild.challenge : Mild (challenge reading id post) := by
  apply Mild.bind Mild.byAccount
  intro r
  obtain ⟨account, key, payload⟩ := r
  apply Mild.bind Mild.query
  intro row
  apply Mild.bind Mild.found
  intro c
  apply Mild.bind Mild.authorisationOf
  intro owned
  obtain ⟨authorisation, challenges⟩ := owned
  dsimp only
  split
  · exact Mild.pure
  · apply Mild.bind Mild.parse
    intro _
    apply Mild.starts (v := ⟨id, c.kind, authorisation.identifier,
      c.token ++ "." ++ account.thumbprint⟩)
    exact Mild.bind Mild.query fun _ => Mild.bind Mild.found fun _ => Mild.pure

theorem mild_handle (lifetime : Time) (caller : Caller) :
    Honest Leaves Stranded StartsValidation none
      (handle reading rules fromDer describeName describeKey lifetime caller) := by
  cases caller with
  | client route post =>
    cases route with
    | newAccount => exact Mild.newAccount
    | account id => exact Mild.account
    | orders id => exact Mild.orders
    | keyChange => exact Mild.keyChange
    | newOrder => exact Mild.newOrder
    | order id => exact Mild.order
    | finalise id => exact Mild.finalise
    | authorisation id => exact Mild.authorisation
    | challenge id => exact Mild.challenge
    | certificate id => exact Mild.certificate
    | revoke => exact Mild.revoke
  | operator enrolled serial reason => exact Mild.revokeLeaf

end Routes

/-! ## What happens beside the handlers -/

section Events

variable {s t : Shared} {capacity : Nat} {e : Event}

/-- A challenge that is processing is among those that a restart resumes. -/
theorem exists_mem_processing {store : Store} (h : Joined store) {c : Challenge}
    (hc : c ∈ store.challenges.rows) (hprocessing : c.status = .processing) :
    ∃ v ∈ store.processing, v.challenge = c.id := by
  obtain ⟨x, hx⟩ := exists_get (h.challenges c hc)
  obtain ⟨o, ho⟩ := exists_get (h.authorisations x (Table.get?_eq_some.mp hx).1)
  obtain ⟨a, ha⟩ := exists_get (h.orders o (Table.get?_eq_some.mp ho).1)
  refine ⟨⟨c.id, c.kind, x.identifier, c.token ++ "." ++ a.thumbprint⟩, ?_, rfl⟩
  refine List.mem_filterMap.mpr ⟨c, List.mem_filter.mpr ⟨hc, decide_eq_true hprocessing⟩, ?_⟩
  simp [hx, ho, ha]

/-- A verdict on a challenge that is processing is recorded. -/
theorem recorded_succeeds {store : Store} (h : Joined store) {c : Challenge}
    (hc : c ∈ store.challenges.rows) (hprocessing : c.status = .processing)
    (result : Option Problem) (now : Time) :
    ∃ store', recorded store ⟨c.id, result⟩ now = .ok store' := by
  cases result with
  | none => exact setChallengeStatus_succeeds h hc hprocessing (.inl rfl)
  | some problem => exact setChallengeStatus_succeeds h hc hprocessing (.inr rfl)

/-- A verdict that is recorded is the challenge's, and of no other. -/
theorem recorded_moves {store store' : Store} {result : Judgement} {now : Time}
    (h : recorded store result now = .ok store') :
    Refers store store' ∧ ∀ c ∈ store'.challenges.rows, c.status = .processing →
      c.id ≠ result.challenge ∧ ∃ c' ∈ store.challenges.rows, c'.id = c.id ∧ c'.status = c.status := by
  obtain ⟨next, error, hnext, hset⟩ := recorded_ok h
  obtain ⟨hrefers, -, hmoves⟩ := setChallengeStatus_moves hset
  refine ⟨hrefers, ?_⟩
  intro c hc hprocessing
  rcases hmoves c hc with ⟨-, hdecided⟩ | hother
  · rw [hdecided] at hprocessing
    rcases hnext with ⟨hvalid, -⟩ | hinvalid
    · cases hvalid.symm.trans hprocessing
    · cases hinvalid.symm.trans hprocessing
  · exact hother

theorem event_joined (hs : Joined s.store) (h : event capacity s e = some t) :
    Joined t.store := by
  rcases event_cases capacity h with ⟨hstore, -⟩ |
    ⟨result, now, store, -, -, hrecorded, hstore, -⟩
  · rw [hstore]
    exact hs
  · rw [hstore]
    exact (recorded_moves hrecorded).1.joined hs

/-- What is under way stays so through a judgement. -/
theorem underWay_validated {v : Validation} {outcome : Option Problem} {challenge : Int}
    (h : UnderWay s challenge) : UnderWay { s with
      validating := s.validating.erase v
      judged := s.judged ++ [⟨v.challenge, outcome⟩] } challenge := by
  rcases h with ⟨w, hw, hof⟩ | ⟨r, hr, hof⟩
  · by_cases hsame : w = v
    · rw [hsame] at hof
      exact .inr ⟨_, List.mem_append_right _ (List.mem_singleton_self _), hof⟩
    · exact .inl ⟨w, (List.mem_erase_of_ne hsame).mpr hw, hof⟩
  · exact .inr ⟨r, List.mem_append_left _ hr, hof⟩

/-- Another's result is recorded. -/
theorem underWay_recorded {result : Judgement} {store : Store} {held : List HeldKey}
    {challenge : Int} (hother : challenge ≠ result.challenge) (h : UnderWay s challenge) :
    UnderWay { s with store, held, judged := s.judged.erase result } challenge := by
  rcases h with hvalidating | ⟨r, hr, hof⟩
  · exact .inl hvalidating
  · refine .inr ⟨r, (List.mem_erase_of_ne ?_).mpr hr, hof⟩
    rintro rfl
    exact hother hof.symm

/-- No event strands a challenge but the loss of a result. -/
theorem event_stranded (hs : Joined s.store) (h : event capacity s e = some t)
    (hkept : s.resumed = true → ∀ result, e ≠ .loseValidation result) {challenge : Int}
    (ht : Stranded t challenge) : Stranded s challenge := by
  cases e with
  | issueNonce nonce =>
    cases h
    exact ⟨ht.resumed, ht.processing, ht.idle⟩
  | setIssuer issuer =>
    cases h
    exact ⟨ht.resumed, ht.processing, ht.idle⟩
  | setPaused paused =>
    cases h
    exact ⟨ht.resumed, ht.processing, ht.idle⟩
  | resume =>
    simp only [event] at h
    split at h
    · cases h
      exact ht
    · cases h
      obtain ⟨c, hc, hid, hprocessing⟩ := ht.processing
      obtain ⟨v, hv, hof⟩ := exists_mem_processing hs hc hprocessing
      refine absurd ?_ ht.idle
      exact .inl ⟨v, List.mem_append_right _ hv, hof.trans hid⟩
  | validated v outcome =>
    simp only [event] at h
    split at h
    · cases h
      exact ⟨ht.resumed, ht.processing, fun hunder => ht.idle (underWay_validated hunder)⟩
    · cases h
  | recordValidation result now =>
    simp only [event] at h
    split at h
    · cases hrecorded : recorded s.store result now with
      | ok store =>
        simp only [hrecorded] at h
        cases h
        obtain ⟨c, hc, hid, hprocessing⟩ := ht.processing
        obtain ⟨hother, c', hc', hid', hstatus⟩ :=
          (recorded_moves hrecorded).2 c hc hprocessing
        rw [hid] at hother
        exact ⟨ht.resumed, ⟨c', hc', hid'.trans hid, hstatus.trans hprocessing⟩,
          fun hunder => ht.idle (underWay_recorded hother hunder)⟩
      | error error =>
        simp only [hrecorded] at h
        cases h
        obtain ⟨c, hc, hid, hprocessing⟩ := ht.processing
        have hother : challenge ≠ result.challenge := by
          rintro rfl
          obtain ⟨store, hok⟩ := recorded_succeeds hs hc hprocessing result.outcome now
          rw [hid, hrecorded] at hok
          cases hok
        exact ⟨ht.resumed, ht.processing,
          fun hunder => ht.idle (underWay_recorded hother hunder)⟩
    · cases h
  | loseValidation result =>
    simp only [event] at h
    split at h
    · cases h
      exact absurd rfl (hkept ht.resumed result)
    · cases h
  | restart =>
    cases h
    cases ht.resumed

end Events

/-! ## In a run -/

/-- The handler's next action starts a validation of the challenge. -/
def AboutToStart (program : Prog Shared Moment (Except Declined Answer)) (challenge : Int) :
    Prop :=
  ∃ f k, program = .act f k ∧ StartsValidation f challenge

/-- Once the process has resumed, no handler stops where it is about to start a validation,
and no validation's result is lost. -/
def Careful (p : Pool Shared Moment Caller (Except Declined Answer)) :
    PoolLabel Moment Caller Event → Prop
  | .abandon place => p.state.resumed = true → ∀ thread, p.threads[place]? = some thread →
    ∀ challenge, ¬ AboutToStart thread.2 challenge
  | .environment (.loseValidation _) => p.state.resumed = false
  | _ => True

/-- What careful runs keep. -/
structure Attended (p : Pool Shared Moment Caller (Except Declined Answer)) : Prop where
  joined : Joined p.state.store
  honest : p.Honest Leaves Stranded StartsValidation
  settled : p.Settled Leaves Stranded StartsValidation

section Theorems

variable {Jws Key : Type} {reading : Reading Jws Key} {rules : NameRules}
  {fromDer : List UInt8 → Except String Csr} {describeName : SubjectAltName → String}
  {describeKey : KeyDescription → String} {lifetime : Time} {capacity : Nat}
  {p q : Pool Shared Moment Caller (Except Declined Answer)}

theorem Attended.step (h : Attended p) {l : PoolLabel Moment Caller Event}
    (hstep : (handlers reading rules fromDer describeName describeKey lifetime capacity).next p l
      = some q) (hcareful : Careful p l) : Attended q where
  joined := by
    cases l with
    | start caller =>
      cases hstep
      exact h.joined
    | run place moment =>
      rcases h.honest.action hstep with hsame | hleaves
      · rw [hsame]
        exact h.joined
      · exact hleaves.joined h.joined
    | abandon place =>
      cases hstep
      exact h.joined
    | environment e =>
      obtain ⟨state, hevent, rfl⟩ := Option.map_eq_some_iff.mp hstep
      exact event_joined h.joined hevent
  honest := h.honest.step (mild_handle lifetime) hstep
  settled := by
    apply h.settled.step h.honest hstep
    · rintro place rfl thread hthread challenge hstranded howes
      exact hcareful hstranded.resumed thread hthread challenge howes.action_due
    · rintro e rfl challenge hstranded
      obtain ⟨state, hevent, rfl⟩ := Option.map_eq_some_iff.mp hstep
      refine event_stranded h.joined hevent ?_ hstranded
      rintro hresumed result rfl
      rw [hcareful] at hresumed
      cases hresumed

theorem attended_of_reaches
    (hinit : (handlers reading rules fromDer describeName describeKey lifetime capacity).init p)
    (hjoined : Joined p.state.store)
    (hreaches : ((handlers reading rules fromDer describeName describeKey lifetime
      capacity).system.restrict Careful).Reaches p q) : Attended q := by
  induction hreaches with
  | refl =>
    obtain ⟨⟨-, -, -, hfresh, -⟩, hthreads, -⟩ := hinit
    refine ⟨hjoined, ?_, ?_⟩
    · intro thread hthread
      rw [hthreads] at hthread
      cases hthread
    · intro challenge hstranded
      cases hfresh.symm.trans hstranded.resumed
  | step _ hstep ih => exact ih.step hstep.2 hstep.1

/-- **No challenge is left processing.**  From any database whose rows refer to rows that
are there, and while no handler stops between setting a challenge processing and starting
its validation: once a process has resumed what the last one left, every processing
challenge is being validated, or judged, or about to be validated; and its verdict can be
recorded whenever it comes. -/
theorem processing_attended
    (hinit : (handlers reading rules fromDer describeName describeKey lifetime capacity).init p)
    (hjoined : Joined p.state.store)
    (hreaches : ((handlers reading rules fromDer describeName describeKey lifetime
      capacity).system.restrict Careful).Reaches p q)
    (hresumed : q.state.resumed = true) {c : Challenge}
    (hc : c ∈ q.state.store.challenges.rows) (hprocessing : c.status = .processing) :
    (UnderWay q.state c.id ∨ ∃ thread ∈ q.threads, AboutToStart thread.2 c.id) ∧
      ∀ outcome now, ∃ store, recorded q.state.store ⟨c.id, outcome⟩ now = .ok store := by
  have hattended := attended_of_reaches hinit hjoined hreaches
  refine ⟨?_, fun outcome now => recorded_succeeds hattended.joined hc hprocessing outcome now⟩
  by_contra hidle
  obtain ⟨hidle, hnobody⟩ := not_or.mp hidle
  obtain ⟨thread, hthread, howes⟩ := hattended.settled c.id
    ⟨hresumed, ⟨c, hc, rfl, hprocessing⟩, hidle⟩
  exact hnobody ⟨thread, hthread, howes.action_due⟩

/-- A database with a challenge of an account's that is still pending. -/
def pendingStore : Store := { Store.empty with
  accounts := firstAccounts
  orders := ⟨[⟨1, 1, .pending, ["a.example"], none, none, 100, none, none, 0⟩], by decide⟩
  authorisations := ⟨[⟨1, 1, "a.example", false, .pending, 100⟩], by decide⟩
  challenges := ⟨[⟨1, 1, .http01, "t", .pending, none, none⟩], by decide⟩ }

theorem joined_pendingStore : Joined pendingStore where
  challenges := by decide
  authorisations := by decide
  orders := by decide

/-- The account asks for its challenge to be validated. -/
def askingReading : Reading ReadJws String := { sampledReading with
  parse := fun _ => .ok
    ⟨⟨"https://ca/acme/chall/1", some "n", .kid "https://ca/acme/account/1"⟩, "k1", [3]⟩
  object := fun _ => .ok () }

theorem processing_attended_asked :
    ∃ q : Pool Shared Moment Caller (Except Declined Answer),
      q.state.store.challenges.rows.map Challenge.status = [.processing] ∧
      (UnderWay q.state 1 ∨ ∃ thread ∈ q.threads, AboutToStart thread.2 1) := by
  let machine := handlers askingReading plainRules (fun _ => .error "no CSR")
    (fun _ => "a name") (fun _ => "a key") 0 4096
  let check (_ : Pool Shared Moment Caller (Except Declined Answer)) :
      PoolLabel Moment Caller Event → Bool
    | .abandon _ | .environment (.loseValidation _) => false
    | _ => true
  have hcheck : ∀ p l, check p l = true → Careful p l := by
    intro p l h
    cases l with
    | start caller => trivial
    | run place moment => trivial
    | abandon place => cases h
    | environment e =>
      cases e with
      | loseValidation result => cases h
      | _ => trivial
  have hrun : ((machine.guard check).exec
      ([.environment .resume, .environment (.issueNonce "n"),
        .start (.client (.challenge 1) (sampledPost "/acme/chall/1" [3]))] ++
          List.replicate 7 (.run 0 (sampledMoment 1))) (sampledPool pendingStore)).any
      (fun q => q.state.resumed && decide (q.state.store.challenges.rows =
        [⟨1, 1, .http01, "t", .processing, none, none⟩])) = true := by
    decide
  obtain ⟨q, hexec, hview⟩ := (Option.any_eq_true _ _).mp hrun
  obtain ⟨hresumed, hrows⟩ := Bool.and_eq_true_iff.mp hview
  have hrows := of_decide_eq_true hrows
  refine ⟨q, by rw [hrows]; rfl, ?_⟩
  exact (processing_attended ⟨⟨rfl, rfl, rfl, rfl, rfl⟩, rfl, rfl⟩ joined_pendingStore
    (Machine.reaches_of_exec_guard hcheck .refl hexec) hresumed
    (by rw [hrows]; exact List.mem_singleton_self _) rfl).1

end Theorems

end Opca.Acme.Handlers

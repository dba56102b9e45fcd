/-
  Acme/Server.lean --- the ACME handlers at work on one store: each transaction is
  a step, and the validations and signatures between them run beside the others
  (`acme/server.rs`).
-/
import Opca.Acme.Names
import Opca.Acme.Sound
import Opca.Foundation.Machine

set_option autoImplicit false

namespace Opca.Acme

open Opca.Foundation

/-! ## Handlers -/

/-- A `new-order` request whose times have been read. -/
structure OrderRequest where
  identifiers : List Identifier
  notBefore : Option Time
  notAfter : Option Time
  deriving DecidableEq, Repr

/-- What a handler answers with when it fails. -/
inductive Refusal where
  | problem (problem : Problem)
  | stored (error : StoreError)
  deriving DecidableEq, Repr

/-- The `new-order` handler: one authorisation for each name, then the order. -/
def newOrder (rules : NameRules) (permitted : List String) (offered : List ChallengeType)
    (lifetime : Time) (s : Store) (account : Int) (request : OrderRequest) (now : Time)
    (tokens : List String) : Except Refusal (Store × Int) := do
  let found ← (names rules request.identifiers permitted).mapError .problem
  let expires := now + lifetime
  let authorisations ← (found.mapM (authorisationFor · offered expires)).mapError .problem
  (s.createOrder {
    account := account
    identifiers := found
    notBefore := request.notBefore
    notAfter := request.notAfter
    expires := expires
    authorisations := authorisations } now tokens).mapError .stored

/-- What the validation of a challenge needs, from the columns that never change. -/
def validationOf (s : Store) (id : Int) : Option Validation := do
  let c ← s.challenges.get? id
  let a ← s.authorisations.get? c.authorisation
  let order ← s.orders.get? a.order
  let account ← s.accounts.get? order.account
  some ⟨id, c.kind, a.identifier, c.token ++ "." ++ account.thumbprint⟩

/-! ## The server -/

/-- The store, and what runs beside it. -/
structure State where
  store : Store
  /-- Validations in the background. -/
  validating : List Validation
  /-- Challenges whose validator has answered, with the problem it found, and whose
  result is not yet recorded. -/
  judged : List (Int × Option Problem)
  /-- Orders read as ready, whose certificate is being signed. -/
  finalising : List Order
  /-- The challenges a validator has accepted; no one keeps this. -/
  accepted : List Int

/-- One transaction, or one answer from outside.  Expiry, which the handlers run
before they read, is a step of its own. -/
inductive Label where
  | createAccount (jwk thumbprint : String) (contacts : List String) (now : Time)
  | newOrder (permitted : List String) (offered : List ChallengeType) (lifetime : Time)
      (account : Int) (request : OrderRequest) (now : Time) (tokens : List String)
  | expireStale (now : Time)
  | deactivate (authorisation : Int)
  /-- A challenge is to be validated; the handler's own look at the statuses came
  before. -/
  | respond (challenge : Int) (now : Time)
  /-- After a restart, the challenges left processing are validated again. -/
  | resume
  | validated (validation : Validation) (outcome : Option Problem)
  | recordValidation (result : Int × Option Problem) (now : Time)
  | finalise (order : Int)
  /-- `issue` refuses. -/
  | issueFails (order : Order)
  /-- `issue` has signed a certificate, which is recorded. -/
  | record (order : Order) (issued : NewCertificate) (now : Time)
  | revoke (serial : String) (reason : Option Nat) (now : Time)
  deriving DecidableEq, Repr

namespace State

/-- The state once a transaction has committed, or rolled back. -/
def commit {ε : Type} (s : State) : Except ε Store → State
  | .ok store => { s with store }
  | .error _ => s

end State

def next (rules : NameRules) (s : State) : Label → Option State
  | .createAccount jwk thumbprint contacts now =>
    some { s with store := (s.store.createAccount jwk thumbprint contacts now).1 }
  | .newOrder permitted offered lifetime account request now tokens =>
    some (s.commit ((newOrder rules permitted offered lifetime s.store account request now
      tokens).map Prod.fst))
  | .expireStale now => some { s with store := (s.store.expireStale now).1 }
  | .deactivate authorisation =>
    some (s.commit (s.store.setAuthorisationStatus authorisation .deactivated))
  | .respond challenge now =>
    match s.store.setChallengeStatus challenge .processing none now with
    | .ok store => some { s with
        store
        validating := s.validating ++ (validationOf s.store challenge).toList }
    | .error _ => some s
  | .resume => some { s with validating := s.validating ++ s.store.processing }
  | .validated validation outcome =>
    if validation ∈ s.validating then
      some { s with
        validating := s.validating.erase validation
        judged := s.judged ++ [(validation.challenge, outcome)]
        accepted := if outcome.isNone then validation.challenge :: s.accepted
          else s.accepted }
    else none
  | .recordValidation result now =>
    if result ∈ s.judged then
      let s := { s with judged := s.judged.erase result }
      some (s.commit (match result with
        | (challenge, none) => s.store.setChallengeStatus challenge .valid none now
        | (challenge, some problem) =>
          s.store.setChallengeStatus challenge .invalid (some problem) now))
    else none
  | .finalise id =>
    match s.store.orders.get? id with
    | some order =>
      if order.status = .ready then
        some { s with finalising := s.finalising ++ [order] }
      else some s
    | none => some s
  | .issueFails order =>
    if order ∈ s.finalising then
      some { s with finalising := s.finalising.erase order }
    else none
  | .record order issued now =>
    if order ∈ s.finalising then
      let s := { s with finalising := s.finalising.erase order }
      some (s.commit ((s.store.recordCertificate order.id issued now).map Prod.fst))
    else none
  | .revoke serial reason now =>
    some (s.commit ((s.store.revoke serial reason now).map Prod.fst))

/-- The server from an empty database on. -/
def server (rules : NameRules) : Machine State Label where
  init s := s = ⟨.empty, [], [], [], []⟩
  next := next rules

/-! ## The invariant -/

/-- The store is sound, and whatever waits to be recorded as valid is accepted. -/
structure Inv (s : State) : Prop where
  sound : Sound s.accepted s.store
  ready : ReadySound s.store
  judged : ∀ challenge, (challenge, none) ∈ s.judged → challenge ∈ s.accepted

variable {rules : NameRules} {s t : State}

theorem Inv.commit {ε : Type} (h : Inv s) {result : Except ε Store}
    (hok : ∀ store, result = .ok store → Sound s.accepted store ∧ ReadySound store) :
    Inv (s.commit result) := by
  cases result with
  | error e => exact h
  | ok store =>
    obtain ⟨hsound, hready⟩ := hok store rfl
    exact ⟨hsound, hready, h.judged⟩

theorem newOrder_wildcards {offered : List ChallengeType}
    {expires : Time} {found : List String} {authorisations : List NewAuthorisation}
    (h : found.mapM (authorisationFor · offered expires) = .ok authorisations) :
    ∀ a ∈ authorisations, a.wildcard = true → ∀ kind ∈ a.challenges, kind = .dns01 := by
  intro a ha hwild
  obtain ⟨name, -, hname⟩ := exists_of_mem_mapM h a ha
  exact dns01_of_authorisationFor hname hwild

theorem Sound.newOrder {accepted : List Int} {store store' : Store}
    (h : Sound accepted store) (hready : ReadySound store) {permitted : List String}
    {offered : List ChallengeType} {lifetime : Time} {account : Int}
    {request : OrderRequest} {now : Time} {tokens : List String} {id : Int}
    (hs : newOrder rules permitted offered lifetime store account request now tokens =
      .ok (store', id)) :
    Sound accepted store' ∧ ReadySound store' := by
  obtain ⟨found, -, hs⟩ := bind_eq_ok.mp hs
  obtain ⟨authorisations, hauths, hs⟩ := bind_eq_ok.mp hs
  exact h.createOrder hready
    (newOrder_wildcards (mapError_eq_ok.mp hauths)) (mapError_eq_ok.mp hs)

/-- Every step keeps it. -/
theorem Inv.step (h : Inv s) {l : Label} (hstep : next rules s l = some t) : Inv t := by
  cases l with
  | createAccount jwk thumbprint contacts now =>
    cases hstep
    obtain ⟨accounts, haccounts⟩ :=
      createAccount_frame s.store jwk thumbprint contacts now
    rw [haccounts]
    exact ⟨{ h.sound with }, h.ready, h.judged⟩
  | newOrder permitted offered lifetime account request now tokens =>
    cases hstep
    refine h.commit ?_
    intro store hstore
    obtain ⟨⟨store', id⟩, hnew, rfl⟩ := map_eq_ok.mp hstore
    exact h.sound.newOrder h.ready hnew
  | expireStale now =>
    cases hstep
    obtain ⟨hsound, hready⟩ := h.sound.expireStale h.ready now
    exact ⟨hsound, hready, h.judged⟩
  | deactivate authorisation =>
    cases hstep
    refine h.commit ?_
    intro store hstore
    exact h.sound.setAuthorisationStatus h.ready (by decide) hstore
  | respond challenge now =>
    simp only [next] at hstep
    split at hstep
    next store hstore =>
      cases hstep
      obtain ⟨hsound, hready⟩ :=
        h.sound.setChallengeStatus h.ready (fun hv => absurd hv (by decide)) hstore
      exact ⟨hsound, hready, h.judged⟩
    next =>
      cases hstep
      exact h
  | resume =>
    cases hstep
    exact ⟨h.sound, h.ready, h.judged⟩
  | validated validation outcome =>
    simp only [next] at hstep
    split at hstep
    · cases hstep
      cases outcome with
      | none =>
        refine ⟨h.sound.accept _, h.ready, ?_⟩
        intro challenge hjudged
        rcases List.mem_append.mp hjudged with hold | hnew
        · exact List.mem_cons_of_mem _ (h.judged challenge hold)
        · cases List.mem_singleton.mp hnew
          exact List.mem_cons_self
      | some problem =>
        refine ⟨h.sound, h.ready, ?_⟩
        intro challenge hjudged
        rcases List.mem_append.mp hjudged with hold | hnew
        · exact h.judged challenge hold
        · cases List.mem_singleton.mp hnew
    · cases hstep
  | recordValidation result now =>
    simp only [next] at hstep
    split at hstep
    next hmem =>
      cases hstep
      have hrest : Inv { s with judged := s.judged.erase result } :=
        ⟨h.sound, h.ready, fun challenge hc => h.judged challenge (List.mem_of_mem_erase hc)⟩
      refine hrest.commit ?_
      intro store hstore
      obtain ⟨challenge, problem⟩ := result
      cases problem with
      | none =>
        exact h.sound.setChallengeStatus h.ready (fun _ => h.judged challenge hmem) hstore
      | some problem =>
        exact h.sound.setChallengeStatus h.ready (fun hv => absurd hv (by decide)) hstore
    next => cases hstep
  | finalise id =>
    simp only [next] at hstep
    split at hstep
    · split at hstep
      · cases hstep
        exact ⟨h.sound, h.ready, h.judged⟩
      · cases hstep
        exact h
    · cases hstep
      exact h
  | issueFails order =>
    simp only [next] at hstep
    split at hstep
    · cases hstep
      exact ⟨h.sound, h.ready, h.judged⟩
    · cases hstep
  | record order issued now =>
    simp only [next] at hstep
    split at hstep
    · cases hstep
      have hrest : Inv { s with finalising := s.finalising.erase order } :=
        ⟨h.sound, h.ready, h.judged⟩
      refine hrest.commit ?_
      intro store hstore
      obtain ⟨⟨store', recorded⟩, hrecord, rfl⟩ := map_eq_ok.mp hstore
      exact (h.sound.recordCertificate h.ready hrecord).2
    · cases hstep
  | revoke serial reason now =>
    cases hstep
    refine h.commit ?_
    intro store hstore
    obtain ⟨⟨store', revoked⟩, hrevoke, rfl⟩ := map_eq_ok.mp hstore
    exact h.sound.revoke h.ready hrevoke

theorem inv_reachable (hs : (server rules).system.Reachable s) : Inv s := by
  have hinv : (server rules).system.Invariant Inv := by
    refine ⟨?_, fun h hstep => h.step hstep⟩
    rintro s rfl
    refine ⟨Sound.empty, ?_, ?_⟩
    · intro o ho
      cases ho
    · intro challenge hjudged
      cases hjudged
  exact hinv.reachable hs

/-! ## Where certificates come from -/

theorem commit_certificates {ε : Type} {result : Except ε Store}
    (h : ∀ store, result = .ok store → store.certificates = s.store.certificates) :
    (s.commit result).store.certificates = s.store.certificates := by
  cases result with
  | error e => rfl
  | ok store => exact h store rfl

/-- A step records a certificate, revokes one, or leaves them all as they are. -/
theorem next_certificates {l : Label} (hstep : next rules s l = some t) :
    t.store.certificates = s.store.certificates ∨
      (∃ order issued now recorded, order ∈ s.finalising ∧
        l = .record order issued now ∧
        s.store.recordCertificate order.id issued now = .ok (t.store, recorded)) ∨
      (∃ serial reason now revoked,
        s.store.revoke serial reason now = .ok (t.store, revoked)) := by
  cases l with
  | createAccount jwk thumbprint contacts now =>
    cases hstep
    obtain ⟨accounts, haccounts⟩ :=
      createAccount_frame s.store jwk thumbprint contacts now
    left
    rw [haccounts]
  | newOrder permitted offered lifetime account request now tokens =>
    cases hstep
    left
    refine commit_certificates ?_
    intro store hstore
    obtain ⟨⟨store', id⟩, hnew, rfl⟩ := map_eq_ok.mp hstore
    obtain ⟨found, -, hnew⟩ := bind_eq_ok.mp hnew
    obtain ⟨authorisations, -, hnew⟩ := bind_eq_ok.mp hnew
    exact createOrder_certificates (mapError_eq_ok.mp hnew)
  | expireStale now =>
    cases hstep
    exact Or.inl rfl
  | deactivate authorisation =>
    cases hstep
    exact Or.inl (commit_certificates fun _ h => setAuthorisationStatus_certificates h)
  | respond challenge now =>
    simp only [next] at hstep
    split at hstep
    next store hstore =>
      cases hstep
      exact Or.inl (setChallengeStatus_certificates hstore)
    next =>
      cases hstep
      exact Or.inl rfl
  | resume =>
    cases hstep
    exact Or.inl rfl
  | validated validation outcome =>
    simp only [next] at hstep
    split at hstep
    · cases hstep
      exact Or.inl rfl
    · cases hstep
  | recordValidation result now =>
    simp only [next] at hstep
    split at hstep
    · cases hstep
      left
      refine commit_certificates ?_
      intro store hstore
      split at hstore
      · exact setChallengeStatus_certificates hstore
      · exact setChallengeStatus_certificates hstore
    · cases hstep
  | finalise id =>
    simp only [next] at hstep
    split at hstep
    · split at hstep
      · cases hstep
        exact Or.inl rfl
      · cases hstep
        exact Or.inl rfl
    · cases hstep
      exact Or.inl rfl
  | issueFails order =>
    simp only [next] at hstep
    split at hstep
    · cases hstep
      exact Or.inl rfl
    · cases hstep
  | record order issued now =>
    simp only [next] at hstep
    split at hstep
    next hmem =>
      cases hstep
      cases hrecord : s.store.recordCertificate order.id issued now with
      | error e => exact Or.inl rfl
      | ok result =>
        exact Or.inr (Or.inl ⟨order, issued, now, result.2, hmem, rfl, hrecord⟩)
    next => cases hstep
  | revoke serial reason now =>
    cases hstep
    cases hrevoke : s.store.revoke serial reason now with
    | error e => exact Or.inl rfl
    | ok result => exact Or.inr (Or.inr ⟨serial, reason, now, result.2, hrevoke⟩)

/-! ## Safety -/

/-- What makes an authorisation worth its status: a challenge of its own that a
validator accepted, by dns-01 if it is a wildcard's. -/
def Proven (s : State) (a : Authorisation) : Prop :=
  ∃ c ∈ s.store.challenges.rows, c.authorisation = a.id ∧ c.status = .valid ∧
    c.id ∈ s.accepted ∧ (a.wildcard = true → c.kind = .dns01)

/-- An order whose authorisations are all valid, each of them proven. -/
def Authorised (s : State) (order : Int) : Prop :=
  ∀ a ∈ s.store.authorisations.rows, a.order = order → a.status = .valid ∧ Proven s a

/-- The safety of issuance in one state. -/
structure IssuanceSafe (rules : NameRules) (s : State) : Prop where
  ready : ∀ o ∈ s.store.orders.rows, o.status = .ready → Authorised s o.id
  valid : ∀ a ∈ s.store.authorisations.rows, a.status = .valid → Proven s a
  /-- A wildcard's authorisation has dns-01 challenges only. -/
  wildcard : ∀ a ∈ s.store.authorisations.rows, a.wildcard = true →
    ∀ c ∈ s.store.challenges.rows, c.authorisation = a.id → c.kind = .dns01
  /-- An order is valid exactly when it names a certificate, which is its own. -/
  named : ∀ o ∈ s.store.orders.rows, o.status = .valid ↔
    ∃ c ∈ s.store.certificates.rows, o.certificate = some c.id ∧ c.order = o.id
  /-- No order has two certificates, and none that it has is ever taken away. -/
  one_certificate : ∀ c ∈ s.store.certificates.rows, ∀ c' ∈ s.store.certificates.rows,
    c.order = c'.order → c = c'
  kept : ∀ l t, next rules s l = some t → ∀ c ∈ s.store.certificates.rows,
    ∃ c' ∈ t.store.certificates.rows, c'.id = c.id ∧ c'.order = c.order
  /-- A certificate is recorded only for an order that is authorised at that
  instant and has none. -/
  recorded : ∀ l t, next rules s l = some t → ∀ c ∈ t.store.certificates.rows,
    (∃ c' ∈ s.store.certificates.rows, c'.id = c.id ∧ c'.order = c.order) ∨
      (Authorised s c.order ∧ ∀ c' ∈ s.store.certificates.rows, c'.order ≠ c.order)

theorem Inv.proven (h : Inv s) {a : Authorisation} (ha : a ∈ s.store.authorisations.rows)
    (hvalid : a.status = .valid) : Proven s a := by
  obtain ⟨c, hc, hcof, hcvalid⟩ := h.sound.authorisation_valid a ha hvalid
  exact ⟨c, hc, hcof, hcvalid, h.sound.challenge_accepted c hc hcvalid,
    fun hwild => h.sound.wildcard_dns01 a ha hwild c hc hcof⟩

theorem Inv.authorised (h : Inv s) {o : Order} (ho : o ∈ s.store.orders.rows)
    (hready : o.status = .ready) : Authorised s o.id := by
  intro a ha hof
  have hvalid := h.ready o ho hready a ha hof
  exact ⟨hvalid, h.proven ha hvalid⟩

theorem one_certificate {certificates : Certificates} {c c' : Certificate}
    (hc : c ∈ certificates.rows) (hc' : c' ∈ certificates.rows) (h : c.order = c'.order) :
    c = c' :=
  List.inj_on_of_nodup_map certificates.unique.orders hc hc' h

theorem kept_of_next {l : Label} (hstep : next rules s l = some t) {c : Certificate}
    (hc : c ∈ s.store.certificates.rows) :
    ∃ c' ∈ t.store.certificates.rows, c'.id = c.id ∧ c'.order = c.order := by
  rcases next_certificates hstep with hsame | ⟨_, _, _, _, -, -, hrecord⟩ |
    ⟨serial, _, _, _, hrevoke⟩
  · exact ⟨c, hsame ▸ hc, rfl, rfl⟩
  · obtain ⟨-, -, -, hrows, -⟩ := recordCertificate_ok hrecord
    exact ⟨c, hrows ▸ List.mem_append_left _ hc, rfl, rfl⟩
  · obtain ⟨-, -, hrows, -⟩ := revoke_ok hrevoke
    rw [hrows]
    cases hp : (c.serial = serial && c.revokedAt.isNone : Bool) with
    | false => exact ⟨c, mem_updateWhere_of_not hc hp, rfl, rfl⟩
    | true => exact ⟨_, mem_updateWhere_of hc hp, rfl, rfl⟩

theorem Inv.recorded (h : Inv s) {l : Label} (hstep : next rules s l = some t)
    {c : Certificate} (hc : c ∈ t.store.certificates.rows) :
    (∃ c' ∈ s.store.certificates.rows, c'.id = c.id ∧ c'.order = c.order) ∨
      (Authorised s c.order ∧ ∀ c' ∈ s.store.certificates.rows, c'.order ≠ c.order) := by
  rcases next_certificates hstep with hsame | ⟨order, _, _, recorded, -, -, hrecord⟩ |
    ⟨_, _, _, _, hrevoke⟩
  · exact Or.inl ⟨c, hsame ▸ hc, rfl, rfl⟩
  · obtain ⟨⟨-, -, -, -, o', ho', hrow⟩, -, -, hrows, -⟩ := recordCertificate_ok hrecord
    obtain ⟨⟨o, ho, hid, hready⟩, -⟩ := h.sound.recordCertificate h.ready hrecord
    have hunique := t.store.certificates.unique.orders
    rw [hrows] at hc hunique
    rcases List.mem_append.mp hc with hold | hnew
    · exact Or.inl ⟨c, hold, rfl, rfl⟩
    · right
      rw [List.mem_singleton.mp hnew]
      have horder : recorded.order = o.id := by
        rw [hrow, hid]
        exact ho'
      refine ⟨horder ▸ h.authorised ho hready, ?_⟩
      intro c' hc' heq
      rw [List.map_append, List.nodup_append] at hunique
      exact hunique.2.2 c'.order (List.mem_map_of_mem hc') recorded.order
        (List.mem_singleton_self _) heq
  · left
    obtain ⟨-, -, hrows, -⟩ := revoke_ok hrevoke
    rw [hrows] at hc
    obtain ⟨old, hold, rfl⟩ := mem_updateWhere.mp hc
    refine ⟨old, hold, ?_⟩
    split
    · exact ⟨rfl, rfl⟩
    · exact ⟨rfl, rfl⟩

/-- **Issuance is safe.**  In every state the server reaches, under any order of its
transactions, validations and signatures. -/
theorem issuance_safe (rules : NameRules) {s : State}
    (hs : (server rules).system.Reachable s) : IssuanceSafe rules s := by
  have h := inv_reachable hs
  refine ⟨?_, ?_, h.sound.wildcard_dns01, ?_, ?_, ?_, ?_⟩
  · intro o ho hready
    exact h.authorised ho hready
  · intro a ha hvalid
    exact h.proven ha hvalid
  · intro o ho
    rw [h.sound.valid_iff_named o ho]
    constructor
    · intro hsome
      obtain ⟨id, hid⟩ := Option.isSome_iff_exists.mp hsome
      obtain ⟨c, hc, hcid, hcof⟩ := h.sound.named o ho id hid
      exact ⟨c, hc, by rw [hid, hcid], hcof⟩
    · rintro ⟨c, -, hnames, -⟩
      rw [hnames]
      rfl
  · intro c hc c' hc' heq
    exact one_certificate hc hc' heq
  · intro l t hstep c hc
    exact kept_of_next hstep hc
  · intro l t hstep c hc
    exact h.recorded hstep hc

/-- One order for a wildcard, from its account to the revocation of its certificate. -/
def wildcardRun : List Label :=
  let validation : Validation := ⟨1, .dns01, "example.com", "t.thumb"⟩
  [.createAccount "{}" "thumb" [] 0,
    .newOrder ["example.com"] [.http01, .dns01] 1000 1
      ⟨[⟨"dns", "*.example.com"⟩], none, none⟩ 0 ["t"],
    .respond 1 1, .validated validation none, .recordValidation (1, none) 2, .finalise 1,
    .record ⟨1, 1, .ready, ["*.example.com"], none, none, 1000, none, none, 0⟩
      ⟨"7", none, ["*.example.com"], 0, 1000, "", "5"⟩ 3,
    .revoke "7" none 4]

theorem issuance_safe_wildcard :
    ∃ s : State, s.store.certificates.rows.map Certificate.order = [1] ∧
      s.store.orders.rows.map Order.status = [.valid] ∧ IssuanceSafe plainRules s := by
  obtain ⟨s, hs, hview⟩ := Machine.exists_reachable_of_exec
    (M := server plainRules) rfl wildcardRun
    (fun s => s.store.certificates.rows.map Certificate.order = [1] ∧
      s.store.orders.rows.map Order.status = [.valid])
    (by decide)
  obtain ⟨hcertificate, hstatus⟩ := of_decide_eq_true hview
  exact ⟨s, hcertificate, hstatus, issuance_safe plainRules hs⟩

end Opca.Acme

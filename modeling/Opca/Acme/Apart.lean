/-
  Acme/Apart.lean --- accounts kept apart in every run of the ACME server, whatever its
  handlers, validations, restarts and the operator interleave, and certificates revoked by
  those only who may revoke them, for good (`acme/server.rs`, `enrolled.rs`).
-/
import Opca.Acme.Isolation

set_option autoImplicit false

namespace Opca.Acme.Handlers

open Opca.Foundation Prog

variable {Jws Key : Type} {reading : Reading Jws Key} {caller : Caller} {post : Post}
  {s t : Shared}

/-! ## Revocations -/

theorem mem_reasons_of_reasonOf {reason reason' : Option Nat} (h : reasonOf reason = .ok reason') :
    ∀ code ∈ reason', code ∈ revocationReasons ∧ code ≠ 0 := by
  unfold reasonOf at h
  split at h
  · cases h
    simp
  · cases h
    simp
  next code hcode =>
    split at h
    next hmem =>
      cases h
      intro code' hcode'
      cases hcode'
      exact ⟨hmem, hcode⟩
    next => cases h

/-- Serials are unique, and a certificate keeps its. -/
theorem keeps_of_serial {store store' : Store} {P : Int → Prop} {C : Certificate → Prop}
    (hwithin : Within P C store store') {issued c : Certificate}
    (hissued : issued ∈ store.certificates.rows) (hc : c ∈ store'.certificates.rows)
    (hserial : c.serial = issued.serial) : CertificateKeeps issued c := by
  obtain ⟨c', hc', -, hkeeps, -⟩ := hwithin.certificates.kept issued hissued
  have hsame : c' = c := by
    refine List.inj_on_of_nodup_map store'.certificates.unique.serials hc' hc ?_
    rw [hkeeps.1, hserial]
  rw [← hsame]
  exact hkeeps

theorem isLeaf_of_chainPem {c c' : Certificate} (h : c'.chainPem = c.chainPem)
    (der : List UInt8) : isLeaf reading c' der = isLeaf reading c der := by
  unfold isLeaf
  rw [h]

theorem Does.revoke (hkeyed : Keyed s) :
    Does reading (.client .revoke post) (Shows reading (.client .revoke post))
      (revoke reading post) s := by
  apply Does.bind (Does.verify hkeyed)
  intro r t _ hr
  obtain ⟨jws, signer⟩ := r
  obtain ⟨hsigned, hnamed, -⟩ := hr
  apply Does.bind Does.parse
  intro request u htu _
  apply Does.bind Does.check
  intro der v huv _
  apply Does.bind Does.problem
  intro leaf w hvw hleaf
  have hinspect := mapError_eq_ok.mp hleaf
  apply Does.bind (Q := fun row x => ∀ issued ∈ row, issued.serial = leaf.serial ∧
    isLeaf reading issued der = true ∧ ∃ c ∈ x.store.certificates.rows,
      CertificateKeeps issued c)
  · apply Does.query
    intro x _ y hxy issued hissued
    obtain ⟨hfind, hisLeaf⟩ := Option.filter_eq_some_iff.mp hissued
    have hmem := List.mem_of_find?_eq_some hfind
    have hserial := List.find?_some hfind
    obtain ⟨c, hc, -, hkeeps, -⟩ := hxy.within.certificates.kept issued hmem
    exact ⟨of_decide_eq_true hserial, hisLeaf, c, hc, hkeeps⟩
  · intro row x hwx hrow
    apply Does.bind Does.found
    intro issued y hxy hfound
    obtain ⟨hserial, hisLeaf, c, hc, hkeeps⟩ := hrow issued hfound
    dsimp only
    split
    · exact Does.throw
    next hpermitted =>
      rw [Bool.not_eq_true', Bool.not_eq_false] at hpermitted
      apply Does.bind Does.check
      intro reason z hyz hreason
      apply Does.bind (Q := fun _ _ => True)
      · apply Does.transact
        intro z' moment store a hz hrevoke
        obtain ⟨⟨store', revoked⟩, hrevoked, heq⟩ := map_eq_ok.mp hrevoke
        cases heq
        refine ⟨Within.revoke ?_ hrevoked, Proper.revoke hrevoked, fun _ _ => trivial⟩
        intro c' hc' hserial' changed
        have hxz : Rely x z' := hxy.trans (hyz.trans hz)
        have hkeeps' : CertificateKeeps issued c' := by
          refine hkeeps.trans (keeps_of_serial hxz.within hc hc' ?_)
          rw [hserial', hkeeps.1, hserial]
        have hheld : ∀ given ∈ t.held, given ∈ (z'.withStore store').held := fun given hgiven =>
          List.mem_append_left _ ((htu.trans (huv.trans (hvw.trans (hwx.trans hxz)))).held given
            hgiven)
        refine ⟨?_, mem_reasons_of_reasonOf hreason⟩
        cases signer with
        | account account key =>
          refine .inl ?_
          have haccount : account.id = issued.account := of_decide_eq_true hpermitted
          show SignedBy reading post _ c'.account
          rw [hkeeps'.account, ← haccount]
          exact (hnamed.signedBy hsigned).mono hheld
        | key key =>
          refine .inr ⟨key, ⟨jws, hsigned, hnamed⟩, der, leaf, ?_, hinspect, hserial'.symm,
            of_decide_eq_true hpermitted⟩
          rw [isLeaf_of_chainPem (c := issued)]
          · exact hisLeaf
          · show c'.chainPem = issued.chainPem
            rw [hkeeps'.1]
      · intro _ _ _ _
        exact Does.pure fun _ _ => trivial

theorem leafToRevoke_ok {store : Store} {enrolled : Enrolled} {serial : String} {reason : Nat}
    {found : Certificate} (h : store.leafToRevoke enrolled serial reason = .ok found) :
    enrolled.revoked = false ∧ reason ∈ revocationReasons ∧
      found ∈ store.certificates.rows ∧ found.serial = serial ∧
      Store.issuedBy enrolled.issuers found = true := by
  unfold Store.leafToRevoke at h
  split at h
  · cases h
  next hrevoked =>
    split at h
    · cases h
    next hreason =>
      unfold Store.leafOf at h
      split at h
      · cases h
      next row hrow =>
        split at h
        next hours =>
          cases h
          refine ⟨by simpa using hrevoked, not_not.mp hreason, List.mem_of_find?_eq_some hrow,
            ?_, hours⟩
          exact of_decide_eq_true (List.find?_some
            (p := fun c : Certificate => decide (c.serial = serial)) hrow)
        next => cases h

/-- A leaf is revoked, or was already and is answered as it stands. -/
theorem revokeLeaf_cases {store store' : Store} {serial : String} {reason : Nat} {now : Time}
    {row : Certificate} (h : store.revokeLeaf serial reason now = .ok (store', row)) :
    store.revoke serial ((some reason).filter (· ≠ 0)) now = .ok (store', row) ∨
      store' = store ∧ row ∈ store.certificates.rows ∧ row.serial = serial := by
  unfold Store.revokeLeaf at h
  split at h
  next result hrevoke =>
    cases h
    exact .inl hrevoke
  next =>
    split at h
    next current hcurrent =>
      cases h
      refine .inr ⟨rfl, List.mem_of_find?_eq_some hcurrent, ?_⟩
      exact of_decide_eq_true (List.find?_some
        (p := fun c : Certificate => decide (c.serial = serial)) hcurrent)
    next => cases h
  next => cases h

theorem issuedBy_of_keeps {c c' : Certificate} (h : CertificateKeeps c c')
    (issuers : Option (List String)) : Store.issuedBy issuers c' = Store.issuedBy issuers c := by
  unfold Store.issuedBy
  rw [h.1]

theorem Does.revokeLeaf {enrolled : Enrolled} {serial : String} {reason : Nat} :
    Does reading (.operator enrolled serial reason)
      (Shows reading (.operator enrolled serial reason))
      (revokeLeaf enrolled serial reason) s := by
  apply Does.bind (Q := fun row t => ∀ found, row = .ok found →
    enrolled.revoked = false ∧ reason ∈ revocationReasons ∧ found.serial = serial ∧
      Store.issuedBy enrolled.issuers found = true ∧
      ∃ c ∈ t.store.certificates.rows, CertificateKeeps found c)
  · apply Does.query
    intro t _ u htu found hfound
    obtain ⟨hrevoked, hreason, hmem, hserial, hours⟩ := leafToRevoke_ok hfound
    obtain ⟨c, hc, -, hkeeps, -⟩ := htu.within.certificates.kept found hmem
    exact ⟨hrevoked, hreason, hserial, hours, c, hc, hkeeps⟩
  · intro row t _ hrow
    apply Does.bind Does.check
    intro found u htu hfound
    obtain ⟨hrevoked, hreason, hserial, hours, c, hc, hkeeps⟩ :=
      hrow found (mapError_eq_ok.mp hfound)
    split
    · exact Does.pure fun _ _ => ⟨enrolled, serial, reason, rfl, hours⟩
    · apply Does.bind (Q := fun row _ => Store.issuedBy enrolled.issuers row = true)
      · apply Yields.attempt
        intro v moment huv
        -- the leaf that there is now with the serial is the one that was found
        have hsame {c' : Certificate} (hc' : c' ∈ v.store.certificates.rows)
            (hserial' : c'.serial = serial) : Store.issuedBy enrolled.issuers c' = true := by
          have hkeeps' : CertificateKeeps found c' := by
            refine hkeeps.trans (keeps_of_serial (htu.trans huv).within hc hc' ?_)
            rw [hserial', hkeeps.1, hserial]
          rw [issuedBy_of_keeps hkeeps']
          exact hours
        cases hleaf : v.store.revokeLeaf serial reason moment.now with
        | error e =>
          refine ⟨Guarantee.refl v, ?_⟩
          intro row hrow
          cases hrow
        | ok result =>
          obtain ⟨store, row⟩ := result
          rcases revokeLeaf_cases hleaf with hdone | ⟨rfl, hmem, hrowSerial⟩
          · obtain ⟨⟨old, hold, holdSerial, -, hrow⟩, -⟩ := revoke_ok hdone
            refine ⟨Guarantee.withStore (Within.revoke ?_ hdone) (Proper.revoke hdone), ?_⟩
            · intro c' hc' hserial' changed
              refine ⟨hrevoked, ?_, hserial', hreason, rfl⟩
              simp only [Store.issuedBy]
              exact hsame hc' hserial'
            · intro row' hrow' _ _
              cases hrow'
              rw [hrow]
              simp only [Store.issuedBy]
              exact hsame hold holdSerial
          · refine ⟨Guarantee.withStore (Within.refl v.store) (Proper.refl v.store), ?_⟩
            intro row' hrow' _ _
            cases hrow'
            exact hsame hmem hrowSerial
      · intro row v _ hrow
        exact Does.pure fun _ _ => ⟨enrolled, serial, reason, rfl, hrow⟩

/-! ## Every run -/

section Runs

variable (reading) (rules : NameRules) (fromDer : List UInt8 → Except String Csr)
  (describeName : SubjectAltName → String) (describeKey : KeyDescription → String)
  (lifetime : Time) (capacity : Nat)

theorem Does.handle (caller : Caller) (hkeyed : Keyed s) :
    (handle reading rules fromDer describeName describeKey lifetime caller).Safe Rely
      (Guarantee reading caller) (Answers (Shows reading caller)) s := by
  cases caller with
  | operator enrolled serial reason => exact Does.revokeLeaf
  | client route post =>
    cases route with
    | newAccount => exact Does.newAccount hkeyed
    | account id => exact Does.account hkeyed
    | orders id => exact Does.orders hkeyed
    | keyChange => exact Does.keyChange hkeyed
    | newOrder => exact Does.newOrder hkeyed
    | order id => exact Does.order hkeyed
    | finalise id => exact Does.finalise hkeyed
    | authorisation id => exact Does.authorisation hkeyed
    | challenge id => exact Does.challenge hkeyed
    | certificate id => exact Does.certificate hkeyed
    | revoke => exact Does.revoke hkeyed

theorem recorded_ok {store store' : Store} {result : Judgement} {now : Time}
    (h : recorded store result now = .ok store') :
    ∃ next error, (next = .valid ∧ result.outcome = none ∨ next = .invalid) ∧
      store.setChallengeStatus result.challenge next error now = .ok store' := by
  obtain ⟨challenge, problem⟩ := result
  cases problem with
  | none => exact ⟨.valid, none, .inl ⟨rfl, rfl⟩, h⟩
  | some problem => exact ⟨.invalid, some problem, .inr rfl, h⟩

/-- The result of a validation changes the rows of the challenge's account only. -/
theorem recorded_within {store store' : Store} {result : Judgement} {now : Time}
    (h : recorded store result now = .ok store') :
    Within (ChallengeOf store · result.challenge) (fun _ => False) store store' := by
  obtain ⟨next, error, -, hset⟩ := recorded_ok h
  refine Within.setChallengeStatus ?_ hset
  intro c hc hid x hx hxid o ho hoid
  exact ⟨c, hc, hid, x, hx, hxid, o, ho, hoid, rfl⟩

/-- An event leaves the tables and the keys, or records a validation. -/
theorem event_cases {e : Event} (h : event capacity s e = some t) :
    t.store = s.store ∧ t.held = s.held ∨
      ∃ result now store, e = .recordValidation result now ∧ result ∈ s.judged ∧
        recorded s.store result now = .ok store ∧ t.store = store ∧
        t.held = s.held ++ store.accounts.rows.map heldKey := by
  cases e with
  | issueNonce | setIssuer | setPaused | restart =>
    cases h
    exact .inl ⟨rfl, rfl⟩
  | resume =>
    simp only [event] at h
    split at h
    · cases h
      exact .inl ⟨rfl, rfl⟩
    · cases h
      exact .inl ⟨rfl, rfl⟩
  | validated validation outcome =>
    simp only [event] at h
    split at h
    · cases h
      exact .inl ⟨rfl, rfl⟩
    · cases h
  | loseValidation result =>
    simp only [event] at h
    split at h
    · cases h
      exact .inl ⟨rfl, rfl⟩
    · cases h
  | recordValidation result now =>
    simp only [event] at h
    split at h
    next hmem =>
      split at h
      next store hrecorded =>
        cases h
        exact .inr ⟨result, now, store, rfl, hmem, hrecorded, rfl, rfl⟩
      next =>
        cases h
        exact .inl ⟨rfl, rfl⟩
    next => cases h

theorem rely_of_event {e : Event} (h : event capacity s e = some t) : Rely s t := by
  rcases event_cases capacity h with ⟨hstore, hheld⟩ |
    ⟨result, now, store, -, -, hrecorded, hstore, hheld⟩
  · exact Rely.of_eq hstore hheld
  · have hwithin : Within (fun _ => True) (fun _ => True) s.store store :=
      (recorded_within hrecorded).mono (fun _ _ => trivial) fun _ _ _ => trivial
    exact (Rely.withStore hwithin).trans (Rely.of_eq hstore hheld)

/-- The handlers keep to what they guarantee each other. -/
theorem disciplined : Disciplined Starts
    (handle reading rules fromDer describeName describeKey lifetime) (event capacity) Keyed Rely
    (Guarantee reading) (fun caller => Answers (Shows reading caller)) where
  refl := Rely.refl
  trans := Rely.trans
  start hstarts row hrow := by
    obtain ⟨-, -, -, -, hheld⟩ := hstarts
    rw [hheld]
    exact List.mem_map_of_mem hrow
  kept hkeyed hst := hst.keyed hkeyed
  guarantee h := h.rely
  event h := rely_of_event capacity h
  safe caller _ hkeyed :=
    Does.handle reading rules fromDer describeName describeKey lifetime caller hkeyed
  stable {_ answer _ _} h hst := by
    cases answer with
    | error e => trivial
    | ok answer => exact Shows.rely h hst

end Runs

/-! ## What an account holds -/

inductive Row where
  | account (row : Account)
  | order (row : Order)
  | authorisation (row : Authorisation)
  | challenge (row : Challenge)
  deriving DecidableEq, Repr

/-- The row is there and is `account`'s. -/
def Holds (s : Store) (account : Int) : Row → Prop
  | .account row => row ∈ s.accounts.rows ∧ row.id = account
  | .order row => row ∈ s.orders.rows ∧ row.account = account
  | .authorisation row => row ∈ s.authorisations.rows ∧ Placed s account row.order
  | .challenge row => row ∈ s.challenges.rows ∧ AuthorisationOf s account row.authorisation

section

variable {P : Int → Prop} {C : Certificate → Prop} {store store' : Store} {account : Int}

theorem placed_iff (h : Within P C store store') (hnot : ¬ P account) {id : Int} :
    Placed store' account id ↔ Placed store account id := by
  constructor
  · intro hplaced
    obtain ⟨o, ho, hid, rfl⟩ := hplaced
    exact ⟨o, (h.mem_orders_iff hnot).mp ho, hid, rfl⟩
  · exact h.placed

theorem authorisationOf_iff (h : Within P C store store') (hnot : ¬ P account) {id : Int} :
    AuthorisationOf store' account id ↔ AuthorisationOf store account id := by
  constructor
  · intro hof
    obtain ⟨x, hx, hid, hplaced⟩ := hof
    have hplaced' := (placed_iff h hnot).mp hplaced
    exact ⟨x, ((h.mem_authorisations_iff hnot).mp ⟨hx, hplaced'⟩).1, hid, hplaced'⟩
  · exact h.authorisationOf

/-- Accounts that are no one's to change hold what they held. -/
theorem holds_iff (h : Within P C store store') (hnot : ¬ P account) (row : Row) :
    Holds store' account row ↔ Holds store account row := by
  cases row with
  | account row =>
    refine and_congr_left fun hid => h.mem_accounts_iff ?_
    rw [hid]
    exact hnot
  | order row =>
    refine and_congr_left fun hof => h.mem_orders_iff ?_
    rw [hof]
    exact hnot
  | authorisation row =>
    simp only [Holds, placed_iff h hnot]
    exact h.mem_authorisations_iff hnot
  | challenge row =>
    simp only [Holds, authorisationOf_iff h hnot]
    exact h.mem_challenges_iff hnot

end

/-! ## A run -/

structure ReadJws where
  header : ProtectedHeader String
  signedBy : String
  payload : List UInt8

/-- A key is its own JSON; a body is one of two requests signed by the key `k1`. -/
def sampledReading : Reading ReadJws String where
  parse
    | [1] => .ok ⟨⟨"https://ca/acme/new-account", some "n", .jwk "k1"⟩, "k1", [1]⟩
    | [2] => .ok ⟨⟨"https://ca/acme/revoke-cert", some "n", .kid "https://ca/acme/account/1"⟩,
        "k1", [2]⟩
    | _ => .error ⟨.other, "no JWS"⟩
  header := ReadJws.header
  verify jws key :=
    if jws.signedBy = key then .ok () else .error ⟨.other, "the signature does not verify"⟩
  fromJson text := .ok text
  toCanonicalJson key := key
  thumbprint key := key
  payload := ReadJws.payload
  keyChange _ _ := .error ⟨.other, "no key change"⟩
  subjectPublicKeyInfo key := if key = "k1" then [1] else []
  accountRequest _ := .ok ⟨none, false, none⟩
  orderRequest _ := .error "no order"
  finaliseRequest _ := .error "no CSR"
  deactivation _ := .error "no status"
  object _ := .error "no object"
  revocationRequest _ := .ok ⟨"leaf", some 1⟩
  fromBase64url text := if text = "leaf" then some [7] else none
  stamp _ := none
  inspect der := if der = [7] then .ok ⟨"7", [9]⟩ else .error "no certificate"
  certificates pem := if pem = "leaf" then some [[7]] else none

def sampledPost (path : String) (body : List UInt8) : Post :=
  ⟨"https://ca", "https://ca" ++ path, "https://ca/acme/account/", body⟩

def sampledMoment (now : Time) : Moment := ⟨now, [], fun _ => .error "no signature"⟩

def sampledHandlers : Machine (Pool Shared Moment Caller (Except Declined Answer))
    (PoolLabel Moment Caller Event) :=
  handlers sampledReading plainRules (fun _ => .error "no CSR") (fun _ => "a name")
    (fun _ => "a key") 0 4096

/-- A pool over a database, with no one under way. -/
def sampledPool (store : Store) : Pool Shared Moment Caller (Except Declined Answer) where
  state := {
    store
    nonces := ⟨∅, []⟩
    issuer := none
    paused := false
    resumed := false
    validating := []
    judged := []
    held := store.accounts.rows.map heldKey }
  threads := []
  answers := []

theorem init_sampledPool (store : Store) : sampledHandlers.init (sampledPool store) :=
  ⟨⟨rfl, rfl, rfl, rfl, rfl⟩, rfl, rfl⟩

def firstAccount : Account := ⟨1, "k1", "k1", .valid, [], 5⟩

def firstAccounts : Table Account Account.id := ⟨[firstAccount], by decide⟩

/-- A request for a new account, as far as the account is to be made. -/
def requested : List (PoolLabel Moment Caller Event) :=
  [.environment (.issueNonce "n"),
    .start (.client .newAccount (sampledPost "/acme/new-account" [1])),
    .run 0 (sampledMoment 1), .run 0 (sampledMoment 2), .run 0 (sampledMoment 3)]

/-- The account is about to be made. -/
theorem reachable_requested : ∃ p, sampledHandlers.system.Reachable p ∧
    p.state.store.accounts.rows = [] ∧
    ∃ q, sampledHandlers.next p (.run 0 (sampledMoment 5)) = some q ∧
      q.state.store.accounts.rows = [firstAccount] := by
  obtain ⟨p, hp, hview⟩ := Machine.exists_reachable_of_exec
    (init_sampledPool .empty) requested
    (fun p => p.state.store.accounts.rows = [] ∧
      (sampledHandlers.next p (.run 0 (sampledMoment 5))).any
        fun q => q.state.store.accounts.rows = [firstAccount])
    (by decide)
  obtain ⟨hbefore, hafter⟩ := of_decide_eq_true hview
  obtain ⟨q, hstep, hmade⟩ := (Option.any_eq_true _ _).mp hafter
  exact ⟨p, hp, hbefore, q, hstep, of_decide_eq_true hmade⟩

section Theorems

variable {rules : NameRules} {fromDer : List UInt8 → Except String Csr}
  {describeName : SubjectAltName → String} {describeKey : KeyDescription → String}
  {lifetime : Time} {capacity : Nat} {p q : Pool Shared Moment Caller (Except Declined Answer)}

/-- **Accounts are apart.**  In every run, when a step changes what an account holds, it is
an action of a request signed with a key that the account was given, or the expiry of what
is stale, or the result of a validation of one of the account's own challenges. -/
theorem accounts_apart
    (hp : (handlers reading rules fromDer describeName describeKey lifetime
      capacity).system.Reachable p)
    {l : PoolLabel Moment Caller Event}
    (hstep : (handlers reading rules fromDer describeName describeKey lifetime capacity).next p l
      = some q) {account : Int} {row : Row}
    (hchanged : ¬ (Holds q.state.store account row ↔ Holds p.state.store account row)) :
    (∃ place moment caller program, l = .run place moment ∧
      p.threads[place]? = some (caller, program) ∧
      (Acts reading caller q.state.held account ∨
        ∃ now, q.state.store = (p.state.store.expireStale now).1)) ∨
    ∃ result now, l = .environment (.recordValidation result now) ∧ result ∈ p.state.judged ∧
      ChallengeOf p.state.store account result.challenge := by
  have hd := disciplined reading rules fromDer describeName describeKey lifetime
    capacity
  rcases Pool.step_cases hd hp hstep with hsame | ⟨place, moment, thread, rfl, hthread, hG⟩ |
    ⟨e, rfl, hevent⟩
  · rw [hsame] at hchanged
    exact absurd Iff.rfl hchanged
  · refine .inl ⟨place, moment, thread.1, thread.2, rfl, hthread, ?_⟩
    rcases hG.rows with hexpired | hwithin
    · exact .inr hexpired
    · by_contra hnot
      rw [not_or] at hnot
      exact hchanged (holds_iff hwithin hnot.1 row)
  · rcases event_cases capacity hevent with ⟨hstore, -⟩ |
      ⟨result, now, store, rfl, hjudged, hrecorded, hstore, -⟩
    · rw [hstore] at hchanged
      exact absurd Iff.rfl hchanged
    · refine .inr ⟨result, now, rfl, hjudged, ?_⟩
      by_contra hnot
      rw [hstore] at hchanged
      exact hchanged (holds_iff (recorded_within hrecorded) hnot row)

theorem accounts_apart_requested :
    ∃ p q : Pool Shared Moment Caller (Except Declined Answer),
      sampledHandlers.next p (.run 0 (sampledMoment 5)) = some q ∧
      q.state.store.accounts.rows = [firstAccount] ∧
      ∃ caller program, p.threads[0]? = some (caller, program) ∧
        (Acts sampledReading caller q.state.held 1 ∨
          ∃ now, q.state.store = (p.state.store.expireStale now).1) := by
  obtain ⟨p, hp, hbefore, q, hstep, hafter⟩ := reachable_requested
  have hchanged : ¬ (Holds q.state.store 1 (.account firstAccount) ↔
      Holds p.state.store 1 (.account firstAccount)) := by
    simp [Holds, hbefore, hafter, firstAccount]
  rcases accounts_apart hp hstep hchanged with
    ⟨place, moment, caller, program, hl, hthread, hacts⟩ | ⟨result, now, hl, -⟩
  · cases hl
    exact ⟨p, q, hstep, hafter, caller, program, hthread, hacts⟩
  · cases hl

/-- **No answer shows another account's.**  What a caller was answered in a run is, to its
end, of accounts that the caller's signature was good for. -/
theorem answers_apart
    (hp : (handlers reading rules fromDer describeName describeKey lifetime
      capacity).system.Reachable p)
    {caller : Caller} {answer : Answer} (hanswer : (caller, .ok answer) ∈ p.answers) :
    Shows reading caller answer p.state := by
  have hd := disciplined reading rules fromDer describeName describeKey lifetime
    capacity
  exact (Pool.kept hd hp).answers _ hanswer

theorem answers_apart_requested :
    ∃ p : Pool Shared Moment Caller (Except Declined Answer),
      Shows sampledReading (.client .newAccount (sampledPost "/acme/new-account" [1]))
        (.account firstAccount true) p.state := by
  obtain ⟨p, hp, hview⟩ := Machine.exists_reachable_of_exec (init_sampledPool .empty)
    (requested ++ [.run 0 (sampledMoment 5), .run 0 (sampledMoment 6)])
    (fun p => (Caller.client .newAccount (sampledPost "/acme/new-account" [1]),
      Except.ok (Answer.account firstAccount true)) ∈ p.answers)
    (by decide)
  exact ⟨p, answers_apart hp (of_decide_eq_true hview)⟩

/-- **Revocation is authorised, and final.**  A certificate appears or changes only by the
request of the account that ordered it, by its own key's or by the operator's; it is the
certificate that it was but for being revoked, and a revoked one never changes again. -/
theorem revocation_final
    (hp : (handlers reading rules fromDer describeName describeKey lifetime
      capacity).system.Reachable p) :
    (∀ {l : PoolLabel Moment Caller Event} {q : Pool Shared Moment Caller (Except Declined Answer)},
      (handlers reading rules fromDer describeName describeKey lifetime capacity).next p l
        = some q →
      ∀ c ∈ q.state.store.certificates.rows, c ∉ p.state.store.certificates.rows →
        ∃ place moment caller program, l = .run place moment ∧
          p.threads[place]? = some (caller, program) ∧
          Certifies reading caller q.state.held c) ∧
    ∀ {q : Pool Shared Moment Caller (Except Declined Answer)},
      (handlers reading rules fromDer describeName describeKey lifetime
        capacity).system.Reaches p q →
      ∀ c ∈ p.state.store.certificates.rows, ∃ c' ∈ q.state.store.certificates.rows,
        c'.id = c.id ∧ CertificateKeeps c c' := by
  have hd := disciplined reading rules fromDer describeName describeKey lifetime
    capacity
  constructor
  · intro l q hstep c hc hnew
    rcases Pool.step_cases hd hp hstep with hsame | ⟨place, moment, thread, rfl, hthread, hG⟩ |
      ⟨e, rfl, hevent⟩
    · rw [hsame] at hc
      exact absurd hc hnew
    · refine ⟨place, moment, thread.1, thread.2, rfl, hthread, ?_⟩
      rcases hG.rows with ⟨now, hexpired⟩ | hwithin
      · rw [hexpired] at hc
        exact absurd hc hnew
      · by_contra hnot
        exact hnew (hwithin.certificates.mem_of_mem_after q.state.store.certificates.unique.ids hc
          hnot)
    · rcases event_cases capacity hevent with ⟨hstore, -⟩ |
        ⟨result, now, store, rfl, -, hrecorded, hstore, -⟩
      · rw [hstore] at hc
        exact absurd hc hnew
      · rw [hstore] at hc
        refine absurd ?_ hnew
        exact (recorded_within hrecorded).certificates.mem_of_mem_after
          store.certificates.unique.ids hc not_false
  · intro q hreaches c hc
    obtain ⟨c', hc', hid, hkeeps, -⟩ := (Pool.reaches hd hp hreaches).within.certificates.kept c hc
    exact ⟨c', hc', hid, hkeeps⟩

/-- A database with an account and a certificate that it ordered. -/
def issuedStore : Store := { Store.empty with
  accounts := firstAccounts
  certificates := ⟨[⟨1, "7", 1, 1, none, ["a.example"], 0, 100, "leaf", "5", none, none, 0, 1⟩],
    uniqueCertificates_singleton _⟩ }

theorem revocation_final_requested :
    ∃ p q : Pool Shared Moment Caller (Except Declined Answer),
      q.state.store.certificates.rows.map Certificate.revokedAt = [some 5] ∧
      ∀ c ∈ q.state.store.certificates.rows, c ∉ p.state.store.certificates.rows →
        ∃ caller program, p.threads[0]? = some (caller, program) ∧
          Certifies sampledReading caller q.state.held c := by
  obtain ⟨p, hp, hview⟩ := Machine.exists_reachable_of_exec (init_sampledPool issuedStore)
    [.environment (.issueNonce "n"), .start (.client .revoke (sampledPost "/acme/revoke-cert" [2])),
      .run 0 (sampledMoment 1), .run 0 (sampledMoment 2), .run 0 (sampledMoment 3)]
    (fun p => (sampledHandlers.next p (.run 0 (sampledMoment 5))).any
      fun q => q.state.store.certificates.rows.map Certificate.revokedAt = [some 5])
    (by decide)
  obtain ⟨q, hstep, hrevoked⟩ := (Option.any_eq_true _ _).mp hview
  refine ⟨p, q, of_decide_eq_true hrevoked, ?_⟩
  intro c hc hnew
  obtain ⟨place, moment, caller, program, hl, hthread, hcertifies⟩ :=
    (revocation_final hp).1 hstep c hc hnew
  cases hl
  exact ⟨caller, program, hthread, hcertifies⟩

end Theorems

end Opca.Acme.Handlers

/-
  Acme/Handlers.lean --- the ACME API's handlers, each a program whose store transactions
  other handlers' come between, with the validations that run beside them
  (`acme/server.rs`), and the operator's revocation of a leaf (`enrolled.rs`).

  A handler stops wherever its client goes away, and fails wherever the database does: it
  is then under way no more.
-/
import Opca.Acme.Enrolled
import Opca.Acme.Issue
import Opca.Acme.Requests
import Opca.Foundation.Concurrent

set_option autoImplicit false

namespace Opca.Acme.Handlers

open Opca.Foundation Prog

/-! ## Payloads -/

structure AccountRequest where
  contact : Option (List String)
  onlyReturnExisting : Bool
  status : Option String
  deriving DecidableEq, Repr

/-- A `new-order` payload, its times as texts. -/
structure OrderPayload where
  identifiers : List Identifier
  notBefore : Option String
  notAfter : Option String
  deriving DecidableEq, Repr

structure RevocationRequest where
  certificate : String
  reason : Option Nat
  deriving DecidableEq, Repr

/-- What `inspect` reads of a leaf that a revocation asks about. -/
structure LeafView where
  /-- Decimal. -/
  serial : String
  spki : List UInt8
  deriving DecidableEq, Repr

/-- What the handlers take from the crates that read JSON, base64url, times and X.509, and
the rest of what they take from the JOSE crate. -/
structure Reading (Jws Key : Type) extends Jose Jws Key where
  payload : Jws → List UInt8
  /-- The inner JWS of a key change, checked: the account it names and the new key. -/
  keyChange : Jws → Key → Except JoseError (String × Key)
  subjectPublicKeyInfo : Key → List UInt8
  accountRequest : List UInt8 → Except String AccountRequest
  orderRequest : List UInt8 → Except String OrderPayload
  /-- The `csr` of a finalise request. -/
  finaliseRequest : List UInt8 → Except String String
  /-- The `status` of a deactivation. -/
  deactivation : List UInt8 → Except String String
  /-- Any JSON object. -/
  object : List UInt8 → Except String Unit
  revocationRequest : List UInt8 → Except String RevocationRequest
  fromBase64url : String → Option (List UInt8)
  stamp : String → Option Time
  inspect : List UInt8 → Except String LeafView
  certificates : String → Option (List (List UInt8))

/-! ## Answers -/

/-- An answer that is no success: a problem, one of a type that only the handlers use, or
one with a status of its own. -/
inductive Declined where
  | problem (problem : Problem)
  | unsupportedContact (detail : String)
  | invalidContact (detail : String)
  | badRevocationReason (detail : String)
  | notFound (what : String)
  | paused
  | keyInUse (location : String)
  | operator (error : ErrorBody)
  deriving DecidableEq, Repr

inductive Answer where
  | account (row : Account) (made : Bool)
  | orders (ids : List Int)
  | order (row : Order) (authorisations : List Int)
  | authorisation (row : Authorisation) (challenges : List Challenge)
  | challenge (row : Challenge)
  | certificate (chainPem : String)
  | revoked
  /-- The operator's answer. -/
  | leaf (row : Certificate)
  deriving DecidableEq, Repr

/-- What a store error is answered with. -/
def stored : StoreError → Declined
  | .notFound table _ => .notFound table
  | .transition table fromStatus toStatus =>
    .problem (malformed (StoreError.transition table fromStatus toStatus).text)
  | .alreadyRevoked serial =>
    .problem ⟨.alreadyRevoked, (StoreError.alreadyRevoked serial).text⟩
  | error => .problem ⟨.serverInternal, error.text⟩

/-! ## What the handlers share -/

/-- A key that an account was given. -/
structure HeldKey where
  account : Int
  jwk : String
  thumbprint : String
  deriving DecidableEq, Repr

def heldKey (row : Account) : HeldKey := ⟨row.id, row.jwk, row.thumbprint⟩

/-- What a validator answered of a challenge. -/
structure Judgement where
  challenge : Int
  outcome : Option Problem
  deriving DecidableEq, Repr

structure Shared where
  store : Store
  nonces : Nonces
  issuer : Option Issuer
  paused : Bool
  resumed : Bool
  /-- Validations in the background. -/
  validating : List Validation
  /-- Challenges whose validator has answered, and whose result is not yet recorded. -/
  judged : List Judgement
  /-- Every key an account was given; no one keeps this. -/
  held : List HeldKey

namespace Shared

/-- The state once a transaction has left the tables as `store`; an account's keys of then
are among those it was given. -/
def withStore (s : Shared) (store : Store) : Shared :=
  { s with store, held := s.held ++ store.accounts.rows.map heldKey }

@[simp] theorem store_withStore (s : Shared) (store : Store) :
    (s.withStore store).store = store := rfl

end Shared

/-- What comes from outside while an action runs. -/
structure Moment where
  now : Time
  /-- What the random source gives. -/
  tokens : List String
  /-- The leaf's serial and PEM. -/
  sign : Leaf → Except String (String × String)

abbrev Handler (α : Type) := ExceptT Declined (Prog Shared Moment) α

section Steps

variable {α : Type}

/-- A transaction. -/
def transact (f : Store → Moment → Except StoreError (Store × α)) : Handler α :=
  attempt fun s moment =>
    match f s.store moment with
    | .ok (store, a) => (s.withStore store, .ok a)
    | .error e => (s, .error (stored e))

/-- A query. -/
def query (f : Store → α) : Handler α := attempt fun s _ => (s, .ok (f s.store))

def found (row : Option α) (what : String) : Handler α :=
  settled (row.elim (.error (.notFound what)) .ok)

def problem (result : Except Problem α) : Handler α := settled (result.mapError .problem)

/-- A payload that must read. -/
def parse (result : Except String α) : Handler α :=
  settled (result.mapError fun e => .problem (malformed ("the payload: " ++ e)))

def clock : Handler Time := attempt fun s moment => (s, .ok moment.now)

end Steps

/-- A JWS-signed POST to its URL. -/
structure Post where
  base : String
  url : String
  accounts : String
  body : List UInt8
  deriving DecidableEq, Repr

inductive Route where
  | newAccount
  | account (id : Int)
  | orders (id : Int)
  | keyChange
  | newOrder
  | order (id : Int)
  | finalise (id : Int)
  | authorisation (id : Int)
  | challenge (id : Int)
  | certificate (id : Int)
  | revoke
  deriving DecidableEq, Repr

/-- A contact is the mailto: URL of one email address. -/
def contactOf (contact : String) : Except Declined String :=
  match stripPrefix "mailto:" contact with
  | none => .error (.unsupportedContact (contact.quote ++ " is not a mailto: URL"))
  | some address =>
    let user := address.toList.takeWhile (· ≠ '@')
    let host := (address.toList.dropWhile (· ≠ '@')).drop 1
    if !user.isEmpty && !host.isEmpty && !address.toList.any ([',', '?', ' '].contains ·) then
      .ok contact
    else .error (.invalidContact (contact.quote ++ " is not one email address"))

def contacts (contacts : List String) : Except Declined (List String) := contacts.mapM contactOf

def notOwned : Problem := ⟨.unauthorized, "that belongs to another account"⟩

def ownedBy (account : Account) (owner : Int) : Handler Unit :=
  settled (if account.id = owner then .ok () else .error (.problem notOwned))

/-- A POST-as-GET carries an empty payload. -/
def asGet (payload : List UInt8) : Handler Unit :=
  settled (if payload.isEmpty then .ok ()
    else .error (.problem (malformed "a POST-as-GET has an empty payload")))

section Routes

variable {Jws Key : Type} (reading : Reading Jws Key) (rules : NameRules)
  (fromDer : List UInt8 → Except String Csr) (describeName : SubjectAltName → String)
  (describeKey : KeyDescription → String)

namespace Post

variable (post : Post)

/-- The JWS and its signer: the account is read, and then the nonce is redeemed. -/
def verify (rule : KeyRule) : Handler (Jws × Signer Key) := do
  let flight ← attempt fun s _ => (s, (openRequest reading.toJose s.store post.body post.url rule
    post.accounts).mapError .problem)
  attempt fun s _ =>
    match closeRequest reading.toJose s.nonces flight with
    | (.ok (), nonces) => ({ s with nonces }, .ok (flight.jws, flight.signer))
    | (.error e, nonces) => ({ s with nonces }, .error (.problem e))

/-- The account that signed this by `kid`, its key, and the payload. -/
def byAccount : Handler (Account × Key × List UInt8) := do
  let (jws, signer) ← post.verify reading .kid
  match signer with
  | .account account key => pure (account, key, reading.payload jws)
  -- `KeyRule::Kid` yields an account
  | .key _ => throw (.problem ⟨.serverInternal, "unreachable"⟩)

/-- The account that asks for its key to change, and the new key. -/
def verifyKeyChange : Handler (Account × Key) := do
  let (jws, signer) ← post.verify reading .kid
  match signer with
  | .account account key =>
    let (named, newKey) ← problem ((reading.keyChange jws key).mapError refused)
    if named ≠ accountUrl post.accounts account.id then
      throw (.problem (malformed "the key change names another account"))
    else pure (account, newKey)
  | .key _ => throw (.problem ⟨.serverInternal, "unreachable"⟩)

end Post

/-! ## The rows a handler looks up -/

def expireStale : Handler Unit :=
  transact fun store moment => .ok ((store.expireStale moment.now).1, ())

/-- The order `id` and its authorisations, if `account` placed it. -/
def ownedOrder (id : Int) (account : Account) : Handler (Order × List Int) := do
  let row ← query fun store => (store.orders.get? id).map fun order =>
    (order, (store.authorisations.rows.filter (·.order = id)).map Authorisation.id)
  let (order, authorisations) ← found row "order"
  ownedBy account order.account
  pure (order, authorisations)

/-- Once stale orders have expired. -/
def orderOf (id : Int) (account : Account) : Handler (Order × List Int) := do
  expireStale
  ownedOrder id account

def authorisationOf (id : Int) (account : Account) :
    Handler (Authorisation × List Challenge) := do
  expireStale
  let row ← query fun store => (store.authorisations.get? id).map fun authorisation =>
    (authorisation, store.challenges.rows.filter (·.authorisation = id))
  let (authorisation, challenges) ← found row "authorisation"
  let _ ← ownedOrder authorisation.order account
  pure (authorisation, challenges)

def issuing : Handler Issuer := attempt fun s _ =>
  (s, if s.paused then .error .paused
    else s.issuer.elim (.error (.problem ⟨.serverInternal, "not issuing yet"⟩)) .ok)

/-! ## The handlers -/

/-- The account with the key, found or made; and whether this made it. -/
def accountFor (request : AccountRequest) (key : Key) : Handler (Account × Bool) := do
  let thumbprint := reading.thumbprint key
  let existing ← query fun store => store.accounts.rows.find? (·.thumbprint = thumbprint)
  match existing with
  | some account => pure (account, false)
  | none =>
    if request.onlyReturnExisting then
      throw (.problem ⟨.accountDoesNotExist, "no account has this key"⟩)
    else do
      let contacts ← settled (contacts (request.contact.getD []))
      transact fun store moment =>
        match store.createAccount (reading.toCanonicalJson key) thumbprint contacts
            moment.now with
        | (store, some account, made) => .ok (store, (account, made))
        | (_, none, _) => .error (.db "no rows returned")

def newAccount (post : Post) : Handler Answer := do
  let (jws, signer) ← post.verify reading .jwk
  let request ← parse (reading.accountRequest (reading.payload jws))
  let (account, made) ← accountFor reading request signer.signingKey
  if account.status ≠ .valid then
    throw (.problem ⟨.unauthorized, s!"the account is {Lifecycle.asStr account.status}"⟩)
  else pure (.account account made)

def updateContacts (id : Int) : Option (List String) → Handler Unit
  | none => pure ()
  | some contact => do
    let contacts ← settled (contacts contact)
    transact fun store _ => .ok (store.setContacts id contacts, ())

def updateStatus (id : Int) : Option String → Handler Unit
  | none | some "valid" => pure ()
  | some "deactivated" =>
    transact fun store _ => (store.setAccountStatus id .deactivated).map (·, ())
  | some other => throw (.problem (malformed s!"an account can't become {other.quote}"))

def updateAccount (id : Int) (payload : List UInt8) : Handler Unit :=
  if payload.isEmpty then pure ()
  else do
    let request ← parse (reading.accountRequest payload)
    updateContacts id request.contact
    updateStatus id request.status

def showAccount (id : Int) : Handler Answer := do
  let row ← query fun store => store.accounts.get? id
  let account ← found row "account"
  pure (.account account false)

def account (id : Int) (post : Post) : Handler Answer := do
  let (account, _, payload) ← post.byAccount reading
  ownedBy account id
  updateAccount reading id payload
  showAccount id

def orders (id : Int) (post : Post) : Handler Answer := do
  let (account, _, payload) ← post.byAccount reading
  asGet payload
  ownedBy account id
  let ids ← query fun store => (store.orders.rows.filter (·.account = id)).map Order.id
  pure (.orders ids)

/-- Gives account `id` the key, unless another account holds it. -/
def changeKey (id : Int) (key : Key) (post : Post) : Handler Unit := attempt fun s _ =>
  match s.store.changeKey id (reading.toCanonicalJson key) (reading.thumbprint key) with
  | .ok store => (s.withStore store, .ok ())
  | .error (.keyInUse holder) => (s, .error (.keyInUse (accountUrl post.accounts holder)))
  | .error e => (s, .error (stored e))

def keyChange (post : Post) : Handler Answer := do
  let (account, key) ← post.verifyKeyChange reading
  changeKey reading account.id key post
  showAccount account.id

/-- A time of an order's, if it gives one. -/
def instant (text : Option String) (what : String) : Except Problem (Option Time) :=
  match text with
  | none => .ok none
  | some text =>
    match reading.stamp text with
    | some at' => .ok (some at')
    | none => .error (malformed s!"{what} {text.quote} is not an RFC 3339 time")

def newOrder (lifetime : Time) (post : Post) : Handler Answer := do
  let (account, _, payload) ← post.byAccount reading
  let request ← parse (reading.orderRequest payload)
  let issuer ← issuing
  let found ← problem (names rules request.identifiers issuer.config.permittedDomains)
  let now ← clock
  let expires := now + lifetime
  let authorisations ← problem
    (found.mapM (authorisationFor · issuer.config.challenges expires))
  let notBefore ← problem (instant reading request.notBefore "notBefore")
  let notAfter ← problem (instant reading request.notAfter "notAfter")
  let (order, authorisations) ← transact fun store moment => do
    let (store, id) ← store.createOrder {
      account := account.id
      identifiers := found
      notBefore := notBefore
      notAfter := notAfter
      expires := expires
      authorisations := authorisations } moment.now moment.tokens
    let order ← (store.orders.get? id).elim (.error (.db "no rows returned")) .ok
    .ok (store, (order, (store.authorisations.rows.filter (·.order = id)).map
      Authorisation.id))
  pure (.order order authorisations)

def order (id : Int) (post : Post) : Handler Answer := do
  let (account, _, payload) ← post.byAccount reading
  asGet payload
  let (order, authorisations) ← orderOf id account
  pure (.order order authorisations)

/-- The certificate is signed, and then recorded. -/
def issueFor (issuer : Issuer) (order : Order) (csr accountKey : List UInt8) :
    Handler Unit := do
  let (_, issued) ← attempt fun s moment => (s,
    (issuer.issue rules ⟨fromDer, describeName, describeKey, moment.sign⟩ order csr accountKey
      moment.now).mapError .problem)
  transact fun store moment =>
    (store.recordCertificate order.id issued moment.now).map fun (store, _) => (store, ())

def finalise (id : Int) (post : Post) : Handler Answer := do
  let (account, key, payload) ← post.byAccount reading
  let (order, _) ← orderOf id account
  if order.status ≠ .ready then
    throw (.problem ⟨.orderNotReady, s!"the order is {Lifecycle.asStr order.status}"⟩)
  else do
    let request ← parse (reading.finaliseRequest payload)
    let csr ← settled ((reading.fromBase64url request).elim
      (.error (.problem (badCsr "the CSR is not base64url"))) .ok)
    let issuer ← issuing
    issueFor rules fromDer describeName describeKey issuer order csr
      (reading.subjectPublicKeyInfo key)
    let (order, authorisations) ← orderOf id account
    pure (.order order authorisations)

def authorisation (id : Int) (post : Post) : Handler Answer := do
  let (account, _, payload) ← post.byAccount reading
  let (authorisation, challenges) ← authorisationOf id account
  if payload.isEmpty then pure (.authorisation authorisation challenges)
  else do
    let status ← parse (reading.deactivation payload)
    if status ≠ "deactivated" then
      throw (.problem (malformed "an authorisation can only be deactivated"))
    else do
      transact fun store _ => (store.setAuthorisationStatus id .deactivated).map (·, ())
      let (authorisation, challenges) ← authorisationOf id account
      pure (.authorisation authorisation challenges)

/-- A validation is started. -/
def validateInBackground (validation : Validation) : Handler Unit :=
  attempt fun s _ => ({ s with validating := s.validating ++ [validation] }, .ok ())

def challenge (id : Int) (post : Post) : Handler Answer := do
  let (account, _, payload) ← post.byAccount reading
  let row ← query fun store => store.challenges.get? id
  let challenge ← found row "challenge"
  let (authorisation, _) ← authorisationOf challenge.authorisation account
  if payload.isEmpty || challenge.status ≠ .pending || authorisation.status ≠ .pending then
    pure (.challenge challenge)
  else do
    parse (reading.object payload)
    transact fun store moment =>
      (store.setChallengeStatus id .processing none moment.now).map (·, ())
    validateInBackground ⟨id, challenge.kind, authorisation.identifier,
      challenge.token ++ "." ++ account.thumbprint⟩
    let row ← query fun store => store.challenges.get? id
    let challenge ← found row "challenge"
    pure (.challenge challenge)

def certificate (id : Int) (post : Post) : Handler Answer := do
  let (account, _, payload) ← post.byAccount reading
  asGet payload
  let row ← query fun store => store.certificates.rows.find? (·.id = id)
  let certificate ← found row "certificate"
  ownedBy account certificate.account
  pure (.certificate certificate.chainPem)

/-- Whether `issued` is the certificate `der`. -/
def isLeaf (issued : Certificate) (der : List UInt8) : Bool :=
  (reading.certificates issued.chainPem).any (·.head? = some der)

def permitted (signer : Signer Key) (issued : Certificate) (leaf : LeafView) : Bool :=
  match signer with
  | .account account _ => account.id = issued.account
  | .key key => reading.subjectPublicKeyInfo key = leaf.spki

def reasonOf : Option Nat → Except Declined (Option Nat)
  | none => .ok none
  | some 0 => .ok none
  | some reason =>
    if reason ∈ revocationReasons then .ok (some reason)
    else .error (.badRevocationReason s!"{reason} is not a revocation reason")

/-- By the account that ordered the certificate, or by the certificate's own key. -/
def revoke (post : Post) : Handler Answer := do
  let (jws, signer) ← post.verify reading .either
  let request ← parse (reading.revocationRequest (reading.payload jws))
  let der ← settled ((reading.fromBase64url request.certificate).elim
    (.error (.problem (malformed "the certificate is not base64url"))) .ok)
  let leaf ← problem ((reading.inspect der).mapError malformed)
  let row ← query fun store => (store.certificates.rows.find? (·.serial = leaf.serial)).filter
    (isLeaf reading · der)
  let issued ← found row "certificate"
  if !permitted reading signer issued leaf then
    throw (.problem ⟨.unauthorized, "neither its account nor its key signed this"⟩)
  else do
    let reason ← settled (reasonOf request.reason)
    transact fun store moment =>
      (store.revoke leaf.serial reason moment.now).map fun (store, _) => (store, ())
    pure .revoked

/-- The operator's revocation of one of this enrolment's leaves; one revoked already is
answered as it stands. -/
def revokeLeaf (enrolled : Enrolled) (serial : String) (reason : Nat) : Handler Answer := do
  let row ← query fun store => store.leafToRevoke enrolled serial reason
  let found ← settled (row.mapError .operator)
  if found.revokedAt.isSome then pure (.leaf found)
  else do
    let revoked ← attempt fun s moment =>
      match s.store.revokeLeaf serial reason moment.now with
      | .ok (store, revoked) => (s.withStore store, .ok revoked)
      | .error e => (s, .error (.operator e))
    pure (.leaf revoked)

/-! ## The server -/

/-- Who calls, and with what. -/
inductive Caller where
  | client (route : Route) (post : Post)
  | operator (enrolled : Enrolled) (serial : String) (reason : Nat)
  deriving DecidableEq, Repr

def handle (lifetime : Time) : Caller → Prog Shared Moment (Except Declined Answer)
  | .client .newAccount post => (newAccount reading post).run
  | .client (.account id) post => (account reading id post).run
  | .client (.orders id) post => (orders reading id post).run
  | .client .keyChange post => (keyChange reading post).run
  | .client .newOrder post => (newOrder reading rules lifetime post).run
  | .client (.order id) post => (order reading id post).run
  | .client (.finalise id) post =>
    (finalise reading rules fromDer describeName describeKey id post).run
  | .client (.authorisation id) post => (authorisation reading id post).run
  | .client (.challenge id) post => (challenge reading id post).run
  | .client (.certificate id) post => (certificate reading id post).run
  | .client .revoke post => (revoke reading post).run
  | .operator enrolled serial reason => (revokeLeaf enrolled serial reason).run

/-- What happens beside the handlers. -/
inductive Event where
  | issueNonce (nonce : String)
  | setIssuer (issuer : Issuer)
  | setPaused (paused : Bool)
  /-- Once a process, the challenges a restart left processing are validated again. -/
  | resume
  | validated (validation : Validation) (outcome : Option Problem)
  | recordValidation (result : Judgement) (now : Time)
  /-- A validation's result is lost: its transaction failed. -/
  | loseValidation (result : Judgement)
  | restart

/-- The result of a validation, as it is recorded. -/
def recorded (store : Store) (result : Judgement) (now : Time) :
    Except StoreError Store :=
  match result.outcome with
  | none => store.setChallengeStatus result.challenge .valid none now
  | some problem => store.setChallengeStatus result.challenge .invalid (some problem) now

def event (capacity : Nat) (s : Shared) : Event → Option Shared
  | .issueNonce nonce => some { s with nonces := s.nonces.issue capacity nonce }
  | .setIssuer issuer => some { s with issuer := some issuer }
  | .setPaused paused => some { s with paused }
  | .resume =>
    if s.resumed then some s
    else some { s with resumed := true, validating := s.validating ++ s.store.processing }
  | .validated validation outcome =>
    if validation ∈ s.validating then
      some { s with
        validating := s.validating.erase validation
        judged := s.judged ++ [⟨validation.challenge, outcome⟩] }
    else none
  | .recordValidation result now =>
    if result ∈ s.judged then
      let rest := { s with judged := s.judged.erase result }
      match recorded s.store result now with
      | .ok store => some (rest.withStore store)
      | .error _ => some rest
    else none
  | .loseValidation result =>
    if result ∈ s.judged then some { s with judged := s.judged.erase result } else none
  | .restart =>
    some { s with
      nonces := ⟨∅, []⟩
      issuer := none
      paused := false
      resumed := false
      validating := []
      judged := [] }

/-- A server started on any database, with its accounts' keys. -/
def Starts (s : Shared) : Prop :=
  s.nonces = ⟨∅, []⟩ ∧ s.validating = [] ∧ s.judged = [] ∧ s.resumed = false ∧
    s.held = s.store.accounts.rows.map heldKey

def handlers (lifetime : Time) (capacity : Nat) :
    Machine (Pool Shared Moment Caller (Except Declined Answer))
      (PoolLabel Moment Caller Event) :=
  poolMachine Starts (handle reading rules fromDer describeName describeKey lifetime)
    (event capacity)

end Routes

end Opca.Acme.Handlers

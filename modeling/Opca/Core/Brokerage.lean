/-
  Core/Brokerage.lean --- subordinates signed for brokers, handed to them and renewed,
  with the database, the vault and the broker each failing or answering
  (`services/ca/subordinate.rs`, `services/acme_broker/enrol.rs`,
  `services/acme_broker/renew.rs`).

  What is sent to a broker is noted whether the broker answers or not.  A chain is given
  as its certificates, which PEM writes and reads.
-/
import Opca.Core.IssuedSince
import Opca.Core.Items
import Opca.Core.Lookup
import Mathlib.Data.List.Sort

set_option autoImplicit false

namespace Opca.Core

open Opca.Foundation Acme

/-! ## Endpoints, offers and what is sent -/

/-- Where a broker's API listens, and the key it must present there. -/
structure Endpoint where
  url : String
  pin : String
  deriving DecidableEq, Repr

/-- What the broker asks opCA to sign. -/
structure EnrolmentOffer where
  csrPem : String
  host : String
  /-- Empty when the broker has none and the operator chooses them in opCA. -/
  configuredDomains : List String
  versions : Nat × String
  deriving DecidableEq, Repr

structure FreshCsr where
  csrPem : String
  configuredDomains : List String
  deriving DecidableEq, Repr

/-- The subordinate, then the root, as a broker takes them. -/
structure Chain where
  subordinate : Certificate
  root : String
  deriving DecidableEq

structure Enrolment where
  code : String
  chain : Chain
  operatorPin : String
  config : IssuanceConfig
  deriving DecidableEq

structure ChainUpdate where
  chain : Chain
  config : IssuanceConfig
  deriving DecidableEq

/-- What was sent to the broker of a pin. -/
inductive Sent where
  | enrolment (pin : String) (body : Enrolment)
  | chain (pin : String) (body : ChainUpdate)
  deriving DecidableEq

namespace Sent

def pin : Sent → String
  | .enrolment pin _ | .chain pin _ => pin

def certificate : Sent → Certificate
  | .enrolment _ body => body.chain.subordinate
  | .chain _ body => body.chain.subordinate

def config : Sent → IssuanceConfig
  | .enrolment _ body => body.config
  | .chain _ body => body.config

end Sent

abbrev Brokerage := Vaulted Sent
abbrev BrokerageM := VaultM Sent

/-! ## Signing -/

/-- Reading a CSR: the key it asks for, and the whole of one whose signature verifies. -/
structure CsrReader where
  publicKey : String → Except OpcaError String
  verified : String → Except OpcaError Csr

/-- What signing a subordinate needs from outside. -/
structure SubordinateSigning where
  /-- The lifetime, which the root must cover. -/
  days : Except OpcaError Unit
  /-- What the certificate says, the CSR's name and key apart. -/
  attribs : CertAttribs
  signed : Except OpcaError Unit
  itemStored : Except OpcaError Unit
  databaseStored : Except OpcaError Unit

namespace Brokerage

variable (times : OpensslTimes) (csrs : CsrReader)

/-- What is checked of a request before a serial is taken: the CSR and its common name. -/
def requested (csr : String) (domains : List String) (days : Except OpcaError Unit) :
    Except OpcaError (Csr × String) := do
  let csr ← csrs.verified csr
  checkRequestedNames csr domains
  let cn ← csr.commonName.elim
    (.error (.invalidCertificate "The CSR has no common name")) .ok
  days
  return (csr, cn)

/-- What a subordinate's certificate says. -/
def subordinateAttribs (signing : SubordinateSigning) (csr : Csr) (cn : String) :
    CertAttribs :=
  { signing.attribs with cn := some cn, publicKey := csr.publicKey }

/-- A subordinate's certificate, limited to `domains`. -/
def subordinateCert (cert : CertAttribs) (domains : List String) (serial : Int) :
    Certificate :=
  ⟨toString serial, cert, some (nameConstraints domains)⟩

/-- The title of its item, and of its row. -/
def titleOf (cert : Certificate) : String := bundleTitle (cert.attribs.cn.getD "") cert.serial

/-- A certificate is signed under the next serial, its item made and its row added. -/
def storeIssued (cert : CertAttribs) (domains : List String) (signing : SubordinateSigning)
    (now : Time) : BrokerageM (Int × Certificate) := do
  let serial ← onVaulted (issue signing.signed)
  let made := subordinateCert cert domains serial
  let record := formatDbItem times now cert made.serial (titleOf made)
  storeBundle true record (titleOf made) ⟨some made, none, none⟩ signing.itemStored
    (addCert record)
  onVaulted (give (.subordinate made.serial cert.publicKey))
  return (serial, made)

def issueSubordinate (csr : String) (domains : List String) (signing : SubordinateSigning)
    (now : Time) : BrokerageM (Int × Certificate) := do
  let request ← outcome (requested csrs csr domains signing.days)
  storeIssued times (subordinateAttribs signing request.1 request.2) domains signing now

/-- The row of a new subordinate, which points at `endpoint`. -/
def addBrokerAt (serial : String) (domains : List String) (endpoint : Option Endpoint)
    (now : Time) : DbM Int := do
  let id ← addBroker serial domains (times.format now)
  point id
  return id
where
  point (id : Int) : DbM Unit :=
    match endpoint with
    | some endpoint => setBrokerEndpoint id endpoint.url endpoint.pin (times.format now)
    | none => return

/-- Sign `csr` as a subordinate CA for `domains` and record a broker row for it, in the
same store pointing at `endpoint`; the row's id, and the certificate. -/
def signSubordinateAt (csr : String) (domains : List String) (endpoint : Option Endpoint)
    (signing : SubordinateSigning) (now : Time) : BrokerageM (Int × Certificate) := do
  let domains ← outcome (permittedDomains domains)
  let issued ← issueSubordinate times csrs csr domains signing now
  let id ← onVaulted (addBrokerAt times issued.2.serial domains endpoint now)
  storeCaDatabase signing.databaseStored
  let broker ← onVaulted (brokerOf id)
  return (broker.id, issued.2)

/-- Sign `csr` as a subordinate CA for `domains` and record a broker row for it with no
URL. -/
def signSubordinate (csr : String) (domains : List String) (signing : SubordinateSigning)
    (now : Time) : BrokerageM (Int × Certificate) :=
  signSubordinateAt times csrs csr domains none signing now

/-- The row is moved to the renewed certificate. -/
def moveBroker (broker : Broker) (newSerial : String) (domains : List String) (user : String)
    (now : Time) : DbM Unit := do
  autoIgnorePredecessor broker.subordinateSerial newSerial .renewed user (times.format now)
  moveBrokerTo broker.id newSerial domains (times.format now)

/-- Sign a fresh CSR for subordinate `id` and move its row to the new serial.  `domains`
replaces the row's only with `changeDomains`; the row, and the certificate. -/
def renewSubordinate (id : Int) (csr : String) (domains : Option (List String))
    (changeDomains : Bool) (signing : SubordinateSigning) (user : String) (now : Time) :
    BrokerageM (Broker × Certificate) := do
  let broker ← onVaulted (activeBroker id)
  let domains ← onVaulted
    (renewalDomains broker (domains.map permittedDomains) changeDomains)
  let issued ← issueSubordinate times csrs csr domains signing now
  onVaulted (moveBroker times broker issued.2.serial domains user now)
  storeCaDatabase signing.databaseStored
  let moved ← onVaulted (brokerOf id)
  return (moved, issued.2)

/-! ## Enrolling -/

/-- One attempt to enrol a broker: what the operator gives, and what the broker and the
vault answer. -/
structure Attempt where
  endpoint : Endpoint
  code : String
  operatorPin : String
  shown : EnrolmentOffer
  terms : IssuanceConfig
  /-- Making the clients. -/
  clients : Except OpcaError Unit
  offer : Except OpcaError EnrolmentOffer
  /-- The item of a subordinate signed earlier. -/
  read : Except OpcaError Unit
  signing : SubordinateSigning
  /-- The root's PEM. -/
  root : Except OpcaError String
  /-- The state of its issuer that the broker answers an enrolment with. -/
  enrolled : Except String (Option String)
  /-- What the broker issued, if it could be synced. -/
  issued : Option (List BrokerCert)
  databaseStored : Except OpcaError Unit
  now : Time

/-- Fails unless a condition holds. -/
def demand (p : Prop) [Decidable p] (error : OpcaError) : BrokerageM Unit :=
  onVaulted (require p error)

/-- The certificate of a broker's subordinate, from its item. -/
def subordinatePem (broker : Broker) (read : Except OpcaError Unit) :
    BrokerageM Certificate := do
  let missing : OpcaError :=
    .certificateNotFound s!"subordinate serial {broker.subordinateSerial}"
  let found ← onVaulted (queryCert (.serial broker.subordinateSerial) false)
  let title ← outcome ((found.bind CertRecord.title).elim (.error missing) .ok)
  let bundle ← retrieveCertbundle title read
  outcome (bundle.elim (.error missing) .ok)

/-- The row of an active subordinate whose broker presents `pin`. -/
def isOf (pin : String) (b : Broker) : Bool := b.state = .active && b.pinnedKey = some pin

/-- In the order of their ids. -/
def listSubordinates (db : CaDatabase) : List Broker :=
  db.tables.brokers.rows.insertionSort fun a b => a.id ≤ b.id

/-- A row's certificate that never reached its broker, when it still matches what the
broker asks for. -/
def pendingOf (broker : Broker) (a : Attempt) (domains : List String) :
    BrokerageM (Int × Certificate) := do
  demand broker.lastContact.isNone
    (.other s!"This broker is already enrolled as subordinate {broker.id}")
  let cert ← subordinatePem broker a.read
  let requested ← outcome (csrs.publicKey a.shown.csrPem)
  demand (cert.attribs.publicKey = requested ∧ sameDomains broker.permittedDomains domains)
    (.other (s!"Subordinate {broker.id} was signed for this broker with another key or " ++
      "other domains and never reached it; revoke it before enrolling again"))
  return (broker.id, cert)

/-- The row and certificate of a subordinate signed for this broker that has never
reached it. -/
def undelivered (a : Attempt) (domains : List String) :
    BrokerageM (Option (Int × Certificate)) := do
  let s ← get
  match (listSubordinates s.db).find? (isOf a.endpoint.pin) with
  | none => return none
  | some broker => some <$> pendingOf csrs broker a domains

/-- What is sent to the broker: what was signed for it earlier and never reached it, or
else a subordinate signed now. -/
def subordinateFor (a : Attempt) (domains : List String) : BrokerageM (Int × Certificate) := do
  match ← undelivered csrs a domains with
  | some pending => return pending
  | none =>
    signSubordinateAt times csrs a.shown.csrPem domains (some a.endpoint) a.signing a.now

/-- Hands a subordinate to the broker, and records the broker's answer. -/
def deliver (a : Attempt) (domains : List String) (id : Int) (cert : Certificate) :
    BrokerageM Broker := do
  let root ← outcome a.root
  note (.enrolment a.endpoint.pin
    ⟨a.code, ⟨cert, root⟩, a.operatorPin, { a.terms with permittedDomains := domains }⟩)
  let issuerState ← outcome (a.enrolled.mapError fun e => .other
    (s!"Subordinate {id} is signed, but the broker did not take it ({e}). Enrol with the " ++
      "same pairing string to send it again; it is not signed twice."))
  onVaulted (reported id issuerState (times.format a.now))
  onVaulted (recordBrokerCerts (a.issued.getD []))
  storeCaDatabase a.databaseStored
  onVaulted (brokerOf id)

/-- Signs the subordinate `shown` asks for and hands it to the broker with the pairing
code.  One signed earlier for this broker that never reached it is sent again, never
signed twice. -/
def enrolBroker (a : Attempt) : BrokerageM Broker := do
  outcome a.clients
  let offer ← outcome a.offer
  demand (offer = a.shown)
    (.other "The broker's request has changed since it was shown; review it again")
  let domains ← outcome (enrolmentDomains a.shown.configuredDomains a.terms.permittedDomains)
  let pending ← subordinateFor times csrs a domains
  deliver times a domains pending.1 pending.2

/-! ## Renewing -/

/-- What the broker and the vault answer to a renewal. -/
structure RenewalAnswers where
  /-- Making the client. -/
  client : Except OpcaError Unit
  /-- The state of its issuer and its terms. -/
  status : Except BrokerError (Option String × IssuanceConfig)
  fresh : Except BrokerError FreshCsr
  issued : Option (List BrokerCert)
  signing : SubordinateSigning
  root : Except OpcaError String
  put : Except BrokerError (Option String)
  user : String
  now : Time

inductive Renewal where
  | renewed (serial : String)
  /-- Nothing signed: the broker now asks for other domains. -/
  | domainsChanged (recorded configured : List String)
  /-- Nothing signed. -/
  | unreachable (error : BrokerError)
  /-- Signed and recorded, but the broker kept its old chain. -/
  | notDelivered (serial : String) (error : BrokerError)
  | failed (error : OpcaError)
  deriving DecidableEq, Repr

/-- A renewed chain is put to the broker. -/
def putChain (broker : Broker) (pin : String) (config : IssuanceConfig)
    (renewed : Broker × Certificate) (answers : RenewalAnswers) : BrokerageM Renewal := do
  let root ← outcome answers.root
  note (.chain pin
    ⟨⟨renewed.2, root⟩, { config with permittedDomains := renewed.1.permittedDomains }⟩)
  match answers.put with
  | .error error => return .notDelivered renewed.1.subordinateSerial error
  | .ok issuerState =>
    onVaulted (reported broker.id issuerState (times.format answers.now))
    return .renewed renewed.1.subordinateSerial

/-- Once the broker has said how it stands and given a fresh CSR. -/
def renewWith (broker : Broker) (pin : String) (changeDomains : Bool)
    (answers : RenewalAnswers) (current : Option String × IssuanceConfig) (fresh : FreshCsr) :
    BrokerageM Renewal := do
  onVaulted (reported broker.id current.1 (times.format answers.now))
  onVaulted (recordBrokerCerts (answers.issued.getD []))
  let domains ← outcome (changedDomains broker.permittedDomains fresh.configuredDomains)
  match domains, changeDomains with
  | some configured, false => return .domainsChanged broker.permittedDomains configured
  | domains, changeDomains =>
    let renewed ← renewSubordinate times csrs broker.id fresh.csrPem domains changeDomains
      answers.signing answers.user answers.now
    putChain times broker pin current.2 renewed answers

def tryRenew (broker : Broker) (changeDomains : Bool) (answers : RenewalAnswers) :
    BrokerageM Renewal := do
  demand (broker.url.isSome ∧ broker.pinnedKey.isSome)
    (.other s!"Subordinate {broker.id} has no broker to call")
  outcome answers.client
  match answers.status, answers.fresh with
  | .error error, _ | .ok _, .error error => return .unreachable error
  | .ok current, .ok fresh =>
    renewWith times csrs broker (broker.pinnedKey.getD "") changeDomains answers current fresh

/-- An error is what came of the renewal. -/
def renewAt (broker : Broker) (changeDomains : Bool) (answers : RenewalAnswers) :
    BrokerageM Renewal := fun s =>
  match tryRenew times csrs broker changeDomains answers s with
  | .ok renewal t => .ok renewal t
  | .error e t => .ok (.failed e) t

def renewBroker (id : Int) (changeDomains : Bool) (answers : RenewalAnswers)
    (stored : Except OpcaError Unit) : BrokerageM Renewal := do
  let broker ← onVaulted (brokerOf id)
  let renewal ← renewAt times csrs broker changeDomains answers
  storeCaDatabase stored
  return renewal

/-- The active brokers opCA calls, those with a URL. -/
def watchedBrokers (db : CaDatabase) : List Broker :=
  (listSubordinates db).filter fun b => b.state = .active && b.url.isSome

/-- Renews every active broker; `answers` is what each answers. -/
def renewAllBrokers (answers : Int → RenewalAnswers) (stored : Except OpcaError Unit) :
    BrokerageM Unit := do
  let s ← get
  (watchedBrokers s.db).forM fun broker => do
    let _ ← renewAt times csrs broker false (answers broker.id)
  storeCaDatabase stored

end Brokerage

end Opca.Core

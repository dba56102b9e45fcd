/-
  Core/Authority.lean --- what an operator does to the CA database: certificates
  issued, imported, renewed, revoked, deleted and published, CRLs signed, and the
  configuration changed (`services/ca.rs`, `services/ca/publish.rs`,
  `services/ca/subordinate.rs`).

  What happens outside the database, the signing and what 1Password and the stores
  answer, is given to an operation as its outcome; the clock reads one time throughout
  an operation.
-/
import Opca.Core.Database

set_option autoImplicit false

namespace Opca.Core

open Opca.Foundation Acme

/-- The certificate serials and the CRL numbers that an operation gave out. -/
structure Issued where
  serials : List Int
  crlNumbers : List Int
  deriving DecidableEq, Repr

def Issued.nothing : Issued := ⟨[], []⟩

def Issued.numbers (issued : Issued) : SerialType → List Int
  | .cert => issued.serials
  | .crl => issued.crlNumbers

/-- Fails unless a condition holds. -/
def require (p : Prop) [Decidable p] (error : OpcaError) : DbM Unit :=
  outcome (if p then .ok () else .error error)

/-! ## Certificates -/

/-- What a certificate and its bundle say, its serial and title apart. -/
structure CertAttribs where
  cn : Option String
  subject : String
  issuer : Option String
  certType : String
  notBefore : Option String
  notAfter : Asn1Time
  /-- The key it certifies. -/
  publicKey : String
  keyType : Option String
  keySize : Option Int
  san : Option String
  hasPrivateKey : Bool
  hasChain : Bool
  deriving DecidableEq, Repr

/-- The same certificate, of another type. -/
def CertAttribs.ofType (cert : CertAttribs) (certType : String) : CertAttribs :=
  { cert with certType }

/-- The row of a certificate. -/
def formatDbItem (times : OpensslTimes) (now : Time) (cert : CertAttribs)
    (serial title : String) : CertRecord where
  serial
  cn := some (cert.cn.getD "")
  title := some title
  status := some (if cert.notAfter < wholeSeconds now then "Expired" else "Valid")
  expiryDate := some (times.format cert.notAfter)
  revocationDate := none
  subject := some cert.subject
  certType := some cert.certType
  notBefore := cert.notBefore
  keyType := cert.keyType
  keySize := cert.keySize
  issuer := cert.issuer
  san := cert.san
  ignoredAt := none
  ignoredBy := none
  ignoredReason := none
  ignoredNote := none
  hasPrivateKey := some cert.hasPrivateKey
  hasChain := some cert.hasChain
  deletedAt := none
  publishedAt := none

def CertRecord.intoExternal (record : CertRecord) (issuer issuerSubject importDate : String) :
    ExternalCertRecord where
  serial := record.serial
  cn := record.cn
  title := record.title
  status := record.status
  expiryDate := record.expiryDate
  subject := record.subject
  issuer := some issuer
  issuerSubject := some issuerSubject
  importDate := some importDate
  certType := some "external"
  notBefore := record.notBefore
  keyType := record.keyType
  keySize := record.keySize
  san := record.san
  hasPrivateKey := record.hasPrivateKey
  hasChain := record.hasChain

/-- A certificate's item in 1Password, and its row; `own` is whether the CA's key signed
it. -/
def storeCertbundle (own : Bool) (record : CertRecord) (stored : Except OpcaError Unit)
    (add : DbM Unit) : DbM Unit := do
  outcome stored
  giveItem
  add
where
  giveItem : DbM Unit := if own then give (.item record.serial) else return

/-! ## Issuing -/

/-- What issuing needs from outside. -/
structure Signing where
  /-- The request, the lifetime and the CA's key, before a serial is taken. -/
  ready : Except OpcaError Unit
  signed : Except OpcaError Unit
  /-- The bundle's item in 1Password. -/
  stored : Except OpcaError Unit

/-- Signs under the next serial. -/
def issue (signed : Except OpcaError Unit) : DbM Int := do
  let serial ← incrementSerial .cert none
  give (.serial serial)
  outcome signed
  return serial

/-- Issues a certificate, stores its bundle and its row, and goes on. -/
def issueBundle (times : OpensslTimes) (now : Time) (cert : CertAttribs)
    (title : String → String) (signing : Signing) (andThen : String → DbM Unit) :
    DbM Issued := do
  outcome signing.ready
  let serial ← issue signing.signed
  let record := formatDbItem times now cert (toString serial) (title (toString serial))
  storeCertbundle true record signing.stored (addCert record)
  andThen (toString serial)
  return ⟨[serial], []⟩

/-- The title of a bundle that the CA makes. -/
def bundleTitle (name serial : String) : String := s!"CRT_{serial}_{name}"

def generateCertificateBundle (times : OpensslTimes) (itemTitle : String)
    (cert : CertAttribs) (signing : Signing) (now : Time) : DbM Issued :=
  issueBundle times now cert (bundleTitle itemTitle) signing fun _ => return

/-- Signs a third party's CSR, and keeps the certificate under its CN. -/
def signCsr (times : OpensslTimes) (cn : String) (cert : CertAttribs) (signing : Signing)
    (now : Time) : DbM Issued :=
  issueBundle times now cert (fun _ => cn) signing fun _ => return

/-- As Rust's `{:?}`. -/
def CertLookup.debug : CertLookup → String
  | .serial value => s!"Serial({value.quote})"
  | .cn value => s!"Cn({value.quote})"
  | .title value => s!"Title({value.quote})"

/-- A certificate looked up, or an error that names it. -/
def certificateOf (lookup : CertLookup) (validOnly : Bool) : DbM CertRecord := do
  match ← queryCert lookup validOnly with
  | some cert => return cert
  | none => throw (.certificateNotFound lookup.debug)

theorem queryCert_reads (lookup : CertLookup) (validOnly : Bool) :
    Moves (· = ·) (queryCert lookup validOnly) :=
  .of_total (fun _ => rfl) fun _ => rfl

theorem certificateOf_reads (lookup : CertLookup) (validOnly : Bool) :
    Moves (· = ·) (certificateOf lookup validOnly) := by
  refine (queryCert_reads lookup validOnly).bind fun found => ?_
  cases found with
  | none => exact .throw
  | some cert => exact .pure

/-- Auto-ignores the predecessor of a renew or rekey. -/
def autoIgnorePredecessor (oldSerial newSerial : String) (reason : IgnoreReason)
    (user now : String) : DbM Unit :=
  ignoreCert oldSerial reason user (some s!"replaced by {newSerial}") now

/-- Uploads to the CN's key and stamps the row. -/
def uploadPublished (serial cn : String) (uploaded : Except OpcaError Unit) (now : String) :
    DbM Unit := do
  let db ← get
  require (db.tables.config.read.text .caPublicStore).isSome
    (.storage "No public store configured")
  outcome uploaded
  markCertPublished serial cn now

/-- An error is only logged. -/
def logged (m : DbM Unit) : DbM Unit := fun db =>
  match m db with
  | .ok _ db => .ok () db
  | .error _ db => .ok () db

/-- What a renewal or a rekey needs from outside besides its signing. -/
structure Renewing where
  /-- The old bundle read from 1Password, with its CSR. -/
  retrieved : Except OpcaError Unit
  uploaded : Except OpcaError Unit
  user : String
  now : Time

def renewCertificateBundle (times : OpensslTimes) (lookup : CertLookup) (cert : CertAttribs)
    (signing : Signing) (renewing : Renewing) : DbM Issued := do
  let old ← certificateOf lookup true
  require old.title.isSome (.certificateNotFound "No title")
  require (old.status ≠ some "Revoked") (.other "Cannot renew a revoked certificate")
  outcome renewing.retrieved
  issueBundle times renewing.now cert (bundleTitle (cert.cn.getD "")) signing fun newSerial => do
    autoIgnorePredecessor old.serial newSerial .renewed renewing.user
      (times.format renewing.now)
    if old.publishedAt.isSome then
      logged (uploadPublished newSerial (cert.cn.getD "") renewing.uploaded
        (times.format renewing.now))

def rekeyCertificateBundle (times : OpensslTimes) (lookup : CertLookup) (cert : CertAttribs)
    (signing : Signing) (renewing : Renewing) : DbM Issued := do
  let old ← certificateOf lookup false
  require old.title.isSome (.certificateNotFound "No title")
  outcome renewing.retrieved
  issueBundle times renewing.now cert (bundleTitle (cert.cn.getD "")) signing fun newSerial =>
    autoIgnorePredecessor old.serial newSerial .rekeyed renewing.user
      (times.format renewing.now)

/-! ## Subordinates -/

/-- Issues a subordinate for the key of a CSR. -/
def issueSubordinate (times : OpensslTimes) (cert : CertAttribs) (signing : Signing)
    (now : Time) (andThen : String → DbM Unit) : DbM Issued :=
  issueBundle times now cert (bundleTitle (cert.cn.getD "")) signing fun serial => do
    give (.subordinate serial cert.publicKey)
    andThen serial

/-- Signs a subordinate CA for the domains that `permittedDomains` makes of those asked
for, and records a broker row for it, which points at `endpoint`, its URL and its pin. -/
def signSubordinate (times : OpensslTimes) (cert : CertAttribs) (signing : Signing)
    (permittedDomains : Except OpcaError (List String)) (endpoint : Option (String × String))
    (now : Time) : DbM Issued := do
  let domains ← outcome permittedDomains
  issueSubordinate times cert signing now fun serial => do
    let id ← addBroker serial domains (times.format now)
    match endpoint with
    | some (url, pin) => setBrokerEndpoint id url pin (times.format now)
    | none => return

/-- The row of a broker. -/
def brokerOf (id : Int) : DbM Broker := do
  match ← queryBroker id with
  | some broker => return broker
  | none => throw (.certificateNotFound s!"subordinate {id}")

def activeBroker (id : Int) : DbM Broker := do
  let broker ← brokerOf id
  require (broker.state ≠ .revoked) (.certificateRevoked s!"subordinate {id}")
  return broker

theorem brokerOf_reads (id : Int) : Moves (· = ·) (brokerOf id) := by
  have hquery : Moves (· = ·) (queryBroker id) := .of_total (fun _ => rfl) fun _ => rfl
  refine hquery.bind fun found => ?_
  cases found with
  | none => exact .throw
  | some broker => exact .pure

theorem activeBroker_reads (id : Int) : Moves (· = ·) (activeBroker id) := by
  refine (brokerOf_reads id).bind fun broker => ?_
  exact Moves.outcome.bind fun _ => .pure

/-- Whether two lists of permitted domains name the same ones, in any order. -/
def sameDomains (a b : List String) : Bool := a.isPerm b

/-- The domains that a renewal asks for, which replace the row's only if that is
confirmed. -/
def renewalDomains (broker : Broker) (requested : Option (Except OpcaError (List String)))
    (changeDomains : Bool) : DbM (List String) :=
  match requested with
  | none => return broker.permittedDomains
  | some permittedDomains => do
    let domains ← outcome permittedDomains
    require (sameDomains domains broker.permittedDomains ∨ changeDomains)
      (.other (s!"Subordinate {broker.id} is limited to " ++
        ", ".intercalate broker.permittedDomains ++ "; renewing it for " ++
        ", ".intercalate domains ++ " needs the change confirmed"))
    return domains

theorem renewalDomains_reads (broker : Broker)
    (requested : Option (Except OpcaError (List String))) (changeDomains : Bool) :
    Moves (· = ·) (renewalDomains broker requested changeDomains) := by
  cases requested with
  | none => exact .pure
  | some permittedDomains =>
    refine Moves.outcome.bind fun domains => ?_
    exact Moves.outcome.bind fun _ => .pure

/-- Signs a fresh CSR for a subordinate and moves its row to the new serial. -/
def renewSubordinate (times : OpensslTimes) (id : Int) (cert : CertAttribs)
    (signing : Signing) (requested : Option (Except OpcaError (List String)))
    (changeDomains : Bool) (user : String) (now : Time) : DbM Issued := do
  let broker ← activeBroker id
  let domains ← renewalDomains broker requested changeDomains
  issueSubordinate times cert signing now fun newSerial => do
    autoIgnorePredecessor broker.subordinateSerial newSerial .renewed user (times.format now)
    moveBrokerTo id newSerial domains (times.format now)

/-! ## Importing -/

/-- `str::parse::<i64>`. -/
def parseI64 (text : String) : Option Int := parseSigned 64 text

/-- A certificate to import. -/
structure Imported where
  serial : String
  attribs : CertAttribs
  notBefore : Time
  /-- Whether the CA's key verifies it. -/
  verified : Bool
  /-- The CN and the whole of its issuer's name. -/
  issuer : String
  issuerSubject : String
  deriving DecidableEq, Repr

/-- Whether a certificate was signed by this CA and is within its validity period. -/
def isCertValid (cert : Imported) (now : Time) : Bool :=
  let now := wholeSeconds now
  cert.verified && !(now < cert.notBefore || cert.attribs.notAfter < now)

/-- The counter jumps past the serial of a certificate of this CA, if that is an `i64`. -/
def advanceSerial (serial : String) : DbM Unit :=
  match parseI64 serial with
  | some n => do
    let _ ← incrementSerial .cert (some n)
  | none => return

/-- The row and the item of a certificate that is recorded as another CA's. -/
def storeExternal (times : OpensslTimes) (cert : Imported) (title : String)
    (stored : Except OpcaError Unit) (now : Time) : DbM Unit :=
  let record := formatDbItem times now (cert.attribs.ofType "external") cert.serial title
  storeCertbundle cert.verified record stored
    (addExternalCert (record.intoExternal cert.issuer cert.issuerSubject (times.format now)))

/-- Imports a certificate, of this CA if it is valid and of another if not. -/
def importCertificateBundle (times : OpensslTimes) (cert : Imported) (title : String)
    (read stored : Except OpcaError Unit) (now : Time) : DbM Issued := do
  outcome read
  if isCertValid cert now then do
    advanceSerial cert.serial
    let record := formatDbItem times now (cert.attribs.ofType "imported") cert.serial title
    storeCertbundle true record stored (addCert record)
    return .nothing
  else do
    storeExternal times cert title stored now
    return .nothing

/-- Imports what another CA made of a CSR, whose row is then complete. -/
def importCsrCert (times : OpensslTimes) (cert : Imported) (cn : String)
    (row : Option String) (read stored : Except OpcaError Unit) (now : Time) :
    DbM Issued := do
  outcome read
  storeExternal times cert cn stored now
  writeOther .csr cn row
  return .nothing

/-! ## Revoking, ignoring, renaming and deleting -/

def revokeCertificate (times : OpensslTimes) (lookup : CertLookup) (now : Time) :
    DbM Issued := do
  let cert ← certificateOf lookup true
  let _ ← processCaDatabase times now (some cert.serial) false
  revokeBrokersOf cert.serial (times.format now)
  give (.revoked cert.serial now)
  return .nothing

def revokeSubordinate (times : OpensslTimes) (id : Int) (now : Time) : DbM Issued := do
  let broker ← activeBroker id
  let issued ← revokeCertificate times (.serial broker.subordinateSerial) now
  let _ ← brokerOf id
  return issued

def ignoreCertificate (serial : String) (note : Option String) (user now : String) :
    DbM Issued := do
  ignoreCert serial .manual user note now
  return .nothing

def unignoreCertificate (serial : String) : DbM Issued := do
  unignoreCert serial
  return .nothing

/-- A row written back with another title. -/
def retitle (serial dstTitle : String) : DbM Unit :=
  updateCerts (·.serial = serial) (fun c => { c with title := some dstTitle })
    (fun _ => rfl) (noCertificate serial)

def renameCertbundle (srcTitle dstTitle : String) (renamed : Except OpcaError Unit) :
    DbM Issued := do
  match ← queryCert (.title srcTitle) false with
  | none => throw (.certificateNotFound srcTitle)
  | some record =>
    outcome renamed
    retitle record.serial dstTitle
    return .nothing

/-- What a row lacks, from its bundle. -/
def backfillRecord (times : OpensslTimes) (bundle : CertAttribs) (record : CertRecord) :
    CertRecord :=
  { record with
    certType := record.certType.or (some bundle.certType)
    keyType := record.keyType.or bundle.keyType
    keySize := record.keySize.or bundle.keySize
    subject := record.subject.or (some bundle.subject)
    issuer := record.issuer.or bundle.issuer
    notBefore := record.notBefore.or bundle.notBefore
    expiryDate := record.expiryDate.or (some (times.format bundle.notAfter))
    san := record.san.or bundle.san
    cn := (record.cn.filter (· ≠ "")).or bundle.cn
    hasPrivateKey := record.hasPrivateKey.or (some bundle.hasPrivateKey)
    hasChain := record.hasChain.or (some bundle.hasChain) }

/-- Whether a row that pre-dates some of its columns lacks what its bundle may say. -/
def CertRecord.needsBackfill (record : CertRecord) : Bool :=
  record.certType.isNone || record.keyType.isNone || record.subject.isNone ||
    record.notBefore.isNone || record.san.isNone || record.issuer.isNone ||
    record.hasPrivateKey.isNone || record.hasChain.isNone

/-- The desktop fills in a row from its bundle, if there is one; whether it changed. -/
def backfillCert (times : OpensslTimes) (serial : String) (bundle : Option CertAttribs) :
    DbM Bool := do
  match (← queryCert (.serial serial) false), bundle with
  | some record, some bundle =>
    if record.needsBackfill && backfillRecord times bundle record ≠ record then do
      logged (updateCerts (·.serial = serial) (backfillRecord times bundle) (fun _ => rfl)
        (noCertificate serial))
      return true
    else return false
  | some _, none => return false
  | none, _ => throw (.other "Certificate not found")

/-- `archived` is what deleting the certificate's item answers; one that is gone is no
error. -/
def deleteCertificate (times : OpensslTimes) (serial : String)
    (archived : Except OpcaError Unit) (user : String) (now : Time) : DbM Issued := do
  let _ ← processCaDatabase times now none true
  match (← queryCert (.serial serial) false).filter (·.deletedAt.isNone) with
  | none => throw (.certificateNotFound serial)
  | some cert =>
    require (cert.certType ≠ some "ca") (.other "The CA certificate cannot be deleted")
    require (cert.status = some "Revoked" ∨ cert.status = some "Expired")
      (.other s!"Certificate {serial} is still valid; revoke it before deleting")
    outcome (if cert.title.isSome then archived else .ok ())
    ignoreDeleted cert user (times.format now)
    markCertDeleted serial (times.format now)
    return .nothing
where
  ignoreDeleted (cert : CertRecord) (user now : String) : DbM Unit :=
    if cert.ignoredAt.isNone then ignoreCert serial .deleted user none now else return

/-! ## Publishing -/

/-- The last of the rows whose serial no other's exceeds. -/
def latestSerial (rows : List CertRecord) : Option CertRecord :=
  rows.foldl (fun latest c =>
    match latest with
    | none => some c
    | some most => if serialOf most ≤ serialOf c then some c else some most) none
where
  serialOf (c : CertRecord) : Nat := (parseUnsigned 128 c.serial).getD 0

/-- The certificate that a lookup publishes: of a CN, the latest. -/
def publishable (lookup : CertLookup) : DbM CertRecord := do
  match ← candidate with
  | none => throw (.certificateNotFound lookup.debug)
  | some cert =>
    require (cert.certType ≠ some "ca" ∧ cert.certType ≠ some "subordinateca")
      (.invalidCertificate s!"{cert.serial} is a CA certificate, which is not published")
    require (cert.cn.getD "" ≠ "")
      (.invalidCertificate s!"{cert.serial} has no CN to publish it under")
    require (cert.status ≠ some "Revoked") (.certificateRevoked cert.serial)
    return cert
where
  candidate : DbM (Option CertRecord) :=
    match lookup with
    | .cn value => fun db =>
      .ok (latestSerial ((selectCerts (db.tables.certificates.rows.filter
        (·.deletedAt.isNone))).filter (·.cn = some value))) db
    | other => queryCert other false

/-- `retrieved` is the bundle read from 1Password, whether its certificate has expired. -/
def publishCertificate (lookup : CertLookup) (retrieved : Except OpcaError Bool)
    (uploaded : Except OpcaError Unit) (now : String) : DbM Issued := do
  let cert ← publishable lookup
  let expired ← outcome retrieved
  require (expired = false) (.certificateExpired cert.serial)
  uploadPublished cert.serial (cert.cn.getD "") uploaded now
  return .nothing

/-! ## CRLs -/

def crlBatchPeriodDays : Int := 7
def crlBatchWindowDays : Int := 10
def crlBatchSize : Nat := 5
def crlBatchFile : String := "pending-crl/crl-batch.pem"

/-- Where a CA in batch mode uploads its CRL batch; `none` when batches are off. -/
def crlBatchUri (config : CaConfig) : Except OpcaError (Option String) :=
  match config.crlBatchEnabled, config.text .caPrivateStore with
  | some true, some store => .ok (some (trimEndMatches '/' store ++ "/" ++ crlBatchFile))
  | some true, none =>
    .error (.storage "CRL batches need a private store: set one or turn CRL batches off")
  | _, _ => .ok none

/-- Refuses an update that would leave CRL batches on without a private store. -/
def checkCrlBatchUpdate (current updates : CaConfig) : Except OpcaError Unit := do
  let _ ← crlBatchUri {
    crlBatchEnabled := updates.crlBatchEnabled.or current.crlBatchEnabled
    text
      | .caPrivateStore =>
        match updates.text .caPrivateStore with
        | some store => nonBlank (some store)
        | none => current.text .caPrivateStore
      | _ => none }
  return

/-- How many CRLs are signed at once, and for how long each. -/
def crlPlan (config : CaConfig) (batchUri : Option String) : Int × Nat :=
  match batchUri with
  | some _ => (crlBatchWindowDays, crlBatchSize)
  | none => ((config.number .crlDays).getD 30, 1)

/-- The batch that is signed now, from a number on. -/
def plannedBatch (config : CaConfig) (batchUri : Option String) (now : Time)
    (firstNumber : Int) : CrlBatch where
  t0 := now
  periodDays := crlBatchPeriodDays
  windowDays := (crlPlan config batchUri).1
  count := (crlPlan config batchUri).2
  firstNumber

/-- A CRL as it is signed. -/
structure SignedCrl where
  number : Int
  thisUpdate : Time
  nextUpdate : Time
  revoked : List CrlEntry
  deriving DecidableEq, Repr

namespace CrlBatch

def thisUpdate (batch : CrlBatch) (i : Nat) : Time := batch.t0 + i * batch.periodDays * day

def nextUpdate (batch : CrlBatch) (i : Nat) : Time :=
  batch.thisUpdate i + batch.windowDays * day

/-- The number of a batch's CRL. -/
def number (batch : CrlBatch) (i : Nat) : Int := wrapI64 (batch.firstNumber + i)

/-- The numbers of a batch's CRLs. -/
def numbers (batch : CrlBatch) : List Int := (List.range batch.count).map batch.number

end CrlBatch

/-- A batch's CRLs; `signed` is what signing them answers. -/
def buildCrls (batch : CrlBatch) (entries : List CrlEntry) (signed : Except OpcaError Unit) :
    Except OpcaError (List SignedCrl) :=
  match batch.numbers.find? (· < 0) with
  | some number => .error (.crypto s!"CRL number {number} is negative")
  | none => signed.map fun _ => (List.range batch.count).map fun i =>
    ⟨batch.number i, batch.thisUpdate i, batch.nextUpdate i, entries⟩

/-- The batch's row, and the counter past its numbers; or no batch. -/
def recordBatch (batchUri : Option String) (batch : CrlBatch) : DbM Unit :=
  match batchUri with
  | some _ => do
    updateConfig { nextCrlSerial := some (wrapI64 (batch.firstNumber + batch.count)) }
    upsertCrlBatch batch
  | none => clearCrlBatch

/-- What signing and storing a CRL needs from outside. -/
structure Publishing where
  /-- Whether the CA's certificate and its key are there. -/
  ready : Except OpcaError Unit
  signed : Except OpcaError Unit
  /-- The issuer's name as the first CRL reads back. -/
  issuer : Except OpcaError (Option String)
  /-- The first CRL's item in 1Password. -/
  stored : Except OpcaError Unit

/-- Signs a batch's CRLs and stores the first as the `CRL` item. -/
def publishCrls (times : OpensslTimes) (batchUri : Option String) (batch : CrlBatch)
    (entries : List CrlEntry) (publishing : Publishing) : DbM (List SignedCrl) := do
  let crls ← outcome (buildCrls batch entries publishing.signed)
  recordBatch batchUri batch
  giveAll (crls.map (.crlNumber ·.number))
  let issuer ← outcome publishing.issuer
  upsertCrlMetadata {
    issuer
    lastUpdate := some (times.format batch.t0)
    nextUpdate := some (times.format (batch.nextUpdate 0))
    crlNumber := some batch.firstNumber
    revokedCount := some entries.length
    revokedJson := none }
  outcome publishing.stored
  giveAll ((crls.take 1).map (.crl ·.number))
  return crls

/-- Sign the CRL, in batch mode a batch. -/
def generateCrl (times : OpensslTimes) (now : Time) (publishing : Publishing) :
    DbM (List SignedCrl) := do
  let _ ← processCaDatabase times now none false
  let db ← get
  let batchUri ← outcome (crlBatchUri db.tables.config.read)
  outcome publishing.ready
  let entries ← crlEntries
  let firstNumber ← incrementSerial .crl none
  publishCrls times batchUri
    (plannedBatch db.tables.config.read batchUri (wholeSeconds now) firstNumber) entries
    publishing

/-- Uploads a batch's CRLs, once the database is stored. -/
def uploadBatch (batchUri : Option String) (numbers : List Int)
    (uploaded : Except OpcaError Unit) : DbM Unit :=
  match batchUri with
  | none => return
  | some _ => do
    outcome uploaded
    giveAll (numbers.map .crl)

/-! ## Operations -/

def updateCaConfig (updates : CaConfig) : DbM Issued := do
  let db ← get
  outcome (checkCrlBatchUpdate db.tables.config.read updates)
  updateConfig updates
  return .nothing

/-- What an operator's session does between loading and storing the database. -/
inductive Operation where
  | generate (itemTitle : String) (cert : CertAttribs) (signing : Signing) (now : Time)
  | signCsr (cn : String) (cert : CertAttribs) (signing : Signing) (now : Time)
  | renew (lookup : CertLookup) (cert : CertAttribs) (signing : Signing)
      (renewing : Renewing)
  | rekey (lookup : CertLookup) (cert : CertAttribs) (signing : Signing)
      (renewing : Renewing)
  | signSubordinate (cert : CertAttribs) (signing : Signing)
      (permittedDomains : Except OpcaError (List String)) (endpoint : Option (String × String))
      (now : Time)
  | renewSubordinate (id : Int) (cert : CertAttribs) (signing : Signing)
      (requested : Option (Except OpcaError (List String))) (changeDomains : Bool)
      (user : String) (now : Time)
  | importBundle (cert : Imported) (title : String) (read stored : Except OpcaError Unit)
      (now : Time)
  | importCsrCert (cert : Imported) (cn : String) (row : Option String)
      (read stored : Except OpcaError Unit) (now : Time)
  | revoke (lookup : CertLookup) (now : Time)
  | revokeSubordinate (id : Int) (now : Time)
  | ignore (serial : String) (note : Option String) (user : String) (now : Time)
  | unignore (serial : String)
  | rename (srcTitle dstTitle : String) (renamed : Except OpcaError Unit)
  | delete (serial : String) (archived : Except OpcaError Unit) (user : String) (now : Time)
  | publish (lookup : CertLookup) (retrieved : Except OpcaError Bool)
      (uploaded : Except OpcaError Unit) (now : Time)
  | generateCrl (now : Time) (publishing : Publishing)
  | updateCaConfig (updates : CaConfig)
  /-- What a sync with a broker records. -/
  | reported (id : Int) (issuerState : Option String) (certs : List BrokerCert) (now : Time)
  /-- Rows of the other tables. -/
  | writeOther (rows : List (OtherTable × String × Option String))
  /-- The dashboard scans, and stores if any row changed. -/
  | rescan (now : Time)
  | backfill (serial : String) (bundle : Option CertAttribs)

namespace Operation

/-- What it gave out; nothing is stored when there is none. -/
def run (times : OpensslTimes) : Operation → DbM (Option Issued)
  | .generate itemTitle cert signing now =>
    some <$> generateCertificateBundle times itemTitle cert signing now
  | .signCsr cn cert signing now => some <$> Core.signCsr times cn cert signing now
  | .renew lookup cert signing renewing =>
    some <$> renewCertificateBundle times lookup cert signing renewing
  | .rekey lookup cert signing renewing =>
    some <$> rekeyCertificateBundle times lookup cert signing renewing
  | .signSubordinate cert signing permittedDomains endpoint now =>
    some <$> Core.signSubordinate times cert signing permittedDomains endpoint now
  | .renewSubordinate id cert signing requested changeDomains user now =>
    some <$> Core.renewSubordinate times id cert signing requested changeDomains user now
  | .importBundle cert title read stored now =>
    some <$> importCertificateBundle times cert title read stored now
  | .importCsrCert cert cn row read stored now =>
    some <$> Core.importCsrCert times cert cn row read stored now
  | .revoke lookup now => some <$> revokeCertificate times lookup now
  | .revokeSubordinate id now => some <$> Core.revokeSubordinate times id now
  | .ignore serial note user now =>
    some <$> ignoreCertificate serial note user (times.format now)
  | .unignore serial => some <$> unignoreCertificate serial
  | .rename srcTitle dstTitle renamed => some <$> renameCertbundle srcTitle dstTitle renamed
  | .delete serial archived user now =>
    some <$> deleteCertificate times serial archived user now
  | .publish lookup retrieved uploaded now =>
    some <$> publishCertificate lookup retrieved uploaded (times.format now)
  | .generateCrl now publishing =>
    (fun crls => some ⟨[], crls.map SignedCrl.number⟩) <$>
      Core.generateCrl times now publishing
  | .updateCaConfig updates => some <$> Core.updateCaConfig updates
  | .reported id issuerState certs now => do
    Core.reported id issuerState (times.format now)
    recordBrokerCerts certs
    return some .nothing
  | .writeOther rows => do
    rows.forM fun row => Core.writeOther row.1 row.2.1 row.2.2
    return some .nothing
  | .rescan now => do
    let changed ← processCaDatabase times now none false
    return if changed then some .nothing else none
  | .backfill serial bundle => do
    let changed ← backfillCert times serial bundle
    return if changed then some .nothing else none

/-- Whether it runs under the vault lock; the CLI sets configuration, and the desktop
fills in and scans, without. -/
def locked : Operation → Bool
  | .updateCaConfig _ | .writeOther _ | .rescan _ | .backfill _ _ => false
  | _ => true

/-- It takes no counter back: what it takes leaves the counter an `i64`, and what it sets
is no lower than what stands there. -/
def RaisesCounters (db : CaDatabase) : Operation → Prop
  | .generate _ _ _ _ | .signCsr _ _ _ _ | .renew _ _ _ _ | .rekey _ _ _ _
  | .signSubordinate _ _ _ _ _ | .renewSubordinate _ _ _ _ _ _ _ =>
    db.tables.config.counter .cert < i64Max
  | .importBundle cert _ _ _ now => isCertValid cert now = true → ∀ serial,
    parseI64 cert.serial = some serial → db.tables.config.current .cert (some serial) < i64Max
  | .generateCrl _ _ => ∀ uri, crlBatchUri db.tables.config.read = .ok uri →
    db.tables.config.counter .crl + (crlPlan db.tables.config.read uri).2 ≤ i64Max
  | .updateCaConfig updates => ∀ kind,
    db.tables.config.counter kind ≤ (db.tables.config.update updates).counter kind
  | _ => True

end Operation

end Opca.Core

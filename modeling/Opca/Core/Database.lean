/-
  Core/Database.lean --- the CA database: its configuration and counters, its
  certificates, CRLs and brokers, and the statements over them
  (`services/database/mod.rs`, `services/database/models.rs`).

  A counter, which is kept as text, is given as what it reads back as.  A statement
  changes the database that it runs on, and one that fails leaves it as it is.
-/
import Mathlib.Data.List.Sort
import Opca.Acme.Issue
import Opca.Core.BrokerCerts
import Opca.Foundation.Stateful
import Opca.Foundation.Text

set_option autoImplicit false

namespace Opca.Core

open Opca.Foundation Acme

/-! ## Configuration -/

inductive ConfigText where
  | org | ou | email | city | state | country | caUrl | crlUrl
  | caPublicStore | caPrivateStore | caBackupStore | caAwsRegion
  deriving DecidableEq, Repr

inductive ConfigNumber where
  | days | crlDays | schemaVersion
  | webServerDays | vpnServerDays | vpnClientDays | deviceDays
  deriving DecidableEq, Repr

/-- The row of `config`, or an update of some of its columns. -/
structure CaConfig where
  nextSerial : Option Int := none
  nextCrlSerial : Option Int := none
  text : ConfigText → Option String := fun _ => none
  number : ConfigNumber → Option Int := fun _ => none
  crlBatchEnabled : Option Bool := none

/-- An unset field is stored as `""`, which must read back as unset. -/
def nonBlank (value : Option String) : Option String :=
  value.filter fun v => trim v ≠ ""

/-- A per-type lifetime is cleared by storing 0, which must read back as unset. -/
def positive (value : Option Int) : Option Int := value.filter (0 < ·)

/-- The configuration as it reads back. -/
def CaConfig.read (config : CaConfig) : CaConfig where
  nextSerial := config.nextSerial
  nextCrlSerial := config.nextCrlSerial
  text column := nonBlank (config.text column)
  number
    | .days => config.number .days
    | .crlDays => config.number .crlDays
    | .schemaVersion => config.number .schemaVersion
    | .webServerDays => positive (config.number .webServerDays)
    | .vpnServerDays => positive (config.number .vpnServerDays)
    | .vpnClientDays => positive (config.number .vpnClientDays)
    | .deviceDays => positive (config.number .deviceDays)
  crlBatchEnabled := config.crlBatchEnabled

/-- The columns that `updates` gives, and the others as they were. -/
def CaConfig.update (config updates : CaConfig) : CaConfig where
  nextSerial := updates.nextSerial.or config.nextSerial
  nextCrlSerial := updates.nextCrlSerial.or config.nextCrlSerial
  text column := (updates.text column).or (config.text column)
  number column := (updates.number column).or (config.number column)
  crlBatchEnabled := updates.crlBatchEnabled.or config.crlBatchEnabled

inductive SerialType where
  | cert | crl
  deriving DecidableEq, Repr

/-- The next serial or CRL number; a blank counter starts at 1. -/
def CaConfig.counter (config : CaConfig) : SerialType → Int
  | .cert => config.nextSerial.getD 1
  | .crl => config.nextCrlSerial.getD 1

def CaConfig.setCounter (config : CaConfig) (value : Int) : SerialType → CaConfig
  | .cert => { config with nextSerial := some value }
  | .crl => { config with nextCrlSerial := some value }

/-- A sum of an `i64` and one that is not negative. -/
def wrapI64 (n : Int) : Int := if i64Max < n then n - 18446744073709551616 else n

theorem wrapI64_of_le {n : Int} (h : n ≤ i64Max) : wrapI64 n = n := if_neg (not_lt.mpr h)

/-! ## Rows -/

/-- A row of `certificate_authority`. -/
structure CertRecord where
  serial : String
  cn : Option String
  title : Option String
  status : Option String
  expiryDate : Option String
  revocationDate : Option String
  subject : Option String
  certType : Option String
  notBefore : Option String
  keyType : Option String
  keySize : Option Int
  issuer : Option String
  san : Option String
  ignoredAt : Option String
  ignoredBy : Option String
  ignoredReason : Option String
  ignoredNote : Option String
  hasPrivateKey : Option Bool
  hasChain : Option Bool
  deletedAt : Option String
  publishedAt : Option String
  deriving DecidableEq, Repr

/-- The rows of `certificate_authority`, whose primary key is the serial. -/
structure CaCertificates where
  rows : List CertRecord
  serials_nodup : (rows.map CertRecord.serial).Nodup

namespace CaCertificates

def empty : CaCertificates := ⟨[], List.nodup_nil⟩

def add (t : CaCertificates) (record : CertRecord) : Option CaCertificates :=
  if h : ((t.rows ++ [record]).map CertRecord.serial).Nodup then some ⟨t.rows ++ [record], h⟩
  else none

/-- Rows changed in place, none of them its serial. -/
def map (t : CaCertificates) (f : CertRecord → CertRecord)
    (hf : ∀ c, (f c).serial = c.serial) : CaCertificates where
  rows := t.rows.map f
  serials_nodup := by
    have hserials : (t.rows.map f).map CertRecord.serial = t.rows.map CertRecord.serial := by
      rw [List.map_map]
      exact List.map_congr_left fun c _ => hf c
    rw [hserials]
    exact t.serials_nodup

end CaCertificates

/-- A row of `external_certificate`. -/
structure ExternalCertRecord where
  serial : String
  cn : Option String
  title : Option String
  status : Option String
  expiryDate : Option String
  subject : Option String
  issuer : Option String
  issuerSubject : Option String
  importDate : Option String
  certType : Option String
  notBefore : Option String
  keyType : Option String
  keySize : Option Int
  san : Option String
  hasPrivateKey : Option Bool
  hasChain : Option Bool
  deriving DecidableEq, Repr

structure CrlMetadata where
  issuer : Option String
  lastUpdate : Option String
  nextUpdate : Option String
  crlNumber : Option Int
  revokedCount : Option Int
  revokedJson : Option String
  deriving DecidableEq, Repr

/-- The last pre-signed CRL batch. -/
structure CrlBatch where
  t0 : Time
  periodDays : Int
  windowDays : Int
  count : Nat
  firstNumber : Int
  deriving DecidableEq, Repr

inductive BrokerState where
  | active | revoked
  deriving DecidableEq, Repr

/-- A subordinate CA and the ACME broker holding its key. -/
structure Broker where
  id : Int
  subordinateSerial : String
  url : Option String
  pinnedKey : Option String
  permittedDomains : List String
  state : BrokerState
  lastContact : Option String
  createdAt : String
  updatedAt : String
  issuerState : Option String
  deriving DecidableEq, Repr

/-- The tables that nothing modelled here reads, each a text for each key. -/
inductive OtherTable where
  | csr | openvpnTemplate | openvpnProfile | dkimKey
  deriving DecidableEq, Repr

/-- What the database document holds. -/
structure Tables where
  config : CaConfig
  certificates : CaCertificates
  externals : List ExternalCertRecord
  crlMetadata : Option CrlMetadata
  crlBatch : Option CrlBatch
  brokers : Table Broker Broker.id
  brokerCerts : BrokerCerts
  other : OtherTable → String → Option String

/-- What the CA has given out.  The code keeps no record of it; what is said here of
serials and CRL numbers is said of this one. -/
inductive Given where
  /-- `issue` took a serial for a certificate. -/
  | serial (n : Int)
  /-- A certificate that this CA signed went into an item. -/
  | item (serial : String)
  /-- A subordinate was signed for a key. -/
  | subordinate (serial key : String)
  /-- A number went into a CRL that was signed. -/
  | crlNumber (n : Int)
  /-- A CRL of that number was stored or uploaded. -/
  | crl (n : Int)
  /-- `revoke_certificate` has found a certificate and returned. -/
  | revoked (serial : String) (at_ : Time)
  deriving DecidableEq, Repr

/-- The database in memory. -/
structure CaDatabase where
  tables : Tables
  /-- Whether anything changed since the last scan. -/
  dirty : Bool
  /-- The unexpired revoked certificates that the last scan found. -/
  certsRevoked : List String
  given : List Given

def CaDatabase.fromTables (tables : Tables) (given : List Given) : CaDatabase :=
  ⟨tables, true, [], given⟩

/-- A computation over the database. -/
abbrev DbM := EStateM OpcaError CaDatabase

def giveAll (what : List Given) : DbM Unit :=
  modify fun db => { db with given := db.given ++ what }

def give (what : Given) : DbM Unit := giveAll [what]

/-! ## Selecting -/

/-- The digits at the front of a text, as SQLite reads an integer from it. -/
def integerPrefix (cs : List Char) : Nat := Nat.ofDigitChars 10 (cs.takeWhile Char.isDigit) 0

/-- `CAST(… AS INTEGER)` of a text: what of it reads as an integer, within 64 bits. -/
def castInteger (text : String) : Int :=
  match text.toList.dropWhile Char.isWhitespace with
  | '-' :: cs => max (-2 ^ 63) (-(integerPrefix cs : Int))
  | '+' :: cs => min (2 ^ 63 - 1) (integerPrefix cs : Int)
  | cs => min (2 ^ 63 - 1) (integerPrefix cs : Int)

def serialLe (a b : CertRecord) : Prop := castInteger a.serial ≤ castInteger b.serial

instance : DecidableRel serialLe := fun a b =>
  inferInstanceAs (Decidable (castInteger a.serial ≤ castInteger b.serial))

/-- `select_certs`: rows ordered by the serial as an integer. -/
def selectCerts (rows : List CertRecord) : List CertRecord := rows.insertionSort serialLe

theorem mem_selectCerts {rows : List CertRecord} {c : CertRecord} :
    c ∈ selectCerts rows ↔ c ∈ rows := List.mem_insertionSort _

/-! ## Statements -/

/-- `trunc_subsecs(0)`. -/
def wholeSeconds (t : Time) : Time := t / second * second

theorem wholeSeconds_le (t : Time) : wholeSeconds t ≤ t :=
  Int.ediv_mul_le t (by decide)

/-- The whole seconds from the year 0 to 9999, which is what a certificate can say. -/
def IsAsn1Time (t : Time) : Prop :=
  t % second = 0 ∧ -62167219200 * second ≤ t ∧ t ≤ 253402300799 * second

instance (t : Time) : Decidable (IsAsn1Time t) := inferInstanceAs (Decidable (_ ∧ _))

abbrev Asn1Time := { t : Time // IsAsn1Time t }

/-- What reading and writing times takes from `chrono`, in the format `%Y%m%d%H%M%SZ`. -/
structure OpensslTimes where
  parse : String → Option Time
  format : Time → String

/-- What is written of a certificate's time reads back. -/
structure OpensslTimes.Reads (times : OpensslTimes) : Prop where
  parse_format : ∀ t : Asn1Time, times.parse (times.format t) = some t.val
  format_ne : ∀ t, times.format t ≠ ""

/-- The number a counter gives next, which is `serialNumber` if that is higher. -/
def CaConfig.current (config : CaConfig) (serialType : SerialType)
    (serialNumber : Option Int) : Int :=
  serialNumber.elim (config.counter serialType) (max (config.counter serialType))

/-- Get the current serial number and increment the counter past it. -/
def incrementSerial (serialType : SerialType) (serialNumber : Option Int) : DbM Int :=
  fun db =>
    let current := db.tables.config.current serialType serialNumber
    let config := db.tables.config.setCounter (wrapI64 (current + 1)) serialType
    .ok current { db with tables := { db.tables with config }, dirty := true }

def updateConfig (updates : CaConfig) : DbM Unit := fun db =>
  let config := db.tables.config.update updates
  .ok () { db with tables := { db.tables with config } }

def addCert (record : CertRecord) : DbM Unit := fun db =>
  match db.tables.certificates.add record with
  | none => .error (.database "UNIQUE constraint failed: certificate_authority.serial") db
  | some certificates =>
    .ok () { db with tables := { db.tables with certificates }, dirty := true }

def addExternalCert (record : ExternalCertRecord) : DbM Unit := fun db =>
  if record.serial ∈ db.tables.externals.map ExternalCertRecord.serial then
    .error (.database "UNIQUE constraint failed: external_certificate.serial") db
  else
    let externals := db.tables.externals ++ [record]
    .ok () { db with tables := { db.tables with externals }, dirty := true }

/-- `UPDATE certificate_authority` of the rows that meet `p`; an error when there is none. -/
def updateCerts (p : CertRecord → Bool) (f : CertRecord → CertRecord)
    (hf : ∀ c, (f c).serial = c.serial) (missing : OpcaError) : DbM Unit := fun db =>
  if db.tables.certificates.rows.any p then
    let certificates := db.tables.certificates.map (fun c => if p c then f c else c)
      fun c => by
        split
        · exact hf c
        · rfl
    .ok () { db with tables := { db.tables with certificates }, dirty := true }
  else .error missing db

def noCertificate (serial : String) : OpcaError :=
  .database s!"No certificate found with serial number {serial}."

inductive IgnoreReason where
  | manual | renewed | rekeyed | deleted
  deriving DecidableEq, Repr

def IgnoreReason.asStr : IgnoreReason → String
  | .manual => "manual"
  | .renewed => "renewed"
  | .rekeyed => "rekeyed"
  | .deleted => "deleted"

def ignoreCert (serial : String) (reason : IgnoreReason) (user : String)
    (note : Option String) (now : String) : DbM Unit :=
  updateCerts (·.serial = serial)
    (fun c => { c with
      ignoredAt := some now, ignoredBy := some user, ignoredReason := some reason.asStr,
      ignoredNote := note })
    (fun _ => rfl) (noCertificate serial)

def unignoreCert (serial : String) : DbM Unit :=
  updateCerts (·.serial = serial)
    (fun c => { c with
      ignoredAt := none, ignoredBy := none, ignoredReason := none, ignoredNote := none })
    (fun _ => rfl) (noCertificate serial)

/-- Hides a certificate from listings; its row stays for the CRL. -/
def markCertDeleted (serial now : String) : DbM Unit :=
  updateCerts (fun c => c.serial = serial && c.deletedAt.isNone)
    (fun c => { c with deletedAt := some now }) (fun _ => rfl) (.certificateNotFound serial)

/-- Stamps a certificate as the one published for its CN, unstamping any other. -/
def markCertPublished (serial cn now : String) : DbM Unit :=
  updateCerts (fun c => c.serial = serial || (c.cn = some cn && c.publishedAt.isSome))
    (fun c => { c with publishedAt := if c.serial = serial then some now else none })
    (fun _ => rfl) (.certificateNotFound serial)

inductive CertLookup where
  | serial (serial : String)
  | cn (cn : String)
  | title (title : String)
  deriving DecidableEq, Repr

def CertLookup.finds (lookup : CertLookup) (c : CertRecord) : Bool :=
  match lookup with
  | .serial value => c.serial = value
  | .cn value => c.cn = some value
  | .title value => c.title = some value

def queryCert (lookup : CertLookup) (validOnly : Bool) : DbM (Option CertRecord) := fun db =>
  .ok (db.tables.certificates.rows.find? fun c =>
    lookup.finds c && (!validOnly || c.status = some "Valid")) db

def upsertCrlMetadata (metadata : CrlMetadata) : DbM Unit := fun db =>
  .ok () { db with tables := { db.tables with crlMetadata := some metadata } }

def upsertCrlBatch (batch : CrlBatch) : DbM Unit := fun db =>
  .ok () { db with tables := { db.tables with crlBatch := some batch } }

def clearCrlBatch : DbM Unit := fun db =>
  .ok () { db with tables := { db.tables with crlBatch := none } }

def addBroker (serial : String) (domains : List String) (now : String) : DbM Int := fun db =>
  let brokers := db.tables.brokers.insert
    (fun id => ⟨id, serial, none, none, domains, .active, none, now, now, none⟩) fun _ => rfl
  .ok (nextKey Broker.id db.tables.brokers.rows)
    { db with tables := { db.tables with brokers } }

/-- `UPDATE brokers` of the rows that meet `p`. -/
def updateBrokers (p : Broker → Bool) (f : Broker → Broker) (hf : ∀ b, (f b).id = b.id) :
    DbM Unit := fun db =>
  .ok () { db with tables := { db.tables with brokers := db.tables.brokers.update p f hf } }

def setBrokerEndpoint (id : Int) (url pinnedKey now : String) : DbM Unit :=
  updateBrokers (·.id = id)
    (fun b => { b with url := some url, pinnedKey := some pinnedKey, updatedAt := now })
    fun _ => rfl

/-- A broker has answered, and said how it stands. -/
def reported (id : Int) (issuerState : Option String) (now : String) : DbM Unit := do
  updateBrokers (·.id = id) (fun b => { b with lastContact := some now }) fun _ => rfl
  updateBrokers (·.id = id) (fun b => { b with issuerState }) fun _ => rfl

def queryBroker (id : Int) : DbM (Option Broker) := fun db =>
  .ok (db.tables.brokers.get? id) db

def moveBrokerTo (id : Int) (serial : String) (domains : List String) (now : String) :
    DbM Unit :=
  updateBrokers (·.id = id)
    (fun b => { b with
      subordinateSerial := serial, permittedDomains := domains, updatedAt := now })
    fun _ => rfl

/-- Marks the broker whose current subordinate is `serial`, however it was revoked. -/
def revokeBrokersOf (serial now : String) : DbM Unit :=
  updateBrokers (·.subordinateSerial = serial)
    (fun b => { b with state := .revoked, updatedAt := now }) fun _ => rfl

def recordBrokerCerts (certs : List BrokerCert) : DbM Unit := fun db =>
  let brokerCerts := db.tables.brokerCerts.recordBrokerCerts certs
  .ok () { db with tables := { db.tables with brokerCerts } }

/-- Writes or deletes a row of another table. -/
def writeOther (table : OtherTable) (key : String) (row : Option String) : DbM Unit :=
  fun db =>
    let other t k := if t = table ∧ k = key then row else db.tables.other t k
    .ok () { db with tables := { db.tables with other } }

/-! ## The scan -/

/-- When a row expires, if it says so. -/
def expiryOf (times : OpensslTimes) (expiryDate : Option String) : Option Time :=
  expiryDate.bind fun text => if text = "" then none else times.parse text

def CertRecord.isRevoked (c : CertRecord) : Bool :=
  c.revocationDate.any (· ≠ "") || c.status = some "Revoked"

/-- Whether this scan revokes the row. -/
def CertRecord.isRevoking (c : CertRecord) (revokeSerial : Option String) : Bool :=
  !c.isRevoked && revokeSerial = some c.serial

/-- A row after the scan. -/
def processCert (times : OpensslTimes) (now : Time) (revokeSerial : Option String)
    (c : CertRecord) : CertRecord :=
  match expiryOf times c.expiryDate with
  | none => c
  | some expiry =>
    if expiry < now then { c with status := some "Expired" }
    else if c.isRevoking revokeSerial then
      { c with status := some "Revoked", revocationDate := some (times.format now) }
    else if c.isRevoked then { c with status := some "Revoked" }
    else c

/-- Whether the scan counts a row as revoked. -/
def processedRevoked (times : OpensslTimes) (now : Time) (revokeSerial : Option String)
    (c : CertRecord) : Bool :=
  (expiryOf times c.expiryDate).any fun expiry =>
    now ≤ expiry && (c.isRevoked || c.isRevoking revokeSerial)

/-- An external certificate's row after the scan. -/
def processExternal (times : OpensslTimes) (now : Time) (c : ExternalCertRecord) :
    ExternalCertRecord :=
  match expiryOf times c.expiryDate with
  | none => c
  | some expiry => if expiry < now then { c with status := some "Expired" } else c

/-- All that the scan changes of a row. -/
theorem exists_processCert (times : OpensslTimes) (now : Time)
    (revokeSerial : Option String) (c : CertRecord) : ∃ status revocationDate,
    processCert times now revokeSerial c = { c with status, revocationDate } := by
  unfold processCert
  split
  · exact ⟨_, _, rfl⟩
  · split
    · exact ⟨_, _, rfl⟩
    · split
      · exact ⟨_, _, rfl⟩
      · split <;> exact ⟨_, _, rfl⟩

@[simp] theorem processCert_serial (times : OpensslTimes) (now : Time)
    (revokeSerial : Option String) (c : CertRecord) :
    (processCert times now revokeSerial c).serial = c.serial := by
  obtain ⟨_, _, h⟩ := exists_processCert times now revokeSerial c
  rw [h]

@[simp] theorem processCert_expiryDate {times : OpensslTimes} {now : Time}
    {revokeSerial : Option String} {c : CertRecord} :
    (processCert times now revokeSerial c).expiryDate = c.expiryDate := by
  obtain ⟨_, _, h⟩ := exists_processCert times now revokeSerial c
  rw [h]

/-- Updates statuses by the expiry dates, and revokes one certificate if asked to.
Whether any row was modified. -/
def processCaDatabase (times : OpensslTimes) (now : Time) (revokeSerial : Option String)
    (force : Bool) : DbM Bool := fun db =>
  if !db.dirty && revokeSerial.isNone && !force then .ok false db
  else
    let before := db.tables.certificates
    let certificates := before.map (processCert times now revokeSerial) (by simp)
    let externals := db.tables.externals.map (processExternal times now)
    let certsRevoked := (before.rows.filter (processedRevoked times now revokeSerial)).map
      CertRecord.serial
    .ok (certificates.rows ≠ before.rows || externals ≠ db.tables.externals)
      ⟨{ db.tables with certificates, externals }, false, certsRevoked, db.given⟩

structure CrlEntry where
  serial : String
  revocationDate : String
  deriving DecidableEq, Repr

/-- What the CRL lists: every revoked certificate of the last scan with a date. -/
def crlEntries : DbM (List CrlEntry) := fun db =>
  .ok (db.certsRevoked.filterMap fun serial =>
    (db.tables.certificates.rows.find? (·.serial = serial)).bind fun c =>
      (c.revocationDate.filter (· ≠ "")).map fun date => ⟨serial, date⟩) db

/-! ## What no statement takes back -/

/-- A row after another: the same certificate, revoked still if it was. -/
structure CertRecord.Succeeds (before after : CertRecord) : Prop where
  serial : after.serial = before.serial
  revoked : ∀ date, before.revocationDate = some date → date ≠ "" →
    after.revocationDate = some date

theorem CertRecord.Succeeds.refl (c : CertRecord) : c.Succeeds c := ⟨rfl, fun _ h _ => h⟩

theorem CertRecord.Succeeds.trans {a b c : CertRecord} (hab : a.Succeeds b)
    (hbc : b.Succeeds c) : a.Succeeds c :=
  ⟨hbc.serial.trans hab.serial,
    fun date hdate hne => hbc.revoked date (hab.revoked date hdate hne) hne⟩

/-- Every row is there still, and revoked if it was. -/
def Tables.Keeps (before after : Tables) : Prop :=
  ∀ c ∈ before.certificates.rows, ∃ c' ∈ after.certificates.rows, c.Succeeds c'

theorem Tables.Keeps.refl (t : Tables) : t.Keeps t := fun c hc => ⟨c, hc, .refl c⟩

theorem Tables.Keeps.trans {a b c : Tables} (hab : a.Keeps b) (hbc : b.Keeps c) :
    a.Keeps c := by
  intro row hrow
  obtain ⟨row', hrow', hsucceeds⟩ := hab row hrow
  obtain ⟨row'', hrow'', hsucceeds'⟩ := hbc row' hrow'
  exact ⟨row'', hrow'', hsucceeds.trans hsucceeds'⟩

/-- Rows stay, the configuration is as it was, and nothing is given out. -/
structure KeepsConfig (before after : CaDatabase) : Prop where
  keeps : before.tables.Keeps after.tables
  config : after.tables.config = before.tables.config
  given : after.given = before.given

instance : Std.Refl KeepsConfig where
  refl db := ⟨.refl db.tables, rfl, rfl⟩

instance : IsTrans CaDatabase KeepsConfig where
  trans _ _ _ hab hbc :=
    ⟨hab.keeps.trans hbc.keeps, hbc.config.trans hab.config, hbc.given.trans hab.given⟩

variable {db : CaDatabase}

theorem keepsConfig_of_eq {after : CaDatabase}
    (hcertificates : after.tables.certificates = db.tables.certificates)
    (hconfig : after.tables.config = db.tables.config) (hgiven : after.given = db.given) :
    KeepsConfig db after := by
  refine ⟨?_, hconfig, hgiven⟩
  intro c hc
  rw [hcertificates]
  exact ⟨c, hc, .refl c⟩

/-- A statement that cannot fail moves the database where its result does. -/
theorem moves_of_ok {α : Type} {m : DbM α} {value : CaDatabase → α}
    {after : CaDatabase → CaDatabase} (hm : ∀ db, m db = .ok (value db) (after db))
    (hafter : ∀ db, KeepsConfig db (after db)) : Moves KeepsConfig m :=
  .of_total hm hafter

theorem CaCertificates.rows_add {t t' : CaCertificates} {record : CertRecord}
    (h : t.add record = some t') : t'.rows = t.rows ++ [record] := by
  unfold CaCertificates.add at h
  split at h
  · cases h
    rfl
  · cases h

theorem addCert_moves (record : CertRecord) : Moves KeepsConfig (addCert record) := by
  refine .of_step ?_ ?_
  · intro db a t h
    unfold addCert at h
    split at h
    next => cases h
    next certificates hadd =>
      cases h
      refine ⟨?_, rfl, rfl⟩
      intro c hc
      refine ⟨c, ?_, .refl c⟩
      rw [show _ = _ from CaCertificates.rows_add hadd]
      exact List.mem_append_left _ hc
  · intro db e t h
    unfold addCert at h
    split at h
    next =>
      cases h
      exact Std.Refl.refl db
    next => cases h

theorem addExternalCert_moves (record : ExternalCertRecord) :
    Moves KeepsConfig (addExternalCert record) := by
  refine .of_step ?_ ?_
  · intro db a t h
    unfold addExternalCert at h
    split at h
    · cases h
    · cases h
      exact keepsConfig_of_eq rfl rfl rfl
  · intro db e t h
    unfold addExternalCert at h
    split at h
    · cases h
      exact Std.Refl.refl db
    · cases h

/-- Rows that are changed in place into ones that succeed them. -/
theorem keeps_map {t t' : Tables} {f : CertRecord → CertRecord}
    (hrows : t'.certificates.rows = t.certificates.rows.map f)
    (hsucceeds : ∀ c, CertRecord.Succeeds c (f c)) : t.Keeps t' := by
  intro c hc
  rw [hrows]
  exact ⟨f c, List.mem_map_of_mem hc, hsucceeds c⟩

theorem updateCerts_moves {p : CertRecord → Bool} {f : CertRecord → CertRecord}
    {hf : ∀ c, (f c).serial = c.serial} {missing : OpcaError}
    (hdate : ∀ c, (f c).revocationDate = c.revocationDate) :
    Moves KeepsConfig (updateCerts p f hf missing) := by
  refine .of_step ?_ ?_
  · intro db a t h
    unfold updateCerts at h
    split at h
    · cases h
      refine ⟨keeps_map rfl ?_, rfl, rfl⟩
      intro c
      split
      · exact ⟨hf c, fun date hrevoked _ => (hdate c).trans hrevoked⟩
      · exact .refl c
    · cases h
  · intro db e t h
    unfold updateCerts at h
    split at h
    · cases h
    · cases h
      exact Std.Refl.refl db

theorem ignoreCert_moves (serial : String) (reason : IgnoreReason) (user : String)
    (note : Option String) (now : String) :
    Moves KeepsConfig (ignoreCert serial reason user note now) :=
  updateCerts_moves fun _ => rfl

theorem unignoreCert_moves (serial : String) : Moves KeepsConfig (unignoreCert serial) :=
  updateCerts_moves fun _ => rfl

theorem markCertDeleted_moves (serial now : String) :
    Moves KeepsConfig (markCertDeleted serial now) :=
  updateCerts_moves fun _ => rfl

theorem markCertPublished_moves (serial cn now : String) :
    Moves KeepsConfig (markCertPublished serial cn now) :=
  updateCerts_moves fun _ => rfl

theorem queryCert_moves (lookup : CertLookup) (validOnly : Bool) :
    Moves KeepsConfig (queryCert lookup validOnly) :=
  moves_of_ok (fun _ => rfl) fun _ => Std.Refl.refl _

theorem crlEntries_moves : Moves KeepsConfig crlEntries :=
  moves_of_ok (fun _ => rfl) fun _ => Std.Refl.refl _

theorem upsertCrlMetadata_moves (metadata : CrlMetadata) :
    Moves KeepsConfig (upsertCrlMetadata metadata) :=
  moves_of_ok (fun _ => rfl) fun _ => keepsConfig_of_eq rfl rfl rfl

theorem upsertCrlBatch_moves (batch : CrlBatch) : Moves KeepsConfig (upsertCrlBatch batch) :=
  moves_of_ok (fun _ => rfl) fun _ => keepsConfig_of_eq rfl rfl rfl

theorem clearCrlBatch_moves : Moves KeepsConfig clearCrlBatch :=
  moves_of_ok (fun _ => rfl) fun _ => keepsConfig_of_eq rfl rfl rfl

theorem addBroker_moves (serial : String) (domains : List String) (now : String) :
    Moves KeepsConfig (addBroker serial domains now) :=
  moves_of_ok (fun _ => rfl) fun _ => keepsConfig_of_eq rfl rfl rfl

theorem updateBrokers_moves {p : Broker → Bool} {f : Broker → Broker}
    {hf : ∀ b, (f b).id = b.id} : Moves KeepsConfig (updateBrokers p f hf) :=
  moves_of_ok (fun _ => rfl) fun _ => keepsConfig_of_eq rfl rfl rfl

theorem recordBrokerCerts_moves (certs : List BrokerCert) :
    Moves KeepsConfig (recordBrokerCerts certs) :=
  moves_of_ok (fun _ => rfl) fun _ => keepsConfig_of_eq rfl rfl rfl

theorem reported_moves (id : Int) (issuerState : Option String) (now : String) :
    Moves KeepsConfig (reported id issuerState now) :=
  updateBrokers_moves.bind fun _ => updateBrokers_moves

theorem writeOther_moves (table : OtherTable) (key : String) (row : Option String) :
    Moves KeepsConfig (writeOther table key row) :=
  moves_of_ok (fun _ => rfl) fun _ => keepsConfig_of_eq rfl rfl rfl

/-- The scan dates no revoked certificate again. -/
theorem processCert_succeeds (times : OpensslTimes) (now : Time)
    (revokeSerial : Option String) (c : CertRecord) :
    c.Succeeds (processCert times now revokeSerial c) := by
  refine ⟨processCert_serial times now revokeSerial c, ?_⟩
  intro date hdate hne
  have hrevoked : c.isRevoked = true := by
    unfold CertRecord.isRevoked
    rw [hdate]
    simp [hne]
  unfold processCert
  split
  · exact hdate
  · split
    · exact hdate
    · split
      next hrevoking =>
        unfold CertRecord.isRevoking at hrevoking
        rw [hrevoked] at hrevoking
        cases hrevoking
      next => exact hdate

theorem processCaDatabase_moves (times : OpensslTimes) (now : Time)
    (revokeSerial : Option String) (force : Bool) :
    Moves KeepsConfig (processCaDatabase times now revokeSerial force) := by
  refine .of_step ?_ ?_
  · intro db a t h
    unfold processCaDatabase at h
    split at h
    · cases h
      exact Std.Refl.refl db
    · cases h
      exact ⟨keeps_map rfl (processCert_succeeds times now revokeSerial), rfl, rfl⟩
  · intro db e t h
    unfold processCaDatabase at h
    split at h <;> cases h

end Opca.Core

/-
  Core/Bundles.lean --- what a CA does to its database and to its vault's items together:
  bundles issued, imported, renewed and renamed, each an item and a row, and items looked
  up by title (`services/ca.rs`, `services/ca/subordinate.rs`).

  A document is an item that holds no certificate.  A title that several items have is
  refused by whatever looks it up.
-/
import Opca.Core.CsrImport
import Opca.Core.Life

set_option autoImplicit false

namespace Opca.Core

open Opca.Foundation Acme

/-- The database and the vault's items. -/
abbrev CaVault := Vaulted Empty
abbrev CaVaultM := VaultM Empty

/-! ## Items by title -/

/-- The item that a title names, if there is one; an error if there are several. -/
def itemTitled (title : String) (answer : Except OpcaError Unit) :
    CaVaultM (Option (Foundation.Item Fields)) := do
  outcome answer
  let s ← get
  match s.items.named title with
  | [] => return none
  | [item] => return some item
  | _ => throw (.other s!"More than one item matches \"{title}\"")

/-- `put_document`: a document that is there has its file replaced, which is nothing to
what is read of an item. -/
def putDocument (title : String) (answer : Except OpcaError Unit) : CaVaultM Unit := do
  match ← itemTitled title answer with
  | some _ => return
  | none => createItem title ⟨none, none, none⟩ (.ok ())

/-- `delete_item`, of which `ItemNotFound` is no error. -/
def archiveItem (title : String) (answer : Except OpcaError Unit) : CaVaultM Unit := do
  match ← itemTitled title answer with
  | some item => modify fun s => { s with items := s.items.remove item.id }
  | none => return

/-- `rename_item`. -/
def renameItem (srcTitle dstTitle : String) (answer : Except OpcaError Unit) :
    CaVaultM Unit := do
  match ← itemTitled srcTitle answer with
  | some item => modify fun s => { s with items := s.items.edit item.id (fun _ => dstTitle) id }
  | none => throw (.other s!"Item not found: {srcTitle}")

/-- `edit_item` of an item's certificate. -/
def putCertificate (title : String) (cert : Certificate) (answer : Except OpcaError Unit) :
    CaVaultM Unit := do
  match ← itemTitled title answer with
  | some item => modify fun s =>
    { s with
      items := s.items.edit item.id id fun fields => { fields with certificate := some cert } }
  | none => throw (.other s!"Item not found: {title}")

/-- `retrieve_certbundle`, which must find one. -/
def bundleTitled (title : String) (answer : Except OpcaError Unit) : CaVaultM Certificate := do
  match ← retrieveCertbundle title answer with
  | some cert => return cert
  | none => throw (.certificateNotFound title)

def caDatabaseTitle : String := "CA_Database"
def crlTitle : String := "CRL"

/-- `store_ca_database`. -/
def saveDatabase (saved : Except OpcaError Unit) : CaVaultM Unit := do
  putDocument caDatabaseTitle saved
  storeCaDatabase (.ok ())

/-! ## Bundles -/

/-- What issuing a bundle takes from outside: what the certificate says, what else its
item holds, and what signing and the vault answer. -/
structure Making where
  attribs : CertAttribs
  privateKey : Option String
  csr : Option String
  signing : Signing
  now : Time

variable (times : OpensslTimes)

/-- A certificate issued, its item and its row, and what else is done to the database. -/
def issueInto (making : Making) (title : String → String) (andThen : String → DbM Unit) :
    CaVaultM Issued := do
  outcome making.signing.ready
  let serial ← onVaulted (issue making.signing.signed)
  let record :=
    formatDbItem times making.now making.attribs (toString serial) (title (toString serial))
  storeBundle true record (title (toString serial))
    ⟨some ⟨toString serial, making.attribs, none⟩, making.privateKey, making.csr⟩
    making.signing.stored (addCert record)
  onVaulted (andThen (toString serial))
  return ⟨[serial], []⟩

/-- A certificate of this CA that is imported. -/
def importLocal (cert : Imported) (title : String) (privateKey : Option String)
    (stored : Except OpcaError Unit) (now : Time) : CaVaultM Issued := do
  onVaulted (advanceSerial cert.serial)
  let attribs := cert.attribs.ofType "imported"
  let record := formatDbItem times now attribs cert.serial title
  storeBundle true record title ⟨some ⟨cert.serial, attribs, none⟩, privateKey, none⟩ stored
    (addCert record)
  return .nothing

/-- One of another CA. -/
def importExternal (cert : Imported) (title : String) (privateKey : Option String)
    (stored : Except OpcaError Unit) (now : Time) : CaVaultM Issued := do
  let attribs := cert.attribs.ofType "external"
  let record := formatDbItem times now attribs cert.serial title
  storeBundle cert.verified record (extTitle title)
    ⟨some ⟨cert.serial, attribs, none⟩, privateKey, none⟩ stored
    (addExternalCert (record.intoExternal cert.issuer cert.issuerSubject (times.format now)))
  return .nothing

/-! ## What a CA does with them -/

namespace Bundles

def renewCertificateBundle (lookup : CertLookup) (making : Making) (renewing : Renewing) :
    CaVaultM Issued := do
  let old ← onVaulted (certificateOf lookup true)
  onVaulted (require old.title.isSome (.certificateNotFound "No title"))
  onVaulted (require (old.status ≠ some "Revoked")
    (.other "Cannot renew a revoked certificate"))
  let _ ← bundleTitled (old.title.getD "") renewing.retrieved
  issueInto times { making with now := renewing.now }
    (Core.bundleTitle (making.attribs.cn.getD "")) fun newSerial => do
      autoIgnorePredecessor old.serial newSerial .renewed renewing.user
        (times.format renewing.now)
      if old.publishedAt.isSome then
        logged (uploadPublished newSerial (making.attribs.cn.getD "") renewing.uploaded
          (times.format renewing.now))

def rekeyCertificateBundle (lookup : CertLookup) (making : Making) (renewing : Renewing) :
    CaVaultM Issued := do
  let old ← onVaulted (certificateOf lookup false)
  onVaulted (require old.title.isSome (.certificateNotFound "No title"))
  let _ ← bundleTitled (old.title.getD "") renewing.retrieved
  issueInto times { making with now := renewing.now }
    (Core.bundleTitle (making.attribs.cn.getD "")) fun newSerial =>
      autoIgnorePredecessor old.serial newSerial .rekeyed renewing.user
        (times.format renewing.now)

def issueSubordinate (making : Making) (andThen : String → DbM Unit) : CaVaultM Issued :=
  issueInto times making (Core.bundleTitle (making.attribs.cn.getD "")) fun serial => do
    give (.subordinate serial making.attribs.publicKey)
    andThen serial

def signSubordinate (making : Making) (permittedDomains : Except OpcaError (List String))
    (endpoint : Option (String × String)) : CaVaultM Issued := do
  let domains ← outcome permittedDomains
  issueSubordinate times making fun serial => do
    let id ← addBroker serial domains (times.format making.now)
    match endpoint with
    | some (url, pin) => setBrokerEndpoint id url pin (times.format making.now)
    | none => return

def renewSubordinate (id : Int) (making : Making)
    (requested : Option (Except OpcaError (List String))) (changeDomains : Bool)
    (user : String) : CaVaultM Issued := do
  let broker ← onVaulted (activeBroker id)
  let domains ← onVaulted (renewalDomains broker requested changeDomains)
  issueSubordinate times making fun newSerial => do
    autoIgnorePredecessor broker.subordinateSerial newSerial .renewed user
      (times.format making.now)
    moveBrokerTo id newSerial domains (times.format making.now)

/-- The title of an imported bundle. -/
def importTitle (cert : Imported) (title : Option String) : String :=
  CsrImport.bundleTitle (title.getD "") cert

def importCertificateBundle (cert : Imported) (title privateKey : Option String)
    (read stored : Except OpcaError Unit) (now : Time) : CaVaultM Issued := do
  outcome read
  if isCertValid cert now then
    importLocal times cert (importTitle cert title) privateKey stored now
  else
    importExternal times cert (importTitle cert title) privateKey stored now

def renameCertbundle (srcTitle dstTitle : String) (renamed : Except OpcaError Unit) :
    CaVaultM Issued := do
  match ← onVaulted (queryCert (.title srcTitle) false) with
  | none => throw (.certificateNotFound srcTitle)
  | some record =>
    renameItem srcTitle dstTitle renamed
    onVaulted (retitle record.serial dstTitle)
    return .nothing

def deleteCertificate (serial : String) (archived : Except OpcaError Unit) (user : String)
    (now : Time) : CaVaultM Issued := do
  let _ ← onVaulted (processCaDatabase times now none true)
  let found ← onVaulted (queryCert (.serial serial) false)
  match found.filter (·.deletedAt.isNone) with
  | none => throw (.certificateNotFound serial)
  | some cert =>
    onVaulted (require (cert.certType ≠ some "ca")
      (.other "The CA certificate cannot be deleted"))
    onVaulted (require (cert.status = some "Revoked" ∨ cert.status = some "Expired")
      (.other s!"Certificate {serial} is still valid; revoke it before deleting"))
    cert.title.forM (archiveItem · archived)
    onVaulted (Core.deleteCertificate.ignoreDeleted serial cert user (times.format now))
    onVaulted (markCertDeleted serial (times.format now))
    return .nothing

end Bundles

/-! ## Operations -/

/-- What a CA is asked to do with its bundles, and what is answered to it from outside. -/
inductive BundleOperation where
  | generate (itemTitle : String) (making : Making)
  | signCsr (cn : String) (making : Making)
  | renew (lookup : CertLookup) (making : Making) (renewing : Renewing)
  | rekey (lookup : CertLookup) (making : Making) (renewing : Renewing)
  | signSubordinate (making : Making) (permittedDomains : Except OpcaError (List String))
      (endpoint : Option (String × String))
  | renewSubordinate (id : Int) (making : Making)
      (requested : Option (Except OpcaError (List String))) (changeDomains : Bool)
      (user : String)
  | importBundle (cert : Imported) (title : Option String) (privateKey : Option String)
      (read stored : Except OpcaError Unit) (now : Time)
  | rename (srcTitle dstTitle : String) (renamed : Except OpcaError Unit)
  | revoke (lookup : CertLookup) (now : Time)
  | delete (serial : String) (archived : Except OpcaError Unit) (user : String) (now : Time)

namespace BundleOperation

/-- All but the saving of the database. -/
def body : BundleOperation → CaVaultM Issued
  | .generate itemTitle making =>
    issueInto times making (Core.bundleTitle itemTitle) fun _ => return
  | .signCsr cn making => issueInto times making (fun _ => cn) fun _ => return
  | .renew lookup making renewing => Bundles.renewCertificateBundle times lookup making renewing
  | .rekey lookup making renewing => Bundles.rekeyCertificateBundle times lookup making renewing
  | .signSubordinate making permittedDomains endpoint =>
    Bundles.signSubordinate times making permittedDomains endpoint
  | .renewSubordinate id making requested changeDomains user =>
    Bundles.renewSubordinate times id making requested changeDomains user
  | .importBundle cert title privateKey read stored now =>
    Bundles.importCertificateBundle times cert title privateKey read stored now
  | .rename srcTitle dstTitle renamed => Bundles.renameCertbundle srcTitle dstTitle renamed
  | .revoke lookup now => onVaulted (revokeCertificate times lookup now)
  | .delete serial archived user now => Bundles.deleteCertificate times serial archived user now

end BundleOperation

/-! ## A CA and its vault -/

/-- A CA that is loaded: its database, its vault, and its own certificate. -/
structure CaSession where
  vault : CaVault
  caCert : Certificate

/-- The database and the vault, of the whole. -/
def besideCaCert : Part CaSession CaVault where
  get := CaSession.vault
  set vault s := { s with vault }
  get_set _ _ := rfl
  set_set _ _ _ := rfl

inductive CaDeed where
  | bundle (op : BundleOperation) (saved : Except OpcaError Unit)
  /-- A rename may leave the database to be saved later. -/
  | renameUnsaved (srcTitle dstTitle : String) (renamed : Except OpcaError Unit)
  | reSignCa (notBefore : String) (notAfter : Asn1Time)
      (signed edited saved : Except OpcaError Unit)

namespace CaDeed

/-- A certificate with the same subject, serial and key, and other dates. -/
def reSigned (cert : Certificate) (notBefore : String) (notAfter : Asn1Time) : Certificate :=
  { cert with attribs := { cert.attribs with notBefore := some notBefore, notAfter } }

def reSign (notBefore : String) (notAfter : Asn1Time)
    (signed edited saved : Except OpcaError Unit) : EStateM OpcaError CaSession Unit := do
  outcome signed
  let s ← get
  let cert := reSigned s.caCert notBefore notAfter
  modify fun s => { s with caCert := cert }
  besideCaCert.lift do
    putCertificate caTitle cert edited
    saveDatabase saved

def run : CaDeed → EStateM OpcaError CaSession Unit
  | .bundle op saved => besideCaCert.lift do
    let _ ← op.body times
    saveDatabase saved
  | .renameUnsaved srcTitle dstTitle renamed => besideCaCert.lift do
    let _ ← Bundles.renameCertbundle srcTitle dstTitle renamed
  | .reSignCa notBefore notAfter signed edited saved =>
    reSign notBefore notAfter signed edited saved

end CaDeed

/-! ## Founding -/

/-- The CA's certificate and what its item holds besides. -/
structure CaKeys where
  privateKey : Option String
  csr : Option String

/-- `store_certbundle_internal`. -/
def storeCaBundle (now : Time) (cert : CertAttribs) (serial : String) (keys : CaKeys)
    (stored saved : Except OpcaError Unit) : CaVaultM Certificate := do
  let record := formatDbItem times now (cert.ofType "ca") serial caTitle
  storeBundle true record caTitle
    ⟨some ⟨serial, cert.ofType "ca", none⟩, keys.privateKey, keys.csr⟩ stored (addCert record)
  saveDatabase saved
  return ⟨serial, cert.ofType "ca", none⟩

/-- `init` or `import_ca`, in a vault that has no item of the CA's title. -/
def Founding.establish (now : Time) (keys : CaKeys) (looked saved : Except OpcaError Unit)
    (founding : Founding) : CaVaultM Certificate := do
  match ← itemTitled caTitle looked with
  | some _ => throw (.other "CA already exists")
  | none =>
    match founding with
    | .init _ cert signed stored => do
      outcome signed
      let serial ← onVaulted (incrementSerial .cert none)
      onVaulted (give (.serial serial))
      storeCaBundle times now cert (toString serial) keys stored saved
    | .importCa _ cert read stored => do
      outcome read
      storeCaBundle times now cert.attribs cert.serial keys stored saved

/-- The CA that is there then, in a vault of `items`, if nothing fails. -/
def Founding.session (now : Time) (keys : CaKeys) (looked saved : Except OpcaError Unit)
    (items : Items Fields) (founding : Founding) : Option CaSession :=
  let tables := newTables founding.config
  match founding.establish times now keys looked saved
    ⟨.fromTables tables [], items, tables, []⟩ with
  | .ok caCert vault => some ⟨vault, caCert⟩
  | .error _ _ => none

/-- A CA founded in some vault, and what it is asked to do after that. -/
def caMachine : Machine CaSession CaDeed where
  init s := ∃ now keys looked saved items founding,
    Founding.session times now keys looked saved items founding = some s
  next s deed := some (finalState (deed.run times s))

end Opca.Core

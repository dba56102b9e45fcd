/-
  Core/CsrImport.lean --- a certificate that another CA made of a CSR, imported by the
  desktop (`commands/csr.rs`, `import_csr_cert`) and by the CLI (`commands/csr.rs`,
  `handle_import`), and the private key, which until then is in the CSR's item alone.

  A PEM text of a key or a CSR is given as the text itself, which is written again as it
  was; a certificate is given as what it holds.
-/
import Opca.Core.Items

set_option autoImplicit false

namespace Opca.Core

open Opca.Foundation Acme

/-! ## CSR rows -/

/-- A row of `csr`. -/
structure CsrRecord where
  id : Int
  cn : Option String
  title : Option String
  csrType : Option String
  email : Option String
  subject : Option String
  status : Option String
  createdDate : Option String
  csrPem : Option String
  deriving DecidableEq, Repr

abbrev Csrs := Table CsrRecord CsrRecord.id

/-- The vault and the database with its `csr` table, which the document holds too. -/
structure CsrVault where
  vaulted : Vaulted Empty
  csrs : Csrs
  storedCsrs : Csrs

abbrev CsrM := EStateM OpcaError CsrVault

def CsrVault.items (s : CsrVault) : Items Fields := s.vaulted.items

/-- The vault and the other tables, of the whole. -/
def besideCsrs : Part CsrVault (Vaulted Empty) where
  get := CsrVault.vaulted
  set vaulted s := { s with vaulted }
  get_set _ _ := rfl
  set_set _ _ _ := rfl

/-- The rows of a CN with a status set. -/
def Csrs.setStatus (csrs : Csrs) (cn status : String) : Csrs :=
  csrs.update (·.cn = some cn) (fun row => { row with status := some status }) fun _ => rfl

/-- `update_csr` of a CN's status. -/
def updateCsr (cn status : String) (answer : Except OpcaError Unit) : CsrM Unit := do
  outcome answer
  modify fun s => { s with csrs := s.csrs.setStatus cn status }

/-- Writes the database over the document. -/
def storeWithCsrs (stored : Except OpcaError Unit) : CsrM Unit := do
  besideCsrs.lift (storeCaDatabase stored)
  modify fun s => { s with storedCsrs := s.csrs }

/-! ## What is imported -/

/-- The bytes of a certificate file. -/
inductive CertFile where
  | pem (cert : Imported)
  | der (cert : Imported)
  | unreadable
  deriving DecidableEq, Repr

namespace CertFile

/-- `X509::from_pem`. -/
def fromPem : CertFile → Option Imported
  | .pem cert => some cert
  | .der _ | .unreadable => none

/-- `X509::from_der`. -/
def fromDer : CertFile → Option Imported
  | .der cert => some cert
  | .pem _ | .unreadable => none

end CertFile

/-- The text given as a chain. -/
inductive ChainText where
  | blank
  | certs (count : Nat)
  | unreadable
  deriving DecidableEq, Repr

/-- What reading keys and CSRs takes from OpenSSL. -/
structure Openssl where
  /-- The public key of a private key's PEM. -/
  publicKey : String → Except OpcaError String
  /-- `X509Req::from_pem`. -/
  readCsr : String → Except OpcaError Unit

/-- A certificate to import for a CSR, and what the vault and the database answer. -/
structure CsrImport where
  /-- The CN given in place of the certificate's. -/
  cn : Option String
  file : CertFile
  /-- The desktop's upstream chain. -/
  chain : Option ChainText
  /-- What looking up the CSR's item answers, when a single item has the title. -/
  found : Except OpcaError Unit
  removed : Except OpcaError Unit
  created : Except OpcaError Unit
  updated : Except OpcaError Unit
  stored : Except OpcaError Unit
  now : Time

/-- The item of a CSR. -/
def csrTitle (cn : String) : String := s!"CSR_{cn}"

/-- The item of a certificate of another CA. -/
def extTitle (title : String) : String := s!"EXT_{title}"

/-- What the checks before anything changes find. -/
structure Prepared where
  cert : Imported
  cn : String
  item : Foundation.Item Fields
  key : String
  deriving DecidableEq

/-- A bundle made of a certificate, its key and its CSR. -/
structure Bundle where
  title : String
  cert : Imported
  privateKey : Option String
  csr : Option String
  /-- How many certificates its chain has. -/
  chain : Nat

/-! ## Importing -/

namespace CsrImport

variable (openssl : Openssl) (times : OpensslTimes)

/-- The CN given, or the certificate's. -/
def commonName (request : CsrImport) (cert : Imported) : Option String :=
  request.cn.or cert.attribs.cn

/-- The title of the bundle of a CN. -/
def bundleTitle (cn : String) (cert : Imported) : String :=
  if cn = "" then cert.attribs.cn.getD "" else cn

/-- The CSR's item, with a key that is the certificate's. -/
def prepared (request : CsrImport) (parsed : Except OpcaError Imported)
    (items : Items Fields) : Except OpcaError Prepared := do
  let cert ← parsed
  let cn ← (request.commonName cert).elim (.error (.other "No CN found in certificate")) .ok
  request.found
  let item ← (items.find (csrTitle cn)).elim
    (.error (.other s!"No existing entry '{csrTitle cn}' found")) .ok
  let key ← item.content.privateKey.elim
    (.error (.other "No private key found in CSR item")) .ok
  let publicKey ← openssl.publicKey key
  if cert.attribs.publicKey = publicKey then .ok ⟨cert, cn, item, key⟩
  else .error (.invalidCertificate
    "Certificate public key does not match the private key from the CSR")

/-- `CertificateBundle::import`. -/
def importBundle (title : String) (file : CertFile) (key csr : Option String) :
    Except OpcaError Bundle := do
  let cert ← file.fromPem.elim
    (.error (.invalidCertificate "Failed to parse certificate PEM")) .ok
  let _ ← key.elim (.ok "") openssl.publicKey
  csr.elim (.ok ()) openssl.readCsr
  return ⟨bundleTitle title cert, cert, key, csr, 0⟩

/-- The desktop's chain, if any is given. -/
def withChain (bundle : Bundle) : Option ChainText → Except OpcaError Bundle
  | none | some .blank => .ok bundle
  | some (.certs count) => .ok { bundle with chain := count }
  | some .unreadable =>
    .error (.invalidCertificate "Failed to parse certificate chain PEM")

/-- The certificate as a bundle's rows and items tell it. -/
def bundled (bundle : Bundle) : Imported :=
  { bundle.cert with
    attribs := { bundle.cert.attribs with
      certType := "external"
      hasPrivateKey := bundle.privateKey.isSome
      hasChain := bundle.chain ≠ 0 } }

/-- What its item holds. -/
def itemFields (bundle : Bundle) : Fields where
  certificate := some ⟨bundle.cert.serial, (bundled bundle).attribs, none⟩
  privateKey := bundle.privateKey
  csr := bundle.csr

/-- Its row as one of this CA's. -/
def recordOf (bundle : Bundle) (now : Time) : CertRecord :=
  formatDbItem times now (bundled bundle).attribs bundle.cert.serial bundle.title

def externalRow (bundle : Bundle) (now : Time) : ExternalCertRecord :=
  (recordOf times bundle now).intoExternal bundle.cert.issuer bundle.cert.issuerSubject
    (times.format now)

/-- `store_certbundle_for` of an external bundle. -/
def storeExternalBundle (bundle : Bundle) (created : Except OpcaError Unit) (now : Time) :
    VaultM Empty Unit :=
  storeBundle bundle.cert.verified (recordOf times bundle now) (extTitle bundle.title)
    (itemFields bundle) created (addExternalCert (externalRow times bundle now))

/-- The CSR's item goes, which `delete_item` archives. -/
def removeItem (item : Foundation.Item Fields) (removed : Except OpcaError Unit) : CsrM Unit := do
  outcome removed
  modify fun s =>
    { s with vaulted := { s.vaulted with items := s.vaulted.items.remove item.id } }

/-- The desktop's. -/
def importCsrCert (request : CsrImport) : CsrM Unit := do
  let s ← get
  let parsed := request.file.fromPem.elim
    (.error (.other "Failed to parse certificate PEM")) .ok
  let found ← outcome (prepared openssl request parsed s.items)
  removeItem found.item request.removed
  -- An item without a CSR is given an empty one, which does not parse.
  let bundle ← outcome (importBundle openssl found.cn request.file (some found.key)
    (some (found.item.content.csr.getD "")))
  let bundle ← outcome (withChain bundle request.chain)
  besideCsrs.lift (storeExternalBundle times bundle request.created request.now)
  updateCsr found.cn "Complete" request.updated
  storeWithCsrs request.stored

/-- The CLI's. -/
def handleImport (request : CsrImport) : CsrM Unit := do
  let s ← get
  let parsed := (request.file.fromPem.or request.file.fromDer).elim
    (.error (.invalidCertificate "Failed to parse certificate")) .ok
  let found ← outcome (prepared openssl request parsed s.items)
  removeItem found.item request.removed
  -- The file is read again, as PEM alone.
  let bundle ← outcome (importBundle openssl found.cn request.file (some found.key)
    found.item.content.csr)
  besideCsrs.lift (storeExternalBundle times bundle request.created request.now)
  dropError (updateCsr found.cn "Complete" request.updated)
  storeWithCsrs request.stored

end CsrImport

end Opca.Core

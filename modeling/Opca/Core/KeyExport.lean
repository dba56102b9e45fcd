/-
  Core/KeyExport.lean --- private keys on their way out of the vault: what a detail page
  preloads, what is served of it, and what is refused, beside all that other commands and
  other clients change meanwhile (`commands/cert.rs`, `state.rs`).
-/
import Opca.Core.Items
import Opca.Core.San
import Opca.Core.Sessions

set_option autoImplicit false

namespace Opca.Core.KeyExport

open Opca.Foundation Acme

/-! ## Bundles -/

/-- What `CertificateBundle::import` makes of an item, as far as it is read. -/
structure Bundle where
  attribs : CertAttribs
  /-- The certificate as OpenSSL prints it, if it can be printed. -/
  text : Option String
  /-- The key as PKCS#8 PEM, if there is one. -/
  privateKey : Option String
  deriving DecidableEq

/-- An item holds a bundle, or no certificate, or what cannot be read. -/
abbrev Vault := Items (Except OpcaError (Option Bundle))

/-- An item that cannot be had is none. -/
def retrieveCertbundle (vault : Vault) (title : String) (read : Except OpcaError Unit) :
    Except OpcaError (Option Bundle) :=
  match read, vault.find title with
  | .ok (), some item => item.content
  | _, _ => .ok none

def contains (text part : String) : Bool :=
  text.toList.tails.any part.toList.isPrefixOf

/-- Whether the printed certificate says so. -/
def isCaCertificate (bundle : Bundle) : Bool := bundle.text.any (contains · "CA:TRUE")

def isCaCertType (certType : Option String) : Bool :=
  certType.any fun t => San.eqIgnoreAsciiCase t.toList "ca".toList

def bailIfCaCertificate (certType : Option String) (bundle : Bundle) : Except OpcaError Unit :=
  if isCaCertType certType || isCaCertificate bundle then
    .error (.other ("Refusing to export a CA private key. If you genuinely need it, " ++
      "retrieve it from 1Password directly."))
  else .ok ()

theorem bailIfCaCertificate_ok {certType : Option String} {bundle : Bundle}
    (h : bailIfCaCertificate certType bundle = .ok ()) :
    isCaCertType certType = false ∧ isCaCertificate bundle = false := by
  unfold bailIfCaCertificate at h
  split at h
  · cases h
  next hleaf => simpa using hleaf

/-- The title of an external certificate's item. -/
def externalItemTitle (record : ExternalCertRecord) : Except OpcaError String :=
  match record.cn with
  | some cn => .ok ("EXT_" ++ cn)
  | none => .error (.other "External certificate has no CN")

/-! ## The desktop -/

/-- The vault that is connected and the database loaded from it. -/
structure Connection where
  vault : Vault
  db : CaDatabase

structure PreloadedKey where
  itemTitle : String
  pem : String
  deriving DecidableEq, Repr

/-- A key that was handed out, under the title it was asked for by. -/
structure Export where
  title : String
  key : String
  deriving DecidableEq, Repr

structure Desktop where
  conn : Option Connection
  preloaded : Option PreloadedKey
  /-- The serials whose freshly issued PEM is cached. -/
  fresh : List String
  /-- What the connection has held since a detail page was last left; no one keeps this. -/
  seen : List Connection
  /-- What has been exported since then; no one keeps this. -/
  exported : List Export

namespace Desktop

variable (s : Desktop)

/-- Only under its own title. -/
def preloadedKey (title : String) : Option String :=
  (s.preloaded.filter (·.itemTitle = title)).map PreloadedKey.pem

/-- In place of what was preloaded before. -/
def preloadKey (title : String) (bundle : Bundle) : Desktop :=
  { s with preloaded := bundle.privateKey.map (PreloadedKey.mk title) }

/-- A page is left: no key stays, and nothing seen so far counts from here on. -/
def forgetPreloadedKey : Desktop :=
  { s with preloaded := none, seen := s.conn.toList, exported := [] }

/-- `connect`, `disconnect` and a vault's restore. -/
def replaceConnection (next : Option Connection) : Desktop :=
  { s with conn := next, preloaded := none, seen := next.toList, exported := [] }

/-- The vault or the database changes under the connection. -/
def become (conn : Connection) : Desktop :=
  { s with conn := some conn, seen := s.seen ++ [conn] }

/-- Never a CA's; in its stead nothing stays. -/
def preloadUnlessCa (title : String) (certType : Option String) (bundle : Bundle) : Desktop :=
  match bailIfCaCertificate certType bundle with
  | .ok () => s.preloadKey title bundle
  | .error _ => { s with preloaded := none }

section Commands

variable (times : OpensslTimes) (encrypt : (pem passphrase : String) → Except OpcaError String)

/-- A certificate's detail page: its row filled in from its bundle, whose key is kept.  A
fresh PEM saves the reading, of a row that is complete and has no chain. -/
def backfillCert (conn : Connection) (serial : String) (read : Except OpcaError Unit) :
    Desktop :=
  match conn.db.tables.certificates.rows.find? (·.serial = serial) with
  | none => s
  | some record =>
    let freshPem := s.fresh.contains serial
    let s := { s with fresh := s.fresh.filter (· ≠ serial) }
    if freshPem && !record.needsBackfill && record.hasChain = some false then s
    else
      let title := record.title.getD record.serial
      match retrieveCertbundle conn.vault title read with
      | .ok (some bundle) =>
        let s := s.preloadUnlessCa title record.certType bundle
        let filled := Core.backfillCert times serial (some bundle.attribs) conn.db
        s.become { conn with db := finalState filled }
      | _ => s

/-- The flags of an external certificate's row. -/
def flagExternal (db : CaDatabase) (serial : String) (bundle : Bundle) : CaDatabase :=
  { db with
    tables := { db.tables with
      externals := db.tables.externals.map fun record =>
        if record.serial = serial then
          { record with
            hasPrivateKey := some bundle.attribs.hasPrivateKey
            hasChain := some bundle.attribs.hasChain }
        else record } }

def backfillExternalCert (conn : Connection) (serial : String)
    (read : Except OpcaError Unit) : Desktop :=
  match conn.db.tables.externals.find? (·.serial = serial) with
  | none => s
  | some record =>
    match externalItemTitle record with
    | .error _ => s
    | .ok title =>
      match retrieveCertbundle conn.vault title read with
      | .ok (some bundle) =>
        let s := s.preloadUnlessCa title record.certType bundle
        s.become { conn with db := flagExternal conn.db serial bundle }
      | _ => s

def encryptIfAsked (pem : String) (passphrase : Option String) : Except OpcaError String :=
  match passphrase.filter (· ≠ "") with
  | some passphrase => encrypt pem passphrase
  | none => .ok pem

/-- The key of a title, preloaded or fetched. -/
def leafKey (conn : Connection) (title : String) (certType : Option String)
    (read : Except OpcaError Unit) : Except OpcaError String :=
  match s.preloadedKey title with
  | some pem => .ok pem
  | none => do
    let bundle ← retrieveCertbundle conn.vault title read
    match bundle with
    | none => .error (.other "Certificate item not found in 1Password")
    | some bundle =>
      bailIfCaCertificate certType bundle
      bundle.privateKey.elim (.error (.other "No private key stored for this certificate")) .ok

/-- What is exported, and what is answered. -/
def exportLeafKey (conn : Connection) (title : String) (certType passphrase : Option String)
    (read : Except OpcaError Unit) : Desktop × Except OpcaError String :=
  match s.leafKey conn title certType read with
  | .error e => (s, .error e)
  | .ok pem =>
    match encryptIfAsked encrypt pem passphrase with
    | .error e => (s, .error e)
    | .ok answer => ({ s with exported := s.exported ++ [⟨title, pem⟩] }, .ok answer)

def getCertPrivateKey (conn : Connection) (serial : String) (passphrase : Option String)
    (read : Except OpcaError Unit) : Desktop × Except OpcaError String :=
  match conn.db.tables.certificates.rows.find? (·.serial = serial) with
  | none => (s, .error (.other "Certificate not found"))
  | some record =>
    s.exportLeafKey encrypt conn (record.title.getD record.serial) record.certType passphrase read

def getExternalCertPrivateKey (conn : Connection) (serial : String) (passphrase : Option String)
    (read : Except OpcaError Unit) : Desktop × Except OpcaError String :=
  match conn.db.tables.externals.find? (·.serial = serial) with
  | none => (s, .error (.other "External certificate not found"))
  | some record =>
    match externalItemTitle record with
    | .error e => (s, .error e)
    | .ok title => s.exportLeafKey encrypt conn title record.certType passphrase read

end Commands

end Desktop

inductive Step where
  | replaceConnection (next : Option Connection)
  /-- Another command or another client changes the vault or the database, and a renewal
  caches what it issued. -/
  | change (next : Connection) (fresh : List String)
  | backfillCert (serial : String) (read : Except OpcaError Unit)
  | backfillExternalCert (serial : String) (read : Except OpcaError Unit)
  | getCertPrivateKey (serial : String) (passphrase : Option String)
    (read : Except OpcaError Unit)
  | getExternalCertPrivateKey (serial : String) (passphrase : Option String)
    (read : Except OpcaError Unit)
  | forgetPreloadedKey

section Machine

variable (times : OpensslTimes) (encrypt : (pem passphrase : String) → Except OpcaError String)

/-- The commands of one desktop, each of which has the connection to itself. -/
def exporting : Machine Desktop Step where
  init s := s = ⟨none, none, [], [], []⟩
  next s
    | .replaceConnection next => some (s.replaceConnection next)
    | .change next fresh => s.conn.map fun _ => { s.become next with fresh := s.fresh ++ fresh }
    | .backfillCert serial read => s.conn.map fun conn => s.backfillCert times conn serial read
    | .backfillExternalCert serial read =>
      s.conn.map fun conn => s.backfillExternalCert conn serial read
    | .getCertPrivateKey serial passphrase read =>
      s.conn.map fun conn => (s.getCertPrivateKey encrypt conn serial passphrase read).1
    | .getExternalCertPrivateKey serial passphrase read =>
      s.conn.map fun conn => (s.getExternalCertPrivateKey encrypt conn serial passphrase read).1
    | .forgetPreloadedKey => some s.forgetPreloadedKey

end Machine

/-! ## What may be exported -/

/-- A row says that the item of `title` holds a certificate of the type. -/
inductive RowOf (db : CaDatabase) : (title : String) → (certType : Option String) → Prop
  | cert {record : CertRecord} : record ∈ db.tables.certificates.rows →
      RowOf db (record.title.getD record.serial) record.certType
  | external {record : ExternalCertRecord} {title : String} :
      record ∈ db.tables.externals → externalItemTitle record = .ok title →
      RowOf db title record.certType

/-- The vault holds the key with a certificate that is no CA's, by its row and by itself. -/
def LeafKey (conn : Connection) (title key : String) : Prop :=
  ∃ certType bundle, RowOf conn.db title certType ∧ isCaCertType certType = false ∧
    retrieveCertbundle conn.vault title (.ok ()) = .ok (some bundle) ∧
    isCaCertificate bundle = false ∧ bundle.privateKey = some key

/-- What is kept and what was exported are keys that the connection has held for a leaf. -/
structure Contained (s : Desktop) : Prop where
  current : ∀ conn, s.conn = some conn → conn ∈ s.seen
  preloaded : ∀ kept, s.preloaded = some kept →
    ∃ conn ∈ s.seen, LeafKey conn kept.itemTitle kept.pem
  exported : ∀ e ∈ s.exported, ∃ conn ∈ s.seen, LeafKey conn e.title e.key

section Steps

variable {times : OpensslTimes} {encrypt : (pem passphrase : String) → Except OpcaError String}
  {s t : Desktop} {conn : Connection} {title serial : String} {certType passphrase : Option String}
  {read : Except OpcaError Unit} {bundle : Bundle}

theorem retrieveCertbundle_ok
    (h : retrieveCertbundle conn.vault title read = .ok (some bundle)) :
    retrieveCertbundle conn.vault title (.ok ()) = .ok (some bundle) := by
  unfold retrieveCertbundle at h ⊢
  split at h
  next item hread hfind =>
    simp only [hfind]
    exact h
  next => cases h

/-- Nothing that was seen is forgotten, and nothing else was exported. -/
theorem Contained.extend (h : Contained s) (hseen : ∀ conn ∈ s.seen, conn ∈ t.seen)
    (hcurrent : ∀ conn, t.conn = some conn → conn ∈ t.seen)
    (hpreloaded : ∀ kept, t.preloaded = some kept → s.preloaded = some kept ∨
      ∃ conn ∈ t.seen, LeafKey conn kept.itemTitle kept.pem)
    (hexported : ∀ e ∈ t.exported, e ∈ s.exported ∨ ∃ conn ∈ t.seen, LeafKey conn e.title e.key) :
    Contained t where
  current := hcurrent
  preloaded kept hkept := by
    rcases hpreloaded kept hkept with hold | hnew
    · obtain ⟨conn, hconn, hleaf⟩ := h.preloaded kept hold
      exact ⟨conn, hseen conn hconn, hleaf⟩
    · exact hnew
  exported e he := by
    rcases hexported e he with hold | hnew
    · obtain ⟨conn, hconn, hleaf⟩ := h.exported e hold
      exact ⟨conn, hseen conn hconn, hleaf⟩
    · exact hnew

theorem Contained.become (h : Contained s) (next : Connection) : Contained (s.become next) := by
  apply h.extend
  · intro conn hconn
    exact List.mem_append_left _ hconn
  · intro conn hconn
    cases hconn
    exact List.mem_append_right _ (List.mem_singleton_self _)
  · intro kept hkept
    exact .inl hkept
  · intro e he
    exact .inl he

/-- The key of a bundle that was fetched for its row. -/
theorem Contained.preloadUnlessCa (h : Contained s) (hconn : s.conn = some conn)
    (hrow : RowOf conn.db title certType)
    (hread : retrieveCertbundle conn.vault title read = .ok (some bundle)) :
    Contained (s.preloadUnlessCa title certType bundle) := by
  unfold Desktop.preloadUnlessCa
  split
  next hleaf =>
    obtain ⟨htype, hconstraints⟩ := bailIfCaCertificate_ok hleaf
    refine h.extend (fun _ hmem => hmem) h.current ?_ fun e he => .inl he
    intro kept hkept
    obtain ⟨key, hkey, rfl⟩ := Option.map_eq_some_iff.mp hkept
    exact .inr ⟨conn, h.current conn hconn, certType, bundle, hrow, htype,
      retrieveCertbundle_ok hread, hconstraints, hkey⟩
  next =>
    refine h.extend (fun _ hmem => hmem) h.current ?_ fun e he => .inl he
    intro kept hkept
    cases hkept

theorem Contained.backfillCert (h : Contained s) (hconn : s.conn = some conn) :
    Contained (s.backfillCert times conn serial read) := by
  unfold Desktop.backfillCert
  split
  next => exact h
  next record hrecord =>
    have hrow := List.mem_of_find?_eq_some hrecord
    have hfresh : Contained { s with fresh := s.fresh.filter (· ≠ serial) } :=
      h.extend (fun _ hmem => hmem) h.current (fun _ hkept => .inl hkept) fun _ he => .inl he
    dsimp only
    split
    · exact hfresh
    · split
      next bundle hread => exact (hfresh.preloadUnlessCa hconn (.cert hrow) hread).become _
      next => exact hfresh

theorem Contained.backfillExternalCert (h : Contained s) (hconn : s.conn = some conn) :
    Contained (s.backfillExternalCert conn serial read) := by
  unfold Desktop.backfillExternalCert
  split
  next => exact h
  next record hrecord =>
    have hrow := List.mem_of_find?_eq_some hrecord
    split
    next => exact h
    next title htitle =>
      split
      next bundle hread =>
        exact (h.preloadUnlessCa hconn (.external hrow htitle) hread).become _
      next => exact h

/-- A key that is had for a row is a leaf's. -/
theorem Contained.leafKey (h : Contained s) (hconn : s.conn = some conn)
    (hrow : RowOf conn.db title certType) {pem : String}
    (hkey : s.leafKey conn title certType read = .ok pem) :
    ∃ conn ∈ s.seen, LeafKey conn title pem := by
  unfold Desktop.leafKey at hkey
  split at hkey
  next kept hkept =>
    cases hkey
    obtain ⟨preloaded, hpreloaded, rfl⟩ := Option.map_eq_some_iff.mp hkept
    obtain ⟨hslot, htitle⟩ := Option.filter_eq_some_iff.mp hpreloaded
    have htitle : preloaded.itemTitle = title := of_decide_eq_true htitle
    rw [← htitle]
    exact h.preloaded preloaded hslot
  next =>
    obtain ⟨found, hread, hkey⟩ := bind_eq_ok.mp hkey
    cases found with
    | none => cases hkey
    | some bundle =>
      obtain ⟨⟨⟩, hleaf, hkey⟩ := bind_eq_ok.mp hkey
      obtain ⟨htype, hconstraints⟩ := bailIfCaCertificate_ok hleaf
      refine ⟨conn, h.current conn hconn, certType, bundle, hrow, htype,
        retrieveCertbundle_ok hread, hconstraints, ?_⟩
      cases hprivate : bundle.privateKey with
      | none =>
        rw [hprivate] at hkey
        cases hkey
      | some key =>
        rw [hprivate] at hkey
        cases hkey
        rfl

theorem Contained.exportLeafKey (h : Contained s) (hconn : s.conn = some conn)
    (hrow : RowOf conn.db title certType) :
    Contained (s.exportLeafKey encrypt conn title certType passphrase read).1 := by
  unfold Desktop.exportLeafKey
  split
  next => exact h
  next pem hkey =>
    split
    next => exact h
    next =>
      refine h.extend (fun _ hmem => hmem) h.current (fun _ hkept => .inl hkept) ?_
      intro e he
      rcases List.mem_append.mp he with hold | hnew
      · exact .inl hold
      · rw [List.mem_singleton.mp hnew]
        exact .inr (h.leafKey hconn hrow hkey)

theorem Contained.getCertPrivateKey (h : Contained s) (hconn : s.conn = some conn) :
    Contained (s.getCertPrivateKey encrypt conn serial passphrase read).1 := by
  unfold Desktop.getCertPrivateKey
  split
  next => exact h
  next record hrecord =>
    exact h.exportLeafKey hconn (.cert (List.mem_of_find?_eq_some hrecord))

theorem Contained.getExternalCertPrivateKey (h : Contained s) (hconn : s.conn = some conn) :
    Contained (s.getExternalCertPrivateKey encrypt conn serial passphrase read).1 := by
  unfold Desktop.getExternalCertPrivateKey
  split
  next => exact h
  next record hrecord =>
    split
    next => exact h
    next title htitle =>
      exact h.exportLeafKey hconn (.external (List.mem_of_find?_eq_some hrecord) htitle)

/-- Nothing is kept over a new connection or a page that is left. -/
theorem Contained.empty (hseen : ∀ conn, s.conn = some conn → conn ∈ s.seen)
    (hpreloaded : s.preloaded = none) (hexported : s.exported = []) : Contained s where
  current := hseen
  preloaded kept hkept := by
    rw [hpreloaded] at hkept
    cases hkept
  exported e he := by
    rw [hexported] at he
    cases he

theorem Contained.next (h : Contained s) {l : Step}
    (hstep : (exporting times encrypt).next s l = some t) : Contained t := by
  cases l with
  | replaceConnection next =>
    cases hstep
    exact .empty (fun conn hconn => Option.mem_toList.mpr hconn) rfl rfl
  | change next fresh =>
    obtain ⟨conn, -, rfl⟩ := Option.map_eq_some_iff.mp hstep
    have hbecome := h.become next
    exact hbecome.extend (fun _ hmem => hmem) hbecome.current (fun _ hkept => .inl hkept)
      fun _ he => .inl he
  | backfillCert serial read =>
    obtain ⟨conn, hconn, rfl⟩ := Option.map_eq_some_iff.mp hstep
    exact h.backfillCert hconn
  | backfillExternalCert serial read =>
    obtain ⟨conn, hconn, rfl⟩ := Option.map_eq_some_iff.mp hstep
    exact h.backfillExternalCert hconn
  | getCertPrivateKey serial passphrase read =>
    obtain ⟨conn, hconn, rfl⟩ := Option.map_eq_some_iff.mp hstep
    exact h.getCertPrivateKey hconn
  | getExternalCertPrivateKey serial passphrase read =>
    obtain ⟨conn, hconn, rfl⟩ := Option.map_eq_some_iff.mp hstep
    exact h.getExternalCertPrivateKey hconn
  | forgetPreloadedKey =>
    cases hstep
    exact .empty (fun conn hconn => Option.mem_toList.mpr hconn) rfl rfl

theorem contained_invariant : (exporting times encrypt).system.Invariant Contained where
  init hinit := by
    rw [hinit]
    refine .empty ?_ rfl rfl
    intro conn hconn
    cases hconn
  step h hstep := h.next hstep

end Steps

/-! ## What is exported -/

/-- The item that is read is one of the vault's. -/
theorem mem_of_retrieveCertbundle {conn : Connection} {title : String} {bundle : Bundle}
    (h : retrieveCertbundle conn.vault title (.ok ()) = .ok (some bundle)) :
    ∃ item ∈ conn.vault.rows, item.content = .ok (some bundle) := by
  unfold retrieveCertbundle at h
  split at h
  next item _ hfind =>
    have hnamed := Items.find_eq_some.mp hfind
    have hitem := (Items.named_eq_singleton.mp hnamed).1
    exact ⟨item, hitem, h⟩
  next => cases h

/-- Every item that holds the key holds a CA's certificate with it. -/
def CaKey (conn : Connection) (key : String) : Prop :=
  ∀ item ∈ conn.vault.rows, ∀ bundle, item.content = .ok (some bundle) →
    bundle.privateKey = some key → isCaCertificate bundle = true

theorem LeafKey.not_ca {conn : Connection} {title key : String} (h : LeafKey conn title key) :
    ¬ CaKey conn key := by
  obtain ⟨certType, bundle, -, -, hread, hleaf, hkey⟩ := h
  intro hca
  obtain ⟨item, hitem, hcontent⟩ := mem_of_retrieveCertbundle hread
  have hconstraints := hca item hitem bundle hcontent hkey
  rw [hleaf] at hconstraints
  cases hconstraints

section Theorems

variable {times : OpensslTimes} {encrypt : (pem passphrase : String) → Except OpcaError String}
  {s : Desktop}

/-- **A key that leaves is one that the vault has held, since the page was last left, for a
certificate that neither its row nor its own constraints say is a CA's; and a key that was a
CA's all that time never leaves, whatever is preloaded, replaced and relabelled meanwhile.** -/
theorem exported_leaf (hs : (exporting times encrypt).system.Reachable s) :
    (∀ e ∈ s.exported, ∃ conn ∈ s.seen, LeafKey conn e.title e.key) ∧
    ∀ key, (∀ conn ∈ s.seen, CaKey conn key) → ∀ e ∈ s.exported, e.key ≠ key := by
  have hcontained := contained_invariant.reachable hs
  refine ⟨hcontained.exported, ?_⟩
  rintro key hca e he rfl
  obtain ⟨conn, hconn, hleaf⟩ := hcontained.exported e he
  exact hleaf.not_ca (hca conn hconn)

/-- What the database says of a server's certificate. -/
def webRecord : CertRecord where
  serial := "1"
  cn := some "web"
  title := some "web"
  status := some "Valid"
  expiryDate := some "20300101000000Z"
  revocationDate := none
  subject := some "CN=web"
  certType := some "webserver"
  notBefore := none
  keyType := none
  keySize := none
  issuer := none
  san := none
  ignoredAt := none
  ignoredBy := none
  ignoredReason := none
  ignoredNote := none
  hasPrivateKey := some true
  hasChain := some false
  deletedAt := none
  publishedAt := none

/-- A server's row, and its item with a key. -/
def webConnection (text key : String) : Connection where
  vault := Items.create .empty "web" (.ok (some ⟨plainCert "web", some text, some key⟩))
  db := .fromTables { emptyTables with certificates := ⟨[webRecord], by decide⟩ } []

/-- The page is opened on a server's key, and the item becomes a CA's before it is exported. -/
def relabelledRun : List Step :=
  [.replaceConnection (some (webConnection "CA:FALSE" "leaf key")), .backfillCert "1" (.ok ()),
    .change (webConnection "CA:TRUE" "ca key") [], .getCertPrivateKey "1" none (.ok ())]

/-- What was kept is still exported; the CA's own key is not, once the page is left. -/
theorem exported_leaf_relabelled :
    ∃ s : Desktop, s.exported = [⟨"web", "leaf key"⟩] ∧
      (∃ conn ∈ s.seen, LeafKey conn "web" "leaf key") ∧
      (s.conn.map fun conn => (s.forgetPreloadedKey.getCertPrivateKey (fun pem _ => .ok pem) conn
        "1" none (.ok ())).2.toOption) = some none := by
  have hrun : ((exporting plainTimes fun pem _ => .ok pem).exec relabelledRun
      ⟨none, none, [], [], []⟩).any (fun s => decide (s.exported = [⟨"web", "leaf key"⟩]) &&
      decide ((s.conn.map fun conn => (s.forgetPreloadedKey.getCertPrivateKey
        (fun pem _ => .ok pem) conn "1" none (.ok ())).2.toOption) = some none)) = true := by
    decide +kernel
  obtain ⟨s, hexec, hview⟩ := (Option.any_eq_true _ _).mp hrun
  obtain ⟨hexported, hrefused⟩ := Bool.and_eq_true_iff.mp hview
  have hexported := of_decide_eq_true hexported
  have hinit : (exporting plainTimes fun pem _ => .ok pem).system.Reachable
      ⟨none, none, [], [], []⟩ := .init rfl
  have hs := Machine.reachable_of_exec hinit hexec
  have hleaf := (exported_leaf hs).1 ⟨"web", "leaf key"⟩ (by rw [hexported]; exact .head _)
  exact ⟨s, hexported, hleaf, of_decide_eq_true hrefused⟩

end Theorems

end Opca.Core.KeyExport

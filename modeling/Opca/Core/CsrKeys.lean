/-
  Core/CsrKeys.lean --- when importing a CSR's certificate keeps the CSR's private key:
  the item that holds it goes before the bundle that is to hold it is made.
-/
import Opca.Core.CsrImport

set_option autoImplicit false

namespace Opca.Core

open Opca.Foundation Acme

/-! ## The two front ends as one -/

inductive FrontEnd where
  | desktop | cli
  deriving DecidableEq, Repr

namespace FrontEnd

variable (openssl : Openssl) (times : OpensslTimes)

def importCsr : FrontEnd → CsrImport → CsrM Unit
  | .desktop => CsrImport.importCsrCert openssl times
  | .cli => CsrImport.handleImport openssl times

/-- The certificate that a front end reads of a file. -/
def parsed : FrontEnd → CertFile → Option Imported
  | .desktop, file => file.fromPem
  | .cli, file => file.fromPem.or file.fromDer

/-- Why there is none. -/
def unparsed : FrontEnd → OpcaError
  | .desktop => .other "Failed to parse certificate PEM"
  | .cli => .invalidCertificate "Failed to parse certificate"

/-- What the checks before anything changes find. -/
def prepared (frontEnd : FrontEnd) (request : CsrImport) (items : Items Fields) :
    Except OpcaError Prepared :=
  request.prepared openssl
    ((frontEnd.parsed request.file).elim (.error frontEnd.unparsed) .ok) items

/-- The bundle that is made once the item is gone. -/
def bundle (request : CsrImport) (found : Prepared) : FrontEnd → Except OpcaError Bundle
  | .desktop => do
    let bundle ← CsrImport.importBundle openssl found.cn request.file (some found.key)
      (some (found.item.content.csr.getD ""))
    CsrImport.withChain bundle request.chain
  | .cli => CsrImport.importBundle openssl found.cn request.file (some found.key)
      found.item.content.csr

def complete (cn : String) (updated : Except OpcaError Unit) : FrontEnd → CsrM Unit
  | .desktop => updateCsr cn "Complete" updated
  | .cli => dropError (updateCsr cn "Complete" updated)

/-- What is left to do with the bundle. -/
def storeAll (frontEnd : FrontEnd) (request : CsrImport) (found : Prepared)
    (bundle : Bundle) : CsrM Unit := do
  besideCsrs.lift (CsrImport.storeExternalBundle times bundle request.created request.now)
  frontEnd.complete found.cn request.updated
  storeWithCsrs request.stored

/-- Everything from the removal on. -/
def replaceItem (frontEnd : FrontEnd) (request : CsrImport) (found : Prepared) :
    CsrM Unit := do
  CsrImport.removeItem found.item request.removed
  let bundle ← outcome (frontEnd.bundle openssl request found)
  frontEnd.storeAll times request found bundle

variable {openssl times} {frontEnd : FrontEnd} {request : CsrImport} {found : Prepared}
  {s : CsrVault} {e : OpcaError}

theorem importCsr_eq (frontEnd : FrontEnd) (request : CsrImport) :
    frontEnd.importCsr openssl times request = (do
      let s ← get
      let found ← outcome (frontEnd.prepared openssl request s.items)
      frontEnd.replaceItem openssl times request found) := by
  cases frontEnd with
  | cli => rfl
  | desktop =>
    unfold replaceItem bundle
    simp only [outcome_bind, bind_assoc]
    rfl

/-- An import that is refused changes nothing. -/
theorem importCsr_of_error (h : frontEnd.prepared openssl request s.items = .error e) :
    frontEnd.importCsr openssl times request s = .error e s := by
  rw [importCsr_eq]
  refine bind_of_error (f := frontEnd.replaceItem openssl times request) ?_
  rw [h]
  rfl

theorem importCsr_of_ok (h : frontEnd.prepared openssl request s.items = .ok found) :
    frontEnd.importCsr openssl times request s =
      frontEnd.replaceItem openssl times request found s := by
  rw [importCsr_eq]
  refine bind_of_ok (f := frontEnd.replaceItem openssl times request) ?_
  rw [h]
  rfl

theorem replaceItem_of_error (h : request.removed = .error e) :
    frontEnd.replaceItem openssl times request found s = .error e s := by
  unfold replaceItem CsrImport.removeItem
  rw [h]
  rfl

/-- The vault without an item. -/
def without (s : CsrVault) (item : Foundation.Item Fields) : CsrVault :=
  { s with vaulted := { s.vaulted with items := s.vaulted.items.remove item.id } }

theorem replaceItem_of_ok (h : request.removed = .ok ()) :
    frontEnd.replaceItem openssl times request found s =
      (outcome (frontEnd.bundle openssl request found) >>=
        frontEnd.storeAll times request found) (without s found.item) := by
  unfold replaceItem CsrImport.removeItem
  rw [h]
  rfl

/-- What the checks have found. -/
structure Finds (frontEnd : FrontEnd) (openssl : Openssl) (request : CsrImport)
    (items : Items Fields) (found : Prepared) : Prop where
  parsed : frontEnd.parsed request.file = some found.cert
  commonName : request.commonName found.cert = some found.cn
  item : items.find (csrTitle found.cn) = some found.item
  key : found.item.content.privateKey = some found.key

theorem finds_of_prepared {items : Items Fields} {found : Prepared}
    (h : frontEnd.prepared openssl request items = .ok found) :
    Finds frontEnd openssl request items found := by
  unfold prepared CsrImport.prepared at h
  obtain ⟨cert, hcert, h⟩ := bind_eq_ok.mp h
  obtain ⟨cn, hcn, h⟩ := bind_eq_ok.mp h
  obtain ⟨_, _, h⟩ := bind_eq_ok.mp h
  obtain ⟨item, hitem, h⟩ := bind_eq_ok.mp h
  obtain ⟨key, hkey, h⟩ := bind_eq_ok.mp h
  obtain ⟨publicKey, _, h⟩ := bind_eq_ok.mp h
  split at h
  · cases h
    exact ⟨elim_eq_ok hcert, elim_eq_ok hcn, elim_eq_ok hitem, elim_eq_ok hkey⟩
  · cases h

end FrontEnd

/-! ## What storing the bundle does -/

namespace CsrImport

variable (times : OpensslTimes) (bundle : Bundle) (now : Time)

theorem giveItem_run (own : Bool) (record : CertRecord) (u : Vaulted Empty) :
    ∃ w, onVaulted (storeCertbundle.giveItem own record) u = .ok () w ∧ w.items = u.items ∧
      w.db.tables = u.db.tables := by
  cases own with
  | false => exact ⟨u, rfl, rfl, rfl⟩
  | true => exact ⟨_, rfl, rfl, rfl⟩

/-- The item is made, whatever becomes of the row. -/
theorem storeExternalBundle_eq (u : Vaulted Empty) :
    ∃ w, storeExternalBundle times bundle (.ok ()) now u =
        onVaulted (addExternalCert (externalRow times bundle now)) w ∧
      w.items = u.items.create (extTitle bundle.title) (itemFields bundle) ∧
      w.db.tables = u.db.tables := by
  obtain ⟨w, hgive, hitems, htables⟩ := giveItem_run bundle.cert.verified
    (recordOf times bundle now)
    { u with items := u.items.create (extTitle bundle.title) (itemFields bundle) }
  have hcreate (title : String) (fields : Fields) : createItem title fields (.ok ()) u =
      .ok () { u with items := u.items.create title fields } := rfl
  refine ⟨w, ?_, hitems, htables⟩
  unfold storeExternalBundle storeBundle
  rw [bind_of_ok (hcreate _ _), bind_of_ok hgive]

theorem storeExternalBundle_of_fresh {u : Vaulted Empty}
    (h : bundle.cert.serial ∉ u.db.tables.externals.map ExternalCertRecord.serial) :
    ∃ v, storeExternalBundle times bundle (.ok ()) now u = .ok () v ∧
      v.items = u.items.create (extTitle bundle.title) (itemFields bundle) ∧
      externalRow times bundle now ∈ v.db.tables.externals := by
  obtain ⟨w, heq, hitems, htables⟩ :=
    storeExternalBundle_eq times bundle now u
  have hadd : addExternalCert (externalRow times bundle now) w.db = .ok () { w.db with
      tables := { w.db.tables with
        externals := w.db.tables.externals ++ [externalRow times bundle now] }
      dirty := true } := by
    unfold addExternalCert
    rw [htables]
    exact if_neg h
  rw [heq, onVaulted, Part.lift_ok hadd]
  exact ⟨_, rfl, hitems, List.mem_append_right _ (List.mem_singleton_self _)⟩

theorem storeExternalBundle_of_taken {u : Vaulted Empty}
    (h : bundle.cert.serial ∈ u.db.tables.externals.map ExternalCertRecord.serial) :
    ∃ e v, storeExternalBundle times bundle (.ok ()) now u = .error e v ∧
      v.items = u.items.create (extTitle bundle.title) (itemFields bundle) := by
  obtain ⟨w, heq, hitems, htables⟩ :=
    storeExternalBundle_eq times bundle now u
  have hadd : addExternalCert (externalRow times bundle now) w.db =
      .error (.database "UNIQUE constraint failed: external_certificate.serial") w.db := by
    unfold addExternalCert
    rw [htables]
    exact if_pos h
  rw [heq, onVaulted, Part.lift_error hadd]
  exact ⟨_, _, rfl, hitems⟩

end CsrImport

/-- The rows of a CN once the import has come to them. -/
def Csrs.completed (csrs : Csrs) (cn : String) (updated : Except OpcaError Unit) : Csrs :=
  match updated with
  | .ok _ => csrs.setStatus cn "Complete"
  | .error _ => csrs

namespace FrontEnd

variable {openssl : Openssl} {times : OpensslTimes} {frontEnd : FrontEnd}
  {request : CsrImport} {found : Prepared} {bundle : Bundle} {s : CsrVault} {cn : String}

/-- Nothing fails from the making of the item on. -/
structure Stores (frontEnd : FrontEnd) (request : CsrImport) (s : CsrVault)
    (bundle : Bundle) : Prop where
  created : request.created = .ok ()
  fresh : bundle.cert.serial ∉ s.vaulted.db.tables.externals.map ExternalCertRecord.serial
  updated : frontEnd = .desktop → request.updated = .ok ()
  stored : request.stored = .ok ()

theorem complete_run {updated : Except OpcaError Unit} (s : CsrVault)
    (h : frontEnd = .desktop → updated = .ok ()) :
    frontEnd.complete cn updated s = .ok () { s with csrs := s.csrs.completed cn updated } := by
  cases frontEnd with
  | desktop =>
    rw [h rfl]
    rfl
  | cli => cases updated <;> rfl

theorem storeAll_of_stores (times : OpensslTimes) (found : Prepared)
    (h : Stores frontEnd request s bundle) :
    ∃ t, frontEnd.storeAll times request found bundle s = .ok () t ∧
      t.items = s.items.create (extTitle bundle.title) (CsrImport.itemFields bundle) ∧
      CsrImport.externalRow times bundle request.now ∈ t.vaulted.db.tables.externals ∧
      t.csrs = s.csrs.completed found.cn request.updated := by
  obtain ⟨v, hstore, hitems, hrow⟩ := CsrImport.storeExternalBundle_of_fresh times
    bundle request.now h.fresh
  unfold storeAll
  rw [h.created, h.stored, bind_of_ok (Part.lift_ok hstore), bind_of_ok (complete_run _ h.updated)]
  exact ⟨_, rfl, hitems, hrow, rfl⟩

/-- Where something does fail, the bundle's item is there or it is not. -/
theorem storeAll_of_not_stores (times : OpensslTimes) (found : Prepared)
    (h : ¬ Stores frontEnd request s bundle) :
    ∃ e t, frontEnd.storeAll times request found bundle s = .error e t ∧
      (t.items = s.items ∨
        t.items = s.items.create (extTitle bundle.title) (CsrImport.itemFields bundle)) := by
  unfold storeAll
  cases hcreated : request.created with
  | error e => exact ⟨e, s, rfl, .inl rfl⟩
  | ok _ =>
    by_cases hfresh : bundle.cert.serial ∈
        s.vaulted.db.tables.externals.map ExternalCertRecord.serial
    · obtain ⟨e, v, hstore, hitems⟩ := CsrImport.storeExternalBundle_of_taken times
        bundle request.now hfresh
      rw [bind_of_error (Part.lift_error hstore)]
      exact ⟨e, _, rfl, .inr hitems⟩
    · obtain ⟨v, hstore, hitems, -⟩ := CsrImport.storeExternalBundle_of_fresh times
        bundle request.now hfresh
      rw [bind_of_ok (Part.lift_ok hstore)]
      by_cases hupdated : frontEnd = .desktop → request.updated = .ok ()
      · rw [bind_of_ok (complete_run _ hupdated)]
        cases hstored : request.stored with
        | error e => exact ⟨e, _, rfl, .inr hitems⟩
        | ok _ => exact absurd ⟨hcreated, hfresh, hupdated, hstored⟩ h
      · rw [Classical.not_imp] at hupdated
        obtain ⟨rfl, hfails⟩ := hupdated
        cases hanswer : request.updated with
        | error e => exact ⟨e, _, rfl, .inr hitems⟩
        | ok _ => exact absurd hanswer hfails

/-- Storing the bundle does to the database what recording another CA's certificate
does. -/
theorem storeExternalBundle_follows (times : OpensslTimes) (bundle : Bundle)
    (created : Except OpcaError Unit) (now : Time) :
    database.Follows (CsrImport.storeExternalBundle times bundle created now)
      (storeExternal times (CsrImport.bundled bundle) bundle.title created now) :=
  storeBundle_follows _ _ _ _ _ _

theorem complete_vaulted {updated : Except OpcaError Unit} {t : CsrVault}
    (h : frontEnd.complete cn updated s = .ok () t) : t.vaulted = s.vaulted := by
  cases frontEnd with
  | desktop =>
    cases updated with
    | error e => cases h
    | ok _ =>
      cases h
      rfl
  | cli =>
    cases updated <;>
    · cases h
      rfl

theorem storeWithCsrs_db {stored : Except OpcaError Unit} {t : CsrVault}
    (h : storeWithCsrs stored s = .ok () t) : t.vaulted.db = s.vaulted.db := by
  cases stored with
  | error e => cases h
  | ok _ =>
    cases h
    rfl

/-- An import that returns has recorded the bundle, and changed nothing else of the
database but the CSR's row. -/
theorem storeExternal_of_storeAll {t : CsrVault}
    (h : frontEnd.storeAll times request found bundle s = .ok () t) :
    storeExternal times (CsrImport.bundled bundle) bundle.title request.created request.now
      s.vaulted.db = .ok () t.vaulted.db := by
  obtain ⟨_, u, hstore, h⟩ := of_bind_ok h
  obtain ⟨v, hv, rfl⟩ := Part.of_lift_ok hstore
  obtain ⟨_, w, hcomplete, h⟩ := of_bind_ok h
  have hdb : t.vaulted.db = v.db := by
    rw [storeWithCsrs_db h, complete_vaulted hcomplete]
    rfl
  have hfollows := storeExternalBundle_follows times bundle request.created
    request.now s.vaulted
  rw [show CsrImport.storeExternalBundle times bundle request.created request.now
    s.vaulted = .ok () v from hv] at hfollows
  rw [hdb]
  exact hfollows.symm

theorem bundle_eq_ok (h : frontEnd.bundle openssl request found = .ok bundle) :
    request.file.fromPem = some bundle.cert ∧
      bundle.title = CsrImport.bundleTitle found.cn bundle.cert ∧
      bundle.privateKey = some found.key := by
  have himport {csr : Option String} {made : Bundle} (h : CsrImport.importBundle openssl
      found.cn request.file (some found.key) csr = .ok made) :
      request.file.fromPem = some made.cert ∧
        made.title = CsrImport.bundleTitle found.cn made.cert ∧
        made.privateKey = some found.key := by
    obtain ⟨cert, hcert, h⟩ := bind_eq_ok.mp h
    obtain ⟨_, _, h⟩ := bind_eq_ok.mp h
    obtain ⟨_, _, h⟩ := bind_eq_ok.mp h
    cases h
    exact ⟨elim_eq_ok hcert, rfl, rfl⟩
  cases frontEnd with
  | cli => exact himport h
  | desktop =>
    obtain ⟨made, hmade, hchain⟩ := bind_eq_ok.mp h
    have hfacts := himport hmade
    unfold CsrImport.withChain at hchain
    split at hchain <;> cases hchain <;> exact hfacts

end FrontEnd

/-! ## The key -/

/-- The key is in the item that importing the CSR's certificate looks up. -/
def KeyHeld (s : CsrVault) (cn key : String) : Prop :=
  ∃ item, s.items.find (csrTitle cn) = some item ∧ item.content.privateKey = some key

def CsrsComplete (csrs : Csrs) (cn : String) : Prop :=
  ∀ row ∈ csrs.rows, row.cn = some cn → row.status = some "Complete"

/-- The key is in the item of an external certificate, and the CSR is done with. -/
structure KeyMoved (s : CsrVault) (cn key : String) (cert : Imported) : Prop where
  item : ∃ item ∈ s.items.rows, item.title = extTitle (CsrImport.bundleTitle cn cert) ∧
    item.content.privateKey = some key ∧
    item.content.certificate.map Certificate.serial = some cert.serial
  row : ∃ row ∈ s.vaulted.db.tables.externals, row.serial = cert.serial
  csr : ∃ row ∈ s.csrs.rows, row.cn = some cn
  complete : CsrsComplete s.csrs cn

theorem keyHeld_iff {s : CsrVault} {cn key : String} {item : Foundation.Item Fields}
    (hitem : item ∈ s.items.rows) (htitle : item.title = csrTitle cn)
    (hkey : item.content.privateKey = some key) :
    KeyHeld s cn key ↔ s.items.named (csrTitle cn) = [item] := by
  constructor
  · rintro ⟨found, hfind, -⟩
    rw [Items.eq_of_find hfind hitem htitle]
    exact Items.find_eq_some.mp hfind
  · intro h
    exact ⟨item, Items.find_eq_some.mpr h, hkey⟩

theorem extTitle_ne_csrTitle (a b : String) : extTitle a ≠ csrTitle b := by
  intro h
  have hlist : ("EXT_" ++ a).toList = ("CSR_" ++ b).toList := congrArg String.toList h
  simp at hlist

theorem not_keyHeld {s : CsrVault} {cn key : String}
    (h : s.items.named (csrTitle cn) = []) : ¬ KeyHeld s cn key := by
  rintro ⟨found, hfind, -⟩
  rw [Items.find_eq_none_of_named h] at hfind
  cases hfind

/-- A CSR has a row that says it is complete when it had one and was told so. -/
theorem completed_iff (csrs : Csrs) (cn : String) (updated : Except OpcaError Unit) :
    ((∃ row ∈ (csrs.completed cn updated).rows, row.cn = some cn) ∧
        CsrsComplete (csrs.completed cn updated) cn) ↔
      (∃ row ∈ csrs.rows, row.cn = some cn) ∧
        (updated = .ok () ∨ CsrsComplete csrs cn) := by
  cases updated with
  | error e => simp [Csrs.completed]
  | ok _ =>
    constructor
    · rintro ⟨⟨row, hrow, hcn⟩, -⟩
      obtain ⟨old, hold, rfl⟩ := mem_updateWhere.mp hrow
      refine ⟨⟨old, hold, ?_⟩, .inl rfl⟩
      split at hcn <;> exact hcn
    · rintro ⟨⟨row, hrow, hcn⟩, -⟩
      constructor
      · exact ⟨_, mem_updateWhere_of hrow (decide_eq_true hcn), hcn⟩
      · intro changed hchanged hcn'
        obtain ⟨old, hold, rfl⟩ := mem_updateWhere.mp hchanged
        by_cases hold : old.cn = some cn
        · rw [if_pos (decide_eq_true hold)]
        · rw [if_neg (by simpa using hold)] at hcn'
          exact absurd hcn' hold

namespace FrontEnd

variable {openssl : Openssl} {times : OpensslTimes} {frontEnd : FrontEnd}
  {request : CsrImport} {found : Prepared} {s : CsrVault} {cn key : String}
  {item : Foundation.Item Fields}

/-- The CN of the CSR that an import is for. -/
def target (frontEnd : FrontEnd) (request : CsrImport) : Option String :=
  request.cn.or ((frontEnd.parsed request.file).bind (·.attribs.cn))

/-- What an import that ended so has done with the key. -/
def Kept (frontEnd : FrontEnd) (request : CsrImport) (cn key : String) :
    EStateM.Result OpcaError CsrVault Unit → Prop
  | .ok _ t => ∃ cert, frontEnd.parsed request.file = some cert ∧ KeyMoved t cn key cert
  | .error _ t => KeyHeld t cn key

/-- Importing a CSR's certificate does not lose its key. -/
def KeepsKey (frontEnd : FrontEnd) (openssl : Openssl) (times : OpensslTimes)
    (request : CsrImport) (s : CsrVault) (cn key : String) : Prop :=
  Kept frontEnd request cn key (frontEnd.importCsr openssl times request s)

/-- Nothing fails once the CSR's item is gone, and the CSR has a row. -/
structure GoesThrough (frontEnd : FrontEnd) (openssl : Openssl) (request : CsrImport)
    (s : CsrVault) (found : Prepared) : Prop where
  stores : ∃ bundle, frontEnd.bundle openssl request found = .ok bundle ∧
    Stores frontEnd request s bundle
  csr : ∃ row ∈ s.csrs.rows, row.cn = some found.cn
  complete : request.updated = .ok () ∨ CsrsComplete s.csrs found.cn

/-- No other item has the CSR's title, and the import is refused before the item goes,
or goes through. -/
def Safe (frontEnd : FrontEnd) (openssl : Openssl) (request : CsrImport) (s : CsrVault)
    (cn : String) (item : Foundation.Item Fields) : Prop :=
  s.items.named (csrTitle cn) = [item] ∧
    ∀ found, frontEnd.prepared openssl request s.items = .ok found →
      request.removed = .ok () → GoesThrough frontEnd openssl request s found

/-- Going through is nothing about the CSR's item. -/
theorem goesThrough_without :
    GoesThrough frontEnd openssl request (without s item) found ↔
      GoesThrough frontEnd openssl request s found := by
  constructor
  · rintro ⟨⟨bundle, hbundle, hstores⟩, hcsr, hcomplete⟩
    exact ⟨⟨bundle, hbundle, hstores.created, hstores.fresh, hstores.updated, hstores.stored⟩,
      hcsr, hcomplete⟩
  · rintro ⟨⟨bundle, hbundle, hstores⟩, hcsr, hcomplete⟩
    exact ⟨⟨bundle, hbundle, hstores.created, hstores.fresh, hstores.updated, hstores.stored⟩,
      hcsr, hcomplete⟩

theorem target_of_finds (h : Finds frontEnd openssl request s.items found) :
    frontEnd.target request = some found.cn := by
  have hcn := h.commonName
  unfold target
  rw [h.parsed]
  exact hcn

theorem parsed_of_pem {file : CertFile} {cert : Imported} (h : file.fromPem = some cert) :
    frontEnd.parsed file = some cert := by
  cases frontEnd with
  | desktop => exact h
  | cli =>
    show file.fromPem.or file.fromDer = some cert
    rw [h]
    rfl

/-- Once the item is gone, the key is where it should be exactly if nothing fails. -/
theorem kept_of_removed (times : OpensslTimes) (openssl : Openssl) (frontEnd : FrontEnd)
    (request : CsrImport) {t : CsrVault} (hnamed : t.items.named (csrTitle found.cn) = []) :
    Kept frontEnd request found.cn found.key
        ((outcome (frontEnd.bundle openssl request found) >>=
          frontEnd.storeAll times request found) t) ↔
      GoesThrough frontEnd openssl request t found := by
  cases hbundle : frontEnd.bundle openssl request found with
  | error e =>
    refine iff_of_false (not_keyHeld hnamed) ?_
    rintro ⟨⟨bundle, hok, -⟩, -, -⟩
    rw [hbundle] at hok
    cases hok
  | ok bundle =>
    obtain ⟨hpem, htitle, hkey⟩ := bundle_eq_ok hbundle
    rw [bind_of_ok (show outcome (.ok bundle) t = .ok bundle t from rfl)]
    by_cases hstores : Stores frontEnd request t bundle
    · obtain ⟨u, hrun, hitems, hrow, hcsrs⟩ := storeAll_of_stores times found hstores
      have hcsr := completed_iff t.csrs found.cn request.updated
      rw [← hcsrs] at hcsr
      rw [hrun]
      constructor
      · rintro ⟨cert, -, hmoved⟩
        obtain ⟨hrow, hcomplete⟩ := hcsr.mp ⟨hmoved.csr, hmoved.complete⟩
        exact ⟨⟨bundle, hbundle, hstores⟩, hrow, hcomplete⟩
      · intro hgoes
        obtain ⟨hexists, hcomplete⟩ := hcsr.mpr ⟨hgoes.csr, hgoes.complete⟩
        refine ⟨bundle.cert, parsed_of_pem hpem, ?_, ⟨_, hrow, rfl⟩, hexists, hcomplete⟩
        obtain ⟨item, hitem, htitle', hcontent⟩ : ∃ item ∈ u.items.rows,
            item.title = extTitle bundle.title ∧
              item.content = CsrImport.itemFields bundle := by
          rw [hitems]
          exact Items.exists_create
        refine ⟨item, hitem, by rw [htitle', htitle], ?_, ?_⟩ <;> rw [hcontent]
        · exact hkey
        · rfl
    · obtain ⟨e, u, hrun, hitems⟩ := storeAll_of_not_stores times found hstores
      rw [hrun]
      refine iff_of_false (not_keyHeld ?_) ?_
      · rcases hitems with heq | heq <;> rw [heq]
        · exact hnamed
        · rw [Items.named_create_of_ne (extTitle_ne_csrTitle _ _)]
          exact hnamed
      · rintro ⟨⟨other, hok, hother⟩, -, -⟩
        rw [hbundle] at hok
        cases hok
        exact hstores hother

/-- A bundle that cannot be made is found out too late. -/
theorem not_keepsKey_of_bundle {e : OpcaError}
    (hprepared : frontEnd.prepared openssl request s.items = .ok found)
    (hremoved : request.removed = .ok ())
    (hbundle : frontEnd.bundle openssl request found = .error e) :
    ¬ KeepsKey frontEnd openssl times request s found.cn found.key := by
  have hnamed := Items.find_eq_some.mp (finds_of_prepared hprepared).item
  have hgone : (without s found.item).items.named (csrTitle found.cn) = [] :=
    Items.named_remove hnamed
  unfold KeepsKey
  rw [importCsr_of_ok hprepared, replaceItem_of_ok hremoved,
    kept_of_removed times openssl frontEnd request hgone]
  rintro ⟨⟨bundle, hok, -⟩, -, -⟩
  rw [hbundle] at hok
  cases hok

/-- The CLI takes a DER file, of which it then makes no bundle. -/
theorem not_keepsKey_of_der {cert : Imported} (hfile : request.file = .der cert)
    (hprepared : FrontEnd.cli.prepared openssl request s.items = .ok found)
    (hremoved : request.removed = .ok ()) :
    ¬ KeepsKey .cli openssl times request s found.cn found.key := by
  have hbundle : FrontEnd.cli.bundle openssl request found =
      .error (.invalidCertificate "Failed to parse certificate PEM") := by
    unfold bundle CsrImport.importBundle
    rw [hfile]
    rfl
  exact not_keepsKey_of_bundle hprepared hremoved hbundle

end FrontEnd

/-! ## A device's certificate -/

/-- OpenSSL, of texts that each name what they hold. -/
def plainOpenssl : Openssl where
  publicKey key := .ok s!"public {key}"
  readCsr csr := if csr = "" then .error (.invalidCertificate "Failed to parse CSR PEM") else .ok ()

def fixedTimes : OpensslTimes := ⟨fun _ => none, fun _ => "20260101000000Z"⟩

/-- The certificate that another CA made of a device's CSR. -/
def deviceCert : Imported where
  serial := "77"
  attribs :=
    { cn := some "device", subject := "CN=device", issuer := some "CN=Upstream"
      certType := "external", notBefore := none, notAfter := ⟨0, by decide⟩
      publicKey := "public key", keyType := none, keySize := none, san := none
      hasPrivateKey := true, hasChain := false }
  notBefore := 0
  verified := false
  issuer := "Upstream"
  issuerSubject := "CN=Upstream"

/-- The vault with the device's CSR, waiting for its certificate. -/
def waiting : CsrVault where
  vaulted :=
    { db := .fromTables ⟨{}, .empty, [], none, none, .empty, .empty, fun _ _ => none⟩ []
      items := Items.create .empty "CSR_device" ⟨none, some "key", some "csr"⟩
      stored := ⟨{}, .empty, [], none, none, .empty, .empty, fun _ _ => none⟩
      log := [] }
  csrs := Table.empty.insert
    (fun id => ⟨id, some "device", some "CSR_device", none, none, none, some "Pending", none,
      some "csr"⟩) fun _ => rfl
  storedCsrs := .empty

/-- Its import, which nothing outside refuses. -/
def deviceImport (file : CertFile) (chain : Option ChainText) : CsrImport :=
  ⟨none, file, chain, .ok (), .ok (), .ok (), .ok (), .ok (), 0⟩

/-- What is found of it before anything changes. -/
def deviceFound : Prepared :=
  ⟨deviceCert, "device", ⟨1, "CSR_device", ⟨none, some "key", some "csr"⟩⟩, "key"⟩

namespace FrontEnd

variable {openssl : Openssl} {times : OpensslTimes} {frontEnd : FrontEnd}
  {request : CsrImport} {found : Prepared} {s : CsrVault} {cn key : String}
  {item : Foundation.Item Fields}

/-- The desktop loses the key over a chain that does not parse, the CLI over a file that
is not PEM. -/
theorem keyLost :
    deviceFound.item ∈ waiting.items.rows ∧ deviceFound.item.title = csrTitle "device" ∧
      deviceFound.item.content.privateKey = some "key" ∧
      ¬ KeepsKey .desktop plainOpenssl fixedTimes
        (deviceImport (.pem deviceCert) (some .unreadable)) waiting "device" "key" ∧
      ¬ KeepsKey .cli plainOpenssl fixedTimes (deviceImport (.der deviceCert) none) waiting
        "device" "key" := by
  refine ⟨List.mem_singleton_self _, rfl, rfl, ?_, ?_⟩
  · have hprepared : FrontEnd.desktop.prepared plainOpenssl
        (deviceImport (.pem deviceCert) (some .unreadable)) waiting.items = .ok deviceFound := rfl
    have hbundle : FrontEnd.desktop.bundle plainOpenssl
        (deviceImport (.pem deviceCert) (some .unreadable)) deviceFound =
          .error (.invalidCertificate "Failed to parse certificate chain PEM") := rfl
    exact not_keepsKey_of_bundle hprepared rfl hbundle
  · have hprepared : FrontEnd.cli.prepared plainOpenssl
        (deviceImport (.der deviceCert) none) waiting.items = .ok deviceFound := rfl
    exact not_keepsKey_of_der rfl hprepared rfl

/-- Importing keeps the key exactly if no other item has the CSR's title and, once its
item is gone, nothing fails. -/
theorem keepsKey_iff_safe (openssl : Openssl) (times : OpensslTimes) (frontEnd : FrontEnd)
    (request : CsrImport) (s : CsrVault) (cn key : String) (item : Foundation.Item Fields)
    (htarget : frontEnd.target request = some cn) (hitem : item ∈ s.items.rows)
    (htitle : item.title = csrTitle cn) (hkey : item.content.privateKey = some key) :
    KeepsKey frontEnd openssl times request s cn key ↔
      Safe frontEnd openssl request s cn item := by
  have hheld := keyHeld_iff hitem htitle hkey
  unfold KeepsKey Safe
  cases hprepared : frontEnd.prepared openssl request s.items with
  | error e =>
    rw [importCsr_of_error hprepared]
    exact hheld.trans ⟨fun h => ⟨h, fun _ hfound => by cases hfound⟩, And.left⟩
  | ok found =>
    have hfinds := finds_of_prepared hprepared
    obtain rfl : found.cn = cn :=
      Option.some.inj ((target_of_finds hfinds).symm.trans htarget)
    obtain rfl : item = found.item := Items.eq_of_find hfinds.item hitem htitle
    obtain rfl : found.key = key := Option.some.inj (hfinds.key.symm.trans hkey)
    have hnamed := Items.find_eq_some.mp hfinds.item
    rw [importCsr_of_ok hprepared]
    cases hremoved : request.removed with
    | error e =>
      rw [replaceItem_of_error hremoved]
      exact hheld.trans ⟨fun h => ⟨h, fun _ _ hok => by cases hok⟩, And.left⟩
    | ok _ =>
      rw [replaceItem_of_ok hremoved]
      have hgone : (without s found.item).items.named (csrTitle found.cn) = [] :=
        Items.named_remove hnamed
      refine (kept_of_removed times openssl frontEnd request hgone).trans
        ⟨fun h => ⟨hnamed, ?_⟩, ?_⟩
      · intro other hother _
        cases hother
        exact goesThrough_without.mp h
      · intro h
        exact goesThrough_without.mpr (h.2 found rfl rfl)

/-- With a PEM file and a chain that parses, if any. -/
theorem keepsKey_iff_safe_device :
    KeepsKey .desktop plainOpenssl fixedTimes
      (deviceImport (.pem deviceCert) (some (.certs 1))) waiting "device" "key" := by
  have hprepared : FrontEnd.desktop.prepared plainOpenssl
      (deviceImport (.pem deviceCert) (some (.certs 1))) waiting.items = .ok deviceFound := rfl
  refine (keepsKey_iff_safe plainOpenssl fixedTimes .desktop _ waiting "device" "key"
    deviceFound.item rfl (List.mem_singleton_self _) rfl rfl).mpr ⟨rfl, ?_⟩
  intro found hfound _
  rw [hprepared] at hfound
  cases hfound
  exact ⟨⟨_, rfl, rfl, List.not_mem_nil, fun _ => rfl, rfl⟩,
    ⟨_, List.mem_singleton_self _, rfl⟩, .inl rfl⟩

end FrontEnd

end Opca.Core

/-
  Core/Published.lean --- the certificates in the public store, each under its CN, and
  the rows that are stamped as published (`services/ca/publish.rs`,
  `mark_cert_published`, `renew_certificate_bundle`).

  Certificates are given as their PEM, which operations take from outside.  An upload
  that fails leaves the object as it was.
-/
import Opca.Core.Lookup
import Mathlib.Logic.Function.Basic

set_option autoImplicit false

namespace Opca.Core

open Opca.Foundation Acme

/-! ## The public store -/

def publishedCertDir : String := "certs"

/-- The public-store key of the certificate published for `cn`. -/
def publishedCertKey (cn : String) : String :=
  publishedCertDir ++ "/" ++ String.ofList (cn.toList.map keyChar) ++ ".pem"
where
  keyChar (c : Char) : Char := if c.isAlphanum || c = '.' || c = '-' then c else '_'

/-- The database, and the objects of the public store. -/
structure Site where
  db : CaDatabase
  objects : String → Option String

abbrev SiteM := EStateM OpcaError Site

def onDb {α : Type} (m : DbM α) : SiteM α := fun s =>
  match m s.db with
  | .ok a db => .ok a { s with db }
  | .error e db => .error e { s with db }

/-- Writes an object, or fails and leaves it. -/
def uploadContent (key pem : String) (uploaded : Except OpcaError Unit) : SiteM Unit := do
  outcome uploaded
  modify fun s => { s with objects := Function.update s.objects key (some pem) }

namespace Site

/-- Uploads to the CN's key and stamps the row. -/
def uploadPublished (serial cn pem : String) (uploaded : Except OpcaError Unit)
    (now : String) : SiteM Unit := do
  let s ← get
  onDb (require (s.db.tables.config.read.text .caPublicStore).isSome
    (.storage "No public store configured"))
  uploadContent (publishedCertKey cn) pem uploaded
  onDb (markCertPublished serial cn now)

/-- `bundle` is what the row's title retrieves: whether its certificate has expired, and
its PEM. -/
def publishCertificate (lookup : CertLookup) (bundle : Except OpcaError (Bool × String))
    (uploaded : Except OpcaError Unit) (now : String) : SiteM Issued := do
  let cert ← onDb (publishable lookup)
  let retrieved ← outcome bundle
  onDb (require (retrieved.1 = false) (.certificateExpired cert.serial))
  uploadPublished cert.serial (cert.cn.getD "") retrieved.2 uploaded now
  return .nothing

/-- An error is only logged. -/
def logged (m : SiteM Unit) : SiteM Unit := fun s =>
  match m s with
  | .ok _ t => .ok () t
  | .error _ t => .ok () t

/-- Uploads a renewal, if its predecessor is published. -/
def republish (times : OpensslTimes) (old : CertRecord) (cn pem : String)
    (renewing : Renewing) (newSerial : String) : SiteM Unit :=
  if old.publishedAt.isSome then
    logged (uploadPublished newSerial cn pem renewing.uploaded (times.format renewing.now))
  else return

/-- `pem` is the renewed certificate. -/
def renewCertificateBundle (times : OpensslTimes) (lookup : CertLookup) (cert : CertAttribs)
    (pem : String) (signing : Signing) (renewing : Renewing) : SiteM Issued := do
  let old ← onDb (certificateOf lookup true)
  onDb (require old.title.isSome (.certificateNotFound "No title"))
  onDb (require (old.status ≠ some "Revoked") (.other "Cannot renew a revoked certificate"))
  outcome renewing.retrieved
  let issued ← onDb (issueBundle times renewing.now cert (bundleTitle (cert.cn.getD "")) signing
    fun newSerial => autoIgnorePredecessor old.serial newSerial .renewed renewing.user
      (times.format renewing.now))
  issued.serials.forM fun newSerial =>
    republish times old (cert.cn.getD "") pem renewing (toString newSerial)
  return issued

end Site

/-! ## What it is to the database -/

/-- What a computation is to the database alone. -/
def Follows {α : Type} (m : SiteM α) (m' : DbM α) : Prop :=
  ∀ s, (match m s with
    | .ok a t => .ok a t.db
    | .error e t => .error e t.db) = m' s.db

namespace Follows

variable {α β : Type} {m : SiteM α} {m' : DbM α}

theorem onDb (m : DbM α) : Follows (Core.onDb m) m := by
  intro s
  unfold Core.onDb
  cases m s.db <;> rfl

theorem outcome (answer : Except OpcaError α) :
    Follows (Foundation.outcome answer) (Foundation.outcome answer) := by
  intro s
  cases answer <;> rfl

theorem pure (a : α) : Follows (Pure.pure a) (Pure.pure a) := fun _ => rfl

theorem bind {f : α → SiteM β} {f' : α → DbM β} (h : Follows m m')
    (hf : ∀ a, Follows (f a) (f' a)) : Follows (m >>= f) (m' >>= f') := by
  intro s
  have hs := h s
  cases hm : m s with
  | ok a t =>
    rw [hm] at hs
    rw [bind_of_ok hm, bind_of_ok hs.symm]
    exact hf a t
  | error e t =>
    rw [hm] at hs
    rw [bind_of_error hm, bind_of_error hs.symm]

theorem forM {f : α → SiteM Unit} {f' : α → DbM Unit} (hf : ∀ a, Follows (f a) (f' a)) :
    ∀ as : List α, Follows (as.forM f) (as.forM f')
  | [] => pure _
  | a :: as => (hf a).bind fun _ => forM hf as

/-- What goes to the store alone is nothing to the database. -/
theorem uploadContent (key pem : String) (uploaded : Except OpcaError Unit) :
    Follows (Core.uploadContent key pem uploaded) (Foundation.outcome uploaded) := by
  intro s
  cases uploaded <;> rfl

theorem logged {m : SiteM Unit} {m' : DbM Unit} (h : Follows m m') :
    Follows (Site.logged m) (Core.logged m') := by
  intro s
  have hs := h s
  unfold Site.logged Core.logged
  cases hm : m s with
  | ok a t =>
    rw [hm] at hs
    rw [← hs]
  | error e t =>
    rw [hm] at hs
    rw [← hs]

theorem uploadPublished (serial cn pem at_ : String) (uploaded : Except OpcaError Unit) :
    Follows (Site.uploadPublished serial cn pem uploaded at_)
      (Core.uploadPublished serial cn uploaded at_) := by
  intro s
  exact ((onDb _).bind fun _ => (uploadContent _ _ _).bind fun _ => onDb _) s

theorem publishCertificate (lookup : CertLookup) (bundle : Except OpcaError (Bool × String))
    (uploaded : Except OpcaError Unit) (at_ : String) :
    Follows (Site.publishCertificate lookup bundle uploaded at_)
      (Core.publishCertificate lookup (bundle.map Prod.fst) uploaded at_) := by
  refine (onDb _).bind fun cert => ?_
  intro s
  cases bundle with
  | error e => rfl
  | ok retrieved =>
    exact ((onDb _).bind fun _ => (uploadPublished _ _ _ _ _).bind fun _ => pure _) s

end Follows

/-- A bundle is issued, and then more is done with its serial. -/
theorem issueBundle_then {times : OpensslTimes} {now : Time} {cert : CertAttribs}
    {title : String → String} {signing : Signing} (first next : String → DbM Unit) :
    issueBundle times now cert title signing (fun serial => first serial >>= fun _ => next serial)
      = issueBundle times now cert title signing first >>= fun issued =>
        issued.serials.forM (fun serial => next (toString serial)) >>= fun _ => pure issued := by
  have hone : ∀ serial : Int, [serial].forM (fun serial => next (toString serial)) =
      next (toString serial) := fun serial => bind_pure_unit
  unfold issueBundle
  simp only [bind_assoc, pure_bind, hone]

/-- The renewal is the one of the database, with the object uploaded besides. -/
theorem Follows.renewCertificateBundle (times : OpensslTimes) (lookup : CertLookup)
    (cert : CertAttribs) (pem : String) (signing : Signing) (renewing : Renewing) :
    Follows (Site.renewCertificateBundle times lookup cert pem signing renewing)
      (Core.renewCertificateBundle times lookup cert signing renewing) := by
  refine (onDb _).bind fun old => (onDb _).bind fun _ => (onDb _).bind fun _ => ?_
  refine (Follows.outcome _).bind fun _ => ?_
  rw [issueBundle_then]
  refine (onDb _).bind fun issued => ?_
  refine Follows.bind (forM (fun serial => ?_) _) fun _ => pure _
  unfold Site.republish
  split
  · exact (uploadPublished _ _ _ _ _).logged
  · exact pure _

/-! ## The machine -/

/-- The site, and the certificate that has each serial. -/
structure Publication where
  site : Site
  certificate : String → String

inductive PublicationStep where
  | generate (itemTitle : String) (cert : CertAttribs) (pem : String) (signing : Signing)
      (now : Time)
  | rekey (lookup : CertLookup) (cert : CertAttribs) (pem : String) (signing : Signing)
      (renewing : Renewing)
  | revoke (lookup : CertLookup) (now : Time)
  | renew (lookup : CertLookup) (cert : CertAttribs) (pem : String) (signing : Signing)
      (renewing : Renewing)
  | publish (lookup : CertLookup) (bundle : Except OpcaError (Bool × String))
      (uploaded : Except OpcaError Unit) (now : Time)

namespace PublicationStep

def run (times : OpensslTimes) : PublicationStep → SiteM Issued
  | .generate itemTitle cert _ signing now =>
    onDb (generateCertificateBundle times itemTitle cert signing now)
  | .rekey lookup cert _ signing renewing =>
    onDb (rekeyCertificateBundle times lookup cert signing renewing)
  | .revoke lookup now => onDb (revokeCertificate times lookup now)
  | .renew lookup cert pem signing renewing =>
    Site.renewCertificateBundle times lookup cert pem signing renewing
  | .publish lookup bundle uploaded now =>
    Site.publishCertificate lookup bundle uploaded (times.format now)

/-- The certificate that it issues. -/
def pem : PublicationStep → Option String
  | .generate _ _ pem _ _ | .rekey _ _ pem _ _ | .renew _ _ pem _ _ => some pem
  | .revoke _ _ | .publish _ _ _ _ => none

/-- The site after it, whether it failed or not. -/
def after (times : OpensslTimes) (l : PublicationStep) (s : Site) : Site :=
  match l.run times s with
  | .ok _ t => t
  | .error _ t => t

end PublicationStep

/-- The certificates once another is issued, under a serial that no row has. -/
def Publication.certificates (s : Publication) (issued : Option String) : String → String :=
  fun serial =>
    if serial ∈ s.site.db.rows.map CertRecord.serial then s.certificate serial
    else issued.getD (s.certificate serial)

/-- From a database none of whose certificates is published. -/
def publication (times : OpensslTimes) : Machine Publication PublicationStep where
  init s := ∀ c ∈ s.site.db.rows, c.publishedAt = none
  next s l := some ⟨l.after times s.site, s.certificates l.pem⟩

/-- At most one row of a CN is stamped, and its certificate is the CN's object. -/
structure PublishedAsStamped (s : Publication) : Prop where
  one : ∀ c ∈ s.site.db.rows, ∀ c' ∈ s.site.db.rows, c.publishedAt.isSome = true →
    c'.publishedAt.isSome = true → c.cn = c'.cn → c = c'
  object : ∀ c ∈ s.site.db.rows, c.publishedAt.isSome = true →
    s.site.objects (publishedCertKey (c.cn.getD "")) = some (s.certificate c.serial)

/-- No certificate of another CN is published under a CN's key. -/
def CaDatabase.KeyFree (db : CaDatabase) (cn : String) : Prop :=
  ∀ c ∈ db.rows, c.publishedAt.isSome = true → c.cn ≠ some cn →
    publishedCertKey (c.cn.getD "") ≠ publishedCertKey cn

/-- What is uploaded is the certificate of the row that is stamped, and its key is that of
no other CN that is published. -/
def KeysApart (s : Publication) : PublicationStep → Prop
  | .publish lookup bundle _ _ => ∀ c ∈ s.site.db.candidate lookup,
    s.site.db.KeyFree (c.cn.getD "") ∧
      ∀ retrieved ∈ bundle.toOption, retrieved.2 = s.certificate c.serial
  | .renew lookup cert _ _ _ => ∀ old ∈ s.site.db.found lookup true,
    old.publishedAt.isSome = true → s.site.db.KeyFree (cert.cn.getD "")
  | _ => True

instance (db : CaDatabase) (cn : String) : Decidable (db.KeyFree cn) :=
  inferInstanceAs (Decidable (∀ c ∈ db.rows, _ → _ → _))

instance : ∀ (s : Publication) (l : PublicationStep), Decidable (KeysApart s l)
  | s, .publish lookup _ _ _ =>
    inferInstanceAs (Decidable (∀ c ∈ s.site.db.candidate lookup, _ ∧ ∀ retrieved ∈ _, _ = _))
  | s, .renew lookup _ _ _ _ =>
    inferInstanceAs (Decidable (∀ old ∈ s.site.db.found lookup true, _ → _))
  | _, .generate _ _ _ _ _ => .isTrue trivial
  | _, .rekey _ _ _ _ _ => .isTrue trivial
  | _, .revoke _ _ => .isTrue trivial

/-! ## What leaves the stamps -/

/-- Each stamped row is one that was stamped before. -/
def KeepsStamps (s t : CaDatabase) : Prop :=
  ∀ c' ∈ t.rows, c'.publishedAt.isSome = true →
    ∃ c ∈ s.rows, c.serial = c'.serial ∧ c.cn = c'.cn ∧ c.publishedAt.isSome = true

instance : Std.Refl KeepsStamps := ⟨fun _ c hc hstamped => ⟨c, hc, rfl, rfl, hstamped⟩⟩

instance : IsTrans CaDatabase KeepsStamps := by
  refine ⟨fun a b c hab hbc row hrow hstamped => ?_⟩
  obtain ⟨row', hrow', hserial', hcn', hstamped'⟩ := hbc row hrow hstamped
  obtain ⟨row'', hrow'', hserial, hcn, hstamped''⟩ := hab row' hrow' hstamped'
  exact ⟨row'', hrow'', hserial.trans hserial', hcn.trans hcn', hstamped''⟩

variable {times : OpensslTimes} {now : Time} {db : CaDatabase} {lookup : CertLookup}

theorem keepsStamps_of_rows {t : CaDatabase} (h : t.rows = db.rows) : KeepsStamps db t := by
  intro c hc hstamped
  rw [h] at hc
  exact ⟨c, hc, rfl, rfl, hstamped⟩

theorem keepsStamps_of_map {t : CaDatabase} {f : CertRecord → CertRecord}
    (h : t.rows = db.rows.map f)
    (hf : ∀ c, (f c).serial = c.serial ∧ (f c).cn = c.cn ∧ (f c).publishedAt = c.publishedAt) :
    KeepsStamps db t := by
  intro c' hc' hstamped
  rw [h] at hc'
  obtain ⟨c, hc, rfl⟩ := List.mem_map.mp hc'
  obtain ⟨hserial, hcn, hpublished⟩ := hf c
  rw [hpublished] at hstamped
  exact ⟨c, hc, hserial.symm, hcn.symm, hstamped⟩

/-- A statement that is to no certificate's row. -/
theorem keepsStamps_elsewhere {α : Type} {m : DbM α} {value : CaDatabase → α}
    {after : CaDatabase → CaDatabase} (hm : ∀ db, m db = .ok (value db) (after db))
    (hafter : ∀ db, (after db).rows = db.rows) : Moves KeepsStamps m :=
  .of_total hm fun db => keepsStamps_of_rows (hafter db)

theorem addCert_keepsStamps {record : CertRecord} (h : record.publishedAt = none) :
    Moves KeepsStamps (addCert record) := by
  refine .of_step ?_ ?_
  · intro db a t hadd
    unfold addCert at hadd
    split at hadd
    next => cases hadd
    next certificates hrows =>
      cases hadd
      intro c hc hstamped
      rw [show CaDatabase.rows _ = _ from CaCertificates.rows_add hrows] at hc
      rcases List.mem_append.mp hc with hc | hc
      · exact ⟨c, hc, rfl, rfl, hstamped⟩
      · rw [List.mem_singleton.mp hc, h] at hstamped
        cases hstamped
  · intro db e t hadd
    unfold addCert at hadd
    split at hadd
    next =>
      cases hadd
      exact Std.Refl.refl db
    next => cases hadd

theorem ignoreCert_keepsStamps (serial user at_ : String) (reason : IgnoreReason)
    (note : Option String) : Moves KeepsStamps (ignoreCert serial reason user note at_) := by
  refine .of_step ?_ ?_
  · intro db a t h
    exact keepsStamps_of_map (of_ignoreCert_ok h) fun c => ignored_serial _ _ _ _ _ c
  · intro db e t h
    unfold ignoreCert updateCerts at h
    split at h
    · cases h
    · cases h
      exact Std.Refl.refl db

theorem processCert_stamps (revokeSerial : Option String) (c : CertRecord) :
    (processCert times now revokeSerial c).cn = c.cn ∧
      (processCert times now revokeSerial c).publishedAt = c.publishedAt := by
  obtain ⟨_, _, h⟩ := exists_processCert times now revokeSerial c
  rw [h]
  exact ⟨rfl, rfl⟩

theorem give_keepsStamps (given : Given) : Moves KeepsStamps (give given) :=
  keepsStamps_elsewhere (fun _ => rfl) fun _ => rfl

theorem issue_keepsStamps (signed : Except OpcaError Unit) :
    Moves KeepsStamps (issue signed) := by
  have htake : Moves KeepsStamps (incrementSerial .cert none) :=
    keepsStamps_elsewhere (fun _ => rfl) fun _ => rfl
  refine htake.bind fun serial => (give_keepsStamps _).bind fun _ => ?_
  exact Moves.outcome.bind fun _ => .pure

theorem issueBundle_keepsStamps {cert : CertAttribs} {title : String → String}
    {signing : Signing} {andThen : String → DbM Unit}
    (hthen : ∀ serial, Moves KeepsStamps (andThen serial)) :
    Moves KeepsStamps (issueBundle times now cert title signing andThen) := by
  refine Moves.outcome.bind fun _ => (issue_keepsStamps _).bind fun serial => ?_
  have hstore : Moves KeepsStamps (storeCertbundle true
      (formatDbItem times now cert (toString serial) (title (toString serial))) signing.stored
      (addCert (formatDbItem times now cert (toString serial) (title (toString serial))))) :=
    Moves.outcome.bind fun _ => (give_keepsStamps _).bind fun _ => addCert_keepsStamps rfl
  exact hstore.bind fun _ => (hthen _).bind fun _ => .pure

theorem certificateOf_keepsStamps (validOnly : Bool) :
    Moves KeepsStamps (certificateOf lookup validOnly) :=
  .of_reads (certificateOf_reads lookup validOnly)

theorem rekeyCertificateBundle_keepsStamps {cert : CertAttribs} {signing : Signing}
    {renewing : Renewing} :
    Moves KeepsStamps (rekeyCertificateBundle times lookup cert signing renewing) := by
  refine (certificateOf_keepsStamps false).bind fun old => ?_
  refine Moves.outcome.bind fun _ => Moves.outcome.bind fun _ => ?_
  exact issueBundle_keepsStamps fun _ => ignoreCert_keepsStamps _ _ _ _ _

theorem revokeCertificate_keepsStamps :
    Moves KeepsStamps (revokeCertificate times lookup now) := by
  refine .of_step ?_ ?_
  · intro db a t h
    rcases revokeCertificate_cases times lookup now db with ⟨_, herror⟩ | ⟨c, s, _, hok, hrevokes⟩
    · rw [herror] at h
      cases h
    · rw [hok] at h
      cases h
      exact keepsStamps_of_map hrevokes.rows fun c => ⟨processCert_serial _ _ _ _,
        processCert_stamps _ _⟩
  · intro db e t h
    rcases revokeCertificate_cases times lookup now db with ⟨_, herror⟩ | ⟨c, s, _, hok, hrevokes⟩
    · rw [herror] at h
      cases h
      exact Std.Refl.refl db
    · rw [hok] at h
      cases h

/-- What the database is left as, and the objects. -/
def Leaves (s t : Site) : Prop := KeepsStamps s.db t.db ∧ t.objects = s.objects

instance : Std.Refl Leaves := ⟨fun s => ⟨Std.Refl.refl s.db, rfl⟩⟩

instance : IsTrans Site Leaves :=
  ⟨fun _ _ _ hab hbc => ⟨IsTrans.trans _ _ _ hab.1 hbc.1, hbc.2.trans hab.2⟩⟩

theorem onDb_leaves {α : Type} {m : DbM α} (h : Moves KeepsStamps m) :
    Moves Leaves (onDb m) := by
  refine .of_step ?_ ?_
  · intro s a t hm
    unfold onDb at hm
    cases hdb : m s.db with
    | ok b db =>
      rw [hdb] at hm
      cases hm
      exact ⟨(h s.db).ok (Std.Refl.refl _) hdb, rfl⟩
    | error e db =>
      rw [hdb] at hm
      cases hm
  · intro s e t hm
    unfold onDb at hm
    cases hdb : m s.db with
    | ok b db =>
      rw [hdb] at hm
      cases hm
    | error e db =>
      rw [hdb] at hm
      cases hm
      exact ⟨(h s.db).error (Std.Refl.refl _) hdb, rfl⟩

/-! ## What is stamped -/

/-- A row is stamped, once its certificate is uploaded. -/
structure Stamps (s t : Site) (serial cn pem : String) : Prop where
  row : ∃ c ∈ s.db.rows, c.serial = serial ∧ c.cn = some cn
  rows : ∃ at_, t.db.rows = s.db.rows.map (stamped serial cn at_)
  objects : t.objects = Function.update s.objects (publishedCertKey cn) (some pem)

theorem of_onDb_ok {α : Type} {m : DbM α} {s t : Site} {a : α} (h : onDb m s = .ok a t) :
    m s.db = .ok a t.db ∧ t.objects = s.objects := by
  unfold onDb at h
  cases hdb : m s.db with
  | ok b db =>
    rw [hdb] at h
    cases h
    exact ⟨rfl, rfl⟩
  | error e db =>
    rw [hdb] at h
    cases h

theorem onDb_of_ok {α : Type} {m : DbM α} {s : Site} {a : α} {t : CaDatabase}
    (h : m s.db = .ok a t) : onDb m s = .ok a { s with db := t } := by
  unfold onDb
  rw [h]

theorem onDb_require {s : Site} {p : Prop} [Decidable p] {error : OpcaError} :
    Ensures (· = s) (onDb (require p error)) (fun _ t => t = s) (· = s) := by
  rintro _ rfl
  unfold onDb require outcome
  by_cases hp : p
  · rw [if_pos hp]
  · rw [if_neg hp]

/-- What an upload is: nothing, or a row stamped. -/
theorem uploadPublished_ensures {s : Site} {serial cn pem at_ : String}
    {uploaded : Except OpcaError Unit}
    (hrow : ∃ c ∈ s.db.rows, c.serial = serial ∧ c.cn = some cn) :
    Ensures (· = s) (Site.uploadPublished serial cn pem uploaded at_)
      (fun _ t => Stamps s t serial cn pem) (· = s) := by
  have hget : Ensures (· = s) (get : SiteM Site) (fun _ t => t = s) (· = s) :=
    .get fun _ hs => hs
  refine hget.bind fun _ => onDb_require.bind fun _ => ?_
  cases uploaded with
  | error e =>
    rintro _ rfl
    rfl
  | ok _ =>
    intro s' hs
    rw [hs]
    obtain ⟨c, hc, rfl, hcn⟩ := hrow
    obtain ⟨t, hmark, ht⟩ : ∃ t, markCertPublished c.serial cn at_ s.db = .ok () t ∧
        t.rows = s.db.rows.map (stamped c.serial cn at_) := markCertPublished_ok hc
    let objects := Function.update s.objects (publishedCertKey cn) (some pem)
    have hupload : uploadContent (publishedCertKey cn) pem (.ok ()) s =
        .ok () { s with objects } := rfl
    have hstamp : onDb (markCertPublished c.serial cn at_) { s with objects } =
        .ok () ⟨t, objects⟩ := onDb_of_ok hmark
    rw [bind_of_ok hupload, hstamp]
    exact ⟨⟨c, hc, rfl, hcn⟩, ⟨at_, ht⟩, rfl⟩

theorem publishable_ensures :
    Ensures (· = db) (publishable lookup)
      (fun c t => (db.candidate lookup = some c ∧ c.cn.getD "" ≠ "") ∧ t = db) (· = db) := by
  have hcandidate : Ensures (· = db) (publishable.candidate lookup)
      (fun found t => found = db.candidate lookup ∧ t = db) (· = db) := by
    intro s hs
    rw [hs, candidate_eq]
    exact ⟨rfl, rfl⟩
  refine hcandidate.bind fun found => .of_and fun hfound => ?_
  subst hfound
  cases hfound : db.candidate lookup with
  | none => exact .throw fun _ hs => hs
  | some c =>
    refine (require_ensures fun _ hs => hs).bind fun _ => .of_and fun _ => ?_
    refine (require_ensures fun _ hs => hs).bind fun _ => .of_and fun hcn => ?_
    refine (require_ensures fun _ hs => hs).bind fun _ => .of_and fun _ => ?_
    exact .pure fun _ hs => ⟨⟨rfl, hcn⟩, hs⟩

theorem onDb_ensures {α : Type} {m : DbM α} {s : Site} {P : α → Prop}
    (h : Ensures (· = s.db) m (fun a t => P a ∧ t = s.db) (· = s.db)) :
    Ensures (· = s) (onDb m) (fun a t => P a ∧ t = s) (· = s) := by
  intro s' hs
  rw [hs]
  unfold onDb
  cases hm : m s.db with
  | ok a t =>
    obtain ⟨ha, ht⟩ := h.ok rfl hm
    rw [ht]
    exact ⟨ha, rfl⟩
  | error e t => rw [h.error rfl hm]

theorem mem_of_candidate {c : CertRecord} (h : db.candidate lookup = some c) : c ∈ db.rows := by
  cases lookup with
  | cn value => exact (mem_of_latest h).1
  | serial value => exact (mem_of_found h).1
  | title value => exact (mem_of_found h).1

/-- What is published is what was retrieved for the row that a lookup finds. -/
theorem Site.publishCertificate_ensures {s : Site}
    {bundle : Except OpcaError (Bool × String)} {uploaded : Except OpcaError Unit}
    {at_ : String} :
    Ensures (· = s) (Site.publishCertificate lookup bundle uploaded at_)
      (fun _ t => ∃ c retrieved, s.db.candidate lookup = some c ∧ bundle = .ok retrieved ∧
        Stamps s t c.serial (c.cn.getD "") retrieved.2)
      (· = s) := by
  refine (onDb_ensures publishable_ensures).bind fun c => .of_and fun ⟨hcandidate, hcn⟩ => ?_
  have hretrieved : Ensures (· = s) (outcome bundle)
      (fun retrieved t => bundle = .ok retrieved ∧ t = s) (· = s) :=
    .outcome (fun _ _ hok hs => ⟨hok, hs⟩) fun _ hs => hs
  refine hretrieved.bind fun retrieved => .of_and fun hbundle => ?_
  refine onDb_require.bind fun _ => ?_
  have hrow : ∃ c' ∈ s.db.rows, c'.serial = c.serial ∧ c'.cn = some (c.cn.getD "") := by
    refine ⟨c, mem_of_candidate hcandidate, rfl, ?_⟩
    cases hname : c.cn with
    | none =>
      rw [hname] at hcn
      exact absurd rfl hcn
    | some name => rfl
  refine (uploadPublished_ensures hrow).bind fun _ => .pure fun t hstamps => ?_
  exact ⟨c, retrieved, hcandidate, hbundle, hstamps⟩

/-- A fresh row of a CN that is there. -/
def HasNew (before after : CaDatabase) (cn serial : String) : Prop :=
  serial ∉ before.rows.map CertRecord.serial ∧
    ∃ c ∈ after.rows, c.serial = serial ∧ c.cn = some cn

/-- The row of the bundle that is issued is new. -/
theorem issueBundle_new {cert : CertAttribs} {title : String → String} {signing : Signing}
    {old user at_ : String} {reason : IgnoreReason} {issued : Issued} {t : CaDatabase}
    (h : issueBundle times now cert title signing (fun newSerial =>
      autoIgnorePredecessor old newSerial reason user at_) db = .ok issued t) :
    ∃ serial, issued.serials = [serial] ∧ HasNew db t (cert.cn.getD "") (toString serial) := by
  obtain ⟨_, _, hready, h⟩ := of_bind_ok h
  obtain ⟨_, rfl⟩ := of_outcome_ok hready
  obtain ⟨serial, s, hissue, h⟩ := of_bind_ok h
  obtain ⟨_, s', hstore, h⟩ := of_bind_ok h
  obtain ⟨_, s'', hignore, h⟩ := of_bind_ok h
  cases h
  obtain ⟨hfree, hrows⟩ := of_storeCertbundle_ok hstore
  rw [issue_rows hissue] at hfree hrows
  refine ⟨serial, rfl, hfree, ?_⟩
  let record := formatDbItem times now cert (toString serial) (title (toString serial))
  obtain ⟨hserial, hcn, _⟩ := ignored_serial old user at_ reason
    (some s!"replaced by {toString serial}") record
  refine ⟨_, ?_, hserial, hcn⟩
  rw [of_ignoreCert_ok hignore, hrows]
  exact List.mem_map_of_mem (List.mem_append_right _ List.mem_cons_self)

theorem replace_ensures {s : Site} {cert : CertAttribs} {title : String → String}
    {signing : Signing} {old user at_ : String} {reason : IgnoreReason} :
    Ensures (· = s)
      (onDb (issueBundle times now cert title signing fun newSerial =>
        autoIgnorePredecessor old newSerial reason user at_))
      (fun issued t => (∃ serial, issued.serials = [serial] ∧
        HasNew s.db t.db (cert.cn.getD "") (toString serial)) ∧ Leaves s t)
      (Leaves s) := by
  have hmoves : Moves Leaves (onDb (issueBundle times now cert title signing fun newSerial =>
      autoIgnorePredecessor old newSerial reason user at_)) :=
    onDb_leaves (issueBundle_keepsStamps fun _ => ignoreCert_keepsStamps _ _ _ _ _)
  intro s' hs
  rw [hs]
  cases hissue : onDb (issueBundle times now cert title signing fun newSerial =>
      autoIgnorePredecessor old newSerial reason user at_) s with
  | ok issued t =>
    exact ⟨issueBundle_new (of_onDb_ok hissue).1, (hmoves s).ok (Std.Refl.refl s) hissue⟩
  | error e t => exact (hmoves s).error (Std.Refl.refl s) hissue

/-- What is done next with a bundle's serial, an upload that fails being only logged. -/
theorem republish_ensures {s : Site} {old : CertRecord} {cn pem : String}
    {renewing : Renewing} {serial : String}
    (hrow : ∃ c ∈ s.db.rows, c.serial = serial ∧ c.cn = some cn) :
    Ensures (· = s) (Site.republish times old cn pem renewing serial)
      (fun _ t => t = s ∨ (old.publishedAt.isSome = true ∧ Stamps s t serial cn pem))
      (fun _ => False) := by
  unfold Site.republish
  split
  next hpublished =>
    have hupload : Ensures (· = s) (Site.uploadPublished serial cn pem renewing.uploaded
        (times.format renewing.now)) (fun _ t => Stamps s t serial cn pem) (· = s) :=
      uploadPublished_ensures hrow
    intro s' hs
    rw [hs]
    unfold Site.logged
    cases hrun : Site.uploadPublished serial cn pem renewing.uploaded
        (times.format renewing.now) s with
    | ok _ t => exact .inr ⟨hpublished, hupload.ok rfl hrun⟩
    | error e t => exact .inl (hupload.error rfl hrun)
  next => exact .pure fun _ hs => .inl hs

/-- What a renewal is to the stamps: nothing, or its certificate is stamped. -/
def Renewed (lookup : CertLookup) (cn pem : String) (s t : Site) : Prop :=
  Leaves s t ∨ ∃ old s' serial, s.db.found lookup true = some old ∧
    old.publishedAt.isSome = true ∧ Leaves s s' ∧
    serial ∉ s.db.rows.map CertRecord.serial ∧ Stamps s' t serial cn pem

theorem Site.renewCertificateBundle_ensures {s : Site} {cert : CertAttribs} {pem : String}
    {signing : Signing} {renewing : Renewing} :
    Ensures (· = s) (Site.renewCertificateBundle times lookup cert pem signing renewing)
      (fun _ => Renewed lookup (cert.cn.getD "") pem s) (Leaves s) := by
  have hsame : ∀ t, t = s → Leaves s t := by
    rintro _ rfl
    exact Std.Refl.refl _
  have hfind : Ensures (· = s) (onDb (certificateOf lookup true))
      (fun old t => s.db.found lookup true = some old ∧ t = s) (· = s) := by
    refine onDb_ensures fun db hdb => ?_
    rw [hdb]
    cases hfound : s.db.found lookup true with
    | none => rw [certificateOf_missing hfound]
    | some old =>
      rw [certificateOf_found hfound]
      exact ⟨rfl, rfl⟩
  refine (hfind.failing hsame).bind fun old =>
    .of_and fun hfound => ?_
  refine (onDb_require.failing hsame).bind fun _ => ?_
  refine (onDb_require.failing hsame).bind fun _ => ?_
  have hretrieved : Ensures (· = s) (outcome renewing.retrieved : SiteM Unit)
      (fun _ t => t = s) (Leaves s) :=
    .outcome (fun _ _ _ hs => hs) hsame
  refine hretrieved.bind fun _ => replace_ensures.bind fun issued => ?_
  rintro t ⟨⟨serial, hserials, hfree, hrow⟩, hleaves⟩
  rw [hserials]
  have hpublish : Ensures (· = t)
      (republish times old (cert.cn.getD "") pem renewing (toString serial))
      (fun _ => Renewed lookup (cert.cn.getD "") pem s) (Leaves s) := by
    refine (republish_ensures hrow).imp (fun _ ht => ht) ?_ fun _ hfalse => hfalse.elim
    rintro _ t' (rfl | ⟨hpublished, hstamps⟩)
    · exact .inl hleaves
    · exact .inr ⟨old, t, _, hfound, hpublished, hleaves, hfree, hstamps⟩
  have heach : Ensures (· = t)
      ([serial].forM fun newSerial =>
        republish times old (cert.cn.getD "") pem renewing (toString newSerial))
      (fun _ => Renewed lookup (cert.cn.getD "") pem s) (Leaves s) :=
    hpublish.bind fun _ => .pure fun _ ht => ht
  have hreturn : Ensures (· = t)
      (([serial].forM fun newSerial =>
        republish times old (cert.cn.getD "") pem renewing (toString newSerial)) >>= fun _ =>
          pure issued)
      (fun _ => Renewed lookup (cert.cn.getD "") pem s) (Leaves s) :=
    heach.bind fun _ => .pure fun _ ht => ht
  exact hreturn t rfl

/-! ## Over a run -/

variable {s : Publication}

/-- Where nothing is stamped. -/
theorem PublishedAsStamped.leaves (h : PublishedAsStamped s) {t : Site} {issued : Option String}
    (hleaves : Leaves s.site t) : PublishedAsStamped ⟨t, s.certificates issued⟩ := by
  obtain ⟨hstamps, hobjects⟩ := hleaves
  constructor
  · intro c hc c' hc' hstamped hstamped' hcn
    obtain ⟨b, hb, hserial, hname, hbefore⟩ := hstamps c hc hstamped
    obtain ⟨b', hb', hserial', hname', hbefore'⟩ := hstamps c' hc' hstamped'
    have hsame := h.one b hb b' hb' hbefore hbefore' (hname.trans (hcn.trans hname'.symm))
    refine t.db.row_unique hc hc' ?_
    rw [← hserial, ← hserial', hsame]
  · intro c hc hstamped
    obtain ⟨b, hb, hserial, hname, hbefore⟩ := hstamps c hc hstamped
    show t.objects _ = some (s.certificates issued c.serial)
    have hknown : c.serial ∈ s.site.db.rows.map CertRecord.serial :=
      List.mem_map.mpr ⟨b, hb, hserial⟩
    rw [hobjects, ← hname, h.object b hb hbefore]
    unfold Publication.certificates
    rw [if_pos hknown, hserial]

/-- A row that is stamped after, when one is. -/
theorem stamped_cases {serial cn at_ : String} {c : CertRecord}
    (h : (stamped serial cn at_ c).publishedAt.isSome = true) :
    (stamped serial cn at_ c).serial = c.serial ∧ (stamped serial cn at_ c).cn = c.cn ∧
      (c.serial = serial ∨ (c.cn ≠ some cn ∧ c.publishedAt.isSome = true)) := by
  unfold stamped at h ⊢
  split at h
  next hmeets =>
    rw [if_pos hmeets]
    refine ⟨rfl, rfl, .inl ?_⟩
    by_contra hne
    simp [hne] at h
  next hmeets =>
    rw [if_neg hmeets]
    refine ⟨rfl, rfl, .inr ⟨fun hcn => hmeets (.inr ⟨hcn, h⟩), h⟩⟩

/-- Where a row is stamped with its certificate, under a key that no other CN has. -/
theorem PublishedAsStamped.stamps (h : PublishedAsStamped s) {s' t : Site}
    {issued : Option String} {serial cn pem : String} (hleaves : Leaves s.site s')
    (hstamps : Stamps s' t serial cn pem) (hfree : s.site.db.KeyFree cn)
    (hpem : s.certificates issued serial = pem) :
    PublishedAsStamped ⟨t, s.certificates issued⟩ := by
  have hbefore : PublishedAsStamped ⟨s', s.certificates issued⟩ := h.leaves hleaves
  obtain ⟨⟨row, hrow, hserial, hcn⟩, ⟨at_, hrows⟩, hobjects⟩ := hstamps
  -- a stamped row is the one of `serial`, or was stamped under another CN
  have hcases : ∀ c ∈ t.db.rows, c.publishedAt.isSome = true →
      (c.serial = serial ∧ c.cn = some cn) ∨
      ∃ b ∈ s'.db.rows, b.serial = c.serial ∧ b.cn = c.cn ∧ b.cn ≠ some cn ∧
        b.publishedAt.isSome = true := by
    intro c hc hstamped
    rw [hrows] at hc
    obtain ⟨b, hb, rfl⟩ := List.mem_map.mp hc
    obtain ⟨hsame, hname, hb' | ⟨hother, hb'⟩⟩ := stamped_cases hstamped
    · rw [s'.db.row_unique hb hrow (hb'.trans hserial.symm)] at hsame hname ⊢
      exact .inl ⟨hsame.trans hserial, hname.trans hcn⟩
    · exact .inr ⟨b, hb, hsame.symm, hname.symm, hother, hb'⟩
  constructor
  · intro c hc c' hc' hstamped hstamped' hname
    refine t.db.row_unique hc hc' ?_
    rcases hcases c hc hstamped with ⟨hc, hccn⟩ | ⟨b, hb, hbserial, hbcn, hother, hbefore'⟩
    · rcases hcases c' hc' hstamped' with ⟨hc', _⟩ | ⟨b', _, _, hbcn', hother', _⟩
      · rw [hc, hc']
      · exact absurd (hbcn'.trans (hname.symm.trans hccn)) hother'
    · rcases hcases c' hc' hstamped' with ⟨_, hccn'⟩ | ⟨b', hb', hbserial', hbcn', _, hbefore''⟩
      · exact absurd (hbcn.trans (hname.trans hccn')) hother
      · rw [← hbserial, ← hbserial', hbefore.one b hb b' hb' hbefore' hbefore''
          (hbcn.trans (hname.trans hbcn'.symm))]
  · intro c hc hstamped
    show t.objects _ = some (s.certificates issued c.serial)
    rw [hobjects]
    rcases hcases c hc hstamped with ⟨hc, hccn⟩ | ⟨b, hb, hbserial, hbcn, hother, hbefore'⟩
    · rw [hccn, hc, Option.getD_some, Function.update_self, hpem]
    · obtain ⟨b', hb', hserial', hcn', hstamped'⟩ := hleaves.1 b hb hbefore'
      have hkey := hfree b' hb' hstamped' (fun heq => hother (hcn'.symm.trans heq))
      rw [hcn', hbcn] at hkey
      rw [Function.update_of_ne hkey, ← hbcn, ← hbserial]
      exact hbefore.object b hb hbefore'

theorem PublicationStep.after_of_ensures {l : PublicationStep} {site : Site}
    {P failed : Site → Prop} (h : Ensures (· = site) (l.run times) (fun _ => P) failed)
    (hfailed : ∀ t, failed t → P t) : P (l.after times site) := by
  unfold PublicationStep.after
  cases hrun : l.run times site with
  | ok issued t => exact h.ok rfl hrun
  | error e t => exact hfailed t (h.error rfl hrun)

theorem PublicationStep.leaves {l : PublicationStep} {site : Site} {m : DbM Issued}
    (hl : l.run times = onDb m) (hm : Moves KeepsStamps m) :
    Leaves site (l.after times site) := by
  have hmoves : Moves Leaves (l.run times) := by
    rw [hl]
    exact onDb_leaves hm
  have hsite : Ensures (· = site) (l.run times) (fun _ => Leaves site) (Leaves site) := by
    intro s hs
    rw [hs]
    exact hmoves site site (Std.Refl.refl site)
  exact l.after_of_ensures hsite fun _ ht => ht

theorem PublishedAsStamped.step {l : PublicationStep} {t : Publication}
    (h : PublishedAsStamped s) (hok : KeysApart s l)
    (hstep : (publication times).next s l = some t) : PublishedAsStamped t := by
  cases hstep
  cases l with
  | generate itemTitle cert pem signing now =>
    exact h.leaves (PublicationStep.leaves rfl (issueBundle_keepsStamps fun _ => .pure))
  | rekey lookup cert pem signing renewing =>
    exact h.leaves (PublicationStep.leaves rfl rekeyCertificateBundle_keepsStamps)
  | revoke lookup now =>
    exact h.leaves (PublicationStep.leaves rfl revokeCertificate_keepsStamps)
  | renew lookup cert pem signing renewing =>
    have hrenewed : Renewed lookup (cert.cn.getD "") pem s.site
        ((PublicationStep.renew lookup cert pem signing renewing).after times s.site) :=
      PublicationStep.after_of_ensures Site.renewCertificateBundle_ensures fun _ => .inl
    rcases hrenewed with hleaves | ⟨old, s', serial, hfound, hpublished, hleaves, hnew, hstamps⟩
    · exact h.leaves hleaves
    · refine h.stamps hleaves hstamps (hok old hfound hpublished) ?_
      unfold Publication.certificates
      rw [if_neg hnew]
      rfl
  | publish lookup bundle uploaded now =>
    have hpublished : (PublicationStep.publish lookup bundle uploaded now).after times s.site =
        s.site ∨ ∃ c retrieved, s.site.db.candidate lookup = some c ∧ bundle = .ok retrieved ∧
          Stamps s.site ((PublicationStep.publish lookup bundle uploaded now).after times s.site)
            c.serial (c.cn.getD "") retrieved.2 := by
      refine PublicationStep.after_of_ensures (l := .publish lookup bundle uploaded now)
        (P := fun t => t = s.site ∨ ∃ c retrieved, s.site.db.candidate lookup = some c ∧
          bundle = .ok retrieved ∧ Stamps s.site t c.serial (c.cn.getD "") retrieved.2)
        (Site.publishCertificate_ensures.imp (fun _ hs => hs) (fun _ _ ht => .inr ht)
          fun _ ht => ht) fun _ ht => .inl ht
    rcases hpublished with hsame | ⟨c, retrieved, hcandidate, hbundle, hstamps⟩
    · refine h.leaves ?_
      rw [hsame]
      exact Std.Refl.refl _
    · obtain ⟨hfree, hpem⟩ := hok c hcandidate
      refine h.stamps (Std.Refl.refl _) hstamps hfree ?_
      unfold Publication.certificates
      rw [if_pos (List.mem_map_of_mem (mem_of_candidate hcandidate)),
        hpem retrieved (by rw [hbundle]; rfl)]

/-- In every run whose publications keep their keys apart, what is stamped is what is in
the public store. -/
theorem publishedAsStamped (times : OpensslTimes) {s : Publication}
    (hs : ((publication times).system.restrict KeysApart).Reachable s) :
    PublishedAsStamped s := by
  refine System.Invariant.reachable ⟨?_, ?_⟩ hs
  · intro s hinit
    constructor
    · intro c hc c' hc' hstamped
      rw [hinit c hc] at hstamped
      cases hstamped
    · intro c hc hstamped
      rw [hinit c hc] at hstamped
      cases hstamped
  · rintro s t l h ⟨hok, hstep⟩
    exact h.step hok hstep

/-! ## Publishing under two names -/

/-- A CA with a public store, and no certificate yet. -/
def samplePublication : Publication where
  site := {
    db := .fromTables (newTables {
      text := fun column => if column = .caPublicStore then some "s3://public" else none }) []
    objects := fun _ => none }
  certificate _ := ""

/-- A certificate is issued for a CN, and published. -/
def published (cn pem : String) : List PublicationStep :=
  [.generate cn (sampleCert cn "webserver") pem ⟨.ok (), .ok (), .ok ()⟩ sampleStart,
    .publish (.cn cn) (.ok (false, pem)) (.ok ()) sampleStart]

/-- A published certificate is renewed. -/
theorem publishedAsStamped_renewed :
    ∃ s, ((publication sampleTimes).system.restrict KeysApart).Reachable s ∧
      (∃ c ∈ s.site.db.rows, c.serial = "2" ∧ c.publishedAt.isSome = true) ∧
      PublishedAsStamped s := by
  obtain ⟨s, hs, hview⟩ := Machine.exists_reachable_of_exec_guard
    (fun s l (h : decide (KeysApart s l) = true) => of_decide_eq_true h)
    (show (publication sampleTimes).init samplePublication from fun _ hc => by cases hc)
    (published "www" "first" ++
      [.renew (.cn "www") (sampleCert "www" "webserver") "second" ⟨.ok (), .ok (), .ok ()⟩
        ⟨.ok (), .ok (), "operator", sampleStart⟩])
    (fun s => s.site.db.rows.any fun c => c.serial = "2" && c.publishedAt.isSome)
    (by decide +kernel)
  obtain ⟨c, hc, hview⟩ := List.any_eq_true.mp hview
  rw [Bool.and_eq_true, decide_eq_true_eq] at hview
  exact ⟨s, hs, ⟨c, hc, hview⟩, publishedAsStamped sampleTimes hs⟩

/-- The certificate of the first name is stamped, and its object is that of the second. -/
theorem stamped_overwritten :
    ∃ s, (publication sampleTimes).system.Reachable s ∧ ¬PublishedAsStamped s := by
  obtain ⟨s, hs, hview⟩ := Machine.exists_reachable_of_exec
    (show (publication sampleTimes).init samplePublication from fun _ hc => by cases hc)
    (published "build agent" "first" ++ published "build_agent" "second")
    (fun s => s.site.db.rows.any fun c => c.publishedAt.isSome &&
      s.site.objects (publishedCertKey (c.cn.getD "")) ≠ some (s.certificate c.serial))
    (by decide +kernel)
  obtain ⟨c, hc, hview⟩ := List.any_eq_true.mp hview
  rw [Bool.and_eq_true, decide_eq_true_eq] at hview
  exact ⟨s, hs, fun h => hview.2 (h.object c hc hview.1)⟩

end Opca.Core

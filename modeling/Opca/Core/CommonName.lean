/-
  Core/CommonName.lean --- what is renewed, rekeyed, revoked or published by a common
  name (`query_cert`, `services/ca.rs`, `services/ca/publish.rs`).

  A renewal leaves two certificates of one CN, both stored as 'Valid', of which the
  current one is the live one with the highest serial.  A lookup takes the first row
  that was added; publishing takes the latest, of serials that are a `u128`.
-/
import Opca.Core.Lookup

set_option autoImplicit false

namespace Opca.Core

open Opca.Foundation Acme

/-! ## The current certificate -/

/-- A serial, of any size, as a number. -/
def CertRecord.number (c : CertRecord) : Int :=
  match c.serial.toList with
  | '-' :: digits => -(Nat.ofDigitChars 10 digits 0 : Int)
  | digits => (Nat.ofDigitChars 10 digits 0 : Int)

/-- Unexpired, unrevoked and not deleted. -/
def CertRecord.live (times : OpensslTimes) (now : Time) (c : CertRecord) : Bool :=
  !c.expired times now && !c.isRevoked && c.deletedAt.isNone

/-- The live certificate of a CN with the highest serial. -/
structure CaDatabase.Current (times : OpensslTimes) (db : CaDatabase) (cn : String)
    (now : Time) (c : CertRecord) : Prop where
  mem : c ∈ db.rows
  named : c.cn = some cn
  live : c.live times now = true
  highest : ∀ other ∈ db.rows, other.cn = some cn → other.live times now = true →
    other.number ≤ c.number

/-! ## Acting on a certificate -/

inductive DeedKind where
  | renew | rekey | revoke | publish
  deriving DecidableEq, Repr

/-- What is done to the certificate that a lookup finds. -/
inductive Deed where
  | renew (cert : CertAttribs) (signing : Signing) (renewing : Renewing)
  | rekey (cert : CertAttribs) (signing : Signing) (renewing : Renewing)
  | revoke (now : Time)
  | publish (retrieved : Except OpcaError Bool) (uploaded : Except OpcaError Unit)
      (now : Time)

namespace Deed

def kind : Deed → DeedKind
  | .renew _ _ _ => .renew
  | .rekey _ _ _ => .rekey
  | .revoke _ => .revoke
  | .publish _ _ _ => .publish

def time : Deed → Time
  | .renew _ _ renewing | .rekey _ _ renewing => renewing.now
  | .revoke now | .publish _ _ now => now

def on (lookup : CertLookup) : Deed → Operation
  | .renew cert signing renewing => .renew lookup cert signing renewing
  | .rekey cert signing renewing => .rekey lookup cert signing renewing
  | .revoke now => .revoke lookup now
  | .publish retrieved uploaded now => .publish lookup retrieved uploaded now

end Deed

/-- A bundle that is read to be published has expired if its row says so. -/
def Deed.Fits (times : OpensslTimes) (db : CaDatabase) (cn : String) : Deed → Prop
  | .publish retrieved _ now => ∀ c ∈ db.latest cn, ∀ expired,
    retrieved = .ok expired → expired = c.expired times now
  | _ => True

/-- By a CN, a deed is refused or is what it is by the serial of the current
certificate. -/
def ActsOnCurrent (times : OpensslTimes) (db : CaDatabase) (cn : String) (now : Time)
    (kind : DeedKind) : Prop :=
  ∀ deed : Deed, deed.kind = kind → deed.time = now → deed.Fits times db cn →
    returned ((deed.on (.cn cn)).run times db) = false ∨
    ∃ c, db.Current times cn now c ∧
      (deed.on (.cn cn)).run times db = (deed.on (.serial c.serial)).run times db

/-- The row that a CN finds is the current one, or nothing can come of it. -/
def FindsCurrent (times : OpensslTimes) (db : CaDatabase) (cn : String) (now : Time) :
    DeedKind → Prop
  | .renew => db.NextTaken ∨ ∀ c ∈ db.revocable (.cn cn),
    c.title.isSome → db.Current times cn now c
  | .rekey => db.NextTaken ∨ ∀ c ∈ db.rows.find? (·.cn = some cn),
    c.title.isSome → db.Current times cn now c
  | .revoke => ∀ c ∈ db.revocable (.cn cn), db.Current times cn now c
  | .publish => (db.tables.config.read.text .caPublicStore).isNone ∨ ∀ c ∈ db.latest cn,
    c.Publishable times now → db.Current times cn now c

variable {times : OpensslTimes} {db : CaDatabase} {cn : String} {now : Time}
  {c r : CertRecord} {lookup : CertLookup}

/-- Two certificates are not ignored for one another. -/
theorem eq_of_ignored {rows : List CertRecord} {user at_ : String} {reason : IgnoreReason}
    {note : Option String} (hr : r ∈ rows) (huser : r.ignoredBy ≠ some user)
    (h : rows.map (ignored r.serial user reason note at_) =
      rows.map (ignored c.serial user reason note at_)) : r.serial = c.serial := by
  have hrow := List.map_inj_left.mp h r hr
  by_contra hne
  simp only [ignored, if_true, if_neg hne] at hrow
  exact huser (congrArg CertRecord.ignoredBy hrow).symm

theorem exists_user (by_ : Option String) : ∃ user, by_ ≠ some user := by
  refine ⟨by_.getD "" ++ "x", ?_⟩
  cases by_ with
  | none => simp
  | some user =>
    intro h
    have hlength := congrArg (String.length ∘ (Option.getD · "")) h
    simp at hlength

/-! ## Renewing and rekeying -/

/-- An upload that fails is only logged. -/
theorem logged_upload (serial cn at_ : String) (e : OpcaError) :
    logged (uploadPublished serial cn (.error e) at_) db = .ok () db := by
  have hfails : ∃ e', uploadPublished serial cn (.error e) at_ db = .error e' db := by
    by_cases hstore : (db.tables.config.read.text .caPublicStore).isSome
    · exact ⟨e, (bind_of_ok rfl).trans ((bind_of_ok (require_of hstore)).trans (bind_of_error rfl))⟩
    · exact ⟨_, (bind_of_ok rfl).trans (bind_of_error (require_of_not hstore))⟩
  obtain ⟨e', hupload⟩ := hfails
  unfold logged
  rw [hupload]

/-- The rows, of which the one that `serial` has is replaced by a new one. -/
def CaDatabase.replaced (db : CaDatabase) (times : OpensslTimes) (now : Time)
    (cert : CertAttribs) (serial user : String) (reason : IgnoreReason) : List CertRecord :=
  (db.rows ++ [db.nextRow times now cert (bundleTitle (cert.cn.getD ""))]).map
    (ignored serial user reason
      (some s!"replaced by {toString (db.tables.config.counter .cert)}") (times.format now))

/-- A bundle that replaces a row is issued, and the row ignored. -/
theorem replaced_ok {cert : CertAttribs} {user : String} {reason : IgnoreReason}
    {andThen : String → DbM Unit} (hr : r ∈ db.rows) (h : ¬db.NextTaken)
    (hthen : ∀ serial s t, autoIgnorePredecessor r.serial serial reason user
      (times.format now) s = .ok () t → andThen serial s = .ok () t) :
    ∃ t, issueBundle times now cert (bundleTitle (cert.cn.getD ""))
        ⟨.ok (), .ok (), .ok ()⟩ andThen db =
          .ok ⟨[db.tables.config.counter .cert], []⟩ t ∧
      t.rows = db.replaced times now cert r.serial user reason := by
  obtain ⟨s, hs, hissue⟩ := issueBundle_ok h
  have hmem : ∃ c ∈ s.rows, c.serial = r.serial := by
    refine ⟨r, ?_, rfl⟩
    rw [hs]
    exact List.mem_append_left _ hr
  obtain ⟨t, hignore, ht⟩ := ignoreCert_ok hmem
  refine ⟨t, hissue.trans (bind_of_ok (hthen _ s t hignore)), ?_⟩
  rw [ht, hs]
  rfl

/-- A renewal of the row that a lookup finds, when only the upload fails. -/
theorem renew_ok {cert : CertAttribs} {user : String} {e : OpcaError}
    (hfound : db.found lookup true = some r) (htitle : r.title.isSome) (h : ¬db.NextTaken) :
    ∃ t, renewCertificateBundle times lookup cert ⟨.ok (), .ok (), .ok ()⟩
        ⟨.ok (), .error e, user, now⟩ db =
          .ok ⟨[db.tables.config.counter .cert], []⟩ t ∧
      t.rows = db.replaced times now cert r.serial user .renewed := by
  obtain ⟨hmem, _, hvalid⟩ := mem_of_found hfound
  have hstatus : r.status ≠ some "Revoked" := by
    rw [hvalid rfl]
    simp
  obtain ⟨t, hissue, ht⟩ : ∃ t, issueBundle times now cert (bundleTitle (cert.cn.getD ""))
      ⟨.ok (), .ok (), .ok ()⟩ (fun newSerial => do
        autoIgnorePredecessor r.serial newSerial .renewed user (times.format now)
        if r.publishedAt.isSome then
          logged (uploadPublished newSerial (cert.cn.getD "") (.error e) (times.format now))) db =
        .ok ⟨[db.tables.config.counter .cert], []⟩ t ∧
      t.rows = db.replaced times now cert r.serial user .renewed := by
    refine replaced_ok hmem h fun serial s t hignore => (bind_of_ok hignore).trans ?_
    split
    · exact logged_upload _ _ _ e
    · rfl
  refine ⟨t, (bind_of_ok (certificateOf_found hfound)).trans ?_, ht⟩
  refine (bind_of_ok (require_of htitle)).trans ?_
  exact (bind_of_ok (require_of hstatus)).trans ((bind_of_ok rfl).trans hissue)

/-- A rekey of the row that a lookup finds, when nothing fails outside. -/
theorem rekey_ok {cert : CertAttribs} {user : String} {e : OpcaError}
    (hfound : db.found lookup false = some r) (htitle : r.title.isSome) (h : ¬db.NextTaken) :
    ∃ t, rekeyCertificateBundle times lookup cert ⟨.ok (), .ok (), .ok ()⟩
        ⟨.ok (), .error e, user, now⟩ db =
          .ok ⟨[db.tables.config.counter .cert], []⟩ t ∧
      t.rows = db.replaced times now cert r.serial user .rekeyed := by
  obtain ⟨hmem, _⟩ := mem_of_found hfound
  obtain ⟨t, hissue, ht⟩ : ∃ t, issueBundle times now cert (bundleTitle (cert.cn.getD ""))
      ⟨.ok (), .ok (), .ok ()⟩ (fun newSerial => autoIgnorePredecessor r.serial newSerial
        .rekeyed user (times.format now)) db = .ok ⟨[db.tables.config.counter .cert], []⟩ t ∧
      t.rows = db.replaced times now cert r.serial user .rekeyed :=
    replaced_ok hmem h fun _ _ _ hignore => hignore
  refine ⟨t, (bind_of_ok (certificateOf_found hfound)).trans ?_, ht⟩
  exact (bind_of_ok (require_of htitle)).trans ((bind_of_ok rfl).trans hissue)

/-- What is renewed is found, with a title, and its serial is not taken. -/
theorem renew_cases {cert : CertAttribs} {signing : Signing} {renewing : Renewing}
    (h : returned (renewCertificateBundle times lookup cert signing renewing db) = true) :
    ¬db.NextTaken ∧ ∃ r, db.found lookup true = some r ∧ r.title.isSome = true := by
  obtain ⟨r, t, hcert, h⟩ := exists_of_returned_bind h
  obtain ⟨hfound, rfl⟩ := of_certificateOf_ok hcert
  obtain ⟨_, _, hrequire, h⟩ := exists_of_returned_bind h
  obtain ⟨htitle, rfl⟩ := of_require_ok hrequire
  obtain ⟨_, _, hstatus, h⟩ := exists_of_returned_bind h
  obtain ⟨_, rfl⟩ := of_require_ok hstatus
  obtain ⟨_, _, hretrieved, h⟩ := exists_of_returned_bind h
  obtain ⟨_, rfl⟩ := of_outcome_ok hretrieved
  exact ⟨not_taken_of_issued h, r, hfound, htitle⟩

/-- So is what is rekeyed. -/
theorem rekey_cases {cert : CertAttribs} {signing : Signing} {renewing : Renewing}
    (h : returned (rekeyCertificateBundle times lookup cert signing renewing db) = true) :
    ¬db.NextTaken ∧ ∃ r, db.found lookup false = some r ∧ r.title.isSome = true := by
  obtain ⟨r, t, hcert, h⟩ := exists_of_returned_bind h
  obtain ⟨hfound, rfl⟩ := of_certificateOf_ok hcert
  obtain ⟨_, _, hrequire, h⟩ := exists_of_returned_bind h
  obtain ⟨htitle, rfl⟩ := of_require_ok hrequire
  obtain ⟨_, _, hretrieved, h⟩ := exists_of_returned_bind h
  obtain ⟨_, rfl⟩ := of_outcome_ok hretrieved
  exact ⟨not_taken_of_issued h, r, hfound, htitle⟩

/-- Two certificates are not replaced for one another. -/
theorem eq_of_replaced {cert : CertAttribs} {user : String} {reason : IgnoreReason}
    (hr : r ∈ db.rows) (hc : c ∈ db.rows) (huser : r.ignoredBy ≠ some user)
    (h : db.replaced times now cert r.serial user reason =
      db.replaced times now cert c.serial user reason) : r = c :=
  db.row_unique hr hc (eq_of_ignored (List.mem_append_left _ hr) huser h)

/-- What a deed is by the CN, if it is not refused. -/
theorem ActsOnCurrent.of_returned {kind : DeedKind} (h : ActsOnCurrent times db cn now kind)
    (deed : Deed) (hkind : deed.kind = kind) (htime : deed.time = now)
    (hfits : deed.Fits times db cn) (m : CertLookup → DbM Issued)
    (hrun : ∀ lookup, (deed.on lookup).run times = some <$> m lookup)
    (hreturned : returned (m (.cn cn) db) = true) :
    ∃ c, db.Current times cn now c ∧ m (.cn cn) db = m (.serial c.serial) db := by
  rcases h deed hkind htime hfits with hrefused | ⟨c, hcurrent, hsame⟩
  · rw [hrun, returned_map, hreturned] at hrefused
    cases hrefused
  · rw [hrun, hrun] at hsame
    exact ⟨c, hcurrent, of_map_eq (fun _ _ heq => Option.some.inj heq) hsame⟩

/-- A deed that is not refused goes to the current certificate. -/
theorem acts_of_returned {deed : Deed} {m : CertLookup → DbM Issued}
    (hrun : ∀ lookup, (deed.on lookup).run times = some <$> m lookup)
    (h : returned (m (.cn cn) db) = true →
      ∃ c, db.Current times cn now c ∧ m (.cn cn) db = m (.serial c.serial) db) :
    returned ((deed.on (.cn cn)).run times db) = false ∨
    ∃ c, db.Current times cn now c ∧
      (deed.on (.cn cn)).run times db = (deed.on (.serial c.serial)).run times db := by
  cases hreturned : returned (m (.cn cn) db) with
  | false =>
    left
    rw [hrun, returned_map, hreturned]
  | true =>
    obtain ⟨c, hcurrent, hsame⟩ := h hreturned
    right
    refine ⟨c, hcurrent, ?_⟩
    rw [hrun, hrun]
    exact map_congr_at hsame some

theorem renew_serial {cert : CertAttribs} {signing : Signing} {renewing : Renewing}
    (h : db.found lookup true = some c) :
    renewCertificateBundle times lookup cert signing renewing db =
      renewCertificateBundle times (.serial c.serial) cert signing renewing db :=
  bind_congr_at (certificateOf_serial h) _

theorem rekey_serial {cert : CertAttribs} {signing : Signing} {renewing : Renewing}
    (h : db.found lookup false = some c) :
    rekeyCertificateBundle times lookup cert signing renewing db =
      rekeyCertificateBundle times (.serial c.serial) cert signing renewing db :=
  bind_congr_at (certificateOf_serial h) _

/-- The row that a serial finds is the one that is current. -/
theorem CaDatabase.Current.found {validOnly : Bool} (h : db.Current times cn now c)
    (hfound : db.found (.serial c.serial) validOnly = some r) : r = c := by
  obtain ⟨hmem, hserial, _⟩ := mem_of_found hfound
  exact db.row_unique hmem h.mem (of_decide_eq_true hserial)

/-- A computation that replaces the row that a lookup finds, if that has a title. -/
structure Replaces (times : OpensslTimes) (db : CaDatabase) (now : Time) (validOnly : Bool)
    (cert : CertAttribs) (user : String) (reason : IgnoreReason)
    (m : CertLookup → DbM Issued) : Prop where
  replaces : ∀ {lookup : CertLookup} {r : CertRecord}, db.found lookup validOnly = some r →
    r.title.isSome = true → ∃ t, m lookup db = .ok ⟨[db.tables.config.counter .cert], []⟩ t ∧
      t.rows = db.replaced times now cert r.serial user reason
  finds : ∀ {lookup : CertLookup}, returned (m lookup db) = true →
    ∃ r, db.found lookup validOnly = some r ∧ r.title.isSome = true

/-- What is replaced by the CN is current, if what replaces it tells the rows apart. -/
theorem Replaces.current {validOnly : Bool} {cert : CertAttribs} {user : String}
    {reason : IgnoreReason} {m : CertLookup → DbM Issued}
    (hm : Replaces times db now validOnly cert user reason m)
    (hacts : returned (m (.cn cn) db) = true →
      ∃ c, db.Current times cn now c ∧ m (.cn cn) db = m (.serial c.serial) db)
    (huser : c.ignoredBy ≠ some user) (hfound : db.found (.cn cn) validOnly = some c)
    (htitle : c.title.isSome = true) : db.Current times cn now c := by
  obtain ⟨t, hcn, ht⟩ := hm.replaces hfound htitle
  have hreturned : returned (m (.cn cn) db) = true := by
    rw [hcn]
    rfl
  obtain ⟨current, hcurrent, hsame⟩ := hacts hreturned
  rw [hsame] at hreturned hcn
  obtain ⟨r, hfound', htitle'⟩ := hm.finds hreturned
  obtain ⟨t', hserial, ht'⟩ := hm.replaces hfound' htitle'
  cases hcn.symm.trans hserial
  rw [eq_of_replaced (mem_of_found hfound).1 (mem_of_found hfound').1 huser (ht.symm.trans ht'),
    hcurrent.found hfound']
  exact hcurrent

theorem renew_current (h : ActsOnCurrent times db cn now .renew) (hfree : ¬db.NextTaken)
    (hfound : db.found (.cn cn) true = some c) (htitle : c.title.isSome = true) :
    db.Current times cn now c := by
  obtain ⟨user, huser⟩ := exists_user c.ignoredBy
  let signing : Signing := ⟨.ok (), .ok (), .ok ()⟩
  let renewing : Renewing := ⟨.ok (), .error (.other ""), user, now⟩
  have hreplaces : Replaces times db now true (sampleCert "" "") user .renewed
      (renewCertificateBundle times · (sampleCert "" "") signing renewing) :=
    ⟨fun hfound htitle => renew_ok hfound htitle hfree, fun h => (renew_cases h).2⟩
  exact hreplaces.current (h.of_returned (.renew (sampleCert "" "") signing renewing) rfl rfl
    trivial _ fun _ => rfl) huser hfound htitle

theorem rekey_current (h : ActsOnCurrent times db cn now .rekey) (hfree : ¬db.NextTaken)
    (hfound : db.found (.cn cn) false = some c) (htitle : c.title.isSome = true) :
    db.Current times cn now c := by
  obtain ⟨user, huser⟩ := exists_user c.ignoredBy
  let signing : Signing := ⟨.ok (), .ok (), .ok ()⟩
  let renewing : Renewing := ⟨.ok (), .error (.other ""), user, now⟩
  have hreplaces : Replaces times db now false (sampleCert "" "") user .rekeyed
      (rekeyCertificateBundle times · (sampleCert "" "") signing renewing) :=
    ⟨fun hfound htitle => rekey_ok hfound htitle hfree, fun h => (rekey_cases h).2⟩
  exact hreplaces.current (h.of_returned (.rekey (sampleCert "" "") signing renewing) rfl rfl
    trivial _ fun _ => rfl) huser hfound htitle

/-! ## Revoking -/

theorem revoke_serial (h : db.found lookup true = some c) :
    revokeCertificate times lookup now db = revokeCertificate times (.serial c.serial) now db :=
  bind_congr_at (certificateOf_serial h) _

theorem revoke_current (h : ActsOnCurrent times db cn now .revoke)
    (hfound : db.revocable (.cn cn) = some c) : db.Current times cn now c := by
  rcases revokeCertificate_cases times (.cn cn) now db with ⟨hnone, _⟩ | ⟨r, t, hr, hrun, hrevokes⟩
  · rw [hfound] at hnone
    cases hnone
  · rw [hfound] at hr
    cases hr
    have hreturned : returned (revokeCertificate times (.cn cn) now db) = true := by
      rw [hrun]
      rfl
    obtain ⟨current, hcurrent, hsame⟩ := h.of_returned (.revoke now) rfl rfl trivial
      (revokeCertificate times · now) (fun _ => rfl) hreturned
    rw [hsame] at hrun
    rcases revokeCertificate_cases times (.serial current.serial) now db with
      ⟨_, herror⟩ | ⟨r, t', hr, hrun', hrevokes'⟩
    · rw [hrun] at herror
      cases herror
    · cases hrun.symm.trans hrun'
      -- what is revoked is written down
      have hgiven := hrevokes.given.symm.trans hrevokes'.given
      have hserial : c.serial = r.serial := by simpa using hgiven
      rw [← found_revocable] at hr
      rw [db.row_unique (mem_of_revocable hfound).1 (mem_of_found hr).1 hserial,
        hcurrent.found hr]
      exact hcurrent

/-! ## Publishing -/

/-- What is found is published, when nothing fails outside. -/
theorem publish_ok {at_ : String} (hcandidate : db.candidate lookup = some c)
    (hmem : c ∈ db.rows) (h : c.Publishable times now)
    (hstore : (db.tables.config.read.text .caPublicStore).isSome) :
    ∃ t, publishCertificate lookup (.ok false) (.ok ()) at_ db = .ok .nothing t ∧
      t.rows = db.rows.map (stamped c.serial (c.cn.getD "") at_) := by
  obtain ⟨t, hmark, ht⟩ : ∃ t, markCertPublished c.serial (c.cn.getD "") at_ db = .ok () t ∧
      t.rows = db.rows.map (stamped c.serial (c.cn.getD "") at_) := markCertPublished_ok hmem
  have hupload : uploadPublished c.serial (c.cn.getD "") (.ok ()) at_ db = .ok () t :=
    (bind_of_ok rfl).trans ((bind_of_ok (require_of hstore)).trans ((bind_of_ok rfl).trans hmark))
  refine ⟨t, ?_, ht⟩
  refine (bind_of_ok (publishable_ok hcandidate h)).trans ((bind_of_ok rfl).trans ?_)
  exact (bind_of_ok (require_of rfl)).trans (bind_of_ok hupload)

/-- What is published is found, may be published, and there is a store for it. -/
theorem publish_cases {retrieved : Except OpcaError Bool} {uploaded : Except OpcaError Unit}
    {at_ : String} (h : returned (publishCertificate lookup retrieved uploaded at_ db) = true) :
    (db.tables.config.read.text .caPublicStore).isSome = true ∧ retrieved = .ok false ∧
      ∃ c, db.candidate lookup = some c ∧ ∀ times now,
        c.expired times now = false → c.Publishable times now := by
  obtain ⟨c, _, hpublishable, h⟩ := exists_of_returned_bind h
  obtain ⟨rfl, hcandidate, hmay⟩ := of_publishable_ok hpublishable
  obtain ⟨expired, _, hretrieved, h⟩ := exists_of_returned_bind h
  obtain ⟨rfl, rfl⟩ := of_outcome_ok hretrieved
  obtain ⟨_, _, hrequire, h⟩ := exists_of_returned_bind h
  obtain ⟨rfl, rfl⟩ := of_require_ok hrequire
  obtain ⟨_, _, hupload, h⟩ := exists_of_returned_bind h
  obtain ⟨_, _, hget, hupload⟩ := of_bind_ok hupload
  cases hget
  obtain ⟨_, _, hrequire, _⟩ := of_bind_ok hupload
  exact ⟨(of_require_ok hrequire).1, rfl, c, hcandidate, hmay⟩

/-- Two certificates of one CN are not stamped for one another. -/
theorem eq_of_stamped {rows : List CertRecord} {at_ : String} (hr : r ∈ rows)
    (hcn : r.cn = some cn) (h : rows.map (stamped r.serial cn at_) =
      rows.map (stamped c.serial cn at_)) : r.serial = c.serial := by
  have hrow := congrArg CertRecord.publishedAt (List.map_inj_left.mp h r hr)
  by_contra hne
  cases hpublished : r.publishedAt with
  | none => simp [stamped, hne, hpublished] at hrow
  | some at_' => simp [stamped, hne, hcn, hpublished] at hrow

theorem publish_current (h : ActsOnCurrent times db cn now .publish)
    (hstore : (db.tables.config.read.text .caPublicStore).isSome = true)
    (hlatest : db.latest cn = some c) (hmay : c.Publishable times now) :
    db.Current times cn now c := by
  obtain ⟨hmem, hcn⟩ := mem_of_latest hlatest
  have hfits : (Deed.publish (.ok false) (.ok ()) now).Fits times db cn := by
    intro c' hc' expired hexpired
    rw [hlatest] at hc'
    cases hc'
    cases hexpired
    exact hmay.unexpired.symm
  obtain ⟨t, hrun, ht⟩ : ∃ t, publishCertificate (.cn cn) (.ok false) (.ok ())
      (times.format now) db = .ok .nothing t ∧ _ := publish_ok hlatest hmem hmay hstore
  have hreturned : returned (publishCertificate (.cn cn) (.ok false) (.ok ())
      (times.format now) db) = true := by
    rw [hrun]
    rfl
  obtain ⟨current, hcurrent, hsame⟩ := h.of_returned (.publish (.ok false) (.ok ()) now) rfl rfl
    hfits (publishCertificate · (.ok false) (.ok ()) (times.format now)) (fun _ => rfl) hreturned
  rw [hsame] at hrun hreturned
  have hfound : db.candidate (.serial current.serial) = some current := found_of_mem hcurrent.mem
  obtain ⟨_, _, r, hr, hmay'⟩ := publish_cases hreturned
  cases hfound.symm.trans hr
  have hunexpired : current.expired times now = false := by
    have hlive := hcurrent.live
    unfold CertRecord.live at hlive
    simp only [Bool.and_eq_true, Bool.not_eq_true'] at hlive
    exact hlive.1.1
  obtain ⟨t', hrun', ht'⟩ : ∃ t', publishCertificate (.serial current.serial) (.ok false)
      (.ok ()) (times.format now) db = .ok .nothing t' ∧ _ :=
    publish_ok hfound hcurrent.mem (hmay' times now hunexpired) hstore
  cases hrun.symm.trans hrun'
  have hrows := ht.symm.trans ht'
  rw [hcn, hcurrent.named, Option.getD_some] at hrows
  rw [db.row_unique hmem hcurrent.mem (eq_of_stamped hmem hcn hrows)]
  exact hcurrent

theorem publish_serial {retrieved : Except OpcaError Bool} {uploaded : Except OpcaError Unit}
    {at_ : String} (h : db.latest cn = some c) :
    publishCertificate (.cn cn) retrieved uploaded at_ db =
      publishCertificate (.serial c.serial) retrieved uploaded at_ db := by
  have hcn : publishable.candidate (.cn cn) db = .ok (some c) db := by
    rw [candidate_eq]
    exact congrArg (EStateM.Result.ok · db) h
  have hserial : publishable.candidate (.serial c.serial) db = .ok (some c) db := by
    rw [candidate_eq]
    exact congrArg (EStateM.Result.ok · db) (found_of_mem (mem_of_latest h).1)
  have hgo : publishable (.serial c.serial) db = _ := bind_of_ok hserial
  have hsame : publishable (.cn cn) db = publishable (.serial c.serial) db :=
    (bind_of_ok hcn).trans hgo.symm
  exact bind_congr_at hsame _

/-! ## When what is done is done to the current certificate -/

theorem renew_acts (h : FindsCurrent times db cn now .renew) :
    ActsOnCurrent times db cn now .renew := by
  intro deed hkind htime _
  cases deed with
  | renew cert signing renewing =>
    refine acts_of_returned (m := (renewCertificateBundle times · cert signing renewing))
      (fun _ => rfl) ?_
    intro hreturned
    obtain ⟨hfree, c, hfound, htitle⟩ := renew_cases hreturned
    rw [found_revocable] at hfound
    exact ⟨c, h.resolve_left hfree c hfound htitle,
      renew_serial ((found_revocable db _).trans hfound)⟩
  | rekey _ _ _ => cases hkind
  | revoke _ => cases hkind
  | publish _ _ _ => cases hkind

theorem rekey_acts (h : FindsCurrent times db cn now .rekey) :
    ActsOnCurrent times db cn now .rekey := by
  intro deed hkind htime _
  cases deed with
  | rekey cert signing renewing =>
    refine acts_of_returned (m := (rekeyCertificateBundle times · cert signing renewing))
      (fun _ => rfl) ?_
    intro hreturned
    obtain ⟨hfree, c, hfound, htitle⟩ := rekey_cases hreturned
    rw [found_cn] at hfound
    exact ⟨c, h.resolve_left hfree c hfound htitle, rekey_serial ((found_cn db cn).trans hfound)⟩
  | renew _ _ _ => cases hkind
  | revoke _ => cases hkind
  | publish _ _ _ => cases hkind

theorem revoke_acts (h : FindsCurrent times db cn now .revoke) :
    ActsOnCurrent times db cn now .revoke := by
  intro deed hkind htime _
  cases deed with
  | revoke at_ =>
    cases htime
    refine acts_of_returned (m := (revokeCertificate times · at_)) (fun _ => rfl) ?_
    intro hreturned
    rcases revokeCertificate_cases times (.cn cn) at_ db with ⟨_, herror⟩ | ⟨c, t, hfound, _, _⟩
    · rw [herror] at hreturned
      cases hreturned
    · exact ⟨c, h c hfound, revoke_serial ((found_revocable db _).trans hfound)⟩
  | renew _ _ _ => cases hkind
  | rekey _ _ _ => cases hkind
  | publish _ _ _ => cases hkind

theorem publish_acts (h : FindsCurrent times db cn now .publish) :
    ActsOnCurrent times db cn now .publish := by
  intro deed hkind htime hfits
  cases deed with
  | publish retrieved uploaded at_ =>
    cases htime
    refine acts_of_returned
      (m := (publishCertificate · retrieved uploaded (times.format at_))) (fun _ => rfl) ?_
    intro hreturned
    obtain ⟨hstore, hretrieved, c, hlatest, hmay⟩ := publish_cases hreturned
    have hunexpired : c.expired times at_ = false := (hfits c hlatest false hretrieved).symm
    rcases h with hnone | h
    · rw [Option.isNone_iff_eq_none.mp hnone] at hstore
      cases hstore
    · exact ⟨c, h c hlatest (hmay times at_ hunexpired), publish_serial hlatest⟩
  | renew _ _ _ => cases hkind
  | rekey _ _ _ => cases hkind
  | revoke _ => cases hkind

/-- Acting by a common name acts on the current certificate, if and only if that is the
row that the name finds. -/
theorem actsOnCurrent_iff (times : OpensslTimes) (db : CaDatabase) (cn : String) (now : Time)
    (kind : DeedKind) :
    ActsOnCurrent times db cn now kind ↔ FindsCurrent times db cn now kind := by
  cases kind with
  | renew =>
    refine ⟨fun h => ?_, renew_acts⟩
    by_cases htaken : db.NextTaken
    · exact .inl htaken
    · refine .inr fun c hc htitle => renew_current h htaken ?_ htitle
      rw [found_revocable]
      exact hc
  | rekey =>
    refine ⟨fun h => ?_, rekey_acts⟩
    by_cases htaken : db.NextTaken
    · exact .inl htaken
    · refine .inr fun c hc htitle => rekey_current h htaken ?_ htitle
      rw [found_cn]
      exact hc
  | revoke => exact ⟨fun h c hc => revoke_current h hc, revoke_acts⟩
  | publish =>
    refine ⟨fun h => ?_, publish_acts⟩
    cases hstore : db.tables.config.read.text .caPublicStore with
    | none => exact .inl (by rw [hstore]; rfl)
    | some store =>
      refine .inr fun c hc hmay => publish_current h ?_ hc hmay
      rw [hstore]
      rfl

/-- A server's certificate is issued and renewed. -/
def renewedEvents : List Event :=
  [.found sampleFounding sampleStart,
    .operate (.generate "www" (sampleCert "www" "webserver") ⟨.ok (), .ok (), .ok ()⟩ sampleStart)
      sampleStart,
    .operate (.renew (.cn "www") (sampleCert "www" "webserver") ⟨.ok (), .ok (), .ok ()⟩
      ⟨.ok (), .ok (), "operator", sampleStart⟩) sampleStart]

/-- By its CN the predecessor of a renewed certificate is revoked. -/
theorem revokes_predecessor :
    ∃ l db, (life sampleTimes).system.Reachable l ∧ l.ca = some db ∧
      (∃ c ∈ db.rows, c.cn = some "www" ∧ c.live sampleTimes sampleStart = true) ∧
      ¬ActsOnCurrent sampleTimes db "www" sampleStart .revoke := by
  obtain ⟨l, hl, hview⟩ := Machine.exists_reachable_of_exec
    (show (life sampleTimes).init ⟨none, 0⟩ from rfl) renewedEvents
    (fun l => l.ca.any fun db =>
      (db.revocable (.cn "www")).map CertRecord.number = some 2 &&
        db.rows.any fun c =>
          c.cn = some "www" && c.live sampleTimes sampleStart && c.number = 3)
    (by decide)
  obtain ⟨db, hdb, hview⟩ := (Option.any_eq_true _ _).mp hview
  rw [Bool.and_eq_true, decide_eq_true_eq, List.any_eq_true] at hview
  obtain ⟨hfound, c, hc, hlive⟩ := hview
  rw [Bool.and_eq_true, Bool.and_eq_true, decide_eq_true_eq, decide_eq_true_eq] at hlive
  refine ⟨l, db, hl, hdb, ⟨c, hc, hlive.1⟩, fun hacts => ?_⟩
  obtain ⟨r, hr, hnumber⟩ := Option.map_eq_some_iff.mp hfound
  have hle := (revoke_current hacts hr).highest c hc hlive.1.1 hlive.1.2
  rw [hnumber, hlive.2] at hle
  exact absurd hle (by decide)

end Opca.Core

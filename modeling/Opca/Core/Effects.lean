/-
  Core/Effects.lean --- what an operation can do to the rows of the certificates and of
  the brokers: each of its statements has one of a few effects.

  What holds of the rows over a whole run is proved from these, one case for each, and
  not from the operations.
-/
import Opca.Core.Counters
import Mathlib.Logic.Relation

set_option autoImplicit false

namespace Opca.Core

open Opca.Foundation Acme

def CaDatabase.rows (db : CaDatabase) : List CertRecord := db.tables.certificates.rows

def CaDatabase.brokers (db : CaDatabase) : List Broker := db.tables.brokers.rows

/-- A row after another, changed in nothing that a scan or a deletion goes by. -/
structure CertRecord.Edits (before after : CertRecord) : Prop where
  serial : after.serial = before.serial
  status : after.status = before.status
  revocationDate : after.revocationDate = before.revocationDate
  deletedAt : after.deletedAt = before.deletedAt
  expiryDate : ∀ text, before.expiryDate = some text → after.expiryDate = some text
  certType : ∀ text, before.certType = some text → after.certType = some text

theorem CertRecord.Edits.refl (c : CertRecord) : c.Edits c :=
  ⟨rfl, rfl, rfl, rfl, fun _ h => h, fun _ h => h⟩

/-- A serial that a fresh certificate has. -/
def CaDatabase.Fresh (db : CaDatabase) (serial : String) : Prop :=
  ∃ c ∈ db.rows, c.serial = serial ∧ c.revocationDate = none

/-- A serial of a subordinate that was just signed. -/
structure CaDatabase.Signed (db : CaDatabase) (serial : String) : Prop where
  fresh : db.Fresh serial
  known : ∃ key, .subordinate serial key ∈ db.given

/-- A broker's row after another: on the same subordinate, or, if active, on a new one. -/
structure Broker.Goes (db : CaDatabase) (before after : Broker) : Prop where
  id : after.id = before.id
  state : after.state = before.state
  subordinate : after.subordinateSerial = before.subordinateSerial ∨
    (before.state = .active ∧ db.Signed after.subordinateSerial)

/-- A row that is hidden from view. -/
def hide (serial deletedAt : String) (c : CertRecord) : CertRecord :=
  if c.serial = serial && c.deletedAt.isNone then { c with deletedAt := some deletedAt } else c

/-- A certificate is revoked, as far as the scan does it, and its broker marked. -/
structure Revokes (times : OpensslTimes) (now : Time) (serial : String)
    (s t : CaDatabase) : Prop where
  rows : t.rows = s.rows.map (processCert times now (some serial))
  brokers : t.brokers = updateWhere (·.subordinateSerial = serial)
    (fun b => { b with state := .revoked, updatedAt := times.format now }) s.brokers
  dirty : t.dirty = false
  certsRevoked : t.certsRevoked =
    (s.rows.filter (processedRevoked times now (some serial))).map CertRecord.serial
  given : t.given = s.given ++ [.revoked serial now]

/-- What one statement does, by an operation at `now`. -/
inductive Effect (times : OpensslTimes) (now : Time) (may : CertRecord → Prop)
    (s t : CaDatabase) : Prop
  /-- Nothing to rows of certificates or brokers. -/
  | elsewhere (hrows : t.rows = s.rows) (hbrokers : t.brokers = s.brokers)
      (hrevoked : t.certsRevoked = s.certsRevoked) (hdirty : s.dirty = true → t.dirty = true)
      (hgiven : t.given = s.given)
  /-- Something is given out, a subordinate only of a row. -/
  | gave (more : List Given) (hmore : ∀ g ∈ more, (∀ serial at_, g ≠ .revoked serial at_) ∧
        ∀ serial key, g = .subordinate serial key → ∃ c ∈ s.rows, c.serial = serial)
      (ht : t = { s with given := s.given ++ more })
  | edited (f : CertRecord → CertRecord) (hf : ∀ c : CertRecord, c.Edits (f c))
      (hrows : t.rows = s.rows.map f) (hbrokers : t.brokers = s.brokers)
      (hdirty : t.dirty = true) (hgiven : t.given = s.given)
  | added (cert : CertAttribs) (serial title : String) (hitem : .item serial ∈ s.given)
      (hnew : serial ∉ s.rows.map CertRecord.serial)
      (hrows : t.rows = s.rows ++ [formatDbItem times now cert serial title])
      (hbrokers : t.brokers = s.brokers) (hdirty : t.dirty = true) (hgiven : t.given = s.given)
  | scanned (hrows : t.rows = s.rows.map (processCert times now none))
      (hbrokers : t.brokers = s.brokers) (hdirty : t.dirty = false)
      (hrevoked : t.certsRevoked =
        (s.rows.filter (processedRevoked times now none)).map CertRecord.serial)
      (hgiven : t.given = s.given)
  /-- A certificate that was found as valid, and that `may` be revoked. -/
  | revoked (serial : String)
      (hfound : ∃ c ∈ s.rows, c.serial = serial ∧ c.status = some "Valid" ∧ may c)
      (h : Revokes times now serial s t)
  /-- A row that is no CA's, and revoked or expired, is hidden. -/
  | hid (serial : String) (hfound : ∃ c ∈ s.rows, c.serial = serial ∧ c.certType ≠ some "ca" ∧
        (c.status = some "Revoked" ∨ c.status = some "Expired"))
      (hrows : t.rows = s.rows.map (hide serial (times.format now)))
      (hbrokers : t.brokers = s.brokers) (hdirty : t.dirty = true) (hgiven : t.given = s.given)
  | enrolled (broker : Broker) (hactive : broker.state = .active)
      (hsigned : s.Signed broker.subordinateSerial) (hrows : t.rows = s.rows)
      (hbrokers : t.brokers = s.brokers ++ [broker])
      (hrevoked : t.certsRevoked = s.certsRevoked) (hdirty : s.dirty = true → t.dirty = true)
      (hgiven : t.given = s.given)
  | moved (g : Broker → Broker) (hg : ∀ b ∈ s.brokers, b.Goes s (g b)) (hrows : t.rows = s.rows)
      (hbrokers : t.brokers = s.brokers.map g)
      (hrevoked : t.certsRevoked = s.certsRevoked) (hdirty : s.dirty = true → t.dirty = true)
      (hgiven : t.given = s.given)

/-- What an operation does at `now`. -/
abbrev Effects (times : OpensslTimes) (now : Time) (may : CertRecord → Prop) :
    CaDatabase → CaDatabase → Prop :=
  Relation.ReflTransGen (Effect times now may)

variable {times : OpensslTimes} {now : Time} {may : CertRecord → Prop} {db s t : CaDatabase}
  {α : Type}

/-- What was given out stays so. -/
theorem Effect.given (h : Effect times now may s t) : ∃ more, t.given = s.given ++ more := by
  have hsame : t.given = s.given → ∃ more, t.given = s.given ++ more :=
    fun h => ⟨[], by rw [h, List.append_nil]⟩
  cases h with
  | elsewhere _ _ _ _ hgiven => exact hsame hgiven
  | gave more _ ht => exact ⟨more, by rw [ht]⟩
  | edited _ _ _ _ _ hgiven => exact hsame hgiven
  | added _ _ _ _ _ _ _ _ hgiven => exact hsame hgiven
  | scanned _ _ _ _ hgiven => exact hsame hgiven
  | revoked serial _ h => exact ⟨_, h.given⟩
  | hid _ _ _ _ _ hgiven => exact hsame hgiven
  | enrolled _ _ _ _ _ _ _ hgiven => exact hsame hgiven
  | moved _ _ _ _ _ _ hgiven => exact hsame hgiven

/-- What it does before it goes to the brokers' rows; a fresh certificate stays so. -/
structure Still (times : OpensslTimes) (now : Time) (may : CertRecord → Prop)
    (s t : CaDatabase) : Prop where
  effects : Effects times now may s t
  brokers : t.brokers = s.brokers
  fresh : ∀ serial, s.Fresh serial → t.Fresh serial
  given : ∃ more, t.given = s.given ++ more

instance : Std.Refl (Still times now may) :=
  ⟨fun _ => ⟨.refl, rfl, fun _ h => h, [], (List.append_nil _).symm⟩⟩

instance : IsTrans CaDatabase (Still times now may) := by
  refine ⟨fun a b c hab hbc => ⟨hab.effects.trans hbc.effects, hbc.brokers.trans hab.brokers,
    fun serial h => hbc.fresh serial (hab.fresh serial h), ?_⟩⟩
  obtain ⟨more, hmore⟩ := hab.given
  obtain ⟨more', hmore'⟩ := hbc.given
  exact ⟨more ++ more', by rw [hmore', hmore, List.append_assoc]⟩

theorem Fresh.of_rows {serial : String} (h : s.Fresh serial) (hrows : t.rows = s.rows) :
    t.Fresh serial := by
  unfold CaDatabase.Fresh
  rw [hrows]
  exact h

theorem Still.signed {serial : String} (h : Still times now may s t) (hs : s.Signed serial) :
    t.Signed serial := by
  obtain ⟨key, hkey⟩ := hs.known
  obtain ⟨more, hmore⟩ := h.given
  refine ⟨h.fresh serial hs.fresh, key, ?_⟩
  rw [hmore]
  exact List.mem_append_left _ hkey

theorem Still.of_rows (h : Effect times now may s t) (hrows : t.rows = s.rows)
    (hbrokers : t.brokers = s.brokers) : Still times now may s t :=
  ⟨.single h, hbrokers, fun _ hs => Fresh.of_rows hs hrows, h.given⟩

/-- A row in place of each. -/
theorem Still.of_map {f : CertRecord → CertRecord} (h : Effect times now may s t)
    (hrows : t.rows = s.rows.map f) (hbrokers : t.brokers = s.brokers)
    (hf : ∀ c, (f c).serial = c.serial ∧ (f c).revocationDate = c.revocationDate) :
    Still times now may s t := by
  refine ⟨.single h, hbrokers, ?_, h.given⟩
  rintro serial ⟨c, hc, hserial, hdate⟩
  refine ⟨f c, ?_, (hf c).1.trans hserial, (hf c).2.trans hdate⟩
  rw [hrows]
  exact List.mem_map_of_mem hc

/-! ## Statements -/

/-- A statement that cannot fail. -/
theorem moves_of_still {m : DbM α} {value : CaDatabase → α}
    {after : CaDatabase → CaDatabase} (hm : ∀ db, m db = .ok (value db) (after db))
    (hafter : ∀ db, Still times now may db (after db)) : Moves (Still times now may) m :=
  .of_total hm hafter

/-- One that is to neither certificates nor brokers. -/
theorem moves_elsewhere {m : DbM α} {value : CaDatabase → α}
    {after : CaDatabase → CaDatabase} (hm : ∀ db, m db = .ok (value db) (after db))
    (hafter : ∀ db, (after db).rows = db.rows ∧ (after db).brokers = db.brokers ∧
      (after db).certsRevoked = db.certsRevoked ∧ (db.dirty = true → (after db).dirty = true) ∧
      (after db).given = db.given) : Moves (Still times now may) m := by
  refine moves_of_still hm fun db => ?_
  obtain ⟨hrows, hbrokers, hrevoked, hdirty, hgiven⟩ := hafter db
  exact .of_rows (.elsewhere hrows hbrokers hrevoked hdirty hgiven) hrows hbrokers

theorem incrementSerial_still (kind : SerialType) (given : Option Int) :
    Moves (Still times now may) (incrementSerial kind given) :=
  moves_elsewhere (fun _ => rfl) fun _ => ⟨rfl, rfl, rfl, fun _ => rfl, rfl⟩

theorem updateConfig_still (updates : CaConfig) :
    Moves (Still times now may) (updateConfig updates) :=
  moves_elsewhere (fun _ => rfl) fun _ => ⟨rfl, rfl, rfl, fun h => h, rfl⟩

theorem queryCert_still (lookup : CertLookup) (validOnly : Bool) :
    Moves (Still times now may) (queryCert lookup validOnly) :=
  moves_elsewhere (fun _ => rfl) fun _ => ⟨rfl, rfl, rfl, fun h => h, rfl⟩

theorem crlEntries_still : Moves (Still times now may) crlEntries :=
  moves_elsewhere (fun _ => rfl) fun _ => ⟨rfl, rfl, rfl, fun h => h, rfl⟩

theorem upsertCrlMetadata_still (metadata : CrlMetadata) :
    Moves (Still times now may) (upsertCrlMetadata metadata) :=
  moves_elsewhere (fun _ => rfl) fun _ => ⟨rfl, rfl, rfl, fun h => h, rfl⟩

theorem upsertCrlBatch_still (batch : CrlBatch) :
    Moves (Still times now may) (upsertCrlBatch batch) :=
  moves_elsewhere (fun _ => rfl) fun _ => ⟨rfl, rfl, rfl, fun h => h, rfl⟩

theorem clearCrlBatch_still : Moves (Still times now may) clearCrlBatch :=
  moves_elsewhere (fun _ => rfl) fun _ => ⟨rfl, rfl, rfl, fun h => h, rfl⟩

theorem recordBrokerCerts_still (certs : List BrokerCert) :
    Moves (Still times now may) (recordBrokerCerts certs) :=
  moves_elsewhere (fun _ => rfl) fun _ => ⟨rfl, rfl, rfl, fun h => h, rfl⟩

theorem writeOther_still (table : OtherTable) (key : String) (row : Option String) :
    Moves (Still times now may) (writeOther table key row) :=
  moves_elsewhere (fun _ => rfl) fun _ => ⟨rfl, rfl, rfl, fun h => h, rfl⟩

/-- Giving out what is neither a revocation nor a subordinate. -/
theorem giveAll_still {more : List Given}
    (hmore : ∀ g ∈ more, (∀ serial at_, g ≠ .revoked serial at_) ∧
      ∀ serial key, g ≠ .subordinate serial key) :
    Moves (Still times now may) (giveAll more) := by
  refine moves_of_still (fun _ => rfl) fun db => .of_rows (.gave more ?_ rfl) rfl rfl
  intro g hg
  exact ⟨(hmore g hg).1, fun serial key h => absurd h ((hmore g hg).2 serial key)⟩

theorem addExternalCert_still (record : ExternalCertRecord) :
    Moves (Still times now may) (addExternalCert record) := by
  refine .of_step ?_ ?_
  · intro db a t h
    unfold addExternalCert at h
    split at h
    · cases h
    · cases h
      exact .of_rows (.elsewhere rfl rfl rfl (fun _ => rfl) rfl) rfl rfl
  · intro db e t h
    unfold addExternalCert at h
    split at h
    · cases h
      exact Std.Refl.refl db
    · cases h

theorem updateCerts_still {p : CertRecord → Bool} {f : CertRecord → CertRecord}
    {hf : ∀ c, (f c).serial = c.serial} {missing : OpcaError}
    (hedits : ∀ c : CertRecord, c.Edits (f c)) :
    Moves (Still times now may) (updateCerts p f hf missing) := by
  have hboth : ∀ c : CertRecord, c.Edits (if p c then f c else c) := by
    intro c
    split
    · exact hedits c
    · exact .refl c
  refine .of_step ?_ ?_
  · intro db a t h
    unfold updateCerts at h
    split at h
    · cases h
      exact .of_map (.edited _ hboth rfl rfl rfl rfl) rfl rfl
        fun c => ⟨(hboth c).serial, (hboth c).revocationDate⟩
    · cases h
  · intro db e t h
    unfold updateCerts at h
    split at h
    · cases h
    · cases h
      exact Std.Refl.refl db

theorem ignoreCert_still (serial : String) (reason : IgnoreReason) (user : String)
    (note : Option String) (at_ : String) :
    Moves (Still times now may) (ignoreCert serial reason user note at_) :=
  updateCerts_still fun _ => ⟨rfl, rfl, rfl, rfl, fun _ h => h, fun _ h => h⟩

theorem unignoreCert_still (serial : String) :
    Moves (Still times now may) (unignoreCert serial) :=
  updateCerts_still fun _ => ⟨rfl, rfl, rfl, rfl, fun _ h => h, fun _ h => h⟩

theorem markCertPublished_still (serial cn at_ : String) :
    Moves (Still times now may) (markCertPublished serial cn at_) :=
  updateCerts_still fun _ => ⟨rfl, rfl, rfl, rfl, fun _ h => h, fun _ h => h⟩

theorem retitle_still (serial dstTitle : String) :
    Moves (Still times now may) (retitle serial dstTitle) :=
  updateCerts_still fun _ => ⟨rfl, rfl, rfl, rfl, fun _ h => h, fun _ h => h⟩

theorem backfillRecord_edits (bundle : CertAttribs) (c : CertRecord) :
    c.Edits (backfillRecord times bundle c) := by
  refine ⟨rfl, rfl, rfl, rfl, ?_, ?_⟩
  · intro text h
    simp [backfillRecord, h]
  · intro text h
    simp [backfillRecord, h]

/-- A scan that revokes nothing dates nothing. -/
theorem processCert_revocationDate (c : CertRecord) :
    (processCert times now none c).revocationDate = c.revocationDate := by
  unfold processCert
  split
  · rfl
  · split
    · rfl
    · simp only [CertRecord.isRevoking, reduceCtorEq, decide_false, Bool.and_false,
        Bool.false_eq_true, if_false]
      split <;> rfl

theorem scan_still (force : Bool) :
    Moves (Still times now may) (processCaDatabase times now none force) := by
  refine .of_step ?_ ?_
  · intro db a t h
    unfold processCaDatabase at h
    split at h
    · cases h
      exact Std.Refl.refl db
    · cases h
      exact .of_map (.scanned rfl rfl rfl rfl rfl) rfl rfl
        fun c => ⟨processCert_serial times now none c, processCert_revocationDate c⟩
  · intro db e t h
    unfold processCaDatabase at h
    split at h <;> cases h

/-! ## Issuing and importing -/

theorem give_still {g : Given} (hrevoked : ∀ serial at_, g ≠ .revoked serial at_)
    (hsubordinate : ∀ serial key, g ≠ .subordinate serial key) :
    Moves (Still times now may) (give g) := by
  refine giveAll_still ?_
  intro g' hg'
  rw [List.mem_singleton.mp hg']
  exact ⟨hrevoked, hsubordinate⟩

theorem issue_still {signed : Except OpcaError Unit} :
    Moves (Still times now may) (issue signed) := by
  refine (incrementSerial_still .cert none).bind fun serial => ?_
  refine (give_still (by simp) (by simp)).bind fun _ => ?_
  exact Moves.outcome.bind fun _ => .pure

/-- The row of a certificate whose item is there. -/
theorem addCert_ensures {cert : CertAttribs} {serial title : String} :
    Ensures (fun s => .item serial ∈ s.given ∧ Still times now may db s)
      (addCert (formatDbItem times now cert serial title))
      (fun _ s => Still times now may db s ∧ s.Fresh serial) (Still times now may db) := by
  rintro s ⟨hitem, hs⟩
  unfold addCert
  cases hadd : s.tables.certificates.add (formatDbItem times now cert serial title) with
  | none => exact hs
  | some certificates =>
    have hrows := CaCertificates.rows_add hadd
    have hnew : serial ∉ s.rows.map CertRecord.serial := by
      have hnodup := certificates.serials_nodup
      rw [hrows, List.map_append] at hnodup
      intro hmem
      exact (List.nodup_append.mp hnodup).2.2 serial hmem serial List.mem_cons_self rfl
    have heffect : Effect times now may s { s with
        tables := { s.tables with certificates }, dirty := true } :=
      .added cert serial title hitem hnew hrows rfl rfl rfl
    refine ⟨IsTrans.trans _ _ _ hs ⟨.single heffect, rfl, ?_, heffect.given⟩, ?_⟩
    · rintro other ⟨c, hc, hserial, hdate⟩
      refine ⟨c, ?_, hserial, hdate⟩
      show c ∈ certificates.rows
      rw [hrows]
      exact List.mem_append_left _ hc
    · refine ⟨formatDbItem times now cert serial title, ?_, rfl, rfl⟩
      show _ ∈ certificates.rows
      rw [hrows]
      exact List.mem_append_right _ List.mem_cons_self

/-- A certificate's item, and its row. -/
theorem storeCertbundle_still {cert : CertAttribs} {serial title : String}
    {stored : Except OpcaError Unit} :
    Ensures (Still times now may db)
      (storeCertbundle true (formatDbItem times now cert serial title) stored
        (addCert (formatDbItem times now cert serial title)))
      (fun _ s => Still times now may db s ∧ s.Fresh serial) (Still times now may db) := by
  refine (Moves.outcome db).bind fun _ => ?_
  have hgive : Ensures (Still times now may db)
      (storeCertbundle.giveItem true (formatDbItem times now cert serial title))
      (fun _ s => .item serial ∈ s.given ∧ Still times now may db s) (Still times now may db) := by
    intro s hs
    refine ⟨List.mem_append_right _ List.mem_cons_self, ?_⟩
    exact (give_still (g := .item serial) (by simp) (by simp) db).ok hs rfl
  exact hgive.bind fun _ => addCert_ensures

/-- Issuing, and what goes on from a fresh certificate. -/
theorem issueBundle_effects {cert : CertAttribs} {title : String → String} {signing : Signing}
    {andThen : String → DbM Unit} {P : CaDatabase → Prop}
    (hP : ∀ s, Still times now may db s → P s)
    (hthen : ∀ serial, Ensures (fun s => Still times now may db s ∧ s.Fresh serial)
      (andThen serial) (fun _ => P) P) :
    Ensures (Still times now may db) (issueBundle times now cert title signing andThen)
      (fun _ => P) P := by
  have hbefore : ∀ {α : Type} {m : DbM α}, Moves (Still times now may) m →
      Ensures (Still times now may db) m (fun _ => Still times now may db) P :=
    fun h => (h db).failing hP
  refine (hbefore .outcome).bind fun _ => ?_
  refine (hbefore issue_still).bind fun serial => ?_
  refine (storeCertbundle_still.failing hP).bind fun _ => ?_
  exact (hthen _).bind fun _ => .pure fun _ hs => hs

theorem issueBundle_still {cert : CertAttribs} {title : String → String} {signing : Signing}
    {andThen : String → DbM Unit} (hthen : ∀ serial, Moves (Still times now may) (andThen serial)) :
    Moves (Still times now may) (issueBundle times now cert title signing andThen) :=
  fun db => issueBundle_effects (fun _ hs => hs) fun serial =>
    (hthen serial db).imp (fun _ hs => hs.1) (fun _ _ hs => hs) fun _ hs => hs

theorem storeExternal_still {cert : Imported} {title : String}
    {stored : Except OpcaError Unit} :
    Moves (Still times now may) (storeExternal times cert title stored now) := by
  refine Moves.outcome.bind fun _ => ?_
  have hgive : Moves (Still times now may) (storeCertbundle.giveItem cert.verified
      (formatDbItem times now (cert.attribs.ofType "external") cert.serial title)) := by
    unfold storeCertbundle.giveItem
    split
    · exact give_still (by simp) (by simp)
    · exact .pure
  exact hgive.bind fun _ => addExternalCert_still _

theorem importCertificateBundle_still {cert : Imported} {title : String}
    {read stored : Except OpcaError Unit} :
    Moves (Still times now may) (importCertificateBundle times cert title read stored now) := by
  refine Moves.outcome.bind fun _ => ?_
  split
  · have hadvance : Moves (Still times now may) (advanceSerial cert.serial) := by
      unfold advanceSerial
      split
      · exact (incrementSerial_still _ _).bind fun _ => .pure
      · exact .pure
    refine hadvance.bind fun _ => ?_
    have hstore : Moves (Still times now may) (storeCertbundle true
        (formatDbItem times now (cert.attribs.ofType "imported") cert.serial title) stored
        (addCert (formatDbItem times now (cert.attribs.ofType "imported") cert.serial title))) :=
      fun db => storeCertbundle_still.imp (fun _ hs => hs) (fun _ _ hs => hs.1) fun _ hs => hs
    exact hstore.bind fun _ => .pure
  · exact storeExternal_still.bind fun _ => .pure

/-! ## What only reads, or takes what comes -/

/-- What is required is so from there on. -/
theorem require_ensures {p : Prop} [Decidable p] {error : OpcaError}
    {P failed : CaDatabase → Prop} (hfailed : ∀ s, P s → failed s) :
    Ensures P (require p error) (fun _ s => p ∧ P s) failed := by
  refine .outcome ?_ hfailed
  intro _ s h hs
  split at h
  next hp => exact ⟨hp, hs⟩
  next => cases h

theorem require_still {p : Prop} [Decidable p] {error : OpcaError} :
    Moves (Still times now may) (require p error) :=
  .outcome

theorem certificateOf_still (lookup : CertLookup) (validOnly : Bool) :
    Moves (Still times now may) (certificateOf lookup validOnly) :=
  .of_reads (certificateOf_reads lookup validOnly)

theorem uploadPublished_still (serial cn : String) (uploaded : Except OpcaError Unit)
    (at_ : String) : Moves (Still times now may) (uploadPublished serial cn uploaded at_) := by
  refine Moves.get.bind fun db => ?_
  refine require_still.bind fun _ => ?_
  exact Moves.outcome.bind fun _ => markCertPublished_still serial cn at_

theorem logged_still {m : DbM Unit} (h : Moves (Still times now may) m) :
    Moves (Still times now may) (logged m) := by
  intro s₀ s hs
  unfold logged
  cases hm : m s with
  | ok a t => exact (h s₀).ok hs hm
  | error e t => exact (h s₀).error hs hm

/-! ## Operations that go to no broker's row -/

theorem renewCertificateBundle_still {lookup : CertLookup} {cert : CertAttribs}
    {signing : Signing} {renewing : Renewing} (hnow : renewing.now = now) :
    Moves (Still times now may) (renewCertificateBundle times lookup cert signing renewing) := by
  subst hnow
  refine (certificateOf_still lookup true).bind fun old => ?_
  refine require_still.bind fun _ => ?_
  refine require_still.bind fun _ => ?_
  refine Moves.outcome.bind fun _ => ?_
  refine issueBundle_still fun newSerial => ?_
  refine (ignoreCert_still _ _ _ _ _).bind fun _ => ?_
  split
  · exact logged_still (uploadPublished_still _ _ _ _)
  · exact .pure

theorem rekeyCertificateBundle_still {lookup : CertLookup} {cert : CertAttribs}
    {signing : Signing} {renewing : Renewing} (hnow : renewing.now = now) :
    Moves (Still times now may) (rekeyCertificateBundle times lookup cert signing renewing) := by
  subst hnow
  refine (certificateOf_still lookup false).bind fun old => ?_
  refine require_still.bind fun _ => ?_
  refine Moves.outcome.bind fun _ => ?_
  exact issueBundle_still fun newSerial => ignoreCert_still _ _ _ _ _

theorem importCsrCert_still {cert : Imported} {cn : String} {row : Option String}
    {read stored : Except OpcaError Unit} :
    Moves (Still times now may) (importCsrCert times cert cn row read stored now) := by
  refine Moves.outcome.bind fun _ => ?_
  refine storeExternal_still.bind fun _ => ?_
  exact (writeOther_still _ _ _).bind fun _ => .pure

theorem renameCertbundle_still {srcTitle dstTitle : String}
    {renamed : Except OpcaError Unit} :
    Moves (Still times now may) (renameCertbundle srcTitle dstTitle renamed) := by
  refine (queryCert_still _ _).bind fun found => ?_
  cases found with
  | none => exact .throw
  | some record =>
    refine Moves.outcome.bind fun _ => ?_
    exact (retitle_still _ _).bind fun _ => .pure

theorem publishable_still (lookup : CertLookup) :
    Moves (Still times now may) (publishable lookup) := by
  have hcandidate : Moves (Still times now may) (publishable.candidate lookup) := by
    cases lookup with
    | serial value => exact queryCert_still _ _
    | cn value => exact moves_elsewhere (fun _ => rfl) fun _ => ⟨rfl, rfl, rfl, fun h => h, rfl⟩
    | title value => exact queryCert_still _ _
  refine hcandidate.bind fun found => ?_
  cases found with
  | none => exact .throw
  | some cert =>
    refine require_still.bind fun _ => ?_
    refine require_still.bind fun _ => ?_
    exact require_still.bind fun _ => .pure

theorem publishCertificate_still {lookup : CertLookup} {retrieved : Except OpcaError Bool}
    {uploaded : Except OpcaError Unit} {at_ : String} :
    Moves (Still times now may) (publishCertificate lookup retrieved uploaded at_) := by
  refine (publishable_still lookup).bind fun cert => ?_
  refine Moves.outcome.bind fun expired => ?_
  refine require_still.bind fun _ => ?_
  exact (uploadPublished_still _ _ _ _).bind fun _ => .pure

theorem backfillCert_still {serial : String} {bundle : Option CertAttribs} :
    Moves (Still times now may) (backfillCert times serial bundle) := by
  refine (queryCert_still _ _).bind fun found => ?_
  cases found with
  | none => exact .throw
  | some record =>
    cases bundle with
    | none => exact .pure
    | some bundle =>
      have hfill : Moves (Still times now may) (updateCerts (·.serial = serial)
          (backfillRecord times bundle) (fun _ => rfl) (noCertificate serial)) :=
        updateCerts_still (backfillRecord_edits bundle)
      dsimp only
      split
      · exact (logged_still hfill).bind fun _ => .pure
      · exact .pure

theorem updateCaConfig_still {updates : CaConfig} :
    Moves (Still times now may) (updateCaConfig updates) := by
  refine Moves.get.bind fun db => ?_
  refine Moves.outcome.bind fun _ => ?_
  exact (updateConfig_still updates).bind fun _ => .pure

/-! ## CRLs -/

theorem giveCrls_still {crls : List SignedCrl} {g : SignedCrl → Given}
    (hg : ∀ crl, g crl = .crlNumber crl.number ∨ g crl = .crl crl.number) :
    Moves (Still times now may) (giveAll (crls.map g)) := by
  refine giveAll_still ?_
  intro given hgiven
  obtain ⟨crl, _, rfl⟩ := List.mem_map.mp hgiven
  rcases hg crl with h | h <;> rw [h] <;> simp

theorem recordBatch_still {batchUri : Option String} {batch : CrlBatch} :
    Moves (Still times now may) (recordBatch batchUri batch) := by
  cases batchUri with
  | none => exact clearCrlBatch_still
  | some uri => exact (updateConfig_still _).bind fun _ => upsertCrlBatch_still batch

theorem publishCrls_still {batchUri : Option String} {batch : CrlBatch}
    {entries : List CrlEntry} {publishing : Publishing} :
    Moves (Still times now may) (publishCrls times batchUri batch entries publishing) := by
  refine Moves.outcome.bind fun crls => ?_
  refine recordBatch_still.bind fun _ => ?_
  refine (giveCrls_still fun _ => .inl rfl).bind fun _ => ?_
  refine Moves.outcome.bind fun issuer => ?_
  refine (upsertCrlMetadata_still _).bind fun _ => ?_
  refine Moves.outcome.bind fun _ => ?_
  exact (giveCrls_still fun _ => .inr rfl).bind fun _ => .pure

theorem generateCrl_still {publishing : Publishing} :
    Moves (Still times now may) (generateCrl times now publishing) := by
  refine (scan_still false).bind fun _ => ?_
  refine Moves.get.bind fun db => ?_
  refine Moves.outcome.bind fun batchUri => ?_
  refine Moves.outcome.bind fun _ => ?_
  refine crlEntries_still.bind fun entries => ?_
  refine (incrementSerial_still .crl none).bind fun firstNumber => ?_
  exact publishCrls_still

/-! ## Operations that go to brokers' rows -/

/-- An operation that ends with the brokers' rows. -/
theorem moves_effects {m : DbM α}
    (h : ∀ db, Ensures (Still times now may db) m (fun _ => Effects times now may db)
      (Effects times now may db)) : Moves (Effects times now may) m := by
  intro s₀ s hs
  refine (h s).imp (fun _ h => h) (fun _ _ hst => hs.trans hst) (fun _ hst => hs.trans hst) s
    (Std.Refl.refl s)

theorem effects_of_still {m : DbM α} (h : Moves (Still times now may) m) :
    Moves (Effects times now may) m :=
  moves_effects fun db => (h db).imp (fun _ hs => hs) (fun _ _ hs => hs.effects)
    fun _ hs => hs.effects

/-- A step of a computation that goes to the brokers' rows. -/
theorem ensures_effect {m : DbM α} {value : CaDatabase → α} {after : CaDatabase → CaDatabase}
    {P : CaDatabase → Prop} (hm : ∀ s, m s = .ok (value s) (after s))
    (h : ∀ s, P s → Effects times now may db s ∧ Effect times now may s (after s)) :
    Ensures P m (fun _ => Effects times now may db) (Effects times now may db) := by
  intro s hs
  rw [hm]
  obtain ⟨hbefore, hstep⟩ := h s hs
  exact hbefore.tail hstep

/-- Rows of brokers in place of others, each on the same subordinate. -/
theorem updateBrokers_effects {p : Broker → Bool} {f : Broker → Broker}
    {hf : ∀ b, (f b).id = b.id}
    (hgoes : ∀ b : Broker, (f b).state = b.state ∧ (f b).subordinateSerial = b.subordinateSerial) :
    Moves (Effects times now may) (updateBrokers p f hf) := by
  refine moves_effects fun db => ensures_effect (fun _ => rfl) fun s hs => ⟨hs.effects, ?_⟩
  refine .moved (fun b => if p b then f b else b) ?_ rfl rfl rfl (fun h => h) rfl
  intro b _
  split
  · exact ⟨hf b, (hgoes b).1, .inl (hgoes b).2⟩
  · exact ⟨rfl, rfl, .inl rfl⟩

theorem reported_effects (id : Int) (issuerState : Option String) (at_ : String) :
    Moves (Effects times now may) (reported id issuerState at_) := by
  unfold reported
  refine Moves.bind (updateBrokers_effects ?_) fun _ => updateBrokers_effects ?_
  · exact fun _ => ⟨rfl, rfl⟩
  · exact fun _ => ⟨rfl, rfl⟩

/-- A subordinate is signed, and what becomes of its row. -/
theorem issueSubordinate_effects {cert : CertAttribs} {signing : Signing}
    {andThen : String → DbM Unit}
    (hthen : ∀ serial, Ensures (fun s => Still times now may db s ∧ s.Signed serial)
      (andThen serial) (fun _ => Effects times now may db) (Effects times now may db)) :
    Ensures (Still times now may db) (issueSubordinate times cert signing now andThen)
      (fun _ => Effects times now may db) (Effects times now may db) := by
  refine issueBundle_effects (fun _ hs => hs.effects) fun serial => ?_
  refine Ensures.bind ?_ fun _ => hthen serial
  refine .modify fun s hs => ?_
  have hgave : Effect times now may s
      { s with given := s.given ++ [.subordinate serial cert.publicKey] } := by
    refine .gave _ ?_ rfl
    intro g hg
    rw [List.mem_singleton.mp hg]
    refine ⟨by simp, ?_⟩
    intro serial' key heq
    cases heq
    obtain ⟨c, hc, hserial, _⟩ := hs.2
    exact ⟨c, hc, hserial⟩
  exact ⟨IsTrans.trans _ _ _ hs.1 (.of_rows hgave rfl rfl), Fresh.of_rows hs.2 rfl,
    cert.publicKey, List.mem_append_right _ List.mem_cons_self⟩

theorem signSubordinate_effects {cert : CertAttribs} {signing : Signing}
    {permittedDomains : Except OpcaError (List String)} {endpoint : Option (String × String)} :
    Moves (Effects times now may)
      (signSubordinate times cert signing permittedDomains endpoint now) := by
  refine moves_effects fun db => ?_
  have houtcome : Ensures (Still times now may db) (outcome permittedDomains : DbM _)
      (fun _ => Still times now may db) (Effects times now may db) :=
    .outcome (fun _ _ _ hs => hs) fun _ hs => hs.effects
  refine houtcome.bind fun domains => issueSubordinate_effects fun serial => ?_
  have hadd : Ensures (fun s => Still times now may db s ∧ s.Signed serial)
      (addBroker serial domains (times.format now)) (fun _ => Effects times now may db)
      (Effects times now may db) :=
    ensures_effect (fun _ => rfl) fun s hs =>
      ⟨hs.1.effects, .enrolled _ rfl hs.2 rfl rfl rfl (fun h => h) rfl⟩
  refine hadd.bind fun id => ?_
  cases endpoint with
  | none => exact .pure fun _ hs => hs
  | some endpoint =>
    have hendpoint : Moves (Effects times now may)
        (setBrokerEndpoint id endpoint.1 endpoint.2 (times.format now)) :=
      updateBrokers_effects fun _ => ⟨rfl, rfl⟩
    exact hendpoint db

/-- A broker's row, which is that of the start. -/
theorem brokerOf_ensures {id : Int} :
    Ensures (Still times now may db) (brokerOf id)
      (fun broker s => db.tables.brokers.get? id = some broker ∧ Still times now may db s)
      (Still times now may db) := by
  have hquery : Ensures (Still times now may db) (queryBroker id)
      (fun found s => found = db.tables.brokers.get? id ∧ Still times now may db s)
      (Still times now may db) := by
    intro s hs
    refine ⟨?_, hs⟩
    unfold Table.get?
    rw [show s.tables.brokers.rows = db.tables.brokers.rows from hs.brokers]
  refine hquery.bind fun found => .of_and fun hfound => ?_
  rw [← hfound]
  cases found with
  | none => exact .throw fun _ hs => hs
  | some broker => exact .pure fun _ hs => ⟨rfl, hs⟩

theorem activeBroker_ensures {id : Int} :
    Ensures (Still times now may db) (activeBroker id)
      (fun broker s => (db.tables.brokers.get? id = some broker ∧ broker.state = .active) ∧
        Still times now may db s)
      (Still times now may db) := by
  refine brokerOf_ensures.bind fun broker => .of_and fun hbroker => ?_
  have hrequire : Ensures (Still times now may db)
      (require (broker.state ≠ .revoked) (.certificateRevoked s!"subordinate {id}"))
      (fun _ s => broker.state ≠ .revoked ∧ Still times now may db s) (Still times now may db) :=
    require_ensures fun _ hs => hs
  refine hrequire.bind fun _ => .of_and fun hstate => .pure fun s hs => ⟨⟨hbroker, ?_⟩, hs⟩
  cases h : broker.state with
  | active => rfl
  | revoked => exact absurd h hstate

theorem renewalDomains_still {broker : Broker}
    {requested : Option (Except OpcaError (List String))} {changeDomains : Bool} :
    Moves (Still times now may) (renewalDomains broker requested changeDomains) :=
  .of_reads (renewalDomains_reads broker requested changeDomains)

/-- An active broker goes to the certificate that it was renewed with. -/
theorem moveBrokerTo_effects {id : Int} {broker : Broker} {serial : String}
    {domains : List String} {at_ : String}
    (hbroker : db.tables.brokers.get? id = some broker) (hactive : broker.state = .active) :
    Ensures (fun s => Still times now may db s ∧ s.Signed serial)
      (moveBrokerTo id serial domains at_) (fun _ => Effects times now may db)
      (Effects times now may db) := by
  refine ensures_effect (fun _ => rfl) fun s hs => ⟨hs.1.effects, ?_⟩
  refine .moved (fun b => if b.id = id then
    { b with subordinateSerial := serial, permittedDomains := domains, updatedAt := at_ }
    else b) ?_ rfl ?_ rfl (fun h => h) rfl
  · intro b hb
    split
    next hid =>
      rw [hs.1.brokers] at hb
      have heq : db.tables.brokers.get? id = some b := Table.get?_eq_some.mpr ⟨hb, hid⟩
      rw [hbroker] at heq
      cases heq
      exact ⟨rfl, rfl, .inr ⟨hactive, hs.2⟩⟩
    next => exact ⟨rfl, rfl, .inl rfl⟩
  · show updateWhere _ _ s.brokers = _
    unfold updateWhere
    simp only [decide_eq_true_eq]

theorem renewSubordinate_effects {id : Int} {cert : CertAttribs} {signing : Signing}
    {requested : Option (Except OpcaError (List String))} {changeDomains : Bool}
    {user : String} :
    Moves (Effects times now may)
      (renewSubordinate times id cert signing requested changeDomains user now) := by
  refine moves_effects fun db => ?_
  have hactive : Ensures (Still times now may db) (activeBroker id)
      (fun broker s => (db.tables.brokers.get? id = some broker ∧ broker.state = .active) ∧
        Still times now may db s) (Effects times now may db) :=
    activeBroker_ensures.failing fun _ hs => hs.effects
  refine hactive.bind fun broker => .of_and fun hbroker => ?_
  have hdomains : Ensures (Still times now may db)
      (renewalDomains broker requested changeDomains) (fun _ => Still times now may db)
      (Effects times now may db) :=
    (renewalDomains_still db).failing fun _ hs => hs.effects
  refine hdomains.bind fun domains => issueSubordinate_effects fun newSerial => ?_
  have hignore : Ensures (fun s => Still times now may db s ∧ s.Signed newSerial)
      (autoIgnorePredecessor broker.subordinateSerial newSerial .renewed user
        (times.format now))
      (fun _ s => Still times now may db s ∧ s.Signed newSerial) (Effects times now may db) := by
    have hstill : Moves (Still times now may) (autoIgnorePredecessor broker.subordinateSerial
        newSerial .renewed user (times.format now)) :=
      ignoreCert_still _ _ _ _ _
    have hkeep := hstill.keep (P := fun s => Still times now may db s ∧ s.Signed newSerial)
      fun s t hs hst => ⟨IsTrans.trans _ _ _ hs.1 hst, hst.signed hs.2⟩
    exact hkeep.failing fun _ hs => hs.1.effects
  exact hignore.bind fun _ => moveBrokerTo_effects hbroker.1 hbroker.2

/-! ## Revoking and deleting -/

/-- The certificate that a lookup revokes. -/
def CaDatabase.revocable (db : CaDatabase) (lookup : CertLookup) : Option CertRecord :=
  db.rows.find? fun c => lookup.finds c && c.status = some "Valid"

theorem mem_of_revocable {lookup : CertLookup} {c : CertRecord}
    (h : s.revocable lookup = some c) :
    c ∈ s.rows ∧ lookup.finds c = true ∧ c.status = some "Valid" := by
  have hfound := List.find?_some h
  rw [Bool.and_eq_true, decide_eq_true_eq] at hfound
  exact ⟨List.mem_of_find?_eq_some h, hfound⟩

/-- A scan that revokes always takes place. -/
theorem processCaDatabase_some (times : OpensslTimes) (now : Time) (serial : String)
    (s : CaDatabase) :
    ∃ changed t, processCaDatabase times now (some serial) false s = .ok changed t ∧
      t = ⟨{ s.tables with
          certificates := s.tables.certificates.map (processCert times now (some serial))
            (by simp)
          externals := s.tables.externals.map (processExternal times now) }, false,
        (s.rows.filter (processedRevoked times now (some serial))).map CertRecord.serial,
        s.given⟩ := by
  unfold processCaDatabase
  rw [if_neg (by simp)]
  exact ⟨_, _, rfl, rfl⟩

/-- A revocation returns if it finds a certificate, whatever the scan makes of it. -/
theorem revokeCertificate_cases (times : OpensslTimes) (lookup : CertLookup) (now : Time)
    (s : CaDatabase) :
    (s.revocable lookup = none ∧
      revokeCertificate times lookup now s = .error (.certificateNotFound lookup.debug) s) ∨
    ∃ c t, s.revocable lookup = some c ∧
      revokeCertificate times lookup now s = .ok .nothing t ∧ Revokes times now c.serial s t := by
  have hquery : queryCert lookup true s = .ok (s.revocable lookup) s := rfl
  cases hfound : s.revocable lookup with
  | none =>
    refine .inl ⟨rfl, ?_⟩
    rw [hfound] at hquery
    exact bind_of_error (bind_of_ok hquery)
  | some c =>
    rw [hfound] at hquery
    have hcert : certificateOf lookup true s = .ok c s := bind_of_ok hquery
    obtain ⟨changed, t, hscan, ht⟩ := processCaDatabase_some times now c.serial s
    have hbrokers : revokeBrokersOf c.serial (times.format now) t = .ok () _ := rfl
    refine .inr ⟨c, _, rfl, (bind_of_ok hcert).trans ((bind_of_ok hscan).trans
      ((bind_of_ok hbrokers).trans (bind_of_ok rfl))), ?_⟩
    subst ht
    exact ⟨rfl, rfl, rfl, rfl, rfl⟩

theorem brokerOf_eq {id : Int} {broker : Broker}
    (h : s.tables.brokers.get? id = some broker) : brokerOf id s = .ok broker s := by
  have hquery : queryBroker id s = .ok (some broker) s := by
    rw [← h]
    rfl
  exact bind_of_ok hquery

/-- That a broker's subordinate is revoked, which is found as any certificate is. -/
theorem revokeSubordinate_cases (times : OpensslTimes) (id : Int) (now : Time)
    (s : CaDatabase) :
    (∃ e, revokeSubordinate times id now s = .error e s) ∨
    ∃ broker c t, s.tables.brokers.get? id = some broker ∧ broker.state = .active ∧
      s.revocable (.serial broker.subordinateSerial) = some c ∧
      revokeSubordinate times id now s = .ok .nothing t ∧ Revokes times now c.serial s t := by
  cases hbroker : s.tables.brokers.get? id with
  | none =>
    have hquery : queryBroker id s = .ok none s := by
      rw [← hbroker]
      rfl
    exact .inl ⟨_, bind_of_error (bind_of_error (bind_of_ok hquery))⟩
  | some broker =>
    have hof := brokerOf_eq hbroker
    cases hstate : broker.state with
    | revoked =>
      have hrequire : require (broker.state ≠ .revoked)
          (.certificateRevoked s!"subordinate {id}") s =
          .error (.certificateRevoked s!"subordinate {id}") s := by
        rw [hstate]
        rfl
      exact .inl ⟨_, bind_of_error ((bind_of_ok hof).trans (bind_of_error hrequire))⟩
    | active =>
      have hrequire : require (broker.state ≠ .revoked)
          (.certificateRevoked s!"subordinate {id}") s = .ok () s := by
        rw [hstate]
        rfl
      have hactive : activeBroker id s = .ok broker s :=
        (bind_of_ok hof).trans (bind_of_ok hrequire)
      rcases revokeCertificate_cases times (.serial broker.subordinateSerial) now s with
        ⟨_, h⟩ | ⟨c, t, hfound, h, hrevokes⟩
      · exact .inl ⟨_, (bind_of_ok hactive).trans (bind_of_error h)⟩
      · obtain ⟨hmem, hid⟩ := Table.get?_eq_some.mp hbroker
        have hserial : c.serial = broker.subordinateSerial :=
          of_decide_eq_true (mem_of_revocable hfound).2.1
        have hmarked : { broker with state := .revoked, updatedAt := times.format now } ∈
            t.tables.brokers.rows := by
          rw [show t.tables.brokers.rows = _ from hrevokes.brokers]
          exact mem_updateWhere_of hmem (decide_eq_true hserial.symm)
        have hafter := brokerOf_eq (Table.get?_eq_some.mpr ⟨hmarked, hid⟩)
        refine .inr ⟨broker, c, t, rfl, hstate, hfound, ?_, hrevokes⟩
        exact (bind_of_ok hactive).trans ((bind_of_ok h).trans (bind_of_ok hafter))

/-- There is a row with a serial that may be hidden. -/
def CaDatabase.MayHide (db : CaDatabase) (serial : String) : Prop :=
  ∃ c ∈ db.rows, c.serial = serial ∧ c.certType ≠ some "ca" ∧
    (c.status = some "Revoked" ∨ c.status = some "Expired")

/-- An update leaves a row that it may change. -/
theorem updateCerts_exists {p : CertRecord → Bool} {f : CertRecord → CertRecord}
    {hf : ∀ c, (f c).serial = c.serial} {missing : OpcaError} {Q : CertRecord → Prop}
    (hQ : ∀ c, Q c → Q (f c)) :
    Ensures (fun s => ∃ c ∈ s.rows, Q c) (updateCerts p f hf missing)
      (fun _ s => ∃ c ∈ s.rows, Q c) (fun _ => True) := by
  rintro s ⟨c, hc, hcQ⟩
  unfold updateCerts
  by_cases hany : s.tables.certificates.rows.any p
  · rw [if_pos hany]
    refine ⟨if p c then f c else c, List.mem_map_of_mem hc, ?_⟩
    split
    · exact hQ c hcQ
    · exact hcQ
  · rw [if_neg hany]
    trivial

theorem markCertDeleted_effects {serial : String} :
    Ensures (fun s => s.MayHide serial ∧ Still times now may db s)
      (markCertDeleted serial (times.format now)) (fun _ => Effects times now may db)
      (Effects times now may db) := by
  rintro s ⟨hhide, hs⟩
  unfold markCertDeleted updateCerts
  by_cases hany : s.tables.certificates.rows.any fun c => c.serial = serial && c.deletedAt.isNone
  · rw [if_pos hany]
    exact hs.effects.tail (.hid serial hhide rfl rfl rfl rfl)
  · rw [if_neg hany]
    exact hs.effects

/-- Ignoring a certificate that is deleted leaves what may be hidden. -/
theorem ignoreDeleted_ensures {serial user at_ : String} {cert : CertRecord} :
    Ensures (fun s => s.MayHide serial ∧ Still times now may db s)
      (deleteCertificate.ignoreDeleted serial cert user at_)
      (fun _ s => s.MayHide serial ∧ Still times now may db s) (Effects times now may db) := by
  unfold deleteCertificate.ignoreDeleted
  split
  · have hhide : Ensures (fun s => s.MayHide serial)
        (ignoreCert serial .deleted user none at_) (fun _ s => s.MayHide serial)
        (fun _ => True) :=
      updateCerts_exists fun _ h => h
    exact (hhide.and (ignoreCert_still serial .deleted user none at_ db)).failing
      fun _ hs => hs.2.effects
  · exact .pure fun _ hs => hs

theorem deleteCertificate_effects {serial user : String} {archived : Except OpcaError Unit} :
    Moves (Effects times now may) (deleteCertificate times serial archived user now) := by
  refine moves_effects fun db => ?_
  have hstill : ∀ {α : Type} {m : DbM α}, Moves (Still times now may) m →
      Ensures (Still times now may db) m (fun _ => Still times now may db)
        (Effects times now may db) :=
    fun h => (h db).failing fun _ hs => hs.effects
  refine (hstill (scan_still true)).bind fun _ => ?_
  -- the row that is found is there, with the serial
  have hquery : Ensures (Still times now may db) (queryCert (.serial serial) false)
      (fun found s => (∀ c ∈ found, c ∈ s.rows ∧ c.serial = serial) ∧ Still times now may db s)
      (Effects times now may db) := by
    intro s hs
    refine ⟨?_, hs⟩
    intro c hc
    have hfound := List.find?_some hc
    rw [Bool.and_eq_true] at hfound
    exact ⟨List.mem_of_find?_eq_some hc, of_decide_eq_true hfound.1⟩
  refine hquery.bind fun found => ?_
  cases hfound : found.filter (·.deletedAt.isNone) with
  | none => exact .throw fun _ hs => hs.2.effects
  | some cert =>
    have hcert : cert ∈ found := (Option.filter_eq_some_iff.mp hfound).1
    have hfound' : Ensures
        (fun s => (∀ c ∈ found, c ∈ s.rows ∧ c.serial = serial) ∧ Still times now may db s)
        (require (cert.certType ≠ some "ca") (.other "The CA certificate cannot be deleted"))
        (fun _ s => cert.certType ≠ some "ca" ∧
          (∀ c ∈ found, c ∈ s.rows ∧ c.serial = serial) ∧ Still times now may db s)
        (Effects times now may db) :=
      require_ensures fun _ hs => hs.2.effects
    refine hfound'.bind fun _ => .of_and fun htype => ?_
    refine (require_ensures fun _ hs => hs.2.effects).bind fun _ => .of_and fun hstatus => ?_
    have harchived : Ensures
        (fun s => (∀ c ∈ found, c ∈ s.rows ∧ c.serial = serial) ∧ Still times now may db s)
        (outcome (if cert.title.isSome then archived else .ok ()) : DbM Unit)
        (fun _ s => s.MayHide serial ∧ Still times now may db s) (Effects times now may db) := by
      refine .outcome ?_ fun _ hs => hs.2.effects
      rintro _ s _ ⟨hmem, hs⟩
      obtain ⟨hrow, hserial⟩ := hmem cert hcert
      exact ⟨⟨cert, hrow, hserial, htype, hstatus⟩, hs⟩
    refine harchived.bind fun _ => ?_
    refine ignoreDeleted_ensures.bind fun _ => ?_
    exact markCertDeleted_effects.bind fun _ => .pure fun _ hs => hs

/-! ## Every operation -/

/-- The time that an operation is at, if its effects depend on it. -/
def Operation.time : Operation → Option Time
  | .generate _ _ _ now | .signCsr _ _ _ now | .signSubordinate _ _ _ _ now
  | .renewSubordinate _ _ _ _ _ _ now | .importBundle _ _ _ _ now
  | .importCsrCert _ _ _ _ _ now | .revoke _ now | .revokeSubordinate _ now
  | .ignore _ _ _ now | .delete _ _ _ now | .publish _ _ _ now | .generateCrl now _
  | .reported _ _ _ now | .rescan now => some now
  | .renew _ _ _ renewing | .rekey _ _ _ renewing => some renewing.now
  | .unignore _ | .rename _ _ _ | .updateCaConfig _ | .writeOther _ | .backfill _ _ => none

/-- An operation that takes place at `now`. -/
def Operation.At (now : Time) (op : Operation) : Prop := ∀ t ∈ op.time, t = now

instance (now : Time) (op : Operation) : Decidable (op.At now) := by
  unfold Operation.At
  infer_instance

theorem moves_some {m : DbM Issued} (h : Moves (Effects times now may) m) :
    Moves (Effects times now may) (some <$> m) :=
  fun s => (h s).map fun _ _ hs => hs

theorem effects_some {m : DbM Issued} {P failed : CaDatabase → Prop}
    (h : Ensures (· = db) m (fun _ => P) failed) :
    Ensures (· = db) (some <$> m) (fun _ => P) failed :=
  h.map fun _ _ hs => hs

/-- The certificate that an operation revokes, if it finds one. -/
def Operation.revokes (db : CaDatabase) : Operation → Option CertRecord
  | .revoke lookup _ => db.revocable lookup
  | .revokeSubordinate id _ =>
    (db.tables.brokers.get? id).bind fun b => db.revocable (.serial b.subordinateSerial)
  | _ => none

theorem effects_of_revokes {c : CertRecord} {serial : String} {lookup : CertLookup}
    (hfound : s.revocable lookup = some c) (hmay : may c) (hserial : c.serial = serial)
    (h : Revokes times now serial s t) : Effects times now may s t := by
  obtain ⟨hmem, _, hstatus⟩ := mem_of_revocable hfound
  exact .single (.revoked serial ⟨c, hmem, hserial, hstatus, hmay⟩ h)

/-- What an operation does, of which certificate it revokes if any being known. -/
theorem Operation.run_effects {op : Operation} (hat : op.At now)
    (hmay : ∀ c ∈ op.revokes db, may c) :
    Ensures (· = db) (op.run times) (fun _ => Effects times now may db)
      (Effects times now may db) := by
  have hmoves : ∀ {m : DbM (Option Issued)}, Moves (Effects times now may) m →
      Ensures (· = db) m (fun _ => Effects times now may db) (Effects times now may db) := by
    rintro m h _ rfl
    exact h _ _ .refl
  cases op with
  | generate itemTitle cert signing at_ =>
    cases hat at_ rfl
    exact hmoves (moves_some (effects_of_still (issueBundle_still fun _ => .pure)))
  | signCsr cn cert signing at_ =>
    cases hat at_ rfl
    exact hmoves (moves_some (effects_of_still (issueBundle_still fun _ => .pure)))
  | renew lookup cert signing renewing =>
    exact hmoves (moves_some (effects_of_still (renewCertificateBundle_still (hat _ rfl))))
  | rekey lookup cert signing renewing =>
    exact hmoves (moves_some (effects_of_still (rekeyCertificateBundle_still (hat _ rfl))))
  | signSubordinate cert signing permittedDomains endpoint at_ =>
    cases hat at_ rfl
    exact hmoves (moves_some signSubordinate_effects)
  | renewSubordinate id cert signing requested changeDomains user at_ =>
    cases hat at_ rfl
    exact hmoves (moves_some renewSubordinate_effects)
  | importBundle cert title read stored at_ =>
    cases hat at_ rfl
    exact hmoves (moves_some (effects_of_still importCertificateBundle_still))
  | importCsrCert cert cn row read stored at_ =>
    cases hat at_ rfl
    exact hmoves (moves_some (effects_of_still importCsrCert_still))
  | revoke lookup at_ =>
    cases hat at_ rfl
    refine effects_some ?_
    rintro _ rfl
    rcases revokeCertificate_cases times lookup now _ with ⟨_, h⟩ | ⟨c, t, hfound, h, hrevokes⟩
    · rw [h]
    · rw [h]
      exact effects_of_revokes hfound (hmay c hfound) rfl hrevokes
  | revokeSubordinate id at_ =>
    cases hat at_ rfl
    refine effects_some ?_
    rintro _ rfl
    rcases revokeSubordinate_cases times id now _ with
      ⟨_, h⟩ | ⟨broker, c, t, hbroker, _, hfound, h, hrevokes⟩
    · rw [h]
    · rw [h]
      refine effects_of_revokes hfound (hmay c ?_) rfl hrevokes
      exact Option.bind_eq_some_iff.mpr ⟨broker, hbroker, hfound⟩
  | ignore serial note user at_ =>
    exact hmoves (moves_some (effects_of_still ((ignoreCert_still _ _ _ _ _).bind fun _ => .pure)))
  | unignore serial =>
    exact hmoves (moves_some (effects_of_still ((unignoreCert_still _).bind fun _ => .pure)))
  | rename srcTitle dstTitle renamed =>
    exact hmoves (moves_some (effects_of_still renameCertbundle_still))
  | delete serial archived user at_ =>
    cases hat at_ rfl
    exact hmoves (moves_some deleteCertificate_effects)
  | publish lookup retrieved uploaded at_ =>
    exact hmoves (moves_some (effects_of_still publishCertificate_still))
  | generateCrl at_ publishing =>
    cases hat at_ rfl
    exact hmoves fun s => (effects_of_still generateCrl_still s).map fun _ _ hs => hs
  | updateCaConfig updates => exact hmoves (moves_some (effects_of_still updateCaConfig_still))
  | reported id issuerState certs at_ =>
    refine hmoves ((reported_effects id issuerState _).bind fun _ => ?_)
    exact (effects_of_still (recordBrokerCerts_still certs)).bind fun _ => .pure
  | writeOther rows =>
    refine hmoves (Moves.bind (effects_of_still ?_) fun _ => .pure)
    exact .forM (fun row => writeOther_still _ _ _) rows
  | rescan at_ =>
    cases hat at_ rfl
    exact hmoves ((effects_of_still (scan_still false)).bind fun _ => .pure)
  | backfill serial bundle =>
    exact hmoves ((effects_of_still backfillCert_still).bind fun _ => .pure)

end Opca.Core

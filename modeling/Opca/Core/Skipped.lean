/-
  Core/Skipped.lean --- a scan that is skipped, beside the whole one: over the runs of the
  database's statements and scans, any of which may fail.
-/
import Opca.Core.Partition
import Opca.Foundation.Machine

set_option autoImplicit false

namespace Opca.Core

open Opca.Foundation Acme

/-! ## Runs -/

/-- What changes the database between two scans. -/
inductive Statement where
  | addCert (record : CertRecord)
  | updateCert (record : CertRecord)
  | ignoreCert (serial : String) (reason : IgnoreReason) (user : String)
      (note : Option String) (at_ : String)
  | unignoreCert (serial : String)
  | markCertDeleted (serial at_ : String)
  | markCertPublished (serial cn at_ : String)
  | incrementSerial (serialType : SerialType) (serialNumber : Option Int)
  | addExternalCert (record : ExternalCertRecord)
  | updateExternalCert (record : ExternalCertRecord)
  | updateConfig (updates : CaConfig)
  | upsertCrlMetadata (metadata : CrlMetadata)

def Statement.run : Statement → DbM Unit
  | .addCert record => Core.addCert record
  | .updateCert record => Core.updateCert record
  | .ignoreCert serial reason user note at_ => Core.ignoreCert serial reason user note at_
  | .unignoreCert serial => Core.unignoreCert serial
  | .markCertDeleted serial at_ => Core.markCertDeleted serial at_
  | .markCertPublished serial cn at_ => Core.markCertPublished serial cn at_
  | .incrementSerial serialType serialNumber => do
    let _ ← Core.incrementSerial serialType serialNumber
  | .addExternalCert record => Core.addExternalCert record
  | .updateExternalCert record => Core.updateExternalCert record
  | .updateConfig updates => Core.updateConfig updates
  | .upsertCrlMetadata metadata => Core.upsertCrlMetadata metadata

inductive ScanStep where
  /-- SQLite runs it, or fails. -/
  | statement (op : Statement) (answer : Except OpcaError Unit)
  | scan (now : Time) (revokeSerial : Option String) (force : Bool) (answers : ScanAnswers)

/-- The database, and when its last scan was completed. -/
structure ScanHistory where
  db : ScannedDb
  lastScan : Option Time

/-- Whether a scan is skipped. -/
def ScannedDb.skips (s : ScannedDb) (revokeSerial : Option String) (force : Bool) : Bool :=
  !s.dirty && revokeSerial.isNone && !force

def ScanStep.run (times : OpensslTimes) (s : ScanHistory) : ScanStep → ScanHistory
  | .statement op answer =>
    { s with db :=
        finalState ((do outcome answer; scannedPart.lift op.run : ScanM Unit) s.db) }
  | .scan now revokeSerial force answers =>
    match classify times now revokeSerial force answers s.db with
    | .ok _ db => ⟨db, if s.db.skips revokeSerial force then s.lastScan else some now⟩
    | .error _ db => ⟨db, s.lastScan⟩

/-- A database that is opened, and what is done to it then. -/
def scanMachine (times : OpensslTimes) : Machine ScanHistory ScanStep where
  init s := s.db.dirty = true ∧ s.lastScan = none ∧ s.db.tables.ExternalsKeyed
  next s step := some (step.run times s)

variable {times : OpensslTimes} {now : Time} {revokeSerial : Option String}
  {answers : ScanAnswers}

/-! ## Statements -/

/-- A statement that fails leaves the database as it is; one that returns sets the flag, or
leaves it and the rows. -/
structure Flags (m : DbM Unit) : Prop where
  ok : ∀ {db t : CaDatabase} {a : Unit}, m db = .ok a t →
    (db.tables.ExternalsKeyed → t.tables.ExternalsKeyed) ∧
      (t.dirty = true ∨ t.dirty = db.dirty ∧
        t.tables.certificates = db.tables.certificates ∧
        t.tables.externals = db.tables.externals)
  error : ∀ {db t : CaDatabase} {e : OpcaError}, m db = .error e t → t = db
  sets : ∀ {db t : CaDatabase} {a : Unit}, m db = .ok a t → t.certsRevoked = db.certsRevoked

theorem updateCerts_flags {p : CertRecord → Bool} {f : CertRecord → CertRecord}
    {hf : ∀ c, (f c).serial = c.serial} {missing : OpcaError} :
    Flags (updateCerts p f hf missing) := by
  refine ⟨?_, ?_, ?_⟩
  · intro db t a h
    unfold updateCerts at h
    split at h
    · cases h
      exact ⟨fun hkeyed => hkeyed, .inl rfl⟩
    · cases h
  · intro db t e h
    unfold updateCerts at h
    split at h
    · cases h
    · cases h
      rfl
  · intro db t a h
    unfold updateCerts at h
    split at h
    · cases h
      rfl
    · cases h

theorem updateCert_flags (record : CertRecord) : Flags (updateCert record) := by
  unfold updateCert
  exact updateCerts_flags

theorem flags_of_total {m : DbM Unit} {after : CaDatabase → CaDatabase}
    (hm : ∀ db, m db = .ok () (after db))
    (hafter : ∀ db, (after db).tables.externals = db.tables.externals ∧
      (after db).certsRevoked = db.certsRevoked ∧
      ((after db).dirty = true ∨ (after db).dirty = db.dirty ∧
        (after db).tables.certificates = db.tables.certificates)) : Flags m := by
  refine ⟨?_, ?_, ?_⟩
  · intro db t a h
    rw [hm] at h
    cases h
    obtain ⟨hexternals, -, hdirty⟩ := hafter db
    refine ⟨fun hkeyed => ?_, hdirty.imp_right fun h => ⟨h.1, h.2, hexternals⟩⟩
    unfold Tables.ExternalsKeyed
    rw [hexternals]
    exact hkeyed
  · intro db t e h
    rw [hm] at h
    cases h
  · intro db t a h
    rw [hm] at h
    cases h
    exact (hafter db).2.1

theorem addCert_flags (record : CertRecord) : Flags (addCert record) := by
  refine ⟨?_, ?_, ?_⟩
  · intro db t a h
    unfold addCert at h
    split at h
    · cases h
    · cases h
      exact ⟨fun hkeyed => hkeyed, .inl rfl⟩
  · intro db t e h
    unfold addCert at h
    split at h
    · cases h
      rfl
    · cases h
  · intro db t a h
    unfold addCert at h
    split at h
    · cases h
    · cases h
      rfl

theorem addExternalCert_flags (record : ExternalCertRecord) :
    Flags (addExternalCert record) := by
  refine ⟨?_, ?_, ?_⟩
  · intro db t a h
    unfold addExternalCert at h
    split at h
    · cases h
    next hnew =>
      cases h
      refine ⟨fun hkeyed => ?_, .inl rfl⟩
      unfold Tables.ExternalsKeyed
      rw [List.map_append, List.map_singleton, List.nodup_append]
      exact ⟨hkeyed, List.nodup_singleton _, fun a ha b hb hab =>
        hnew (List.mem_singleton.mp hb ▸ hab ▸ ha)⟩
  · intro db t e h
    unfold addExternalCert at h
    split at h
    · cases h
      rfl
    · cases h
  · intro db t a h
    unfold addExternalCert at h
    split at h
    · cases h
    · cases h
      rfl

/-- All but the update of another CA's certificate set the flag, or leave the rows. -/
theorem statement_flags (op : Statement)
    (h : ∀ record, op ≠ .updateExternalCert record) : Flags op.run := by
  cases op with
  | addCert record => exact addCert_flags record
  | updateCert record => exact updateCert_flags record
  | ignoreCert serial reason user note at_ =>
    exact (updateCerts_flags : Flags (Core.ignoreCert serial reason user note at_))
  | unignoreCert serial => exact (updateCerts_flags : Flags (Core.unignoreCert serial))
  | markCertDeleted serial at_ =>
    exact (updateCerts_flags : Flags (Core.markCertDeleted serial at_))
  | markCertPublished serial cn at_ =>
    exact (updateCerts_flags : Flags (Core.markCertPublished serial cn at_))
  | incrementSerial => exact flags_of_total (fun _ => rfl) fun _ => ⟨rfl, rfl, .inl rfl⟩
  | addExternalCert record => exact addExternalCert_flags record
  | updateExternalCert record => exact absurd rfl (h record)
  | updateConfig => exact flags_of_total (fun _ => rfl) fun _ => ⟨rfl, rfl, .inr ⟨rfl, rfl⟩⟩
  | upsertCrlMetadata =>
    exact flags_of_total (fun _ => rfl) fun _ => ⟨rfl, rfl, .inr ⟨rfl, rfl⟩⟩

/-! ## What a step asks for -/

/-- An update of another CA's certificate that says what it says of its expiry. -/
def KeepsExternal (s : ScannedDb) (record : ExternalCertRecord) : Prop :=
  ∀ c ∈ s.tables.externals, c.serial = record.serial →
    c.expiryDate = record.expiryDate ∧ c.status = record.status

/-- The first row that a scan writes. -/
def firstWritten (times : OpensslTimes) (now : Time) (revokeSerial : Option String)
    (certs : List CertRecord) : Option CertRecord :=
  certs.find? fun c => processCert times now revokeSerial c ≠ c

/-- No statement of a scan fails. -/
structure ScanAnswers.AllOk (answers : ScanAnswers) (times : OpensslTimes) (now : Time)
    (revokeSerial : Option String) (tables : Tables) : Prop where
  certs : answers.certs = .ok ()
  updateCert : ∀ c ∈ tables.certificates.rows, processCert times now revokeSerial c ≠ c →
    answers.updateCert c.serial = .ok ()
  externals : answers.externals = .ok ()
  updateExternal : ∀ c ∈ tables.externals, processExternal times now c ≠ c →
    answers.updateExternal c.serial = .ok ()

/-- What the flag needs: a scan of an unchanged database that is not skipped does not fail,
or not before it has written a row; and what leaves the flag as it is leaves the sets
right. -/
def ScanStep.Fits (times : OpensslTimes) (s : ScanHistory) : ScanStep → Prop
  | .statement (.updateExternalCert record) _ =>
    s.db.dirty = true ∨ KeepsExternal s.db record
  | .statement _ _ => True
  | .scan now revokeSerial force answers =>
    s.db.skips revokeSerial force = true ∨ s.db.dirty = true ∨
      answers.AllOk times now revokeSerial s.db.tables ∨
      answers.certs = .ok () ∧
        ∃ c, firstWritten times now revokeSerial (selectCerts s.db.tables.certificates.rows) =
          some c ∧ answers.updateCert c.serial = .ok ()

/-! ## A scan that fails -/

/-- The flag stays set. -/
def KeepsFlag (s t : ScannedDb) : Prop := s.dirty = true → t.dirty = true

instance : Std.Refl KeepsFlag := ⟨fun _ h => h⟩
instance : IsTrans ScannedDb KeepsFlag := ⟨fun _ _ _ hab hbc h => hbc (hab h)⟩

theorem updateCert_keepsFlag (record : CertRecord) :
    Moves KeepsFlag (scannedPart.lift (updateCert record)) := by
  refine .of_step ?_ ?_
  · intro s a t h
    obtain ⟨db, hdb, rfl⟩ := Part.of_lift_ok h
    obtain ⟨certificates, rfl, -⟩ := of_updateCert hdb
    exact fun _ => rfl
  · intro s e t h
    obtain ⟨db, hdb, rfl⟩ := Part.of_lift_error h
    rw [(updateCert_flags record).error hdb]
    exact fun h => h

theorem scanCert_keepsFlag (current : String → Option String) (c : CertRecord) :
    Moves KeepsFlag (scanCert times now revokeSerial answers current c) := by
  refine (Moves.modify fun s h => h).bind fun _ => ?_
  split
  · exact .pure
  · exact Moves.outcome.bind fun _ => updateCert_keepsFlag _

theorem updateExternalCert_error {record : ExternalCertRecord} {db t : CaDatabase}
    {e : OpcaError} (h : updateExternalCert record db = .error e t) : t = db := by
  unfold updateExternalCert at h
  split at h
  · cases h
  · cases h
    rfl

theorem scanExternal_keepsFlag (c : ExternalCertRecord) :
    Moves KeepsFlag (scanExternal times now answers c) := by
  refine (Moves.modify fun s h => h).bind fun _ => ?_
  split
  · exact .pure
  · refine Moves.outcome.bind fun _ => .of_step ?_ ?_
    · intro s a t h
      obtain ⟨db, hdb, rfl⟩ := Part.of_lift_ok h
      obtain ⟨externals, rfl, -⟩ := of_updateExternalCert hdb
      exact fun h => h
    · intro s e t h
      obtain ⟨db, hdb, rfl⟩ := Part.of_lift_error h
      rw [updateExternalCert_error hdb]
      exact fun h => h

variable {s t : ScannedDb}

/-- Writing a row that is there. -/
theorem updateCert_ok {record : CertRecord} {db : CaDatabase}
    (h : record.serial ∈ db.tables.certificates.rows.map CertRecord.serial) :
    ∃ db', updateCert record db = .ok () db' ∧ db'.dirty = true := by
  obtain ⟨row, hrow, hserial⟩ := List.mem_map.mp h
  have hany : db.tables.certificates.rows.any (·.serial = record.serial) = true :=
    List.any_eq_true.mpr ⟨row, hrow, decide_eq_true hserial⟩
  unfold updateCert updateCerts
  rw [if_pos hany]
  exact ⟨_, rfl, rfl⟩

theorem updateExternalCert_ok {record : ExternalCertRecord} {db : CaDatabase}
    (h : record.serial ∈ db.tables.externals.map ExternalCertRecord.serial) :
    ∃ db', updateExternalCert record db = .ok () db' := by
  obtain ⟨row, hrow, hserial⟩ := List.mem_map.mp h
  have hany : db.tables.externals.any (·.serial = record.serial) = true :=
    List.any_eq_true.mpr ⟨row, hrow, decide_eq_true hserial⟩
  unfold updateExternalCert
  rw [if_pos hany]
  exact ⟨_, rfl⟩

/-- The turn of a row that is there, if its update is answered. -/
theorem scanCert_ok {current : String → Option String} {c : CertRecord}
    (hc : c ∈ s.tables.certificates.rows)
    (hanswer : processCert times now revokeSerial c ≠ c → answers.updateCert c.serial = .ok ()) :
    ∃ t, scanCert times now revokeSerial answers current c s = .ok () t ∧
      (processCert times now revokeSerial c ≠ c → t.dirty = true) := by
  unfold scanCert
  by_cases hsame : processCert times now revokeSerial c = c
  · simp only [hsame, if_true]
    exact ⟨_, rfl, fun hne => absurd rfl hne⟩
  · simp only [hsame, if_false]
    obtain ⟨db, hdb, hdirty⟩ := @updateCert_ok
      (processCert times now revokeSerial c)
      (scannedPart.get { s with sets := s.sets.file times now revokeSerial current c })
      (by rw [processCert_serial]; exact List.mem_map_of_mem hc)
    refine ⟨scannedPart.set db
      { s with sets := s.sets.file times now revokeSerial current c }, ?_, fun _ => hdirty⟩
    refine Eq.trans (bind_of_ok rfl) (Eq.trans (bind_of_ok (a := ()) ?_) (Part.lift_ok hdb))
    rw [hanswer hsame]
    rfl

/-- The rows that are still to have their turn are as they were. -/
theorem notMem_scanned {current : String → Option String} {c : CertRecord}
    {certs : List CertRecord} (hnodup : ((c :: certs).map CertRecord.serial).Nodup)
    (hmem : ∀ c' ∈ c :: certs, c' ∈ s.tables.certificates.rows) {a : Unit}
    (h : scanCert times now revokeSerial answers current c s = .ok a t) :
    ∀ c' ∈ certs, c' ∈ t.tables.certificates.rows := by
  intro c' hc'
  rw [List.map_cons, List.nodup_cons] at hnodup
  rw [(of_scanCert (hmem c List.mem_cons_self) h).rows]
  refine List.mem_map.mpr ⟨c', hmem c' (List.mem_cons_of_mem _ hc'), if_neg ?_⟩
  rw [List.map_singleton, List.mem_singleton]
  intro heq
  exact hnodup.1 (List.mem_map.mpr ⟨c', hc', heq⟩)

theorem scanCerts_ok {current : String → Option String} {certs : List CertRecord}
    (hnodup : (certs.map CertRecord.serial).Nodup)
    (hmem : ∀ c ∈ certs, c ∈ s.tables.certificates.rows)
    (hanswer : ∀ c ∈ certs, processCert times now revokeSerial c ≠ c →
      answers.updateCert c.serial = .ok ()) :
    ∃ t, certs.forM (scanCert times now revokeSerial answers current) s = .ok () t := by
  induction certs generalizing s with
  | nil => exact ⟨s, rfl⟩
  | cons c certs ih =>
    obtain ⟨u, hfirst, -⟩ :=
      @scanCert_ok times now revokeSerial answers _ current _ (hmem c List.mem_cons_self)
      (hanswer c List.mem_cons_self)
    obtain ⟨t, hrest⟩ := ih (List.nodup_cons.mp hnodup).2 (notMem_scanned hnodup hmem hfirst)
      fun c' hc' => hanswer c' (List.mem_cons_of_mem _ hc')
    exact ⟨t, (bind_of_ok (f := fun _ => certs.forM _) hfirst).trans hrest⟩

/-- Once a row is written the flag is set, and stays set. -/
theorem scanCerts_flag {current : String → Option String} {certs : List CertRecord}
    {c : CertRecord} (hnodup : (certs.map CertRecord.serial).Nodup)
    (hmem : ∀ c ∈ certs, c ∈ s.tables.certificates.rows)
    (hfirst : firstWritten times now revokeSerial certs = some c)
    (hanswer : answers.updateCert c.serial = .ok ()) :
    (finalState (certs.forM (scanCert times now revokeSerial answers current) s)).dirty =
      true := by
  have hkeep (certs : List CertRecord) :=
    (Moves.forM (@scanCert_keepsFlag times now revokeSerial answers current) certs).keep
      (P := fun s => s.dirty = true) fun _ _ hs hst => hst hs
  induction certs generalizing s with
  | nil => cases hfirst
  | cons first certs ih =>
    unfold firstWritten at hfirst
    by_cases hsame : processCert times now revokeSerial first = first
    · rw [List.find?_cons_of_neg (by simpa using hsame)] at hfirst
      obtain ⟨u, hturn, -⟩ := @scanCert_ok times now revokeSerial answers _ current _
        (hmem first List.mem_cons_self) fun hne => absurd hsame hne
      rw [show (first :: certs).forM (scanCert times now revokeSerial answers current) s = _ from
        bind_of_ok (f := fun _ => certs.forM _) hturn]
      exact ih (List.nodup_cons.mp hnodup).2 (notMem_scanned hnodup hmem hturn) hfirst
    · rw [List.find?_cons_of_pos (by simpa using hsame)] at hfirst
      cases hfirst
      obtain ⟨u, hturn, hdirty⟩ := @scanCert_ok times now revokeSerial answers _ current _
        (hmem c List.mem_cons_self) fun _ => hanswer
      rw [show (c :: certs).forM (scanCert times now revokeSerial answers current) s = _ from
        bind_of_ok (f := fun _ => certs.forM _) hturn]
      exact (hkeep certs).final (hdirty hsame)

theorem scanExternals_ok {certs : List ExternalCertRecord}
    (hmem : ∀ c ∈ certs, c.serial ∈ s.tables.externals.map ExternalCertRecord.serial)
    (hanswer : ∀ c ∈ certs, processExternal times now c ≠ c →
      answers.updateExternal c.serial = .ok ()) :
    ∃ t, certs.forM (scanExternal times now answers) s = .ok () t := by
  induction certs generalizing s with
  | nil => exact ⟨s, rfl⟩
  | cons c certs ih =>
    have hturn : ∃ u, scanExternal times now answers c s = .ok () u ∧
        u.tables.externals.map ExternalCertRecord.serial =
          s.tables.externals.map ExternalCertRecord.serial := by
      unfold scanExternal
      by_cases hsame : processExternal times now c = c
      · simp only [hsame, if_true]
        exact ⟨_, rfl, rfl⟩
      · simp only [hsame, if_false]
        obtain ⟨db, hdb⟩ := @updateExternalCert_ok (processExternal times now c)
          (scannedPart.get { s with sets := s.sets.fileExternal times now c })
          (by rw [processExternal_serial]; exact hmem c List.mem_cons_self)
        refine ⟨scannedPart.set db { s with sets := s.sets.fileExternal times now c }, ?_, ?_⟩
        · refine Eq.trans (bind_of_ok rfl) (Eq.trans (bind_of_ok (a := ()) ?_) (Part.lift_ok hdb))
          rw [hanswer c List.mem_cons_self hsame]
          rfl
        · obtain ⟨externals, rfl, hexternals⟩ := of_updateExternalCert hdb
          show externals.map ExternalCertRecord.serial = _
          rw [hexternals, List.map_map]
          refine List.map_congr_left fun row _ => ?_
          simp only [Function.comp_apply]
          split
          next h => exact h.symm
          next => rfl
    obtain ⟨u, hfirst, hserials⟩ := hturn
    obtain ⟨t, hrest⟩ := ih (fun c' hc' => hserials ▸ hmem c' (List.mem_cons_of_mem _ hc'))
      fun c' hc' => hanswer c' (List.mem_cons_of_mem _ hc')
    exact ⟨t, (bind_of_ok (f := fun _ => certs.forM _) hfirst).trans hrest⟩

/-- Where the rows' turns begin. -/
def ScannedDb.begun (times : OpensslTimes) (now : Time) (revokeSerial : Option String)
    (s : ScannedDb) : ScannedDb :=
  { s with sets := {
      validCnToSerial :=
        currentSerials times now revokeSerial (selectCerts s.tables.certificates.rows) } }

/-- The turns of all rows. -/
def scanTurns (times : OpensslTimes) (now : Time) (revokeSerial : Option String)
    (answers : ScanAnswers) (rows : List CertRecord) : ScanM Unit :=
  (selectCerts rows).forM
    (scanCert times now revokeSerial answers
      (currentSerials times now revokeSerial (selectCerts rows)))

/-- What comes after the rows' turns. -/
def scanEnd (times : OpensslTimes) (now : Time) (answers : ScanAnswers)
    (externals : List ExternalCertRecord) (changed : Bool) : ScanM Bool := do
  outcome answers.externals
  externals.forM (scanExternal times now answers)
  modify fun s => { s with dirty := false }
  return changed

/-- From where the flag is set it is so where the scan fails. -/
theorem scanEnd_keepsFlag (externals : List ExternalCertRecord) (changed : Bool) :
    Ensures (fun s => s.dirty = true) (scanEnd times now answers externals changed)
      (fun _ _ => True) (fun s => s.dirty = true) := by
  have hkeep (c : ExternalCertRecord) :=
    (@scanExternal_keepsFlag times now answers c).keep
      (P := fun s => s.dirty = true) fun _ _ hs hst => hst hs
  refine Ensures.bind (.outcome (fun _ _ _ hs => hs) fun _ hs => hs) fun _ => ?_
  refine (Ensures.forM hkeep externals).bind fun _ => ?_
  exact @Ensures.bind _ _ _ _ _ _ (fun _ _ => True) _ _ _ (.modify fun _ _ => trivial) fun _ =>
    .pure fun _ _ => trivial

/-- A scan in two parts. -/
theorem scanAll_eq (h : answers.certs = .ok ()) : ∃ changed,
    scanAll times now revokeSerial answers s =
      (scanTurns times now revokeSerial answers s.tables.certificates.rows >>= fun _ =>
        scanEnd times now answers s.tables.externals changed)
        (s.begun times now revokeSerial) := by
  refine ⟨(selectCerts s.tables.certificates.rows).any
      (fun c => processCert times now revokeSerial c ≠ c) ||
    s.tables.externals.any (fun c => processExternal times now c ≠ c), ?_⟩
  unfold scanAll
  rw [h]
  rfl

/-- A scan that fails where the flag is set, or after it wrote a row, leaves it set. -/
theorem scanAll_error_dirty {e : OpcaError}
    (h : s.dirty = true ∨ answers.certs = .ok () ∧
      ∃ c, firstWritten times now revokeSerial (selectCerts s.tables.certificates.rows) = some c ∧
        answers.updateCert c.serial = .ok ())
    (hscan : scanAll times now revokeSerial answers s = .error e t) : t.dirty = true := by
  cases hcerts : answers.certs with
  | error e' =>
    have hdirty : s.dirty = true := h.resolve_right fun hok => by
      rw [hcerts] at hok
      cases hok.1
    unfold scanAll at hscan
    rw [hcerts] at hscan
    cases hscan
    exact hdirty
  | ok _ =>
    have hturns : (finalState (scanTurns times now revokeSerial answers s.tables.certificates.rows
        (s.begun times now revokeSerial))).dirty = true := by
      unfold scanTurns
      rcases h with hdirty | ⟨-, c, hfirst, hanswer⟩
      · exact ((Moves.forM (scanCert_keepsFlag _) _).keep (P := fun s => s.dirty = true)
          fun _ _ hs hst => hst hs).final hdirty
      · exact scanCerts_flag (s := s.begun times now revokeSerial)
          (selectCerts_serials_nodup s.tables.certificates)
          (fun c hc => mem_selectCerts.mp hc) hfirst hanswer
    obtain ⟨changed, heq⟩ := @scanAll_eq times now revokeSerial answers s hcerts
    rw [heq] at hscan
    cases hresult : scanTurns times now revokeSerial answers s.tables.certificates.rows
        (s.begun times now revokeSerial) with
    | error e' u =>
      rw [hresult] at hturns
      rw [bind_of_error hresult] at hscan
      cases hscan
      exact hturns
    | ok a u =>
      rw [hresult] at hturns
      rw [bind_of_ok hresult] at hscan
      exact (scanEnd_keepsFlag s.tables.externals changed).error hturns hscan

/-- A scan none of whose statements fails is completed. -/
theorem scanAll_ok (h : answers.AllOk times now revokeSerial s.tables) :
    ∃ changed t, scanAll times now revokeSerial answers s = .ok changed t := by
  obtain ⟨u, hturns⟩ := @scanCerts_ok times now revokeSerial answers
    (s.begun times now revokeSerial)
    (currentSerials times now revokeSerial (selectCerts s.tables.certificates.rows)) _
    (selectCerts_serials_nodup s.tables.certificates) (fun c hc => mem_selectCerts.mp hc)
    fun c hc => h.updateCert c (mem_selectCerts.mp hc)
  have hexternals : u.tables.externals = s.tables.externals := by
    have hclassified := of_scanCerts (s := s.begun times now revokeSerial)
      (selectCerts_serials_nodup s.tables.certificates)
      (fun c hc => mem_selectCerts.mp hc) hturns
    rw [hclassified.tables]
    rfl
  obtain ⟨v, hrest⟩ := @scanExternals_ok times now answers u s.tables.externals
    (fun c hc => hexternals ▸ List.mem_map_of_mem hc) h.updateExternal
  obtain ⟨changed, heq⟩ := @scanAll_eq times now revokeSerial answers s h.certs
  refine ⟨changed, { v with dirty := false }, ?_⟩
  rw [heq, bind_of_ok (m := scanTurns times now revokeSerial answers _) hturns]
  unfold scanEnd
  rw [h.externals]
  exact (bind_of_ok (a := ()) rfl).trans (bind_of_ok hrest)

/-! ## The invariant -/

/-- If nothing changed since the last scan, rows and sets are as it left them. -/
structure ScanInv (times : OpensslTimes) (s : ScanHistory) : Prop where
  keyed : s.db.tables.ExternalsKeyed
  clean : s.db.dirty = false → ∃ last, s.lastScan = some last ∧ Classified times last s.db

theorem Classified.of_same {last : Time} (h : Classified times last s)
    (hcertificates : t.tables.certificates = s.tables.certificates)
    (hexternals : t.tables.externals = s.tables.externals) (hsets : t.sets = s.sets) :
    Classified times last t where
  sets := by rw [hsets, h.sets, hcertificates, hexternals]
  tables := by
    have hrows := congrArg Tables.certificates h.tables
    have hmapped := congrArg Tables.externals h.tables
    unfold tablesOf at hrows hmapped ⊢
    simp only at hrows hmapped
    rw [← hcertificates] at hrows
    rw [← hexternals] at hmapped
    rw [hrows, hmapped]

/-- A statement that is flagged. -/
theorem scanInv_of_flags {h : ScanHistory} {m : DbM Unit} {answer : Except OpcaError Unit}
    (hinv : ScanInv times h) (hflags : Flags m) :
    ScanInv times { h with
      db := finalState ((do outcome answer; scannedPart.lift m : ScanM Unit) h.db) } := by
  cases answer with
  | error e => exact hinv
  | ok _ =>
    show ScanInv times { h with db := finalState (scannedPart.lift m h.db) }
    cases hm : scannedPart.lift m h.db with
    | error e t =>
      obtain ⟨db, hdb, rfl⟩ := Part.of_lift_error hm
      rw [hflags.error hdb]
      exact hinv
    | ok a t =>
      obtain ⟨db, hdb, rfl⟩ := Part.of_lift_ok hm
      obtain ⟨hkeyed, hrows⟩ := hflags.ok hdb
      have hrevoked := hflags.sets hdb
      refine ⟨hkeyed hinv.keyed, fun hdirty => ?_⟩
      rcases hrows with hset | ⟨hsame, hcertificates, hexternals⟩
      · exact absurd (hset.symm.trans hdirty) (by decide)
      · obtain ⟨last, hlast, hclassified⟩ := hinv.clean (hsame.symm.trans hdirty)
        refine ⟨last, hlast, hclassified.of_same hcertificates hexternals ?_⟩
        show { h.db.sets with certsRevoked := db.certsRevoked } = h.db.sets
        rw [hrevoked]
        rfl

theorem fileExternal_congr {c c' : ExternalCertRecord} (sets : StatusSets)
    (hserial : c'.serial = c.serial) (hexpiry : c'.expiryDate = c.expiryDate) :
    sets.fileExternal times now c' = sets.fileExternal times now c := by
  unfold StatusSets.fileExternal
  rw [hserial, hexpiry]

theorem processExternal_eq_self {c : ExternalCertRecord} : processExternal times now c = c ↔
    ∀ expiry, expiryOf times c.expiryDate = some expiry → expiry < now →
      c.status = some "Expired" := by
  unfold processExternal
  cases expiryOf times c.expiryDate with
  | none => simp
  | some expiry =>
    by_cases hlt : expiry < now
    · simp only [if_pos hlt]
      constructor
      · intro h _ _ _
        rw [← h]
      · intro h
        rw [← h expiry rfl hlt]
    · simp only [if_neg hlt]
      refine ⟨fun _ expiry' heq hlt' => ?_, fun _ => trivial⟩
      cases heq
      exact absurd hlt' hlt

/-- An update that says the same of the expiry leaves rows and sets right. -/
theorem Classified.updateExternal {last : Time} {record : ExternalCertRecord}
    (h : Classified times last s) (hkeeps : KeepsExternal s record)
    (hcertificates : t.tables.certificates = s.tables.certificates)
    (hexternals : t.tables.externals = s.tables.externals.map fun c =>
      if c.serial = record.serial then record else c)
    (hsets : t.sets = s.sets) : Classified times last t := by
  have hsame : setsOf times last none t.tables.certificates.rows t.tables.externals =
      setsOf times last none s.tables.certificates.rows s.tables.externals := by
    rw [hcertificates, hexternals]
    unfold setsOf
    rw [List.foldl_map]
    refine List.foldl_ext _ _ _ fun sets c hc => ?_
    split
    next hserial => exact fileExternal_congr sets hserial.symm (hkeeps c hc hserial).1.symm
    next => rfl
  have hprocessed : t.tables.externals.map (processExternal times last) =
      t.tables.externals := by
    refine (List.map_congr_left fun c' hc' => ?_).trans (List.map_id' _)
    rw [hexternals] at hc'
    obtain ⟨c, hc, rfl⟩ := List.mem_map.mp hc'
    have hfixed := eq_of_map_eq h.externals_eq c hc
    split
    next hserial =>
      obtain ⟨hexpiry, hstatus⟩ := hkeeps c hc hserial
      refine processExternal_eq_self.mpr fun expiry heq hlt => ?_
      rw [← hstatus]
      exact processExternal_eq_self.mp hfixed expiry (hexpiry ▸ heq) hlt
    next => exact hfixed
  refine ⟨hsets.trans (h.sets.trans hsame.symm), ?_⟩
  have hrows : t.tables.certificates.map (processCert times last none) (by simp) =
      t.tables.certificates := by
    rw [hcertificates]
    exact congrArg Tables.certificates h.tables
  unfold tablesOf
  rw [hrows, hprocessed]

/-- The externals keep their serials. -/
def KeepsSerials (s t : ScannedDb) : Prop :=
  t.tables.externals.map ExternalCertRecord.serial =
    s.tables.externals.map ExternalCertRecord.serial

instance : Std.Refl KeepsSerials := ⟨fun _ => rfl⟩
instance : IsTrans ScannedDb KeepsSerials := ⟨fun _ _ _ hab hbc => hbc.trans hab⟩

theorem updateExternalCert_keepsSerials (record : ExternalCertRecord) :
    Moves KeepsSerials (scannedPart.lift (updateExternalCert record)) := by
  refine .of_step ?_ ?_
  · intro s a t h
    obtain ⟨db, hdb, rfl⟩ := Part.of_lift_ok h
    obtain ⟨externals, rfl, rfl⟩ := of_updateExternalCert hdb
    show List.map _ (List.map _ _) = _
    rw [List.map_map]
    refine List.map_congr_left fun row _ => ?_
    simp only [Function.comp_apply]
    split
    next h => exact h.symm
    next => rfl
  · intro s e t h
    obtain ⟨db, hdb, rfl⟩ := Part.of_lift_error h
    rw [updateExternalCert_error hdb]
    rfl

theorem scanAll_keepsSerials : Moves KeepsSerials (scanAll times now revokeSerial answers) := by
  have hmodify {f : ScannedDb → ScannedDb}
      (hf : ∀ s, (f s).tables.externals = s.tables.externals) :
      Moves KeepsSerials (modify f : ScanM PUnit) :=
    .modify fun s => congrArg (List.map ExternalCertRecord.serial) (hf s)
  have hcert (current : String → Option String) (c : CertRecord) :
      Moves KeepsSerials (scanCert times now revokeSerial answers current c) := by
    refine (hmodify (by intro; rfl)).bind fun _ => ?_
    split
    · exact .pure
    · refine Moves.outcome.bind fun _ => .of_step ?_ ?_
      · intro s a t h
        obtain ⟨db, hdb, rfl⟩ := Part.of_lift_ok h
        obtain ⟨certificates, rfl, -⟩ := of_updateCert hdb
        rfl
      · intro s e t h
        obtain ⟨db, hdb, rfl⟩ := Part.of_lift_error h
        rw [(updateCert_flags _).error hdb]
        rfl
  have hexternal (c : ExternalCertRecord) :
      Moves KeepsSerials (scanExternal times now answers c) := by
    refine (hmodify (by intro; rfl)).bind fun _ => ?_
    split
    · exact .pure
    · exact Moves.outcome.bind fun _ => updateExternalCert_keepsSerials _
  refine (hmodify (by intro; rfl)).bind fun _ => Moves.outcome.bind fun _ => ?_
  refine Moves.get.bind fun s => (hmodify (by intro; rfl)).bind fun _ => ?_
  refine (Moves.forM (hcert _) _).bind fun _ => Moves.outcome.bind fun _ => ?_
  exact (Moves.forM hexternal _).bind fun _ => (hmodify (by intro; rfl)).bind fun _ => .pure

/-- A scan is skipped, or it is the whole one. -/
theorem classify_eq (times : OpensslTimes) (now : Time) (revokeSerial : Option String)
    (force : Bool) (answers : ScanAnswers) (s : ScannedDb) :
    classify times now revokeSerial force answers s =
      if s.skips revokeSerial force then .ok false s
      else scanAll times now revokeSerial answers s := by
  show (if s.skips revokeSerial force = true then (pure false : ScanM Bool)
    else scanAll times now revokeSerial answers) s = _
  split <;> rfl

/-- One step. -/
theorem scanInv_step {h : ScanHistory} {step : ScanStep} (hinv : ScanInv times h)
    (hfits : step.Fits times h) : ScanInv times (step.run times h) := by
  cases step with
  | statement op answer =>
    by_cases hexternal : ∃ record, op = .updateExternalCert record
    · obtain ⟨record, rfl⟩ := hexternal
      cases answer with
      | error e => exact hinv
      | ok _ =>
        show ScanInv times { h with
          db := finalState (scannedPart.lift (updateExternalCert record) h.db) }
        cases hm : scannedPart.lift (updateExternalCert record) h.db with
        | error e t =>
          obtain ⟨db, hdb, rfl⟩ := Part.of_lift_error hm
          rw [updateExternalCert_error hdb]
          exact hinv
        | ok a t =>
          have hserials := (updateExternalCert_keepsSerials record h.db).ok
            (Std.Refl.refl h.db) hm
          obtain ⟨db, hdb, rfl⟩ := Part.of_lift_ok hm
          obtain ⟨externals, rfl, hexternals⟩ := of_updateExternalCert hdb
          refine ⟨?_, fun hdirty => ?_⟩
          · unfold Tables.ExternalsKeyed
            exact hserials ▸ hinv.keyed
          · obtain ⟨last, hlast, hclassified⟩ := hinv.clean hdirty
            refine ⟨last, hlast, hclassified.updateExternal (hfits.resolve_left fun hset => ?_)
              rfl hexternals rfl⟩
            exact absurd (hset.symm.trans hdirty) (by decide)
    · exact scanInv_of_flags hinv
        (statement_flags op fun record heq => hexternal ⟨record, heq⟩)
  | scan now revokeSerial force answers =>
    unfold ScanStep.run
    simp only [classify_eq]
    by_cases hskips : h.db.skips revokeSerial force = true
    · rw [if_pos hskips]
      simp only [if_pos hskips]
      exact hinv
    · rw [if_neg hskips]
      have hfits := hfits.resolve_left hskips
      cases hscan : scanAll times now revokeSerial answers h.db with
      | ok changed t =>
        simp only [if_neg hskips]
        obtain ⟨rfl, -⟩ := of_scanAll hinv.keyed hscan
        exact ⟨tablesOf_keyed h.db.tables hinv.keyed,
          fun _ => ⟨now, rfl, classified_of_scan times now revokeSerial h.db⟩⟩
      | error e t =>
        have hserials := (scanAll_keepsSerials h.db).error (Std.Refl.refl h.db) hscan
        refine ⟨?_, fun hdirty => ?_⟩
        · unfold Tables.ExternalsKeyed
          exact hserials ▸ hinv.keyed
        · have hset : t.dirty = true := by
            rcases hfits with hset | hall | hfirst
            · exact scanAll_error_dirty (.inl hset) hscan
            · obtain ⟨changed, u, hok⟩ := scanAll_ok hall
              rw [hok] at hscan
              cases hscan
            · exact scanAll_error_dirty (.inr hfirst) hscan
          exact absurd (hset.symm.trans hdirty) (by decide)

theorem scanInv : ((scanMachine times).system.restrict (ScanStep.Fits times · ·)).Invariant
    (ScanInv times) where
  init h := ⟨h.2.2, fun hdirty => absurd (h.1.symm.trans hdirty) (by decide)⟩
  step hinv hstep := by
    obtain ⟨hfits, hnext⟩ := hstep
    cases hnext
    exact scanInv_step hinv hfits

/-! ## Time that passes -/

/-- Two instants see an expiry from the same side, and the boundaries before it. -/
structure SameSide (times : OpensslTimes) (last now : Time) (expiryDate : Option String) :
    Prop where
  expired : ∀ expiry, expiryOf times expiryDate = some expiry → (expiry < last ↔ expiry < now)
  warning : ∀ expiry, expiryOf times expiryDate = some expiry →
    (expiry < warningBoundary last ↔ expiry < warningBoundary now)
  caution : ∀ expiry, expiryOf times expiryDate = some expiry →
    (expiry < cautionBoundary last ↔ expiry < cautionBoundary now)

/-- No certificate crossed a boundary. -/
structure NoneCrossed (times : OpensslTimes) (last now : Time) (tables : Tables) : Prop where
  certificates : ∀ c ∈ tables.certificates.rows, SameSide times last now c.expiryDate
  externals : ∀ c ∈ tables.externals, SameSide times last now c.expiryDate

theorem processCert_congr {last : Time} {c : CertRecord}
    (h : SameSide times last now c.expiryDate) :
    processCert times now none c = processCert times last none c := by
  unfold processCert
  cases hexpiry : expiryOf times c.expiryDate with
  | none => rfl
  | some expiry =>
    simp only [h.expired expiry hexpiry, isRevoking_none, Bool.false_eq_true, if_false]

theorem replacementCn_congr {last : Time} {c : CertRecord}
    (h : SameSide times last now c.expiryDate) :
    replacementCn times now none c = replacementCn times last none c := by
  unfold replacementCn
  cases hexpiry : expiryOf times c.expiryDate with
  | none => rfl
  | some expiry => simp only [h.expired expiry hexpiry]

theorem file_congr {last : Time} {c : CertRecord} (current : String → Option String)
    (sets : StatusSets) (h : SameSide times last now c.expiryDate) :
    sets.file times now none current c = sets.file times last none current c := by
  unfold StatusSets.file StatusSets.place
  cases hexpiry : expiryOf times c.expiryDate with
  | none => rfl
  | some expiry =>
    simp only [h.expired expiry hexpiry, h.warning expiry hexpiry, h.caution expiry hexpiry]

theorem fileExternal_congr_now {last : Time} {c : ExternalCertRecord} (sets : StatusSets)
    (h : SameSide times last now c.expiryDate) :
    sets.fileExternal times now c = sets.fileExternal times last c := by
  unfold StatusSets.fileExternal
  cases hexpiry : expiryOf times c.expiryDate with
  | none => rfl
  | some expiry =>
    simp only [h.expired expiry hexpiry, h.warning expiry hexpiry, h.caution expiry hexpiry]

theorem processExternal_congr {last : Time} {c : ExternalCertRecord}
    (h : SameSide times last now c.expiryDate) :
    processExternal times now c = processExternal times last c := by
  unfold processExternal
  cases hexpiry : expiryOf times c.expiryDate with
  | none => rfl
  | some expiry => simp only [h.expired expiry hexpiry]

theorem setsOf_congr {last : Time} {tables : Tables}
    (h : NoneCrossed times last now tables) :
    setsOf times now none tables.certificates.rows tables.externals =
      setsOf times last none tables.certificates.rows tables.externals := by
  have hcurrent : currentSerials times now none (selectCerts tables.certificates.rows) =
      currentSerials times last none (selectCerts tables.certificates.rows) := by
    unfold currentSerials
    refine List.foldl_ext _ _ _ fun current c hc => ?_
    unfold addReplacement
    rw [replacementCn_congr (h.certificates c (mem_selectCerts.mp hc))]
  have hrows := List.foldl_ext
    (StatusSets.file times now none
      (currentSerials times last none (selectCerts tables.certificates.rows)))
    (StatusSets.file times last none
      (currentSerials times last none (selectCerts tables.certificates.rows)))
    { validCnToSerial := currentSerials times last none (selectCerts tables.certificates.rows) }
    (l := selectCerts tables.certificates.rows)
    fun sets c hc => file_congr _ sets (h.certificates c (mem_selectCerts.mp hc))
  unfold setsOf
  rw [hcurrent, hrows]
  exact List.foldl_ext _ _ _ fun sets c hc => fileExternal_congr_now sets (h.externals c hc)

/-- What is up to date stays so until a boundary is crossed. -/
theorem Classified.later {last : Time} (h : Classified times last s)
    (hcrossed : NoneCrossed times last now s.tables) : Classified times now s := by
  refine ⟨h.sets.trans (setsOf_congr hcrossed).symm, ?_⟩
  have hrows : s.tables.certificates.map (processCert times now none) (by simp) =
      s.tables.certificates := by
    refine CaCertificates.ext (Eq.trans (List.map_congr_left fun c hc => ?_) h.rows_eq)
    exact processCert_congr (hcrossed.certificates c hc)
  have hexternals : s.tables.externals.map (processExternal times now) = s.tables.externals := by
    refine Eq.trans (List.map_congr_left fun c hc => ?_) h.externals_eq
    exact processExternal_congr (hcrossed.externals c hc)
  unfold tablesOf
  rw [hrows, hexternals]

/-! ## The skipped scan -/

/-- Wherever no certificate crossed a boundary since the last completed scan, a scan that
may be skipped leaves what the whole one leaves. -/
def SkipsRight (times : OpensslTimes) (h : ScanHistory) : Prop :=
  ∀ now, (∀ last ∈ h.lastScan, NoneCrossed times last now h.db.tables) →
    ∀ answers changed t, classify times now none true answers h.db = .ok changed t →
      ∃ changed', classify times now none false answers h.db = .ok changed' t

theorem ScanInv.skipsRight {h : ScanHistory} (hinv : ScanInv times h) : SkipsRight times h := by
  intro now hcrossed answers changed t hfull
  rw [classify_eq] at hfull ⊢
  have hwhole : h.db.skips none true = false := by simp [ScannedDb.skips]
  rw [if_neg (by simp [hwhole])] at hfull
  by_cases hskips : h.db.skips none false = true
  · have hdirty : h.db.dirty = false := by simpa [ScannedDb.skips] using hskips
    obtain ⟨last, hlast, hclassified⟩ := hinv.clean hdirty
    have hnow := hclassified.later (hcrossed last hlast)
    obtain ⟨rfl, -⟩ := of_scanAll hinv.keyed hfull
    refine ⟨false, ?_⟩
    rw [if_pos hskips, hnow.tables, ← hnow.sets, ← hdirty]
  · rw [if_neg hskips]
    exact ⟨changed, hfull⟩

/-- In every run whose scans fail, if they do, only where the flag is set by then. -/
theorem skipsRight_of_fits {h : ScanHistory}
    (hreach : ((scanMachine times).system.restrict (ScanStep.Fits times · ·)).Reachable h) :
    SkipsRight times h :=
  (scanInv.reachable hreach).skipsRight

/-! ## A scan that fails too soon -/

/-- A database that is opened, with one certificate that is valid. -/
def openedDb : ScanHistory where
  db :=
    { tables := sampledTables [sampledRow "2" "Valid" "20500101000000Z"] (by decide)
      dirty := true
      sets := {}
      given := [] }
  lastScan := none

theorem init_openedDb : (scanMachine sampledTimes).init openedDb :=
  ⟨rfl, rfl, List.nodup_nil⟩

theorem reachable_run {h : ScanHistory} (l : ScanStep)
    (hreach : ((scanMachine times).system.restrict (ScanStep.Fits times · ·)).Reachable h)
    (hfits : ScanStep.Fits times h l) :
    ((scanMachine times).system.restrict (ScanStep.Fits times · ·)).Reachable
      (l.run times h) := .step hreach ⟨hfits, rfl⟩

/-- A certificate is added, a scan fails on its first statement while the flag is set, and
another one after it has written the row that it revokes; the next finds both. -/
theorem skipsRight_of_fits_failing : ∃ h, h.db.sets.certsValid = ["2"] ∧
    h.db.sets.certsRevoked = ["3"] ∧ SkipsRight sampledTimes h := by
  have hopened : ((scanMachine sampledTimes).system.restrict
      (ScanStep.Fits sampledTimes · ·)).Reachable openedDb := .init init_openedDb
  have hscanned := reachable_run (.scan sampledNow none false {}) hopened (.inr (.inl rfl))
  have hadded := reachable_run
    (.statement (.addCert (sampledRow "3" "Valid" "20500101000000Z")) (.ok ())) hscanned trivial
  have hfailed := reachable_run
    (.scan sampledNow none true { certs := .error (.database "disk I/O error") }) hadded
    (.inr (.inl rfl))
  have hfilled := reachable_run (.scan sampledNow none false {}) hfailed (.inr (.inl rfl))
  have hrevoked := reachable_run
    (.scan sampledNow (some "3") false { externals := .error (.database "disk I/O error") })
    hfilled (.inr (.inr (.inr ⟨rfl, _, rfl, rfl⟩)))
  have hlast := reachable_run (.scan sampledNow none false {}) hrevoked (.inr (.inl rfl))
  exact ⟨_, rfl, rfl, skipsRight_of_fits hlast⟩

/-- A second scan, which is forced, clears the sets and fails on its first statement; the
next is skipped. -/
def clearedDb : ScanHistory :=
  ScanStep.run sampledTimes (ScanStep.run sampledTimes openedDb (.scan sampledNow none false {}))
    (.scan sampledNow none true { certs := .error (.database "disk I/O error") })

theorem cleared_and_skipped : (scanMachine sampledTimes).system.Reachable clearedDb ∧
    ¬ SkipsRight sampledTimes clearedDb := by
  refine ⟨.step (.step (.init init_openedDb) rfl) rfl, fun hright => ?_⟩
  have hcrossed : ∀ last ∈ clearedDb.lastScan,
      NoneCrossed sampledTimes last sampledNow clearedDb.db.tables := by
    intro last hlast
    obtain rfl : sampledNow = last := Option.some.inj hlast
    exact ⟨fun _ _ => ⟨fun _ _ => Iff.rfl, fun _ _ => Iff.rfl, fun _ _ => Iff.rfl⟩,
      fun _ _ => ⟨fun _ _ => Iff.rfl, fun _ _ => Iff.rfl, fun _ _ => Iff.rfl⟩⟩
  obtain ⟨changed, hskipped⟩ := hright sampledNow hcrossed {} false _ rfl
  have hvalid : ([] : List String) = ["2"] :=
    congrArg (fun r => (finalState r).sets.certsValid) hskipped
  cases hvalid

end Opca.Core

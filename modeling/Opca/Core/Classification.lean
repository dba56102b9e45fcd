/-
  Core/Classification.lean --- the whole scan of the CA database: every set that it sorts
  the certificates into, with each of its statements as it may fail
  (`services/database/mod.rs`).

  A set is the list of what was put into it, and a map the function that looks a key up.
-/
import Opca.Core.Authority
import Opca.Foundation.Part
import Mathlib.Logic.Function.Basic

set_option autoImplicit false

namespace Opca.Core

open Opca.Foundation Acme

/-! ## The sets -/

structure StatusSets where
  certsExpired : List String := []
  certsExpiresSoon : List String := []
  certsExpiresWarning : List String := []
  certsRevoked : List String := []
  certsValid : List String := []
  /-- An overlay: a certificate here is in its true set too. -/
  certsIgnored : List String := []
  certsSuperseded : List String := []
  replacements : String → Option String := fun _ => none
  validCnToSerial : String → Option String := fun _ => none
  extCertsExpired : List String := []
  extCertsExpiresSoon : List String := []
  extCertsExpiresWarning : List String := []
  extCertsValid : List String := []

/-- The database in memory, with all that its last scan left. -/
structure ScannedDb where
  tables : Tables
  dirty : Bool
  sets : StatusSets
  given : List Given

abbrev ScanM := EStateM OpcaError ScannedDb

/-- The database, of which only the revoked certificates are kept from a scan. -/
def scannedPart : Part ScannedDb CaDatabase where
  get s := ⟨s.tables, s.dirty, s.sets.certsRevoked, s.given⟩
  set db s := ⟨db.tables, db.dirty, { s.sets with certsRevoked := db.certsRevoked }, db.given⟩
  get_set _ _ := rfl
  set_set _ _ _ := rfl

def expiryWarningDays : Int := 30
def expiryCautionDays : Int := 183

def warningBoundary (now : Time) : Time := now + expiryWarningDays * day
def cautionBoundary (now : Time) : Time := now + expiryCautionDays * day

/-! ## Reading and writing rows -/

def updateCert (record : CertRecord) : DbM Unit :=
  updateCerts (·.serial = record.serial) (fun c => { record with serial := c.serial })
    (fun _ => rfl) (noCertificate record.serial)

/-- It leaves the flag as it is. -/
def updateExternalCert (record : ExternalCertRecord) : DbM Unit := fun db =>
  if db.tables.externals.any (·.serial = record.serial) then
    .ok () { db with tables := { db.tables with
      externals := db.tables.externals.map fun c =>
        if c.serial = record.serial then record else c } }
  else
    .error (.database
      s!"No external certificate found with serial number {record.serial}.") db

/-! ## The first pass -/

section Passes

variable (times : OpensslTimes) (now : Time) (revokeSerial : Option String)

/-- The CN that a row is a replacement for: not expired, not revoked, not ignored, not
about to be revoked. -/
def replacementCn (c : CertRecord) : Option String :=
  if c.ignoredAt.isSome then none
  else if revokeSerial = some c.serial then none
  else
    match expiryOf times c.expiryDate with
    | none => none
    | some expiry =>
      if expiry < now then none
      else if c.isRevoked then none
      else c.cn.filter (· ≠ "")

/-- Prefer higher serial as the canonical replacement for display. -/
def preferSerial (cn serial : String) (current : String → Option String) :
    String → Option String :=
  if ((current cn).bind parseI64).getD (-2 ^ 63) < (parseI64 serial).getD 0 then
    Function.update current cn (some serial)
  else current

def addReplacement (current : String → Option String) (c : CertRecord) :
    String → Option String :=
  match replacementCn times now revokeSerial c with
  | none => current
  | some cn => preferSerial cn c.serial current

/-- The serial of the current certificate of each CN. -/
def currentSerials (certs : List CertRecord) : String → Option String :=
  certs.foldl (addReplacement times now revokeSerial) fun _ => none

/-! ## The second pass -/

def StatusSets.ignore (sets : StatusSets) (c : CertRecord) : StatusSets :=
  if c.ignoredAt.isSome then { sets with certsIgnored := sets.certsIgnored ++ [c.serial] }
  else sets

/-- The set of a row that expires then, whatever else is said of it. -/
def StatusSets.place (sets : StatusSets) (current : String → Option String) (expiry : Time)
    (c : CertRecord) : StatusSets :=
  if expiry < now then
    match c.cn.bind current with
    | some replacement =>
      { sets with
        certsSuperseded := sets.certsSuperseded ++ [c.serial]
        replacements := Function.update sets.replacements c.serial (some replacement) }
    | none => { sets with certsExpired := sets.certsExpired ++ [c.serial] }
  else if c.isRevoked || c.isRevoking revokeSerial then
    { sets with certsRevoked := sets.certsRevoked ++ [c.serial] }
  else if expiry < warningBoundary now then
    { sets with
      certsExpiresSoon := sets.certsExpiresSoon ++ [c.serial]
      certsExpiresWarning := sets.certsExpiresWarning ++ [c.serial] }
  else if expiry < cautionBoundary now then
    { sets with certsExpiresWarning := sets.certsExpiresWarning ++ [c.serial] }
  else { sets with certsValid := sets.certsValid ++ [c.serial] }

/-- A row is classified by its true state, ignored or not. -/
def StatusSets.file (current : String → Option String) (sets : StatusSets) (c : CertRecord) :
    StatusSets :=
  match expiryOf times c.expiryDate with
  | none => sets
  | some expiry => (sets.ignore c).place now revokeSerial current expiry c

def StatusSets.fileExternal (sets : StatusSets) (c : ExternalCertRecord) : StatusSets :=
  match expiryOf times c.expiryDate with
  | none => sets
  | some expiry =>
    if expiry < now then { sets with extCertsExpired := sets.extCertsExpired ++ [c.serial] }
    else if expiry < warningBoundary now then
      { sets with
        extCertsExpiresSoon := sets.extCertsExpiresSoon ++ [c.serial]
        extCertsExpiresWarning := sets.extCertsExpiresWarning ++ [c.serial] }
    else if expiry < cautionBoundary now then
      { sets with extCertsExpiresWarning := sets.extCertsExpiresWarning ++ [c.serial] }
    else { sets with extCertsValid := sets.extCertsValid ++ [c.serial] }

/-! ## The scan -/

/-- What SQLite answers to the statements of a scan. -/
structure ScanAnswers where
  certs : Except OpcaError Unit := .ok ()
  updateCert : String → Except OpcaError Unit := fun _ => .ok ()
  externals : Except OpcaError Unit := .ok ()
  updateExternal : String → Except OpcaError Unit := fun _ => .ok ()

/-- A row is put into its sets, and written if the scan changes it. -/
def scanCert (answers : ScanAnswers) (current : String → Option String) (c : CertRecord) :
    ScanM Unit := do
  modify fun s => { s with sets := s.sets.file times now revokeSerial current c }
  if processCert times now revokeSerial c = c then return
  else do
    outcome (answers.updateCert c.serial)
    scannedPart.lift (updateCert (processCert times now revokeSerial c))

def scanExternal (answers : ScanAnswers) (c : ExternalCertRecord) : ScanM Unit := do
  modify fun s => { s with sets := s.sets.fileExternal times now c }
  if processExternal times now c = c then return
  else do
    outcome (answers.updateExternal c.serial)
    scannedPart.lift (updateExternalCert (processExternal times now c))

/-- All sets are cleared before anything is read. -/
def scanAll (answers : ScanAnswers) : ScanM Bool := do
  modify fun s => { s with sets := {} }
  outcome answers.certs
  let s ← get
  let certs := selectCerts s.tables.certificates.rows
  let current := currentSerials times now revokeSerial certs
  modify fun s => { s with sets := { s.sets with validCnToSerial := current } }
  certs.forM (scanCert times now revokeSerial answers current)
  outcome answers.externals
  s.tables.externals.forM (scanExternal times now answers)
  modify fun s => { s with dirty := false }
  return certs.any (fun c => processCert times now revokeSerial c ≠ c) ||
    s.tables.externals.any (fun c => processExternal times now c ≠ c)

/-- `process_ca_database`, which does nothing where nothing changed since the last scan. -/
def classify (force : Bool) (answers : ScanAnswers) : ScanM Bool := do
  let s ← get
  if !s.dirty && revokeSerial.isNone && !force then return false
  else scanAll times now revokeSerial answers

/-! ## What a scan leaves -/

/-- The sets of rows. -/
def setsOf (rows : List CertRecord) (externals : List ExternalCertRecord) : StatusSets :=
  externals.foldl (StatusSets.fileExternal times now)
    ((selectCerts rows).foldl
      (StatusSets.file times now revokeSerial
        (currentSerials times now revokeSerial (selectCerts rows)))
      { validCnToSerial := currentSerials times now revokeSerial (selectCerts rows) })

/-- The tables after a scan. -/
def tablesOf (tables : Tables) : Tables :=
  { tables with
    certificates := tables.certificates.map (processCert times now revokeSerial)
      (processCert_serial times now revokeSerial)
    externals := tables.externals.map (processExternal times now) }

end Passes

variable {times : OpensslTimes} {now : Time} {revokeSerial : Option String}
  {answers : ScanAnswers} {s t : ScannedDb}

theorem selectCerts_serials_nodup (certificates : CaCertificates) :
    ((selectCerts certificates.rows).map CertRecord.serial).Nodup :=
  ((List.perm_insertionSort _ certificates.rows).map _).nodup_iff.mpr
    certificates.serials_nodup

theorem CaCertificates.ext {a b : CaCertificates} (h : a.rows = b.rows) : a = b := by
  cases a
  cases b
  cases h
  rfl

/-- Writing a row that is there. -/
theorem of_updateCert {record : CertRecord} {db db' : CaDatabase} {a : Unit}
    (h : updateCert record db = .ok a db') :
    ∃ certificates, db' = { db with dirty := true, tables := { db.tables with certificates } } ∧
      certificates.rows = db.tables.certificates.rows.map fun c =>
        if c.serial = record.serial then record else c := by
  unfold updateCert updateCerts at h
  split at h
  · cases h
    refine ⟨_, rfl, List.map_congr_left fun c _ => ?_⟩
    by_cases hserial : c.serial = record.serial
    · simp [hserial]
    · simp [hserial]
  · cases h

theorem of_updateExternalCert {record : ExternalCertRecord} {db db' : CaDatabase} {a : Unit}
    (h : updateExternalCert record db = .ok a db') :
    ∃ externals, db' = { db with tables := { db.tables with externals } } ∧
      externals = db.tables.externals.map fun c =>
        if c.serial = record.serial then record else c := by
  unfold updateExternalCert at h
  split at h
  · cases h
    exact ⟨_, rfl, rfl⟩
  · cases h

/-- What the turn of some rows does. -/
structure ScannedCerts (times : OpensslTimes) (now : Time) (revokeSerial : Option String)
    (current : String → Option String) (certs : List CertRecord) (s t : ScannedDb) : Prop where
  sets : t.sets = certs.foldl (StatusSets.file times now revokeSerial current) s.sets
  tables : t.tables = { s.tables with certificates := t.tables.certificates }
  rows : t.tables.certificates.rows = s.tables.certificates.rows.map fun row =>
    if row.serial ∈ certs.map CertRecord.serial then processCert times now revokeSerial row
    else row
  given : t.given = s.given

theorem of_scanCert {current : String → Option String} {c : CertRecord} {a : Unit}
    (hc : c ∈ s.tables.certificates.rows)
    (h : scanCert times now revokeSerial answers current c s = .ok a t) :
    ScannedCerts times now revokeSerial current [c] s t := by
  have hrow {row : CertRecord} (hrow : row ∈ s.tables.certificates.rows)
      (hserial : row.serial = c.serial) : row = c :=
    List.inj_on_of_nodup_map s.tables.certificates.serials_nodup hrow hc hserial
  obtain ⟨_, u, hmodify, hrest⟩ := of_bind_ok h
  cases hmodify
  split at hrest
  next hsame =>
    cases hrest
    refine ⟨rfl, rfl, ?_, rfl⟩
    exact (map_turn_same (fun row hmem hserial => hrow hmem hserial) hsame).symm
  next =>
    obtain ⟨_, v, hanswer, hwrite⟩ := of_bind_ok hrest
    obtain ⟨-, rfl⟩ := of_outcome_ok hanswer
    obtain ⟨db, hdb, rfl⟩ := Part.of_lift_ok hwrite
    obtain ⟨certificates, rfl, hrows⟩ := of_updateCert hdb
    refine ⟨rfl, rfl, hrows.trans (List.map_congr_left fun row hmem => ?_), rfl⟩
    rw [processCert_serial]
    by_cases hserial : row.serial = c.serial
    · simp [hrow hmem hserial]
    · simp [hserial]

/-- The turn of one row is not another's. -/
theorem of_scanCerts {current : String → Option String} {certs : List CertRecord} {a : Unit}
    (hnodup : (certs.map CertRecord.serial).Nodup)
    (hmem : ∀ c ∈ certs, c ∈ s.tables.certificates.rows)
    (h : certs.forM (scanCert times now revokeSerial answers current) s = .ok a t) :
    ScannedCerts times now revokeSerial current certs s t := by
  induction certs generalizing s with
  | nil =>
    cases h
    exact ⟨rfl, rfl, by simp, rfl⟩
  | cons c certs ih =>
    rw [List.map_cons, List.nodup_cons] at hnodup
    obtain ⟨_, u, hfirst, hrest⟩ := of_bind_ok (f := fun _ => certs.forM _) h
    have hu := of_scanCert (hmem c List.mem_cons_self) hfirst
    have ht := ih hnodup.2 (fun c' hc' => ?_) hrest
    · refine ⟨?_, ?_, ?_, ht.given.trans hu.given⟩
      · rw [ht.sets, hu.sets]
        rfl
      · rw [ht.tables, hu.tables]
      · rw [ht.rows, hu.rows]
        exact map_turns (processCert_serial times now revokeSerial) hnodup.1 _
    · rw [hu.rows]
      refine List.mem_map.mpr ⟨c', hmem c' (List.mem_cons_of_mem _ hc'), if_neg ?_⟩
      rw [List.map_singleton, List.mem_singleton]
      intro heq
      exact hnodup.1 (List.mem_map.mpr ⟨c', hc', heq⟩)

/-- What the turn of some rows of other CAs does. -/
structure ScannedExternals (times : OpensslTimes) (now : Time)
    (certs : List ExternalCertRecord) (s t : ScannedDb) : Prop where
  sets : t.sets = certs.foldl (StatusSets.fileExternal times now) s.sets
  tables : t.tables = { s.tables with externals := t.tables.externals }
  rows : t.tables.externals = s.tables.externals.map fun row =>
    if row.serial ∈ certs.map ExternalCertRecord.serial then processExternal times now row
    else row
  given : t.given = s.given

@[simp] theorem processExternal_serial (times : OpensslTimes) (now : Time)
    (c : ExternalCertRecord) : (processExternal times now c).serial = c.serial := by
  unfold processExternal
  split
  · rfl
  · split <;> rfl

/-- The primary key of `external_certificate`. -/
def Tables.ExternalsKeyed (tables : Tables) : Prop :=
  (tables.externals.map ExternalCertRecord.serial).Nodup

theorem of_scanExternal {c : ExternalCertRecord} {a : Unit}
    (hkeyed : s.tables.ExternalsKeyed) (hc : c ∈ s.tables.externals)
    (h : scanExternal times now answers c s = .ok a t) :
    ScannedExternals times now [c] s t := by
  have hrow {row : ExternalCertRecord} (hrow : row ∈ s.tables.externals)
      (hserial : row.serial = c.serial) : row = c :=
    List.inj_on_of_nodup_map hkeyed hrow hc hserial
  obtain ⟨_, u, hmodify, hrest⟩ := of_bind_ok h
  cases hmodify
  split at hrest
  next hsame =>
    cases hrest
    refine ⟨rfl, rfl, ?_, rfl⟩
    exact (map_turn_same (fun row hmem hserial => hrow hmem hserial) hsame).symm
  next =>
    obtain ⟨_, v, hanswer, hwrite⟩ := of_bind_ok hrest
    obtain ⟨-, rfl⟩ := of_outcome_ok hanswer
    obtain ⟨db, hdb, rfl⟩ := Part.of_lift_ok hwrite
    obtain ⟨externals, rfl, hrows⟩ := of_updateExternalCert hdb
    refine ⟨rfl, rfl, hrows.trans (List.map_congr_left fun row hmem => ?_), rfl⟩
    rw [processExternal_serial]
    by_cases hserial : row.serial = c.serial
    · simp [hrow hmem hserial]
    · simp [hserial]

theorem of_scanExternals {certs : List ExternalCertRecord} {a : Unit}
    (hkeyed : s.tables.ExternalsKeyed)
    (hnodup : (certs.map ExternalCertRecord.serial).Nodup)
    (hmem : ∀ c ∈ certs, c ∈ s.tables.externals)
    (h : certs.forM (scanExternal times now answers) s = .ok a t) :
    ScannedExternals times now certs s t := by
  induction certs generalizing s with
  | nil =>
    cases h
    exact ⟨rfl, rfl, by simp, rfl⟩
  | cons c certs ih =>
    rw [List.map_cons, List.nodup_cons] at hnodup
    obtain ⟨_, u, hfirst, hrest⟩ := of_bind_ok (f := fun _ => certs.forM _) h
    have hu := of_scanExternal hkeyed (hmem c List.mem_cons_self) hfirst
    have hserials : u.tables.externals.map ExternalCertRecord.serial =
        s.tables.externals.map ExternalCertRecord.serial := by
      rw [hu.rows, List.map_map]
      refine List.map_congr_left fun row _ => ?_
      simp only [Function.comp_apply]
      split
      · exact processExternal_serial times now row
      · rfl
    have hkeyed' : u.tables.ExternalsKeyed := by
      unfold Tables.ExternalsKeyed
      rw [hserials]
      exact hkeyed
    have ht := ih hkeyed' hnodup.2 (fun c' hc' => ?_) hrest
    · refine ⟨?_, ?_, ?_, ht.given.trans hu.given⟩
      · rw [ht.sets, hu.sets]
        rfl
      · rw [ht.tables, hu.tables]
      · rw [ht.rows, hu.rows]
        exact map_turns (processExternal_serial times now) hnodup.1 _
    · rw [hu.rows]
      refine List.mem_map.mpr ⟨c', hmem c' (List.mem_cons_of_mem _ hc'), if_neg ?_⟩
      rw [List.map_singleton, List.mem_singleton]
      intro heq
      exact hnodup.1 (List.mem_map.mpr ⟨c', hc', heq⟩)

/-- Where all rows have had their turn, each has been scanned. -/
theorem map_ite_mem {ρ : Type} {rows certs : List ρ} {serial : ρ → String} {f : ρ → ρ}
    (hall : ∀ row ∈ rows, row ∈ certs) :
    (rows.map fun row => if serial row ∈ certs.map serial then f row else row) = rows.map f :=
  List.map_congr_left fun row hrow => if_pos (List.mem_map_of_mem (hall row hrow))

/-- A scan that is completed. -/
theorem of_scanAll {changed : Bool} (hkeyed : s.tables.ExternalsKeyed)
    (h : scanAll times now revokeSerial answers s = .ok changed t) :
    t = ⟨tablesOf times now revokeSerial s.tables, false,
        setsOf times now revokeSerial s.tables.certificates.rows s.tables.externals, s.given⟩ ∧
      changed = (s.tables.certificates.rows.any
        (fun c => processCert times now revokeSerial c ≠ c) ||
        s.tables.externals.any fun c => processExternal times now c ≠ c) := by
  obtain ⟨_, u, hclear, h⟩ := of_bind_ok h
  cases hclear
  obtain ⟨_, u, hread, h⟩ := of_bind_ok h
  obtain ⟨-, rfl⟩ := of_outcome_ok hread
  obtain ⟨_, u, hget, h⟩ := of_bind_ok h
  cases hget
  obtain ⟨_, u, hcurrent, h⟩ := of_bind_ok h
  cases hcurrent
  obtain ⟨_, u, hcerts, h⟩ := of_bind_ok h
  obtain ⟨_, v, hread, h⟩ := of_bind_ok h
  obtain ⟨-, rfl⟩ := of_outcome_ok hread
  obtain ⟨_, v, hexternals, h⟩ := of_bind_ok h
  cases h
  have hu := of_scanCerts
    (s := { s with sets := {
      validCnToSerial :=
        currentSerials times now revokeSerial (selectCerts s.tables.certificates.rows) } })
    (selectCerts_serials_nodup s.tables.certificates)
    (fun c hc => mem_selectCerts.mp hc) hcerts
  have hsame : u.tables.externals = s.tables.externals := by rw [hu.tables]
  have hkeyed' : u.tables.ExternalsKeyed := by
    unfold Tables.ExternalsKeyed
    rw [hsame]
    exact hkeyed
  have hv := of_scanExternals hkeyed' hkeyed (fun c hc => hsame ▸ hc) hexternals
  have hcertificates : u.tables.certificates =
      s.tables.certificates.map (processCert times now revokeSerial) (by simp) :=
    CaCertificates.ext (hu.rows.trans (map_ite_mem fun _ hrow => mem_selectCerts.mpr hrow))
  have htables : v.tables = tablesOf times now revokeSerial s.tables := by
    rw [hv.tables, hv.rows, hsame, map_ite_mem fun _ hrow => hrow, hu.tables, hcertificates]
    rfl
  have hsets : v.sets = setsOf times now revokeSerial s.tables.certificates.rows
      s.tables.externals := by
    rw [hv.sets, hu.sets]
    rfl
  refine ⟨?_, ?_⟩
  · show ScannedDb.mk v.tables false v.sets v.given = _
    rw [htables, hsets, hv.given, hu.given]
  · exact congrArg (· || _) (List.perm_insertionSort serialLe _).any_eq

end Opca.Core

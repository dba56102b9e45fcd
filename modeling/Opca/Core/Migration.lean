/-
  Core/Migration.lean --- the stored database's tables from version to version
  (`services/database/schema.rs`).

  Indexes, which change no table, and the keys and defaults of columns that nothing here
  depends on are left out.
-/
import Opca.Foundation.Relational

set_option autoImplicit false

namespace Opca.Core.Migration

open Opca.Foundation Relational

def defaultSchemaVersion : Int := 21

def text (name : String) : Column := ⟨name, .text⟩
def integer (name : String) : Column := ⟨name, .integer⟩

/-! ## Tables -/

def createConfigTable : Change := .create "config"
  [integer "id", text "next_serial", text "next_crl_serial", text "org", text "ou",
    text "email", text "city", text "state", text "country", text "ca_url", text "crl_url",
    integer "days", integer "crl_days", integer "schema_version", text "ca_public_store",
    text "ca_private_store", text "ca_backup_store", text "ca_aws_region",
    integer "crl_batch_enabled", integer "openvpn_template_import", integer "web_server_days",
    integer "vpn_server_days", integer "vpn_client_days", integer "device_days"]

def createCaTable : Change := .create "certificate_authority"
  [text "serial", text "cn", text "title", text "status", text "expiry_date",
    text "revocation_date", text "subject", text "cert_type", text "not_before",
    text "key_type", integer "key_size", text "issuer", text "san", text "ignored_at",
    text "ignored_by", text "ignored_reason", text "ignored_note", integer "has_private_key",
    integer "has_chain", text "deleted_at", text "published_at"]

def createCsrTable : Change := .create "csr"
  [integer "id", text "cn", text "title", text "csr_type", text "email", text "subject",
    text "status", text "created_date", text "csr_pem"]

def createExternalCertTable : Change := .create "external_certificate"
  [text "serial", text "cn", text "title", text "status", text "expiry_date", text "subject",
    text "issuer", text "issuer_subject", text "import_date", text "cert_type",
    text "not_before", text "key_type", integer "key_size", text "san",
    integer "has_private_key", integer "has_chain"]

def createCrlMetadataTable : Change := .create "crl_metadata"
  [integer "id", text "issuer", text "last_update", text "next_update", integer "crl_number",
    integer "revoked_count", text "revoked_json"]

def createCrlBatchTable : Change := .create "crl_batch"
  [integer "id", text "t0", integer "period_days", integer "window_days", integer "count",
    integer "first_number"]

def createOpenvpnTemplateTable : Change := .create "openvpn_template"
  [integer "id", text "name", text "content", text "updated_date"]

def createDkimTable : Change := .create "dkim_key"
  [text "domain", text "selector", text "title", integer "key_size", text "created_at",
    integer "has_private_key", integer "has_public_key", integer "has_dns_record"]

def createOpenvpnProfileTable : Change := .create "openvpn_profile"
  [integer "id", text "cn", text "title", text "created_date", text "template", text "serial",
    integer "generated"]

def createBrokersTable : Change := .create "brokers"
  [integer "id", text "subordinate_serial", text "url", text "pinned_key",
    text "permitted_domains", text "state", text "last_contact", text "created_at",
    text "updated_at", text "issuer_state"]

def createBrokerCertsTable : Change := .create "broker_certs"
  [integer "broker_id", text "serial", text "common_name", text "sans", text "not_before",
    text "not_after", text "issuer_serial", text "revoked_at", integer "revocation_reason",
    integer "changed"]

/-- The tables of `CertificateAuthorityDB::new`. -/
def newTables : List Change :=
  [createConfigTable, createCaTable, createCsrTable, createExternalCertTable,
    createCrlMetadataTable, createCrlBatchTable, createOpenvpnTemplateTable,
    createOpenvpnProfileTable, createDkimTable, createBrokersTable, createBrokerCertsTable]

def newLayout : Layout := (layAll newTables []).getD []

/-! ## Migration -/

/-- Statements that are run together, and what is said if one of them is refused. -/
structure Batch where
  failing : String
  changes : List Change

/-- The batches that take a database of version `source` to the next. -/
structure VersionStep where
  source : Int
  batches : List Batch

def VersionStep.changes (m : VersionStep) : List Change := m.batches.flatMap Batch.changes

def setVersion (version : Int) : Change :=
  .set "config" "schema_version" (.literal (.integer version)) (.equals "id" (.integer 1))

/-- A step that adds columns that hold nothing yet. -/
def addingColumns (source : Int) (failing : String) (columns : List (String × Column)) :
    VersionStep where
  source
  batches := [⟨failing,
    columns.map (fun column => .addColumn column.1 column.2 .null) ++ [setVersion (source + 1)]⟩]

/-- A step that creates one of today's tables. -/
def creatingTable (source : Int) (table failing : String) (create : Change) : VersionStep where
  source
  batches := [⟨failing ++ " " ++ table, [create]⟩, ⟨failing, [setVersion (source + 1)]⟩]

/-- What an external certificate's row takes from the row that it was. -/
def movedCells : List (String × Expr) :=
  [("serial", .column "serial"), ("cn", .column "cn"), ("title", .prefixed "EXT_" "cn"),
    ("status", .column "status"), ("expiry_date", .column "expiry_date"),
    ("subject", .column "subject"), ("issuer", .column "issuer"),
    ("issuer_subject", .column "issuer"), ("import_date", .parameter)]

/-- External certificates, those with an issuer, get a table of their own. -/
def splitIssuers : VersionStep where
  source := 5
  batches :=
    [⟨"v5→v6 create table",
        [.create "external_certificate"
          [text "serial", text "cn", text "title", text "status", text "expiry_date",
            text "subject", text "issuer", text "issuer_subject", text "import_date"]]⟩,
      ⟨"v5→v6 migrate rows",
        [.copy "certificate_authority" "external_certificate" "serial" movedCells
          (.notNull "issuer")]⟩,
      ⟨"v5→v6 cleanup",
        [.delete "certificate_authority" (.notNull "issuer"),
          .dropColumn "certificate_authority" "issuer", setVersion 6]⟩]

def migrations : List VersionStep :=
  [addingColumns 1 "v1→v2" [("config", text "ou")],
    addingColumns 2 "v2→v3"
      [("config", text "ca_public_store"), ("config", text "ca_private_store"),
        ("config", text "ca_backup_store")],
    addingColumns 3 "v3→v4" [("certificate_authority", text "issuer")],
    ⟨4, [⟨"v4→v5",
      [.create "csr"
        [integer "id", text "cn", text "title", text "csr_type", text "email", text "subject",
          text "status", text "created_date"],
        setVersion 5]⟩]⟩,
    splitIssuers,
    ⟨6,
      [⟨"v6→v7 alter tables",
          [.addColumn "certificate_authority" (text "cert_type") .null,
            .addColumn "certificate_authority" (text "not_before") .null,
            .addColumn "certificate_authority" (text "key_type") .null,
            .addColumn "certificate_authority" (integer "key_size") .null,
            .addColumn "certificate_authority" (text "issuer") .null,
            .addColumn "certificate_authority" (text "san") .null,
            .addColumn "external_certificate" (text "cert_type") (.text "external"),
            .addColumn "external_certificate" (text "not_before") .null,
            .addColumn "external_certificate" (text "key_type") .null,
            .addColumn "external_certificate" (integer "key_size") .null,
            .addColumn "external_certificate" (text "san") .null,
            .addColumn "csr" (text "csr_pem") .null, setVersion 7]⟩,
        ⟨"v6→v7 crl_metadata", [createCrlMetadataTable]⟩,
        ⟨"v6→v7 openvpn_template", [createOpenvpnTemplateTable]⟩,
        ⟨"v6→v7 openvpn_profile",
          [.create "openvpn_profile"
            [integer "id", text "cn", text "title", text "created_date", text "template"]]⟩]⟩,
    addingColumns 7 "v7→v8"
      [("certificate_authority", text "ignored_at"),
        ("certificate_authority", text "ignored_by"),
        ("certificate_authority", text "ignored_reason"),
        ("certificate_authority", text "ignored_note")],
    addingColumns 8 "v8→v9"
      [("certificate_authority", integer "has_private_key"),
        ("certificate_authority", integer "has_chain"),
        ("external_certificate", integer "has_private_key"),
        ("external_certificate", integer "has_chain")],
    ⟨9, [⟨"v9→v10 dkim_key", [createDkimTable]⟩, ⟨"v9→v10 finalise", [setVersion 10]⟩]⟩,
    addingColumns 10 "v10→v11" [("openvpn_profile", text "serial")],
    ⟨11, [⟨"v11→v12",
      [.addColumn "openvpn_profile" (integer "generated") (.integer 1), setVersion 12]⟩]⟩,
    addingColumns 12 "v12→v13" [("config", text "ca_aws_region")],
    addingColumns 13 "v13→v14" [("certificate_authority", text "deleted_at")],
    ⟨14, [⟨"v14→v15 crl_batch", [createCrlBatchTable]⟩,
      ⟨"v14→v15",
        [.addColumn "config" (integer "crl_batch_enabled") .null, setVersion 15]⟩]⟩,
    addingColumns 15 "v15→v16" [("config", integer "openvpn_template_import")],
    creatingTable 16 "brokers" "v16→v17" createBrokersTable,
    addingColumns 17 "v17→v18" [("certificate_authority", text "published_at")],
    creatingTable 18 "broker_certs" "v18→v19" createBrokerCertsTable,
    ⟨19, [⟨"v19→v20",
      [.addColumn "config" (integer "web_server_days") .null,
        .addColumn "config" (integer "vpn_server_days") .null,
        .addColumn "config" (integer "vpn_client_days") .null,
        .addColumn "config" (integer "device_days") .null,
        .set "config" "web_server_days" (.atMost 90 "days") .always, setVersion 20]⟩]⟩,
    ⟨20, [⟨"v20→v21", [.addMissing "brokers" (text "issuer_state")]⟩,
      ⟨"v20→v21", [setVersion 21]⟩]⟩]

structure MigrationInfo where
  migrated : Bool
  fromVersion : Int
  toVersion : Int
  /-- The version that each step led to. -/
  steps : List Int
  deriving DecidableEq, Repr

/-- Which statements were refused, and why. -/
structure SchemaMigration where
  failing : String
  cause : Refusal
  deriving DecidableEq, Repr

def Batch.run (importTs : Cell) (db : Store) (batch : Batch) : Except SchemaMigration Store :=
  (runAll importTs batch.changes db).mapError fun cause => ⟨batch.failing, cause⟩

def VersionStep.run (importTs : Cell) (db : Store) (m : VersionStep) :
    Except SchemaMigration Store :=
  m.batches.foldlM (Batch.run importTs) db

/-- A database on its way, its version and the steps behind it. -/
structure Migrating where
  db : Store
  version : Int
  steps : List Int

/-- A step is taken from its own version only. -/
def Migrating.step (importTs : Cell) (s : Migrating) (m : VersionStep) :
    Except SchemaMigration Migrating :=
  if s.version = m.source then do
    let db ← m.run importTs s.db
    return ⟨db, m.source + 1, s.steps ++ [m.source + 1]⟩
  else return s

def migrate (importTs : Cell) (db : Store) (currentVersion : Int) :
    Except SchemaMigration (Store × MigrationInfo) :=
  if currentVersion ≥ defaultSchemaVersion then
    return (db, ⟨false, currentVersion, defaultSchemaVersion, []⟩)
  else do
    let s ← migrations.foldlM (Migrating.step importTs) ⟨db, currentVersion, []⟩
    return (s.db, ⟨true, currentVersion, defaultSchemaVersion, s.steps⟩)

/-- `SELECT schema_version FROM config LIMIT 1`. -/
def storedVersion (db : Store) : Option Int :=
  match (db "config").bind fun r => r.rows.head?.map fun row => r.cell row "schema_version" with
  | some (.integer version) => some version
  | _ => none

/-! ## What each version held -/

/-- A column, and the first and the last version that had it. -/
structure Span where
  column : Column
  first : Int
  last : Int

def since (first : Int) (column : Column) : Span := ⟨column, first, defaultSchemaVersion⟩

/-- The tables over the versions. -/
def history : List (String × List Span) :=
  [("config",
      [integer "id", text "next_serial", text "next_crl_serial", text "org", text "email",
        text "city", text "state", text "country", text "ca_url", text "crl_url",
        integer "days", integer "crl_days", integer "schema_version"].map (since 1) ++
      [since 2 (text "ou")] ++
      [text "ca_public_store", text "ca_private_store", text "ca_backup_store"].map (since 3) ++
      [since 13 (text "ca_aws_region"), since 15 (integer "crl_batch_enabled"),
        since 16 (integer "openvpn_template_import")] ++
      [integer "web_server_days", integer "vpn_server_days", integer "vpn_client_days",
        integer "device_days"].map (since 20)),
    ("certificate_authority",
      [text "serial", text "cn", text "title", text "status", text "expiry_date",
        text "revocation_date", text "subject"].map (since 1) ++
      [⟨text "issuer", 4, 5⟩] ++
      [text "cert_type", text "not_before", text "key_type", integer "key_size",
        text "issuer", text "san"].map (since 7) ++
      [text "ignored_at", text "ignored_by", text "ignored_reason",
        text "ignored_note"].map (since 8) ++
      [integer "has_private_key", integer "has_chain"].map (since 9) ++
      [since 14 (text "deleted_at"), since 18 (text "published_at")]),
    ("csr",
      [integer "id", text "cn", text "title", text "csr_type", text "email", text "subject",
        text "status", text "created_date"].map (since 5) ++ [since 7 (text "csr_pem")]),
    ("external_certificate",
      [text "serial", text "cn", text "title", text "status", text "expiry_date",
        text "subject", text "issuer", text "issuer_subject",
        text "import_date"].map (since 6) ++
      [text "cert_type", text "not_before", text "key_type", integer "key_size",
        text "san"].map (since 7) ++
      [integer "has_private_key", integer "has_chain"].map (since 9)),
    ("crl_metadata",
      [integer "id", text "issuer", text "last_update", text "next_update",
        integer "crl_number", integer "revoked_count", text "revoked_json"].map (since 7)),
    ("openvpn_template",
      [integer "id", text "name", text "content", text "updated_date"].map (since 7)),
    ("openvpn_profile",
      [integer "id", text "cn", text "title", text "created_date",
        text "template"].map (since 7) ++
      [since 11 (text "serial"), since 12 (integer "generated")]),
    ("dkim_key",
      [text "domain", text "selector", text "title", integer "key_size", text "created_at",
        integer "has_private_key", integer "has_public_key",
        integer "has_dns_record"].map (since 10)),
    ("crl_batch",
      [integer "id", text "t0", integer "period_days", integer "window_days",
        integer "count", integer "first_number"].map (since 15)),
    ("brokers",
      [integer "id", text "subordinate_serial", text "url", text "pinned_key",
        text "permitted_domains", text "state", text "last_contact", text "created_at",
        text "updated_at"].map (since 17) ++ [since 21 (text "issuer_state")]),
    ("broker_certs",
      [integer "broker_id", text "serial", text "common_name", text "sans",
        text "not_before", text "not_after", text "issuer_serial", text "revoked_at",
        integer "revocation_reason", integer "changed"].map (since 19))]

/-- The tables of a version. -/
def layoutOf (version : Int) : Layout :=
  history.filterMap fun table =>
    match table.2.filter fun span => span.first ≤ version && version ≤ span.last with
    | [] => none
    | spans => some (table.1, spans.map Span.column)

/-- The step to version 17 makes today's table of brokers, so that a database that is
migrated past it has that table's last column before version 21. -/
def layoutsOf (version : Int) : List Layout :=
  if 17 ≤ version ∧ version ≤ 20 then
    [layoutOf version, (layoutOf version).change "brokers" (· ++ [text "issuer_state"])]
  else [layoutOf version]

/-- A database as a version left it. -/
structure Shaped (version : Int) (db : Store) : Prop where
  laid : ∃ l ∈ layoutsOf version, db.Laid l
  config : ∃ r row, db "config" = some r ∧ r.rows = [row] ∧ row "id" = .integer 1 ∧
    row "schema_version" = .integer version
  serials : ∀ r, db "certificate_authority" = some r → (keysOf "serial" r.rows).Nodup

/-! ## The steps from a version -/

variable {bound : Cell} {db db' : Store} {v : Int} {ms : List VersionStep}

/-- Steps each of which starts where the one before it ends. -/
def Consecutive : Int → List VersionStep → Prop
  | _, [] => True
  | v, m :: ms => m.source = v ∧ Consecutive (v + 1) ms

theorem migrations_consecutive : Consecutive 1 migrations := by
  unfold migrations
  repeat first | exact trivial | refine ⟨rfl, ?_⟩

theorem Consecutive.drop (h : Consecutive v ms) (k : Nat) :
    Consecutive (v + k) (ms.drop k) := by
  induction ms generalizing v k with
  | nil => simp [Consecutive]
  | cons m ms ih =>
    cases k with
    | zero => simpa using h
    | succ k =>
      have hrest := ih h.2 k
      rw [List.drop_succ_cons]
      rwa [show v + 1 + (k : Int) = v + (k + 1 : Nat) by omega] at hrest

theorem Consecutive.lt_of_mem_take (h : Consecutive v ms) {k : Nat} {m : VersionStep}
    (hm : m ∈ ms.take k) : m.source < v + k := by
  induction ms generalizing v k with
  | nil => simp at hm
  | cons first ms ih =>
    cases k with
    | zero => simp at hm
    | succ k =>
      rw [List.take_succ_cons] at hm
      rcases List.mem_cons.mp hm with rfl | hm
      · rw [h.1]
        omega
      · have hlt := ih h.2 hm
        omega

theorem Consecutive.le_of_mem (h : Consecutive v ms) {m : VersionStep} (hm : m ∈ ms) :
    v ≤ m.source := by
  induction ms generalizing v with
  | nil => cases hm
  | cons first ms ih =>
    rcases List.mem_cons.mp hm with rfl | hm
    · exact h.1.ge
    · have hle := ih h.2 hm
      omega

theorem Consecutive.take (h : Consecutive v ms) (k : Nat) : Consecutive v (ms.take k) := by
  induction ms generalizing v k with
  | nil => simp [Consecutive]
  | cons m ms ih =>
    cases k with
    | zero => trivial
    | succ k => exact ⟨h.1, ih h.2 k⟩

theorem foldlM_skip {s : Migrating} (h : ∀ m ∈ ms, m.source ≠ s.version) :
    ms.foldlM (Migrating.step bound) s = .ok s := by
  induction ms with
  | nil => rfl
  | cons m ms ih =>
    rw [List.foldlM_cons]
    unfold Migrating.step
    rw [if_neg (h m List.mem_cons_self).symm]
    exact ih fun m' hm' => h m' (List.mem_cons_of_mem m hm')

theorem foldlM_batches {batches : List Batch}
    (h : runAll bound (batches.flatMap Batch.changes) db = .ok db') :
    batches.foldlM (Batch.run bound) db = .ok db' := by
  induction batches generalizing db with
  | nil =>
    cases h
    rfl
  | cons batch batches ih =>
    obtain ⟨between, hfirst, hrest⟩ := runAll_append.mp h
    rw [List.foldlM_cons]
    have hbatch : batch.run bound db = .ok between := by
      unfold Batch.run
      rw [hfirst]
      rfl
    rw [hbatch]
    exact ih hrest

theorem foldlM_steps {done : List Int} (hcons : Consecutive v ms)
    (h : runAll bound (ms.flatMap VersionStep.changes) db = .ok db') :
    ∃ s : Migrating, ms.foldlM (Migrating.step bound) ⟨db, v, done⟩ = .ok s ∧ s.db = db' := by
  induction ms generalizing db v done with
  | nil =>
    cases h
    exact ⟨_, rfl, rfl⟩
  | cons m ms ih =>
    obtain ⟨between, hfirst, hrest⟩ := runAll_append.mp h
    obtain ⟨s, hs, hdb⟩ := @ih between (v + 1) (done ++ [m.source + 1]) hcons.2 hrest
    refine ⟨s, ?_, hdb⟩
    rw [List.foldlM_cons, ← hs]
    have hstep : Migrating.step bound ⟨db, v, done⟩ m =
        .ok ⟨between, v + 1, done ++ [m.source + 1]⟩ := by
      unfold Migrating.step VersionStep.run
      rw [if_pos hcons.1.symm, foldlM_batches hfirst, hcons.1]
      rfl
    rw [hstep]
    rfl

/-- The steps that a database of a version takes. -/
def stepsFrom (v : Int) : List VersionStep := migrations.drop (v - 1).toNat

theorem stepsFrom_consecutive (hv : 1 ≤ v) : Consecutive v (stepsFrom v) := by
  have h := migrations_consecutive.drop (v - 1).toNat
  rwa [show (1 : Int) + ((v - 1).toNat : Int) = v by omega] at h

theorem migrate_of_runAll (hv : 1 ≤ v) (hlt : v < defaultSchemaVersion)
    (h : runAll bound ((stepsFrom v).flatMap VersionStep.changes) db = .ok db') :
    ∃ info, migrate bound db v = .ok (db', info) := by
  obtain ⟨s, hs, rfl⟩ := @foldlM_steps bound db db' v _ [] (stepsFrom_consecutive hv) h
  refine ⟨⟨true, v, defaultSchemaVersion, s.steps⟩, ?_⟩
  unfold migrate
  rw [if_neg (not_le.mpr hlt)]
  have hfold : migrations.foldlM (Migrating.step bound) ⟨db, v, []⟩ = .ok s := by
    rw [← List.take_append_drop (v - 1).toNat migrations, List.foldlM_append, foldlM_skip]
    · exact hs
    · intro m hm
      have hlt := migrations_consecutive.lt_of_mem_take hm
      show m.source ≠ v
      omega
  rw [hfold]
  rfl

/-- A version that no step starts from. -/
theorem migrate_of_lt_one (hv : v < 1) :
    migrate bound db v = .ok (db, ⟨true, v, defaultSchemaVersion, []⟩) := by
  have hskip : migrations.foldlM (Migrating.step bound) ⟨db, v, []⟩ = .ok ⟨db, v, []⟩ :=
    foldlM_skip fun m hm => by
      have hle := migrations_consecutive.le_of_mem hm
      show m.source ≠ v
      omega
  unfold migrate
  rw [if_neg (by unfold defaultSchemaVersion; omega), hskip]
  rfl

/-! ## Layouts from step to step -/

/-- Each step takes the tables of its version to those of the next. -/
theorem steps_lay : (migrations.all fun m => (layoutsOf m.source).all fun l =>
    (layAll m.changes l).any fun l' => (layoutsOf (m.source + 1)).any (l'.same ·)) = true := by
  decide

theorem exists_lay {m : VersionStep} (hm : m ∈ migrations) {l : Layout}
    (hl : l ∈ layoutsOf m.source) : ∃ l', layAll m.changes l = some l' ∧
      ∃ next ∈ layoutsOf (m.source + 1), l'.same next = true := by
  have h := List.all_eq_true.mp (List.all_eq_true.mp steps_lay m hm) l hl
  obtain ⟨l', hl', h⟩ := (Option.any_eq_true _ _).mp h
  obtain ⟨next, hnext, hsame⟩ := List.any_eq_true.mp h
  exact ⟨l', hl', next, hnext, hsame⟩

theorem split_copies : (migrations.all fun m => m.source = 5 ||
    m.changes.all fun c => !c.copies) = true := by
  decide

/-- Steps other than the split run on a database of their version, and lead to the next. -/
theorem laid_steps (hms : ∀ m ∈ ms, m ∈ migrations ∧ m.source ≠ 5) (hcons : Consecutive v ms)
    (h : ∃ l ∈ layoutsOf v, db.Laid l) :
    ∃ db', runAll bound (ms.flatMap VersionStep.changes) db = .ok db' ∧
      ∃ l ∈ layoutsOf (v + ms.length), db'.Laid l := by
  induction ms generalizing db v with
  | nil =>
    refine ⟨db, rfl, ?_⟩
    simpa using h
  | cons m ms ih =>
    obtain ⟨l, hl, hlaid⟩ := h
    obtain ⟨hm, hne⟩ := hms m List.mem_cons_self
    rw [← hcons.1] at hl
    obtain ⟨l', hl', next, hnext, hsame⟩ := exists_lay hm hl
    have hcopies : ∀ c ∈ m.changes, c.copies = false := by
      have hall := List.all_eq_true.mp split_copies m hm
      rw [Bool.or_eq_true, decide_eq_true_eq] at hall
      intro c hc
      simpa using List.all_eq_true.mp (hall.resolve_left hne) c hc
    obtain ⟨between, hrun, hbetween⟩ := hlaid.runAll hcopies hl'
    rw [hcons.1] at hnext
    obtain ⟨db', hrest, hdb'⟩ := ih (fun m' hm' => hms m' (List.mem_cons_of_mem m hm'))
      hcons.2 ⟨next, hnext, hbetween.of_same hsame⟩
    refine ⟨db', runAll_append.mpr ⟨between, hrun, hrest⟩, ?_⟩
    rwa [List.length_cons, show v + ((ms.length + 1 : Nat) : Int) = v + 1 + ms.length by
      omega]

end Opca.Core.Migration

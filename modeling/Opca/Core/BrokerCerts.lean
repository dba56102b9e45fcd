/-
  Core/BrokerCerts.lean --- what the desktop keeps of the certificates its brokers
  issued: the `broker_certs` table and its sync cursor (`services/database/mod.rs`,
  `services/acme_broker/mod.rs`).
-/
import Opca.Acme.Changes
import Mathlib.Data.List.Induction

set_option autoImplicit false

namespace Opca.Core

open Opca.Foundation Acme

inductive OpcaError where
  | duplicateCertificate (message : String)
  | certificateNotFound (what : String)
  | invalidCertificate (why : String)
  | certificateExpired (serial : String)
  | certificateRevoked (serial : String)
  | database (message : String)
  | crypto (message : String)
  | storage (message : String)
  | crlBatchUpload (message : String)
  | other (message : String)
  deriving DecidableEq, Repr

/-! ## Rows -/

structure BrokerCert where
  brokerId : Int
  serial : String
  commonName : Option String
  sans : List String
  notBefore : String
  notAfter : String
  /-- The serial of the broker's subordinate that issued it. -/
  issuerSerial : String
  revokedAt : Option String
  revocationReason : Option Nat
  /-- The broker's change sequence: the highest is where the next sync starts. -/
  changed : Int
  deriving DecidableEq, Repr

/-- The primary key. -/
def BrokerCert.key (cert : BrokerCert) : Int × String := (cert.brokerId, cert.serial)

/-- What reading and writing times takes from `chrono`. -/
structure Chrono where
  parseFromRfc3339 : String → Except String Time
  /-- `%Y%m%d%H%M%SZ`. -/
  openssl : Time → String

/-- An RFC 3339 time from the broker, as the database keeps times. -/
def opensslTime (chrono : Chrono) (rfc3339 : String) : Except OpcaError String :=
  match chrono.parseFromRfc3339 rfc3339 with
  | .error e => .error (.other s!"the broker's time {rfc3339}: {e}")
  | .ok time => .ok (chrono.openssl time)

def brokerCert (chrono : Chrono) (brokerId : Int) (cert : IssuedCertificate) :
    Except OpcaError BrokerCert := do
  let notBefore ← opensslTime chrono cert.notBefore
  let notAfter ← opensslTime chrono cert.notAfter
  let revokedAt ← cert.revokedAt.mapM (opensslTime chrono)
  let changed ← changeOf cert.changed
  .ok {
    brokerId
    serial := cert.serial
    commonName := cert.commonName
    sans := cert.sans
    notBefore
    notAfter
    issuerSerial := cert.issuerSerial
    revokedAt
    revocationReason := cert.revocationReason
    changed }
where
  /-- `i64::try_from`. -/
  changeOf (changed : Nat) : Except OpcaError Int :=
    if i64Max < changed then .error (.other s!"change {changed} is out of range")
    else .ok changed

/-! ## The table -/

/-- The rows of `broker_certs`, whose primary key is the broker and the serial. -/
structure BrokerCerts where
  rows : List BrokerCert
  keys_nodup : (rows.map BrokerCert.key).Nodup

namespace BrokerCerts

def empty : BrokerCerts := ⟨[], List.nodup_nil⟩

/-- Where broker `id`'s next sync starts: the last change recorded from it, or 0. -/
def brokerCursor (t : BrokerCerts) (id : Int) : Int :=
  columnMaxOr0 BrokerCert.changed (t.rows.filter (·.brokerId = id))

/-- `INSERT OR REPLACE`. -/
def replace (t : BrokerCerts) (cert : BrokerCert) : BrokerCerts where
  rows := t.rows.filter (·.key ≠ cert.key) ++ [cert]
  keys_nodup := by
    rw [List.map_append, List.nodup_append]
    refine ⟨t.keys_nodup.sublist (List.filter_sublist.map _), List.nodup_singleton _, ?_⟩
    intro a ha b hb heq
    obtain ⟨row, hrow, rfl⟩ := List.mem_map.mp ha
    rw [List.map_singleton, List.mem_singleton] at hb
    have hne := (List.mem_filter.mp hrow).2
    rw [heq, hb] at hne
    simp at hne

/-- Records `certs` from one broker, each replacing what was synced for its serial. -/
def recordBrokerCerts (t : BrokerCerts) (certs : List BrokerCert) : BrokerCerts :=
  certs.foldl replace t

/-- Records what broker `id` issued; all or none. -/
def recordIssued (t : BrokerCerts) (chrono : Chrono) (id : Int)
    (issued : List IssuedCertificate) : Except OpcaError BrokerCerts := do
  let certs ← issued.mapM (brokerCert chrono id)
  .ok (t.recordBrokerCerts certs)

/-- The row of one certificate. -/
def get? (t : BrokerCerts) (id : Int) (serial : String) : Option BrokerCert :=
  t.rows.find? (·.key = (id, serial))

variable {t : BrokerCerts} {id : Int} {serial : String}

theorem get?_eq_some {row : BrokerCert} :
    t.get? id serial = some row ↔ row ∈ t.rows ∧ row.key = (id, serial) := by
  unfold get?
  constructor
  · intro h
    exact ⟨List.mem_of_find?_eq_some h, by simpa using List.find?_some h⟩
  · rintro ⟨hmem, hkey⟩
    cases hfind : t.rows.find? (·.key = (id, serial)) with
    | none => exact absurd (decide_eq_true hkey) (List.find?_eq_none.mp hfind row hmem)
    | some found =>
      have hfound : found.key = (id, serial) := by simpa using List.find?_some hfind
      rw [List.inj_on_of_nodup_map t.keys_nodup (List.mem_of_find?_eq_some hfind) hmem
        (hfound.trans hkey.symm)]

theorem mem_replace {cert row : BrokerCert} :
    row ∈ (t.replace cert).rows ↔ row = cert ∨ row ∈ t.rows ∧ row.key ≠ cert.key := by
  unfold replace
  rw [List.mem_append, List.mem_filter, List.mem_singleton, decide_eq_true_eq, or_comm]

theorem get?_replace (cert : BrokerCert) :
    (t.replace cert).get? id serial =
      if cert.key = (id, serial) then some cert else t.get? id serial := by
  split
  next hkey => exact get?_eq_some.mpr ⟨mem_replace.mpr (Or.inl rfl), hkey⟩
  next hkey =>
    ext row
    rw [get?_eq_some, get?_eq_some, mem_replace]
    constructor
    · rintro ⟨rfl | ⟨hrow, -⟩, hrowkey⟩
      · exact absurd hrowkey hkey
      · exact ⟨hrow, hrowkey⟩
    · rintro ⟨hrow, hrowkey⟩
      refine ⟨Or.inr ⟨hrow, ?_⟩, hrowkey⟩
      rw [hrowkey]
      exact fun heq => hkey heq.symm

/-- Of a certificate's rows that are recorded the last is kept, and otherwise the one
that was there. -/
theorem get?_recordBrokerCerts (certs : List BrokerCert) :
    (t.recordBrokerCerts certs).get? id serial =
      (latest BrokerCert.key (id, serial) certs).or (t.get? id serial) := by
  induction certs using List.reverseRecOn with
  | nil => rfl
  | append_singleton certs cert ih =>
    unfold recordBrokerCerts at ih ⊢
    rw [List.foldl_append, List.foldl_cons, List.foldl_nil, get?_replace, ih, latest_append]
    by_cases hkey : cert.key = (id, serial)
    · have hlast : latest BrokerCert.key (id, serial) [cert] = some cert := by
        simp [latest, hkey]
      rw [if_pos hkey, hlast, Option.some_or, Option.some_or]
    · have hlast : latest BrokerCert.key (id, serial) [cert] = none := by
        simp [latest, hkey]
      rw [if_neg hkey, hlast, Option.none_or]

/-! ## The cursor -/

theorem mem_filter_iff_get? {row : BrokerCert} :
    row ∈ t.rows.filter (·.brokerId = id) ↔ t.get? id row.serial = some row := by
  rw [List.mem_filter, get?_eq_some, decide_eq_true_eq, BrokerCert.key, Prod.mk.injEq,
    eq_self, and_true]

theorem le_brokerCursor {row : BrokerCert} (h : t.get? id serial = some row) :
    row.changed ≤ t.brokerCursor id := by
  obtain ⟨-, hkey⟩ := get?_eq_some.mp h
  cases hkey
  exact le_columnMaxOr0 (mem_filter_iff_get?.mpr h)

theorem brokerCursor_le {bound : Int} (hbound : 0 ≤ bound)
    (h : ∀ serial row, t.get? id serial = some row → row.changed ≤ bound) :
    t.brokerCursor id ≤ bound := by
  refine columnMaxOr0_le hbound ?_
  intro row hrow
  exact h row.serial row (mem_filter_iff_get?.mp hrow)

/-- A cursor that is not 0 is the change of a row. -/
theorem exists_brokerCursor (h : t.brokerCursor id ≠ 0) :
    ∃ serial row, t.get? id serial = some row ∧ row.changed = t.brokerCursor id := by
  have hne : t.rows.filter (·.brokerId = id) ≠ [] := by
    intro hnil
    refine h ?_
    unfold brokerCursor
    rw [hnil]
    rfl
  obtain ⟨row, hrow, hmax⟩ : ∃ row ∈ t.rows.filter (·.brokerId = id),
      row.changed = t.brokerCursor id := exists_columnMaxOr0 hne
  exact ⟨row.serial, row, mem_filter_iff_get?.mp hrow, hmax⟩

theorem brokerCursor_nonneg
    (h : ∀ serial row, t.get? id serial = some row → 0 ≤ row.changed) :
    0 ≤ t.brokerCursor id := by
  refine columnMaxOr0_nonneg ?_
  intro row hrow
  exact h row.serial row (mem_filter_iff_get?.mp hrow)

/-! ## Content -/

variable {chrono : Chrono}

/-- What a row of the desktop's says of a certificate, whatever its change. -/
def content (chrono : Chrono) (id : Int) (c : Certificate) : Except OpcaError BrokerCert :=
  brokerCert chrono id { Acme.issued c with changed := 0 }

/-- What the desktop's row of a certificate says, whatever its change. -/
def held (t : BrokerCerts) (id : Int) (serial : String) :
    Option (Except OpcaError BrokerCert) :=
  (t.get? id serial).map fun row => .ok { row with changed := 0 }

theorem brokerCert_ok {cert : IssuedCertificate} {row : BrokerCert}
    (h : brokerCert chrono id cert = .ok row) :
    row.key = (id, cert.serial) ∧ row.changed = cert.changed ∧
      brokerCert chrono id { cert with changed := 0 } = .ok { row with changed := 0 } := by
  obtain ⟨notBefore, hbefore, h⟩ := bind_eq_ok.mp h
  obtain ⟨notAfter, hafter, h⟩ := bind_eq_ok.mp h
  obtain ⟨revokedAt, hrevoked, h⟩ := bind_eq_ok.mp h
  obtain ⟨changed, hchanged, h⟩ := bind_eq_ok.mp h
  cases h
  unfold brokerCert.changeOf at hchanged
  split at hchanged
  · cases hchanged
  · cases hchanged
    refine ⟨rfl, rfl, ?_⟩
    unfold brokerCert
    simp only [hbefore, hafter, hrevoked]
    rfl

theorem mapM_of_recordIssued {read : List Certificate} {t' : BrokerCerts}
    (h : t.recordIssued chrono id (read.map Acme.issued) = .ok t') :
    ∃ certs, read.mapM (fun c => brokerCert chrono id (Acme.issued c)) = .ok certs ∧
      t' = t.recordBrokerCerts certs := by
  obtain ⟨certs, hcerts, h⟩ := bind_eq_ok.mp h
  cases h
  rw [List.mapM_map] at hcerts
  exact ⟨certs, hcerts, rfl⟩

/-- What recording leaves of each certificate: the row of the last version read, or
the row that was there. -/
theorem get?_recordIssued {read : List Certificate} {t' : BrokerCerts}
    (h : t.recordIssued chrono id (read.map Acme.issued) = .ok t') (serial : String) :
    (latest Certificate.serial serial read = none ∧ t'.get? id serial = t.get? id serial) ∨
      ∃ c row, latest Certificate.serial serial read = some c ∧
        t'.get? id serial = some row ∧ row.changed = asU64 c.changed ∧
        content chrono id c = .ok { row with changed := 0 } := by
  obtain ⟨certs, hcerts, rfl⟩ := mapM_of_recordIssued h
  have hlast : (latest BrokerCert.key (id, serial) certs).map Except.ok =
      (latest Certificate.serial serial read).map
        fun c => brokerCert chrono id (Acme.issued c) := by
    refine latest_mapM ?_ hcerts
    intro c row hrow
    rw [(brokerCert_ok hrow).1]
    simp [Acme.issued]
  rw [get?_recordBrokerCerts]
  cases hread : latest Certificate.serial serial read with
  | none =>
    rw [hread, Option.map_none, Option.map_eq_none_iff] at hlast
    left
    rw [hlast]
    exact ⟨rfl, Option.none_or⟩
  | some c =>
    rw [hread, Option.map_some] at hlast
    obtain ⟨row, hrow, hok⟩ := Option.map_eq_some_iff.mp hlast
    obtain ⟨-, hchanged, hcontent⟩ := brokerCert_ok hok.symm
    right
    rw [hrow]
    exact ⟨c, row, rfl, rfl, hchanged, hcontent⟩

/-- Recording what was read lays it over what the desktop holds. -/
theorem held_recordIssued {read : List Certificate} {t' : BrokerCerts}
    (h : t.recordIssued chrono id (read.map Acme.issued) = .ok t') :
    t'.held id = Feed.overlay Certificate.serial (content chrono id) (t.held id) read := by
  funext serial
  unfold held Feed.overlay
  rcases get?_recordIssued h serial with ⟨hread, hsame⟩ | ⟨c, row, hread, hrow, -, hcontent⟩
  · rw [hread, hsame]
    rfl
  · rw [hread, hrow, Option.map_some, Option.map_some, hcontent]
    rfl

theorem brokerCursor_le_of_recordIssued {read : List Certificate} {t' : BrokerCerts}
    (h : t.recordIssued chrono id (read.map Acme.issued) = .ok t') {bound : Int}
    (ht : t.brokerCursor id ≤ bound) (hbound : 0 ≤ bound)
    (hread : ∀ c ∈ read, (asU64 c.changed : Int) ≤ bound) : t'.brokerCursor id ≤ bound := by
  refine brokerCursor_le hbound ?_
  intro serial row hrow
  rcases get?_recordIssued h serial with ⟨-, hsame⟩ | ⟨c, new, hlast, hnew, hchanged, -⟩
  · rw [hsame] at hrow
    exact (le_brokerCursor hrow).trans ht
  · rw [hnew] at hrow
    cases hrow
    rw [hchanged]
    exact hread c (latest_eq_some hlast).1

/-- A row is revoked when the certificate it shows is. -/
theorem revokedAt_of_content {c : Certificate} {row : BrokerCert}
    (h : content chrono id c = .ok { row with changed := 0 }) :
    row.revokedAt.isSome = c.revokedAt.isSome := by
  obtain ⟨notBefore, -, h⟩ := bind_eq_ok.mp h
  obtain ⟨notAfter, -, h⟩ := bind_eq_ok.mp h
  obtain ⟨revokedAt, hrevoked, h⟩ := bind_eq_ok.mp h
  obtain ⟨changed, -, h⟩ := bind_eq_ok.mp h
  injection h with h
  have hrow : row.revokedAt = revokedAt := (congrArg BrokerCert.revokedAt h).symm
  rw [hrow]
  cases hc : c.revokedAt with
  | none =>
    simp only [Acme.issued, hc] at hrevoked
    cases hrevoked
    rfl
  | some time =>
    simp only [Acme.issued, hc] at hrevoked
    obtain ⟨shown, -, hrevoked⟩ := map_eq_ok.mp hrevoked
    rw [← hrevoked]
    rfl

end BrokerCerts

end Opca.Core

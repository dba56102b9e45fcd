/-
  Core/BrokerSync.lean --- the desktop's copy of what one broker issued, with the
  broker at work beside it: calls built, asked without the CA and recorded later, and
  revocations recorded as they are answered (`services/acme_broker/mod.rs`).
-/
import Opca.Core.IssuedSince

set_option autoImplicit false

namespace Opca.Core

open Opca.Foundation Acme Store

/-! ## The two parties -/

/-- A call to the broker, with where its issued list was last synced to. -/
structure BrokerCall where
  after : Nat
  loop : Loop
  deriving DecidableEq

/-- What the call answers with; a list that could not be read is taken as empty. -/
def BrokerCall.answer (call : BrokerCall) : Option (List IssuedCertificate) :=
  call.loop.outcome.map fun
    | .ok certificates => certificates
    | .error _ => []

structure Sync where
  /-- The broker's. -/
  store : Store
  /-- The desktop's. -/
  table : BrokerCerts
  calls : List BrokerCall
  /-- Leaves the broker found to revoke, and for what reason. -/
  revoking : List (String × Nat)
  /-- Revoked leaves the broker has answered with. -/
  revoked : List IssuedCertificate
  /-- What the desktop has recorded, as the broker gave it. -/
  recorded : List IssuedCertificate

inductive SyncStep where
  | recordCertificate (order : Int) (new : NewCertificate) (now : Time)
  | revoke (serial : String) (reason : Option Nat) (now : Time)
  /-- The broker is asked to revoke a leaf, and finds it. -/
  | askRevoke (serial : String) (reason : Nat)
  | revokeLeaf (leaf : String × Nat) (now : Time)
  /-- `revoke_broker_cert` records what the broker answered. -/
  | recordRevoked (revoked : IssuedCertificate)
  /-- A call is built from the cursor; `broker_status` and the sync after a
  revocation ask and record theirs at once. -/
  | call
  | page (call : BrokerCall)
  | unanswered (call : BrokerCall) (message : String)
  | recordAnswer (call : BrokerCall)
  /-- Another broker's certificates are recorded. -/
  | recordOther (certs : List BrokerCert)
  deriving DecidableEq

namespace Sync

/-- The state once the broker's transaction has committed, or rolled back. -/
def commit (s : Sync) : Except StoreError (Store × Certificate) → Sync
  | .ok (store, _) => { s with store }
  | .error _ => s

/-- A call goes on as another. -/
def setCall (s : Sync) (call : BrokerCall) (loop : Loop) : Sync :=
  { s with calls := s.calls.erase call ++ [{ call with loop }] }

end Sync

/-- `revoke_broker_cert` records the row no higher than the cursor, so that the next
sync still fetches what changed before the revocation. -/
def revokedRow (chrono : Chrono) (table : BrokerCerts) (id : Int) (revoked : IssuedCertificate) :
    Except OpcaError BrokerCert := do
  let cert ← brokerCert chrono id revoked
  .ok { cert with changed := min cert.changed (table.brokerCursor id) }

/-- Broker `id`, whose pages hold `limit` certificates, and the desktop. -/
def brokerSync (chrono : Chrono) (id : Int) (enrolled : Enrolled) (limit : Nat) :
    Machine Sync SyncStep where
  init s := (∀ c ∈ s.store.certificates.rows, 0 < c.changed) ∧ ChangesFit s.store ∧
    s.table = .empty ∧ s.calls = [] ∧ s.revoking = [] ∧ s.revoked = [] ∧ s.recorded = []
  next s
    | .recordCertificate order new now =>
      some (s.commit (s.store.recordCertificate order new now))
    | .revoke serial reason now => some (s.commit (s.store.revoke serial reason now))
    | .askRevoke serial reason =>
      match s.store.leafToRevoke enrolled serial reason with
      | .error _ => some s
      | .ok found =>
        if found.revokedAt.isSome then
          some { s with revoked := s.revoked ++ [Acme.issued found] }
        else some { s with revoking := s.revoking ++ [(serial, reason)] }
    | .revokeLeaf leaf now =>
      if leaf ∈ s.revoking then
        let s := { s with revoking := s.revoking.erase leaf }
        match s.store.revokeLeaf leaf.1 leaf.2 now with
        | .error _ => some s
        | .ok (store, revoked) =>
          some { s with store, revoked := s.revoked ++ [Acme.issued revoked] }
      else none
    | .recordRevoked revoked =>
      if revoked ∈ s.revoked then
        let s := { s with revoked := s.revoked.erase revoked }
        match revokedRow chrono s.table id revoked with
        | .error _ => some s
        | .ok cert =>
          some { s with
            table := s.table.recordBrokerCerts [cert], recorded := s.recorded ++ [revoked] }
      else none
    | .call =>
      let after := asU64 (s.table.brokerCursor id)
      some { s with calls := s.calls ++ [⟨after, .startingAt after⟩] }
    | .page call =>
      if call ∈ s.calls ∧ call.loop.outcome = none then
        some (s.setCall call (call.loop.turn (s.store.issued enrolled limit call.loop.after)))
      else none
    | .unanswered call message =>
      if call ∈ s.calls ∧ call.loop.outcome = none then
        some (s.setCall call
          { call.loop with outcome := some (.error (.unreachable message)) })
      else none
    | .recordAnswer call =>
      if call ∈ s.calls then
        call.answer.map fun issued =>
          let s := { s with calls := s.calls.erase call }
          match s.table.recordIssued chrono id issued with
          | .error _ => s
          | .ok table => { s with table, recorded := s.recorded ++ issued }
      else none
    | .recordOther certs =>
      if certs.all (·.brokerId ≠ id) then
        some { s with table := s.table.recordBrokerCerts certs }
      else none

/-- Nothing in an answer is older than what was recorded of its certificate before. -/
def UpToDate (s : Sync) (issued : List IssuedCertificate) : Prop :=
  ∀ c ∈ issued, latest IssuedCertificate.serial c.serial issued = some c →
    ∀ v ∈ s.recorded, v.serial = c.serial → v.changed ≤ c.changed

instance (s : Sync) (issued : List IssuedCertificate) : Decidable (UpToDate s issued) :=
  inferInstanceAs (Decidable (∀ c ∈ issued, _ → ∀ v ∈ s.recorded, _ → _))

/-- Every answer is up to date when it is recorded. -/
def AnswersUpToDate (s : Sync) : SyncStep → Prop
  | .recordAnswer call => ∀ issued ∈ call.answer, UpToDate s issued
  | _ => True

instance (s : Sync) (l : SyncStep) : Decidable (AnswersUpToDate s l) :=
  match l with
  | .recordAnswer call =>
    inferInstanceAs (Decidable (∀ issued ∈ call.answer, UpToDate s issued))
  | .recordCertificate _ _ _ | .revoke _ _ _ | .askRevoke _ _ | .revokeLeaf _ _
  | .recordRevoked _ | .call | .page _ | .unanswered _ _ | .recordOther _ => .isTrue trivial

/-! ## Versions -/

/-- `c` is a certificate of the broker's issuers, as it is or as it was before it was
revoked. -/
structure Known (store : Store) (enrolled : Enrolled) (c : Certificate) : Prop where
  version : (store.feed enrolled.issuers).Version Certificate.serial Certificate.changed
    Revokes c
  pos : 0 < c.changed

variable {chrono : Chrono} {id : Int} {enrolled : Enrolled} {limit : Nat}
  {store store' : Store} {c new : Certificate}

theorem Known.of_mem (hpos : ∀ c ∈ store.certificates.rows, 0 < c.changed)
    (hc : c ∈ (store.feed enrolled.issuers).rows) : Known store enrolled c :=
  ⟨.of_mem hc, hpos c hc.1⟩

theorem Known.changed (h : Known store enrolled c) (hchanged : Changed store store' new) :
    Known store' enrolled c :=
  ⟨h.version.advance (store.feed_sound _) hchanged.advance, h.pos⟩

theorem Known.asU64 (h : Known store enrolled c) (hfit : ChangesFit store) :
    (asU64 c.changed : Int) = c.changed := by
  obtain ⟨row, hrow, hkey, -⟩ := h.version
  have hle := h.version.change_le (store.feed_sound _) hrow hkey
  exact asU64_of_nonneg h.pos.le (hle.trans (hfit row hrow.1))

/-- A revoked version is the certificate as it is. -/
theorem Known.mem_of_revoked (h : Known store enrolled c) (hrevoked : c.revokedAt.isSome = true) :
    c ∈ (store.feed enrolled.issuers).rows := by
  obtain ⟨row, hrow, -, rfl | ⟨-, hbecame, -⟩⟩ := h.version
  · exact hrow
  · rw [hbecame] at hrevoked
    cases hrevoked

/-- Nothing that is not older than the certificate as it is differs from it. -/
theorem Known.eq_of_le (h : Known store enrolled c) {row : Certificate}
    (hrow : row ∈ (store.feed enrolled.issuers).rows) (hserial : row.serial = c.serial)
    (hle : row.changed ≤ c.changed) : c = row := by
  rcases h.version.of_key (store.feed_sound _) hrow hserial with rfl | ⟨hlt, -⟩
  · rfl
  · exact absurd hle (not_le.mpr hlt)

/-! ## The invariant -/

/-- A row of the desktop's shows the newest version that was recorded. -/
structure Shows (chrono : Chrono) (id : Int) (store : Store) (enrolled : Enrolled)
    (history : List IssuedCertificate) (row : BrokerCert) (c : Certificate) : Prop where
  known : Known store enrolled c
  recorded : Acme.issued c ∈ history
  content : BrokerCerts.content chrono id c = .ok { row with changed := 0 }
  nonneg : 0 ≤ row.changed
  changed_le : row.changed ≤ c.changed
  newest : ∀ v ∈ history, v.serial = c.serial → (v.changed : Int) ≤ c.changed

structure SyncInv (chrono : Chrono) (id : Int) (enrolled : Enrolled) (s : Sync) : Prop where
  fit : ChangesFit s.store
  pos : ∀ c ∈ s.store.certificates.rows, 0 < c.changed
  handed : s.table.brokerCursor id ≤ s.store.lastChange
  calls : ∀ call ∈ s.calls, call.loop.Reads s.store enrolled call.after ∧
    (call.after : Int) ≤ s.table.brokerCursor id
  revoking : ∀ leaf ∈ s.revoking,
    ∃ c ∈ (s.store.feed enrolled.issuers).rows, c.serial = leaf.1
  revoked : ∀ v ∈ s.revoked, ∃ c ∈ (s.store.feed enrolled.issuers).rows,
    v = Acme.issued c ∧ c.revokedAt.isSome = true
  known : ∀ v ∈ s.recorded, ∃ c, v = Acme.issued c ∧ Known s.store enrolled c
  rows : ∀ serial row, s.table.get? id serial = some row →
    ∃ c, c.serial = serial ∧ Shows chrono id s.store enrolled s.recorded row c
  there : ∀ v ∈ s.recorded, ∃ row, s.table.get? id v.serial = some row
  /-- What has not changed since the cursor was recorded as it is. -/
  covered : ∀ c ∈ (s.store.feed enrolled.issuers).rows,
    c.changed ≤ s.table.brokerCursor id → Acme.issued c ∈ s.recorded

variable {s t : Sync}

theorem SyncInv.cursor_nonneg (h : SyncInv chrono id enrolled s) :
    0 ≤ s.table.brokerCursor id := by
  refine BrokerCerts.brokerCursor_nonneg ?_
  intro serial row hrow
  obtain ⟨c, -, hshows⟩ := h.rows serial row hrow
  exact hshows.nonneg

/-- The desktop agrees with the broker on all that its cursor covers. -/
theorem SyncInv.agreed (h : SyncInv chrono id enrolled s) :
    Agreed chrono enrolled s.store s.table id (s.table.brokerCursor id) := by
  refine ⟨h.handed, ?_⟩
  intro c hc hours hle
  have hrecorded := h.covered c ⟨hc, hours⟩ hle
  obtain ⟨row, hrow⟩ := h.there _ hrecorded
  obtain ⟨shown, hserial, hshows⟩ := h.rows _ row hrow
  have hnewest := hshows.newest _ hrecorded hserial.symm
  have hasU64 : ((Acme.issued c).changed : Int) = c.changed :=
    (Known.of_mem h.pos ⟨hc, hours⟩).asU64 h.fit
  rw [hasU64] at hnewest
  have hsame : shown = c := hshows.known.eq_of_le ⟨hc, hours⟩ hserial.symm hnewest
  obtain ⟨hmem, hkey⟩ := BrokerCerts.get?_eq_some.mp hrow
  exact ⟨row, hmem, hkey, hsame ▸ hshows.content⟩

/-! ## The broker's steps -/

theorem SyncInv.commit (h : SyncInv chrono id enrolled s)
    (hchanged : Changed s.store store' new) :
    SyncInv chrono id enrolled { s with store := store' } := by
  have hlt : s.store.lastChange < new.changed := by
    rw [hchanged.changed]
    exact lastChange_lt_nextChange
  have hadvance : (s.store.feed enrolled.issuers).Advance Certificate.serial
      Certificate.changed Revokes (store'.feed enrolled.issuers) := hchanged.advance
  refine ⟨hchanged.fit h.fit, ?_, ?_, ?_, ?_, ?_, ?_, ?_, h.there, ?_⟩
  · intro c hc
    rcases (hchanged.rows c).mp hc with rfl | ⟨hold, -⟩
    · have hcursor := h.cursor_nonneg.trans h.handed
      omega
    · exact h.pos c hold
  · exact h.handed.trans hadvance.le_top
  · intro call hcall
    obtain ⟨hreads, hafter⟩ := h.calls call hcall
    exact ⟨hreads.changed hchanged, hafter⟩
  · intro leaf hleaf
    obtain ⟨c, ⟨hc, hours⟩, hserial⟩ := h.revoking leaf hleaf
    by_cases hsame : c.serial = new.serial
    · refine ⟨new, ⟨(hchanged.rows new).mpr (Or.inl rfl), ?_⟩, hsame ▸ hserial⟩
      unfold issuedBy at hours ⊢
      rwa [← hchanged.issuer c hc hsame]
    · exact ⟨c, ⟨(hchanged.rows c).mpr (Or.inr ⟨hc, hsame⟩), hours⟩, hserial⟩
  · intro v hv
    obtain ⟨c, ⟨hc, hours⟩, hissued, hrevoked⟩ := h.revoked v hv
    exact ⟨c, ⟨hchanged.mem_of_revoked hc hrevoked, hours⟩, hissued, hrevoked⟩
  · intro v hv
    obtain ⟨c, hissued, hknown⟩ := h.known v hv
    exact ⟨c, hissued, hknown.changed hchanged⟩
  · intro serial row hrow
    obtain ⟨c, hserial, hshows⟩ := h.rows serial row hrow
    exact ⟨c, hserial, { hshows with known := hshows.known.changed hchanged }⟩
  · intro c hc hle
    rcases hadvance.mem hc with hold | hnew
    · exact h.covered c hold hle
    · exact absurd (hle.trans h.handed) (not_le.mpr hnew)

/-! ## Recording -/

/-- What recording `news` does to the desktop's rows: the last version of each
certificate takes its row, with its change or the cursor, and none is older than what
was recorded before. -/
structure Lays (chrono : Chrono) (id : Int) (enrolled : Enrolled) (s : Sync)
    (news : List Certificate) (table : BrokerCerts) : Prop where
  known : ∀ c ∈ news, Known s.store enrolled c
  rows : ∀ serial,
    (latest Certificate.serial serial news = none ∧
      table.get? id serial = s.table.get? id serial) ∨
    ∃ c row, latest Certificate.serial serial news = some c ∧
      table.get? id serial = some row ∧
      BrokerCerts.content chrono id c = .ok { row with changed := 0 } ∧
      row.changed ≤ c.changed ∧ min c.changed (s.table.brokerCursor id) ≤ row.changed
  newest : ∀ serial c, latest Certificate.serial serial news = some c →
    (∀ y ∈ news, y.serial = serial → y.changed ≤ c.changed) ∧
    ∀ v ∈ s.recorded, v.serial = serial → (v.changed : Int) ≤ c.changed

variable {news : List Certificate} {table : BrokerCerts}

/-- Each row then shows the newest version. -/
theorem Lays.shows (hlays : Lays chrono id enrolled s news table)
    (h : SyncInv chrono id enrolled s) {serial : String} {row : BrokerCert}
    (hrow : table.get? id serial = some row) :
    ∃ c, c.serial = serial ∧
      Shows chrono id s.store enrolled (s.recorded ++ news.map Acme.issued) row c := by
  rcases hlays.rows serial with ⟨hnone, hsame⟩ | ⟨c, laid, hlast, hlaid, hcontent, hle, hmin⟩
  · rw [hsame] at hrow
    obtain ⟨c, hserial, hshows⟩ := h.rows serial row hrow
    refine ⟨c, hserial, { hshows with
      recorded := List.mem_append_left _ hshows.recorded, newest := ?_ }⟩
    intro v hv hvserial
    rcases List.mem_append.mp hv with hold | hnew
    · exact hshows.newest v hold hvserial
    · obtain ⟨y, hy, rfl⟩ := List.mem_map.mp hnew
      have hmem : y ∈ news.filter (Certificate.serial · = serial) :=
        List.mem_filter.mpr ⟨hy, decide_eq_true (hvserial.trans hserial)⟩
      rw [List.getLast?_eq_none_iff.mp hnone] at hmem
      cases hmem
  · rw [hlaid] at hrow
    cases hrow
    obtain ⟨hmem, hserial⟩ := latest_eq_some hlast
    obtain ⟨hnews, hbefore⟩ := hlays.newest serial c hlast
    refine ⟨c, hserial, hlays.known c hmem,
      List.mem_append_right _ (List.mem_map_of_mem hmem), hcontent, ?_, hle, ?_⟩
    · exact (le_min (hlays.known c hmem).pos.le h.cursor_nonneg).trans hmin
    · intro v hv hvserial
      rcases List.mem_append.mp hv with hold | hnew
      · exact hbefore v hold (hvserial.trans hserial)
      · obtain ⟨y, hy, rfl⟩ := List.mem_map.mp hnew
        have hasU64 : ((Acme.issued y).changed : Int) = y.changed :=
          (hlays.known y hy).asU64 h.fit
        rw [hasU64]
        exact hnews y hy (hvserial.trans hserial)

/-- The cursor does not fall. -/
theorem Lays.le_cursor (hlays : Lays chrono id enrolled s news table)
    (h : SyncInv chrono id enrolled s) :
    s.table.brokerCursor id ≤ table.brokerCursor id := by
  by_cases hzero : s.table.brokerCursor id = 0
  · rw [hzero]
    refine BrokerCerts.brokerCursor_nonneg ?_
    intro serial row hrow
    obtain ⟨c, -, hshows⟩ := hlays.shows h hrow
    exact hshows.nonneg
  · obtain ⟨serial, row, hrow, hmax⟩ := BrokerCerts.exists_brokerCursor hzero
    rcases hlays.rows serial with ⟨-, hsame⟩ | ⟨c, laid, hlast, hlaid, -, -, hmin⟩
    · rw [← hmax]
      exact BrokerCerts.le_brokerCursor (hsame.trans hrow)
    · -- the row at the cursor is replaced by one no older
      obtain ⟨old, hserial, hshows⟩ := h.rows serial row hrow
      have hbefore := (hlays.newest serial c hlast).2 _ hshows.recorded hserial
      have hasU64 : ((Acme.issued old).changed : Int) = old.changed :=
        hshows.known.asU64 h.fit
      rw [hasU64] at hbefore
      have hcursor : s.table.brokerCursor id ≤ c.changed := by
        rw [← hmax]
        exact hshows.changed_le.trans hbefore
      rw [min_eq_right hcursor] at hmin
      exact hmin.trans (BrokerCerts.le_brokerCursor hlaid)

/-- A revoked row stays one. -/
theorem Lays.revoked (hlays : Lays chrono id enrolled s news table)
    (h : SyncInv chrono id enrolled s) {serial : String} {row : BrokerCert}
    (hrow : s.table.get? id serial = some row) (hrevoked : row.revokedAt.isSome = true) :
    ∃ row', table.get? id serial = some row' ∧ row'.revokedAt.isSome = true := by
  obtain ⟨old, hserial, hshows⟩ := h.rows serial row hrow
  rcases hlays.rows serial with ⟨-, hsame⟩ | ⟨c, laid, hlast, hlaid, hcontent, -, -⟩
  · exact ⟨row, hsame.trans hrow, hrevoked⟩
  · refine ⟨laid, hlaid, ?_⟩
    rw [BrokerCerts.revokedAt_of_content hshows.content] at hrevoked
    have hmem := hshows.known.mem_of_revoked hrevoked
    have hbefore := (hlays.newest serial c hlast).2 _ hshows.recorded hserial
    have hasU64 : ((Acme.issued old).changed : Int) = old.changed :=
      hshows.known.asU64 h.fit
    rw [hasU64] at hbefore
    obtain ⟨hc, hcserial⟩ := latest_eq_some hlast
    have hsame : c = old :=
      (hlays.known c hc).eq_of_le hmem (hserial.trans hcserial.symm) hbefore
    rw [BrokerCerts.revokedAt_of_content hcontent, hsame]
    exact hrevoked

/-- The rows of broker `id` that were revoked still are. -/
def KeepsRevoked (id : Int) (before after : BrokerCerts) : Prop :=
  ∀ serial row, before.get? id serial = some row → row.revokedAt.isSome = true →
    ∃ row', after.get? id serial = some row' ∧ row'.revokedAt.isSome = true

theorem KeepsRevoked.refl (table : BrokerCerts) : KeepsRevoked id table table :=
  fun _ row hrow hrevoked => ⟨row, hrow, hrevoked⟩

theorem KeepsRevoked.trans {a b c : BrokerCerts} (hab : KeepsRevoked id a b)
    (hbc : KeepsRevoked id b c) : KeepsRevoked id a c := by
  intro serial row hrow hrevoked
  obtain ⟨next, hnext, hstill⟩ := hab serial row hrow hrevoked
  exact hbc serial next hnext hstill

/-- Recording keeps the invariant, if it covers what its cursor does. -/
theorem SyncInv.lay (h : SyncInv chrono id enrolled s)
    (hlays : Lays chrono id enrolled s news table)
    (hhanded : table.brokerCursor id ≤ s.store.lastChange)
    (hcovers : ∀ c ∈ (s.store.feed enrolled.issuers).rows,
      s.table.brokerCursor id < c.changed → c.changed ≤ table.brokerCursor id → c ∈ news) :
    SyncInv chrono id enrolled
        { s with table, recorded := s.recorded ++ news.map Acme.issued } ∧
      KeepsRevoked id s.table table := by
  refine ⟨⟨h.fit, h.pos, hhanded, ?_, h.revoking, h.revoked, ?_, ?_, ?_, ?_⟩, ?_⟩
  · intro call hcall
    obtain ⟨hreads, hafter⟩ := h.calls call hcall
    exact ⟨hreads, hafter.trans (hlays.le_cursor h)⟩
  · intro v hv
    rcases List.mem_append.mp hv with hold | hnew
    · exact h.known v hold
    · obtain ⟨c, hc, rfl⟩ := List.mem_map.mp hnew
      exact ⟨c, rfl, hlays.known c hc⟩
  · intro serial row hrow
    exact hlays.shows h hrow
  · intro v hv
    rcases hlays.rows v.serial with ⟨hnone, hsame⟩ | ⟨-, row, -, hrow, -⟩
    · rcases List.mem_append.mp hv with hold | hnew
      · obtain ⟨row, hrow⟩ := h.there v hold
        exact ⟨row, hsame.trans hrow⟩
      · obtain ⟨c, hc, rfl⟩ := List.mem_map.mp hnew
        have hmem : c ∈ news.filter (Certificate.serial · = (Acme.issued c).serial) :=
          List.mem_filter.mpr ⟨hc, decide_eq_true rfl⟩
        rw [List.getLast?_eq_none_iff.mp hnone] at hmem
        cases hmem
    · exact ⟨row, hrow⟩
  · intro c hc hle
    by_cases hold : c.changed ≤ s.table.brokerCursor id
    · exact List.mem_append_left _ (h.covered c hc hold)
    · exact List.mem_append_right _ (List.mem_map_of_mem (hcovers c hc (not_le.mp hold) hle))
  · intro serial row hrow hrevoked
    exact hlays.revoked h hrow hrevoked

/-- An answer that is up to date. -/
theorem SyncInv.recordIssued (h : SyncInv chrono id enrolled s) {start : Nat} {after : Int}
    {read : List Certificate}
    (hcollected : (s.store.feed enrolled.issuers).Collected Certificate.serial
      Certificate.changed Revokes start after read)
    (hstart : (start : Int) ≤ s.table.brokerCursor id)
    (hfresh : UpToDate s (read.map Acme.issued))
    (hrecord : s.table.recordIssued chrono id (read.map Acme.issued) = .ok table) :
    SyncInv chrono id enrolled
        { s with table, recorded := s.recorded ++ read.map Acme.issued } ∧
      KeepsRevoked id s.table table := by
  have hknown : ∀ c ∈ read, Known s.store enrolled c := by
    intro c hc
    obtain ⟨hlt, -⟩ := hcollected.between c hc
    exact ⟨hcollected.version c hc, (Int.natCast_nonneg start).trans_lt hlt⟩
  have hlays : Lays chrono id enrolled s read table := by
    refine ⟨hknown, ?_, ?_⟩
    · intro serial
      rcases BrokerCerts.get?_recordIssued hrecord serial with hsame |
        ⟨c, row, hlast, hrow, hchanged, hcontent⟩
      · exact Or.inl hsame
      · rw [(hknown c (latest_eq_some hlast).1).asU64 h.fit] at hchanged
        exact Or.inr ⟨c, row, hlast, hrow, hcontent, hchanged.le,
          (min_le_left _ _).trans hchanged.ge⟩
    · intro serial c hlast
      obtain ⟨hc, hserial⟩ := latest_eq_some hlast
      refine ⟨fun y hy hyserial => hcollected.le_latest hlast hy hyserial, ?_⟩
      intro v hv hvserial
      have hissued : latest IssuedCertificate.serial (Acme.issued c).serial
          (read.map Acme.issued) = some (Acme.issued c) := by
        have hmap : latest IssuedCertificate.serial c.serial (read.map Acme.issued) =
            (latest Certificate.serial c.serial read).map Acme.issued :=
          latest_map (fun _ => rfl) _ _
        rw [show latest Certificate.serial c.serial read = some c from hserial ▸ hlast] at hmap
        exact hmap
      have hle := hfresh _ (List.mem_map_of_mem hc) hissued v hv (hvserial.trans hserial.symm)
      rw [← (hknown c hc).asU64 h.fit]
      exact Int.ofNat_le.mpr hle
  have hmax : table.brokerCursor id ≤ max (s.table.brokerCursor id) after := by
    refine BrokerCerts.brokerCursor_le_of_recordIssued hrecord (le_max_left _ _)
      (h.cursor_nonneg.trans (le_max_left _ _)) ?_
    intro c hc
    rw [(hknown c hc).asU64 h.fit]
    exact (hcollected.between c hc).2.trans (le_max_right _ _)
  refine h.lay hlays (hmax.trans (max_le h.handed hcollected.le_top)) ?_
  intro c hc hlt hle
  have hread : c.changed ≤ after := by
    rcases le_max_iff.mp (hle.trans hmax) with hold | hread
    · exact absurd hold (not_le.mpr hlt)
    · exact hread
  exact (latest_eq_some (hcollected.newest c hc (hstart.trans_lt hlt) hread)).1

/-- A revocation that the broker answered with. -/
theorem SyncInv.recordRevoked (h : SyncInv chrono id enrolled s) {c : Certificate}
    (hc : c ∈ (s.store.feed enrolled.issuers).rows) {cert : BrokerCert}
    (hcert : revokedRow chrono s.table id (Acme.issued c) = .ok cert) :
    SyncInv chrono id enrolled { s with
        table := s.table.recordBrokerCerts [cert], recorded := s.recorded ++ [Acme.issued c] } ∧
      KeepsRevoked id s.table (s.table.recordBrokerCerts [cert]) := by
  obtain ⟨shown, hshown, hcert⟩ := bind_eq_ok.mp hcert
  cases hcert
  obtain ⟨hkey, hchanged, hcontent⟩ := BrokerCerts.brokerCert_ok hshown
  have hknown : Known s.store enrolled c := .of_mem h.pos hc
  have hasU64 : ((Acme.issued c).changed : Int) = c.changed := hknown.asU64 h.fit
  rw [hasU64] at hchanged
  have hget : ∀ serial, (s.table.recordBrokerCerts [{ shown with
      changed := min shown.changed (s.table.brokerCursor id) }]).get? id serial =
      if c.serial = serial then
        some { shown with changed := min shown.changed (s.table.brokerCursor id) }
      else s.table.get? id serial := by
    intro serial
    show (s.table.replace _).get? id serial = _
    rw [BrokerCerts.get?_replace]
    refine if_congr ?_ rfl rfl
    show shown.key = (id, serial) ↔ c.serial = serial
    rw [hkey]
    simp [Acme.issued]
  have hlast : ∀ serial, latest Certificate.serial serial [c] =
      if c.serial = serial then some c else none := by
    intro serial
    rw [latest_cons]
    rfl
  have hlays : Lays chrono id enrolled s [c] (s.table.recordBrokerCerts [{ shown with
      changed := min shown.changed (s.table.brokerCursor id) }]) := by
    refine ⟨?_, ?_, ?_⟩
    · intro y hy
      rw [List.mem_singleton.mp hy]
      exact hknown
    · intro serial
      rw [hlast, hget]
      by_cases hserial : c.serial = serial
      · rw [if_pos hserial, if_pos hserial, hchanged]
        exact Or.inr ⟨c, _, rfl, rfl, hcontent, min_le_left _ _, le_refl _⟩
      · rw [if_neg hserial, if_neg hserial]
        exact Or.inl ⟨rfl, rfl⟩
    · intro serial y hy
      obtain ⟨hmem, hserial⟩ := latest_eq_some hy
      rw [List.mem_singleton.mp hmem] at hserial ⊢
      refine ⟨?_, ?_⟩
      · intro z hz _
        rw [List.mem_singleton.mp hz]
      · intro v hv hvserial
        obtain ⟨old, rfl, hold⟩ := h.known v hv
        have hsame : c.serial = old.serial := hserial.trans hvserial.symm
        have hle := hold.version.change_le (s.store.feed_sound _) hc hsame
        have hcast : ((Acme.issued old).changed : Int) = old.changed := hold.asU64 h.fit
        rw [hcast]
        exact hle
  -- the new row is at the cursor or below it
  have hcursor : (s.table.recordBrokerCerts [{ shown with
      changed := min shown.changed (s.table.brokerCursor id) }]).brokerCursor id ≤
      s.table.brokerCursor id := by
    refine BrokerCerts.brokerCursor_le h.cursor_nonneg ?_
    intro serial row hrow
    rw [hget] at hrow
    split at hrow
    · cases hrow
      exact min_le_right _ _
    · exact BrokerCerts.le_brokerCursor hrow
  refine h.lay hlays (hcursor.trans h.handed) ?_
  intro y _ hlt hle
  exact absurd (hle.trans hcursor) (not_le.mpr hlt)

theorem SyncInv.recordOther (h : SyncInv chrono id enrolled s) {certs : List BrokerCert}
    (hcerts : ∀ cert ∈ certs, cert.brokerId ≠ id) :
    SyncInv chrono id enrolled { s with table := s.table.recordBrokerCerts certs } ∧
      KeepsRevoked id s.table (s.table.recordBrokerCerts certs) := by
  have hget : ∀ serial, (s.table.recordBrokerCerts certs).get? id serial =
      s.table.get? id serial := by
    intro serial
    rw [BrokerCerts.get?_recordBrokerCerts, latest_eq_none, Option.none_or]
    intro cert hcert hkey
    exact hcerts cert hcert (congrArg Prod.fst hkey)
  have hlays : Lays chrono id enrolled s [] (s.table.recordBrokerCerts certs) := by
    refine ⟨?_, fun serial => Or.inl ⟨rfl, hget serial⟩, ?_⟩
    · intro c hc
      cases hc
    · intro serial c hlast
      cases hlast
  have hcursor : (s.table.recordBrokerCerts certs).brokerCursor id ≤
      s.table.brokerCursor id := by
    refine BrokerCerts.brokerCursor_le h.cursor_nonneg ?_
    intro serial row hrow
    exact BrokerCerts.le_brokerCursor ((hget serial).symm.trans hrow)
  have hlaid := h.lay hlays (hcursor.trans h.handed)
    fun y _ hlt hle => absurd (hle.trans hcursor) (not_le.mpr hlt)
  simpa using hlaid

/-! ## Every step -/

theorem SyncInv.setCall (h : SyncInv chrono id enrolled s) {call : BrokerCall} {loop : Loop}
    (hloop : loop.Reads s.store enrolled call.after)
    (hafter : (call.after : Int) ≤ s.table.brokerCursor id) :
    SyncInv chrono id enrolled (s.setCall call loop) := by
  refine { h with calls := ?_ }
  intro other hother
  rcases List.mem_append.mp hother with hold | hnew
  · exact h.calls other (List.mem_of_mem_erase hold)
  · rw [List.mem_singleton.mp hnew]
    exact ⟨hloop, hafter⟩

/-- What `leafToRevoke` finds is a certificate of the broker's issuers. -/
theorem leafToRevoke_ok {serial : String} {reason : Nat} {found : Certificate}
    (h : store.leafToRevoke enrolled serial reason = .ok found) :
    found ∈ (store.feed enrolled.issuers).rows ∧ found.serial = serial := by
  unfold Store.leafToRevoke at h
  split at h
  · cases h
  split at h
  · cases h
  unfold Store.leafOf at h
  split at h
  · cases h
  rename_i leaf hfind
  split at h
  next hours =>
    cases h
    exact ⟨⟨List.mem_of_find?_eq_some hfind, hours⟩, by simpa using List.find?_some hfind⟩
  next => cases h

/-- What the broker answers with is a revoked certificate, revoked now or before. -/
theorem revokeLeaf_ok {serial : String} {reason : Nat} {now : Time} {revoked : Certificate}
    (h : store.revokeLeaf serial reason now = .ok (store', revoked)) :
    revoked.serial = serial ∧ revoked.revokedAt.isSome = true ∧
      revoked ∈ store'.certificates.rows ∧
      (store' = store ∨ Changed store store' revoked) := by
  unfold Store.revokeLeaf at h
  split at h
  next result hrevoke =>
    cases h
    have hchanged := changed_of_revoke hrevoke
    obtain ⟨⟨found, -, hserial, -, hrow⟩, -⟩ := revoke_ok hrevoke
    refine ⟨by rw [hrow]; exact hserial, by rw [hrow]; rfl,
      (hchanged.rows revoked).mpr (Or.inl rfl), Or.inr hchanged⟩
  next already hrevoke =>
    split at h
    next current hfind =>
      cases h
      refine ⟨by simpa using List.find?_some hfind, ?_, List.mem_of_find?_eq_some hfind,
        Or.inl rfl⟩
      exact revoked_of_alreadyRevoked hrevoke hfind
    next => cases h
  next => cases h

theorem SyncInv.step (h : SyncInv chrono id enrolled s) {l : SyncStep}
    (hok : AnswersUpToDate s l) (hstep : (brokerSync chrono id enrolled limit).next s l = some t) :
    SyncInv chrono id enrolled t ∧ KeepsRevoked id s.table t.table := by
  have hcommit : ∀ {result : Except StoreError (Store × Certificate)},
      (∀ store certificate, result = .ok (store, certificate) →
        Changed s.store store certificate) →
      SyncInv chrono id enrolled (s.commit result) ∧
        KeepsRevoked id s.table (s.commit result).table := by
    intro result hresult
    cases result with
    | error e => exact ⟨h, .refl _⟩
    | ok result => exact ⟨h.commit (hresult result.1 result.2 rfl), .refl _⟩
  cases l with
  | recordCertificate order new now =>
    cases hstep
    exact hcommit fun _ _ hrecord => changed_of_recordCertificate hrecord
  | revoke serial reason now =>
    cases hstep
    exact hcommit fun _ _ hrevoke => changed_of_revoke hrevoke
  | askRevoke serial reason =>
    simp only [brokerSync] at hstep
    split at hstep
    next =>
      cases hstep
      exact ⟨h, .refl _⟩
    next found hfound =>
      obtain ⟨hours, hserial⟩ := leafToRevoke_ok hfound
      split at hstep
      next hrevoked =>
        cases hstep
        refine ⟨{ h with revoked := ?_ }, .refl _⟩
        intro v hv
        rcases List.mem_append.mp hv with hold | hnew
        · exact h.revoked v hold
        · exact ⟨found, hours, List.mem_singleton.mp hnew, hrevoked⟩
      next =>
        cases hstep
        refine ⟨{ h with revoking := ?_ }, .refl _⟩
        intro leaf hleaf
        rcases List.mem_append.mp hleaf with hold | hnew
        · exact h.revoking leaf hold
        · rw [List.mem_singleton.mp hnew]
          exact ⟨found, hours, hserial⟩
  | revokeLeaf leaf now =>
    simp only [brokerSync] at hstep
    split at hstep
    next hleaf =>
      split at hstep
      next =>
        cases hstep
        refine ⟨{ h with revoking := ?_ }, .refl _⟩
        intro other hother
        exact h.revoking other (List.mem_of_mem_erase hother)
      next store revoked hrevoke =>
        cases hstep
        obtain ⟨hserial, hrevoked, hmem, hwhen⟩ := revokeLeaf_ok hrevoke
        have hstore : SyncInv chrono id enrolled { s with store } := by
          rcases hwhen with rfl | hchanged
          · exact h
          · exact h.commit hchanged
        refine ⟨{ hstore with revoking := ?_, revoked := ?_ }, .refl _⟩
        · intro other hother
          exact hstore.revoking other (List.mem_of_mem_erase hother)
        · intro v hv
          rcases List.mem_append.mp hv with hold | hnew
          · exact hstore.revoked v hold
          · obtain ⟨c, hc, hcserial⟩ := hstore.revoking leaf hleaf
            have hsame : c = revoked :=
              List.inj_on_of_nodup_map store.certificates.unique.serials hc.1 hmem
                (hcserial.trans hserial.symm)
            exact ⟨c, hc, by rw [hsame]; exact List.mem_singleton.mp hnew, hsame ▸ hrevoked⟩
    next => cases hstep
  | recordRevoked revoked =>
    simp only [brokerSync] at hstep
    split at hstep
    next hmem =>
      have hrest : SyncInv chrono id enrolled { s with revoked := s.revoked.erase revoked } :=
        { h with revoked := fun other hother => h.revoked other (List.mem_of_mem_erase hother) }
      obtain ⟨c, hc, rfl, -⟩ := h.revoked revoked hmem
      split at hstep
      next =>
        cases hstep
        exact ⟨hrest, .refl _⟩
      next cert hcert =>
        cases hstep
        exact hrest.recordRevoked hc hcert
    next => cases hstep
  | call =>
    cases hstep
    have hcursor : (asU64 (s.table.brokerCursor id) : Int) = s.table.brokerCursor id :=
      asU64_of_nonneg h.cursor_nonneg (h.handed.trans (lastChange_le h.fit))
    refine ⟨{ h with calls := ?_ }, .refl _⟩
    intro call hcall
    rcases List.mem_append.mp hcall with hold | hnew
    · exact h.calls call hold
    · rw [List.mem_singleton.mp hnew]
      exact ⟨.startingAt (hcursor.le.trans h.handed), hcursor.le⟩
  | page call =>
    simp only [brokerSync] at hstep
    split at hstep
    next hcall =>
      cases hstep
      obtain ⟨hreads, hafter⟩ := h.calls call hcall.1
      exact ⟨h.setCall (hreads.turn h.fit hcall.2) hafter, .refl _⟩
    next => cases hstep
  | unanswered call message =>
    simp only [brokerSync] at hstep
    split at hstep
    next hcall =>
      cases hstep
      obtain ⟨hreads, hafter⟩ := h.calls call hcall.1
      exact ⟨h.setCall (hreads.fail _) hafter, .refl _⟩
    next => cases hstep
  | recordAnswer call =>
    simp only [brokerSync] at hstep
    split at hstep
    next hcall =>
      obtain ⟨issued, hanswer, hstep⟩ := Option.map_eq_some_iff.mp hstep
      have hrest : SyncInv chrono id enrolled { s with calls := s.calls.erase call } :=
        { h with calls := fun other hother => h.calls other (List.mem_of_mem_erase hother) }
      split at hstep
      next =>
        cases hstep
        exact ⟨hrest, .refl _⟩
      next table hrecord =>
        cases hstep
        obtain ⟨⟨read, after, hread, hcollected, -, hreturned⟩, hafter⟩ := h.calls call hcall
        have hfresh := hok issued hanswer
        obtain ⟨outcome, houtcome, hissued⟩ := Option.map_eq_some_iff.mp hanswer
        cases outcome with
        | error e =>
          -- a failed reading records nothing
          have hnone : issued = [] := hissued.symm
          subst hnone
          cases hrecord
          rw [List.append_nil]
          exact ⟨hrest, .refl _⟩
        | ok certificates =>
          rw [← hissued, hreturned certificates houtcome, hread] at hrecord hfresh ⊢
          exact hrest.recordIssued hcollected hafter hfresh hrecord
    next => cases hstep
  | recordOther certs =>
    simp only [brokerSync] at hstep
    split at hstep
    next hcerts =>
      cases hstep
      refine h.recordOther ?_
      intro cert hcert
      simpa using List.all_eq_true.mp hcerts cert hcert
    next => cases hstep

/-! ## Revocations stay -/

theorem syncInv_of_init (limit : Nat) (hs : (brokerSync chrono id enrolled limit).init s) :
    SyncInv chrono id enrolled s := by
  obtain ⟨hpos, hfit, htable, hcalls, hrevoking, hrevoked, hrecorded⟩ := hs
  have hcursor : s.table.brokerCursor id = 0 := by
    rw [htable]
    rfl
  have hget : ∀ serial, s.table.get? id serial = none := by
    intro serial
    rw [htable]
    rfl
  refine ⟨hfit, hpos, ?_, ?_, ?_, ?_, ?_, ?_, ?_, ?_⟩
  · rw [hcursor]
    exact columnMaxOr0_nonneg fun c hc => (hpos c hc).le
  · rw [hcalls]
    intro call hcall
    cases hcall
  · rw [hrevoking]
    intro leaf hleaf
    cases hleaf
  · rw [hrevoked]
    intro v hv
    cases hv
  · rw [hrecorded]
    intro v hv
    cases hv
  · intro serial row hrow
    rw [hget] at hrow
    cases hrow
  · rw [hrecorded]
    intro v hv
    cases hv
  · intro c hc hle
    have hnew := hpos c hc.1
    omega

theorem syncInv_reachable
    (hs : ((brokerSync chrono id enrolled limit).system.restrict AnswersUpToDate).Reachable s) :
    SyncInv chrono id enrolled s := by
  have hinv : ((brokerSync chrono id enrolled limit).system.restrict AnswersUpToDate).Invariant
      (SyncInv chrono id enrolled) :=
    ⟨syncInv_of_init limit, fun h hstep => (h.step hstep.1 hstep.2).1⟩
  exact hinv.reachable hs

/-- Where the broker's revoked leaves and what its cursor covers stand with the desktop. -/
structure SyncSafe (chrono : Chrono) (id : Int) (enrolled : Enrolled)
    (S : System Sync SyncStep) (s : Sync) : Prop where
  /-- No later state shows a leaf unrevoked again. -/
  kept : ∀ t, S.Reaches s t → KeepsRevoked id s.table t.table
  agreed : Agreed chrono enrolled s.store s.table id (s.table.brokerCursor id)

/-- **Synced revocations stay**, in every run whose answers are up to date when they are
recorded, and the desktop then agrees with the broker as far as its cursor. -/
theorem syncSafe_of_upToDate (chrono : Chrono) (id : Int) (enrolled : Enrolled) (limit : Nat)
    {s : Sync}
    (hs : ((brokerSync chrono id enrolled limit).system.restrict AnswersUpToDate).Reachable s) :
    SyncSafe chrono id enrolled
      ((brokerSync chrono id enrolled limit).system.restrict AnswersUpToDate) s := by
  refine ⟨?_, (syncInv_reachable hs).agreed⟩
  intro t hst
  refine System.Reaches.lift (R := fun s t => KeepsRevoked id s.table t.table) ?_ ?_ ?_ hs hst
  · intro u
    exact .refl u.table
  · intro u v w huv hvw
    exact huv.trans hvw
  · intro u v l hu hstep
    exact ((syncInv_reachable hu).step hstep.1 hstep.2).2

def issuedLeaf : Certificate :=
  ⟨1, "10", 1, 1, none, ["a.example"], 0, 1000, "", "5", none, none, 0, 1⟩

/-- A broker that has issued one certificate, and a desktop that has not heard of it. -/
def oneIssued : Sync where
  store := { Store.empty with
    certificates := ⟨[issuedLeaf], uniqueCertificates_singleton issuedLeaf⟩ }
  table := .empty
  calls := []
  revoking := []
  revoked := []
  recorded := []

theorem oneIssued_init :
    (brokerSync plainChrono 7 ⟨some ["5"], false⟩ 500).init oneIssued := by
  refine ⟨?_, ?_, rfl, rfl, rfl, rfl, rfl⟩
  · decide
  · unfold ChangesFit
    decide

/-- The call that a sync makes, once it has been answered with the certificate unrevoked. -/
def answeredCall : BrokerCall :=
  let leaf : IssuedCertificate := ⟨"10", none, ["a.example"], "1970-01-01T00:00:00Z",
    "1970-01-01T00:00:00Z", "5", none, none, 1⟩
  ⟨0, ⟨0, [leaf], some (.ok [leaf])⟩⟩

/-- The certificate, revoked. -/
def revokedLeaf : IssuedCertificate :=
  ⟨"10", none, ["a.example"], "1970-01-01T00:00:00Z", "1970-01-01T00:00:00Z", "5",
    some "1970-01-01T00:00:00Z", some 1, 2⟩

/-- The row that the desktop holds of it, seen as revoked or not. -/
def shownRevoked (s : Sync) : Option Bool :=
  (s.table.get? 7 "10").map (·.revokedAt.isSome)

/-- A sync recorded before the revocation, and one after. -/
theorem syncSafe_revoked :
    ∃ s : Sync, shownRevoked s = some true ∧ s.table.brokerCursor 7 = 2 ∧
      SyncSafe plainChrono 7 ⟨some ["5"], false⟩
        ((brokerSync plainChrono 7 ⟨some ["5"], false⟩ 500).system.restrict AnswersUpToDate)
        s := by
  obtain ⟨s, hs, hview⟩ := Machine.exists_reachable_of_exec_guard
    (fun (s : Sync) (l : SyncStep) (h : decide (AnswersUpToDate s l) = true) =>
      of_decide_eq_true h) oneIssued_init
    [.call, .page ⟨0, .startingAt 0⟩, .recordAnswer answeredCall, .askRevoke "10" 1,
      .revokeLeaf ("10", 1) 5, .recordRevoked revokedLeaf, .call, .page ⟨1, .startingAt 1⟩,
      .recordAnswer ⟨1, ⟨1, [revokedLeaf], some (.ok [revokedLeaf])⟩⟩]
    (fun s => shownRevoked s = some true ∧ s.table.brokerCursor 7 = 2)
    (by decide)
  obtain ⟨hshown, hcursor⟩ := of_decide_eq_true hview
  exact ⟨s, hshown, hcursor, syncSafe_of_upToDate plainChrono 7 _ 500 hs⟩

/-- A sync is answered, the leaf is then revoked and its revocation recorded: recording
the answer now shows the leaf unrevoked. -/
theorem revocation_undone :
    ¬ ∀ s, (brokerSync plainChrono 7 ⟨some ["5"], false⟩ 500).system.Reachable s →
      SyncSafe plainChrono 7 ⟨some ["5"], false⟩
        (brokerSync plainChrono 7 ⟨some ["5"], false⟩ 500).system s := by
  intro hclaim
  obtain ⟨s, hs, hview⟩ := Machine.exists_reachable_of_exec oneIssued_init
    [.call, .page ⟨0, .startingAt 0⟩, .askRevoke "10" 1, .revokeLeaf ("10", 1) 5,
      .recordRevoked revokedLeaf]
    (fun s => shownRevoked s = some true ∧
      (((brokerSync plainChrono 7 ⟨some ["5"], false⟩ 500).next s
        (.recordAnswer answeredCall)).any fun t => shownRevoked t = some false) = true)
    (by decide)
  obtain ⟨hbefore, hafter⟩ := of_decide_eq_true hview
  obtain ⟨t, hstep, hshown⟩ := (Option.any_eq_true _ _).mp hafter
  obtain ⟨row, hrow, hrevoked⟩ := Option.map_eq_some_iff.mp hbefore
  obtain ⟨row', hrow', hstill⟩ := (hclaim s hs).kept t (.step .refl hstep) "10" row hrow hrevoked
  have hnow := of_decide_eq_true hshown
  unfold shownRevoked at hnow
  rw [hrow', Option.map_some, hstill] at hnow
  cases hnow

end Opca.Core

/-
  Core/VpnStatus.lean --- the status of a VPN profile, from what the last scan left, over
  the histories of its certificate (`services/database/mod.rs`).
-/
import Opca.Core.Lookup
import Opca.Core.Skipped

set_option autoImplicit false

namespace Opca.Core

open Opca.Foundation Acme

/-! ## The status -/

/-- The database, and the time of the last scan, completed or not. -/
structure DatedHistory where
  history : ScanHistory
  clock : Time
  /-- The serials that were revoked in a state it has been in; no one keeps this. -/
  revoked : List String

def DatedHistory.rows (s : DatedHistory) : List CertRecord :=
  s.history.db.tables.certificates.rows

variable {times : OpensslTimes} {now : Time} {revokeSerial : Option String}
  {answers : ScanAnswers} {s t : ScannedDb}

/-! ## What a scan leaves of a revoked certificate -/

/-- Revoked, or expired by then. -/
def CertRecord.Ended (times : OpensslTimes) (clock : Time) (c : CertRecord) : Prop :=
  c.isRevoked = true ∨ c.HasExpired times clock

theorem CertRecord.HasExpired.later {c : CertRecord} {clock : Time}
    (h : c.HasExpired times clock) (hle : clock ≤ now) : c.HasExpired times now := by
  obtain ⟨expiry, hexpiry, hlt⟩ := h
  exact ⟨expiry, hexpiry, hlt.trans_le hle⟩

/-- The certificate has a row, which has ended. -/
def HasEnded (times : OpensslTimes) (clock : Time) (serial : String) (s : ScannedDb) : Prop :=
  ∃ c ∈ s.tables.certificates.rows, c.serial = serial ∧ c.Ended times clock

theorem HasEnded.later {clock : Time} {serial : String} (h : HasEnded times clock serial s)
    (hle : clock ≤ now) : HasEnded times now serial s := by
  obtain ⟨c, hc, hserial, hended⟩ := h
  exact ⟨c, hc, hserial, hended.imp_right fun hexpired => hexpired.later hle⟩

/-! ## Statements -/

theorem validCnToSerial_setsOf (rows : List CertRecord) (externals : List ExternalCertRecord) :
    (setsOf times now revokeSerial rows externals).validCnToSerial =
      currentSerials times now revokeSerial (selectCerts rows) := by
  have hfile (current : String → Option String) (sets : StatusSets) (c : CertRecord) :
      (sets.file times now revokeSerial current c).validCnToSerial = sets.validCnToSerial := by
    have hignore : (sets.ignore c).validCnToSerial = sets.validCnToSerial := by
      unfold StatusSets.ignore
      split <;> rfl
    unfold StatusSets.file StatusSets.place
    split
    · rfl
    · rw [← hignore]
      repeat' split
      all_goals rfl
  have hexternal (sets : StatusSets) (c : ExternalCertRecord) :
      (sets.fileExternal times now c).validCnToSerial = sets.validCnToSerial := by
    unfold StatusSets.fileExternal
    repeat' split
    all_goals rfl
  unfold setsOf
  rw [foldl_same _ hexternal, foldl_same _ (hfile _)]

namespace Classified

variable {c : CertRecord} {cn : String}

theorem validCn (h : Classified times now t) : t.sets.validCnToSerial =
    currentSerials times now none (selectCerts t.tables.certificates.rows) := by
  rw [h.sets]
  exact validCnToSerial_setsOf _ _

/-- The current serial of a CN is a live certificate's. -/
theorem current (h : Classified times now t) {serial : String}
    (hcurrent : t.sets.validCnToSerial cn = some serial) :
    ∃ other ∈ t.tables.certificates.rows, other.serial = serial ∧ other.cn = some cn ∧
      other.Live times now := by
  rw [h.validCn] at hcurrent
  obtain ⟨other, hother, hserial⟩ := mem_liveRows_of_currentSerials hcurrent
  obtain ⟨hmem, hstands⟩ := mem_liveRows.mp hother
  obtain ⟨hlive, hcn, -⟩ := replacementCn_none_eq_some.mp hstands
  exact ⟨other, hmem, hserial, hcn, hlive⟩

theorem mem_revoked (h : Classified times now t) (hc : c ∈ t.tables.certificates.rows) :
    c.serial ∈ t.sets.certsRevoked ↔ c.isRevoked = true ∧
      ∃ expiry, expiryOf times c.expiryDate = some expiry ∧ now ≤ expiry := by
  refine (h.mem_members .revoked hc).trans ?_
  unfold placeOf
  rw [isRevoking_none, Bool.or_false]
  cases expiryOf times c.expiryDate with
  | none => simp
  | some expiry =>
    by_cases hlive : expiry < now
    · simp only [Option.map_some, if_pos hlive]
      split <;> simp [hlive]
    · cases c.isRevoked
      · simp only [Option.map_some, if_neg hlive, Bool.false_eq_true, if_false]
        split <;> simp
      · simp [hlive, not_lt.mp hlive]

end Classified

/-! ## The status of a profile with a pinned certificate -/

namespace Classified

variable {c : CertRecord} {cn : String}

end Classified

end Opca.Core

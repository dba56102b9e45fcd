/-
  Core/Listed.lean --- what the CRL lists: the revoked certificates that have not
  expired, those deleted from view included, and no others (`services/ca.rs`,
  `services/database/mod.rs`).
-/
import Opca.Core.Life
import Mathlib.Data.List.Nodup

set_option autoImplicit false

namespace Opca.Core

open Opca.Foundation Acme

variable {times : OpensslTimes} {may : Time → CertRecord → Prop} {now now' : Time}
  {db s t : CaDatabase} {c : CertRecord} {revokeSerial : Option String}

/-! ## Rows -/

namespace CertRecord

/-- A row with a date of revocation. -/
def Dated (c : CertRecord) : Prop := c.revocationDate.any (· ≠ "") = true

def Past (times : OpensslTimes) (now : Time) (c : CertRecord) : Prop :=
  (expiryOf times c.expiryDate).any (· < now) = true

def Unexpired (times : OpensslTimes) (now : Time) (c : CertRecord) : Prop :=
  (expiryOf times c.expiryDate).any (now ≤ ·) = true

instance (c : CertRecord) : Decidable c.Dated := inferInstanceAs (Decidable (_ = true))

instance (times : OpensslTimes) (now : Time) (c : CertRecord) : Decidable (c.Past times now) :=
  inferInstanceAs (Decidable (_ = true))

instance (times : OpensslTimes) (now : Time) (c : CertRecord) :
    Decidable (c.Unexpired times now) :=
  inferInstanceAs (Decidable (_ = true))

theorem dated_iff : c.Dated ↔ ∃ date, c.revocationDate = some date ∧ date ≠ "" := by
  unfold Dated
  rw [Option.any_eq_true]
  simp

theorem past_iff : c.Past times now ↔ ∃ e, expiryOf times c.expiryDate = some e ∧ e < now := by
  unfold Past
  rw [Option.any_eq_true]
  simp

theorem unexpired_iff :
    c.Unexpired times now ↔ ∃ e, expiryOf times c.expiryDate = some e ∧ now ≤ e := by
  unfold Unexpired
  rw [Option.any_eq_true]
  simp

theorem Past.later (h : c.Past times now) (hle : now ≤ now') : c.Past times now' := by
  obtain ⟨e, he, hlt⟩ := past_iff.mp h
  exact past_iff.mpr ⟨e, he, lt_of_lt_of_le hlt hle⟩

theorem Unexpired.earlier (h : c.Unexpired times now') (hle : now ≤ now') :
    c.Unexpired times now := by
  obtain ⟨e, he, hlt⟩ := unexpired_iff.mp h
  exact unexpired_iff.mpr ⟨e, he, hle.trans hlt⟩

theorem Unexpired.not_past (h : c.Unexpired times now) : ¬ c.Past times now := by
  intro hpast
  obtain ⟨e, he, hle⟩ := unexpired_iff.mp h
  obtain ⟨e', he', hlt⟩ := past_iff.mp hpast
  rw [he] at he'
  cases he'
  exact absurd hlt (not_lt.mpr hle)

theorem Dated.isRevoked (h : c.Dated) : c.isRevoked = true := by
  unfold CertRecord.isRevoked
  rw [show c.revocationDate.any _ = true from h]
  rfl

theorem Dated.congr {c' : CertRecord} (h : c.Dated)
    (hdate : c'.revocationDate = c.revocationDate) : c'.Dated := by
  unfold Dated
  rw [hdate]
  exact h

theorem Past.congr {c' : CertRecord} (h : c.Past times now)
    (hexpiry : c'.expiryDate = c.expiryDate) : c'.Past times now := by
  unfold Past
  rw [hexpiry]
  exact h

theorem Unexpired.congr {c' : CertRecord} (h : c.Unexpired times now)
    (hexpiry : c'.expiryDate = c.expiryDate) : c'.Unexpired times now := by
  unfold Unexpired
  rw [hexpiry]
  exact h

end CertRecord

/-! ## What the scan makes of a row -/

theorem processCert_of_past (h : c.Past times now) :
    processCert times now revokeSerial c = { c with status := some "Expired" } := by
  obtain ⟨e, he, hlt⟩ := CertRecord.past_iff.mp h
  unfold processCert
  rw [he]
  exact if_pos hlt

theorem processCert_of_unexpired (h : c.Unexpired times now) :
    processCert times now revokeSerial c =
      if c.isRevoking revokeSerial then
        { c with status := some "Revoked", revocationDate := some (times.format now) }
      else if c.isRevoked then { c with status := some "Revoked" } else c := by
  obtain ⟨e, he, hle⟩ := CertRecord.unexpired_iff.mp h
  unfold processCert
  rw [he]
  exact if_neg (not_lt.mpr hle)

theorem processCert_of_none (h : expiryOf times c.expiryDate = none) :
    processCert times now revokeSerial c = c := by
  unfold processCert
  rw [h]

theorem processCert_dated (h : c.Dated) : (processCert times now revokeSerial c).Dated := by
  obtain ⟨date, hdate, hne⟩ := CertRecord.dated_iff.mp h
  exact CertRecord.dated_iff.mpr
    ⟨date, (processCert_succeeds times now revokeSerial c).revoked date hdate hne, hne⟩

theorem CertRecord.dated_of_isRevoked (h : c.isRevoked = true)
    (hstatus : c.status = some "Revoked" → c.Dated) : c.Dated := by
  unfold CertRecord.isRevoked at h
  rcases Bool.or_eq_true_iff.mp h with hdate | hrevoked
  · exact hdate
  · exact hstatus (of_decide_eq_true hrevoked)

/-- A certificate that was found as valid and has not expired is revoked by the scan. -/
theorem processCert_revokes (htimes : times.Reads) (h : c.Unexpired times now)
    (hstatus : c.status = some "Valid") :
    (processCert times now (some c.serial) c).status = some "Revoked" ∧
      (processCert times now (some c.serial) c).Dated := by
  rw [processCert_of_unexpired h]
  cases hrevoked : c.isRevoked with
  | false =>
    have hrevoking : c.isRevoking (some c.serial) = true := by
      unfold CertRecord.isRevoking
      simp [hrevoked]
    rw [if_pos hrevoking]
    exact ⟨rfl, CertRecord.dated_iff.mpr ⟨_, rfl, htimes.format_ne now⟩⟩
  | true =>
    have hrevoking : c.isRevoking (some c.serial) = false := by
      unfold CertRecord.isRevoking
      simp [hrevoked]
    rw [hrevoking, if_neg (by simp), if_pos rfl]
    have hdated : c.Dated := CertRecord.dated_of_isRevoked hrevoked fun h => by
      rw [hstatus] at h
      exact absurd h (by decide)
    exact ⟨rfl, hdated⟩

/-- One that has expired, or says no expiry, is not. -/
theorem processCert_not_revoked (h : ¬ c.Unexpired times now)
    (hstatus : c.status = some "Valid") :
    (processCert times now revokeSerial c).status ≠ some "Revoked" := by
  cases hexpiry : expiryOf times c.expiryDate with
  | none =>
    rw [processCert_of_none hexpiry, hstatus]
    decide
  | some e =>
    have hlt : e < now := by
      rcases lt_or_ge e now with hlt | hge
      · exact hlt
      · exact absurd (CertRecord.unexpired_iff.mpr ⟨e, hexpiry, hge⟩) h
    rw [processCert_of_past (CertRecord.past_iff.mpr ⟨e, hexpiry, hlt⟩)]
    simp

/-- What the scan counts as revoked is revoked when it is done, and unexpired. -/
theorem processedRevoked_iff :
    processedRevoked times now revokeSerial c = true ↔
      c.Unexpired times now ∧ (processCert times now revokeSerial c).isRevoked = true := by
  unfold processedRevoked
  constructor
  · intro h
    obtain ⟨e, he, hcond⟩ := (Option.any_eq_true _ _).mp h
    rw [Bool.and_eq_true, decide_eq_true_eq] at hcond
    have hunexpired := CertRecord.unexpired_iff.mpr ⟨e, he, hcond.1⟩
    refine ⟨hunexpired, ?_⟩
    rw [processCert_of_unexpired hunexpired]
    split
    · simp [CertRecord.isRevoked]
    next hrevoking =>
      rw [Bool.eq_false_iff.mpr hrevoking, Bool.or_false] at hcond
      rw [if_pos hcond.2]
      simp [CertRecord.isRevoked]
  · rintro ⟨hunexpired, hrevoked⟩
    obtain ⟨e, he, hle⟩ := CertRecord.unexpired_iff.mp hunexpired
    refine (Option.any_eq_true _ _).mpr ⟨e, he, ?_⟩
    rw [processCert_of_unexpired hunexpired] at hrevoked
    rw [Bool.and_eq_true, decide_eq_true_eq, Bool.or_eq_true_iff]
    refine ⟨hle, ?_⟩
    split at hrevoked
    next hrevoking => exact .inr hrevoking
    next =>
      split at hrevoked
      next h => exact .inl h
      next => exact .inl hrevoked

@[simp] theorem processCert_certType :
    (processCert times now revokeSerial c).certType = c.certType := by
  obtain ⟨_, _, h⟩ := exists_processCert times now revokeSerial c
  rw [h]

@[simp] theorem processCert_deletedAt :
    (processCert times now revokeSerial c).deletedAt = c.deletedAt := by
  obtain ⟨_, _, h⟩ := exists_processCert times now revokeSerial c
  rw [h]

/-! ## What a CRL lists -/

/-- The database as a CRL finds it. -/
def CaDatabase.scan (times : OpensslTimes) (now : Time) (db : CaDatabase) : CaDatabase :=
  match processCaDatabase times now none false db with
  | .ok _ t => t
  | .error _ t => t

/-- The entries that a CRL signed at `now` has. -/
def CaDatabase.entries (times : OpensslTimes) (now : Time) (db : CaDatabase) :
    List CrlEntry :=
  match crlEntries (db.scan times now) with
  | .ok entries _ => entries
  | .error _ _ => []

theorem scan_of_clean (h : db.dirty = false) : db.scan times now = db := by
  unfold CaDatabase.scan processCaDatabase
  rw [if_pos (by simp [h])]

theorem scan_of_dirty (times : OpensslTimes) (now : Time) (h : db.dirty = true) :
    (db.scan times now).dirty = false ∧
      (db.scan times now).rows = db.rows.map (processCert times now none) ∧
      (db.scan times now).certsRevoked =
        (db.rows.filter (processedRevoked times now none)).map CertRecord.serial := by
  unfold CaDatabase.scan processCaDatabase
  rw [if_neg (by simp [h])]
  exact ⟨rfl, rfl, rfl⟩

theorem processCaDatabase_scan :
    ∃ changed, processCaDatabase times now none false db = .ok changed (db.scan times now) := by
  unfold CaDatabase.scan processCaDatabase
  split
  · exact ⟨_, rfl⟩
  · exact ⟨_, rfl⟩

theorem scan_config (times : OpensslTimes) (now : Time) (db : CaDatabase) :
    (db.scan times now).tables.config = db.tables.config := by
  cases hdirty : db.dirty with
  | false => rw [scan_of_clean hdirty]
  | true =>
    unfold CaDatabase.scan processCaDatabase
    rw [if_neg (by simp [hdirty])]

theorem scan_given (times : OpensslTimes) (now : Time) (db : CaDatabase) :
    (db.scan times now).given = db.given := by
  cases hdirty : db.dirty with
  | false => rw [scan_of_clean hdirty]
  | true =>
    unfold CaDatabase.scan processCaDatabase
    rw [if_neg (by simp [hdirty])]

/-! ## What a call signs -/

/-- Everything that a call needs answers, and it comes to no negative number. -/
structure Publishing.Answers (publishing : Publishing) (now : Time) (config : CaConfig) :
    Prop where
  ready : publishing.ready = .ok ()
  signed : publishing.signed = .ok ()
  issuer : ∃ issuer, publishing.issuer = .ok issuer
  stored : publishing.stored = .ok ()
  numbers : ∃ batchUri, crlBatchUri config.read = .ok batchUri ∧
    ∀ n ∈ (plannedBatch config.read batchUri (wholeSeconds now) (config.counter .crl)).numbers,
      0 ≤ n

/-- Signing a CRL now goes through if everything answers; and when it does, whatever is
signed lists this, and the first of it is what is stored. -/
def CaDatabase.Signs (times : OpensslTimes) (now : Time) (db : CaDatabase)
    (p : List CrlEntry → Prop) : Prop :=
  ∀ publishing : Publishing,
    (publishing.Answers now db.tables.config →
      ∃ crls after, generateCrl times now publishing db = .ok crls after) ∧
    ∀ crls after, generateCrl times now publishing db = .ok crls after →
      (∀ crl ∈ crls, p crl.revoked) ∧ ∃ first ∈ crls.head?,
        after.given = db.given ++ crls.map (.crlNumber ·.number) ++ [.crl first.number]

theorem CaDatabase.Signs.imp {p q : List CrlEntry → Prop} (h : db.Signs times now p)
    (hpq : ∀ entries, p entries → q entries) : db.Signs times now q := by
  intro publishing
  refine ⟨(h publishing).1, fun crls after hrun => ?_⟩
  obtain ⟨hall, hstored⟩ := (h publishing).2 crls after hrun
  exact ⟨fun crl hcrl => hpq _ (hall crl hcrl), hstored⟩

theorem recordBatch_run (batchUri : Option String) (batch : CrlBatch) (s : CaDatabase) :
    ∃ t, recordBatch batchUri batch s = .ok () t ∧ t.given = s.given := by
  cases batchUri with
  | none => exact ⟨_, rfl, rfl⟩
  | some uri => exact ⟨_, rfl, rfl⟩

/-- A batch is signed and stored, or something that is needed fails. -/
theorem publishCrls_run {batchUri : Option String} {batch : CrlBatch}
    {entries : List CrlEntry} {publishing : Publishing} {issuer : Option String}
    {crls : List SignedCrl} (hbuild : buildCrls batch entries publishing.signed = .ok crls)
    (hissuer : publishing.issuer = .ok issuer) (hstored : publishing.stored = .ok ()) :
    ∃ t, publishCrls times batchUri batch entries publishing s = .ok crls t ∧
      t.given = s.given ++ crls.map (.crlNumber ·.number) ++
        (crls.take 1).map (.crl ·.number) := by
  obtain ⟨recorded, hrecord, hgiven⟩ := recordBatch_run batchUri batch s
  unfold publishCrls
  rw [hbuild, hissuer, hstored, bind_of_ok (m := outcome (.ok crls)) rfl, bind_of_ok hrecord]
  refine ⟨_, rfl, ?_⟩
  show recorded.given ++ _ ++ _ = _
  rw [hgiven]

theorem publishCrls_ok_iff {batchUri : Option String} {batch : CrlBatch}
    {entries : List CrlEntry} {publishing : Publishing} {crls : List SignedCrl} :
    (∃ t, publishCrls times batchUri batch entries publishing s = .ok crls t) ↔
      buildCrls batch entries publishing.signed = .ok crls ∧
        (∃ issuer, publishing.issuer = .ok issuer) ∧ publishing.stored = .ok () := by
  constructor
  · rintro ⟨t, h⟩
    unfold publishCrls at h
    obtain ⟨found, _, hbuild, h⟩ := of_bind_ok h
    obtain ⟨_, _, _, h⟩ := of_bind_ok h
    obtain ⟨_, _, _, h⟩ := of_bind_ok h
    obtain ⟨issuer, _, hissuer, h⟩ := of_bind_ok h
    obtain ⟨_, _, _, h⟩ := of_bind_ok h
    obtain ⟨_, _, hstored, h⟩ := of_bind_ok h
    obtain ⟨_, _, _, h⟩ := of_bind_ok h
    cases h
    exact ⟨(of_outcome_ok hbuild).1, ⟨issuer, (of_outcome_ok hissuer).1⟩,
      (of_outcome_ok hstored).1⟩
  · rintro ⟨hbuild, ⟨issuer, hissuer⟩, hstored⟩
    obtain ⟨t, ht, -⟩ := publishCrls_run hbuild hissuer hstored
    exact ⟨t, ht⟩

/-- What a call does once the CA is there. -/
theorem generateCrl_eq {publishing : Publishing} {batchUri : Option String}
    (huri : crlBatchUri db.tables.config.read = .ok batchUri)
    (hready : publishing.ready = .ok ()) :
    generateCrl times now publishing db =
      publishCrls times batchUri
        (plannedBatch db.tables.config.read batchUri (wholeSeconds now)
          (db.tables.config.counter .crl)) (db.entries times now) publishing
        (finalState (incrementSerial .crl none (db.scan times now))) := by
  obtain ⟨changed, hscan⟩ := @processCaDatabase_scan times now db
  have hconfig := scan_config times now db
  have hnumber : (db.scan times now).tables.config.current .crl none =
      db.tables.config.counter .crl := by
    rw [hconfig]
    rfl
  unfold generateCrl
  rw [bind_of_ok hscan, bind_of_ok (m := get) rfl, hconfig, huri, hready,
    bind_of_ok (m := outcome (.ok batchUri)) rfl, bind_of_ok (m := outcome (.ok ())) rfl,
    bind_of_ok (m := crlEntries) rfl, bind_of_ok (m := incrementSerial .crl none) rfl, ← hnumber]
  rfl

theorem buildCrls_nonneg {batch : CrlBatch} (h : ∀ n ∈ batch.numbers, 0 ≤ n)
    (entries : List CrlEntry) :
    buildCrls batch entries (.ok ()) = .ok ((List.range batch.count).map fun i =>
      ⟨batch.number i, batch.thisUpdate i, batch.nextUpdate i, entries⟩) := by
  have hnone : batch.numbers.find? (· < 0) = none :=
    List.find?_eq_none.mpr fun n hn => by simpa using h n hn
  unfold buildCrls
  rw [hnone]
  rfl

/-- **What a CRL lists are the entries of the database**, and it is signed unless something
that it needs fails. -/
theorem signs_entries : db.Signs times now (· = db.entries times now) := by
  intro publishing
  constructor
  · rintro ⟨hready, hsigned, ⟨issuer, hissuer⟩, hstored, batchUri, huri, hnumbers⟩
    rw [generateCrl_eq huri hready]
    have hbuild := buildCrls_nonneg hnumbers (db.entries times now)
    rw [← hsigned] at hbuild
    exact ⟨_, publishCrls_ok_iff.mpr ⟨hbuild, ⟨issuer, hissuer⟩, hstored⟩⟩
  · intro crls after h
    have hparts := h
    unfold generateCrl at hparts
    obtain ⟨_, _, hscan, hparts⟩ := of_bind_ok hparts
    obtain ⟨_, hscanned⟩ := @processCaDatabase_scan times now db
    cases hscanned.symm.trans hscan
    obtain ⟨_, _, hget, hparts⟩ := of_bind_ok hparts
    cases hget
    obtain ⟨batchUri, _, huri, hparts⟩ := of_bind_ok hparts
    have huri := (of_outcome_ok huri).1
    rw [scan_config] at huri
    obtain ⟨_, _, hready, _⟩ := of_bind_ok hparts
    rw [generateCrl_eq huri (of_outcome_ok hready).1] at h
    obtain ⟨hbuild, ⟨issuer, hissuer⟩, hstored⟩ := publishCrls_ok_iff.mp ⟨after, h⟩
    obtain ⟨t, ht, hgiven⟩ := @publishCrls_run times
      (finalState (incrementSerial .crl none (db.scan times now))) _ _ _ _ _ _ hbuild hissuer
      hstored
    cases ht.symm.trans h
    have hcrls := buildCrls_ok hbuild
    constructor
    · rw [hcrls]
      intro crl hcrl
      obtain ⟨i, _, rfl⟩ := List.mem_map.mp hcrl
      rfl
    · obtain ⟨n, hn⟩ := Nat.exists_eq_succ_of_ne_zero
        (crlPlan_pos db.tables.config.read batchUri).ne'
      have hcons := hcrls
      rw [show (plannedBatch db.tables.config.read batchUri (wholeSeconds now)
        (db.tables.config.counter .crl)).count = n + 1 from hn, List.range_succ_eq_map,
        List.map_cons] at hcons
      have hfirst : (finalState (incrementSerial .crl none (db.scan times now))).given =
          db.given :=
        scan_given times now db
      rw [hcons] at hgiven ⊢
      refine ⟨_, rfl, ?_⟩
      rw [hgiven, hfirst]
      rfl

/-- What an entry says is what the row says. -/
theorem mem_entries {entry : CrlEntry} :
    entry ∈ db.entries times now ↔ entry.serial ∈ (db.scan times now).certsRevoked ∧
      ∃ c ∈ (db.scan times now).rows, c.serial = entry.serial ∧
        c.revocationDate = some entry.revocationDate ∧ entry.revocationDate ≠ "" := by
  show entry ∈ (db.scan times now).certsRevoked.filterMap _ ↔ _
  rw [List.mem_filterMap]
  constructor
  · rintro ⟨serial, hserial, hentry⟩
    obtain ⟨c, hc, hdate⟩ := Option.bind_eq_some_iff.mp hentry
    obtain ⟨date, hfilter, rfl⟩ := Option.map_eq_some_iff.mp hdate
    obtain ⟨hsome, hne⟩ := Option.filter_eq_some_iff.mp hfilter
    refine ⟨hserial, c, List.mem_of_find?_eq_some hc, ?_, hsome, by simpa using hne⟩
    simpa using List.find?_some hc
  · rintro ⟨hserial, c, hc, hcserial, hdate, hne⟩
    refine ⟨entry.serial, hserial, ?_⟩
    rw [← hcserial, find?_key (db.scan times now).tables.certificates.serials_nodup hc,
      Option.bind_some, hdate]
    simp [hne, hcserial]

/-- What is picked for each of a list, and says which, is in their order. -/
theorem sublist_of_filterMap {α β : Type} {f : α → Option β} {g : β → α}
    (hg : ∀ a b, f a = some b → g b = a) :
    ∀ l : List α, ((l.filterMap f).map g).Sublist l
  | [] => .slnil
  | a :: l => by
    cases hf : f a with
    | none =>
      rw [List.filterMap_cons_none hf]
      exact (sublist_of_filterMap hg l).cons a
    | some b =>
      rw [List.filterMap_cons_some hf, List.map_cons, hg a b hf]
      exact (sublist_of_filterMap hg l).cons_cons a

/-- No serial is listed twice. -/
theorem entries_nodup (h : (db.scan times now).certsRevoked.Nodup) :
    ((db.entries times now).map CrlEntry.serial).Nodup := by
  refine List.Nodup.sublist (sublist_of_filterMap ?_ _) h
  intro serial entry hentry
  obtain ⟨c, _, hdate⟩ := Option.bind_eq_some_iff.mp hentry
  obtain ⟨date, _, rfl⟩ := Option.map_eq_some_iff.mp hdate
  rfl

/-! ## What is so of every row -/

/-- A row of a CA's database says when it expires, is dated as a revocation did, and is
hidden only if it may be. -/
structure CertRecord.Sound (times : OpensslTimes) (now : Time) (given : List Given)
    (c : CertRecord) : Prop where
  expires : (expiryOf times c.expiryDate).isSome
  typed : c.certType.isSome
  revoked : c.status = some "Revoked" → c.Dated
  expired : c.status = some "Expired" → c.Past times now
  dated : ∀ date, c.revocationDate = some date →
    ∃ at_, .revoked c.serial at_ ∈ given ∧ date = times.format at_
  hidden : c.deletedAt.isSome → c.certType ≠ some "ca" ∧ (c.Dated ∨ c.Past times now)

variable {given : List Given}

theorem CertRecord.past_or_unexpired (h : (expiryOf times c.expiryDate).isSome) (now : Time) :
    c.Past times now ∨ c.Unexpired times now := by
  obtain ⟨e, he⟩ := Option.isSome_iff_exists.mp h
  rcases lt_or_ge e now with hlt | hge
  · exact .inl (CertRecord.past_iff.mpr ⟨e, he, hlt⟩)
  · exact .inr (CertRecord.unexpired_iff.mpr ⟨e, he, hge⟩)

theorem CertRecord.Sound.later (h : c.Sound times now given) (hle : now ≤ now') :
    c.Sound times now' given :=
  { h with
    expired := fun hstatus => (h.expired hstatus).later hle
    hidden := fun hdeleted => ⟨(h.hidden hdeleted).1, (h.hidden hdeleted).2.imp id (·.later hle)⟩ }

theorem CertRecord.Sound.mono {more : List Given} (h : c.Sound times now given) :
    c.Sound times now (given ++ more) := by
  refine { h with dated := ?_ }
  intro date hdate
  obtain ⟨at_, hmem, hformat⟩ := h.dated date hdate
  exact ⟨at_, List.mem_append_left _ hmem, hformat⟩

theorem CertRecord.Edits.dated {c' : CertRecord} (h : c.Edits c') (hdated : c.Dated) :
    c'.Dated :=
  hdated.congr h.revocationDate

/-- A row that says when it expires says the same when it was edited. -/
theorem CertRecord.Edits.expiry {c' : CertRecord} (h : c.Edits c') {e : Time}
    (he : expiryOf times c.expiryDate = some e) : expiryOf times c'.expiryDate = some e := by
  cases hexpiry : c.expiryDate with
  | none =>
    rw [hexpiry] at he
    cases he
  | some text =>
    rw [h.expiryDate text hexpiry, ← hexpiry]
    exact he

theorem CertRecord.Edits.past {c' : CertRecord} (h : c.Edits c') (hpast : c.Past times now) :
    c'.Past times now := by
  obtain ⟨e, he, hlt⟩ := CertRecord.past_iff.mp hpast
  exact CertRecord.past_iff.mpr ⟨e, h.expiry he, hlt⟩

theorem CertRecord.Sound.edits {c' : CertRecord} (hc : c.Sound times now given)
    (h : c.Edits c') : c'.Sound times now given := by
  obtain ⟨e, he⟩ := Option.isSome_iff_exists.mp hc.expires
  obtain ⟨certType, htype⟩ := Option.isSome_iff_exists.mp hc.typed
  have htype' := h.certType certType htype
  refine ⟨?_, ?_, ?_, ?_, ?_, ?_⟩
  · rw [h.expiry he]
    rfl
  · rw [htype']
    rfl
  · rw [h.status]
    exact fun hstatus => h.dated (hc.revoked hstatus)
  · rw [h.status]
    exact fun hstatus => h.past (hc.expired hstatus)
  · rw [h.revocationDate, h.serial]
    exact hc.dated
  · rw [h.deletedAt, htype', ← htype]
    exact fun hdeleted => ⟨(hc.hidden hdeleted).1, (hc.hidden hdeleted).2.imp h.dated h.past⟩

/-- A scan, of which it is known that it revokes. -/
theorem CertRecord.Sound.processCert (htimes : times.Reads) (h : c.Sound times now given)
    (hrevokes : revokeSerial = some c.serial → .revoked c.serial now ∈ given) :
    (processCert times now revokeSerial c).Sound times now given := by
  rcases CertRecord.past_or_unexpired h.expires now with hpast | hunexpired
  · rw [processCert_of_past hpast]
    exact { h with
      revoked := fun hstatus => absurd hstatus (by simp)
      expired := fun _ => hpast
      hidden := fun hdeleted => ⟨(h.hidden hdeleted).1, .inr hpast⟩ }
  · rw [processCert_of_unexpired hunexpired]
    split
    next hrevoking =>
      unfold CertRecord.isRevoking at hrevoking
      rw [Bool.and_eq_true, decide_eq_true_eq] at hrevoking
      have hdated : CertRecord.Dated { c with
          status := some "Revoked", revocationDate := some (times.format now) } :=
        CertRecord.dated_iff.mpr ⟨_, rfl, htimes.format_ne now⟩
      refine { h with
        revoked := fun _ => hdated
        expired := fun hstatus => absurd hstatus (by simp)
        dated := ?_
        hidden := fun hdeleted => ⟨(h.hidden hdeleted).1, .inl hdated⟩ }
      intro date hdate
      cases hdate
      exact ⟨now, hrevokes hrevoking.2, rfl⟩
    next =>
      split
      next hrevoked =>
        have hdated : c.Dated := CertRecord.dated_of_isRevoked hrevoked h.revoked
        exact { h with
          revoked := fun _ => hdated
          expired := fun hstatus => absurd hstatus (by simp) }
      next => exact h

/-- The row of a certificate that was issued or imported. -/
theorem formatDbItem_sound (htimes : times.Reads) (cert : CertAttribs) (serial title : String) :
    (formatDbItem times now cert serial title).Sound times now given := by
  have hexpiry : expiryOf times (formatDbItem times now cert serial title).expiryDate =
      some cert.notAfter.val := by
    show (if times.format cert.notAfter = "" then none else
      times.parse (times.format cert.notAfter)) = _
    rw [if_neg (htimes.format_ne _), htimes.parse_format]
  refine ⟨?_, rfl, ?_, ?_, ?_, ?_⟩
  · rw [hexpiry]
    rfl
  · intro hstatus
    unfold formatDbItem at hstatus
    dsimp only at hstatus
    split at hstatus <;> exact absurd hstatus (by decide)
  · intro hstatus
    unfold formatDbItem at hstatus
    dsimp only at hstatus
    split at hstatus
    next hlt =>
      exact CertRecord.past_iff.mpr
        ⟨_, hexpiry, lt_of_lt_of_le hlt (wholeSeconds_le now)⟩
    next => exact absurd hstatus (by decide)
  · intro date hdate
    cases hdate
  · intro hdeleted
    cases hdeleted

/-! ## What is so of the database -/

/-- The last scan found what a CRL is to list. -/
structure Scanned (times : OpensslTimes) (now : Time) (db : CaDatabase) : Prop where
  nodup : db.certsRevoked.Nodup
  dated : ∀ serial ∈ db.certsRevoked, ∃ c ∈ db.rows, c.serial = serial ∧ c.Dated
  complete : ∀ c ∈ db.rows, c.Dated → c.Unexpired times now → c.serial ∈ db.certsRevoked

structure CaDatabase.Sound (times : OpensslTimes) (now : Time) (db : CaDatabase) : Prop where
  rows : ∀ c ∈ db.rows, c.Sound times now db.given
  /-- What was revoked is dated, or has expired. -/
  revoked : ∀ serial at_, .revoked serial at_ ∈ db.given →
    ∃ c ∈ db.rows, c.serial = serial ∧ (c.Dated ∨ c.Past times now)
  subordinate : ∀ serial key, .subordinate serial key ∈ db.given →
    ∃ c ∈ db.rows, c.serial = serial
  scanned : db.dirty = false → Scanned times now db

/-- Rows in place of others. -/
theorem CaDatabase.Sound.map {f : CertRecord → CertRecord} {more : List Given}
    (hs : s.Sound times now) (hrows : t.rows = s.rows.map f)
    (hgiven : t.given = s.given ++ more) (hserial : ∀ c, (f c).serial = c.serial)
    (hf : ∀ c ∈ s.rows, (f c).Sound times now t.given)
    (hgone : ∀ c ∈ s.rows, c.Dated ∨ c.Past times now → (f c).Dated ∨ (f c).Past times now)
    (hrevoked : ∀ serial at_, .revoked serial at_ ∈ more →
      ∃ c ∈ t.rows, c.serial = serial ∧ (c.Dated ∨ c.Past times now))
    (hsubordinate : ∀ serial key, .subordinate serial key ∈ more →
      ∃ c ∈ t.rows, c.serial = serial)
    (hscanned : t.dirty = false → Scanned times now t) : t.Sound times now := by
  refine ⟨?_, ?_, ?_, hscanned⟩
  · rw [hrows]
    exact List.forall_mem_map.mpr hf
  · intro serial at_ hmem
    rw [hgiven] at hmem
    rcases List.mem_append.mp hmem with hmem | hmem
    · obtain ⟨c, hc, hcserial, hgone'⟩ := hs.revoked serial at_ hmem
      refine ⟨f c, ?_, (hserial c).trans hcserial, hgone c hc hgone'⟩
      rw [hrows]
      exact List.mem_map_of_mem hc
    · exact hrevoked serial at_ hmem
  · intro serial key hmem
    rw [hgiven] at hmem
    rcases List.mem_append.mp hmem with hmem | hmem
    · obtain ⟨c, hc, hcserial⟩ := hs.subordinate serial key hmem
      refine ⟨f c, ?_, (hserial c).trans hcserial⟩
      rw [hrows]
      exact List.mem_map_of_mem hc
    · exact hsubordinate serial key hmem

/-- The same rows. -/
theorem CaDatabase.Sound.same {more : List Given} (hs : s.Sound times now)
    (hrows : t.rows = s.rows) (hgiven : t.given = s.given ++ more)
    (hmore : ∀ g ∈ more, (∀ serial at_, g ≠ .revoked serial at_) ∧
      ∀ serial key, g = .subordinate serial key → ∃ c ∈ s.rows, c.serial = serial)
    (hscanned : t.dirty = false → Scanned times now t) : t.Sound times now := by
  refine hs.map (f := id) (by rw [hrows, List.map_id]) hgiven (fun _ => rfl) ?_
    (fun _ _ h => h) ?_ ?_ hscanned
  · rw [hgiven]
    exact fun c hc => (hs.rows c hc).mono
  · exact fun serial at_ hmem => absurd rfl ((hmore _ hmem).1 serial at_)
  · rw [hrows]
    exact fun serial key hmem => (hmore _ hmem).2 serial key rfl

theorem Scanned.later (h : Scanned times now db) (hle : now ≤ now') : Scanned times now' db :=
  { h with complete := fun c hc hdated hunexpired =>
      h.complete c hc hdated (hunexpired.earlier hle) }

theorem Scanned.same (h : Scanned times now s) (hrows : t.rows = s.rows)
    (hrevoked : t.certsRevoked = s.certsRevoked) : Scanned times now t := by
  refine ⟨?_, ?_, ?_⟩
  · rw [hrevoked]
    exact h.nodup
  · rw [hrevoked, hrows]
    exact h.dated
  · rw [hrevoked, hrows]
    exact h.complete

/-- A scan finds what it says. -/
theorem Scanned.of_scan (hrows : t.rows = s.rows.map (processCert times now revokeSerial))
    (hcertsRevoked : t.certsRevoked =
      (s.rows.filter (processedRevoked times now revokeSerial)).map CertRecord.serial)
    (hsound : ∀ c ∈ t.rows, c.status = some "Revoked" → c.Dated) : Scanned times now t := by
  refine ⟨?_, ?_, ?_⟩
  · rw [hcertsRevoked]
    exact s.tables.certificates.serials_nodup.sublist (List.filter_sublist.map _)
  · intro serial hserial
    rw [hcertsRevoked] at hserial
    obtain ⟨c, hc, rfl⟩ := List.mem_map.mp hserial
    obtain ⟨hc, hrevoked⟩ := List.mem_filter.mp hc
    have hmem : processCert times now revokeSerial c ∈ t.rows := by
      rw [hrows]
      exact List.mem_map_of_mem hc
    exact ⟨_, hmem, processCert_serial _ _ _ _, CertRecord.dated_of_isRevoked
      (processedRevoked_iff.mp hrevoked).2 (hsound _ hmem)⟩
  · intro c' hc' hdated hunexpired
    rw [hrows] at hc'
    obtain ⟨c, hc, rfl⟩ := List.mem_map.mp hc'
    rw [hcertsRevoked, processCert_serial]
    refine List.mem_map_of_mem (List.mem_filter.mpr ⟨hc, ?_⟩)
    exact processedRevoked_iff.mpr
      ⟨hunexpired.congr processCert_expiryDate.symm, hdated.isRevoked⟩

theorem hide_cases (serial at_ : String) (c : CertRecord) :
    hide serial at_ c = c ∨
      (c.serial = serial ∧ hide serial at_ c = { c with deletedAt := some at_ }) := by
  unfold hide
  split
  next h =>
    rw [Bool.and_eq_true, decide_eq_true_eq] at h
    exact .inr ⟨h.1, rfl⟩
  next => exact .inl rfl

theorem CaDatabase.row_unique {c c' : CertRecord} (hc : c ∈ db.rows) (hc' : c' ∈ db.rows)
    (h : c.serial = c'.serial) : c = c' :=
  List.inj_on_of_nodup_map db.tables.certificates.serials_nodup hc hc' h

/-- A row that may be hidden is revoked or expired. -/
theorem CaDatabase.MayHide.gone {serial : String} (h : db.MayHide serial)
    (hs : db.Sound times now) (hc : c ∈ db.rows) (hserial : c.serial = serial) :
    c.certType ≠ some "ca" ∧ (c.Dated ∨ c.Past times now) := by
  obtain ⟨c', hc', hserial', htype, hstatus⟩ := h
  cases db.row_unique hc hc' (hserial.trans hserial'.symm)
  refine ⟨htype, ?_⟩
  rcases hstatus with hstatus | hstatus
  · exact .inl ((hs.rows c hc).revoked hstatus)
  · exact .inr ((hs.rows c hc).expired hstatus)

theorem clean_of_clean (hdirty : s.dirty = true → t.dirty = true) (hclean : t.dirty = false) :
    s.dirty = false := by
  cases hs : s.dirty with
  | false => rfl
  | true =>
    rw [hdirty hs] at hclean
    cases hclean

/-- Neither rows nor what was given out. -/
theorem CaDatabase.Sound.elsewhere (hs : s.Sound times now) (hrows : t.rows = s.rows)
    (hrevoked : t.certsRevoked = s.certsRevoked) (hdirty : s.dirty = true → t.dirty = true)
    (hgiven : t.given = s.given) : t.Sound times now :=
  hs.same hrows (by rw [hgiven, List.append_nil]) (by simp) fun hclean =>
    (hs.scanned (clean_of_clean hdirty hclean)).same hrows hrevoked

theorem CaDatabase.Sound.added (htimes : times.Reads) (hs : s.Sound times now)
    {cert : CertAttribs} {serial title : String}
    (hrows : t.rows = s.rows ++ [formatDbItem times now cert serial title])
    (hdirty : t.dirty = true) (hgiven : t.given = s.given) : t.Sound times now := by
  have hold : ∀ c ∈ s.rows, c ∈ t.rows := by
    intro c hc
    rw [hrows]
    exact List.mem_append_left _ hc
  refine ⟨?_, ?_, ?_, ?_⟩
  · intro c hc
    rw [hrows] at hc
    rcases List.mem_append.mp hc with hc | hc
    · rw [hgiven]
      exact hs.rows c hc
    · rw [List.mem_singleton.mp hc]
      exact formatDbItem_sound htimes cert serial title
  · rw [hgiven]
    intro other at_ hmem
    obtain ⟨c, hc, hother⟩ := hs.revoked other at_ hmem
    exact ⟨c, hold c hc, hother⟩
  · rw [hgiven]
    intro other key hmem
    obtain ⟨c, hc, hother⟩ := hs.subordinate other key hmem
    exact ⟨c, hold c hc, hother⟩
  · rw [hdirty]
    intro hclean
    cases hclean

/-- A scan, which revokes what is given out as revoked if it does not find it expired. -/
theorem CaDatabase.Sound.processed (htimes : times.Reads) (hs : s.Sound times now)
    {more : List Given} (hrows : t.rows = s.rows.map (processCert times now revokeSerial))
    (hcertsRevoked : t.certsRevoked =
      (s.rows.filter (processedRevoked times now revokeSerial)).map CertRecord.serial)
    (hgiven : t.given = s.given ++ more)
    (hmore : ∀ g ∈ more, ∃ c ∈ s.rows, c.status = some "Valid" ∧ g = .revoked c.serial now ∧
      revokeSerial = some c.serial)
    (hrevokes : ∀ serial, revokeSerial = some serial → .revoked serial now ∈ more) :
    t.Sound times now := by
  have hrow : ∀ c ∈ s.rows, (processCert times now revokeSerial c).Sound times now t.given := by
    rw [hgiven]
    intro c hc
    refine (hs.rows c hc).mono.processCert htimes fun hserial => ?_
    exact List.mem_append_right _ (hrevokes _ hserial)
  refine hs.map hrows hgiven (fun _ => processCert_serial _ _ _ _) hrow ?_ ?_ ?_ fun _ => ?_
  · exact fun c _ hgone => hgone.imp processCert_dated fun h => h.congr processCert_expiryDate
  · intro serial at_ hmem
    obtain ⟨c, hc, hstatus, heq, hserial⟩ := hmore _ hmem
    cases heq
    refine ⟨processCert times now revokeSerial c, ?_, processCert_serial _ _ _ _, ?_⟩
    · rw [hrows]
      exact List.mem_map_of_mem hc
    · rw [hserial]
      rcases CertRecord.past_or_unexpired (hs.rows c hc).expires now with hpast | hunexpired
      · exact .inr (hpast.congr processCert_expiryDate)
      · exact .inl (processCert_revokes htimes hunexpired hstatus).2
  · intro serial key hmem
    obtain ⟨c, _, _, heq, _⟩ := hmore _ hmem
    cases heq
  · refine .of_scan hrows hcertsRevoked ?_
    rw [hrows]
    exact List.forall_mem_map.mpr fun c hc => (hrow c hc).revoked

theorem CaDatabase.Sound.hid (hs : s.Sound times now) {serial at_ : String}
    (hhide : s.MayHide serial) (hrows : t.rows = s.rows.map (hide serial at_))
    (hdirty : t.dirty = true) (hgiven : t.given = s.given) : t.Sound times now := by
  refine hs.map hrows (by rw [hgiven, List.append_nil]) ?_ ?_ ?_ (by simp) (by simp) ?_
  · intro c
    rcases hide_cases serial at_ c with h | ⟨_, h⟩ <;> rw [h]
  · rw [hgiven]
    intro c hc
    rcases hide_cases serial at_ c with h | ⟨hserial, h⟩
    · rw [h]
      exact hs.rows c hc
    · have hgone := hhide.gone hs hc hserial
      rw [h]
      exact { hs.rows c hc with hidden := fun _ => hgone }
  · intro c _ hgone
    rcases hide_cases serial at_ c with h | ⟨_, h⟩
    · rw [h]
      exact hgone
    · rw [h]
      exact hgone
  · rw [hdirty]
    intro hclean
    cases hclean

theorem CaDatabase.Sound.effect (htimes : times.Reads) {may : CertRecord → Prop}
    (h : Effect times now may s t) (hs : s.Sound times now) : t.Sound times now := by
  cases h with
  | elsewhere hrows hbrokers hrevoked hdirty hgiven =>
    exact hs.elsewhere hrows hrevoked hdirty hgiven
  | gave more hmore ht =>
    subst ht
    exact hs.same rfl rfl hmore fun hclean => (hs.scanned hclean).same rfl rfl
  | edited f hf hrows hbrokers hdirty hgiven =>
    refine hs.map hrows (by rw [hgiven, List.append_nil]) (fun c => (hf c).serial) ?_ ?_
      (by simp) (by simp) ?_
    · rw [hgiven]
      exact fun c hc => (hs.rows c hc).edits (hf c)
    · exact fun c _ hgone => hgone.imp (hf c).dated (hf c).past
    · rw [hdirty]
      intro hclean
      cases hclean
  | added cert serial title hitem hnew hrows hbrokers hdirty hgiven =>
    exact hs.added htimes hrows hdirty hgiven
  | scanned hrows hbrokers hdirty hcertsRevoked hgiven =>
    exact hs.processed htimes hrows hcertsRevoked (by rw [hgiven, List.append_nil]) (by simp)
      (by simp)
  | revoked serial hfound h =>
    obtain ⟨c, hc, hserial, hstatus, _⟩ := hfound
    refine hs.processed htimes h.rows h.certsRevoked h.given ?_ (by simp)
    intro g hg
    rw [List.mem_singleton.mp hg, ← hserial]
    exact ⟨c, hc, hstatus, rfl, rfl⟩
  | hid serial hfound hrows hbrokers hdirty hgiven => exact hs.hid hfound hrows hdirty hgiven
  | enrolled broker hactive hsigned hrows hbrokers hrevoked hdirty hgiven =>
    exact hs.elsewhere hrows hrevoked hdirty hgiven
  | moved g hg hrows hbrokers hrevoked hdirty hgiven =>
    exact hs.elsewhere hrows hrevoked hdirty hgiven

theorem CaDatabase.Sound.later (hs : db.Sound times now) (hle : now ≤ now') :
    db.Sound times now' := by
  refine ⟨fun c hc => (hs.rows c hc).later hle, ?_, hs.subordinate,
    fun hclean => (hs.scanned hclean).later hle⟩
  intro serial at_ hmem
  obtain ⟨c, hc, hserial, hgone⟩ := hs.revoked serial at_ hmem
  exact ⟨c, hc, hserial, hgone.imp id (·.later hle)⟩

theorem sound_kept (htimes : times.Reads) : Kept times may (CaDatabase.Sound times) := by
  refine ⟨fun hle hs => hs.later hle, fun h hs => hs.effect htimes h, ?_⟩
  intro now db hs
  exact ⟨hs.rows, hs.revoked, hs.subordinate, fun hclean => by cases hclean⟩

/-- Any certificate may be revoked at any time. -/
theorem only_any (s : Life) (l : Event) : Only (fun _ _ => True) s l := by
  cases l with
  | operate op now => exact fun _ _ _ _ => trivial
  | _ => trivial

/-- In every state of a CA's life. -/
theorem sound_reachable (htimes : times.Reads) {l : Life}
    (hl : (life times).system.Reachable l) (hdb : l.ca = some db) : db.Sound times l.clock := by
  have hkept : Kept times (fun _ _ => True) (CaDatabase.Sound times) := sound_kept htimes
  refine hkept.reachable (hkept.found ?_) (hl.restrict only_any) hdb
  · intro now config
    refine ⟨?_, ?_, ?_, ?_⟩
    · intro c hc
      cases hc
    · intro serial at_ hmem
      cases hmem
    · intro serial key hmem
      cases hmem
    · intro hclean
      cases hclean

/-! ## What stays listed -/

/-- A row that is there stays, and what no effect takes back is so of it. -/
theorem exists_row_effect {Q : CertRecord → Prop} {may : CertRecord → Prop}
    (hedits : ∀ c c' : CertRecord, c.Edits c' → Q c → Q c')
    (hprocess : ∀ revokeSerial c, Q c → Q (processCert times now revokeSerial c))
    (hhide : ∀ c : CertRecord, ∀ at_, Q c → Q { c with deletedAt := some at_ })
    (h : Effect times now may s t) (hs : ∃ c ∈ s.rows, Q c) : ∃ c ∈ t.rows, Q c := by
  obtain ⟨c, hc, hQ⟩ := hs
  have hmap : ∀ {f : CertRecord → CertRecord}, t.rows = s.rows.map f → Q (f c) →
      ∃ c ∈ t.rows, Q c := by
    intro f hrows hf
    rw [hrows]
    exact ⟨f c, List.mem_map_of_mem hc, hf⟩
  have hsame : t.rows = s.rows → ∃ c ∈ t.rows, Q c := by
    intro hrows
    rw [hrows]
    exact ⟨c, hc, hQ⟩
  cases h with
  | elsewhere hrows => exact hsame hrows
  | gave more hmore ht => exact hsame (by rw [ht]; rfl)
  | edited f hf hrows => exact hmap hrows (hedits c (f c) (hf c) hQ)
  | added cert serial title hitem hnew hrows =>
    refine ⟨c, ?_, hQ⟩
    rw [hrows]
    exact List.mem_append_left _ hc
  | scanned hrows => exact hmap hrows (hprocess none c hQ)
  | revoked serial hfound h => exact hmap h.rows (hprocess _ c hQ)
  | hid serial hfound hrows =>
    refine hmap hrows ?_
    rcases hide_cases serial (times.format now) c with h | ⟨_, h⟩
    · rw [h]
      exact hQ
    · rw [h]
      exact hhide c _ hQ
  | enrolled broker hactive hsigned hrows => exact hsame hrows
  | moved g hg hrows => exact hsame hrows

/-- When a certificate expires does not change. -/
theorem expires_kept {serial : String} {e : Time} :
    Kept times may fun _ db =>
      ∃ c ∈ db.rows, c.serial = serial ∧ expiryOf times c.expiryDate = some e := by
  refine ⟨fun _ h => h, exists_row_effect ?_ ?_ fun _ _ h => h, fun h => h⟩
  · rintro c c' hedits ⟨hserial, he⟩
    exact ⟨hedits.serial.trans hserial, hedits.expiry he⟩
  · rintro revokeSerial c ⟨hserial, he⟩
    rw [processCert_serial, processCert_expiryDate]
    exact ⟨hserial, he⟩

/-- A row for an entry that is listed until `e`. -/
structure Listable (times : OpensslTimes) (entry : CrlEntry) (e : Time) (db : CaDatabase) :
    Prop where
  row : ∃ c ∈ db.rows, c.serial = entry.serial ∧
    c.revocationDate = some entry.revocationDate ∧ expiryOf times c.expiryDate = some e
  dated : entry.revocationDate ≠ ""
  scanned : db.dirty = false → entry.serial ∈ db.certsRevoked

variable {entry : CrlEntry} {e : Time}

/-- A scan before it expires finds it. -/
theorem Listable.processed (h : Listable times entry e s) (hle : now ≤ e)
    (hcertsRevoked : t.certsRevoked =
      (s.rows.filter (processedRevoked times now revokeSerial)).map CertRecord.serial) :
    entry.serial ∈ t.certsRevoked := by
  obtain ⟨c, hc, hserial, hdate, he⟩ := h.row
  have hdated : c.Dated := CertRecord.dated_iff.mpr ⟨_, hdate, h.dated⟩
  rw [hcertsRevoked, ← hserial]
  refine List.mem_map_of_mem (List.mem_filter.mpr ⟨hc, processedRevoked_iff.mpr ⟨?_, ?_⟩⟩)
  · exact CertRecord.unexpired_iff.mpr ⟨e, he, hle⟩
  · exact (processCert_dated hdated).isRevoked

theorem Listable.effect {may : CertRecord → Prop} (heffect : Effect times now may s t)
    (h : Listable times entry e s) (hle : now ≤ e) : Listable times entry e t := by
  refine ⟨exists_row_effect ?_ ?_ (fun _ _ h => h) heffect h.row, h.dated, ?_⟩
  · rintro c c' hedits ⟨hserial, hdate, he⟩
    exact ⟨hedits.serial.trans hserial, hedits.revocationDate.trans hdate, hedits.expiry he⟩
  · rintro revokeSerial c ⟨hserial, hdate, he⟩
    rw [processCert_serial, processCert_expiryDate]
    exact ⟨hserial, (processCert_succeeds times now revokeSerial c).revoked _ hdate h.dated, he⟩
  · intro hclean
    have hsame : t.certsRevoked = s.certsRevoked → (s.dirty = true → t.dirty = true) →
        entry.serial ∈ t.certsRevoked := by
      intro hrevoked hdirty
      rw [hrevoked]
      exact h.scanned (clean_of_clean hdirty hclean)
    have hdirtied : t.dirty = true → entry.serial ∈ t.certsRevoked := by
      intro hdirty
      rw [hdirty] at hclean
      cases hclean
    cases heffect with
    | elsewhere hrows hbrokers hrevoked hdirty hgiven => exact hsame hrevoked hdirty
    | gave more hmore ht =>
      subst ht
      exact h.scanned hclean
    | edited f hf hrows hbrokers hdirty hgiven => exact hdirtied hdirty
    | added cert serial title hitem hnew hrows hbrokers hdirty hgiven => exact hdirtied hdirty
    | scanned hrows hbrokers hdirty hcertsRevoked hgiven => exact h.processed hle hcertsRevoked
    | revoked serial hfound hrevokes => exact h.processed hle hrevokes.certsRevoked
    | hid serial hfound hrows hbrokers hdirty hgiven => exact hdirtied hdirty
    | enrolled broker hactive hsigned hrows hbrokers hrevoked hdirty hgiven =>
      exact hsame hrevoked hdirty
    | moved g hg hrows hbrokers hrevoked hdirty hgiven => exact hsame hrevoked hdirty

/-- Nothing but expiry takes it from the CRL. -/
theorem listable_kept :
    Kept times may (fun now db => now ≤ e → Listable times entry e db) := by
  refine ⟨fun hle h hle' => h (hle.trans hle'), fun heffect h hle => (h hle).effect heffect hle, ?_⟩
  intro now db h hle
  exact ⟨(h hle).row, (h hle).dated, fun hclean => by cases hclean⟩

/-- It is listed if it has not expired. -/
theorem Listable.mem_entries (h : Listable times entry e db) (hle : now ≤ e) :
    entry ∈ db.entries times now := by
  cases hdirty : db.dirty with
  | false =>
    obtain ⟨c, hc, hserial, hdate, _⟩ := h.row
    rw [Core.mem_entries, scan_of_clean hdirty]
    exact ⟨h.scanned hdirty, c, hc, hserial, hdate, h.dated⟩
  | true =>
    obtain ⟨_, hrows, hcertsRevoked⟩ := scan_of_dirty times now hdirty
    obtain ⟨c, hc, hserial, hdate, _⟩ := h.row
    refine Core.mem_entries.mpr ⟨h.processed hle hcertsRevoked, processCert times now none c, ?_,
      (processCert_serial _ _ _ _).trans hserial, processCert_revocationDate c ▸ hdate, h.dated⟩
    rw [hrows]
    exact List.mem_map_of_mem hc

/-- What is listed is a row that was revoked. -/
theorem row_of_mem_entries (hentry : entry ∈ db.entries times now) :
    ∃ c ∈ db.rows, c.serial = entry.serial ∧ c.revocationDate = some entry.revocationDate ∧
      entry.revocationDate ≠ "" := by
  obtain ⟨_, c, hc, hserial, hdate, hne⟩ := Core.mem_entries.mp hentry
  cases hdirty : db.dirty with
  | false =>
    rw [scan_of_clean hdirty] at hc
    exact ⟨c, hc, hserial, hdate, hne⟩
  | true =>
    obtain ⟨_, hrows, _⟩ := scan_of_dirty times now hdirty
    rw [hrows] at hc
    obtain ⟨before, hbefore, rfl⟩ := List.mem_map.mp hc
    refine ⟨before, hbefore, (processCert_serial _ _ _ _).symm.trans hserial, ?_, hne⟩
    rw [processCert_revocationDate] at hdate
    exact hdate

/-- A row that was revoked is listed until it expires. -/
theorem CaDatabase.Sound.listable (hs : db.Sound times now) (hc : c ∈ db.rows)
    (hserial : c.serial = entry.serial) (hdate : c.revocationDate = some entry.revocationDate)
    (hne : entry.revocationDate ≠ "") (he : expiryOf times c.expiryDate = some e)
    (hle : now ≤ e) : Listable times entry e db := by
  refine ⟨⟨c, hc, hserial, hdate, he⟩, hne, fun hclean => ?_⟩
  rw [← hserial]
  exact (hs.scanned hclean).complete c hc (CertRecord.dated_iff.mpr ⟨_, hdate, hne⟩)
    (CertRecord.unexpired_iff.mpr ⟨e, he, hle⟩)

theorem CaDatabase.Sound.nodup_entries (hs : db.Sound times now) :
    ((db.entries times now').map CrlEntry.serial).Nodup := by
  refine entries_nodup ?_
  cases hdirty : db.dirty with
  | false =>
    rw [scan_of_clean hdirty]
    exact (hs.scanned hdirty).nodup
  | true =>
    obtain ⟨_, _, hcertsRevoked⟩ := scan_of_dirty times now' hdirty
    rw [hcertsRevoked]
    exact db.tables.certificates.serials_nodup.sublist (List.filter_sublist.map _)

/-! ## The CA's own row -/

/-- The first row, which the founding made, is a CA's and in view. -/
def OwnRow (db : CaDatabase) : Prop :=
  ∃ c, db.rows.head? = some c ∧ c.certType = some "ca" ∧ c.deletedAt = none

theorem ownRow_kept : Kept times may fun _ => OwnRow := by
  refine ⟨fun _ h => h, ?_, fun h => h⟩
  rintro now s t heffect ⟨c, hhead, htype, hdeleted⟩
  have hmap : ∀ {f : CertRecord → CertRecord}, t.rows = s.rows.map f →
      (f c).certType = some "ca" ∧ (f c).deletedAt = none → OwnRow t := by
    intro f hrows hf
    refine ⟨f c, ?_, hf⟩
    rw [hrows, List.head?_map, hhead]
    rfl
  have hsame : t.rows = s.rows → OwnRow t := by
    intro hrows
    unfold OwnRow
    rw [hrows]
    exact ⟨c, hhead, htype, hdeleted⟩
  have hprocessed : ∀ {revokeSerial : Option String},
      t.rows = s.rows.map (processCert times now revokeSerial) → OwnRow t := by
    intro revokeSerial hrows
    refine hmap hrows ?_
    rw [processCert_certType, processCert_deletedAt]
    exact ⟨htype, hdeleted⟩
  cases heffect with
  | elsewhere hrows => exact hsame hrows
  | gave more hmore ht => exact hsame (by rw [ht]; rfl)
  | edited f hf hrows =>
    exact hmap hrows ⟨(hf c).certType _ htype, (hf c).deletedAt.trans hdeleted⟩
  | added cert serial title hitem hnew hrows =>
    refine ⟨c, ?_, htype, hdeleted⟩
    rw [hrows, List.head?_append, hhead]
    rfl
  | scanned hrows => exact hprocessed hrows
  | revoked serial hfound h => exact hprocessed h.rows
  | hid serial hfound hrows =>
    -- the serial is not that of a CA's row
    refine hmap hrows ?_
    rcases hide_cases serial (times.format now) c with h | ⟨hserial, _⟩
    · rw [h]
      exact ⟨htype, hdeleted⟩
    · obtain ⟨c', hc', hserial', htype', _⟩ := hfound
      have hc : c ∈ s.rows := List.mem_of_head? hhead
      cases s.row_unique hc hc' (hserial.trans hserial'.symm)
      exact absurd htype htype'
  | enrolled broker hactive hsigned hrows => exact hsame hrows
  | moved g hg hrows => exact hsame hrows

theorem storeCa_ownRow {cert : CertAttribs} {serial : String} {stored : Except OpcaError Unit} :
    Ensures (fun s => s.rows = []) (storeCa times now cert serial stored)
      (fun _ s => OwnRow s) (fun _ => True) := by
  have hstored : Ensures (fun s : CaDatabase => s.rows = []) (outcome stored : DbM Unit)
      (fun _ s => s.rows = []) (fun _ => True) :=
    .outcome (fun _ _ _ hs => hs) fun _ _ => trivial
  refine hstored.bind fun _ => ?_
  have hgive : Ensures (fun s : CaDatabase => s.rows = [])
      (storeCertbundle.giveItem true (formatDbItem times now (cert.ofType "ca") serial caTitle))
      (fun _ s => s.rows = []) (fun _ => True) :=
    fun _ hs => hs
  refine hgive.bind fun _ => ?_
  intro s hs
  unfold addCert
  cases hadd : s.tables.certificates.add
      (formatDbItem times now (cert.ofType "ca") serial caTitle) with
  | none => trivial
  | some certificates =>
    refine ⟨formatDbItem times now (cert.ofType "ca") serial caTitle, ?_, rfl, rfl⟩
    show certificates.rows.head? = _
    rw [CaCertificates.rows_add hadd, show s.tables.certificates.rows = [] from hs]
    rfl

theorem found_ownRow {founding : Founding} (hfound : founding.found times now = some db) :
    OwnRow db := by
  have hrun : Ensures (fun s => s.rows = []) (founding.run times now) (fun _ s => OwnRow s)
      (fun _ => True) := by
    have houtcome : ∀ {answer : Except OpcaError Unit},
        Ensures (fun s : CaDatabase => s.rows = []) (outcome answer : DbM Unit)
          (fun _ s => s.rows = []) (fun _ => True) :=
      .outcome (fun _ _ _ hs => hs) fun _ _ => trivial
    cases founding with
    | init config cert signed stored =>
      refine houtcome.bind fun _ => ?_
      have hserial : Ensures (fun s : CaDatabase => s.rows = []) (incrementSerial .cert none)
          (fun _ s => s.rows = []) (fun _ => True) :=
        fun _ hs => hs
      refine hserial.bind fun serial => ?_
      have hgive : Ensures (fun s : CaDatabase => s.rows = []) (give (.serial serial))
          (fun _ s => s.rows = []) (fun _ => True) :=
        fun _ hs => hs
      exact hgive.bind fun _ => storeCa_ownRow
    | importCa config cert read stored => exact houtcome.bind fun _ => storeCa_ownRow
  unfold Founding.found at hfound
  split at hfound
  next h =>
    cases hfound
    exact hrun.ok rfl h
  next => cases hfound

/-! ## The CRL over a CA's life -/

/-- The CRLs of a CA list what it revoked and has not expired, and nothing else. -/
structure ListsRevoked (times : OpensslTimes) (l : Life) (db : CaDatabase) : Prop where
  /-- What is signed, and it is unless something fails, is these entries, -/
  signed : ∀ now, db.Signs times now (· = db.entries times now)
  /-- each a row that was revoked, with its date. -/
  sound : ∀ now, ∀ entry ∈ db.entries times now, ∃ c ∈ db.rows, c.serial = entry.serial ∧
    c.revocationDate = some entry.revocationDate ∧
    ∃ at_, .revoked entry.serial at_ ∈ db.given ∧ entry.revocationDate = times.format at_
  /-- A row that was revoked is there, and listed once until it expires. -/
  complete : ∀ serial at_, .revoked serial at_ ∈ db.given → ∃ c ∈ db.rows, c.serial = serial ∧
    ∀ now, l.clock ≤ now → c.Unexpired times now →
      ((db.entries times now).map CrlEntry.serial).count serial = 1
  /-- What is listed stays so until it expires. -/
  kept : ∀ now, ∀ entry ∈ db.entries times now,
    ∀ l', (life times).system.Reaches l l' → ∃ db', l'.ca = some db' ∧
      ∀ now', l'.clock ≤ now' → ∀ c ∈ db'.rows, c.serial = entry.serial →
        c.Unexpired times now' → entry ∈ db'.entries times now'
  /-- What is hidden is revoked or expired, -/
  hidden : ∀ c ∈ db.rows, c.deletedAt.isSome → c.Dated ∨ c.Past times l.clock
  /-- and not the CA's own row. -/
  own : OwnRow db

/-- In every state of a CA's life. -/
theorem listsRevoked (htimes : times.Reads) {l : Life}
    (hl : (life times).system.Reachable l) (hdb : l.ca = some db) : ListsRevoked times l db := by
  have hsound := sound_reachable htimes hl hdb
  have hkept : Kept times (fun _ _ => True) fun _ => OwnRow := ownRow_kept
  have hown : OwnRow db := hkept.reachable found_ownRow (hl.restrict only_any) hdb
  refine ⟨fun _ => signs_entries, ?_, ?_, ?_, ?_, hown⟩
  · intro now entry hentry
    obtain ⟨c, hc, hserial, hdate, _⟩ := row_of_mem_entries hentry
    obtain ⟨at_, hgiven, hformat⟩ := (hsound.rows c hc).dated _ hdate
    rw [hserial] at hgiven
    exact ⟨c, hc, hserial, hdate, at_, hgiven, hformat⟩
  · intro serial at_ hgiven
    obtain ⟨c, hc, hserial, hgone⟩ := hsound.revoked serial at_ hgiven
    refine ⟨c, hc, hserial, ?_⟩
    intro now hle hunexpired
    have hdated : c.Dated := hgone.resolve_right (hunexpired.earlier hle).not_past
    obtain ⟨date, hdate, hne⟩ := CertRecord.dated_iff.mp hdated
    obtain ⟨e, he, hle'⟩ := CertRecord.unexpired_iff.mp hunexpired
    have hlistable : Listable times ⟨serial, date⟩ e db :=
      hsound.listable hc hserial hdate hne he (hle.trans hle')
    have hmem := List.mem_map_of_mem (f := CrlEntry.serial) (hlistable.mem_entries hle')
    exact List.count_eq_one_of_mem hsound.nodup_entries hmem
  · intro now entry hentry l' hreaches
    obtain ⟨c, hc, hserial, hdate, hne⟩ := row_of_mem_entries hentry
    obtain ⟨e, he⟩ := Option.isSome_iff_exists.mp (hsound.rows c hc).expires
    have hkept : Kept times (fun _ _ => True) fun now db =>
        (now ≤ e → Listable times entry e db) ∧
        ∃ c ∈ db.rows, c.serial = entry.serial ∧ expiryOf times c.expiryDate = some e :=
      listable_kept.and expires_kept
    obtain ⟨_, db', hdb', hlistable, c', hc', hserial', he'⟩ :=
      hkept.reaches (hreaches.restrict only_any) hdb
        ⟨hsound.listable hc hserial hdate hne he, c, hc, hserial, he⟩
    refine ⟨db', hdb', ?_⟩
    intro now' hle' other hother hsame hunexpired
    cases db'.row_unique hother hc' (hsame.trans hserial'.symm)
    obtain ⟨e', hexpiry, hle''⟩ := CertRecord.unexpired_iff.mp hunexpired
    rw [he'] at hexpiry
    cases hexpiry
    exact (hlistable (hle'.trans hle'')).mem_entries hle''
  · exact fun c hc hdeleted => ((hsound.rows c hc).hidden hdeleted).2

/-! ## A CA and its times -/

/-- Times as `chrono` writes them. -/
def sampleTexts : List (Time × String) :=
  [(1767225600 * second, "20260101000000Z"), (1767312000 * second, "20260102000000Z"),
    (1798761600 * second, "20270101000000Z"), (1893456000 * second, "20300101000000Z")]

/-- These, and for any other time its number. -/
def sampleTimes : OpensslTimes where
  parse text := ((sampleTexts.find? (·.2 = text)).map Prod.fst).or (parseSigned 128 text)
  format time := ((sampleTexts.find? (·.1 = time)).map Prod.snd).getD (toString time)

theorem sampleTimes_reads : sampleTimes.Reads := by
  have hnumber : ∀ known ∈ sampleTexts, parseSigned 128 known.2 = none := by decide
  have hparse : ∀ known ∈ sampleTexts, sampleTimes.parse known.2 = some known.1 := by decide
  have hknown : ∀ known ∈ sampleTexts, known.2 ≠ "" := by decide
  refine ⟨?_, ?_⟩
  · intro t
    show sampleTimes.parse (((sampleTexts.find? (·.1 = t.val)).map Prod.snd).getD _) = _
    cases hfind : sampleTexts.find? (·.1 = t.val) with
    | some known =>
      have htime : known.1 = t.val := by simpa using List.find?_some hfind
      rw [← htime]
      exact hparse known (List.mem_of_find?_eq_some hfind)
    | none =>
      obtain ⟨_, hlower, hupper⟩ := t.property
      have hsigned : parseSigned 128 (toString t.val) = some t.val := by
        rw [parseSigned_toString, if_pos]
        unfold second at hlower hupper
        constructor
        · refine le_trans ?_ hlower
          decide
        · refine lt_of_le_of_lt hupper ?_
          decide
      have hother : sampleTexts.find? (·.2 = toString t.val) = none := by
        refine List.find?_eq_none.mpr fun known hmem heq => ?_
        have hnone := hnumber known hmem
        rw [of_decide_eq_true heq, hsigned] at hnone
        cases hnone
      show ((sampleTexts.find? (·.2 = toString t.val)).map Prod.fst).or _ = _
      rw [hother]
      exact hsigned
  · intro t
    show ((sampleTexts.find? (·.1 = t)).map Prod.snd).getD _ ≠ ""
    cases hfind : sampleTexts.find? (·.1 = t) with
    | some known => exact hknown known (List.mem_of_find?_eq_some hfind)
    | none => exact toString_ne_empty t

/-- What a certificate says that is valid from 2026 to 2027. -/
def sampleCert (cn certType : String) : CertAttribs where
  cn := some cn
  subject := "CN=" ++ cn
  issuer := none
  certType
  notBefore := none
  notAfter := ⟨1798761600 * second, by decide⟩
  publicKey := cn
  keyType := none
  keySize := none
  san := none
  hasPrivateKey := true
  hasChain := false

/-- A CA is made on the first of January 2026. -/
def sampleFounding : Founding :=
  .init { crlBatchEnabled := some false } (sampleCert "ca" "ca") (.ok ()) (.ok ())

def sampleStart : Time := 1767225600 * second

/-- It issues a server's certificate, revokes it and deletes it from view. -/
def sampleEvents : List Event :=
  [.found sampleFounding sampleStart,
    .operate (.generate "www" (sampleCert "www" "webserver") ⟨.ok (), .ok (), .ok ()⟩ sampleStart)
      sampleStart,
    .operate (.revoke (.cn "www") sampleStart) sampleStart,
    .operate (.delete "2" (.ok ()) "operator" sampleStart) sampleStart]

/-- Nothing that signing needs fails. -/
def samplePublishing : Publishing := ⟨.ok (), .ok (), .ok none, .ok ()⟩

/-- The certificate is listed though it is hidden. -/
theorem listsRevoked_deleted :
    ∃ l db crls after, l.ca = some db ∧
      db.rows.map CertRecord.deletedAt = [none, some "20260101000000Z"] ∧
      generateCrl sampleTimes sampleStart samplePublishing db = .ok crls after ∧
      (∃ crl ∈ crls.head?, crl.revoked = [⟨"2", "20260101000000Z"⟩]) ∧
      ListsRevoked sampleTimes l db := by
  obtain ⟨l, hl, hview⟩ := Machine.exists_reachable_of_exec
    (show (life sampleTimes).init ⟨none, 0⟩ from rfl) sampleEvents
    (fun l => l.ca.any fun db =>
      db.rows.map CertRecord.deletedAt = [none, some "20260101000000Z"] &&
        db.entries sampleTimes sampleStart = [⟨"2", "20260101000000Z"⟩] &&
        crlBatchUri db.tables.config.read = .ok none &&
        (plannedBatch db.tables.config.read none (wholeSeconds sampleStart)
          (db.tables.config.counter .crl)).numbers = [1])
    (by decide)
  obtain ⟨db, hdb, hview⟩ := (Option.any_eq_true _ _).mp hview
  simp only [Bool.and_eq_true, decide_eq_true_eq] at hview
  obtain ⟨⟨⟨hdeleted, hentries⟩, huri⟩, hnumbers⟩ := hview
  have hlists := listsRevoked sampleTimes_reads hl hdb
  have hanswers : samplePublishing.Answers sampleStart db.tables.config := by
    refine ⟨rfl, rfl, ⟨none, rfl⟩, rfl, none, huri, ?_⟩
    rw [hnumbers]
    decide
  obtain ⟨crls, after, hrun⟩ := (hlists.signed sampleStart samplePublishing).1 hanswers
  obtain ⟨hrevoked, first, hfirst, -⟩ :=
    (hlists.signed sampleStart samplePublishing).2 crls after hrun
  refine ⟨l, db, crls, after, hdb, hdeleted, hrun, ⟨first, hfirst, ?_⟩, hlists⟩
  rw [hrevoked first (List.mem_of_head? hfirst), hentries]

end Opca.Core

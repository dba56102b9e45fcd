/-
  Core/Lookup.lean --- the rows that lookups find, and what the operations on them do
  when nothing fails outside (`query_cert`, `services/ca.rs`, `services/ca/publish.rs`).
-/
import Opca.Core.Listed

set_option autoImplicit false

namespace Opca.Core

open Opca.Foundation Acme

variable {times : OpensslTimes} {db : CaDatabase} {cn : String} {now : Time}
  {c r : CertRecord} {lookup : CertLookup}

/-! ## What a lookup finds -/

/-- The row that a lookup finds. -/
def CaDatabase.found (db : CaDatabase) (lookup : CertLookup) (validOnly : Bool) :
    Option CertRecord :=
  db.rows.find? fun c => lookup.finds c && (!validOnly || c.status = some "Valid")

theorem mem_of_found {validOnly : Bool} (h : db.found lookup validOnly = some c) :
    c ∈ db.rows ∧ lookup.finds c = true ∧ (validOnly = true → c.status = some "Valid") := by
  have hfound := List.find?_some h
  rw [Bool.and_eq_true] at hfound
  refine ⟨List.mem_of_find?_eq_some h, hfound.1, ?_⟩
  intro hvalid
  simpa [hvalid] using hfound.2

theorem certificateOf_found {validOnly : Bool} (h : db.found lookup validOnly = some c) :
    certificateOf lookup validOnly db = .ok c db := by
  have hquery : queryCert lookup validOnly db = .ok (db.found lookup validOnly) db := rfl
  rw [h] at hquery
  exact bind_of_ok hquery

theorem certificateOf_missing {validOnly : Bool} (h : db.found lookup validOnly = none) :
    certificateOf lookup validOnly db = .error (.certificateNotFound lookup.debug) db := by
  have hquery : queryCert lookup validOnly db = .ok (db.found lookup validOnly) db := rfl
  rw [h] at hquery
  exact bind_of_ok hquery

theorem of_certificateOf_ok {validOnly : Bool} {a : CertRecord} {t : CaDatabase}
    (h : certificateOf lookup validOnly db = .ok a t) :
    db.found lookup validOnly = some a ∧ db = t := by
  cases hfound : db.found lookup validOnly with
  | none =>
    rw [certificateOf_missing hfound] at h
    cases h
  | some r =>
    rw [certificateOf_found hfound] at h
    cases h
    exact ⟨rfl, rfl⟩

/-- A row that a lookup finds is found by its serial too. -/
theorem found_serial {validOnly : Bool} (h : db.found lookup validOnly = some c) :
    db.found (.serial c.serial) validOnly = some c := by
  obtain ⟨hmem, _, hvalid⟩ := mem_of_found h
  have hmeets : ((CertLookup.serial c.serial).finds c &&
      (!validOnly || c.status = some "Valid")) = true := by
    cases validOnly with
    | false => simp [CertLookup.finds]
    | true => simp [CertLookup.finds, hvalid rfl]
  cases hfind : db.found (.serial c.serial) validOnly with
  | none => exact absurd hmeets (List.find?_eq_none.mp hfind c hmem)
  | some other =>
    obtain ⟨hother, hfinds, _⟩ := mem_of_found hfind
    rw [db.row_unique hother hmem (of_decide_eq_true hfinds)]

theorem certificateOf_serial {validOnly : Bool} (h : db.found lookup validOnly = some c) :
    certificateOf lookup validOnly db = certificateOf (.serial c.serial) validOnly db := by
  rw [certificateOf_found h, certificateOf_found (found_serial h)]

theorem found_revocable (db : CaDatabase) (lookup : CertLookup) :
    db.found lookup true = db.revocable lookup := by
  unfold CaDatabase.found CaDatabase.revocable
  simp

theorem found_cn (db : CaDatabase) (cn : String) :
    db.found (.cn cn) false = db.rows.find? (·.cn = some cn) := by
  unfold CaDatabase.found
  simp [CertLookup.finds]

theorem found_of_mem (h : c ∈ db.rows) : db.found (.serial c.serial) false = some c := by
  have hfind : db.rows.find? (fun other => other.serial = c.serial) = some c :=
    find?_key db.tables.certificates.serials_nodup h
  unfold CaDatabase.found
  simpa [CertLookup.finds] using hfind

/-! ## What is required -/

theorem require_of {p : Prop} [Decidable p] {error : OpcaError} (h : p) :
    require p error db = .ok () db := by
  unfold require outcome
  rw [if_pos h]

theorem require_of_not {p : Prop} [Decidable p] {error : OpcaError} (h : ¬p) :
    require p error db = .error error db := by
  unfold require outcome
  rw [if_neg h]

theorem of_require_ok {p : Prop} [Decidable p] {error : OpcaError} {a : Unit}
    {t : CaDatabase} (h : require p error db = .ok a t) : p ∧ db = t := by
  by_cases hp : p
  · rw [require_of hp] at h
    cases h
    exact ⟨hp, rfl⟩
  · rw [require_of_not hp] at h
    cases h

/-! ## A serial that is taken -/

/-- Another row has the serial that is next. -/
def CaDatabase.NextTaken (db : CaDatabase) : Prop :=
  toString (db.tables.config.counter .cert) ∈ db.rows.map CertRecord.serial

theorem add_eq_none {t : CaCertificates} {record : CertRecord}
    (h : record.serial ∈ t.rows.map CertRecord.serial) : t.add record = none := by
  unfold CaCertificates.add
  refine dif_neg fun hnodup => ?_
  rw [List.map_append, List.map_singleton, List.nodup_append] at hnodup
  exact hnodup.2.2 _ h _ List.mem_cons_self rfl

theorem add_eq_some {t : CaCertificates} {record : CertRecord}
    (h : record.serial ∉ t.rows.map CertRecord.serial) :
    ∃ t', t.add record = some t' ∧ t'.rows = t.rows ++ [record] := by
  have hnodup : ((t.rows ++ [record]).map CertRecord.serial).Nodup := by
    rw [List.map_append, List.map_singleton, List.nodup_append]
    refine ⟨t.serials_nodup, List.nodup_singleton _, ?_⟩
    intro a ha b hb heq
    rw [List.mem_singleton.mp hb] at heq
    exact h (heq ▸ ha)
  exact ⟨_, dif_pos hnodup, rfl⟩

/-- A row has a serial. -/
def CaDatabase.Has (db : CaDatabase) (serial : Int) : Prop :=
  toString serial ∈ db.rows.map CertRecord.serial

theorem give_has {serial : Int} {given : Given} :
    Ensures (·.Has serial) (give given) (fun _ s => s.Has serial) (fun _ => True) :=
  .modify fun _ hs => hs

theorem outcome_has {serial : Int} {answer : Except OpcaError Unit} :
    Ensures (·.Has serial) (outcome answer : DbM Unit) (fun _ s => s.Has serial)
      (fun _ => True) :=
  .outcome (fun _ _ _ hs => hs) fun _ _ => trivial

/-- The serial that is issued is the next one. -/
theorem issue_has {signed : Except OpcaError Unit} (h : db.NextTaken) :
    Ensures (· = db) (issue signed) (fun serial s => s.Has serial) (fun _ => True) := by
  have htake : Ensures (· = db) (incrementSerial .cert none) (fun serial s => s.Has serial)
      (fun _ => True) := by
    rintro s rfl
    exact h
  refine htake.bind fun serial => ?_
  refine give_has.bind fun _ => ?_
  exact outcome_has.bind fun _ => .pure fun _ hs => hs

/-- No row is added under a serial that another has. -/
theorem storeCertbundle_has {record : CertRecord} {stored : Except OpcaError Unit}
    {serial : Int} (hserial : record.serial = toString serial) :
    Ensures (·.Has serial) (storeCertbundle true record stored (addCert record))
      (fun _ _ => False) (fun _ => True) := by
  refine outcome_has.bind fun _ => ?_
  refine give_has.bind fun _ => ?_
  intro s hs
  unfold addCert
  rw [add_eq_none (hserial ▸ hs)]
  trivial

/-- Nothing is issued under a serial that another row has. -/
theorem issueBundle_taken {cert : CertAttribs} {title : String → String} {signing : Signing}
    {andThen : String → DbM Unit} (h : db.NextTaken) :
    returned (issueBundle times now cert title signing andThen db) = false := by
  have hready : Ensures (· = db) (outcome signing.ready : DbM Unit) (fun _ s => s = db)
      (fun _ => True) :=
    .outcome (fun _ _ _ hs => hs) fun _ _ => trivial
  have hnever : Ensures (· = db) (issueBundle times now cert title signing andThen)
      (fun _ _ => False) (fun _ => True) := by
    refine hready.bind fun _ => ?_
    refine (issue_has h).bind fun serial => ?_
    exact (storeCertbundle_has rfl).bind fun _ _ hs => hs.elim
  cases hrun : issueBundle times now cert title signing andThen db with
  | ok issued t => exact (hnever.ok rfl hrun).elim
  | error e t => rfl

theorem not_taken_of_issued {cert : CertAttribs} {title : String → String}
    {signing : Signing} {andThen : String → DbM Unit}
    (h : returned (issueBundle times now cert title signing andThen db) = true) :
    ¬db.NextTaken := by
  intro htaken
  rw [issueBundle_taken htaken] at h
  cases h

/-! ## A bundle that is issued -/

theorem addCert_ok {record : CertRecord} (h : record.serial ∉ db.rows.map CertRecord.serial) :
    ∃ t, addCert record db = .ok () t ∧ t.rows = db.rows ++ [record] := by
  obtain ⟨certificates, hadd, hrows⟩ := add_eq_some h
  refine ⟨{ db with tables := { db.tables with certificates }, dirty := true }, ?_, hrows⟩
  unfold addCert
  rw [hadd]

theorem storeCertbundle_ok {record : CertRecord}
    (h : record.serial ∉ db.rows.map CertRecord.serial) :
    ∃ t, storeCertbundle true record (.ok ()) (addCert record) db = .ok () t ∧
      t.rows = db.rows ++ [record] := by
  let given : CaDatabase := { db with given := db.given ++ [.item record.serial] }
  have hgive : give (.item record.serial) db = .ok () given := rfl
  have hfree : record.serial ∉ given.rows.map CertRecord.serial := h
  obtain ⟨t, hadd, hrows⟩ := addCert_ok hfree
  exact ⟨t, (bind_of_ok rfl).trans ((bind_of_ok hgive).trans hadd), hrows⟩

theorem issue_ok (db : CaDatabase) :
    ∃ t, issue (.ok ()) db = .ok (db.tables.config.counter .cert) t ∧ t.rows = db.rows :=
  ⟨_, rfl, rfl⟩

theorem of_addCert_ok {record : CertRecord} {a : Unit} {t : CaDatabase}
    (h : addCert record db = .ok a t) :
    record.serial ∉ db.rows.map CertRecord.serial ∧ t.rows = db.rows ++ [record] := by
  have hfree : record.serial ∉ db.rows.map CertRecord.serial := by
    intro htaken
    unfold addCert at h
    rw [add_eq_none htaken] at h
    cases h
  obtain ⟨t', hadd, hrows⟩ := addCert_ok hfree
  rw [h] at hadd
  cases hadd
  exact ⟨hfree, hrows⟩

/-- The row of what is stored is new. -/
theorem of_storeCertbundle_ok {record : CertRecord} {stored : Except OpcaError Unit} {a : Unit}
    {t : CaDatabase} (h : storeCertbundle true record stored (addCert record) db = .ok a t) :
    record.serial ∉ db.rows.map CertRecord.serial ∧ t.rows = db.rows ++ [record] := by
  obtain ⟨_, _, hstored, h⟩ := of_bind_ok h
  obtain ⟨_, rfl⟩ := of_outcome_ok hstored
  obtain ⟨_, _, hgive, h⟩ := of_bind_ok h
  cases hgive
  have hadded := of_addCert_ok h
  exact hadded

theorem issue_rows {signed : Except OpcaError Unit} {serial : Int} {t : CaDatabase}
    (h : issue signed db = .ok serial t) : t.rows = db.rows := by
  obtain ⟨_, _, htake, h⟩ := of_bind_ok h
  cases htake
  obtain ⟨_, _, hgive, h⟩ := of_bind_ok h
  cases hgive
  obtain ⟨_, _, hsigned, h⟩ := of_bind_ok h
  obtain ⟨_, rfl⟩ := of_outcome_ok hsigned
  cases h
  rfl

/-- The row of a certificate that takes the next serial. -/
def CaDatabase.nextRow (db : CaDatabase) (times : OpensslTimes) (now : Time)
    (cert : CertAttribs) (title : String → String) : CertRecord :=
  formatDbItem times now cert (toString (db.tables.config.counter .cert))
    (title (toString (db.tables.config.counter .cert)))

/-- When nothing fails outside, it goes on from the database with the new row. -/
theorem issueBundle_ok {cert : CertAttribs} {title : String → String}
    {andThen : String → DbM Unit} (h : ¬db.NextTaken) :
    ∃ s, s.rows = db.rows ++ [db.nextRow times now cert title] ∧
      issueBundle times now cert title ⟨.ok (), .ok (), .ok ()⟩ andThen db =
        (andThen (toString (db.tables.config.counter .cert)) >>= fun _ =>
          pure ⟨[db.tables.config.counter .cert], []⟩) s := by
  obtain ⟨t, hissue, hrows⟩ := issue_ok db
  have hfresh : (db.nextRow times now cert title).serial ∉ t.rows.map CertRecord.serial := by
    rw [hrows]
    exact h
  obtain ⟨s, hstore, hs⟩ := storeCertbundle_ok hfresh
  refine ⟨s, hs.trans (by rw [hrows]), ?_⟩
  exact (bind_of_ok rfl).trans ((bind_of_ok hissue).trans (bind_of_ok hstore))

/-- A row once its successor is there. -/
def ignored (serial user : String) (reason : IgnoreReason) (note : Option String)
    (at_ : String) (c : CertRecord) : CertRecord :=
  if c.serial = serial then
    { c with
      ignoredAt := some at_, ignoredBy := some user, ignoredReason := some reason.asStr,
      ignoredNote := note }
  else c

theorem ignoreCert_ok {serial user at_ : String} {reason : IgnoreReason}
    {note : Option String} (h : ∃ c ∈ db.rows, c.serial = serial) :
    ∃ t, ignoreCert serial reason user note at_ db = .ok () t ∧
      t.rows = db.rows.map (ignored serial user reason note at_) := by
  obtain ⟨c, hc, hserial⟩ := h
  have hany : db.tables.certificates.rows.any (·.serial = serial) = true :=
    List.any_eq_true.mpr ⟨c, hc, decide_eq_true hserial⟩
  refine ⟨_, if_pos hany, ?_⟩
  refine List.map_congr_left fun c _ => ?_
  simp only [ignored, decide_eq_true_eq]

theorem of_ignoreCert_ok {serial user at_ : String} {reason : IgnoreReason}
    {note : Option String} {a : Unit} {t : CaDatabase}
    (h : ignoreCert serial reason user note at_ db = .ok a t) :
    t.rows = db.rows.map (ignored serial user reason note at_) := by
  unfold ignoreCert updateCerts at h
  split at h
  · cases h
    refine List.map_congr_left fun c _ => ?_
    simp only [ignored, decide_eq_true_eq]
  · cases h

theorem ignored_serial (serial user at_ : String) (reason : IgnoreReason)
    (note : Option String) (c : CertRecord) :
    (ignored serial user reason note at_ c).serial = c.serial ∧
      (ignored serial user reason note at_ c).cn = c.cn ∧
      (ignored serial user reason note at_ c).publishedAt = c.publishedAt := by
  unfold ignored
  split <;> exact ⟨rfl, rfl, rfl⟩

/-! ## A certificate that is published -/

def CertRecord.expired (times : OpensslTimes) (now : Time) (c : CertRecord) : Bool :=
  (expiryOf times c.expiryDate).any (· < wholeSeconds now)

/-- A row that may be published. -/
structure CertRecord.Publishable (times : OpensslTimes) (now : Time) (c : CertRecord) :
    Prop where
  notCa : c.certType ≠ some "ca" ∧ c.certType ≠ some "subordinateca"
  named : c.cn.getD "" ≠ ""
  unrevoked : c.status ≠ some "Revoked"
  unexpired : c.expired times now = false

/-- The latest row of a CN, which is published. -/
def CaDatabase.latest (db : CaDatabase) (cn : String) : Option CertRecord :=
  latestSerial ((selectCerts (db.rows.filter (·.deletedAt.isNone))).filter (·.cn = some cn))

/-- The row that a lookup publishes. -/
def CaDatabase.candidate (db : CaDatabase) : CertLookup → Option CertRecord
  | .cn value => db.latest value
  | other => db.found other false

theorem candidate_eq (lookup : CertLookup) :
    publishable.candidate lookup db = .ok (db.candidate lookup) db := by
  cases lookup <;> rfl

/-- What a fold ends with, when each step takes the next or keeps what it has. -/
theorem mem_of_foldl {step : Option CertRecord → CertRecord → Option CertRecord}
    (hstep : ∀ latest c, step latest c = some c ∨ step latest c = latest) :
    ∀ (rows : List CertRecord) (latest : Option CertRecord),
      rows.foldl step latest = some c → c ∈ rows ∨ latest = some c := by
  intro rows
  induction rows with
  | nil => exact fun _ h => .inr h
  | cons row rows ih =>
    intro latest h
    rcases ih _ h with hrest | hlatest
    · exact .inl (List.mem_cons_of_mem _ hrest)
    · rcases hstep latest row with hrow | hkept
      · rw [hrow] at hlatest
        cases hlatest
        exact .inl List.mem_cons_self
      · exact .inr (hkept.symm.trans hlatest)

theorem latestSerial_mem (rows : List CertRecord) (h : latestSerial rows = some c) :
    c ∈ rows := by
  unfold latestSerial at h
  have hmem := fun hstep => mem_of_foldl hstep rows none h
  refine (hmem ?_).resolve_right (by simp)
  intro latest row
  cases latest with
  | none => exact .inl rfl
  | some most =>
    dsimp only
    split
    · exact .inl rfl
    · exact .inr rfl

theorem mem_of_latest (h : db.latest cn = some c) :
    c ∈ db.rows ∧ c.cn = some cn := by
  obtain ⟨hmem, hcn⟩ := List.mem_filter.mp (latestSerial_mem _ h)
  exact ⟨(List.mem_filter.mp (mem_selectCerts.mp hmem)).1, of_decide_eq_true hcn⟩

/-- The certificate that a lookup publishes, as far as its row says. -/
theorem publishable_ok (hcandidate : db.candidate lookup = some c)
    (h : c.Publishable times now) : publishable lookup db = .ok c db := by
  have hfinds : publishable.candidate lookup db = .ok (some c) db := by
    rw [candidate_eq, hcandidate]
  refine (bind_of_ok hfinds).trans ?_
  refine (bind_of_ok (require_of h.notCa)).trans ?_
  refine (bind_of_ok (require_of h.named)).trans ?_
  exact bind_of_ok (require_of h.unrevoked)

theorem of_publishable_ok {t : CaDatabase} (h : publishable lookup db = .ok c t) :
    db = t ∧ db.candidate lookup = some c ∧ ∀ times now,
      c.expired times now = false → c.Publishable times now := by
  obtain ⟨found, s, hcandidate, h⟩ := of_bind_ok h
  rw [candidate_eq] at hcandidate
  injection hcandidate with hfound hs
  subst hs
  cases found with
  | none => cases h
  | some r =>
    obtain ⟨_, _, hrequire, h⟩ := of_bind_ok h
    obtain ⟨hca, rfl⟩ := of_require_ok hrequire
    obtain ⟨_, _, hrequire, h⟩ := of_bind_ok h
    obtain ⟨hnamed, rfl⟩ := of_require_ok hrequire
    obtain ⟨_, _, hrequire, h⟩ := of_bind_ok h
    obtain ⟨hrevoked, rfl⟩ := of_require_ok hrequire
    cases h
    exact ⟨rfl, hfound, fun _ _ hexpired => ⟨hca, hnamed, hrevoked, hexpired⟩⟩

/-- A row once a certificate is published for a CN. -/
def stamped (serial cn at_ : String) (c : CertRecord) : CertRecord :=
  if c.serial = serial ∨ (c.cn = some cn ∧ c.publishedAt.isSome) then
    { c with publishedAt := if c.serial = serial then some at_ else none }
  else c

theorem markCertPublished_ok {cn at_ : String} (hc : c ∈ db.rows) :
    ∃ t, markCertPublished c.serial cn at_ db = .ok () t ∧
      t.rows = db.rows.map (stamped c.serial cn at_) := by
  have hany : db.tables.certificates.rows.any (fun other => other.serial = c.serial ||
      (other.cn = some cn && other.publishedAt.isSome)) = true :=
    List.any_eq_true.mpr ⟨c, hc, by simp⟩
  refine ⟨_, if_pos hany, ?_⟩
  refine List.map_congr_left fun other _ => ?_
  simp only [stamped, Bool.or_eq_true, Bool.and_eq_true, decide_eq_true_eq]

end Opca.Core

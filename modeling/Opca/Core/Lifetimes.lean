/-
  Core/Lifetimes.lean --- the lifetimes that certificates and CRLs are signed for, from
  the days that are asked for or configured (`services/ca.rs`, `services/cert.rs`,
  `services/ca/subordinate.rs`).

  A date outside chrono's range is a panic.  What chrono holds, and what the signing
  authority answers, are parameters.
-/
import Opca.Core.Listed

set_option autoImplicit false

namespace Opca.Core.Lifetimes

open Opca.Foundation Acme

/-! ## Days -/

inductive CertType where
  | ca | appleDev | codeSigning | device | imported | external
  | vpnClient | vpnServer | webServer | subordinateCa
  deriving DecidableEq, Repr

/-- macOS and iOS reject TLS server certificates valid for longer. -/
def appleTlsMaxDays : UInt32 := 825

def subordinateCaDays : UInt32 := 90

def CertType.isTlsServer : CertType → Bool
  | .webServer | .vpnServer => true
  | _ => false

def CertType.defaultDays (certType : CertType) (configured : UInt32) : UInt32 :=
  if certType = .subordinateCa then subordinateCaDays
  else if certType.isTlsServer then min configured appleTlsMaxDays
  else configured

def typeDays (config : CaConfig) (certType : CertType) : Option Int :=
  (match certType with
    | .webServer => config.number .webServerDays
    | .vpnServer => config.number .vpnServerDays
    | .vpnClient => config.number .vpnClientDays
    | .device => config.number .deviceDays
    | _ => none).or (config.number .days)

/-- The days that a type is configured for. -/
def configuredDays (config : CaConfig) (certType : CertType) : Int :=
  (typeDays config certType).getD 365

/-- `as u32` of an `i64`. -/
def asU32 (n : Int) : UInt32 := UInt32.ofInt n

/-! ## Dates -/

/-- What chrono holds: the days of a `TimeDelta`, and the first and the last
`DateTime<Utc>`; and how it writes a date out. -/
structure Chrono where
  maxDays : Int
  first : Time
  last : Time
  text : Time → String

/-- That a date so many days on is one. -/
def Chrono.Holds (chrono : Chrono) (t : Time) (days : Int) : Prop :=
  -chrono.maxDays ≤ days ∧ days ≤ chrono.maxDays ∧
    chrono.first ≤ t + days * day ∧ t + days * day ≤ chrono.last

instance (chrono : Chrono) (t : Time) (days : Int) : Decidable (chrono.Holds t days) :=
  inferInstanceAs (Decidable (_ ∧ _ ∧ _ ∧ _))

structure Validity where
  notBefore : Time
  notAfter : Time
  deriving DecidableEq, Repr

/-- As ASN.1 has it, in whole seconds. -/
def Validity.asn1 (validity : Validity) : Validity :=
  ⟨wholeSeconds validity.notBefore, wholeSeconds validity.notAfter⟩

/-- The window that is signed for so many days. -/
def validityFor (now : Time) (days : Int) : Validity := ⟨now, now + days * day⟩

/-! ## Signing -/

inductive Fault where
  | panicked
  | failed (error : OpcaError)
  deriving DecidableEq, Repr

/-- The database, and the windows signed. -/
structure Dated where
  db : CaDatabase
  signed : List Validity

abbrev DatedM := EStateM Fault Dated

def attempt {α : Type} (answer : Except OpcaError α) : DatedM α :=
  outcome (answer.mapError .failed)

/-- Statements of the database. -/
def onDb {α : Type} (m : DbM α) : DatedM α := fun s =>
  match m s.db with
  | .ok a db => .ok a { s with db }
  | .error e db => .error (.failed e) { s with db }

def Chrono.plusDays (chrono : Chrono) (t : Time) (days : Int) : DatedM Time :=
  if chrono.Holds t days then return t + days * day else throw .panicked

/-- What the crates that sign answer: whether a serial is one, and whether a certificate or a
CRL is signed for a window. -/
structure SigningAuthority where
  serial : Int → Except OpcaError Unit
  certificate : Int → Validity → Except OpcaError Unit
  crl : Int → Validity → Except OpcaError Unit

def sign (answer : Except OpcaError Unit) (validity : Validity) : DatedM Unit := do
  attempt answer
  modify fun s => { s with signed := s.signed ++ [validity.asn1] }

section Operations

variable (chrono : Chrono) (authority : SigningAuthority)

/-- The days of a certificate. -/
def certDays (certType : CertType) (requested : Option UInt32) : DatedM UInt32 := do
  match requested with
  | some days =>
    if days = 0 then throw (.failed (.other "Certificate lifetime must be at least 1 day"))
    else return days
  | none =>
    let s ← get
    return certType.defaultDays (asU32 (configuredDays s.db.tables.config.read certType))

def issue (now : Time) (days : UInt32) : DatedM Int := do
  let serial ← onDb (incrementSerial .cert none)
  attempt (authority.serial serial)
  let notAfter ← chrono.plusDays now days.toNat
  sign (authority.certificate serial ⟨now, notAfter⟩) ⟨now, notAfter⟩
  return serial

/-- Whether the certificate outlives the CA, where its end can be read. -/
def issuanceWarnings (caNotAfter : Option Time) (now : Time) (days : UInt32) :
    DatedM Bool :=
  match caNotAfter with
  | none => return false
  | some caNotAfter => do
    let certNotAfter ← chrono.plusDays now days.toNat
    return caNotAfter < certNotAfter

/-- `ready` is what reading the request and the CA answers; the clock is read again for the
warnings. -/
def issueCertificate (certType : CertType) (requested : Option UInt32)
    (ready : Except OpcaError Unit) (now later : Time) (caNotAfter : Option Time) :
    DatedM (Int × Bool) := do
  let days ← certDays certType requested
  attempt ready
  let serial ← issue chrono authority now days
  let outlives ← issuanceWarnings chrono caNotAfter later days
  return (serial, outlives)

/-- Refuses a lifetime that the root does not cover. -/
def subordinateDays (requested : Option UInt32) (rootNotAfter : Except OpcaError Time)
    (now : Time) : DatedM UInt32 := do
  let days ← certDays .subordinateCa requested
  let rootNotAfter ← attempt rootNotAfter
  let notAfter ← chrono.plusDays now days.toNat
  if rootNotAfter < notAfter then
    let expires := chrono.text rootNotAfter
    throw (.failed (.invalidCertificate
      s!"A {days}-day subordinate would outlive the root CA, which expires {expires}"))
  return days

def issueSubordinate (requested : Option UInt32) (ready : Except OpcaError Unit)
    (rootNotAfter : Except OpcaError Time) (now later : Time) : DatedM Int := do
  attempt ready
  let days ← subordinateDays chrono requested rootNotAfter now
  issue chrono authority later days

/-- One CRL of a batch. -/
def signCrl (batch : CrlBatch) (i : Nat) : DatedM Unit := do
  let thisUpdate ← chrono.plusDays batch.t0 (i * batch.periodDays)
  let nextUpdate ← chrono.plusDays thisUpdate batch.windowDays
  if batch.number i < 0 then
    throw (.failed (.crypto s!"CRL number {batch.number i} is negative"))
  sign (authority.crl (batch.number i) ⟨thisUpdate, nextUpdate⟩) ⟨thisUpdate, nextUpdate⟩

/-- `ready` is whether the CA's certificate and its key are there; what is signed is then
recorded and stored. -/
def generateCrl (times : OpensslTimes) (ready : Except OpcaError Unit) (now : Time)
    (issuer : Except OpcaError (Option String)) (stored : Except OpcaError Unit) :
    DatedM (List SignedCrl) := do
  let _ ← onDb (processCaDatabase times now none false)
  let s ← get
  let batchUri ← attempt (crlBatchUri s.db.tables.config.read)
  attempt ready
  let entries ← onDb crlEntries
  let firstNumber ← onDb (incrementSerial .crl none)
  let batch := plannedBatch s.db.tables.config.read batchUri (wholeSeconds now) firstNumber
  (List.range batch.count).forM (signCrl chrono authority batch)
  onDb (publishCrls times batchUri batch entries ⟨ready, .ok (), issuer, stored⟩)

end Operations

/-! ## Lifetimes as asked for -/

/-- The days asked for, or the default of the type as configured. -/
def askedDays (config : CaConfig) (certType : CertType) : Option UInt32 → Int
  | some days => days.toNat
  | none =>
    if certType = .subordinateCa then 90
    else if certType.isTlsServer then min (configuredDays config certType) 825
    else configuredDays config certType

/-- The days that `certDays` gives. -/
def takenDays (config : CaConfig) (certType : CertType) : Option UInt32 → UInt32
  | some days => days
  | none => certType.defaultDays (asU32 (configuredDays config certType))

def Validity.Exact (days : Int) (validity : Validity) : Prop :=
  validity.notBefore < validity.notAfter ∧
    validity.notAfter = validity.notBefore + days * day

/-- No serial and no CRL number is used, and nothing is signed. -/
structure Unused (s t : Dated) : Prop where
  counters : ∀ kind, t.db.tables.config.counter kind = s.db.tables.config.counter kind
  signed : t.signed = s.signed

/-- An error that uses nothing; or no panic, and so many windows, each of the days asked
for. -/
def InTime {α : Type} (s : Dated) (days : Int) (count : Nat)
    (r : EStateM.Result Fault Dated α) : Prop :=
  (∃ e t, r = .error (.failed e) t ∧ Unused s t) ∨
    (∀ t, r ≠ .error .panicked t) ∧ ∃ windows, (finalState r).signed = s.signed ++ windows ∧
      windows.length = count ∧ ∀ validity ∈ windows, validity.Exact days

variable {chrono : Chrono} {authority : SigningAuthority} {s t : Dated} {α : Type}
  {days : Int} {count : Nat}

/-! ## Windows -/

theorem wholeSeconds_add_days (t : Time) (days : Int) :
    wholeSeconds (t + days * day) = wholeSeconds t + days * day := by
  have hday : days * day = days * 86400 * second := (Int.mul_assoc days 86400 second).symm
  unfold wholeSeconds
  rw [hday, Int.add_mul_ediv_right _ _ (by decide), Int.add_mul]

/-- A signed window is of the days asked for exactly where these days are positive. -/
theorem exact_asn1_iff {now : Time} {taken : Int} :
    (validityFor now taken).asn1.Exact days ↔ 0 < taken ∧ days = taken := by
  have hday : (0 : Int) < day := by decide
  unfold Validity.Exact Validity.asn1 validityFor
  simp only [wholeSeconds_add_days]
  constructor
  · rintro ⟨hlt, heq⟩
    have htaken : taken * day = days * day := Int.add_left_cancel heq
    have hpos : 0 < taken * day := Int.lt_of_add_lt_add_left (by rwa [Int.add_zero])
    exact ⟨Int.pos_of_mul_pos_left hpos hday,
      (Int.eq_of_mul_eq_mul_right hday.ne' htaken).symm⟩
  · rintro ⟨hpos, rfl⟩
    exact ⟨Int.lt_add_of_pos_right _ (Int.mul_pos hpos hday), rfl⟩

theorem inTime_of_signed {r : EStateM.Result Fault Dated α} (windows : List Validity)
    (hpanic : ∀ t, r ≠ .error .panicked t)
    (hsigned : (finalState r).signed = s.signed ++ windows) (hcount : windows.length = count)
    (hpos : 0 < count) :
    InTime s days count r ↔ ∀ validity ∈ windows, validity.Exact days := by
  constructor
  · rintro (⟨e, t, rfl, hunused⟩ | ⟨-, windows', hsame, -, hexact⟩)
    · have hnone : s.signed = s.signed ++ windows := hunused.signed.symm.trans hsigned
      rw [List.self_eq_append_right.mp hnone] at hcount
      exact absurd hcount hpos.ne
    · rw [hsigned] at hsame
      rwa [List.append_cancel_left hsame]
  · exact fun hexact => .inr ⟨hpanic, windows, hsigned, hcount, hexact⟩

/-- What uses a serial or a number, and does not sign all windows, is not in time. -/
theorem not_inTime_of_used {r : EStateM.Result Fault Dated α} (windows : List Validity)
    (kind : SerialType)
    (hused : (finalState r).db.tables.config.counter kind ≠ s.db.tables.config.counter kind)
    (hsigned : (finalState r).signed = s.signed ++ windows)
    (hcount : windows.length < count) : ¬ InTime s days count r := by
  rintro (⟨e, t, rfl, hunused⟩ | ⟨-, windows', hsame, hall, -⟩)
  · exact hused (hunused.counters kind)
  · rw [hsigned] at hsame
    rw [List.append_cancel_left hsame, hall] at hcount
    exact lt_irrefl count hcount

theorem not_inTime_of_panicked {r : EStateM.Result Fault Dated α}
    (h : r = .error .panicked t) : ¬ InTime s days count r := by
  rintro (⟨e, t', hr, -⟩ | ⟨hpanic, -⟩)
  · rw [h] at hr
    cases hr
  · exact hpanic t h

theorem inTime_of_failed {r : EStateM.Result Fault Dated α} {e : OpcaError}
    (h : r = .error (.failed e) t) (hunused : Unused s t) : InTime s days count r :=
  .inl ⟨e, t, h, hunused⟩

/-! ## Certificates -/

/-- That a certificate is signed for so many days. -/
structure Issues (chrono : Chrono) (authority : SigningAuthority) (s : Dated) (now : Time)
    (days : Int) : Prop where
  holds : chrono.Holds now days
  serial : authority.serial (s.db.tables.config.counter .cert) = .ok ()
  certificate : authority.certificate (s.db.tables.config.counter .cert)
    (validityFor now days) = .ok ()

theorem wrapI64_succ_ne (n : Int) : wrapI64 (n + 1) ≠ n := by
  unfold wrapI64
  split <;> omega

theorem plusDays_holds {t : Time} (h : chrono.Holds t days) :
    chrono.plusDays t days s = .ok (t + days * day) s := by
  unfold Chrono.plusDays
  rw [if_pos h]
  rfl

theorem plusDays_panics {t : Time} (h : ¬ chrono.Holds t days) :
    chrono.plusDays t days s = .error .panicked s := by
  unfold Chrono.plusDays
  rw [if_neg h]
  rfl

theorem sign_ok {answer : Except OpcaError Unit} {validity : Validity}
    (h : answer = .ok ()) :
    sign answer validity s = .ok () { s with signed := s.signed ++ [validity.asn1] } := by
  rw [h]
  rfl

theorem sign_error {answer : Except OpcaError Unit} {validity : Validity} {e : OpcaError}
    (h : answer = .error e) : sign answer validity s = .error (.failed e) s := by
  rw [h]
  rfl

/-- The counter, past the serial or the number taken. -/
def Dated.past (s : Dated) (kind : SerialType) : Dated :=
  { s with db := finalState (incrementSerial kind none s.db) }

theorem incrementSerial_past (kind : SerialType) :
    onDb (incrementSerial kind none) s =
      .ok (s.db.tables.config.counter kind) (s.past kind) := rfl

theorem past_counter_ne (kind : SerialType) :
    (s.past kind).db.tables.config.counter kind ≠ s.db.tables.config.counter kind := by
  cases kind <;> exact wrapI64_succ_ne _

theorem issue_ok {now : Time} {taken : UInt32}
    (h : Issues chrono authority s now taken.toNat) :
    issue chrono authority now taken s = .ok (s.db.tables.config.counter .cert)
      { s.past .cert with
        signed := s.signed ++ [(validityFor now taken.toNat).asn1] } := by
  unfold issue
  rw [bind_of_ok (incrementSerial_past .cert), h.serial]
  refine (bind_of_ok (a := ()) rfl).trans ?_
  rw [bind_of_ok (plusDays_holds h.holds)]
  exact bind_of_ok (sign_ok h.certificate)

theorem issue_error {now : Time} {taken : UInt32}
    (h : ¬ Issues chrono authority s now taken.toNat) : ∃ fault,
    issue chrono authority now taken s = .error fault (s.past .cert) := by
  unfold issue
  rw [bind_of_ok (incrementSerial_past .cert)]
  cases hserial : authority.serial (s.db.tables.config.counter .cert) with
  | error e => exact ⟨_, bind_of_error rfl⟩
  | ok _ =>
    by_cases hholds : chrono.Holds now taken.toNat
    · cases hcertificate : authority.certificate (s.db.tables.config.counter .cert)
        (validityFor now taken.toNat) with
      | error e =>
        refine ⟨.failed e, (bind_of_ok (a := ()) rfl).trans ?_⟩
        rw [bind_of_ok (plusDays_holds hholds)]
        exact bind_of_error (sign_error hcertificate)
      | ok _ => exact absurd ⟨hholds, hserial, hcertificate⟩ h
    · refine ⟨.panicked, (bind_of_ok (a := ()) rfl).trans ?_⟩
      exact bind_of_error (plusDays_panics hholds)

theorem Unused.refl (s : Dated) : Unused s s := ⟨fun _ => rfl, rfl⟩

theorem certDays_ok {certType : CertType} {requested : Option UInt32}
    (h : requested ≠ some 0) : certDays certType requested s =
      .ok (takenDays s.db.tables.config.read certType requested) s := by
  unfold certDays takenDays
  cases requested with
  | none => rfl
  | some days =>
    simp only
    rw [if_neg fun heq => h (congrArg some heq)]
    rfl

/-- The condition for a certificate's lifetime. -/
structure CertificateFits (chrono : Chrono) (authority : SigningAuthority) (s : Dated)
    (asked : Int) (taken : UInt32) (now later : Time) (caNotAfter : Option Time) : Prop where
  /-- The cast leaves the lifetime as it is configured, and it is not zero. -/
  asked : asked = taken.toNat
  positive : 0 < taken.toNat
  issues : Issues chrono authority s now taken.toNat
  warns : caNotAfter.isSome → chrono.Holds later taken.toNat

theorem issuanceWarnings_ok {caNotAfter : Option Time} {later : Time} {taken : UInt32}
    (h : caNotAfter.isSome → chrono.Holds later taken.toNat) :
    ∃ outlives, issuanceWarnings chrono caNotAfter later taken s = .ok outlives s := by
  cases caNotAfter with
  | none => exact ⟨false, rfl⟩
  | some caNotAfter => exact ⟨_, bind_of_ok (plusDays_holds (h rfl))⟩

theorem issuanceWarnings_panics {caNotAfter : Option Time} {later : Time} {taken : UInt32}
    (h : ¬ (caNotAfter.isSome → chrono.Holds later taken.toNat)) :
    issuanceWarnings chrono caNotAfter later taken s = .error .panicked s := by
  cases caNotAfter with
  | none => exact absurd (fun hsome => by cases hsome) h
  | some caNotAfter =>
    exact bind_of_error (plusDays_panics fun hholds => h fun _ => hholds)

theorem issueCertificate_inTime_iff {certType : CertType} {requested : Option UInt32}
    {ready : Except OpcaError Unit} {now later : Time} {caNotAfter : Option Time} :
    InTime s (askedDays s.db.tables.config.read certType requested) 1
        (issueCertificate chrono authority certType requested ready now later caNotAfter s) ↔
      requested = some 0 ∨ (∃ e, ready = .error e) ∨
        CertificateFits chrono authority s
          (askedDays s.db.tables.config.read certType requested)
          (takenDays s.db.tables.config.read certType requested) now later caNotAfter := by
  unfold issueCertificate
  by_cases hzero : requested = some 0
  · subst hzero
    exact iff_of_true (inTime_of_failed (bind_of_error rfl) (.refl s)) (.inl rfl)
  rw [bind_of_ok (certDays_ok hzero), or_iff_right hzero]
  generalize askedDays s.db.tables.config.read certType requested = asked
  generalize takenDays s.db.tables.config.read certType requested = taken
  cases ready with
  | error e =>
    exact iff_of_true (inTime_of_failed (bind_of_error rfl) (.refl s)) (.inl ⟨e, rfl⟩)
  | ok _ =>
    rw [or_iff_right (by rintro ⟨e, h⟩; cases h), bind_of_ok (m := attempt (.ok ())) rfl]
    by_cases hissues : Issues chrono authority s now taken.toNat
    · rw [bind_of_ok (issue_ok hissues)]
      by_cases hwarns : caNotAfter.isSome → chrono.Holds later taken.toNat
      · obtain ⟨outlives, hrest⟩ := issuanceWarnings_ok (s := { s.past .cert with
          signed := s.signed ++ [(validityFor now taken.toNat).asn1] }) hwarns
        rw [bind_of_ok hrest]
        refine (inTime_of_signed [(validityFor now taken.toNat).asn1] (fun t h => ?_) rfl rfl
          Nat.one_pos).trans ?_
        · exact absurd h (fun heq => nomatch heq)
        · rw [List.forall_mem_singleton, exact_asn1_iff]
          exact ⟨fun h => ⟨h.2, Int.natCast_pos.mp h.1, hissues, hwarns⟩,
            fun h => ⟨Int.natCast_pos.mpr h.positive, h.asked⟩⟩
      · exact iff_of_false (not_inTime_of_panicked (bind_of_error
          (issuanceWarnings_panics hwarns))) fun h => hwarns h.warns
    · obtain ⟨fault, hissue⟩ := issue_error hissues
      rw [bind_of_error hissue]
      exact iff_of_false (not_inTime_of_used [] .cert (past_counter_ne .cert)
        (List.append_nil _).symm Nat.one_pos) fun h => hissues h.issues

/-! ## Subordinates -/

/-- The condition for a subordinate's lifetime: a panic is left out, and a lifetime that the
root covers is signed. -/
structure SubordinateFits (chrono : Chrono) (authority : SigningAuthority) (s : Dated)
    (taken : UInt32) (rootNotAfter now later : Time) : Prop where
  holds : chrono.Holds now taken.toNat
  issues : now + taken.toNat * day ≤ rootNotAfter →
    Issues chrono authority s later taken.toNat

theorem askedDays_subordinate (config : CaConfig) (requested : Option UInt32) :
    askedDays config .subordinateCa requested =
      (takenDays config .subordinateCa requested).toNat := by
  cases requested <;> rfl

theorem takenDays_pos {config : CaConfig} {requested : Option UInt32}
    (h : requested ≠ some 0) : 0 < (takenDays config .subordinateCa requested).toNat := by
  cases requested with
  | none => exact (by decide : 0 < subordinateCaDays.toNat)
  | some days =>
    refine Nat.pos_of_ne_zero fun hzero => h (congrArg some ?_)
    exact UInt32.toNat_inj.mp hzero

/-- What the check of a subordinate's lifetime answers. -/
theorem subordinateDays_cases {requested : Option UInt32} {rootNotAfter : Except OpcaError Time}
    {now : Time} {taken : UInt32} (hzero : requested ≠ some 0)
    (htaken : takenDays s.db.tables.config.read .subordinateCa requested = taken) :
    (∃ e, rootNotAfter = .error e ∧
      subordinateDays chrono requested rootNotAfter now s = .error (.failed e) s) ∨
    ∃ root, rootNotAfter = .ok root ∧
      (¬ chrono.Holds now taken.toNat ∧
          subordinateDays chrono requested rootNotAfter now s = .error .panicked s ∨
        chrono.Holds now taken.toNat ∧ root < now + taken.toNat * day ∧
          (∃ e, subordinateDays chrono requested rootNotAfter now s = .error (.failed e) s) ∨
        chrono.Holds now taken.toNat ∧ now + taken.toNat * day ≤ root ∧
          subordinateDays chrono requested rootNotAfter now s = .ok taken s) := by
  unfold subordinateDays
  rw [bind_of_ok (certDays_ok hzero), htaken]
  cases rootNotAfter with
  | error e => exact .inl ⟨e, rfl, bind_of_error rfl⟩
  | ok root =>
    refine .inr ⟨root, rfl, ?_⟩
    rw [bind_of_ok (m := attempt (.ok root)) rfl]
    by_cases hholds : chrono.Holds now taken.toNat
    · refine .inr ?_
      rw [bind_of_ok (plusDays_holds hholds)]
      by_cases hlt : root < now + taken.toNat * day
      · simp only [if_pos hlt]
        exact .inl ⟨hholds, hlt, _, rfl⟩
      · simp only [if_neg hlt]
        exact .inr ⟨hholds, not_lt.mp hlt, rfl⟩
    · exact .inl ⟨hholds, bind_of_error (plusDays_panics hholds)⟩

theorem issueSubordinate_inTime_iff {requested : Option UInt32} {ready : Except OpcaError Unit}
    {rootNotAfter : Except OpcaError Time} {now later : Time} :
    InTime s (askedDays s.db.tables.config.read .subordinateCa requested) 1
        (issueSubordinate chrono authority requested ready rootNotAfter now later s) ↔
      requested = some 0 ∨ (∃ e, ready = .error e) ∨ (∃ e, rootNotAfter = .error e) ∨
        ∃ root, rootNotAfter = .ok root ∧ SubordinateFits chrono authority s
          (takenDays s.db.tables.config.read .subordinateCa requested) root now later := by
  rw [askedDays_subordinate]
  unfold issueSubordinate
  cases ready with
  | error e =>
    exact iff_of_true (inTime_of_failed (bind_of_error rfl) (.refl s)) (.inr (.inl ⟨e, rfl⟩))
  | ok _ =>
    rw [bind_of_ok (m := attempt (.ok ())) rfl]
    by_cases hzero : requested = some 0
    · subst hzero
      exact iff_of_true (inTime_of_failed (bind_of_error rfl) (.refl s)) (.inl rfl)
    have hpos := @takenDays_pos s.db.tables.config.read requested hzero
    have hcases := @subordinateDays_cases chrono s requested rootNotAfter now _ hzero rfl
    rw [or_iff_right hzero, or_iff_right (by rintro ⟨e, h⟩; cases h)]
    generalize takenDays s.db.tables.config.read .subordinateCa requested = taken at hpos hcases ⊢
    obtain ⟨e, rfl, hrun⟩ | ⟨root, rfl, hroot⟩ := hcases
    · exact iff_of_true (inTime_of_failed (bind_of_error hrun) (.refl s)) (.inl ⟨e, rfl⟩)
    rw [or_iff_right (by rintro ⟨e, h⟩; cases h)]
    obtain ⟨hpanic, hrun⟩ | ⟨hholds, hlt, e, hrun⟩ | ⟨hholds, hle, hrun⟩ := hroot
    · refine iff_of_false (not_inTime_of_panicked (bind_of_error hrun)) ?_
      rintro ⟨root', heq, hfits⟩
      exact hpanic hfits.holds
    · refine iff_of_true (inTime_of_failed (bind_of_error hrun) (.refl s)) ⟨root, rfl, hholds, ?_⟩
      exact fun hle => absurd hlt (not_lt.mpr hle)
    · rw [bind_of_ok hrun]
      by_cases hissues : Issues chrono authority s later taken.toNat
      · rw [issue_ok hissues]
        refine iff_of_true ((inTime_of_signed [(validityFor later taken.toNat).asn1]
          (fun t h => ?_) rfl rfl Nat.one_pos).mpr ?_) ⟨root, rfl, hholds, fun _ => hissues⟩
        · exact absurd h (fun heq => nomatch heq)
        · rw [List.forall_mem_singleton, exact_asn1_iff]
          exact ⟨Int.natCast_pos.mpr hpos, rfl⟩
      · obtain ⟨fault, hissue⟩ := issue_error hissues
        rw [hissue]
        refine iff_of_false (not_inTime_of_used [] .cert (past_counter_ne .cert)
          (List.append_nil _).symm Nat.one_pos) ?_
        rintro ⟨root', heq, hfits⟩
        cases heq
        exact hissues (hfits.issues hle)

/-! ## CRLs -/

/-- That a CRL of a batch is signed. -/
structure SignsCrl (chrono : Chrono) (authority : SigningAuthority) (batch : CrlBatch)
    (i : Nat) : Prop where
  starts : chrono.Holds batch.t0 (i * batch.periodDays)
  ends : chrono.Holds (batch.thisUpdate i) batch.windowDays
  number : 0 ≤ batch.number i
  signs : authority.crl (batch.number i) (validityFor (batch.thisUpdate i) batch.windowDays) =
    .ok ()

def crlWindow (batch : CrlBatch) (i : Nat) : Validity :=
  (validityFor (batch.thisUpdate i) batch.windowDays).asn1

theorem signCrl_ok {batch : CrlBatch} {i : Nat} (h : SignsCrl chrono authority batch i) :
    signCrl chrono authority batch i s =
      .ok () { s with signed := s.signed ++ [crlWindow batch i] } := by
  unfold signCrl
  rw [bind_of_ok (plusDays_holds h.starts)]
  refine (bind_of_ok (plusDays_holds h.ends)).trans ?_
  simp only [if_neg (not_lt.mpr h.number)]
  exact sign_ok h.signs

theorem signCrl_error {batch : CrlBatch} {i : Nat} (h : ¬ SignsCrl chrono authority batch i) :
    ∃ fault, signCrl chrono authority batch i s = .error fault s := by
  unfold signCrl
  by_cases hstarts : chrono.Holds batch.t0 (i * batch.periodDays)
  · rw [bind_of_ok (plusDays_holds hstarts)]
    by_cases hends : chrono.Holds (batch.thisUpdate i) batch.windowDays
    · refine Exists.imp (fun fault hfault => (bind_of_ok (plusDays_holds hends)).trans hfault) ?_
      by_cases hnumber : batch.number i < 0
      · simp only [if_pos hnumber]
        exact ⟨_, rfl⟩
      · simp only [if_neg hnumber]
        cases hsigns : authority.crl (batch.number i)
          (validityFor (batch.thisUpdate i) batch.windowDays) with
        | error e => exact ⟨_, sign_error hsigns⟩
        | ok _ => exact absurd ⟨hstarts, hends, not_lt.mp hnumber, hsigns⟩ h
    · exact ⟨_, bind_of_error (plusDays_panics hends)⟩
  · exact ⟨_, bind_of_error (plusDays_panics hstarts)⟩

theorem signCrls_ok {batch : CrlBatch} {indices : List Nat} {s : Dated}
    (h : ∀ i ∈ indices, SignsCrl chrono authority batch i) :
    indices.forM (signCrl chrono authority batch) s =
      .ok ⟨⟩ { s with signed := s.signed ++ indices.map (crlWindow batch) } := by
  induction indices generalizing s with
  | nil => simp [List.forM_nil, pure, EStateM.pure]
  | cons i indices ih =>
    refine (bind_of_ok (signCrl_ok (h i List.mem_cons_self))).trans ?_
    rw [ih fun j hj => h j (List.mem_cons_of_mem i hj)]
    simp

/-- The first CRL that is not signed ends the batch. -/
theorem signCrls_error {batch : CrlBatch} {indices : List Nat} {s : Dated}
    (h : ¬ ∀ i ∈ indices, SignsCrl chrono authority batch i) :
    ∃ fault windows, windows.length < indices.length ∧
      indices.forM (signCrl chrono authority batch) s =
        .error fault { s with signed := s.signed ++ windows } := by
  induction indices generalizing s with
  | nil => exact absurd (fun i hi => by cases hi) h
  | cons i indices ih =>
    by_cases hi : SignsCrl chrono authority batch i
    · obtain ⟨fault, windows, hcount, hrest⟩ := ih (s := { s with
        signed := s.signed ++ [crlWindow batch i] }) fun hall => h fun j hj => by
          rcases List.mem_cons.mp hj with rfl | hj
          · exact hi
          · exact hall j hj
      refine ⟨fault, crlWindow batch i :: windows, Nat.succ_lt_succ hcount, ?_⟩
      refine (bind_of_ok (signCrl_ok hi)).trans (hrest.trans ?_)
      rw [List.append_assoc]
      rfl
    · obtain ⟨fault, hfault⟩ := signCrl_error (s := s) hi
      refine ⟨fault, [], Nat.succ_pos _, (bind_of_error hfault).trans ?_⟩
      rw [List.append_nil]

/-- The condition for a CRL's lifetime. -/
structure CrlFits (chrono : Chrono) (authority : SigningAuthority) (config : CaConfig)
    (batchUri : Option String) (now : Time) : Prop where
  positive : 0 < (crlPlan config.read batchUri).1
  signs : ∀ i < (crlPlan config.read batchUri).2, SignsCrl chrono authority
    (plannedBatch config.read batchUri (wholeSeconds now) (config.counter .crl)) i

/-- The days that a CRL is asked for: a batch's, or the configured ones. -/
def askedCrlDays (config : CaConfig) : Int :=
  match crlBatchUri config with
  | .ok batchUri => (crlPlan config batchUri).1
  | .error _ => 0

def askedCrls (config : CaConfig) : Nat :=
  match crlBatchUri config with
  | .ok batchUri => (crlPlan config batchUri).2
  | .error _ => 0

theorem onDb_signed (m : DbM α) : (finalState (onDb m s)).signed = s.signed := by
  unfold onDb
  cases m s.db <;> rfl

theorem onDb_panics_not (m : DbM α) : onDb m s ≠ .error .panicked t := by
  unfold onDb
  cases m s.db with
  | ok a db => exact fun h => nomatch h
  | error e db => exact fun h => nomatch h

theorem crlWindow_exact_iff {batch : CrlBatch} (hcount : 0 < batch.count) :
    (∀ validity ∈ (List.range batch.count).map (crlWindow batch),
      validity.Exact batch.windowDays) ↔ 0 < batch.windowDays := by
  simp only [List.forall_mem_map, List.mem_range]
  unfold crlWindow
  simp only [exact_asn1_iff, and_true]
  exact ⟨fun h => h 0 hcount, fun h _ _ => h⟩

/-- The batch that is planned has the days and the count that were asked for. -/
theorem crlPlan_of_planned {config : CaConfig} {batchUri : Option String} {generatedAt : Time}
    {firstNumber : Int} {batch : CrlBatch}
    (h : plannedBatch config batchUri generatedAt firstNumber = batch) :
    (crlPlan config batchUri).1 = batch.windowDays ∧ (crlPlan config batchUri).2 = batch.count ∧
      0 < batch.count := by
  have hcount : (crlPlan config batchUri).2 = batch.count := by
    rw [← h]
    rfl
  refine ⟨?_, hcount, hcount ▸ crlPlan_pos config batchUri⟩
  rw [← h]
  rfl

/-- A CRL fits when the planned batch's days are positive and each of its CRLs is signed. -/
theorem crlFits_iff {config : CaConfig} {batchUri : Option String} {now : Time}
    {batch : CrlBatch}
    (h : plannedBatch config.read batchUri (wholeSeconds now) (config.counter .crl) = batch) :
    CrlFits chrono authority config batchUri now ↔
      0 < batch.windowDays ∧ ∀ i ∈ List.range batch.count, SignsCrl chrono authority batch i := by
  obtain ⟨hdays, hcount, -⟩ := crlPlan_of_planned h
  simp only [List.mem_range]
  constructor
  · rintro ⟨hpositive, hsigns⟩
    rw [h] at hsigns
    exact ⟨hdays ▸ hpositive, fun i hi => hsigns i (hcount ▸ hi)⟩
  · rintro ⟨hpositive, hsigns⟩
    refine ⟨hdays ▸ hpositive, fun i hi => ?_⟩
    rw [h]
    exact hsigns i (hcount ▸ hi)

theorem generateCrl_inTime_iff {times : OpensslTimes} {ready : Except OpcaError Unit}
    {now : Time} {issuer : Except OpcaError (Option String)} {stored : Except OpcaError Unit} :
    InTime s (askedCrlDays s.db.tables.config.read) (askedCrls s.db.tables.config.read)
        (generateCrl chrono authority times ready now issuer stored s) ↔
      (∃ e, crlBatchUri s.db.tables.config.read = .error e) ∨ (∃ e, ready = .error e) ∨
        ∃ batchUri, crlBatchUri s.db.tables.config.read = .ok batchUri ∧
          CrlFits chrono authority s.db.tables.config batchUri now := by
  obtain ⟨changed, hscan⟩ := @processCaDatabase_scan times now s.db
  have hconfig := scan_config times now s.db
  have hprocess : onDb (processCaDatabase times now none false) s =
      .ok changed { s with db := s.db.scan times now } := by
    unfold onDb
    rw [hscan]
  unfold generateCrl askedCrlDays askedCrls
  rw [bind_of_ok hprocess, bind_of_ok (m := get) rfl]
  simp only [hconfig]
  generalize hscanned : ({ s with db := s.db.scan times now } : Dated) = scanned
  have hcounters (kind : SerialType) :
      scanned.db.tables.config.counter kind = s.db.tables.config.counter kind := by
    rw [← hscanned, hconfig]
  have hsigned : scanned.signed = s.signed := by rw [← hscanned]
  cases huri : crlBatchUri s.db.tables.config.read with
  | error e =>
    exact iff_of_true (inTime_of_failed (bind_of_error rfl) ⟨hcounters, hsigned⟩) (.inl ⟨e, rfl⟩)
  | ok batchUri =>
    rw [or_iff_right (by rintro ⟨e, h⟩; cases h), bind_of_ok (m := attempt (.ok batchUri)) rfl]
    obtain ⟨e, rfl⟩ | rfl : (∃ e, ready = .error e) ∨ ready = .ok () := by
      cases ready with
      | error e => exact .inl ⟨e, rfl⟩
      | ok _ => exact .inr rfl
    · exact iff_of_true (inTime_of_failed (bind_of_error rfl) ⟨hcounters, hsigned⟩)
        (.inl ⟨e, rfl⟩)
    rw [or_iff_right (by rintro ⟨e, h⟩; cases h), bind_of_ok (m := attempt (.ok ())) rfl,
      bind_of_ok (m := onDb crlEntries) rfl, bind_of_ok (incrementSerial_past .crl), hcounters]
    generalize hbatch : plannedBatch s.db.tables.config.read batchUri (wholeSeconds now)
      (s.db.tables.config.counter .crl) = batch
    obtain ⟨hdays, hcount, hpos⟩ := crlPlan_of_planned hbatch
    have hfits : (∃ uri, Except.ok batchUri = (.ok uri : Except OpcaError (Option String)) ∧
        CrlFits chrono authority s.db.tables.config uri now) ↔
        0 < batch.windowDays ∧ ∀ i ∈ List.range batch.count, SignsCrl chrono authority batch i := by
      rw [← crlFits_iff hbatch]
      exact ⟨fun ⟨_, heq, hfits⟩ => by cases heq; exact hfits, fun hfits => ⟨_, rfl, hfits⟩⟩
    rw [hfits]
    simp only [hdays, hcount]
    by_cases hall : ∀ i ∈ List.range batch.count, SignsCrl chrono authority batch i
    · rw [bind_of_ok (signCrls_ok hall), and_iff_left hall, ← crlWindow_exact_iff hpos]
      refine inTime_of_signed ((List.range batch.count).map (crlWindow batch))
        (fun t => onDb_panics_not _) ?_ (by simp) hpos
      rw [onDb_signed]
      exact congrArg (· ++ _) hsigned
    · obtain ⟨fault, windows, hshort, hrun⟩ := signCrls_error (s := scanned.past .crl) hall
      rw [bind_of_error hrun]
      refine iff_of_false (not_inTime_of_used windows .crl ?_
        (congrArg (· ++ windows) hsigned) (by simpa using hshort)) fun h => hall h.2
      rw [← hcounters]
      exact past_counter_ne .crl

/-! ## Lifetimes -/

/-- A certificate, a subordinate and a CRL are in time exactly where nothing is taken, or where
the days are positive, survive the cast, stay within chrono's dates and are signed. -/
theorem lifetimes_inTime_iff (chrono : Chrono) (authority : SigningAuthority) (s : Dated)
    (now later : Time) (requested : Option UInt32) (ready : Except OpcaError Unit) :
    (∀ certType caNotAfter,
      InTime s (askedDays s.db.tables.config.read certType requested) 1
          (issueCertificate chrono authority certType requested ready now later caNotAfter s) ↔
        requested = some 0 ∨ (∃ e, ready = .error e) ∨
          CertificateFits chrono authority s
            (askedDays s.db.tables.config.read certType requested)
            (takenDays s.db.tables.config.read certType requested) now later caNotAfter) ∧
    (∀ rootNotAfter,
      InTime s (askedDays s.db.tables.config.read .subordinateCa requested) 1
          (issueSubordinate chrono authority requested ready rootNotAfter now later s) ↔
        requested = some 0 ∨ (∃ e, ready = .error e) ∨ (∃ e, rootNotAfter = .error e) ∨
          ∃ root, rootNotAfter = .ok root ∧ SubordinateFits chrono authority s
            (takenDays s.db.tables.config.read .subordinateCa requested) root now later) ∧
    ∀ times issuer stored,
      InTime s (askedCrlDays s.db.tables.config.read) (askedCrls s.db.tables.config.read)
          (generateCrl chrono authority times ready now issuer stored s) ↔
        (∃ e, crlBatchUri s.db.tables.config.read = .error e) ∨ (∃ e, ready = .error e) ∨
          ∃ batchUri, crlBatchUri s.db.tables.config.read = .ok batchUri ∧
            CrlFits chrono authority s.db.tables.config batchUri now :=
  ⟨fun _ _ => issueCertificate_inTime_iff, fun _ => issueSubordinate_inTime_iff,
    fun _ _ _ => generateCrl_inTime_iff⟩

/-! ## Days that do not fit -/

/-- Chrono's dates, from the year -262143 to 262142. -/
def chronoDates : Chrono where
  maxDays := 106751991167
  first := -8334601228800 * second
  last := 8210266876799 * second + 999999999
  text _ := ""

/-- Signs whatever it is given. -/
def willing : SigningAuthority where
  serial _ := .ok ()
  certificate _ _ := .ok ()
  crl _ _ := .ok ()

/-- A database with nothing in it but the days configured. -/
def configuredFor (days : Int) : Dated where
  db := .fromTables
    ⟨{ number := fun
        | .days | .crlDays => some days
        | _ => none },
      ⟨[], List.nodup_nil⟩, [], none, none, .empty, .empty, fun _ _ => none⟩ []
  signed := []

def today : Time := 1767225600 * second

def unreadable : OpensslTimes := ⟨fun _ => none, fun _ => ""⟩

/-- A `days` of -1 panics, one of 0 signs an empty window, and a `crl_days` of -1 one that ends
before it starts. -/
theorem days_not_inTime :
    ¬ InTime (configuredFor (-1)) (-1) 1
        (issueCertificate chronoDates willing .device none (.ok ()) today today none
          (configuredFor (-1))) ∧
      ¬ InTime (configuredFor 0) 0 1
        (issueCertificate chronoDates willing .device none (.ok ()) today today none
          (configuredFor 0)) ∧
      ¬ InTime (configuredFor (-1)) (-1) 1
        (generateCrl chronoDates willing unreadable (.ok ()) today (.ok none) (.ok ())
          (configuredFor (-1))) := by
  refine ⟨not_inTime_of_panicked rfl, ?_, ?_⟩
  · intro h
    rcases (@issueCertificate_inTime_iff chronoDates willing (configuredFor 0) .device none
      (.ok ()) today today none).mp h with hzero | ⟨e, he⟩ | hfits
    · cases hzero
    · cases he
    · exact absurd hfits.positive (by decide)
  · intro h
    rcases (@generateCrl_inTime_iff chronoDates willing (configuredFor (-1)) unreadable (.ok ())
      today (.ok none) (.ok ())).mp h with ⟨e, he⟩ | ⟨e, he⟩ | ⟨uri, huri, hfits⟩
    · cases he
    · cases he
    · cases huri
      exact absurd hfits.positive (by decide)

end Opca.Core.Lifetimes

/-
  Acme/Running.lean --- a broker over its changes: enrolments, renewals, pauses,
  revocations, restores, reloads and restarts, and beside them the finalising requests
  that it issues for and the CRLs that it signs (`enrolled.rs`, `backup.rs`, `broker.rs`,
  `acme/server.rs`, `pki.rs`).

  A change holds the state lock, and is one step.  A request does not: it is received,
  given the issuer and issued for in steps of its own, and so is a CRL signed.
-/
import Opca.Acme.Backup
import Opca.Acme.Pki

set_option autoImplicit false

namespace Opca.Acme.Broker

open Opca.Foundation

/-- A request to finalise an order. -/
structure Request where
  order : Int
  csrDer : List UInt8
  accountKey : List UInt8
  /-- The order it read as ready, and the issuer it was given. -/
  taken : Option (Order × Issuer)
  /-- Whether it was received under a pause, or after a revocation, that still stands;
  no one keeps these. -/
  underPause : Bool
  underRevocation : Bool
  deriving DecidableEq, Repr

/-- Whether a revoke has returned `Ok`, and enrolment has been reopened since; it is over
once a chain is accepted then. -/
inductive Revoked where
  | no | standing | reopened
  deriving DecidableEq, Repr

/-- A CRL, and what it was signed from. -/
structure Signed where
  crl : Crl
  store : Store
  now : Time
  /-- The serials held so far, each with the key that it was held for. -/
  held : List (String × String)

/-- A broker, and what is said of it: the last four are kept by no one. -/
structure Running where
  broker : Broker
  requests : List Request
  /-- Enrolments that were checked, whose codes are still to be redeemed. -/
  enrolling : List Checked
  /-- The enrolment that the CRL now being signed is for, and when it was read. -/
  signing : Option (Enrolled × Time)
  crls : List Signed
  /-- The serials of the subordinates ever enrolled with, each with its key. -/
  held : List (String × String)
  /-- Whether a pause has returned `Ok`, and no resume or enrolment since. -/
  pausing : Bool
  revoked : Revoked

inductive RunningStep where
  | check (enrolment : Enrolment) (now : Time)
  | redeem (checked : Checked) (redeemed : Redemption) (promote : Except String Unit) (io : Io)
  | updateChain (update : ChainUpdate) (now : Time) (io : Io)
  | revoke (io : Io)
  | pause (paused : Bool) (io : Io)
  | restore (blob : Blob) (chosen : List String) (io : RestoreIo)
  | reload (io : Io)
  | reopen (key : String)
  | restart (io : Io) (opened : Except String Unit)
  /-- The ACME listener and its certificate are looked at. -/
  | refresh (io : Io)
  /-- What the ACME handlers do to `acme.db` besides finalising. -/
  | handler (label : Label)
  | receive (order : Int) (csrDer accountKey : List UInt8)
  /-- The request reads its order and asks for the issuer. -/
  | take (request : Request)
  /-- It is issued for. -/
  | issue (request : Request) (now : Time)
  /-- A refresh of the CRL reads the enrolment. -/
  | beginCrl (now : Time)
  | signCrl

section Machine

variable (outside : Outside) (config : Config) (rules : NameRules) (signing : Signing)
  (parseSerial : String → Except String Nat)

/-- The key of an enrolment's subordinate, with its serial. -/
def heldBy (enrolled : Enrolled) : Option (String × String) :=
  (subordinateOf outside enrolled).map fun view => (view.spki, Serial.decimal view.serial)

namespace Running

/-- What was held so far, and what the enrolment holds. -/
def note (s : Running) (enrolled : Enrolled) : List (String × String) :=
  (heldBy outside enrolled).elim s.held (s.held.insert ·)

/-- The broker changed, and what it now holds noted. -/
def become (s : Running) (broker : Broker) : Running :=
  { s with
    broker
    held := broker.mode.stored.elim s.held (s.note outside) }

/-- No pause stands any more. -/
def resumed (s : Running) : Running :=
  { s with
    pausing := false
    requests := s.requests.map fun request => { request with underPause := false } }

/-- A chain was accepted. -/
def accepted (s : Running) : Running :=
  if s.revoked = .reopened then
    { s with
      revoked := .no
      requests := s.requests.map fun request => { request with underRevocation := false } }
  else s

def withStore (s : Running) (store : Store) : Running :=
  { s with broker := { s.broker with acme := { s.broker.acme with store } } }

/-- Whether a key has been the broker's. -/
def knows (s : Running) (key : String) : Bool :=
  key = s.broker.subordinate || s.held.any (·.1 = key) ||
    s.enrolling.any fun checked => (heldBy outside checked.enrolled).any (·.1 = key)

/-- What a request is given, if its order is ready and the broker issues. -/
def given (s : Running) (request : Request) : Option (Order × Issuer) := do
  let order ← s.broker.acme.store.orders.get? request.order
  if order.status = .ready then
    let issuer ← (issuing s.broker).toOption
    some (order, issuer)
  else none

/-- The store once the request's certificate is issued and recorded. -/
def finalise (s : Running) (request : Request) (now : Time) : Option Store := do
  let (order, issuer) ← request.taken
  let (_, issued) ←
    (issuer.issue rules signing order request.csrDer request.accountKey now).toOption
  let (store, _) ← (s.broker.acme.store.recordCertificate order.id issued now).toOption
  some store

/-- The subordinate that a CRL is for, and the leaves that it lists. -/
def toSign (s : Running) (enrolled : Enrolled) (now : Time) :
    Except String (String × List Revocation) := do
  let chain ← outside.certificates enrolled.chainPem
  let certificate ← chain.head?.elim (.error "the stored chain is empty") .ok
  let revoked ← (s.broker.acme.store.revokedUnexpired enrolled.issuers now).mapM
    (revocation parseSerial)
  .ok (certificate, revoked)

/-- `sign_crl`, for the enrolment that was read: a number that was taken stays taken. -/
def signCrl (s : Running) (enrolled : Enrolled) (now : Time) :
    Except String (Store × Except String Crl) := do
  let (certificate, revoked) ← s.toSign outside parseSerial enrolled now
  let (store, number) ← s.broker.acme.store.nextCrlNumber.mapError StoreError.text
  .ok (store, (outside.authority certificate s.broker.subordinate).map fun () =>
    Acme.signCrl ⟨certificate, s.broker.subordinate⟩ now revoked (asU64 number))

end Running

/-- A broker from its first start on. -/
def running : Machine Running RunningStep where
  init s := s.broker.enrolment = none ∧ s.broker.mode = .enrolling ∧
    s.broker.subordinate = s.broker.keyFile ∧ s.broker.serving = false ∧ s.requests = [] ∧
    s.enrolling = [] ∧ s.signing = none ∧ s.crls = [] ∧ s.held = [] ∧ s.pausing = false ∧
    s.revoked = .no
  next s
    | .check enrolment now =>
      if s.broker.mode = .enrolling then
        match check outside config s.broker enrolment now with
        | .error _ => some s
        | .ok checked => some { s with enrolling := s.enrolling ++ [checked] }
      else some s
    | .redeem checked redeemed promote io =>
      if checked ∈ s.enrolling then
        match redeemAndStore outside config s.broker checked redeemed promote io with
        | (_, .error _) => some { s with enrolling := s.enrolling.erase checked }
        | (broker, .ok ()) =>
          some (({ s with enrolling := s.enrolling.erase checked }.become outside
            broker).resumed.accepted)
      else none
    | .updateChain update now io =>
      match storeChain outside config s.broker update now io with
      | (broker, .error _) => some (s.become outside broker)
      | (broker, .ok _) => some (s.become outside broker).accepted
    | .revoke io =>
      match storeRevocation outside config s.broker io with
      | (broker, .error _) => some (s.become outside broker)
      | (broker, .ok _) => some { s.become outside broker with revoked := .standing }
    | .pause true io =>
      match storePause outside config s.broker true io with
      | (broker, .error _) => some (s.become outside broker)
      | (broker, .ok _) => some { s.become outside broker with pausing := true }
    | .pause false io =>
      match storePause outside config s.broker false io with
      | (broker, .error _) => some (s.become outside broker)
      | (broker, .ok _) => some (s.become outside broker).resumed
    | .restore blob chosen io =>
      some (s.become outside (restore outside config s.broker blob chosen io).1)
    | .reload io => some (s.become outside (reloadLocked outside config s.broker io).1)
    | .reopen key =>
      if s.knows outside key then none
      else some { s.become outside (reopen s.broker key) with
        revoked := if s.revoked = .no then .no else .reopened }
    | .restart io opened =>
      match start outside config s.broker io opened with
      | .error _ => none
      | .ok broker => some { s.become outside broker with
          requests := []
          enrolling := []
          signing := none }
    | .refresh io => some (s.become outside (refreshAcme outside config s.broker io))
    | .handler label =>
      match label with
      -- finalising asks the server for its issuer, below
      | .finalise _ | .issueFails _ | .record _ _ _ => none
      | _ =>
        (Acme.next rules s.broker.acme label).map fun acme =>
          { s with broker := { s.broker with acme } }
    | .receive order csrDer accountKey =>
      if s.broker.serving then
        some { s with requests := s.requests ++
          [⟨order, csrDer, accountKey, none, s.pausing, decide (s.revoked ≠ .no)⟩] }
      else none
    | .take request =>
      if request ∈ s.requests ∧ request.taken = none then
        let requests := s.requests.erase request
        match s.given request with
        | none => some { s with requests }
        | some given =>
          some { s with requests := requests ++ [{ request with taken := some given }] }
      else none
    | .issue request now =>
      if request ∈ s.requests ∧ request.taken.isSome then
        let s := { s with requests := s.requests.erase request }
        match s.finalise rules signing request now with
        | none => some s
        | some store => some (s.withStore store)
      else none
    | .beginCrl now =>
      match s.signing, s.broker.mode.live with
      | none, some enrolled => some { s with signing := some (enrolled, now) }
      | _, _ => none
    | .signCrl =>
      match s.signing with
      | none => none
      | some (enrolled, now) =>
        let s := { s with signing := none }
        match s.signCrl outside parseSerial enrolled now with
        | .error _ => some s
        | .ok (store, .error _) => some (s.withStore store)
        | .ok (store, .ok crl) =>
          some { s.withStore store with
            crls := s.crls ++ [⟨crl, s.broker.acme.store, now, s.held⟩] }

/-! ## What a step does -/

/-- Everything a step can do to the broker and to what is said of it. -/
inductive Goes (s : Running) : RunningStep → Running → Prop
  /-- Nothing but to `acme.db`, to requests that end and to the CRL being signed. -/
  | beside (l : RunningStep) (acme : State) (requests : List Request)
      (signing : Option (Enrolled × Time)) : (∀ r ∈ requests, r ∈ s.requests) →
      Goes s l { s with broker := { s.broker with acme }, requests, signing }
  | unchanged (l : RunningStep) : Goes s l (s.become outside s.broker)
  | checked {enrolment : Enrolment} {now : Time} {checked : Checked} :
      check outside config s.broker enrolment now = .ok checked →
      Goes s (.check enrolment now) { s with enrolling := s.enrolling ++ [checked] }
  | refused {l : RunningStep} (checked : Checked) :
      Goes s l { s with enrolling := s.enrolling.erase checked }
  | enrolled {checked : Checked} {redeemed : Redemption} {promote : Except String Unit}
      {io : Io} {broker : Broker} : checked ∈ s.enrolling →
      Stored s.broker checked.enrolled broker →
      Goes s (.redeem checked redeemed promote io)
        (({ s with enrolling := s.enrolling.erase checked }.become outside
          broker).resumed.accepted)
  | updated {update : ChainUpdate} {now : Time} {io : Io} {enrolled : Enrolled}
      {subordinate : CertificateView} {broker : Broker} :
      renewed outside config s.broker update now io = .ok (enrolled, subordinate) →
      Stored s.broker enrolled broker →
      Goes s (.updateChain update now io) (s.become outside broker).accepted
  | revokedAlready {io : Io} {current : Enrolled} : s.broker.enrolment = some current →
      current.revoked = true →
      Goes s (.revoke io) { s.become outside s.broker with revoked := .standing }
  | revoked {io : Io} {current : Enrolled} {broker : Broker} (revoked : Revoked) :
      s.broker.enrolment = some current → Stored s.broker { current with revoked := true } broker →
      revoked = s.revoked ∨ revoked = .standing →
      Goes s (.revoke io) { s.become outside broker with revoked }
  | pausedAlready {io : Io} {current : Enrolled} : s.broker.enrolment = some current →
      current.revoked = false → current.paused = true →
      Goes s (.pause true io) { s.become outside s.broker with pausing := true }
  | paused {io : Io} {current : Enrolled} {broker : Broker} (pausing : Bool) :
      s.broker.enrolment = some current → current.revoked = false →
      Stored s.broker { current with paused := true } broker →
      pausing = s.pausing ∨ pausing = true →
      Goes s (.pause true io) { s.become outside broker with pausing }
  | resumedAlready {io : Io} : Goes s (.pause false io) (s.become outside s.broker).resumed
  | resumed {io : Io} {current : Enrolled} {broker : Broker} :
      s.broker.enrolment = some current → current.revoked = false →
      Stored s.broker { current with paused := false } broker →
      Goes s (.pause false io) (s.become outside broker).resumed
  /-- No certificate is read at the front of the chain, so that the answer is an error. -/
  | resumedUnanswered {io : Io} {current : Enrolled} {broker : Broker} :
      s.broker.enrolment = some current → subordinateOf outside current = none →
      Stored s.broker { current with paused := false } broker →
      Goes s (.pause false io) (s.become outside broker)
  | switched {blob : Blob} {chosen : List String} {io : RestoreIo} (store : Store) :
      Goes s (.restore blob chosen io) (s.become outside (switched s.broker
        ((checkCapture outside config s.broker blob io).toWrite chosen) store))
  | restored {blob : Blob} {chosen : List String} {io : RestoreIo} (store : Store)
      {broker : Broker} :
      Refreshed { switched s.broker ((checkCapture outside config s.broker blob io).toWrite
          chosen) store with
        subordinate := s.broker.keyFile
        mode := Mode.of (((checkCapture outside config s.broker blob io).toWrite
          chosen).or s.broker.enrolment) } broker →
      Goes s (.restore blob chosen io) (s.become outside broker)
  | reloaded {io : Io} {broker : Broker} :
      Refreshed { s.broker with
        subordinate := s.broker.keyFile
        mode := Mode.of s.broker.enrolment } broker →
      Goes s (.reload io) (s.become outside broker)
  | reopened {key : String} : s.knows outside key = false →
      Goes s (.reopen key) { s.become outside (reopen s.broker key) with
        revoked := if s.revoked = .no then .no else .reopened }
  | restarted {io : Io} {opened : Except String Unit} {broker : Broker} :
      start outside config s.broker io opened = .ok broker →
      Goes s (.restart io opened) { s.become outside broker with
        requests := []
        enrolling := []
        signing := none }
  | refreshed {io : Io} {broker : Broker} : Refreshed s.broker broker →
      Goes s (.refresh io) (s.become outside broker)
  | received {order : Int} {csrDer accountKey : List UInt8} : s.broker.serving = true →
      Goes s (.receive order csrDer accountKey) { s with requests := s.requests ++
        [⟨order, csrDer, accountKey, none, s.pausing, decide (s.revoked ≠ .no)⟩] }
  | taken {request : Request} {given : Order × Issuer} : request ∈ s.requests →
      s.given request = some given →
      Goes s (.take request) { s with
        requests := s.requests.erase request ++ [{ request with taken := some given }] }
  | signed {enrolled : Enrolled} {now : Time} {store : Store} {crl : Crl} :
      s.signing = some (enrolled, now) →
      s.signCrl outside parseSerial enrolled now = .ok (store, .ok crl) →
      Goes s .signCrl { { s with signing := none }.withStore store with
        crls := s.crls ++ [⟨crl, s.broker.acme.store, now, s.held⟩] }

variable {outside config rules signing parseSerial} {s t : Running}

theorem goes_of_pause {paused : Bool} {io : Io}
    (h : (running outside config rules signing parseSerial).next s (.pause paused io) = some t) :
    Goes outside config parseSerial s (.pause paused io) t := by
  generalize hr : storePause outside config s.broker paused io = r
  obtain ⟨broker, result⟩ := r
  cases paused with
  | true =>
    simp only [running, hr] at h
    rcases storePause_cases hr with ⟨rfl, hsame⟩ | ⟨current, hdisk, hunrevoked, hstored, -⟩
    · cases result with
      | error e =>
        cases h
        exact .unchanged _
      | ok answer =>
        cases h
        obtain ⟨current, hdisk, hunrevoked, hpaused⟩ := hsame rfl
        exact .pausedAlready hdisk hunrevoked hpaused
    · cases result with
      | error e =>
        cases h
        exact .paused s.pausing hdisk hunrevoked hstored (Or.inl rfl)
      | ok answer =>
        cases h
        exact .paused true hdisk hunrevoked hstored (Or.inr rfl)
  | false =>
    simp only [running, hr] at h
    rcases storePause_cases hr with ⟨rfl, -⟩ | ⟨current, hdisk, hunrevoked, hstored, hstatus⟩
    · cases result with
      | error e =>
        cases h
        exact .unchanged _
      | ok answer =>
        cases h
        exact .resumedAlready
    · cases result with
      | error e =>
        cases h
        refine .resumedUnanswered hdisk ?_ hstored
        rw [← Option.not_isSome_iff_eq_none]
        intro hsome
        have hok : (status outside broker { current with paused := false }).isOk = true :=
          status_isOk hsome
        rw [← hstatus] at hok
        cases hok
      | ok answer =>
        cases h
        exact .resumed hdisk hunrevoked hstored

theorem goes_of_restore {blob : Blob} {chosen : List String} {io : RestoreIo} :
    Goes outside config parseSerial s (.restore blob chosen io)
      (s.become outside (restore outside config s.broker blob chosen io).1) := by
  rcases restore_cases outside config s.broker blob chosen io with
    hsame | ⟨store, u, rfl, hrestore | hrestore⟩
  · rw [hsame]
    exact .unchanged _
  · rw [hrestore]
    exact .switched store
  · rw [hrestore]
    rcases reloadLocked_cases (Prod.ext rfl rfl : reloadLocked outside config _ io.reload =
      ((reloadLocked outside config _ io.reload).1, (reloadLocked outside config _ io.reload).2))
      with hsame | hrefreshed
    · rw [hsame]
      exact .switched store
    · exact .restored store hrefreshed

theorem goes_of_next {l : RunningStep}
    (h : (running outside config rules signing parseSerial).next s l = some t) :
    Goes outside config parseSerial s l t := by
  cases l with
  | check enrolment now =>
    simp only [running] at h
    split at h
    next =>
      split at h
      next =>
        cases h
        exact .beside _ s.broker.acme s.requests s.signing fun r hr => hr
      next hcheck =>
        cases h
        exact .checked hcheck
    next =>
      cases h
      exact .beside _ s.broker.acme s.requests s.signing fun r hr => hr
  | redeem checked redeemed promote io =>
    simp only [running] at h
    split at h
    next hmem =>
      split at h
      next =>
        cases h
        exact .refused checked
      next hredeem =>
        cases h
        rcases redeemAndStore_cases hredeem with ⟨-, hfailed⟩ | ⟨hstored, -⟩
        · cases hfailed
        · exact .enrolled hmem hstored
    next => cases h
  | updateChain update now io =>
    simp only [running] at h
    split at h
    next hchain =>
      cases h
      rcases storeChain_cases hchain with ⟨rfl, -⟩ | ⟨_, _, -, -, hok⟩
      · exact .unchanged _
      · cases hok
    next hchain =>
      cases h
      rcases storeChain_cases hchain with ⟨-, hfailed⟩ | ⟨_, _, hrenewed, hstored, -⟩
      · cases hfailed
      · exact .updated hrenewed hstored
  | revoke io =>
    simp only [running] at h
    split at h
    next hrevoke =>
      cases h
      rcases storeRevocation_cases hrevoke with ⟨rfl, -⟩ | ⟨current, hdisk, hstored⟩
      · exact .unchanged _
      · exact .revoked s.revoked hdisk hstored (Or.inl rfl)
    next hrevoke =>
      cases h
      rcases storeRevocation_cases hrevoke with ⟨rfl, hsame⟩ | ⟨current, hdisk, hstored⟩
      · obtain ⟨current, hdisk, hrevoked⟩ := hsame rfl
        exact .revokedAlready hdisk hrevoked
      · exact .revoked .standing hdisk hstored (Or.inr rfl)
  | pause paused io => exact goes_of_pause h
  | restore blob chosen io =>
    cases h
    exact goes_of_restore
  | reload io =>
    cases h
    rcases reloadLocked_cases (Prod.ext rfl rfl : reloadLocked outside config s.broker io =
      ((reloadLocked outside config s.broker io).1, (reloadLocked outside config s.broker io).2))
      with hsame | hrefreshed
    · rw [hsame]
      exact .unchanged _
    · exact .reloaded hrefreshed
  | reopen key =>
    simp only [running] at h
    split at h
    next => cases h
    next hnew =>
      cases h
      exact .reopened (Bool.eq_false_iff.mpr hnew)
  | restart io opened =>
    simp only [running] at h
    split at h
    next => cases h
    next hstart =>
      cases h
      exact .restarted hstart
  | refresh io =>
    cases h
    exact .refreshed (refreshed_refreshAcme _ io)
  | handler label =>
    simp only [running] at h
    split at h
    next => cases h
    next => cases h
    next => cases h
    next =>
      obtain ⟨acme, -, rfl⟩ := Option.map_eq_some_iff.mp h
      exact .beside _ acme s.requests s.signing fun r hr => hr
  | receive order csrDer accountKey =>
    simp only [running] at h
    split at h
    next hserving =>
      cases h
      exact .received hserving
    next => cases h
  | take request =>
    simp only [running] at h
    split at h
    next hrequest =>
      split at h
      next =>
        cases h
        exact .beside _ s.broker.acme _ s.signing fun r hr => List.mem_of_mem_erase hr
      next given hgiven =>
        cases h
        exact .taken hrequest.1 hgiven
    next => cases h
  | issue request now =>
    simp only [running] at h
    split at h
    next =>
      split at h
      next =>
        cases h
        exact .beside _ s.broker.acme _ s.signing fun r hr => List.mem_of_mem_erase hr
      next store _ =>
        cases h
        exact .beside _ { s.broker.acme with store } _ s.signing
          fun r hr => List.mem_of_mem_erase hr
    next => cases h
  | beginCrl now =>
    simp only [running] at h
    split at h
    next enrolled _ _ =>
      cases h
      exact .beside _ s.broker.acme s.requests (some (enrolled, now)) fun r hr => hr
    next => cases h
  | signCrl =>
    simp only [running] at h
    split at h
    next => cases h
    next enrolled now hsigning =>
      split at h
      next =>
        cases h
        exact .beside _ s.broker.acme s.requests none fun r hr => hr
      next store _ _ =>
        cases h
        exact .beside _ { s.broker.acme with store } s.requests none fun r hr => hr
      next hsign =>
        cases h
        exact .signed hsigning hsign

end Machine

/-! ## A small run -/

def readyOrder : Order :=
  ⟨1, 1, .ready, ["*.example.com", "example.com"], none, none, 1000 * day, none, none, 0⟩

def readyStore : Store :=
  { Store.empty with
    accounts := ⟨[⟨1, "", "thumb", .valid, [], 0⟩], by decide⟩
    orders := ⟨[readyOrder], by decide⟩ }

/-- A broker with an order that is ready, and no enrolment. -/
def freshBroker : Running where
  broker := ⟨none, "key", ⟨readyStore, [], [], [], []⟩, "key", .enrolling, false, none, false⟩
  requests := []
  enrolling := []
  signing := none
  crls := []
  held := []
  pausing := false
  revoked := .no

theorem freshBroker_init {outside : Outside} {config : Config} {rules : NameRules}
    {signing : Signing} {parseSerial : String → Except String Nat} :
    (running outside config rules signing parseSerial).init freshBroker :=
  ⟨rfl, rfl, rfl, rfl, rfl, rfl, rfl, rfl, rfl, rfl, rfl⟩

/-- It is enrolled with the chain `ar`. -/
def enrolRun : List RunningStep :=
  [.check ⟨"code", "ar", operatorPin, plainEnrolled.config⟩ 0,
    .redeem ⟨"code", plainEnrolled, "r"⟩ .accepted (.ok ()) (.fine plainConfig)]

/-- A backup of an enrolment alone. -/
def backupOf (enrolled : Enrolled) : Blob where
  tag := some (captureFormat, captureVersion)
  capture := some ⟨none, some (some enrolled)⟩

end Opca.Acme.Broker

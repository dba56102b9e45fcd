/-
  Acme/Pki.lean --- the subordinate's certificate and its leaves' CRL: signed from
  `acme.db` one refresh at a time, and written to disk under the state lock by works
  that outlive the refreshes they time out on (`pki.rs`, `broker.rs`).
-/
import Opca.Acme.Changes
import Opca.Acme.Issue
import Opca.Foundation.Machine
import Opca.Foundation.Outbox

set_option autoImplicit false

namespace Opca.Acme

open Opca.Foundation Store

/-! ## CRLs -/

def crlLife : Time := 4 * day
def resignWithin : Time := 3 * day

inductive Reason where
  | keyCompromise
  | caCompromise
  | affiliationChanged
  | superseded
  | cessationOfOperation
  | certificateHold
  | removeFromCrl
  | privilegeWithdrawn
  | aaCompromise
  deriving DecidableEq, Repr

def reason : Option Nat → Option Reason
  | some 1 => some .keyCompromise
  | some 2 => some .caCompromise
  | some 3 => some .affiliationChanged
  | some 4 => some .superseded
  | some 5 => some .cessationOfOperation
  | some 6 => some .certificateHold
  | some 8 => some .removeFromCrl
  | some 9 => some .privilegeWithdrawn
  | some 10 => some .aaCompromise
  | _ => none

/-- An entry of a CRL. -/
structure Revocation where
  serial : Nat
  date : Time
  reason : Option Reason
  deriving DecidableEq, Repr

/-- A CRL, with the times it was signed with. -/
structure Crl where
  number : Nat
  thisUpdate : Time
  nextUpdate : Time
  revoked : List Revocation
  /-- The key it verifies under. -/
  signer : String
  deriving DecidableEq, Repr

structure Subordinate where
  /-- The certificate, DER. -/
  certificate : String
  key : String
  deriving DecidableEq, Repr

/-- The CRL's entry for a revoked certificate. -/
def revocation (parseSerial : String → Except String Nat) (certificate : Certificate) :
    Except String Revocation := do
  let serial ← parseSerial certificate.serial
  match certificate.revokedAt with
  | none => .error "not revoked"
  | some date => .ok ⟨serial, date, reason certificate.revocationReason⟩

/-- How long the CRL on disk has left, if `subordinate` signed it and is the
certificate on disk. -/
def freshFor (caFile : Option String) (crlFile : Option Crl) (subordinate : Subordinate)
    (now : Time) : Option Time :=
  match caFile, crlFile with
  | some ca, some crl =>
    if ca = subordinate.certificate ∧ crl.signer = subordinate.key ∧ now ≤ crl.nextUpdate then
      some (crl.nextUpdate - now)
    else none
  | _, _ => none

/-! ## Refreshing -/

structure Refresh where
  force : Bool
  /-- The revoked leaves that were recorded when it was called. -/
  known : List Certificate
  deriving DecidableEq

/-- How far the refresh has come that holds the signing mutex. -/
inductive Phase where
  | entered (now : Time)
  | read (now : Time) (revoked : List Revocation)
  | numbered (now : Time) (revoked : List Revocation) (number : Nat)
  /-- The work with this id is queued, to write what was signed. -/
  | awaiting (id : Nat)
  /-- The work answered that it has written it. -/
  | written
  deriving DecidableEq

structure Pki where
  now : Time
  store : Store
  /-- `ca.crt`. -/
  caFile : Option String
  /-- What writes `leaves.crl`, and what it holds. -/
  outbox : Outbox Crl
  /-- Whether the work that holds the state lock has written `ca.crt`. -/
  caWritten : Bool
  /-- Refreshes that wait for the signing mutex. -/
  waiting : List Refresh
  signing : Option (Refresh × Phase)
  /-- The leaves whose revocation a forced refresh, called after it was recorded, has
  returned `Ok` for. -/
  acknowledged : List Certificate

inductive PkiStep where
  | tick (elapsed : Nat)
  | recordCertificate (order : Int) (new : NewCertificate)
  | revoke (serial : String) (reason : Option Nat)
  /-- `refresh_crl` is called, by the periodic loop or after a revocation. -/
  | call (force : Bool)
  /-- A call gets the signing mutex. -/
  | enter (refresh : Refresh)
  | readRevoked
  | takeNumber
  | sign
  /-- The refresh fails, or its caller is gone; a queued work stays. -/
  | fail
  /-- The state lock is not had in time: the refresh fails, its work stays. -/
  | timeout
  | finish
  /-- A queued work gets the state lock. -/
  | lock (work : Work Crl)
  | lockFails (work : Work Crl)
  | writeCa
  | writeCrl
  | workFails
  deriving DecidableEq

namespace Pki

def commit (s : Pki) : Except StoreError (Store × Certificate) → Pki
  | .ok (store, _) => { s with store }
  | .error _ => s

/-- What is on disk as `leaves.crl`. -/
def crlFile (s : Pki) : Option Crl := s.outbox.published

/-- The revoked certificates of `issuers`. -/
def revoked (s : Pki) (issuers : Option (List String)) : List Certificate :=
  s.store.certificates.rows.filter fun c => c.revokedAt.isSome && issuedBy issuers c

/-- Whether a refresh leaves the CRL as it is. -/
def fresh (s : Pki) (subordinate : Subordinate) (force : Bool) : Bool :=
  (freshFor s.caFile s.crlFile subordinate s.now).any fun left =>
    !force && resignWithin < left

/-- The refresh that holds the signing mutex returns an error. -/
def refuse (s : Pki) : Pki := { s with signing := none }

/-- It returns `Ok`. -/
def accept (s : Pki) (refresh : Refresh) : Pki :=
  { s with
    signing := none
    acknowledged := if refresh.force then s.acknowledged ++ refresh.known else s.acknowledged }

end Pki

/-- What is signed under `number`. -/
def signCrl (subordinate : Subordinate) (now : Time) (revoked : List Revocation)
    (number : Nat) : Crl :=
  let thisUpdate := now - backdate
  ⟨number, thisUpdate, thisUpdate + crlLife, revoked, subordinate.key⟩

/-- A broker enrolled with `subordinate`, its refreshes and their works. -/
def pki (parseSerial : String → Except String Nat) (subordinate : Subordinate)
    (enrolled : Enrolled) : Machine Pki PkiStep where
  init s := (∀ number ∈ s.store.crlNumber, 0 < number) ∧
    (∀ crl ∈ s.crlFile, (crl.number : Int) ≤ s.store.crlNumber.getD 0) ∧
    s.outbox = .start s.crlFile ∧ s.waiting = [] ∧ s.signing = none ∧ s.acknowledged = []
  next s
    | .tick elapsed => some { s with now := s.now + elapsed }
    | .recordCertificate order new => some (s.commit (s.store.recordCertificate order new s.now))
    | .revoke serial reason => some (s.commit (s.store.revoke serial reason s.now))
    | .call force =>
      some { s with waiting := s.waiting ++ [⟨force, s.revoked enrolled.issuers⟩] }
    | .enter refresh =>
      if refresh ∈ s.waiting ∧ s.signing = none then
        let s := { s with waiting := s.waiting.erase refresh }
        if enrolled.revoked || s.fresh subordinate refresh.force then some (s.accept refresh)
        else some { s with signing := some (refresh, .entered s.now) }
      else none
    | .readRevoked =>
      match s.signing with
      | some (refresh, .entered now) =>
        match (s.store.revokedUnexpired enrolled.issuers now).mapM (revocation parseSerial) with
        | .error _ => some s.refuse
        | .ok revoked => some { s with signing := some (refresh, .read now revoked) }
      | _ => none
    | .takeNumber =>
      match s.signing with
      | some (refresh, .read now revoked) =>
        match s.store.nextCrlNumber with
        | .error _ => some s.refuse
        | .ok (store, number) =>
          some { s with store, signing := some (refresh, .numbered now revoked (asU64 number)) }
      | _ => none
    | .sign =>
      match s.signing with
      | some (refresh, .numbered now revoked number) =>
        let outbox := s.outbox.push (signCrl subordinate now revoked number)
        some { s with outbox, signing := some (refresh, .awaiting outbox.last) }
      | _ => none
    | .fail => s.signing.map fun _ => s.refuse
    | .timeout =>
      match s.signing with
      | some (_, .awaiting _) => some s.refuse
      | _ => none
    | .finish =>
      match s.signing with
      | some (refresh, .written) => some (s.accept refresh)
      | _ => none
    | .lock work =>
      (s.outbox.lock work).map fun outbox => { s with outbox, caWritten := false }
    | .lockFails work =>
      (s.outbox.lock work).map fun outbox => { s with outbox := outbox.unlock }
    | .writeCa =>
      if s.outbox.running.isSome ∧ s.caWritten = false then
        some { s with caFile := some subordinate.certificate, caWritten := true }
      else none
    | .writeCrl =>
      match s.outbox.running with
      | some work =>
        if s.caWritten then
          let s := { s with outbox := s.outbox.publish work }
          match s.signing with
          | some (refresh, .awaiting id) =>
            if id = work.id then some { s with signing := some (refresh, .written) } else some s
          | _ => some s
        else none
      | none => none
    | .workFails =>
      s.outbox.running.map fun _ => { s with outbox := s.outbox.unlock }

/-- No work writes the CRL after one that was queued later. -/
def WritesInOrder (s : Pki) : PkiStep → Prop
  | .writeCrl => s.outbox.InOrder
  | _ => True

instance (s : Pki) (l : PkiStep) : Decidable (WritesInOrder s l) :=
  match l with
  | .writeCrl => inferInstanceAs (Decidable s.outbox.InOrder)
  | .tick _ | .recordCertificate _ _ | .revoke _ _ | .call _ | .enter _ | .readRevoked
  | .takeNumber | .sign | .fail | .timeout | .finish | .lock _ | .lockFails _ | .writeCa
  | .workFails => .isTrue trivial

/-! ## What a leaf is owed -/

/-- A list of revocations has the leaf's, unless the leaf has expired. -/
def Settles (parseSerial : String → Except String Nat) (now : Time) (c : Certificate)
    (revoked : List Revocation) : Prop :=
  (∃ entry ∈ revoked, revocation parseSerial c = .ok entry) ∨ c.notAfter ≤ now

variable {parseSerial : String → Except String Nat} {subordinate : Subordinate}
  {enrolled : Enrolled} {s t : Pki} {c : Certificate} {revoked : List Revocation}
  {now now' : Time}

theorem Settles.later (h : Settles parseSerial now c revoked) (hle : now ≤ now') :
    Settles parseSerial now' c revoked :=
  h.imp_right fun hexpired => hexpired.trans hle

/-- A refresh that reads finds every revoked leaf that has not expired. -/
theorem settles_of_read
    (h : (s.store.revokedUnexpired enrolled.issuers now).mapM (revocation parseSerial) =
      .ok revoked) (hc : c ∈ s.revoked enrolled.issuers) :
    Settles parseSerial now c revoked := by
  by_cases hexpired : c.notAfter ≤ now
  · exact Or.inr hexpired
  · left
    refine exists_of_mem_of_mapM h c ?_
    unfold Pki.revoked at hc
    unfold Store.revokedUnexpired
    simp only [List.mem_filter, Bool.and_eq_true, decide_eq_true_eq] at hc ⊢
    exact ⟨hc.1, ⟨hc.2.1, not_le.mp hexpired⟩, hc.2.2⟩

/-- What the refresh that holds the mutex has come to. -/
def Reached (parseSerial : String → Except String Nat) (s : Pki) (refresh : Refresh) :
    Phase → Prop
  | .entered now => now ≤ s.now
  | .read _ revoked =>
    ∀ c ∈ s.acknowledged ++ refresh.known, Settles parseSerial s.now c revoked
  | .numbered _ revoked number =>
    (∀ c ∈ s.acknowledged ++ refresh.known, Settles parseSerial s.now c revoked) ∧
      s.outbox.Every (·.number < number) ∧ (number : Int) ≤ s.store.crlNumber.getD 0
  | .awaiting id => ∀ c ∈ refresh.known,
    s.outbox.From id fun crl => Settles parseSerial s.now c crl.revoked
  | .written => ∀ c ∈ refresh.known,
    s.outbox.Carries fun crl => Settles parseSerial s.now c crl.revoked

structure PkiInv (parseSerial : String → Except String Nat) (enrolled : Enrolled)
    (s : Pki) : Prop where
  positive : ∀ number ∈ s.store.crlNumber, 0 < number
  rising : s.outbox.Rising (·.number < ·.number)
  numbers : s.outbox.Every fun crl => (crl.number : Int) ≤ s.store.crlNumber.getD 0
  waiting : ∀ refresh ∈ s.waiting, ∀ c ∈ refresh.known, c ∈ s.revoked enrolled.issuers
  known : ∀ refresh phase, s.signing = some (refresh, phase) →
    ∀ c ∈ refresh.known, c ∈ s.revoked enrolled.issuers
  reached : ∀ refresh phase, s.signing = some (refresh, phase) →
    Reached parseSerial s refresh phase
  recorded : ∀ c ∈ s.acknowledged, c ∈ s.revoked enrolled.issuers
  acknowledged : ∀ c ∈ s.acknowledged,
    s.outbox.Carries fun crl => Settles parseSerial s.now c crl.revoked

/-! ## Steps that leave the outbox alone -/

theorem Reached.tick {refresh : Refresh} {phase : Phase}
    (h : Reached parseSerial s refresh phase) (elapsed : Nat) :
    Reached parseSerial { s with now := s.now + elapsed } refresh phase := by
  have hle : s.now ≤ s.now + elapsed := Int.le_add_of_nonneg_right (Int.natCast_nonneg _)
  cases phase with
  | entered now => exact Int.le_trans h hle
  | read now revoked => exact fun c hc => (h c hc).later hle
  | numbered now revoked number => exact ⟨fun c hc => (h.1 c hc).later hle, h.2⟩
  | awaiting id => exact fun c hc => (h c hc).imp fun _ hsettles => hsettles.later hle
  | written => exact fun c hc => (h c hc).imp fun _ hsettles => hsettles.later hle

theorem PkiInv.tick (h : PkiInv parseSerial enrolled s) (elapsed : Nat) :
    PkiInv parseSerial enrolled { s with now := s.now + elapsed } := by
  refine { h with reached := ?_, acknowledged := ?_ }
  · intro refresh phase hsigning
    exact (h.reached refresh phase hsigning).tick elapsed
  · intro c hc
    refine (h.acknowledged c hc).imp ?_
    intro crl hsettles
    exact hsettles.later (Int.le_add_of_nonneg_right (Int.natCast_nonneg _))

theorem mem_revoked {issuers : Option (List String)} :
    c ∈ s.revoked issuers ↔ c ∈ s.store.certificates.rows ∧ c.revokedAt.isSome = true ∧
      issuedBy issuers c = true := by
  simp [Pki.revoked]

theorem PkiInv.commit (h : PkiInv parseSerial enrolled s) {store : Store} {new : Certificate}
    (hchanged : Changed s.store store new) (hnumber : store.crlNumber = s.store.crlNumber) :
    PkiInv parseSerial enrolled { s with store } := by
  have hkept : ∀ c ∈ s.revoked enrolled.issuers,
      c ∈ ({ s with store } : Pki).revoked enrolled.issuers := by
    intro c hc
    obtain ⟨hrow, hrevoked, hours⟩ := mem_revoked.mp hc
    exact mem_revoked.mpr ⟨hchanged.mem_of_revoked hrow hrevoked, hrevoked, hours⟩
  refine ⟨?_, h.rising, ?_, ?_, ?_, ?_, ?_, h.acknowledged⟩
  · rw [hnumber]
    exact h.positive
  · rw [hnumber]
    exact h.numbers
  · intro refresh hrefresh c hc
    exact hkept c (h.waiting refresh hrefresh c hc)
  · intro refresh phase hsigning c hc
    exact hkept c (h.known refresh phase hsigning c hc)
  · intro refresh phase hsigning
    have hreached := h.reached refresh phase hsigning
    cases phase with
    | numbered now revoked number =>
      refine ⟨hreached.1, hreached.2.1, ?_⟩
      rw [hnumber]
      exact hreached.2.2
    | entered _ | read _ _ | awaiting _ | written => exact hreached
  · intro c hc
    exact hkept c (h.recorded c hc)

/-- The refresh that holds the mutex goes on to another phase. -/
theorem PkiInv.proceed (h : PkiInv parseSerial enrolled s) {refresh : Refresh} {phase : Phase}
    (hknown : ∀ c ∈ refresh.known, c ∈ s.revoked enrolled.issuers)
    (hreached : Reached parseSerial s refresh phase) :
    PkiInv parseSerial enrolled { s with signing := some (refresh, phase) } := by
  refine { h with known := ?_, reached := ?_ }
  · rintro refresh phase hsigning
    cases hsigning
    exact hknown
  · rintro refresh phase hsigning
    cases hsigning
    cases phase <;> exact hreached

theorem PkiInv.refuse (h : PkiInv parseSerial enrolled s) :
    PkiInv parseSerial enrolled s.refuse := by
  refine { h with known := ?_, reached := ?_ } <;>
    · intro refresh phase hsigning
      cases hsigning

/-- A leaf that is acknowledged is one that the CRL file lists. -/
theorem PkiInv.accept (h : PkiInv parseSerial enrolled s) {refresh : Refresh}
    (hforced : refresh.force = true → s.signing = some (refresh, .written)) :
    PkiInv parseSerial enrolled (s.accept refresh) := by
  have hmem : ∀ c ∈ (s.accept refresh).acknowledged, c ∈ s.acknowledged ∨
      s.signing = some (refresh, .written) ∧ c ∈ refresh.known := by
    intro c hc
    unfold Pki.accept at hc
    dsimp only at hc
    split at hc
    next hforce =>
      rcases List.mem_append.mp hc with hold | hnew
      · exact Or.inl hold
      · exact Or.inr ⟨hforced hforce, hnew⟩
    next => exact Or.inl hc
  refine { h with known := ?_, reached := ?_, recorded := ?_, acknowledged := ?_ }
  · intro refresh phase hsigning
    cases hsigning
  · intro refresh phase hsigning
    cases hsigning
  · intro c hc
    rcases hmem c hc with hold | ⟨hsigning, hknown⟩
    · exact h.recorded c hold
    · exact h.known refresh .written hsigning c hknown
  · intro c hc
    rcases hmem c hc with hold | ⟨hsigning, hknown⟩
    · exact h.acknowledged c hold
    · exact h.reached refresh .written hsigning c hknown

/-! ## Steps of a refresh -/

/-- What the refresh has to list, it finds. -/
theorem PkiInv.readRevoked (h : PkiInv parseSerial enrolled s) {refresh : Refresh}
    (hsigning : s.signing = some (refresh, .entered now))
    (hread : (s.store.revokedUnexpired enrolled.issuers now).mapM (revocation parseSerial) =
      .ok revoked) :
    PkiInv parseSerial enrolled { s with signing := some (refresh, .read now revoked) } := by
  have hknown := h.known refresh _ hsigning
  refine h.proceed hknown ?_
  intro c hc
  have hle : now ≤ s.now := h.reached refresh _ hsigning
  refine (settles_of_read hread ?_).later hle
  rcases List.mem_append.mp hc with hold | hnew
  · exact h.recorded c hold
  · exact hknown c hnew

/-- The number taken is above every CRL's. -/
theorem PkiInv.takeNumber (h : PkiInv parseSerial enrolled s) {refresh : Refresh}
    (hsigning : s.signing = some (refresh, .read now revoked)) {store : Store} {number : Int}
    (hnext : s.store.nextCrlNumber = .ok (store, number)) :
    PkiInv parseSerial enrolled
      { s with store, signing := some (refresh, .numbered now revoked (asU64 number)) } := by
  obtain ⟨hnumber, hmax, rfl⟩ := nextCrlNumber_ok hnext
  have hnonneg : 0 ≤ s.store.crlNumber.getD 0 := by
    cases hlast : s.store.crlNumber with
    | none => exact Int.le_refl _
    | some last => exact (h.positive last hlast).le
  have hcast : (asU64 number : Int) = number := asU64_of_nonneg (by omega) hmax
  have hnumbers : PkiInv parseSerial enrolled
      { s with store := { s.store with crlNumber := some number } } := by
    refine { h with positive := ?_, numbers := ?_, reached := ?_ }
    · rintro last hlast
      cases hlast
      omega
    · refine h.numbers.imp ?_
      intro crl hle
      show (crl.number : Int) ≤ number
      omega
    · intro other phase hother
      rw [show s.signing = some (other, phase) from hother] at hsigning
      cases hsigning
      exact h.reached refresh _ hother
  refine hnumbers.proceed (h.known refresh _ hsigning) ⟨h.reached refresh _ hsigning, ?_, ?_⟩
  · refine h.numbers.imp ?_
    intro crl hle
    omega
  · exact hcast.le

/-- What is signed is queued above every CRL, and lists what it has to. -/
theorem PkiInv.sign (h : PkiInv parseSerial enrolled s) {refresh : Refresh} {number : Nat}
    (hsigning : s.signing = some (refresh, .numbered now revoked number)) :
    PkiInv parseSerial enrolled
      { s with
        outbox := s.outbox.push (signCrl subordinate now revoked number)
        signing := some (refresh,
          .awaiting (s.outbox.push (signCrl subordinate now revoked number)).last) } := by
  obtain ⟨hsettles, habove, hle⟩ := h.reached refresh _ hsigning
  refine ⟨h.positive, h.rising.push habove, h.numbers.push hle, h.waiting, ?_, ?_, h.recorded, ?_⟩
  · rintro refresh phase hnow
    cases hnow
    exact h.known refresh _ hsigning
  · rintro refresh phase hnow
    cases hnow
    intro c hc
    exact h.rising.from_push (hsettles c (List.mem_append_right _ hc))
  · intro c hc
    exact (h.acknowledged c hc).push (hsettles c (List.mem_append_left _ hc))

/-! ## Steps of a work -/

theorem PkiInv.idles (h : PkiInv parseSerial enrolled s) {outbox : Outbox Crl}
    (ht : Outbox.Idles s.outbox outbox) : PkiInv parseSerial enrolled { s with outbox } := by
  refine ⟨h.positive, h.rising.idles ht, h.numbers.idles ht, h.waiting, h.known, ?_, h.recorded,
    fun c hc => (h.acknowledged c hc).idles ht⟩
  intro refresh phase hsigning
  have hreached := h.reached refresh phase hsigning
  cases phase with
  | entered _ | read _ _ => exact hreached
  | numbered now revoked number => exact ⟨hreached.1, hreached.2.1.idles ht, hreached.2.2⟩
  | awaiting id => exact fun c hc => (hreached c hc).idles ht
  | written => exact fun c hc => (hreached c hc).idles ht

/-- Whatever a work that runs in order publishes keeps what is owed. -/
theorem PkiInv.publish (h : PkiInv parseSerial enrolled s) {work : Work Crl}
    (hrunning : s.outbox.running = some work) (horder : s.outbox.InOrder) :
    PkiInv parseSerial enrolled { s with outbox := s.outbox.publish work } := by
  refine ⟨h.positive, h.rising.publish hrunning, h.numbers.publish hrunning, h.waiting, h.known,
    ?_, h.recorded, fun c hc => (h.acknowledged c hc).publish hrunning horder⟩
  intro refresh phase hsigning
  have hreached := h.reached refresh phase hsigning
  cases phase with
  | entered _ | read _ _ => exact hreached
  | numbered now revoked number =>
    exact ⟨hreached.1, hreached.2.1.publish hrunning, hreached.2.2⟩
  | awaiting id =>
    intro c hc w hw
    exact hreached c hc w hw.of_publish
  | written => exact fun c hc => (hreached c hc).publish hrunning horder

/-- It answers the refresh that queued it, if that still waits. -/
theorem PkiInv.writeCrl (h : PkiInv parseSerial enrolled s) {work : Work Crl}
    (hrunning : s.outbox.running = some work) (horder : s.outbox.InOrder) {refresh : Refresh}
    (hsigning : s.signing = some (refresh, .awaiting work.id)) :
    PkiInv parseSerial enrolled
      { s with outbox := s.outbox.publish work, signing := some (refresh, .written) } := by
  refine (h.publish hrunning horder).proceed (h.known refresh _ hsigning) ?_
  intro c hc
  exact (h.reached refresh _ hsigning c hc).publish hrunning (Nat.le_refl _)

/-! ## Every step -/

/-- The CRL on disk stays, or gives way to one with no lower number. -/
def Rises (s t : Pki) : Prop :=
  ∀ crl, s.crlFile = some crl → ∃ crl', t.crlFile = some crl' ∧ crl.number ≤ crl'.number

theorem Rises.of_eq (h : t.crlFile = s.crlFile) : Rises s t := by
  intro crl hcrl
  exact ⟨crl, h.trans hcrl, Nat.le_refl _⟩

theorem Rises.trans {u : Pki} (hst : Rises s t) (htu : Rises t u) : Rises s u := by
  intro crl hcrl
  obtain ⟨crl', hcrl', hle⟩ := hst crl hcrl
  obtain ⟨crl'', hcrl'', hle'⟩ := htu crl' hcrl'
  exact ⟨crl'', hcrl'', hle.trans hle'⟩

theorem PkiInv.rises (h : PkiInv parseSerial enrolled s) {work : Work Crl}
    (hrunning : s.outbox.running = some work) (horder : s.outbox.InOrder)
    (ht : t.crlFile = some work.version) : Rises s t := by
  intro crl hcrl
  exact ⟨work.version, ht, (h.rising.below_of_inOrder hrunning horder hcrl).le⟩

theorem PkiInv.step (h : PkiInv parseSerial enrolled s) (hunrevoked : enrolled.revoked = false)
    {l : PkiStep} (hok : WritesInOrder s l)
    (hstep : (pki parseSerial subordinate enrolled).next s l = some t) :
    PkiInv parseSerial enrolled t ∧ Rises s t := by
  have hcommit : ∀ {result : Except StoreError (Store × Certificate)},
      (∀ store certificate, result = .ok (store, certificate) →
        Changed s.store store certificate ∧ store.crlNumber = s.store.crlNumber) →
      PkiInv parseSerial enrolled (s.commit result) ∧ Rises s (s.commit result) := by
    intro result hresult
    cases result with
    | error e => exact ⟨h, .of_eq rfl⟩
    | ok result =>
      obtain ⟨hchanged, hnumber⟩ := hresult result.1 result.2 rfl
      exact ⟨h.commit hchanged hnumber, .of_eq rfl⟩
  cases l with
  | tick elapsed =>
    cases hstep
    exact ⟨h.tick elapsed, .of_eq rfl⟩
  | recordCertificate order new =>
    cases hstep
    refine hcommit ?_
    intro store certificate hrecord
    obtain ⟨-, -, -, -, hstore⟩ := recordCertificate_ok hrecord
    exact ⟨changed_of_recordCertificate hrecord, by rw [hstore]⟩
  | revoke serial reason =>
    cases hstep
    refine hcommit ?_
    intro store certificate hrevoke
    obtain ⟨-, -, -, hstore⟩ := revoke_ok hrevoke
    exact ⟨changed_of_revoke hrevoke, by rw [hstore]⟩
  | call force =>
    cases hstep
    refine ⟨{ h with waiting := ?_ }, .of_eq rfl⟩
    intro refresh hrefresh c hc
    rcases List.mem_append.mp hrefresh with hold | hnew
    · exact h.waiting refresh hold c hc
    · rw [List.mem_singleton.mp hnew] at hc
      exact hc
  | enter refresh =>
    simp only [pki] at hstep
    split at hstep
    next henter =>
      have hrest : PkiInv parseSerial enrolled
          { s with waiting := s.waiting.erase refresh } :=
        { h with waiting := fun other hother => h.waiting other (List.mem_of_mem_erase hother) }
      split at hstep
      next hfresh =>
        cases hstep
        refine ⟨hrest.accept ?_, .of_eq rfl⟩
        -- a forced refresh signs, whatever is on disk
        intro hforce
        simp [hunrevoked, Pki.fresh, hforce] at hfresh
      next =>
        cases hstep
        exact ⟨hrest.proceed (h.waiting refresh henter.1) (Int.le_refl _), .of_eq rfl⟩
    next => cases hstep
  | readRevoked =>
    simp only [pki] at hstep
    split at hstep
    next refresh now hsigning =>
      split at hstep
      next =>
        cases hstep
        exact ⟨h.refuse, .of_eq rfl⟩
      next revoked hread =>
        cases hstep
        exact ⟨h.readRevoked hsigning hread, .of_eq rfl⟩
    next => cases hstep
  | takeNumber =>
    simp only [pki] at hstep
    split at hstep
    next refresh now revoked hsigning =>
      split at hstep
      next =>
        cases hstep
        exact ⟨h.refuse, .of_eq rfl⟩
      next store number hnext =>
        cases hstep
        exact ⟨h.takeNumber hsigning hnext, .of_eq rfl⟩
    next => cases hstep
  | sign =>
    simp only [pki] at hstep
    split at hstep
    next refresh now revoked number hsigning =>
      cases hstep
      exact ⟨h.sign hsigning, .of_eq rfl⟩
    next => cases hstep
  | fail =>
    obtain ⟨_, -, rfl⟩ := Option.map_eq_some_iff.mp hstep
    exact ⟨h.refuse, .of_eq rfl⟩
  | timeout =>
    simp only [pki] at hstep
    split at hstep
    next =>
      cases hstep
      exact ⟨h.refuse, .of_eq rfl⟩
    next => cases hstep
  | finish =>
    simp only [pki] at hstep
    split at hstep
    next refresh hsigning =>
      cases hstep
      exact ⟨h.accept fun _ => hsigning, .of_eq rfl⟩
    next => cases hstep
  | lock work =>
    obtain ⟨outbox, hlock, rfl⟩ := Option.map_eq_some_iff.mp hstep
    have hidles := Outbox.idles_of_lock hlock
    have hlocked := h.idles hidles
    exact ⟨{ hlocked with }, .of_eq hidles.published⟩
  | lockFails work =>
    obtain ⟨outbox, hlock, rfl⟩ := Option.map_eq_some_iff.mp hstep
    have hidles := Outbox.idles_of_lock hlock
    exact ⟨(h.idles hidles).idles Outbox.idles_unlock, .of_eq hidles.published⟩
  | writeCa =>
    simp only [pki] at hstep
    split at hstep
    next =>
      cases hstep
      exact ⟨{ h with }, .of_eq rfl⟩
    next => cases hstep
  | writeCrl =>
    simp only [pki] at hstep
    split at hstep
    next work hrunning =>
      split at hstep
      next =>
        split at hstep
        next refresh id hsigning =>
          split at hstep
          next hid =>
            cases hstep
            rw [hid] at hsigning
            exact ⟨h.writeCrl hrunning hok hsigning, h.rises hrunning hok rfl⟩
          next =>
            cases hstep
            exact ⟨h.publish hrunning hok, h.rises hrunning hok rfl⟩
        next =>
          cases hstep
          exact ⟨h.publish hrunning hok, h.rises hrunning hok rfl⟩
      next => cases hstep
    next => cases hstep
  | workFails =>
    obtain ⟨_, -, rfl⟩ := Option.map_eq_some_iff.mp hstep
    exact ⟨h.idles Outbox.idles_unlock, .of_eq rfl⟩

/-! ## The CRL never goes backwards -/

theorem pkiInv_of_init (subordinate : Subordinate)
    (hs : (pki parseSerial subordinate enrolled).init s) :
    PkiInv parseSerial enrolled s := by
  obtain ⟨hpositive, hnumbers, houtbox, hwaiting, hsigning, hacknowledged⟩ := hs
  refine ⟨hpositive, ?_, ?_, ?_, ?_, ?_, ?_, ?_⟩
  · rw [houtbox]
    exact .start _
  · rw [houtbox]
    exact .start hnumbers
  · rw [hwaiting]
    intro refresh hrefresh
    cases hrefresh
  · rw [hsigning]
    intro refresh phase hphase
    cases hphase
  · rw [hsigning]
    intro refresh phase hphase
    cases hphase
  · rw [hacknowledged]
    intro c hc
    cases hc
  · rw [hacknowledged]
    intro c hc
    cases hc

theorem pkiInv_reachable (hunrevoked : enrolled.revoked = false)
    (hs : ((pki parseSerial subordinate enrolled).system.restrict WritesInOrder).Reachable s) :
    PkiInv parseSerial enrolled s := by
  have hinv : ((pki parseSerial subordinate enrolled).system.restrict WritesInOrder).Invariant
      (PkiInv parseSerial enrolled) :=
    ⟨pkiInv_of_init subordinate, fun h hstep => (h.step hunrevoked hstep.1 hstep.2).1⟩
  exact hinv.reachable hs

/-- What the CRL on disk owes those who fetch it. -/
structure CrlSafe (parseSerial : String → Except String Nat) (S : System Pki PkiStep)
    (s : Pki) : Prop where
  rises : ∀ t, S.Reaches s t → Rises s t
  /-- It lists every acknowledged leaf that has not expired. -/
  listed : ∀ c ∈ s.acknowledged, s.now < c.notAfter →
    ∃ crl, s.crlFile = some crl ∧ ∃ entry ∈ crl.revoked, revocation parseSerial c = .ok entry

/-- **The CRL never goes backwards**, in every run whose works write it in the order
they were queued. -/
theorem crlSafe_of_inOrder (parseSerial : String → Except String Nat)
    (subordinate : Subordinate) (enrolled : Enrolled) (hunrevoked : enrolled.revoked = false)
    {s : Pki}
    (hs : ((pki parseSerial subordinate enrolled).system.restrict WritesInOrder).Reachable s) :
    CrlSafe parseSerial ((pki parseSerial subordinate enrolled).system.restrict WritesInOrder)
      s := by
  refine ⟨?_, ?_⟩
  · intro t hst
    refine System.Reaches.lift (R := Rises) (fun u => .of_eq rfl) ?_ ?_ hs hst
    · intro u v w huv hvw
      exact huv.trans hvw
    · intro u v l hu hstep
      exact ((pkiInv_reachable hunrevoked hu).step hunrevoked hstep.1 hstep.2).2
  · intro c hc hunexpired
    obtain ⟨⟨crl, hcrl, hsettles⟩, -⟩ := (pkiInv_reachable hunrevoked hs).acknowledged c hc
    rcases hsettles with hlisted | hexpired
    · exact ⟨crl, hcrl, hlisted⟩
    · exact absurd hunexpired (not_lt.mpr hexpired)

/-- A serial in decimal digits. -/
def decimalSerial (text : String) : Except String Nat :=
  match parseUnsigned 160 text with
  | some serial => .ok serial
  | none => .error "not a serial"

def oneLeaf : Certificate :=
  ⟨1, "10", 1, 1, none, ["a.example"], 0, 1000 * second, "", "5", none, none, 0, 1⟩

/-- The leaf, revoked. -/
def oneRevoked : Certificate :=
  { oneLeaf with revokedAt := some (100 * second), revocationReason := some 1, changed := 2 }

def ourSubordinate : Subordinate := ⟨"subordinate", "key"⟩

/-- A broker that has issued one leaf, and signed no CRL. -/
def unsigned : Pki where
  now := 100 * second
  store := { Store.empty with certificates := ⟨[oneLeaf], by decide⟩ }
  caFile := none
  outbox := .start none
  caWritten := false
  waiting := []
  signing := none
  acknowledged := []

theorem unsigned_init :
    (pki decimalSerial ourSubordinate ⟨some ["5"], false⟩).init unsigned := by
  refine ⟨?_, ?_, rfl, rfl, rfl, rfl⟩
  · intro number hnumber
    cases hnumber
  · intro crl hcrl
    cases hcrl

/-- A CRL signed when the broker looks first, without the leaf or with it. -/
def emptyCrl : Crl := signCrl ourSubordinate (100 * second) [] 1
def leafCrl (number : Nat) : Crl :=
  signCrl ourSubordinate (100 * second) [⟨10, 100 * second, some .keyCompromise⟩] number

/-- A leaf is revoked, and a forced refresh publishes that. -/
theorem crlSafe_revoked :
    ∃ s : Pki, s.acknowledged = [oneRevoked] ∧ s.crlFile = some (leafCrl 1) ∧
      CrlSafe decimalSerial ((pki decimalSerial ourSubordinate
        ⟨some ["5"], false⟩).system.restrict WritesInOrder) s := by
  obtain ⟨s, hs, hview⟩ := Machine.exists_reachable_of_exec_guard
    (fun (s : Pki) (l : PkiStep) (h : decide (WritesInOrder s l) = true) =>
      of_decide_eq_true h) unsigned_init
    [.revoke "10" (some 1), .call true, .enter ⟨true, [oneRevoked]⟩, .readRevoked, .takeNumber,
      .sign, .lock ⟨1, leafCrl 1⟩, .writeCa, .writeCrl, .finish]
    (fun s => s.acknowledged = [oneRevoked] ∧ s.crlFile = some (leafCrl 1))
    (by decide)
  obtain ⟨hacknowledged, hcrl⟩ := of_decide_eq_true hview
  exact ⟨s, hacknowledged, hcrl,
    crlSafe_of_inOrder decimalSerial ourSubordinate ⟨some ["5"], false⟩ rfl hs⟩

/-- A refresh times out on the state lock, the leaf is revoked and a forced refresh
publishes that: the first one's work now publishes its own, older CRL. -/
theorem crl_went_back :
    ¬ ∀ s, (pki decimalSerial ourSubordinate ⟨some ["5"], false⟩).system.Reachable s →
      CrlSafe decimalSerial (pki decimalSerial ourSubordinate ⟨some ["5"], false⟩).system s := by
  intro hclaim
  obtain ⟨s, hs, hview⟩ := Machine.exists_reachable_of_exec unsigned_init
    [.call false, .enter ⟨false, []⟩, .readRevoked, .takeNumber, .sign, .timeout,
      .revoke "10" (some 1), .call true, .enter ⟨true, [oneRevoked]⟩, .readRevoked,
      .takeNumber, .sign, .lock ⟨2, leafCrl 2⟩, .writeCa, .writeCrl, .finish,
      .lock ⟨1, emptyCrl⟩, .writeCa, .writeCrl]
    (fun s => oneRevoked ∈ s.acknowledged ∧ s.now < oneRevoked.notAfter ∧
      s.crlFile = some emptyCrl)
    (by decide)
  obtain ⟨hacknowledged, hunexpired, hcrl⟩ := of_decide_eq_true hview
  obtain ⟨crl, hsame, entry, hentry, -⟩ :=
    (hclaim s hs).listed oneRevoked hacknowledged hunexpired
  rw [hcrl] at hsame
  cases hsame
  cases hentry

end Opca.Acme

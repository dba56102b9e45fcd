/-
  Acme/Enrolled.lean --- what an enrolled broker answers its operator about the
  certificates it issued: pages of them, and the revocation of one (`enrolled.rs`,
  `enrolment.rs`, `opca-acme-api`).
-/
import Opca.Acme.Store

set_option autoImplicit false

namespace Opca.Acme

open Opca.Foundation

/-! ## The answers -/

inductive ErrorKind where
  | badRequest
  | wrongCode (remaining : Nat)
  | codeSpent
  | revoked
  | notFound
  | internal
  deriving DecidableEq, Repr

/-- The body of a refusal. -/
structure ErrorBody where
  kind : ErrorKind
  message : String
  deriving DecidableEq, Repr

def badRequest (message : String) : ErrorBody := ⟨.badRequest, message⟩
def internal (error : String) : ErrorBody := ⟨.internal, error⟩

/-- A certificate as the API gives it, its times in RFC 3339. -/
structure IssuedCertificate where
  /-- Decimal. -/
  serial : String
  commonName : Option String
  sans : List String
  notBefore : String
  notAfter : String
  issuerSerial : String
  revokedAt : Option String
  revocationReason : Option Nat
  /-- The change that last touched it, its issue or its revocation: a cursor. -/
  changed : Nat
  deriving DecidableEq, Repr

structure IssuedPage where
  certificates : List IssuedCertificate
  /-- The cursor for the next call: the last change here, or the one asked for when
  there is none. -/
  next : Nat
  /-- Whether more changes wait past `next`. -/
  more : Bool
  deriving DecidableEq, Repr

/-- The RFC 5280 CRLReason codes a leaf may be revoked for. -/
def revocationReasons : List Nat := [0, 1, 2, 3, 4, 5, 6, 9, 10]

/-- What an enrolment says that the answers here depend on. -/
structure Enrolled where
  /-- The serials of the subordinates it has had; `none` stands for every issuer. -/
  issuers : Option (List String)
  revoked : Bool
  deriving DecidableEq, Repr

/-! ## Times -/

/-- Year, month and day of a day since the epoch. -/
def civilFromDays (days : Int) : Int × Nat × Nat :=
  let z := days + 719468
  let era := z / 146097
  let dayOfEra := z % 146097
  let yearOfEra := (dayOfEra - dayOfEra / 1460 + dayOfEra / 36524 - dayOfEra / 146096) / 365
  let dayOfYear := dayOfEra - (365 * yearOfEra + yearOfEra / 4 - yearOfEra / 100)
  let shiftedMonth := (5 * dayOfYear + 2) / 153
  let day := (dayOfYear - (153 * shiftedMonth + 2) / 5 + 1).toNat
  let month := (if shiftedMonth < 10 then shiftedMonth + 3 else shiftedMonth - 9).toNat
  (yearOfEra + era * 400 + (if month ≤ 2 then 1 else 0), month, day)

/-- Decimal, with zeros before it up to `width`. -/
def padded (width : Nat) (n : Nat) : String :=
  let digits := toString n
  String.ofList (List.replicate (width - digits.length) '0') ++ digits

/-- A time in RFC 3339, in whole seconds; one before the epoch is the epoch. -/
def rfc3339 (time : Time) : String :=
  let seconds := (time / 1000000000).toNat
  let time := seconds % 86400
  let (year, month, day) := civilFromDays ((seconds / 86400 : Nat) : Int)
  padded 4 year.toNat ++ "-" ++ padded 2 month ++ "-" ++ padded 2 day ++ "T" ++
    padded 2 (time / 3600) ++ ":" ++ padded 2 (time % 3600 / 60) ++ ":" ++
    padded 2 (time % 60) ++ "Z"

example : rfc3339 951912005000000000 = "2000-03-01T12:00:05Z" := by decide

/-! ## Pages of what was issued -/

/-- A 64-bit integer taken as unsigned. -/
def asU64 (n : Int) : Nat := (n % 18446744073709551616).toNat

theorem asU64_of_nonneg {n : Int} (h : 0 ≤ n) (hmax : n ≤ i64Max) : (asU64 n : Int) = n := by
  unfold asU64 i64Max at *
  omega

def issued (certificate : Certificate) : IssuedCertificate where
  serial := certificate.serial
  commonName := certificate.commonName
  sans := certificate.sans
  notBefore := rfc3339 certificate.notBefore
  notAfter := rfc3339 certificate.notAfter
  issuerSerial := certificate.issuerSerial
  revokedAt := certificate.revokedAt.map rfc3339
  revocationReason := certificate.revocationReason
  changed := asU64 certificate.changed

namespace Store

/-- The certificates issued or revoked since `after`, up to `issuedPage` of them. -/
def issued (s : Store) (enrolled : Enrolled) (issuedPage : Nat) (after : Nat) :
    Except ErrorBody IssuedPage :=
  if i64Max < after then
    .error (badRequest "out of range integral type conversion attempted")
  else
    let changes := s.changedAfter after enrolled.issuers issuedPage
    let certificates := changes.certificates.map Acme.issued
    .ok ⟨certificates, certificates.getLast?.elim after (·.changed), changes.more⟩

/-- The leaf with `serial`, if a subordinate of this enrolment issued it. -/
def leafOf (s : Store) (enrolled : Enrolled) (serial : String) : Except ErrorBody Certificate :=
  match s.certificates.rows.find? (·.serial = serial) with
  | none => .error ⟨.notFound, s!"no certificate {serial} of this broker's subordinate"⟩
  | some found =>
    if issuedBy enrolled.issuers found then .ok found
    else .error ⟨.notFound, s!"no certificate {serial} of this broker's subordinate"⟩

/-- Whether a leaf may be revoked for `reason` here, and the leaf. -/
def leafToRevoke (s : Store) (enrolled : Enrolled) (serial : String) (reason : Nat) :
    Except ErrorBody Certificate :=
  if enrolled.revoked then
    .error ⟨.revoked, "the broker's subordinate is revoked"⟩
  else if reason ∉ revocationReasons then
    .error (badRequest s!"{reason} is not a revocation reason")
  else s.leafOf enrolled serial

/-- Revokes a leaf that was found unrevoked; one revoked since is answered as it
stands. -/
def revokeLeaf (s : Store) (serial : String) (reason : Nat) (now : Time) :
    Except ErrorBody (Store × Certificate) :=
  match s.revoke serial (some reason |>.filter (· ≠ 0)) now with
  | .ok revoked => .ok revoked
  | .error (.alreadyRevoked _) =>
    match s.certificates.rows.find? (·.serial = serial) with
    | some current => .ok (s, current)
    | none => .error (internal "the certificate went")
  | .error error => .error (internal error.text)

end Store

end Opca.Acme

/-
  Acme/Records.lean --- what the broker's ACME server keeps: accounts, orders,
  authorisations, challenges and certificates, the statuses they move through,
  and the problems it answers with (`acme/store.rs`, `acme/problem.rs`).

  A column that is kept as text or JSON is given here as what it reads back as.
  Times are nanoseconds since the epoch, and a stamp column holds the time that its
  text reads back as.
-/
import Mathlib.Data.List.Basic

set_option autoImplicit false

namespace Opca.Acme

/-- A point in time. -/
abbrev Time := Int

/-! ## Problems -/

/-- The error types of RFC 8555 §6.7 that the functions modelled here use. -/
inductive ProblemType where
  | accountDoesNotExist
  | alreadyRevoked
  | badCsr
  | badNonce
  | badPublicKey
  | badSignatureAlgorithm
  | malformed
  | orderNotReady
  | rejectedIdentifier
  | serverInternal
  | unauthorized
  | unsupportedIdentifier
  deriving DecidableEq, Repr

/-- An ACME problem document, as an order or challenge records it. -/
structure Problem where
  kind : ProblemType
  detail : String
  deriving DecidableEq, Repr

/-! ## Statuses -/

inductive AccountStatus where
  | valid | deactivated | revoked
  deriving DecidableEq, Repr

inductive OrderStatus where
  | pending | ready | processing | valid | invalid
  deriving DecidableEq, Repr

inductive AuthorisationStatus where
  | pending | valid | invalid | deactivated | expired | revoked
  deriving DecidableEq, Repr

inductive ChallengeStatus where
  | pending | processing | valid | invalid
  deriving DecidableEq, Repr

/-- A status kept in its table's `status` column, moving only as RFC 8555 §7.1.6
draws it. -/
class Lifecycle (σ : Type) where
  table : String
  asStr : σ → String
  mayBecome : σ → σ → Bool

open Lifecycle

instance : Lifecycle AccountStatus where
  table := "accounts"
  asStr
    | .valid => "valid"
    | .deactivated => "deactivated"
    | .revoked => "revoked"
  mayBecome self next := self = .valid && next ≠ .valid

instance : Lifecycle OrderStatus where
  table := "orders"
  asStr
    | .pending => "pending"
    | .ready => "ready"
    | .processing => "processing"
    | .valid => "valid"
    | .invalid => "invalid"
  mayBecome
    | .pending, .ready | .pending, .invalid => true
    | .ready, .processing | .ready, .invalid => true
    | .processing, .valid | .processing, .invalid => true
    | _, _ => false

instance : Lifecycle AuthorisationStatus where
  table := "authorisations"
  asStr
    | .pending => "pending"
    | .valid => "valid"
    | .invalid => "invalid"
    | .deactivated => "deactivated"
    | .expired => "expired"
    | .revoked => "revoked"
  mayBecome
    | .pending, .valid | .pending, .invalid | .pending, .deactivated
    | .pending, .expired => true
    | .valid, .deactivated | .valid, .expired | .valid, .revoked => true
    | _, _ => false

instance : Lifecycle ChallengeStatus where
  table := "challenges"
  asStr
    | .pending => "pending"
    | .processing => "processing"
    | .valid => "valid"
    | .invalid => "invalid"
  mayBecome
    | .pending, .processing => true
    | .processing, .pending | .processing, .valid | .processing, .invalid => true
    | _, _ => false

/-! ## Rows -/

/-- The validation methods an order's names may be offered. -/
inductive ChallengeType where
  | http01 | dns01 | tlsAlpn01
  deriving DecidableEq, Repr

structure Account where
  id : Int
  /-- The account key's JWK in its canonical form. -/
  jwk : String
  thumbprint : String
  status : AccountStatus
  contacts : List String
  created : Time
  deriving DecidableEq, Repr

structure NewAuthorisation where
  /-- The name validated: a wildcard's base, without its `*.`. -/
  identifier : String
  wildcard : Bool
  expires : Time
  /-- One challenge of each, each with a token of its own. -/
  challenges : List ChallengeType
  deriving DecidableEq, Repr

structure NewOrder where
  account : Int
  /-- DNS names, lower-case, a wildcard as `*.` and its base. -/
  identifiers : List String
  notBefore : Option Time
  notAfter : Option Time
  expires : Time
  authorisations : List NewAuthorisation
  deriving DecidableEq, Repr

structure Order where
  id : Int
  account : Int
  status : OrderStatus
  identifiers : List String
  notBefore : Option Time
  notAfter : Option Time
  expires : Time
  error : Option Problem
  certificate : Option Int
  created : Time
  deriving DecidableEq, Repr

structure Authorisation where
  id : Int
  order : Int
  identifier : String
  wildcard : Bool
  status : AuthorisationStatus
  expires : Time
  deriving DecidableEq, Repr

structure Challenge where
  id : Int
  authorisation : Int
  kind : ChallengeType
  token : String
  status : ChallengeStatus
  validated : Option Time
  error : Option Problem
  deriving DecidableEq, Repr

/-- An issued certificate, as `record_certificate` takes it. -/
structure NewCertificate where
  /-- Decimal. -/
  serial : String
  commonName : Option String
  sans : List String
  notBefore : Time
  notAfter : Time
  /-- The leaf, then the chain up to and excluding the root. -/
  chainPem : String
  /-- The subordinate's, decimal. -/
  issuerSerial : String
  deriving DecidableEq, Repr

structure Certificate where
  id : Int
  serial : String
  account : Int
  order : Int
  commonName : Option String
  sans : List String
  notBefore : Time
  notAfter : Time
  chainPem : String
  issuerSerial : String
  revokedAt : Option Time
  /-- An RFC 5280 CRLReason code; `none` is unspecified. -/
  revocationReason : Option Nat
  created : Time
  /-- Taken afresh, above every other, on insert and on revoke. -/
  changed : Int
  deriving DecidableEq, Repr

/-- A challenge to validate, with what its validation needs. -/
structure Validation where
  challenge : Int
  kind : ChallengeType
  /-- The name validated: a wildcard's base. -/
  identifier : String
  keyAuthorisation : String
  deriving DecidableEq, Repr

end Opca.Acme

/-
  Acme/Validate.lean --- whether a name answers a challenge: what the validator looks up,
  dials and asks for, and what it takes for an answer (acme/validate.rs).

  The network, and whoever is on it, is a parameter: whatever it is asked for it answers
  as it likes, with anything, late, or with an error, and remembers what it was asked.
  The crates that read URLs and certificates, hash and print are parameters too.
-/
import Opca.Acme.Base64
import Opca.Acme.Records
import Opca.Foundation.IpAddr
import Opca.Foundation.Stateful
import Opca.Foundation.Utf8

set_option autoImplicit false

namespace Opca.Acme.Validate

open Foundation

/-! ## Problems -/

/-- The problem types that a validator finds (`acme/problem.rs`). -/
inductive Kind where
  | connection | dns | incorrectResponse | tls | unauthorized
  deriving DecidableEq, Repr

structure Problem where
  kind : Kind
  detail : String
  deriving DecidableEq, Repr

/-- How a validation stops early: a problem, or its time is up. -/
inductive Ended where
  | problem (p : Problem)
  | late
  deriving DecidableEq, Repr

/-! ## The network -/

/-- What waiting for something came to. -/
inductive Wait (ε α : Type) where
  | late
  | failed (e : ε)
  | came (a : α)

structure Ports where
  http : Nat
  https : Nat
  deriving DecidableEq, Repr

/-- The port of a scheme. -/
def Ports.of (ports : Ports) (https : Bool) : Nat := if https then ports.https else ports.http

/-- Where a request is sent. -/
structure Target where
  https : Bool
  host : String
  port : Nat
  path : String
  deriving DecidableEq, Repr

structure Response where
  status : Nat
  /-- The `Location` header, if it is of visible ASCII. -/
  location : Option String
  deriving DecidableEq, Repr

/-- A body as far as it came, and what went wrong if it broke off. -/
structure Body where
  bytes : List UInt8
  error : Option String
  deriving DecidableEq, Repr

/-- What a TLS handshake settled. -/
structure Session where
  alpnProtocol : Option (List UInt8)
  peerCertificates : List (List UInt8)
  deriving DecidableEq, Repr

/-- A TXT lookup that failed, whether because there is no such record. -/
structure NoTxt where
  isAbsent : Bool
  text : String
  deriving DecidableEq, Repr

/-- The resolver, and TCP, TLS and HTTP connections; `σ` is what they keep. -/
structure Network (σ : Type) where
  ip : String → σ → Wait String (List IpAddr) × σ
  txt : String → σ → Wait NoTxt (List String) × σ
  dial : IpAddr → Nat → σ → Wait String Unit × σ
  handshake : List UInt8 → String → σ → Wait String Session × σ
  send : Target → σ → Wait String Response × σ
  collect : Target → σ → Wait String Body × σ

/-! ## The crates -/

/-- `http::Uri`, as far as it is looked at. -/
structure Uri where
  scheme : Option String
  host : Option String
  port : Option Nat
  pathAndQuery : Option String
  deriving DecidableEq, Repr

inductive GeneralName where
  | dnsName (name : String)
  | other (text : String)
  deriving DecidableEq, Repr

structure Extension where
  oid : String
  critical : Bool
  value : List UInt8
  deriving DecidableEq, Repr

structure Certificate where
  /-- The subject alternative name's, or why it does not read. -/
  generalNames : Except String (List GeneralName)
  extensions : List Extension

/-- What is taken from the crates. -/
structure Crates where
  parseUri : String → Option Uri
  /-- `ServerName::try_from`, or why it is none. -/
  serverName : String → Except String Unit
  /-- Whether a request can be put together. -/
  request : Target → Except String Unit
  sha256 : List UInt8 → List UInt8
  fromDer : List UInt8 → Except String Certificate
  /-- `{:?}`. -/
  debug : String → String
  debugAll : List String → String
  debugNames : List GeneralName → String
  /-- A status with its reason. -/
  status : Nat → String

/-! ## Waiting -/

/-- What the validator was in touch with; no one keeps this. -/
inductive Contact where
  | lookup (host : String) (addresses : Option (List IpAddr))
  | txt (record : String)
  | dial (host : String) (address : IpAddr) (port : Nat)
  | handshake (host : String) (port : Nat) (alpn : List UInt8)
  | request (target : Target)
  | collect (target : Target)
  deriving DecidableEq

/-- The network, and the contacts made so far. -/
structure Dialogue (σ : Type) where
  outside : σ
  contacts : List Contact

abbrev Validation (σ α : Type) := EStateM Ended (Dialogue σ) α

variable {σ ε α : Type}

/-- Something is waited for, for as long as the time lasts. -/
def wait (call : σ → Wait ε α × σ) (contact : Option α → Contact) :
    Validation σ (Except ε α) := fun s =>
  match call s.outside with
  | (.late, outside) => .error .late ⟨outside, s.contacts ++ [contact none]⟩
  | (.failed e, outside) => .ok (.error e) ⟨outside, s.contacts ++ [contact none]⟩
  | (.came a, outside) => .ok (.ok a) ⟨outside, s.contacts ++ [contact (some a)]⟩

/-- `?`, with the problem that an error makes. -/
def orProblem (kind : Kind) (detail : ε → String) (answer : Except ε α) : Validation σ α :=
  outcome (answer.mapError fun e => .problem ⟨kind, detail e⟩)

def refuse (kind : Kind) (detail : String) : Validation σ α := throw (.problem ⟨kind, detail⟩)

/-! ## The validator -/

structure Validator where
  ports : Ports
  /-- The timeout in seconds, as it is printed. -/
  seconds : String

/-- `ACME_TLS_1`. -/
def acmeTls1 : List UInt8 := "acme-tls/1".toList.map Char.toUInt8

/-- `ACME_IDENTIFIER`. -/
def acmeIdentifier : String := "1.3.6.1.5.5.7.1.31"

/-- `MAX_REDIRECTS`. -/
def maxRedirects : Nat := 10

/-- `MAX_BODY`. -/
def maxBody : Nat := 1024

def Target.toString (target : Target) : String :=
  (if target.https then "https" else "http") ++ "://" ++ target.host ++ ":" ++
    Nat.repr target.port ++ target.path

/-- What a key authorisation's digest is written as. -/
def digest (crates : Crates) (keyAuthorisation : String) : String :=
  base64url (crates.sha256 (Utf8.encode keyAuthorisation.toList))

section Functions

variable (crates : Crates) (network : Network σ) (v : Validator)

/-- The addresses are tried in turn. -/
def connectAny (host : String) (port : Nat) : List IpAddr → Option String → Validation σ Unit
  | [], refused =>
    refuse .connection ("connecting to " ++ host ++ " on port " ++ Nat.repr port ++ ": " ++
      refused.getD "no address")
  | address :: addresses, _ => do
    match ← wait (network.dial address port) fun _ => .dial host address port with
    | .ok _ => pure ()
    | .error e => connectAny host port addresses (some e)

def connect (host : String) (port : Nat) : Validation σ Unit := do
  let addresses ← wait (network.ip host) (.lookup host)
  let addresses ← orProblem .dns (fun e => "looking up " ++ host ++ ": " ++ e) addresses
  connectAny network host port addresses none

def serverName (host : String) : Validation σ Unit :=
  orProblem .connection (fun e => host ++ " is not a name TLS can send: " ++ e)
    (crates.serverName host)

/-- The handshake before a request over TLS. -/
def handshakeTls (target : Target) : Validation σ Unit := do
  serverName crates target.host
  let session ← wait (network.handshake ("http/1.1".toList.map Char.toUInt8) target.host) fun _ =>
    .handshake target.host target.port ("http/1.1".toList.map Char.toUInt8)
  let _ ← orProblem .tls (fun e => target.toString ++ ": " ++ e) session

def secure (target : Target) : Validation σ Unit :=
  if target.https then handshakeTls crates network target else pure ()

def get (target : Target) : Validation σ Response := do
  connect network target.host target.port
  orProblem .connection (fun e => target.toString ++ ": " ++ e) (crates.request target)
  secure crates network target
  let sent ← wait (network.send target) fun _ => .request target
  orProblem .connection (fun e => target.toString ++ ": " ++ e) sent

/-- Only to a DNS name over http on the http port, or https on the https port. -/
def redirect (ports : Ports) (source : Target) (location : String) : Except Problem Target :=
  let refuse (why : String) : Except Problem Target :=
    .error ⟨.connection, source.toString ++ " redirected to " ++ crates.debug location ++ ", " ++
      why⟩
  match crates.parseUri location with
  | none => refuse "which is not a URL"
  | some uri =>
    let path := uri.pathAndQuery.getD "/"
    match uri.scheme with
    | none =>
      if location.toList.head? = some '/' then .ok { source with path }
      else refuse "a relative path"
    | some scheme =>
      if scheme ≠ "http" ∧ scheme ≠ "https" then refuse "which is neither http nor https"
      else
        let https := decide (scheme = "https")
        let port := ports.of https
        if uri.port.any (· ≠ port) then refuse ("a port other than " ++ Nat.repr port)
        else
          let host := toAsciiLowercase (uri.host.getD "")
          if host = "" ∨ host.toList.head? = some '[' ∨ (IpAddr.parse host).isSome then
            refuse "which does not name a DNS host"
          else .ok { https, host, port, path }

/-- What is left of the key authorisation before its first dot. -/
def tokenOf (keyAuthorisation : String) : String :=
  String.ofList (keyAuthorisation.toList.takeWhile (· ≠ '.'))

/-- Where an http-01 challenge is asked for first. -/
def firstTarget (ports : Ports) (name keyAuthorisation : String) : Target where
  https := false
  host := name
  port := ports.http
  path := "/.well-known/acme-challenge/" ++ tokenOf keyAuthorisation

/-- `Limited::collect`, and what is made of the bytes. -/
def readBody (target : Target) (keyAuthorisation : String) : Validation σ Unit := do
  let body ← wait (network.collect target) fun _ => .collect target
  let body ← orProblem .connection (fun e => "reading " ++ target.toString ++ ": " ++ e) body
  if maxBody < body.bytes.length then
    refuse .incorrectResponse (target.toString ++ " answered more than " ++ Nat.repr maxBody ++
      " bytes")
  else
    match body.error with
    | some e => refuse .connection ("reading " ++ target.toString ++ ": " ++ e)
    | none =>
      let text := Utf8.fromUtf8Lossy body.bytes
      if Utf8.trimEnd text = keyAuthorisation.toList then pure ()
      else
        refuse .incorrectResponse (target.toString ++ " answered " ++
          crates.debug (String.ofList text) ++ ", not the key authorisation")

/-- The loop, for so many requests. -/
def attempts (name keyAuthorisation : String) : Nat → Target → Validation σ Unit
  | 0, _ =>
    refuse .connection (name ++ " redirected more than " ++ Nat.repr maxRedirects ++ " times")
  | n + 1, target => do
    let response ← get crates network target
    if 300 ≤ response.status ∧ response.status < 400 then
      match response.location with
      | none => refuse .connection (target.toString ++ " redirected nowhere")
      | some location =>
        let target ← outcome ((redirect crates v.ports target location).mapError .problem)
        attempts name keyAuthorisation n target
    else if response.status ≠ 200 then
      refuse .unauthorized (target.toString ++ " answered " ++ crates.status response.status)
    else readBody crates network target keyAuthorisation

def http01 (name keyAuthorisation : String) : Validation σ Unit :=
  attempts crates network v name keyAuthorisation (maxRedirects + 1)
    (firstTarget v.ports name keyAuthorisation)

/-- Where a dns-01 challenge's record is. -/
def challengeRecord (name : String) : String :=
  "_acme-challenge." ++ (stripPrefix "*." name).getD name

def dns01 (name keyAuthorisation : String) : Validation σ Unit := do
  let record := challengeRecord name
  match ← wait (network.txt record) fun _ => .txt record with
  | .ok found =>
    if digest crates keyAuthorisation ∈ found then pure ()
    else
      refuse .incorrectResponse (record ++ " holds " ++ crates.debugAll found ++ ", not " ++
        crates.debug (digest crates keyAuthorisation))
  | .error e =>
    if e.isAbsent then refuse .unauthorized (record ++ " has no TXT record: " ++ e.text)
    else refuse .dns ("looking up " ++ record ++ ": " ++ e.text)

/-- The one name of a certificate, whatever its case. -/
def namesOnly (name : String) : List GeneralName → Bool
  | [.dnsName only] => toAsciiLowercase only = toAsciiLowercase name
  | _ => false

/-- Exactly one SAN, the name, and the critical acmeIdentifier holding the key
authorisation's digest. -/
def checkValidationCertificate (der : List UInt8) (name keyAuthorisation : String) :
    Except String Unit :=
  match crates.fromDer der with
  | .error e => .error ("does not decode: " ++ e)
  | .ok certificate =>
    match certificate.generalNames with
    | .error e => .error ("has an unreadable SAN: " ++ e)
    | .ok sans =>
      if ¬ namesOnly name sans then
        .error ("names " ++ crates.debugNames sans ++ ", not just " ++ name)
      else
        match certificate.extensions.find? (·.oid = acmeIdentifier) with
        | none => .error "has no acmeIdentifier"
        | some identifier =>
          if ¬ identifier.critical then .error "has an acmeIdentifier that is not critical"
          else if identifier.value ≠
              [0x04, 0x20] ++ crates.sha256 (Utf8.encode keyAuthorisation.toList) then
            .error "has an acmeIdentifier that is not the key authorisation's digest"
          else .ok ()

def tlsAlpn01 (name keyAuthorisation : String) : Validation σ Unit := do
  let port := v.ports.https
  connect network name port
  serverName crates name
  let session ← wait (network.handshake acmeTls1 name) fun _ => .handshake name port acmeTls1
  let session ← orProblem .tls (fun e => name ++ ":" ++ Nat.repr port ++ ": " ++ e) session
  if session.alpnProtocol ≠ some acmeTls1 then
    refuse .tls (name ++ ":" ++ Nat.repr port ++ " did not negotiate acme-tls/1")
  else
    match session.peerCertificates.head? with
    | none => refuse .tls (name ++ ":" ++ Nat.repr port ++ " sent no certificate")
    | some certificate =>
      orProblem .unauthorized
        (fun why => name ++ ":" ++ Nat.repr port ++ "'s certificate " ++ why)
        (checkValidationCertificate crates certificate name keyAuthorisation)

def answered : ChallengeType → String → String → Validation σ Unit
  | .http01 => http01 crates network v
  | .dns01 => dns01 crates network
  | .tlsAlpn01 => tlsAlpn01 crates network v

/-- `Validator::validate`: what came of it, and where it left the network. -/
def validate (kind : ChallengeType) (name keyAuthorisation : String) (outside : σ) :
    Except Problem Unit × Dialogue σ :=
  match answered crates network v kind name keyAuthorisation ⟨outside, []⟩ with
  | .ok _ s => (.ok (), s)
  | .error (.problem p) s => (.error p, s)
  | .error .late s =>
    (.error ⟨.connection, name ++ " did not answer within " ++ v.seconds ++ " s"⟩, s)

end Functions

/-! ## Where it may go -/

/-- A host that a redirect may name. -/
structure NamesDns (host : String) : Prop where
  ne_empty : host ≠ ""
  not_bracketed : host.toList.head? ≠ some '['
  not_address : IpAddr.parse host = none
  lower : toAsciiLowercase host = host

/-- The name itself, or a host that a redirect may name. -/
def Named (name host : String) : Prop := host = name ∨ NamesDns host

/-- A target of a validation of `name`: on its scheme's port. -/
structure Target.Allowed (ports : Ports) (name : String) (target : Target) : Prop where
  named : Named name target.host
  port_eq : target.port = ports.of target.https

/-- What a validation may be in touch with. -/
def Permitted (ports : Ports) (name : String) : ChallengeType → Contact → Prop
  | .http01, .lookup host _ => Named name host
  | .http01, .dial host _ port => Named name host ∧ (port = ports.http ∨ port = ports.https)
  | .http01, .handshake host port _ => Named name host ∧ port = ports.https
  | .http01, .request target => target.Allowed ports name
  | .http01, .collect target => target.Allowed ports name
  | .dns01, .txt record => record = challengeRecord name
  | .tlsAlpn01, .lookup host _ => host = name
  | .tlsAlpn01, .dial host _ port => host = name ∧ port = ports.https
  | .tlsAlpn01, .handshake host port alpn => host = name ∧ port = ports.https ∧ alpn = acmeTls1
  | _, _ => False

/-- A redirect leads from one target to the other. -/
def Redirects (crates : Crates) (ports : Ports) (source target : Target) : Prop :=
  ∃ location, redirect crates ports source location = .ok target

variable {crates : Crates} {ports : Ports} {name : String}

theorem firstTarget_allowed (keyAuthorisation : String) :
    (firstTarget ports name keyAuthorisation).Allowed ports name where
  named := .inl rfl
  port_eq := rfl

theorem Target.Allowed.redirected {source target : Target} {location : String}
    (h : source.Allowed ports name)
    (hredirect : redirect crates ports source location = .ok target) :
    target.Allowed ports name := by
  unfold redirect at hredirect
  split at hredirect
  · cases hredirect
  next uri huri =>
    dsimp only at hredirect
    split at hredirect
    · split at hredirect
      · cases hredirect
        exact ⟨h.named, h.port_eq⟩
      · cases hredirect
    next scheme hscheme =>
      split at hredirect
      · cases hredirect
      · split at hredirect
        · cases hredirect
        · split at hredirect
          · cases hredirect
          next hhost =>
            simp only [not_or] at hhost
            obtain ⟨hempty, hbracket, haddress⟩ := hhost
            cases hredirect
            refine ⟨.inr ⟨hempty, hbracket, ?_, toAsciiLowercase_idem _⟩, rfl⟩
            exact Option.not_isSome_iff_eq_none.mp haddress

/-! ## What it was in touch with -/

/-- The requests among the contacts. -/
def requests (contacts : List Contact) : List Target :=
  contacts.filterMap fun
    | .request target => some target
    | _ => none

/-- Only what `P` permits, and no address dialled that its host's lookup did not answer. -/
structure Good (P : Contact → Prop) (contacts : List Contact) : Prop where
  permitted : ∀ c ∈ contacts, P c
  resolved : ∀ host address port, .dial host address port ∈ contacts →
    ∃ addresses, .lookup host (some addresses) ∈ contacts ∧ address ∈ addresses

namespace Good

variable {P : Contact → Prop} {contacts : List Contact} {c : Contact}

theorem nil : Good P [] where
  permitted := by simp
  resolved := by simp

theorem push (h : Good P contacts) (hc : P c)
    (hdial : ∀ host address port, c = .dial host address port →
      ∃ addresses, .lookup host (some addresses) ∈ contacts ∧ address ∈ addresses) :
    Good P (contacts ++ [c]) where
  permitted := by
    intro c' hc'
    rcases List.mem_append.mp hc' with hold | hnew
    · exact h.permitted c' hold
    · rw [List.mem_singleton.mp hnew]
      exact hc
  resolved := by
    intro host address port hmem
    have hfound : ∃ addresses, .lookup host (some addresses) ∈ contacts ∧
        address ∈ addresses := by
      rcases List.mem_append.mp hmem with hold | hnew
      · exact h.resolved host address port hold
      · exact hdial host address port (List.mem_singleton.mp hnew).symm
    obtain ⟨addresses, hlookup, haddress⟩ := hfound
    exact ⟨addresses, List.mem_append_left _ hlookup, haddress⟩

/-- What dials nothing. -/
theorem add (h : Good P contacts) (hc : P c)
    (hnot : ∀ host address port, c ≠ .dial host address port) : Good P (contacts ++ [c]) :=
  h.push hc fun host address port heq => absurd heq (hnot host address port)

end Good

end Opca.Acme.Validate

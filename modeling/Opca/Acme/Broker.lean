/-
  Acme/Broker.lean --- the broker's state, on disk and in memory: its enrolment, what
  its operator changes of that, and what the ACME listener serves of it (`broker.rs`,
  `enrolment.rs`, `enrolled.rs`, `acme/listener.rs`, `acme/server.rs`).

  Every change holds the state lock, and so is one function of the state.
-/
import Opca.Acme.Enrolled
import Opca.Acme.Issue
import Opca.Acme.Server
import Opca.Foundation.Radix

set_option autoImplicit false

namespace Opca.Acme

open Opca.Foundation

/-! ## What the broker takes from outside -/

/-- What is read off a certificate. -/
structure CertificateView where
  /-- Hexadecimal. -/
  serial : String
  subject : String
  issuer : String
  spki : String
  ca : Bool
  selfSigned : Bool
  notAfter : Time
  /-- The DNS names that its name constraints permit. -/
  permittedDns : List String
  deriving DecidableEq, Repr

/-- PEM, certificates, pins and codes are read elsewhere, and TLS configurations and
authorities made. -/
structure Outside where
  /-- The certificates in a PEM text, DER. -/
  certificates : String → Except String (List String)
  encode : String → String
  inspect : String → Except String CertificateView
  parsePin : String → Except String String
  parseCode : String → Option String
  /-- Whether a TLS configuration takes clients that chain to a root and hold a key. -/
  clientAuth : (root pin : String) → Except String Unit
  /-- `Authority::new` of a certificate and a signer's key. -/
  authority : (certificate key : String) → Except String Unit

/-- The broker's configuration, and the pin of the API key that it serves. -/
structure Config where
  host : String
  domains : List String
  pin : String
  pkiOrigin : String

/-- What the files and the network answer during one change. -/
structure Io where
  /-- `subordinate.key` and `subordinate.csr` are read. -/
  key : Except String Unit
  /-- `enrolment.json` is read. -/
  read : Except String Unit
  /-- A file is replaced, whole or not at all. -/
  write : Except String Unit
  /-- The pin of the API key on disk. -/
  pinned : Except String String
  /-- Whether the ACME listener's certificate is still current. -/
  current : Bool
  /-- That certificate is issued and written. -/
  pair : Except String Unit
  /-- The ACME listener is bound. -/
  listen : Except String Unit

/-- Nothing fails. -/
def Io.fine (config : Config) : Io :=
  ⟨.ok (), .ok (), .ok (), .ok config.pin, false, .ok (), .ok ()⟩

/-- The hexadecimal digits of a text; what is no digit is passed over. -/
def Serial.nibbles (hex : String) : List Nat := hex.toList.filterMap (IpAddr.toDigit 16)

/-- The decimal digits, the lowest first, once every nibble is taken in. -/
def Serial.digits (hex : String) : List Nat :=
  -- A digit below 10 and a carry below 16 keep every product within 159.
  (Serial.nibbles hex).foldl (fun digits nibble => Radix.mulAdd 10 16 digits nibble) [0]

/-- A hexadecimal serial in decimal. -/
def Serial.decimal (hex : String) : String := Radix.numeral (Radix.trim (Serial.digits hex))

example : Serial.decimal "7fffffffffffffffffff" = "604462909807314587353087" := by decide

/-! ## The state -/

/-- What an accepted enrolment left in the state directory. -/
structure Broker.Enrolled extends Acme.Enrolled where
  /-- The subordinate first, then the root. -/
  chainPem : String
  operatorPin : String
  config : IssuanceConfig
  /-- The API key's pin as the pairing URI gave it to opCA. -/
  apiPin : String
  /-- opCA paused issuance. -/
  paused : Bool
  deriving DecidableEq, Repr

/-- Whether the broker is waiting to pair, or paired with an opCA. -/
inductive Broker.Mode where
  | enrolling
  | enrolled (enrolled : Broker.Enrolled)
  deriving DecidableEq, Repr

structure Broker where
  /-- `enrolment.json`. -/
  enrolment : Option Broker.Enrolled
  /-- The key in `subordinate.key`, as its SubjectPublicKeyInfo. -/
  keyFile : String
  /-- `acme.db`, and what the ACME handlers do beside it. -/
  acme : State
  /-- The key in memory. -/
  subordinate : String
  mode : Broker.Mode
  /-- `Server::paused`. -/
  paused : Bool
  /-- `Server::issuer`. -/
  issuer : Option Issuer
  /-- Whether the ACME listener serves. -/
  serving : Bool

namespace Broker

/-- The enrolment of a broker that may issue under it, paused or not. -/
def Mode.live : Mode → Option Broker.Enrolled
  | .enrolling => none
  | .enrolled current => if current.revoked then none else some current

/-- The mode an `enrolment.json` stands for. -/
def Mode.of : Option Broker.Enrolled → Mode
  | none => .enrolling
  | some stored => .enrolled stored

/-- The enrolment a mode stands for. -/
def Mode.stored : Mode → Option Broker.Enrolled
  | .enrolling => none
  | .enrolled current => some current

theorem Mode.live_eq_some {mode : Mode} {enrolled : Broker.Enrolled} :
    mode.live = some enrolled ↔ mode = .enrolled enrolled ∧ enrolled.revoked = false := by
  cases mode with
  | enrolling => simp [Mode.live]
  | enrolled current =>
    simp only [Mode.live, Mode.enrolled.injEq]
    constructor
    · intro h
      split at h
      next => cases h
      next hunrevoked =>
        cases h
        exact ⟨rfl, by simpa using hunrevoked⟩
    · rintro ⟨rfl, hunrevoked⟩
      rw [hunrevoked]
      rfl

section Operations

variable (outside : Outside) (config : Config)

/-! ## Reading the state -/

def load (b : Broker) (io : Io) : Except String Mode :=
  io.read.map fun () => Mode.of b.enrolment

def rootOf (chainPem : String) : Except String String := do
  let chain ← outside.certificates chainPem
  chain.getLast?.elim (.error "the stored chain is empty") .ok

/-- The API's TLS once enrolled: a client must chain to `root` and present the
operator's key. -/
def operatorConfig (root operatorPin : String) (io : Io) : Except String Unit := do
  let pin ← outside.parsePin operatorPin
  let pinned ← io.pinned
  if pinned ≠ config.pin then .error "the API key on disk is not the one being served"
  else outside.clientAuth root pin

def tlsConfig (io : Io) : Mode → Except String Unit
  | .enrolling => .ok ()
  | .enrolled enrolled => do
    let root ← rootOf outside enrolled.chainPem
    operatorConfig outside config root enrolled.operatorPin io

/-- The subordinate an enrolment's chain begins with. -/
def subordinateOf (enrolled : Broker.Enrolled) : Option CertificateView := do
  let chain ← (outside.certificates enrolled.chainPem).toOption
  let first ← chain.head?
  (outside.inspect first).toOption

/-! ## Serving ACME -/

/-- `Issuer::new`, for the enrolled chain and a signer of `key`. -/
def newIssuer (key chainPem : String) (issuance : IssuanceConfig) : Except String Issuer := do
  let chain ← outside.certificates chainPem
  let chain := chain.dropLast
  match chain with
  | [] => .error "the chain holds no subordinate"
  | subordinate :: _ =>
    let view ← outside.inspect subordinate
    let _ ← outside.authority subordinate key
    .ok {
      chainPem := String.join (chain.map outside.encode)
      subordinateSerial := Serial.decimal view.serial
      subordinateNotAfter := view.notAfter
      config := issuance
      pkiOrigin := none }

def publishedAt (issuer : Issuer) (origin : String) : Issuer :=
  { issuer with pkiOrigin := some origin }

/-- The listener's certificate first, then the server's issuer, then the listener. -/
def serveAcmeUnder (b : Broker) (enrolled : Broker.Enrolled) (io : Io) :
    Broker × Except String Unit :=
  match newIssuer outside b.subordinate enrolled.chainPem enrolled.config with
  | .error e => (b, .error e)
  | .ok issuer =>
    match if io.current then .ok () else io.pair with
    | .error e => (b, .error e)
    | .ok () =>
      let b := { b with issuer := some (publishedAt issuer config.pkiOrigin) }
      if io.current && b.serving then (b, .ok ())
      else match io.listen with
        | .error e => (b, .error e)
        | .ok () => ({ b with serving := true }, .ok ())

/-- Serves ACME while enrolled and not revoked. -/
def refreshAcme (b : Broker) (io : Io) : Broker :=
  match b.mode.live with
  | none => { b with serving := false }
  | some enrolled =>
    (serveAcmeUnder outside config { b with paused := enrolled.paused } enrolled io).1

/-- `Server::issuing`: what a handler may issue with. -/
def issuing (b : Broker) : Except Problem Issuer :=
  if b.paused then .error ⟨.serverInternal, "the operator paused issuance"⟩
  else b.issuer.elim (.error ⟨.serverInternal, "not issuing yet"⟩) .ok

/-! ## Checking a chain and its config -/

/-- The subordinate of a chain that may be enrolled with, and its root. -/
def checkChain (b : Broker) (chainPem : String) (now : Time) :
    Except ErrorBody (CertificateView × String) := do
  match ← (outside.certificates chainPem).mapError badRequest with
  | [] | [_] => .error (badRequest "the chain needs the subordinate, then the root")
  | first :: next :: rest =>
    let last := rest.getLastD next
    let subordinate ← (outside.inspect first).mapError badRequest
    let root ← (outside.inspect last).mapError badRequest
    if subordinate.spki ≠ b.subordinate then
      .error (badRequest "the chain's first certificate is not for this broker's key")
    else if !subordinate.ca || !root.selfSigned || subordinate.issuer ≠ root.subject then
      .error (badRequest
        "the chain is not a subordinate CA followed by the root that issued it")
    else if subordinate.notAfter ≤ now then
      .error (badRequest "the subordinate has expired")
    else .ok (subordinate, last)

def checkConfig (issuance : IssuanceConfig) (subordinate : CertificateView) :
    Except ErrorBody Unit :=
  let lowercase (names : List String) : List String := btreeSet (names.map toAsciiLowercase)
  let permitted := lowercase issuance.permittedDomains
  if permitted = [] then .error (badRequest "the config permits no domains")
  else if permitted ≠ lowercase subordinate.permittedDns then .error (badRequest
    "the config's domains are not those the subordinate's name constraints permit")
  else if !hostWithin config.host issuance.permittedDomains then .error (badRequest
    ("the broker's host is not a name within the permitted domains, and the ACME " ++
      "listener's certificate is issued for it"))
  else if config.domains ≠ [] ∧ permitted ≠ lowercase config.domains then .error (badRequest
    "the config's domains are not those configured on the broker")
  else if issuance.leafDays = 0 ∨ issuance.leafMaxDays < issuance.leafDays then
    .error (badRequest "leaf_days must be at least 1 and at most leaf_max_days")
  else if issuance.challenges = [] then
    .error (badRequest "the config allows no challenges")
  else .ok ()

/-! ## Enrolling -/

/-- What opCA posts to enrol the broker. -/
structure Enrolment where
  code : String
  chainPem : String
  operatorPin : String
  config : IssuanceConfig
  deriving DecidableEq, Repr

structure Checked where
  code : String
  enrolled : Broker.Enrolled
  root : String
  deriving DecidableEq, Repr

/-- Made before the state lock is had; the route answers only while enrolling. -/
def check (b : Broker) (enrolment : Enrolment) (now : Time) : Except ErrorBody Checked := do
  let code ← (outside.parseCode enrolment.code).elim
    (.error (badRequest "the code is not a pairing code")) .ok
  let hexDigit (c : Char) : Bool := c.isDigit || ('a' ≤ c && c ≤ 'f')
  if enrolment.operatorPin.utf8ByteSize ≠ 64 ∨ !enrolment.operatorPin.toList.all hexDigit then
    .error (badRequest "the operator pin is not 64 lower-case hex digits")
  else
    let (subordinate, root) ← checkChain outside b enrolment.chainPem now
    checkConfig config enrolment.config subordinate
    .ok ⟨code, {
      chainPem := enrolment.chainPem
      operatorPin := enrolment.operatorPin
      config := enrolment.config
      apiPin := config.pin
      revoked := false
      paused := false
      issuers := some [Serial.decimal subordinate.serial] }, root⟩

/-- What the one-time code answers. -/
inductive Redemption where
  | accepted
  | refused (remaining : Nat)
  | spent (why : String)
  | failed (error : String)
  deriving DecidableEq, Repr

def refusal : Redemption → ErrorBody
  | .refused remaining => ⟨.wrongCode remaining, "wrong pairing code"⟩
  | .spent why => ⟨.codeSpent, s!"the pairing code is spent ({why})"⟩
  | .failed error => internal error
  | .accepted => internal "unexpected redemption Accepted"

/-- Staged before the redeem, and moved into place after it. -/
def redeemAndStore (b : Broker) (checked : Checked) (redeemed : Redemption)
    (promote : Except String Unit) (io : Io) : Broker × Except ErrorBody Unit :=
  match operatorConfig outside config checked.root checked.enrolled.operatorPin io with
  | .error e => (b, .error (badRequest e))
  | .ok () =>
    match io.write with
    | .error e => (b, .error (internal e))
    | .ok () =>
      if redeemed ≠ .accepted then (b, .error (refusal redeemed))
      else match promote with
        | .error e => (b, .error (internal e))
        | .ok () =>
          let b := { b with
            enrolment := some checked.enrolled
            mode := .enrolled checked.enrolled }
          (refreshAcme outside config b io, .ok ())

/-! ## What the operator changes -/

inductive IssuerState where
  | issuing | acmeDown | paused | revoked
  deriving DecidableEq, Repr

structure Status where
  state : IssuerState
  /-- Decimal. -/
  subordinateSerial : String
  subordinateNotAfter : String
  config : IssuanceConfig
  deriving DecidableEq, Repr

def statusFrom (b : Broker) (subordinate : CertificateView) (enrolled : Broker.Enrolled) :
    Status where
  state :=
    if enrolled.revoked then .revoked
    else if enrolled.paused then .paused
    else if b.serving then .issuing
    else .acmeDown
  subordinateSerial := Serial.decimal subordinate.serial
  subordinateNotAfter := rfc3339 subordinate.notAfter
  config := enrolled.config

def status (b : Broker) (enrolled : Broker.Enrolled) : Except ErrorBody Status := do
  let chain ← (outside.certificates enrolled.chainPem).mapError internal
  let first ← chain.head?.elim (.error (internal "the stored chain is empty")) .ok
  let subordinate ← (outside.inspect first).mapError internal
  .ok (statusFrom b subordinate enrolled)

def refuseIfRevoked (enrolled : Broker.Enrolled) : Except ErrorBody Unit :=
  if enrolled.revoked then .error ⟨.revoked, "the broker's subordinate is revoked"⟩
  else .ok ()

/-- The enrolment, from disk. -/
def enrolledOnDisk (b : Broker) (io : Io) : Except ErrorBody Broker.Enrolled := do
  match ← (load b io).mapError internal with
  | .enrolling => .error (internal "not enrolled")
  | .enrolled enrolled => .ok enrolled

/-- On disk first, then in memory. -/
def store (b : Broker) (enrolled : Broker.Enrolled) (io : Io) : Except ErrorBody Broker :=
  (io.write.mapError internal).map fun () =>
    { b with enrolment := some enrolled, mode := .enrolled enrolled }

/-- A renewed chain with its config. -/
structure ChainUpdate where
  chainPem : String
  config : IssuanceConfig
  deriving DecidableEq, Repr

/-- The enrolment with a renewed chain in it, and that chain's subordinate. -/
def renewed (b : Broker) (update : ChainUpdate) (now : Time) (io : Io) :
    Except ErrorBody (Broker.Enrolled × CertificateView) := do
  let current ← enrolledOnDisk b io
  refuseIfRevoked current
  let (subordinate, root) ← checkChain outside b update.chainPem now
  if root ≠ (← (rootOf outside current.chainPem).mapError internal) then
    .error (badRequest "the chain ends in another root than the one enrolled")
  else
    checkConfig config update.config subordinate
    .ok ({ current with
      chainPem := update.chainPem
      config := update.config
      issuers := current.issuers.map (· ++ [Serial.decimal subordinate.serial]) }, subordinate)

/-- `update_chain`, under the lock. -/
def storeChain (b : Broker) (update : ChainUpdate) (now : Time) (io : Io) :
    Broker × Except ErrorBody Status :=
  match renewed outside config b update now io with
  | .error e => (b, .error e)
  | .ok (enrolled, subordinate) =>
    match store b enrolled io with
    | .error e => (b, .error e)
    | .ok b =>
      let b := refreshAcme outside config b io
      (b, .ok (statusFrom b subordinate enrolled))

/-- `revoke`, under the lock. -/
def storeRevocation (b : Broker) (io : Io) : Broker × Except ErrorBody Status :=
  match enrolledOnDisk b io with
  | .error e => (b, .error e)
  | .ok current =>
    if current.revoked then (b, status outside b current)
    else
      let revoked : Broker.Enrolled := { current with revoked := true }
      match store b revoked io with
      | .error e => (b, .error e)
      | .ok b =>
        let b := refreshAcme outside config b io
        (b, status outside b revoked)

/-- `pause` and `resume`, under the lock. -/
def storePause (b : Broker) (paused : Bool) (io : Io) : Broker × Except ErrorBody Status :=
  match enrolledOnDisk b io with
  | .error e => (b, .error e)
  | .ok current =>
    match refuseIfRevoked current with
    | .error e => (b, .error e)
    | .ok () =>
      if current.paused = paused then (b, status outside b current)
      else
        let changed : Broker.Enrolled := { current with paused }
        match store b changed io with
        | .error e => (b, .error e)
        | .ok b =>
          let b := refreshAcme outside config b io
          (b, status outside b changed)

/-! ## From disk -/

/-- What a reload reads, and a start: the state on disk, if TLS can be configured
for it. -/
def loaded (b : Broker) (io : Io) : Except String Mode := do
  io.key
  let mode ← load b io
  tlsConfig outside config io mode
  .ok mode

/-- Takes up what was changed on disk. -/
def reloadLocked (b : Broker) (io : Io) : Broker × Except String Unit :=
  match loaded outside config b io with
  | .error e => (b, .error e)
  | .ok mode =>
    (refreshAcme outside config { b with subordinate := b.keyFile, mode := mode } io, .ok ())

/-- A new process over the same state directory; `opened` is what comes of the
database and the rest. -/
def start (b : Broker) (io : Io) (opened : Except String Unit) : Except String Broker := do
  let mode ← loaded outside config b io
  opened
  .ok { b with
    acme := ⟨b.acme.store, [], [], [], b.acme.accepted⟩
    subordinate := b.keyFile
    mode := mode
    paused := false
    issuer := none
    serving := false }

/-- `opca-acme enrol --reopen`, beside a running daemon: the enrolment is archived and
a new subordinate key made. -/
def reopen (b : Broker) (key : String) : Broker :=
  { b with enrolment := none, keyFile := key }

/-! ## What an operation does -/

variable {outside config} {b t : Broker} {enrolled : Broker.Enrolled} {io : Io} {now : Time}

/-- What `refresh_acme` does, and no more: the listener serves a mode that is live, and
the server is paused as that is. -/
structure Refreshed (b t : Broker) : Prop where
  enrolment : t.enrolment = b.enrolment
  keyFile : t.keyFile = b.keyFile
  acme : t.acme = b.acme
  subordinate : t.subordinate = b.subordinate
  mode : t.mode = b.mode
  serving : t.serving = true → b.mode.live.isSome = true
  paused : ∀ enrolled, b.mode.live = some enrolled → t.paused = enrolled.paused
  stopped : b.mode.live = none → t.paused = b.paused

theorem serveAcmeUnder_spec (outside : Outside) (config : Config) (b : Broker)
    (enrolled : Broker.Enrolled) (io : Io) :
    (serveAcmeUnder outside config b enrolled io).1.enrolment = b.enrolment ∧
      (serveAcmeUnder outside config b enrolled io).1.keyFile = b.keyFile ∧
      (serveAcmeUnder outside config b enrolled io).1.acme = b.acme ∧
      (serveAcmeUnder outside config b enrolled io).1.subordinate = b.subordinate ∧
      (serveAcmeUnder outside config b enrolled io).1.mode = b.mode ∧
      (serveAcmeUnder outside config b enrolled io).1.paused = b.paused := by
  unfold serveAcmeUnder
  split
  next => exact ⟨rfl, rfl, rfl, rfl, rfl, rfl⟩
  next =>
    split
    next => exact ⟨rfl, rfl, rfl, rfl, rfl, rfl⟩
    next =>
      dsimp only
      split
      next => exact ⟨rfl, rfl, rfl, rfl, rfl, rfl⟩
      next =>
        split
        next => exact ⟨rfl, rfl, rfl, rfl, rfl, rfl⟩
        next => exact ⟨rfl, rfl, rfl, rfl, rfl, rfl⟩

theorem refreshed_refreshAcme (b : Broker) (io : Io) :
    Refreshed b (refreshAcme outside config b io) := by
  unfold refreshAcme
  split
  next hlive =>
    refine ⟨rfl, rfl, rfl, rfl, rfl, ?_, ?_, fun _ => rfl⟩
    · intro hserving
      cases hserving
    · intro enrolled hsome
      rw [hlive] at hsome
      cases hsome
  next current hlive =>
    obtain ⟨henrolment, hkeyFile, hacme, hsubordinate, hmode, hpaused⟩ :=
      serveAcmeUnder_spec outside config { b with paused := current.paused } current io
    refine ⟨henrolment, hkeyFile, hacme, hsubordinate, hmode, ?_, ?_, ?_⟩
    · intro _
      rw [hlive]
      rfl
    · intro enrolled hsome
      rw [hlive] at hsome
      cases hsome
      exact hpaused
    · intro hnone
      rw [hlive] at hnone
      cases hnone

/-- `enrolled` on disk and in memory, and served from then on. -/
def Stored (b : Broker) (enrolled : Broker.Enrolled) (t : Broker) : Prop :=
  Refreshed { b with enrolment := some enrolled, mode := .enrolled enrolled } t

/-- An enrolment's chain begins with a certificate for `key`, with the decimal
`serial`. -/
def Certifies (outside : Outside) (enrolled : Broker.Enrolled) (key serial : String) : Prop :=
  ∃ subordinate, subordinateOf outside enrolled = some subordinate ∧
    subordinate.spki = key ∧ Serial.decimal subordinate.serial = serial

theorem load_ok {mode : Mode} (h : load b io = .ok mode) : mode = Mode.of b.enrolment := by
  obtain ⟨⟨⟩, -, hmode⟩ := map_eq_ok.mp h
  exact hmode.symm

theorem enrolledOnDisk_ok (h : enrolledOnDisk b io = .ok enrolled) :
    b.enrolment = some enrolled := by
  obtain ⟨mode, hload, h⟩ := bind_eq_ok.mp h
  have hmode := load_ok (mapError_eq_ok.mp hload)
  subst hmode
  cases henrolment : b.enrolment with
  | none =>
    rw [henrolment] at h
    cases h
  | some stored =>
    rw [henrolment] at h
    cases h
    rfl

theorem refuseIfRevoked_ok (h : refuseIfRevoked enrolled = .ok ()) :
    enrolled.revoked = false := by
  unfold refuseIfRevoked at h
  split at h
  next => cases h
  next hunrevoked => simpa using hunrevoked

/-- A chain that is accepted begins with a certificate for the key in memory. -/
theorem checkChain_ok {chainPem root : String} {subordinate : CertificateView}
    (h : checkChain outside b chainPem now = .ok (subordinate, root))
    (henrolled : enrolled.chainPem = chainPem) :
    Certifies outside enrolled b.subordinate (Serial.decimal subordinate.serial) := by
  obtain ⟨chain, hchain, h⟩ := bind_eq_ok.mp h
  rw [mapError_eq_ok] at hchain
  dsimp only at h
  split at h
  next => cases h
  next => cases h
  next first next rest =>
    obtain ⟨found, hfound, h⟩ := bind_eq_ok.mp h
    obtain ⟨last, -, h⟩ := bind_eq_ok.mp h
    rw [mapError_eq_ok] at hfound
    split at h
    · cases h
    next hspki =>
      split at h
      · cases h
      split at h
      · cases h
      cases h
      refine ⟨subordinate, ?_, not_not.mp hspki, rfl⟩
      unfold subordinateOf
      rw [henrolled, hchain]
      simp only [Except.toOption, List.head?_cons, Option.bind_eq_bind, Option.bind_some,
        hfound]

/-- What is enrolled with names its one subordinate. -/
theorem check_ok {enrolment : Enrolment} {checked : Checked}
    (h : check outside config b enrolment now = .ok checked) :
    checked.enrolled.revoked = false ∧ checked.enrolled.paused = false ∧
      ∃ serial, Certifies outside checked.enrolled b.subordinate serial ∧
        checked.enrolled.issuers = some [serial] := by
  obtain ⟨code, -, h⟩ := bind_eq_ok.mp h
  dsimp only at h
  split at h
  · cases h
  obtain ⟨⟨subordinate, root⟩, hchain, h⟩ := bind_eq_ok.mp h
  obtain ⟨⟨⟩, -, h⟩ := bind_eq_ok.mp h
  cases h
  exact ⟨rfl, rfl, _, checkChain_ok hchain rfl, rfl⟩

/-- An enrolment is stored whole, or the broker is as it was. -/
theorem redeemAndStore_cases {checked : Checked} {redeemed : Redemption}
    {promote : Except String Unit} {r : Except ErrorBody Unit}
    (h : redeemAndStore outside config b checked redeemed promote io = (t, r)) :
    (t = b ∧ r.isOk = false) ∨ (Stored b checked.enrolled t ∧ r = .ok ()) := by
  unfold redeemAndStore at h
  split at h
  next =>
    cases h
    exact Or.inl ⟨rfl, rfl⟩
  next =>
    split at h
    next =>
      cases h
      exact Or.inl ⟨rfl, rfl⟩
    next =>
      split at h
      next =>
        cases h
        exact Or.inl ⟨rfl, rfl⟩
      next =>
        split at h
        next =>
          cases h
          exact Or.inl ⟨rfl, rfl⟩
        next =>
          cases h
          exact Or.inr ⟨refreshed_refreshAcme _ io, rfl⟩

theorem store_ok (h : store b enrolled io = .ok t) :
    t = { b with enrolment := some enrolled, mode := .enrolled enrolled } := by
  obtain ⟨⟨⟩, -, hstored⟩ := map_eq_ok.mp h
  exact hstored.symm

/-- A renewed enrolment goes on from the one on disk. -/
theorem renewed_ok {update : ChainUpdate} {subordinate : CertificateView}
    (h : renewed outside config b update now io = .ok (enrolled, subordinate)) :
    ∃ current serial, b.enrolment = some current ∧ current.revoked = false ∧
      enrolled.revoked = false ∧ enrolled.paused = current.paused ∧
      Certifies outside enrolled b.subordinate serial ∧
      enrolled.issuers = current.issuers.map (· ++ [serial]) := by
  obtain ⟨current, hcurrent, h⟩ := bind_eq_ok.mp h
  obtain ⟨⟨⟩, hrevoked, h⟩ := bind_eq_ok.mp h
  have hunrevoked := refuseIfRevoked_ok hrevoked
  obtain ⟨⟨found, root⟩, hchain, h⟩ := bind_eq_ok.mp h
  obtain ⟨_, -, h⟩ := bind_eq_ok.mp h
  split at h
  · cases h
  obtain ⟨⟨⟩, -, h⟩ := bind_eq_ok.mp h
  cases h
  exact ⟨current, _, enrolledOnDisk_ok hcurrent, hunrevoked, hunrevoked, rfl,
    checkChain_ok hchain rfl, rfl⟩

theorem storeChain_cases {update : ChainUpdate} {r : Except ErrorBody Status}
    (h : storeChain outside config b update now io = (t, r)) :
    (t = b ∧ r.isOk = false) ∨
      ∃ enrolled subordinate, renewed outside config b update now io =
        .ok (enrolled, subordinate) ∧ Stored b enrolled t ∧ r.isOk = true := by
  unfold storeChain at h
  split at h
  next =>
    cases h
    exact Or.inl ⟨rfl, rfl⟩
  next hrenewed =>
    split at h
    next =>
      cases h
      exact Or.inl ⟨rfl, rfl⟩
    next hstore =>
      cases h
      rw [store_ok hstore]
      exact Or.inr ⟨_, _, hrenewed, refreshed_refreshAcme _ io, rfl⟩

theorem storeRevocation_cases {r : Except ErrorBody Status}
    (h : storeRevocation outside config b io = (t, r)) :
    (t = b ∧ (r.isOk = true → ∃ current, b.enrolment = some current ∧
      current.revoked = true)) ∨
      ∃ current, b.enrolment = some current ∧ Stored b { current with revoked := true } t := by
  unfold storeRevocation at h
  split at h
  next =>
    cases h
    refine Or.inl ⟨rfl, ?_⟩
    intro hok
    cases hok
  next current hcurrent =>
    have hdisk := enrolledOnDisk_ok hcurrent
    split at h
    next hrevoked =>
      cases h
      exact Or.inl ⟨rfl, fun _ => ⟨current, hdisk, hrevoked⟩⟩
    next =>
      dsimp only at h
      split at h
      next =>
        cases h
        refine Or.inl ⟨rfl, ?_⟩
        intro hok
        cases hok
      next hstore =>
        cases h
        rw [store_ok hstore]
        exact Or.inr ⟨current, hdisk, refreshed_refreshAcme _ io⟩

theorem storePause_cases {paused : Bool} {r : Except ErrorBody Status}
    (h : storePause outside config b paused io = (t, r)) :
    (t = b ∧ (r.isOk = true → ∃ current, b.enrolment = some current ∧
      current.revoked = false ∧ current.paused = paused)) ∨
      ∃ current : Broker.Enrolled, b.enrolment = some current ∧ current.revoked = false ∧
        Stored b { current with paused } t ∧ r = status outside t { current with paused } := by
  unfold storePause at h
  split at h
  next =>
    cases h
    refine Or.inl ⟨rfl, ?_⟩
    intro hok
    cases hok
  next current hcurrent =>
    have hdisk := enrolledOnDisk_ok hcurrent
    split at h
    next =>
      cases h
      refine Or.inl ⟨rfl, ?_⟩
      intro hok
      cases hok
    next hrevoked =>
      have hunrevoked := refuseIfRevoked_ok hrevoked
      split at h
      next hsame =>
        cases h
        exact Or.inl ⟨rfl, fun _ => ⟨current, hdisk, hunrevoked, hsame⟩⟩
      next =>
        dsimp only at h
        split at h
        next =>
          cases h
          refine Or.inl ⟨rfl, ?_⟩
          intro hok
          cases hok
        next hstore =>
          cases h
          rw [store_ok hstore]
          exact Or.inr ⟨current, hdisk, hunrevoked, refreshed_refreshAcme _ io, rfl⟩

/-- An enrolment whose chain begins with a certificate has a status. -/
theorem status_isOk (h : (subordinateOf outside enrolled).isSome = true) :
    (status outside b enrolled).isOk = true := by
  obtain ⟨subordinate, hsubordinate⟩ := Option.isSome_iff_exists.mp h
  unfold subordinateOf at hsubordinate
  unfold status
  cases hchain : outside.certificates enrolled.chainPem with
  | error e =>
    rw [hchain] at hsubordinate
    cases hsubordinate
  | ok chain =>
    rw [hchain] at hsubordinate
    cases chain with
    | nil => cases hsubordinate
    | cons first rest =>
      simp only [Except.toOption, List.head?_cons, Option.bind_eq_bind, Option.bind_some]
        at hsubordinate
      cases hinspect : outside.inspect first with
      | error e =>
        rw [hinspect] at hsubordinate
        cases hsubordinate
      | ok found =>
        have hstatus : (do
            let chain ← (Except.ok (first :: rest) : Except String (List String)).mapError internal
            let first ← chain.head?.elim (.error (internal "the stored chain is empty")) .ok
            let subordinate ← (outside.inspect first).mapError internal
            Except.ok (statusFrom b subordinate enrolled)) =
            .ok (statusFrom b found enrolled) := by
          refine bind_eq_ok.mpr ⟨first :: rest, rfl, bind_eq_ok.mpr ⟨first, rfl, ?_⟩⟩
          exact bind_eq_ok.mpr ⟨found, by rw [hinspect]; rfl, rfl⟩
        rw [hstatus]
        rfl

theorem loaded_ok {mode : Mode} (h : loaded outside config b io = .ok mode) :
    mode = Mode.of b.enrolment := by
  obtain ⟨⟨⟩, -, h⟩ := bind_eq_ok.mp h
  obtain ⟨read, hload, h⟩ := bind_eq_ok.mp h
  obtain ⟨⟨⟩, -, h⟩ := bind_eq_ok.mp h
  cases h
  exact load_ok hload

/-- A reload takes up what is on disk, or leaves the broker as it was. -/
theorem reloadLocked_cases {r : Except String Unit}
    (h : reloadLocked outside config b io = (t, r)) :
    t = b ∨ Refreshed { b with subordinate := b.keyFile, mode := Mode.of b.enrolment } t := by
  unfold reloadLocked at h
  split at h
  next =>
    cases h
    exact Or.inl rfl
  next hloaded =>
    cases h
    rw [loaded_ok hloaded]
    exact Or.inr (refreshed_refreshAcme _ io)

theorem start_ok {opened : Except String Unit} (h : start outside config b io opened = .ok t) :
    t = { b with
      acme := ⟨b.acme.store, [], [], [], b.acme.accepted⟩
      subordinate := b.keyFile
      mode := Mode.of b.enrolment
      paused := false
      issuer := none
      serving := false } := by
  obtain ⟨mode, hloaded, h⟩ := bind_eq_ok.mp h
  obtain ⟨⟨⟩, -, h⟩ := bind_eq_ok.mp h
  cases h
  rw [loaded_ok hloaded]

end Operations

/-! ## A small outside -/

/-- Each character of a chain is a certificate: `r` the root, and any other one of its
subordinates for one key. -/
def plainOutside : Outside where
  certificates chain := .ok (chain.toList.map fun c => String.ofList [c])
  encode certificate := certificate
  inspect certificate := .ok {
    serial := certificate
    subject := if certificate = "r" then "root" else "broker"
    issuer := "root"
    spki := if certificate = "r" then "root key" else "key"
    ca := true
    selfSigned := certificate = "r"
    notAfter := 1000 * day
    permittedDns := ["example.com"] }
  parsePin pin :=
    if pin.utf8ByteSize = 64 ∧ pin.toList.all Char.isAlphanum then .ok pin
    else .error "not a SHA-256"
  parseCode := some
  clientAuth _ _ := .ok ()
  authority certificate key :=
    if certificate ≠ "r" ∧ key = "key" then .ok () else .error "another key"

def plainConfig : Config := ⟨"acme.example.com", [], "api pin", "http://acme.example.com"⟩

def operatorPin : String := String.ofList (List.replicate 64 'a')

/-- A broker enrolled with the chain `ar`. -/
def plainEnrolled : Broker.Enrolled where
  chainPem := "ar"
  operatorPin := operatorPin
  config := ⟨["example.com"], [.dns01], 30, 90⟩
  apiPin := "api pin"
  revoked := false
  paused := false
  issuers := some ["10"]

end Broker

end Opca.Acme

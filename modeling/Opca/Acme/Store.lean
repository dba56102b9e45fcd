/-
  Acme/Store.lean --- `acme.db`: the broker's tables and the transactions over
  them (`acme/store.rs`, `migrations/*.sql`).

  A transaction takes the store it begins on and gives the store it commits, or
  the error that rolls it back.
-/
import Opca.Acme.Records
import Opca.Foundation.Fallible
import Opca.Foundation.Table
import Mathlib.Data.List.Sort

set_option autoImplicit false

namespace Opca.Acme

open Opca.Foundation Lifecycle

inductive StoreError where
  | db (message : String)
  | random (message : String)
  | notFound (table key : String)
  | transition (table fromStatus toStatus : String)
  | alreadyRevoked (serial : String)
  | keyInUse (account : Int)
  | unrestorable (why : String)
  deriving DecidableEq, Repr

/-- As it is shown. -/
def StoreError.text : StoreError → String
  | .db message => message
  | .random message => s!"minting a token: {message}"
  | .notFound table key => s!"{table} has no row {key}"
  | .transition table fromStatus toStatus => s!"{table}: {fromStatus} cannot become {toStatus}"
  | .alreadyRevoked serial => s!"certificate {serial} is already revoked"
  | .keyInUse account => s!"account {account} holds that key"
  | .unrestorable why => why

def uniqueFailed : StoreError := .db "UNIQUE constraint failed"
def foreignKeyFailed : StoreError := .db "FOREIGN KEY constraint failed"

/-- `i64::MAX`: what an integer column reads back as fits below. -/
def i64Max : Int := 9223372036854775807

/-! ## The tables -/

/-- The UNIQUE columns of `certificates`. -/
structure UniqueCertificates (rows : List Certificate) : Prop where
  ids : (rows.map Certificate.id).Nodup
  serials : (rows.map Certificate.serial).Nodup
  orders : (rows.map Certificate.order).Nodup
  changes : (rows.map Certificate.changed).Nodup

instance (rows : List Certificate) : Decidable (UniqueCertificates rows) :=
  decidable_of_iff
    ((rows.map Certificate.id).Nodup ∧ (rows.map Certificate.serial).Nodup ∧
      (rows.map Certificate.order).Nodup ∧ (rows.map Certificate.changed).Nodup)
    ⟨fun ⟨ids, serials, orders, changes⟩ => ⟨ids, serials, orders, changes⟩,
      fun h => ⟨h.ids, h.serials, h.orders, h.changes⟩⟩

theorem uniqueCertificates_singleton (c : Certificate) : UniqueCertificates [c] :=
  ⟨List.nodup_singleton _, List.nodup_singleton _, List.nodup_singleton _,
    List.nodup_singleton _⟩

/-- The rows of `certificates`, which its UNIQUE constraints hold to. -/
structure Certificates where
  rows : List Certificate
  unique : UniqueCertificates rows

/-- The rows a statement leaves, if they meet the constraints. -/
def Certificates.check (rows : List Certificate) : Except StoreError Certificates :=
  if h : UniqueCertificates rows then .ok ⟨rows, h⟩ else .error uniqueFailed

theorem Certificates.check_ok {rows : List Certificate} {checked : Certificates}
    (h : Certificates.check rows = .ok checked) : checked.rows = rows := by
  unfold Certificates.check at h
  split at h
  · cases h
    rfl
  · cases h

/-- A key for external account binding. -/
structure EabKey where
  keyId : String
  hmacKey : List UInt8
  account : Option Int
  created : Time
  deriving DecidableEq, Repr

structure Store where
  accounts : Table Account Account.id
  orders : Table Order Order.id
  authorisations : Table Authorisation Authorisation.id
  challenges : Table Challenge Challenge.id
  certificates : Certificates
  eabKeys : List EabKey
  /-- `sqlite_sequence`: the largest id `certificates` ever had. -/
  sequence : Int
  /-- The number of the last CRL signed. -/
  crlNumber : Option Int

def Store.empty : Store where
  accounts := .empty
  orders := .empty
  authorisations := .empty
  challenges := .empty
  certificates := ⟨[], by decide⟩
  eabKeys := []
  sequence := 0
  crlNumber := none

/-! ## Moving a status -/

/-- A row with a status that moves, and the key it is found by. -/
class StatusRow (ρ : Type) (key : outParam (ρ → Int)) (σ : outParam Type) where
  status : ρ → σ
  withStatus : σ → ρ → ρ
  key_withStatus : ∀ s row, key (withStatus s row) = key row

instance : StatusRow Account Account.id AccountStatus where
  status := Account.status
  withStatus status row := { row with status }
  key_withStatus _ _ := rfl

instance : StatusRow Order Order.id OrderStatus where
  status := Order.status
  withStatus status row := { row with status }
  key_withStatus _ _ := rfl

instance : StatusRow Authorisation Authorisation.id AuthorisationStatus where
  status := Authorisation.status
  withStatus status row := { row with status }
  key_withStatus _ _ := rfl

instance : StatusRow Challenge Challenge.id ChallengeStatus where
  status := Challenge.status
  withStatus status row := { row with status }
  key_withStatus _ _ := rfl

section Transition

variable {ρ σ : Type} {key : ρ → Int} [Lifecycle σ] [StatusRow ρ key σ]

def readStatus (t : Table ρ key) (id : Int) : Except StoreError σ :=
  match t.get? id with
  | none => .error (.notFound (table σ) (toString id))
  | some row => .ok (StatusRow.status row)

/-- Moves the row's status, where its lifecycle allows that. -/
def transition (t : Table ρ key) (id : Int) (next : σ) : Except StoreError (Table ρ key) := do
  let before ← readStatus t id
  if mayBecome before next then
    .ok (t.update (key · = id) (StatusRow.withStatus next) (StatusRow.key_withStatus next))
  else .error (.transition (table σ) (asStr before) (asStr next))

theorem readStatus_ok {t : Table ρ key} {id : Int} {status : σ}
    (h : readStatus t id = .ok status) :
    ∃ row ∈ t.rows, key row = id ∧ StatusRow.status row = status := by
  unfold readStatus at h
  cases hget : t.get? id with
  | none =>
    rw [hget] at h
    cases h
  | some row =>
    rw [hget] at h
    cases h
    obtain ⟨hmem, hkey⟩ := Table.get?_eq_some.mp hget
    exact ⟨row, hmem, hkey, rfl⟩

/-- What a transition that is allowed does: the one row's status moves along its
lifecycle. -/
theorem transition_ok {t t' : Table ρ key} {id : Int} {next : σ}
    (h : transition t id next = .ok t') :
    (∃ row ∈ t.rows, key row = id ∧ mayBecome (StatusRow.status row) next = true) ∧
      t' = t.update (key · = id) (StatusRow.withStatus next)
        (StatusRow.key_withStatus next) := by
  obtain ⟨before, hread, h⟩ := bind_eq_ok.mp h
  obtain ⟨row, hmem, hkey, hstatus⟩ := readStatus_ok hread
  split at h
  next hmay =>
    cases h
    exact ⟨⟨row, hmem, hkey, hstatus ▸ hmay⟩, rfl⟩
  next => cases h

end Transition

namespace Store

/-! ## Accounts -/

/-- The account for `thumbprint`, made with `jwk` and `contacts` when there is none;
and whether this call made it. -/
def createAccount (s : Store) (jwk thumbprint : String) (contacts : List String)
    (now : Time) : Store × Option Account × Bool :=
  match s.accounts.rows.find? (·.thumbprint = thumbprint) with
  | some account => (s, some account, false)
  | none =>
    let accounts := s.accounts.insert
      (fun id => ⟨id, jwk, thumbprint, .valid, contacts, now⟩) fun _ => rfl
    ({ s with accounts }, accounts.rows.find? (·.thumbprint = thumbprint), true)

def setContacts (s : Store) (id : Int) (contacts : List String) : Store :=
  { s with
    accounts := s.accounts.update (·.id = id) (fun row => { row with contacts }) fun _ => rfl }

/-- Gives account `id` the key `jwk`, unless another account holds it. -/
def changeKey (s : Store) (id : Int) (jwk thumbprint : String) : Except StoreError Store :=
  match (s.accounts.rows.find? (·.thumbprint = thumbprint)).filter (·.id ≠ id) with
  | some holder => .error (.keyInUse holder.id)
  | none => .ok { s with
      accounts := s.accounts.update (·.id = id) (fun row => { row with jwk, thumbprint })
        fun _ => rfl }

def setAccountStatus (s : Store) (id : Int) (next : AccountStatus) : Except StoreError Store := do
  let accounts ← transition s.accounts id next
  return { s with accounts }

/-! ## Orders -/

/-- `INSERT INTO challenges`, one for each kind, each with its own token. -/
def addChallenges (s : Store) (authorisation : Int) :
    List ChallengeType → List String → Except StoreError (Store × List String)
  | [], tokens => .ok (s, tokens)
  | _ :: _, [] => .error (.random "no random bytes")
  | kind :: kinds, token :: tokens =>
    if token ∈ s.challenges.rows.map Challenge.token then .error uniqueFailed
    else
      let challenges := s.challenges.insert
        (fun id => ⟨id, authorisation, kind, token, .pending, none, none⟩) fun _ => rfl
      addChallenges { s with challenges } authorisation kinds tokens

/-- `INSERT INTO authorisations`, each followed by its challenges. -/
def addAuthorisations (s : Store) (order : Int) :
    List NewAuthorisation → List String → Except StoreError (Store × List String)
  | [], tokens => .ok (s, tokens)
  | new :: news, tokens => do
    let id := nextKey Authorisation.id s.authorisations.rows
    let authorisations := s.authorisations.insert
      (fun id => ⟨id, order, new.identifier, new.wildcard, .pending, new.expires⟩)
      fun _ => rfl
    let (s, tokens) ← addChallenges { s with authorisations } id new.challenges tokens
    addAuthorisations s order news tokens

/-- A pending order, with its authorisations and their challenges, all pending.
`tokens` is what the random source gives. -/
def createOrder (s : Store) (new : NewOrder) (now : Time) (tokens : List String) :
    Except StoreError (Store × Int) := do
  if s.accounts.get? new.account = none then .error foreignKeyFailed
  else
    let id := nextKey Order.id s.orders.rows
    let orders := s.orders.insert
      (fun id => ⟨id, new.account, .pending, new.identifiers, new.notBefore, new.notAfter,
        new.expires, none, none, now⟩) fun _ => rfl
    let (s, _) ← addAuthorisations { s with orders } id new.authorisations tokens
    .ok (s, id)

/-- `FAIL_ORDERS`: an order cannot be ready once any of its authorisations has
failed or gone. -/
def orderFailed (s : Store) (order : Order) : Bool :=
  (order.status = .pending || order.status = .ready) &&
    s.authorisations.rows.any fun a =>
      a.order = order.id && !(a.status = .pending || a.status = .valid)

/-- A pending order none of whose authorisations is anything but valid. -/
def orderReady (s : Store) (order : Order) : Bool :=
  order.status = .pending &&
    !s.authorisations.rows.any fun a => a.order = order.id && a.status ≠ .valid

def setOrdersWhere (s : Store) (p : Order → Bool) (status : OrderStatus) : Store :=
  { s with orders := s.orders.update p (fun order => { order with status }) fun _ => rfl }

/-- Settles the order of an authorisation: invalid once one of its authorisations
has failed, ready once every one of them is valid. -/
def settleOrderOf (s : Store) (authorisation : Int) : Except StoreError Store :=
  match s.authorisations.get? authorisation with
  | none => .error (.db "no rows returned")
  | some a =>
    let s := s.setOrdersWhere (fun order => s.orderFailed order && order.id = a.order) .invalid
    .ok (s.setOrdersWhere (fun order => order.id = a.order && s.orderReady order) .ready)

/-- Also settles the order. -/
def setAuthorisationStatus (s : Store) (id : Int) (next : AuthorisationStatus) :
    Except StoreError Store := do
  let authorisations ← transition s.authorisations id next
  settleOrderOf { s with authorisations } id

/-- A valid or invalid challenge decides its pending authorisation, and so perhaps
the order. -/
def setChallengeStatus (s : Store) (id : Int) (next : ChallengeStatus)
    (error : Option Problem) (now : Time) : Except StoreError Store := do
  let challenges ← transition s.challenges id next
  let challenges := challenges.update (·.id = id) (fun c => { c with error }) fun _ => rfl
  let s := { s with challenges }
  match next with
  | .pending | .processing => .ok s
  | .valid => settle s .valid
  | .invalid => settle s .invalid
where
  /-- Decides the challenge's authorisation. -/
  settle (s : Store) (decided : AuthorisationStatus) : Except StoreError Store :=
    match s.challenges.get? id with
    | none => .error (.db "no rows returned")
    | some challenge =>
      let challenges := s.challenges.update (·.id = id)
        (fun c => { c with validated := if c.status = .valid then some now else none })
        fun _ => rfl
      let authorisations := s.authorisations.update
        (fun a => a.id = challenge.authorisation && a.status = .pending)
        (fun a => { a with status := decided }) fun _ => rfl
      settleOrderOf { s with challenges, authorisations } challenge.authorisation

/-- What `expire_stale` moved. -/
structure Expired where
  orders : Nat
  authorisations : Nat
  deriving DecidableEq, Repr

/-- Pending or ready orders and pending or valid authorisations whose time is up
at `now`. -/
def expireStale (s : Store) (now : Time) : Store × Expired :=
  let late (a : Authorisation) : Bool :=
    (a.status = .pending || a.status = .valid) && a.expires ≤ now
  let lapsed (order : Order) : Bool :=
    (order.status = .pending || order.status = .ready) && order.expires ≤ now
  let authorisations := s.authorisations.rows.countP late
  let moved := s.authorisations.update late
    (fun a => { a with status := .expired }) fun _ => rfl
  let s := { s with authorisations := moved }
  let expired := s.orders.rows.countP lapsed
  let s := s.setOrdersWhere lapsed .invalid
  let failed := s.orders.rows.countP s.orderFailed
  (s.setOrdersWhere (s.orderFailed ·) .invalid, ⟨expired + failed, authorisations⟩)

/-- The challenges being validated, as a restart left them. -/
def processing (s : Store) : List Validation :=
  (s.challenges.rows.filter (·.status = .processing)).filterMap fun c => do
    let a ← s.authorisations.get? c.authorisation
    let order ← s.orders.get? a.order
    let account ← s.accounts.get? order.account
    some ⟨c.id, c.kind, a.identifier, c.token ++ "." ++ account.thumbprint⟩

/-! ## Certificates -/

/-- `NEXT_CHANGE`: above every change taken. -/
def nextChange (s : Store) : Int := nextKey Certificate.changed s.certificates.rows

/-- A ready order is processing while its certificate is recorded. -/
def beginProcessing (orders : Table Order Order.id) (id : Int) :
    Except StoreError (Table Order Order.id) := do
  let status ← readStatus orders id
  if status = .ready then transition orders id .processing else .ok orders

/-- The row an issued certificate of `order` is kept as. -/
def certificateRow (s : Store) (order : Order) (issued : NewCertificate) (now : Time) :
    Certificate where
  id := max s.sequence (columnMaxOr0 Certificate.id s.certificates.rows) + 1
  serial := issued.serial
  account := order.account
  order := order.id
  commonName := issued.commonName
  sans := issued.sans
  notBefore := issued.notBefore
  notAfter := issued.notAfter
  chainPem := issued.chainPem
  issuerSerial := issued.issuerSerial
  revokedAt := none
  revocationReason := none
  created := now
  changed := s.nextChange

/-- Records `issued` for a ready or processing order, which becomes valid and
names it. -/
def recordCertificate (s : Store) (orderId : Int) (issued : NewCertificate) (now : Time) :
    Except StoreError (Store × Certificate) := do
  let orders ← beginProcessing s.orders orderId
  let orders ← transition orders orderId .valid
  let order ← (orders.get? orderId).elim (.error (.db "no rows returned")) .ok
  let recorded := s.certificateRow order issued now
  let certificates ← Certificates.check (s.certificates.rows ++ [recorded])
  let orders := orders.update (·.id = orderId)
    (fun order => { order with certificate := some recorded.id }) fun _ => rfl
  -- a change past the last integer is kept as a real, which does not read back
  if i64Max < recorded.changed then .error (.db "certificates.changed is no integer")
  else .ok ({ s with orders, certificates, sequence := recorded.id }, recorded)

/-- Marks the certificate with `serial` revoked now, for `reason`. -/
def revoke (s : Store) (serial : String) (reason : Option Nat) (now : Time) :
    Except StoreError (Store × Certificate) :=
  match s.certificates.rows.find? (·.serial = serial) with
  | none => .error (.notFound "certificates" serial)
  | some found =>
    if found.revokedAt.isSome then .error (.alreadyRevoked serial)
    else if reason.any fun code => 10 < code || code = 7 then
      .error (.db "CHECK constraint failed")
    else do
      let revoked : Certificate := { found with
        revokedAt := some now, revocationReason := reason, changed := s.nextChange }
      let certificates ← Certificates.check (updateWhere
        (fun c => c.serial = serial && c.revokedAt.isNone)
        (fun c => { c with
          revokedAt := some now, revocationReason := reason, changed := s.nextChange })
        s.certificates.rows)
      if i64Max < revoked.changed then .error (.db "certificates.changed is no integer")
      else .ok ({ s with certificates }, revoked)

/-- Whether a subordinate among `issuers` issued it; `none` stands for all. -/
def issuedBy (issuers : Option (List String)) (c : Certificate) : Bool :=
  issuers.elim true (c.issuerSerial ∈ ·)

/-- The revoked certificates that `issuers` issued and that are still unexpired
at `now`. -/
def revokedUnexpired (s : Store) (issuers : Option (List String)) (now : Time) :
    List Certificate :=
  s.certificates.rows.filter fun c =>
    c.revokedAt.isSome && now < c.notAfter && issuedBy issuers c

/-- Takes the next CRL number: one past the last taken, from 1. -/
def nextCrlNumber (s : Store) : Except StoreError (Store × Int) :=
  let number := s.crlNumber.elim 1 (· + 1)
  if i64Max < number then .error (.db "crl_number.number is no integer")
  else .ok ({ s with crlNumber := some number }, number)

/-- What `changed_after` found: the certificates, and whether more wait past
them. -/
structure Changes where
  certificates : List Certificate
  more : Bool
  deriving DecidableEq, Repr

/-- `query` with its limit: one more row is read than is given back. -/
def page (rows : List Certificate) (limit : Nat) : Changes :=
  let certificates := rows.take (limit + 1)
  ⟨certificates.take limit, limit < certificates.length⟩

/-- Up to `limit` certificates issued or revoked after change `cursor`, oldest
change first; 0 starts at the beginning. -/
def changedAfter (s : Store) (cursor : Int) (issuers : Option (List String)) (limit : Nat) :
    Changes :=
  page ((s.certificates.rows.filter fun c => cursor < c.changed && issuedBy issuers c)
    |>.insertionSort (·.changed ≤ ·.changed)) limit

end Store

end Opca.Acme

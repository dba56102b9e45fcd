/-
  Acme/Requests.lean --- a request's flattened JWS checked as RFC 8555 §6 has it: its url,
  its nonce, the key or account it names, and its signature (`acme/request.rs`), over a
  store whose accounts other requests change meanwhile.

  Reading a JWS, checking its signature, and reading and writing a key are parameters.
-/
import Opca.Acme.Store
import Opca.Foundation.Machine
import Opca.Foundation.Text
import Mathlib.Data.Finset.Basic
import Mathlib.Data.List.DropRight

set_option autoImplicit false

namespace Opca.Acme

open Opca.Foundation

/-! ## What the JOSE crate does -/

inductive JoseErrorKind where
  | badSignatureAlgorithm | badPublicKey | serverConfiguration | other
  deriving DecidableEq, Repr

structure JoseError where
  kind : JoseErrorKind
  text : String
  deriving DecidableEq, Repr

inductive KeyRef (Key : Type) where
  | jwk (key : Key)
  | kid (kid : String)

structure ProtectedHeader (Key : Type) where
  url : String
  nonce : Option String
  key : KeyRef Key

structure Jose (Jws Key : Type) where
  parse : List UInt8 → Except JoseError Jws
  header : Jws → ProtectedHeader Key
  verify : Jws → Key → Except JoseError Unit
  fromJson : String → Except String Key
  toCanonicalJson : Key → String
  thumbprint : Key → String

/-- A key that is written reads back. -/
def Jose.Reads {Jws Key : Type} (jose : Jose Jws Key) : Prop :=
  ∀ key, jose.fromJson (jose.toCanonicalJson key) = .ok key

/-! ## Nonces -/

/-- Replay nonces: each redeemable once, the oldest forgotten past a capacity. -/
structure Nonces where
  live : Finset String
  issued : List String

namespace Nonces

/-- The oldest are forgotten until there is room for one more. -/
def evict (capacity : Nat) : List String → Finset String → Nonces
  | [], live => ⟨live, []⟩
  | oldest :: issued, live =>
    if capacity ≤ (oldest :: issued).length then evict capacity issued (live.erase oldest)
    else ⟨live, oldest :: issued⟩

def issue (capacity : Nat) (nonces : Nonces) (nonce : String) : Nonces :=
  let kept := evict capacity nonces.issued nonces.live
  ⟨insert nonce kept.live, kept.issued ++ [nonce]⟩

/-- Whether `nonce` was issued and not yet redeemed or forgotten; it can't be redeemed
again. -/
def redeem (nonces : Nonces) (nonce : String) : Bool × Nonces :=
  (nonce ∈ nonces.live, { nonces with live := nonces.live.erase nonce })

end Nonces

/-! ## Checking a request -/

/-- How a request must name its key. -/
inductive KeyRule where
  | jwk | kid | either
  deriving DecidableEq, Repr

inductive Signer (Key : Type) where
  | account (account : Account) (key : Key)
  | key (key : Key)

def Signer.signingKey {Key : Type} : Signer Key → Key
  | .account _ jwk => jwk
  | .key jwk => jwk

/-- A request whose url, nonce and key were read, before its signature is checked. -/
structure Flight (Jws Key : Type) where
  jws : Jws
  url : String
  accountsUrl : String
  nonce : String
  signer : Signer Key

/-- RFC 8555 has no badSignature type; a signature that fails is a malformed request. -/
def refused (e : JoseError) : Problem :=
  match e.kind with
  | .badSignatureAlgorithm => ⟨.badSignatureAlgorithm, e.text⟩
  | .badPublicKey => ⟨.badPublicKey, e.text⟩
  | .serverConfiguration => ⟨.serverInternal, e.text⟩
  | .other => ⟨.malformed, e.text⟩

def accountUrl (accountsUrl : String) (id : Int) : String := accountsUrl ++ toString id

/-- The id of the account that `kid` names. -/
def kidAccount (accountsUrl kid : String) : Option Int :=
  ((stripPrefix accountsUrl kid).bind (parseSigned 64)).filter (accountUrl accountsUrl · = kid)

section Checks

variable {Jws Key : Type} (jose : Jose Jws Key)

/-- The account that `kid` names, with its key. -/
def signerOf (store : Store) (accountsUrl kid : String) : Except Problem (Signer Key) :=
  match (kidAccount accountsUrl kid).bind store.accounts.get? with
  | none => .error ⟨.accountDoesNotExist, s!"{kid.quote} is no account"⟩
  | some account =>
    if account.status ≠ .valid then
      .error ⟨.unauthorized, s!"the account is {Lifecycle.asStr account.status}"⟩
    else
      match jose.fromJson account.jwk with
      | .error e => .error ⟨.serverInternal, e⟩
      | .ok key => .ok (.account account key)

/-- A request as far as the store is read for it. -/
def openRequest (store : Store) (body : List UInt8) (url : String) (rule : KeyRule)
    (accountsUrl : String) : Except Problem (Flight Jws Key) := do
  let jws ← (jose.parse body).mapError refused
  let header := jose.header jws
  if header.url ≠ url then
    .error ⟨.unauthorized, s!"the JWS is for {header.url.quote}, not {url.quote}"⟩
  match header.nonce with
  | none => .error ⟨.badNonce, "the JWS has no nonce"⟩
  | some nonce =>
    match header.key, rule with
    | .jwk key, .jwk | .jwk key, .either => .ok ⟨jws, url, accountsUrl, nonce, .key key⟩
    | .kid kid, .kid | .kid kid, .either =>
      (signerOf jose store accountsUrl kid).map (⟨jws, url, accountsUrl, nonce, ·⟩)
    | .jwk _, .kid => .error ⟨.malformed, "the JWS must name its account by kid"⟩
    | .kid _, .jwk => .error ⟨.malformed, "the JWS must carry its key as jwk"⟩

/-- The signature, then the nonce, which a request that is refused before does not use. -/
def closeRequest (nonces : Nonces) (flight : Flight Jws Key) : Except Problem Unit × Nonces :=
  match jose.verify flight.jws flight.signer.signingKey with
  | .error e => (.error (refused e), nonces)
  | .ok () =>
    match nonces.redeem flight.nonce with
    | (true, nonces) => (.ok (), nonces)
    | (false, nonces) =>
      (.error ⟨.badNonce, "JWS has an invalid anti-replay nonce: it is unknown or used"⟩, nonces)

end Checks

/-! ## Requests in flight -/

structure ServerRequests (Jws Key : Type) where
  store : Store
  nonces : Nonces
  /-- Each request that was looked up, with the store there was then; no one keeps that
  store. -/
  flights : Nat → Option (Store × Flight Jws Key)
  /-- Every nonce issued, in order; no one keeps this. -/
  issued : List String
  /-- The requests accepted, in order; no one keeps this. -/
  accepted : List (Flight Jws Key)

inductive RequestStep (Key : Type) where
  | issueNonce (nonce : String)
  | look (request : Nat) (body : List UInt8) (url : String) (rule : KeyRule)
      (accountsUrl : String)
  | finish (request : Nat)
  | createAccount (key : Key) (contacts : List String) (now : Time)
  | changeKey (id : Int) (key : Key)
  | setContacts (id : Int) (contacts : List String)
  | setAccountStatus (id : Int) (next : AccountStatus)

section Machine

variable {Jws Key : Type} (jose : Jose Jws Key) (capacity : Nat)

/-- Every account's key is one that was written, under its thumbprint, and is no other's. -/
structure KeyedAccounts (jose : Jose Jws Key) (store : Store) : Prop where
  written : ∀ account ∈ store.accounts.rows, ∃ key,
    account.jwk = jose.toCanonicalJson key ∧ account.thumbprint = jose.thumbprint key
  thumbprints : (store.accounts.rows.map Account.thumbprint).Nodup

def ServerRequests.commit (s : ServerRequests Jws Key) :
    Except StoreError Store → ServerRequests Jws Key
  | .ok store => { s with store }
  | .error _ => s

def requestMachine : Machine (ServerRequests Jws Key) (RequestStep Key) where
  init s := KeyedAccounts jose s.store ∧ s.nonces = ⟨∅, []⟩ ∧ s.issued = [] ∧ s.accepted = [] ∧
    ∀ request, s.flights request = none
  next s
    | .issueNonce nonce => some { s with
        nonces := s.nonces.issue capacity nonce
        issued := s.issued ++ [nonce] }
    | .look request body url rule accountsUrl =>
      match openRequest jose s.store body url rule accountsUrl with
      | .error _ => some s
      | .ok flight =>
        some { s with flights := Function.update s.flights request (some (s.store, flight)) }
    | .finish request =>
      (s.flights request).map fun (_, flight) =>
        let flights := Function.update s.flights request none
        match closeRequest jose s.nonces flight with
        | (.ok _, nonces) => { s with nonces, flights, accepted := s.accepted ++ [flight] }
        | (.error _, nonces) => { s with nonces, flights }
    | .createAccount key contacts now => some { s with
        store := (s.store.createAccount (jose.toCanonicalJson key) (jose.thumbprint key)
          contacts now).1 }
    | .changeKey id key =>
      some (s.commit (s.store.changeKey id (jose.toCanonicalJson key) (jose.thumbprint key)))
    | .setContacts id contacts => some { s with store := s.store.setContacts id contacts }
    | .setAccountStatus id next => some (s.commit (s.store.setAccountStatus id next))

/-- Random nonces are distinct. -/
def Fresh (s : ServerRequests Jws Key) : RequestStep Key → Prop
  | .issueNonce nonce => nonce ∉ s.issued
  | _ => True

def requests : System (ServerRequests Jws Key) (RequestStep Key) :=
  (requestMachine jose capacity).system.restrict Fresh

end Machine

variable {Jws Key : Type} {jose : Jose Jws Key} {capacity : Nat}
  {s t : ServerRequests Jws Key}

/-! ## Nonces -/

namespace Nonces

theorem issued_evict (hcapacity : 0 < capacity) (issued : List String) (live : Finset String) :
    (evict capacity issued live).issued = issued.rtake (capacity - 1) := by
  induction issued generalizing live with
  | nil => exact (List.rtake_nil _).symm
  | cons oldest issued ih =>
    unfold evict
    split
    next hfull =>
      rw [ih]
      unfold List.rtake
      rw [List.length_cons] at hfull ⊢
      rw [show issued.length + 1 - (capacity - 1) = issued.length - (capacity - 1) + 1 by omega,
        List.drop_succ_cons]
    next hroom =>
      unfold List.rtake
      rw [show (oldest :: issued).length - (capacity - 1) = 0 by omega]
      rfl

theorem live_evict (issued : List String) (live : Finset String) :
    (evict capacity issued live).live ⊆ live ∧
      ∀ nonce ∈ (evict capacity issued live).live, nonce ∈ issued →
        nonce ∈ (evict capacity issued live).issued := by
  induction issued generalizing live with
  | nil => exact ⟨Finset.Subset.refl live, fun _ _ h => by cases h⟩
  | cons oldest issued ih =>
    unfold evict
    split
    · obtain ⟨hsubset, hlive⟩ := ih (live.erase oldest)
      refine ⟨hsubset.trans (Finset.erase_subset oldest live), fun nonce hnonce hmem => ?_⟩
      rcases List.mem_cons.mp hmem with rfl | hmem
      · exact absurd (hsubset hnonce) (Finset.notMem_erase nonce live)
      · exact hlive nonce hnonce hmem
    · exact ⟨Finset.Subset.refl live, fun _ _ hmem => hmem⟩

end Nonces

/-- What is live was issued among the last, and has not been accepted. -/
structure NoncesInv (capacity : Nat) (s : ServerRequests Jws Key) : Prop where
  last : s.nonces.issued = s.issued.rtake capacity
  live : ∀ nonce ∈ s.nonces.live, nonce ∈ s.nonces.issued
  unused : ∀ nonce ∈ s.nonces.live, nonce ∉ s.accepted.map Flight.nonce
  accepted : ∀ nonce ∈ s.accepted.map Flight.nonce, nonce ∈ s.issued
  once : (s.accepted.map Flight.nonce).Nodup

theorem mem_of_mem_rtake {α : Type} {n : Nat} {l : List α} {a : α} (h : a ∈ l.rtake n) :
    a ∈ l :=
  List.mem_of_mem_drop h

theorem rtake_rtake_append {α : Type} (hcapacity : 0 < capacity) (l : List α) (a : α) :
    (l.rtake capacity).rtake (capacity - 1) ++ [a] = (l ++ [a]).rtake capacity := by
  obtain ⟨n, rfl⟩ := Nat.exists_eq_succ_of_ne_zero hcapacity.ne'
  rw [List.rtake_concat_succ, Nat.succ_sub_one]
  simp [List.rtake_eq_reverse_take_reverse, List.take_take]

theorem noncesInv_issue {nonce : String} (h : NoncesInv capacity s) (hcapacity : 0 < capacity)
    (hfresh : nonce ∉ s.issued) :
    NoncesInv capacity { s with
      nonces := s.nonces.issue capacity nonce
      issued := s.issued ++ [nonce] } := by
  have hunissued : nonce ∉ s.accepted.map Flight.nonce := fun hmem => hfresh (h.accepted _ hmem)
  obtain ⟨hsubset, hlive⟩ := @Nonces.live_evict capacity s.nonces.issued s.nonces.live
  refine ⟨?_, ?_, ?_, ?_, h.once⟩
  · show (Nonces.evict capacity s.nonces.issued s.nonces.live).issued ++ [nonce] = _
    rw [Nonces.issued_evict hcapacity, h.last]
    exact rtake_rtake_append hcapacity s.issued nonce
  · intro other hother
    rcases Finset.mem_insert.mp hother with rfl | hother
    · exact List.mem_append_right _ (List.mem_singleton_self _)
    · exact List.mem_append_left _ (hlive other hother (h.live other (hsubset hother)))
  · intro other hother
    rcases Finset.mem_insert.mp hother with rfl | hother
    · exact hunissued
    · exact h.unused other (hsubset hother)
  · exact fun other hother => List.mem_append_left _ (h.accepted other hother)

/-- A request that is accepted had a live nonce, and a signature under its key. -/
theorem closeRequest_ok {nonces nonces' : Nonces} {flight : Flight Jws Key}
    (h : closeRequest jose nonces flight = (.ok (), nonces')) :
    jose.verify flight.jws flight.signer.signingKey = .ok () ∧ flight.nonce ∈ nonces.live ∧
      nonces' = { nonces with live := nonces.live.erase flight.nonce } := by
  unfold closeRequest at h
  split at h
  · cases h
  next hverify =>
    unfold Nonces.redeem at h
    by_cases hmem : flight.nonce ∈ nonces.live
    · simp only [hmem, decide_true] at h
      cases h
      exact ⟨hverify, hmem, rfl⟩
    · simp only [hmem, decide_false] at h
      cases h

/-- One that is refused leaves the nonces. -/
theorem closeRequest_error {nonces nonces' : Nonces} {flight : Flight Jws Key} {e : Problem}
    (h : closeRequest jose nonces flight = (.error e, nonces')) : nonces' = nonces := by
  unfold closeRequest at h
  split at h
  · cases h
    rfl
  · unfold Nonces.redeem at h
    by_cases hmem : flight.nonce ∈ nonces.live
    · simp only [hmem, decide_true] at h
      cases h
    · simp only [hmem, decide_false] at h
      cases h
      rw [Finset.erase_eq_of_notMem hmem]

/-! ## Accounts -/

variable {store store' : Store}

theorem keyed_createAccount {key : Key} {contacts : List String} {now : Time}
    (h : KeyedAccounts jose store) :
    KeyedAccounts jose (store.createAccount (jose.toCanonicalJson key) (jose.thumbprint key)
      contacts now).1 := by
  unfold Store.createAccount
  split
  · exact h
  next hnone =>
    refine ⟨fun account haccount => ?_, ?_⟩
    · rcases List.mem_append.mp haccount with hold | hnew
      · exact h.written account hold
      · rw [List.mem_singleton.mp hnew]
        exact ⟨key, rfl, rfl⟩
    · rw [Table.rows_insert, List.map_append, List.nodup_append]
      refine ⟨h.thumbprints, List.nodup_singleton _, ?_⟩
      rintro _ hold _ hnew rfl
      obtain ⟨account, haccount, hthumbprint⟩ := List.mem_map.mp hold
      refine List.find?_eq_none.mp hnone account haccount (decide_eq_true ?_)
      exact hthumbprint.trans (List.mem_singleton.mp hnew)

/-- An update that leaves keys alone. -/
theorem keyed_update {p : Account → Bool} {f : Account → Account} {hf : ∀ row, (f row).id = row.id}
    (h : KeyedAccounts jose store)
    (hkeeps : ∀ row, (f row).jwk = row.jwk ∧ (f row).thumbprint = row.thumbprint) :
    KeyedAccounts jose { store with accounts := store.accounts.update p f hf } := by
  refine ⟨fun account haccount => ?_, ?_⟩
  · obtain ⟨row, hrow, rfl⟩ := mem_updateWhere.mp haccount
    split
    · rw [(hkeeps row).1, (hkeeps row).2]
      exact h.written row hrow
    · exact h.written row hrow
  · rw [Table.rows_update, map_updateWhere fun row => (hkeeps row).2]
    exact h.thumbprints

theorem of_changeKey_ok {id : Int} {jwk thumbprint : String}
    (h : store.changeKey id jwk thumbprint = .ok store') :
    (∀ account ∈ (store.accounts.rows.find? (·.thumbprint = thumbprint)), account.id = id) ∧
      store' = { store with
        accounts := store.accounts.update (·.id = id) (fun row => { row with jwk, thumbprint })
          fun _ => rfl } := by
  unfold Store.changeKey at h
  split at h
  · cases h
  next hnone =>
    cases h
    refine ⟨fun account haccount => ?_, rfl⟩
    rw [Option.mem_def.mp haccount] at hnone
    simpa [Option.filter] using hnone

/-- A change of key keeps keys apart, as no other account holds the new one. -/
theorem keyed_changeKey {id : Int} {key : Key} (h : KeyedAccounts jose store)
    (hchange : store.changeKey id (jose.toCanonicalJson key) (jose.thumbprint key) =
      .ok store') : KeyedAccounts jose store' := by
  obtain ⟨hholder, rfl⟩ := of_changeKey_ok hchange
  have hfound {account : Account} (haccount : account ∈ store.accounts.rows)
      (hsame : account.thumbprint = jose.thumbprint key) : account.id = id := by
    refine hholder account (Option.mem_def.mpr ?_)
    rw [← hsame]
    exact find?_key h.thumbprints haccount
  refine ⟨fun account haccount => ?_, ?_⟩
  · obtain ⟨row, hrow, rfl⟩ := mem_updateWhere.mp haccount
    split
    · exact ⟨key, rfl, rfl⟩
    · exact h.written row hrow
  · rw [Table.rows_update]
    unfold updateWhere
    rw [List.map_map]
    refine List.Nodup.map_on ?_ (List.Nodup.of_map _ store.accounts.keys_nodup)
    intro a ha b hb hsame
    simp only [Function.comp_apply, decide_eq_true_eq] at hsame
    by_cases hida : a.id = id
    · by_cases hidb : b.id = id
      · exact Table.eq_of_key ha hb (hida.trans hidb.symm)
      · rw [if_pos hida, if_neg hidb] at hsame
        exact absurd (hfound hb hsame.symm) hidb
    · by_cases hidb : b.id = id
      · rw [if_neg hida, if_pos hidb] at hsame
        exact absurd (hfound ha hsame) hida
      · rw [if_neg hida, if_neg hidb] at hsame
        exact List.inj_on_of_nodup_map h.thumbprints ha hb hsame

theorem of_setAccountStatus_ok {id : Int} {next : AccountStatus}
    (h : store.setAccountStatus id next = .ok store') :
    store' = { store with
      accounts := store.accounts.update (·.id = id) (fun row => { row with status := next })
        fun _ => rfl } := by
  obtain ⟨accounts, haccounts, h⟩ := bind_eq_ok.mp h
  cases h
  rw [(transition_ok haccounts).2]
  rfl

/-- Two accounts with the same key are one. -/
theorem KeyedAccounts.eq_of_jwk (hreads : jose.Reads) (h : KeyedAccounts jose store)
    {x y : Account} (hx : x ∈ store.accounts.rows) (hy : y ∈ store.accounts.rows)
    (hsame : x.jwk = y.jwk) : x = y := by
  obtain ⟨key, hjwk, hthumbprint⟩ := h.written x hx
  obtain ⟨key', hjwk', hthumbprint'⟩ := h.written y hy
  have hread : jose.fromJson (jose.toCanonicalJson key) =
      jose.fromJson (jose.toCanonicalJson key') := by
    rw [← hjwk, ← hjwk', hsame]
  rw [hreads, hreads] at hread
  cases hread
  exact List.inj_on_of_nodup_map h.thumbprints hx hy (hthumbprint.trans hthumbprint'.symm)

/-- What a step leaves of an account: its id and its date, and its key but for a change of
it. -/
def Keeps (step : RequestStep Key) (x y : Account) : Prop :=
  y.id = x.id ∧ y.created = x.created ∧ ((∀ key, step ≠ .changeKey x.id key) →
    y.jwk = x.jwk ∧ y.thumbprint = x.thumbprint)

theorem Keeps.refl (step : RequestStep Key) (x : Account) : Keeps step x x :=
  ⟨rfl, rfl, fun _ => ⟨rfl, rfl⟩⟩

theorem keeps_update {step : RequestStep Key} {rows : List Account} {p : Account → Bool}
    {f : Account → Account} {x : Account} (hx : x ∈ rows)
    (hkeeps : p x = true → Keeps step x (f x)) : ∃ y ∈ updateWhere p f rows, Keeps step x y := by
  cases hp : p x with
  | true => exact ⟨f x, mem_updateWhere_of hx hp, hkeeps hp⟩
  | false => exact ⟨x, mem_updateWhere_of_not hx hp, .refl step x⟩

/-! ## Steps -/

theorem of_look {request : Nat} {body : List UInt8} {url : String} {rule : KeyRule}
    {accountsUrl : String}
    (h : (requestMachine jose capacity).next s (.look request body url rule accountsUrl) =
      some t) :
    t = s ∨ ∃ flight, openRequest jose s.store body url rule accountsUrl = .ok flight ∧
      t = { s with flights := Function.update s.flights request (some (s.store, flight)) } := by
  unfold requestMachine at h
  simp only at h
  split at h
  · cases h
    exact .inl rfl
  next flight hopen =>
    cases h
    exact .inr ⟨flight, hopen, rfl⟩

theorem of_finish {request : Nat}
    (h : (requestMachine jose capacity).next s (.finish request) = some t) :
    ∃ looked flight, s.flights request = some (looked, flight) ∧
      ((∃ nonces, closeRequest jose s.nonces flight = (.ok (), nonces) ∧
        t = { s with
          nonces
          flights := Function.update s.flights request none
          accepted := s.accepted ++ [flight] }) ∨
      t = { s with flights := Function.update s.flights request none }) := by
  obtain ⟨⟨looked, flight⟩, hflight, rfl⟩ := Option.map_eq_some_iff.mp h
  refine ⟨looked, flight, hflight, ?_⟩
  dsimp only
  split
  next nonces hclose => exact .inl ⟨nonces, hclose, rfl⟩
  next e nonces hclose =>
    rw [closeRequest_error hclose]
    exact .inr rfl

theorem keyedAccounts_step {step : RequestStep Key} (h : KeyedAccounts jose s.store)
    (hnext : (requestMachine jose capacity).next s step = some t) :
    KeyedAccounts jose t.store := by
  cases step with
  | issueNonce nonce =>
    cases hnext
    exact h
  | look request body url rule accountsUrl =>
    obtain rfl | ⟨flight, -, rfl⟩ := of_look hnext <;> exact h
  | finish request =>
    obtain ⟨_, flight, -, ⟨nonces, -, rfl⟩ | rfl⟩ := of_finish hnext <;> exact h
  | createAccount key contacts now =>
    cases hnext
    exact keyed_createAccount h
  | changeKey id key =>
    cases hnext
    cases hchange : s.store.changeKey id (jose.toCanonicalJson key) (jose.thumbprint key) with
    | error e => exact h
    | ok store => exact keyed_changeKey h hchange
  | setContacts id contacts =>
    cases hnext
    exact keyed_update h fun _ => ⟨rfl, rfl⟩
  | setAccountStatus id next =>
    cases hnext
    cases hset : s.store.setAccountStatus id next with
    | error e => exact h
    | ok store =>
      obtain rfl := of_setAccountStatus_ok hset
      exact keyed_update h fun _ => ⟨rfl, rfl⟩

theorem accounts_step {step : RequestStep Key}
    (hnext : (requestMachine jose capacity).next s step = some t) {x : Account}
    (hx : x ∈ s.store.accounts.rows) : ∃ y ∈ t.store.accounts.rows, Keeps step x y := by
  cases step with
  | issueNonce nonce =>
    cases hnext
    exact ⟨x, hx, .refl _ x⟩
  | look request body url rule accountsUrl =>
    obtain rfl | ⟨flight, -, rfl⟩ := of_look hnext <;> exact ⟨x, hx, .refl _ x⟩
  | finish request =>
    obtain ⟨_, flight, -, ⟨nonces, -, rfl⟩ | rfl⟩ := of_finish hnext <;> exact ⟨x, hx, .refl _ x⟩
  | createAccount key contacts now =>
    cases hnext
    refine ⟨x, ?_, .refl _ x⟩
    unfold Store.createAccount
    split
    · exact hx
    · exact List.mem_append_left _ hx
  | changeKey id key =>
    cases hnext
    cases hchange : s.store.changeKey id (jose.toCanonicalJson key) (jose.thumbprint key) with
    | error e => exact ⟨x, hx, .refl _ x⟩
    | ok store =>
      obtain ⟨-, rfl⟩ := of_changeKey_ok hchange
      refine keeps_update hx fun hid => ⟨rfl, rfl, fun hother => ?_⟩
      exact absurd (by rw [of_decide_eq_true hid]) (hother key)
  | setContacts id contacts =>
    cases hnext
    exact keeps_update hx fun _ => ⟨rfl, rfl, fun _ => ⟨rfl, rfl⟩⟩
  | setAccountStatus id next =>
    cases hnext
    cases hset : s.store.setAccountStatus id next with
    | error e => exact ⟨x, hx, .refl _ x⟩
    | ok store =>
      obtain rfl := of_setAccountStatus_ok hset
      exact keeps_update hx fun _ => ⟨rfl, rfl, fun _ => ⟨rfl, rfl⟩⟩

theorem noncesInv_step {step : RequestStep Key} (h : NoncesInv capacity s)
    (hcapacity : 0 < capacity) (hfresh : Fresh s step)
    (hnext : (requestMachine jose capacity).next s step = some t) : NoncesInv capacity t := by
  cases step with
  | issueNonce nonce =>
    cases hnext
    exact noncesInv_issue h hcapacity hfresh
  | look request body url rule accountsUrl =>
    obtain rfl | ⟨flight, -, rfl⟩ := of_look hnext <;> exact ⟨h.1, h.2, h.3, h.4, h.5⟩
  | finish request =>
    obtain ⟨_, flight, -, ⟨nonces, hclose, rfl⟩ | rfl⟩ := of_finish hnext
    · obtain ⟨-, hlive, rfl⟩ := closeRequest_ok hclose
      have hissued : flight.nonce ∈ s.issued := by
        refine mem_of_mem_rtake (n := capacity) ?_
        rw [← h.last]
        exact h.live _ hlive
      have hunused := h.unused _ hlive
      refine ⟨h.last, fun nonce hnonce => h.live nonce (Finset.mem_of_mem_erase hnonce), ?_, ?_, ?_⟩
      · intro nonce hnonce
        rw [List.map_append, List.mem_append, not_or, List.map_singleton, List.mem_singleton]
        exact ⟨h.unused nonce (Finset.mem_of_mem_erase hnonce), Finset.ne_of_mem_erase hnonce⟩
      · intro nonce hnonce
        rw [List.map_append, List.mem_append, List.map_singleton, List.mem_singleton] at hnonce
        rcases hnonce with hold | rfl
        · exact h.accepted nonce hold
        · exact hissued
      · rw [List.map_append, List.nodup_append]
        refine ⟨h.once, List.nodup_singleton _, ?_⟩
        rintro _ hold _ hnew rfl
        exact hunused (List.mem_singleton.mp hnew ▸ hold)
    · exact ⟨h.1, h.2, h.3, h.4, h.5⟩
  | createAccount key contacts now =>
    cases hnext
    exact ⟨h.1, h.2, h.3, h.4, h.5⟩
  | changeKey id key =>
    cases hnext
    cases s.store.changeKey id (jose.toCanonicalJson key) (jose.thumbprint key) <;>
      exact ⟨h.1, h.2, h.3, h.4, h.5⟩
  | setContacts id contacts =>
    cases hnext
    exact ⟨h.1, h.2, h.3, h.4, h.5⟩
  | setAccountStatus id next =>
    cases hnext
    cases s.store.setAccountStatus id next <;> exact ⟨h.1, h.2, h.3, h.4, h.5⟩

theorem requests_noncesInv (hcapacity : 0 < capacity) :
    (requests jose capacity).Invariant (NoncesInv capacity) where
  init := by
    rintro s ⟨-, hnonces, hissued, haccepted, -⟩
    refine ⟨?_, ?_, ?_, ?_, ?_⟩
    · rw [hnonces, hissued]
      exact (List.rtake_nil _).symm
    · rw [hnonces]
      exact fun nonce hnonce => absurd hnonce (Finset.notMem_empty nonce)
    · rw [hnonces]
      exact fun nonce hnonce => absurd hnonce (Finset.notMem_empty nonce)
    · rw [haccepted]
      exact fun _ hmem => by cases hmem
    · rw [haccepted]
      exact List.nodup_nil
  step hinv hstep := noncesInv_step hinv hcapacity hstep.1 hstep.2

theorem requests_keyedAccounts :
    (requests jose capacity).Invariant fun s => KeyedAccounts jose s.store where
  init hinit := hinit.1
  step hinv hstep := keyedAccounts_step hinv hstep.2

/-! ## What a request was read as -/

/-- What is known of a request in flight, of the store that it was looked up in. -/
structure Looked (jose : Jose Jws Key) (store : Store) (flight : Flight Jws Key) : Prop where
  url : (jose.header flight.jws).url = flight.url
  nonce : (jose.header flight.jws).nonce = some flight.nonce
  kid : ∀ kid, (jose.header flight.jws).key = .kid kid → ∃ account key,
    flight.signer = .account account key ∧ kid = accountUrl flight.accountsUrl account.id ∧
      store.accounts.get? account.id = some account ∧ account.status = .valid ∧
      jose.fromJson account.jwk = .ok key
  jwk : ∀ key, (jose.header flight.jws).key = .jwk key → flight.signer = .key key

theorem signerOf_ok {accountsUrl kid : String} {signer : Signer Key}
    (h : signerOf jose store accountsUrl kid = .ok signer) : ∃ account key,
      signer = .account account key ∧ kid = accountUrl accountsUrl account.id ∧
        store.accounts.get? account.id = some account ∧ account.status = .valid ∧
        jose.fromJson account.jwk = .ok key := by
  unfold signerOf at h
  split at h
  · cases h
  next account hfound =>
    split at h
    · cases h
    next hvalid =>
      split at h
      · cases h
      next key hkey =>
        cases h
        obtain ⟨id, hid, hget⟩ := Option.bind_eq_some_iff.mp hfound
        obtain ⟨-, hnames⟩ := Option.filter_eq_some_iff.mp hid
        obtain rfl : account.id = id := (Table.get?_eq_some.mp hget).2
        exact ⟨account, key, rfl, (of_decide_eq_true hnames).symm, hget, not_not.mp hvalid, hkey⟩

theorem openRequest_ok {body : List UInt8} {url : String} {rule : KeyRule} {accountsUrl : String}
    {flight : Flight Jws Key} (h : openRequest jose store body url rule accountsUrl = .ok flight) :
    Looked jose store flight ∧ flight.url = url := by
  obtain ⟨jws, -, h⟩ := bind_eq_ok.mp h
  simp only at h
  split at h
  · cases h
  next hurl =>
    have hurl := not_not.mp hurl
    split at h
    · cases h
    next nonce hnonce =>
      have hjwk {key : Key} (hkey : (jose.header jws).key = .jwk key)
          (hflight : flight = ⟨jws, url, accountsUrl, nonce, .key key⟩) :
          Looked jose store flight ∧ flight.url = url := by
        subst hflight
        refine ⟨⟨hurl, hnonce, fun kid hkid => ?_, fun key' hkey' => ?_⟩, rfl⟩
        · exact absurd (hkey.symm.trans hkid) nofun
        · cases hkey.symm.trans hkey'
          rfl
      have hkid {kid : String} (hkey : (jose.header jws).key = .kid kid)
          (hmap : (signerOf jose store accountsUrl kid).map
            (⟨jws, url, accountsUrl, nonce, ·⟩) = .ok flight) :
          Looked jose store flight ∧ flight.url = url := by
        cases hsigner : signerOf jose store accountsUrl kid with
        | error e =>
          rw [hsigner] at hmap
          cases hmap
        | ok signer =>
          rw [hsigner] at hmap
          cases hmap
          refine ⟨⟨hurl, hnonce, fun kid' hkid' => ?_, fun key hkey' => ?_⟩, rfl⟩
          · cases hkey.symm.trans hkid'
            exact signerOf_ok hsigner
          · exact absurd (hkey.symm.trans hkey') nofun
      split at h
      next key hkey _ => exact hjwk hkey (Except.ok.inj h).symm
      next key hkey _ => exact hjwk hkey (Except.ok.inj h).symm
      next kid hkey _ => exact hkid hkey h
      next kid hkey _ => exact hkid hkey h
      · cases h
      · cases h

/-- What a step leaves in flight was there, or is looked up now. -/
theorem flights_step {step : RequestStep Key}
    (hnext : (requestMachine jose capacity).next s step = some t) {request : Nat}
    {looked : Store} {flight : Flight Jws Key} (hflight : t.flights request = some (looked, flight)) :
    s.flights request = some (looked, flight) ∨ looked = s.store ∧
      ∃ body url rule accountsUrl, step = .look request body url rule accountsUrl ∧
        openRequest jose s.store body url rule accountsUrl = .ok flight := by
  cases step with
  | look request' body url rule accountsUrl =>
    obtain rfl | ⟨opened, hopen, rfl⟩ := of_look hnext
    · exact .inl hflight
    · change Function.update s.flights request' (some (s.store, opened)) request = _ at hflight
      by_cases hsame : request = request'
      · subst hsame
        rw [Function.update_self] at hflight
        cases hflight
        exact .inr ⟨rfl, body, url, rule, accountsUrl, rfl, hopen⟩
      · rw [Function.update_of_ne hsame] at hflight
        exact .inl hflight
  | finish request' =>
    have hflights : t.flights = Function.update s.flights request' none := by
      obtain ⟨_, _, -, ⟨_, -, rfl⟩ | rfl⟩ := of_finish hnext <;> rfl
    rw [hflights] at hflight
    by_cases hsame : request = request'
    · subst hsame
      rw [Function.update_self] at hflight
      cases hflight
    · rw [Function.update_of_ne hsame] at hflight
      exact .inl hflight
  | issueNonce nonce =>
    cases hnext
    exact .inl hflight
  | createAccount key contacts now =>
    cases hnext
    exact .inl hflight
  | changeKey id key =>
    have hflights : t.flights = s.flights := by
      cases hnext
      cases s.store.changeKey id (jose.toCanonicalJson key) (jose.thumbprint key) <;> rfl
    exact .inl (hflights ▸ hflight)
  | setContacts id contacts =>
    cases hnext
    exact .inl hflight
  | setAccountStatus id next =>
    have hflights : t.flights = s.flights := by
      cases hnext
      cases s.store.setAccountStatus id next <;> rfl
    exact .inl (hflights ▸ hflight)

/-- Every request in flight was read from the store that it is noted with. -/
theorem requests_looked : (requests jose capacity).Invariant fun s =>
    ∀ request looked flight, s.flights request = some (looked, flight) →
      Looked jose looked flight where
  init := by
    rintro s ⟨-, -, -, -, hflights⟩ request looked flight hflight
    rw [hflights request] at hflight
    cases hflight
  step := by
    intro s t step hinv hstep request looked flight hflight
    rcases flights_step hstep.2 hflight with hold | ⟨rfl, _, _, _, _, _, hopen⟩
    · exact hinv request looked flight hold
    · exact (openRequest_ok hopen).1

/-! ## Acceptance -/

/-- What is known when a request is accepted that was looked up in a store. -/
structure Accepts (jose : Jose Jws Key) (capacity : Nat) (s : ServerRequests Jws Key)
    (looked : Store) (flight : Flight Jws Key) : Prop where
  last : flight.nonce ∈ s.issued.rtake capacity
  unused : flight.nonce ∉ s.accepted.map Flight.nonce
  signed : jose.verify flight.jws flight.signer.signingKey = .ok ()
  looked : Looked jose looked flight

theorem accepts_step {step : RequestStep Key} (hcapacity : 0 < capacity)
    (hs : (requests jose capacity).Reachable s)
    (hstep : (requests jose capacity).step s step t) :
    t.accepted = s.accepted ∨ ∃ request looked flight, step = .finish request ∧
      s.flights request = some (looked, flight) ∧ t.accepted = s.accepted ++ [flight] ∧
        Accepts jose capacity s looked flight := by
  have hinv := (requests_noncesInv hcapacity).reachable hs
  obtain ⟨-, hnext⟩ := hstep
  cases step with
  | finish request =>
    obtain ⟨looked, flight, hflight, ⟨nonces, hclose, rfl⟩ | rfl⟩ := of_finish hnext
    · obtain ⟨hsigned, hlive, -⟩ := closeRequest_ok hclose
      refine .inr ⟨request, looked, flight, rfl, hflight, rfl, ?_, hinv.unused _ hlive, hsigned,
        requests_looked.reachable hs request looked flight hflight⟩
      rw [← hinv.last]
      exact hinv.live _ hlive
    · exact .inl rfl
  | look request body url rule accountsUrl =>
    obtain rfl | ⟨opened, hopen, rfl⟩ := of_look hnext <;> exact .inl rfl
  | changeKey id key =>
    cases hnext
    cases s.store.changeKey id (jose.toCanonicalJson key) (jose.thumbprint key) <;> exact .inl rfl
  | setAccountStatus id next =>
    cases hnext
    cases s.store.setAccountStatus id next <;> exact .inl rfl
  | issueNonce nonce =>
    cases hnext
    exact .inl rfl
  | createAccount key contacts now =>
    cases hnext
    exact .inl rfl
  | setContacts id contacts =>
    cases hnext
    exact .inl rfl

/-- In every run: a nonce is accepted once, and only among the last issued; a request is
accepted for its own url, signed by the key that its account had, valid, when it was looked up,
and what is noted as looked up is the store there was when that request was;
no two accounts hold one key, an account keeps its id, and a change refused leaves every
account. -/
theorem requests_unforgeable (hreads : jose.Reads) (hcapacity : 0 < capacity)
    (hs : (requests jose capacity).Reachable s) :
    (s.accepted.map Flight.nonce).Nodup ∧
    (∀ step t, (requests jose capacity).step s step t → t.accepted = s.accepted ∨
      ∃ request looked flight, step = .finish request ∧
        s.flights request = some (looked, flight) ∧ t.accepted = s.accepted ++ [flight] ∧
          Accepts jose capacity s looked flight) ∧
    (∀ step t, (requests jose capacity).step s step t → ∀ request looked flight,
      t.flights request = some (looked, flight) →
        s.flights request = some (looked, flight) ∨ looked = s.store ∧
          ∃ body rule accountsUrl, step = .look request body flight.url rule accountsUrl) ∧
    (∀ x ∈ s.store.accounts.rows, ∀ y ∈ s.store.accounts.rows, x.jwk = y.jwk → x = y) ∧
    (∀ step t, (requests jose capacity).step s step t → ∀ x ∈ s.store.accounts.rows,
      ∃ y ∈ t.store.accounts.rows, Keeps step x y) ∧
    ∀ id key holder t, s.store.changeKey id (jose.toCanonicalJson key) (jose.thumbprint key) =
        .error (.keyInUse holder) →
      (requests jose capacity).step s (.changeKey id key) t → t.store = s.store := by
  refine ⟨((requests_noncesInv hcapacity).reachable hs).once,
    fun _ _ hstep => accepts_step hcapacity hs hstep, ?_,
    fun x hx y hy hsame => ?_, fun _ _ hstep x hx => accounts_step hstep.2 hx, ?_⟩
  · intro step t hstep request looked flight hflight
    refine (flights_step hstep.2 hflight).imp_right ?_
    rintro ⟨hlooked, body, url, rule, accountsUrl, rfl, hopen⟩
    rw [(openRequest_ok hopen).2]
    exact ⟨hlooked, body, rule, accountsUrl, rfl⟩
  · exact (requests_keyedAccounts.reachable hs).eq_of_jwk hreads hx hy hsame
  · intro id key holder t hchange hstep
    obtain ⟨-, hnext⟩ := hstep
    cases hnext
    rw [hchange]
    rfl

/-! ## A key that is changed meanwhile -/

structure SampledJws where
  header : ProtectedHeader String
  signedBy : String

/-- A key is its own JSON; a body is a request by `kid`, signed by the key `k1`. -/
def sampledJose : Jose SampledJws String where
  parse _ := .ok ⟨⟨"https://acme/new-order", some "n", .kid "https://acme/account/1"⟩, "k1"⟩
  header := SampledJws.header
  verify jws key :=
    if jws.signedBy = key then .ok () else .error ⟨.other, "the signature does not verify"⟩
  fromJson text := .ok text
  toCanonicalJson key := key
  thumbprint key := key

def noRequests : ServerRequests SampledJws String where
  store := .empty
  nonces := ⟨∅, []⟩
  flights _ := none
  issued := []
  accepted := []

theorem init_noRequests : (requests sampledJose 4096).init noRequests :=
  ⟨⟨nofun, List.nodup_nil⟩, rfl, rfl, rfl, fun _ => rfl⟩

/-- An account with the key `k1`, a nonce, and a request looked up. -/
theorem reachable_lookedUp : ∃ s, (requests sampledJose 4096).Reachable s ∧
    (requestMachine sampledJose 4096).exec
      [.createAccount "k1" [] 0, .issueNonce "n",
        .look 0 [] "https://acme/new-order" .kid "https://acme/account/"] noRequests = some s :=
  ⟨_, .step (.step (.step (.init init_noRequests)
      (l := .createAccount "k1" [] 0) ⟨trivial, rfl⟩)
      (l := .issueNonce "n") ⟨List.not_mem_nil, rfl⟩)
    (l := .look 0 [] "https://acme/new-order" .kid "https://acme/account/") ⟨trivial, rfl⟩, rfl⟩

/-- The key is changed once the request is looked up. -/
theorem reachable_changed : ∃ (s t : ServerRequests SampledJws String) (looked : Store)
    (flight : Flight SampledJws String),
    (requests sampledJose 4096).Reachable s ∧ (requests sampledJose 4096).step s (.finish 0) t ∧
      s.flights 0 = some (looked, flight) ∧ s.accepted = [] ∧ t.accepted ≠ [] ∧
      (looked.accounts.get? 1).map Account.jwk = some "k1" ∧
      (s.store.accounts.get? 1).map Account.jwk = some "k2" := by
  obtain ⟨s, hs, hexec⟩ := reachable_lookedUp
  cases hexec
  exact ⟨_, _, _, _, .step hs (l := .changeKey 1 "k2") ⟨trivial, rfl⟩, ⟨trivial, rfl⟩, rfl, rfl,
    nofun, rfl, rfl⟩

/-- It is accepted for the key there was at the look. -/
theorem requests_unforgeable_accepted : ∃ (s t : ServerRequests SampledJws String)
    (looked : Store) (flight : Flight SampledJws String),
    t.accepted = [flight] ∧ (t.accepted.map Flight.nonce).Nodup ∧
      Accepts sampledJose 4096 s looked flight ∧
      (looked.accounts.get? 1).map Account.jwk = some "k1" ∧
      (s.store.accounts.get? 1).map Account.jwk = some "k2" := by
  obtain ⟨s, t, looked, flight, hs, hstep, hflight, hnone, hsome, hthen, hnow⟩ :=
    reachable_changed
  have honce := (requests_unforgeable (fun _ => rfl) (by decide) (hs.step hstep)).1
  rcases (requests_unforgeable (fun _ => rfl) (by decide) hs).2.1 _ _ hstep with hsame |
    ⟨request, looked', flight', hfinish, hflight', haccepted, haccepts⟩
  · exact absurd (hsame.trans hnone) hsome
  · cases hfinish
    cases hflight.symm.trans hflight'
    rw [hnone, List.nil_append] at haccepted
    exact ⟨s, t, looked, flight, haccepted, honce, haccepts, hthen, hnow⟩

/-- The key is changed between the look and the acceptance. -/
theorem accepted_under_former_key : ∃ s t : ServerRequests SampledJws String,
    (requests sampledJose 4096).Reachable s ∧
      (requests sampledJose 4096).step s (.finish 0) t ∧
      ∃ flight, t.accepted = s.accepted ++ [flight] ∧
        (sampledJose.header flight.jws).key = .kid "https://acme/account/1" ∧
        ∃ account, s.store.accounts.get? 1 = some account ∧
          ∀ key, sampledJose.fromJson account.jwk = .ok key →
            sampledJose.verify flight.jws key ≠ .ok () := by
  obtain ⟨s, hs, hexec⟩ := reachable_lookedUp
  cases hexec
  refine ⟨_, _, .step hs (l := .changeKey 1 "k2") ⟨trivial, rfl⟩, ⟨trivial, rfl⟩, _, rfl, rfl, _,
    rfl, fun key hkey => ?_⟩
  cases hkey
  exact nofun

end Opca.Acme

/-
  Acme/Isolation.lean --- the ACME handlers keep accounts apart: whatever runs beside
  whatever, an account's rows change only by requests signed with a key of its own, by the
  validations these started and by expiry, and no answer shows another's (`acme/server.rs`).

  Each handler is taken alone.  It relies on the others to leave every row with whom it is,
  and on accounts' keys to be among those they were given.
-/
import Opca.Acme.Handlers
import Opca.Acme.Proper
import Opca.Acme.Within

set_option autoImplicit false

namespace Opca.Acme.Handlers

open Opca.Foundation Prog

variable {Jws Key : Type} (reading : Reading Jws Key)

/-! ## Who asks -/

/-- The post's body is a request for its URL, signed by `key`. -/
structure Signed (post : Post) (jws : Jws) (key : Key) : Prop where
  body : reading.parse post.body = .ok jws
  url : (reading.header jws).url = post.url
  signature : reading.verify jws key = .ok ()

/-- The post names `account` and is signed by a key that this was given. -/
def SignedBy (post : Post) (held : List HeldKey) (account : Int) : Prop :=
  ∃ jws key, Signed reading post jws key ∧
    (reading.header jws).key = .kid (accountUrl post.accounts account) ∧
    ∃ given ∈ held, given.account = account ∧ reading.fromJson given.jwk = .ok key

/-- The post carries the key that it is signed by. -/
def SignedWith (post : Post) (key : Key) : Prop :=
  ∃ jws, Signed reading post jws key ∧ (reading.header jws).key = .jwk key

/-- `key` is the one that the certificate certifies. -/
def HoldsKeyOf (key : Key) (c : Certificate) : Prop :=
  ∃ der leaf, isLeaf reading c der = true ∧ reading.inspect der = .ok leaf ∧
    leaf.serial = c.serial ∧ reading.subjectPublicKeyInfo key = leaf.spki

/-- The accounts whose rows a caller may change. -/
def Acts (caller : Caller) (held : List HeldKey) (account : Int) : Prop :=
  match caller with
  | .client .newAccount post => ∃ key, SignedWith reading post key ∧
      ∃ given ∈ held, given.account = account ∧ given.thumbprint = reading.thumbprint key
  | .client _ post => SignedBy reading post held account
  | .operator _ _ _ => False

/-- The certificates that a caller may bring about or revoke, as it leaves them. -/
def Certifies (caller : Caller) (held : List HeldKey) (c : Certificate) : Prop :=
  match caller with
  | .client (.finalise _) post => SignedBy reading post held c.account ∧ c.revokedAt = none
  | .client .revoke post =>
    (SignedBy reading post held c.account ∨
      ∃ key, SignedWith reading post key ∧ HoldsKeyOf reading key c) ∧
    ∀ reason ∈ c.revocationReason, reason ∈ revocationReasons ∧ reason ≠ 0
  | .client _ _ => False
  | .operator enrolled serial reason =>
    enrolled.revoked = false ∧ Store.issuedBy enrolled.issuers c = true ∧ c.serial = serial ∧
      reason ∈ revocationReasons ∧ c.revocationReason = (some reason).filter (· ≠ 0)

/-- What an answer shows is of the accounts that the caller may act for. -/
def Shows (caller : Caller) (answer : Answer) (s : Shared) : Prop :=
  match answer with
  | .account row _ => Acts reading caller s.held row.id
  | .orders ids => ∃ account, Acts reading caller s.held account ∧
      ∀ id ∈ ids, Placed s.store account id
  | .order row authorisations => Acts reading caller s.held row.account ∧
      ∀ id ∈ authorisations, AuthorisationOf s.store row.account id
  | .authorisation row challenges => ∃ account, Acts reading caller s.held account ∧
      AuthorisationOf s.store account row.id ∧
      ∀ c ∈ challenges, ChallengeOf s.store account c.id
  | .challenge row => ∃ account, Acts reading caller s.held account ∧
      ChallengeOf s.store account row.id
  | .certificate chainPem => ∃ account, Acts reading caller s.held account ∧
      ∃ c ∈ s.store.certificates.rows, c.chainPem = chainPem ∧ c.account = account
  | .revoked => True
  | .leaf row => ∃ enrolled serial reason, caller = .operator enrolled serial reason ∧
      Store.issuedBy enrolled.issuers row = true

/-! ## What they rely on -/

/-- Every account's key is among those it was given. -/
def Keyed (s : Shared) : Prop := ∀ row ∈ s.store.accounts.rows, heldKey row ∈ s.held

/-- Rows stay with whom they are, and the keys given are remembered. -/
structure Rely (s t : Shared) : Prop where
  within : Within (fun _ => True) (fun _ => True) s.store t.store
  held : ∀ given ∈ s.held, given ∈ t.held
  keyed : Keyed s → Keyed t

theorem Rely.refl (s : Shared) : Rely s s where
  within := Within.refl s.store
  held _ hgiven := hgiven
  keyed hkeyed := hkeyed

theorem Rely.trans {s t u : Shared} (h : Rely s t) (h' : Rely t u) : Rely s u where
  within := h.within.trans h'.within
  held given hgiven := h'.held given (h.held given hgiven)
  keyed hkeyed := h'.keyed (h.keyed hkeyed)

/-- What leaves the tables and the keys. -/
theorem Rely.of_eq {s t : Shared} (hstore : t.store = s.store) (hheld : t.held = s.held) :
    Rely s t where
  within := by
    rw [hstore]
    exact Within.refl s.store
  held := by
    rw [hheld]
    exact fun _ hgiven => hgiven
  keyed := by
    unfold Keyed
    rw [hstore, hheld]
    exact fun hkeyed => hkeyed

theorem Rely.withStore {s : Shared} {store : Store}
    (h : Within (fun _ => True) (fun _ => True) s.store store) : Rely s (s.withStore store) where
  within := h
  held _ hgiven := List.mem_append_left _ hgiven
  keyed _ _ hrow := List.mem_append_right _ (List.mem_map_of_mem hrow)

/-! ## What they guarantee -/

/-- The validation is what its challenge asks for: of its kind, of its authorisation's name
and with its token, by a key that the account that placed the order was given. -/
def Asked (s : Shared) (validation : Validation) : Prop :=
  ∃ c ∈ s.store.challenges.rows, c.id = validation.challenge ∧ c.kind = validation.kind ∧
    ∃ x ∈ s.store.authorisations.rows, x.id = c.authorisation ∧
      x.identifier = validation.identifier ∧
      ∃ given ∈ s.held, Placed s.store given.account x.order ∧
        validation.keyAuthorisation = c.token ++ "." ++ given.thumbprint

theorem Asked.rely {s t : Shared} {validation : Validation} (h : Asked s validation)
    (hst : Rely s t) : Asked t validation := by
  obtain ⟨c, hc, hid, hkind, x, hx, hxid, hidentifier, given, hgiven, hplaced, hkey⟩ := h
  obtain ⟨c', hc', hid', ⟨hof, hkind', htoken⟩, -⟩ := hst.within.challenges.kept c hc
  obtain ⟨x', hx', hxid', ⟨horder, hidentifier', -⟩, -⟩ := hst.within.authorisations.kept x hx
  refine ⟨c', hc', hid'.trans hid, hkind'.trans hkind, x', hx', ?_,
    hidentifier'.trans hidentifier, given, hst.held given hgiven, ?_, ?_⟩
  · rw [hxid', hxid, hof]
  · rw [horder]
    exact hst.within.placed hplaced
  · rw [htoken]
    exact hkey

/-- A caller's action is proper; it expires what is stale, or changes no rows but those of
accounts that it may act for; and the validations it starts are of these's challenges, and
what they ask for. -/
structure Guarantee (caller : Caller) (s t : Shared) : Prop where
  rely : Rely s t
  proper : Proper s.store t.store
  rows : (∃ now, t.store = (s.store.expireStale now).1) ∨
    Within (Acts reading caller t.held) (Certifies reading caller t.held) s.store t.store
  validating : ∀ validation ∈ t.validating, validation ∈ s.validating ∨ Asked t validation ∧
    ∃ account, Acts reading caller t.held account ∧
      ChallengeOf t.store account validation.challenge
  judged : t.judged = s.judged

theorem relies (caller : Caller) : Relies Rely (Guarantee reading caller) where
  refl := Rely.refl
  trans := Rely.trans
  guarantee := Guarantee.rely

variable {reading} {caller : Caller} {s t : Shared} {α : Type}

theorem Guarantee.refl (s : Shared) : Guarantee reading caller s s where
  rely := Rely.refl s
  proper := Proper.refl s.store
  rows := .inr (Within.refl s.store)
  validating _ hmem := .inl hmem
  judged := rfl

theorem Guarantee.withStore {store : Store}
    (h : Within (Acts reading caller (s.withStore store).held)
      (Certifies reading caller (s.withStore store).held) s.store store)
    (hproper : Proper s.store store) :
    Guarantee reading caller s (s.withStore store) where
  rely := Rely.withStore (h.mono (fun _ _ => trivial) fun _ _ _ => trivial)
  proper := hproper
  rows := .inr h
  validating _ hmem := .inl hmem
  judged := rfl

theorem SignedBy.mono {post : Post} {held held' : List HeldKey} {account : Int}
    (h : SignedBy reading post held account) (hheld : ∀ given ∈ held, given ∈ held') :
    SignedBy reading post held' account := by
  obtain ⟨jws, key, hsigned, hkid, given, hgiven, hof⟩ := h
  exact ⟨jws, key, hsigned, hkid, given, hheld given hgiven, hof⟩

theorem Acts.mono {held held' : List HeldKey} {account : Int}
    (h : Acts reading caller held account) (hheld : ∀ given ∈ held, given ∈ held') :
    Acts reading caller held' account := by
  cases caller with
  | operator enrolled serial reason => exact h
  | client route post =>
    cases route with
    | newAccount =>
      obtain ⟨key, hsigned, given, hgiven, hof⟩ := h
      exact ⟨key, hsigned, given, hheld given hgiven, hof⟩
    | account | orders | keyChange | newOrder | order | finalise | authorisation | challenge
    | certificate | revoke => exact SignedBy.mono h hheld

/-- What an answer showed, it shows of the same accounts later. -/
theorem Shows.rely {answer : Answer} (h : Shows reading caller answer s) (hst : Rely s t) :
    Shows reading caller answer t := by
  cases answer with
  | account row made => exact Acts.mono h hst.held
  | orders ids =>
    obtain ⟨account, hacts, hids⟩ := h
    exact ⟨account, hacts.mono hst.held, fun id hid => hst.within.placed (hids id hid)⟩
  | order row authorisations =>
    obtain ⟨hacts, hids⟩ := h
    exact ⟨hacts.mono hst.held, fun id hid => hst.within.authorisationOf (hids id hid)⟩
  | authorisation row challenges =>
    obtain ⟨account, hacts, hof, hchallenges⟩ := h
    exact ⟨account, hacts.mono hst.held, hst.within.authorisationOf hof,
      fun c hc => hst.within.challengeOf (hchallenges c hc)⟩
  | challenge row =>
    obtain ⟨account, hacts, hof⟩ := h
    exact ⟨account, hacts.mono hst.held, hst.within.challengeOf hof⟩
  | certificate chainPem =>
    obtain ⟨account, hacts, c, hc, hpem, haccount⟩ := h
    obtain ⟨c', hc', -, hkeeps, -⟩ := hst.within.certificates.kept c hc
    refine ⟨account, hacts.mono hst.held, c', hc', ?_, ?_⟩
    · rw [hkeeps.1]
      exact hpem
    · rw [hkeeps.account]
      exact haccount
  | revoked => trivial
  | leaf row => exact h

/-! ## Actions -/

/-- What a program yields while it keeps to what its caller guarantees. -/
def Does (reading : Reading Jws Key) (caller : Caller) (Q : α → Shared → Prop)
    (h : Handler α) (s : Shared) : Prop :=
  Yields Rely (Guarantee reading caller) Q h s

variable {Q : α → Shared → Prop}

theorem Does.bind {β : Type} {Q' : β → Shared → Prop} {h : Handler α} {g : α → Handler β}
    (hdoes : Does reading caller Q h s)
    (hg : ∀ a t, Rely s t → Q a t → Does reading caller Q' (g a) t) :
    Does reading caller Q' (h >>= g) s :=
  Yields.bind (relies reading caller) hdoes hg

theorem Does.mono {Q' : α → Shared → Prop} {h : Handler α} (hdoes : Does reading caller Q h s)
    (hQ : ∀ a t, Q a t → Q' a t) : Does reading caller Q' h s :=
  Yields.mono hdoes hQ

theorem Does.pure {a : α} (h : ∀ t, Rely s t → Q a t) :
    Does reading caller Q (Pure.pure a : Handler α) s :=
  Yields.pure h

theorem Does.throw {e : Declined} : Does reading caller Q (throw e : Handler α) s :=
  Yields.throw

theorem Does.settled {result : Except Declined α}
    (h : ∀ a, result = .ok a → ∀ t, Rely s t → Q a t) :
    Does reading caller Q (Prog.settled result) s :=
  Yields.settled h

/-- A check whose result says nothing of the state. -/
theorem Does.check {result : Except Declined α} :
    Does reading caller (fun a _ => result = .ok a) (Prog.settled result) s :=
  Does.settled fun _ ha _ _ => ha

theorem Does.found {row : Option α} {what : String} :
    Does reading caller (fun a _ => row = some a) (found row what) s := by
  apply Does.settled
  intro a ha _ _
  exact elim_eq_ok ha

theorem Does.problem {result : Except Problem α} :
    Does reading caller (fun a _ => result = .ok a) (problem result) s := by
  apply Does.settled
  intro a ha _ _
  exact mapError_eq_ok.mp ha

theorem Does.parse {result : Except String α} :
    Does reading caller (fun a _ => result = .ok a) (parse result) s := by
  apply Does.settled
  intro a ha _ _
  exact mapError_eq_ok.mp ha

/-- An action that reads only. -/
theorem Does.look {f : Shared → Moment → Except Declined α}
    (h : ∀ t moment a, Rely s t → f t moment = .ok a → ∀ u, Rely t u → Q a u) :
    Does reading caller Q (attempt fun s moment => (s, f s moment)) s := by
  apply Yields.attempt
  intro t moment hst
  exact ⟨Guarantee.refl t, fun a ha u hu => h t moment a hst ha u hu⟩

theorem Does.query {f : Store → α} (h : ∀ t, Rely s t → ∀ u, Rely t u → Q (f t.store) u) :
    Does reading caller Q (query f) s := by
  apply Does.look
  intro t _ a hst ha u hu
  cases ha
  exact h t hst u hu

theorem Does.transact {f : Store → Moment → Except StoreError (Store × α)}
    (h : ∀ t moment store a, Rely s t → f t.store moment = .ok (store, a) →
      Within (Acts reading caller (t.withStore store).held)
        (Certifies reading caller (t.withStore store).held) t.store store ∧
      Proper t.store store ∧ ∀ u, Rely (t.withStore store) u → Q a u) :
    Does reading caller Q (transact f) s := by
  apply Yields.attempt
  intro t moment hst
  cases hf : f t.store moment with
  | error e => exact ⟨Guarantee.refl t, nofun⟩
  | ok result =>
    obtain ⟨store, a⟩ := result
    obtain ⟨hwithin, hproper, hQ⟩ := h t moment store a hst hf
    refine ⟨Guarantee.withStore hwithin hproper, ?_⟩
    intro b hb u hu
    cases hb
    exact hQ u hu

theorem Does.clock : Does reading caller (fun _ _ => True) clock s :=
  Does.look fun _ _ _ _ _ _ _ => trivial

theorem Does.issuing : Does reading caller (fun _ _ => True) issuing s :=
  Does.look fun _ _ _ _ _ _ _ => trivial

theorem Does.ownedBy {account : Account} {owner : Int} :
    Does reading caller (fun _ _ => account.id = owner) (ownedBy account owner) s := by
  apply Does.settled
  intro a ha _ _
  split at ha
  next heq => exact heq
  next => cases ha

theorem Does.asGet {payload : List UInt8} :
    Does reading caller (fun _ _ => True) (asGet payload) s :=
  Does.settled fun _ _ _ _ => trivial

theorem Does.expireStale : Does reading caller (fun _ _ => True) expireStale s := by
  apply Yields.attempt
  intro t moment _
  refine ⟨?_, fun _ _ _ _ => trivial⟩
  exact {
    rely := Rely.withStore (Within.expireStale moment.now)
    proper := Proper.expireStale moment.now
    rows := .inl ⟨moment.now, rfl⟩
    validating := fun _ hmem => .inl hmem
    judged := rfl }

/-! ## Requests -/

/-- What the opening of a request says of its JWS. -/
theorem openRequest_parts {jose : Jose Jws Key} {store : Store} {body : List UInt8}
    {url accounts : String} {rule : KeyRule} {flight : Flight Jws Key}
    (h : openRequest jose store body url rule accounts = .ok flight) :
    jose.parse body = .ok flight.jws ∧ flight.accountsUrl = accounts ∧
      (rule = .jwk → ∃ key, flight.signer = .key key) := by
  obtain ⟨jws, hparse, h⟩ := bind_eq_ok.mp h
  simp only at h
  split at h
  · cases h
  · split at h
    · cases h
    · split at h
      · cases h
        exact ⟨mapError_eq_ok.mp hparse, rfl, fun _ => ⟨_, rfl⟩⟩
      · cases h
        exact ⟨mapError_eq_ok.mp hparse, rfl, fun _ => ⟨_, rfl⟩⟩
      · obtain ⟨signer, -, rfl⟩ := map_eq_ok.mp h
        exact ⟨mapError_eq_ok.mp hparse, rfl, nofun⟩
      · obtain ⟨signer, -, rfl⟩ := map_eq_ok.mp h
        exact ⟨mapError_eq_ok.mp hparse, rfl, nofun⟩
      · cases h
      · cases h

/-- What is known of a signer that a request was read with. -/
def Named (reading : Reading Jws Key) (post : Post) (jws : Jws) (signer : Signer Key)
    (s : Shared) : Prop :=
  match signer with
  | .account account key =>
    (reading.header jws).key = .kid (accountUrl post.accounts account.id) ∧
      heldKey account ∈ s.held ∧ reading.fromJson account.jwk = .ok key
  | .key key => (reading.header jws).key = .jwk key

theorem Named.rely {post : Post} {jws : Jws} {signer : Signer Key}
    (h : Named reading post jws signer s) (hst : Rely s t) :
    Named reading post jws signer t := by
  cases signer with
  | key key => exact h
  | account account key =>
    obtain ⟨hkid, hheld, hkey⟩ := h
    exact ⟨hkid, hst.held _ hheld, hkey⟩

theorem named_of_openRequest {post : Post} {rule : KeyRule} {flight : Flight Jws Key}
    (hkeyed : Keyed s)
    (h : openRequest reading.toJose s.store post.body post.url rule post.accounts = .ok flight) :
    Named reading post flight.jws flight.signer s := by
  obtain ⟨hlooked, -⟩ := openRequest_ok h
  obtain ⟨-, haccounts, -⟩ := openRequest_parts h
  cases hkey : (reading.header flight.jws).key with
  | jwk key =>
    rw [hlooked.jwk key hkey]
    exact hkey
  | kid kid =>
    obtain ⟨account, key, hsigner, hkid, hget, -, hjson⟩ := hlooked.kid kid hkey
    rw [hsigner]
    refine ⟨?_, hkeyed account (Table.get?_eq_some.mp hget).1, hjson⟩
    rw [hkey, hkid, haccounts]

theorem Does.verify {post : Post} {rule : KeyRule} (hkeyed : Keyed s) :
    Does reading caller
      (fun r t => Signed reading post r.1 r.2.signingKey ∧ Named reading post r.1 r.2 t ∧
        (rule = .jwk → ∃ key, r.2 = .key key)) (post.verify reading rule) s := by
  apply Does.bind (Q := fun flight t =>
    reading.parse post.body = .ok flight.jws ∧ (reading.header flight.jws).url = post.url ∧
      Named reading post flight.jws flight.signer t ∧
      (rule = .jwk → ∃ key, flight.signer = .key key))
  · apply Does.look
    intro t _ flight hst hopen u hu
    have hopen := mapError_eq_ok.mp hopen
    obtain ⟨hlooked, hurl⟩ := openRequest_ok hopen
    obtain ⟨hbody, -, hjwk⟩ := openRequest_parts hopen
    refine ⟨hbody, ?_, ?_, hjwk⟩
    · rw [← hurl]
      exact hlooked.url
    · exact (named_of_openRequest (hst.keyed hkeyed) hopen).rely hu
  · intro flight t _ hflight
    obtain ⟨hbody, hurl, hnamed, hjwk⟩ := hflight
    apply Yields.attempt
    intro u _ htu
    cases hclose : closeRequest reading.toJose u.nonces flight with
    | mk result nonces =>
      cases result with
      | error e =>
        simp only
        refine ⟨?_, nofun⟩
        exact { Guarantee.refl u with rely := Rely.of_eq rfl rfl }
      | ok checked =>
        simp only
        refine ⟨{ Guarantee.refl u with rely := Rely.of_eq rfl rfl }, ?_⟩
        intro a ha v hv
        cases ha
        obtain ⟨hverify, -, -⟩ := closeRequest_ok hclose
        refine ⟨⟨hbody, hurl, hverify⟩, ?_, hjwk⟩
        have hnonces : Rely u { u with nonces } := Rely.of_eq rfl rfl
        exact (hnamed.rely htu).rely (hnonces.trans hv)

theorem Named.signedBy {post : Post} {jws : Jws} {account : Account} {key : Key}
    (hsigned : Signed reading post jws key)
    (h : Named reading post jws (.account account key) s) :
    SignedBy reading post s.held account.id := by
  obtain ⟨hkid, hheld, hjson⟩ := h
  exact ⟨jws, key, hsigned, hkid, heldKey account, hheld, rfl, hjson⟩

theorem Does.byAccountKey {post : Post} (hkeyed : Keyed s) :
    Does reading caller
      (fun r t => SignedBy reading post t.held r.1.id ∧ heldKey r.1 ∈ t.held)
      (post.byAccount reading) s := by
  apply Does.bind (Does.verify hkeyed)
  intro r t _ hr
  obtain ⟨jws, signer⟩ := r
  obtain ⟨hsigned, hnamed, -⟩ := hr
  cases signer with
  | key key => exact Does.throw
  | account account key =>
    apply Does.pure
    intro u hu
    exact ⟨(hnamed.rely hu).signedBy hsigned, (hnamed.rely hu).2.1⟩

theorem Does.byAccount {post : Post} (hkeyed : Keyed s) :
    Does reading caller (fun r t => SignedBy reading post t.held r.1.id)
      (post.byAccount reading) s :=
  (Does.byAccountKey hkeyed).mono fun _ _ h => h.1

theorem Does.verifyKeyChange {post : Post} (hkeyed : Keyed s) :
    Does reading caller (fun r t => SignedBy reading post t.held r.1.id)
      (post.verifyKeyChange reading) s := by
  apply Does.bind (Does.verify hkeyed)
  intro r t _ hr
  obtain ⟨jws, signer⟩ := r
  obtain ⟨hsigned, hnamed, -⟩ := hr
  cases signer with
  | key key => exact Does.throw
  | account account key =>
    apply Does.bind Does.problem
    intro change u htu _
    obtain ⟨named, newKey⟩ := change
    dsimp only
    split
    · exact Does.throw
    · apply Does.pure
      intro v huv
      exact ((hnamed.rely htu).rely huv).signedBy hsigned

/-! ## Rows looked up -/

theorem placed_of_get {store : Store} {id : Int} {order : Order}
    (hget : store.orders.get? id = some order) : Placed store order.account id := by
  obtain ⟨hmem, hid⟩ := Table.get?_eq_some.mp hget
  exact ⟨order, hmem, hid, rfl⟩

/-- The authorisations of an order are its account's. -/
theorem authorisationOf_of_order {store : Store} {account id : Int}
    (hplaced : Placed store account id) :
    ∀ x ∈ (store.authorisations.rows.filter (·.order = id)).map Authorisation.id,
      AuthorisationOf store account x := by
  intro x hx
  obtain ⟨row, hrow, rfl⟩ := List.mem_map.mp hx
  obtain ⟨hmem, horder⟩ := List.mem_filter.mp hrow
  simp only [decide_eq_true_eq] at horder
  exact ⟨row, hmem, rfl, horder ▸ hplaced⟩

/-- What a look-up of an order that is the account's gives. -/
structure OwnOrder (account id : Int) (r : Order × List Int) (s : Shared) : Prop where
  account_eq : r.1.account = account
  row : ∃ o ∈ s.store.orders.rows, o.id = id ∧ OrderKeeps r.1 o
  ids : ∀ x ∈ r.2, AuthorisationOf s.store account x

theorem OwnOrder.rely {account id : Int} {r : Order × List Int}
    (h : OwnOrder account id r s) (hst : Rely s t) : OwnOrder account id r t where
  account_eq := h.account_eq
  row := by
    obtain ⟨o, ho, hid, haccount, hidentifiers⟩ := h.row
    obtain ⟨o', ho', hid', hkeeps, -⟩ := hst.within.orders.kept o ho
    exact ⟨o', ho', hid'.trans hid, hkeeps.1.trans haccount, hkeeps.2.trans hidentifiers⟩
  ids x hx := hst.within.authorisationOf (h.ids x hx)

theorem OwnOrder.placed {account id : Int} {r : Order × List Int} (h : OwnOrder account id r s) :
    Placed s.store account id := by
  obtain ⟨o, ho, hid, hkeeps⟩ := h.row
  exact ⟨o, ho, hid, hkeeps.1.trans h.account_eq⟩

theorem Does.ownedOrder {id : Int} {account : Account} :
    Does reading caller (fun r t => r.1.id = id ∧ OwnOrder account.id id r t)
      (ownedOrder id account) s := by
  apply Does.bind (Q := fun row t => ∀ r ∈ row, r.1.id = id ∧ OwnOrder r.1.account id r t)
  · apply Does.query
    intro t _ u htu r hr
    obtain ⟨order, hget, rfl⟩ := Option.map_eq_some_iff.mp hr
    have hplaced := placed_of_get hget
    have hown : OwnOrder order.account id (order,
        (t.store.authorisations.rows.filter (·.order = id)).map Authorisation.id) t :=
      ⟨rfl, ⟨order, (Table.get?_eq_some.mp hget).1, (Table.get?_eq_some.mp hget).2,
        OrderKeeps.refl order⟩, authorisationOf_of_order hplaced⟩
    exact ⟨(Table.get?_eq_some.mp hget).2, hown.rely htu⟩
  · intro row t _ hrow
    apply Does.bind Does.found
    intro r u htu hr
    obtain ⟨hid, hown⟩ := hrow r hr
    obtain ⟨order, authorisations⟩ := r
    apply Does.bind Does.ownedBy
    intro _ v huv haccount
    apply Does.pure
    intro w hvw
    refine ⟨hid, ?_⟩
    rw [haccount]
    exact hown.rely (htu.trans (huv.trans hvw))

theorem Does.orderOf {id : Int} {account : Account} :
    Does reading caller (fun r t => r.1.id = id ∧ OwnOrder account.id id r t)
      (orderOf id account) s := by
  apply Does.bind Does.expireStale
  intro _ t _ _
  exact Does.ownedOrder

/-- What a look-up of an authorisation that is the account's gives. -/
structure OwnAuthorisation (account id : Int) (r : Authorisation × List Challenge)
    (s : Shared) : Prop where
  id_eq : r.1.id = id
  row : ∃ x ∈ s.store.authorisations.rows, x.id = id ∧ AuthorisationKeeps r.1 x ∧
    Placed s.store account x.order
  challenges : ∀ c ∈ r.2, ChallengeOf s.store account c.id

theorem OwnAuthorisation.rely {account id : Int} {r : Authorisation × List Challenge}
    (h : OwnAuthorisation account id r s) (hst : Rely s t) : OwnAuthorisation account id r t where
  id_eq := h.id_eq
  row := by
    obtain ⟨x, hx, hid, ⟨horder, hidentifier, hwildcard⟩, hplaced⟩ := h.row
    obtain ⟨x', hx', hid', hkeeps, -⟩ := hst.within.authorisations.kept x hx
    refine ⟨x', hx', hid'.trans hid, ⟨hkeeps.1.trans horder, hkeeps.2.1.trans hidentifier,
      hkeeps.2.2.trans hwildcard⟩, ?_⟩
    rw [hkeeps.1]
    exact hst.within.placed hplaced
  challenges c hc := hst.within.challengeOf (h.challenges c hc)

theorem OwnAuthorisation.authorisationOf {account id : Int}
    {r : Authorisation × List Challenge} (h : OwnAuthorisation account id r s) :
    AuthorisationOf s.store account id := by
  obtain ⟨x, hx, hid, -, hplaced⟩ := h.row
  exact ⟨x, hx, hid, hplaced⟩

theorem Does.authorisationOf {id : Int} {account : Account} :
    Does reading caller (OwnAuthorisation account.id id) (authorisationOf id account) s := by
  apply Does.bind Does.expireStale
  intro _ s' _ _
  -- whose the order is, is checked after the rows are read
  apply Does.bind (Q := fun row t => ∀ r ∈ row, r.1.id = id ∧
    ∃ x ∈ t.store.authorisations.rows, x.id = id ∧ AuthorisationKeeps r.1 x ∧
      ∀ c ∈ r.2, ∃ c' ∈ t.store.challenges.rows, c'.id = c.id ∧ c'.authorisation = id)
  · apply Does.query
    intro t _ u htu r hr
    obtain ⟨x, hget, rfl⟩ := Option.map_eq_some_iff.mp hr
    obtain ⟨hx, hid⟩ := Table.get?_eq_some.mp hget
    obtain ⟨x', hx', hid', hkeeps, -⟩ := htu.within.authorisations.kept x hx
    refine ⟨hid, x', hx', hid'.trans hid, hkeeps, fun c hc => ?_⟩
    obtain ⟨hmem, hof⟩ := List.mem_filter.mp hc
    simp only [decide_eq_true_eq] at hof
    obtain ⟨c', hc', hcid, hckeeps, -⟩ := htu.within.challenges.kept c hmem
    exact ⟨c', hc', hcid, hckeeps.1.trans hof⟩
  · intro row t _ hrow
    apply Does.bind Does.found
    intro r u htu hr
    obtain ⟨hid, x, hx, hxid, ⟨horder, hidentifier, hwildcard⟩, hchallenges⟩ := hrow r hr
    obtain ⟨authorisation, challenges⟩ := r
    apply Does.bind Does.ownedOrder
    intro owned v huv hown
    have hplaced := hown.2.placed
    apply Does.pure
    intro w hvw
    have htw := htu.trans (huv.trans hvw)
    obtain ⟨x', hx', hid', hkeeps, -⟩ := htw.within.authorisations.kept x hx
    have hplaced' : Placed w.store account.id x'.order := by
      rw [hkeeps.1, horder]
      exact hvw.within.placed hplaced
    have hof : AuthorisationOf w.store account.id id := ⟨x', hx', hid'.trans hxid, hplaced'⟩
    refine ⟨hid, ⟨x', hx', hid'.trans hxid, ⟨hkeeps.1.trans horder,
      hkeeps.2.1.trans hidentifier, hkeeps.2.2.trans hwildcard⟩, hplaced'⟩, fun c hc => ?_⟩
    obtain ⟨c', hc', hcid, hcof⟩ := hchallenges c hc
    obtain ⟨c'', hc'', hcid', hckeeps, -⟩ := htw.within.challenges.kept c' hc'
    refine ⟨c'', hc'', hcid'.trans hcid, ?_⟩
    rw [hckeeps.1, hcof]
    exact hof

/-! ## The handlers -/

section

variable {post : Post}

theorem createAccount_found {store : Store} {jwk thumbprint : String} {contacts : List String}
    {now : Time} {account : Account}
    (h : (store.createAccount jwk thumbprint contacts now).2.1 = some account) :
    account ∈ (store.createAccount jwk thumbprint contacts now).1.accounts.rows ∧
      account.thumbprint = thumbprint := by
  unfold Store.createAccount at h ⊢
  split at h
  next found hfound =>
    cases h
    exact ⟨List.mem_of_find?_eq_some hfound,
      of_decide_eq_true (List.find?_some
        (p := fun a : Account => decide (a.thumbprint = thumbprint)) hfound)⟩
  next hnone =>
    exact ⟨List.mem_of_find?_eq_some h,
      of_decide_eq_true (List.find?_some
        (p := fun a : Account => decide (a.thumbprint = thumbprint)) h)⟩

/-- An account with the key's thumbprint is one that the key acts for. -/
theorem acts_of_thumbprint {key : Key} {account : Account}
    (hsigned : SignedWith reading post key) (hheld : heldKey account ∈ s.held)
    (hthumbprint : account.thumbprint = reading.thumbprint key) :
    Acts reading (.client .newAccount post) s.held account.id :=
  ⟨key, hsigned, heldKey account, hheld, rfl, hthumbprint⟩

theorem Does.accountFor {request : AccountRequest} {key : Key}
    (hsigned : SignedWith reading post key) (hkeyed : Keyed s) :
    Does reading (.client .newAccount post)
      (fun r t => Acts reading (.client .newAccount post) t.held r.1.id)
      (accountFor reading request key) s := by
  apply Does.bind (Q := fun existing t => ∀ account ∈ existing,
    Acts reading (.client .newAccount post) t.held account.id)
  · apply Does.query
    intro t hst u htu account haccount
    have hmem := List.mem_of_find?_eq_some haccount
    have hthumbprint := List.find?_some haccount
    exact acts_of_thumbprint hsigned (htu.held _ (hst.keyed hkeyed account hmem))
      (of_decide_eq_true hthumbprint)
  · intro existing t _ hexisting
    cases existing with
    | some account =>
      apply Does.pure
      intro u htu
      exact (hexisting account rfl).mono htu.held
    | none =>
      dsimp only
      split
      · exact Does.throw
      · apply Does.bind Does.check
        intro contacts u _ _
        apply Does.transact
        intro v moment store r _ hcreate
        generalize hmade : v.store.createAccount (reading.toCanonicalJson key)
          (reading.thumbprint key) contacts moment.now = made at hcreate
        obtain ⟨made, found, fresh⟩ := made
        cases found with
        | none => cases hcreate
        | some account =>
          cases hcreate
          have hstore := congrArg Prod.fst hmade
          dsimp only at hstore
          obtain ⟨hmem, hthumbprint⟩ := createAccount_found (by rw [hmade])
          rw [hstore] at hmem
          have hheld {a : Account} (ha : a ∈ store.accounts.rows) :
              heldKey a ∈ (v.withStore store).held :=
            List.mem_append_right _ (List.mem_map_of_mem ha)
          refine ⟨?_, ?_, fun w hw => ?_⟩
          · rw [← hstore]
            apply Within.createAccount
            rw [hstore]
            intro a ha hthumbprint
            exact acts_of_thumbprint hsigned (hheld ha) hthumbprint
          · rw [← hstore]
            exact Proper.createAccount _ _ _ _
          · exact acts_of_thumbprint hsigned (hw.held _ (hheld hmem)) hthumbprint

theorem Does.newAccount (hkeyed : Keyed s) :
    Does reading (.client .newAccount post) (Shows reading (.client .newAccount post))
      (newAccount reading post) s := by
  apply Does.bind (Does.verify hkeyed)
  intro r t hst hr
  obtain ⟨jws, signer⟩ := r
  obtain ⟨hsigned, hnamed, hjwk⟩ := hr
  obtain ⟨key, rfl⟩ := hjwk rfl
  apply Does.bind Does.parse
  intro request u htu _
  apply Does.bind (Does.accountFor ⟨jws, hsigned, hnamed⟩ ((hst.trans htu).keyed hkeyed))
  intro r v _ hacts
  obtain ⟨account, made⟩ := r
  dsimp only
  split
  · exact Does.throw
  · apply Does.pure
    intro w hvw
    exact Acts.mono hacts hvw.held

theorem Does.updateContacts {route : Route} {id : Int} {contact : Option (List String)}
    (hacts : Acts reading (.client route post) s.held id) :
    Does reading (.client route post) (fun _ _ => True) (updateContacts id contact) s := by
  cases contact with
  | none => exact Does.pure fun _ _ => trivial
  | some contact =>
    apply Does.bind Does.check
    intro contacts t hst _
    apply Does.transact
    intro u moment store a htu hset
    cases hset
    refine ⟨Within.setContacts ?_, Proper.of_accounts, fun _ _ => trivial⟩
    exact (hacts.mono (hst.trans htu).held).mono fun _ => List.mem_append_left _

theorem Does.updateStatus {route : Route} {id : Int} {status : Option String}
    (hacts : Acts reading (.client route post) s.held id) :
    Does reading (.client route post) (fun _ _ => True) (updateStatus id status) s := by
  unfold Handlers.updateStatus
  split
  · exact Does.pure fun _ _ => trivial
  · exact Does.pure fun _ _ => trivial
  · apply Does.transact
    intro t moment store a hst hset
    obtain ⟨store', hmoved, heq⟩ := map_eq_ok.mp hset
    cases heq
    refine ⟨Within.setAccountStatus ?_ hmoved, Proper.setAccountStatus hmoved,
      fun _ _ => trivial⟩
    exact (hacts.mono hst.held).mono fun _ => List.mem_append_left _
  · exact Does.throw

theorem Does.updateAccount {route : Route} {id : Int} {payload : List UInt8}
    (hacts : Acts reading (.client route post) s.held id) :
    Does reading (.client route post) (fun _ _ => True) (updateAccount reading id payload) s := by
  unfold Handlers.updateAccount
  split
  · exact Does.pure fun _ _ => trivial
  · apply Does.bind Does.parse
    intro request t hst _
    apply Does.bind (Does.updateContacts (hacts.mono hst.held))
    intro _ u htu _
    exact Does.updateStatus (hacts.mono (hst.trans htu).held)

/-- An answer that shows the account's own row as it is now. -/
theorem Does.showAccount {route : Route} {id : Int}
    (hacts : Acts reading (.client route post) s.held id) :
    Does reading (.client route post) (Shows reading (.client route post))
      (showAccount id) s := by
  apply Does.bind (Q := fun row _ => ∀ account ∈ row, account.id = id)
  · apply Does.query
    intro t _ u _ account haccount
    exact (Table.get?_eq_some.mp haccount).2
  · intro row t hst hrow
    apply Does.bind Does.found
    intro account u htu hfound
    apply Does.pure
    intro v huv
    have hid : account.id = id := hrow account hfound
    show Acts reading (.client route post) v.held account.id
    rw [hid]
    exact hacts.mono (hst.trans (htu.trans huv)).held

theorem Does.account {id : Int} (hkeyed : Keyed s) :
    Does reading (.client (.account id) post) (Shows reading (.client (.account id) post))
      (account reading id post) s := by
  apply Does.bind (Does.byAccount hkeyed)
  intro r t _ hsigned
  obtain ⟨account, key, payload⟩ := r
  apply Does.bind Does.ownedBy
  intro _ u htu hid
  have hacts : Acts reading (.client (.account id) post) u.held id := by
    rw [← hid]
    exact SignedBy.mono hsigned htu.held
  apply Does.bind (Does.updateAccount hacts)
  intro _ v huv _
  exact Does.showAccount (hacts.mono huv.held)

theorem Does.orders {id : Int} (hkeyed : Keyed s) :
    Does reading (.client (.orders id) post) (Shows reading (.client (.orders id) post))
      (orders reading id post) s := by
  apply Does.bind (Does.byAccount hkeyed)
  intro r t _ hsigned
  obtain ⟨account, key, payload⟩ := r
  apply Does.bind Does.asGet
  intro _ u htu _
  apply Does.bind Does.ownedBy
  intro _ v huv hid
  apply Does.bind (Q := fun ids w => ∀ x ∈ ids, Placed w.store id x)
  · apply Does.query
    intro w _ x hwx y hy
    obtain ⟨o, ho, rfl⟩ := List.mem_map.mp hy
    obtain ⟨hmem, haccount⟩ := List.mem_filter.mp ho
    exact hwx.within.placed ⟨o, hmem, rfl, of_decide_eq_true haccount⟩
  · intro ids w hvw hids
    apply Does.pure
    intro x hwx
    refine ⟨id, ?_, fun y hy => hwx.within.placed (hids y hy)⟩
    rw [← hid]
    exact SignedBy.mono hsigned (htu.trans (huv.trans (hvw.trans hwx))).held

theorem Does.changeKey {route : Route} {id : Int} {key : Key}
    (hacts : Acts reading (.client route post) s.held id) :
    Does reading (.client route post) (fun _ _ => True) (changeKey reading id key post) s := by
  apply Yields.attempt
  intro t moment hst
  cases hchange : t.store.changeKey id (reading.toCanonicalJson key)
      (reading.thumbprint key) with
  | ok store =>
    refine ⟨Guarantee.withStore (Within.changeKey ?_ hchange) (Proper.changeKey hchange),
      fun _ _ _ _ => trivial⟩
    exact (hacts.mono hst.held).mono fun _ => List.mem_append_left _
  | error e =>
    cases e with
    | keyInUse | db | random | notFound | transition | alreadyRevoked | unrestorable =>
      exact ⟨Guarantee.refl t, nofun⟩

theorem Does.keyChange (hkeyed : Keyed s) :
    Does reading (.client .keyChange post) (Shows reading (.client .keyChange post))
      (keyChange reading post) s := by
  apply Does.bind (Does.verifyKeyChange hkeyed)
  intro r t _ hsigned
  obtain ⟨account, key⟩ := r
  have hacts : Acts reading (.client .keyChange post) t.held account.id := hsigned
  apply Does.bind (Does.changeKey hacts)
  intro _ u htu _
  exact Does.showAccount (hacts.mono htu.held)

theorem createOrder_order {store store' : Store} {new : NewOrder} {now : Time}
    {tokens : List String} {id : Int} (h : store.createOrder new now tokens = .ok (store', id)) :
    ∃ o ∈ store'.orders.rows, o.id = id ∧ o.account = new.account := by
  unfold Store.createOrder at h
  split at h
  · cases h
  obtain ⟨⟨made, rest⟩, hadd, h⟩ := bind_eq_ok.mp h
  cases h
  -- nothing is lost while the authorisations are added
  have hwithin : Within (fun _ => True) (fun _ => True) _ store' :=
    Within.addAuthorisations (fun _ _ _ => trivial) hadd
  exact hwithin.placed ⟨_, List.mem_append_right _ (List.mem_singleton_self _), rfl, rfl⟩

theorem Does.newOrder {rules : NameRules} {lifetime : Time} (hkeyed : Keyed s) :
    Does reading (.client .newOrder post) (Shows reading (.client .newOrder post))
      (newOrder reading rules lifetime post) s := by
  apply Does.bind (Does.byAccount hkeyed)
  intro r t _ hsigned
  obtain ⟨account, key, payload⟩ := r
  apply Does.bind Does.parse
  intro request t₁ h₁ _
  apply Does.bind Does.issuing
  intro issuer t₂ h₂ _
  apply Does.bind Does.problem
  intro found t₃ h₃ hfound
  apply Does.bind Does.clock
  intro now t₄ h₄ _
  apply Does.bind Does.problem
  intro authorisations t₅ h₅ hauthorisations
  apply Does.bind Does.problem
  intro notBefore t₆ h₆ _
  apply Does.bind Does.problem
  intro notAfter t₇ h₇ _
  have hst : Rely t t₇ :=
    h₁.trans (h₂.trans (h₃.trans (h₄.trans (h₅.trans (h₆.trans h₇)))))
  apply Does.bind (Q := fun r u => OwnOrder account.id r.1.id r u)
  · apply Does.transact
    intro u moment store r hu hcreate
    obtain ⟨⟨store', id⟩, hmade, hrest⟩ := bind_eq_ok.mp hcreate
    obtain ⟨order, hget, hread⟩ := bind_eq_ok.mp hrest
    cases hread
    obtain ⟨hmem, hid⟩ := Table.get?_eq_some.mp (elim_eq_ok hget)
    obtain ⟨o, ho, hoid, hoaccount⟩ := createOrder_order hmade
    have hsame : o = order := Table.eq_of_key ho hmem (hoid.trans hid.symm)
    rw [hsame] at hoaccount
    refine ⟨?_, ?_, fun v huv => ?_⟩
    · refine Within.createOrder ?_ hmade
      exact (SignedBy.mono hsigned (hst.trans hu).held).mono fun _ => List.mem_append_left _
    · exact Proper.createOrder (Proper.wellOrdered_of_names hfound hauthorisations) hmade
    · have hplaced : Placed store account.id id := ⟨order, hmem, hid, hoaccount⟩
      have hown : OwnOrder account.id order.id (order,
          (store.authorisations.rows.filter (·.order = id)).map Authorisation.id)
          (u.withStore store) :=
        ⟨hoaccount, ⟨order, hmem, rfl, OrderKeeps.refl order⟩, authorisationOf_of_order hplaced⟩
      exact hown.rely huv
  · intro r u hu hown
    obtain ⟨order, ids⟩ := r
    apply Does.pure
    intro v huv
    obtain ⟨haccount, -, hids⟩ := hown.rely huv
    refine ⟨?_, fun id hid => ?_⟩
    · rw [haccount]
      exact SignedBy.mono hsigned (hst.trans (hu.trans huv)).held
    · rw [haccount]
      exact hids id hid

/-- An answer that shows an order of the account's that asked. -/
theorem Does.showOrder {route : Route} {account : Account} {id : Int} {r : Order × List Int}
    (hacts : Acts reading (.client route post) s.held account.id)
    (hown : OwnOrder account.id id r s) :
    Does reading (.client route post) (Shows reading (.client route post))
      (Pure.pure (.order r.1 r.2) : Handler Answer) s := by
  apply Does.pure
  intro t hst
  obtain ⟨haccount, -, hids⟩ := hown.rely hst
  refine ⟨?_, fun x hx => ?_⟩
  · rw [haccount]
    exact hacts.mono hst.held
  · rw [haccount]
    exact hids x hx

theorem Does.order {id : Int} (hkeyed : Keyed s) :
    Does reading (.client (.order id) post) (Shows reading (.client (.order id) post))
      (order reading id post) s := by
  apply Does.bind (Does.byAccount hkeyed)
  intro r t _ hsigned
  obtain ⟨account, key, payload⟩ := r
  apply Does.bind Does.asGet
  intro _ u htu _
  apply Does.bind Does.orderOf
  intro r v huv hown
  exact Does.showOrder (SignedBy.mono hsigned (htu.trans huv).held) hown.2

/-- The certificate that is recorded is the order's account's. -/
theorem Does.issueFor {rules : NameRules} {fromDer : List UInt8 → Except String Csr}
    {describeName : SubjectAltName → String} {describeKey : KeyDescription → String}
    {id : Int} {issuer : Issuer} {order : Order} {csr accountKey : List UInt8}
    (hsigned : SignedBy reading post s.held order.account)
    (hrow : ∃ o ∈ s.store.orders.rows, o.id = order.id ∧ OrderKeeps order o) :
    Does reading (.client (.finalise id) post) (fun _ _ => True)
      (issueFor rules fromDer describeName describeKey issuer order csr accountKey) s := by
  apply Does.bind (Q := fun issued _ => ∀ name,
    name ∈ issued.2.sans ∨ issued.2.commonName = some name →
      name ∈ order.identifiers.map toAsciiLowercase)
  · apply Does.look
    intro t moment issued _ hissue _ _
    exact issue_names (mapError_eq_ok.mp hissue)
  intro issued t hst hnames
  obtain ⟨leaf, issued⟩ := issued
  apply Does.transact
  intro u moment store a htu hrecord
  obtain ⟨⟨store', recorded⟩, hkept, heq⟩ := map_eq_ok.mp hrecord
  cases heq
  have hsigned' : SignedBy reading post (u.withStore store).held order.account :=
    (SignedBy.mono hsigned (hst.trans htu).held).mono fun _ => List.mem_append_left _
  obtain ⟨o, ho, hoid, hkeeps⟩ := hrow
  obtain ⟨placed, hmem, hplacedId, hkeeps', -⟩ := (hst.trans htu).within.orders.kept o ho
  have hof : placed.account = order.account := hkeeps'.1.trans hkeeps.1
  have hplaced : Placed u.store order.account order.id := ⟨placed, hmem, hplacedId.trans hoid, hof⟩
  refine ⟨Within.recordCertificate (hplaced.within hsigned') ?_ hkept,
    Proper.recordCertificate ?_ hkept, fun _ _ => trivial⟩
  · obtain ⟨row, hrow, hid, haccount, hrevoked⟩ := recordCertificate_account hkept
    have hsame : row = placed :=
      Table.eq_of_key hrow hmem (hid.trans (hplacedId.trans hoid).symm)
    refine ⟨?_, hrevoked⟩
    rw [haccount, hsame, hof]
    exact hsigned'
  · intro row hrow hid
    have hsame : row = placed :=
      Table.eq_of_key hrow hmem (hid.trans (hplacedId.trans hoid).symm)
    rw [hsame, hkeeps'.2, hkeeps.2]
    exact hnames

theorem Does.finalise {rules : NameRules} {fromDer : List UInt8 → Except String Csr}
    {describeName : SubjectAltName → String} {describeKey : KeyDescription → String}
    {id : Int} (hkeyed : Keyed s) :
    Does reading (.client (.finalise id) post) (Shows reading (.client (.finalise id) post))
      (finalise reading rules fromDer describeName describeKey id post) s := by
  apply Does.bind (Does.byAccount hkeyed)
  intro r t _ hsigned
  obtain ⟨account, key, payload⟩ := r
  apply Does.bind Does.orderOf
  intro r u htu hr
  obtain ⟨order, ids⟩ := r
  obtain ⟨hid, haccount, hrow, -⟩ := hr
  dsimp only at hid haccount hrow ⊢
  split
  · exact Does.throw
  · apply Does.bind Does.parse
    intro request v huv _
    apply Does.bind Does.check
    intro csr w hvw _
    apply Does.bind Does.issuing
    intro issuer x hwx _
    have hux : Rely u x := huv.trans (hvw.trans hwx)
    have hsigned' : SignedBy reading post x.held account.id :=
      SignedBy.mono hsigned (htu.trans hux).held
    have hrow' : ∃ o ∈ x.store.orders.rows, o.id = order.id ∧ OrderKeeps order o := by
      obtain ⟨o, ho, hoid, hkeeps⟩ := hrow
      obtain ⟨o', ho', hoid', hkeeps', -⟩ := hux.within.orders.kept o ho
      exact ⟨o', ho', hoid'.trans (hoid.trans hid.symm), hkeeps'.1.trans hkeeps.1,
        hkeeps'.2.trans hkeeps.2⟩
    apply Does.bind (Does.issueFor (by rw [haccount]; exact hsigned') hrow')
    intro _ y hxy _
    apply Does.bind Does.orderOf
    intro r z hyz hown
    exact Does.showOrder (SignedBy.mono hsigned' (hxy.trans hyz).held) hown.2

theorem Does.authorisation {id : Int} (hkeyed : Keyed s) :
    Does reading (.client (.authorisation id) post)
      (Shows reading (.client (.authorisation id) post)) (authorisation reading id post) s := by
  apply Does.bind (Does.byAccount hkeyed)
  intro r t _ hsigned
  obtain ⟨account, key, payload⟩ := r
  apply Does.bind Does.authorisationOf
  intro r u htu hown
  have hshown {v w : Shared} {r : Authorisation × List Challenge} (hv : Rely t v)
      (hown : OwnAuthorisation account.id id r v) (hvw : Rely v w) :
      Shows reading (.client (.authorisation id) post) (.authorisation r.1 r.2) w := by
    have hown := hown.rely hvw
    refine ⟨account.id, SignedBy.mono hsigned (hv.trans hvw).held, ?_, hown.challenges⟩
    rw [hown.id_eq]
    exact hown.authorisationOf
  obtain ⟨authorisation, challenges⟩ := r
  dsimp only
  split
  · exact Does.pure fun _ huw => hshown htu hown huw
  · apply Does.bind Does.parse
    intro status v huv _
    split
    · exact Does.throw
    · apply Does.bind (Q := fun _ _ => True)
      · apply Does.transact
        intro w moment store a hvw hset
        obtain ⟨store', hmoved, heq⟩ := map_eq_ok.mp hset
        cases heq
        have huw : Rely u w := huv.trans hvw
        refine ⟨Within.setAuthorisationStatus ?_ hmoved,
          Proper.setAuthorisationStatus (by decide) hmoved, fun _ _ => trivial⟩
        refine AuthorisationOf.within (huw.within.authorisationOf hown.authorisationOf) ?_
        exact (SignedBy.mono hsigned (htu.trans huw).held).mono fun _ => List.mem_append_left _
      · intro _ w hvw _
        apply Does.bind Does.authorisationOf
        intro r x hwx hown'
        obtain ⟨authorisation, challenges⟩ := r
        have htx : Rely t x := htu.trans (huv.trans (hvw.trans hwx))
        exact Does.pure fun _ hxy => hshown htx hown' hxy

/-- The challenge is validated for the account that answers it. -/
theorem Does.validateInBackground {route : Route} {validation : Validation} {account : Int}
    (hacts : Acts reading (.client route post) s.held account) (hasked : Asked s validation)
    (hof : ChallengeOf s.store account validation.challenge) :
    Does reading (.client route post) (fun _ _ => True) (validateInBackground validation) s := by
  apply Yields.attempt
  intro t moment hst
  refine ⟨?_, fun _ _ _ _ => trivial⟩
  refine { Guarantee.refl t with rely := Rely.of_eq rfl rfl, validating := ?_ }
  intro v hv
  rcases List.mem_append.mp hv with hold | hnew
  · exact .inl hold
  · rw [List.mem_singleton.mp hnew]
    exact .inr ⟨(hasked.rely hst).rely (Rely.of_eq rfl rfl), account, hacts.mono hst.held,
      hst.within.challengeOf hof⟩

/-- What a look-up of a challenge gives, before it is known whose it is. -/
def Kept (challenge : Challenge) (s : Shared) : Prop :=
  ∃ c ∈ s.store.challenges.rows, c.id = challenge.id ∧ ChallengeKeeps challenge c

theorem Kept.rely {challenge : Challenge} (h : Kept challenge s) (hst : Rely s t) :
    Kept challenge t := by
  obtain ⟨c, hc, hid, hof, hkind, htoken⟩ := h
  obtain ⟨c', hc', hid', hkeeps, -⟩ := hst.within.challenges.kept c hc
  exact ⟨c', hc', hid'.trans hid, hkeeps.1.trans hof, hkeeps.2.1.trans hkind,
    hkeeps.2.2.trans htoken⟩

theorem Kept.challengeOf {challenge : Challenge} {account : Int} (h : Kept challenge s)
    (hof : AuthorisationOf s.store account challenge.authorisation) :
    ChallengeOf s.store account challenge.id := by
  obtain ⟨c, hc, hid, hsame, -⟩ := h
  exact ⟨c, hc, hid, hsame ▸ hof⟩

/-- A challenge of an authorisation that is the account's asks for a validation by its key. -/
theorem Kept.asked {challenge : Challenge} {account : Account}
    {r : Authorisation × List Challenge} (h : Kept challenge s)
    (hown : OwnAuthorisation account.id challenge.authorisation r s)
    (hheld : heldKey account ∈ s.held) :
    Asked s ⟨challenge.id, challenge.kind, r.1.identifier,
      challenge.token ++ "." ++ account.thumbprint⟩ := by
  obtain ⟨c, hc, hid, hof, hkind, htoken⟩ := h
  obtain ⟨x, hx, hxid, hkeeps, hplaced⟩ := hown.row
  refine ⟨c, hc, hid, hkind, x, hx, hxid.trans hof.symm, hkeeps.2.1, heldKey account, hheld,
    hplaced, ?_⟩
  rw [htoken]
  rfl

theorem Does.challengeRow {id : Int} :
    Does reading caller (fun row t => ∀ c ∈ row, c.id = id ∧ Kept c t)
      (Handlers.query fun store => store.challenges.get? id) s := by
  apply Does.query
  intro t _ u htu c hc
  obtain ⟨hmem, hid⟩ := Table.get?_eq_some.mp hc
  have hkept : Kept c t := ⟨c, hmem, rfl, ChallengeKeeps.refl c⟩
  exact ⟨hid, hkept.rely htu⟩

theorem Does.challenge {id : Int} (hkeyed : Keyed s) :
    Does reading (.client (.challenge id) post) (Shows reading (.client (.challenge id) post))
      (challenge reading id post) s := by
  apply Does.bind (Does.byAccountKey hkeyed)
  intro r t _ hby
  obtain ⟨account, key, payload⟩ := r
  obtain ⟨hsigned, hheld⟩ := hby
  apply Does.bind Does.challengeRow
  intro row u htu hrow
  apply Does.bind Does.found
  intro challenge v huv hfound
  obtain ⟨hid, hkept⟩ := hrow challenge hfound
  apply Does.bind Does.authorisationOf
  intro r w hvw hown
  obtain ⟨authorisation, challenges⟩ := r
  have hkept := hkept.rely (huv.trans hvw)
  have hof : ChallengeOf w.store account.id id := by
    rw [← hid]
    exact hkept.challengeOf hown.authorisationOf
  have hasked := hkept.asked hown ((htu.trans (huv.trans hvw)).held _ hheld)
  rw [hid] at hasked
  have hacts {x : Shared} (hwx : Rely w x) :
      Acts reading (.client (.challenge id) post) x.held account.id :=
    SignedBy.mono hsigned (htu.trans (huv.trans (hvw.trans hwx))).held
  have hshown {x y : Shared} {c : Challenge} (hcid : c.id = id) (hwx : Rely w x)
      (hxy : Rely x y) : Shows reading (.client (.challenge id) post) (.challenge c) y := by
    refine ⟨account.id, hacts (hwx.trans hxy), ?_⟩
    rw [hcid]
    exact (hwx.trans hxy).within.challengeOf hof
  dsimp only
  split
  · exact Does.pure fun _ hwx => hshown hid (Rely.refl w) hwx
  · apply Does.bind Does.parse
    intro _ x hwx _
    apply Does.bind (Q := fun _ _ => True)
    · apply Does.transact
      intro y moment store a hxy hset
      obtain ⟨store', hmoved, heq⟩ := map_eq_ok.mp hset
      cases heq
      have hwy : Rely w y := hwx.trans hxy
      refine ⟨Within.setChallengeStatus ?_ hmoved,
        Proper.setChallengeStatus (by decide) hmoved, fun _ _ => trivial⟩
      refine ChallengeOf.within (hwy.within.challengeOf hof) ?_
      exact (hacts hwy).mono fun _ => List.mem_append_left _
    · intro _ y hxy _
      have hwy : Rely w y := hwx.trans hxy
      apply Does.bind (Does.validateInBackground (hacts hwy) (hasked.rely hwy)
        (hwy.within.challengeOf hof))
      intro _ z hyz _
      apply Does.bind Does.challengeRow
      intro row z' hz hrow
      apply Does.bind Does.found
      intro challenge z'' hz' hfound
      have hwz : Rely w z'' := hwy.trans (hyz.trans (hz.trans hz'))
      exact Does.pure fun _ hz => hshown (hrow challenge hfound).1 hwz hz

theorem Does.certificate {id : Int} (hkeyed : Keyed s) :
    Does reading (.client (.certificate id) post)
      (Shows reading (.client (.certificate id) post)) (certificate reading id post) s := by
  apply Does.bind (Does.byAccount hkeyed)
  intro r t _ hsigned
  obtain ⟨account, key, payload⟩ := r
  apply Does.bind Does.asGet
  intro _ u htu _
  apply Does.bind (Q := fun row v => ∀ c ∈ row, ∃ c' ∈ v.store.certificates.rows,
    c'.chainPem = c.chainPem ∧ c'.account = c.account)
  · apply Does.query
    intro v _ w hvw c hc
    have hmem := List.mem_of_find?_eq_some hc
    obtain ⟨c', hc', -, hkeeps, -⟩ := hvw.within.certificates.kept c hmem
    refine ⟨c', hc', ?_, hkeeps.account⟩
    rw [hkeeps.1]
  · intro row v huv hrow
    apply Does.bind Does.found
    intro certificate w hvw hfound
    obtain ⟨c, hc, hpem, hof⟩ := hrow certificate hfound
    apply Does.bind Does.ownedBy
    intro _ x hwx haccount
    apply Does.pure
    intro y hxy
    have hvy : Rely v y := hvw.trans (hwx.trans hxy)
    obtain ⟨c', hc', -, hkeeps, -⟩ := hvy.within.certificates.kept c hc
    refine ⟨account.id, SignedBy.mono hsigned (htu.trans (huv.trans hvy)).held, c', hc', ?_, ?_⟩
    · rw [← hpem, hkeeps.1]
    · rw [hkeeps.account, hof, haccount]

end

end Opca.Acme.Handlers

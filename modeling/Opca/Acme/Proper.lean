/-
  Acme/Proper.lean --- transactions on `acme.db` that are proper: whatever was sound stays
  so, the names of an order have authorisations, and a certificate is recorded for no other
  names than those of an order that is ready (`acme/store.rs`).
-/
import Opca.Acme.Calm
import Opca.Acme.Issue

set_option autoImplicit false

namespace Opca.Acme

open Opca.Foundation

variable {s t : Store}

/-! ## Names and their authorisations -/

/-- The name has an authorisation of the order, for its base and its wildcard. -/
def Covered (s : Store) (order : Int) (name : String) : Prop :=
  ∃ x ∈ s.authorisations.rows, x.order = order ∧ x.identifier = baseOf name ∧
    x.wildcard = (stripPrefix "*." name).isSome

/-- Every name of an order is lower-case and has its authorisation. -/
def Ordered (s : Store) : Prop :=
  ∀ o ∈ s.orders.rows, ∀ name ∈ o.identifiers,
    toAsciiLowercase name = name ∧ Covered s o.id name

theorem Covered.mono {order : Int} {name : String} (h : Covered s order name)
    (hrows : s.authorisations.rows ⊆ t.authorisations.rows) : Covered t order name := by
  obtain ⟨x, hx, hof⟩ := h
  exact ⟨x, hrows hx, hof⟩

theorem Refers.covered (h : Refers s t) {order : Int} {name : String}
    (hs : Covered s order name) : Covered t order name := by
  obtain ⟨x, hx, horder, hidentifier, hwildcard⟩ := hs
  obtain ⟨x', hx', hsame⟩ := exists_of_map_eq h.authorisations.symm hx
  simp only [Prod.mk.injEq] at hsame
  obtain ⟨-, horder', hidentifier', hwildcard'⟩ := hsame
  exact ⟨x', hx', horder'.trans horder, hidentifier'.trans hidentifier,
    hwildcard'.trans hwildcard⟩

theorem Refers.ordered (h : Refers s t) (hs : Ordered s) : Ordered t := by
  intro o ho name hname
  obtain ⟨old, hold, hsame⟩ := exists_of_map_eq h.orders ho
  simp only [Prod.mk.injEq] at hsame
  obtain ⟨hid, -, hidentifiers⟩ := hsame
  rw [← hidentifiers] at hname
  obtain ⟨hlower, hcovered⟩ := hs old hold name hname
  rw [hid] at hcovered
  exact ⟨hlower, h.covered hcovered⟩

/-! ## What is proper -/

/-- The certificate is valid for the name. -/
def Certificate.Names (c : Certificate) (name : String) : Prop :=
  name ∈ c.sans ∨ c.commonName = some name

/-- An order of the certificate's account is ready for it, and has all of its names. -/
def Issuable (s : Store) (c : Certificate) : Prop :=
  ∃ o ∈ s.orders.rows, o.id = c.order ∧ o.account = c.account ∧
    (o.status = .ready ∨ o.status = .processing) ∧
    ∀ name, c.Names name → name ∈ o.identifiers.map toAsciiLowercase

/-- The certificate was recorded before, for the same names. -/
def RecordedIn (s : Store) (c : Certificate) : Prop :=
  ∃ c' ∈ s.certificates.rows, c'.order = c.order ∧ c'.account = c.account ∧
    ∀ name, c.Names name → c'.Names name

structure Proper (s t : Store) : Prop where
  sound : ∀ accepted, Sound accepted s → ReadySound s → Sound accepted t ∧ ReadySound t
  ordered : Ordered s → Ordered t
  issued : ∀ c ∈ t.certificates.rows, RecordedIn s c ∨ Issuable s c

theorem recordedIn_of_mem {c : Certificate} (h : c ∈ s.certificates.rows) : RecordedIn s c :=
  ⟨c, h, rfl, rfl, fun _ hname => hname⟩

namespace Proper

theorem refl (s : Store) : Proper s s where
  sound _ hs hready := ⟨hs, hready⟩
  ordered h := h
  issued _ hc := .inl (recordedIn_of_mem hc)

/-- What changes statuses at most, as far as that is sound. -/
theorem of_refers (h : Refers s t) (hcertificates : t.certificates = s.certificates)
    (hsound : ∀ accepted, Sound accepted s → ReadySound s → Sound accepted t ∧ ReadySound t) :
    Proper s t where
  sound := hsound
  ordered := h.ordered
  issued c hc := by
    rw [hcertificates] at hc
    exact .inl (recordedIn_of_mem hc)

/-! ### Accounts -/

theorem of_accounts {accounts : Table Account Account.id} : Proper s { s with accounts } where
  sound _ hs hready := ⟨{ hs with }, hready⟩
  ordered h := h
  issued _ hc := .inl (recordedIn_of_mem hc)

theorem changeKey {id : Int} {jwk thumbprint : String}
    (hs : s.changeKey id jwk thumbprint = .ok t) : Proper s t := by
  unfold Store.changeKey at hs
  split at hs
  · cases hs
  · cases hs
    exact of_accounts

theorem setAccountStatus {id : Int} {next : AccountStatus}
    (hs : s.setAccountStatus id next = .ok t) : Proper s t := by
  obtain ⟨accounts, -, hs⟩ := bind_eq_ok.mp hs
  cases hs
  exact of_accounts

theorem createAccount (jwk thumbprint : String) (contacts : List String) (now : Time) :
    Proper s (s.createAccount jwk thumbprint contacts now).1 := by
  obtain ⟨accounts, hmade⟩ := createAccount_frame s jwk thumbprint contacts now
  rw [hmade]
  exact of_accounts

/-! ### Statuses -/

theorem setAuthorisationStatus {id : Int} {next : AuthorisationStatus} (hnext : next ≠ .valid)
    (hs : s.setAuthorisationStatus id next = .ok t) : Proper s t :=
  of_refers (Refers.setAuthorisationStatus hs).1 (setAuthorisationStatus_certificates hs)
    fun _ hsound hready => hsound.setAuthorisationStatus hready hnext hs

/-- A challenge that is not yet decided. -/
theorem setChallengeStatus {id : Int} {next : ChallengeStatus} {error : Option Problem}
    {now : Time} (hnext : next ≠ .valid) (hs : s.setChallengeStatus id next error now = .ok t) :
    Proper s t :=
  of_refers (setChallengeStatus_moves hs).1 (setChallengeStatus_certificates hs)
    fun _ hsound hready => hsound.setChallengeStatus hready (fun h => absurd h hnext) hs

theorem expireStale (now : Time) : Proper s (s.expireStale now).1 :=
  of_refers (Refers.expireStale now) rfl fun _ hsound hready => hsound.expireStale hready now

/-! ### New orders -/

theorem addChallenges_authorisations {authorisation : Int} {kinds : List ChallengeType} :
    ∀ {tokens rest : List String} {s t : Store},
      s.addChallenges authorisation kinds tokens = .ok (t, rest) →
      t.authorisations = s.authorisations ∧ t.orders = s.orders := by
  induction kinds with
  | nil =>
    intro tokens rest s t hadd
    cases hadd
    exact ⟨rfl, rfl⟩
  | cons kind kinds ih =>
    intro tokens rest s t hadd
    cases tokens with
    | nil => cases hadd
    | cons token tokens =>
      unfold Store.addChallenges at hadd
      split at hadd
      · cases hadd
      · dsimp only at hadd
        obtain ⟨hauthorisations, horders⟩ := ih hadd
        exact ⟨hauthorisations, horders⟩

/-- Every one of the new authorisations is there, and the old ones are. -/
theorem addAuthorisations_there {order : Int} {news : List NewAuthorisation} :
    ∀ {tokens rest : List String} {s t : Store},
      s.addAuthorisations order news tokens = .ok (t, rest) →
      t.orders = s.orders ∧ s.authorisations.rows ⊆ t.authorisations.rows ∧
        ∀ new ∈ news, ∃ x ∈ t.authorisations.rows, x.order = order ∧
          x.identifier = new.identifier ∧ x.wildcard = new.wildcard := by
  induction news with
  | nil =>
    intro tokens rest s t hadd
    cases hadd
    exact ⟨rfl, List.Subset.refl _, by simp⟩
  | cons new news ih =>
    intro tokens rest s t hadd
    unfold Store.addAuthorisations at hadd
    obtain ⟨⟨s', tokens'⟩, hchallenges, hadd⟩ := bind_eq_ok.mp hadd
    obtain ⟨hmade, horders⟩ := addChallenges_authorisations hchallenges
    obtain ⟨horders', hkept, hnews⟩ := ih hadd
    rw [hmade, Table.rows_insert] at hkept
    refine ⟨horders'.trans horders, ?_, ?_⟩
    · exact List.Subset.trans (List.subset_append_left _ _) hkept
    · intro a ha
      rcases List.mem_cons.mp ha with rfl | hrest
      · exact ⟨_, hkept (List.mem_append_right _ (List.mem_singleton_self _)), rfl, rfl, rfl⟩
      · exact hnews a hrest

/-- A new order whose names are lower-case, each with an authorisation, dns-01 alone for a
wildcard's. -/
structure WellOrdered (new : NewOrder) : Prop where
  named : ∀ name ∈ new.identifiers, toAsciiLowercase name = name ∧
    ∃ a ∈ new.authorisations, a.identifier = baseOf name ∧
      a.wildcard = (stripPrefix "*." name).isSome
  wildcards : ∀ a ∈ new.authorisations, a.wildcard = true →
    ∀ kind ∈ a.challenges, kind = .dns01

theorem wellOrdered_of_names {rules : NameRules} {identifiers : List Identifier}
    {permitted : List String} {offered : List ChallengeType} {expires : Time} {new : NewOrder}
    (hnames : names rules identifiers permitted = .ok new.identifiers)
    (hnew : new.identifiers.mapM (authorisationFor · offered expires) = .ok new.authorisations) :
    WellOrdered new where
  named := by
    intro name hname
    refine ⟨(checkIdentifier_ok (checkIdentifier_of_mem_names hnames hname)).1, ?_⟩
    obtain ⟨a, ha, hof⟩ := exists_of_mem_of_mapM hnew name hname
    refine ⟨a, ha, ?_⟩
    unfold authorisationFor at hof
    dsimp only at hof
    split at hof
    · cases hof
    · cases hof
      exact ⟨rfl, rfl⟩
  wildcards := by
    intro a ha hwildcard
    obtain ⟨name, -, hof⟩ := exists_of_mem_mapM hnew a ha
    exact dns01_of_authorisationFor hof hwildcard

theorem createOrder {new : NewOrder} {now : Time} {tokens : List String} {id : Int}
    (hnew : WellOrdered new) (hs : s.createOrder new now tokens = .ok (t, id)) : Proper s t where
  sound _ hsound hready := hsound.createOrder hready hnew.wildcards hs
  ordered := by
    intro hordered
    unfold Store.createOrder at hs
    split at hs
    · cases hs
    obtain ⟨⟨s', rest⟩, hadd, hs⟩ := bind_eq_ok.mp hs
    cases hs
    obtain ⟨horders, hkept, hnews⟩ := addAuthorisations_there hadd
    intro o ho name hname
    rw [horders, Table.rows_insert] at ho
    rcases List.mem_append.mp ho with hold | hmade
    · obtain ⟨hlower, hcovered⟩ := hordered o hold name hname
      exact ⟨hlower, hcovered.mono hkept⟩
    · rw [List.mem_singleton.mp hmade] at hname ⊢
      obtain ⟨hlower, a, ha, hidentifier, hwildcard⟩ := hnew.named name hname
      obtain ⟨x, hx, horder, hx'⟩ := hnews a ha
      exact ⟨hlower, x, hx, horder, hx'.1.trans hidentifier, hx'.2.trans hwildcard⟩
  issued c hc := by
    rw [createOrder_certificates hs] at hc
    exact .inl (recordedIn_of_mem hc)

/-! ### Certificates -/

end Proper

/-- A certificate is recorded for its order's account. -/
theorem recordCertificate_account {id : Int} {issued : NewCertificate}
    {now : Time} {recorded : Certificate}
    (hs : s.recordCertificate id issued now = .ok (t, recorded)) :
    ∃ o ∈ s.orders.rows, o.id = id ∧ recorded.account = o.account ∧
      recorded.revokedAt = none := by
  obtain ⟨begun, hbegin, hs⟩ := bind_eq_ok.mp hs
  obtain ⟨moved, hmove, hs⟩ := bind_eq_ok.mp hs
  obtain ⟨order, hget, hs⟩ := bind_eq_ok.mp hs
  obtain ⟨checked, -, hs⟩ := bind_eq_ok.mp hs
  dsimp only at hs
  split at hs
  · cases hs
  cases hs
  obtain ⟨hmem, hid⟩ := Table.get?_eq_some.mp (elim_eq_ok hget)
  obtain ⟨-, rfl⟩ := transition_ok hmove
  obtain ⟨row, hrow, hrowSame⟩ := exists_of_mem_updateWhere
    (fun o : Order => (o.id, o.account)) hmem fun _ => rfl
  obtain ⟨hrowId, hrowAccount⟩ := Prod.mk.inj hrowSame
  rcases beginProcessing_ok hbegin with rfl | ⟨o, -, -, -, rfl⟩
  · exact ⟨row, hrow, hrowId.trans hid, hrowAccount.symm, rfl⟩
  · obtain ⟨old, hold, holdSame⟩ := exists_of_mem_updateWhere
      (fun o : Order => (o.id, o.account)) hrow fun _ => rfl
    obtain ⟨holdId, holdAccount⟩ := Prod.mk.inj holdSame
    exact ⟨old, hold, holdId.trans (hrowId.trans hid), (holdAccount.trans hrowAccount).symm, rfl⟩

/-- What a certificate is issued for, its order names. -/
theorem issue_names {rules : NameRules} {signing : Signing} {issuer : Issuer} {order : Order}
    {csrDer accountKey : List UInt8} {now : Time} {leaf : Leaf} {issued : NewCertificate}
    (h : issuer.issue rules signing order csrDer accountKey now = .ok (leaf, issued)) :
    ∀ name, name ∈ issued.sans ∨ issued.commonName = some name →
      name ∈ order.identifiers.map toAsciiLowercase := by
  obtain ⟨csr, -, h⟩ := bind_eq_ok.mp h
  split at h
  · cases h
  obtain ⟨-, -, h⟩ := bind_eq_ok.mp h
  obtain ⟨found, hfound, h⟩ := bind_eq_ok.mp h
  dsimp only at h
  split at h
  · cases h
  next hsame =>
    rw [ne_eq, not_not] at hsame
    obtain ⟨validity, -, h⟩ := bind_eq_ok.mp h
    obtain ⟨⟨serial, pem⟩, -, h⟩ := bind_eq_ok.mp h
    cases h
    have hfoundNames : ∀ name ∈ found, name ∈ order.identifiers.map toAsciiLowercase := by
      intro name hname
      rw [hsame] at hname
      exact mem_btreeSet.mp hname
    intro name hname
    rcases hname with hsan | hcommon
    · exact hfoundNames name hsan
    · obtain ⟨-, hmem, -⟩ := requestedNames_ok hfound
      exact hfoundNames name ((hmem name).mpr (leafCommonName_mem hcommon))

namespace Proper

/-- A certificate for the order's own names. -/
theorem recordCertificate {orderId : Int} {issued : NewCertificate} {now : Time}
    {recorded : Certificate}
    (hnames : ∀ o ∈ s.orders.rows, o.id = orderId → ∀ name,
      name ∈ issued.sans ∨ issued.commonName = some name →
        name ∈ o.identifiers.map toAsciiLowercase)
    (hs : s.recordCertificate orderId issued now = .ok (t, recorded)) : Proper s t where
  sound _ hsound hready := (hsound.recordCertificate hready hs).2
  ordered := (Refers.recordCertificate hs).1.ordered
  issued := by
    obtain ⟨⟨o, ho, hid, hstatus, o', ho', hrecorded⟩, -, -, hrows, -⟩ := recordCertificate_ok hs
    obtain ⟨row, hrow, hrowId, haccount, -⟩ := recordCertificate_account hs
    have hsame : row = o := Table.eq_of_key hrow ho (hrowId.trans hid.symm)
    intro c hc
    rw [hrows] at hc
    rcases List.mem_append.mp hc with hold | hnew
    · exact .inl (recordedIn_of_mem hold)
    · rw [List.mem_singleton.mp hnew]
      refine .inr ⟨o, ho, ?_, ?_, hstatus, ?_⟩
      · rw [hrecorded, hid]
        exact ho'.symm
      · rw [haccount, hsame]
      · intro name hname
        rw [hrecorded] at hname
        exact hnames o ho hid name hname

theorem revoke {serial : String} {reason : Option Nat} {now : Time} {revoked : Certificate}
    (hs : s.revoke serial reason now = .ok (t, revoked)) : Proper s t where
  sound _ hsound hready := hsound.revoke hready hs
  ordered := (Refers.revoke hs).1.ordered
  issued := by
    obtain ⟨-, -, hrows, -⟩ := revoke_ok hs
    intro c hc
    rw [hrows] at hc
    obtain ⟨old, hold, hsame⟩ := exists_of_mem_updateWhere
      (fun c => (c.order, c.account, c.sans, c.commonName)) hc fun _ => rfl
    simp only [Prod.mk.injEq] at hsame
    obtain ⟨horder, haccount, hsans, hcommon⟩ := hsame
    refine .inl ⟨old, hold, horder, haccount, ?_⟩
    intro name hname
    rw [Certificate.Names, hsans, hcommon]
    exact hname

end Proper

end Opca.Acme

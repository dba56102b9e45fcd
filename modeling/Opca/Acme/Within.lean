/-
  Acme/Within.lean --- which accounts' rows each transaction on `acme.db` may change
  (`acme/store.rs`): an account's own row, its orders, their authorisations and these's
  challenges, and its certificates; whose a row is never changes.
-/
import Opca.Acme.Sound
import Opca.Foundation.Portion

set_option autoImplicit false

namespace Opca.Acme

open Opca.Foundation

/-! ## Whose a row is -/

section Owners

/-- Every order with this id is of an account that meets `P`. -/
def OrderWithin (P : Int → Prop) (s : Store) (id : Int) : Prop :=
  ∀ o ∈ s.orders.rows, o.id = id → P o.account

def AuthorisationWithin (P : Int → Prop) (s : Store) (id : Int) : Prop :=
  ∀ x ∈ s.authorisations.rows, x.id = id → OrderWithin P s x.order

def ChallengeWithin (P : Int → Prop) (s : Store) (id : Int) : Prop :=
  ∀ c ∈ s.challenges.rows, c.id = id → AuthorisationWithin P s c.authorisation

/-- `account` placed the order. -/
def Placed (s : Store) (account id : Int) : Prop :=
  ∃ o ∈ s.orders.rows, o.id = id ∧ o.account = account

/-- The authorisation is one of `account`'s orders'. -/
def AuthorisationOf (s : Store) (account id : Int) : Prop :=
  ∃ x ∈ s.authorisations.rows, x.id = id ∧ Placed s account x.order

def ChallengeOf (s : Store) (account id : Int) : Prop :=
  ∃ c ∈ s.challenges.rows, c.id = id ∧ AuthorisationOf s account c.authorisation

variable {P P' : Int → Prop} {s : Store} {account id : Int}

theorem OrderWithin.mono (h : OrderWithin P s id) (hP : ∀ a, P a → P' a) :
    OrderWithin P' s id :=
  fun o ho hid => hP o.account (h o ho hid)

theorem AuthorisationWithin.mono (h : AuthorisationWithin P s id) (hP : ∀ a, P a → P' a) :
    AuthorisationWithin P' s id :=
  fun x hx hid => (h x hx hid).mono hP

theorem ChallengeWithin.mono (h : ChallengeWithin P s id) (hP : ∀ a, P a → P' a) :
    ChallengeWithin P' s id :=
  fun c hc hid => (h c hc hid).mono hP

theorem Placed.within (h : Placed s account id) (hP : P account) : OrderWithin P s id := by
  obtain ⟨placed, hplaced, hid, haccount⟩ := h
  intro o ho hoid
  rw [Table.eq_of_key ho hplaced (hoid.trans hid.symm), haccount]
  exact hP

theorem AuthorisationOf.within (h : AuthorisationOf s account id) (hP : P account) :
    AuthorisationWithin P s id := by
  obtain ⟨own, hown, hid, hplaced⟩ := h
  intro x hx hxid
  rw [Table.eq_of_key hx hown (hxid.trans hid.symm)]
  exact hplaced.within hP

theorem ChallengeOf.within (h : ChallengeOf s account id) (hP : P account) :
    ChallengeWithin P s id := by
  obtain ⟨own, hown, hid, hof⟩ := h
  intro c hc hcid
  rw [Table.eq_of_key hc hown (hcid.trans hid.symm)]
  exact hof.within hP

theorem Placed.account_of_within (h : Placed s account id) (hwithin : OrderWithin P s id) :
    P account := by
  obtain ⟨o, ho, hid, rfl⟩ := h
  exact hwithin o ho hid

theorem AuthorisationOf.account_of_within (h : AuthorisationOf s account id)
    (hwithin : AuthorisationWithin P s id) : P account := by
  obtain ⟨x, hx, hid, hplaced⟩ := h
  exact hplaced.account_of_within (hwithin x hx hid)

theorem ChallengeOf.account_of_within (h : ChallengeOf s account id)
    (hwithin : ChallengeWithin P s id) : P account := by
  obtain ⟨c, hc, hid, hof⟩ := h
  exact hof.account_of_within (hwithin c hc hid)

end Owners

/-! ## What a row keeps -/

def AccountKeeps (a a' : Account) : Prop := a'.created = a.created

def OrderKeeps (o o' : Order) : Prop :=
  o'.account = o.account ∧ o'.identifiers = o.identifiers

def AuthorisationKeeps (x x' : Authorisation) : Prop :=
  x'.order = x.order ∧ x'.identifier = x.identifier ∧ x'.wildcard = x.wildcard

def ChallengeKeeps (c c' : Challenge) : Prop :=
  c'.authorisation = c.authorisation ∧ c'.kind = c.kind ∧ c'.token = c.token

/-- All but its revocation, and that too once it is revoked. -/
def CertificateKeeps (c c' : Certificate) : Prop :=
  c' = { c with
    revokedAt := c'.revokedAt, revocationReason := c'.revocationReason,
    changed := c'.changed } ∧
  (c.revokedAt.isSome = true → c' = c)

theorem AccountKeeps.refl (a : Account) : AccountKeeps a a := rfl

theorem OrderKeeps.refl (o : Order) : OrderKeeps o o := ⟨rfl, rfl⟩

theorem AuthorisationKeeps.refl (x : Authorisation) : AuthorisationKeeps x x :=
  ⟨rfl, rfl, rfl⟩

theorem ChallengeKeeps.refl (c : Challenge) : ChallengeKeeps c c := ⟨rfl, rfl, rfl⟩

theorem CertificateKeeps.refl (c : Certificate) : CertificateKeeps c c := ⟨rfl, fun _ => rfl⟩

theorem CertificateKeeps.trans {a b c : Certificate} (h : CertificateKeeps a b)
    (h' : CertificateKeeps b c) : CertificateKeeps a c := by
  obtain ⟨hab, hrevoked⟩ := h
  obtain ⟨hbc, hrevoked'⟩ := h'
  constructor
  · rw [hab] at hbc
    exact hbc
  · intro ha
    have hsame : b = a := hrevoked ha
    rw [hrevoked' (hsame ▸ ha)]
    exact hsame

theorem CertificateKeeps.account {c c' : Certificate} (h : CertificateKeeps c c') :
    c'.account = c.account := by
  rw [h.1]

/-! ## Changes within accounts -/

/-- `t` came of `s` by changes to the rows of accounts that meet `P`, and to the
certificates that meet `C`. -/
structure Within (P : Int → Prop) (C : Certificate → Prop) (s t : Store) : Prop where
  accounts : Portion Account.id AccountKeeps (P ·.id) s.accounts.rows t.accounts.rows
  orders : Portion Order.id OrderKeeps (P ·.account) s.orders.rows t.orders.rows
  authorisations : Portion Authorisation.id AuthorisationKeeps (OrderWithin P t ·.order)
    s.authorisations.rows t.authorisations.rows
  challenges : Portion Challenge.id ChallengeKeeps (AuthorisationWithin P t ·.authorisation)
    s.challenges.rows t.challenges.rows
  certificates : Portion Certificate.id CertificateKeeps C
    s.certificates.rows t.certificates.rows

variable {P P' : Int → Prop} {C C' : Certificate → Prop} {s t u : Store}

namespace Within

theorem refl (s : Store) : Within P C s s where
  accounts := Portion.refl AccountKeeps.refl _
  orders := Portion.refl OrderKeeps.refl _
  authorisations := Portion.refl AuthorisationKeeps.refl _
  challenges := Portion.refl ChallengeKeeps.refl _
  certificates := Portion.refl CertificateKeeps.refl _

theorem mono (h : Within P C s t) (hP : ∀ a, P a → P' a)
    (hC : ∀ c ∈ t.certificates.rows, C c → C' c) : Within P' C' s t where
  accounts := h.accounts.mono fun a _ => hP a.id
  orders := h.orders.mono fun o _ => hP o.account
  authorisations := h.authorisations.mono fun _ _ hx => hx.mono hP
  challenges := h.challenges.mono fun _ _ hc => hc.mono hP
  certificates := h.certificates.mono hC

/-- Whose an order is does not change; one that is new is a `P`'s. -/
theorem orderWithin (h : Within P C s t) {id : Int} (hs : OrderWithin P s id) :
    OrderWithin P t id := by
  intro o ho hid
  rcases h.orders.fresh o ho with ⟨old, hold, hkey⟩ | hmine
  · obtain ⟨last, hlast, hkey', ⟨haccount, -⟩, -⟩ := h.orders.kept old hold
    have hsame : last = o := Table.eq_of_key hlast ho (hkey'.trans hkey)
    rw [← hsame, haccount]
    exact hs old hold (hkey.trans hid)
  · exact hmine

theorem authorisationWithin (h : Within P C s t) {id : Int} (hs : AuthorisationWithin P s id) :
    AuthorisationWithin P t id := by
  intro x hx hid
  rcases h.authorisations.fresh x hx with ⟨old, hold, hkey⟩ | hmine
  · obtain ⟨last, hlast, hkey', ⟨horder, -⟩, -⟩ := h.authorisations.kept old hold
    have hsame : last = x := Table.eq_of_key hlast hx (hkey'.trans hkey)
    rw [← hsame, horder]
    exact h.orderWithin (hs old hold (hkey.trans hid))
  · exact hmine

theorem trans (h : Within P C s t) (h' : Within P C t u) : Within P C s u where
  accounts := h.accounts.trans (fun _ _ _ hab hbc => hbc.trans hab) u.accounts.keys_nodup
    h'.accounts
  orders := h.orders.trans (fun _ _ _ hab hbc => ⟨hbc.1.trans hab.1, hbc.2.trans hab.2⟩)
    u.orders.keys_nodup h'.orders
  authorisations := (h.authorisations.mono fun _ _ hx => h'.orderWithin hx).trans
    (fun _ _ _ hab hbc => ⟨hbc.1.trans hab.1, hbc.2.1.trans hab.2.1, hbc.2.2.trans hab.2.2⟩)
    u.authorisations.keys_nodup h'.authorisations
  challenges := (h.challenges.mono fun _ _ hc => h'.authorisationWithin hc).trans
    (fun _ _ _ hab hbc => ⟨hbc.1.trans hab.1, hbc.2.1.trans hab.2.1, hbc.2.2.trans hab.2.2⟩)
    u.challenges.keys_nodup h'.challenges
  certificates := h.certificates.trans (fun _ _ _ => CertificateKeeps.trans)
    u.certificates.unique.ids h'.certificates

theorem placed (h : Within P C s t) {account id : Int} (hs : Placed s account id) :
    Placed t account id := by
  obtain ⟨o, ho, hid, haccount⟩ := hs
  obtain ⟨o', ho', hkey, ⟨hsame, -⟩, -⟩ := h.orders.kept o ho
  exact ⟨o', ho', hkey.trans hid, hsame.trans haccount⟩

theorem authorisationOf (h : Within P C s t) {account id : Int}
    (hs : AuthorisationOf s account id) : AuthorisationOf t account id := by
  obtain ⟨x, hx, hid, hplaced⟩ := hs
  obtain ⟨x', hx', hkey, ⟨hsame, -⟩, -⟩ := h.authorisations.kept x hx
  refine ⟨x', hx', hkey.trans hid, ?_⟩
  rw [hsame]
  exact h.placed hplaced

theorem challengeOf (h : Within P C s t) {account id : Int} (hs : ChallengeOf s account id) :
    ChallengeOf t account id := by
  obtain ⟨c, hc, hid, hof⟩ := hs
  obtain ⟨c', hc', hkey, ⟨hsame, -⟩, -⟩ := h.challenges.kept c hc
  refine ⟨c', hc', hkey.trans hid, ?_⟩
  rw [hsame]
  exact h.authorisationOf hof

/-! ### What is left of the others -/

theorem mem_accounts_iff (h : Within P C s t) {row : Account} (hnot : ¬ P row.id) :
    row ∈ t.accounts.rows ↔ row ∈ s.accounts.rows := by
  constructor
  · intro hrow
    exact h.accounts.mem_of_mem_after t.accounts.keys_nodup hrow hnot
  · intro hrow
    refine h.accounts.mem_of_mem hrow fun row' _ hkey => ?_
    rw [hkey]
    exact hnot

theorem mem_orders_iff (h : Within P C s t) {row : Order} (hnot : ¬ P row.account) :
    row ∈ t.orders.rows ↔ row ∈ s.orders.rows := by
  constructor
  · intro hrow
    exact h.orders.mem_of_mem_after t.orders.keys_nodup hrow hnot
  · intro hrow
    refine h.orders.mem_of_mem hrow fun row' hkeeps _ => ?_
    rw [hkeeps.1]
    exact hnot

theorem mem_authorisations_iff (h : Within P C s t) {account : Int} (hnot : ¬ P account)
    {row : Authorisation} :
    row ∈ t.authorisations.rows ∧ Placed s account row.order ↔
      row ∈ s.authorisations.rows ∧ Placed s account row.order := by
  refine and_congr_left fun hplaced => ?_
  have hother : ¬ OrderWithin P t row.order :=
    fun hwithin => hnot ((h.placed hplaced).account_of_within hwithin)
  constructor
  · intro hrow
    exact h.authorisations.mem_of_mem_after t.authorisations.keys_nodup hrow hother
  · intro hrow
    refine h.authorisations.mem_of_mem hrow fun row' hkeeps _ => ?_
    rw [hkeeps.1]
    exact hother

theorem mem_challenges_iff (h : Within P C s t) {account : Int} (hnot : ¬ P account)
    {row : Challenge} :
    row ∈ t.challenges.rows ∧ AuthorisationOf s account row.authorisation ↔
      row ∈ s.challenges.rows ∧ AuthorisationOf s account row.authorisation := by
  refine and_congr_left fun hof => ?_
  have hother : ¬ AuthorisationWithin P t row.authorisation :=
    fun hwithin => hnot ((h.authorisationOf hof).account_of_within hwithin)
  constructor
  · intro hrow
    exact h.challenges.mem_of_mem_after t.challenges.keys_nodup hrow hother
  · intro hrow
    refine h.challenges.mem_of_mem hrow fun row' hkeeps _ => ?_
    rw [hkeeps.1]
    exact hother

end Within

/-! ## The transactions -/

/-- A statement on the accounts alone. -/
theorem Within.of_accounts {accounts : Table Account Account.id}
    (h : Portion Account.id AccountKeeps (P ·.id) s.accounts.rows accounts.rows) :
    Within P C s { s with accounts } where
  accounts := h
  orders := Portion.refl OrderKeeps.refl _
  authorisations := Portion.refl AuthorisationKeeps.refl _
  challenges := Portion.refl ChallengeKeeps.refl _
  certificates := Portion.refl CertificateKeeps.refl _

theorem Within.of_orders {orders : Table Order Order.id}
    (h : Portion Order.id OrderKeeps (P ·.account) s.orders.rows orders.rows) :
    Within P C s { s with orders } where
  accounts := Portion.refl AccountKeeps.refl _
  orders := h
  authorisations := Portion.refl AuthorisationKeeps.refl _
  challenges := Portion.refl ChallengeKeeps.refl _
  certificates := Portion.refl CertificateKeeps.refl _

theorem Within.of_authorisations {authorisations : Table Authorisation Authorisation.id}
    (h : Portion Authorisation.id AuthorisationKeeps (OrderWithin P s ·.order)
      s.authorisations.rows authorisations.rows) : Within P C s { s with authorisations } where
  accounts := Portion.refl AccountKeeps.refl _
  orders := Portion.refl OrderKeeps.refl _
  authorisations := h
  challenges := Portion.refl ChallengeKeeps.refl _
  certificates := Portion.refl CertificateKeeps.refl _

theorem Within.of_challenges {challenges : Table Challenge Challenge.id}
    (h : Portion Challenge.id ChallengeKeeps (AuthorisationWithin P s ·.authorisation)
      s.challenges.rows challenges.rows) : Within P C s { s with challenges } where
  accounts := Portion.refl AccountKeeps.refl _
  orders := Portion.refl OrderKeeps.refl _
  authorisations := Portion.refl AuthorisationKeeps.refl _
  challenges := h
  certificates := Portion.refl CertificateKeeps.refl _

theorem Within.of_certificates {certificates : Certificates}
    (h : Portion Certificate.id CertificateKeeps C s.certificates.rows certificates.rows) :
    Within P C s { s with certificates } where
  accounts := Portion.refl AccountKeeps.refl _
  orders := Portion.refl OrderKeeps.refl _
  authorisations := Portion.refl AuthorisationKeeps.refl _
  challenges := Portion.refl ChallengeKeeps.refl _
  certificates := h

theorem Within.setContacts {id : Int} {contacts : List String} (hP : P id) :
    Within P C s (s.setContacts id contacts) := by
  apply Within.of_accounts
  refine Portion.update AccountKeeps.refl (fun _ => rfl) AccountKeeps.refl fun row _ hrow => ?_
  simp only [decide_eq_true_eq] at hrow
  rw [hrow]
  exact hP

theorem Within.changeKey {id : Int} {jwk thumbprint : String} (hP : P id)
    (hs : s.changeKey id jwk thumbprint = .ok t) : Within P C s t := by
  unfold Store.changeKey at hs
  split at hs
  · cases hs
  · cases hs
    apply Within.of_accounts
    refine Portion.update AccountKeeps.refl (fun _ => rfl) AccountKeeps.refl fun row _ hrow => ?_
    simp only [decide_eq_true_eq] at hrow
    rw [hrow]
    exact hP

theorem Within.setAccountStatus {id : Int} {next : AccountStatus} (hP : P id)
    (hs : s.setAccountStatus id next = .ok t) : Within P C s t := by
  obtain ⟨accounts, hmove, hs⟩ := bind_eq_ok.mp hs
  cases hs
  obtain ⟨-, rfl⟩ := transition_ok hmove
  apply Within.of_accounts
  refine Portion.update AccountKeeps.refl (fun _ => rfl) AccountKeeps.refl fun row _ hrow => ?_
  simp only [decide_eq_true_eq] at hrow
  rw [← hrow] at hP
  exact hP

/-- An account is made, of an id that was no one's, or found as it is. -/
theorem Within.createAccount {jwk thumbprint : String} {contacts : List String} {now : Time}
    (hP : ∀ a ∈ (s.createAccount jwk thumbprint contacts now).1.accounts.rows,
      a.thumbprint = thumbprint → P a.id) :
    Within P C s (s.createAccount jwk thumbprint contacts now).1 := by
  unfold Store.createAccount at hP ⊢
  split
  · exact Within.refl s
  next hnone =>
    rw [hnone] at hP
    apply Within.of_accounts
    refine Portion.append AccountKeeps.refl ?_
    exact hP _ (List.mem_append_right _ (List.mem_singleton_self _)) rfl

theorem Within.setOrdersWhere {p : Order → Bool} {status : OrderStatus}
    (hp : ∀ o ∈ s.orders.rows, p o = true → P o.account) :
    Within P C s (s.setOrdersWhere p status) := by
  apply Within.of_orders
  exact Portion.update OrderKeeps.refl (fun _ => rfl) OrderKeeps.refl hp

theorem Within.settleOrderOf {id : Int} (hwithin : AuthorisationWithin P s id)
    (hs : s.settleOrderOf id = .ok t) : Within P C s t := by
  unfold Store.settleOrderOf at hs
  split at hs
  · cases hs
  next a hget =>
    cases hs
    obtain ⟨ha, hid⟩ := Table.get?_eq_some.mp hget
    have hfirst : Within P C s (s.setOrdersWhere
        (fun order => s.orderFailed order && order.id = a.order) .invalid) := by
      apply Within.setOrdersWhere
      intro o ho hpass
      simp only [Bool.and_eq_true, decide_eq_true_eq] at hpass
      exact hwithin a ha hid o ho hpass.2
    refine hfirst.trans (Within.setOrdersWhere ?_)
    intro o ho hpass
    simp only [Bool.and_eq_true, decide_eq_true_eq] at hpass
    exact hfirst.orderWithin (hwithin a ha hid) o ho hpass.1

theorem Within.setAuthorisationStatus {id : Int} {next : AuthorisationStatus}
    (hwithin : AuthorisationWithin P s id) (hs : s.setAuthorisationStatus id next = .ok t) :
    Within P C s t := by
  obtain ⟨authorisations, hmove, hs⟩ := bind_eq_ok.mp hs
  obtain ⟨-, rfl⟩ := transition_ok hmove
  have hfirst : Within P C s { s with
      authorisations := s.authorisations.update (·.id = id) (StatusRow.withStatus next)
        (StatusRow.key_withStatus next) } := by
    apply Within.of_authorisations
    refine Portion.update AuthorisationKeeps.refl (fun _ => rfl) AuthorisationKeeps.refl ?_
    intro x hx hpass
    simp only [decide_eq_true_eq] at hpass
    exact hwithin x hx hpass
  exact hfirst.trans (Within.settleOrderOf (hfirst.authorisationWithin hwithin) hs)

/-- An update of the challenges that leaves whose they are. -/
theorem ChallengeWithin.update {id : Int} (hwithin : ChallengeWithin P s id)
    (p : Challenge → Bool) (f : Challenge → Challenge) (hf : ∀ row, (f row).id = row.id)
    (hkeeps : ∀ c, (f c).authorisation = c.authorisation) :
    ChallengeWithin P { s with challenges := s.challenges.update p f hf } id := by
  intro c hc hid
  obtain ⟨old, hold, rfl⟩ := mem_updateWhere.mp hc
  cases hpass : p old with
  | true =>
    simp only [hpass, if_true, hf] at hid
    simp only [if_true, hkeeps]
    exact hwithin old hold hid
  | false =>
    simp only [hpass, Bool.false_eq_true, if_false] at hid
    exact hwithin old hold hid

theorem AuthorisationWithin.update {id : Int} (hwithin : AuthorisationWithin P s id)
    {p : Authorisation → Bool} {f : Authorisation → Authorisation}
    {hf : ∀ row, (f row).id = row.id} (hkeeps : ∀ x, (f x).order = x.order) :
    AuthorisationWithin P { s with authorisations := s.authorisations.update p f hf } id := by
  intro x hx hid
  obtain ⟨old, hold, rfl⟩ := mem_updateWhere.mp hx
  cases hpass : p old with
  | true =>
    simp only [hpass, if_true, hf] at hid
    simp only [if_true, hkeeps]
    exact hwithin old hold hid
  | false =>
    simp only [hpass, Bool.false_eq_true, if_false] at hid
    exact hwithin old hold hid

/-- An update of one challenge, which stays of whom it is. -/
theorem Within.updateChallenge {id : Int} (hwithin : ChallengeWithin P s id)
    (f : Challenge → Challenge) (hf : ∀ row, (f row).id = row.id)
    (hkeeps : ∀ c, ChallengeKeeps c (f c)) :
    Within P C s { s with challenges := s.challenges.update (·.id = id) f hf } := by
  apply Within.of_challenges
  refine Portion.update ChallengeKeeps.refl hf hkeeps fun c hc hpass => ?_
  rw [(hkeeps c).1]
  exact hwithin c hc (of_decide_eq_true hpass)

/-- A decided challenge changes its own row, its authorisation's and its order's. -/
theorem Within.settleChallenge {id : Int} {decided : AuthorisationStatus} {now : Time}
    (hwithin : ChallengeWithin P s id)
    (hs : Store.setChallengeStatus.settle id now s decided = .ok t) : Within P C s t := by
  unfold Store.setChallengeStatus.settle at hs
  split at hs
  · cases hs
  next challenge hget =>
    obtain ⟨hc, hid⟩ := Table.get?_eq_some.mp hget
    have hauth : AuthorisationWithin P s challenge.authorisation := hwithin challenge hc hid
    have hchallenges : Within P C s { s with
        challenges := s.challenges.update (·.id = id)
          (fun c => { c with validated := if c.status = .valid then some now else none })
          fun _ => rfl } := Within.updateChallenge hwithin _ _ ChallengeKeeps.refl
    refine hchallenges.trans (Within.trans (Within.of_authorisations ?_)
      (Within.settleOrderOf ?_ hs))
    · refine Portion.update AuthorisationKeeps.refl (fun _ => rfl) AuthorisationKeeps.refl ?_
      intro x hx hpass
      simp only [Bool.and_eq_true, decide_eq_true_eq] at hpass
      exact hauth x hx hpass.1
    · exact AuthorisationWithin.update (s := { s with challenges := _ }) hauth fun _ => rfl

theorem Within.setChallengeStatus {id : Int} {next : ChallengeStatus} {error : Option Problem}
    {now : Time} (hwithin : ChallengeWithin P s id)
    (hs : s.setChallengeStatus id next error now = .ok t) : Within P C s t := by
  obtain ⟨challenges, hmove, hs⟩ := bind_eq_ok.mp hs
  obtain ⟨-, rfl⟩ := transition_ok hmove
  have hmoved : ChallengeWithin P { s with
      challenges := s.challenges.update (·.id = id) (StatusRow.withStatus next)
        (StatusRow.key_withStatus next) } id := hwithin.update _ _ _ fun _ => rfl
  have hfirst := (Within.updateChallenge (C := C) hwithin (StatusRow.withStatus next)
    (StatusRow.key_withStatus next) ChallengeKeeps.refl).trans
    (Within.updateChallenge hmoved (fun c => { c with error }) (fun _ => rfl) ChallengeKeeps.refl)
  have hrest := hmoved.update (fun c => decide (c.id = id)) (fun c => { c with error })
    (fun _ => rfl) fun _ => rfl
  cases next with
  | pending =>
    cases hs
    exact hfirst
  | processing =>
    cases hs
    exact hfirst
  | valid => exact hfirst.trans (Within.settleChallenge hrest hs)
  | invalid => exact hfirst.trans (Within.settleChallenge hrest hs)

/-- Whose it all is does not count. -/
theorem Within.expireStale (now : Time) :
    Within (fun _ => True) C s (s.expireStale now).1 := by
  unfold Store.expireStale
  have hanyOrders {q : Store} {p : Order → Bool} {status : OrderStatus} :
      Within (fun _ => True) C q (q.setOrdersWhere p status) :=
    Within.setOrdersWhere fun _ _ _ => trivial
  refine Within.trans (t := { s with authorisations := _ }) ?_ (hanyOrders.trans hanyOrders)
  apply Within.of_authorisations
  exact Portion.update AuthorisationKeeps.refl (fun _ => rfl) AuthorisationKeeps.refl
    fun _ _ _ _ _ _ => trivial

/-! ### New orders -/

theorem Within.addChallenges {authorisation : Int} {kinds : List ChallengeType} :
    ∀ {tokens rest : List String} {s t : Store}, AuthorisationWithin P s authorisation →
      s.addChallenges authorisation kinds tokens = .ok (t, rest) →
      Within P C s t := by
  induction kinds with
  | nil =>
    intro tokens rest s t _ hadd
    cases hadd
    exact Within.refl s
  | cons kind kinds ih =>
    intro tokens rest s t hwithin hadd
    cases tokens with
    | nil => cases hadd
    | cons token tokens =>
      unfold Store.addChallenges at hadd
      split at hadd
      · cases hadd
      · refine Within.trans (Within.of_challenges ?_) (ih ?_ hadd)
        · exact Portion.append ChallengeKeeps.refl hwithin
        · exact hwithin

theorem Within.addAuthorisations {order : Int} {news : List NewAuthorisation} :
    ∀ {tokens rest : List String} {s t : Store}, OrderWithin P s order →
      s.addAuthorisations order news tokens = .ok (t, rest) →
      Within P C s t := by
  induction news with
  | nil =>
    intro tokens rest s t _ hadd
    cases hadd
    exact Within.refl s
  | cons new news ih =>
    intro tokens rest s t hwithin hadd
    unfold Store.addAuthorisations at hadd
    obtain ⟨⟨s', tokens'⟩, hchallenges, hadd⟩ := bind_eq_ok.mp hadd
    have hinsert : Within P C s { s with
        authorisations := s.authorisations.insert
          (fun id => ⟨id, order, new.identifier, new.wildcard, .pending, new.expires⟩)
          fun _ => rfl } := by
      apply Within.of_authorisations
      exact Portion.append AuthorisationKeeps.refl hwithin
    have hmade := hinsert.trans (Within.addChallenges ?_ hchallenges)
    · exact hmade.trans (ih (hmade.orderWithin hwithin) hadd)
    · -- the authorisation just made is the only one with its id
      intro x hx hid
      rcases List.mem_append.mp hx with hold | hnew
      · have hlt : x.id < nextKey Authorisation.id s.authorisations.rows := lt_nextKey hold
        omega
      · rw [List.mem_singleton.mp hnew]
        exact hwithin

theorem Within.createOrder {new : NewOrder} {now : Time} {tokens : List String} {id : Int}
    (hP : P new.account) (hs : s.createOrder new now tokens = .ok (t, id)) :
    Within P C s t := by
  unfold Store.createOrder at hs
  split at hs
  · cases hs
  obtain ⟨⟨s', rest⟩, hadd, hs⟩ := bind_eq_ok.mp hs
  cases hs
  refine Within.trans (Within.of_orders (Portion.append OrderKeeps.refl hP))
    (Within.addAuthorisations ?_ hadd)
  intro o ho hid
  rcases List.mem_append.mp ho with hold | hnew
  · have hlt : o.id < nextKey Order.id s.orders.rows := lt_nextKey hold
    omega
  · rw [List.mem_singleton.mp hnew]
    exact hP

/-! ### Certificates -/

theorem Within.recordCertificate {orderId : Int} {issued : NewCertificate} {now : Time}
    {recorded : Certificate} (hwithin : OrderWithin P s orderId) (hC : C recorded)
    (hs : s.recordCertificate orderId issued now = .ok (t, recorded)) : Within P C s t := by
  obtain ⟨-, -, horders, hcertificates, ht⟩ := recordCertificate_ok hs
  have hfirst : Within P C s { s with orders := t.orders } := by
    apply Within.of_orders
    rw [horders]
    refine Portion.update OrderKeeps.refl (fun _ => rfl) OrderKeeps.refl fun o ho hpass => ?_
    exact hwithin o ho (of_decide_eq_true hpass)
  have hsecond : Within P C { s with orders := t.orders }
      { s with orders := t.orders, certificates := t.certificates } := by
    apply Within.of_certificates
    rw [hcertificates]
    exact Portion.append CertificateKeeps.refl hC
  obtain ⟨accounts, orders, authorisations, challenges, certificates⟩ := hfirst.trans hsecond
  rw [ht]
  exact ⟨accounts, orders, authorisations, challenges, certificates⟩

theorem Within.revoke {serial : String} {reason : Option Nat} {now : Time}
    {revoked : Certificate}
    (hC : ∀ c ∈ s.certificates.rows, c.serial = serial → ∀ changed,
      C { c with revokedAt := some now, revocationReason := reason, changed })
    (hs : s.revoke serial reason now = .ok (t, revoked)) : Within P C s t := by
  obtain ⟨-, -, hrows, ht⟩ := revoke_ok hs
  rw [ht]
  apply Within.of_certificates
  rw [hrows]
  have hmoved (c : Certificate) (hnone : c.revokedAt.isNone = true) : CertificateKeeps c
      { c with revokedAt := some now, revocationReason := reason, changed := s.nextChange } := by
    refine ⟨rfl, fun hsome => ?_⟩
    rw [Option.isNone_iff_eq_none] at hnone
    rw [hnone] at hsome
    cases hsome
  constructor
  · intro c hc
    cases hpass : (c.serial = serial && c.revokedAt.isNone : Bool) with
    | false =>
      exact ⟨c, mem_updateWhere_of_not hc hpass, rfl, CertificateKeeps.refl c, .inr rfl⟩
    | true =>
      refine ⟨_, mem_updateWhere_of hc hpass, rfl, ?_, .inl ?_⟩
      · exact hmoved c (Bool.and_eq_true_iff.mp hpass).2
      · exact hC c hc (of_decide_eq_true (Bool.and_eq_true_iff.mp hpass).1) s.nextChange
  · intro c' hc'
    obtain ⟨c, hc, rfl⟩ := mem_updateWhere.mp hc'
    refine .inl ⟨c, hc, ?_⟩
    split
    · rfl
    · rfl

end Opca.Acme

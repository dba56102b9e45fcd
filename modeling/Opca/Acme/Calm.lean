/-
  Acme/Calm.lean --- what the transactions on `acme.db` leave: the rows that rows refer to,
  and the statuses of challenges that are pending no more (`acme/store.rs`).
-/
import Opca.Acme.Sound
import Opca.Foundation.Portion

set_option autoImplicit false

namespace Opca.Acme

open Opca.Foundation

variable {s t u : Store}

/-! ## References -/

/-- Every row refers to rows that are there. -/
structure Joined (s : Store) : Prop where
  challenges : ∀ c ∈ s.challenges.rows, c.authorisation ∈ s.authorisations.rows.map Authorisation.id
  authorisations : ∀ x ∈ s.authorisations.rows, x.order ∈ s.orders.rows.map Order.id
  orders : ∀ o ∈ s.orders.rows, o.account ∈ s.accounts.rows.map Account.id

/-- No row is lost or comes about but an account, and none comes to refer to another row or
to name anything else. -/
structure Refers (s t : Store) : Prop where
  accounts : s.accounts.rows.map Account.id ⊆ t.accounts.rows.map Account.id
  orders : t.orders.rows.map (fun o => (o.id, o.account, o.identifiers)) =
    s.orders.rows.map fun o => (o.id, o.account, o.identifiers)
  authorisations : t.authorisations.rows.map (fun x => (x.id, x.order, x.identifier, x.wildcard)) =
    s.authorisations.rows.map fun x => (x.id, x.order, x.identifier, x.wildcard)
  challenges : t.challenges.rows.map (fun c => (c.id, c.authorisation)) =
    s.challenges.rows.map fun c => (c.id, c.authorisation)

theorem Refers.refl (s : Store) : Refers s s where
  accounts := List.Subset.refl _
  orders := rfl
  authorisations := rfl
  challenges := rfl

theorem Refers.trans (h : Refers s t) (h' : Refers t u) : Refers s u where
  accounts := List.Subset.trans h.accounts h'.accounts
  orders := h'.orders.trans h.orders
  authorisations := h'.authorisations.trans h.authorisations
  challenges := h'.challenges.trans h.challenges

/-- Columns that rows keep, of a row that is there. -/
theorem exists_of_map_eq {ρ β : Type} {column : ρ → β} {rows rows' : List ρ}
    (h : rows'.map column = rows.map column) {row : ρ} (hrow : row ∈ rows') :
    ∃ old ∈ rows, column old = column row := by
  have hmem : column row ∈ rows'.map column := List.mem_map_of_mem hrow
  rw [h] at hmem
  exact List.mem_map.mp hmem

theorem ids_of_map_eq {ρ β : Type} {key : ρ → Int} {other : ρ → β} {rows rows' : List ρ}
    (h : rows'.map (fun row => (key row, other row)) = rows.map fun row => (key row, other row)) :
    rows'.map key = rows.map key := by
  have hfirst := congrArg (List.map Prod.fst) h
  rw [List.map_map, List.map_map] at hfirst
  exact hfirst

theorem Refers.joined (h : Refers s t) (hs : Joined s) : Joined t where
  challenges := by
    intro c hc
    obtain ⟨old, hold, hsame⟩ := exists_of_map_eq h.challenges hc
    rw [ids_of_map_eq h.authorisations, ← (Prod.mk.inj hsame).2]
    exact hs.challenges old hold
  authorisations := by
    intro x hx
    obtain ⟨old, hold, hsame⟩ := exists_of_map_eq h.authorisations hx
    have horder : old.order = x.order := congrArg (·.2.1) hsame
    rw [ids_of_map_eq h.orders, ← horder]
    exact hs.authorisations old hold
  orders := by
    intro o ho
    obtain ⟨old, hold, hsame⟩ := exists_of_map_eq h.orders ho
    have haccount : old.account = o.account := congrArg (·.2.1) hsame
    rw [← haccount]
    exact h.accounts (hs.orders old hold)

theorem Refers.updateAccounts {p : Account → Bool} {f : Account → Account}
    {hf : ∀ row, (f row).id = row.id} :
    Refers s { s with accounts := s.accounts.update p f hf } := by
  refine { Refers.refl s with accounts := ?_ }
  rw [Table.rows_update, map_updateWhere hf]
  exact List.Subset.refl _

theorem Refers.setOrdersWhere (p : Order → Bool) (status : OrderStatus) :
    Refers s (s.setOrdersWhere p status) := by
  refine { Refers.refl s with orders := ?_ }
  apply map_updateWhere
  intro row
  rfl

theorem Refers.updateAuthorisations (p : Authorisation → Bool)
    (f : Authorisation → Authorisation) (hf : ∀ row, (f row).id = row.id)
    (hsame : ∀ row, ((f row).order, (f row).identifier, (f row).wildcard) =
      (row.order, row.identifier, row.wildcard)) :
    Refers s { s with authorisations := s.authorisations.update p f hf } := by
  refine { Refers.refl s with authorisations := ?_ }
  apply map_updateWhere
  intro row
  rw [hf, hsame]

theorem Refers.updateChallenges (p : Challenge → Bool) (f : Challenge → Challenge)
    (hf : ∀ row, (f row).id = row.id) (hof : ∀ row, (f row).authorisation = row.authorisation) :
    Refers s { s with challenges := s.challenges.update p f hf } := by
  refine { Refers.refl s with challenges := ?_ }
  apply map_updateWhere
  intro row
  rw [hf, hof]

theorem Refers.settleOrderOf {id : Int} (hs : s.settleOrderOf id = .ok t) : Refers s t := by
  unfold Store.settleOrderOf at hs
  split at hs
  · cases hs
  · cases hs
    exact (Refers.setOrdersWhere _ _).trans (Refers.setOrdersWhere _ _)

theorem settleOrderOf_challenges {id : Int} (hs : s.settleOrderOf id = .ok t) :
    t.challenges = s.challenges := by
  unfold Store.settleOrderOf at hs
  split at hs
  · cases hs
  · cases hs
    rfl

theorem Refers.setAuthorisationStatus {id : Int} {next : AuthorisationStatus}
    (hs : s.setAuthorisationStatus id next = .ok t) :
    Refers s t ∧ t.challenges = s.challenges := by
  obtain ⟨authorisations, hmove, hs⟩ := bind_eq_ok.mp hs
  obtain ⟨-, rfl⟩ := transition_ok hmove
  have hchallenges := settleOrderOf_challenges hs
  refine ⟨?_, hchallenges⟩
  exact (Refers.updateAuthorisations _ _ (StatusRow.key_withStatus next) fun _ => rfl).trans
    (Refers.settleOrderOf hs)

theorem Refers.expireStale (now : Time) : Refers s (s.expireStale now).1 := by
  unfold Store.expireStale
  refine Refers.trans (t := { s with authorisations := _ }) ?_
    ((Refers.setOrdersWhere _ _).trans (Refers.setOrdersWhere _ _))
  exact Refers.updateAuthorisations _ _ _ fun _ => rfl

theorem Refers.recordCertificate {orderId : Int} {issued : NewCertificate} {now : Time}
    {recorded : Certificate} (hs : s.recordCertificate orderId issued now = .ok (t, recorded)) :
    Refers s t ∧ t.challenges = s.challenges := by
  obtain ⟨-, -, horders, -, ht⟩ := recordCertificate_ok hs
  rw [ht]
  refine ⟨?_, rfl⟩
  refine { Refers.refl s with orders := ?_ }
  simp only [horders]
  apply map_updateWhere
  intro row
  rfl

theorem Refers.revoke {serial : String} {reason : Option Nat} {now : Time}
    {revoked : Certificate} (hs : s.revoke serial reason now = .ok (t, revoked)) :
    Refers s t ∧ t.challenges = s.challenges := by
  obtain ⟨-, -, -, ht⟩ := revoke_ok hs
  rw [ht]
  exact ⟨{ Refers.refl s with }, rfl⟩

/-! ## What is calm -/

/-- No reference is broken, and no challenge changes. -/
structure Calm (s t : Store) : Prop where
  joined : Joined s → Joined t
  kept : s.challenges.rows ⊆ t.challenges.rows
  challenges : ∀ c ∈ t.challenges.rows, c.status ≠ .pending →
    ∃ c' ∈ s.challenges.rows, c'.id = c.id ∧ c'.status = c.status

namespace Calm

theorem refl (s : Store) : Calm s s where
  joined h := h
  kept := List.Subset.refl _
  challenges c hc _ := ⟨c, hc, rfl, rfl⟩

theorem trans (h : Calm s t) (h' : Calm t u) : Calm s u where
  joined hs := h'.joined (h.joined hs)
  kept := List.Subset.trans h.kept h'.kept
  challenges := by
    intro c hc hstatus
    obtain ⟨c', hc', hid, hsame⟩ := h'.challenges c hc hstatus
    obtain ⟨c'', hc'', hid', hsame'⟩ := h.challenges c' hc' (hsame ▸ hstatus)
    exact ⟨c'', hc'', hid'.trans hid, hsame'.trans hsame⟩

theorem of_refers (h : Refers s t) (hchallenges : t.challenges = s.challenges) : Calm s t where
  joined := h.joined
  kept := by
    rw [hchallenges]
    exact List.Subset.refl _
  challenges := by
    rw [hchallenges]
    exact fun c hc _ => ⟨c, hc, rfl, rfl⟩

/-! ### Accounts -/

theorem updateAccounts {p : Account → Bool} {f : Account → Account}
    {hf : ∀ row, (f row).id = row.id} :
    Calm s { s with accounts := s.accounts.update p f hf } :=
  of_refers Refers.updateAccounts rfl

theorem setContacts (id : Int) (contacts : List String) : Calm s (s.setContacts id contacts) :=
  updateAccounts

theorem changeKey {id : Int} {jwk thumbprint : String}
    (hs : s.changeKey id jwk thumbprint = .ok t) : Calm s t := by
  unfold Store.changeKey at hs
  split at hs
  · cases hs
  · cases hs
    exact updateAccounts

theorem setAccountStatus {id : Int} {next : AccountStatus}
    (hs : s.setAccountStatus id next = .ok t) : Calm s t := by
  obtain ⟨accounts, hmove, hs⟩ := bind_eq_ok.mp hs
  cases hs
  obtain ⟨-, rfl⟩ := transition_ok hmove
  exact updateAccounts

theorem createAccount (jwk thumbprint : String) (contacts : List String) (now : Time) :
    Calm s (s.createAccount jwk thumbprint contacts now).1 := by
  unfold Store.createAccount
  split
  · exact refl s
  · refine of_refers ?_ rfl
    refine { Refers.refl s with accounts := ?_ }
    rw [Table.rows_insert, List.map_append]
    exact List.subset_append_left _ _

/-! ### Orders, authorisations and certificates -/

theorem setAuthorisationStatus {id : Int} {next : AuthorisationStatus}
    (hs : s.setAuthorisationStatus id next = .ok t) : Calm s t :=
  of_refers (Refers.setAuthorisationStatus hs).1 (Refers.setAuthorisationStatus hs).2

theorem expireStale (now : Time) : Calm s (s.expireStale now).1 :=
  of_refers (Refers.expireStale now) rfl

theorem recordCertificate {orderId : Int} {issued : NewCertificate} {now : Time}
    {recorded : Certificate} (hs : s.recordCertificate orderId issued now = .ok (t, recorded)) :
    Calm s t :=
  of_refers (Refers.recordCertificate hs).1 (Refers.recordCertificate hs).2

theorem revoke {serial : String} {reason : Option Nat} {now : Time} {revoked : Certificate}
    (hs : s.revoke serial reason now = .ok (t, revoked)) : Calm s t :=
  of_refers (Refers.revoke hs).1 (Refers.revoke hs).2

/-! ### New orders -/

theorem insertChallenge (row : Int → Challenge) (hrow : ∀ id, (row id).id = id)
    (hstatus : ∀ id, (row id).status = .pending)
    (hthere : ∀ id, (row id).authorisation ∈ s.authorisations.rows.map Authorisation.id) :
    Calm s { s with challenges := s.challenges.insert row hrow } where
  joined h := by
    refine { h with challenges := ?_ }
    intro c hc
    rcases List.mem_append.mp hc with hold | hnew
    · exact h.challenges c hold
    · rw [List.mem_singleton.mp hnew]
      exact hthere _
  kept := List.subset_append_left _ _
  challenges := by
    intro c hc hpending
    rcases List.mem_append.mp hc with hold | hnew
    · exact ⟨c, hold, rfl, rfl⟩
    · rw [List.mem_singleton.mp hnew] at hpending
      exact absurd (hstatus _) hpending

theorem addChallenges {authorisation : Int} {kinds : List ChallengeType}
    {tokens rest : List String}
    (hthere : authorisation ∈ s.authorisations.rows.map Authorisation.id)
    (hs : Store.addChallenges s authorisation kinds tokens = .ok (t, rest)) :
    Calm s t ∧ t.authorisations = s.authorisations ∧ t.orders = s.orders := by
  induction kinds generalizing s tokens with
  | nil =>
    cases hs
    exact ⟨refl _, rfl, rfl⟩
  | cons kind kinds ih =>
    cases tokens with
    | nil => cases hs
    | cons token tokens =>
      unfold Store.addChallenges at hs
      split at hs
      · cases hs
      · dsimp only at hs
        have hnext := ih (s := { s with
          challenges := s.challenges.insert
            (fun id => ⟨id, authorisation, kind, token, .pending, none, none⟩) fun _ => rfl })
          hthere hs
        obtain ⟨hcalm, hauthorisations, horders⟩ := hnext
        exact ⟨(insertChallenge _ _ (fun _ => rfl) fun _ => hthere).trans hcalm,
          hauthorisations, horders⟩

theorem insertAuthorisation (row : Int → Authorisation) (hrow : ∀ id, (row id).id = id)
    (hthere : ∀ id, (row id).order ∈ s.orders.rows.map Order.id) :
    Calm s { s with authorisations := s.authorisations.insert row hrow } where
  joined h := by
    refine { h with challenges := ?_, authorisations := ?_ }
    · intro c hc
      rw [Table.rows_insert, List.map_append]
      exact List.mem_append_left _ (h.challenges c hc)
    · intro x hx
      rcases List.mem_append.mp hx with hold | hnew
      · exact h.authorisations x hold
      · rw [List.mem_singleton.mp hnew]
        exact hthere _
  kept := List.Subset.refl _
  challenges c hc _ := ⟨c, hc, rfl, rfl⟩

theorem addAuthorisations {order : Int} {news : List NewAuthorisation}
    {tokens rest : List String} (hthere : order ∈ s.orders.rows.map Order.id)
    (hs : s.addAuthorisations order news tokens = .ok (t, rest)) : Calm s t := by
  induction news generalizing s tokens with
  | nil =>
    cases hs
    exact refl _
  | cons new news ih =>
    obtain ⟨⟨s', tokens'⟩, hadd, hs⟩ := bind_eq_ok.mp hs
    have hnew : nextKey Authorisation.id s.authorisations.rows ∈
        (s.authorisations.insert (fun id =>
          ⟨id, order, new.identifier, new.wildcard, .pending, new.expires⟩)
          fun _ => rfl).rows.map Authorisation.id := by
      rw [Table.rows_insert]
      simp
    obtain ⟨hcalm, -, horders⟩ := addChallenges hnew hadd
    refine (insertAuthorisation _ (fun _ => rfl) fun _ => hthere).trans (hcalm.trans (ih ?_ hs))
    rw [horders]
    exact hthere

theorem insertOrder (row : Int → Order) (hrow : ∀ id, (row id).id = id)
    (hthere : ∀ id, (row id).account ∈ s.accounts.rows.map Account.id) :
    Calm s { s with orders := s.orders.insert row hrow } where
  joined h := by
    refine { h with authorisations := ?_, orders := ?_ }
    · intro x hx
      rw [Table.rows_insert, List.map_append]
      exact List.mem_append_left _ (h.authorisations x hx)
    · intro o ho
      rcases List.mem_append.mp ho with hold | hnew
      · exact h.orders o hold
      · rw [List.mem_singleton.mp hnew]
        exact hthere _
  kept := List.Subset.refl _
  challenges c hc _ := ⟨c, hc, rfl, rfl⟩

/-- An order is for an account that is there, or is refused. -/
theorem createOrder {new : NewOrder} {now : Time} {tokens : List String} {id : Int}
    (hs : s.createOrder new now tokens = .ok (t, id)) : Calm s t := by
  unfold Store.createOrder at hs
  split at hs
  · cases hs
  next hthere =>
    obtain ⟨⟨s', rest⟩, hadd, hs⟩ := bind_eq_ok.mp hs
    cases hs
    obtain ⟨account, haccount⟩ := Option.ne_none_iff_exists'.mp hthere
    obtain ⟨hmem, hid⟩ := Table.get?_eq_some.mp haccount
    have haccount : new.account ∈ s.accounts.rows.map Account.id := List.mem_map.mpr
      ⟨account, hmem, hid⟩
    refine (insertOrder _ (fun _ => rfl) fun _ => haccount).trans (addAuthorisations ?_ hadd)
    rw [Table.rows_insert]
    simp

end Calm

/-! ## Challenges that move -/

section Moves

variable {id : Int} {next : ChallengeStatus} {error : Option Problem} {now : Time}

/-- Challenges with their statuses are as they were. -/
def Stays (s t : Store) : Prop :=
  ∀ c ∈ t.challenges.rows, ∃ c' ∈ s.challenges.rows, (c'.id, c'.status) = (c.id, c.status)

theorem settle_ok {decided : AuthorisationStatus}
    (hs : Store.setChallengeStatus.settle id now s decided = .ok t) :
    Refers s t ∧ Stays s t := by
  unfold Store.setChallengeStatus.settle at hs
  split at hs
  · cases hs
  next challenge _ =>
    dsimp only at hs
    constructor
    · apply Refers.trans (t := { s with challenges := _, authorisations := _ }) _
        (Refers.settleOrderOf hs)
      refine { Refers.refl s with challenges := ?_, authorisations := ?_ }
      · apply map_updateWhere
        intro row
        rfl
      · apply map_updateWhere
        intro row
        rfl
    · intro c hc
      rw [settleOrderOf_challenges hs] at hc
      exact exists_of_mem_updateWhere (fun c => (c.id, c.status)) hc fun _ => rfl

/-- One challenge takes the status, and no other changes its own. -/
theorem setChallengeStatus_moves (hs : s.setChallengeStatus id next error now = .ok t) :
    Refers s t ∧ (∃ c ∈ s.challenges.rows, c.id = id ∧ Lifecycle.mayBecome c.status next = true) ∧
      ∀ c ∈ t.challenges.rows, c.id = id ∧ c.status = next ∨
        c.id ≠ id ∧ ∃ c' ∈ s.challenges.rows, c'.id = c.id ∧ c'.status = c.status := by
  obtain ⟨challenges, hmove, hs⟩ := bind_eq_ok.mp hs
  obtain ⟨hmay, rfl⟩ := transition_ok hmove
  dsimp only at hs
  have hrefers := (Refers.updateChallenges (s := s) (·.id = id) (StatusRow.withStatus next)
    (StatusRow.key_withStatus next) fun _ => rfl).trans
    (Refers.updateChallenges (·.id = id) (fun c => { c with error }) (fun _ => rfl) fun _ => rfl)
  have hstatus : ∀ c ∈ ((s.challenges.update (·.id = id) (StatusRow.withStatus next)
      (StatusRow.key_withStatus next)).update (·.id = id) (fun c => { c with error })
      fun _ => rfl).rows, c.id = id ∧ c.status = next ∨
        c.id ≠ id ∧ ∃ c' ∈ s.challenges.rows, c'.id = c.id ∧ c'.status = c.status := by
    intro c hc
    obtain ⟨c₁, hc₁, hsame⟩ := exists_of_mem_updateWhere (fun c => (c.id, c.status)) hc
      fun _ => rfl
    obtain ⟨hid, hst⟩ := Prod.mk.inj hsame
    obtain ⟨c₀, hc₀, rfl⟩ := mem_updateWhere.mp hc₁
    rw [← hid, ← hst]
    cases hp : decide (c₀.id = id) with
    | true =>
      simp only [if_true]
      exact .inl ⟨of_decide_eq_true hp, rfl⟩
    | false =>
      simp only [Bool.false_eq_true, if_false]
      exact .inr ⟨of_decide_eq_false hp, c₀, hc₀, rfl, rfl⟩
  have hsettled {decided : AuthorisationStatus} {q : Store}
      (hq : Refers s q) (hqs : ∀ c ∈ q.challenges.rows, c.id = id ∧ c.status = next ∨
        c.id ≠ id ∧ ∃ c' ∈ s.challenges.rows, c'.id = c.id ∧ c'.status = c.status)
      (hsettle : Store.setChallengeStatus.settle id now q decided = .ok t) :
      Refers s t ∧ (∃ c ∈ s.challenges.rows, c.id = id ∧
        Lifecycle.mayBecome c.status next = true) ∧
      ∀ c ∈ t.challenges.rows, c.id = id ∧ c.status = next ∨
        c.id ≠ id ∧ ∃ c' ∈ s.challenges.rows, c'.id = c.id ∧ c'.status = c.status := by
    obtain ⟨hrefers', hstays⟩ := settle_ok hsettle
    refine ⟨hq.trans hrefers', hmay, ?_⟩
    intro c hc
    obtain ⟨c', hc', hsame⟩ := hstays c hc
    obtain ⟨hid, hst⟩ := Prod.mk.inj hsame
    rw [← hid, ← hst]
    exact hqs c' hc'
  cases next with
  | pending =>
    cases hs
    exact ⟨hrefers, hmay, hstatus⟩
  | processing =>
    cases hs
    exact ⟨hrefers, hmay, hstatus⟩
  | valid => exact hsettled hrefers hstatus hs
  | invalid => exact hsettled hrefers hstatus hs

/-- A challenge that is valid stays so. -/
theorem setChallengeStatus_valid (hs : s.setChallengeStatus id next error now = .ok t)
    {c : Challenge} (hc : c ∈ s.challenges.rows) (hvalid : c.status = .valid) :
    ∃ c' ∈ t.challenges.rows, c'.id = c.id ∧ c'.status = .valid := by
  obtain ⟨hrefers, ⟨moved, hmoved, hmovedId, hmay⟩, hmoves⟩ := setChallengeStatus_moves hs
  obtain ⟨c', hc', hsame⟩ := exists_of_map_eq hrefers.challenges.symm hc
  have hid : c'.id = c.id := (Prod.mk.inj hsame).1
  rcases hmoves c' hc' with ⟨hthis, -⟩ | ⟨-, old, hold, holdId, hstatus⟩
  · -- it is the one that moves, and nothing follows valid
    have hmovedSame : moved = c := Table.eq_of_key hmoved hc (by rw [hmovedId, ← hid, hthis])
    rw [hmovedSame, hvalid] at hmay
    cases next with
    | pending | processing | valid | invalid => cases hmay
  · have holdSame : old = c := Table.eq_of_key hold hc (holdId.trans hid)
    rw [holdSame, hvalid] at hstatus
    exact ⟨c', hc', hid, hstatus.symm⟩

theorem exists_get {ρ : Type} {key : ρ → Int} {rows : Table ρ key} {k : Int}
    (h : k ∈ rows.rows.map key) : ∃ row, rows.get? k = some row := by
  obtain ⟨row, hrow, hkey⟩ := List.mem_map.mp h
  exact ⟨row, Table.get?_eq_some.mpr ⟨hrow, hkey⟩⟩

theorem ids_update {ρ : Type} {key : ρ → Int} (rows : Table ρ key) (p : ρ → Bool) (f : ρ → ρ)
    (hf : ∀ row, key (f row) = key row) :
    (rows.update p f hf).rows.map key = rows.rows.map key :=
  map_updateWhere hf rows.rows

theorem settleOrderOf_succeeds {x : Int} (h : x ∈ s.authorisations.rows.map Authorisation.id) :
    ∃ t, s.settleOrderOf x = .ok t := by
  obtain ⟨row, hget⟩ := exists_get h
  unfold Store.settleOrderOf
  rw [hget]
  exact ⟨_, rfl⟩

theorem settle_succeeds {decided : AuthorisationStatus} (h : Joined s)
    (hid : id ∈ s.challenges.rows.map Challenge.id) :
    ∃ t, Store.setChallengeStatus.settle id now s decided = .ok t := by
  obtain ⟨c, hget⟩ := exists_get hid
  unfold Store.setChallengeStatus.settle
  rw [hget]
  apply settleOrderOf_succeeds
  rw [ids_update]
  exact h.challenges c (Table.get?_eq_some.mp hget).1

/-- A verdict on a challenge that is processing is recorded. -/
theorem setChallengeStatus_succeeds (h : Joined s) {c : Challenge} (hc : c ∈ s.challenges.rows)
    (hprocessing : c.status = .processing) (hnext : next = .valid ∨ next = .invalid) :
    ∃ t, s.setChallengeStatus c.id next error now = .ok t := by
  have hget : s.challenges.get? c.id = some c := Table.get?_eq_some.mpr ⟨hc, rfl⟩
  have hmay : Lifecycle.mayBecome ChallengeStatus.processing next = true := by
    rcases hnext with rfl | rfl <;> rfl
  have hmove : transition s.challenges c.id next = .ok (s.challenges.update (·.id = c.id)
      (StatusRow.withStatus next) (StatusRow.key_withStatus next)) := by
    unfold transition readStatus
    rw [hget]
    show (if Lifecycle.mayBecome c.status next = true then _ else _) = _
    rw [hprocessing, if_pos hmay]
  have hjoined := ((Refers.updateChallenges (s := s) (·.id = c.id) (StatusRow.withStatus next)
    (StatusRow.key_withStatus next) fun _ => rfl).trans
    (Refers.updateChallenges (·.id = c.id) (fun c => { c with error }) (fun _ => rfl)
      fun _ => rfl)).joined h
  have hthere : c.id ∈ ((s.challenges.update (·.id = c.id) (StatusRow.withStatus next)
      (StatusRow.key_withStatus next)).update (·.id = c.id) (fun c => { c with error })
      fun _ => rfl).rows.map Challenge.id := by
    rw [ids_update, ids_update]
    exact List.mem_map_of_mem hc
  unfold Store.setChallengeStatus
  rw [hmove]
  rcases hnext with rfl | rfl
  · exact settle_succeeds hjoined hthere
  · exact settle_succeeds hjoined hthere

end Moves

end Opca.Acme

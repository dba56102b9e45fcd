/-
  Acme/Sound.lean --- what every transaction on orders, authorisations and
  challenges keeps of `acme.db`, statement by statement.
-/
import Opca.Acme.Store

set_option autoImplicit false

namespace Opca.Acme

open Opca.Foundation Lifecycle

/-! ## The invariant -/

/-- What holds of the tables between any two statements, given the challenges a
validator has accepted. -/
structure Sound (accepted : List Int) (s : Store) : Prop where
  authorisation_order : ∀ a ∈ s.authorisations.rows, ∃ o ∈ s.orders.rows, o.id = a.order
  challenge_authorisation : ∀ c ∈ s.challenges.rows,
    ∃ a ∈ s.authorisations.rows, a.id = c.authorisation
  /-- Only an accepted challenge is valid. -/
  challenge_accepted : ∀ c ∈ s.challenges.rows, c.status = .valid → c.id ∈ accepted
  /-- A valid authorisation has a valid challenge of its own. -/
  authorisation_valid : ∀ a ∈ s.authorisations.rows, a.status = .valid →
    ∃ c ∈ s.challenges.rows, c.authorisation = a.id ∧ c.status = .valid
  wildcard_dns01 : ∀ a ∈ s.authorisations.rows, a.wildcard = true →
    ∀ c ∈ s.challenges.rows, c.authorisation = a.id → c.kind = .dns01
  /-- No transaction leaves an order in between. -/
  no_processing : ∀ o ∈ s.orders.rows, o.status ≠ .processing
  valid_iff_named : ∀ o ∈ s.orders.rows, o.status = .valid ↔ o.certificate.isSome = true
  named : ∀ o ∈ s.orders.rows, ∀ id, o.certificate = some id →
    ∃ c ∈ s.certificates.rows, c.id = id ∧ c.order = o.id

/-- A ready order's authorisations are valid. -/
def ReadySound (s : Store) : Prop :=
  ∀ o ∈ s.orders.rows, o.status = .ready →
    ∀ a ∈ s.authorisations.rows, a.order = o.id → a.status = .valid

variable {accepted : List Int} {s t : Store}

theorem Sound.empty : Sound [] Store.empty := by
  refine ⟨?_, ?_, ?_, ?_, ?_, ?_, ?_, ?_⟩
  all_goals
    intro row hrow
    cases hrow

/-- More challenges may be accepted at any time. -/
theorem Sound.accept (h : Sound accepted s) (id : Int) : Sound (id :: accepted) s :=
  { h with challenge_accepted := fun c hc hvalid =>
      List.mem_cons_of_mem id (h.challenge_accepted c hc hvalid) }

/-! ## Inserts -/

/-- A new order has no authorisation yet. -/
theorem Sound.insertOrder (h : Sound accepted s) (row : Int → Order)
    (hrow : ∀ id, (row id).id = id) (hstatus : ∀ id, (row id).status = .pending)
    (hcert : ∀ id, (row id).certificate = none) :
    Sound accepted { s with orders := s.orders.insert row hrow } := by
  have hold : ∀ {P : Order → Prop}, (∀ o ∈ s.orders.rows, P o) →
      P (row (nextKey Order.id s.orders.rows)) →
      ∀ o ∈ (s.orders.insert row hrow).rows, P o := by
    intro P hall hnew o ho
    rw [Table.rows_insert] at ho
    rcases List.mem_append.mp ho with hmem | hmem
    · exact hall o hmem
    · rw [List.mem_singleton.mp hmem]
      exact hnew
  refine { h with
    authorisation_order := ?_, no_processing := ?_, valid_iff_named := ?_, named := ?_ }
  · intro a ha
    obtain ⟨o, ho, hid⟩ := h.authorisation_order a ha
    exact ⟨o, List.mem_append_left _ ho, hid⟩
  · refine hold h.no_processing ?_
    rw [hstatus]
    decide
  · refine hold h.valid_iff_named ?_
    rw [hstatus, hcert]
    decide
  · refine hold h.named ?_
    intro id hid
    rw [hcert] at hid
    cases hid

/-- A new authorisation is pending and has no challenge yet. -/
theorem Sound.insertAuthorisation (h : Sound accepted s) (row : Int → Authorisation)
    {order : Int} (hrow : ∀ id, (row id).id = id) (horder : ∀ id, (row id).order = order)
    (hstatus : ∀ id, (row id).status = .pending)
    (hthere : ∃ o ∈ s.orders.rows, o.id = order) :
    Sound accepted { s with authorisations := s.authorisations.insert row hrow } := by
  refine { h with
    authorisation_order := ?_, challenge_authorisation := ?_, authorisation_valid := ?_,
    wildcard_dns01 := ?_ }
  · intro a ha
    rcases List.mem_append.mp ha with hmem | hmem
    · exact h.authorisation_order a hmem
    · rw [List.mem_singleton.mp hmem, horder]
      exact hthere
  · intro c hc
    obtain ⟨a, ha, hid⟩ := h.challenge_authorisation c hc
    exact ⟨a, List.mem_append_left _ ha, hid⟩
  · intro a ha hvalid
    rcases List.mem_append.mp ha with hmem | hmem
    · exact h.authorisation_valid a hmem hvalid
    · rw [List.mem_singleton.mp hmem, hstatus] at hvalid
      cases hvalid
  · intro a ha hwild c hc hof
    rcases List.mem_append.mp ha with hmem | hmem
    · exact h.wildcard_dns01 a hmem hwild c hc hof
    · -- the new id is above every one a challenge refers to
      obtain ⟨a', ha', hid⟩ := h.challenge_authorisation c hc
      rw [List.mem_singleton.mp hmem, hrow] at hof
      have hlt : a'.id < nextKey Authorisation.id s.authorisations.rows := lt_nextKey ha'
      omega

/-- A new challenge is pending, and dns-01 where its authorisation is a wildcard's. -/
theorem Sound.insertChallenge (h : Sound accepted s) (row : Int → Challenge)
    (hrow : ∀ id, (row id).id = id) {authorisation : Int} {kind : ChallengeType}
    (hof : ∀ id, (row id).authorisation = authorisation) (hkind : ∀ id, (row id).kind = kind)
    (hstatus : ∀ id, (row id).status = .pending)
    (hthere : ∃ a ∈ s.authorisations.rows, a.id = authorisation)
    (hwild : ∀ a ∈ s.authorisations.rows, a.id = authorisation → a.wildcard = true →
      kind = .dns01) :
    Sound accepted { s with challenges := s.challenges.insert row hrow } := by
  refine { h with
    challenge_authorisation := ?_, challenge_accepted := ?_, authorisation_valid := ?_,
    wildcard_dns01 := ?_ }
  · intro c hc
    rcases List.mem_append.mp hc with hmem | hmem
    · exact h.challenge_authorisation c hmem
    · rw [List.mem_singleton.mp hmem, hof]
      exact hthere
  · intro c hc hvalid
    rcases List.mem_append.mp hc with hmem | hmem
    · exact h.challenge_accepted c hmem hvalid
    · rw [List.mem_singleton.mp hmem, hstatus] at hvalid
      cases hvalid
  · intro a ha hvalid
    obtain ⟨c, hc, hrest⟩ := h.authorisation_valid a ha hvalid
    exact ⟨c, List.mem_append_left _ hc, hrest⟩
  · intro a ha hw c hc hcof
    rcases List.mem_append.mp hc with hmem | hmem
    · exact h.wildcard_dns01 a ha hw c hmem hcof
    · rw [List.mem_singleton.mp hmem] at hcof ⊢
      rw [hof] at hcof
      rw [hkind]
      exact hwild a ha hcof.symm hw

/-! ## Updates -/

/-- An order that is pending or ready becomes ready or invalid. -/
theorem Sound.setOrdersWhere (h : Sound accepted s) {p : Order → Bool} {next : OrderStatus}
    (hp : ∀ o, p o = true → o.status = .pending ∨ o.status = .ready)
    (hnext : next = .ready ∨ next = .invalid) :
    Sound accepted (s.setOrdersWhere p next) := by
  have hrows : ∀ {P : Order → Prop}, (∀ o ∈ s.orders.rows, p o = false → P o) →
      (∀ o ∈ s.orders.rows, p o = true → P { o with status := next }) →
      ∀ o ∈ (s.setOrdersWhere p next).orders.rows, P o := by
    intro P hkept hmoved o ho
    obtain ⟨old, hold, rfl⟩ := mem_updateWhere.mp ho
    cases hpo : p old with
    | false => exact hkept old hold hpo
    | true => exact hmoved old hold hpo
  refine { h with
    authorisation_order := ?_, no_processing := ?_, valid_iff_named := ?_, named := ?_ }
  · intro a ha
    obtain ⟨o, ho, hid⟩ := h.authorisation_order a ha
    cases hpo : p o with
    | false => exact ⟨o, mem_updateWhere_of_not ho hpo, hid⟩
    | true => exact ⟨_, mem_updateWhere_of ho hpo, hid⟩
  · refine hrows (fun o ho _ => h.no_processing o ho) ?_
    intro o _ _
    rcases hnext with rfl | rfl
    · exact OrderStatus.noConfusion
    · exact OrderStatus.noConfusion
  · refine hrows (fun o ho _ => h.valid_iff_named o ho) ?_
    intro o ho hpo
    have hnot : o.status ≠ .valid := by
      rcases hp o hpo with hs | hs
      · rw [hs]
        decide
      · rw [hs]
        decide
    have hcert : ¬ o.certificate.isSome = true :=
      fun hsome => hnot ((h.valid_iff_named o ho).mpr hsome)
    have hnextNot : next ≠ .valid := by
      rcases hnext with rfl | rfl
      · decide
      · decide
    exact ⟨fun hv => absurd hv hnextNot, fun hsome => absurd hsome hcert⟩
  · exact hrows (fun o ho _ => h.named o ho) (fun o ho _ => h.named o ho)

/-- The statuses of some authorisations move; one that becomes valid has a valid
challenge of its own. -/
theorem Sound.setAuthorisations (h : Sound accepted s) {p : Authorisation → Bool}
    {next : AuthorisationStatus}
    (hvalid : next = .valid → ∀ a ∈ s.authorisations.rows, p a = true →
      ∃ c ∈ s.challenges.rows, c.authorisation = a.id ∧ c.status = .valid) :
    Sound accepted { s with
      authorisations := s.authorisations.update p (fun a => { a with status := next })
        fun _ => rfl } := by
  have hrows : ∀ {P : Authorisation → Prop},
      (∀ a ∈ s.authorisations.rows, p a = false → P a) →
      (∀ a ∈ s.authorisations.rows, p a = true → P { a with status := next }) →
      ∀ a ∈ updateWhere p (fun a => { a with status := next }) s.authorisations.rows, P a := by
    intro P hkept hmoved a ha
    obtain ⟨old, hold, rfl⟩ := mem_updateWhere.mp ha
    cases hpa : p old with
    | false => exact hkept old hold hpa
    | true => exact hmoved old hold hpa
  refine { h with
    authorisation_order := ?_, challenge_authorisation := ?_, authorisation_valid := ?_,
    wildcard_dns01 := ?_ }
  · exact hrows (fun a ha _ => h.authorisation_order a ha)
      (fun a ha _ => h.authorisation_order a ha)
  · intro c hc
    obtain ⟨a, ha, hid⟩ := h.challenge_authorisation c hc
    cases hpa : p a with
    | false => exact ⟨a, mem_updateWhere_of_not ha hpa, hid⟩
    | true => exact ⟨_, mem_updateWhere_of ha hpa, hid⟩
  · exact hrows (fun a ha _ => h.authorisation_valid a ha)
      (fun a ha hpa hnext => hvalid hnext a ha hpa)
  · exact hrows (fun a ha _ => h.wildcard_dns01 a ha) (fun a ha _ => h.wildcard_dns01 a ha)

/-- Columns of some challenges are set, other than what ties them to their
authorisation; one that was valid stays so, and one that becomes valid is accepted. -/
theorem Sound.setChallenges (h : Sound accepted s) {p : Challenge → Bool}
    {f : Challenge → Challenge} (hid : ∀ c, (f c).id = c.id)
    (hof : ∀ c, (f c).authorisation = c.authorisation) (hkind : ∀ c, (f c).kind = c.kind)
    (hkeep : ∀ c ∈ s.challenges.rows, p c = true → c.status = .valid →
      (f c).status = .valid)
    (haccepted : ∀ c ∈ s.challenges.rows, p c = true → (f c).status = .valid →
      c.id ∈ accepted) :
    Sound accepted { s with challenges := s.challenges.update p f hid } := by
  refine { h with
    challenge_authorisation := ?_, challenge_accepted := ?_, authorisation_valid := ?_,
    wildcard_dns01 := ?_ }
  · intro c hc
    obtain ⟨old, hold, rfl⟩ := mem_updateWhere.mp hc
    obtain ⟨a, ha, haid⟩ := h.challenge_authorisation old hold
    refine ⟨a, ha, ?_⟩
    split
    · rw [hof]
      exact haid
    · exact haid
  · intro c hc hvalid
    obtain ⟨old, hold, rfl⟩ := mem_updateWhere.mp hc
    cases hp : p old with
    | false =>
      simp only [hp, Bool.false_eq_true, if_false] at hvalid ⊢
      exact h.challenge_accepted old hold hvalid
    | true =>
      simp only [hp, if_true] at hvalid ⊢
      rw [hid]
      exact haccepted old hold hp hvalid
  · intro a ha hvalid
    obtain ⟨c, hc, hcof, hcvalid⟩ := h.authorisation_valid a ha hvalid
    cases hp : p c with
    | false => exact ⟨c, mem_updateWhere_of_not hc hp, hcof, hcvalid⟩
    | true =>
      exact ⟨f c, mem_updateWhere_of hc hp, (hof c).trans hcof, hkeep c hc hp hcvalid⟩
  · intro a ha hwild c hc hcof
    obtain ⟨old, hold, rfl⟩ := mem_updateWhere.mp hc
    cases hp : p old with
    | false =>
      simp only [hp, Bool.false_eq_true, if_false] at hcof ⊢
      exact h.wildcard_dns01 a ha hwild old hold hcof
    | true =>
      simp only [hp, if_true] at hcof ⊢
      rw [hof] at hcof
      rw [hkind]
      exact h.wildcard_dns01 a ha hwild old hold hcof

/-! ## Settling an order -/

theorem orderFailed_status {o : Order} (h : s.orderFailed o = true) :
    o.status = .pending ∨ o.status = .ready := by
  unfold Store.orderFailed at h
  rw [Bool.and_eq_true, Bool.or_eq_true, decide_eq_true_eq, decide_eq_true_eq] at h
  exact h.1

theorem orderReady_spec {o : Order} (h : s.orderReady o = true) :
    o.status = .pending ∧
      ∀ a ∈ s.authorisations.rows, a.order = o.id → a.status = .valid := by
  unfold Store.orderReady at h
  rw [Bool.and_eq_true, decide_eq_true_eq, Bool.not_eq_true', List.any_eq_false] at h
  refine ⟨h.1, ?_⟩
  intro a ha hof
  have hnot := h.2 a ha
  rw [hof] at hnot
  simpa using hnot

/-- A ready order that has not failed, none of whose authorisations is pending, has
valid ones only. -/
theorem valid_of_not_failed {o : Order} (hready : o.status = .ready)
    (hnot : s.orderFailed o = false) {a : Authorisation} (ha : a ∈ s.authorisations.rows)
    (hof : a.order = o.id) (hpending : a.status ≠ .pending) : a.status = .valid := by
  unfold Store.orderFailed at hnot
  rw [hready] at hnot
  have hnone : (s.authorisations.rows.any fun a => a.order = o.id &&
      !(a.status = .pending || a.status = .valid)) = false := hnot
  have hvalid := List.any_eq_false.mp hnone a ha
  rw [hof] at hvalid
  simpa [hpending] using hvalid

theorem Sound.settleOrderOf (h : Sound accepted s) {id : Int}
    (hs : s.settleOrderOf id = .ok t) : Sound accepted t := by
  unfold Store.settleOrderOf at hs
  split at hs
  · cases hs
  · cases hs
    refine (h.setOrdersWhere ?_ (Or.inr rfl)).setOrdersWhere ?_ (Or.inl rfl)
    · intro o ho
      rw [Bool.and_eq_true] at ho
      exact orderFailed_status ho.1
    · intro o ho
      rw [Bool.and_eq_true] at ho
      exact Or.inl (orderReady_spec ho.2).1

/-- Settling leaves ready orders with valid authorisations, if they had none
pending and only the settled order's have changed. -/
theorem readySound_settleOrderOf {a : Authorisation} (ha : a ∈ s.authorisations.rows)
    {id : Int} (hid : a.id = id)
    (hpending : ∀ o ∈ s.orders.rows, o.status = .ready →
      ∀ b ∈ s.authorisations.rows, b.order = o.id → b.status ≠ .pending)
    (hothers : ∀ o ∈ s.orders.rows, o.status = .ready → o.id ≠ a.order →
      ∀ b ∈ s.authorisations.rows, b.order = o.id → b.status = .valid)
    (hs : s.settleOrderOf id = .ok t) : ReadySound t := by
  unfold Store.settleOrderOf at hs
  rw [Table.get?_eq_some.mpr ⟨ha, hid⟩] at hs
  cases hs
  intro o ho hready b hb hof
  obtain ⟨o', ho', rfl⟩ := mem_updateWhere.mp ho
  split at hready
  next hpass =>
    rw [if_pos hpass] at hof
    rw [Bool.and_eq_true] at hpass
    exact (orderReady_spec hpass.2).2 b hb hof
  next hpass =>
    rw [if_neg hpass] at hof
    obtain ⟨o'', ho'', rfl⟩ := mem_updateWhere.mp ho'
    split at hready
    next => cases hready
    next hfail =>
      rw [if_neg hfail] at hof
      by_cases ho : o''.id = a.order
      · refine valid_of_not_failed (s := s) hready ?_ hb hof
          (hpending o'' ho'' hready b hb hof)
        simpa [ho] using hfail
      · exact hothers o'' ho'' hready ho b hb hof

/-! ## The transactions -/

theorem Sound.addChallenges {authorisation : Int} :
    ∀ {kinds : List ChallengeType} {tokens rest : List String} {s t : Store},
      Sound accepted s →
      (∃ a ∈ s.authorisations.rows, a.id = authorisation) →
      (∀ a ∈ s.authorisations.rows, a.id = authorisation → a.wildcard = true →
        ∀ kind ∈ kinds, kind = .dns01) →
      s.addChallenges authorisation kinds tokens = .ok (t, rest) →
      Sound accepted t ∧ t.orders = s.orders ∧ t.authorisations = s.authorisations
  | [], tokens, rest, s, t, h, _, _, hadd => by
      cases hadd
      exact ⟨h, rfl, rfl⟩
  | _ :: _, [], rest, s, t, _, _, _, hadd => by cases hadd
  | kind :: kinds, token :: tokens, rest, s, t, h, hthere, hwild, hadd => by
      unfold Store.addChallenges at hadd
      split at hadd
      · cases hadd
      · have hinsert := h.insertChallenge
          (fun id => ⟨id, authorisation, kind, token, .pending, none, none⟩)
          (fun _ => rfl) (fun _ => rfl) (fun _ => rfl) (fun _ => rfl) hthere
          (fun a ha hid hw => hwild a ha hid hw kind List.mem_cons_self)
        exact hinsert.addChallenges hthere
          (fun a ha hid hw k hk => hwild a ha hid hw k (List.mem_cons_of_mem _ hk)) hadd

theorem Sound.addAuthorisations {order : Int} :
    ∀ {news : List NewAuthorisation} {tokens rest : List String} {s t : Store},
      Sound accepted s → ReadySound s →
      (∃ o ∈ s.orders.rows, o.id = order) →
      (∀ o ∈ s.orders.rows, o.id = order → o.status = .pending) →
      (∀ new ∈ news, new.wildcard = true → ∀ kind ∈ new.challenges, kind = .dns01) →
      s.addAuthorisations order news tokens = .ok (t, rest) →
      Sound accepted t ∧ ReadySound t
  | [], tokens, rest, s, t, h, hready, _, _, _, hadd => by
      cases hadd
      exact ⟨h, hready⟩
  | new :: news, tokens, rest, s, t, h, hready, hthere, hpending, hwild, hadd => by
      unfold Store.addAuthorisations at hadd
      obtain ⟨⟨s', tokens'⟩, hchallenges, hadd⟩ := bind_eq_ok.mp hadd
      have hinsert := h.insertAuthorisation
        (fun id => ⟨id, order, new.identifier, new.wildcard, .pending, new.expires⟩)
        (fun _ => rfl) (fun _ => rfl) (fun _ => rfl) hthere
      have hnew : ∀ a ∈ (s.authorisations.insert
          (fun id => ⟨id, order, new.identifier, new.wildcard, .pending, new.expires⟩)
          fun _ => rfl).rows, a.id = nextKey Authorisation.id s.authorisations.rows →
          a.wildcard = new.wildcard := by
        intro a ha hid
        rcases List.mem_append.mp ha with hmem | hmem
        · have hlt : a.id < nextKey Authorisation.id s.authorisations.rows := lt_nextKey hmem
          omega
        · rw [List.mem_singleton.mp hmem]
      obtain ⟨hsound, horders, hauths⟩ := hinsert.addChallenges
        ⟨_, List.mem_append_right _ (List.mem_singleton_self _), rfl⟩
        (fun a ha hid hw => hwild new List.mem_cons_self ((hnew a ha hid) ▸ hw)) hchallenges
      have horders' : s'.orders = s.orders := horders
      refine hsound.addAuthorisations ?_ (horders' ▸ hthere) (horders' ▸ hpending)
        (fun n hn => hwild n (List.mem_cons_of_mem _ hn)) hadd
      intro o ho hstatus a ha hof
      rw [horders'] at ho
      rw [hauths] at ha
      rcases List.mem_append.mp ha with hmem | hmem
      · exact hready o ho hstatus a hmem hof
      · rw [List.mem_singleton.mp hmem] at hof
        rw [hpending o ho hof.symm] at hstatus
        cases hstatus

theorem Sound.createOrder (h : Sound accepted s) (hready : ReadySound s) {new : NewOrder}
    {now : Time} {tokens : List String} {id : Int}
    (hwild : ∀ a ∈ new.authorisations, a.wildcard = true →
      ∀ kind ∈ a.challenges, kind = .dns01)
    (hs : s.createOrder new now tokens = .ok (t, id)) :
    Sound accepted t ∧ ReadySound t := by
  unfold Store.createOrder at hs
  split at hs
  · cases hs
  obtain ⟨⟨s', rest⟩, hadd, hs⟩ := bind_eq_ok.mp hs
  cases hs
  have hinsert := h.insertOrder
    (fun id => ⟨id, new.account, .pending, new.identifiers, new.notBefore, new.notAfter,
      new.expires, none, none, now⟩) (fun _ => rfl) (fun _ => rfl) (fun _ => rfl)
  refine hinsert.addAuthorisations ?_ ?_ ?_ hwild hadd
  · intro o ho hstatus a ha hof
    rcases List.mem_append.mp ho with hmem | hmem
    · exact hready o hmem hstatus a ha hof
    · rw [List.mem_singleton.mp hmem] at hstatus
      cases hstatus
  · exact ⟨_, List.mem_append_right _ (List.mem_singleton_self _), rfl⟩
  · intro o ho hid
    rcases List.mem_append.mp ho with hmem | hmem
    · have hlt : o.id < nextKey Order.id s.orders.rows := lt_nextKey hmem
      omega
    · rw [List.mem_singleton.mp hmem]

/-- An authorisation moves, but not to valid. -/
theorem Sound.setAuthorisationStatus (h : Sound accepted s) (hready : ReadySound s)
    {id : Int} {next : AuthorisationStatus} (hnext : next ≠ .valid)
    (hs : s.setAuthorisationStatus id next = .ok t) : Sound accepted t ∧ ReadySound t := by
  obtain ⟨auths, htransition, hs⟩ := bind_eq_ok.mp hs
  obtain ⟨⟨a, ha, hid, hmay⟩, rfl⟩ := transition_ok htransition
  have hpending : next ≠ .pending := by
    rintro rfl
    have hmay : mayBecome a.status AuthorisationStatus.pending = true := hmay
    cases hstatus : a.status <;> rw [hstatus] at hmay <;> cases hmay
  have hset : Sound accepted { s with
      authorisations := s.authorisations.update (·.id = id) (StatusRow.withStatus next)
        (StatusRow.key_withStatus next) } :=
    h.setAuthorisations fun hvalid => absurd hvalid hnext
  refine ⟨hset.settleOrderOf hs, ?_⟩
  have hmoved : ∀ b ∈ updateWhere (·.id = id)
      (fun b : Authorisation => { b with status := next }) s.authorisations.rows,
      b ∈ s.authorisations.rows ∨ (b.id = id ∧ b.order = a.order ∧ b.status = next) := by
    intro b hb
    obtain ⟨old, hold, rfl⟩ := mem_updateWhere.mp hb
    split
    next hp =>
      have heq : old = a :=
        s.authorisations.eq_of_key hold ha ((of_decide_eq_true hp).trans hid.symm)
      exact Or.inr ⟨of_decide_eq_true hp, by rw [heq], rfl⟩
    next => exact Or.inl hold
  have hthere : { a with status := next } ∈ (s.authorisations.update (·.id = id)
      (fun b => { b with status := next }) fun _ => rfl).rows :=
    mem_updateWhere_of ha (decide_eq_true hid)
  refine readySound_settleOrderOf (a := { a with status := next }) hthere hid ?_ ?_ hs
  · intro o ho hstatus b hb hof
    rcases hmoved b hb with hmem | ⟨-, -, hb⟩
    · rw [hready o ho hstatus b hmem hof]
      decide
    · rw [hb]
      exact hpending
  · intro o ho hstatus hid b hb hof
    rcases hmoved b hb with hmem | ⟨-, hborder, -⟩
    · exact hready o ho hstatus b hmem hof
    · exact absurd (hof.symm.trans hborder) hid

/-- A challenge that is decided decides its authorisation while that is pending. -/
theorem Sound.settleChallenge (h : Sound accepted s) (hready : ReadySound s)
    {id : Int} {decided : AuthorisationStatus} {now : Time}
    (hvalid : decided = .valid → ∀ c ∈ s.challenges.rows, c.id = id → c.status = .valid)
    (hs : Store.setChallengeStatus.settle id now s decided = .ok t) :
    Sound accepted t ∧ ReadySound t := by
  unfold Store.setChallengeStatus.settle at hs
  split at hs
  · cases hs
  rename_i c hget
  obtain ⟨hc, hcid⟩ := Table.get?_eq_some.mp hget
  obtain ⟨a, ha, haid⟩ := h.challenge_authorisation c hc
  have hstamp := h.setChallenges (p := (·.id = id))
    (f := fun c => { c with validated := if c.status = .valid then some now else none })
    (fun _ => rfl) (fun _ => rfl) (fun _ => rfl) (fun _ _ _ hv => hv)
    (fun d hd _ hv => h.challenge_accepted d hd hv)
  have hown : decided = .valid → ∀ b ∈ s.authorisations.rows,
      (b.id = c.authorisation && b.status = .pending) = true →
      ∃ d ∈ (s.challenges.update (·.id = id)
        (fun d => { d with validated := if d.status = .valid then some now else none })
        fun _ => rfl).rows, d.authorisation = b.id ∧ d.status = .valid := by
    intro hv b _ hp
    rw [Bool.and_eq_true, decide_eq_true_eq] at hp
    exact ⟨_, mem_updateWhere_of hc (decide_eq_true hcid), hp.1.symm, hvalid hv c hc hcid⟩
  have hset := hstamp.setAuthorisations hown
  refine ⟨hset.settleOrderOf hs, ?_⟩
  -- a ready order's authorisations are valid, so the update leaves them alone
  have hkept : ∀ o ∈ s.orders.rows, o.status = .ready → ∀ b ∈ updateWhere
      (fun b : Authorisation => b.id = c.authorisation && b.status = .pending)
      (fun b => { b with status := decided }) s.authorisations.rows,
      b.order = o.id → b.status = .valid := by
    intro o ho hstatus b hb hof
    obtain ⟨old, hold, rfl⟩ := mem_updateWhere.mp hb
    split at hof
    next hp =>
      have hv := hready o ho hstatus old hold hof
      rw [Bool.and_eq_true, decide_eq_true_eq, decide_eq_true_eq, hv] at hp
      cases hp.2
    next hp =>
      rw [if_neg hp]
      exact hready o ho hstatus old hold hof
  have hthere : ∃ b ∈ updateWhere
      (fun b : Authorisation => b.id = c.authorisation && b.status = .pending)
      (fun b => { b with status := decided }) s.authorisations.rows,
      b.id = c.authorisation := by
    cases hp : (a.id = c.authorisation && a.status = .pending : Bool) with
    | false => exact ⟨a, mem_updateWhere_of_not ha hp, haid⟩
    | true => exact ⟨_, mem_updateWhere_of ha hp, haid⟩
  obtain ⟨b, hb, hbid⟩ := hthere
  refine readySound_settleOrderOf hb hbid ?_ ?_ hs
  · intro o ho hstatus d hd hof
    rw [hkept o ho hstatus d hd hof]
    decide
  · intro o ho hstatus _ d hd hof
    exact hkept o ho hstatus d hd hof

/-- A challenge moves; it becomes valid only when a validator has accepted it. -/
theorem Sound.setChallengeStatus (h : Sound accepted s) (hready : ReadySound s)
    {id : Int} {next : ChallengeStatus} {error : Option Problem} {now : Time}
    (haccepted : next = .valid → id ∈ accepted)
    (hs : s.setChallengeStatus id next error now = .ok t) :
    Sound accepted t ∧ ReadySound t := by
  obtain ⟨moved, htransition, hs⟩ := bind_eq_ok.mp hs
  obtain ⟨⟨c, hc, hid, hmay⟩, rfl⟩ := transition_ok htransition
  have hmay : mayBecome c.status next = true := hmay
  have hone : ∀ {d : Challenge}, d ∈ s.challenges.rows → d.id = id → d = c :=
    fun hd hdid => s.challenges.eq_of_key hd hc (hdid.trans hid.symm)
  have hmove : Sound accepted { s with
      challenges := s.challenges.update (·.id = id) (StatusRow.withStatus next)
        (StatusRow.key_withStatus next) } := by
    refine h.setChallenges (StatusRow.key_withStatus next) (fun _ => rfl) (fun _ => rfl)
      ?_ ?_
    · intro d hd hp hvalid
      rw [hone hd (of_decide_eq_true hp)] at hvalid
      rw [hvalid] at hmay
      cases next <;> cases hmay
    · intro d _ hp hvalid
      rw [of_decide_eq_true hp]
      exact haccepted hvalid
  have herror := hmove.setChallenges (p := (·.id = id)) (f := fun d => { d with error })
    (fun _ => rfl) (fun _ => rfl) (fun _ => rfl) (fun _ _ _ hvalid => hvalid)
    (fun d hd _ hvalid => hmove.challenge_accepted d hd hvalid)
  have hstatus : ∀ d ∈ updateWhere (·.id = id) (fun d : Challenge => { d with error })
      (updateWhere (·.id = id) (fun d : Challenge => { d with status := next })
        s.challenges.rows), d.id = id → d.status = next := by
    intro d hd hdid
    rw [updateWhere_updateWhere (p := fun d : Challenge => d.id = id)
      (f := fun d => { d with status := next }) (fun _ hp => hp)] at hd
    obtain ⟨old, -, rfl⟩ := mem_updateWhere.mp hd
    split at hdid
    next hp =>
      rw [if_pos hp]
      rfl
    next hp => exact absurd (decide_eq_true hdid) hp
  cases next with
  | pending =>
    cases hs
    exact ⟨herror, hready⟩
  | processing =>
    cases hs
    exact ⟨herror, hready⟩
  | valid =>
    exact herror.settleChallenge hready (fun _ d hd hdid => hstatus d hd hdid) hs
  | invalid =>
    exact herror.settleChallenge hready (fun hv => absurd hv (by decide)) hs

/-- Whatever has expired, ready orders have valid authorisations only. -/
theorem Sound.expireStale (h : Sound accepted s) (hready : ReadySound s) (now : Time) :
    Sound accepted (s.expireStale now).1 ∧ ReadySound (s.expireStale now).1 := by
  have hset := h.setAuthorisations
    (p := fun a => (a.status = .pending || a.status = .valid) && a.expires ≤ now)
    (fun (hv : AuthorisationStatus.expired = .valid) => absurd hv (by decide))
  have hover := hset.setOrdersWhere
    (p := fun o => (o.status = .pending || o.status = .ready) && o.expires ≤ now)
    (fun o ho => by simpa using (Bool.and_eq_true_iff.mp ho).1)
    (Or.inr (rfl : OrderStatus.invalid = .invalid))
  refine ⟨hover.setOrdersWhere (fun o ho => orderFailed_status ho) (Or.inr rfl), ?_⟩
  intro o ho hstatus b hb hof
  obtain ⟨o', ho', rfl⟩ := mem_updateWhere.mp ho
  split at hstatus
  next => cases hstatus
  next hfail =>
    rw [if_neg hfail] at hof
    obtain ⟨o'', ho'', rfl⟩ := mem_updateWhere.mp ho'
    split at hstatus
    next => cases hstatus
    next hover =>
      rw [if_neg hover] at hof hfail
      refine valid_of_not_failed hstatus (Bool.not_eq_true _ ▸ hfail) hb hof ?_
      obtain ⟨old, hold, rfl⟩ := mem_updateWhere.mp hb
      split
      next => exact AuthorisationStatus.noConfusion
      next hp =>
        rw [if_neg hp] at hof
        rw [hready o'' ho'' hstatus old hold hof]
        decide

/-! ## What they leave alone -/

theorem settleOrderOf_certificates {id : Int} (hs : s.settleOrderOf id = .ok t) :
    t.certificates = s.certificates := by
  unfold Store.settleOrderOf at hs
  split at hs
  · cases hs
  · cases hs
    rfl

theorem setAuthorisationStatus_certificates {id : Int} {next : AuthorisationStatus}
    (hs : s.setAuthorisationStatus id next = .ok t) : t.certificates = s.certificates := by
  obtain ⟨auths, -, hs⟩ := bind_eq_ok.mp hs
  exact (settleOrderOf_certificates hs).trans rfl

theorem settleChallenge_certificates {id : Int} {decided : AuthorisationStatus} {now : Time}
    (hs : Store.setChallengeStatus.settle id now s decided = .ok t) :
    t.certificates = s.certificates := by
  unfold Store.setChallengeStatus.settle at hs
  split at hs
  · cases hs
  · exact (settleOrderOf_certificates hs).trans rfl

theorem setChallengeStatus_certificates {id : Int} {next : ChallengeStatus}
    {error : Option Problem} {now : Time}
    (hs : s.setChallengeStatus id next error now = .ok t) :
    t.certificates = s.certificates := by
  obtain ⟨moved, -, hs⟩ := bind_eq_ok.mp hs
  cases next with
  | pending =>
    cases hs
    rfl
  | processing =>
    cases hs
    rfl
  | valid => exact (settleChallenge_certificates hs).trans rfl
  | invalid => exact (settleChallenge_certificates hs).trans rfl

theorem addChallenges_certificates {authorisation : Int} :
    ∀ {kinds : List ChallengeType} {tokens rest : List String} {s t : Store},
      s.addChallenges authorisation kinds tokens = .ok (t, rest) →
      t.certificates = s.certificates
  | [], tokens, rest, s, t, hadd => by
      cases hadd
      rfl
  | _ :: _, [], rest, s, t, hadd => by cases hadd
  | kind :: kinds, token :: tokens, rest, s, t, hadd => by
      unfold Store.addChallenges at hadd
      split at hadd
      · cases hadd
      · exact (addChallenges_certificates hadd).trans rfl

theorem addAuthorisations_certificates {order : Int} :
    ∀ {news : List NewAuthorisation} {tokens rest : List String} {s t : Store},
      s.addAuthorisations order news tokens = .ok (t, rest) →
      t.certificates = s.certificates
  | [], tokens, rest, s, t, hadd => by
      cases hadd
      rfl
  | new :: news, tokens, rest, s, t, hadd => by
      unfold Store.addAuthorisations at hadd
      obtain ⟨⟨s', tokens'⟩, hchallenges, hadd⟩ := bind_eq_ok.mp hadd
      exact (addAuthorisations_certificates hadd).trans
        ((addChallenges_certificates hchallenges).trans rfl)

theorem createOrder_certificates {new : NewOrder} {now : Time} {tokens : List String}
    {id : Int} (hs : s.createOrder new now tokens = .ok (t, id)) :
    t.certificates = s.certificates := by
  unfold Store.createOrder at hs
  split at hs
  · cases hs
  obtain ⟨⟨s', rest⟩, hadd, hs⟩ := bind_eq_ok.mp hs
  cases hs
  exact (addAuthorisations_certificates hadd).trans rfl

/-- An account is all that `create_account` makes. -/
theorem createAccount_frame (s : Store) (jwk thumbprint : String) (contacts : List String)
    (now : Time) : ∃ accounts,
      (s.createAccount jwk thumbprint contacts now).1 = { s with accounts } := by
  unfold Store.createAccount
  split
  · exact ⟨s.accounts, rfl⟩
  · exact ⟨_, rfl⟩

/-! ## Certificates -/

theorem beginProcessing_ok {orders orders' : Table Order Order.id} {id : Int}
    (h : Store.beginProcessing orders id = .ok orders') :
    orders' = orders ∨ ∃ o ∈ orders.rows, o.id = id ∧ o.status = .ready ∧
      orders' = orders.update (·.id = id) (StatusRow.withStatus OrderStatus.processing)
        (StatusRow.key_withStatus _) := by
  obtain ⟨status, hread, h⟩ := bind_eq_ok.mp h
  obtain ⟨o, ho, hid, hstatus⟩ := readStatus_ok hread
  split at h
  next hready => exact Or.inr ⟨o, ho, hid, hstatus.trans hready, (transition_ok h).2⟩
  next =>
    cases h
    exact Or.inl rfl

/-- What `record_certificate` does when it commits: the order was ready or
processing, and is now valid and names the certificate. -/
theorem recordCertificate_ok {orderId : Int} {issued : NewCertificate} {now : Time}
    {recorded : Certificate}
    (hs : s.recordCertificate orderId issued now = .ok (t, recorded)) :
    (∃ o ∈ s.orders.rows, o.id = orderId ∧ (o.status = .ready ∨ o.status = .processing) ∧
      ∃ o', o'.id = orderId ∧ recorded = s.certificateRow o' issued now) ∧
      recorded.changed ≤ i64Max ∧
      t.orders.rows = updateWhere (·.id = orderId)
        (fun o => { o with status := .valid, certificate := some recorded.id })
        s.orders.rows ∧
      t.certificates.rows = s.certificates.rows ++ [recorded] ∧
      t = { s with
        orders := t.orders, certificates := t.certificates, sequence := recorded.id } := by
  obtain ⟨begun, hbegin, hs⟩ := bind_eq_ok.mp hs
  obtain ⟨moved, hmove, hs⟩ := bind_eq_ok.mp hs
  obtain ⟨order, hget, hs⟩ := bind_eq_ok.mp hs
  obtain ⟨checked, hcheck, hs⟩ := bind_eq_ok.mp hs
  dsimp only at hs
  split at hs
  · cases hs
  rename_i hmax
  cases hs
  obtain ⟨⟨o, ho, hid, hmay⟩, rfl⟩ := transition_ok hmove
  have horder : order.id = orderId := by
    cases hfound : ((begun.update (·.id = orderId) (StatusRow.withStatus OrderStatus.valid)
        (StatusRow.key_withStatus _)).get? orderId) with
    | none =>
      rw [hfound] at hget
      cases hget
    | some row =>
      rw [hfound] at hget
      cases hget
      exact (Table.get?_eq_some.mp hfound).2
  have hmay : mayBecome o.status OrderStatus.valid = true := hmay
  have hstart : (∃ o ∈ s.orders.rows, o.id = orderId ∧
      (o.status = .ready ∨ o.status = .processing)) ∧
      updateWhere (·.id = orderId) (fun o => { o with status := .valid }) begun.rows =
        updateWhere (·.id = orderId) (fun o => { o with status := .valid }) s.orders.rows := by
    rcases beginProcessing_ok hbegin with rfl | ⟨o', ho', hid', hready, rfl⟩
    · refine ⟨⟨o, ho, hid, Or.inr ?_⟩, rfl⟩
      cases hstatus : o.status <;> rw [hstatus] at hmay
      all_goals first | rfl | cases hmay
    · refine ⟨⟨o', ho', hid', Or.inl hready⟩, ?_⟩
      refine updateWhere_updateWhere ?_ _
      exact fun _ hp => hp
  obtain ⟨⟨o', ho', hid', hstatus⟩, hrows⟩ := hstart
  refine ⟨⟨o', ho', hid', hstatus, order, horder, rfl⟩, not_lt.mp hmax, ?_,
    Certificates.check_ok hcheck, rfl⟩
  have hvalid : (begun.update (·.id = orderId) (StatusRow.withStatus OrderStatus.valid)
      (StatusRow.key_withStatus _)).rows =
      updateWhere (·.id = orderId) (fun o => { o with status := .valid }) s.orders.rows := hrows
  rw [Table.rows_update, hvalid]
  refine updateWhere_updateWhere ?_ _
  exact fun _ hp => hp

/-- What a recorded certificate means: its order was ready, and nothing else that
holds of the tables is lost. -/
theorem Sound.recordCertificate (h : Sound accepted s) (hready : ReadySound s)
    {orderId : Int} {issued : NewCertificate} {now : Time} {recorded : Certificate}
    (hs : s.recordCertificate orderId issued now = .ok (t, recorded)) :
    (∃ o ∈ s.orders.rows, o.id = orderId ∧ o.status = .ready) ∧
      Sound accepted t ∧ ReadySound t := by
  obtain ⟨⟨o, ho, hid, hstatus, o', ho', hrow⟩, -, horders, hcerts, ht⟩ :=
    recordCertificate_ok hs
  have hrecorded : recorded.order = orderId := by
    rw [hrow]
    exact ho'
  have hrows : ∀ {P : Order → Prop}, (∀ o ∈ s.orders.rows, o.id ≠ orderId → P o) →
      (∀ o ∈ s.orders.rows, o.id = orderId →
        P { o with status := .valid, certificate := some recorded.id }) →
      ∀ o ∈ t.orders.rows, P o := by
    intro P hkept hmoved o ho
    rw [horders] at ho
    obtain ⟨old, hold, rfl⟩ := mem_updateWhere.mp ho
    split
    next hp => exact hmoved old hold (of_decide_eq_true hp)
    next hp => exact hkept old hold (fun hid => hp (decide_eq_true hid))
  have hauths : t.authorisations = s.authorisations := by rw [ht]
  have hchals : t.challenges = s.challenges := by rw [ht]
  refine ⟨?_, ⟨?_, ?_, ?_, ?_, ?_, ?_, ?_, ?_⟩, ?_⟩
  · refine ⟨o, ho, hid, ?_⟩
    rcases hstatus with hstatus | hstatus
    · exact hstatus
    · exact absurd hstatus (h.no_processing o ho)
  · rw [hauths]
    intro a ha
    obtain ⟨o, ho, haid⟩ := h.authorisation_order a ha
    rw [horders]
    by_cases hoid : o.id = orderId
    · exact ⟨_, mem_updateWhere_of ho (decide_eq_true hoid), haid⟩
    · exact ⟨o, mem_updateWhere_of_not ho (decide_eq_false hoid), haid⟩
  · rw [hauths, hchals]
    exact h.challenge_authorisation
  · rw [hchals]
    exact h.challenge_accepted
  · rw [hauths, hchals]
    exact h.authorisation_valid
  · rw [hauths, hchals]
    exact h.wildcard_dns01
  · refine hrows (fun o ho _ => h.no_processing o ho) ?_
    intro o _ _
    exact OrderStatus.noConfusion
  · refine hrows (fun o ho _ => h.valid_iff_named o ho) ?_
    intro o _ _
    exact ⟨fun _ => rfl, fun _ => rfl⟩
  · rw [hcerts]
    refine hrows ?_ ?_
    · intro o ho _ id hcert
      obtain ⟨c, hc, hrest⟩ := h.named o ho id hcert
      exact ⟨c, List.mem_append_left _ hc, hrest⟩
    · intro o _ hoid id hcert
      cases hcert
      exact ⟨recorded, List.mem_append_right _ (List.mem_singleton_self _), rfl,
        hrecorded.trans hoid.symm⟩
  · rw [ReadySound, hauths]
    refine hrows (fun o ho _ => hready o ho) ?_
    intro o _ _ hstatus
    cases hstatus

/-- What `revoke` does when it commits: one unrevoked row is marked and takes the
next change. -/
theorem revoke_ok {serial : String} {reason : Option Nat} {now : Time}
    {revoked : Certificate} (hs : s.revoke serial reason now = .ok (t, revoked)) :
    (∃ found ∈ s.certificates.rows, found.serial = serial ∧ found.revokedAt = none ∧
      revoked = { found with
        revokedAt := some now, revocationReason := reason, changed := s.nextChange }) ∧
      revoked.changed ≤ i64Max ∧
      t.certificates.rows = updateWhere
        (fun c => c.serial = serial && c.revokedAt.isNone)
        (fun c => { c with
          revokedAt := some now, revocationReason := reason, changed := s.nextChange })
        s.certificates.rows ∧
      t = { s with certificates := t.certificates } := by
  unfold Store.revoke at hs
  split at hs
  · cases hs
  rename_i found hfound
  split at hs
  · cases hs
  rename_i hrevoked
  split at hs
  · cases hs
  obtain ⟨checked, hcheck, hs⟩ := bind_eq_ok.mp hs
  dsimp only at hs
  split at hs
  · cases hs
  rename_i hmax
  cases hs
  refine ⟨⟨found, List.mem_of_find?_eq_some hfound, ?_, ?_, rfl⟩, not_lt.mp hmax,
    Certificates.check_ok hcheck, rfl⟩
  · simpa using List.find?_some hfound
  · simpa using hrevoked

/-- Only a certificate that is revoked is refused as revoked already. -/
theorem revoked_of_alreadyRevoked {serial already : String} {reason : Option Nat} {now : Time}
    (hs : s.revoke serial reason now = .error (.alreadyRevoked already)) {found : Certificate}
    (hfound : s.certificates.rows.find? (·.serial = serial) = some found) :
    found.revokedAt.isSome = true := by
  unfold Store.revoke at hs
  rw [hfound] at hs
  dsimp only at hs
  split at hs
  next hsome => exact hsome
  next =>
    split at hs
    · cases hs
    · cases hcheck : Certificates.check (updateWhere
          (fun c => c.serial = serial && c.revokedAt.isNone)
          (fun c => { c with
            revokedAt := some now, revocationReason := reason, changed := s.nextChange })
          s.certificates.rows) with
      | error e =>
        rw [hcheck] at hs
        unfold Certificates.check at hcheck
        split at hcheck
        · cases hcheck
        · cases hcheck
          cases hs
      | ok checked =>
        rw [hcheck] at hs
        dsimp only [Bind.bind, Except.bind] at hs
        split at hs
        · cases hs
        · cases hs

/-- Revoking touches no order. -/
theorem Sound.revoke (h : Sound accepted s) (hready : ReadySound s) {serial : String}
    {reason : Option Nat} {now : Time} {revoked : Certificate}
    (hs : s.revoke serial reason now = .ok (t, revoked)) :
    Sound accepted t ∧ ReadySound t := by
  obtain ⟨-, -, hrows, ht⟩ := revoke_ok hs
  rw [ht]
  refine ⟨{ h with named := ?_ }, hready⟩
  intro o ho id hcert
  obtain ⟨c, hc, hcid, hcof⟩ := h.named o ho id hcert
  simp only [hrows]
  cases hp : (c.serial = serial && c.revokedAt.isNone : Bool) with
  | false => exact ⟨c, mem_updateWhere_of_not hc hp, hcid, hcof⟩
  | true => exact ⟨_, mem_updateWhere_of hc hp, hcid, hcof⟩

theorem nextCrlNumber_ok {number : Int} (hs : s.nextCrlNumber = .ok (t, number)) :
    number = s.crlNumber.getD 0 + 1 ∧ number ≤ i64Max ∧
      t = { s with crlNumber := some number } := by
  unfold Store.nextCrlNumber at hs
  dsimp only at hs
  split at hs
  · cases hs
  rename_i hmax
  cases hs
  refine ⟨?_, not_lt.mp hmax, rfl⟩
  cases s.crlNumber with
  | none => rfl
  | some last => rfl

end Opca.Acme

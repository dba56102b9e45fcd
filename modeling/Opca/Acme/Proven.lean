/-
  Acme/Proven.lean --- from a certificate's name back to its proof: in every run, each name
  of each certificate was validated for the account that ordered it, by a challenge of the
  order's own authorisation (`acme/server.rs`, `acme/store.rs`).
-/
import Opca.Acme.Pending

set_option autoImplicit false

namespace Opca.Acme.Handlers

open Opca.Foundation Prog

/-! ## What is known of a run -/

/-- A validation that succeeded is known of the challenge. -/
def Vouched (passed : Validation → Prop) (s : Shared) (challenge : Int) : Prop :=
  ∃ v, passed v ∧ v.challenge = challenge ∧ Asked s v

theorem Vouched.rely {passed : Validation → Prop} {s t : Shared} {challenge : Int}
    (h : Vouched passed s challenge) (hst : Rely s t) : Vouched passed t challenge := by
  obtain ⟨v, hpassed, hof, hasked⟩ := h
  exact ⟨v, hpassed, hof, hasked.rely hst⟩

/-- The name has an authorisation of the certificate's order, with a valid challenge. -/
def Backed (s : Store) (c : Certificate) (name : String) : Prop :=
  Placed s c.account c.order ∧
    ∃ x ∈ s.authorisations.rows, x.order = c.order ∧ x.identifier = baseOf name ∧
      x.wildcard = (stripPrefix "*." name).isSome ∧
      ∃ challenge ∈ s.challenges.rows, challenge.authorisation = x.id ∧
        challenge.status = .valid

/-- No challenge loses its verdict. -/
def KeepsValid (s t : Store) : Prop :=
  ∀ c ∈ s.challenges.rows, c.status = .valid →
    ∃ c' ∈ t.challenges.rows, c'.id = c.id ∧ c'.status = .valid

theorem Backed.kept {s t : Store} {c : Certificate} {name : String} (h : Backed s c name)
    (hst : Within (fun _ => True) (fun _ => True) s t) (hvalid : KeepsValid s t) :
    Backed t c name := by
  obtain ⟨hplaced, x, hx, horder, hidentifier, hwildcard, challenge, hchallenge, hof, hstatus⟩ := h
  obtain ⟨x', hx', hid, hkeeps, -⟩ := hst.authorisations.kept x hx
  obtain ⟨d, hd, hdid, hdstatus⟩ := hvalid challenge hchallenge hstatus
  obtain ⟨e, he, heid, hekeeps, -⟩ := hst.challenges.kept challenge hchallenge
  have hsame : e = d := Table.eq_of_key he hd (heid.trans hdid.symm)
  refine ⟨hst.placed hplaced, x', hx', hkeeps.1.trans horder, hkeeps.2.1.trans hidentifier,
    hkeeps.2.2.trans hwildcard, d, hd, ?_, hdstatus⟩
  rw [← hsame, hekeeps.1, hof, hid]

/-- What is known once the validations of which `passed` holds have succeeded. -/
structure Proven (passed : Validation → Prop) (s : Shared) : Prop where
  keyed : Keyed s
  sound : ∃ accepted, Sound accepted s.store ∧ ReadySound s.store
  ordered : Ordered s.store
  validating : ∀ v ∈ s.validating, Asked s v
  judged : ∀ r ∈ s.judged, r.outcome = none → Vouched passed s r.challenge
  valid : ∀ c ∈ s.store.challenges.rows, c.status = .valid → Vouched passed s c.id
  issued : ∀ c ∈ s.store.certificates.rows, ∀ name, c.Names name → Backed s.store c name

section Steps

variable {passed passed' : Validation → Prop} {s t : Shared}

theorem Proven.mono (h : Proven passed s) (hpassed : ∀ v, passed v → passed' v) :
    Proven passed' s where
  keyed := h.keyed
  sound := h.sound
  ordered := h.ordered
  validating := h.validating
  judged r hr hnone := by
    obtain ⟨v, hv, hof⟩ := h.judged r hr hnone
    exact ⟨v, hpassed v hv, hof⟩
  valid c hc hvalid := by
    obtain ⟨v, hv, hof⟩ := h.valid c hc hvalid
    exact ⟨v, hpassed v hv, hof⟩
  issued := h.issued

/-- A certificate that there may come to be is backed: its order is ready, so the
authorisations are valid, and each has a valid challenge. -/
theorem Proven.backed_of_issuable (h : Proven passed s) {c : Certificate}
    (hc : Issuable s.store c) {name : String} (hname : c.Names name) :
    Backed s.store c name := by
  obtain ⟨accepted, hsound, hready⟩ := h.sound
  obtain ⟨o, ho, hid, haccount, hstatus, hnames⟩ := hc
  have hstatus : o.status = .ready := hstatus.resolve_right (hsound.no_processing o ho)
  obtain ⟨ordered, hordered, hlower⟩ := List.mem_map.mp (hnames name hname)
  obtain ⟨hsame, x, hx, horder, hidentifier, hwildcard⟩ := h.ordered o ho ordered hordered
  have hname : ordered = name := hsame.symm.trans hlower
  rw [hname] at hidentifier hwildcard
  obtain ⟨challenge, hchallenge, hof, hvalid⟩ :=
    hsound.authorisation_valid x hx (hready o ho hstatus x hx horder)
  exact ⟨⟨o, ho, hid, haccount⟩, x, hx, horder.trans hid, hidentifier, hwildcard, challenge,
    hchallenge, hof, hvalid⟩

/-- What is known stays known through a step that breaks nothing. -/
theorem Proven.advance (h : Proven passed s) (hst : Rely s t)
    (hsound : ∃ accepted, Sound accepted t.store ∧ ReadySound t.store)
    (hordered : Ordered t.store)
    (hvalidating : ∀ v ∈ t.validating, v ∈ s.validating ∨ Asked t v)
    (hjudged : ∀ r ∈ t.judged, r ∈ s.judged ∨
      (r.outcome = none → Vouched passed t r.challenge))
    (hverdicts : ∀ c ∈ t.store.challenges.rows, c.status = .valid →
      (∃ c' ∈ s.store.challenges.rows, c'.id = c.id ∧ c'.status = .valid) ∨
        Vouched passed t c.id)
    (hkeeps : KeepsValid s.store t.store)
    (hissued : ∀ c ∈ t.store.certificates.rows, RecordedIn s.store c ∨ Issuable s.store c) :
    Proven passed t where
  keyed := hst.keyed h.keyed
  sound := hsound
  ordered := hordered
  validating v hv := (hvalidating v hv).elim (fun hold => (h.validating v hold).rely hst) id
  judged r hr hnone := by
    rcases hjudged r hr with hold | hnew
    · exact (h.judged r hold hnone).rely hst
    · exact hnew hnone
  valid c hc hvalid := by
    rcases hverdicts c hc hvalid with ⟨c', hc', hid, hold⟩ | hnew
    · rw [← hid]
      exact (h.valid c' hc' hold).rely hst
    · exact hnew
  issued c hc name hname := by
    rcases hissued c hc with ⟨c', hc', horder, haccount, hnames⟩ | hissuable
    · have hbacked := (h.issued c' hc' name (hnames name hname)).kept hst.within hkeeps
      unfold Backed at hbacked ⊢
      rw [← horder, ← haccount]
      exact hbacked
    · exact (h.backed_of_issuable hissuable hname).kept hst.within hkeeps

theorem Proven.action {Jws Key : Type} {reading : Reading Jws Key} {caller : Caller}
    (h : Proven passed s) (hG : Guarantee reading caller s t) (hleaves : Leaves s t) :
    Proven passed t := by
  obtain ⟨accepted, hsound, hready⟩ := h.sound
  refine h.advance hG.rely ⟨accepted, hG.proper.sound accepted hsound hready⟩
    (hG.proper.ordered h.ordered) ?_ ?_ ?_ hleaves.valid hG.proper.issued
  · intro v hv
    exact (hG.validating v hv).imp_right And.left
  · intro r hr
    rw [hG.judged] at hr
    exact .inl hr
  · intro c hc hvalid
    obtain ⟨c', hc', hid, hstatus⟩ := hleaves.verdicts c hc (.inl hvalid)
    exact .inl ⟨c', hc', hid, hstatus.trans hvalid⟩

/-! ### Events -/

/-- What is resumed is what the challenges ask for. -/
theorem asked_of_processing (hkeyed : Keyed s) {v : Validation} (hv : v ∈ s.store.processing) :
    Asked s v := by
  obtain ⟨c, hc, hof⟩ := List.mem_filterMap.mp hv
  obtain ⟨x, hx, hof⟩ := Option.bind_eq_some_iff.mp hof
  obtain ⟨o, ho, hof⟩ := Option.bind_eq_some_iff.mp hof
  obtain ⟨a, ha, hof⟩ := Option.bind_eq_some_iff.mp hof
  cases hof
  obtain ⟨hxmem, hxid⟩ := Table.get?_eq_some.mp hx
  obtain ⟨homem, hoid⟩ := Table.get?_eq_some.mp ho
  obtain ⟨hamem, haid⟩ := Table.get?_eq_some.mp ha
  exact ⟨c, (List.mem_filter.mp hc).1, rfl, rfl, x, hxmem, hxid, rfl, heldKey a,
    hkeyed a hamem, ⟨o, homem, hoid, haid.symm⟩, rfl⟩

/-- An event that leaves the tables. -/
theorem Proven.quiet (h : Proven passed s) (hstore : t.store = s.store) (hheld : t.held = s.held)
    (hvalidating : ∀ v ∈ t.validating, v ∈ s.validating ∨ Asked t v)
    (hjudged : ∀ r ∈ t.judged, r ∈ s.judged ∨
      (r.outcome = none → Vouched passed t r.challenge)) : Proven passed t := by
  apply h.advance (Rely.of_eq hstore hheld) _ _ hvalidating hjudged
  · intro c hc hvalid
    rw [hstore] at hc
    exact .inl ⟨c, hc, rfl, hvalid⟩
  · intro c hc hvalid
    exact ⟨c, by rw [hstore]; exact hc, rfl, hvalid⟩
  · intro c hc
    rw [hstore] at hc
    exact .inl (recordedIn_of_mem hc)
  · rw [hstore]
    exact h.sound
  · rw [hstore]
    exact h.ordered

/-- A verdict is recorded of a challenge that was judged. -/
theorem Proven.recorded (h : Proven passed s) {r : Judgement} (hr : r ∈ s.judged) {now : Time}
    {store : Store} (hrecorded : recorded s.store r now = .ok store)
    (hst : Rely s t) (hstore : t.store = store) (hvalidating : t.validating = s.validating)
    (hjudged : t.judged = s.judged.erase r) : Proven passed t := by
  obtain ⟨accepted, hsound, hready⟩ := h.sound
  obtain ⟨next, error, hnext, hset⟩ := recorded_ok hrecorded
  obtain ⟨hrefers, -, hmoves⟩ := setChallengeStatus_moves hset
  apply h.advance hst
  · rw [hstore]
    exact ⟨_, (hsound.accept r.challenge).setChallengeStatus hready
      (fun _ => List.mem_cons_self) hset⟩
  · rw [hstore]
    exact hrefers.ordered h.ordered
  · intro v hv
    rw [hvalidating] at hv
    exact .inl hv
  · intro r' hr'
    rw [hjudged] at hr'
    exact .inl (List.mem_of_mem_erase hr')
  · intro c hc hvalid
    rw [hstore] at hc
    rcases hmoves c hc with ⟨hthis, hdecided⟩ | ⟨-, c', hc', hid, hstatus⟩
    · rcases hnext with ⟨-, hnone⟩ | hinvalid
      · rw [hthis]
        exact .inr ((h.judged r hr hnone).rely hst)
      · cases hvalid.symm.trans (hdecided.trans hinvalid)
    · exact .inl ⟨c', hc', hid, hstatus.trans hvalid⟩
  · intro c hc hvalid
    rw [hstore]
    exact setChallengeStatus_valid hset hc hvalid
  · intro c hc
    rw [hstore, setChallengeStatus_certificates hset] at hc
    exact .inl (recordedIn_of_mem hc)

theorem Proven.event (h : Proven passed s) {capacity : Nat} {e : Event}
    (he : event capacity s e = some t) :
    Proven (fun v => passed v ∨ e = .validated v none) t := by
  have hst := rely_of_event capacity he
  have hmono := h.mono (fun v hv => (.inl hv : passed v ∨ e = .validated v none))
  cases e with
  | issueNonce nonce =>
    cases he
    exact hmono.quiet rfl rfl (fun _ hv => .inl hv) fun _ hr => .inl hr
  | setIssuer issuer =>
    cases he
    exact hmono.quiet rfl rfl (fun _ hv => .inl hv) fun _ hr => .inl hr
  | setPaused paused =>
    cases he
    exact hmono.quiet rfl rfl (fun _ hv => .inl hv) fun _ hr => .inl hr
  | restart =>
    cases he
    exact hmono.quiet rfl rfl (by simp) (by simp)
  | resume =>
    simp only [Handlers.event] at he
    split at he
    · cases he
      exact hmono
    · cases he
      refine hmono.quiet rfl rfl ?_ fun _ hr => .inl hr
      intro v hv
      rcases List.mem_append.mp hv with hold | hnew
      · exact .inl hold
      · exact .inr ((asked_of_processing h.keyed hnew).rely hst)
  | validated v outcome =>
    simp only [Handlers.event] at he
    split at he
    next hv =>
      cases he
      refine hmono.quiet rfl rfl (fun _ hw => .inl (List.mem_of_mem_erase hw)) ?_
      intro r hr
      rcases List.mem_append.mp hr with hold | hnew
      · exact .inl hold
      · rw [List.mem_singleton.mp hnew]
        refine .inr ?_
        intro hnone
        have hnone : outcome = none := hnone
        exact ⟨v, .inr (by rw [hnone]), rfl, (h.validating v hv).rely hst⟩
    · cases he
  | recordValidation r now =>
    simp only [Handlers.event] at he
    split at he
    next hr =>
      cases hrecorded : Handlers.recorded s.store r now with
      | ok store =>
        simp only [hrecorded] at he
        cases he
        exact hmono.recorded hr hrecorded hst rfl rfl rfl
      | error error =>
        simp only [hrecorded] at he
        cases he
        exact hmono.quiet rfl rfl (fun _ hv => .inl hv)
          fun _ hr' => .inl (List.mem_of_mem_erase hr')
    · cases he
  | loseValidation r =>
    simp only [Handlers.event] at he
    split at he
    · cases he
      exact hmono.quiet rfl rfl (fun _ hv => .inl hv)
        fun _ hr' => .inl (List.mem_of_mem_erase hr')
    · cases he

end Steps

/-! ## In a run -/

section Theorems

variable {Jws Key : Type} {reading : Reading Jws Key} {rules : NameRules}
  {fromDer : List UInt8 → Except String Csr} {describeName : SubjectAltName → String}
  {describeKey : KeyDescription → String} {lifetime : Time} {capacity : Nat}
  {p q : Pool Shared Moment Caller (Except Declined Answer)}

/-- Nothing is known of an empty database, and nothing is to be. -/
theorem Proven.empty (hstarts : Starts p.state) (hempty : p.state.store = .empty) :
    Proven (fun _ => False) p.state := by
  obtain ⟨-, hvalidating, hjudged, -, hheld⟩ := hstarts
  refine ⟨?_, ?_, ?_, ?_, ?_, ?_, ?_⟩
  · intro row hrow
    rw [hheld]
    exact List.mem_map_of_mem hrow
  · rw [hempty]
    refine ⟨[], Sound.empty, ?_⟩
    intro o ho
    cases ho
  · rw [hempty]
    intro o ho
    cases ho
  · rw [hvalidating]
    simp
  · rw [hjudged]
    simp
  · rw [hempty]
    intro c hc
    cases hc
  · rw [hempty]
    intro c hc
    cases hc

theorem Proven.step {passed : Validation → Prop} (h : Proven passed p.state)
    (hreach : (handlers reading rules fromDer describeName describeKey lifetime
      capacity).system.Reachable p)
    (hhonest : p.Honest Leaves Stranded StartsValidation)
    {l : PoolLabel Moment Caller Event}
    (hstep : (handlers reading rules fromDer describeName describeKey lifetime capacity).next p l
      = some q) :
    Proven (fun v => passed v ∨ l = .environment (.validated v none)) q.state := by
  have hd := disciplined reading rules fromDer describeName describeKey lifetime capacity
  rcases Pool.step_cases hd hreach hstep with hsame | ⟨place, moment, thread, rfl, -, hG⟩ |
    ⟨e, rfl, hevent⟩
  · rw [hsame]
    exact h.mono fun _ hv => .inl hv
  · refine Proven.mono ?_ fun _ hv => .inl hv
    rcases hhonest.action hstep with hsame | hleaves
    · rw [hsame]
      exact h
    · exact h.action hG hleaves
  · refine (h.event hevent).mono ?_
    intro v hv
    rcases hv with hbefore | rfl
    · exact .inl hbefore
    · exact .inr rfl

theorem Proven.run {passed : Validation → Prop} (h : Proven passed p.state)
    (hreach : (handlers reading rules fromDer describeName describeKey lifetime
      capacity).system.Reachable p)
    (hhonest : p.Honest Leaves Stranded StartsValidation)
    {ls : List (PoolLabel Moment Caller Event)}
    (hrun : (handlers reading rules fromDer describeName describeKey lifetime capacity).exec ls p
      = some q) :
    Proven (fun v => passed v ∨ .environment (.validated v none) ∈ ls) q.state := by
  induction ls generalizing p passed with
  | nil =>
    cases hrun
    exact h.mono fun _ hv => .inl hv
  | cons l ls ih =>
    rw [Machine.exec_cons, Option.bind_eq_some_iff] at hrun
    obtain ⟨r, hstep, hrest⟩ := hrun
    refine (ih (h.step hreach hhonest hstep) (.step hreach hstep)
      (hhonest.step (mild_handle lifetime) hstep) hrest).mono ?_
    intro v hv
    rcases hv with (hbefore | rfl) | hlater
    · exact .inl hbefore
    · exact .inr List.mem_cons_self
    · exact .inr (List.mem_cons_of_mem l hlater)

/-- **Every name was proven.**  In every run from an empty database, whatever is interleaved
with whatever and however often it restarts: a certificate is valid for a name only once
a validation of the name has succeeded, that a challenge of the order's own authorisation
asked for (dns-01 for a wildcard), with a key that the account that ordered it was given. -/
theorem issued_proven
    (hinit : (handlers reading rules fromDer describeName describeKey lifetime capacity).init p)
    (hempty : p.state.store = .empty) {ls : List (PoolLabel Moment Caller Event)}
    (hrun : (handlers reading rules fromDer describeName describeKey lifetime capacity).exec ls p
      = some q)
    {c : Certificate} (hc : c ∈ q.state.store.certificates.rows) {name : String}
    (hname : c.Names name) :
    ∃ x ∈ q.state.store.authorisations.rows, x.order = c.order ∧
      ∃ challenge ∈ q.state.store.challenges.rows, challenge.authorisation = x.id ∧
        ((stripPrefix "*." name).isSome = true → challenge.kind = .dns01) ∧
        ∃ given ∈ q.state.held, given.account = c.account ∧
          .environment (.validated ⟨challenge.id, challenge.kind, baseOf name,
            challenge.token ++ "." ++ given.thumbprint⟩ none) ∈ ls := by
  have ⟨hstarts, hthreads, _⟩ := hinit
  have hhonest : p.Honest Leaves Stranded StartsValidation := by
    intro thread hthread
    rw [hthreads] at hthread
    cases hthread
  have hproven := (Proven.empty hstarts hempty).run (.init hinit) hhonest hrun
  obtain ⟨accepted, hsound, -⟩ := hproven.sound
  obtain ⟨⟨o, ho, hoid, hoaccount⟩, x, hx, horder, hidentifier, hwildcard, challenge, hchallenge,
    hof, hvalid⟩ := hproven.issued c hc name hname
  obtain ⟨v, hpassed, hvof, d, hd, hdid, hkind, y, hy, hyid, hyidentifier, given, hgiven,
    ⟨o', ho', hoid', hoaccount'⟩, hkey⟩ := hproven.valid challenge hchallenge hvalid
  -- the rows that the validation names are these
  have hdsame : d = challenge := Table.eq_of_key hd hchallenge (hdid.trans hvof)
  rw [hdsame] at hkind hyid hkey
  have hysame : y = x := Table.eq_of_key hy hx (hyid.trans hof)
  rw [hysame] at hyidentifier hoid'
  have hosame : o' = o := Table.eq_of_key ho' ho (hoid'.trans (horder.trans hoid.symm))
  refine ⟨x, hx, horder, challenge, hchallenge, hof, ?_, given, hgiven, ?_, ?_⟩
  · intro hwild
    exact hsound.wildcard_dns01 x hx (hwildcard.trans hwild) challenge hchallenge hof
  · rw [← hoaccount', hosame, hoaccount]
  · have hv : v = ⟨challenge.id, challenge.kind, baseOf name,
        challenge.token ++ "." ++ given.thumbprint⟩ := by
      obtain ⟨vid, vkind, videntifier, vkey⟩ := v
      dsimp only at hvof hkind hyidentifier hkey
      rw [hvof, ← hkind, ← hyidentifier, hidentifier, hkey]
    rw [← hv]
    exact hpassed.resolve_left not_false

/-- A body asks for an account, for an order, for its validation or for the certificate. -/
def provingReading : Reading ReadJws String := { sampledReading with
  parse
    | [1] => .ok ⟨⟨"https://ca/acme/new-account", some "n", .jwk "k1"⟩, "k1", [1]⟩
    | [2] => .ok ⟨⟨"https://ca/acme/new-order", some "n", .kid "https://ca/acme/account/1"⟩,
        "k1", [2]⟩
    | [3] => .ok ⟨⟨"https://ca/acme/chall/1", some "n", .kid "https://ca/acme/account/1"⟩,
        "k1", [3]⟩
    | [4] => .ok ⟨⟨"https://ca/acme/order/1/finalize", some "n",
        .kid "https://ca/acme/account/1"⟩, "k1", [4]⟩
    | _ => .error ⟨.other, "no JWS"⟩
  orderRequest _ := .ok ⟨[⟨"dns", "*.example"⟩], none, none⟩
  object _ := .ok ()
  finaliseRequest _ := .ok "leaf" }

def provingMoment : Moment := ⟨1, ["t"], fun _ => .ok ("7", "leaf")⟩

def provingHandlers : Machine (Pool Shared Moment Caller (Except Declined Answer))
    (PoolLabel Moment Caller Event) :=
  handlers provingReading plainRules
    (fun _ => .ok ⟨[9], .ecdsa (some "P-256"), [.dns "*.example"], none⟩)
    (fun _ => "a name") (fun _ => "a key") 100 4096

/-- A request from its nonce to its answer. -/
def askedFor (route : Route) (path : String) (body : List UInt8) (actions : Nat) :
    List (PoolLabel Moment Caller Event) :=
  [.environment (.issueNonce "n"), .start (.client route (sampledPost path body))] ++
    List.replicate actions (.run 0 provingMoment)

/-- A wildcard is ordered, validated and issued. -/
def provingRun : List (PoolLabel Moment Caller Event) :=
  .environment (.setIssuer ⟨"", "5", 1000 * day, ⟨["example"], [.dns01], 30, 90⟩, none⟩) ::
    askedFor .newAccount "/acme/new-account" [1] 5 ++
    askedFor .newOrder "/acme/new-order" [2] 6 ++
    askedFor (.challenge 1) "/acme/chall/1" [3] 10 ++
    [.environment (.validated ⟨1, .dns01, "example", "t.k1"⟩ none),
      .environment (.recordValidation ⟨1, none⟩ 1)] ++
    askedFor (.finalise 1) "/acme/order/1/finalize" [4] 7

theorem issued_proven_wildcard :
    ∃ q : Pool Shared Moment Caller (Except Declined Answer),
      q.state.store.certificates.rows.map Certificate.sans = [["*.example"]] ∧
      ∃ challenge ∈ q.state.store.challenges.rows, challenge.kind = .dns01 := by
  have hrun : (provingHandlers.exec provingRun (sampledPool .empty)).any (fun q =>
      decide (q.state.store.certificates.rows.map Certificate.sans = [["*.example"]])) = true := by
    decide +kernel
  obtain ⟨q, hexec, hview⟩ := (Option.any_eq_true _ _).mp hrun
  have hsans := of_decide_eq_true hview
  obtain ⟨c, hc, hcsans⟩ : ∃ c ∈ q.state.store.certificates.rows, c.sans = ["*.example"] :=
    List.mem_map.mp (by rw [hsans]; exact List.mem_singleton_self _)
  have hname : c.Names "*.example" := .inl (by rw [hcsans]; exact List.mem_singleton_self _)
  obtain ⟨x, -, -, challenge, hchallenge, -, hdns01, -⟩ :=
    issued_proven ⟨⟨rfl, rfl, rfl, rfl, rfl⟩, rfl, rfl⟩ rfl hexec hc hname
  exact ⟨q, hsans, challenge, hchallenge, hdns01 (by decide)⟩

end Theorems

end Opca.Acme.Handlers

/-
  Acme/Validated.lean --- where a validation may go, whatever it is answered, and what a
  name must answer to be validated over http (acme/validate.rs).
-/
import Opca.Acme.Validate
import Opca.Foundation.Fallible

set_option autoImplicit false

namespace Opca.Acme.Validate

open Foundation

variable {σ ε α : Type} {P : Contact → Prop} {crates : Crates} {network : Network σ}
  {v : Validator} {ports : Ports} {name host keyAuthorisation : String} {target : Target}
  {before : List Target}

/-! ## Waiting -/

/-- What holds of the contacts. -/
def Of (Q : List Contact → Prop) (s : Dialogue σ) : Prop := Q s.contacts

theorem wait_ensures {Q F : List Contact → Prop} {R : Except ε α → List Contact → Prop}
    {call : σ → Wait ε α × σ} {contact : Option α → Contact}
    (hlate : ∀ cs, Q cs → F (cs ++ [contact none]))
    (hfailed : ∀ cs e, Q cs → R (.error e) (cs ++ [contact none]))
    (hcame : ∀ cs a, Q cs → R (.ok a) (cs ++ [contact (some a)])) :
    Ensures (Of Q) (wait call contact) (fun a => Of (R a)) (Of F) := by
  intro s hs
  unfold wait
  cases hcall : call s.outside with
  | mk answer outside =>
    cases answer with
    | late => exact hlate _ hs
    | failed e => exact hfailed _ e hs
    | came a => exact hcame _ a hs

theorem refuse_ensures {Q F : List Contact → Prop} {R : α → List Contact → Prop} {kind : Kind}
    {detail : String} (h : ∀ cs, Q cs → F cs) :
    Ensures (Of Q) (refuse kind detail : Validation σ α) (fun a => Of (R a)) (Of F) :=
  Ensures.throw fun _ hs => h _ hs

theorem orProblem_ensures {Q F : List Contact → Prop} {R : α → List Contact → Prop}
    {kind : Kind} {detail : ε → String} {answer : Except ε α}
    (hok : ∀ a cs, answer = .ok a → Q cs → R a cs) (herror : ∀ cs, Q cs → F cs) :
    Ensures (Of Q) (orProblem kind detail answer : Validation σ α) (fun a => Of (R a)) (Of F) := by
  apply Ensures.outcome
  · intro a s ha hs
    obtain hanswer := mapError_eq_ok.mp ha
    exact hok a _ hanswer hs
  · intro s hs
    exact herror _ hs

/-! ## Contacts that are no requests -/

/-- Good contacts, with these requests among them. -/
def Sent (P : Contact → Prop) (before : List Target) (contacts : List Contact) : Prop :=
  Good P contacts ∧ requests contacts = before

theorem Sent.add {contacts : List Contact} {c : Contact} (h : Sent P before contacts) (hc : P c)
    (hnot : ∀ host address port, c ≠ .dial host address port) (hrequest : requests [c] = []) :
    Sent P before (contacts ++ [c]) := by
  refine ⟨h.1.add hc hnot, ?_⟩
  rw [requests, List.filterMap_append]
  exact (congrArg (_ ++ ·) hrequest).trans ((List.append_nil _).trans h.2)

theorem connectAny_ensures {port : Nat} {refused : Option String}
    {addresses answered : List IpAddr} (hdial : ∀ address, P (.dial host address port))
    (hsub : ∀ address ∈ addresses, address ∈ answered) :
    Ensures (Of fun cs => Sent P before cs ∧ .lookup host (some answered) ∈ cs)
      (connectAny network host port addresses refused) (fun _ => Of (Sent P before))
      (Of (Sent P before)) := by
  induction addresses generalizing refused with
  | nil => exact refuse_ensures fun _ h => h.1
  | cons address addresses ih =>
    have hpush : ∀ cs, Sent P before cs ∧ .lookup host (some answered) ∈ cs →
        Sent P before (cs ++ [.dial host address port]) := by
      intro cs h
      refine ⟨h.1.1.push (hdial address) ?_, ?_⟩
      · intro host' address' port' heq
        cases heq
        exact ⟨answered, h.2, hsub address List.mem_cons_self⟩
      · rw [requests, List.filterMap_append]
        exact (List.append_nil _).trans h.1.2
    refine Ensures.bind (wait_ensures (R := fun _ cs =>
      Sent P before cs ∧ .lookup host (some answered) ∈ cs) (fun cs h => hpush cs h) ?_ ?_) ?_
    · intro cs e h
      exact ⟨hpush cs h, List.mem_append_left _ h.2⟩
    · intro cs a h
      exact ⟨hpush cs h, List.mem_append_left _ h.2⟩
    · intro answer
      cases answer with
      | ok a => exact Ensures.pure fun _ h => h.1
      | error e => exact ih fun a ha => hsub a (List.mem_cons_of_mem _ ha)

theorem connect_ensures {port : Nat} (hlookup : ∀ answer, P (.lookup host answer))
    (hdial : ∀ address, P (.dial host address port)) :
    Ensures (Of (Sent P before)) (connect network host port) (fun _ => Of (Sent P before))
      (Of (Sent P before)) := by
  have hadd : ∀ cs answer, Sent P before cs → Sent P before (cs ++ [.lookup host answer]) :=
    fun cs answer h => h.add (hlookup answer) (fun _ _ _ => by simp) rfl
  refine Ensures.bind (wait_ensures (R := fun answer cs => Sent P before cs ∧
    ∀ addresses, answer = .ok addresses → .lookup host (some addresses) ∈ cs)
    (fun cs h => hadd cs none h) ?_ ?_) ?_
  · intro cs e h
    exact ⟨hadd cs none h, fun _ heq => by cases heq⟩
  · intro cs a h
    refine ⟨hadd cs (some a) h, ?_⟩
    intro addresses heq
    cases heq
    simp
  · intro answer
    refine Ensures.bind (orProblem_ensures (R := fun addresses cs =>
      Sent P before cs ∧ .lookup host (some addresses) ∈ cs) ?_ fun cs h => h.1) ?_
    · intro addresses cs hanswer h
      exact ⟨h.1, h.2 addresses hanswer⟩
    · intro addresses
      exact connectAny_ensures hdial fun _ ha => ha

theorem serverName_ensures {Q : List Contact → Prop} :
    Ensures (Of Q) (serverName crates host : Validation σ Unit) (fun _ => Of Q) (Of Q) :=
  orProblem_ensures (fun _ _ _ h => h) fun _ h => h

theorem handshake_ensures {alpn : List UInt8} {port : Nat} (h : P (.handshake host port alpn)) :
    Ensures (Of (Sent P before))
      (wait (network.handshake alpn host) fun _ => .handshake host port alpn)
      (fun _ => Of (Sent P before)) (Of (Sent P before)) := by
  have hadd : ∀ cs, Sent P before cs → Sent P before (cs ++ [.handshake host port alpn]) :=
    fun cs hcs => hcs.add h (fun _ _ _ => by simp) rfl
  exact wait_ensures hadd (fun cs _ => hadd cs) fun cs _ => hadd cs

/-! ## http-01 -/

theorem handshakeTls_ensures
    (h : P (.handshake target.host target.port ("http/1.1".toList.map Char.toUInt8))) :
    Ensures (Of (Sent P before)) (handshakeTls crates network target)
      (fun _ => Of (Sent P before)) (Of (Sent P before)) := by
  refine Ensures.bind serverName_ensures fun _ => ?_
  refine Ensures.bind (handshake_ensures h) fun session => ?_
  refine Ensures.bind (orProblem_ensures (fun _ _ _ hcs => hcs) fun _ hcs => hcs) fun _ => ?_
  exact Ensures.pure fun _ hcs => hcs

theorem secure_ensures (h : target.Allowed ports name) :
    Ensures (Of (Sent (Permitted ports name .http01) before)) (secure crates network target)
      (fun _ => Of (Sent (Permitted ports name .http01) before))
      (Of (Sent (Permitted ports name .http01) before)) := by
  unfold secure
  cases hhttps : target.https with
  | true =>
    apply handshakeTls_ensures
    refine ⟨h.named, ?_⟩
    rw [h.port_eq, hhttps]
    rfl
  | false => exact Ensures.pure fun _ hcs => hcs

/-- The target is asked, last. -/
theorem get_ensures (h : target.Allowed ports name) :
    Ensures (Of (Sent (Permitted ports name .http01) before)) (get crates network target)
      (fun _ => Of (Sent (Permitted ports name .http01) (before ++ [target])))
      (Of fun cs => Sent (Permitted ports name .http01) before cs ∨
        Sent (Permitted ports name .http01) (before ++ [target]) cs) := by
  have hport : target.port = ports.http ∨ target.port = ports.https := by
    rw [h.port_eq]
    cases target.https with
    | true => exact .inr rfl
    | false => exact .inl rfl
  have hconnect : Ensures (Of (Sent (Permitted ports name .http01) before))
      (connect network target.host target.port)
      (fun _ => Of (Sent (Permitted ports name .http01) before))
      (Of (Sent (Permitted ports name .http01) before)) :=
    connect_ensures (fun _ => h.named) fun _ => ⟨h.named, hport⟩
  have hsend : ∀ cs, Sent (Permitted ports name .http01) before cs →
      Sent (Permitted ports name .http01) (before ++ [target]) (cs ++ [.request target]) := by
    intro cs hcs
    refine ⟨hcs.1.add h fun _ _ _ => by simp, ?_⟩
    rw [requests, List.filterMap_append]
    exact congrArg (· ++ [target]) hcs.2
  refine Ensures.bind (hconnect.failing fun _ hcs => .inl hcs) fun _ => ?_
  refine Ensures.bind (orProblem_ensures (fun _ _ _ hcs => hcs) fun _ hcs => .inl hcs) fun _ => ?_
  refine Ensures.bind ((secure_ensures h).failing fun _ hcs => .inl hcs) fun _ => ?_
  refine Ensures.bind (wait_ensures (R := fun _ =>
    Sent (Permitted ports name .http01) (before ++ [target])) (fun cs hcs => .inr (hsend cs hcs))
    (fun cs _ hcs => hsend cs hcs) fun cs _ hcs => hsend cs hcs) fun sent => ?_
  exact orProblem_ensures (fun _ _ _ hcs => hcs) fun _ hcs => .inr hcs

theorem readBody_ensures (h : target.Allowed ports name) :
    Ensures (Of (Sent (Permitted ports name .http01) before))
      (readBody crates network target keyAuthorisation)
      (fun _ => Of (Sent (Permitted ports name .http01) before))
      (Of (Sent (Permitted ports name .http01) before)) := by
  have hadd : ∀ cs, Sent (Permitted ports name .http01) before cs →
      Sent (Permitted ports name .http01) before (cs ++ [.collect target]) :=
    fun cs hcs => hcs.add h (fun _ _ _ => by simp) rfl
  refine Ensures.bind (wait_ensures (R := fun _ => Sent (Permitted ports name .http01) before)
    hadd (fun cs _ => hadd cs) fun cs _ => hadd cs) fun body => ?_
  refine Ensures.bind (orProblem_ensures (R := fun _ => Sent (Permitted ports name .http01) before)
    (fun _ _ _ hcs => hcs) fun _ hcs => hcs) fun body => ?_
  split
  · exact refuse_ensures fun _ hcs => hcs
  · split
    · exact refuse_ensures fun _ hcs => hcs
    · dsimp only
      split
      · exact Ensures.pure fun _ hcs => hcs
      · exact refuse_ensures fun _ hcs => hcs

/-- The requests made when `target` is next: a chain of redirects from the first. -/
structure Led (crates : Crates) (ports : Ports) (start : Target) (before : List Target)
    (target : Target) : Prop where
  chain : (before ++ [target]).IsChain (Redirects crates ports)
  first : (before ++ [target]).head? = some start

/-- The requests made in the end. -/
structure Followed (crates : Crates) (ports : Ports) (start : Target) (limit : Nat)
    (sent : List Target) : Prop where
  chain : sent.IsChain (Redirects crates ports)
  first : ∀ target, sent.head? = some target → target = start
  count : sent.length ≤ limit

namespace Led

variable {start : Target} {limit : Nat}

theorem before_followed (h : Led crates ports start before target)
    (hlimit : before.length ≤ limit) : Followed crates ports start limit before where
  chain := (List.isChain_append.mp h.chain).1
  first := by
    intro t ht
    have hfirst := h.first
    rw [List.head?_append, ht] at hfirst
    exact Option.some_inj.mp hfirst
  count := hlimit

theorem followed (h : Led crates ports start before target) (hlimit : before.length < limit) :
    Followed crates ports start limit (before ++ [target]) where
  chain := h.chain
  first := by
    intro t ht
    rw [h.first] at ht
    exact (Option.some_inj.mp ht).symm
  count := by simpa using hlimit

theorem redirected {next : Target} (h : Led crates ports start before target)
    (hnext : Redirects crates ports target next) :
    Led crates ports start (before ++ [target]) next where
  chain := by
    apply List.isChain_append.mpr
    refine ⟨h.chain, List.isChain_singleton _, ?_⟩
    intro x hx y hy
    simp only [List.getLast?_append, List.getLast?_singleton, Option.some_or,
      Option.mem_some_iff, List.head?_cons] at hx hy
    rw [← hx, ← hy]
    exact hnext
  first := by
    rw [List.head?_append, h.first]
    rfl

end Led

/-- What the contacts of an http-01 validation come to. -/
def Over (crates : Crates) (ports : Ports) (name : String) (start : Target) (limit : Nat)
    (contacts : List Contact) : Prop :=
  Good (Permitted ports name .http01) contacts ∧
    Followed crates ports start limit (requests contacts)

theorem Sent.over {start : Target} {limit : Nat} {contacts : List Contact}
    (h : Sent (Permitted ports name .http01) before contacts)
    (hfollowed : Followed crates ports start limit before) :
    Over crates ports name start limit contacts := by
  refine ⟨h.1, ?_⟩
  rw [h.2]
  exact hfollowed

/-- Each turn of the loop asks the target that the last answer redirected to. -/
theorem attempts_ensures {start : Target} {limit n : Nat} (hled : Led crates v.ports start before target)
    (hallowed : target.Allowed v.ports name) (hcount : before.length + n ≤ limit) :
    Ensures (Of (Sent (Permitted v.ports name .http01) before))
      (attempts crates network v name keyAuthorisation n target)
      (fun _ => Of (Over crates v.ports name start limit))
      (Of (Over crates v.ports name start limit)) := by
  induction n generalizing before target with
  | zero => exact refuse_ensures fun _ hcs => hcs.over (hled.before_followed (by omega))
  | succ n ih =>
    have hfollowed : Followed crates v.ports start limit (before ++ [target]) :=
      hled.followed (by omega)
    refine Ensures.bind ((get_ensures hallowed).failing ?_) fun response => ?_
    · intro s hs
      rcases hs with hs | hs
      · exact hs.over (hled.before_followed (by omega))
      · exact hs.over hfollowed
    · split
      · split
        · exact refuse_ensures fun _ hcs => hcs.over hfollowed
        next location hlocation =>
          have hredirect : Ensures
              (Of (Sent (Permitted v.ports name .http01) (before ++ [target])))
              (outcome ((redirect crates v.ports target location).mapError .problem) :
                Validation σ Target)
              (fun next s => redirect crates v.ports target location = .ok next ∧
                Of (Sent (Permitted v.ports name .http01) (before ++ [target])) s)
              (Of (Over crates v.ports name start limit)) := by
            refine Ensures.outcome ?_ fun _ hs => hs.over hfollowed
            intro next s hnext hs
            exact ⟨mapError_eq_ok.mp hnext, hs⟩
          refine Ensures.bind hredirect fun next => ?_
          apply Ensures.of_and
          intro hnext
          apply ih (hled.redirected ⟨location, hnext⟩) (hallowed.redirected hnext)
          simp only [List.length_append, List.length_singleton]
          omega
      · split
        · exact refuse_ensures fun _ hcs => hcs.over hfollowed
        · exact (readBody_ensures hallowed).imp (fun _ hs => hs)
            (fun _ _ hs => hs.over hfollowed) fun _ hs => hs.over hfollowed

/-! ## The other kinds -/

theorem dns01_ensures {P : Contact → Prop} (h : P (.txt (challengeRecord name))) :
    Ensures (Of (Sent P before)) (dns01 crates network name keyAuthorisation)
      (fun _ => Of (Sent P before)) (Of (Sent P before)) := by
  have hadd : ∀ cs, Sent P before cs → Sent P before (cs ++ [.txt (challengeRecord name)]) :=
    fun cs hcs => hcs.add h (fun _ _ _ => by simp) rfl
  refine Ensures.bind (wait_ensures (R := fun _ => Sent P before) hadd (fun cs _ => hadd cs)
    fun cs _ => hadd cs) fun answer => ?_
  cases answer with
  | ok found =>
    dsimp only
    split
    · exact Ensures.pure fun _ hcs => hcs
    · exact refuse_ensures fun _ hcs => hcs
  | error e =>
    dsimp only
    split
    · exact refuse_ensures fun _ hcs => hcs
    · exact refuse_ensures fun _ hcs => hcs

theorem tlsAlpn01_ensures :
    Ensures (Of (Sent (Permitted v.ports name .tlsAlpn01) before))
      (tlsAlpn01 crates network v name keyAuthorisation)
      (fun _ => Of (Sent (Permitted v.ports name .tlsAlpn01) before))
      (Of (Sent (Permitted v.ports name .tlsAlpn01) before)) := by
  refine Ensures.bind (connect_ensures (fun _ => rfl) fun _ => ⟨rfl, rfl⟩) fun _ => ?_
  refine Ensures.bind serverName_ensures fun _ => ?_
  refine Ensures.bind (handshake_ensures ⟨rfl, rfl, rfl⟩) fun session => ?_
  refine Ensures.bind (orProblem_ensures (R := fun _ =>
    Sent (Permitted v.ports name .tlsAlpn01) before) (fun _ _ _ hcs => hcs) fun _ hcs => hcs)
    fun session => ?_
  split
  · exact refuse_ensures fun _ hcs => hcs
  · split
    · exact refuse_ensures fun _ hcs => hcs
    · exact orProblem_ensures (fun _ _ _ hcs => hcs) fun _ hcs => hcs

/-- A validation that asks nothing over http. -/
theorem followed_nil {start : Target} {limit : Nat} : Followed crates ports start limit [] where
  chain := List.isChain_nil
  first := by simp
  count := Nat.zero_le _

theorem contained_of_ensures {kind : ChallengeType} {start : Target} {limit : Nat}
    {Q R : List Contact → Prop} {outside : σ}
    (h : Ensures (Of Q) (answered crates network v kind name keyAuthorisation)
      (fun _ => Of R) (Of R)) (hnil : Q [])
    (hR : ∀ cs, R cs → Good (Permitted v.ports name kind) cs ∧
      Followed crates v.ports start limit (requests cs)) :
    Good (Permitted v.ports name kind)
        (validate crates network v kind name keyAuthorisation outside).2.contacts ∧
      Followed crates v.ports start limit
        (requests (validate crates network v kind name keyAuthorisation outside).2.contacts) := by
  apply hR
  have hs := h ⟨outside, []⟩ hnil
  unfold validate
  cases hanswered : answered crates network v kind name keyAuthorisation ⟨outside, []⟩ with
  | ok a s =>
    rw [hanswered] at hs
    exact hs
  | error e s =>
    rw [hanswered] at hs
    cases e with
    | problem p => exact hs
    | late => exact hs

/-! ## What is taken for an answer -/

/-- A key authorisation, as `Store::processing` and the challenge's handler put it together. -/
def keyAuthorisationOf (token thumbprint : List UInt8) : String :=
  base64url token ++ "." ++ base64url thumbprint

theorem alphabet_plain {c : Char} (h : c ∈ base64Alphabet) :
    c ≠ '.' ∧ isWhiteSpace c = false ∧ c ≠ Utf8.replacement := by
  have hall : base64Alphabet.all (fun c => decide (c ≠ '.') && !isWhiteSpace c &&
      decide (c ≠ Utf8.replacement)) = true := by
    decide
  have hc := List.all_eq_true.mp hall c h
  simpa [and_assoc] using hc

theorem mem_keyAuthorisationOf {token thumbprint : List UInt8} {c : Char}
    (h : c ∈ (keyAuthorisationOf token thumbprint).toList) :
    c ∈ base64Alphabet ∨ c = '.' := by
  simp only [keyAuthorisationOf, String.toList_append, List.mem_append] at h
  rcases h with (h | h) | h
  · exact .inl (mem_base64url h)
  · exact .inr (by simpa using h)
  · exact .inl (mem_base64url h)

theorem plain_keyAuthorisationOf {token thumbprint : List UInt8} {c : Char}
    (h : c ∈ (keyAuthorisationOf token thumbprint).toList) :
    isWhiteSpace c = false ∧ c ≠ Utf8.replacement := by
  rcases mem_keyAuthorisationOf h with h | h
  · exact (alphabet_plain h).2
  · rw [h]
    decide

/-- The token is what the first target's path ends in. -/
theorem tokenOf_keyAuthorisationOf (token thumbprint : List UInt8) :
    tokenOf (keyAuthorisationOf token thumbprint) = base64url token := by
  have hdots : ∀ c ∈ (base64url token).toList, decide (c ≠ '.') = true := by
    intro c hc
    exact decide_eq_true (alphabet_plain (mem_base64url hc)).1
  simp only [tokenOf, keyAuthorisationOf, String.toList_append]
  rw [List.append_assoc, List.takeWhile_append_of_pos hdots]
  simp

/-- A body that is the key authorisation, but for spaces after it. -/
structure Proves (keyAuthorisation : String) (body : Body) : Prop where
  whole : body.error = none
  short : body.bytes.length ≤ maxBody
  text : ∃ spaces, (∀ c ∈ spaces, isWhiteSpace c = true) ∧
    body.bytes = Utf8.encode (keyAuthorisation.toList ++ spaces)

/-- What was read is the key authorisation just when its bytes were sent, and then spaces. -/
theorem trimEnd_iff {token thumbprint bytes : List UInt8} :
    Utf8.trimEnd (Utf8.fromUtf8Lossy bytes) = (keyAuthorisationOf token thumbprint).toList ↔
      ∃ spaces, (∀ c ∈ spaces, isWhiteSpace c = true) ∧
        bytes = Utf8.encode ((keyAuthorisationOf token thumbprint).toList ++ spaces) := by
  have htrim : Utf8.trimEnd (keyAuthorisationOf token thumbprint).toList =
      (keyAuthorisationOf token thumbprint).toList := by
    apply List.rdropWhile_eq_self_iff.mpr
    intro hne
    rw [(plain_keyAuthorisationOf (List.getLast_mem hne)).1]
    exact Bool.false_ne_true
  rw [Utf8.trimEnd_eq_iff htrim]
  apply exists_congr
  intro spaces
  apply and_congr_right
  intro hspaces
  apply Utf8.fromUtf8Lossy_iff
  intro hreplaced
  rcases List.mem_append.mp hreplaced with h | h
  · exact (plain_keyAuthorisationOf h).2 rfl
  · have hspace := hspaces _ h
    revert hspace
    decide

/-- So many requests, each but the last answered with a redirect, lead to the proof. -/
inductive Leads (crates : Crates) (network : Network σ) (ports : Ports)
    (keyAuthorisation : String) : Nat → Target → Dialogue σ → Dialogue σ → Prop where
  | proof {n : Nat} {target : Target} {s t u : Dialogue σ} {response : Response} {body : Body} :
    get crates network target s = .ok response t → response.status = 200 →
    wait (network.collect target) (fun _ => .collect target) t = .ok (.ok body) u →
    Proves keyAuthorisation body →
    Leads crates network ports keyAuthorisation (n + 1) target s u
  | redirect {n : Nat} {target next : Target} {s t u : Dialogue σ} {response : Response}
      {location : String} :
    get crates network target s = .ok response t → 300 ≤ response.status →
    response.status < 400 → response.location = some location →
    redirect crates ports target location = .ok next →
    Leads crates network ports keyAuthorisation n next t u →
    Leads crates network ports keyAuthorisation (n + 1) target s u

variable {token thumbprint : List UInt8} {s t u : Dialogue σ}

theorem orProblem_ok_iff {kind : Kind} {detail : ε → String} {answer : Except ε α} {a : α} :
    orProblem kind detail answer s = .ok a t ↔ answer = .ok a ∧ s = t := by
  constructor
  · intro h
    obtain ⟨hanswer, hst⟩ := of_outcome_ok h
    exact ⟨mapError_eq_ok.mp hanswer, hst⟩
  · intro h
    rw [h.1, h.2]
    rfl

theorem outcome_redirect_iff {location : String} {next : Target} :
    outcome ((redirect crates ports target location).mapError Ended.problem) s = .ok next t ↔
      redirect crates ports target location = .ok next ∧ s = t := by
  constructor
  · intro h
    obtain ⟨hnext, hst⟩ := of_outcome_ok h
    exact ⟨mapError_eq_ok.mp hnext, hst⟩
  · intro h
    rw [h.1, h.2]
    rfl

theorem readBody_ok_iff :
    readBody crates network target (keyAuthorisationOf token thumbprint) s = .ok () u ↔
      ∃ body, wait (network.collect target) (fun _ => .collect target) s = .ok (.ok body) u ∧
        Proves (keyAuthorisationOf token thumbprint) body := by
  constructor
  · intro h
    obtain ⟨answer, t, hwait, h⟩ := of_bind_ok h
    obtain ⟨body, t', hbody, h⟩ := of_bind_ok h
    obtain ⟨hanswer, rfl⟩ := orProblem_ok_iff.mp hbody
    split at h
    · cases h
    next hshort =>
      cases herror : body.error with
      | some e =>
        rw [herror] at h
        cases h
      | none =>
        rw [herror] at h
        dsimp only at h
        split at h
        next htext =>
          cases h
          rw [hanswer] at hwait
          exact ⟨body, hwait, herror, Nat.le_of_not_lt hshort, trimEnd_iff.mp htext⟩
        · cases h
  · intro h
    obtain ⟨body, hwait, hproves⟩ := h
    have hshort := hproves.short
    have htext := trimEnd_iff.mpr hproves.text
    unfold readBody
    rw [bind_of_ok hwait]
    rw [bind_of_ok (orProblem_ok_iff.mpr ⟨rfl, rfl⟩), if_neg (Nat.not_lt.mpr hshort), hproves.whole]
    dsimp only
    rw [if_pos htext]
    rfl

theorem attempts_ok_iff {n : Nat} :
    attempts crates network v name (keyAuthorisationOf token thumbprint) n target s = .ok () u ↔
      Leads crates network v.ports (keyAuthorisationOf token thumbprint) n target s u := by
  induction n generalizing target s with
  | zero =>
    constructor
    · intro h
      cases h
    · intro h
      cases h
  | succ n ih =>
    constructor
    · intro h
      obtain ⟨response, t, hget, h⟩ := of_bind_ok h
      split at h
      next hstatus =>
        cases hlocation : response.location with
        | none =>
          rw [hlocation] at h
          cases h
        | some location =>
          rw [hlocation] at h
          obtain ⟨next, t', hfollow, h⟩ := of_bind_ok h
          obtain ⟨hnext, rfl⟩ := outcome_redirect_iff.mp hfollow
          exact .redirect hget hstatus.1 hstatus.2 hlocation hnext (ih.mp h)
      · split at h
        · cases h
        next hstatus =>
          obtain ⟨body, hwait, hproves⟩ := readBody_ok_iff.mp h
          exact .proof hget (not_not.mp hstatus) hwait hproves
    · intro h
      unfold attempts
      cases h with
      | proof hget hstatus hwait hproves =>
        rw [bind_of_ok hget, if_neg (by omega), if_neg (not_not.mpr hstatus)]
        exact readBody_ok_iff.mpr ⟨_, hwait, hproves⟩
      | redirect hget hlow hhigh hlocation hnext hleads =>
        rw [bind_of_ok hget, if_pos ⟨hlow, hhigh⟩, hlocation]
        dsimp only
        rw [bind_of_ok (outcome_redirect_iff.mpr ⟨hnext, rfl⟩)]
        exact ih.mpr hleads

/-- **Validations are contained.**  Whatever the network answers, and however late, a
validation touches only what its kind permits, dials only addresses that the host's own
lookup gave, and asks eleven targets at most, the first the name's own and every other one
that the last redirected to. -/
theorem validation_contained (crates : Crates) (network : Network σ) (v : Validator)
    (kind : ChallengeType) (name keyAuthorisation : String) (outside : σ) :
    Good (Permitted v.ports name kind)
        (validate crates network v kind name keyAuthorisation outside).2.contacts ∧
      Followed crates v.ports (firstTarget v.ports name keyAuthorisation) (maxRedirects + 1)
        (requests (validate crates network v kind name keyAuthorisation outside).2.contacts) := by
  cases kind with
  | http01 =>
    have hled : Led crates v.ports (firstTarget v.ports name keyAuthorisation) []
        (firstTarget v.ports name keyAuthorisation) := ⟨List.isChain_singleton _, rfl⟩
    have hattempts : Ensures (Of (Sent (Permitted v.ports name .http01) []))
        (attempts crates network v name keyAuthorisation (maxRedirects + 1)
          (firstTarget v.ports name keyAuthorisation))
        (fun _ => Of (Over crates v.ports name (firstTarget v.ports name keyAuthorisation)
          (maxRedirects + 1)))
        (Of (Over crates v.ports name (firstTarget v.ports name keyAuthorisation)
          (maxRedirects + 1))) :=
      attempts_ensures hled (firstTarget_allowed keyAuthorisation) (by simp)
    exact contained_of_ensures hattempts ⟨Good.nil, rfl⟩ fun _ hcs => hcs
  | dns01 =>
    exact contained_of_ensures (dns01_ensures (P := Permitted v.ports name .dns01) rfl) ⟨Good.nil, rfl⟩
      fun cs hcs => ⟨hcs.1, by rw [hcs.2]; exact followed_nil⟩
  | tlsAlpn01 =>
    exact contained_of_ensures tlsAlpn01_ensures ⟨Good.nil, rfl⟩
      fun cs hcs => ⟨hcs.1, by rw [hcs.2]; exact followed_nil⟩

/-- **Only the proof is taken.**  An http-01 challenge is accepted just when ten redirects
at most lead from the name's own target to a body that is the key authorisation, byte for
byte, with spaces at most after it. -/
theorem http01_accepts_iff (crates : Crates) (network : Network σ) (v : Validator) (name : String)
    (token thumbprint : List UInt8) (outside : σ) (u : Dialogue σ) :
    validate crates network v .http01 name (keyAuthorisationOf token thumbprint) outside =
        (.ok (), u) ↔
      Leads crates network v.ports (keyAuthorisationOf token thumbprint) (maxRedirects + 1)
        ⟨false, name, v.ports.http, "/.well-known/acme-challenge/" ++ base64url token⟩
        ⟨outside, []⟩ u := by
  rw [← tokenOf_keyAuthorisationOf token thumbprint]
  have hleads : attempts crates network v name (keyAuthorisationOf token thumbprint)
        (maxRedirects + 1) (firstTarget v.ports name (keyAuthorisationOf token thumbprint))
        ⟨outside, []⟩ = .ok () u ↔
      Leads crates network v.ports (keyAuthorisationOf token thumbprint) (maxRedirects + 1)
        (firstTarget v.ports name (keyAuthorisationOf token thumbprint)) ⟨outside, []⟩ u :=
    attempts_ok_iff
  refine Iff.trans ?_ hleads
  unfold validate
  have hsame : answered crates network v .http01 name (keyAuthorisationOf token thumbprint)
      ⟨outside, []⟩ = attempts crates network v name (keyAuthorisationOf token thumbprint)
        (maxRedirects + 1) (firstTarget v.ports name (keyAuthorisationOf token thumbprint))
        ⟨outside, []⟩ := rfl
  rw [hsame]
  constructor
  · intro h
    split at h
    next a t hattempts =>
      cases h
      exact hattempts
    · cases h
    · cases h
  · intro h
    have hattempts : attempts crates network v name (keyAuthorisationOf token thumbprint)
        (maxRedirects + 1) (firstTarget v.ports name (keyAuthorisationOf token thumbprint))
        ⟨outside, []⟩ = .ok () u := h
    rw [hattempts]

end Opca.Acme.Validate

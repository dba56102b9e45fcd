/-
  Core/DomainsMatch.lean --- a subordinate's domains: its certificate permits those of its
  row, a renewal leaves them unless told to change them, and no broker that agrees on them
  refuses what it is sent (`services/ca/subordinate.rs`, `services/acme_broker/renew.rs`,
  the broker's `enrolment.rs`).
-/
import Opca.Acme.Broker
import Opca.Core.EnrolledOnce

set_option autoImplicit false

namespace Opca.Core

open Opca.Foundation Acme Brokerage

/-! ## Enrolments and renewals -/

inductive BrokerageStep where
  | enrol (attempt : Attempt)
  /-- A CSR is signed that was brought by hand, for no broker that opCA calls. -/
  | sign (csr : String) (domains : List String) (signing : SubordinateSigning) (now : Time)
  /-- A subordinate is renewed by hand, for other domains if any are given. -/
  | renewByHand (id : Int) (csr : String) (domains : Option (List String)) (changeDomains : Bool)
      (signing : SubordinateSigning) (user : String) (now : Time)
  | renew (id : Int) (changeDomains : Bool) (answers : RenewalAnswers)
      (stored : Except OpcaError Unit)
  | renewAll (answers : Int → RenewalAnswers) (stored : Except OpcaError Unit)
  /-- A later session goes on from what is stored. -/
  | reopen

/-- With the database that is stored. -/
def reopened (s : Brokerage) : Brokerage := { s with db := .fromTables s.stored [] }

namespace BrokerageStep

/-- The state after it, whether it failed or not. -/
def after (times : OpensslTimes) (csrs : CsrReader) (s : Brokerage) : BrokerageStep → Brokerage
  | .enrol attempt => finalState (enrolBroker times csrs attempt s)
  | .sign csr domains signing now =>
    finalState (Brokerage.signSubordinate times csrs csr domains signing now s)
  | .renewByHand id csr domains changeDomains signing user now =>
    finalState (Brokerage.renewSubordinate times csrs id csr domains changeDomains signing user
      now s)
  | .renew id changeDomains answers stored =>
    finalState (renewBroker times csrs id changeDomains answers stored s)
  | .renewAll answers stored => finalState (renewAllBrokers times csrs answers stored s)
  | .reopen => reopened s

/-- A renewal without `change_domains`. -/
def leavesDomains : BrokerageStep → Bool
  | .renew _ changeDomains _ _ | .renewByHand _ _ _ changeDomains _ _ _ => !changeDomains
  | .renewAll _ _ => true
  | .enrol _ | .sign _ _ _ _ | .reopen => false

end BrokerageStep

/-- From a CA that has no subordinates. -/
def brokerage (times : OpensslTimes) (csrs : CsrReader) : Machine Brokerage BrokerageStep where
  init s := s.db.brokers = [] ∧ s.stored.brokers.rows = [] ∧ s.log = []
  next s l := some (l.after times csrs s)

/-- The DNS names that a certificate is limited to. -/
def Certificate.permittedDns (cert : Certificate) : List String :=
  (cert.constraints.map NameConstraints.permittedDns).getD []

/-- The same domains, in any order and number. -/
def SameSet (a b : List String) : Prop := ∀ domain, domain ∈ a ↔ domain ∈ b

/-- No row's domains are changed. -/
def KeepsDomains (s t : Brokerage) : Prop :=
  ∀ b ∈ s.db.brokers, ∃ b' ∈ t.db.brokers,
    b'.id = b.id ∧ SameSet b'.permittedDomains b.permittedDomains

/-! ## The broker's side -/

/-- What `check_config` says of domains that it refuses. -/
def domainRefusals : List String :=
  ["the config permits no domains",
    "the config's domains are not those the subordinate's name constraints permit",
    "the broker's host is not a name within the permitted domains, and the ACME " ++
      "listener's certificate is issued for it",
    "the config's domains are not those configured on the broker"]

/-- A configuration and a subordinate pass the domain checks of the broker's
`check_config`. -/
def DomainsPass (config : Acme.Config) (issuance : IssuanceConfig) (subordinate : CertificateView) :
    Prop :=
  ∀ message, Broker.checkConfig config issuance subordinate = .error (badRequest message) →
    message ∉ domainRefusals

/-- A broker whose own domains are none or, case aside, those permitted, and whose host is
within them. -/
structure Agrees (config : Acme.Config) (domains : List String) : Prop where
  own : config.domains = [] ∨
    SameSet (config.domains.map toAsciiLowercase) (domains.map toAsciiLowercase)
  host : hostWithin config.host domains = true

theorem SameSet.map {a b : List String} (h : SameSet a b) (f : String → String) :
    SameSet (a.map f) (b.map f) := by
  intro domain
  simp only [List.mem_map]
  exact exists_congr fun d => and_congr_left fun _ => h d

theorem btreeSet_ne_nil {xs : List String} (h : xs ≠ []) : btreeSet xs ≠ [] := by
  obtain ⟨x, hx⟩ := List.exists_mem_of_ne_nil xs h
  exact List.ne_nil_of_mem (mem_btreeSet.mpr hx)

/-- Where the two sides agree, no delivery is refused for its domains. -/
theorem domainsPass {config : Acme.Config} {issuance : IssuanceConfig}
    {subordinate : CertificateView} (hne : issuance.permittedDomains ≠ [])
    (hsame : SameSet subordinate.permittedDns issuance.permittedDomains)
    (hagrees : Agrees config issuance.permittedDomains) :
    DomainsPass config issuance subordinate := by
  have hpermitted : btreeSet (issuance.permittedDomains.map toAsciiLowercase) ≠ [] :=
    btreeSet_ne_nil fun h => hne (List.map_eq_nil_iff.mp h)
  have hconstrained := btreeSet_congr (hsame.map toAsciiLowercase)
  have hown : ¬(config.domains ≠ [] ∧
      btreeSet (issuance.permittedDomains.map toAsciiLowercase) ≠
        btreeSet (config.domains.map toAsciiLowercase)) := by
    rintro ⟨hsome, hdiffer⟩
    exact hdiffer (btreeSet_congr (hagrees.own.resolve_left hsome)).symm
  intro message h
  unfold Broker.checkConfig at h
  simp only [hconstrained, hagrees.host, if_neg hpermitted, if_neg hown, ne_eq,
    not_true_eq_false, if_false, Bool.not_true, Bool.false_eq_true] at h
  split at h
  · cases h
    decide
  · split at h
    · cases h
      decide
    · cases h

/-! ## The invariant -/

/-- A row whose certificate is held, and limited to the row's domains. -/
structure Matches (s : Brokerage) (b : Broker) : Prop where
  normal : permittedDomains b.permittedDomains = .ok b.permittedDomains
  cert : ∃ cert, s.Holds cert ∧ cert.serial = b.subordinateSerial ∧
    cert.permittedDns = b.permittedDomains

def RowsMatch (s : Brokerage) : Prop := ∀ b ∈ s.db.brokers, Matches s b

structure MatchInv (s : Brokerage) : Prop where
  rows : RowsMatch s
  stored : RowsMatch (reopened s)
  sent : ∀ e ∈ s.log, e.config.permittedDomains ≠ [] ∧
    SameSet e.certificate.permittedDns e.config.permittedDomains

variable {times : OpensslTimes} {csrs : CsrReader} {s t : Brokerage} {a : Attempt}
  {domains : List String} {cert : Certificate} {signing : SubordinateSigning} {now : Time}

theorem RowsMatch.moves (h : RowsMatch s) (hdb : DbKeeps s.db t.db)
    (hitems : ∀ item ∈ s.items.rows, item ∈ t.items.rows) : RowsMatch t := by
  intro b' hb'
  obtain ⟨b, hb, hsame⟩ := hdb.before b' hb'
  obtain ⟨hnormal, cert, hholds, hserial, hpermitted⟩ := h b hb
  rw [← hsame.domains] at hnormal hpermitted
  exact ⟨hnormal, cert, hholds.moves hdb hitems, hserial.trans hsame.serial.symm, hpermitted⟩

theorem MatchInv.keeps (h : MatchInv s) (hkeeps : Keeps s t) : MatchInv t := by
  refine ⟨h.rows.moves hkeeps.db hkeeps.items, ?_, ?_⟩
  · rcases hkeeps.stored with hsame | ⟨u, hsu, _, hu⟩
    · have hdb : DbKeeps (reopened s).db (reopened t).db := by
        unfold reopened
        rw [hsame]
        exact dbKeeps_of_rows (fun c hc => ⟨c, hc, rfl, rfl⟩) rfl
      exact h.stored.moves hdb hkeeps.items
    · have hdb : DbKeeps s.db (reopened t).db := by
        unfold reopened
        rw [hu]
        exact ⟨hsu.rows, hsu.after, hsu.before⟩
      exact h.rows.moves hdb hkeeps.items
  · rw [hkeeps.log]
    exact h.sent

/-- What an invariant that moves with a state keeps holding. -/
theorem matchInv_keeping {α : Type} {m : BrokerageM α} (h : Moves Keeps m) :
    Ensures MatchInv m (fun _ => MatchInv) MatchInv := keeping h fun _ _ => MatchInv.keeps

/-- A state in which a certificate is held, besides. -/
def MatchHeld (cert : Certificate) (s : Brokerage) : Prop := MatchInv s ∧ s.Holds cert

theorem matchHeld_keeping {α : Type} {m : BrokerageM α} (h : Moves Keeps m) :
    Ensures (MatchHeld cert) m (fun _ => MatchHeld cert) MatchInv :=
  (keeping h fun _ _ hs hkeeps => ⟨hs.1.keeps hkeeps, hs.2.keeps hkeeps⟩).failing
    fun _ hs => hs.1

theorem permittedDns_of (h : cert.constraints = some (nameConstraints domains)) :
    cert.permittedDns = domains := by
  unfold Certificate.permittedDns
  rw [h]
  exact permittedDns_nameConstraints domains

theorem SameSet.of_eq {a b : List String} (h : a = b) : SameSet a b := fun _ => by rw [h]

/-! ## What is signed and sent -/

theorem issueSubordinate_matches (csr : String) :
    Ensures MatchInv (Brokerage.issueSubordinate times csrs csr domains signing now)
      (fun issued s => issued.2.permittedDns = domains ∧ MatchHeld issued.2 s) MatchInv := by
  refine .of_cases ?_ ?_
  · intro s issued t hs hrun
    obtain ⟨hholds, hconstraints⟩ := of_issueSubordinate_ok hrun
    have hinv := (matchInv_keeping (issueSubordinate_keeps csr)).ok hs hrun
    exact ⟨permittedDns_of hconstraints, hinv, hholds⟩
  · intro s e t hs hrun
    exact (matchInv_keeping (issueSubordinate_keeps csr)).error hs hrun

theorem addBrokerAt_matches {endpoint : Option Endpoint}
    (hnormal : permittedDomains domains = .ok domains) (hcert : cert.permittedDns = domains) :
    Ensures (MatchHeld cert)
      (onVaulted (addBrokerAt times cert.serial domains endpoint now))
      (fun _ => MatchInv) MatchInv := by
  rintro s ⟨hinv, hholds⟩
  obtain ⟨db, hadd, hrows, _, hbrokers⟩ := addBrokerAt_ok
  have hrun := Part.lift_ok (p := database) (t := s) hadd
  unfold onVaulted
  rw [hrun]
  have hkept : ∀ c, s.Holds c → Vaulted.Holds { s with db } c := by
    rintro c ⟨row, hrow, hrest⟩
    exact ⟨row, hrows ▸ hrow, hrest⟩
  refine ⟨?_, hinv.stored.moves (Std.Refl.refl _) fun _ h => h, hinv.sent⟩
  intro b hb
  have hb : b ∈ db.brokers := hb
  rw [hbrokers] at hb
  rcases List.mem_append.mp hb with hold | hnew
  · obtain ⟨hb', c, hc, hrest⟩ := hinv.rows b hold
    exact ⟨hb', c, hkept c hc, hrest⟩
  · rw [List.mem_singleton.mp hnew]
    exact ⟨hnormal, cert, hkept cert hholds, rfl, hcert⟩

theorem signSubordinateAt_matches {csr : String} {endpoint : Option Endpoint} :
    Ensures MatchInv (signSubordinateAt times csrs csr domains endpoint signing now)
      (fun signed s => permittedDomains domains = .ok signed.2.permittedDns ∧ MatchInv s)
      MatchInv := by
  have hpermit : Ensures MatchInv (outcome (permittedDomains domains) : BrokerageM _)
      (fun permitted s => permittedDomains domains = .ok permitted ∧ MatchInv s) MatchInv :=
    .outcome (fun _ _ h hs => ⟨h, hs⟩) fun _ hs => hs
  refine hpermit.bind fun permitted => Ensures.of_and fun hpermitted => ?_
  refine (issueSubordinate_matches csr).bind fun issued => Ensures.of_and fun hcert => ?_
  refine (addBrokerAt_matches (permittedDomains_idem hpermitted) hcert).bind fun id => ?_
  refine (matchInv_keeping (keeps_of_quiet (storeCaDatabase_quiet _))).bind fun _ => ?_
  refine (matchInv_keeping (keeps_of_quiet (brokerOf_quiet id))).bind fun broker => ?_
  exact .pure fun _ hs => ⟨hcert ▸ hpermitted, hs⟩

theorem Pending.matches {id : Int} {b : Broker} (h : Pending s a domains id cert b)
    (hinv : MatchInv s) : SameSet cert.permittedDns domains := by
  obtain ⟨_, held, hholds, hserial, hpermitted⟩ := hinv.rows b h.mem
  have heq : cert = held := certificateOf_holds hholds (hserial ▸ h.cert)
  intro domain
  rw [heq, hpermitted]
  exact mem_of_sameDomains h.domains domain

theorem subordinateFor_matches (hnormal : permittedDomains domains = .ok domains) :
    Ensures MatchInv (subordinateFor times csrs a domains)
      (fun pending s => SameSet pending.2.permittedDns domains ∧ MatchInv s) MatchInv := by
  have hfind : Ensures MatchInv (undelivered csrs a domains)
      (fun found s => (∀ pending, found = some pending →
        SameSet pending.2.permittedDns domains) ∧ MatchInv s)
      MatchInv := by
    refine .of_cases ?_ ?_
    · intro s found t hs hrun
      obtain ⟨rfl, ⟨rfl, _⟩ | ⟨id, cert, b, rfl, hpending⟩⟩ := of_undelivered_ok hrun
      · exact ⟨fun _ h => absurd h (by simp), hs⟩
      · refine ⟨fun pending hfound => ?_, hs⟩
        rw [← Option.some.inj hfound]
        exact hpending.matches hs
    · intro s e t hs hrun
      exact (matchInv_keeping (keeps_of_quiet (undelivered_quiet a))).error hs hrun
  refine hfind.bind fun found => Ensures.of_and fun hfound => ?_
  cases found with
  | none =>
    refine signSubordinateAt_matches.imp (fun _ hs => hs) ?_ fun _ hs => hs
    rintro signed s ⟨hpermitted, hs⟩
    rw [hnormal] at hpermitted
    exact ⟨.of_eq (Except.ok.inj hpermitted).symm, hs⟩
  | some pending => exact .pure fun _ hs => ⟨hfound pending rfl, hs⟩

/-- What is sent is noted, its terms for the domains of its certificate. -/
theorem note_matches {e : Sent} (hne : e.config.permittedDomains ≠ [])
    (hsame : SameSet e.certificate.permittedDns e.config.permittedDomains) :
    Ensures MatchInv (note e) (fun _ => MatchInv) MatchInv := by
  refine .modify fun s hs => ⟨?_, ?_, ?_⟩
  · exact hs.rows.moves (Std.Refl.refl _) fun _ h => h
  · exact hs.stored.moves (Std.Refl.refl _) fun _ h => h
  intro e' he'
  rcases List.mem_append.mp he' with hold | hnew
  · exact hs.sent e' hold
  · rw [List.mem_singleton.mp hnew]
    exact ⟨hne, hsame⟩

theorem enrolBroker_matches (a : Attempt) :
    Ensures MatchInv (enrolBroker times csrs a) (fun _ => MatchInv) MatchInv := by
  refine (matchInv_keeping Moves.outcome).bind fun _ => ?_
  refine (matchInv_keeping Moves.outcome).bind fun offer => ?_
  refine (matchInv_keeping (keeps_of_quiet (demand_quiet _ _))).bind fun _ => ?_
  have hasked : Ensures MatchInv (outcome (enrolmentDomains a.shown.configuredDomains
      a.terms.permittedDomains) : BrokerageM _)
      (fun domains s => permittedDomains domains = .ok domains ∧ MatchInv s) MatchInv :=
    .outcome (fun domains s h hs => ⟨enrolmentDomains_idem h, hs⟩) fun _ hs => hs
  refine hasked.bind fun domains => Ensures.of_and fun hnormal => ?_
  refine (subordinateFor_matches hnormal).bind fun pending => Ensures.of_and fun hsame => ?_
  refine (matchInv_keeping Moves.outcome).bind fun root => ?_
  refine Ensures.bind (note_matches ?_ ?_) fun _ => ?_
  · exact (permittedDomains_ok hnormal).2
  · exact hsame
  refine (matchInv_keeping Moves.outcome).bind fun issuerState => ?_
  refine matchInv_keeping (keeps_of_quiet ((reported_quiet _ _ _).bind fun _ => ?_))
  refine (recordBrokerCerts_quiet _).bind fun _ => (storeCaDatabase_quiet _).bind fun _ => ?_
  exact brokerOf_quiet _

/-! ## Renewing -/

/-- The row that is moved has the domains it is moved with. -/
def Moved (id : Int) (domains : List String) (s : Brokerage) : Prop :=
  MatchInv s ∧ ∀ b ∈ s.db.brokers, b.id = id → b.permittedDomains = domains

theorem moved_keeping {α : Type} {m : BrokerageM α} {id : Int} (h : Moves Keeps m) :
    Ensures (Moved id domains) m (fun _ => Moved id domains) MatchInv := by
  refine (keeping h ?_).failing fun _ hs => hs.1
  rintro s t ⟨hinv, hmoved⟩ hkeeps
  refine ⟨hinv.keeps hkeeps, fun b' hb' hid => ?_⟩
  obtain ⟨b, hb, hsame⟩ := hkeeps.db.before b' hb'
  rw [hsame.domains, hmoved b hb (hsame.id.symm.trans hid)]

theorem moveBrokerTo_matches {id : Int} {at_ : String}
    (hnormal : permittedDomains domains = .ok domains) (hcert : cert.permittedDns = domains) :
    Ensures (MatchHeld cert) (onVaulted (moveBrokerTo id cert.serial domains at_))
      (fun _ => Moved id domains) MatchInv := by
  rintro s ⟨hinv, hholds⟩
  refine ⟨⟨?_, hinv.stored.moves (Std.Refl.refl _) fun _ h => h, hinv.sent⟩, ?_⟩
  · intro b' hb'
    obtain ⟨b, hb, rfl⟩ := mem_updateWhere.mp hb'
    split
    · exact ⟨hnormal, cert, hholds, rfl, hcert⟩
    · obtain ⟨hb', c, hc, hrest⟩ := hinv.rows b hb
      exact ⟨hb', c, hc, hrest⟩
  · intro b' hb' hid
    obtain ⟨b, hb, rfl⟩ := mem_updateWhere.mp hb'
    split
    · rfl
    · next hother =>
      rw [if_neg hother] at hid
      exact absurd (decide_eq_true hid) hother

theorem moveBroker_matches {broker : Broker} {user : String}
    (hnormal : permittedDomains domains = .ok domains) (hcert : cert.permittedDns = domains) :
    Ensures (MatchHeld cert) (onVaulted (moveBroker times broker cert.serial domains user now))
      (fun _ => Moved broker.id domains) MatchInv := by
  unfold onVaulted moveBroker
  rw [Part.lift_bind]
  refine (matchHeld_keeping (onVaulted_keeps (ignoreCert_dbKeeps _ _ _ _ _))).bind fun _ => ?_
  exact moveBrokerTo_matches hnormal hcert

/-- What a renewal is for: the row's domains, or what was asked for in normal form. -/
theorem renewalDomains_normal {broker : Broker} {asked : Option (List String)}
    {changeDomains : Bool} (hnormal : permittedDomains broker.permittedDomains =
      .ok broker.permittedDomains) :
    Ensures MatchInv
      (onVaulted (renewalDomains broker (asked.map permittedDomains) changeDomains))
      (fun domains s => permittedDomains domains = .ok domains ∧ MatchInv s) MatchInv := by
  refine .of_cases ?_ ?_
  · intro s domains t hs hrun
    refine ⟨?_, (matchInv_keeping (onVaulted_keeps (renewalDomains_dbKeeps _ _ _))).ok hs hrun⟩
    obtain ⟨db, hdomains, _⟩ := Part.of_lift_ok hrun
    cases asked with
    | none =>
      cases hdomains
      exact hnormal
    | some list =>
      obtain ⟨permitted, _, hpermit, hdomains⟩ := of_bind_ok hdomains
      obtain ⟨hpermitted, rfl⟩ := of_outcome_ok hpermit
      obtain ⟨_, _, _, hdomains⟩ := of_bind_ok hdomains
      cases hdomains
      exact permittedDomains_idem hpermitted
  · intro s e t hs hrun
    exact (matchInv_keeping (onVaulted_keeps (renewalDomains_dbKeeps _ _ _))).error hs hrun

theorem of_activeBroker_ok {db db' : CaDatabase} {id : Int} {b : Broker}
    (h : activeBroker id db = .ok b db') : db = db' ∧ b ∈ db.brokers ∧ b.id = id := by
  obtain ⟨broker, u, hof, h⟩ := of_bind_ok h
  obtain ⟨rfl, hmem, hid⟩ := of_brokerOf_ok hof
  obtain ⟨_, _, hrequire, h⟩ := of_bind_ok h
  obtain ⟨_, rfl⟩ := of_require_ok hrequire
  cases h
  exact ⟨rfl, hmem, hid⟩

theorem renewSubordinate_matches {id : Int} {csr user : String}
    {asked : Option (List String)} {changeDomains : Bool} :
    Ensures MatchInv
      (Brokerage.renewSubordinate times csrs id csr asked changeDomains signing user now)
      (fun renewed s => (renewed.1.permittedDomains ≠ [] ∧
        SameSet renewed.2.permittedDns renewed.1.permittedDomains) ∧ MatchInv s) MatchInv := by
  have hactive : Ensures MatchInv (onVaulted (activeBroker id) : BrokerageM Broker)
      (fun broker s => (broker.id = id ∧
        permittedDomains broker.permittedDomains = .ok broker.permittedDomains) ∧ MatchInv s)
      MatchInv := by
    refine .of_cases ?_ ?_
    · intro s broker t hs hrun
      obtain ⟨db, hfound, _⟩ := Part.of_lift_ok hrun
      obtain ⟨_, hmem, hid⟩ := of_activeBroker_ok hfound
      exact ⟨⟨hid, (hs.rows broker hmem).normal⟩,
        (matchInv_keeping (onVaulted_keeps (activeBroker_dbKeeps id))).ok hs hrun⟩
    · intro s e t hs hrun
      exact (matchInv_keeping (onVaulted_keeps (activeBroker_dbKeeps id))).error hs hrun
  refine hactive.bind fun broker => Ensures.of_and ?_
  rintro ⟨rfl, hnormal⟩
  refine (renewalDomains_normal hnormal).bind fun domains => Ensures.of_and fun hdomains => ?_
  refine (issueSubordinate_matches csr).bind fun issued => Ensures.of_and fun hcert => ?_
  refine (moveBroker_matches hdomains hcert).bind fun _ => ?_
  refine (moved_keeping (keeps_of_quiet (storeCaDatabase_quiet _))).bind fun _ => ?_
  have hof : Ensures (Moved broker.id domains) (onVaulted (brokerOf broker.id) : BrokerageM _)
      (fun moved s => moved.permittedDomains = domains ∧ MatchInv s) MatchInv := by
    refine .of_cases ?_ ?_
    · intro s moved t hs hrun
      obtain ⟨db, hfound, rfl⟩ := Part.of_lift_ok hrun
      obtain ⟨rfl, hmem, hid⟩ := of_brokerOf_ok hfound
      exact ⟨hs.2 moved hmem hid, hs.1⟩
    · intro s e t hs hrun
      exact (moved_keeping (keeps_of_quiet (brokerOf_quiet _))).error hs hrun
  refine hof.bind fun moved => Ensures.of_and fun hmoved => ?_
  refine .pure fun s hs => ⟨⟨?_, .of_eq (hcert.trans hmoved.symm)⟩, hs⟩
  rw [hmoved]
  exact (permittedDomains_ok hdomains).2

theorem putChain_matches {broker : Broker} {pin : String} {config : IssuanceConfig}
    {renewed : Broker × Certificate} {answers : RenewalAnswers}
    (hne : renewed.1.permittedDomains ≠ [])
    (hsame : SameSet renewed.2.permittedDns renewed.1.permittedDomains) :
    Ensures MatchInv (putChain times broker pin config renewed answers) (fun _ => MatchInv)
      MatchInv := by
  refine (matchInv_keeping Moves.outcome).bind fun root => ?_
  refine Ensures.bind (note_matches hne hsame) fun _ => ?_
  cases answers.put with
  | error error => exact .pure fun _ hs => hs
  | ok issuerState =>
    refine (matchInv_keeping (keeps_of_quiet (reported_quiet _ _ _))).bind fun _ => ?_
    exact .pure fun _ hs => hs

theorem renewWith_matches {broker : Broker} {pin : String} {changeDomains : Bool}
    {answers : RenewalAnswers} {current : Option String × IssuanceConfig} {fresh : FreshCsr} :
    Ensures MatchInv (renewWith times csrs broker pin changeDomains answers current fresh)
      (fun _ => MatchInv) MatchInv := by
  refine (matchInv_keeping (keeps_of_quiet (reported_quiet _ _ _))).bind fun _ => ?_
  refine (matchInv_keeping (keeps_of_quiet (recordBrokerCerts_quiet _))).bind fun _ => ?_
  refine (matchInv_keeping Moves.outcome).bind fun domains => ?_
  split
  · exact .pure fun _ hs => hs
  · refine renewSubordinate_matches.bind fun renewed => Ensures.of_and fun hrenewed => ?_
    exact putChain_matches hrenewed.1 hrenewed.2

theorem renewAt_matches (broker : Broker) (changeDomains : Bool) (answers : RenewalAnswers) :
    Ensures MatchInv (renewAt times csrs broker changeDomains answers) (fun _ => MatchInv)
      MatchInv := by
  have htry : Ensures MatchInv (tryRenew times csrs broker changeDomains answers)
      (fun _ => MatchInv) MatchInv := by
    refine (matchInv_keeping (keeps_of_quiet (demand_quiet _ _))).bind fun _ => ?_
    refine (matchInv_keeping Moves.outcome).bind fun _ => ?_
    split
    · exact .pure fun _ hs => hs
    · exact .pure fun _ hs => hs
    · exact renewWith_matches
  intro s hs
  have hdone := htry.final hs
  unfold renewAt
  cases hrun : tryRenew times csrs broker changeDomains answers s with
  | ok renewal t =>
    rw [hrun] at hdone
    exact hdone
  | error e t =>
    rw [hrun] at hdone
    exact hdone

theorem renewBroker_matches (id : Int) (changeDomains : Bool) (answers : RenewalAnswers)
    (stored : Except OpcaError Unit) :
    Ensures MatchInv (renewBroker times csrs id changeDomains answers stored)
      (fun _ => MatchInv) MatchInv := by
  refine (matchInv_keeping (keeps_of_quiet (brokerOf_quiet id))).bind fun broker => ?_
  refine (renewAt_matches broker changeDomains answers).bind fun renewal => ?_
  refine (matchInv_keeping (keeps_of_quiet (storeCaDatabase_quiet _))).bind fun _ => ?_
  exact .pure fun _ hs => hs

theorem renewAllBrokers_matches (answers : Int → RenewalAnswers)
    (stored : Except OpcaError Unit) :
    Ensures MatchInv (renewAllBrokers times csrs answers stored) (fun _ => MatchInv)
      MatchInv := by
  refine (matchInv_keeping Moves.get).bind fun s => ?_
  refine Ensures.bind (.forM (fun broker => ?_) _) fun _ => ?_
  · exact (renewAt_matches broker false (answers broker.id)).bind fun _ => .pure fun _ hs => hs
  · exact matchInv_keeping (keeps_of_quiet (storeCaDatabase_quiet _))

variable (times csrs) in
theorem matchInv_invariant : (brokerage times csrs).system.Invariant MatchInv where
  init := by
    rintro s ⟨hbrokers, hstored, hlog⟩
    refine ⟨fun b hb => ?_, fun b hb => ?_, fun e he => ?_⟩
    · rw [hbrokers] at hb
      cases hb
    · have hb : b ∈ s.stored.brokers.rows := hb
      rw [hstored] at hb
      cases hb
    · rw [hlog] at he
      cases he
  step := by
    rintro s _ l hs ⟨⟩
    cases l with
    | enrol attempt => exact (enrolBroker_matches attempt).final hs
    | sign csr domains signing now =>
      have hsign : Ensures MatchInv (Brokerage.signSubordinate times csrs csr domains signing now)
          (fun _ => MatchInv) MatchInv :=
        signSubordinateAt_matches.imp (fun _ hs => hs) (fun _ _ hs => hs.2) fun _ hs => hs
      exact hsign.final hs
    | renewByHand id csr domains changeDomains signing user now =>
      have hrenew : Ensures MatchInv (Brokerage.renewSubordinate times csrs id csr domains
          changeDomains signing user now) (fun _ => MatchInv) MatchInv :=
        renewSubordinate_matches.imp (fun _ hs => hs) (fun _ _ hs => hs.2) fun _ hs => hs
      exact hrenew.final hs
    | renew id changeDomains answers stored =>
      exact (renewBroker_matches id changeDomains answers stored).final hs
    | renewAll answers stored => exact (renewAllBrokers_matches answers stored).final hs
    | reopen =>
      exact ⟨hs.stored, hs.stored.moves (Std.Refl.refl _) fun _ h => h, hs.sent⟩

/-! ## Renewing without a change of domains -/

instance : Std.Refl KeepsDomains := ⟨fun _ b hb => ⟨b, hb, rfl, .of_eq rfl⟩⟩

instance : IsTrans Brokerage KeepsDomains := by
  refine ⟨fun s t u hst htu b hb => ?_⟩
  obtain ⟨b', hb', hid, hdomains⟩ := hst b hb
  obtain ⟨b'', hb'', hid', hdomains'⟩ := htu b' hb'
  exact ⟨b'', hb'', hid'.trans hid, fun domain => (hdomains' domain).trans (hdomains domain)⟩

theorem keepsDomains_of_keeps {α : Type} {m : BrokerageM α} (h : Moves Keeps m) :
    Moves KeepsDomains m := by
  refine h.weaken fun s t hkeeps b hb => ?_
  obtain ⟨b', hb', hsame⟩ := hkeeps.db.after b hb
  exact ⟨b', hb', hsame.id, .of_eq hsame.domains⟩

theorem keepsDomains_of_quiet {α : Type} {m : BrokerageM α} (h : Moves Quiet m) :
    Moves KeepsDomains m := keepsDomains_of_keeps (keeps_of_quiet h)

/-- The row that was read still has the domains that were read. -/
def OnRow (s : Brokerage) (broker : Broker) (t : Brokerage) : Prop :=
  KeepsDomains s t ∧ ∀ b ∈ t.db.brokers, b.id = broker.id →
    b.permittedDomains = broker.permittedDomains

theorem onRow_keeping {α : Type} {m : BrokerageM α} {broker : Broker} (h : Moves Keeps m) :
    Ensures (OnRow s broker) m (fun _ => OnRow s broker) (KeepsDomains s) := by
  refine (keeping h ?_).failing fun _ ht => ht.1
  rintro t u ⟨hdomains, hrow⟩ hkeeps
  refine ⟨fun b hb => ?_, fun b' hb' hid => ?_⟩
  · obtain ⟨b', hb', hid, heq⟩ := hdomains b hb
    obtain ⟨b'', hb'', hsame⟩ := hkeeps.db.after b' hb'
    exact ⟨b'', hb'', hsame.id.trans hid, hsame.domains ▸ heq⟩
  · obtain ⟨b, hb, hsame⟩ := hkeeps.db.before b' hb'
    rw [hsame.domains, hrow b hb (hsame.id.symm.trans hid)]

/-- A row that is moved with the domains it has, in whatever order, keeps them. -/
theorem moveBroker_keepsDomains {broker : Broker} {serial user : String}
    (hsame : SameSet domains broker.permittedDomains) :
    Ensures (OnRow s broker)
      (onVaulted (moveBroker times broker serial domains user now))
      (fun _ => KeepsDomains s) (KeepsDomains s) := by
  unfold onVaulted moveBroker
  rw [Part.lift_bind]
  refine (onRow_keeping (onVaulted_keeps (ignoreCert_dbKeeps _ _ _ _ _))).bind fun _ => ?_
  rintro t ⟨hdomains, hrow⟩ b hb
  obtain ⟨b', hb', hid, heq⟩ := hdomains b hb
  refine ⟨_, mem_updateWhere.mpr ⟨b', hb', rfl⟩, ?_⟩
  split
  next hmoved =>
    rw [decide_eq_true_eq] at hmoved
    exact ⟨hid, fun domain => (hsame domain).trans (hrow b' hb' hmoved ▸ heq domain)⟩
  next => exact ⟨hid, heq⟩

/-- Without the change confirmed, a renewal is for the domains of the row. -/
theorem renewalDomains_same {broker : Broker} {asked : Option (List String)}
    {changeDomains : Bool} (h : asked = none ∨ changeDomains = false) :
    Ensures (OnRow s broker)
      (onVaulted (renewalDomains broker (asked.map permittedDomains) changeDomains))
      (fun domains t => SameSet domains broker.permittedDomains ∧ OnRow s broker t)
      (KeepsDomains s) := by
  refine .of_cases ?_ ?_
  · intro t domains u ht hrun
    have hrow := (onRow_keeping (onVaulted_keeps (renewalDomains_dbKeeps _ _ _))).ok ht hrun
    refine ⟨?_, hrow⟩
    obtain ⟨db, hdomains, _⟩ := Part.of_lift_ok hrun
    cases asked with
    | none =>
      cases hdomains
      exact .of_eq rfl
    | some list =>
      obtain ⟨permitted, _, hpermit, hdomains⟩ := of_bind_ok hdomains
      obtain ⟨hpermitted, rfl⟩ := of_outcome_ok hpermit
      obtain ⟨_, _, hrequire, hdomains⟩ := of_bind_ok hdomains
      obtain ⟨hasked, rfl⟩ := of_require_ok hrequire
      cases hdomains
      have hfalse : changeDomains = false := h.resolve_left nofun
      rw [hfalse] at hasked
      exact mem_of_sameDomains (hasked.resolve_right nofun)
  · intro t e u ht hrun
    exact (onRow_keeping (onVaulted_keeps (renewalDomains_dbKeeps _ _ _))).error ht hrun

theorem renewSubordinate_keepsDomains (id : Int) (csr user : String)
    {asked : Option (List String)} {changeDomains : Bool}
    (h : asked = none ∨ changeDomains = false) :
    Moves KeepsDomains
      (Brokerage.renewSubordinate times csrs id csr asked changeDomains signing user now) := by
  intro s
  have hactive : Ensures (KeepsDomains s) (onVaulted (activeBroker id) : BrokerageM Broker)
      (fun broker => OnRow s broker) (KeepsDomains s) := by
    refine .of_cases ?_ ?_
    · intro t broker u ht hrun
      obtain ⟨db, hfound, rfl⟩ := Part.of_lift_ok hrun
      obtain ⟨rfl, hmem, _⟩ := of_activeBroker_ok hfound
      refine ⟨ht, fun b hb hid => ?_⟩
      rw [t.db.tables.brokers.eq_of_key hb hmem hid]
    · intro t e u ht hrun
      exact (keepsDomains_of_keeps (onVaulted_keeps (activeBroker_dbKeeps id)) s).error ht hrun
  refine hactive.bind fun broker => ?_
  refine (renewalDomains_same h).bind fun domains => Ensures.of_and fun hsame => ?_
  refine (onRow_keeping (issueSubordinate_keeps csr)).bind fun issued => ?_
  refine (moveBroker_keepsDomains hsame).bind fun _ => ?_
  refine (keepsDomains_of_quiet (storeCaDatabase_quiet _) s).bind fun _ => ?_
  exact (keepsDomains_of_quiet (brokerOf_quiet id) s).bind fun _ => .pure fun _ ht => ht

theorem renewWith_keepsDomains (broker : Broker) (pin : String) (answers : RenewalAnswers)
    (current : Option String × IssuanceConfig) (fresh : FreshCsr) :
    Moves KeepsDomains (renewWith times csrs broker pin false answers current fresh) := by
  refine (keepsDomains_of_quiet (reported_quiet _ _ _)).bind fun _ => ?_
  refine (keepsDomains_of_quiet (recordBrokerCerts_quiet _)).bind fun _ => ?_
  refine Moves.outcome.bind fun domains => ?_
  cases domains with
  | some configured => exact .pure
  | none =>
    refine (renewSubordinate_keepsDomains _ _ _ (.inl rfl)).bind fun renewed => ?_
    have hnote : ∀ e, Moves KeepsDomains (note e) := fun e =>
      .modify fun s b hb => ⟨b, hb, rfl, .of_eq rfl⟩
    refine Moves.outcome.bind fun root => (hnote _).bind fun _ => ?_
    cases answers.put with
    | error error => exact .pure
    | ok issuerState => exact (keepsDomains_of_quiet (reported_quiet _ _ _)).bind fun _ => .pure

theorem renewAt_keepsDomains (broker : Broker) (answers : RenewalAnswers) :
    Moves KeepsDomains (renewAt times csrs broker false answers) := by
  have htry : Moves KeepsDomains (tryRenew times csrs broker false answers) := by
    refine (keepsDomains_of_quiet (demand_quiet _ _)).bind fun _ => Moves.outcome.bind fun _ => ?_
    split
    · exact .pure
    · exact .pure
    · exact renewWith_keepsDomains _ _ _ _ _
  intro s₀ s hs
  have hdone := (htry s₀).final hs
  unfold renewAt
  cases hrun : tryRenew times csrs broker false answers s with
  | ok renewal t =>
    rw [hrun] at hdone
    exact hdone
  | error e t =>
    rw [hrun] at hdone
    exact hdone

/-- A renewal without `change_domains` changes no row's domains. -/
theorem keepsDomains_step {l : BrokerageStep} (hl : l.leavesDomains = true)
    (hstep : (brokerage times csrs).system.step s l t) : KeepsDomains s t := by
  cases hstep
  cases l with
  | enrol attempt => cases hl
  | sign csr domains signing now => cases hl
  | reopen => cases hl
  | renewByHand id csr domains changeDomains signing user now =>
    cases changeDomains with
    | true => cases hl
    | false =>
      exact (renewSubordinate_keepsDomains id csr user (.inr rfl) s).final (Std.Refl.refl s)
  | renew id changeDomains answers stored =>
    cases changeDomains with
    | true => cases hl
    | false =>
      have hrenew : Moves KeepsDomains (renewBroker times csrs id false answers stored) := by
        refine (keepsDomains_of_quiet (brokerOf_quiet id)).bind fun broker => ?_
        refine (renewAt_keepsDomains broker answers).bind fun renewal => ?_
        exact (keepsDomains_of_quiet (storeCaDatabase_quiet _)).bind fun _ => .pure
      exact (hrenew s).final (Std.Refl.refl s)
  | renewAll answers stored =>
    have hrenew : Moves KeepsDomains (renewAllBrokers times csrs answers stored) := by
      refine Moves.get.bind fun s => Moves.bind (.forM (fun broker => ?_) _) fun _ => ?_
      · exact (renewAt_keepsDomains broker (answers broker.id)).bind fun _ => .pure
      · exact keepsDomains_of_quiet (storeCaDatabase_quiet _)
    exact (hrenew s).final (Std.Refl.refl s)

/-! ## Every history -/

/-- Domains never widen unasked, and both sides have the same. -/
structure DomainsMatch (S : System Brokerage BrokerageStep) (s : Brokerage) : Prop where
  /-- Each row's certificate is in its item, and limited to the row's domains, -/
  held : ∀ b ∈ s.db.brokers, ∃ cert, s.Holds cert ∧ cert.serial = b.subordinateSerial ∧
    SameSet cert.permittedDns b.permittedDomains
  /-- as is whatever the row gives. -/
  current : ∀ b ∈ s.db.brokers, ∀ cert, s.certificateOf b.subordinateSerial = some cert →
    SameSet cert.permittedDns b.permittedDomains
  renewed : ∀ l t, l.leavesDomains = true → S.step s l t → KeepsDomains s t
  delivered : ∀ e ∈ s.log, ∀ config, Agrees config e.config.permittedDomains →
    ∀ subordinate : CertificateView, subordinate.permittedDns = e.certificate.permittedDns →
      DomainsPass config e.config subordinate

/-- Whatever brokers report, and wherever calls fail. -/
theorem domainsMatch {s : Brokerage} (h : (brokerage times csrs).system.Reachable s) :
    DomainsMatch (brokerage times csrs).system s := by
  have hinv := (matchInv_invariant times csrs).reachable h
  refine ⟨?_, ?_, fun l t hl hstep => keepsDomains_step hl hstep, ?_⟩
  · intro b hb
    obtain ⟨_, cert, hholds, hserial, hpermitted⟩ := hinv.rows b hb
    exact ⟨cert, hholds, hserial, .of_eq hpermitted⟩
  · intro b hb found hfound
    obtain ⟨_, cert, hholds, hserial, hpermitted⟩ := hinv.rows b hb
    rw [← hserial] at hfound
    rw [certificateOf_holds hholds hfound]
    exact .of_eq hpermitted
  · intro e he config hagrees subordinate hview
    obtain ⟨hne, hsame⟩ := hinv.sent e he
    exact domainsPass hne (hview ▸ hsame) hagrees

/-- A renewal of the second subordinate by hand. -/
def byHand (domains : List String) (changeDomains : Bool) : BrokerageStep :=
  .renewByHand 2 "next" (some domains) changeDomains sampleSigning "user" sampleStart

/-- A broker that has no domains of its own is renewed, enrolled for `home.arpa`; one signed
by hand is refused wider domains until the change is confirmed. -/
theorem domainsMatch_renewed :
    ∃ s, s.log.length = 2 ∧
      s.db.brokers.map (·.permittedDomains) = [["home.arpa"], ["lab.example", "home.arpa"]] ∧
      DomainsMatch (brokerage sampleTimes sampleCsrs).system s := by
  obtain ⟨s, hs, hview⟩ := Machine.exists_reachable_of_exec
    (show (brokerage sampleTimes sampleCsrs).init sampleBrokerage from ⟨rfl, rfl, rfl⟩)
    [.enrol (sampleAttempt (.ok (some "issuing"))), .reopen,
      .renew 1 false ⟨.ok (), .ok (none, ⟨[], [.dns01], 30, 45⟩), .ok ⟨"next", ["HOME.arpa"]⟩,
        some [], sampleSigning, .ok "root", .ok none, "user", sampleStart⟩ (.ok ()),
      .sign "key" ["Home.arpa", "home.ARPA"] sampleSigning sampleStart,
      byHand ["home.arpa", "lab.example"] false, byHand ["home.arpa", "lab.example"] true,
      byHand ["Lab.example", "home.arpa"] false]
    (fun s => s.log.length = 2 ∧
      s.db.brokers.map (·.permittedDomains) = [["home.arpa"], ["lab.example", "home.arpa"]])
    (by decide +kernel)
  obtain ⟨hlog, hdomains⟩ := of_decide_eq_true hview
  exact ⟨s, hlog, hdomains, domainsMatch hs⟩

end Opca.Core

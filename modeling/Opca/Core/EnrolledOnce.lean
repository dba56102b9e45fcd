/-
  Core/EnrolledOnce.lean --- a broker is signed once: attempts to enrol it, any call of
  which may fail, send it one certificate until it has answered, and sign none after
  (`services/acme_broker/enrol.rs`).
-/
import Opca.Core.Subordinates
import Opca.Foundation.Machine

set_option autoImplicit false

namespace Opca.Core

open Opca.Foundation Acme Brokerage

/-! ## One session of attempts -/

/-- A subordinate that is active and has not reached the broker of a pin. -/
structure Broker.Waits (b : Broker) (pin : String) : Prop where
  state : b.state = .active
  pinnedKey : b.pinnedKey = some pin
  undelivered : b.lastContact = none

/-- No two subordinates wait for one broker. -/
def AtMostOne (tables : Tables) : Prop :=
  ∀ b ∈ tables.brokers.rows, ∀ b' ∈ tables.brokers.rows, ∀ pin,
    b.Waits pin → b'.Waits pin → b = b'

/-- An active subordinate of a pin, delivered or not. -/
def CaDatabase.HasOf (db : CaDatabase) (pin : String) : Prop :=
  ∃ b ∈ db.brokers, isOf pin b = true

/-- From any database in which no two subordinates wait for one broker, and each that
waits is in its item. -/
def enrolling (times : OpensslTimes) (csrs : CsrReader) : Machine Brokerage Attempt where
  init s := AtMostOne s.db.tables ∧ AtMostOne s.stored ∧
    (∀ b ∈ s.db.brokers, ∀ pin, b.Waits pin →
      ∃ cert, s.Holds cert ∧ cert.serial = b.subordinateSerial) ∧
    s.log = []
  next s a := some (finalState (enrolBroker times csrs a s))

/-- Nothing is signed, and nothing is sent but the certificate that waits. -/
structure Retried (s : Brokerage) (pin : String) (t : Brokerage) : Prop where
  given : t.db.given = s.db.given
  sent : t.log = s.log ∨ ∃ e, t.log = s.log ++ [e] ∧ e.pin = pin ∧
    ∀ b ∈ s.db.brokers, b.Waits pin → e.certificate.serial = b.subordinateSerial

/-- No two active subordinates are of one broker. -/
def CaDatabase.SoleOf (db : CaDatabase) (pin : String) : Prop :=
  ∀ b ∈ db.brokers, ∀ b' ∈ db.brokers, isOf pin b = true → isOf pin b' = true → b = b'

/-- An attempt for a subordinate that waits: the broker asks for its key and its domains, its
certificate is read, and nothing fails before it is sent. -/
structure Fits (csrs : CsrReader) (s : Brokerage) (a : Attempt) (b : Broker)
    (cert : Certificate) (root : String) (domains : List String) : Prop where
  mem : b ∈ s.db.brokers
  waits : b.Waits a.endpoint.pin
  clients : a.clients = .ok ()
  offer : a.offer = .ok a.shown
  asked : enrolmentDomains a.shown.configuredDomains a.terms.permittedDomains = .ok domains
  domains : sameDomains b.permittedDomains domains = true
  read : a.read = .ok ()
  found : s.certificateOf b.subordinateSerial = some cert
  key : csrs.publicKey a.shown.csrPem = .ok cert.attribs.publicKey
  root : a.root = .ok root

/-- What is sent of a certificate. -/
def Brokerage.Attempt.enrolment (a : Attempt) (cert : Certificate) (root : String)
    (domains : List String) : Sent :=
  .enrolment a.endpoint.pin
    ⟨a.code, ⟨cert, root⟩, a.operatorPin, { a.terms with permittedDomains := domains }⟩

/-- A certificate was sent after what was sent before, and an answer to it is recorded. -/
structure Answered (s : Brokerage) (a : Attempt) (b : Broker) (e : Sent) (t : Brokerage) :
    Prop where
  log : t.log = s.log ++ [e]
  recorded : ∀ issuerState, a.enrolled = .ok issuerState →
    ∃ b' ∈ t.db.brokers, b'.id = b.id ∧ b'.lastContact ≠ none

/-- A broker is signed once. -/
structure SignedOnce (csrs : CsrReader) (S : System Brokerage Attempt) (s : Brokerage) :
    Prop where
  one : AtMostOne s.db.tables
  /-- In the `CA_Database` document too. -/
  stored : AtMostOne s.stored
  /-- All that was ever sent to a broker is one certificate. -/
  same : ∀ e ∈ s.log, ∀ e' ∈ s.log, e.pin = e'.pin → e.certificate = e'.certificate
  retry : ∀ a t, s.db.HasOf a.endpoint.pin → S.step s a t → Retried s a.endpoint.pin t
  /-- Attempts leave a broker that had at most one no more than one. -/
  sole : ∀ pin, s.db.SoleOf pin → ∀ t, S.Reaches s t → t.db.SoleOf pin
  /-- And that one is sent again as often as it waits and the attempt fits it, until the
  broker's answer is recorded. -/
  sends : ∀ a b cert root domains, Fits csrs s a b cert root domains →
    s.db.SoleOf a.endpoint.pin → ∀ t, S.step s a t →
      Answered s a b (a.enrolment cert root domains) t
  /-- From when a delivery is recorded on. -/
  delivered : ∀ b ∈ s.db.brokers, b.state = .active → b.lastContact ≠ none →
    ∀ t, S.Reaches s t → ∀ a u, b.pinnedKey = some a.endpoint.pin → S.step t a u →
      u.db.given = t.db.given

/-! ## What an attempt does -/

variable {times : OpensslTimes} {csrs : CsrReader} {s t : Brokerage} {a : Attempt}
  {domains : List String} {pin : String} {cert : Certificate}

theorem isOf_iff {b : Broker} :
    isOf pin b = true ↔ b.state = .active ∧ b.pinnedKey = some pin := by
  unfold isOf
  rw [Bool.and_eq_true, decide_eq_true_eq, decide_eq_true_eq]

theorem mem_listSubordinates {db : CaDatabase} {b : Broker} :
    b ∈ listSubordinates db ↔ b ∈ db.brokers := List.mem_insertionSort _

/-- Fails unless a condition holds, and changes nothing. -/
theorem of_demand_ok {p : Prop} [Decidable p] {error : OpcaError} {u : Unit}
    (h : demand p error s = .ok u t) : p ∧ s = t := by
  obtain ⟨db, hrequire, rfl⟩ := Part.of_lift_ok h
  obtain ⟨hp, rfl⟩ := of_require_ok hrequire
  exact ⟨hp, rfl⟩

/-- What was found of a subordinate that waits. -/
structure Pending (s : Brokerage) (a : Attempt) (domains : List String) (id : Int)
    (cert : Certificate) (b : Broker) : Prop where
  mem : b ∈ s.db.brokers
  waits : b.Waits a.endpoint.pin
  id : id = b.id
  cert : s.certificateOf b.subordinateSerial = some cert
  domains : sameDomains b.permittedDomains domains = true

theorem of_pendingOf_ok {b : Broker} {pending : Int × Certificate} (hb : b ∈ s.db.brokers)
    (hof : isOf a.endpoint.pin b = true)
    (h : pendingOf csrs b a domains s = .ok pending t) :
    s = t ∧ Pending s a domains pending.1 pending.2 b := by
  obtain ⟨_, _, hdemand, h⟩ := of_bind_ok h
  obtain ⟨hcontact, rfl⟩ := of_demand_ok hdemand
  obtain ⟨cert, _, hpem, h⟩ := of_bind_ok h
  obtain ⟨rfl, hcert⟩ := of_subordinatePem_ok hpem
  obtain ⟨requested, _, hrequested, h⟩ := of_bind_ok h
  obtain ⟨_, rfl⟩ := of_outcome_ok hrequested
  obtain ⟨_, _, hdemand, h⟩ := of_bind_ok h
  obtain ⟨⟨_, hdomains⟩, rfl⟩ := of_demand_ok hdemand
  cases h
  obtain ⟨hstate, hpin⟩ := isOf_iff.mp hof
  exact ⟨rfl, hb, ⟨hstate, hpin, Option.isNone_iff_eq_none.mp hcontact⟩, rfl, hcert, hdomains⟩

/-- An earlier subordinate is found if the pin has one. -/
theorem of_undelivered_ok {found : Option (Int × Certificate)}
    (h : undelivered csrs a domains s = .ok found t) :
    s = t ∧ ((found = none ∧ ¬s.db.HasOf a.endpoint.pin) ∨
      ∃ id cert b, found = some (id, cert) ∧ Pending s a domains id cert b) := by
  obtain ⟨_, _, hget, h⟩ := of_bind_ok h
  cases hget
  cases hfind : (listSubordinates s.db).find? (isOf a.endpoint.pin) with
  | none =>
    simp only [hfind] at h
    cases h
    refine ⟨rfl, .inl ⟨rfl, ?_⟩⟩
    intro ⟨b, hb, hof⟩
    exact absurd hof (List.find?_eq_none.mp hfind b (mem_listSubordinates.mpr hb))
  | some b =>
    simp only [hfind] at h
    cases hpending : pendingOf csrs b a domains s with
    | error e u =>
      rw [map_of_error hpending] at h
      cases h
    | ok pending u =>
      rw [map_of_ok hpending] at h
      cases h
      have hb := mem_listSubordinates.mp (List.mem_of_find?_eq_some hfind)
      obtain ⟨rfl, hfound⟩ := of_pendingOf_ok hb (List.find?_some hfind) hpending
      exact ⟨rfl, .inr ⟨_, _, b, rfl, hfound⟩⟩

/-! ## The invariant -/

structure OnceInv (s : Brokerage) : Prop where
  one : AtMostOne s.db.tables
  stored : AtMostOne s.stored
  held : ∀ b ∈ s.db.brokers, ∀ pin, b.Waits pin →
    ∃ cert, s.Holds cert ∧ cert.serial = b.subordinateSerial
  /-- What was sent is the certificate that still waits. -/
  sent : ∀ e ∈ s.log, s.Holds e.certificate ∧
    ∀ b ∈ s.db.brokers, b.Waits e.pin → e.certificate.serial = b.subordinateSerial
  of : ∀ e ∈ s.log, s.db.HasOf e.pin
  same : ∀ e ∈ s.log, ∀ e' ∈ s.log, e.pin = e'.pin → e.certificate = e'.certificate

theorem Broker.Waits.before {b b' : Broker} (h : b'.Waits pin) (hsame : b.Same b') :
    b.Waits pin :=
  ⟨hsame.state.symm.trans h.state, hsame.pinnedKey.symm.trans h.pinnedKey,
    hsame.lastContact h.undelivered⟩

theorem CaDatabase.HasOf.keeps {db db' : CaDatabase} (h : db.HasOf pin) (hkeeps : DbKeeps db db') :
    db'.HasOf pin := by
  obtain ⟨b, hb, hof⟩ := h
  obtain ⟨b', hb', hsame⟩ := hkeeps.after b hb
  obtain ⟨hstate, hpin⟩ := isOf_iff.mp hof
  exact ⟨b', hb', isOf_iff.mpr ⟨hsame.state.trans hstate, hsame.pinnedKey.trans hpin⟩⟩

theorem CaDatabase.HasOf.before {db db' : CaDatabase} (h : db'.HasOf pin)
    (hkeeps : DbKeeps db db') : db.HasOf pin := by
  obtain ⟨b', hb', hof⟩ := h
  obtain ⟨b, hb, hsame⟩ := hkeeps.before b' hb'
  obtain ⟨hstate, hpin⟩ := isOf_iff.mp hof
  exact ⟨b, hb, isOf_iff.mpr ⟨hsame.state.symm.trans hstate, hsame.pinnedKey.symm.trans hpin⟩⟩

theorem AtMostOne.keeps {db db' : CaDatabase} (h : AtMostOne db.tables)
    (hkeeps : DbKeeps db db') : AtMostOne db'.tables := by
  intro b hb b' hb' pin hwaits hwaits'
  obtain ⟨a, ha, hsame⟩ := hkeeps.before b hb
  obtain ⟨a', ha', hsame'⟩ := hkeeps.before b' hb'
  have heq : a = a' := h a ha a' ha' pin (hwaits.before hsame) (hwaits'.before hsame')
  have hid : b.id = b'.id := by rw [hsame.id, hsame'.id, heq]
  exact db'.tables.brokers.eq_of_key hb hb' hid

theorem OnceInv.keeps (h : OnceInv s) (hkeeps : Keeps s t) : OnceInv t := by
  refine ⟨h.one.keeps hkeeps.db, ?_, ?_, ?_, ?_, ?_⟩
  · rcases hkeeps.stored with hsame | ⟨u, hsu, _, hu⟩
    · rw [hsame]
      exact h.stored
    · rw [hu]
      exact h.one.keeps hsu
  · intro b hb pin hwaits
    obtain ⟨a, ha, hsame⟩ := hkeeps.db.before b hb
    obtain ⟨cert, hholds, hserial⟩ := h.held a ha pin (hwaits.before hsame)
    exact ⟨cert, hholds.keeps hkeeps, hserial.trans hsame.serial.symm⟩
  · rw [hkeeps.log]
    intro e he
    obtain ⟨hholds, hserial⟩ := h.sent e he
    refine ⟨hholds.keeps hkeeps, fun b hb hwaits => ?_⟩
    obtain ⟨a, ha, hsame⟩ := hkeeps.db.before b hb
    exact (hserial a ha (hwaits.before hsame)).trans hsame.serial.symm
  · rw [hkeeps.log]
    exact fun e he => (h.of e he).keeps hkeeps.db
  · rw [hkeeps.log]
    exact h.same

/-- A certificate that may be sent to the broker of a pin. -/
structure Ready (pin : String) (cert : Certificate) (s : Brokerage) : Prop where
  of : s.db.HasOf pin
  holds : s.Holds cert
  serial : ∀ b ∈ s.db.brokers, b.Waits pin → cert.serial = b.subordinateSerial
  same : ∀ e ∈ s.log, e.pin = pin → e.certificate = cert

theorem Ready.keeps (h : Ready pin cert s) (hkeeps : Keeps s t) : Ready pin cert t := by
  refine ⟨h.of.keeps hkeeps.db, h.holds.keeps hkeeps, ?_, ?_⟩
  · intro b hb hwaits
    obtain ⟨a, ha, hsame⟩ := hkeeps.db.before b hb
    exact (h.serial a ha (hwaits.before hsame)).trans hsame.serial.symm
  · rw [hkeeps.log]
    exact h.same

/-- What waits may be sent, and is what was sent before. -/
theorem Pending.ready {id : Int} {b : Broker} (h : Pending s a domains id cert b)
    (hinv : OnceInv s) : Ready a.endpoint.pin cert s := by
  obtain ⟨held, hholds, hserial⟩ := hinv.held b h.mem _ h.waits
  have hfound : ∀ other, s.Holds other → other.serial = b.subordinateSerial → cert = other :=
    fun other hother heq => certificateOf_holds hother (heq ▸ h.cert)
  have heq : cert = held := hfound held hholds hserial
  refine ⟨⟨b, h.mem, isOf_iff.mpr ⟨h.waits.state, h.waits.pinnedKey⟩⟩, heq ▸ hholds, ?_, ?_⟩
  · intro b' hb' hwaits
    rw [heq, hserial, hinv.one b h.mem b' hb' _ h.waits hwaits]
  · intro e he hpin
    obtain ⟨hsent, hserials⟩ := hinv.sent e he
    exact (hfound e.certificate hsent (hserials b h.mem (hpin ▸ h.waits))).symm

/-- The certificate is sent. -/
theorem OnceInv.note {e : Sent} (h : OnceInv s) (hready : Ready e.pin e.certificate s) :
    OnceInv { s with log := s.log ++ [e] } := by
  refine ⟨h.one, h.stored, h.held, ?_, ?_, ?_⟩
  · intro e' he'
    rcases List.mem_append.mp he' with hold | hnew
    · exact h.sent e' hold
    · rw [List.mem_singleton.mp hnew]
      exact ⟨hready.holds, hready.serial⟩
  · intro e' he'
    rcases List.mem_append.mp he' with hold | hnew
    · exact h.of e' hold
    · rw [List.mem_singleton.mp hnew]
      exact hready.of
  · intro e₁ he₁ e₂ he₂ hpin
    rcases List.mem_append.mp he₁ with hold₁ | hnew₁
    · rcases List.mem_append.mp he₂ with hold₂ | hnew₂
      · exact h.same e₁ hold₁ e₂ hold₂ hpin
      · rw [List.mem_singleton.mp hnew₂] at hpin ⊢
        exact hready.same e₁ hold₁ hpin
    · rw [List.mem_singleton.mp hnew₁] at hpin ⊢
      rcases List.mem_append.mp he₂ with hold₂ | hnew₂
      · exact (hready.same e₂ hold₂ hpin.symm).symm
      · rw [List.mem_singleton.mp hnew₂]

/-- A row is added for a certificate that is held, of a broker that had none. -/
theorem OnceInv.add {db : CaDatabase} {id : Int} {endpoint : Endpoint} {now : Time}
    (h : OnceInv s) (hnone : ¬s.db.HasOf endpoint.pin) (hholds : s.Holds cert)
    (hrows : db.rows = s.db.rows)
    (hbrokers : db.brokers =
      s.db.brokers ++ [newBroker times id cert.serial domains (some endpoint) now]) :
    OnceInv { s with db } ∧ Ready endpoint.pin cert { s with db } := by
  have hmem : ∀ b ∈ db.brokers, b ∈ s.db.brokers ∨
      b = newBroker times id cert.serial domains (some endpoint) now := by
    intro b hb
    rw [hbrokers] at hb
    exact (List.mem_append.mp hb).imp_right List.mem_singleton.mp
  have hpin : ∀ {pin}, (newBroker times id cert.serial domains (some endpoint) now).Waits pin →
      pin = endpoint.pin := fun hwaits => (Option.some.inj hwaits.pinnedKey).symm
  have hold : ∀ b ∈ s.db.brokers, ¬b.Waits endpoint.pin := fun b hb hwaits =>
    hnone ⟨b, hb, isOf_iff.mpr ⟨hwaits.state, hwaits.pinnedKey⟩⟩
  have hkept : ∀ c, s.Holds c → Vaulted.Holds { s with db } c := by
    rintro c ⟨row, hrow, hrest⟩
    exact ⟨row, hrows ▸ hrow, hrest⟩
  have hof : ∀ {pin}, s.db.HasOf pin → db.HasOf pin := by
    rintro pin ⟨b, hb, hbof⟩
    exact ⟨b, hbrokers ▸ List.mem_append_left _ hb, hbof⟩
  have hsent : ∀ e ∈ s.log, e.pin ≠ endpoint.pin := by
    intro e he heq
    exact hnone (heq ▸ h.of e he)
  refine ⟨⟨?_, h.stored, ?_, ?_, fun e he => hof (h.of e he), h.same⟩,
    ⟨?_, hkept cert hholds, ?_, ?_⟩⟩
  · intro b hb b' hb' pin hwaits hwaits'
    rcases hmem b hb with hb | rfl
    · rcases hmem b' hb' with hb' | rfl
      · exact h.one b hb b' hb' pin hwaits hwaits'
      · exact absurd (hpin hwaits' ▸ hwaits) (hold b hb)
    · rcases hmem b' hb' with hb' | rfl
      · exact absurd (hpin hwaits ▸ hwaits') (hold b' hb')
      · rfl
  · intro b hb pin hwaits
    rcases hmem b hb with hb | rfl
    · obtain ⟨c, hc, hserial⟩ := h.held b hb pin hwaits
      exact ⟨c, hkept c hc, hserial⟩
    · exact ⟨cert, hkept cert hholds, rfl⟩
  · intro e he
    obtain ⟨hc, hserial⟩ := h.sent e he
    refine ⟨hkept _ hc, fun b hb hwaits => ?_⟩
    rcases hmem b hb with hb | rfl
    · exact hserial b hb hwaits
    · exact absurd (hpin hwaits) (hsent e he)
  · refine ⟨_, hbrokers ▸ List.mem_append_right _ (List.mem_singleton_self _), ?_⟩
    exact isOf_iff.mpr ⟨rfl, rfl⟩
  · intro b hb hwaits
    rcases hmem b hb with hb | rfl
    · exact absurd hwaits (hold b hb)
    · rfl
  · exact fun e he heq => absurd heq (hsent e he)

/-! ## One attempt -/

/-- What an invariant that moves with a state keeps holding. -/
theorem keeping {α : Type} {m : BrokerageM α} {P : Brokerage → Prop} (h : Moves Keeps m)
    (hP : ∀ s t, P s → Keeps s t → P t) : Ensures P m (fun _ => P) P := h.keep hP

theorem onceInv_keeping {α : Type} {m : BrokerageM α} (h : Moves Keeps m) :
    Ensures OnceInv m (fun _ => OnceInv) OnceInv := keeping h fun _ _ => OnceInv.keeps

/-- A state in which a certificate may be sent. -/
def OnceReady (pin : String) (cert : Certificate) (s : Brokerage) : Prop :=
  OnceInv s ∧ Ready pin cert s

theorem onceReady_keeping {α : Type} {m : BrokerageM α} (h : Moves Keeps m) :
    Ensures (OnceReady pin cert) m (fun _ => OnceReady pin cert) OnceInv :=
  (keeping h fun _ _ hs hkeeps => ⟨hs.1.keeps hkeeps, hs.2.keeps hkeeps⟩).failing
    fun _ hs => hs.1

/-- A state in which a broker has no subordinate. -/
def OnceFree (pin : String) (s : Brokerage) : Prop := OnceInv s ∧ ¬s.db.HasOf pin

theorem onceFree_keeping {α : Type} {m : BrokerageM α} (h : Moves Keeps m) :
    Ensures (OnceFree pin) m (fun _ => OnceFree pin) OnceInv :=
  (keeping h fun _ _ hs hkeeps =>
    ⟨hs.1.keeps hkeeps, fun hof => hs.2 (hof.before hkeeps.db)⟩).failing
    fun _ hs => hs.1

theorem issueSubordinate_free {csr : String} {signing : SubordinateSigning} {now : Time} :
    Ensures (OnceFree pin) (Brokerage.issueSubordinate times csrs csr domains signing now)
      (fun issued s => OnceFree pin s ∧ s.Holds issued.2) OnceInv := by
  refine .of_cases ?_ ?_
  · intro s issued t hs hrun
    have hfree := (onceFree_keeping (issueSubordinate_keeps csr)).ok hs hrun
    exact ⟨hfree, (of_issueSubordinate_ok hrun).1⟩
  · intro s e t hs hrun
    exact (onceFree_keeping (issueSubordinate_keeps csr)).error hs hrun

/-- The row that is added is the only one of its broker. -/
theorem addBrokerAt_ready {endpoint : Endpoint} {now : Time} :
    Ensures (fun s => OnceFree endpoint.pin s ∧ s.Holds cert)
      (onVaulted (addBrokerAt times cert.serial domains (some endpoint) now))
      (fun _ => OnceReady endpoint.pin cert) OnceInv := by
  rintro s ⟨⟨hinv, hnone⟩, hholds⟩
  obtain ⟨db, hadd, hrows, _, hbrokers⟩ := addBrokerAt_ok
  have hrun := Part.lift_ok (p := database) (t := s) hadd
  unfold onVaulted
  rw [hrun]
  exact hinv.add hnone hholds hrows hbrokers

theorem signSubordinateAt_ready {csr : String} {endpoint : Endpoint}
    {signing : SubordinateSigning} {now : Time} :
    Ensures (OnceFree endpoint.pin)
      (signSubordinateAt times csrs csr domains (some endpoint) signing now)
      (fun signed => OnceReady endpoint.pin signed.2) OnceInv := by
  refine (onceFree_keeping Moves.outcome).bind fun permitted => ?_
  refine issueSubordinate_free.bind fun issued => ?_
  refine addBrokerAt_ready.bind fun id => ?_
  refine (onceReady_keeping (keeps_of_quiet (storeCaDatabase_quiet _))).bind fun _ => ?_
  refine (onceReady_keeping (keeps_of_quiet (brokerOf_quiet id))).bind fun broker => ?_
  exact .pure fun _ hs => hs

theorem undelivered_ready :
    Ensures OnceInv (undelivered csrs a domains)
      (fun found s => match found with
        | none => OnceFree a.endpoint.pin s
        | some pending => OnceReady a.endpoint.pin pending.2 s) OnceInv := by
  refine .of_cases ?_ ?_
  · intro s found t hs hrun
    obtain ⟨rfl, ⟨rfl, hnone⟩ | ⟨id, cert, b, rfl, hpending⟩⟩ := of_undelivered_ok hrun
    · exact ⟨hs, hnone⟩
    · exact ⟨hs, hpending.ready hs⟩
  · intro s e t hs hrun
    exact (onceInv_keeping (keeps_of_quiet (undelivered_quiet a))).error hs hrun

theorem subordinateFor_ready :
    Ensures OnceInv (subordinateFor times csrs a domains)
      (fun pending => OnceReady a.endpoint.pin pending.2) OnceInv := by
  refine undelivered_ready.bind fun found => ?_
  cases found with
  | none => exact signSubordinateAt_ready
  | some pending => exact .pure fun _ hs => hs

theorem note_once {e : Sent} (hpin : e.pin = pin) (hcert : e.certificate = cert) :
    Ensures (OnceReady pin cert) (note e) (fun _ => OnceInv) OnceInv := by
  subst hpin hcert
  exact .modify fun s hs => hs.1.note hs.2

theorem deliver_once (id : Int) :
    Ensures (OnceReady a.endpoint.pin cert) (deliver times a domains id cert)
      (fun _ => OnceInv) OnceInv := by
  refine (onceReady_keeping Moves.outcome).bind fun root => ?_
  refine Ensures.bind (note_once rfl rfl) fun _ => ?_
  refine (onceInv_keeping Moves.outcome).bind fun issuerState => ?_
  refine (onceInv_keeping (keeps_of_quiet (reported_quiet _ _ _))).bind fun _ => ?_
  refine (onceInv_keeping (keeps_of_quiet (recordBrokerCerts_quiet _))).bind fun _ => ?_
  refine (onceInv_keeping (keeps_of_quiet (storeCaDatabase_quiet _))).bind fun _ => ?_
  exact onceInv_keeping (keeps_of_quiet (brokerOf_quiet id))

/-- An attempt keeps the invariant, wherever it fails. -/
theorem enrolBroker_once (a : Attempt) :
    Ensures OnceInv (enrolBroker times csrs a) (fun _ => OnceInv) OnceInv := by
  refine (onceInv_keeping Moves.outcome).bind fun _ => ?_
  refine (onceInv_keeping Moves.outcome).bind fun offer => ?_
  refine (onceInv_keeping (keeps_of_quiet (demand_quiet _ _))).bind fun _ => ?_
  refine (onceInv_keeping Moves.outcome).bind fun domains => ?_
  exact subordinateFor_ready.bind fun pending => deliver_once _

/-! ## An attempt for a broker that has a subordinate -/

theorem Quiet.retried (h : Quiet s t) (pin : String) : Retried s pin t :=
  ⟨h.2.given, .inl h.1.log⟩

theorem retrying {α : Type} {m : BrokerageM α} (h : Moves Quiet m) :
    Ensures (Quiet s) m (fun _ => Quiet s) (Retried s pin) :=
  (h s).failing fun _ ht => ht.retried pin

/-- What is found to send is what waited from the start. -/
theorem Pending.serial {b b' : Broker} {id : Int} (h : Pending t a domains id cert b)
    (hinv : OnceInv s) (hkeeps : Keeps s t) (hb' : b' ∈ s.db.brokers)
    (hwaits : b'.Waits a.endpoint.pin) : cert.serial = b'.subordinateSerial := by
  obtain ⟨b₀, hb₀, hsame⟩ := hkeeps.db.before b h.mem
  have heq : b₀ = b' := hinv.one b₀ hb₀ b' hb' _ (h.waits.before hsame) hwaits
  have hserial := (h.ready (hinv.keeps hkeeps)).serial b h.mem h.waits
  rw [hserial, hsame.serial, heq]

/-- What is sent again to the broker of a pin. -/
def Resendable (s : Brokerage) (pin : String) (cert : Certificate) (t : Brokerage) : Prop :=
  Quiet s t ∧ ∀ b ∈ s.db.brokers, b.Waits pin → cert.serial = b.subordinateSerial

theorem subordinateFor_retried (hinv : OnceInv s) (hof : s.db.HasOf a.endpoint.pin) :
    Ensures (Quiet s) (subordinateFor times csrs a domains)
      (fun pending => Resendable s a.endpoint.pin pending.2) (Retried s a.endpoint.pin) := by
  have hfind : Ensures (Quiet s) (undelivered csrs a domains)
      (fun found t => ∃ pending, found = some pending ∧
        Resendable s a.endpoint.pin pending.2 t) (Retried s a.endpoint.pin) := by
    refine .of_cases ?_ ?_
    · intro u found t hu hrun
      obtain ⟨rfl, ⟨_, hnone⟩ | ⟨id, cert, b, rfl, hpending⟩⟩ := of_undelivered_ok hrun
      · exact absurd (hof.keeps hu.1.db) hnone
      · exact ⟨_, rfl, hu, fun b' hb' hwaits => hpending.serial hinv hu.1 hb' hwaits⟩
    · intro u e t hu hrun
      exact (retrying (undelivered_quiet a)).error hu hrun
  refine hfind.bind fun found => ?_
  cases found with
  | none =>
    rintro t ⟨pending, hfound, _⟩
    cases hfound
  | some pending =>
    refine .pure ?_
    rintro t ⟨_, hfound, ht⟩
    cases hfound
    exact ht

/-- It has been sent once. -/
def SentOne (s : Brokerage) (pin : String) (t : Brokerage) : Prop :=
  t.db.given = s.db.given ∧ ∃ e, t.log = s.log ++ [e] ∧ e.pin = pin ∧
    ∀ b ∈ s.db.brokers, b.Waits pin → e.certificate.serial = b.subordinateSerial

theorem sentOne_keeping {α : Type} {m : BrokerageM α} (h : Moves Quiet m) :
    Ensures (SentOne s pin) m (fun _ => SentOne s pin) (Retried s pin) := by
  have hkeep : Ensures (SentOne s pin) m (fun _ => SentOne s pin) (SentOne s pin) := by
    refine h.keep ?_
    rintro t u ⟨hgiven, hsent⟩ hquiet
    refine ⟨hquiet.2.given.trans hgiven, ?_⟩
    rw [hquiet.1.log]
    exact hsent
  exact hkeep.failing fun _ ht => ⟨ht.1, .inr ht.2⟩

theorem note_retried {e : Sent} (hpin : e.pin = pin) (hcert : e.certificate = cert) :
    Ensures (Resendable s pin cert) (note e) (fun _ => SentOne s pin) (Retried s pin) := by
  refine .modify ?_
  rintro t ⟨hquiet, hserial⟩
  refine ⟨hquiet.2.given, e, ?_, hpin, hcert ▸ hserial⟩
  rw [← hquiet.1.log]

theorem deliver_retried (id : Int) :
    Ensures (Resendable s a.endpoint.pin cert) (deliver times a domains id cert)
      (fun _ => SentOne s a.endpoint.pin) (Retried s a.endpoint.pin) := by
  have hroot : Ensures (Resendable s a.endpoint.pin cert) (outcome a.root : BrokerageM String)
      (fun _ => Resendable s a.endpoint.pin cert) (Retried s a.endpoint.pin) :=
    .outcome (fun _ _ _ ht => ht) fun _ ht => ht.1.retried _
  refine hroot.bind fun root => ?_
  refine Ensures.bind (note_retried rfl rfl) fun _ => ?_
  refine (sentOne_keeping Moves.outcome).bind fun issuerState => ?_
  refine (sentOne_keeping (reported_quiet _ _ _)).bind fun _ => ?_
  refine (sentOne_keeping (recordBrokerCerts_quiet _)).bind fun _ => ?_
  refine (sentOne_keeping (storeCaDatabase_quiet _)).bind fun _ => ?_
  exact sentOne_keeping (brokerOf_quiet id)

theorem enrolBroker_retried (hinv : OnceInv s) (hof : s.db.HasOf a.endpoint.pin) :
    Ensures (Quiet s) (enrolBroker times csrs a) (fun _ => SentOne s a.endpoint.pin)
      (Retried s a.endpoint.pin) := by
  refine (retrying Moves.outcome).bind fun _ => ?_
  refine (retrying Moves.outcome).bind fun offer => ?_
  refine (retrying (demand_quiet _ _)).bind fun _ => ?_
  refine (retrying Moves.outcome).bind fun domains => ?_
  exact (subordinateFor_retried hinv hof).bind fun pending => deliver_retried _

/-! ## An attempt that fits -/

theorem subordinatePem_run {b : Broker} (h : s.certificateOf b.subordinateSerial = some cert) :
    subordinatePem b (.ok ()) s = .ok cert s := by
  obtain ⟨c, hc, htitled⟩ := Option.bind_eq_some_iff.mp h
  obtain ⟨title, htitle, hitem⟩ := Option.bind_eq_some_iff.mp htitled
  have hquery : onVaulted (queryCert (.serial b.subordinateSerial) false) s =
      .ok (s.db.found (.serial b.subordinateSerial) false) s := rfl
  unfold subordinatePem
  rw [bind_of_ok hquery, hc, Option.bind_some, htitle]
  show (outcome ((s.items.find title).bind (·.content.certificate) |>.elim _ .ok) :
    BrokerageM Certificate) s = _
  rw [hitem]
  rfl

theorem demand_run {p : Prop} [Decidable p] {error : OpcaError} (hp : p) :
    demand p error s = .ok () s := by
  have hrequire : require p error s.db = .ok () s.db := by
    unfold require
    rw [if_pos hp]
    rfl
  exact Part.lift_ok (p := database) (t := s) hrequire

theorem Fits.undelivered {b : Broker} {root : String} (h : Fits csrs s a b cert root domains)
    (hsole : s.db.SoleOf a.endpoint.pin) :
    undelivered csrs a domains s = .ok (some (b.id, cert)) s := by
  have hof : isOf a.endpoint.pin b = true := isOf_iff.mpr ⟨h.waits.state, h.waits.pinnedKey⟩
  have hfind : (listSubordinates s.db).find? (isOf a.endpoint.pin) = some b := by
    cases hfound : (listSubordinates s.db).find? (isOf a.endpoint.pin) with
    | none => exact absurd hof (List.find?_eq_none.mp hfound b (mem_listSubordinates.mpr h.mem))
    | some b' =>
      have hb' := mem_listSubordinates.mp (List.mem_of_find?_eq_some hfound)
      rw [hsole b' hb' b h.mem (List.find?_some hfound) hof]
  have hpending : pendingOf csrs b a domains s = .ok (b.id, cert) s := by
    unfold pendingOf
    rw [bind_of_ok (demand_run (Option.isNone_iff_eq_none.mpr h.waits.undelivered)), h.read,
      bind_of_ok (subordinatePem_run h.found), h.key,
      bind_of_ok (m := outcome (.ok cert.attribs.publicKey)) rfl]
    exact bind_of_ok (demand_run ⟨rfl, h.domains⟩)
  unfold Brokerage.undelivered
  rw [bind_of_ok (m := get) rfl]
  simp only [hfind]
  exact map_of_ok hpending

/-- The row of a broker that has answered. -/
def Contacted (s : Brokerage) (b : Broker) (e : Sent) (t : Brokerage) : Prop :=
  t.log = s.log ++ [e] ∧ ∃ b' ∈ t.db.brokers, b'.id = b.id ∧ b'.lastContact ≠ none

theorem contacted_keeping {α : Type} {m : BrokerageM α} {b : Broker} {e : Sent}
    (h : Moves Quiet m) :
    Ensures (Contacted s b e) m (fun _ => Answered s a b e) (Answered s a b e) := by
  have hkeep : Ensures (Contacted s b e) m (fun _ => Contacted s b e) (Contacted s b e) := by
    refine h.keep ?_
    rintro t u ⟨hlog, b', hb', hid, hcontact⟩ hquiet
    obtain ⟨after, hafter, hsame⟩ := hquiet.1.db.after b' hb'
    exact ⟨hquiet.1.log.trans hlog, after, hafter, hsame.id.trans hid,
      fun hnone => hcontact (hsame.lastContact hnone)⟩
  exact hkeep.imp (fun _ ht => ht) (fun _ _ ht => ⟨ht.1, fun _ _ => ht.2⟩)
    fun _ ht => ⟨ht.1, fun _ _ => ht.2⟩

theorem reported_contacts {b : Broker} {e : Sent} {issuerState : Option String} {at_ : String}
    (hb : b ∈ s.db.brokers) :
    Ensures (· = { s with log := s.log ++ [e] })
      (onVaulted (reported b.id issuerState at_)) (fun _ => Contacted s b e)
      (Answered s a b e) := by
  rintro _ rfl
  refine ⟨rfl, { b with lastContact := some at_, issuerState := issuerState }, ?_, rfl, nofun⟩
  refine mem_updateWhere.mpr ⟨{ b with lastContact := some at_ }, ?_, ?_⟩
  · refine mem_updateWhere.mpr ⟨b, hb, ?_⟩
    rw [if_pos (decide_eq_true rfl)]
  · rw [if_pos (decide_eq_true rfl)]

theorem deliver_answered {b : Broker} {root : String} (hb : b ∈ s.db.brokers)
    (hroot : a.root = .ok root) :
    Ensures (· = s) (deliver times a domains b.id cert)
      (fun _ => Answered s a b (a.enrolment cert root domains))
      (Answered s a b (a.enrolment cert root domains)) := by
  unfold deliver
  rw [hroot]
  have hread : Ensures (· = s) (outcome (.ok root) : BrokerageM String)
      (fun found t => found = root ∧ t = s)
      (Answered s a b (a.enrolment cert root domains)) :=
    fun t ht => ⟨rfl, ht⟩
  refine hread.bind fun found => Ensures.of_and ?_
  rintro rfl
  have hnote : Ensures (· = s) (note (a.enrolment cert found domains))
      (fun _ t => t = { s with log := s.log ++ [a.enrolment cert found domains] })
      (Answered s a b (a.enrolment cert found domains)) := by
    rintro _ rfl
    exact rfl
  refine hnote.bind fun _ => ?_
  have hanswer : ∀ f : String → OpcaError, Ensures
      (· = { s with log := s.log ++ [a.enrolment cert found domains] })
      (outcome (a.enrolled.mapError f) : BrokerageM _)
      (fun _ t => t = { s with log := s.log ++ [a.enrolment cert found domains] })
      (Answered s a b (a.enrolment cert found domains)) := by
    rintro f _ rfl
    cases henrolled : a.enrolled with
    | error e =>
      refine ⟨rfl, fun issuerState hok => ?_⟩
      rw [henrolled] at hok
      cases hok
    | ok issuerState => exact rfl
  refine (hanswer _).bind fun issuerState => ?_
  refine (reported_contacts hb).bind fun _ => contacted_keeping ?_
  refine (recordBrokerCerts_quiet _).bind fun _ => (storeCaDatabase_quiet _).bind fun _ => ?_
  exact brokerOf_quiet _

theorem Fits.answered {b : Broker} {root : String} (h : Fits csrs s a b cert root domains)
    (hsole : s.db.SoleOf a.endpoint.pin) :
    Answered s a b (a.enrolment cert root domains)
      (finalState (enrolBroker times csrs a s)) := by
  have hfor : subordinateFor times csrs a domains s = .ok (b.id, cert) s := by
    unfold subordinateFor
    rw [bind_of_ok (h.undelivered hsole)]
    rfl
  have hshown : demand (a.shown = a.shown)
      (.other "The broker's request has changed since it was shown; review it again") s =
        .ok () s := demand_run rfl
  have hrun : enrolBroker times csrs a s = deliver times a domains b.id cert s := by
    unfold enrolBroker
    rw [h.clients, bind_of_ok (m := outcome (.ok ())) rfl, h.offer,
      bind_of_ok (m := outcome (.ok a.shown)) rfl, bind_of_ok hshown, h.asked,
      bind_of_ok (m := outcome (.ok domains)) rfl, bind_of_ok hfor]
  rw [hrun]
  exact (deliver_answered h.mem h.root).final rfl

/-! ## Runs -/

/-- Brokers that have a subordinate go on having one. -/
def StillHas (s t : Brokerage) : Prop := ∀ pin, s.db.HasOf pin → t.db.HasOf pin

instance : Std.Refl StillHas := ⟨fun _ _ h => h⟩

instance : IsTrans Brokerage StillHas := ⟨fun _ _ _ hst htu pin h => htu pin (hst pin h)⟩

theorem stillHas_of_keeps {α : Type} {m : BrokerageM α} (h : Moves Keeps m) :
    Moves StillHas m := h.weaken fun _ _ hkeeps _ hof => hof.keeps hkeeps.db

theorem stillHas_of_quiet {α : Type} {m : BrokerageM α} (h : Moves Quiet m) :
    Moves StillHas m := stillHas_of_keeps (keeps_of_quiet h)

theorem addBrokerAt_stillHas {serial : String} {endpoint : Endpoint} {now : Time} :
    Moves StillHas (onVaulted (addBrokerAt times serial domains (some endpoint) now)) := by
  have hadds : ∀ s : Brokerage, ∃ id t,
      onVaulted (addBrokerAt times serial domains (some endpoint) now) s = .ok id t ∧
        StillHas s t := by
    intro s
    obtain ⟨db, hadd, _, _, hbrokers⟩ := addBrokerAt_ok
    refine ⟨_, _, Part.lift_ok (p := database) hadd, ?_⟩
    intro pin ⟨b, hb, hof⟩
    refine ⟨b, ?_, hof⟩
    show b ∈ db.brokers
    rw [hbrokers]
    exact List.mem_append_left _ hb
  refine .of_step ?_ ?_
  · intro s id t hrun
    obtain ⟨_, _, hok, hstill⟩ := hadds s
    rw [hok] at hrun
    cases hrun
    exact hstill
  · intro s e t hrun
    obtain ⟨_, _, hok, _⟩ := hadds s
    rw [hok] at hrun
    cases hrun

theorem enrolBroker_stillHas (a : Attempt) : Moves StillHas (enrolBroker times csrs a) := by
  refine Moves.outcome.bind fun _ => Moves.outcome.bind fun offer => ?_
  refine (stillHas_of_quiet (demand_quiet _ _)).bind fun _ => Moves.outcome.bind fun domains => ?_
  have hsign : Moves StillHas (signSubordinateAt times csrs a.shown.csrPem domains
      (some a.endpoint) a.signing a.now) := by
    refine Moves.outcome.bind fun permitted => ?_
    refine (stillHas_of_keeps (issueSubordinate_keeps _)).bind fun issued => ?_
    refine addBrokerAt_stillHas.bind fun id => ?_
    refine (stillHas_of_quiet (storeCaDatabase_quiet _)).bind fun _ => ?_
    exact (stillHas_of_quiet (brokerOf_quiet id)).bind fun _ => .pure
  have hfor : Moves StillHas (subordinateFor times csrs a domains) := by
    refine (stillHas_of_quiet (undelivered_quiet a)).bind fun found => ?_
    cases found with
    | none => exact hsign
    | some pending => exact .pure
  refine hfor.bind fun pending => ?_
  refine Moves.outcome.bind fun root => Moves.bind (.modify fun _ _ h => h) fun _ => ?_
  refine Moves.outcome.bind fun issuerState => ?_
  refine stillHas_of_quiet ((reported_quiet _ _ _).bind fun _ => ?_)
  refine (recordBrokerCerts_quiet _).bind fun _ => (storeCaDatabase_quiet _).bind fun _ => ?_
  exact brokerOf_quiet _

/-- A broker has at most one subordinate. -/
def Sole (pin : String) (s : Brokerage) : Prop := s.db.SoleOf pin

theorem Sole.keeps (h : Sole pin s) (hkeeps : Keeps s t) : Sole pin t := by
  intro b hb b' hb' hof hof'
  obtain ⟨a, ha, hsame⟩ := hkeeps.db.before b hb
  obtain ⟨a', ha', hsame'⟩ := hkeeps.db.before b' hb'
  have hbefore : ∀ {old new : Broker}, old.Same new → isOf pin new = true →
      isOf pin old = true := by
    intro old new hsame hof
    obtain ⟨hstate, hpin⟩ := isOf_iff.mp hof
    exact isOf_iff.mpr ⟨hsame.state.symm.trans hstate, hsame.pinnedKey.symm.trans hpin⟩
  have heq : a = a' := h a ha a' ha' (hbefore hsame hof) (hbefore hsame' hof')
  have hid : b.id = b'.id := by rw [hsame.id, hsame'.id, heq]
  exact t.db.tables.brokers.eq_of_key hb hb' hid

theorem sole_keeping {α : Type} {m : BrokerageM α} (h : Moves Keeps m) :
    Ensures (Sole pin) m (fun _ => Sole pin) (Sole pin) := keeping h fun _ _ => Sole.keeps

theorem sole_of_quiet {α : Type} {m : BrokerageM α} (h : Moves Quiet m) :
    Ensures (Sole pin) m (fun _ => Sole pin) (Sole pin) := sole_keeping (keeps_of_quiet h)

/-- At most one of a broker, and none of the broker of another pin. -/
def SoleFree (pin new : String) (s : Brokerage) : Prop := Sole pin s ∧ ¬s.db.HasOf new

theorem soleFree_keeping {α : Type} {m : BrokerageM α} {new : String} (h : Moves Keeps m) :
    Ensures (SoleFree pin new) m (fun _ => SoleFree pin new) (Sole pin) :=
  (keeping h fun _ _ hs hkeeps =>
    ⟨hs.1.keeps hkeeps, fun hof => hs.2 (hof.before hkeeps.db)⟩).failing
    fun _ hs => hs.1

theorem addBrokerAt_sole {serial : String} {endpoint : Endpoint} {now : Time} :
    Ensures (SoleFree pin endpoint.pin)
      (onVaulted (addBrokerAt times serial domains (some endpoint) now))
      (fun _ => Sole pin) (Sole pin) := by
  rintro s ⟨hsole, hnone⟩
  obtain ⟨db, hadd, _, _, hbrokers⟩ := addBrokerAt_ok
  have hrun := Part.lift_ok (p := database) (t := s) hadd
  unfold onVaulted
  rw [hrun]
  intro b hb b' hb' hof hof'
  have hmem : ∀ {b}, b ∈ db.brokers → b ∈ s.db.brokers ∨ b = newBroker times _ _ _ _ now :=
    fun hb => (List.mem_append.mp (hbrokers ▸ hb)).imp_right List.mem_singleton.mp
  -- A new row of the pin is of a broker that had none.
  have hnew : ∀ {id : Int} {b}, b ∈ s.db.brokers → isOf pin b = true →
      isOf pin (newBroker times id serial domains (some endpoint) now) ≠ true := by
    intro id b hb hof hofNew
    have hpin : pin = endpoint.pin := (Option.some.inj (isOf_iff.mp hofNew).2).symm
    exact hnone ⟨b, hb, hpin ▸ hof⟩
  rcases hmem hb with hold | rfl
  · rcases hmem hb' with hold' | rfl
    · exact hsole b hold b' hold' hof hof'
    · exact absurd hof' (hnew hold hof)
  · rcases hmem hb' with hold' | rfl
    · exact absurd hof (hnew hold' hof')
    · rfl

theorem undelivered_sole :
    Ensures (Sole pin) (undelivered csrs a domains)
      (fun found s => match found with
        | none => SoleFree pin a.endpoint.pin s
        | some _ => Sole pin s) (Sole pin) := by
  refine .of_cases ?_ ?_
  · intro s found t hs hrun
    obtain ⟨rfl, ⟨rfl, hnone⟩ | ⟨id, cert, b, rfl, _⟩⟩ := of_undelivered_ok hrun
    · exact ⟨hs, hnone⟩
    · exact hs
  · intro s e t hs hrun
    exact (sole_of_quiet (undelivered_quiet a)).error hs hrun

/-- An attempt leaves a broker that had at most one subordinate no more, wherever it
fails. -/
theorem enrolBroker_sole (a : Attempt) :
    Ensures (Sole pin) (enrolBroker times csrs a) (fun _ => Sole pin) (Sole pin) := by
  refine (sole_keeping Moves.outcome).bind fun _ => ?_
  refine (sole_keeping Moves.outcome).bind fun offer => ?_
  refine (sole_of_quiet (demand_quiet _ _)).bind fun _ => ?_
  refine (sole_keeping Moves.outcome).bind fun domains => ?_
  have hsign : Ensures (SoleFree pin a.endpoint.pin) (signSubordinateAt times csrs a.shown.csrPem
      domains (some a.endpoint) a.signing a.now) (fun _ => Sole pin) (Sole pin) := by
    refine (soleFree_keeping Moves.outcome).bind fun permitted => ?_
    refine (soleFree_keeping (issueSubordinate_keeps _)).bind fun issued => ?_
    refine addBrokerAt_sole.bind fun id => ?_
    refine (sole_of_quiet (storeCaDatabase_quiet _)).bind fun _ => ?_
    exact (sole_of_quiet (brokerOf_quiet id)).bind fun _ => .pure fun _ hs => hs
  have hfor : Ensures (Sole pin) (subordinateFor times csrs a domains) (fun _ => Sole pin)
      (Sole pin) := by
    refine undelivered_sole.bind fun found => ?_
    cases found with
    | none => exact hsign
    | some pending => exact .pure fun _ hs => hs
  refine hfor.bind fun pending => (sole_keeping Moves.outcome).bind fun root => ?_
  have hnote : ∀ e, Ensures (Sole pin) (note e) (fun _ => Sole pin) (Sole pin) :=
    fun e => .modify fun _ hs => hs
  refine (hnote _).bind fun _ => ?_
  refine (sole_keeping Moves.outcome).bind fun issuerState => ?_
  refine (sole_of_quiet (reported_quiet _ _ _)).bind fun _ => ?_
  refine (sole_of_quiet (recordBrokerCerts_quiet _)).bind fun _ => ?_
  refine (sole_of_quiet (storeCaDatabase_quiet _)).bind fun _ => ?_
  exact sole_of_quiet (brokerOf_quiet _)

theorem sole_of_reaches (hs : (enrolling times csrs).system.Reachable s) (hsole : Sole pin s)
    (h : (enrolling times csrs).system.Reaches s t) : Sole pin t := by
  refine h.lift (R := fun s t => Sole pin s → Sole pin t) (fun _ h => h)
    (fun hst htu h => htu (hst h)) ?_ hs hsole
  rintro s _ a _ ⟨⟩ hsole
  exact (enrolBroker_sole a).final hsole

variable (times csrs) in
theorem onceInv_invariant : (enrolling times csrs).system.Invariant OnceInv where
  init := by
    rintro s ⟨hone, hstored, hheld, hlog⟩
    have hnone : ∀ e, e ∉ s.log := fun e he => absurd (hlog ▸ he) List.not_mem_nil
    exact ⟨hone, hstored, hheld, fun e he => absurd he (hnone e), fun e he => absurd he (hnone e),
      fun e he => absurd he (hnone e)⟩
  step := by
    rintro s _ a hs ⟨⟩
    exact (enrolBroker_once a).final hs

theorem stillHas_of_reaches (hs : (enrolling times csrs).system.Reachable s)
    (h : (enrolling times csrs).system.Reaches s t) : StillHas s t := by
  refine h.lift (fun s => Std.Refl.refl s) (fun hst htu => IsTrans.trans _ _ _ hst htu) ?_ hs
  rintro s _ a _ ⟨⟩
  exact (enrolBroker_stillHas a s).final (Std.Refl.refl s)

/-- An attempt for a broker that has a subordinate signs none. -/
theorem retried_of_step (hs : (enrolling times csrs).system.Reachable s)
    (hof : s.db.HasOf a.endpoint.pin) (hstep : (enrolling times csrs).system.step s a t) :
    Retried s a.endpoint.pin t := by
  have hinv := (onceInv_invariant times csrs).reachable hs
  cases hstep
  refine ((enrolBroker_retried hinv hof).imp (fun _ ht => ht) ?_ fun _ ht => ht).final
    (Std.Refl.refl s)
  exact fun _ t ht => ⟨ht.1, .inr ht.2⟩

/-- Every attempt to enrol a broker sends it one certificate, and none is signed for it
again. -/
theorem signedOnce {s : Brokerage} (h : (enrolling times csrs).system.Reachable s) :
    SignedOnce csrs (enrolling times csrs).system s := by
  have hinv := (onceInv_invariant times csrs).reachable h
  refine ⟨hinv.one, hinv.stored, hinv.same, fun a t hof hstep => retried_of_step h hof hstep,
    fun pin hsole t hreaches => sole_of_reaches h hsole hreaches, ?_, ?_⟩
  · rintro a b cert root domains hfits hsole t ⟨⟩
    exact hfits.answered hsole
  · intro b hb hstate _ t hreaches a u hpin hstep
    have hof : s.db.HasOf a.endpoint.pin := ⟨b, hb, isOf_iff.mpr ⟨hstate, hpin⟩⟩
    have hlater := stillHas_of_reaches h hreaches _ hof
    exact (retried_of_step (hreaches.reachable h) hlater hstep).given

def sampleCsrs : CsrReader where
  publicKey text := .ok text
  verified text := .ok ⟨some "Broker CA", [.dns "acme.home.arpa"], text⟩

def sampleSigning : SubordinateSigning :=
  ⟨.ok (), sampleCert "Broker CA" "subordinateca", .ok (), .ok (), .ok ()⟩

/-- A database, a vault and a log with nothing in them. -/
def sampleBrokerage : Brokerage where
  db := .fromTables ⟨{}, .empty, [], none, none, .empty, .empty, fun _ _ => none⟩ []
  items := .empty
  stored := ⟨{}, .empty, [], none, none, .empty, .empty, fun _ _ => none⟩
  log := []

theorem sampleBrokerage_starts : (enrolling sampleTimes sampleCsrs).init sampleBrokerage :=
  ⟨fun _ h => (List.not_mem_nil h).elim, fun _ h => (List.not_mem_nil h).elim,
    fun _ h => (List.not_mem_nil h).elim, rfl⟩

/-- An attempt that the broker answers so. -/
def sampleAttempt (enrolled : Except String (Option String)) : Attempt where
  endpoint := ⟨"https://acme.home.arpa:9443", "ab"⟩
  code := "code"
  operatorPin := "cd"
  shown := ⟨"key", "acme.home.arpa", [], (1, "1.0")⟩
  terms := ⟨["Home.ARPA"], [.dns01], 30, 45⟩
  clients := .ok ()
  offer := .ok ⟨"key", "acme.home.arpa", [], (1, "1.0")⟩
  read := .ok ()
  signing := sampleSigning
  root := .ok "root"
  enrolled
  issued := some []
  databaseStored := .ok ()
  now := sampleStart

/-- A broker answers the second time it is sent what it did not answer the first. -/
theorem signedOnce_retried :
    ∃ (s : Brokerage) (b : Broker) (cert : Certificate), s.log.length = 1 ∧
      s.Holds cert ∧ cert.serial = b.subordinateSerial ∧
      Answered s (sampleAttempt (.ok (some "issuing"))) b
        ((sampleAttempt (.ok (some "issuing"))).enrolment cert "root" ["home.arpa"])
        (finalState (enrolBroker sampleTimes sampleCsrs
          (sampleAttempt (.ok (some "issuing"))) s)) := by
  obtain ⟨s, hs, hview⟩ := Machine.exists_reachable_of_exec sampleBrokerage_starts
    [sampleAttempt (.error "no answer")]
    (fun s => s.log.length = 1 ∧ s.db.brokers.length = 1 ∧
      ∃ b ∈ s.db.brokers, b.state = .active ∧ b.pinnedKey = some "ab" ∧ b.lastContact = none ∧
        sameDomains b.permittedDomains ["home.arpa"] = true ∧
        ∃ cert ∈ s.certificateOf b.subordinateSerial, cert.attribs.publicKey = "key")
    (by decide +kernel)
  obtain ⟨hlog, hone, b, hb, hstate, hpin, hcontact, hdomains, cert, hcert, hkey⟩ :=
    of_decide_eq_true hview
  have hsole : s.db.SoleOf "ab" := by
    obtain ⟨only, honly⟩ := List.length_eq_one_iff.mp hone
    intro b hb b' hb' _ _
    rw [honly, List.mem_singleton] at hb hb'
    rw [hb, hb']
  have hfits : Fits sampleCsrs s (sampleAttempt (.ok (some "issuing"))) b cert "root"
      ["home.arpa"] :=
    ⟨hb, ⟨hstate, hpin, hcontact⟩, rfl, rfl, by decide +kernel, hdomains, rfl, hcert,
      congrArg Except.ok hkey.symm, rfl⟩
  have honce := signedOnce hs
  obtain ⟨held, hholds, hserial⟩ :=
    ((onceInv_invariant sampleTimes sampleCsrs).reachable hs).held b hb _ hfits.waits
  have heq : cert = held := certificateOf_holds hholds (hserial ▸ hcert)
  exact ⟨s, b, cert, hlog, heq ▸ hholds, heq ▸ hserial,
    honce.sends _ b cert "root" _ hfits hsole _ rfl⟩

end Opca.Core

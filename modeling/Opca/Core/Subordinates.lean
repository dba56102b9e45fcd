/-
  Core/Subordinates.lean --- what the parts of an enrolment or a renewal keep: the
  certificate of a broker's row stays in the item that its title names, and the row stays
  on it unless it is moved to another that was signed.
-/
import Opca.Core.Brokerage

set_option autoImplicit false

namespace Opca.Core

open Opca.Foundation Acme

/-! ## What a statement keeps -/

/-- A broker's row after another, on the same certificate. -/
structure Broker.Same (before after : Broker) : Prop where
  id : after.id = before.id
  serial : after.subordinateSerial = before.subordinateSerial
  domains : after.permittedDomains = before.permittedDomains
  state : after.state = before.state
  pinnedKey : after.pinnedKey = before.pinnedKey
  /-- No contact is forgotten. -/
  lastContact : after.lastContact = none → before.lastContact = none

theorem Broker.Same.refl (b : Broker) : b.Same b := ⟨rfl, rfl, rfl, rfl, rfl, fun h => h⟩

theorem Broker.Same.trans {a b c : Broker} (hab : a.Same b) (hbc : b.Same c) : a.Same c :=
  ⟨hbc.id.trans hab.id, hbc.serial.trans hab.serial, hbc.domains.trans hab.domains,
    hbc.state.trans hab.state, hbc.pinnedKey.trans hab.pinnedKey,
    hab.lastContact ∘ hbc.lastContact⟩

/-- Certificates keep their titles, and brokers their certificates. -/
structure DbKeeps (s t : CaDatabase) : Prop where
  rows : ∀ c ∈ s.rows, ∃ c' ∈ t.rows, c'.serial = c.serial ∧ c'.title = c.title
  after : ∀ b ∈ s.brokers, ∃ b' ∈ t.brokers, b.Same b'
  before : ∀ b' ∈ t.brokers, ∃ b ∈ s.brokers, b.Same b'

instance : Std.Refl DbKeeps where
  refl _ := ⟨fun c hc => ⟨c, hc, rfl, rfl⟩, fun b hb => ⟨b, hb, .refl b⟩,
    fun b hb => ⟨b, hb, .refl b⟩⟩

instance : IsTrans CaDatabase DbKeeps where
  trans s t u hst htu := by
    refine ⟨?_, ?_, ?_⟩
    · intro c hc
      obtain ⟨c', hc', hserial, htitle⟩ := hst.rows c hc
      obtain ⟨c'', hc'', hserial', htitle'⟩ := htu.rows c' hc'
      exact ⟨c'', hc'', hserial'.trans hserial, htitle'.trans htitle⟩
    · intro b hb
      obtain ⟨b', hb', hsame⟩ := hst.after b hb
      obtain ⟨b'', hb'', hsame'⟩ := htu.after b' hb'
      exact ⟨b'', hb'', hsame.trans hsame'⟩
    · intro b'' hb''
      obtain ⟨b', hb', hsame'⟩ := htu.before b'' hb''
      obtain ⟨b, hb, hsame⟩ := hst.before b' hb'
      exact ⟨b, hb, hsame.trans hsame'⟩

variable {s t db : CaDatabase} {times : OpensslTimes} {now : Time}

theorem dbKeeps_of_rows (hrows : ∀ c ∈ s.rows, ∃ c' ∈ t.rows,
    c'.serial = c.serial ∧ c'.title = c.title) (hbrokers : t.brokers = s.brokers) :
    DbKeeps s t := by
  refine ⟨hrows, ?_, ?_⟩
  · intro b hb
    exact ⟨b, hbrokers ▸ hb, .refl b⟩
  · intro b hb
    exact ⟨b, hbrokers ▸ hb, .refl b⟩

/-- A statement that is to no certificate's row and to no broker's. -/
theorem dbKeeps_elsewhere {α : Type} {m : DbM α} {value : CaDatabase → α}
    {after : CaDatabase → CaDatabase} (hm : ∀ db, m db = .ok (value db) (after db))
    (hrows : ∀ db, (after db).rows = db.rows) (hbrokers : ∀ db, (after db).brokers = db.brokers) :
    Moves DbKeeps m := by
  refine .of_total hm fun db => dbKeeps_of_rows ?_ (hbrokers db)
  intro c hc
  exact ⟨c, (hrows db).symm ▸ hc, rfl, rfl⟩

theorem addCert_dbKeeps (record : CertRecord) : Moves DbKeeps (addCert record) := by
  refine .of_step ?_ ?_
  · intro db a t h
    have hrows := (of_addCert_ok h).2
    have hbrokers : t.brokers = db.brokers := by
      unfold addCert at h
      split at h
      next => cases h
      next =>
        cases h
        rfl
    refine dbKeeps_of_rows ?_ hbrokers
    intro c hc
    exact ⟨c, hrows ▸ List.mem_append_left _ hc, rfl, rfl⟩
  · intro db e t h
    unfold addCert at h
    split at h
    next =>
      cases h
      exact Std.Refl.refl db
    next => cases h

theorem ignoreCert_dbKeeps (serial user at_ : String) (reason : IgnoreReason)
    (note : Option String) : Moves DbKeeps (ignoreCert serial reason user note at_) := by
  refine .of_step ?_ ?_
  · intro db a t h
    have hrows := of_ignoreCert_ok h
    have hbrokers : t.brokers = db.brokers := by
      unfold ignoreCert updateCerts at h
      split at h
      · cases h
        rfl
      · cases h
    refine dbKeeps_of_rows ?_ hbrokers
    intro c hc
    refine ⟨ignored serial user reason note at_ c, hrows ▸ List.mem_map_of_mem hc, ?_⟩
    unfold ignored
    split <;> exact ⟨rfl, rfl⟩
  · intro db e t h
    unfold ignoreCert updateCerts at h
    split at h
    · cases h
    · cases h
      exact Std.Refl.refl db

/-- An update of brokers that leaves each on its certificate. -/
theorem updateBrokers_dbKeeps {p : Broker → Bool} {f : Broker → Broker}
    {hf : ∀ b, (f b).id = b.id} (hsame : ∀ b : Broker, b.Same (f b)) :
    Moves DbKeeps (updateBrokers p f hf) := by
  refine .of_step ?_ ?_
  · intro db a t h
    cases h
    have heither : ∀ b : Broker, b.Same (if p b then f b else b) := by
      intro b
      split
      · exact hsame b
      · exact .refl b
    refine ⟨fun c hc => ⟨c, hc, rfl, rfl⟩, ?_, ?_⟩
    · intro b hb
      exact ⟨_, mem_updateWhere.mpr ⟨b, hb, rfl⟩, heither b⟩
    · intro b' hb'
      obtain ⟨b, hb, rfl⟩ := mem_updateWhere.mp hb'
      exact ⟨b, hb, heither b⟩
  · intro db e t h
    cases h

theorem reported_dbKeeps (id : Int) (issuerState : Option String) (at_ : String) :
    Moves DbKeeps (reported id issuerState at_) := by
  refine Moves.bind (updateBrokers_dbKeeps fun b => ⟨rfl, rfl, rfl, rfl, rfl, nofun⟩) fun _ => ?_
  exact updateBrokers_dbKeeps fun b => ⟨rfl, rfl, rfl, rfl, rfl, fun h => h⟩

theorem recordBrokerCerts_dbKeeps (certs : List BrokerCert) :
    Moves DbKeeps (recordBrokerCerts certs) :=
  dbKeeps_elsewhere (fun _ => rfl) (fun _ => rfl) fun _ => rfl

theorem give_dbKeeps (given : Given) : Moves DbKeeps (give given) :=
  dbKeeps_elsewhere (fun _ => rfl) (fun _ => rfl) fun _ => rfl

theorem issue_dbKeeps (signed : Except OpcaError Unit) : Moves DbKeeps (issue signed) := by
  have htake : Moves DbKeeps (incrementSerial .cert none) :=
    dbKeeps_elsewhere (fun _ => rfl) (fun _ => rfl) fun _ => rfl
  refine htake.bind fun serial => (give_dbKeeps _).bind fun _ => ?_
  exact Moves.outcome.bind fun _ => .pure

theorem of_brokerOf_ok {id : Int} {b : Broker} (h : brokerOf id db = .ok b t) :
    db = t ∧ b ∈ db.brokers ∧ b.id = id := by
  cases hget : db.tables.brokers.get? id with
  | some broker =>
    rw [brokerOf_eq hget] at h
    cases h
    exact ⟨rfl, Table.get?_eq_some.mp hget⟩
  | none =>
    have hquery : queryBroker id db = .ok none db := by
      rw [← hget]
      rfl
    have hnone : brokerOf id db = .error (.certificateNotFound s!"subordinate {id}") db :=
      bind_of_ok hquery
    rw [hnone] at h
    cases h

theorem brokerOf_dbKeeps (id : Int) : Moves DbKeeps (brokerOf id) :=
  .of_reads (brokerOf_reads id)

theorem queryCert_dbKeeps (lookup : CertLookup) (validOnly : Bool) :
    Moves DbKeeps (queryCert lookup validOnly) :=
  dbKeeps_elsewhere (fun _ => rfl) (fun _ => rfl) fun _ => rfl

theorem require_dbKeeps (p : Prop) [Decidable p] (error : OpcaError) :
    Moves DbKeeps (require p error) := Moves.outcome

theorem activeBroker_dbKeeps (id : Int) : Moves DbKeeps (activeBroker id) :=
  .of_reads (activeBroker_reads id)

theorem renewalDomains_dbKeeps (broker : Broker)
    (requested : Option (Except OpcaError (List String))) (changeDomains : Bool) :
    Moves DbKeeps (renewalDomains broker requested changeDomains) :=
  .of_reads (renewalDomains_reads broker requested changeDomains)

/-! ## What a part of an enrolment or a renewal keeps -/

/-- The database moves as a statement does, no item is lost and nothing is sent; what is
stored meanwhile is a database on the way. -/
structure Keeps (s t : Brokerage) : Prop where
  db : DbKeeps s.db t.db
  items : ∀ item ∈ s.items.rows, item ∈ t.items.rows
  stored : t.stored = s.stored ∨
    ∃ u : CaDatabase, DbKeeps s.db u ∧ DbKeeps u t.db ∧ t.stored = u.tables
  log : t.log = s.log

theorem keeps_of_db {s : Brokerage} {db : CaDatabase} (h : DbKeeps s.db db) :
    Keeps s { s with db } :=
  ⟨h, fun _ h => h, .inl rfl, rfl⟩

instance : Std.Refl Keeps where
  refl s := keeps_of_db (Std.Refl.refl s.db)

instance : IsTrans Brokerage Keeps where
  trans s t u hst htu := by
    refine ⟨IsTrans.trans _ _ _ hst.db htu.db,
      fun item hitem => htu.items item (hst.items item hitem), ?_, htu.log.trans hst.log⟩
    rcases htu.stored with hsame | ⟨db, htdb, hdbu, hdb⟩
    · rw [hsame]
      rcases hst.stored with hsame | ⟨db, hsdb, hdbt, hdb⟩
      · exact .inl hsame
      · exact .inr ⟨db, hsdb, IsTrans.trans _ _ _ hdbt htu.db, hdb⟩
    · exact .inr ⟨db, IsTrans.trans _ _ _ hst.db htdb, hdbu, hdb⟩

/-- Besides, nothing is signed. -/
def Quiet (s t : Brokerage) : Prop := Keeps s t ∧ KeepsConfig s.db t.db

instance : Std.Refl Quiet := ⟨fun s => ⟨Std.Refl.refl s, Std.Refl.refl s.db⟩⟩

instance : IsTrans Brokerage Quiet :=
  ⟨fun _ _ _ hst htu => ⟨IsTrans.trans _ _ _ hst.1 htu.1, IsTrans.trans _ _ _ hst.2 htu.2⟩⟩

theorem keeps_of_quiet {α : Type} {m : BrokerageM α} (h : Moves Quiet m) : Moves Keeps m :=
  h.weaken fun _ _ hquiet => hquiet.1

section Parts

variable {α : Type} {csrs : CsrReader} {signing : SubordinateSigning} {domains : List String}

theorem onVaulted_keeps {m : DbM α} (h : Moves DbKeeps m) :
    Moves Keeps (onVaulted m : BrokerageM α) :=
  Part.moves_lift h fun _ _ hdb => keeps_of_db hdb

theorem onVaulted_quiet {m : DbM α} (h : Moves DbKeeps m) (hconfig : Moves KeepsConfig m) :
    Moves Quiet (onVaulted m : BrokerageM α) :=
  (onVaulted_keeps h).and (Part.moves_lift hconfig fun _ _ hdb => hdb)

theorem storeCaDatabase_quiet (stored : Except OpcaError Unit) :
    Moves Quiet (storeCaDatabase stored : BrokerageM Unit) := by
  refine Moves.outcome.bind fun _ => .modify fun s => ⟨⟨?_, ?_, ?_, rfl⟩, ?_⟩
  · exact Std.Refl.refl s.db
  · exact fun _ h => h
  · exact .inr ⟨s.db, Std.Refl.refl s.db, Std.Refl.refl s.db, rfl⟩
  · exact Std.Refl.refl s.db

theorem retrieveCertbundle_quiet (title : String) (read : Except OpcaError Unit) :
    Moves Quiet (retrieveCertbundle title read : BrokerageM _) := by
  refine Moves.get.bind fun s => ?_
  cases read <;> exact .pure

theorem demand_quiet (p : Prop) [Decidable p] (error : OpcaError) :
    Moves Quiet (Brokerage.demand p error) :=
  onVaulted_quiet (require_dbKeeps p error) require_moves

theorem brokerOf_quiet (id : Int) : Moves Quiet (onVaulted (brokerOf id) : BrokerageM _) :=
  onVaulted_quiet (brokerOf_dbKeeps id) (brokerOf_moves id)

/-- What the broker answered is recorded. -/
theorem reported_quiet (id : Int) (issuerState : Option String) (at_ : String) :
    Moves Quiet (onVaulted (reported id issuerState at_) : BrokerageM Unit) :=
  onVaulted_quiet (reported_dbKeeps _ _ _) (reported_moves _ _ _)

theorem recordBrokerCerts_quiet (certs : List BrokerCert) :
    Moves Quiet (onVaulted (recordBrokerCerts certs) : BrokerageM Unit) :=
  onVaulted_quiet (recordBrokerCerts_dbKeeps _) (recordBrokerCerts_moves _)

theorem subordinatePem_quiet (broker : Broker) (read : Except OpcaError Unit) :
    Moves Quiet (Brokerage.subordinatePem broker read) := by
  refine (onVaulted_quiet (queryCert_dbKeeps _ _) (queryCert_moves _ _)).bind fun _ => ?_
  refine Moves.outcome.bind fun title => ?_
  exact (retrieveCertbundle_quiet _ _).bind fun _ => Moves.outcome

theorem undelivered_quiet (a : Brokerage.Attempt) :
    Moves Quiet (Brokerage.undelivered csrs a domains) := by
  refine Moves.get.bind fun s => ?_
  split
  · exact .pure
  · next broker hfound =>
    have hpending : Moves Quiet (Brokerage.pendingOf csrs broker a domains) := by
      refine (demand_quiet _ _).bind fun _ => (subordinatePem_quiet _ _).bind fun _ => ?_
      exact Moves.outcome.bind fun _ => (demand_quiet _ _).bind fun _ => .pure
    exact hpending.map _

theorem createItem_keeps (title : String) (fields : Fields) (created : Except OpcaError Unit) :
    Moves Keeps (createItem title fields created : BrokerageM Unit) := by
  refine Moves.outcome.bind fun _ => .modify fun s => ?_
  exact ⟨Std.Refl.refl s.db, fun _ h => Items.mem_create h, .inl rfl, rfl⟩

theorem storeBundle_keeps {record : CertRecord} {title : String} {fields : Fields}
    {stored : Except OpcaError Unit} :
    Moves Keeps (storeBundle true record title fields stored (addCert record) :
      BrokerageM Unit) := by
  refine (createItem_keeps _ _ _).bind fun _ => ?_
  refine (onVaulted_keeps (give_dbKeeps _)).bind fun _ => ?_
  exact onVaulted_keeps (addCert_dbKeeps record)

theorem issueSubordinate_keeps (csr : String) :
    Moves Keeps (Brokerage.issueSubordinate times csrs csr domains signing now) := by
  refine Moves.outcome.bind fun request => ?_
  refine (onVaulted_keeps (issue_dbKeeps _)).bind fun serial => ?_
  refine storeBundle_keeps.bind fun _ => ?_
  exact (onVaulted_keeps (give_dbKeeps _)).bind fun _ => .pure

end Parts

/-! ## The certificate of a row -/

/-- A certificate is in the item that its row's title names, alone or not. -/
def Vaulted.Holds {η : Type} (s : Vaulted η) (cert : Certificate) : Prop :=
  ∃ c ∈ s.db.rows, c.serial = cert.serial ∧ ∃ title, c.title = some title ∧
    ∃ item ∈ s.items.rows, item.title = title ∧ item.content.certificate = some cert

/-- The certificate that a serial's row gives. -/
def Vaulted.certificateOf {η : Type} (s : Vaulted η) (serial : String) : Option Certificate :=
  (s.db.found (.serial serial) false).bind fun c =>
    c.title.bind fun title => (s.items.find title).bind (·.content.certificate)

section Certificates

variable {s t : Brokerage} {cert : Certificate} {csrs : CsrReader}
  {signing : SubordinateSigning} {domains : List String}

theorem Vaulted.Holds.moves (h : s.Holds cert) (hdb : DbKeeps s.db t.db)
    (hitems : ∀ item ∈ s.items.rows, item ∈ t.items.rows) : t.Holds cert := by
  obtain ⟨c, hc, hserial, title, htitle, item, hitem, hin, hcert⟩ := h
  obtain ⟨c', hc', hserial', htitle'⟩ := hdb.rows c hc
  exact ⟨c', hc', hserial'.trans hserial, title, htitle'.trans htitle, item,
    hitems item hitem, hin, hcert⟩

theorem Vaulted.Holds.keeps (h : s.Holds cert) (hkeeps : Keeps s t) : t.Holds cert :=
  h.moves hkeeps.db hkeeps.items

/-- What a row gives is the certificate that is held for it. -/
theorem certificateOf_holds {found : Certificate} (h : s.Holds cert)
    (hfound : s.certificateOf cert.serial = some found) : found = cert := by
  obtain ⟨c, hc, hserial, title, htitle, item, hitem, hin, hcert⟩ := h
  have hrow : s.db.found (.serial cert.serial) false = some c := hserial ▸ found_of_mem hc
  unfold Vaulted.certificateOf at hfound
  rw [hrow, Option.bind_some, htitle, Option.bind_some] at hfound
  obtain ⟨only, honly, hcontent⟩ := Option.bind_eq_some_iff.mp hfound
  rw [Items.eq_of_find honly hitem hin, hcontent] at hcert
  exact Option.some.inj hcert

/-- What is read of a row's certificate. -/
theorem of_subordinatePem_ok {broker : Broker} {read : Except OpcaError Unit}
    (h : Brokerage.subordinatePem broker read s = .ok cert t) :
    s = t ∧ s.certificateOf broker.subordinateSerial = some cert := by
  obtain ⟨found, u, hquery, h⟩ := of_bind_ok h
  have hfound : found = s.db.found (.serial broker.subordinateSerial) false ∧ s = u := by
    cases hquery
    exact ⟨rfl, rfl⟩
  obtain ⟨hfound, rfl⟩ := hfound
  obtain ⟨title, v, hanswer, h⟩ := of_bind_ok h
  obtain ⟨hnamed, rfl⟩ := of_outcome_ok hanswer
  obtain ⟨c, hc, htitle⟩ := Option.bind_eq_some_iff.mp (elim_eq_ok hnamed)
  obtain ⟨bundle, w, hretrieve, h⟩ := of_bind_ok h
  obtain ⟨hhad, rfl⟩ := of_outcome_ok h
  have hbundle := elim_eq_ok hhad
  cases read with
  | error e =>
    cases hretrieve
    cases hbundle
  | ok _ =>
    cases hretrieve
    refine ⟨rfl, ?_⟩
    unfold Vaulted.certificateOf
    rw [← hfound, hc, Option.bind_some, htitle, Option.bind_some]
    exact hbundle

/-- What `storeBundle` adds is found under its title. -/
theorem of_storeBundle_ok {record : CertRecord} {title : String} {fields : Fields}
    {stored : Except OpcaError Unit} {u : Unit}
    (h : storeBundle true record title fields stored (addCert record) s = .ok u t) :
    record ∈ t.db.rows ∧ ∃ item ∈ t.items.rows, item.title = title ∧ item.content = fields := by
  obtain ⟨_, s₁, hcreate, h⟩ := of_bind_ok h
  obtain ⟨_, s₂, hstored, hmake⟩ := of_bind_ok hcreate
  cases hmake
  obtain ⟨_, s₃, hgive, h⟩ := of_bind_ok h
  cases hgive
  obtain ⟨db, hadd, rfl⟩ := Part.of_lift_ok h
  refine ⟨?_, Items.exists_create⟩
  show record ∈ db.rows
  rw [(of_addCert_ok hadd).2]
  exact List.mem_append_right _ (List.mem_singleton_self record)

/-- A subordinate that was issued is held, and limited to the domains. -/
theorem of_issueSubordinate_ok {csr : String} {issued : Int × Certificate}
    (h : Brokerage.issueSubordinate times csrs csr domains signing now s = .ok issued t) :
    t.Holds issued.2 ∧ issued.2.constraints = some (nameConstraints domains) := by
  obtain ⟨request, s₁, hrequest, h⟩ := of_bind_ok h
  obtain ⟨serial, s₂, hissue, h⟩ := of_bind_ok h
  obtain ⟨_, s₃, hstore, h⟩ := of_bind_ok h
  obtain ⟨hrow, item, hitem, htitle, hcontent⟩ := of_storeBundle_ok hstore
  obtain ⟨_, s₄, hgive, h⟩ := of_bind_ok h
  cases hgive
  cases h
  refine ⟨⟨_, hrow, rfl, _, rfl, item, hitem, htitle, ?_⟩, rfl⟩
  rw [hcontent]

/-! ## The row of a broker -/

/-- The row of a subordinate that was just signed, for a broker if one was given. -/
def newBroker (times : OpensslTimes) (id : Int) (serial : String) (domains : List String)
    (endpoint : Option Endpoint) (now : Time) : Broker :=
  ⟨id, serial, endpoint.map Endpoint.url, endpoint.map Endpoint.pin, domains, .active, none,
    times.format now, times.format now, none⟩

theorem updateWhere_append_new {rows : List Broker} {b : Broker} {f : Broker → Broker}
    {id : Int} (hid : b.id = id) (h : ∀ old ∈ rows, old.id ≠ id) :
    updateWhere (·.id = id) f (rows ++ [b]) = rows ++ [f b] := by
  have hold : updateWhere (·.id = id) f rows = rows := by
    refine (List.map_congr_left fun old hmem => ?_).trans (List.map_id rows)
    rw [if_neg (by simpa using h old hmem)]
    rfl
  have hnew : updateWhere (·.id = id) f [b] = [f b] := by simp [updateWhere, hid]
  unfold updateWhere at *
  rw [List.map_append, hold, hnew]

/-- The row that is added, beside those that were there. -/
theorem addBrokerAt_ok {db : CaDatabase} {serial : String} {endpoint : Option Endpoint} :
    ∃ u, Brokerage.addBrokerAt times serial domains endpoint now db =
        .ok (nextKey Broker.id db.brokers) u ∧
      u.rows = db.rows ∧ u.given = db.given ∧
      u.brokers = db.brokers ++
        [newBroker times (nextKey Broker.id db.brokers) serial domains endpoint now] := by
  have hnew : ∀ old ∈ db.brokers, old.id ≠ nextKey Broker.id db.brokers := by
    intro old hmem
    have hlt : old.id < nextKey Broker.id db.brokers := lt_nextKey hmem
    omega
  cases endpoint with
  | none => exact ⟨_, rfl, rfl, rfl, rfl⟩
  | some endpoint => exact ⟨_, rfl, rfl, rfl, updateWhere_append_new rfl hnew⟩

end Certificates

end Opca.Core

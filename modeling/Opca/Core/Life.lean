/-
  Core/Life.lean --- a CA from its founding on: one database, the operations on it one
  after the other, and the time passing (`services/ca.rs`, `init`, `import_ca`).
-/
import Opca.Core.Effects
import Opca.Foundation.Machine

set_option autoImplicit false

namespace Opca.Core

open Opca.Foundation Acme

/-! ## Founding -/

def defaultSchemaVersion : Int := 21

/-- The row of `config` of a new database. -/
def insertConfig (config : CaConfig) : CaConfig where
  nextSerial := config.nextSerial
  nextCrlSerial := config.nextCrlSerial
  text column := some ((config.text column).getD "")
  number
    | .schemaVersion => some defaultSchemaVersion
    | column => config.number column
  crlBatchEnabled := config.crlBatchEnabled

/-- A new database. -/
def newTables (config : CaConfig) : Tables :=
  ⟨insertConfig config, .empty, [], none, none, .empty, .empty, fun _ _ => none⟩

def caTitle : String := "CA"

/-- The CA's own certificate, its item and its row. -/
def storeCa (times : OpensslTimes) (now : Time) (cert : CertAttribs) (serial : String)
    (stored : Except OpcaError Unit) : DbM Unit :=
  let record := formatDbItem times now (cert.ofType "ca") serial caTitle
  storeCertbundle true record stored (addCert record)

/-- How a CA comes to be. -/
inductive Founding where
  /-- It signs a certificate for itself, which takes the first serial. -/
  | init (config : CaConfig) (cert : CertAttribs) (signed stored : Except OpcaError Unit)
  | importCa (config : CaConfig) (cert : Imported) (read stored : Except OpcaError Unit)

namespace Founding

def config : Founding → CaConfig
  | .init config _ _ _ | .importCa config _ _ _ => config

def run (times : OpensslTimes) (now : Time) : Founding → DbM Unit
  | .init _ cert signed stored => do
    outcome signed
    let serial ← incrementSerial .cert none
    give (.serial serial)
    storeCa times now cert (toString serial) stored
  | .importCa _ cert read stored => do
    outcome read
    storeCa times now cert.attribs cert.serial stored

/-- The database that is there then, if nothing fails. -/
def found (founding : Founding) (times : OpensslTimes) (now : Time) : Option CaDatabase :=
  match founding.run times now (.fromTables (newTables founding.config) []) with
  | .ok _ db => some db
  | .error _ _ => none

end Founding

/-! ## The machine -/

/-- The database, if there is one, and the time. -/
structure Life where
  ca : Option CaDatabase
  clock : Time

inductive Event where
  | found (founding : Founding) (now : Time)
  | operate (op : Operation) (now : Time)
  /-- The process ends, and another loads what it stored. -/
  | reopen

/-- The database after an operation, whether it failed or not. -/
def Operation.after (times : OpensslTimes) (op : Operation) (db : CaDatabase) : CaDatabase :=
  match op.run times db with
  | .ok _ t => t
  | .error _ t => t

/-- The database as it is loaded again. -/
def CaDatabase.reload (db : CaDatabase) : CaDatabase := .fromTables db.tables db.given

def life (times : OpensslTimes) : Machine Life Event where
  init s := s.ca = none
  next s
    | .found founding now =>
      if s.ca.isNone ∧ s.clock ≤ now then some ⟨founding.found times now, now⟩ else none
    | .operate op now => s.ca.bind fun db =>
      if s.clock ≤ now ∧ op.At now then some ⟨some (op.after times db), now⟩ else none
    | .reopen => s.ca.map fun db => ⟨some db.reload, s.clock⟩

/-- The certificates that operations revoke are ones that `may` be at the time. -/
def Only (may : Time → CertRecord → Prop) (s : Life) : Event → Prop
  | .operate op now => ∀ db ∈ s.ca, ∀ c ∈ op.revokes db, may now c
  | _ => True

/-! ## What effects keep -/

variable {times : OpensslTimes} {may : Time → CertRecord → Prop} {now : Time}
  {db : CaDatabase} {op : Operation} {Inv : Time → CaDatabase → Prop}

/-- `Inv` is about a database at a time, and nothing takes it back. -/
structure Kept (times : OpensslTimes) (may : Time → CertRecord → Prop)
    (Inv : Time → CaDatabase → Prop) : Prop where
  later : ∀ {now now' : Time} {db : CaDatabase}, now ≤ now' → Inv now db → Inv now' db
  effect : ∀ {now : Time} {s t : CaDatabase}, Effect times now (may now) s t →
    Inv now s → Inv now t
  reload : ∀ {now : Time} {db : CaDatabase}, Inv now db → Inv now db.reload

theorem Kept.effects (h : Kept times may Inv) {s t : CaDatabase}
    (hst : Effects times now (may now) s t) (hs : Inv now s) : Inv now t := by
  induction hst with
  | refl => exact hs
  | tail _ hstep ih => exact h.effect hstep ih

theorem Kept.and {Inv' : Time → CaDatabase → Prop} (h : Kept times may Inv)
    (h' : Kept times may Inv') : Kept times may fun now db => Inv now db ∧ Inv' now db :=
  ⟨fun hle hs => ⟨h.later hle hs.1, h'.later hle hs.2⟩,
    fun hst hs => ⟨h.effect hst hs.1, h'.effect hst hs.2⟩,
    fun hs => ⟨h.reload hs.1, h'.reload hs.2⟩⟩

theorem Operation.after_effects {may : CertRecord → Prop} (hat : op.At now)
    (hmay : ∀ c ∈ op.revokes db, may c) : Effects times now may db (op.after times db) := by
  have hrun : Ensures (· = db) (op.run times) (fun _ => Effects times now may db)
      (Effects times now may db) :=
    op.run_effects hat hmay
  unfold Operation.after
  cases hop : op.run times db with
  | ok result t => exact hrun.ok rfl hop
  | error e t => exact hrun.error rfl hop

/-- What the CA's own certificate goes through. -/
theorem Founding.run_effects (founding : Founding) {may : CertRecord → Prop} :
    Moves (Effects times now may) (founding.run times now) := by
  have hstore : ∀ {cert : CertAttribs} {serial : String} {stored : Except OpcaError Unit},
      Moves (Still times now may) (storeCa times now cert serial stored) :=
    fun db => storeCertbundle_still.imp (fun _ hs => hs) (fun _ _ hs => hs.1) fun _ hs => hs
  refine effects_of_still ?_
  cases founding with
  | init config cert signed stored =>
    refine Moves.outcome.bind fun _ => ?_
    refine (incrementSerial_still .cert none).bind fun serial => ?_
    exact (give_still (by simp) (by simp)).bind fun _ => hstore
  | importCa config cert read stored =>
    exact Moves.outcome.bind fun _ => hstore

/-- A CA that is there is operated on, or loaded again. -/
theorem next_of_ca {s t : Life} {l : Event} (hstep : (life times).next s l = some t)
    (hdb : s.ca = some db) :
    (∃ op now, l = .operate op now ∧ s.clock ≤ now ∧ op.At now ∧
      t = ⟨some (op.after times db), now⟩) ∨
    (l = .reopen ∧ t = ⟨some db.reload, s.clock⟩) := by
  cases l with
  | found founding now =>
    unfold life at hstep
    dsimp only at hstep
    rw [hdb, if_neg (by simp)] at hstep
    cases hstep
  | operate op now =>
    obtain ⟨db', hdb', hnext⟩ := Option.bind_eq_some_iff.mp hstep
    rw [hdb] at hdb'
    cases hdb'
    split at hnext
    next hat =>
      cases hnext
      exact Or.inl ⟨op, now, rfl, hat.1, hat.2, rfl⟩
    next => cases hnext
  | reopen =>
    obtain ⟨db', hdb', rfl⟩ := Option.map_eq_some_iff.mp hstep
    rw [hdb] at hdb'
    cases hdb'
    exact Or.inr ⟨rfl, rfl⟩

/-- Over one step. -/
theorem Kept.step (h : Kept times may Inv) {s t : Life} {l : Event} (hok : Only may s l)
    (hstep : (life times).next s l = some t) (hdb : s.ca = some db) (hinv : Inv s.clock db) :
    s.clock ≤ t.clock ∧ ∃ db', t.ca = some db' ∧ Inv t.clock db' := by
  rcases next_of_ca hstep hdb with ⟨op, now, rfl, hle, hat, rfl⟩ | ⟨rfl, rfl⟩
  · refine ⟨hle, _, rfl, ?_⟩
    exact h.effects (op.after_effects hat (hok db hdb)) (h.later hle hinv)
  · exact ⟨le_refl _, _, rfl, h.reload hinv⟩

/-- Over a run. -/
theorem Kept.reaches (h : Kept times may Inv) {s t : Life}
    (hst : ((life times).system.restrict (Only may)).Reaches s t) (hdb : s.ca = some db)
    (hinv : Inv s.clock db) :
    s.clock ≤ t.clock ∧ ∃ db', t.ca = some db' ∧ Inv t.clock db' := by
  induction hst with
  | refl => exact ⟨le_refl _, db, hdb, hinv⟩
  | step _ hstep ih =>
    obtain ⟨hle, db', hdb', hinv'⟩ := ih
    obtain ⟨hle', hnext⟩ := h.step hstep.1 hstep.2 hdb' hinv'
    exact ⟨hle.trans hle', hnext⟩

/-- A database comes of a founding. -/
theorem found_of_step {s t : Life} {l : Event} (hstep : (life times).next s l = some t)
    (hs : s.ca = none) (ht : t.ca = some db) :
    ∃ founding now, (l = .found founding now ∧ t.clock = now) ∧
      founding.found times now = some db := by
  unfold life at hstep
  dsimp only at hstep
  rw [hs] at hstep
  cases l with
  | found founding now =>
    dsimp only at hstep
    split at hstep
    · cases hstep
      exact ⟨founding, now, ⟨rfl, rfl⟩, ht⟩
    · cases hstep
  | operate op now => cases hstep
  | reopen => cases hstep

/-- What holds of a new database holds of one with the CA's own certificate. -/
theorem Kept.found (h : Kept times may Inv)
    (hnew : ∀ now config, Inv now (.fromTables (newTables config) [])) {founding : Founding}
    (hfound : founding.found times now = some db) : Inv now db := by
  unfold Founding.found at hfound
  split at hfound
  next hrun =>
    cases hfound
    have hmoves : Moves (Effects times now (may now)) (founding.run times now) :=
      founding.run_effects
    exact h.effects ((hmoves _).ok .refl hrun) (hnew now founding.config)
  next => cases hfound

/-- From the founding on. -/
theorem Kept.reachable (h : Kept times may Inv)
    (hfound : ∀ {now : Time} {founding : Founding} {db : CaDatabase},
      founding.found times now = some db → Inv now db) {s : Life}
    (hs : ((life times).system.restrict (Only may)).Reachable s) (hdb : s.ca = some db) :
    Inv s.clock db := by
  refine System.Invariant.reachable (P := fun s => ∀ db ∈ s.ca, Inv s.clock db) ?_ hs db hdb
  constructor
  · intro s hinit db hdb
    rw [show s.ca = none from hinit] at hdb
    cases hdb
  · rintro s t l hs ⟨hok, hstep⟩ db hdb
    cases hca : s.ca with
    | some before =>
      obtain ⟨_, db', hdb', hinv⟩ := h.step hok hstep hca (hs before hca)
      rw [show t.ca = some db from hdb] at hdb'
      cases hdb'
      exact hinv
    | none =>
      obtain ⟨founding, now, hclock, hdb'⟩ := found_of_step hstep hca hdb
      rw [hclock.2]
      exact hfound hdb'

end Opca.Core

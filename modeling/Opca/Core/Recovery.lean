/-
  Core/Recovery.lean --- what a CA goes on from: the database document in the vault, loaded
  again after the process has ended at any point, and a document rebuilt from the items in
  the vault (`services/ca.rs`, `retrieve`, `store_ca_database`, `rebuild_database`).

  The counters are only in the document, and an operation stores it last.
-/
import Opca.Core.Serials
import Mathlib.Data.List.Sort

set_option autoImplicit false

namespace Opca.Core

open Opca.Foundation Acme

/-! ## Storing -/

/-- The batch that is uploaded once the database is stored. -/
def Operation.upload (config : CaConfig) (issued : Issued) (uploaded : Except OpcaError Unit) :
    Operation → DbM Unit
  | .generateCrl _ _ =>
    match crlBatchUri config.read with
    | .ok batchUri => uploadBatch batchUri issued.crlNumbers uploaded
    | .error _ => return
  | _ => return

/-- An operation with what it stores: the database in memory after it, and the document if
it came to be stored. -/
def Operation.finish (times : OpensslTimes) (op : Operation)
    (stored uploaded : Except OpcaError Unit) (db : CaDatabase) : CaDatabase × Option Tables :=
  match op.run times db, stored with
  | .ok (some issued) after, .ok _ =>
    match op.upload db.tables.config issued uploaded after with
    | .ok _ t | .error _ t => (t, some after.tables)
  | .ok _ after, _ | .error _ after, _ => (after, none)

/-! ## Rebuilding -/

/-- A certificate's item in the vault. -/
structure Item where
  serial : String
  title : String
  attribs : CertAttribs

/-- What a rebuild reads of an item: the certificate alone. -/
def Item.bare (item : Item) : CertAttribs :=
  { item.attribs with hasPrivateKey := false, hasChain := false }

/-- Refuses an item whose serial was seen before. -/
def checkSerials (seen : List String) : List Item → Except OpcaError Unit
  | [] => .ok ()
  | item :: items =>
    if item.serial ∈ seen then
      .error (.duplicateCertificate s!"Duplicate serial {item.serial}")
    else checkSerials (item.serial :: seen) items

/-- The largest serial that reads as an `i64`, or 0. -/
def maxSerial (items : List Item) : Int :=
  (items.filterMap fun item => parseI64 item.serial).foldl max 0

/-- The counter jumps past the items' serials. -/
def advancePast (serial : Int) : DbM Unit := do
  let db ← get
  if serial < db.tables.config.nextSerial.getD 0 then return
  else updateConfig { nextSerial := some (wrapI64 (serial + 1)) }

/-- Rebuild the CA database from the vault's items; `bundle` is what the CA's own
certificate says of the configuration, `read` what reading the items answers. -/
def rebuildDatabase (times : OpensslTimes) (now : Time) (bundle : ConfigText → Option String)
    (read : Except OpcaError (List Item)) : DbM Unit := do
  updateConfig { text := bundle }
  let items ← outcome read
  outcome (checkSerials [] items)
  (items.insertionSort fun a b => a.serial ≤ b.serial).forM fun item =>
    addCert (formatDbItem times now item.bare item.serial item.title)
  advancePast (maxSerial items)

/-- The database that is there then, if nothing fails. -/
def rebuilt (times : OpensslTimes) (now : Time) (config : CaConfig)
    (bundle : ConfigText → Option String) (read : Except OpcaError (List Item))
    (given : List Given) : Option CaDatabase :=
  match rebuildDatabase times now bundle read (.fromTables (newTables config) given) with
  | .ok _ db => some db
  | .error _ _ => none

/-! ## The machine -/

/-- A call of `generate_crl`. -/
structure CrlCall where
  /-- The number that its first CRL takes. -/
  firstNumber : Int
  given : List Given

/-- The database in memory and the document in the vault, and the calls so far. -/
structure Recovery where
  ca : Option CaDatabase
  document : Option Tables
  calls : List CrlCall

inductive RecoveryStep where
  | found (founding : Founding) (stored : Except OpcaError Unit) (now : Time)
  | operate (op : Operation) (stored uploaded : Except OpcaError Unit)
  /-- The process ends, and the next one loads what is stored. -/
  | reload
  /-- The document is gone, and is rebuilt. -/
  | rebuild (config : CaConfig) (bundle : ConfigText → Option String)
      (read : Except OpcaError (List Item)) (stored : Except OpcaError Unit) (now : Time)

namespace Recovery

/-- The calls after an operation. -/
def callsAfter (s : Recovery) (op : Operation) (db after : CaDatabase) : List CrlCall :=
  match op with
  | .generateCrl _ _ =>
    s.calls ++ [⟨db.tables.config.counter .crl, after.given.drop db.given.length⟩]
  | _ => s.calls

end Recovery

def recovery (times : OpensslTimes) : Machine Recovery RecoveryStep where
  init s := s = ⟨none, none, []⟩
  next s
    | .found founding stored now =>
      match s.ca, s.document, founding.found times now, stored with
      | none, none, some db, .ok _ => some ⟨some db, some db.tables, []⟩
      | _, _, _, _ => none
    | .operate op stored uploaded => s.ca.map fun db =>
      let (after, document) := op.finish times stored uploaded db
      ⟨some after, document.or s.document, s.callsAfter op db after⟩
    | .reload => do
      let db ← s.ca
      let document ← s.document
      return ⟨some (.fromTables document db.given), some document, s.calls⟩
    | .rebuild config bundle read stored now => do
      let db ← s.ca
      match rebuilt times now config bundle read db.given, stored with
      | some after, .ok _ => return ⟨some after, some after.tables, s.calls⟩
      | _, _ => none

/-! ## Steps -/

variable {times : OpensslTimes} {own : Prop} {now : Time} {db : CaDatabase} {op : Operation}
  {stored uploaded : Except OpcaError Unit} {s t : Recovery}

theorem recovery_found {founding : Founding}
    (h : (recovery times).system.step s (.found founding stored now) t) :
    ∃ db, founding.found times now = some db ∧ t = ⟨some db, some db.tables, []⟩ := by
  simp only [recovery, Machine.system] at h
  split at h
  next db _ _ _ hfound =>
    cases h
    exact ⟨db, hfound, rfl⟩
  next => cases h

theorem recovery_operate (h : (recovery times).system.step s (.operate op stored uploaded) t) :
    ∃ db, s.ca = some db ∧ t.ca = some (op.finish times stored uploaded db).1 ∧
      t.calls = s.callsAfter op db (op.finish times stored uploaded db).1 := by
  obtain ⟨db, hdb, rfl⟩ := Option.map_eq_some_iff.mp h
  exact ⟨db, hdb, rfl, rfl⟩

theorem recovery_reload (h : (recovery times).system.step s .reload t) :
    ∃ db document, s.ca = some db ∧ s.document = some document ∧
      t = ⟨some (.fromTables document db.given), some document, s.calls⟩ := by
  obtain ⟨db, hdb, h⟩ := Option.bind_eq_some_iff.mp h
  obtain ⟨document, hdocument, h⟩ := Option.bind_eq_some_iff.mp h
  cases h
  exact ⟨db, document, hdb, hdocument, rfl⟩

theorem recovery_rebuild {config : CaConfig} {bundle : ConfigText → Option String}
    {read : Except OpcaError (List Item)}
    (h : (recovery times).system.step s (.rebuild config bundle read stored now) t) :
    ∃ db after, s.ca = some db ∧ rebuilt times now config bundle read db.given = some after ∧
      t = ⟨some after, some after.tables, s.calls⟩ := by
  obtain ⟨db, hdb, h⟩ := Option.bind_eq_some_iff.mp h
  split at h
  next after _ hafter _ =>
    cases h
    exact ⟨db, after, hdb, hafter, rfl⟩
  next => cases h

/-! ## Operations with what they store -/

/-- An upload puts out only numbers that the operation gave. -/
theorem upload_ensures {config : CaConfig} {issued : Issued} :
    Ensures (fun s => Grows own db s ∧ GaveOut db s issued) (op.upload config issued uploaded)
      (fun _ => Grows own db) (Grows own db) := by
  have hnothing : Ensures (fun s => Grows own db s ∧ GaveOut db s issued)
      (Pure.pure () : DbM Unit) (fun _ => Grows own db) (Grows own db) :=
    .pure fun s hs => hs.1
  cases op with
  | generateCrl now publishing =>
    unfold Operation.upload
    dsimp only
    split
    next batchUri huri =>
      cases batchUri with
      | none => exact hnothing
      | some uri =>
        refine Ensures.bind (.outcome (fun _ _ _ hs => hs) fun _ hs => hs.1) fun _ => ?_
        refine .modify fun s hs => hs.1.trans (.of_given ?_ ?_)
        · intro g hg
          obtain ⟨n, hn, rfl⟩ := List.mem_map.mp hg
          exact ((hs.2 .crl).2 n hn).2
        · exact List.pairwise_map.mpr (List.pairwise_of_forall fun _ _ => trivial)
    next => exact hnothing
  | _ => exact hnothing

theorem finish_grows (hok : op.RaisesCounters db) (hbelow : own → op.ImportsBelow db) :
    Grows own db (op.finish times stored uploaded db).1 := by
  have hrun := op.run_ensures times hok hbelow
  unfold Operation.finish
  cases hop : op.run times db with
  | error e after => exact hrun.error (Std.Refl.refl db) hop
  | ok result after =>
    obtain ⟨hgrows, hgave⟩ := hrun.ok (Std.Refl.refl db) hop
    cases result with
    | none => exact hgrows
    | some issued =>
      cases stored with
      | error e => exact hgrows
      | ok u =>
        have hupload : Ensures (fun s => Grows own db s ∧ GaveOut db s issued)
            (op.upload db.tables.config issued uploaded) (fun _ => Grows own db)
            (Grows own db) :=
          upload_ensures
        dsimp only
        split
        next hup => exact hupload.ok ⟨hgrows, hgave issued rfl⟩ hup
        next hup => exact hupload.error ⟨hgrows, hgave issued rfl⟩ hup

/-! ## Loading the document again -/

/-- The counters of a document are past the items that are in the vault and the CRLs that
are out. -/
structure Tables.Covers (document : Tables) (given : List Given) : Prop where
  item : ∀ text, .item text ∈ given → ∀ n, parseI64 text = some n →
    n < document.config.counter .cert
  crl : ∀ n, .crl n ∈ given → n < document.config.counter .crl

/-- Nothing is rebuilt. -/
def Loaded (_ : Recovery) : RecoveryStep → Prop
  | .rebuild _ _ _ _ _ => False
  | _ => True

def loadedCheck (_ : Recovery) : RecoveryStep → Bool
  | .rebuild _ _ _ _ _ => false
  | _ => true

theorem loaded_of_check (s : Recovery) (step : RecoveryStep) (h : loadedCheck s step = true) :
    Loaded s step := by
  cases step with
  | rebuild config bundle read stored now => cases h
  | _ => trivial

/-- And the document covers what is out whenever the process ends. -/
def LoadedCovering (s : Recovery) : RecoveryStep → Prop
  | .found founding _ _ => founding.Below
  | .operate op _ _ => ∀ db ∈ s.ca, op.RaisesCounters db ∧ op.ImportsBelow db
  | .reload => ∀ db ∈ s.ca, ∀ document ∈ s.document, document.Covers db.given
  | .rebuild _ _ _ _ _ => False

/-- What is given is not the number of what is out. -/
def Given.NotAgain : Given → Given → Prop
  | .item text, .serial n => parseI64 text ≠ some n
  | .crl m, .crlNumber n => m ≠ n
  | _, _ => True

/-- No number of a stored certificate or of a CRL that is out is given again. -/
def NoneAgain (s : Recovery) : Prop := ∀ db ∈ s.ca, db.given.Pairwise Given.NotAgain

theorem Given.Before.notAgain {g g' : Given} (h : g.Before True g') : g.NotAgain g' := by
  cases g with
  | item text =>
    cases g' with
    | serial n => exact h trivial
    | _ => trivial
  | crl m =>
    cases g' with
    | crlNumber n => exact ne_of_lt h
    | _ => trivial
  | _ => cases g' <;> trivial

/-- What is given next is not the number of what the database covers. -/
theorem Tables.Covers.notAgain {s t : CaDatabase} (h : s.tables.Covers s.given) {g g' : Given}
    (hg : g ∈ s.given) (hg' : g'.Within own s t) : g.NotAgain g' := by
  cases g with
  | item text =>
    cases g' with
    | serial n =>
      intro htext
      exact absurd (h.item text hg n htext) (not_lt.mpr hg'.1)
    | _ => trivial
  | crl m =>
    cases g' with
    | crlNumber n => exact ne_of_lt (lt_of_lt_of_le (h.crl m hg) hg'.1)
    | _ => trivial
  | _ => cases g' <;> trivial

/-- A database that a CA can go on from. -/
structure Resumable (db : CaDatabase) : Prop where
  again : db.given.Pairwise Given.NotAgain
  covers : db.tables.Covers db.given

theorem InOrder.resumable (h : InOrder True db) : Resumable db :=
  ⟨h.before.imp Given.Before.notAgain, fun _ hitem => h.below _ hitem trivial,
    fun _ hcrl => h.below _ hcrl⟩

theorem Resumable.grows {s t : CaDatabase} (hs : Resumable s) (h : Grows True s t) :
    Resumable t := by
  obtain ⟨more, hgiven, hwithin, hbefore⟩ := h.given
  refine ⟨?_, ?_, ?_⟩
  · rw [hgiven]
    refine List.pairwise_append.mpr ⟨hs.again, hbefore.imp Given.Before.notAgain, ?_⟩
    exact fun g hg g' hg' => hs.covers.notAgain hg (hwithin g' hg')
  · intro text htext n hn
    rw [hgiven] at htext
    rcases List.mem_append.mp htext with htext | htext
    · exact lt_of_lt_of_le (hs.covers.item text htext n hn) (h.counter .cert)
    · exact hwithin _ htext trivial n hn
  · intro n hn
    rw [hgiven] at hn
    rcases List.mem_append.mp hn with hn | hn
    · exact lt_of_lt_of_le (hs.covers.crl n hn) (h.counter .crl)
    · exact hwithin _ hn

theorem resumable_reachable {s : Recovery}
    (hs : ((recovery times).system.restrict LoadedCovering).Reachable s) :
    ∀ db ∈ s.ca, Resumable db := by
  refine System.Invariant.reachable (P := fun s => ∀ db ∈ s.ca, Resumable db) ?_ hs
  constructor
  · rintro _ rfl db hdb
    cases hdb
  · rintro s t step hs ⟨hok, hstep⟩ db hdb
    cases step with
    | found founding stored now =>
      obtain ⟨db', hfound, rfl⟩ := recovery_found hstep
      cases hdb
      exact (found_inOrder hok hfound).resumable
    | operate op stored uploaded =>
      obtain ⟨before, hbefore, hafter, _⟩ := recovery_operate hstep
      rw [show t.ca = some db from hdb] at hafter
      cases hafter
      obtain ⟨hraises, hbelow⟩ := hok before hbefore
      exact (hs before hbefore).grows (finish_grows hraises fun _ => hbelow)
    | reload =>
      obtain ⟨before, document, hbefore, hdocument, rfl⟩ := recovery_reload hstep
      cases hdb
      exact ⟨(hs before hbefore).again, hok before hbefore document hdocument⟩
    | rebuild config bundle read stored now => exact hok.elim

/-- **Serials and CRL numbers survive a crash**, in every run in which the stored document
covers what is out whenever the process ends. -/
theorem noneAgain_of_covering (times : OpensslTimes) {s : Recovery}
    (hs : ((recovery times).system.restrict LoadedCovering).Reachable s) : NoneAgain s :=
  fun db hdb => (resumable_reachable hs db hdb).again

/-- An upload leaves the tables alone. -/
theorem upload_tables {config : CaConfig} {issued : Issued} {tables : Tables} :
    Ensures (fun s : CaDatabase => s.tables = tables) (op.upload config issued uploaded)
      (fun _ s => s.tables = tables) (fun s => s.tables = tables) := by
  have hnothing : Ensures (fun s : CaDatabase => s.tables = tables) (Pure.pure () : DbM Unit)
      (fun _ s => s.tables = tables) (fun s => s.tables = tables) :=
    .pure fun _ hs => hs
  cases op with
  | generateCrl now publishing =>
    unfold Operation.upload
    dsimp only
    split
    next batchUri huri =>
      cases batchUri with
      | none => exact hnothing
      | some uri =>
        refine Ensures.bind (.outcome (fun _ _ _ hs => hs) fun _ hs => hs) fun _ => ?_
        exact .modify fun _ hs => hs
    next => exact hnothing
  | _ => exact hnothing

/-- The document that an operation stores is of the tables it leaves in memory. -/
theorem finish_document {document : Tables}
    (h : (op.finish times stored uploaded db).2 = some document) :
    (op.finish times stored uploaded db).1.tables = document := by
  unfold Operation.finish at h ⊢
  cases hop : op.run times db with
  | error e after =>
    rw [hop] at h
    cases h
  | ok result after =>
    rw [hop] at h
    cases result with
    | none => cases h
    | some issued =>
      cases stored with
      | error e => cases h
      | ok u =>
        dsimp only at h ⊢
        split at h
        next hup =>
          cases h
          exact upload_tables.ok rfl hup
        next hup =>
          cases h
          exact upload_tables.error rfl hup

/-- An operation that gets as far as storing the document makes it cover what is out. -/
theorem covers_of_stored {document : Tables}
    (hs : ((recovery times).system.restrict LoadedCovering).Reachable s)
    (hok : LoadedCovering s (.operate op stored uploaded)) (hdb : s.ca = some db)
    (hstored : (op.finish times stored uploaded db).2 = some document)
    (hstep : (recovery times).system.step s (.operate op stored uploaded) t) :
    t.document = some document ∧ ∀ db ∈ t.ca, document.Covers db.given := by
  have hca := resumable_reachable (.step hs ⟨hok, hstep⟩)
  obtain ⟨before, hbefore, heq⟩ := Option.map_eq_some_iff.mp hstep
  obtain rfl : before = db := Option.some.inj (hbefore.symm.trans hdb)
  subst heq
  have hdocument : (op.finish times stored uploaded before).2.or s.document = some document := by
    rw [hstored]
    rfl
  refine ⟨hdocument, ?_⟩
  intro after hafter
  have hcovers := (hca after hafter).covers
  obtain rfl : (op.finish times stored uploaded before).1 = after := Option.some.inj hafter
  rwa [finish_document hstored] at hcovers

/-- A certificate is issued, with what storing the database answers. -/
def issueStoring (stored : Except OpcaError Unit) : RecoveryStep :=
  .operate (generateAt sampleStart) stored (.ok ())

/-- A check for `LoadedCovering`, of runs that found a CA, issue and reload. -/
def coveringCheck (s : Recovery) : RecoveryStep → Bool
  | .found (.init config _ _ _) _ _ => config.counter .cert < i64Max
  | .operate (.generate _ _ _ _) _ _ =>
    s.ca.all fun db => db.tables.config.counter .cert < i64Max
  | .reload => s.ca.all fun db => s.document.all fun document =>
    db.given.all fun
      | .item text => (parseI64 text).all (· < document.config.counter .cert)
      | .crl n => n < document.config.counter .crl
      | _ => true
  | _ => false

theorem covering_of_check (s : Recovery) (step : RecoveryStep)
    (h : coveringCheck s step = true) : LoadedCovering s step := by
  cases step with
  | found founding stored now =>
    cases founding with
    | init config cert signed stored =>
      have hroom : config.counter .cert < i64Max := of_decide_eq_true h
      exact hroom
    | importCa config cert read stored => cases h
  | operate op stored uploaded =>
    intro db hdb
    cases op with
    | generate itemTitle cert signing at_ =>
      have hroom : db.tables.config.counter .cert < i64Max :=
        of_decide_eq_true ((Option.all_eq_true _ _).mp h db hdb)
      exact ⟨hroom, trivial⟩
    | _ => cases h
  | reload =>
    intro db hdb document hdocument
    have hall := List.all_eq_true.mp
      ((Option.all_eq_true _ _).mp ((Option.all_eq_true _ _).mp h db hdb) document hdocument)
    refine ⟨fun text htext n hn => ?_, fun n hn => of_decide_eq_true (hall _ hn)⟩
    exact of_decide_eq_true ((Option.all_eq_true _ _).mp (hall _ htext) n hn)
  | rebuild config bundle read stored now => cases h

/-- A serial whose certificate was not stored in the document is not lost with the process
if a later one was. -/
theorem noneAgain_stored : ∃ s : Recovery, s.ca.map CaDatabase.given =
    some [.serial 1, .item "1", .serial 2, .item "2", .serial 3, .item "3", .serial 4,
      .item "4"] ∧ NoneAgain s := by
  obtain ⟨s, hs, hview⟩ := Machine.exists_reachable_of_exec_guard covering_of_check
    (show (recovery sampleTimes).init ⟨none, none, []⟩ from rfl)
    [.found sampleFounding (.ok ()) sampleStart, issueStoring (.error (.other "timed out")),
      issueStoring (.ok ()), .reload, issueStoring (.ok ())]
    (fun s => s.ca.map CaDatabase.given =
      some [.serial 1, .item "1", .serial 2, .item "2", .serial 3, .item "3", .serial 4,
        .item "4"])
    (by decide)
  exact ⟨s, of_decide_eq_true hview, noneAgain_of_covering sampleTimes hs⟩

/-- The item of a certificate is stored and the database is not, and the CA that is loaded
again gives the next certificate the same serial. -/
theorem serial_again : ¬ ∀ s, ((recovery sampleTimes).system.restrict Loaded).Reachable s →
    NoneAgain s := by
  intro hclaim
  obtain ⟨s, hs, hview⟩ := Machine.exists_reachable_of_exec_guard loaded_of_check
    (show (recovery sampleTimes).init ⟨none, none, []⟩ from rfl)
    [.found sampleFounding (.ok ()) sampleStart, issueStoring (.error (.other "timed out")),
      .reload, issueStoring (.ok ())]
    (fun s => s.ca.map CaDatabase.given =
      some [.serial 1, .item "1", .serial 2, .item "2", .serial 2, .item "2"])
    (by decide)
  obtain ⟨db, hdb, hgiven⟩ := Option.map_eq_some_iff.mp (of_decide_eq_true hview)
  have hagain := hclaim s hs db hdb
  rw [hgiven] at hagain
  have htwice : [Given.item "2", .serial 2].Pairwise Given.NotAgain :=
    hagain.sublist (by decide)
  exact List.rel_of_pairwise_cons htwice List.mem_cons_self (by decide)

end Opca.Core

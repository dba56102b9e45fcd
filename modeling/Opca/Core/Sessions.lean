/-
  Core/Sessions.lean --- operators' sessions on one vault: the desktop's, which keep a
  loaded CA in memory, and the CLI's runs (`services/ca.rs`, `state.rs`,
  `commands/lock.rs`, `commands/mod.rs`).

  Concurrent modification is left to the vault lock, so a session stores its whole copy
  without looking at what it replaces.  Nothing is lost as long as no session stores a
  copy that another has stored over since.
-/
import Opca.Core.Counters
import Opca.Foundation.Document
import Mathlib.Data.List.Flatten
import Mathlib.Data.List.Nodup

set_option autoImplicit false

namespace Opca.Core

open Opca.Foundation Acme

/-- The database document, and what operations make of a copy of it. -/
def editor (times : OpensslTimes) : Editor Tables CaDatabase Operation Issued where
  load tables := CaDatabase.fromTables tables []
  dump := CaDatabase.tables
  dump_load _ := rfl
  run op db :=
    match op.run times db with
    | .ok result after => (after, result)
    | .error _ after => (after, none)

/-- The vault's sessions. -/
abbrev OperatorSessions := Sessions Tables CaDatabase Operation Issued

def operators (times : OpensslTimes) (first : Tables) :
    Machine OperatorSessions (SessionStep Operation) :=
  sessions (editor times) Operation.locked first

/-- No session stores a copy that another has stored over, and no operation takes a
counter back. -/
def Latest (s : OperatorSessions) (l : SessionStep Operation) : Prop :=
  Current (fun op db => op.RaisesCounters db) s l

/-- The serials or CRL numbers that the operations of a log gave out. -/
def givenOut (kind : SerialType) (log : List (Entry Operation Issued)) : List Int :=
  log.flatMap fun
    | .loaded => []
    | .ran _ result => result.elim [] (·.numbers kind)

/-- What no session takes back from the document. -/
structure Tables.Grows (before after : Tables) : Prop where
  keeps : before.Keeps after
  counter : ∀ kind, before.config.counter kind ≤ after.config.counter kind

theorem Tables.Grows.refl (t : Tables) : t.Grows t := ⟨.refl t, fun _ => le_refl _⟩

theorem Tables.Grows.trans {a b c : Tables} (hab : a.Grows b) (hbc : b.Grows c) : a.Grows c :=
  ⟨hab.keeps.trans hbc.keeps, fun kind => (hab.counter kind).trans (hbc.counter kind)⟩

theorem Grows.tables {own : Prop} {db after : CaDatabase} (h : Core.Grows own db after) :
    db.tables.Grows after.tables :=
  ⟨h.keeps, h.counter⟩

/-- Nothing that was committed is lost. -/
structure DatabaseKept (times : OpensslTimes) (first : Tables)
    (S : System OperatorSessions (SessionStep Operation)) (s : OperatorSessions) : Prop where
  /-- The document is what operations made of the first, one after the other, -/
  made : ∃ db, (editor times).History (fun _ _ => True) first s.log db ∧
    db.tables = s.document
  /-- each completed one among them, in order. -/
  completed : s.completed.Sublist s.log
  numbers : ∀ kind, (givenOut kind s.completed).Nodup
  later : ∀ t, S.Reaches s t → s.document.Grows t.document

/-! ## One operation after the other -/

variable {times : OpensslTimes} {first : Tables} {op : Operation} {db : CaDatabase}
  {log : List (Entry Operation Issued)} {kind : SerialType}

theorem givenOut_append_singleton (entry : Entry Operation Issued) :
    givenOut kind (log ++ [entry]) = givenOut kind log ++ givenOut kind [entry] :=
  List.flatMap_append

@[simp] theorem givenOut_loaded : givenOut kind [.loaded] = [] := rfl

theorem givenOut_ran (op : Operation) (result : Option Issued) :
    givenOut kind [.ran op result] = result.elim [] (·.numbers kind) :=
  List.append_nil _

theorem editor_run_ok {result : Option Issued} {after : CaDatabase}
    (h : op.run times db = .ok result after) :
    (editor times).run op db = (after, result) := by
  simp only [editor, h]

theorem editor_run_error {e : OpcaError} {after : CaDatabase}
    (h : op.run times db = .error e after) : (editor times).run op db = (after, none) := by
  simp only [editor, h]

/-- An operation in a session, whether it fails or not. -/
theorem editor_run (times : OpensslTimes) (hok : op.RaisesCounters db) :
    Grows False db ((editor times).run op db).1 ∧
      ∀ issued ∈ ((editor times).run op db).2, GaveOut db ((editor times).run op db).1 issued := by
  have hensures := Operation.run_ensures times hok False.elim
  have hrefl : KeepsConfig db db := Std.Refl.refl db
  cases hrun : op.run times db with
  | ok result after =>
    rw [editor_run_ok hrun]
    exact hensures.ok hrefl hrun
  | error e after =>
    rw [editor_run_error hrun]
    refine ⟨hensures.error hrefl hrun, ?_⟩
    rintro _ ⟨⟩

/-- The numbers given out so far differ, and the counter is past them. -/
theorem givenOut_of_history
    (h : (editor times).History (fun op db => op.RaisesCounters db) first log db)
    (kind : SerialType) :
    (givenOut kind log).Nodup ∧
      ∀ n ∈ givenOut kind log, n < db.tables.config.counter kind := by
  induction h with
  | start => exact ⟨List.nodup_nil, fun n hn => absurd hn List.not_mem_nil⟩
  | loaded _ ih =>
    rw [givenOut_append_singleton, givenOut_loaded, List.append_nil]
    exact ih
  | @ran log before op hok _ ih =>
    obtain ⟨hnodup, hbelow⟩ := ih
    obtain ⟨hgrows, hgave⟩ := editor_run times hok
    have hcounter := hgrows.counter kind
    rw [givenOut_append_singleton, givenOut_ran]
    cases hresult : ((editor times).run op before).2 with
    | none =>
      rw [Option.elim_none, List.append_nil]
      exact ⟨hnodup, fun n hn => lt_of_lt_of_le (hbelow n hn) hcounter⟩
    | some issued =>
      obtain ⟨hnew, hrange⟩ := hgave issued hresult kind
      rw [Option.elim_some]
      refine ⟨List.nodup_append.mpr ⟨hnodup, hnew, ?_⟩, ?_⟩
      · intro n hn m hm hnm
        have hold := hbelow n hn
        have hlower := (hrange m hm).1
        omega
      · intro n hn
        rcases List.mem_append.mp hn with hold | hissued
        · exact lt_of_lt_of_le (hbelow n hold) hcounter
        · exact (hrange n hissued).2

/-! ## Any number of sessions -/

/-- **No committed change is lost**, in every run in which no session stores a copy that
another has stored over and no operation takes a counter back. -/
theorem databaseKept_of_latest (times : OpensslTimes) (first : Tables) {s : OperatorSessions}
    (hs : ((operators times first).system.restrict Latest).Reachable s) :
    DatabaseKept times first ((operators times first).system.restrict Latest) s := by
  have hinv := sessionsInv_reachable hs
  obtain ⟨db, hmade, hdump⟩ := hinv.made
  refine ⟨⟨db, hmade.imp fun _ _ _ => trivial, hdump⟩, hinv.completed, ?_, ?_⟩
  · intro kind
    exact (givenOut_of_history hmade kind).1.sublist (hinv.completed.flatMap _)
  · intro t hst
    obtain ⟨a, b, ha, hb, hgrows⟩ := document_keeps (R := fun a b => a.tables.Grows b.tables)
      (fun _ => .refl _) .trans (fun _ => .refl _)
      (fun _ _ hok => (editor_run times hok).1.tables) hs hst
    rw [← ha, ← hb]
    exact hgrows

/-- What `chrono` does with the times that the records below hold. -/
def plainTimes : OpensslTimes where
  parse text :=
    if text = "20300101000000Z" then some (1893456000 * second)
    else if text = "20260101000000Z" then some (1767225600 * second)
    else none
  format time := if time = 1893456000 * second then "20300101000000Z" else "20260101000000Z"

/-- A database before its first certificate. -/
def emptyTables : Tables := ⟨{}, .empty, [], none, none, .empty, .empty, fun _ _ => none⟩

/-- A server's certificate. -/
def plainCert (cn : String) : CertAttribs where
  cn := some cn
  subject := "CN=" ++ cn
  issuer := none
  certType := "webserver"
  notBefore := none
  notAfter := ⟨1893456000 * second, by decide⟩
  publicKey := cn
  keyType := none
  keySize := none
  san := none
  hasPrivateKey := true
  hasChain := false

/-- Issuing, with everything outside as it should be. -/
def generateFor (cn : String) : Operation :=
  .generate cn (plainCert cn) ⟨.ok (), .ok (), .ok ()⟩ (1767225600 * second)

/-- A check for `Latest`, of runs that only issue. -/
def latestCheck (s : OperatorSessions) : SessionStep Operation → Bool
  | .store who => (s.session who).all fun x => !x.overtaken
  | .run who (.generate _ _ _ _) =>
    (s.session who).all fun x => x.content.tables.config.counter .cert < i64Max
  | .run _ _ => false
  | _ => true

theorem latest_of_check (s : OperatorSessions) (l : SessionStep Operation)
    (h : latestCheck s l = true) : Latest s l := by
  cases l with
  | store who =>
    intro x hx
    unfold latestCheck at h
    dsimp only at h
    rw [hx] at h
    simpa using h
  | run who op =>
    intro x hx
    cases op with
    | generate itemTitle cert signing now =>
      unfold latestCheck at h
      dsimp only at h
      rw [hx] at h
      have hroom : x.content.tables.config.counter .cert < i64Max := of_decide_eq_true h
      exact hroom
    | _ => cases h
  | _ => trivial

/-- Two sessions issue, the second having loaded what the first stored. -/
theorem databaseKept_inTurn :
    ∃ s : OperatorSessions, givenOut .cert s.completed = [1, 2] ∧
      s.document.certificates.rows.map CertRecord.cn = [some "a", some "b"] ∧
      DatabaseKept plainTimes emptyTables
        ((operators plainTimes emptyTables).system.restrict Latest) s := by
  obtain ⟨s, hs, hview⟩ := Machine.exists_reachable_of_exec_guard latest_of_check
    (show (operators plainTimes emptyTables).init
      ⟨emptyTables, [], fun _ => none, none, []⟩ from ⟨rfl, rfl, fun _ => rfl, rfl, rfl⟩)
    [.load 0, .lock 0, .run 0 (generateFor "a"), .store 0, .unlock 0,
      .load 1, .lock 1, .run 1 (generateFor "b"), .store 1, .unlock 1]
    (fun s => givenOut .cert s.completed = [1, 2] ∧
      s.document.certificates.rows.map CertRecord.cn = [some "a", some "b"])
    (by decide)
  obtain ⟨hserials, hrows⟩ := of_decide_eq_true hview
  exact ⟨s, hserials, hrows, databaseKept_of_latest plainTimes emptyTables hs⟩

/-- Two sessions that have loaded the same document issue under the lock, one after the
other: both give out serial 1, and the second stores over the first's row. -/
theorem row_lost :
    ¬ ∀ s, (operators plainTimes emptyTables).system.Reachable s →
      DatabaseKept plainTimes emptyTables (operators plainTimes emptyTables).system s := by
  intro hclaim
  obtain ⟨s, hs, hview⟩ := Machine.exists_reachable_of_exec
    (show (operators plainTimes emptyTables).init
      ⟨emptyTables, [], fun _ => none, none, []⟩ from ⟨rfl, rfl, fun _ => rfl, rfl, rfl⟩)
    [.load 0, .load 1, .lock 0, .run 0 (generateFor "a"), .store 0, .unlock 0,
      .lock 1, .run 1 (generateFor "b"), .store 1, .unlock 1]
    (fun s => givenOut .cert s.completed = [1, 1] ∧
      s.document.certificates.rows.map CertRecord.cn = [some "b"])
    (by decide)
  obtain ⟨hserials, -⟩ := of_decide_eq_true hview
  have hnodup := (hclaim s hs).numbers .cert
  rw [hserials] at hnodup
  exact absurd hnodup (by decide)

end Opca.Core

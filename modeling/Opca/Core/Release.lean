/-
  Core/Release.lean --- the CRL batch as the desktop shows it, and the Lambda that releases
  it (`services/database/models.rs`, `commands/crl.rs`, `notification/aws_lambda.py`).

  The desktop counts the batch's times from its row, the Lambda compares those of the CRLs
  in the private store.  The Lambda reads the clock when its module is imported, which an
  execution environment does once for all the runs that it serves.
-/
import Opca.Core.Listed
import Mathlib.Data.List.MinMax

set_option autoImplicit false

namespace Opca.Core

open Opca.Foundation Acme

/-! ## The desktop -/

/-- How far a CRL batch covers at a given moment. -/
structure CrlBatchStatus where
  dueNumber : Int
  signedUntil : Time
  remaining : Int
  count : Int
  deriving DecidableEq, Repr

namespace CrlBatch

/-- How many of its CRLs are due. -/
def released (batch : CrlBatch) (now : Time) : Nat :=
  ((List.range batch.count).filter fun i => batch.thisUpdate i ≤ now).length

def status (batch : CrlBatch) (now : Time) : CrlBatchStatus where
  dueNumber := batch.number (batch.released now - 1)
  signedUntil := batch.nextUpdate (batch.count - 1)
  remaining := batch.count - batch.released now
  count := batch.count

end CrlBatch

def crlBatchLowCover : Int := 2

structure CrlBatchDto where
  firstNumber : Int
  lastNumber : Int
  dueNumber : Int
  signedUntil : String
  remaining : Int
  count : Int
  lowCover : Bool
  deriving DecidableEq, Repr

/-- The Lambda ignores a batch while batches are off, so a leftover record covers nothing. -/
def crlBatchDto (times : OpensslTimes) (db : CaDatabase) (enabled : Bool) (now : Time) :
    Option CrlBatchDto :=
  if enabled then db.tables.crlBatch.map fun batch =>
    let status := batch.status now
    { firstNumber := batch.firstNumber
      lastNumber := wrapI64 (batch.firstNumber + batch.count - 1)
      dueNumber := status.dueNumber
      signedUntil := times.format status.signedUntil
      remaining := status.remaining
      count := status.count
      lowCover := status.remaining < crlBatchLowCover }
  else none

/-! ## The Lambda -/

/-- A CRL as the Lambda reads it. -/
structure ReadCrl where
  number : Option Int
  thisUpdate : Time
  nextUpdate : Time
  /-- Whether the key of the CA certificate verifies it. -/
  signed : Bool
  deriving DecidableEq, Repr

def concatMsg (msg : String) : String := msg ++ "\n"

/-- As Python prints it. -/
def numberText : Option Int → String
  | some n => toString n
  | none => "None"

/-- The days, hours and minutes of a `timedelta`. -/
def splitDuration (delta : Time) : String :=
  let totalSeconds := delta.tdiv second
  let sign := if totalSeconds < 0 then "-" else ""
  let wholeDays := totalSeconds.natAbs / 86400
  let hours := totalSeconds.natAbs % 86400 / 3600
  let minutes := totalSeconds.natAbs % 86400 % 3600 / 60
  s!"{sign}{wholeDays} days, {hours} hours, {minutes} minutes"

/-- The CRLs of a batch whose time has come. -/
def dueCrls (now : Time) (batch : List ReadCrl) : List ReadCrl :=
  batch.filter fun crl => crl.thisUpdate ≤ now

section

/-- Integers in their order, as it is computed. -/
local instance : Preorder Time := Int.instLinearOrder.toPreorder

def latestDue (now : Time) (batch : List ReadCrl) : Option ReadCrl :=
  (dueCrls now batch).argmax ReadCrl.thisUpdate

end

/-- How many CRLs of a batch are not due yet. -/
def unreleased (now : Time) (batch : List ReadCrl) : Nat :=
  batch.length - (dueCrls now batch).length

/-- When the cover of a batch ends. -/
def coverEnd (batch : List ReadCrl) : Option Time := (batch.map ReadCrl.nextUpdate).max?

/-- The number of the published CRL; one that has none is below all. -/
def ReadCrl.published (crl : ReadCrl) : Int := crl.number.getD (-1)

/-- What the Lambda makes of a batch: what to publish, its message and whether it warns. -/
structure Release where
  release : Option ReadCrl
  message : String
  warning : Bool

/-- The latest due CRL if it is newer than the published one. -/
def newerDue (now : Time) (batch : List ReadCrl) (published : ReadCrl) : Option ReadCrl :=
  (latestDue now batch).filter fun latest => latest.number.any (published.published < ·)

def releaseLine (now : Time) (batch : List ReadCrl) (published : ReadCrl) : String :=
  match latestDue now batch, newerDue now batch published with
  | none, _ => "  ✅ No batch CRL is due yet"
  | some _, some latest => s!"  ✅ Releasing CRL #{numberText latest.number}"
  | some _, none => s!"  ✅ Published CRL #{published.published} is current"

def coverLine (now : Time) (batch : List ReadCrl) : String :=
  let unreleased := unreleased now batch
  let cover := splitDuration ((coverEnd batch).getD now - now)
  if unreleased < 2 then
    s!"  ⚠️ *Only {unreleased} unreleased CRLs left, cover ends in [{cover}]. " ++
      "Re-sign the batch in opCA.*"
  else s!"  ✅ {unreleased} unreleased CRLs, cover ends in [{cover}]"

/-- Any unsigned or unnumbered CRL refuses the whole batch. -/
def badCrls (batch : List ReadCrl) : List ReadCrl :=
  batch.filter fun crl => crl.number.isNone || !crl.signed

def releaseDueCrl (now : Time) (batch : Except String (List ReadCrl)) (published : ReadCrl) :
    Release :=
  let msg := concatMsg "\n*CRL Batch*"
  match batch with
  | .error e => ⟨none, msg ++ concatMsg s!"  ❌ *CRL batch refused: {e}*", true⟩
  | .ok [] => ⟨none, msg ++ concatMsg "  ❌ *CRL batch refused: it holds no CRLs*", true⟩
  | .ok batch =>
    if badCrls batch ≠ [] then
      let bad := ", ".intercalate ((badCrls batch).map fun crl => numberText crl.number)
      ⟨none, msg ++ concatMsg (s!"  ❌ *CRL batch refused: CRL {bad} " ++
        "not signed by the CA certificate or unnumbered*"), true⟩
    else
      ⟨newerDue now batch published,
        msg ++ concatMsg (releaseLine now batch published) ++ concatMsg (coverLine now batch),
        unreleased now batch < 2⟩

/-- What a run of the Lambda leaves: the public CRL, its message of the batch and whether that
warns. -/
structure LambdaRun where
  published : ReadCrl
  message : String
  warning : Bool

def pendingCrlKey : String := "pending-crl/crl-batch.pem"

/-- What `lambda_handler` does about batches; `now` is the module's, and `put` what writing the
public CRL answers. -/
def lambdaHandler (now : Time) (crlBatchEnabled : Bool)
    (pending : Option (Except String (List ReadCrl))) (published : ReadCrl)
    (put : Except String Unit) : LambdaRun :=
  match crlBatchEnabled, pending with
  | false, _ => ⟨published, "", false⟩
  | true, none => ⟨published, concatMsg "\n*CRL Batch*" ++ concatMsg
      s!"  ❌ *CRL batches are on but [{pendingCrlKey}] is missing or unreadable*", true⟩
  | true, some batch =>
    let batch := releaseDueCrl now batch published
    match batch.release, put with
    | some release, .ok _ => ⟨release, batch.message, batch.warning⟩
    | some _, .error e => ⟨published, batch.message ++ concatMsg
        s!"  ❌ *Publishing the released CRL failed: {e}*", true⟩
    | none, _ => ⟨published, batch.message, batch.warning⟩

/-! ## The machine -/

/-- A CRL that the CA signed reads back as it was signed. -/
def SignedCrl.readBack (crl : SignedCrl) : ReadCrl :=
  ⟨some crl.number, crl.thisUpdate, crl.nextUpdate, true⟩

structure Releasing where
  db : CaDatabase
  /-- The batch in the private store. -/
  pending : Option (List SignedCrl)
  /-- The public CRL. -/
  published : ReadCrl
  /-- When the Lambda last ran. -/
  clock : Time

inductive ReleaseStep where
  /-- A batch is signed, stored and uploaded. -/
  | generate (now : Time) (publishing : Publishing)
  /-- Whatever else happens to the database. -/
  | edit (other : CaDatabase)
  /-- The Lambda runs, in an execution environment that was started some time before. -/
  | run (started now : Time) (put : Except String Unit)

/-- Another database, but for what batches are made from. -/
def CaDatabase.editTo (db other : CaDatabase) : CaDatabase :=
  { other with
    tables := { other.tables with
      config := { other.tables.config with
        nextCrlSerial := db.tables.config.nextCrlSerial
        text := db.tables.config.text
        crlBatchEnabled := db.tables.config.crlBatchEnabled }
      crlBatch := db.tables.crlBatch } }

namespace Releasing

def batchEnabled (s : Releasing) : Bool := s.db.tables.config.crlBatchEnabled.getD false

/-- The batch in the private store as the Lambda reads it. -/
def readPending (s : Releasing) : Option (List ReadCrl) :=
  s.pending.map fun crls => crls.map SignedCrl.readBack

/-- What the Lambda does in an environment started at a time. -/
def runAt (s : Releasing) (started : Time) (put : Except String Unit) : LambdaRun :=
  lambdaHandler started s.batchEnabled (s.readPending.map .ok) s.published put

end Releasing

def releasing (times : OpensslTimes) : Machine Releasing ReleaseStep where
  init s := s.pending = none ∧ s.db.tables.crlBatch = none ∧
    s.db.tables.config.counter .crl ≤ i64Max ∧
    ∀ n ∈ s.published.number, n < s.db.tables.config.counter .crl
  next s
    | .generate now publishing =>
      match crlBatchUri s.db.tables.config.read, generateCrl times now publishing s.db with
      | .ok (some _), .ok crls db =>
        if s.db.tables.crlBatch.all fun batch => batch.t0 < wholeSeconds now then
          some { s with db, pending := some crls }
        else none
      | _, _ => none
    | .edit other => some { s with db := s.db.editTo other }
    | .run started now put =>
      if s.clock ≤ now ∧ started ≤ now then
        some { s with published := (s.runAt started put).published, clock := now }
      else none

/-! ## Batches -/

/-- A condition that what comes earlier meets too holds of a beginning of a range. -/
theorem filter_range {p : Nat → Bool} (hp : ∀ i j, i ≤ j → p j = true → p i = true) (n : Nat) :
    (List.range n).filter p = List.range ((List.range n).filter p).length := by
  induction n with
  | zero => rfl
  | succ n ih =>
    rw [List.range_succ, List.filter_append]
    by_cases hn : p n = true
    · have hall : (List.range n).filter p = List.range n :=
        List.filter_eq_self.mpr fun i hi => hp i n (List.mem_range.mp hi).le hn
      simp [hall, hn, List.range_succ]
    · have hnone : [n].filter p = [] := by simp [hn]
      rw [hnone, List.append_nil]
      exact ih

/-- A batch that was signed in batch mode. -/
structure CrlBatch.Planned (batch : CrlBatch) : Prop where
  count : batch.count = crlBatchSize
  periodDays : batch.periodDays = crlBatchPeriodDays
  windowDays : batch.windowDays = crlBatchWindowDays
  lower : 0 ≤ batch.firstNumber
  upper : batch.firstNumber + batch.count ≤ i64Max + 1

namespace CrlBatch

/-- A CRL of the batch as the Lambda reads it. -/
def readCrl (batch : CrlBatch) (i : Nat) : ReadCrl :=
  ⟨some (batch.number i), batch.thisUpdate i, batch.nextUpdate i, true⟩

def readCrls (batch : CrlBatch) : List ReadCrl := (List.range batch.count).map batch.readCrl

variable {batch : CrlBatch} {now : Time} {i j : Nat}

theorem Planned.thisUpdate_eq (h : batch.Planned) (i : Nat) :
    batch.thisUpdate i = batch.t0 + i * (7 * day) := by
  rw [thisUpdate, h.periodDays, mul_assoc]
  rfl

theorem Planned.nextUpdate_eq (h : batch.Planned) (i : Nat) :
    batch.nextUpdate i = batch.t0 + i * (7 * day) + 10 * day := by
  rw [nextUpdate, h.thisUpdate_eq, h.windowDays]
  rfl

theorem Planned.thisUpdate_lt (h : batch.Planned) :
    batch.thisUpdate i < batch.thisUpdate j ↔ i < j := by
  rw [h.thisUpdate_eq, h.thisUpdate_eq]
  have hweek : (0 : Int) < 7 * day := by decide
  rw [add_lt_add_iff_left, mul_lt_mul_iff_left₀ hweek, Nat.cast_lt]

theorem Planned.thisUpdate_le (h : batch.Planned) (hij : i ≤ j) :
    batch.thisUpdate i ≤ batch.thisUpdate j := by
  rcases hij.lt_or_eq with hlt | rfl
  · exact (h.thisUpdate_lt.mpr hlt).le
  · exact le_refl _

theorem Planned.number_eq (h : batch.Planned) (hi : i < batch.count) :
    batch.number i = batch.firstNumber + i := by
  have hupper := h.upper
  exact wrapI64_of_le (by omega)

theorem Planned.released_range (h : batch.Planned) (now : Time) :
    (List.range batch.count).filter (fun i => batch.thisUpdate i ≤ now) =
      List.range (batch.released now) :=
  filter_range (fun i j hij hj => by
    simp only [decide_eq_true_eq] at hj ⊢
    exact (h.thisUpdate_le hij).trans hj) batch.count

theorem Planned.lt_released (h : batch.Planned) :
    i < batch.released now ↔ i < batch.count ∧ batch.thisUpdate i ≤ now := by
  rw [← List.mem_range, ← h.released_range now]
  simp

theorem Planned.released_le (h : batch.Planned) : batch.released now ≤ batch.count := by
  by_contra hlt
  exact absurd (h.lt_released.mp (not_le.mp hlt)).1 (lt_irrefl _)

theorem Planned.dueCrls_eq (h : batch.Planned) (now : Time) :
    dueCrls now batch.readCrls = (List.range (batch.released now)).map batch.readCrl := by
  rw [dueCrls, readCrls, List.filter_map, ← h.released_range now]
  rfl

theorem Planned.unreleased_eq (h : batch.Planned) (now : Time) :
    unreleased now batch.readCrls = batch.count - batch.released now := by
  rw [unreleased, h.dueCrls_eq, readCrls, List.length_map, List.length_map, List.length_range,
    List.length_range]

/-- The latest due CRL is the last of those that are due. -/
theorem Planned.latestDue_eq (h : batch.Planned) (hdue : 0 < batch.released now) :
    latestDue now batch.readCrls = some (batch.readCrl (batch.released now - 1)) := by
  have hlast : batch.readCrl (batch.released now - 1) ∈ dueCrls now batch.readCrls := by
    rw [h.dueCrls_eq]
    exact List.mem_map_of_mem (List.mem_range.mpr (by omega))
  unfold latestDue
  cases hmax : (dueCrls now batch.readCrls).argmax ReadCrl.thisUpdate with
  | none =>
    rw [List.argmax_eq_none.mp hmax] at hlast
    cases hlast
  | some latest =>
    have hmem := List.argmax_mem hmax
    rw [h.dueCrls_eq] at hmem
    obtain ⟨j, hj, rfl⟩ := List.mem_map.mp hmem
    have hle : (batch.readCrl (batch.released now - 1)).thisUpdate ≤
        (batch.readCrl j).thisUpdate :=
      List.le_of_mem_argmax hlast hmax
    have hjlast : ¬ j < batch.released now - 1 :=
      fun hlt => absurd (h.thisUpdate_lt.mpr hlt) (not_lt.mpr hle)
    have hjdue := List.mem_range.mp hj
    rw [show j = batch.released now - 1 by omega]

theorem Planned.latestDue_none (h : batch.Planned) (hdue : batch.released now = 0) :
    latestDue now batch.readCrls = none := by
  rw [latestDue, h.dueCrls_eq, hdue]
  rfl

theorem Planned.coverEnd_eq (h : batch.Planned) :
    coverEnd batch.readCrls = some (batch.nextUpdate (batch.count - 1)) := by
  have hcount := h.count
  unfold coverEnd
  refine List.max?_eq_some_iff.mpr ⟨?_, ?_⟩
  · rw [readCrls, List.map_map]
    exact List.mem_map.mpr ⟨batch.count - 1, List.mem_range.mpr (by rw [hcount]; decide), rfl⟩
  · intro t ht
    rw [readCrls, List.map_map] at ht
    obtain ⟨i, hi, rfl⟩ := List.mem_map.mp ht
    have hle := h.thisUpdate_le (Nat.le_sub_one_of_lt (List.mem_range.mp hi))
    exact Int.add_le_add_right hle _

theorem badCrls_readCrls (batch : CrlBatch) : badCrls batch.readCrls = [] := by
  refine List.filter_eq_nil_iff.mpr fun crl hcrl => ?_
  obtain ⟨i, _, rfl⟩ := List.mem_map.mp hcrl
  simp [readCrl]

end CrlBatch

/-! ## Signing a batch -/

variable {times : OpensslTimes} {now : Time} {db : CaDatabase} {batch : CrlBatch}

/-- The batch's row is there, and the counter is past it. -/
structure Batched (db : CaDatabase) (batch : CrlBatch) (s : CaDatabase) : Prop where
  row : s.tables.crlBatch = some batch
  counter : s.tables.config.counter .crl = wrapI64 (batch.firstNumber + batch.count)
  enabled : s.tables.config.crlBatchEnabled = db.tables.config.crlBatchEnabled

/-- A batch whose numbers can all be signed fits below the largest. -/
theorem planned_of_numbers {config : CaConfig} {uri : String} {t0 : Time} {firstNumber : Int}
    (hfirst : firstNumber ≤ i64Max)
    (hnumbers : ∀ n ∈ (plannedBatch config (some uri) t0 firstNumber).numbers, 0 ≤ n) :
    (plannedBatch config (some uri) t0 firstNumber).Planned := by
  have hnumber : ∀ i < crlBatchSize, 0 ≤ wrapI64 (firstNumber + i) := fun i hi =>
    hnumbers _ (List.mem_map_of_mem (List.mem_range.mpr hi))
  have hlower := hnumber 0 (by decide)
  have hlast := hnumber 4 (by decide)
  refine ⟨rfl, rfl, rfl, ?_, ?_⟩
  · show 0 ≤ firstNumber
    rw [wrapI64_of_le (by simpa using hfirst)] at hlower
    simpa using hlower
  · show firstNumber + ((5 : Nat) : Int) ≤ i64Max + 1
    by_contra hover
    have hover' : i64Max < firstNumber + ((4 : Nat) : Int) := by omega
    rw [wrapI64, if_pos hover'] at hlast
    have hmax : i64Max = 9223372036854775807 := rfl
    omega

/-- No negative number is signed. -/
theorem numbers_nonneg_of_buildCrls {entries : List CrlEntry} {signed : Except OpcaError Unit}
    {crls : List SignedCrl} (h : buildCrls batch entries signed = .ok crls) :
    ∀ n ∈ batch.numbers, 0 ≤ n := by
  unfold buildCrls at h
  split at h
  next => cases h
  next hnone =>
    intro n hn
    simpa using List.find?_eq_none.mp hnone n hn

theorem publishCrls_batched {uri : String} {entries : List CrlEntry} {publishing : Publishing} :
    Ensures (fun s => s.tables.config.crlBatchEnabled = db.tables.config.crlBatchEnabled)
      (publishCrls times (some uri) batch entries publishing)
      (fun crls s => ((∀ n ∈ batch.numbers, 0 ≤ n) ∧
        crls.map SignedCrl.readBack = batch.readCrls) ∧ Batched db batch s)
      (fun _ => True) := by
  have hbuild : Ensures
      (fun s => s.tables.config.crlBatchEnabled = db.tables.config.crlBatchEnabled)
      (outcome (buildCrls batch entries publishing.signed) : DbM (List SignedCrl))
      (fun crls s => buildCrls batch entries publishing.signed = .ok crls ∧
        s.tables.config.crlBatchEnabled = db.tables.config.crlBatchEnabled) (fun _ => True) :=
    .outcome (fun _ _ h hs => ⟨h, hs⟩) fun _ _ => trivial
  refine hbuild.bind fun crls => .of_and fun hcrls => ?_
  have hread : crls.map SignedCrl.readBack = batch.readCrls := by
    rw [buildCrls_ok hcrls, List.map_map]
    rfl
  have hrecord : Ensures
      (fun s => s.tables.config.crlBatchEnabled = db.tables.config.crlBatchEnabled)
      (recordBatch (some uri) batch) (fun _ => Batched db batch) (fun _ => True) :=
    fun s hs => ⟨rfl, rfl, hs⟩
  have hgive : ∀ given, Ensures (Batched db batch) (giveAll given) (fun _ => Batched db batch)
      (fun _ => True) :=
    fun given s hs => ⟨hs.row, hs.counter, hs.enabled⟩
  have hmetadata : ∀ metadata, Ensures (Batched db batch) (upsertCrlMetadata metadata)
      (fun _ => Batched db batch) (fun _ => True) :=
    fun metadata s hs => ⟨hs.row, hs.counter, hs.enabled⟩
  have houtcome : ∀ {α : Type} {answer : Except OpcaError α},
      Ensures (Batched db batch) (outcome answer : DbM α) (fun _ => Batched db batch)
        (fun _ => True) :=
    .outcome (fun _ _ _ hs => hs) fun _ _ => trivial
  refine hrecord.bind fun _ => (hgive _).bind fun _ => houtcome.bind fun issuer => ?_
  refine (hmetadata _).bind fun _ => houtcome.bind fun _ => (hgive _).bind fun _ => ?_
  exact .pure fun s hs => ⟨⟨numbers_nonneg_of_buildCrls hcrls, hread⟩, hs⟩

/-- What a call in batch mode that returns leaves. -/
theorem generateCrl_batched {uri : String} {publishing : Publishing} {crls : List SignedCrl}
    {s : CaDatabase} (huri : crlBatchUri db.tables.config.read = .ok (some uri))
    (hfirst : db.tables.config.counter .crl ≤ i64Max)
    (h : generateCrl times now publishing db = .ok crls s) :
    ∃ batch : CrlBatch, batch.Planned ∧ batch.firstNumber = db.tables.config.counter .crl ∧
      crls.map SignedCrl.readBack = batch.readCrls ∧ Batched db batch s := by
  have hbefore : ∀ {α : Type} {m : DbM α}, Moves KeepsConfig m →
      Ensures (KeepsConfig db) m (fun _ => KeepsConfig db) (fun _ => True) :=
    fun h => (h db).failing fun _ _ => trivial
  have hrun : Ensures (KeepsConfig db) (generateCrl times now publishing)
      (fun crls s => ∃ batch : CrlBatch, batch.Planned ∧
        batch.firstNumber = db.tables.config.counter .crl ∧
        crls.map SignedCrl.readBack = batch.readCrls ∧ Batched db batch s)
      (fun _ => True) := by
    refine (hbefore (processCaDatabase_moves _ _ _ _)).bind fun _ => ?_
    have hget : Ensures (KeepsConfig db) (MonadState.get : DbM CaDatabase)
        (fun read s => read.tables.config = db.tables.config ∧ KeepsConfig db s)
        (fun _ => True) :=
      .get fun s hs => ⟨hs.config, hs⟩
    refine hget.bind fun read => .of_and fun hconfig => ?_
    rw [hconfig, huri]
    have houtcome : Ensures (KeepsConfig db) (outcome (.ok (some uri)) : DbM (Option String))
        (fun found s => found = some uri ∧ KeepsConfig db s) (fun _ => True) :=
      fun s hs => ⟨rfl, hs⟩
    refine houtcome.bind fun found => .of_and fun hfound => ?_
    rw [hfound]
    refine (hbefore Moves.outcome).bind fun _ => ?_
    refine (hbefore crlEntries_moves).bind fun entries => ?_
    have htake : Ensures (KeepsConfig db) (incrementSerial .crl none)
        (fun n s => n = db.tables.config.counter .crl ∧
          s.tables.config.crlBatchEnabled = db.tables.config.crlBatchEnabled)
        (fun _ => True) := by
      intro s hs
      refine ⟨?_, ?_⟩
      · show s.tables.config.counter .crl = db.tables.config.counter .crl
        rw [hs.config]
      · show s.tables.config.crlBatchEnabled = db.tables.config.crlBatchEnabled
        rw [hs.config]
    refine htake.bind fun firstNumber => .of_and fun hnumber => ?_
    refine publishCrls_batched.imp (fun _ hs => hs) ?_ fun _ hs => hs
    rintro crls s ⟨⟨hnumbers, hread⟩, hbatched⟩
    refine ⟨_, planned_of_numbers ?_ hnumbers, hnumber, hread, hbatched⟩
    rw [hnumber]
    exact hfirst
  exact hrun.ok (Std.Refl.refl db) h

/-! ## Runs -/

variable {s t : Releasing} {started : Time} {put : Except String Unit}

/-- The published CRL is older than a batch, or one of its CRLs that are due. -/
def PublishedBy (batch : CrlBatch) (clock : Time) (crl : ReadCrl) : Prop :=
  crl.published < batch.firstNumber ∨
    ∃ i < batch.count, crl = batch.readCrl i ∧ batch.thisUpdate i ≤ clock

/-- The newest batch is in the private store. -/
structure Newest (s : Releasing) (batch : CrlBatch) : Prop where
  row : s.db.tables.crlBatch = some batch
  pending : s.readPending = some batch.readCrls
  planned : batch.Planned
  counter : s.db.tables.config.counter .crl = wrapI64 (batch.firstNumber + batch.count)
  enabled : s.batchEnabled = true
  published : PublishedBy batch s.clock s.published

/-- No batch was signed yet. -/
structure NoBatch (s : Releasing) : Prop where
  row : s.db.tables.crlBatch = none
  pending : s.pending = none
  counter : s.db.tables.config.counter .crl ≤ i64Max
  published : ∀ n ∈ s.published.number, n < s.db.tables.config.counter .crl

/-- A CRL of a batch is numbered between the batch's first and the next counter. -/
theorem CrlBatch.Planned.published_readCrl (h : batch.Planned) {i : Nat} (hi : i < batch.count) :
    (batch.readCrl i).published = batch.firstNumber + i :=
  h.number_eq hi

theorem published_lt_of_newest (h : Newest s batch) :
    s.published.published < batch.firstNumber + batch.count := by
  rcases h.published with hold | ⟨i, hi, hcrl, _⟩
  · omega
  · rw [hcrl, h.planned.published_readCrl hi]
    omega

/-- A batch that is signed after is newer than what is published. -/
theorem published_lt_of_counter (h : NoBatch s ∨ ∃ batch, Newest s batch)
    (hcounter : 0 ≤ s.db.tables.config.counter .crl) :
    s.published.published < s.db.tables.config.counter .crl := by
  rcases h with h | ⟨batch, h⟩
  · unfold ReadCrl.published
    cases hnumber : s.published.number with
    | none => exact lt_of_lt_of_le (by decide) hcounter
    | some n => exact h.published n hnumber
  · have hlt := published_lt_of_newest h
    have hupper := h.planned.upper
    rw [h.counter, wrapI64] at hcounter ⊢
    have hmax : i64Max = 9223372036854775807 := rfl
    split at hcounter
    · omega
    · rw [if_neg (by omega)]
      exact hlt

/-- The Lambda takes a batch that it can read. -/
theorem releaseDueCrl_of_good {pending : List ReadCrl} {published : ReadCrl} (hne : pending ≠ [])
    (hbad : badCrls pending = []) : releaseDueCrl now (.ok pending) published =
      ⟨newerDue now pending published,
        concatMsg "\n*CRL Batch*" ++ concatMsg (releaseLine now pending published) ++
          concatMsg (coverLine now pending),
        unreleased now pending < 2⟩ := by
  cases pending with
  | nil => exact absurd rfl hne
  | cons crl crls =>
    unfold releaseDueCrl
    dsimp only
    rw [hbad, if_neg (not_not.mpr rfl)]

theorem CrlBatch.Planned.readCrls_ne (h : batch.Planned) : batch.readCrls ≠ [] := by
  intro hnil
  have hlength : batch.readCrls.length = 0 := by rw [hnil, List.length_nil]
  rw [readCrls, List.length_map, List.length_range, h.count] at hlength
  cases hlength

/-- What a run releases of the newest batch. -/
theorem Newest.release_eq (h : Newest s batch) (started : Time) :
    (releaseDueCrl started (.ok batch.readCrls) s.published).release =
      newerDue started batch.readCrls s.published := by
  rw [releaseDueCrl_of_good h.planned.readCrls_ne (CrlBatch.badCrls_readCrls batch)]

theorem Newest.runAt_eq (h : Newest s batch) :
    s.runAt started put =
      lambdaHandler started true (some (.ok batch.readCrls)) s.published put := by
  rw [Releasing.runAt, h.enabled, h.pending, Option.map_some]

/-- A run publishes what it releases, if it can. -/
theorem Newest.published_run (h : Newest s batch) (started : Time) (put : Except String Unit) :
    (s.runAt started put).published = s.published ∨
      newerDue started batch.readCrls s.published = some (s.runAt started put).published := by
  rw [h.runAt_eq, ← h.release_eq started]
  unfold lambdaHandler
  dsimp only
  split
  next hrelease => exact .inr hrelease
  next => exact .inl rfl
  next => exact .inl rfl

theorem newerDue_eq_some {pending : List ReadCrl} {published latest : ReadCrl} :
    newerDue now pending published = some latest ↔ latestDue now pending = some latest ∧
      ∃ n, latest.number = some n ∧ published.published < n := by
  unfold newerDue
  rw [Option.filter_eq_some_iff, Option.any_eq_true]
  simp

/-- No run takes the public CRL back. -/
theorem Newest.published_le (h : Newest s batch) :
    s.published.published ≤ (s.runAt started put).published.published := by
  rcases h.published_run started put with hsame | hnewer
  · rw [hsame]
  · obtain ⟨_, n, hn, hlt⟩ := newerDue_eq_some.mp hnewer
    have hnumber : (s.runAt started put).published.published = n := by
      rw [ReadCrl.published, hn, Option.getD_some]
    rw [hnumber]
    exact hlt.le

/-- The public CRL is the one that the desktop counts as due. -/
structure Due (batch : CrlBatch) (now : Time) (crl : ReadCrl) : Prop where
  number : crl.number = some (batch.status now).dueNumber
  thisUpdate : crl.thisUpdate ≤ now
  nextUpdate : now < (batch.status now).signedUntil → now < crl.nextUpdate

theorem CrlBatch.Planned.due_last (h : batch.Planned) (hdue : 0 < batch.released now) :
    Due batch now (batch.readCrl (batch.released now - 1)) := by
  refine ⟨rfl, (h.lt_released.mp (by omega)).2, ?_⟩
  intro hcover
  have hle : batch.released now ≤ batch.count := h.released_le
  rcases hle.lt_or_eq with hlt | heq
  · have hnext : now < batch.thisUpdate (batch.released now) := by
      by_contra hle
      exact absurd (h.lt_released.mpr ⟨hlt, not_lt.mp hle⟩) (lt_irrefl _)
    have hweek : batch.thisUpdate (batch.released now) <
        batch.nextUpdate (batch.released now - 1) := by
      rw [h.thisUpdate_eq, h.nextUpdate_eq]
      have hcast : ((batch.released now - 1 : Nat) : Int) = batch.released now - 1 := by omega
      have hlater : ∀ t weeks period : Int, 0 < period →
          t + weeks < t + (weeks - 7 * period) + 10 * period := by
        intro t weeks period hperiod
        omega
      rw [hcast, Int.sub_mul, one_mul]
      exact hlater _ _ _ (by decide)
    exact hnext.trans hweek
  · rw [heq]
    exact hcover

/-- No CRL of the batch has become due since the execution environment was started. -/
def Fresh (s : Releasing) : ReleaseStep → Prop
  | .run started now _ => ∀ crls ∈ s.readPending, ∀ crl ∈ crls,
    crl.thisUpdate ≤ now → crl.thisUpdate ≤ started
  | _ => True

/-- The environment's clock and the present count the same CRLs as due. -/
theorem Newest.released_eq (h : Newest s batch) (hle : started ≤ now)
    (hfresh : Fresh s (.run started now put)) :
    batch.released started = batch.released now := by
  have hsame : ∀ i, i < batch.released started ↔ i < batch.released now := by
    intro i
    rw [h.planned.lt_released, h.planned.lt_released]
    refine and_congr_right fun hi => ⟨fun hdue => hdue.trans hle, fun hdue => ?_⟩
    exact hfresh _ h.pending _ (List.mem_map_of_mem (List.mem_range.mpr hi)) hdue
  have hstarted := hsame (batch.released started)
  have hnow := hsame (batch.released now)
  omega

/-- After a run that can write, the public CRL is the due one. -/
theorem Newest.due_run (h : Newest s batch) (hclock : s.clock ≤ now) (hle : started ≤ now)
    (hfresh : Fresh s (.run started now put)) (ht0 : batch.t0 ≤ now) (hput : put = .ok ()) :
    Due batch now (s.runAt started put).published := by
  have hreleased := h.released_eq hle hfresh
  have hpos : 0 < batch.released now := by
    refine h.planned.lt_released.mpr ⟨by rw [h.planned.count]; decide, ?_⟩
    rw [h.planned.thisUpdate_eq]
    simpa using ht0
  have hlatest : latestDue started batch.readCrls =
      some (batch.readCrl (batch.released now - 1)) := by
    rw [h.planned.latestDue_eq (by rw [hreleased]; exact hpos), hreleased]
  have hlast : batch.released now - 1 < batch.released now := by omega
  have hlt : batch.released now - 1 < batch.count := (h.planned.lt_released.mp hlast).1
  have hnumber := h.planned.published_readCrl hlt
  rw [h.runAt_eq, hput]
  unfold lambdaHandler
  dsimp only
  rw [h.release_eq started]
  by_cases hnewer : s.published.published < batch.firstNumber + (batch.released now - 1 : Nat)
  · have hrelease : newerDue started batch.readCrls s.published =
        some (batch.readCrl (batch.released now - 1)) :=
      newerDue_eq_some.mpr ⟨hlatest, _, rfl, by rw [h.planned.number_eq hlt]; exact hnewer⟩
    rw [hrelease]
    exact h.planned.due_last hpos
  · have hnone : newerDue started batch.readCrls s.published = none := by
      rw [newerDue, hlatest, Option.filter_some, if_neg]
      simpa [CrlBatch.readCrl, h.planned.number_eq hlt] using hnewer
    rw [hnone]
    -- the public CRL is one of the batch's, and no later one is due
    rcases h.published with hold | ⟨i, hi, hcrl, hdue⟩
    · omega
    · have hireleased : i < batch.released now :=
        h.planned.lt_released.mpr ⟨hi, hdue.trans hclock⟩
      rw [hcrl, h.planned.published_readCrl hi] at hnewer
      have hi : i = batch.released now - 1 := by omega
      show Due batch now s.published
      rw [hcrl, hi]
      exact h.planned.due_last hpos

/-! ## The invariant -/

/-- Where a run leaves a released batch. -/
theorem Newest.run (h : Newest s batch) (hclock : s.clock ≤ now) (hle : started ≤ now) :
    Newest { s with published := (s.runAt started put).published, clock := now } batch := by
  refine ⟨h.row, h.pending, h.planned, h.counter, h.enabled, ?_⟩
  show PublishedBy batch now (s.runAt started put).published
  rcases h.published_run started put with hsame | hnewer
  · rw [hsame]
    exact h.published.imp_right fun ⟨i, hi, hcrl, hdue⟩ => ⟨i, hi, hcrl, hdue.trans hclock⟩
  · have hlatest := (newerDue_eq_some.mp hnewer).1
    rcases Nat.eq_zero_or_pos (batch.released started) with hnone | hpos
    · rw [h.planned.latestDue_none hnone] at hlatest
      cases hlatest
    · rw [h.planned.latestDue_eq hpos] at hlatest
      have hlast : batch.released started - 1 < batch.released started := by omega
      obtain ⟨hi, hdue⟩ := h.planned.lt_released.mp hlast
      exact .inr ⟨_, hi, (Option.some.inj hlatest).symm, hdue.trans hle⟩

/-- With no batch a run leaves the public CRL. -/
theorem NoBatch.published_run (h : NoBatch s) (started : Time) (put : Except String Unit) :
    (s.runAt started put).published = s.published := by
  rw [Releasing.runAt, Releasing.readPending, h.pending]
  cases s.batchEnabled <;> rfl

theorem enabled_of_crlBatchUri {config : CaConfig} {uri : String}
    (h : crlBatchUri config.read = .ok (some uri)) : config.crlBatchEnabled = some true := by
  unfold crlBatchUri at h
  split at h
  next henabled _ => exact henabled
  next => cases h
  next => cases h

theorem newest_generate {publishing : Publishing} {uri : String} {crls : List SignedCrl}
    {after : CaDatabase} (hs : NoBatch s ∨ ∃ batch, Newest s batch)
    (huri : crlBatchUri s.db.tables.config.read = .ok (some uri))
    (hrun : generateCrl times now publishing s.db = .ok crls after) :
    ∃ batch, Newest { s with db := after, pending := some crls } batch := by
  have hcounter : s.db.tables.config.counter .crl ≤ i64Max := by
    rcases hs with hs | ⟨batch, hs⟩
    · exact hs.counter
    · have hupper := hs.planned.upper
      have hmax : i64Max = 9223372036854775807 := rfl
      rw [hs.counter, wrapI64]
      split <;> omega
  obtain ⟨batch, hplanned, hfirst, hread, hbatched⟩ := generateCrl_batched huri hcounter hrun
  refine ⟨batch, hbatched.row, congrArg some hread, hplanned, hbatched.counter, ?_, .inl ?_⟩
  · show after.tables.config.crlBatchEnabled.getD false = true
    rw [hbatched.enabled, enabled_of_crlBatchUri huri]
    rfl
  · rw [hfirst]
    refine published_lt_of_counter hs ?_
    rw [← hfirst]
    exact hplanned.lower

theorem releasing_generate {publishing : Publishing}
    (h : (releasing times).system.step s (.generate now publishing) t) :
    ∃ uri crls after, crlBatchUri s.db.tables.config.read = .ok (some uri) ∧
      generateCrl times now publishing s.db = .ok crls after ∧
      t = { s with db := after, pending := some crls } := by
  simp only [releasing, Machine.system] at h
  split at h
  next uri crls after huri hrun =>
    split at h
    next =>
      cases h
      exact ⟨uri, crls, after, huri, hrun, rfl⟩
    next => cases h
  next => cases h

theorem releasing_run (h : (releasing times).system.step s (.run started now put) t) :
    (s.clock ≤ now ∧ started ≤ now) ∧
      t = { s with published := (s.runAt started put).published, clock := now } := by
  simp only [releasing, Machine.system] at h
  split at h
  next hle =>
    cases h
    exact ⟨hle, rfl⟩
  next => cases h

/-- Nothing was signed yet, or the newest batch is there to be released. -/
theorem newest_reachable (hs : (releasing times).system.Reachable s) :
    NoBatch s ∨ ∃ batch, Newest s batch := by
  refine System.Invariant.reachable (P := fun s => NoBatch s ∨ ∃ batch, Newest s batch) ?_ hs
  constructor
  · rintro s ⟨hpending, hrow, hcounter, hpublished⟩
    exact .inl ⟨hrow, hpending, hcounter, hpublished⟩
  · intro s t step hs hstep
    cases step with
    | generate now publishing =>
      obtain ⟨uri, crls, after, huri, hrun, rfl⟩ := releasing_generate hstep
      exact .inr (newest_generate hs huri hrun)
    | edit other =>
      cases hstep
      rcases hs with h | ⟨batch, h⟩
      · exact .inl ⟨h.row, h.pending, h.counter, h.published⟩
      · exact .inr ⟨batch, h.row, h.pending, h.planned, h.counter, h.enabled, h.published⟩
    | run started now put =>
      obtain ⟨⟨hclock, hle⟩, rfl⟩ := releasing_run hstep
      rcases hs with h | ⟨batch, h⟩
      · refine .inl ⟨h.row, h.pending, h.counter, ?_⟩
        show ∀ n ∈ (s.runAt started put).published.number, _
        rw [h.published_run]
        exact h.published
      · exact .inr ⟨batch, h.run hclock hle⟩

/-! ## The desktop and the Lambda -/

/-- What the desktop shows of the batch is what the Lambda makes of it. -/
def Agree (times : OpensslTimes) (s : Releasing) (started now : Time) : Prop :=
  ∃ dto pending cover, crlBatchDto times s.db s.batchEnabled now = some dto ∧
    s.readPending = some pending ∧ coverEnd pending = some cover ∧
    dto.remaining = unreleased started pending ∧ dto.signedUntil = times.format cover ∧
    dto.lowCover = (releaseDueCrl started (.ok pending) s.published).warning

theorem crlBatchDto_of_row (times : OpensslTimes) {enabled : Bool}
    (hrow : db.tables.crlBatch = some batch) (henabled : enabled = true) (now : Time) :
    ∃ dto, crlBatchDto times db enabled now = some dto ∧
      dto.remaining = (batch.status now).remaining ∧
      dto.signedUntil = times.format (batch.status now).signedUntil ∧
      dto.lowCover = decide ((batch.status now).remaining < crlBatchLowCover) := by
  rw [crlBatchDto, if_pos henabled, hrow]
  exact ⟨_, rfl, rfl, rfl, rfl⟩

theorem Newest.agree (h : Newest s batch) (hle : started ≤ now)
    (hfresh : Fresh s (.run started now put)) : Agree times s started now := by
  have hreleased := h.released_eq hle hfresh
  have hcount : batch.released now ≤ batch.count := h.planned.released_le
  have hremaining : (batch.status now).remaining = unreleased started batch.readCrls := by
    rw [h.planned.unreleased_eq, hreleased]
    show (batch.count : Int) - batch.released now = _
    omega
  obtain ⟨dto, hdto, hleft, huntil, hlow⟩ := crlBatchDto_of_row times h.row h.enabled now
  refine ⟨dto, batch.readCrls, _, hdto, h.pending, h.planned.coverEnd_eq,
    hleft.trans hremaining, huntil, ?_⟩
  rw [releaseDueCrl_of_good h.planned.readCrls_ne (CrlBatch.badCrls_readCrls batch), hlow,
    hremaining]
  exact decide_eq_decide.mpr Nat.cast_lt

/-- The desktop and the Lambda agree. -/
structure ReleasesDue (times : OpensslTimes) (S : System Releasing ReleaseStep)
    (s : Releasing) : Prop where
  /-- After a run that can write, the public CRL is the one that is due, -/
  due : ∀ started now t batch, S.step s (.run started now (.ok ())) t →
    s.db.tables.crlBatch = some batch → batch.t0 ≤ now → Due batch now t.published
  /-- no step takes it back, -/
  rises : ∀ l t, S.step s l t → s.published.published ≤ t.published.published
  /-- and at a run both say the same of the batch. -/
  agree : ∀ started now put t batch, S.step s (.run started now put) t →
    s.db.tables.crlBatch = some batch → Agree times s started now

/-- **The desktop and the Lambda agree**, in every run in which no CRL becomes due between the
start of the Lambda's execution environment and its run. -/
theorem releasesDue_of_fresh (times : OpensslTimes) {s : Releasing}
    (hs : ((releasing times).system.restrict Fresh).Reachable s) :
    ReleasesDue times ((releasing times).system.restrict Fresh) s := by
  have hinv := newest_reachable hs.of_restrict
  have hnewest : ∀ {batch}, s.db.tables.crlBatch = some batch → Newest s batch := by
    intro batch hrow
    rcases hinv with h | ⟨batch', h⟩
    · rw [h.row] at hrow
      cases hrow
    · rw [h.row] at hrow
      cases hrow
      exact h
  refine ⟨?_, ?_, ?_⟩
  · rintro started now t batch ⟨hfresh, hstep⟩ hrow ht0
    obtain ⟨⟨hclock, hle⟩, rfl⟩ := releasing_run hstep
    exact (hnewest hrow).due_run hclock hle hfresh ht0 rfl
  · rintro l t ⟨_, hstep⟩
    cases l with
    | generate now publishing =>
      obtain ⟨_, _, _, _, _, rfl⟩ := releasing_generate hstep
      exact le_refl _
    | edit other =>
      cases hstep
      exact le_refl _
    | run started now put =>
      obtain ⟨_, rfl⟩ := releasing_run hstep
      rcases hinv with h | ⟨batch, h⟩
      · show _ ≤ (s.runAt started put).published.published
        rw [h.published_run]
      · exact h.published_le
  · rintro started now put t batch ⟨hfresh, hstep⟩ hrow
    obtain ⟨⟨_, hle⟩, rfl⟩ := releasing_run hstep
    exact (hnewest hrow).agree hle hfresh

/-- A CA in batch mode whose public CRL has no number. -/
def batchReleasing : Releasing where
  db := .fromTables (newTables {
    text
      | .caPrivateStore => some "s3://ca"
      | _ => none
    crlBatchEnabled := some true }) []
  pending := none
  published := ⟨none, sampleStart, sampleStart + 30 * day, true⟩
  clock := sampleStart

/-- A batch is signed. -/
def batchAt (now : Time) : ReleaseStep := .generate now ⟨.ok (), .ok (), .ok none, .ok ()⟩

/-- The Lambda runs in a new execution environment. -/
def runNew (now : Time) : ReleaseStep := .run now now (.ok ())

def freshCheck (s : Releasing) : ReleaseStep → Bool
  | .run started now _ => s.readPending.all fun crls => crls.all fun crl =>
    !(crl.thisUpdate ≤ now) || crl.thisUpdate ≤ started
  | _ => true

theorem fresh_of_check (s : Releasing) (step : ReleaseStep) (h : freshCheck s step = true) :
    Fresh s step := by
  cases step with
  | run started now put =>
    intro crls hcrls crl hcrl hdue
    have hcheck := List.all_eq_true.mp ((Option.all_eq_true _ _).mp h crls hcrls) crl hcrl
    simpa [hdue] using hcheck
  | _ => trivial

/-- Two batches, the second signed while the first is being released. -/
theorem releasesDue_signedAgain : ∃ s : Releasing, s.published.number = some 7 ∧
    ReleasesDue sampleTimes ((releasing sampleTimes).system.restrict Fresh) s := by
  obtain ⟨s, hs, hview⟩ := Machine.exists_reachable_of_exec_guard fresh_of_check
    (show (releasing sampleTimes).init batchReleasing from
      ⟨rfl, rfl, by decide, fun _ h => by cases h⟩)
    [batchAt sampleStart, runNew (sampleStart + 15 * day), batchAt (sampleStart + 16 * day),
      runNew (sampleStart + 23 * day)]
    (fun s => s.published.number = some 7)
    (by decide)
  exact ⟨s, of_decide_eq_true hview, releasesDue_of_fresh sampleTimes hs⟩

/-- An execution environment that was started before the batch was signed finds nothing due. -/
theorem batch_unreleased : ¬ ∀ s, (releasing sampleTimes).system.Reachable s →
    ReleasesDue sampleTimes (releasing sampleTimes).system s := by
  intro hclaim
  obtain ⟨s, hs, hview⟩ := Machine.exists_reachable_of_exec
    (show (releasing sampleTimes).init batchReleasing from
      ⟨rfl, rfl, by decide, fun _ h => by cases h⟩)
    [runNew sampleStart, batchAt (sampleStart + second)]
    (fun s => s.db.tables.crlBatch.any (fun batch => batch.t0 = sampleStart + second) &&
      ((releasing sampleTimes).next s
        (.run sampleStart (sampleStart + 60 * second) (.ok ()))).any
          fun t => t.published.number = none)
    (by decide)
  simp only [Bool.and_eq_true, Option.any_eq_true, decide_eq_true_eq] at hview
  obtain ⟨⟨batch, hrow, ht0⟩, t, hstep, hnumber⟩ := hview
  have hdue := (hclaim s hs).due _ _ t batch hstep hrow (by rw [ht0]; decide)
  rw [hdue.number] at hnumber
  cases hnumber

end Opca.Core

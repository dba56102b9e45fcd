/-
  Core/PublicCrl.lean --- the public CRL and its two writers: the desktop, which uploads
  the CRL that it holds, and the Lambda, which releases those of the batch
  (`generate_crl`, `get_crl`, `upload_crl`, `notification/aws_lambda.py`).

  A run of the Lambda reads the public CRL, reads the batch, and writes; the desktop and
  other runs may come in between.
-/
import Opca.Core.Release
import Opca.Core.Lookup

set_option autoImplicit false

namespace Opca.Core

open Opca.Foundation Acme

/-! ## The machine -/

/-- The CRL that `lambda_handler` writes, if any. -/
def lambdaRelease (now : Time) (crlBatchEnabled : Bool)
    (pending : Option (Except String (List ReadCrl))) (published : ReadCrl) : Option ReadCrl :=
  match crlBatchEnabled, pending with
  | true, some batch => (releaseDueCrl now batch published).release
  | _, _ => none

theorem lambdaHandler_published (now : Time) (crlBatchEnabled : Bool)
    (pending : Option (Except String (List ReadCrl))) (published : ReadCrl) :
    (lambdaHandler now crlBatchEnabled pending published (.ok ())).published =
      (lambdaRelease now crlBatchEnabled pending published).getD published := by
  unfold lambdaHandler lambdaRelease
  cases crlBatchEnabled with
  | false => rfl
  | true =>
    cases pending with
    | none => rfl
    | some batch =>
      dsimp only
      cases (releaseDueCrl now batch published).release <;> rfl

/-- A run of the Lambda on its way. -/
inductive LambdaPhase where
  /-- It has read the public CRL. -/
  | read (published : ReadCrl)
  /-- It writes another in its place. -/
  | releasing (published release : ReadCrl)
  deriving DecidableEq, Repr

structure PublicCrl where
  db : CaDatabase
  /-- The `CRL` item. -/
  item : Option SignedCrl
  /-- The CRL that the session holds. -/
  held : Option SignedCrl
  /-- The batch in the private store. -/
  pending : Option (List SignedCrl)
  /-- The CRL in the public store. -/
  published : Option ReadCrl
  runs : List LambdaPhase

inductive PublicCrlStep where
  | generateCrl (now : Time) (publishing : Publishing)
  /-- Whatever else happens to the database, its CRL counter apart. -/
  | edit (other : CaDatabase)
  | reload
  | getCrl
  | uploadCrl
  | lambdaRead
  /-- With the time its environment was started, and the flag of the backed-up database. -/
  | lambdaDecide (run : Nat) (started : Time) (crlBatchEnabled : Bool)
  | lambdaPut (run : Nat)

namespace PublicCrl

/-- The batch in the private store as the Lambda reads it. -/
def readPending (s : PublicCrl) : Option (Except String (List ReadCrl)) :=
  s.pending.map fun crls => .ok (crls.map SignedCrl.readBack)

/-- A CRL is signed, or a batch, which is uploaded. -/
def generated (s : PublicCrl) (batchUri : Option String) (crls : List SignedCrl)
    (db : CaDatabase) : PublicCrl :=
  { s with
    db
    item := crls.head?
    held := crls.head?
    pending := if batchUri.isSome then some crls else s.pending }

/-- A run has compared the batch with the public CRL. -/
def decided (s : PublicCrl) (run : Nat) (published : ReadCrl) (release : Option ReadCrl) :
    PublicCrl :=
  match release with
  | some release => { s with runs := s.runs.set run (.releasing published release) }
  | none => { s with runs := s.runs.eraseIdx run }

end PublicCrl

/-- Another database, with the same CRL counter. -/
def CaDatabase.withCrlCounter (other : CaDatabase) (nextCrlSerial : Option Int) : CaDatabase :=
  { other with
    tables := { other.tables with config := { other.tables.config with nextCrlSerial } } }

/-- The number of every CRL that is there is below the counter, and no CRL that is public
is newer than the item. -/
structure PublicCrl.Starts (s : PublicCrl) : Prop where
  counter : s.db.tables.config.counter .crl ≤ i64Max
  held : s.held = none
  pending : s.pending = none
  runs : s.runs = []
  item : ∀ crl ∈ s.item, crl.number < s.db.tables.config.counter .crl
  published : ∀ crl ∈ s.published, crl.published < s.db.tables.config.counter .crl
  current : ∀ crl ∈ s.published, ∀ item ∈ s.item, crl.published ≤ item.number

def publicCrl (times : OpensslTimes) : Machine PublicCrl PublicCrlStep where
  init := PublicCrl.Starts
  next s
    | .generateCrl now publishing =>
      match crlBatchUri s.db.tables.config.read, generateCrl times now publishing s.db with
      | .ok batchUri, .ok crls db => some (s.generated batchUri crls db)
      | _, _ => none
    | .edit other =>
      some { s with db := other.withCrlCounter s.db.tables.config.nextCrlSerial }
    | .reload => some { s with db := s.db.reload, held := none }
    | .getCrl => some { s with held := s.held.or s.item }
    | .uploadCrl => s.held.map fun crl => { s with published := some crl.readBack }
    | .lambdaRead => s.published.map fun crl => { s with runs := s.runs ++ [.read crl] }
    | .lambdaDecide run started crlBatchEnabled =>
      match s.runs[run]? with
      | some (.read published) => some (s.decided run published
          (lambdaRelease started crlBatchEnabled s.readPending published))
      | _ => none
    | .lambdaPut run =>
      match s.runs[run]? with
      | some (.releasing _ release) =>
        some { s with published := some release, runs := s.runs.eraseIdx run }
      | _ => none

/-- The public CRL is none of those that follow the one that is held in its batch. -/
def PublicCrl.BatchUnreleased (s : PublicCrl) (held : SignedCrl) : Prop :=
  ∀ first rest, s.pending = some (first :: rest) → first.number = held.number →
    ∀ crl ∈ s.published, ∀ later ∈ rest, crl.published ≠ later.number

/-- The desktop uploads the first CRL of a batch only while none of the others is released,
and a run of the Lambda writes only over the public CRL that it read. -/
def TakesTurns (s : PublicCrl) : PublicCrlStep → Prop
  | .uploadCrl => ∀ held ∈ s.held, s.BatchUnreleased held
  | .lambdaPut run => ∀ published release,
    s.runs[run]? = some (.releasing published release) → s.published = some published
  | _ => True

/-- The number of the public CRL has not decreased. -/
def NeverBack (s t : PublicCrl) : Prop :=
  ∀ crl ∈ s.published, ∃ crl' ∈ t.published, crl.published ≤ crl'.published

/-! ## What a call signs -/

variable {times : OpensslTimes} {now : Time} {db : CaDatabase}

/-- A number that no CRL that is signed from here on has. -/
def CaDatabase.Past (db : CaDatabase) (n : Int) : Prop :=
  db.tables.config.counter .crl < 0 ∨ n < db.tables.config.counter .crl

theorem past_of_counter {t : CaDatabase} {n : Int}
    (h : t.tables.config.counter .crl = db.tables.config.counter .crl) (hn : db.Past n) :
    t.Past n := by
  unfold CaDatabase.Past at hn ⊢
  rw [h]
  exact hn

/-- The CRLs of a call are numbered in order, from the counter on. -/
structure Numbers (db t : CaDatabase) (crls : List SignedCrl) : Prop where
  counter : t.tables.config.counter .crl ≤ i64Max
  first : ∃ first rest, crls = first :: rest ∧
    first.number = db.tables.config.counter .crl ∧ ∀ crl ∈ rest, first.number < crl.number
  nonneg : 0 ≤ db.tables.config.counter .crl
  past : ∀ crl ∈ crls, t.Past crl.number

/-- What a call that returns signed, and the counter that it leaves. -/
theorem publishCrls_ok {batchUri : Option String} {batch : CrlBatch} {entries : List CrlEntry}
    {publishing : Publishing} {crls : List SignedCrl} {t : CaDatabase}
    (hcounter : batchUri = none →
      db.tables.config.counter .crl = wrapI64 (batch.firstNumber + batch.count))
    (h : publishCrls times batchUri batch entries publishing db = .ok crls t) :
    buildCrls batch entries publishing.signed = .ok crls ∧
      t.tables.config.counter .crl = wrapI64 (batch.firstNumber + batch.count) := by
  obtain ⟨crls', _, hsign, h⟩ := of_bind_ok h
  obtain ⟨hbuild, rfl⟩ := of_outcome_ok hsign
  obtain ⟨_, recorded, hrecord, h⟩ := of_bind_ok h
  have hrecorded : recorded.tables.config.counter .crl =
      wrapI64 (batch.firstNumber + batch.count) := by
    cases batchUri with
    | none =>
      cases hrecord
      exact hcounter rfl
    | some uri =>
      obtain ⟨_, _, hupdate, hrecord⟩ := of_bind_ok hrecord
      cases hupdate
      cases hrecord
      rfl
  obtain ⟨_, _, hgive, h⟩ := of_bind_ok h
  cases hgive
  obtain ⟨_, _, hissuer, h⟩ := of_bind_ok h
  obtain ⟨_, rfl⟩ := of_outcome_ok hissuer
  obtain ⟨_, _, hmetadata, h⟩ := of_bind_ok h
  cases hmetadata
  obtain ⟨_, _, hstored, h⟩ := of_bind_ok h
  obtain ⟨_, rfl⟩ := of_outcome_ok hstored
  obtain ⟨_, _, hgive, h⟩ := of_bind_ok h
  cases hgive
  cases h
  exact ⟨hbuild, hrecorded⟩

theorem config_of_scan {force : Bool} {changed : Bool} {t : CaDatabase}
    (h : processCaDatabase times now none force db = .ok changed t) :
    t.tables.config = db.tables.config := by
  have hmoves : Moves KeepsConfig (processCaDatabase times now none force) :=
    processCaDatabase_moves times now none force
  exact ((hmoves db).ok (Std.Refl.refl db) h).config

/-- A call takes its numbers from the counter on. -/
theorem generateCrl_ok {publishing : Publishing} {crls : List SignedCrl} {t : CaDatabase}
    (h : generateCrl times now publishing db = .ok crls t) :
    ∃ batch entries, buildCrls batch entries publishing.signed = .ok crls ∧
      batch.firstNumber = db.tables.config.counter .crl ∧ (batch.count = 1 ∨ batch.count = 5) ∧
      t.tables.config.counter .crl = wrapI64 (batch.firstNumber + batch.count) := by
  obtain ⟨_, scanned, hscan, h⟩ := of_bind_ok h
  have hconfig := config_of_scan hscan
  obtain ⟨_, _, hget, h⟩ := of_bind_ok h
  cases hget
  obtain ⟨batchUri, _, huri, h⟩ := of_bind_ok h
  obtain ⟨huri, rfl⟩ := of_outcome_ok huri
  obtain ⟨_, _, hready, h⟩ := of_bind_ok h
  obtain ⟨_, rfl⟩ := of_outcome_ok hready
  obtain ⟨entries, _, hentries, h⟩ := of_bind_ok h
  cases hentries
  obtain ⟨firstNumber, _, htake, h⟩ := of_bind_ok h
  cases htake
  have hfirst : scanned.tables.config.current .crl none = db.tables.config.counter .crl := by
    rw [← hconfig]
    rfl
  obtain ⟨hbuild, hcounter⟩ := publishCrls_ok (by rintro rfl; rfl) h
  refine ⟨_, _, hbuild, hfirst, ?_, hcounter⟩
  cases batchUri with
  | none => exact .inl rfl
  | some uri => exact .inr rfl

/-- Numbers that are signed are not beyond the largest. -/
theorem number_eq_of_nonneg {batch : CrlBatch} {i : Nat} (hfirst : batch.firstNumber ≤ i64Max)
    (hi : i ≤ 5) (h : 0 ≤ batch.number i) :
    batch.number i = batch.firstNumber + i ∧ batch.firstNumber + i ≤ i64Max := by
  have hmax : i64Max = 9223372036854775807 := rfl
  unfold CrlBatch.number wrapI64 at h ⊢
  split at h
  · omega
  next hle =>
    rw [if_neg hle]
    exact ⟨rfl, not_lt.mp hle⟩

theorem numbers_of_generateCrl {publishing : Publishing} {crls : List SignedCrl}
    {t : CaDatabase} (hmax : db.tables.config.counter .crl ≤ i64Max)
    (h : generateCrl times now publishing db = .ok crls t) : Numbers db t crls := by
  obtain ⟨batch, entries, hbuild, hfirst, hcount, hcounter⟩ := generateCrl_ok h
  have hnonneg : ∀ i < batch.count, 0 ≤ batch.number i := fun i hi =>
    numbers_nonneg_of_buildCrls hbuild _ (List.mem_map_of_mem (List.mem_range.mpr hi))
  have hcount' : 0 < batch.count ∧ batch.count ≤ 5 := by omega
  have hnumber : ∀ i < batch.count, batch.number i = batch.firstNumber + i ∧
      batch.firstNumber + i ≤ i64Max := fun i hi =>
    number_eq_of_nonneg (hfirst ▸ hmax) (by omega) (hnonneg i hi)
  have hcrls := buildCrls_ok hbuild
  have hbound : i64Max = 9223372036854775807 := rfl
  have hzero := (hnumber 0 hcount'.1).1
  refine ⟨?_, ?_, ?_, ?_⟩
  · rw [hcounter, wrapI64]
    split <;> omega
  · obtain ⟨n, hn⟩ := Nat.exists_eq_succ_of_ne_zero hcount'.1.ne'
    rw [hn, List.range_succ_eq_map, List.map_cons] at hcrls
    refine ⟨_, _, hcrls, ?_, ?_⟩
    · show batch.number 0 = _
      rw [hzero, hfirst]
      simp
    · intro crl hcrl
      rw [List.map_map] at hcrl
      obtain ⟨i, hi, rfl⟩ := List.mem_map.mp hcrl
      show batch.number 0 < batch.number (i + 1)
      have hi' : i + 1 < batch.count := by
        rw [hn]
        exact Nat.succ_lt_succ (List.mem_range.mp hi)
      rw [hzero, (hnumber (i + 1) hi').1]
      omega
  · have hsigned := hnonneg 0 hcount'.1
    rw [hzero] at hsigned
    rw [← hfirst]
    simpa using hsigned
  · intro crl hcrl
    rw [hcrls] at hcrl
    obtain ⟨i, hi, rfl⟩ := List.mem_map.mp hcrl
    have hi' := List.mem_range.mp hi
    obtain ⟨heq, hle⟩ := hnumber i hi'
    show t.Past (batch.number i)
    unfold CaDatabase.Past
    rw [heq, hcounter, wrapI64]
    split
    · left
      omega
    · right
      omega

/-! ## What is public, against the item -/

variable {s t : PublicCrl}

/-- A number up to the item's, or that of a CRL which follows it in its batch. -/
def PublicCrl.Behind (s : PublicCrl) (n : Int) : Prop :=
  ∀ item ∈ s.item, n ≤ item.number ∨
    ∃ first rest, s.pending = some (first :: rest) ∧ first.number = item.number ∧
      ∃ crl ∈ rest, n = crl.number

/-- A number of a CRL that is signed. -/
structure PublicCrl.Placed (s : PublicCrl) (n : Int) : Prop where
  past : s.db.Past n
  behind : s.Behind n

structure PublicCrl.Ordered (s : PublicCrl) : Prop where
  counter : s.db.tables.config.counter .crl ≤ i64Max
  held : s.held = none ∨ s.held = s.item
  item : ∀ crl ∈ s.item, s.db.Past crl.number
  published : ∀ crl ∈ s.published, s.Placed crl.published
  pending : ∀ crls ∈ s.pending, ∀ crl ∈ crls, s.Placed crl.number
  runs : ∀ published release, .releasing published release ∈ s.runs →
    published.published < release.published ∧ s.Placed release.published

theorem PublicCrl.Placed.of_same {n : Int} (h : s.Placed n) (hitem : t.item = s.item)
    (hpending : t.pending = s.pending)
    (hcounter : t.db.tables.config.counter .crl = s.db.tables.config.counter .crl) :
    t.Placed n := by
  refine ⟨past_of_counter hcounter h.past, ?_⟩
  unfold PublicCrl.Behind
  rw [hitem, hpending]
  exact h.behind

/-- A step that is neither to the item nor to the batch. -/
theorem PublicCrl.Ordered.of_same (h : s.Ordered) (hitem : t.item = s.item)
    (hpending : t.pending = s.pending)
    (hcounter : t.db.tables.config.counter .crl = s.db.tables.config.counter .crl)
    (hheld : t.held = none ∨ t.held = s.item)
    (hpublished : ∀ crl ∈ t.published, s.Placed crl.published)
    (hruns : ∀ published release, .releasing published release ∈ t.runs →
      published.published < release.published ∧ s.Placed release.published) : t.Ordered := by
  refine ⟨hcounter ▸ h.counter, hitem ▸ hheld, ?_, ?_, ?_, ?_⟩
  · intro crl hcrl
    rw [hitem] at hcrl
    exact past_of_counter hcounter (h.item crl hcrl)
  · exact fun crl hcrl => (hpublished crl hcrl).of_same hitem hpending hcounter
  · intro crls hcrls crl hcrl
    rw [hpending] at hcrls
    exact (h.pending crls hcrls crl hcrl).of_same hitem hpending hcounter
  · intro published release hrun
    obtain ⟨hlt, hplaced⟩ := hruns published release hrun
    exact ⟨hlt, hplaced.of_same hitem hpending hcounter⟩

/-- What the Lambda releases is a CRL of the batch that is newer than what it read. -/
theorem of_lambdaRelease {started : Time} {crlBatchEnabled : Bool}
    {pending : Option (Except String (List ReadCrl))} {published release : ReadCrl}
    (h : lambdaRelease started crlBatchEnabled pending published = some release) :
    ∃ batch, pending = some (.ok batch) ∧ release ∈ batch ∧
      published.published < release.published := by
  unfold lambdaRelease at h
  split at h
  next batch =>
    cases batch with
    | error e => cases h
    | ok batch =>
      have hnewer : newerDue started batch published = some release := by
        by_cases hne : batch = []
        · rw [hne] at h
          cases h
        · by_cases hbad : badCrls batch = []
          · rw [releaseDueCrl_of_good hne hbad] at h
            exact h
          · cases batch with
            | nil => exact absurd rfl hne
            | cons crl crls =>
              unfold releaseDueCrl at h
              dsimp only at h
              rw [if_pos hbad] at h
              cases h
      obtain ⟨hlatest, n, hn, hlt⟩ := newerDue_eq_some.mp hnewer
      refine ⟨batch, rfl, (List.mem_filter.mp (List.argmax_mem hlatest)).1, ?_⟩
      rw [ReadCrl.published, ReadCrl.published, hn, Option.getD_some]
      exact hlt
  next => cases h

/-- A call's CRLs come after every number before. -/
theorem PublicCrl.Ordered.generated (h : s.Ordered) {batchUri : Option String}
    {crls : List SignedCrl} {db : CaDatabase} (hnumbers : Numbers s.db db crls) :
    (s.generated batchUri crls db).Ordered := by
  obtain ⟨hcounter, ⟨first, rest, rfl, hfirst, hrest⟩, hnonneg, hpast⟩ := hnumbers
  have hplaced : ∀ n, s.Placed n → (s.generated batchUri (first :: rest) db).Placed n := by
    intro n hn
    have hlt : n < first.number := by
      rcases hn.past with hneg | hlt
      · omega
      · omega
    refine ⟨?_, ?_⟩
    · rcases hpast first List.mem_cons_self with hneg | hlt'
      · exact .inl hneg
      · exact .inr (hlt.trans hlt')
    · rintro _ ⟨⟩
      exact .inl hlt.le
  refine ⟨hcounter, .inr rfl, ?_, ?_, ?_, ?_⟩
  · rintro _ ⟨⟩
    exact hpast first List.mem_cons_self
  · exact fun crl hcrl => hplaced _ (h.published crl hcrl)
  · intro crls hcrls crl hcrl
    cases batchUri with
    | none => exact hplaced _ (h.pending crls hcrls crl hcrl)
    | some uri =>
      cases hcrls
      refine ⟨hpast crl hcrl, ?_⟩
      rintro _ ⟨⟩
      rcases List.mem_cons.mp hcrl with rfl | hlater
      · exact .inl (le_refl _)
      · exact .inr ⟨first, rest, rfl, rfl, crl, hlater, rfl⟩
  · intro published release hrun
    obtain ⟨hlt, hrelease⟩ := h.runs published release hrun
    exact ⟨hlt, hplaced _ hrelease⟩

/-- The item's CRL is placed where it is held. -/
theorem PublicCrl.Ordered.placed_held (h : s.Ordered) {crl : SignedCrl} (hheld : crl ∈ s.held) :
    crl ∈ s.item ∧ s.Placed crl.number := by
  have hitem : crl ∈ s.item := by
    rcases h.held with hnone | hsame
    · rw [hnone] at hheld
      cases hheld
    · rw [← hsame]
      exact hheld
  refine ⟨hitem, h.item crl hitem, ?_⟩
  intro item hitem'
  rw [Option.mem_def.mp hitem] at hitem'
  cases hitem'
  exact .inl (le_refl _)

/-- A run that has decided releases a CRL of the batch that it read. -/
theorem PublicCrl.Ordered.decided (h : s.Ordered) {run : Nat} {published : ReadCrl}
    {started : Time} {crlBatchEnabled : Bool} :
    (s.decided run published
      (lambdaRelease started crlBatchEnabled s.readPending published)).Ordered := by
  cases hrelease : lambdaRelease started crlBatchEnabled s.readPending published with
  | none =>
    refine h.of_same rfl rfl rfl h.held h.published ?_
    exact fun published release hrun => h.runs published release (List.mem_of_mem_eraseIdx hrun)
  | some release =>
    refine h.of_same rfl rfl rfl h.held h.published ?_
    intro published' release' hrun
    rcases List.mem_or_eq_of_mem_set hrun with hbefore | hnew
    · exact h.runs published' release' hbefore
    · cases hnew
      obtain ⟨batch, hpending, hmem, hlt⟩ := of_lambdaRelease hrelease
      obtain ⟨crls, hcrls, hbatch⟩ := Option.map_eq_some_iff.mp hpending
      cases hbatch
      obtain ⟨crl, hcrl, rfl⟩ := List.mem_map.mp hmem
      exact ⟨hlt, h.pending crls hcrls crl hcrl⟩

theorem PublicCrl.Ordered.step {l : PublicCrlStep} (h : s.Ordered)
    (hstep : (publicCrl times).next s l = some t) : t.Ordered := by
  cases l with
  | generateCrl now publishing =>
    dsimp only [publicCrl] at hstep
    split at hstep
    next hrun =>
      cases hstep
      exact h.generated (numbers_of_generateCrl h.counter hrun)
    next => cases hstep
  | edit other =>
    cases hstep
    exact h.of_same rfl rfl rfl h.held h.published h.runs
  | reload =>
    cases hstep
    exact h.of_same rfl rfl rfl (.inl rfl) h.published h.runs
  | getCrl =>
    cases hstep
    refine h.of_same rfl rfl rfl ?_ h.published h.runs
    right
    rcases h.held with hnone | hsame
    · exact congrArg (Option.or · s.item) hnone
    · show s.held.or s.item = s.item
      rw [hsame]
      cases s.item <;> rfl
  | uploadCrl =>
    obtain ⟨crl, hheld, rfl⟩ := Option.map_eq_some_iff.mp hstep
    refine h.of_same rfl rfl rfl h.held ?_ h.runs
    rintro _ ⟨⟩
    exact (h.placed_held hheld).2
  | lambdaRead =>
    obtain ⟨crl, _, rfl⟩ := Option.map_eq_some_iff.mp hstep
    refine h.of_same rfl rfl rfl h.held h.published ?_
    intro published release hrun
    rcases List.mem_append.mp hrun with hbefore | hnew
    · exact h.runs published release hbefore
    · cases List.mem_singleton.mp hnew
  | lambdaDecide run started crlBatchEnabled =>
    dsimp only [publicCrl] at hstep
    split at hstep
    next =>
      cases hstep
      exact h.decided
    next => cases hstep
  | lambdaPut run =>
    dsimp only [publicCrl] at hstep
    split at hstep
    next hrun =>
      cases hstep
      refine h.of_same rfl rfl rfl h.held ?_ ?_
      · rintro _ ⟨⟩
        exact (h.runs _ _ (List.mem_of_getElem? hrun)).2
      · exact fun published release hrun =>
          h.runs published release (List.mem_of_mem_eraseIdx hrun)
    next => cases hstep

theorem PublicCrl.Starts.ordered (h : s.Starts) : s.Ordered := by
  refine ⟨h.counter, .inl h.held, fun crl hcrl => .inr (h.item crl hcrl), ?_, ?_, ?_⟩
  · intro crl hcrl
    exact ⟨.inr (h.published crl hcrl), fun item hitem => .inl (h.current crl hcrl item hitem)⟩
  · rw [h.pending]
    rintro _ ⟨⟩
  · rw [h.runs]
    intro _ _ hrun
    cases hrun

/-! ## The number of the public CRL -/

theorem NeverBack.refl (s : PublicCrl) : NeverBack s s := fun crl hcrl => ⟨crl, hcrl, le_refl _⟩

theorem NeverBack.trans {u : PublicCrl} (hst : NeverBack s t) (htu : NeverBack t u) :
    NeverBack s u := by
  intro crl hcrl
  obtain ⟨crl', hcrl', hle⟩ := hst crl hcrl
  obtain ⟨crl'', hcrl'', hle'⟩ := htu crl' hcrl'
  exact ⟨crl'', hcrl'', hle.trans hle'⟩

theorem neverBack_of_same (h : t.published = s.published) : NeverBack s t := by
  intro crl hcrl
  rw [← h] at hcrl
  exact ⟨crl, hcrl, le_refl _⟩

/-- A step in turn does not take the public CRL back. -/
theorem PublicCrl.Ordered.neverBack {l : PublicCrlStep} (h : s.Ordered) (hok : TakesTurns s l)
    (hstep : (publicCrl times).next s l = some t) : NeverBack s t := by
  cases l with
  | generateCrl now publishing =>
    dsimp only [publicCrl] at hstep
    split at hstep
    · cases hstep
      exact neverBack_of_same rfl
    · cases hstep
  | edit other =>
    cases hstep
    exact neverBack_of_same rfl
  | reload =>
    cases hstep
    exact neverBack_of_same rfl
  | getCrl =>
    cases hstep
    exact neverBack_of_same rfl
  | uploadCrl =>
    obtain ⟨held, hheld, rfl⟩ := Option.map_eq_some_iff.mp hstep
    intro crl hcrl
    refine ⟨held.readBack, rfl, ?_⟩
    obtain ⟨hitem, _⟩ := h.placed_held hheld
    rcases (h.published crl hcrl).behind held hitem with
      hle | ⟨first, rest, hpending, hnumber, later, hlater, heq⟩
    · exact hle
    · exact absurd heq (hok held hheld first rest hpending hnumber crl hcrl later hlater)
  | lambdaRead =>
    obtain ⟨crl, _, rfl⟩ := Option.map_eq_some_iff.mp hstep
    exact neverBack_of_same rfl
  | lambdaDecide run started crlBatchEnabled =>
    dsimp only [publicCrl] at hstep
    split at hstep
    next published _ =>
      cases hstep
      refine neverBack_of_same ?_
      unfold PublicCrl.decided
      split <;> rfl
    next => cases hstep
  | lambdaPut run =>
    dsimp only [publicCrl] at hstep
    split at hstep
    next published release hrun =>
      cases hstep
      intro crl hcrl
      rw [hok published release hrun] at hcrl
      cases hcrl
      exact ⟨release, rfl, (h.runs _ _ (List.mem_of_getElem? hrun)).1.le⟩
    next => cases hstep

/-- In every run whose writers take turns, the number of the public CRL never decreases. -/
theorem neverBack_of_turns (times : OpensslTimes) {s t : PublicCrl}
    (hs : ((publicCrl times).system.restrict TakesTurns).Reachable s)
    (hst : ((publicCrl times).system.restrict TakesTurns).Reaches s t) : NeverBack s t := by
  have hordered : ((publicCrl times).system.restrict TakesTurns).Invariant PublicCrl.Ordered :=
    ⟨fun hinit => PublicCrl.Starts.ordered hinit, fun h hstep => h.step hstep.2⟩
  refine System.Reaches.lift NeverBack.refl NeverBack.trans ?_ hs hst
  rintro s t l hreach ⟨hok, hstep⟩
  exact (hordered.reachable hreach).neverBack hok hstep

/-! ## A batch that is released -/

/-- A CA in batch mode. -/
def sampleSite : PublicCrl where
  db := .fromTables (newTables {
    crlBatchEnabled := some true
    text := fun column => if column = .caPrivateStore then some "s3://private" else none }) []
  item := none
  held := none
  pending := none
  published := none
  runs := []

theorem sampleSite_starts : sampleSite.Starts := by
  refine ⟨by decide, rfl, rfl, rfl, ?_, ?_, ?_⟩ <;> rintro _ ⟨⟩

/-- A batch is signed, its first CRL is uploaded, and a week later the Lambda has found
the second due. -/
def dueSteps : List PublicCrlStep :=
  [.generateCrl sampleStart ⟨.ok (), .ok (), .ok none, .ok ()⟩, .uploadCrl, .lambdaRead,
    .lambdaDecide 0 (sampleStart + 7 * day) true]

/-- Whether nothing is public where the desktop uploads, and what a run has read still is
where it writes. -/
def inTurn (s : PublicCrl) : PublicCrlStep → Bool
  | .uploadCrl => s.published.isNone
  | .lambdaPut run =>
    match s.runs[run]? with
    | some (.releasing published _) => s.published = some published
    | _ => true
  | _ => true

theorem takesTurns_of_inTurn (s : PublicCrl) (l : PublicCrlStep) (h : inTurn s l = true) :
    TakesTurns s l := by
  cases l with
  | uploadCrl =>
    intro held _ first rest _ _ crl hcrl
    rw [Option.isNone_iff_eq_none.mp h] at hcrl
    cases hcrl
  | lambdaPut run =>
    intro published release hrun
    dsimp only [inTurn] at h
    rw [hrun] at h
    simpa using h
  | _ => trivial

/-- What a step makes public is numbered. -/
def publishes (s : PublicCrl) (l : PublicCrlStep) (number : Int) : Bool :=
  ((publicCrl sampleTimes).next s l).any fun t =>
    t.published.map ReadCrl.published = some number

/-- The second CRL is released over the first. -/
theorem neverBack_released :
    ∃ s t, s.published.map ReadCrl.published = some 1 ∧
      t.published.map ReadCrl.published = some 2 ∧ NeverBack s t := by
  obtain ⟨s, hs, hview⟩ := Machine.exists_reachable_of_exec_guard takesTurns_of_inTurn
    (show (publicCrl sampleTimes).init sampleSite from sampleSite_starts) dueSteps
    (fun s => s.published.map ReadCrl.published = some 1 && inTurn s (.lambdaPut 0) &&
      publishes s (.lambdaPut 0) 2)
    (by decide)
  rw [Bool.and_eq_true, Bool.and_eq_true, decide_eq_true_eq] at hview
  obtain ⟨⟨hbefore, hturn⟩, hafter⟩ := hview
  obtain ⟨t, hstep, ht⟩ := (Option.any_eq_true _ _).mp hafter
  have hreaches : ((publicCrl sampleTimes).system.restrict TakesTurns).Reaches s t :=
    .step .refl ⟨takesTurns_of_inTurn _ _ hturn, hstep⟩
  exact ⟨s, t, hbefore, of_decide_eq_true ht, neverBack_of_turns sampleTimes hs hreaches⟩

/-- The desktop then uploads the first again. -/
theorem uploaded_over_released :
    ∃ s t, (publicCrl sampleTimes).system.Reachable s ∧
      (publicCrl sampleTimes).system.Reaches s t ∧ ¬NeverBack s t := by
  obtain ⟨s, hs, hview⟩ := Machine.exists_reachable_of_exec
    (show (publicCrl sampleTimes).init sampleSite from sampleSite_starts)
    (dueSteps ++ [.lambdaPut 0])
    (fun s => s.published.map ReadCrl.published = some 2 && publishes s .uploadCrl 1)
    (by decide)
  rw [Bool.and_eq_true, decide_eq_true_eq] at hview
  obtain ⟨t, hstep, ht⟩ := (Option.any_eq_true _ _).mp hview.2
  refine ⟨s, t, hs, .step .refl hstep, fun hback => ?_⟩
  obtain ⟨crl, hcrl, hnumber⟩ := Option.map_eq_some_iff.mp hview.1
  obtain ⟨crl', hcrl', hle⟩ := hback crl hcrl
  obtain ⟨_, hcrl'', hnumber'⟩ := Option.map_eq_some_iff.mp (of_decide_eq_true ht)
  cases hcrl'.symm.trans hcrl''
  rw [hnumber, hnumber'] at hle
  exact absurd hle (by decide)

end Opca.Core

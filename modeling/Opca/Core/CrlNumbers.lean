/-
  Core/CrlNumbers.lean --- the numbers of the CRLs that calls of `generate_crl` sign, one at
  a time and in batches, in a database that is rebuilt between them (`services/ca.rs`,
  `generate_crl`, `do_rebuild_database`).

  A call takes its numbers from the counter on and leaves the counter past them.  A rebuild
  starts the counter where it is told to.
-/
import Opca.Core.Recovery

set_option autoImplicit false

namespace Opca.Core

open Opca.Foundation Acme

variable {times : OpensslTimes} {now : Time} {db : CaDatabase}
  {stored uploaded : Except OpcaError Unit} {s t : Recovery}

/-! ## The CRLs of a call -/

namespace CrlCall

/-- The numbers of the CRLs that it signed. -/
def signed (call : CrlCall) : List Int :=
  call.given.filterMap fun
    | .crlNumber n => some n
    | _ => none

/-- The numbers of those that it stored or uploaded. -/
def out (call : CrlCall) : List Int :=
  call.given.filterMap fun
    | .crl n => some n
    | _ => none

theorem mem_signed {call : CrlCall} {n : Int} : n ∈ call.signed ↔ .crlNumber n ∈ call.given := by
  unfold signed
  rw [List.mem_filterMap]
  constructor
  · rintro ⟨g, hg, hn⟩
    cases g with
    | crlNumber m =>
      cases hn
      exact hg
    | _ => cases hn
  · intro hn
    exact ⟨_, hn, rfl⟩

/-- Its CRLs carry its numbers in order, and it puts out no others. -/
structure Numbered (call : CrlCall) : Prop where
  signed : call.signed = (List.range call.signed.length).map fun (i : Nat) => call.firstNumber + i
  out : ∀ n ∈ call.out, n ∈ call.signed

end CrlCall

/-- CRLs were signed under the counter's next numbers, and some of them are out. -/
structure CrlsOf (db : CaDatabase) (numbers : List Int) (s : CaDatabase) : Prop where
  inOrder : numbers =
    (List.range numbers.length).map fun (i : Nat) => db.tables.config.counter .crl + i
  given : ∃ out : List Int, (∀ n ∈ out, n ∈ numbers) ∧
    s.given = db.given ++ (numbers.map .crlNumber ++ out.map .crl)

variable {numbers : List Int}

theorem CrlsOf.of_given {s : CaDatabase} (h : s.given = db.given) : CrlsOf db [] s :=
  ⟨rfl, [], fun _ hn => absurd hn List.not_mem_nil, h.trans (List.append_nil _).symm⟩

theorem CrlsOf.keepsConfig {s t : CaDatabase} (h : CrlsOf db numbers s)
    (hst : KeepsConfig s t) : CrlsOf db numbers t := by
  refine ⟨h.inOrder, ?_⟩
  rw [hst.given]
  exact h.given

/-- More of them are put out. -/
theorem CrlsOf.putOut {s : CaDatabase} (h : CrlsOf db numbers s) {more : List Int}
    (hmore : ∀ n ∈ more, n ∈ numbers) :
    CrlsOf db numbers { s with given := s.given ++ more.map .crl } := by
  obtain ⟨out, hout, hgiven⟩ := h.given
  refine ⟨h.inOrder, out ++ more, ?_, ?_⟩
  · intro n hn
    exact (List.mem_append.mp hn).elim (hout n) (hmore n)
  · rw [hgiven, List.map_append]
    simp only [List.append_assoc]

/-- The call that signed them. -/
theorem CrlsOf.numbered {s : CaDatabase} (h : CrlsOf db numbers s) :
    (CrlCall.mk (db.tables.config.counter .crl) (s.given.drop db.given.length)).Numbered := by
  obtain ⟨out, hout, hgiven⟩ := h.given
  have hsigned : CrlCall.signed ⟨db.tables.config.counter .crl,
      numbers.map .crlNumber ++ out.map .crl⟩ = numbers := by
    simp [CrlCall.signed, List.filterMap_map]
  have hput : CrlCall.out ⟨db.tables.config.counter .crl,
      numbers.map .crlNumber ++ out.map .crl⟩ = out := by
    simp [CrlCall.out, List.filterMap_map]
  rw [hgiven, List.drop_left]
  refine ⟨?_, ?_⟩
  · rw [hsigned]
    exact h.inOrder
  · rw [hsigned, hput]
    exact hout

/-- What keeps the configuration and gives nothing. -/
theorem ensures_crls {α : Type} {m : DbM α} (h : Moves KeepsConfig m) :
    Ensures (CrlsOf db numbers) m (fun _ => CrlsOf db numbers)
      (fun s => ∃ numbers, CrlsOf db numbers s) :=
  (h.keep fun _ _ hs hst => hs.keepsConfig hst).failing fun _ hs => ⟨numbers, hs⟩

theorem recordBatch_crls (batchUri : Option String) (batch : CrlBatch) :
    Ensures (CrlsOf db numbers) (recordBatch batchUri batch) (fun _ => CrlsOf db numbers)
      (fun s => ∃ numbers, CrlsOf db numbers s) := by
  cases batchUri with
  | none => exact ensures_crls clearCrlBatch_moves
  | some uri =>
    have hupdate : Ensures (CrlsOf db numbers)
        (updateConfig { nextCrlSerial := some (wrapI64 (batch.firstNumber + batch.count)) })
        (fun _ => CrlsOf db numbers) (fun s => ∃ numbers, CrlsOf db numbers s) :=
      fun s hs => ⟨hs.inOrder, hs.given⟩
    exact hupdate.bind fun _ => ensures_crls (upsertCrlBatch_moves batch)

/-- The numbers of a batch that fits below the largest. -/
theorem CrlBatch.numbers_eq (batch : CrlBatch)
    (hroom : batch.firstNumber + batch.count ≤ i64Max) : batch.numbers =
      (List.range batch.numbers.length).map fun (i : Nat) => batch.firstNumber + i := by
  have hlength : batch.numbers.length = batch.count := by
    rw [CrlBatch.numbers, List.length_map, List.length_range]
  rw [hlength]
  exact List.map_congr_left fun i hi => CrlBatch.number_eq hroom (List.mem_range.mp hi)

theorem publishCrls_crls {batchUri : Option String} {batch : CrlBatch}
    {entries : List CrlEntry} {publishing : Publishing}
    (hroom : batch.firstNumber + batch.count ≤ i64Max)
    (hfirst : batch.firstNumber = db.tables.config.counter .crl) :
    Ensures (CrlsOf db []) (publishCrls times batchUri batch entries publishing)
      (fun crls => CrlsOf db (crls.map SignedCrl.number))
      (fun s => ∃ numbers, CrlsOf db numbers s) := by
  have hbuild : Ensures (CrlsOf db [])
      (outcome (buildCrls batch entries publishing.signed) : DbM (List SignedCrl))
      (fun crls s => buildCrls batch entries publishing.signed = .ok crls ∧ CrlsOf db [] s)
      (fun s => ∃ numbers, CrlsOf db numbers s) :=
    .outcome (fun _ _ h hs => ⟨h, hs⟩) fun _ hs => ⟨[], hs⟩
  refine hbuild.bind fun crls => .of_and fun hcrls => ?_
  have hnumbers := numbers_of_buildCrls hcrls
  have hgive : Ensures (CrlsOf db []) (giveAll (crls.map (.crlNumber ·.number)))
      (fun _ => CrlsOf db (crls.map SignedCrl.number))
      (fun s => ∃ numbers, CrlsOf db numbers s) := by
    refine .modify fun s hs => ⟨?_, [], fun _ hn => absurd hn List.not_mem_nil, ?_⟩
    · rw [hnumbers, ← hfirst]
      exact batch.numbers_eq hroom
    · obtain ⟨out, hout, hgiven⟩ := hs.given
      have hnone : out = [] := List.eq_nil_iff_forall_not_mem.mpr fun n hn =>
        List.not_mem_nil (hout n hn)
      rw [hgiven, hnone]
      simp [Function.comp_def]
  refine (recordBatch_crls batchUri batch).bind fun _ => hgive.bind fun _ => ?_
  refine (ensures_crls .outcome).bind fun issuer => ?_
  refine (ensures_crls (upsertCrlMetadata_moves _)).bind fun _ => ?_
  refine (ensures_crls .outcome).bind fun _ => ?_
  have hout : Ensures (CrlsOf db (crls.map SignedCrl.number))
      (giveAll ((crls.take 1).map (.crl ·.number)))
      (fun _ => CrlsOf db (crls.map SignedCrl.number))
      (fun s => ∃ numbers, CrlsOf db numbers s) := by
    refine .modify fun s hs => ?_
    have hfirst : ∀ n ∈ (crls.take 1).map SignedCrl.number, n ∈ crls.map SignedCrl.number :=
      fun n hn => List.map_subset _ (List.take_subset 1 crls) hn
    have hput := hs.putOut hfirst
    rwa [List.map_map] at hput
  exact hout.bind fun _ => .pure fun _ hs => hs

theorem generateCrl_crls {publishing : Publishing}
    (hroom : ∀ uri, crlBatchUri db.tables.config.read = .ok uri →
      db.tables.config.counter .crl + (crlPlan db.tables.config.read uri).2 ≤ i64Max) :
    Ensures (KeepsConfig db) (generateCrl times now publishing)
      (fun crls => CrlsOf db (crls.map SignedCrl.number))
      (fun s => ∃ numbers, CrlsOf db numbers s) := by
  have hbefore : ∀ {α : Type} {m : DbM α}, Moves KeepsConfig m →
      Ensures (KeepsConfig db) m (fun _ => KeepsConfig db)
        (fun s => ∃ numbers, CrlsOf db numbers s) :=
    fun h => (h db).failing fun _ hs => ⟨[], .of_given hs.given⟩
  refine (hbefore (processCaDatabase_moves _ _ _ _)).bind fun _ => ?_
  have hget : Ensures (KeepsConfig db) (MonadState.get : DbM CaDatabase)
      (fun read s => read.tables.config = db.tables.config ∧ KeepsConfig db s)
      (fun s => ∃ numbers, CrlsOf db numbers s) :=
    .get fun s hs => ⟨hs.config, hs⟩
  refine hget.bind fun read => .of_and fun hconfig => ?_
  rw [hconfig]
  have huri : Ensures (KeepsConfig db) (outcome (crlBatchUri db.tables.config.read) : DbM _)
      (fun uri s => crlBatchUri db.tables.config.read = .ok uri ∧ KeepsConfig db s)
      (fun s => ∃ numbers, CrlsOf db numbers s) :=
    .outcome (fun _ _ h hs => ⟨h, hs⟩) fun _ hs => ⟨[], .of_given hs.given⟩
  refine huri.bind fun batchUri => .of_and fun hbatchUri => ?_
  refine (hbefore Moves.outcome).bind fun _ => ?_
  refine (hbefore crlEntries_moves).bind fun entries => ?_
  have htake : Ensures (KeepsConfig db) (incrementSerial .crl none)
      (fun n s => n = db.tables.config.counter .crl ∧ CrlsOf db [] s)
      (fun s => ∃ numbers, CrlsOf db numbers s) := by
    intro s hs
    refine ⟨?_, .of_given hs.given⟩
    show s.tables.config.counter .crl = db.tables.config.counter .crl
    rw [hs.config]
  refine htake.bind fun firstNumber => .of_and fun hfirst => ?_
  refine publishCrls_crls ?_ hfirst
  rw [show (plannedBatch db.tables.config.read batchUri (wholeSeconds now)
    firstNumber).firstNumber = db.tables.config.counter .crl from hfirst]
  exact hroom batchUri hbatchUri

/-- With what it stores and uploads. -/
theorem finish_crls {publishing : Publishing}
    (hok : (Operation.generateCrl now publishing).RaisesCounters db) :
    ∃ numbers, CrlsOf db numbers
      ((Operation.generateCrl now publishing).finish times stored uploaded db).1 := by
  have hrun : Ensures (KeepsConfig db) ((Operation.generateCrl now publishing).run times)
      (fun result s => ∃ issued, result = some issued ∧ CrlsOf db issued.crlNumbers s)
      (fun s => ∃ numbers, CrlsOf db numbers s) :=
    (generateCrl_crls hok).map fun crls s hs => ⟨_, rfl, hs⟩
  unfold Operation.finish
  cases hop : (Operation.generateCrl now publishing).run times db with
  | error e after => exact hrun.error (Std.Refl.refl db) hop
  | ok result after =>
    obtain ⟨issued, rfl, hcrls⟩ := hrun.ok (Std.Refl.refl db) hop
    cases stored with
    | error e => exact ⟨_, hcrls⟩
    | ok u =>
      have hnothing : Ensures (CrlsOf db issued.crlNumbers) (Pure.pure () : DbM Unit)
          (fun _ => CrlsOf db issued.crlNumbers) (CrlsOf db issued.crlNumbers) :=
        .pure fun _ hs => hs
      have hupload : Ensures (CrlsOf db issued.crlNumbers)
          ((Operation.generateCrl now publishing).upload db.tables.config issued uploaded)
          (fun _ => CrlsOf db issued.crlNumbers) (CrlsOf db issued.crlNumbers) := by
        unfold Operation.upload
        dsimp only
        split
        next batchUri _ =>
          cases batchUri with
          | none => exact hnothing
          | some uri =>
            refine Ensures.bind (.outcome (fun _ _ _ hs => hs) fun _ hs => hs) fun _ => ?_
            exact .modify fun s hs => hs.putOut fun _ hn => hn
        next => exact hnothing
      dsimp only
      split
      next hup => exact ⟨_, hupload.ok hcrls hup⟩
      next hup => exact ⟨_, hupload.error hcrls hup⟩

/-! ## Rebuilding the document -/

/-- The next CRL number is as it was, and nothing was given. -/
structure KeepsCrl (before after : CaDatabase) : Prop where
  counter : after.tables.config.counter .crl = before.tables.config.counter .crl
  given : after.given = before.given

instance : Std.Refl KeepsCrl where
  refl _ := ⟨rfl, rfl⟩

instance : IsTrans CaDatabase KeepsCrl where
  trans _ _ _ hab hbc := ⟨hbc.counter.trans hab.counter, hbc.given.trans hab.given⟩

theorem KeepsConfig.keepsCrl {s t : CaDatabase} (h : KeepsConfig s t) : KeepsCrl s t :=
  ⟨by rw [h.config], h.given⟩

theorem updateConfig_keepsCrl {updates : CaConfig} (h : updates.nextCrlSerial = none) :
    Moves KeepsCrl (updateConfig updates) := by
  refine .of_step (fun s _ t hst => ?_) fun s e t hst => by cases hst
  cases hst
  refine ⟨?_, rfl⟩
  simp [CaConfig.counter, CaConfig.update, h]

theorem addCert_keepsCrl (record : CertRecord) : Moves KeepsCrl (addCert record) := by
  have hmoves := addCert_moves record
  refine .of_step (fun s a t hst => ?_) fun s e t hst => ?_
  · exact ((hmoves s).ok (Std.Refl.refl s) hst).keepsCrl
  · exact ((hmoves s).error (Std.Refl.refl s) hst).keepsCrl

theorem rebuildDatabase_keepsCrl {bundle : ConfigText → Option String}
    {read : Except OpcaError (List Item)} :
    Moves KeepsCrl (rebuildDatabase times now bundle read) := by
  refine (updateConfig_keepsCrl rfl).bind fun _ => ?_
  refine Moves.outcome.bind fun items => ?_
  refine Moves.outcome.bind fun _ => ?_
  refine (Moves.forM (fun item => addCert_keepsCrl _) _).bind fun _ => ?_
  refine Moves.get.bind fun db => ?_
  split
  · exact .pure
  · exact updateConfig_keepsCrl rfl

/-- A rebuilt CA goes on from the CRL number that it is configured with. -/
theorem rebuilt_keepsCrl {config : CaConfig} {bundle : ConfigText → Option String}
    {read : Except OpcaError (List Item)} {given : List Given}
    (h : rebuilt times now config bundle read given = some db) :
    db.tables.config.counter .crl = config.counter .crl ∧ db.given = given := by
  unfold rebuilt at h
  split at h
  next hrun =>
    cases h
    have hkeeps := (rebuildDatabase_keepsCrl _).ok (Std.Refl.refl _) hrun
    exact ⟨hkeeps.counter, hkeeps.given⟩
  next => cases h

/-- The process does not end but for a rebuild. -/
def InSession (_ : Recovery) : RecoveryStep → Prop
  | .reload => False
  | _ => True

/-- And a rebuild goes on from a number past those of the CRLs that were signed. -/
def RebuiltPast (s : Recovery) : RecoveryStep → Prop
  | .found _ _ _ => True
  | .operate op _ _ => ∀ db ∈ s.ca, op.RaisesCounters db
  | .reload => False
  | .rebuild config _ _ _ _ => ∀ call ∈ s.calls, ∀ n ∈ call.signed, n < config.counter .crl

/-- Every CRL carries a number greater than those of earlier calls, and of its batch the
next one. -/
structure NumbersIncrease (s : Recovery) : Prop where
  increase : s.calls.Pairwise fun earlier later =>
    ∀ m ∈ earlier.signed, ∀ n ∈ later.signed, m < n
  numbered : ∀ call ∈ s.calls, call.Numbered

/-- And the counter is past them. -/
structure CrlsCounted (s : Recovery) : Prop extends NumbersIncrease s where
  past : ∀ db ∈ s.ca, ∀ call ∈ s.calls, ∀ n ∈ call.signed, n < db.tables.config.counter .crl

theorem crlsCounted_operate {op : Operation} (hok : ∀ db ∈ s.ca, op.RaisesCounters db)
    (hstep : (recovery times).system.step s (.operate op stored uploaded) t)
    (hs : CrlsCounted s) : CrlsCounted t := by
  obtain ⟨db, hdb, hafter, hcalls⟩ := recovery_operate hstep
  have hgrows : Grows False db (op.finish times stored uploaded db).1 :=
    finish_grows (hok db hdb) False.elim
  have hsame : t.calls = s.calls → CrlsCounted t := by
    intro h
    refine ⟨⟨?_, ?_⟩, ?_⟩
    · rw [h]
      exact hs.increase
    · rw [h]
      exact hs.numbered
    · intro after hafter' call hcall n hn
      rw [hafter] at hafter'
      cases hafter'
      rw [h] at hcall
      exact lt_of_lt_of_le (hs.past db hdb call hcall n hn) (hgrows.counter .crl)
  cases op with
  | generateCrl now publishing =>
    obtain ⟨numbers, hcrls⟩ : ∃ numbers, CrlsOf db numbers
        ((Operation.generateCrl now publishing).finish times stored uploaded db).1 :=
      finish_crls (hok db hdb)
    obtain ⟨more, hgiven, hwithin, _⟩ := hgrows.given
    have hcall := hcrls.numbered
    have hcalls : t.calls = s.calls ++ [⟨db.tables.config.counter .crl, more⟩] := by
      rw [hcalls, Recovery.callsAfter, hgiven, List.drop_left]
    rw [hgiven, List.drop_left] at hcall
    refine ⟨⟨?_, ?_⟩, ?_⟩
    · rw [hcalls]
      refine List.pairwise_append.mpr ⟨hs.increase, List.pairwise_singleton _ _, ?_⟩
      intro earlier hearlier later hlater m hm n hn
      rw [List.mem_singleton.mp hlater] at hn
      exact lt_of_lt_of_le (hs.past db hdb earlier hearlier m hm)
        (hwithin _ (CrlCall.mem_signed.mp hn)).1
    · intro call hmem
      rw [hcalls] at hmem
      rcases List.mem_append.mp hmem with hmem | hmem
      · exact hs.numbered call hmem
      · rw [List.mem_singleton.mp hmem]
        exact hcall
    · intro after hafter' call hmem n hn
      rw [hafter] at hafter'
      cases hafter'
      rw [hcalls] at hmem
      rcases List.mem_append.mp hmem with hmem | hmem
      · exact lt_of_lt_of_le (hs.past db hdb call hmem n hn) (hgrows.counter .crl)
      · rw [List.mem_singleton.mp hmem] at hn
        exact (hwithin _ (CrlCall.mem_signed.mp hn)).2
  | _ => exact hsame hcalls

theorem crlsCounted_reachable
    (hs : ((recovery times).system.restrict RebuiltPast).Reachable s) : CrlsCounted s := by
  refine System.Invariant.reachable (P := CrlsCounted) ?_ hs
  constructor
  · rintro _ rfl
    refine ⟨⟨List.Pairwise.nil, fun call hcall => absurd hcall List.not_mem_nil⟩, ?_⟩
    exact fun db hdb => by cases hdb
  · rintro s t step hs ⟨hok, hstep⟩
    cases step with
    | found founding stored now =>
      obtain ⟨db, _, rfl⟩ := recovery_found hstep
      refine ⟨⟨List.Pairwise.nil, fun call hcall => absurd hcall List.not_mem_nil⟩, ?_⟩
      exact fun _ _ call hcall => absurd hcall List.not_mem_nil
    | operate op stored uploaded => exact crlsCounted_operate hok hstep hs
    | reload => exact hok.elim
    | rebuild config bundle read stored now =>
      obtain ⟨before, after, hbefore, hafter, rfl⟩ := recovery_rebuild hstep
      refine ⟨⟨hs.increase, hs.numbered⟩, ?_⟩
      rintro db ⟨⟩ call hcall n hn
      rw [(rebuilt_keepsCrl hafter).1]
      exact hok call hcall n hn

/-- **CRL numbers strictly increase**, in every run in which a rebuild goes on past those
that were signed. -/
theorem numbersIncrease_of_rebuiltPast (times : OpensslTimes) {s : Recovery}
    (hs : ((recovery times).system.restrict RebuiltPast).Reachable s) : NumbersIncrease s :=
  (crlsCounted_reachable hs).toNumbersIncrease

/-- The CRL is signed and stored, with what uploading its batch answers. -/
def crlUploading (uploaded : Except OpcaError Unit) : RecoveryStep :=
  .operate (.generateCrl sampleStart ⟨.ok (), .ok (), .ok none, .ok ()⟩) (.ok ()) uploaded

/-- Batch mode is switched on. -/
def switchOn : RecoveryStep :=
  .operate (.updateCaConfig {
    text
      | .caPrivateStore => some "s3://ca"
      | _ => none
    crlBatchEnabled := some true }) (.ok ()) (.ok ())

/-- The database is rebuilt from no items, to go on from a CRL number if it is given. -/
def rebuildFrom (nextCrlSerial : Option Int) : RecoveryStep :=
  .rebuild { nextCrlSerial } (fun _ => none) (.ok []) (.ok ()) sampleStart

/-- A check for `RebuiltPast`, of runs that sign CRLs. -/
def rebuiltPastCheck (s : Recovery) : RecoveryStep → Bool
  | .found _ _ _ => true
  | .operate (.generateCrl _ _) _ _ => s.ca.all fun db =>
    match crlBatchUri db.tables.config.read with
    | .ok uri =>
      db.tables.config.counter .crl + (crlPlan db.tables.config.read uri).2 ≤ i64Max
    | .error _ => true
  | .operate (.updateCaConfig updates) _ _ => s.ca.all fun db =>
    [SerialType.cert, .crl].all fun kind =>
      db.tables.config.counter kind ≤ (db.tables.config.update updates).counter kind
  | .rebuild config _ _ _ _ => s.calls.all fun call =>
    call.signed.all fun n => n < config.counter .crl
  | _ => false

theorem rebuiltPast_of_check (s : Recovery) (step : RecoveryStep)
    (h : rebuiltPastCheck s step = true) : RebuiltPast s step := by
  cases step with
  | found founding stored now => trivial
  | operate op stored uploaded =>
    intro db hdb
    cases op with
    | generateCrl now publishing =>
      intro uri huri
      have hroom := (Option.all_eq_true _ _).mp h db hdb
      rw [huri] at hroom
      exact of_decide_eq_true hroom
    | updateCaConfig updates =>
      intro kind
      have hkinds := List.all_eq_true.mp ((Option.all_eq_true _ _).mp h db hdb)
      refine of_decide_eq_true (hkinds kind ?_)
      cases kind <;> decide
    | _ => cases h
  | reload => cases h
  | rebuild config bundle read stored now =>
    intro call hcall n hn
    exact of_decide_eq_true (List.all_eq_true.mp (List.all_eq_true.mp h call hcall) n hn)

/-- A CRL, a batch whose upload fails, and a CRL of the rebuilt database. -/
theorem numbersIncrease_rebuilt :
    ∃ s : Recovery, s.calls.map CrlCall.signed = [[1], [2, 3, 4, 5, 6], [7]] ∧
      NumbersIncrease s := by
  obtain ⟨s, hs, hview⟩ := Machine.exists_reachable_of_exec_guard rebuiltPast_of_check
    (show (recovery sampleTimes).init ⟨none, none, []⟩ from rfl)
    [.found sampleFounding (.ok ()) sampleStart, crlUploading (.ok ()), switchOn,
      crlUploading (.error (.other "timed out")), rebuildFrom (some 7), crlUploading (.ok ())]
    (fun s => s.calls.map CrlCall.signed = [[1], [2, 3, 4, 5, 6], [7]])
    (by decide +kernel)
  exact ⟨s, of_decide_eq_true hview, numbersIncrease_of_rebuiltPast sampleTimes hs⟩

def inSessionCheck (_ : Recovery) : RecoveryStep → Bool
  | .reload => false
  | _ => true

theorem inSession_of_check (s : Recovery) (step : RecoveryStep)
    (h : inSessionCheck s step = true) : InSession s step := by
  cases step with
  | reload => cases h
  | _ => trivial

/-- A database that is rebuilt with nothing said of CRL numbers starts at 1 again. -/
theorem crlNumber_again :
    ¬ ∀ s, ((recovery sampleTimes).system.restrict InSession).Reachable s →
      NumbersIncrease s := by
  intro hclaim
  obtain ⟨s, hs, hview⟩ := Machine.exists_reachable_of_exec_guard inSession_of_check
    (show (recovery sampleTimes).init ⟨none, none, []⟩ from rfl)
    [.found sampleFounding (.ok ()) sampleStart, crlUploading (.ok ()), rebuildFrom none,
      crlUploading (.ok ())]
    (fun s => s.calls.map CrlCall.signed = [[1], [1]])
    (by decide +kernel)
  have hincrease : (s.calls.map CrlCall.signed).Pairwise fun earlier later =>
      ∀ m ∈ earlier, ∀ n ∈ later, m < n :=
    List.pairwise_map.mpr (hclaim s hs).increase
  rw [of_decide_eq_true hview] at hincrease
  exact absurd (List.rel_of_pairwise_cons hincrease List.mem_cons_self 1 (by decide) 1 (by decide))
    (by decide)

end Opca.Core

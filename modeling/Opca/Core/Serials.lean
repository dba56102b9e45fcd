/-
  Core/Serials.lean --- no serial that the CA gives a certificate is that of another one
  of its own (`services/ca.rs`, `services/database/mod.rs`, `increment_serial`).

  The counter is past every one that the CA made.  Of those that it takes up from outside,
  its own certificate when a CA is imported and what is imported out of its validity, the
  counter is past only if it was before.
-/
import Opca.Core.Listed

set_option autoImplicit false

namespace Opca.Core

open Opca.Foundation Acme

variable {times : OpensslTimes} {own : Prop} {now : Time} {db s t : CaDatabase}

/-- The serial of a CA that is imported is below the one that it gives first. -/
def Founding.Below : Founding → Prop
  | .init config _ _ _ => config.counter .cert < i64Max
  | .importCa config cert _ _ => ∀ n, parseI64 cert.serial = some n → n < config.counter .cert

/-- What is taken up from outside is below the counter, which stays within its type and is
set to nothing lower. -/
def SerialsBelow (l : Life) : Event → Prop
  | .found founding _ => founding.Below
  | .operate op _ => ∀ db ∈ l.ca, op.RaisesCounters db ∧ op.ImportsBelow db
  | .reopen => True

/-! ## Founding -/

theorem storeCa_ensures {cert : CertAttribs} {serial : String} {stored : Except OpcaError Unit}
    {P : CaDatabase → Prop} (hP : ∀ s t, P s → Grows own s t → P t)
    (hitem : ∀ s, P s → Given.Within own s s (.item serial)) :
    Ensures P (storeCa times now cert serial stored) (fun _ => P) P :=
  storeCertbundle_ensures hP (addCert_moves _) fun _ => hitem

theorem Founding.run_ensures {founding : Founding} (h : founding.Below)
    (hdb : db.tables.config.counter .cert = founding.config.counter .cert) :
    Ensures (KeepsConfig db) (founding.run times now) (fun _ => Grows own db) (Grows own db) := by
  cases founding with
  | init config cert signed stored =>
    refine (ensures_before .outcome).bind fun _ => ?_
    have hcurrent : db.tables.config.current .cert none < i64Max := by
      show db.tables.config.counter .cert < i64Max
      rw [hdb]
      exact h
    refine (incrementSerial_ensures hcurrent).bind fun serial => .of_and fun _ => ?_
    refine giveSerial_ensures.bind fun _ => ?_
    refine (storeCa_ensures (fun _ _ hs hst => hs.of_grows hst) ?_).imp (fun _ hs => hs)
      (fun _ _ hs => hs.grows) fun _ hs => hs.grows
    intro s hs _ n hn
    rw [eq_of_parseI64_toString hn]
    exact Int.lt_of_add_one_le hs.upper
  | importCa config cert read stored =>
    refine (ensures_before .outcome).bind fun _ => ?_
    refine (storeCa_ensures (fun _ _ hs hst => hs.trans hst) ?_).imp (fun _ hs => hs.grows)
      (fun _ _ hs => hs) fun _ hs => hs
    intro s hs _ n hn
    refine lt_of_lt_of_le (h n hn) ?_
    rw [← show db.tables.config.counter .cert = config.counter .cert from hdb]
    exact hs.counter .cert

theorem found_inOrder {founding : Founding} (h : founding.Below)
    (hfound : founding.found times now = some db) : InOrder own db := by
  unfold Founding.found at hfound
  split at hfound
  next hrun =>
    cases hfound
    have hgrows : Grows own (.fromTables (newTables founding.config) []) db :=
      (founding.run_ensures h rfl).ok (Std.Refl.refl _) hrun
    refine InOrder.grows ⟨List.Pairwise.nil, ?_⟩ hgrows
    exact fun g hg => absurd hg List.not_mem_nil
  next => cases hfound

/-! ## Runs -/

theorem Operation.after_grows {op : Operation} (hok : op.RaisesCounters db)
    (hbelow : own → op.ImportsBelow db) : Grows own db (op.after times db) := by
  have hrun := op.run_ensures times hok hbelow
  unfold Operation.after
  cases hop : op.run times db with
  | ok result t => exact (hrun.ok (Std.Refl.refl db) hop).1
  | error e t => exact hrun.error (Std.Refl.refl db) hop

/-- One step of a CA that is there. -/
theorem grows_of_step {l l' : Life} {e : Event} (hok : SerialsBelow l e)
    (hstep : (life times).next l e = some l') (hdb : l.ca = some db) :
    ∃ db', l'.ca = some db' ∧ Grows True db db' := by
  rcases next_of_ca hstep hdb with ⟨op, now, rfl, -, -, rfl⟩ | ⟨rfl, rfl⟩
  · obtain ⟨hraises, hbelow⟩ := hok db hdb
    exact ⟨_, rfl, op.after_grows hraises fun _ => hbelow⟩
  · exact ⟨_, rfl, KeepsConfig.grows ⟨.refl _, rfl, rfl⟩⟩

theorem inOrder_reachable {l : Life}
    (hl : ((life times).system.restrict SerialsBelow).Reachable l) (hdb : l.ca = some db) :
    InOrder True db := by
  refine System.Invariant.reachable (P := fun l => ∀ db ∈ l.ca, InOrder True db) ?_ hl db hdb
  constructor
  · intro l hinit db hdb
    rw [show l.ca = none from hinit] at hdb
    cases hdb
  · rintro l l' e hl ⟨hok, hstep⟩ db hdb
    cases hca : l.ca with
    | some before =>
      obtain ⟨db', hdb', hgrows⟩ := grows_of_step hok hstep hca
      rw [show l'.ca = some db from hdb] at hdb'
      cases hdb'
      exact (hl before hca).grows hgrows
    | none =>
      obtain ⟨founding, now, ⟨rfl, _⟩, hfound⟩ := found_of_step hstep hca hdb
      exact found_inOrder hok hfound

/-! ## Serials -/

/-- A row is of a certificate whose item is there. -/
def RowsGiven (db : CaDatabase) : Prop := ∀ c ∈ db.rows, .item c.serial ∈ db.given

theorem rowsGiven_kept {may : Time → CertRecord → Prop} :
    Kept times may fun _ => RowsGiven := by
  refine ⟨fun _ h => h, ?_, fun h => h⟩
  intro now s t heffect hs
  obtain ⟨more, hgiven⟩ := heffect.given
  have hstays : ∀ {serial : String}, .item serial ∈ s.given → .item serial ∈ t.given := by
    intro serial hitem
    rw [hgiven]
    exact List.mem_append_left _ hitem
  have hmap : ∀ {f : CertRecord → CertRecord}, (∀ c, (f c).serial = c.serial) →
      t.rows = s.rows.map f → RowsGiven t := by
    intro f hf hrows c hc
    rw [hrows] at hc
    obtain ⟨before, hbefore, rfl⟩ := List.mem_map.mp hc
    rw [hf]
    exact hstays (hs before hbefore)
  have hsame : t.rows = s.rows → RowsGiven t := by
    intro hrows c hc
    rw [hrows] at hc
    exact hstays (hs c hc)
  cases heffect with
  | elsewhere hrows => exact hsame hrows
  | gave _ _ ht => exact hsame (by rw [ht]; rfl)
  | edited f hf hrows => exact hmap (fun c => (hf c).serial) hrows
  | added cert serial title hitem hnew hrows =>
    intro c hc
    rw [hrows] at hc
    rcases List.mem_append.mp hc with hc | hc
    · exact hstays (hs c hc)
    · rw [List.mem_singleton.mp hc]
      exact hstays hitem
  | scanned hrows => exact hmap (fun _ => processCert_serial _ _ _ _) hrows
  | revoked serial hfound h => exact hmap (fun _ => processCert_serial _ _ _ _) h.rows
  | hid serial hfound hrows =>
    refine hmap (fun c => ?_) hrows
    rcases hide_cases serial (times.format now) c with h | ⟨_, h⟩ <;> rw [h]
  | enrolled _ _ _ hrows => exact hsame hrows
  | moved _ _ hrows => exact hsame hrows

/-- No serial that is given is that of a certificate that was recorded before. -/
structure SerialsUnique (S : System Life Event) (l : Life) : Prop where
  /-- A serial is above those given before, and not one of an item that was there. -/
  unique : ∀ db ∈ l.ca, db.given.Pairwise fun g g' => ∀ n, g' = .serial n →
    (∀ m, g = .serial m → m < n) ∧ ∀ text, g = .item text → parseI64 text ≠ some n
  /-- Every row has its item, -/
  recorded : ∀ db ∈ l.ca, RowsGiven db
  /-- and a serial that is given in a step takes the counter past it. -/
  rises : ∀ e l', S.step l e l' → ∀ db ∈ l.ca, ∃ db', l'.ca = some db' ∧
    db.tables.config.counter .cert ≤ db'.tables.config.counter .cert ∧
    ∃ more, db'.given = db.given ++ more ∧ ∀ n, .serial n ∈ more →
      db.tables.config.counter .cert ≤ n ∧ n < db'.tables.config.counter .cert

/-- **Certificate serials are unique**, in every run in which what is taken up from outside
is below the counter. -/
theorem serialsUnique_of_below (times : OpensslTimes) {l : Life}
    (hl : ((life times).system.restrict SerialsBelow).Reachable l) :
    SerialsUnique ((life times).system.restrict SerialsBelow) l := by
  refine ⟨?_, ?_, ?_⟩
  · intro db hdb
    refine (inOrder_reachable hl hdb).before.imp ?_
    rintro g _ hbefore n rfl
    refine ⟨?_, ?_⟩
    · rintro m rfl
      exact hbefore
    · rintro text rfl
      exact hbefore trivial
  · intro db hdb
    have hkept : Kept times (fun _ _ => True) fun _ => RowsGiven := rowsGiven_kept
    refine hkept.reachable (hkept.found ?_) (hl.of_restrict.restrict only_any) hdb
    intro now config c hc
    cases hc
  · rintro e l' ⟨hok, hstep⟩ db hdb
    obtain ⟨db', hdb', hgrows⟩ := grows_of_step hok hstep hdb
    obtain ⟨more, hgiven, hwithin, _⟩ := hgrows.given
    exact ⟨db', hdb', hgrows.counter .cert, more, hgiven, fun n hn => hwithin _ hn⟩

/-- An imported CA whose first serial is given. -/
def importedFounding (serial : String) (nextSerial : Int) : Founding :=
  .importCa { nextSerial := some nextSerial, crlBatchEnabled := some false }
    ⟨serial, sampleCert "ca" "ca", 0, true, "ca", "CN=ca"⟩ (.ok ()) (.ok ())

/-- The CA issues a server's certificate. -/
def generateAt (now : Time) : Operation :=
  .generate "www" (sampleCert "www" "webserver") ⟨.ok (), .ok (), .ok ()⟩ now

/-- A check for `SerialsBelow`, of runs that import a CA and issue. -/
def belowCheck (l : Life) : Event → Bool
  | .found (.importCa config cert _ _) _ =>
    (parseI64 cert.serial).all fun n => n < config.counter .cert
  | .operate (.generate _ _ _ _) _ =>
    l.ca.all fun db => db.tables.config.counter .cert < i64Max
  | _ => false

theorem below_of_check (l : Life) (e : Event) (h : belowCheck l e = true) :
    SerialsBelow l e := by
  cases e with
  | found founding now =>
    cases founding with
    | init config cert signed stored => cases h
    | importCa config cert read stored =>
      intro n hn
      unfold belowCheck at h
      dsimp only at h
      rw [hn] at h
      simpa using h
  | operate op now =>
    intro db hdb
    cases op with
    | generate itemTitle cert signing at_ =>
      unfold belowCheck at h
      dsimp only at h
      rw [show l.ca = some db from hdb] at h
      have hroom : db.tables.config.counter .cert < i64Max := by simpa using h
      exact ⟨hroom, trivial⟩
    | _ => cases h
  | reopen => trivial

/-- A CA of serial 7 is imported to go on from 8. -/
theorem serialsUnique_imported :
    ∃ l : Life, (l.ca.map CaDatabase.given) = some [.item "7", .serial 8, .item "8"] ∧
      SerialsUnique ((life sampleTimes).system.restrict SerialsBelow) l := by
  obtain ⟨l, hl, hview⟩ := Machine.exists_reachable_of_exec_guard below_of_check
    (show (life sampleTimes).init ⟨none, 0⟩ from rfl)
    [.found (importedFounding "7" 8) sampleStart,
      .operate (generateAt sampleStart) sampleStart]
    (fun l => l.ca.map CaDatabase.given = some [.item "7", .serial 8, .item "8"])
    (by decide)
  exact ⟨l, of_decide_eq_true hview, serialsUnique_of_below sampleTimes hl⟩

/-- A CA whose own serial is 1 is imported with nothing said of serials, and issues: its
first certificate has serial 1, and its item is stored. -/
theorem serial_ofCa :
    ¬ ∀ l, (life sampleTimes).system.Reachable l →
      SerialsUnique (life sampleTimes).system l := by
  intro hclaim
  obtain ⟨l, hl, hview⟩ := Machine.exists_reachable_of_exec
    (show (life sampleTimes).init ⟨none, 0⟩ from rfl)
    [.found (importedFounding "1" 1) sampleStart,
      .operate (generateAt sampleStart) sampleStart]
    (fun l => l.ca.map CaDatabase.given = some [.item "1", .serial 1, .item "1"])
    (by decide)
  obtain ⟨db, hdb, hgiven⟩ := Option.map_eq_some_iff.mp (of_decide_eq_true hview)
  have hunique := (hclaim l hl).unique db hdb
  rw [hgiven] at hunique
  have hfirst := (List.pairwise_cons.mp hunique).1 (.serial 1) List.mem_cons_self
  exact (hfirst 1 rfl).2 "1" rfl (by decide)

end Opca.Core

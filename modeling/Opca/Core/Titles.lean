/-
  Core/Titles.lean --- what a CA looks items up by, and when that is one item's alone.

  A bundle's item takes its title from the operation that makes it: a serial and a name, a
  CN, or what was typed.  The vault refuses none of them.
-/
import Opca.Core.Agreement

set_option autoImplicit false

namespace Opca.Core

open Opca.Foundation Acme

variable {times : OpensslTimes} {α : Type}

/-! ## Titles that items are looked up by -/

/-- The titles of what a CA keeps for itself. -/
def ownTitles : List String := [caTitle, caDatabaseTitle, crlTitle]

/-- Those of `own` titles, rows and imported certificates find no more than an item, and a
row's title finds its certificate. -/
structure CaVault.TitledOnce (times : OpensslTimes) (own : List String) (v : CaVault) : Prop where
  own : ∀ title ∈ own, (v.items.named title).length ≤ 1
  rows : ∀ c ∈ v.db.rows, c.ItemIn times v.items
  externals : ∀ title, some title ∈ v.db.externalTitles →
    (v.items.named (extTitle title)).length ≤ 1

namespace CaVault.TitledOnce

variable {own : List String} {v w : CaVault}

theorem same (h : v.TitledOnce times own) (hsame : v.Same w) : w.TitledOnce times own where
  own := by
    rw [hsame.items]
    exact h.own
  rows := by
    intro c hc
    obtain ⟨c', hc', heq⟩ := exists_of_told hsame.told.told hc
    rw [hsame.items]
    exact (h.rows c' hc').of_told heq.symm
  externals := by
    rw [hsame.items, hsame.told.externals]
    exact h.externals

theorem create {title : String} {fields : Fields} (h : v.TitledOnce times own)
    (hfree : v.items.named title = []) :
    CaVault.TitledOnce times own { v with items := v.items.create title fields } where
  own other hother := Items.length_named_create hfree (h.own other hother)
  rows c hc := (h.rows c hc).create ((h.rows c hc).title_ne hfree)
  externals other hother := Items.length_named_create hfree (h.externals other hother)

end CaVault.TitledOnce

theorem titledOnce_admits (own : List String) :
    Admits times (CaVault.TitledOnce times own) where
  same h hsame := h.same hsame
  create h hfree := h.create hfree
  row h hitem _ hrows hexternals hitems :=
    { own := by
        rw [hitems]
        exact h.own
      rows := by
        intro c hc
        rw [hitems]
        rw [hrows] at hc
        rcases List.mem_append.mp hc with hc | hc
        · exact h.rows c hc
        · rw [List.mem_singleton.mp hc]
          exact hitem
      externals := by
        rw [hitems, hexternals]
        exact h.externals }

/-! ## What gives items their titles -/

theorem addExternalCert_externals {db t : CaDatabase} {record : ExternalCertRecord} {a : Unit}
    (h : addExternalCert record db = .ok a t) :
    t.externalTitles = db.externalTitles ++ [record.title] := by
  unfold addExternalCert at h
  split at h
  · cases h
  · cases h
    exact List.map_append

theorem importExternal_titledOnce {own : List String} (cert : Imported) (title : String)
    (privateKey : Option String) (stored : Except OpcaError Unit) (now : Time) :
    Ensures (fun v : CaVault => v.TitledOnce times own ∧ v.items.named (extTitle title) = [])
      (importExternal times cert title privateKey stored now)
      (fun _ => CaVault.TitledOnce times own) (CaVault.TitledOnce times own) := by
  have hcreate {fields : Fields} :
      Ensures (fun v : CaVault => v.TitledOnce times own ∧ v.items.named (extTitle title) = [])
        (createItem (extTitle title) fields stored)
        (fun _ v => v.TitledOnce times own ∧ (v.items.named (extTitle title)).length ≤ 1)
        (CaVault.TitledOnce times own) := by
    refine Ensures.bind (.outcome (fun _ _ _ hv => hv) fun _ hv => hv.1) fun _ => ?_
    refine .modify fun v hv => ⟨hv.1.create hv.2, Items.length_named_create hv.2 ?_⟩
    rw [hv.2]
    exact Nat.zero_le 1
  have hgive {record : CertRecord} :
      Moves TellsSame (storeCertbundle.giveItem cert.verified record) := by
    unfold storeCertbundle.giveItem
    cases cert.verified with
    | false => exact .pure
    | true => exact give_tellsSame _
  have hkeep {record : CertRecord} := ((onVaulted_same (@hgive record)).keep
    (P := fun v : CaVault =>
      v.TitledOnce times own ∧ (v.items.named (extTitle title)).length ≤ 1)
    fun v w hv hsame => ⟨hv.1.same hsame, hsame.items ▸ hv.2⟩).failing
    (fun _ hv => hv.1)
  refine Ensures.bind (hcreate.bind fun _ => hkeep.bind fun _ => ?_) fun _ =>
    .pure fun _ hv => hv
  refine .of_cases ?_ ?_
  · intro v a w hv hadd
    obtain ⟨db, hdb, rfl⟩ := Part.of_lift_ok hadd
    have htold : db.told = v.db.told := addExternalCert_told hdb
    refine ⟨hv.1.own, fun c hc => ?_, fun other hother => ?_⟩
    · obtain ⟨c', hc', heq⟩ := exists_of_told htold hc
      exact (hv.1.rows c' hc').of_told heq.symm
    · have hother : some other ∈ v.db.externalTitles ++ [some title] :=
        addExternalCert_externals hdb ▸ hother
      rcases List.mem_append.mp hother with hother | hother
      · exact hv.1.externals other hother
      · rw [Option.some.inj (List.mem_singleton.mp hother)]
        exact hv.2
  · intro v e w hv hadd
    obtain ⟨db, hdb, rfl⟩ := Part.of_lift_error hadd
    rw [addExternalCert_error hdb]
    exact hv.1

/-! ## Founding -/

theorem CaVault.TitledOnce.of_own {own own' : List String} {v : CaVault}
    (h : v.TitledOnce times own)
    (hown : ∀ title ∈ own', title ∈ own ∨ (v.items.named title).length ≤ 1) :
    v.TitledOnce times own' where
  own title htitle := (hown title htitle).elim (h.own title) id
  rows := h.rows
  externals := h.externals

/-- What is looked up is one item's alone, or the look-up fails. -/
theorem itemTitled_titledOnce (own : List String) (title : String)
    (answer : Except OpcaError Unit) :
    Ensures (CaVault.TitledOnce times own) (itemTitled title answer)
      (fun found v => v.TitledOnce times (title :: own) ∧ v.items.named title = found.toList)
      (CaVault.TitledOnce times own) := by
  refine (itemTitled_ensures title answer _).imp (fun _ hv => hv) (fun found v hv => ?_)
    (fun _ hv => hv)
  refine ⟨hv.1.of_own fun other hother => ?_, hv.2⟩
  rcases List.mem_cons.mp hother with rfl | hother
  · right
    rw [hv.2]
    cases found with
    | none => exact Nat.zero_le 1
    | some item => exact Nat.le_refl 1
  · exact .inl hother

theorem saveDatabase_titledOnce (own : List String) (saved : Except OpcaError Unit) :
    Ensures (CaVault.TitledOnce times own) (saveDatabase saved)
      (fun _ => CaVault.TitledOnce times (caDatabaseTitle :: own)) (fun _ => True) := by
  have hput : Ensures (CaVault.TitledOnce times own) (putDocument caDatabaseTitle saved)
      (fun _ => CaVault.TitledOnce times (caDatabaseTitle :: own)) (fun _ => True) := by
    refine Ensures.bind ((itemTitled_titledOnce own caDatabaseTitle saved).failing
      fun _ _ => trivial) fun found => ?_
    cases found with
    | some item => exact .pure fun _ hv => hv.1
    | none =>
      refine Ensures.bind (.outcome (fun _ _ _ hv => hv) fun _ _ => trivial) fun _ => ?_
      exact .modify fun v hv => hv.1.create hv.2
  refine hput.bind fun _ => ?_
  refine Ensures.bind (.outcome (fun _ _ _ hv => hv) fun _ _ => trivial) fun _ => ?_
  exact .modify fun v hv => hv.same ⟨Std.Refl.refl _, rfl⟩

theorem establish_titledOnce (now : Time) (keys : CaKeys) (looked saved : Except OpcaError Unit)
    (founding : Founding) :
    Ensures (CaVault.TitledOnce times [crlTitle])
      (founding.establish times now keys looked saved)
      (fun _ => CaVault.TitledOnce times ownTitles) (fun _ => True) := by
  have hadmits := @titledOnce_admits times [caTitle, crlTitle]
  have hsame : ∀ v w : CaVault,
      v.TitledOnce times [caTitle, crlTitle] ∧ v.items.named caTitle = [] → v.Same w →
        w.TitledOnce times [caTitle, crlTitle] ∧ w.items.named caTitle = [] :=
    fun v w hv hsame => ⟨hv.1.same hsame, hsame.items ▸ hv.2⟩
  refine establish_ensures ?_ (fun _ _ => trivial) hsame ?_ founding
  · refine (itemTitled_titledOnce [crlTitle] caTitle looked).imp (fun _ hv => hv)
      (fun found v hv => ⟨trivial, ?_⟩) (fun _ _ => trivial)
    rintro rfl
    exact hv
  · intro cert serial stored
    refine Ensures.bind ((hadmits.storeBundle rfl rfl rfl ⟨rfl, rfl, rfl, rfl⟩).failing
      fun _ _ => trivial) fun _ => ?_
    refine (saveDatabase_titledOnce _ saved).bind fun _ => .pure fun v hv => ?_
    refine hv.of_own fun title htitle => .inl ?_
    simp only [ownTitles, List.mem_cons] at htitle ⊢
    tauto

theorem session_titledOnce {now : Time} {keys : CaKeys} {looked saved : Except OpcaError Unit}
    {items : Items Fields} {founding : Founding} {s : CaSession}
    (hcrl : (items.named crlTitle).length ≤ 1)
    (h : founding.session times now keys looked saved items = some s) :
    s.vault.TitledOnce times ownTitles := by
  unfold Founding.session at h
  dsimp only at h
  split at h
  next caCert vault hrun =>
    cases h
    refine (establish_titledOnce now keys looked saved founding).ok ⟨?_, ?_, ?_⟩ hrun
    · intro title htitle
      rw [List.mem_singleton.mp htitle]
      exact hcrl
    · intro c hc
      cases hc
    · intro title htitle
      cases htitle
  next => cases h

/-! ## Every run -/

/-- The titles that a CA looks items up by. -/
def CaDatabase.lookedUp (db : CaDatabase) : List String :=
  ownTitles ++ db.rows.filterMap CertRecord.title ++
    db.externalTitles.filterMap fun title => title.map extTitle

/-- No two items have a title that is looked up, and a row's title finds the certificate of
its serial. -/
structure CaVault.Unambiguous (v : CaVault) : Prop where
  single : ∀ title ∈ v.db.lookedUp, (v.items.named title).length ≤ 1
  retrieved : ∀ c ∈ v.db.rows, ∃ title cert, c.title = some title ∧ cert.serial = c.serial ∧
    retrieveCertbundle title (.ok ()) v = .ok (some cert) v

theorem CaVault.TitledOnce.unambiguous {v : CaVault} (h : v.TitledOnce times ownTitles) :
    v.Unambiguous where
  single := by
    intro title htitle
    unfold CaDatabase.lookedUp at htitle
    rcases List.mem_append.mp htitle with htitle | htitle
    · rcases List.mem_append.mp htitle with htitle | htitle
      · exact h.own title htitle
      · obtain ⟨c, hc, heq⟩ := List.mem_filterMap.mp htitle
        obtain ⟨found, item, -, hfound, hfind, -⟩ := h.rows c hc
        rw [Option.some.inj (heq.symm.trans hfound), Items.find_eq_some.mp hfind]
        exact Nat.le_refl 1
    · obtain ⟨external, hexternal, heq⟩ := List.mem_filterMap.mp htitle
      obtain ⟨bare, rfl, rfl⟩ := Option.map_eq_some_iff.mp heq
      exact h.externals bare hexternal
  retrieved := by
    intro c hc
    obtain ⟨title, item, cert, htitle, hfind, hcert, hmatches⟩ := h.rows c hc
    refine ⟨title, cert, htitle, hmatches.serial.symm, ?_⟩
    show EStateM.Result.ok ((v.items.find title).bind fun item => item.content.certificate) v = _
    rw [hfind, Option.bind_some, hcert]

/-- A CA founded in a vault that has no two lists of revoked certificates, and the operations
that make items. -/
def titling (times : OpensslTimes) :
    Machine CaSession (BundleOperation × Except OpcaError Unit) where
  init s := ∃ now keys looked saved items founding,
    (Items.named items crlTitle).length ≤ 1 ∧
      Founding.session times now keys looked saved items founding = some s
  next s l :=
    if (l.1.makes s.vault).isSome then
      some (finalState ((CaDeed.bundle l.1 l.2).run times s))
    else none

/-- The title that an operation gives an item is no other item's. -/
def TitleFree (s : CaSession) (l : BundleOperation × Except OpcaError Unit) : Prop :=
  ∀ title ∈ l.1.makes s.vault, s.vault.items.named title = []

theorem next_titledOnce {s t : CaSession} {l : BundleOperation × Except OpcaError Unit}
    (h : s.vault.TitledOnce times ownTitles) (hfree : TitleFree s l)
    (hnext : (titling times).next s l = some t) : t.vault.TitledOnce times ownTitles := by
  have hadmits := @titledOnce_admits times ownTitles
  unfold titling at hnext
  dsimp only at hnext
  split at hnext
  next hsome =>
    cases hnext
    obtain ⟨title, htitle⟩ := Option.isSome_iff_exists.mp hsome
    have hbody := (hadmits.makes importExternal_titledOnce l.1).bind fun _ =>
      hadmits.saveDatabase l.2
    exact (besideCaCert_ensures hbody).final ⟨h, title, htitle, hfree title htitle⟩
  next => cases hnext

/-- Titles stay unambiguous over any run whose operations take free ones. -/
theorem titlesUnambiguous {s : CaSession}
    (h : ((titling times).system.restrict TitleFree).Reachable s) : s.vault.Unambiguous := by
  have htitled : s.vault.TitledOnce times ownTitles := by
    induction h with
    | init hinit =>
      obtain ⟨now, keys, looked, saved, items, founding, hcrl, hsession⟩ := hinit
      exact session_titledOnce hcrl hsession
    | step _ hstep ih => exact next_titledOnce ih hstep.1 hstep.2
  exact htitled.unambiguous

theorem sampleSession_titled (h : sampleSession.isSome) :
    (titling sampleTimes).init (sampleSession.get h) :=
  ⟨_, _, _, _, .empty, _, Nat.zero_le 1, (Option.some_get h).symm⟩

/-- A certificate of another CA. -/
def outsideCert : Imported :=
  ⟨"77", sampleCert "outside" "webserver", sampleStart, false, "Other", "CN=Other"⟩

instance (s : CaSession) (l : BundleOperation × Except OpcaError Unit) :
    Decidable (TitleFree s l) := by
  unfold TitleFree
  infer_instance

/-- Certificates that are issued, signed for another's key and imported. -/
theorem titlesUnambiguous_outside : ∃ s : CaSession,
    s.vault.db.lookedUp =
      ["CA", "CA_Database", "CRL", "CA", "CRT_2_www", "partner", "EXT_outside"] ∧
    s.vault.Unambiguous := by
  obtain ⟨s, hs, hview⟩ := @Machine.exists_reachable_of_exec_guard _ _ (titling sampleTimes)
    (fun s l => decide (TitleFree s l)) TitleFree
    (fun _ _ => of_decide_eq_true) _ (sampleSession_titled (by decide))
    [(.generate "www" sampleMaking, .ok ()), (.signCsr "partner" sampleMaking, .ok ()),
      (.importBundle outsideCert none none (.ok ()) (.ok ()) sampleStart, .ok ())]
    (fun s => s.vault.db.lookedUp =
      ["CA", "CA_Database", "CRL", "CA", "CRT_2_www", "partner", "EXT_outside"])
    (by decide)
  exact ⟨s, of_decide_eq_true hview, titlesUnambiguous hs⟩

/-- A certificate that is signed for a key whose CN is `CA`. -/
theorem named_caTitle :
    ¬ ∀ s, ((titling sampleTimes).system.restrict fun s l =>
        (CaDeed.bundle l.1 l.2).Succeeds sampleTimes s).Reachable s → s.vault.Unambiguous := by
  intro hclaim
  obtain ⟨s, hs, hview⟩ := @Machine.exists_reachable_of_exec_guard _ _ (titling sampleTimes)
    (fun s l => returned ((CaDeed.bundle l.1 l.2).run sampleTimes s))
    (fun s l => (CaDeed.bundle l.1 l.2).Succeeds sampleTimes s)
    (fun _ _ h => h) _ (sampleSession_titled (by decide))
    [(.signCsr "CA" sampleMaking, .ok ())]
    (fun s => (s.vault.items.named "CA").length = 2) (by decide)
  have hsingle := (hclaim s hs).single "CA" List.mem_cons_self
  rw [of_decide_eq_true hview] at hsingle
  exact absurd hsingle (by decide)

end Opca.Core

/-
  Core/Migrated.lean --- what a migration of the stored database comes to: today's tables,
  with all that those of its version held.

  The steps up to the split of the certificates, the split and the steps after it are run
  one after the other.
-/
import Opca.Core.Migration

set_option autoImplicit false

namespace Opca.Core.Migration

open Opca.Foundation Relational

/-- What a row holds is what another one does, some columns aside. -/
def Alike (aside : List String) (r r' : Relation) (row row' : Row) : Prop :=
  ∀ name ∈ r.names, name ∉ aside → r'.cell row' name = r.cell row name

/-- Nothing that the tables of a version hold is lost. -/
structure Preserved (version : Int) (db db' : Store) : Prop where
  tables : ∀ table r, db table = some r → (table = "certificate_authority" → 6 ≤ version) →
    ∃ r', db' table = some r' ∧
      List.Forall₂ (Alike (if table = "config" then ["schema_version"] else []) r r')
        r.rows r'.rows
  /-- The rows that have an issuer are moved. -/
  split : version ≤ 5 → ∀ r, db "certificate_authority" = some r → ∃ r' external,
    db' "certificate_authority" = some r' ∧ db' "external_certificate" = some external ∧
    List.Forall₂ (Alike [] r r') (r.rows.filter (r.cell · "issuer" = .null)) r'.rows ∧
    List.Forall₂ (Alike ["title"] r external) (r.rows.filter (r.cell · "issuer" ≠ .null))
      external.rows

/-- A migration that goes through leads to today's tables, and loses nothing of what a
version held. -/
def Migrates (bound : Cell) (version : Int) (db : Store) : Prop :=
  ∀ db' info, migrate bound db version = .ok (db', info) → db'.Laid newLayout ∧
    (1 ≤ version → storedVersion db' = some defaultSchemaVersion ∧ Preserved version db db')

section

variable {bound : Cell} {db db' : Store} {v : Int} {ms : List VersionStep}

def versions : List Int := (List.range 20).map fun k : Nat => (k : Int) + 1

theorem mem_versions (hv : 1 ≤ v) (hlt : v < defaultSchemaVersion) : v ∈ versions := by
  unfold defaultSchemaVersion at hlt
  exact List.mem_map.mpr ⟨(v - 1).toNat, by rw [List.mem_range]; omega, by omega⟩

/-- What the tables of a version hold throughout, but for the version itself and the rows
that the split moves. -/
def heldFrom (v : Int) (l : Layout) (table : String) : Option (List String) :=
  if v ≤ 5 ∧ table = "certificate_authority" then none
  else (l.find table).map fun columns =>
    (columns.map Column.name).filter fun name => ¬(table = "config" ∧ name = "schema_version")

theorem steps_spare : (versions.all fun v => (layoutsOf v).all fun l =>
    ((stepsFrom v).flatMap VersionStep.changes).all (Change.spares (heldFrom v l))) = true := by
  decide

theorem length_stepsFrom (hv : 1 ≤ v) (hlt : v < defaultSchemaVersion) :
    v + (stepsFrom v).length = defaultSchemaVersion := by
  have hcount : migrations.length = 20 := rfl
  unfold defaultSchemaVersion at hlt
  unfold stepsFrom defaultSchemaVersion
  rw [List.length_drop, hcount]
  omega

theorem laid_new (h : ∃ l ∈ layoutsOf defaultSchemaVersion, db.Laid l) : db.Laid newLayout := by
  obtain ⟨l, hl, hlaid⟩ := h
  have hsame : ((layoutsOf defaultSchemaVersion).all (·.same newLayout)) = true := by
    decide
  exact hlaid.of_same (List.all_eq_true.mp hsame l hl)

/-- From the split on, all steps run, and lead to today's tables. -/
theorem exists_run_of_ge_six (bound : Cell) (hv : 6 ≤ v) (hlt : v < defaultSchemaVersion)
    (h : ∃ l ∈ layoutsOf v, db.Laid l) :
    ∃ db', runAll bound ((stepsFrom v).flatMap VersionStep.changes) db = .ok db' ∧
      db'.Laid newLayout := by
  have hcons := @stepsFrom_consecutive v (by omega)
  obtain ⟨db', hrun, hlaid⟩ := @laid_steps bound db v (stepsFrom v) (fun m hm => by
    have hle := hcons.le_of_mem hm
    exact ⟨List.mem_of_mem_drop hm, by omega⟩) hcons h
  rw [length_stepsFrom (by omega) hlt] at hlaid
  exact ⟨db', hrun, laid_new hlaid⟩

/-- The steps of a version before the split, but for the split and what follows. -/
def stepsToSplit (v : Int) : List VersionStep := (migrations.take 4).drop (v - 1).toNat

theorem stepsFrom_eq (hv : 1 ≤ v) (hle : v ≤ 5) :
    stepsFrom v = stepsToSplit v ++ splitIssuers :: stepsFrom 6 := by
  have hsplit : migrations = migrations.take 4 ++ splitIssuers :: stepsFrom 6 := rfl
  have hcount : (migrations.take 4).length = 4 := rfl
  unfold stepsToSplit
  rw [stepsFrom, hsplit, List.drop_append_of_le_length (by rw [hcount]; omega)]
  rfl

theorem stepsToSplit_consecutive (hv : 1 ≤ v) : Consecutive v (stepsToSplit v) := by
  have h := (migrations_consecutive.take 4).drop (v - 1).toNat
  rwa [show (1 : Int) + ((v - 1).toNat : Int) = v by omega] at h

theorem length_stepsToSplit (hv : 1 ≤ v) (hle : v ≤ 5) : v + (stepsToSplit v).length = 5 := by
  have hcount : (migrations.take 4).length = 4 := rfl
  unfold stepsToSplit
  rw [List.length_drop, hcount]
  omega

/-- The steps before the split run. -/
theorem exists_run_to_split (bound : Cell) (hv : 1 ≤ v) (hle : v ≤ 5)
    (h : ∃ l ∈ layoutsOf v, db.Laid l) :
    ∃ db', runAll bound ((stepsToSplit v).flatMap VersionStep.changes) db = .ok db' ∧
      db'.Laid (layoutOf 5) := by
  have hcons := stepsToSplit_consecutive hv
  have hearly : ((migrations.take 4).all fun m => m.source < 5) = true := by decide
  obtain ⟨db', hrun, l, hl, hlaid⟩ := @laid_steps bound db v (stepsToSplit v) (fun m hm => by
    have hmem := List.mem_of_mem_drop hm
    have hlt := of_decide_eq_true (List.all_eq_true.mp hearly m hmem)
    exact ⟨List.mem_of_mem_take hmem, by omega⟩) hcons h
  rw [length_stepsToSplit hv hle] at hl
  cases List.mem_singleton.mp hl
  exact ⟨db', hrun, hlaid⟩

theorem splitIssuers_changes : splitIssuers.changes =
    [.create "external_certificate"
        [text "serial", text "cn", text "title", text "status", text "expiry_date",
          text "subject", text "issuer", text "issuer_subject", text "import_date"],
      .copy "certificate_authority" "external_certificate" "serial" movedCells
        (.notNull "issuer"),
      .delete "certificate_authority" (.notNull "issuer"),
      .dropColumn "certificate_authority" "issuer", setVersion 6] :=
  rfl

/-- The rows that have an issuer are put in the new table, and no others are left out. -/
theorem exists_run_split (bound : Cell) {r : Relation} (hlaid : db.Laid (layoutOf 5))
    (hr : db "certificate_authority" = some r) (hkeys : (keysOf "serial" r.rows).Nodup) :
    ∃ db', runAll bound splitIssuers.changes db = .ok db' ∧ db'.Laid (layoutOf 6) ∧
      (∃ r', db' "certificate_authority" = some r' ∧
        r'.rows = r.rows.filter (· "issuer" = .null)) ∧
      ∃ external, db' "external_certificate" = some external ∧
        external.rows = (r.rows.filter (· "issuer" ≠ .null)).map (made bound movedCells) := by
  have hmem : splitIssuers ∈ migrations := by
    unfold migrations
    simp
  obtain ⟨l', hlay, next, hnext, hsame⟩ :=
    exists_lay hmem (l := layoutOf 5) (List.mem_singleton_self _)
  cases List.mem_singleton.mp hnext
  rw [splitIssuers_changes] at hlay ⊢
  obtain ⟨l₁, hlay₁, hlay⟩ := layAll_cons.mp hlay
  obtain ⟨l₂, hlay₂, hlay⟩ := layAll_cons.mp hlay
  obtain ⟨l₃, hlay₃, hlay⟩ := layAll_cons.mp hlay
  obtain ⟨l₄, hlay₄, hlay⟩ := layAll_cons.mp hlay
  obtain ⟨l₅, hlay₅, hlay⟩ := layAll_cons.mp hlay
  cases hlay
  have hnone : db "external_certificate" = none := by
    have h := hlaid "external_certificate"
    have hfind : (layoutOf 5).find "external_certificate" = none := by decide
    rw [hfind] at h
    exact Option.map_eq_none_iff.mp h
  obtain ⟨db₁, hrun₁, hlaid₁⟩ := @Store.Laid.run bound _ _ _ _ hlaid hlay₁ trivial
  obtain ⟨created, hdone₁, hempty⟩ : ∃ created : Relation,
      db₁ = Function.update db "external_certificate" (some created) ∧ created.rows = [] := by
    dsimp only [Change.run] at hrun₁
    rw [hnone] at hrun₁
    exact ⟨_, (Except.ok.inj hrun₁).symm, rfl⟩
  have hr₁ : db₁ "certificate_authority" = some r := by
    rw [hdone₁, Function.update_of_ne (by decide)]
    exact hr
  have hexternal₁ : db₁ "external_certificate" = some created := by
    rw [hdone₁]
    exact Function.update_self ..
  have hfresh : Change.Fresh bound db₁ (.copy "certificate_authority" "external_certificate"
      "serial" movedCells (.notNull "issuer")) := by
    intro source target hsource htarget
    rw [hr₁] at hsource
    rw [hexternal₁] at htarget
    cases hsource
    cases htarget
    refine hkeys.sublist ?_
    unfold keysOf Relation.insert
    rw [hempty, List.nil_append, List.map_map]
    exact (List.filter_sublist.map _).filter _
  obtain ⟨db₂, hrun₂, hlaid₂⟩ := hlaid₁.run hlay₂ hfresh
  obtain ⟨source, target, hsource, htarget, hdone₂⟩ := of_run hrun₂
  rw [hr₁] at hsource
  rw [hexternal₁] at htarget
  cases hsource
  cases htarget
  obtain ⟨db₃, hrun₃, hlaid₃⟩ := @Store.Laid.run bound _ _ _ _ hlaid₂ hlay₃ trivial
  obtain ⟨r₃, hr₃, hdone₃⟩ := of_run hrun₃
  rw [hdone₂, Function.update_of_ne (by decide), hr₁] at hr₃
  cases hr₃
  obtain ⟨db₄, hrun₄, hlaid₄⟩ := @Store.Laid.run bound _ _ _ _ hlaid₃ hlay₄ trivial
  obtain ⟨r₄, hr₄, hdone₄⟩ := of_run hrun₄
  rw [hdone₃, Function.update_self] at hr₄
  cases hr₄
  obtain ⟨db₅, hrun₅, hlaid₅⟩ := @Store.Laid.run bound _ _ _ _ hlaid₄ hlay₅ trivial
  obtain ⟨config, hconfig, hdone₅⟩ := of_run hrun₅
  refine ⟨db₅, ?_, hlaid₅.of_same hsame, ⟨(r.delete (.notNull "issuer")).drop "issuer", ?_, ?_⟩,
    ⟨created.insert bound r movedCells (.notNull "issuer"), ?_, ?_⟩⟩
  · exact runAll_cons.mpr ⟨_, hrun₁, runAll_cons.mpr ⟨_, hrun₂, runAll_cons.mpr ⟨_, hrun₃,
      runAll_cons.mpr ⟨_, hrun₄, runAll_cons.mpr ⟨_, hrun₅, rfl⟩⟩⟩⟩⟩
  · rw [hdone₅, Function.update_of_ne (by decide), hdone₄, Function.update_self]
  · unfold Relation.drop Relation.delete Condition.holds
    simp
  · rw [hdone₅, Function.update_of_ne (by decide), hdone₄, Function.update_of_ne (by decide),
      hdone₃, Function.update_of_ne (by decide), hdone₂, Function.update_self]
  · unfold Relation.insert Condition.holds
    rw [hempty, List.nil_append]

/-- In every table but the one that is split, what the rows hold stays. -/
theorem tables_kept {l : Layout} (hv : 1 ≤ v) (hlt : v < defaultSchemaVersion)
    (hl : l ∈ layoutsOf v) (hlaid : db.Laid l)
    (hrun : runAll bound ((stepsFrom v).flatMap VersionStep.changes) db = .ok db')
    {table : String} {r : Relation} (hr : db table = some r)
    (hsplit : table = "certificate_authority" → 6 ≤ v) :
    ∃ r', db' table = some r' ∧
      List.Forall₂ (Alike (if table = "config" then ["schema_version"] else []) r r')
        r.rows r'.rows := by
  have hspare := List.all_eq_true.mp (List.all_eq_true.mp steps_spare v (mem_versions hv hlt)) l hl
  obtain ⟨columns, hfind, hnames⟩ := hlaid.exists_find hr
  have hheld : heldFrom v l table = some ((columns.map Column.name).filter
      fun name => ¬(table = "config" ∧ name = "schema_version")) := by
    unfold heldFrom
    rw [if_neg (fun h => absurd (hsplit h.2) (by omega)), hfind]
    rfl
  obtain ⟨r', hr', hkept, hrows⟩ := keeps_of_runAll (fun c hc => List.all_eq_true.mp hspare c hc)
    hrun table _ r hheld hr fun name hname =>
      (hnames name).mpr (List.mem_filter.mp hname).1
  refine ⟨r', hr', hrows.imp fun row row' hsame name hname haside => ?_⟩
  have hmem : name ∈ (columns.map Column.name).filter
      fun name => ¬(table = "config" ∧ name = "schema_version") := by
    refine List.mem_filter.mpr ⟨(hnames name).mp hname, decide_eq_true fun h => ?_⟩
    rw [if_pos h.1, h.2] at haside
    exact haside (List.mem_singleton_self _)
  rw [cell_of_mem (hkept hmem), cell_of_mem hname, hsame name hmem]

/-- The last thing that is written is the version. -/
theorem exists_changes_eq (hv : 1 ≤ v) (hlt : v < defaultSchemaVersion) :
    ∃ earlier, (stepsFrom v).flatMap VersionStep.changes = earlier ++ [setVersion 21] := by
  unfold defaultSchemaVersion at hlt
  have hlast : migrations = migrations.take 19 ++ migrations.drop 19 := rfl
  have hcount : (migrations.take 19).length = 19 := rfl
  refine ⟨((migrations.take 19).drop (v - 1).toNat).flatMap VersionStep.changes ++
    [.addMissing "brokers" (text "issuer_state")], ?_⟩
  rw [stepsFrom, hlast, List.drop_append_of_le_length (by rw [hcount]; omega),
    List.flatMap_append, List.append_assoc]
  rfl

theorem ids_spare : ((migrations.flatMap VersionStep.changes).all (Change.spares fun table =>
    if table = "config" then some ["id"] else none)) = true := by
  decide

theorem version_set (hv : 1 ≤ v) (hlt : v < defaultSchemaVersion)
    {config : Relation} {row : Row} (hconfig : db "config" = some config)
    (hrows : config.rows = [row]) (hid : "id" ∈ config.names) (hone : row "id" = .integer 1)
    (hrun : runAll bound ((stepsFrom v).flatMap VersionStep.changes) db = .ok db')
    (hlaid : db'.Laid newLayout) : storedVersion db' = some defaultSchemaVersion := by
  obtain ⟨earlier, hchanges⟩ := exists_changes_eq hv hlt
  rw [hchanges] at hrun
  obtain ⟨between, hearlier, hlast⟩ := runAll_append.mp hrun
  obtain ⟨db'', hset, hdone⟩ := runAll_cons.mp hlast
  cases hdone
  have hspare : ∀ c ∈ earlier, c.spares (fun table =>
      if table = "config" then some ["id"] else none) = true := by
    intro c hc
    refine List.all_eq_true.mp ids_spare c ?_
    have hmem : c ∈ (stepsFrom v).flatMap VersionStep.changes := by
      rw [hchanges]
      exact List.mem_append_left _ hc
    obtain ⟨m, hm, hc⟩ := List.mem_flatMap.mp hmem
    exact List.mem_flatMap.mpr ⟨m, List.mem_of_mem_drop hm, hc⟩
  obtain ⟨config', hconfig', -, hkept⟩ := keeps_of_runAll hspare hearlier "config" ["id"] config
    (if_pos rfl) hconfig (by simpa using hid)
  rw [hrows] at hkept
  obtain ⟨row', rest, hsame, hrest, hrows'⟩ := List.forall₂_cons_left_iff.mp hkept
  cases hrest
  obtain ⟨config'', hconfig'', hdone⟩ := of_run hset
  rw [hconfig'] at hconfig''
  cases hconfig''
  have hone' : row' "id" = .integer 1 := (hsame "id" (List.mem_singleton_self _)).trans hone
  have hfinal : db' "config" = some (config'.assign bound "schema_version"
      (.literal (.integer 21)) (.equals "id" (.integer 1))) := by
    rw [hdone, Function.update_self]
  obtain ⟨columns, hfind, hnames⟩ := hlaid.exists_find hfinal
  have hcolumn : (newLayout.find "config").any
      (fun columns => "schema_version" ∈ columns.map Column.name) = true := by
    decide
  rw [hfind] at hcolumn
  have hmem := (hnames "schema_version").mpr (of_decide_eq_true hcolumn)
  have hhead : (config'.assign bound "schema_version" (.literal (.integer 21))
      (.equals "id" (.integer 1))).rows =
      [Function.update row' "schema_version" (.integer 21)] := by
    unfold Relation.assign Condition.holds
    rw [hrows', List.map_singleton, if_pos (decide_eq_true hone')]
    rfl
  unfold storedVersion
  rw [hfinal, Option.bind_some, hhead, List.head?_cons, Option.map_some, cell_of_mem hmem,
    Function.update_self]
  rfl

/-! ## The split -/

/-- Before the split no step writes what a version's tables hold. -/
theorem early_spare : (versions.all fun v => 5 < v || (layoutsOf v).all fun l =>
    ((stepsToSplit v).flatMap VersionStep.changes).all (Change.spares fun table =>
      if table = "certificate_authority" then some (((l.find table).getD []).map Column.name)
      else none)) = true := by
  decide

/-- A version before the split has a column for the issuer, or a step that adds one. -/
theorem early_fills : (versions.all fun v => 5 < v || (layoutsOf v).all fun l =>
    decide ("issuer" ∈ ((l.find "certificate_authority").getD []).map Column.name) ||
      ((stepsToSplit v).flatMap VersionStep.changes).any
        (Change.fills "certificate_authority" "issuer" .null)) = true := by
  decide

theorem early_leaves : (versions.all fun v => 5 < v ||
    ((stepsToSplit v).flatMap VersionStep.changes).all
      (Change.leaves "certificate_authority" "issuer" .null)) = true := by
  decide

/-- The columns of a certificate before the split. -/
def certificateColumns : List String :=
  ["serial", "cn", "title", "status", "expiry_date", "revocation_date", "subject", "issuer"]

theorem early_columns : (versions.all fun v => 5 < v || (layoutsOf v).all fun l =>
    (l.find "certificate_authority").any fun columns =>
      decide ("serial" ∈ columns.map Column.name ∧
        "revocation_date" ∈ columns.map Column.name) &&
      (columns.map Column.name).all (· ∈ certificateColumns)) = true := by
  decide

/-- After the split an issuer is nothing until it is set anew. -/
theorem late_fills : ((stepsFrom 6).flatMap VersionStep.changes).any
    (Change.fills "certificate_authority" "issuer" .null) = true := by
  decide

theorem late_leaves : (((stepsFrom 6).flatMap VersionStep.changes).all
    (Change.leaves "certificate_authority" "issuer" .null)) = true := by
  decide

theorem late_spare : (((stepsFrom 6).flatMap VersionStep.changes).all
    (Change.spares (heldFrom 6 (layoutOf 6)))) = true := by
  decide

theorem kept_columns : (certificateColumns.all fun name => decide (name = "issuer") ||
    decide (name ∈ (((layoutOf 6).find "certificate_authority").getD []).map Column.name)) =
      true := by
  decide

theorem moved_columns : (["serial", "cn", "status", "expiry_date", "subject", "issuer"].all
    fun name => name ∈ (((layoutOf 6).find "external_certificate").getD []).map Column.name) =
      true := by
  decide

/-- What a moved row holds of the row that it was. -/
theorem made_movedCells {name : String}
    (h : name ∈ ["serial", "cn", "status", "expiry_date", "subject", "issuer"]) (row : Row) :
    made bound movedCells row name = row name := by
  simp only [List.mem_cons, List.not_mem_nil, or_false] at h
  rcases h with rfl | rfl | rfl | rfl | rfl | rfl <;> rfl

/-- The certificates as they are when they are split, with nothing where there was no
issuer. -/
theorem certificates_at_split {l : Layout} (hv : 1 ≤ v) (hle : v ≤ 5) (hl : l ∈ layoutsOf v)
    (hlaid : db.Laid l) {r : Relation} (hr : db "certificate_authority" = some r)
    (hrun : runAll bound ((stepsToSplit v).flatMap VersionStep.changes) db = .ok db') :
    ∃ r', db' "certificate_authority" = some r' ∧
      List.Forall₂ (fun row row' => SameAt r.names row row' ∧
        row' "issuer" = r.cell row "issuer") r.rows r'.rows := by
  have hmem := mem_versions hv (by unfold defaultSchemaVersion; omega)
  have hspare := (Bool.or_eq_true _ _).mp (List.all_eq_true.mp early_spare v hmem)
  have hspare := List.all_eq_true.mp (hspare.resolve_left (by simpa using hle)) l hl
  have hfills := (Bool.or_eq_true _ _).mp (List.all_eq_true.mp early_fills v hmem)
  have hfills := List.all_eq_true.mp (hfills.resolve_left (by simpa using hle)) l hl
  have hleaves := (Bool.or_eq_true _ _).mp (List.all_eq_true.mp early_leaves v hmem)
  have hleaves := hleaves.resolve_left (by simpa using hle)
  have hnames := fun name : String => (hlaid.mem_names_iff hr : name ∈ r.names ↔ _)
  obtain ⟨r', hr', hkept, hrows⟩ := keeps_of_runAll
    (fun c hc => List.all_eq_true.mp hspare c hc) hrun "certificate_authority" _ r (if_pos rfl)
    hr fun name hname => (hnames name).mpr hname
  refine ⟨r', hr', (forall₂_mem hrows).imp fun row row' h => ?_⟩
  obtain ⟨hsame, -, hrow'⟩ := h
  refine ⟨fun name hname => hsame name ((hnames name).mp hname), ?_⟩
  by_cases hissuer : "issuer" ∈ ((l.find "certificate_authority").getD []).map Column.name
  · rw [cell_of_mem ((hnames _).mpr hissuer), hsame _ hissuer]
  · rw [cell_of_not_mem fun h => hissuer ((hnames _).mp h)]
    rw [decide_eq_false hissuer, Bool.false_or] at hfills
    exact filled_of_fills hfills (fun c hc => List.all_eq_true.mp hleaves c hc) hrun r' hr' row'
      hrow'

/-- The certificates before the split, and their columns. -/
theorem exists_certificates {l : Layout} (hv : 1 ≤ v) (hle : v ≤ 5) (hl : l ∈ layoutsOf v)
    (hlaid : db.Laid l) : ∃ r, db "certificate_authority" = some r ∧ "serial" ∈ r.names ∧
      "revocation_date" ∈ r.names ∧ ∀ name ∈ r.names, name ∈ certificateColumns := by
  have hmem := mem_versions hv (by unfold defaultSchemaVersion; omega)
  have hcolumns := (Bool.or_eq_true _ _).mp (List.all_eq_true.mp early_columns v hmem)
  have hcolumns := List.all_eq_true.mp (hcolumns.resolve_left (by simpa using hle)) l hl
  obtain ⟨columns, hfind, hcolumns⟩ := (Option.any_eq_true _ _).mp hcolumns
  rw [Bool.and_eq_true, decide_eq_true_eq] at hcolumns
  have htable := hlaid "certificate_authority"
  rw [hfind] at htable
  obtain ⟨r, hr, hset⟩ := Option.map_eq_some_iff.mp htable
  have hnames (name : String) : name ∈ r.names ↔ name ∈ columns.map Column.name :=
    Store.Laid.mem_names hset
  exact ⟨r, hr, (hnames _).mpr hcolumns.1.1, (hnames _).mpr hcolumns.1.2, fun name hname =>
    of_decide_eq_true (List.all_eq_true.mp hcolumns.2 name ((hnames name).mp hname))⟩

/-- Where the split is yet to come, a migration goes through; it keeps the certificates
apart from the issuers' and moves those, all but the dates on which they were revoked. -/
theorem exists_run_of_le_five (bound : Cell) {l : Layout} (hv : 1 ≤ v) (hle : v ≤ 5)
    (hl : l ∈ layoutsOf v) (hlaid : db.Laid l) {r : Relation}
    (hr : db "certificate_authority" = some r) (hkeys : (keysOf "serial" r.rows).Nodup) :
    ∃ db', runAll bound ((stepsFrom v).flatMap VersionStep.changes) db = .ok db' ∧
      db'.Laid newLayout ∧ ∃ r' external, db' "certificate_authority" = some r' ∧
        db' "external_certificate" = some external ∧ "revocation_date" ∉ external.names ∧
        List.Forall₂ (Alike [] r r') (r.rows.filter (r.cell · "issuer" = .null)) r'.rows ∧
        List.Forall₂ (Alike ["title", "revocation_date"] r external)
          (r.rows.filter (r.cell · "issuer" ≠ .null)) external.rows := by
  obtain ⟨found, hfound, hserial, -, hearly⟩ := exists_certificates hv hle hl hlaid
  rw [hr] at hfound
  cases hfound
  -- up to the split
  obtain ⟨db₅, hrun₅, hlaid₅⟩ := exists_run_to_split bound hv hle ⟨l, hl, hlaid⟩
  obtain ⟨r₅, hr₅, hrows₅⟩ := certificates_at_split hv hle hl hlaid hr hrun₅
  have hkeys₅ : (keysOf "serial" r₅.rows).Nodup := by
    rw [keysOf_of_sameAt (hrows₅.imp fun _ _ h => h.1) hserial]
    exact hkeys
  obtain ⟨db₆, hrun₆, hlaid₆, ⟨r₆, hr₆, hrows₆⟩, external₆, hexternal₆, hmoved₆⟩ :=
    exists_run_split bound hlaid₅ hr₅ hkeys₅
  -- and after it
  obtain ⟨db', hrun, hlaid'⟩ := exists_run_of_ge_six bound (v := 6) (by omega)
    (by decide) ⟨_, List.mem_singleton_self _, hlaid₆⟩
  have hspare := fun c hc => List.all_eq_true.mp late_spare c hc
  have hheld (table : String) (hfind : ((layoutOf 6).find table).isSome = true)
      (hconfig : table ≠ "config") : heldFrom 6 (layoutOf 6) table =
        some ((((layoutOf 6).find table).getD []).map Column.name) := by
    obtain ⟨columns, hcolumns⟩ := Option.isSome_iff_exists.mp hfind
    unfold heldFrom
    rw [if_neg (by simp), hcolumns, Option.map_some, Option.getD_some, List.filter_eq_self.mpr]
    intro name _
    exact decide_eq_true fun h => hconfig h.1
  obtain ⟨r', hr', hkept, hrows⟩ := keeps_of_runAll hspare hrun "certificate_authority" _ r₆
    (hheld _ (by decide) (by decide)) hr₆ fun _ => (hlaid₆.mem_names_iff hr₆).mpr
  obtain ⟨external, hexternal, hkeptE, hrowsE⟩ := keeps_of_runAll hspare hrun
    "external_certificate" _ external₆ (hheld _ (by decide) (by decide)) hexternal₆
    fun _ => (hlaid₆.mem_names_iff hexternal₆).mpr
  have hissuer := filled_of_fills late_fills
    (fun c hc => List.all_eq_true.mp late_leaves c hc) hrun r' hr'
  refine ⟨db', ?_, hlaid', r', external, hr', hexternal, ?_, ?_, ?_⟩
  · rw [stepsFrom_eq hv hle, List.flatMap_append, List.flatMap_cons]
    exact runAll_append.mpr ⟨db₅, hrun₅, runAll_append.mpr ⟨db₆, hrun₆, hrun⟩⟩
  · rw [hlaid'.mem_names_iff hexternal]
    decide
  · have hfiltered : List.Forall₂ (fun row row' => SameAt r.names row row' ∧
        row' "issuer" = r.cell row "issuer")
        (r.rows.filter (r.cell · "issuer" = .null)) r₆.rows := by
      rw [hrows₆]
      refine List.rel_filter (fun row row' h => ?_) hrows₅
      simp only [decide_eq_true_eq, h.2]
    refine forall₂_comp ?_ hfiltered (forall₂_mem hrows)
    rintro row row₆ row' ⟨hsame, hcell⟩ ⟨hsame', hrow₆, hrow'⟩ name hname -
    by_cases hname' : name = "issuer"
    · subst hname'
      have hnull : row₆ "issuer" = .null := by
        rw [hrows₆] at hrow₆
        simpa using (List.mem_filter.mp hrow₆).2
      rw [← hcell, hnull]
      by_cases hmem' : "issuer" ∈ r'.names
      · rw [cell_of_mem hmem', hissuer row' hrow']
      · exact cell_of_not_mem hmem' row'
    · have hstays := (Bool.or_eq_true _ _).mp
        (List.all_eq_true.mp kept_columns name (hearly name hname))
      have hmem' := of_decide_eq_true (hstays.resolve_left (by simpa using hname'))
      rw [cell_of_mem (hkept hmem'), hsame' name hmem', hsame name hname, cell_of_mem hname]
  · have hfiltered : List.Forall₂ (fun row external => ∃ row₅, SameAt r.names row row₅ ∧
        external = made bound movedCells row₅)
        (r.rows.filter (r.cell · "issuer" ≠ .null)) external₆.rows := by
      rw [hmoved₆, List.forall₂_map_right_iff]
      refine (List.rel_filter (fun row row' h => ?_) hrows₅).imp fun row row₅ h =>
        ⟨row₅, h.1, rfl⟩
      simp only [decide_eq_true_eq, ne_eq, h.2]
    refine forall₂_comp ?_ hfiltered hrowsE
    rintro row moved row' ⟨row₅, hsame, rfl⟩ hsame' name hname haside
    have hmoved : name ∈ ["serial", "cn", "status", "expiry_date", "subject", "issuer"] := by
      have hcolumn := hearly name hname
      simp only [certificateColumns, List.mem_cons, List.not_mem_nil, or_false, not_or]
        at hcolumn haside ⊢
      tauto
    have hmem' := of_decide_eq_true (List.all_eq_true.mp moved_columns name hmoved)
    rw [cell_of_mem (hkeptE hmem'), hsame' name hmem', made_movedCells hmoved, hsame name hname,
      cell_of_mem hname]

/-! ## What a migration comes to -/

theorem ids_stay : (versions.all fun v => (layoutsOf v).all fun l =>
    decide ("id" ∈ ((l.find "config").getD []).map Column.name)) = true := by
  decide

/-- The version is the current one after all steps. -/
theorem Shaped.version_set (h : Shaped v db) (hv : 1 ≤ v) (hlt : v < defaultSchemaVersion)
    (hrun : runAll bound ((stepsFrom v).flatMap VersionStep.changes) db = .ok db')
    (hlaid' : db'.Laid newLayout) : storedVersion db' = some defaultSchemaVersion := by
  obtain ⟨l, hl, hlaid⟩ := h.laid
  obtain ⟨config, row, hconfig, hrows, hone, -⟩ := h.config
  have hid := List.all_eq_true.mp (List.all_eq_true.mp ids_stay v (mem_versions hv hlt)) l hl
  exact Migration.version_set hv hlt hconfig hrows
    ((hlaid.mem_names_iff hconfig).mpr (of_decide_eq_true hid)) hone hrun hlaid'

/-- What a migration makes of a database is what its steps do. -/
theorem eq_of_migrate {db'' : Store} {info : MigrationInfo} (hv : 1 ≤ v)
    (hlt : v < defaultSchemaVersion)
    (hrun : runAll bound ((stepsFrom v).flatMap VersionStep.changes) db = .ok db'')
    (h : migrate bound db v = .ok (db', info)) : db' = db'' := by
  obtain ⟨info', hmigrate⟩ := migrate_of_runAll hv hlt hrun
  rw [hmigrate] at h
  cases h
  rfl

theorem Shaped.migrates_late (h : Shaped v db) (hv : 6 ≤ v) (hlt : v < defaultSchemaVersion) :
    Migrates bound v db := by
  intro db' info hmigrate
  obtain ⟨l, hl, hlaid⟩ := h.laid
  obtain ⟨db'', hrun, hlaid'⟩ := exists_run_of_ge_six bound hv hlt h.laid
  cases eq_of_migrate (by omega) hlt hrun hmigrate
  refine ⟨hlaid', fun hv' => ⟨h.version_set hv' hlt hrun hlaid', ?_, fun hle => ?_⟩⟩
  · exact fun table r hr hsplit => tables_kept hv' hlt hl hlaid hrun hr hsplit
  · omega

theorem Shaped.migrates_early (h : Shaped v db) (hv : 1 ≤ v) (hle : v ≤ 5) :
    Migrates bound v db ↔ ∀ r, db "certificate_authority" = some r → ∀ row ∈ r.rows,
      r.cell row "issuer" ≠ .null → r.cell row "revocation_date" = .null := by
  have hlt : v < defaultSchemaVersion := by
    unfold defaultSchemaVersion
    omega
  obtain ⟨l, hl, hlaid⟩ := h.laid
  obtain ⟨r, hr, -, hdate, -⟩ := exists_certificates hv hle hl hlaid
  obtain ⟨db', hrun, hlaid', r', external, hr', hexternal, hnone, hkept, hmoved⟩ :=
    exists_run_of_le_five bound hv hle hl hlaid hr (h.serials r hr)
  constructor
  · intro hmigrates found hfound row hrow hissuer
    rw [hr] at hfound
    cases hfound
    obtain ⟨info, hmigrate⟩ := migrate_of_runAll hv hlt hrun
    obtain ⟨r₂, external₂, -, hexternal₂, -, hall⟩ :=
      ((hmigrates db' info hmigrate).2 hv).2.split hle r hr
    rw [hexternal] at hexternal₂
    cases hexternal₂
    obtain ⟨row', -, halike⟩ := exists_of_mem_forall₂ hall
      (List.mem_filter.mpr ⟨hrow, decide_eq_true hissuer⟩)
    rw [← halike "revocation_date" hdate (by decide), cell_of_not_mem hnone]
  · intro hdates db'' info hmigrate
    cases eq_of_migrate hv hlt hrun hmigrate
    refine ⟨hlaid', fun _ => ⟨h.version_set hv hlt hrun hlaid', ?_, fun _ found hfound => ?_⟩⟩
    · exact fun table r hr hsplit => tables_kept hv hlt hl hlaid hrun hr hsplit
    · rw [hr] at hfound
      cases hfound
      refine ⟨r', external, hr', hexternal, hkept, (forall₂_mem hmoved).imp ?_⟩
      rintro row row' ⟨halike, hrow, -⟩ name hname haside
      obtain ⟨hrow, hissuer⟩ := List.mem_filter.mp hrow
      by_cases hname' : name = "revocation_date"
      · subst hname'
        rw [cell_of_not_mem hnone, hdates r hr row hrow (of_decide_eq_true hissuer)]
      · refine halike name hname fun hmem => ?_
        simp only [List.mem_cons, List.not_mem_nil, or_false] at hmem haside
        exact hmem.elim haside hname'

/-- From the versions that there have been, a migration leads to today's tables and keeps
what they held, but for the revocation dates of the certificates that the split moves; a
version that there never was is taken for migrated as it is. -/
theorem migrates_iff (hlt : v < defaultSchemaVersion) (hshaped : 1 ≤ v → Shaped v db) :
    Migrates bound v db ↔
      (v ≤ 0 → db.Laid newLayout) ∧
      (1 ≤ v → v ≤ 5 → ∀ r, db "certificate_authority" = some r → ∀ row ∈ r.rows,
        r.cell row "issuer" ≠ .null → r.cell row "revocation_date" = .null) := by
  rcases le_or_gt v 0 with hlow | hpos
  · constructor
    · exact fun h => ⟨fun _ => (h db _ (migrate_of_lt_one (by omega))).1, fun hv => by omega⟩
    · rintro ⟨hlaid, -⟩ db' info hmigrate
      rw [migrate_of_lt_one (by omega)] at hmigrate
      cases hmigrate
      exact ⟨hlaid hlow, fun hv => by omega⟩
  · rcases le_or_gt v 5 with hle | hlate
    · rw [(hshaped hpos).migrates_early hpos hle]
      exact ⟨fun h => ⟨fun hv => by omega, fun _ _ => h⟩, fun h => h.2 hpos hle⟩
    · refine iff_of_true ((hshaped hpos).migrates_late hlate hlt)
        ⟨fun hv => by omega, fun _ hle => by omega⟩

end

/-! ### Samples -/

/-- A database of a version that holds some certificates. -/
def stored (l : Layout) (version : Int) (certificates : List Row) : Store := fun table =>
  (l.find table).map fun columns =>
    ⟨columns,
      if table = "config" then
        [fun name => if name = "id" then .integer 1
          else if name = "schema_version" then .integer version else .null]
      else if table = "certificate_authority" then certificates
      else []⟩

theorem stored_laid (l : Layout) (version : Int) (certificates : List Row) :
    (stored l version certificates).Laid l := by
  intro table
  unfold stored
  rw [Option.map_map]
  rfl

def certificate (serial : String) (issuer revocationDate : Cell) : Row := fun name =>
  if name = "serial" then .text serial
  else if name = "issuer" then issuer
  else if name = "revocation_date" then revocationDate
  else .null

theorem stored_shaped {certificates : List Row} (h : (keysOf "serial" certificates).Nodup) :
    Shaped 5 (stored (layoutOf 5) 5 certificates) where
  laid := ⟨_, List.mem_singleton_self _, stored_laid _ _ _⟩
  config := ⟨_, _, rfl, rfl, rfl, rfl⟩
  serials := by
    rintro r ⟨⟩
    exact h

/-- One certificate without an issuer, and one with. -/
def splitSample (revocationDate : Cell) : Store :=
  stored (layoutOf 5) 5
    [certificate "01" .null .null, certificate "02" (.text "CN=Other") revocationDate]

theorem splitSample_shaped (revocationDate : Cell) : Shaped 5 (splitSample revocationDate) :=
  stored_shaped (by simp [keysOf, certificate])

theorem splitSample_migrates : Migrates (.text "20260101000000Z") 5 (splitSample .null) := by
  refine (migrates_iff (by decide) fun _ => splitSample_shaped _).mpr
    ⟨fun h => absurd h (by decide), ?_⟩
  rintro - - r ⟨⟩ row hrow -
  have hrow : row ∈ [certificate "01" .null .null,
    certificate "02" (.text "CN=Other") .null] := hrow
  simp only [List.mem_cons, List.not_mem_nil, or_false] at hrow
  rcases hrow with rfl | rfl <;> rfl

/-- A version that there never was is left as it is; and a certificate that is moved is no
longer one that was revoked at some date. -/
theorem migration_falls_short :
    (∃ info, migrate .null (stored (layoutOf 1) 0 []) 0 = .ok (stored (layoutOf 1) 0 [], info) ∧
      ¬(stored (layoutOf 1) 0 []).Laid newLayout) ∧
    Shaped 5 (splitSample (.text "20250101000000Z")) ∧
    ¬Migrates .null 5 (splitSample (.text "20250101000000Z")) := by
  refine ⟨⟨_, migrate_of_lt_one (by decide), fun hlaid => ?_⟩, splitSample_shaped _, fun h => ?_⟩
  · have htable := hlaid "csr"
    have hfind : (newLayout.find "csr").isSome = true := by decide
    have hnone : stored (layoutOf 1) 0 [] "csr" = none := rfl
    rw [hnone] at htable
    rw [← Option.isSome_map, ← htable] at hfind
    cases hfind
  · have hdates := ((splitSample_shaped _).migrates_early (by decide) (by decide)).mp h _ rfl
      (certificate "02" (.text "CN=Other") (.text "20250101000000Z"))
      (List.mem_cons_of_mem _ (List.mem_singleton_self _))
    exact absurd (hdates (by decide)) (by decide)

end Opca.Core.Migration

/-
  Core/Dumped.lean --- a dump reads back as the database that it was made of, and what is
  left of one that is cut off is refused, unless all of it is there.

  A dump is a list of statements, each of which is read as what was written; up to the last
  of them a transaction stays open, however far the reading has come.
-/
import Opca.Core.DumpText

set_option autoImplicit false
set_option maxRecDepth 8000

namespace Opca.Core.Dump

open Opca.Foundation SqlText Opca.Core.Migration

/-- A row as its table keeps it. -/
structure Fits (lite : Sqlite) (d : Definition) (row : List Value) : Prop where
  length : row.length = d.columns.length
  coerced : lite.coerceRow d row = row
  notNull : ((d.columns.zip row).all fun (c, v) => !(c.notNull && v = .null)) = true
  numbered : d.rowid.isSome = true → (d.number row).isSome = true
  fits : ∀ n, Value.integer n ∈ row → -2 ^ 63 ≤ n ∧ n < 2 ^ 63

/-- A table as SQLite keeps one whose statement a dump can have. -/
structure Table.Sound (lite : Sqlite) (t : Table) : Prop where
  defined : lite.define t.sql = some (.table t.definition)
  created : firstWord t.sql = "CREATE".toList
  scanned : scan none t.sql = some none
  name_plain : doubleQuote ∉ t.name.toList ∧ nul ∉ t.name.toList
  name_free : ¬("sqlite_".toList <+: t.name.toList)
  columns : t.definition.columns ≠ []
  rows : ∀ row ∈ t.rows, Fits lite t.definition row
  rising : t.rows.Pairwise fun row later => ∀ m n, t.definition.number row = some m →
    t.definition.number later = some n → m < n
  distinct : t.rows.Pairwise fun row later => t.definition.sharesKey later row = false

structure Index.Sound (lite : Sqlite) (db : Db) (i : Index) : Prop where
  defined : lite.define i.sql = some (.index i.name i.table)
  created : firstWord i.sql = "CREATE".toList
  scanned : scan none i.sql = some none
  table : ∃ t ∈ db.tables, t.name = i.table

/-- A database between two calls: one that a migration leaves as it is, with all indexes. -/
structure Produced (lite : Sqlite) (steps : Db → Int → Except LoadError (Db × MigrationInfo))
    (db : Db) : Prop where
  autocommit : db.autocommit = true
  tables : ∀ t ∈ db.tables, t.Sound lite
  indexes : ∀ i ∈ db.indexes, i.Sound lite db
  tables_ordered : db.tables.Pairwise fun t later => t.name < later.name
  indexes_ordered : db.indexes.Pairwise fun i later => i.name < later.name
  version : ∃ version info, schemaVersion db = .ok version ∧
    migrate steps db version = .ok (db, info)
  indexed : ∀ entry ∈ createIndexesSql, (db.indexes.any fun i => i.name = entry.1) = true

/-- A dump loses nothing, and what is cut off of one is caught. -/
structure Kept (lite : Sqlite) (steps : Db → Int → Except LoadError (Db × MigrationInfo))
    (db : Db) : Prop where
  lossless : ∃ db' info, fromSqlDump lite steps (iterdump db) = .ok (db', info) ∧
    db'.tables = db.tables ∧ db'.indexes = db.indexes ∧ iterdump db' = iterdump db
  /-- What is cut within a character is no text. -/
  cuts : ∀ cut, cut <+: iterdump db → cut ≠ iterdump db →
    (∃ e, fromSqlDump lite steps cut = .error e) ∨
      fromSqlDump lite steps cut = fromSqlDump lite steps (iterdump db)

section

variable {lite : Sqlite} {db db' : Db} {text cut : List Char} {name : String} {row : List Value}
  {t : Table}

/-! ## What a statement leaves open -/

theorem create_autocommit {object : Object} (h : lite.create db text object = .ok db') :
    db'.autocommit = db.autocommit := by
  unfold Sqlite.create Sqlite.refuse at h
  split at h <;> split at h <;> cases h <;> rfl

theorem runOther_autocommit (hword : firstWord text ∉ enders) (hdb : db.autocommit = false)
    (h : lite.runOther db text = .ok db') : db'.autocommit = false := by
  unfold Sqlite.runOther Sqlite.refuse at h
  split at h
  · split at h
    · next db'' hother =>
      cases h
      by_contra hclosed
      exact hword (lite.other_ends hother hdb (by simpa using hclosed))
    · cases h
  · cases h

theorem insert_autocommit {values : List Value} (hword : firstWord text ∉ enders)
    (hdb : db.autocommit = false) (h : lite.insert db text name values = .ok db') :
    db'.autocommit = false := by
  unfold Sqlite.insert at h
  split at h
  · cases h
  · dsimp only at h
    split at h
    · cases h
    · split at h
      · exact runOther_autocommit hword hdb h
      · split at h
        · cases h
          exact hdb
        · cases h

/-- A transaction stays open, but for the words that end one. -/
theorem run_autocommit (hword : firstWord text ∉ enders) (hdb : db.autocommit = false)
    (h : lite.run db text = .ok db') : db'.autocommit = false := by
  unfold Sqlite.run at h
  split at h
  · cases h
  · split at h
    · cases h
      exact hdb
    · split at h
      · split at h
        · rw [create_autocommit h, hdb]
        · exact runOther_autocommit hword hdb h
      · split at h
        · rw [hdb] at h
          cases h
        · split at h
          · next hcommit =>
            rw [hcommit] at hword
            exact absurd (by decide) hword
          · split at h
            · exact insert_autocommit hword hdb h
            · exact runOther_autocommit hword hdb h

/-! ## Cut statements -/

theorem starts_of_firstWord (h : firstWord text ≠ []) : text.dropWhile isSpace = text := by
  cases text with
  | nil => rfl
  | cons c cs =>
    by_cases halpha : c.isAlpha = true
    · have hspace : isSpace c = false := by
        by_contra hspace
        simp only [isSpace, Bool.not_eq_false, decide_eq_true_eq] at hspace
        simp only [List.mem_cons, List.not_mem_nil, or_false] at hspace
        rcases hspace with rfl | rfl | rfl | rfl | rfl <;> cases halpha
      rw [List.dropWhile_cons, hspace, if_neg Bool.false_ne_true]
    · refine absurd ?_ h
      unfold firstWord
      rw [List.takeWhile_cons, if_neg halpha]
      rfl

theorem whole_of_created (hscan : scan none text = some none)
    (hword : firstWord text = "CREATE".toList) : Whole text :=
  ⟨hscan, starts_of_firstWord (by rw [hword]; decide)⟩

theorem words_not_enders : (["CREATE".toList, "INSERT".toList].all fun word =>
    word.inits.all fun cut => decide (cut ∉ enders)) = true := by
  decide

/-- However much there is of a statement, the transaction stays open. -/
theorem run_cut (hword : firstWord text ∈ ["CREATE".toList, "INSERT".toList])
    (hcut : cut <+: text) (hdb : db.autocommit = false)
    (h : lite.run db cut = .ok db') : db'.autocommit = false := by
  have hall := List.all_eq_true.mp (List.all_eq_true.mp words_not_enders _ hword) (firstWord cut)
    ((List.mem_inits _ _).mpr (firstWord_cut hcut))
  exact run_autocommit (of_decide_eq_true hall) hdb h

/-- None of the statements of a dump. -/
def isOther (text : List Char) : Bool :=
  !unclosed text && firstWord text ≠ "CREATE".toList && text ≠ "BEGIN TRANSACTION".toList &&
    text ≠ "COMMIT".toList && (readInsert text).isNone && text.dropWhile isSpace = text

theorem run_of_isOther (hne : text ≠ []) (h : isOther text = true) :
    lite.run db text = lite.runOther db text := by
  simp only [isOther, Bool.and_eq_true, Bool.not_eq_true', decide_eq_true_eq,
    Option.isNone_iff_eq_none] at h
  obtain ⟨⟨⟨⟨⟨hclosed, hcreate⟩, hbegin⟩, hcommit⟩, hinsert⟩, -⟩ := h
  unfold Sqlite.run
  rw [hclosed, if_neg Bool.false_ne_true, if_neg hne, if_neg hcreate, if_neg hbegin,
    if_neg hcommit, hinsert]

theorem cuts_of_begin : ("BEGIN TRANSACTION".toList.inits.all fun cut =>
    cut = [] || cut = "BEGIN TRANSACTION".toList || isOther cut &&
      (firstWord cut ∉ keywords || firstWord cut = "BEGIN".toList)) = true := by
  decide

theorem cuts_of_commit : ("COMMIT".toList.inits.all fun cut =>
    cut = [] || cut = "COMMIT".toList || isOther cut && firstWord cut ∉ keywords) = true := by
  decide

end

section

variable {lite : Sqlite} {steps : Db → Int → Except LoadError (Db × MigrationInfo)}
  {db db' : Db} {text : List Char} {t : Table} {d : Definition}
  {sql : List Char} {tables before : List Table} {indexes : List Index} {autocommit : Bool}
  {row : List Value} {done : List (List Value)}

/-! ## Running a dump -/

theorem takeWhile_append_dropWhile_of_all {α : Type} {p : α → Bool} {xs : List α} {x : α}
    (h : ∀ y ∈ xs, p y = true) : xs.takeWhile p ++ x :: xs.dropWhile p = xs ++ [x] := by
  rw [List.takeWhile_eq_self_iff.mpr h, List.dropWhile_eq_nil_iff.mpr h]

theorem place_last (hnumbered : ∀ other ∈ done, d.rowid.isSome = true →
      (d.number other).isSome = true)
    (hrising : ∀ other ∈ done, ∀ m n, d.number other = some m → d.number row = some n → m < n) :
    d.place done row = done ++ [row] := by
  unfold Definition.place
  cases hnumber : d.number row with
  | none => rfl
  | some n =>
    refine takeWhile_append_dropWhile_of_all fun other hother => ?_
    have hrowid : d.rowid.isSome = true := by
      obtain ⟨i, hi, -⟩ := Option.bind_eq_some_iff.mp hnumber
      rw [hi]
      rfl
    obtain ⟨m, hm⟩ := Option.isSome_iff_exists.mp (hnumbered other hother hrowid)
    rw [hm, Option.any_some]
    exact decide_eq_true (hrising other hother m n hm hnumber)

theorem admits_fits (hrow : Fits lite d row)
    (hrising : ∀ other ∈ done, ∀ m n, d.number other = some m → d.number row = some n → m < n)
    (hdistinct : ∀ other ∈ done, d.sharesKey row other = false) :
    d.admits done row = true := by
  unfold Definition.admits
  rw [hrow.notNull, decide_eq_true hrow.length, Bool.true_and, Bool.true_and, List.all_eq_true]
  intro other hother
  rw [hdistinct other hother, Bool.not_false, Bool.true_and, Bool.or_eq_true,
    decide_eq_true_eq]
  rcases Option.eq_none_or_eq_some d.rowid with hrowid | ⟨i, hrowid⟩
  · exact Or.inl (by rw [hrowid]; rfl)
  · obtain ⟨n, hn⟩ := Option.isSome_iff_exists.mp (hrow.numbered (by rw [hrowid]; rfl))
    refine Or.inr fun hsame => ?_
    rw [hn] at hsame
    exact absurd (hrising other hother n n hsame hn) (lt_irrefl n)

/-- A row whose number is the highest is put last in its table. -/
theorem insert_last (hbefore : ∀ t ∈ before, t.name ≠ d.name) (hrow : Fits lite d row)
    (hdone : ∀ other ∈ done, Fits lite d other)
    (hrising : ∀ other ∈ done, ∀ m n, d.number other = some m → d.number row = some n → m < n)
    (hdistinct : ∀ other ∈ done, d.sharesKey row other = false) :
    lite.insert ⟨before ++ [⟨d, sql, done⟩], indexes, autocommit⟩ text d.name row =
      .ok ⟨before ++ [⟨d, sql, done ++ [row]⟩], indexes, autocommit⟩ := by
  have hfind : (before ++ [(⟨d, sql, done⟩ : Table)]).find? (fun t => t.name = d.name) =
      some ⟨d, sql, done⟩ := by
    rw [List.find?_append, List.find?_eq_none.mpr fun t ht => by simpa using hbefore t ht,
      Option.none_or, List.find?_cons_of_pos (by simp [Table.name])]
  have hmap : before.map (fun t' : Table => if t'.name = d.name then
      { t' with rows := t'.definition.place t'.rows row } else t') = before :=
    (List.map_congr_left fun t ht => if_neg (hbefore t ht)).trans (List.map_id' before)
  unfold Sqlite.insert
  dsimp only
  rw [hfind]
  dsimp only
  rw [hrow.coerced, if_neg (not_not_intro hrow.length), if_neg,
    if_pos (admits_fits hrow hrising hdistinct), List.map_append, List.map_singleton,
    place_last (fun other hother => (hdone other hother).numbered) hrising]
  · rw [if_pos (show Table.name ⟨d, sql, done⟩ = d.name from rfl), hmap]
  · rintro ⟨hrowid, hnone⟩
    have hnumbered := hrow.numbered hrowid
    rw [Option.isNone_iff_eq_none.mp hnone] at hnumbered
    cases hnumbered

theorem run_insertText (ht : t.Sound lite) (hrow : Fits lite t.definition row)
    (hclean : ∀ v ∈ row, v.Clean) :
    lite.run db (insertText t.name row) =
      lite.insert db (insertText t.name row) t.name row := by
  have hwhole := whole_insertText ht.name_plain.1 ht.name_plain.2 hclean
  have hne : row ≠ [] := by
    rintro rfl
    exact ht.columns (List.length_eq_zero_iff.mp hrow.length.symm)
  have hword : firstWord (insertText t.name row) = "INSERT".toList := firstWord_insertText
  have hcons : insertText t.name row ≠ [] := List.cons_ne_nil _ _
  unfold Sqlite.run
  rw [unclosed_of_scan hwhole.scan, if_neg (by simp), if_neg hcons, if_neg, if_neg, if_neg,
    readInsert_insertText ht.name_plain.1 hne hrow.fits]
  · intro h
    rw [h] at hword
    exact absurd hword (by decide)
  · intro h
    rw [h] at hword
    exact absurd hword (by decide)
  · rw [hword]
    decide

theorem run_created {object : Object} (hscan : scan none text = some none)
    (hword : firstWord text = "CREATE".toList) (hdefine : lite.define text = some object) :
    lite.run db text = lite.create db text object := by
  have hne : text ≠ [] := by
    rintro rfl
    exact absurd hword (by decide)
  unfold Sqlite.run
  rw [unclosed_of_scan hscan, if_neg (by simp), if_neg hne, if_pos hword, hdefine]

/-- The rows of a table are put in it one after the other. -/
theorem run_rows (ht : t.Sound lite) (hbefore : ∀ t' ∈ before, t'.name ≠ t.name)
    (hclean : ∀ row ∈ t.rows, ∀ v ∈ row, v.Clean) {rest : List (List Value)}
    (hrows : t.rows = done ++ rest) :
    (rest.map (insertText t.name)).foldlM lite.run
        ⟨before ++ [⟨t.definition, t.sql, done⟩], indexes, autocommit⟩ =
      .ok ⟨before ++ [t], indexes, autocommit⟩ := by
  induction rest generalizing done with
  | nil =>
    rw [List.append_nil] at hrows
    rw [← hrows]
    rfl
  | cons row rest ih =>
    have hmem : row ∈ t.rows := by
      rw [hrows]
      exact List.mem_append_right _ List.mem_cons_self
    have hdone : ∀ other ∈ done, other ∈ t.rows := fun other hother => by
      rw [hrows]
      exact List.mem_append_left _ hother
    have hrising := ht.rising
    have hdistinct := ht.distinct
    rw [hrows, List.pairwise_append] at hrising hdistinct
    rw [List.map_cons, List.foldlM_cons, run_insertText ht (ht.rows row hmem) (hclean row hmem)]
    rw [show t.name = t.definition.name from rfl,
      insert_last hbefore (ht.rows row hmem)
        (fun other hother => ht.rows other (hdone other hother))
        (fun other hother => hrising.2.2 other hother row List.mem_cons_self)
        (fun other hother => hdistinct.2.2 other hother row List.mem_cons_self)]
    exact ih (by rw [hrows, List.append_assoc, List.singleton_append])

/-- The statements for a table and its rows. -/
def Table.statements (t : Table) : List (List Char) := t.sql :: t.rows.map (insertText t.name)

theorem run_table (ht : t.Sound lite) (hbefore : ∀ t' ∈ before, t'.name < t.name)
    (hclean : ∀ row ∈ t.rows, ∀ v ∈ row, v.Clean) :
    t.statements.foldlM lite.run ⟨before, indexes, autocommit⟩ =
      .ok ⟨before ++ [t], indexes, autocommit⟩ := by
  have hnames : ∀ t' ∈ before, t'.name ≠ t.name := fun t' ht' => (hbefore t' ht').ne
  have hplace := takeWhile_append_dropWhile_of_all (x := (⟨t.definition, t.sql, []⟩ : Table))
    (p := fun t' : Table => t'.name < t.definition.name)
    fun t' ht' => decide_eq_true (hbefore t' ht')
  have hcreate : lite.create ⟨before, indexes, autocommit⟩ t.sql (.table t.definition) =
      .ok ⟨before ++ [⟨t.definition, t.sql, []⟩], indexes, autocommit⟩ := by
    unfold Sqlite.create
    dsimp only
    rw [if_pos ⟨List.all_eq_true.mpr fun t' ht' => decide_eq_true (hnames t' ht'), ht.name_free⟩,
      hplace]
  rw [Table.statements, List.foldlM_cons, run_created ht.scanned ht.created ht.defined, hcreate]
  exact run_rows ht hnames hclean rfl

theorem run_tables (hsound : ∀ t ∈ tables, t.Sound lite)
    (hordered : (before ++ tables).Pairwise fun t later => t.name < later.name)
    (hclean : ∀ t ∈ tables, ∀ row ∈ t.rows, ∀ v ∈ row, v.Clean) :
    (tables.flatMap Table.statements).foldlM lite.run ⟨before, indexes, autocommit⟩ =
      .ok ⟨before ++ tables, indexes, autocommit⟩ := by
  induction tables generalizing before with
  | nil =>
    rw [List.append_nil]
    rfl
  | cons t tables ih =>
    have hbefore := (List.pairwise_append.mp hordered).2.2
    rw [List.flatMap_cons, List.foldlM_append, run_table (hsound t List.mem_cons_self)
      (fun t' ht' => hbefore t' ht' t List.mem_cons_self) (hclean t List.mem_cons_self)]
    show (tables.flatMap Table.statements).foldlM lite.run ⟨before ++ [t], indexes, autocommit⟩ = _
    rw [ih (fun t' ht' => hsound t' (List.mem_cons_of_mem _ ht')) (by simpa using hordered)
      fun t' ht' => hclean t' (List.mem_cons_of_mem _ ht')]
    simp

theorem run_indexes {earlier later : List Index}
    (hsound : ∀ i ∈ later, i.Sound lite ⟨tables, indexes, true⟩)
    (hordered : (earlier ++ later).Pairwise fun i next => i.name < next.name) :
    (later.map Index.sql).foldlM lite.run ⟨tables, earlier, autocommit⟩ =
      .ok ⟨tables, earlier ++ later, autocommit⟩ := by
  induction later generalizing earlier with
  | nil =>
    rw [List.append_nil]
    rfl
  | cons i later ih =>
    have hi := hsound i List.mem_cons_self
    have hbefore := fun i' hi' =>
      (List.pairwise_append.mp hordered).2.2 i' hi' i List.mem_cons_self
    have hcreate : lite.create ⟨tables, earlier, autocommit⟩ i.sql (.index i.name i.table) =
        .ok ⟨tables, earlier ++ [i], autocommit⟩ := by
      obtain ⟨t, ht, hname⟩ := hi.table
      unfold Sqlite.create
      dsimp only
      rw [if_pos ⟨List.any_eq_true.mpr ⟨t, ht, decide_eq_true hname⟩, List.all_eq_true.mpr
        fun i' hi' => decide_eq_true (hbefore i' hi').ne⟩,
        takeWhile_append_dropWhile_of_all fun i' hi' => decide_eq_true (hbefore i' hi')]
    rw [List.map_cons, List.foldlM_cons, run_created hi.scanned hi.created hi.defined, hcreate]
    show (later.map Index.sql).foldlM lite.run ⟨tables, earlier ++ [i], autocommit⟩ = _
    rw [ih (fun i' hi' => hsound i' (List.mem_cons_of_mem _ hi')) (by simpa using hordered)]
    simp

/-- What stands between the first statement of a dump and the last. -/
def Db.statements (db : Db) : List (List Char) :=
  db.tables.flatMap Table.statements ++ db.indexes.map Index.sql

/-- No text of a database has a NUL character in it. -/
def Db.Clean (db : Db) : Prop := ∀ t ∈ db.tables, ∀ row ∈ t.rows, ∀ v ∈ row, v.Clean

theorem Produced.run_statements (h : Produced lite steps db) (hclean : db.Clean) :
    ("BEGIN TRANSACTION".toList :: db.statements).foldlM lite.run Db.empty =
      .ok { db with autocommit := false } := by
  have hbegin : lite.run Db.empty "BEGIN TRANSACTION".toList = .ok ⟨[], [], false⟩ := rfl
  rw [List.foldlM_cons, hbegin]
  show db.statements.foldlM lite.run ⟨[], [], false⟩ = _
  rw [Db.statements, List.foldlM_append, run_tables h.tables (by simpa using h.tables_ordered)
    hclean]
  show (db.indexes.map Index.sql).foldlM lite.run ⟨db.tables, [], false⟩ = _
  have hindexes : ∀ i ∈ db.indexes, i.Sound lite ⟨db.tables, db.indexes, true⟩ := by
    intro i hi
    obtain ⟨hdefined, hcreated, hscanned, htable⟩ := h.indexes i hi
    exact ⟨hdefined, hcreated, hscanned, htable⟩
  rw [run_indexes hindexes (by simpa using h.indexes_ordered)]
  rfl

theorem iterdump_eq (h : ∀ t ∈ db.tables, ¬("sqlite_".toList <+: t.name.toList)) :
    iterdump db = lines ("BEGIN TRANSACTION".toList :: db.statements) ++
      lines ["COMMIT".toList] := by
  have htables : (db.tables.flatMap fun t =>
      if "sqlite_".toList <+: t.name.toList then []
      else t.sql ++ [';', '\n'] ++ emitInserts t) =
        lines (db.tables.flatMap Table.statements) := by
    unfold lines
    rw [List.flatMap_assoc]
    refine List.flatMap_congr fun t ht => ?_
    rw [if_neg (h t ht), Table.statements, List.flatMap_cons, List.flatMap_map]
    rfl
  have hindexes : (db.indexes.flatMap fun i => i.sql ++ [';', '\n']) =
      lines (db.indexes.map Index.sql) := by
    unfold lines
    rw [List.flatMap_map]
  have hsplit : lines ("BEGIN TRANSACTION".toList :: db.statements) =
      "BEGIN TRANSACTION;\n".toList ++ (lines (db.tables.flatMap Table.statements) ++
        lines (db.indexes.map Index.sql)) := by
    unfold lines Db.statements
    rw [List.flatMap_cons, List.flatMap_append]
    rfl
  unfold iterdump
  rw [htables, hindexes, hsplit, List.append_assoc, List.append_assoc, List.append_assoc,
    List.append_assoc]
  rfl

end

section

variable {lite : Sqlite} {steps : Db → Int → Except LoadError (Db × MigrationInfo)}
  {db db' : Db} {data cut : List Char}

/-! ## Reading a dump back -/

theorem createIndexes_of_indexed
    (h : ∀ entry ∈ createIndexesSql, (db.indexes.any fun i => i.name = entry.1) = true) :
    createIndexes lite db = .ok db := by
  unfold createIndexes
  generalize createIndexesSql = entries at h ⊢
  induction entries with
  | nil => rfl
  | cons entry entries ih =>
    rw [List.foldlM_cons]
    dsimp only
    rw [if_pos (h entry List.mem_cons_self)]
    exact ih fun entry hentry => h entry (List.mem_cons_of_mem _ hentry)

theorem fromSqlDump_of_produced (h : Produced lite steps db)
    (hbatch : lite.executeBatch Db.empty data = .ok db) :
    ∃ info, fromSqlDump lite steps data = .ok (db, info) := by
  obtain ⟨version, info, hversion, hmigrate⟩ := h.version
  refine ⟨info, ?_⟩
  unfold fromSqlDump
  rw [hbatch]
  simp [Except.mapError, bind, Except.bind, pure, Except.pure, h.autocommit, hversion, hmigrate,
    createIndexes_of_indexed h.indexed]

/-- What ends within a transaction is refused. -/
theorem fromSqlDump_of_open (h : ∀ db, lite.executeBatch Db.empty data = .ok db →
    db.autocommit = false ∨ db = Db.empty) : ∃ e, fromSqlDump lite steps data = .error e := by
  unfold fromSqlDump
  cases hbatch : lite.executeBatch Db.empty data with
  | error message => exact ⟨.databaseUnreadable message, rfl⟩
  | ok db =>
    rcases h db hbatch with hopen | rfl
    · refine ⟨.databaseUnreadable "dump is incomplete (no COMMIT)", ?_⟩
      simp [Except.mapError, bind, Except.bind, throw, throwThe, MonadExceptOf.throw, hopen]
    · exact ⟨.databaseUnreadable "no such table: config", rfl⟩

/-- A statement of a dump creates something, or puts a row in a table. -/
theorem Produced.mem_statements (h : Produced lite steps db) {text : List Char}
    (htext : text ∈ db.statements) :
    (scan none text = some none ∧ firstWord text = "CREATE".toList) ∨
      ∃ t ∈ db.tables, ∃ row ∈ t.rows, text = insertText t.name row := by
  rcases List.mem_append.mp htext with htext | htext
  · obtain ⟨t, ht, htext⟩ := List.mem_flatMap.mp htext
    rcases List.mem_cons.mp htext with rfl | htext
    · exact Or.inl ⟨(h.tables t ht).scanned, (h.tables t ht).created⟩
    · obtain ⟨row, hrow, rfl⟩ := List.mem_map.mp htext
      exact Or.inr ⟨t, ht, row, hrow, rfl⟩
  · obtain ⟨i, hi, rfl⟩ := List.mem_map.mp htext
    exact Or.inl ⟨(h.indexes i hi).scanned, (h.indexes i hi).created⟩

theorem Produced.whole (h : Produced lite steps db) (hclean : db.Clean) :
    ∀ text ∈ db.statements, Whole text ∧
      firstWord text ∈ ["CREATE".toList, "INSERT".toList] := by
  intro text htext
  rcases h.mem_statements htext with ⟨hscan, hword⟩ | ⟨t, ht, row, hrow, rfl⟩
  · refine ⟨whole_of_created hscan hword, ?_⟩
    rw [hword]
    exact List.mem_cons_self
  · have hplain := (h.tables t ht).name_plain
    refine ⟨whole_insertText hplain.1 hplain.2 (hclean t ht row hrow), ?_⟩
    rw [firstWord_insertText]
    exact List.mem_cons_of_mem _ List.mem_cons_self

theorem Produced.iterdump_eq (h : Produced lite steps db) :
    iterdump db = lines ("BEGIN TRANSACTION".toList :: db.statements) ++
      lines ["COMMIT".toList] :=
  Dump.iterdump_eq fun t ht => (h.tables t ht).name_free

theorem whole_begin : Whole "BEGIN TRANSACTION".toList := ⟨rfl, rfl⟩

theorem whole_commit : Whole "COMMIT".toList := ⟨rfl, rfl⟩

theorem run_commit (h : db.autocommit = true) :
    lite.run { db with autocommit := false } "COMMIT".toList = .ok db := by
  show Except.ok { db with autocommit := true } = _
  rw [← h]

/-- What is left of the first statement opens a transaction, or does nothing. -/
theorem run_begin_cut (hcut : cut <+: "BEGIN TRANSACTION".toList)
    (hrun : lite.run Db.empty cut = .ok db') : db'.autocommit = false ∨ db' = Db.empty := by
  have hcase := List.all_eq_true.mp cuts_of_begin cut ((List.mem_inits _ _).mpr hcut)
  simp only [Bool.or_eq_true, Bool.and_eq_true, decide_eq_true_eq] at hcase
  by_cases hnil : cut = []
  · subst hnil
    cases hrun
    exact Or.inr rfl
  rcases hcase with (hempty | rfl) | ⟨hother, hword⟩
  · exact absurd hempty hnil
  · cases hrun
    exact Or.inl rfl
  · rw [run_of_isOther hnil hother] at hrun
    unfold Sqlite.runOther Sqlite.refuse at hrun
    split at hrun
    · next hkeyword =>
      split at hrun
      · next hdone =>
        cases hrun
        exact Or.inl (lite.other_begins hdone (hword.resolve_left (not_not_intro hkeyword)))
      · cases hrun
    · cases hrun

/-- What is left of the last statement closes the transaction only if it is all there. -/
theorem run_commit_cut (h : db.autocommit = true) (hcut : cut <+: "COMMIT".toList) :
    lite.run { db with autocommit := false } cut = .ok db ∨
      ∀ db', lite.run { db with autocommit := false } cut = .ok db' → db'.autocommit = false := by
  have hcase := List.all_eq_true.mp cuts_of_commit cut ((List.mem_inits _ _).mpr hcut)
  simp only [Bool.or_eq_true, Bool.and_eq_true, decide_eq_true_eq] at hcase
  by_cases hnil : cut = []
  · subst hnil
    refine Or.inr ?_
    rintro db' ⟨⟩
    rfl
  rcases hcase with (hempty | rfl) | ⟨hother, hword⟩
  · exact absurd hempty hnil
  · exact Or.inl (run_commit h)
  · refine Or.inr fun db' hrun => ?_
    rw [run_of_isOther hnil hother] at hrun
    unfold Sqlite.runOther Sqlite.refuse at hrun
    rw [if_neg hword] at hrun
    cases hrun

/-- Up to its last statement, a dump leaves the transaction open. -/
theorem Produced.open_of_cut (h : Produced lite steps db) (hclean : db.Clean)
    (hcut : cut <+: lines ("BEGIN TRANSACTION".toList :: db.statements))
    (hbatch : lite.executeBatch Db.empty cut = .ok db') :
    db'.autocommit = false ∨ db' = Db.empty := by
  have hbegin : lite.run Db.empty "BEGIN TRANSACTION".toList = .ok ⟨[], [], false⟩ := rfl
  unfold Sqlite.executeBatch at hbatch
  rw [lines_cons] at hcut
  rcases batch_cut_cases lite.run Db.empty whole_begin hcut with
    ⟨hbefore, hrun⟩ | ⟨after, hafter, hrun⟩
  · rw [hrun] at hbatch
    exact run_begin_cut hbefore hbatch
  · rw [hrun, hbegin] at hbatch
    have hall := h.whole hclean
    refine Or.inl (batch_cut (I := fun db => db.autocommit = false)
      (fun text htext => (hall text htext).1) ?_ ?_ hafter rfl hbatch)
    · exact fun text htext cut hcut s t hs hrun => run_cut (hall text htext).2 hcut hs hrun
    · rintro s t hs ⟨⟩
      exact hs

/-- The last statement of a dump is there or it is not. -/
theorem Produced.commit_cut (h : Produced lite steps db) (hcut : cut <+: lines ["COMMIT".toList]) :
    batch lite.run { db with autocommit := false } cut = .ok db ∨
      ∀ db', batch lite.run { db with autocommit := false } cut = .ok db' →
        db'.autocommit = false := by
  rw [lines_cons] at hcut
  rcases batch_cut_cases lite.run { db with autocommit := false } whole_commit hcut with
    ⟨hbefore, hrun⟩ | ⟨after, hafter, hrun⟩
  · rw [hrun]
    exact run_commit_cut h.autocommit hbefore
  · refine Or.inl ?_
    rw [hrun, run_commit h.autocommit, List.prefix_nil.mp hafter]
    show batch lite.run db [] = _
    rw [batch_nil]
    rfl

/-- What a dump comes to, up to what there is of its last statement. -/
theorem Produced.batch_statements (h : Produced lite steps db) (hclean : db.Clean) :
    lite.executeBatch Db.empty (lines ("BEGIN TRANSACTION".toList :: db.statements) ++ cut) =
      batch lite.run { db with autocommit := false } cut := by
  unfold Sqlite.executeBatch
  rw [batch_lines, h.run_statements hclean]
  · rfl
  · intro text htext
    rcases List.mem_cons.mp htext with rfl | htext
    · exact whole_begin
    · exact (h.whole hclean text htext).1

theorem Produced.loads (h : Produced lite steps db) (hclean : db.Clean) :
    lite.executeBatch Db.empty (iterdump db) = .ok db := by
  rw [h.iterdump_eq, h.batch_statements hclean, lines_cons, batch_semicolon whole_commit.scan,
    whole_commit.starts, run_commit h.autocommit]
  show batch lite.run db ('\n' :: []) = _
  rw [batch_newline, batch_nil]
  rfl

theorem Produced.kept (h : Produced lite steps db) (hclean : db.Clean) : Kept lite steps db := by
  have hloads := h.loads hclean
  obtain ⟨info, hread⟩ := fromSqlDump_of_produced h hloads
  refine ⟨⟨db, info, hread, rfl, rfl, rfl⟩, fun cut hcut _ => ?_⟩
  rw [h.iterdump_eq] at hcut
  rcases prefix_append_cases hcut with hbefore | ⟨after, rfl, hafter⟩
  · exact Or.inl (fromSqlDump_of_open fun db' hdb' => h.open_of_cut hclean hbefore hdb')
  · have hrest : lite.executeBatch Db.empty
        (lines ("BEGIN TRANSACTION".toList :: db.statements) ++ after) = _ :=
      h.batch_statements hclean
    rcases h.commit_cut hafter with hdone | hopen
    · refine Or.inr ?_
      unfold fromSqlDump
      rw [hrest.trans hdone, hloads]
    · exact Or.inl (fromSqlDump_of_open fun db' hdb' => Or.inl (hopen db' (hrest.symm.trans hdb')))

/-- A NUL character makes a dump one that does not load. -/
theorem Produced.not_loaded (h : Produced lite steps db) (hdirty : ¬db.Clean) :
    ∃ e, fromSqlDump lite steps (iterdump db) = .error e := by
  have hunclosed : ∀ (s : Db) (text : List Char), unclosed text = true →
      ∃ e, lite.run s text = .error e := by
    intro s text hopen
    unfold Sqlite.run
    rw [if_pos hopen]
    exact ⟨_, rfl⟩
  have hall : ∀ text ∈ "BEGIN TRANSACTION".toList :: db.statements, Whole text ∨ Broken text := by
    intro text htext
    rcases List.mem_cons.mp htext with rfl | htext
    · exact Or.inl whole_begin
    rcases h.mem_statements htext with ⟨hscan, hword⟩ | ⟨t, ht, row, hrow, rfl⟩
    · exact Or.inl (whole_of_created hscan hword)
    · have hplain := (h.tables t ht).name_plain
      by_cases hclean : ∀ v ∈ row, v.Clean
      · exact Or.inl (whole_insertText hplain.1 hplain.2 hclean)
      · exact Or.inr (broken_insertText hplain.1 hplain.2 hclean)
  have hbroken : ∃ text ∈ "BEGIN TRANSACTION".toList :: db.statements, Broken text := by
    unfold Db.Clean at hdirty
    simp only [not_forall] at hdirty
    obtain ⟨t, ht, row, hrow, v, hv, hdirty⟩ := hdirty
    have hsound := h.tables t ht
    refine ⟨insertText t.name row, List.mem_cons_of_mem _ (List.mem_append_left _
      (List.mem_flatMap.mpr ⟨t, ht, List.mem_cons_of_mem _ (List.mem_map_of_mem hrow)⟩)), ?_⟩
    exact broken_insertText hsound.name_plain.1 hsound.name_plain.2 fun hclean =>
      hdirty (hclean v hv)
  have hbatch : ∃ e, batch lite.run Db.empty
      (lines ("BEGIN TRANSACTION".toList :: db.statements) ++ lines ["COMMIT".toList]) =
        .error e :=
    batch_broken hunclosed hall hbroken
  obtain ⟨e, he⟩ := hbatch
  unfold fromSqlDump Sqlite.executeBatch
  rw [h.iterdump_eq, he]
  exact ⟨.databaseUnreadable e, rfl⟩

/-- A database of the current version is what its dump reads back as, and a dump that is cut
off is refused or reads back as the same, where no text has a NUL character in it. -/
theorem dump_kept_iff (h : Produced lite steps db) : Kept lite steps db ↔ db.Clean := by
  constructor
  · intro hkept
    by_contra hdirty
    obtain ⟨e, he⟩ := h.not_loaded hdirty
    obtain ⟨db', info, hread, -⟩ := hkept.lossless
    rw [he] at hread
    cases hread
  · exact h.kept

end

/-! ### Samples -/

def sampleTable (name sql : String) (columns : List Column) (rowid : Option Nat)
    (keys : List (List Nat)) (rows : List (List Value)) : Table :=
  ⟨⟨name, columns, rowid, keys⟩, sql.toList, rows⟩

/-- Some tables of the code, with a few columns of each. -/
def sampleDb (org : String) : Db where
  tables :=
    [sampleTable "certificate_authority"
        "CREATE TABLE certificate_authority (cn TEXT, title TEXT, status TEXT)"
        [⟨"cn", .text, false⟩, ⟨"title", .text, false⟩, ⟨"status", .text, false⟩] none [] [],
      sampleTable "config"
        "CREATE TABLE config (id INTEGER PRIMARY KEY, org TEXT, schema_version INTEGER)"
        [⟨"id", .integer, false⟩, ⟨"org", .text, false⟩, ⟨"schema_version", .integer, false⟩]
        (some 0) [] [[.integer 1, .text org, .integer 21]],
      sampleTable "csr" "CREATE TABLE csr (cn TEXT, status TEXT)"
        [⟨"cn", .text, false⟩, ⟨"status", .text, false⟩] none [] [],
      sampleTable "dkim_key" "CREATE TABLE dkim_key (domain TEXT NOT NULL)"
        [⟨"domain", .text, true⟩] none [] [],
      sampleTable "external_certificate"
        "CREATE TABLE external_certificate (cn TEXT, status TEXT)"
        [⟨"cn", .text, false⟩, ⟨"status", .text, false⟩] none [] []]
  indexes :=
    [("idx_ca_cn", "certificate_authority", "(cn)"),
      ("idx_ca_status", "certificate_authority", "(status)"),
      ("idx_ca_title", "certificate_authority", "(title)"), ("idx_csr_cn", "csr", "(cn)"),
      ("idx_csr_status", "csr", "(status)"), ("idx_dkim_domain", "dkim_key", "(domain)"),
      ("idx_ext_cn", "external_certificate", "(cn)"),
      ("idx_ext_status", "external_certificate", "(status)")].map fun (name, table, columns) =>
        ⟨name, table, "CREATE INDEX ".toList ++ name.toList ++ " ON ".toList ++ table.toList ++
          ' ' :: columns.toList⟩
  autocommit := true

/-- The CREATE statements of the sample are read, and no others.  Of the dump's statements cut
off, a BEGIN without its TRANSACTION is run. -/
def sampleLite : Sqlite where
  coerce _ v := v
  define text :=
    (((sampleDb "").tables.find? fun t => t.sql = text).map fun t => .table t.definition).or
      (((sampleDb "").indexes.find? fun i => i.sql = text).map fun i => .index i.name i.table)
  other db text :=
    if (text = "BEGIN".toList ∨ text = "BEGIN ".toList) ∧ db.autocommit then
      some { db with autocommit := false }
    else none
  message _ _ := "syntax error"
  other_ends h _ hends := by
    split at h
    · cases h
      cases hends
    · cases h
  other_begins h _ := by
    split at h
    · cases h
      rfl
    · cases h

def noSteps (_db : Db) (_version : Int) : Except LoadError (Db × MigrationInfo) :=
  .error (.schemaMigration "no steps")

theorem sampleLite_coerceRow {columns : List Column} {row : List Value}
    (h : row.length = columns.length) :
    List.zipWith (fun (c : Column) v => sampleLite.coerce c.affinity v) columns row = row := by
  induction columns generalizing row with
  | nil => rw [List.length_eq_zero_iff.mp h]; rfl
  | cons c columns ih =>
    cases row with
    | nil => cases h
    | cons v row =>
      rw [List.zipWith_cons_cons, ih (Nat.succ.inj h)]
      rfl

/-- A table without rows, of which the statement is read. -/
theorem sound_of_empty {t : Table} (hdefine : sampleLite.define t.sql = some (.table t.definition))
    (hword : firstWord t.sql = "CREATE".toList) (hscan : scan none t.sql = some none)
    (hname : (t.name.toList.all fun c => c.isAlpha || c == '_') = true)
    (hfree : ¬("sqlite_".toList <+: t.name.toList)) (hcolumns : t.definition.columns ≠ [])
    (hrows : t.rows = []) : t.Sound sampleLite where
  defined := hdefine
  created := hword
  scanned := hscan
  name_plain :=
    ⟨fun h => absurd (List.all_eq_true.mp hname _ h) (by decide),
      fun h => absurd (List.all_eq_true.mp hname _ h) (by decide)⟩
  name_free := hfree
  columns := hcolumns
  rows := by
    rw [hrows]
    exact List.forall_mem_nil _
  rising := by
    rw [hrows]
    exact List.Pairwise.nil
  distinct := by
    rw [hrows]
    exact List.Pairwise.nil

theorem config_sound (org : String) :
    (sampleTable "config"
      "CREATE TABLE config (id INTEGER PRIMARY KEY, org TEXT, schema_version INTEGER)"
      [⟨"id", .integer, false⟩, ⟨"org", .text, false⟩, ⟨"schema_version", .integer, false⟩]
      (some 0) [] [[.integer 1, .text org, .integer 21]]).Sound sampleLite where
  defined := rfl
  created := rfl
  scanned := rfl
  name_plain := by
    show doubleQuote ∉ "config".toList ∧ nul ∉ "config".toList
    decide
  name_free := by
    show ¬("sqlite_".toList <+: "config".toList)
    decide
  columns := List.cons_ne_nil _ _
  rows := by
    intro row hrow
    cases List.mem_singleton.mp hrow
    refine ⟨rfl, sampleLite_coerceRow rfl, rfl, fun _ => rfl, fun n hn => ?_⟩
    simp only [List.mem_cons, Value.integer.injEq, reduceCtorEq, List.not_mem_nil, or_false,
      false_or] at hn
    omega
  rising := List.pairwise_singleton _ _
  distinct := List.pairwise_singleton _ _

theorem sampleDb_clean {org : String} (h : nul ∉ org.toList) : (sampleDb org).Clean := by
  intro t ht row hrow v hv s hs
  simp only [sampleDb, List.mem_cons, List.not_mem_nil, or_false] at ht
  rcases ht with rfl | rfl | rfl | rfl | rfl
  · cases hrow
  · cases List.mem_singleton.mp hrow
    simp only [List.mem_cons, List.not_mem_nil, or_false] at hv
    rcases hv with rfl | rfl | rfl <;> cases hs
    exact h
  · cases hrow
  · cases hrow
  · cases hrow

theorem sampleDb_produced (org : String) : Produced sampleLite noSteps (sampleDb org) where
  autocommit := rfl
  tables := by
    intro t ht
    simp only [sampleDb, List.mem_cons, List.not_mem_nil, or_false] at ht
    rcases ht with rfl | rfl | rfl | rfl | rfl
    · exact sound_of_empty rfl rfl rfl rfl (by decide) (by decide) rfl
    · exact config_sound org
    · exact sound_of_empty rfl rfl rfl rfl (by decide) (by decide) rfl
    · exact sound_of_empty rfl rfl rfl rfl (by decide) (by decide) rfl
    · exact sound_of_empty rfl rfl rfl rfl (by decide) (by decide) rfl
  indexes := by
    intro i hi
    have hall : ((sampleDb "").indexes.all fun i =>
        sampleLite.define i.sql = some (.index i.name i.table) &&
          firstWord i.sql = "CREATE".toList && scan none i.sql = some none &&
          (sampleDb "").tables.any fun t => t.name = i.table) = true := by
      decide
    have hi := List.all_eq_true.mp hall i hi
    simp only [Bool.and_eq_true, decide_eq_true_eq] at hi
    obtain ⟨⟨⟨hdefine, hword⟩, hscan⟩, htable⟩ := hi
    refine ⟨hdefine, hword, hscan, ?_⟩
    have hnames : (sampleDb org).tables.map Table.name = (sampleDb "").tables.map Table.name := rfl
    obtain ⟨t, ht, hname⟩ := List.any_eq_true.mp htable
    have hmem := List.mem_map_of_mem (f := Table.name) ht
    rw [← hnames, of_decide_eq_true hname] at hmem
    exact List.mem_map.mp hmem
  tables_ordered := by
    have hnames : ((sampleDb org).tables.map Table.name).Pairwise (· < ·) := by
      show ((sampleDb "").tables.map Table.name).Pairwise (· < ·)
      decide
    exact List.pairwise_map.mp hnames
  indexes_ordered := by
    have hnames : ((sampleDb "").indexes.map Index.name).Pairwise (· < ·) := by decide
    exact List.pairwise_map.mp hnames
  version := ⟨21, _, rfl, rfl⟩
  indexed := by
    show ∀ entry ∈ createIndexesSql, ((sampleDb "").indexes.any fun i => i.name = entry.1) = true
    decide

theorem sampleDb_kept : Kept sampleLite noSteps (sampleDb "O'Brien; Söhne\n") :=
  (dump_kept_iff (sampleDb_produced _)).mpr (sampleDb_clean (by decide))

/-- A NUL character in the name of an organisation. -/
theorem nul_lost : Produced sampleLite noSteps (sampleDb (String.ofList ['a', nul, 'b'])) ∧
    ¬Kept sampleLite noSteps (sampleDb (String.ofList ['a', nul, 'b'])) := by
  have hproduced := sampleDb_produced (String.ofList ['a', nul, 'b'])
  have hdirty : ¬(sampleDb (String.ofList ['a', nul, 'b'])).Clean := by
    intro hclean
    refine hclean _ (List.mem_cons_of_mem _ List.mem_cons_self) _ (List.mem_singleton_self _) _
      (List.mem_cons_of_mem _ List.mem_cons_self) _ rfl ?_
    rw [String.toList_ofList]
    decide
  refine ⟨hproduced, fun hkept => ?_⟩
  obtain ⟨e, he⟩ := hproduced.not_loaded hdirty
  obtain ⟨db', info, hread, -⟩ := hkept.lossless
  rw [he] at hread
  cases hread

end Opca.Core.Dump

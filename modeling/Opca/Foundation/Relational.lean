/-
  Foundation/Relational.lean --- tables whose columns are added and dropped in place, the
  statements that change them, and what is left by a run of statements of the columns and
  the rows that were there.

  A row is a cell for each name; the names that are no column of its table hold nothing.
-/
import Mathlib.Data.Finset.Basic
import Mathlib.Data.Finset.Lattice.Lemmas
import Mathlib.Data.List.Forall2
import Mathlib.Logic.Function.Basic
import Opca.Foundation.Fallible

set_option autoImplicit false

namespace Opca.Foundation.Relational

inductive Cell where
  | null
  | integer (n : Int)
  | text (s : String)
  deriving DecidableEq, Repr

inductive ColumnType where
  | integer
  | text
  deriving DecidableEq, Repr

structure Column where
  name : String
  type : ColumnType
  deriving DecidableEq, Repr

abbrev Row := String → Cell

structure Relation where
  columns : List Column
  rows : List Row

def Relation.names (r : Relation) : List String := r.columns.map Column.name

/-- What a row holds in a column; nothing where there is no such column. -/
def Relation.cell (r : Relation) (row : Row) (name : String) : Cell :=
  if name ∈ r.names then row name else .null

theorem cell_of_mem {r : Relation} {name : String} (h : name ∈ r.names) (row : Row) :
    r.cell row name = row name :=
  if_pos h

theorem cell_of_not_mem {r : Relation} {name : String} (h : name ∉ r.names) (row : Row) :
    r.cell row name = .null :=
  if_neg h

abbrev Store := String → Option Relation

/-! ## Statements -/

inductive Expr where
  | column (name : String)
  | literal (cell : Cell)
  /-- What is bound to the statement when it is run. -/
  | parameter
  /-- A text before what a column holds; nothing if it holds nothing. -/
  | prefixed (text name : String)
  /-- The number of a column that holds one, but no more than `n`. -/
  | atMost (n : Int) (name : String)

def Expr.eval (bound : Cell) (row : Row) : Expr → Cell
  | .column name => row name
  | .literal cell => cell
  | .parameter => bound
  | .prefixed text name =>
    match row name with
    | .null => .null
    | .integer n => .text (text ++ toString n)
    | .text s => .text (text ++ s)
  | .atMost n name =>
    match row name with
    | .integer m => .integer (min m n)
    | .null | .text _ => .integer n

def Expr.reads : Expr → List String
  | .column name | .prefixed _ name | .atMost _ name => [name]
  | .literal _ | .parameter => []

inductive Condition where
  | always
  | equals (name : String) (cell : Cell)
  | notNull (name : String)

def Condition.holds (row : Row) : Condition → Bool
  | .always => true
  | .equals name cell => row name = cell
  | .notNull name => row name ≠ .null

def Condition.reads : Condition → List String
  | .always => []
  | .equals name _ | .notNull name => [name]

inductive Change where
  /-- `CREATE TABLE IF NOT EXISTS`. -/
  | create (table : String) (columns : List Column)
  | addColumn (table : String) (column : Column) (unset : Cell)
  /-- The same, unless the table has the column. -/
  | addMissing (table : String) (column : Column)
  | dropColumn (table name : String)
  | set (table name : String) (value : Expr) (condition : Condition)
  /-- `INSERT INTO .. SELECT`, into a table whose rows differ in `key` where they hold one. -/
  | copy (source target key : String) (cells : List (String × Expr)) (condition : Condition)
  | delete (table : String) (condition : Condition)

inductive Refusal where
  | noTable (table : String)
  | noColumn (table name : String)
  | duplicateColumn (table name : String)
  | unique (table key : String)
  deriving DecidableEq, Repr

def Store.relation (db : Store) (table : String) : Except Refusal Relation :=
  match db table with
  | some r => .ok r
  | none => .error (.noTable table)

def Relation.needs (r : Relation) (table : String) (names : List String) :
    Except Refusal Unit :=
  match names.find? (· ∉ r.names) with
  | some name => .error (.noColumn table name)
  | none => .ok ()

def Relation.add (r : Relation) (column : Column) (unset : Cell) : Relation where
  columns := r.columns ++ [column]
  rows := r.rows.map fun row => Function.update row column.name unset

/-- The row that is made of another. -/
def made (bound : Cell) (cells : List (String × Expr)) (row : Row) : Row := fun name =>
  match cells.find? (·.1 = name) with
  | some cell => cell.2.eval bound row
  | none => .null

def Relation.drop (r : Relation) (name : String) : Relation where
  columns := r.columns.filter (·.name ≠ name)
  rows := r.rows

def Relation.assign (bound : Cell) (r : Relation) (name : String) (value : Expr)
    (condition : Condition) : Relation where
  columns := r.columns
  rows := r.rows.map fun row =>
    if condition.holds row then Function.update row name (value.eval bound row) else row

/-- The rows that are made of another table's are inserted. -/
def Relation.insert (bound : Cell) (r source : Relation) (cells : List (String × Expr))
    (condition : Condition) : Relation where
  columns := r.columns
  rows := r.rows ++ (source.rows.filter (condition.holds ·)).map (made bound cells)

def Relation.delete (r : Relation) (condition : Condition) : Relation where
  columns := r.columns
  rows := r.rows.filter fun row => !condition.holds row

/-- The keys that rows hold. -/
def keysOf (key : String) (rows : List Row) : List Cell :=
  (rows.map (· key)).filter (· ≠ .null)

def Change.run (bound : Cell) (db : Store) : Change → Except Refusal Store
  | .create table columns =>
    match db table with
    | some _ => .ok db
    | none => .ok (Function.update db table (some ⟨columns, []⟩))
  | .addColumn table column unset => do
    let r ← db.relation table
    if column.name ∈ r.names then .error (.duplicateColumn table column.name)
    else .ok (Function.update db table (some (r.add column unset)))
  | .addMissing table column => do
    let r ← db.relation table
    if column.name ∈ r.names then .ok db
    else .ok (Function.update db table (some (r.add column .null)))
  | .dropColumn table name => do
    let r ← db.relation table
    r.needs table [name]
    .ok (Function.update db table (some (r.drop name)))
  | .set table name value condition => do
    let r ← db.relation table
    r.needs table (name :: value.reads ++ condition.reads)
    .ok (Function.update db table (some (r.assign bound name value condition)))
  | .copy source target key cells condition => do
    let from_ ← db.relation source
    let into_ ← db.relation target
    from_.needs source (cells.flatMap (·.2.reads) ++ condition.reads)
    into_.needs target (cells.map Prod.fst)
    if (keysOf key (into_.insert bound from_ cells condition).rows).Nodup then
      .ok (Function.update db target (some (into_.insert bound from_ cells condition)))
    else .error (.unique target key)
  | .delete table condition => do
    let r ← db.relation table
    r.needs table condition.reads
    .ok (Function.update db table (some (r.delete condition)))

def runAll (bound : Cell) (changes : List Change) (db : Store) : Except Refusal Store :=
  changes.foldlM (Change.run bound) db

variable {bound : Cell}

/-! ## Layouts -/

/-- Tables and the columns that they have. -/
abbrev Layout := List (String × List Column)

namespace Layout

def find (l : Layout) (table : String) : Option (List Column) :=
  match l with
  | [] => none
  | entry :: rest => if entry.1 = table then some entry.2 else find rest table

def change (l : Layout) (table : String) (f : List Column → List Column) : Layout :=
  l.map fun entry => if entry.1 = table then (entry.1, f entry.2) else entry

/-- The same tables, of the same columns. -/
def same (l l' : Layout) : Bool :=
  let within (l l' : Layout) := l.all fun entry =>
    ((l.find entry.1).any fun columns => (l'.find entry.1).any fun columns' =>
      columns.all (· ∈ columns') && columns'.all (· ∈ columns))
  within l l' && within l' l

theorem find_append {l : Layout} {table other : String} {columns : List Column} :
    find (l ++ [(other, columns)]) table =
      (l.find table).or (if other = table then some columns else none) := by
  induction l with
  | nil => simp [find]
  | cons entry rest ih =>
    rw [List.cons_append, find, find, ih]
    by_cases h : entry.1 = table
    · rw [if_pos h, if_pos h]
      rfl
    · rw [if_neg h, if_neg h]

theorem find_change {l : Layout} {table other : String} {f : List Column → List Column} :
    find (l.change other f) table =
      if table = other then (l.find table).map f else l.find table := by
  induction l with
  | nil => simp [find, change]
  | cons entry rest ih =>
    unfold change at ih ⊢
    rw [List.map_cons, find, find, ih]
    by_cases hentry : entry.1 = other
    · rw [if_pos hentry]
      by_cases htable : other = table
      · subst htable
        simp [hentry]
      · simp [hentry, htable, Ne.symm htable]
    · rw [if_neg hentry]
      by_cases htable : entry.1 = table
      · subst htable
        simp [hentry]
      · simp [htable]

theorem mem_of_find {l : Layout} {table : String} {columns : List Column}
    (h : l.find table = some columns) : (table, columns) ∈ l := by
  induction l with
  | nil => cases h
  | cons first rest ih =>
    rw [find] at h
    split at h
    · next heq =>
      cases h
      rw [← heq]
      exact List.mem_cons_self
    · exact List.mem_cons_of_mem _ (ih h)

/-- What `same` says of a table. -/
theorem find_of_same {l l' : Layout} (h : l.same l' = true) (table : String) :
    (l.find table).map List.toFinset = (l'.find table).map List.toFinset := by
  unfold same at h
  obtain ⟨hleft, hright⟩ := Bool.and_eq_true_iff.mp h
  have hfound {l l' : Layout} {columns : List Column}
      (hwithin : (l.all fun entry => (l.find entry.1).any fun columns =>
        (l'.find entry.1).any fun columns' =>
          columns.all (· ∈ columns') && columns'.all (· ∈ columns)) = true)
      (hfind : l.find table = some columns) :
      (l'.find table).map List.toFinset = some columns.toFinset := by
    have hentry := List.all_eq_true.mp hwithin _ (mem_of_find hfind)
    rw [hfind, Option.any_some] at hentry
    obtain ⟨columns', hfind', hsame⟩ := (Option.any_eq_true _ _).mp hentry
    obtain ⟨hsub, hsub'⟩ := Bool.and_eq_true_iff.mp hsame
    rw [hfind', Option.map_some]
    refine congrArg some (Finset.ext fun column => ?_)
    rw [List.mem_toFinset, List.mem_toFinset]
    exact ⟨fun hmem => of_decide_eq_true (List.all_eq_true.mp hsub' column hmem),
      fun hmem => of_decide_eq_true (List.all_eq_true.mp hsub column hmem)⟩
  cases hfind : l.find table with
  | some columns => exact (hfound hleft hfind).symm
  | none =>
    cases hfind' : l'.find table with
    | none => rfl
    | some columns =>
      have hback := hfound hright hfind'
      rw [hfind] at hback
      cases hback

end Layout

/-- The store has a layout. -/
def Store.Laid (db : Store) (l : Layout) : Prop :=
  ∀ table, (db table).map (·.columns.toFinset) = (l.find table).map List.toFinset

/-- What a statement makes of a layout, if it is one that it can be run on. -/
def Change.lay (l : Layout) : Change → Option Layout
  | .create table columns =>
    if (l.find table).isSome then some l else some (l ++ [(table, columns)])
  | .addColumn table column _ => do
    let columns ← l.find table
    if column.name ∈ columns.map Column.name then none
    else some (l.change table (· ++ [column]))
  | .addMissing table column => do
    let columns ← l.find table
    if column.name ∈ columns.map Column.name then some l
    else some (l.change table (· ++ [column]))
  | .dropColumn table name => do
    let columns ← l.find table
    if name ∈ columns.map Column.name then some (l.change table (·.filter (·.name ≠ name)))
    else none
  | .set table name value condition => do
    let columns ← l.find table
    if (name :: value.reads ++ condition.reads).all (· ∈ columns.map Column.name) then some l
    else none
  | .copy source target _ cells condition => do
    let columns ← l.find source
    let columns' ← l.find target
    if (cells.flatMap (·.2.reads) ++ condition.reads).all (· ∈ columns.map Column.name) &&
        (cells.map Prod.fst).all (· ∈ columns'.map Column.name) then some l
    else none
  | .delete table condition => do
    let columns ← l.find table
    if condition.reads.all (· ∈ columns.map Column.name) then some l else none

def layAll (changes : List Change) (l : Layout) : Option Layout :=
  changes.foldlM Change.lay l

theorem layAll_cons {c : Change} {changes : List Change} {l l' : Layout} :
    layAll (c :: changes) l = some l' ↔
      ∃ next, c.lay l = some next ∧ layAll changes next = some l' := by
  unfold layAll
  rw [List.foldlM_cons]
  exact Option.bind_eq_some_iff

namespace Store.Laid

variable {db : Store} {l : Layout} {table : String} {r : Relation} {columns : List Column}

theorem of_same (h : db.Laid l) {l' : Layout} (hsame : l.same l' = true) : db.Laid l' :=
  fun table => (h table).trans (Layout.find_of_same hsame table)

theorem relation (h : db.Laid l) (hfind : l.find table = some columns) :
    ∃ r, db table = some r ∧ r.columns.toFinset = columns.toFinset := by
  have htable := h table
  rw [hfind, Option.map_some] at htable
  exact Option.map_eq_some_iff.mp htable

theorem mem_names (hcolumns : r.columns.toFinset = columns.toFinset) {name : String} :
    name ∈ r.names ↔ name ∈ columns.map Column.name := by
  have hmem (column : Column) : column ∈ r.columns ↔ column ∈ columns := by
    rw [← List.mem_toFinset, hcolumns, List.mem_toFinset]
  unfold Relation.names
  rw [List.mem_map, List.mem_map]
  exact exists_congr fun column => and_congr_left fun _ => hmem column

/-- The columns of a table that is laid out. -/
theorem exists_find (h : db.Laid l) (hr : db table = some r) :
    ∃ columns, l.find table = some columns ∧
      ∀ name, name ∈ r.names ↔ name ∈ columns.map Column.name := by
  have htable := h table
  rw [hr] at htable
  obtain ⟨columns, hfind, hcolumns⟩ := Option.map_eq_some_iff.mp htable.symm
  refine ⟨columns, hfind, fun name => ?_⟩
  exact mem_names hcolumns.symm

theorem mem_names_iff (h : db.Laid l) (hr : db table = some r) {name : String} :
    name ∈ r.names ↔ name ∈ ((l.find table).getD []).map Column.name := by
  obtain ⟨columns, hfind, hnames⟩ := h.exists_find hr
  rw [hfind]
  exact hnames name

/-- A table that is changed, and its columns with it. -/
theorem update (h : db.Laid l) (hfind : l.find table = some columns)
    {f : List Column → List Column} {s : Relation}
    (hcolumns : s.columns.toFinset = (f columns).toFinset) :
    Store.Laid (Function.update db table (some s)) (l.change table f) := by
  intro other
  rw [Layout.find_change]
  by_cases hother : other = table
  · subst hother
    rw [Function.update_self, if_pos rfl, hfind, Option.map_some, Option.map_some,
      Option.map_some, hcolumns]
  · rw [Function.update_of_ne hother, if_neg hother]
    exact h other

/-- One whose columns stay. -/
theorem update_rows (h : db.Laid l) (hfind : l.find table = some columns) {s : Relation}
    (hcolumns : s.columns.toFinset = columns.toFinset) :
    Store.Laid (Function.update db table (some s)) l := by
  intro other
  by_cases hother : other = table
  · subst hother
    rw [Function.update_self, hfind, Option.map_some, Option.map_some, hcolumns]
  · rw [Function.update_of_ne hother]
    exact h other

theorem needs (hcolumns : r.columns.toFinset = columns.toFinset) {names : List String}
    (hnames : names.all (· ∈ columns.map Column.name) = true) :
    r.needs table names = .ok () := by
  have hnone : names.find? (· ∉ r.names) = none := by
    refine List.find?_eq_none.mpr fun name hname hnot => ?_
    have hmem := of_decide_eq_true (List.all_eq_true.mp hnames name hname)
    exact of_decide_eq_true hnot ((mem_names hcolumns).mpr hmem)
  unfold Relation.needs
  rw [hnone]

theorem relation_eq (h : db table = some r) : db.relation table = .ok r := by
  unfold Store.relation
  rw [h]

end Store.Laid

/-- The keys that a copy makes differ. -/
def Change.Fresh (bound : Cell) (db : Store) : Change → Prop
  | .copy source target key cells condition => ∀ r r', db source = some r →
    db target = some r' → (keysOf key (r'.insert bound r cells condition).rows).Nodup
  | _ => True

/-- A statement that a layout takes runs, and has that effect on the layout. -/
theorem Store.Laid.run {db : Store} {l l' : Layout} {c : Change} (h : db.Laid l)
    (hlay : c.lay l = some l') (hfresh : c.Fresh bound db) :
    ∃ db', c.run bound db = .ok db' ∧ db'.Laid l' := by
  cases c with
  | create table columns =>
    dsimp only [Change.lay] at hlay
    cases hfind : l.find table with
    | some columns' =>
      rw [hfind] at hlay
      cases hlay
      obtain ⟨r, hr, -⟩ := h.relation hfind
      refine ⟨db, ?_, h⟩
      dsimp only [Change.run]
      rw [hr]
    | none =>
      rw [hfind] at hlay
      cases hlay
      have hnone : db table = none := by
        have htable := h table
        rw [hfind] at htable
        exact Option.map_eq_none_iff.mp htable
      refine ⟨Function.update db table (some ⟨columns, []⟩), ?_, ?_⟩
      · dsimp only [Change.run]
        rw [hnone]
      · intro other
        rw [Layout.find_append]
        by_cases hother : other = table
        · subst hother
          rw [Function.update_self, hfind, if_pos rfl]
          rfl
        · rw [Function.update_of_ne hother, if_neg (Ne.symm hother), Option.or_none]
          exact h other
  | addColumn table column unset =>
    obtain ⟨columns, hfind, hlay⟩ := Option.bind_eq_some_iff.mp hlay
    obtain ⟨r, hr, hcolumns⟩ := h.relation hfind
    split at hlay
    · cases hlay
    · next hnew =>
      cases hlay
      refine ⟨_, ?_, h.update (s := r.add column unset) hfind ?_⟩
      · dsimp only [Change.run]
        rw [Store.Laid.relation_eq hr]
        exact if_neg fun hmem => hnew ((Store.Laid.mem_names hcolumns).mp hmem)
      · unfold Relation.add
        rw [List.toFinset_append, List.toFinset_append, hcolumns]
  | addMissing table column =>
    obtain ⟨columns, hfind, hlay⟩ := Option.bind_eq_some_iff.mp hlay
    obtain ⟨r, hr, hcolumns⟩ := h.relation hfind
    split at hlay
    · next hmem =>
      cases hlay
      refine ⟨db, ?_, h⟩
      dsimp only [Change.run]
      rw [Store.Laid.relation_eq hr]
      exact if_pos ((Store.Laid.mem_names hcolumns).mpr hmem)
    · next hnew =>
      cases hlay
      refine ⟨_, ?_, h.update (s := r.add column .null) hfind ?_⟩
      · dsimp only [Change.run]
        rw [Store.Laid.relation_eq hr]
        exact if_neg fun hmem => hnew ((Store.Laid.mem_names hcolumns).mp hmem)
      · unfold Relation.add
        rw [List.toFinset_append, List.toFinset_append, hcolumns]
  | dropColumn table name =>
    obtain ⟨columns, hfind, hlay⟩ := Option.bind_eq_some_iff.mp hlay
    obtain ⟨r, hr, hcolumns⟩ := h.relation hfind
    split at hlay
    · next hmem =>
      cases hlay
      refine ⟨_, ?_, h.update (s := r.drop name) hfind ?_⟩
      · dsimp only [Change.run]
        rw [Store.Laid.relation_eq hr]
        show (r.needs table [name] >>= _) = _
        rw [Store.Laid.needs hcolumns (by simpa using hmem)]
        rfl
      · unfold Relation.drop
        rw [List.toFinset_filter, List.toFinset_filter, hcolumns]
    · cases hlay
  | set table name value condition =>
    obtain ⟨columns, hfind, hlay⟩ := Option.bind_eq_some_iff.mp hlay
    obtain ⟨r, hr, hcolumns⟩ := h.relation hfind
    split at hlay
    · next hreads =>
      cases hlay
      refine ⟨_, ?_, h.update_rows (s := r.assign bound name value condition) hfind hcolumns⟩
      dsimp only [Change.run]
      rw [Store.Laid.relation_eq hr]
      show (r.needs table _ >>= _) = _
      rw [Store.Laid.needs hcolumns hreads]
      rfl
    · cases hlay
  | copy source target key cells condition =>
    obtain ⟨columns, hfind, hlay⟩ := Option.bind_eq_some_iff.mp hlay
    obtain ⟨columns', hfind', hlay⟩ := Option.bind_eq_some_iff.mp hlay
    obtain ⟨r, hr, hcolumns⟩ := h.relation hfind
    obtain ⟨r', hr', hcolumns'⟩ := h.relation hfind'
    split at hlay
    · next hreads =>
      cases hlay
      obtain ⟨hreads, hcells⟩ := Bool.and_eq_true_iff.mp hreads
      refine ⟨_, ?_, h.update_rows (s := r'.insert bound r cells condition) hfind' hcolumns'⟩
      dsimp only [Change.run]
      rw [Store.Laid.relation_eq hr, Store.Laid.relation_eq hr']
      show (r.needs source _ >>= fun _ => r'.needs target _ >>= _) = _
      rw [Store.Laid.needs hcolumns hreads, Store.Laid.needs hcolumns' hcells]
      exact if_pos (hfresh r r' hr hr')
    · cases hlay
  | delete table condition =>
    obtain ⟨columns, hfind, hlay⟩ := Option.bind_eq_some_iff.mp hlay
    obtain ⟨r, hr, hcolumns⟩ := h.relation hfind
    split at hlay
    · next hreads =>
      cases hlay
      refine ⟨_, ?_, h.update_rows (s := r.delete condition) hfind hcolumns⟩
      dsimp only [Change.run]
      rw [Store.Laid.relation_eq hr]
      show (r.needs table _ >>= _) = _
      rw [Store.Laid.needs hcolumns hreads]
      rfl
    · cases hlay

/-! ## Rows that go together -/

theorem forall₂_comp {α β γ : Type} {R : α → β → Prop} {S : β → γ → Prop} {T : α → γ → Prop}
    (hcomp : ∀ a b c, R a b → S b c → T a c) {as : List α} {bs : List β} {cs : List γ}
    (h : List.Forall₂ R as bs) (h' : List.Forall₂ S bs cs) : List.Forall₂ T as cs := by
  induction h generalizing cs with
  | nil =>
    cases h'
    exact .nil
  | cons hhead _ ih =>
    cases h' with
    | cons hhead' htail' => exact .cons (hcomp _ _ _ hhead hhead') (ih htail')

theorem forall₂_mem {α β : Type} {R : α → β → Prop} {as : List α} {bs : List β}
    (h : List.Forall₂ R as bs) :
    List.Forall₂ (fun a b => R a b ∧ a ∈ as ∧ b ∈ bs) as bs := by
  induction h with
  | nil => exact .nil
  | cons hhead _ ih =>
    refine .cons ⟨hhead, List.mem_cons_self, List.mem_cons_self⟩ (ih.imp fun _ _ h => ?_)
    exact ⟨h.1, List.mem_cons_of_mem _ h.2.1, List.mem_cons_of_mem _ h.2.2⟩

theorem exists_of_mem_forall₂ {α β : Type} {R : α → β → Prop} {as : List α} {bs : List β}
    (h : List.Forall₂ R as bs) {a : α} (ha : a ∈ as) : ∃ b ∈ bs, R a b := by
  induction h with
  | nil => cases ha
  | cons hhead _ ih =>
    rcases List.mem_cons.mp ha with rfl | ha
    · exact ⟨_, List.mem_cons_self, hhead⟩
    · obtain ⟨b, hb, hR⟩ := ih ha
      exact ⟨b, List.mem_cons_of_mem _ hb, hR⟩

/-! ## What a run of statements keeps -/

/-- What a statement that runs does to each table. -/
def Change.Effect (bound : Cell) (db db' : Store) : Change → Prop
  | .create table columns =>
    db' = db ∨ db table = none ∧ db' = Function.update db table (some ⟨columns, []⟩)
  | .addColumn table column unset => ∃ r, db table = some r ∧ column.name ∉ r.names ∧
    db' = Function.update db table (some (r.add column unset))
  | .addMissing table column => db' = db ∨ ∃ r, db table = some r ∧ column.name ∉ r.names ∧
    db' = Function.update db table (some (r.add column .null))
  | .dropColumn table name => ∃ r, db table = some r ∧
    db' = Function.update db table (some (r.drop name))
  | .set table name value condition => ∃ r, db table = some r ∧
    db' = Function.update db table (some (r.assign bound name value condition))
  | .copy source target _ cells condition => ∃ r r', db source = some r ∧
    db target = some r' ∧ db' = Function.update db target (some (r'.insert bound r cells condition))
  | .delete table condition => ∃ r, db table = some r ∧
    db' = Function.update db table (some (r.delete condition))

theorem of_run {db db' : Store} {c : Change} (h : c.run bound db = .ok db') :
    c.Effect bound db db' := by
  have hrelation {table : String} {r : Relation} (hr : db.relation table = .ok r) :
      db table = some r := by
    unfold Store.relation at hr
    split at hr
    · next heq =>
      cases hr
      exact heq
    · cases hr
  cases c with
  | create table columns =>
    dsimp only [Change.run] at h ⊢
    split at h
    · cases h
      exact .inl rfl
    · next hnone =>
      cases h
      exact .inr ⟨hnone, rfl⟩
  | addColumn table column unset =>
    obtain ⟨r, hr, h⟩ := bind_eq_ok.mp h
    split at h
    · cases h
    · next hnew =>
      cases h
      exact ⟨r, hrelation hr, hnew, rfl⟩
  | addMissing table column =>
    obtain ⟨r, hr, h⟩ := bind_eq_ok.mp h
    split at h
    · cases h
      exact .inl rfl
    · next hnew =>
      cases h
      exact .inr ⟨r, hrelation hr, hnew, rfl⟩
  | dropColumn table name =>
    obtain ⟨r, hr, h⟩ := bind_eq_ok.mp h
    obtain ⟨_, -, h⟩ := bind_eq_ok.mp h
    cases h
    exact ⟨r, hrelation hr, rfl⟩
  | set table name value condition =>
    obtain ⟨r, hr, h⟩ := bind_eq_ok.mp h
    obtain ⟨_, -, h⟩ := bind_eq_ok.mp h
    cases h
    exact ⟨r, hrelation hr, rfl⟩
  | copy source target key cells condition =>
    obtain ⟨r, hr, h⟩ := bind_eq_ok.mp h
    obtain ⟨r', hr', h⟩ := bind_eq_ok.mp h
    obtain ⟨_, -, h⟩ := bind_eq_ok.mp h
    obtain ⟨_, -, h⟩ := bind_eq_ok.mp h
    split at h
    · cases h
      exact ⟨r, r', hrelation hr, hrelation hr', rfl⟩
    · cases h
  | delete table condition =>
    obtain ⟨r, hr, h⟩ := bind_eq_ok.mp h
    obtain ⟨_, -, h⟩ := bind_eq_ok.mp h
    cases h
    exact ⟨r, hrelation hr, rfl⟩

/-- Rows hold the same under some names. -/
def SameAt (names : List String) (row row' : Row) : Prop := ∀ name ∈ names, row' name = row name

/-- Each table that has the columns that `held` names for it still has them, and its rows
are there with what they hold in these columns. -/
def Store.Keeps (held : String → Option (List String)) (db db' : Store) : Prop :=
  ∀ table names r, held table = some names → db table = some r → names ⊆ r.names →
    ∃ r', db' table = some r' ∧ names ⊆ r'.names ∧
      List.Forall₂ (SameAt names) r.rows r'.rows

/-- A statement that writes none of these columns, drops none, and neither adds rows to
their tables nor takes any away; a column that is added was not there. -/
def Change.spares (held : String → Option (List String)) : Change → Bool
  | .create _ _ | .addColumn _ _ _ | .addMissing _ _ => true
  | .dropColumn table name | .set table name _ _ => (held table).all fun names => name ∉ names
  | .copy _ table _ _ _ | .delete table _ => (held table).isNone

namespace Store.Keeps

variable {held : String → Option (List String)} {db db' db'' : Store}

theorem sameAt_refl (names : List String) (rows : List Row) :
    List.Forall₂ (SameAt names) rows rows :=
  List.forall₂_same.mpr fun _ _ _ _ => rfl

theorem refl : db.Keeps held db :=
  fun _ _ r _ hr hnames => ⟨r, hr, hnames, sameAt_refl _ _⟩

theorem sameAt_trans {names : List String} {as bs cs : List Row}
    (h : List.Forall₂ (SameAt names) as bs) (h' : List.Forall₂ (SameAt names) bs cs) :
    List.Forall₂ (SameAt names) as cs :=
  forall₂_comp (fun _ _ _ hab hbc name hname => (hbc name hname).trans (hab name hname)) h h'

theorem trans (h : db.Keeps held db') (h' : db'.Keeps held db'') : db.Keeps held db'' := by
  intro table names r hheld hr hnames
  obtain ⟨r', hr', hnames', hrows⟩ := h table names r hheld hr hnames
  obtain ⟨r'', hr'', hnames'', hrows'⟩ := h' table names r' hheld hr' hnames'
  exact ⟨r'', hr'', hnames'', sameAt_trans hrows hrows'⟩

/-- One table is changed, and the rows that it has keep what they hold. -/
theorem update {table : String} {r r' : Relation} (hr : db table = some r)
    (hrows : ∀ names, held table = some names → names ⊆ r.names →
      names ⊆ r'.names ∧ List.Forall₂ (SameAt names) r.rows r'.rows) :
    db.Keeps held (Function.update db table (some r')) := by
  intro other names s hheld hs hnames
  by_cases hother : other = table
  · subst hother
    rw [hr] at hs
    cases hs
    exact ⟨r', Function.update_self _ _ _, hrows names hheld hnames⟩
  · refine ⟨s, ?_, hnames, sameAt_refl _ _⟩
    rw [Function.update_of_ne hother]
    exact hs

theorem map_rows {names : List String} {f : Row → Row} (rows : List Row)
    (hf : ∀ row, SameAt names row (f row)) : List.Forall₂ (SameAt names) rows (rows.map f) := by
  induction rows with
  | nil => exact .nil
  | cons row rows ih => exact .cons (hf row) ih

theorem add {names : List String} {column : Column} {unset : Cell} {r : Relation}
    (hnew : column.name ∉ r.names) (hnames : names ⊆ r.names) :
    names ⊆ (r.add column unset).names ∧
      List.Forall₂ (SameAt names) r.rows (r.add column unset).rows := by
  constructor
  · intro name hname
    unfold Relation.names Relation.add
    rw [List.map_append]
    exact List.mem_append_left _ (hnames hname)
  · refine map_rows _ fun row name hname => Function.update_of_ne ?_ _ _
    rintro rfl
    exact hnew (hnames hname)

end Store.Keeps

theorem Change.keeps {held : String → Option (List String)} {db db' : Store} {c : Change}
    (hspares : c.spares held = true) (h : c.run bound db = .ok db') : db.Keeps held db' := by
  have hdone := of_run h
  cases c with
  | create table columns =>
    rcases hdone with rfl | ⟨hnone, rfl⟩
    · exact .refl
    · intro other names r _ hr hnames
      refine ⟨r, ?_, hnames, Store.Keeps.sameAt_refl _ _⟩
      rw [Function.update_of_ne]
      · exact hr
      · rintro rfl
        rw [hnone] at hr
        cases hr
  | addColumn table column unset =>
    obtain ⟨r, hr, hnew, rfl⟩ := hdone
    exact .update hr fun _ _ hnames => Store.Keeps.add hnew hnames
  | addMissing table column =>
    rcases hdone with rfl | ⟨r, hr, hnew, rfl⟩
    · exact .refl
    · exact .update hr fun _ _ hnames => Store.Keeps.add hnew hnames
  | dropColumn table name =>
    obtain ⟨r, hr, rfl⟩ := hdone
    refine .update hr fun names hheld hnames => ⟨fun other hother => ?_,
      Store.Keeps.sameAt_refl _ _⟩
    have hne : other ≠ name := by
      rintro rfl
      exact of_decide_eq_true ((Option.all_eq_true _ _).mp hspares names hheld) hother
    obtain ⟨column, hcolumn, rfl⟩ := List.mem_map.mp (hnames hother)
    exact List.mem_map_of_mem (List.mem_filter.mpr ⟨hcolumn, decide_eq_true hne⟩)
  | set table name value condition =>
    obtain ⟨r, hr, rfl⟩ := hdone
    refine .update hr fun names hheld hnames => ⟨hnames,
      Store.Keeps.map_rows _ fun row other hother => ?_⟩
    split
    · refine Function.update_of_ne ?_ _ _
      rintro rfl
      exact of_decide_eq_true ((Option.all_eq_true _ _).mp hspares names hheld) hother
    · rfl
  | copy source target key cells condition =>
    obtain ⟨r, r', hr, hr', rfl⟩ := hdone
    refine .update hr' fun names hheld => ?_
    rw [Option.isNone_iff_eq_none.mp hspares] at hheld
    cases hheld
  | delete table condition =>
    obtain ⟨r, hr, rfl⟩ := hdone
    refine .update hr fun names hheld => ?_
    rw [Option.isNone_iff_eq_none.mp hspares] at hheld
    cases hheld

theorem runAll_cons {c : Change} {changes : List Change} {db db' : Store} :
    runAll bound (c :: changes) db = .ok db' ↔
      ∃ between, c.run bound db = .ok between ∧ runAll bound changes between = .ok db' := by
  unfold runAll
  rw [List.foldlM_cons]
  exact bind_eq_ok

theorem runAll_append {earlier later : List Change} {db db' : Store} :
    runAll bound (earlier ++ later) db = .ok db' ↔
      ∃ between, runAll bound earlier db = .ok between ∧ runAll bound later between = .ok db' := by
  unfold runAll
  rw [List.foldlM_append]
  exact bind_eq_ok

theorem keeps_of_runAll {held : String → Option (List String)} {changes : List Change}
    {db db' : Store}
    (hspares : ∀ c ∈ changes, c.spares held = true) (h : runAll bound changes db = .ok db') :
    db.Keeps held db' := by
  induction changes generalizing db with
  | nil =>
    cases h
    exact .refl
  | cons c changes ih =>
    obtain ⟨between, hfirst, hrest⟩ := runAll_cons.mp h
    exact (c.keeps (hspares c List.mem_cons_self) hfirst).trans
      (ih (fun c' hc' => hspares c' (List.mem_cons_of_mem c hc')) hrest)

theorem keysOf_of_sameAt {names : List String} {key : String} {rows rows' : List Row}
    (h : List.Forall₂ (SameAt names) rows rows') (hkey : key ∈ names) :
    keysOf key rows' = keysOf key rows := by
  have hmap : rows'.map (· key) = rows.map (· key) := by
    induction h with
    | nil => rfl
    | cons hhead _ ih => rw [List.map_cons, List.map_cons, hhead key hkey, ih]
  unfold keysOf
  rw [hmap]

/-- A statement that copies nothing needs no keys to differ. -/
def Change.copies : Change → Bool
  | .copy _ _ _ _ _ => true
  | _ => false

theorem Change.fresh_of_not_copies {c : Change} (h : c.copies = false)
    (db : Store) :
    c.Fresh bound db := by
  cases c with
  | copy => cases h
  | _ => trivial

theorem Store.Laid.runAll {changes : List Change} {db : Store} {l l' : Layout}
    (h : db.Laid l) (hcopies : ∀ c ∈ changes, c.copies = false)
    (hlay : layAll changes l = some l') :
    ∃ db', Relational.runAll bound changes db = .ok db' ∧ db'.Laid l' := by
  induction changes generalizing db l with
  | nil =>
    cases hlay
    exact ⟨db, rfl, h⟩
  | cons c changes ih =>
    obtain ⟨between, hfirst, hrest⟩ := Option.bind_eq_some_iff.mp hlay
    obtain ⟨db₁, hrun, hlaid⟩ :=
      h.run hfirst (Change.fresh_of_not_copies (hcopies c List.mem_cons_self) db)
    obtain ⟨db', hrun', hlaid'⟩ :=
      ih hlaid (fun c' hc' => hcopies c' (List.mem_cons_of_mem c hc')) hrest
    exact ⟨db', runAll_cons.mpr ⟨db₁, hrun, hrun'⟩, hlaid'⟩

/-! ## Columns that hold one cell throughout -/

/-- All rows of a table, if it is there, hold a cell under a name. -/
def Store.Filled (table name : String) (cell : Cell) (db : Store) : Prop :=
  ∀ r, db table = some r → ∀ row ∈ r.rows, row name = cell

/-- A statement that puts no other cell there. -/
def Change.leaves (table name : String) (cell : Cell) : Change → Bool
  | .create _ _ | .dropColumn _ _ | .delete _ _ => true
  | .addColumn t column unset => t ≠ table || column.name ≠ name || unset = cell
  | .addMissing t column => t ≠ table || column.name ≠ name || Cell.null = cell
  | .set t other _ _ => t ≠ table || other ≠ name
  | .copy _ target _ _ _ => target ≠ table

namespace Store.Filled

variable {table name : String} {cell : Cell} {db db' : Store}

theorem update (h : db.Filled table name cell) {other : String} {r : Relation}
    (hrows : other = table → ∀ row ∈ r.rows, row name = cell) :
    Store.Filled table name cell (Function.update db other (some r)) := by
  intro s hs
  by_cases hother : table = other
  · rw [hother, Function.update_self] at hs
    cases hs
    exact hrows hother.symm
  · rw [Function.update_of_ne hother] at hs
    exact h s hs

theorem add (h : db.Filled table name cell) {other : String} {r : Relation} {column : Column}
    {unset : Cell} (hr : db other = some r)
    (hleaves : other = table → column.name = name → unset = cell) :
    Store.Filled table name cell (Function.update db other (some (r.add column unset))) := by
  refine h.update fun hother row hrow => ?_
  obtain ⟨old, hold, rfl⟩ := List.mem_map.mp hrow
  by_cases hname : name = column.name
  · rw [hname, Function.update_self]
    exact hleaves hother hname.symm
  · rw [Function.update_of_ne hname]
    exact h r (hother ▸ hr) old hold

theorem run {c : Change} (h : db.Filled table name cell)
    (hleaves : c.leaves table name cell = true) (hrun : c.run bound db = .ok db') :
    db'.Filled table name cell := by
  have hdone := of_run hrun
  cases c with
  | create other columns =>
    rcases hdone with rfl | ⟨-, rfl⟩
    · exact h
    · exact h.update fun _ row hrow => by cases hrow
  | addColumn other column unset =>
    obtain ⟨r, hr, -, rfl⟩ := hdone
    refine h.add hr fun hother hname => ?_
    simpa [Change.leaves, hother, hname] using hleaves
  | addMissing other column =>
    rcases hdone with rfl | ⟨r, hr, -, rfl⟩
    · exact h
    · refine h.add hr fun hother hname => ?_
      simpa [Change.leaves, hother, hname] using hleaves
  | dropColumn other dropped =>
    obtain ⟨r, hr, rfl⟩ := hdone
    exact h.update fun hother => h r (hother ▸ hr)
  | set other assigned value condition =>
    obtain ⟨r, hr, rfl⟩ := hdone
    refine h.update fun hother row hrow => ?_
    obtain ⟨old, hold, rfl⟩ := List.mem_map.mp hrow
    have hne : name ≠ assigned := by
      rintro rfl
      simp [Change.leaves, hother] at hleaves
    split
    · rw [Function.update_of_ne hne]
      exact h r (hother ▸ hr) old hold
    · exact h r (hother ▸ hr) old hold
  | copy source target key cells condition =>
    obtain ⟨r, r', hr, hr', rfl⟩ := hdone
    exact h.update fun htarget => absurd htarget (of_decide_eq_true hleaves)
  | delete other condition =>
    obtain ⟨r, hr, rfl⟩ := hdone
    exact h.update fun hother row hrow => h r (hother ▸ hr) row (List.mem_filter.mp hrow).1

theorem runAll {changes : List Change} (h : db.Filled table name cell)
    (hleaves : ∀ c ∈ changes, c.leaves table name cell = true)
    (hrun : Relational.runAll bound changes db = .ok db') : db'.Filled table name cell := by
  induction changes generalizing db with
  | nil =>
    cases hrun
    exact h
  | cons c changes ih =>
    obtain ⟨between, hfirst, hrest⟩ := runAll_cons.mp hrun
    exact ih (h.run (hleaves c List.mem_cons_self) hfirst)
      (fun c' hc' => hleaves c' (List.mem_cons_of_mem c hc')) hrest

end Store.Filled

/-- A statement that adds the column, with that cell in it. -/
def Change.fills (table name : String) (cell : Cell) : Change → Bool
  | .addColumn t column unset => t = table && column.name = name && unset = cell
  | _ => false

/-- A column that is added somewhere in a run holds what it was added with, if nothing else
is put there. -/
theorem filled_of_fills {table name : String} {cell : Cell} {changes : List Change}
    {db db' : Store} (hfills : changes.any (Change.fills table name cell) = true)
    (hleaves : ∀ c ∈ changes, c.leaves table name cell = true)
    (h : runAll bound changes db = .ok db') : db'.Filled table name cell := by
  induction changes generalizing db with
  | nil => cases hfills
  | cons c changes ih =>
    obtain ⟨between, hfirst, hrest⟩ := runAll_cons.mp h
    have hleaves' : ∀ c' ∈ changes, c'.leaves table name cell = true :=
      fun c' hc' => hleaves c' (List.mem_cons_of_mem c hc')
    by_cases hc : c.fills table name cell = true
    · refine Store.Filled.runAll ?_ hleaves' hrest
      cases c with
      | addColumn t column unset =>
        simp only [Change.fills, Bool.and_eq_true, decide_eq_true_eq] at hc
        obtain ⟨⟨rfl, rfl⟩, rfl⟩ := hc
        obtain ⟨r, hr, -, rfl⟩ := of_run hfirst
        intro s hs row hrow
        rw [Function.update_self] at hs
        cases hs
        obtain ⟨old, -, rfl⟩ := List.mem_map.mp hrow
        exact Function.update_self _ _ _
      | _ => cases hc
    · rw [List.any_cons, Bool.eq_false_iff.mpr hc, Bool.false_or] at hfills
      exact ih hfills hleaves' hrest

end Opca.Foundation.Relational

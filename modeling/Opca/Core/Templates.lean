/-
  Core/Templates.lean --- OpenVPN templates on their way from the 1Password item to the CA
  database (`services/openvpn.rs`).

  Each call, to 1Password or to SQLite, is answered in turn: it is done, it is refused, or
  it is done and its answer is lost.  A crash is a call that is not answered, and the
  session gone.
-/
import Opca.Core.BrokerCerts
import Opca.Foundation.Machine
import Opca.Foundation.Stateful
import Opca.Foundation.Text

set_option autoImplicit false

namespace Opca.Core.Templates

open Opca.Foundation

/-! ## The item, the database and the notes -/

inductive TemplateImport where
  | notImported
  /-- Imported, but the old fields are still on the item until an operator archives or
  keeps them. -/
  | awaitingCleanup
  | settled
  deriving DecidableEq, Repr

def TemplateImport.fromColumn : Option Int → TemplateImport
  | some 1 => .awaitingCleanup
  | some 2 => .settled
  | _ => .notImported

def TemplateImport.toColumn : TemplateImport → Option Int
  | .notImported => none
  | .awaitingCleanup => some 1
  | .settled => some 2

/-- The templates by name, and the column with the state of the import. -/
structure TemplateDb where
  templates : List (String × String)
  importColumn : Option Int
  deriving DecidableEq, Repr

structure Field where
  sectionLabel : Option String
  label : String
  value : Option String
  deriving DecidableEq, Repr

/-- A note of its own, made for the item's templates. -/
structure Note where
  id : Nat
  copies : List (String × String)
  archived : Bool
  deriving DecidableEq, Repr

inductive Answer where
  | done | refused | lost
  deriving DecidableEq, Repr

/-- What is told of a run. -/
inductive Event where
  /-- The import is about to write a template. -/
  | writes (name : String)
  /-- The import has run to its end. -/
  | completed
  | saved (name : String)
  deriving DecidableEq, Repr

structure World where
  /-- The fields of the item `OpenVPN`, if there is one. -/
  item : Option (List Field)
  notes : List Note
  stored : TemplateDb
  /-- The database of the session, if one is loaded. -/
  db : Option TemplateDb
  answers : List Answer
  log : List Event
  deriving DecidableEq, Repr

abbrev TemplateM := EStateM OpcaError World

/-! ## Calls -/

def ask : TemplateM Answer := fun s =>
  match s.answers with
  | [] => .ok .done s
  | answer :: answers => .ok answer { s with answers }

def call (effect : World → World) : TemplateM Unit := do
  match ← ask with
  | .done => modify effect
  | .refused => throw (.other "not answered")
  | .lost =>
    modify effect
    throw (.other "not answered")

def tell (event : Event) : TemplateM Unit := modify fun s => { s with log := s.log ++ [event] }

def database : TemplateM TemplateDb := do
  match (← get).db with
  | some db => return db
  | none => throw (.other "Database not loaded")

def query {α : Type} (read : TemplateDb → α) : TemplateM α := do
  let db ← database
  call id
  return read db

def statement (change : TemplateDb → TemplateDb) : TemplateM Unit := do
  let _ ← database
  call fun s => { s with db := s.db.map change }

def upserted (name content : String) (templates : List (String × String)) :
    List (String × String) :=
  if name ∈ templates.map Prod.fst then
    templates.map fun t => if t.1 = name then (name, content) else t
  else templates ++ [(name, content)]

def upsertOpenvpnTemplate (name content : String) : TemplateM Unit :=
  statement fun db => { db with templates := upserted name content db.templates }

def getOpenvpnTemplate (name : String) : TemplateM (Option String) :=
  query fun db => db.templates.lookup name

def openvpnTemplateImport : TemplateM TemplateImport :=
  query fun db => .fromColumn db.importColumn

def storeCaDatabase : TemplateM Unit := do
  let _ ← database
  call fun s => { s with stored := s.db.getD s.stored }

def templateSection : String := "template"

/-- The fields of the item's `template` section. -/
def templatesInItem (fields : List Field) : List (String × String) :=
  (fields.filter fun f => f.sectionLabel = some templateSection && f.label != "").map fun f =>
    (f.label, trim (f.value.getD ""))

def World.vaultTemplates (s : World) : List (String × String) :=
  (s.item.map templatesInItem).getD []

def vaultTemplates : TemplateM (List (String × String)) := do
  call id
  return (← get).vaultTemplates

def createItem (copies : List (String × String)) : TemplateM Nat := do
  let id := (← get).notes.length
  call fun s => { s with notes := s.notes ++ [⟨id, copies, false⟩] }
  return id

/-- Archives a note. -/
def deleteItem (id : Nat) : TemplateM Unit :=
  call fun s =>
    { s with notes := s.notes.map fun n => if n.id = id then { n with archived := true } else n }

/-- Takes templates off the item. -/
def removeFields (names : List String) : TemplateM Unit :=
  call fun s =>
    { s with item := s.item.map fun fields => fields.filter fun f =>
        !(f.sectionLabel = some templateSection && f.label ∈ names) }

/-! ## The operations -/

def setImportState (state : TemplateImport) : TemplateM Unit := do
  statement fun db => { db with importColumn := state.toColumn }
  storeCaDatabase

/-- Copies the item's templates into the database, once per CA; the number of them, or
`none` if the import had already run. -/
def importTemplatesFromVault : TemplateM (Option Nat) := do
  if (← openvpnTemplateImport) ≠ .notImported then return none
  else
    let found ← vaultTemplates
    found.forM fun t => do
      tell (.writes t.1)
      upsertOpenvpnTemplate t.1 t.2
    setImportState (if found = [] then .settled else .awaitingCleanup)
    tell .completed
    return some found.length

/-- Adds what the database lacks; whether anything was added. -/
def copyFrom : List (String × String) → Bool → TemplateM Bool
  | [], copied => return copied
  | t :: found, copied => do
    match ← getOpenvpnTemplate t.1 with
    | some _ => copyFrom found copied
    | none =>
      upsertOpenvpnTemplate t.1 t.2
      copyFrom found true

def copyMissingTemplates (found : List (String × String)) : TemplateM Unit := do
  let copied ← copyFrom found false
  if copied then storeCaDatabase else return

def templatesAwaitingCleanup : TemplateM (List String) := do
  if (← openvpnTemplateImport) ≠ .awaitingCleanup then return []
  else
    let found ← vaultTemplates
    if found = [] then
      setImportState .settled
      return []
    else
      copyMissingTemplates found
      return found.map Prod.fst

/-- Copied and archived before they are removed, so a failure part-way never loses a
template. -/
def moveToArchive (found : List (String × String)) : TemplateM Unit := do
  copyMissingTemplates found
  let archive ← createItem found
  deleteItem archive
  removeFields (found.map Prod.fst)

def archiveVaultTemplates : TemplateM Nat := do
  let found ← vaultTemplates
  archiveFound found
  setImportState .settled
  return found.length
where
  archiveFound (found : List (String × String)) : TemplateM Unit :=
    if found = [] then return else moveToArchive found

def keepVaultTemplates : TemplateM Unit := setImportState .settled

/-- The database, once any templates still on the item are imported, so a write can't
later be overwritten by the import. -/
def templatesDb : TemplateM TemplateDb := do
  let _ ← importTemplatesFromVault
  database

def listTemplates : TemplateM (List (String × String)) := do
  let _ ← templatesDb
  query TemplateDb.templates

def getTemplate (name : String) : TemplateM String := do
  let _ ← templatesDb
  match ← getOpenvpnTemplate name with
  | some content => return content
  | none => throw (.other s!"OpenVPN template '{name}' not found")

def saveTemplate (name content : String) : TemplateM Unit := do
  let _ ← templatesDb
  upsertOpenvpnTemplate name content
  storeCaDatabase
  tell (.saved name)

/-- Adds the starter template unless one exists. -/
def addStarterTemplate (boilerplate name : String) : TemplateM Bool := do
  let _ ← templatesDb
  match ← getOpenvpnTemplate name with
  | some _ => return false
  | none =>
    saveTemplate name boilerplate
    return true

def deleteTemplate (name : String) : TemplateM Bool := do
  let _ ← templatesDb
  let existed ← query fun db => decide (name ∈ db.templates.map Prod.fst)
  statement fun db => { db with templates := db.templates.filter (·.1 ≠ name) }
  if existed then
    storeCaDatabase
    return true
  else return false

/-! ## Runs -/

inductive Operation where
  | importTemplates | awaiting | archive | keep
  | list
  | get (name : String)
  | save (name content : String)
  | addStarter (boilerplate name : String)
  | delete (name : String)
  /-- The session loads the stored database. -/
  | reload
  /-- The session is gone, with what it had not stored. -/
  | crash
  /-- An older client puts a field on the item. -/
  | older (field : Field)
  deriving DecidableEq, Repr

def Operation.run : Operation → TemplateM Unit
  | .importTemplates => do let _ ← importTemplatesFromVault
  | .awaiting => do let _ ← templatesAwaitingCleanup
  | .archive => do let _ ← archiveVaultTemplates
  | .keep => keepVaultTemplates
  | .list => do let _ ← listTemplates
  | .get name => do let _ ← getTemplate name
  | .save name content => saveTemplate name content
  | .addStarter boilerplate name => do let _ ← addStarterTemplate boilerplate name
  | .delete name => do let _ ← deleteTemplate name
  | .reload => modify fun s => { s with db := some s.stored }
  | .crash => modify fun s => { s with db := none }
  | .older field => modify fun s => { s with item := some (s.item.getD [] ++ [field]) }

/-- An operation, and what its calls are answered. -/
structure Step where
  operation : Operation
  answers : List Answer
  deriving DecidableEq, Repr

def templateMachine : Machine World Step where
  init s := s.db = none ∧ s.log = []
  next s l := some (finalState (l.operation.run { s with answers := l.answers }))

/-! ## What an operation keeps -/

/-- The item and the notes are as they were. -/
def SameItems (s t : World) : Prop := t.item = s.item ∧ t.notes = s.notes

instance : Std.Refl SameItems := ⟨fun _ => ⟨rfl, rfl⟩⟩

instance : IsTrans World SameItems :=
  ⟨fun _ _ _ hst htu => ⟨htu.1.trans hst.1, htu.2.trans hst.2⟩⟩

/-- So are the log, the stored database and the state of the session's import. -/
def SameImport (s t : World) : Prop :=
  t.log = s.log ∧ t.stored = s.stored ∧
    t.db.map TemplateDb.importColumn = s.db.map TemplateDb.importColumn

instance : Std.Refl SameImport := ⟨fun _ => ⟨rfl, rfl, rfl⟩⟩

instance : IsTrans World SameImport :=
  ⟨fun _ _ _ hst htu =>
    ⟨htu.1.trans hst.1, htu.2.1.trans hst.2.1, htu.2.2.trans hst.2.2⟩⟩

section

variable {R : World → World → Prop} {effect : World → World} {P Q F : World → Prop}

theorem ask_ensures (hanswers : ∀ s answers, P s → P { s with answers }) :
    Ensures P ask (fun _ => P) F := by
  intro s hs
  unfold ask
  split
  next heq =>
    split at heq
    · cases heq
      exact hs
    · cases heq
      exact hanswers _ _ hs
  next heq => split at heq <;> cases heq

/-- A call has its effect, or fails with or without it. -/
theorem call_ensures (hanswers : ∀ s answers, P s → P { s with answers })
    (heffect : ∀ s, P s → Q (effect s)) (hrefused : ∀ s, P s → F s) (hlost : ∀ s, Q s → F s) :
    Ensures P (call effect) (fun _ => Q) F := by
  refine (ask_ensures hanswers).bind fun answer => ?_
  cases answer with
  | done => exact .modify heffect
  | refused => exact .throw hrefused
  | lost => exact (Ensures.modify heffect).bind fun _ => .throw hlost

theorem call_moves [IsTrans World R] (hanswers : ∀ s answers, R s { s with answers })
    (heffect : ∀ s, R s (effect s)) : Moves R (call effect) := fun _ =>
  call_ensures (fun s answers hs => IsTrans.trans _ _ _ hs (hanswers s answers))
    (fun s hs => IsTrans.trans _ _ _ hs (heffect s)) (fun _ hs => hs) fun _ hs => hs

theorem database_reads : Moves (· = ·) database := by
  refine .bind .get fun s => ?_
  cases s.db with
  | none => exact .throw
  | some db => exact .pure

theorem query_moves [Std.Refl R] [IsTrans World R] {α : Type} (read : TemplateDb → α)
    (hanswers : ∀ s answers, R s { s with answers }) : Moves R (query read) :=
  (Moves.of_reads database_reads).bind fun _ =>
    (call_moves hanswers Std.Refl.refl).bind fun _ => .pure

theorem statement_moves [Std.Refl R] [IsTrans World R] {change : TemplateDb → TemplateDb}
    (hanswers : ∀ s answers, R s { s with answers })
    (hchange : ∀ s, R s { s with db := s.db.map change }) : Moves R (statement change) :=
  (Moves.of_reads database_reads).bind fun _ => call_moves hanswers hchange

theorem storeCaDatabase_moves [Std.Refl R] [IsTrans World R]
    (hanswers : ∀ s answers, R s { s with answers })
    (hstore : ∀ s, R s { s with stored := s.db.getD s.stored }) : Moves R storeCaDatabase :=
  (Moves.of_reads database_reads).bind fun _ => call_moves hanswers hstore

end

/-! ## The item and the notes -/

theorem query_items {α : Type} (read : TemplateDb → α) : Moves SameItems (query read) :=
  query_moves read fun _ _ => ⟨rfl, rfl⟩

theorem statement_items (change : TemplateDb → TemplateDb) :
    Moves SameItems (statement change) :=
  statement_moves (fun _ _ => ⟨rfl, rfl⟩) fun _ => ⟨rfl, rfl⟩

theorem storeCaDatabase_items : Moves SameItems storeCaDatabase :=
  storeCaDatabase_moves (fun _ _ => ⟨rfl, rfl⟩) fun _ => ⟨rfl, rfl⟩

theorem tell_items (event : Event) : Moves SameItems (tell event) :=
  .modify fun _ => ⟨rfl, rfl⟩

theorem setImportState_items (state : TemplateImport) :
    Moves SameItems (setImportState state) :=
  (statement_items _).bind fun _ => storeCaDatabase_items

theorem vaultTemplates_items : Moves SameItems vaultTemplates :=
  (call_moves (fun _ _ => ⟨rfl, rfl⟩) Std.Refl.refl).bind fun _ => .bind .get fun _ => .pure

theorem import_items : Moves SameItems importTemplatesFromVault := by
  refine (query_items _).bind fun state => ?_
  split
  · exact .pure
  · refine vaultTemplates_items.bind fun found => ?_
    refine Moves.bind
      (.forM (fun t => (tell_items _).bind fun _ => statement_items _) found) fun _ => ?_
    exact (setImportState_items _).bind fun _ => (tell_items _).bind fun _ => .pure

theorem copyFrom_items (found : List (String × String)) (copied : Bool) :
    Moves SameItems (copyFrom found copied) := by
  induction found generalizing copied with
  | nil => exact .pure
  | cons t found ih =>
    refine (query_items _).bind fun held => ?_
    cases held with
    | some content => exact ih copied
    | none => exact (statement_items _).bind fun _ => ih true

theorem copyMissingTemplates_items (found : List (String × String)) :
    Moves SameItems (copyMissingTemplates found) := by
  refine (copyFrom_items found false).bind fun copied => ?_
  split
  · exact storeCaDatabase_items
  · exact .pure

theorem templatesAwaitingCleanup_items : Moves SameItems templatesAwaitingCleanup := by
  refine (query_items _).bind fun state => ?_
  split
  · exact .pure
  · refine vaultTemplates_items.bind fun found => ?_
    split
    · exact (setImportState_items _).bind fun _ => .pure
    · exact (copyMissingTemplates_items found).bind fun _ => .pure

theorem templatesDb_items : Moves SameItems templatesDb :=
  import_items.bind fun _ => .of_reads database_reads

theorem saveTemplate_items (name content : String) :
    Moves SameItems (saveTemplate name content) :=
  templatesDb_items.bind fun _ => (statement_items _).bind fun _ =>
    storeCaDatabase_items.bind fun _ => tell_items _

theorem addStarterTemplate_items (boilerplate name : String) :
    Moves SameItems (addStarterTemplate boilerplate name) := by
  refine templatesDb_items.bind fun _ => (query_items _).bind fun held => ?_
  cases held with
  | some content => exact .pure
  | none => exact (saveTemplate_items name boilerplate).bind fun _ => .pure

theorem deleteTemplate_items (name : String) : Moves SameItems (deleteTemplate name) := by
  refine templatesDb_items.bind fun _ => (query_items _).bind fun existed =>
    (statement_items _).bind fun _ => ?_
  split
  · exact storeCaDatabase_items.bind fun _ => .pure
  · exact .pure

theorem getTemplate_items (name : String) : Moves SameItems (getTemplate name) := by
  refine templatesDb_items.bind fun _ => (query_items _).bind fun held => ?_
  cases held with
  | some content => exact .pure
  | none => exact .throw

/-- A template's content is on the item, or in an archived copy. -/
def Safe (content : String) (s : World) : Prop :=
  content ∈ s.vaultTemplates.map Prod.snd ∨
    ∃ n ∈ s.notes, n.archived = true ∧ content ∈ n.copies.map Prod.snd

section

variable {content : String} {found : List (String × String)} {s t : World}

theorem Safe.of_same (h : Safe content s) (hsame : SameItems s t) : Safe content t := by
  unfold Safe World.vaultTemplates at *
  rw [hsame.1, hsame.2]
  exact h

theorem safe_of_items {α : Type} {m : TemplateM α} (h : Moves SameItems m) :
    Ensures (Safe content) m (fun _ => Safe content) (Safe content) :=
  h.keep fun _ _ => Safe.of_same

/-- The templates as they are read. -/
theorem vaultTemplates_found {P : World → Prop}
    (hanswers : ∀ s answers, P s → P { s with answers }) :
    Ensures P vaultTemplates (fun found s => P s ∧ found = s.vaultTemplates) P := by
  refine (call_ensures hanswers (fun _ hs => hs) (fun _ hs => hs) fun _ hs => hs).bind
    fun _ => ?_
  have hget : Ensures P (get : TemplateM World) (fun a s => P s ∧ a = s) P :=
    .get fun s hs => ⟨hs, rfl⟩
  exact hget.bind fun s => .pure fun t ht => ⟨ht.1, congrArg World.vaultTemplates ht.2⟩

/-- A content that is on the item is found, and no field is taken off that is not
found. -/
theorem removeFields_safe :
    Ensures (fun s => Safe content s ∧ found = s.vaultTemplates ∧
        ∃ n ∈ s.notes, n.archived = true ∧ n.copies = found)
      (removeFields (found.map Prod.fst)) (fun _ => Safe content) (Safe content) := by
  refine call_ensures (fun _ _ hs => hs) ?_ (fun _ hs => hs.1) fun _ hs => hs
  rintro s ⟨hsafe, hfound, n, hn, harchived, hcopies⟩
  refine .inr ?_
  rcases hsafe with hitem | hnote
  · refine ⟨n, hn, harchived, ?_⟩
    rw [hcopies, hfound]
    exact hitem
  · exact hnote

theorem createItem_safe :
    Ensures (fun s => Safe content s ∧ found = s.vaultTemplates) (createItem found)
      (fun id s => Safe content s ∧ found = s.vaultTemplates ∧
        ∃ n ∈ s.notes, n.id = id ∧ n.copies = found) (Safe content) := by
  have hget : Ensures (fun s => Safe content s ∧ found = s.vaultTemplates)
      (get : TemplateM World) (fun _ s => Safe content s ∧ found = s.vaultTemplates)
      (Safe content) := .get fun s hs => hs
  refine hget.bind fun before => ?_
  refine Ensures.bind (call_ensures (fun _ _ hs => hs) (Q := fun s => Safe content s ∧
    found = s.vaultTemplates ∧ ∃ n ∈ s.notes, n.id = before.notes.length ∧ n.copies = found)
    ?_ (fun _ hs => hs.1) fun _ hs => hs.1) fun _ => .pure fun _ hs => hs
  rintro s ⟨hsafe, hfound⟩
  refine ⟨?_, hfound, ⟨_, found, false⟩, List.mem_append_right _ List.mem_cons_self, rfl, rfl⟩
  rcases hsafe with hitem | ⟨n, hn, hnote⟩
  · exact .inl hitem
  · exact .inr ⟨n, List.mem_append_left _ hn, hnote⟩

theorem deleteItem_safe (id : Nat) :
    Ensures (fun s => Safe content s ∧ found = s.vaultTemplates ∧
        ∃ n ∈ s.notes, n.id = id ∧ n.copies = found) (deleteItem id)
      (fun _ s => Safe content s ∧ found = s.vaultTemplates ∧
        ∃ n ∈ s.notes, n.archived = true ∧ n.copies = found) (Safe content) := by
  refine call_ensures (fun _ _ hs => hs) ?_ (fun _ hs => hs.1) fun _ hs => hs.1
  rintro s ⟨hsafe, hfound, n, hn, hid, hcopies⟩
  refine ⟨?_, hfound, { n with archived := true }, ?_, rfl, hcopies⟩
  · rcases hsafe with hitem | ⟨m, hm, harchived, hcontent⟩
    · exact .inl hitem
    · refine .inr ⟨_, List.mem_map_of_mem hm, ?_, ?_⟩
      · split
        · rfl
        · exact harchived
      · split
        · exact hcontent
        · exact hcontent
  · refine List.mem_map.mpr ⟨n, hn, ?_⟩
    rw [if_pos hid]

theorem moveToArchive_safe :
    Ensures (fun s => Safe content s ∧ found = s.vaultTemplates) (moveToArchive found)
      (fun _ => Safe content) (Safe content) := by
  have hcopied : Ensures (fun s => Safe content s ∧ found = s.vaultTemplates)
      (copyMissingTemplates found)
      (fun _ s => Safe content s ∧ found = s.vaultTemplates)
      (fun s => Safe content s ∧ found = s.vaultTemplates) := by
    refine (copyMissingTemplates_items found).keep fun s t hs hsame => ⟨hs.1.of_same hsame, ?_⟩
    rw [hs.2, World.vaultTemplates, World.vaultTemplates, hsame.1]
  refine (hcopied.failing fun _ hs => hs.1).bind fun _ => ?_
  refine createItem_safe.bind fun archive => (deleteItem_safe archive).bind fun _ => ?_
  exact removeFields_safe

theorem archiveVaultTemplates_safe :
    Ensures (Safe content) archiveVaultTemplates (fun _ => Safe content) (Safe content) := by
  refine (vaultTemplates_found fun _ _ hs => hs).bind fun found => ?_
  have harchived : Ensures (fun s => Safe content s ∧ found = s.vaultTemplates)
      (archiveVaultTemplates.archiveFound found) (fun _ => Safe content) (Safe content) := by
    unfold archiveVaultTemplates.archiveFound
    split
    · exact .pure fun _ hs => hs.1
    · exact moveToArchive_safe
  exact harchived.bind fun _ =>
    (safe_of_items (setImportState_items _)).bind fun _ => .pure fun _ hs => hs

/-- Nothing that is done loses a content. -/
theorem run_safe (operation : Operation) :
    Ensures (Safe content) operation.run (fun _ => Safe content) (Safe content) := by
  cases operation with
  | importTemplates => exact safe_of_items (import_items.bind fun _ => .pure)
  | awaiting => exact safe_of_items (templatesAwaitingCleanup_items.bind fun _ => .pure)
  | archive => exact archiveVaultTemplates_safe.bind fun _ => .pure fun _ hs => hs
  | keep => exact safe_of_items (setImportState_items _)
  | list =>
    exact safe_of_items ((templatesDb_items.bind fun _ => query_items _).bind fun _ => .pure)
  | get name => exact safe_of_items ((getTemplate_items name).bind fun _ => .pure)
  | save name text => exact safe_of_items (saveTemplate_items name text)
  | addStarter boilerplate name =>
    exact safe_of_items ((addStarterTemplate_items boilerplate name).bind fun _ => .pure)
  | delete name => exact safe_of_items ((deleteTemplate_items name).bind fun _ => .pure)
  | reload => exact safe_of_items (.modify fun _ => ⟨rfl, rfl⟩)
  | crash => exact safe_of_items (.modify fun _ => ⟨rfl, rfl⟩)
  | older field =>
    refine .modify fun s hs => ?_
    rcases hs with hitem | hnote
    · refine .inl ?_
      obtain ⟨t, ht, hcontent⟩ := List.mem_map.mp hitem
      refine List.mem_map.mpr ⟨t, ?_, hcontent⟩
      unfold World.vaultTemplates templatesInItem at ht ⊢
      cases hfields : s.item with
      | none => simp [hfields] at ht
      | some fields =>
        simp only [hfields, Option.map_some, Option.getD_some, List.filter_append,
          List.map_append] at ht ⊢
        exact List.mem_append_left _ ht
    · exact .inr hnote

theorem safe_of_reaches (h : templateMachine.system.Reaches s t) (hs : Safe content s) :
    Safe content t := by
  induction h with
  | refl => exact hs
  | step _ hstep ih =>
    cases hstep
    exact (run_safe _).final ih

end

/-! ## The import runs once -/

/-- Once this is told, the import writes no more. -/
def Event.ends : Event → Bool
  | .writes _ => false
  | .completed => true
  | .saved _ => true

def Imported (db : TemplateDb) : Prop :=
  TemplateImport.fromColumn db.importColumn ≠ .notImported

/-- The import has run to its end at most once, and has written nothing after that or
after a save; once either is told, it is marked as run, where the session reads it and
where it is stored. -/
structure ImportInv (s : World) : Prop where
  once : s.log.count .completed ≤ 1
  ordered : s.log.Pairwise fun earlier later => earlier.ends = true → later.ends = true
  marked : (∃ e ∈ s.log, e.ends = true) →
    Imported s.stored ∧ ∀ db, s.db = some db → Imported db

/-- The session's database is marked. -/
def Marked (s : World) : Prop := ImportInv s ∧ ∃ db, s.db = some db ∧ Imported db

/-- Nothing has ended. -/
def Unended (s : World) : Prop := ImportInv s ∧ ∀ e ∈ s.log, e.ends = false

section

variable {s t : World} {α : Type} {m : TemplateM α}

theorem map_importColumn {db db' : Option TemplateDb}
    (h : db'.map TemplateDb.importColumn = db.map TemplateDb.importColumn) {d : TemplateDb}
    (hd : db' = some d) : ∃ e, db = some e ∧ e.importColumn = d.importColumn := by
  rw [hd, Option.map_some] at h
  exact Option.map_eq_some_iff.mp h.symm

theorem ImportInv.of_same (h : ImportInv s) (hsame : SameImport s t) : ImportInv t := by
  obtain ⟨hlog, hstored, hdb⟩ := hsame
  refine ⟨hlog ▸ h.once, hlog ▸ h.ordered, fun hends => ?_⟩
  obtain ⟨himported, hsession⟩ := h.marked (hlog ▸ hends)
  refine ⟨hstored ▸ himported, fun d hd => ?_⟩
  obtain ⟨e, he, hcolumn⟩ := map_importColumn hdb hd
  have hmarked := hsession e he
  unfold Imported at hmarked ⊢
  rwa [← hcolumn]

theorem Marked.of_same (h : Marked s) (hsame : SameImport s t) : Marked t := by
  refine ⟨h.1.of_same hsame, ?_⟩
  obtain ⟨db, hdb, himported⟩ := h.2
  obtain ⟨e, he, hcolumn⟩ := map_importColumn hsame.2.2.symm hdb
  refine ⟨e, he, ?_⟩
  unfold Imported at himported ⊢
  rwa [hcolumn]

theorem Unended.of_same (h : Unended s) (hsame : SameImport s t) : Unended t :=
  ⟨h.1.of_same hsame, hsame.1 ▸ h.2⟩

theorem query_import (read : TemplateDb → α) : Moves SameImport (query read) :=
  query_moves read fun _ _ => ⟨rfl, rfl, rfl⟩

/-- A statement about templates. -/
theorem statement_import {change : TemplateDb → TemplateDb}
    (hchange : ∀ db, (change db).importColumn = db.importColumn) :
    Moves SameImport (statement change) := by
  refine statement_moves (fun _ _ => ⟨rfl, rfl, rfl⟩) fun s => ⟨rfl, rfl, ?_⟩
  cases s.db with
  | none => rfl
  | some db => exact congrArg some (hchange db)

theorem upsert_import (name content : String) :
    Moves SameImport (upsertOpenvpnTemplate name content) :=
  statement_import fun _ => rfl

theorem vaultTemplates_import : Moves SameImport vaultTemplates :=
  (call_moves (fun _ _ => ⟨rfl, rfl, rfl⟩) Std.Refl.refl).bind fun _ => .bind .get fun _ => .pure

theorem inv_of_same (h : Moves SameImport m) :
    Ensures ImportInv m (fun _ => ImportInv) ImportInv :=
  h.keep fun _ _ => ImportInv.of_same

theorem marked_of_same (h : Moves SameImport m) : Ensures Marked m (fun _ => Marked) ImportInv :=
  (h.keep fun _ _ => Marked.of_same).failing fun _ hs => hs.1

theorem unended_of_same (h : Moves SameImport m) :
    Ensures Unended m (fun _ => Unended) ImportInv :=
  (h.keep fun _ _ => Unended.of_same).failing fun _ hs => hs.1

theorem database_loaded {P : World → Prop} :
    Ensures P database (fun db s => P s ∧ s.db = some db) P := by
  have hget : Ensures P (get : TemplateM World) (fun a s => P s ∧ a = s) P :=
    .get fun s hs => ⟨hs, rfl⟩
  refine hget.bind fun a => ?_
  cases hdb : a.db with
  | none => exact .throw fun s hs => hs.1
  | some db => exact .pure fun s hs => ⟨hs.1, hs.2 ▸ hdb⟩

/-- Marking keeps what is told. -/
theorem mark_inv {state : TemplateImport} (hstate : state ≠ .notImported) {P : List Event → Prop} :
    Ensures (fun s => ImportInv s ∧ P s.log)
      (statement fun db => { db with importColumn := state.toColumn })
      (fun _ s => Marked s ∧ P s.log) ImportInv := by
  have hmarked (db : TemplateDb) : Imported { db with importColumn := state.toColumn } := by
    cases state with
    | notImported => exact absurd rfl hstate
    | awaitingCleanup => exact TemplateImport.noConfusion
    | settled => exact TemplateImport.noConfusion
  refine (database_loaded.failing fun _ hs => hs.1).bind fun db => ?_
  refine call_ensures (fun _ _ hs => ⟨⟨⟨hs.1.1.once, hs.1.1.ordered, hs.1.1.marked⟩, hs.1.2⟩, hs.2⟩)
    ?_ (fun _ hs => hs.1.1) fun _ hs => hs.1.1
  rintro s ⟨⟨hinv, hlog⟩, hdb⟩
  refine ⟨⟨⟨hinv.once, hinv.ordered, fun hends => ⟨(hinv.marked hends).1, ?_⟩⟩, _,
    by rw [hdb]; rfl, hmarked db⟩, hlog⟩
  intro d hd
  rw [hdb, Option.map_some] at hd
  cases hd
  exact hmarked db

/-- A marked database that is stored is marked where it is stored. -/
theorem store_marked {P : List Event → Prop} :
    Ensures (fun s => Marked s ∧ P s.log) storeCaDatabase
      (fun _ s => (Marked s ∧ P s.log) ∧ Imported s.stored) ImportInv := by
  have hreads : Ensures (fun s => Marked s ∧ P s.log) database
      (fun _ s => Marked s ∧ P s.log) (fun s => Marked s ∧ P s.log) :=
    database_reads.reads _
  refine (hreads.failing fun _ hs => hs.1.1).bind fun _ => ?_
  refine call_ensures (fun _ _ hs => ⟨⟨⟨hs.1.1.once, hs.1.1.ordered, hs.1.1.marked⟩, hs.1.2⟩, hs.2⟩)
    ?_ (fun _ hs => hs.1.1) fun _ hs => hs.1.1.1
  rintro s ⟨⟨hinv, db, hdb, himported⟩, hlog⟩
  have hstored : Imported (s.db.getD s.stored) := by
    rw [hdb]
    exact himported
  exact ⟨⟨⟨⟨hinv.once, hinv.ordered, fun hends => ⟨hstored, (hinv.marked hends).2⟩⟩, db, hdb,
    himported⟩, hlog⟩, hstored⟩

end

section

variable {s t : World} {found : List (String × String)}

theorem store_inv : Ensures ImportInv storeCaDatabase (fun _ => ImportInv) ImportInv := by
  refine (database_reads.reads _).bind fun _ => ?_
  refine call_ensures (fun _ _ hs => ⟨hs.once, hs.ordered, hs.marked⟩) ?_ (fun _ hs => hs)
    fun _ hs => hs
  intro s hs
  refine ⟨hs.once, hs.ordered, fun hends => ?_⟩
  obtain ⟨hstored, hsession⟩ := hs.marked hends
  refine ⟨?_, hsession⟩
  show Imported (s.db.getD s.stored)
  cases hdb : s.db with
  | none => exact hstored
  | some db => exact hsession db hdb

/-- The import is set to have run only. -/
theorem setImportState_inv {state : TemplateImport} (hstate : state ≠ .notImported) :
    Ensures ImportInv (setImportState state) (fun _ => ImportInv) ImportInv := by
  have hmark := mark_inv (P := fun _ => True) hstate
  refine (hmark.imp (fun _ hs => ⟨hs, trivial⟩) (fun _ _ hs => hs.1) fun _ hs => hs).bind
    fun _ => ?_
  exact store_inv.imp (fun _ hs => hs.1) (fun _ _ hs => hs) fun _ hs => hs

/-- A template is written while nothing has ended. -/
theorem write_unended (t : String × String) :
    Ensures Unended
      (do
        tell (.writes t.1)
        upsertOpenvpnTemplate t.1 t.2)
      (fun _ => Unended) Unended := by
  refine Ensures.bind (.modify fun s hs => ?_) fun _ =>
    (upsert_import t.1 t.2).keep fun _ _ => Unended.of_same
  have hnone : ∀ e ∈ s.log ++ [Event.writes t.1], e.ends = false := by
    intro e he
    rcases List.mem_append.mp he with hold | hnew
    · exact hs.2 e hold
    · rw [List.mem_singleton.mp hnew]
      rfl
  refine ⟨⟨?_, ?_, ?_⟩, hnone⟩
  · show (s.log ++ [Event.writes t.1]).count .completed ≤ 1
    rw [List.count_append]
    simpa using hs.1.once
  · refine List.pairwise_append.mpr ⟨hs.1.ordered, List.pairwise_singleton _ _, ?_⟩
    intro e he _ _ hends
    rw [hs.2 e he] at hends
    cases hends
  · rintro ⟨e, he, hends⟩
    rw [hnone e he] at hends
    cases hends

/-- The end of an import that is marked, and stored so, may be told. -/
theorem Marked.ending {event : Event} (h : Marked s) (hstored : Imported s.stored)
    (hends : event.ends = true) (honce : (s.log ++ [event]).count .completed ≤ 1) :
    Marked { s with log := s.log ++ [event] } := by
  obtain ⟨hinv, db, hdb, himported⟩ := h
  refine ⟨⟨honce, ?_, fun _ => ⟨hstored, ?_⟩⟩, db, hdb, himported⟩
  · refine List.pairwise_append.mpr ⟨hinv.ordered, List.pairwise_singleton _ _, ?_⟩
    intro _ _ e he _
    rw [List.mem_singleton.mp he]
    exact hends
  · intro d hd
    have hsame : some d = some db := hd.symm.trans hdb
    cases hsame
    exact himported

theorem completed_marked : Ensures
    (fun s => (Marked s ∧ ∀ e ∈ s.log, e.ends = false) ∧ Imported s.stored) (tell .completed)
    (fun _ => Marked) ImportInv := by
  refine .modify ?_
  rintro s ⟨⟨hmarked, hnone⟩, hstored⟩
  refine hmarked.ending hstored rfl ?_
  have hzero : s.log.count .completed = 0 :=
    List.count_eq_zero.mpr fun hmem => Bool.noConfusion (hnone _ hmem)
  rw [List.count_append, hzero]
  decide

theorem saved_inv (name : String) : Ensures (fun s => Marked s ∧ Imported s.stored)
    (tell (.saved name)) (fun _ => ImportInv) ImportInv := by
  refine .modify ?_
  rintro s ⟨hmarked, hstored⟩
  refine (hmarked.ending hstored rfl ?_).1
  rw [List.count_append]
  simpa using hmarked.1.once

/-- Where the session reads that the import has run or not. -/
theorem openvpnTemplateImport_inv : Ensures ImportInv openvpnTemplateImport
    (fun state s => ImportInv s ∧ ∃ db, s.db = some db ∧ state = .fromColumn db.importColumn)
    ImportInv := by
  refine (database_loaded (P := ImportInv)).bind fun db => ?_
  refine Ensures.bind (call_ensures (Q := fun s => ImportInv s ∧ s.db = some db)
    (fun _ _ hs => ⟨⟨hs.1.once, hs.1.ordered, hs.1.marked⟩, hs.2⟩) (fun _ hs => hs)
    (fun _ hs => hs.1) fun _ hs => hs.1) fun _ => ?_
  exact .pure fun s hs => ⟨hs.1, db, hs.2, rfl⟩

/-- The import leaves the session's database marked, or nothing worse than before. -/
theorem import_marked :
    Ensures ImportInv importTemplatesFromVault (fun _ => Marked) ImportInv := by
  refine openvpnTemplateImport_inv.bind fun state => ?_
  split
  next hstate =>
    refine .pure ?_
    rintro s ⟨hinv, db, hdb, rfl⟩
    exact ⟨hinv, db, hdb, hstate⟩
  next hstate =>
    have hunended : ∀ s,
        (ImportInv s ∧ ∃ db, s.db = some db ∧ state = .fromColumn db.importColumn) →
          Unended s := by
      rintro s ⟨hinv, db, hdb, hcolumn⟩
      refine ⟨hinv, fun e he => ?_⟩
      by_contra hends
      have hmarked := (hinv.marked ⟨e, he, Bool.eq_true_of_not_eq_false hends⟩).2 db hdb
      exact hmarked (hcolumn ▸ not_not.mp hstate)
    have hread : Ensures Unended vaultTemplates (fun _ => Unended) ImportInv :=
      unended_of_same vaultTemplates_import
    refine (hread.imp hunended (fun _ _ hs => hs) fun _ hs => hs).bind fun found => ?_
    refine Ensures.bind ((Ensures.forM write_unended found).failing fun _ hs => hs.1) fun _ => ?_
    have hset : (if found = [] then TemplateImport.settled else .awaitingCleanup) ≠
        .notImported := by
      split <;> exact TemplateImport.noConfusion
    refine Ensures.bind ((mark_inv (P := fun log => ∀ e ∈ log, e.ends = false) hset).bind fun _ =>
      store_marked (P := fun log => ∀ e ∈ log, e.ends = false)) fun _ => ?_
    exact completed_marked.bind fun _ => .pure fun _ hs => hs

theorem templatesDb_marked : Ensures ImportInv templatesDb (fun _ => Marked) ImportInv :=
  import_marked.bind fun _ => (database_reads.reads _).failing fun _ hs => hs.1

theorem copyFrom_import (found : List (String × String)) (copied : Bool) :
    Moves SameImport (copyFrom found copied) := by
  induction found generalizing copied with
  | nil => exact .pure
  | cons t found ih =>
    refine (query_import _).bind fun held => ?_
    cases held with
    | some content => exact ih copied
    | none => exact (upsert_import t.1 t.2).bind fun _ => ih true

theorem copyMissingTemplates_inv (found : List (String × String)) :
    Ensures ImportInv (copyMissingTemplates found) (fun _ => ImportInv) ImportInv := by
  refine (inv_of_same (copyFrom_import found false)).bind fun copied => ?_
  split
  · exact store_inv
  · exact .pure fun _ hs => hs

theorem settle_inv : Ensures ImportInv (setImportState .settled) (fun _ => ImportInv) ImportInv :=
  setImportState_inv TemplateImport.noConfusion

theorem templatesAwaitingCleanup_inv :
    Ensures ImportInv templatesAwaitingCleanup (fun _ => ImportInv) ImportInv := by
  refine (inv_of_same (query_import _)).bind fun state => ?_
  split
  · exact .pure fun _ hs => hs
  · refine (inv_of_same vaultTemplates_import).bind fun found => ?_
    split
    · exact settle_inv.bind fun _ => .pure fun _ hs => hs
    · exact (copyMissingTemplates_inv found).bind fun _ => .pure fun _ hs => hs

/-- A call that changes the item or the notes only. -/
theorem call_import {effect : World → World} (heffect : ∀ s, SameImport s (effect s)) :
    Moves SameImport (call effect) :=
  call_moves (fun _ _ => ⟨rfl, rfl, rfl⟩) heffect

theorem moveToArchive_inv (found : List (String × String)) :
    Ensures ImportInv (moveToArchive found) (fun _ => ImportInv) ImportInv := by
  refine (copyMissingTemplates_inv found).bind fun _ => ?_
  have hcreate : Moves SameImport (createItem found) := by
    refine .bind .get fun s => Moves.bind (call_import ?_) fun _ => .pure
    exact fun _ => ⟨rfl, rfl, rfl⟩
  have hdelete (archive : Nat) : Moves SameImport (deleteItem archive) :=
    call_import fun _ => ⟨rfl, rfl, rfl⟩
  have hremove : Moves SameImport (removeFields (found.map Prod.fst)) :=
    call_import fun _ => ⟨rfl, rfl, rfl⟩
  refine (inv_of_same hcreate).bind fun archive => ?_
  exact (inv_of_same (hdelete archive)).bind fun _ => inv_of_same hremove

theorem archiveVaultTemplates_inv :
    Ensures ImportInv archiveVaultTemplates (fun _ => ImportInv) ImportInv := by
  refine (inv_of_same vaultTemplates_import).bind fun found => ?_
  have harchived : Ensures ImportInv (archiveVaultTemplates.archiveFound found)
      (fun _ => ImportInv) ImportInv := by
    unfold archiveVaultTemplates.archiveFound
    split
    · exact .pure fun _ hs => hs
    · exact moveToArchive_inv found
  exact harchived.bind fun _ => settle_inv.bind fun _ => .pure fun _ hs => hs

theorem saveTemplate_inv (name content : String) :
    Ensures ImportInv (saveTemplate name content) (fun _ => ImportInv) ImportInv := by
  refine templatesDb_marked.bind fun _ => ?_
  refine (marked_of_same (upsert_import name content)).bind fun _ => ?_
  have hstore : Ensures Marked storeCaDatabase (fun _ s => Marked s ∧ Imported s.stored)
      ImportInv :=
    (store_marked (P := fun _ => True)).imp (fun _ hs => ⟨hs, trivial⟩)
      (fun _ _ hs => ⟨hs.1.1, hs.2⟩) fun _ hs => hs
  exact hstore.bind fun _ => saved_inv name

theorem templatesDb_inv : Ensures ImportInv templatesDb (fun _ => ImportInv) ImportInv :=
  templatesDb_marked.imp (fun _ hs => hs) (fun _ _ hs => hs.1) fun _ hs => hs

theorem addStarterTemplate_inv (boilerplate name : String) :
    Ensures ImportInv (addStarterTemplate boilerplate name) (fun _ => ImportInv) ImportInv := by
  refine templatesDb_inv.bind fun _ => (inv_of_same (query_import _)).bind fun held => ?_
  cases held with
  | some content => exact .pure fun _ hs => hs
  | none => exact (saveTemplate_inv name boilerplate).bind fun _ => .pure fun _ hs => hs

theorem deleteTemplate_inv (name : String) :
    Ensures ImportInv (deleteTemplate name) (fun _ => ImportInv) ImportInv := by
  refine templatesDb_inv.bind fun _ => (inv_of_same (query_import _)).bind fun existed => ?_
  have hdelete : Moves SameImport (statement fun db =>
      { db with templates := db.templates.filter (·.1 ≠ name) }) := statement_import fun _ => rfl
  refine (inv_of_same hdelete).bind fun _ => ?_
  split
  · exact store_inv.bind fun _ => .pure fun _ hs => hs
  · exact .pure fun _ hs => hs

theorem getTemplate_inv (name : String) :
    Ensures ImportInv (getTemplate name) (fun _ => ImportInv) ImportInv := by
  refine templatesDb_inv.bind fun _ => (inv_of_same (query_import _)).bind fun held => ?_
  cases held with
  | some content => exact .pure fun _ hs => hs
  | none => exact .throw fun _ hs => hs

theorem run_inv (operation : Operation) :
    Ensures ImportInv operation.run (fun _ => ImportInv) ImportInv := by
  cases operation with
  | importTemplates =>
    exact import_marked.bind fun _ => .pure fun _ hs => hs.1
  | awaiting => exact templatesAwaitingCleanup_inv.bind fun _ => .pure fun _ hs => hs
  | archive => exact archiveVaultTemplates_inv.bind fun _ => .pure fun _ hs => hs
  | keep => exact settle_inv
  | list =>
    exact (templatesDb_inv.bind fun _ => inv_of_same (query_import _)).bind fun _ =>
      .pure fun _ hs => hs
  | get name => exact (getTemplate_inv name).bind fun _ => .pure fun _ hs => hs
  | save name content => exact saveTemplate_inv name content
  | addStarter boilerplate name =>
    exact (addStarterTemplate_inv boilerplate name).bind fun _ => .pure fun _ hs => hs
  | delete name => exact (deleteTemplate_inv name).bind fun _ => .pure fun _ hs => hs
  | reload =>
    refine .modify fun s hs => ⟨hs.once, hs.ordered, fun hends => ?_⟩
    refine ⟨(hs.marked hends).1, fun db hdb => ?_⟩
    cases hdb
    exact (hs.marked hends).1
  | crash =>
    refine .modify fun s hs => ⟨hs.once, hs.ordered, fun hends => ?_⟩
    refine ⟨(hs.marked hends).1, fun db hdb => ?_⟩
    cases hdb
  | older field => exact .modify fun s hs => ⟨hs.once, hs.ordered, hs.marked⟩

theorem importInv_invariant : templateMachine.system.Invariant ImportInv where
  init := by
    rintro s ⟨-, hlog⟩
    refine ⟨?_, ?_, ?_⟩
    · rw [hlog]
      exact Nat.zero_le 1
    · rw [hlog]
      exact .nil
    · rintro ⟨e, he, -⟩
      rw [hlog] at he
      cases he
  step := by
    intro s t l hs hstep
    cases hstep
    have hanswered : ImportInv { s with answers := l.answers } := ⟨hs.once, hs.ordered, hs.marked⟩
    exact (run_inv l.operation).final hanswered

/-- Whatever is done after, and wherever it stops: a template content that is on the item
is still on the item, in the stored database or in an archived copy; the import has run to
its end at most once, and has written no template after it did or after one was saved. -/
theorem templates_kept (hs : templateMachine.system.Reachable s)
    (h : templateMachine.system.Reaches s t) :
    (∀ content ∈ s.vaultTemplates.map Prod.snd,
      content ∈ t.vaultTemplates.map Prod.snd ∨ content ∈ t.stored.templates.map Prod.snd ∨
        ∃ n ∈ t.notes, n.archived = true ∧ content ∈ n.copies.map Prod.snd) ∧
    t.log.count .completed ≤ 1 ∧
    ∀ before after name, t.log = before ++ .writes name :: after →
      .completed ∉ before ∧ ∀ other, .saved other ∉ before := by
  have hinv := importInv_invariant.reachable (h.reachable hs)
  refine ⟨fun content hcontent => ?_, hinv.once, fun before after name hlog => ?_⟩
  · rcases safe_of_reaches h (.inl hcontent) with hitem | hnote
    · exact .inl hitem
    · exact .inr (.inr hnote)
  · have hordered := hinv.ordered
    rw [hlog] at hordered
    have hbefore := (List.pairwise_append.mp hordered).2.2
    refine ⟨fun hmem => ?_, fun other hmem => ?_⟩
    · exact Bool.noConfusion (hbefore _ hmem _ List.mem_cons_self rfl)
    · exact Bool.noConfusion (hbefore _ hmem _ List.mem_cons_self rfl)

end

/-! ## A run -/

def sampleWorld : World where
  item := some [⟨some "server", "hostname", some "vpn"⟩, ⟨some "template", "tcp", some "client "⟩]
  notes := []
  stored := ⟨[], none⟩
  db := none
  answers := []
  log := []

/-- The import's store is refused, the session is lost, and the next one archives the
item's templates, until their removal is refused. -/
def sampleRun : List Step :=
  [⟨.reload, []⟩, ⟨.importTemplates, [.done, .done, .done, .done, .refused]⟩, ⟨.crash, []⟩,
    ⟨.reload, []⟩, ⟨.archive, [.done, .done, .done, .done, .done, .done, .refused]⟩]

theorem sampleRun_kept :
    ∃ t, templateMachine.exec sampleRun sampleWorld = some t ∧
      ("client" ∈ t.vaultTemplates.map Prod.snd ∨ "client" ∈ t.stored.templates.map Prod.snd ∨
        ∃ n ∈ t.notes, n.archived = true ∧ "client" ∈ n.copies.map Prod.snd) ∧
      t.log.count .completed ≤ 1 := by
  obtain ⟨t, hexec⟩ := Option.isSome_iff_exists.mp
    (show (templateMachine.exec sampleRun sampleWorld).isSome = true by decide)
  have hkept := templates_kept (.init ⟨rfl, rfl⟩) (Machine.reaches_of_exec .refl hexec)
  exact ⟨t, hexec, hkept.1 "client" (by decide), hkept.2.1⟩

end Opca.Core.Templates

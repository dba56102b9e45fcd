/-
  Core/CommandQueue.lean --- writes to 1Password that are queued and flushed together
  (`services/command_queue.rs`, `op.rs`), and what each command that succeeds does.

  Items are named by titles, and a title that several have names none of them.  What is
  done with an item's fields is a parameter.
-/
import Mathlib.Data.List.Basic
import Mathlib.Logic.Function.Basic
import Opca.Foundation.Fallible

set_option autoImplicit false

namespace Opca.Core.CommandQueue

open Opca.Foundation

/-! ## Commands -/

inductive QueueOp where
  | storeItem | storeDocument | renameItem | deleteItem
  deriving DecidableEq, Repr

structure QueuePayload where
  action : String := "auto"
  attributes : List String := []
  filename : String := ""
  content : String := ""
  dstTitle : String := ""
  archive : Bool := true
  category : String := ""
  deriving DecidableEq, Repr

structure QueuedCommand where
  operation : QueueOp
  targetType : String
  targetId : String
  payload : QueuePayload
  deriving DecidableEq, Repr

inductive StoreAction where
  | auto | create | edit
  deriving DecidableEq, Repr

def parseStoreAction (s : String) : StoreAction :=
  if s = "create" then .create else if s = "edit" then .edit else .auto

def QueuedCommand.action (c : QueuedCommand) : StoreAction := parseStoreAction c.payload.action

def QueuedCommand.file (c : QueuedCommand) : String × String :=
  (c.payload.filename, c.payload.content)

/-- The later indices are in front. -/
def insertLast (last : List (String × ℕ)) (entry : QueuedCommand × ℕ) : List (String × ℕ) :=
  if entry.1.operation = .storeDocument then (entry.1.targetId, entry.2) :: last else last

/-- The last index at which each title's document is stored. -/
def lastStoreDoc (queue : List QueuedCommand) : List (String × ℕ) :=
  queue.zipIdx.foldl insertLast []

/-- Of the stores of a title's document, only the last is left. -/
def collapseQueue (queue : List QueuedCommand) : List QueuedCommand :=
  (queue.zipIdx.filter fun entry =>
    if entry.1.operation = .storeDocument then
      decide ((lastStoreDoc queue).lookup entry.1.targetId = some entry.2)
    else true).map Prod.fst

/-! ## The vault -/

inductive OpError where
  | itemNotFound
  | other (message : String)
  deriving DecidableEq, Repr

/-- What is done with the fields of items. -/
structure Fielding (Assignment Fields : Type) where
  parse : String → Except OpError Assignment
  /-- Of a new item of a category. -/
  new : String → List Assignment → Except OpError Fields
  set : List Assignment → Fields → Except OpError Fields
  /-- Of a new document. -/
  document : Fields

/-- An item; a document has a file. -/
structure Entry (Fields : Type) where
  fields : Fields
  file : Option (String × String)
  deriving DecidableEq, Repr

/-- The items that each title names. -/
abbrev Vault (Fields : Type) := String → List (Entry Fields)

section

variable {Assignment Fields : Type}

/-- The item that a title names. -/
def find (v : Vault Fields) (title : String) : Except OpError (Entry Fields) :=
  match v title with
  | [] => .error .itemNotFound
  | [entry] => .ok entry
  | _ => .error (.other "More than one item matches")

def itemExists (v : Vault Fields) (title : String) : Except OpError Bool :=
  match find v title with
  | .ok _ => .ok true
  | .error .itemNotFound => .ok false
  | .error e => .error e

def create (v : Vault Fields) (title : String) (entry : Entry Fields) : Vault Fields :=
  Function.update v title (v title ++ [entry])

def editItem (fielding : Fielding Assignment Fields) (v : Vault Fields) (title : String)
    (assignments : List Assignment) : Except OpError (Vault Fields) := do
  let entry ← find v title
  let fields ← fielding.set assignments entry.fields
  return Function.update v title [{ entry with fields }]

def createItem (fielding : Fielding Assignment Fields) (v : Vault Fields)
    (title category : String) (assignments : List Assignment) :
    Except OpError (Vault Fields) := do
  let fields ← fielding.new category assignments
  return create v title ⟨fields, none⟩

def createDocument (fielding : Fielding Assignment Fields) (v : Vault Fields) (title : String)
    (file : String × String) : Vault Fields :=
  create v title ⟨fielding.document, some file⟩

def editDocument (v : Vault Fields) (title : String) (file : String × String) :
    Except OpError (Vault Fields) := do
  let entry ← find v title
  if entry.file.isSome then return Function.update v title [{ entry with file := some file }]
  else throw (.other "not a document")

/-- Replaces the document's file, creating the document when there is none. -/
def putDocument (fielding : Fielding Assignment Fields) (v : Vault Fields) (title : String)
    (file : String × String) : Except OpError (Vault Fields) :=
  match editDocument v title file with
  | .error .itemNotFound => .ok (createDocument fielding v title file)
  | edited => edited

def renameItem (v : Vault Fields) (title dstTitle : String) :
    Except OpError (Vault Fields) := do
  let entry ← find v title
  return create (Function.update v title []) dstTitle entry

/-- Deletes an item, or archives it. -/
def deleteItem (v : Vault Fields) (title : String) : Except OpError (Vault Fields) := do
  let _ ← find v title
  return Function.update v title []

def execute (fielding : Fielding Assignment Fields) (v : Vault Fields) (c : QueuedCommand) :
    Except OpError (Vault Fields) :=
  match c.operation with
  | .storeItem => do
    let fields ← c.payload.attributes.mapM fielding.parse
    let edit ← match c.action with
      | .create => .ok false
      | .edit => .ok true
      | .auto => itemExists v c.targetId
    if edit then editItem fielding v c.targetId fields
    else createItem fielding v c.targetId c.payload.category fields
  | .storeDocument =>
    match c.action with
    | .create => .ok (createDocument fielding v c.targetId c.file)
    | .edit => editDocument v c.targetId c.file
    | .auto => putDocument fielding v c.targetId c.file
  | .renameItem => renameItem v c.targetId c.payload.dstTitle
  | .deleteItem => deleteItem v c.targetId

structure FlushResult where
  operation : QueueOp
  targetId : String
  success : Bool
  error : Option OpError
  deriving DecidableEq, Repr

/-- Commands in turn; one that fails is passed over. -/
def flushCommands (fielding : Fielding Assignment Fields) :
    List QueuedCommand → Vault Fields → List FlushResult × Vault Fields
  | [], v => ([], v)
  | c :: commands, v =>
    match execute fielding v c with
    | .ok v' =>
      let (results, w) := flushCommands fielding commands v'
      (⟨c.operation, c.targetId, true, none⟩ :: results, w)
    | .error e =>
      let (results, w) := flushCommands fielding commands v
      (⟨c.operation, c.targetId, false, some e⟩ :: results, w)

/-- What each command came to, and the vault after them; the queue is left empty. -/
def flush (fielding : Fielding Assignment Fields) (queue : List QueuedCommand)
    (v : Vault Fields) : List FlushResult × Vault Fields :=
  flushCommands fielding (collapseQueue queue) v

/-- All commands in order, until one fails. -/
def inOrder (fielding : Fielding Assignment Fields) :
    List QueuedCommand → Vault Fields → Except OpError (Vault Fields)
  | [], v => .ok v
  | c :: commands, v => do
    let v' ← execute fielding v c
    inOrder fielding commands v'

end

/-! ## What a command does -/

section

variable {Assignment Fields : Type} {fielding : Fielding Assignment Fields}
  {v v' F F' C : Vault Fields} {c : QueuedCommand} {title : String} {entry : Entry Fields}

theorem find_eq_ok : find v title = .ok entry ↔ v title = [entry] := by
  unfold find
  split
  next hnone => simp [hnone]
  next found hone => simp [hone]
  next hnone hone =>
    constructor
    · intro h
      cases h
    · intro h
      exact absurd h (hone entry)

/-- What a command that succeeds does to the vault. -/
inductive Does (fielding : Fielding Assignment Fields) (v : Vault Fields)
    (c : QueuedCommand) : Vault Fields → Prop
  | makesItem {assignments : List Assignment} {fields : Fields} :
      c.operation = .storeItem →
      (c.action = .create ∨ c.action = .auto ∧ v c.targetId = []) →
      c.payload.attributes.mapM fielding.parse = .ok assignments →
      fielding.new c.payload.category assignments = .ok fields →
      Does fielding v c (create v c.targetId ⟨fields, none⟩)
  | editsItem {assignments : List Assignment} {entry : Entry Fields} {fields : Fields} :
      c.operation = .storeItem → c.action ≠ .create → v c.targetId = [entry] →
      c.payload.attributes.mapM fielding.parse = .ok assignments →
      fielding.set assignments entry.fields = .ok fields →
      Does fielding v c (Function.update v c.targetId [{ entry with fields }])
  | makesDocument :
      c.operation = .storeDocument →
      (c.action = .create ∨ c.action = .auto ∧ v c.targetId = []) →
      Does fielding v c
        (createDocument fielding v c.targetId c.file)
  | editsDocument {entry : Entry Fields} :
      c.operation = .storeDocument → c.action ≠ .create → v c.targetId = [entry] →
      entry.file.isSome = true →
      Does fielding v c (Function.update v c.targetId
        [{ entry with file := some c.file }])
  | renames {entry : Entry Fields} :
      c.operation = .renameItem → v c.targetId = [entry] →
      Does fielding v c
        (create (Function.update v c.targetId []) c.payload.dstTitle entry)
  | deletes {entry : Entry Fields} :
      c.operation = .deleteItem → v c.targetId = [entry] →
      Does fielding v c (Function.update v c.targetId [])

theorem itemExists_eq_ok {b : Bool} (h : itemExists v title = .ok b) :
    (b = true ∧ ∃ entry, v title = [entry]) ∨ (b = false ∧ v title = []) := by
  unfold itemExists find at h
  split at h
  next entry hfind =>
    split at hfind
    next => cases hfind
    next found hone =>
      cases h
      exact .inl ⟨rfl, found, hone⟩
    next => cases hfind
  next hfind =>
    split at hfind
    next hnone =>
      cases h
      exact .inr ⟨rfl, hnone⟩
    next => cases hfind
    next => cases hfind
  next => cases h

theorem editItem_eq_ok {assignments : List Assignment} :
    editItem fielding v title assignments = .ok v' ↔ ∃ entry fields, v title = [entry] ∧
      fielding.set assignments entry.fields = .ok fields ∧
      v' = Function.update v title [{ entry with fields }] := by
  unfold editItem
  constructor
  · intro h
    obtain ⟨entry, hfind, h⟩ := bind_eq_ok.mp h
    obtain ⟨fields, hset, h⟩ := bind_eq_ok.mp h
    cases h
    exact ⟨entry, fields, find_eq_ok.mp hfind, hset, rfl⟩
  · rintro ⟨entry, fields, hone, hset, rfl⟩
    exact bind_eq_ok.mpr ⟨entry, find_eq_ok.mpr hone, bind_eq_ok.mpr ⟨fields, hset, rfl⟩⟩

theorem createItem_eq_ok {category : String} {assignments : List Assignment} :
    createItem fielding v title category assignments = .ok v' ↔ ∃ fields,
      fielding.new category assignments = .ok fields ∧
      v' = create v title ⟨fields, none⟩ := by
  unfold createItem
  constructor
  · intro h
    obtain ⟨fields, hnew, h⟩ := bind_eq_ok.mp h
    cases h
    exact ⟨fields, hnew, rfl⟩
  · rintro ⟨fields, hnew, rfl⟩
    exact bind_eq_ok.mpr ⟨fields, hnew, rfl⟩

theorem editDocument_of_one {file : String × String} (hone : v title = [entry])
    (hfile : entry.file.isSome = true) : editDocument v title file =
      .ok (Function.update v title [{ entry with file := some file }]) := by
  unfold editDocument
  rw [find_eq_ok.mpr hone]
  exact if_pos hfile

theorem editDocument_eq_ok {file : String × String} (h : editDocument v title file = .ok v') :
    ∃ entry, v title = [entry] ∧ entry.file.isSome = true ∧
      v' = Function.update v title [{ entry with file := some file }] := by
  unfold editDocument at h
  obtain ⟨entry, hfind, h⟩ := bind_eq_ok.mp h
  split at h
  next hfile =>
    cases h
    exact ⟨entry, find_eq_ok.mp hfind, hfile, rfl⟩
  next => cases h

theorem editDocument_notFound {file : String × String}
    (h : editDocument v title file = .error .itemNotFound) : v title = [] := by
  unfold editDocument find at h
  cases htitle : v title with
  | nil => rfl
  | cons first rest =>
    rw [htitle] at h
    cases rest with
    | nil =>
      have hread : (if first.file.isSome = true then
          Except.ok (Function.update v title [{ first with file := some file }])
        else Except.error (OpError.other "not a document")) = .error .itemNotFound := h
      split at hread <;> cases hread
    | cons second rest => cases h

theorem putDocument_eq_ok {file : String × String}
    (h : putDocument fielding v title file = .ok v') :
    (v title = [] ∧ v' = createDocument fielding v title file) ∨
      ∃ entry, v title = [entry] ∧ entry.file.isSome = true ∧
        v' = Function.update v title [{ entry with file := some file }] := by
  unfold putDocument at h
  split at h
  next hmissing =>
    cases h
    exact .inl ⟨editDocument_notFound hmissing, rfl⟩
  next => exact .inr (editDocument_eq_ok h)

theorem Does.of_execute (h : execute fielding v c = .ok v') : Does fielding v c v' := by
  unfold execute at h
  cases hop : c.operation with
  | storeItem =>
    rw [hop] at h
    obtain ⟨assignments, hparse, h⟩ := bind_eq_ok.mp h
    cases haction : c.action with
    | create =>
      rw [haction] at h
      obtain ⟨fields, hnew, rfl⟩ := createItem_eq_ok.mp h
      exact .makesItem hop (.inl haction) hparse hnew
    | edit =>
      rw [haction] at h
      obtain ⟨entry, fields, hone, hset, rfl⟩ := editItem_eq_ok.mp h
      exact .editsItem hop (by rw [haction]; decide) hone hparse hset
    | auto =>
      rw [haction] at h
      obtain ⟨edit, hexists, h⟩ := bind_eq_ok.mp h
      rcases itemExists_eq_ok hexists with ⟨rfl, -⟩ | ⟨rfl, hnone⟩
      · obtain ⟨entry, fields, hone, hset, rfl⟩ := editItem_eq_ok.mp h
        exact .editsItem hop (by rw [haction]; decide) hone hparse hset
      · obtain ⟨fields, hnew, rfl⟩ := createItem_eq_ok.mp h
        exact .makesItem hop (.inr ⟨haction, hnone⟩) hparse hnew
  | storeDocument =>
    rw [hop] at h
    cases haction : c.action with
    | create =>
      rw [haction] at h
      cases h
      exact .makesDocument hop (.inl haction)
    | edit =>
      rw [haction] at h
      obtain ⟨entry, hone, hfile, rfl⟩ := editDocument_eq_ok h
      exact .editsDocument hop (by rw [haction]; decide) hone hfile
    | auto =>
      rw [haction] at h
      rcases putDocument_eq_ok h with ⟨hnone, rfl⟩ | ⟨entry, hone, hfile, rfl⟩
      · exact .makesDocument hop (.inr ⟨haction, hnone⟩)
      · exact .editsDocument hop (by rw [haction]; decide) hone hfile
  | renameItem =>
    rw [hop] at h
    obtain ⟨entry, hfind, h⟩ := bind_eq_ok.mp h
    cases h
    exact .renames hop (find_eq_ok.mp hfind)
  | deleteItem =>
    rw [hop] at h
    obtain ⟨entry, hfind, h⟩ := bind_eq_ok.mp h
    cases h
    exact .deletes hop (find_eq_ok.mp hfind)

theorem itemExists_of_nil (h : v title = []) : itemExists v title = .ok false := by
  unfold itemExists find
  rw [h]

theorem itemExists_of_one (h : v title = [entry]) : itemExists v title = .ok true := by
  unfold itemExists find
  rw [h]

theorem Does.execute (h : Does fielding v c v') : execute fielding v c = .ok v' := by
  unfold CommandQueue.execute
  cases h with
  | makesItem hop haction hparse hnew =>
    rw [hop]
    refine bind_eq_ok.mpr ⟨_, hparse, ?_⟩
    rcases haction with haction | ⟨haction, hnone⟩
    · rw [haction]
      exact createItem_eq_ok.mpr ⟨_, hnew, rfl⟩
    · rw [haction]
      exact bind_eq_ok.mpr ⟨false, itemExists_of_nil hnone, createItem_eq_ok.mpr ⟨_, hnew, rfl⟩⟩
  | editsItem hop haction hone hparse hset =>
    rw [hop]
    refine bind_eq_ok.mpr ⟨_, hparse, ?_⟩
    cases hkind : c.action with
    | create => exact absurd hkind haction
    | edit => exact editItem_eq_ok.mpr ⟨_, _, hone, hset, rfl⟩
    | auto =>
      exact bind_eq_ok.mpr
        ⟨true, itemExists_of_one hone, editItem_eq_ok.mpr ⟨_, _, hone, hset, rfl⟩⟩
  | makesDocument hop haction =>
    rw [hop]
    rcases haction with haction | ⟨haction, hnone⟩
    · rw [haction]
    · rw [haction]
      simp only [putDocument, editDocument, find, hnone]
      rfl
  | editsDocument hop haction hone hfile =>
    rw [hop]
    cases hkind : c.action with
    | create => exact absurd hkind haction
    | edit => exact editDocument_of_one hone hfile
    | auto => simp only [putDocument, editDocument_of_one hone hfile]
  | renames hop hone =>
    rw [hop]
    exact bind_eq_ok.mpr ⟨_, find_eq_ok.mpr hone, rfl⟩
  | deletes hop hone =>
    rw [hop]
    exact bind_eq_ok.mpr ⟨_, find_eq_ok.mpr hone, rfl⟩

theorem Does.unique (h : Does fielding v c v') {v'' : Vault Fields}
    (h' : Does fielding v c v'') : v' = v'' :=
  Except.ok.inj (h.execute.symm.trans h'.execute)

theorem create_self {entry : Entry Fields} : create v title entry title = v title ++ [entry] :=
  Function.update_self ..

theorem create_of_ne {other : String} {entry : Entry Fields} (h : other ≠ title) :
    create v title entry other = v other :=
  Function.update_of_ne h ..

/-- What a command does to a title that it does not name. -/
theorem Does.elsewhere (h : Does fielding v c v') (hne : title ≠ c.targetId) :
    (¬(c.operation = .renameItem ∧ c.payload.dstTitle = title) ∧ v' title = v title) ∨
      (c.operation = .renameItem ∧ c.payload.dstTitle = title ∧
        ∃ entry, v c.targetId = [entry] ∧ v' title = v title ++ [entry]) := by
  have hother (hop : c.operation ≠ .renameItem) :
      ¬(c.operation = .renameItem ∧ c.payload.dstTitle = title) := fun hrename => hop hrename.1
  cases h with
  | makesItem hop => exact .inl ⟨hother (by simp [hop]), create_of_ne hne⟩
  | editsItem hop => exact .inl ⟨hother (by simp [hop]), Function.update_of_ne hne ..⟩
  | makesDocument hop => exact .inl ⟨hother (by simp [hop]), create_of_ne hne⟩
  | editsDocument hop => exact .inl ⟨hother (by simp [hop]), Function.update_of_ne hne ..⟩
  | @renames entry hop hone =>
    by_cases hdst : c.payload.dstTitle = title
    · subst hdst
      refine .inr ⟨hop, rfl, entry, hone, ?_⟩
      rw [create_self, Function.update_of_ne hne]
    · refine .inl ⟨fun hrename => hdst hrename.2, ?_⟩
      rw [create_of_ne (Ne.symm hdst), Function.update_of_ne hne]
  | deletes hop => exact .inl ⟨hother (by simp [hop]), Function.update_of_ne hne ..⟩

/-- What a command does to the one item that its title names. -/
theorem Does.of_one (h : Does fielding v c v') (hone : v c.targetId = [entry]) :
    (c.action = .create ∧ (c.operation = .storeItem ∨ c.operation = .storeDocument) ∧
      ∃ other, v' c.targetId = [entry] ++ [other]) ∨
    (c.operation = .storeItem ∧ c.action ≠ .create ∧ ∃ assignments fields,
      c.payload.attributes.mapM fielding.parse = .ok assignments ∧
      fielding.set assignments entry.fields = .ok fields ∧
      v' c.targetId = [{ entry with fields }]) ∨
    (c.operation = .storeDocument ∧ c.action ≠ .create ∧ entry.file.isSome = true ∧
      v' c.targetId = [{ entry with file := some c.file }]) ∨
    c.operation = .renameItem ∨
    (c.operation = .deleteItem ∧ v' c.targetId = []) := by
  cases h with
  | makesItem hop haction =>
    rcases haction with haction | ⟨-, hnil⟩
    · exact .inl ⟨haction, .inl hop, _, by rw [create_self, hone]⟩
    · rw [hone] at hnil
      cases hnil
  | editsItem hop haction hone' hparse hset =>
    rw [hone] at hone'
    cases hone'
    exact .inr (.inl ⟨hop, haction, _, _, hparse, hset, Function.update_self ..⟩)
  | makesDocument hop haction =>
    rcases haction with haction | ⟨-, hnil⟩
    · exact .inl ⟨haction, .inr hop, _, by rw [createDocument, create_self, hone]⟩
    · rw [hone] at hnil
      cases hnil
  | editsDocument hop haction hone' hfile =>
    rw [hone] at hone'
    cases hone'
    exact .inr (.inr (.inl ⟨hop, haction, hfile, Function.update_self ..⟩))
  | renames hop => exact .inr (.inr (.inr (.inl hop)))
  | deletes hop =>
    exact .inr (.inr (.inr (.inr ⟨hop, Function.update_self ..⟩)))

/-- Where a title names nothing, a command can but make what it names. -/
theorem Does.of_nil (h : Does fielding v c v') (hnil : v c.targetId = []) :
    c.action ≠ .edit ∧ (c.operation = .storeItem ∨ c.operation = .storeDocument ∧
      v' c.targetId = [⟨fielding.document, some c.file⟩]) := by
  have hone (entry : Entry Fields) (heq : v c.targetId = [entry]) : False := by
    rw [hnil] at heq
    cases heq
  have haction (h : c.action = .create ∨ c.action = .auto ∧ v c.targetId = []) :
      c.action ≠ .edit := by
    rcases h with h | ⟨h, -⟩
    all_goals
      rw [h]
      decide
  cases h with
  | makesItem hop hmakes => exact ⟨haction hmakes, .inl hop⟩
  | makesDocument hop hmakes =>
    refine ⟨haction hmakes, .inr ⟨hop, ?_⟩⟩
    rw [createDocument, create_self, hnil]
    rfl
  | editsItem _ _ heq => exact (hone _ heq).elim
  | editsDocument _ _ heq => exact (hone _ heq).elim
  | renames _ heq => exact (hone _ heq).elim
  | deletes _ heq => exact (hone _ heq).elim

/-- A store of a document that is there. -/
theorem Does.overwrites (h : Does fielding F c F') (hop : c.operation = .storeDocument)
    (haction : c.action ≠ .create) (hsome : F c.targetId ≠ []) :
    ∃ fields file, F c.targetId = [⟨fields, some file⟩] ∧
      F' c.targetId = [⟨fields, some c.file⟩] := by
  cases h with
  | makesItem hitem => simp [hop] at hitem
  | editsItem hitem => simp [hop] at hitem
  | renames hrename => simp [hop] at hrename
  | deletes hdelete => simp [hop] at hdelete
  | makesDocument _ hmakes =>
    exact (hmakes.elim haction fun hauto => hsome hauto.2).elim
  | @editsDocument entry _ _ hone hfile =>
    obtain ⟨fields, file⟩ := entry
    obtain ⟨file, rfl⟩ := Option.isSome_iff_exists.mp hfile
    exact ⟨fields, file, hone, Function.update_self ..⟩

theorem Does.of_rename (h : Does fielding v c v') (hop : c.operation = .renameItem) :
    ∃ entry, v c.targetId = [entry] ∧
      v' = create (Function.update v c.targetId []) c.payload.dstTitle entry := by
  cases h with
  | makesItem hitem => simp [hop] at hitem
  | editsItem hitem => simp [hop] at hitem
  | makesDocument hstore => simp [hop] at hstore
  | editsDocument hstore => simp [hop] at hstore
  | deletes hdelete => simp [hop] at hdelete
  | @renames entry _ hone => exact ⟨entry, hone, rfl⟩

theorem Does.renamed (h : Does fielding v c v') (hop : c.operation = .renameItem) :
    ∃ entry, v c.targetId = [entry] ∧
      v' c.targetId = if c.payload.dstTitle = c.targetId then [entry] else [] := by
  obtain ⟨entry, hone, rfl⟩ := h.of_rename hop
  refine ⟨entry, hone, ?_⟩
  by_cases hdst : c.payload.dstTitle = c.targetId
  · rw [if_pos hdst, hdst, create_self, Function.update_self]
    rfl
  · rw [if_neg hdst, create_of_ne (Ne.symm hdst), Function.update_self]

theorem Does.appends (h : Does fielding v c v') (hop : c.operation = .renameItem)
    (hone : v c.targetId = [entry]) (hself : c.payload.dstTitle ≠ c.targetId) :
    v' c.payload.dstTitle = v c.payload.dstTitle ++ [entry] := by
  rcases h.elsewhere hself with ⟨hother, -⟩ | ⟨-, -, found, hfound, happends⟩
  · exact absurd ⟨hop, rfl⟩ hother
  · rw [hone] at hfound
    cases hfound
    exact happends

/-- A command finds what it names, and nothing else. -/
theorem Does.transport (h : Does fielding F c F') (heq : C c.targetId = F c.targetId) :
    ∃ C', Does fielding C c C' ∧ C' c.targetId = F' c.targetId := by
  cases h with
  | makesItem hop haction hparse hnew =>
    refine ⟨_, .makesItem hop (by rwa [heq]) hparse hnew, ?_⟩
    rw [create_self, create_self, heq]
  | editsItem hop haction hone hparse hset =>
    refine ⟨_, .editsItem hop haction (heq.trans hone) hparse hset, ?_⟩
    rw [Function.update_self, Function.update_self]
  | makesDocument hop haction =>
    refine ⟨_, .makesDocument hop (by rwa [heq]), ?_⟩
    rw [createDocument, createDocument, create_self, create_self, heq]
  | editsDocument hop haction hone hfile =>
    refine ⟨_, .editsDocument hop haction (heq.trans hone) hfile, ?_⟩
    rw [Function.update_self, Function.update_self]
  | renames hop hone =>
    refine ⟨_, .renames hop (heq.trans hone), ?_⟩
    unfold create
    by_cases hdst : c.targetId = c.payload.dstTitle
    · rw [← hdst, Function.update_self, Function.update_self, Function.update_self,
        Function.update_self]
    · rw [Function.update_of_ne hdst, Function.update_of_ne hdst, Function.update_self,
        Function.update_self]
  | deletes hop hone =>
    refine ⟨_, .deletes hop (heq.trans hone), ?_⟩
    rw [Function.update_self, Function.update_self]

/-- How many items a command adds to a title that it takes none from. -/
def gains (c : QueuedCommand) (title : String) : ℕ :=
  if c.targetId = title ∨ c.operation = .renameItem ∧ c.payload.dstTitle = title then 1 else 0

theorem Does.grows (h : Does fielding v c v') (title : String)
    (hnamed : c.targetId = title → c.action = .create ∧
      (c.operation = .storeItem ∨ c.operation = .storeDocument)) :
    ∃ added, v' title = v title ++ added ∧ added.length = gains c title := by
  by_cases hname : c.targetId = title
  · obtain ⟨haction, hop⟩ := hnamed hname
    subst hname
    have hone : gains c c.targetId = 1 := if_pos (.inl rfl)
    cases h with
    | makesItem => exact ⟨_, create_self, hone.symm⟩
    | makesDocument => exact ⟨_, create_self, hone.symm⟩
    | editsItem _ hedit => exact absurd haction hedit
    | editsDocument _ hedit => exact absurd haction hedit
    | renames hrename => simp [hrename] at hop
    | deletes hdelete => simp [hdelete] at hop
  · rcases h.elsewhere (Ne.symm hname) with ⟨hother, heq⟩ | ⟨hop, hdst, entry, -, heq⟩
    · refine ⟨[], by rw [heq, List.append_nil], ?_⟩
      exact (if_neg (not_or.mpr ⟨hname, hother⟩)).symm
    · exact ⟨[entry], heq, (if_pos (.inr ⟨hop, hdst⟩)).symm⟩

end

end Opca.Core.CommandQueue

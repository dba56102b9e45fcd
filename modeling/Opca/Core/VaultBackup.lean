/-
  Core/VaultBackup.lean --- a vault's backup and its restore: what is read of every item by
  its title, and what an empty vault becomes of it (`services/vault.rs`).

  A read may fail.  The text of an item, and of an assignment, is written and read by code
  that is taken from outside.
-/
import Mathlib.Data.List.Sort
import Opca.Core.BrokerCerts
import Opca.Foundation.Escaped
import Opca.Foundation.Fallible
import Opca.Foundation.Reread

set_option autoImplicit false

namespace Opca.Core.VaultBackup

open Opca.Foundation
open Escaped (scan cut plain mem_plain map_fst_plain cut_append cut_of_notMem cut_spec
  scan_eq_some scan_plain)

/-! ## A vault -/

/-- The titles that a vault is laid out by (`constants.rs`). -/
structure OpConf where
  caTitle : String
  caDatabaseTitle : String
  caDatabaseFilename : String
  crlTitle : String
  crlFilename : String
  openvpnTitle : String
  lockTitle : String

def defaultOpConf : OpConf where
  caTitle := "CA"
  caDatabaseTitle := "CA_Database"
  caDatabaseFilename := "ca-db-export.sql"
  crlTitle := "CRL"
  crlFilename := "crl.pem"
  openvpnTitle := "OpenVPN"
  lockTitle := "CA_Lock"

/-- A field of an item; what is missing, or no text, is none. -/
structure Field where
  id : Option String
  label : Option String
  value : Option String
  fieldType : Option String
  sectionLabel : Option String
  deriving DecidableEq, Repr

/-- A Secure Note. -/
structure Note where
  title : String
  fields : List Field
  deriving DecidableEq, Repr

structure Document where
  title : String
  fileName : String
  content : String
  deriving DecidableEq, Repr

structure Vault where
  notes : List Note
  documents : List Document
  deriving DecidableEq, Repr

/-- A field as a write gives it. -/
structure Assignment where
  sectionLabel : Option String
  label : String
  fieldType : Option String
  value : String
  deriving DecidableEq, Repr

/-- The field that a new item has for it. -/
def Assignment.toField (a : Assignment) : Field :=
  ⟨none, some a.label, some a.value, a.fieldType, a.sectionLabel⟩

/-! ## What is taken from outside -/

structure Outside where
  /-- An item as `op item get --format=json` prints it. -/
  itemJson : Note → String
  /-- `serde_json::from_str`, and the array of `fields` where there is one. -/
  fromStr : String → Except String (Option (List Field))
  /-- `Assignment::parse`. -/
  parse : String → Except OpcaError Assignment

/-- What the reads of a backup answer. -/
structure Reads where
  item : String → Except OpcaError String
  document : String → Except OpcaError String
  listed : Except OpcaError (List String)

/-- What the writes of a restore answer. -/
structure Writes where
  itemExists : Except OpcaError Unit
  created : (title : String) → Except OpcaError Unit

/-! ## The payload -/

structure BackupMetadata where
  opcaVersion : String
  backupDate : String
  vaultName : String
  itemCount : Nat
  deriving DecidableEq, Repr

structure BackupItem where
  itemType : String
  title : String
  data : String
  deriving DecidableEq, Repr

structure BackupPayload where
  metadata : BackupMetadata
  items : List BackupItem
  deriving DecidableEq, Repr

def itemTypeCa : String := "ca"
def itemTypeCaDatabase : String := "ca_database"
def itemTypeCrl : String := "crl"
def itemTypeCertificate : String := "certificate"
def itemTypeExternalCert : String := "external_certificate"
def itemTypeCsr : String := "csr"
def itemTypeOpenvpn : String := "openvpn"

section Functions

variable (conf : OpConf) (outside : Outside)

def BackupPayload.restorableItems (payload : BackupPayload) : List BackupItem :=
  payload.items.filter (·.title ≠ conf.lockTitle)

/-- An item's type, by its title and the labels of its fields. -/
def classifyItem (title json : String) : String :=
  if "EXT_".toList.isPrefixOf title.toList then itemTypeExternalCert
  else match outside.fromStr json with
    | .error _ => itemTypeCertificate
    | .ok fields =>
      let labels := (fields.getD []).filterMap Field.label
      if "certificate" ∈ labels then itemTypeCertificate
      else if "certificate_signing_request" ∈ labels then itemTypeCsr
      else itemTypeCertificate

/-- The order in which items are restored. -/
def restoreOrder (itemType : String) : Nat :=
  if itemType = itemTypeCa then 0
  else if itemType = itemTypeCaDatabase then 1
  else if itemType = itemTypeCrl then 2
  else if itemType = itemTypeOpenvpn then 3
  else if itemType = itemTypeCertificate then 4
  else if itemType = itemTypeExternalCert then 5
  else if itemType = itemTypeCsr then 6
  else 99

/-- 1Password's own fields. -/
def skipped : List String := ["notesPlain", "password", "username"]

/-- Whether a text holds another. -/
def holds (text part : String) : Bool :=
  text.toList.tails.any part.toList.isPrefixOf

/-- A field as `label=value`, where it is not left out. -/
def attributeOf (field : Field) : Option String :=
  let label := field.label.getD ""
  let value := field.value.getD ""
  if label = "" ∨ label ∈ skipped then none
  else if field.id.getD "" ∈ skipped then none
  else if value = "" then none
  else
    let sectionLabel := field.sectionLabel.getD ""
    let qualified := if sectionLabel = "" then label else sectionLabel ++ "." ++ label
    let qualified :=
      if field.fieldType.getD "" = "STRING" ∧ !holds qualified "[text]" then
        qualified ++ "[text]"
      else qualified
    some (qualified ++ "=" ++ value)

def extractAttributes (fields : Option (List Field)) : List String :=
  (fields.getD []).filterMap attributeOf

/-! ## A backup -/

def getItemJson (reads : Reads) (title : String) : Option String :=
  (reads.item title).toOption

def getDocumentContent (reads : Reads) (title : String) : Option String :=
  (reads.document title).toOption

/-- The notes that are read one by one. -/
def remaining (titles : List String) : List String :=
  titles.filter (· ∉ [conf.caTitle, conf.openvpnTitle, conf.lockTitle])

def itemOf (reads : Reads) (title : String) : Option BackupItem :=
  (getItemJson reads title).map fun data => ⟨classifyItem outside title data, title, data⟩

/-- The items of a backup, the CA's own read before. -/
def backupItems (reads : Reads) (ca : String) (titles : List String) : List BackupItem :=
  let database := (getDocumentContent reads conf.caDatabaseTitle).map
    (BackupItem.mk itemTypeCaDatabase conf.caDatabaseTitle)
  let crl := (getDocumentContent reads conf.crlTitle).map
    (BackupItem.mk itemTypeCrl conf.crlTitle)
  let openvpn := (getItemJson reads conf.openvpnTitle).map
    (BackupItem.mk itemTypeOpenvpn conf.openvpnTitle)
  ⟨itemTypeCa, conf.caTitle, ca⟩ :: (database.toList ++ (crl.toList ++ (openvpn.toList ++
    (remaining conf titles).filterMap (itemOf outside reads))))

def createBackup (reads : Reads) (version date vaultName : String) :
    Except OpcaError BackupPayload := do
  let ca ← (getItemJson reads conf.caTitle).elim
    (.error (.other "CA item not found — nothing to back up.")) .ok
  let allNotes ← reads.listed
  let items := backupItems conf outside reads ca allNotes
  .ok ⟨⟨version, date, vaultName, items.length⟩, items⟩

/-! ## A restore -/

def restoreDocument (title content : String) : Document :=
  let fileName :=
    if title = conf.caDatabaseTitle then conf.caDatabaseFilename
    else if title = conf.crlTitle then conf.crlFilename
    else title
  ⟨title, fileName, content⟩

def restoreSecureNote (title json : String) : Except OpcaError Note := do
  let fields ← (outside.fromStr json).mapError fun e =>
    .other s!"Invalid JSON for item {title.quote}: {e}"
  let assignments ← (extractAttributes fields).mapM outside.parse
  .ok ⟨title, assignments.map Assignment.toField⟩

def isDocument (item : BackupItem) : Bool :=
  item.itemType = itemTypeCaDatabase || item.itemType = itemTypeCrl

/-- How many items of each type were restored. -/
abbrev RestoreCounts := String → Nat

/-- The vault with the item re-created. -/
def recreate (vault : Vault) (item : BackupItem) : Except OpcaError Vault :=
  if isDocument item then
    .ok { vault with
      documents := vault.documents ++ [restoreDocument conf item.title item.data] }
  else
    (restoreSecureNote outside item.title item.data).map fun note =>
      { vault with notes := vault.notes ++ [note] }

def restoreItem (writes : Writes) (vault : Vault) (item : BackupItem) :
    Except OpcaError Vault := do
  let vault ← recreate conf outside vault item
  writes.created item.title
  .ok vault

def restoreItems (writes : Writes) : List BackupItem → Vault × RestoreCounts →
    Except OpcaError (Vault × RestoreCounts)
  | [], restored => .ok restored
  | item :: items, (vault, counts) => do
    let vault ← restoreItem conf outside writes vault item
    restoreItems writes items
      (vault, fun itemType => counts itemType + if itemType = item.itemType then 1 else 0)

/-- The items sorted by their order, each kind as it stood. -/
def inOrder (items : List BackupItem) : List BackupItem :=
  items.insertionSort fun x y => restoreOrder x.itemType ≤ restoreOrder y.itemType

def restoreBackup (writes : Writes) (payload : BackupPayload) (vault : Vault) :
    Except OpcaError (Vault × RestoreCounts) := do
  writes.itemExists
  if vault.notes.any (·.title = conf.caTitle) then
    .error (.other "Target vault already contains a CA. Restore requires an empty vault.")
  else
    restoreItems conf outside writes (inOrder (payload.restorableItems conf)) (vault, fun _ => 0)

end Functions

/-! ## What a vault says -/

/-- A field of which a vault says something: not empty, and none of 1Password's own. -/
def Field.shown (field : Field) : Bool :=
  field.value.getD "" ≠ "" && field.id.getD "" ∉ skipped

/-- A field's section, label and value. -/
def Field.entry (field : Field) : String × String × String :=
  (field.sectionLabel.getD "", field.label.getD "", field.value.getD "")

def contents (fields : List Field) : List (String × String × String) :=
  (fields.filter Field.shown).map Field.entry

/-- The restored vault says what the vault did, but for the lock. -/
structure Restores (conf : OpConf) (vault restored : Vault) : Prop where
  documents : (restored.documents.map fun d => (d.title, d.content)).Perm
    ((vault.documents.filter fun d => d.title ∈ [conf.caDatabaseTitle, conf.crlTitle]).map
      fun d => (d.title, d.content))
  notes : (restored.notes.map fun note => (note.title, contents note.fields)).Perm
    ((vault.notes.filter fun note => note.title ≠ conf.lockTitle).map
      fun note => (note.title, contents note.fields))

/-! ## What the reads rest on -/

/-- A read that succeeds gives the one item of its title, the listing gives every note, and
an item that is printed is read back. -/
structure Reads.Of (outside : Outside) (vault : Vault) (reads : Reads) : Prop where
  item : ∀ {title text}, reads.item title = .ok text → ∃ note,
    vault.notes.filter (fun note => note.title = title) = [note] ∧ text = outside.itemJson note
  document : ∀ {title text}, reads.document title = .ok text → ∃ d,
    vault.documents.filter (fun d => d.title = title) = [d] ∧ text = d.content
  listed : ∀ {titles}, reads.listed = .ok titles → titles.Perm (vault.notes.map Note.title)
  json : ∀ note ∈ vault.notes, outside.fromStr (outside.itemJson note) = .ok (some note.fields)

/-- A field that is written, and whose assignment is read as itself. -/
def Field.Kept (outside : Outside) (field : Field) : Prop :=
  ∃ token a, attributeOf field = some token ∧ outside.parse token = .ok a ∧
    a.toField.entry = field.entry

/-- Everything that a vault says is read, and is read back as it is written. -/
structure Restorable (conf : OpConf) (outside : Outside) (reads : Reads) (vault : Vault) :
    Prop where
  documents : ∀ d ∈ vault.documents, d.title ∈ [conf.caDatabaseTitle, conf.crlTitle] →
    (reads.document d.title).isOk = true
  notes : ∀ note ∈ vault.notes, note.title ≠ conf.lockTitle →
    (reads.item note.title).isOk = true
  fields : ∀ note ∈ vault.notes, note.title ≠ conf.lockTitle → ∀ field ∈ note.fields,
    field.shown = true → field.Kept outside

/-! ## The fields of one note -/

variable {conf : OpConf} {outside : Outside} {reads : Reads} {vault : Vault}

theorem attributeOf_shown {field : Field} {token : String} (h : attributeOf field = some token) :
    field.shown = true := by
  unfold attributeOf at h
  dsimp only at h
  split at h
  · cases h
  split at h
  · cases h
  split at h
  · cases h
  next hid hvalue =>
    unfold Field.shown
    rw [Bool.and_eq_true]
    exact ⟨decide_eq_true hvalue, decide_eq_true hid⟩

theorem contents_cons (field : Field) (fields : List Field) :
    contents (field :: fields) =
      if field.shown then field.entry :: contents fields else contents fields := by
  unfold contents
  rw [List.filter_cons]
  split <;> rfl

theorem Field.Kept.shown_toField {field : Field} {a : Assignment}
    (h : a.toField.entry = field.entry) (hshown : field.shown = true) :
    a.toField.shown = true := by
  have hvalue : a.value = field.value.getD "" := congrArg (fun e => e.2.2) h
  unfold Field.shown at hshown ⊢
  rw [Bool.and_eq_true] at hshown ⊢
  refine ⟨?_, rfl⟩
  change decide (a.value ≠ "") = true
  rw [hvalue]
  exact hshown.1

/-- No more is written than there is. -/
theorem length_contents_le : ∀ {fields : List Field} {assignments : List Assignment},
    (fields.filterMap attributeOf).mapM outside.parse = .ok assignments →
      (contents (assignments.map Assignment.toField)).length ≤ (contents fields).length
  | [], assignments, h => by
    cases h
    exact le_refl _
  | field :: fields, assignments, h => by
    rw [List.filterMap_cons] at h
    split at h
    next hnone =>
      refine (length_contents_le h).trans ?_
      rw [contents_cons]
      split
      · exact Nat.le_succ _
      · exact le_refl _
    next token hsome =>
      rw [List.mapM_cons] at h
      obtain ⟨a, -, h⟩ := bind_eq_ok.mp h
      obtain ⟨rest, hrest, h⟩ := bind_eq_ok.mp h
      cases h
      have hle := length_contents_le hrest
      rw [List.map_cons, contents_cons, contents_cons, if_pos (attributeOf_shown hsome)]
      split
      · exact Nat.succ_le_succ hle
      · exact hle.trans (Nat.le_succ _)

/-- A note's fields come back just when each of them is kept. -/
theorem contents_eq_iff : ∀ {fields : List Field} {assignments : List Assignment},
    (fields.filterMap attributeOf).mapM outside.parse = .ok assignments →
      (contents (assignments.map Assignment.toField) = contents fields ↔
        ∀ field ∈ fields, field.shown = true → field.Kept outside)
  | [], assignments, h => by
    cases h
    exact ⟨fun _ => nofun, fun _ => rfl⟩
  | field :: fields, assignments, h => by
    rw [List.filterMap_cons] at h
    rw [List.forall_mem_cons]
    split at h
    next hnone =>
      rw [contents_cons]
      by_cases hshown : field.shown = true
      · rw [if_pos hshown]
        constructor
        · intro heq
          have hle := length_contents_le h
          rw [heq, List.length_cons] at hle
          exact absurd hle (Nat.not_succ_le_self _)
        · rintro ⟨hkept, -⟩
          obtain ⟨token, -, hsome, -⟩ := hkept hshown
          rw [hnone] at hsome
          cases hsome
      · rw [if_neg hshown, contents_eq_iff h]
        exact ⟨fun hall => ⟨fun hyes => absurd hyes hshown, hall⟩, fun hall => hall.2⟩
    next token hsome =>
      rw [List.mapM_cons] at h
      obtain ⟨a, hparse, h⟩ := bind_eq_ok.mp h
      obtain ⟨rest, hrest, h⟩ := bind_eq_ok.mp h
      cases h
      have hshown := attributeOf_shown hsome
      have hkept : field.Kept outside ↔ a.toField.entry = field.entry := by
        constructor
        · rintro ⟨token', a', hsome', hparse', hentry⟩
          rw [hsome] at hsome'
          cases hsome'
          rw [hparse] at hparse'
          cases hparse'
          exact hentry
        · exact fun hentry => ⟨token, a, hsome, hparse, hentry⟩
      rw [List.map_cons, contents_cons, contents_cons, if_pos hshown, hkept]
      by_cases hwritten : a.toField.shown = true
      · rw [if_pos hwritten, List.cons.injEq, contents_eq_iff hrest]
        exact ⟨fun ⟨hentry, hall⟩ => ⟨fun _ => hentry, hall⟩,
          fun ⟨hentry, hall⟩ => ⟨hentry hshown, hall⟩⟩
      · rw [if_neg hwritten]
        constructor
        · intro heq
          have hle := length_contents_le hrest
          rw [heq, List.length_cons] at hle
          exact absurd hle (Nat.not_succ_le_self _)
        · rintro ⟨hentry, -⟩
          exact absurd (Field.Kept.shown_toField (hentry hshown) hshown) hwritten

/-! ## What a restore writes -/

def documentOf (conf : OpConf) (item : BackupItem) : Option Document :=
  if isDocument item then some (restoreDocument conf item.title item.data) else none

def noteOf (outside : Outside) (item : BackupItem) : Option Note :=
  if isDocument item then none else (restoreSecureNote outside item.title item.data).toOption

theorem restoreItem_ok {writes : Writes} {item : BackupItem} {restored : Vault}
    (h : restoreItem conf outside writes vault item = .ok restored) :
    restored.documents = vault.documents ++ (documentOf conf item).toList ∧
      restored.notes = vault.notes ++ (noteOf outside item).toList := by
  obtain ⟨written, hwritten, h⟩ := bind_eq_ok.mp h
  obtain ⟨-, -, h⟩ := bind_eq_ok.mp h
  cases h
  unfold recreate at hwritten
  unfold documentOf noteOf
  split at hwritten
  next hdocument =>
    cases hwritten
    rw [if_pos hdocument, if_pos hdocument]
    exact ⟨rfl, (List.append_nil _).symm⟩
  next hnote =>
    obtain ⟨note, hrestore, rfl⟩ := map_eq_ok.mp hwritten
    rw [if_neg hnote, if_neg hnote, hrestore]
    exact ⟨(List.append_nil _).symm, rfl⟩

theorem restoreItems_ok {writes : Writes} : ∀ {items : List BackupItem} {vault : Vault}
    {counts : RestoreCounts} {restored : Vault × RestoreCounts},
    restoreItems conf outside writes items (vault, counts) = .ok restored →
      restored.1.documents = vault.documents ++ items.filterMap (documentOf conf) ∧
        restored.1.notes = vault.notes ++ items.filterMap (noteOf outside)
  | [], vault, counts, restored, h => by
    cases h
    exact ⟨(List.append_nil _).symm, (List.append_nil _).symm⟩
  | item :: items, vault, counts, restored, h => by
    obtain ⟨next, hnext, h⟩ := bind_eq_ok.mp h
    obtain ⟨hdocuments, hnotes⟩ := restoreItem_ok hnext
    obtain ⟨hdocuments', hnotes'⟩ := restoreItems_ok h
    rw [hdocuments', hnotes', hdocuments, hnotes, List.append_assoc, List.append_assoc]
    constructor
    · rw [List.filterMap_cons]
      cases documentOf conf item <;> rfl
    · rw [List.filterMap_cons]
      cases noteOf outside item <;> rfl

/-- Every note that is restored could be written. -/
theorem isOk_of_restoreItems {writes : Writes} : ∀ {items : List BackupItem} {vault : Vault}
    {counts : RestoreCounts} {restored : Vault × RestoreCounts},
    restoreItems conf outside writes items (vault, counts) = .ok restored →
      ∀ item ∈ items, isDocument item = false →
        (restoreSecureNote outside item.title item.data).isOk = true
  | [], _, _, _, _, item, hitem, _ => by cases hitem
  | first :: items, vault, counts, restored, h, item, hitem, hnote => by
    obtain ⟨next, hnext, h⟩ := bind_eq_ok.mp h
    rcases List.mem_cons.mp hitem with rfl | hitem
    · obtain ⟨written, hwritten, -⟩ := bind_eq_ok.mp hnext
      unfold recreate at hwritten
      rw [if_neg (by rw [hnote]; exact Bool.false_ne_true)] at hwritten
      obtain ⟨note, hrestore, -⟩ := map_eq_ok.mp hwritten
      rw [hrestore]
      rfl
    · exact isOk_of_restoreItems h item hitem hnote

/-- What a restore writes is what the items stand for, in some order. -/
theorem restoreBackup_ok {writes : Writes} {payload : BackupPayload} {restored : Vault}
    {counts : RestoreCounts}
    (h : restoreBackup conf outside writes payload ⟨[], []⟩ = .ok (restored, counts)) :
    restored.documents.Perm ((payload.restorableItems conf).filterMap (documentOf conf)) ∧
      restored.notes.Perm ((payload.restorableItems conf).filterMap (noteOf outside)) ∧
      ∀ item ∈ payload.restorableItems conf, isDocument item = false →
        (restoreSecureNote outside item.title item.data).isOk = true := by
  obtain ⟨-, -, h⟩ := bind_eq_ok.mp h
  split at h
  · cases h
  obtain ⟨hdocuments, hnotes⟩ := restoreItems_ok h
  have hsorted : (inOrder (payload.restorableItems conf)).Perm (payload.restorableItems conf) :=
    List.perm_insertionSort _ _
  rw [hdocuments, hnotes]
  exact ⟨hsorted.filterMap _, hsorted.filterMap _, fun item hitem =>
    isOk_of_restoreItems h item (hsorted.symm.subset hitem)⟩

/-! ## What a backup reads -/

/-- The document of a title, as a restore makes it of what is read. -/
def rereadDocument (conf : OpConf) (reads : Reads) (title : String) : Option Document :=
  (getDocumentContent reads title).map (restoreDocument conf title)

def rereadNote (outside : Outside) (reads : Reads) (title : String) : Option Note :=
  (getItemJson reads title).bind fun data => (restoreSecureNote outside title data).toOption

/-- The titles that are read as notes. -/
def asked (conf : OpConf) (titles : List String) : List String :=
  conf.caTitle :: conf.openvpnTitle :: remaining conf titles

theorem isDocument_classifyItem (title json : String) :
    isDocument ⟨classifyItem outside title json, title, json⟩ = false := by
  unfold classifyItem
  split
  · rfl
  split
  · rfl
  dsimp only
  split
  · rfl
  split <;> rfl

theorem itemOf_eq_some {title : String} {item : BackupItem}
    (h : itemOf outside reads title = some item) : item.title = title ∧
      (∀ conf, documentOf conf item = none) ∧
      noteOf outside item = rereadNote outside reads title := by
  obtain ⟨data, hdata, rfl⟩ := Option.map_eq_some_iff.mp h
  unfold documentOf noteOf rereadNote
  rw [isDocument_classifyItem, hdata]
  exact ⟨rfl, fun _ => rfl, rfl⟩

theorem filterMap_noteOf_others (titles : List String) :
    (titles.filterMap (itemOf outside reads)).filterMap (noteOf outside) =
      titles.filterMap (rereadNote outside reads) := by
  rw [List.filterMap_filterMap]
  refine List.filterMap_congr fun title _ => ?_
  cases hitem : itemOf outside reads title with
  | none =>
    unfold rereadNote
    rw [Option.map_eq_none_iff.mp hitem]
    rfl
  | some item => exact (itemOf_eq_some hitem).2.2

theorem filterMap_documentOf_others (titles : List String) :
    (titles.filterMap (itemOf outside reads)).filterMap (documentOf conf) = [] := by
  rw [List.filterMap_filterMap, List.filterMap_eq_nil_iff]
  intro title _
  cases hitem : itemOf outside reads title with
  | none => rfl
  | some item => exact (itemOf_eq_some hitem).2.1 conf

/-- No item of a backup is the lock. -/
theorem ne_lockTitle_of_mem {ca : String} {titles : List String} {item : BackupItem}
    (hlock : conf.lockTitle ∉
      [conf.caTitle, conf.caDatabaseTitle, conf.crlTitle, conf.openvpnTitle])
    (hitem : item ∈ backupItems conf outside reads ca titles) :
    item.title ≠ conf.lockTitle := by
  intro hlocked
  simp only [List.mem_cons, List.not_mem_nil, or_false, not_or] at hlock
  obtain ⟨hca, hdatabase, hcrl, hopenvpn⟩ := hlock
  simp only [backupItems, List.mem_cons, List.mem_append, Option.mem_toList,
    Option.map_eq_some_iff, List.mem_filterMap] at hitem
  obtain rfl | ⟨_, -, rfl⟩ | ⟨_, -, rfl⟩ | ⟨_, -, rfl⟩ | ⟨title, hmem, hread⟩ := hitem
  · exact hca hlocked.symm
  · exact hdatabase hlocked.symm
  · exact hcrl hlocked.symm
  · exact hopenvpn hlocked.symm
  · have hunknown := of_decide_eq_true (List.mem_filter.mp hmem).2
    rw [← (itemOf_eq_some hread).1, hlocked] at hunknown
    exact hunknown (List.mem_cons_of_mem _ (List.mem_cons_of_mem _ (List.mem_singleton_self _)))

/-- The items of a backup stand for what was read of the titles asked for. -/
theorem createBackup_ok {version date vaultName : String} {payload : BackupPayload}
    (h : createBackup conf outside reads version date vaultName = .ok payload)
    (hlock : conf.lockTitle ∉
      [conf.caTitle, conf.caDatabaseTitle, conf.crlTitle, conf.openvpnTitle]) :
    ∃ titles, reads.listed = .ok titles ∧
      (payload.restorableItems conf).filterMap (documentOf conf) =
        [conf.caDatabaseTitle, conf.crlTitle].filterMap (rereadDocument conf reads) ∧
      (payload.restorableItems conf).filterMap (noteOf outside) =
        (asked conf titles).filterMap (rereadNote outside reads) ∧
      ∀ title ∈ asked conf titles, ∀ data, reads.item title = .ok data →
        ∃ item ∈ payload.restorableItems conf, isDocument item = false ∧
          item.title = title ∧ item.data = data := by
  obtain ⟨ca, hca, h⟩ := bind_eq_ok.mp h
  obtain ⟨titles, htitles, h⟩ := bind_eq_ok.mp h
  cases h
  have hitems : BackupPayload.restorableItems conf ⟨⟨version, date, vaultName,
      (backupItems conf outside reads ca titles).length⟩,
      backupItems conf outside reads ca titles⟩ = backupItems conf outside reads ca titles :=
    List.filter_eq_self.mpr fun item hitem => decide_eq_true (ne_lockTitle_of_mem hlock hitem)
  refine ⟨titles, htitles, ?_, ?_, ?_⟩
  · rw [hitems]
    unfold backupItems
    simp only [List.filterMap_cons, List.filterMap_append, filterMap_documentOf_others]
    unfold rereadDocument
    cases getDocumentContent reads conf.caDatabaseTitle <;>
      cases getDocumentContent reads conf.crlTitle <;>
        cases getItemJson reads conf.openvpnTitle <;> rfl
  · rw [hitems]
    unfold backupItems asked
    have hread : getItemJson reads conf.caTitle = some ca := elim_eq_ok hca
    have hca : noteOf outside ⟨itemTypeCa, conf.caTitle, ca⟩ =
        rereadNote outside reads conf.caTitle := by
      unfold rereadNote
      rw [hread]
      rfl
    have hopenvpn : ((getItemJson reads conf.openvpnTitle).map
          (BackupItem.mk itemTypeOpenvpn conf.openvpnTitle)).toList.filterMap (noteOf outside) =
        (rereadNote outside reads conf.openvpnTitle).toList := by
      unfold rereadNote
      cases getItemJson reads conf.openvpnTitle with
      | none => rfl
      | some data =>
        change [_].filterMap _ = (restoreSecureNote outside conf.openvpnTitle data).toOption.toList
        have hnote : noteOf outside ⟨itemTypeOpenvpn, conf.openvpnTitle, data⟩ =
            (restoreSecureNote outside conf.openvpnTitle data).toOption := rfl
        rw [List.filterMap_cons, hnote]
        cases (restoreSecureNote outside conf.openvpnTitle data).toOption <;> rfl
    have hdocument (itemType title : String) (content : Option String)
        (h : ∀ data, isDocument ⟨itemType, title, data⟩ = true) :
        (content.map (BackupItem.mk itemType title)).toList.filterMap (noteOf outside) = [] := by
      cases content with
      | none => rfl
      | some content =>
        change [_].filterMap _ = _
        rw [List.filterMap_cons]
        unfold noteOf
        rw [if_pos (h content)]
        rfl
    rw [List.filterMap_cons, hca, List.filterMap_append, hdocument _ _ _ (fun _ => rfl),
      List.filterMap_append, hdocument _ _ _ (fun _ => rfl), List.filterMap_append, hopenvpn,
      filterMap_noteOf_others, List.filterMap_cons, List.filterMap_cons]
    cases rereadNote outside reads conf.caTitle <;>
      cases rereadNote outside reads conf.openvpnTitle <;> rfl
  · intro title hasked data hdata
    rw [hitems]
    have hread : getItemJson reads title = some data := by
      unfold getItemJson
      rw [hdata]
      rfl
    rcases List.mem_cons.mp hasked with rfl | hasked
    · rw [elim_eq_ok hca] at hread
      cases hread
      exact ⟨_, List.mem_cons_self, rfl, rfl, rfl⟩
    rcases List.mem_cons.mp hasked with rfl | hasked
    · refine ⟨⟨itemTypeOpenvpn, conf.openvpnTitle, data⟩, ?_, rfl, rfl, rfl⟩
      simp [backupItems, hread]
    · refine ⟨⟨classifyItem outside title data, title, data⟩, ?_,
        isDocument_classifyItem title data, rfl, rfl⟩
      have hitem : itemOf outside reads title =
          some ⟨classifyItem outside title data, title, data⟩ := by
        unfold itemOf
        rw [hread]
        rfl
      unfold backupItems
      simp only [List.mem_cons, List.mem_append]
      exact .inr (.inr (.inr (.inr (List.mem_filterMap.mpr ⟨title, hasked, hitem⟩))))

/-! ## What is asked for -/

/-- The titles that a vault is laid out by are told apart. -/
structure OpConf.Apart (conf : OpConf) : Prop where
  documents : conf.caDatabaseTitle ≠ conf.crlTitle
  notes : conf.caTitle ≠ conf.openvpnTitle
  lock : conf.lockTitle ∉ [conf.caTitle, conf.caDatabaseTitle, conf.crlTitle, conf.openvpnTitle]

theorem defaultOpConf_apart : defaultOpConf.Apart :=
  ⟨by decide, by decide, by decide⟩

theorem count_remaining {titles : List String} {title : String} :
    (remaining conf titles).count title =
      if title ∈ [conf.caTitle, conf.openvpnTitle, conf.lockTitle] then 0
      else titles.count title := by
  unfold remaining
  split
  next hknown =>
    refine List.count_eq_zero_of_not_mem fun hmem => ?_
    exact of_decide_eq_true (List.mem_filter.mp hmem).2 hknown
  next hunknown =>
    have hkept : decide (title ∉ [conf.caTitle, conf.openvpnTitle, conf.lockTitle]) = true :=
      decide_eq_true hunknown
    exact @List.count_filter _ _ _
      (fun title => decide (title ∉ [conf.caTitle, conf.openvpnTitle, conf.lockTitle])) _ _ hkept

/-- A title that is listed once, and is not the lock's, is asked for once. -/
theorem count_asked (hconf : conf.Apart) {titles : List String} {title : String}
    (hlisted : titles.count title = 1) (hlock : title ≠ conf.lockTitle) :
    (asked conf titles).count title = 1 := by
  unfold asked
  rw [List.count_cons, List.count_cons, count_remaining, hlisted]
  by_cases hca : conf.caTitle = title
  · subst hca
    simp [hconf.notes.symm]
  · by_cases hopenvpn : conf.openvpnTitle = title
    · subst hopenvpn
      simp [hconf.notes]
    · simp [hca, hopenvpn, Ne.symm hca, Ne.symm hopenvpn, hlock]

theorem mem_asked {titles : List String} {title : String} (hlisted : title ∈ titles)
    (hlock : title ≠ conf.lockTitle) : title ∈ asked conf titles := by
  unfold asked remaining
  by_cases hknown : title ∈ [conf.caTitle, conf.openvpnTitle, conf.lockTitle]
  · rcases List.mem_cons.mp hknown with rfl | hknown
    · exact List.mem_cons_self
    rcases List.mem_cons.mp hknown with rfl | hknown
    · exact List.mem_cons_of_mem _ List.mem_cons_self
    · exact absurd (List.mem_singleton.mp hknown) hlock
  · exact List.mem_cons_of_mem _ (List.mem_cons_of_mem _
      (List.mem_filter.mpr ⟨hlisted, decide_eq_true hknown⟩))

theorem ne_lockTitle_of_asked (hconf : conf.Apart) {titles : List String} {title : String}
    (h : title ∈ asked conf titles) : title ≠ conf.lockTitle := by
  rintro rfl
  have hapart := hconf.lock
  simp only [List.mem_cons, List.not_mem_nil, or_false, not_or] at hapart
  rcases List.mem_cons.mp h with hca | h
  · exact hapart.1 hca
  rcases List.mem_cons.mp h with hopenvpn | h
  · exact hapart.2.2.2 hopenvpn
  · exact of_decide_eq_true (List.mem_filter.mp h).2
      (List.mem_cons_of_mem _ (List.mem_cons_of_mem _ (List.mem_singleton_self _)))

/-! ## One item -/

/-- A note comes back as it says just when it is read and its fields are kept. -/
theorem rereadNote_entry_iff (hreads : reads.Of outside vault)
    {note : Note} (hnote : note ∈ vault.notes)
    (hrestored : ∀ data, reads.item note.title = .ok data →
      (restoreSecureNote outside note.title data).isOk = true) :
    (rereadNote outside reads note.title).map (fun note => (note.title, contents note.fields)) =
        some (note.title, contents note.fields) ↔
      (reads.item note.title).isOk = true ∧
        ∀ field ∈ note.fields, field.shown = true → field.Kept outside := by
  cases hread : reads.item note.title with
  | error e =>
    unfold rereadNote getItemJson
    rw [hread]
    exact ⟨nofun, nofun⟩
  | ok data =>
    obtain ⟨other, hother, rfl⟩ := hreads.item hread
    obtain rfl : note = other := by
      have hmem : note ∈ vault.notes.filter (fun x => x.title = note.title) :=
        List.mem_filter.mpr ⟨hnote, decide_eq_true rfl⟩
      rw [hother] at hmem
      exact List.mem_singleton.mp hmem
    obtain ⟨restored, hok⟩ := exists_of_isOk (hrestored _ hread)
    obtain ⟨fields, hfields, hassigned⟩ := bind_eq_ok.mp hok
    obtain ⟨assignments, hassignments, hmade⟩ := bind_eq_ok.mp hassigned
    rw [mapError_eq_ok, hreads.json note hnote] at hfields
    cases hfields
    have hreread : rereadNote outside reads note.title = some restored := by
      unfold rereadNote getItemJson
      rw [hread]
      change (restoreSecureNote outside note.title (outside.itemJson note)).toOption = _
      rw [hok]
      rfl
    cases hmade
    rw [hreread]
    rw [Option.map_some, Option.some.injEq, Prod.mk.injEq]
    exact ⟨fun h => ⟨rfl, (contents_eq_iff hassignments).mp h.2⟩,
      fun h => ⟨rfl, (contents_eq_iff hassignments).mpr h.2⟩⟩

/-! ## The whole vault -/

variable {writes : Writes} {payload : BackupPayload} {restored : Vault}

/-- The documents come back just when they are read. -/
theorem documents_perm_iff (hconf : conf.Apart) (hreads : reads.Of outside vault) :
    (([conf.caDatabaseTitle, conf.crlTitle].filterMap (rereadDocument conf reads)).map
        fun d => (d.title, d.content)).Perm
      ((vault.documents.filter fun d => d.title ∈ [conf.caDatabaseTitle, conf.crlTitle]).map
        fun d => (d.title, d.content)) ↔
      ∀ d ∈ vault.documents, d.title ∈ [conf.caDatabaseTitle, conf.crlTitle] →
        (reads.document d.title).isOk = true := by
  have hread (title : String) : (rereadDocument conf reads title).map
      (fun d => (d.title, d.content)) =
        (reads.document title).toOption.map fun content => (title, content) := by
    unfold rereadDocument getDocumentContent
    rw [Option.map_map]
    rfl
  have hone {d : Document} {title : String} {xs : List Document}
      (h : xs.filter (fun d => d.title = title) = [d]) : d ∈ xs ∧ d.title = title := by
    have hmem : d ∈ xs.filter (fun d => d.title = title) := h ▸ List.mem_singleton_self d
    exact ⟨(List.mem_filter.mp hmem).1, of_decide_eq_true (List.mem_filter.mp hmem).2⟩
  rw [List.map_filterMap]
  refine (Reread.perm_iff_read ?_ ?_ ?_ ?_).trans ?_
  · intro d hd
    exact of_decide_eq_true (List.mem_filter.mp hd).2
  · intro title htitle hsome
    rw [hread, Option.isSome_map] at hsome
    cases hdocument : reads.document title with
    | error e =>
      rw [hdocument] at hsome
      cases hsome
    | ok content =>
      obtain ⟨d, hd, -⟩ := hreads.document hdocument
      refine ⟨d, ?_⟩
      rw [Reread.filter_title_of_kept fun x _ hx => decide_eq_true (hx ▸ htitle)]
      exact hd
  · intro title d hd
    obtain ⟨hmem, rfl⟩ := hone hd
    have htitle := of_decide_eq_true (List.mem_filter.mp hmem).2
    rcases List.mem_cons.mp htitle with heq | htitle
    · rw [heq, List.count_cons_self, List.count_singleton, if_neg]
      simpa using hconf.documents.symm
    · rw [List.mem_singleton.mp htitle, List.count_cons, List.count_singleton_self, if_neg]
      simpa using hconf.documents
  · intro title entry hentry
    rw [hread] at hentry
    obtain ⟨content, -, rfl⟩ := Option.map_eq_some_iff.mp hentry
    rfl
  · constructor
    · intro h d hd htitle
      have hd' := h d (List.mem_filter.mpr ⟨hd, decide_eq_true htitle⟩)
      rw [hread] at hd'
      obtain ⟨content, hcontent, -⟩ := Option.map_eq_some_iff.mp hd'
      cases hdocument : reads.document d.title with
      | error e =>
        rw [hdocument] at hcontent
        cases hcontent
      | ok _ => rfl
    · intro h d hd
      obtain ⟨hd, htitle⟩ := List.mem_filter.mp hd
      obtain ⟨content, hcontent⟩ := exists_of_isOk (h d hd (of_decide_eq_true htitle))
      obtain ⟨other, hother, rfl⟩ := hreads.document hcontent
      have hmem : d ∈ vault.documents.filter (fun x => x.title = d.title) :=
        List.mem_filter.mpr ⟨hd, decide_eq_true rfl⟩
      rw [hother] at hmem
      rw [hread, hcontent, List.mem_singleton.mp hmem]
      rfl

/-- The notes come back just when they are read and their fields are kept. -/
theorem notes_perm_iff (hconf : conf.Apart) (hreads : reads.Of outside vault)
    {titles : List String} (htitles : reads.listed = .ok titles)
    (hrestored : ∀ title ∈ asked conf titles, ∀ data, reads.item title = .ok data →
      (restoreSecureNote outside title data).isOk = true) :
    (((asked conf titles).filterMap (rereadNote outside reads)).map
        fun note => (note.title, contents note.fields)).Perm
      ((vault.notes.filter fun note => note.title ≠ conf.lockTitle).map
        fun note => (note.title, contents note.fields)) ↔
      ∀ note ∈ vault.notes, note.title ≠ conf.lockTitle →
        (reads.item note.title).isOk = true ∧
          ∀ field ∈ note.fields, field.shown = true → field.Kept outside := by
  have hlisted := hreads.listed htitles
  have hmem {note : Note} (hnote : note ∈ vault.notes) (hlock : note.title ≠ conf.lockTitle) :
      note.title ∈ asked conf titles :=
    mem_asked (hlisted.symm.subset (List.mem_map_of_mem hnote)) hlock
  have hkept {title : String} (hlock : title ≠ conf.lockTitle) :
      ∀ note ∈ vault.notes, note.title = title →
        decide (note.title ≠ conf.lockTitle) = true :=
    fun note _ htitle => decide_eq_true (htitle ▸ hlock)
  rw [List.map_filterMap]
  refine (Reread.perm_iff_read ?_ ?_ ?_ ?_).trans ?_
  · intro note hnote
    obtain ⟨hnote, hlock⟩ := List.mem_filter.mp hnote
    exact hmem hnote (of_decide_eq_true hlock)
  · intro title hasked hsome
    rw [Option.isSome_map] at hsome
    cases hitem : reads.item title with
    | error e =>
      unfold rereadNote getItemJson at hsome
      rw [hitem] at hsome
      cases hsome
    | ok data =>
      obtain ⟨note, hnote, -⟩ := hreads.item hitem
      refine ⟨note, ?_⟩
      rw [Reread.filter_title_of_kept (hkept (ne_lockTitle_of_asked hconf hasked))]
      exact hnote
  · intro title note hnote
    have hfound : note ∈ (vault.notes.filter fun note => note.title ≠ conf.lockTitle).filter
        (fun note => note.title = title) := hnote ▸ List.mem_singleton_self note
    obtain ⟨hthere, htitle⟩ := List.mem_filter.mp hfound
    obtain rfl := of_decide_eq_true htitle
    have hlock := of_decide_eq_true (List.mem_filter.mp hthere).2
    refine count_asked hconf ?_ hlock
    rw [Reread.filter_title_of_kept (hkept hlock)] at hnote
    rw [hlisted.count_eq, Reread.count_map_title, hnote]
    rfl
  · intro title entry hentry
    obtain ⟨note, hnote, rfl⟩ := Option.map_eq_some_iff.mp hentry
    obtain ⟨data, -, hdata⟩ := Option.bind_eq_some_iff.mp hnote
    cases hmade : restoreSecureNote outside title data with
    | error e =>
      rw [hmade] at hdata
      cases hdata
    | ok made =>
      rw [hmade] at hdata
      cases hdata
      obtain ⟨_, -, hmade⟩ := bind_eq_ok.mp hmade
      obtain ⟨_, -, hmade⟩ := bind_eq_ok.mp hmade
      cases hmade
      rfl
  · have hiff {note : Note} (hnote : note ∈ vault.notes) (hlock : note.title ≠ conf.lockTitle) :=
      rereadNote_entry_iff hreads hnote (hrestored _ (hmem hnote hlock))
    constructor
    · intro h note hnote hlock
      exact (hiff hnote hlock).mp (h note (List.mem_filter.mpr ⟨hnote, decide_eq_true hlock⟩))
    · intro h note hnote
      obtain ⟨hnote, hlock⟩ := List.mem_filter.mp hnote
      have hlock := of_decide_eq_true hlock
      exact (hiff hnote hlock).mpr (h note hnote hlock)

/-- A backup that is restored restores the vault just when every document and note is read,
and every field is read back as it is written. -/
theorem restores_iff_restorable {version date vaultName : String} {counts : RestoreCounts}
    (hreads : reads.Of outside vault)
    (hbackup : createBackup defaultOpConf outside reads version date vaultName = .ok payload)
    (hrestore : restoreBackup defaultOpConf outside writes payload ⟨[], []⟩ =
      .ok (restored, counts)) :
    Restores defaultOpConf vault restored ↔ Restorable defaultOpConf outside reads vault := by
  have hconf := defaultOpConf_apart
  obtain ⟨titles, htitles, hdocuments, hnotes, hasked⟩ := createBackup_ok hbackup hconf.lock
  obtain ⟨hwritten, hnotesWritten, hmade⟩ := restoreBackup_ok hrestore
  rw [hdocuments] at hwritten
  rw [hnotes] at hnotesWritten
  have hrestored : ∀ title ∈ asked defaultOpConf titles, ∀ data,
      reads.item title = .ok data → (restoreSecureNote outside title data).isOk = true := by
    intro title htitle data hdata
    obtain ⟨item, hitem, hnote, rfl, rfl⟩ := hasked title htitle data hdata
    exact hmade item hitem hnote
  have hdocumentsIff := documents_perm_iff hconf hreads
  have hnotesIff := notes_perm_iff hconf hreads htitles hrestored
  constructor
  · intro h
    have hread := hdocumentsIff.mp ((hwritten.map _).symm.trans h.documents)
    have hkept := hnotesIff.mp ((hnotesWritten.map _).symm.trans h.notes)
    exact ⟨hread, fun note hnote hlock => (hkept note hnote hlock).1,
      fun note hnote hlock => (hkept note hnote hlock).2⟩
  · intro h
    exact ⟨(hwritten.map _).trans (hdocumentsIff.mpr h.documents),
      (hnotesWritten.map _).trans (hnotesIff.mpr fun note hnote hlock =>
        ⟨h.notes note hnote hlock, h.fields note hnote hlock⟩)⟩

/-! ## An assignment in characters -/

/-- Characters as they were before they were escaped. -/
def text (name : List (Char × Bool)) : String :=
  String.ofList (name.map Prod.fst)

theorem text_plain {l : List Char} : text (plain l) = String.ofList l :=
  congrArg String.ofList map_fst_plain

/-- `[section.]label[[type]]`, where a backslash escapes. -/
def readName (name : List (Char × Bool)) :
    Option (Option (List (Char × Bool)) × List (Char × Bool) × Option (List (Char × Bool))) :=
  let (first, second) := cut '.' name
  let (label, fieldType) := cut '[' (second.getD first)
  if ('.', false) ∈ second.getD first then none
  else if fieldType.all (·.getLast? = some (']', false)) then
    some (second.map fun _ => first, label, fieldType.map List.dropLast)
  else none

/-- `[section.]label[[type]]=value`, with the value as it stands. -/
def readAssignment (token : String) : Except OpcaError Assignment :=
  ((scan '\\' '=' token.toList).bind fun (name, value) =>
    (readName name).map fun (sectionLabel, label, fieldType) =>
      ⟨sectionLabel.map text, text label, fieldType.map text, String.ofList value⟩).elim
    (.error (.other "invalid assignment")) .ok

/-- A field with a label of its own, and nothing in its section or label that an assignment
would have escaped. -/
structure Field.Plain (field : Field) : Prop where
  named : field.label.getD "" ≠ "" ∧ field.label.getD "" ∉ skipped
  sectionLabel : ['.', '=', '\\'].Disjoint (field.sectionLabel.getD "").toList
  label : ['.', '=', '\\', '['].Disjoint (field.label.getD "").toList

/-- The name of an assignment as it is written. -/
def qualify (sectionLabel : Option (List Char)) (label : List Char)
    (fieldType : Option (List Char)) : List Char :=
  sectionLabel.elim [] (· ++ ['.']) ++ (label ++ fieldType.elim [] fun t => '[' :: t ++ [']'])

/-- What is written for a field, in characters. -/
theorem attributeOf_toList {field : Field} {token : String}
    (h : attributeOf field = some token) :
    ∃ sectionLabel fieldType, sectionLabel.getD [] = (field.sectionLabel.getD "").toList ∧
      (fieldType = none ∨ fieldType = some "text".toList) ∧
      token.toList = qualify sectionLabel (field.label.getD "").toList fieldType ++
        '=' :: (field.value.getD "").toList := by
  unfold attributeOf at h
  dsimp only at h
  split at h
  · cases h
  split at h
  · cases h
  split at h
  · cases h
  cases h
  refine ⟨if field.sectionLabel.getD "" = "" then none
      else some (field.sectionLabel.getD "").toList, ?_⟩
  split
  next hsection =>
    rw [hsection]
    split
    · exact ⟨some "text".toList, rfl, .inr rfl, by simp [qualify]⟩
    · exact ⟨none, rfl, .inl rfl, by simp [qualify]⟩
  next =>
    split
    · exact ⟨some "text".toList, rfl, .inr rfl, by simp [qualify]⟩
    · exact ⟨none, rfl, .inl rfl, by simp [qualify]⟩

/-- A field is written when it says something under a label of its own. -/
theorem attributeOf_isSome_iff {field : Field} (hshown : field.shown = true) :
    (attributeOf field).isSome = true ↔
      field.label.getD "" ≠ "" ∧ field.label.getD "" ∉ skipped := by
  unfold Field.shown at hshown
  obtain ⟨hvalue, hid⟩ := (Bool.and_eq_true _ _).mp hshown
  rw [attributeOf]
  dsimp only
  rw [if_neg (of_decide_eq_true hid), if_neg (of_decide_eq_true hvalue)]
  split
  next hnone => simpa [or_iff_not_imp_left] using hnone
  next hsome => simpa using hsome

/-- A name without syntax of its own is read as it was written. -/
theorem readName_plain {sectionLabel : Option (List Char)} {label : List Char}
    {fieldType : Option (List Char)} (hsection : '.' ∉ sectionLabel.getD [])
    (hlabel : '.' ∉ label) (hbracket : '[' ∉ label)
    (htype : fieldType = none ∨ fieldType = some "text".toList) :
    readName (plain (qualify sectionLabel label fieldType)) =
      some (sectionLabel.map plain, plain label, fieldType.map plain) := by
  let body := label ++ fieldType.elim [] fun t => '[' :: t ++ [']']
  have hnot {mark : Char} {l : List Char} (h : mark ∉ l) : (mark, false) ∉ plain l :=
    fun hmem => h (mem_plain.mp hmem).1
  have hbody : ('.', false) ∉ plain body := by
    refine hnot fun hmem => ?_
    rcases List.mem_append.mp hmem with hmem | hmem
    · exact hlabel hmem
    · rcases htype with rfl | rfl
      · cases hmem
      · revert hmem
        decide
  have hcut : cut '[' (plain body) =
      (plain label, fieldType.map fun t => plain t ++ [(']', false)]) := by
    rcases htype with rfl | rfl
    · rw [show body = label from List.append_nil label]
      exact cut_of_notMem (hnot hbracket)
    · rw [show plain body = plain label ++ ('[', false) :: (plain "text".toList ++ [(']', false)])
        from List.map_append]
      exact cut_append (hnot hbracket)
  have hclosed : (fieldType.map fun t => plain t ++ [(']', false)]).all
      (fun t => decide (t.getLast? = some (']', false))) = true := by
    rcases htype with rfl | rfl <;> rfl
  have hopened : (fieldType.map fun t => plain t ++ [(']', false)]).map List.dropLast =
      fieldType.map plain := by
    rcases htype with rfl | rfl <;> rfl
  cases sectionLabel with
  | none =>
    have hfirst : cut '.' (plain body) = (plain body, none) := cut_of_notMem hbody
    change readName (plain body) = _
    simp only [readName, hfirst, Option.getD_none, hcut, if_neg hbody, if_pos hclosed, hopened,
      Option.map_none]
  | some s =>
    have hfirst : cut '.' (plain (s ++ ['.'] ++ body)) = (plain s, some (plain body)) := by
      rw [List.append_assoc, show plain (s ++ (['.'] ++ body)) =
        plain s ++ ('.', false) :: plain body from List.map_append]
      exact cut_append (hnot hsection)
    change readName (plain (s ++ ['.'] ++ body)) = _
    simp only [readName, hfirst, Option.getD_some, hcut, if_neg hbody, if_pos hclosed, hopened,
      Option.map_some]

/-- No mark is in the section or the label of a name that is read. -/
theorem readName_some {name label : List (Char × Bool)}
    {sectionLabel fieldType : Option (List (Char × Bool))}
    (h : readName name = some (sectionLabel, label, fieldType)) :
    (sectionLabel.getD [] ++ label).Sublist name ∧ ('.', false) ∉ sectionLabel.getD [] ∧
      ('.', false) ∉ label ∧ ('[', false) ∉ label := by
  unfold readName at h
  dsimp only at h
  obtain ⟨hdot, hname⟩ := cut_spec '.' name
  obtain ⟨hbracket, hbody⟩ :=
    cut_spec '[' ((cut '.' name).2.getD (cut '.' name).1)
  split at h
  · cases h
  next hbodyDot =>
    split at h
    · cases h
      have hlabel : (cut '[' ((cut '.' name).2.getD (cut '.' name).1)).1.Sublist
          ((cut '.' name).2.getD (cut '.' name).1) :=
        List.takeWhile_sublist _
      refine ⟨?_, ?_, fun hmem => hbodyDot (hlabel.subset hmem), hbracket⟩
      · cases hsecond : (cut '.' name).2 with
        | none =>
          rw [hsecond] at hname hlabel
          exact hlabel.trans (List.takeWhile_sublist _)
        | some second =>
          rw [hsecond] at hname hlabel
          conv => rhs; rw [hname]
          exact List.Sublist.append_left (hlabel.trans (List.sublist_cons_self _ _)) _
      · cases hsecond : (cut '.' name).2 with
        | none => exact List.not_mem_nil
        | some second => exact hdot
    · cases h

/-- An assignment whose field says what is written has no escape and no mark in it. -/
theorem readAssignment_ok {token : String} {a : Assignment} (h : readAssignment token = .ok a) :
    ∃ name value sectionLabel label, scan '\\' '=' token.toList = some (name, value) ∧
      a.toField.entry = (text sectionLabel, text label, String.ofList value) ∧
      (sectionLabel ++ label).Sublist name ∧ ('.', false) ∉ sectionLabel ∧
      ('.', false) ∉ label ∧ ('[', false) ∉ label := by
  unfold readAssignment at h
  cases hread : (scan '\\' '=' token.toList).bind fun (name, value) =>
    (readName name).map fun (sectionLabel, label, fieldType) =>
      (⟨sectionLabel.map text, text label, fieldType.map text, String.ofList value⟩ :
        Assignment) with
  | none =>
    rw [hread] at h
    cases h
  | some b =>
    rw [hread] at h
    cases h
    obtain ⟨⟨name, value⟩, hscan, hmapped⟩ := Option.bind_eq_some_iff.mp hread
    obtain ⟨⟨sectionLabel, label, fieldType⟩, hname, heq⟩ := Option.map_eq_some_iff.mp hmapped
    cases heq
    refine ⟨name, value, sectionLabel.getD [], label, hscan, ?_, readName_some hname⟩
    cases sectionLabel with
    | none => rfl
    | some _ => rfl

/-- What a name is written with besides its section and its label. -/
theorem mem_qualify {sectionLabel fieldType : Option (List Char)} {label : List Char} {c : Char}
    (htype : fieldType = none ∨ fieldType = some "text".toList)
    (h : c ∈ qualify sectionLabel label fieldType) :
    c ∈ sectionLabel.getD [] ∨ c ∈ label ∨ c ∈ ".[text]".toList := by
  rcases List.mem_append.mp h with h | h
  · cases sectionLabel with
    | none => cases h
    | some s =>
      rcases List.mem_append.mp h with h | h
      · exact .inl h
      · rw [List.mem_singleton.mp h]
        exact .inr (.inr (by decide))
  · rcases List.mem_append.mp h with h | h
    · exact .inr (.inl h)
    · rcases htype with rfl | rfl
      · cases h
      · exact .inr (.inr (List.mem_cons_of_mem _ h))

/-- No backslash is added to a name. -/
theorem count_qualify {sectionLabel fieldType : Option (List Char)} {label : List Char}
    (htype : fieldType = none ∨ fieldType = some "text".toList) :
    (qualify sectionLabel label fieldType).count '\\' =
      (sectionLabel.getD [] ++ label).count '\\' := by
  have hnone : (fieldType.elim [] fun t => '[' :: t ++ [']']).count '\\' = 0 := by
    rcases htype with rfl | rfl <;> rfl
  unfold qualify
  rw [List.count_append, List.count_append, List.count_append, hnone, Nat.add_zero]
  cases sectionLabel with
  | none => rfl
  | some s =>
    change (s ++ ['.']).count '\\' + _ = _
    rw [List.count_append]
    rfl

/-- A backslash that is read cost another, so that what is read as it was written has none. -/
theorem backslash_not_mem {name sectionLabel label : List (Char × Bool)} {before : List Char}
    (hsub : (sectionLabel ++ label).Sublist name)
    (hread : 2 * (name.map Prod.fst).count '\\' ≤ before.count '\\')
    (hwritten : before.count '\\' = ((sectionLabel ++ label).map Prod.fst).count '\\') :
    '\\' ∉ before := by
  have hle : ((sectionLabel ++ label).map Prod.fst).count '\\' ≤
      (name.map Prod.fst).count '\\' :=
    (hsub.map Prod.fst).count_le _
  exact List.count_eq_zero.mp (by omega)

/-- What is read back as it is written has no character that would have been escaped. -/
theorem Field.Kept.plain {field : Field} (hparse : outside.parse = readAssignment)
    (h : field.Kept outside) : field.Plain := by
  obtain ⟨token, a, htoken, hread, hentry⟩ := h
  obtain ⟨part, fieldType, hpart, htype, hchars⟩ := attributeOf_toList htoken
  rw [hparse] at hread
  obtain ⟨name, value, sectionLabel, label, hscan, heq, hsub, hdotSection, hdotLabel, hbracket⟩ :=
    readAssignment_ok hread
  obtain ⟨before, hbefore, hcount, hplain, hstop⟩ := scan_eq_some hscan
  have hsection : (field.sectionLabel.getD "").toList = sectionLabel.map Prod.fst := by
    rw [show field.sectionLabel.getD "" = text sectionLabel from
      congrArg Prod.fst (hentry.symm.trans heq)]
    exact String.toList_ofList
  have hlabel : (field.label.getD "").toList = label.map Prod.fst := by
    rw [show field.label.getD "" = text label from
      congrArg (fun e => e.2.1) (hentry.symm.trans heq)]
    exact String.toList_ofList
  have hvalue : (field.value.getD "").toList = value := by
    rw [show field.value.getD "" = String.ofList value from
      congrArg (fun e => e.2.2) (hentry.symm.trans heq)]
    exact String.toList_ofList
  have hname : before = qualify part (field.label.getD "").toList fieldType := by
    rw [hbefore, hvalue] at hchars
    exact List.append_cancel_right hchars
  have hescape : '\\' ∉ before := by
    refine backslash_not_mem hsub hcount ?_
    rw [hname, count_qualify htype, hpart, hsection, hlabel, List.map_append]
  have hfalse {x : Char × Bool} (hx : x ∈ sectionLabel ++ label) : x.1 ∈ before ∧ x.2 = false :=
    mem_plain.mp (hplain hescape ▸ hsub.subset hx)
  have hapart {l : List (Char × Bool)} (hl : l ⊆ sectionLabel ++ label) {mark : Char}
      (hmark : (mark, false) ∉ l) : mark ∉ l.map Prod.fst := by
    intro hmem
    obtain ⟨⟨_, escaped⟩, hx, rfl⟩ := List.mem_map.mp hmem
    obtain rfl := (hfalse (hl hx)).2
    exact hmark hx
  have hboth {l : List (Char × Bool)} (hl : l ⊆ sectionLabel ++ label) :
      '=' ∉ l.map Prod.fst ∧ '\\' ∉ l.map Prod.fst :=
    ⟨hapart hl fun hx => hstop (hsub.subset (hl hx)),
      hapart hl fun hx => hescape (hfalse (hl hx)).1⟩
  have hfirst := List.subset_append_left sectionLabel label
  have hsecond := List.subset_append_right sectionLabel label
  refine ⟨(attributeOf_isSome_iff (attributeOf_shown htoken)).mp (htoken ▸ rfl), ?_, ?_⟩
  · rw [hsection]
    simp only [List.disjoint_cons_left, List.disjoint_nil_left, and_true]
    exact ⟨hapart hfirst hdotSection, hboth hfirst⟩
  · rw [hlabel]
    simp only [List.disjoint_cons_left, List.disjoint_nil_left, and_true]
    exact ⟨hapart hsecond hdotLabel, (hboth hsecond).1, (hboth hsecond).2,
      hapart hsecond hbracket⟩

/-- A plain field is written, and read back as it is written. -/
theorem Field.Plain.kept {field : Field} (hparse : outside.parse = readAssignment)
    (hshown : field.shown = true) (h : field.Plain) : field.Kept outside := by
  obtain ⟨token, htoken⟩ := Option.isSome_iff_exists.mp ((attributeOf_isSome_iff hshown).mpr h.named)
  obtain ⟨part, fieldType, hpart, htype, hchars⟩ := attributeOf_toList htoken
  have hsection := h.sectionLabel
  rw [← hpart] at hsection
  have hscan : scan '\\' '=' token.toList =
      some (plain (qualify part (field.label.getD "").toList fieldType),
        (field.value.getD "").toList) := by
    rw [hchars]
    refine scan_plain fun c hc => ?_
    rcases mem_qualify htype hc with hc | hc | hc
    · exact ⟨fun heq => hsection (by decide) (heq ▸ hc), fun heq => hsection (by decide) (heq ▸ hc)⟩
    · exact ⟨fun heq => h.label (by decide) (heq ▸ hc), fun heq => h.label (by decide) (heq ▸ hc)⟩
    · have hall : ".[text]".toList.all (fun c => c ≠ '=' ∧ c ≠ '\\') = true := by decide
      exact of_decide_eq_true (List.all_eq_true.mp hall c hc)
  have hname : readName (plain (qualify part (field.label.getD "").toList fieldType)) =
      some (part.map plain, plain (field.label.getD "").toList, fieldType.map plain) :=
    readName_plain (fun hmem => hsection (by decide) hmem)
      (fun hmem => h.label (by decide) hmem) (fun hmem => h.label (by decide) hmem) htype
  refine ⟨token, ⟨part.map String.ofList, field.label.getD "", fieldType.map String.ofList,
    field.value.getD ""⟩, htoken, ?_, ?_⟩
  · rw [hparse]
    unfold readAssignment
    rw [hscan, Option.bind_some]
    dsimp only
    rw [hname]
    simp only [Option.map_some, Option.elim_some, Option.map_map, Function.comp_def, text_plain,
      String.ofList_toList]
  · have hpart : (part.map String.ofList).getD "" = field.sectionLabel.getD "" := by
      rw [← String.ofList_toList (s := field.sectionLabel.getD ""), ← hpart]
      cases part <;> rfl
    exact Prod.ext hpart rfl

/-- A field is kept when it is plain, and only then. -/
theorem Field.kept_iff_plain {field : Field} (hparse : outside.parse = readAssignment)
    (hshown : field.shown = true) : field.Kept outside ↔ field.Plain :=
  ⟨Field.Kept.plain hparse, Field.Plain.kept hparse hshown⟩

/-- With assignments that are read so, a vault is restorable when every document and note is
read and every field is plain. -/
theorem restorable_iff_plain (hparse : outside.parse = readAssignment) :
    Restorable conf outside reads vault ↔
      (∀ d ∈ vault.documents, d.title ∈ [conf.caDatabaseTitle, conf.crlTitle] →
        (reads.document d.title).isOk = true) ∧
      ∀ note ∈ vault.notes, note.title ≠ conf.lockTitle →
        (reads.item note.title).isOk = true ∧
          ∀ field ∈ note.fields, field.shown = true → field.Plain := by
  constructor
  · intro h
    refine ⟨h.documents, fun note hnote hlock => ⟨h.notes note hnote hlock, ?_⟩⟩
    intro field hfield hshown
    exact (Field.kept_iff_plain hparse hshown).mp (h.fields note hnote hlock field hfield hshown)
  · rintro ⟨hdocuments, hnotes⟩
    refine ⟨hdocuments, fun note hnote hlock => (hnotes note hnote hlock).1, ?_⟩
    intro note hnote hlock field hfield hshown
    exact (Field.kept_iff_plain hparse hshown).mpr
      ((hnotes note hnote hlock).2 field hfield hshown)

/-! ## A small vault -/

def plainCa : Note :=
  ⟨"CA", [⟨some "notesPlain", some "notesPlain", some "", some "STRING", none⟩,
    ⟨some "a", some "cn", some "Test CA", some "STRING", none⟩]⟩

def plainCertificate : Note :=
  ⟨"CRT_1_a", [⟨some "b", some "certificate", some "pem", some "CONCEALED", none⟩,
    ⟨some "c", some "serial", some "a=1", some "STRING", some "config"⟩]⟩

def plainLock : Note :=
  ⟨"CA_Lock", [⟨some "d", some "host.name", some "desk", some "STRING", none⟩]⟩

/-- A CA and a certificate, its database and its CRL, while somebody holds the lock. -/
def plainVault : Vault where
  notes := [plainCa, plainCertificate, plainLock]
  documents := [⟨"CA_Database", "ca-db-export.sql", "db"⟩, ⟨"CRL", "crl.pem", "crl"⟩]

theorem mem_plainVault {note : Note} (h : note ∈ plainVault.notes) :
    note = plainCa ∨ note = plainCertificate ∨ note = plainLock := by
  simpa [plainVault] using h

/-- An item is printed as its title, and an assignment is read with its escapes. -/
def plainOutside : Outside where
  itemJson note := note.title
  fromStr json := (plainVault.notes.find? (·.title = json)).elim (.error "no item")
    fun note => .ok (some note.fields)
  parse := readAssignment

/-- The reads of it, all of which succeed but those of some notes. -/
def plainReads (failing : List String) : Reads where
  item title :=
    if title ∈ failing then .error (.other "op: timed out")
    else if title = "CA" ∨ title = "CRT_1_a" then .ok title
    else .error (.other "no item")
  document title :=
    if title = "CA_Database" then .ok "db"
    else if title = "CRL" then .ok "crl"
    else .error (.other "no document")
  listed := .ok ["CA", "CRT_1_a", "CA_Lock"]

theorem plainReads_of (failing : List String) :
    (plainReads failing).Of plainOutside plainVault where
  item {title text} h := by
    unfold plainReads at h
    dsimp only at h
    split at h
    · cases h
    split at h
    next htitle =>
      cases h
      rcases htitle with rfl | rfl
      · exact ⟨_, rfl, rfl⟩
      · exact ⟨_, rfl, rfl⟩
    next => cases h
  document {title text} h := by
    unfold plainReads at h
    dsimp only at h
    split at h
    next htitle =>
      subst htitle
      cases h
      exact ⟨_, rfl, rfl⟩
    split at h
    next htitle =>
      subst htitle
      cases h
      exact ⟨_, rfl, rfl⟩
    next => cases h
  listed h := by
    cases h
    exact List.Perm.refl _
  json note hnote := by
    rcases mem_plainVault hnote with rfl | rfl | rfl <;> rfl

/-- Nothing in it needs an escape but the lock, which is not restored. -/
theorem restorable_plainVault :
    Restorable defaultOpConf plainOutside (plainReads []) plainVault := by
  refine (restorable_iff_plain rfl).mpr ⟨?_, ?_⟩
  · intro d hd _
    rcases List.mem_cons.mp hd with rfl | hd
    · rfl
    · rw [List.mem_singleton.mp hd]
      rfl
  · intro note hnote hlock
    rcases mem_plainVault hnote with rfl | rfl | rfl
    · refine ⟨rfl, fun field hfield hshown => ?_⟩
      rcases List.mem_cons.mp hfield with rfl | hfield
      · exact absurd hshown (by decide)
      · rw [List.mem_singleton.mp hfield]
        exact ⟨by decide, by simp, by simp⟩
    · refine ⟨rfl, fun field hfield _ => ?_⟩
      rcases List.mem_cons.mp hfield with rfl | hfield
      · exact ⟨by decide, by simp, by simp⟩
      · rw [List.mem_singleton.mp hfield]
        exact ⟨by decide, by simp, by simp⟩
    · exact absurd rfl hlock

/-- Nothing fails. -/
def plainWrites : Writes := ⟨.ok (), fun _ => .ok ()⟩

def caItem : BackupItem := ⟨"ca", "CA", "CA"⟩
def documentItems : List BackupItem :=
  [⟨"ca_database", "CA_Database", "db"⟩, ⟨"crl", "CRL", "crl"⟩]

def restoredCa : Note := ⟨"CA", [⟨none, some "cn", some "Test CA", some "text", none⟩]⟩

/-- A backup whose reads all succeed. -/
theorem restores_plainVault : ∃ payload restored counts,
    createBackup defaultOpConf plainOutside (plainReads []) "1" "today" "vault" = .ok payload ∧
      restoreBackup defaultOpConf plainOutside plainWrites payload ⟨[], []⟩ =
        .ok (restored, counts) ∧
      Restores defaultOpConf plainVault restored := by
  have hbackup : createBackup defaultOpConf plainOutside (plainReads []) "1" "today" "vault" =
      .ok ⟨⟨"1", "today", "vault", 4⟩,
        caItem :: documentItems ++ [⟨"certificate", "CRT_1_a", "CRT_1_a"⟩]⟩ := by
    rfl
  have hrestored : (restoreBackup defaultOpConf plainOutside plainWrites
      ⟨⟨"1", "today", "vault", 4⟩,
        caItem :: documentItems ++ [⟨"certificate", "CRT_1_a", "CRT_1_a"⟩]⟩ ⟨[], []⟩).isOk =
      true := by
    rfl
  obtain ⟨⟨restored, counts⟩, hrestore⟩ := exists_of_isOk hrestored
  exact ⟨_, restored, counts, hbackup, hrestore,
    (restores_iff_restorable (plainReads_of []) hbackup hrestore).mpr restorable_plainVault⟩

/-- A note that could not be read is left out of the backup without a word. -/
theorem note_not_restored : ¬ ∀ outside reads writes vault payload restored counts,
    reads.Of outside vault →
      createBackup defaultOpConf outside reads "1" "today" "vault" = .ok payload →
        restoreBackup defaultOpConf outside writes payload ⟨[], []⟩ = .ok (restored, counts) →
          Restores defaultOpConf vault restored := by
  intro hclaim
  have hbackup : createBackup defaultOpConf plainOutside (plainReads ["CRT_1_a"]) "1" "today"
      "vault" = .ok ⟨⟨"1", "today", "vault", 3⟩, caItem :: documentItems⟩ := by
    rfl
  cases hrestore : restoreBackup defaultOpConf plainOutside plainWrites
      ⟨⟨"1", "today", "vault", 3⟩, caItem :: documentItems⟩ ⟨[], []⟩ with
  | error e => cases hrestore
  | ok result =>
    obtain ⟨restored, counts⟩ := result
    have hnotes : restored.notes = [restoredCa] := by
      cases hrestore
      rfl
    have hlength :=
      (hclaim _ _ _ _ _ _ _ (plainReads_of _) hbackup hrestore).notes.length_eq
    rw [hnotes] at hlength
    cases hlength

end Opca.Core.VaultBackup

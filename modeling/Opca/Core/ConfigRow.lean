/-
  Core/ConfigRow.lean --- the configuration's row as it is stored: the two lists that write
  it, the positional one that reads it, and its literals in a dump
  (`services/database/mod.rs`, `services/database/iterdump.rs`).

  What SQLite reads a literal of a dump as is a parameter.
-/
import Opca.Core.Migration
import Opca.Core.Rekey

set_option autoImplicit false

namespace Opca.Core.ConfigRow

open Opca.Foundation Relational Migration

/-! ## The configuration -/

abbrev I64 := {n : Int // -2 ^ 63 ≤ n ∧ n < 2 ^ 63}

/-- `parse::<i64>`. -/
def I64.parse (s : String) : Option I64 :=
  (parseI64 s).bind fun n => if h : -2 ^ 63 ≤ n ∧ n < 2 ^ 63 then some ⟨n, h⟩ else none

structure CaConfig where
  /-- Used only during init, not persisted, as are the next two. -/
  cn : Option String := none
  caDays : Option I64 := none
  keyAlgorithm : Option KeyAlgorithm := none
  nextSerial : Option I64 := none
  nextCrlSerial : Option I64 := none
  org : Option String := none
  ou : Option String := none
  email : Option String := none
  city : Option String := none
  state : Option String := none
  country : Option String := none
  caUrl : Option String := none
  crlUrl : Option String := none
  days : Option I64 := none
  crlDays : Option I64 := none
  schemaVersion : Option I64 := none
  caPublicStore : Option String := none
  caPrivateStore : Option String := none
  caBackupStore : Option String := none
  caAwsRegion : Option String := none
  crlBatchEnabled : Option Bool := none
  webServerDays : Option I64 := none
  vpnServerDays : Option I64 := none
  vpnClientDays : Option I64 := none
  deviceDays : Option I64 := none
  deriving DecidableEq, Repr

/-! ## Writing -/

def serialCell (n : I64) : Cell := .text (toString n.val)
def intCell (n : I64) : Cell := .integer n.val
def boolCell (b : Bool) : Cell := .integer (if b then 1 else 0)

/-- The columns of a new row; an unset text or counter is `""`. -/
def pushed (config : CaConfig) : List (String × Cell) :=
  let str (value : Option String) : Cell := .text (value.getD "")
  let serial (value : Option I64) : Cell := (value.map serialCell).getD (.text "")
  let int (value : Option I64) : Cell := (value.map intCell).getD .null
  [("id", .integer 1), ("schema_version", .integer defaultSchemaVersion),
    ("next_serial", serial config.nextSerial), ("next_crl_serial", serial config.nextCrlSerial),
    ("org", str config.org), ("ou", str config.ou), ("email", str config.email),
    ("city", str config.city), ("state", str config.state), ("country", str config.country),
    ("ca_url", str config.caUrl), ("crl_url", str config.crlUrl), ("days", int config.days),
    ("crl_days", int config.crlDays), ("ca_public_store", str config.caPublicStore),
    ("ca_private_store", str config.caPrivateStore),
    ("ca_backup_store", str config.caBackupStore), ("ca_aws_region", str config.caAwsRegion),
    ("crl_batch_enabled", (config.crlBatchEnabled.map boolCell).getD .null),
    ("web_server_days", int config.webServerDays),
    ("vpn_server_days", int config.vpnServerDays),
    ("vpn_client_days", int config.vpnClientDays), ("device_days", int config.deviceDays)]

/-- The columns that an update may set, and what it sets them to. -/
def maybeUpdated (updates : CaConfig) : List (String × Option Cell) :=
  [("next_serial", updates.nextSerial.map serialCell),
    ("next_crl_serial", updates.nextCrlSerial.map serialCell),
    ("org", updates.org.map .text), ("ou", updates.ou.map .text),
    ("email", updates.email.map .text), ("city", updates.city.map .text),
    ("state", updates.state.map .text), ("country", updates.country.map .text),
    ("ca_url", updates.caUrl.map .text), ("crl_url", updates.crlUrl.map .text),
    ("days", updates.days.map intCell), ("crl_days", updates.crlDays.map intCell),
    ("schema_version", updates.schemaVersion.map intCell),
    ("ca_public_store", updates.caPublicStore.map .text),
    ("ca_private_store", updates.caPrivateStore.map .text),
    ("ca_backup_store", updates.caBackupStore.map .text),
    ("ca_aws_region", updates.caAwsRegion.map .text),
    ("crl_batch_enabled", updates.crlBatchEnabled.map boolCell),
    ("web_server_days", updates.webServerDays.map intCell),
    ("vpn_server_days", updates.vpnServerDays.map intCell),
    ("vpn_client_days", updates.vpnClientDays.map intCell),
    ("device_days", updates.deviceDays.map intCell)]

/-- The clauses of a statement, for the columns that are given. -/
def clauses (columns : List (String × Option Cell)) : List (String × Cell) :=
  columns.filterMap fun column => column.2.map (column.1, ·)

/-- A row with some of its cells set. -/
def assigned (sets : List (String × Cell)) (row : Row) : Row := fun name =>
  (sets.lookup name).getD (row name)

/-- `INSERT INTO config (…) VALUES (…)`. -/
def insertConfig (config : CaConfig) (rows : List Row) : List Row :=
  rows ++ [assigned (pushed config) fun _ => .null]

/-- `UPDATE config SET … WHERE id = 1`. -/
def updateConfig (updates : CaConfig) (rows : List Row) : List Row :=
  let sets := clauses (maybeUpdated updates)
  if sets = [] then rows
  else rows.map fun row => if row "id" = .integer 1 then assigned sets row else row

/-! ## Reading -/

def selected : List String :=
  ["next_serial", "next_crl_serial", "org", "ou", "email", "city", "state", "country",
    "ca_url", "crl_url", "days", "crl_days", "schema_version", "ca_public_store",
    "ca_private_store", "ca_backup_store", "ca_aws_region", "crl_batch_enabled",
    "web_server_days", "vpn_server_days", "vpn_client_days", "device_days"]

/-- The cell of a selected column, by its position. -/
def cellAt (row : Row) (i : Nat) : Except OpcaError Cell :=
  match selected[i]? with
  | some name => .ok (row name)
  | none => .error (.database "Invalid column index")

def invalidType : OpcaError := .database "Invalid column type"

def getText (row : Row) (i : Nat) : Except OpcaError (Option String) := do
  match ← cellAt row i with
  | .null => return none
  | .text s => return some s
  | .integer _ => throw invalidType

def getInt (row : Row) (i : Nat) : Except OpcaError (Option I64) := do
  match ← cellAt row i with
  | .null => return none
  | .integer n =>
    if h : -2 ^ 63 ≤ n ∧ n < 2 ^ 63 then return some ⟨n, h⟩ else throw invalidType
  | .text _ => throw invalidType

def getBool (row : Row) (i : Nat) : Except OpcaError (Option Bool) := do
  return (← getInt row i).map fun n => decide (n.val ≠ 0)

def positive (value : Option I64) : Option I64 := value.filter fun n => decide (0 < n.val)

/-- A counter is kept as text. -/
def readSerial (text : Option String) : Option I64 := text.bind fun s => I64.parse (trim s)

/-- The configuration of a row; each column is read by its position. -/
def readRow (row : Row) : Except OpcaError CaConfig := do
  let nextSerial ← getText row 0
  let nextCrlSerial ← getText row 1
  let org ← getText row 2
  let ou ← getText row 3
  let email ← getText row 4
  let city ← getText row 5
  let state ← getText row 6
  let country ← getText row 7
  let caUrl ← getText row 8
  let crlUrl ← getText row 9
  let days ← getInt row 10
  let crlDays ← getInt row 11
  let schemaVersion ← getInt row 12
  let caPublicStore ← getText row 13
  let caPrivateStore ← getText row 14
  let caBackupStore ← getText row 15
  let caAwsRegion ← getText row 16
  let crlBatchEnabled ← getBool row 17
  let webServerDays ← getInt row 18
  let vpnServerDays ← getInt row 19
  let vpnClientDays ← getInt row 20
  let deviceDays ← getInt row 21
  return {
    nextSerial := readSerial nextSerial
    nextCrlSerial := readSerial nextCrlSerial
    org := nonBlank org
    ou := nonBlank ou
    email := nonBlank email
    city := nonBlank city
    state := nonBlank state
    country := nonBlank country
    caUrl := nonBlank caUrl
    crlUrl := nonBlank crlUrl
    days, crlDays, schemaVersion
    caPublicStore := nonBlank caPublicStore
    caPrivateStore := nonBlank caPrivateStore
    caBackupStore := nonBlank caBackupStore
    caAwsRegion := nonBlank caAwsRegion
    crlBatchEnabled
    webServerDays := positive webServerDays
    vpnServerDays := positive vpnServerDays
    vpnClientDays := positive vpnClientDays
    deviceDays := positive deviceDays }

/-- `SELECT … FROM config LIMIT 1`. -/
def getConfig (rows : List Row) : Except OpcaError CaConfig :=
  match rows with
  | [] => .error (.database "Query returned no rows")
  | row :: _ => readRow row

/-! ## The stored row -/

/-- What a column of a type may hold. -/
def Fits : ColumnType → Cell → Prop
  | _, .null => True
  | .integer, .integer n => -2 ^ 63 ≤ n ∧ n < 2 ^ 63
  | .text, .text _ => True
  | _, _ => False

def configColumns : List Column := ((layoutOf defaultSchemaVersion).find "config").getD []

/-- The row that `insertConfig` makes, whatever it has been set to. -/
structure Stored (row : Row) : Prop where
  id : row "id" = .integer 1
  fits : ∀ column ∈ configColumns, Fits column.type (row column.name)

/-- What each column reads as. -/
def textOf : Cell → Option String
  | .text s => some s
  | _ => none

def intOf : Cell → Option I64
  | .integer n => if h : -2 ^ 63 ≤ n ∧ n < 2 ^ 63 then some ⟨n, h⟩ else none
  | _ => none

def boolOf (cell : Cell) : Option Bool := (intOf cell).map fun n => decide (n.val ≠ 0)

def configOf (row : Row) : CaConfig where
  nextSerial := readSerial (textOf (row "next_serial"))
  nextCrlSerial := readSerial (textOf (row "next_crl_serial"))
  org := nonBlank (textOf (row "org"))
  ou := nonBlank (textOf (row "ou"))
  email := nonBlank (textOf (row "email"))
  city := nonBlank (textOf (row "city"))
  state := nonBlank (textOf (row "state"))
  country := nonBlank (textOf (row "country"))
  caUrl := nonBlank (textOf (row "ca_url"))
  crlUrl := nonBlank (textOf (row "crl_url"))
  days := intOf (row "days")
  crlDays := intOf (row "crl_days")
  schemaVersion := intOf (row "schema_version")
  caPublicStore := nonBlank (textOf (row "ca_public_store"))
  caPrivateStore := nonBlank (textOf (row "ca_private_store"))
  caBackupStore := nonBlank (textOf (row "ca_backup_store"))
  caAwsRegion := nonBlank (textOf (row "ca_aws_region"))
  crlBatchEnabled := boolOf (row "crl_batch_enabled")
  webServerDays := positive (intOf (row "web_server_days"))
  vpnServerDays := positive (intOf (row "vpn_server_days"))
  vpnClientDays := positive (intOf (row "vpn_client_days"))
  deviceDays := positive (intOf (row "device_days"))

section

variable {row : Row} {i : Nat} {name : String}

theorem cellAt_eq (hi : selected[i]? = some name) : cellAt row i = .ok (row name) := by
  rw [cellAt, hi]

theorem getText_eq (hi : selected[i]? = some name) (h : Fits .text (row name)) :
    getText row i = .ok (textOf (row name)) := by
  simp only [getText, cellAt_eq hi, bind, Except.bind]
  cases hcell : row name with
  | null => rfl
  | integer n =>
    rw [hcell] at h
    cases h
  | text s => rfl

theorem getInt_eq (hi : selected[i]? = some name) (h : Fits .integer (row name)) :
    getInt row i = .ok (intOf (row name)) := by
  simp only [getInt, cellAt_eq hi, bind, Except.bind]
  cases hcell : row name with
  | null => rfl
  | integer n =>
    rw [hcell] at h
    have hn : -2 ^ 63 ≤ n ∧ n < 2 ^ 63 := h
    simp only [dif_pos hn, intOf]
    rfl
  | text s =>
    rw [hcell] at h
    cases h

theorem getBool_eq (hi : selected[i]? = some name) (h : Fits .integer (row name)) :
    getBool row i = .ok (boolOf (row name)) := by
  unfold getBool
  rw [getInt_eq hi h]
  rfl

theorem Stored.readRow (h : Stored row) : readRow row = .ok (configOf row) := by
  have text (i : Nat) (name : String) (hi : selected[i]? = some name)
      (hcolumn : (configColumns.contains ⟨name, .text⟩) = true) :
      getText row i = .ok (textOf (row name)) :=
    getText_eq hi (h.fits ⟨name, .text⟩ (List.contains_iff_mem.mp hcolumn))
  have int (i : Nat) (name : String) (hi : selected[i]? = some name)
      (hcolumn : (configColumns.contains ⟨name, .integer⟩) = true) :
      getInt row i = .ok (intOf (row name)) :=
    getInt_eq hi (h.fits ⟨name, .integer⟩ (List.contains_iff_mem.mp hcolumn))
  have bool : getBool row 17 = .ok (boolOf (row "crl_batch_enabled")) :=
    getBool_eq rfl (h.fits ⟨_, .integer⟩ (List.contains_iff_mem.mp (by decide)))
  unfold ConfigRow.readRow
  rw [text 0 _ rfl (by decide), text 1 _ rfl (by decide),
    text 2 _ rfl (by decide), text 3 _ rfl (by decide),
    text 4 _ rfl (by decide), text 5 _ rfl (by decide),
    text 6 _ rfl (by decide), text 7 _ rfl (by decide),
    text 8 _ rfl (by decide), text 9 _ rfl (by decide),
    int 10 _ rfl (by decide), int 11 _ rfl (by decide),
    int 12 _ rfl (by decide), text 13 _ rfl (by decide),
    text 14 _ rfl (by decide), text 15 _ rfl (by decide),
    text 16 _ rfl (by decide), bool, int 18 _ rfl (by decide),
    int 19 _ rfl (by decide), int 20 _ rfl (by decide),
    int 21 _ rfl (by decide)]
  rfl

end

/-! ## What an update sets -/

/-- What is given, as it reads back, and what was held if nothing is. -/
def overlaid {α : Type} (clean : Option α → Option α) (given held : Option α) : Option α :=
  if given.isSome then clean given else held

/-- A configuration as it reads once it has been updated: blank texts and per-type days
that are not positive are unset. -/
def CaConfig.after (config updates : CaConfig) : CaConfig :=
  { config with
    nextSerial := updates.nextSerial.or config.nextSerial
    nextCrlSerial := updates.nextCrlSerial.or config.nextCrlSerial
    org := overlaid nonBlank updates.org config.org
    ou := overlaid nonBlank updates.ou config.ou
    email := overlaid nonBlank updates.email config.email
    city := overlaid nonBlank updates.city config.city
    state := overlaid nonBlank updates.state config.state
    country := overlaid nonBlank updates.country config.country
    caUrl := overlaid nonBlank updates.caUrl config.caUrl
    crlUrl := overlaid nonBlank updates.crlUrl config.crlUrl
    days := updates.days.or config.days
    crlDays := updates.crlDays.or config.crlDays
    schemaVersion := updates.schemaVersion.or config.schemaVersion
    caPublicStore := overlaid nonBlank updates.caPublicStore config.caPublicStore
    caPrivateStore := overlaid nonBlank updates.caPrivateStore config.caPrivateStore
    caBackupStore := overlaid nonBlank updates.caBackupStore config.caBackupStore
    caAwsRegion := overlaid nonBlank updates.caAwsRegion config.caAwsRegion
    crlBatchEnabled := updates.crlBatchEnabled.or config.crlBatchEnabled
    webServerDays := overlaid positive updates.webServerDays config.webServerDays
    vpnServerDays := overlaid positive updates.vpnServerDays config.vpnServerDays
    vpnClientDays := overlaid positive updates.vpnClientDays config.vpnClientDays
    deviceDays := overlaid positive updates.deviceDays config.deviceDays }

section

variable {cell : Cell} {columns : List (String × Option Cell)} {name : String}
  {value : Option Cell} {updates : CaConfig} {row : Row}

theorem trim_toString (n : Int) : trim (toString n) = toString n := by
  refine trim_of_not_whiteSpace fun c hc => ?_
  have hdigits (k : Nat) : ∀ c ∈ (Nat.repr k).toList, isWhiteSpace c = false := by
    intro c hc
    rw [toList_repr] at hc
    exact San.isWhiteSpace_toDigits (by omega) (by omega) hc
  cases n with
  | ofNat k => exact hdigits k c hc
  | negSucc k =>
    rw [show toString (Int.negSucc k) = "-" ++ Nat.repr (k + 1) from rfl,
      String.toList_append, List.mem_append] at hc
    rcases hc with hsign | hdigit
    · rw [List.mem_singleton.mp (show c ∈ ['-'] from hsign)]
      decide
    · exact hdigits _ c hdigit

theorem readSerial_toString (n : I64) : readSerial (some (toString n.val)) = some n := by
  have hparse : parseI64 (toString n.val) = some n.val := by
    rw [parseI64, parseSigned_toString, if_pos n.property]
  rw [readSerial, Option.bind_some, trim_toString, I64.parse, hparse, Option.bind_some,
    dif_pos n.property]

theorem readSerial_set (given : Option I64) :
    readSerial (textOf ((given.map serialCell).getD cell)) =
      given.or (readSerial (textOf cell)) := by
  cases given with
  | none => rfl
  | some n => exact readSerial_toString n

theorem nonBlank_set (given : Option String) :
    nonBlank (textOf ((given.map Cell.text).getD cell)) =
      overlaid nonBlank given (nonBlank (textOf cell)) := by
  cases given <;> rfl

theorem intOf_set (given : Option I64) :
    intOf ((given.map intCell).getD cell) = given.or (intOf cell) := by
  cases given with
  | none => rfl
  | some n =>
    show intOf (.integer n.val) = some n
    rw [intOf, dif_pos n.property]

theorem positive_or (given held : Option I64) :
    positive (given.or held) = overlaid positive given (positive held) := by
  cases given <;> rfl

theorem boolOf_set (given : Option Bool) :
    boolOf ((given.map boolCell).getD cell) = given.or (boolOf cell) := by
  rcases given with _ | _ | _ <;> rfl

theorem lookup_eq_none {sets : List (String × Cell)} (h : name ∉ sets.map Prod.fst) :
    sets.lookup name = none := by
  induction sets with
  | nil => rfl
  | cons set sets ih =>
    rw [List.map_cons, List.mem_cons, not_or] at h
    rw [List.lookup_cons, beq_false_of_ne h.1]
    exact ih h.2

theorem mem_clauses (h : name ∈ (clauses columns).map Prod.fst) :
    name ∈ columns.map Prod.fst := by
  obtain ⟨set, hset, rfl⟩ := List.mem_map.mp h
  obtain ⟨column, hcolumn, hmap⟩ := List.mem_filterMap.mp hset
  obtain ⟨cell, -, rfl⟩ := Option.map_eq_some_iff.mp hmap
  exact List.mem_map_of_mem hcolumn

/-- Each column is set to what it is given. -/
theorem lookup_clauses (hnodup : (columns.map Prod.fst).Nodup)
    (h : (name, value) ∈ columns) : (clauses columns).lookup name = value := by
  induction columns with
  | nil => cases h
  | cons column columns ih =>
    rw [List.map_cons, List.nodup_cons] at hnodup
    rcases List.mem_cons.mp h with rfl | hmem
    · cases value with
      | none => exact lookup_eq_none fun hname => hnodup.1 (mem_clauses hname)
      | some cell => simp [clauses]
    · have hne : name ≠ column.1 := by
        rintro rfl
        exact hnodup.1 (List.mem_map.mpr ⟨_, hmem, rfl⟩)
      obtain ⟨other, _ | cell⟩ := column
      · exact ih hnodup.2 hmem
      · show ((other, cell) :: clauses columns).lookup name = value
        rw [List.lookup_cons, beq_false_of_ne hne]
        exact ih hnodup.2 hmem

theorem assigned_at (i : Nat) (h : (maybeUpdated updates)[i]? = some (name, value)) :
    assigned (clauses (maybeUpdated updates)) row name = value.getD (row name) := by
  have hnodup : ((maybeUpdated updates).map Prod.fst).Nodup := by
    show selected.Nodup
    decide
  rw [assigned, lookup_clauses hnodup (List.mem_of_getElem? h)]

theorem configOf_assigned : configOf (assigned (clauses (maybeUpdated updates)) row) =
    (configOf row).after updates := by
  simp only [configOf, CaConfig.after, assigned_at 0 rfl, assigned_at 1 rfl, assigned_at 2 rfl,
    assigned_at 3 rfl, assigned_at 4 rfl, assigned_at 5 rfl, assigned_at 6 rfl,
    assigned_at 7 rfl, assigned_at 8 rfl, assigned_at 9 rfl, assigned_at 10 rfl,
    assigned_at 11 rfl, assigned_at 12 rfl, assigned_at 13 rfl, assigned_at 14 rfl,
    assigned_at 15 rfl, assigned_at 16 rfl, assigned_at 17 rfl, assigned_at 18 rfl,
    assigned_at 19 rfl, assigned_at 20 rfl, assigned_at 21 rfl, readSerial_set, nonBlank_set,
    intOf_set, positive_or, boolOf_set]

end

/-! ## The table -/

/-- The type of a column, by its name. -/
def typeOf (name : String) : ColumnType :=
  if name ∈ ["id", "days", "crl_days", "schema_version", "crl_batch_enabled",
    "openvpn_template_import", "web_server_days", "vpn_server_days", "vpn_client_days",
    "device_days"] then .integer else .text

theorem typeOf_column {column : Column} (h : column ∈ configColumns) :
    column.type = typeOf column.name := by
  have hall :
      (configColumns.all fun column => decide (column.type = typeOf column.name)) = true := by
    decide
  exact of_decide_eq_true (List.all_eq_true.mp hall column h)

section

variable {row : Row} {sets : List (String × Cell)} {name : String}

theorem fits_text (h : typeOf name = .text) (given : Option String) :
    ∀ cell ∈ given.map Cell.text, Fits (typeOf name) cell := by
  cases given <;> simp [h, Fits]

theorem fits_serial (h : typeOf name = .text) (given : Option I64) :
    ∀ cell ∈ given.map serialCell, Fits (typeOf name) cell := by
  cases given <;> simp [h, Fits, serialCell]

theorem fits_int (h : typeOf name = .integer) (given : Option I64) :
    ∀ cell ∈ given.map intCell, Fits (typeOf name) cell := by
  rw [h]
  cases given with
  | none => simp
  | some n =>
    intro cell hcell
    cases hcell
    exact n.property

theorem fits_bool (h : typeOf name = .integer) (given : Option Bool) :
    ∀ cell ∈ given.map boolCell, Fits (typeOf name) cell := by
  rw [h]
  rcases given with _ | _ | _ <;> simp [Fits, boolCell]

theorem fits_maybeUpdated (updates : CaConfig) :
    ∀ column ∈ maybeUpdated updates, ∀ cell ∈ column.2, Fits (typeOf column.1) cell := by
  simp only [maybeUpdated, List.forall_mem_cons, List.not_mem_nil, false_implies, implies_true,
    and_true]
  exact ⟨fits_serial (by decide) _, fits_serial (by decide) _, fits_text (by decide) _,
    fits_text (by decide) _, fits_text (by decide) _, fits_text (by decide) _,
    fits_text (by decide) _, fits_text (by decide) _, fits_text (by decide) _,
    fits_text (by decide) _, fits_int (by decide) _, fits_int (by decide) _,
    fits_int (by decide) _, fits_text (by decide) _, fits_text (by decide) _,
    fits_text (by decide) _, fits_text (by decide) _, fits_bool (by decide) _,
    fits_int (by decide) _, fits_int (by decide) _, fits_int (by decide) _,
    fits_int (by decide) _⟩

theorem fits_assigned (h : ∀ set ∈ sets, Fits (typeOf set.1) set.2)
    (hrow : ∀ column ∈ configColumns, Fits column.type (row column.name)) :
    ∀ column ∈ configColumns, Fits column.type (assigned sets row column.name) := by
  intro column hcolumn
  unfold assigned
  cases hlookup : sets.lookup column.name with
  | none => exact hrow column hcolumn
  | some cell =>
    rw [typeOf_column hcolumn]
    obtain ⟨before, later, hsets, -⟩ := List.lookup_eq_some_iff.mp hlookup
    refine h (column.name, cell) ?_
    rw [hsets]
    exact List.mem_append_right _ List.mem_cons_self

theorem Stored.update (h : Stored row) (updates : CaConfig) :
    Stored (assigned (clauses (maybeUpdated updates)) row) where
  id := by
    have hid : "id" ∉ ((maybeUpdated updates).map Prod.fst) := by
      show "id" ∉ selected
      decide
    rw [assigned, lookup_eq_none fun hname => hid (mem_clauses hname)]
    exact h.id
  fits := by
    refine fits_assigned (fun set hset => ?_) h.fits
    obtain ⟨column, hcolumn, hmap⟩ := List.mem_filterMap.mp hset
    obtain ⟨cell, hcell, rfl⟩ := Option.map_eq_some_iff.mp hmap
    exact fits_maybeUpdated updates column hcolumn cell hcell

theorem stored_pushed (config : CaConfig) : Stored (assigned (pushed config) fun _ => .null) where
  id := rfl
  fits := by
    have hint (given : Option I64) : Fits .integer ((given.map intCell).getD .null) := by
      cases given with
      | none => trivial
      | some n => exact n.property
    have hserial (given : Option I64) :
        Fits .text ((given.map serialCell).getD (.text "")) := by
      cases given <;> trivial
    have hbool : Fits .integer ((config.crlBatchEnabled.map boolCell).getD .null) := by
      rcases config.crlBatchEnabled with _ | _ | _ <;> simp [Fits, boolCell]
    refine fits_assigned ?_ fun _ _ => trivial
    simp only [pushed, List.forall_mem_cons, List.not_mem_nil, false_implies, implies_true,
      and_true]
    refine ⟨by simp [typeOf, Fits], by simp [typeOf, Fits, defaultSchemaVersion], hserial _,
      hserial _, trivial, trivial, trivial, trivial, trivial, trivial, trivial, trivial, hint _,
      hint _, trivial, trivial, trivial, trivial, hbool, hint _, hint _, hint _, hint _⟩

end

/-- The table: `insertConfig` is run on it once. -/
structure ConfigTable where
  rows : List Row
  only : ∃ row, rows = [row] ∧ Stored row

def ConfigTable.new (config : CaConfig) : ConfigTable where
  rows := insertConfig config []
  only := ⟨_, rfl, stored_pushed config⟩

def ConfigTable.update (table : ConfigTable) (updates : CaConfig) : ConfigTable where
  rows := updateConfig updates table.rows
  only := by
    obtain ⟨row, hrows, hrow⟩ := table.only
    rw [hrows, updateConfig]
    split
    · exact ⟨row, rfl, hrow⟩
    · refine ⟨_, ?_, hrow.update updates⟩
      rw [List.map_singleton, if_pos hrow.id]

/-! ## Export and reload -/

def quote : Char := Char.ofNat 0x27

def doubled (cs : List Char) : List Char :=
  cs.flatMap fun c => if c = quote then [c, c] else [c]

/-- `format_value`: quotes inside a text are doubled. -/
def formatValue : Cell → String
  | .null => "NULL"
  | .integer n => toString n
  | .text s => String.ofList (quote :: doubled s.toList ++ [quote])

/-- The values of the statements that a dump inserts rows with. -/
def emitInserts (columns : List Column) (rows : List Row) : List (List String) :=
  rows.map fun row => columns.map fun column => formatValue (row column.name)

/-- The rows that the statements insert, where SQLite reads a value as `literal` says. -/
def executed (literal : String → Option Cell) (columns : List Column)
    (inserts : List (List String)) : Option (List Row) :=
  inserts.mapM fun values => do
    let cells ← values.mapM literal
    return assigned ((columns.map Column.name).zip cells) fun _ => .null

/-- `from_sql_dump`, the other tables given: the rows of `config` once the database is
loaded and migrated. -/
def fromSqlDump (literal : String → Option Cell) (importTs : Cell) (others : Store)
    (columns : List Column) (inserts : List (List String)) : Option (List Row) := do
  let rows ← executed literal columns inserts
  let db : Store := Function.update others "config" (some ⟨columns, rows⟩)
  let version ← storedVersion db
  let (migrated, _) ← (migrate importTs db version).toOption
  let config ← migrated "config"
  return config.rows

/-- SQLite reads what is written of a cell as that cell; a statement's text ends at a
NUL. -/
structure ReadsLiterals (literal : String → Option Cell) : Prop where
  null : literal (formatValue .null) = some .null
  integer : ∀ n : I64, literal (formatValue (intCell n)) = some (intCell n)
  text : ∀ s : String, Char.ofNat 0 ∉ s.toList →
    literal (formatValue (.text s)) = some (.text s)

/-- No text has a NUL. -/
def NulFree (rows : List Row) : Prop :=
  ∀ row ∈ rows, ∀ column ∈ configColumns, ∀ s, row column.name = .text s →
    Char.ofNat 0 ∉ s.toList

section

variable {literal : String → Option Cell} {row row' : Row} {columns : List Column}

theorem ReadsLiterals.fits (h : ReadsLiterals literal) {type : ColumnType} {cell : Cell}
    (hfits : Fits type cell) (hplain : ∀ s, cell = .text s → Char.ofNat 0 ∉ s.toList) :
    literal (formatValue cell) = some cell := by
  cases cell with
  | null => exact h.null
  | integer n =>
    cases type with
    | integer => exact h.integer ⟨n, hfits⟩
    | text => cases hfits
  | text s => exact h.text s (hplain s rfl)

theorem mapM_literal {names : List String}
    (h : ∀ name ∈ names, literal (formatValue (row name)) = some (row name)) :
    (names.map fun name => formatValue (row name)).mapM literal = some (names.map row) := by
  induction names with
  | nil => rfl
  | cons name names ih =>
    rw [List.map_cons, List.mapM_cons, h name List.mem_cons_self,
      ih fun name hname => h name (List.mem_cons_of_mem _ hname)]
    rfl

theorem lookup_zip {names : List String} {name : String} (h : name ∈ names) :
    (names.zip (names.map row)).lookup name = some (row name) := by
  induction names with
  | nil => cases h
  | cons other names ih =>
    rw [List.map_cons, List.zip_cons_cons, List.lookup_cons]
    by_cases heq : name = other
    · rw [heq, beq_self_eq_true]
    · rw [beq_false_of_ne heq]
      exact ih ((List.mem_cons.mp h).resolve_left heq)

/-- A row is read in the columns that are selected only. -/
theorem readRow_congr (h : ∀ name ∈ selected, row' name = row name) :
    readRow row' = readRow row := by
  have hcells : cellAt row' = cellAt row := by
    funext i
    cases hi : selected[i]? with
    | none => rw [cellAt, cellAt, hi]
    | some name => rw [cellAt_eq hi, cellAt_eq hi, h name (List.mem_of_getElem? hi)]
  unfold readRow getBool getText getInt
  rw [hcells]

theorem column_of_selected {name : String} (h : name ∈ selected) :
    ∃ column ∈ configColumns, column.name = name := by
  have hall : (selected.all fun name => configColumns.any fun column => column.name = name) =
      true := by
    decide
  simpa using List.all_eq_true.mp hall name h

/-- A table of the current version is what its dump is loaded as. -/
theorem fromSqlDump_emitInserts (h : ReadsLiterals literal) (hrow : Stored row)
    (hplain : NulFree [row]) (hcolumns : columns.Perm configColumns) {version : Int}
    (hversion : row "schema_version" = .integer version)
    (hcurrent : defaultSchemaVersion ≤ version) (importTs : Cell) (others : Store) :
    ∃ loaded, fromSqlDump literal importTs others columns (emitInserts columns [row]) =
        some [loaded] ∧ ∀ name ∈ selected, loaded name = row name := by
  have hread : ∀ name ∈ columns.map Column.name,
      literal (formatValue (row name)) = some (row name) := by
    intro name hname
    obtain ⟨column, hcolumn, rfl⟩ := List.mem_map.mp hname
    have hmem := hcolumns.mem_iff.mp hcolumn
    exact h.fits (hrow.fits column hmem) (hplain row List.mem_cons_self column hmem)
  have hnames {name : String} (hname : name ∈ selected) : name ∈ columns.map Column.name := by
    obtain ⟨column, hcolumn, rfl⟩ := column_of_selected hname
    exact List.mem_map_of_mem (hcolumns.mem_iff.mpr hcolumn)
  have hloaded : ∀ name ∈ selected, assigned ((columns.map Column.name).zip
      ((columns.map Column.name).map row)) (fun _ => .null) name = row name := by
    intro name hname
    rw [assigned, lookup_zip (hnames hname), Option.getD_some]
  have hexecuted : executed literal columns (emitInserts columns [row]) =
      some [assigned ((columns.map Column.name).zip ((columns.map Column.name).map row))
        fun _ => .null] := by
    have hcells := mapM_literal hread
    rw [List.map_map] at hcells
    simp only [executed, emitInserts, List.map_singleton, List.mapM_cons, List.mapM_nil]
    rw [show (columns.map fun column => formatValue (row column.name)).mapM literal = _ from hcells]
    rfl
  refine ⟨_, ?_, hloaded⟩
  have hselected : "schema_version" ∈ selected := by decide
  have hmigrate (db : Store) : migrate importTs db version =
      .ok (db, ⟨false, version, defaultSchemaVersion, []⟩) := if_pos hcurrent
  simp only [fromSqlDump, hexecuted, Option.bind_eq_bind, Option.bind_some, storedVersion,
    Function.update_self, List.head?_cons, Option.map_some, Relation.cell, Relation.names,
    if_pos (hnames hselected), hloaded _ hselected, hversion, hmigrate]
  rfl

end

/-! ## The configuration that operations use -/

/-- A configuration without what is not persisted. -/
def CaConfig.shared (config : CaConfig) : Core.CaConfig where
  nextSerial := config.nextSerial.map Subtype.val
  nextCrlSerial := config.nextCrlSerial.map Subtype.val
  text
    | .org => config.org
    | .ou => config.ou
    | .email => config.email
    | .city => config.city
    | .state => config.state
    | .country => config.country
    | .caUrl => config.caUrl
    | .crlUrl => config.crlUrl
    | .caPublicStore => config.caPublicStore
    | .caPrivateStore => config.caPrivateStore
    | .caBackupStore => config.caBackupStore
    | .caAwsRegion => config.caAwsRegion
  number
    | .days => config.days.map Subtype.val
    | .crlDays => config.crlDays.map Subtype.val
    | .schemaVersion => config.schemaVersion.map Subtype.val
    | .webServerDays => config.webServerDays.map Subtype.val
    | .vpnServerDays => config.vpnServerDays.map Subtype.val
    | .vpnClientDays => config.vpnClientDays.map Subtype.val
    | .deviceDays => config.deviceDays.map Subtype.val
  crlBatchEnabled := config.crlBatchEnabled

def textName : ConfigText → String
  | .org => "org"
  | .ou => "ou"
  | .email => "email"
  | .city => "city"
  | .state => "state"
  | .country => "country"
  | .caUrl => "ca_url"
  | .crlUrl => "crl_url"
  | .caPublicStore => "ca_public_store"
  | .caPrivateStore => "ca_private_store"
  | .caBackupStore => "ca_backup_store"
  | .caAwsRegion => "ca_aws_region"

def numberName : ConfigNumber → String
  | .days => "days"
  | .crlDays => "crl_days"
  | .schemaVersion => "schema_version"
  | .webServerDays => "web_server_days"
  | .vpnServerDays => "vpn_server_days"
  | .vpnClientDays => "vpn_client_days"
  | .deviceDays => "device_days"

/-- The row as operations have it: the counters as they read back, the rest as it is
stored. -/
def abstracted (row : Row) : Core.CaConfig where
  nextSerial := (readSerial (textOf (row "next_serial"))).map Subtype.val
  nextCrlSerial := (readSerial (textOf (row "next_crl_serial"))).map Subtype.val
  text column := textOf (row (textName column))
  number column := (intOf (row (numberName column))).map Subtype.val
  crlBatchEnabled := boolOf (row "crl_batch_enabled")

section

variable {row : Row} {config updates : CaConfig}

theorem positive_val (days : Option I64) :
    (positive days).map Subtype.val = Core.positive (days.map Subtype.val) := by
  cases days with
  | none => rfl
  | some n =>
    by_cases h : 0 < n.val <;>
      simp only [positive, Core.positive, Option.filter, Option.map_some, h, decide_true,
        decide_false, if_true, Bool.false_eq_true, if_false, Option.map_none]

/-- What reads back of a row is what operations read of it. -/
theorem shared_configOf : (configOf row).shared = (abstracted row).read := by
  unfold CaConfig.shared Core.CaConfig.read
  rw [Core.CaConfig.mk.injEq]
  refine ⟨rfl, rfl, funext fun column => ?_, funext fun column => ?_, rfl⟩
  · cases column <;> rfl
  · cases column with
    | days => rfl
    | crlDays => rfl
    | schemaVersion => rfl
    | webServerDays => exact positive_val _
    | vpnServerDays => exact positive_val _
    | vpnClientDays => exact positive_val _
    | deviceDays => exact positive_val _

theorem textOf_set {cell : Cell} (given : Option String) :
    textOf ((given.map Cell.text).getD cell) = given.or (textOf cell) := by
  cases given <;> rfl

theorem map_or {α β : Type} (f : α → β) (given held : Option α) :
    (given.or held).map f = (given.map f).or (held.map f) := by
  cases given <;> rfl

/-- An update of the row is an update of what operations have. -/
theorem abstracted_assigned : abstracted (assigned (clauses (maybeUpdated updates)) row) =
    (abstracted row).update updates.shared := by
  unfold abstracted Core.CaConfig.update
  rw [Core.CaConfig.mk.injEq]
  refine ⟨?_, ?_, funext fun column => ?_, funext fun column => ?_, ?_⟩
  · rw [assigned_at 0 rfl, readSerial_set, map_or]
    rfl
  · rw [assigned_at 1 rfl, readSerial_set, map_or]
    rfl
  · cases column <;> simp only [textName, assigned_at 2 rfl, assigned_at 3 rfl,
      assigned_at 4 rfl, assigned_at 5 rfl, assigned_at 6 rfl, assigned_at 7 rfl,
      assigned_at 8 rfl, assigned_at 9 rfl, assigned_at 13 rfl, assigned_at 14 rfl,
      assigned_at 15 rfl, assigned_at 16 rfl, textOf_set] <;> rfl
  · cases column <;> simp only [numberName, assigned_at 10 rfl, assigned_at 11 rfl,
      assigned_at 12 rfl, assigned_at 18 rfl, assigned_at 19 rfl, assigned_at 20 rfl,
      assigned_at 21 rfl, intOf_set, map_or] <;> rfl
  · rw [assigned_at 17 rfl, boolOf_set]
    rfl

/-- Where the batches go is read of two columns. -/
theorem crlBatchUri_congr {a b : Core.CaConfig} (henabled : a.crlBatchEnabled = b.crlBatchEnabled)
    (hstore : a.text .caPrivateStore = b.text .caPrivateStore) :
    crlBatchUri a = crlBatchUri b := by
  rw [crlBatchUri, crlBatchUri, henabled, hstore]

/-- The check looks at the configuration that the update leads to. -/
theorem crlBatchUri_of_check (h : checkCrlBatchUpdate config.shared updates.shared = .ok ()) :
    ∃ uri, crlBatchUri (config.after updates).shared = .ok uri := by
  obtain ⟨uri, huri, -⟩ := bind_eq_ok.mp h
  refine ⟨uri, ?_⟩
  rw [← huri]
  refine crlBatchUri_congr rfl ?_
  cases hstore : updates.caPrivateStore <;>
    simp [CaConfig.shared, CaConfig.after, overlaid, hstore]

end

/-! ## Reading back -/

/-- After an update each column that it gives reads back as it was given, a blank text or
a per-type lifetime that is not positive as unset, and every other column as before; what
is not persisted is not set.  A database of the current version, without NULs in the
texts of its configuration, reads back so once it is exported and loaded again, counters
included.  And an update that the batch check accepts leads to a configuration that a
batch can be signed with. -/
theorem config_reads_back (table : ConfigTable) (updates : CaConfig) :
    ∃ config, getConfig table.rows = .ok config ∧
      getConfig (table.update updates).rows = .ok (config.after updates) ∧
      (∀ literal, ReadsLiterals literal → NulFree (table.update updates).rows →
        (∃ version, (config.after updates).schemaVersion = some version ∧
          defaultSchemaVersion ≤ version.val) →
        ∀ (columns : List Column) (importTs : Cell) (others : Store),
          columns.Perm configColumns →
          ∃ rows, fromSqlDump literal importTs others columns
              (emitInserts columns (table.update updates).rows) = some rows ∧
            getConfig rows = .ok (config.after updates)) ∧
      (checkCrlBatchUpdate config.shared updates.shared = .ok () →
        ∃ uri, crlBatchUri (config.after updates).shared = .ok uri) := by
  obtain ⟨row, hrows, hrow⟩ := table.only
  have hupdated : (table.update updates).rows =
      [assigned (clauses (maybeUpdated updates)) row] := by
    show updateConfig updates table.rows = _
    rw [hrows, updateConfig]
    split
    · next hnone =>
      rw [hnone]
      rfl
    · rw [List.map_singleton, if_pos hrow.id]
  have hnow := hrow.update updates
  have hread : getConfig (table.update updates).rows = .ok ((configOf row).after updates) := by
    rw [hupdated, getConfig, hnow.readRow, configOf_assigned]
  refine ⟨configOf row, ?_, hread, ?_, crlBatchUri_of_check⟩
  · rw [hrows, getConfig, hrow.readRow]
  · rintro literal hliteral hplain ⟨version, hversion, hcurrent⟩ columns importTs others
      hcolumns
    rw [← configOf_assigned] at hversion ⊢
    rw [hupdated] at hplain ⊢
    have hcell : assigned (clauses (maybeUpdated updates)) row "schema_version" =
        .integer version.val := by
      have hint : intOf (assigned (clauses (maybeUpdated updates)) row "schema_version") =
          some version := hversion
      unfold intOf at hint
      split at hint
      · split at hint
        · cases hint
          assumption
        · cases hint
      · cases hint
    obtain ⟨loaded, hloaded, hsame⟩ := fromSqlDump_emitInserts hliteral hnow hplain hcolumns
      hcell hcurrent importTs others
    refine ⟨[loaded], hloaded, ?_⟩
    rw [getConfig, readRow_congr hsame, hnow.readRow]

/-! ## A table that is read back -/

def undoubled : List Char → List Char
  | c :: d :: cs => if c = quote ∧ d = quote then c :: undoubled cs else c :: undoubled (d :: cs)
  | cs => cs

/-- A reader of literals: numbers, texts in quotes up to a NUL, and `NULL`. -/
def sampleLiteral (value : String) : Option Cell :=
  match parseI64 value with
  | some n => some (.integer n)
  | none =>
    match value.toList with
    | [] => none
    | c :: cs =>
      if c = quote then
        if Char.ofNat 0 ∈ cs then none
        else some (.text (String.ofList (undoubled cs.dropLast)))
      else if value = "NULL" then some .null
      else none

theorem undoubled_cons {c : Char} (hc : c ≠ quote) (cs : List Char) :
    undoubled (c :: cs) = c :: undoubled cs := by
  cases cs with
  | nil => rfl
  | cons d cs => rw [undoubled, if_neg fun h => hc h.1]

theorem undoubled_doubled (cs : List Char) : undoubled (doubled cs) = cs := by
  induction cs with
  | nil => rfl
  | cons c cs ih =>
    rw [doubled, List.flatMap_cons]
    by_cases hc : c = quote
    · rw [if_pos hc]
      show undoubled (c :: c :: doubled cs) = c :: cs
      rw [undoubled, if_pos ⟨hc, hc⟩, ih]
    · rw [if_neg hc]
      show undoubled (c :: doubled cs) = c :: cs
      rw [undoubled_cons hc, ih]

theorem mem_doubled {cs : List Char} {c : Char} (h : c ∈ doubled cs) : c ∈ cs := by
  obtain ⟨d, hd, hc⟩ := List.mem_flatMap.mp h
  split at hc <;> simp_all

theorem parseI64_quote (cs : List Char) : parseI64 (String.ofList (quote :: cs)) = none := by
  have hdigit : quote.isDigit = false := by decide
  have hsigned : unsignedDigits (quote :: cs) = quote :: cs := by
    unfold unsignedDigits
    split
    · next rest hplus =>
      exact absurd (List.cons.inj hplus).1 (by decide)
    · rfl
  unfold parseI64 parseSigned
  rw [String.toList_ofList]
  split
  · next digits hminus =>
    exact absurd (List.cons.inj hminus).1 (by decide)
  · rw [parseUnsigned, String.toList_ofList, hsigned]
    simp [hdigit]

theorem sampleLiteral_reads : ReadsLiterals sampleLiteral where
  null := by decide
  integer n := by
    have hparse : parseI64 (toString n.val) = some n.val := by
      rw [parseI64, parseSigned_toString, if_pos n.property]
    show sampleLiteral (toString n.val) = _
    rw [sampleLiteral, hparse]
    rfl
  text s h := by
    have hnul : Char.ofNat 0 ∉ doubled s.toList ++ [quote] := by
      rw [List.mem_append, not_or]
      exact ⟨fun hmem => h (mem_doubled hmem), by decide⟩
    simp only [sampleLiteral, formatValue, List.cons_append, parseI64_quote,
      String.toList_ofList, if_true, if_neg hnul, List.dropLast_concat, undoubled_doubled,
      String.ofList_toList]

/-- The other tables of a database without certificates. -/
def emptyTables : Store := fun table => (newLayout.find table).map fun columns => ⟨columns, []⟩

def sampleTable : ConfigTable := .new { org := some "Example" }

def batchUpdate : CaConfig :=
  { nextSerial := some ⟨-5, by decide⟩, caPrivateStore := some "s3://crls",
    crlBatchEnabled := some true }

def nulFree : Cell → Bool
  | .text s => decide (Char.ofNat 0 ∉ s.toList)
  | _ => true

/-- Batches turned on and a counter set, and the database exported and loaded again. -/
theorem batches_read_back :
    ∃ rows, fromSqlDump sampleLiteral .null emptyTables configColumns
        (emitInserts configColumns (sampleTable.update batchUpdate).rows) = some rows ∧
      ∃ config, getConfig rows = .ok config ∧ config.nextSerial = some ⟨-5, by decide⟩ ∧
        ∃ uri, crlBatchUri config.shared = .ok uri := by
  obtain ⟨config, hconfig, -, hreload, hbatch⟩ := config_reads_back sampleTable batchUpdate
  have hplain : NulFree (sampleTable.update batchUpdate).rows := by
    have hall : ((sampleTable.update batchUpdate).rows.all fun row =>
        configColumns.all fun column => nulFree (row column.name)) = true := by decide
    intro row hrow column hcolumn s hs
    have hcell := List.all_eq_true.mp (List.all_eq_true.mp hall row hrow) column hcolumn
    rw [hs] at hcell
    exact of_decide_eq_true hcell
  have hversion : config.schemaVersion = some ⟨21, by decide⟩ := by
    have hnew : getConfig sampleTable.rows = .ok (configOf _) := (stored_pushed _).readRow
    rw [hnew] at hconfig
    cases hconfig
    rfl
  obtain ⟨rows, hrows, hread⟩ := hreload sampleLiteral sampleLiteral_reads hplain
    ⟨⟨21, by decide⟩, by rw [CaConfig.after, hversion]; rfl, le_refl 21⟩ configColumns .null
    emptyTables (.refl _)
  exact ⟨rows, hrows, _, hread, rfl, hbatch rfl⟩

/-- What is not persisted is not read back, and neither is a table whose update says that
it is of an older version or holds a NUL. -/
theorem cn_not_persisted :
    (∃ config, getConfig (sampleTable.update { cn := some "Example CA" }).rows = .ok config ∧
      config.cn = none) ∧
    fromSqlDump sampleLiteral .null emptyTables configColumns (emitInserts configColumns
      (sampleTable.update
        { nextSerial := some ⟨7, by decide⟩, schemaVersion := some ⟨3, by decide⟩ }).rows) =
      none ∧
    fromSqlDump sampleLiteral .null emptyTables configColumns (emitInserts configColumns
      (sampleTable.update
        { nextSerial := some ⟨7, by decide⟩, org := some "Ex\x00ample" }).rows) = none := by
  refine ⟨?_, ?_, ?_⟩
  · exact ⟨configOf _, (stored_pushed { org := some "Example" }).readRow, rfl⟩
  · rw [← Option.isNone_iff_eq_none]
    decide
  · rw [← Option.isNone_iff_eq_none]
    decide

end Opca.Core.ConfigRow

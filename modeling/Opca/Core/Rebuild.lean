/-
  Core/Rebuild.lean --- a database rebuilt from the notes of a vault: what is read of them,
  which rows it has then and where its counter stands (`services/ca.rs`, `rebuild_database`,
  `retrieve_certbundle`).
-/
import Opca.Core.Lookup
import Opca.Core.Recovery

set_option autoImplicit false

namespace Opca.Core.Rebuild

open Opca.Foundation Acme

/-! ## The vault -/

/-- A Secure Note as opCA stores it. -/
structure Note where
  title : String
  /-- The certificate that it holds, with its serial; a CSR's note and the others hold
  none. -/
  certificate : Option (String × CertAttribs)
  /-- It was stored with an issuer of its own, and so under `EXT_`. -/
  external : Bool

/-- What reading and writing the vault answers. -/
structure Reads where
  /-- The CA's item is there, its database is not, and the notes are listed. -/
  listed : Except OpcaError Unit
  item : (title : String) → Except OpcaError Unit
  /-- `CertificateBundle::import` of what an item holds. -/
  imported : (title : String) → Except OpcaError Unit
  /-- The database is stored. -/
  stored : Except OpcaError Unit

def Note.item (note : Note) : Option Item :=
  note.certificate.map fun (serial, attribs) => ⟨serial, note.title, attribs⟩

/-- An item that cannot be read is passed over, as one without a certificate is. -/
def retrieveCertbundle (reads : Reads) (note : Note) : Except OpcaError (Option Item) :=
  match reads.item note.title, note.item with
  | .ok _, some item => (reads.imported note.title).map fun _ => some item
  | _, _ => .ok none

def retrieved (reads : Reads) (notes : List Note) : Except OpcaError (List Item) := do
  reads.listed
  let bundles ← notes.mapM (retrieveCertbundle reads)
  .ok (bundles.filterMap id)

/-- The database that a vault's notes are rebuilt to. -/
def rebuild (times : OpensslTimes) (now : Time) (config : CaConfig)
    (bundle : ConfigText → Option String) (reads : Reads) (notes : List Note)
    (given : List Given) : Option CaDatabase :=
  match rebuilt times now config bundle (retrieved reads notes) given, reads.stored with
  | some db, .ok _ => some db
  | _, _ => none

/-! ## A sound database -/

/-- A row is that of a note. -/
def rowOf (note : Note) (serial : String) (c : CertRecord) : Bool :=
  c.serial = serial && c.title = some note.title

/-- The one row of a note, in the table of its kind. -/
def OneRow (times : OpensslTimes) (db : CaDatabase) (note : Note) (serial : String)
    (cert : CertAttribs) : Prop :=
  if note.external then
    (∃ e, db.tables.externals.filter (·.serial = serial) = [e]) ∧
      db.rows.filter (rowOf note serial) = []
  else
    ∃ c, db.rows.filter (rowOf note serial) = [c] ∧
      c.expiryDate = some (times.format cert.notAfter)

/-- Every certificate has its row, the counter hands out no serial of one that the CA
signed, and nothing overflowed. -/
structure Sound (times : OpensslTimes) (config : CaConfig) (reads : Reads) (notes : List Note)
    (signed : List Int) (db : CaDatabase) : Prop where
  rows : ∀ note ∈ notes, ∀ serial cert, note.certificate = some (serial, cert) →
    OneRow times db note serial cert
  counter : ∀ n ∈ signed, ∀ k : Nat, db.tables.config.counter .cert + k ≠ n
  arithmetic : ∀ items, retrieved reads notes = .ok items →
    config.nextSerial.getD 0 ≤ maxSerial items → maxSerial items + 1 ≤ i64Max

/-- The certificates of a vault. -/
def certificates (notes : List Note) : List Item := notes.filterMap Note.item

/-- A vault that can be rebuilt: every certificate can be read and is the CA's own, none has
the largest serial, and of those that the CA signed the last is there, or below the counter
that is asked for. -/
structure Rebuildable (config : CaConfig) (reads : Reads) (notes : List Note)
    (signed : List Int) : Prop where
  read : ∀ note ∈ notes, note.certificate.isSome = true → (reads.item note.title).isOk = true
  own : ∀ note ∈ notes, note.certificate.isSome = true → note.external = false
  room : config.nextSerial.getD 0 ≤ maxSerial (certificates notes) →
    maxSerial (certificates notes) < i64Max
  signed : ∀ n ∈ signed, n < config.nextSerial.getD 0 ∨ n ≤ maxSerial (certificates notes)

/-! ## What is read -/

variable {times : OpensslTimes} {now : Time} {config : CaConfig}
  {bundle : ConfigText → Option String} {reads : Reads} {notes : List Note}
  {given : List Given} {db : CaDatabase} {items : List Item}

theorem of_retrieveCertbundle {note : Note} {item : Item}
    (h : retrieveCertbundle reads note = .ok (some item)) :
    (reads.item note.title).isOk = true ∧ note.item = some item := by
  unfold retrieveCertbundle at h
  split at h
  next hread hitem =>
    obtain ⟨_, -, heq⟩ := map_eq_ok.mp h
    rw [hread, hitem]
    exact ⟨rfl, heq⟩
  next => cases h

theorem retrieveCertbundle_of_read {note : Note} {found : Option Item}
    (h : retrieveCertbundle reads note = .ok found)
    (hread : note.certificate.isSome = true → (reads.item note.title).isOk = true) :
    found = note.item := by
  unfold retrieveCertbundle at h
  split at h
  next hitem =>
    obtain ⟨_, -, rfl⟩ := map_eq_ok.mp h
    exact hitem.symm
  next hnot =>
    cases h
    cases hitem : note.item with
    | none => rfl
    | some item =>
      have hsome : note.certificate.isSome = true := by
        obtain ⟨pair, hpair, -⟩ := Option.map_eq_some_iff.mp hitem
        rw [hpair]
        rfl
      obtain ⟨_, hok⟩ := exists_of_isOk (hread hsome)
      exact absurd hitem (hnot _ _ hok)

/-- What is retrieved was read of some note. -/
theorem of_retrieved (h : retrieved reads notes = .ok items) {item : Item}
    (hitem : item ∈ items) :
    ∃ note ∈ notes, (reads.item note.title).isOk = true ∧ note.item = some item := by
  obtain ⟨_, -, h⟩ := bind_eq_ok.mp h
  obtain ⟨bundles, hbundles, h⟩ := bind_eq_ok.mp h
  cases h
  obtain ⟨found, hfound, hsome⟩ := List.mem_filterMap.mp hitem
  obtain ⟨note, hnote, hread⟩ := exists_of_mem_mapM hbundles found hfound
  rw [show found = some item from hsome] at hread
  exact ⟨note, hnote, of_retrieveCertbundle hread⟩

theorem mapM_retrieveCertbundle : ∀ {notes : List Note} {bundles : List (Option Item)},
    notes.mapM (retrieveCertbundle reads) = .ok bundles →
      (∀ note ∈ notes, note.certificate.isSome = true →
        (reads.item note.title).isOk = true) → bundles = notes.map Note.item
  | [], bundles, h, _ => by
    cases h
    rfl
  | note :: notes, bundles, h, hread => by
    rw [List.mapM_cons] at h
    obtain ⟨found, hfound, h⟩ := bind_eq_ok.mp h
    obtain ⟨rest, hrest, h⟩ := bind_eq_ok.mp h
    cases h
    have hnotes := mapM_retrieveCertbundle hrest fun note hnote =>
      hread note (List.mem_cons_of_mem _ hnote)
    rw [List.map_cons, retrieveCertbundle_of_read hfound (hread note List.mem_cons_self), hnotes]

/-- Where every certificate can be read, every one is retrieved. -/
theorem retrieved_eq (h : retrieved reads notes = .ok items)
    (hread : ∀ note ∈ notes, note.certificate.isSome = true →
      (reads.item note.title).isOk = true) : items = certificates notes := by
  obtain ⟨_, -, h⟩ := bind_eq_ok.mp h
  obtain ⟨bundles, hbundles, h⟩ := bind_eq_ok.mp h
  cases h
  rw [mapM_retrieveCertbundle hbundles hread, List.filterMap_map]
  rfl

/-! ## What is rebuilt -/

/-- The row that is made of an item. -/
def rebuiltRow (times : OpensslTimes) (now : Time) (item : Item) : CertRecord :=
  formatDbItem times now item.bare item.serial item.title

theorem forM_addCert_ok {ρ : Type} {f : ρ → CertRecord} : ∀ {xs : List ρ} {s t : CaDatabase}
    {u : PUnit}, (xs.forM fun x => addCert (f x)) s = .ok u t →
      t.rows = s.rows ++ xs.map f ∧ t.tables.externals = s.tables.externals ∧
        t.tables.config = s.tables.config
  | [], s, t, u, h => by
    cases h
    exact ⟨(List.append_nil _).symm, rfl, rfl⟩
  | x :: xs, s, t, u, h => by
    have hcons : (addCert (f x) >>= fun _ => xs.forM fun x => addCert (f x)) s = .ok u t := h
    obtain ⟨_, next, hadd, h⟩ := of_bind_ok hcons
    obtain ⟨hrows, hexternals, hconfig⟩ := forM_addCert_ok h
    have hadded := (of_addCert_ok hadd).2
    have hrest : next.tables.externals = s.tables.externals ∧
        next.tables.config = s.tables.config := by
      unfold addCert at hadd
      split at hadd
      · cases hadd
      · cases hadd
        exact ⟨rfl, rfl⟩
    refine ⟨?_, hexternals.trans hrest.1, hconfig.trans hrest.2⟩
    rw [hrows, hadded, List.append_assoc]
    rfl

/-- The counter once it is past the items. -/
def nextAfter (config : CaConfig) (serial : Int) : Option Int :=
  if serial < config.nextSerial.getD 0 then config.nextSerial
  else some (wrapI64 (serial + 1))

theorem advancePast_ok {serial : Int} {s t : CaDatabase} {u : Unit}
    (h : advancePast serial s = .ok u t) :
    t.rows = s.rows ∧ t.tables.externals = s.tables.externals ∧
      t.tables.config.nextSerial = nextAfter s.tables.config serial := by
  unfold nextAfter
  by_cases hlt : serial < s.tables.config.nextSerial.getD 0
  · have hsame : advancePast serial s = .ok () s := by
      unfold advancePast
      refine (bind_of_ok (m := get) rfl).trans ?_
      rw [if_pos hlt]
      rfl
    rw [hsame] at h
    cases h
    rw [if_pos hlt]
    exact ⟨rfl, rfl, rfl⟩
  · have hupdate : advancePast serial s =
        updateConfig { nextSerial := some (wrapI64 (serial + 1)) } s := by
      unfold advancePast
      refine (bind_of_ok (m := get) rfl).trans ?_
      rw [if_neg hlt]
    rw [hupdate] at h
    cases h
    rw [if_neg hlt]
    exact ⟨rfl, rfl, rfl⟩

/-- What a rebuild makes of a new database. -/
theorem rebuildDatabase_ok {read : Except OpcaError (List Item)} {u : Unit}
    (h : rebuildDatabase times now bundle read (.fromTables (newTables config) given) =
      .ok u db) :
    ∃ items, read = .ok items ∧
      db.rows = (items.insertionSort fun a b => a.serial ≤ b.serial).map (rebuiltRow times now) ∧
      db.tables.externals = [] ∧
      db.tables.config.nextSerial = nextAfter config (maxSerial items) := by
  obtain ⟨_, s1, hconfig, hrun⟩ := of_bind_ok h
  cases hconfig
  obtain ⟨items, s2, hread, hrun⟩ := of_bind_ok hrun
  obtain ⟨hitems, rfl⟩ := of_outcome_ok hread
  obtain ⟨_, s3, hcheck, hrun⟩ := of_bind_ok hrun
  obtain ⟨-, rfl⟩ := of_outcome_ok hcheck
  obtain ⟨_, s4, hadd, hadvance⟩ := of_bind_ok hrun
  obtain ⟨hrows, hexternals, hconfig⟩ := forM_addCert_ok hadd
  obtain ⟨hrows', hexternals', hnext⟩ := advancePast_ok hadvance
  refine ⟨items, hitems, hrows'.trans hrows, hexternals'.trans hexternals, hnext.trans ?_⟩
  rw [hconfig]
  rfl

/-- What a rebuild that succeeds makes. -/
theorem rebuild_ok (h : rebuild times now config bundle reads notes given = some db) :
    ∃ items, retrieved reads notes = .ok items ∧
      db.rows = (items.insertionSort fun a b => a.serial ≤ b.serial).map (rebuiltRow times now) ∧
      db.tables.externals = [] ∧
      db.tables.config.nextSerial = nextAfter config (maxSerial items) := by
  unfold rebuild at h
  split at h
  next after _ hrebuilt _ =>
    cases h
    unfold rebuilt at hrebuilt
    split at hrebuilt
    next hrun =>
      cases hrebuilt
      exact rebuildDatabase_ok hrun
    next => cases hrebuilt
  next => cases h

/-! ## The rows -/

theorem filter_rowOf {note : Note} {serial : String} {c : CertRecord} (hc : c ∈ db.rows)
    (hrow : rowOf note serial c = true) : db.rows.filter (rowOf note serial) = [c] := by
  have hnodup : db.rows.Nodup := db.tables.certificates.serials_nodup.of_map _
  refine List.perm_singleton.mp ?_
  rw [List.perm_ext_iff_of_nodup (hnodup.filter _) (List.nodup_singleton c)]
  intro c'
  rw [List.mem_filter, List.mem_singleton]
  constructor
  · rintro ⟨hc', hrow'⟩
    have hserial (c : CertRecord) (h : rowOf note serial c = true) : c.serial = serial :=
      of_decide_eq_true (Bool.and_eq_true_iff.mp h).1
    exact List.inj_on_of_nodup_map db.tables.certificates.serials_nodup hc' hc
      ((hserial c' hrow').trans (hserial c hrow).symm)
  · rintro rfl
    exact ⟨hc, hrow⟩

theorem item_of_certificate {note : Note} {serial : String} {cert : CertAttribs}
    (h : note.certificate = some (serial, cert)) : note.item = some ⟨serial, note.title, cert⟩ := by
  unfold Note.item
  rw [h]
  rfl

theorem mem_rows_iff {c : CertRecord}
    (hrows : db.rows = (items.insertionSort fun a b => a.serial ≤ b.serial).map
      (rebuiltRow times now)) :
    c ∈ db.rows ↔ ∃ item ∈ items, rebuiltRow times now item = c := by
  rw [hrows, List.mem_map]
  refine exists_congr fun item => and_congr_left fun _ => ?_
  exact (List.perm_insertionSort _ _).mem_iff

/-! ## The counter -/

theorem le_foldl_max : ∀ (ns : List Int) (n : Int), n ≤ ns.foldl max n
  | [], n => le_refl n
  | m :: ns, n => (le_max_left n m).trans (le_foldl_max ns (max n m))

theorem maxSerial_nonneg (items : List Item) : 0 ≤ maxSerial items := le_foldl_max _ 0

/-- The counter is past a number just when the number was below what was asked for, or is not
above the largest serial there is. -/
theorem counter_past_iff {serial n : Int} (hserial : 0 ≤ serial)
    (hroom : config.nextSerial.getD 0 ≤ serial → serial + 1 ≤ i64Max) :
    (∀ k : Nat, (nextAfter config serial).getD 1 + k ≠ n) ↔
      n < config.nextSerial.getD 0 ∨ n ≤ serial := by
  have hpast (next : Int) : (∀ k : Nat, next + k ≠ n) ↔ n < next := by
    constructor
    · intro h
      by_contra hle
      exact h (n - next).toNat (by omega)
    · intro hlt k
      omega
  unfold nextAfter
  rw [hpast]
  by_cases hlt : serial < config.nextSerial.getD 0
  · rw [if_pos hlt]
    cases hnext : config.nextSerial with
    | none =>
      rw [hnext] at hlt
      exact absurd (hserial.trans_lt hlt) (lt_irrefl 0)
    | some next =>
      rw [hnext] at hlt
      rw [Option.getD_some] at hlt ⊢
      rw [Option.getD_some]
      omega
  · rw [if_neg hlt, Option.getD_some, wrapI64_of_le (hroom (not_lt.mp hlt))]
    omega

/-! ## Soundness -/

/-- A rebuilt database is sound just when the vault can be rebuilt. -/
theorem sound_iff_rebuildable {signed : List Int}
    (h : rebuild times now config bundle reads notes given = some db) :
    Sound times config reads notes signed db ↔ Rebuildable config reads notes signed := by
  obtain ⟨items, hitems, hrows, hexternals, hnext⟩ := rebuild_ok h
  have hcounter : db.tables.config.counter .cert =
      (nextAfter config (maxSerial items)).getD 1 := congrArg (·.getD 1) hnext
  constructor
  · intro hsound
    have hfound {note : Note} (hnote : note ∈ notes) (hcert : note.certificate.isSome = true) :
        note.external = false ∧ (reads.item note.title).isOk = true := by
      obtain ⟨⟨serial, cert⟩, hpair⟩ := Option.isSome_iff_exists.mp hcert
      have hone := hsound.rows note hnote serial cert hpair
      unfold OneRow at hone
      rw [hexternals] at hone
      split at hone
      · obtain ⟨⟨e, he⟩, -⟩ := hone
        cases he
      next hown =>
        obtain ⟨c, hc, -⟩ := hone
        have hmem : c ∈ db.rows.filter (rowOf note serial) := hc ▸ List.mem_singleton_self c
        obtain ⟨hthere, hrow⟩ := List.mem_filter.mp hmem
        obtain ⟨item, hitem, rfl⟩ := (mem_rows_iff hrows).mp hthere
        obtain ⟨other, -, hread, hother⟩ := of_retrieved hitems hitem
        have htitle : item.title = note.title :=
          Option.some.inj (of_decide_eq_true (Bool.and_eq_true_iff.mp hrow).2)
        have hsame : item.title = other.title := by
          obtain ⟨_, -, rfl⟩ := Option.map_eq_some_iff.mp hother
          rfl
        rw [← htitle, hsame]
        exact ⟨Bool.eq_false_iff.mpr hown, hread⟩
    have heq := retrieved_eq hitems fun note hnote hcert => (hfound hnote hcert).2
    have hroom := hsound.arithmetic items hitems
    refine ⟨fun note hnote hcert => (hfound hnote hcert).2,
      fun note hnote hcert => (hfound hnote hcert).1, ?_, fun n hn => ?_⟩
    · rw [← heq]
      exact fun hle => Int.lt_iff_add_one_le.mpr (hroom hle)
    · have hpast := hsound.counter n hn
      rw [hcounter] at hpast
      rw [← heq]
      exact (counter_past_iff (maxSerial_nonneg items) hroom).mp hpast
  · intro hready
    have heq := retrieved_eq hitems hready.read
    have hroom : config.nextSerial.getD 0 ≤ maxSerial items → maxSerial items + 1 ≤ i64Max := by
      rw [heq]
      exact fun hle => Int.lt_iff_add_one_le.mp (hready.room hle)
    refine ⟨fun note hnote serial cert hcert => ?_, fun n hn => ?_, fun items' hitems' => ?_⟩
    · have hsome : note.certificate.isSome = true := by
        rw [hcert]
        rfl
      have hitem : ⟨serial, note.title, cert⟩ ∈ items := by
        rw [heq]
        exact List.mem_filterMap.mpr ⟨note, hnote, item_of_certificate hcert⟩
      have hrow := (mem_rows_iff hrows).mpr ⟨_, hitem, rfl⟩
      unfold OneRow
      rw [if_neg (by rw [hready.own note hnote hsome]; exact Bool.false_ne_true)]
      refine ⟨_, filter_rowOf hrow ?_, rfl⟩
      unfold rowOf
      rw [Bool.and_eq_true, decide_eq_true_eq, decide_eq_true_eq]
      exact ⟨rfl, rfl⟩
    · rw [hcounter]
      refine (counter_past_iff (maxSerial_nonneg items) hroom).mpr ?_
      rw [heq]
      exact hready.signed n hn
    · rw [hitems] at hitems'
      cases hitems'
      exact hroom

/-! ## A small vault -/

/-- Nothing fails. -/
def Reads.fine : Reads := ⟨.ok (), fun _ => .ok (), fun _ => .ok (), .ok ()⟩

/-- A CA, a certificate that it issued, and a CSR. -/
def ownNotes : List Note :=
  [⟨"CA", some ("1", sampleCert "ca" "ca"), false⟩,
    ⟨"www", some ("2", sampleCert "www" "webserver"), false⟩, ⟨"CSR_www", none, false⟩]

theorem sound_ownNotes : ∃ db,
    rebuild sampleTimes sampleStart {} (fun _ => none) .fine ownNotes [] = some db ∧
      Sound sampleTimes {} .fine ownNotes [1, 2] db := by
  obtain ⟨db, hdb⟩ : ∃ db, rebuild sampleTimes sampleStart {} (fun _ => none) .fine ownNotes [] =
      some db := Option.isSome_iff_exists.mp (by decide)
  refine ⟨db, hdb, (sound_iff_rebuildable hdb).mpr ⟨fun _ _ _ => rfl, ?_, ?_, ?_⟩⟩
  · intro note hnote _
    simp only [ownNotes, List.mem_cons, List.not_mem_nil, or_false] at hnote
    rcases hnote with rfl | rfl | rfl <;> rfl
  · decide
  · decide

/-- A certificate of another CA, beside this one's own. -/
def externalNotes : List Note :=
  [⟨"CA", some ("1", sampleCert "ca" "ca"), false⟩,
    ⟨"EXT_partner", some ("9223372036854775806", sampleCert "partner" "external"), true⟩]

/-- The external certificate has no row in the external table. -/
theorem external_misplaced : ¬ ∀ times now config bundle reads notes given signed db,
    rebuild times now config bundle reads notes given = some db →
      Sound times config reads notes signed db := by
  intro hclaim
  obtain ⟨db, hdb⟩ : ∃ db, rebuild sampleTimes sampleStart {} (fun _ => none) .fine
      externalNotes [] = some db := Option.isSome_iff_exists.mp (by decide)
  have hsound := hclaim _ _ _ _ _ _ _ [1] db hdb
  obtain ⟨items, -, -, hexternals, -⟩ := rebuild_ok hdb
  have hone := hsound.rows _ (List.mem_cons_of_mem _ (List.mem_singleton_self _)) _ _ rfl
  unfold OneRow at hone
  rw [if_pos rfl, hexternals] at hone
  obtain ⟨⟨e, he⟩, -⟩ := hone
  cases he

end Opca.Core.Rebuild

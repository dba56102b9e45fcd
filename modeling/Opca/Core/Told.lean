/-
  Core/Told.lean --- what the rows of certificates tell of their items, and the statements
  that leave it as it is.
-/
import Opca.Core.Bundles
import Opca.Core.Lookup

set_option autoImplicit false

namespace Opca.Core

open Opca.Foundation Acme

/-- What a row tells of its certificate and of the item that holds it. -/
structure Told where
  serial : String
  cn : Option String
  title : Option String
  notBefore : Option String
  expiryDate : Option String
  deletedAt : Option String
  deriving DecidableEq, Repr

def CertRecord.told (c : CertRecord) : Told :=
  ⟨c.serial, c.cn, c.title, c.notBefore, c.expiryDate, c.deletedAt⟩

def CaDatabase.told (db : CaDatabase) : List Told := db.rows.map CertRecord.told

/-- The titles of the certificates of other CAs. -/
def CaDatabase.externalTitles (db : CaDatabase) : List (Option String) :=
  db.tables.externals.map ExternalCertRecord.title

/-- The serial that the next certificate takes. -/
def CaDatabase.nextSerial (db : CaDatabase) : String :=
  toString (db.tables.config.counter .cert)

/-- The same is told of the same certificates. -/
structure TellsSame (s t : CaDatabase) : Prop where
  told : t.told = s.told
  externals : t.externalTitles = s.externalTitles

instance : Std.Refl TellsSame := ⟨fun _ => ⟨rfl, rfl⟩⟩

instance : IsTrans CaDatabase TellsSame :=
  ⟨fun _ _ _ hab hbc => ⟨hbc.told.trans hab.told, hbc.externals.trans hab.externals⟩⟩

variable {times : OpensslTimes} {now : Time} {db : CaDatabase} {lookup : CertLookup}
  {α : Type}

theorem told_map {rows : List CertRecord} {f : CertRecord → CertRecord}
    (hf : ∀ c, (f c).told = c.told) :
    (rows.map f).map CertRecord.told = rows.map CertRecord.told := by
  rw [List.map_map]
  exact List.map_congr_left fun c _ => hf c

theorem updateCerts_tellsSame {p : CertRecord → Bool} {f : CertRecord → CertRecord}
    {hf : ∀ c, (f c).serial = c.serial} {missing : OpcaError}
    (htold : ∀ c, (f c).told = c.told) : Moves TellsSame (updateCerts p f hf missing) := by
  refine .of_step ?_ ?_
  · intro db a t h
    unfold updateCerts at h
    split at h
    · cases h
      refine ⟨told_map fun c => ?_, rfl⟩
      by_cases hp : p c
      · rw [if_pos hp]
        exact htold c
      · rw [if_neg hp]
    · cases h
  · intro db e t h
    unfold updateCerts at h
    split at h
    · cases h
    · cases h
      exact Std.Refl.refl db

theorem ignoreCert_tellsSame (serial user at_ : String) (reason : IgnoreReason)
    (note : Option String) : Moves TellsSame (ignoreCert serial reason user note at_) :=
  updateCerts_tellsSame fun _ => rfl

theorem markCertPublished_tellsSame (serial cn at_ : String) :
    Moves TellsSame (markCertPublished serial cn at_) :=
  updateCerts_tellsSame fun _ => rfl

theorem give_tellsSame (given : Given) : Moves TellsSame (give given) :=
  Moves.of_total (fun _ => rfl) fun _ => ⟨rfl, rfl⟩

theorem incrementSerial_tellsSame (kind : SerialType) (given : Option Int) :
    Moves TellsSame (incrementSerial kind given) :=
  Moves.of_total (fun _ => rfl) fun _ => ⟨rfl, rfl⟩

theorem advanceSerial_tellsSame (serial : String) : Moves TellsSame (advanceSerial serial) := by
  unfold advanceSerial
  cases parseI64 serial with
  | none => exact .pure
  | some n => exact (incrementSerial_tellsSame .cert (some n)).bind fun _ => .pure

theorem processCert_told (revokeSerial : Option String) (c : CertRecord) :
    (processCert times now revokeSerial c).told = c.told := by
  obtain ⟨_, _, h⟩ := exists_processCert times now revokeSerial c
  rw [h]
  rfl

theorem processExternal_title (c : ExternalCertRecord) :
    (processExternal times now c).title = c.title := by
  unfold processExternal
  split
  · rfl
  · split <;> rfl

theorem processCaDatabase_tellsSame (revokeSerial : Option String) (force : Bool) :
    Moves TellsSame (processCaDatabase times now revokeSerial force) := by
  have htitles (externals : List ExternalCertRecord) :
      (externals.map (processExternal times now)).map ExternalCertRecord.title =
        externals.map ExternalCertRecord.title := by
    rw [List.map_map]
    exact List.map_congr_left fun c _ => processExternal_title c
  refine .of_step ?_ ?_
  · intro db a t h
    unfold processCaDatabase at h
    split at h
    · cases h
      exact Std.Refl.refl db
    · cases h
      exact ⟨told_map (processCert_told revokeSerial), htitles _⟩
  · intro db e t h
    unfold processCaDatabase at h
    split at h <;> cases h

theorem updateBrokers_tellsSame {p : Broker → Bool} {f : Broker → Broker}
    {hf : ∀ b, (f b).id = b.id} : Moves TellsSame (updateBrokers p f hf) :=
  Moves.of_total (fun _ => rfl) fun _ => ⟨rfl, rfl⟩

theorem addBroker_tellsSame (serial : String) (domains : List String) (at_ : String) :
    Moves TellsSame (addBroker serial domains at_) :=
  Moves.of_total (fun _ => rfl) fun _ => ⟨rfl, rfl⟩

theorem revokeCertificate_tellsSame : Moves TellsSame (revokeCertificate times lookup now) := by
  refine (Moves.of_reads (certificateOf_reads lookup true)).bind fun cert => ?_
  refine (processCaDatabase_tellsSame _ _).bind fun _ => ?_
  refine updateBrokers_tellsSame.bind fun _ => ?_
  exact (give_tellsSame _).bind fun _ => .pure

theorem uploadPublished_tellsSame (serial cn at_ : String) (uploaded : Except OpcaError Unit) :
    Moves TellsSame (uploadPublished serial cn uploaded at_) := by
  refine Moves.get.bind fun _ => Moves.outcome.bind fun _ => Moves.outcome.bind fun _ => ?_
  exact markCertPublished_tellsSame _ _ _

theorem logged_tellsSame {m : DbM Unit} (h : Moves TellsSame m) :
    Moves TellsSame (logged m) := by
  refine .of_step ?_ ?_
  · intro db a t hlogged
    unfold logged at hlogged
    split at hlogged
    next hm =>
      cases hlogged
      exact (h db).ok (Std.Refl.refl db) hm
    next hm =>
      cases hlogged
      exact (h db).error (Std.Refl.refl db) hm
  · intro db e t hlogged
    unfold logged at hlogged
    split at hlogged <;> cases hlogged

theorem of_addCert_told {record : CertRecord} {a : Unit} {t : CaDatabase}
    (h : addCert record db = .ok a t) :
    t.rows = db.rows ++ [record] ∧ t.externalTitles = db.externalTitles := by
  refine ⟨(of_addCert_ok h).2, ?_⟩
  unfold addCert at h
  split at h
  next => cases h
  next =>
    cases h
    rfl

theorem addCert_error {record : CertRecord} {e : OpcaError} {t : CaDatabase}
    (h : addCert record db = .error e t) : t = db := by
  unfold addCert at h
  split at h
  next =>
    cases h
    rfl
  next => cases h

theorem addExternalCert_told {record : ExternalCertRecord} {a : Unit} {t : CaDatabase}
    (h : addExternalCert record db = .ok a t) : t.told = db.told := by
  unfold addExternalCert at h
  split at h
  · cases h
  · cases h
    rfl

theorem addExternalCert_error {record : ExternalCertRecord} {e : OpcaError} {t : CaDatabase}
    (h : addExternalCert record db = .error e t) : t = db := by
  unfold addExternalCert at h
  split at h
  · cases h
    rfl
  · cases h

/-! ## The vault beside them -/

/-- The items are the same too. -/
structure CaVault.Same (v w : CaVault) : Prop where
  told : TellsSame v.db w.db
  items : w.items = v.items

instance : Std.Refl CaVault.Same := ⟨fun _ => ⟨Std.Refl.refl _, rfl⟩⟩

instance : IsTrans CaVault CaVault.Same :=
  ⟨fun _ _ _ hab hbc => ⟨IsTrans.trans _ _ _ hab.told hbc.told, hbc.items.trans hab.items⟩⟩

theorem onVaulted_same {m : DbM α} (h : Moves TellsSame m) :
    Moves CaVault.Same (onVaulted m : CaVaultM α) :=
  Part.moves_lift h fun _ _ htold => ⟨htold, rfl⟩

theorem onVaulted_reads {m : DbM α} (h : Moves (· = ·) m) :
    Moves (· = ·) (onVaulted m : CaVaultM α) :=
  Part.moves_lift h fun v db hdb => by
    subst hdb
    rfl

/-- What is found by a title is all that has it. -/
theorem itemTitled_ensures (title : String) (answer : Except OpcaError Unit)
    (P : CaVault → Prop) :
    Ensures P (itemTitled title answer)
      (fun found v => P v ∧ v.items.named title = found.toList) P := by
  refine Ensures.bind (.outcome (fun _ _ _ hv => hv) fun _ hv => hv) fun _ => ?_
  have hget : Ensures P (MonadState.get : CaVaultM CaVault) (fun s v => P v ∧ s = v) P :=
    .get fun _ hv => ⟨hv, rfl⟩
  refine hget.bind fun s => ?_
  cases hnamed : s.items.named title with
  | nil =>
    refine .pure fun v hv => ⟨hv.1, ?_⟩
    rw [← hv.2, hnamed]
    rfl
  | cons first rest =>
    cases rest with
    | nil =>
      refine .pure fun v hv => ⟨hv.1, ?_⟩
      rw [← hv.2, hnamed]
      rfl
    | cons second rest => exact .throw fun _ hv => hv.1

theorem bundleTitled_reads (title : String) (answer : Except OpcaError Unit) :
    Moves (· = ·) (bundleTitled title answer) := by
  have hretrieve : Moves (· = ·) (retrieveCertbundle title answer : CaVaultM _) := by
    refine Moves.get.bind fun s => ?_
    cases answer <;> exact .pure
  refine hretrieve.bind fun found => ?_
  cases found with
  | none => exact .throw
  | some cert => exact .pure

/-- What a row says of its certificate is what the certificate says. -/
structure CertRecord.Matches (times : OpensslTimes) (c : CertRecord) (cert : Certificate) :
    Prop where
  serial : c.serial = cert.serial
  cn : c.cn = some (cert.attribs.cn.getD "")
  notBefore : c.notBefore = cert.attribs.notBefore
  expiry : c.expiryDate = some (times.format cert.attribs.notAfter)

/-- A row's title names its item, and no other, which holds its certificate. -/
def CertRecord.ItemIn (times : OpensslTimes) (c : CertRecord) (items : Items Fields) : Prop :=
  ∃ title item cert, c.title = some title ∧ items.find title = some item ∧
    item.content.certificate = some cert ∧ c.Matches times cert

/-- The vault has the item of every row that is not deleted. -/
def CaVault.Agrees (times : OpensslTimes) (v : CaVault) : Prop :=
  ∀ c ∈ v.db.rows, c.deletedAt = none → c.ItemIn times v.items

theorem CertRecord.ItemIn.of_told {c c' : CertRecord} {items : Items Fields}
    (h : c.ItemIn times items) (htold : c'.told = c.told) : c'.ItemIn times items := by
  obtain ⟨title, item, cert, htitle, hfind, hcert, hmatches⟩ := h
  injection htold with hserial hcn htitle' hnotBefore hexpiry hdeleted
  exact ⟨title, item, cert, htitle'.trans htitle, hfind, hcert, hserial.trans hmatches.serial,
    hcn.trans hmatches.cn, hnotBefore.trans hmatches.notBefore, hexpiry.trans hmatches.expiry⟩

/-- Agreement is about what is told and the items alone. -/
theorem CaVault.Agrees.of_told {v w : CaVault} (h : v.Agrees times)
    (htold : w.db.told = v.db.told) (hitems : w.items = v.items) : w.Agrees times := by
  intro c hc hlive
  have hmem : c.told ∈ v.db.told := by
    rw [← htold]
    exact List.mem_map_of_mem hc
  obtain ⟨old, hold, heq⟩ := List.mem_map.mp hmem
  rw [hitems]
  refine (h old hold ?_).of_told heq.symm
  exact (congrArg Told.deletedAt heq).trans hlive

/-! ## Titles and items -/

namespace CertRecord.ItemIn

variable {c c' : CertRecord} {items items' : Items Fields} {title : String}

/-- A row whose item is there has no title that names nothing. -/
theorem title_ne (h : c.ItemIn times items) (hfree : items.named title = []) :
    c.title ≠ some title := by
  obtain ⟨_, item, _, htitle, hfind, -⟩ := h
  intro heq
  rw [Option.some.inj (htitle.symm.trans heq), Items.find_eq_none_of_named hfree] at hfind
  cases hfind

/-- What leaves the items of its title leaves a row's item. -/
theorem of_named (h : c.ItemIn times items)
    (hnamed : ∀ title, c.title = some title → items'.named title = items.named title) :
    c.ItemIn times items' := by
  obtain ⟨title, item, cert, htitle, hfind, hcert, hmatches⟩ := h
  refine ⟨title, item, cert, htitle, ?_, hcert, hmatches⟩
  rw [Items.find_eq_some, hnamed title htitle]
  exact Items.find_eq_some.mp hfind

/-- A new item of another title. -/
theorem create {fields : Fields} (h : c.ItemIn times items) (hne : c.title ≠ some title) :
    c.ItemIn times (items.create title fields) := by
  refine h.of_named fun other hother => Items.named_create_of_ne fun heq => hne ?_
  rw [hother, heq]

/-- Rows of one item are of one serial. -/
theorem serial_eq (h : c.ItemIn times items) (h' : c'.ItemIn times items)
    (htitle : c.title = c'.title) : c.serial = c'.serial := by
  obtain ⟨title, item, cert, ht, hfind, hcert, hmatches⟩ := h
  obtain ⟨title', item', cert', ht', hfind', hcert', hmatches'⟩ := h'
  rw [ht, ht'] at htitle
  rw [Option.some.inj htitle, hfind'] at hfind
  rw [Option.some.inj hfind] at hcert'
  rw [hmatches.serial, hmatches'.serial, Option.some.inj (hcert.symm.trans hcert')]

end CertRecord.ItemIn

end Opca.Core

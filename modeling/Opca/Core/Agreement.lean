/-
  Core/Agreement.lean --- when the rows of certificates and the vault's items agree, over
  the runs of a CA.
-/
import Opca.Core.Told

set_option autoImplicit false

namespace Opca.Core

open Opca.Foundation Acme

variable {times : OpensslTimes} {α : Type}

/-! ## What takes new bundles -/

/-- A property of a CA and its vault that a new bundle does not break, if its title was
free. -/
structure Admits (times : OpensslTimes) (Inv : CaVault → Prop) : Prop where
  same : ∀ {v w : CaVault}, Inv v → v.Same w → Inv w
  create : ∀ {v : CaVault} {title : String} {fields : Fields}, Inv v →
    v.items.named title = [] → Inv { v with items := v.items.create title fields }
  row : ∀ {v w : CaVault} {record : CertRecord}, Inv v → record.ItemIn times v.items →
    record.deletedAt = none → w.db.rows = v.db.rows ++ [record] →
    w.db.externalTitles = v.db.externalTitles → w.items = v.items → Inv w

namespace Admits

variable {Inv : CaVault → Prop}

theorem lifted (h : Admits times Inv) {m : DbM α} (hm : Moves TellsSame m) :
    Ensures Inv (onVaulted m) (fun _ => Inv) Inv :=
  (onVaulted_same hm).keep fun _ _ => h.same

/-- An item and its row. -/
theorem storeBundle (h : Admits times Inv) {own : Bool} {record : CertRecord} {title : String}
    {fields : Fields} {stored : Except OpcaError Unit} {cert : Certificate}
    (htitle : record.title = some title) (hlive : record.deletedAt = none)
    (hcert : fields.certificate = some cert) (hmatches : record.Matches times cert) :
    Ensures (fun v => Inv v ∧ v.items.named title = [])
      (Core.storeBundle own record title fields stored (addCert record)) (fun _ => Inv)
      Inv := by
  have hcreate : Ensures (fun v => Inv v ∧ v.items.named title = [])
      (createItem title fields stored)
      (fun _ v => Inv v ∧ record.ItemIn times v.items) Inv := by
    refine Ensures.bind (.outcome (fun _ _ _ hv => hv) fun _ hv => hv.1) fun _ => ?_
    refine .modify fun v hv => ⟨h.create hv.1 hv.2, ?_⟩
    obtain ⟨item, hnamed, hcontent⟩ := @Items.named_create _ _ _ fields hv.2
    exact ⟨title, item, cert, htitle, Items.find_eq_some.mpr hnamed, hcontent ▸ hcert, hmatches⟩
  refine hcreate.bind fun _ => ?_
  have hgive : Moves TellsSame (storeCertbundle.giveItem own record) := by
    unfold storeCertbundle.giveItem
    cases own with
    | false => exact .pure
    | true => exact give_tellsSame _
  have hkeep := (onVaulted_same hgive).keep
    (P := fun v : CaVault => Inv v ∧ record.ItemIn times v.items)
    fun v w hv hsame => ⟨h.same hv.1 hsame, hsame.items ▸ hv.2⟩
  refine (hkeep.failing fun _ hv => hv.1).bind fun _ => ?_
  refine .of_cases ?_ ?_
  · intro v a w hv hadd
    obtain ⟨db, hdb, rfl⟩ := Part.of_lift_ok hadd
    obtain ⟨hrows, hexternals⟩ := of_addCert_told hdb
    exact h.row hv.1 hv.2 hlive hrows hexternals rfl
  · intro v e w hv hadd
    obtain ⟨db, hdb, rfl⟩ := Part.of_lift_error hadd
    rw [addCert_error hdb]
    exact hv.1

/-- A bundle that is issued, if the title that it is to have is free. -/
theorem issueInto (h : Admits times Inv) {making : Making} {title : String → String}
    {andThen : String → DbM Unit} (hthen : ∀ serial, Moves TellsSame (andThen serial)) :
    Ensures (fun v => Inv v ∧ v.items.named (title v.db.nextSerial) = [])
      (Core.issueInto times making title andThen) (fun _ => Inv) Inv := by
  have hissue : Ensures (fun v => Inv v ∧ v.items.named (title v.db.nextSerial) = [])
      (onVaulted (issue making.signing.signed))
      (fun serial v => Inv v ∧ v.items.named (title (toString serial)) = []) Inv := by
    intro v hv
    cases making.signing.signed with
    | error e => exact h.same hv.1 ⟨⟨rfl, rfl⟩, rfl⟩
    | ok _ => exact ⟨h.same hv.1 ⟨⟨rfl, rfl⟩, rfl⟩, hv.2⟩
  refine Ensures.bind (.outcome (fun _ _ _ hv => hv) fun _ hv => hv.1) fun _ => ?_
  refine hissue.bind fun serial => ?_
  refine Ensures.bind (h.storeBundle rfl rfl rfl ⟨rfl, rfl, rfl, rfl⟩) fun _ => ?_
  exact (h.lifted (hthen _)).bind fun _ => .pure fun _ hv => hv

end Admits

/-! ## Titles that are to be free -/

namespace BundleOperation

/-- The title of the item that an operation is to make. -/
def makes (v : CaVault) : BundleOperation → Option String
  | .generate itemTitle _ => some (bundleTitle itemTitle v.db.nextSerial)
  | .signCsr cn _ => some cn
  | .renew _ making _ | .rekey _ making _ | .signSubordinate making _ _
  | .renewSubordinate _ making _ _ _ =>
    some (bundleTitle (making.attribs.cn.getD "") v.db.nextSerial)
  | .importBundle cert title _ _ _ now =>
    if isCertValid cert now then some (Bundles.importTitle cert title)
    else some (extTitle (Bundles.importTitle cert title))
  | .rename _ _ _ | .revoke _ _ | .delete _ _ _ _ => none

end BundleOperation

namespace Admits

variable {Inv : CaVault → Prop}

/-- What only reads keeps the property and the title of the next certificate free. -/
theorem reads_free {m : CaVaultM α} (hm : Moves (· = ·) m) {name : String} :
    Ensures (fun v => Inv v ∧ v.items.named (bundleTitle name v.db.nextSerial) = []) m
      (fun _ v => Inv v ∧ v.items.named (bundleTitle name v.db.nextSerial) = []) Inv :=
  (hm.reads _).failing fun _ hv => hv.1

theorem renew (h : Admits times Inv) (lookup : CertLookup) (making : Making)
    (renewing : Renewing) :
    Ensures (fun v => Inv v ∧
        v.items.named (bundleTitle (making.attribs.cn.getD "") v.db.nextSerial) = [])
      (Bundles.renewCertificateBundle times lookup making renewing) (fun _ => Inv) Inv := by
  refine (reads_free (onVaulted_reads (certificateOf_reads lookup true))).bind fun old => ?_
  refine (reads_free (onVaulted_reads Moves.outcome)).bind fun _ => ?_
  refine (reads_free (onVaulted_reads Moves.outcome)).bind fun _ => ?_
  refine (reads_free (bundleTitled_reads _ _)).bind fun _ => ?_
  refine h.issueInto fun newSerial => (ignoreCert_tellsSame _ _ _ _ _).bind fun _ => ?_
  cases old.publishedAt.isSome with
  | false => exact .pure
  | true => exact logged_tellsSame (uploadPublished_tellsSame _ _ _ _)

theorem rekey (h : Admits times Inv) (lookup : CertLookup) (making : Making)
    (renewing : Renewing) :
    Ensures (fun v => Inv v ∧
        v.items.named (bundleTitle (making.attribs.cn.getD "") v.db.nextSerial) = [])
      (Bundles.rekeyCertificateBundle times lookup making renewing) (fun _ => Inv) Inv := by
  refine (reads_free (onVaulted_reads (certificateOf_reads lookup false))).bind fun old => ?_
  refine (reads_free (onVaulted_reads Moves.outcome)).bind fun _ => ?_
  refine (reads_free (bundleTitled_reads _ _)).bind fun _ => ?_
  exact h.issueInto fun newSerial => ignoreCert_tellsSame _ _ _ _ _

theorem signSubordinate (h : Admits times Inv) (making : Making)
    (permittedDomains : Except OpcaError (List String)) (endpoint : Option (String × String)) :
    Ensures (fun v => Inv v ∧
        v.items.named (bundleTitle (making.attribs.cn.getD "") v.db.nextSerial) = [])
      (Bundles.signSubordinate times making permittedDomains endpoint) (fun _ => Inv) Inv := by
  refine Ensures.bind (.outcome (fun _ _ _ hv => hv) fun _ hv => hv.1) fun domains => ?_
  refine h.issueInto fun serial => (give_tellsSame _).bind fun _ => ?_
  refine (addBroker_tellsSame _ _ _).bind fun id => ?_
  cases endpoint with
  | none => exact .pure
  | some at_ => exact updateBrokers_tellsSame

theorem renewSubordinate (h : Admits times Inv) (id : Int) (making : Making)
    (requested : Option (Except OpcaError (List String))) (changeDomains : Bool)
    (user : String) :
    Ensures (fun v => Inv v ∧
        v.items.named (bundleTitle (making.attribs.cn.getD "") v.db.nextSerial) = [])
      (Bundles.renewSubordinate times id making requested changeDomains user) (fun _ => Inv)
      Inv := by
  refine (reads_free (onVaulted_reads (activeBroker_reads id))).bind fun broker => ?_
  refine (reads_free (onVaulted_reads (renewalDomains_reads _ _ _))).bind fun domains => ?_
  refine h.issueInto fun newSerial => (give_tellsSame _).bind fun _ => ?_
  exact (ignoreCert_tellsSame _ _ _ _ _).bind fun _ => updateBrokers_tellsSame

theorem importLocal (h : Admits times Inv) (cert : Imported) (title : String)
    (privateKey : Option String) (stored : Except OpcaError Unit) (now : Time) :
    Ensures (fun v => Inv v ∧ v.items.named title = [])
      (Core.importLocal times cert title privateKey stored now) (fun _ => Inv) Inv := by
  have hadvance := (onVaulted_same (advanceSerial_tellsSame cert.serial)).keep
    (P := fun v : CaVault => Inv v ∧ v.items.named title = [])
    fun v w hv hsame => ⟨h.same hv.1 hsame, hsame.items ▸ hv.2⟩
  refine (hadvance.failing fun _ hv => hv.1).bind fun _ => ?_
  refine Ensures.bind (h.storeBundle rfl rfl rfl ⟨rfl, rfl, rfl, rfl⟩) fun _ => ?_
  exact .pure fun _ hv => hv

/-- A document is made only if its title is free. -/
theorem putDocument (h : Admits times Inv) (title : String) (answer : Except OpcaError Unit) :
    Ensures Inv (Core.putDocument title answer) (fun _ => Inv) Inv := by
  refine (itemTitled_ensures title answer Inv).bind fun found => ?_
  cases found with
  | some item => exact .pure fun _ hv => hv.1
  | none =>
    refine Ensures.bind (.outcome (fun _ _ _ hv => hv) fun _ hv => hv.1) fun _ => ?_
    exact .modify fun v hv => h.create hv.1 hv.2

theorem saveDatabase (h : Admits times Inv) (saved : Except OpcaError Unit) :
    Ensures Inv (Core.saveDatabase saved) (fun _ => Inv) Inv := by
  refine (h.putDocument _ _).bind fun _ => ?_
  refine Ensures.bind (.outcome (fun _ _ _ hv => hv) fun _ hv => hv) fun _ => ?_
  exact .modify fun v hv => h.same hv ⟨Std.Refl.refl _, rfl⟩

/-- Any operation that makes an item, if the title that it gives it is free; what becomes
of the certificates of other CAs is for the property to say. -/
theorem makes (h : Admits times Inv)
    (hexternal : ∀ cert title privateKey stored now,
      Ensures (fun v => Inv v ∧ v.items.named (extTitle title) = [])
        (importExternal times cert title privateKey stored now) (fun _ => Inv) Inv)
    (op : BundleOperation) :
    Ensures (fun v => Inv v ∧ ∃ title, op.makes v = some title ∧ v.items.named title = [])
      (op.body times) (fun _ => Inv) Inv := by
  have hmade {m : CaVaultM Issued} {title : CaVault → String}
      (hm : Ensures (fun v => Inv v ∧ v.items.named (title v) = []) m (fun _ => Inv) Inv) :
      Ensures (fun v => Inv v ∧ ∃ t, some (title v) = some t ∧ v.items.named t = []) m
        (fun _ => Inv) Inv := by
    refine hm.imp (fun v hv => ⟨hv.1, ?_⟩) (fun _ _ hv => hv) (fun _ hv => hv)
    obtain ⟨t, ht, hfree⟩ := hv.2
    rwa [Option.some.inj ht]
  cases op with
  | generate itemTitle making => exact hmade (h.issueInto fun _ => .pure)
  | signCsr cn making =>
    exact @hmade _ (fun _ => cn) (@issueInto _ _ h making (fun _ => cn) _ fun _ => .pure)
  | renew lookup making renewing => exact hmade (h.renew lookup making renewing)
  | rekey lookup making renewing => exact hmade (h.rekey lookup making renewing)
  | signSubordinate making permittedDomains endpoint =>
    exact hmade (h.signSubordinate making permittedDomains endpoint)
  | renewSubordinate id making requested changeDomains user =>
    exact hmade (h.renewSubordinate id making requested changeDomains user)
  | importBundle cert title privateKey read stored now =>
    refine Ensures.bind (.outcome (fun _ _ _ hv => hv) fun _ hv => hv.1) fun _ => ?_
    simp only [BundleOperation.makes]
    split
    · exact @hmade _ (fun _ => Bundles.importTitle cert title)
        (h.importLocal cert _ privateKey stored now)
    · exact @hmade _ (fun _ => extTitle (Bundles.importTitle cert title))
        (hexternal cert _ privateKey stored now)
  | rename | revoke | delete =>
    intro v hv
    obtain ⟨-, _, hnone, -⟩ := hv
    cases hnone

end Admits

/-! ## Agreement -/

theorem agrees_admits : Admits times (CaVault.Agrees times) where
  same h hsame := h.of_told hsame.told.told hsame.items
  create h hfree := fun c hc hlive => (h c hc hlive).create ((h c hc hlive).title_ne hfree)
  row h hitem _ hrows _ hitems := by
    intro c hc hlive
    rw [hitems]
    rw [hrows] at hc
    rcases List.mem_append.mp hc with hc | hc
    · exact h c hc hlive
    · rw [List.mem_singleton.mp hc]
      exact hitem

/-- An item of another CA's certificate is nothing to the rows, if none has its title. -/
theorem importExternal_agrees (cert : Imported) (title : String) (privateKey : Option String)
    (stored : Except OpcaError Unit) (now : Time) :
    Ensures (fun v : CaVault => v.Agrees times ∧ ∀ c ∈ v.db.rows, c.deletedAt = none →
        c.title ≠ some (extTitle title))
      (importExternal times cert title privateKey stored now)
      (fun _ => CaVault.Agrees times) (CaVault.Agrees times) := by
  have hcreate {fields : Fields} : Ensures (fun v : CaVault => v.Agrees times ∧ ∀ c ∈ v.db.rows,
      c.deletedAt = none → c.title ≠ some (extTitle title))
      (createItem (extTitle title) fields stored) (fun _ => CaVault.Agrees times)
      (CaVault.Agrees times) := by
    refine Ensures.bind (.outcome (fun _ _ _ hv => hv) fun _ hv => hv.1) fun _ => ?_
    exact .modify fun v hv c hc hlive => (hv.1 c hc hlive).create (hv.2 c hc hlive)
  refine Ensures.bind (hcreate.bind fun _ => ?_) fun _ => .pure fun _ hv => hv
  refine Ensures.bind (agrees_admits.lifted ?_) fun _ => ?_
  · unfold storeCertbundle.giveItem
    cases cert.verified with
    | false => exact .pure
    | true => exact give_tellsSame _
  · refine .of_cases ?_ ?_
    · intro v a w hv hadd
      obtain ⟨db, hdb, rfl⟩ := Part.of_lift_ok hadd
      exact hv.of_told (addExternalCert_told hdb) rfl
    · intro v e w hv hadd
      obtain ⟨db, hdb, rfl⟩ := Part.of_lift_error hadd
      rw [addExternalCert_error hdb]
      exact hv

theorem importExternal_agrees_free (cert : Imported) (title : String)
    (privateKey : Option String) (stored : Except OpcaError Unit) (now : Time) :
    Ensures (fun v : CaVault => v.Agrees times ∧ v.items.named (extTitle title) = [])
      (importExternal times cert title privateKey stored now)
      (fun _ => CaVault.Agrees times) (CaVault.Agrees times) :=
  (importExternal_agrees cert title privateKey stored now).imp
    (fun _ hv => ⟨hv.1, fun c hc hlive => (hv.1 c hc hlive).title_ne hv.2⟩)
    (fun _ _ hv => hv) (fun _ hv => hv)

/-! ## Renaming -/

/-- What a rename asks for: the new title is the old one, or it is free and the row that
the old one finds is not deleted; for a row that is, no other is to have either title. -/
def RenameFits (v : CaVault) (srcTitle dstTitle : String) : Prop :=
  srcTitle = dstTitle ∨ ∀ found ∈ v.db.found (.title srcTitle) false,
    if found.deletedAt = none then v.items.named dstTitle = []
    else ∀ c ∈ v.db.rows, c.deletedAt = none →
      c.title ≠ some srcTitle ∧ c.title ≠ some dstTitle

/-- The row that is renamed is the first of its title. -/
theorem of_found_title {db : CaDatabase} {title : String} {found : CertRecord}
    (h : db.found (.title title) false = some found) :
    found ∈ db.rows ∧ found.title = some title := by
  have hfinds := List.find?_some h
  refine ⟨List.mem_of_find?_eq_some h, ?_⟩
  simpa [CertLookup.finds] using hfinds

theorem named_edit_self {items : Items Fields} {title other : String}
    {item : Foundation.Item Fields} (h : items.named title = [item]) :
    (items.edit item.id (fun _ => title) id).named other = items.named other := by
  obtain ⟨hitem, htitle, honly⟩ := Items.named_eq_singleton.mp h
  by_cases heq : other = title
  · subst heq
    rw [h, Items.named_edit hitem rfl honly]
    exact congrArg (fun t => [(⟨item.id, t, item.content⟩ : Foundation.Item Fields)]) htitle.symm
  · refine Items.named_edit_of_ne hitem (fun hne => heq ?_) (fun hne => heq hne.symm)
    rw [← hne, htitle]

theorem renamed_agrees {v w : CaVault} {srcTitle dstTitle : String} {found : CertRecord}
    {item : Foundation.Item Fields} (h : v.Agrees times)
    (hfits : RenameFits v srcTitle dstTitle)
    (hfound : v.db.found (.title srcTitle) false = some found)
    (hitem : v.items.named srcTitle = [item])
    (hitems : w.items = v.items.edit item.id (fun _ => dstTitle) id)
    (hrows : w.db.rows = v.db.rows.map fun c =>
      if c.serial = found.serial then { c with title := some dstTitle } else c) :
    w.Agrees times := by
  obtain ⟨hmem, htitle⟩ := of_found_title hfound
  obtain ⟨hin, hitemTitle, honly⟩ := Items.named_eq_singleton.mp hitem
  intro c' hc' hlive
  rw [hrows] at hc'
  rw [hitems]
  obtain ⟨c, hc, rfl⟩ := List.mem_map.mp hc'
  rcases hfits with rfl | hfits
  · -- The title stays as it is.
    by_cases hserial : c.serial = found.serial
    · obtain rfl : c = found := CaDatabase.row_unique hc hmem hserial
      rw [if_pos rfl] at hlive ⊢
      refine ((h c hc hlive).of_named fun _ _ => named_edit_self hitem).of_told ?_
      unfold CertRecord.told
      rw [htitle]
    · rw [if_neg hserial] at hlive ⊢
      exact (h c hc hlive).of_named fun _ _ => named_edit_self hitem
  · have hfits := hfits found hfound
    by_cases hserial : c.serial = found.serial
    · obtain rfl : c = found := CaDatabase.row_unique hc hmem hserial
      rw [if_pos rfl] at hlive ⊢
      rw [if_pos hlive] at hfits
      obtain ⟨title, held, cert, ht, hfind, hcert, hmatches⟩ := h c hc hlive
      rw [Option.some.inj (htitle.symm.trans ht)] at hitem
      obtain rfl : held = item := by
        rw [Items.find_eq_some.mp hfind] at hitem
        exact List.singleton_inj.mp hitem
      refine ⟨dstTitle, ⟨held.id, dstTitle, held.content⟩, cert, rfl, ?_, hcert,
        hmatches.serial, hmatches.cn, hmatches.notBefore, hmatches.expiry⟩
      refine Items.find_eq_some.mpr (Items.named_edit hin rfl fun other hother heq => ?_)
      have hnone := Items.mem_named.mpr ⟨hother, heq⟩
      rw [hfits] at hnone
      cases hnone
    · rw [if_neg hserial] at hlive ⊢
      have hother : c.title ≠ some srcTitle ∧ c.title ≠ some dstTitle := by
        split at hfits
        next hfoundLive =>
          refine ⟨fun heq => hserial ?_, (h c hc hlive).title_ne hfits⟩
          exact (h c hc hlive).serial_eq (h found hmem hfoundLive) (heq.trans htitle.symm)
        next => exact hfits c hc hlive
      refine (h c hc hlive).of_named fun title ht => Items.named_edit_of_ne hin ?_ ?_
      · intro heq
        exact hother.1 (ht.trans (congrArg some (heq.symm.trans hitemTitle)))
      · intro heq
        exact hother.2 (ht.trans (congrArg some heq.symm))

/-! ## Rows that are changed -/

/-- Changing rows that are there does not fail. -/
theorem updateCerts_ensures {p : CertRecord → Bool} {f : CertRecord → CertRecord}
    {hf : ∀ c, (f c).serial = c.serial} {missing : OpcaError} {pre post failed : CaVault → Prop}
    (hsome : ∀ v, pre v → ∃ c ∈ v.db.rows, p c = true)
    (hpost : ∀ v w : CaVault, pre v →
      w.db.rows = v.db.rows.map (fun c => if p c then f c else c) → w.items = v.items → post w) :
    Ensures pre (onVaulted (updateCerts p f hf missing)) (fun _ => post) failed := by
  intro v hv
  obtain ⟨c, hc, hp⟩ := hsome v hv
  have hany : v.db.tables.certificates.rows.any p = true := List.any_eq_true.mpr ⟨c, hc, hp⟩
  have hrun : updateCerts p f hf missing (database.get v) = _ := if_pos hany
  rw [show onVaulted (updateCerts p f hf missing) v = _ from Part.lift_ok hrun]
  exact hpost v _ hv rfl rfl

theorem renameCertbundle_agrees (srcTitle dstTitle : String) (renamed : Except OpcaError Unit) :
    Ensures (fun v : CaVault => v.Agrees times ∧ RenameFits v srcTitle dstTitle)
      (Bundles.renameCertbundle srcTitle dstTitle renamed) (fun _ => CaVault.Agrees times)
      (CaVault.Agrees times) := by
  have hquery : Ensures (fun v : CaVault => v.Agrees times ∧ RenameFits v srcTitle dstTitle)
      (onVaulted (queryCert (.title srcTitle) false))
      (fun found v => (v.Agrees times ∧ RenameFits v srcTitle dstTitle) ∧
        v.db.found (.title srcTitle) false = found) (CaVault.Agrees times) :=
    fun v hv => ⟨hv, rfl⟩
  refine hquery.bind fun found => ?_
  cases found with
  | none => exact .throw fun _ hv => hv.1.1
  | some record =>
    -- The vault as it was before its item was renamed.
    have hitem : Ensures (fun v : CaVault => (v.Agrees times ∧ RenameFits v srcTitle dstTitle) ∧
          v.db.found (.title srcTitle) false = some record)
        (renameItem srcTitle dstTitle renamed)
        (fun _ w => ∃ (v : CaVault) (item : Foundation.Item Fields),
          (v.Agrees times ∧ RenameFits v srcTitle dstTitle) ∧
          v.db.found (.title srcTitle) false = some record ∧ v.items.named srcTitle = [item] ∧
          w.db = v.db ∧ w.items = v.items.edit item.id (fun _ => dstTitle) id)
        (CaVault.Agrees times) := by
      have hfind := (itemTitled_ensures srcTitle renamed fun v : CaVault =>
        (v.Agrees times ∧ RenameFits v srcTitle dstTitle) ∧
          v.db.found (.title srcTitle) false = some record).failing
        (fun _ hv => hv.1.1)
      refine hfind.bind fun named => ?_
      cases named with
      | none => exact .throw fun _ hv => hv.1.1.1
      | some item => exact .modify fun v hv => ⟨v, item, hv.1.1, hv.1.2, hv.2, rfl, rfl⟩
    refine hitem.bind fun _ => ?_
    refine Ensures.bind (updateCerts_ensures ?_ ?_) fun _ => .pure fun _ hv => hv
    · rintro w ⟨v, item, _, hfound, _, hdb, _⟩
      rw [hdb]
      exact ⟨record, (of_found_title hfound).1, decide_eq_true rfl⟩
    · rintro w w' ⟨v, item, ⟨hagrees, hfits⟩, hfound, hnamed, hdb, hitems⟩ hrows hitems'
      refine renamed_agrees hagrees hfits hfound hnamed (hitems'.trans hitems) ?_
      rw [hrows, hdb]
      simp only [decide_eq_true_eq]

/-! ## Deleting -/

/-- The row of a serial is there, and the items of all others are. -/
structure CaVault.AgreesBeside (times : OpensslTimes) (serial : String) (v : CaVault) : Prop where
  row : ∃ c ∈ v.db.rows, c.serial = serial ∧ c.deletedAt = none
  beside : ∀ c ∈ v.db.rows, c.deletedAt = none → c.serial ≠ serial → c.ItemIn times v.items

/-- What is told of a row is told of a row that was there. -/
theorem exists_of_told {db db' : CaDatabase} (htold : db'.told = db.told) {c : CertRecord}
    (hc : c ∈ db'.rows) : ∃ c' ∈ db.rows, c'.told = c.told := by
  have hmem : c.told ∈ db.told := by
    rw [← htold]
    exact List.mem_map_of_mem hc
  exact List.mem_map.mp hmem

theorem CaVault.AgreesBeside.of_told {serial : String} {v w : CaVault}
    (h : v.AgreesBeside times serial) (htold : w.db.told = v.db.told)
    (hitems : w.items = v.items) : w.AgreesBeside times serial where
  row := by
    obtain ⟨c, hc, hserial, hlive⟩ := h.row
    obtain ⟨c', hc', heq⟩ := exists_of_told htold.symm hc
    injection heq with hserial' _ _ _ _ hdeleted
    exact ⟨c', hc', hserial'.trans hserial, hdeleted.trans hlive⟩
  beside := by
    intro c hc hlive hne
    obtain ⟨c', hc', heq⟩ := exists_of_told htold hc
    have hserial : c'.serial = c.serial := congrArg Told.serial heq
    have hdeleted : c'.deletedAt = c.deletedAt := congrArg Told.deletedAt heq
    rw [hitems]
    refine (h.beside c' hc' (hdeleted.trans hlive) ?_).of_told heq.symm
    rwa [hserial]

/-- The only row that an archived item leaves without one is its own. -/
theorem archiveItem_agrees {cert : CertRecord} (archived : Except OpcaError Unit) :
    Ensures (fun v : CaVault => v.Agrees times ∧ cert ∈ v.db.rows ∧ cert.deletedAt = none)
      (cert.title.forM (archiveItem · archived))
      (fun _ => CaVault.AgreesBeside times cert.serial) (CaVault.Agrees times) := by
  cases htitle : cert.title with
  | none =>
    refine .pure fun v hv => ?_
    obtain ⟨title, _, _, heq, -⟩ := hv.1 cert hv.2.1 hv.2.2
    rw [htitle] at heq
    cases heq
  | some title =>
    have hfind := (itemTitled_ensures title archived fun v : CaVault =>
      v.Agrees times ∧ cert ∈ v.db.rows ∧ cert.deletedAt = none).failing
      (fun _ hv => hv.1)
    refine hfind.bind fun named => ?_
    cases named with
    | none =>
      refine .pure fun v hv => ?_
      exact absurd htitle ((hv.1.1 cert hv.1.2.1 hv.1.2.2).title_ne hv.2)
    | some item =>
      refine .modify fun v hv => ?_
      obtain ⟨⟨hagrees, hcert, hlive⟩, hnamed⟩ := hv
      obtain ⟨hin, hitemTitle, -⟩ := Items.named_eq_singleton.mp hnamed
      refine ⟨⟨cert, hcert, rfl, hlive⟩, fun c hc hclive hne => ?_⟩
      have hother : c.title ≠ some title := fun heq =>
        hne ((hagrees c hc hclive).serial_eq (hagrees cert hcert hlive) (heq.trans htitle.symm))
      refine (hagrees c hc hclive).of_named fun other ht => Items.named_remove_of_ne hin ?_
      rw [hitemTitle]
      intro heq
      exact hother (ht.trans (congrArg some heq.symm))

theorem ignoreDeleted_agreesBeside {serial user at_ : String} {cert : CertRecord}
    {failed : CaVault → Prop} :
    Ensures (CaVault.AgreesBeside times serial)
      (onVaulted (deleteCertificate.ignoreDeleted serial cert user at_))
      (fun _ => CaVault.AgreesBeside times serial) failed := by
  unfold deleteCertificate.ignoreDeleted
  split
  · refine updateCerts_ensures (fun v hv => ?_) fun v w hv hrows hitems => ?_
    · obtain ⟨c, hc, hserial, -⟩ := hv.row
      exact ⟨c, hc, decide_eq_true hserial⟩
    · refine hv.of_told ?_ hitems
      unfold CaDatabase.told
      rw [hrows]
      refine told_map fun c => ?_
      split <;> rfl
  · exact fun v hv => hv

theorem markCertDeleted_agrees {serial at_ : String} {failed : CaVault → Prop} :
    Ensures (CaVault.AgreesBeside times serial) (onVaulted (markCertDeleted serial at_))
      (fun _ => CaVault.Agrees times) failed := by
  refine updateCerts_ensures (fun v hv => ?_) fun v w hv hrows hitems => ?_
  · obtain ⟨c, hc, hserial, hlive⟩ := hv.row
    refine ⟨c, hc, ?_⟩
    rw [hserial, hlive]
    simp
  · intro c' hc' hlive'
    rw [hrows] at hc'
    rw [hitems]
    obtain ⟨c, hc, rfl⟩ := List.mem_map.mp hc'
    by_cases hp : (decide (c.serial = serial) && c.deletedAt.isNone) = true
    · rw [if_pos hp] at hlive'
      cases hlive'
    · rw [if_neg hp] at hlive' ⊢
      refine hv.beside c hc hlive' fun hserial => hp ?_
      rw [hserial, hlive']
      simp

theorem deleteCertificate_agrees (serial : String) (archived : Except OpcaError Unit)
    (user : String) (now : Time) :
    Ensures (CaVault.Agrees times) (Bundles.deleteCertificate times serial archived user now)
      (fun _ => CaVault.Agrees times) (CaVault.Agrees times) := by
  refine (agrees_admits.lifted (processCaDatabase_tellsSame none true)).bind fun _ => ?_
  have hquery : Ensures (CaVault.Agrees times) (onVaulted (queryCert (.serial serial) false))
      (fun found v => v.Agrees times ∧ ∀ c ∈ found, c ∈ v.db.rows ∧ c.serial = serial)
      (CaVault.Agrees times) := by
    intro v hv
    refine ⟨hv, fun c hc => ⟨List.mem_of_find?_eq_some hc, ?_⟩⟩
    have hfinds := List.find?_some hc
    simpa [CertLookup.finds] using hfinds
  refine hquery.bind fun found => ?_
  cases hfound : found.filter (·.deletedAt.isNone) with
  | none => exact .throw fun _ hv => hv.1
  | some cert =>
    obtain ⟨hcert, hlive⟩ := Option.filter_eq_some_iff.mp hfound
    have hrequired {p : Prop} [Decidable p] {e : OpcaError} :
        Ensures (fun v : CaVault => v.Agrees times ∧ ∀ c ∈ found, c ∈ v.db.rows ∧ c.serial = serial)
          (onVaulted (require p e))
          (fun _ v => v.Agrees times ∧ ∀ c ∈ found, c ∈ v.db.rows ∧ c.serial = serial)
          (CaVault.Agrees times) :=
      ((onVaulted_reads Moves.outcome).reads _).failing fun _ hv => hv.1
    refine hrequired.bind fun _ => hrequired.bind fun _ => ?_
    have harchive : Ensures
        (fun v : CaVault => v.Agrees times ∧ ∀ c ∈ found, c ∈ v.db.rows ∧ c.serial = serial)
        (cert.title.forM (archiveItem · archived))
        (fun _ => CaVault.AgreesBeside times serial) (CaVault.Agrees times) := by
      refine .of_cases ?_ ?_
      · intro v a w hv hrun
        obtain ⟨hmem, rfl⟩ := hv.2 cert hcert
        exact (archiveItem_agrees archived).ok ⟨hv.1, hmem, Option.isNone_iff_eq_none.mp hlive⟩ hrun
      · intro v e w hv hrun
        obtain ⟨hmem, -⟩ := hv.2 cert hcert
        exact (archiveItem_agrees archived).error
          ⟨hv.1, hmem, Option.isNone_iff_eq_none.mp hlive⟩ hrun
    refine harchive.bind fun _ => ignoreDeleted_agreesBeside.bind fun _ => ?_
    exact markCertDeleted_agrees.bind fun _ => .pure fun _ hv => hv

/-! ## Signing again -/

theorem putCertificate_agrees {title : String} {cert : Certificate}
    (edited : Except OpcaError Unit) :
    Ensures (fun v : CaVault => v.Agrees times ∧
        ∀ c ∈ v.db.rows, c.deletedAt = none → c.title = some title → c.Matches times cert)
      (putCertificate title cert edited) (fun _ => CaVault.Agrees times)
      (CaVault.Agrees times) := by
  have hfind := (itemTitled_ensures title edited fun v : CaVault => v.Agrees times ∧
    ∀ c ∈ v.db.rows, c.deletedAt = none → c.title = some title → c.Matches times cert).failing
    (fun _ hv => hv.1)
  refine hfind.bind fun named => ?_
  cases named with
  | none => exact .throw fun _ hv => hv.1.1
  | some item =>
    refine .modify fun v hv c hc hlive => ?_
    obtain ⟨⟨hagrees, hmatches⟩, hnamed⟩ := hv
    obtain ⟨hin, hitemTitle, honly⟩ := Items.named_eq_singleton.mp hnamed
    by_cases htitle : c.title = some title
    · refine ⟨title, _, cert, htitle, Items.find_eq_some.mpr (Items.named_edit hin ?_ ?_), rfl,
        hmatches c hc hlive htitle⟩
      · exact hitemTitle
      · exact honly
    · refine (hagrees c hc hlive).of_named fun other hother => ?_
      have hne : item.title ≠ other := by
        rw [hitemTitle]
        intro heq
        exact htitle (hother.trans (congrArg some heq.symm))
      exact Items.named_edit_of_ne hin hne hne

/-- What the CA's row says when the CA is signed again. -/
def ReSignFits (times : OpensslTimes) (s : CaSession) (notBefore : String)
    (notAfter : Asn1Time) : Prop :=
  ∀ c ∈ s.vault.db.rows, c.deletedAt = none → c.title = some caTitle →
    c.serial = s.caCert.serial ∧ c.cn = some (s.caCert.attribs.cn.getD "") ∧
      c.notBefore = some notBefore ∧ c.expiryDate = some (times.format notAfter)

/-! ## Any operation -/

/-- What an operation asks of the vault: that the title it gives an item is free, and for
an item that gets no row, that no row has the title. -/
def BundleOperation.Fits (v : CaVault) (op : BundleOperation) : Prop :=
  match op with
  | .importBundle cert title _ _ _ now =>
    if isCertValid cert now then v.items.named (Bundles.importTitle cert title) = []
    else ∀ c ∈ v.db.rows, c.deletedAt = none →
      c.title ≠ some (extTitle (Bundles.importTitle cert title))
  | .rename srcTitle dstTitle _ => RenameFits v srcTitle dstTitle
  | op => ∀ title ∈ op.makes v, v.items.named title = []

/-- And to sign the CA again, that its row has the dates already. -/
def CaDeed.Fits (times : OpensslTimes) (s : CaSession) : CaDeed → Prop
  | .bundle op _ => op.Fits s.vault
  | .renameUnsaved srcTitle dstTitle _ => RenameFits s.vault srcTitle dstTitle
  | .reSignCa notBefore notAfter _ _ _ => ReSignFits times s notBefore notAfter

instance (v : CaVault) (srcTitle dstTitle : String) :
    Decidable (RenameFits v srcTitle dstTitle) := by
  unfold RenameFits
  infer_instance

instance (v : CaVault) (op : BundleOperation) : Decidable (op.Fits v) := by
  unfold BundleOperation.Fits
  cases op <;> infer_instance

instance (s : CaSession) (notBefore : String) (notAfter : Asn1Time) :
    Decidable (ReSignFits times s notBefore notAfter) := by
  unfold ReSignFits
  infer_instance

instance (s : CaSession) (deed : CaDeed) : Decidable (deed.Fits times s) := by
  unfold CaDeed.Fits
  cases deed <;> infer_instance

theorem body_agrees (op : BundleOperation) :
    Ensures (fun v : CaVault => v.Agrees times ∧ op.Fits v) (op.body times)
      (fun _ => CaVault.Agrees times) (CaVault.Agrees times) := by
  cases op with
  | importBundle cert title privateKey read stored now =>
    refine Ensures.bind (.outcome (fun _ _ _ hv => hv) fun _ hv => hv.1) fun _ => ?_
    simp only [BundleOperation.Fits]
    split
    · exact agrees_admits.importLocal cert _ privateKey stored now
    · exact importExternal_agrees cert _ privateKey stored now
  | rename srcTitle dstTitle renamed => exact renameCertbundle_agrees srcTitle dstTitle renamed
  | revoke lookup now =>
    exact (agrees_admits.lifted revokeCertificate_tellsSame).imp (fun _ hv => hv.1)
      (fun _ _ hv => hv) (fun _ hv => hv)
  | delete serial archived user now =>
    exact (deleteCertificate_agrees serial archived user now).imp (fun _ hv => hv.1)
      (fun _ _ hv => hv) (fun _ hv => hv)
  | _ =>
    exact (agrees_admits.makes importExternal_agrees_free _).imp
      (fun _ hv => ⟨hv.1, _, rfl, hv.2 _ rfl⟩) (fun _ _ hv => hv) (fun _ hv => hv)

/-- What the vault's computation keeps, from what is asked of the whole. -/
theorem besideCaCert_ensures {Inv fits : CaVault → Prop} {m : CaVaultM α}
    (h : Ensures (fun v => Inv v ∧ fits v) m (fun _ => Inv) Inv) :
    Ensures (fun s : CaSession => Inv s.vault ∧ fits s.vault) (besideCaCert.lift m)
      (fun _ s => Inv s.vault) (fun s => Inv s.vault) := by
  refine Part.ensures_lift fun s hs => h.imp ?_ (fun _ _ hv => hv) (fun _ hv => hv)
  rintro v rfl
  exact hs

theorem run_agrees (deed : CaDeed) :
    Ensures (fun s : CaSession => s.vault.Agrees times ∧ deed.Fits times s) (deed.run times)
      (fun _ s => s.vault.Agrees times) (fun s => s.vault.Agrees times) := by
  cases deed with
  | bundle op saved =>
    exact besideCaCert_ensures ((body_agrees op).bind fun _ => agrees_admits.saveDatabase saved)
  | renameUnsaved srcTitle dstTitle renamed =>
    exact besideCaCert_ensures
      ((renameCertbundle_agrees srcTitle dstTitle renamed).bind fun _ => .pure fun _ hv => hv)
  | reSignCa notBefore notAfter signed edited saved =>
    refine Ensures.bind (.outcome (fun _ _ _ hs => hs) fun _ hs => hs.1) fun _ => ?_
    intro s hs
    refine besideCaCert_ensures ((putCertificate_agrees edited).bind fun _ =>
      agrees_admits.saveDatabase saved) _ ⟨hs.1, fun c hc hlive htitle => ?_⟩
    obtain ⟨hserial, hcn, hnotBefore, hexpiry⟩ := hs.2 c hc hlive htitle
    exact ⟨hserial, hcn, hnotBefore, hexpiry⟩

/-! ## Every run -/

/-- What a founding establishes, from what storing the CA's bundle does once no item has its
title. -/
theorem establish_ensures {now : Time} {keys : CaKeys} {looked saved : Except OpcaError Unit}
    {pre untitled post failed : CaVault → Prop}
    (hlook : Ensures pre (itemTitled caTitle looked)
      (fun found v => failed v ∧ (found = none → untitled v)) failed)
    (hfail : ∀ v, untitled v → failed v)
    (hsame : ∀ v w, untitled v → CaVault.Same v w → untitled w)
    (hstore : ∀ cert serial stored,
      Ensures untitled (storeCaBundle times now cert serial keys stored saved) (fun _ => post)
        failed)
    (founding : Founding) :
    Ensures pre (founding.establish times now keys looked saved) (fun _ => post) failed := by
  have hkeep {β : Type} {m : DbM β} (hm : Moves TellsSame m) :
      Ensures untitled (onVaulted m) (fun _ => untitled) failed :=
    ((onVaulted_same hm).keep hsame).failing hfail
  refine hlook.bind fun found => ?_
  cases found with
  | some item => exact .throw fun _ hv => hv.1
  | none =>
    refine (?_ : Ensures untitled _ _ _).imp (fun _ hv => hv.2 rfl) (fun _ _ hv => hv)
      (fun _ hv => hv)
    cases founding with
    | init config cert signed stored =>
      refine Ensures.bind (.outcome (fun _ _ _ hv => hv) hfail) fun _ => ?_
      refine (hkeep (incrementSerial_tellsSame _ _)).bind fun serial => ?_
      exact (hkeep (give_tellsSame _)).bind fun _ => hstore _ _ _
    | importCa config cert read stored =>
      exact Ensures.bind (.outcome (fun _ _ _ hv => hv) hfail) fun _ => hstore _ _ _

theorem establish_agrees (now : Time) (keys : CaKeys) (looked saved : Except OpcaError Unit)
    (founding : Founding) :
    Ensures (CaVault.Agrees times) (founding.establish times now keys looked saved)
      (fun _ => CaVault.Agrees times) (CaVault.Agrees times) := by
  have hfail : ∀ v : CaVault, v.Agrees times ∧ v.items.named caTitle = [] → v.Agrees times :=
    fun _ hv => hv.1
  refine establish_ensures ?_ hfail ?_ ?_ founding
  · refine (itemTitled_ensures caTitle looked (CaVault.Agrees times)).imp (fun _ hv => hv)
      (fun found v hv => ⟨hv.1, ?_⟩) (fun _ hv => hv)
    rintro rfl
    exact hv
  · intro v w hv hsame
    exact ⟨hv.1.of_told hsame.told.told hsame.items, hsame.items ▸ hv.2⟩
  · intro cert serial stored
    refine Ensures.bind (agrees_admits.storeBundle rfl rfl rfl ⟨rfl, rfl, rfl, rfl⟩) fun _ => ?_
    exact (agrees_admits.saveDatabase saved).bind fun _ => .pure fun _ hv => hv

theorem session_agrees {now : Time} {keys : CaKeys} {looked saved : Except OpcaError Unit}
    {items : Items Fields} {founding : Founding} {s : CaSession}
    (h : founding.session times now keys looked saved items = some s) :
    s.vault.Agrees times := by
  unfold Founding.session at h
  dsimp only at h
  split at h
  next caCert vault hrun =>
    cases h
    exact (establish_agrees now keys looked saved founding).ok (fun c hc => by cases hc) hrun
  next => cases h

/-- The rows that are not deleted and the items agree after any run whose operations fit. -/
theorem rowsMatchItems {s : CaSession}
    (h : ((caMachine times).system.restrict (CaDeed.Fits times)).Reachable s) :
    s.vault.Agrees times := by
  induction h with
  | init hinit =>
    obtain ⟨now, keys, looked, saved, items, founding, hsession⟩ := hinit
    exact session_agrees hsession
  | step _ hstep ih =>
    obtain ⟨hfits, hnext⟩ := hstep
    cases hnext
    exact (run_agrees _).final ⟨ih, hfits⟩

/-- A CA in a vault that was empty. -/
def sampleSession : Option CaSession :=
  sampleFounding.session sampleTimes sampleStart ⟨none, none⟩ (.ok ()) (.ok ()) .empty

theorem sampleSession_init (h : sampleSession.isSome) :
    (caMachine sampleTimes).init (sampleSession.get h) :=
  ⟨_, _, _, _, _, _, (Option.some_get h).symm⟩

def sampleMaking : Making :=
  ⟨sampleCert "www" "webserver", none, none, ⟨.ok (), .ok (), .ok ()⟩, sampleStart⟩

/-- A certificate that is issued and renamed, and another that is revoked and deleted. -/
theorem rowsMatchItems_renamed : ∃ s : CaSession,
    s.vault.db.rows.map (fun c => (c.title, c.deletedAt.isSome)) =
      [(some "CA", false), (some "web", false), (some "CRT_3_www", true)] ∧
    s.vault.Agrees sampleTimes := by
  obtain ⟨s, hs, hview⟩ := @Machine.exists_reachable_of_exec_guard _ _ (caMachine sampleTimes)
    (fun s deed => decide (deed.Fits sampleTimes s)) (CaDeed.Fits sampleTimes)
    (fun _ _ => of_decide_eq_true) _ (sampleSession_init (by decide))
    [.bundle (.generate "www" sampleMaking) (.ok ()), .renameUnsaved "CRT_2_www" "web" (.ok ()),
      .bundle (.generate "www" sampleMaking) (.ok ()),
      .bundle (.revoke (.serial "3") sampleStart) (.ok ()),
      .bundle (.delete "3" (.ok ()) "operator" sampleStart) (.ok ())]
    (fun s => s.vault.db.rows.map (fun c => (c.title, c.deletedAt.isSome)) =
      [(some "CA", false), (some "web", false), (some "CRT_3_www", true)])
    (by decide)
  exact ⟨s, of_decide_eq_true hview, rowsMatchItems hs⟩

/-- What a CA is asked to do succeeds. -/
def CaDeed.Succeeds (times : OpensslTimes) (s : CaSession) (deed : CaDeed) : Prop :=
  returned (deed.run times s) = true

/-- A row and the certificate of its item are of different dates. -/
def CaVault.datesDiffer (v : CaVault) (c : CertRecord) : Bool :=
  c.deletedAt.isNone && (c.title.bind v.items.find).any fun item =>
    item.content.certificate.any fun cert => c.notBefore ≠ cert.attribs.notBefore

theorem not_agrees_of_datesDiffer {v : CaVault} (h : v.db.rows.any v.datesDiffer = true) :
    ¬ v.Agrees times := by
  intro hagrees
  obtain ⟨c, hc, hdiffer⟩ := List.any_eq_true.mp h
  unfold CaVault.datesDiffer at hdiffer
  obtain ⟨hlive, hdiffer⟩ := Bool.and_eq_true_iff.mp hdiffer
  obtain ⟨title, item, cert, htitle, hfind, hcert, hmatches⟩ :=
    hagrees c hc (Option.isNone_iff_eq_none.mp hlive)
  rw [htitle, Option.bind_some, hfind, Option.any_some, hcert, Option.any_some,
    decide_eq_true_eq] at hdiffer
  exact hdiffer hmatches.notBefore

/-- Signing the CA again gives its item dates that its row does not have. -/
theorem reSigned_disagrees :
    ¬ ∀ s, ((caMachine sampleTimes).system.restrict (CaDeed.Succeeds sampleTimes)).Reachable s →
      s.vault.Agrees sampleTimes := by
  intro hclaim
  obtain ⟨s, hs, hview⟩ := @Machine.exists_reachable_of_exec_guard _ _ (caMachine sampleTimes)
    (fun s deed => returned (deed.run sampleTimes s)) (CaDeed.Succeeds sampleTimes)
    (fun _ _ h => h) _ (sampleSession_init (by decide))
    [.reSignCa "20260102000000Z" ⟨1893456000 * second, by decide⟩ (.ok ()) (.ok ()) (.ok ())]
    (fun s => s.vault.db.rows.any s.vault.datesDiffer) (by decide)
  exact not_agrees_of_datesDiffer hview (hclaim s hs)

end Opca.Core

/-
  Core/Revocation.lean --- what revoking does: a certificate goes to the CRL, and its
  broker is marked (`services/ca.rs`, `services/ca/subordinate.rs`).

  The scan does the revoking, and passes over a certificate that has expired or does not
  say when it does, though it was found as valid; `revoke_certificate` then reports
  success all the same.  Revoking a broker goes by its current certificate alone.
-/
import Opca.Core.Listed

set_option autoImplicit false

namespace Opca.Core

open Opca.Foundation Acme

variable {times : OpensslTimes} {may : Time → CertRecord → Prop} {now now' : Time}
  {db s t : CaDatabase} {c : CertRecord} {serial key : String}

/-! ## Which rows are dated -/

/-- The certificate with a serial is revoked. -/
def CaDatabase.IsDated (db : CaDatabase) (serial : String) : Prop :=
  ∃ c ∈ db.rows, c.serial = serial ∧ c.Dated

theorem dated_iff_of_eq {c' : CertRecord} (h : c'.revocationDate = c.revocationDate) :
    c'.Dated ↔ c.Dated :=
  ⟨fun hd => hd.congr h.symm, fun hd => hd.congr h⟩

theorem isDated_of_rows (hrows : t.rows = s.rows) : t.IsDated serial ↔ s.IsDated serial := by
  unfold CaDatabase.IsDated
  rw [hrows]

theorem isDated_of_map {f : CertRecord → CertRecord} (hrows : t.rows = s.rows.map f)
    (hserial : ∀ c, (f c).serial = c.serial)
    (hf : ∀ c ∈ s.rows, c.serial = serial → ((f c).Dated ↔ c.Dated)) :
    t.IsDated serial ↔ s.IsDated serial := by
  unfold CaDatabase.IsDated
  rw [hrows]
  constructor
  · rintro ⟨c', hc', hcserial, hdated⟩
    obtain ⟨c, hc, rfl⟩ := List.mem_map.mp hc'
    rw [hserial] at hcserial
    exact ⟨c, hc, hcserial, (hf c hc hcserial).mp hdated⟩
  · rintro ⟨c, hc, hcserial, hdated⟩
    exact ⟨f c, List.mem_map_of_mem hc, (hserial c).trans hcserial, (hf c hc hcserial).mpr hdated⟩

/-- A scan dates no row but the one that it revokes. -/
theorem processCert_other {other : String} (h : c.serial ≠ other) :
    (processCert times now (some other) c).revocationDate = c.revocationDate := by
  have hrevoking : c.isRevoking (some other) = false := by
    unfold CertRecord.isRevoking
    rw [decide_eq_false fun heq => h (Option.some.inj heq).symm, Bool.and_false]
  unfold processCert
  split
  · rfl
  · rw [hrevoking]
    split
    · rfl
    · split
      next h => cases h
      next => split <;> rfl

/-- What an effect other than a revocation does to which rows are dated: nothing. -/
theorem isDated_of_revokes {revoked : String} (h : Revokes times now revoked s t)
    (hne : serial ≠ revoked) : t.IsDated serial ↔ s.IsDated serial := by
  refine isDated_of_map h.rows (fun _ => processCert_serial _ _ _ _) ?_
  intro c _ hserial
  refine dated_iff_of_eq (processCert_other ?_)
  rw [hserial]
  exact hne

theorem isDated_of_added {cert : CertAttribs} {new title : String}
    (hrows : t.rows = s.rows ++ [formatDbItem times now cert new title]) :
    t.IsDated serial ↔ s.IsDated serial := by
  unfold CaDatabase.IsDated
  rw [hrows]
  constructor
  · rintro ⟨c, hc, hserial, hdated⟩
    rcases List.mem_append.mp hc with hc | hc
    · exact ⟨c, hc, hserial, hdated⟩
    · rw [List.mem_singleton.mp hc] at hdated
      exact absurd hdated (by simp [CertRecord.Dated, formatDbItem])
  · rintro ⟨c, hc, hserial, hdated⟩
    exact ⟨c, List.mem_append_left _ hc, hserial, hdated⟩

theorem not_isDated_of_fresh (h : db.Fresh serial) : ¬ db.IsDated serial := by
  obtain ⟨c, hc, hserial, hdate⟩ := h
  rintro ⟨c', hc', hserial', hdated⟩
  cases db.row_unique hc hc' (hserial.trans hserial'.symm)
  obtain ⟨date, hsome, _⟩ := CertRecord.dated_iff.mp hdated
  rw [hdate] at hsome
  cases hsome

/-! ## A certificate is revoked -/

/-- A revocation that took effect: the row says so, and from then on until it expires every
CRL that is signed lists it. -/
structure TookEffect (times : OpensslTimes) (now : Time) (serial : String)
    (t : CaDatabase) : Prop where
  row : ∃ c ∈ t.rows, c.serial = serial ∧ c.status = some "Revoked" ∧ c.Dated
  listed : ∀ l, (life times).system.Reaches ⟨some t, now⟩ l → ∃ db, l.ca = some db ∧
    ∀ now', l.clock ≤ now' → ∀ c ∈ db.rows, c.serial = serial → ¬ c.Past times now' →
      db.Signs times now' fun entries => ∃ entry ∈ entries, entry.serial = serial

/-- A broker is revoked just if its subordinate is. -/
def BrokersAgree (db : CaDatabase) : Prop :=
  ∀ b ∈ db.brokers, b.state = .revoked ↔ db.IsDated b.subordinateSerial

theorem tookEffect_of_unexpired (htimes : times.Reads) (hc : c ∈ db.rows)
    (hstatus : c.status = some "Valid") (hrevokes : Revokes times now c.serial db t)
    (hunexpired : c.Unexpired times now) : TookEffect times now c.serial t := by
  have hmem : processCert times now (some c.serial) c ∈ t.rows := by
    rw [hrevokes.rows]
    exact List.mem_map_of_mem hc
  obtain ⟨hrevoked, hdated⟩ := processCert_revokes htimes hunexpired hstatus
  obtain ⟨date, hdate, hne⟩ := CertRecord.dated_iff.mp hdated
  obtain ⟨e, he, _⟩ := CertRecord.unexpired_iff.mp hunexpired
  have hexpiry : expiryOf times (processCert times now (some c.serial) c).expiryDate = some e := by
    rw [processCert_expiryDate]
    exact he
  have hserial := processCert_serial times now (some c.serial) c
  refine ⟨⟨_, hmem, hserial, hrevoked, hdated⟩, ?_⟩
  intro l hreaches
  have hlistable : Listable times ⟨c.serial, date⟩ e t := by
    refine ⟨⟨_, hmem, hserial, hdate, hexpiry⟩, hne, fun _ => ?_⟩
    rw [hrevokes.certsRevoked]
    refine List.mem_map_of_mem (List.mem_filter.mpr ⟨hc, ?_⟩)
    exact processedRevoked_iff.mpr ⟨hunexpired, hdated.isRevoked⟩
  have hkept : Kept times (fun _ _ => True) fun now db =>
      (now ≤ e → Listable times ⟨c.serial, date⟩ e db) ∧
      ∃ c' ∈ db.rows, c'.serial = c.serial ∧ expiryOf times c'.expiryDate = some e :=
    listable_kept.and expires_kept
  obtain ⟨_, db', hdb', hlistable', c', hc', hserial', he'⟩ :=
    hkept.reaches (hreaches.restrict only_any) rfl
      ⟨fun _ => hlistable, _, hmem, hserial, hexpiry⟩
  refine ⟨db', hdb', ?_⟩
  intro now' hle other hother hsame hpast
  cases db'.row_unique hother hc' (hsame.trans hserial'.symm)
  have hle' : now' ≤ e := not_lt.mp fun hlt => hpast (CertRecord.past_iff.mpr ⟨e, he', hlt⟩)
  have hmem := (hlistable' (hle.trans hle')).mem_entries hle'
  refine signs_entries.imp fun entries heq => ?_
  rw [heq]
  exact ⟨_, hmem, rfl⟩

theorem unexpired_of_tookEffect (hc : c ∈ db.rows) (hstatus : c.status = some "Valid")
    (hrevokes : Revokes times now c.serial db t) (h : TookEffect times now c.serial t) :
    c.Unexpired times now := by
  by_contra hnot
  obtain ⟨c', hc', hserial', hrevoked, _⟩ := h.row
  have hmem : processCert times now (some c.serial) c ∈ t.rows := by
    rw [hrevokes.rows]
    exact List.mem_map_of_mem hc
  cases t.row_unique hc' hmem (hserial'.trans (processCert_serial _ _ _ _).symm)
  exact processCert_not_revoked hnot hstatus hrevoked

/-! ## Brokers and their subordinates -/

theorem BrokersAgree.effect (htimes : times.Reads)
    (h : Effect times now (fun c => c.Unexpired times now) s t) (hs : BrokersAgree s) :
    BrokersAgree t := by
  have hsame : t.brokers = s.brokers →
      (∀ b ∈ s.brokers, t.IsDated b.subordinateSerial ↔ s.IsDated b.subordinateSerial) →
      BrokersAgree t := by
    intro hbrokers hdated b hb
    rw [hbrokers] at hb
    rw [hdated b hb]
    exact hs b hb
  cases h with
  | elsewhere hrows hbrokers => exact hsame hbrokers fun _ _ => isDated_of_rows hrows
  | gave more hmore ht =>
    subst ht
    exact hs
  | edited f hf hrows hbrokers =>
    refine hsame hbrokers fun _ _ => isDated_of_map hrows (fun c => (hf c).serial) ?_
    exact fun c _ _ => dated_iff_of_eq (hf c).revocationDate
  | added cert serial title hitem hnew hrows hbrokers =>
    exact hsame hbrokers fun _ _ => isDated_of_added hrows
  | scanned hrows hbrokers =>
    refine hsame hbrokers fun _ _ => isDated_of_map hrows (fun _ => processCert_serial _ _ _ _) ?_
    exact fun c _ _ => dated_iff_of_eq (processCert_revocationDate c)
  | revoked serial hfound h =>
    obtain ⟨c, hc, hserial, hstatus, hunexpired⟩ := hfound
    intro b hb
    rw [h.brokers] at hb
    obtain ⟨before, hbefore, rfl⟩ := mem_updateWhere.mp hb
    split
    next hsub =>
      -- the broker's certificate is the one that is revoked
      have hdated := (processCert_revokes htimes hunexpired hstatus).2
      have hsame : before.subordinateSerial = serial := of_decide_eq_true hsub
      rw [hserial] at hdated
      refine iff_of_true rfl ⟨_, ?_,
        (processCert_serial _ _ _ _).trans (hserial.trans hsame.symm), hdated⟩
      rw [h.rows]
      exact List.mem_map_of_mem hc
    next hsub =>
      rw [isDated_of_revokes h fun heq => hsub (decide_eq_true heq)]
      exact hs before hbefore
  | hid serial hfound hrows hbrokers =>
    refine hsame hbrokers fun _ _ => isDated_of_map hrows ?_ fun c _ _ => dated_iff_of_eq ?_
    · intro c
      rcases hide_cases serial (times.format now) c with h | ⟨_, h⟩ <;> rw [h]
    · rcases hide_cases serial (times.format now) c with h | ⟨_, h⟩ <;> rw [h]
  | enrolled broker hactive hsigned hrows hbrokers =>
    intro b hb
    rw [hbrokers] at hb
    rw [isDated_of_rows hrows]
    rcases List.mem_append.mp hb with hb | hb
    · exact hs b hb
    · rw [List.mem_singleton.mp hb, hactive]
      exact iff_of_false (by decide) (not_isDated_of_fresh hsigned.fresh)
  | moved g hg hrows hbrokers =>
    intro b hb
    rw [hbrokers] at hb
    obtain ⟨before, hbefore, rfl⟩ := List.mem_map.mp hb
    have hgoes := hg before hbefore
    rw [isDated_of_rows hrows, hgoes.state]
    rcases hgoes.subordinate with hsame | ⟨hactive, hsigned⟩
    · rw [hsame]
      exact hs before hbefore
    · rw [hactive]
      exact iff_of_false (by decide) (not_isDated_of_fresh hsigned.fresh)

/-- **Revocation is effective** just when the certificate that is found has not expired and
says when it does, and brokers' states agree with it as long as only such are revoked. -/
theorem revocation_effective (times : OpensslTimes) (htimes : times.Reads) :
    (∀ db lookup now issued t, revokeCertificate times lookup now db = .ok issued t →
      ∀ c, db.revocable lookup = some c →
        (TookEffect times now c.serial t ↔ c.Unexpired times now)) ∧
    ∀ l, ((life times).system.restrict (Only fun now c => c.Unexpired times now)).Reachable l →
      ∀ db, l.ca = some db → BrokersAgree db := by
  constructor
  · intro db lookup now issued t h c hfound
    rcases revokeCertificate_cases times lookup now db with
      ⟨_, herror⟩ | ⟨c', t', hc', hok, hrevokes⟩
    · rw [herror] at h
      cases h
    · rw [hok] at h
      cases h
      rw [hfound] at hc'
      cases hc'
      obtain ⟨hmem, _, hstatus⟩ := mem_of_revocable hfound
      exact ⟨unexpired_of_tookEffect hmem hstatus hrevokes,
        tookEffect_of_unexpired htimes hmem hstatus hrevokes⟩
  · intro l hl db hdb
    have hkept : Kept times (fun now c => c.Unexpired times now) fun _ => BrokersAgree :=
      ⟨fun _ h => h, fun h hs => hs.effect htimes h, fun h => h⟩
    refine hkept.reachable (hkept.found ?_) hl hdb
    intro now config b hb
    cases hb

/-- A subordinate that is valid on the first of January 2026, and a broker for it. -/
def signFor (key : String) (notAfter : Asn1Time) (now : Time) : Operation :=
  .signSubordinate { sampleCert "sub" "subordinateca" with publicKey := key, notAfter }
    ⟨.ok (), .ok (), .ok ()⟩ (.ok ["example.org"]) none now

def sampleDay : Asn1Time := ⟨1767312000 * second, by decide⟩

/-- A check for `Only`. -/
def onlyCheck (may : Time → CertRecord → Prop) [∀ now c, Decidable (may now c)] (s : Life) :
    Event → Bool
  | .operate op now => s.ca.all fun db => (op.revokes db).all fun c => may now c
  | _ => true

theorem only_of_check (may : Time → CertRecord → Prop) [∀ now c, Decidable (may now c)]
    (s : Life) (l : Event) (h : onlyCheck may s l = true) : Only may s l := by
  cases l with
  | operate op now =>
    intro db hdb c hc
    rw [show onlyCheck may s (.operate op now) =
      s.ca.all fun db => (op.revokes db).all fun c => may now c from rfl,
      show s.ca = some db from hdb, Option.all_some, show op.revokes db = some c from hc,
      Option.all_some] at h
    exact of_decide_eq_true h
  | _ => trivial

/-- A subordinate is revoked in time: by its serial, which puts it on every CRL, or by its
broker, which is revoked with it. -/
theorem revocation_inTime :
    (∃ (db t : CaDatabase) (issued : Issued),
      revokeCertificate sampleTimes (.serial "2") sampleStart db = .ok issued t ∧
      TookEffect sampleTimes sampleStart "2" t) ∧
    ∃ (l : Life) (db : CaDatabase), l.ca = some db ∧
      db.brokers.map Broker.state = [.revoked] ∧ BrokersAgree db := by
  have hstart : (life sampleTimes).init ⟨none, 0⟩ := rfl
  have heffective := revocation_effective sampleTimes sampleTimes_reads
  constructor
  · obtain ⟨l, -, hview⟩ := Machine.exists_reachable_of_exec hstart
      [.found sampleFounding sampleStart,
        .operate (signFor "key" sampleDay sampleStart) sampleStart]
      (fun l => l.ca.any fun db =>
        returned (revokeCertificate sampleTimes (.serial "2") sampleStart db) &&
        (db.revocable (.serial "2")).any fun c => c.serial = "2" &&
          c.Unexpired sampleTimes sampleStart) (by decide)
    obtain ⟨db, -, hview⟩ := (Option.any_eq_true _ _).mp hview
    simp only [Bool.and_eq_true, decide_eq_true_eq, Option.any_eq_true] at hview
    obtain ⟨hreturned, c, hc, hserial, hunexpired⟩ := hview
    obtain ⟨issued, t, ht⟩ := exists_of_returned hreturned
    have htook := (heffective.1 db _ _ issued t ht c hc).mpr hunexpired
    rw [hserial] at htook
    exact ⟨db, t, issued, ht, htook⟩
  · obtain ⟨l, hl, hview⟩ := Machine.exists_reachable_of_exec_guard (M := life sampleTimes)
      (only_of_check fun now c => c.Unexpired sampleTimes now) hstart
      [.found sampleFounding sampleStart,
        .operate (signFor "key" sampleDay sampleStart) sampleStart,
        .operate (.revokeSubordinate 1 sampleStart) sampleStart]
      (fun l => l.ca.any fun db => db.brokers.map Broker.state = [.revoked]) (by decide)
    obtain ⟨db, hdb, hview⟩ := (Option.any_eq_true _ _).mp hview
    exact ⟨l, db, hdb, of_decide_eq_true hview, heffective.2 l hl db hdb⟩

/-- A subordinate that expired in 2026 and was not looked at since is revoked in 2030: that
is reported as done, its row is found expired and not dated, and its broker is revoked. -/
theorem revocation_of_expired :
    (¬ ∀ db lookup now issued t, revokeCertificate sampleTimes lookup now db = .ok issued t →
      ∀ c, db.revocable lookup = some c → TookEffect sampleTimes now c.serial t) ∧
    ¬ ∀ l, (life sampleTimes).system.Reachable l → ∀ db, l.ca = some db → BrokersAgree db := by
  have hstart : (life sampleTimes).init ⟨none, 0⟩ := rfl
  constructor
  · intro hclaim
    obtain ⟨l, _, hview⟩ := Machine.exists_reachable_of_exec hstart
      [.found sampleFounding sampleStart,
        .operate (signFor "key" sampleDay sampleStart) sampleStart]
      (fun l => l.ca.any fun db => (db.revocable (.serial "2")).any fun c =>
        !decide (c.Unexpired sampleTimes (1893456000 * second))) (by decide)
    obtain ⟨db, _, hview⟩ := (Option.any_eq_true _ _).mp hview
    obtain ⟨c, hc, hexpired⟩ := (Option.any_eq_true _ _).mp hview
    rcases revokeCertificate_cases sampleTimes (.serial "2") (1893456000 * second) db with
      ⟨hnone, _⟩ | ⟨c', t, hc', hok, hrevokes⟩
    · rw [hc] at hnone
      cases hnone
    · rw [hc] at hc'
      cases hc'
      obtain ⟨hmem, _, hstatus⟩ := mem_of_revocable hc
      have hunexpired :=
        unexpired_of_tookEffect hmem hstatus hrevokes (hclaim _ _ _ _ _ hok c hc)
      rw [decide_eq_true hunexpired] at hexpired
      cases hexpired
  · intro hclaim
    obtain ⟨l, hl, hview⟩ := Machine.exists_reachable_of_exec hstart
      [.found sampleFounding sampleStart,
        .operate (signFor "key" sampleDay sampleStart) sampleStart,
        .operate (.revokeSubordinate 1 (1893456000 * second)) (1893456000 * second)]
      (fun l => l.ca.any fun db => db.brokers.map (fun b => (b.state, b.subordinateSerial)) =
        [(.revoked, "2")] && db.rows.all fun c => c.revocationDate.isNone) (by decide)
    obtain ⟨db, hdb, hview⟩ := (Option.any_eq_true _ _).mp hview
    rw [Bool.and_eq_true, decide_eq_true_eq, List.all_eq_true] at hview
    obtain ⟨b, hb, hbroker⟩ := List.mem_map.mp (hview.1 ▸ List.mem_cons_self)
    obtain ⟨c, hc, _, hdated⟩ := (hclaim l hl db hdb b hb).mp (Prod.mk.inj hbroker).1
    obtain ⟨date, hdate, _⟩ := CertRecord.dated_iff.mp hdated
    have hnone := hview.2 c hc
    rw [hdate] at hnone
    cases hnone

/-! ## A broker is revoked -/

/-- Nothing that the CA signed for a key is valid any more, and every CRL from then on lists
what has not expired of it. -/
structure KeyRevoked (times : OpensslTimes) (now : Time) (key : String) (t : CaDatabase) :
    Prop where
  gone : ∀ c ∈ t.rows, .subordinate c.serial key ∈ t.given → c.Dated ∨ c.Past times now
  listed : ∀ l, (life times).system.Reaches ⟨some t, now⟩ l → ∃ db, l.ca = some db ∧
    ∀ now', l.clock ≤ now' → ∀ c ∈ db.rows, .subordinate c.serial key ∈ t.given →
      c.Unexpired times now' →
        db.Signs times now' fun entries => ∃ entry ∈ entries, entry.serial = c.serial

/-- Each broker is on a certificate that was signed for some key. -/
def BrokersKnown (db : CaDatabase) : Prop :=
  ∀ b ∈ db.brokers, ∃ key, .subordinate b.subordinateSerial key ∈ db.given

theorem brokersKnown_kept : Kept times may fun _ => BrokersKnown := by
  refine ⟨fun _ h => h, ?_, fun h => h⟩
  intro now s t heffect hs
  obtain ⟨more, hgiven⟩ := heffect.given
  have hknown : ∀ {serial : String}, (∃ key, .subordinate serial key ∈ s.given) →
      ∃ key, .subordinate serial key ∈ t.given := by
    rintro serial ⟨key, hkey⟩
    rw [hgiven]
    exact ⟨key, List.mem_append_left _ hkey⟩
  have hsame : t.brokers = s.brokers → BrokersKnown t := by
    intro hbrokers b hb
    rw [hbrokers] at hb
    exact hknown (hs b hb)
  cases heffect with
  | elsewhere _ hbrokers => exact hsame hbrokers
  | gave more hmore ht => exact hsame (by rw [ht]; rfl)
  | edited _ _ _ hbrokers => exact hsame hbrokers
  | added _ _ _ _ _ _ hbrokers => exact hsame hbrokers
  | scanned _ hbrokers => exact hsame hbrokers
  | revoked serial hfound h =>
    intro b hb
    rw [h.brokers] at hb
    obtain ⟨before, hbefore, rfl⟩ := mem_updateWhere.mp hb
    split <;> exact hknown (hs before hbefore)
  | hid _ _ _ hbrokers => exact hsame hbrokers
  | enrolled broker hactive hsigned hrows hbrokers =>
    intro b hb
    rw [hbrokers] at hb
    rcases List.mem_append.mp hb with hb | hb
    · exact hknown (hs b hb)
    · rw [List.mem_singleton.mp hb]
      exact hknown hsigned.known
  | moved g hg hrows hbrokers =>
    intro b hb
    rw [hbrokers] at hb
    obtain ⟨before, hbefore, rfl⟩ := List.mem_map.mp hb
    rcases (hg before hbefore).subordinate with hsame | ⟨_, hsigned⟩
    · rw [hsame]
      exact hknown (hs before hbefore)
    · exact hknown hsigned.known

/-- What is revoked or expired is listed until it expires, whatever comes after. -/
theorem keyRevoked_of_gone (htimes : times.Reads) (hs : t.Sound times now)
    (hgone : ∀ c ∈ t.rows, .subordinate c.serial key ∈ t.given → c.Dated ∨ c.Past times now) :
    KeyRevoked times now key t := by
  refine ⟨hgone, ?_⟩
  intro l hreaches
  have hsound : Kept times (fun _ _ => True) (CaDatabase.Sound times) := sound_kept htimes
  obtain ⟨hclock, db', hdb', _⟩ := hsound.reaches (hreaches.restrict only_any) rfl hs
  refine ⟨db', hdb', ?_⟩
  intro now' hle c' hc' hgiven hunexpired
  obtain ⟨c, hc, hserial⟩ := hs.subordinate c'.serial key hgiven
  obtain ⟨e, he⟩ := Option.isSome_iff_exists.mp (hs.rows c hc).expires
  -- until it expires it is as it was
  have hexpires : Kept times (fun _ _ => True) fun _ db =>
      ∃ c ∈ db.rows, c.serial = c'.serial ∧ expiryOf times c.expiryDate = some e :=
    expires_kept
  obtain ⟨_, db'', hdb'', other, hother, hsame, he'⟩ :=
    hexpires.reaches (hreaches.restrict only_any) rfl ⟨c, hc, hserial, he⟩
  rw [hdb'] at hdb''
  cases hdb''
  cases db'.row_unique hother hc' hsame
  obtain ⟨e', hexpiry, hle'⟩ := CertRecord.unexpired_iff.mp hunexpired
  rw [he'] at hexpiry
  cases hexpiry
  have hdated : c.Dated := by
    refine (hgone c hc (hserial ▸ hgiven)).resolve_right ?_
    exact (CertRecord.unexpired_iff.mpr ⟨e, he, hclock.trans (hle.trans hle')⟩).not_past
  obtain ⟨date, hdate, hne⟩ := CertRecord.dated_iff.mp hdated
  have hlistable : Kept times (fun _ _ => True) fun now db =>
      now ≤ e → Listable times ⟨c'.serial, date⟩ e db :=
    listable_kept
  obtain ⟨_, db'', hdb'', hlisted⟩ := hlistable.reaches (hreaches.restrict only_any) rfl
    (hs.listable hc hserial hdate hne he)
  rw [hdb'] at hdb''
  cases hdb''
  have hmem := (hlisted (hle.trans hle')).mem_entries hle'
  refine signs_entries.imp fun entries heq => ?_
  rw [heq]
  exact ⟨_, hmem, rfl⟩

/-- **Revoking a broker revokes all that it can sign with** just when every other certificate
that was signed for its key is revoked already or has expired. -/
theorem revokeSubordinate_keyRevoked (times : OpensslTimes) (htimes : times.Reads) {l : Life}
    (hl : (life times).system.Reachable l) {db : CaDatabase} (hdb : l.ca = some db)
    {now : Time} (hnow : l.clock ≤ now) {id : Int} {issued : Issued} {t : CaDatabase}
    (h : revokeSubordinate times id now db = .ok issued t) :
    ∃ b, db.tables.brokers.get? id = some b ∧
      (∃ key, .subordinate b.subordinateSerial key ∈ db.given) ∧
      ∀ key, .subordinate b.subordinateSerial key ∈ db.given →
        (KeyRevoked times now key t ↔
          ∀ c ∈ db.rows, c.serial ≠ b.subordinateSerial → .subordinate c.serial key ∈ db.given →
            c.Dated ∨ c.Past times now) := by
  have hsound := sound_reachable htimes hl hdb
  have hknown : Kept times (fun _ _ => True) fun _ => BrokersKnown := brokersKnown_kept
  rcases revokeSubordinate_cases times id now db with
    ⟨_, herror⟩ | ⟨b, c, t', hb, _, hfound, hok, hrevokes⟩
  · rw [herror] at h
    cases h
  rw [hok] at h
  cases h
  obtain ⟨hc, hfinds, hstatus⟩ := mem_of_revocable hfound
  have hserial : c.serial = b.subordinateSerial := of_decide_eq_true hfinds
  have hkey : ∃ key, .subordinate b.subordinateSerial key ∈ db.given := by
    refine hknown.reachable (hknown.found ?_) (hl.restrict only_any) hdb b
      (Table.get?_eq_some.mp hb).1
    intro now config b hb
    cases hb
  refine ⟨b, hb, hkey, fun key _ => ?_⟩
  have hrow : ∀ c' ∈ db.rows, processCert times now (some c.serial) c' ∈ t.rows := by
    rw [hrevokes.rows]
    exact fun c' => List.mem_map_of_mem
  have hgiven : ∀ serial, .subordinate serial key ∈ t.given ↔
      .subordinate serial key ∈ db.given := by
    intro serial
    rw [hrevokes.given]
    simp
  constructor
  · intro hrevoked c' hc' hne hsigned
    have hother : c'.serial ≠ c.serial := fun heq => hne (heq.trans hserial)
    refine (hrevoked.gone _ (hrow c' hc') ?_).imp ?_ fun h => h.congr processCert_expiryDate.symm
    · rw [processCert_serial, hgiven]
      exact hsigned
    · exact (dated_iff_of_eq (processCert_other hother)).mp
  · intro hothers
    have hkept : Kept times (fun _ _ => True) (CaDatabase.Sound times) := sound_kept htimes
    refine keyRevoked_of_gone htimes
      (hkept.effects (effects_of_revokes hfound trivial rfl hrevokes) (hsound.later hnow)) ?_
    intro after hafter hsigned
    rw [hrevokes.rows] at hafter
    obtain ⟨c', hc', rfl⟩ := List.mem_map.mp hafter
    rw [processCert_serial, hgiven] at hsigned
    by_cases hcurrent : c'.serial = c.serial
    · cases db.row_unique hc' hc hcurrent
      rcases CertRecord.past_or_unexpired (hsound.rows c hc).expires now with hpast | hunexpired
      · exact .inr (hpast.congr processCert_expiryDate)
      · exact .inl (processCert_revokes htimes hunexpired hstatus).2
    · have hne : c'.serial ≠ b.subordinateSerial := fun heq => hcurrent (heq.trans hserial.symm)
      exact (hothers c' hc' hne hsigned).imp processCert_dated
        fun h => h.congr processCert_expiryDate

/-- The broker's key is certified again, by the CSR that the broker makes. -/
def renewFor (id : Int) (key : String) (now : Time) : Operation :=
  .renewSubordinate id { sampleCert "sub" "subordinateca" with publicKey := key }
    ⟨.ok (), .ok (), .ok ()⟩ none false "operator" now

/-- Whether a broker's subordinate is revoked, and which certificates there are. -/
def revokes (now : Time) (serials : List String) (db : CaDatabase) : Bool :=
  returned (revokeSubordinate sampleTimes 1 now db) && db.rows.map CertRecord.serial = serials

/-- A broker that was renewed when its first certificate had expired. -/
theorem keyRevoked_afterExpiry :
    ∃ (l : Life) (db t : CaDatabase) (issued : Issued), l.ca = some db ∧
      db.rows.map CertRecord.serial = ["1", "2", "3"] ∧
      revokeSubordinate sampleTimes 1 (1767312000 * second + 1) db = .ok issued t ∧
      KeyRevoked sampleTimes (1767312000 * second + 1) "key" t := by
  obtain ⟨l, hl, hview⟩ := Machine.exists_reachable_of_exec
    (show (life sampleTimes).init ⟨none, 0⟩ from rfl)
    [.found sampleFounding sampleStart,
      .operate (signFor "key" sampleDay sampleStart) sampleStart,
      .operate (renewFor 1 "key" (1767312000 * second + 1)) (1767312000 * second + 1)]
    (fun l => l.clock = 1767312000 * second + 1 && l.ca.any fun db =>
      revokes (1767312000 * second + 1) ["1", "2", "3"] db &&
      (db.tables.brokers.get? 1).map Broker.subordinateSerial = some "3" &&
      Given.subordinate "3" "key" ∈ db.given && Given.subordinate "1" "key" ∉ db.given &&
      db.rows.all fun c => c.serial = "1" || c.serial = "3" ||
        c.Past sampleTimes (1767312000 * second + 1)) (by decide)
  unfold revokes at hview
  simp only [Bool.and_eq_true, Bool.or_eq_true, decide_eq_true_eq, Option.any_eq_true,
    List.all_eq_true] at hview
  obtain ⟨hclock, db, hdb, ⟨⟨⟨⟨hrevokes, hserials⟩, hbroker⟩, hsigned⟩, hca⟩, hrows⟩ := hview
  obtain ⟨issued, t, ht⟩ := exists_of_returned hrevokes
  obtain ⟨b, hb, _, hiff⟩ :=
    revokeSubordinate_keyRevoked sampleTimes sampleTimes_reads hl hdb (le_of_eq hclock) ht
  rw [hb] at hbroker
  have hserial : b.subordinateSerial = "3" := Option.some.inj hbroker
  refine ⟨l, db, t, issued, hdb, hserials, ht, (hiff "key" (hserial ▸ hsigned)).mpr ?_⟩
  intro c hc hne hgiven
  rcases hrows c hc with (h | h) | h
  · rw [h] at hgiven
    exact absurd hgiven hca
  · exact absurd (h.trans hserial.symm) hne
  · exact .inr h

/-- A renewal that did not reach the broker: what the broker goes on with is neither revoked
with it nor listed. -/
theorem renewed_notRevoked :
    ¬ ∀ l, (life sampleTimes).system.Reachable l → ∀ db, l.ca = some db →
      ∀ now, l.clock ≤ now → ∀ id issued t,
        revokeSubordinate sampleTimes id now db = .ok issued t →
        ∀ b, db.tables.brokers.get? id = some b →
        ∀ key, .subordinate b.subordinateSerial key ∈ db.given →
          KeyRevoked sampleTimes now key t := by
  intro hclaim
  obtain ⟨l, hl, hview⟩ := Machine.exists_reachable_of_exec
    (show (life sampleTimes).init ⟨none, 0⟩ from rfl)
    [.found sampleFounding sampleStart,
      .operate (signFor "key" sampleDay sampleStart) sampleStart,
      .operate (renewFor 1 "key" sampleStart) sampleStart]
    (fun l => l.clock = sampleStart && l.ca.any fun db =>
      revokes sampleStart ["1", "2", "3"] db &&
      (db.tables.brokers.get? 1).map Broker.subordinateSerial = some "3" &&
      Given.subordinate "3" "key" ∈ db.given && Given.subordinate "2" "key" ∈ db.given &&
      db.rows.any fun c => c.serial = "2" && !decide c.Dated &&
        !decide (c.Past sampleTimes sampleStart)) (by decide)
  unfold revokes at hview
  simp only [Bool.and_eq_true, Bool.not_eq_true', decide_eq_true_eq, decide_eq_false_iff_not,
    Option.any_eq_true, List.any_eq_true] at hview
  obtain ⟨hclock, db, hdb, ⟨⟨⟨⟨hrevokes, _⟩, hbroker⟩, hsigned⟩, hbefore⟩, c, hc, ⟨hserial,
    hdated⟩, hpast⟩ := hview
  obtain ⟨issued, t, ht⟩ := exists_of_returned hrevokes
  obtain ⟨b, hb, hcurrent⟩ := Option.map_eq_some_iff.mp hbroker
  rcases revokeSubordinate_cases sampleTimes 1 sampleStart db with
    ⟨_, herror⟩ | ⟨b', c', t', hb', _, hfound, hok, hrevoked⟩
  · rw [herror] at ht
    cases ht
  rw [hok] at ht
  cases ht
  rw [hb] at hb'
  cases hb'
  have hserial' : c'.serial = b.subordinateSerial :=
    of_decide_eq_true (mem_of_revocable hfound).2.1
  have hkey := hclaim l hl db hdb sampleStart (le_of_eq hclock) 1 _ t hok b hb "key"
    (hcurrent ▸ hsigned)
  have hother : c.serial ≠ c'.serial := by
    rw [hserial, hserial', hcurrent]
    decide
  have hgone := hkey.gone (processCert sampleTimes sampleStart (some c'.serial) c) ?_ ?_
  · rcases hgone with h | h
    · exact hdated ((dated_iff_of_eq (processCert_other hother)).mp h)
    · exact hpast (h.congr processCert_expiryDate.symm)
  · rw [hrevoked.rows]
    exact List.mem_map_of_mem hc
  · rw [processCert_serial, hserial, hrevoked.given]
    exact List.mem_append_left _ hbefore

end Opca.Core

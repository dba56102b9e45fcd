/-
  Acme/Restore.lean --- the broker's database replaced by a copy, while its changes
  are read and its CRLs are numbered (`acme/store.rs`: `open_restorable`,
  `replace_from`).
-/
import Opca.Acme.Changes
import Opca.Foundation.Machine

set_option autoImplicit false

namespace Opca.Acme

open Opca.Foundation

namespace Store

/-! ## Replacing every row -/

def danglingReason : String := "a row in it refers to one that is not there"

/-- `PRAGMA foreign_key_check` finds a row. -/
def dangling (s : Store) : Bool :=
  let account (id : Int) : Bool := (s.accounts.get? id).isSome
  let order (id : Int) : Bool := (s.orders.get? id).isSome
  s.orders.rows.any (fun o => !account o.account ||
    o.certificate.any fun id => !s.certificates.rows.any (·.id = id)) ||
  s.authorisations.rows.any (fun a => !order a.order) ||
  s.challenges.rows.any (fun c => (s.authorisations.get? c.authorisation).isNone) ||
  s.certificates.rows.any (fun c => !account c.account || !order c.order) ||
  s.eabKeys.any (fun key => key.account.any fun id => !account id)

/-- Whether a copy may be restored, and how many certificates it has.  A `Store` is
whole and has the broker's tables. -/
def restorableBeside (copy : Store) : Except StoreError Nat :=
  if copy.dangling then .error (.unrestorable danglingReason)
  else .ok copy.certificates.rows.length

/-- `UPDATE certificates SET changed = changed + past`, which meets the UNIQUE
constraints after each row.  Past the last integer the sum is kept as a real; it stays
exact here. -/
def shiftChanges (past : Int) :
    List Certificate → List Certificate → Except StoreError Certificates
  | done, [] => Certificates.check done
  | done, c :: rest => do
    let shifted : Certificate := { c with changed := c.changed + past }
    let _ ← Certificates.check (done ++ shifted :: rest)
    shiftChanges past (done ++ [shifted]) rest

/-- The number of `crl_number` once the copy's row is in: the higher of the two. -/
def keptNumber (live restored : Option Int) : Option Int :=
  let crlNumber := max (live.getD 0) (restored.getD 0)
  if 0 < crlNumber then some crlNumber else restored

/-- Every row replaced by those of the copy.  Each certificate's change moves past
every change that either database made, and the CRL number keeps the higher of the
two. -/
def replaced (s copy : Store) : Except StoreError Store := do
  let past := max s.lastChange copy.lastChange
  if i64Max < past then .error (.db "certificates.changed is no integer")
  else
    let certificates ← shiftChanges past [] copy.certificates.rows
    let restored : Store := { copy with
      certificates
      crlNumber := keptNumber s.crlNumber copy.crlNumber }
    if restored.dangling then .error (.unrestorable danglingReason) else .ok restored

/-- `replace_from`, with what `before_commit` answers. -/
def replaceFrom (s copy : Store) (beforeCommit : Except StoreError Unit) :
    Except StoreError Store := do
  let restored ← s.replaced copy
  let _ ← beforeCommit
  .ok restored

end Store

/-! ## What a replacement does -/

variable {s t copy : Store}

theorem shiftChanges_ok {past : Int} : ∀ {todo done : List Certificate}
    {shifted : Certificates}, Store.shiftChanges past done todo = .ok shifted →
    shifted.rows = done ++ todo.map fun c => { c with changed := c.changed + past }
  | [], done, shifted, h => by
      rw [List.map_nil, List.append_nil]
      exact Certificates.check_ok h
  | c :: todo, done, shifted, h => by
      obtain ⟨-, -, h⟩ := bind_eq_ok.mp h
      rw [shiftChanges_ok h, List.append_assoc]
      rfl

/-- What a replacement that commits leaves. -/
structure Replaced (s copy t : Store) : Prop where
  rows : t.certificates.rows = copy.certificates.rows.map fun c =>
    { c with changed := c.changed + max s.lastChange copy.lastChange }
  crlNumber : t.crlNumber = Store.keptNumber s.crlNumber copy.crlNumber

theorem replaceFrom_ok {beforeCommit : Except StoreError Unit}
    (h : s.replaceFrom copy beforeCommit = .ok t) : Replaced s copy t := by
  obtain ⟨restored, hreplaced, h⟩ := bind_eq_ok.mp h
  obtain ⟨-, -, h⟩ := bind_eq_ok.mp h
  cases h
  unfold Store.replaced at hreplaced
  dsimp only at hreplaced
  split at hreplaced
  · cases hreplaced
  obtain ⟨certificates, hshift, hreplaced⟩ := bind_eq_ok.mp hreplaced
  split at hreplaced
  · cases hreplaced
  cases hreplaced
  exact ⟨shiftChanges_ok hshift, rfl⟩

/-! ## A broker over its restores -/

structure Restoring where
  store : Store
  /-- The cursors handed out so far, and those handed out before the last restore. -/
  handed : List Int
  before : List Int
  /-- The CRL numbers that this database or a copy restored to it had taken. -/
  numbers : List Int

inductive RestoringStep where
  | recordCertificate (order : Int) (new : NewCertificate) (now : Time)
  | revoke (serial : String) (reason : Option Nat) (now : Time)
  | changedAfter (cursor : Int) (issuers : Option (List String)) (limit : Nat)
  | nextCrlNumber
  | restore (copy : Store) (beforeCommit : Except StoreError Unit)

def Restoring.commit (s : Restoring) : Except StoreError (Store × Certificate) → Restoring
  | .ok (store, _) => { s with store }
  | .error _ => s

/-- A broker's database from any state on. -/
def restoring : Machine Restoring RestoringStep where
  init s := s.handed = [] ∧ s.before = [] ∧ s.numbers = []
  next s
    | .recordCertificate order new now =>
      some (s.commit (s.store.recordCertificate order new now))
    | .revoke serial reason now => some (s.commit (s.store.revoke serial reason now))
    | .changedAfter cursor issuers limit =>
      let last := (s.store.changedAfter cursor issuers limit).certificates.getLast?
      some { s with handed := s.handed ++ (last.map (·.changed)).toList }
    | .nextCrlNumber =>
      match s.store.nextCrlNumber with
      | .error _ => some s
      | .ok (store, number) => some { s with store, numbers := s.numbers ++ [number] }
    | .restore copy beforeCommit =>
      if copy.restorableBeside.isOk then
        match s.store.replaceFrom copy beforeCommit with
        | .error _ => some s
        | .ok store => some { s with
            store
            before := s.handed
            numbers := s.numbers ++ s.store.crlNumber.toList ++ copy.crlNumber.toList }
      else none

/-- A copy without certificates is restored only while no cursor above 0 is out. -/
def CertificatesKept (s : Restoring) (copy : Store) : Prop :=
  copy.certificates.rows = [] → ∀ cursor ∈ s.handed, cursor ≤ 0

/-- The copy's changes are not so low that both databases' do not lift them past a
cursor that is out. -/
def ChangesLifted (s : Restoring) (copy : Store) : Prop :=
  ∀ c ∈ copy.certificates.rows, ∀ cursor ∈ s.handed,
    cursor < c.changed + max s.store.lastChange copy.lastChange

/-- A CRL number that is not positive is restored only over lower ones. -/
def NumberKept (s : Restoring) (copy : Store) : Prop :=
  ∀ number ∈ copy.crlNumber, number ≤ 0 → 0 < s.store.crlNumber.getD 0 ∨
    ∀ taken ∈ s.numbers ++ s.store.crlNumber.toList, taken ≤ number

/-- Each copy restored meets the three. -/
def CopiesKeep (s : Restoring) : RestoringStep → Prop
  | .restore copy _ => CertificatesKept s copy ∧ ChangesLifted s copy ∧ NumberKept s copy
  | _ => True

instance (s : Restoring) (l : RestoringStep) : Decidable (CopiesKeep s l) :=
  match l with
  | .restore copy _ =>
    inferInstanceAs (Decidable ((copy.certificates.rows = [] → ∀ cursor ∈ s.handed, cursor ≤ 0) ∧
      (∀ c ∈ copy.certificates.rows, ∀ cursor ∈ s.handed,
        cursor < c.changed + max s.store.lastChange copy.lastChange) ∧
      ∀ number ∈ copy.crlNumber, number ≤ 0 → 0 < s.store.crlNumber.getD 0 ∨
        ∀ taken ∈ s.numbers ++ s.store.crlNumber.toList, taken ≤ number))
  | .recordCertificate _ _ _ | .revoke _ _ _ | .changedAfter _ _ _ | .nextCrlNumber =>
    .isTrue trivial

/-! ## The invariant -/

structure RestoringInv (s : Restoring) : Prop where
  handed : ∀ cursor ∈ s.handed, cursor ≤ s.store.lastChange
  before : ∀ cursor ∈ s.before, cursor ∈ s.handed
  passed : ∀ cursor ∈ s.before, ∀ c ∈ s.store.certificates.rows, cursor < c.changed
  numbers : ∀ number ∈ s.numbers, number ≤ s.store.crlNumber.getD 0

variable {r u : Restoring}

theorem RestoringInv.commit (h : RestoringInv r)
    {result : Except StoreError (Store × Certificate)}
    (hok : ∀ store certificate, result = .ok (store, certificate) →
      Changed r.store store certificate ∧ store.crlNumber = r.store.crlNumber) :
    RestoringInv (r.commit result) := by
  cases result with
  | error e => exact h
  | ok result =>
    obtain ⟨store, certificate⟩ := result
    obtain ⟨hchanged, hnumber⟩ := hok store certificate rfl
    have hlt : r.store.lastChange < certificate.changed := by
      rw [hchanged.changed]
      exact lastChange_lt_nextChange
    refine ⟨?_, h.before, ?_, ?_⟩
    · intro cursor hcursor
      show cursor ≤ store.lastChange
      rw [hchanged.top]
      exact (h.handed cursor hcursor).trans hlt.le
    · intro cursor hcursor c hc
      rcases (hchanged.rows c).mp hc with rfl | ⟨hold, -⟩
      · exact (h.handed cursor (h.before cursor hcursor)).trans_lt hlt
      · exact h.passed cursor hcursor c hold
    · intro number hnumbers
      show number ≤ store.crlNumber.getD 0
      rw [hnumber]
      exact h.numbers number hnumbers

/-- The number kept is no lower than any that was taken. -/
theorem le_crlNumber_of_replaced (h : Replaced r.store copy t)
    (hnumbers : ∀ number ∈ r.numbers, number ≤ r.store.crlNumber.getD 0)
    (hkept : NumberKept r copy) {number : Int}
    (hnumber : number ∈ r.numbers ++ r.store.crlNumber.toList ++ copy.crlNumber.toList) :
    number ≤ t.crlNumber.getD 0 := by
  have hlive : ∀ taken ∈ r.numbers ++ r.store.crlNumber.toList,
      taken ≤ r.store.crlNumber.getD 0 := by
    intro taken htaken
    rcases List.mem_append.mp htaken with htaken | htaken
    · exact hnumbers taken htaken
    · rw [Option.mem_toList.mp htaken]
      exact le_refl _
  rw [h.crlNumber]
  unfold Store.keptNumber
  dsimp only
  cases hcopy : copy.crlNumber with
  | none =>
    rw [hcopy, Option.toList_none, List.append_nil] at hnumber
    have hle := hlive number hnumber
    split
    · exact hle.trans (le_max_left _ _)
    next hzero =>
      exact hle.trans ((le_max_left _ _).trans (not_lt.mp hzero))
  | some restored =>
    rw [hcopy] at hnumber
    split
    next hpositive =>
      rcases List.mem_append.mp hnumber with hold | hnew
      · exact (hlive number hold).trans (le_max_left _ _)
      · rw [List.mem_singleton.mp hnew]
        exact le_max_right _ _
    next hzero =>
      rw [Option.getD_some, not_lt] at hzero
      have hrestored : restored ≤ 0 := (le_max_right _ _).trans hzero
      rcases List.mem_append.mp hnumber with hold | hnew
      · rcases hkept restored (by rw [hcopy]; rfl) hrestored with hpositive | hlower
        · exact absurd ((le_max_left _ _).trans hzero) (not_le.mpr hpositive)
        · exact hlower number hold
      · rw [List.mem_singleton.mp hnew]
        exact le_refl _

theorem RestoringInv.restore (h : RestoringInv r) (ht : Replaced r.store copy t)
    (hcertificates : CertificatesKept r copy) (hchanges : ChangesLifted r copy)
    (hnumber : NumberKept r copy) :
    RestoringInv { r with
      store := t
      before := r.handed
      numbers := r.numbers ++ r.store.crlNumber.toList ++ copy.crlNumber.toList } := by
  have hpassed : ∀ cursor ∈ r.handed, ∀ c ∈ t.certificates.rows, cursor < c.changed := by
    intro cursor hcursor c hc
    rw [ht.rows] at hc
    obtain ⟨old, hold, rfl⟩ := List.mem_map.mp hc
    exact hchanges old hold cursor hcursor
  refine ⟨?_, fun cursor hcursor => hcursor, hpassed, ?_⟩
  · intro cursor hcursor
    cases hrows : copy.certificates.rows with
    | nil =>
      have hnone : t.certificates.rows = [] := by
        rw [ht.rows, hrows]
        rfl
      show cursor ≤ columnMaxOr0 Certificate.changed t.certificates.rows
      rw [hnone]
      exact hcertificates hrows cursor hcursor
    | cons c rest =>
      obtain ⟨kept, hkept⟩ : ∃ kept, kept ∈ t.certificates.rows := by
        rw [ht.rows, hrows]
        exact ⟨_, List.mem_cons_self⟩
      exact (hpassed cursor hcursor kept hkept).le.trans (le_columnMaxOr0 hkept)
  · intro number hnumbers
    exact le_crlNumber_of_replaced ht h.numbers hnumber hnumbers

theorem RestoringInv.step (h : RestoringInv r) {l : RestoringStep} (hok : CopiesKeep r l)
    (hstep : restoring.next r l = some u) : RestoringInv u := by
  cases l with
  | recordCertificate order new now =>
    cases hstep
    refine h.commit ?_
    intro store certificate hrecord
    obtain ⟨-, -, -, -, hstore⟩ := recordCertificate_ok hrecord
    exact ⟨changed_of_recordCertificate hrecord, by rw [hstore]⟩
  | revoke serial reason now =>
    cases hstep
    refine h.commit ?_
    intro store certificate hrevoke
    obtain ⟨-, -, -, hstore⟩ := revoke_ok hrevoke
    exact ⟨changed_of_revoke hrevoke, by rw [hstore]⟩
  | changedAfter cursor issuers limit =>
    cases hstep
    refine ⟨?_, ?_, h.passed, h.numbers⟩
    · intro handed hhanded
      rcases List.mem_append.mp hhanded with hold | hnew
      · exact h.handed handed hold
      · obtain ⟨last, hlast, rfl⟩ := Option.map_eq_some_iff.mp (Option.mem_toList.mp hnew)
        exact le_columnMaxOr0 (mem_changedAfter.mp (List.mem_of_getLast? hlast)).1.1
    · intro handed hhanded
      exact List.mem_append_left _ (h.before handed hhanded)
  | nextCrlNumber =>
    simp only [restoring] at hstep
    split at hstep
    next =>
      cases hstep
      exact h
    next store number hnext =>
      cases hstep
      obtain ⟨hnumber, -, rfl⟩ := nextCrlNumber_ok hnext
      refine ⟨h.handed, h.before, h.passed, ?_⟩
      intro taken htaken
      show taken ≤ number
      rcases List.mem_append.mp htaken with hold | hnew
      · have hle := h.numbers taken hold
        omega
      · exact (List.mem_singleton.mp hnew).le
  | restore copy beforeCommit =>
    obtain ⟨hcertificates, hchanges, hnumber⟩ := hok
    simp only [restoring] at hstep
    split at hstep
    next =>
      split at hstep
      next =>
        cases hstep
        exact h
      next store hreplace =>
        cases hstep
        exact h.restore (replaceFrom_ok hreplace) hcertificates hchanges hnumber
    next => cases hstep

theorem restoringInv_reachable (hr : (restoring.system.restrict CopiesKeep).Reachable r) :
    RestoringInv r := by
  have hinv : (restoring.system.restrict CopiesKeep).Invariant RestoringInv := by
    refine ⟨?_, fun h hstep => h.step hstep.1 hstep.2⟩
    rintro r ⟨hhanded, hbefore, hnumbers⟩
    refine ⟨?_, ?_, ?_, ?_⟩
    · rw [hhanded]
      intro cursor hcursor
      cases hcursor
    · rw [hbefore]
      intro cursor hcursor
      cases hcursor
    · rw [hbefore]
      intro cursor hcursor
      cases hcursor
    · rw [hnumbers]
      intro number hnumber
      cases hnumber
  exact hinv.reachable hr

/-! ## Cursors and numbers stay sound -/

/-- What restores leave sound in one state. -/
structure RestoreSound (s : Restoring) : Prop where
  /-- Every certificate, kept or issued or revoked since, is past each cursor handed out
  before the last restore. -/
  passed : ∀ cursor ∈ s.before, ∀ c ∈ s.store.certificates.rows, cursor < c.changed
  unique : (s.store.certificates.rows.map Certificate.changed).Nodup
  /-- Issuing and revoking take changes above all there are. -/
  rising : ∀ l t, restoring.next s l = some t →
    (∀ copy beforeCommit, l ≠ .restore copy beforeCommit) →
    ∀ c ∈ t.store.certificates.rows, c ∈ s.store.certificates.rows ∨
      ∀ old ∈ s.store.certificates.rows, old.changed < c.changed
  /-- The number kept is no lower than any that either database had taken, and the
  next is higher. -/
  numbers : ∀ number ∈ s.numbers, number ≤ s.store.crlNumber.getD 0
  next_number : ∀ t number, s.store.nextCrlNumber = .ok (t, number) →
    ∀ taken ∈ s.numbers, taken < number

theorem rising_of_changed {new : Certificate} (h : Changed s t new) {c : Certificate}
    (hc : c ∈ t.certificates.rows) :
    c ∈ s.certificates.rows ∨ ∀ old ∈ s.certificates.rows, old.changed < c.changed := by
  rcases (h.rows c).mp hc with rfl | ⟨hold, -⟩
  · right
    intro old hold
    rw [h.changed]
    exact lt_nextKey hold
  · exact Or.inl hold

theorem rising_of_next {l : RestoringStep} (hstep : restoring.next r l = some u)
    (hl : ∀ copy beforeCommit, l ≠ .restore copy beforeCommit) {c : Certificate}
    (hc : c ∈ u.store.certificates.rows) :
    c ∈ r.store.certificates.rows ∨
      ∀ old ∈ r.store.certificates.rows, old.changed < c.changed := by
  have hcommit : ∀ {result : Except StoreError (Store × Certificate)},
      (∀ store certificate, result = .ok (store, certificate) →
        Changed r.store store certificate) →
      c ∈ (r.commit result).store.certificates.rows →
      c ∈ r.store.certificates.rows ∨
        ∀ old ∈ r.store.certificates.rows, old.changed < c.changed := by
    intro result hresult hmem
    cases result with
    | error e => exact Or.inl hmem
    | ok result => exact rising_of_changed (hresult result.1 result.2 rfl) hmem
  cases l with
  | recordCertificate order new now =>
    cases hstep
    exact hcommit (fun _ _ hrecord => changed_of_recordCertificate hrecord) hc
  | revoke serial reason now =>
    cases hstep
    exact hcommit (fun _ _ hrevoke => changed_of_revoke hrevoke) hc
  | changedAfter cursor issuers limit =>
    cases hstep
    exact Or.inl hc
  | nextCrlNumber =>
    simp only [restoring] at hstep
    split at hstep
    next =>
      cases hstep
      exact Or.inl hc
    next store number hnext =>
      cases hstep
      obtain ⟨-, -, rfl⟩ := nextCrlNumber_ok hnext
      exact Or.inl hc
  | restore copy beforeCommit => exact absurd rfl (hl copy beforeCommit)

/-- **Restores keep cursors and CRL numbers sound**, in every run whose copies do not
take certificates, changes or numbers back. -/
theorem restoreSound_of_copiesKeep
    (hr : (restoring.system.restrict CopiesKeep).Reachable r) : RestoreSound r := by
  have h := restoringInv_reachable hr
  refine ⟨h.passed, r.store.certificates.unique.changes, ?_, h.numbers, ?_⟩
  · intro l t hstep hl c hc
    exact rising_of_next hstep hl hc
  · intro t number hnext taken htaken
    have hle := h.numbers taken htaken
    rw [(nextCrlNumber_ok hnext).1]
    omega

/-- A restored copy that holds certificates, numbered as a broker numbers them, takes
nothing back. -/
theorem copiesKeep_of_numbered (h : RestoringInv r)
    (hcertificates : copy.certificates.rows ≠ [])
    (hchanges : ∀ c ∈ copy.certificates.rows, 0 < c.changed)
    (hnumber : ∀ number ∈ copy.crlNumber, 0 < number) :
    CertificatesKept r copy ∧ ChangesLifted r copy ∧ NumberKept r copy := by
  refine ⟨fun hnone => absurd hnone hcertificates, ?_, ?_⟩
  · intro c hc cursor hcursor
    have hpos := hchanges c hc
    have hle := (h.handed cursor hcursor).trans (le_max_left _ copy.lastChange)
    omega
  · intro number hnum hle
    exact absurd hle (not_le.mpr (hnumber number hnum))

/-- A broker with one order, ready for its certificate. -/
def readyStore : Store := { Store.empty with
  accounts := ⟨[⟨1, "{}", "thumb", .valid, [], 0⟩], by decide⟩
  orders := ⟨[⟨1, 1, .ready, ["a.example"], none, none, 1000, none, none, 0⟩], by decide⟩ }

/-- The same, once the certificate is issued. -/
def issuedStore : Store := { readyStore with
  orders := ⟨[⟨1, 1, .valid, ["a.example"], none, none, 1000, none, some 1, 0⟩], by decide⟩
  certificates := ⟨[⟨1, "10", 1, 1, none, ["a.example"], 0, 1000, "", "5", none, none, 0, 1⟩],
    by decide⟩
  sequence := 1 }

/-- A copy taken after the certificate was issued is restored, and it is revoked. -/
theorem restoreSound_issued :
    ∃ s : Restoring, s.before = [1] ∧
      s.store.certificates.rows.map Certificate.changed = [3] ∧
      s.store.crlNumber = some 1 ∧ RestoreSound s := by
  have hstart : restoring.init ⟨issuedStore, [], [], []⟩ := ⟨rfl, rfl, rfl⟩
  obtain ⟨s, hs, hview⟩ := Machine.exists_reachable_of_exec_guard
    (fun (s : Restoring) (l : RestoringStep) (h : decide (CopiesKeep s l) = true) =>
      of_decide_eq_true h) hstart
    [.changedAfter 0 none 500, .nextCrlNumber, .restore issuedStore (.ok ()),
      .revoke "10" none 5]
    (fun s => s.before = [1] ∧ s.store.certificates.rows.map Certificate.changed = [3] ∧
      s.store.crlNumber = some 1)
    (by decide)
  obtain ⟨hbefore, hchanged, hnumber⟩ := of_decide_eq_true hview
  exact ⟨s, hbefore, hchanged, hnumber, restoreSound_of_copiesKeep hs⟩

/-- A copy taken before the certificate was issued is restored, and the next certificate
takes the change that the cursor has passed. -/
theorem issued_behind_cursor :
    ¬ ∀ s, restoring.system.Reachable s → RestoreSound s := by
  intro hclaim
  have hstart : restoring.init ⟨issuedStore, [], [], []⟩ := ⟨rfl, rfl, rfl⟩
  obtain ⟨s, hs, hview⟩ := Machine.exists_reachable_of_exec hstart
    [.changedAfter 0 none 500, .restore readyStore (.ok ()),
      .recordCertificate 1 ⟨"20", none, ["a.example"], 0, 1000, "", "5"⟩ 5]
    (fun s => s.before = [1] ∧ (s.store.certificates.rows.any (·.changed = 1)) = true)
    (by decide)
  obtain ⟨hbefore, hissued⟩ := of_decide_eq_true hview
  obtain ⟨c, hc, hchanged⟩ := List.any_eq_true.mp hissued
  have hpassed := (hclaim s hs).passed 1 (by rw [hbefore]; decide) c hc
  rw [of_decide_eq_true hchanged] at hpassed
  exact absurd hpassed (lt_irrefl _)

end Opca.Acme

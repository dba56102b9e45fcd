/-
  Core/IssuedSince.lean --- one sync of what a broker issued: pages of its feed, read
  one after the other while the broker goes on issuing and revoking
  (`BrokerClient::issued_since`).
-/
import Opca.Core.BrokerCerts
import Opca.Foundation.Machine

set_option autoImplicit false

namespace Opca.Core

open Opca.Foundation Acme Store

/-! ## The reading loop -/

/-- Why a call failed. -/
inductive BrokerError where
  | unreachable (message : String)
  | refused (refusal : ErrorBody)
  deriving DecidableEq, Repr

/-- `issued_since` between two pages. -/
structure Loop where
  after : Nat
  certificates : List IssuedCertificate
  outcome : Option (Except BrokerError (List IssuedCertificate))
  deriving DecidableEq

def Loop.startingAt (after : Nat) : Loop := ⟨after, [], none⟩

/-- One turn of the loop, on the page that the broker answers with. -/
def Loop.turn (loop : Loop) : Except ErrorBody IssuedPage → Loop
  | .error refusal => { loop with outcome := some (.error (.refused refusal)) }
  | .ok page =>
    let certificates := loop.certificates ++ page.certificates
    if !page.more || page.next ≤ loop.after then
      { loop with certificates, outcome := some (.ok certificates) }
    else { loop with certificates, after := page.next }

/-- The broker's store, and the loop beside it. -/
structure Reading where
  store : Store
  /-- The changes taken so far, in the order they were committed. -/
  taken : List Int
  loop : Loop

inductive ReadingStep where
  | recordCertificate (order : Int) (new : NewCertificate) (now : Time)
  | revoke (serial : String) (reason : Option Nat) (now : Time)
  | page
  deriving DecidableEq, Repr

/-- The state once a transaction has committed, or rolled back. -/
def Reading.commit (s : Reading) : Except StoreError (Store × Certificate) → Reading
  | .ok (store, certificate) => { s with store, taken := s.taken ++ [certificate.changed] }
  | .error _ => s

/-- `issued_since(start)`, from `store` on, with pages of `limit` certificates. -/
def issuedSince (store : Store) (enrolled : Enrolled) (limit : Nat) (start : Nat) :
    Machine Reading ReadingStep where
  init s := s = ⟨store, [], .startingAt start⟩
  next s
    | .recordCertificate order new now =>
      some (s.commit (s.store.recordCertificate order new now))
    | .revoke serial reason now => some (s.commit (s.store.revoke serial reason now))
    | .page =>
      if s.loop.outcome.isSome then none
      else some { s with loop := s.loop.turn (s.store.issued enrolled limit s.loop.after) }

/-! ## What a loop has read -/

/-- The pages that a loop started at `start` has read are rows of the feed. -/
def Loop.Reads (store : Store) (enrolled : Enrolled) (start : Nat) (loop : Loop) : Prop :=
  ∃ (read : List Certificate) (after : Int),
    loop.certificates = read.map Acme.issued ∧
    (store.feed enrolled.issuers).Collected Certificate.serial Certificate.changed Revokes
      start after read ∧
    (loop.outcome = none → after = loop.after) ∧
    ∀ certificates, loop.outcome = some (.ok certificates) → certificates = loop.certificates

variable {store store' : Store} {enrolled : Enrolled} {limit start : Nat} {loop : Loop}

theorem Loop.Reads.startingAt (h : (start : Int) ≤ store.lastChange) :
    (Loop.startingAt start).Reads store enrolled start := by
  refine ⟨[], start, rfl, .nil h, fun _ => rfl, ?_⟩
  intro certificates hsome
  cases hsome

theorem Loop.Reads.changed (h : loop.Reads store enrolled start) {new : Certificate}
    (hchanged : Changed store store' new) : loop.Reads store' enrolled start := by
  obtain ⟨read, after, hread, hcollected, hrest⟩ := h
  exact ⟨read, after, hread,
    hcollected.advance (store.feed_sound _) hchanged.advance, hrest⟩

/-- A loop that stops for an error returns nothing. -/
theorem Loop.Reads.fail (h : loop.Reads store enrolled start) (error : BrokerError) :
    { loop with outcome := some (.error error) : Loop }.Reads store enrolled start := by
  obtain ⟨read, after, hread, hcollected, -, -⟩ := h
  refine ⟨read, after, hread, hcollected, ?_, ?_⟩
  · intro hnone
    cases hnone
  · intro certificates hsome
    cases hsome

/-- The page a broker answers with, as rows of its feed. -/
theorem issued_ok (hfit : ChangesFit store) {after : Nat} {page : IssuedPage}
    (h : store.issued enrolled limit after = .ok page) :
    page.certificates =
        (store.changedAfter after enrolled.issuers limit).certificates.map Acme.issued ∧
      (page.next : Int) = nextAfter (store.changedAfter after enrolled.issuers limit) after ∧
      page.more = (store.changedAfter after enrolled.issuers limit).more := by
  unfold Store.issued at h
  split at h
  · cases h
  · cases h
    refine ⟨rfl, ?_, rfl⟩
    unfold nextAfter
    rw [List.getLast?_map]
    cases hlast : (store.changedAfter after enrolled.issuers limit).certificates.getLast? with
    | none => rfl
    | some last =>
      obtain ⟨⟨hmem, -⟩, hlt, -⟩ := mem_changedAfter.mp (List.mem_of_getLast? hlast)
      exact asU64_of_nonneg (by omega) (hfit last hmem)

theorem Loop.Reads.turn (h : loop.Reads store enrolled start) (hfit : ChangesFit store)
    (hloop : loop.outcome = none) :
    (loop.turn (store.issued enrolled limit loop.after)).Reads store enrolled start := by
  cases hpage : store.issued enrolled limit loop.after with
  | error refusal => exact h.fail (.refused refusal)
  | ok page =>
    obtain ⟨hcerts, hnext, -⟩ := issued_ok hfit hpage
    obtain ⟨read, after, hread, hcollected, hafter, -⟩ := h
    rw [hafter hloop] at hcollected
    have hall : loop.certificates ++ page.certificates =
        (read ++ (store.changedAfter loop.after enrolled.issuers limit).certificates).map
          Acme.issued := by
      rw [hread, hcerts, List.map_append]
    have hlast : (page.next : Int) ≤ (store.feed enrolled.issuers).top := by
      rw [hnext]
      exact nextAfter_le_top hcollected.le_top
    have hpages := hcollected.page (store.feed_sound _) (hnext ▸ le_nextAfter) hlast
      changedAfter_sorted fun row => hnext ▸ mem_changedAfter
    simp only [Loop.turn]
    split
    · refine ⟨_, page.next, hall, hpages, ?_, ?_⟩
      · intro hnone
        cases hnone
      · intro certificates hsome
        cases hsome
        rfl
    · refine ⟨_, page.next, hall, hpages, fun _ => rfl, ?_⟩
      intro certificates hsome
      rw [hloop] at hsome
      cases hsome

/-! ## The invariant -/

/-- What holds between pages of a reading that started at `start` with the store
`begun`. -/
structure ReadingInv (begun : Store) (enrolled : Enrolled) (start : Nat) (s : Reading) :
    Prop where
  fit : ChangesFit s.store
  /-- Each change taken is above the one before, and the last is the newest. -/
  rising : (begun.lastChange :: s.taken).Pairwise (· < ·)
  taken_le : ∀ change ∈ begun.lastChange :: s.taken, change ≤ s.store.lastChange
  /-- A certificate that is not as it was has a change taken since. -/
  since : ∀ c ∈ s.store.certificates.rows,
    c ∈ begun.certificates.rows ∨ begun.lastChange < c.changed
  reads : (start : Int) ≤ begun.lastChange → s.loop.Reads s.store enrolled start

variable {begun : Store} {s t : Reading}

/-- A commit takes a change above all before it. -/
theorem ReadingInv.commit (h : ReadingInv begun enrolled start s)
    {result : Except StoreError (Store × Certificate)}
    (hok : ∀ store certificate, result = .ok (store, certificate) →
      Changed s.store store certificate) :
    ReadingInv begun enrolled start (s.commit result) := by
  cases result with
  | error e => exact h
  | ok result =>
    obtain ⟨store, certificate⟩ := result
    have hchanged := hok store certificate rfl
    have htop : store.lastChange = certificate.changed := hchanged.top
    have hlt : s.store.lastChange < certificate.changed := by
      rw [hchanged.changed]
      exact lastChange_lt_nextChange
    have hbelow : ∀ change ∈ begun.lastChange :: s.taken, change < certificate.changed :=
      fun change hchange => (h.taken_le change hchange).trans_lt hlt
    refine ⟨hchanged.fit h.fit, ?_, ?_, ?_, fun hstart => (h.reads hstart).changed hchanged⟩
    · show ((begun.lastChange :: s.taken) ++ [certificate.changed]).Pairwise (· < ·)
      rw [List.pairwise_append]
      refine ⟨h.rising, List.pairwise_singleton _ _, ?_⟩
      intro change hchange new hnew
      rw [List.mem_singleton.mp hnew]
      exact hbelow change hchange
    · show ∀ change ∈ (begun.lastChange :: s.taken) ++ [certificate.changed],
        change ≤ store.lastChange
      intro change hchange
      rw [htop]
      rcases List.mem_append.mp hchange with hold | hnew
      · exact (hbelow change hold).le
      · exact (List.mem_singleton.mp hnew).le
    · intro c hc
      rcases (hchanged.rows c).mp hc with rfl | ⟨hold, -⟩
      · exact Or.inr (hbelow _ List.mem_cons_self)
      · exact h.since c hold

theorem readingInv_reachable (hfit : ChangesFit begun)
    (hs : (issuedSince begun enrolled limit start).system.Reachable s) :
    ReadingInv begun enrolled start s := by
  have hinv : (issuedSince begun enrolled limit start).system.Invariant
      (ReadingInv begun enrolled start) := by
    refine ⟨?_, ?_⟩
    · rintro s rfl
      refine ⟨hfit, List.pairwise_singleton _ _, ?_, fun c hc => Or.inl hc, .startingAt⟩
      intro change hchange
      exact (List.mem_singleton.mp hchange).le
    · intro s t l h hstep
      cases l with
      | recordCertificate order new now =>
        cases hstep
        exact h.commit fun _ _ hok => changed_of_recordCertificate hok
      | revoke serial reason now =>
        cases hstep
        exact h.commit fun _ _ hok => changed_of_revoke hok
      | page =>
        simp only [Machine.system, issuedSince] at hstep
        split at hstep
        next => cases hstep
        next hloop =>
          cases hstep
          exact ⟨h.fit, h.rising, h.taken_le, h.since,
            fun hstart => (h.reads hstart).turn h.fit (by simpa using hloop)⟩
  exact hinv.reachable hs

/-! ## The end of the loop -/

theorem next_page (hloop : s.loop.outcome = none) :
    (issuedSince begun enrolled limit start).next s .page =
      some { s with loop := s.loop.turn (s.store.issued enrolled limit s.loop.after) } := by
  simp [issuedSince, hloop]

/-- A turn either ends the loop or goes on to a page with less to read. -/
theorem turn_cases (limit : Nat) (hfit : ChangesFit store) (hloop : loop.outcome = none) :
    let turned := loop.turn (store.issued enrolled limit loop.after)
    turned.outcome.isSome = true ∨
      turned.outcome = none ∧
        (changedRows store turned.after enrolled.issuers).length <
          (changedRows store loop.after enrolled.issuers).length := by
  cases hpage : store.issued enrolled limit loop.after with
  | error refusal => exact Or.inl rfl
  | ok page =>
    obtain ⟨-, hnext, -⟩ := issued_ok hfit hpage
    by_cases hstop : (!page.more || page.next ≤ loop.after : Bool) = true
    · left
      simp [Loop.turn, hstop]
    · right
      have hlt : (loop.after : Int) <
          nextAfter (store.changedAfter loop.after enrolled.issuers limit) loop.after := by
        rw [← hnext]
        simp at hstop
        omega
      simp only [Loop.turn, hstop]
      refine ⟨hloop, ?_⟩
      show (changedRows store page.next enrolled.issuers).length < _
      rw [hnext]
      exact changedRows_lt hlt

/-- Once the broker stops changing, the loop ends. -/
theorem exec_pages (hfit : ChangesFit s.store) (hloop : s.loop.outcome = none) :
    ∃ pages t, (issuedSince begun enrolled limit start).exec
        (List.replicate pages .page) s = some t ∧ t.loop.outcome.isSome = true := by
  induction hleft : (changedRows s.store s.loop.after enrolled.issuers).length
    using Nat.strong_induction_on generalizing s with
  | _ left ih =>
    rcases turn_cases limit hfit hloop with hdone | ⟨hmore, hless⟩
    · refine ⟨1, { s with loop := s.loop.turn _ }, ?_, hdone⟩
      rw [List.replicate_one, Machine.exec_cons, next_page hloop]
      rfl
    · obtain ⟨pages, t, hexec, hdone⟩ := ih _ (hleft ▸ hless)
        (s := { s with loop := s.loop.turn (s.store.issued enrolled limit s.loop.after) })
        hfit hmore rfl
      refine ⟨pages + 1, t, ?_, hdone⟩
      rw [List.replicate_succ, Machine.exec_cons, next_page hloop]
      exact hexec

/-- A loop that returns has read every change there was when its last page was. -/
theorem Loop.Reads.complete (h : loop.Reads store enrolled start) (hlimit : 1 ≤ limit)
    (hfit : ChangesFit store) (hloop : loop.outcome = none)
    {certificates : List IssuedCertificate}
    (hdone : (loop.turn (store.issued enrolled limit loop.after)).outcome =
      some (.ok certificates))
    {c : Certificate} (hc : c ∈ (store.feed enrolled.issuers).rows)
    (hlt : (start : Int) < c.changed) : Acme.issued c ∈ certificates := by
  obtain ⟨read, after, hread, hcollected, hafter, -⟩ := h
  rw [hafter hloop] at hcollected
  cases hpage : store.issued enrolled limit loop.after with
  | error refusal =>
    rw [hpage] at hdone
    cases hdone
  | ok page =>
    obtain ⟨hcerts, hnext, hmore⟩ := issued_ok hfit hpage
    simp only [hpage, Loop.turn] at hdone
    split at hdone
    next hstop =>
      cases hdone
      by_cases hold : c.changed ≤ loop.after
      · have hmem := (latest_eq_some (hcollected.newest c hc hlt hold)).1
        rw [hread]
        exact List.mem_append_left _ (List.mem_map_of_mem hmem)
      · -- the page that ends the loop is the last there is
        have hlast : (store.changedAfter loop.after enrolled.issuers limit).more = false := by
          cases hwait : (store.changedAfter loop.after enrolled.issuers limit).more with
          | false => rfl
          | true =>
            have hmoves := lt_nextAfter hlimit hwait
            rw [← hnext] at hmoves
            simp [hmore, hwait] at hstop
            omega
        rw [hcerts]
        exact List.mem_append_right _
          (List.mem_map_of_mem (mem_of_not_more hlast hc (not_le.mp hold)))
    next => simp [hloop] at hdone

/-! ## Agreement -/

/-- The desktop agrees with the broker on every certificate of its issuers that has
not changed since `cursor`. -/
def AgreesTo (chrono : Chrono) (enrolled : Enrolled) (store : Store) (table : BrokerCerts)
    (id : Int) (cursor : Int) : Prop :=
  ∀ c ∈ store.certificates.rows, issuedBy enrolled.issuers c = true → c.changed ≤ cursor →
    ∃ row ∈ table.rows, row.key = (id, c.serial) ∧
      BrokerCerts.content chrono id c = .ok { row with changed := 0 }

/-- And `cursor` is a change that the broker has made. -/
structure Agreed (chrono : Chrono) (enrolled : Enrolled) (store : Store) (table : BrokerCerts)
    (id : Int) (cursor : Int) : Prop where
  handed : cursor ≤ store.lastChange
  held : AgreesTo chrono enrolled store table id cursor

theorem agreed_iff_mirrors {chrono : Chrono} {store : Store} {table : BrokerCerts}
    {id cursor : Int} :
    Agreed chrono enrolled store table id cursor ↔
      (store.feed enrolled.issuers).Mirrors Certificate.serial Certificate.changed
        (BrokerCerts.content chrono id) (table.held id) cursor := by
  constructor
  · rintro ⟨hhanded, hheld⟩
    refine ⟨hhanded, ?_⟩
    rintro c ⟨hc, hours⟩ hle
    obtain ⟨row, hrow, hkey, hcontent⟩ := hheld c hc hours hle
    unfold BrokerCerts.held
    rw [BrokerCerts.get?_eq_some.mpr ⟨hrow, hkey⟩, hcontent]
    rfl
  · rintro ⟨hle, hheld⟩
    refine ⟨hle, ?_⟩
    intro c hc hours hchanged
    obtain ⟨row, hrow, hcontent⟩ := Option.map_eq_some_iff.mp (hheld c ⟨hc, hours⟩ hchanged)
    obtain ⟨hmem, hkey⟩ := BrokerCerts.get?_eq_some.mp hrow
    exact ⟨row, hmem, hkey, hcontent.symm⟩

/-- What a reading of the feed promises. -/
structure MissesNothing (chrono : Chrono) (enrolled : Enrolled) (limit : Nat) (begun : Store)
    (start : Nat) (s : Reading) : Prop where
  unique : (s.store.certificates.rows.map Certificate.changed).Nodup
  rising : (begun.lastChange :: s.taken).Pairwise (· < ·)
  ends : ∃ pages t, (issuedSince begun enrolled limit start).exec
    (List.replicate pages .page) s = some t ∧ t.loop.outcome.isSome = true
  complete : (start : Int) ≤ begun.lastChange → ∀ t certificates,
    s.loop.outcome = none → (issuedSince begun enrolled limit start).next s .page = some t →
    t.loop.outcome = some (.ok certificates) →
    ∀ c ∈ s.store.certificates.rows, issuedBy enrolled.issuers c = true →
      (start : Int) < c.changed → Acme.issued c ∈ certificates
  /-- Recording what was returned takes the agreement to the new cursor. -/
  agrees : ∀ (id : Int) (table : BrokerCerts), table.brokerCursor id ≤ start →
    Agreed chrono enrolled begun table id start →
    ∀ certificates table', s.loop.outcome = some (.ok certificates) →
      table.recordIssued chrono id certificates = .ok table' →
      Agreed chrono enrolled s.store table' id (table'.brokerCursor id)

/-- **The feed misses nothing.**  Whatever is committed between its pages, from any
store and any cursor that the broker's changes have come to. -/
theorem issued_since_misses_nothing (chrono : Chrono) {begun : Store} (hfit : ChangesFit begun)
    (enrolled : Enrolled) {limit : Nat} (hlimit : 1 ≤ limit) (start : Nat) {s : Reading}
    (hs : (issuedSince begun enrolled limit start).system.Reachable s) :
    MissesNothing chrono enrolled limit begun start s := by
  have h := readingInv_reachable hfit hs
  refine ⟨s.store.certificates.unique.changes, h.rising, ?_, ?_, ?_⟩
  · cases hloop : s.loop.outcome with
    | none => exact exec_pages h.fit hloop
    | some outcome =>
      refine ⟨0, s, rfl, ?_⟩
      rw [hloop]
      rfl
  · intro hstart t certificates hloop hstep hdone c hc hours hlt
    rw [next_page hloop] at hstep
    cases hstep
    exact (h.reads hstart).complete hlimit h.fit hloop hdone ⟨hc, hours⟩ hlt
  · intro id table hcursor hagreed certificates table' hdone hrecord
    obtain ⟨read, after, hread, hcollected, -, hreturned⟩ := h.reads hagreed.handed
    rw [hreturned certificates hdone, hread] at hrecord
    rw [agreed_iff_mirrors] at hagreed ⊢
    rw [BrokerCerts.held_recordIssued hrecord]
    have hmirrors : (s.store.feed enrolled.issuers).Mirrors Certificate.serial
        Certificate.changed (BrokerCerts.content chrono id) (table.held id) start := by
      refine ⟨hcollected.start_le.trans hcollected.le_top, ?_⟩
      rintro c ⟨hc, hours⟩ hle
      rcases h.since c hc with hold | hnew
      · exact hagreed.held c ⟨hold, hours⟩ hle
      · exact absurd (hle.trans hagreed.le_top) (not_le.mpr hnew)
    refine hmirrors.record hcollected (le_refl _) ?_ ?_
    · intro row hrow hle x hx
      exact hcollected.fresh (s.store.feed_sound _) hrow hle hx
    · refine BrokerCerts.brokerCursor_le_of_recordIssued hrecord
        (hcursor.trans (le_max_left _ _)) ((Int.natCast_nonneg start).trans (le_max_left _ _)) ?_
      intro c hc
      obtain ⟨hlt, hle⟩ := hcollected.between c hc
      have hfits := hle.trans (hcollected.le_top.trans (lastChange_le h.fit))
      rw [asU64_of_nonneg (by omega) hfits]
      exact hle.trans (le_max_right _ _)

/-- A broker that has issued two certificates. -/
def twoIssued : Store :=
  let leaf (id : Int) (serial : String) : Certificate :=
    ⟨id, serial, 1, id, none, ["a.example"], 0, 1000, "", "5", none, none, 0, id⟩
  { Store.empty with certificates := ⟨[leaf 1 "10", leaf 2 "20"], by decide⟩ }

/-- `chrono` on the one time it is given here. -/
def plainChrono : Chrono where
  parseFromRfc3339 _ := .ok 0
  openssl _ := "19700101000000Z"

/-- A certificate that is revoked while the pages are read is read twice. -/
theorem issued_since_misses_nothing_revoked :
    ∃ s : Reading, s.loop.certificates.map IssuedCertificate.changed = [1, 2, 3] ∧
      s.loop.outcome.isSome = true ∧
      MissesNothing plainChrono ⟨some ["5"], false⟩ 1 twoIssued 0 s := by
  obtain ⟨s, hs, hview⟩ := Machine.exists_reachable_of_exec
    (M := issuedSince twoIssued ⟨some ["5"], false⟩ 1 0) rfl
    [.page, .revoke "10" none 5, .page, .page]
    (fun s => s.loop.certificates.map IssuedCertificate.changed = [1, 2, 3] ∧
      s.loop.outcome.isSome = true)
    (by decide)
  obtain ⟨hread, hdone⟩ := of_decide_eq_true hview
  exact ⟨s, hread, hdone, issued_since_misses_nothing plainChrono (by
    unfold ChangesFit
    decide) _ (by decide) 0 hs⟩

/-- What the desktop keeps of these two, and of one more that the broker no longer knows. -/
def keptBeyond : BrokerCerts :=
  let row (serial : String) (changed : Int) : BrokerCert :=
    ⟨1, serial, none, ["a.example"], "19700101000000Z", "19700101000000Z", "5", none, none,
      changed⟩
  BrokerCerts.empty.recordBrokerCerts [row "10" 1, row "20" 2, row "30" 5]

/-- From a cursor that the broker has not come to, a revocation between is not read. -/
theorem issued_since_misses_beyond :
    ¬ ∀ (begun : Store) (enrolled : Enrolled) (limit start : Nat) (s : Reading),
      ChangesFit begun → 1 ≤ limit →
      (issuedSince begun enrolled limit start).system.Reachable s →
      ∀ (id : Int) (table table' : BrokerCerts) (certificates : List IssuedCertificate),
        table.brokerCursor id = start → AgreesTo plainChrono enrolled begun table id start →
        s.loop.outcome = some (.ok certificates) →
        table.recordIssued plainChrono id certificates = .ok table' →
        AgreesTo plainChrono enrolled s.store table' id (table'.brokerCursor id) := by
  intro hclaim
  have hfit : ChangesFit twoIssued := by
    unfold ChangesFit
    decide
  have hagrees : AgreesTo plainChrono ⟨some ["5"], false⟩ twoIssued keptBeyond 1 5 := by
    unfold AgreesTo
    decide
  obtain ⟨s, hs, hview⟩ := Machine.exists_reachable_of_exec
    (M := issuedSince twoIssued ⟨some ["5"], false⟩ 1 5) rfl [.revoke "10" none 5, .page]
    (fun s => s.loop.outcome = some (.ok []) ∧ s.store.certificates.rows.any fun c =>
      c.serial = "10" && issuedBy (some ["5"]) c && c.changed = 3 &&
        (BrokerCerts.content plainChrono 1 c).toOption.any (·.revokedAt.isSome))
    (by decide)
  obtain ⟨hread, hrevoked⟩ := of_decide_eq_true hview
  simp only [List.any_eq_true, Bool.and_eq_true, decide_eq_true_eq] at hrevoked
  obtain ⟨c, hc, ⟨⟨hserial, hours⟩, hchanged⟩, hsome⟩ := hrevoked
  have hcursor : keptBeyond.brokerCursor 1 = 5 := by decide
  obtain ⟨row, hrow, hkey, hcontent⟩ := hclaim _ _ 1 5 s hfit (le_refl 1) hs 1 keptBeyond
    keptBeyond [] hcursor hagrees hread rfl c hc hours (by rw [hchanged, hcursor]; decide)
  have hunrevoked : ∀ row ∈ keptBeyond.rows, row.revokedAt = none := by decide
  have hisSome : row.revokedAt.isSome = true := by
    rw [hcontent] at hsome
    exact hsome
  rw [hunrevoked row hrow] at hisSome
  cases hisSome

end Opca.Core

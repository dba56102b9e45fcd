/-
  Core/LeafDue.lean --- the leaves of the watched brokers that their ACME clients
  should have renewed by now (`services/acme_broker/leaf_due.rs`).
-/
import Opca.Core.Database

set_option autoImplicit false

namespace Opca.Core

open Opca.Foundation Acme

/-- A broker's leaf that its ACME client should have renewed by now. -/
structure LeafDue where
  brokerId : Int
  serial : String
  name : String
  /-- Negative once expired. -/
  days : Int
  deriving DecidableEq, Repr

namespace LeafDue

/-- Past this, an expired leaf is taken to belong to something decommissioned. -/
def forgottenAfterDays : Int := 14

structure Leaf where
  cert : BrokerCert
  names : List String
  notBefore : Time
  notAfter : Time
  deriving DecidableEq, Repr

/-- A certificate whose times are read. -/
def Leaf.of (times : OpensslTimes) (cert : BrokerCert) : Option Leaf := do
  let notBefore ← times.parse cert.notBefore
  let notAfter ← times.parse cert.notAfter
  some ⟨cert, btreeSet (cert.sans.map toAsciiLowercase), notBefore, notAfter⟩

/-- The whole days of a duration, towards zero, as `num_days` counts them. -/
def numDays (duration : Time) : Int := (duration.tdiv second).tdiv 86400

/-- Where ACME clients renew: two thirds of the life, in whole nanoseconds. -/
def Leaf.renewFrom (leaf : Leaf) : Time :=
  leaf.notBefore + ((leaf.notAfter - leaf.notBefore) * 2).tdiv 3

/-- Past two-thirds of its life, and not long expired. -/
def Leaf.due (now : Time) (leaf : Leaf) : Bool :=
  decide (leaf.renewFrom ≤ now) && decide (now - leaf.notAfter ≤ day * forgottenAfterDays)

/-- Whether a leaf is a later one for the same names. -/
def Leaf.succeeds (later earlier : Leaf) : Bool :=
  decide (later.cert.brokerId = earlier.cert.brokerId) && decide (later.names = earlier.names) &&
    decide (earlier.notBefore < later.notBefore)

/-- What is told of a leaf. -/
def Leaf.entry (now : Time) (leaf : Leaf) : LeafDue where
  brokerId := leaf.cert.brokerId
  serial := leaf.cert.serial
  name := (leaf.cert.commonName.or leaf.cert.sans.head?).getD ""
  days := numDays (leaf.notAfter - now)

section

variable (times : OpensslTimes) (watched : List Int)

/-- The unrevoked leaves of the watched brokers. -/
def leaves (certs : List BrokerCert) : List Leaf :=
  (certs.filter fun c => c.revokedAt.isNone && decide (c.brokerId ∈ watched)).filterMap
    (Leaf.of times)

/-- Those of them that are due and that no later one succeeds. -/
def wanted (certs : List BrokerCert) (now : Time) : List Leaf :=
  (leaves times watched certs).filter fun leaf =>
    leaf.due now && !(leaves times watched certs).any (·.succeeds leaf)

/-- The unrevoked leaves of the watched brokers that are due for renewal and have no
later unrevoked leaf for the same names, soonest to expire first. -/
def leavesDue (certs : List BrokerCert) (now : Time) : List LeafDue :=
  ((wanted times watched certs now).map (Leaf.entry now)).insertionSort (·.days ≤ ·.days)

end

variable {times : OpensslTimes} {watched : List Int} {certs certs' : List BrokerCert}
  {now : Time} {leaf later : Leaf} {c : BrokerCert}

/-! ## Sets of names -/

/-- Leaves of one broker for one set of names, whatever the case. -/
def SameSet (a b : Leaf) : Prop := a.cert.brokerId = b.cert.brokerId ∧ a.names = b.names

instance (a b : Leaf) : Decidable (SameSet a b) := inferInstanceAs (Decidable (_ ∧ _))

theorem succeeds_iff :
    later.succeeds leaf = true ↔ SameSet later leaf ∧ leaf.notBefore < later.notBefore := by
  simp only [Leaf.succeeds, SameSet, Bool.and_eq_true, decide_eq_true_eq]

theorem Leaf.of_eq_some : Leaf.of times c = some leaf ↔
    times.parse c.notBefore = some leaf.notBefore ∧
      times.parse c.notAfter = some leaf.notAfter ∧ leaf.cert = c ∧
      leaf.names = btreeSet (c.sans.map toAsciiLowercase) := by
  obtain ⟨cert, names, notBefore, notAfter⟩ := leaf
  simp only [Leaf.of, Option.bind_eq_bind, Option.bind_eq_some_iff, Option.some.injEq,
    Leaf.mk.injEq]
  constructor
  · rintro ⟨start, hstart, stop, hstop, rfl, rfl, rfl, rfl⟩
    exact ⟨hstart, hstop, rfl, rfl⟩
  · rintro ⟨hstart, hstop, rfl, rfl⟩
    exact ⟨notBefore, hstart, notAfter, hstop, rfl, rfl, rfl, rfl⟩

theorem btreeSet_eq_iff {xs ys : List String} :
    btreeSet xs = btreeSet ys ↔ ∀ x, x ∈ xs ↔ x ∈ ys := by
  refine ⟨fun h x => ?_, btreeSet_congr⟩
  rw [← mem_btreeSet, h, mem_btreeSet]

/-- One set of names is one set of the lower-case ones. -/
theorem sameSet_iff {a b : Leaf} {c d : BrokerCert} (ha : Leaf.of times c = some a)
    (hb : Leaf.of times d = some b) : SameSet a b ↔ c.brokerId = d.brokerId ∧
      ∀ n, n ∈ c.sans.map toAsciiLowercase ↔ n ∈ d.sans.map toAsciiLowercase := by
  obtain ⟨-, -, rfl, hnames⟩ := Leaf.of_eq_some.mp ha
  obtain ⟨-, -, rfl, hnames'⟩ := Leaf.of_eq_some.mp hb
  rw [SameSet, hnames, hnames', btreeSet_eq_iff]

theorem mem_leaves : leaf ∈ leaves times watched certs ↔
    ∃ c ∈ certs, c.revokedAt = none ∧ c.brokerId ∈ watched ∧ Leaf.of times c = some leaf := by
  simp only [leaves, List.mem_filterMap, List.mem_filter, Bool.and_eq_true,
    Option.isNone_iff_eq_none, decide_eq_true_eq, and_assoc]

/-! ## What is due -/

theorem twoThirds_le_iff {start life now : Int} : start + (life * 2).tdiv 3 ≤ now ↔
    if 0 ≤ life then 2 * life < 3 * (now - start) + 3 else 2 * life ≤ 3 * (now - start) := by
  split
  · next hpos =>
    rw [Int.tdiv_eq_ediv_of_nonneg (by omega)]
    omega
  · next hneg =>
    have hneg' : life * 2 = -(-life * 2) := by omega
    rw [hneg', Int.neg_tdiv, Int.tdiv_eq_ediv_of_nonneg (by omega)]
    omega

/-- A leaf is due from two thirds of its life, or less than a nanosecond before. -/
theorem renewFrom_le_iff : leaf.renewFrom ≤ now ↔
    if 0 ≤ leaf.notAfter - leaf.notBefore then
      2 * (leaf.notAfter - leaf.notBefore) < 3 * (now - leaf.notBefore) + 3
    else 2 * (leaf.notAfter - leaf.notBefore) ≤ 3 * (now - leaf.notBefore) :=
  twoThirds_le_iff

/-- The first of its set among leaves: none of them starts later. -/
def Latest (among : List Leaf) (leaf : Leaf) : Prop :=
  ∀ other ∈ among, SameSet other leaf → other.notBefore ≤ leaf.notBefore

instance (among : List Leaf) : DecidablePred (Latest among) := fun leaf =>
  inferInstanceAs (Decidable (∀ other ∈ among, SameSet other leaf → _ ≤ _))

theorem not_any_succeeds {among : List Leaf} :
    (!among.any (·.succeeds leaf)) = decide (Latest among leaf) := by
  rw [Bool.eq_iff_iff, decide_eq_true_iff]
  simp only [Bool.not_eq_true', List.any_eq_false, succeeds_iff, not_and, Latest, not_lt]

theorem wanted_eq : wanted times watched certs now =
    (leaves times watched certs).filter fun leaf =>
      leaf.due now && decide (Latest (leaves times watched certs) leaf) := by
  simp only [wanted, not_any_succeeds]

theorem perm_leavesDue :
    (leavesDue times watched certs now).Perm
      ((wanted times watched certs now).map (Leaf.entry now)) :=
  List.perm_insertionSort ..

theorem pairwise_leavesDue :
    (leavesDue times watched certs now).Pairwise (·.days ≤ ·.days) := by
  have : Std.Total (fun a b : LeafDue => a.days ≤ b.days) := ⟨fun a b => Int.le_total ..⟩
  have : IsTrans LeafDue (fun a b => a.days ≤ b.days) := ⟨fun a b c => Int.le_trans⟩
  exact List.pairwise_insertionSort (fun a b : LeafDue => a.days ≤ b.days) _

/-! ## Other inputs -/

theorem leaves_perm (h : certs.Perm certs') :
    (leaves times watched certs).Perm (leaves times watched certs') :=
  (h.filter _).filterMap _

theorem wanted_perm (h : certs.Perm certs') :
    (wanted times watched certs now).Perm (wanted times watched certs' now) := by
  have hleaves : (leaves times watched certs).Perm (leaves times watched certs') := leaves_perm h
  rw [wanted_eq, wanted_eq]
  have hlatest : ∀ leaf, Latest (leaves times watched certs) leaf ↔
      Latest (leaves times watched certs') leaf := fun leaf =>
    ⟨fun hl other hother => hl other (hleaves.mem_iff.mpr hother),
      fun hl other hother => hl other (hleaves.mem_iff.mp hother)⟩
  simp only [hlatest]
  exact hleaves.filter _

theorem leaves_append :
    leaves times watched (certs ++ certs') =
      leaves times watched certs ++ leaves times watched certs' := by
  simp only [leaves, List.filter_append, List.filterMap_append]

/-- A revoked certificate counts for nothing. -/
theorem leaves_cons_of_revoked (h : c.revokedAt ≠ none) :
    leaves times watched (c :: certs) = leaves times watched certs := by
  simp [leaves, h]

theorem leaves_cons (hrevoked : c.revokedAt = none) (hwatched : c.brokerId ∈ watched)
    (hleaf : Leaf.of times c = some leaf) :
    leaves times watched (c :: certs) = leaf :: leaves times watched certs := by
  simp [leaves, hrevoked, hwatched, hleaf]

/-- One more leaf takes away what it succeeds, and is there itself if it is due and
nothing succeeds it. -/
theorem wanted_cons (hrevoked : c.revokedAt = none) (hwatched : c.brokerId ∈ watched)
    (hleaf : Leaf.of times c = some leaf) :
    wanted times watched (c :: certs) now =
      (if leaf.due now && decide (Latest (leaves times watched certs) leaf) then [leaf] else []) ++
        (wanted times watched certs now).filter fun earlier => !leaf.succeeds earlier := by
  have hself : leaf.succeeds leaf = false := by
    rw [← Bool.not_eq_true, succeeds_iff]
    exact fun h => Int.lt_irrefl _ h.2
  rw [wanted, leaves_cons hrevoked hwatched hleaf, List.filter_cons]
  simp only [List.any_cons, hself, Bool.false_or, not_any_succeeds]
  rw [wanted_eq, List.filter_filter]
  have hrest : ∀ earlier, (earlier.due now && !(leaf.succeeds earlier ||
      (leaves times watched certs).any (·.succeeds earlier))) =
      (!leaf.succeeds earlier &&
        (earlier.due now && decide (Latest (leaves times watched certs) earlier))) := by
    intro earlier
    rw [Bool.not_or, not_any_succeeds, Bool.and_left_comm]
  simp only [hrest]
  split <;> rfl

/-- Where the later leaf is put among the others does not matter. -/
theorem leavesDue_insert (before after : List BrokerCert) (hrevoked : c.revokedAt = none)
    (hwatched : c.brokerId ∈ watched) (hleaf : Leaf.of times c = some leaf) :
    (leavesDue times watched (before ++ c :: after) now).Perm
      (((if leaf.due now && decide (Latest (leaves times watched (before ++ after)) leaf)
            then [leaf] else []) ++
          (wanted times watched (before ++ after) now).filter fun earlier =>
            !leaf.succeeds earlier).map (Leaf.entry now)) := by
  refine perm_leavesDue.trans (List.Perm.map _ ?_)
  rw [← wanted_cons hrevoked hwatched hleaf]
  exact wanted_perm List.perm_middle

/-- A revoked leaf is as good as none. -/
theorem leavesDue_revoked (before after : List BrokerCert) (h : c.revokedAt ≠ none) :
    leavesDue times watched (before ++ c :: after) now =
      leavesDue times watched (before ++ after) now := by
  simp only [leavesDue, wanted, leaves_append, leaves_cons_of_revoked h]

/-! ## The whole -/

/-- At or past two thirds of its life, as a clock of whole nanoseconds can tell. -/
def PastTwoThirds (now : Time) (leaf : Leaf) : Prop :=
  if 0 ≤ leaf.notAfter - leaf.notBefore then
    2 * (leaf.notAfter - leaf.notBefore) < 3 * (now - leaf.notBefore) + 3
  else 2 * (leaf.notAfter - leaf.notBefore) ≤ 3 * (now - leaf.notBefore)

theorem due_iff : leaf.due now = true ↔
    PastTwoThirds now leaf ∧ now - leaf.notAfter ≤ day * forgottenAfterDays := by
  simp only [Leaf.due, Bool.and_eq_true, decide_eq_true_eq, renewFrom_le_iff, PastTwoThirds]

/-- On a life of whole three nanoseconds the two thirds are exact. -/
theorem pastTwoThirds_iff (h : (leaf.notAfter - leaf.notBefore) % 3 = 0) :
    PastTwoThirds now leaf ↔
      2 * (leaf.notAfter - leaf.notBefore) ≤ 3 * (now - leaf.notBefore) := by
  unfold PastTwoThirds
  have hexact {life age : Int} (h : life % 3 = 0) :
      (if 0 ≤ life then 2 * life < 3 * age + 3 else 2 * life ≤ 3 * age) ↔
        2 * life ≤ 3 * age := by
    split <;> omega
  exact hexact h

/-- The leaves that are told are those of their set that start last, are past two
thirds of their life and not long expired; a later one takes its set's place and gives
it back when it is revoked, and the order of the certificates does not count. -/
theorem due_of_every_set (times : OpensslTimes) (watched : List Int) (certs : List BrokerCert)
    (now : Time) (hread : ∀ c ∈ certs, (Leaf.of times c).isSome = true) :
    (∀ c ∈ certs, c.revokedAt = none → c.brokerId ∈ watched →
      ∃ leaf ∈ leaves times watched certs, Leaf.of times c = some leaf) ∧
    (∀ leaf ∈ leaves times watched certs, ∃ c ∈ certs,
      c.revokedAt = none ∧ c.brokerId ∈ watched ∧ Leaf.of times c = some leaf) ∧
    ((leavesDue times watched certs now).Perm
        (((leaves times watched certs).filter fun leaf =>
          leaf.due now && decide (Latest (leaves times watched certs) leaf)).map
            (Leaf.entry now)) ∧
      (leavesDue times watched certs now).Pairwise (·.days ≤ ·.days)) ∧
    (∀ leaf, leaf.due now = true ↔
      PastTwoThirds now leaf ∧ now - leaf.notAfter ≤ day * forgottenAfterDays) ∧
    (∀ leaf, (leaf.notAfter - leaf.notBefore) % 3 = 0 → (PastTwoThirds now leaf ↔
      2 * (leaf.notAfter - leaf.notBefore) ≤ 3 * (now - leaf.notBefore))) ∧
    (∀ c d a b, Leaf.of times c = some a → Leaf.of times d = some b → (SameSet a b ↔
      c.brokerId = d.brokerId ∧
        ∀ n, n ∈ c.sans.map toAsciiLowercase ↔ n ∈ d.sans.map toAsciiLowercase)) ∧
    (∀ before after c leaf, certs = before ++ after → c.revokedAt = none →
      c.brokerId ∈ watched → Leaf.of times c = some leaf →
        (leavesDue times watched (before ++ c :: after) now).Perm
          (((if leaf.due now && decide (Latest (leaves times watched certs) leaf)
                then [leaf] else []) ++
              (wanted times watched certs now).filter fun earlier =>
                !leaf.succeeds earlier).map (Leaf.entry now)) ∧
        ∀ revokedAt, leavesDue times watched
          (before ++ { c with revokedAt := some revokedAt } :: after) now =
            leavesDue times watched certs now) ∧
    ∀ certs', certs.Perm certs' →
      (leavesDue times watched certs now).Perm (leavesDue times watched certs' now) ∧
        (leavesDue times watched certs' now).Pairwise (·.days ≤ ·.days) := by
  refine ⟨fun c hc hrevoked hwatched => ?_, fun leaf => mem_leaves.mp, ⟨?_, pairwise_leavesDue⟩,
    fun leaf => due_iff, fun leaf => pastTwoThirds_iff, fun c d a b => sameSet_iff, ?_,
    fun certs' hperm => ⟨?_, pairwise_leavesDue⟩⟩
  · obtain ⟨leaf, hleaf⟩ := Option.isSome_iff_exists.mp (hread c hc)
    exact ⟨leaf, mem_leaves.mpr ⟨c, hc, hrevoked, hwatched, hleaf⟩, hleaf⟩
  · rw [← wanted_eq]
    exact perm_leavesDue
  · rintro before after c leaf rfl hrevoked hwatched hleaf
    exact ⟨leavesDue_insert before after hrevoked hwatched hleaf,
      fun revokedAt => leavesDue_revoked before after (by simp)⟩
  · exact perm_leavesDue.trans (((wanted_perm hperm).map _).trans perm_leavesDue.symm)

/-! ## A leaf and its successors -/

/-- The days since 1970 that some texts stand for. -/
def dayTimes : OpensslTimes where
  parse text := ([("0", 0), ("15", 15), ("20", 20), ("5", 5), ("30", 30), ("35", 35), ("45", 45),
    ("50", 50)].lookup text).map (day * ·)
  format _ := "0"

/-- A leaf of thirty days for one name. -/
def monthLeaf (serial name notBefore notAfter : String) (revokedAt : Option String) :
    BrokerCert where
  brokerId := 1
  serial
  commonName := some name
  sans := [name]
  notBefore
  notAfter
  issuerSerial := "9"
  revokedAt
  revocationReason := none
  changed := 1

/-- A leaf that has a successor is not told, a later successor that is revoked takes nothing
away, and once the other is revoked too the first is told again. -/
theorem due_of_every_set_succeeded :
    let first := monthLeaf "1" "WWW.example.com" "0" "30" none
    let revoked := monthLeaf "3" "www.example.com" "20" "50" (some "30")
    let other := monthLeaf "4" "api.example.com" "5" "35" none
    let successor := monthLeaf "2" "www.example.com" "15" "45"
    (leavesDue dayTimes [1] [first, successor none, revoked, other] (40 * day)).Perm
        [⟨1, "2", "www.example.com", 5⟩, ⟨1, "4", "api.example.com", -5⟩] ∧
      (leavesDue dayTimes [1] [first, successor (some "40"), revoked, other] (40 * day)).Perm
        [⟨1, "1", "WWW.example.com", -10⟩, ⟨1, "4", "api.example.com", -5⟩] ∧
      (leavesDue dayTimes [1] [first, revoked, other] (40 * day)).Pairwise (·.days ≤ ·.days) := by
  intro first revoked other successor
  obtain ⟨-, -, ⟨hlisted, hsorted⟩, -, -, -, hsuccessor, -⟩ :=
    due_of_every_set dayTimes [1] [first, revoked, other] (40 * day) (by decide +kernel)
  obtain ⟨hadded, hrevoked⟩ := hsuccessor [first] [revoked, other] (successor none)
    ⟨successor none, ["www.example.com"], day * 15, day * 45⟩ rfl rfl (by decide)
    (by decide +kernel)
  refine ⟨hadded.trans (.of_eq (by decide +kernel)), ?_, hsorted⟩
  have hsame := hrevoked "40"
  exact (List.Perm.of_eq hsame).trans (hlisted.trans (.of_eq (by decide +kernel)))

/-! ## A leaf of a second -/

def secondTimes : OpensslTimes where
  parse text := if text = "19700101000000Z" then some 0
    else if text = "19700101000001Z" then some second else none
  format t := if t = 0 then "19700101000000Z" else "19700101000001Z"

def shortLeaf : BrokerCert where
  brokerId := 1
  serial := "1"
  commonName := some "www.example.com"
  sans := ["www.example.com"]
  notBefore := "19700101000000Z"
  notAfter := "19700101000001Z"
  issuerSerial := "2"
  revokedAt := none
  revocationReason := none
  changed := 1

/-- A leaf that is told before two thirds of its life have passed. -/
theorem shortLeaf_early :
    leavesDue secondTimes [1] [shortLeaf] 666666666 = [⟨1, "1", "www.example.com", 0⟩] ∧
      (Leaf.of secondTimes shortLeaf).any (fun leaf =>
        3 * (666666666 - leaf.notBefore) < 2 * (leaf.notAfter - leaf.notBefore)) = true := by
  decide

end LeafDue

end Opca.Core

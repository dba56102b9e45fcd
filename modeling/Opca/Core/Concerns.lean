/-
  Core/Concerns.lean --- why an active broker wants the operator's attention, as the
  desktop lists it and as the notifying Lambda does
  (`services/acme_broker/concern.rs`, `notification/aws_lambda.py`).
-/
import Opca.Acme.Serial
import Opca.Core.BrokerTimes
import Opca.Core.LeafDue
import Opca.Foundation.Rounding

set_option autoImplicit false

namespace Opca.Core.Concerns

open Opca.Foundation Calendar Acme BrokerTimes

/-! ## The desktop -/

/-- The state that a stored text names. -/
def issuerStateOf : String → Option Broker.IssuerState
  | "issuing" => some .issuing
  | "acme_down" => some .acmeDown
  | "paused" => some .paused
  | "revoked" => some .revoked
  | _ => none

inductive Concern where
  /-- Negative once expired. -/
  | expiring (days : Int)
  | silent (days : Int)
  /-- Signed, but the broker has never taken it. -/
  | notDelivered
  /-- The operator paused its issuance. -/
  | paused
  deriving DecidableEq, Repr

def Concern.display : Concern → String
  | .expiring days =>
    if days < 0 then s!"expired {-days} days ago" else s!"expires in {days} days"
  | .silent days => s!"not heard from in {days} days"
  | .notDelivered => "signed, not delivered"
  | .paused => "issuance paused"

def expiryWarningDays : Int := 30
/-- One missed four-weekly signing session, plus a week. -/
def silentAfterDays : Int := 35

/-- The certificate that a broker's row is joined with. -/
def certificateOf (tables : Tables) (b : Broker) : Option CertRecord :=
  tables.certificates.rows.find? (·.serial = b.subordinateSerial)

/-- The days from a stored time to now, if there is one that can be read. -/
def daysSince (times : OpensslTimes) (now : Time) (stored : Option String) : Option Int := do
  let start ← times.parse (← stored)
  some (LeafDue.numDays (now - start))

def expiryConcerns (times : OpensslTimes) (now : Time) (expiry : Option String) :
    List Concern :=
  (((daysSince times now expiry).map (- ·)).filter (· ≤ expiryWarningDays)).toList.map .expiring

def contactConcerns (times : OpensslTimes) (now : Time) (lastContact : Option String) :
    List Concern :=
  match daysSince times now lastContact with
  | none => [.notDelivered]
  | some days => if silentAfterDays < days then [.silent days] else []

def concerns (times : OpensslTimes) (tables : Tables) (b : Broker) (now : Time) :
    List Concern :=
  if b.state ≠ .active ∨ b.url = none then []
  else
    expiryConcerns times now ((certificateOf tables b).bind (·.expiryDate)) ++
      contactConcerns times now b.lastContact ++
      if b.issuerState.bind issuerStateOf = some .paused then [.paused] else []

/-! ## The Lambda -/

/-- A row of `active_brokers`. -/
structure ActiveBroker where
  serial : String
  name : Option String
  expiry : Option String
  lastContact : Option String
  issuerState : Option String
  deriving DecidableEq, Repr

def activeBroker (tables : Tables) (b : Broker) : Option ActiveBroker :=
  if b.state = .active ∧ b.url ≠ none then
    let c := certificateOf tables b
    some ⟨b.subordinateSerial, (c.bind (·.cn)).or b.url, c.bind (·.expiryDate), b.lastContact,
      b.issuerState⟩
  else none

def activeBrokers (tables : Tables) : List ActiveBroker :=
  tables.brokers.rows.filterMap (activeBroker tables)

/-- `int(delta.total_seconds())` of microseconds: their seconds are a double first. -/
def totalSeconds (delta : Int) : Int :=
  delta.sign * Rounding.floored 52 delta.natAbs 1000000

/-- The days of `split_duration`. -/
def splitDays (delta : Int) : Int :=
  let total := totalSeconds delta
  (if total < 0 then -1 else 1) * ((total.natAbs / 86400 : Nat) : Int)

/-- `days_until`, where `strptime` gives seconds and `now` is in microseconds; `none`
is the exception. -/
def daysUntil (strptime : String → Option Int) (now : Int) (stamp : String) : Option Int :=
  (strptime stamp).map fun seconds => splitDays (seconds * 1000000 - now)

def expiryPhrase (left : Int) : String :=
  if left < 0 then s!"subordinate expired {-left} days ago"
  else s!"subordinate expires in {left} days"

/-- What is said of an expiry, if there is one. -/
def expiryFound (strptime : String → Option Int) (now : Int) (expiry : Option String) :
    Option (List String) :=
  match expiry.filter (· ≠ "") with
  | none => some []
  | some stamp => (daysUntil strptime now stamp).map fun left =>
    if left ≤ 30 then [expiryPhrase left] else []

/-- What is said of the last contact. -/
def contactFound (strptime : String → Option Int) (now : Int) (lastContact : Option String) :
    Option (List String) :=
  match lastContact.filter (· ≠ "") with
  | none => some ["signed, not delivered"]
  | some stamp => (daysUntil strptime now stamp).map fun left =>
    if 35 < -left then [s!"not heard from in {-left} days"] else []

def brokerConcerns (strptime : String → Option Int) (now : Int) (row : ActiveBroker) :
    Option (List String) := do
  let expiring ← expiryFound strptime now row.expiry
  let silent ← contactFound strptime now row.lastContact
  some (expiring ++ silent ++
    if row.issuerState = some "paused" then ["issuance paused"] else [])

/-- What the Lambda finds of a broker; one that is not active it does not look at. -/
def found (strptime : String → Option Int) (tables : Tables) (b : Broker) (now : Int) :
    Option (List String) :=
  (activeBroker tables b).elim (some []) (brokerConcerns strptime now)

/-- How the Lambda says a concern. -/
def Concern.phrase : Concern → String
  | .expiring days => "subordinate " ++ (Concern.expiring days).display
  | concern => concern.display

/-! ## Days -/

variable {now : Int} {elapsed : Nat}

/-- The whole days in a number of microseconds. -/
def wholeDays (elapsed : Nat) : Nat := elapsed / 1000000 / 86400

/-- So little short of a whole number of days that the double has them. -/
def Overcounts (elapsed : Nat) : Prop :=
  Rounding.Blurred 52 elapsed 1000000 ∧ (elapsed / 1000000 + 1) % 86400 = 0

instance : Decidable (Overcounts elapsed) := inferInstanceAs (Decidable (_ ∧ _))

/-- The microseconds that a `timedelta` between two years of four digits can have. -/
def Representable (elapsed : Nat) : Prop := elapsed / 1000000 < 4503599627370496

theorem numDays_natCast (elapsed : Nat) :
    LeafDue.numDays ((elapsed : Int) * 1000) = wholeDays elapsed := by
  unfold LeafDue.numDays wholeDays second
  rw [Int.tdiv_eq_ediv_of_nonneg (a := (elapsed : Int) * 1000) (by omega),
    Int.tdiv_eq_ediv_of_nonneg (by omega)]
  omega

theorem numDays_neg (elapsed : Nat) :
    LeafDue.numDays (-(elapsed : Int) * 1000) = -(wholeDays elapsed : Int) := by
  rw [← numDays_natCast, Int.neg_mul]
  unfold LeafDue.numDays
  rw [Int.neg_tdiv, Int.neg_tdiv]

theorem floored_eq (h : Representable elapsed) :
    Rounding.floored 52 elapsed 1000000 =
      elapsed / 1000000 + if Rounding.Blurred 52 elapsed 1000000 then 1 else 0 := by
  apply Rounding.floored_eq (by decide)
  by_cases hzero : elapsed / 1000000 = 0
  · rw [hzero]
    decide
  · exact (Nat.log2_lt hzero).mpr h

/-- The double's days are one more where it overcounts. -/
theorem splitDays_eq (h : Representable elapsed) :
    splitDays elapsed = wholeDays elapsed + (if Overcounts elapsed then 1 else 0) ∧
      splitDays (-(elapsed : Int)) =
        -((wholeDays elapsed : Int) + if Overcounts elapsed then 1 else 0) := by
  have hfloored := floored_eq h
  have hdays : ((Rounding.floored 52 elapsed 1000000 / 86400 : Nat) : Int) =
      wholeDays elapsed + if Overcounts elapsed then 1 else 0 := by
    rw [hfloored]
    unfold wholeDays Overcounts
    by_cases hblurred : Rounding.Blurred 52 elapsed 1000000
    · simp only [hblurred, if_true, true_and]
      split <;> omega
    · simp only [hblurred, if_false, false_and]
      simp
  rw [← hdays]
  rcases Nat.eq_zero_or_pos elapsed with rfl | hpos
  · decide
  · have hsign : Int.sign elapsed = 1 := Int.sign_eq_one_of_pos (by omega)
    unfold splitDays totalSeconds
    rw [Int.sign_neg, hsign, Int.natAbs_neg, Int.natAbs_natCast]
    clear hdays hfloored
    generalize Rounding.floored 52 elapsed 1000000 = seconds
    dsimp only
    constructor
    · rw [if_neg (by omega), Int.one_mul, Int.one_mul, Int.natAbs_natCast]
    · rcases Nat.eq_zero_or_pos seconds with rfl | hseconds
      · simp
      · rw [if_pos (by omega), Int.neg_one_mul, Int.neg_one_mul, Int.natAbs_neg,
          Int.natAbs_natCast]

/-- A double has the microseconds of five centuries. -/
theorem Overcounts.large (h : Overcounts elapsed) : 198841 ≤ wholeDays elapsed := by
  have hlarge : 17179869184 ≤ elapsed / 1000000 := by
    by_contra hsmall
    have hlog : Nat.log2 (elapsed / 1000000) ≤ 33 := by
      by_cases hzero : elapsed / 1000000 = 0
      · rw [hzero]
        decide
      · exact Nat.le_of_lt_succ ((Nat.log2_lt hzero).mpr (by omega))
    have hscale : 2 ^ 19 ≤ Rounding.scale 52 elapsed 1000000 :=
      Nat.pow_le_pow_right (by decide) (by omega)
    have hrest : 1 ≤ 1000000 - elapsed % 1000000 := by omega
    have hmul := Nat.mul_le_mul hrest hscale
    have hblurred := h.1
    unfold Rounding.Blurred at hblurred
    omega
  have hboundary := h.2
  unfold wholeDays
  omega

/-! ## One stored time -/

/-- The texts that the code stores are read alike on both sides. -/
structure ReadAlike (times : OpensslTimes) (strptime : String → Option Int) : Prop where
  desktop : ∀ m, InRange m → times.parse (compact m) = some (m.seconds * second)
  lambda : ∀ m, InRange m → strptime (compact m) = some m.seconds

variable {times : OpensslTimes} {strptime : String → Option Int} {m : Moment}

/-- The microseconds since a stored moment. -/
def since (now : Int) (m : Moment) : Int := now - m.seconds * 1000000

/-- A moment in the past whose days the Lambda counts one too many of. -/
def Off (now : Int) (m : Moment) : Prop := 0 ≤ since now m ∧ Overcounts (since now m).toNat

theorem compact_ne_empty (m : Moment) : compact m ≠ "" := by
  intro h
  have hlist := congrArg String.toList h
  rw [toList_compact] at hlist
  simp at hlist

theorem daysSince_compact (h : ReadAlike times strptime) (hm : InRange m) :
    daysSince times (now * 1000) (some (compact m)) =
      some (LeafDue.numDays (since now m * 1000)) := by
  have hscale : now * 1000 - m.seconds * second = since now m * 1000 := by
    unfold since second
    omega
  simp only [daysSince, Option.bind_eq_bind, Option.bind_some, h.desktop m hm, hscale]

theorem daysUntil_compact (h : ReadAlike times strptime) (hm : InRange m) :
    daysUntil strptime now (compact m) = some (splitDays (-since now m)) := by
  have hsub : m.seconds * 1000000 - now = -since now m := by
    unfold since
    omega
  rw [daysUntil, h.lambda m hm, Option.map_some, hsub]

/-- What both sides count of one stored moment. -/
theorem days_cases (hrange : Representable (since now m).natAbs) :
    (∃ days : Nat, 0 ≤ since now m ∧ LeafDue.numDays (since now m * 1000) = days ∧
      (¬Off now m ∧ splitDays (-since now m) = -(days : Int) ∨
        Off now m ∧ splitDays (-since now m) = -((days : Int) + 1) ∧ 198841 ≤ days)) ∨
    (∃ days : Nat, ¬Off now m ∧ LeafDue.numDays (since now m * 1000) = -(days : Int) ∧
      (splitDays (-since now m) = days ∨
        splitDays (-since now m) = days + 1 ∧ 198841 ≤ days)) := by
  unfold Off
  generalize since now m = gap at *
  rcases Int.le_total 0 gap with hpast | hfuture
  · left
    obtain ⟨elapsed, rfl⟩ := Int.eq_ofNat_of_zero_le hpast
    rw [Int.natAbs_natCast] at hrange
    rw [Int.toNat_natCast, numDays_natCast, (splitDays_eq hrange).2]
    refine ⟨wholeDays elapsed, hpast, rfl, ?_⟩
    by_cases hover : Overcounts elapsed
    · exact Or.inr ⟨⟨hpast, hover⟩, by rw [if_pos hover], hover.large⟩
    · exact Or.inl ⟨fun h => hover h.2, by rw [if_neg hover, Int.add_zero]⟩
  · right
    obtain ⟨elapsed, helapsed⟩ := Int.eq_ofNat_of_zero_le (Int.neg_nonneg_of_nonpos hfuture)
    obtain rfl : gap = -(elapsed : Int) := by omega
    rw [Int.natAbs_neg, Int.natAbs_natCast] at hrange
    rw [Int.neg_neg, numDays_neg, (splitDays_eq hrange).1]
    refine ⟨wholeDays elapsed, ?_, rfl, ?_⟩
    · rintro ⟨hpast, hover⟩
      obtain rfl : elapsed = 0 := by omega
      have hlarge := hover.large
      revert hlarge
      decide
    · by_cases hover : Overcounts elapsed
      · exact Or.inr ⟨by rw [if_pos hover], hover.large⟩
      · exact Or.inl (by rw [if_neg hover, Int.add_zero])

/-! ## The phrases -/

theorem phrase_expiring (days : Int) : Concern.phrase (.expiring days) = expiryPhrase days := by
  dsimp only [Concern.phrase, Concern.display, expiryPhrase]
  split
  · show "subordinate " ++ ("expired " ++ toString (-days) ++ " days ago") =
      "subordinate expired " ++ toString (-days) ++ " days ago"
    rw [← String.append_assoc, ← String.append_assoc]
    rfl
  · show "subordinate " ++ ("expires in " ++ toString days ++ " days") =
      "subordinate expires in " ++ toString days ++ " days"
    rw [← String.append_assoc, ← String.append_assoc]
    rfl

theorem phrase_silent (days : Int) :
    Concern.phrase (.silent days) = s!"not heard from in {days} days" := rfl

theorem toString_ne (days : Nat) : toString ((days : Int) + 1) ≠ toString (days : Int) := by
  intro h
  have hdigits : toString (days + 1) = toString days := h
  rw [Serial.toString_inj] at hdigits
  omega

/-- One number in the place of another is another text. -/
theorem append_ne {a b c d : String} (h : b ≠ d) : a ++ b ++ c ≠ a ++ d ++ c := by
  intro heq
  apply h
  rw [← String.toList_inj] at heq ⊢
  simpa using heq

theorem expiryPhrase_ne {days : Nat} (hpos : 0 < days) :
    expiryPhrase (-((days : Int) + 1)) ≠ expiryPhrase (-(days : Int)) := by
  unfold expiryPhrase
  rw [if_pos (by omega), if_pos (by omega), Int.neg_neg, Int.neg_neg]
  exact append_ne (toString_ne days)

/-! ## The two lists -/

/-- What the desktop says of the expiry, and what the Lambda does. -/
theorem expiring_same (h : ReadAlike times strptime) (hm : InRange m)
    (hrange : Representable (since now m).natAbs) :
    ∃ days : Int, daysSince times (now * 1000) (some (compact m)) = some days ∧
      ∃ left : Int, daysUntil strptime now (compact m) = some left ∧
        (-days ≤ expiryWarningDays ↔ left ≤ 30) ∧
        ((-days ≤ expiryWarningDays → expiryPhrase left = expiryPhrase (-days)) ↔
          ¬Off now m) := by
  refine ⟨_, daysSince_compact h hm, _, daysUntil_compact h hm, ?_⟩
  unfold expiryWarningDays
  rcases days_cases hrange with ⟨days, -, hdays, ⟨hoff, hleft⟩ | ⟨hoff, hleft, hlarge⟩⟩ |
    ⟨days, hoff, hdays, hleft | ⟨hleft, hlarge⟩⟩
  · rw [hdays, hleft]
    exact ⟨Iff.rfl, fun _ => hoff, fun _ _ => rfl⟩
  · rw [hdays, hleft]
    refine ⟨by omega, fun hsame => ?_, fun hnot => absurd hoff hnot⟩
    exact absurd (hsame (by omega)) (expiryPhrase_ne (by omega))
  · rw [hdays, hleft, Int.neg_neg]
    exact ⟨Iff.rfl, fun _ => hoff, fun _ _ => rfl⟩
  · rw [hdays, hleft, Int.neg_neg]
    exact ⟨by omega, fun _ => hoff, fun _ hle => by omega⟩

/-- What they say of the last contact. -/
theorem silent_same (h : ReadAlike times strptime) (hm : InRange m)
    (hrange : Representable (since now m).natAbs) :
    ∃ days : Int, daysSince times (now * 1000) (some (compact m)) = some days ∧
      ∃ left : Int, daysUntil strptime now (compact m) = some left ∧
        (silentAfterDays < days ↔ 35 < -left) ∧
        ((silentAfterDays < days →
          s!"not heard from in {-left} days" = s!"not heard from in {days} days") ↔
            ¬Off now m) := by
  refine ⟨_, daysSince_compact h hm, _, daysUntil_compact h hm, ?_⟩
  unfold silentAfterDays
  rcases days_cases hrange with ⟨days, -, hdays, ⟨hoff, hleft⟩ | ⟨hoff, hleft, hlarge⟩⟩ |
    ⟨days, hoff, hdays, hleft | ⟨hleft, hlarge⟩⟩
  · rw [hdays, hleft, Int.neg_neg]
    exact ⟨Iff.rfl, fun _ => hoff, fun _ _ => rfl⟩
  · rw [hdays, hleft, Int.neg_neg]
    refine ⟨by omega, fun hsame => ?_, fun hnot => absurd hoff hnot⟩
    exact absurd (hsame (by omega)) (append_ne (toString_ne days))
  · rw [hdays, hleft]
    exact ⟨Iff.rfl, fun _ => hoff, fun _ _ => rfl⟩
  · rw [hdays, hleft]
    exact ⟨by omega, fun _ => hoff, fun _ hlt => by omega⟩

theorem filter_compact : (some (compact m)).filter (· ≠ "") = some (compact m) := by
  simp [compact_ne_empty]

/-- The expiry's part of the two lists. -/
theorem expiring_lists (h : ReadAlike times strptime) {expiry : Option Moment}
    (hexpiry : ∀ m ∈ expiry, InRange m ∧ Representable (since now m).natAbs) :
    ∃ said, expiryFound strptime now (expiry.map compact) = some said ∧
      said.length = (expiryConcerns times (now * 1000) (expiry.map compact)).length ∧
      (said = (expiryConcerns times (now * 1000) (expiry.map compact)).map Concern.phrase ↔
        ∀ m ∈ expiry, ¬Off now m) := by
  cases expiry with
  | none => exact ⟨[], rfl, rfl, by simp [expiryConcerns, daysSince]⟩
  | some m =>
    obtain ⟨hm, hrange⟩ := hexpiry m rfl
    obtain ⟨days, hdays, left, hleft, hthreshold, hsame⟩ := expiring_same h hm hrange
    have hone : (∀ n ∈ some m, ¬Off now n) ↔ ¬Off now m := by simp
    simp only [Option.map_some, expiryFound, expiryConcerns, filter_compact, hdays, hleft, hone,
      ← hsame]
    refine ⟨_, rfl, ?_, ?_⟩
    · by_cases hle : -days ≤ expiryWarningDays
      · simp [Option.filter, hle, hthreshold.mp hle]
      · simp [Option.filter, hle, mt hthreshold.mpr hle]
    · by_cases hle : -days ≤ expiryWarningDays
      · simp [Option.filter, hle, hthreshold.mp hle, phrase_expiring]
      · simp [Option.filter, hle, mt hthreshold.mpr hle]

/-- The last contact's part of the two lists. -/
theorem silent_lists (h : ReadAlike times strptime) {contact : Option Moment}
    (hcontact : ∀ m ∈ contact, InRange m ∧ Representable (since now m).natAbs) :
    ∃ said, contactFound strptime now (contact.map compact) = some said ∧
      (said = (contactConcerns times (now * 1000) (contact.map compact)).map Concern.phrase ↔
        ∀ m ∈ contact, ¬Off now m) := by
  rcases contact with _ | m
  · refine ⟨[Concern.notDelivered.phrase], rfl, ?_⟩
    simp [contactConcerns, daysSince]
  · obtain ⟨hm, hrange⟩ := hcontact m rfl
    obtain ⟨days, hdays, left, hleft, hthreshold, hsame⟩ := silent_same h hm hrange
    have hone : (∀ n ∈ some m, ¬Off now n) ↔ ¬Off now m := by simp
    simp only [Option.map_some, contactFound, contactConcerns, filter_compact, hdays, hleft, hone,
      ← hsame]
    refine ⟨_, rfl, ?_⟩
    by_cases hlt : silentAfterDays < days
    · simp only [hlt, hthreshold.mp hlt, if_true, List.map_cons, List.map_nil, phrase_silent,
        List.cons.injEq, and_true, true_imp_iff]
    · simp only [hlt, mt hthreshold.mpr hlt, if_false, List.map_nil, false_imp_iff]

theorem append_inj_iff {α : Type} {xs xs' ys ys' zs : List α} (h : xs.length = xs'.length) :
    xs ++ ys ++ zs = xs' ++ ys' ++ zs ↔ xs = xs' ∧ ys = ys' := by
  rw [List.append_left_inj]
  exact ⟨fun heq => List.append_inj heq h, fun ⟨hx, hy⟩ => by rw [hx, hy]⟩

theorem issuerStateOf_paused {text : Option String} :
    text.bind issuerStateOf = some .paused ↔ text = some "paused" := by
  cases text with
  | none => simp
  | some text =>
    rw [Option.bind_some, Option.some.injEq]
    unfold issuerStateOf
    split <;> simp_all

/-- The row is one that both sides look at. -/
def Watched (b : Broker) : Prop := b.state = .active ∧ b.url ≠ none

instance (b : Broker) : Decidable (Watched b) := inferInstanceAs (Decidable (_ ∧ _))

/-- The instants that a `datetime` has, in microseconds: those of the years 1 to 9999. -/
def Showable (now : Int) : Prop := -62135596800000000 ≤ now ∧ now < 253402300800000000

instance : Decidable (Showable now) := inferInstanceAs (Decidable (_ ∧ _))

theorem representable (hm : InRange m) (hnow : Showable now) :
    Representable (since now m).natAbs := by
  have hpos : 0 ≤ m.date.number := by
    have hseconds := hm.ofSeconds_eq ▸ ofSeconds_valid m.seconds.toNat
    have hnumber := congrArg (·.date.number) hm.ofSeconds_eq
    have hdate := (dateOf_spec ((m.seconds.toNat / 86400 : Nat) : Int)).2
    simp only [ofSeconds] at hnumber
    omega
  have hlast : m.date.number < 2932897 := by
    have hend : (Date.mk 10000 1 1).number = 2932897 := by decide
    rw [← hend]
    exact hm.date.number_lt (Date.valid_newYear 10000) (Or.inl hm.year_lt)
  obtain ⟨-, hhour, hminute, hsecond⟩ := hm.toValid
  unfold Representable since Moment.seconds Showable at *
  omega

/-- For every row, its certificate's and its own stored times and every instant, the
Lambda raises no exception, and it says what the desktop lists unless the row is
watched and a double counts one day too many since one of the two times. -/
theorem sides_agree_iff (times : OpensslTimes) (strptime : String → Option Int)
    (h : ReadAlike times strptime) (tables : Tables) (b : Broker) (now : Int)
    (hnow : Showable now) (expiry contact : Option Moment)
    (hexpiry : (certificateOf tables b).bind (·.expiryDate) = expiry.map compact)
    (hcontact : b.lastContact = contact.map compact)
    (hmoments : ∀ m, expiry = some m ∨ contact = some m → InRange m) :
    ∃ said, found strptime tables b now = some said ∧
      (said = (concerns times tables b (now * 1000)).map Concern.phrase ↔
        ¬(Watched b ∧ ∃ m, (expiry = some m ∨ contact = some m) ∧ Off now m)) := by
  by_cases hwatched : Watched b
  · obtain ⟨expiring, hexpiring, hlength, hexpiring_iff⟩ := @expiring_lists now _ _ h
      expiry fun m hm =>
        ⟨hmoments m (Or.inl hm), representable (hmoments m (Or.inl hm)) hnow⟩
    obtain ⟨silent, hsilent, hsilent_iff⟩ := @silent_lists now _ _ h
      contact fun m hm =>
        ⟨hmoments m (Or.inr hm), representable (hmoments m (Or.inr hm)) hnow⟩
    refine ⟨expiring ++ silent ++ if b.issuerState = some "paused" then ["issuance paused"] else [],
      ?_, ?_⟩
    · have hrow : b.state = .active ∧ b.url ≠ none := hwatched
      rw [found, activeBroker, if_pos hrow, Option.elim_some, brokerConcerns]
      simp only [hexpiry, hcontact, hexpiring, hsilent, Option.bind_eq_bind, Option.bind_some]
    · have hactive : ¬(b.state ≠ .active ∨ b.url = none) := by
        rw [not_or, not_not]
        exact hwatched
      have hpaused : (if b.issuerState.bind issuerStateOf = some .paused then
          [Concern.paused] else []).map Concern.phrase =
          if b.issuerState = some "paused" then ["issuance paused"] else [] := by
        simp only [issuerStateOf_paused]
        split <;> rfl
      rw [concerns, if_neg hactive, hexpiry, hcontact]
      rw [List.map_append, List.map_append, hpaused,
        append_inj_iff (by rw [hlength, List.length_map]), hexpiring_iff, hsilent_iff]
      simp only [hwatched, true_and, not_exists, not_and, or_imp, forall_and,
        Option.mem_def]
  · refine ⟨[], ?_, ?_⟩
    · have hrow : ¬(b.state = .active ∧ b.url ≠ none) := hwatched
      rw [found, activeBroker, if_neg hrow, Option.elim_none]
    · have hidle : b.state ≠ .active ∨ b.url = none := by
        rw [Watched, not_and_or, not_not] at hwatched
        exact hwatched
      simp [concerns, hidle, hwatched]

/-! ## A microsecond short of a day -/

/-- The first of January 2027. -/
def sampleExpiry : Moment := ⟨⟨2027, 1, 1⟩, 0, 0, 0⟩

def sampleStrptime (stamp : String) : Option Int := compactSeconds stamp.toList

theorem sampleTimes_readAlike : ReadAlike sampleTimes sampleStrptime where
  desktop := sampleChrono_reads.read
  lambda m h := by
    obtain ⟨y₁, y₂, y₃, y₄, m₁, m₂, d₁, d₂, h₁, h₂, n₁, n₂, s₁, s₂, -, hplain, hcompact⟩ :=
      h.chars
    rw [sampleStrptime, hcompact, compactSeconds, ← hplain, h.secondsOf_plain]

def sampleSubordinate : CertRecord where
  serial := "2"
  cn := some "acme.example.com"
  title := none
  status := some "Valid"
  expiryDate := some (compact sampleExpiry)
  revocationDate := none
  subject := none
  certType := none
  notBefore := none
  keyType := none
  keySize := none
  issuer := none
  san := none
  ignoredAt := none
  ignoredBy := none
  ignoredReason := none
  ignoredNote := none
  hasPrivateKey := none
  hasChain := none
  deletedAt := none
  publishedAt := none

def watchedBroker : Broker where
  id := 1
  subordinateSerial := "2"
  url := some "https://acme.example.com:9443"
  pinnedKey := none
  permittedDomains := ["example.com"]
  state := .active
  lastContact := none
  createdAt := "20260101000000Z"
  updatedAt := "20260101000000Z"
  issuerState := some "issuing"

def watchedTables : Tables :=
  ⟨{}, ⟨[sampleSubordinate], by decide⟩, [], none, none, .empty, .empty, fun _ _ => none⟩

/-- A day before the expiry. -/
def dayBefore : Int := (sampleExpiry.seconds - 86400) * 1000000

theorem dayBefore_agrees :
    found sampleStrptime watchedTables watchedBroker dayBefore =
      some ((concerns sampleTimes watchedTables watchedBroker (dayBefore * 1000)).map
        Concern.phrase) := by
  have hmoments : ∀ m, some sampleExpiry = some m ∨ (none : Option Moment) = some m →
      InRange m := by
    rintro m (h | h)
    · cases h
      exact ⟨⟨⟨by decide, by decide, by decide, by decide⟩, by decide, by decide, by decide⟩,
        by decide, by decide⟩
    · cases h
  obtain ⟨said, hsaid, hiff⟩ := sides_agree_iff sampleTimes sampleStrptime sampleTimes_readAlike
    watchedTables watchedBroker dayBefore (by decide) (some sampleExpiry) none
    (by decide) rfl hmoments
  rw [hsaid, hiff.mpr]
  rintro ⟨-, m, h | h, hpast, -⟩
  · cases h
    revert hpast
    decide
  · cases h

/-- 198842 days after the expiry, less a microsecond: the Lambda has rounded it up. -/
theorem centuriesLater_disagree :
    found sampleStrptime watchedTables watchedBroker
        ((sampleExpiry.seconds + 198842 * 86400) * 1000000 - 1) =
      some ["subordinate expired 198842 days ago", "signed, not delivered"] ∧
    concerns sampleTimes watchedTables watchedBroker
        (((sampleExpiry.seconds + 198842 * 86400) * 1000000 - 1) * 1000) =
      [.expiring (-198841), .notDelivered] := by
  decide

end Opca.Core.Concerns

/-
  Acme/Window.lean --- the validity window of a leaf in the arithmetic of the
  source's `SystemTime`, which panics where a sum does not fit
  (`acme/issue.rs`, `acme/server.rs`).
-/
import Opca.Acme.Broker

set_option autoImplicit false

namespace Opca.Acme.Window

open Opca.Foundation Broker

/-! ## The arithmetic -/

/-- The seconds of a `SystemTime` are 64-bit. -/
def Fits (t : Time) : Prop := -9223372036854775808 ≤ t / second ∧ t / second ≤ 9223372036854775807

instance (t : Time) : Decidable (Fits t) := inferInstanceAs (Decidable (_ ∧ _))

/-- `SystemTime + Duration`, and `-` with a negative one; `none` is a panic. -/
def add (t duration : Time) : Option Time :=
  if Fits (t + duration) then some (t + duration) else none

/-- `DAY * days`, whose seconds are an unsigned 64-bit number. -/
def days (n : UInt32) : Option Time :=
  if 86400 * n.toNat < 18446744073709551616 then some (day * n.toNat) else none

/-- `Issuer::validity`; `none` where it panics. Both sums are made, whether or not
the order says when it ends. -/
def validity (issuer : Issuer) (order : Order) (now : Time) :
    Option (Except Problem Validity) := do
  let earliest ← add now (-backdate)
  let notBefore := order.notBefore.elim earliest (max · earliest)
  let byDefault ← add notBefore (← days issuer.config.leafDays)
  let longest ← add notBefore (← days issuer.config.leafMaxDays)
  let notAfter := min (min (order.notAfter.getD byDefault) longest) issuer.subordinateNotAfter
  if notAfter ≤ notBefore then
    some (.error (malformed "the certificate would end before it begins"))
  else some (.ok ⟨notBefore, notAfter⟩)

/-- A date that an order's request gives, where `parse` reads RFC 3339. -/
def instant (rules : NameRules) (parse : String → Option Time) (what : String) :
    Option String → Except Problem (Option Time)
  | none => .ok none
  | some text => match parse text with
    | some t => .ok (some t)
    | none => .error (malformed (what ++ " " ++ rules.quote text ++ " is not an RFC 3339 time"))

/-! ## What fits -/

/-- The instants that four digits of a year and an offset can name, and the day
before and after them. -/
def Writable (t : Time) : Prop :=
  -62167305600 * second ≤ t ∧ t ≤ 253402387200 * second

instance (t : Time) : Decidable (Writable t) := inferInstanceAs (Decidable (_ ∧ _))

/-- What is asked of a clock: that it is not in the last years that fit. -/
structure Usable (now : Time) : Prop where
  past : Fits (now - backdate)
  future : Fits (now + day * 4294967296)

variable {issuer : Issuer} {order : Order} {now : Time} {rules : NameRules}
  {parse : String → Option Time}

theorem Fits.between {a b t : Time} (ha : Fits a) (hb : Fits b) (hle : a ≤ t) (hle' : t ≤ b) :
    Fits t := by
  unfold Fits second at *
  constructor
  · exact ha.1.trans (Int.ediv_le_ediv (by decide) hle)
  · exact (Int.ediv_le_ediv (by decide) hle').trans hb.2

theorem days_eq (n : UInt32) : days n = some (day * n.toNat) := by
  have := n.toNat_lt
  rw [days, if_pos (by omega)]

theorem day_mul_nonneg (n : UInt32) : 0 ≤ day * (n.toNat : Int) :=
  Int.mul_nonneg (by decide) (Int.natCast_nonneg _)

theorem day_mul_le (n : UInt32) : day * (n.toNat : Int) ≤ day * 4294967296 := by
  have := n.toNat_lt
  exact Int.mul_le_mul_of_nonneg_left (by omega) (by decide)

/-- Every start from the backdated clock on, and no later than a request can name or
than the clock, leaves room for the days. -/
theorem add_days {t : Time} (hnow : Usable now) (hle : now - backdate ≤ t)
    (hlast : t ≤ now ∨ t ≤ 253402387200 * second) (n : UInt32) :
    add t (day * n.toNat) = some (t + day * n.toNat) := by
  have hnonneg := day_mul_nonneg n
  have hmost := day_mul_le n
  have hfrom : now - backdate ≤ t + day * n.toNat :=
    hle.trans (Int.le_add_of_nonneg_right hnonneg)
  rw [add, if_pos]
  rcases hlast with hclock | hnamed
  · exact hnow.past.between hnow.future hfrom (Int.add_le_add hclock hmost)
  · have hend : Fits (253402387200 * second + day * 4294967296) := by decide
    exact hnow.past.between hend hfrom (Int.add_le_add hnamed hmost)

/-- The start of the window. -/
def start (order : Order) (now : Time) : Time :=
  order.notBefore.elim (now - backdate) (max · (now - backdate))

theorem le_start : now - backdate ≤ start order now := by
  unfold start
  cases order.notBefore with
  | none => exact le_rfl
  | some asked => exact le_max_right ..

theorem start_le (hwritable : ∀ t, order.notBefore = some t → Writable t) :
    start order now ≤ now ∨ start order now ≤ 253402387200 * second := by
  have hback : now - backdate ≤ now := Int.sub_le_self now (by decide)
  unfold start
  cases hasked : order.notBefore with
  | none => exact Or.inl hback
  | some asked =>
    obtain ⟨-, hasked⟩ := hwritable asked hasked
    rcases max_choice asked (now - backdate) with hmax | hmax
    · right
      simpa [hmax] using hasked
    · left
      simpa [hmax] using hback

/-- Nothing overflows, so that the exact arithmetic is the code's. -/
theorem validity_eq (hnow : Usable now) (hwritable : ∀ t, order.notBefore = some t → Writable t) :
    validity issuer order now = some (issuer.validity order now) := by
  have hearliest : add now (-backdate) = some (now - backdate) := by
    rw [add, ← Int.sub_eq_add_neg, if_pos hnow.past]
  have hadd := add_days hnow le_start (start_le hwritable)
  unfold start at hadd
  simp only [validity, hearliest, days_eq, hadd, Option.bind_eq_bind, Option.bind_some,
    Issuer.validity]
  split <;> rfl

/-- The longest a leaf may last. -/
def longest (issuer : Issuer) : Time := day * issuer.config.leafMaxDays.toNat

/-- What a window owes the order, the clock, the config and the subordinate. -/
structure Bounded (issuer : Issuer) (order : Order) (now : Time) (v : Validity) : Prop where
  nonempty : v.notBefore < v.notAfter
  within : v.notAfter ≤ issuer.subordinateNotAfter
  backdated : now - backdate ≤ v.notBefore
  short : v.notAfter - v.notBefore ≤ longest issuer
  /-- A start that is asked for and not too early is kept. -/
  starts : ∀ t, order.notBefore = some t → now - backdate ≤ t → v.notBefore = t
  /-- An end that is asked for and neither too late nor past the subordinate's is kept. -/
  ends : ∀ t, order.notAfter = some t → t - v.notBefore ≤ longest issuer →
    t ≤ issuer.subordinateNotAfter → v.notAfter = t

theorem bounded_of_ok {v : Validity} (h : issuer.validity order now = .ok v) :
    Bounded issuer order now v := by
  unfold Issuer.validity at h
  dsimp only at h
  rw [← start] at h
  split at h
  · cases h
  · next hlt =>
    obtain rfl := (Except.ok.inj h).symm
    rw [not_le] at hlt
    refine ⟨hlt, min_le_right .., le_start, ?_, ?_, ?_⟩
    · exact Int.sub_left_le_of_le_add ((min_le_left _ _).trans (min_le_right _ _))
    · intro asked hasked hle
      rw [start, hasked]
      exact max_eq_left hle
    · intro asked hasked hshort hwithin
      have hlong : asked ≤ start order now + longest issuer := Int.le_add_of_sub_left_le hshort
      simp only [hasked, Option.getD_some]
      unfold longest at hlong
      rw [min_eq_left hlong, min_eq_left hwithin]

/-- A lifetime of at least a day is never what ends the window before its start. -/
theorem error_iff (hdays : 1 ≤ issuer.config.leafDays.toNat)
    (hle : issuer.config.leafDays.toNat ≤ issuer.config.leafMaxDays.toNat) :
    (∃ problem, issuer.validity order now = .error problem) ↔
      (∃ t, order.notAfter = some t ∧ t ≤ start order now) ∨
        issuer.subordinateNotAfter ≤ start order now := by
  have hlater (n : UInt32) (hn : 1 ≤ n.toNat) :
      ¬start order now + day * n.toNat ≤ start order now := by
    rw [not_le]
    exact Int.lt_add_of_pos_right _ (Int.mul_pos (by decide) (by omega))
  have hrefuses : (∃ problem, issuer.validity order now = .error problem) ↔
      min (min (order.notAfter.getD (start order now + day * issuer.config.leafDays.toNat))
        (start order now + day * issuer.config.leafMaxDays.toNat))
          issuer.subordinateNotAfter ≤ start order now := by
    unfold Issuer.validity
    dsimp only
    rw [← start]
    split
    · next hends => exact ⟨fun _ => hends, fun _ => ⟨_, rfl⟩⟩
    · next hends => exact ⟨fun ⟨_, h⟩ => absurd h nofun, fun h => absurd h hends⟩
  rw [hrefuses, min_le_iff, min_le_iff]
  refine or_congr_left ?_
  constructor
  · rintro (hends | hends)
    · cases hasked : order.notAfter with
      | none =>
        rw [hasked] at hends
        exact absurd hends (hlater _ hdays)
      | some asked =>
        rw [hasked] at hends
        exact ⟨asked, rfl, hends⟩
    · exact absurd hends (hlater _ (hdays.trans hle))
  · rintro ⟨asked, hasked, hends⟩
    rw [hasked]
    exact Or.inl hends

theorem checkConfig_days {config : Config} {issuance : IssuanceConfig}
    {subordinate : CertificateView} (h : checkConfig config issuance subordinate = .ok ()) :
    1 ≤ issuance.leafDays.toNat ∧ issuance.leafDays.toNat ≤ issuance.leafMaxDays.toNat := by
  unfold checkConfig at h
  dsimp only at h
  split at h
  · cases h
  · split at h
    · cases h
    · split at h
      · cases h
      · split at h
        · cases h
        · split at h
          · cases h
          · next hdays =>
            rw [not_or, UInt32.not_lt] at hdays
            have hle := UInt32.le_iff_toNat_le.mp hdays.2
            have hpos : issuance.leafDays.toNat ≠ 0 := fun hzero =>
              hdays.1 (UInt32.toNat_inj.mp hzero)
            omega

theorem instant_writable (hparse : ∀ text t, parse text = some t → Writable t) {what : String}
    {asked : Option String} {date : Option Time} (h : instant rules parse what asked = .ok date) :
    ∀ t, date = some t → Writable t := by
  rintro t rfl
  cases asked with
  | none => cases h
  | some text =>
    rw [instant] at h
    split at h
    · next found hfound =>
      cases h
      exact hparse text _ hfound
    · cases h

/-- For every order with a start in RFC 3339 and any end, every config that is accepted
and every end of the subordinate, the window is made without a panic; it is within its bounds,
or refused because the order or the subordinate ends before it starts. -/
theorem validity_within_bounds (config : Config) (subordinate : CertificateView)
    (issuer : Issuer) (rules : NameRules) (parse : String → Option Time)
    (hparse : ∀ text t, parse text = some t → Writable t)
    (haccepted : checkConfig config issuer.config subordinate = .ok ())
    (notBefore : Option String) (order : Order)
    (hstart : instant rules parse "notBefore" notBefore = .ok order.notBefore)
    (now : Time) (hnow : Usable now) :
    ∃ result, validity issuer order now = some result ∧
      (∀ v, result = .ok v → Bounded issuer order now v) ∧
      ((∃ problem, result = .error problem) ↔
        (∃ t, order.notAfter = some t ∧ t ≤ start order now) ∨
          issuer.subordinateNotAfter ≤ start order now) := by
  obtain ⟨hdays, hle⟩ := checkConfig_days haccepted
  refine ⟨_, validity_eq hnow (instant_writable hparse hstart), fun v hv => ?_, ?_⟩
  · exact bounded_of_ok hv
  · exact error_iff hdays hle

/-! ## The last date that can be asked for -/

def lastText : String := "9999-12-31T23:59:59Z"

def parseLast (text : String) : Option Time :=
  if text = lastText then some (253402300799 * second) else none

def lastOrder : Order where
  id := 1
  account := 1
  status := .ready
  identifiers := ["www.example.com"]
  notBefore := some (253402300799 * second)
  notAfter := none
  expires := 0
  error := none
  certificate := none
  created := 0

def longIssuer : Issuer where
  chainPem := ""
  subordinateSerial := "1"
  subordinateNotAfter := 9223372036854775807 * second
  config := ⟨["example.com"], [.http01], 4294967295, 4294967295⟩
  pkiOrigin := none

def longSubordinate : CertificateView where
  serial := "01"
  subject := "broker"
  issuer := "root"
  spki := "key"
  ca := true
  selfSigned := false
  notAfter := 9223372036854775807 * second
  permittedDns := ["example.com"]

theorem last_within_bounds : (validity longIssuer lastOrder 0).isSome = true := by
  have hparse : ∀ text t, parseLast text = some t → Writable t := by
    intro text t h
    unfold parseLast at h
    split at h
    · cases h
      decide
    · cases h
  obtain ⟨result, hresult, -⟩ := validity_within_bounds plainConfig longSubordinate longIssuer
    plainRules parseLast hparse (by decide) (some lastText) lastOrder
    (by decide) 0 ⟨by decide, by decide⟩
  rw [hresult]
  rfl

end Opca.Acme.Window

/-
  Vault/Lock.lean --- the `CA_Lock` item: what an acquirer writes on it, how
  two of them are ranked, and when one has gone stale (`vault_lock.rs`).

  Times are nanoseconds since the epoch.  Reading a time's text is chrono's
  work, so its two parsers are a parameter of everything here.
-/
import Opca.Foundation.Calendar
import Opca.Foundation.Text
import Mathlib.Data.String.Basic
import Mathlib.Data.Prod.Lex
import Mathlib.Order.WithBot

set_option autoImplicit false

namespace Opca.Vault

open Opca.Foundation

/-- The nanoseconds in a second. -/
abbrev second : Int := 1000000000

/-- The start of the second `t` lies in. -/
def floorSecond (t : Int) : Int := t / second * second

theorem floorSecond_le (t : Int) : floorSecond t ≤ t := by
  unfold floorSecond second
  omega

theorem lt_floorSecond_add (t : Int) : t < floorSecond t + second := by
  unfold floorSecond second
  omega

/-- chrono's readings of a time's text. -/
structure Chrono where
  /-- `NaiveDateTime::parse_from_str(ts, "%Y-%m-%dT%H:%M:%S")`, taken as UTC. -/
  naiveDateTime : String → Option Int
  /-- `DateTime::parse_from_rfc3339`, moved to UTC. -/
  rfc3339 : String → Option Int

namespace Chrono

/-- An ISO 8601 UTC time, with or without trailing `Z`. -/
def parseIso (chrono : Chrono) (ts : String) : Option Int :=
  chrono.naiveDateTime (trimEndMatches 'Z' ts)

def parseRfc3339 (chrono : Chrono) (at_ : String) : Option Int :=
  chrono.rfc3339 at_

/-- `ts` is a text `now_utc_iso` can return at `now`: it reads back as the
second `now` lies in, the format having no smaller unit. -/
def IsNowUtcIso (chrono : Chrono) (now : Int) (ts : String) : Prop :=
  ts ≠ "" ∧ chrono.parseIso ts = some (floorSecond now)

instance (chrono : Chrono) (now : Int) (ts : String) :
    Decidable (chrono.IsNowUtcIso now ts) :=
  inferInstanceAs (Decidable (_ ∧ _))

/-- chrono on whole seconds of four-digit years in UTC, which is all that the
witnesses below read. -/
def calendar : Chrono where
  naiveDateTime ts :=
    (Calendar.secondsOf ts.toList).map (· * second)
  rfc3339 ts :=
    if ts.toList.getLast? = some 'Z' then
      (Calendar.secondsOf ts.toList.dropLast).map (· * second)
    else none

end Chrono

/-! ## Fields -/

def fieldHolderEmail : String := "holder_email"
def fieldHolderName : String := "holder_name"
def fieldAcquiredAt : String := "acquired_at"
def fieldOperation : String := "operation"
def fieldHostname : String := "hostname"
def fieldTtl : String := "ttl_seconds"

/-- Default lock TTL in seconds. -/
def defaultTtl : UInt64 := 300

/-- A lock item's fields by label.  Where a label comes twice the later one
counts, as in a map collected from the list. -/
abbrev Fields := List (String × String)

def Fields.get (fields : Fields) (label : String) : Option String :=
  fields.reverse.lookup label

/-- Who acquires, and from where; `current_user` has already put `"unknown"`
for what 1Password did not say. -/
structure Holder where
  email : String
  name : String
  operation : String
  hostname : String
  deriving DecidableEq, Repr

/-- The fields `acquire` writes on its item. -/
def acquireFields (holder : Holder) (acquiredAt : String) (ttl : UInt64) : Fields :=
  [(fieldHolderEmail, holder.email),
   (fieldHolderName, holder.name),
   (fieldAcquiredAt, acquiredAt),
   (fieldOperation, holder.operation),
   (fieldHostname, holder.hostname),
   (fieldTtl, Nat.repr ttl.toNat)]

@[simp] theorem acquireFields_acquiredAt (holder : Holder) (acquiredAt : String)
    (ttl : UInt64) :
    (acquireFields holder acquiredAt ttl).get fieldAcquiredAt = some acquiredAt := rfl

@[simp] theorem acquireFields_ttl (holder : Holder) (acquiredAt : String)
    (ttl : UInt64) :
    (acquireFields holder acquiredAt ttl).get fieldTtl = some (Nat.repr ttl.toNat) := rfl

/-! ## Lock items -/

/-- One `CA_Lock` item: its id, when 1Password created it, and its fields. -/
structure Lock where
  id : String
  created : Option Int
  fields : Fields
  deriving DecidableEq, Repr

/-- `OpcaError::VaultLocked`, with what it says of the holder. -/
structure VaultLocked where
  holderEmail : String
  holderName : String
  acquiredAt : String
  operation : String
  hostname : String
  deriving DecidableEq, Repr

namespace Lock

/-- A missing time ranks before any other, as `None` does. -/
abbrev Rank := Lex (WithBot Int × String)

/-- Earliest first by the server's creation time, or by the holder's
`acquired_at` when that is not known for every lock; the lowest id among
equals. -/
def rank (chrono : Chrono) (byServer : Bool) (lock : Lock) : Rank :=
  let at_ : Option Int :=
    if byServer then lock.created
    else (lock.fields.get fieldAcquiredAt).bind chrono.parseIso
  toLex (at_, lock.id)

def field (lock : Lock) (label : String) : String :=
  (lock.fields.get label).getD ""

def heldAgainstUs (lock : Lock) : VaultLocked where
  holderEmail := lock.field fieldHolderEmail
  holderName := lock.field fieldHolderName
  acquiredAt := lock.field fieldAcquiredAt
  operation := lock.field fieldOperation
  hostname := lock.field fieldHostname

end Lock

/-! ## Going stale -/

/-- Rust's `as i64` on a `u64`. -/
def asI64 (n : UInt64) : Int := n.toInt64.toInt

/-- The whole seconds from `earlier` to `later`, rounded towards zero. -/
def numSeconds (earlier later : Int) : Int := (later - earlier).tdiv second

/-- Whether a lock has exceeded its TTL.  What cannot be read is taken as
stale; a missing TTL is the default one. -/
def isStale (chrono : Chrono) (fields : Fields) (now : Int) : Bool :=
  match fields.get fieldAcquiredAt with
  | none => true
  | some acquiredStr =>
    if acquiredStr = "" then true
    else
      let ttlStr := (fields.get fieldTtl).getD (Nat.repr defaultTtl.toNat)
      match chrono.parseIso acquiredStr with
      | none => true
      | some acquired =>
        match parseUnsigned 64 ttlStr with
        | none => true
        | some ttl => decide (asI64 (UInt64.ofNat ttl) < numSeconds acquired now)

/-- The lock item this instance holds, and when it goes stale. -/
structure Held where
  id : String
  acquired : Int
  ttl : UInt64
  deriving DecidableEq, Repr

namespace Held

/-- What `acquire` keeps once its last call has returned, at `now`. -/
def taken (id : String) (ttl : UInt64) (now : Int) : Held where
  id := id
  acquired := now
  ttl := ttl

/-- Whether the lock is not yet past its TTL, by the holder's own measure. -/
def withinTtl (held : Held) (now : Int) : Prop :=
  now - held.acquired < held.ttl.toNat * second

instance (held : Held) (now : Int) : Decidable (held.withinTtl now) :=
  inferInstanceAs (Decidable (_ < _))

end Held

/-! ## What the two measures come to -/

theorem asI64_of_lt {n : UInt64} (hn : n.toNat < 2 ^ 63) : asI64 n = n.toNat := by
  have hbits : 2 * n.toBitVec.toNat < 2 ^ 64 := by
    rw [UInt64.toNat_toBitVec]
    omega
  exact BitVec.toInt_eq_toNat_of_lt hbits

/-- Past `i64::MAX` the cast turns a TTL negative. -/
theorem asI64_neg_of_le {n : UInt64} (hn : 2 ^ 63 ≤ n.toNat) : asI64 n < 0 := by
  have hcast : asI64 n = n.toBitVec.toInt := rfl
  have hlt : n.toBitVec.toNat < 2 ^ 64 := n.toBitVec.isLt
  have hnat : n.toBitVec.toNat = n.toNat := UInt64.toNat_toBitVec n
  rw [hcast, BitVec.toInt_eq_toNat_cond, if_neg (by omega)]
  omega

theorem numSeconds_mono {earlier later later' : Int} (h : later ≤ later') :
    numSeconds earlier later ≤ numSeconds earlier later' := by
  unfold numSeconds
  exact Int.tdiv_le_tdiv (by decide) (by omega)

theorem numSeconds_of_le {earlier later : Int} (h : earlier ≤ later) :
    numSeconds earlier later = (later - earlier) / second :=
  Int.tdiv_eq_ediv_of_nonneg (by omega)

theorem numSeconds_nonneg {earlier later : Int} (h : earlier ≤ later) :
    0 ≤ numSeconds earlier later := by
  rw [numSeconds_of_le h]
  unfold second
  omega

theorem lt_numSeconds_iff {earlier later n : Int} (h : earlier ≤ later) :
    n < numSeconds earlier later ↔ (n + 1) * second ≤ later - earlier := by
  rw [numSeconds_of_le h]
  unfold second
  omega

/-- Once stale, an item stays stale. -/
theorem isStale_mono {chrono : Chrono} {fields : Fields} {now now' : Int}
    (hle : now ≤ now') (h : isStale chrono fields now = true) :
    isStale chrono fields now' = true := by
  unfold isStale at h ⊢
  cases hacquired : fields.get fieldAcquiredAt with
  | none => rfl
  | some acquiredStr =>
    simp only [hacquired] at h ⊢
    by_cases hempty : acquiredStr = ""
    · rw [if_pos hempty]
    · rw [if_neg hempty] at h ⊢
      cases hparse : chrono.parseIso acquiredStr with
      | none => rfl
      | some acquired =>
        simp only [hparse] at h ⊢
        cases httl : parseUnsigned 64 ((fields.get fieldTtl).getD
            (Nat.repr defaultTtl.toNat)) with
        | none => rfl
        | some ttl =>
          simp only [httl, decide_eq_true_eq] at h ⊢
          exact lt_of_lt_of_le h (numSeconds_mono hle)

/-- What a rival reads off an item that `acquire` wrote at `stampedAt`. -/
theorem isStale_acquireFields {chrono : Chrono} {stampedAt : Int}
    {acquiredAt : String} (hstamp : chrono.IsNowUtcIso stampedAt acquiredAt)
    (holder : Holder) (ttl : UInt64) (now : Int) :
    isStale chrono (acquireFields holder acquiredAt ttl) now =
      decide (asI64 ttl < numSeconds (floorSecond stampedAt) now) := by
  obtain ⟨hne, hparse⟩ := hstamp
  have httl : parseUnsigned 64 (Nat.repr ttl.toNat) = some ttl.toNat :=
    parseUnsigned_repr ttl.toNat_lt
  simp only [isStale, acquireFields_acquiredAt, acquireFields_ttl, hne, if_false,
    hparse, Option.getD_some, httl, UInt64.ofNat_toNat]

/-! ## The holder's measure against a rival's -/

/-- No rival whose clock agrees finds the item stale while its holder still
believes in the lock. -/
def MeasuresAgree (chrono : Chrono) (fields : Fields) (held : Held) : Prop :=
  ∀ now : Int, held.acquired ≤ now → held.withinTtl now →
    isStale chrono fields now = false

/-- The two measures agree on a TTL that fits `i64` when the acquire returned
within a second of the second it stamped. -/
theorem not_stale_of_withinTtl {stampedAt returned now : Int} {ttl : UInt64}
    (httl : ttl.toNat < 2 ^ 63) (hcalls : returned ≤ floorSecond stampedAt + second)
    (hstamped : floorSecond stampedAt ≤ now)
    (hheld : now - returned < ttl.toNat * second) :
    ¬ asI64 ttl < numSeconds (floorSecond stampedAt) now := by
  rw [asI64_of_lt httl, lt_numSeconds_iff hstamped]
  unfold second at *
  omega

/-- **When both sides agree on when a lock goes stale.**  For every TTL and every
duration of the calls inside `acquire`: exactly if the TTL is nothing, or fits
`i64` and the acquire returned by the end of the second after the one
its `acquired_at` names. -/
theorem measuresAgree_iff (chrono : Chrono) (holder : Holder) (id acquiredAt : String)
    (ttl : UInt64) (stampedAt returned : Int) (hcalls : stampedAt ≤ returned)
    (hstamp : chrono.IsNowUtcIso stampedAt acquiredAt) :
    MeasuresAgree chrono (acquireFields holder acquiredAt ttl)
        (.taken id ttl returned) ↔
      ttl = 0 ∨
        (ttl.toNat < 2 ^ 63 ∧ returned ≤ floorSecond stampedAt + second) := by
  have hfloor : floorSecond stampedAt ≤ stampedAt := floorSecond_le stampedAt
  unfold MeasuresAgree Held.withinTtl Held.taken
  simp only [isStale_acquireFields hstamp, decide_eq_false_iff_not]
  constructor
  · intro hagree
    by_cases hzero : ttl = 0
    · exact Or.inl hzero
    have hpos : 0 < ttl.toNat := by
      rcases Nat.eq_zero_or_pos ttl.toNat with h | h
      · exact absurd (UInt64.toNat_inj.mp h) hzero
      · exact h
    right
    by_cases hbig : 2 ^ 63 ≤ ttl.toNat
    · -- the cast TTL is negative, so the item is stale as soon as it is held
      have hstale : asI64 ttl < numSeconds (floorSecond stampedAt) returned :=
        lt_of_lt_of_le (asI64_neg_of_le hbig) (numSeconds_nonneg (by omega))
      refine absurd hstale (hagree returned (le_refl returned) ?_)
      unfold second
      omega
    · have hfits : ttl.toNat < 2 ^ 63 := by omega
      refine ⟨hfits, ?_⟩
      by_contra hlate
      -- the first instant a rival finds it stale, or the acquire's return if later
      have hstale : ∀ now : Int, returned ≤ now →
          floorSecond stampedAt + (ttl.toNat + 1) * second ≤ now →
          asI64 ttl < numSeconds (floorSecond stampedAt) now := by
        intro now hnow hpast
        rw [asI64_of_lt hfits, lt_numSeconds_iff (by omega)]
        omega
      have hnow := hagree
        (max returned (floorSecond stampedAt + (ttl.toNat + 1) * second))
        (le_max_left _ _)
      refine absurd (hstale _ (le_max_left _ _) (le_max_right _ _)) (hnow ?_)
      unfold second at *
      omega
  · intro hcond now hnow hheld
    rcases hcond with rfl | ⟨hfits, hlate⟩
    · unfold second at hheld
      simp at hheld
      omega
    · exact not_stale_of_withinTtl hfits hlate (by omega) hheld

/-- A holder for the runs below. -/
def alice : Holder where
  email := "alice@example.com"
  name := "Alice"
  operation := "cert_create"
  hostname := "ca-host"

/-- A minute's lock, stamped in the middle of a second, whose acquire took half a second. -/
theorem measuresAgree_within_second :
    MeasuresAgree .calendar (acquireFields alice "1970-01-01T00:00:00Z" 60)
      (.taken "lock" 60 1000000000) :=
  (measuresAgree_iff .calendar alice "lock" "1970-01-01T00:00:00Z" 60 500000000 1000000000
    (by decide) (by decide)).mpr (Or.inr (by decide))

/-- Two seconds of calls inside `acquire`: half a second before the holder's
five minutes are over, a rival already finds the item stale. -/
theorem stale_while_held :
    Chrono.calendar.IsNowUtcIso 0 "1970-01-01T00:00:00Z" ∧
      ¬ MeasuresAgree .calendar (acquireFields alice "1970-01-01T00:00:00Z" 300)
        (.taken "lock" 300 (2 * second)) := by
  refine ⟨by decide, fun hagree => ?_⟩
  have hfresh := hagree 301500000000 (by decide) (by decide)
  exact absurd hfresh (by decide)

end Opca.Vault

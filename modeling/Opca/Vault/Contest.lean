/-
  Vault/Contest.lean --- any number of acquirers contesting the vault lock: the
  calls of `acquire`, `contest` and `release`, one step each, over the lock
  items the vault holds (`vault_lock.rs`).
-/
import Opca.Foundation.Machine
import Opca.Vault.Lock
import Mathlib

set_option autoImplicit false

namespace Opca.Vault

open Opca.Foundation

/-! ## The vault's items -/

/-- A lock item as 1Password keeps it; a field may have no value. -/
structure Item where
  id : String
  createdAt : String
  fields : List (String × Option String)
  deriving DecidableEq, Repr

/-- The item `create_item` makes of the fields it is given. -/
def Item.ofFields (id createdAt : String) (fields : Fields) : Item where
  id := id
  createdAt := createdAt
  fields := fields.map fun (label, value) => (label, some value)

/-- What `read_lock` makes of an item it found. -/
def readLock (chrono : Chrono) (item : Item) : Lock where
  id := item.id
  created := chrono.parseRfc3339 item.createdAt
  fields := (item.fields.filter (·.1 ≠ "")).map fun (label, value) =>
    (label, value.getD "")

/-! ## An acquirer -/

/-- An `acquire` under way: when it stamped `acquired_at`, its TTL and the
fields it writes. -/
structure Attempt where
  stampedAt : Int
  ttl : UInt64
  fields : Fields
  deriving DecidableEq, Repr

/-- An attempt whose `create_item` has returned.  `seq` is the number of lock
items created before its own; the program does not know it. -/
structure Contender extends Attempt where
  mine : Lock
  seq : Nat
  deriving DecidableEq, Repr

/-- Where a contender is in its contest. -/
inductive Stage where
  /-- The item is created; the listing comes next. -/
  | listing
  /-- The listed ids still to be read, and the rivals read so far. -/
  | reading (left : List String) (rivals : List Lock)
  /-- The rivals that rank ahead and have not been judged yet. -/
  | contesting (ahead : List Lock)
  /-- A stale rival about to be deleted, and those still to be judged. -/
  | breaking (rival : Lock) (rest : List Lock)
  /-- The contest is lost to a lock that is held, or one of its calls has
  failed: its own copy is deleted next. -/
  | losing (against : Option VaultLocked)
  /-- `acquire` has returned `Ok`. -/
  | holding (held : Held)
  deriving DecidableEq, Repr

inductive Phase where
  | idle
  /-- The fields are stamped; `create_item` has not returned. -/
  | stamped (attempt : Attempt)
  | contending (contender : Contender) (stage : Stage)
  /-- `release` deleted the item but its caller saw an error. -/
  | released (held : Held)
  | crashed
  deriving DecidableEq, Repr

/-- Acquirers are numbered; a process that comes back after a crash is another
one. -/
structure State where
  now : Int
  /-- The vault's lock items, in the order they are listed. -/
  items : List Item
  /-- Every lock item there has ever been, in the order their creates commit. -/
  made : List Item
  party : Nat → Phase

/-- One step of the world: time passes, or a party's next call takes effect
with the answer the service gives. -/
inductive Label where
  | tick (nanos : Nat)
  /-- `now_utc_iso` and the other fields. -/
  | stamp (p : Nat) (holder : Holder) (acquiredAt : String) (ttl : UInt64)
  | create (p : Nat) (id createdAt : String)
  /-- `create_item` returns an error, whether or not an item came of it. -/
  | createFails (p : Nat) (landed : Option (String × String))
  | list (p : Nat)
  /-- Read the next listed id. -/
  | read (p : Nat)
  /-- Rank what was read, once nothing is left to read. -/
  | judge (p : Nat)
  /-- Look at the first rival ahead, or find there is none. -/
  | check (p : Nat)
  /-- Delete the rival found stale. -/
  | breakStale (p : Nat)
  /-- A call of the contest returns an error; a delete may still have landed. -/
  | fail (p : Nat) (landed : Bool)
  /-- The loser's deletion of its own copy, whose failure is ignored. -/
  | withdraw (p : Nat) (landed : Bool)
  | release (p : Nat)
  | releaseFails (p : Nat) (landed : Bool)
  | crash (p : Nat)
  deriving DecidableEq, Repr

/-- The party whose call a step is. -/
def Label.party? : Label → Option Nat
  | .tick _ => none
  | .stamp p _ _ _ | .create p _ _ | .createFails p _ | .list p | .read p | .judge p
  | .check p | .breakStale p | .fail p _ | .withdraw p _ | .release p
  | .releaseFails p _ | .crash p => some p

namespace State

/-- The state in which party `p` is in `phase`. -/
def enter (s : State) (p : Nat) (phase : Phase) : State :=
  { s with party := Function.update s.party p phase }

/-- The vault after a delete by id; deleting what is gone changes nothing. -/
def deleteLock (s : State) (id : String) : State :=
  { s with items := s.items.filter (·.id ≠ id) }

/-- The vault after a create. -/
def addItem (s : State) (item : Item) : State :=
  { s with items := s.items ++ [item], made := s.made ++ [item] }

@[simp] theorem enter_now (s : State) (p : Nat) (f : Phase) :
    (s.enter p f).now = s.now := rfl
@[simp] theorem enter_items (s : State) (p : Nat) (f : Phase) :
    (s.enter p f).items = s.items := rfl
@[simp] theorem enter_made (s : State) (p : Nat) (f : Phase) :
    (s.enter p f).made = s.made := rfl
@[simp] theorem enter_party_self (s : State) (p : Nat) (f : Phase) :
    (s.enter p f).party p = f := by simp [enter]
theorem enter_party_of_ne (s : State) {p q : Nat} (f : Phase) (h : q ≠ p) :
    (s.enter p f).party q = s.party q := by simp [enter, h]

@[simp] theorem deleteLock_now (s : State) (id : String) :
    (s.deleteLock id).now = s.now := rfl
@[simp] theorem deleteLock_made (s : State) (id : String) :
    (s.deleteLock id).made = s.made := rfl
@[simp] theorem deleteLock_party (s : State) (id : String) :
    (s.deleteLock id).party = s.party := rfl
theorem mem_deleteLock {s : State} {id : String} {item : Item} :
    item ∈ (s.deleteLock id).items ↔ item ∈ s.items ∧ item.id ≠ id := by
  simp [deleteLock]

@[simp] theorem addItem_now (s : State) (item : Item) :
    (s.addItem item).now = s.now := rfl
@[simp] theorem addItem_party (s : State) (item : Item) :
    (s.addItem item).party = s.party := rfl
@[simp] theorem addItem_items (s : State) (item : Item) :
    (s.addItem item).items = s.items ++ [item] := rfl
@[simp] theorem addItem_made (s : State) (item : Item) :
    (s.addItem item).made = s.made ++ [item] := rfl

end State

section Machine

variable (chrono : Chrono)

/-- Whether the server's times decide: they do when all of them are known. -/
def byServer (mine : Lock) (rivals : List Lock) : Bool :=
  mine.created.isSome && rivals.all (·.created.isSome)

/-- The rivals that rank ahead of `mine`, in rank order. -/
def rivalsAhead (mine : Lock) (rivals : List Lock) : List Lock :=
  let key := Lock.rank chrono (byServer mine rivals)
  (rivals.insertionSort fun a b => key a ≤ key b).takeWhile fun rival =>
    decide (key rival < key mine)

/-- The step `l` makes of `s`, if it is enabled. -/
def next (s : State) : Label → Option State
  | .tick nanos => some { s with now := s.now + nanos }
  | .stamp p holder acquiredAt ttl =>
    match s.party p with
    | .idle =>
      if chrono.IsNowUtcIso s.now acquiredAt then
        some (s.enter p (.stamped ⟨s.now, ttl, acquireFields holder acquiredAt ttl⟩))
      else none
    | _ => none
  | .create p id createdAt =>
    match s.party p with
    | .stamped a =>
      if id ∈ s.made.map (·.id) then none
      else
        let mine : Lock := ⟨id, chrono.parseRfc3339 createdAt, a.fields⟩
        some ((s.addItem (.ofFields id createdAt a.fields)).enter p
          (.contending ⟨a, mine, s.made.length⟩ .listing))
    | _ => none
  | .createFails p landed =>
    match s.party p with
    | .stamped a =>
      match landed with
      | none => some (s.enter p .idle)
      | some (id, createdAt) =>
        if id ∈ s.made.map (·.id) then none
        else some ((s.addItem (.ofFields id createdAt a.fields)).enter p .idle)
    | _ => none
  | .list p =>
    match s.party p with
    | .contending c .listing =>
      some (s.enter p (.contending c
        (.reading ((s.items.map (·.id)).filter (· ≠ c.mine.id)) [])))
    | _ => none
  | .read p =>
    match s.party p with
    | .contending c (.reading (id :: left) rivals) =>
      let found := (s.items.find? (·.id = id)).map (readLock chrono)
      some (s.enter p (.contending c (.reading left (rivals ++ found.toList))))
    | _ => none
  | .judge p =>
    match s.party p with
    | .contending c (.reading [] rivals) =>
      some (s.enter p (.contending c (.contesting (rivalsAhead chrono c.mine rivals))))
    | _ => none
  | .check p =>
    match s.party p with
    | .contending c (.contesting []) =>
      some (s.enter p (.contending c (.holding (.taken c.mine.id c.ttl s.now))))
    | .contending c (.contesting (rival :: rest)) =>
      if isStale chrono rival.fields s.now then
        some (s.enter p (.contending c (.breaking rival rest)))
      else some (s.enter p (.contending c (.losing (some rival.heldAgainstUs))))
    | _ => none
  | .breakStale p =>
    match s.party p with
    | .contending c (.breaking rival rest) =>
      some ((s.deleteLock rival.id).enter p (.contending c (.contesting rest)))
    | _ => none
  | .fail p landed =>
    match s.party p with
    | .contending c (.breaking rival _) =>
      some ((if landed then s.deleteLock rival.id else s).enter p
        (.contending c (.losing none)))
    | .contending c .listing | .contending c (.reading _ _) =>
      some (s.enter p (.contending c (.losing none)))
    | _ => none
  | .withdraw p landed =>
    match s.party p with
    | .contending c (.losing _) =>
      some ((if landed then s.deleteLock c.mine.id else s).enter p .idle)
    | _ => none
  | .release p =>
    match s.party p with
    | .contending _ (.holding held) => some ((s.deleteLock held.id).enter p .idle)
    | .released held => some ((s.deleteLock held.id).enter p .idle)
    | _ => none
  | .releaseFails p landed =>
    match s.party p with
    | .contending _ (.holding held) =>
      if landed then some ((s.deleteLock held.id).enter p (.released held)) else some s
    | _ => none
  | .crash p => some (s.enter p .crashed)

/-- The vault's lock under contention.  The runs start from a vault without a
lock item; any item in it is left there by some acquirer. -/
def contest : Machine State Label where
  init s := s.items = [] ∧ s.made = [] ∧ ∀ p, s.party p = .idle
  next := next chrono

/-! ## What a step can do -/

/-- How a contender gets from one stage to the next without a write. -/
inductive Advances (s : State) (c : Contender) : Stage → Stage → Prop
  | list : Advances s c .listing
      (.reading ((s.items.map (·.id)).filter (· ≠ c.mine.id)) [])
  | read {id : String} {left : List String} {rivals : List Lock} :
      Advances s c (.reading (id :: left) rivals)
        (.reading left
          (rivals ++ ((s.items.find? (·.id = id)).map (readLock chrono)).toList))
  | win : Advances s c (.contesting []) (.holding (.taken c.mine.id c.ttl s.now))
  | stale {rival : Lock} {rest : List Lock} :
      isStale chrono rival.fields s.now = true →
      Advances s c (.contesting (rival :: rest)) (.breaking rival rest)
  | lose {rival : Lock} {rest : List Lock} :
      isStale chrono rival.fields s.now = false →
      Advances s c (.contesting (rival :: rest)) (.losing (some rival.heldAgainstUs))
  | fail {st : Stage} : Advances s c st (.losing none)

/-- Everything a step can do. -/
inductive Move (s : State) : Label → State → Prop
  | tick (nanos : Nat) : Move s (.tick nanos) { s with now := s.now + nanos }
  | stamp {p : Nat} {holder : Holder} {acquiredAt : String} {ttl : UInt64} :
      s.party p = .idle → chrono.IsNowUtcIso s.now acquiredAt →
      Move s (.stamp p holder acquiredAt ttl)
        (s.enter p (.stamped ⟨s.now, ttl, acquireFields holder acquiredAt ttl⟩))
  | create {p : Nat} {id createdAt : String} {a : Attempt} :
      s.party p = .stamped a → id ∉ s.made.map (·.id) →
      Move s (.create p id createdAt)
        ((s.addItem (.ofFields id createdAt a.fields)).enter p
          (.contending ⟨a, ⟨id, chrono.parseRfc3339 createdAt, a.fields⟩,
            s.made.length⟩ .listing))
  | createLost {p : Nat} {a : Attempt} :
      s.party p = .stamped a → Move s (.createFails p none) (s.enter p .idle)
  | createLanded {p : Nat} {id createdAt : String} {a : Attempt} :
      s.party p = .stamped a → id ∉ s.made.map (·.id) →
      Move s (.createFails p (some (id, createdAt)))
        ((s.addItem (.ofFields id createdAt a.fields)).enter p .idle)
  | advance {l : Label} {p : Nat} {c : Contender} {st st' : Stage} :
      s.party p = .contending c st → Advances chrono s c st st' →
      Move s l (s.enter p (.contending c st'))
  | judge {p : Nat} {c : Contender} {rivals : List Lock} :
      s.party p = .contending c (.reading [] rivals) →
      Move s (.judge p)
        (s.enter p (.contending c (.contesting (rivalsAhead chrono c.mine rivals))))
  | breakStale {l : Label} {p : Nat} {c : Contender} {rival : Lock}
      {rest : List Lock} {st' : Stage} :
      s.party p = .contending c (.breaking rival rest) →
      st' = .contesting rest ∨ st' = .losing none →
      Move s l ((s.deleteLock rival.id).enter p (.contending c st'))
  | leave {l : Label} {p : Nat} {f : Phase} :
      f = .idle ∨ f = .crashed → Move s l (s.enter p f)
  | withdraw {p : Nat} {c : Contender} {against : Option VaultLocked} :
      s.party p = .contending c (.losing against) →
      Move s (.withdraw p true) ((s.deleteLock c.mine.id).enter p .idle)
  | release {l : Label} {p : Nat} {c : Contender} {held : Held} {f : Phase} :
      s.party p = .contending c (.holding held) → l.party? = some p →
      f = .idle ∨ f = .released held →
      Move s l ((s.deleteLock held.id).enter p f)
  | releaseAgain {p : Nat} {held : Held} :
      s.party p = .released held →
      Move s (.release p) ((s.deleteLock held.id).enter p .idle)
  | stay {l : Label} : Move s l s

variable {chrono} {s t : State} {l : Label}

theorem move_of_next (h : next chrono s l = some t) : Move chrono s l t := by
  cases l with
  | tick nanos =>
    cases h
    exact .tick nanos
  | stamp p holder acquiredAt ttl =>
    simp only [next] at h
    split at h
    · split at h
      · cases h
        exact .stamp ‹_› ‹_›
      · cases h
    · cases h
  | create p id createdAt =>
    simp only [next] at h
    split at h
    · split at h
      · cases h
      · cases h
        exact .create ‹_› ‹_›
    · cases h
  | createFails p landed =>
    simp only [next] at h
    split at h
    · split at h
      · cases h
        exact .createLost ‹_›
      · split at h
        · cases h
        · cases h
          exact .createLanded ‹_› ‹_›
    · cases h
  | list p =>
    simp only [next] at h
    split at h
    · cases h
      exact .advance ‹_› .list
    · cases h
  | read p =>
    simp only [next] at h
    split at h
    · cases h
      exact .advance ‹_› .read
    · cases h
  | judge p =>
    simp only [next] at h
    split at h
    · cases h
      exact .judge ‹_›
    · cases h
  | check p =>
    simp only [next] at h
    split at h
    · cases h
      exact .advance ‹_› .win
    · split at h
      · cases h
        exact .advance ‹_› (.stale ‹_›)
      next hfresh =>
        cases h
        exact .advance ‹_› (.lose (Bool.eq_false_iff.mpr hfresh))
    · cases h
  | breakStale p =>
    simp only [next] at h
    split at h
    · cases h
      exact .breakStale ‹_› (Or.inl rfl)
    · cases h
  | fail p landed =>
    simp only [next] at h
    split at h
    · cases h
      cases landed with
      | false => exact .advance ‹_› .fail
      | true => exact .breakStale ‹_› (Or.inr rfl)
    · cases h
      exact .advance ‹_› .fail
    · cases h
      exact .advance ‹_› .fail
    · cases h
  | withdraw p landed =>
    simp only [next] at h
    split at h
    · cases h
      cases landed with
      | false => exact .leave (Or.inl rfl)
      | true => exact .withdraw ‹_›
    · cases h
  | release p =>
    simp only [next] at h
    split at h
    · cases h
      exact .release ‹_› rfl (Or.inl rfl)
    · cases h
      exact .releaseAgain ‹_›
    · cases h
  | releaseFails p landed =>
    simp only [next] at h
    split at h
    · split at h
      · cases h
        exact .release ‹_› rfl (Or.inr rfl)
      · cases h
        exact .stay
    · cases h
  | crash p =>
    cases h
    exact .leave (Or.inr rfl)

/-- A step changes its own party only. -/
theorem party_of_next (h : next chrono s l = some t) {q : Nat} (hq : l.party? ≠ some q) :
    t.party q = s.party q := by
  have hne : ∀ {p}, l.party? = some p → q ≠ p := by
    rintro p hp rfl
    exact hq hp
  have henter : ∀ {u : State} {p : Nat} {f : Phase}, u.party = s.party → l.party? = some p →
      (u.enter p f).party q = s.party q := by
    intro u p f hu hp
    rw [State.enter_party_of_ne u f (hne hp), hu]
  cases l <;> simp only [next] at h <;> repeat' split at h
  all_goals cases h
  all_goals first
    | rfl
    | exact henter rfl rfl

/-- Whoever is not among the first `n` parties has done nothing yet. -/
def State.Within (n : Nat) (s : State) : Prop := ∀ q, n ≤ q → s.party q = .idle

theorem State.Within.next {n : Nat} (h : s.Within n)
    (hl : l.party?.all (fun p => decide (p < n)) = true)
    (hnext : Vault.next chrono s l = some t) : t.Within n := by
  intro q hq
  refine (party_of_next hnext fun hparty => ?_).trans (h q hq)
  rw [hparty, Option.all_some, decide_eq_true_eq] at hl
  omega

end Machine

end Opca.Vault

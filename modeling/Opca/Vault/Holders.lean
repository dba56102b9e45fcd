/-
  Vault/Holders.lean --- mutual exclusion of the vault lock's holders: by the
  server's creation times, and when those cannot decide.
-/
import Opca.Vault.Exclusion

set_option autoImplicit false

namespace Opca.Vault

open Opca.Foundation

/-! ## Fresh items -/

/-- Whether an item is not past its TTL, counted in whole seconds from the
`acquired_at` it shows. -/
def fresh (chrono : Chrono) (fields : Fields) (now : Int) : Bool :=
  match (fields.get fieldAcquiredAt).bind chrono.parseIso,
      (fields.get fieldTtl).bind (parseUnsigned 64) with
  | some acquired, some ttl => decide (numSeconds acquired now ≤ ttl)
  | _, _ => false

/-- What an attempt with a TTL that fits `i64` writes. -/
def Written (chrono : Chrono) (fields : Fields) : Prop :=
  ∃ (stampedAt : Int) (holder : Holder) (acquiredAt : String) (ttl : UInt64),
    chrono.IsNowUtcIso stampedAt acquiredAt ∧
      fields = acquireFields holder acquiredAt ttl ∧ ttl.toNat < 2 ^ 63

variable {chrono : Chrono} {key : String → Bool} {s t : State} {l : Label}

/-- On such an item `is_stale` says what it means to. -/
theorem Written.fresh_iff {fields : Fields} (h : Written chrono fields) (now : Int) :
    fresh chrono fields now = true ↔ isStale chrono fields now = false := by
  obtain ⟨stampedAt, holder, acquiredAt, ttl, hstamp, rfl, httl⟩ := h
  have hread : parseUnsigned 64 (Nat.repr ttl.toNat) = some ttl.toNat :=
    parseUnsigned_repr ttl.toNat_lt
  rw [isStale_acquireFields hstamp, asI64_of_lt httl, decide_eq_false_iff_not, not_lt]
  simp only [fresh, acquireFields_acquiredAt, acquireFields_ttl, Option.bind_some,
    hstamp.2, hread, decide_eq_true_eq]

/-! ## What changes in a step -/

/-- The attempt a live party is at. -/
def Phase.attempt? : Phase → Option Attempt
  | .stamped a => some a
  | .contending c _ => some c.toAttempt
  | _ => none

theorem attempt_of_enter {p q : Nat} {f : Phase} {a : Attempt}
    (h : ((s.enter p f).party q).attempt? = some a) :
    (q = p ∧ f.attempt? = some a) ∨ (s.party q).attempt? = some a := by
  by_cases hqp : q = p
  · subst hqp
    rw [State.enter_party_self] at h
    exact Or.inl ⟨rfl, h⟩
  · rw [State.enter_party_of_ne s f hqp] at h
    exact Or.inr h

/-- Only stamping starts an attempt. -/
theorem Move.attempt (hmove : Move chrono s l t) {q : Nat} {a : Attempt}
    (h : (t.party q).attempt? = some a) :
    (s.party q).attempt? = some a ∨
      ∃ holder acquiredAt ttl, l = .stamp q holder acquiredAt ttl ∧
        chrono.IsNowUtcIso s.now acquiredAt ∧
        a = ⟨s.now, ttl, acquireFields holder acquiredAt ttl⟩ := by
  have hsame : ∀ {p : Nat} {f : Phase} {u : State}, u.party = s.party →
      (f.attempt? = none ∨ f.attempt? = (s.party p).attempt?) →
      ((u.enter p f).party q).attempt? = some a → (s.party q).attempt? = some a := by
    intro p f u hu hf hq
    rcases attempt_of_enter hq with ⟨rfl, hfa⟩ | hold
    · rcases hf with hf | hf
      · rw [hf] at hfa
        cases hfa
      · rw [← hf]
        exact hfa
    · rw [hu] at hold
      exact hold
  cases hmove with
  | tick _ => exact Or.inl h
  | stay => exact Or.inl h
  | @stamp p holder acquiredAt ttl hp hnow =>
    rcases attempt_of_enter h with ⟨rfl, hf⟩ | hold
    · cases hf
      exact Or.inr ⟨holder, acquiredAt, ttl, rfl, hnow, rfl⟩
    · exact Or.inl hold
  | create hp _ => exact Or.inl (hsame rfl (Or.inr (by rw [hp]; rfl)) h)
  | createLost _ => exact Or.inl (hsame rfl (Or.inl rfl) h)
  | createLanded _ _ => exact Or.inl (hsame rfl (Or.inl rfl) h)
  | advance hp _ => exact Or.inl (hsame rfl (Or.inr (by rw [hp]; rfl)) h)
  | judge hp => exact Or.inl (hsame rfl (Or.inr (by rw [hp]; rfl)) h)
  | breakStale hp _ => exact Or.inl (hsame rfl (Or.inr (by rw [hp]; rfl)) h)
  | leave hf => exact Or.inl (hsame rfl (Or.inl (by rcases hf with rfl | rfl <;> rfl)) h)
  | withdraw _ => exact Or.inl (hsame rfl (Or.inl rfl) h)
  | release _ _ hf =>
    exact Or.inl (hsame rfl (Or.inl (by rcases hf with rfl | rfl <;> rfl)) h)
  | releaseAgain _ => exact Or.inl (hsame rfl (Or.inl rfl) h)

/-- Items are made of stamped attempts only. -/
theorem Move.made (hmove : Move chrono s l t) :
    t.made = s.made ∨ ∃ p a id createdAt, s.party p = .stamped a ∧
      (l = .create p id createdAt ∨ l = .createFails p (some (id, createdAt))) ∧
      t.made = s.made ++ [.ofFields id createdAt a.fields] := by
  cases hmove with
  | create hp _ => exact Or.inr ⟨_, _, _, _, hp, Or.inl rfl, rfl⟩
  | createLanded hp _ => exact Or.inr ⟨_, _, _, _, hp, Or.inr rfl, rfl⟩
  | _ => exact Or.inl rfl

theorem Move.now (hmove : Move chrono s l t) :
    t.now = s.now ∨ ∃ nanos, l = .tick nanos ∧ t.now = s.now + nanos := by
  cases hmove with
  | tick nanos => exact Or.inr ⟨nanos, rfl, rfl⟩
  | _ => exact Or.inl rfl

/-! ## TTLs that fit -/

/-- The step stamps no TTL beyond `i64::MAX` seconds. -/
def TtlFits : Label → Prop
  | .stamp _ _ _ ttl => ttl.toNat < 2 ^ 63
  | _ => True

/-- Every TTL ever stamped fits. -/
structure TtlsFit (chrono : Chrono) (s : State) : Prop where
  attempts : ∀ p a, (s.party p).attempt? = some a →
    a.ttl.toNat < 2 ^ 63 ∧ a.WellStamped chrono
  items : ∀ item ∈ s.made, Written chrono (readLock chrono item).fields

theorem Attempt.WellStamped.written {a : Attempt} (h : a.WellStamped chrono)
    (httl : a.ttl.toNat < 2 ^ 63) : Written chrono a.fields := by
  obtain ⟨holder, acquiredAt, hstamp, hfields⟩ := h
  exact ⟨a.stampedAt, holder, acquiredAt, a.ttl, hstamp, hfields, httl⟩

theorem TtlsFit.move (h : TtlsFit chrono s) (hmove : Move chrono s l t)
    (hl : TtlFits l) : TtlsFit chrono t := by
  refine ⟨?_, ?_⟩
  · intro q a ha
    rcases hmove.attempt ha with hold | ⟨holder, acquiredAt, ttl, rfl, hnow, rfl⟩
    · exact h.attempts q a hold
    · exact ⟨hl, holder, acquiredAt, hnow, rfl⟩
  · intro item hitem
    rcases hmove.made with hmade | ⟨p, a, id, createdAt, hp, -, hmade⟩
    · exact h.items item (hmade ▸ hitem)
    · rw [hmade] at hitem
      rcases List.mem_append.mp hitem with hold | hnew
      · exact h.items item hold
      · rw [List.mem_singleton.mp hnew]
        obtain ⟨httl, hwell⟩ := h.attempts p a (by rw [hp]; rfl)
        rw [readLock_ofFields hwell]
        exact hwell.written httl

/-! ## The server's times -/

/-- The service stamps every item with a readable time, later than any before. -/
def StampsRise (chrono : Chrono) (s : State) : Label → Prop
  | .create _ _ createdAt | .createFails _ (some (_, createdAt)) =>
    ∃ at_, chrono.parseRfc3339 createdAt = some at_ ∧
      ∀ item ∈ s.made, ∀ before, chrono.parseRfc3339 item.createdAt = some before →
        before < at_
  | _ => True

/-- No live acquirer takes longer than its TTL. -/
def Punctual (s : State) : Label → Prop
  | .tick nanos => ∀ p a, (s.party p).attempt? = some a →
      s.now + nanos - a.stampedAt ≤ a.ttl.toNat * second
  | _ => True

/-- The invariant of the runs in which the server's times decide. -/
structure Orderly (chrono : Chrono) (s : State) : Prop where
  inv : Inv chrono (fun _ => true) s
  fit : TtlsFit chrono s
  readable : ∀ item ∈ s.made, (chrono.parseRfc3339 item.createdAt).isSome = true
  punctual : ∀ p a, (s.party p).attempt? = some a →
    s.now - a.stampedAt ≤ a.ttl.toNat * second

theorem isSome_created_of_mem_locks
    (hreadable : ∀ item ∈ s.made, (chrono.parseRfc3339 item.createdAt).isSome = true)
    {lock : Lock} (h : lock ∈ s.locks chrono) : lock.created.isSome = true := by
  obtain ⟨item, hitem, rfl⟩ := List.mem_map.mp h
  exact hreadable item hitem

/-- Items whose stamps rise rank in the order of their creates. -/
theorem Orderly.inOrder (h : Orderly chrono s) (hl : StampsRise chrono s l) :
    InOrder chrono (fun _ => true) s l := by
  cases l with
  | create p id createdAt =>
    obtain ⟨at_, hat, hafter⟩ := hl
    rintro a - q c st ⟨hq, hrest⟩
    obtain ⟨item, hitem, hread⟩ := h.inv.present ⟨st, hq, hrest⟩
    have hmade := h.inv.items item hitem
    obtain ⟨before, hbefore⟩ := Option.isSome_iff_exists.mp (h.readable item hmade)
    have hlt := hafter item hmade before hbefore
    left
    rw [← hread]
    simp only [Outranks, Lock.rank, if_true, hat, readLock, hbefore, Prod.Lex.toLex_lt_toLex]
    exact Or.inl (WithBot.coe_lt_coe.mpr hlt)
  | judge p =>
    intro c rivals hp
    obtain ⟨-, hmine, hrivals, -, -⟩ :
      PartyOk chrono s (.contending c (.reading [] rivals)) := hp ▸ h.inv.party p
    rw [byServer, Bool.and_eq_true, List.all_eq_true]
    refine ⟨isSome_created_of_mem_locks h.readable (List.mem_of_getElem? hmine), ?_⟩
    intro rival hrival
    exact isSome_created_of_mem_locks h.readable (hrivals rival hrival)
  | _ => trivial

theorem Orderly.move (h : Orderly chrono s) (hmove : Move chrono s l t)
    (hstamps : StampsRise chrono s l) (hpunctual : Punctual s l) (httl : TtlFits l) :
    Orderly chrono t := by
  refine ⟨h.inv.move hmove (h.inOrder hstamps), h.fit.move hmove httl, ?_, ?_⟩
  · intro item hitem
    rcases hmove.made with hmade | ⟨p, a, id, createdAt, hp, hl, hmade⟩
    · exact h.readable item (hmade ▸ hitem)
    · rw [hmade] at hitem
      rcases List.mem_append.mp hitem with hold | hnew
      · exact h.readable item hold
      · rw [List.mem_singleton.mp hnew]
        rcases hl with rfl | rfl
        · obtain ⟨at_, hat, -⟩ := hstamps
          exact Option.isSome_iff_exists.mpr ⟨at_, hat⟩
        · obtain ⟨at_, hat, -⟩ := hstamps
          exact Option.isSome_iff_exists.mpr ⟨at_, hat⟩
  · intro q a ha
    rcases hmove.now with hnow | ⟨nanos, rfl, hnow⟩
    · rw [hnow]
      rcases hmove.attempt ha with hold | ⟨holder, acquiredAt, ttl, rfl, -, rfl⟩
      · exact h.punctual q a hold
      · have hpos : (0 : Int) ≤ ttl.toNat * second :=
          Int.mul_nonneg (Int.natCast_nonneg _) (by decide)
        simp [hpos]
    · rw [hnow]
      rcases hmove.attempt ha with hold | ⟨_, _, _, hstamp, -, -⟩
      · exact hpunctual q a hold
      · cases hstamp

/-- A live contender's item is not stale. -/
theorem Orderly.not_stale (h : Orderly chrono s) {p : Nat} {c : Contender} {st : Stage}
    (hp : s.party p = .contending c st) :
    isStale chrono c.mine.fields s.now = false := by
  obtain ⟨⟨⟨holder, acquiredAt, hstamp, hfields⟩, hat, hmine⟩, -⟩ :
    PartyOk chrono s (.contending c st) := hp ▸ h.inv.party p
  have hattempt : (s.party p).attempt? = some c.toAttempt := by rw [hp]; rfl
  have httl := (h.fit.attempts p _ hattempt).1
  have hpunctual := h.punctual p _ hattempt
  have hfloor := floorSecond_le c.stampedAt
  have hafter := lt_floorSecond_add c.stampedAt
  rw [hmine, hfields, isStale_acquireFields hstamp, decide_eq_false_iff_not,
    asI64_of_lt httl, lt_numSeconds_iff (le_trans hfloor hat)]
  unfold second at *
  omega

theorem Orderly.start (hs : (contest chrono).init s) : Orderly chrono s := by
  have hinv : Inv chrono (fun _ => true) s := Inv.start hs
  obtain ⟨-, hmade, hparty⟩ := hs
  refine ⟨hinv, ⟨?_, ?_⟩, ?_, ?_⟩
  · intro p a ha
    rw [hparty] at ha
    cases ha
  · intro item hitem
    rw [hmade] at hitem
    cases hitem
  · intro item hitem
    rw [hmade] at hitem
    cases hitem
  · intro p a ha
    rw [hparty] at ha
    cases ha

theorem TtlsFit.start (hs : (contest chrono).init s) : TtlsFit chrono s :=
  (Orderly.start hs).fit

/-! ## Exclusion by the server's times -/

/-- What the lock relies on: stamps that rise in the order of the creates, and
acquirers that keep within their TTL. -/
def Relied (chrono : Chrono) (s : State) (l : Label) : Prop :=
  StampsRise chrono s l ∧ Punctual s l

/-- Whether party `p` is between its successful `acquire` and its `release`. -/
def State.holds (s : State) (p : Nat) : Bool :=
  match s.party p with
  | .contending _ (.holding _) => true
  | _ => false

theorem State.holds_iff {p : Nat} :
    s.holds p = true ↔ ∃ c held, s.party p = .contending c (.holding held) := by
  unfold State.holds
  constructor
  · intro h
    split at h
    · exact ⟨_, _, ‹_›⟩
    · cases h
  · rintro ⟨c, held, hp⟩
    rw [hp]

/-- At most one acquirer holds the lock, and whatever is deleted is the
deleting party's own item or past its TTL. -/
structure Exclusive (chrono : Chrono) (s : State) : Prop where
  one_holder : ∀ p q, s.holds p = true → s.holds q = true → p = q
  no_fresh_deleted : ∀ l t, (contest chrono).next s l = some t →
    ∀ item ∈ s.items, item ∉ t.items →
      (∃ p, l.party? = some p ∧ (s.party p).itemId? = some item.id) ∨
        fresh chrono (readLock chrono item).fields s.now = false

theorem Orderly.exclusive (h : Orderly chrono s) : Exclusive chrono s := by
  refine ⟨?_, ?_⟩
  · intro p q hp hq
    obtain ⟨c, held, hp⟩ := State.holds_iff.mp hp
    obtain ⟨c', held', hq⟩ := State.holds_iff.mp hq
    exact h.inv.one_holder hp hq (h.not_stale hp) (h.not_stale hq)
  · intro l t hnext item hbefore hafter
    rcases h.inv.deletes (move_of_next hnext) hbefore hafter with hown | hstale
    · exact Or.inl hown
    · right
      have hwritten := h.fit.items item (h.inv.items item hbefore)
      rw [Bool.eq_false_iff, ne_eq, hwritten.fresh_iff, hstale]
      exact Bool.noConfusion

/-- **Mutual exclusion.**  In every run of any number of acquirers in which the
server's stamps rise, acquirers are punctual and no TTL exceeds `i64::MAX`
seconds, at most one of them holds the lock and no fresh item is deleted by
another party. -/
theorem exclusive_of_ttlFits (chrono : Chrono) {s : State}
    (hs : ((contest chrono).system.restrict
      fun s l => Relied chrono s l ∧ TtlFits l).Reachable s) :
    Exclusive chrono s := by
  have hinv : ((contest chrono).system.restrict
      fun s l => Relied chrono s l ∧ TtlFits l).Invariant (Orderly chrono) :=
    ⟨Orderly.start, fun h hstep =>
      h.move (move_of_next hstep.2) hstep.1.1.1 hstep.1.1.2 hstep.1.2⟩
  exact (hinv.reachable hs).exclusive

/-- A vault no one has locked yet. -/
def emptyVault : State where
  now := 0
  items := []
  made := []
  party := fun _ => .idle

theorem emptyVault_init (chrono : Chrono) : (contest chrono).init emptyVault :=
  ⟨rfl, rfl, fun _ => rfl⟩

theorem emptyVault_within (n : Nat) : emptyVault.Within n := fun _ _ => rfl

/-- What the lock relies on, of the first `n` parties, as a check that can be run. -/
def checkRelied (chrono : Chrono) (n : Nat) (s : State) : Label → Bool
  | .tick nanos => (List.range n).all fun p => (s.party p).attempt?.all fun a =>
      decide (s.now + nanos - a.stampedAt ≤ a.ttl.toNat * second)
  | .create _ _ createdAt => match chrono.parseRfc3339 createdAt with
    | none => false
    | some at_ => s.made.all fun item =>
        match chrono.parseRfc3339 item.createdAt with
        | none => true
        | some before => decide (before < at_)
  | .createFails _ landed => landed.isNone
  | _ => true

theorem relied_of_check {n : Nat} (hs : s.Within n) (h : checkRelied chrono n s l = true) :
    Relied chrono s l := by
  cases l with
  | tick nanos =>
    refine ⟨trivial, fun p a ha => ?_⟩
    by_cases hp : p < n
    · have hchecked := List.all_eq_true.mp h p (List.mem_range.mpr hp)
      rw [ha] at hchecked
      exact of_decide_eq_true hchecked
    · rw [hs p (not_lt.mp hp)] at ha
      cases ha
  | create p id createdAt =>
    refine ⟨?_, trivial⟩
    simp only [checkRelied] at h
    split at h
    · cases h
    · rename_i at_ hat
      refine ⟨at_, hat, ?_⟩
      intro item hitem before hbefore
      have hlt := List.all_eq_true.mp h item hitem
      simpa [hbefore] using hlt
  | createFails p landed =>
    cases landed with
    | none => exact ⟨trivial, trivial⟩
    | some _ => cases h
  | _ => exact ⟨trivial, trivial⟩

/-- A run of the first `n` parties whose steps pass a check. -/
theorem exists_reachable_of_check (chrono : Chrono) (n : Nat) (check : State → Label → Bool)
    (ok : State → Label → Prop) (hcheck : ∀ s l, s.Within n → check s l = true → ok s l)
    (ls : List Label) (view : State → Bool)
    (h : (((contest chrono).guard fun s l =>
      l.party?.all (fun p => decide (p < n)) && check s l).exec ls emptyVault).any view = true) :
    ∃ t, ((contest chrono).system.restrict ok).Reachable t ∧ view t = true := by
  refine Machine.exists_reachable_of_exec_keep ?_ ?_ (emptyVault_init chrono)
    (emptyVault_within n) ls view h
  · intro s l t hs hpass hnext
    exact hs.next (Bool.and_eq_true_iff.mp hpass).1 hnext
  · intro s l hs hpass
    exact hcheck s l hs (Bool.and_eq_true_iff.mp hpass).2

/-- The calls of an acquire that finds no rival in the vault. -/
def acquireAlone (p : Nat) (acquiredAt id createdAt : String) (ttl : UInt64) :
    List Label :=
  [.stamp p alice acquiredAt ttl, .create p id createdAt, .list p, .judge p, .check p]

/-- The calls of an acquire that breaks the one lock it finds ahead. -/
def acquireBreaking (p : Nat) (acquiredAt id createdAt : String) (ttl : UInt64) :
    List Label :=
  [.stamp p alice acquiredAt ttl, .create p id createdAt, .list p, .read p, .judge p,
    .check p, .breakStale p, .check p]

/-- The calls of two acquires that have stamped and list each other's lock: `winner` holds,
and the other gives up. -/
def race (winner loser : Nat) : List Label :=
  [.list winner, .list loser, .read loser, .read winner, .judge loser, .judge winner,
    .check winner, .check loser, .withdraw loser true]

instance : (l : Label) → Decidable (TtlFits l)
  | .stamp _ _ _ ttl => inferInstanceAs (Decidable (ttl.toNat < 2 ^ 63))
  | .tick _ | .create _ _ _ | .createFails _ _ | .list _ | .read _ | .judge _
  | .check _ | .breakStale _ | .fail _ _ | .withdraw _ _ | .release _
  | .releaseFails _ _ | .crash _ => .isTrue trivial

/-- Two acquirers race and one withdraws; the holder crashes, its lock goes stale and a third
breaks it; that one releases it, and the second acquires it after all. -/
theorem exclusive_contested :
    ∃ s, s.made.map (·.id) = ["a", "b", "c", "d"] ∧ s.items.map (·.id) = ["d"] ∧
      s.holds 1 = true ∧ Exclusive .calendar s := by
  obtain ⟨s, hs, hview⟩ := exists_reachable_of_check .calendar 3
    (fun s l => checkRelied .calendar 3 s l && decide (TtlFits l))
    (fun s l => Relied .calendar s l ∧ TtlFits l)
    (fun s l hs h => ⟨relied_of_check hs (Bool.and_eq_true_iff.mp h).1,
      of_decide_eq_true (Bool.and_eq_true_iff.mp h).2⟩)
    ([.stamp 0 alice "1970-01-01T00:00:00Z" 60, .stamp 1 alice "1970-01-01T00:00:00Z" 60,
        .create 0 "a" "1970-01-01T00:00:01Z", .create 1 "b" "1970-01-01T00:00:02Z"] ++
      race 0 1 ++ [.tick 30000000000, .crash 0, .tick 70000000000] ++
      acquireBreaking 2 "1970-01-01T00:01:40Z" "c" "1970-01-01T00:01:41Z" 60 ++ [.release 2] ++
      acquireAlone 1 "1970-01-01T00:01:40Z" "d" "1970-01-01T00:01:42Z" 60)
    (fun s => s.made.map (·.id) = ["a", "b", "c", "d"] ∧ s.items.map (·.id) = ["d"] ∧
      s.holds 1 = true) (by decide +kernel)
  obtain ⟨hmade, hitems, hholds⟩ := of_decide_eq_true hview
  exact ⟨s, hmade, hitems, hholds, exclusive_of_ttlFits .calendar hs⟩

/-- A TTL of `2 ^ 63` seconds: the second acquirer finds the first one's item
stale at once, breaks it, and both hold the lock. -/
theorem two_holders_of_ttl :
    ¬ ∀ s, ((contest .calendar).system.restrict (Relied .calendar)).Reachable s →
      Exclusive .calendar s := by
  intro hclaim
  obtain ⟨s, hs, hholds⟩ := exists_reachable_of_check .calendar 2 (checkRelied .calendar 2)
    (Relied .calendar) (fun s l hs h => relied_of_check hs h)
    (acquireAlone 0 "1970-01-01T00:00:00Z" "a" "1970-01-01T00:00:01Z" (2 ^ 63) ++
      acquireBreaking 1 "1970-01-01T00:00:00Z" "b" "1970-01-01T00:00:02Z" (2 ^ 63))
    (fun s => s.holds 0 && s.holds 1) (by decide +kernel)
  obtain ⟨hfirst, hsecond⟩ := Bool.and_eq_true_iff.mp hholds
  exact absurd ((hclaim s hs).one_holder 0 1 hfirst hsecond) (by decide)

/-! ## Exclusion when the server's times cannot decide -/

/-- Whether party `p` holds the lock and its item is not past its TTL. -/
def State.holdsFresh (chrono : Chrono) (s : State) (p : Nat) : Bool :=
  match s.party p with
  | .contending c (.holding _) => fresh chrono c.mine.fields s.now
  | _ => false

theorem State.holdsFresh_iff {p : Nat} :
    s.holdsFresh chrono p = true ↔ ∃ c held,
      s.party p = .contending c (.holding held) ∧
        fresh chrono c.mine.fields s.now = true := by
  unfold State.holdsFresh
  constructor
  · intro h
    split at h
    · exact ⟨_, _, ‹_›, h⟩
    · cases h
  · rintro ⟨c, held, hp, hfresh⟩
    rw [hp]
    exact hfresh

/-- At most one acquirer holds an unexpired lock. -/
def OneUnexpired (chrono : Chrono) (s : State) : Prop :=
  ∀ p q, s.holdsFresh chrono p = true → s.holdsFresh chrono q = true → p = q

theorem Inv.oneUnexpired (h : Inv chrono key s) (hfit : TtlsFit chrono s) :
    OneUnexpired chrono s := by
  have hstale : ∀ {p : Nat} {c : Contender} {st : Stage},
      s.party p = .contending c st → fresh chrono c.mine.fields s.now = true →
        isStale chrono c.mine.fields s.now = false := by
    intro p c st hp hfresh
    have hok : PartyOk chrono s (.contending c st) := hp ▸ h.party p
    obtain ⟨httl, hwell⟩ := hfit.attempts p c.toAttempt (by rw [hp]; rfl)
    rw [hok.1.2.2] at hfresh ⊢
    exact ((hwell.written httl).fresh_iff s.now).mp hfresh
  intro p q hp hq
  obtain ⟨c, held, hp, hfresh⟩ := State.holdsFresh_iff.mp hp
  obtain ⟨c', held', hq, hfresh'⟩ := State.holdsFresh_iff.mp hq
  exact h.one_holder hp hq (hstale hp hfresh) (hstale hq hfresh')

/-- **Exclusion by any keys.**  Whatever times the contests come to rank by: in
every run in which no lock is created that outranks a fresh one whose acquirer has
already listed, no two acquirers each put their own lock first by another key than the
other, and no TTL exceeds `i64::MAX` seconds, at most one acquirer holds an unexpired
lock. -/
theorem oneUnexpired_of_inOrder (chrono : Chrono) (key : String → Bool) {s : State}
    (hs : ((contest chrono).system.restrict
      fun s l => InOrder chrono key s l ∧ TtlFits l).Reachable s) :
    OneUnexpired chrono s := by
  have hinv : ((contest chrono).system.restrict
      fun s l => InOrder chrono key s l ∧ TtlFits l).Invariant
        fun s => Inv chrono key s ∧ TtlsFit chrono s :=
    ⟨fun hinit => ⟨Inv.start hinit, TtlsFit.start hinit⟩, fun h hstep =>
      ⟨h.1.move (move_of_next hstep.2) hstep.1.1,
        h.2.move (move_of_next hstep.2) hstep.1.2⟩⟩
  obtain ⟨h, hfit⟩ := hinv.reachable hs
  exact h.oneUnexpired hfit

/-- The contests of the first `n` parties are in order, as a check that can be run. -/
def checkInOrder (chrono : Chrono) (key : String → Bool) (n : Nat) (s : State) : Label → Bool
  | .create p id createdAt => (s.party p).attempt?.all fun a => (List.range n).all fun q =>
      match s.party q with
      | .contending c st =>
        isStale chrono c.mine.fields s.now ||
          decide (Outranks chrono key c.mine ⟨id, chrono.parseRfc3339 createdAt, a.fields⟩ ∨
            (st = .listing ∧
              Outranks chrono key ⟨id, chrono.parseRfc3339 createdAt, a.fields⟩ c.mine))
      | _ => true
  | .judge p => match s.party p with
    | .contending c (.reading [] rivals) => byServer c.mine rivals == key c.mine.id
    | _ => true
  | _ => true

theorem inOrder_of_check {n : Nat} (hs : s.Within n) (h : checkInOrder chrono key n s l = true) :
    InOrder chrono key s l := by
  cases l with
  | create p id createdAt =>
    rintro a hp q c st ⟨hq, -, hfresh⟩
    have hlt : q < n := by
      by_contra hge
      rw [hs q (not_lt.mp hge)] at hq
      cases hq
    simp only [checkInOrder, hp, Phase.attempt?, Option.all_some, List.all_eq_true] at h
    have hchecked := h q (List.mem_range.mpr hlt)
    simp only [hq, hfresh, Bool.false_or] at hchecked
    exact of_decide_eq_true hchecked
  | judge p =>
    intro c rivals hp
    simp only [checkInOrder, hp] at h
    exact beq_iff_eq.mp h
  | _ => trivial

/-- No `created_at` can be read.  The first to stamp creates last and yet comes first, as the
other has not listed before; it releases, and of two that stamp in one second the last to
create has the lower id, and holds. -/
theorem oneUnexpired_contested :
    ∃ s, s.made.map (·.id) = ["b", "a", "d", "c"] ∧ s.items.map (·.id) = ["c"] ∧
      s.holdsFresh .calendar 1 = true ∧ OneUnexpired .calendar s := by
  obtain ⟨s, hs, hview⟩ := exists_reachable_of_check .calendar 3
    (fun s l => checkInOrder .calendar (fun _ => false) 3 s l && decide (TtlFits l))
    (fun s l => InOrder .calendar (fun _ => false) s l ∧ TtlFits l)
    (fun s l hs h => ⟨inOrder_of_check hs (Bool.and_eq_true_iff.mp h).1,
      of_decide_eq_true (Bool.and_eq_true_iff.mp h).2⟩)
    ([.stamp 0 alice "1970-01-01T00:00:00Z" 60, .tick 1000000000,
        .stamp 1 alice "1970-01-01T00:00:01Z" 60, .create 1 "b" "", .create 0 "a" ""] ++
      race 0 1 ++ [.release 0, .stamp 2 alice "1970-01-01T00:00:01Z" 60,
        .stamp 1 alice "1970-01-01T00:00:01Z" 60, .create 2 "d" "", .create 1 "c" ""] ++
      race 1 2)
    (fun s => s.made.map (·.id) = ["b", "a", "d", "c"] ∧ s.items.map (·.id) = ["c"] ∧
      s.holdsFresh .calendar 1 = true) (by decide +kernel)
  obtain ⟨hmade, hitems, hholds⟩ := of_decide_eq_true hview
  exact ⟨s, hmade, hitems, hholds, oneUnexpired_of_inOrder .calendar (fun _ => false) hs⟩

/-- No lock is created that outranks, by the times that may come to decide between the two, a
fresh one whose acquirer has already listed. -/
def LateBehind (chrono : Chrono) (s : State) : Label → Prop
  | .create p id createdAt => ∀ a, s.party p = .stamped a → ∀ q c st,
      s.StandsIn chrono q c st → st ≠ .listing → ∀ b,
        (b = true → c.mine.created.isSome ∧ (chrono.parseRfc3339 createdAt).isSome) →
          c.mine.rank chrono b <
            (⟨id, chrono.parseRfc3339 createdAt, a.fields⟩ : Lock).rank chrono b
  | _ => True

def checkLateBehind (chrono : Chrono) (n : Nat) (s : State) : Label → Bool
  | .create p id createdAt => (s.party p).attempt?.all fun a => (List.range n).all fun q =>
      match s.party q with
      | .contending c st => decide (st ≠ .listing → ∀ b,
          (b = true → c.mine.created.isSome ∧ (chrono.parseRfc3339 createdAt).isSome) →
            c.mine.rank chrono b <
              (⟨id, chrono.parseRfc3339 createdAt, a.fields⟩ : Lock).rank chrono b)
      | _ => true
  | _ => true

theorem lateBehind_of_check {n : Nat} (hs : s.Within n)
    (h : checkLateBehind chrono n s l = true) : LateBehind chrono s l := by
  cases l with
  | create p id createdAt =>
    rintro a hp q c st ⟨hq, -, -⟩
    have hlt : q < n := by
      by_contra hge
      rw [hs q (not_lt.mp hge)] at hq
      cases hq
    simp only [checkLateBehind, hp, Phase.attempt?, Option.all_some, List.all_eq_true] at h
    have hchecked := h q (List.mem_range.mpr hlt)
    simp only [hq] at hchecked
    exact of_decide_eq_true hchecked
  | _ => trivial

/-- Two ways to two holders.  The earlier stamp's create commits after the later one has
listed and taken the lock; its `created_at` cannot be read, so it ranks first by
`acquired_at`.  Or of two that race, the first to create reads the other's time and holds by
the server's times; the first to stamp reads a third lock besides, whose time it cannot read,
and holds by `acquired_at`. -/
theorem two_unexpired_of_unreadable :
    (¬ ∀ s, (contest .calendar).system.Reachable s → OneUnexpired .calendar s) ∧
      ¬ ∀ s, ((contest .calendar).system.restrict (LateBehind .calendar)).Reachable s →
        OneUnexpired .calendar s := by
  refine ⟨fun hclaim => ?_, fun hclaim => ?_⟩
  · obtain ⟨s, hs, hholds⟩ := Machine.exists_reachable_of_exec
      (emptyVault_init .calendar)
      ([.stamp 0 alice "1970-01-01T00:00:00Z" defaultTtl, .tick 1000000000] ++
        acquireAlone 1 "1970-01-01T00:00:01Z" "b" "1970-01-01T00:00:01Z" defaultTtl ++
        [.create 0 "a" "", .list 0, .read 0, .judge 0, .check 0])
      (fun s => s.holdsFresh .calendar 0 && s.holdsFresh .calendar 1)
      (by decide +kernel)
    obtain ⟨hfirst, hsecond⟩ := Bool.and_eq_true_iff.mp hholds
    exact absurd (hclaim s hs 0 1 hfirst hsecond) (by decide)
  · obtain ⟨s, hs, hholds⟩ := exists_reachable_of_check .calendar 3 (checkLateBehind .calendar 3)
      (LateBehind .calendar) (fun s l hs h => lateBehind_of_check hs h)
      [.stamp 0 alice "1970-01-01T00:00:00Z" defaultTtl, .tick 1000000000,
        .stamp 1 alice "1970-01-01T00:00:01Z" defaultTtl,
        .stamp 2 alice "1970-01-01T00:00:01Z" defaultTtl,
        .create 1 "b" "1970-01-01T00:00:01Z", .create 0 "a" "1970-01-01T00:00:02Z",
        .list 1, .read 1, .judge 1, .check 1,
        .create 2 "c" "", .list 0, .read 0, .read 0, .judge 0, .check 0]
      (fun s => s.holdsFresh .calendar 0 && s.holdsFresh .calendar 1) (by decide +kernel)
    obtain ⟨hfirst, hsecond⟩ := Bool.and_eq_true_iff.mp hholds
    exact absurd (hclaim s hs 0 1 hfirst hsecond) (by decide)

end Opca.Vault

/-
  Vault/Exclusion.lean --- what keeps two acquirers from holding the vault lock
  at once: of two contenders one meets the other's item, unless that has gone
  stale, wherever it is in its contest.
-/
import Opca.Vault.Contest

set_option autoImplicit false

namespace Opca.Vault

open Opca.Foundation

/-! ## Ranking -/

/-- In a list sorted by a key, what lies below a bound is in the prefix below it. -/
theorem mem_takeWhile_of_sorted {α β : Type} [LinearOrder β] {key : α → β}
    {bound : β} {xs : List α} {x : α}
    (hsorted : xs.Pairwise fun a b => key a ≤ key b)
    (hmem : x ∈ xs) (hbelow : key x < bound) :
    x ∈ xs.takeWhile fun a => decide (key a < bound) := by
  induction xs with
  | nil => cases hmem
  | cons y ys ih =>
    rw [List.pairwise_cons] at hsorted
    obtain ⟨hfirst, hrest⟩ := hsorted
    have hy : key y < bound := by
      rcases List.mem_cons.mp hmem with rfl | hys
      · exact hbelow
      · exact lt_of_le_of_lt (hfirst x hys) hbelow
    rw [List.takeWhile_cons, if_pos (decide_eq_true hy)]
    rcases List.mem_cons.mp hmem with rfl | hys
    · exact List.mem_cons_self
    · exact List.mem_cons_of_mem y (ih hrest hys)

theorem mem_rivalsAhead {chrono : Chrono} {mine rival : Lock} {rivals : List Lock}
    (hmem : rival ∈ rivals)
    (hrank : rival.rank chrono (byServer mine rivals) <
      mine.rank chrono (byServer mine rivals)) :
    rival ∈ rivalsAhead chrono mine rivals := by
  unfold rivalsAhead
  refine mem_takeWhile_of_sorted ?_ ?_ hrank
  · exact List.pairwise_insertionSort _ _
  · exact (List.mem_insertionSort _).mpr hmem

theorem mem_of_mem_rivalsAhead {chrono : Chrono} {mine rival : Lock}
    {rivals : List Lock} (h : rival ∈ rivalsAhead chrono mine rivals) :
    rival ∈ rivals := by
  unfold rivalsAhead at h
  exact (List.mem_insertionSort _).mp (List.takeWhile_subset _ h)

/-! ## The invariant -/

/-- A contender whose own copy is not given up. -/
def Stage.standing : Stage → Prop
  | .losing _ => False
  | _ => True

/-- The item a phase may yet delete as its own. -/
def Phase.itemId? : Phase → Option String
  | .contending c _ => some c.mine.id
  | .released held => some held.id
  | _ => none

/-- The locks of rivals a stage keeps. -/
def Stage.rivals : Stage → List Lock
  | .reading _ rivals => rivals
  | .contesting ahead => ahead
  | .breaking rival rest => rival :: rest
  | _ => []

/-- `rival` is among what the stage has still to read or to judge. -/
def Stage.meets (rival : Lock) : Stage → Prop
  | .listing | .losing _ => True
  | .reading left rivals => rival.id ∈ left ∨ rival ∈ rivals
  | .contesting ahead => rival ∈ ahead
  | .breaking _ rest => rival ∈ rest
  | .holding _ => False

section Invariant

variable (chrono : Chrono)

/-- The locks of all the items there have ever been. -/
def State.locks (s : State) : List Lock := s.made.map (readLock chrono)

/-- The attempt stamped its fields with the time of that moment. -/
def Attempt.WellStamped (a : Attempt) : Prop :=
  ∃ (holder : Holder) (acquiredAt : String),
    chrono.IsNowUtcIso a.stampedAt acquiredAt ∧
      a.fields = acquireFields holder acquiredAt a.ttl

/-- What one party knows and keeps. -/
def PartyOk (s : State) : Phase → Prop
  | .idle | .crashed => True
  | .stamped a => a.WellStamped chrono ∧ a.stampedAt ≤ s.now
  | .released held => held.id ∈ s.made.map (·.id)
  | .contending c st =>
    (c.WellStamped chrono ∧ c.stampedAt ≤ s.now ∧ c.mine.fields = c.fields) ∧
    (s.locks chrono)[c.seq]? = some c.mine ∧
    (∀ rival ∈ st.rivals, rival ∈ s.locks chrono) ∧
    (∀ rival rest, st = .breaking rival rest → isStale chrono rival.fields s.now = true) ∧
    (∀ held, st = .holding held → held.id = c.mine.id)

-- The key that the contest of each lock, given by its id, comes to rank by: `true`
-- stands for the server's times and `false` for the holders' own.
variable (key : String → Bool)

/-- `first` ranks before `second` in the contest of `second`. -/
def Outranks (first second : Lock) : Prop :=
  first.rank chrono (key second.id) < second.rank chrono (key second.id)

instance (first second : Lock) : Decidable (Outranks chrono key first second) :=
  inferInstanceAs (Decidable (_ < _))

/-- Of two contenders one outranks the other, which has still to deal with it. -/
def Met (first : Lock) (st : Stage) (second : Lock) (st' : Stage) : Prop :=
  (Outranks chrono key first second ∧ st'.meets first) ∨
    (Outranks chrono key second first ∧ st.meets second)

/-- A standing contender whose item has not gone stale. -/
def State.StandsIn (s : State) (p : Nat) (c : Contender) (st : Stage) : Prop :=
  s.party p = .contending c st ∧ st.standing ∧ isStale chrono c.mine.fields s.now = false

def State.Stands (s : State) (p : Nat) (c : Contender) : Prop :=
  ∃ st : Stage, s.StandsIn chrono p c st

/-- The invariant of every run in which no late create outranks. -/
structure Inv (s : State) : Prop where
  /-- No two items ever shared an id. -/
  ids : (s.made.map (·.id)).Nodup
  items : ∀ item ∈ s.items, item ∈ s.made
  party : ∀ p : Nat, PartyOk chrono s (s.party p)
  /-- No two parties own the same item. -/
  apart : ∀ {p q : Nat} {id : String},
    (s.party p).itemId? = some id → (s.party q).itemId? = some id → p = q
  /-- Nobody has deleted the item of a contender that stands. -/
  present : ∀ {p : Nat} {c : Contender}, s.Stands chrono p c →
    ∃ item ∈ s.items, readLock chrono item = c.mine
  met : ∀ {p q : Nat} {c c' : Contender} {st st' : Stage}, p ≠ q →
    s.StandsIn chrono p c st → s.StandsIn chrono q c' st' →
      Met chrono key c.mine st c'.mine st'

/-! ## Each kind of change keeps it -/

variable {chrono key} {s t : State}

theorem State.locks_ids (s : State) :
    (s.locks chrono).map (·.id) = s.made.map (·.id) := by
  simp only [State.locks, List.map_map]
  rfl

theorem Inv.lock_ext (h : Inv chrono key s) {a b : Lock}
    (ha : a ∈ s.locks chrono) (hb : b ∈ s.locks chrono) (hid : a.id = b.id) : a = b := by
  have hnodup : ((s.locks chrono).map (·.id)).Nodup := by
    rw [State.locks_ids]
    exact h.ids
  exact List.inj_on_of_nodup_map hnodup ha hb hid

/-- What a party knows stays true as time passes and items are added. -/
theorem PartyOk.mono {f : Phase} (h : PartyOk chrono s f) (hnow : s.now ≤ t.now)
    (hmade : s.made <+: t.made) : PartyOk chrono t f := by
  obtain ⟨new, hmade⟩ := hmade
  have hlocks : t.locks chrono = s.locks chrono ++ new.map (readLock chrono) := by
    simp only [State.locks, ← hmade, List.map_append]
  cases f with
  | idle => trivial
  | crashed => trivial
  | stamped a => exact ⟨h.1, le_trans h.2 hnow⟩
  | released held =>
    unfold PartyOk at h ⊢
    rw [← hmade, List.map_append]
    exact List.mem_append_left _ h
  | contending c st =>
    obtain ⟨⟨hstamp, hat, hfields⟩, hmine, hrivals, hbreaking, hholding⟩ := h
    refine ⟨⟨hstamp, le_trans hat hnow, hfields⟩, ?_, ?_, ?_, hholding⟩
    · rw [hlocks]
      exact List.getElem?_append_left (List.getElem?_eq_some_iff.mp hmine).1 ▸ hmine
    · intro rival hrival
      rw [hlocks]
      exact List.mem_append_left _ (hrivals rival hrival)
    · intro rival rest hst
      exact isStale_mono hnow (hbreaking rival rest hst)

/-- A standing contender stood before, if its phase and the time allow it. -/
theorem State.StandsIn.of_le {p : Nat} {c : Contender} {st : Stage} (hnow : s.now ≤ t.now)
    (hparty : t.party p = s.party p) (h : t.StandsIn chrono p c st) :
    s.StandsIn chrono p c st := by
  obtain ⟨hst, hstanding, hfresh⟩ := h
  refine ⟨hparty ▸ hst, hstanding, ?_⟩
  cases hstale : isStale chrono c.mine.fields s.now with
  | false => rfl
  | true => rw [isStale_mono hnow hstale] at hfresh; cases hfresh

theorem Inv.tick (h : Inv chrono key s) (nanos : Nat) :
    Inv chrono key { s with now := s.now + nanos } := by
  have hnow : s.now ≤ { s with now := s.now + nanos : State }.now :=
    Int.le_add_of_nonneg_right (Int.natCast_nonneg nanos)
  refine ⟨h.ids, h.items, ?_, h.apart, ?_, ?_⟩
  · intro p
    exact (h.party p).mono hnow List.prefix_rfl
  · rintro p c ⟨st, hstands⟩
    exact h.present ⟨st, State.StandsIn.of_le hnow rfl hstands⟩
  · intro p q c c' st st' hne hp hq
    exact h.met hne (State.StandsIn.of_le hnow rfl hp) (State.StandsIn.of_le hnow rfl hq)

/-- A party that contends no longer, or not yet, takes nothing from the others. -/
theorem Inv.leave (h : Inv chrono key s) {p : Nat} {f : Phase}
    (hok : PartyOk chrono s f) (hcont : ∀ c st, f ≠ .contending c st)
    (hid : ∀ id, f.itemId? = some id → (s.party p).itemId? = some id) :
    Inv chrono key (s.enter p f) := by
  have hitem : ∀ {q : Nat} {id : String},
      ((s.enter p f).party q).itemId? = some id → (s.party q).itemId? = some id := by
    intro q id hq
    by_cases hqp : q = p
    · subst hqp
      rw [State.enter_party_self] at hq
      exact hid id hq
    · rwa [State.enter_party_of_ne s f hqp] at hq
  have hcontending : ∀ {q : Nat} {c : Contender} {st : Stage},
      (s.enter p f).party q = .contending c st → s.party q = .contending c st := by
    intro q c st hq
    by_cases hqp : q = p
    · subst hqp
      rw [State.enter_party_self] at hq
      exact absurd hq (hcont c st)
    · rwa [State.enter_party_of_ne s f hqp] at hq
  have hstands : ∀ {q : Nat} {c : Contender} {st : Stage},
      (s.enter p f).StandsIn chrono q c st → s.StandsIn chrono q c st := by
    rintro q c st ⟨hst, hrest⟩
    exact ⟨hcontending hst, hrest⟩
  refine ⟨h.ids, h.items, ?_, ?_, ?_, ?_⟩
  · intro q
    by_cases hqp : q = p
    · subst hqp
      rw [State.enter_party_self]
      exact hok.mono (le_refl _) List.prefix_rfl
    · rw [State.enter_party_of_ne s f hqp]
      exact (h.party q).mono (le_refl _) List.prefix_rfl
  · intro q r id hq hr
    exact h.apart (hitem hq) (hitem hr)
  · rintro q c ⟨st, hq⟩
    exact h.present ⟨st, hstands hq⟩
  · intro q r c c' st st' hne hq hr
    exact h.met hne (hstands hq) (hstands hr)

/-- A party that has nothing of its own in the vault, or leaves it there. -/
theorem Inv.quit (h : Inv chrono key s) {p : Nat} {f : Phase}
    (hok : PartyOk chrono s f) (hnone : f.itemId? = none) :
    Inv chrono key (s.enter p f) := by
  refine h.leave hok ?_ ?_
  · rintro c st rfl
    cases hnone
  · intro id hid
    rw [hnone] at hid
    cases hid

/-- A contender moves on with its contest. -/
theorem Inv.advance (h : Inv chrono key s) {p : Nat} {c : Contender} {st st' : Stage}
    (hp : s.party p = .contending c st)
    (hok : PartyOk chrono s (.contending c st'))
    (hstanding : st'.standing → st.standing)
    (hmeets : ∀ {q : Nat} {other : Contender}, q ≠ p → s.Stands chrono q other →
      Outranks chrono key other.mine c.mine →
      st.meets other.mine → st'.meets other.mine) :
    Inv chrono key (s.enter p (.contending c st')) := by
  have hself : ∀ {d : Contender} {sd : Stage},
      (s.enter p (.contending c st')).StandsIn chrono p d sd →
        d = c ∧ sd = st' ∧ s.StandsIn chrono p c st := by
    rintro d sd ⟨hsd, hstand, hfresh⟩
    rw [State.enter_party_self] at hsd
    cases hsd
    exact ⟨rfl, rfl, hp, hstanding hstand, hfresh⟩
  have hother : ∀ {q : Nat} {d : Contender} {sd : Stage}, q ≠ p →
      (s.enter p (.contending c st')).StandsIn chrono q d sd → s.StandsIn chrono q d sd := by
    rintro q d sd hqp ⟨hsd, hrest⟩
    rw [State.enter_party_of_ne s _ hqp] at hsd
    exact ⟨hsd, hrest⟩
  -- The pair of the mover and another contender.
  have hpair : ∀ {q : Nat} {d : Contender} {sd : Stage}, q ≠ p →
      s.StandsIn chrono p c st → s.StandsIn chrono q d sd →
        Met chrono key c.mine st' d.mine sd := by
    intro q d sd hqp hc hd
    exact (h.met hqp.symm hc hd).imp_right fun ⟨hrank, hmet⟩ =>
      ⟨hrank, hmeets hqp ⟨sd, hd⟩ hrank hmet⟩
  have hitem : ∀ {q : Nat},
      ((s.enter p (.contending c st')).party q).itemId? = (s.party q).itemId? := by
    intro q
    by_cases hqp : q = p
    · subst hqp
      rw [State.enter_party_self, hp]
      rfl
    · rw [State.enter_party_of_ne s _ hqp]
  refine ⟨h.ids, h.items, ?_, ?_, ?_, ?_⟩
  · intro q
    by_cases hqp : q = p
    · subst hqp
      rw [State.enter_party_self]
      exact hok.mono (le_refl _) List.prefix_rfl
    · rw [State.enter_party_of_ne s _ hqp]
      exact (h.party q).mono (le_refl _) List.prefix_rfl
  · intro q r id hq hr
    rw [hitem] at hq hr
    exact h.apart hq hr
  · rintro q d ⟨sd, hq⟩
    by_cases hqp : q = p
    · subst hqp
      obtain ⟨rfl, -, hbefore⟩ := hself hq
      exact h.present ⟨st, hbefore⟩
    · exact h.present ⟨sd, hother hqp hq⟩
  · intro q r d e sd se hne hq hr
    by_cases hqp : q = p
    · subst hqp
      obtain ⟨rfl, rfl, hbefore⟩ := hself hq
      exact hpair hne.symm hbefore (hother hne.symm hr)
    · by_cases hrp : r = p
      · subst hrp
        obtain ⟨rfl, rfl, hbefore⟩ := hself hr
        exact (hpair hqp hbefore (hother hqp hq)).symm
      · exact h.met hne (hother hqp hq) (hother hrp hr)

/-- An item is deleted that no standing contender owns. -/
theorem Inv.deleteLock (h : Inv chrono key s) {id : String}
    (hforeign : ∀ {q : Nat} {c : Contender}, s.Stands chrono q c → c.mine.id ≠ id) :
    Inv chrono key (s.deleteLock id) := by
  refine ⟨h.ids, ?_, ?_, h.apart, ?_, h.met⟩
  · intro item hitem
    exact h.items item (State.mem_deleteLock.mp hitem).1
  · intro q
    exact (h.party q).mono (le_refl _) List.prefix_rfl
  · intro q c hq
    obtain ⟨item, hitem, hread⟩ := h.present hq
    refine ⟨item, State.mem_deleteLock.mpr ⟨hitem, ?_⟩, hread⟩
    have hid : item.id = c.mine.id := congrArg Lock.id hread
    rw [hid]
    exact hforeign hq

/-- An item is created under an id never seen before. -/
theorem Inv.addItem (h : Inv chrono key s) {item : Item}
    (hnew : item.id ∉ s.made.map (·.id)) : Inv chrono key (s.addItem item) := by
  refine ⟨?_, ?_, ?_, h.apart, ?_, h.met⟩
  · rw [State.addItem_made, List.map_append, List.nodup_append]
    refine ⟨h.ids, by simp, ?_⟩
    intro a ha b hb
    rw [List.map_singleton, List.mem_singleton] at hb
    subst hb
    intro heq
    exact hnew (heq ▸ ha)
  · intro old hold
    rw [State.addItem_made]
    rcases List.mem_append.mp hold with hmem | hmem
    · exact List.mem_append_left _ (h.items old hmem)
    · exact List.mem_append_right _ hmem
  · intro q
    exact (h.party q).mono (le_refl _) (List.prefix_append _ _)
  · intro q c hq
    obtain ⟨old, hold, hread⟩ := h.present hq
    exact ⟨old, List.mem_append_left _ hold, hread⟩

/-- What a party owns was created once. -/
theorem Inv.itemId_made (h : Inv chrono key s) {p : Nat} {id : String}
    (hid : (s.party p).itemId? = some id) : id ∈ s.made.map (·.id) := by
  have hok := h.party p
  cases hphase : s.party p with
  | contending c st =>
    rw [hphase] at hok hid
    cases hid
    have hmem := List.mem_map_of_mem (f := Lock.id) (List.mem_of_getElem? hok.2.1)
    rwa [State.locks_ids] at hmem
  | released held =>
    rw [hphase] at hok hid
    cases hid
    exact hok
  | idle => rw [hphase] at hid; cases hid
  | stamped a => rw [hphase] at hid; cases hid
  | crashed => rw [hphase] at hid; cases hid

/-- A party deletes its own item and stops contending. -/
theorem Inv.deleteOwn (h : Inv chrono key s) {p : Nat} {id : String} {f : Phase}
    (hown : (s.party p).itemId? = some id)
    (hf : f = .idle ∨ ∃ held, f = .released held ∧ held.id = id) :
    Inv chrono key ((s.deleteLock id).enter p f) := by
  have hcont : ∀ c st, f ≠ .contending c st := by
    rintro c st rfl
    rcases hf with hf | ⟨held, hf, -⟩ <;> cases hf
  have hleft : Inv chrono key (s.enter p f) := by
    refine h.leave ?_ hcont ?_
    · rcases hf with rfl | ⟨held, rfl, rfl⟩
      · trivial
      · exact h.itemId_made hown
    · intro id' hid'
      rcases hf with rfl | ⟨held, rfl, rfl⟩
      · cases hid'
      · cases hid'
        exact hown
  refine hleft.deleteLock ?_
  rintro q c ⟨st, hst, -⟩ heq
  by_cases hqp : q = p
  · subst hqp
    rw [State.enter_party_self] at hst
    exact hcont c st hst
  · rw [State.enter_party_of_ne s f hqp] at hst
    have hitem : (s.party q).itemId? = some id := by
      rw [hst]
      exact congrArg some heq
    exact hqp (h.apart hitem hown)

/-- A contender enters, to list what stands. -/
theorem Inv.begin (h : Inv chrono key s) {p : Nat} {a : Attempt} {c : Contender}
    (hp : s.party p = .stamped a)
    (hok : PartyOk chrono s (.contending c .listing))
    (hown : ∀ {q : Nat}, (s.party q).itemId? ≠ some c.mine.id)
    (hitem : ∃ item ∈ s.items, readLock chrono item = c.mine)
    (hmet : ∀ {q : Nat} {d : Contender} {sd : Stage}, s.StandsIn chrono q d sd →
      Met chrono key c.mine .listing d.mine sd) :
    Inv chrono key (s.enter p (.contending c .listing)) := by
  have hother : ∀ {q : Nat}, q ≠ p →
      (s.enter p (.contending c .listing)).party q = s.party q :=
    fun hqp => State.enter_party_of_ne s _ hqp
  have hstands : ∀ {q : Nat} {d : Contender} {sd : Stage}, q ≠ p →
      (s.enter p (.contending c .listing)).StandsIn chrono q d sd →
        s.StandsIn chrono q d sd := by
    rintro q d sd hqp ⟨hsd, hrest⟩
    exact ⟨hother hqp ▸ hsd, hrest⟩
  have hself : ∀ {d : Contender} {sd : Stage},
      (s.enter p (.contending c .listing)).StandsIn chrono p d sd → d = c ∧ sd = .listing := by
    rintro d sd ⟨hsd, -⟩
    rw [State.enter_party_self] at hsd
    cases hsd
    exact ⟨rfl, rfl⟩
  refine ⟨h.ids, h.items, ?_, ?_, ?_, ?_⟩
  · intro q
    by_cases hqp : q = p
    · subst hqp
      rw [State.enter_party_self]
      exact hok.mono (le_refl _) List.prefix_rfl
    · rw [hother hqp]
      exact (h.party q).mono (le_refl _) List.prefix_rfl
  · intro q r id hq hr
    by_cases hqp : q = p
    · by_cases hrp : r = p
      · rw [hqp, hrp]
      · subst hqp
        rw [State.enter_party_self] at hq
        rw [hother hrp] at hr
        exact absurd (hr.trans hq.symm) hown
    · by_cases hrp : r = p
      · subst hrp
        rw [State.enter_party_self] at hr
        rw [hother hqp] at hq
        exact absurd (hq.trans hr.symm) hown
      · rw [hother hqp] at hq
        rw [hother hrp] at hr
        exact h.apart hq hr
  · rintro q d ⟨sd, hq⟩
    by_cases hqp : q = p
    · subst hqp
      obtain ⟨rfl, -⟩ := hself hq
      exact hitem
    · exact h.present ⟨sd, hstands hqp hq⟩
  · intro q r d e sd se hne hq hr
    by_cases hqp : q = p
    · subst hqp
      obtain ⟨rfl, rfl⟩ := hself hq
      exact hmet (hstands hne.symm hr)
    · by_cases hrp : r = p
      · subst hrp
        obtain ⟨rfl, rfl⟩ := hself hr
        exact (hmet (hstands hqp hq)).symm
      · exact h.met hne (hstands hqp hq) (hstands hrp hr)

/-! ## Every step keeps it -/

/-- The steps of a run in which no late create outranks: a lock that is created ranks
behind every fresh one whose acquirer has already listed, and of it and a fresh one whose
acquirer has yet to list not each comes first in its own contest; and contests rank by the
keys that this was said of. -/
def InOrder (chrono : Chrono) (key : String → Bool) (s : State) : Label → Prop
  | .create p id createdAt => ∀ a, s.party p = .stamped a → ∀ q c st,
      s.StandsIn chrono q c st →
        Outranks chrono key c.mine ⟨id, chrono.parseRfc3339 createdAt, a.fields⟩ ∨
          (st = .listing ∧
            Outranks chrono key ⟨id, chrono.parseRfc3339 createdAt, a.fields⟩ c.mine)
  | .judge p => ∀ c rivals, s.party p = .contending c (.reading [] rivals) →
      byServer c.mine rivals = key c.mine.id
  | _ => True

theorem readLock_ofFields {id createdAt : String} {a : Attempt}
    (h : a.WellStamped chrono) :
    readLock chrono (.ofFields id createdAt a.fields) =
      ⟨id, chrono.parseRfc3339 createdAt, a.fields⟩ := by
  obtain ⟨holder, acquiredAt, -, hfields⟩ := h
  rw [hfields]
  rfl

/-- What a stage without a write comes to know is so. -/
theorem PartyOk.advance {c : Contender} {st st' : Stage}
    (hitems : ∀ item ∈ s.items, item ∈ s.made)
    (h : PartyOk chrono s (.contending c st)) (hadv : Advances chrono s c st st') :
    PartyOk chrono s (.contending c st') := by
  obtain ⟨hattempt, hmine, hrivals, hbreaking, hholding⟩ := h
  refine ⟨hattempt, hmine, ?_, ?_, ?_⟩
  · intro rival hrival
    cases hadv with
    | list => cases hrival
    | @read id left rivals =>
      rcases List.mem_append.mp hrival with hold | hnew
      · exact hrivals rival hold
      · rw [Option.mem_toList, Option.map_eq_some_iff] at hnew
        obtain ⟨item, hfound, rfl⟩ := hnew
        exact List.mem_map_of_mem (hitems item (List.mem_of_find?_eq_some hfound))
    | win => cases hrival
    | stale _ => exact hrivals rival hrival
    | lose _ => cases hrival
    | fail => cases hrival
  · intro rival rest hst
    cases hadv with
    | stale hstale =>
      cases hst
      exact hstale
    | list => cases hst
    | read => cases hst
    | win => cases hst
    | lose _ => cases hst
    | fail => cases hst
  · intro held hst
    cases hadv with
    | win =>
      cases hst
      rfl
    | list => cases hst
    | read => cases hst
    | stale _ => cases hst
    | lose _ => cases hst
    | fail => cases hst

/-- A stage without a write loses sight of no item that is there and fresh. -/
theorem Inv.meets_advance (h : Inv chrono key s) {p : Nat} {c : Contender}
    {st st' : Stage} (hp : s.party p = .contending c st)
    (hadv : Advances chrono s c st st') {q : Nat} {first : Contender} (hqp : q ≠ p)
    (hq : s.Stands chrono q first)
    (hmet : st.meets first.mine) : st'.meets first.mine := by
  obtain ⟨item, hitem, hread⟩ := h.present hq
  have hid : item.id = first.mine.id := congrArg Lock.id hread
  obtain ⟨sq, hsq, -, hfresh⟩ := hq
  have hnot : first.mine.id ≠ c.mine.id := by
    intro heq
    have hown : (s.party q).itemId? = some c.mine.id := by
      rw [hsq]
      exact congrArg some heq
    exact hqp (h.apart hown (by rw [hp]; rfl))
  cases hadv with
  | list =>
    left
    refine List.mem_filter.mpr ⟨?_, by simpa using hnot⟩
    exact List.mem_map.mpr ⟨item, hitem, hid⟩
  | @read id left rivals =>
    rcases hmet with hleft | hrival
    · rcases List.mem_cons.mp hleft with heq | hleft
      · -- the id being read is the item's own, and ids are unique
        right
        refine List.mem_append_right _ ?_
        rw [Option.mem_toList, Option.map_eq_some_iff]
        cases hfind : s.items.find? (·.id = id) with
        | none =>
          have hnone := List.find?_eq_none.mp hfind item hitem
          simp [hid, heq] at hnone
        | some found =>
          refine ⟨found, rfl, ?_⟩
          have hfoundId : found.id = id := by
            simpa using List.find?_some hfind
          refine h.lock_ext (List.mem_map_of_mem
            (h.items found (List.mem_of_find?_eq_some hfind))) ?_
            (hfoundId.trans heq.symm)
          rw [← hread]
          exact List.mem_map_of_mem (h.items item hitem)
      · exact Or.inl hleft
    · exact Or.inr (List.mem_append_left _ hrival)
  | win => cases hmet
  | stale hstale =>
    rcases List.mem_cons.mp hmet with heq | hrest
    · rw [← heq, hfresh] at hstale
      cases hstale
    · exact hrest
  | lose _ => trivial
  | fail => trivial

/-- Ranking loses no rival that ranks before. -/
theorem Inv.meets_judge {c first : Contender} {rivals : List Lock}
    (hkey : byServer c.mine rivals = key c.mine.id)
    (hrank : Outranks chrono key first.mine c.mine)
    (hmet : (Stage.reading [] rivals).meets first.mine) :
    (Stage.contesting (rivalsAhead chrono c.mine rivals)).meets first.mine := by
  have hmem : first.mine ∈ rivals := by
    rcases hmet with hnil | hmem
    · cases hnil
    · exact hmem
  refine mem_rivalsAhead hmem ?_
  rw [hkey]
  exact hrank

/-- A rival found stale is no item of a contender that stands. -/
theorem Inv.stale_foreign (h : Inv chrono key s) {rival : Lock}
    (hrival : rival ∈ s.locks chrono) (hstale : isStale chrono rival.fields s.now = true)
    {q : Nat} {c : Contender} (hq : s.Stands chrono q c) : c.mine.id ≠ rival.id := by
  intro hid
  obtain ⟨item, hitem, hread⟩ := h.present hq
  have hmine : c.mine ∈ s.locks chrono := by
    rw [← hread]
    exact List.mem_map_of_mem (h.items item hitem)
  have heq : c.mine = rival := h.lock_ext hmine hrival hid
  obtain ⟨-, -, -, hfresh⟩ := hq
  rw [heq, hstale] at hfresh
  cases hfresh

/-- A lock is created, and its acquirer has yet to list. -/
theorem Inv.create (h : Inv chrono key s) {p : Nat} {id createdAt : String} {a : Attempt}
    (hp : s.party p = .stamped a) (hnew : id ∉ s.made.map (·.id))
    (horder : InOrder chrono key s (.create p id createdAt)) :
    Inv chrono key ((s.addItem (.ofFields id createdAt a.fields)).enter p
      (.contending ⟨a, ⟨id, chrono.parseRfc3339 createdAt, a.fields⟩, s.made.length⟩
        .listing)) := by
  have hstamped : PartyOk chrono s (.stamped a) := hp ▸ h.party p
  obtain ⟨hwell, hat⟩ := hstamped
  have hread : readLock chrono (.ofFields id createdAt a.fields) =
      ⟨id, chrono.parseRfc3339 createdAt, a.fields⟩ := readLock_ofFields hwell
  have hadd : Inv chrono key (s.addItem (.ofFields id createdAt a.fields)) :=
    h.addItem hnew
  refine hadd.begin hp ?_ ?_ ?_ ?_
  · refine ⟨⟨hwell, hat, rfl⟩, ?_, ?_, ?_, ?_⟩
    · simp only [State.locks, State.addItem_made, List.map_append, List.map_singleton,
        hread]
      exact List.getElem?_append_right (by simp) |>.trans (by simp)
    · intro rival hrival
      cases hrival
    · intro rival rest hst
      cases hst
    · intro held hst
      cases hst
  · intro q hq
    exact hnew (h.itemId_made hq)
  · exact ⟨_, List.mem_append_right _ (List.mem_singleton_self _), hread⟩
  · intro q d sd hq
    rcases horder a hp q d sd hq with hbehind | ⟨rfl, hahead⟩
    · exact .inr ⟨hbehind, trivial⟩
    · exact .inl ⟨hahead, trivial⟩

theorem Inv.move (h : Inv chrono key s) {l : Label} (hmove : Move chrono s l t)
    (horder : InOrder chrono key s l) : Inv chrono key t := by
  cases hmove with
  | tick nanos => exact h.tick nanos
  | @stamp p holder acquiredAt ttl hp hnow =>
    exact h.quit ⟨⟨holder, acquiredAt, hnow, rfl⟩, le_refl _⟩ rfl
  | @create p id createdAt a hp hnew => exact h.create hp hnew horder
  | createLost _ => exact h.quit trivial rfl
  | createLanded _ hnew => exact (h.addItem hnew).quit trivial rfl
  | @advance l p c st st' hp hadv =>
    have hok : PartyOk chrono s (.contending c st) := hp ▸ h.party p
    refine h.advance hp (hok.advance h.items hadv) ?_ ?_
    · intro hstanding
      cases hadv with
      | fail => exact absurd hstanding id
      | _ => trivial
    · intro q first hqp hq _ hmet
      exact h.meets_advance hp hadv hqp hq hmet
  | @judge p c rivals hp =>
    obtain ⟨hattempt, hmine, hrivals, -, -⟩ :
      PartyOk chrono s (.contending c (.reading [] rivals)) := hp ▸ h.party p
    refine h.advance hp ⟨hattempt, hmine, ?_, ?_, ?_⟩ (fun _ => trivial) ?_
    · intro rival hrival
      exact hrivals rival (mem_of_mem_rivalsAhead hrival)
    · intro rival rest hst
      cases hst
    · intro held hst
      cases hst
    · intro q first _ _ hrank hmet
      exact Inv.meets_judge (horder c rivals hp) hrank hmet
  | @breakStale l p c rival rest st' hp hst' =>
    obtain ⟨hattempt, hmine, hrivals, hbreaking, -⟩ :
      PartyOk chrono s (.contending c (.breaking rival rest)) := hp ▸ h.party p
    have hstale := hbreaking rival rest rfl
    have hdelete : Inv chrono key (s.deleteLock rival.id) :=
      h.deleteLock fun hq => h.stale_foreign (hrivals rival List.mem_cons_self) hstale hq
    refine hdelete.advance hp ⟨hattempt, hmine, ?_, ?_, ?_⟩ (fun _ => trivial) ?_
    · rcases hst' with rfl | rfl
      · intro other hother
        exact hrivals other (List.mem_cons_of_mem _ hother)
      · intro other hother
        cases hother
    · rcases hst' with rfl | rfl
      · intro other others hst
        cases hst
      · intro other others hst
        cases hst
    · rcases hst' with rfl | rfl
      · intro held hst
        cases hst
      · intro held hst
        cases hst
    · intro q first _ _ _ hmet
      rcases hst' with rfl | rfl
      · exact hmet
      · trivial
  | @leave l p f hf =>
    rcases hf with rfl | rfl
    · exact h.quit trivial rfl
    · exact h.quit trivial rfl
  | withdraw hp => exact h.deleteOwn (by rw [hp]; rfl) (Or.inl rfl)
  | @release l p c held f hp _ hf =>
    have hheld : held.id = c.mine.id := by
      have hok : PartyOk chrono s (.contending c (.holding held)) := hp ▸ h.party p
      exact hok.2.2.2.2 held rfl
    rw [hheld]
    refine h.deleteOwn (by rw [hp]; rfl) ?_
    rcases hf with rfl | rfl
    · exact Or.inl rfl
    · exact Or.inr ⟨held, rfl, hheld⟩
  | releaseAgain hp => exact h.deleteOwn (by rw [hp]; rfl) (Or.inl rfl)
  | stay => exact h

theorem Inv.start (hs : (contest chrono).init s) : Inv chrono key s := by
  obtain ⟨hitems, hmade, hparty⟩ := hs
  refine ⟨?_, ?_, ?_, ?_, ?_, ?_⟩
  · rw [hmade]
    exact List.nodup_nil
  · intro item hitem
    rw [hitems] at hitem
    cases hitem
  · intro p
    rw [hparty]
    trivial
  · intro p q id hp
    rw [hparty] at hp
    cases hp
  · rintro p c ⟨st, hst, -⟩
    rw [hparty] at hst
    cases hst
  · rintro p q c c' st st' - ⟨hst, -⟩
    rw [hparty] at hst
    cases hst

/-- The invariant holds along every run in which no late create outranks. -/
theorem inv_reachable
    (hs : ((contest chrono).system.restrict (InOrder chrono key)).Reachable s) :
    Inv chrono key s := by
  have hinv : ((contest chrono).system.restrict (InOrder chrono key)).Invariant
      (Inv chrono key) :=
    ⟨Inv.start, fun h hstep => h.move (move_of_next hstep.2) hstep.1⟩
  exact hinv.reachable hs

/-- Two holders whose items are not stale are one. -/
theorem Inv.one_holder (h : Inv chrono key s) {p q : Nat} {c c' : Contender}
    {held held' : Held} (hp : s.party p = .contending c (.holding held))
    (hq : s.party q = .contending c' (.holding held'))
    (hfresh : isStale chrono c.mine.fields s.now = false)
    (hfresh' : isStale chrono c'.mine.fields s.now = false) : p = q := by
  by_contra hne
  -- A holder has no one to deal with any more.
  rcases h.met hne ⟨hp, trivial, hfresh⟩ ⟨hq, trivial, hfresh'⟩ with ⟨-, hmet⟩ | ⟨-, hmet⟩
  · exact hmet
  · exact hmet

theorem mem_items_of_deleted {id : String} {item : Item} {p : Nat} {f : Phase}
    (hbefore : item ∈ s.items) (hafter : item ∉ ((s.deleteLock id).enter p f).items) :
    item.id = id := by
  by_contra hne
  exact hafter (State.mem_deleteLock.mpr ⟨hbefore, hne⟩)

/-- What a step deletes is the mover's own item or one that has gone stale. -/
theorem Inv.deletes (h : Inv chrono key s) {l : Label} (hmove : Move chrono s l t)
    {item : Item} (hbefore : item ∈ s.items) (hafter : item ∉ t.items) :
    (∃ p, l.party? = some p ∧ (s.party p).itemId? = some item.id) ∨
      isStale chrono (readLock chrono item).fields s.now = true := by
  cases hmove with
  | @breakStale l p c rival rest st' hp _ =>
    right
    obtain ⟨-, -, hrivals, hbreaking, -⟩ :
      PartyOk chrono s (.contending c (.breaking rival rest)) := hp ▸ h.party p
    have hid : item.id = rival.id := mem_items_of_deleted hbefore hafter
    have hread : readLock chrono item = rival :=
      h.lock_ext (List.mem_map_of_mem (h.items item hbefore))
        (hrivals rival List.mem_cons_self) hid
    rw [hread]
    exact hbreaking rival rest rfl
  | @withdraw p c against hp =>
    left
    refine ⟨p, rfl, ?_⟩
    rw [hp, mem_items_of_deleted hbefore hafter]
    rfl
  | @release l p c held f hp hl _ =>
    left
    have hok : PartyOk chrono s (.contending c (.holding held)) := hp ▸ h.party p
    refine ⟨p, hl, ?_⟩
    rw [hp, mem_items_of_deleted hbefore hafter, hok.2.2.2.2 held rfl]
    rfl
  | @releaseAgain p held hp =>
    left
    refine ⟨p, rfl, ?_⟩
    rw [hp, mem_items_of_deleted hbefore hafter]
    rfl
  | create _ _ => exact absurd (List.mem_append_left _ hbefore) hafter
  | createLanded _ _ => exact absurd (List.mem_append_left _ hbefore) hafter
  | tick _ => exact absurd hbefore hafter
  | stamp _ _ => exact absurd hbefore hafter
  | createLost _ => exact absurd hbefore hafter
  | advance _ _ => exact absurd hbefore hafter
  | judge _ => exact absurd hbefore hafter
  | leave _ => exact absurd hbefore hafter
  | stay => exact absurd hbefore hafter

end Invariant

end Opca.Vault

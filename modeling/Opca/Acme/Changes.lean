/-
  Acme/Changes.lean --- the certificates of some subordinates as a change feed:
  recording and revoking advance it, and `changed_after` reads its pages.
-/
import Opca.Acme.Enrolled
import Opca.Acme.Sound
import Opca.Foundation.Feed
import Mathlib.Data.List.Perm.Subperm

set_option autoImplicit false

namespace Opca.Acme

open Opca.Foundation Store

/-- The last change taken. -/
def Store.lastChange (s : Store) : Int :=
  columnMaxOr0 Certificate.changed s.certificates.rows

/-- Change numbers are 64-bit integers. -/
def ChangesFit (s : Store) : Prop := ∀ c ∈ s.certificates.rows, c.changed ≤ i64Max

theorem lastChange_le {s : Store} (h : ChangesFit s) : s.lastChange ≤ i64Max :=
  columnMaxOr0_le (by decide) h

/-- The certificates that `issuers` issued. -/
def Store.feed (s : Store) (issuers : Option (List String)) : Feed Certificate Int where
  rows := {c | c ∈ s.certificates.rows ∧ issuedBy issuers c = true}
  top := s.lastChange

variable {s t : Store} {issuers : Option (List String)}

theorem Store.feed_sound (s : Store) (issuers : Option (List String)) :
    (s.feed issuers).Sound Certificate.serial Certificate.changed := by
  refine ⟨?_, ?_⟩
  · intro a ha b hb heq
    exact List.inj_on_of_nodup_map s.certificates.unique.serials ha.1 hb.1 heq
  · intro row hrow
    exact le_columnMaxOr0 hrow.1

theorem lastChange_lt_nextChange : s.lastChange < s.nextChange := by
  unfold Store.lastChange Store.nextChange nextKey
  exact Int.lt_succ _

/-! ## Commits -/

/-- How one row of a certificate becomes another: by being revoked. -/
def Revokes (before after : Certificate) : Prop :=
  before.revokedAt = none ∧ after.revokedAt.isSome = true

instance : IsTrans Certificate Revokes where
  trans a b c hab hbc := by
    have hsome := hab.2
    rw [hbc.1] at hsome
    cases hsome

/-- A commit puts one certificate in the place of any with its serial, with the next
change. -/
structure Changed (s t : Store) (new : Certificate) : Prop where
  changed : new.changed = s.nextChange
  rows : ∀ c, c ∈ t.certificates.rows ↔
    c = new ∨ c ∈ s.certificates.rows ∧ c.serial ≠ new.serial
  issuer : ∀ c ∈ s.certificates.rows, c.serial = new.serial →
    c.issuerSerial = new.issuerSerial
  revokes : ∀ c ∈ s.certificates.rows, c.serial = new.serial → Revokes c new
  fits : new.changed ≤ i64Max

theorem Changed.fit {new : Certificate} (h : Changed s t new) (hs : ChangesFit s) :
    ChangesFit t := by
  intro c hc
  rcases (h.rows c).mp hc with rfl | ⟨hold, -⟩
  · exact h.fits
  · exact hs c hold

theorem Changed.top {new : Certificate} (h : Changed s t new) :
    t.lastChange = new.changed := by
  refine columnMaxOr0_eq ((h.rows new).mpr (Or.inl rfl)) ?_
  intro other hother
  rcases (h.rows other).mp hother with rfl | ⟨hold, -⟩
  · exact le_refl _
  · rw [h.changed]
    exact (lt_nextKey hold).le

/-- A revoked certificate stays as it is. -/
theorem Changed.mem_of_revoked {new c : Certificate} (h : Changed s t new)
    (hc : c ∈ s.certificates.rows) (hrevoked : c.revokedAt.isSome = true) :
    c ∈ t.certificates.rows := by
  refine (h.rows c).mpr (Or.inr ⟨hc, ?_⟩)
  intro hsame
  rw [(h.revokes c hc hsame).1] at hrevoked
  cases hrevoked

/-- On the certificates of some subordinates it is a step of their feed. -/
theorem Changed.advance {new : Certificate} (h : Changed s t new) :
    (s.feed issuers).Advance Certificate.serial Certificate.changed Revokes
      (t.feed issuers) := by
  have hnew : (s.feed issuers).top < new.changed := by
    rw [h.changed]
    exact lastChange_lt_nextChange
  cases hours : issuedBy issuers new with
  | true =>
    have hfeed : t.feed issuers = ⟨{row | row = new ∨ row ∈ (s.feed issuers).rows ∧
        row.serial ≠ new.serial}, new.changed⟩ := by
      unfold Store.feed
      rw [h.top]
      congr 1
      ext c
      simp only [Set.mem_ofPred_eq, h.rows]
      constructor
      · rintro ⟨rfl | ⟨hc, hserial⟩, hby⟩
        · exact Or.inl rfl
        · exact Or.inr ⟨⟨hc, hby⟩, hserial⟩
      · rintro (rfl | ⟨⟨hc, hby⟩, hserial⟩)
        · exact ⟨Or.inl rfl, hours⟩
        · exact ⟨Or.inr ⟨hc, hserial⟩, hby⟩
    rw [hfeed]
    exact .put new hnew fun c hc hserial => h.revokes c hc.1 hserial
  | false =>
    have hfeed : t.feed issuers = ⟨(s.feed issuers).rows, new.changed⟩ := by
      unfold Store.feed
      rw [h.top]
      congr 1
      ext c
      simp only [Set.mem_ofPred_eq, h.rows]
      constructor
      · rintro ⟨rfl | ⟨hc, -⟩, hby⟩
        · rw [hours] at hby
          cases hby
        · exact ⟨hc, hby⟩
      · rintro ⟨hc, hby⟩
        refine ⟨Or.inr ⟨hc, ?_⟩, hby⟩
        intro hserial
        -- a row with its serial would be of its subordinate
        have hsame := h.issuer c hc hserial
        unfold issuedBy at hby hours
        rw [hsame, hours] at hby
        cases hby
    rw [hfeed]
    exact .outside hnew.le

theorem changed_of_recordCertificate {orderId : Int} {issued : NewCertificate} {now : Time}
    {recorded : Certificate}
    (h : s.recordCertificate orderId issued now = .ok (t, recorded)) :
    Changed s t recorded := by
  obtain ⟨⟨-, -, -, -, order, -, hrow⟩, hfits, -, hrows, -⟩ := recordCertificate_ok h
  have hfresh : ∀ c ∈ s.certificates.rows, c.serial ≠ recorded.serial := by
    have hserials := t.certificates.unique.serials
    rw [hrows, List.map_append, List.nodup_append] at hserials
    intro c hc
    exact hserials.2.2 c.serial (List.mem_map_of_mem hc) recorded.serial
      (List.mem_singleton_self _)
  refine ⟨by rw [hrow]; rfl, ?_, ?_, ?_, hfits⟩
  · intro c
    rw [hrows, List.mem_append, List.mem_singleton]
    constructor
    · rintro (hc | rfl)
      · exact Or.inr ⟨hc, hfresh c hc⟩
      · exact Or.inl rfl
    · rintro (rfl | ⟨hc, -⟩)
      · exact Or.inr rfl
      · exact Or.inl hc
  · intro c hc hserial
    exact absurd hserial (hfresh c hc)
  · intro c hc hserial
    exact absurd hserial (hfresh c hc)

theorem changed_of_revoke {serial : String} {reason : Option Nat} {now : Time}
    {revoked : Certificate} (h : s.revoke serial reason now = .ok (t, revoked)) :
    Changed s t revoked := by
  obtain ⟨⟨found, hfound, hserial, hrevokedAt, hrow⟩, hfits, hrows, -⟩ := revoke_ok h
  have hmatches : ∀ c ∈ s.certificates.rows,
      (c.serial = serial && c.revokedAt.isNone : Bool) = true ↔ c.serial = revoked.serial := by
    intro c hc
    rw [hrow, hserial]
    constructor
    · intro hp
      simpa using (Bool.and_eq_true_iff.mp hp).1
    · intro hc'
      have hsame : c = found :=
        List.inj_on_of_nodup_map s.certificates.unique.serials hc hfound
          (hc'.trans hserial.symm)
      simp [hsame, hserial, hrevokedAt]
  have hfoundOnly : ∀ c ∈ s.certificates.rows, c.serial = revoked.serial → c = found := by
    intro c hc hc'
    refine List.inj_on_of_nodup_map s.certificates.unique.serials hc hfound ?_
    rw [hc', hrow]
  refine ⟨by rw [hrow], ?_, ?_, ?_, hfits⟩
  · intro c
    rw [hrows, mem_updateWhere]
    constructor
    · rintro ⟨old, hold, rfl⟩
      split
      next hp =>
        left
        rw [hfoundOnly old hold ((hmatches old hold).mp hp), hrow]
      next hp => exact Or.inr ⟨hold, fun heq => hp ((hmatches old hold).mpr heq)⟩
    · rintro (rfl | ⟨hc, hne⟩)
      · refine ⟨found, hfound, ?_⟩
        rw [if_pos ((hmatches found hfound).mpr (by rw [hrow])), hrow]
      · exact ⟨c, hc, if_neg fun hp => hne ((hmatches c hc).mp hp)⟩
  · intro c hc hc'
    rw [hfoundOnly c hc hc', hrow]
  · intro c hc hc'
    rw [hfoundOnly c hc hc', hrow]
    exact ⟨hrevokedAt, rfl⟩

/-! ## Pages -/

/-- The certificates `changed_after` reads, before its limit. -/
def changedRows (s : Store) (cursor : Int) (issuers : Option (List String)) :
    List Certificate :=
  (s.certificates.rows.filter fun c => cursor < c.changed && issuedBy issuers c)
    |>.insertionSort (·.changed ≤ ·.changed)

theorem changedAfter_eq (s : Store) (cursor : Int) (issuers : Option (List String))
    (limit : Nat) :
    s.changedAfter cursor issuers limit =
      ⟨(changedRows s cursor issuers).take limit,
        decide (limit < (changedRows s cursor issuers).length)⟩ := by
  unfold Store.changedAfter Store.page changedRows
  simp [List.take_take]

theorem mem_changedRows {cursor : Int} {c : Certificate} :
    c ∈ changedRows s cursor issuers ↔ c ∈ (s.feed issuers).rows ∧ cursor < c.changed := by
  unfold changedRows Store.feed
  simp only [List.mem_insertionSort, List.mem_filter, Bool.and_eq_true, decide_eq_true_eq,
    Set.mem_ofPred_eq]
  constructor
  · rintro ⟨hmem, hlt, hby⟩
    exact ⟨⟨hmem, hby⟩, hlt⟩
  · rintro ⟨⟨hmem, hby⟩, hlt⟩
    exact ⟨hmem, hlt, hby⟩

theorem changedRows_sorted (s : Store) (cursor : Int) (issuers : Option (List String)) :
    (changedRows s cursor issuers).Pairwise fun a b => a.changed < b.changed := by
  unfold changedRows
  have hle := List.pairwise_insertionSort (fun a b : Certificate => a.changed ≤ b.changed)
    (s.certificates.rows.filter fun c => cursor < c.changed && issuedBy issuers c)
  have hnodup : (((s.certificates.rows.filter fun c => cursor < c.changed &&
      issuedBy issuers c).insertionSort (·.changed ≤ ·.changed)).map
        Certificate.changed).Nodup := by
    refine ((List.perm_insertionSort _ _).map _).nodup_iff.mpr ?_
    exact s.certificates.unique.changes.sublist (List.filter_sublist.map _)
  refine (hle.and (List.pairwise_map.mp hnodup)).imp ?_
  rintro a b ⟨hab, hne⟩
  exact lt_of_le_of_ne hab hne

/-- Where the next page starts: at the last change of this one, or where this one did. -/
def nextAfter (changes : Changes) (cursor : Int) : Int :=
  changes.certificates.getLast?.elim cursor (·.changed)

variable {cursor : Int} {limit : Nat}

/-- A page holds what changed after its cursor, as far as the next. -/
theorem mem_changedAfter {c : Certificate} :
    c ∈ (s.changedAfter cursor issuers limit).certificates ↔
      c ∈ (s.feed issuers).rows ∧ cursor < c.changed ∧
        c.changed ≤ nextAfter (s.changedAfter cursor issuers limit) cursor := by
  rw [changedAfter_eq]
  unfold nextAfter
  cases hlast : ((changedRows s cursor issuers).take limit).getLast? with
  | none =>
    rw [List.getLast?_eq_none_iff.mp hlast]
    constructor
    · intro hc
      cases hc
    · rintro ⟨-, hlt, hle⟩
      exact absurd hle (not_le.mpr hlt)
  | some last =>
    simp only [Option.elim_some]
    rw [Feed.mem_take_of_sorted (changedRows_sorted s cursor issuers) hlast, mem_changedRows,
      and_assoc]

theorem changedAfter_sorted :
    (s.changedAfter cursor issuers limit).certificates.Pairwise
      fun a b => a.changed < b.changed := by
  rw [changedAfter_eq]
  exact (changedRows_sorted s cursor issuers).sublist (List.take_sublist _ _)

theorem le_nextAfter : cursor ≤ nextAfter (s.changedAfter cursor issuers limit) cursor := by
  unfold nextAfter
  cases hlast : (s.changedAfter cursor issuers limit).certificates.getLast? with
  | none => exact le_refl _
  | some last => exact (mem_changedAfter.mp (List.mem_of_getLast? hlast)).2.1.le

theorem nextAfter_le_top (h : cursor ≤ (s.feed issuers).top) :
    nextAfter (s.changedAfter cursor issuers limit) cursor ≤ (s.feed issuers).top := by
  unfold nextAfter
  cases hlast : (s.changedAfter cursor issuers limit).certificates.getLast? with
  | none => exact h
  | some last =>
    exact (s.feed_sound issuers).taken last (mem_changedAfter.mp (List.mem_of_getLast? hlast)).1

/-- A page that moves the cursor ends at one of what it had to read. -/
theorem exists_last (h : cursor < nextAfter (s.changedAfter cursor issuers limit) cursor) :
    ∃ last ∈ changedRows s cursor issuers,
      nextAfter (s.changedAfter cursor issuers limit) cursor = last.changed := by
  unfold nextAfter at h ⊢
  cases hlast : (s.changedAfter cursor issuers limit).certificates.getLast? with
  | none =>
    rw [hlast] at h
    exact absurd h (lt_irrefl _)
  | some last =>
    obtain ⟨hfeed, hlt, -⟩ := mem_changedAfter.mp (List.mem_of_getLast? hlast)
    exact ⟨last, mem_changedRows.mpr ⟨hfeed, hlt⟩, rfl⟩

/-- It leaves fewer to read. -/
theorem changedRows_lt (h : cursor < nextAfter (s.changedAfter cursor issuers limit) cursor) :
    (changedRows s (nextAfter (s.changedAfter cursor issuers limit) cursor) issuers).length <
      (changedRows s cursor issuers).length := by
  obtain ⟨last, hlast, hnext⟩ := exists_last h
  rw [hnext]
  have hnotin : last ∉ changedRows s last.changed issuers := by
    intro hmem
    exact absurd (mem_changedRows.mp hmem).2 (lt_irrefl _)
  have hnodup : (last :: changedRows s last.changed issuers).Nodup := by
    refine List.nodup_cons.mpr ⟨hnotin, ?_⟩
    refine (changedRows_sorted s last.changed issuers).imp ?_
    rintro a b hlt rfl
    exact absurd hlt (lt_irrefl _)
  have hsubset : last :: changedRows s last.changed issuers ⊆ changedRows s cursor issuers := by
    intro c hc
    rcases List.mem_cons.mp hc with rfl | hc
    · exact hlast
    · obtain ⟨hfeed, hlt⟩ := mem_changedRows.mp hc
      exact mem_changedRows.mpr ⟨hfeed, (mem_changedRows.mp hlast).2.trans hlt⟩
  exact (List.subperm_of_subset hnodup hsubset).length_le

/-- A page past which more wait moves the cursor. -/
theorem lt_nextAfter (hlimit : 1 ≤ limit)
    (hmore : (s.changedAfter cursor issuers limit).more = true) :
    cursor < nextAfter (s.changedAfter cursor issuers limit) cursor := by
  unfold nextAfter
  cases hlast : (s.changedAfter cursor issuers limit).certificates.getLast? with
  | none =>
    rw [changedAfter_eq] at hmore hlast
    have hwait := of_decide_eq_true hmore
    have hlength := congrArg List.length (List.getLast?_eq_none_iff.mp hlast)
    rw [List.length_take, List.length_nil] at hlength
    omega
  | some last => exact (mem_changedAfter.mp (List.mem_of_getLast? hlast)).2.1

/-- A page past which nothing waits has all there is. -/
theorem mem_of_not_more (hmore : (s.changedAfter cursor issuers limit).more = false)
    {c : Certificate} (hc : c ∈ (s.feed issuers).rows) (hlt : cursor < c.changed) :
    c ∈ (s.changedAfter cursor issuers limit).certificates := by
  rw [changedAfter_eq] at hmore ⊢
  have hshort := of_decide_eq_false hmore
  rw [List.take_of_length_le (not_lt.mp hshort)]
  exact mem_changedRows.mpr ⟨hc, hlt⟩

end Opca.Acme

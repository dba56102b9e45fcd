/-
  Foundation/Outbox.lean --- versions of a document, published by works that are
  queued in one order and run, one at a time, in any.

  A work outlives whoever queued it, so the last version published need not be the
  last one queued.  What is proved here is what publishing in order keeps: the
  versions rise, and a property that every later version has stays with the document.
-/
import Mathlib.Data.List.Basic
import Mathlib.Data.Nat.Basic

set_option autoImplicit false

namespace Opca.Foundation

/-- A version waiting to be published; ids are given out in the order of queueing. -/
structure Work (α : Type) where
  id : Nat
  version : α
  deriving DecidableEq, Repr

structure Outbox (α : Type) where
  /-- The id last given out. -/
  last : Nat
  queued : List (Work α)
  /-- The work that holds the lock. -/
  running : Option (Work α)
  /-- The id of the work that published last; before any, 0. -/
  wrote : Nat
  published : Option α
  deriving DecidableEq

namespace Outbox

variable {α : Type}

/-- Nothing queued yet, over a document published before or none. -/
def start (published : Option α) : Outbox α where
  last := 0
  queued := []
  running := none
  wrote := 0
  published := published

def push (o : Outbox α) (version : α) : Outbox α :=
  { o with last := o.last + 1, queued := o.queued ++ [⟨o.last + 1, version⟩] }

/-- A queued work takes the lock, if nobody has it. -/
def lock [DecidableEq α] (o : Outbox α) (work : Work α) : Option (Outbox α) :=
  if work ∈ o.queued ∧ o.running = none then
    some { o with queued := o.queued.erase work, running := some work }
  else none

/-- The running work gives the lock up. -/
def unlock (o : Outbox α) : Outbox α :=
  { o with running := none }

def publish (o : Outbox α) (work : Work α) : Outbox α :=
  { o with running := none, wrote := work.id, published := some work.version }

/-- A work that may still publish. -/
def Pending (o : Outbox α) (work : Work α) : Prop :=
  work ∈ o.queued ∨ o.running = some work

/-- The running work was queued after whichever published last. -/
def InOrder (o : Outbox α) : Prop :=
  ∀ work ∈ o.running, o.wrote < work.id

instance (o : Outbox α) : Decidable o.InOrder :=
  inferInstanceAs (Decidable (∀ work ∈ o.running, o.wrote < work.id))

variable {o t : Outbox α} {work w : Work α} {version : α}

theorem not_pending_start {published : Option α} : ¬ (start published).Pending w := by
  rintro (h | h) <;> cases h

theorem pending_push : (o.push version).Pending w ↔ o.Pending w ∨ w = ⟨o.last + 1, version⟩ := by
  unfold Pending push
  simp only [List.mem_append, List.mem_singleton]
  constructor
  · rintro ((h | h) | h)
    · exact Or.inl (Or.inl h)
    · exact Or.inr h
    · exact Or.inl (Or.inr h)
  · rintro ((h | h) | h)
    · exact Or.inl (Or.inl h)
    · exact Or.inr h
    · exact Or.inl (Or.inr h)

theorem Pending.of_publish (h : (o.publish work).Pending w) : o.Pending w := by
  rcases h with h | h
  · exact Or.inl h
  · cases h

/-! ## Taking the lock and giving it up -/

/-- Nothing is queued or published, though works may be gone. -/
structure Idles (o t : Outbox α) : Prop where
  last : t.last = o.last
  wrote : t.wrote = o.wrote
  published : t.published = o.published
  pending : ∀ {w}, t.Pending w → o.Pending w

theorem idles_unlock : Idles o o.unlock := by
  refine ⟨rfl, rfl, rfl, ?_⟩
  rintro w (hw | hw)
  · exact Or.inl hw
  · cases hw

theorem idles_of_lock [DecidableEq α] (h : o.lock work = some t) : Idles o t := by
  unfold lock at h
  split at h
  next hwork =>
    cases h
    refine ⟨rfl, rfl, rfl, ?_⟩
    rintro w (hw | hw)
    · exact Or.inl (List.mem_of_mem_erase hw)
    · cases hw
      exact Or.inl hwork.1
  next => cases h

/-! ## Every version -/

/-- What is published and what may still be published has `Q`. -/
structure Every (o : Outbox α) (Q : α → Prop) : Prop where
  published : ∀ a ∈ o.published, Q a
  pending : ∀ w, o.Pending w → Q w.version

variable {Q R : α → Prop}

theorem Every.imp (h : o.Every Q) (hQR : ∀ a, Q a → R a) : o.Every R :=
  ⟨fun a ha => hQR a (h.published a ha), fun w hw => hQR _ (h.pending w hw)⟩

theorem Every.start {published : Option α} (h : ∀ a ∈ published, Q a) :
    (start published).Every Q :=
  ⟨h, fun _ hw => absurd hw not_pending_start⟩

theorem Every.idles (h : o.Every Q) (ht : Idles o t) : t.Every Q := by
  refine ⟨?_, fun w hw => h.pending w (ht.pending hw)⟩
  rw [ht.published]
  exact h.published

theorem Every.push (h : o.Every Q) (hnew : Q version) : (o.push version).Every Q := by
  refine ⟨h.published, ?_⟩
  intro w hw
  rcases pending_push.mp hw with hold | rfl
  · exact h.pending w hold
  · exact hnew

theorem Every.publish (h : o.Every Q) (hrunning : o.running = some work) :
    (o.publish work).Every Q := by
  refine ⟨?_, fun w hw => h.pending w hw.of_publish⟩
  intro a ha
  cases ha
  exact h.pending work (Or.inr hrunning)

/-! ## Rising versions -/

/-- Every version that may still be published is above those queued before it, and
above the published one if it was queued after that. -/
structure Rising (below : α → α → Prop) (o : Outbox α) : Prop where
  wrote_le : o.wrote ≤ o.last
  id_le : ∀ w, o.Pending w → w.id ≤ o.last
  queued : ∀ v w, o.Pending v → o.Pending w → v.id < w.id → below v.version w.version
  published : ∀ a ∈ o.published, ∀ w, o.Pending w → o.wrote < w.id → below a w.version

variable {below : α → α → Prop}

theorem Rising.start (published : Option α) : Rising below (start published) :=
  ⟨le_refl _, fun _ hw => absurd hw not_pending_start,
    fun _ _ hv => absurd hv not_pending_start,
    fun _ _ _ hw => absurd hw not_pending_start⟩

theorem Rising.idles (h : Rising below o) (ht : Idles o t) : Rising below t := by
  obtain ⟨hlast, hwrote, hpublished, hpending⟩ := ht
  refine ⟨?_, ?_, ?_, ?_⟩
  · rw [hlast, hwrote]
    exact h.wrote_le
  · intro w hw
    rw [hlast]
    exact h.id_le w (hpending hw)
  · intro v w hv hw
    exact h.queued v w (hpending hv) (hpending hw)
  · intro a ha w hw hlt
    rw [hpublished] at ha
    rw [hwrote] at hlt
    exact h.published a ha w (hpending hw) hlt

theorem Rising.push (h : Rising below o) (hnew : o.Every (below · version)) :
    Rising below (o.push version) := by
  refine ⟨Nat.le_succ_of_le h.wrote_le, ?_, ?_, ?_⟩
  · intro w hw
    rcases pending_push.mp hw with hold | rfl
    · exact Nat.le_succ_of_le (h.id_le w hold)
    · exact le_refl _
  · intro v w hv hw hlt
    rcases pending_push.mp hw with hwold | rfl
    · rcases pending_push.mp hv with hvold | rfl
      · exact h.queued v w hvold hwold hlt
      · have hle := h.id_le w hwold
        simp only at hlt
        omega
    · rcases pending_push.mp hv with hvold | rfl
      · exact hnew.pending v hvold
      · exact absurd hlt (Nat.lt_irrefl _)
  · intro a ha w hw hlt
    rcases pending_push.mp hw with hold | rfl
    · exact h.published a ha w hold hlt
    · exact hnew.published a ha

theorem Rising.publish (h : Rising below o) (hrunning : o.running = some work) :
    Rising below (o.publish work) := by
  have hwork : o.Pending work := Or.inr hrunning
  refine ⟨h.id_le work hwork, ?_, ?_, ?_⟩
  · intro w hw
    exact h.id_le w hw.of_publish
  · intro v w hv hw
    exact h.queued v w hv.of_publish hw.of_publish
  · intro a ha w hw hlt
    cases ha
    exact h.queued work w hwork hw.of_publish hlt

/-- Publishing in order puts a version above the one before. -/
theorem Rising.below_of_inOrder (h : Rising below o) (hrunning : o.running = some work)
    (horder : o.InOrder) {a : α} (ha : o.published = some a) : below a work.version :=
  h.published a ha work (Or.inr hrunning) (horder work hrunning)

/-! ## What the document goes on having -/

/-- Every version from `id` on that may still be published has `Q`. -/
def From (o : Outbox α) (id : Nat) (Q : α → Prop) : Prop :=
  ∀ w, o.Pending w → id ≤ w.id → Q w.version

/-- The document has `Q`, and so has every version queued after it. -/
structure Carries (o : Outbox α) (Q : α → Prop) : Prop where
  now : ∃ a, o.published = some a ∧ Q a
  later : o.From (o.wrote + 1) Q

variable {id : Nat}

theorem From.imp (h : o.From id Q) (hQR : ∀ a, Q a → R a) : o.From id R :=
  fun w hw hid => hQR _ (h w hw hid)

theorem From.idles (h : o.From id Q) (ht : Idles o t) : t.From id Q :=
  fun w hw => h w (ht.pending hw)

theorem From.push (h : o.From id Q) (hnew : Q version) : (o.push version).From id Q := by
  intro w hw hid
  rcases pending_push.mp hw with hold | rfl
  · exact h w hold hid
  · exact hnew

/-- A version is queued after all that were queued before. -/
theorem Rising.from_push (h : Rising below o) (hnew : Q version) :
    (o.push version).From (o.push version).last Q := by
  intro w hw hid
  rcases pending_push.mp hw with hold | rfl
  · have hle := h.id_le w hold
    simp only [Outbox.push] at hid
    omega
  · exact hnew

theorem From.publish (h : o.From id Q) (hrunning : o.running = some work) (hid : id ≤ work.id) :
    (o.publish work).Carries Q := by
  refine ⟨⟨work.version, rfl, h work (Or.inr hrunning) hid⟩, ?_⟩
  intro w hw hlt
  exact h w hw.of_publish (Nat.le_trans hid (Nat.le_of_succ_le hlt))

theorem Carries.imp (h : o.Carries Q) (hQR : ∀ a, Q a → R a) : o.Carries R := by
  obtain ⟨⟨a, ha, hQ⟩, hlater⟩ := h
  exact ⟨⟨a, ha, hQR a hQ⟩, hlater.imp hQR⟩

theorem Carries.idles (h : o.Carries Q) (ht : Idles o t) : t.Carries Q := by
  refine ⟨?_, ?_⟩
  · rw [ht.published]
    exact h.now
  · rw [ht.wrote]
    exact h.later.idles ht

theorem Carries.push (h : o.Carries Q) (hnew : Q version) : (o.push version).Carries Q :=
  ⟨h.now, h.later.push hnew⟩

theorem Carries.publish (h : o.Carries Q) (hrunning : o.running = some work)
    (horder : o.InOrder) : (o.publish work).Carries Q :=
  h.later.publish hrunning (horder work hrunning)

end Outbox

end Opca.Foundation

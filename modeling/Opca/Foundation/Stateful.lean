/-
  Foundation/Stateful.lean --- pre- and postconditions of computations that change a
  state as they go and may fail on the way, with what they had changed by then kept.
-/
import Mathlib.Order.Defs.Unbundled

set_option autoImplicit false

namespace Opca.Foundation

variable {ε σ α β : Type}

/-- What something outside the state answered: a value, or an error to fail with. -/
def outcome (answer : Except ε α) : EStateM ε σ α := fun s =>
  match answer with
  | .ok a => .ok a s
  | .error e => .error e s

/-- A computation whose error is not looked at. -/
def dropError (m : EStateM ε σ α) : EStateM ε σ PUnit := fun s =>
  match m s with
  | .ok _ t => .ok ⟨⟩ t
  | .error _ t => .ok ⟨⟩ t

/-- Where a computation ended, whether it returned or failed. -/
def finalState : EStateM.Result ε σ α → σ
  | .ok _ t => t
  | .error _ t => t

/-- Whether a computation returned. -/
def returned : EStateM.Result ε σ α → Bool
  | .ok _ _ => true
  | .error _ _ => false

theorem exists_of_returned {r : EStateM.Result ε σ α} (h : returned r = true) :
    ∃ a t, r = .ok a t := by
  cases r with
  | ok a t => exact ⟨a, t, rfl⟩
  | error e t => cases h

theorem bind_of_ok {m : EStateM ε σ α} {f : α → EStateM ε σ β} {s t : σ} {a : α}
    (h : m s = .ok a t) : (m >>= f) s = f a t := by
  show EStateM.bind m f s = f a t
  unfold EStateM.bind
  rw [h]

theorem bind_of_error {m : EStateM ε σ α} {f : α → EStateM ε σ β} {s t : σ} {e : ε}
    (h : m s = .error e t) : (m >>= f) s = .error e t := by
  show EStateM.bind m f s = .error e t
  unfold EStateM.bind
  rw [h]

/-- A computation goes on alike from two that answer alike. -/
theorem bind_congr_at {m m' : EStateM ε σ α} {s : σ} (h : m s = m' s)
    (f : α → EStateM ε σ β) : (m >>= f) s = (m' >>= f) s := by
  show EStateM.bind m f s = EStateM.bind m' f s
  unfold EStateM.bind
  rw [h]

theorem map_congr_at {m m' : EStateM ε σ α} {s : σ} (h : m s = m' s) (f : α → β) :
    (f <$> m) s = (f <$> m') s := by
  show EStateM.map f m s = EStateM.map f m' s
  unfold EStateM.map
  rw [h]

theorem map_of_ok {m : EStateM ε σ α} {f : α → β} {s t : σ} {a : α} (h : m s = .ok a t) :
    (f <$> m) s = .ok (f a) t := by
  show EStateM.map f m s = _
  unfold EStateM.map
  rw [h]

theorem map_of_error {m : EStateM ε σ α} {f : α → β} {s t : σ} {e : ε}
    (h : m s = .error e t) : (f <$> m) s = .error e t := by
  show EStateM.map f m s = _
  unfold EStateM.map
  rw [h]

/-- What a computation returned after another, it returned on what that returned. -/
theorem of_bind_ok {m : EStateM ε σ α} {f : α → EStateM ε σ β} {s u : σ} {b : β}
    (h : (m >>= f) s = .ok b u) : ∃ a t, m s = .ok a t ∧ f a t = .ok b u := by
  cases hm : m s with
  | ok a t =>
    rw [bind_of_ok hm] at h
    exact ⟨a, t, rfl, h⟩
  | error e t =>
    rw [bind_of_error hm] at h
    cases h

theorem exists_of_returned_bind {m : EStateM ε σ α} {f : α → EStateM ε σ β} {s : σ}
    (h : returned ((m >>= f) s) = true) :
    ∃ a t, m s = .ok a t ∧ returned (f a t) = true := by
  obtain ⟨b, u, hbind⟩ := exists_of_returned h
  obtain ⟨a, t, hm, hf⟩ := of_bind_ok hbind
  refine ⟨a, t, hm, ?_⟩
  rw [hf]
  rfl

theorem of_outcome_ok {answer : Except ε α} {s t : σ} {a : α}
    (h : outcome answer s = .ok a t) : answer = .ok a ∧ s = t := by
  cases answer with
  | ok b =>
    cases h
    exact ⟨rfl, rfl⟩
  | error e => cases h

/-- What two answers make together. -/
theorem outcome_bind (answer : Except ε α) (f : α → Except ε β) :
    (outcome (answer >>= f) : EStateM ε σ β) = outcome answer >>= fun a => outcome (f a) := by
  funext s
  cases answer <;> rfl

theorem returned_map {m : EStateM ε σ α} {f : α → β} {s : σ} :
    returned ((f <$> m) s) = returned (m s) := by
  cases h : m s with
  | ok a t => rw [map_of_ok h]; rfl
  | error e t => rw [map_of_error h]; rfl

theorem of_map_eq {m m' : EStateM ε σ α} {f : α → β} {s : σ} (hf : ∀ a b, f a = f b → a = b)
    (h : (f <$> m) s = (f <$> m') s) : m s = m' s := by
  cases hm : m s with
  | ok a t =>
    cases hm' : m' s with
    | ok a' t' =>
      rw [map_of_ok hm, map_of_ok hm'] at h
      injection h with hvalue hstate
      rw [hf a a' hvalue, hstate]
    | error e' t' =>
      rw [map_of_ok hm, map_of_error hm'] at h
      cases h
  | error e t =>
    cases hm' : m' s with
    | ok a' t' =>
      rw [map_of_error hm, map_of_ok hm'] at h
      cases h
    | error e' t' =>
      rw [map_of_error hm, map_of_error hm'] at h
      injection h with herror hstate
      rw [herror, hstate]

/-- From where `pre` holds, `post` holds where it returns and `failed` where it fails. -/
def Ensures (pre : σ → Prop) (m : EStateM ε σ α) (post : α → σ → Prop)
    (failed : σ → Prop) : Prop :=
  ∀ s, pre s → match m s with
    | .ok a t => post a t
    | .error _ t => failed t

namespace Ensures

variable {pre pre' failed : σ → Prop} {post : α → σ → Prop} {m : EStateM ε σ α}

theorem ok (h : Ensures pre m post failed) {s t : σ} {a : α} (hs : pre s)
    (hm : m s = .ok a t) : post a t := by
  have hpost := h s hs
  rw [hm] at hpost
  exact hpost

theorem error (h : Ensures pre m post failed) {s t : σ} {e : ε} (hs : pre s)
    (hm : m s = .error e t) : failed t := by
  have hfailed := h s hs
  rw [hm] at hfailed
  exact hfailed

/-- What holds where it ends either way. -/
theorem final {P : σ → Prop} (h : Ensures pre m (fun _ => P) P) {s : σ} (hs : pre s) :
    P (finalState (m s)) := by
  cases hm : m s with
  | ok a t => exact h.ok hs hm
  | error e t => exact h.error hs hm

/-- What is known of how it returns, and of how it fails. -/
theorem of_cases (hok : ∀ s a t, pre s → m s = .ok a t → post a t)
    (herror : ∀ s e t, pre s → m s = .error e t → failed t) : Ensures pre m post failed := by
  intro s hs
  cases hm : m s with
  | ok a t => exact hok s a t hs hm
  | error e t => exact herror s e t hs hm

theorem pure {a : α} (h : ∀ s, pre s → post a s) :
    Ensures pre (Pure.pure a : EStateM ε σ α) post failed :=
  h

theorem throw {e : ε} (h : ∀ s, pre s → failed s) :
    Ensures pre (MonadExcept.throw e : EStateM ε σ α) post failed :=
  h

theorem get {post : σ → σ → Prop} (h : ∀ s, pre s → post s s) :
    Ensures pre (MonadState.get : EStateM ε σ σ) post failed :=
  h

theorem modify {post : PUnit → σ → Prop} {f : σ → σ} (h : ∀ s, pre s → post ⟨⟩ (f s)) :
    Ensures pre (modify f : EStateM ε σ PUnit) post failed :=
  h

theorem outcome {answer : Except ε α} (hok : ∀ a s, answer = .ok a → pre s → post a s)
    (herror : ∀ s, pre s → failed s) :
    Ensures pre (Foundation.outcome answer) post failed := by
  intro s hs
  cases answer with
  | ok a => exact hok a s rfl hs
  | error e => exact herror s hs

theorem bind {f : α → EStateM ε σ β} {post' : β → σ → Prop}
    (hm : Ensures pre m post failed) (hf : ∀ a, Ensures (post a) (f a) post' failed) :
    Ensures pre (m >>= f) post' failed := by
  intro s hs
  show match EStateM.bind m f s with
    | .ok b t => post' b t
    | .error _ t => failed t
  unfold EStateM.bind
  cases hms : m s with
  | ok a t => exact hf a t (hm.ok hs hms)
  | error e t => exact hm.error hs hms

theorem map {f : α → β} {post' : β → σ → Prop} (hm : Ensures pre m post failed)
    (hf : ∀ a s, post a s → post' (f a) s) : Ensures pre (f <$> m) post' failed := by
  intro s hs
  show match EStateM.map f m s with
    | .ok b t => post' b t
    | .error _ t => failed t
  unfold EStateM.map
  cases hms : m s with
  | ok a t => exact hf a t (hm.ok hs hms)
  | error e t => exact hm.error hs hms

theorem forM_mem {P : σ → Prop} {f : α → EStateM ε σ PUnit} {as : List α}
    (hf : ∀ a ∈ as, Ensures P (f a) (fun _ => P) P) : Ensures P (as.forM f) (fun _ => P) P := by
  induction as with
  | nil => exact pure fun _ hs => hs
  | cons a as ih =>
    exact (hf a List.mem_cons_self).bind fun _ =>
      ih fun a' ha' => hf a' (List.mem_cons_of_mem a ha')

theorem forM {P : σ → Prop} {f : α → EStateM ε σ PUnit}
    (hf : ∀ a, Ensures P (f a) (fun _ => P) P) (as : List α) :
    Ensures P (as.forM f) (fun _ => P) P :=
  forM_mem fun a _ => hf a

theorem imp {post' : α → σ → Prop} {failed' : σ → Prop} (h : Ensures pre m post failed)
    (hpre : ∀ s, pre' s → pre s) (hpost : ∀ a s, post a s → post' a s)
    (hfailed : ∀ s, failed s → failed' s) : Ensures pre' m post' failed' := by
  intro s hs
  have hm := h s (hpre s hs)
  cases hms : m s with
  | ok a t =>
    rw [hms] at hm
    exact hpost a t hm
  | error e t =>
    rw [hms] at hm
    exact hfailed t hm

/-- Less is said of how it fails. -/
theorem failing {failed' : σ → Prop} (h : Ensures pre m post failed)
    (hfailed : ∀ s, failed s → failed' s) : Ensures pre m post failed' :=
  h.imp (fun _ hs => hs) (fun _ _ hs => hs) hfailed

theorem and {pre' : σ → Prop} {post' : α → σ → Prop} {failed' : σ → Prop}
    (h : Ensures pre m post failed) (h' : Ensures pre' m post' failed') :
    Ensures (fun s => pre s ∧ pre' s) m (fun a s => post a s ∧ post' a s)
      (fun s => failed s ∧ failed' s) := by
  rintro s ⟨hs, hs'⟩
  cases hms : m s with
  | ok a t => exact ⟨h.ok hs hms, h'.ok hs' hms⟩
  | error e t => exact ⟨h.error hs hms, h'.error hs' hms⟩

/-- What is known before and does not depend on the state. -/
theorem of_and {p : Prop} (h : p → Ensures pre m post failed) :
    Ensures (fun s => p ∧ pre s) m post failed :=
  fun s hs => h hs.1 s hs.2

end Ensures

/-! ## Computations that only move the state along a relation -/

/-- Wherever it starts, it ends, or fails, in a state that `R` leads to. -/
def Moves (R : σ → σ → Prop) (m : EStateM ε σ α) : Prop :=
  ∀ s, Ensures (R s) m (fun _ => R s) (R s)

namespace Moves

variable {R : σ → σ → Prop} {m : EStateM ε σ α}

theorem of_step [IsTrans σ R] (hok : ∀ s a t, m s = .ok a t → R s t)
    (herror : ∀ s e t, m s = .error e t → R s t) : Moves R m := by
  intro s₀ s hs
  cases hm : m s with
  | ok a t => exact IsTrans.trans _ _ _ hs (hok s a t hm)
  | error e t => exact IsTrans.trans _ _ _ hs (herror s e t hm)

/-- A computation that cannot fail. -/
theorem of_total [IsTrans σ R] {value : σ → α} {after : σ → σ}
    (hm : ∀ s, m s = .ok (value s) (after s)) (hafter : ∀ s, R s (after s)) : Moves R m := by
  refine .of_step ?_ ?_
  · intro s a t h
    rw [hm] at h
    cases h
    exact hafter s
  · intro s e t h
    rw [hm] at h
    cases h

theorem pure {a : α} : Moves R (Pure.pure a : EStateM ε σ α) :=
  fun _ => .pure fun _ hs => hs

theorem throw {e : ε} : Moves R (MonadExcept.throw e : EStateM ε σ α) :=
  fun _ => .throw fun _ hs => hs

theorem get : Moves R (MonadState.get : EStateM ε σ σ) :=
  fun _ => .get fun _ hs => hs

theorem modify [IsTrans σ R] {f : σ → σ} (h : ∀ s, R s (f s)) :
    Moves R (modify f : EStateM ε σ PUnit) :=
  fun _ => .modify fun s hs => IsTrans.trans _ _ _ hs (h s)

theorem outcome {answer : Except ε α} :
    Moves R (Foundation.outcome answer : EStateM ε σ α) :=
  fun _ => .outcome (fun _ _ _ hs => hs) fun _ hs => hs

theorem bind {f : α → EStateM ε σ β} (hm : Moves R m) (hf : ∀ a, Moves R (f a)) :
    Moves R (m >>= f) :=
  fun s => (hm s).bind fun a => hf a s

theorem map (hm : Moves R m) (f : α → β) : Moves R (f <$> m) :=
  fun s => (hm s).map fun _ _ hs => hs

theorem forM {f : α → EStateM ε σ PUnit} (hf : ∀ a, Moves R (f a)) :
    ∀ as : List α, Moves R (as.forM f)
  | [] => pure
  | a :: as => (hf a).bind fun _ => forM hf as

theorem and {R' : σ → σ → Prop} (h : Moves R m) (h' : Moves R' m) :
    Moves (fun s t => R s t ∧ R' s t) m :=
  fun s => (h s).and (h' s)

theorem weaken {R' : σ → σ → Prop} [Std.Refl R] [IsTrans σ R'] (h : Moves R m)
    (hR : ∀ s t, R s t → R' s t) : Moves R' m := by
  refine .of_step ?_ ?_
  · intro s a t hm
    exact hR s t ((h s).ok (Std.Refl.refl s) hm)
  · intro s e t hm
    exact hR s t ((h s).error (Std.Refl.refl s) hm)

/-- A computation that only reads the state moves it along anything. -/
theorem of_reads [Std.Refl R] [IsTrans σ R] (h : Moves (· = ·) m) : Moves R m :=
  h.weaken fun s _ hst => hst ▸ Std.Refl.refl s

/-- Whatever holds where a computation only reads the state still holds after it. -/
theorem reads (h : Moves (· = ·) m) (P : σ → Prop) : Ensures P m (fun _ => P) P := by
  intro s hs
  refine (h s).imp (fun _ ht => ht) (fun _ t ht => ?_) (fun t ht => ?_) s rfl
  · exact ht ▸ hs
  · exact ht ▸ hs

/-- What `R` does not take back stays so throughout. -/
theorem keep [Std.Refl R] (h : Moves R m) {P : σ → Prop} (hP : ∀ s t, P s → R s t → P t) :
    Ensures P m (fun _ => P) P := by
  intro s hs
  refine (h s).imp (fun _ hst => hst) (fun _ t hst => hP s t hs hst) (fun t hst => hP s t hs hst)
    s (Std.Refl.refl s)

end Moves

end Opca.Foundation

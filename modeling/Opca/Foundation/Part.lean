/-
  Foundation/Part.lean --- computations over a part of a state, and what a computation
  over the whole is to that part.
-/
import Opca.Foundation.Stateful

set_option autoImplicit false

namespace Opca.Foundation

variable {ε τ σ α β : Type}

/-- A part `σ` of a state `τ`, which can be put in another's place. -/
structure Part (τ σ : Type) where
  get : τ → σ
  set : σ → τ → τ
  get_set : ∀ s t, get (set s t) = s
  set_set : ∀ s s' t, set s' (set s t) = set s' t

namespace Part

variable (p : Part τ σ)

/-- A computation over the part, with the rest of the state beside it. -/
def lift (m : EStateM ε σ α) : EStateM ε τ α := fun t =>
  match m (p.get t) with
  | .ok a s => .ok a (p.set s t)
  | .error e s => .error e (p.set s t)

variable {p} {m : EStateM ε σ α} {t : τ}

theorem lift_ok {a : α} {s : σ} (h : m (p.get t) = .ok a s) :
    p.lift m t = .ok a (p.set s t) := by
  unfold lift
  rw [h]

theorem lift_error {e : ε} {s : σ} (h : m (p.get t) = .error e s) :
    p.lift m t = .error e (p.set s t) := by
  unfold lift
  rw [h]

theorem of_lift_ok {a : α} {u : τ} (h : p.lift m t = .ok a u) :
    ∃ s, m (p.get t) = .ok a s ∧ u = p.set s t := by
  cases hm : m (p.get t) with
  | ok b s =>
    rw [lift_ok hm] at h
    cases h
    exact ⟨s, rfl, rfl⟩
  | error e s =>
    rw [lift_error hm] at h
    cases h

theorem of_lift_error {e : ε} {u : τ} (h : p.lift m t = .error e u) :
    ∃ s, m (p.get t) = .error e s ∧ u = p.set s t := by
  cases hm : m (p.get t) with
  | ok b s =>
    rw [lift_ok hm] at h
    cases h
  | error e s =>
    rw [lift_error hm] at h
    cases h
    exact ⟨s, rfl, rfl⟩

theorem lift_bind (p : Part τ σ) (m : EStateM ε σ α) (f : α → EStateM ε σ β) :
    p.lift (m >>= f) = p.lift m >>= fun a => p.lift (f a) := by
  funext t
  cases hm : m (p.get t) with
  | error e s =>
    rw [bind_of_error (lift_error hm), lift_error (bind_of_error hm)]
  | ok a s =>
    rw [bind_of_ok (lift_ok hm)]
    cases hf : f a s with
    | ok b u =>
      have hset : f a (p.get (p.set s t)) = .ok b u := by rw [p.get_set, hf]
      rw [lift_ok ((bind_of_ok hm).trans hf), lift_ok hset, p.set_set]
    | error e u =>
      have hset : f a (p.get (p.set s t)) = .error e u := by rw [p.get_set, hf]
      rw [lift_error ((bind_of_ok hm).trans hf), lift_error hset, p.set_set]

/-- What the part's computation ensures of it, with the rest as it was. -/
theorem ensures_lift {pre failed : τ → Prop} {post : α → τ → Prop}
    (h : ∀ t, pre t → Ensures (· = p.get t) m (fun a s => post a (p.set s t))
      (fun s => failed (p.set s t))) :
    Ensures pre (p.lift m) post failed := by
  intro t ht
  have hm := h t ht (p.get t) rfl
  cases hrun : m (p.get t) with
  | ok a s =>
    rw [hrun] at hm
    rw [lift_ok hrun]
    exact hm
  | error e s =>
    rw [hrun] at hm
    rw [lift_error hrun]
    exact hm

/-- Where the part moves along a relation, the whole moves along what follows from it. -/
theorem moves_lift {R : σ → σ → Prop} {R' : τ → τ → Prop} [Std.Refl R] [IsTrans τ R']
    (h : Moves R m) (hR : ∀ t s, R (p.get t) s → R' t (p.set s t)) : Moves R' (p.lift m) := by
  have hstart : ∀ t, Ensures (R (p.get t)) m (fun _ => R (p.get t)) (R (p.get t)) :=
    fun t => h (p.get t)
  refine .of_step ?_ ?_
  · intro t a u hrun
    obtain ⟨s, hm, rfl⟩ := of_lift_ok hrun
    exact hR t s ((hstart t).ok (Std.Refl.refl _) hm)
  · intro t e u hrun
    cases hm : m (p.get t) with
    | ok a s =>
      rw [lift_ok hm] at hrun
      cases hrun
    | error e s =>
      rw [lift_error hm] at hrun
      cases hrun
      exact hR t s ((hstart t).error (Std.Refl.refl _) hm)

/-! ## What a computation is to the part alone -/

variable (p) in
/-- A result with the part alone of its state. -/
def onResult : EStateM.Result ε τ α → EStateM.Result ε σ α
  | .ok a t => .ok a (p.get t)
  | .error e t => .error e (p.get t)

variable (p) in
/-- To the part, the one computation is the other. -/
def Follows (m : EStateM ε τ α) (m' : EStateM ε σ α) : Prop :=
  ∀ t, p.onResult (m t) = m' (p.get t)

namespace Follows

variable {m : EStateM ε τ α} {m' : EStateM ε σ α}

theorem lift (m : EStateM ε σ α) : p.Follows (p.lift m) m := by
  intro t
  cases hm : m (p.get t) with
  | ok a s =>
    rw [lift_ok hm, onResult, p.get_set]
  | error e s =>
    rw [lift_error hm, onResult, p.get_set]

theorem outcome (answer : Except ε α) :
    p.Follows (Foundation.outcome answer) (Foundation.outcome answer) := by
  intro t
  cases answer <;> rfl

theorem pure (a : α) : p.Follows (Pure.pure a : EStateM ε τ α) (Pure.pure a) := fun _ => rfl

theorem throw (e : ε) :
    p.Follows (MonadExcept.throw e : EStateM ε τ α) (MonadExcept.throw e) := fun _ => rfl

theorem bind {f : α → EStateM ε τ β} {f' : α → EStateM ε σ β} (h : p.Follows m m')
    (hf : ∀ a, p.Follows (f a) (f' a)) : p.Follows (m >>= f) (m' >>= f') := by
  intro t
  have ht := h t
  cases hm : m t with
  | ok a u =>
    rw [hm] at ht
    rw [bind_of_ok hm, bind_of_ok ht.symm]
    exact hf a u
  | error e u =>
    rw [hm] at ht
    rw [bind_of_error hm, bind_of_error ht.symm]
    rfl

/-- What changes the rest alone is nothing to the part. -/
theorem modify {f : τ → τ} (h : ∀ t, p.get (f t) = p.get t) :
    p.Follows (modify f : EStateM ε τ PUnit) (Pure.pure ⟨⟩) :=
  fun t => congrArg (EStateM.Result.ok PUnit.unit) (h t)

end Follows

end Part

end Opca.Foundation

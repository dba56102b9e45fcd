/-
  Foundation/Machine.lean --- labelled transition systems, the states their
  runs reach, and the induction rules the concurrent components are proved with.

  A component is given as a `Machine`: an executable partial function of the
  state and a label.  The label carries every choice the environment makes
  (which party moves, what the service answers), so a run is a list of labels
  and can be evaluated.  Its `system` is the relation the run lemmas are stated
  over, which can be restricted to the steps that meet a condition.
-/
import Mathlib.Logic.Basic

set_option autoImplicit false

namespace Opca.Foundation

/-- A labelled transition system: what holds at the start, and which states a
labelled step leads to. -/
structure System (σ ι : Type) where
  init : σ → Prop
  step : σ → ι → σ → Prop

namespace System

variable {σ ι : Type}

/-- The states some run from an initial state passes through. -/
inductive Reachable (S : System σ ι) : σ → Prop
  | init {s : σ} : S.init s → Reachable S s
  | step {s t : σ} {l : ι} : Reachable S s → S.step s l t → Reachable S t

/-- `t` is reached from `s` by some finite sequence of steps. -/
inductive Reaches (S : System σ ι) (s : σ) : σ → Prop
  | refl : Reaches S s s
  | step {t u : σ} {l : ι} : Reaches S s t → S.step t l u → Reaches S s u

theorem Reaches.reachable {S : System σ ι} {s t : σ} (hs : S.Reachable s)
    (h : S.Reaches s t) : S.Reachable t := by
  induction h with
  | refl => exact hs
  | step _ hstep ih => exact .step ih hstep

/-! ## Invariants -/

/-- `P` holds initially and is kept by every step. -/
structure Invariant (S : System σ ι) (P : σ → Prop) : Prop where
  init : ∀ {s : σ}, S.init s → P s
  step : ∀ {s t : σ} {l : ι}, P s → S.step s l t → P t

theorem Invariant.reachable {S : System σ ι} {P : σ → Prop}
    (h : S.Invariant P) {s : σ} (hs : S.Reachable s) : P s := by
  induction hs with
  | init hinit => exact h.init hinit
  | step _ hstep ih => exact h.step ih hstep

/-- What no step of a run undoes, the whole run keeps. -/
theorem Reaches.lift {S : System σ ι} {R : σ → σ → Prop}
    (hrefl : ∀ s : σ, R s s)
    (htrans : ∀ {s t u : σ}, R s t → R t u → R s u)
    (hstep : ∀ {s t : σ} {l : ι}, S.Reachable s → S.step s l t → R s t)
    {s t : σ} (hs : S.Reachable s) (h : S.Reaches s t) : R s t := by
  induction h with
  | refl => exact hrefl s
  | step hst hu ih => exact htrans ih (hstep (hst.reachable hs) hu)

/-! ## Runs whose steps meet a condition -/

/-- The system that takes only the steps of `S` meeting `ok`, a condition on
the state before the step and on its label. -/
def restrict (S : System σ ι) (ok : σ → ι → Prop) : System σ ι where
  init := S.init
  step s l t := ok s l ∧ S.step s l t

/-- A condition that every step meets restricts nothing. -/
theorem Reachable.restrict {S : System σ ι} {ok : σ → ι → Prop} (hok : ∀ s l, ok s l)
    {s : σ} (h : S.Reachable s) : (S.restrict ok).Reachable s := by
  induction h with
  | init hinit => exact .init hinit
  | step _ hstep ih => exact .step ih ⟨hok _ _, hstep⟩

theorem Reaches.restrict {S : System σ ι} {ok : σ → ι → Prop} (hok : ∀ s l, ok s l)
    {s t : σ} (h : S.Reaches s t) : (S.restrict ok).Reaches s t := by
  induction h with
  | refl => exact .refl
  | step _ hstep ih => exact .step ih ⟨hok _ _, hstep⟩

theorem Reachable.of_restrict {S : System σ ι} {ok : σ → ι → Prop} {s : σ}
    (h : (S.restrict ok).Reachable s) : S.Reachable s := by
  induction h with
  | init hinit => exact .init hinit
  | step _ hstep ih => exact .step ih hstep.2

end System

/-- A transition system whose steps are computed: the state a label leads to,
if that label is enabled. -/
structure Machine (σ ι : Type) where
  init : σ → Prop
  next : σ → ι → Option σ

namespace Machine

variable {σ ι : Type}

/-- The relation a machine computes. -/
def system (M : Machine σ ι) : System σ ι where
  init := M.init
  step s l t := M.next s l = some t

/-- Follow a list of labels, as far as every one of them is enabled. -/
def exec (M : Machine σ ι) : List ι → σ → Option σ
  | [], s => some s
  | l :: ls, s => (M.next s l).bind (M.exec ls)

@[simp] theorem exec_nil (M : Machine σ ι) (s : σ) : M.exec [] s = some s := rfl

@[simp] theorem exec_cons (M : Machine σ ι) (l : ι) (ls : List ι) (s : σ) :
    M.exec (l :: ls) s = (M.next s l).bind (M.exec ls) := rfl

/-- An executed list of labels is a run. -/
theorem reachable_of_exec {M : Machine σ ι} :
    ∀ {ls : List ι} {s t : σ},
      M.system.Reachable s → M.exec ls s = some t → M.system.Reachable t
  | [], s, t, hs, h => by
      cases h
      exact hs
  | l :: ls, s, t, hs, h => by
      rw [exec_cons, Option.bind_eq_some_iff] at h
      obtain ⟨u, hstep, hrest⟩ := h
      exact reachable_of_exec (.step hs hstep) hrest

/-- An executed list of labels leads on from where a run has come. -/
theorem reaches_of_exec {M : Machine σ ι} {ls : List ι} {s t u : σ}
    (h : M.system.Reaches s t) (hexec : M.exec ls t = some u) : M.system.Reaches s u := by
  induction ls generalizing t with
  | nil =>
    cases hexec
    exact h
  | cons l ls ih =>
    rw [exec_cons, Option.bind_eq_some_iff] at hexec
    obtain ⟨v, hstep, hrest⟩ := hexec
    exact ih (h.step hstep) hrest

/-- A run computed from a reachable state, and something seen where it ends. -/
theorem exists_reachable_of_exec {M : Machine σ ι} {s : σ} (hs : M.init s)
    (ls : List ι) (view : σ → Bool)
    (h : (M.exec ls s).any view = true) :
    ∃ t, M.system.Reachable t ∧ view t = true := by
  obtain ⟨t, hexec, hview⟩ := (Option.any_eq_true view _).mp h
  exact ⟨t, reachable_of_exec (.init hs) hexec, hview⟩

/-- The machine that takes only the steps a check lets through. -/
def guard (M : Machine σ ι) (check : σ → ι → Bool) : Machine σ ι where
  init := M.init
  next s l := if check s l then M.next s l else none

/-- A list of labels that all pass a check is a run of the system the check
stands for, in the states that the checked steps keep to. -/
theorem reachable_of_exec_keep {M : Machine σ ι} {check : σ → ι → Bool}
    {ok : σ → ι → Prop} {keep : σ → Prop}
    (hkeep : ∀ s l t, keep s → check s l = true → M.next s l = some t → keep t)
    (hcheck : ∀ s l, keep s → check s l = true → ok s l) :
    ∀ {ls : List ι} {s t : σ}, keep s → (M.system.restrict ok).Reachable s →
      (M.guard check).exec ls s = some t → (M.system.restrict ok).Reachable t
  | [], s, t, _, hs, h => by
      cases h
      exact hs
  | l :: ls, s, t, hkept, hs, h => by
      rw [exec_cons, Option.bind_eq_some_iff] at h
      obtain ⟨u, hstep, hrest⟩ := h
      simp only [guard] at hstep
      split at hstep
      next hpass =>
        exact reachable_of_exec_keep hkeep hcheck (hkeep s l u hkept hpass hstep)
          (.step hs ⟨hcheck s l hkept hpass, hstep⟩) hrest
      next => cases hstep

theorem exists_reachable_of_exec_keep {M : Machine σ ι} {check : σ → ι → Bool}
    {ok : σ → ι → Prop} {keep : σ → Prop}
    (hkeep : ∀ s l t, keep s → check s l = true → M.next s l = some t → keep t)
    (hcheck : ∀ s l, keep s → check s l = true → ok s l)
    {s : σ} (hs : M.init s) (hkept : keep s) (ls : List ι) (view : σ → Bool)
    (h : ((M.guard check).exec ls s).any view = true) :
    ∃ t, (M.system.restrict ok).Reachable t ∧ view t = true := by
  obtain ⟨t, hexec, hview⟩ := (Option.any_eq_true view _).mp h
  exact ⟨t, reachable_of_exec_keep hkeep hcheck hkept (.init hs) hexec, hview⟩

/-- A check that stands for its system in every state. -/
theorem reachable_of_exec_guard {M : Machine σ ι} {check : σ → ι → Bool}
    {ok : σ → ι → Prop} (hcheck : ∀ s l, check s l = true → ok s l) {ls : List ι} {s t : σ}
    (hs : (M.system.restrict ok).Reachable s) (h : (M.guard check).exec ls s = some t) :
    (M.system.restrict ok).Reachable t :=
  @reachable_of_exec_keep _ _ M check ok (fun _ => True) (fun _ _ _ _ _ _ => trivial)
    (fun s l _ => hcheck s l) ls s t trivial hs h

theorem exists_reachable_of_exec_guard {M : Machine σ ι} {check : σ → ι → Bool}
    {ok : σ → ι → Prop} (hcheck : ∀ s l, check s l = true → ok s l)
    {s : σ} (hs : M.init s) (ls : List ι) (view : σ → Bool)
    (h : ((M.guard check).exec ls s).any view = true) :
    ∃ t, (M.system.restrict ok).Reachable t ∧ view t = true := by
  obtain ⟨t, hexec, hview⟩ := (Option.any_eq_true view _).mp h
  exact ⟨t, reachable_of_exec_guard hcheck (.init hs) hexec, hview⟩

theorem reaches_of_exec_guard {M : Machine σ ι} {check : σ → ι → Bool} {ok : σ → ι → Prop}
    (hcheck : ∀ s l, check s l = true → ok s l) {ls : List ι} {s t u : σ}
    (h : (M.system.restrict ok).Reaches s t) (hexec : (M.guard check).exec ls t = some u) :
    (M.system.restrict ok).Reaches s u := by
  induction ls generalizing t with
  | nil =>
    cases hexec
    exact h
  | cons l ls ih =>
    rw [exec_cons, Option.bind_eq_some_iff] at hexec
    obtain ⟨v, hstep, hrest⟩ := hexec
    simp only [guard] at hstep
    split at hstep
    next hpass => exact ih (h.step ⟨hcheck t l hpass, hstep⟩) hrest
    next => cases hstep

end Machine

end Opca.Foundation

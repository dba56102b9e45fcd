/-
  Foundation/Concurrent.lean --- programs that run beside each other over one state: each
  is a tree of atomic actions, and what it relies on of the others, what it guarantees
  them and what it answers are proved of it alone.

  A pool interleaves the actions of any number of programs with the environment's own.
  What each program guarantees then holds of each of its actions in every run.
-/
import Opca.Foundation.Machine
import Mathlib.Data.List.Basic

set_option autoImplicit false

namespace Opca.Foundation

/-! ## Programs -/

/-- A program over a state that others change between its actions.  An action reads and
changes the state at once, given what comes from outside at that moment. -/
inductive Prog (σ ι α : Type) where
  | ret (a : α)
  | act (f : σ → ι → σ) (k : σ → ι → Prog σ ι α)

namespace Prog

variable {σ ι α β ε : Type}

def bind : Prog σ ι α → (α → Prog σ ι β) → Prog σ ι β
  | ret a, g => g a
  | act f k, g => act f fun s i => (k s i).bind g

instance : Monad (Prog σ ι) where
  pure := ret
  bind := bind

/-- One action. -/
def atomic (f : σ → ι → σ × α) : Prog σ ι α :=
  act (fun s i => (f s i).1) fun s i => ret (f s i).2

/-! ## What a program relies on and guarantees -/

/-- From `s` on, while the others keep to `R`, each action keeps to `G` and every answer
meets `Q`. -/
def Safe (R G : σ → σ → Prop) (Q : α → σ → Prop) : Prog σ ι α → σ → Prop
  | ret a, s => ∀ t, R s t → Q a t
  | act f k, s => ∀ t i, R s t → G t (f t i) ∧ Safe R G Q (k t i) (f t i)

/-- What is relied on holds of nothing done and of one thing after another, and of what is
guaranteed. -/
structure Relies (R G : σ → σ → Prop) : Prop where
  refl : ∀ s : σ, R s s
  trans : ∀ {s t u : σ}, R s t → R t u → R s u
  guarantee : ∀ {s t : σ}, G s t → R s t

variable {R G : σ → σ → Prop} {Q : α → σ → Prop} {s t : σ}

/-- What the others do between two actions changes nothing of it. -/
theorem Safe.rely (hR : Relies R G) {p : Prog σ ι α} (h : p.Safe R G Q s) (hst : R s t) :
    p.Safe R G Q t := by
  cases p with
  | ret a =>
    intro u htu
    exact h u (hR.trans hst htu)
  | act f k =>
    intro u i htu
    exact h u i (hR.trans hst htu)

theorem Safe.mono {Q' : α → σ → Prop} (hQ : ∀ a t, Q a t → Q' a t) {p : Prog σ ι α}
    (h : p.Safe R G Q s) : p.Safe R G Q' s := by
  induction p generalizing s with
  | ret a =>
    intro t hst
    exact hQ a t (h t hst)
  | act f k ih =>
    intro t i hst
    obtain ⟨hG, hk⟩ := h t i hst
    exact ⟨hG, ih t i hk⟩

/-- From the start to the end of a program no more happens than what is relied on. -/
theorem Safe.frame (hR : Relies R G) {p : Prog σ ι α} (h : p.Safe R G Q s) :
    p.Safe R G (fun a t => Q a t ∧ R s t) s := by
  induction p generalizing s with
  | ret a =>
    intro t hst
    exact ⟨h t hst, hst⟩
  | act f k ih =>
    intro t i hst
    obtain ⟨hG, hk⟩ := h t i hst
    refine ⟨hG, (ih t i hk).mono ?_⟩
    intro a u hu
    exact ⟨hu.1, hR.trans hst (hR.trans (hR.guarantee hG) hu.2)⟩

theorem Safe.andThen {Q' : β → σ → Prop} (hR : Relies R G) {p : Prog σ ι α}
    {g : α → Prog σ ι β} (h : p.Safe R G Q s) (hg : ∀ a t, Q a t → (g a).Safe R G Q' t) :
    (p.bind g).Safe R G Q' s := by
  induction p generalizing s with
  | ret a => exact hg a s (h s (hR.refl s))
  | act f k ih =>
    intro t i hst
    obtain ⟨hG, hk⟩ := h t i hst
    exact ⟨hG, ih t i hk⟩

/-- What is known before the first program is still to be had after it, by what came
between. -/
theorem Safe.bind {Q' : β → σ → Prop} (hR : Relies R G) {p : Prog σ ι α}
    {g : α → Prog σ ι β} (h : p.Safe R G Q s)
    (hg : ∀ a t, R s t → Q a t → (g a).Safe R G Q' t) : (p.bind g).Safe R G Q' s := by
  apply Safe.andThen hR (h.frame hR)
  intro a t hat
  exact hg a t hat.2 hat.1

/-! ## Programs that may fail -/

/-- What holds of an answer that is no refusal. -/
def Answers (Q : α → σ → Prop) : Except ε α → σ → Prop
  | .ok a, s => Q a s
  | .error _, _ => True

/-- `Safe` for a program that may refuse, which it may at any time. -/
def Yields (R G : σ → σ → Prop) (Q : α → σ → Prop) (p : ExceptT ε (Prog σ ι) α) (s : σ) :
    Prop :=
  Safe R G (Answers Q) p.run s

theorem Yields.bind {Q' : β → σ → Prop} (hR : Relies R G)
    {p : ExceptT ε (Prog σ ι) α} {g : α → ExceptT ε (Prog σ ι) β} (h : Yields R G Q p s)
    (hg : ∀ a t, R s t → Q a t → Yields R G Q' (g a) t) : Yields R G Q' (p >>= g) s := by
  refine Safe.bind hR h ?_
  intro result t hst hresult
  cases result with
  | ok a => exact hg a t hst hresult
  | error e =>
    intro u _
    trivial

theorem Yields.mono {Q' : α → σ → Prop} {p : ExceptT ε (Prog σ ι) α}
    (h : Yields R G Q p s) (hQ : ∀ a t, Q a t → Q' a t) : Yields R G Q' p s := by
  apply Safe.mono _ h
  intro result t hresult
  cases result with
  | ok a => exact hQ a t hresult
  | error e => trivial

theorem Yields.pure {a : α} (h : ∀ t, R s t → Q a t) :
    Yields R G Q (Pure.pure a : ExceptT ε (Prog σ ι) α) s := h

theorem Yields.throw {e : ε} : Yields R G Q (throw e : ExceptT ε (Prog σ ι) α) s := by
  intro t _
  trivial

/-- What was computed without the state. -/
def settled (result : Except ε α) : ExceptT ε (Prog σ ι) α := ExceptT.mk (ret result)

theorem Yields.settled {result : Except ε α} (h : ∀ a, result = .ok a → ∀ t, R s t → Q a t) :
    Yields R G Q (Prog.settled result : ExceptT ε (Prog σ ι) α) s := by
  intro t hst
  cases result with
  | ok a => exact h a rfl t hst
  | error e => trivial

/-- One action that may refuse. -/
def attempt (f : σ → ι → σ × Except ε α) : ExceptT ε (Prog σ ι) α := ExceptT.mk (atomic f)

theorem Yields.attempt {f : σ → ι → σ × Except ε α}
    (h : ∀ t i, R s t → G t (f t i).1 ∧
      ∀ a, (f t i).2 = .ok a → ∀ u, R (f t i).1 u → Q a u) :
    Yields R G Q (Prog.attempt f) s := by
  intro t i hst
  obtain ⟨hG, hQ⟩ := h t i hst
  refine ⟨hG, ?_⟩
  intro u hu
  cases hresult : (f t i).2 with
  | ok a => exact hQ a hresult u hu
  | error e => trivial

/-! ## What a program has begun -/

section Owing

variable {κ : Type}

/-- Each action is as `A` says, and leaves nothing undone but what the program owes after
it; what it owes its next action is for, and when it ends `Q` says of its answer what it
still owes. -/
def Owes (A : σ → σ → Prop) (undone : σ → κ → Prop) (due : (σ → ι → σ) → κ → Prop)
    (Q : α → Option κ → Prop) : Prog σ ι α → Option κ → Prop
  | ret a, owed => Q a owed
  | act f k, owed => (∀ x ∈ owed, due f x) ∧ ∀ s i, A s (f s i) ∧ ∃ owed',
      (∀ x, undone (f s i) x → x ∈ owed' ∨ undone s x ∧ x ∉ owed) ∧
      Owes A undone due Q (k s i) owed'

variable {A : σ → σ → Prop} {undone : σ → κ → Prop} {due : (σ → ι → σ) → κ → Prop}
  {q : α → Option κ → Prop} {owed : Option κ}

theorem Owes.bind {q' : β → Option κ → Prop} {p : Prog σ ι α} {g : α → Prog σ ι β}
    (h : p.Owes A undone due q owed)
    (hg : ∀ a owed, q a owed → (g a).Owes A undone due q' owed) :
    (p.bind g).Owes A undone due q' owed := by
  induction p generalizing owed with
  | ret a => exact hg a owed h
  | act f k ih =>
    obtain ⟨hdue, hact⟩ := h
    refine ⟨hdue, ?_⟩
    intro s i
    obtain ⟨hA, owed', hundone, hk⟩ := hact s i
    exact ⟨hA, owed', hundone, ih s i hk⟩

/-- An action that leaves nothing more undone. -/
theorem Owes.atomic {f : σ → ι → σ × α}
    (h : ∀ s i, A s (f s i).1 ∧ (∀ x, undone (f s i).1 x → undone s x) ∧ q (f s i).2 none) :
    (Prog.atomic f).Owes A undone due q none := by
  refine ⟨by simp, ?_⟩
  intro s i
  obtain ⟨hA, hundone, hq⟩ := h s i
  exact ⟨hA, none, fun x hx => .inr ⟨hundone x hx, by simp⟩, hq⟩

end Owing

end Prog

/-! ## Pools -/

/-- A state, the programs under way over it, and the answers given; no one keeps these. -/
structure Pool (σ ι τ α : Type) where
  state : σ
  threads : List (τ × Prog σ ι α)
  answers : List (τ × α)

inductive PoolLabel (ι τ κ : Type) where
  /-- A program is started. -/
  | start (tag : τ)
  /-- The program at a place does what it does next. -/
  | run (place : Nat) (input : ι)
  /-- The program at a place goes no further. -/
  | abandon (place : Nat)
  | environment (event : κ)

section Pool

variable {σ ι τ κ α : Type}

/-- Programs started at will, each with its tag, beside the environment's own events. -/
def poolMachine (init : σ → Prop) (program : τ → Prog σ ι α) (event : σ → κ → Option σ) :
    Machine (Pool σ ι τ α) (PoolLabel ι τ κ) where
  init p := init p.state ∧ p.threads = [] ∧ p.answers = []
  next p
    | .start tag => some { p with threads := p.threads ++ [(tag, program tag)] }
    | .run place input =>
      (p.threads[place]?).map fun
        | (tag, .ret a) => { p with
            threads := p.threads.eraseIdx place
            answers := p.answers ++ [(tag, a)] }
        | (tag, .act f k) => { p with
            state := f p.state input
            threads := p.threads.set place (tag, k p.state input) }
    | .abandon place => some { p with threads := p.threads.eraseIdx place }
    | .environment e => (event p.state e).map fun state => { p with state }

/-- Programs that keep to what they guarantee each other, and an environment that keeps to
what they rely on. -/
structure Disciplined (init : σ → Prop) (program : τ → Prog σ ι α)
    (event : σ → κ → Option σ) (I : σ → Prop) (R : σ → σ → Prop) (G : τ → σ → σ → Prop)
    (Q : τ → α → σ → Prop) : Prop where
  refl : ∀ s : σ, R s s
  trans : ∀ {s t u : σ}, R s t → R t u → R s u
  start : ∀ {s : σ}, init s → I s
  kept : ∀ {s t : σ}, I s → R s t → I t
  guarantee : ∀ {tag : τ} {s t : σ}, G tag s t → R s t
  event : ∀ {s t : σ} {e : κ}, event s e = some t → R s t
  safe : ∀ (tag : τ) {s : σ}, I s → (program tag).Safe R (G tag) (Q tag) s
  /-- What an answer says stays so. -/
  stable : ∀ {tag : τ} {a : α} {s t : σ}, Q tag a s → R s t → Q tag a t

variable {init : σ → Prop} {program : τ → Prog σ ι α} {event : σ → κ → Option σ}
  {I : σ → Prop} {R : σ → σ → Prop} {G : τ → σ → σ → Prop} {Q : τ → α → σ → Prop}
  {p q : Pool σ ι τ α}

theorem Disciplined.relies (hd : Disciplined init program event I R G Q) (tag : τ) :
    Prog.Relies R (G tag) where
  refl := hd.refl
  trans := hd.trans
  guarantee := hd.guarantee

/-- Every program under way is safe from here on. -/
structure Pool.Kept (I : σ → Prop) (R : σ → σ → Prop) (G : τ → σ → σ → Prop)
    (Q : τ → α → σ → Prop) (p : Pool σ ι τ α) : Prop where
  state : I p.state
  threads : ∀ thread ∈ p.threads, thread.2.Safe R (G thread.1) (Q thread.1) p.state
  answers : ∀ answer ∈ p.answers, Q answer.1 answer.2 p.state

/-- A change of the state that all of them rely on, of no thread. -/
theorem Pool.Kept.rely (hd : Disciplined init program event I R G Q) (h : p.Kept I R G Q)
    {state : σ} (hR : R p.state state) : Pool.Kept I R G Q { p with state } where
  state := hd.kept h.state hR
  threads thread hmem := (h.threads thread hmem).rely (hd.relies thread.1) hR
  answers answer hmem := hd.stable (h.answers answer hmem) hR

theorem mem_of_mem_eraseIdx {β : Type} {l : List β} {n : Nat} {b : β}
    (h : b ∈ l.eraseIdx n) : b ∈ l :=
  (List.eraseIdx_sublist l n).subset h

theorem mem_eraseIdx_of_ne {β : Type} {l : List β} {n : Nat} {b : β} (h : b ∈ l)
    (hne : l[n]? ≠ some b) : b ∈ l.eraseIdx n := by
  obtain ⟨m, hm⟩ := List.getElem?_of_mem h
  refine List.mem_eraseIdx_iff_getElem?.mpr ⟨m, ?_, hm⟩
  rintro rfl
  exact hne hm

theorem Pool.Kept.step (hd : Disciplined init program event I R G Q) (h : p.Kept I R G Q)
    {l : PoolLabel ι τ κ} (hstep : (poolMachine init program event).next p l = some q) :
    q.Kept I R G Q := by
  cases l with
  | start tag =>
    cases hstep
    refine ⟨h.state, ?_, h.answers⟩
    intro thread hmem
    rcases List.mem_append.mp hmem with hold | hnew
    · exact h.threads thread hold
    · rw [List.mem_singleton.mp hnew]
      exact hd.safe tag h.state
  | run place input =>
    obtain ⟨⟨tag, program⟩, hget, hstep⟩ := Option.map_eq_some_iff.mp hstep
    have hmem := List.mem_of_getElem? hget
    have hsafe := h.threads _ hmem
    cases program with
    | ret a =>
      cases hstep
      refine ⟨h.state, ?_, ?_⟩
      · intro thread hthread
        exact h.threads thread (mem_of_mem_eraseIdx hthread)
      · intro answer hanswer
        rcases List.mem_append.mp hanswer with hold | hnew
        · exact h.answers answer hold
        · rw [List.mem_singleton.mp hnew]
          exact hsafe p.state (hd.refl p.state)
    | act f k =>
      cases hstep
      obtain ⟨hG, hk⟩ := hsafe p.state input (hd.refl p.state)
      have hrest := h.rely hd (hd.guarantee hG)
      refine ⟨hrest.state, ?_, hrest.answers⟩
      intro thread hthread
      rcases List.mem_or_eq_of_mem_set hthread with hold | rfl
      · exact hrest.threads thread hold
      · exact hk
  | abandon place =>
    cases hstep
    refine ⟨h.state, ?_, h.answers⟩
    intro thread hthread
    exact h.threads thread (mem_of_mem_eraseIdx hthread)
  | environment e =>
    obtain ⟨state, hevent, rfl⟩ := Option.map_eq_some_iff.mp hstep
    exact h.rely hd (hd.event hevent)

/-- In every run, whatever is interleaved with whatever. -/
theorem Pool.kept (hd : Disciplined init program event I R G Q)
    (hp : (poolMachine init program event).system.Reachable p) : p.Kept I R G Q := by
  have hinv : (poolMachine init program event).system.Invariant (Pool.Kept I R G Q) := by
    refine ⟨?_, fun h hstep => h.step hd hstep⟩
    intro p hinit
    obtain ⟨hstate, hthreads, hanswers⟩ := hinit
    refine ⟨hd.start hstate, ?_, ?_⟩
    · rw [hthreads]
      simp
    · rw [hanswers]
      simp
  exact hinv.reachable hp

/-- A step does nothing to the state, or is an action that its program guarantees, or an
event. -/
theorem Pool.step_cases (hd : Disciplined init program event I R G Q)
    (hp : (poolMachine init program event).system.Reachable p) {l : PoolLabel ι τ κ}
    (hstep : (poolMachine init program event).next p l = some q) :
    q.state = p.state ∨
      (∃ place input thread, l = .run place input ∧ p.threads[place]? = some thread ∧
        G thread.1 p.state q.state) ∨
      ∃ e, l = .environment e ∧ event p.state e = some q.state := by
  have hkept := Pool.kept hd hp
  cases l with
  | start tag =>
    cases hstep
    exact .inl rfl
  | run place input =>
    obtain ⟨⟨tag, program⟩, hget, hstep⟩ := Option.map_eq_some_iff.mp hstep
    cases program with
    | ret a =>
      cases hstep
      exact .inl rfl
    | act f k =>
      cases hstep
      have hsafe := hkept.threads _ (List.mem_of_getElem? hget)
      obtain ⟨hG, -⟩ := hsafe p.state input (hd.refl p.state)
      exact .inr (.inl ⟨place, input, _, rfl, hget, hG⟩)
  | abandon place =>
    cases hstep
    exact .inl rfl
  | environment e =>
    obtain ⟨state, hevent, rfl⟩ := Option.map_eq_some_iff.mp hstep
    exact .inr (.inr ⟨e, rfl, hevent⟩)

/-- What the programs rely on holds between any two states of a run. -/
theorem Pool.reaches (hd : Disciplined init program event I R G Q)
    (hp : (poolMachine init program event).system.Reachable p)
    (hpq : (poolMachine init program event).system.Reaches p q) : R p.state q.state := by
  refine System.Reaches.lift (R := fun p q => R p.state q.state) (fun p => hd.refl p.state)
    hd.trans ?_ hp hpq
  intro p q l hreach hstep
  rcases Pool.step_cases hd hreach hstep with hsame | ⟨place, input, thread, -, -, hG⟩ |
    ⟨e, -, hevent⟩
  · rw [hsame]
    exact hd.refl p.state
  · exact hd.guarantee hG
  · exact hd.event hevent

/-! ### What is owed in a pool -/

section Owed

variable {χ : Type} {A : σ → σ → Prop} {undone : σ → χ → Prop} {due : (σ → ι → σ) → χ → Prop}

/-- A program that ends with nothing owed. -/
def Honest (A : σ → σ → Prop) (undone : σ → χ → Prop) (due : (σ → ι → σ) → χ → Prop)
    (owed : Option χ) (program : Prog σ ι α) : Prop :=
  program.Owes A undone due (fun _ owed => owed = none) owed

/-- Each program under way owes something or nothing. -/
def Pool.Honest (A : σ → σ → Prop) (undone : σ → χ → Prop) (due : (σ → ι → σ) → χ → Prop)
    (p : Pool σ ι τ α) : Prop :=
  ∀ thread ∈ p.threads, ∃ owed, Foundation.Honest A undone due owed thread.2

/-- Whatever is undone, a program under way owes. -/
def Pool.Settled (A : σ → σ → Prop) (undone : σ → χ → Prop) (due : (σ → ι → σ) → χ → Prop)
    (p : Pool σ ι τ α) : Prop :=
  ∀ x, undone p.state x → ∃ thread ∈ p.threads, Foundation.Honest A undone due (some x) thread.2

theorem Pool.Honest.step (hprogram : ∀ tag, Foundation.Honest A undone due none (program tag))
    (h : p.Honest A undone due) {l : PoolLabel ι τ κ}
    (hstep : (poolMachine init program event).next p l = some q) : q.Honest A undone due := by
  cases l with
  | start tag =>
    cases hstep
    intro thread hmem
    rcases List.mem_append.mp hmem with hold | hnew
    · exact h thread hold
    · rw [List.mem_singleton.mp hnew]
      exact ⟨none, hprogram tag⟩
  | run place input =>
    obtain ⟨⟨tag, current⟩, hget, hstep⟩ := Option.map_eq_some_iff.mp hstep
    obtain ⟨owed, howed⟩ := h _ (List.mem_of_getElem? hget)
    cases current with
    | ret a =>
      cases hstep
      intro thread hthread
      exact h thread (mem_of_mem_eraseIdx hthread)
    | act f k =>
      cases hstep
      obtain ⟨-, owed', -, hk⟩ := howed.2 p.state input
      intro thread hthread
      rcases List.mem_or_eq_of_mem_set hthread with hold | rfl
      · exact h thread hold
      · exact ⟨owed', hk⟩
  | abandon place =>
    cases hstep
    intro thread hthread
    exact h thread (mem_of_mem_eraseIdx hthread)
  | environment e =>
    obtain ⟨state, -, rfl⟩ := Option.map_eq_some_iff.mp hstep
    exact h

/-- An action is as `A` says. -/
theorem Pool.Honest.action (h : p.Honest A undone due) {place : Nat} {input : ι}
    (hstep : (poolMachine init program event).next p (.run place input) = some q) :
    q.state = p.state ∨ A p.state q.state := by
  obtain ⟨⟨tag, current⟩, hget, hstep⟩ := Option.map_eq_some_iff.mp hstep
  obtain ⟨owed, howed⟩ := h _ (List.mem_of_getElem? hget)
  cases current with
  | ret a =>
    cases hstep
    exact .inl rfl
  | act f k =>
    cases hstep
    exact .inr (howed.2 p.state input).1

/-- What is undone is owed still, if no program that owes it is abandoned and no event
leaves anything else undone. -/
theorem Pool.Settled.step (hall : p.Honest A undone due) (h : p.Settled A undone due)
    {l : PoolLabel ι τ κ} (hstep : (poolMachine init program event).next p l = some q)
    (habandon : ∀ place, l = .abandon place → ∀ thread, p.threads[place]? = some thread →
      ∀ x, undone p.state x → ¬ Foundation.Honest A undone due (some x) thread.2)
    (hevent : ∀ e, l = .environment e → ∀ x, undone q.state x → undone p.state x) :
    q.Settled A undone due := by
  intro x hx
  cases l with
  | start tag =>
    cases hstep
    obtain ⟨thread, hthread, howes⟩ := h x hx
    exact ⟨thread, List.mem_append_left _ hthread, howes⟩
  | run place input =>
    obtain ⟨⟨tag, current⟩, hget, hstep⟩ := Option.map_eq_some_iff.mp hstep
    have hmem := List.mem_of_getElem? hget
    cases current with
    | ret a =>
      cases hstep
      obtain ⟨thread, hthread, howes⟩ := h x hx
      -- a program that has ended owes nothing
      have hother : thread ≠ (tag, .ret a) := by
        rintro rfl
        cases howes
      refine ⟨thread, mem_eraseIdx_of_ne hthread ?_, howes⟩
      intro hsame
      rw [hget] at hsame
      exact hother (Option.some_inj.mp hsame).symm
    | act f k =>
      cases hstep
      have hset : (tag, k p.state input) ∈ p.threads.set place (tag, k p.state input) := by
        have hlt := (List.getElem?_eq_some_iff.mp hget).1
        exact List.mem_set hlt _
      have hpaid {owed : Option χ}
          (howed : Foundation.Honest A undone due owed (.act f k : Prog σ ι α))
          (hhere : undone p.state x → x ∈ owed) :
          Foundation.Honest A undone due (some x) (k p.state input) := by
        obtain ⟨-, owed', hundone, hk⟩ := howed.2 p.state input
        rcases hundone x hx with howes | ⟨hbefore, hnot⟩
        · rw [Option.mem_def.mp howes] at hk
          exact hk
        · exact absurd (hhere hbefore) hnot
      by_cases hbefore : undone p.state x
      · obtain ⟨thread, hthread, howes⟩ := h x hbefore
        obtain ⟨place', hplace'⟩ := List.getElem?_of_mem hthread
        by_cases hsame : place' = place
        · rw [hsame, hget] at hplace'
          cases hplace'
          exact ⟨_, hset, hpaid howes fun _ => rfl⟩
        · refine ⟨thread, List.mem_of_getElem? (i := place') ?_, howes⟩
          rw [List.getElem?_set_ne (Ne.symm hsame)]
          exact hplace'
      · obtain ⟨owed, howed⟩ := hall _ hmem
        exact ⟨_, hset, hpaid howed fun hnow => absurd hnow hbefore⟩
  | abandon place =>
    cases hstep
    obtain ⟨thread, hthread, howes⟩ := h x hx
    refine ⟨thread, mem_eraseIdx_of_ne hthread ?_, howes⟩
    intro hsame
    exact habandon place rfl thread hsame x hx howes
  | environment e =>
    obtain ⟨state, -, rfl⟩ := Option.map_eq_some_iff.mp hstep
    exact h x (hevent e rfl x hx)

/-- What a program owes, its next action is for. -/
theorem Honest.action_due {x : χ} {program : Prog σ ι α}
    (h : Foundation.Honest A undone due (some x) program) :
    ∃ f k, program = .act f k ∧ due f x := by
  cases program with
  | ret a => cases h
  | act f k => exact ⟨f, k, rfl, h.1 x rfl⟩

end Owed

end Pool

end Opca.Foundation

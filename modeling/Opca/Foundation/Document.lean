/-
  Foundation/Document.lean --- a document that is read and written whole, by sessions
  that each keep a copy of it in memory and work on that.

  A session that stores puts its whole copy in the document's place.  What is proved
  here is what storing only copies that no other session has stored over keeps: the
  document is what all that was done to it makes of it, one thing after the other.
-/
import Opca.Foundation.Machine
import Mathlib.Data.List.Induction

set_option autoImplicit false

namespace Opca.Foundation

/-- How a document is read into memory, worked on and written.  An operation that fails
has no result, and may leave the copy changed. -/
structure Editor (δ α ι ρ : Type) where
  load : δ → α
  dump : α → δ
  dump_load : ∀ d, dump (load d) = d
  run : ι → α → α × Option ρ

/-- What was done to a copy. -/
inductive Entry (ι ρ : Type) where
  | loaded
  | ran (op : ι) (result : Option ρ)
  deriving DecidableEq, Repr

namespace Editor

variable {δ α ι ρ : Type}

/-- What a first document becomes by all that was done to it, in order; every operation
met `ok` on the copy that it ran on. -/
inductive History (E : Editor δ α ι ρ) (ok : ι → α → Prop) (first : δ) :
    List (Entry ι ρ) → α → Prop
  | start : History E ok first [] (E.load first)
  | loaded {log : List (Entry ι ρ)} {a : α} : History E ok first log a →
      History E ok first (log ++ [.loaded]) (E.load (E.dump a))
  | ran {log : List (Entry ι ρ)} {a : α} (op : ι) : ok op a → History E ok first log a →
      History E ok first (log ++ [.ran op (E.run op a).2]) (E.run op a).1

variable {E : Editor δ α ι ρ} {ok : ι → α → Prop} {first : δ}
  {log more : List (Entry ι ρ)} {a b : α} {entry : Entry ι ρ}

/-- How the last entry came about. -/
theorem History.of_append_singleton (h : E.History ok first (log ++ [entry]) b) :
    ∃ a, E.History ok first log a ∧
      ((entry = .loaded ∧ b = E.load (E.dump a)) ∨
        ∃ op, ok op a ∧ entry = .ran op (E.run op a).2 ∧ b = (E.run op a).1) := by
  generalize hlog : log ++ [entry] = whole at h
  cases h with
  | start => simp at hlog
  | loaded ha =>
    obtain ⟨rfl, hentry⟩ := List.append_inj' hlog rfl
    cases hentry
    exact ⟨_, ha, Or.inl ⟨rfl, rfl⟩⟩
  | ran op hok ha =>
    obtain ⟨rfl, hentry⟩ := List.append_inj' hlog rfl
    cases hentry
    exact ⟨_, ha, Or.inr ⟨op, hok, rfl, rfl⟩⟩

theorem History.unique (ha : E.History ok first log a) (hb : E.History ok first log b) :
    a = b := by
  induction ha generalizing b with
  | start =>
    generalize hlog : ([] : List (Entry ι ρ)) = log at hb
    cases hb with
    | start => rfl
    | loaded _ => simp at hlog
    | ran _ _ _ => simp at hlog
  | loaded _ ih =>
    obtain ⟨c, hc, ⟨-, rfl⟩ | ⟨op, -, hentry, -⟩⟩ := hb.of_append_singleton
    · rw [ih hc]
    · cases hentry
  | ran op _ _ ih =>
    obtain ⟨c, hc, ⟨hentry, -⟩ | ⟨op', -, hentry, rfl⟩⟩ := hb.of_append_singleton
    · cases hentry
    · rw [(Entry.ran.inj hentry).1, ih hc]

theorem History.imp {ok' : ι → α → Prop} (hok : ∀ op a, ok op a → ok' op a)
    (h : E.History ok first log a) : E.History ok' first log a := by
  induction h with
  | start => exact .start
  | loaded _ ih => exact .loaded ih
  | ran op hop _ ih => exact .ran op (hok op _ hop) ih

/-- What neither an operation nor a reading undoes, no longer history does. -/
theorem History.lift {R : α → α → Prop} (hrefl : ∀ a, R a a)
    (htrans : ∀ {a b c}, R a b → R b c → R a c) (hload : ∀ a, R a (E.load (E.dump a)))
    (hrun : ∀ op a, ok op a → R a (E.run op a).1)
    (ha : E.History ok first log a) (hb : E.History ok first (log ++ more) b) : R a b := by
  induction more using List.reverseRecOn generalizing b with
  | nil =>
    rw [List.append_nil] at hb
    rw [ha.unique hb]
    exact hrefl b
  | append_singleton more entry ih =>
    rw [← List.append_assoc] at hb
    obtain ⟨c, hc, ⟨-, rfl⟩ | ⟨op, hok, -, rfl⟩⟩ := hb.of_append_singleton
    · exact htrans (ih hc) (hload c)
    · exact htrans (ih hc) (hrun op c hok)

end Editor

/-! ## Sessions -/

/-- A session's copy. -/
structure Session (α ι ρ : Type) where
  content : α
  /-- All that was done to it, from the first document on. -/
  log : List (Entry ι ρ)
  /-- The operation that has run and is not stored yet. -/
  pending : Option (Entry ι ρ)
  /-- Whether another session has stored since this one loaded, or stored itself. -/
  overtaken : Bool

structure Sessions (δ α ι ρ : Type) where
  document : δ
  /-- All that was done to the document. -/
  log : List (Entry ι ρ)
  session : Nat → Option (Session α ι ρ)
  lock : Option Nat
  /-- The operations that have completed, each by storing what it did. -/
  completed : List (Entry ι ρ)

inductive SessionStep (ι : Type) where
  | load (who : Nat)
  | quit (who : Nat)
  | lock (who : Nat)
  | unlock (who : Nat)
  | run (who : Nat) (op : ι)
  | store (who : Nat)
  /-- What has run is not stored; the copy stays as it is. -/
  | giveUp (who : Nat)
  deriving DecidableEq, Repr

section

variable {δ α ι ρ : Type}

def Sessions.set (s : Sessions δ α ι ρ) (who : Nat) (session : Option (Session α ι ρ)) :
    Sessions δ α ι ρ :=
  { s with session := fun other => if other = who then session else s.session other }

/-- The operation's part in the session that runs it. -/
def Session.run (E : Editor δ α ι ρ) (op : ι) (x : Session α ι ρ) : Session α ι ρ :=
  let entry := Entry.ran op (E.run op x.content).2
  { x with
    content := (E.run op x.content).1
    log := x.log ++ [entry]
    pending := (E.run op x.content).2.map fun _ => entry }

/-- The document and the other sessions, once `x` of `who` is stored. -/
def Sessions.store (E : Editor δ α ι ρ) (s : Sessions δ α ι ρ) (who : Nat)
    (x : Session α ι ρ) (entry : Entry ι ρ) : Sessions δ α ι ρ where
  document := E.dump x.content
  log := x.log
  session other :=
    if other = who then some { x with pending := none, overtaken := false }
    else (s.session other).map fun y => { y with overtaken := true }
  lock := s.lock
  completed := s.completed ++ [entry]

/-- Any number of sessions on one document, whose operations run under an exclusive
lock where `locked` says so. -/
def sessions (E : Editor δ α ι ρ) (locked : ι → Bool) (first : δ) :
    Machine (Sessions δ α ι ρ) (SessionStep ι) where
  init s := s.document = first ∧ s.log = [] ∧ (∀ who, s.session who = none) ∧
    s.lock = none ∧ s.completed = []
  next s
    | .load who =>
      match s.session who with
      | none => some (s.set who
          (some ⟨E.load s.document, s.log ++ [.loaded], none, false⟩))
      | some _ => none
    | .quit who => some (s.set who none)
    | .lock who => if s.lock = none then some { s with lock := some who } else none
    | .unlock who => if s.lock = some who then some { s with lock := none } else none
    | .run who op =>
      match s.session who with
      | none => none
      | some x =>
        if x.pending.isNone && (!locked op || s.lock = some who) then
          some (s.set who (some (x.run E op)))
        else none
    | .store who =>
      match s.session who with
      | none => none
      | some x => x.pending.map fun entry => s.store E who x entry
    | .giveUp who =>
      match s.session who with
      | none => none
      | some x => some (s.set who (some { x with pending := none }))

/-- A session stores only while no other has stored since it loaded, and runs only
operations that meet `ok`. -/
def Current (ok : ι → α → Prop) (s : Sessions δ α ι ρ) : SessionStep ι → Prop
  | .store who => ∀ x, s.session who = some x → x.overtaken = false
  | .run who op => ∀ x, s.session who = some x → ok op x.content
  | _ => True

/-! ## The invariant -/

/-- A copy is what its history makes of the first document, and goes on from the
document's while no other session has stored. -/
structure Follows (E : Editor δ α ι ρ) (ok : ι → α → Prop) (first : δ)
    (log : List (Entry ι ρ)) (x : Session α ι ρ) : Prop where
  made : E.History ok first x.log x.content
  current : x.overtaken = false → log <+: x.log
  pending : ∀ entry, x.pending = some entry →
    ∃ rest, x.log = rest ++ [entry] ∧ (x.overtaken = false → log <+: rest)

structure SessionsInv (E : Editor δ α ι ρ) (ok : ι → α → Prop) (first : δ)
    (s : Sessions δ α ι ρ) : Prop where
  made : ∃ a, E.History ok first s.log a ∧ E.dump a = s.document
  completed : s.completed.Sublist s.log
  session : ∀ who x, s.session who = some x → Follows E ok first s.log x

variable {E : Editor δ α ι ρ} {locked : ι → Bool} {ok : ι → α → Prop} {first : δ}
  {s t : Sessions δ α ι ρ} {x : Session α ι ρ} {who : Nat}

theorem SessionsInv.set (h : SessionsInv E ok first s) {session : Option (Session α ι ρ)}
    (hsession : ∀ x, session = some x → Follows E ok first s.log x) :
    SessionsInv E ok first (s.set who session) := by
  refine { h with session := ?_ }
  intro other x hx
  unfold Sessions.set at hx
  dsimp only at hx
  split at hx
  · exact hsession x hx
  · exact h.session other x hx

theorem Follows.run {log : List (Entry ι ρ)} (h : Follows E ok first log x) {op : ι}
    (hok : ok op x.content) : Follows E ok first log (x.run E op) := by
  refine ⟨.ran op hok h.made, ?_, ?_⟩
  · intro hcurrent
    exact (h.current hcurrent).trans (List.prefix_append _ _)
  · intro entry hentry
    obtain ⟨result, -, rfl⟩ := Option.map_eq_some_iff.mp hentry
    exact ⟨x.log, rfl, h.current⟩

/-- What is stored goes on from the document, and has the operation in it. -/
theorem SessionsInv.store (h : SessionsInv E ok first s) (hx : s.session who = some x)
    (hcurrent : x.overtaken = false) {entry : Entry ι ρ} (hentry : x.pending = some entry) :
    SessionsInv E ok first (s.store E who x entry) ∧ s.log <+: x.log := by
  have hfollows := h.session who x hx
  obtain ⟨rest, hlog, hrest⟩ := hfollows.pending entry hentry
  refine ⟨⟨⟨x.content, hfollows.made, rfl⟩, ?_, ?_⟩, hfollows.current hcurrent⟩
  · show (s.completed ++ [entry]).Sublist x.log
    rw [hlog]
    exact (h.completed.trans (hrest hcurrent).sublist).append (List.Sublist.refl _)
  · intro other y hy
    unfold Sessions.store at hy
    dsimp only at hy
    split at hy
    · cases hy
      refine ⟨hfollows.made, fun _ => List.prefix_refl _, ?_⟩
      intro entry hentry
      cases hentry
    · obtain ⟨z, hz, rfl⟩ := Option.map_eq_some_iff.mp hy
      have hother := h.session other z hz
      refine ⟨hother.made, ?_, ?_⟩
      · intro hcurrent
        cases hcurrent
      · intro entry hentry
        obtain ⟨rest, hlog, -⟩ := hother.pending entry hentry
        refine ⟨rest, hlog, ?_⟩
        intro hcurrent
        cases hcurrent

theorem SessionsInv.step (h : SessionsInv E ok first s) {l : SessionStep ι}
    (hok : Current ok s l) (hstep : (sessions E locked first).next s l = some t) :
    SessionsInv E ok first t ∧ s.log <+: t.log := by
  cases l with
  | load who =>
    simp only [sessions] at hstep
    split at hstep
    next =>
      cases hstep
      refine ⟨h.set ?_, List.prefix_refl _⟩
      rintro x ⟨⟩
      obtain ⟨a, hmade, hdump⟩ := h.made
      refine ⟨?_, fun _ => List.prefix_append _ _, ?_⟩
      · rw [← hdump]
        exact .loaded hmade
      · intro entry hentry
        cases hentry
    next => cases hstep
  | quit who =>
    cases hstep
    refine ⟨h.set ?_, List.prefix_refl _⟩
    rintro x ⟨⟩
  | lock who =>
    simp only [sessions] at hstep
    split at hstep
    · cases hstep
      exact ⟨{ h with }, List.prefix_refl _⟩
    · cases hstep
  | unlock who =>
    simp only [sessions] at hstep
    split at hstep
    · cases hstep
      exact ⟨{ h with }, List.prefix_refl _⟩
    · cases hstep
  | run who op =>
    simp only [sessions] at hstep
    split at hstep
    next => cases hstep
    next x hx =>
      split at hstep
      · cases hstep
        refine ⟨h.set ?_, List.prefix_refl _⟩
        rintro y ⟨⟩
        exact (h.session who x hx).run (hok x hx)
      · cases hstep
  | store who =>
    simp only [sessions] at hstep
    split at hstep
    next => cases hstep
    next x hx =>
      obtain ⟨entry, hentry, rfl⟩ := Option.map_eq_some_iff.mp hstep
      exact h.store hx (hok x hx) hentry
  | giveUp who =>
    simp only [sessions] at hstep
    split at hstep
    next => cases hstep
    next x hx =>
      cases hstep
      refine ⟨h.set ?_, List.prefix_refl _⟩
      rintro y ⟨⟩
      have hfollows := h.session who x hx
      refine ⟨hfollows.made, hfollows.current, ?_⟩
      intro entry hentry
      cases hentry

/-! ## Whole runs -/

theorem sessionsInv_of_init (locked : ι → Bool) (hs : (sessions E locked first).init s) :
    SessionsInv E ok first s := by
  obtain ⟨hdocument, hlog, hsession, -, hcompleted⟩ := hs
  refine ⟨⟨E.load first, ?_, ?_⟩, ?_, ?_⟩
  · rw [hlog]
    exact .start
  · rw [E.dump_load, hdocument]
  · rw [hcompleted]
    exact List.nil_sublist _
  · intro who x hx
    rw [hsession] at hx
    cases hx

theorem sessionsInv_reachable
    (hs : ((sessions E locked first).system.restrict (Current ok)).Reachable s) :
    SessionsInv E ok first s := by
  have hinv : ((sessions E locked first).system.restrict (Current ok)).Invariant
      (SessionsInv E ok first) :=
    ⟨sessionsInv_of_init locked, fun h hstep => (h.step hstep.1 hstep.2).1⟩
  exact hinv.reachable hs

/-- Nothing that was done to the document is taken back. -/
theorem log_prefix
    (hs : ((sessions E locked first).system.restrict (Current ok)).Reachable s)
    (hst : ((sessions E locked first).system.restrict (Current ok)).Reaches s t) :
    s.log <+: t.log := by
  refine System.Reaches.lift (R := fun s t => s.log <+: t.log) ?_ ?_ ?_ hs hst
  · intro u
    exact List.prefix_refl _
  · intro u v w huv hvw
    exact huv.trans hvw
  · intro u v l hu hstep
    exact ((sessionsInv_reachable hu).step hstep.1 hstep.2).2

/-- What neither an operation nor a reading undoes stays in the document. -/
theorem document_keeps {R : α → α → Prop} (hrefl : ∀ a, R a a)
    (htrans : ∀ {a b c}, R a b → R b c → R a c) (hload : ∀ a, R a (E.load (E.dump a)))
    (hrun : ∀ op a, ok op a → R a (E.run op a).1)
    (hs : ((sessions E locked first).system.restrict (Current ok)).Reachable s)
    (hst : ((sessions E locked first).system.restrict (Current ok)).Reaches s t) :
    ∃ a b, E.dump a = s.document ∧ E.dump b = t.document ∧ R a b := by
  obtain ⟨a, ha, hdumpa⟩ := (sessionsInv_reachable hs).made
  obtain ⟨b, hb, hdumpb⟩ := (sessionsInv_reachable (hst.reachable hs)).made
  obtain ⟨more, hmore⟩ := log_prefix hs hst
  rw [← hmore] at hb
  exact ⟨a, b, hdumpa, hdumpb, ha.lift hrefl htrans hload hrun hb⟩

end

end Opca.Foundation

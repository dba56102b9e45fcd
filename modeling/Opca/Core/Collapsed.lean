/-
  Core/Collapsed.lean --- the stores of documents that a flush of the command queue drops,
  and when the vault is the one it would be if nothing were dropped.

  The commands that are left are run beside all of them.
-/
import Mathlib.Data.List.Infix
import Opca.Core.CommandQueue

set_option autoImplicit false

namespace Opca.Core.CommandQueue

open Opca.Foundation

/-! ## What may be dropped -/

/-- A store of a document whose title has a later one. -/
def Superseded (c : QueuedCommand) (later : List QueuedCommand) : Prop :=
  c.operation = .storeDocument ∧
    ∃ d ∈ later, d.operation = .storeDocument ∧ d.targetId = c.targetId

instance (c : QueuedCommand) (later : List QueuedCommand) : Decidable (Superseded c later) :=
  inferInstanceAs (Decidable (_ ∧ _))

/-- The commands that are left. -/
def kept : List QueuedCommand → List QueuedCommand
  | [] => []
  | c :: later => if Superseded c later then kept later else c :: kept later

/-- No command names a title until its last store, which creates the document if there is
none; the other stores of its document aside. -/
def Awaited (title : String) : List QueuedCommand → Prop
  | [] => False
  | c :: later =>
    if c.targetId = title then
      c.operation = .storeDocument ∧ (¬Superseded c later → c.action = .auto) ∧
        (Superseded c later → Awaited title later)
    else ¬(c.operation = .renameItem ∧ c.payload.dstTitle = title) ∧ Awaited title later

/-- The document that a title names is deleted or stored again, under whatever title it
has by then, and not dropped then; nor does another item take its title before. -/
def Rewritten (title : String) : List QueuedCommand → Prop
  | [] => False
  | c :: later =>
    match c.operation with
    | .storeItem =>
      ¬(c.targetId = title ∧ c.action = .create) ∧ Rewritten title later
    | .storeDocument =>
      if c.targetId = title then
        c.action ≠ .create ∧ (Superseded c later → Rewritten title later)
      else Rewritten title later
    | .renameItem =>
      if c.targetId = title then Rewritten c.payload.dstTitle later
      else c.payload.dstTitle ≠ title ∧ Rewritten title later
    | .deleteItem => c.targetId = title ∨ Rewritten title later

/-- Of the stores that are dropped, each that creates a document in order is made up for
by the last one, and each that edits one is overwritten. -/
def Harmless {Assignment Fields : Type} (fielding : Fielding Assignment Fields) :
    Vault Fields → List QueuedCommand → Prop
  | _, [] => True
  | v, c :: later =>
    (Superseded c later →
      if v c.targetId = [] ∨ c.action = .create then Awaited c.targetId later
      else Rewritten c.targetId later) ∧
    ∀ v', execute fielding v c = .ok v' → Harmless fielding v' later

/-- No document that is yet to be stored is one that the vault has. -/
def Fresh {Fields : Type} (v : Vault Fields) (queue : List QueuedCommand) : Prop :=
  ∀ title, ∀ entry ∈ v title, ∀ d ∈ queue, d.operation = .storeDocument →
    entry.file ≠ some d.file

/-- Each store of a document is of another one. -/
def Distinct (queue : List QueuedCommand) : Prop :=
  queue.Pairwise fun c d =>
    c.operation = .storeDocument → d.operation = .storeDocument → c.file ≠ d.file

/-- No title is one of items and of documents. -/
def Separate (queue : List QueuedCommand) : Prop :=
  ∀ c ∈ queue, ∀ d ∈ queue, c.operation = .storeItem → d.operation = .storeDocument →
    c.targetId ≠ d.targetId

/-! ## A title with several items -/

section

variable {Assignment Fields : Type} {fielding : Fielding Assignment Fields}
  {v v' w w' F C : Vault Fields} {c : QueuedCommand} {title : String} {later : List QueuedCommand}

/-- What does not name a title takes nothing from it. -/
theorem Does.length_le (h : Does fielding v c v') (hne : c.targetId ≠ title) :
    (v title).length ≤ (v' title).length := by
  rcases h.elsewhere (Ne.symm hne) with ⟨-, heq⟩ | ⟨-, -, entry, -, heq⟩
  · exact Nat.le_of_eq (congrArg List.length heq).symm
  · rw [heq, List.length_append]
    exact Nat.le_add_right _ _

/-- Of a title with several items, all that can be done is to make one more. -/
theorem Does.crowded (h : Does fielding v c v') (hcrowded : 2 ≤ (v c.targetId).length) :
    c.action = .create ∧ 2 ≤ (v' c.targetId).length ∧
      (c.operation = .storeItem ∨ c.operation = .storeDocument) := by
  have hnone : v c.targetId ≠ [] := by
    intro hnil
    rw [hnil] at hcrowded
    cases hcrowded
  have hone (entry : Entry Fields) : v c.targetId ≠ [entry] := by
    intro heq
    rw [heq] at hcrowded
    exact absurd hcrowded (by simp)
  cases h with
  | makesItem hop haction =>
    rcases haction with haction | ⟨-, hnil⟩
    · refine ⟨haction, ?_, .inl hop⟩
      rw [create_self, List.length_append]
      omega
    · exact absurd hnil hnone
  | makesDocument hop haction =>
    rcases haction with haction | ⟨-, hnil⟩
    · refine ⟨haction, ?_, .inr hop⟩
      rw [createDocument, create_self, List.length_append]
      omega
    · exact absurd hnil hnone
  | editsItem _ _ heq => exact absurd heq (hone _)
  | editsDocument _ _ heq => exact absurd heq (hone _)
  | renames _ heq => exact absurd heq (hone _)
  | deletes _ heq => exact absurd heq (hone _)

theorem inOrder_cons (h : inOrder fielding (c :: later) v = .ok w) :
    ∃ v', Does fielding v c v' ∧ inOrder fielding later v' = .ok w := by
  obtain ⟨v', hexecute, hrest⟩ := bind_eq_ok.mp h
  exact ⟨v', .of_execute hexecute, hrest⟩

/-- A document whose title names several items is not stored again. -/
theorem not_rewritten_of_crowded (h : inOrder fielding later v = .ok w)
    (hcrowded : 2 ≤ (v title).length) : ¬Rewritten title later := by
  induction later generalizing v with
  | nil => exact fun hrewritten => hrewritten
  | cons c later ih =>
    obtain ⟨v', hdoes, hrest⟩ := inOrder_cons h
    intro hrewritten
    unfold Rewritten at hrewritten
    by_cases hname : c.targetId = title
    · subst hname
      obtain ⟨haction, hmore, hop | hop⟩ := hdoes.crowded hcrowded
      · rw [hop] at hrewritten
        exact hrewritten.1 ⟨rfl, haction⟩
      · rw [hop] at hrewritten
        simp only [if_true] at hrewritten
        exact hrewritten.1 haction
    · have hmore := ih hrest (Nat.le_trans hcrowded (hdoes.length_le hname))
      cases hop : c.operation with
      | storeItem =>
        rw [hop] at hrewritten
        exact hmore hrewritten.2
      | storeDocument =>
        rw [hop] at hrewritten
        simp only [if_neg hname] at hrewritten
        exact hmore hrewritten
      | renameItem =>
        rw [hop] at hrewritten
        simp only [if_neg hname] at hrewritten
        exact hmore hrewritten.2
      | deleteItem =>
        rw [hop] at hrewritten
        exact hmore (hrewritten.resolve_left hname)

theorem not_awaited_of_crowded (h : inOrder fielding later v = .ok w)
    (hcrowded : 2 ≤ (v title).length) : ¬Awaited title later := by
  induction later generalizing v with
  | nil => exact fun hawaited => hawaited
  | cons c later ih =>
    obtain ⟨v', hdoes, hrest⟩ := inOrder_cons h
    intro hawaited
    unfold Awaited at hawaited
    by_cases hname : c.targetId = title
    · rw [if_pos hname] at hawaited
      obtain ⟨-, hkept, hdropped⟩ := hawaited
      subst hname
      obtain ⟨haction, hmore, -⟩ := hdoes.crowded hcrowded
      by_cases hsuperseded : Superseded c later
      · exact ih hrest hmore (hdropped hsuperseded)
      · rw [hkept hsuperseded] at haction
        cases haction
    · rw [if_neg hname] at hawaited
      exact ih hrest (Nat.le_trans hcrowded (hdoes.length_le hname)) hawaited.2

/-- Under a title with several items, both runs only add, the one with fewer commands no
more than the other. -/
theorem prefix_of_crowded (hrun : inOrder fielding later F = .ok w)
    (hrun' : inOrder fielding (kept later) C = .ok w') (hcrowded : 2 ≤ (F title).length) :
    F title <+: w title ∧ C title <+: w' title ∧
      (w' title).length + (F title).length ≤ (w title).length + (C title).length := by
  induction later generalizing F C with
  | nil =>
    cases hrun
    cases hrun'
    exact ⟨List.prefix_rfl, List.prefix_rfl, by omega⟩
  | cons c later ih =>
    obtain ⟨F', hdoes, hrest⟩ := inOrder_cons hrun
    have hnamed (hname : c.targetId = title) : c.action = .create ∧
        (c.operation = .storeItem ∨ c.operation = .storeDocument) := by
      subst hname
      obtain ⟨haction, -, hop⟩ := hdoes.crowded hcrowded
      exact ⟨haction, hop⟩
    obtain ⟨added, hF, hgains⟩ := hdoes.grows title hnamed
    have hcrowded' : 2 ≤ (F' title).length := by
      rw [hF, List.length_append]
      omega
    have hextends : F title <+: F' title := ⟨added, hF.symm⟩
    rw [kept] at hrun'
    split at hrun'
    next =>
      obtain ⟨hw, hw', hlength⟩ := ih hrest hrun' hcrowded'
      refine ⟨hextends.trans hw, hw', ?_⟩
      have := hextends.length_le
      omega
    next =>
      obtain ⟨C', hdoes', hrest'⟩ := inOrder_cons hrun'
      obtain ⟨added', hC, hgains'⟩ := hdoes'.grows title hnamed
      obtain ⟨hw, hw', hlength⟩ := ih hrest hrest' hcrowded'
      refine ⟨hextends.trans hw, List.IsPrefix.trans ⟨added', hC.symm⟩ hw', ?_⟩
      rw [hF, hC, List.length_append, List.length_append] at hlength
      omega

/-- Where both runs come to one vault, a title with several items names no fewer in the
second. -/
theorem prefix_of_converges (hrun : inOrder fielding later F = .ok w)
    (hrun' : inOrder fielding (kept later) C = .ok w) (hcrowded : 2 ≤ (F title).length) :
    F title <+: C title := by
  obtain ⟨hw, hw', hlength⟩ := prefix_of_crowded hrun hrun' hcrowded
  exact List.prefix_of_prefix_length_le hw hw' (by omega)

end

/-! ## The two runs side by side -/

section

variable {Assignment Fields : Type} {fielding : Fielding Assignment Fields}
  {F F' C C' w : Vault Fields} {c : QueuedCommand} {title : String} {later : List QueuedCommand}

/-- What a title names where all commands are run, and where the dropped ones are not: the
same; or a document that is yet to be stored again; or a document that is yet to be
created. -/
inductive Near (fielding : Fielding Assignment Fields) (F C : Vault Fields) (title : String)
    (later : List QueuedCommand) : Prop
  | same : C title = F title → Near fielding F C title later
  | stale {fields : Fields} {file file' : String × String} :
      F title = [⟨fields, some file⟩] → C title = [⟨fields, some file'⟩] →
      Rewritten title later → Near fielding F C title later
  | missing {file : String × String} :
      F title = [⟨fielding.document, some file⟩] → C title = [] → Awaited title later →
      Near fielding F C title later

theorem Awaited.of_ne (h : Awaited title (c :: later)) (hne : c.targetId ≠ title) :
    ¬(c.operation = .renameItem ∧ c.payload.dstTitle = title) ∧ Awaited title later := by
  unfold Awaited at h
  rwa [if_neg hne] at h

theorem Awaited.named (h : Awaited title (c :: later)) (hname : c.targetId = title) :
    c.operation = .storeDocument ∧ (¬Superseded c later → c.action = .auto) ∧
      (Superseded c later → Awaited title later) := by
  unfold Awaited at h
  rwa [if_pos hname] at h

theorem Rewritten.of_ne (h : Rewritten title (c :: later)) (hne : c.targetId ≠ title) :
    ¬(c.operation = .renameItem ∧ c.payload.dstTitle = title) ∧ Rewritten title later := by
  unfold Rewritten at h
  cases hop : c.operation with
  | storeItem =>
    rw [hop] at h
    exact ⟨fun hrename => QueueOp.noConfusion hrename.1, h.2⟩
  | storeDocument =>
    rw [hop] at h
    simp only [if_neg hne] at h
    exact ⟨fun hrename => QueueOp.noConfusion hrename.1, h⟩
  | renameItem =>
    rw [hop] at h
    simp only [if_neg hne] at h
    exact ⟨fun hrename => h.1 hrename.2, h.2⟩
  | deleteItem =>
    rw [hop] at h
    exact ⟨fun hrename => QueueOp.noConfusion hrename.1, h.resolve_left hne⟩

/-- A title that a command neither names nor moves an item to. -/
theorem Near.elsewhere (h : Near fielding F C title (c :: later))
    (hne : c.targetId ≠ title) (hF : F' title = F title) (hC : C' title = C title) :
    Near fielding F' C' title later := by
  cases h with
  | same heq => exact .same (by rw [hF, hC, heq])
  | stale hone hone' hrewritten =>
    exact .stale (hF.trans hone) (hC.trans hone') (hrewritten.of_ne hne).2
  | missing hone hnone hawaited =>
    exact .missing (hF.trans hone) (hC.trans hnone) (hawaited.of_ne hne).2

/-- A store that is dropped. -/
theorem near_dropped (h : ∀ title, Near fielding F C title (c :: later))
    (hdoes : Does fielding F c F') (hsuperseded : Superseded c later)
    (hrest : inOrder fielding later F' = .ok w)
    (hharmless : if F c.targetId = [] ∨ c.action = .create then Awaited c.targetId later
      else Rewritten c.targetId later) :
    ∀ title, Near fielding F' C title later := by
  intro title
  have hop := hsuperseded.1
  by_cases hname : title = c.targetId
  · subst hname
    by_cases hnone : F c.targetId = []
    · rw [if_pos (.inl hnone)] at hharmless
      obtain ⟨-, hitem | ⟨-, hnew⟩⟩ := hdoes.of_nil hnone
      · rw [hop] at hitem
        cases hitem
      · refine .missing hnew ?_ hharmless
        cases h c.targetId with
        | same heq => rw [heq, hnone]
        | stale hone => rw [hnone] at hone; cases hone
        | missing hone => rw [hnone] at hone; cases hone
    · by_cases haction : c.action = .create
      · rw [if_pos (.inr haction)] at hharmless
        obtain ⟨added, hF, hadded⟩ := hdoes.grows c.targetId fun _ => ⟨haction, .inr hop⟩
        rw [gains, if_pos (.inl rfl)] at hadded
        have hpos := List.length_pos_iff.mpr hnone
        refine absurd hharmless (not_awaited_of_crowded hrest ?_)
        rw [hF, List.length_append]
        omega
      · rw [if_neg (not_or.mpr ⟨hnone, haction⟩)] at hharmless
        obtain ⟨fields, file, hone, hnew⟩ := hdoes.overwrites hop haction hnone
        cases h c.targetId with
        | same heq => exact .stale hnew (heq.trans hone) hharmless
        | stale hone' hstale =>
          rw [hone] at hone'
          cases hone'
          exact .stale hnew hstale hharmless
        | missing hone' hmissing hawaited =>
          rw [hone] at hone'
          cases hone'
          exact .missing hnew hmissing ((hawaited.named rfl).2.2 hsuperseded)
  · rcases hdoes.elsewhere hname with ⟨-, hF⟩ | ⟨hrename, -⟩
    · exact (h title).elsewhere (Ne.symm hname) hF rfl
    · rw [hop] at hrename
      cases hrename

theorem Rewritten.renamed (h : Rewritten c.targetId (c :: later))
    (hop : c.operation = .renameItem) : Rewritten c.payload.dstTitle later := by
  unfold Rewritten at h
  rw [hop] at h
  simpa only [if_true] using h

/-- A renaming: a document that is stored again has no other item at its new title, and no
title that another item comes to is awaited. -/
theorem near_renames {entry : Entry Fields}
    (h : ∀ title, Near fielding F C title (c :: later)) (hop : c.operation = .renameItem)
    (hone : F c.targetId = [entry])
    (hrest : inOrder fielding later
      (create (Function.update F c.targetId []) c.payload.dstTitle entry) = .ok w) :
    ∃ C', Does fielding C c C' ∧ ∀ title, Near fielding
      (create (Function.update F c.targetId []) c.payload.dstTitle entry) C' title later := by
  have hheld : ∃ entry', C c.targetId = [entry'] ∧ (entry' = entry ∨
      ∃ fields file file', entry = ⟨fields, some file⟩ ∧ entry' = ⟨fields, some file'⟩ ∧
        Rewritten c.payload.dstTitle later) := by
    cases h c.targetId with
    | same heq => exact ⟨entry, heq.trans hone, .inl rfl⟩
    | stale hone₁ hone₂ hrewritten =>
      rw [hone] at hone₁
      cases hone₁
      exact ⟨_, hone₂, .inr ⟨_, _, _, rfl, rfl, hrewritten.renamed hop⟩⟩
    | missing _ _ hawaited =>
      have hstore := (hawaited.named rfl).1
      rw [hop] at hstore
      cases hstore
  obtain ⟨entry', hone', halike⟩ := hheld
  refine ⟨_, .renames hop hone', fun title => ?_⟩
  -- what the new title names apart from the renamed item
  have hothers : (Function.update C c.targetId []) c.payload.dstTitle =
      (Function.update F c.targetId []) c.payload.dstTitle := by
    by_cases hself : c.payload.dstTitle = c.targetId
    · rw [hself, Function.update_self, Function.update_self]
    · rw [Function.update_of_ne hself, Function.update_of_ne hself]
      cases h c.payload.dstTitle with
      | same heq => exact heq
      | stale _ _ hrewritten =>
        exact absurd ⟨hop, rfl⟩ (hrewritten.of_ne (Ne.symm hself)).1
      | missing _ _ hawaited =>
        exact absurd ⟨hop, rfl⟩ (hawaited.of_ne (Ne.symm hself)).1
  by_cases hdst : title = c.payload.dstTitle
  · subst hdst
    rcases halike with rfl | ⟨fields, file, file', rfl, rfl, hrewritten⟩
    · exact .same (by rw [create_self, create_self, hothers])
    · cases hrestF : (Function.update F c.targetId []) c.payload.dstTitle with
      | nil =>
        have hF : create (Function.update F c.targetId []) c.payload.dstTitle
            ⟨fields, some file⟩ c.payload.dstTitle = [⟨fields, some file⟩] := by
          rw [create_self, hrestF]
          rfl
        have hC : create (Function.update C c.targetId []) c.payload.dstTitle
            ⟨fields, some file'⟩ c.payload.dstTitle = [⟨fields, some file'⟩] := by
          rw [create_self, hothers, hrestF]
          rfl
        exact .stale hF hC hrewritten
      | cons other rest =>
        refine absurd hrewritten (not_rewritten_of_crowded hrest ?_)
        rw [create_self, hrestF, List.length_append, List.length_cons]
        simp
  · by_cases hname : title = c.targetId
    · subst hname
      exact .same (by rw [create_of_ne hdst, create_of_ne hdst, Function.update_self,
        Function.update_self])
    · refine (h title).elsewhere (Ne.symm hname) ?_ ?_
      · rw [create_of_ne hdst, Function.update_of_ne hname]
      · rw [create_of_ne hdst, Function.update_of_ne hname]

/-- What a command names, it also finds where dropped ones are not done. -/
theorem near_named (h : Near fielding F C c.targetId (c :: later))
    (hdoes : Does fielding F c F') (hkept : ¬Superseded c later)
    (hrename : c.operation ≠ .renameItem) :
    ∃ C', Does fielding C c C' ∧ Near fielding F' C' c.targetId later := by
  cases h with
  | same heq =>
    obtain ⟨C', hdoes', heq'⟩ := hdoes.transport heq
    exact ⟨C', hdoes', .same heq'⟩
  | @stale fields file file' hone hone' hrewritten =>
    unfold Rewritten at hrewritten
    rcases hdoes.of_one hone with ⟨haction, hop | hop, -⟩ |
        ⟨hop, haction, assignments, fields', hparse, hset, hnew⟩ | ⟨hop, haction, -, hnew⟩ |
        hop | ⟨hop, hnew⟩
    · rw [hop] at hrewritten
      exact absurd ⟨rfl, haction⟩ hrewritten.1
    · rw [hop] at hrewritten
      simp only [if_true] at hrewritten
      exact absurd haction hrewritten.1
    · rw [hop] at hrewritten
      have hnew' : Function.update C c.targetId [⟨fields', some file'⟩] c.targetId =
          [⟨fields', some file'⟩] := Function.update_self ..
      exact ⟨_, .editsItem hop haction hone' hparse hset, .stale hnew hnew' hrewritten.2⟩
    · exact ⟨_, .editsDocument hop haction hone' rfl,
        .same (by rw [hnew, Function.update_self])⟩
    · exact absurd hop hrename
    · exact ⟨_, .deletes hop hone', .same (by rw [hnew, Function.update_self])⟩
  | missing hone hnone hawaited =>
    obtain ⟨hop, hauto, -⟩ := hawaited.named rfl
    have haction := hauto hkept
    have hsome : F c.targetId ≠ [] := by
      rw [hone]
      exact List.cons_ne_nil _ _
    obtain ⟨fields, file, hone', hnew⟩ := hdoes.overwrites hop (by rw [haction]; decide) hsome
    rw [hone] at hone'
    cases hone'
    refine ⟨_, .makesDocument hop (.inr ⟨haction, hnone⟩), .same ?_⟩
    rw [createDocument, create_self, hnone, hnew]
    rfl

/-- A command that is not dropped is done where the dropped ones are not. -/
theorem near_kept (h : ∀ title, Near fielding F C title (c :: later))
    (hdoes : Does fielding F c F') (hkept : ¬Superseded c later)
    (hrest : inOrder fielding later F' = .ok w) :
    ∃ C', Does fielding C c C' ∧ ∀ title, Near fielding F' C' title later := by
  by_cases hop : c.operation = .renameItem
  · obtain ⟨entry, hone, rfl⟩ := hdoes.of_rename hop
    exact near_renames h hop hone hrest
  · obtain ⟨C', hdoes', hnamed⟩ := near_named (h c.targetId) hdoes hkept hop
    refine ⟨C', hdoes', fun title => ?_⟩
    by_cases hname : title = c.targetId
    · rwa [hname]
    · rcases hdoes.elsewhere hname with ⟨-, hF⟩ | hrename
      · rcases hdoes'.elsewhere hname with ⟨-, hC⟩ | hrename
        · exact (h title).elsewhere (Ne.symm hname) hF hC
        · exact absurd hrename.1 hop
      · exact absurd hrename.1 hop

/-- Without the dropped commands the run comes to the same vault. -/
theorem near_run (queue : List QueuedCommand) (h : ∀ title, Near fielding F C title queue)
    (hrun : inOrder fielding queue F = .ok w) (hharmless : Harmless fielding F queue) :
    ∃ results, flushCommands fielding (kept queue) C = (results, w) ∧
      ∀ r ∈ results, r.success = true := by
  induction queue generalizing F C with
  | nil =>
    cases hrun
    refine ⟨[], ?_, by simp⟩
    have heq : C = w := by
      funext title
      cases h title with
      | same heq => exact heq
      | stale _ _ hrewritten => exact hrewritten.elim
      | missing _ _ hawaited => exact hawaited.elim
    rw [heq]
    rfl
  | cons c later ih =>
    obtain ⟨F', hdoes, hrest⟩ := inOrder_cons hrun
    have hlater := hharmless.2 F' hdoes.execute
    by_cases hsuperseded : Superseded c later
    · rw [kept, if_pos hsuperseded]
      exact ih (near_dropped h hdoes hsuperseded hrest (hharmless.1 hsuperseded)) hrest hlater
    · obtain ⟨C', hdoes', hnear⟩ := near_kept h hdoes hsuperseded hrest
      obtain ⟨results, hflush, hsuccess⟩ := ih hnear hrest hlater
      refine ⟨⟨c.operation, c.targetId, true, none⟩ :: results, ?_,
        List.forall_mem_cons.mpr ⟨rfl, hsuccess⟩⟩
      rw [kept, if_neg hsuperseded, flushCommands, hdoes'.execute]
      simp only [hflush]

end

/-! ## Nothing else may be dropped -/

section

variable {Assignment Fields : Type} {fielding : Fielding Assignment Fields}
  {v v' w F F' C C' : Vault Fields} {c : QueuedCommand} {title : String}
  {later : List QueuedCommand}

/-- How a title's items may differ between the two runs. -/
inductive Lags (fielding : Fielding Assignment Fields) (F C : Vault Fields) (title : String)
    (later : List QueuedCommand) : Prop
  | same : C title = F title → Lags fielding F C title later
  | stale {fields : Fields} {file file' : String × String} :
      F title = [⟨fields, some file⟩] → C title = [⟨fields, some file'⟩] → file ≠ file' →
      Lags fielding F C title later
  | missing {file : String × String} :
      F title = [⟨fielding.document, some file⟩] → C title = [] →
      (∀ d ∈ later, d.operation = .storeItem → d.targetId ≠ title) →
      Lags fielding F C title later

/-- Where a title names one more in both runs, it named the same before. -/
theorem Lags.grown {entry entry' : Entry Fields} (h : Lags fielding F C title later)
    (hextends : F title ++ [entry] <+: C title ++ [entry']) :
    C title = F title ∧ entry = entry' := by
  cases h with
  | same heq =>
    rw [heq, List.prefix_append_right_inj, List.singleton_prefix_cons_iff] at hextends
    exact ⟨heq, hextends⟩
  | stale hone hone' hne =>
    rw [hone, hone', List.singleton_append, List.singleton_append, List.cons_prefix_cons]
      at hextends
    cases hextends.1
    exact absurd rfl hne
  | missing hone hnone =>
    rw [hone, hnone] at hextends
    exact absurd hextends.length_le (by simp)

theorem Lags.length_le (h : Lags fielding F C title later) :
    (C title).length ≤ (F title).length := by
  cases h with
  | same heq => rw [heq]
  | stale hone hone' => rw [hone, hone', List.length_singleton, List.length_singleton]
  | missing _ hnone => simp [hnone]

theorem Lags.elsewhere (h : Lags fielding F C title (c :: later)) (hF : F' title = F title)
    (hC : C' title = C title) : Lags fielding F' C' title later := by
  cases h with
  | same heq => exact .same (by rw [hF, hC, heq])
  | stale hone hone' hne => exact .stale (hF.trans hone) (hC.trans hone') hne
  | missing hone hnone hapart =>
    exact .missing (hF.trans hone) (hC.trans hnone)
      fun d hd => hapart d (List.mem_cons_of_mem _ hd)

theorem Near.rewritten {fields fields' : Fields} {file file' : String × String}
    (h : Near fielding F C title later) (hone : F title = [⟨fields, some file⟩])
    (hone' : C title = [⟨fields', some file'⟩]) (hne : file ≠ file') :
    Rewritten title later := by
  cases h with
  | same heq =>
    rw [hone, hone'] at heq
    cases heq
    exact absurd rfl hne
  | stale _ _ hrewritten => exact hrewritten
  | missing _ hnone =>
    rw [hone'] at hnone
    cases hnone

theorem Near.awaited (h : Near fielding F C title later) (hsome : F title ≠ [])
    (hnone : C title = []) : Awaited title later := by
  cases h with
  | same heq => exact absurd (heq.symm.trans hnone) hsome
  | stale _ hone' =>
    rw [hone'] at hnone
    cases hnone
  | missing _ _ hawaited => exact hawaited

theorem Awaited.cons_of_ne (h : Awaited title later) (hne : c.targetId ≠ title)
    (hdst : ¬(c.operation = .renameItem ∧ c.payload.dstTitle = title)) :
    Awaited title (c :: later) := by
  unfold Awaited
  rw [if_neg hne]
  exact ⟨hdst, h⟩

theorem Rewritten.cons_of_ne (h : Rewritten title later) (hne : c.targetId ≠ title)
    (hdst : ¬(c.operation = .renameItem ∧ c.payload.dstTitle = title)) :
    Rewritten title (c :: later) := by
  unfold Rewritten
  cases hop : c.operation with
  | storeItem => exact ⟨fun hnamed => hne hnamed.1, h⟩
  | storeDocument => simpa only [if_neg hne] using h
  | renameItem =>
    simp only [if_neg hne]
    exact ⟨fun heq => hdst ⟨hop, heq⟩, h⟩
  | deleteItem => exact .inr h

/-- A title that a command does not name. -/
theorem Near.before_of_ne (h : Near fielding F' C' title later)
    (hlags : Lags fielding F C title (c :: later)) (hne : c.targetId ≠ title)
    (hdst : ¬(c.operation = .renameItem ∧ c.payload.dstTitle = title))
    (hF : F' title = F title) (hC : C' title = C title) :
    Near fielding F C title (c :: later) := by
  cases hlags with
  | same heq => exact .same heq
  | stale hone hone' hfile =>
    exact .stale hone hone'
      ((h.rewritten (hF.trans hone) (hC.trans hone') hfile).cons_of_ne hne hdst)
  | missing hone hnone =>
    refine .missing hone hnone ((h.awaited ?_ (hC.trans hnone)).cons_of_ne hne hdst)
    rw [hF, hone]
    exact List.cons_ne_nil _ _

theorem Fresh.tail (h : Fresh v (c :: later)) : Fresh v later :=
  fun title entry hentry d hd => h title entry hentry d (List.mem_cons_of_mem _ hd)

/-- A store that is dropped creates nothing under a title that names something. -/
theorem not_created_of_dropped (h : Lags fielding F C c.targetId (c :: later))
    (hdoes : Does fielding F c F') (hop : c.operation = .storeDocument)
    (hsome : F c.targetId ≠ []) (hrest : inOrder fielding later F' = .ok w)
    (hrest' : inOrder fielding (kept later) C = .ok w) : c.action ≠ .create := by
  intro haction
  obtain ⟨added, hF, hadded⟩ := hdoes.grows c.targetId fun _ => ⟨haction, .inr hop⟩
  rw [gains, if_pos (.inl rfl)] at hadded
  have hlength := congrArg List.length hF
  rw [List.length_append] at hlength
  have hpos := List.length_pos_iff.mpr hsome
  have hextends : F' c.targetId <+: C c.targetId :=
    prefix_of_converges hrest hrest' (by omega)
  have hshort := hextends.length_le
  have hlags := h.length_le
  omega

/-- Nor does one that is kept, where the two runs differ. -/
theorem same_of_created (h : Lags fielding F C c.targetId (c :: later))
    (hdoes : Does fielding F c F') (hdoes' : Does fielding C c C')
    (hop : c.operation = .storeItem ∨ c.operation = .storeDocument)
    (haction : c.action = .create) (hsome : F c.targetId ≠ [])
    (hrest : inOrder fielding later F' = .ok w)
    (hrest' : inOrder fielding (kept later) C' = .ok w) : C c.targetId = F c.targetId := by
  obtain ⟨added, hF, hadded⟩ := hdoes.grows c.targetId fun _ => ⟨haction, hop⟩
  obtain ⟨added', hC, hadded'⟩ := hdoes'.grows c.targetId fun _ => ⟨haction, hop⟩
  rw [gains, if_pos (.inl rfl), List.length_eq_one_iff] at hadded hadded'
  obtain ⟨entry, rfl⟩ := hadded
  obtain ⟨entry', rfl⟩ := hadded'
  have hlength := congrArg List.length hF
  rw [List.length_append, List.length_singleton] at hlength
  have hpos := List.length_pos_iff.mpr hsome
  have hextends : F' c.targetId <+: C' c.targetId :=
    prefix_of_converges hrest hrest' (by omega)
  rw [hF, hC] at hextends
  exact (h.grown hextends).1

/-- What a dropped store leaves of a title, and what is due of it then. -/
theorem lags_dropped (h : ∀ title, Lags fielding F C title (c :: later))
    (hdoes : Does fielding F c F') (hsuperseded : Superseded c later)
    (hfresh : Fresh C (c :: later)) (hseparate : Separate (c :: later))
    (hrest : inOrder fielding later F' = .ok w)
    (hrest' : inOrder fielding (kept later) C = .ok w) (title : String) :
    Lags fielding F' C title later ∧
      ((∀ title, Near fielding F' C title later) → Near fielding F C title (c :: later)) := by
  have hop := hsuperseded.1
  have hdst : ¬(c.operation = .renameItem ∧ c.payload.dstTitle = title) := by
    rw [hop]
    exact fun hrename => QueueOp.noConfusion hrename.1
  by_cases hname : c.targetId = title
  · subst hname
    by_cases hnone : F c.targetId = []
    · have hnone' : C c.targetId = [] := by
        have hlength := (h c.targetId).length_le
        rw [hnone] at hlength
        exact List.length_eq_zero_iff.mp (Nat.le_zero.mp hlength)
      obtain ⟨-, hitem | ⟨-, hone⟩⟩ := hdoes.of_nil hnone
      · rw [hop] at hitem
        cases hitem
      · refine ⟨.missing hone hnone' fun d hd hitem => ?_, fun _ => .same (by rw [hnone, hnone'])⟩
        exact hseparate d (List.mem_cons_of_mem _ hd) c List.mem_cons_self hitem hop
    · have haction := not_created_of_dropped (h c.targetId) hdoes hop hnone hrest hrest'
      obtain ⟨fields, file, hone, hnew⟩ := hdoes.overwrites hop haction hnone
      cases h c.targetId with
      | same heq =>
        have hone' := heq.trans hone
        have hother := hfresh c.targetId _ (by rw [hone']; exact List.mem_singleton_self _) c
          List.mem_cons_self hop
        refine ⟨.stale hnew hone' fun hsame => hother ?_, fun _ => .same heq⟩
        rw [hsame]
      | stale hone₁ hone₂ hne =>
        rw [hone] at hone₁
        cases hone₁
        have hother := hfresh c.targetId _ (by rw [hone₂]; exact List.mem_singleton_self _) c
          List.mem_cons_self hop
        have hne' : c.file ≠ _ := fun hsame => hother (congrArg some hsame.symm)
        refine ⟨.stale hnew hone₂ hne', fun hnear => .stale hone hone₂ ?_⟩
        unfold Rewritten
        rw [hop]
        simp only [if_true]
        exact ⟨haction, fun _ => (hnear c.targetId).rewritten hnew hone₂ hne'⟩
      | missing hone₁ hnone' hapart =>
        rw [hone] at hone₁
        cases hone₁
        refine ⟨.missing hnew hnone' fun d hd => hapart d (List.mem_cons_of_mem _ hd),
          fun hnear => .missing hone hnone' ?_⟩
        unfold Awaited
        rw [if_pos rfl]
        refine ⟨hop, fun hkept => absurd hsuperseded hkept, fun _ => ?_⟩
        exact (hnear c.targetId).awaited (by rw [hnew]; exact List.cons_ne_nil _ _) hnone'
  · rcases hdoes.elsewhere (Ne.symm hname) with ⟨-, hF⟩ | ⟨hrename, -⟩
    · exact ⟨(h title).elsewhere hF rfl,
        fun hnear => (hnear title).before_of_ne (h title) hname hdst hF rfl⟩
    · rw [hop] at hrename
      cases hrename

/-- What a kept command leaves of the title that it names, and what is due of it then. -/
theorem lags_named (h : Lags fielding F C c.targetId (c :: later))
    (hdoes : Does fielding F c F') (hdoes' : Does fielding C c C') (hkept : ¬Superseded c later)
    (hrename : c.operation ≠ .renameItem)
    (hrest : inOrder fielding later F' = .ok w)
    (hrest' : inOrder fielding (kept later) C' = .ok w) :
    Lags fielding F' C' c.targetId later ∧
      ((∀ title, Near fielding F' C' title later) →
        Near fielding F C c.targetId (c :: later)) := by
  cases hlags : h with
  | same heq =>
    obtain ⟨C'', hdoes'', heq'⟩ := hdoes.transport heq
    cases hdoes'.unique hdoes''
    exact ⟨.same heq', fun _ => .same heq⟩
  | @stale fields file file' hone hone' hne =>
    have hdiffers : C c.targetId ≠ F c.targetId := by
      intro heq
      rw [hone, hone'] at heq
      cases heq
      exact hne rfl
    have hsome : F c.targetId ≠ [] := by
      rw [hone]
      exact List.cons_ne_nil _ _
    rcases hdoes.of_one hone with ⟨haction, hop, -⟩ |
        ⟨hop, haction, assignments, fields', hparse, hset, hnew⟩ | ⟨hop, haction, -, hnew⟩ |
        hop | ⟨hop, hnew⟩
    · exact absurd (same_of_created h hdoes hdoes' hop haction hsome hrest hrest') hdiffers
    · cases hdoes'.unique (.editsItem hop haction hone' hparse hset)
      have hnew' : Function.update C c.targetId [⟨fields', some file'⟩] c.targetId =
          [⟨fields', some file'⟩] := Function.update_self ..
      refine ⟨.stale hnew hnew' hne, fun hnear => .stale hone hone' ?_⟩
      unfold Rewritten
      rw [hop]
      exact ⟨fun hnamed => haction hnamed.2, (hnear c.targetId).rewritten hnew hnew' hne⟩
    · cases hdoes'.unique (.editsDocument hop haction hone' rfl)
      refine ⟨.same ?_, fun _ => .stale hone hone' ?_⟩
      · rw [hnew, Function.update_self]
      · unfold Rewritten
        rw [hop]
        simp only [if_true]
        exact ⟨haction, fun hsuperseded => absurd hsuperseded hkept⟩
    · exact absurd hop hrename
    · cases hdoes'.unique (.deletes hop hone')
      refine ⟨.same ?_, fun _ => .stale hone hone' ?_⟩
      · rw [hnew, Function.update_self]
      · unfold Rewritten
        rw [hop]
        exact .inl rfl
  | missing hone hnone hapart =>
    have hdiffers : C c.targetId ≠ F c.targetId := by
      rw [hone, hnone]
      exact (List.cons_ne_nil _ _).symm
    have hsome : F c.targetId ≠ [] := by
      rw [hone]
      exact List.cons_ne_nil _ _
    obtain ⟨hedit, hitem | ⟨hop, hnew'⟩⟩ := hdoes'.of_nil hnone
    · exact absurd rfl (hapart c List.mem_cons_self hitem)
    · have haction : c.action ≠ .create := fun haction =>
        hdiffers (same_of_created h hdoes hdoes' (.inr hop) haction hsome hrest hrest')
      obtain ⟨fields, file, hone₂, hnew⟩ := hdoes.overwrites hop haction hsome
      rw [hone] at hone₂
      cases hone₂
      refine ⟨.same (by rw [hnew, hnew']), fun _ => .missing hone hnone ?_⟩
      unfold Awaited
      rw [if_pos rfl]
      refine ⟨hop, fun _ => ?_, fun hsuperseded => absurd hsuperseded hkept⟩
      cases hkind : c.action with
      | create => exact absurd hkind haction
      | edit => exact absurd hkind hedit
      | auto => rfl

theorem Lags.of_nil (h : Lags fielding F C title later) (hnil : F title = []) :
    C title = [] := by
  have hlength := h.length_le
  rw [hnil] at hlength
  exact List.length_eq_zero_iff.mp (Nat.le_zero.mp hlength)

/-- The one item of a title differs in its file only. -/
theorem Lags.alike {entry entry' : Entry Fields} (h : Lags fielding F C title later)
    (hone : F title = [entry]) (hone' : C title = [entry']) :
    entry = entry' ∨ ∃ fields file file', entry = ⟨fields, some file⟩ ∧
      entry' = ⟨fields, some file'⟩ ∧ file ≠ file' := by
  cases h with
  | same heq =>
    rw [hone, hone'] at heq
    cases heq
    exact .inl rfl
  | stale hone₁ hone₂ hne =>
    rw [hone] at hone₁
    rw [hone'] at hone₂
    cases hone₁
    cases hone₂
    exact .inr ⟨_, _, _, rfl, rfl, hne⟩
  | missing _ hnone =>
    rw [hone'] at hnone
    cases hnone

/-- An item that is renamed to a title with others is the same one in both runs. -/
theorem lags_renames (h : ∀ title, Lags fielding F C title (c :: later))
    (hdoes : Does fielding F c F') (hdoes' : Does fielding C c C')
    (hop : c.operation = .renameItem) (hrest : inOrder fielding later F' = .ok w)
    (hrest' : inOrder fielding (kept later) C' = .ok w) (title : String) :
    Lags fielding F' C' title later ∧
      ((∀ title, Near fielding F' C' title later) → Near fielding F C title (c :: later)) := by
  obtain ⟨entry, hone, hnew⟩ := hdoes.renamed hop
  obtain ⟨entry', hone', hnew'⟩ := hdoes'.renamed hop
  have halike := (h c.targetId).alike hone hone'
  have hgrown (hself : c.payload.dstTitle ≠ c.targetId) :
      F' c.payload.dstTitle = F c.payload.dstTitle ++ [entry] ∧
        C' c.payload.dstTitle = C c.payload.dstTitle ++ [entry'] :=
    ⟨hdoes.appends hop hone hself, hdoes'.appends hop hone' hself⟩
  have hothers (hself : c.payload.dstTitle ≠ c.targetId) (hsome : F c.payload.dstTitle ≠ []) :
      C c.payload.dstTitle = F c.payload.dstTitle ∧ entry = entry' := by
    have hpos := List.length_pos_iff.mpr hsome
    have hextends : F' c.payload.dstTitle <+: C' c.payload.dstTitle := by
      refine prefix_of_converges hrest hrest' ?_
      rw [(hgrown hself).1, List.length_append, List.length_singleton]
      omega
    rw [(hgrown hself).1, (hgrown hself).2] at hextends
    exact (h c.payload.dstTitle).grown hextends
  -- the item under its new title
  have hmoved : F' c.payload.dstTitle = [entry] ∧ C' c.payload.dstTitle = [entry'] ∨
      entry = entry' ∧ C' c.payload.dstTitle = F' c.payload.dstTitle := by
    by_cases hself : c.payload.dstTitle = c.targetId
    · rw [if_pos hself] at hnew hnew'
      rw [hself]
      exact .inl ⟨hnew, hnew'⟩
    · obtain ⟨hF, hC⟩ := hgrown hself
      by_cases hnone : F c.payload.dstTitle = []
      · rw [hnone] at hF
        rw [(h _).of_nil hnone] at hC
        exact .inl ⟨hF, hC⟩
      · obtain ⟨heq, rfl⟩ := hothers hself hnone
        exact .inr ⟨rfl, by rw [hF, hC, heq]⟩
  have hlags : Lags fielding F' C' c.payload.dstTitle later := by
    rcases hmoved with ⟨hF, hC⟩ | ⟨-, heq⟩
    · rcases halike with rfl | ⟨fields, file, file', rfl, rfl, hne⟩
      · exact .same (by rw [hF, hC])
      · exact .stale hF hC hne
    · exact .same heq
  by_cases hname : title = c.targetId
  · subst hname
    constructor
    · by_cases hself : c.payload.dstTitle = c.targetId
      · rwa [← hself]
      · rw [if_neg hself] at hnew hnew'
        exact .same (by rw [hnew, hnew'])
    · intro hnear
      rcases halike with rfl | ⟨fields, file, file', rfl, rfl, hne⟩
      · exact .same (by rw [hone, hone'])
      · refine .stale hone hone' ?_
        unfold Rewritten
        rw [hop]
        simp only [if_true]
        rcases hmoved with ⟨hF, hC⟩ | ⟨heq, -⟩
        · exact (hnear _).rewritten hF hC hne
        · cases heq
          exact absurd rfl hne
  · by_cases hdst : title = c.payload.dstTitle
    · subst hdst
      refine ⟨hlags, fun _ => .same ?_⟩
      by_cases hnone : F c.payload.dstTitle = []
      · rw [hnone, (h _).of_nil hnone]
      · exact (hothers hname hnone).1
    · have hother : ¬(c.operation = .renameItem ∧ c.payload.dstTitle = title) :=
        fun hrename => hdst hrename.2.symm
      rcases hdoes.elsewhere hname with ⟨-, hF⟩ | hrename
      · rcases hdoes'.elsewhere hname with ⟨-, hC⟩ | hrename
        · exact ⟨(h title).elsewhere hF hC, fun hnear =>
            (hnear title).before_of_ne (h title) (Ne.symm hname) hother hF hC⟩
        · exact absurd ⟨hrename.1, hrename.2.1⟩ hother
      · exact absurd ⟨hrename.1, hrename.2.1⟩ hother

theorem lags_kept (h : ∀ title, Lags fielding F C title (c :: later))
    (hdoes : Does fielding F c F') (hdoes' : Does fielding C c C') (hkept : ¬Superseded c later)
    (hrest : inOrder fielding later F' = .ok w)
    (hrest' : inOrder fielding (kept later) C' = .ok w) (title : String) :
    Lags fielding F' C' title later ∧
      ((∀ title, Near fielding F' C' title later) → Near fielding F C title (c :: later)) := by
  by_cases hop : c.operation = .renameItem
  · exact lags_renames h hdoes hdoes' hop hrest hrest' title
  · by_cases hname : title = c.targetId
    · subst hname
      exact lags_named (h c.targetId) hdoes hdoes' hkept hop hrest hrest'
    · rcases hdoes.elsewhere hname with ⟨hother, hF⟩ | hrename
      · rcases hdoes'.elsewhere hname with ⟨-, hC⟩ | hrename
        · exact ⟨(h title).elsewhere hF hC, fun hnear =>
            (hnear title).before_of_ne (h title) (Ne.symm hname) hother hF hC⟩
        · exact absurd hrename.1 hop
      · exact absurd hrename.1 hop

/-- A document that is created later than in order is also one that is stored again. -/
theorem Awaited.rewritten (h : Awaited title later) (hrun : inOrder fielding later F = .ok w)
    (hone : (F title).length = 1) : Rewritten title later := by
  induction later generalizing F with
  | nil => exact h
  | cons c later ih =>
    obtain ⟨F', hdoes, hrest⟩ := inOrder_cons hrun
    by_cases hname : c.targetId = title
    · subst hname
      obtain ⟨hop, hkept, hdropped⟩ := h.named rfl
      obtain ⟨entry, hentry⟩ := List.length_eq_one_iff.mp hone
      unfold Rewritten
      rw [hop]
      simp only [if_true]
      rcases hdoes.of_one hentry with ⟨haction, -, other, hnew⟩ | ⟨hitem, -⟩ |
          ⟨-, haction, -, hnew⟩ | hrename | ⟨hdelete, -⟩
      · by_cases hsuperseded : Superseded c later
        · refine absurd (hdropped hsuperseded) (not_awaited_of_crowded hrest ?_)
          rw [hnew]
          exact Nat.le_refl _
        · rw [hkept hsuperseded] at haction
          cases haction
      · rw [hop] at hitem
        cases hitem
      · exact ⟨haction, fun hsuperseded =>
          ih (hdropped hsuperseded) hrest (by rw [hnew]; rfl)⟩
      · rw [hop] at hrename
        cases hrename
      · rw [hop] at hdelete
        cases hdelete
    · obtain ⟨hother, hawaited⟩ := h.of_ne hname
      rcases hdoes.elsewhere (Ne.symm hname) with ⟨-, hF⟩ | hrename
      · exact (ih hawaited hrest (by rw [hF, hone])).cons_of_ne hname hother
      · exact absurd ⟨hrename.1, hrename.2.1⟩ hother

theorem Does.file_of_mem (h : Does fielding v c v') {entry : Entry Fields}
    (hentry : entry ∈ v' title) :
    (∃ title, ∃ before ∈ v title, before.file = entry.file) ∨ entry.file = none ∨
      c.operation = .storeDocument ∧ entry.file = some c.file := by
  have hcreate {other : String} {u : Vault Fields} {made : Entry Fields}
      (h : entry ∈ create u other made title) : entry ∈ u title ∨ entry = made := by
    unfold create Function.update at h
    split at h
    next heq =>
      subst heq
      simpa using h
    next => exact .inl h
  have hupdate {other : String} {list : List (Entry Fields)}
      (h : entry ∈ Function.update v other list title) : entry ∈ v title ∨ entry ∈ list := by
    unfold Function.update at h
    split at h
    next heq =>
      subst heq
      exact .inr h
    next => exact .inl h
  cases h with
  | makesItem =>
    rcases hcreate hentry with hbefore | rfl
    · exact .inl ⟨title, entry, hbefore, rfl⟩
    · exact .inr (.inl rfl)
  | @editsItem _ before _ _ _ hone =>
    rcases hupdate hentry with hbefore | hnew
    · exact .inl ⟨title, entry, hbefore, rfl⟩
    · cases List.mem_singleton.mp hnew
      exact .inl ⟨c.targetId, before, by rw [hone]; exact List.mem_singleton_self _, rfl⟩
  | makesDocument hop =>
    rcases hcreate hentry with hbefore | rfl
    · exact .inl ⟨title, entry, hbefore, rfl⟩
    · exact .inr (.inr ⟨hop, rfl⟩)
  | editsDocument hop =>
    rcases hupdate hentry with hbefore | hnew
    · exact .inl ⟨title, entry, hbefore, rfl⟩
    · cases List.mem_singleton.mp hnew
      exact .inr (.inr ⟨hop, rfl⟩)
  | @renames before _ hone =>
    rcases hcreate hentry with hbefore | rfl
    · rcases hupdate hbefore with hbefore | hnil
      · exact .inl ⟨title, entry, hbefore, rfl⟩
      · cases hnil
    · exact .inl ⟨c.targetId, entry, by rw [hone]; exact List.mem_singleton_self _, rfl⟩
  | deletes =>
    rcases hupdate hentry with hbefore | hnil
    · exact .inl ⟨title, entry, hbefore, rfl⟩
    · cases hnil

theorem Fresh.step (h : Fresh v (c :: later)) (hdistinct : Distinct (c :: later))
    (hdoes : Does fielding v c v') : Fresh v' later := by
  intro title entry hentry d hd hstore hfile
  rcases hdoes.file_of_mem hentry with ⟨other, before, hbefore, heq⟩ | hnone | ⟨hop, heq⟩
  · exact h other before hbefore d (List.mem_cons_of_mem _ hd) hstore (heq.trans hfile)
  · rw [hnone] at hfile
    cases hfile
  · rw [heq] at hfile
    exact (List.pairwise_cons.mp hdistinct).1 d hd hop hstore (Option.some.inj hfile)

/-- Where both runs come to one vault, all that was dropped is made up for. -/
theorem near_of_converges (queue : List QueuedCommand)
    (h : ∀ title, Lags fielding F C title queue) (hfresh : Fresh C queue)
    (hdistinct : Distinct queue) (hseparate : Separate queue)
    (hrun : inOrder fielding queue F = .ok w)
    (hrun' : inOrder fielding (kept queue) C = .ok w) :
    (∀ title, Near fielding F C title queue) ∧ Harmless fielding F queue := by
  induction queue generalizing F C with
  | nil =>
    cases hrun
    cases hrun'
    exact ⟨fun _ => .same rfl, trivial⟩
  | cons c later ih =>
    obtain ⟨F', hdoes, hrest⟩ := inOrder_cons hrun
    have hlater : Separate later := fun d hd e he =>
      hseparate d (List.mem_cons_of_mem _ hd) e (List.mem_cons_of_mem _ he)
    have hnext {u : Vault Fields} (h : execute fielding F c = .ok u) : u = F' :=
      Except.ok.inj (h.symm.trans hdoes.execute)
    rw [kept] at hrun'
    split at hrun'
    next hsuperseded =>
      have hstep := lags_dropped h hdoes hsuperseded hfresh hseparate hrest hrun'
      obtain ⟨hnear, hharmless⟩ := ih (fun title => (hstep title).1) hfresh.tail
        (List.pairwise_cons.mp hdistinct).2 hlater hrest hrun'
      refine ⟨fun title => (hstep title).2 hnear, fun _ => ?_,
        fun u hu => hnext hu ▸ hharmless⟩
      have hop := hsuperseded.1
      by_cases hnone : F c.targetId = []
      · rw [if_pos (.inl hnone)]
        obtain ⟨-, hitem | ⟨-, hone⟩⟩ := hdoes.of_nil hnone
        · rw [hop] at hitem
          cases hitem
        · refine (hnear c.targetId).awaited ?_ ((h _).of_nil hnone)
          rw [hone]
          exact List.cons_ne_nil _ _
      · have haction := not_created_of_dropped (h c.targetId) hdoes hop hnone hrest hrun'
        rw [if_neg (not_or.mpr ⟨hnone, haction⟩)]
        obtain ⟨fields, file, hone, hnew⟩ := hdoes.overwrites hop haction hnone
        cases (hstep c.targetId).1 with
        | same heq =>
          have hother := hfresh c.targetId ⟨fields, some c.file⟩
            (by rw [heq, hnew]; exact List.mem_singleton_self _) c List.mem_cons_self hop
          exact absurd rfl hother
        | stale hone₁ hone₂ hne => exact (hnear c.targetId).rewritten hone₁ hone₂ hne
        | missing hone₁ hnone' =>
          refine Awaited.rewritten ((hnear c.targetId).awaited ?_ hnone') hrest ?_
          · rw [hone₁]
            exact List.cons_ne_nil _ _
          · rw [hone₁]
            rfl
    next hkept =>
      obtain ⟨C', hdoes', hrest'⟩ := inOrder_cons hrun'
      have hstep := lags_kept h hdoes hdoes' hkept hrest hrest'
      obtain ⟨hnear, hharmless⟩ := ih (fun title => (hstep title).1)
        (hfresh.step hdistinct hdoes') (List.pairwise_cons.mp hdistinct).2 hlater hrest hrest'
      exact ⟨fun title => (hstep title).2 hnear, fun hsuperseded => absurd hsuperseded hkept,
        fun u hu => hnext hu ▸ hharmless⟩

end

/-! ## The collapsed queue -/

section

variable {queue later : List QueuedCommand} {c : QueuedCommand} {title : String}

theorem lookup_of_none (hnone : ¬∃ d ∈ queue, d.operation = .storeDocument ∧ d.targetId = title)
    (start : ℕ) (last : List (String × ℕ)) :
    ((queue.zipIdx start).foldl insertLast last).lookup title = last.lookup title := by
  induction queue generalizing start last with
  | nil => rfl
  | cons d rest ih =>
    simp only [List.exists_mem_cons_iff, not_or] at hnone
    rw [List.zipIdx_cons, List.foldl_cons, ih hnone.2, insertLast]
    by_cases hop : d.operation = .storeDocument
    · have hne : title ≠ d.targetId := fun heq => hnone.1 ⟨hop, heq.symm⟩
      rw [if_pos hop, List.lookup_cons, beq_eq_false_iff_ne.mpr hne]
    · rw [if_neg hop]

/-- The index of a store that nothing later stores again. -/
theorem lookup_of_last (hop : c.operation = .storeDocument)
    (hnone : ¬∃ d ∈ later, d.operation = .storeDocument ∧ d.targetId = c.targetId)
    (start : ℕ) (last : List (String × ℕ)) :
    (((c :: later).zipIdx start).foldl insertLast last).lookup c.targetId = some start := by
  rw [List.zipIdx_cons, List.foldl_cons, lookup_of_none hnone, insertLast, if_pos hop,
    List.lookup_cons_self]

theorem lookup_of_some (h : ∃ d ∈ queue, d.operation = .storeDocument ∧ d.targetId = title)
    (start : ℕ) (last : List (String × ℕ)) :
    ∃ i, start ≤ i ∧
      ((queue.zipIdx start).foldl insertLast last).lookup title = some i := by
  induction queue generalizing start last with
  | nil =>
    obtain ⟨d, hd, -⟩ := h
    cases hd
  | cons d rest ih =>
    by_cases hrest : ∃ d ∈ rest, d.operation = .storeDocument ∧ d.targetId = title
    · obtain ⟨i, hstart, hlookup⟩ := ih hrest (start + 1) (insertLast last (d, start))
      refine ⟨i, by omega, ?_⟩
      rw [List.zipIdx_cons, List.foldl_cons, hlookup]
    · obtain ⟨hop, rfl⟩ := ((List.exists_mem_cons_iff ..).mp h).resolve_right hrest
      exact ⟨start, Nat.le_refl _, lookup_of_last hop hrest start last⟩

theorem kept_of_suffix (before queue : List QueuedCommand) :
    ((queue.zipIdx before.length).filter fun entry =>
      if entry.1.operation = .storeDocument then
        decide ((lastStoreDoc (before ++ queue)).lookup entry.1.targetId = some entry.2)
      else true).map Prod.fst = kept queue := by
  induction queue generalizing before with
  | nil => rfl
  | cons c later ih =>
    have hlater := ih (before ++ [c])
    rw [List.append_assoc, List.singleton_append, List.length_append, List.length_singleton]
      at hlater
    have hlast : lastStoreDoc (before ++ c :: later) =
        ((c :: later).zipIdx before.length).foldl insertLast (lastStoreDoc before) := by
      rw [lastStoreDoc, List.zipIdx_append, List.foldl_append, Nat.zero_add]
      rfl
    rw [List.zipIdx_cons, List.filter_cons, kept]
    by_cases hop : c.operation = .storeDocument
    · by_cases hsuperseded : Superseded c later
      · obtain ⟨i, hstart, hlookup⟩ := lookup_of_some hsuperseded.2 (before.length + 1)
          (insertLast (lastStoreDoc before) (c, before.length))
        have hother : ¬(lastStoreDoc (before ++ c :: later)).lookup c.targetId =
            some before.length := by
          rw [hlast, List.zipIdx_cons, List.foldl_cons, hlookup, Option.some.injEq]
          omega
        rw [if_pos hsuperseded, if_neg (by simp only [if_pos hop, hother]; simp), hlater]
      · have hself : (lastStoreDoc (before ++ c :: later)).lookup c.targetId =
            some before.length := by
          rw [hlast]
          exact lookup_of_last hop (fun hstored => hsuperseded ⟨hop, hstored⟩) _ _
        rw [if_neg hsuperseded, if_pos (by simp only [if_pos hop, hself, decide_true]),
          List.map_cons, hlater]
    · rw [if_neg fun hsuperseded : Superseded c later => hop hsuperseded.1,
        if_pos (by rw [if_neg hop]), List.map_cons, hlater]

theorem collapseQueue_eq (queue : List QueuedCommand) : collapseQueue queue = kept queue :=
  kept_of_suffix [] queue

end

/-! ## Flushing -/

section

variable {Assignment Fields : Type} {fielding : Fielding Assignment Fields}
  {queue : List QueuedCommand} {v w : Vault Fields}

theorem inOrder_of_flush {results : List FlushResult}
    (h : flushCommands fielding queue v = (results, w))
    (hsuccess : ∀ r ∈ results, r.success = true) : inOrder fielding queue v = .ok w := by
  induction queue generalizing v results with
  | nil =>
    cases h
    rfl
  | cons c later ih =>
    rw [flushCommands] at h
    split at h
    next v' hexecute =>
      cases h
      exact bind_eq_ok.mpr ⟨v', hexecute, ih rfl fun r hr =>
        hsuccess r (List.mem_cons_of_mem _ hr)⟩
    next =>
      cases h
      cases hsuccess _ List.mem_cons_self

/-- Each command of a flush succeeds, and the vault is the one it would be in order. -/
def Keeps (fielding : Fielding Assignment Fields) (queue : List QueuedCommand)
    (v w : Vault Fields) : Prop :=
  ∃ results, flush fielding queue v = (results, w) ∧ ∀ r ∈ results, r.success = true

/-- Where all that is queued can be done in order, it is kept when no dropped store is
missed; and, were no two documents alike, only then. -/
theorem flush_keeps (hrun : inOrder fielding queue v = .ok w) :
    (Harmless fielding v queue → Keeps fielding queue v w) ∧
    (Fresh v queue → Distinct queue → Separate queue → Keeps fielding queue v w →
      Harmless fielding v queue) := by
  unfold Keeps
  rw [flush, collapseQueue_eq]
  constructor
  · exact near_run queue (fun _ => .same rfl) hrun
  · rintro hfresh hdistinct hseparate ⟨results, hflush, hsuccess⟩
    exact (near_of_converges queue (fun _ => .same rfl) hfresh hdistinct hseparate hrun
      (inOrder_of_flush hflush hsuccess)).2

end

/-! ### Samples -/

/-- Items with nothing but a title. -/
def sampleFielding : Fielding Unit Unit where
  parse _ := .ok ()
  new _ _ := .ok ()
  set _ _ := .ok ()
  document := ()

def sampleStore (title action content : String) : QueuedCommand where
  operation := .storeDocument
  targetType := "database"
  targetId := title
  payload := { action, filename := "ca.sql", content }

/-- A document that is stored twice in one flush. -/
def storedTwice : List QueuedCommand := [sampleStore "A" "auto" "1", sampleStore "A" "auto" "2"]

theorem storedTwice_kept : ∃ w, Keeps sampleFielding storedTwice (fun _ => []) w := by
  have hharmless : Harmless sampleFielding (fun _ => []) storedTwice := by
    refine ⟨fun _ => ?_, fun v' _ => ⟨fun hsuperseded => ?_, fun _ _ => trivial⟩⟩
    · simp [Awaited, Superseded, sampleStore, QueuedCommand.action, parseStoreAction]
    · exact absurd hsuperseded (by decide)
  exact ⟨_, (flush_keeps rfl).1 hharmless⟩

/-- A document that is created and then edited in one flush. -/
def createdThenEdited : List QueuedCommand :=
  [sampleStore "A" "create" "1", sampleStore "A" "edit" "2"]

/-- In order, both can be done; in a flush, there is nothing to edit. -/
theorem createdThenEdited_lost :
    (∃ w, inOrder sampleFielding createdThenEdited (fun _ => []) = .ok w ∧
      w "A" = [⟨(), some ("ca.sql", "2")⟩]) ∧
    flush sampleFielding createdThenEdited (fun _ => []) =
      ([⟨.storeDocument, "A", false, some .itemNotFound⟩], fun _ => []) := by
  refine ⟨⟨_, rfl, ?_⟩, rfl⟩
  simp [createDocument, create, sampleStore, QueuedCommand.file]

end Opca.Core.CommandQueue

import ConcurrencyFaults.Proofs.Amendment
import ConcurrencyFaults.Proofs.Keeping
import ConcurrencyFaults.Proofs.Operators

/-!
# Marks on edited calls

A call that a request edits is marked, and so is a call that it adds; marked calls are left alone
afterwards.  This is a relation between the workspaces before and after a request (`Respects`):
marks stay, what was marked and live is still there up to redirection, and a call without a mark is
one that was there before.  The relation is transitive, so it holds between any two moments of a
session.

A request may be about a call only if the call has no mark.  What a piece of work is about is listed
by `Reworks`, which does not ask for marks yet: the calls of the list may be gone or changed
afterwards, all others are as they were, and all new ones are marked.

## Strategy

* What edits do to a program is said by `Amended` (`Amendment.lean`); `Reworks` adds that the new
  instructions are marked (`Reworks.of_amended`).
* Work is followed edit by edit, with the lists of what it is about put together
  (`Reworks.trans`).  Edits that are refused need no care: a run ends there
  (`Work.runs_bind_edit_of`).
* In the end the list is compared with the marks: a request about calls without a mark respects
  marks (`Reworks.respects`).
-/

namespace ConcurrencyFaults

open Program

/-! ## Respecting marks

The first relation is what is to be shown of a request, the second is what can be shown of the parts
that a request consists of. -/

/-- Marks stay, marked instructions stay as they are up to redirection, and calls without a mark
were there before. -/
structure Respects (before after : Workspace) : Prop where
  edited : ∀ handle, before.ledger.isEdited handle → after.ledger.isEdited handle
  stays : ∀ {handle entry}, before.program.placed? handle = some entry →
    before.ledger.isEdited handle →
      ∃ found, after.program.placed? handle = some found ∧ entry.Redirects found
  known : ∀ {handle found}, after.program.placed? handle = some found →
    found.instruction.operation.callForm? ≠ none → ¬ after.ledger.isEdited handle →
      ∃ entry, before.program.placed? handle = some entry ∧ entry.Redirects found

/-- Apart from some handles, instructions were left alone up to redirection, and the calls that were
added are marked. -/
structure Reworks (gone : List Handle) (before after : Workspace) : Prop where
  edited : ∀ handle, before.ledger.isEdited handle → after.ledger.isEdited handle
  amended : ∃ new, before.program.Amended after.program gone new ∧
    ∀ handle ∈ new, after.ledger.isEdited handle

section Relations

variable {before between after workspace : Workspace} {gone later : List Handle}

theorem Respects.trans (hfirst : Respects before between) (hsecond : Respects between after) :
    Respects before after := by
  refine ⟨fun handle hmarked => hsecond.edited handle (hfirst.edited handle hmarked), ?_, ?_⟩
  · intro handle entry hplaced hmarked
    obtain ⟨middle, hmiddle, hredirects⟩ := hfirst.stays hplaced hmarked
    obtain ⟨found, hfound, hlater⟩ := hsecond.stays hmiddle (hfirst.edited handle hmarked)
    exact ⟨found, hfound, hredirects.trans hlater⟩
  · intro handle found hfound hcall hunmarked
    obtain ⟨middle, hmiddle, hlater⟩ := hsecond.known hfound hcall hunmarked
    obtain ⟨entry, hplaced, hredirects⟩ := hfirst.known hmiddle (hlater.callForm?_eq ▸ hcall)
      fun hmarked => hunmarked (hsecond.edited handle hmarked)
    exact ⟨entry, hplaced, hredirects.trans hlater⟩

instance : Trans Respects Respects Respects := ⟨Respects.trans⟩

theorem Reworks.of_amended {program : Program} {ledger : Ledger} {new : List Handle}
    (hamended : workspace.program.Amended program gone new)
    (hnew : ∀ handle ∈ new, ledger.isEdited handle)
    (hedited : ∀ handle, workspace.ledger.isEdited handle → ledger.isEdited handle) :
    Reworks gone workspace { program, ledger } :=
  ⟨hedited, new, hamended, hnew⟩

theorem Reworks.consistent (hreworks : Reworks gone before after) : after.program.Consistent := by
  obtain ⟨new, hamended, -⟩ := hreworks.amended
  exact hamended.consistent

theorem Reworks.trans (hfirst : Reworks gone before between)
    (hsecond : Reworks later between after) : Reworks (later ++ gone) before after := by
  obtain ⟨new, hamended, hnew⟩ := hfirst.amended
  obtain ⟨more, hlater, hmore⟩ := hsecond.amended
  refine ⟨fun handle hmarked => hsecond.edited handle (hfirst.edited handle hmarked),
    more ++ new, hamended.trans hlater, fun handle hmem => ?_⟩
  rcases List.mem_append.mp hmem with hmem | hmem
  · exact hmore handle hmem
  · exact hsecond.edited handle (hnew handle hmem)

theorem Reworks.mono (hreworks : Reworks gone before after) (hgone : gone ⊆ later) :
    Reworks later before after := by
  obtain ⟨new, hamended, hnew⟩ := hreworks.amended
  exact ⟨hreworks.edited, new,
    hamended.mono (fun _ hmem => Or.inl (hgone hmem)) (fun _ hmem => Or.inl hmem), hnew⟩

theorem Reworks.of_noted (consistent : before.program.Consistent) (hnoted : Noted before after) :
    Reworks [] before after := by
  refine ⟨hnoted.edited, [], ?_, by simp⟩
  rw [hnoted.program_eq]
  exact Amended.refl consistent

/-- Work respects marks if it is about calls without a mark. -/
theorem Reworks.respects (hreworks : Reworks gone before after)
    (hunmarked : ∀ handle ∈ gone, before.ledger.isEdited handle = false) :
    Respects before after := by
  obtain ⟨new, hamended, hnew⟩ := hreworks.amended
  refine ⟨hreworks.edited, ?_, ?_⟩
  · intro handle entry hplaced hmarked
    refine hamended.stays hplaced fun hmem => ?_
    rw [hunmarked handle hmem] at hmarked
    cases hmarked
  · intro handle found hfound hcall hunmarked
    exact hamended.known hfound hcall fun hmem => hunmarked (hnew handle hmem)

theorem Reworks.refl (consistent : workspace.program.Consistent) (gone : List Handle) :
    Reworks gone workspace workspace :=
  (Reworks.of_noted consistent ⟨rfl, fun _ h => h⟩).mono (List.nil_subset gone)

theorem Respects.of_noted (consistent : before.program.Consistent) (hnoted : Noted before after) :
    Respects before after :=
  (Reworks.of_noted consistent hnoted).respects (by simp)

theorem Respects.refl (consistent : workspace.program.Consistent) :
    Respects workspace workspace :=
  Respects.of_noted consistent ⟨rfl, fun _ h => h⟩

end Relations

/-! ## Following work

Edits amend the program, questions leave it alone, and notes and marks only add to the ledger. -/

namespace Work

variable {Answer Other : Type} {workspace : Workspace} {gone : List Handle}

/-- What is known of the answers of an edit is all that the rest may rely on. -/
theorem runs_bind_edit_of {change : Edit Answer} {next : Answer → Work Other}
    {known : Answer → Program → Prop} {answered : Other → Workspace → Prop}
    (hchange : Runs change workspace.program known fun _ _ => True)
    (hnext : ∀ answer program, known answer program →
      Runs (next answer) { workspace with program } answered fun _ _ => True) :
    Runs (edit change >>= next) workspace answered fun _ _ => True := by
  cases hresult : change workspace.program with
  | ok answer program =>
      unfold Runs at hchange
      rw [hresult] at hchange
      exact runs_bind_edit hresult (hnext answer program hchange)
  | error problem program =>
      have hrefused : edit change workspace = .error problem { workspace with program } := by
        unfold edit
        rw [hresult]
      exact runs_bind (runs_of_error hrefused trivial)

theorem runs_bind_ask {question : Program → Except EditError Answer} {next : Answer → Work Other}
    {answered : Other → Workspace → Prop}
    (hnext : ∀ answer, Runs (next answer) workspace answered fun _ _ => True) :
    Runs (query question >>= next) workspace answered fun _ _ => True :=
  runs_bind_query_of (fun answer _ => hnext answer) fun _ _ => trivial

theorem reworks_skip (consistent : workspace.program.Consistent) (message : String) :
    Runs (do
      warn message
      return false : Work Bool) workspace (fun _ => Reworks gone workspace) fun _ _ => True := by
  have hnoted := Reworks.of_noted consistent
    (show Noted workspace
      { workspace with ledger := workspace.ledger.record (.warning message) } from
      ⟨rfl, fun _ h => h⟩)
  exact runs_bind_warn (runs_pure (hnoted.mono (List.nil_subset gone)))

/-- Only calls without a mark are untouched. -/
theorem runs_isUntouched_unmarked {refused : EditError → Workspace → Prop} (pass : String)
    (site : CallSite) :
    Runs (isUntouched pass site) workspace
      (fun answer after => Noted workspace after ∧
        (answer = true → after = workspace ∧ workspace.ledger.isEdited site.handle = false))
      refused := by
  unfold isUntouched isEdited
  refine runs_bind (runs_bind (runs_get (runs_pure ?_)))
  split
  · exact runs_bind_warn (runs_pure ⟨⟨rfl, fun _ h => h⟩, by simp⟩)
  · rename_i hunmarked
    refine runs_bind (runs_get ?_)
    split
    · exact runs_pure ⟨⟨rfl, fun _ h => h⟩, fun _ => ⟨rfl, by simpa using hunmarked⟩⟩
    · exact runs_bind_warn (runs_pure ⟨⟨rfl, fun _ h => h⟩, by simp⟩)

end Work

/-! ## Operators that change one call at a time

Each handler is about the one call that it is given, or about no call if it only adds code. -/

open Work

variable {workspace : Workspace}

namespace Condition

theorem reworks_remove (consistent : workspace.program.Consistent) (pass : String)
    (site : CallSite) :
    Runs (remove pass site) workspace (fun _ => Reworks [site.handle] workspace)
      fun _ _ => True := by
  unfold remove
  refine runs_bind_edit_of (site.amends_remove _ consistent) fun _ program hremoved => ?_
  refine runs_bind_markEdited (runs_bind_recordChange fun entry => runs_pure ?_)
  exact Reworks.of_amended hremoved (by simp) fun _ hmarked => by simp [hmarked]

theorem reworks_retarget (consistent : workspace.program.Consistent) (pass : String)
    (site : CallSite) (replacement : Instruction) (message : String) :
    Runs (retarget pass site replacement message) workspace
      (fun _ => Reworks [site.handle] workspace) fun _ _ => True := by
  unfold retarget
  refine runs_bind_edit_of (amends_replaceWith site.handle replacement _ consistent) ?_
  intro handle program hreplaced
  refine runs_bind_markEdited (runs_bind_markEdited (runs_bind_recordChange fun entry => ?_))
  exact runs_pure (Reworks.of_amended hreplaced (by simp) fun _ hmarked => by simp [hmarked])

/-- Declaring the new target changes no instruction. -/
theorem reworks_declare_retarget (consistent : workspace.program.Consistent) (name : String)
    (parameters : List Ty) (pass : String) (site : CallSite) (arguments : List Operand)
    (result : Ty) (message : String) :
    Runs (do
      let target ← Work.update (·.getOrDeclare name .status parameters)
      retarget pass site (site.cloneWith target arguments result) message) workspace
      (fun _ => Reworks [site.handle] workspace) fun _ _ => True := by
  have hdeclared := Amended.of_placed?_eq
    (consistent.getOrDeclare name .status parameters)
    (placed?_getOrDeclare workspace.program name .status parameters)
  refine runs_bind_update ((reworks_retarget hdeclared.consistent pass site _ message).weaken ?_)
  intro _ after hafter
  have hfirst : Reworks [] workspace
      { workspace with program := (workspace.program.getOrDeclare name .status parameters).2 } :=
    Reworks.of_amended hdeclared (by simp) fun _ h => h
  exact hfirst.trans hafter

end Condition

theorem SignalOperator.reworks_apply (consistent : workspace.program.Consistent)
    (change : SignalChange) (site : CallSite) :
    Runs (apply change site) workspace (fun _ => Reworks [site.handle] workspace)
      fun _ _ => True := by
  unfold apply
  split
  · exact reworks_skip consistent _
  · cases change with
    | remove => exact Condition.reworks_remove consistent _ site
    | swap => exact Condition.reworks_declare_retarget consistent _ _ _ site _ _ _

namespace WaitOperator

theorem reworks_untime (consistent : workspace.program.Consistent) (site : CallSite) :
    Runs (untime site) workspace (fun _ => Reworks [site.handle] workspace) fun _ _ => True := by
  unfold untime
  split
  · exact reworks_skip consistent _
  · split
    · exact reworks_skip consistent _
    · exact Condition.reworks_declare_retarget consistent _ _ _ site _ _ _

theorem reworks_moveDeadline (consistent : workspace.program.Consistent) (site : CallSite)
    (seconds nanoseconds : Int) (point : Option Nat) :
    Runs (moveDeadline site seconds nanoseconds point) workspace (fun _ => Reworks [] workspace)
      fun _ _ => True := by
  unfold moveDeadline
  split
  · exact reworks_skip consistent _
  · split
    · extract_lets rest
      have hrest : ∀ handles, Runs (rest handles) workspace (fun _ => Reworks [] workspace)
          fun _ _ => True := by
        intro handles
        simp only [rest]
        split
        · refine runs_bind_edit_of (amends_addToField _ _ _ _ _ _ consistent) ?_
          intro first between hfirst
          refine runs_bind_edit_of (amends_addToField _ _ _ _ _ _ hfirst.consistent) ?_
          intro second after hsecond
          refine runs_bind_markAll (runs_bind_markEdited (runs_bind_ask fun position =>
            runs_bind_recordChange fun entry => runs_pure ?_))
          exact Reworks.of_amended (hfirst.trans hsecond) (by simp)
            fun _ hmarked => by simp [hmarked]
        · exact runs_bind_record (runs_pure (Reworks.of_noted consistent ⟨rfl, fun _ h => h⟩))
      split
      · exact hrest []
      · exact runs_bind_ask hrest
    · exact reworks_skip consistent _

theorem reworks_apply (consistent : workspace.program.Consistent) (change : WaitChange)
    (request : Nat) (site : CallSite) :
    Runs (apply change request site) workspace (fun _ => Reworks [site.handle] workspace)
      fun _ _ => True := by
  cases change with
  | remove => exact Condition.reworks_remove consistent _ site
  | untime => exact reworks_untime consistent site
  | timeout seconds nanoseconds points =>
      exact (reworks_moveDeadline consistent site _ _ _).weaken fun _ _ hmoved =>
        hmoved.mono (by simp)

end WaitOperator

namespace SemaphoreOperator

theorem runs_valueFor_noted {refused : EditError → Workspace → Prop} (plan : SemaphorePlan)
    (request : Nat) :
    Runs (valueFor plan request) workspace (fun _ => Noted workspace) refused := by
  unfold valueFor
  extract_lets rest
  have hrest : ∀ value state, Noted workspace state →
      Runs (rest value) state (fun _ => Noted workspace) refused := by
    intro value state hnoted
    simp only [rest]
    split
    · exact runs_bind_warn (runs_pure (hnoted.trans ⟨rfl, fun _ h => h⟩))
    · exact runs_pure hnoted
  split
  · exact hrest _ _ ⟨rfl, fun _ h => h⟩
  · exact runs_bind_warn (hrest _ _ ⟨rfl, fun _ h => h⟩)

theorem reworks_setValue (consistent : workspace.program.Consistent) (site : CallSite)
    (value : Nat) :
    Runs (setValue site value) workspace (fun _ => Reworks [site.handle] workspace)
      fun _ _ => True := by
  have hnothing := Reworks.refl consistent [site.handle]
  unfold setValue
  split
  · split
    · exact reworks_skip consistent _
    · refine runs_bind_ask fun instruction => ?_
      split
      · exact runs_pure hnothing
      · split
        · exact runs_pure hnothing
        · refine runs_bind_edit_of (amends_changeInstruction site.handle _ _ consistent) ?_
          intro _ program hchanged
          refine runs_bind_markEdited (runs_bind_recordChange fun entry => runs_pure ?_)
          exact Reworks.of_amended hchanged (by simp) fun _ hmarked => by simp [hmarked]
  · exact runs_pure hnothing

theorem reworks_handler (consistent : workspace.program.Consistent) (plan : SemaphorePlan)
    (request : Nat) (site : CallSite) :
    Runs (do
      let value ← valueFor plan request
      setValue site value) workspace (fun _ => Reworks [site.handle] workspace)
      fun _ _ => True := by
  refine (runs_valueFor_noted plan request).bind fun value between hnoted => ?_
  have hsame : between.program.Consistent := hnoted.holds consistent
  refine (reworks_setValue hsame site value).weaken fun _ after hafter => ?_
  have hboth := (Reworks.of_noted consistent hnoted).trans hafter
  rwa [List.append_nil] at hboth

end SemaphoreOperator

theorem YieldOperator.reworks_remove (consistent : workspace.program.Consistent)
    (site : CallSite) :
    Runs (remove site) workspace (fun _ => Reworks [site.handle] workspace) fun _ _ => True := by
  unfold remove
  refine runs_bind_ask fun uses => ?_
  split
  · exact reworks_skip consistent _
  · refine runs_bind_edit_of (site.amends_branchToNormal _ consistent) ?_
    intro _ between hbranched
    refine runs_bind_edit_of (amends_erase site.handle _ hbranched.consistent) ?_
    intro _ after herased
    refine runs_bind_markEdited (runs_bind_recordChange fun entry => runs_pure ?_)
    exact Reworks.of_amended (hbranched.trans herased) (by simp) fun _ hmarked => by simp [hmarked]

namespace JoinOperator

theorem reworks_remove (consistent : workspace.program.Consistent) (site : CallSite) :
    Runs (remove site) workspace (fun _ => Reworks [site.handle] workspace) fun _ _ => True := by
  unfold remove
  refine runs_bind_edit_of (site.amends_remove _ consistent) fun _ program hremoved => ?_
  refine runs_bind_recordChange fun entry => runs_pure ?_
  exact Reworks.of_amended hremoved (by simp) fun _ hmarked => by simp [hmarked]

/-- The sleep that takes the place of a join is marked. -/
theorem reworks_replaceWithSleep (consistent : workspace.program.Consistent) (site : CallSite)
    (seconds : Nat) :
    Runs (replaceWithSleep site seconds) workspace (fun _ => Reworks [site.handle] workspace)
      fun _ _ => True := by
  unfold replaceWithSleep
  extract_lets isStandard rest
  have hrest : ∀ uses, Runs (rest uses) workspace (fun _ => Reworks [site.handle] workspace)
      fun _ _ => True := by
    intro uses
    simp only [rest]
    split
    · exact reworks_skip consistent _
    · have hdeclared := Amended.of_placed?_eq (consistent.getOrDeclare "sleep" .status [.status])
        (placed?_getOrDeclare workspace.program "sleep" .status [.status])
      have hreplace : ∀ sleep : Instruction,
          Edit.Amends (if isStandard then sleepBefore site sleep else site.replace sleep)
            [site.handle] fun handle => [handle] := by
        intro sleep
        split
        · exact amends_sleepBefore site sleep
        · exact site.amends_replace sleep
      -- the target is declared before anything is replaced
      refine runs_bind_update (runs_bind_edit_of (hreplace _ _ hdeclared.consistent) ?_)
      intro handle program hreplaced
      refine runs_bind_markEdited (runs_bind_recordChange fun entry => runs_pure ?_)
      exact Reworks.of_amended (hdeclared.trans hreplaced) (by simp)
        fun _ hmarked => by simp [hmarked]
  split
  · exact runs_bind_ask hrest
  · exact hrest 0

theorem reworks_handler (consistent : workspace.program.Consistent) (change : JoinChange)
    (site : CallSite) :
    Runs (do
      let changed ← apply change site
      Work.markEdited site.handle
      return changed) workspace (fun _ => Reworks [site.handle] workspace) fun _ _ => True := by
  have happly : Runs (apply change site) workspace (fun _ => Reworks [site.handle] workspace)
      fun _ _ => True := by
    cases change with
    | remove => exact reworks_remove consistent site
    | sleep seconds => exact reworks_replaceWithSleep consistent site seconds
  refine happly.bind fun changed between hbetween => runs_bind_markEdited (runs_pure ?_)
  have hmarked : Noted between
      { between with ledger := between.ledger.markEdited site.handle } :=
    ⟨rfl, fun _ hmarked => by simp [hmarked]⟩
  exact hbetween.trans (Reworks.of_noted hbetween.consistent hmarked)

end JoinOperator

end ConcurrencyFaults

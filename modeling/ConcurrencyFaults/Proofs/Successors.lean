import ConcurrencyFaults.Proofs.Locking.Marking
import ConcurrencyFaults.Proofs.PairMatching
import ConcurrencyFaults.Proofs.Succession

/-!
# What takes the place of a call

The operators on calls differ in what they put in the place of a call: a zero of the status width, a
sleep, a call of another function, or the same call somewhere else.  A POSIX primitive returns a
status and a method of the C++ library nothing (`primitiveResult`), and in each case the successor
returns what the call returned, or the call returned nothing.  The functions that are declared for
this are given by name; that they exist with another type does not matter, since the new call brings
its own.

Each handler is followed edit by edit; that its edits supersede the call they are about was shown in
`Succession`.  Declarations in front only add to the program (`Adds.trans_supersedes`), and marks
and entries do not touch it.
-/

namespace ConcurrencyFaults

open Program Work

/-- What the primitives return that operators look for: POSIX functions return a status and the
methods of the C++ library nothing. -/
def primitiveResult (key : String) : Ty :=
  if "std::".toList.isPrefixOf key.toList then .void else .status

theorem primitiveResult_eq (key : String) :
    primitiveResult key = .void ∨ primitiveResult key = .status := by
  unfold primitiveResult
  split
  · exact Or.inl rfl
  · exact Or.inr rfl

variable {site : CallSite} {workspace : Workspace}

theorem runs_skip_supersedes (consistent : workspace.program.Consistent) (message : String)
    (handles : List Handle) (count : Nat) {refused : EditError → Workspace → Prop} :
    Runs (do
      warn message
      return false : Work Bool) workspace
      (fun _ after => workspace.program.Supersedes after.program handles count) refused :=
  runs_bind_warn (runs_pure (.refl consistent handles count))

/-! ## Single calls

What the call returned is known from its capture, since it is intact when its request is handled.
-/

section Calls

variable (consistent : workspace.program.Consistent) (hintact : site.Intact workspace.program)
include consistent hintact

namespace Condition

theorem runs_remove_supersedes (hstatus : site.result = .void ∨ site.result = .status)
    (pass : String) :
    Runs (remove pass site) workspace
      (fun _ after => workspace.program.Supersedes after.program [site.handle] 1)
      fun _ _ => True := by
  unfold remove
  refine runs_bind_edit_of (site.runs_remove_supersedes consistent hintact hstatus) ?_
  exact fun _ program hafter => runs_bind_markEdited (runs_bind_recordChange fun _ =>
    runs_pure hafter)

/-- The new call has to return what the old one returned, whatever the new target is. -/
theorem runs_retarget_supersedes (name : String) (parameters : List Ty) (pass : String)
    (arguments : List Operand) {result : Ty} (hresult : result = site.result)
    (message : String) :
    Runs (do
      let target ← Work.update (·.getOrDeclare name .status parameters)
      retarget pass site (site.cloneWith target arguments result) message) workspace
      (fun _ after => workspace.program.Supersedes after.program [site.handle] 1)
      fun _ _ => True := by
  have hadds := adds_getOrDeclare consistent name .status parameters
  have htype := hadds.resultType?_eq hintact.resultType?_eq
  refine runs_bind_update (runs_bind_edit_of
    (runs_replaceWith_supersedes hadds.consistent htype ?_) ?_)
  · rw [CallSite.cloneWith, SiteForm.resultType_operation, hresult]
  · exact fun _ program hafter => runs_bind_markEdited (runs_bind_markEdited
      (runs_bind_recordChange fun _ => runs_pure (hadds.trans_supersedes hafter)))

end Condition

theorem SignalOperator.runs_apply_supersedes
    (hstatus : site.result = .void ∨ site.result = .status) (change : SignalChange) :
    Runs (SignalOperator.apply change site) workspace
      (fun _ after => workspace.program.Supersedes after.program [site.handle] 1)
      fun _ _ => True := by
  unfold SignalOperator.apply
  split
  · exact runs_skip_supersedes consistent _ _ 1
  · cases change with
    | remove => exact Condition.runs_remove_supersedes consistent hintact hstatus name
    | swap => exact Condition.runs_retarget_supersedes consistent hintact _ _ _ _ rfl _

/-- The untimed wait returns a status, and so does the timed one. -/
theorem WaitOperator.runs_untime_supersedes (hstatus : site.result = .status) :
    Runs (untime site) workspace
      (fun _ after => workspace.program.Supersedes after.program [site.handle] 1)
      fun _ _ => True := by
  unfold untime
  split
  · exact runs_skip_supersedes consistent _ _ 1
  · split
    · exact runs_skip_supersedes consistent _ _ 1
    · exact Condition.runs_retarget_supersedes consistent hintact _ _ _ _ hstatus.symm _

namespace JoinOperator

theorem runs_remove_supersedes (hstatus : site.result = .void ∨ site.result = .status) :
    Runs (remove site) workspace
      (fun _ after => workspace.program.Supersedes after.program [site.handle] 1)
      fun _ _ => True := by
  unfold remove
  refine runs_bind_edit_of (site.runs_remove_supersedes consistent hintact hstatus) ?_
  exact fun _ program hafter => runs_bind_recordChange fun _ => runs_pure hafter

/-- A sleep takes over the status of a POSIX join.  The C++ join has none. -/
theorem runs_replaceWithSleep_supersedes
    (hstatus : site.name ≠ standardJoin → site.result = .status) (seconds : Nat) :
    Runs (replaceWithSleep site seconds) workspace
      (fun _ after => workspace.program.Supersedes after.program [site.handle] 1)
      fun _ _ => True := by
  unfold replaceWithSleep
  extract_lets isStandard rest
  -- the uses are asked for only if the join is a C++ one; what follows is the same
  have hrest : ∀ uses, Runs (rest uses) workspace
      (fun _ after => workspace.program.Supersedes after.program [site.handle] 1)
      fun _ _ => True := by
    intro uses
    simp only [rest]
    split
    · exact runs_skip_supersedes consistent _ _ 1
    · have hadds := adds_getOrDeclare consistent "sleep" .status [.status]
      have hstill : site.Intact
          (workspace.program.getOrDeclare "sleep" .status [.status]).2 :=
        hintact.kept (hadds.supersedes [] 0).toKept List.not_mem_nil
      have hreplace : ∀ sleep : Instruction, sleep.operation.resultType = .status →
          Runs (if isStandard then sleepBefore site sleep else site.replace sleep)
            (workspace.program.getOrDeclare "sleep" .status [.status]).2
            (fun _ after => workspace.program.Supersedes after [site.handle] 1)
            fun _ _ => True := by
        intro sleep hsleep
        split
        · exact (runs_sleepBefore_supersedes hadds.consistent sleep).weaken
            fun _ _ hafter => hadds.trans_supersedes hafter
        · rename_i hposix
          have hsame := hsleep.trans (hstatus (by simpa [isStandard] using hposix)).symm
          exact (site.runs_replace_supersedes hadds.consistent hstill hsame).weaken
            fun _ _ hafter => hadds.trans_supersedes hafter
      refine runs_bind_update (runs_bind_edit_of (hreplace _ rfl) ?_)
      exact fun _ program hafter => runs_bind_markEdited (runs_bind_recordChange fun _ =>
        runs_pure hafter)
  split
  · exact runs_bind_ask hrest
  · exact hrest 0

theorem runs_handler_supersedes (hstatus : site.result = .void ∨ site.result = .status)
    (hposix : site.name ≠ standardJoin → site.result = .status) (change : JoinChange) :
    Runs (do
      let changed ← apply change site
      Work.markEdited site.handle
      return changed) workspace
      (fun _ after => workspace.program.Supersedes after.program [site.handle] 1)
      fun _ _ => True := by
  have happly : Runs (apply change site) workspace
      (fun _ after => workspace.program.Supersedes after.program [site.handle] 1)
      fun _ _ => True := by
    cases change with
    | remove => exact runs_remove_supersedes consistent hintact hstatus
    | sleep seconds => exact runs_replaceWithSleep_supersedes consistent hintact hposix seconds
  exact happly.bind fun _ _ hafter => runs_bind_markEdited (runs_pure hafter)

end JoinOperator

end Calls

/-! ## Calls of lock pairs -/

namespace LockOperator

variable {start : Program} {sites : List CallSite} {index : PairIndex} {pair : LockPair}

/-- The uses of a lock or unlock are asked for only if it should return nothing. -/
theorem runs_removeSite_supersedes (tracked : Tracked start sites workspace) (hmem : site ∈ sites)
    (hstatus : site.result = .void ∨ site.result = .status) (family : LockFamily) :
    Runs (removeSite site family) workspace
      (fun _ after => workspace.program.Supersedes after.program [site.handle] 1)
      fun _ _ => True := by
  unfold removeSite
  refine ((runs_isUntouched_noted name site).and (runs_isUntouched tracked hmem)).bind ?_
  rintro (_ | _) state ⟨hnoted, tracked, -, hintact⟩
  · exact runs_pure (hnoted.program_eq ▸ .refl tracked.consistent _ 1)
  · rw [← hnoted.program_eq]
    suffices hremoved : ∀ uses, Runs (removeUnread site family uses) state
        (fun _ after => state.program.Supersedes after.program [site.handle] 1)
        fun _ _ => True by
      rw [if_neg (by simp)]
      extract_lets rest
      split
      · exact hremoved 0
      · exact runs_bind_ask hremoved
    intro uses
    unfold removeUnread
    split
    · exact runs_skip_supersedes tracked.consistent _ _ 1
    · refine runs_bind_edit_of
        (site.runs_remove_supersedes tracked.consistent (hintact rfl) hstatus) ?_
      exact fun _ program hafter => runs_bind_markEdited (runs_pure hafter)

/-! ### Exchanges

The new calls carry the results of their partners, and take over the uses of what they replace.
-/

/-- Each of two calls takes the place of the other, so they have to return the same. -/
theorem runs_swapSites_supersedes {first second : CallSite}
    (consistent : workspace.program.Consistent) (hfirst : first.Intact workspace.program)
    (hsecond : second.Intact workspace.program) (hne : first.handle ≠ second.handle)
    (hresult : second.result = first.result) :
    Runs (swapSites first second) workspace (fun _ after =>
      workspace.program.Supersedes after.program [first.handle, second.handle] 2)
      fun _ _ => True := by
  have hreturns : ∀ site other : CallSite,
      (inPlaceOf site other).operation.resultType = other.result :=
    fun site other => SiteForm.resultType_operation ..
  unfold swapSites
  refine runs_bind_edit_of (runs_replaceWith_supersedes consistent hfirst.resultType?_eq
    ((hreturns first second).trans hresult)) ?_
  intro newFirst between hbetween
  have hstill : second.Intact between := hsecond.kept hbetween.toKept (by simpa using hne.symm)
  refine runs_bind_edit_of (runs_replaceWith_supersedes hbetween.consistent hstill.resultType?_eq
    ((hreturns second first).trans hresult.symm)) ?_
  intro newSecond after hafter
  exact runs_bind_markAll (runs_recordChange fun _ => hbetween.trans hafter)

theorem result_eq_of_role {first second : CallSite} {family : LockFamily} {role : LockRole}
    (hfirst : LockFamily.classify? first.name = some (family, role))
    (hsecond : LockFamily.classify? second.name = some (family, role))
    (hfirstReturns : first.result = primitiveResult first.name)
    (hsecondReturns : second.result = primitiveResult second.name) :
    second.result = first.result := by
  rw [hsecondReturns, hfirstReturns, LockFamily.classify?_eq_some_iff.mp hfirst,
    LockFamily.classify?_eq_some_iff.mp hsecond]

theorem family_eq_of_swapObstacle? {first second : LockPair}
    (hnone : swapObstacle? first second = none) : first.family = second.family := by
  unfold swapObstacle? at hnone
  by_contra hne
  rw [if_pos hne] at hnone
  split at hnone
  · cases hnone
  · split at hnone
    · cases hnone
    · cases hnone

/-! ### Moves

A move may put in a plain call first, which is erased again at the end.  It is not counted among the
instructions that are gone, since it was not there before.
-/

/-- A moved call returns what it returned, but what read the old result reads a zero. -/
theorem runs_shiftSite_supersedes (consistent : workspace.program.Consistent)
    (hintact : site.Intact workspace.program)
    (hstatus : site.result = .void ∨ site.result = .status) (family : LockFamily)
    (direction : Int) :
    Runs (shiftSite site family direction) workspace
      (fun _ after => workspace.program.Supersedes after.program [site.handle] 2)
      fun _ _ => True := by
  unfold shiftSite
  refine (runs_shiftObstacle? consistent hintact family).bind ?_
  rintro obstacle _ rfl
  split
  · exact runs_skip_supersedes consistent _ _ 2
  · exact runs_pure (.refl consistent _ 2)
  · refine runs_bind_edit_of (runs_plainCall_supersedes consistent hintact hstatus _) ?_
    rintro base between ⟨hplain, htype, hbase⟩
    refine runs_bind_ask fun step => ?_
    extract_lets rest
    -- whether the walk was cut short is a matter of the ledger
    have hrest : ∀ ledger, Runs (rest ()) { program := between, ledger }
        (fun _ after => workspace.program.Supersedes after.program [site.handle] 2)
        fun _ _ => True := by
      intro ledger
      refine runs_bind_edit_of (runs_insertBefore_adds hplain.consistent _ _) ?_
      intro moved inserted hadds
      refine runs_bind_edit_of (runs_eraseOrZero_supersedes hadds.consistent
        (hadds.resultType?_eq htype) hstatus) ?_
      intro _ after herased
      refine runs_bind_markEdited (runs_bind_markEdited (runs_bind_ask fun position =>
        runs_bind_recordChange fun _ => runs_pure ?_))
      -- the call that the walk started from was new, unless it is the call itself
      refine (hplain.trans (hadds.trans_supersedes herased)).drop ?_
      simpa using hbase
    split
    · exact runs_bind_warn (hrest _)
    · exact hrest _

theorem runs_shiftSide_supersedes (consistent : workspace.program.Consistent)
    (hintact : site.Intact workspace.program)
    (hstatus : site.result = .void ∨ site.result = .status) (address : PairAddress)
    (role : LockRole) (family : LockFamily) (direction : Option Int) :
    Runs (shiftSide address role site family direction) workspace
      (fun _ after => workspace.program.Supersedes after.program [site.handle] 2)
      fun _ _ => True := by
  unfold shiftSide
  split
  · exact runs_skip_supersedes consistent _ _ 2
  · exact runs_skip_supersedes consistent _ _ 2
  · exact runs_pure (.refl consistent _ 2)
  · exact runs_shiftSite_supersedes consistent hintact hstatus family _

end LockOperator

end ConcurrencyFaults

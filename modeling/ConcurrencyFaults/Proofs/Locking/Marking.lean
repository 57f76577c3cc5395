import ConcurrencyFaults.Proofs.History
import ConcurrencyFaults.Proofs.Marking

/-!
# Marks on the calls of lock pairs

The requests of the lock operator are about one call or about the two or four calls of their pairs.
All of these are asked for before the first of them is edited, so none has a mark then; what one
half of a request marks the other half is not about.

## Strategy

* The question for marks comes first and says of which handles there is none
  (`runs_isPairUntouched_unmarked`).
* Handlers are followed as `Reworks`: a list of handles that they are about, and all other calls
  left alone.  The lists of two halves are appended (`Reworks.trans`).
* Once the list consists of unmarked handles, a request respects marks (`Reworks.respects`).
-/

namespace ConcurrencyFaults

namespace LockOperator

open Program Work

variable {workspace : Workspace} {index : PairIndex} {refused : EditError → Workspace → Prop}

/-! ## Before the first edit

A question that is answered with yes leaves the workspace alone. -/

theorem runs_isPairUntouched_unmarked (pair : LockPair) :
    Runs (isPairUntouched pair) workspace (fun answer after => Noted workspace after ∧
      (answer = true → after = workspace ∧
        ∀ handle ∈ [pair.lock.handle, pair.unlock.handle],
          workspace.ledger.isEdited handle = false)) refused := by
  unfold isPairUntouched
  refine (runs_isUntouched_unmarked name pair.lock).bind ?_
  rintro (_ | _) between ⟨hbetween, hlock⟩
  · exact runs_pure ⟨hbetween, by simp⟩
  · obtain ⟨rfl, hlock⟩ := hlock rfl
    refine (runs_isUntouched_unmarked name pair.unlock).weaken ?_
    rintro answer after ⟨hafter, hunlock⟩
    refine ⟨hafter, fun huntouched => ?_⟩
    obtain ⟨rfl, hunlock⟩ := hunlock huntouched
    exact ⟨rfl, List.forall_mem_cons.mpr ⟨hlock, List.forall_mem_singleton.mpr hunlock⟩⟩

/-! ## Requests

In the order of the modes: removing, swapping, shifting, splitting. -/

theorem respects_removeSite (consistent : workspace.program.Consistent) (site : CallSite)
    (family : LockFamily) :
    Runs (removeSite site family) workspace (fun _ => Respects workspace) fun _ _ => True := by
  unfold removeSite
  refine (runs_isUntouched_unmarked name site).bind ?_
  rintro (_ | _) state ⟨hnoted, huntouched⟩
  · exact runs_pure (Respects.of_noted consistent hnoted)
  · obtain ⟨rfl, hunmarked⟩ := huntouched rfl
    suffices hreworks : ∀ uses, Runs (removeUnread site family uses) state
        (fun _ => Reworks [site.handle] state) fun _ _ => True by
      have hrespects : ∀ uses, Runs (removeUnread site family uses) state
          (fun _ => Respects state) fun _ _ => True := fun uses =>
        (hreworks uses).weaken fun _ _ hafter => hafter.respects (by simpa using hunmarked)
      rw [if_neg (by simp)]
      extract_lets rest
      split
      · exact hrespects 0
      · exact runs_bind_ask hrespects
    intro uses
    unfold removeUnread
    split
    · exact reworks_skip consistent _
    · refine runs_bind_edit_of (site.amends_remove _ consistent) fun _ program hremoved => ?_
      refine runs_bind_markEdited (runs_pure ?_)
      exact Reworks.of_amended hremoved (by simp) fun _ hmarked => by simp [hmarked]

theorem reworks_swapSites (consistent : workspace.program.Consistent) (first second : CallSite) :
    Runs (swapSites first second) workspace
      (fun _ => Reworks [second.handle, first.handle] workspace) fun _ _ => True := by
  unfold swapSites
  refine runs_bind_edit_of (amends_replaceWith first.handle _ _ consistent) ?_
  intro newFirst between hbetween
  refine runs_bind_edit_of (amends_replaceWith second.handle _ _ hbetween.consistent) ?_
  intro newSecond after hafter
  refine runs_bind_markAll (runs_recordChange fun entry => ?_)
  exact Reworks.of_amended (hbetween.trans hafter) (by simp) fun _ hmarked => by simp [hmarked]

theorem respects_swapPairs (consistent : workspace.program.Consistent) (first second : LockPair) :
    Runs (swapPairs first second) workspace (fun _ => Respects workspace) fun _ _ => True := by
  unfold swapPairs
  split
  · exact runs_bind_warn (runs_pure (Respects.of_noted consistent ⟨rfl, fun _ h => h⟩))
  · refine (runs_isPairUntouched_unmarked first).bind ?_
    rintro (_ | _) between ⟨hnoted, hfirst⟩
    · exact runs_pure (Respects.of_noted consistent hnoted)
    · obtain ⟨rfl, hfirst⟩ := hfirst rfl
      refine (runs_isPairUntouched_unmarked second).bind ?_
      rintro (_ | _) state ⟨hnoted, hsecond⟩
      · exact runs_pure (Respects.of_noted consistent hnoted)
      · obtain ⟨rfl, hsecond⟩ := hsecond rfl
        refine (reworks_swapSites consistent first.lock second.lock).bind ?_
        intro _ locked hlocked
        refine (reworks_swapSites hlocked.consistent first.unlock second.unlock).bind ?_
        intro _ after hafter
        -- none of the four calls was marked before the first was replaced
        refine runs_pure ((hlocked.trans hafter).respects ?_)
        simp_all

theorem respects_swapRequest (consistent : workspace.program.Consistent) (plan : LockPlan)
    (request : PairAddress × PairAddress) :
    Runs (swapRequest index plan request) workspace (fun _ => Respects workspace)
      fun _ _ => True := by
  obtain ⟨firstAddress, secondAddress⟩ := request
  refine (runs_resolve_find plan.addressing firstAddress).bind ?_
  rintro (_ | first) between ⟨hbetween, -⟩
  · exact runs_pure (Respects.of_noted consistent hbetween)
  · refine (runs_resolve_find plan.addressing secondAddress).bind ?_
    rintro (_ | second) state ⟨hstate, -⟩
    · exact runs_pure (Respects.of_noted consistent (hbetween.trans hstate))
    · have hnoted := hbetween.trans hstate
      refine (respects_swapPairs (hnoted.holds consistent) first second).weaken ?_
      exact fun _ _ hafter => (Respects.of_noted consistent hnoted).trans hafter

/-- What a request for one pair does with the pair starts when neither of its calls has a mark. -/
theorem respects_pairRequest (consistent : workspace.program.Consistent)
    {next : LockPair → Work Bool} (addressing : PairAddressing) (address : PairAddress)
    (hnext : ∀ pair (state : Workspace), state.program.Consistent →
      (∀ handle ∈ [pair.lock.handle, pair.unlock.handle],
        state.ledger.isEdited handle = false) →
      Runs (next pair) state (fun _ => Respects state) fun _ _ => True) :
    Runs (do
      let some pair ← resolve index addressing address
        | return false
      if !(← isPairUntouched pair) then
        return false
      next pair) workspace (fun _ => Respects workspace) fun _ _ => True := by
  refine (runs_resolve_find addressing address).bind ?_
  rintro (_ | pair) between ⟨hbetween, -⟩
  · exact runs_pure (Respects.of_noted consistent hbetween)
  · have hresolved := Respects.of_noted consistent hbetween
    have consistent := hbetween.holds consistent
    refine (runs_isPairUntouched_unmarked pair).bind ?_
    rintro (_ | _) state ⟨hnoted, hunmarked⟩
    · exact runs_pure (hresolved.trans (Respects.of_noted consistent hnoted))
    · obtain ⟨rfl, hunmarked⟩ := hunmarked rfl
      exact (hnext pair state consistent hunmarked).weaken fun _ _ hafter => hresolved.trans hafter

theorem runs_shiftObstacle?_ask (site : CallSite) (family : LockFamily) :
    Runs (shiftObstacle? site family) workspace (fun _ after => workspace = after)
      fun _ _ => True := by
  unfold shiftObstacle?
  split
  · exact runs_pure rfl
  · extract_lets rest
    have hrest : ∀ uses, Runs (rest uses) workspace (fun _ after => workspace = after)
        fun _ _ => True := by
      intro uses
      simp only [rest]
      split
      · exact runs_pure rfl
      · split <;> exact runs_pure rfl
    split
    · exact hrest 0
    · exact runs_bind_ask hrest

/-- The call that a walk starts from is gone in the end, and the moved one is marked. -/
theorem reworks_shiftSite (consistent : workspace.program.Consistent) (site : CallSite)
    (family : LockFamily) (direction : Int) :
    Runs (shiftSite site family direction) workspace (fun _ => Reworks [site.handle] workspace)
      fun _ _ => True := by
  unfold shiftSite
  refine (runs_shiftObstacle?_ask site family).bind ?_
  rintro obstacle _ rfl
  split
  · exact reworks_skip consistent _
  · exact runs_pure (Reworks.refl consistent _)
  · refine runs_bind_edit_of (runs_plainCall consistent _) ?_
    rintro base between ⟨hplain, hbase⟩
    refine runs_bind_ask fun step => ?_
    extract_lets rest
    have hrest : ∀ ledger : Ledger,
        (∀ handle, workspace.ledger.isEdited handle → ledger.isEdited handle) →
        Runs (rest ()) { program := between, ledger }
          (fun _ => Reworks [site.handle] workspace) fun _ _ => True := by
      intro ledger hledger
      refine runs_bind_edit_of (amends_insertBefore _ _ _ hplain.consistent) ?_
      intro moved inserted hinserted
      refine runs_bind_edit_of (runs_eraseOrZero_stale hinserted.consistent base) ?_
      rintro _ after ⟨herased, hstale⟩
      refine runs_bind_markEdited (runs_bind_markEdited (runs_bind_ask fun position =>
        runs_bind_recordChange fun entry => runs_pure ?_))
      exact Reworks.of_amended (amended_moved hplain hbase hinserted herased hstale) (by simp)
        fun handle hmarked => by simp [hledger handle hmarked]
    split
    · exact runs_bind_warn (hrest _ fun _ h => h)
    · exact hrest _ fun _ h => h

theorem reworks_shiftSide (consistent : workspace.program.Consistent) (address : PairAddress)
    (role : LockRole) (site : CallSite) (family : LockFamily) (direction : Option Int) :
    Runs (shiftSide address role site family direction) workspace
      (fun _ => Reworks [site.handle] workspace) fun _ _ => True := by
  unfold shiftSide
  split
  · exact reworks_skip consistent _
  · exact reworks_skip consistent _
  · exact runs_pure (Reworks.refl consistent _)
  · exact reworks_shiftSite consistent site family _

theorem respects_shiftRequest (consistent : workspace.program.Consistent) (plan : LockPlan)
    (request : PairAddress × Nat) :
    Runs (shiftRequest index plan request) workspace (fun _ => Respects workspace)
      fun _ _ => True := by
  obtain ⟨address, number⟩ := request
  refine respects_pairRequest consistent plan.addressing address
    fun pair state consistent hunmarked => ?_
  refine (reworks_shiftSide consistent address .lock pair.lock pair.family
    plan.lockDirections[number]?).bind fun lockMoved locked hlocked => ?_
  refine (reworks_shiftSide hlocked.consistent address .unlock pair.unlock pair.family
    plan.unlockDirections[number]?).bind fun unlockMoved after hafter => ?_
  refine runs_pure ((hlocked.trans hafter).respects ?_)
  simp_all

/-- A copy is the only new call, and it is not marked yet. -/
theorem runs_insertCopy_amended (consistent : workspace.program.Consistent) (lock : Handle)
    (site : CallSite) (role : String) (offset : Nat) :
    Runs (insertCopy lock site role offset) workspace (fun copy after =>
      workspace.program.Amended after.program [] [copy] ∧
        ∀ handle, workspace.ledger.isEdited handle → after.ledger.isEdited handle)
      fun _ _ => True := by
  unfold insertCopy
  refine runs_bind_edit_of (amends_insertRelative lock _ offset _ consistent) ?_
  rintro ⟨copy, clamped⟩ after hinserted
  dsimp only
  split
  · exact runs_bind_warn (runs_pure ⟨hinserted, fun _ h => h⟩)
  · exact runs_pure ⟨hinserted, fun _ h => h⟩

theorem reworks_splitPair (consistent : workspace.program.Consistent) (address : PairAddress)
    (pair : LockPair) (unlockOffset lockOffset : Nat) :
    Runs (splitPair address pair unlockOffset lockOffset) workspace (fun _ => Reworks [] workspace)
      fun _ _ => True := by
  unfold splitPair
  refine runs_bind_ask fun distance => ?_
  split
  · exact reworks_skip consistent _
  · refine (runs_insertCopy_amended consistent pair.lock.handle pair.unlock "unlock"
      unlockOffset).bind ?_
    rintro unlockCopy between ⟨hunlock, hbetween⟩
    refine (runs_insertCopy_amended hunlock.consistent pair.lock.handle pair.lock "lock" _).bind ?_
    rintro lockCopy after ⟨hlock, hafter⟩
    refine runs_bind_markEdited (runs_bind_markEdited (runs_bind_recordChange fun entry =>
      runs_pure ?_))
    exact Reworks.of_amended (hunlock.trans hlock) (by simp)
      fun handle hmarked => by simp [hafter handle (hbetween handle hmarked)]

theorem respects_splitRequest (consistent : workspace.program.Consistent) (plan : LockPlan)
    (request : PairAddress × Nat) :
    Runs (splitRequest index plan request) workspace (fun _ => Respects workspace)
      fun _ _ => True := by
  obtain ⟨address, number⟩ := request
  refine respects_pairRequest consistent plan.addressing address fun pair state consistent _ => ?_
  -- a split is about no call that was there
  have hrespects : ∀ {after}, Reworks [] state after → Respects state after :=
    fun hafter => hafter.respects (by simp)
  split
  · exact (reworks_splitPair consistent address pair _ _).weaken fun _ _ => hrespects
  · exact (reworks_skip consistent _).weaken fun _ _ => hrespects

end LockOperator

end ConcurrencyFaults

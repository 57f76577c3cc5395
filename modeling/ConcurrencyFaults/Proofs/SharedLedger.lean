import ConcurrencyFaults.Proofs.Locking.Marking

/-!
# Operators that share a ledger

Several operators may work on one program and share a ledger.  The operators on calls look at its
marks, so none of them edits what another one, or an earlier request of its own, has edited or
added; that holds for sessions of any length, whatever was in the ledger at first and whether or not
runs were stopped (`Session.pairwise_respects`).

One call escapes the marks.  When an invoke is shifted, a plain call takes its place at first, from
which the walk starts, and only the call at the end of the walk is marked.  The plain call is erased
within the same request, which is why no request can come across it.

## Strategy

* One request respects marks, because it asks for them before it hands the call to a handler, and
  handlers rework no other call (`Work.respects_callRequest`).
* Respecting marks is a relation between neighbouring stages of a run.  Requests are chained by
  `Course.Follows`, under the invariant that the sites of the run are tracked, by which no request
  is refused (`follows_ofCalls`, `runs_course`).
* Runs are chained to a session by `Session.isChain_history`.  The relation is transitive, so it
  holds between any two stages.
-/

namespace ConcurrencyFaults

open Program Work

variable {workspace : Workspace}

/-! ## Requests for found calls

A claim is a note, and so is a warning; what is left of a request is the handler. -/

section Calls

variable {pass : String} {found : FoundCalls} {handle : Nat → CallSite → Work Bool}
  (hreworks : ∀ request site (state : Workspace), state.program.Consistent →
    Runs (handle request site) state (fun _ => Reworks [site.handle] state) fun _ _ => True)
include hreworks

theorem Work.respects_callRequest (consistent : workspace.program.Consistent)
    (request : Nat × Nat) :
    Runs (callRequest pass found handle request) workspace (fun _ => Respects workspace)
      fun _ _ => True := by
  refine (runs_claimCall pass found request.1).bind ?_
  rintro (_ | site) between ⟨hbetween, -⟩
  · exact runs_pure (Respects.of_noted consistent hbetween)
  · have hclaimed := Respects.of_noted consistent hbetween
    have consistent := hbetween.holds consistent
    refine (runs_isUntouched_unmarked pass site).bind ?_
    rintro (_ | _) state ⟨hnoted, huntouched⟩
    · exact runs_pure (hclaimed.trans (Respects.of_noted consistent hnoted))
    · obtain ⟨rfl, hunmarked⟩ := huntouched rfl
      refine (hreworks request.2 site state consistent).weaken fun _ after hafter => ?_
      exact hclaimed.trans (hafter.respects (by simpa using hunmarked))

theorem Course.follows_ofCalls {start : Program}
    (hstep : ∀ request site (state : Workspace), state.program.Consistent →
      site.Intact state.program →
        Runs (handle request site) state (fun _ => Settled [site.handle] state) fun _ _ => False)
    (positions : List Nat) :
    (ofCalls pass found positions handle).Follows Respects (Tracked start found.sites) := by
  refine Follows.ofTracked (fun state => Respects.refl) (fun request state tracked => ?_)
    fun request _ state tracked => respects_callRequest hreworks tracked.consistent request
  exact @runs_callRequest start state _ pass found handle
    (fun number site state _ => hstep number site state) tracked request

end Calls

/-! ## Runs

A preparation takes notes at most, and the course that it answers with is followed. -/

/-- The preparation respects marks, and so does each request from then on; the program is consistent
throughout. -/
def Operator.Careful (before : Workspace) (course : Course) (prepared : Workspace) : Prop :=
  Respects before prepared ∧ ∃ invariant : Workspace → Prop, invariant prepared ∧
    course.Follows Respects invariant ∧ ∀ state, invariant state → state.program.Consistent

/-- A refused preparation respects marks, too. -/
def Operator.Undone (before refused : Workspace) : Prop :=
  Respects before refused ∧ refused.program.Consistent

namespace Operator

theorem careful_nothing (consistent : workspace.program.Consistent) {prepared : Workspace}
    (hnoted : Noted workspace prepared) : Careful workspace .nothing prepared :=
  ⟨Respects.of_noted consistent hnoted, fun state => state.program.Consistent,
    hnoted.holds consistent, .nothing fun _ consistent => Respects.refl consistent,
    fun _ consistent => consistent⟩

/-- A search either fails, or is followed by requests for the calls that it found. -/
theorem runs_search_careful {search : CallSearch} {pass : String} {positions : List Nat}
    {handle : Nat → CallSite → Work Bool} (consistent : workspace.program.Consistent)
    (hreworks : ∀ request site (state : Workspace), state.program.Consistent →
      Runs (handle request site) state (fun _ => Reworks [site.handle] state) fun _ _ => True)
    (hstep : ∀ request site (state : Workspace), state.program.Consistent →
      site.Intact state.program →
        Runs (handle request site) state (fun _ => Settled [site.handle] state) fun _ _ => False) :
    Runs (do
      let found ← query search.inProgram
      return Course.ofCalls pass found positions handle) workspace (Careful workspace)
      fun _ => Undone workspace := by
  have hsame := Respects.refl consistent
  refine runs_bind_query_of (fun found hfound => runs_pure ?_) fun _ _ => ⟨hsame, consistent⟩
  have hfinds : ∀ site ∈ found.sites, search.Finds workspace.program site :=
    fun _ hmem => CallSearch.finds_of_inProgram hfound hmem
  refine ⟨hsame, Tracked workspace.program found.sites, ?_, ?_, ?_⟩
  · exact Tracked.of_finds workspace.ledger consistent hfinds
  · exact Course.follows_ofCalls hreworks hstep positions
  · exact fun _ tracked => tracked.consistent

/-- What follows a warning starts from a workspace with one more note. -/
theorem runs_warn_careful {next : Unit → Work Course} {message : String}
    (consistent : workspace.program.Consistent)
    (hnext : ∀ state : Workspace, state.program.Consistent →
      Runs (next ()) state (Careful state) fun _ => Undone state) :
    Runs (warn message >>= next) workspace (Careful workspace) fun _ => Undone workspace := by
  let warned : Workspace :=
    { workspace with ledger := workspace.ledger.record (.warning message) }
  have hwarned : Respects workspace warned := Respects.of_noted consistent ⟨rfl, fun _ h => h⟩
  refine runs_bind_warn ((hnext warned consistent).imp ?_ ?_)
  · exact fun _ _ hcareful => ⟨hwarned.trans hcareful.1, hcareful.2⟩
  · exact fun _ _ hundone => ⟨hwarned.trans hundone.1, hundone.2⟩

end Operator

namespace LockOperator

open Operator

variable {start : Program} {found : FoundCalls} {index : PairIndex}

/-- The calls to be removed are gathered before the first of them is. -/
theorem runs_schedule_all (tracked : Tracked start found.sites workspace)
    (hindex : ∀ pair ∈ index.pairs, pair.Matched found.sites) (addressing : PairAddressing)
    (addresses : List PairAddress) {refused : EditError → Workspace → Prop} :
    Runs (addresses.foldlM (schedule index addressing) {}) workspace (fun removals after =>
      Noted workspace after ∧ Tracked start found.sites after ∧
        ∀ listed ∈ removals.sites, listed.1 ∈ found.sites) refused := by
  refine runs_foldlM (fun (removals : RemovalList) after => Noted workspace after ∧
    Tracked start found.sites after ∧ ∀ listed ∈ removals.sites, listed.1 ∈ found.sites) ?_
    ⟨⟨rfl, fun _ h => h⟩, tracked, by simp⟩
  rintro address - removals state ⟨hnoted, tracked, hlisted⟩
  refine ((runs_schedule tracked hindex addressing hlisted address).and
    (runs_schedule_noted addressing removals address)).weaken ?_
  exact fun _ _ hafter => ⟨hnoted.trans hafter.2, hafter.1⟩

/-- When all calls are removed, what is left to do is to take notes. -/
theorem runs_close_removalCourse (removals : RemovalList) (answers : List Bool)
    {refused : EditError → Workspace → Prop} :
    Runs ((removalCourse removals).close answers) workspace (fun _ => Noted workspace)
      refused := by
  have hrecord : Runs (removals.pairs.forM (recordRemoved (removedOf removals.sites answers)))
      workspace (fun _ => Noted workspace) refused := by
    refine runs_forM (Noted workspace) ?_ ⟨rfl, fun _ h => h⟩
    rintro requested - between hbetween
    unfold recordRemoved
    split
    · exact hbetween.trans ⟨rfl, fun _ h => h⟩
    · exact runs_pure hbetween
  exact hrecord.bind fun _ _ hnoted => runs_pure hnoted

theorem follows_removalCourse {removals : RemovalList}
    (hlisted : ∀ listed ∈ removals.sites, listed.1 ∈ found.sites) :
    (removalCourse removals).Follows Respects (Tracked start found.sites) where
  request := by
    intro request hmem state tracked
    obtain ⟨listed, hsite, rfl⟩ := List.mem_map.mp hmem
    refine ((runs_removeSite tracked (hlisted listed hsite) listed.2).and_answered
      (respects_removeSite tracked.consistent listed.1 listed.2)).weaken ?_
    exact fun _ _ hboth => hboth.symm
  close := fun answers state tracked =>
    (runs_close_removalCourse removals answers).weaken fun _ _ hnoted =>
      ⟨Respects.of_noted tracked.consistent hnoted, tracked.of_noted hnoted⟩

/-- Requests that are refused by none of the calls and respect marks make up a careful run. -/
theorem careful_requests {Request : Type} {requests : List Request}
    {handle : Request → Work Bool} {prepared : Workspace}
    (hprepared : Respects workspace prepared) (tracked : Tracked start found.sites prepared)
    (hhandle : ∀ request (state : Workspace), Tracked start found.sites state →
      Runs (handle request) state (fun _ => Tracked start found.sites) fun _ _ => False)
    (hrespects : ∀ request (state : Workspace), state.program.Consistent →
      Runs (handle request) state (fun _ => Respects state) fun _ _ => True) :
    Careful workspace (.ofRequests requests handle) prepared := by
  refine ⟨hprepared, Tracked start found.sites, tracked, ?_, fun _ tracked => tracked.consistent⟩
  exact .ofTracked (fun _ => Respects.refl) hhandle
    fun request _ state tracked => hrespects request state tracked.consistent

theorem runs_course (consistent : workspace.program.Consistent) (plan : LockPlan)
    (oracle : AliasOracle) :
    Runs (course plan oracle) workspace (Careful workspace) fun _ => Undone workspace := by
  unfold course
  cases plan.mode with
  | none => exact runs_pure (careful_nothing consistent ⟨rfl, fun _ h => h⟩)
  | some mode =>
      have hbuilt : Respects workspace (PairIndex.noted oracle workspace) :=
        Respects.of_noted consistent ⟨rfl, fun _ h => h⟩
      refine ((PairIndex.runs_build_tracked consistent oracle).imp (fun _ _ h => h) ?_).bind ?_
      · rintro _ _ rfl
        exact ⟨hbuilt, consistent⟩
      rintro index _ ⟨rfl, -, found, hfinds, hmatched, tracked⟩
      cases mode with
      | remove =>
          refine (runs_schedule_all tracked hmatched plan.addressing _).bind ?_
          rintro removals gathered ⟨hgathered, tracked, hlisted⟩
          have hprepared := hbuilt.trans (Respects.of_noted consistent hgathered)
          exact runs_pure ⟨hprepared, Tracked workspace.program found.sites, tracked,
            follows_removalCourse hlisted, fun _ tracked => tracked.consistent⟩
      | swap =>
          exact runs_pure (careful_requests hbuilt tracked
            (fun request _ tracked => runs_swapRequest tracked hfinds hmatched plan request)
            fun request _ consistent => respects_swapRequest consistent plan request)
      | shift =>
          exact runs_pure (careful_requests hbuilt tracked
            (fun request _ tracked => runs_shiftRequest tracked hmatched plan request)
            fun request _ consistent => respects_shiftRequest consistent plan request)
      | split =>
          exact runs_pure (careful_requests hbuilt tracked
            (fun request _ tracked => runs_splitRequest tracked hmatched plan request)
            fun request _ consistent => respects_splitRequest consistent plan request)

end LockOperator

namespace Operator

/-- The operators on calls ask for the marks of the ledger. -/
def editsCalls : Operator → Bool
  | .lock _ | .semaphore _ | .join _ | .signal _ | .wait _ | .yield _ => true
  | .fence _ | .atomic _ | .volatile _ => false

theorem runs_course {operator : Operator} (consistent : workspace.program.Consistent)
    (hcalls : operator.editsCalls = true) (oracle : AliasOracle) :
    Runs (operator.course oracle) workspace (Careful workspace) fun _ => Undone workspace := by
  have hsame : Noted workspace workspace := ⟨rfl, fun _ h => h⟩
  cases htold : operator.hasChange with
  | false =>
      rw [course_of_not_hasChange htold]
      exact runs_pure (careful_nothing consistent hsame)
  | true =>
      cases operator with
      | lock plan => exact LockOperator.runs_course consistent plan oracle
      | semaphore plan =>
          simp only [course]
          split
          · exact runs_warn_careful consistent fun state consistent =>
              runs_pure (careful_nothing consistent ⟨rfl, fun _ h => h⟩)
          · exact runs_search_careful consistent
              (fun request site _ consistent =>
                SemaphoreOperator.reworks_handler consistent plan request site)
              fun request _ _ consistent hintact =>
                SemaphoreOperator.runs_handler consistent hintact plan request
      | join plan =>
          obtain ⟨change, hchange⟩ := Option.isSome_iff_exists.mp htold
          simp only [course, hchange]
          split
          · exact runs_warn_careful consistent fun state consistent =>
              runs_pure (careful_nothing consistent ⟨rfl, fun _ h => h⟩)
          · exact runs_search_careful consistent
              (fun _ site _ consistent => JoinOperator.reworks_handler consistent change site)
              fun _ _ _ consistent hintact => JoinOperator.runs_handler consistent hintact change
      | signal plan =>
          obtain ⟨change, hchange⟩ := Option.isSome_iff_exists.mp htold
          -- the search is the same after the warning about two changes
          have hsearch : ∀ state : Workspace, state.program.Consistent → Runs (do
              let found ← query SignalOperator.search.inProgram
              return Course.ofCalls SignalOperator.name found plan.positions fun _ site =>
                SignalOperator.apply change site) state (Careful state) fun _ => Undone state :=
            fun state consistent => runs_search_careful consistent
              (fun _ site _ consistent => SignalOperator.reworks_apply consistent change site)
              fun _ _ _ consistent hintact => SignalOperator.runs_apply consistent hintact change
          simp only [course, hchange]
          split
          · exact runs_warn_careful consistent hsearch
          · exact hsearch workspace consistent
      | wait plan =>
          obtain ⟨change, hchange⟩ := Option.isSome_iff_exists.mp htold
          simp only [course, hchange]
          exact runs_search_careful consistent
            (fun request site _ consistent =>
              WaitOperator.reworks_apply consistent change request site)
            fun request _ _ consistent hintact =>
              WaitOperator.runs_apply consistent hintact change request
      | yield plan =>
          exact runs_search_careful consistent
            (fun _ site _ consistent => YieldOperator.reworks_remove consistent site)
            fun _ _ _ consistent hintact => YieldOperator.runs_remove consistent hintact
      | fence plan | atomic plan | volatile plan => cases hcalls

/-- Each stage of a run respects the marks of the stage before. -/
theorem isChain_respects {operator : Operator} (consistent : workspace.program.Consistent)
    (hcalls : operator.editsCalls = true) (oracle : AliasOracle) :
    (workspace :: operator.stages oracle workspace).IsChain Respects ∧
      ∀ state ∈ operator.stages oracle workspace, state.program.Consistent :=
  @isChain_stages operator oracle workspace Respects (fun state => state.program.Consistent)
    (runs_course consistent hcalls oracle)

end Operator

/-! ## Sessions

A run that was stopped leaves a consistent program, too, so the next one can start. -/

/-- Between any two moments of a session of operators on calls, marks stay, marked calls are neither
erased nor replaced nor given another value, and the calls that were added and are there are
marked. -/
theorem Session.pairwise_respects {session : Session}
    (hcalls : ∀ run ∈ session, run.1.editsCalls = true)
    (consistent : workspace.program.Consistent) :
    (session.history workspace).Pairwise Respects := by
  have hchain : (session.history workspace).IsChain Respects := by
    refine @isChain_history session workspace Respects (fun state => state.program.Consistent)
      (fun run hmem state consistent => ?_) consistent
    exact Operator.isChain_respects consistent (hcalls run hmem) run.2
  exact List.isChain_iff_pairwise.mp hchain

/-- A mutex that is locked by an invoke and unlocked in the block that follows. -/
@[irreducible] def lockedByInvoke : Program :=
  Command.run [.declare "pthread_mutex_lock" .status, .declare "pthread_mutex_unlock" .status,
    .addFunction "main" .void [], .addBlock 2 "entry", .addBlock 2 "locked", .addBlock 2 "failed",
    .push 2 0 (.ofOperation (.invoke (.direct 0) [.global "mutex"] .status 1 2)),
    .push 2 1 (.ofOperation (.call (.direct 1) [.global "mutex"] .status)),
    .push 2 1 (.ofOperation (.ret none)), .push 2 2 (.ofOperation .unreachable)]
    { name := "invoke" }

theorem consistent_lockedByInvoke : lockedByInvoke.Consistent := by
  unfold lockedByInvoke
  exact Command.consistent_run (Command.consistent_empty "invoke") _

/-- Moves the lock two instructions on and leaves the unlock. -/
def LockPlan.shiftFirst (category : Nat) : LockPlan :=
  { mode := some .shift, positions := [category, 0], lockDirections := [2],
    unlockDirections := [0] }

/-- After the shift the lock is a marked call, so the removal takes the unlock alone. -/
theorem Session.pairwise_respects_lockedByInvoke :
    (Session.history [(.lock (.shiftFirst 2), .identity),
      (.lock { mode := some .remove, positions := [0, 0] }, .identity)]
      { program := lockedByInvoke }).Pairwise Respects :=
  @pairwise_respects { program := lockedByInvoke } _ (by decide) consistent_lockedByInvoke

/-- The shift of the lock starts by putting a plain call in its place.  That call is new, and it has
no mark when the run is over. -/
theorem Session.exists_unmarked_call :
    lockedByInvoke.Consistent ∧ (PairIndex.ofProgram .identity lockedByInvoke).pairs ≠ [] ∧
      ∀ pair ∈ (PairIndex.ofProgram .identity lockedByInvoke).pairs,
        Runs (LockOperator.plainCall pair.lock (.global "mutex")) lockedByInvoke
          (fun base between => lockedByInvoke.placed? base = none ∧
            (between.instruction? base).bind (·.operation.callForm?) = some .call ∧
              Runs ((Operator.lock (.shiftFirst 2)).run .identity) { program := lockedByInvoke }
                (fun changed after => changed = true ∧ after.ledger.isEdited base = false)
                fun _ _ => False)
          fun _ _ => False :=
  ⟨consistent_lockedByInvoke, by decide +kernel, by decide +kernel⟩

end ConcurrencyFaults

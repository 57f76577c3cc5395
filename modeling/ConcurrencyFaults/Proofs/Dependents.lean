import ConcurrencyFaults.Proofs.Locking.StatusRemoval
import ConcurrencyFaults.Proofs.Operators.Candidates
import ConcurrencyFaults.Proofs.Turnover

/-!
# What reads the result of a call

Where calls return what their primitives return, an operator that removes or replaces them leaves
all other instructions well typed (`Operator.dependents_well_typed`).  An instruction that is there
throughout a run reads the same operands before and after, except where it read the result of a call
that has gone; and that operand is of the type that the result was of.

This is about runs as they are, with requests that touch what an earlier request has put in, with
warnings, and with preparations that are refused.  For each operator it is enough that one request
is a `Turnover` of calls that the operator looks for; the run is a chain of them.

## Strategy

* `Replaces` is what the preparation of a run has to ensure: it takes notes alone, and each request
  that it hands out is a turnover.  `runs_search_replaces` shows it for operators that search for
  calls, `LockOperator.runs_course_replaces` for those on pairs.
* `isChain_turnover` makes a chain of the stages out of this.
* `Turnover.conforms_of_isChain` adds up a chain.  The calls that are lost on the way are those that
  do not survive, and only their readers have other operands in the end.
-/

namespace ConcurrencyFaults

open Program Work

namespace Operator

variable {operator : Operator} {oracle : AliasOracle} {workspace prepared : Workspace}
  {calls : Handle → Prop} {program : Program} {handle : Handle} {entry : Placed}

/-- Whether the operator removes calls or puts others in their place, or changes nothing.  The
others add code or change operands and attributes. -/
def replacesCalls : Operator → Bool
  | .lock plan => plan.mode != some .split
  | .join _ | .signal _ => true
  | .wait plan =>
      match plan.change with
      | some (.timeout _ _ _) => false
      | _ => true
  | .semaphore _ | .yield _ | .fence _ | .atomic _ | .volatile _ => false

/-- The search for the calls that an operator works on. -/
def callSearch? : Operator → Option CallSearch
  | .lock _ => some PairIndex.search
  | operator => operator.search?

/-- The operator looks for the call at the handle. -/
def LooksFor (operator : Operator) (program : Program) (handle : Handle) : Prop :=
  ∃ search ∈ operator.callSearch?, ∃ site, search.Finds program site ∧ site.handle = handle

/-- The calls that the operator looks for return what their primitives return. -/
def FindsPrimitives (operator : Operator) (program : Program) : Prop :=
  ∀ search ∈ operator.callSearch?, ∀ site, search.Finds program site →
    site.result = primitiveResult site.name

/-- The instruction is there at every stage of a run. -/
def Survives (operator : Operator) (oracle : AliasOracle) (workspace : Workspace)
    (handle : Handle) : Prop :=
  ∀ stage ∈ operator.stages oracle workspace, stage.program.isLive handle

theorem findsPrimitives_iff (consistent : program.Consistent) :
    operator.FindsPrimitives program ↔ ∀ search ∈ operator.callSearch?,
      ∀ handle ∈ program.handles,
        ∀ site ∈ (CallSite.capture program handle search.demangled).toOption.join,
          search.matchesKey site.name = true → site.result = primitiveResult site.name := by
  unfold FindsPrimitives
  refine forall₂_congr fun search _ => ?_
  rw [← consistent.forall_capture_iff]
  simp only [CallSearch.finds_iff, and_imp]

/-! ## The course of a run

A refused preparation ends the run with the program untouched, so a turnover is all that is left to
show for the requests.
-/

/-- The preparation takes notes, and from then on each request replaces some of the calls. -/
def Replaces (calls : Handle → Prop) (before : Workspace) (course : Course)
    (prepared : Workspace) : Prop :=
  Turnover calls before prepared ∧ ∃ invariant : Workspace → Prop, invariant prepared ∧
    course.Follows (Turnover calls) invariant ∧ ∀ state, invariant state → state.program.Consistent

theorem replaces_nothing (consistent : workspace.program.Consistent)
    (hnoted : Noted workspace prepared) : Replaces calls workspace .nothing prepared :=
  ⟨.of_noted consistent hnoted, fun state => state.program.Consistent, hnoted.holds consistent,
    .nothing fun _ consistent => .of_noted consistent ⟨rfl, fun _ h => h⟩,
    fun _ consistent => consistent⟩

theorem replaces_requests {Request : Type} {requests : List Request} {handle : Request → Work Bool}
    {start : Program} {sites : List CallSite} (consistent : workspace.program.Consistent)
    (hnoted : Noted workspace prepared) (tracked : Tracked start sites prepared)
    (htracked : ∀ request (state : Workspace), Tracked start sites state →
      Runs (handle request) state (fun _ => Tracked start sites) fun _ _ => False)
    (hturnover : ∀ request (state : Workspace), Tracked start sites state →
      Runs (handle request) state (fun _ => Turnover calls state) fun _ _ => True) :
    Replaces calls workspace (.ofRequests requests handle) prepared := by
  refine ⟨.of_noted consistent hnoted, _, tracked, .ofTracked (fun _ consistent => ?_) htracked
    fun request _ => hturnover request, fun _ tracked => tracked.consistent⟩
  exact .of_noted consistent ⟨rfl, fun _ h => h⟩

/-- A search either fails, or is followed by requests for the calls that it found. -/
theorem runs_search_replaces {search : CallSearch} {pass : String} {positions : List Nat}
    {handle : Nat → CallSite → Work Bool} (consistent : workspace.program.Consistent)
    (hcalls : ∀ site, search.Finds workspace.program site → calls site.handle)
    (hsettled : ∀ request site (state : Workspace), state.program.Consistent →
      site.Intact state.program →
        Runs (handle request site) state (fun _ => Settled [site.handle] state) fun _ _ => False)
    (hsupersedes : ∀ request site (state : Workspace), search.Finds workspace.program site →
      state.program.Consistent → site.Intact state.program → Runs (handle request site) state
        (fun _ after => state.program.Supersedes after.program [site.handle] 1) fun _ _ => True) :
    Runs (do
      let found ← query search.inProgram
      return Course.ofCalls pass found positions handle) workspace (Replaces calls workspace)
      fun _ refused => refused.program = workspace.program := by
  have hsame : Noted workspace workspace := ⟨rfl, fun _ h => h⟩
  refine runs_bind_query_of (fun found hfound => runs_pure ?_) fun _ _ => rfl
  have hfinds : ∀ site ∈ found.sites, search.Finds workspace.program site :=
    fun _ hmem => CallSearch.finds_of_inProgram hfound hmem
  refine replaces_requests consistent hsame (Tracked.of_finds workspace.ledger consistent hfinds)
    (fun request _ tracked => ?_) fun request _ tracked => ?_
  · exact runs_callRequest (fun number site state _ => hsettled number site state) tracked request
  · exact turnover_callRequest (fun site hmem => hcalls site (hfinds site hmem))
      (fun number site state hmem => hsupersedes number site state (hfinds site hmem)) tracked
      request

end Operator

namespace LockOperator

open Operator

variable {workspace : Workspace} {calls : Handle → Prop} {start : Program} {sites : List CallSite}
  {found : FoundCalls}

theorem follows_removalCourse_turnover {removals : RemovalList}
    (hcalls : ∀ site ∈ found.sites, calls site.handle)
    (hreturns : ∀ site ∈ found.sites, site.result = primitiveResult site.name)
    (hlisted : ∀ listed ∈ removals.sites, listed.1 ∈ found.sites) :
    (removalCourse removals).Follows (Turnover calls) (Tracked start found.sites) where
  request := by
    intro request hmem state tracked
    obtain ⟨listed, hsite, rfl⟩ := List.mem_map.mp hmem
    have hlisted := hlisted listed hsite
    refine ((runs_removeSite tracked hlisted listed.2).and_answered
      (turnover_removeSite hcalls hreturns tracked hlisted listed.2)).weaken ?_
    exact fun _ _ hboth => hboth.symm
  close := fun answers state tracked =>
    (runs_close_removalCourse removals answers).weaken fun _ _ hnoted =>
      ⟨.of_noted tracked.consistent hnoted, tracked.of_noted hnoted⟩

theorem runs_course_replaces (consistent : workspace.program.Consistent) (plan : LockPlan)
    (oracle : AliasOracle) (hmode : plan.mode ≠ some .split)
    (hcalls : ∀ site, PairIndex.search.Finds workspace.program site → calls site.handle)
    (hreturns : ∀ site, PairIndex.search.Finds workspace.program site →
      site.result = primitiveResult site.name) :
    Runs (course plan oracle) workspace (Replaces calls workspace)
      fun _ refused => refused.program = workspace.program := by
  unfold course
  cases hplan : plan.mode with
  | none => exact runs_pure (replaces_nothing consistent ⟨rfl, fun _ h => h⟩)
  | some mode =>
      have hbuilt : Noted workspace (PairIndex.noted oracle workspace) := ⟨rfl, fun _ h => h⟩
      refine ((PairIndex.runs_build_tracked consistent oracle).imp (fun _ _ h => h) ?_).bind ?_
      · rintro _ _ rfl
        rfl
      rintro index _ ⟨rfl, -, found, hfinds, hmatched, tracked⟩
      -- the pairs consist of calls that the search finds
      have hcalls : ∀ site ∈ found.sites, calls site.handle :=
        fun site hmem => hcalls site (hfinds site hmem)
      have hreturns : ∀ site ∈ found.sites, site.result = primitiveResult site.name :=
        fun site hmem => hreturns site (hfinds site hmem)
      cases mode with
      | remove =>
          refine (runs_schedule_all tracked hmatched plan.addressing _).bind ?_
          rintro removals gathered ⟨hgathered, tracked, hlisted⟩
          exact runs_pure ⟨.of_noted consistent (hbuilt.trans hgathered), _, tracked,
            follows_removalCourse_turnover hcalls hreturns hlisted,
            fun _ tracked => tracked.consistent⟩
      | swap =>
          exact runs_pure (replaces_requests consistent hbuilt tracked
            (fun request _ tracked => runs_swapRequest tracked hfinds hmatched plan request)
            fun request _ tracked =>
              turnover_swapRequest hcalls hreturns hfinds tracked hmatched plan request)
      | shift =>
          exact runs_pure (replaces_requests consistent hbuilt tracked
            (fun request _ tracked => runs_shiftRequest tracked hmatched plan request)
            fun request _ tracked =>
              turnover_shiftRequest hcalls hreturns tracked hmatched plan request)
      | split => exact absurd hplan hmode

end LockOperator

/-- A search for POSIX functions finds calls that return a status. -/
theorem CallSearch.Finds.result_eq_status {search : CallSearch} {program : Program}
    {site : CallSite}
    (hreturns : ∀ site, search.Finds program site → site.result = primitiveResult site.name)
    (hposix : ∀ name ∈ search.names, primitiveResult name = .status)
    (hfinds : search.Finds program site) : site.result = .status :=
  calc site.result
    _ = primitiveResult site.name := hreturns site hfinds
    _ = .status := hposix site.name (List.contains_iff_mem.mp (CallSearch.finds_iff.mp hfinds).2)

/-- A join that returns nothing is one of the C++ library. -/
theorem JoinOperator.result_eq_status {plan : JoinPlan} {program : Program} {site : CallSite}
    (hreturns : ∀ site, (search plan).Finds program site →
      site.result = primitiveResult site.name)
    (hfinds : (search plan).Finds program site) (hother : site.name ≠ standardJoin) :
    site.result = .status := by
  have hmem := List.contains_iff_mem.mp (CallSearch.finds_iff.mp hfinds).2
  rw [search, List.mem_append, List.mem_ite_nil_right, List.mem_ite_nil_right,
    List.mem_singleton, List.mem_singleton] at hmem
  rw [hreturns site hfinds, (hmem.resolve_right fun hstandard => hother hstandard.2).2]
  decide

namespace Operator

variable {operator : Operator} {oracle : AliasOracle} {workspace : Workspace} {handle : Handle}
  {entry : Placed}

section Course

variable (consistent : workspace.program.Consistent)
include consistent

theorem runs_course_replaces_join {plan : JoinPlan} {change : JoinChange}
    (hchange : plan.change = some change)
    (hreturns : (Operator.join plan).FindsPrimitives workspace.program) (oracle : AliasOracle) :
    Runs ((Operator.join plan).course oracle) workspace
      (Replaces ((Operator.join plan).LooksFor workspace.program) workspace)
      fun _ refused => refused.program = workspace.program := by
  have hreturns := hreturns _ rfl
  have hstatus := fun site hfinds => hreturns site hfinds ▸ primitiveResult_eq site.name
  simp only [course, hchange]
  split
  · exact runs_bind_warn (runs_pure (replaces_nothing consistent ⟨rfl, fun _ h => h⟩))
  · refine runs_search_replaces consistent (fun site hfinds => ⟨_, rfl, site, hfinds, rfl⟩)
      (fun _ _ _ consistent hintact => JoinOperator.runs_handler consistent hintact change)
      fun _ site _ hfinds consistent hintact => ?_
    exact JoinOperator.runs_handler_supersedes consistent hintact (hstatus site hfinds)
      (JoinOperator.result_eq_status hreturns hfinds) change

theorem runs_course_replaces_signal {plan : SignalPlan} {change : SignalChange}
    (hchange : plan.change = some change)
    (hreturns : (Operator.signal plan).FindsPrimitives workspace.program) (oracle : AliasOracle) :
    Runs ((Operator.signal plan).course oracle) workspace
      (Replaces ((Operator.signal plan).LooksFor workspace.program) workspace)
      fun _ refused => refused.program = workspace.program := by
  have hreturns := hreturns _ rfl
  have hstatus := fun site hfinds => hreturns site hfinds ▸ primitiveResult_eq site.name
  -- the search is the same after the warning about two changes
  have hsearch : ∀ ledger, Runs (do
      let found ← query SignalOperator.search.inProgram
      return Course.ofCalls SignalOperator.name found plan.positions fun _ site =>
        SignalOperator.apply change site) { workspace with ledger }
      (Replaces ((Operator.signal plan).LooksFor workspace.program) workspace)
      fun _ refused => refused.program = workspace.program := fun ledger =>
    @runs_search_replaces { workspace with ledger } _ _ _ _ _ consistent
      (fun site hfinds => ⟨_, rfl, site, hfinds, rfl⟩)
      (fun _ _ _ consistent hintact => SignalOperator.runs_apply consistent hintact change)
      fun _ site _ hfinds consistent hintact =>
        SignalOperator.runs_apply_supersedes consistent hintact (hstatus site hfinds) change
  simp only [course, hchange]
  split
  · exact runs_bind_warn (hsearch _)
  · exact hsearch workspace.ledger

/-- A change of timeouts adds code and replaces no call. -/
theorem runs_course_replaces_wait {plan : WaitPlan} {change : WaitChange}
    (hchange : plan.change = some change) (hreplaces : (Operator.wait plan).replacesCalls = true)
    (hreturns : (Operator.wait plan).FindsPrimitives workspace.program) (oracle : AliasOracle) :
    Runs ((Operator.wait plan).course oracle) workspace
      (Replaces ((Operator.wait plan).LooksFor workspace.program) workspace)
      fun _ refused => refused.program = workspace.program := by
  have hreturns := hreturns _ rfl
  simp only [course, hchange]
  refine runs_search_replaces consistent (fun site hfinds => ⟨_, rfl, site, hfinds, rfl⟩)
    (fun request _ _ consistent hintact =>
      WaitOperator.runs_apply consistent hintact change request)
    fun request site _ hfinds consistent hintact => ?_
  have hstatus := hfinds.result_eq_status hreturns (by decide)
  cases change with
  | remove => exact Condition.runs_remove_supersedes consistent hintact (Or.inr hstatus) _
  | untime => exact WaitOperator.runs_untime_supersedes consistent hintact hstatus
  | timeout seconds nanoseconds points =>
      rw [replacesCalls, hchange] at hreplaces
      cases hreplaces

theorem runs_course_replaces (hreplaces : operator.replacesCalls = true)
    (hreturns : operator.FindsPrimitives workspace.program) (oracle : AliasOracle) :
    Runs (operator.course oracle) workspace
      (Replaces (operator.LooksFor workspace.program) workspace)
      fun _ refused => refused.program = workspace.program := by
  cases htold : operator.hasChange with
  | false =>
      rw [course_of_not_hasChange htold]
      exact runs_pure (replaces_nothing consistent ⟨rfl, fun _ h => h⟩)
  | true =>
      cases operator with
      | lock plan =>
          exact LockOperator.runs_course_replaces consistent plan oracle
            (bne_iff_ne.mp hreplaces) (fun site hfinds => ⟨_, rfl, site, hfinds, rfl⟩)
            (hreturns _ rfl)
      | join plan =>
          obtain ⟨change, hchange⟩ := Option.isSome_iff_exists.mp htold
          exact runs_course_replaces_join consistent hchange hreturns oracle
      | signal plan =>
          obtain ⟨change, hchange⟩ := Option.isSome_iff_exists.mp htold
          exact runs_course_replaces_signal consistent hchange hreturns oracle
      | wait plan =>
          obtain ⟨change, hchange⟩ := Option.isSome_iff_exists.mp htold
          exact runs_course_replaces_wait consistent hchange hreplaces hreturns oracle
      -- the other operators remove and replace no calls
      | semaphore plan | yield plan | fence plan | atomic plan | volatile plan => cases hreplaces

end Course

/-! ## Whole runs

Handles can come back after a whole round of generations.  An instruction therefore survives if it
is there at every stage; in a run short enough it suffices that it is there in the end
(`survives_of_isLive`).
-/

/-- Each stage of a run is the stage before, but for some calls that gave way to successors. -/
theorem isChain_turnover (consistent : workspace.program.Consistent)
    (hreplaces : operator.replacesCalls = true)
    (hreturns : operator.FindsPrimitives workspace.program) (oracle : AliasOracle) :
    (workspace :: operator.stages oracle workspace).IsChain
      (Turnover (operator.LooksFor workspace.program)) := by
  have hcourse := runs_course_replaces consistent hreplaces hreturns oracle
  refine (@isChain_stages operator oracle workspace _ (fun state => state.program.Consistent)
    (hcourse.imp (fun _ _ hreplaces => hreplaces) fun _ refused hsame => ?_)).1
  exact ⟨.of_program_eq consistent hsame, hsame ▸ consistent⟩

theorem getLast?_cons_stages (operator : Operator) (oracle : AliasOracle) (workspace : Workspace) :
    (workspace :: operator.stages oracle workspace).getLast? =
      some ((operator.run oracle).left workspace) := by
  rw [List.getLast?_cons, getLast?_stages, Option.getD_some]

/-- In a run that is not so long that generations go around, what is there in the end has been there
throughout. -/
theorem survives_of_isLive (consistent : workspace.program.Consistent)
    (closed : workspace.program.Closed) (readsValues : workspace.program.ReadsValues)
    (hreplaces : operator.replacesCalls = true)
    (hreturns : operator.FindsPrimitives workspace.program) (oracle : AliasOracle)
    (hshort : 4 * (operator.stages oracle workspace).length < Slot.generationLimit)
    (hbefore : workspace.program.isLive handle)
    (hafter : ((operator.run oracle).left workspace).program.isLive handle) :
    operator.Survives oracle workspace handle := by
  intro stage hmem
  have hchain := isChain_turnover consistent hreplaces hreturns oracle
  have hlast := getLast?_cons_stages operator oracle workspace
  obtain ⟨front, back, hsplit⟩ := List.append_of_mem hmem
  rw [hsplit] at hshort hchain hlast
  rw [← List.cons_append, List.getLast?_append_cons] at hlast
  obtain ⟨hfront, hback⟩ := List.isChain_cons_split.mp hchain
  obtain ⟨_, hstage⟩ := Turnover.supersedes_of_isChain consistent hfront
    (by rw [← List.cons_append, List.getLast?_concat])
  obtain ⟨_, hrest⟩ := Turnover.supersedes_of_isChain hstage.consistent hback hlast
  obtain ⟨lost, -, houtgrown, hconforms⟩ :=
    hstage.conforms (Conforms.refl consistent closed readsValues)
  obtain ⟨entry, hplaced⟩ := Option.isSome_iff_exists.mp hbefore
  by_cases hgone : handle ∈ lost
  · -- its slot has moved on by then, and has not come back in the end
    have hstale := (hrest.outgrown (houtgrown handle hgone)).placed?_eq_none (by
      simp only [List.length_append, List.length_cons, List.length_nil] at hshort ⊢
      omega)
    simp [isLive, hstale] at hafter
  · obtain ⟨change, hfound, -⟩ := hconforms.stays hplaced (by simpa using hgone)
    simp [isLive, hfound]

/-- If calls return what their primitives return and no operand is of type `void`, an instruction
that survives the removal or replacement of calls is where it was and reads operands of the types
that it read before; only those are others that read the result of a call which did not survive. -/
theorem dependents_well_typed (consistent : workspace.program.Consistent)
    (closed : workspace.program.Closed) (readsValues : workspace.program.ReadsValues)
    (hreplaces : operator.replacesCalls = true)
    (hreturns : operator.FindsPrimitives workspace.program) (oracle : AliasOracle)
    (hplaced : workspace.program.placed? handle = some entry)
    (hsurvives : operator.Survives oracle workspace handle) :
    ∃ found, ((operator.run oracle).left workspace).program.placed? handle = some found ∧
      entry.Conforms workspace.program ((operator.run oracle).left workspace).program
        (fun used => operator.LooksFor workspace.program used ∧
          ¬ operator.Survives oracle workspace used) found := by
  obtain ⟨lost, hlost, hconforms⟩ := Turnover.conforms_of_isChain
    (isChain_turnover consistent hreplaces hreturns oracle)
    (getLast?_cons_stages operator oracle workspace) (.refl consistent closed readsValues)
  rw [List.nil_append] at hconforms
  have hgone : ∀ used ∈ lost, operator.LooksFor workspace.program used ∧
      ¬ operator.Survives oracle workspace used := by
    intro used hmem
    obtain ⟨hcall, stage, hstage, hnone⟩ := hlost used hmem
    exact ⟨hcall, fun hlive => by simpa [isLive, hnone] using hlive stage hstage⟩
  obtain ⟨change, hfound, hstands⟩ :=
    hconforms.stays hplaced fun hmem => (hgone handle hmem).2 hsurvives
  refine ⟨_, hfound, change, rfl, fun operand hoperand => ⟨(hstands operand hoperand).type_eq, ?_⟩⟩
  refine (hstands operand hoperand).changed.imp_right ?_
  rintro ⟨used, hmem, rfl⟩
  exact ⟨used, rfl, hgone used hmem⟩

/-- A lock that may unwind is shifted; the instruction that reads its status reads a zero then. -/
theorem dependents_well_typed_lockedTwice :
    ∃ found, (((Operator.lock (.shiftFirst 2)).run .identity).left
        { program := LockOperator.lockedTwice }).program.placed? ⟨1, 0⟩ = some found ∧
      Placed.Conforms LockOperator.lockedTwice (((Operator.lock (.shiftFirst 2)).run .identity).left
          { program := LockOperator.lockedTwice }).program
        (fun used => (Operator.lock (.shiftFirst 2)).LooksFor LockOperator.lockedTwice used ∧
          ¬ (Operator.lock (.shiftFirst 2)).Survives .identity
            { program := LockOperator.lockedTwice } used)
        ⟨.ofOperation (.other "work" [.result ⟨0, 0⟩] .void), 2, 1⟩ found :=
  have consistent := LockOperator.consistent_lockedTwice
  @dependents_well_typed (.lock (.shiftFirst 2)) { program := LockOperator.lockedTwice } _ _
    consistent (consistent.closed_iff.mpr (by decide +kernel))
    (consistent.readsValues_iff.mpr (by decide +kernel)) rfl
    ((findsPrimitives_iff consistent).mpr (by decide +kernel)) .identity (by decide +kernel)
    (by unfold Survives; decide +kernel)

end Operator

end ConcurrencyFaults

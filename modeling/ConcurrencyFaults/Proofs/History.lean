import ConcurrencyFaults.Operator
import ConcurrencyFaults.Proofs.Locking.Removal
import Mathlib.Data.List.Chain

/-!
# The history of a session

What a run as a whole does is often less than what is to be known of it: some properties are about
what one request leaves for the next.  This file takes runs apart.  After a preparation, in which
the program is searched, each run handles requests one after another and then makes its answer of
theirs (`Course`); put together again, these are the run itself (`Operator.run_eq`).  The workspaces
on the way are the stages of the run, and those of several runs on one workspace are the history of
a session, whether or not runs were stopped.

A removal of lock pairs gathers the calls to be removed first, each once.  Its requests are
therefore the gathered calls and not the pairs, which may share calls.

What holds between each stage and the next is shown for requests one at a time, under an invariant
that may differ from run to run (`Course.Follows`).

## Strategy

* A course sums up its answers at the end, a run does so on the way.  Both come to the same, for
  requests that report a change (`Course.finish_ofRequests`) and for removals, which collect what
  they removed (`LockOperator.finishFrom_removalCourse`).
* Stages are defined by the same recursion as the course, so what holds of one request holds along
  all of them (`Course.Follows.isChain_stages`), and the last stage is what is left
  (`getLast?_stagesFrom`).
* A session glues the stages of its runs together where one run ends and the next starts
  (`Session.isChain_history`).
-/

namespace ConcurrencyFaults

open Work

/-- The workspace that work leaves behind, whether it answers or is refused. -/
def Work.left {Answer : Type} (work : Work Answer) (workspace : Workspace) : Workspace :=
  match work workspace with
  | .ok _ after => after
  | .error _ after => after

section Left

variable {Answer Other : Type} {work : Work Answer} {workspace after : Workspace}

theorem Work.left_of_ok {answer : Answer} (hwork : work workspace = .ok answer after) :
    work.left workspace = after := by
  unfold Work.left
  rw [hwork]

theorem Work.left_of_error {problem : EditError} (hwork : work workspace = .error problem after) :
    work.left workspace = after := by
  unfold Work.left
  rw [hwork]

theorem Work.left_bind_of_ok {answer : Answer} (hwork : work workspace = .ok answer after)
    (next : Answer → Work Other) : (work >>= next).left workspace = (next answer).left after := by
  unfold Work.left
  rw [bind_apply_of_ok hwork]

end Left

/-- A run after its preparation: the requests, and the answer that is made of their answers. -/
structure Course where
  requests : List (Work Bool)
  close : List Bool → Work Bool

namespace Course

/-! ## Requests one after another

The answers so far are carried along, since the last step of a course may depend on all of them. -/

/-- Handles requests after some others, whose answers are given. -/
def finishFrom (close : List Bool → Work Bool) : List Bool → List (Work Bool) → Work Bool
  | answers, [] => close answers
  | answers, request :: rest => do
      let answer ← request
      finishFrom close (answers ++ [answer]) rest

/-- What the requests leave behind one after another, up to the first that is refused, and what is
left in the end. -/
def stagesFrom (close : List Bool → Work Bool) :
    List Bool → List (Work Bool) → Workspace → List Workspace
  | answers, [], workspace => [(close answers).left workspace]
  | answers, request :: rest, workspace =>
      match request workspace with
      | .ok answer after => after :: stagesFrom close (answers ++ [answer]) rest after
      | .error _ after => [after]

def finish (course : Course) : Work Bool := finishFrom course.close [] course.requests

def stages (course : Course) : Workspace → List Workspace :=
  stagesFrom course.close [] course.requests

/-- Handles requests and says whether one of them changed something. -/
def ofRequests {Request : Type} (requests : List Request) (handle : Request → Work Bool) :
    Course where
  requests := requests.map handle
  close answers := pure (answers.any id)

/-- There is nothing to do. -/
def nothing : Course where
  requests := []
  close _ := pure false

def ofSites (pass : String) (sites : List MemorySite) (positions : List Nat)
    (handle : Nat → MemorySite → Work Bool) : Course :=
  ofRequests positions.zipIdx fun (position, request) => do
    if ← claimOrWarn pass position sites.length then
      match sites[position]? with
      | some site => handle request site
      | none => return false
    else
      return false

def ofCalls (pass : String) (found : FoundCalls) (positions : List Nat)
    (handle : Nat → CallSite → Work Bool) : Course :=
  ofRequests positions.zipIdx (callRequest pass found handle)

/-- The last stage is what is left in the end. -/
theorem getLast?_stagesFrom (close : List Bool → Work Bool) (answers : List Bool)
    (requests : List (Work Bool)) (workspace : Workspace) :
    (stagesFrom close answers requests workspace).getLast? =
      some ((finishFrom close answers requests).left workspace) := by
  induction requests generalizing answers workspace with
  | nil => rfl
  | cons request rest ih =>
      unfold stagesFrom finishFrom
      cases hrequest : request workspace with
      | ok answer after =>
          rw [Work.left_bind_of_ok hrequest, List.getLast?_cons, ih]
          rfl
      | error problem after =>
          rw [Work.left_of_error (bind_apply_of_error hrequest _)]
          rfl

theorem finishFrom_ofRequests {Request : Type} (requests : List Request)
    (handle : Request → Work Bool) (answers : List Bool) :
    finishFrom (fun answers => pure (answers.any id)) answers (requests.map handle) =
      requests.foldlM (fun changed request => return (← handle request) || changed)
        (answers.any id) := by
  induction requests generalizing answers with
  | nil => rfl
  | cons request rest ih =>
      rw [List.map_cons, List.foldlM_cons, bind_assoc]
      unfold finishFrom
      congr 1
      funext answer
      rw [ih, pure_bind, List.any_append, Bool.or_comm]
      simp

theorem finish_ofRequests {Request : Type} (requests : List Request)
    (handle : Request → Work Bool) : (ofRequests requests handle).finish = anyOf requests handle :=
  finishFrom_ofRequests requests handle []

theorem finish_nothing : nothing.finish = pure false := rfl

theorem finish_ofSites (pass : String) (sites : List MemorySite) (positions : List Nat)
    (handle : Nat → MemorySite → Work Bool) :
    (ofSites pass sites positions handle).finish = anySite pass sites positions handle :=
  finish_ofRequests _ _

theorem finish_ofCalls (pass : String) (found : FoundCalls) (positions : List Nat)
    (handle : Nat → CallSite → Work Bool) :
    (ofCalls pass found positions handle).finish = anyCall pass found positions handle :=
  finish_ofRequests _ _

/-! ## What holds between stages

The relation is between two workspaces, the invariant about one.  A request may rely on the
invariant, which says what earlier requests have left alone. -/

/-- No request is refused, and each leads to a related workspace; all of them keep an invariant and
may rely on it. -/
structure Follows (course : Course) (relation : Workspace → Workspace → Prop)
    (invariant : Workspace → Prop) : Prop where
  request : ∀ request ∈ course.requests, ∀ state, invariant state →
    Runs request state (fun _ after => relation state after ∧ invariant after) fun _ _ => False
  close : ∀ answers state, invariant state →
    Runs (course.close answers) state (fun _ after => relation state after ∧ invariant after)
      fun _ _ => False

variable {relation : Workspace → Workspace → Prop} {invariant : Workspace → Prop}
  {workspace : Workspace}

theorem Follows.ofRequests {Request : Type} {requests : List Request}
    {handle : Request → Work Bool} (hrefl : ∀ state, invariant state → relation state state)
    (hhandle : ∀ request ∈ requests, ∀ state, invariant state →
      Runs (handle request) state (fun _ after => relation state after ∧ invariant after)
        fun _ _ => False) : (ofRequests requests handle).Follows relation invariant where
  request := by
    intro work hmem
    obtain ⟨request, hrequest, rfl⟩ := List.mem_map.mp hmem
    exact hhandle request hrequest
  close := fun _ state hstate => runs_pure ⟨hrefl state hstate, hstate⟩

/-- Requests about the sites of a search are refused by none of them. -/
theorem Follows.ofTracked {Request : Type} {requests : List Request}
    {handle : Request → Work Bool} {start : Program} {sites : List CallSite}
    (hrefl : ∀ state : Workspace, state.program.Consistent → relation state state)
    (htracked : ∀ request (state : Workspace), Tracked start sites state →
      Runs (handle request) state (fun _ => Tracked start sites) fun _ _ => False)
    (hrelated : ∀ request ∈ requests, ∀ state : Workspace, Tracked start sites state →
      Runs (handle request) state (fun _ => relation state) fun _ _ => True) :
    (Course.ofRequests requests handle).Follows relation (Tracked start sites) := by
  refine .ofRequests (fun state tracked => hrefl state tracked.consistent) ?_
  intro request hmem state tracked
  have hboth := (htracked request state tracked).and_answered (hrelated request hmem state tracked)
  exact hboth.weaken fun _ _ hboth => hboth.symm

theorem Follows.nothing (hrefl : ∀ state, invariant state → relation state state) :
    nothing.Follows relation invariant where
  request := fun _ hmem => by cases hmem
  close := fun _ state hstate => runs_pure ⟨hrefl state hstate, hstate⟩

private theorem isChain_stagesFrom {close : List Bool → Work Bool} {requests : List (Work Bool)}
    (hfollows : Follows ⟨requests, close⟩ relation invariant) (answers : List Bool)
    (hstart : invariant workspace) :
    (workspace :: stagesFrom close answers requests workspace).IsChain relation ∧
      ∀ state ∈ stagesFrom close answers requests workspace, invariant state := by
  -- on the requests that are left; the invariant holds where they start
  induction requests generalizing answers workspace with
  | nil =>
      obtain ⟨answer, after, hclose, hrelation, hafter⟩ :=
        (hfollows.close answers workspace hstart).exists_ok
      unfold stagesFrom
      rw [Work.left_of_ok hclose]
      exact ⟨List.isChain_pair.mpr hrelation, by simpa using hafter⟩
  | cons request rest ih =>
      obtain ⟨answer, after, hrequest, hrelation, hafter⟩ :=
        (hfollows.request request (List.mem_cons_self ..) workspace hstart).exists_ok
      have hrest : Follows ⟨rest, close⟩ relation invariant :=
        ⟨fun later hlater => hfollows.request later (List.mem_cons_of_mem _ hlater),
          hfollows.close⟩
      obtain ⟨hchain, hstages⟩ := ih hrest (answers ++ [answer]) hafter
      unfold stagesFrom
      rw [hrequest]
      exact ⟨List.isChain_cons_cons.mpr ⟨hrelation, hchain⟩,
        List.forall_mem_cons.mpr ⟨hafter, hstages⟩⟩

/-- Each stage is related to the next, and the invariant holds throughout. -/
theorem Follows.isChain_stages {course : Course} (hfollows : course.Follows relation invariant)
    (hstart : invariant workspace) :
    (workspace :: course.stages workspace).IsChain relation ∧
      ∀ state ∈ course.stages workspace, invariant state :=
  isChain_stagesFrom hfollows [] hstart

end Course

/-! ## The course of a run

An operator that was not told what to change has nothing to do.  The others search the program, and
then handle one request for each position. -/

namespace LockOperator

/-- Which of the listed calls were removed. -/
def removedOf (sites : List (CallSite × LockFamily)) (answers : List Bool) : List Handle :=
  ((sites.zip answers).filter Prod.snd).map fun listed => listed.1.1.handle

/-- A removal after its requests were gathered. -/
def removalCourse (removals : RemovalList) : Course where
  requests := removals.sites.map fun listed => removeSite listed.1 listed.2
  close answers := do
    removals.pairs.forM (recordRemoved (removedOf removals.sites answers))
    return !(removedOf removals.sites answers).isEmpty

def course (plan : LockPlan) (oracle : AliasOracle) : Work Course :=
  match plan.mode with
  | none => return .nothing
  | some mode => do
      let index ← PairIndex.build oracle
      match mode with
      | .remove =>
          return removalCourse
            (← (PairAddress.listOf plan.positions).foldlM (schedule index plan.addressing) {})
      | .swap => return .ofRequests (PairAddress.pairsOf plan.positions) (swapRequest index plan)
      | .shift =>
          return .ofRequests (PairAddress.listOf plan.positions).zipIdx (shiftRequest index plan)
      | .split =>
          return .ofRequests (PairAddress.listOf plan.positions).zipIdx (splitRequest index plan)

theorem removedOf_concat {done rest : List (CallSite × LockFamily)}
    {listed : CallSite × LockFamily} {answers : List Bool} (hlength : done.length = answers.length)
    (answer : Bool) :
    removedOf (done ++ listed :: rest) (answers ++ [answer]) =
      if answer then removedOf (done ++ listed :: rest) answers ++ [listed.1.handle]
      else removedOf (done ++ listed :: rest) answers := by
  -- answers stand against the calls that are done; the next answer is that of `listed`
  have hall : (done ++ listed :: rest).zip (answers ++ [answer]) =
      done.zip answers ++ [(listed, answer)] := by
    rw [List.zip_append hlength]
    simp
  have hsome : (done ++ listed :: rest).zip answers = done.zip answers := by
    have happend := @List.zip_append _ _ done (listed :: rest) answers [] hlength
    simpa using happend
  unfold removedOf
  rw [hall, hsome]
  cases answer <;> simp

theorem removeNext_eq (removed : List Handle) (listed : CallSite × LockFamily) :
    removeNext removed listed = (do
      let answer ← removeSite listed.1 listed.2
      return if answer then removed ++ [listed.1.handle] else removed) := rfl

theorem finishFrom_removalCourse (removals : RemovalList)
    {done rest : List (CallSite × LockFamily)} (hsites : removals.sites = done ++ rest)
    {answers : List Bool} (hlength : done.length = answers.length) :
    Course.finishFrom (removalCourse removals).close answers
        (rest.map fun listed => removeSite listed.1 listed.2) = (do
      let removed ← rest.foldlM removeNext (removedOf removals.sites answers)
      removals.pairs.forM (recordRemoved removed)
      return !removed.isEmpty) := by
  induction rest generalizing done answers with
  | nil =>
      rw [List.map_nil, List.foldlM_nil, pure_bind]
      rfl
  | cons listed rest ih =>
      rw [List.map_cons, List.foldlM_cons, removeNext_eq, bind_assoc, bind_assoc]
      unfold Course.finishFrom
      congr 1
      funext answer
      have hnext := @ih (done ++ [listed]) (by simpa using hsites) (answers ++ [answer])
        (by simp [hlength])
      have hremoved := @removedOf_concat done rest listed answers hlength answer
      rw [← hsites] at hremoved
      rw [hnext, pure_bind, hremoved]

theorem run_eq (plan : LockPlan) (oracle : AliasOracle) :
    run plan oracle = course plan oracle >>= Course.finish := by
  unfold run course
  cases plan.mode with
  | none => rfl
  | some mode =>
      dsimp only
      rw [bind_assoc]
      congr 1
      funext index
      cases mode with
      | remove =>
          dsimp only
          rw [bind_assoc, remove_eq]
          congr 1
          funext removals
          have hfinish := @finishFrom_removalCourse removals [] removals.sites rfl [] rfl
          have hnone : removedOf removals.sites [] = [] := by simp [removedOf]
          rw [hnone] at hfinish
          rw [pure_bind]
          exact hfinish.symm
      | swap =>
          dsimp only
          rw [pure_bind, Course.finish_ofRequests, swap_eq]
      | shift =>
          dsimp only
          rw [pure_bind, Course.finish_ofRequests, shift_eq]
      | split =>
          dsimp only
          rw [pure_bind, Course.finish_ofRequests, split_eq]

end LockOperator

namespace Operator

/-- The preparation of a run, which ends with the requests that are to be handled. -/
def course (operator : Operator) (oracle : AliasOracle) : Work Course :=
  match operator with
  | .lock plan => LockOperator.course plan oracle
  | .fence plan =>
      match plan.change with
      | none => return .nothing
      | some change => do
          let sites := MemorySite.fences (← get).program
          return .ofSites FenceOperator.name sites plan.positions fun request site => do
            FenceOperator.apply change request site
            return true
  | .atomic plan =>
      match plan.change with
      | none => return .nothing
      | some change => do
          let sites := AtomicOperator.sites plan.target plan.onlyAtomic (← get).program
          return .ofSites (AtomicOperator.name plan.target) sites plan.positions
            (AtomicOperator.apply plan.target change)
  | .volatile plan => do
      let sites := MemorySite.volatiles (← get).program
      return .ofSites VolatileOperator.name sites plan.positions fun _ site =>
        VolatileOperator.clear site
  | .semaphore plan => do
      if plan.positions.isEmpty then
        warn s!"{SemaphoreOperator.name}: modify specified without any positions"
        return .nothing
      let found ← query SemaphoreOperator.search.inProgram
      return .ofCalls SemaphoreOperator.name found plan.positions fun request site => do
        let value ← SemaphoreOperator.valueFor plan request
        SemaphoreOperator.setValue site value
  | .join plan =>
      match plan.change with
      | none => return .nothing
      | some change => do
          if plan.positions.isEmpty then
            warn s!"{JoinOperator.name}: mutation specified without any positions"
            return .nothing
          let found ← query (JoinOperator.search plan).inProgram
          return .ofCalls JoinOperator.name found plan.positions fun _ site => do
            let changed ← JoinOperator.apply change site
            markEdited site.handle
            return changed
  | .signal plan =>
      match plan.change with
      | none => return .nothing
      | some change => do
          if plan.overridden then
            warn s!"{SignalOperator.name}: both remove and swap specified; remove takes precedence"
          let found ← query SignalOperator.search.inProgram
          return .ofCalls SignalOperator.name found plan.positions fun _ site =>
            SignalOperator.apply change site
  | .wait plan =>
      match plan.change with
      | none => return .nothing
      | some change => do
          let found ← query WaitOperator.search.inProgram
          return .ofCalls WaitOperator.name found plan.positions (WaitOperator.apply change)
  | .yield plan => do
      let found ← query YieldOperator.search.inProgram
      return .ofCalls YieldOperator.name found plan.positions fun _ site =>
        YieldOperator.remove site

/-- Whether the operator was told what to change.  Those that know one change only need not be. -/
def hasChange : Operator → Bool
  | .lock plan => plan.mode.isSome
  | .fence plan => plan.change.isSome
  | .atomic plan => plan.change.isSome
  | .join plan => plan.change.isSome
  | .signal plan => plan.change.isSome
  | .wait plan => plan.change.isSome
  | .volatile _ | .semaphore _ | .yield _ => true

theorem course_of_not_hasChange {operator : Operator} (hnone : operator.hasChange = false)
    (oracle : AliasOracle) : operator.course oracle = pure .nothing := by
  cases operator <;> simp_all [hasChange, course, LockOperator.course]

theorem run_eq (operator : Operator) (oracle : AliasOracle) :
    operator.run oracle = operator.course oracle >>= Course.finish := by
  cases operator with
  | lock plan => exact LockOperator.run_eq plan oracle
  | fence plan =>
      simp only [run, course, FenceOperator.run]
      cases plan.change with
      | none => rfl
      | some change => simp only [bind_assoc, pure_bind, Course.finish_ofSites]
  | atomic plan =>
      simp only [run, course, AtomicOperator.run]
      cases plan.change with
      | none => rfl
      | some change => simp only [bind_assoc, pure_bind, Course.finish_ofSites]
  | volatile plan =>
      simp only [run, course, VolatileOperator.run, bind_assoc, pure_bind, Course.finish_ofSites]
  | semaphore plan =>
      simp only [run, course, SemaphoreOperator.run]
      split <;> simp only [bind_assoc, pure_bind, Course.finish_ofCalls, Course.finish_nothing]
  | join plan =>
      simp only [run, course, JoinOperator.run]
      cases plan.change with
      | none => rfl
      | some change =>
          dsimp only
          split <;> simp only [bind_assoc, pure_bind, Course.finish_ofCalls, Course.finish_nothing]
  | signal plan =>
      simp only [run, course, SignalOperator.run]
      cases plan.change with
      | none => rfl
      | some change =>
          dsimp only
          split <;> simp only [bind_assoc, pure_bind, Course.finish_ofCalls]
  | wait plan =>
      simp only [run, course, WaitOperator.run]
      cases plan.change with
      | none => rfl
      | some change => simp only [bind_assoc, pure_bind, Course.finish_ofCalls]
  | yield plan =>
      simp only [run, course, YieldOperator.run, bind_assoc, pure_bind, Course.finish_ofCalls]

/-- What a run leaves behind after its preparation, after each request and in the end. -/
def stages (operator : Operator) (oracle : AliasOracle) (workspace : Workspace) :
    List Workspace :=
  match operator.course oracle workspace with
  | .ok course prepared => prepared :: course.stages prepared
  | .error _ refused => [refused]

theorem getLast?_stages (operator : Operator) (oracle : AliasOracle) (workspace : Workspace) :
    (operator.stages oracle workspace).getLast? =
      some ((operator.run oracle).left workspace) := by
  unfold stages
  rw [run_eq]
  cases hcourse : operator.course oracle workspace with
  | ok course prepared =>
      have hlast := Course.getLast?_stagesFrom course.close [] course.requests prepared
      rw [Work.left_bind_of_ok hcourse]
      dsimp only [Course.stages]
      rw [List.getLast?_cons, hlast]
      rfl
  | error problem refused =>
      rw [Work.left_of_error (bind_apply_of_error hcourse _)]
      rfl

variable {operator : Operator} {oracle : AliasOracle} {workspace : Workspace}
  {relation : Workspace → Workspace → Prop} {good : Workspace → Prop}

/-- If the preparation leads to a related workspace, whether or not it is refused, and then each
request does, then so does each stage. -/
theorem isChain_stages
    (hcourse : Runs (operator.course oracle) workspace
      (fun course prepared => relation workspace prepared ∧
        ∃ invariant : Workspace → Prop, invariant prepared ∧ course.Follows relation invariant ∧
          ∀ state, invariant state → good state)
      fun _ refused => relation workspace refused ∧ good refused) :
    (workspace :: operator.stages oracle workspace).IsChain relation ∧
      ∀ state ∈ operator.stages oracle workspace, good state := by
  unfold Runs at hcourse
  unfold stages
  cases hresult : operator.course oracle workspace with
  | ok course prepared =>
      rw [hresult] at hcourse
      obtain ⟨hrelation, invariant, hprepared, hfollows, hgood⟩ := hcourse
      obtain ⟨hchain, hstages⟩ := hfollows.isChain_stages hprepared
      refine ⟨List.isChain_cons_cons.mpr ⟨hrelation, hchain⟩, ?_⟩
      exact List.forall_mem_cons.mpr ⟨hgood _ hprepared, fun state hmem =>
        hgood _ (hstages state hmem)⟩
  | error problem refused =>
      rw [hresult] at hcourse
      exact ⟨List.isChain_pair.mpr hcourse.1, by simpa using hcourse.2⟩

end Operator

/-! ## Several runs on one workspace

The next run starts with what the last one left, even if the last one was stopped. -/

/-- Runs that share one ledger, each of an operator that asks an oracle of its own. -/
abbrev Session := List (Operator × AliasOracle)

namespace Session

/-- What is left after all runs. -/
def run (session : Session) (workspace : Workspace) : Workspace :=
  session.foldl (fun workspace (operator, oracle) => (operator.run oracle).left workspace) workspace

/-- The stages of all runs. -/
def stages : Session → Workspace → List Workspace
  | [], _ => []
  | (operator, oracle) :: rest, workspace =>
      operator.stages oracle workspace ++ stages rest ((operator.run oracle).left workspace)

/-- Every workspace there was, from the first on. -/
def history (session : Session) (workspace : Workspace) : List Workspace :=
  workspace :: session.stages workspace

/-- A history ends with what the session leaves behind. -/
theorem getLast?_history (session : Session) (workspace : Workspace) :
    (session.history workspace).getLast? = some (session.run workspace) := by
  induction session generalizing workspace with
  | nil => rfl
  | cons first rest ih =>
      obtain ⟨operator, oracle⟩ := first
      have hlast := operator.getLast?_stages oracle workspace
      have hrest := ih ((operator.run oracle).left workspace)
      unfold history at hrest ⊢
      rw [List.getLast?_cons] at hrest ⊢
      unfold stages
      rw [List.getLast?_append, hlast, Option.or_some]
      exact hrest

/-- What holds between the stages of each run holds between those of the session. -/
theorem isChain_history {session : Session} {workspace : Workspace}
    {relation : Workspace → Workspace → Prop} {good : Workspace → Prop}
    (hruns : ∀ run ∈ session, ∀ state, good state →
      (state :: run.1.stages run.2 state).IsChain relation ∧
        ∀ later ∈ run.1.stages run.2 state, good later)
    (hstart : good workspace) : (session.history workspace).IsChain relation := by
  induction session generalizing workspace with
  | nil => exact List.isChain_singleton _
  | cons first rest ih =>
      obtain ⟨operator, oracle⟩ := first
      obtain ⟨hchain, hgood⟩ := hruns _ (List.mem_cons_self ..) workspace hstart
      have hlast := operator.getLast?_stages oracle workspace
      have hleft := hgood _ (List.mem_of_getLast? hlast)
      have hrest := ih (fun run hmem => hruns run (List.mem_cons_of_mem _ hmem)) hleft
      -- the stages of the first run end where those of the others start
      obtain ⟨front, hfront⟩ := List.getLast?_eq_some_iff.mp hlast
      unfold history at hrest ⊢
      unfold stages
      rw [hfront] at hchain ⊢
      rw [← List.cons_append] at hchain
      rw [List.append_assoc, ← List.cons_append]
      exact List.isChain_split.mpr ⟨hchain, hrest⟩

end Session

end ConcurrencyFaults

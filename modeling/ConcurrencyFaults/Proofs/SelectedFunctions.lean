import ConcurrencyFaults.Proofs.Closed
import ConcurrencyFaults.Proofs.Framing
import ConcurrencyFaults.Proofs.Operators.Candidates

/-!
# Edits stay inside the selected functions

A plan selects the functions that hold one of the candidates it asks for; for lock pairs these are
the functions of both calls of a requested pair.  A run works in these functions alone, whatever the
ledger and the oracle are like and whether the run answers or is stopped: every other function keeps
its lists and its instructions, and what is appended to the functions are declarations
(`Operator.framed_after_run`).

Two handlers take an anchor that is not the call itself.  A deadline can be moved at another place
of the function that holds the wait, and a lock is moved to where a walk ends; neither leaves the
function.

## Strategy

* Each handler keeps the frame if its anchors are `Within` the selected functions (the `frames_…`
  lemmas).  Anchors that are looked up on the way are shown to be within them as well
  (`runs_handlesOf_within`, `runs_step_within`).
* Requests are for candidates or pairs of the program that the run started on, where being within
  a selected function can be read off the candidate (`functionOf?_of_mem_candidates`, `frames_run`).
* Nothing is asked of the ledger, nor of what earlier requests did, so the run is followed by
  `Work.Keeps` alone.
-/

namespace ConcurrencyFaults

open Program Work

variable {start : Program} {selected : FunctionId → Prop}

/-! ## Accesses

The anchor is the access, which is overwritten or erased. -/

section Accesses

variable {site : MemorySite} (hwithin : start.Within selected site.handle)
include hwithin

theorem FenceOperator.frames_apply (change : FenceChange) (request : Nat) :
    Work.Keeps (start.Framed selected) (FenceOperator.apply change request site) := by
  have hoverwrite (operation : Operation) (kind : EntryKind) (message : String) :
      Work.Keeps (start.Framed selected) (do
        Work.edit (setOperation site.handle operation)
        Work.recordChange FenceOperator.name kind site.function message) :=
    (keeps_edit (frames_changeInstruction hwithin _)).bind fun _ => keeps_recordChange
  cases change with
  | remove => exact (keeps_edit (frames_erase hwithin)).bind fun _ => keeps_recordChange
  | toggleScope =>
      refine (keeps_query _).bind fun instruction => ?_
      split
      · exact keeps_pure _
      · exact hoverwrite _ _ _
  | order codes =>
      unfold FenceOperator.apply
      dsimp only
      split
      · refine (keeps_query _).bind fun instruction => ?_
        split
        · exact keeps_pure _
        · exact hoverwrite _ _ _
      · exact keeps_warn _

theorem AtomicOperator.frames_apply (target : AtomicTarget) (change : AtomicChange)
    (request : Nat) :
    Work.Keeps (start.Framed selected) (AtomicOperator.apply target change request site) := by
  refine (keeps_query _).bind fun instruction => ?_
  split
  · exact keeps_pure _
  · split
    · exact keeps_skip _
    · exact (keeps_edit (frames_changeInstruction hwithin _)).bind fun _ =>
        keeps_recordChange.bind fun _ => keeps_pure true

theorem VolatileOperator.frames_clear :
    Work.Keeps (start.Framed selected) (VolatileOperator.clear site) := by
  refine (keeps_query _).bind fun instruction => ?_
  split
  · exact keeps_pure _
  · exact (keeps_edit (frames_changeInstruction hwithin _)).bind fun _ =>
      keeps_recordChange.bind fun _ => keeps_pure true

end Accesses

/-! ## Calls

The anchor is the call.  A declaration may come first, which is in no function's way. -/

section Calls

variable {site : CallSite} (hwithin : start.Within selected site.handle)
include hwithin

namespace Condition

theorem frames_remove (pass : String) :
    Work.Keeps (start.Framed selected) (Condition.remove pass site) :=
  (keeps_edit (CallSite.frames_remove hwithin 32 true)).bind fun _ =>
    (keeps_markEdited _).bind fun _ => keeps_recordChange.bind fun _ => keeps_pure _

theorem frames_retarget (pass : String) (replacement : Instruction) (message : String) :
    Work.Keeps (start.Framed selected) (retarget pass site replacement message) :=
  (keeps_edit (frames_replaceWith hwithin replacement)).bind fun _ =>
    (keeps_markEdited _).bind fun _ => (keeps_markEdited _).bind fun _ =>
      keeps_recordChange.bind fun _ => keeps_pure _

theorem frames_declare_retarget (name : String) (parameters : List Ty) (pass : String)
    (replacement : FunctionId → Instruction) (message : String) :
    Work.Keeps (start.Framed selected) (do
      let target ← Work.update (·.getOrDeclare name .status parameters)
      retarget pass site (replacement target) message) :=
  (keeps_update fun _ framed => framed.getOrDeclare name .status parameters).bind fun target =>
    frames_retarget hwithin pass (replacement target) message

end Condition

theorem SignalOperator.frames_apply (change : SignalChange) :
    Work.Keeps (start.Framed selected) (SignalOperator.apply change site) := by
  unfold SignalOperator.apply
  split
  · exact keeps_skip _
  · cases change with
    | remove => exact Condition.frames_remove hwithin SignalOperator.name
    | swap => exact Condition.frames_declare_retarget hwithin _ _ _ _ _

namespace WaitOperator

theorem frames_untime : Work.Keeps (start.Framed selected) (untime site) := by
  unfold untime
  split
  · exact keeps_skip _
  · split
    · exact keeps_skip _
    · exact Condition.frames_declare_retarget hwithin _ _ _ _ _

omit hwithin in
/-- Instructions of a selected function are looked up by their places. -/
theorem runs_handlesOf_within {workspace : Workspace}
    (framed : start.Framed selected workspace.program) (hselected : selected site.function) :
    Runs (Work.query (·.handlesOf site.function)) workspace
      (fun handles _ => ∀ handle ∈ handles, start.Within selected handle) fun _ _ => True := by
  rw [← bind_pure (Work.query _)]
  refine runs_bind_query_of (fun handles hhandles => runs_pure fun handle hmem => ?_)
    fun _ _ => trivial
  obtain ⟨function, hfunction, rfl⟩ := Except.map_eq_ok_iff.mp hhandles
  obtain ⟨entry, hplaced, hentry⟩ :=
    framed.consistent.placed_of_mem_function (function_eq_ok_iff.mp hfunction) hmem
  exact framed.within_of_selected hplaced (hentry ▸ hselected)

/-- The new code goes into the function of the wait, wherever it goes there. -/
theorem frames_moveDeadline (hselected : selected site.function) (seconds nanoseconds : Int)
    (point : Option Nat) :
    Work.Keeps (start.Framed selected) (moveDeadline site seconds nanoseconds point) := by
  unfold moveDeadline
  split
  · exact keeps_skip _
  · split
    · extract_lets rest
      have hrest : ∀ handles, (∀ handle ∈ handles, start.Within selected handle) →
          Work.Keeps (start.Framed selected) (rest handles) := by
        intro handles hhandles
        simp only [rest]
        split
        · rename_i anchor hanchor
          have hanchor : start.Within selected anchor := by
            cases point with
            | none => exact Option.some.inj hanchor ▸ hwithin
            | some point => exact hhandles anchor (List.mem_of_getElem? hanchor)
          exact (keeps_edit (frames_addToField hanchor _ _ _ _)).bind fun _ =>
            (keeps_edit (frames_addToField hanchor _ _ _ _)).bind fun _ =>
              (keeps_forM fun handle _ => keeps_markEdited handle).bind fun _ =>
                (keeps_markEdited _).bind fun _ => (keeps_query _).bind fun _ =>
                  keeps_recordChange.bind fun _ => keeps_pure true
        · exact (keeps_record _).bind fun _ => keeps_pure false
      split
      · exact hrest [] (by simp)
      · exact (keeps_query _).bind_known
          (fun _ framed => runs_handlesOf_within framed hselected) hrest
    · exact keeps_skip _

theorem frames_apply (hselected : selected site.function) (change : WaitChange) (request : Nat) :
    Work.Keeps (start.Framed selected) (WaitOperator.apply change request site) := by
  cases change with
  | remove => exact Condition.frames_remove hwithin WaitOperator.name
  | untime => exact frames_untime hwithin
  | timeout seconds nanoseconds points => exact frames_moveDeadline hwithin hselected _ _ _

end WaitOperator

theorem SemaphoreOperator.frames_setValue (value : Nat) :
    Work.Keeps (start.Framed selected) (SemaphoreOperator.setValue site value) := by
  unfold SemaphoreOperator.setValue
  split
  · split
    · exact keeps_skip _
    · refine (keeps_query _).bind fun instruction => ?_
      split
      · exact keeps_pure _
      · split
        · exact keeps_pure _
        · exact (keeps_edit (frames_changeInstruction hwithin _)).bind fun _ =>
            (keeps_markEdited _).bind fun _ => keeps_recordChange.bind fun _ => keeps_pure true
  · exact keeps_pure _

theorem YieldOperator.frames_remove :
    Work.Keeps (start.Framed selected) (YieldOperator.remove site) := by
  refine (keeps_query _).bind fun uses => ?_
  split
  · exact keeps_skip _
  · exact (keeps_edit (CallSite.frames_branchToNormal hwithin)).bind fun _ =>
      (keeps_edit (frames_erase hwithin)).bind fun _ => (keeps_markEdited _).bind fun _ =>
        keeps_recordChange.bind fun _ => keeps_pure true

namespace JoinOperator

theorem frames_replaceWithSleep (seconds : Nat) :
    Work.Keeps (start.Framed selected) (replaceWithSleep site seconds) := by
  unfold replaceWithSleep
  extract_lets isStandard rest
  have hrest : ∀ uses, Work.Keeps (start.Framed selected) (rest uses) := by
    intro uses
    simp only [rest]
    split
    · exact keeps_skip _
    · refine (keeps_update fun _ framed => framed.getOrDeclare _ _ _).bind fun target => ?_
      refine (keeps_edit ?_).bind fun handle => (keeps_markEdited _).bind fun _ =>
        keeps_recordChange.bind fun _ => keeps_pure true
      split
      · exact frames_sleepBefore hwithin _
      · exact CallSite.frames_replace hwithin _
  split
  · exact (keeps_query _).bind hrest
  · exact hrest 0

theorem frames_apply (change : JoinChange) :
    Work.Keeps (start.Framed selected) (JoinOperator.apply change site) := by
  cases change with
  | remove =>
      exact (keeps_edit (CallSite.frames_remove hwithin 32 true)).bind fun _ =>
        keeps_recordChange.bind fun _ => keeps_pure true
  | sleep seconds => exact frames_replaceWithSleep hwithin seconds

end JoinOperator

/-! ## Lock pairs

A pair has two anchors, which lie in one function; an exchange of two pairs has four, which may lie
in two. -/

namespace LockOperator

theorem frames_removeSite (family : LockFamily) :
    Work.Keeps (start.Framed selected) (removeSite site family) := by
  refine (keeps_isUntouched name site).bind fun untouched => ?_
  split
  · exact keeps_pure false
  · extract_lets rest
    have hrest : ∀ uses, Work.Keeps (start.Framed selected) (rest uses) := by
      intro uses
      simp only [rest]
      split
      · exact keeps_skip _
      · exact (keeps_edit (CallSite.frames_remove hwithin _ _)).bind fun _ =>
          (keeps_markEdited _).bind fun _ => keeps_pure true
    split
    · exact hrest 0
    · exact (keeps_query _).bind hrest

theorem frames_swapSites {other : CallSite} (hother : start.Within selected other.handle) :
    Work.Keeps (start.Framed selected) (swapSites site other) :=
  (keeps_edit (frames_replaceWith hwithin _)).bind fun _ =>
    (keeps_edit (frames_replaceWith hother _)).bind fun _ =>
      (keeps_forM fun handle _ => keeps_markEdited handle).bind fun _ => keeps_recordChange

omit hwithin in
/-- A walk ends in the function that it started in. -/
theorem runs_step_within {workspace : Workspace} {base : Handle}
    (framed : start.Framed selected workspace.program) (hbase : start.Within selected base)
    (direction : Int) :
    Runs (Work.query (·.step base direction)) workspace
      (fun step _ => start.Within selected step.target) fun _ _ => True := by
  cases hplaced : workspace.program.placed? base with
  | none =>
      rw [← bind_pure (Work.query _)]
      refine runs_bind_query_of (fun step hstep => ?_) fun _ _ => trivial
      rw [step_of_stale hplaced] at hstep
      cases hstep
  | some entry =>
      obtain ⟨step, target, hstep, htarget, hfunction⟩ :=
        exists_step framed.consistent hplaced direction
      exact runs_query hstep (framed.within_of_function_eq hbase hplaced htarget hfunction)

omit hwithin in
theorem keeps_shiftObstacle? {invariant : Program → Prop} (site : CallSite) (family : LockFamily) :
    Work.Keeps invariant (shiftObstacle? site family) := by
  unfold shiftObstacle?
  split
  · exact keeps_pure _
  · extract_lets rest
    have hrest : ∀ uses, Work.Keeps invariant (rest uses) := by
      intro uses
      simp only [rest]
      split
      · exact keeps_pure _
      · split <;> exact keeps_pure _
    split
    · exact hrest 0
    · exact (keeps_query _).bind hrest

theorem frames_shiftSite (family : LockFamily) (direction : Int) :
    Work.Keeps (start.Framed selected) (shiftSite site family direction) := by
  refine (keeps_shiftObstacle? site family).bind fun obstacle => ?_
  split
  · exact keeps_skip _
  · exact keeps_pure false
  · rename_i mutex _ _
    refine (keeps_edit (frames_plainCall hwithin mutex)).bind_known
      (fun _ framed => runs_edit (runs_plainCall_within hwithin framed mutex)) fun base hbase => ?_
    refine (keeps_query _).bind_known
      (fun _ framed => runs_step_within framed hbase direction) fun step hstep => ?_
    extract_lets rest
    have hrest : ∀ done, Work.Keeps (start.Framed selected) (rest done) := fun _ =>
      (keeps_edit (frames_insertBefore hstep _)).bind fun _ =>
        (keeps_edit (frames_eraseOrZero hbase _ _)).bind fun _ => (keeps_markEdited _).bind fun _ =>
          (keeps_markEdited _).bind fun _ => (keeps_query _).bind fun _ =>
            keeps_recordChange.bind fun _ => keeps_pure true
    split
    · exact (keeps_warn _).bind hrest
    · exact hrest ()

theorem frames_shiftSide (address : PairAddress) (role : LockRole) (family : LockFamily)
    (direction : Option Int) :
    Work.Keeps (start.Framed selected) (shiftSide address role site family direction) := by
  unfold shiftSide
  split
  · exact keeps_skip _
  · exact keeps_skip _
  · exact keeps_pure false
  · exact frames_shiftSite hwithin family _

omit hwithin in
theorem frames_insertCopy {lock : Handle} (hlock : start.Within selected lock) (site : CallSite)
    (role : String) (offset : Nat) :
    Work.Keeps (start.Framed selected) (insertCopy lock site role offset) := by
  refine (keeps_edit (frames_insertRelative hlock _ _)).bind fun answer => ?_
  obtain ⟨copy, clamped⟩ := answer
  cases clamped with
  | true => exact (keeps_warn _).bind fun _ => keeps_pure copy
  | false => exact keeps_pure copy

end LockOperator

end Calls

namespace LockOperator

section Requests

variable {index : PairIndex} {plan : LockPlan} {pair : LockPair}

/-- Both calls of a pair. -/
def WithinBoth (start : Program) (selected : FunctionId → Prop) (pair : LockPair) : Prop :=
  start.Within selected pair.lock.handle ∧ start.Within selected pair.unlock.handle

theorem frames_splitPair (hpair : WithinBoth start selected pair) (address : PairAddress)
    (unlockOffset lockOffset : Nat) :
    Work.Keeps (start.Framed selected) (splitPair address pair unlockOffset lockOffset) := by
  refine (keeps_query _).bind fun distance => ?_
  split
  · exact keeps_skip _
  · exact (frames_insertCopy hpair.1 _ _ _).bind fun _ => (frames_insertCopy hpair.1 _ _ _).bind
      fun _ => (keeps_markEdited _).bind fun _ => (keeps_markEdited _).bind fun _ =>
        keeps_recordChange.bind fun _ => keeps_pure true

theorem frames_swapPairs {first second : LockPair} (hfirst : WithinBoth start selected first)
    (hsecond : WithinBoth start selected second) :
    Work.Keeps (start.Framed selected) (swapPairs first second) := by
  unfold swapPairs
  split
  · exact keeps_skip _
  · refine (keeps_of_noted fun _ => runs_isPairUntouched_noted first).bind fun untouched => ?_
    split
    · exact keeps_pure false
    · refine (keeps_of_noted fun _ => runs_isPairUntouched_noted second).bind fun untouched => ?_
      split
      · exact keeps_pure false
      · exact (frames_swapSites hfirst.1 hsecond.1).bind fun _ =>
          (frames_swapSites hfirst.2 hsecond.2).bind fun _ => keeps_pure true

/-- The requests of a plan are for calls of the selected functions. -/
def Selects (index : PairIndex) (plan : LockPlan) (start : Program)
    (selected : FunctionId → Prop) : Prop :=
  ∀ pair ∈ requestedPairs index plan, WithinBoth start selected pair

theorem frames_of_resolve {address : PairAddress} {next : Option LockPair → Work Bool}
    (hrequests : Selects index plan start selected)
    (haddress : address ∈ PairAddress.listOf plan.positions)
    (hnone : Work.Keeps (start.Framed selected) (next none))
    (hsome : ∀ pair, WithinBoth start selected pair →
      Work.Keeps (start.Framed selected) (next (some pair))) :
    Work.Keeps (start.Framed selected) (resolve index plan.addressing address >>= next) := by
  have hresolve : Work.Keeps (start.Framed selected) (resolve index plan.addressing address) :=
    keeps_of_noted fun _ => (runs_resolve_find plan.addressing address).weaken fun _ _ h => h.1
  refine hresolve.bind_known (fun _ _ => (runs_resolve_find plan.addressing address).weaken
    fun _ _ hanswer => hanswer.2) fun answer hanswer => ?_
  cases answer with
  | none => exact hnone
  | some pair => exact hsome pair (hrequests pair (mem_requestedPairs haddress hanswer.symm))

variable (hrequests : Selects index plan start selected)
include hrequests

theorem frames_split : Work.Keeps (start.Framed selected) (split index plan) := by
  rw [split_eq]
  refine keeps_anyOf fun ⟨address, request⟩ hrequest => ?_
  refine frames_of_resolve hrequests (List.fst_mem_of_mem_zipIdx hrequest) (keeps_pure false)
    fun pair hpair => ?_
  refine (keeps_of_noted fun _ => runs_isPairUntouched_noted pair).bind fun untouched => ?_
  split
  · exact keeps_pure false
  · split
    · exact frames_splitPair hpair address _ _
    · exact keeps_skip _

theorem frames_shift : Work.Keeps (start.Framed selected) (shift index plan) := by
  rw [shift_eq]
  refine keeps_anyOf fun ⟨address, request⟩ hrequest => ?_
  refine frames_of_resolve hrequests (List.fst_mem_of_mem_zipIdx hrequest) (keeps_pure false)
    fun pair hpair => ?_
  refine (keeps_of_noted fun _ => runs_isPairUntouched_noted pair).bind fun untouched => ?_
  split
  · exact keeps_pure false
  · exact (frames_shiftSide hpair.1 address .lock _ _).bind fun lockMoved =>
      (frames_shiftSide hpair.2 address .unlock _ _).bind fun unlockMoved => keeps_pure _

theorem frames_swap : Work.Keeps (start.Framed selected) (swap index plan) := by
  rw [swap_eq]
  refine keeps_anyOf fun ⟨firstAddress, secondAddress⟩ hrequest => ?_
  obtain ⟨hfirst, hsecond⟩ := mem_listOf_of_mem_pairsOf plan.positions hrequest
  refine frames_of_resolve hrequests hfirst (keeps_pure false) fun first hfirst => ?_
  refine frames_of_resolve hrequests hsecond (keeps_pure false) fun second hsecond => ?_
  exact frames_swapPairs hfirst hsecond

/-- What is listed for removal are calls of requested pairs. -/
theorem runs_schedule_within {workspace : Workspace} {removals : RemovalList}
    {address : PairAddress} (haddress : address ∈ PairAddress.listOf plan.positions)
    (hlisted : ∀ listed ∈ removals.sites, start.Within selected listed.1.handle) :
    Runs (schedule index plan.addressing removals address) workspace
      (fun answer _ => ∀ listed ∈ answer.sites, start.Within selected listed.1.handle)
      fun _ _ => False := by
  unfold schedule
  refine (runs_resolve_find plan.addressing address).bind fun answer after hanswer => ?_
  cases answer with
  | none => exact runs_pure hlisted
  | some pair =>
      obtain ⟨hlock, hunlock⟩ := hrequests pair (mem_requestedPairs haddress hanswer.2.symm)
      have hadded : ∀ listed ∈ (removals.add address pair).sites,
          start.Within selected listed.1.handle := by
        intro listed hmem
        rcases List.mem_append.mp hmem with hold | hnew
        · exact hlisted listed hold
        · obtain ⟨site, hside, rfl⟩ := List.mem_map.mp hnew
          rcases (RemovalList.mem_newSides.mp hside).1 with rfl | rfl
          · exact hlock
          · exact hunlock
      dsimp only
      split
      · exact runs_bind_warn (runs_pure hadded)
      · exact runs_pure hadded

theorem frames_remove : Work.Keeps (start.Framed selected) (remove index plan) := by
  intro workspace framed
  refine (runs_foldlM (fun removals state => start.Framed selected state.program ∧
    ∀ listed ∈ removals.sites, start.Within selected listed.1.handle) ?_
      ⟨framed, by simp⟩).bind ?_
  · rintro address haddress removals state ⟨framed, hlisted⟩
    have hnoted := @runs_schedule_noted state index (fun _ _ => False) plan.addressing removals
      address
    refine (hnoted.and (runs_schedule_within hrequests haddress hlisted)).imp ?_ fun _ _ h => h.elim
    exact fun _ _ hanswer => ⟨hanswer.1.holds framed, hanswer.2⟩
  · rintro removals state ⟨framed, hlisted⟩
    refine ((keeps_foldlM (fun listed hmem removed => ?_) []).bind fun removed => ?_) state framed
    · refine (frames_removeSite (hlisted listed hmem) listed.2).bind fun answer => ?_
      split <;> exact keeps_pure _
    · refine (keeps_forM fun requested _ => ?_).bind fun _ => keeps_pure _
      dsimp only
      split
      · exact keeps_record _
      · exact keeps_pure _

end Requests

/-- Pairs are found in the program that the run starts on, so their calls are in the functions that
hold them. -/
theorem frames_run {workspace : Workspace} (consistent : workspace.program.Consistent)
    (plan : LockPlan) (oracle : AliasOracle)
    (hselected : ∀ site ∈ requested plan oracle workspace.program, selected site.function) :
    Runs (run plan oracle) workspace
      (fun _ after => workspace.program.Framed selected after.program)
      (fun _ after => workspace.program.Framed selected after.program) := by
  have framed := Framed.refl consistent selected
  unfold run
  cases plan.mode with
  | none => exact runs_pure framed
  | some mode =>
      refine ((PairIndex.runs_build oracle workspace).imp (fun _ _ hbuilt => hbuilt) ?_).bind ?_
      · rintro problem after ⟨hprogram, -⟩
        exact hprogram ▸ framed
      rintro index ⟨program, ledger⟩ ⟨rfl, results, hresults, rfl⟩
      obtain ⟨found, hfinds, hmatched⟩ := PairIndex.exists_found hresults
      have hindex : PairIndex.ofProgram oracle workspace.program = .ofFindings results := by
        simp only [PairIndex.ofProgram, hresults]
      have hwithin : ∀ site ∈ found.sites, selected site.function →
          workspace.program.Within selected site.handle := by
        intro site hsite hfunction entry hplaced
        obtain ⟨old, hold, hsame, -⟩ := (hfinds site hsite).intact
        obtain rfl := Option.some.inj (hold.symm.trans hplaced)
        rwa [hsame]
      -- the pairs that are requested are those of the index that was built
      have hrequests : Selects (.ofFindings results) plan workspace.program selected := by
        intro pair hpair
        obtain ⟨address, -, hfind⟩ := List.mem_filterMap.mp hpair
        have hpairSites := hmatched pair (mem_of_find? hfind)
        obtain ⟨hlock, hunlock⟩ := mem_sidesOf hpair
        rw [← hindex] at hlock hunlock
        exact ⟨hwithin _ hpairSites.lock_mem (hselected _ hlock),
          hwithin _ hpairSites.unlock_mem (hselected _ hunlock)⟩
      cases mode with
      | remove => exact frames_remove hrequests { workspace with ledger } framed
      | swap => exact frames_swap hrequests { workspace with ledger } framed
      | shift => exact frames_shift hrequests { workspace with ledger } framed
      | split => exact frames_split hrequests { workspace with ledger } framed

end LockOperator

/-! ## Numbered candidates

All other operators are handled alike, by the function of the candidate that is requested. -/

namespace Candidate

def function : Candidate → FunctionId
  | .access site => site.function
  | .call site => site.function

end Candidate

namespace Work

variable {invariant : Program → Prop}

theorem keeps_numberedRequest {pass : String} {candidates : List Candidate}
    {change : Nat → Candidate → Work Bool} {position request : Nat}
    (hchange : ∀ candidate, candidates[position]? = some candidate →
      Keeps invariant (change request candidate)) :
    Keeps invariant (numberedRequest pass candidates change (position, request)) := by
  refine (keeps_noteWith _).bind fun claimed => ?_
  split
  · split
    · exact keeps_pure false
    · rename_i candidate hcandidate
      have huntouched : Keeps invariant (candidate.isUntouched pass) := by
        cases candidate with
        | access site => exact keeps_pure true
        | call site => exact keeps_isUntouched pass site
      refine huntouched.bind fun untouched => ?_
      split
      · exact hchange candidate hcandidate
      · exact keeps_pure false
  · exact keeps_pure false

end Work

namespace Operator

variable {operator : Operator} {workspace : Workspace}

/-- The change of a candidate stays in the function that holds it. -/
theorem frames_change {candidate : Candidate} (hwithin : start.Within selected candidate.handle)
    (hselected : selected candidate.function) (operator : Operator) (request : Nat) :
    Work.Keeps (start.Framed selected) (operator.change request candidate) := by
  have hhandles := operator.handles_change request candidate
  generalize operator.change request candidate = work at hhandles ⊢
  cases hhandles with
  | nothing => exact keeps_pure false
  | fence plan change site =>
      exact (FenceOperator.frames_apply hwithin change request).bind fun _ => keeps_pure true
  | atomic plan change site => exact AtomicOperator.frames_apply hwithin plan.target change request
  | volatile plan site => exact VolatileOperator.frames_clear hwithin
  | semaphore plan site =>
      exact (SemaphoreOperator.keeps_valueFor plan request).bind fun value =>
        SemaphoreOperator.frames_setValue hwithin value
  | join plan change site =>
      exact (JoinOperator.frames_apply hwithin change).bind fun _ =>
        (keeps_markEdited _).bind fun _ => keeps_pure _
  | signal plan change site => exact SignalOperator.frames_apply hwithin change
  | wait plan change site => exact WaitOperator.frames_apply hwithin hselected change request
  | yield plan site => exact YieldOperator.frames_remove hwithin

/-- The functions that hold a candidate which the plan asks for. -/
def selectedFunctions (operator : Operator) (oracle : AliasOracle) (program : Program) :
    List FunctionId :=
  match operator with
  | .lock plan => (LockOperator.requested plan oracle program).map CallSite.function
  | _ =>
      match operator.candidates program with
      | .ok candidates => (operator.positions.filterMap (candidates[·]?)).map Candidate.function
      | .error _ => []

theorem mem_selectedFunctions {program : Program} {candidates : List Candidate}
    {candidate : Candidate} {position : Nat} (hsites : operator.numbersSites = true)
    (hcandidates : operator.candidates program = .ok candidates)
    (hposition : position ∈ operator.positions)
    (hcandidate : candidates[position]? = some candidate)
    (oracle : AliasOracle) : candidate.function ∈ operator.selectedFunctions oracle program := by
  have hmem : candidate.function ∈
      (operator.positions.filterMap (candidates[·]?)).map Candidate.function :=
    List.mem_map_of_mem (List.mem_filterMap.mpr ⟨position, hposition, hcandidate⟩)
  cases operator with
  | lock plan => cases hsites
  | _ =>
      unfold selectedFunctions
      simpa only [hcandidates] using hmem

/-- A candidate is an instruction of the function that it names. -/
theorem functionOf?_of_mem_candidates {program : Program} {candidates : List Candidate}
    {candidate : Candidate} (consistent : program.Consistent)
    (hcandidates : operator.candidates program = .ok candidates) (hmem : candidate ∈ candidates) :
    program.functionOf? candidate.handle = some candidate.function := by
  cases hsearch : operator.search? with
  | none =>
      rw [eq_accesses hsearch hcandidates] at hmem
      obtain ⟨site, hsite, rfl⟩ := List.mem_map.mp hmem
      rw [accesses_eq_collect] at hsite
      obtain ⟨entry, hplaced, hfunction, -⟩ := MemorySite.placed?_of_mem_collect consistent hsite
      exact functionOf?_eq_some_iff.mpr ⟨entry, hplaced, hfunction⟩
  | some search =>
      obtain ⟨found, hfound, rfl⟩ := exists_found hsearch hcandidates
      obtain ⟨site, hsite, rfl⟩ := List.mem_map.mp hmem
      obtain ⟨entry, hplaced, hfunction, -⟩ := (CallSearch.finds_of_inProgram hfound hsite).intact
      exact functionOf?_eq_some_iff.mpr ⟨entry, hplaced, hfunction⟩

/-- A run works in the selected functions and, outside of them, at most adds declarations. -/
theorem framed_after_run (consistent : workspace.program.Consistent) (operator : Operator)
    (oracle : AliasOracle) :
    Runs (operator.run oracle) workspace
      (fun _ after => workspace.program.Framed
        (· ∈ operator.selectedFunctions oracle workspace.program) after.program)
      (fun _ after => workspace.program.Framed
        (· ∈ operator.selectedFunctions oracle workspace.program) after.program) := by
  have framed := Framed.refl consistent (· ∈ operator.selectedFunctions oracle workspace.program)
  cases hsites : operator.numbersSites with
  | false =>
      cases operator with
      | lock plan =>
          exact LockOperator.frames_run consistent plan oracle fun site hsite =>
            List.mem_map_of_mem hsite
      | _ => cases hsites
  | true =>
      rw [run_eq]
      refine ((runs_numbered_course hsites oracle).imp (fun _ _ hprepared => hprepared)
        fun problem refused hrefused => ?_).bind fun course prepared hprepared => ?_
      · exact hrefused.1 ▸ framed
      · have framed : workspace.program.Framed
            (· ∈ operator.selectedFunctions oracle workspace.program) prepared.program := by
          rw [hprepared.program_eq]
          exact framed
        rcases hprepared.course_cases with ⟨rfl, -⟩ | ⟨candidates, hcandidates, rfl⟩
        · exact keeps_pure false prepared framed
        · have hnumbered : Work.Keeps (workspace.program.Framed
              (· ∈ operator.selectedFunctions oracle workspace.program))
              (Course.numbered operator.name candidates operator.positions
                operator.change).finish := by
            rw [Course.numbered, Course.finish_ofRequests]
            refine keeps_anyOf fun ⟨position, request⟩ hrequest =>
              keeps_numberedRequest fun candidate hcandidate => ?_
            have hselected := mem_selectedFunctions hsites hcandidates
              (List.fst_mem_of_mem_zipIdx hrequest) hcandidate oracle
            refine frames_change (fun entry hplaced => ?_) hselected operator request
            have hfunction := functionOf?_of_mem_candidates consistent hcandidates
              (List.mem_of_getElem? hcandidate)
            rw [functionOf?_of_placed? hplaced] at hfunction
            exact Option.some.inj hfunction ▸ hselected
          exact hnumbered prepared framed

/-- The exchange of two pairs of the first function leaves the second one alone. -/
theorem framed_after_local_exchange :
    3 ∉ (Operator.lock { mode := some .swap, positions := [0, 0, 0, 1] }).selectedFunctions
      .identity localLocks ∧
    Runs ((Operator.lock { mode := some .swap, positions := [0, 0, 0, 1] }).run .identity)
      { program := localLocks }
      (fun _ after => localLocks.Framed (· ∈ (Operator.lock
        { mode := some .swap, positions := [0, 0, 0, 1] }).selectedFunctions .identity localLocks)
        after.program)
      (fun _ after => localLocks.Framed (· ∈ (Operator.lock
        { mode := some .swap, positions := [0, 0, 0, 1] }).selectedFunctions .identity localLocks)
        after.program) :=
  ⟨by decide +kernel, @framed_after_run { program := localLocks } consistent_localLocks _ _⟩

end Operator

end ConcurrencyFaults

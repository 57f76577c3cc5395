import ConcurrencyFaults.Operator.Lock
import ConcurrencyFaults.Proofs.Keeping
import ConcurrencyFaults.Proofs.Pairing

/-!
# The operator on lock pairs

All pairs of a run are matched before the first request, so a request may name calls that an earlier
one changed.  Both sides of a pair are therefore asked for first; what is left untouched is intact,
and stays so while the other side or another pair is changed, because the handles of the calls in
question are different.

## Strategy

* **The invariant** of a run is `Tracked`: of the calls that were found, those that are not marked
  as edited are intact.  It is kept by notes and warnings, and by any edit that marks what it
  replaces.
* **One call.**  What is done to a call is described by `Settled` with the handles that it takes
  away, so that `Settled.intact` carries every other call over (`runs_swapSites`, `runs_shiftSite`,
  `runs_insertCopy`).
* **One request.**  The handlers chain these steps.  The second step needs that its call is not
  among what the first one took away.  For a lock and an unlock this is a fact about the search,
  which sorts calls by name (`unlock_ne_lock`); for two locks it is what the code asks for first
  (`swapObstacle?`).
* **A run** is a loop over requests, by `runs_anyOf` or `runs_foldlM`.

The index is built once, and `PairIndex.runs_bind_build` says all that is needed of it: both sides
of each pair were found by the search.
-/

namespace ConcurrencyFaults

namespace LockOperator

open Program Work

variable {start : Program} {sites : List CallSite} {site : CallSite} {workspace : Workspace}
  {index : PairIndex} {pair : LockPair} {refused : EditError → Workspace → Prop}

/-! ## Finding pairs

Addresses are resolved in the index, which no edit changes, so nothing but a warning can come of
it. -/

theorem mem_of_find? {addressing : PairAddressing} {address : PairAddress}
    (hfind : find? index addressing address = some pair) : pair ∈ index.pairs := by
  unfold find? at hfind
  split at hfind
  · obtain ⟨category, -, hget⟩ := Option.bind_eq_some_iff.mp hfind
    exact List.mem_of_mem_filter (List.mem_of_getElem? hget)
  · exact List.mem_of_mem_filter (List.mem_of_getElem? hfind)

/-- Resolving an address changes notes alone and finds what the index has there. -/
theorem runs_resolve_find (addressing : PairAddressing) (address : PairAddress) :
    Runs (resolve index addressing address) workspace
      (fun answer after => Noted workspace after ∧ answer = find? index addressing address)
      refused := by
  unfold resolve
  extract_lets answer rest
  split
  · exact runs_bind_warn (runs_pure ⟨⟨rfl, fun _ h => h⟩, rfl⟩)
  · exact runs_pure ⟨⟨rfl, fun _ h => h⟩, rfl⟩

/-- Gathering the calls to be removed changes notes alone. -/
theorem runs_schedule_noted (addressing : PairAddressing) (removals : RemovalList)
    (address : PairAddress) :
    Runs (schedule index addressing removals address) workspace (fun _ => Noted workspace)
      refused := by
  unfold schedule
  refine (runs_resolve_find addressing address).bind fun answer between hbetween => ?_
  cases answer with
  | none => exact runs_pure hbetween.1
  | some pair =>
      dsimp only
      split
      · exact runs_bind_warn (runs_pure (hbetween.1.trans ⟨rfl, fun _ h => h⟩))
      · exact runs_pure hbetween.1

theorem runs_resolve (tracked : Tracked start sites workspace) (addressing : PairAddressing)
    (address : PairAddress) :
    Runs (resolve index addressing address) workspace
      (fun answer after => Tracked start sites after ∧ ∀ pair ∈ answer, pair ∈ index.pairs)
      refused := by
  refine (runs_resolve_find addressing address).weaken ?_
  rintro answer ⟨program, ledger⟩ ⟨⟨rfl, hedited⟩, rfl⟩
  exact ⟨tracked.noted hedited, fun pair hpair => mem_of_find? hpair⟩

theorem runs_isPairUntouched (tracked : Tracked start sites workspace)
    (hpair : pair.Matched sites) :
    Runs (isPairUntouched pair) workspace
      (fun answer after => Tracked start sites after ∧ Settled [] workspace after ∧
        (answer = true → pair.lock.Intact after.program ∧ pair.unlock.Intact after.program))
      refused := by
  unfold isPairUntouched
  refine (runs_isUntouched tracked hpair.lock_mem).bind ?_
  rintro lockUntouched between ⟨tracked, hbetween, hlock⟩
  split
  · rename_i htrue
    refine (runs_isUntouched tracked hpair.unlock_mem).weaken ?_
    rintro unlockUntouched after ⟨tracked, hafter, hunlock⟩
    exact ⟨tracked, hbetween.trans hafter, fun huntouched =>
      ⟨hafter.intact (hlock htrue) List.not_mem_nil, hunlock huntouched⟩⟩
  · exact runs_pure ⟨tracked, hbetween, fun h => absurd h (by simp)⟩

/-! ## Removing

The calls to be removed are listed first and erased after that.  All that is needed of the list is
that it has calls of matched pairs alone. -/

theorem runs_removeSite (tracked : Tracked start sites workspace) (hsite : site ∈ sites)
    (family : LockFamily) :
    Runs (removeSite site family) workspace (fun _ => Tracked start sites) refused := by
  unfold removeSite
  refine (runs_isUntouched tracked hsite).bind ?_
  rintro (_ | _) state ⟨tracked, -, hintact⟩
  · exact runs_pure tracked
  · replace hintact := hintact rfl
    have consistent := tracked.consistent
    -- uses are asked for where there is no constant to take over from the result
    obtain ⟨entry, hplaced, -, -⟩ := hintact.placed?
    obtain ⟨uses, huses⟩ := exists_useCount consistent hplaced
    obtain ⟨removal, after, hremove, hrevised⟩ :=
      CallSite.remove_of_intact consistent hintact statusWidth true
    rw [if_neg (by simp)]
    extract_lets rest
    have hrest : ∀ uses, Runs (rest uses) state (fun _ => Tracked start sites) refused := by
      intro uses
      simp only [rest]
      split
      · exact runs_bind_warn (runs_pure (tracked.recorded _))
      · exact runs_bind_edit hremove (runs_bind_markEdited (runs_pure
          (tracked.settled (Settled.of_marked hrevised (by simp) fun _ h => by simp [h]))))
    split
    · exact hrest 0
    · exact runs_bind_query huses (hrest uses)

/-- Only calls of matched pairs are listed for removal. -/
theorem runs_schedule (tracked : Tracked start sites workspace)
    (hindex : ∀ pair ∈ index.pairs, pair.Matched sites) (addressing : PairAddressing)
    {removals : RemovalList} (hlisted : ∀ listed ∈ removals.sites, listed.1 ∈ sites)
    (address : PairAddress) :
    Runs (schedule index addressing removals address) workspace
      (fun answer after => Tracked start sites after ∧ ∀ listed ∈ answer.sites, listed.1 ∈ sites)
      refused := by
  unfold schedule
  refine (runs_resolve tracked addressing address).bind ?_
  rintro answer after ⟨tracked, hmem⟩
  cases answer with
  | none => exact runs_pure ⟨tracked, hlisted⟩
  | some pair =>
      have hpair := hindex pair (hmem pair rfl)
      have hadded : ∀ listed ∈ (removals.add address pair).sites, listed.1 ∈ sites := by
        intro listed hmem
        rcases List.mem_append.mp hmem with hold | hnew
        · exact hlisted listed hold
        · obtain ⟨site, hside, rfl⟩ := List.mem_map.mp hnew
          have hside := List.mem_of_mem_filter hside
          rcases List.mem_pair.mp hside with rfl | rfl
          · exact hpair.lock_mem
          · exact hpair.unlock_mem
      dsimp only
      split
      · exact runs_bind_warn (runs_pure ⟨tracked.recorded _, hadded⟩)
      · exact runs_pure ⟨tracked, hadded⟩

theorem runs_remove (tracked : Tracked start sites workspace)
    (hindex : ∀ pair ∈ index.pairs, pair.Matched sites) (plan : LockPlan) :
    Runs (remove index plan) workspace (fun _ => Tracked start sites) refused := by
  unfold remove
  -- three loops: calls are listed, then erased, and the pairs that lost both sides put on record
  refine (runs_foldlM (fun removals state => Tracked start sites state ∧
    ∀ listed ∈ removals.sites, listed.1 ∈ sites) ?_ ⟨tracked, by simp⟩).bind ?_
  · rintro address - removals state ⟨tracked, hlisted⟩
    exact runs_schedule tracked hindex plan.addressing hlisted address
  · rintro removals state ⟨tracked, hlisted⟩
    refine (runs_foldlM (fun _ => Tracked start sites) ?_ tracked).bind ?_
    · intro listed hmem removed state tracked
      refine (runs_removeSite tracked (hlisted listed hmem) listed.2).bind ?_
      intro answer after tracked
      split <;> exact runs_pure tracked
    · intro removed state tracked
      refine (runs_forM (Tracked start sites) ?_ tracked).bind ?_
      · rintro ⟨address, pair⟩ - state tracked
        dsimp only
        split
        · exact tracked.recorded _
        · exact runs_pure tracked
      · exact fun _ after tracked => runs_pure tracked

/-! ## Swapping

The locks are exchanged before the unlocks, each by two replacements in place.  All four calls were
intact at the start, and their handles are different, so each is intact when its turn comes. -/

theorem runs_swapSites {first second : CallSite} (consistent : workspace.program.Consistent)
    (hfirst : first.Intact workspace.program) (hsecond : second.Intact workspace.program)
    (hne : first.handle ≠ second.handle) :
    Runs (swapSites first second) workspace
      (fun _ => Settled [first.handle, second.handle] workspace) refused := by
  -- the clone of the second call takes the place of the first, and then the other way round
  obtain ⟨newFirst, between, hreplaceFirst, hrevisedFirst⟩ :=
    @CallSite.replaceWith_of_intact first workspace.program consistent hfirst
      (inPlaceOf first second) (SiteForm.exits?_operation ..)
  have hstill := hsecond.kept hrevisedFirst.toKept (by simpa using hne.symm)
  obtain ⟨newSecond, after, hreplaceSecond, hrevisedSecond⟩ :=
    @CallSite.replaceWith_of_intact second between hrevisedFirst.consistent hstill
      (inPlaceOf second first) (SiteForm.exits?_operation ..)
  have hrevised := (hrevisedFirst.mono (show [first.handle] ⊆ [first.handle, second.handle] by
    simp)).trans hrevisedSecond (by simp)
  unfold swapSites
  refine runs_bind_edit hreplaceFirst (runs_bind_edit hreplaceSecond (runs_bind_markAll ?_))
  refine runs_recordChange fun entry => ?_
  refine Settled.of_revised hrevised (List.Subset.refl _) fun handle hmarked => ?_
  rw [Ledger.isEdited_record, Ledger.isEdited_markAll_iff]
  rcases hmarked with hmem | hmarked
  · exact Or.inl (List.mem_append_left [newFirst, newSecond] hmem)
  · exact Or.inr hmarked

theorem handles_ne_of_swapObstacle? {first second : LockPair}
    (hnone : swapObstacle? first second = none) :
    first.lock.handle ≠ second.lock.handle ∧ first.unlock.handle ≠ second.unlock.handle := by
  unfold swapObstacle? at hnone
  split at hnone
  · cases hnone
  · rename_i hlocks
    split at hnone
    · cases hnone
    · rename_i hunlocks
      exact ⟨hlocks, hunlocks⟩

theorem runs_swapPairs {search : CallSearch} {program : Program} {first second : LockPair}
    (tracked : Tracked start sites workspace)
    (hfinds : ∀ site ∈ sites, search.Finds program site) (hfirst : first.Matched sites)
    (hsecond : second.Matched sites) :
    Runs (swapPairs first second) workspace (fun _ => Tracked start sites) refused := by
  unfold swapPairs
  split
  · exact runs_bind_warn (runs_pure (tracked.recorded _))
  · rename_i hnone
    obtain ⟨hlocks, hunlocks⟩ := handles_ne_of_swapObstacle? hnone
    refine (runs_isPairUntouched tracked hfirst).bind ?_
    rintro (_ | _) between ⟨tracked, -, hfirstIntact⟩
    · exact runs_pure tracked
    · refine (runs_isPairUntouched tracked hsecond).bind ?_
      rintro (_ | _) state ⟨tracked, hstate, hsecondIntact⟩
      · exact runs_pure tracked
      · have hfirstLock := hstate.intact (hfirstIntact rfl).1 List.not_mem_nil
        have hfirstUnlock := hstate.intact (hfirstIntact rfl).2 List.not_mem_nil
        refine (runs_swapSites tracked.consistent hfirstLock (hsecondIntact rfl).1
          hlocks).bind ?_
        intro _ swapped hswapped
        -- neither unlock is one of the locks, which are gone by now
        have hfirstStill := hswapped.intact hfirstUnlock (by
          simpa using ⟨hfirst.handle_ne, hfirst.unlock_ne_lock hsecond hfinds⟩)
        have hsecondStill := hswapped.intact (hsecondIntact rfl).2 (by
          simpa using ⟨hsecond.unlock_ne_lock hfirst hfinds, hsecond.handle_ne⟩)
        refine (runs_swapSites hswapped.consistent hfirstStill hsecondStill
          hunlocks).bind ?_
        exact fun _ after hafter => runs_pure ((tracked.settled hswapped).settled hafter)

/-- What a swap does for one request. -/
def swapRequest (index : PairIndex) (plan : LockPlan) : PairAddress × PairAddress → Work Bool :=
  fun (firstAddress, secondAddress) => do
    let some first ← resolve index plan.addressing firstAddress
      | return false
    let some second ← resolve index plan.addressing secondAddress
      | return false
    swapPairs first second

theorem swap_eq (index : PairIndex) (plan : LockPlan) :
    swap index plan =
      Work.anyOf (PairAddress.pairsOf plan.positions) (swapRequest index plan) := rfl

theorem runs_swapRequest {search : CallSearch} {program : Program}
    (tracked : Tracked start sites workspace)
    (hfinds : ∀ site ∈ sites, search.Finds program site)
    (hindex : ∀ pair ∈ index.pairs, pair.Matched sites) (plan : LockPlan)
    (request : PairAddress × PairAddress) :
    Runs (swapRequest index plan request) workspace (fun _ => Tracked start sites) refused := by
  obtain ⟨firstAddress, secondAddress⟩ := request
  refine (runs_resolve tracked plan.addressing firstAddress).bind ?_
  rintro (_ | first) state ⟨tracked, hfirst⟩
  · exact runs_pure tracked
  · refine (runs_resolve tracked plan.addressing secondAddress).bind ?_
    rintro (_ | second) state ⟨tracked, hsecond⟩
    · exact runs_pure tracked
    · exact runs_swapPairs tracked hfinds (hindex first (hfirst first rfl))
        (hindex second (hsecond second rfl))

theorem runs_swap {search : CallSearch} {program : Program}
    (tracked : Tracked start sites workspace)
    (hfinds : ∀ site ∈ sites, search.Finds program site)
    (hindex : ∀ pair ∈ index.pairs, pair.Matched sites) (plan : LockPlan) :
    Runs (swap index plan) workspace (fun _ => Tracked start sites) refused := by
  rw [swap_eq]
  exact runs_anyOf (Tracked start sites)
    (fun request _ _ tracked => runs_swapRequest tracked hfinds hindex plan request) tracked

/-! ## Shifting

A shift is a walk from the call to some other instruction, ahead of which a new call is inserted
before the old one is erased.  An invoke ends its block, so it first gives way to a branch with a
plain call ahead of it (`plainCall`), and the walk starts from there. -/

/-- An invoke with more than one argument is in the way. -/
theorem runs_shiftObstacle?_invoke (consistent : workspace.program.Consistent)
    (hintact : site.Intact workspace.program) (family : LockFamily) :
    Runs (shiftObstacle? site family) workspace (fun obstacle after => workspace = after ∧
      (obstacle = none → site.isInvoke = true → site.argumentCount = 1)) refused := by
  obtain ⟨entry, hplaced, -, -⟩ := hintact.placed?
  obtain ⟨uses, huses⟩ := exists_useCount consistent hplaced
  unfold shiftObstacle?
  split
  · exact runs_pure ⟨rfl, by simp⟩
  · extract_lets rest
    have hrest : ∀ uses, Runs (rest uses) workspace (fun obstacle after => workspace = after ∧
        (obstacle = none → site.isInvoke = true → site.argumentCount = 1)) refused := by
      intro uses
      simp only [rest]
      split
      · exact runs_pure ⟨rfl, by simp⟩
      · split
        · exact runs_pure ⟨rfl, by simp⟩
        · rename_i hcount
          exact runs_pure ⟨rfl, fun _ hinvoke => by simpa [hinvoke] using hcount⟩
    split
    · exact hrest 0
    · exact runs_bind_query huses (hrest uses)

theorem runs_shiftObstacle? (consistent : workspace.program.Consistent)
    (hintact : site.Intact workspace.program) (family : LockFamily) :
    Runs (shiftObstacle? site family) workspace (fun _ after => workspace = after) refused :=
  (runs_shiftObstacle?_invoke consistent hintact family).weaken fun _ _ h => h.1

theorem plainCall_of_call {program : Program} (hform : site.form = .call) (mutex : Operand) :
    plainCall site mutex program = .ok site.handle program := by
  unfold plainCall CallSite.isInvoke
  rw [hform]
  rfl

/-- An invoke gives way to a plain call and a branch; what read its result reads a zero. -/
theorem plainCall_of_invoke {program : Program} {entry : Placed} {normal unwind : BlockId}
    (consistent : program.Consistent) (hform : site.form = .invoke normal unwind)
    (hplaced : program.placed? site.handle = some entry) (mutex : Operand) :
    plainCall site mutex program =
      .ok (program.pushBranch entry normal site.location).nextHandle
        ((program.pushBranch entry normal site.location).substituteEntry site.handle entry
          (site.asCall [mutex]) (zeroed statusWidth true)) := by
  have hpushed := (kept_pushBranch consistent hplaced normal site.location).consistent
  have hlive := placed?_pushBranch consistent hplaced normal site.location
  obtain ⟨removal, hremoval⟩ := eraseOrZero_of_placed?
    (hpushed.insertAhead hlive (site.asCall [mutex]))
    (placed?_insertEntry_of_placed? hpushed.toFreeListExact hlive _ _) statusWidth true
  have hinvoke : site.isInvoke = true := by
    unfold CallSite.isInvoke
    rw [hform]
    rfl
  -- the branch is put in, then the call in front of the invoke, which is erased in the end
  unfold plainCall
  rw [if_pos hinvoke, bind_apply_of_ok (CallSite.branchToNormal_of_invoke consistent hform hplaced),
    bind_apply_of_ok (insertBefore_of_placed? hpushed hlive (site.asCall [mutex])),
    bind_apply_of_ok hremoval]
  rfl

/-- Whether or not the call is an invoke, the walk starts from a plain call in its place. -/
theorem exists_plainCall {program : Program} (consistent : program.Consistent)
    (hintact : site.Intact program) (mutex : Operand) :
    ∃ base after entry, plainCall site mutex program = .ok base after ∧
      program.Revised after [site.handle] ∧ after.placed? base = some entry ∧
      entry.instruction.operation.exits? = none ∧
      (base = site.handle ∨ program.placed? base = none) := by
  obtain ⟨entry, hplaced, -, hform⟩ := hintact.placed?
  cases hsite : site.form with
  | call =>
      rw [hsite] at hform
      exact ⟨site.handle, program, entry, plainCall_of_call hsite mutex, Revised.refl consistent _,
        hplaced, hform, Or.inl rfl⟩
  | invoke normal unwind =>
      rw [hsite] at hform
      have hpushed := kept_pushBranch consistent hplaced normal site.location
      have hlive := placed?_pushBranch consistent hplaced normal site.location
      let pushed := program.pushBranch entry normal site.location
      -- what was live before the branch was put in still is, and the new handle was not
      have hfresh : program.placed? pushed.nextHandle = none := by
        rw [Option.eq_none_iff_forall_ne_some]
        intro found hfound
        obtain ⟨still, hstill, -⟩ := hpushed.alike hfound List.not_mem_nil
        exact ne_nextHandle hpushed.consistent.toFreeListExact hstill rfl
      have hcall : (site.asCall [mutex]).operation.exits? = none := rfl
      exact ⟨pushed.nextHandle, _, _, plainCall_of_invoke consistent hsite hplaced mutex,
        revised_substituteEntry_pushBranch consistent hplaced hform
          (show normal ∈ [normal, unwind] by simp) site.location hcall (zeroed statusWidth true),
        placed?_substituteEntry_nextHandle hpushed.consistent hlive _ _,
        Operation.exits?_eq_of_shape_eq (Placed.shape_rewrite ..), Or.inr hfresh⟩

/-- A plain call is moved by putting one in front of another instruction and erasing the old. -/
theorem exists_movedCall {program : Program} (consistent : program.Consistent)
    {base target : Handle} {entry targetEntry : Placed} (hbase : program.placed? base = some entry)
    (hexits : entry.instruction.operation.exits? = none)
    (htarget : program.placed? target = some targetEntry) {call : Instruction}
    (hcall : call.operation.exits? = none) :
    ∃ moved inserted removal after position,
      insertBefore target call program = .ok moved inserted ∧
        eraseOrZero base statusWidth true inserted = .ok removal after ∧
        after.position moved = .ok position ∧ program.Revised after [base] := by
  obtain ⟨inserted, hinsert, hinserted, -, hmoved⟩ := exists_insertBefore consistent htarget hcall
  obtain ⟨found, hfound, -, hshape⟩ := hinserted.alike hbase List.not_mem_nil
  obtain ⟨removal, hremoval⟩ :=
    eraseOrZero_of_placed? hinserted.consistent hfound statusWidth true
  have hremoved := revised_eraseEntry_rewrite hinserted.consistent hfound
    ((Operation.exits?_eq_of_shape_eq hshape).trans hexits) found.function
    (replacing base (zeroed statusWidth true))
  -- the new call is not the old one, so it is still there and has a position
  have hdifferent : program.nextHandle ∉ [base] := by
    rw [List.mem_singleton]
    exact (ne_nextHandle consistent.toFreeListExact hbase).symm
  obtain ⟨still, hstill, -⟩ := hremoved.alike hmoved hdifferent
  obtain ⟨position, hposition⟩ := exists_position hremoved.consistent hstill
  exact ⟨_, inserted, removal, _, position, hinsert, hremoval, hposition,
    (hinserted.mono (List.nil_subset [base])).trans hremoved fun _ hmem => Or.inl hmem⟩

theorem runs_shiftSite (consistent : workspace.program.Consistent)
    (hintact : site.Intact workspace.program) (family : LockFamily) (direction : Int) :
    Runs (shiftSite site family direction) workspace
      (fun _ => Settled [site.handle] workspace) refused := by
  unfold shiftSite
  refine (runs_shiftObstacle? consistent hintact family).bind ?_
  rintro obstacle _ rfl
  split
  · exact runs_bind_warn (runs_pure (Settled.of_record consistent _ _))
  · exact runs_pure (Settled.refl consistent _)
  · rename_i mutex _ _
    obtain ⟨base, between, entry, hplain, hplainRevised, hbase, hexits, hfresh⟩ :=
      exists_plainCall consistent hintact mutex
    have hbetween := hplainRevised.consistent
    obtain ⟨step, target, hstep, htarget, -⟩ := exists_step hbetween hbase direction
    obtain ⟨moved, inserted, removal, after, position, hinsert, hremoval, hposition, hmoved⟩ :=
      exists_movedCall hbetween hbase hexits htarget
        (show (site.asCall [mutex]).operation.exits? = none from rfl)
    -- besides the call itself only the plain call is gone, which was not there at the start
    have hrevised : workspace.program.Revised after [site.handle] := by
      refine hplainRevised.trans hmoved fun handle hmem => ?_
      obtain rfl : handle = base := List.mem_singleton.mp hmem
      exact hfresh.imp List.mem_singleton.mpr id
    refine runs_bind_edit hplain (runs_bind_query hstep ?_)
    extract_lets rest
    have hrest : ∀ ledger : Ledger,
        (∀ handle, workspace.ledger.isEdited handle → ledger.isEdited handle) →
        Runs (rest ()) { program := between, ledger }
          (fun _ => Settled [site.handle] workspace) refused := by
      intro ledger hledger
      refine runs_bind_edit hinsert (runs_bind_edit hremoval (runs_bind_markEdited
        (runs_bind_markEdited (runs_bind_query hposition (runs_bind_recordChange fun _ =>
          runs_pure ?_)))))
      exact Settled.of_marked hrevised (by simp) fun other hbefore => by
        simp [hledger other hbefore]
    split
    · exact runs_bind_warn (hrest _ fun _ h => h)
    · exact hrest _ fun _ h => h

theorem runs_shiftSide (consistent : workspace.program.Consistent)
    (hintact : site.Intact workspace.program) (address : PairAddress) (role : LockRole)
    (family : LockFamily) (direction : Option Int) :
    Runs (shiftSide address role site family direction) workspace
      (fun _ => Settled [site.handle] workspace) refused := by
  unfold shiftSide
  split
  · exact runs_bind_warn (runs_pure (Settled.of_record consistent _ _))
  · exact runs_bind_warn (runs_pure (Settled.of_record consistent _ _))
  · exact runs_pure (Settled.refl consistent _)
  · exact runs_shiftSite consistent hintact family _

/-- What a shift does for one request. -/
def shiftRequest (index : PairIndex) (plan : LockPlan) : PairAddress × Nat → Work Bool :=
  fun (address, request) => do
    let some pair ← resolve index plan.addressing address
      | return false
    if !(← isPairUntouched pair) then
      return false
    let lockMoved ← shiftSide address .lock pair.lock pair.family plan.lockDirections[request]?
    let unlockMoved ←
      shiftSide address .unlock pair.unlock pair.family plan.unlockDirections[request]?
    return lockMoved || unlockMoved

theorem shift_eq (index : PairIndex) (plan : LockPlan) :
    shift index plan =
      Work.anyOf (PairAddress.listOf plan.positions).zipIdx (shiftRequest index plan) := rfl

theorem runs_shiftRequest (tracked : Tracked start sites workspace)
    (hindex : ∀ pair ∈ index.pairs, pair.Matched sites) (plan : LockPlan)
    (request : PairAddress × Nat) :
    Runs (shiftRequest index plan request) workspace (fun _ => Tracked start sites) refused := by
  obtain ⟨address, number⟩ := request
  refine (runs_resolve tracked plan.addressing address).bind ?_
  rintro (_ | pair) state ⟨tracked, hmem⟩
  · exact runs_pure tracked
  · have hpair := hindex pair (hmem pair rfl)
    refine (runs_isPairUntouched tracked hpair).bind ?_
    rintro (_ | _) state ⟨tracked, -, hintact⟩
    · exact runs_pure tracked
    · obtain ⟨hlock, hunlock⟩ := hintact rfl
      refine (runs_shiftSide tracked.consistent hlock address .lock pair.family
        plan.lockDirections[number]?).bind ?_
      intro lockMoved between hbetween
      -- moving the lock leaves the unlock alone
      have hstill := hbetween.intact hunlock (by simpa using hpair.handle_ne)
      refine (runs_shiftSide hbetween.consistent hstill address .unlock pair.family
        plan.unlockDirections[number]?).bind ?_
      exact fun unlockMoved after hafter => runs_pure ((tracked.settled hbetween).settled hafter)

theorem runs_shift (tracked : Tracked start sites workspace)
    (hindex : ∀ pair ∈ index.pairs, pair.Matched sites) (plan : LockPlan) :
    Runs (shift index plan) workspace (fun _ => Tracked start sites) refused := by
  rw [shift_eq]
  exact runs_anyOf (Tracked start sites)
    (fun request _ _ tracked => runs_shiftRequest tracked hindex plan request) tracked

/-! ## Splitting

Nothing is taken away by a split, so the two copies leave both calls of the pair intact.  The
distance that the code asks for exists because the calls of a pair share their function. -/

/-- A copy is put in front of a live instruction of the function and leaves all calls alone. -/
theorem runs_insertCopy {lock : CallSite} (consistent : workspace.program.Consistent)
    (hlock : lock.Intact workspace.program) (role : String) (offset : Nat) :
    Runs (insertCopy lock.handle site role offset) workspace (fun _ => Settled [] workspace)
      refused := by
  obtain ⟨entry, hplaced, -, -⟩ := hlock.placed?
  obtain ⟨anchor, target, clamped, hanchor, -, hinsert⟩ :=
    insertRelative_of_placed? consistent hplaced (site.asCall site.arguments) offset
  have hcopy : (site.asCall site.arguments).operation.exits? = none := rfl
  have hrevised := revised_insertAhead consistent hanchor hcopy
  let inserted := workspace.program.insertEntry
    ⟨site.asCall site.arguments, target.function, target.block⟩ (ahead anchor)
  have hsettled : ∀ ledger : Ledger,
      (∀ handle, workspace.ledger.isEdited handle → ledger.isEdited handle) →
      Settled [] workspace { program := inserted, ledger } :=
    fun ledger hledger => Settled.of_kept hrevised hledger []
  unfold insertCopy
  refine runs_bind_edit hinsert ?_
  dsimp only
  split
  · exact runs_bind_warn (runs_pure (hsettled _ fun _ h => h))
  · exact runs_pure (hsettled _ fun _ h => h)

theorem runs_splitPair (consistent : workspace.program.Consistent)
    (hlock : pair.lock.Intact workspace.program) (hunlock : pair.unlock.Intact workspace.program)
    (hfunction : pair.unlock.function = pair.lock.function) (address : PairAddress)
    (unlockOffset lockOffset : Nat) :
    Runs (splitPair address pair unlockOffset lockOffset) workspace
      (fun _ => Settled [] workspace) refused := by
  obtain ⟨lockEntry, hlockPlaced, hlockFunction, -⟩ := hlock.placed?
  obtain ⟨unlockEntry, hunlockPlaced, hunlockFunction, -⟩ := hunlock.placed?
  obtain ⟨distance, hdistance⟩ := exists_distance consistent hlockPlaced hunlockPlaced
    (by rw [hlockFunction, hunlockFunction, hfunction])
  unfold splitPair
  refine runs_bind_query hdistance ?_
  split
  · exact runs_bind_warn (runs_pure (Settled.of_record consistent _ _))
  · refine (runs_insertCopy consistent hlock "unlock" unlockOffset).bind ?_
    intro unlockCopy between hbetween
    -- copies leave all calls alone
    have hstill := hbetween.intact hlock List.not_mem_nil
    refine (runs_insertCopy hbetween.consistent hstill "lock" _).bind ?_
    intro lockCopy after hafter
    refine runs_bind_markEdited (runs_bind_markEdited (runs_bind_recordChange fun _ =>
      runs_pure ((hbetween.trans hafter).trans (Settled.of_noted hafter.consistent ?_ []))))
    exact fun _ h => by simp [h]

/-- What a split does for one request. -/
def splitRequest (index : PairIndex) (plan : LockPlan) : PairAddress × Nat → Work Bool :=
  fun (address, request) => do
    let some pair ← resolve index plan.addressing address
      | return false
    if !(← isPairUntouched pair) then
      return false
    match splitOffsets? plan.splitOffsets request with
    | some (unlockOffset, lockOffset) => splitPair address pair unlockOffset lockOffset
    | none =>
        Work.warn (s!"{name}: position pair " ++ address.text ++
          " has no split positions specified, skipping")
        return false

theorem split_eq (index : PairIndex) (plan : LockPlan) :
    split index plan =
      Work.anyOf (PairAddress.listOf plan.positions).zipIdx (splitRequest index plan) := rfl

theorem runs_splitRequest (tracked : Tracked start sites workspace)
    (hindex : ∀ pair ∈ index.pairs, pair.Matched sites) (plan : LockPlan)
    (request : PairAddress × Nat) :
    Runs (splitRequest index plan request) workspace (fun _ => Tracked start sites) refused := by
  obtain ⟨address, number⟩ := request
  refine (runs_resolve tracked plan.addressing address).bind ?_
  rintro (_ | pair) state ⟨tracked, hmem⟩
  · exact runs_pure tracked
  · have hpair := hindex pair (hmem pair rfl)
    refine (runs_isPairUntouched tracked hpair).bind ?_
    rintro (_ | _) state ⟨tracked, -, hintact⟩
    · exact runs_pure tracked
    · obtain ⟨hlock, hunlock⟩ := hintact rfl
      rw [if_neg (by simp)]
      split
      · exact (runs_splitPair tracked.consistent hlock hunlock hpair.function_eq address _ _).weaken
          fun _ after hafter => tracked.settled hafter
      · exact runs_bind_warn (runs_pure (tracked.recorded _))

theorem runs_split (tracked : Tracked start sites workspace)
    (hindex : ∀ pair ∈ index.pairs, pair.Matched sites) (plan : LockPlan) :
    Runs (split index plan) workspace (fun _ => Tracked start sites) refused := by
  rw [split_eq]
  exact runs_anyOf (Tracked start sites)
    (fun request _ _ tracked => runs_splitRequest tracked hindex plan request) tracked

/-! ## Runs and reports

Right after the search all calls that were found are intact, which starts the invariant. -/

theorem runs_run (consistent : workspace.program.Consistent) (plan : LockPlan)
    (oracle : AliasOracle) :
    Runs (run plan oracle) workspace (fun _ after => Upheld workspace.program after.program)
      (Refusal workspace.program) := by
  unfold run
  cases plan.mode with
  | none => exact runs_pure (Upheld.refl consistent)
  | some mode =>
      refine PairIndex.runs_bind_build consistent fun found index ledger hfinds hindex => ?_
      have tracked : Tracked workspace.program found.sites { workspace with ledger } :=
        Tracked.of_finds ledger consistent hfinds
      have hupheld : ∀ (_ : Bool) (after : Workspace),
          Tracked workspace.program found.sites after →
            Upheld workspace.program after.program :=
        fun _ _ tracked => tracked.toUpheld
      cases mode with
      | remove => exact (runs_remove tracked hindex plan).weaken hupheld
      | swap => exact (runs_swap tracked hfinds hindex plan).weaken hupheld
      | shift => exact (runs_shift tracked hindex plan).weaken hupheld
      | split => exact (runs_split tracked hindex plan).weaken hupheld

/-- Both sides of a matched pair have a distance, so every pair has its line. -/
theorem runs_report (consistent : workspace.program.Consistent) (plan : LockPlan)
    (oracle : AliasOracle) :
    Runs (report plan oracle) workspace (fun _ after => after.program = workspace.program)
      (Refusal workspace.program) := by
  unfold report
  refine PairIndex.runs_bind_build consistent fun found index ledger hfinds hindex => ?_
  have hreport : ∃ report, Report.pairs name index workspace.program plan.verbose = .ok report := by
    unfold Report.pairs
    split
    · refine Except.exists_bind (Except.exists_mapM ?_) fun lines => ⟨_, rfl⟩
      rintro ⟨category, position, pair⟩ hmem
      have hpair := hindex pair (PairIndex.mem_of_mem_toList hmem)
      obtain ⟨lock, hlock, hlockFunction, -⟩ := (hfinds _ hpair.lock_mem).intact.placed?
      obtain ⟨unlock, hunlock, hunlockFunction, -⟩ := (hfinds _ hpair.unlock_mem).intact.placed?
      have hdistance := exists_distance consistent hlock hunlock
        (by rw [hlockFunction, hunlockFunction, hpair.function_eq])
      exact Except.exists_bind hdistance fun distance => ⟨_, rfl⟩
    · exact ⟨_, rfl⟩
  obtain ⟨report, hreport⟩ := hreport
  exact runs_query hreport rfl

end LockOperator

end ConcurrencyFaults

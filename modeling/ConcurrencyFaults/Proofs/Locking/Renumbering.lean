import ConcurrencyFaults.Proofs.ClearedLists
import ConcurrencyFaults.Proofs.Locking.StatusRemoval
import ConcurrencyFaults.Proofs.Locking.Swapping

/-!
# Positions after a removal

The pairs of a program are numbered anew when some of its calls were removed.  The new numbers can
be foretold (`LockOperator.positions_after_removal`).

## Strategy

* Blocks keep what is left of them in order, and what they gain are branches, which are not paired,
  so the calls that are left stand in their old order (`Cleared.precedes`).
* A call that is left reads a zero where it read the result of a removed one.  If that is never its
  first argument, the calls that are left belong together exactly if they did before
  (`LockPair.matches_after_iff`).
* Both indexes are sorted by one order that determines a list by its members
  (`LockPair.eq_of_pairwise`); so the new index is the old one without the pairs that lost a side
  (`PairIndex.pairs_cleared`).
-/

namespace ConcurrencyFaults

open Program

variable {before after program : Program} {gone : List Handle} {site : CallSite}
  {oracle : AliasOracle} {pair : LockPair}

/-! ## The calls that are left

`CallSite.cleared` is the call as a search finds it afterwards: the same but for its arguments. -/

/-- The site with the arguments that it has when some instructions were taken out. -/
def CallSite.cleared (before : Program) (gone : List Handle) (site : CallSite) : CallSite :=
  { site with arguments := site.arguments.map (before.clearing gone site.function) }

/-- The pair with the arguments that its calls have when some instructions were taken out. -/
def LockPair.cleared (before : Program) (gone : List Handle) (pair : LockPair) : LockPair :=
  { pair with
    lock := pair.lock.cleared before gone
    unlock := pair.unlock.cleared before gone }

/-- The handles of the two calls. -/
def LockPair.handles (pair : LockPair) : Handle × Handle := (pair.lock.handle, pair.unlock.handle)

/-- Neither call of the pair was taken out. -/
def LockPair.Stays (gone : List Handle) (pair : LockPair) : Prop :=
  pair.lock.handle ∉ gone ∧ pair.unlock.handle ∉ gone

instance (gone : List Handle) (pair : LockPair) : Decidable (pair.Stays gone) :=
  inferInstanceAs (Decidable (_ ∧ _))

/-- No primitive that is left has the result of an instruction that was taken out for its first
argument. -/
def MutexesStay (before : Program) (gone : List Handle) : Prop :=
  ∀ site, CallSite.capture before site.handle true = .ok (some site) → site.handle ∉ gone →
    site.name ∈ LockFamily.allNames →
      ∀ handle ∈ gone, site.arguments.head? ≠ some (.result handle)

theorem LockFamily.name_mem_allNames (family : LockFamily) (role : LockRole) :
    family.name role ∈ allNames := by
  cases family <;> cases role <;> decide

theorem mutexesStay_iff (consistent : before.Consistent) :
    MutexesStay before gone ↔
      ∀ handle ∈ before.handles, ∀ site ∈ (CallSite.capture before handle true).toOption.join,
        site.handle ∉ gone → site.name ∈ LockFamily.allNames →
          ∀ handle ∈ gone, site.arguments.head? ≠ some (.result handle) :=
  consistent.forall_capture_iff

section Calls

variable (hcleared : before.Cleared after gone) (consistent : before.Consistent)
include hcleared

/-- A call that is left can be captured again, with its arguments cleared. -/
theorem CallSite.capture_cleared
    (hcapture : CallSite.capture before site.handle true = .ok (some site))
    (hstays : site.handle ∉ gone) :
    CallSite.capture after site.handle true = .ok (some (site.cleared before gone)) := by
  obtain ⟨entry, target, hplaced, htarget, hoperation, hsite⟩ :=
    CallSite.capture_eq_some_iff.mp hcapture
  obtain ⟨now, hnow, hname, -⟩ := hcleared.exists_function? htarget
  have hfunction : entry.function = site.function := (congrArg CallSite.function hsite).symm
  refine CallSite.capture_eq_some_iff.mpr
    ⟨_, now, hcleared.placed? hplaced hstays, hnow, ?_, ?_⟩
  · show Operation.mapOperands _ _ = _
    rw [hoperation, CallSite.operation, SiteForm.mapOperands_operation, hfunction]
    rfl
  · rw [hname]
    simp only [CallSite.cleared, CallSite.mk.injEq, and_true, true_and]
    exact ⟨congrArg CallSite.function hsite, congrArg CallSite.block hsite,
      congrArg CallSite.symbol hsite, congrArg CallSite.name hsite,
      congrArg CallSite.attributes hsite, congrArg CallSite.location hsite⟩

include consistent

/-- What can be captured afterwards was a call before. -/
theorem CallSite.exists_of_capture_cleared (calleesExist : before.CalleesExist)
    (hcapture : CallSite.capture after site.handle true = .ok (some site)) :
    ∃ former : CallSite, CallSite.capture before former.handle true = .ok (some former) ∧
      former.handle ∉ gone ∧ site = former.cleared before gone := by
  obtain ⟨found, target, hfound, -, hoperation, -⟩ := CallSite.capture_eq_some_iff.mp hcapture
  have hcallee : found.instruction.operation.directCallee? = some site.target := by
    rw [hoperation]
    exact SiteForm.directCallee?_operation ..
  rcases hcleared.cases_of_placed? consistent hfound with
    ⟨entry, hplaced, hstays, rfl⟩ | ⟨entry, hbranch⟩
  · have hcalled : entry.instruction.operation.directCallee? = some site.target := by
      simpa [Placed.mapOperands, Instruction.withOperation] using hcallee
    obtain ⟨function, hfunction⟩ := calleesExist _ entry _ hplaced hcalled
    obtain ⟨former, hhandle, hformer⟩ :=
      CallSite.exists_capture_of_directCallee? hplaced hcalled hfunction true
    rw [← hhandle] at hformer hstays
    have hnow := CallSite.capture_cleared hcleared hformer hstays
    exact ⟨former, hformer, hstays, CallSite.eq_of_capture hcapture hnow hhandle.symm⟩
  -- what a removal puts in is a branch, and that is no call
  · obtain ⟨normal, -, rfl⟩ := Option.map_eq_some_iff.mp hbranch
    cases hcallee

end Calls

/-! ## The pairs that are left

Membership and order are shown one after the other, and the index follows from both. -/

section Pairs

variable (hcleared : before.Cleared after gone) (consistent : before.Consistent)
  (hmutexes : MutexesStay before gone)
include hmutexes

theorem head?_cleared {family : LockFamily} {role : LockRole}
    (hcapture : CallSite.capture before site.handle true = .ok (some site))
    (hname : site.name = family.name role) (hstays : site.handle ∉ gone) :
    (site.cleared before gone).arguments.head? = site.arguments.head? := by
  have hnames := hmutexes site hcapture hstays (hname ▸ family.name_mem_allNames role)
  rw [CallSite.cleared, List.head?_map]
  cases hhead : site.arguments.head? with
  | none => rfl
  | some operand =>
      rw [Option.map_some, clearing_eq_self fun handle hmem _ hresult => ?_]
      exact hnames handle hmem (hhead.trans (congrArg some hresult))

include hcleared

/-- Calls that are left belong together exactly if they did. -/
theorem LockPair.matches_cleared_iff
    (hlock : CallSite.capture before pair.lock.handle true = .ok (some pair.lock))
    (hunlock : CallSite.capture before pair.unlock.handle true = .ok (some pair.unlock))
    (hstays : pair.Stays gone) :
    (pair.cleared before gone).Matches oracle after ↔ pair.Matches oracle before := by
  have haliased : pair.lock.name = pair.family.name .lock →
      pair.unlock.name = pair.family.name .unlock →
        ((pair.cleared before gone).Aliased oracle ↔ pair.Aliased oracle) := by
    intro hlockName hunlockName
    simp only [LockPair.Aliased, LockPair.cleared,
      head?_cleared hmutexes hlock hlockName hstays.1,
      head?_cleared hmutexes hunlock hunlockName hstays.2]
  constructor
  · rintro ⟨-, -, hfunction, hlockName, hunlockName, hnow⟩
    exact ⟨hlock, hunlock, hfunction, hlockName, hunlockName,
      (haliased hlockName hunlockName).mp hnow⟩
  · rintro ⟨-, -, hfunction, hlockName, hunlockName, hformerly⟩
    exact ⟨CallSite.capture_cleared hcleared hlock hstays.1,
      CallSite.capture_cleared hcleared hunlock hstays.2, hfunction, hlockName, hunlockName,
      (haliased hlockName hunlockName).mpr hformerly⟩

include consistent

theorem LockPair.matches_after_iff (calleesExist : before.CalleesExist) :
    pair.Matches oracle after ↔ ∃ former : LockPair, former.Matches oracle before ∧
      former.Stays gone ∧ former.cleared before gone = pair := by
  constructor
  · intro hpair
    obtain ⟨lock, hlock, hlockStays, hlockSite⟩ :=
      CallSite.exists_of_capture_cleared hcleared consistent calleesExist hpair.lock_at
    obtain ⟨unlock, hunlock, hunlockStays, hunlockSite⟩ :=
      CallSite.exists_of_capture_cleared hcleared consistent calleesExist hpair.unlock_at
    let former : LockPair := { family := pair.family, lock, unlock }
    have hsame : former.cleared before gone = pair := by
      cases pair
      simp_all [LockPair.cleared, former]
    have hstays : former.Stays gone := ⟨hlockStays, hunlockStays⟩
    have hmatches : former.Matches oracle before :=
      (LockPair.matches_cleared_iff hcleared hmutexes hlock hunlock hstays).mp (hsame ▸ hpair)
    exact ⟨former, hmatches, hstays, hsame⟩
  · rintro ⟨former, hformer, hstays, rfl⟩
    exact (LockPair.matches_cleared_iff hcleared hmutexes hformer.lock_at hformer.unlock_at
      hstays).mpr hformer

omit hmutexes in
theorem LockPair.precedes_cleared {later : LockPair} (hpair : pair.Matches oracle before)
    (hlater : later.Matches oracle before) (hstays : pair.Stays gone)
    (hlaterStays : later.Stays gone) (hprecedes : pair.Precedes before later) :
    (pair.cleared before gone).Precedes after (later.cleared before gone) := by
  have hsites : ∀ {first second : CallSite},
      CallSite.capture before first.handle true = .ok (some first) →
      CallSite.capture before second.handle true = .ok (some second) →
      first.function = second.function → first.handle ∉ gone → second.handle ∉ gone →
      first.Precedes before second →
        (first.cleared before gone).Precedes after (second.cleared before gone) := by
    intro first second hfirst hsecond hfunction hfirstStays hsecondStays hbefore
    obtain ⟨-, entry, hplaced, hentry, -⟩ := CallSite.placed_of_capture hfirst
    obtain ⟨-, other, hother, hotherEntry, -⟩ := CallSite.placed_of_capture hsecond
    rcases hbefore with hforms | ⟨hform, hbefore⟩
    · exact Or.inl hforms
    · exact Or.inr ⟨hform, hcleared.precedes consistent hplaced hother
        (hentry.trans (hfunction.trans hotherEntry.symm)) hfirstStays hsecondStays hbefore⟩
  rcases hprecedes with hlt | ⟨hfunction, hbefore⟩
  · exact Or.inl hlt
  · refine Or.inr ⟨hfunction, ?_⟩
    rcases hbefore with hbefore | ⟨hlock, hbefore⟩
    · exact Or.inl (hsites hpair.lock_at hlater.lock_at hfunction hstays.1 hlaterStays.1 hbefore)
    · have hunlocks : pair.unlock.function = later.unlock.function :=
        hpair.function_eq.trans (hfunction.trans hlater.function_eq.symm)
      exact Or.inr ⟨congrArg (CallSite.cleared before gone) hlock,
        hsites hpair.unlock_at hlater.unlock_at hunlocks hstays.2 hlaterStays.2 hbefore⟩

/-- The index of what is left is the old one without the pairs that lost a side. -/
theorem PairIndex.pairs_cleared (calleesExist : before.CalleesExist) :
    (PairIndex.ofProgram oracle after).pairs =
      ((PairIndex.ofProgram oracle before).pairs.filter (·.Stays gone)).map
        (LockPair.cleared before gone) := by
  have hafter := hcleared.consistent
  have calleesExistAfter := hcleared.calleesExist consistent calleesExist
  have hkept : ∀ pair, pair ∈ (PairIndex.ofProgram oracle before).pairs.filter (·.Stays gone) ↔
      pair.Matches oracle before ∧ pair.Stays gone := by
    intro pair
    rw [List.mem_filter, mem_pairs_ofProgram_iff consistent calleesExist, decide_eq_true_iff]
  refine LockPair.eq_of_pairwise (pairwise_pairs_ofProgram hafter calleesExistAfter oracle) ?_ ?_
  · have hsorted := pairwise_pairs_ofProgram consistent calleesExist oracle
    refine List.pairwise_map.mpr ((hsorted.filter (·.Stays gone)).imp_of_mem ?_)
    intro first second hfirst hsecond hprecedes
    obtain ⟨hfirst, hfirstStays⟩ := (hkept first).mp hfirst
    obtain ⟨hsecond, hsecondStays⟩ := (hkept second).mp hsecond
    exact LockPair.precedes_cleared hcleared consistent hfirst hsecond hfirstStays hsecondStays
      hprecedes
  · intro pair
    rw [mem_pairs_ofProgram_iff hafter calleesExistAfter,
      LockPair.matches_after_iff hcleared consistent hmutexes calleesExist]
    simp only [List.mem_map, hkept, and_assoc]

/-- So is each of its categories, with the same calls in the same order. -/
theorem PairIndex.handles_ofCategory_cleared (calleesExist : before.CalleesExist)
    (category : PairCategory) :
    ((PairIndex.ofProgram oracle after).ofCategory category).map LockPair.handles =
      (((PairIndex.ofProgram oracle before).ofCategory category).filter (·.Stays gone)).map
        LockPair.handles := by
  have hsame : (fun pair => pair.category == category) ∘ LockPair.cleared before gone =
      fun pair => pair.category == category := rfl
  have hhandles : LockPair.handles ∘ LockPair.cleared before gone = LockPair.handles := rfl
  simp only [ofCategory, pairs_cleared hcleared consistent hmutexes calleesExist, List.filter_map,
    List.map_map, List.filter_filter, hsame, hhandles, Bool.and_comm]

end Pairs

/-! ## The run

Which calls a run removes is known from the requests, as POSIX calls can always be removed. -/

namespace LockOperator

variable {plan : LockPlan}

/-- After a removal that asks for POSIX pairs alone and starts afresh, each category lists the pairs
that lost no side, in their old order, provided that no primitive that is left has the result of a
removed call for its mutex. -/
theorem positions_after_removal (consistent : program.Consistent)
    (calleesExist : program.CalleesExist) (hmode : plan.mode = some .remove)
    (hposix : ∀ pair ∈ requestedPairs (.ofProgram oracle program) plan, pair.family = .posix)
    (hmutexes : MutexesStay program (requestedHandles plan oracle program)) :
    ∃ modified after index built,
      run plan oracle { program } = .ok modified after ∧
      (∀ handle, program.Erases after.program handle ↔
        handle ∈ requestedHandles plan oracle program) ∧
      PairIndex.build oracle { program } = .ok index built ∧
      ∀ ledger, ∃ later rebuilt,
        PairIndex.build oracle { program := after.program, ledger } = .ok later rebuilt ∧
        ∀ category, (later.ofCategory category).map LockPair.handles =
          ((index.ofCategory category).filter
            (·.Stays (requestedHandles plan oracle program))).map LockPair.handles := by
  obtain ⟨removals, removed, warnings, after, hrun, removes⟩ :=
    @exists_remove { program } plan oracle consistent calleesExist hmode
  have hsame := removes.mem_removed_iff hposix consistent calleesExist
  have hcleared := removes.removing.cleared
  have hstays : MutexesStay program removed := by
    intro site hcapture hleft hname handle hmem
    exact hmutexes site hcapture (fun hrequested => hleft ((hsame _).mpr hrequested)) hname handle
      ((hsame handle).mp hmem)
  have hkept : (fun pair => decide (LockPair.Stays removed pair)) =
      fun pair => decide (LockPair.Stays (requestedHandles plan oracle program) pair) := by
    funext pair
    exact decide_eq_decide.mpr (and_congr (not_congr (hsame _)) (not_congr (hsame _)))
  refine ⟨_, after, _, _, hrun, fun handle => hcleared.erases_iff.trans (hsame handle),
    @PairIndex.build_apply { program } consistent calleesExist oracle, fun ledger => ?_⟩
  refine ⟨_, _, @PairIndex.build_apply { program := after.program, ledger } hcleared.consistent
    (hcleared.calleesExist consistent calleesExist) oracle, fun category => ?_⟩
  rw [← hkept]
  exact PairIndex.handles_ofCategory_cleared hcleared consistent hstays calleesExist category

/-- Two sections after one another, the first locked twice.  The lock of the second is handed the
status of the first lock, but not as its mutex.  It is not to be unfolded, lest runs on it are
evaluated in passing. -/
@[irreducible] def lockedInTurn : Program :=
  Command.run [.declare "pthread_mutex_lock" .status, .declare "pthread_mutex_unlock" .status,
    .addFunction "main" .void [], .addBlock 2 "entry", .addBlock 2 "held", .addBlock 2 "failed",
    .push 2 0 (.ofOperation (.invoke (.direct 0) [.global "first"] .status 1 2)),
    .push 2 1 (.ofOperation (.call (.direct 0) [.global "first"] .status)),
    .push 2 1 (.ofOperation (.call (.direct 1) [.global "first"] .status)),
    .push 2 1 (.ofOperation (.call (.direct 0) [.global "second", .result ⟨0, 0⟩] .status)),
    .push 2 1 (.ofOperation (.call (.direct 1) [.global "second"] .status)),
    .push 2 1 (.ofOperation (.ret none)), .push 2 2 (.ofOperation .unreachable)]
    { name := "locks" }

theorem consistent_lockedInTurn : lockedInTurn.Consistent := by
  unfold lockedInTurn
  exact Command.consistent_run (Command.consistent_empty "locks") _

/-- The pair whose lock may unwind. -/
def removeFirst : LockPlan := { mode := some .remove, positions := [2, 0] }

theorem positions_after_removal_lockedInTurn :
    ∃ modified after index built,
      run removeFirst .identity { program := lockedInTurn } = .ok modified after ∧
      (∀ handle, lockedInTurn.Erases after.program handle ↔
        handle ∈ requestedHandles removeFirst .identity lockedInTurn) ∧
      PairIndex.build .identity { program := lockedInTurn } = .ok index built ∧
      ∀ ledger, ∃ later rebuilt,
        PairIndex.build .identity { program := after.program, ledger } = .ok later rebuilt ∧
        ∀ category, (later.ofCategory category).map LockPair.handles =
          ((index.ofCategory category).filter
            (·.Stays (requestedHandles removeFirst .identity lockedInTurn))).map
              LockPair.handles :=
  positions_after_removal consistent_lockedInTurn
    (consistent_lockedInTurn.calleesExist_iff.mpr (by decide +kernel)) rfl (by decide +kernel)
    ((mutexesStay_iff consistent_lockedInTurn).mpr (by decide +kernel))

/-- The pair on the second mutex has position 1 before and position 0 afterwards, as the other pair
of plain calls loses its unlock. -/
example : ((PairIndex.ofProgram .identity lockedInTurn).ofCategory .callCall).map
      LockPair.handles = [(⟨1, 0⟩, ⟨2, 0⟩), (⟨3, 0⟩, ⟨4, 0⟩)] ∧
    (((PairIndex.ofProgram .identity lockedInTurn).ofCategory .callCall).filter
      (·.Stays (requestedHandles removeFirst .identity lockedInTurn))).map LockPair.handles =
        [(⟨3, 0⟩, ⟨4, 0⟩)] := by
  decide +kernel

end LockOperator

end ConcurrencyFaults

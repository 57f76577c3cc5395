import ConcurrencyFaults.Proofs.Closed.Copies
import ConcurrencyFaults.Proofs.Closed.Insertions
import ConcurrencyFaults.Proofs.Operators.Locks

/-!
# Moving and exchanging locks

Both keep a program closed if no call of a requested pair reads the result of one.  Calls that are
exchanged must be able to read each other's arguments besides (`CallSite.Exchangeable`): the result
of an instruction cannot be read in another function.

## Strategy

Each operator is settled in three steps:

* what is done with one call, or with two calls that change places, leaves the program sealed
  (`runs_shiftSite_sealed`, `runs_swapSites_sealed`);
* together with what the same work settles anyway this keeps `Copying` going
  (`runs_shiftSide_copying`, `runs_swapSites_copying`);
* a request is taken apart into the two sides of its pairs, where handling one side leaves the other
  side intact (`runs_shift_copying`, `runs_swapPairs_copying`, `runs_swap_copying`).
-/

namespace ConcurrencyFaults

open Program Work

variable {start program : Program} {sites requested : List CallSite} {site : CallSite}
  {workspace : Workspace} {refused : EditError → Workspace → Prop}

/-! ## Moving locks

An invoke first becomes a plain call at the same place.  A walk from there finds the new place, and
a call with the mutex alone is inserted before the old one is erased. -/

namespace LockOperator

/-- The plain call that a walk starts from is in the function of the call, and only the call itself
may be gone. -/
theorem runs_plainCall_sealed {refused : EditError → Program → Prop} (sealed : program.Sealed)
    (hgrounded : site.Grounded program) {mutex : Operand} (hmutex : mutex ∈ site.arguments) :
    Runs (plainCall site mutex) program
      (fun base after => after.Sealed ∧ program.Kept after [site.handle] ∧
        after.functionOf? base = some site.function) refused := by
  have consistent := sealed.toConsistent
  obtain ⟨entry, hplaced, hfunction⟩ := functionOf?_eq_some_iff.mp hgrounded.function_eq
  cases hform : site.form with
  | call =>
      exact runs_of_ok (plainCall_of_call hform mutex)
        ⟨sealed, Kept.refl consistent _, hgrounded.function_eq⟩
  | invoke normal unwind =>
      have hpushed := sealed.pushBranch hplaced normal site.location
      have hkept := kept_pushBranch consistent hplaced normal site.location
      have hlive := placed?_pushBranch consistent hplaced normal site.location
      refine runs_of_ok (plainCall_of_invoke consistent hform hplaced mutex) ⟨?_, ?_, ?_⟩
      · -- the status of the invoke becomes a constant, which is local anywhere
        refine hpushed.substituteEntry hlive ?_ (local_zeroed _ _) rfl
        exact (hgrounded.kept hkept).welcomes (by simpa using hmutex) entry hlive
      · exact (hkept.mono (List.nil_subset [site.handle])).trans
          (kept_substituteEntry hpushed.toConsistent hlive _ _) fun _ hmem => Or.inl hmem
      · rw [functionOf?_of_placed? (placed?_substituteEntry_nextHandle hpushed.toConsistent hlive
          _ _), Placed.function_rewrite, hfunction]

/-- A call that does not read itself may be moved. -/
theorem runs_shiftSite_sealed (sealed : workspace.program.Sealed)
    (hintact : site.Intact workspace.program) (hgrounded : site.Grounded workspace.program)
    (hindependent : Independent [site])
    (family : LockFamily) (direction : Int) :
    Runs (shiftSite site family direction) workspace (fun _ after => after.program.Sealed)
      (fun _ after => after.program.Sealed) := by
  unfold shiftSite
  refine (runs_shiftObstacle? sealed.toConsistent hintact family).bind ?_
  rintro obstacle _ rfl
  split
  · exact keeps_skip _ workspace sealed
  · exact runs_pure sealed
  · rename_i mutex rest harguments
    have hmutex : mutex ∈ site.arguments := by rw [harguments]; exact List.mem_cons_self ..
    refine (runs_edit (runs_plainCall_sealed sealed hgrounded hmutex)).bind ?_
    rintro base between ⟨sealed, hkept, hbase⟩
    -- the mutex is not the result of the call itself, so it is still local
    have hlocal := hkept.local (hgrounded.arguments mutex hmutex)
      (hindependent.not_self mutex hmutex)
    -- a walk stays in one function, so the mutex is welcome where it ends
    obtain ⟨entry, hplaced, hfunction⟩ := functionOf?_eq_some_iff.mp hbase
    obtain ⟨step, target, hstep, htarget, hsame⟩ :=
      exists_step sealed.toConsistent hplaced direction
    have hwelcome : between.program.Welcomes step.target (site.asCall [mutex]).operation := by
      refine welcomes_of_functionOf? (functionOf?_of_placed? htarget) ?_
      rw [CallSite.operands_asCall, hsame, hfunction]
      simpa using hlocal
    refine runs_bind_query hstep ?_
    extract_lets next
    have hnext : ∀ ledger, Runs (next ()) { between with ledger }
        (fun _ after => after.program.Sealed) (fun _ after => after.program.Sealed) := by
      intro ledger
      refine (@runs_edit _ _ { between with ledger } _ _
        (runs_insertBefore sealed hwelcome)).bind fun moved after sealed => ?_
      exact ((keeps_edit (keeps_eraseOrZero base statusWidth true)).bind fun _ =>
        (keeps_markEdited _).bind fun _ => (keeps_markEdited _).bind fun _ =>
          (keeps_query _).bind fun _ => keeps_recordChange.bind fun _ => keeps_pure true)
        after sealed
    split
    · exact runs_bind_warn (hnext _)
    · exact hnext between.ledger

theorem runs_shiftSide_sealed (sealed : workspace.program.Sealed)
    (hintact : site.Intact workspace.program) (hgrounded : site.Grounded workspace.program)
    (hindependent : Independent [site])
    (address : PairAddress) (role : LockRole) (family : LockFamily) (direction : Option Int) :
    Runs (shiftSide address role site family direction) workspace
      (fun _ after => after.program.Sealed) (fun _ after => after.program.Sealed) := by
  unfold shiftSide
  split
  · exact keeps_skip _ workspace sealed
  · exact keeps_skip _ workspace sealed
  · exact runs_pure sealed
  · exact runs_shiftSite_sealed sealed hintact hgrounded hindependent family _

/-! ## Requests for pairs

The calls that a plan is about are the sides of the pairs that its positions name. -/

/-- The pairs that the positions of a plan name. -/
def requestedPairs (index : PairIndex) (plan : LockPlan) : List LockPair :=
  (PairAddress.listOf plan.positions).filterMap (find? index plan.addressing)

/-- The two calls of each pair. -/
def sidesOf (pairs : List LockPair) : List CallSite :=
  pairs.flatMap fun pair => [pair.lock, pair.unlock]

theorem mem_requestedPairs {index : PairIndex} {plan : LockPlan} {address : PairAddress}
    {pair : LockPair} (haddress : address ∈ PairAddress.listOf plan.positions)
    (hfind : find? index plan.addressing address = some pair) :
    pair ∈ requestedPairs index plan :=
  List.mem_filterMap.mpr ⟨address, haddress, hfind⟩

theorem mem_sidesOf_iff {pairs : List LockPair} {site : CallSite} :
    site ∈ sidesOf pairs ↔ ∃ pair ∈ pairs, site = pair.lock ∨ site = pair.unlock := by
  simp [sidesOf]

theorem mem_sidesOf {pairs : List LockPair} {pair : LockPair} (hpair : pair ∈ pairs) :
    pair.lock ∈ sidesOf pairs ∧ pair.unlock ∈ sidesOf pairs :=
  ⟨mem_sidesOf_iff.mpr ⟨pair, hpair, Or.inl rfl⟩, mem_sidesOf_iff.mpr ⟨pair, hpair, Or.inr rfl⟩⟩

/-- Both sides of a swap are among the requested pairs. -/
theorem mem_listOf_of_mem_pairsOf {addresses : PairAddress × PairAddress} (positions : List Nat)
    (hmem : addresses ∈ PairAddress.pairsOf positions) :
    addresses.1 ∈ PairAddress.listOf positions ∧ addresses.2 ∈ PairAddress.listOf positions := by
  induction positions using PairAddress.pairsOf.induct with
  | case1 first second third fourth rest ih =>
      rw [PairAddress.pairsOf, List.mem_cons] at hmem
      rcases hmem with rfl | hmem
      · simp [PairAddress.listOf]
      · obtain ⟨hfirst, hsecond⟩ := ih hmem
        simp [PairAddress.listOf, hfirst, hsecond]
  | case2 => simp [PairAddress.pairsOf] at hmem

section Requests

variable {index : PairIndex} {plan : LockPlan} {pair : LockPair}

theorem runs_isPairUntouched_intact (tracked : Tracked start sites workspace)
    (hpair : pair.Matched sites) :
    Runs (isPairUntouched pair) workspace
      (fun answer after => Noted workspace after ∧
        (answer = true → pair.lock.Intact after.program ∧ pair.unlock.Intact after.program))
      refused :=
  ((runs_isPairUntouched_noted pair).and (runs_isPairUntouched tracked hpair)).weaken
    fun _ _ ⟨hnoted, _, _, hintact⟩ => ⟨hnoted, hintact⟩

variable (hindependent : Independent requested) (hsites : ∀ site ∈ sites, site.Grounded start)
include hindependent hsites

/-- A requested call that is intact can be moved as part of such a run. -/
theorem runs_shiftSide_copying (copying : Copying start sites requested workspace)
    (hmem : site ∈ sites) (hsite : site ∈ requested) (hintact : site.Intact workspace.program)
    (address : PairAddress) (role : LockRole) (family : LockFamily) (direction : Option Int) :
    Runs (shiftSide address role site family direction) workspace
      (fun _ after => Settled [site.handle] workspace after ∧ Copying start sites requested after)
      (fun _ after => after.program.Sealed) := by
  have hgrounded := copying.grounded hindependent hsite (hsites site hmem) hintact
  have hhandle : [site.handle] ⊆ requested.map CallSite.handle := by
    simpa using ⟨site, hsite, rfl⟩
  refine ((runs_shiftSide copying.consistent hintact address role family direction).and
    (runs_shiftSide_sealed copying.toSealed hintact hgrounded
      (hindependent.mono (by simpa using hsite)) address role family direction)).weaken ?_
  rintro _ after ⟨hsettled, sealed⟩
  exact ⟨hsettled, copying.settled hsettled hhandle sealed⟩

theorem runs_shift_copying (copying : Copying start sites requested workspace)
    (hindex : ∀ pair ∈ index.pairs, pair.Matched sites)
    (hrequested : sidesOf (requestedPairs index plan) ⊆ requested) :
    Runs (shift index plan) workspace (fun _ => Copying start sites requested)
      (fun _ after => after.program.Sealed) := by
  refine runs_anyOf (Copying start sites requested) ?_ copying
  rintro ⟨address, request⟩ hrequest state copying
  refine (runs_resolve_find plan.addressing address).bind ?_
  rintro (_ | pair) resolved ⟨hnoted, hfind⟩
  · exact runs_pure (copying.noted hnoted)
  · have copying := copying.noted hnoted
    have hpair := hindex pair (mem_of_find? hfind.symm)
    obtain ⟨hlockSide, hunlockSide⟩ := mem_sidesOf
      (mem_requestedPairs (List.fst_mem_of_mem_zipIdx hrequest) hfind.symm)
    refine (runs_isPairUntouched_intact copying.toTracked hpair).bind ?_
    rintro (_ | _) asked ⟨hnoted, hintact⟩
    · exact runs_pure (copying.noted hnoted)
    · have copying := copying.noted hnoted
      obtain ⟨hlock, hunlock⟩ := hintact rfl
      refine (runs_shiftSide_copying hindependent hsites copying hpair.lock_mem
        (hrequested hlockSide) hlock address .lock pair.family
        plan.lockDirections[request]?).bind ?_
      rintro lockMoved between ⟨hsettled, copying⟩
      -- moving the lock leaves the unlock alone
      have hstill := hsettled.intact hunlock (by simpa using hpair.handle_ne)
      refine (runs_shiftSide_copying hindependent hsites copying hpair.unlock_mem
        (hrequested hunlockSide) hstill address .unlock pair.family
        plan.unlockDirections[request]?).bind ?_
      exact fun unlockMoved after hafter => runs_pure hafter.2

end Requests

end LockOperator

/-! ## Exchanging locks

The two calls are replaced one after the other.  The second replacement inserts what was captured
from the first call, which is gone by then, so the first call must not read itself. -/

/-- Either call may read what the other one reads: they are in one function, or read no results. -/
def CallSite.Exchangeable (first second : CallSite) : Prop :=
  second.function = first.function ∨
    ∀ operand ∈ first.arguments ++ second.arguments, operand.handle? = none

instance (first second : CallSite) : Decidable (first.Exchangeable second) :=
  inferInstanceAs (Decidable (second.function = first.function ∨
    ∀ operand ∈ first.arguments ++ second.arguments, operand.handle? = none))

theorem CallSite.Exchangeable.symm {first second : CallSite} (h : first.Exchangeable second) :
    second.Exchangeable first :=
  h.imp Eq.symm fun hnone operand hoperand =>
    hnone operand (List.mem_append.mpr (List.mem_append.mp hoperand).symm)

/-- What a call reads is local where it is exchanged to. -/
theorem CallSite.Exchangeable.local {first second : CallSite} (h : first.Exchangeable second)
    (hsecond : second.Grounded program) :
    ∀ operand ∈ second.arguments, program.Local first.function operand := by
  intro operand hoperand
  rcases h with hfunction | hnone
  · exact hfunction ▸ hsecond.arguments operand hoperand
  · exact Local.of_handle?_eq_none (hnone operand (List.mem_append_right _ hoperand))

namespace LockOperator

theorem runs_swapSites_sealed {first second : CallSite} (sealed : workspace.program.Sealed)
    (hfirst : first.Grounded workspace.program) (hsecond : second.Grounded workspace.program)
    (hne : first.handle ≠ second.handle) (hexchangeable : first.Exchangeable second)
    (hindependent : Independent [first]) :
    Runs (swapSites first second) workspace (fun _ after => after.program.Sealed)
      (fun _ after => after.program.Sealed) := by
  have hreads : ∀ site other : CallSite,
      (inPlaceOf site other).operation.operands = other.arguments :=
    fun site other => SiteForm.operands_operation ..
  have hwelcomeFirst : workspace.program.Welcomes first.handle
      (inPlaceOf first second).operation :=
    welcomes_of_functionOf? hfirst.function_eq (by
      rw [hreads]
      exact hexchangeable.local hsecond)
  unfold swapSites
  refine (runs_edit (runs_replaceWith sealed hwelcomeFirst)).bind ?_
  rintro newFirst between ⟨sealed, hkept⟩
  -- the second call is still there, and what the first call read is still local
  have hstill := hkept.functionOf? hsecond.function_eq (by simpa using hne.symm)
  have hwelcomeSecond : between.program.Welcomes second.handle
      (inPlaceOf second first).operation := by
    refine welcomes_of_functionOf? hstill fun operand hoperand => ?_
    rw [hreads] at hoperand
    exact hkept.local (hexchangeable.symm.local hfirst operand hoperand)
      (hindependent.not_self operand hoperand)
  refine (runs_edit (runs_replaceWith sealed hwelcomeSecond)).bind ?_
  rintro newSecond after ⟨sealed, -⟩
  exact ((keeps_forM fun handle _ => keeps_markEdited handle).bind fun _ =>
    keeps_recordChange) after sealed

/-- Whatever pairs a plan asks to exchange can take each other's places. -/
def Exchanges (index : PairIndex) (plan : LockPlan) : Prop :=
  ∀ addresses ∈ PairAddress.pairsOf plan.positions,
    ∀ first ∈ find? index plan.addressing addresses.1,
    ∀ second ∈ find? index plan.addressing addresses.2,
      first.lock.Exchangeable second.lock ∧ first.unlock.Exchangeable second.unlock

instance (index : PairIndex) (plan : LockPlan) : Decidable (Exchanges index plan) :=
  inferInstanceAs (Decidable (∀ addresses ∈ PairAddress.pairsOf plan.positions,
    ∀ first ∈ find? index plan.addressing addresses.1,
    ∀ second ∈ find? index plan.addressing addresses.2,
      first.lock.Exchangeable second.lock ∧ first.unlock.Exchangeable second.unlock))

section Requests

variable {index : PairIndex} {plan : LockPlan} {search : CallSearch}
  (hindependent : Independent requested) (hsites : ∀ site ∈ sites, site.Grounded start)
include hindependent hsites

/-- Two requested calls that are intact can be exchanged as part of such a run. -/
theorem runs_swapSites_copying {first second : CallSite}
    (copying : Copying start sites requested workspace) (hfirstMem : first ∈ sites)
    (hsecondMem : second ∈ sites) (hfirst : first ∈ requested) (hsecond : second ∈ requested)
    (hfirstIntact : first.Intact workspace.program)
    (hsecondIntact : second.Intact workspace.program) (hne : first.handle ≠ second.handle)
    (hexchangeable : first.Exchangeable second) :
    Runs (swapSites first second) workspace
      (fun _ after => Settled [first.handle, second.handle] workspace after ∧
        Copying start sites requested after)
      (fun _ after => after.program.Sealed) := by
  have hhandles : [first.handle, second.handle] ⊆ requested.map CallSite.handle := by
    simpa using ⟨⟨first, hfirst, rfl⟩, ⟨second, hsecond, rfl⟩⟩
  refine ((runs_swapSites copying.consistent hfirstIntact hsecondIntact hne).and
    (runs_swapSites_sealed copying.toSealed
      (copying.grounded hindependent hfirst (hsites first hfirstMem) hfirstIntact)
      (copying.grounded hindependent hsecond (hsites second hsecondMem) hsecondIntact)
      hne hexchangeable (hindependent.mono (by simpa using hfirst)))).weaken ?_
  rintro _ after ⟨hsettled, sealed⟩
  exact ⟨hsettled, copying.settled hsettled hhandles sealed⟩

theorem runs_swapPairs_copying {first second : LockPair}
    (hfinds : ∀ site ∈ sites, search.Finds start site)
    (copying : Copying start sites requested workspace) (hfirst : first.Matched sites)
    (hsecond : second.Matched sites) (hrequested : sidesOf [first, second] ⊆ requested)
    (hlocksExchange : first.lock.Exchangeable second.lock)
    (hunlocksExchange : first.unlock.Exchangeable second.unlock) :
    Runs (swapPairs first second) workspace (fun _ => Copying start sites requested)
      (fun _ after => after.program.Sealed) := by
  obtain ⟨hfirstLock, hfirstUnlock⟩ := mem_sidesOf (show first ∈ [first, second] by simp)
  obtain ⟨hsecondLock, hsecondUnlock⟩ := mem_sidesOf (show second ∈ [first, second] by simp)
  unfold swapPairs
  split
  · exact runs_bind_warn (runs_pure (copying.noted ⟨rfl, by simp⟩))
  · rename_i hnone
    obtain ⟨hlocks, hunlocks⟩ := handles_ne_of_swapObstacle? hnone
    refine (runs_isPairUntouched_intact copying.toTracked hfirst).bind ?_
    rintro (_ | _) between ⟨hnoted, hfirstIntact⟩
    · exact runs_pure (copying.noted hnoted)
    · have copying := copying.noted hnoted
      refine (runs_isPairUntouched_intact copying.toTracked hsecond).bind ?_
      rintro (_ | _) state ⟨hnoted, hsecondIntact⟩
      · exact runs_pure (copying.noted hnoted)
      · have copying := copying.noted hnoted
        obtain ⟨hfirstLockIntact, hfirstUnlockIntact⟩ := hfirstIntact rfl
        obtain ⟨hsecondLockIntact, hsecondUnlockIntact⟩ := hsecondIntact rfl
        rw [← hnoted.program_eq] at hfirstLockIntact hfirstUnlockIntact
        refine (runs_swapSites_copying hindependent hsites copying hfirst.lock_mem hsecond.lock_mem
          (hrequested hfirstLock) (hrequested hsecondLock) hfirstLockIntact hsecondLockIntact
          hlocks hlocksExchange).bind ?_
        rintro _ swapped ⟨hsettled, copying⟩
        -- neither unlock is one of the locks, which are gone by now
        have hfirstStill := hsettled.intact hfirstUnlockIntact (by
          simpa using ⟨hfirst.handle_ne, hfirst.unlock_ne_lock hsecond hfinds⟩)
        have hsecondStill := hsettled.intact hsecondUnlockIntact (by
          simpa using ⟨hsecond.unlock_ne_lock hfirst hfinds, hsecond.handle_ne⟩)
        refine (runs_swapSites_copying hindependent hsites copying hfirst.unlock_mem
          hsecond.unlock_mem (hrequested hfirstUnlock) (hrequested hsecondUnlock) hfirstStill
          hsecondStill hunlocks hunlocksExchange).bind ?_
        exact fun _ after hafter => runs_pure hafter.2

theorem runs_swap_copying (hfinds : ∀ site ∈ sites, search.Finds start site)
    (copying : Copying start sites requested workspace)
    (hindex : ∀ pair ∈ index.pairs, pair.Matched sites)
    (hrequested : sidesOf (requestedPairs index plan) ⊆ requested)
    (hexchanges : Exchanges index plan) :
    Runs (swap index plan) workspace (fun _ => Copying start sites requested)
      (fun _ after => after.program.Sealed) := by
  unfold swap
  refine runs_anyOf (Copying start sites requested) ?_ copying
  rintro ⟨firstAddress, secondAddress⟩ haddresses state copying
  obtain ⟨hfirstListed, hsecondListed⟩ := mem_listOf_of_mem_pairsOf plan.positions haddresses
  refine (runs_resolve_find plan.addressing firstAddress).bind ?_
  rintro (_ | first) resolved ⟨hnoted, hfirst⟩
  · exact runs_pure (copying.noted hnoted)
  · have copying := copying.noted hnoted
    refine (runs_resolve_find plan.addressing secondAddress).bind ?_
    rintro (_ | second) both ⟨hnoted, hsecond⟩
    · exact runs_pure (copying.noted hnoted)
    · obtain ⟨hlocks, hunlocks⟩ := hexchanges _ haddresses first hfirst.symm second hsecond.symm
      refine runs_swapPairs_copying hindependent hsites hfinds (copying.noted hnoted)
        (hindex first (mem_of_find? hfirst.symm)) (hindex second (mem_of_find? hsecond.symm))
        (fun site hsite => hrequested ?_) hlocks hunlocks
      obtain ⟨pair, hpair, hside⟩ := List.mem_flatMap.mp hsite
      refine List.mem_flatMap.mpr ⟨pair, ?_, hside⟩
      rcases List.mem_pair.mp hpair with rfl | rfl
      · exact mem_requestedPairs hfirstListed hfirst.symm
      · exact mem_requestedPairs hsecondListed hsecond.symm

end Requests

end LockOperator

end ConcurrencyFaults

import ConcurrencyFaults.Proofs.Locking.Accounting
import ConcurrencyFaults.Proofs.Locking.Marking
import ConcurrencyFaults.Proofs.Locking.Splitting
import ConcurrencyFaults.Proofs.NamedFunctions

/-!
# Counting the functions that a lock run changes

An entry names one function, so the number of changed functions in the tally is right as long as
each request works in a single function and its entry names it.  That is how locks are shifted, how
pairs are split, and how two pairs of one function are swapped (`functionsChanged_run`).  It is not
so in general: of two functions that exchange calls only one is counted, and a removal counts none,
because the entry for a removed pair names no function (`functionsChanged_remove`).

## Strategy

* `Accounts` relates two states of a run: the functions that were altered between them are those
  that the entries between them name.  A request that changes nothing is `Quiet`, one that works in
  a function is `WorksIn` it, and both account for themselves.
* That a function named by an entry was really altered is seen from one handle that is gone from it
  in the end, or new in it: the second unlock of a swap, a moved call, the last copy of a split.
* Requests are chained by `Course.Follows` (`runs_course_accounts`), and the number of names in the
  journal is compared with the number of altered functions at the end (`functionsChanged_run`).
-/

namespace ConcurrencyFaults

open Program Work

/-- The two pairs that a request for a swap names are in one function. -/
def LockPlan.SwapsWithin (plan : LockPlan) (index : PairIndex) : Prop :=
  ∀ request ∈ PairAddress.pairsOf plan.positions,
    ∀ first ∈ LockOperator.find? index plan.addressing request.1,
      ∀ second ∈ LockOperator.find? index plan.addressing request.2,
        first.function = second.function

instance (plan : LockPlan) (index : PairIndex) : Decidable (plan.SwapsWithin index) :=
  inferInstanceAs (Decidable (∀ request ∈ PairAddress.pairsOf plan.positions, _))

variable {start program : Program} {workspace : Workspace} {function : FunctionId}
  {sites : List CallSite} {search : CallSearch} {site : CallSite} {pair : LockPair}
  {index : PairIndex}

theorem CallSite.Intact.functionOf? {site : CallSite} {program : Program}
    (hintact : site.Intact program) : program.functionOf? site.handle = some site.function := by
  obtain ⟨entry, hplaced, hfunction, -⟩ := hintact
  rw [functionOf?_of_placed? hplaced, hfunction]

namespace Program.Inserts

variable {after : Program} {handle : Handle} {instruction : Instruction}

theorem functionOf?_eq (hinserts : program.Inserts after handle instruction function) :
    after.functionOf? = Function.update program.functionOf? handle (some function) := by
  obtain ⟨block, hupdate⟩ := hinserts.placed?
  funext other
  unfold functionOf?
  rw [hupdate]
  by_cases hother : other = handle <;> simp [hother]

theorem altersOnly (hinserts : program.Inserts after handle instruction function) :
    program.AltersOnly after function := by
  refine .of_update hinserts.functionOf?_eq ?_ (by simp)
  rw [functionOf?_of_stale hinserts.fresh]
  simp

end Program.Inserts

namespace LockOperator

/-! ## Swapping

Two exchanges, of the locks and of the unlocks, both in the one function of the pairs. -/

/-- Two calls of one function are exchanged; the second is gone in the end. -/
theorem runs_swapSites_works {first second : CallSite} (consistent : workspace.program.Consistent)
    (hfirst : first.Intact workspace.program) (hsecond : second.Intact workspace.program)
    (hne : first.handle ≠ second.handle) (hsame : second.function = first.function) :
    Runs (swapSites first second) workspace
      (fun _ after => WorksIn first.function workspace after ∧
        after.program.functionOf? second.handle = none) fun _ _ => True := by
  obtain ⟨entry, hplaced, hentry, -⟩ := hfirst.placed?
  let between := workspace.program.substituteEntry first.handle entry (inPlaceOf first second)
    (.result workspace.program.nextHandle)
  have hkept : workspace.program.Kept between [first.handle] :=
    kept_substituteEntry consistent hplaced _ _
  obtain ⟨found, hfound, hsecondEntry, -⟩ :=
    (hsecond.kept hkept (by simpa using hne.symm)).placed?
  have honly : workspace.program.AltersOnly between first.function :=
    hentry ▸ altersOnly_substituteEntry consistent hplaced _ _
  have hlater := altersOnly_substituteEntry hkept.consistent hfound (inPlaceOf second first)
    (.result between.nextHandle)
  rw [hsecondEntry, hsame] at hlater
  unfold swapSites
  refine runs_bind_edit (replaceWith_of_placed? consistent hplaced _) ?_
  refine runs_bind_edit (replaceWith_of_placed? hkept.consistent hfound _) ?_
  refine runs_bind_markAll (runs_recordChange_in rfl fun entry hchange hnamed => ⟨?_, ?_⟩)
  · exact .of_record (honly.trans hlater) (by simp) hchange hnamed
  · dsimp only
    rw [functionOf?_substituteEntry hkept.consistent hfound, Function.update_self]

/-- Exchanging the locks and then the unlocks of two pairs of one function alters that function. -/
theorem runs_swapHalves_accounts {first second : LockPair}
    (consistent : workspace.program.Consistent)
    (hfinds : ∀ site ∈ sites, search.Finds program site) (hfirst : first.Matched sites)
    (hsecond : second.Matched sites) (hlocks : first.lock.handle ≠ second.lock.handle)
    (hunlocks : first.unlock.handle ≠ second.unlock.handle)
    (hsame : first.function = second.function)
    (hknown : ∃ found, start.function? first.function = some found)
    (hfirstIntact : first.lock.Intact workspace.program ∧ first.unlock.Intact workspace.program)
    (hsecondIntact : second.lock.Intact workspace.program ∧
      second.unlock.Intact workspace.program) :
    Runs (do
      swapSites first.lock second.lock
      swapSites first.unlock second.unlock
      return true) workspace (fun _ => Accounts start workspace) fun _ _ => True := by
  obtain ⟨hfirstLock, hfirstUnlock⟩ := hfirstIntact
  obtain ⟨hsecondLock, hsecondUnlock⟩ := hsecondIntact
  refine ((runs_swapSites consistent hfirstLock hsecondLock hlocks).and
    (runs_swapSites_works consistent hfirstLock hsecondLock hlocks hsame.symm)).bind ?_
  rintro _ swapped ⟨hswapped, hworks, -⟩
  have hfirstStill := hswapped.intact hfirstUnlock (by
    simpa using ⟨hfirst.handle_ne, hfirst.unlock_ne_lock hsecond hfinds⟩)
  have hsecondStill := hswapped.intact hsecondUnlock (by
    simpa using ⟨hsecond.unlock_ne_lock hfirst hfinds, hsecond.handle_ne⟩)
  have hunlockSame : second.unlock.function = first.unlock.function :=
    hsecond.function_eq.trans (hsame.symm.trans hfirst.function_eq.symm)
  refine ((runs_swapSites hswapped.consistent hfirstStill hsecondStill hunlocks).and
    (runs_swapSites_works hswapped.consistent hfirstStill hsecondStill hunlocks
      hunlockSame)).bind ?_
  rintro _ after ⟨hafter, hlater, hgone⟩
  -- the second unlock was in the function and is not there any more
  have hlive := hsecondUnlock.functionOf?
  rw [hunlockSame, hfirst.function_eq] at hlive
  rw [hfirst.function_eq] at hlater
  have halters := Alters.of_erased consistent hafter.consistent hlive hgone
  exact runs_pure ((hworks.trans hlater).accounts consistent hafter.consistent halters hknown)

theorem runs_swapPairs_accounts {first second : LockPair} (tracked : Tracked start sites workspace)
    (hfinds : ∀ site ∈ sites, search.Finds program site) (hfirst : first.Matched sites)
    (hsecond : second.Matched sites) (hsame : first.function = second.function)
    (hknown : ∃ found, start.function? first.function = some found) :
    Runs (swapPairs first second) workspace (fun _ => Accounts start workspace)
      fun _ _ => True := by
  unfold swapPairs
  split
  · exact runs_bind_warn (runs_pure (Quiet.of_note rfl).accounts)
  · rename_i hnone
    obtain ⟨hlocks, hunlocks⟩ := handles_ne_of_swapObstacle? hnone
    refine ((runs_isPairUntouched tracked hfirst).and (silent_isPairUntouched first _)).bind ?_
    rintro (_ | _) between ⟨⟨tracked, -, hfirstIntact⟩, hbetween⟩
    · exact runs_pure hbetween.accounts
    · refine ((runs_isPairUntouched tracked hsecond).and
        (silent_isPairUntouched second _)).bind ?_
      rintro (_ | _) state ⟨⟨tracked, hstate, hsecondIntact⟩, hquiet⟩
      · exact runs_pure (hbetween.trans hquiet).accounts
      · obtain ⟨hlock, hunlock⟩ := hfirstIntact rfl
        refine (runs_swapHalves_accounts tracked.consistent hfinds hfirst hsecond hlocks hunlocks
          hsame hknown ⟨hstate.intact hlock List.not_mem_nil,
            hstate.intact hunlock List.not_mem_nil⟩ (hsecondIntact rfl)).weaken ?_
        exact fun _ _ hafter => (hbetween.trans hquiet).trans_accounts hafter

/-! ## Shifting

A call is moved by a copy and an erasure.  An invoke leaves a branch behind, and its handle may have
been freed before the copy was made, so it has to be shown not to be the new handle. -/

/-- The plain call that a walk starts from is in the function of the call.  If the call gave way to
it, the handle of the call is not given out at once. -/
theorem runs_plainCall_alters {entry : Placed} (consistent : program.Consistent)
    (hplaced : program.placed? site.handle = some entry) (mutex : Operand) :
    Runs (plainCall site mutex) program (fun base after =>
      after.Consistent ∧ program.AltersOnly after entry.function ∧
        after.functionOf? base = some entry.function ∧
        (base = site.handle ∨
          after.functionOf? site.handle = none ∧ after.nextHandle ≠ site.handle))
      fun _ _ => True := by
  cases hform : site.form with
  | call =>
      exact runs_of_ok (plainCall_of_call hform mutex)
        ⟨consistent, .refl _ _, functionOf?_of_placed? hplaced, Or.inl rfl⟩
  | invoke normal unwind =>
      have hpushed := (kept_pushBranch consistent hplaced normal site.location).consistent
      have hlive := placed?_pushBranch consistent hplaced normal site.location
      have hbranched : program.AltersOnly (program.pushBranch entry normal site.location)
          entry.function := altersOnly_insertEntry consistent.toFreeListExact _
      refine runs_of_ok (plainCall_of_invoke consistent hform hplaced mutex) ⟨?_, ?_, ?_, ?_⟩
      · exact (kept_substituteEntry hpushed hlive _ _).consistent
      · exact hbranched.trans (altersOnly_substituteEntry hpushed hlive _ _)
      · rw [functionOf?_of_placed? (placed?_substituteEntry_nextHandle hpushed hlive _ _),
          Placed.function_rewrite]
      · refine Or.inr ⟨?_, ?_⟩
        · rw [functionOf?_substituteEntry hpushed hlive, Function.update_self]
        · exact nextHandle_eraseEntry_ne (placed?_rewriteFunction_insertAhead hpushed hlive _ _)

/-- Putting a call in front of another instruction of a function and erasing one of that function
changes nothing else. -/
theorem exists_movedCall_alters (consistent : program.Consistent) {base target : Handle}
    (hbase : program.functionOf? base = some function)
    (htarget : program.functionOf? target = some function) (call : Instruction) :
    ∃ inserted removal after,
      insertBefore target call program = .ok program.nextHandle inserted ∧
        eraseOrZero base statusWidth true inserted = .ok removal after ∧
        program.AltersOnly after function ∧
        after.functionOf? =
          Function.update (Function.update program.functionOf? program.nextHandle (some function))
            base none := by
  have hfree := consistent.toFreeListExact
  obtain ⟨entry, hplaced, hentry⟩ := functionOf?_eq_some_iff.mp hbase
  obtain ⟨found, hfound, rfl⟩ := functionOf?_eq_some_iff.mp htarget
  let inserted := program.insertEntry ⟨call, found.function, found.block⟩ (ahead target)
  have hinserted : inserted.Consistent := consistent.insertAhead hfound call
  have hstill : inserted.placed? base = some entry :=
    placed?_insertEntry_of_placed? hfree hplaced _ _
  have honly : program.AltersOnly inserted found.function := altersOnly_insertEntry hfree _
  have hnew : inserted.functionOf? =
      Function.update program.functionOf? program.nextHandle (some found.function) :=
    functionOf?_insertEntry hfree _
  obtain ⟨removal, hremoval⟩ := eraseOrZero_of_placed? hinserted hstill statusWidth true
  refine ⟨inserted, removal, _, insertBefore_of_placed? consistent hfound call, hremoval, ?_, ?_⟩
  · have herased := altersOnly_eraseEntry_rewrite hinserted hstill
      (replacing base (zeroed statusWidth true))
    exact honly.trans (hentry ▸ herased)
  · rw [functionOf?_eraseEntry_rewrite hinserted hstill, hnew]

/-- A call that is moved is gone from its function, and nothing is changed in others. -/
theorem runs_shiftSite_works (consistent : workspace.program.Consistent)
    (hintact : site.Intact workspace.program) (family : LockFamily) (direction : Int) :
    Runs (shiftSite site family direction) workspace (fun moved after =>
      AgreesIn site.function moved workspace after ∧
        (moved = true → after.program.functionOf? site.handle = none)) fun _ _ => True := by
  unfold shiftSite
  refine (runs_shiftObstacle? consistent hintact family).bind ?_
  rintro obstacle _ rfl
  split
  · exact runs_bind_warn (runs_pure ⟨.of_quiet (.of_note rfl), by simp⟩)
  · exact runs_pure ⟨.of_quiet (.refl _), by simp⟩
  · rename_i mutex _ _
    obtain ⟨entry, hplaced, hfunction, -⟩ := hintact.placed?
    refine runs_bind_edit_of (runs_plainCall_alters consistent hplaced _) ?_
    rintro base between ⟨hbetween, honly, hbase, hgone⟩
    rw [hfunction] at honly hbase
    obtain ⟨found, hfound, hfoundFunction⟩ := functionOf?_eq_some_iff.mp hbase
    obtain ⟨step, target, hstep, htarget, hsame⟩ := exists_step hbetween hfound direction
    obtain ⟨inserted, removal, after, hinsert, hremoval, hmoved, hafter⟩ :=
      exists_movedCall_alters hbetween hbase
        (functionOf?_eq_some_iff.mpr ⟨target, htarget, hsame.trans hfoundFunction⟩)
        (site.asCall [mutex])
    -- the handle of the call is the one that is erased, or it was freed by the plain call
    have hnone : after.functionOf? site.handle = none := by
      rw [hafter]
      rcases hgone with rfl | ⟨hgone, hnext⟩
      · rw [Function.update_self]
      · by_cases hsite : site.handle = base
        · rw [hsite, Function.update_self]
        · rw [Function.update_of_ne hsite, Function.update_of_ne hnext.symm, hgone]
    refine runs_bind_query hstep ?_
    extract_lets rest
    have hrest : ∀ ledger : Ledger,
        ledger.journal.changedFunctions = workspace.ledger.journal.changedFunctions →
        Runs (rest ()) { program := between, ledger } (fun moved after =>
          AgreesIn site.function moved workspace after ∧
            (moved = true → after.program.functionOf? site.handle = none)) fun _ _ => True := by
      intro ledger hjournal
      refine runs_bind_edit hinsert (runs_bind_edit hremoval (runs_bind_markEdited
        (runs_bind_markEdited (runs_bind_ask fun position => ?_))))
      refine runs_bind (runs_recordChange_in rfl fun entry hchange hnamed =>
        runs_pure ⟨?_, fun _ => hnone⟩)
      exact .of_works (.of_record (honly.trans hmoved) (by simpa using hjournal) hchange hnamed)
    split
    · exact runs_bind_warn (hrest _ (Quiet.of_note rfl).changedFunctions_eq)
    · exact hrest _ rfl

theorem runs_shiftSide_works (consistent : workspace.program.Consistent)
    (hintact : site.Intact workspace.program) (address : PairAddress) (role : LockRole)
    (family : LockFamily) (direction : Option Int) :
    Runs (shiftSide address role site family direction) workspace (fun moved after =>
      AgreesIn site.function moved workspace after ∧
        (moved = true → after.program.functionOf? site.handle = none)) fun _ _ => True := by
  unfold shiftSide
  split
  · exact runs_bind_warn (runs_pure ⟨.of_quiet (.of_note rfl), by simp⟩)
  · exact runs_bind_warn (runs_pure ⟨.of_quiet (.of_note rfl), by simp⟩)
  · exact runs_pure ⟨.of_quiet (.refl _), by simp⟩
  · exact runs_shiftSite_works consistent hintact family _

/-- Moving both calls of a pair alters their function if one of them is moved. -/
theorem runs_shiftSides_accounts (consistent : workspace.program.Consistent)
    (hpair : pair.Matched sites) (hlock : pair.lock.Intact workspace.program)
    (hunlock : pair.unlock.Intact workspace.program)
    (hknown : ∃ found, start.function? pair.lock.function = some found) (address : PairAddress)
    (lockDirection unlockDirection : Option Int) :
    Runs (do
      let lockMoved ← shiftSide address .lock pair.lock pair.family lockDirection
      let unlockMoved ← shiftSide address .unlock pair.unlock pair.family unlockDirection
      return lockMoved || unlockMoved) workspace (fun _ => Accounts start workspace)
      fun _ _ => True := by
  refine ((runs_shiftSide consistent hlock address .lock pair.family lockDirection).and
    (runs_shiftSide_works consistent hlock address .lock pair.family lockDirection)).bind ?_
  rintro lockMoved between ⟨hbetween, hfirst, hlockGone⟩
  have hstill := hbetween.intact hunlock (by simpa using hpair.handle_ne)
  refine ((runs_shiftSide hbetween.consistent hstill address .unlock pair.family
    unlockDirection).and (runs_shiftSide_works hbetween.consistent hstill address .unlock
      pair.family unlockDirection)).bind ?_
  rintro unlockMoved after ⟨hafter, hsecond, hunlockGone⟩
  have hlockLive := hlock.functionOf?
  have hunlockLive := hunlock.functionOf?
  rw [hpair.function_eq] at hsecond hunlockLive
  refine runs_pure ((hfirst.trans hsecond).accounts consistent hafter.consistent ?_ hknown)
  -- the call that was moved last is gone from where it was
  intro hmoved
  cases unlockMoved with
  | true => exact .of_erased consistent hafter.consistent hunlockLive (hunlockGone rfl)
  | false =>
      have hsame := (hsecond.quiet rfl).1
      refine .of_erased consistent hafter.consistent hlockLive ?_
      rw [hsame]
      exact hlockGone (by simpa using hmoved)

/-! ## Splitting

Nothing is erased, and the two copies go into the function of the lock. -/

theorem runs_insertCopy_inserts {lock : CallSite} (consistent : workspace.program.Consistent)
    (hlock : lock.Intact workspace.program) (site : CallSite) (role : String) (offset : Nat) :
    Runs (insertCopy lock.handle site role offset) workspace (fun copy after =>
      workspace.program.Inserts after.program copy (site.asCall site.arguments) lock.function ∧
        after.ledger.journal.changedFunctions = workspace.ledger.journal.changedFunctions)
      fun _ _ => True := by
  obtain ⟨program, warnings, hinsert, hinserts, hnotes⟩ :=
    insertCopy_of_intact consistent hlock site role offset
  exact runs_of_ok hinsert ⟨hinserts, Journal.changedFunctions_extend_of_notes hnotes⟩

theorem runs_splitPair_accounts (consistent : workspace.program.Consistent)
    (hlock : pair.lock.Intact workspace.program)
    (hknown : ∃ found, start.function? pair.lock.function = some found) (address : PairAddress)
    (unlockOffset lockOffset : Nat) :
    Runs (splitPair address pair unlockOffset lockOffset) workspace
      (fun _ => Accounts start workspace) fun _ _ => True := by
  unfold splitPair
  refine runs_bind_ask fun distance => ?_
  split
  · exact runs_bind_warn (runs_pure (Quiet.of_note rfl).accounts)
  · refine (runs_insertCopy_inserts consistent hlock pair.unlock "unlock" unlockOffset).bind ?_
    rintro unlockCopy between ⟨hunlockCopy, hbetween⟩
    have hstill := hlock.kept hunlockCopy.kept List.not_mem_nil
    refine (runs_insertCopy_inserts hunlockCopy.consistent hstill pair.lock "lock" _).bind ?_
    rintro lockCopy after ⟨hlockCopy, hafter⟩
    refine runs_bind_markEdited (runs_bind_markEdited (runs_bind (runs_recordChange_in rfl
      fun entry hchange hnamed => runs_pure ?_)))
    have hworks : WorksIn pair.lock.function workspace { after with
        ledger := ((after.ledger.markEdited unlockCopy).markEdited lockCopy).record entry } :=
      .of_record (hunlockCopy.altersOnly.trans hlockCopy.altersOnly)
        (by simp [hafter, hbetween]) hchange hnamed
    -- the copy of the lock was put in last, so it is there, and it was not there before
    have hfresh : workspace.program.functionOf? lockCopy = none := by
      rw [Option.eq_none_iff_forall_ne_some]
      intro holder hholder
      obtain ⟨entry, hplaced, -⟩ := functionOf?_eq_some_iff.mp hholder
      have hstill := hunlockCopy.placed?_of_placed? hplaced
      rw [hlockCopy.fresh] at hstill
      cases hstill
    have hlive : after.program.functionOf? lockCopy = some pair.lock.function := by
      rw [hlockCopy.functionOf?_eq, Function.update_self]
    exact hworks.accounts consistent hlockCopy.consistent
      (.of_inserted consistent hlockCopy.consistent hfresh hlive) hknown

/-! ## Requests

Shifts and splits resolve one pair each (`runs_pairRequest_accounts`), swaps two. -/

section Requests

variable (hstart : start.Consistent) (hfinds : ∀ site ∈ sites, search.Finds start site)
  (tracked : Tracked start sites workspace) (hindex : ∀ pair ∈ index.pairs, pair.Matched sites)
  (plan : LockPlan)
include hstart hfinds tracked hindex

omit tracked hindex in
theorem exists_function?_of_finds (hmem : site ∈ sites) :
    ∃ found, start.function? site.function = some found :=
  hstart.exists_function?_of_functionOf? (hfinds site hmem).intact.functionOf?

/-- A request for a pair comes to nothing unless both calls of the pair are intact. -/
theorem runs_pairRequest_accounts {next : LockPair → Work Bool} (address : PairAddress)
    (hnext : ∀ pair (state : Workspace), pair.Matched sites → state.program.Consistent →
      pair.lock.Intact state.program → pair.unlock.Intact state.program →
      (∃ found, start.function? pair.lock.function = some found) →
        Runs (next pair) state (fun _ => Accounts start state) fun _ _ => True) :
    Runs (do
      let some pair ← resolve index plan.addressing address
        | return false
      if !(← isPairUntouched pair) then
        return false
      next pair) workspace (fun _ => Accounts start workspace) fun _ _ => True := by
  refine ((runs_resolve tracked plan.addressing address).and
    (silent_resolve index plan.addressing address _)).bind ?_
  rintro (_ | pair) between ⟨⟨tracked, hmem⟩, hbetween⟩
  · exact runs_pure hbetween.accounts
  · have hpair := hindex pair (hmem pair rfl)
    refine ((runs_isPairUntouched tracked hpair).and (silent_isPairUntouched pair _)).bind ?_
    rintro (_ | _) state ⟨⟨tracked, -, hintact⟩, hquiet⟩
    · exact runs_pure (hbetween.trans hquiet).accounts
    · obtain ⟨hlock, hunlock⟩ := hintact rfl
      have hknown := exists_function?_of_finds hstart hfinds hpair.lock_mem
      refine (hnext pair state hpair tracked.consistent hlock hunlock hknown).weaken ?_
      exact fun _ _ hafter => (hbetween.trans hquiet).trans_accounts hafter

theorem runs_shiftRequest_accounts (request : PairAddress × Nat) :
    Runs (shiftRequest index plan request) workspace (fun _ => Accounts start workspace)
      fun _ _ => True := by
  obtain ⟨address, number⟩ := request
  exact runs_pairRequest_accounts hstart hfinds tracked hindex plan address
    fun pair state hpair consistent hlock hunlock hknown =>
      runs_shiftSides_accounts consistent hpair hlock hunlock hknown address _ _

theorem runs_splitRequest_accounts (request : PairAddress × Nat) :
    Runs (splitRequest index plan request) workspace (fun _ => Accounts start workspace)
      fun _ _ => True := by
  obtain ⟨address, number⟩ := request
  refine runs_pairRequest_accounts hstart hfinds tracked hindex plan address
    fun pair state hpair consistent hlock hunlock hknown => ?_
  split
  · exact runs_splitPair_accounts consistent hlock hknown address _ _
  · exact runs_bind_warn (runs_pure (Quiet.of_note rfl).accounts)

theorem runs_swapRequest_accounts (request : PairAddress × PairAddress)
    (hsame : ∀ first ∈ find? index plan.addressing request.1,
      ∀ second ∈ find? index plan.addressing request.2, first.function = second.function) :
    Runs (swapRequest index plan request) workspace (fun _ => Accounts start workspace)
      fun _ _ => True := by
  obtain ⟨firstAddress, secondAddress⟩ := request
  refine (((runs_resolve tracked plan.addressing firstAddress).and
    (runs_resolve_find plan.addressing firstAddress)).and
      (silent_resolve index plan.addressing firstAddress _)).bind ?_
  rintro (_ | first) between ⟨⟨⟨tracked, hfirst⟩, -, hfirstFound⟩, hbetween⟩
  · exact runs_pure hbetween.accounts
  · refine (((runs_resolve tracked plan.addressing secondAddress).and
      (runs_resolve_find plan.addressing secondAddress)).and
        (silent_resolve index plan.addressing secondAddress _)).bind ?_
    rintro (_ | second) state ⟨⟨⟨tracked, hsecond⟩, -, hsecondFound⟩, hquiet⟩
    · exact runs_pure (hbetween.trans hquiet).accounts
    · have hpair := hindex first (hfirst first rfl)
      refine (runs_swapPairs_accounts tracked hfinds hpair (hindex second (hsecond second rfl))
        (hsame first hfirstFound.symm second hsecondFound.symm)
        (exists_function?_of_finds hstart hfinds hpair.lock_mem)).weaken ?_
      exact fun _ _ hafter => (hbetween.trans hquiet).trans_accounts hafter

end Requests

/-! ## Runs

A removal is left out, as its entries name no function. -/

theorem runs_course_accounts {oracle : AliasOracle} {plan : LockPlan}
    (consistent : workspace.program.Consistent) (hmode : plan.mode ≠ some .remove)
    (hwithin : plan.mode = some .swap →
      plan.SwapsWithin (.ofProgram oracle workspace.program)) :
    Runs (course plan oracle) workspace (fun course prepared =>
      Accounts workspace.program workspace prepared ∧ ∃ invariant : Workspace → Prop,
        invariant prepared ∧ course.Follows (Accounts workspace.program) invariant ∧
          ∀ state, invariant state → state.program.Consistent)
      fun _ refused => Accounts workspace.program workspace refused ∧
        refused.program.Consistent := by
  unfold course
  cases hplan : plan.mode with
  | none =>
      refine runs_pure ⟨(Quiet.refl _).accounts, fun state => state.program.Consistent, consistent,
        .nothing ?_, fun _ consistent => consistent⟩
      exact fun state _ => (Quiet.refl state).accounts
  | some mode =>
      have hnoted : Accounts workspace.program workspace (PairIndex.noted oracle workspace) :=
        (PairIndex.quiet_noted oracle workspace).accounts
      refine ((PairIndex.runs_build_tracked consistent oracle).imp (fun _ _ h => h) ?_).bind ?_
      · rintro _ _ rfl
        exact ⟨hnoted, consistent⟩
      rintro index _ ⟨rfl, hindex, found, hfinds, hmatched, tracked⟩
      have hrefl : ∀ state : Workspace, state.program.Consistent →
          Accounts workspace.program state state := fun state _ => (Quiet.refl state).accounts
      have hconsistent : ∀ state, Tracked workspace.program found.sites state →
          state.program.Consistent := fun _ tracked => tracked.consistent
      cases mode with
      | remove => exact absurd hplan hmode
      | swap =>
          have hsame := hwithin hplan
          rw [← hindex] at hsame
          refine runs_pure ⟨hnoted, _, tracked, .ofTracked hrefl ?_ ?_, hconsistent⟩
          · exact fun request _ tracked => runs_swapRequest tracked hfinds hmatched plan request
          · exact fun request hmem _ tracked => runs_swapRequest_accounts consistent hfinds tracked
              hmatched plan request (hsame request hmem)
      | shift =>
          refine runs_pure ⟨hnoted, _, tracked, .ofTracked hrefl ?_ ?_, hconsistent⟩
          · exact fun request _ tracked => runs_shiftRequest tracked hmatched plan request
          · exact fun request _ _ tracked =>
              runs_shiftRequest_accounts consistent hfinds tracked hmatched plan request
      | split =>
          refine runs_pure ⟨hnoted, _, tracked, .ofTracked hrefl ?_ ?_, hconsistent⟩
          · exact fun request _ tracked => runs_splitRequest tracked hmatched plan request
          · exact fun request _ _ tracked =>
              runs_splitRequest_accounts consistent hfinds tracked hmatched plan request

/-! ## Tallies

The counts are compared at the end of a run, whether it answered or was stopped. -/

/-- The number of changed functions in the tally of a run is the number of functions in which the
run erased, put in or replaced an instruction, unless pairs are removed or exchanged between
functions. -/
theorem functionsChanged_run {program : Program} {oracle : AliasOracle} {plan : LockPlan}
    (consistent : program.Consistent) (hmode : plan.mode ≠ some .remove)
    (hwithin : plan.mode = some .swap → plan.SwapsWithin (.ofProgram oracle program)) :
    (Tally.ofJournal ((run plan oracle).left { program }).ledger.journal).functionsChanged =
      program.functions.countP fun function =>
        AlteredIn (Session.history [(.lock plan, oracle)] { program }) function.id := by
  have hhistory : Session.history [(.lock plan, oracle)] { program } =
      { program } :: (Operator.lock plan).stages oracle { program } := by
    simp [Session.history, Session.stages]
  have hlast := Session.getLast?_history [(.lock plan, oracle)] { program }
  obtain ⟨hchain, -⟩ :=
    @Operator.isChain_stages (.lock plan) oracle { program } (Accounts program)
      (fun state => state.program.Consistent)
      (@runs_course_accounts { program } oracle plan consistent hmode hwithin)
  rw [hhistory] at hlast ⊢
  obtain ⟨hnamed, hknown⟩ := Accounts.of_isChain hchain hlast
  -- nothing was named at the start
  refine Journal.length_changedFunctions consistent (fun function => ?_) hknown
  exact (hnamed function).trans (or_iff_right List.not_mem_nil)

/-- Three critical sections, two of them in one function.  The program is not to be unfolded, lest
runs on it are evaluated in passing. -/
@[irreducible] def threeSections : Program :=
  Command.run [.declare "pthread_mutex_lock" .status, .declare "pthread_mutex_unlock" .status,
    .addFunction "main" .void [], .addBlock 2 "entry",
    .push 2 0 (.ofOperation (.call (.direct 0) [.global "first"] .status)),
    .push 2 0 (.ofOperation (.call (.direct 1) [.global "first"] .status)),
    .push 2 0 (.ofOperation (.call (.direct 0) [.global "second"] .status)),
    .push 2 0 (.ofOperation (.call (.direct 1) [.global "second"] .status)),
    .push 2 0 (.ofOperation (.ret none)),
    .addFunction "worker" .void [], .addBlock 3 "entry",
    .push 3 0 (.ofOperation (.call (.direct 0) [.global "third"] .status)),
    .push 3 0 (.ofOperation (.call (.direct 1) [.global "third"] .status)),
    .push 3 0 (.ofOperation (.ret none))]
    { name := "sections" }

theorem consistent_threeSections : threeSections.Consistent := by
  unfold threeSections
  exact Command.consistent_run (Command.consistent_empty "sections") _

/-- A plan that exchanges two pairs of plain calls. -/
def swapAt (first second : Nat) : LockPlan :=
  { mode := some .swap, positions := [0, first, 0, second] }

/-- The two pairs of one function are exchanged. -/
theorem functionsChanged_threeSections :
    (Tally.ofJournal ((run (swapAt 0 1) .identity).left
        { program := threeSections }).ledger.journal).functionsChanged =
      (threeSections.functions.countP fun function => AlteredIn
        (Session.history [(.lock (swapAt 0 1), .identity)] { program := threeSections })
        function.id) :=
  functionsChanged_run consistent_threeSections (by decide) fun _ => by decide +kernel

/-- The entry for a removed pair names no function, so a removal counts none, whatever it erases. -/
theorem functionsChanged_remove {program : Program} {oracle : AliasOracle} {plan : LockPlan}
    (consistent : program.Consistent) (calleesExist : program.CalleesExist)
    (hmode : plan.mode = some .remove) :
    (Tally.ofJournal ((run plan oracle).left { program }).ledger.journal).functionsChanged = 0 := by
  obtain ⟨removals, removed, warnings, after, hrun, removes⟩ :=
    @exists_remove { program } plan oracle consistent calleesExist hmode
  have hnone : after.ledger.journal.changedFunctions = [] := by
    refine List.eq_nil_iff_forall_not_mem.mpr fun function hmem => ?_
    obtain ⟨entry, hentry, hnamed⟩ := Journal.mem_changedFunctions_iff.mp hmem
    rw [removes.transformations_eq] at hentry
    obtain ⟨requested, -, rfl⟩ := List.mem_map.mp hentry
    cases hnamed
  rw [Work.left_of_ok hrun, Tally.ofJournal, hnone]
  rfl

/-- A removal alters a function and counts none; an exchange between two functions alters both and
counts one. -/
theorem functionsChanged_too_small :
    threeSections.Consistent ∧ threeSections.Closed ∧
      (removeAt 0).check = .ok () ∧ (swapAt 0 2).check = .ok () ∧
      Runs (run (removeAt 0) .identity) { program := threeSections }
        (fun changed after => changed = true ∧
          (Tally.ofJournal after.ledger.journal).functionsChanged = 0) (fun _ _ => False) ∧
      (threeSections.functions.countP fun function => AlteredIn
        (Session.history [(.lock (removeAt 0), .identity)] { program := threeSections })
        function.id) = 1 ∧
      Runs (run (swapAt 0 2) .identity) { program := threeSections }
        (fun changed after => changed = true ∧
          (Tally.ofJournal after.ledger.journal).functionsChanged = 1) (fun _ _ => False) ∧
      (threeSections.functions.countP fun function => AlteredIn
        (Session.history [(.lock (swapAt 0 2), .identity)] { program := threeSections })
        function.id) = 2 :=
  ⟨consistent_threeSections, consistent_threeSections.closed_iff.mpr (by decide +kernel), by decide,
    by decide, by decide +kernel, by decide +kernel, by decide +kernel, by decide +kernel⟩

end LockOperator

end ConcurrencyFaults

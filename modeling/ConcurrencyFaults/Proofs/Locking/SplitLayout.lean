import ConcurrencyFaults.Proofs.Locking.Splitting
import ConcurrencyFaults.Proofs.Relisting

/-!
# Where a split puts its copies

Both offsets of a split count from the lock, and the second walk goes along an order that the first
copy was put into.

## Strategy

1. `run_split_copies` follows the two insertions one after the other, in the function as it is at
   the time of each.
2. Read in the order from before the run, the two places are the ones that the offsets name,
   provided that the unlock offset is not zero (`getElem?_copyPlace`, `split_layout`).
3. An unlock that is put in ahead of the lock moves the lock itself, from which the second walk
   starts, so there is nothing left to correct.  How far the section then goes on behind the place
   that was named is `resumeDelay`, and two splits are compared by it (`split_resumes_iff`).
-/

namespace ConcurrencyFaults

open Program

/-! ## Two copies

The first walk ends in front of the unlock of the pair, and so does the second, which may be one
step longer but goes along an order with one handle more. -/

/-- The one request of a plan splits a pair at two offsets. -/
structure LockPlan.SplitsAt (plan : LockPlan) (oracle : AliasOracle) (program : Program)
    (pair : LockPair) (address : PairAddress) (unlockOffset lockOffset : Nat) : Prop where
  mode : plan.mode = some .split
  requests : PairAddress.listOf plan.positions = [address]
  found : LockOperator.find? (.ofProgram oracle program) plan.addressing address = some pair
  offsets : LockOperator.splitOffsets? plan.splitOffsets 0 = some (unlockOffset, lockOffset)

/-- The lock of a pair stands at some place and its unlock some steps behind; each of them has one
argument and was not edited before. -/
structure LockPair.Spans (pair : LockPair) (workspace : Workspace) (place distance : Nat) :
    Prop where
  lock_position : workspace.program.position pair.lock.handle = .ok place
  unlock_position : workspace.program.position pair.unlock.handle = .ok (place + distance)
  lock_count : pair.lock.argumentCount = 1
  unlock_count : pair.unlock.argumentCount = 1
  lock_unedited : workspace.ledger.isEdited pair.lock.handle = false
  unlock_unedited : workspace.ledger.isEdited pair.unlock.handle = false

/-- A copy of the unlock of a pair was put in ahead of what stands at one place, and then a copy of
its lock ahead of what stands at another place at that time. -/
def LockPair.CopiedAt (pair : LockPair) (before after : Program) (unlockPlace lockPlace : Nat)
    (unlockCopy lockCopy : Handle) : Prop :=
  ∃ between unlockAnchor lockAnchor,
    (before.handlesIn pair.function)[unlockPlace]? = some unlockAnchor ∧
    before.PutsAhead between unlockAnchor unlockCopy (pair.unlock.asCall pair.unlock.arguments) ∧
    (between.handlesIn pair.function)[lockPlace]? = some lockAnchor ∧
    between.PutsAhead after lockAnchor lockCopy (pair.lock.asCall pair.lock.arguments)

/-- The places of the two calls of a pair in the visitation order, and their distance. -/
theorem LockPair.Spans.places {workspace : Workspace} {pair : LockPair} {oracle : AliasOracle}
    {place distance : Nat} (hspans : pair.Spans workspace place distance)
    (consistent : workspace.program.Consistent) (hpair : pair.Matches oracle workspace.program) :
    (workspace.program.handlesIn pair.function)[place]? = some pair.lock.handle ∧
      (workspace.program.handlesIn pair.function)[place + distance]? = some pair.unlock.handle ∧
      pair.distance workspace.program = .ok distance := by
  obtain ⟨lock, hlock, hlockFunction, -⟩ := hpair.lock_intact.placed?
  obtain ⟨unlock, hunlock, hunlockFunction, -⟩ := hpair.unlock_intact.placed?
  have hsame : lock.function = unlock.function := by
    rw [hlockFunction, hunlockFunction, hpair.function_eq]
  have hlockPlace := (consistent.position_eq_ok_iff hlock).mp hspans.lock_position
  have hunlockPlace := (consistent.position_eq_ok_iff hunlock).mp hspans.unlock_position
  rw [hlockFunction] at hlockPlace
  rw [← hsame, hlockFunction] at hunlockPlace
  refine ⟨hlockPlace, hunlockPlace, ?_⟩
  simp [LockPair.distance, Program.distance, parent_of_placed? hlock, parent_of_placed? hunlock,
    hsame, hspans.lock_position, hspans.unlock_position, bind, Except.bind, pure, Except.pure]

namespace LockOperator

variable {workspace : Workspace} {pair : LockPair} {plan : LockPlan} {address : PairAddress}
  {oracle : AliasOracle} {unlockOffset lockOffset place distance : Nat}

/-- A copy lands ahead of what stands where its offset leads, if the function goes on that far. -/
theorem insertCopy_of_place (consistent : workspace.program.Consistent) {function : FunctionId}
    {lock anchor : Handle} {offset : Nat}
    (hplace : (workspace.program.handlesIn function)[place]? = some lock)
    (hanchor : (workspace.program.handlesIn function)[place + offset]? = some anchor)
    (hwalk : offset ≤ longestWalk) (site : CallSite) (role : String) :
    ∃ program, insertCopy lock site role offset workspace =
        .ok workspace.program.nextHandle { workspace with program } ∧
      workspace.program.PutsAhead program anchor workspace.program.nextHandle
        (site.asCall site.arguments) := by
  have hlt := (List.getElem?_eq_some_iff.mp hanchor).1
  obtain ⟨entry, hentry, -⟩ := consistent.exists_of_getElem? hanchor
  have hstep : workspace.program.step lock (min offset longestWalk : Nat) =
      .ok { target := anchor, clamped := false } := by
    rw [Nat.min_eq_left hwalk]
    rw [← reach_add hlt] at hanchor
    rw [consistent.step_eq hplace hanchor]
    simp only [Except.ok.injEq, Step.mk.injEq, true_and, Bool.or_eq_false_iff,
      decide_eq_false_iff_not]
    omega
  have hinsert : insertRelative lock (site.asCall site.arguments) offset workspace.program =
      .ok (workspace.program.nextHandle, false) (workspace.program.insertEntry
        ⟨site.asCall site.arguments, entry.function, entry.block⟩ (ahead anchor)) := by
    unfold insertRelative
    rw [bind_apply_of_ok (Edit.query_apply_of_ok hstep),
      bind_apply_of_ok (insertBefore_of_placed? consistent hentry (site.asCall site.arguments))]
    rfl
  refine ⟨_, ?_, putsAhead_insertAhead consistent hentry (site.asCall site.arguments)⟩
  unfold insertCopy
  rw [bind_apply_of_ok (Work.edit_apply_of_ok hinsert)]
  rfl

/-- How far the walk of the lock copy is, once the unlock copy is in its place. -/
def correctedOffset (unlockOffset lockOffset : Nat) : Nat :=
  if unlockOffset < lockOffset then lockOffset + 1 else lockOffset

/-- The place that the lock copy is put in, once the unlock copy is in its place. -/
def copyPlace (place unlockOffset lockOffset : Nat) : Nat :=
  (if unlockOffset = 0 then place + 1 else place) + correctedOffset unlockOffset lockOffset

/-- What a split leaves in the ledger. -/
def splitLedger (ledger : Ledger) (address : PairAddress) (pair : LockPair)
    (unlockOffset lockOffset : Nat) (unlockCopy lockCopy : Handle) : Ledger :=
  ((ledger.markEdited unlockCopy).markEdited lockCopy).recordAll
    [splitEntry address pair unlockOffset (correctedOffset unlockOffset lockOffset)]

/-- A pair is split by two copies, whose places are those that the offsets lead to. -/
theorem splitPair_copies (consistent : workspace.program.Consistent)
    (hpair : pair.Matches oracle workspace.program) (hspans : pair.Spans workspace place distance)
    (hunlockOffset : unlockOffset < distance) (hlockOffset : lockOffset < distance)
    (hwalk : distance ≤ longestWalk) (address : PairAddress) :
    ∃ after unlockCopy lockCopy,
      splitPair address pair unlockOffset lockOffset workspace = .ok true {
        program := after
        ledger := splitLedger workspace.ledger address pair unlockOffset lockOffset unlockCopy
          lockCopy } ∧
      pair.CopiedAt workspace.program after (place + unlockOffset)
        (copyPlace place unlockOffset lockOffset) unlockCopy lockCopy := by
  obtain ⟨hlock, hunlock, hdistance⟩ := hspans.places consistent hpair
  have hlength := (List.getElem?_eq_some_iff.mp hunlock).1
  have hobstacle : splitObstacle? pair distance unlockOffset lockOffset = none :=
    splitObstacle?_eq_none_iff.mpr
      ⟨hunlockOffset, hlockOffset, hspans.lock_count, hspans.unlock_count⟩
  -- the first walk goes along the order as it was
  obtain ⟨unlockAnchor, hunlockAnchor⟩ : ∃ anchor,
      (workspace.program.handlesIn pair.function)[place + unlockOffset]? = some anchor :=
    ⟨_, List.getElem?_eq_getElem (by omega)⟩
  obtain ⟨between, hfirst, hputs⟩ := insertCopy_of_place consistent hlock hunlockAnchor (by omega)
    pair.unlock "unlock"
  -- the second along the order with the first copy in it, which may have moved the lock
  have hbetween := hputs.relists.consistent
  have horder := hputs.handlesIn_eq consistent hunlockAnchor
  have hstart : (between.handlesIn pair.function)[
      if unlockOffset = 0 then place + 1 else place]? = some pair.lock.handle := by
    rw [horder]
    split
    · rename_i hzero
      rw [hzero, Nat.add_zero, List.getElem?_insertIdx_of_gt (Nat.lt_succ_self place)]
      exact hlock
    · rw [List.getElem?_insertIdx_of_lt (by omega), hlock]
  have hcorrected : correctedOffset unlockOffset lockOffset ≤ lockOffset + 1 := by
    unfold correctedOffset
    split <;> omega
  obtain ⟨lockAnchor, hlockAnchor⟩ : ∃ anchor, (between.handlesIn pair.function)[
      copyPlace place unlockOffset lockOffset]? = some anchor := by
    refine ⟨_, List.getElem?_eq_getElem ?_⟩
    rw [horder, List.length_insertIdx_of_le_length (by omega)]
    unfold copyPlace
    split <;> omega
  obtain ⟨after, hsecond, hputsSecond⟩ :=
    @insertCopy_of_place { workspace with program := between } _ hbetween _ _ _ _ hstart hlockAnchor
      (Nat.le_trans hcorrected (by omega)) pair.lock "lock"
  refine ⟨after, workspace.program.nextHandle, between.nextHandle, ?_, between, unlockAnchor,
    lockAnchor, hunlockAnchor, hputs, hlockAnchor, hputsSecond⟩
  unfold splitPair
  rw [bind_apply_of_ok (Work.query_apply_of_ok hdistance), hobstacle]
  exact (bind_apply_of_ok hfirst _).trans (bind_apply_of_ok hsecond _)

theorem run_split_copies (consistent : workspace.program.Consistent)
    (hplan : plan.SplitsAt oracle workspace.program pair address unlockOffset lockOffset)
    (hspans : pair.Spans workspace place distance) (hunlockOffset : unlockOffset < distance)
    (hlockOffset : lockOffset < distance) (hwalk : distance ≤ longestWalk) :
    ∃ after unlockCopy lockCopy,
      run plan oracle workspace = .ok true {
        program := after
        ledger := splitLedger (PairIndex.noted oracle workspace).ledger address pair unlockOffset
          lockOffset unlockCopy lockCopy } ∧
      pair.CopiedAt workspace.program after (place + unlockOffset)
        (copyPlace place unlockOffset lockOffset) unlockCopy lockCopy := by
  have calleesExist := PairIndex.calleesExist_of_mem_pairs consistent (mem_of_find? hplan.found)
  have hpair := matches_of_find? consistent calleesExist hplan.found
  let built := PairIndex.noted oracle workspace
  have hbuilt : pair.Spans built place distance := ⟨hspans.lock_position, hspans.unlock_position,
    hspans.lock_count, hspans.unlock_count, hspans.lock_unedited, hspans.unlock_unedited⟩
  obtain ⟨after, unlockCopy, lockCopy, hsplit, hcopied⟩ := @splitPair_copies built pair oracle
    unlockOffset lockOffset place distance consistent hpair hbuilt hunlockOffset hlockOffset hwalk
    address
  refine ⟨after, unlockCopy, lockCopy, ?_, hcopied⟩
  have huntouched := @isPairUntouched_of_unedited built pair hpair.lock_intact hpair.unlock_intact
    hbuilt.lock_unedited hbuilt.unlock_unedited
  have hrequest : splitRequest (.ofProgram oracle workspace.program) plan (address, 0) built =
      .ok true {
        program := after
        ledger := splitLedger built.ledger address pair unlockOffset lockOffset unlockCopy
          lockCopy } := by
    unfold splitRequest
    dsimp only
    rw [bind_apply_of_ok (resolve_of_find? hplan.found)]
    dsimp only
    rw [bind_apply_of_ok huntouched, hplan.offsets]
    exact hsplit
  rw [run_split consistent calleesExist hplan.mode oracle, hplan.requests]
  exact Work.anyOf_singleton hrequest

end LockOperator

/-! ## The layout of a split

Either both copies stand ahead of one instruction or each stands ahead of one of its own. -/

/-- The copies that stand ahead of a handle; that of the lock is in front of that of the unlock. -/
def copiesAhead (unlockAnchor lockAnchor unlockCopy lockCopy handle : Handle) : List Handle :=
  (if handle = lockAnchor then [lockCopy] else []) ++
    (if handle = unlockAnchor then [unlockCopy] else []) ++ [handle]

/-- Copies of the two calls of a pair stand directly ahead of two instructions of its function, and
all else is as it was. -/
structure LockPair.SplitAhead (pair : LockPair) (before after : Program)
    (unlockAnchor lockAnchor unlockCopy lockCopy : Handle) : Prop where
  relists : before.Relists after (copiesAhead unlockAnchor lockAnchor unlockCopy lockCopy)
  unlock_fresh : before.placed? unlockCopy = none
  lock_fresh : before.placed? lockCopy = none
  copies_ne : unlockCopy ≠ lockCopy
  /-- Each copy is in the block of the instruction that it stands ahead of. -/
  unlock_copy : ∃ entry, before.placed? unlockAnchor = some entry ∧
    after.placed? unlockCopy =
      some ⟨pair.unlock.asCall pair.unlock.arguments, pair.function, entry.block⟩
  lock_copy : ∃ entry, before.placed? lockAnchor = some entry ∧
    after.placed? lockCopy =
      some ⟨pair.lock.asCall pair.lock.arguments, pair.function, entry.block⟩
  others : ∀ {handle entry}, before.placed? handle = some entry →
    after.placed? handle = some entry

namespace LockOperator

variable {workspace : Workspace} {pair : LockPair} {plan : LockPlan} {address : PairAddress}
  {oracle : AliasOracle} {unlockOffset lockOffset place distance : Nat}

/-- Behind the lock, the second copy lands where its own offset leads, or on the first copy if the
offsets are the same. -/
theorem getElem?_copyPlace {handles : List Handle} {unlockCopy : Handle}
    (hpos : 1 ≤ unlockOffset) (hlength : place + unlockOffset < handles.length) :
    (handles.insertIdx (place + unlockOffset) unlockCopy)[
        copyPlace place unlockOffset lockOffset]? =
      if lockOffset = unlockOffset then some unlockCopy else handles[place + lockOffset]? := by
  have hplace : copyPlace place unlockOffset lockOffset =
      place + correctedOffset unlockOffset lockOffset := by
    rw [copyPlace, if_neg (by omega)]
  rw [hplace]
  unfold correctedOffset
  rcases Nat.lt_trichotomy lockOffset unlockOffset with hlt | rfl | hgt
  · rw [if_neg (by omega), if_neg (by omega), List.getElem?_insertIdx_of_lt (by omega)]
  · rw [if_neg (by omega), if_pos rfl, List.getElem?_insertIdx_self, if_pos (by omega)]
  · rw [if_pos hgt, if_neg (by omega), List.getElem?_insertIdx_of_gt (by omega)]
    rfl

/-- Of two copies that are put in ahead of one instruction the second is in front. -/
theorem flatMap_instead_same {anchor unlockCopy lockCopy handle : Handle}
    (hnew : handle ≠ unlockCopy) :
    (instead anchor [unlockCopy, anchor] handle).flatMap
        (instead unlockCopy [lockCopy, unlockCopy]) =
      copiesAhead anchor anchor unlockCopy lockCopy handle := by
  by_cases hanchor : handle = anchor
  · subst hanchor
    simp [copiesAhead, instead_of_ne hnew]
  · simp [copiesAhead, instead_of_ne hanchor, instead_of_ne hnew, hanchor]

theorem flatMap_instead_other {unlockAnchor lockAnchor unlockCopy lockCopy handle : Handle}
    (hanchors : unlockAnchor ≠ lockAnchor) (hnew : unlockCopy ≠ lockAnchor) :
    (instead unlockAnchor [unlockCopy, unlockAnchor] handle).flatMap
        (instead lockAnchor [lockCopy, lockAnchor]) =
      copiesAhead unlockAnchor lockAnchor unlockCopy lockCopy handle := by
  by_cases hunlock : handle = unlockAnchor
  · subst hunlock
    simp [copiesAhead, instead_of_ne hanchors, instead_of_ne hnew, hanchors]
  · by_cases hlock : handle = lockAnchor
    · subst hlock
      simp [copiesAhead, instead_of_ne hunlock, hunlock]
    · simp [copiesAhead, instead_of_ne hunlock, instead_of_ne hlock, hunlock, hlock]

/-- The copies are new, and that of the lock is in the function of the pair. -/
theorem fresh_of_copiedAt {before after : Program} {unlockPlace lockPlace : Nat}
    {unlockCopy lockCopy : Handle}
    (hcopied : pair.CopiedAt before after unlockPlace lockPlace unlockCopy lockCopy) :
    before.placed? unlockCopy = none ∧ before.placed? lockCopy = none ∧
      ∃ block, after.placed? lockCopy =
        some ⟨pair.lock.asCall pair.lock.arguments, pair.function, block⟩ := by
  obtain ⟨between, unlockAnchor, lockAnchor, -, hputs, hlockAnchor, hputsSecond⟩ := hcopied
  obtain ⟨entry, hentry, hfunction⟩ :=
    hputs.relists.consistent.exists_of_getElem? hlockAnchor
  refine ⟨hputs.fresh, ?_, entry.block, ?_⟩
  · rw [Option.eq_none_iff_forall_ne_some]
    exact fun entry hplaced =>
      ne_of_placed? (hputs.placed?_of_placed? hplaced) hputsSecond.fresh rfl
  · rw [hputsSecond.placed?_new hentry, hfunction]

/-- Read in the order from before, both copies stand where the offsets say. -/
theorem splitAhead_of_copiedAt {before after : Program} {unlockCopy lockCopy : Handle}
    (consistent : before.Consistent) (hpos : 1 ≤ unlockOffset)
    (hend : place + lockOffset < (before.handlesIn pair.function).length)
    (hcopied : pair.CopiedAt before after (place + unlockOffset)
      (copyPlace place unlockOffset lockOffset) unlockCopy lockCopy) :
    ∃ unlockAnchor lockAnchor,
      (before.handlesIn pair.function)[place + unlockOffset]? = some unlockAnchor ∧
      (before.handlesIn pair.function)[place + lockOffset]? = some lockAnchor ∧
      pair.SplitAhead before after unlockAnchor lockAnchor unlockCopy lockCopy := by
  obtain ⟨-, hfresh, -⟩ := fresh_of_copiedAt hcopied
  obtain ⟨between, unlockAnchor, second, hunlockAnchor, hputs, hsecond, hputsSecond⟩ := hcopied
  obtain ⟨lockAnchor, hlockAnchor⟩ : ∃ anchor,
      (before.handlesIn pair.function)[place + lockOffset]? = some anchor :=
    ⟨_, List.getElem?_eq_getElem hend⟩
  obtain ⟨unlockEntry, hunlockEntry, hunlockFunction⟩ := consistent.exists_of_getElem? hunlockAnchor
  obtain ⟨lockEntry, hlockEntry, hlockFunction⟩ := consistent.exists_of_getElem? hlockAnchor
  have hunlockCopy := hputs.placed?_new hunlockEntry
  have hnew : unlockCopy ≠ lockAnchor := (ne_of_placed? hlockEntry hputs.fresh).symm
  -- the second copy is put ahead of the first exactly if the offsets are the same
  have hcases : unlockAnchor = lockAnchor ∧ second = unlockCopy ∨
      unlockAnchor ≠ lockAnchor ∧ second = lockAnchor := by
    rw [hputs.handlesIn_eq consistent hunlockAnchor,
      getElem?_copyPlace hpos (List.getElem?_eq_some_iff.mp hunlockAnchor).1,
      hlockAnchor] at hsecond
    by_cases hsame : lockOffset = unlockOffset
    · rw [if_pos hsame, Option.some.injEq] at hsecond
      rw [hsame, hunlockAnchor, Option.some.injEq] at hlockAnchor
      exact Or.inl ⟨hlockAnchor, hsecond.symm⟩
    · rw [if_neg hsame, Option.some.injEq] at hsecond
      refine Or.inr ⟨?_, hsecond.symm⟩
      rintro rfl
      have hplaces := (List.getElem?_inj hend (consistent.nodup_handlesIn _)).mp
        (hlockAnchor.trans hunlockAnchor.symm)
      omega
  refine ⟨unlockAnchor, lockAnchor, hunlockAnchor, hlockAnchor, ?_⟩
  refine ⟨?_, hputs.fresh, hfresh, ne_of_placed? hunlockCopy hputsSecond.fresh,
    ⟨unlockEntry, hunlockEntry, ?_⟩, ⟨lockEntry, hlockEntry, ?_⟩, fun hplaced =>
      hputsSecond.placed?_of_placed? (hputs.placed?_of_placed? hplaced)⟩
  · refine (hputs.relists.trans hputsSecond.relists).congr fun handle hmem => ?_
    obtain ⟨entry, hplaced⟩ := consistent.mem_handles_iff_placed?.mp hmem
    rcases hcases with ⟨rfl, rfl⟩ | ⟨hanchors, rfl⟩
    · exact flatMap_instead_same (ne_of_placed? hplaced hputs.fresh)
    · exact flatMap_instead_other hanchors hnew
  · rw [hputsSecond.placed?_of_placed? hunlockCopy, hunlockFunction]
  · rcases hcases with ⟨rfl, rfl⟩ | ⟨-, rfl⟩
    · -- the first copy is in the block of the instruction that both stand ahead of
      rw [hputsSecond.placed?_new hunlockCopy, hunlockFunction,
        Option.some.inj (hunlockEntry.symm.trans hlockEntry)]
    · rw [hputsSecond.placed?_new (hputs.placed?_of_placed? hlockEntry), hlockFunction]

/-- A split at offsets of which that of the unlock is not zero puts each copy directly ahead of the
instruction that its offset names in the order from before, and warns of nothing.  A function that
fits in memory is no longer than the longest walk, which `hwalk` says of the pair. -/
theorem split_layout (consistent : workspace.program.Consistent)
    (hplan : plan.SplitsAt oracle workspace.program pair address unlockOffset lockOffset)
    (hspans : pair.Spans workspace place distance) (hpos : 1 ≤ unlockOffset)
    (hunlockOffset : unlockOffset < distance) (hlockOffset : lockOffset < distance)
    (hwalk : distance ≤ longestWalk) :
    ∃ after unlockAnchor lockAnchor unlockCopy lockCopy,
      run plan oracle workspace = .ok true after ∧
      (workspace.program.handlesIn pair.function)[place + unlockOffset]? = some unlockAnchor ∧
      (workspace.program.handlesIn pair.function)[place + lockOffset]? = some lockAnchor ∧
      after.program.handlesIn pair.function = (workspace.program.handlesIn pair.function).flatMap
        (copiesAhead unlockAnchor lockAnchor unlockCopy lockCopy) ∧
      pair.SplitAhead workspace.program after.program unlockAnchor lockAnchor unlockCopy lockCopy ∧
      after.ledger = splitLedger (PairIndex.noted oracle workspace).ledger address pair unlockOffset
        lockOffset unlockCopy lockCopy := by
  have calleesExist := PairIndex.calleesExist_of_mem_pairs consistent (mem_of_find? hplan.found)
  have hpair := matches_of_find? consistent calleesExist hplan.found
  obtain ⟨-, hunlock, -⟩ := hspans.places consistent hpair
  have hlength := (List.getElem?_eq_some_iff.mp hunlock).1
  obtain ⟨after, unlockCopy, lockCopy, hrun, hcopied⟩ :=
    run_split_copies consistent hplan hspans hunlockOffset hlockOffset hwalk
  obtain ⟨unlockAnchor, lockAnchor, hunlockAnchor, hlockAnchor, hsplit⟩ :=
    splitAhead_of_copiedAt consistent hpos (by omega) hcopied
  exact ⟨_, unlockAnchor, lockAnchor, unlockCopy, lockCopy, hrun, hunlockAnchor, hlockAnchor,
    hsplit.relists.handlesIn_eq _, hsplit, rfl⟩

/-- The pair of `heldSection`. -/
def heldPair : LockPair where
  family := .posix
  lock := {
    handle := ⟨0, 0⟩, function := 2, block := 0, target := 0, symbol := "pthread_mutex_lock"
    name := "pthread_mutex_lock", arguments := [.global "mutex"], result := .status
    attributes := .none, location := none, form := .call }
  unlock := {
    handle := ⟨3, 0⟩, function := 2, block := 0, target := 1, symbol := "pthread_mutex_unlock"
    name := "pthread_mutex_unlock", arguments := [.global "mutex"], result := .status
    attributes := .none, location := none, form := .call }

/-- A plan that splits the first pair of calls. -/
def splitAt (unlockOffset lockOffset : Nat) : LockPlan :=
  { mode := some .split, positions := [0, 0], splitOffsets := [unlockOffset, lockOffset] }

theorem splitsAt_heldPair (unlockOffset lockOffset : Nat) :
    (splitAt unlockOffset lockOffset).SplitsAt .identity heldSection heldPair ⟨0, 0⟩ unlockOffset
      lockOffset where
  mode := rfl
  requests := rfl
  found := show find? (.ofProgram .identity heldSection) .category ⟨0, 0⟩ = some heldPair by
    decide +kernel
  offsets := rfl

theorem spans_heldPair : heldPair.Spans { program := heldSection } 0 3 := by
  constructor <;> decide +kernel

/-- The unlock comes after the first instruction of the section, the lock after the second. -/
theorem split_layout_heldSection :
    ∃ after unlockAnchor lockAnchor unlockCopy lockCopy,
      run (splitAt 2 1) .identity { program := heldSection } = .ok true after ∧
      (heldSection.handlesIn 2)[2]? = some unlockAnchor ∧
      (heldSection.handlesIn 2)[1]? = some lockAnchor ∧
      after.program.handlesIn 2 = (heldSection.handlesIn 2).flatMap
        (copiesAhead unlockAnchor lockAnchor unlockCopy lockCopy) ∧
      heldPair.SplitAhead heldSection after.program unlockAnchor lockAnchor unlockCopy lockCopy ∧
      after.ledger = splitLedger (PairIndex.noted .identity { program := heldSection }).ledger
        ⟨0, 0⟩ heldPair 2 1 unlockCopy lockCopy :=
  @split_layout { program := heldSection } heldPair (splitAt 2 1) ⟨0, 0⟩ .identity 2 1 0 3
    consistent_heldSection (splitsAt_heldPair 2 1) spans_heldPair (by decide) (by decide)
    (by decide) (by decide)

end LockOperator

/-! ## Where the section goes on

Where a copy stands is told by the first instruction behind it that was there before, so that new
calls do not count. -/

/-- The instruction that follows a new one, of those that were in the program before. -/
def Program.resumesAt? (before after : Program) (function : FunctionId) (copy : Handle) :
    Option Handle :=
  ((after.handlesIn function).dropWhile (· != copy)).find? before.isLive

/-- A new copy of the lock of a pair is there, and the section goes on at some instruction. -/
structure LockPair.ResumesAt (pair : LockPair) (before after : Program)
    (lockCopy resumed : Handle) : Prop where
  fresh : before.placed? lockCopy = none
  placed? : ∃ block, after.placed? lockCopy =
    some ⟨pair.lock.asCall pair.lock.arguments, pair.function, block⟩
  resumes : before.resumesAt? after pair.function lockCopy = some resumed

section Lists

variable {handles : List Handle} {copy : Handle} {kept : Handle → Bool} {place : Nat}

/-- From an inserted handle on there are those that stood at its place and behind. -/
private theorem find?_dropWhile_insertIdx (hnot : copy ∉ handles) (hcopy : kept copy = false)
    (hplace : place ≤ handles.length) :
    ((handles.insertIdx place copy).dropWhile (· != copy)).find? kept =
      (handles.drop place).find? kept := by
  induction handles generalizing place with
  | nil =>
      obtain rfl : place = 0 := Nat.le_zero.mp hplace
      simp [hcopy]
  | cons first rest ih =>
      rw [List.mem_cons, not_or] at hnot
      cases place with
      | zero => simp [hcopy]
      | succ place =>
          have hfirst : first ≠ copy := Ne.symm hnot.1
          rw [List.insertIdx_succ_cons, List.dropWhile_cons_of_pos (by simpa using hfirst),
            List.drop_succ_cons, ih hnot.2 (Nat.le_of_succ_le_succ hplace)]

private theorem find?_drop {start : Nat} (hkept : ∀ handle ∈ handles, kept handle = true) :
    (handles.drop start).find? kept = handles[start]? := by
  rw [← List.head?_drop]
  cases hdrop : handles.drop start with
  | nil => rfl
  | cons first rest =>
      have hmem : first ∈ handles := List.mem_of_mem_drop (hdrop ▸ List.mem_cons_self ..)
      rw [List.find?_cons_of_pos (hkept first hmem), List.head?_cons]

/-- Looking for the first handle that is kept passes over the one inserted handle that is not. -/
private theorem find?_drop_insertIdx {start : Nat} (hcopy : kept copy = false)
    (hkept : ∀ handle ∈ handles, kept handle = true) :
    ((handles.insertIdx place copy).drop start).find? kept =
      handles[if place < start then start - 1 else start]? := by
  induction handles generalizing place start with
  | nil => cases place <;> cases start <;> simp [hcopy]
  | cons first rest ih =>
      have hfirst := hkept first (List.mem_cons_self ..)
      have hrest := fun handle hmem => hkept handle (List.mem_cons_of_mem first hmem)
      cases place with
      | zero =>
          cases start with
          | zero => simp [hcopy, hfirst]
          | succ start => simpa using find?_drop hkept
      | succ place =>
          cases start with
          | zero => simp [hfirst]
          | succ start =>
              rw [List.insertIdx_succ_cons, List.drop_succ_cons, ih hrest]
              by_cases hlt : place < start
              · rw [if_pos hlt, if_pos (Nat.succ_lt_succ hlt)]
                cases start with
                | zero => omega
                | succ start => rfl
              · rw [if_neg hlt, if_neg fun hsucc => hlt (Nat.lt_of_succ_lt_succ hsucc)]
                rfl

end Lists

namespace LockOperator

variable {workspace : Workspace} {pair : LockPair} {plan : LockPlan} {address : PairAddress}
  {oracle : AliasOracle} {unlockOffset lockOffset place distance : Nat}

/-- What stands behind the lock copy, of those that stood in the function before. -/
theorem resumesAt?_of_copiedAt {before after : Program} {unlockPlace lockPlace : Nat}
    {unlockCopy lockCopy : Handle} (consistent : before.Consistent)
    (hcopied : pair.CopiedAt before after unlockPlace lockPlace unlockCopy lockCopy) :
    before.resumesAt? after pair.function lockCopy =
      (before.handlesIn pair.function)[
        if unlockPlace < lockPlace then lockPlace - 1 else lockPlace]? := by
  obtain ⟨hunlockFresh, hlockFresh, -⟩ := fresh_of_copiedAt hcopied
  obtain ⟨between, unlockAnchor, lockAnchor, hunlockAnchor, hputs, hlockAnchor, hputsSecond⟩ :=
    hcopied
  have hbetween := hputs.relists.consistent
  have hdead : before.isLive unlockCopy = false ∧ before.isLive lockCopy = false := by
    simp [Program.isLive, hunlockFresh, hlockFresh]
  have hnew : lockCopy ∉ between.handlesIn pair.function := by
    rw [hbetween.mem_handlesIn_iff, functionOf?, hputsSecond.fresh]
    simp
  have hlive : ∀ handle ∈ before.handlesIn pair.function, before.isLive handle = true := by
    intro handle hmem
    obtain ⟨place, hplace⟩ := List.mem_iff_getElem?.mp hmem
    obtain ⟨entry, hplaced, -⟩ := consistent.exists_of_getElem? hplace
    rw [Program.isLive, hplaced]
    rfl
  have hend := Nat.le_of_lt (List.getElem?_eq_some_iff.mp hlockAnchor).1
  calc before.resumesAt? after pair.function lockCopy
    _ = ((between.handlesIn pair.function).drop lockPlace).find? before.isLive := by
      rw [resumesAt?, hputsSecond.handlesIn_eq hbetween hlockAnchor,
        find?_dropWhile_insertIdx hnew hdead.2 hend]
    _ = (before.handlesIn pair.function)[
          if unlockPlace < lockPlace then lockPlace - 1 else lockPlace]? := by
      rw [hputs.handlesIn_eq consistent hunlockAnchor, find?_drop_insertIdx hdead.1 hlive]

/-- How many steps behind the place that a lock offset names the section goes on. -/
def resumeDelay (unlockOffset lockOffset : Nat) : Nat :=
  if unlockOffset = 0 ∧ 0 < lockOffset then 1 else 0

/-- The place of the lock copy, read in the order from before. -/
theorem copyPlace_eq : (if place + unlockOffset < copyPlace place unlockOffset lockOffset then
      copyPlace place unlockOffset lockOffset - 1 else copyPlace place unlockOffset lockOffset) =
    place + lockOffset + resumeDelay unlockOffset lockOffset := by
  unfold copyPlace correctedOffset resumeDelay
  split <;> split <;> split <;> split <;> omega

/-- Behind the lock copy the section goes on where the lock offset says, or one instruction
later. -/
theorem split_resumes (consistent : workspace.program.Consistent)
    (hplan : plan.SplitsAt oracle workspace.program pair address unlockOffset lockOffset)
    (hspans : pair.Spans workspace place distance) (hunlockOffset : unlockOffset < distance)
    (hlockOffset : lockOffset < distance) (hwalk : distance ≤ longestWalk) :
    ∃ after lockCopy resumed, run plan oracle workspace = .ok true after ∧
      pair.ResumesAt workspace.program after.program lockCopy resumed ∧
      (workspace.program.handlesIn pair.function)[
        place + lockOffset + resumeDelay unlockOffset lockOffset]? = some resumed := by
  have calleesExist := PairIndex.calleesExist_of_mem_pairs consistent (mem_of_find? hplan.found)
  have hpair := matches_of_find? consistent calleesExist hplan.found
  obtain ⟨-, hunlock, -⟩ := hspans.places consistent hpair
  have hlength := (List.getElem?_eq_some_iff.mp hunlock).1
  obtain ⟨after, unlockCopy, lockCopy, hrun, hcopied⟩ :=
    run_split_copies consistent hplan hspans hunlockOffset hlockOffset hwalk
  obtain ⟨-, hfresh, hplaced⟩ := fresh_of_copiedAt hcopied
  have hresumes := resumesAt?_of_copiedAt consistent hcopied
  rw [copyPlace_eq] at hresumes
  obtain ⟨resumed, hresumed⟩ : ∃ resumed, (workspace.program.handlesIn pair.function)[
      place + lockOffset + resumeDelay unlockOffset lockOffset]? = some resumed := by
    refine ⟨_, List.getElem?_eq_getElem ?_⟩
    unfold resumeDelay
    split <;> omega
  exact ⟨_, lockCopy, resumed, hrun, ⟨hfresh, hplaced, hresumes.trans hresumed⟩, hresumed⟩

/-- Of two splits of one pair that agree on the lock offset, the sections go on at the same
instruction exactly if the lock copy is put in at the lock itself, or neither or both of the unlock
copies are.  A split whose unlock offset alone is zero goes on one instruction later. -/
theorem split_resumes_iff {first second : LockPlan} {firstAddress secondAddress : PairAddress}
    {firstOffset secondOffset : Nat} (consistent : workspace.program.Consistent)
    (hfirst : first.SplitsAt oracle workspace.program pair firstAddress firstOffset lockOffset)
    (hsecond : second.SplitsAt oracle workspace.program pair secondAddress secondOffset lockOffset)
    (hspans : pair.Spans workspace place distance) (hfirstOffset : firstOffset < distance)
    (hsecondOffset : secondOffset < distance) (hlockOffset : lockOffset < distance)
    (hwalk : distance ≤ longestWalk) :
    ∃ afterFirst firstCopy firstResumed afterSecond secondCopy secondResumed,
      run first oracle workspace = .ok true afterFirst ∧
      run second oracle workspace = .ok true afterSecond ∧
      pair.ResumesAt workspace.program afterFirst.program firstCopy firstResumed ∧
      pair.ResumesAt workspace.program afterSecond.program secondCopy secondResumed ∧
      (firstResumed = secondResumed ↔ lockOffset = 0 ∨ (firstOffset = 0 ↔ secondOffset = 0)) := by
  obtain ⟨afterFirst, firstCopy, firstResumed, hrunFirst, hresumesFirst, hplaceFirst⟩ :=
    split_resumes consistent hfirst hspans hfirstOffset hlockOffset hwalk
  obtain ⟨afterSecond, secondCopy, secondResumed, hrunSecond, hresumesSecond, hplaceSecond⟩ :=
    split_resumes consistent hsecond hspans hsecondOffset hlockOffset hwalk
  refine ⟨afterFirst, firstCopy, firstResumed, afterSecond, secondCopy, secondResumed, hrunFirst,
    hrunSecond, hresumesFirst, hresumesSecond, ?_⟩
  have hsame : firstResumed = secondResumed ↔
      place + lockOffset + resumeDelay firstOffset lockOffset =
        place + lockOffset + resumeDelay secondOffset lockOffset := by
    rw [← List.getElem?_inj (List.getElem?_eq_some_iff.mp hplaceFirst).1
      (consistent.nodup_handlesIn _), hplaceFirst, hplaceSecond, Option.some.injEq]
  rw [hsame]
  unfold resumeDelay
  split <;> split <;> omega

theorem split_resumes_iff_heldSection :
    ∃ afterFirst firstCopy firstResumed afterSecond secondCopy secondResumed,
      run (splitAt 1 1) .identity { program := heldSection } = .ok true afterFirst ∧
      run (splitAt 2 1) .identity { program := heldSection } = .ok true afterSecond ∧
      heldPair.ResumesAt heldSection afterFirst.program firstCopy firstResumed ∧
      heldPair.ResumesAt heldSection afterSecond.program secondCopy secondResumed ∧
      (firstResumed = secondResumed ↔ (1 : Nat) = 0 ∨ ((1 : Nat) = 0 ↔ (2 : Nat) = 0)) :=
  @split_resumes_iff { program := heldSection } heldPair .identity 1 0 3 (splitAt 1 1) (splitAt 2 1)
    ⟨0, 0⟩ ⟨0, 0⟩ 1 2 consistent_heldSection (splitsAt_heldPair 1 1) (splitsAt_heldPair 2 1)
    spans_heldPair (by decide) (by decide) (by decide) (by decide)

/-- Both plans are to put the lock copy one instruction behind the lock.  With the unlock copy ahead
of the lock the section goes on at the second instruction behind the lock, otherwise at the
first. -/
theorem split_resumes_later :
    heldSection.Consistent ∧ heldPair.Spans { program := heldSection } 0 3 ∧
    (splitAt 0 1).check = .ok () ∧ (splitAt 1 1).check = .ok () ∧
    ∃ afterFirst firstCopy afterSecond secondCopy,
      run (splitAt 0 1) .identity { program := heldSection } = .ok true afterFirst ∧
      run (splitAt 1 1) .identity { program := heldSection } = .ok true afterSecond ∧
      heldPair.ResumesAt heldSection afterFirst.program firstCopy ⟨2, 0⟩ ∧
      heldPair.ResumesAt heldSection afterSecond.program secondCopy ⟨1, 0⟩ := by
  have hruns : ∀ unlockOffset < 3, ∀ resumed,
      (heldSection.handlesIn heldPair.function)[0 + 1 + resumeDelay unlockOffset 1]? =
        some resumed →
      ∃ after lockCopy,
        run (splitAt unlockOffset 1) .identity { program := heldSection } = .ok true after ∧
        heldPair.ResumesAt heldSection after.program lockCopy resumed := by
    intro unlockOffset hunlockOffset resumed hplace
    obtain ⟨after, lockCopy, found, hrun, hresumes, hfound⟩ :=
      @split_resumes { program := heldSection } heldPair (splitAt unlockOffset 1) ⟨0, 0⟩ .identity
        unlockOffset 1 0 3 consistent_heldSection (splitsAt_heldPair unlockOffset 1) spans_heldPair
        hunlockOffset (by decide) (by decide)
    rw [hplace, Option.some.injEq] at hfound
    exact ⟨after, lockCopy, hrun, hfound ▸ hresumes⟩
  obtain ⟨afterFirst, firstCopy, hfirst, hfirstResumes⟩ :=
    hruns 0 (by decide) ⟨2, 0⟩ (by decide +kernel)
  obtain ⟨afterSecond, secondCopy, hsecond, hsecondResumes⟩ :=
    hruns 1 (by decide) ⟨1, 0⟩ (by decide +kernel)
  exact ⟨consistent_heldSection, spans_heldPair, rfl, rfl, afterFirst, firstCopy, afterSecond,
    secondCopy, hfirst, hsecond, hfirstResumes, hsecondResumes⟩

end LockOperator

end ConcurrencyFaults

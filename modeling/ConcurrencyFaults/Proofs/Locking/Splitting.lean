import ConcurrencyFaults.Proofs.Locking.Outcomes

/-!
# Splitting a pair again

A split marks the two calls that it inserts, but neither call of the pair itself.  The check that
keeps a call from being edited twice therefore never sees that a pair was split: what a request for
a pair does is decided by the marks from before the run and by the distance of the pair as it then
is, and by nothing that the earlier requests of the run did (`split_next`).  Only a request whose
offsets do not fit, or whose pair was marked before the run, is passed over with a warning.

## Strategy

* An insertion puts in one new handle and leaves all else (`Program.Inserts`), so a split leaves
  the calls of all pairs, the one that it splits included.
* `Spared` is the invariant over the requests of a run: of what was there at the start nothing was
  erased or marked.  Both outcomes of a request keep it (`Spared.splits`, `Spared.passedOver`).
* Under it the outcome of a request is decided by the marks of the start (`splitRequest_of_find?`),
  which `split_next` says of the last of any number of requests.
-/

namespace ConcurrencyFaults

open Program

/-! ## Inserting one copy

Only the function counts here, not the place in it. -/

/-- One instruction was put in, under a handle that named nothing, and all else is as it was. -/
structure Program.Inserts (before after : Program) (handle : Handle) (instruction : Instruction)
    (function : FunctionId) : Prop where
  consistent : after.Consistent
  fresh : before.placed? handle = none
  placed? : ∃ block, after.placed? =
    Function.update before.placed? handle (some ⟨instruction, function, block⟩)
  handles : after.handles.Perm (handle :: before.handles)

namespace Program

variable {program before after : Program} {handle : Handle} {entry : Placed}

theorem inserts_insertAhead (consistent : program.Consistent)
    (hplaced : program.placed? handle = some entry) (instruction : Instruction) :
    program.Inserts (program.insertEntry ⟨instruction, entry.function, entry.block⟩ (ahead handle))
      program.nextHandle instruction entry.function := by
  have hfree := consistent.toFreeListExact
  have hafter := consistent.insertAhead hplaced instruction
  have hupdate := @placed?_insertEntry program ⟨instruction, entry.function, entry.block⟩ hfree
    (ahead handle)
  have hfresh := placed?_nextHandle hfree
  refine ⟨hafter, hfresh, ⟨entry.block, hupdate⟩, ?_⟩
  have hnew : program.nextHandle ∉ program.handles := by
    rw [consistent.mem_handles_iff_placed?, hfresh]
    simp
  refine (List.perm_ext_iff_of_nodup hafter.handles_nodup
    (List.nodup_cons.mpr ⟨hnew, consistent.handles_nodup⟩)).mpr fun other => ?_
  rw [hafter.mem_handles_iff_placed?, List.mem_cons, consistent.mem_handles_iff_placed?, hupdate]
  by_cases hother : other = program.nextHandle
  · simp [hother]
  · simp [hother]

theorem Inserts.placed?_of_placed? {instruction : Instruction} {function : FunctionId}
    {other : Handle} (hinserts : before.Inserts after handle instruction function)
    (hplaced : before.placed? other = some entry) : after.placed? other = some entry := by
  obtain ⟨block, hupdate⟩ := hinserts.placed?
  have hne : other ≠ handle := by
    rintro rfl
    rw [hinserts.fresh] at hplaced
    cases hplaced
  rw [hupdate, Function.update_of_ne hne, hplaced]

theorem Inserts.kept {instruction : Instruction} {function : FunctionId}
    (hinserts : before.Inserts after handle instruction function) : before.Kept after [] :=
  ⟨hinserts.consistent, fun hplaced _ => ⟨_, hinserts.placed?_of_placed? hplaced, rfl, rfl⟩⟩

end Program

namespace LockOperator

variable {start state before after workspace : Workspace} {site lock : CallSite} {pair : LockPair}
  {index : PairIndex} {address : PairAddress}

/-- A copy is put into the function of the lock that the offset counts from. -/
theorem insertCopy_of_intact (consistent : workspace.program.Consistent)
    (hlock : lock.Intact workspace.program) (site : CallSite) (role : String) (offset : Nat) :
    ∃ program warnings,
      insertCopy lock.handle site role offset workspace =
        .ok workspace.program.nextHandle
          { program, ledger := workspace.ledger.recordAll warnings } ∧
      workspace.program.Inserts program workspace.program.nextHandle
        (site.asCall site.arguments) lock.function ∧
      ∀ warning ∈ warnings, warning.isTransformation = false := by
  obtain ⟨entry, hplaced, hfunction, -⟩ := hlock.placed?
  obtain ⟨anchor, target, clamped, hanchor, hsame, hinsert⟩ :=
    insertRelative_of_placed? consistent hplaced (site.asCall site.arguments) offset
  have hinserts := inserts_insertAhead consistent hanchor (site.asCall site.arguments)
  rw [hsame, hfunction] at hinserts
  rw [hsame, hfunction] at hinsert
  unfold insertCopy
  rw [bind_apply_of_ok (Work.edit_apply_of_ok hinsert)]
  cases clamped with
  | false =>
      refine ⟨_, [], ?_, hinserts, by simp⟩
      rw [Ledger.recordAll_nil]
      rfl
  | true =>
      refine ⟨_, [_], rfl, hinserts, ?_⟩
      intro warning hmem
      rw [List.mem_singleton.mp hmem]
      rfl

end LockOperator

/-! ## Splitting one pair

The distance is measured as the program is at the time, with the copies of earlier splits in it. -/

/-- What a pair must be like to be split at the offsets of a request: they are given, they lie in
front of its unlock as the program now is, and both calls have one argument. -/
def LockPair.Fits (pair : LockPair) (offsets : Option (Nat × Nat)) (program : Program) : Prop :=
  ∃ unlockOffset lockOffset distance, offsets = some (unlockOffset, lockOffset) ∧
    pair.distance program = .ok distance ∧ unlockOffset < distance ∧ lockOffset < distance ∧
    pair.lock.argumentCount = 1 ∧ pair.unlock.argumentCount = 1

/-- A copy of each call was put into the function of the pair and marked, and the split was
recorded. -/
structure LockPair.Splits (pair : LockPair) (before after : Workspace) : Prop where
  inserted : ∃ between unlockCopy lockCopy,
    before.program.Inserts between unlockCopy (pair.unlock.asCall pair.unlock.arguments)
      pair.function ∧
    between.Inserts after.program lockCopy (pair.lock.asCall pair.lock.arguments) pair.function ∧
    ∀ handle, after.ledger.isEdited handle ↔
      handle = lockCopy ∨ handle = unlockCopy ∨ before.ledger.isEdited handle
  recorded : ∃ entry : Entry, entry.kind = .pairSplit ∧
    after.ledger.journal.transformations = before.ledger.journal.transformations ++ [entry]

/-- Nothing was done but one warning. -/
def PassedOver (before after : Workspace) : Prop :=
  after.program = before.program ∧
    ∃ message, after.ledger = before.ledger.recordAll [.warning message]

namespace LockOperator

variable {start state before after workspace : Workspace} {pair : LockPair} {index : PairIndex}
  {address : PairAddress}

theorem splitObstacle?_eq_none_iff {distance unlockOffset lockOffset : Nat} :
    splitObstacle? pair distance unlockOffset lockOffset = none ↔
      unlockOffset < distance ∧ lockOffset < distance ∧
        pair.lock.argumentCount = 1 ∧ pair.unlock.argumentCount = 1 := by
  unfold splitObstacle?
  extract_lets tooFar
  split
  · rename_i hunlock
    refine iff_of_false (by simp) fun hfits => ?_
    exact Nat.not_lt.mpr hunlock hfits.1
  · rename_i hunlock
    split
    · rename_i hlock
      refine iff_of_false (by simp) fun hfits => ?_
      exact Nat.not_lt.mpr hlock hfits.2.1
    · rename_i hlock
      simp [Nat.lt_of_not_ge hunlock, Nat.lt_of_not_ge hlock]

/-- The entry for a split. -/
def splitEntry (address : PairAddress) (pair : LockPair) (unlockOffset lockOffset : Nat) :
    Entry where
  kind := .pairSplit
  function := some pair.function
  pass := some name
  message := "split pair " ++ address.text ++
    s!": unlock after {unlockOffset}, lock after {lockOffset}"

/-- Two copies that have nothing in their way are put in one after the other. -/
theorem exists_splitPair (consistent : workspace.program.Consistent)
    (hlock : pair.lock.Intact workspace.program) {distance unlockOffset lockOffset : Nat}
    (hdistance : pair.distance workspace.program = .ok distance)
    (hobstacle : splitObstacle? pair distance unlockOffset lockOffset = none)
    (address : PairAddress) :
    ∃ after, splitPair address pair unlockOffset lockOffset workspace = .ok true after ∧
      pair.Splits workspace after := by
  obtain ⟨between, warnings, hfirst, hinsertsFirst, hwarnings⟩ :=
    insertCopy_of_intact consistent hlock pair.unlock "unlock" unlockOffset
  let second := if unlockOffset < lockOffset then lockOffset + 1 else lockOffset
  let copied : Workspace := { program := between, ledger := workspace.ledger.recordAll warnings }
  obtain ⟨last, warningsLater, hsecond, hinsertsSecond, hwarningsLater⟩ :=
    @insertCopy_of_intact copied pair.lock hinsertsFirst.consistent
      (hlock.kept hinsertsFirst.kept List.not_mem_nil) pair.lock "lock" second
  let marked := ((copied.ledger.recordAll warningsLater).markEdited
    workspace.program.nextHandle).markEdited between.nextHandle
  refine ⟨⟨last, marked.recordAll [splitEntry address pair unlockOffset second]⟩, ?_,
    ⟨between, _, _, hinsertsFirst, hinsertsSecond, fun handle => ?_⟩,
    splitEntry address pair unlockOffset second, rfl, ?_⟩
  · unfold splitPair
    rw [bind_apply_of_ok (Work.query_apply_of_ok hdistance), hobstacle]
    exact (bind_apply_of_ok hfirst _).trans (bind_apply_of_ok hsecond _)
  · simp [marked, copied]
  · -- both copies may have left warnings ahead of the one entry
    have hnotes : ∀ entry ∈ warnings ++ warningsLater, entry.isTransformation = false := by
      intro entry hmem
      rcases List.mem_append.mp hmem with hmem | hmem
      · exact hwarnings entry hmem
      · exact hwarningsLater entry hmem
    have hjournal : (marked.recordAll [splitEntry address pair unlockOffset second]).journal =
        (workspace.ledger.journal.extend (warnings ++ warningsLater)).extend
          [splitEntry address pair unlockOffset second] := by
      simp [marked, copied, Journal.extend]
    rw [hjournal, Journal.transformations_extend, Journal.transformations_extend_of_notes hnotes]
    rfl

/-- A pair of intact calls is split if the offsets fit and passed over otherwise. -/
theorem splitPair_of_intact (consistent : workspace.program.Consistent)
    (hlock : pair.lock.Intact workspace.program) (hunlock : pair.unlock.Intact workspace.program)
    (hfunction : pair.unlock.function = pair.lock.function) (address : PairAddress)
    (unlockOffset lockOffset : Nat) :
    ∃ changed after, splitPair address pair unlockOffset lockOffset workspace = .ok changed after ∧
      (changed = true ↔ pair.Fits (some (unlockOffset, lockOffset)) workspace.program) ∧
      (changed = true → pair.Splits workspace after) ∧
      (changed = false → PassedOver workspace after) := by
  obtain ⟨lockEntry, hlockPlaced, hlockFunction, -⟩ := hlock.placed?
  obtain ⟨unlockEntry, hunlockPlaced, hunlockFunction, -⟩ := hunlock.placed?
  obtain ⟨distance, hdistance⟩ := exists_distance consistent hlockPlaced hunlockPlaced
    (by rw [hlockFunction, hunlockFunction, hfunction])
  have hfits : pair.Fits (some (unlockOffset, lockOffset)) workspace.program ↔
      splitObstacle? pair distance unlockOffset lockOffset = none := by
    rw [splitObstacle?_eq_none_iff]
    constructor
    · rintro ⟨unlock, lock, found, hoffsets, hfound, hrest⟩
      obtain ⟨rfl, rfl⟩ := Prod.mk.inj (Option.some.inj hoffsets)
      obtain rfl : distance = found := Except.ok.inj (hdistance.symm.trans hfound)
      exact hrest
    · exact fun hrest => ⟨_, _, distance, rfl, hdistance, hrest⟩
  rw [hfits]
  cases hobstacle : splitObstacle? pair distance unlockOffset lockOffset with
  | some obstacle =>
      unfold splitPair
      rw [bind_apply_of_ok (Work.query_apply_of_ok hdistance), hobstacle]
      exact ⟨false, _, rfl, by simp, by simp, fun _ => ⟨rfl, _, rfl⟩⟩
  | none =>
      obtain ⟨after, hsplit, hsplits⟩ :=
        exists_splitPair consistent hlock hdistance hobstacle address
      exact ⟨true, after, hsplit, by simp, fun _ => hsplits, by simp⟩

end LockOperator

/-! ## Requests

The four outcomes of a request for a known pair: one of its calls was marked, the offsets are
missing, they do not fit, or the pair is split. -/

/-- Of what was there at the start nothing was erased since, and nothing was marked. -/
structure Spared (start state : Workspace) : Prop where
  kept : start.program.Kept state.program []
  marks : ∀ {handle entry}, start.program.placed? handle = some entry →
    state.ledger.isEdited handle = start.ledger.isEdited handle

namespace Spared

variable {start state after : Workspace} {pair : LockPair}

theorem passedOver (spared : Spared start state) (hpassed : PassedOver state after) :
    Spared start after := by
  obtain ⟨hprogram, message, hledger⟩ := hpassed
  refine ⟨hprogram ▸ spared.kept, fun {handle entry} hplaced => ?_⟩
  rw [hledger, Ledger.isEdited_recordAll]
  exact spared.marks hplaced

/-- The copies are new, so that marking them marks nothing that was there. -/
theorem splits (spared : Spared start state) (hsplits : pair.Splits state after) :
    Spared start after := by
  obtain ⟨between, unlockCopy, lockCopy, hfirst, hsecond, hmarks⟩ := hsplits.inserted
  have hkept := hfirst.kept.trans hsecond.kept (by simp)
  refine ⟨spared.kept.trans hkept (by simp), fun {handle entry} hplaced => ?_⟩
  obtain ⟨found, hfound, -⟩ := spared.kept.alike hplaced List.not_mem_nil
  have hunlock : handle ≠ unlockCopy := by
    rintro rfl
    rw [hfirst.fresh] at hfound
    cases hfound
  have hlock : handle ≠ lockCopy := by
    rintro rfl
    have hstill := hfirst.placed?_of_placed? hfound
    rw [hsecond.fresh] at hstill
    cases hstill
  rw [← spared.marks hplaced, Bool.eq_iff_iff, hmarks]
  simp [hunlock, hlock]

end Spared

namespace LockOperator

variable {start state workspace : Workspace} {pair : LockPair} {index : PairIndex}
  {plan : LockPlan} {address : PairAddress} {request : Nat} {oracle : AliasOracle}

/-- Whether a request splits its pair depends on the marks from before the run and on its offsets;
otherwise it leaves one warning. -/
theorem splitRequest_of_find? (spared : Spared start state)
    (hpair : pair.Matches oracle start.program)
    (hfind : find? index plan.addressing address = some pair) (request : Nat) :
    ∃ changed after, splitRequest index plan (address, request) state = .ok changed after ∧
      (changed = true ↔ start.ledger.isEdited pair.lock.handle = false ∧
        start.ledger.isEdited pair.unlock.handle = false ∧
        pair.Fits (splitOffsets? plan.splitOffsets request) state.program) ∧
      (changed = true → pair.Splits state after) ∧
      (changed = false → PassedOver state after) := by
  have hlock := hpair.lock_intact.kept spared.kept List.not_mem_nil
  have hunlock := hpair.unlock_intact.kept spared.kept List.not_mem_nil
  obtain ⟨lockEntry, hlockPlaced, -⟩ := hpair.lock_intact
  obtain ⟨unlockEntry, hunlockPlaced, -⟩ := hpair.unlock_intact
  obtain ⟨warnings, hasked, hwarnings⟩ := isPairUntouched_of_intact hlock hunlock
  rw [spared.marks hlockPlaced, spared.marks hunlockPlaced] at hasked hwarnings
  unfold splitRequest
  dsimp only
  rw [bind_apply_of_ok (resolve_of_find? hfind)]
  dsimp only
  rw [bind_apply_of_ok hasked]
  cases hlockMark : start.ledger.isEdited pair.lock.handle with
  | true =>
      rw [hlockMark, if_pos rfl] at hwarnings
      exact ⟨false, _, rfl, by simp, by simp, fun _ => ⟨rfl, _, by rw [hwarnings]; rfl⟩⟩
  | false =>
      cases hunlockMark : start.ledger.isEdited pair.unlock.handle with
      | true =>
          rw [hlockMark, hunlockMark, if_neg (by simp), if_pos rfl] at hwarnings
          exact ⟨false, _, rfl, by simp, by simp, fun _ => ⟨rfl, _, by rw [hwarnings]; rfl⟩⟩
      | false =>
          rw [hlockMark, hunlockMark, if_neg (by simp), if_neg (by simp)] at hwarnings
          rw [hwarnings, Ledger.recordAll_nil]
          cases hoffsets : splitOffsets? plan.splitOffsets request with
          | none =>
              refine ⟨false, _, rfl, ?_, by simp, fun _ => ⟨rfl, _, rfl⟩⟩
              simp [LockPair.Fits]
          | some offsets =>
              obtain ⟨unlockOffset, lockOffset⟩ := offsets
              obtain ⟨changed, after, hsplit, hiff, hrest⟩ := splitPair_of_intact
                spared.kept.consistent hlock hunlock hpair.function_eq address unlockOffset
                lockOffset
              refine ⟨changed, after, hsplit, ?_, hrest⟩
              rw [hiff]
              simp

/-- Every request is answered and spares what was there. -/
theorem exists_splitRequest (consistent : start.program.Consistent)
    (calleesExist : start.program.CalleesExist) (spared : Spared start state)
    (plan : LockPlan) (request : PairAddress × Nat) :
    ∃ changed after,
      splitRequest (.ofProgram oracle start.program) plan request state = .ok changed after ∧
        Spared start after := by
  obtain ⟨address, number⟩ := request
  cases hfind : find? (.ofProgram oracle start.program) plan.addressing address with
  | none =>
      have hpassed : PassedOver state { state with
          ledger := state.ledger.recordAll [boundsWarning address] } := ⟨rfl, _, rfl⟩
      refine ⟨false, _, ?_, spared.passedOver hpassed⟩
      unfold splitRequest
      dsimp only
      rw [bind_apply_of_ok (resolve_of_find?_eq_none hfind)]
      rfl
  | some pair =>
      have hpair := matches_of_find? consistent calleesExist hfind
      obtain ⟨changed, after, hrequest, -, hsplits, hpassed⟩ :=
        splitRequest_of_find? spared hpair hfind number
      refine ⟨changed, after, hrequest, ?_⟩
      cases changed with
      | true => exact spared.splits (hsplits rfl)
      | false => exact spared.passedOver (hpassed rfl)

theorem exists_splitRequests (consistent : start.program.Consistent)
    (calleesExist : start.program.CalleesExist) (spared : Spared start state)
    (plan : LockPlan) (requests : List (PairAddress × Nat)) :
    ∃ changed after,
      Work.anyOf requests (splitRequest (.ofProgram oracle start.program) plan) state =
        .ok changed after ∧ Spared start after := by
  refine Runs.exists_ok (Work.runs_anyOf (Spared start) (fun request _ state spared => ?_) spared)
  obtain ⟨changed, after, hrequest, hspared⟩ :=
    exists_splitRequest consistent calleesExist spared plan request
  exact runs_of_ok hrequest hspared

end LockOperator

/-! ## Runs

A run of the first requests is a run of the plan that has no others. -/

namespace PairAddress

/-- The first addresses are read from the first numbers. -/
theorem listOf_take (count : Nat) :
    ∀ positions, listOf (positions.take (2 * count)) = (listOf positions).take count := by
  induction count with
  | zero => exact fun _ => rfl
  | succ count ih =>
      intro positions
      rw [show 2 * (count + 1) = 2 * count + 2 by omega]
      match positions with
      | [] => rfl
      | [_] => rfl
      | group :: position :: rest => simp [listOf, ih rest]

end PairAddress

/-- The plan with its first requests alone. -/
def LockPlan.first (plan : LockPlan) (requests : Nat) : LockPlan :=
  { plan with positions := plan.positions.take (2 * requests) }

namespace LockOperator

variable {workspace : Workspace} {pair : LockPair} {plan : LockPlan} {address : PairAddress}
  {oracle : AliasOracle}

/-- A splitting run builds the index and handles its requests one after another. -/
theorem run_split (consistent : workspace.program.Consistent)
    (calleesExist : workspace.program.CalleesExist) (hmode : plan.mode = some .split)
    (oracle : AliasOracle) :
    run plan oracle workspace =
      Work.anyOf (PairAddress.listOf plan.positions).zipIdx
        (splitRequest (.ofProgram oracle workspace.program) plan)
        { workspace with
          ledger := workspace.ledger.recordAll (PairIndex.notes oracle workspace.program) } := by
  unfold run
  rw [hmode]
  dsimp only
  rw [bind_apply_of_ok (PairIndex.build_apply consistent calleesExist oracle), split_eq]

/-- One more request, for a pair that some earlier ones may have named as well: it splits the pair
exactly if neither call was marked before the run and its own offsets fit, and otherwise leaves one
warning.  Whether the pair was split before does not enter. -/
theorem split_next (consistent : workspace.program.Consistent)
    (calleesExist : workspace.program.CalleesExist) (hmode : plan.mode = some .split)
    {request : Nat} (haddress : (PairAddress.listOf plan.positions)[request]? = some address)
    (hfind : find? (.ofProgram oracle workspace.program) plan.addressing address = some pair) :
    ∃ changed before changedNext after,
      run (plan.first request) oracle workspace = .ok changed before ∧
      run (plan.first (request + 1)) oracle workspace = .ok (changedNext || changed) after ∧
      (changedNext = true ↔ workspace.ledger.isEdited pair.lock.handle = false ∧
        workspace.ledger.isEdited pair.unlock.handle = false ∧
        pair.Fits (splitOffsets? plan.splitOffsets request) before.program) ∧
      (changedNext = true → pair.Splits before after) ∧
      (changedNext = false → PassedOver before after) := by
  let built : Workspace := { workspace with
    ledger := workspace.ledger.recordAll (PairIndex.notes oracle workspace.program) }
  let addresses := PairAddress.listOf plan.positions
  have hpair := matches_of_find? consistent calleesExist hfind
  have hspared : Spared built built := ⟨Kept.refl consistent [], fun _ => rfl⟩
  have hrun : ∀ count, run (plan.first count) oracle workspace =
      Work.anyOf (addresses.take count).zipIdx
        (splitRequest (.ofProgram oracle workspace.program) plan) built := by
    intro count
    rw [@run_split workspace (plan.first count) consistent calleesExist hmode oracle,
      ← PairAddress.listOf_take]
    rfl
  have hlt : request < addresses.length := (List.getElem?_eq_some_iff.mp haddress).1
  have hnext : (addresses.take (request + 1)).zipIdx =
      (addresses.take request).zipIdx ++ [(address, request)] := by
    rw [List.take_add_one, haddress, List.zipIdx_append]
    simp [Nat.min_eq_left (Nat.le_of_lt hlt)]
  obtain ⟨changed, before, hbefore, spared⟩ := @exists_splitRequests built built oracle consistent
    calleesExist hspared plan (addresses.take request).zipIdx
  obtain ⟨changedNext, after, hafter, hiff, hrest⟩ :=
    splitRequest_of_find? spared hpair hfind request
  refine ⟨changed, before, changedNext, after, (hrun request).trans hbefore, ?_, hiff, hrest⟩
  rw [hrun, hnext]
  exact Work.anyOf_concat hbefore hafter

/-- A critical section of two instructions.  It is not to be unfolded, lest runs on it are evaluated
in passing. -/
@[irreducible] def heldSection : Program :=
  Command.run [.declare "pthread_mutex_lock" .status, .declare "pthread_mutex_unlock" .status,
    .addFunction "main" .void [], .addBlock 2 "entry",
    .push 2 0 (.ofOperation (.call (.direct 0) [.global "mutex"] .status)),
    .push 2 0 (.ofOperation (.other "work" [] .pointer)),
    .push 2 0 (.ofOperation (.other "work" [] .pointer)),
    .push 2 0 (.ofOperation (.call (.direct 1) [.global "mutex"] .status)),
    .push 2 0 (.ofOperation (.ret none))]
    { name := "held" }

theorem consistent_heldSection : heldSection.Consistent := by
  unfold heldSection
  exact Command.consistent_run (Command.consistent_empty "held") _

/-- Two requests for the one pair, each with offsets of its own. -/
def splitTwice : LockPlan :=
  { mode := some .split, positions := [0, 0, 0, 0], splitOffsets := [1, 2, 1, 2] }

theorem split_next_heldSection :
    ∃ pair, find? (.ofProgram .identity heldSection) .category ⟨0, 0⟩ = some pair ∧
      ∃ changed before changedNext after,
        run (splitTwice.first 1) .identity { program := heldSection } = .ok changed before ∧
        run (splitTwice.first 2) .identity { program := heldSection } =
          .ok (changedNext || changed) after ∧
        (changedNext = true ↔ Ledger.empty.isEdited pair.lock.handle = false ∧
          Ledger.empty.isEdited pair.unlock.handle = false ∧
          pair.Fits (splitOffsets? splitTwice.splitOffsets 1) before.program) ∧
        (changedNext = true → pair.Splits before after) ∧
        (changedNext = false → PassedOver before after) := by
  obtain ⟨pair, hfind⟩ := Option.isSome_iff_exists.mp
    (show (find? (.ofProgram .identity heldSection) .category ⟨0, 0⟩).isSome by decide +kernel)
  have calleesExist := consistent_heldSection.calleesExist_iff.mpr (by decide +kernel)
  exact ⟨pair, hfind, @split_next { program := heldSection } pair splitTwice ⟨0, 0⟩ .identity
    consistent_heldSection calleesExist rfl 1 rfl hfind⟩

/-- The first request splits the pair, and so does the second: it inserts two more calls and leaves
no warning. -/
theorem split_twice :
    heldSection.Consistent ∧ splitTwice.check = .ok () ∧
    ∃ changed once changedNext twice,
      run (splitTwice.first 1) .identity { program := heldSection } = .ok changed once ∧
      run splitTwice .identity { program := heldSection } = .ok changedNext twice ∧
      once.program.handles.length = heldSection.handles.length + 2 ∧
      twice.program.handles.length = once.program.handles.length + 2 ∧
      twice.ledger.journal.count .warning = 0 := by
  have hruns : Runs (run (splitTwice.first 1) .identity) { program := heldSection }
      (fun _ once => Runs (run splitTwice .identity) { program := heldSection }
        (fun _ twice => once.program.handles.length = heldSection.handles.length + 2 ∧
          twice.program.handles.length = once.program.handles.length + 2 ∧
          twice.ledger.journal.count .warning = 0) fun _ _ => False) fun _ _ => False := by
    decide +kernel
  obtain ⟨changed, once, honce, htwice⟩ := hruns.exists_ok
  obtain ⟨changedNext, twice, htwice, hcounts⟩ := htwice.exists_ok
  exact ⟨consistent_heldSection, rfl, changed, once, changedNext, twice, honce, htwice, hcounts⟩

end LockOperator

end ConcurrencyFaults

import ConcurrencyFaults.Proofs.Locking.Outcomes
import ConcurrencyFaults.Proofs.Relocation

/-!
# Where a shift moves a call

A shift of one call walks from it along the visitation order, puts a new plain call ahead of the
instruction that it reaches and erases the old one.  For a plain call this is one move
(`Program.Moves`).  An invoke is first dissolved into a plain call and a branch to its normal
continuation, which is a push and a move; the walk starts from that plain call, in an order that is
one longer.  Either way the order in which the walk goes is the old one with a row of handles in the
place of the call (`CallSite.startRow`), and `shift_layout` describes the result by it.

The layout is followed by `Relists`, which says by what each handle of the order is replaced.
Replacements compose, so the layout of the whole shift is that of dissolving the call followed by
that of moving it (`StartsAt.shifted`); where the new call stands is then read off the order
(`Moves.handlesIn_eq`).

A dissolved invoke has had two handles.  Uses of its own handle become a zero status, as they do for
a plain call.  Uses of the handle that its plain call is given would do so as well, and there may be
some in a program that reads results that nothing produced (`CallSite.StartUnread`).
-/

namespace ConcurrencyFaults

open Program

/-! ## Where the walk starts

Both forms are brought to one interface: the order with the row in the place of the call, and what a
move from there comes to (`StartsAt`). -/

/-- The handle that is given out after the next one. -/
def Program.handleAfterNext (program : Program) : Handle := (program.store default).2.nextHandle

theorem Program.nextHandle_insertEntry {program : Program} {entry : Placed}
    {place : Handle → List Handle → List Handle} :
    (program.insertEntry entry place).nextHandle = program.handleAfterNext := by
  show (program.store entry).2.nextHandle = _
  unfold handleAfterNext store nextHandle
  cases program.free with
  | nil => simp
  | cons slot rest =>
      cases rest with
      | nil => simp
      | cons next rest =>
          -- only the entry of the filled slot depends on what is stored
          dsimp only
          rw [List.getElem?_modify, List.getElem?_modify]
          cases program.slots[next]? with
          | none => rfl
          | some found => by_cases hsame : slot = next <;> simp [hsame]

namespace CallSite

/-- The plain call that the walk of a shift starts from: the call itself, or what an invoke gives
way to. -/
def start (site : CallSite) (program : Program) : Handle :=
  match site.form with
  | .call => site.handle
  | .invoke _ _ => program.handleAfterNext

/-- What stands in the place of a call when the walk starts.  Behind the plain call of an invoke is
the branch to its normal continuation. -/
def startRow (site : CallSite) (program : Program) : List Handle :=
  match site.form with
  | .call => [site.handle]
  | .invoke _ _ => [program.handleAfterNext, program.nextHandle]

/-- The visitation order that the walk goes along. -/
def startOrder (site : CallSite) (program : Program) : List Handle :=
  (program.handlesIn site.function).flatMap (instead site.handle (site.startRow program))

/-- If the call is an invoke, nothing in its function reads the handle that its plain call is
given. -/
def StartUnread (site : CallSite) (program : Program) : Prop :=
  site.isInvoke = true → ∀ reader found, program.placed? reader = some found →
    found.function = site.function → ¬ found.instruction.Reads program.handleAfterNext

/-- A call was moved directly ahead of `target` and is a plain call now; what read its result reads
a zero status, and all else is as it was. -/
structure ShiftedAhead (site : CallSite) (before after : Program) (target moved : Handle) :
    Prop where
  relists : before.Relists after fun handle =>
    ((instead site.handle (site.startRow before) handle).flatMap
      (instead target [moved, target])).flatMap (instead (site.start before) [])
  fresh : before.placed? moved = none
  stale : after.placed? site.handle = none
  moved_placed : ∃ block,
    after.placed? moved = some ⟨site.asCall site.arguments, site.function, block⟩
  /-- An invoke leaves a branch at the end of its block. -/
  branch_placed : ∀ normal unwind, site.form = .invoke normal unwind →
    after.placed? before.nextHandle =
      some ⟨{ operation := .branch normal, location := site.location }, site.function, site.block⟩
  others : ∀ {handle entry}, before.placed? handle = some entry → handle ≠ site.handle →
    after.placed? handle =
      some (entry.mapOperands (before.clearing [site.handle] entry.function))

end CallSite

/-- The one request of a plan shifts one side of a pair, farther than one step forward. -/
structure LockPlan.ShiftsAt (plan : LockPlan) (oracle : AliasOracle) (program : Program)
    (pair : LockPair) (address : PairAddress) (site : CallSite) (steps : Int) : Prop where
  mode : plan.mode = some .shift
  requests : PairAddress.listOf plan.positions = [address]
  found : LockOperator.find? (.ofProgram oracle program) plan.addressing address = some pair
  side : (site = pair.lock ∧ plan.lockDirections[0]? = some steps ∧
      plan.unlockDirections[0]? = some 0) ∨
    (site = pair.unlock ∧ plan.lockDirections[0]? = some 0 ∧
      plan.unlockDirections[0]? = some steps)
  far : 2 ≤ steps ∨ steps < 0

/-- Neither call of a pair was edited before, and nothing is in the way of moving one of them. -/
structure LockPair.Movable (pair : LockPair) (workspace : Workspace) (site : CallSite)
    (argument : Operand) : Prop where
  lock_unedited : workspace.ledger.isEdited pair.lock.handle = false
  unlock_unedited : workspace.ledger.isEdited pair.unlock.handle = false
  arguments : site.arguments = [argument]
  argument_ne : argument ≠ .result site.handle
  unused : pair.family.returnsStatus = false →
    workspace.program.useCount site.handle = .ok 0

namespace LockOperator

variable {workspace : Workspace} {program between after : Program} {site : CallSite}
  {family : LockFamily} {pair : LockPair} {plan : LockPlan} {address : PairAddress}
  {oracle : AliasOracle} {argument : Operand} {place : Nat} {steps : Int}
  {call target moved : Handle}

/-- What reads a result after some were cleared read it before. -/
theorem reads_of_reads_clearing {gone : List Handle} {function : FunctionId} {entry : Placed}
    {handle : Handle}
    (hreads : (entry.mapOperands (program.clearing gone function)).instruction.Reads handle) :
    entry.instruction.Reads handle := by
  rw [Instruction.Reads, Placed.mapOperands, Instruction.withOperation,
    Operation.operands_mapOperands] at hreads
  obtain ⟨operand, hoperand, hcleared⟩ := List.mem_map.mp hreads
  have huses : operand.uses handle = true := by
    refine @uses_of_uses_clearing program handle gone function operand ?_
    rw [hcleared, Operand.uses, beq_self_eq_true]
  rw [Instruction.Reads, ← eq_of_beq huses]
  exact hoperand

/-- The plain call that the walk starts from is in the place of the call, and once it is moved the
call has been. -/
structure StartsAt (site : CallSite) (program between : Program) : Prop where
  relists : program.Relists between (instead site.handle (site.startRow program))
  shifted : ∀ {after target entry}, between.placed? target = some entry →
    entry.function = site.function →
    between.Moves after (site.start program) target between.nextHandle
      (site.asCall site.arguments) →
    site.ShiftedAhead program after target between.nextHandle

/-- A call that does not read the erased result is moved as it is. -/
theorem placed?_moved {gone anchor : Handle} {entry : Placed}
    (hmoves : program.Moves after gone anchor moved (site.asCall site.arguments))
    (hentry : program.placed? anchor = some entry) (hfunction : entry.function = site.function)
    (hunread : ∀ argument ∈ site.arguments, argument ≠ .result gone) :
    after.placed? moved = some ⟨site.asCall site.arguments, site.function, entry.block⟩ := by
  rw [hmoves.placed?_new hentry, hfunction, Placed.mapOperands_eq_self]
  intro operand hoperand
  rw [CallSite.operands_asCall] at hoperand
  refine clearing_eq_self fun handle hmem _ => ?_
  rw [List.mem_singleton.mp hmem]
  exact hunread operand hoperand

theorem startsAt_of_call (consistent : program.Consistent) (hform : site.form = .call)
    (hown : ∀ argument ∈ site.arguments, argument ≠ .result site.handle) :
    StartsAt site program program := by
  have hstart : site.start program = site.handle := by rw [CallSite.start, hform]
  have hrow : instead site.handle (site.startRow program) = fun handle => [handle] := by
    funext handle
    rw [CallSite.startRow, hform]
    unfold instead
    split
    · rename_i hhandle
      rw [hhandle]
    · rfl
  refine ⟨?_, ?_⟩
  · rw [hrow]
    exact ⟨consistent, rfl, rfl, fun hblock => by rw [hblock, flatMap_eq_self fun _ _ => rfl]⟩
  · intro after target entry hentry hfunction hmoves
    rw [hstart] at hmoves
    refine ⟨?_, hmoves.fresh, hmoves.stale, ⟨entry.block, ?_⟩, ?_, fun hplaced hne =>
      hmoves.placed?_of_placed? hplaced hne⟩
    · rw [hstart, hrow]
      exact hmoves.relists.congr fun handle _ => by rw [List.flatMap_singleton]
    · exact placed?_moved hmoves hentry hfunction hown
    · intro normal unwind hinvoke
      rw [hform] at hinvoke
      cases hinvoke

/-- An invoke gave way to a plain call, with a branch to its normal continuation behind it. -/
structure Dissolves (site : CallSite) (normal : BlockId) (before between : Program)
    (call branch : Handle) : Prop where
  relists : before.Relists between (instead site.handle [call, branch])
  stale : between.placed? site.handle = none
  nextHandle_ne : between.nextHandle ≠ site.handle
  call_fresh : before.placed? call = none
  call_function : between.functionOf? call = some site.function
  branch_ne : branch ≠ call
  branch_placed : between.placed? branch =
    some ⟨{ operation := .branch normal, location := site.location }, site.function, site.block⟩
  others : ∀ {handle entry}, before.placed? handle = some entry → handle ≠ site.handle →
    between.placed? handle =
      some (entry.mapOperands (before.clearing [site.handle] entry.function))

/-- An invoke is dissolved by a branch at the end of its block and a plain call in its own place. -/
theorem dissolves (consistent : program.Consistent) (terminated : program.Terminated)
    {normal unwind : BlockId} (hform : site.form = .invoke normal unwind) {entry : Placed}
    (hplaced : program.placed? site.handle = some entry)
    (hfunction : entry.function = site.function) (hblock : entry.block = site.block)
    (hoperation : entry.instruction.operation = site.operation) (argument : Operand) :
    Dissolves site normal program
      ((program.pushBranch entry normal site.location).substituteEntry site.handle entry
        (site.asCall [argument]) .success) program.handleAfterNext program.nextHandle := by
  let pushed := program.pushBranch entry normal site.location
  have hfree := consistent.toFreeListExact
  have hexits : entry.instruction.operation.exits? ≠ none := by
    rw [hoperation, CallSite.operation, SiteForm.exits?_operation, hform]
    exact Option.some_ne_none _
  have hpushed := relists_pushBranch consistent hplaced
    (fun _ hblock => terminated.last?_eq consistent hplaced hexits hblock) normal site.location
  have hkept : ∀ {handle found}, program.placed? handle = some found →
      pushed.placed? handle = some found := fun hfound =>
    placed?_insertEntry_of_placed? hfree hfound _ _
  have hclearing : pushed.clearing [site.handle] = program.clearing [site.handle] := by
    refine clearing_eq_of_functionOf? fun handle hmem => ?_
    rw [List.mem_singleton.mp hmem, functionOf?_of_placed? hplaced,
      functionOf?_of_placed? (hkept hplaced)]
  have hmoves := moves_insertAhead hpushed.consistent (hkept hplaced) (hkept hplaced)
    (site.asCall [argument])
  rw [show (program.pushBranch entry normal site.location).nextHandle = program.handleAfterNext from
    nextHandle_insertEntry] at hmoves
  have hbranch : pushed.placed? program.nextHandle = some
      ⟨{ operation := .branch normal, location := site.location }, site.function, site.block⟩ := by
    rw [← hfunction, ← hblock]
    exact (congrFun (placed?_insertEntry hfree _) _).trans (Function.update_self ..)
  -- the new handles are neither each other's nor that of the invoke
  have hbranchNe := (ne_nextHandle hfree hplaced).symm
  have hcallNe := (ne_of_placed? (hkept hplaced) hmoves.fresh).symm
  refine ⟨?_, hmoves.stale, hmoves.nextHandle_ne, ?_, ?_, ne_of_placed? hbranch hmoves.fresh, ?_,
    ?_⟩
  · refine (hpushed.trans hmoves.relists).congr fun handle _ => ?_
    by_cases hhandle : handle = site.handle
    · simp [hhandle, instead, hbranchNe, hcallNe]
    · simp [instead, hhandle]
  · rw [Option.eq_none_iff_forall_ne_some]
    exact fun found hfound => ne_of_placed? (hkept hfound) hmoves.fresh rfl
  · exact functionOf?_eq_some_iff.mpr ⟨_, hmoves.placed?_new (hkept hplaced), hfunction⟩
  · exact hmoves.placed?_of_placed? hbranch hbranchNe
  · intro handle found hfound hne
    rw [← hclearing]
    exact hmoves.placed?_of_placed? (hkept hfound) hne

theorem startsAt_of_dissolves {normal unwind : BlockId}
    (hform : site.form = .invoke normal unwind)
    (hdissolves : Dissolves site normal program between program.handleAfterNext program.nextHandle)
    {entry : Placed} (hplaced : program.placed? site.handle = some entry)
    (hfunction : entry.function = site.function)
    (hoperation : entry.instruction.operation = site.operation)
    (hunread : site.StartUnread program) : StartsAt site program between := by
  have hstart : site.start program = program.handleAfterNext := by rw [CallSite.start, hform]
  have hrow : site.startRow program = [program.handleAfterNext, program.nextHandle] := by
    rw [CallSite.startRow, hform]
  have hreads := hunread (by rw [CallSite.isInvoke, hform]; rfl)
  have hbetween := hdissolves.relists.consistent
  refine ⟨by rw [hrow]; exact hdissolves.relists, ?_⟩
  intro after target targetEntry htarget htargetFunction hmoves
  rw [hstart] at hmoves
  refine ⟨?_, ?_, ?_, ⟨targetEntry.block, ?_⟩, ?_, ?_⟩
  · refine (hdissolves.relists.trans hmoves.relists).congr fun handle _ => ?_
    rw [hstart, hrow, List.flatMap_assoc]
  · -- what was there at the start still is, but for the call, so the new handle was not
    rw [Option.eq_none_iff_forall_ne_some]
    intro found hfound
    have hstill := hdissolves.others hfound hdissolves.nextHandle_ne
    rw [placed?_nextHandle hbetween.toFreeListExact] at hstill
    cases hstill
  · exact hmoves.placed?_of_stale hdissolves.stale hdissolves.nextHandle_ne.symm
  · refine placed?_moved hmoves htarget htargetFunction fun operand hmem hresult => ?_
    refine hreads site.handle entry hplaced hfunction ?_
    rwa [Instruction.Reads, hoperation, CallSite.operands_operation, ← hresult]
  · intro other continuation hother
    obtain ⟨rfl, -⟩ := SiteForm.invoke.inj (hform.symm.trans hother)
    exact hmoves.placed?_of_placed? hdissolves.branch_placed hdissolves.branch_ne
  · intro handle found hfound hne
    rw [hmoves.placed?_of_placed? (hdissolves.others hfound hne)
      (ne_of_placed? hfound hdissolves.call_fresh), Placed.mapOperands_eq_self]
    -- nothing reads the plain call that is taken out again
    intro operand hoperand
    refine clearing_eq_self fun call hcall hhere hresult => ?_
    obtain rfl := List.mem_singleton.mp hcall
    rw [hdissolves.call_function, Option.some.injEq] at hhere
    rw [hresult] at hoperand
    exact hreads handle found hfound hhere.symm (reads_of_reads_clearing hoperand)

/-- Whichever form the call has, there is a plain call to start from. -/
theorem exists_startsAt (consistent : program.Consistent) (terminated : program.Terminated)
    (hcapture : CallSite.capture program site.handle true = .ok (some site))
    (harguments : site.arguments = [argument]) (hown : argument ≠ .result site.handle)
    (hunread : site.StartUnread program) :
    ∃ between, plainCall site argument program = .ok (site.start program) between ∧
      StartsAt site program between := by
  cases hform : site.form with
  | call =>
      refine ⟨program, ?_, startsAt_of_call consistent hform (by simpa [harguments] using hown)⟩
      rw [CallSite.start, hform]
      exact plainCall_of_call hform argument
  | invoke normal unwind =>
      obtain ⟨entry, _, hplaced, -, hoperation, hsite⟩ := CallSite.capture_eq_some_iff.mp hcapture
      have hfunction : entry.function = site.function := (congrArg CallSite.function hsite).symm
      have hblock : entry.block = site.block := (congrArg CallSite.block hsite).symm
      have hdissolves := dissolves consistent terminated hform hplaced hfunction hblock hoperation
        argument
      refine ⟨_, ?_, startsAt_of_dissolves hform hdissolves hplaced hfunction hoperation hunread⟩
      rw [CallSite.start, hform, plainCall_of_invoke consistent hform hplaced]
      exact congrArg (EStateM.Result.ok · _) nextHandle_insertEntry

/-! ## One call

The operator is run symbolically: each edit and each question is replaced by its answer. -/

/-- The warning of a walk that met the first or the last instruction of the function. -/
def boundaryWarnings (site : CallSite) (length place : Nat) (steps : Int) : List Entry :=
  if place + steps < 0 ∨ place + steps > (length - 1 : Nat) then
    [.warning (s!"{name}: shift of {steps} from call " ++ site.handle.text ++
      " reached the function boundary")]
  else []

/-- The entry for a shift. -/
def shiftEntry (site : CallSite) (steps : Int) (position : Nat) : Entry where
  kind := .callShifted
  function := some site.function
  location := some position
  pass := some name
  message := s!"shifted {site.name} " ++ site.handle.text ++ s!" by {steps}"

/-- What a shift leaves in the ledger. -/
def shiftLedger (ledger : Ledger) (site : CallSite) (length place : Nat) (steps : Int)
    (moved : Handle) (position : Nat) : Ledger :=
  (((ledger.recordAll (boundaryWarnings site length place steps)).markEdited
    site.handle).markEdited moved).recordAll [shiftEntry site steps position]

/-- Nothing is in the way of a call with one argument, unless its result is read and its family has
no status to put in the place of it. -/
theorem shiftObstacle?_of_unused (harguments : site.arguments = [argument])
    (hunused : family.returnsStatus = false → workspace.program.useCount site.handle = .ok 0) :
    shiftObstacle? site family workspace = .ok none workspace := by
  have hcount : site.argumentCount = 1 := by simp [CallSite.argumentCount, harguments]
  unfold shiftObstacle?
  rw [harguments]
  cases hstatus : family.returnsStatus with
  | true => simp [hcount]; rfl
  | false =>
      simp only [List.isEmpty_cons, Bool.false_eq_true, if_false]
      rw [bind_apply_of_ok (Work.query_apply_of_ok (hunused hstatus))]
      simp [hcount]; rfl

/-- What a shift does once its walk has ended. -/
def finishShift (site : CallSite) (argument : Operand) (steps : Int) (call target : Handle) :
    Work Bool := do
  let moved ← Work.edit (Program.insertBefore target (site.asCall [argument]))
  let _ ← Work.edit (Program.eraseOrZero call statusWidth true)
  Work.markEdited site.handle
  Work.markEdited moved
  let position ← Work.query (·.position moved)
  Work.recordChange name .callShifted site.function
    (s!"shifted {site.name} " ++ site.handle.text ++ s!" by {steps}") (some position)
  return true

/-- A shift looks for an obstacle, walks and finishes. -/
theorem shiftSite_eq (site : CallSite) (family : LockFamily) (steps : Int) :
    shiftSite site family steps = (do
      match ← shiftObstacle? site family, site.arguments with
      | some obstacle, _ =>
          Work.warn (s!"{name}: " ++ obstacle)
          return false
      | none, [] => return false
      | none, argument :: _ =>
          let call ← Work.edit (plainCall site argument)
          let step ← Work.query (·.step call steps)
          if step.clamped then
            Work.warn (s!"{name}: shift of {steps} from call " ++ site.handle.text ++
              " reached the function boundary")
          finishShift site argument steps call step.target) := rfl

theorem finishShift_apply {inserted : Program} {removal : Removal} {position : Nat}
    (hinsert : insertBefore target (site.asCall [argument]) between = .ok moved inserted)
    (hremoval : eraseOrZero call statusWidth true inserted = .ok removal after)
    (hposition : after.position moved = .ok position) (steps : Int) (ledger : Ledger) :
    finishShift site argument steps call target { program := between, ledger } = .ok true {
      program := after
      ledger := ((ledger.markEdited site.handle).markEdited moved).recordAll
        [shiftEntry site steps position] } := by
  unfold finishShift
  rw [bind_apply_of_ok (Work.edit_apply_of_ok hinsert),
    bind_apply_of_ok (Work.edit_apply_of_ok hremoval)]
  exact bind_apply_of_ok (Work.query_apply_of_ok hposition) _

/-- From a plain call in its place, a call moves ahead of the instruction that the walk reaches. -/
theorem shiftSite_moves (harguments : site.arguments = [argument])
    (hobstacle : shiftObstacle? site family workspace = .ok none workspace)
    (hplain : plainCall site argument workspace.program = .ok call between)
    (hbetween : between.Consistent)
    (hplace : (between.handlesIn site.function)[place]? = some call) :
    ∃ target after position,
      (between.handlesIn site.function)[
        reach (between.handlesIn site.function).length place steps]? = some target ∧
      between.Moves after call target between.nextHandle (site.asCall site.arguments) ∧
      after.position between.nextHandle = .ok position ∧
      shiftSite site family steps workspace = .ok true {
        program := after
        ledger := shiftLedger workspace.ledger site (between.handlesIn site.function).length place
          steps between.nextHandle position } := by
  have hlt := (List.getElem?_eq_some_iff.mp hplace).1
  obtain ⟨target, htarget⟩ : ∃ target, (between.handlesIn site.function)[
      reach (between.handlesIn site.function).length place steps]? = some target :=
    ⟨_, List.getElem?_eq_getElem (reach_lt hlt steps)⟩
  obtain ⟨entry, hentry, -⟩ := hbetween.exists_of_getElem? hplace
  obtain ⟨targetEntry, htargetEntry, -⟩ := hbetween.exists_of_getElem? htarget
  have hstep := hbetween.step_eq hplace htarget
  obtain ⟨inserted, removal, after, hinsert, hremoval, hmoves⟩ :=
    exists_moves hbetween hentry htargetEntry (site.asCall site.arguments)
  obtain ⟨position, hposition⟩ :=
    exists_position hmoves.relists.consistent (hmoves.placed?_new htargetEntry)
  refine ⟨target, after, position, htarget, hmoves, hposition, ?_⟩
  rw [harguments] at hinsert
  have hfinish := finishShift_apply hinsert hremoval hposition steps
  rw [shiftSite_eq, bind_apply_of_ok hobstacle, harguments]
  dsimp only
  rw [bind_apply_of_ok (Work.edit_apply_of_ok hplain),
    bind_apply_of_ok (Work.query_apply_of_ok hstep)]
  unfold shiftLedger boundaryWarnings
  by_cases hboundary : place + steps < 0 ∨
      place + steps > ((between.handlesIn site.function).length - 1 : Nat)
  · rw [if_pos (by simpa using hboundary), if_pos hboundary]
    exact (bind_apply_of_ok (Work.record_apply _) _).trans (hfinish _)
  · rw [if_neg (by simpa using hboundary), if_neg hboundary, Ledger.recordAll_nil]
    exact hfinish _

/-- A call moves along the order in which a plain call is in its place. -/
theorem shiftSite_layout (consistent : workspace.program.Consistent)
    (terminated : workspace.program.Terminated)
    (hcapture : CallSite.capture workspace.program site.handle true = .ok (some site))
    (harguments : site.arguments = [argument]) (hown : argument ≠ .result site.handle)
    (hunused : family.returnsStatus = false → workspace.program.useCount site.handle = .ok 0)
    (hunread : site.StartUnread workspace.program) (steps : Int) :
    ∃ after place target moved position,
      shiftSite site family steps workspace = .ok true {
        program := after
        ledger := shiftLedger workspace.ledger site (site.startOrder workspace.program).length place
          steps moved position } ∧
      (site.startOrder workspace.program)[place]? = some (site.start workspace.program) ∧
      (site.startOrder workspace.program)[
        reach (site.startOrder workspace.program).length place steps]? = some target ∧
      after.handlesIn site.function = ((site.startOrder workspace.program).insertIdx
        (reach (site.startOrder workspace.program).length place steps) moved).filter
          (· != site.start workspace.program) ∧
      after.position moved = .ok position ∧
      site.ShiftedAhead workspace.program after target moved := by
  obtain ⟨between, hplain, hrelists, hshifted⟩ :=
    exists_startsAt consistent terminated hcapture harguments hown hunread
  have hbetween := hrelists.consistent
  have horder : between.handlesIn site.function = site.startOrder workspace.program :=
    hrelists.handlesIn_eq site.function
  -- the walk starts where the call stood
  have hmem : site.start workspace.program ∈ site.startOrder workspace.program := by
    obtain ⟨entry, hplaced, hfunction, -⟩ := (CallSite.intact_of_capture hcapture).2
    refine List.mem_flatMap.mpr ⟨site.handle, consistent.mem_handlesIn_iff.mpr
      (functionOf?_eq_some_iff.mpr ⟨entry, hplaced, hfunction⟩), ?_⟩
    rw [instead_self, CallSite.start, CallSite.startRow]
    cases site.form <;> simp
  obtain ⟨place, hplace⟩ := List.mem_iff_getElem?.mp hmem
  rw [← horder] at hplace ⊢
  obtain ⟨target, after, position, htarget, hmoves, hposition, hshift⟩ :=
    @shiftSite_moves workspace between site family argument place steps _ harguments
      (shiftObstacle?_of_unused harguments hunused) hplain hbetween hplace
  obtain ⟨entry, hentry, hfunction⟩ := hbetween.exists_of_getElem? htarget
  exact ⟨after, place, target, between.nextHandle, position, hshift, hplace, htarget,
    hmoves.handlesIn_eq hbetween htarget, hposition, hshifted hentry hfunction hmoves⟩

theorem shiftSide_of_far (hfar : 2 ≤ steps ∨ steps < 0) (address : PairAddress) (role : LockRole)
    (site : CallSite) (family : LockFamily) :
    shiftSide address role site family (some steps) = shiftSite site family steps := by
  unfold shiftSide
  split
  · rename_i hnone
    cases hnone
  · rename_i hone
    cases hone
    omega
  · rename_i hzero
    cases hzero
    omega
  · rename_i hsome
    cases hsome
    rfl

/-- A run that shifts handles its requests one after the other, all by the index from before. -/
theorem run_shift (consistent : workspace.program.Consistent)
    (calleesExist : workspace.program.CalleesExist) (hmode : plan.mode = some .shift)
    (oracle : AliasOracle) :
    run plan oracle workspace =
      Work.anyOf (PairAddress.listOf plan.positions).zipIdx
        (shiftRequest (.ofProgram oracle workspace.program) plan)
        (PairIndex.noted oracle workspace) := by
  unfold run
  rw [hmode]
  dsimp only
  rw [bind_apply_of_ok (PairIndex.build_apply consistent calleesExist oracle), shift_eq]
  rfl

/-- A shift of one call by `steps` puts it directly ahead of the instruction that stands `steps`
places from it in the order with a plain call in its place, or ahead of the last or the first one if
the order ends before. -/
theorem shift_layout (consistent : workspace.program.Consistent)
    (terminated : workspace.program.Terminated)
    (hplan : plan.ShiftsAt oracle workspace.program pair address site steps)
    (hmovable : pair.Movable workspace site argument)
    (hunread : site.StartUnread workspace.program) :
    ∃ after place target moved position,
      run plan oracle workspace = .ok true after ∧
      (site.startOrder workspace.program)[place]? = some (site.start workspace.program) ∧
      (site.startOrder workspace.program)[
        reach (site.startOrder workspace.program).length place steps]? = some target ∧
      after.program.handlesIn site.function = ((site.startOrder workspace.program).insertIdx
        (reach (site.startOrder workspace.program).length place steps) moved).filter
          (· != site.start workspace.program) ∧
      site.ShiftedAhead workspace.program after.program target moved ∧
      after.program.position moved = .ok position ∧
      after.ledger = shiftLedger (PairIndex.noted oracle workspace).ledger site
        (site.startOrder workspace.program).length place steps moved position := by
  have calleesExist := PairIndex.calleesExist_of_mem_pairs consistent (mem_of_find? hplan.found)
  have hpair := matches_of_find? consistent calleesExist hplan.found
  let built := PairIndex.noted oracle workspace
  have hcapture : CallSite.capture workspace.program site.handle true = .ok (some site) := by
    rcases hplan.side with ⟨rfl, -⟩ | ⟨rfl, -⟩
    · exact hpair.lock_at
    · exact hpair.unlock_at
  obtain ⟨after, place, target, moved, position, hshift, hplace, htarget, horder, hposition,
    hshifted⟩ := @shiftSite_layout built site pair.family argument consistent terminated hcapture
      hmovable.arguments hmovable.argument_ne hmovable.unused hunread steps
  have huntouched := @isPairUntouched_of_unedited built pair hpair.lock_intact hpair.unlock_intact
    hmovable.lock_unedited hmovable.unlock_unedited
  let shifted : Workspace := {
    program := after
    ledger := shiftLedger built.ledger site (site.startOrder workspace.program).length place steps
      moved position }
  have hrequest : shiftRequest (.ofProgram oracle workspace.program) plan (address, 0) built =
      .ok true shifted := by
    unfold shiftRequest
    dsimp only
    rw [bind_apply_of_ok (resolve_of_find? hplan.found)]
    dsimp only
    rw [bind_apply_of_ok huntouched]
    rcases hplan.side with ⟨rfl, hlock, hunlock⟩ | ⟨rfl, hlock, hunlock⟩
    · rw [hlock, hunlock, shiftSide_of_far hplan.far]
      exact bind_apply_of_ok hshift _
    · rw [hlock, hunlock, shiftSide_of_far hplan.far]
      exact bind_apply_of_ok hshift _
  refine ⟨shifted, place, target, moved, position, ?_, hplace, htarget, horder, hshifted, hposition,
    rfl⟩
  rw [run_shift consistent calleesExist hplan.mode oracle, hplan.requests]
  exact Work.anyOf_singleton hrequest

/-! ### A lock that is taken by an invoke

The same program with two operands: one reads the lock, the other reads what nothing produced. -/

/-- A section whose lock is an invoke, and in which some work reads `operand`.  It is not to be
unfolded, lest runs on it are evaluated in passing. -/
@[irreducible] def invokedSection (operand : Operand) : Program :=
  Command.run [.declare "pthread_mutex_lock" .status, .declare "pthread_mutex_unlock" .status,
    .addFunction "main" .void [], .addBlock 2 "entry", .addBlock 2 "held", .addBlock 2 "failed",
    .push 2 0 (.ofOperation (.invoke (.direct 0) [.global "mutex"] .status 1 2)),
    .push 2 1 (.ofOperation (.other "work" [operand] .pointer)),
    .push 2 1 (.ofOperation (.call (.direct 1) [.global "mutex"] .status)),
    .push 2 1 (.ofOperation (.ret none)),
    .push 2 2 (.ofOperation .unreachable)]
    { name := "invoked" }

theorem consistent_invokedSection (operand : Operand) : (invokedSection operand).Consistent := by
  unfold invokedSection
  exact Command.consistent_run (Command.consistent_empty "invoked") _

/-- The pair of an invoked section. -/
def invokedPair : LockPair where
  family := .posix
  lock := {
    handle := ⟨0, 0⟩, function := 2, block := 0, target := 0, symbol := "pthread_mutex_lock"
    name := "pthread_mutex_lock", arguments := [.global "mutex"], result := .status
    attributes := .none, location := none, form := .invoke 1 2 }
  unlock := {
    handle := ⟨2, 0⟩, function := 2, block := 1, target := 1, symbol := "pthread_mutex_unlock"
    name := "pthread_mutex_unlock", arguments := [.global "mutex"], result := .status
    attributes := .none, location := none, form := .call }

/-- A plan that shifts the lock of the first pair of a category. -/
def shiftLock (category : Nat) (steps : Int) : LockPlan where
  mode := some .shift
  positions := [category, 0]
  lockDirections := [steps]
  unlockDirections := [0]

theorem shiftsAt_invokedPair {operand : Operand}
    (hfound : find? (.ofProgram .identity (invokedSection operand)) .category ⟨2, 0⟩ =
      some invokedPair) :
    (shiftLock 2 3).ShiftsAt .identity (invokedSection operand) invokedPair ⟨2, 0⟩
      invokedPair.lock 3 where
  mode := rfl
  requests := rfl
  found := hfound
  side := Or.inl ⟨rfl, rfl, rfl⟩
  far := Or.inl (by decide)

theorem movable_invokedPair (operand : Operand) :
    invokedPair.Movable { program := invokedSection operand } invokedPair.lock
      (.global "mutex") where
  lock_unedited := rfl
  unlock_unedited := rfl
  arguments := rfl
  argument_ne := by decide
  unused := fun hstatus => by cases hstatus

/-- The work reads the status of the lock, which moves behind it, ahead of the unlock. -/
theorem shift_layout_invokedSection :
    let program := invokedSection (.result ⟨0, 0⟩)
    let site := invokedPair.lock
    ∃ after place target moved position,
      run (shiftLock 2 3) .identity { program } = .ok true after ∧
      (site.startOrder program)[place]? = some (site.start program) ∧
      (site.startOrder program)[reach (site.startOrder program).length place 3]? = some target ∧
      after.program.handlesIn site.function = ((site.startOrder program).insertIdx
        (reach (site.startOrder program).length place 3) moved).filter (· != site.start program) ∧
      site.ShiftedAhead program after.program target moved ∧
      after.program.position moved = .ok position ∧
      after.ledger = shiftLedger (PairIndex.noted .identity { program }).ledger site
        (site.startOrder program).length place 3 moved position := by
  have consistent := consistent_invokedSection (.result ⟨0, 0⟩)
  refine @shift_layout { program := invokedSection (.result ⟨0, 0⟩) } invokedPair.lock invokedPair
    (shiftLock 2 3) ⟨2, 0⟩ .identity (.global "mutex") 3 consistent (by decide +kernel)
    (shiftsAt_invokedPair (by decide +kernel)) (movable_invokedPair _) ?_
  intro _ reader found hplaced _
  have hunread : ∀ reader ∈ (invokedSection (.result ⟨0, 0⟩)).handles,
      ∀ found ∈ (invokedSection (.result ⟨0, 0⟩)).placed? reader,
        ¬ found.instruction.Reads (invokedSection (.result ⟨0, 0⟩)).handleAfterNext := by
    decide +kernel
  exact hunread reader (consistent.mem_handles_iff_placed?.mpr ⟨found, hplaced⟩) found hplaced

/-- The work reads a result that nothing produced, under the handle that the plain call in the place
of the lock is given.  It does not name the lock, yet its operand becomes a zero status. -/
theorem shift_clears_start :
    let program := invokedSection (.result ⟨6, 0⟩)
    let site := invokedPair.lock
    program.Consistent ∧ program.Terminated ∧ (shiftLock 2 3).check = .ok () ∧
    (shiftLock 2 3).ShiftsAt .identity program invokedPair ⟨2, 0⟩ site 3 ∧
    invokedPair.Movable { program } site (.global "mutex") ∧
    program.placed? ⟨1, 0⟩ = some ⟨.ofOperation (.other "work" [.result ⟨6, 0⟩] .pointer), 2, 1⟩ ∧
    ∃ changed after, run (shiftLock 2 3) .identity { program } = .ok changed after ∧
      after.program.placed? ⟨1, 0⟩ = some ⟨.ofOperation (.other "work" [.success] .pointer), 2, 1⟩ ∧
      ∀ target moved, ¬ site.ShiftedAhead program after.program target moved := by
  intro program site
  have hread : program.placed? ⟨1, 0⟩ =
      some ⟨.ofOperation (.other "work" [.result ⟨6, 0⟩] .pointer), 2, 1⟩ := by decide +kernel
  have hruns : Runs (run (shiftLock 2 3) .identity) { program }
      (fun _ after => after.program.placed? ⟨1, 0⟩ =
        some ⟨.ofOperation (.other "work" [.success] .pointer), 2, 1⟩) fun _ _ => False := by
    decide +kernel
  obtain ⟨changed, after, hrun, hcleared⟩ := hruns.exists_ok
  refine ⟨consistent_invokedSection _, by decide +kernel, rfl,
    shiftsAt_invokedPair (by decide +kernel), movable_invokedPair _, hread, changed, after, hrun,
    hcleared, fun target moved hshifted => ?_⟩
  have hkept := hshifted.others hread (by decide)
  rw [hcleared, Option.some.injEq] at hkept
  exact absurd hkept (by decide +kernel)

end LockOperator

end ConcurrencyFaults

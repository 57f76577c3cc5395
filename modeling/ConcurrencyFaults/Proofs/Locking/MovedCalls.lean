import ConcurrencyFaults.Proofs.Locking.ChangedFunctions
import ConcurrencyFaults.Proofs.Locking.ShiftLayout

/-!
# What a shift makes of the calls that it moves

A shift writes down each call that it moves.  `MovesCalls` follows a run from one such entry to the
next; in between there are notes alone.  What is put in is the captured call with the first of its
arguments (`MovedCall.KeepsFirst`).  An invoke is moved only if it has no more than that, but a
plain call is moved with any number of arguments and loses the others.

## Strategy

One call is moved by a sequence of edits that is never refused (`exists_moved`); its witness records
what was put in and where.  Sides, requests and runs only append such records (`MovesKnown.trans`),
and the journal is read off the list at the end (`MovesCalls.transformations_eq`).
-/

namespace ConcurrencyFaults

open Program

/-- A call that is moved, and what is put in for it. -/
structure MovedCall where
  /-- The call as it was captured. -/
  site : CallSite
  steps : Int
  inserted : Instruction
  /-- The handle of what is put in, and its position. -/
  handle : Handle
  position : Nat

namespace MovedCall

/-- The entry that is written down for the move. -/
def entry (moved : MovedCall) : Entry :=
  LockOperator.shiftEntry moved.site moved.steps moved.position

/-- The call is there before and gone afterwards.  The plain call that stood in its place, if it was
not one itself, was erased, and another instruction was put in; one change was written down. -/
structure Takes (moved : MovedCall) (before after : Workspace) : Prop where
  intact : moved.site.Intact before.program
  stale : after.program.placed? moved.site.handle = none
  moves : ∃ argument between call target,
    LockOperator.plainCall moved.site argument before.program = .ok call between ∧
    between.Moves after.program call target moved.handle moved.inserted
  position_eq : after.program.position moved.handle = .ok moved.position
  records : ∃ notes : List Entry, (∀ note ∈ notes, note.isTransformation = false) ∧
    after.ledger.journal = before.ledger.journal.extend (notes ++ [moved.entry])

/-- What is put in is the captured call as a plain call with the first of its arguments. -/
structure KeepsFirst (moved : MovedCall) : Prop where
  operation : moved.inserted.operation =
    .call (.direct moved.site.target) (moved.site.arguments.take 1) moved.site.result
  attributes : moved.inserted.attributes = moved.site.attributes
  location : moved.inserted.location = moved.site.location
  arguments_ne : moved.site.arguments ≠ []
  invoke_count : moved.site.isInvoke = true → moved.site.argumentCount = 1

/-- The arguments are those of the captured call exactly if there is one. -/
theorem KeepsFirst.arguments_eq_iff {moved : MovedCall} (hkeeps : moved.KeepsFirst) :
    moved.inserted.operation =
        .call (.direct moved.site.target) moved.site.arguments moved.site.result ↔
      moved.site.argumentCount = 1 := by
  have hpos := List.length_pos_iff.mpr hkeeps.arguments_ne
  rw [hkeeps.operation, Operation.call.injEq, CallSite.argumentCount]
  constructor
  · rintro ⟨-, harguments, -⟩
    have hlength := congrArg List.length harguments
    rw [List.length_take] at hlength
    omega
  · exact fun hcount => ⟨rfl, List.take_of_length_le (by omega), rfl⟩

end MovedCall

/-! ## Runs that move calls

`MovesKnown` forgets the list and keeps of it that all calls which were moved are known. -/

/-- Some calls were moved one after the other, and no other change was made or written down. -/
inductive MovesCalls : Workspace → List MovedCall → Workspace → Prop where
  | refl (workspace : Workspace) : MovesCalls workspace [] workspace
  | quiet {before between after : Workspace} {moves : List MovedCall} :
      Quiet before between → MovesCalls between moves after → MovesCalls before moves after
  | move {before between after : Workspace} {moved : MovedCall} {moves : List MovedCall} :
      moved.Takes before between → MovesCalls between moves after →
        MovesCalls before (moved :: moves) after

namespace MovesCalls

variable {before between after : Workspace} {moves later : List MovedCall}

theorem trans (hfirst : MovesCalls before moves between)
    (hsecond : MovesCalls between later after) : MovesCalls before (moves ++ later) after := by
  induction hfirst with
  | refl => exact hsecond
  | quiet hquiet _ ih => exact .quiet hquiet (ih hsecond)
  | move htakes _ ih => exact .move htakes (ih hsecond)

theorem transformations_eq (hmoves : MovesCalls before moves after) :
    after.ledger.journal.transformations =
      before.ledger.journal.transformations ++ moves.map MovedCall.entry := by
  induction hmoves with
  | refl => simp
  | quiet hquiet _ ih =>
      obtain ⟨-, notes, hjournal, hnotes⟩ := hquiet
      rw [ih, hjournal, Journal.transformations_extend_of_notes hnotes]
  | @move before between after moved moves htakes _ ih =>
      obtain ⟨notes, hnotes, hjournal⟩ := htakes.records
      have hbetween : between.ledger.journal.transformations =
          before.ledger.journal.transformations ++ [moved.entry] := by
        rw [hjournal, ← Journal.extend_extend, Journal.transformations_extend,
          Journal.transformations_extend_of_notes hnotes]
        rfl
      calc after.ledger.journal.transformations
        _ = between.ledger.journal.transformations ++ moves.map MovedCall.entry := ih
        _ = before.ledger.journal.transformations ++ [moved.entry] ++
              moves.map MovedCall.entry := by rw [hbetween]
        _ = before.ledger.journal.transformations ++ (moved :: moves).map MovedCall.entry :=
          List.append_assoc ..

end MovesCalls

/-- The calls that were moved are known, and each kept the first of its arguments. -/
def MovesKnown (known : CallSite → Prop) (before after : Workspace) : Prop :=
  ∃ moves, MovesCalls before moves after ∧
    ∀ moved ∈ moves, known moved.site ∧ moved.KeepsFirst

namespace MovesKnown

variable {known : CallSite → Prop} {before between after : Workspace}

theorem of_quiet (hquiet : Quiet before after) : MovesKnown known before after :=
  ⟨[], .quiet hquiet (.refl after), by simp⟩

theorem refl (workspace : Workspace) : MovesKnown known workspace workspace :=
  .of_quiet (.refl workspace)

theorem trans (hfirst : MovesKnown known before between)
    (hsecond : MovesKnown known between after) : MovesKnown known before after := by
  obtain ⟨moves, hmoves, hknown⟩ := hfirst
  obtain ⟨later, hlater, hlaterKnown⟩ := hsecond
  refine ⟨moves ++ later, hmoves.trans hlater, fun moved hmem => ?_⟩
  rcases List.mem_append.mp hmem with hmem | hmem
  · exact hknown moved hmem
  · exact hlaterKnown moved hmem

theorem mono {more : CallSite → Prop} (hmoves : MovesKnown known before after)
    (hmore : ∀ site, known site → more site) : MovesKnown more before after := by
  obtain ⟨moves, hmoves, hknown⟩ := hmoves
  exact ⟨moves, hmoves, fun moved hmem =>
    ⟨hmore moved.site (hknown moved hmem).1, (hknown moved hmem).2⟩⟩

end MovesKnown

namespace LockOperator

open Work

variable {start : Program} {sites : List CallSite} {workspace : Workspace} {site : CallSite}
  {index : PairIndex} {pair : LockPair} {plan : LockPlan} {oracle : AliasOracle}
  {refused : EditError → Workspace → Prop}

/-- A call with arguments can be moved whatever notes were made before. -/
theorem exists_moved {argument : Operand} {others : List Operand}
    (consistent : workspace.program.Consistent) (hintact : site.Intact workspace.program)
    (harguments : site.arguments = argument :: others)
    (hinvoke : site.isInvoke = true → site.argumentCount = 1) (steps : Int) :
    ∃ moved : MovedCall, moved.site = site ∧ moved.KeepsFirst ∧ ∃ call between step,
      plainCall site argument workspace.program = .ok call between ∧
      between.step call steps = .ok step ∧
      ∀ ledger : Ledger, Quiet workspace { workspace with ledger } → ∃ after,
        finishShift site argument steps call step.target { program := between, ledger } =
          .ok true after ∧ moved.Takes workspace after := by
  obtain ⟨entry, hplaced, -, -⟩ := hintact.placed?
  obtain ⟨call, between, callEntry, hplain, -, hcall, -, -⟩ :=
    exists_plainCall consistent hintact argument
  -- the call itself, or the plain call that takes the place of an invoke
  have halters := runs_plainCall_alters consistent hplaced argument
  rw [Runs, hplain] at halters
  obtain ⟨hbetween, -, -, hgone⟩ := halters
  obtain ⟨step, target, hstep, htarget, -⟩ := exists_step hbetween hcall steps
  obtain ⟨inserted, removal, after, hinsert, hremoval, hmoves⟩ :=
    exists_moves hbetween hcall htarget (site.asCall [argument])
  obtain ⟨position, hposition⟩ :=
    exists_position hmoves.relists.consistent (hmoves.placed?_new htarget)
  -- the handle of an invoke was given up with it
  have hstale : after.placed? site.handle = none := by
    rcases hgone with rfl | ⟨hgone, hnext⟩
    · exact hmoves.stale
    · exact hmoves.placed?_of_stale (Option.map_eq_none_iff.mp hgone) hnext.symm
  refine ⟨⟨site, steps, site.asCall [argument], between.nextHandle, position⟩, rfl,
    ⟨?_, rfl, rfl, ?_, hinvoke⟩, call, between, step, hplain, hstep, ?_⟩
  · rw [harguments]
    rfl
  · rw [harguments]
    exact List.cons_ne_nil _ _
  · rintro ledger ⟨-, notes, hjournal, hnotes⟩
    refine ⟨_, finishShift_apply hinsert hremoval hposition steps ledger, hintact, hstale,
      ⟨argument, between, call, step.target, hplain, hmoves⟩, hposition, notes, hnotes, ?_⟩
    rw [Ledger.journal_recordAll, Ledger.journal_markEdited, Ledger.journal_markEdited, hjournal,
      Journal.extend_extend]
    rfl

/-- Whatever becomes of a call, no other is moved, and it keeps the first of its arguments. -/
theorem runs_shiftSite_moves (consistent : workspace.program.Consistent)
    (hintact : site.Intact workspace.program) (family : LockFamily) (steps : Int) :
    Runs (shiftSite site family steps) workspace (fun _ => MovesKnown (· = site) workspace)
      refused := by
  rw [shiftSite_eq]
  refine (runs_shiftObstacle?_invoke consistent hintact family).bind ?_
  rintro obstacle _ ⟨rfl, hinvoke⟩
  split
  · exact runs_bind_warn (runs_pure (.of_quiet (.of_note rfl)))
  · exact runs_pure (.refl _)
  · rename_i argument others harguments
    obtain ⟨moved, hsite, hkeeps, call, between, step, hplain, hstep, hfinish⟩ :=
      exists_moved consistent hintact harguments (hinvoke rfl) steps
    have hmoved : ∀ ledger : Ledger, Quiet workspace { workspace with ledger } →
        Runs (finishShift site argument steps call step.target) { program := between, ledger }
          (fun _ => MovesKnown (· = site) workspace) refused := by
      intro ledger hquiet
      obtain ⟨after, hafter, htakes⟩ := hfinish ledger hquiet
      refine runs_of_ok hafter ⟨[moved], .move htakes (.refl after), fun found hfound => ?_⟩
      rw [List.mem_singleton.mp hfound]
      exact ⟨hsite, hkeeps⟩
    refine runs_bind_edit hplain (runs_bind_query hstep ?_)
    split
    · exact runs_bind_warn (hmoved _ (.of_note rfl))
    · exact hmoved _ (.refl _)

theorem runs_shiftSide_moves (consistent : workspace.program.Consistent)
    (hintact : site.Intact workspace.program) (address : PairAddress) (role : LockRole)
    (family : LockFamily) (direction : Option Int) :
    Runs (shiftSide address role site family direction) workspace
      (fun _ => MovesKnown (· = site) workspace) refused := by
  unfold shiftSide
  split
  · exact runs_bind_warn (runs_pure (.of_quiet (.of_note rfl)))
  · exact runs_bind_warn (runs_pure (.of_quiet (.of_note rfl)))
  · exact runs_pure (.refl _)
  · exact runs_shiftSite_moves consistent hintact family _

/-- The call is a side of a pair of the index. -/
def IsSide (index : PairIndex) (site : CallSite) : Prop :=
  ∃ pair ∈ index.pairs, site = pair.lock ∨ site = pair.unlock

/-- A request moves at most the two calls of the pair that it names. -/
theorem runs_shiftRequest_moves (tracked : Tracked start sites workspace)
    (hindex : ∀ pair ∈ index.pairs, pair.Matched sites) (plan : LockPlan)
    (request : PairAddress × Nat) :
    Runs (shiftRequest index plan request) workspace
      (fun _ => MovesKnown (IsSide index) workspace) fun _ _ => True := by
  obtain ⟨address, number⟩ := request
  refine ((runs_resolve tracked plan.addressing address).and
    (silent_resolve index plan.addressing address _)).bind ?_
  rintro (_ | pair) state ⟨⟨tracked, hmem⟩, hstate⟩
  · exact runs_pure (.of_quiet hstate)
  · have hpair := hindex pair (hmem pair rfl)
    refine ((runs_isPairUntouched tracked hpair).and (silent_isPairUntouched pair _)).bind ?_
    rintro (_ | _) asked ⟨⟨tracked, -, hintact⟩, hasked⟩
    · exact runs_pure (.of_quiet (hstate.trans hasked))
    · obtain ⟨hlock, hunlock⟩ := hintact rfl
      refine ((runs_shiftSide tracked.consistent hlock address .lock pair.family
        plan.lockDirections[number]?).and (runs_shiftSide_moves tracked.consistent hlock address
          .lock pair.family plan.lockDirections[number]?)).bind ?_
      rintro lockMoved between ⟨hbetween, hlockMoves⟩
      -- moving the lock leaves the unlock alone
      have hstill := hbetween.intact hunlock (by simpa using hpair.handle_ne)
      refine (runs_shiftSide_moves hbetween.consistent hstill address .unlock pair.family
        plan.unlockDirections[number]?).bind ?_
      intro unlockMoved after hunlockMoves
      have hlockSide : MovesKnown (IsSide index) asked between :=
        hlockMoves.mono fun site hsite => ⟨pair, hmem pair rfl, Or.inl hsite⟩
      have hunlockSide : MovesKnown (IsSide index) between after :=
        hunlockMoves.mono fun site hsite => ⟨pair, hmem pair rfl, Or.inr hsite⟩
      exact runs_pure ((MovesKnown.of_quiet (hstate.trans hasked)).trans
        (hlockSide.trans hunlockSide))

/-- Whatever was done before, a shift moves calls of the index alone. -/
theorem runs_shift_moves (tracked : Tracked start sites workspace)
    (hindex : ∀ pair ∈ index.pairs, pair.Matched sites) (plan : LockPlan) :
    Runs (shift index plan) workspace (fun _ => MovesKnown (IsSide index) workspace) refused := by
  rw [shift_eq]
  refine (runs_anyOf (fun state => Tracked start sites state ∧
    MovesKnown (IsSide index) workspace state) (fun request _ state hstate => ?_)
    ⟨tracked, .refl workspace⟩).weaken fun _ _ hafter => hafter.2
  refine ((runs_shiftRequest hstate.1 hindex plan request).and_answered
    (runs_shiftRequest_moves hstate.1 hindex plan request)).weaken ?_
  exact fun _ after hafter => ⟨hafter.1, hstate.2.trans hafter.2⟩

/-- Each change that a shift writes down is a call of a pair that moved.  What was put in for it has
its target, its result, its attributes and its location, and its arguments too if it had one;
otherwise all but the first are missing. -/
theorem shift_moves (consistent : workspace.program.Consistent) (hmode : plan.mode = some .shift)
    (oracle : AliasOracle) :
    Runs (run plan oracle) workspace
      (fun _ after => ∃ moves, MovesCalls workspace moves after ∧
        after.ledger.journal.transformations =
          workspace.ledger.journal.transformations ++ moves.map MovedCall.entry ∧
        ∀ moved ∈ moves, IsSide (.ofProgram oracle workspace.program) moved.site ∧
          CallSite.capture workspace.program moved.site.handle true = .ok (some moved.site) ∧
          moved.KeepsFirst ∧
          (moved.inserted.operation =
              .call (.direct moved.site.target) moved.site.arguments moved.site.result ↔
            moved.site.argumentCount = 1))
      fun _ after => Quiet workspace after := by
  have hnoted := PairIndex.quiet_noted oracle workspace
  unfold run
  rw [hmode]
  dsimp only
  refine ((PairIndex.runs_build_tracked consistent oracle).imp
    (fun _ _ hbuilt => hbuilt) ?_).bind ?_
  · rintro problem _ rfl
    exact hnoted
  · rintro _ _ ⟨rfl, rfl, found, hfinds, hindex, tracked⟩
    refine (runs_shift_moves tracked hindex plan).weaken ?_
    rintro _ after hafter
    obtain ⟨moves, hmoves, hknown⟩ := (MovesKnown.of_quiet hnoted).trans hafter
    refine ⟨moves, hmoves, hmoves.transformations_eq, fun moved hmem => ?_⟩
    obtain ⟨⟨pair, hpair, hside⟩, hkeeps⟩ := hknown moved hmem
    have hfound : moved.site ∈ found.sites := by
      rcases hside with hside | hside
      · exact hside ▸ (hindex pair hpair).lock_mem
      · exact hside ▸ (hindex pair hpair).unlock_mem
    have hcapture := CallSearch.capture_of_siteAt (hfinds _ hfound)
    exact ⟨⟨pair, hpair, hside⟩, hcapture, hkeeps, hkeeps.arguments_eq_iff⟩

/-- A critical section whose lock has a second argument.  It is not to be unfolded, lest runs on it
are evaluated in passing. -/
@[irreducible] def flaggedSection : Program :=
  Command.run [.declare "pthread_mutex_lock" .status, .declare "pthread_mutex_unlock" .status,
    .addFunction "main" .void [], .addBlock 2 "entry",
    .push 2 0 (.ofOperation (.call (.direct 0) [.global "mutex", .global "flags"] .status)),
    .push 2 0 (.ofOperation (.other "work" [] .pointer)),
    .push 2 0 (.ofOperation (.other "work" [] .pointer)),
    .push 2 0 (.ofOperation (.call (.direct 1) [.global "mutex"] .status)),
    .push 2 0 (.ofOperation (.ret none))]
    { name := "held" }

theorem consistent_flaggedSection : flaggedSection.Consistent := by
  unfold flaggedSection
  exact Command.consistent_run (Command.consistent_empty "held") _

theorem shift_moves_flaggedSection :
    Runs (run (shiftLock 0 2) .identity) { program := flaggedSection }
      (fun _ after => ∃ moves, MovesCalls { program := flaggedSection } moves after ∧
        after.ledger.journal.transformations =
          Ledger.empty.journal.transformations ++ moves.map MovedCall.entry ∧
        ∀ moved ∈ moves, IsSide (.ofProgram .identity flaggedSection) moved.site ∧
          CallSite.capture flaggedSection moved.site.handle true = .ok (some moved.site) ∧
          moved.KeepsFirst ∧
          (moved.inserted.operation =
              .call (.direct moved.site.target) moved.site.arguments moved.site.result ↔
            moved.site.argumentCount = 1))
      fun _ after => Quiet { program := flaggedSection } after :=
  @shift_moves { program := flaggedSection } (shiftLock 0 2) consistent_flaggedSection rfl .identity

/-- The lock is moved behind the first work, and what is put in for it has lost an argument. -/
theorem argument_lost :
    flaggedSection.Consistent ∧ (shiftLock 0 2).check = .ok () ∧
    ∃ site, CallSite.capture flaggedSection ⟨0, 0⟩ true = .ok (some site) ∧
      site.arguments = [.global "mutex", .global "flags"] ∧
      ∃ changed after,
        run (shiftLock 0 2) .identity { program := flaggedSection } = .ok changed after ∧
        after.ledger.journal.transformations = [shiftEntry site 2 1] ∧
        after.program.placed? ⟨0, 0⟩ = none ∧
        after.program.placed? ⟨5, 0⟩ =
          some ⟨.ofOperation (.call (.direct 0) [.global "mutex"] .status), 2, 0⟩ := by
  let site : CallSite := {
    handle := ⟨0, 0⟩, function := 2, block := 0, target := 0, symbol := "pthread_mutex_lock"
    name := "pthread_mutex_lock", arguments := [.global "mutex", .global "flags"], result := .status
    attributes := .none, location := none, form := .call }
  have hruns : Runs (run (shiftLock 0 2) .identity) { program := flaggedSection }
      (fun _ after => after.ledger.journal.transformations = [shiftEntry site 2 1] ∧
        after.program.placed? ⟨0, 0⟩ = none ∧
        after.program.placed? ⟨5, 0⟩ =
          some ⟨.ofOperation (.call (.direct 0) [.global "mutex"] .status), 2, 0⟩)
      fun _ _ => False := by
    decide +kernel
  obtain ⟨changed, after, hrun, hafter⟩ := hruns.exists_ok
  exact ⟨consistent_flaggedSection, rfl, site, by decide +kernel, rfl, changed, after, hrun, hafter⟩

end LockOperator

end ConcurrencyFaults

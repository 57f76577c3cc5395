import ConcurrencyFaults.Proofs.Arena.Edits

/-!
# Sequences of edits

A program is built and changed by sequences of edits with arbitrary arguments, some of which are
refused.  `Command` names the edits, `Command.perform` carries one out and notes which handle it
issued and which it erased, and `Command.run` carries out a sequence.

All that most files need to know of a single command is in `Effect`: the program stays consistent,
and the slots change exactly as the note says.  Consistency of every program that can be reached
from an empty one follows by induction.

## Strategy

* `Command.outcome` is the only place where the commands are told apart.  For each there is an
  equation of the edit for every way in which it can end, and `Outcome.of_refused` and
  `Outcome.of_answered` turn such an equation into the outcome.  There are fewer outcomes than
  commands, since all insertions are alike, and so are all refusals.
* What holds of every command is shown for each outcome: the effect here (`Command.effect`), and
  elsewhere what becomes of the instructions that a command does not erase.
* A run is an induction on its commands.
-/

namespace ConcurrencyFaults

/-! ## Commands -/

/-- One edit with its arguments. -/
inductive Command where
  | addFunction (name : String) (result : Ty) (parameters : List Ty)
  | declare (name : String) (result : Ty)
  | getOrDeclare (name : String) (result : Ty) (parameters : List Ty)
  | addBlock (function : FunctionId) (label : String)
  | push (function : FunctionId) (block : BlockId) (instruction : Instruction)
  | insertBefore (anchor : Handle) (instruction : Instruction)
  | insertRelative (base : Handle) (instruction : Instruction) (steps : Nat)
  | changeInstruction (handle : Handle) (change : Instruction → Instruction)
  | replaceAllUses (handle : Handle) (value : Operand)
  | erase (handle : Handle)
  | eraseOrZero (handle : Handle) (width : Nat) (signed : Bool)
  | replaceWith (old : Handle) (new : Instruction)

/-- The handle that a command issued, and the one that it erased. -/
structure Trace where
  issued? : Option Handle := none
  erased? : Option Handle := none
deriving DecidableEq, Repr, Inhabited

/-- Carries out an edit.  A refused edit leaves an empty trace. -/
def Edit.perform {Answer : Type} (edit : Edit Answer) (trace : Answer → Trace)
    (program : Program) : Trace × Program :=
  match edit program with
  | .ok answer after => (trace answer, after)
  | .error _ after => ({}, after)

namespace Command

/-- Carries out one command. -/
def perform (command : Command) (program : Program) : Trace × Program :=
  match command with
  | .addFunction name result parameters => ({}, (program.addFunction name result parameters).2)
  | .declare name result => ({}, (program.declare name result).2)
  | .getOrDeclare name result parameters => ({}, (program.getOrDeclare name result parameters).2)
  | .addBlock function label =>
      Edit.perform (Program.addBlock function label) (fun _ => {}) program
  | .push function block instruction =>
      Edit.perform (Program.push function block instruction)
        (fun handle => { issued? := some handle }) program
  | .insertBefore anchor instruction =>
      Edit.perform (Program.insertBefore anchor instruction)
        (fun handle => { issued? := some handle }) program
  | .insertRelative base instruction steps =>
      Edit.perform (Program.insertRelative base instruction steps)
        (fun answer => { issued? := some answer.1 }) program
  | .changeInstruction handle change =>
      Edit.perform (Program.changeInstruction handle change) (fun _ => {}) program
  | .replaceAllUses handle value =>
      Edit.perform (Program.replaceAllUses handle value) (fun _ => {}) program
  | .erase handle =>
      Edit.perform (Program.erase handle) (fun _ => { erased? := some handle }) program
  | .eraseOrZero handle width signed =>
      Edit.perform (Program.eraseOrZero handle width signed)
        (fun _ => { erased? := some handle }) program
  | .replaceWith old new =>
      Edit.perform (Program.replaceWith old new)
        (fun handle => { issued? := some handle, erased? := some old }) program

/-- Carries out commands one after another. -/
def run (commands : List Command) (program : Program) : Program :=
  commands.foldl (fun program command => (command.perform program).2) program

/-- What the commands of a sequence issue and erase, command by command. -/
def traces : List Command → Program → List Trace
  | [], _ => []
  | command :: rest, program =>
      (command.perform program).1 :: traces rest (command.perform program).2

/-- The handles that a sequence of commands issues. -/
def issuedIn (commands : List Command) (program : Program) : List Handle :=
  (traces commands program).filterMap Trace.issued?

/-- The handles that a sequence of commands erases. -/
def erasedIn (commands : List Command) (program : Program) : List Handle :=
  (traces commands program).filterMap Trace.erased?

end Command

/-! ## What a command comes down to

A refused command hands the program back.  Any other is one or two changes of the arena, for which
an outcome keeps what makes them legal ones. -/

open Program in
/-- What a command makes of a program, with the handles that it issues and erases. -/
inductive Command.Outcome (program : Program) : Command → Trace → Program → Prop where
  | refused (command : Command) : Outcome program command {} program
  | added (command : Command) (name : String) (result : Ty) (parameters : List Ty) :
      Outcome program command {} (program.addFunction name result parameters).2
  | opened (command : Command) {id : FunctionId} {function : Function}
      (hfunction : program.function? id = some function) (label : String) :
      Outcome program command {} (program.appendBlock id function.blocks.length label)
  | inserted (command : Command) (entry : Placed) (place : Handle → List Handle → List Handle)
      (hafter : (program.insertEntry entry place).Consistent) :
      Outcome program command { issued? := some program.nextHandle }
        (program.insertEntry entry place)
  | overwritten (handle : Handle) (change : Instruction → Instruction) :
      Outcome program (.changeInstruction handle change) {}
        (program.modifyInstruction handle change)
  | redirected (command : Command) (function : FunctionId) (handle : Handle) (value : Operand) :
      Outcome program command {} (program.rewriteFunction function (replacing handle value))
  | erased (command : Command) {handle : Handle} {entry : Placed}
      (hplaced : program.placed? handle = some entry) :
      Outcome program command { erased? := some handle } (program.eraseEntry handle entry)
  /-- Its readers are left with another value. -/
  | cleared (command : Command) {handle : Handle} {entry : Placed}
      (hplaced : program.placed? handle = some entry) (value : Operand) :
      Outcome program command { erased? := some handle }
        ((program.rewriteFunction entry.function (replacing handle value)).eraseEntry handle
          (entry.rewrite entry.function (replacing handle value)))
  | replaced (command : Command) {handle : Handle} {entry : Placed}
      (hplaced : program.placed? handle = some entry) (new : Instruction) (value : Operand) :
      Outcome program command { issued? := some program.nextHandle, erased? := some handle }
        (program.substituteEntry handle entry new value)

namespace Command

open Program

variable {program after : Program} {command : Command} {Answer : Type} {edit : Edit Answer}
  {trace : Answer → Trace}

theorem Outcome.of_refused {problem : EditError}
    (hrefused : edit program = .error problem program) :
    Outcome program command (edit.perform trace program).1 (edit.perform trace program).2 := by
  simpa only [Edit.perform, hrefused] using Outcome.refused command

theorem Outcome.of_answered {answer : Answer} (hanswered : edit program = .ok answer after)
    (houtcome : Outcome program command (trace answer) after) :
    Outcome program command (edit.perform trace program).1 (edit.perform trace program).2 := by
  simpa only [Edit.perform, hanswered] using houtcome

/-- A function of the name is looked for first. -/
theorem Outcome.getOrDeclare (command : Command) (name : String) (result : Ty)
    (parameters : List Ty) :
    Outcome program command {} (program.getOrDeclare name result parameters).2 := by
  rcases program.getOrDeclare_cases name result parameters with hsame | hadded
  · rw [hsame]
    exact .refused command
  · rw [hadded]
    exact .added command name result parameters

theorem outcome (consistent : program.Consistent) (command : Command) :
    Outcome program command (command.perform program).1 (command.perform program).2 := by
  cases command with
  | addFunction name result parameters => exact .added _ name result parameters
  | declare name result => exact .getOrDeclare _ name result []
  | getOrDeclare name result parameters => exact .getOrDeclare _ name result parameters
  | addBlock function label =>
      cases hfunction : program.function? function with
      | none => exact .of_refused (addBlock_of_unknown hfunction label)
      | some found =>
          exact .of_answered (addBlock_of_function? hfunction label) (.opened _ hfunction label)
  | push function block instruction =>
      cases hblock : program.block? function block with
      | none =>
          obtain ⟨problem, hrefused⟩ := push_of_unknown hblock instruction
          exact .of_refused hrefused
      | some found =>
          exact .of_answered (push_of_block? hblock instruction)
            (.inserted _ _ _ (consistent.pushEntry hblock instruction))
  | insertBefore anchor instruction =>
      cases hplaced : program.placed? anchor with
      | none => exact .of_refused (insertBefore_of_stale hplaced instruction)
      | some entry =>
          exact .of_answered (insertBefore_of_placed? consistent hplaced instruction)
            (.inserted _ _ _ (consistent.insertAhead hplaced instruction))
  | insertRelative base instruction steps =>
      cases hplaced : program.placed? base with
      | none => exact .of_refused (insertRelative_of_stale hplaced instruction steps)
      | some entry =>
          obtain ⟨anchor, target, clamped, hanchor, -, hanswered⟩ :=
            insertRelative_of_placed? consistent hplaced instruction steps
          exact .of_answered hanswered
            (.inserted _ _ _ (consistent.insertAhead hanchor instruction))
  | changeInstruction handle change =>
      cases hplaced : program.placed? handle with
      | none => exact .of_refused (changeInstruction_of_stale hplaced change)
      | some entry =>
          exact .of_answered (changeInstruction_of_placed? hplaced change)
            (.overwritten handle change)
  | replaceAllUses handle value =>
      cases hplaced : program.placed? handle with
      | none => exact .of_refused (replaceAllUses_of_stale hplaced value)
      | some entry =>
          obtain ⟨uses, hanswered⟩ := replaceAllUses_of_placed? consistent hplaced value
          exact .of_answered hanswered (.redirected _ entry.function handle value)
  | erase handle =>
      cases hplaced : program.placed? handle with
      | none => exact .of_refused (erase_of_stale hplaced)
      | some entry =>
          obtain ⟨uses, huses⟩ := exists_useCount consistent hplaced
          rcases Nat.eq_zero_or_pos uses with rfl | hpos
          · exact .of_answered (erase_of_unused hplaced huses) (.erased _ hplaced)
          · exact .of_refused (erase_of_used huses hpos)
  | eraseOrZero handle width signed =>
      cases hplaced : program.placed? handle with
      | none => exact .of_refused (eraseOrZero_of_stale hplaced width signed)
      | some entry =>
          obtain ⟨removal, hanswered⟩ := eraseOrZero_of_placed? consistent hplaced width signed
          exact .of_answered hanswered (.cleared _ hplaced (zeroed width signed))
  | replaceWith old new =>
      cases hplaced : program.placed? old with
      | none => exact .of_refused (replaceWith_of_stale hplaced new)
      | some entry =>
          exact .of_answered (replaceWith_of_placed? consistent hplaced new)
            (.replaced _ hplaced new _)

end Command

/-! ## Slots

For stale handles it does not matter what a slot holds, only its generation and whether it is
filled.  This pair is its occupancy. -/

namespace Program

variable {program : Program} {handle : Handle} {entry : Placed}

/-- The generation of a slot and whether the slot is filled. -/
def occupancy (program : Program) (slot : Nat) : Option (Nat × Bool) :=
  program.slots[slot]?.map fun slot => (slot.generation, slot.entry.isSome)

theorem occupancy_of_placed? (hplaced : program.placed? handle = some entry) :
    program.occupancy handle.slot = some (handle.generation, true) := by
  rw [placed?_eq_some_iff] at hplaced
  simp [occupancy, hplaced]

theorem placed?_eq_none_of_occupancy {generation : Nat} {filled : Bool}
    (hoccupancy : program.occupancy handle.slot = some (generation, filled))
    (hstale : filled = false ∨ generation ≠ handle.generation) :
    program.placed? handle = none := by
  rw [Option.eq_none_iff_forall_ne_some]
  intro entry hplaced
  rw [occupancy_of_placed? hplaced, Option.some.injEq, Prod.mk.injEq] at hoccupancy
  rcases hstale with rfl | hne
  · exact Bool.noConfusion hoccupancy.2
  · exact hne hoccupancy.1.symm

theorem occupancy_insertEntry (hfree : program.FreeListExact)
    (place : Handle → List Handle → List Handle) :
    (program.insertEntry entry place).occupancy =
      Function.update program.occupancy program.nextHandle.slot
        (some (program.nextHandle.generation, true)) := by
  funext slot
  show (program.store entry).2.occupancy slot = _
  unfold occupancy
  rw [slots_store hfree]
  by_cases hslot : slot = program.nextHandle.slot <;> simp [hslot]

theorem occupancy_eraseEntry (hplaced : program.placed? handle = some entry) :
    (program.eraseEntry handle entry).occupancy =
      Function.update program.occupancy handle.slot
        (some ((handle.generation + 1) % Slot.generationLimit, false)) := by
  funext slot
  unfold occupancy eraseEntry
  rw [@slots_release (program.modifyHandles entry.function entry.block _) handle entry hplaced]
  by_cases hslot : slot = handle.slot
  · simp [hslot]
  · simp [hslot, modifyHandles, modifyFunction]

theorem occupancy_modifyInstruction (change : Instruction → Instruction) :
    (program.modifyInstruction handle change).occupancy = program.occupancy := by
  cases hplaced : program.placed? handle with
  | none => rw [modifyInstruction_of_stale hplaced]
  | some entry =>
      funext slot
      unfold occupancy
      rw [slots_modifyInstruction hplaced]
      by_cases hslot : slot = handle.slot
      · simp [hslot, placed?_eq_some_iff.mp hplaced]
      · simp [hslot]

theorem occupancy_rewriteFunction (function : FunctionId) (change : Operand → Operand) :
    (program.rewriteFunction function change).occupancy = program.occupancy := by
  unfold rewriteFunction
  generalize ((program.function? function).map Function.handles).getD [] = readers
  induction readers generalizing program with
  | nil => rfl
  | cons reader rest ih => exact ih.trans (occupancy_modifyInstruction _)

end Program

/-! ## What a command does

A trace names at most one handle that was issued and one that was erased, and `Trace.applyTo` says
what this does to the occupancy of all slots.  A replacement does both: it fills a slot first and
empties another one then, never the same, as the old instruction is live while the new one is
stored. -/

/-- The slots after a handle was issued and another erased. -/
def Trace.applyTo (trace : Trace) (occupancy : Nat → Option (Nat × Bool)) :
    Nat → Option (Nat × Bool) :=
  let filled := match trace.issued? with
    | some handle => Function.update occupancy handle.slot (some (handle.generation, true))
    | none => occupancy
  match trace.erased? with
  | some handle =>
      Function.update filled handle.slot
        (some ((handle.generation + 1) % Slot.generationLimit, false))
  | none => filled

/-- A command keeps the program consistent, issues at most the next handle, erases at most a live
handle, and touches no other slot. -/
structure Effect (before : Program) (trace : Trace) (after : Program) : Prop where
  consistent : after.Consistent
  occupancy : after.occupancy = trace.applyTo before.occupancy
  issued : ∀ handle, trace.issued? = some handle → handle = before.nextHandle
  erased : ∀ handle, trace.erased? = some handle → ∃ entry, before.placed? handle = some entry

namespace Effect

variable {before after : Program}

theorem of_occupancy_eq (hconsistent : after.Consistent)
    (hoccupancy : after.occupancy = before.occupancy) : Effect before {} after :=
  ⟨hconsistent, hoccupancy, by simp, by simp⟩

theorem of_inserted {entry : Placed} {place : Handle → List Handle → List Handle}
    (consistent : before.Consistent) (hafter : (before.insertEntry entry place).Consistent) :
    Effect before { issued? := some before.nextHandle } (before.insertEntry entry place) :=
  ⟨hafter, Program.occupancy_insertEntry consistent.toFreeListExact place,
    fun _ hissued => (Option.some.inj hissued).symm, by simp⟩

theorem of_erased {handle : Handle} {entry rewritten : Placed} {program : Program}
    (hplaced : before.placed? handle = some entry) (consistent : program.Consistent)
    (hrewritten : program.placed? handle = some rewritten)
    (hoccupancy : program.occupancy = before.occupancy) :
    Effect before { erased? := some handle } (program.eraseEntry handle rewritten) := by
  refine ⟨consistent.eraseEntry hrewritten, ?_, by simp, fun other herased => ?_⟩
  · rw [Program.occupancy_eraseEntry hrewritten, hoccupancy]
    rfl
  · exact ⟨entry, Option.some.inj herased ▸ hplaced⟩

end Effect

namespace Program

variable {program : Program} {handle : Handle} {entry : Placed}

theorem effect_substituteEntry (consistent : program.Consistent)
    (hplaced : program.placed? handle = some entry) (new : Instruction) (value : Operand) :
    Effect program { issued? := some program.nextHandle, erased? := some handle }
      (program.substituteEntry handle entry new value) := by
  have hinserted := consistent.insertAhead hplaced new
  have hafter := placed?_rewriteFunction_insertAhead consistent hplaced new value
  refine ⟨(hinserted.rewriteFunction _ _).eraseEntry hafter, ?_, ?_, ?_⟩
  · calc (program.substituteEntry handle entry new value).occupancy
      _ = Function.update ((program.insertEntry ⟨new, entry.function, entry.block⟩
            (ahead handle)).rewriteFunction entry.function (replacing handle value)).occupancy
          handle.slot (some ((handle.generation + 1) % Slot.generationLimit, false)) :=
        occupancy_eraseEntry hafter
      _ = Function.update (Function.update program.occupancy program.nextHandle.slot
            (some (program.nextHandle.generation, true)))
          handle.slot (some ((handle.generation + 1) % Slot.generationLimit, false)) := by
        rw [occupancy_rewriteFunction, occupancy_insertEntry consistent.toFreeListExact]
  · exact fun _ hissued => (Option.some.inj hissued).symm
  · exact fun other herased => ⟨entry, Option.some.inj herased ▸ hplaced⟩

end Program

open Program in
theorem Command.effect {program : Program} (consistent : program.Consistent) (command : Command) :
    Effect program (command.perform program).1 (command.perform program).2 := by
  have houtcome := command.outcome consistent
  generalize (command.perform program).1 = trace, (command.perform program).2 = after at houtcome ⊢
  cases houtcome with
  | refused => exact .of_occupancy_eq consistent rfl
  | added _ name result parameters =>
      exact .of_occupancy_eq (consistent.addFunction name result parameters) rfl
  | opened _ hfunction label => exact .of_occupancy_eq (consistent.appendBlock hfunction label) rfl
  | inserted _ entry place hafter => exact .of_inserted consistent hafter
  | overwritten handle change =>
      exact .of_occupancy_eq (consistent.modifyInstruction handle change)
        (occupancy_modifyInstruction change)
  | redirected _ function handle value =>
      exact .of_occupancy_eq (consistent.rewriteFunction _ _) (occupancy_rewriteFunction _ _)
  | erased _ hplaced => exact .of_erased hplaced consistent hplaced rfl
  | cleared _ hplaced value =>
      exact .of_erased hplaced (consistent.rewriteFunction _ _)
        (placed?_rewriteFunction_of_placed? consistent hplaced _ _)
        (occupancy_rewriteFunction _ _)
  | replaced _ hplaced new value => exact effect_substituteEntry consistent hplaced new value

/-! ## Reachable programs

The step is `Command.effect`; the run is an induction on the commands, for any program to start
from. -/

namespace Command

/-- A program without functions, slots and free places is consistent. -/
theorem consistent_empty (name : String) : Program.Consistent { name } :=
  Program.Consistent.of_blocks ⟨List.nodup_nil, by simp⟩ (by simp [Program.function?])
    (by simp [Program.block?, Program.function?]) (by simp [Program.block?, Program.function?])
    (by simp [Program.block?, Program.function?]) (by simp [Program.placed?_eq_some_iff])

theorem consistent_run {program : Program} (consistent : program.Consistent)
    (commands : List Command) : (run commands program).Consistent := by
  induction commands generalizing program with
  | nil => exact consistent
  | cons command rest ih => exact ih (command.effect consistent).consistent

/-- Whatever is done to an empty program, and whichever of it is refused, the slots, the lists of
the blocks and the free list stay in step. -/
theorem consistent_of_empty (name : String) (commands : List Command) :
    (run commands { name }).Consistent :=
  consistent_run (consistent_empty name) commands

end Command

end ConcurrencyFaults

import ConcurrencyFaults.Proofs.Arena.Staleness
import ConcurrencyFaults.Proofs.Relocation
import ConcurrencyFaults.Proofs.Rewiring
import ConcurrencyFaults.Proofs.Succession

/-!
# Snapshots of calls

A captured site is compared with its program by the function that is called, and by nothing else.
That this suffices, whatever is done to the program in between, rests on two facts about a history
of edits.

* What is not erased is carried along (`Program.Carries`): it stays in its block, is the same
  operation, and of its operands only those change that read results.  Functions keep their names.
* What is erased is outgrown (`Program.Outgrown`): every release of its slot moves it one generation
  further, so another call of the same function in the same slot has another handle.

The second fact needs that the slot was released less often than there are generations.

## Strategy

* Each change of the arena has its lemma on what it carries along (`carries_insertEntry` and those
  next to it).  A command comes down to some of these or is refused, and a refusal carries all
  (`Command.carries`); histories compose by `Carries.trans` (`Command.carries_run`).
* That a handle is outgrown begins with its erasure (`Effect.outgrown_of_erased`), and every later
  command keeps it so, with the number of releases as a bound (`Effect.outgrown`).
* A call that is carried along can be captured again (`exists_capture_of_carries`), one that is
  outgrown is stale; hence the two directions of `validate_run_iff`.
-/

namespace ConcurrencyFaults

namespace Program

variable {program before between after : Program} {handle : Handle} {entry : Placed}
  {erased later : List Handle}

/-! ## What stays

An edit changes the outline or the instructions, but not both: one side of `Carries` is always
trivial (`Carries.of_outline_eq`, `Carries.of_placed?_eq`). -/

/-- Functions keep their names.  Instructions that are not erased keep their places and, but for
operands that read results, what they do. -/
structure Carries (before after : Program) (erased : List Handle) : Prop where
  function? : ∀ {id function}, before.function? id = some function →
    ∃ found, after.function? id = some found ∧ found.name = function.name
  placed? : ∀ {handle entry}, before.placed? handle = some entry → handle ∉ erased →
    ∃ gone found, after.placed? handle = some found ∧ entry.Rewired gone found

namespace Carries

theorem refl (program : Program) : program.Carries program [] where
  function? := fun hfunction => ⟨_, hfunction, rfl⟩
  placed? := fun {_ entry} hplaced _ => ⟨[], entry, hplaced, .refl [] entry⟩

theorem trans (hfirst : before.Carries between erased) (hsecond : between.Carries after later) :
    before.Carries after (erased ++ later) where
  function? := by
    intro id function hfunction
    obtain ⟨middle, hmiddle, hname⟩ := hfirst.function? hfunction
    obtain ⟨found, hfound, hlater⟩ := hsecond.function? hmiddle
    exact ⟨found, hfound, hlater.trans hname⟩
  placed? := by
    intro handle entry hplaced hnot
    rw [List.mem_append, not_or] at hnot
    obtain ⟨gone, middle, hmiddle, hrewired⟩ := hfirst.placed? hplaced hnot.1
    obtain ⟨others, found, hfound, hlater⟩ := hsecond.placed? hmiddle hnot.2
    exact ⟨gone ++ others, found, hfound,
      (hrewired.mono (List.subset_append_left gone others)).trans
        (hlater.mono (List.subset_append_right gone others))⟩

/-- An edit that leaves the outline is judged by the instructions. -/
theorem of_outline_eq (houtline : after.outline = before.outline)
    (hstays : ∀ {handle entry}, before.placed? handle = some entry → handle ∉ erased →
      ∃ gone found, after.placed? handle = some found ∧ entry.Rewired gone found) :
    before.Carries after erased where
  function? := by
    intro id function hfunction
    obtain ⟨found, hfound, hsame⟩ := exists_function?_of_outline houtline.symm hfunction
    exact ⟨found, hfound, (congrArg Function.name hsame :)⟩
  placed? := hstays

/-- An edit that leaves the instructions is judged by the functions. -/
theorem of_placed?_eq (hplaced : after.placed? = before.placed?)
    (hfunctions : ∀ {id function}, before.function? id = some function →
      ∃ found, after.function? id = some found ∧ found.name = function.name) :
    before.Carries after [] where
  function? := hfunctions
  placed? := fun {_ entry} hfound _ => ⟨[], entry, by rw [hplaced, hfound], .refl [] entry⟩

end Carries

theorem carries_addFunction (program : Program) (name : String) (result : Ty)
    (parameters : List Ty) : program.Carries (program.addFunction name result parameters).2 [] := by
  refine .of_placed?_eq rfl fun {id function} hfunction => ⟨function, ?_, rfl⟩
  have hlt : id < program.functions.length := (List.getElem?_eq_some_iff.mp hfunction).1
  rw [function?_addFunction, if_neg (Nat.ne_of_lt hlt), hfunction]

theorem carries_appendBlock (program : Program) (function : FunctionId) (count : Nat)
    (label : String) : program.Carries (program.appendBlock function count label) [] := by
  refine .of_placed?_eq rfl fun {id found} hfunction => ?_
  rw [function?_appendBlock, hfunction]
  refine ⟨_, rfl, ?_⟩
  split
  · rfl
  · rfl

theorem carries_insertEntry (consistent : program.Consistent) (entry : Placed)
    (place : Handle → List Handle → List Handle) :
    program.Carries (program.insertEntry entry place) [] :=
  .of_outline_eq (outline_insertEntry place) fun {_ found} hplaced _ =>
    ⟨[], found, placed?_insertEntry_of_placed? consistent.toFreeListExact hplaced entry place,
      .refl [] found⟩

theorem carries_rewriteFunction (consistent : program.Consistent) (function : FunctionId)
    (handle : Handle) (value : Operand) :
    program.Carries (program.rewriteFunction function (replacing handle value)) [] :=
  .of_outline_eq (outline_rewriteFunction function _) fun {_ found} hplaced _ =>
    ⟨[handle], _, placed?_rewriteFunction_of_placed? consistent hplaced function _,
      .rewrite_replacing function handle value found⟩

theorem carries_eraseEntry (hplaced : program.placed? handle = some entry) :
    program.Carries (program.eraseEntry handle entry) [handle] := by
  refine .of_outline_eq outline_eraseEntry fun {other found} hother hnot => ?_
  rw [List.mem_singleton] at hnot
  refine ⟨[], found, ?_, .refl [] found⟩
  rw [placed?_eraseEntry_of_ne hplaced hnot, hother]

theorem carries_substituteEntry (consistent : program.Consistent)
    (hplaced : program.placed? handle = some entry) (new : Instruction) (value : Operand) :
    program.Carries (program.substituteEntry handle entry new value) [handle] := by
  refine .of_outline_eq (outline_substituteEntry ..) fun {other found} hother hnot => ?_
  rw [List.mem_singleton] at hnot
  exact ⟨[handle], _, placed?_substituteEntry_of_ne consistent hplaced new value hother hnot,
    .rewrite_replacing entry.function handle value found⟩

end Program

open Program

/-! ## Histories of edits

The list `erased` of a history is the one that its commands report, so that edits which were refused
add nothing to it. -/

namespace Command

variable {program : Program} {handle : Handle}

/-- Whether the command overwrites an instruction in its place. -/
def overwrites : Command → Bool
  | .changeInstruction .. => true
  | _ => false

theorem erasedIn_cons (command : Command) (rest : List Command) :
    erasedIn (command :: rest) program =
      (command.perform program).1.erased?.toList ++ erasedIn rest (command.perform program).2 := by
  unfold erasedIn
  rw [traces, List.filterMap_cons]
  cases (command.perform program).1.erased? <;> rfl

theorem carries (consistent : program.Consistent) (command : Command)
    (hkeeps : command.overwrites = false) :
    program.Carries (command.perform program).2
      (command.perform program).1.erased?.toList := by
  have houtcome := command.outcome consistent
  generalize (command.perform program).1 = trace, (command.perform program).2 = after at houtcome ⊢
  cases houtcome with
  | refused => exact .refl program
  | added _ name result parameters => exact carries_addFunction program name result parameters
  | opened _ hfunction label => exact carries_appendBlock program _ _ label
  | inserted _ entry place hafter => exact carries_insertEntry consistent entry place
  | overwritten handle change => cases hkeeps
  | redirected _ function handle value =>
      exact carries_rewriteFunction consistent function handle value
  | erased _ hplaced => exact carries_eraseEntry hplaced
  | @cleared _ handle entry hplaced value =>
      have hrewritten := carries_rewriteFunction consistent entry.function handle value
      exact hrewritten.trans
        (carries_eraseEntry (placed?_rewriteFunction_of_placed? consistent hplaced _ _))
  | replaced _ hplaced new value => exact carries_substituteEntry consistent hplaced new value

theorem carries_run (consistent : program.Consistent) (commands : List Command)
    (hkeep : ∀ command ∈ commands, command.overwrites = false) :
    program.Carries (run commands program) (erasedIn commands program) := by
  induction commands generalizing program with
  | nil => exact .refl program
  | cons command rest ih =>
      have hfirst := command.carries consistent (hkeep command List.mem_cons_self)
      have hrest := ih (command.effect consistent).consistent fun other hmem =>
        hkeep other (List.mem_cons_of_mem command hmem)
      rw [erasedIn_cons]
      exact hfirst.trans hrest

end Command

/-! ## What is erased

`Outgrown handle n` says that the slot is between one and `n` generations past the handle.  Where
`n` is below the number of generations, the slot cannot have come round to it. -/

namespace Effect

variable {before after : Program} {trace : Trace} {handle : Handle} {count : Nat}

theorem outgrown_of_erased (effect : Effect before trace after)
    (herased : trace.erased? = some handle) : after.Outgrown handle 1 := by
  refine ⟨1, Nat.one_pos, Nat.le_refl 1, ?_⟩
  rw [effect.occupancy, Trace.applyTo_erased herased]
  rfl

/-- One more command leads one generation further if it releases the slot, and else no further. -/
theorem outgrown (effect : Effect before trace after) (consistent : before.Consistent)
    (houtgrown : before.Outgrown handle count) :
    after.Outgrown handle (count + trace.releases handle.slot) := by
  obtain ⟨steps, hpos, hsteps, hslot⟩ := houtgrown
  -- a command releases the slot, or fills it, or has nothing to do with it
  by_cases herased : ∃ erased, trace.erased? = some erased ∧ erased.slot = handle.slot
  · obtain ⟨erased, herased, hsame⟩ := herased
    obtain ⟨entry, hplaced⟩ := effect.erased erased herased
    have hgeneration : erased.generation = (handle.generation + steps) % Slot.generationLimit := by
      rw [← hsame, occupancy_of_placed? hplaced] at hslot
      exact Option.some.inj hslot
    have hone : trace.releases handle.slot = 1 := by simp [Trace.releases, herased, hsame]
    rw [hone]
    refine ⟨steps + 1, Nat.succ_pos steps, Nat.succ_le_succ hsteps, ?_⟩
    calc (after.occupancy handle.slot).map Prod.fst
      _ = (trace.applyTo before.occupancy erased.slot).map Prod.fst := by
        rw [effect.occupancy, hsame]
      _ = some ((erased.generation + 1) % Slot.generationLimit) := by
        rw [Trace.applyTo_erased herased, Option.map_some]
      _ = some ((handle.generation + (steps + 1)) % Slot.generationLimit) := by
        rw [hgeneration, Nat.mod_add_mod, Nat.add_assoc]
  · refine ⟨steps, hpos, Nat.le_add_right_of_le hsteps, ?_⟩
    by_cases hissued : ∃ issued, trace.issued? = some issued ∧ issued.slot = handle.slot
    · -- an empty slot is filled again under the generation that it has
      obtain ⟨issued, hissued, hsame⟩ := hissued
      have hfilled := effect.occupancy_issued consistent hissued
      rw [← hslot, ← hsame, hfilled, effect.issued issued hissued]
      rcases slot_nextHandle consistent.toFreeListExact with hempty | ⟨hbeyond, -⟩
      · simp [Program.occupancy, hempty]
      · rw [← hsame, effect.issued issued hissued] at hslot
        simp [Program.occupancy, hbeyond] at hslot
    · rw [effect.occupancy, Trace.applyTo_of_ne, hslot]
      · exact fun issued hsome hsame => hissued ⟨issued, hsome, hsame⟩
      · exact fun erased hsome hsame => herased ⟨erased, hsome, hsame⟩

end Effect

namespace Command

variable {program : Program} {handle : Handle} {count : Nat}

theorem outgrown_run (consistent : program.Consistent) (commands : List Command)
    (houtgrown : program.Outgrown handle count) :
    (run commands program).Outgrown handle
      (count + releasesIn handle.slot commands program) := by
  induction commands generalizing program count with
  | nil => exact houtgrown
  | cons command rest ih =>
      have heffect := command.effect consistent
      rw [releasesIn_cons, ← Nat.add_assoc]
      exact ih heffect.consistent (heffect.outgrown consistent houtgrown)

/-- An erased handle is outgrown, however the history goes on. -/
theorem outgrown_of_mem_erasedIn (consistent : program.Consistent) (commands : List Command)
    (herased : handle ∈ erasedIn commands program) :
    (run commands program).Outgrown handle (releasesIn handle.slot commands program) := by
  induction commands generalizing program with
  | nil => cases herased
  | cons command rest ih =>
      have heffect := command.effect consistent
      rw [erasedIn_cons, List.mem_append, Option.mem_toList] at herased
      rw [releasesIn_cons]
      rcases herased with hnow | hlater
      · have hone : (command.perform program).1.releases handle.slot = 1 := by
          simp [Trace.releases, Option.mem_def.mp hnow]
        rw [hone]
        exact outgrown_run heffect.consistent rest (heffect.outgrown_of_erased hnow)
      · exact (ih heffect.consistent hlater).mono (Nat.le_add_left _ _)

end Command

/-! ## Captured calls

Validation compares the target only, and the target is part of the shape that carrying preserves. -/

namespace CallSite

variable {site : CallSite} {program before after : Program} {handle : Handle} {demangled : Bool}
  {erased : List Handle}

theorem validate_of_stale (hstale : program.placed? site.handle = none) :
    site.validate program = .error (.staleHandle site.handle) := by
  unfold validate
  rw [instruction_of_stale hstale]
  rfl

/-- Where everything is carried along, a call that is not erased can be captured again, and only
arguments that are results may have changed. -/
theorem exists_capture_of_carries (hcapture : capture before handle demangled = .ok (some site))
    (hcarries : before.Carries after erased) (hstays : handle ∉ erased) :
    ∃ arguments, capture after handle demangled = .ok (some { site with arguments }) ∧
      List.Forall₂ (fun old new : Operand => old.handle? = none → new = old)
        site.arguments arguments := by
  obtain ⟨entry, target, hplaced, htarget, hoperation, hsite⟩ :=
    capture_eq_some_iff.mp hcapture
  obtain ⟨found, hfound, hname⟩ := hcarries.function? htarget
  obtain ⟨gone, moved, hmoved, change, hchange, rfl⟩ := hcarries.placed? hplaced hstays
  refine ⟨site.arguments.map change, capture_eq_some_iff.mpr ⟨_, found, hmoved, hfound, ?_, ?_⟩, ?_⟩
  · calc (entry.instruction.operation.mapOperands change)
      _ = site.operation.mapOperands change := by rw [hoperation]
      _ = CallSite.operation { site with arguments := site.arguments.map change } :=
        SiteForm.mapOperands_operation ..
  · rw [hname]
    exact congrArg (fun site => { site with arguments := site.arguments.map change }) hsite
  · rw [List.forall₂_map_right_iff, List.forall₂_same]
    intro operand _ hother
    refine hchange operand fun gone _ => ?_
    cases operand with
    | result handle => cases hother
    | _ => rfl

/-- However a program is edited after a call was captured, by edits that do not overwrite
instructions in their places and that release the slot of the call less often than there are
generations: the snapshot is valid exactly if the call was not erased, and then capturing it again
gives the same snapshot, except that arguments which are results may have been replaced. -/
theorem validate_run_iff (program : Program) (handle : Handle) (demangled : Bool) (site : CallSite)
    (commands : List Command) (consistent : program.Consistent)
    (hcapture : capture program handle demangled = .ok (some site))
    (hkeep : ∀ command ∈ commands, command.overwrites = false)
    (hwindow : Command.releasesIn handle.slot commands program < Slot.generationLimit) :
    (site.validate (Command.run commands program) = .ok () ↔
      handle ∉ Command.erasedIn commands program) ∧
    (site.validate (Command.run commands program) = .ok () →
      ∃ arguments,
        capture (Command.run commands program) handle demangled =
          .ok (some { site with arguments }) ∧
        List.Forall₂ (fun old new : Operand => old.handle? = none → new = old)
          site.arguments arguments) := by
  have hcarries := Command.carries_run consistent commands hkeep
  have hagain (hstays : handle ∉ Command.erasedIn commands program) :=
    exists_capture_of_carries hcapture hcarries hstays
  obtain ⟨hhandle, -⟩ := placed_of_capture hcapture
  have hiff : site.validate (Command.run commands program) = .ok () ↔
      handle ∉ Command.erasedIn commands program := by
    constructor
    · intro hvalid herased
      have hstale := (Command.outgrown_of_mem_erasedIn consistent commands herased).placed?_eq_none
        hwindow
      rw [← hhandle] at hstale
      rw [validate_of_stale hstale] at hvalid
      cases hvalid
    · intro hstays
      obtain ⟨arguments, hcaptured, -⟩ := hagain hstays
      have hvalid := (intact_of_capture hcaptured).2.validate
      exact hvalid
  exact ⟨hiff, fun hvalid => hagain (hiff.mp hvalid)⟩

/-- A call whose argument is the result of another instruction. -/
@[irreducible] def waking : Program :=
  Command.run [.declare "pthread_cond_signal" .status, .addFunction "main" .void [],
    .addBlock 1 "entry", .push 1 0 (.ofOperation (.other "cond" [] .pointer)),
    .push 1 0 (.ofOperation (.call (.direct 0) [.result ⟨0, 0⟩] .status))] { name := "waking" }

/-- The snapshot survives that its argument is replaced.  It does not survive that the call is
erased, although the next call of the same function takes the same slot. -/
theorem validate_run_iff_waking :
    ∃ site, capture waking ⟨1, 0⟩ false = .ok (some site) ∧
      (∃ arguments,
        capture (Command.run [.replaceWith ⟨0, 0⟩ (.ofOperation (.other "copy" [] .pointer))]
          waking) ⟨1, 0⟩ false = .ok (some { site with arguments }) ∧
        site.arguments ≠ arguments) ∧
      (Command.run [.erase ⟨1, 0⟩, .push 1 0 (site.asCall site.arguments)] waking).placed? ⟨1, 1⟩ =
        waking.placed? ⟨1, 0⟩ ∧
      site.validate (Command.run [.erase ⟨1, 0⟩, .push 1 0 (site.asCall site.arguments)] waking) ≠
        .ok () := by
  have consistent : waking.Consistent := by
    unfold waking
    exact Command.consistent_run (Command.consistent_empty "waking") _
  let site : CallSite := {
    handle := ⟨1, 0⟩, function := 1, block := 0, target := 0, symbol := "pthread_cond_signal"
    name := "pthread_cond_signal", arguments := [.result ⟨0, 0⟩], result := .status
    attributes := {}, location := none, form := .call }
  have hcapture : capture waking ⟨1, 0⟩ false = .ok (some site) := by decide +kernel
  refine ⟨site, hcapture, ?_, by decide +kernel, ?_⟩
  · obtain ⟨hvalid, hagain⟩ := validate_run_iff waking ⟨1, 0⟩ false site
      [.replaceWith ⟨0, 0⟩ (.ofOperation (.other "copy" [] .pointer))] consistent hcapture
      (by simp [Command.overwrites]) (by decide +kernel)
    obtain ⟨arguments, hcaptured, -⟩ := hagain (hvalid.mpr (by decide +kernel))
    refine ⟨arguments, hcaptured, ?_⟩
    rintro rfl
    revert hcaptured
    decide +kernel
  · rw [Ne, (validate_run_iff waking ⟨1, 0⟩ false site
      [.erase ⟨1, 0⟩, .push 1 0 (site.asCall site.arguments)] consistent hcapture
      (by simp [Command.overwrites]) (by decide +kernel)).1, not_not]
    decide +kernel

end CallSite

end ConcurrencyFaults

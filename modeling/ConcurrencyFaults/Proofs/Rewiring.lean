import ConcurrencyFaults.Operator
import ConcurrencyFaults.Proofs.Clearing

/-!
# Edits that are about certain instructions

An edit that takes an instruction away or overwrites it may leave its readers with other operands,
and it may add instructions.  Apart from that the edits of operators leave a program alone: every
other instruction stays in its block, and of its operands only those change that read the result in
question (`Program.Rewired`).  This is more than `Program.Kept` says, which disregards operands.

A sequence of edits is looked at from the program that the first of them started on
(`Edit.Rewires`).  What is known of an answer in between, above all that it names an instruction
which that program does not have, then still holds when the sequence is over.

## Strategy

* `rewired_insertEntry`, `rewired_eraseEntry`, `rewired_rewriteFunction` and
  `rewired_modifyInstruction` say what the four changes of the layout do, each on its own.
* `Rewired.trans` puts them together, for one fixed list of instructions that may go.
* An edit either is refused or makes one such change, so that it rewires; `Retains.bind` then
  follows the shape of composed edits, and `Foreign` travels along with the answers.
-/

namespace ConcurrencyFaults

/-! ## Rewired instructions -/

/-- The same instruction in the same place, but for operands that read certain results. -/
def Placed.Rewired (gone : List Handle) (entry found : Placed) : Prop :=
  ∃ change : Operand → Operand,
    (∀ operand : Operand, (∀ handle ∈ gone, operand.uses handle = false) →
      change operand = operand) ∧ found = entry.mapOperands change

namespace Placed.Rewired

variable {gone later : List Handle} {entry between found : Placed}

theorem refl (gone : List Handle) (entry : Placed) : entry.Rewired gone entry :=
  ⟨id, fun _ _ => rfl, (mapOperands_eq_self fun _ _ => rfl).symm⟩

theorem mono (hrewired : entry.Rewired gone found) (hgone : gone ⊆ later) :
    entry.Rewired later found := by
  obtain ⟨change, hchange, rfl⟩ := hrewired
  exact ⟨change, fun operand hunread => hchange operand fun handle hmem =>
    hunread handle (hgone hmem), rfl⟩

theorem trans (hfirst : entry.Rewired gone between) (hsecond : between.Rewired gone found) :
    entry.Rewired gone found := by
  obtain ⟨first, hfirst, rfl⟩ := hfirst
  obtain ⟨second, hsecond, rfl⟩ := hsecond
  refine ⟨fun operand => second (first operand), fun operand hunread => ?_,
    entry.mapOperands_mapOperands first second⟩
  calc second (first operand)
    _ = second operand := congrArg second (hfirst operand hunread)
    _ = operand := hsecond operand hunread

/-- What reads an instruction that goes may read anything from then on. -/
theorem rewrite_replacing (function : FunctionId) (handle : Handle) (value : Operand)
    (entry : Placed) :
    entry.Rewired [handle] (entry.rewrite function (Program.replacing handle value)) := by
  rw [rewrite_eq]
  split
  · refine ⟨_, fun operand hunread => ?_, rfl⟩
    have hother := hunread handle (List.mem_singleton_self handle)
    simp [Program.replacing, hother]
  · exact refl [handle] entry

@[simp] theorem function_eq (hrewired : entry.Rewired gone found) :
    found.function = entry.function := by
  obtain ⟨change, -, rfl⟩ := hrewired
  rfl

theorem shape_eq (hrewired : entry.Rewired gone found) :
    found.instruction.operation.shape = entry.instruction.operation.shape := by
  obtain ⟨change, -, rfl⟩ := hrewired
  exact Operation.shape_mapOperands ..

end Placed.Rewired

/-! ## Rewired programs

Being rewired is a preorder for a fixed list of instructions that may go, and grows with that list.
-/

namespace Program

variable {program before between after : Program} {gone later : List Handle} {handle : Handle}
  {entry : Placed}

/-- All instructions but some are where they were, and of their operands at most those have changed
that read the result of one of these. -/
structure Rewired (before after : Program) (gone : List Handle) : Prop where
  consistent : after.Consistent
  stays : ∀ {handle entry}, before.placed? handle = some entry → handle ∉ gone →
    ∃ found, after.placed? handle = some found ∧ entry.Rewired gone found

namespace Rewired

theorem refl (consistent : program.Consistent) (gone : List Handle) :
    Rewired program program gone :=
  ⟨consistent, fun {_ entry} hplaced _ => ⟨entry, hplaced, .refl gone entry⟩⟩

theorem mono (hrewired : Rewired before after gone) (hgone : gone ⊆ later) :
    Rewired before after later := by
  refine ⟨hrewired.consistent, fun {handle entry} hplaced hnot => ?_⟩
  obtain ⟨found, hfound, hsame⟩ := hrewired.stays hplaced fun hmem => hnot (hgone hmem)
  exact ⟨found, hfound, hsame.mono hgone⟩

theorem trans (hfirst : Rewired before between gone) (hsecond : Rewired between after gone) :
    Rewired before after gone := by
  refine ⟨hsecond.consistent, fun {handle entry} hplaced hnot => ?_⟩
  obtain ⟨middle, hmiddle, hsame⟩ := hfirst.stays hplaced hnot
  obtain ⟨found, hfound, hlater⟩ := hsecond.stays hmiddle hnot
  exact ⟨found, hfound, hsame.trans hlater⟩

theorem stale_before (hrewired : Rewired before after gone)
    (hstale : after.placed? handle = none) : handle ∈ gone ∨ before.placed? handle = none := by
  by_cases hmem : handle ∈ gone
  · exact Or.inl hmem
  · refine Or.inr (Option.eq_none_iff_forall_ne_some.mpr fun entry hplaced => ?_)
    obtain ⟨found, hfound, -⟩ := hrewired.stays hplaced hmem
    rw [hstale] at hfound
    cases hfound

theorem of_placed? (consistent : after.Consistent)
    (hstays : ∀ {handle entry}, before.placed? handle = some entry → handle ∉ gone →
      after.placed? handle = some entry) : Rewired before after gone :=
  ⟨consistent, fun {_ entry} hplaced hnot => ⟨entry, hstays hplaced hnot, .refl gone entry⟩⟩

end Rewired

theorem rewired_insertEntry (consistent : program.Consistent) (entry : Placed)
    {place : Handle → List Handle → List Handle}
    (hafter : (program.insertEntry entry place).Consistent) :
    Rewired program (program.insertEntry entry place) [] :=
  .of_placed? hafter fun hplaced _ =>
    placed?_insertEntry_of_placed? consistent.toFreeListExact hplaced entry place

theorem rewired_eraseEntry (consistent : program.Consistent)
    (hplaced : program.placed? handle = some entry) :
    Rewired program (program.eraseEntry handle entry) [handle] := by
  refine .of_placed? (consistent.eraseEntry hplaced) fun {other found} hother hne => ?_
  rw [List.mem_singleton] at hne
  rw [placed?_eraseEntry_of_ne hplaced hne, hother]

theorem rewired_rewriteFunction (consistent : program.Consistent) (function : FunctionId)
    (handle : Handle) (value : Operand) :
    Rewired program (program.rewriteFunction function (replacing handle value)) [handle] := by
  refine ⟨consistent.rewriteFunction _ _, fun {other found} hplaced _ => ?_⟩
  exact ⟨_, placed?_rewriteFunction_of_placed? consistent hplaced function _,
    .rewrite_replacing function handle value found⟩

theorem rewired_modifyInstruction (consistent : program.Consistent)
    (hplaced : program.placed? handle = some entry) (change : Instruction → Instruction) :
    Rewired program (program.modifyInstruction handle change) [handle] := by
  refine .of_placed? (consistent.modifyInstruction handle change) fun {other found} hother hne => ?_
  rw [List.mem_singleton] at hne
  rw [placed?_modifyInstruction hplaced, Function.update_of_ne hne, hother]

theorem rewired_getOrDeclare (consistent : program.Consistent) (name : String) (result : Ty)
    (parameters : List Ty) (gone : List Handle) :
    Rewired program (program.getOrDeclare name result parameters).2 gone := by
  refine .of_placed? (consistent.getOrDeclare name result parameters) fun hplaced _ => ?_
  rw [placed?_getOrDeclare, hplaced]

end Program

/-! ## Edits that answer

A refusal ends the run of an operator, so nothing has to be known of the program that it leaves.
What an answer tells, on the other hand, is needed by the edits that follow.
-/

/-- From every state of the invariant, if the action answers, it ends in such a state, and something
is known of the answer. -/
def Retains {Error State Answer : Type} (invariant : State → Prop)
    (action : EStateM Error State Answer) (known : Answer → Prop := fun _ => True) : Prop :=
  ∀ state, invariant state →
    Runs action state (fun answer after => invariant after ∧ known answer) fun _ _ => True

namespace Retains

variable {Error State Answer Other : Type} {invariant : State → Prop}
  {action : EStateM Error State Answer} {known : Answer → Prop}

theorem pure {answer : Answer} (hknown : known answer) :
    Retains invariant (Pure.pure answer : EStateM Error State Answer) known :=
  fun _ hstate => runs_pure ⟨hstate, hknown⟩

theorem bind {next : Answer → EStateM Error State Other} {later : Other → Prop}
    (hfirst : Retains invariant action known)
    (hnext : ∀ answer, known answer → Retains invariant (next answer) later) :
    Retains invariant (action >>= next) later :=
  fun state hstate => (hfirst state hstate).bind fun answer after hafter =>
    hnext answer hafter.2 after hafter.1

end Retains

open Program

variable {Answer : Type}

/-- Compared with some program, the edit is about certain instructions at most. -/
abbrev Edit.Rewires (origin : Program) (gone : List Handle) (edit : Edit Answer)
    (known : Answer → Prop := fun _ => True) : Prop :=
  Retains (fun program => origin.Rewired program gone) edit known

/-- The handle names nothing of a program but certain instructions. -/
def Program.Foreign (origin : Program) (gone : List Handle) (handle : Handle) : Prop :=
  handle ∈ gone ∨ origin.placed? handle = none

section Edits

variable {origin program : Program} {gone : List Handle} {handle : Handle} {site : CallSite}

theorem Edit.rewires_query (question : Program → Except EditError Answer) :
    Rewires origin gone (query question) := by
  intro program hprogram
  cases hquestion : question program with
  | ok answer => exact runs_of_ok (query_apply_of_ok hquestion) ⟨hprogram, trivial⟩
  | error problem => exact runs_of_error (query_apply_of_error hquestion) trivial

namespace Program

/-- Nothing that is inserted has the handle of an instruction that is still there. -/
theorem rewires_insertBefore (anchor : Handle) (instruction : Instruction) :
    Edit.Rewires origin gone (insertBefore anchor instruction) (origin.Foreign gone) := by
  intro program hprogram
  have consistent := hprogram.consistent
  cases hplaced : program.placed? anchor with
  | none => exact runs_of_error (insertBefore_of_stale hplaced instruction) trivial
  | some entry =>
      have hinserted := rewired_insertEntry consistent _
        (consistent.insertAhead hplaced instruction)
      exact runs_of_ok (insertBefore_of_placed? consistent hplaced instruction)
        ⟨hprogram.trans (hinserted.mono (List.nil_subset gone)),
          hprogram.stale_before (placed?_nextHandle consistent.toFreeListExact)⟩

theorem rewires_push (function : FunctionId) (block : BlockId) (instruction : Instruction) :
    Edit.Rewires origin gone (push function block instruction) := by
  intro program hprogram
  have consistent := hprogram.consistent
  cases hblock : program.block? function block with
  | none =>
      obtain ⟨problem, hrefused⟩ := push_of_unknown hblock instruction
      exact runs_of_error hrefused trivial
  | some found =>
      have hpushed := rewired_insertEntry consistent _ (consistent.pushEntry hblock instruction)
      exact runs_of_ok (push_of_block? hblock instruction)
        ⟨hprogram.trans (hpushed.mono (List.nil_subset gone)), trivial⟩

section About

variable (hgone : handle ∈ gone)
include hgone

theorem Rewired.trans_of_mem {between after : Program} (hbefore : Rewired origin between gone)
    (hafter : Rewired between after [handle]) : Rewired origin after gone :=
  hbefore.trans (hafter.mono (by simpa using hgone))

theorem rewires_changeInstruction (change : Instruction → Instruction) :
    Edit.Rewires origin gone (changeInstruction handle change) := by
  intro program hprogram
  cases hplaced : program.placed? handle with
  | none => exact runs_of_error (changeInstruction_of_stale hplaced change) trivial
  | some entry =>
      have hchanged := rewired_modifyInstruction hprogram.consistent hplaced change
      exact runs_of_ok (changeInstruction_of_placed? hplaced change)
        ⟨hprogram.trans_of_mem hgone hchanged, trivial⟩

theorem rewires_replaceAllUses (value : Operand) :
    Edit.Rewires origin gone (replaceAllUses handle value) := by
  intro program hprogram
  cases hplaced : program.placed? handle with
  | none => exact runs_of_error (replaceAllUses_of_stale hplaced value) trivial
  | some entry =>
      obtain ⟨uses, hreplaced⟩ :=
        replaceAllUses_of_placed? hprogram.consistent hplaced value
      have hrewritten := rewired_rewriteFunction hprogram.consistent entry.function handle value
      exact runs_of_ok hreplaced ⟨hprogram.trans_of_mem hgone hrewritten, trivial⟩

theorem rewires_erase : Edit.Rewires origin gone (erase handle) := by
  intro program hprogram
  cases hplaced : program.placed? handle with
  | none => exact runs_of_error (erase_of_stale hplaced) trivial
  | some entry =>
      obtain ⟨uses, huses⟩ := exists_useCount hprogram.consistent hplaced
      rcases Nat.eq_zero_or_pos uses with rfl | hpos
      · have herased := rewired_eraseEntry hprogram.consistent hplaced
        exact runs_of_ok (erase_of_unused hplaced huses)
          ⟨hprogram.trans_of_mem hgone herased, trivial⟩
      · exact runs_of_error (erase_of_used huses hpos) trivial

theorem rewires_eraseOrZero (width : Nat) (signed : Bool) :
    Edit.Rewires origin gone (eraseOrZero handle width signed) := by
  unfold eraseOrZero
  refine (Edit.rewires_query _).bind fun uses _ => ?_
  split
  · -- nobody reads the result
    exact (rewires_erase hgone).bind fun _ _ => .pure trivial
  · exact (rewires_replaceAllUses hgone _).bind fun _ _ =>
      (rewires_erase hgone).bind fun _ _ => .pure trivial

theorem rewires_replaceWith (new : Instruction) :
    Edit.Rewires origin gone (replaceWith handle new) (origin.Foreign gone) :=
  (rewires_insertBefore handle new).bind fun _ hforeign =>
    (rewires_replaceAllUses hgone _).bind fun _ _ =>
      (rewires_erase hgone).bind fun _ _ => .pure hforeign

end About

end Program

/-! ## Edits of calls

An invoke is taken away behind a branch to its normal continuation, which is new.
-/

namespace CallSite

theorem rewires_branchToNormal (site : CallSite) :
    Edit.Rewires origin gone site.branchToNormal := by
  unfold branchToNormal
  split
  · exact .pure trivial
  · exact (Edit.rewires_query _).bind fun place _ =>
      (rewires_push place.1 place.2 _).bind fun _ _ => .pure trivial

variable (hgone : site.handle ∈ gone)
include hgone

theorem rewires_remove (width : Nat) (signed : Bool) :
    Edit.Rewires origin gone (site.remove width signed) :=
  (Edit.rewires_query _).bind fun _ _ => site.rewires_branchToNormal.bind fun _ _ =>
    rewires_eraseOrZero hgone width signed

theorem rewires_replace (instruction : Instruction) :
    Edit.Rewires origin gone (site.replace instruction) (origin.Foreign gone) :=
  (Edit.rewires_query _).bind fun _ _ => site.rewires_branchToNormal.bind fun _ _ =>
    rewires_replaceWith hgone instruction

end CallSite

/-- A sleep takes the place of a join. -/
theorem JoinOperator.rewires_sleepBefore (hgone : site.handle ∈ gone) (sleep : Instruction) :
    Edit.Rewires origin gone (sleepBefore site sleep) (origin.Foreign gone) := by
  unfold sleepBefore
  refine (rewires_insertBefore site.handle sleep).bind fun handle hforeign => ?_
  -- both forms of a join end alike, one of them behind a branch
  have herase : Edit.Rewires origin gone (do
      let _ ← erase site.handle
      return handle) (origin.Foreign gone) :=
    (rewires_erase hgone).bind fun _ _ => .pure hforeign
  split
  · exact herase
  · exact (rewires_insertBefore site.handle _).bind fun _ _ => herase

/-- The code that moves a deadline is new. -/
theorem WaitOperator.rewires_addToField (anchor : Handle) (time : Operand) (field : Nat)
    (delta : Int) (location : Option Location) :
    Edit.Rewires origin gone (addToField anchor time field delta location)
      fun handles => ∀ handle ∈ handles, origin.Foreign gone handle := by
  unfold addToField
  refine (rewires_insertBefore anchor _).bind fun pointer hpointer => ?_
  refine (rewires_insertBefore anchor _).bind fun old hold => ?_
  refine (rewires_insertBefore anchor _).bind fun sum hsum => ?_
  refine (rewires_insertBefore anchor _).bind fun store hstore => .pure ?_
  simp [hpointer, hold, hsum, hstore]

end Edits

end ConcurrencyFaults

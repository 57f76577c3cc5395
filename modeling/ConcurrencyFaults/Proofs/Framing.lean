import ConcurrencyFaults.Proofs.Clearing
import ConcurrencyFaults.Proofs.Keeping
import ConcurrencyFaults.Operator

/-!
# Functions that edits stay out of

Every edit of instructions works in the function of its anchor: lists and instructions of other
functions are what they were, though all functions share one storage (`Program.ChangesOnly`).  A
declaration changes no function at all and adds one without blocks.

A sequence of edits stays out of some functions if none of its anchors is in one of them.  That an
anchor was not in them at the start is enough, since they have lost and gained nothing since
(`Program.Framed`), whichever slots were emptied and filled again.  So the edits that calls are
handled with are followed without asking which anchors are still live.

## Strategy

* For each of the changes that edits are made of there is a `changesOnly_…` lemma.
* A live anchor that was `Within` the selected functions at the start is in one of them now: were it
  in another function, that function would list it, and would have listed it at the start
  (`Framed.ne_function`).  This carries `Framed` from edit to edit (`Framed.step`).
* What is inserted on the way may become an anchor, as a fresh handle is `Within`, too
  (`Framed.within_nextHandle`).
-/

namespace ConcurrencyFaults

namespace Program

variable {start program before between after : Program} {handle other : Handle}
  {entry target : Placed} {function : FunctionId} {selected : FunctionId → Prop}

/-! ## Edits in one function

The outline of a program tells its functions without the instructions that they list.  No edit
touches the outline of a function that is there. -/

/-- Functions were declared at most: those that were there have kept their places, their signatures
and the names of their blocks. -/
def Declares (before after : Program) : Prop :=
  ∃ declared, after.outline = before.outline ++ declared ∧
    ∀ function ∈ declared, function.blocks = []

namespace Declares

theorem of_outline_eq (houtline : after.outline = before.outline) : before.Declares after :=
  ⟨[], by rw [houtline, List.append_nil], by simp⟩

theorem trans (hfirst : before.Declares between) (hsecond : between.Declares after) :
    before.Declares after := by
  obtain ⟨first, hfirst, hempty⟩ := hfirst
  obtain ⟨second, hsecond, hlater⟩ := hsecond
  refine ⟨first ++ second, by rw [hsecond, hfirst, List.append_assoc], fun function hmem => ?_⟩
  exact (List.mem_append.mp hmem).elim (hempty function) (hlater function)

end Declares

theorem declares_getOrDeclare (name : String) (result : Ty) (parameters : List Ty) :
    program.Declares (program.getOrDeclare name result parameters).2 := by
  rcases getOrDeclare_cases program name result parameters with hsame | hadded
  · rw [hsame]
    exact .of_outline_eq rfl
  · rw [hadded]
    refine ⟨[{ id := program.functions.length, name, result, parameters }], ?_, by simp⟩
    rw [outline, addFunction, List.map_append]
    rfl

/-- Lists and instructions of all functions but one are what they were. -/
structure ChangesOnly (before after : Program) (function : FunctionId) : Prop where
  consistent : after.Consistent
  declares : before.Declares after
  function? : ∀ {other found}, before.function? other = some found → other ≠ function →
    after.function? other = some found
  placed? : ∀ {handle entry}, before.placed? handle = some entry → entry.function ≠ function →
    after.placed? handle = some entry

theorem function?_modifyHandles_of_ne {other : FunctionId} (hne : other ≠ function)
    (block : BlockId) (change : List Handle → List Handle) :
    (program.modifyHandles function block change).function? other = program.function? other := by
  rw [function?_modifyHandles]
  simp [hne.symm]

/-- Instructions of different functions have different handles. -/
theorem ne_of_function_ne {found : Placed} (hfound : program.placed? other = some found)
    (hplaced : program.placed? handle = some entry) (hne : found.function ≠ entry.function) :
    other ≠ handle := by
  rintro rfl
  rw [hplaced] at hfound
  exact hne (congrArg Placed.function (Option.some.inj hfound).symm)

theorem changesOnly_insertEntry (consistent : program.Consistent)
    {place : Handle → List Handle → List Handle}
    (hafter : (program.insertEntry entry place).Consistent) :
    program.ChangesOnly (program.insertEntry entry place) entry.function where
  consistent := hafter
  declares := .of_outline_eq (outline_insertEntry place)
  function? := by
    intro other found hfound hne
    rw [function?_congr (functions_insertEntry place), function?_modifyHandles_of_ne hne, hfound]
  placed? := fun hplaced _ =>
    placed?_insertEntry_of_placed? consistent.toFreeListExact hplaced entry place

theorem changesOnly_eraseEntry (consistent : program.Consistent)
    (hplaced : program.placed? handle = some entry) :
    program.ChangesOnly (program.eraseEntry handle entry) entry.function where
  consistent := consistent.eraseEntry hplaced
  declares := .of_outline_eq outline_eraseEntry
  function? := by
    intro other found hfound hne
    rw [function?_congr functions_eraseEntry, function?_modifyHandles_of_ne hne, hfound]
  placed? := by
    intro other found hfound hne
    have hother := ne_of_function_ne hfound hplaced hne
    rw [placed?_eraseEntry_of_ne hplaced hother, hfound]

theorem changesOnly_rewriteFunction (consistent : program.Consistent) (function : FunctionId)
    (change : Operand → Operand) :
    program.ChangesOnly (program.rewriteFunction function change) function where
  consistent := consistent.rewriteFunction function change
  declares := .of_outline_eq (outline_rewriteFunction function change)
  function? := by
    intro other found hfound _
    rw [function?_congr (functions_rewriteFunction function change), hfound]
  placed? := by
    intro other found hfound hne
    rw [placed?_rewriteFunction_of_placed? consistent hfound, Placed.rewrite, if_neg hne]

theorem changesOnly_modifyInstruction (consistent : program.Consistent)
    (hplaced : program.placed? handle = some entry) (change : Instruction → Instruction) :
    program.ChangesOnly (program.modifyInstruction handle change) entry.function where
  consistent := consistent.modifyInstruction handle change
  declares := .of_outline_eq (outline_congr (functions_modifyInstruction change))
  function? := by
    intro other found hfound _
    rw [function?_congr (functions_modifyInstruction change), hfound]
  placed? := by
    intro other found hfound hne
    have hother := ne_of_function_ne hfound hplaced hne
    rw [placed?_modifyInstruction hplaced, Function.update_of_ne hother, hfound]

theorem changesOnly_getOrDeclare (consistent : program.Consistent) (name : String) (result : Ty)
    (parameters : List Ty) (function : FunctionId) :
    program.ChangesOnly (program.getOrDeclare name result parameters).2 function where
  consistent := consistent.getOrDeclare name result parameters
  declares := declares_getOrDeclare name result parameters
  function? := by
    intro other found hfound _
    rcases getOrDeclare_cases program name result parameters with hsame | hadded
    · rw [hsame, hfound]
    · obtain ⟨hlt, -⟩ := List.getElem?_eq_some_iff.mp hfound
      rw [hadded, function?_addFunction, if_neg (Nat.ne_of_lt hlt), hfound]
  placed? := fun hplaced _ => by rw [placed?_getOrDeclare, hplaced]

/-! ## Framed programs

Nothing is said about selected functions, so several edits in them compose. -/

/-- The functions that were not selected are what they were at the start, with all they list, and of
the others none has lost its place. -/
structure Framed (start : Program) (selected : FunctionId → Prop) (program : Program) : Prop where
  start_consistent : start.Consistent
  consistent : program.Consistent
  declares : start.Declares program
  function? : ∀ {function found}, start.function? function = some found → ¬ selected function →
    program.function? function = some found
  placed? : ∀ {handle entry}, start.placed? handle = some entry → ¬ selected entry.function →
    program.placed? handle = some entry

/-- At most an instruction of a selected function had this handle. -/
def Within (start : Program) (selected : FunctionId → Prop) (handle : Handle) : Prop :=
  ∀ entry ∈ start.placed? handle, selected entry.function

namespace Framed

theorem refl (consistent : program.Consistent) (selected : FunctionId → Prop) :
    program.Framed selected program where
  start_consistent := consistent
  consistent := consistent
  declares := .of_outline_eq rfl
  function? hfound _ := hfound
  placed? hplaced _ := hplaced

variable (framed : start.Framed selected program)
include framed

theorem changesOnly (honly : program.ChangesOnly after function)
    (hother : ∀ other found, start.function? other = some found → ¬ selected other →
      other ≠ function) : start.Framed selected after where
  start_consistent := framed.start_consistent
  consistent := honly.consistent
  declares := framed.declares.trans honly.declares
  function? := fun hfound hnot =>
    honly.function? (framed.function? hfound hnot) (hother _ _ hfound hnot)
  placed? := by
    intro handle entry hplaced hnot
    obtain ⟨found, hfound, -⟩ := framed.start_consistent.function_of_placed hplaced
    exact honly.placed? (framed.placed? hplaced hnot) (hother _ _ hfound hnot)

/-- The function of a live instruction is not one of those that are to stay what they are, if its
handle did not belong to one at the start. -/
theorem ne_function (hwithin : start.Within selected handle)
    (hplaced : program.placed? handle = some entry) {other : FunctionId} {found : Function}
    (hfound : start.function? other = some found) (hnot : ¬ selected other) :
    other ≠ entry.function := by
  rintro rfl
  -- the function lists the handle now, so it did at the start
  obtain ⟨now, hnow, hmem⟩ := framed.consistent.function_of_placed hplaced
  rw [framed.function? hfound hnot] at hnow
  obtain rfl := Option.some.inj hnow
  obtain ⟨old, hold, hfunction⟩ := framed.start_consistent.placed_of_mem_function hfound hmem
  exact hnot (hfunction ▸ hwithin old hold)

theorem step (hwithin : start.Within selected handle)
    (hplaced : program.placed? handle = some entry)
    (honly : program.ChangesOnly after entry.function) : start.Framed selected after :=
  framed.changesOnly honly fun _ _ => framed.ne_function hwithin hplaced

theorem getOrDeclare (name : String) (result : Ty) (parameters : List Ty) :
    start.Framed selected (program.getOrDeclare name result parameters).2 := by
  -- no function has the number that the next one receives
  refine framed.changesOnly (changesOnly_getOrDeclare framed.consistent name result parameters
    start.functions.length) fun other found hfound _ => ?_
  obtain ⟨hlt, -⟩ := List.getElem?_eq_some_iff.mp hfound
  exact Nat.ne_of_lt hlt

/-- What is inserted does not take the handle of an instruction that is to stay. -/
theorem within_nextHandle : start.Within selected program.nextHandle := by
  intro entry hplaced
  by_contra hnot
  exact ne_nextHandle framed.consistent.toFreeListExact (framed.placed? hplaced hnot) rfl

theorem within_of_selected (hplaced : program.placed? handle = some entry)
    (hselected : selected entry.function) : start.Within selected handle := by
  intro old hold
  by_contra hnot
  obtain rfl := Option.some.inj ((framed.placed? hold hnot).symm.trans hplaced)
  exact hnot hselected

/-- Instructions of one function all belong to the selected functions or all do not. -/
theorem within_of_function_eq (hwithin : start.Within selected handle)
    (hplaced : program.placed? handle = some entry) (hother : program.placed? other = some target)
    (hfunction : target.function = entry.function) : start.Within selected other := by
  intro old hold
  by_contra hnot
  obtain rfl := Option.some.inj ((framed.placed? hold hnot).symm.trans hother)
  obtain ⟨found, hfound, -⟩ := framed.start_consistent.function_of_placed hold
  exact framed.ne_function hwithin hplaced hfound hnot hfunction

end Framed

end Program

/-! ## Edits

An edit is refused or makes one change at its anchor. -/

open Program

variable {Answer : Type} {start : Program} {selected : FunctionId → Prop} {handle : Handle}

/-- The edit stays out of the functions that are not selected, whether it answers or is refused. -/
abbrev Edit.Frames (start : Program) (selected : FunctionId → Prop) (edit : Edit Answer) : Prop :=
  Keeps (start.Framed selected) edit

namespace Program

section Anchors

variable (hwithin : start.Within selected handle)
include hwithin

theorem frames_insertBefore (instruction : Instruction) :
    Edit.Frames start selected (insertBefore handle instruction) := by
  intro program framed
  cases hplaced : program.placed? handle with
  | none => exact runs_of_error (insertBefore_of_stale hplaced instruction) framed
  | some entry =>
      have hinserted := changesOnly_insertEntry framed.consistent
        (framed.consistent.insertAhead hplaced instruction)
      exact runs_of_ok (insertBefore_of_placed? framed.consistent hplaced instruction)
        (framed.step hwithin hplaced hinserted)

theorem frames_insertRelative (instruction : Instruction) (steps : Nat) :
    Edit.Frames start selected (insertRelative handle instruction steps) := by
  intro program framed
  cases hplaced : program.placed? handle with
  | none => exact runs_of_error (insertRelative_of_stale hplaced instruction steps) framed
  | some entry =>
      obtain ⟨anchor, target, clamped, htarget, hfunction, hinserted⟩ :=
        insertRelative_of_placed? framed.consistent hplaced instruction steps
      have honly := changesOnly_insertEntry framed.consistent
        (framed.consistent.insertAhead htarget instruction)
      exact runs_of_ok hinserted (framed.step hwithin hplaced (hfunction ▸ honly))

theorem frames_changeInstruction (change : Instruction → Instruction) :
    Edit.Frames start selected (changeInstruction handle change) := by
  intro program framed
  cases hplaced : program.placed? handle with
  | none => exact runs_of_error (changeInstruction_of_stale hplaced change) framed
  | some entry =>
      have hchanged := changesOnly_modifyInstruction framed.consistent hplaced change
      exact runs_of_ok (changeInstruction_of_placed? hplaced change)
        (framed.step hwithin hplaced hchanged)

theorem frames_replaceAllUses (value : Operand) :
    Edit.Frames start selected (replaceAllUses handle value) := by
  intro program framed
  cases hplaced : program.placed? handle with
  | none => exact runs_of_error (replaceAllUses_of_stale hplaced value) framed
  | some entry =>
      obtain ⟨uses, hreplaced⟩ := replaceAllUses_of_placed? framed.consistent hplaced value
      exact runs_of_ok hreplaced (framed.step hwithin hplaced
        (changesOnly_rewriteFunction framed.consistent entry.function _))

theorem frames_erase : Edit.Frames start selected (erase handle) := by
  intro program framed
  cases hplaced : program.placed? handle with
  | none => exact runs_of_error (erase_of_stale hplaced) framed
  | some entry =>
      obtain ⟨uses, huses⟩ := exists_useCount framed.consistent hplaced
      rcases Nat.eq_zero_or_pos uses with rfl | hpos
      · exact runs_of_ok (erase_of_unused hplaced huses)
          (framed.step hwithin hplaced (changesOnly_eraseEntry framed.consistent hplaced))
      · exact runs_of_error (erase_of_used huses hpos) framed

theorem frames_eraseOrZero (width : Nat) (signed : Bool) :
    Edit.Frames start selected (eraseOrZero handle width signed) := by
  refine (Edit.keeps_query _).bind fun uses => ?_
  split
  · exact (frames_erase hwithin).bind fun _ => .pure _
  · exact (frames_replaceAllUses hwithin _).bind fun _ =>
      (frames_erase hwithin).bind fun _ => .pure _

theorem frames_replaceWith (new : Instruction) :
    Edit.Frames start selected (replaceWith handle new) :=
  (frames_insertBefore hwithin new).bind fun _ =>
    (frames_replaceAllUses hwithin _).bind fun _ => (frames_erase hwithin).bind fun _ => .pure _

end Anchors

/-- The handle of an inserted instruction belongs to none of the functions that are to stay. -/
theorem runs_insertBefore_within {program : Program} (framed : start.Framed selected program)
    (anchor : Handle) (instruction : Instruction) :
    Runs (insertBefore anchor instruction) program
      (fun inserted _ => start.Within selected inserted) fun _ _ => True := by
  cases hplaced : program.placed? anchor with
  | none => exact runs_of_error (insertBefore_of_stale hplaced instruction) trivial
  | some entry =>
      exact runs_of_ok (insertBefore_of_placed? framed.consistent hplaced instruction)
        framed.within_nextHandle

end Program

/-! ## Edits of calls

These are sequences of edits at one anchor, or at an anchor that the sequence inserted itself. -/

namespace CallSite

variable {site : CallSite} (hwithin : start.Within selected site.handle)
include hwithin

theorem frames_branchToNormal : Edit.Frames start selected site.branchToNormal := by
  intro program framed
  cases hform : site.form with
  | call => exact runs_of_ok (branchToNormal_of_call hform) framed
  | invoke normal unwind =>
      cases hplaced : program.placed? site.handle with
      | none =>
          unfold branchToNormal
          simp only [hform]
          exact runs_of_error
            (bind_apply_of_error (Edit.query_apply_of_error (parent_of_stale hplaced)) _) framed
      | some entry =>
          have hpushed := kept_pushBranch framed.consistent hplaced normal site.location
          exact runs_of_ok (branchToNormal_of_invoke framed.consistent hform hplaced)
            (framed.step hwithin hplaced
              (changesOnly_insertEntry framed.consistent hpushed.consistent))

theorem frames_remove (width : Nat) (signed : Bool) :
    Edit.Frames start selected (site.remove width signed) :=
  (Edit.keeps_query _).bind fun _ => (frames_branchToNormal hwithin).bind fun _ =>
    frames_eraseOrZero hwithin width signed

theorem frames_replace (instruction : Instruction) :
    Edit.Frames start selected (site.replace instruction) :=
  (Edit.keeps_query _).bind fun _ => (frames_branchToNormal hwithin).bind fun _ =>
    frames_replaceWith hwithin instruction

end CallSite

section Calls

variable {site : CallSite} (hwithin : start.Within selected site.handle)
include hwithin

/-- A sleep takes the place of a join. -/
theorem JoinOperator.frames_sleepBefore (sleep : Instruction) :
    Edit.Frames start selected (sleepBefore site sleep) := by
  refine (frames_insertBefore hwithin sleep).bind fun inserted => ?_
  extract_lets rest
  have hrest : ∀ done, Edit.Frames start selected (rest done) := fun _ =>
    (frames_erase hwithin).bind fun _ => .pure _
  split
  · exact hrest ()
  · exact (frames_insertBefore hwithin _).bind fun _ => hrest ()

namespace LockOperator

/-- The plain call that a walk starts from takes the place of its call. -/
theorem frames_plainCall (mutex : Operand) :
    Edit.Frames start selected (plainCall site mutex) := by
  unfold plainCall
  split
  · exact (CallSite.frames_branchToNormal hwithin).bind fun _ =>
      (frames_insertBefore hwithin _).bind fun _ =>
        (frames_eraseOrZero hwithin _ _).bind fun _ => .pure _
  · exact .pure _

theorem runs_plainCall_within {program : Program} (framed : start.Framed selected program)
    (mutex : Operand) :
    Runs (plainCall site mutex) program (fun base _ => start.Within selected base)
      fun _ _ => True := by
  unfold plainCall
  split
  · have hbranched := (CallSite.frames_branchToNormal hwithin).answered framed
    refine hbranched.bind fun _ between framed => ?_
    refine (((frames_insertBefore hwithin _).answered framed).and_answered
      (runs_insertBefore_within framed site.handle _)).bind fun base inserted hinserted => ?_
    exact ((frames_eraseOrZero hwithin _ _).answered hinserted.1).bind fun _ _ _ =>
      runs_pure hinserted.2
  · exact runs_pure hwithin

end LockOperator

end Calls

/-- The code that moves a deadline goes in front of its anchor. -/
theorem WaitOperator.frames_addToField (hwithin : start.Within selected handle) (time : Operand)
    (field : Nat) (delta : Int) (location : Option Location) :
    Edit.Frames start selected (addToField handle time field delta location) :=
  (frames_insertBefore hwithin _).bind fun _ => (frames_insertBefore hwithin _).bind fun _ =>
    (frames_insertBefore hwithin _).bind fun _ => (frames_insertBefore hwithin _).bind fun _ =>
      .pure _

end ConcurrencyFaults

import ConcurrencyFaults.Proofs.Closed.Operators
import ConcurrencyFaults.Proofs.Operators.Locks

/-!
# Operators that insert captured operands

A split repeats the arguments of the two calls of a pair, and a moved deadline is computed from the
argument that a wait was captured with.  Both are inserted in the function that the operand was
captured in, and neither operator erases anything, so the operand is still local there.

Both runs are followed by `Extended`, the program at the start being the one that the sites were
captured in.  The argument has the same two halves each time: the anchor of an insertion is in the
function of the site (`functionOf?_of_anchor?`, `runs_insertLocalCopy`), and an operand that is
local there stays local over the insertions that came before (`Grounded.kept`).
-/

namespace ConcurrencyFaults

open Program Work

variable {start program : Program} {workspace : Workspace} {site : CallSite}

/-! ## Deadlines

A deadline is moved by four instructions for each of the two fields of the time: the address of the
field, a load, an addition and a store. -/

namespace WaitOperator

/-- The new code reads the given time and its own results. -/
theorem runs_addToField {refused : EditError → Program → Prop} {anchor : Handle} {time : Operand}
    {function : FunctionId} (extended : start.Extended program)
    (hanchor : program.functionOf? anchor = some function)
    (htime : program.Local function time) (field : Nat) (delta : Int)
    (location : Option Location) :
    Runs (addToField anchor time field delta location) program
      (fun _ after => start.Extended after ∧ program.Kept after []) refused := by
  have hstays : ∀ {before after : Program} {handle : Handle}, before.Kept after [] →
      before.functionOf? handle = some function → after.functionOf? handle = some function :=
    fun hkept hbefore => hkept.functionOf? hbefore List.not_mem_nil
  unfold addToField
  -- the address of the field is computed from the time
  refine (extended.runs_insertBefore hanchor ?_).bind ?_
  · simpa [Operation.operands] using htime
  rintro pointer first ⟨extended, hfirst, hpointer⟩
  -- the load reads the address, and the sum reads the load
  refine (extended.runs_insertBefore (hstays hfirst hanchor) ?_).bind ?_
  · simpa [Operation.operands, local_result] using hpointer
  rintro old second ⟨extended, hsecond, hold⟩
  have hanchor := hstays hsecond (hstays hfirst hanchor)
  have hpointer := hstays hsecond hpointer
  refine (extended.runs_insertBefore hanchor ?_).bind ?_
  · have hdelta : second.Local function (.int 64 true delta) := Local.of_handle?_eq_none rfl
    simpa [Operation.operands, local_result] using ⟨hold, hdelta⟩
  rintro sum third ⟨extended, hthird, hsum⟩
  -- the store reads the sum and the address, which are in the same function still
  refine (extended.runs_insertBefore (hstays hthird hanchor) ?_).bind ?_
  · simpa [Operation.operands, local_result] using ⟨hstays hthird hpointer, hsum⟩
  rintro store fourth ⟨extended, hfourth, -⟩
  refine runs_pure ⟨extended, ?_⟩
  exact ((hfirst.trans hsecond (by simp)).trans hthird (by simp)).trans hfourth (by simp)

/-- Wherever the new code is asked for, it goes into the function of the wait. -/
theorem functionOf?_of_anchor? {handles : List Handle} {point : Option Nat} {anchor : Handle}
    (hsite : program.functionOf? site.handle = some site.function)
    (hhandles : ∀ handle ∈ handles, program.functionOf? handle = some site.function)
    (hanchor : anchor? site handles point = some anchor) :
    program.functionOf? anchor = some site.function := by
  cases point with
  | none =>
      obtain rfl : site.handle = anchor := Option.some.inj hanchor
      exact hsite
  | some point =>
      exact hhandles anchor (List.mem_of_getElem? (show handles[point]? = some anchor from hanchor))

theorem keeps_moveDeadline (hsite : site.Grounded start) (seconds nanoseconds : Int)
    (point : Option Nat) :
    Work.Keeps start.Extended (moveDeadline site seconds nanoseconds point) := by
  intro workspace extended
  have hgrounded := hsite.kept extended.kept
  unfold moveDeadline
  split
  · exact keeps_skip _ workspace extended
  · split
    · rename_i time htime
      have hlocal := hgrounded.arguments time (List.mem_of_getElem? htime)
      extract_lets rest
      -- what is left once the handles that a point counts in are known
      have hrest : ∀ handles,
          (∀ handle ∈ handles, workspace.program.functionOf? handle = some site.function) →
          Runs (rest handles) workspace (fun _ after => start.Extended after.program)
            (fun _ after => start.Extended after.program) := by
        intro handles hhandles
        simp only [rest]
        split
        · rename_i anchor hanchor
          have hanchor := functionOf?_of_anchor? hgrounded.function_eq hhandles hanchor
          refine (runs_edit (runs_addToField extended hanchor hlocal 0 seconds _)).bind ?_
          rintro first between ⟨extended, hkept⟩
          refine (runs_edit (runs_addToField extended (hkept.functionOf? hanchor List.not_mem_nil)
            (hkept.local hlocal fun _ _ => List.not_mem_nil) 1 nanoseconds _)).bind ?_
          rintro second after ⟨extended, -⟩
          refine (keeps_forM fun handle _ => keeps_markEdited handle).bind (fun _ => ?_) after
            extended
          exact (keeps_markEdited _).bind fun _ => (keeps_query _).bind fun position =>
            keeps_recordChange.bind fun _ => keeps_pure true
        · exact (keeps_record _).bind (fun _ => keeps_pure false) workspace extended
      split
      · exact hrest [] (by simp)
      · refine runs_bind_query_of (fun handles hhandles => hrest handles ?_) fun _ _ => extended
        intro handle hmem
        obtain ⟨function, hfunction, rfl⟩ := Except.map_eq_ok_iff.mp hhandles
        exact functionOf?_eq_some_iff.mpr
          (extended.toConsistent.placed_of_mem_function (function_eq_ok_iff.mp hfunction) hmem)
    · exact keeps_skip _ workspace extended

end WaitOperator

/-! ## Splitting lock pairs

Both copies are inserted relative to the lock, so the arguments of the unlock are local there only
because a pair lies in one function. -/

/-- Both calls are in one function, and their captured arguments are local there. -/
structure LockPair.Grounded (pair : LockPair) (program : Program) : Prop where
  lock : pair.lock.Grounded program
  unlock : pair.unlock.Grounded program
  function_eq : pair.unlock.function = pair.lock.function

theorem LockPair.Matched.grounded {pair : LockPair} {sites : List CallSite} {search : CallSearch}
    (hpair : pair.Matched sites) (closed : program.Closed)
    (hfinds : ∀ site ∈ sites, search.Finds program site) : pair.Grounded program :=
  ⟨CallSite.grounded_of_finds closed (hfinds _ hpair.lock_mem),
    CallSite.grounded_of_finds closed (hfinds _ hpair.unlock_mem), hpair.function_eq⟩

namespace LockOperator

variable {index : PairIndex} {pair : LockPair}

/-- A copy is local where its original was captured. -/
theorem runs_insertLocalCopy (extended : start.Extended workspace.program) {lock : Handle}
    {function : FunctionId} (hlock : workspace.program.functionOf? lock = some function)
    (harguments : ∀ operand ∈ site.arguments, workspace.program.Local function operand)
    (role : String) (offset : Nat) {refused : EditError → Workspace → Prop} :
    Runs (insertCopy lock site role offset) workspace
      (fun _ after => start.Extended after.program ∧ workspace.program.Kept after.program [])
      refused := by
  obtain ⟨entry, hplaced, rfl⟩ := functionOf?_eq_some_iff.mp hlock
  obtain ⟨anchor, target, clamped, htarget, hsame, hinsert⟩ :=
    insertRelative_of_placed? extended.toConsistent hplaced (site.asCall site.arguments) offset
  have hcopy : ∀ operand ∈ (site.asCall site.arguments).operation.operands,
      workspace.program.Local target.function operand := by
    rw [CallSite.operands_asCall, hsame]
    exact harguments
  have hafter := extended.insertAhead htarget hcopy
  unfold insertCopy
  refine runs_bind_edit hinsert ?_
  dsimp only
  split
  · exact runs_bind_warn (runs_pure hafter)
  · exact runs_pure hafter

theorem keeps_splitPair (hpair : pair.Grounded start) (address : PairAddress)
    (unlockOffset lockOffset : Nat) :
    Work.Keeps start.Extended (splitPair address pair unlockOffset lockOffset) := by
  refine (keeps_query _).bind fun distance => ?_
  split
  · exact keeps_skip _
  · intro workspace extended
    have hlock := hpair.lock.kept extended.kept
    have hunlock := hpair.unlock.kept extended.kept
    refine (runs_insertLocalCopy extended hlock.function_eq
      (hpair.function_eq ▸ hunlock.arguments) _ _).bind ?_
    rintro unlockCopy between ⟨extended, hkept⟩
    have hlock := hlock.kept hkept
    refine (runs_insertLocalCopy extended hlock.function_eq hlock.arguments _ _).bind ?_
    rintro lockCopy after ⟨extended, -⟩
    exact ((keeps_markEdited _).bind fun _ => (keeps_markEdited _).bind fun _ =>
      keeps_recordChange.bind fun _ => keeps_pure true) after extended

theorem runs_isPairUntouched_noted {refused : EditError → Workspace → Prop} (pair : LockPair) :
    Runs (isPairUntouched pair) workspace (fun _ => Noted workspace) refused := by
  unfold isPairUntouched
  refine (runs_isUntouched_noted name pair.lock).bind fun untouched between hbetween => ?_
  split
  · exact (runs_isUntouched_noted name pair.unlock).weaken fun _ _ hafter => hbetween.trans hafter
  · exact runs_pure hbetween

theorem keeps_split (hindex : ∀ pair ∈ index.pairs, pair.Grounded start) (plan : LockPlan) :
    Work.Keeps start.Extended (split index plan) := by
  refine keeps_anyOf fun ⟨address, request⟩ _ workspace extended => ?_
  refine (runs_resolve_find plan.addressing address).bind ?_
  rintro answer after ⟨hnoted, hfind⟩
  have extended := hnoted.holds extended
  cases answer with
  | none => exact runs_pure extended
  | some pair =>
      have hpair := hindex pair (mem_of_find? hfind.symm)
      refine (keeps_of_noted fun _ => runs_isPairUntouched_noted pair).bind (fun untouched => ?_)
        after extended
      split
      · exact keeps_pure false
      · split
        · exact keeps_splitPair hpair address _ _
        · exact keeps_skip _

end LockOperator

end ConcurrencyFaults

import ConcurrencyFaults.Operator
import ConcurrencyFaults.Proofs.Revision

/-!
# Which calls an edit takes away and adds

When an instruction is erased or replaced, what read its result reads a zero or the result of its
successor from then on.  Such changes of operands go along with every edit and are not counted as
changes of the reader (`Placed.Redirects`); above all they never put a semaphore's value into a
call.  Up to redirections, an edit can be described by two lists: the instructions it was about, and
the calls that were not there before (`Program.Amended`).  Instructions that are not calls may come
and go unnoticed.

`Edit.Amends` gives the two lists of an edit that answers, whatever consistent program it starts on;
the second depends on the answer, because most edits that add a call answer its handle.

## Strategy

* `Redirects` is a preorder on operands and on instructions, and keeps calls apart from everything
  else (`Placed.Redirects.callForm?_eq`).
* `Amended.trans` adds up the lists of two edits.  `Amended.mono` takes out again what came in
  between: a handle that was stale at the beginning cannot be gone, and one that is stale in the end
  is not new.
* For single edits the lists are read off from the change of the layout; for composed ones they
  follow by `Amends.bind` and `Amends.after`.
-/

namespace ConcurrencyFaults

/-! ## Redirections

A zero is not redirected any further, and a redirected result may be redirected again.
-/

/-- The operand is the same, or it read the result of an instruction and now reads another's or a
zero of the status width. -/
def Operand.Redirects (old new : Operand) : Prop :=
  new = old ∨ ∃ handle, old = .result handle ∧
    (new = Program.zeroed LockOperator.statusWidth true ∨ ∃ other, new = .result other)

/-- The same instruction in the same place, with some operands redirected. -/
def Placed.Redirects (entry found : Placed) : Prop :=
  ∃ change : Operand → Operand, (∀ operand : Operand, operand.Redirects (change operand)) ∧
    found = { entry with
      instruction :=
        entry.instruction.withOperation (entry.instruction.operation.mapOperands change) }

namespace Operand.Redirects

theorem refl (operand : Operand) : operand.Redirects operand := Or.inl rfl

theorem trans {first second third : Operand} (hfirst : first.Redirects second)
    (hsecond : second.Redirects third) : first.Redirects third := by
  rcases hfirst with rfl | ⟨handle, rfl, hzero | ⟨other, rfl⟩⟩
  · exact hsecond
  · -- a constant is read by nothing
    rcases hsecond with rfl | ⟨other, hresult, -⟩
    · exact Or.inr ⟨handle, rfl, Or.inl hzero⟩
    · rw [hzero] at hresult
      cases hresult
  · rcases hsecond with rfl | ⟨-, -, hread⟩
    · exact Or.inr ⟨handle, rfl, Or.inr ⟨other, rfl⟩⟩
    · exact Or.inr ⟨handle, rfl, hread⟩

end Operand.Redirects

namespace Placed.Redirects

variable {entry between found : Placed}

theorem of_mapOperands {change : Operand → Operand}
    (hchange : ∀ operand : Operand, operand.Redirects (change operand)) (entry : Placed) :
    entry.Redirects { entry with
      instruction :=
        entry.instruction.withOperation (entry.instruction.operation.mapOperands change) } :=
  ⟨change, hchange, rfl⟩

theorem refl (entry : Placed) : entry.Redirects entry := by
  have hsame : entry.instruction.operation.mapOperands id = entry.instruction.operation :=
    Operation.mapOperands_eq_self fun _ _ => rfl
  refine ⟨id, Operand.Redirects.refl, ?_⟩
  rw [hsame]
  rfl

theorem trans (hfirst : entry.Redirects between) (hsecond : between.Redirects found) :
    entry.Redirects found := by
  obtain ⟨first, hfirst, rfl⟩ := hfirst
  obtain ⟨second, hsecond, rfl⟩ := hsecond
  refine ⟨fun operand => second (first operand), fun operand => ?_, ?_⟩
  · exact (hfirst operand).trans (hsecond (first operand))
  · rw [← Operation.mapOperands_mapOperands entry.instruction.operation first second]
    rfl

theorem callForm?_eq (hredirects : entry.Redirects found) :
    found.instruction.operation.callForm? = entry.instruction.operation.callForm? := by
  obtain ⟨change, -, rfl⟩ := hredirects
  exact Operation.callForm?_mapOperands ..

/-- Rewriting a function redirects if the rewriting does. -/
theorem rewrite {change : Operand → Operand}
    (hchange : ∀ operand : Operand, operand.Redirects (change operand)) (function : FunctionId)
    (entry : Placed) : entry.Redirects (entry.rewrite function change) := by
  unfold Placed.rewrite
  split
  · exact of_mapOperands hchange entry
  · exact refl entry

end Placed.Redirects

namespace Program

/-- What reads an erased or replaced result is redirected. -/
theorem redirects_replacing {value : Operand} (handle : Handle)
    (hvalue : value = zeroed LockOperator.statusWidth true ∨ ∃ other, value = .result other)
    (operand : Operand) : operand.Redirects (replacing handle value operand) := by
  unfold replacing
  split
  · rename_i huses
    have hread : operand = .result handle := by simpa [Operand.uses] using huses
    exact Or.inr ⟨handle, hread, hvalue⟩
  · exact Operand.Redirects.refl operand

/-! ## Amended programs

`stays` follows instructions forwards and `known` follows calls backwards.  Neither can be had from
the other, since instructions that are not calls may have been added.
-/

variable {program before between after : Program} {gone later new more : List Handle}
  {handle : Handle} {entry : Placed}

/-- All instructions but some are still there, and there are no calls but old and some new ones. -/
structure Amended (before after : Program) (gone new : List Handle) : Prop where
  consistent : after.Consistent
  stays : ∀ {handle entry}, before.placed? handle = some entry → handle ∉ gone →
    ∃ found, after.placed? handle = some found ∧ entry.Redirects found
  known : ∀ {handle found}, after.placed? handle = some found →
    found.instruction.operation.callForm? ≠ none → handle ∉ new →
      ∃ entry, before.placed? handle = some entry ∧ entry.Redirects found

namespace Amended

/-- Each instruction that is answered for is one of before, up to redirection. -/
theorem of_placed? (consistent : after.Consistent)
    (hstays : ∀ {handle entry}, before.placed? handle = some entry →
      ∃ found, after.placed? handle = some found ∧ entry.Redirects found)
    (hknown : ∀ {handle found}, after.placed? handle = some found →
      ∃ entry, before.placed? handle = some entry ∧ entry.Redirects found) :
    Amended before after [] [] :=
  ⟨consistent, fun hplaced _ => hstays hplaced, fun hplaced _ _ => hknown hplaced⟩

theorem of_placed?_eq (consistent : after.Consistent) (hsame : after.placed? = before.placed?) :
    Amended before after [] [] :=
  of_placed? consistent (fun {_ entry} hplaced => ⟨entry, hsame ▸ hplaced, .refl entry⟩)
    fun {_ found} hplaced => ⟨found, hsame ▸ hplaced, .refl found⟩

theorem refl (consistent : program.Consistent) : Amended program program [] [] :=
  of_placed?_eq consistent rfl

theorem trans (hfirst : Amended before between gone new)
    (hsecond : Amended between after later more) :
    Amended before after (later ++ gone) (more ++ new) := by
  refine ⟨hsecond.consistent, ?_, ?_⟩
  · intro handle entry hplaced hnot
    rw [List.mem_append, not_or] at hnot
    obtain ⟨middle, hmiddle, hredirects⟩ := hfirst.stays hplaced hnot.2
    obtain ⟨found, hfound, hlater⟩ := hsecond.stays hmiddle hnot.1
    exact ⟨found, hfound, hredirects.trans hlater⟩
  · intro handle found hfound hcall hnot
    rw [List.mem_append, not_or] at hnot
    obtain ⟨middle, hmiddle, hlater⟩ := hsecond.known hfound hcall hnot.1
    obtain ⟨entry, hplaced, hredirects⟩ :=
      hfirst.known hmiddle (hlater.callForm?_eq ▸ hcall) hnot.2
    exact ⟨entry, hplaced, hredirects.trans hlater⟩

/-- Handles need not be listed that were not live before, or are not live now. -/
theorem mono (hamended : Amended before after gone new)
    (hgone : ∀ handle ∈ gone, handle ∈ later ∨ before.placed? handle = none)
    (hnew : ∀ handle ∈ new, handle ∈ more ∨ after.placed? handle = none) :
    Amended before after later more := by
  refine ⟨hamended.consistent, ?_, ?_⟩
  · intro handle entry hplaced hnot
    refine hamended.stays hplaced fun hmem => ?_
    rcases hgone handle hmem with hlisted | hnone
    · exact hnot hlisted
    · rw [hplaced] at hnone
      cases hnone
  · intro handle found hfound hcall hnot
    refine hamended.known hfound hcall fun hmem => ?_
    rcases hnew handle hmem with hlisted | hnone
    · exact hnot hlisted
    · rw [hfound] at hnone
      cases hnone

theorem stale_before (hamended : Amended before after gone new)
    (hstale : after.placed? handle = none) : handle ∈ gone ∨ before.placed? handle = none := by
  by_cases hmem : handle ∈ gone
  · exact Or.inl hmem
  · refine Or.inr (Option.eq_none_iff_forall_ne_some.mpr fun entry hplaced => ?_)
    obtain ⟨found, hfound, -⟩ := hamended.stays hplaced hmem
    rw [hstale] at hfound
    cases hfound

end Amended

/-! ### The changes that edits are made of -/

theorem amended_insertEntry (consistent : program.Consistent) (entry : Placed)
    {place : Handle → List Handle → List Handle}
    (hafter : (program.insertEntry entry place).Consistent) :
    Amended program (program.insertEntry entry place) [] [program.nextHandle] := by
  have hfree := consistent.toFreeListExact
  refine ⟨hafter, fun {handle found} hplaced _ => ?_, fun {handle found} hplaced _ hne => ?_⟩
  · exact ⟨found, placed?_insertEntry_of_placed? hfree hplaced entry place, .refl found⟩
  · rw [List.mem_singleton] at hne
    rw [placed?_insertEntry hfree, Function.update_of_ne hne] at hplaced
    exact ⟨found, hplaced, .refl found⟩

/-- Only calls are counted as new. -/
theorem amended_insertEntry_of_other (consistent : program.Consistent)
    (hother : entry.instruction.operation.callForm? = none)
    {place : Handle → List Handle → List Handle}
    (hafter : (program.insertEntry entry place).Consistent) :
    Amended program (program.insertEntry entry place) [] [] := by
  have hinserted := amended_insertEntry consistent entry hafter
  refine ⟨hafter, hinserted.stays, fun {handle found} hplaced hcall _ => ?_⟩
  refine hinserted.known hplaced hcall fun hnext => hcall ?_
  rw [List.mem_singleton.mp hnext, placed?_insertEntry consistent.toFreeListExact,
    Function.update_self, Option.some.injEq] at hplaced
  rw [← hplaced, hother]

theorem amended_eraseEntry (consistent : program.Consistent)
    (hplaced : program.placed? handle = some entry) :
    Amended program (program.eraseEntry handle entry) [handle] [] := by
  have hafter := placed?_eraseEntry hplaced
  refine ⟨consistent.eraseEntry hplaced, fun {other found} hother hne => ?_,
    fun {other found} hother _ _ => ?_⟩
  · rw [List.mem_singleton] at hne
    exact ⟨found, by rw [hafter, Function.update_of_ne hne, hother], .refl found⟩
  · have hne : other ≠ handle := by
      rintro rfl
      rw [hafter, Function.update_self] at hother
      cases hother
    rw [hafter, Function.update_of_ne hne] at hother
    exact ⟨found, hother, .refl found⟩

theorem amended_rewriteFunction (consistent : program.Consistent) (function : FunctionId)
    {change : Operand → Operand}
    (hchange : ∀ operand : Operand, operand.Redirects (change operand)) :
    Amended program (program.rewriteFunction function change) [] [] := by
  refine Amended.of_placed? (consistent.rewriteFunction function change) ?_ ?_
  · intro handle entry hplaced
    exact ⟨_, placed?_rewriteFunction_of_placed? consistent hplaced function change,
      .rewrite hchange function entry⟩
  · intro handle found hfound
    rw [placed?_rewriteFunction consistent, Option.map_eq_some_iff] at hfound
    obtain ⟨entry, hplaced, rfl⟩ := hfound
    exact ⟨entry, hplaced, .rewrite hchange function entry⟩

/-- An instruction that is overwritten counts as gone and as new. -/
theorem amended_modifyInstruction (consistent : program.Consistent)
    (hplaced : program.placed? handle = some entry) (change : Instruction → Instruction) :
    Amended program (program.modifyInstruction handle change) [handle] [handle] := by
  have hafter := placed?_modifyInstruction hplaced change
  refine ⟨consistent.modifyInstruction handle change, fun {other found} hother hne => ?_,
    fun {other found} hother _ hne => ?_⟩
  · rw [List.mem_singleton] at hne
    exact ⟨found, by rw [hafter, Function.update_of_ne hne, hother], .refl found⟩
  · rw [List.mem_singleton] at hne
    rw [hafter, Function.update_of_ne hne] at hother
    exact ⟨found, hother, .refl found⟩

end Program

/-! ## Edits that answer

What a refused edit leaves behind is not needed, for a refusal stops the run.
-/

open Program

variable {Answer Other : Type}

/-- From every consistent program, if the edit answers, it was about some instructions and added
some calls. -/
def Edit.Amends (edit : Edit Answer) (gone : List Handle) (new : Answer → List Handle) : Prop :=
  ∀ program : Program, program.Consistent →
    Runs edit program (fun answer after => program.Amended after gone (new answer)) fun _ _ => True

namespace Edit

variable {edit : Edit Answer} {gone later : List Handle}

theorem amends_pure (answer : Answer) : Amends (pure answer) [] fun _ => [] :=
  fun _ consistent => runs_pure (Amended.refl consistent)

theorem amends_query (question : Program → Except EditError Answer) :
    Amends (query question) [] fun _ => [] := by
  intro program consistent
  cases hquestion : question program with
  | ok answer => exact runs_of_ok (query_apply_of_ok hquestion) (Amended.refl consistent)
  | error problem => exact runs_of_error (query_apply_of_error hquestion) trivial

/-- If the first of two edits adds no calls, the new ones are those of the second. -/
theorem Amends.bind {next : Answer → Edit Other} {new : Other → List Handle}
    (hfirst : Amends edit gone fun _ => []) (hnext : ∀ answer, Amends (next answer) later new) :
    Amends (edit >>= next) (later ++ gone) new := by
  intro program consistent
  refine (hfirst program consistent).bind fun answer between hbetween => ?_
  refine (hnext answer between hbetween.consistent).weaken fun other after hafter => ?_
  have hboth := hbetween.trans hafter
  rwa [List.append_nil] at hboth

/-- An edit in between that is not about a call and adds none. -/
theorem Amends.after {next : Answer → Edit Other} {new : Other → List Handle}
    (hfirst : Amends edit [] fun _ => []) (hnext : ∀ answer, Amends (next answer) gone new) :
    Amends (edit >>= next) gone new := by
  have hboth := hfirst.bind hnext
  rwa [List.append_nil] at hboth

/-- The answer may be changed, as long as the calls that were added can be told from it. -/
theorem Amends.map {new : Other → List Handle} {answer : Answer → Other}
    (hamends : Amends edit gone fun first => new (answer first)) :
    Amends (edit >>= fun first => pure (answer first)) gone new :=
  fun program consistent => (hamends program consistent).bind fun _ _ hamended =>
    runs_pure hamended

end Edit

namespace Program

/-- The handle of an inserted instruction was not live before. -/
theorem runs_insertBefore_fresh {program : Program} (consistent : program.Consistent)
    (anchor : Handle) (instruction : Instruction) :
    Runs (insertBefore anchor instruction) program (fun handle after =>
      program.Amended after [] [handle] ∧ program.placed? handle = none) fun _ _ => True := by
  cases hplaced : program.placed? anchor with
  | none => exact runs_of_error (insertBefore_of_stale hplaced instruction) trivial
  | some entry =>
      refine runs_of_ok (insertBefore_of_placed? consistent hplaced instruction) ⟨?_, ?_⟩
      · exact amended_insertEntry consistent _ (consistent.insertAhead hplaced instruction)
      · exact placed?_nextHandle consistent.toFreeListExact

theorem amends_insertBefore (anchor : Handle) (instruction : Instruction) :
    Edit.Amends (insertBefore anchor instruction) [] fun handle => [handle] :=
  fun _ consistent => (runs_insertBefore_fresh consistent anchor instruction).weaken
    fun _ _ hinserted => hinserted.1

theorem amends_insertBefore_of_other (anchor : Handle) {instruction : Instruction}
    (hother : instruction.operation.callForm? = none) :
    Edit.Amends (insertBefore anchor instruction) [] fun _ => [] := by
  intro program consistent
  cases hplaced : program.placed? anchor with
  | none => exact runs_of_error (insertBefore_of_stale hplaced instruction) trivial
  | some entry =>
      exact runs_of_ok (insertBefore_of_placed? consistent hplaced instruction)
        (amended_insertEntry_of_other consistent hother
          (consistent.insertAhead hplaced instruction))

theorem amends_push_of_other (function : FunctionId) (block : BlockId) {instruction : Instruction}
    (hother : instruction.operation.callForm? = none) :
    Edit.Amends (push function block instruction) [] fun _ => [] := by
  intro program consistent
  cases hblock : program.block? function block with
  | none =>
      obtain ⟨problem, hrefused⟩ := push_of_unknown hblock instruction
      exact runs_of_error hrefused trivial
  | some found =>
      exact runs_of_ok (push_of_block? hblock instruction)
        (amended_insertEntry_of_other consistent hother (consistent.pushEntry hblock instruction))

theorem amends_insertRelative (base : Handle) (instruction : Instruction) (steps : Nat) :
    Edit.Amends (insertRelative base instruction steps) [] fun answer => [answer.1] := by
  unfold insertRelative
  exact (Edit.amends_query _).after fun step => (amends_insertBefore _ _).map

theorem amends_changeInstruction (handle : Handle) (change : Instruction → Instruction) :
    Edit.Amends (changeInstruction handle change) [handle] fun _ => [handle] := by
  intro program consistent
  cases hplaced : program.placed? handle with
  | none => exact runs_of_error (changeInstruction_of_stale hplaced change) trivial
  | some entry =>
      exact runs_of_ok (changeInstruction_of_placed? hplaced change)
        (amended_modifyInstruction consistent hplaced change)

/-- Readers of a result may be redirected at any time. -/
theorem amends_replaceAllUses (handle : Handle) {value : Operand}
    (hvalue : value = zeroed LockOperator.statusWidth true ∨ ∃ other, value = .result other) :
    Edit.Amends (replaceAllUses handle value) [] fun _ => [] := by
  intro program consistent
  cases hplaced : program.placed? handle with
  | none => exact runs_of_error (replaceAllUses_of_stale hplaced value) trivial
  | some entry =>
      obtain ⟨uses, hreplaced⟩ := replaceAllUses_of_placed? consistent hplaced value
      exact runs_of_ok hreplaced
        (amended_rewriteFunction consistent _ (redirects_replacing handle hvalue))

theorem runs_erase_stale {program : Program} (consistent : program.Consistent) (handle : Handle) :
    Runs (erase handle) program (fun _ after =>
      program.Amended after [handle] [] ∧ after.placed? handle = none) fun _ _ => True := by
  cases hplaced : program.placed? handle with
  | none => exact runs_of_error (erase_of_stale hplaced) trivial
  | some entry =>
      obtain ⟨uses, huses⟩ := exists_useCount consistent hplaced
      rcases Nat.eq_zero_or_pos uses with rfl | hpos
      · refine runs_of_ok (erase_of_unused hplaced huses)
          ⟨amended_eraseEntry consistent hplaced, ?_⟩
        rw [placed?_eraseEntry hplaced, Function.update_self]
      · exact runs_of_error (erase_of_used huses hpos) trivial

theorem amends_erase (handle : Handle) : Edit.Amends (erase handle) [handle] fun _ => [] :=
  fun _ consistent => (runs_erase_stale consistent handle).weaken fun _ _ herased => herased.1

theorem runs_eraseOrZero_stale {program : Program} (consistent : program.Consistent)
    (handle : Handle) :
    Runs (eraseOrZero handle LockOperator.statusWidth true) program (fun _ after =>
      program.Amended after [handle] [] ∧ after.placed? handle = none) fun _ _ => True := by
  unfold eraseOrZero
  refine (Edit.amends_query _ program consistent).bind fun uses queried hqueried => ?_
  split
  · refine (runs_erase_stale hqueried.consistent handle).bind fun _ after herased => ?_
    exact runs_pure ⟨hqueried.trans herased.1, herased.2⟩
  · have hreplace := amends_replaceAllUses handle (Or.inl rfl) queried hqueried.consistent
    refine hreplace.bind fun _ redirected hredirected => ?_
    refine (runs_erase_stale hredirected.consistent handle).bind fun _ after herased => ?_
    exact runs_pure ⟨(hqueried.trans hredirected).trans herased.1, herased.2⟩

theorem amends_eraseOrZero (handle : Handle) :
    Edit.Amends (eraseOrZero handle LockOperator.statusWidth true) [handle] fun _ => [] :=
  fun _ consistent => (runs_eraseOrZero_stale consistent handle).weaken fun _ _ herased => herased.1

theorem amends_replaceWith (old : Handle) (new : Instruction) :
    Edit.Amends (replaceWith old new) [old] fun handle => [handle] := by
  intro program consistent
  refine (amends_insertBefore old new program consistent).bind fun handle inserted hinserted => ?_
  refine (amends_replaceAllUses old (Or.inr ⟨handle, rfl⟩) inserted hinserted.consistent).bind ?_
  intro _ redirected hredirected
  refine (amends_erase old redirected hredirected.consistent).bind fun _ after hafter => ?_
  exact runs_pure ((hinserted.trans hredirected).trans hafter)

end Program

/-! ## Edits of calls

Branches are no calls, so an invoke that is removed adds none.
-/

namespace CallSite

variable (site : CallSite)

theorem amends_branchToNormal : Edit.Amends site.branchToNormal [] fun _ => [] := by
  unfold branchToNormal
  split
  · exact Edit.amends_pure none
  · refine (Edit.amends_query _).after fun place => ?_
    exact (amends_push_of_other place.1 place.2 rfl).map

theorem amends_remove :
    Edit.Amends (site.remove LockOperator.statusWidth true) [site.handle] fun _ => [] := by
  unfold remove
  refine (Edit.amends_query _).after fun _ => ?_
  exact site.amends_branchToNormal.after fun _ => amends_eraseOrZero site.handle

theorem amends_replace (instruction : Instruction) :
    Edit.Amends (site.replace instruction) [site.handle] fun handle => [handle] := by
  unfold replace
  refine (Edit.amends_query _).after fun _ => ?_
  exact site.amends_branchToNormal.after fun _ => amends_replaceWith site.handle instruction

end CallSite

theorem JoinOperator.amends_sleepBefore (site : CallSite) (sleep : Instruction) :
    Edit.Amends (sleepBefore site sleep) [site.handle] fun handle => [handle] := by
  intro program consistent
  refine (amends_insertBefore site.handle sleep program consistent).bind ?_
  intro handle inserted hinserted
  -- in the second form a branch, which is no call, comes in between
  have herase : ∀ between, inserted.Amended between [] [] →
      Runs (do
        let _ ← erase site.handle
        return handle) between
        (fun answer after => program.Amended after [site.handle] [answer]) fun _ _ => True := by
    intro between hbetween
    refine (amends_erase site.handle between hbetween.consistent).bind fun _ after hafter => ?_
    exact runs_pure ((hinserted.trans hbetween).trans hafter)
  split
  · exact herase inserted (Amended.refl hinserted.consistent)
  · rename_i normal _ _
    have hbranch := @amends_insertBefore_of_other site.handle
      { operation := .branch normal, location := site.location } rfl inserted
      hinserted.consistent
    exact hbranch.bind fun _ between hbetween => herase between hbetween

/-- The code that moves a deadline makes no calls. -/
theorem WaitOperator.amends_addToField (anchor : Handle) (time : Operand) (field : Nat)
    (delta : Int) (location : Option Location) :
    Edit.Amends (addToField anchor time field delta location) [] fun _ => [] := by
  unfold addToField
  refine (amends_insertBefore_of_other anchor rfl).after fun pointer => ?_
  refine (amends_insertBefore_of_other anchor rfl).after fun old => ?_
  refine (amends_insertBefore_of_other anchor rfl).after fun sum => ?_
  exact (amends_insertBefore_of_other anchor rfl).map

namespace LockOperator

/-- The plain call that a walk starts from is new unless the call was one already. -/
theorem runs_plainCall {site : CallSite} {program : Program} (consistent : program.Consistent)
    (mutex : Operand) :
    Runs (plainCall site mutex) program (fun base after =>
      program.Amended after [site.handle] [base] ∧
        (base = site.handle ∨ program.placed? base = none)) fun _ _ => True := by
  unfold plainCall
  split
  · refine (site.amends_branchToNormal program consistent).bind fun _ branched hbranched => ?_
    refine (runs_insertBefore_fresh hbranched.consistent site.handle _).bind ?_
    rintro base inserted ⟨hinserted, hfresh⟩
    refine (amends_eraseOrZero site.handle inserted hinserted.consistent).bind ?_
    intro _ after hafter
    refine runs_pure ⟨(hbranched.trans hinserted).trans hafter, Or.inr ?_⟩
    -- a handle that is stale after the branch was pushed has been stale before
    exact (hbranched.stale_before hfresh).resolve_left List.not_mem_nil
  · have hsame : program.Amended program [site.handle] [site.handle] :=
      (Amended.refl consistent).mono (fun _ hmem => by cases hmem) fun _ hmem => by cases hmem
    exact runs_pure ⟨hsame, Or.inl rfl⟩

/-- In all, a call that was moved is gone and the moved one is new. -/
theorem amended_moved {program between inserted after : Program} {handle base moved : Handle}
    (hplain : program.Amended between [handle] [base])
    (hbase : base = handle ∨ program.placed? base = none)
    (hinserted : between.Amended inserted [] [moved]) (herased : inserted.Amended after [base] [])
    (hstale : after.placed? base = none) : program.Amended after [handle] [moved] := by
  refine ((hplain.trans hinserted).trans herased).mono ?_ ?_
  -- the plain call in between is left out of both lists
  · intro other hmem
    rcases List.mem_cons.mp hmem with rfl | hmem
    · exact hbase.imp List.mem_singleton.mpr id
    · exact Or.inl hmem
  · intro other hmem
    rcases List.mem_cons.mp hmem with rfl | hmem
    · exact Or.inl (List.mem_singleton_self _)
    · exact Or.inr (List.mem_singleton.mp hmem ▸ hstale)

end LockOperator

end ConcurrencyFaults

import ConcurrencyFaults.Operator.Join
import ConcurrencyFaults.Proofs.Closed.Edits
import ConcurrencyFaults.Proofs.Operators.Locks
import ConcurrencyFaults.Proofs.Typing

/-!
# Instructions that give way to others

A request erases some instructions and puts others in their place.  `Supersedes` says what can be
said of such a step wherever the run stands: whatever conformed to the program at the start conforms
to it afterwards, and what is gone was among the instructions that the request is about.

That an erased handle is not given out again at once takes a count.  Each erasure moves its slot on
by one generation, so after a few of them the slot is still short of the generation that it had
(`Outgrown`).

## Strategy

Steps of two kinds are enough.  What only gains something (`Adds`) supersedes nothing and can be put
in front of any step; the rest comes down to one lemma, `supersedes_eraseEntry_rewrite`: an
instruction is erased after its uses were replaced by something of its type.  From these two follow
replacements (`supersedes_substituteEntry`) and, by `Supersedes.trans`, whatever an operator does.
`Supersedes.drop` forgets instructions that came and went within one step.
-/

namespace ConcurrencyFaults

namespace Program

variable {program before between after : Program} {handle other : Handle} {entry : Placed}
  {handles later : List Handle} {count more : Nat} {value : Operand} {new : Instruction} {type : Ty}

/-! ## Slots that moved on

Generations go around, so that a slot has moved on is known only together with a bound on how often.
-/

/-- The slot of the handle was emptied since, though not too often. -/
def Outgrown (program : Program) (handle : Handle) (count : Nat) : Prop :=
  ∃ steps, 0 < steps ∧ steps ≤ count ∧ (program.occupancy handle.slot).map Prod.fst =
    some ((handle.generation + steps) % Slot.generationLimit)

namespace Outgrown

theorem mono (houtgrown : program.Outgrown handle count) (hcount : count ≤ more) :
    program.Outgrown handle more := by
  obtain ⟨steps, hpos, hsteps, hslot⟩ := houtgrown
  exact ⟨steps, hpos, Nat.le_trans hsteps hcount, hslot⟩

/-- As long as the generations have not gone around, an outgrown handle is stale. -/
theorem placed?_eq_none (houtgrown : program.Outgrown handle count)
    (hcount : count < Slot.generationLimit) : program.placed? handle = none := by
  obtain ⟨steps, hpos, hsteps, hslot⟩ := houtgrown
  rw [Option.eq_none_iff_forall_ne_some]
  intro entry hplaced
  rw [occupancy_of_placed? hplaced, Option.map_some, Option.some.injEq] at hslot
  rw [show Slot.generationLimit = 4294967296 from rfl] at hslot hcount
  dsimp only at hslot
  omega

theorem of_erased (hplaced : program.placed? handle = some entry) :
    (program.eraseEntry handle entry).Outgrown handle 1 := by
  refine ⟨1, Nat.one_pos, Nat.le_refl 1, ?_⟩
  rw [occupancy_eraseEntry hplaced, Function.update_self]
  rfl

theorem eraseEntry (houtgrown : program.Outgrown handle count)
    (hplaced : program.placed? other = some entry) :
    (program.eraseEntry other entry).Outgrown handle (count + 1) := by
  obtain ⟨steps, hpos, hsteps, hslot⟩ := houtgrown
  by_cases hsame : handle.slot = other.slot
  · refine ⟨steps + 1, Nat.succ_pos steps, Nat.succ_le_succ hsteps, ?_⟩
    rw [hsame, occupancy_of_placed? hplaced, Option.map_some, Option.some.injEq] at hslot
    rw [hsame, occupancy_eraseEntry hplaced, Function.update_self, Option.map_some,
      Option.some.injEq]
    calc (other.generation + 1) % Slot.generationLimit
      _ = ((handle.generation + steps) % Slot.generationLimit + 1) % Slot.generationLimit := by
          rw [← hslot]
      _ = (handle.generation + (steps + 1)) % Slot.generationLimit := Nat.mod_add_mod ..
  · refine ⟨steps, hpos, Nat.le_succ_of_le hsteps, ?_⟩
    rw [occupancy_eraseEntry hplaced, Function.update_of_ne hsame, hslot]

end Outgrown

/-! ## Programs that gained something

Declaring a function and inserting an instruction are of this kind.
-/

/-- Every instruction is what it was, and no slot was emptied. -/
structure Adds (before after : Program) : Prop where
  consistent : after.Consistent
  placed? : ∀ {handle entry}, before.placed? handle = some entry →
    after.placed? handle = some entry
  generation : ∀ {slot generation}, (before.occupancy slot).map Prod.fst = some generation →
    (after.occupancy slot).map Prod.fst = some generation

namespace Adds

theorem refl (consistent : program.Consistent) : program.Adds program :=
  ⟨consistent, fun hplaced => hplaced, fun hslot => hslot⟩

theorem trans (hfirst : before.Adds between) (hsecond : between.Adds after) : before.Adds after :=
  ⟨hsecond.consistent, fun hplaced => hsecond.placed? (hfirst.placed? hplaced),
    fun hslot => hsecond.generation (hfirst.generation hslot)⟩

theorem resultType?_eq (hadds : before.Adds after) (htype : before.resultType? handle = some type) :
    after.resultType? handle = some type := by
  obtain ⟨entry, hplaced, rfl⟩ := Option.map_eq_some_iff.mp htype
  exact resultType?_of_placed? (hadds.placed? hplaced)

end Adds

theorem adds_insertEntry (consistent : program.Consistent)
    {place : Handle → List Handle → List Handle}
    (hafter : (program.insertEntry entry place).Consistent) :
    program.Adds (program.insertEntry entry place) where
  consistent := hafter
  placed? := fun hplaced =>
    placed?_insertEntry_of_placed? consistent.toFreeListExact hplaced entry place
  generation := generation_insertEntry consistent.toFreeListExact place

theorem adds_getOrDeclare (consistent : program.Consistent) (name : String) (result : Ty)
    (parameters : List Ty) : program.Adds (program.getOrDeclare name result parameters).2 where
  consistent := consistent.getOrDeclare name result parameters
  placed? := fun hplaced => by rw [placed?_getOrDeclare, hplaced]
  generation := fun hslot => by
    rcases program.getOrDeclare_cases name result parameters with hsame | hadded
    · rw [hsame, hslot]
    · rw [hadded]
      exact hslot

/-! ## Programs in which instructions gave way -/

/-- Everything but the handles is left.  Some of these are gone, after a number of erasures at most,
and whatever else conformed to a program at the start conforms to it still. -/
structure Supersedes (before after : Program) (handles : List Handle) (count : Nat) : Prop
    extends Kept before after handles where
  outgrown : ∀ {handle steps}, before.Outgrown handle steps →
    after.Outgrown handle (steps + count)
  conforms : ∀ {start gone}, Conforms start before gone →
    ∃ lost ⊆ handles, (∀ handle ∈ lost, after.Outgrown handle count) ∧
      Conforms start after (gone ++ lost)

namespace Supersedes

theorem mono (hsupersedes : before.Supersedes after handles count) (hhandles : handles ⊆ later)
    (hcount : count ≤ more) : before.Supersedes after later more where
  toKept := hsupersedes.toKept.mono hhandles
  outgrown := fun houtgrown =>
    (hsupersedes.outgrown houtgrown).mono (Nat.add_le_add_left hcount _)
  conforms := fun hconforms => by
    obtain ⟨lost, hlost, houtgrown, hafter⟩ := hsupersedes.conforms hconforms
    exact ⟨lost, List.Subset.trans hlost hhandles,
      fun handle hmem => (houtgrown handle hmem).mono hcount, hafter⟩

theorem trans (hfirst : before.Supersedes between handles count)
    (hsecond : between.Supersedes after later more) :
    before.Supersedes after (handles ++ later) (count + more) where
  toKept := (hfirst.toKept.mono (List.subset_append_left handles later)).trans hsecond.toKept
    fun _ hmem => Or.inl (List.mem_append_right handles hmem)
  outgrown := fun houtgrown => by
    rw [← Nat.add_assoc]
    exact hsecond.outgrown (hfirst.outgrown houtgrown)
  conforms := fun hconforms => by
    obtain ⟨lost, hlost, houtgrown, hbetween⟩ := hfirst.conforms hconforms
    obtain ⟨others, hothers, houtgrownLater, hafter⟩ := hsecond.conforms hbetween
    refine ⟨lost ++ others, ?_, ?_, by rwa [← List.append_assoc]⟩
    · exact List.append_subset.mpr ⟨List.subset_append_of_subset_left later hlost,
        List.subset_append_of_subset_right handles hothers⟩
    · intro handle hmem
      rcases List.mem_append.mp hmem with hmem | hmem
      · exact hsecond.outgrown (houtgrown handle hmem)
      · exact (houtgrownLater handle hmem).mono (Nat.le_add_left more count)

/-- What came and went in between need not be listed. -/
theorem drop (hsupersedes : before.Supersedes after handles count)
    (hdrop : ∀ handle ∈ handles, handle ∈ later ∨ before.placed? handle = none) :
    before.Supersedes after later count where
  consistent := hsupersedes.consistent
  alike := fun hplaced hnot => hsupersedes.alike hplaced fun hmem =>
    (hdrop _ hmem).elim hnot (by simp [hplaced])
  outgrown := hsupersedes.outgrown
  conforms := fun {start gone} hconforms => by
    obtain ⟨lost, hlost, houtgrown, hafter⟩ := hsupersedes.conforms hconforms
    refine ⟨lost.filter (· ∈ later), fun handle hmem => by simpa using (List.mem_filter.mp hmem).2,
      fun handle hmem => houtgrown handle (List.mem_of_mem_filter hmem), ?_⟩
    -- a lost instruction that is not among the later ones was stale all along
    refine hafter.mono fun handle hmem => ?_
    rw [List.mem_append] at hmem ⊢
    rcases hmem with hmem | hmem
    · exact Or.inl (Or.inl hmem)
    · rcases hdrop handle (hlost hmem) with hkept | hstale
      · exact Or.inl (Or.inr (List.mem_filter.mpr ⟨hmem, by simpa using hkept⟩))
      · exact (hconforms.stale_before hstale).imp_left Or.inl

end Supersedes

theorem Adds.supersedes (hadds : before.Adds after) (handles : List Handle) (count : Nat) :
    before.Supersedes after handles count where
  consistent := hadds.consistent
  alike := fun hplaced _ => ⟨_, hadds.placed? hplaced, rfl, rfl⟩
  outgrown := fun ⟨steps, hpos, hsteps, hslot⟩ =>
    ⟨steps, hpos, Nat.le_add_right_of_le hsteps, hadds.generation hslot⟩
  conforms := fun hconforms => ⟨[], List.nil_subset handles, by simp, by
    rw [List.append_nil]
    exact hconforms.of_placed? hadds.consistent hadds.placed?⟩

theorem Supersedes.refl (consistent : program.Consistent) (handles : List Handle) (count : Nat) :
    program.Supersedes program handles count :=
  (Adds.refl consistent).supersedes handles count

theorem Adds.trans_supersedes (hadds : before.Adds between)
    (hsupersedes : between.Supersedes after handles count) :
    before.Supersedes after handles count := by
  have htrans := (hadds.supersedes [] 0).trans hsupersedes
  rwa [List.nil_append, Nat.zero_add] at htrans

/-! ### Erasing and replacing

Here the new value has to be of the type of the result whose uses it takes over, unless there is no
result.
-/

theorem supersedes_eraseEntry (consistent : program.Consistent)
    (hplaced : program.placed? handle = some entry) (hunused : program.useCount handle = .ok 0) :
    program.Supersedes (program.eraseEntry handle entry) [handle] 1 where
  toKept := kept_eraseEntry consistent hplaced
  outgrown := fun houtgrown => houtgrown.eraseEntry hplaced
  conforms := fun {start gone} hconforms =>
    ⟨[handle], List.Subset.refl _, by simpa using Outgrown.of_erased hplaced,
      (hconforms.weaken (List.subset_append_left gone [handle])).eraseEntry hplaced (by simp)
        hunused⟩

/-- An instruction may be erased after its uses were replaced by something of its type. -/
theorem supersedes_eraseEntry_rewrite (consistent : program.Consistent)
    (hplaced : program.placed? handle = some entry)
    (hvalue : entry.instruction.operation.resultType = .void ∨
      program.Local entry.function value ∧
        value.type? program = some entry.instruction.operation.resultType)
    (hother : value.uses handle = false) :
    program.Supersedes ((program.rewriteFunction entry.function (replacing handle value)).eraseEntry
      handle (entry.rewrite entry.function (replacing handle value))) [handle] 1 := by
  have hlive := placed?_rewriteFunction_of_placed? consistent hplaced entry.function
    (replacing handle value)
  have hkept := kept_rewriteFunction consistent entry.function (replacing handle value)
  refine ⟨?_, ?_, ?_⟩
  · exact (hkept.mono (List.nil_subset [handle])).trans (kept_eraseEntry hkept.consistent hlive)
      fun _ hmem => Or.inl hmem
  · rintro other steps ⟨moved, hpos, hmoved, hslot⟩
    refine Outgrown.eraseEntry ⟨moved, hpos, hmoved, ?_⟩ hlive
    rw [occupancy_rewriteFunction, hslot]
  · intro start gone hconforms
    exact ⟨[handle], List.Subset.refl _, by simpa using Outgrown.of_erased hlive,
      hconforms.eraseEntry_rewrite hplaced hvalue hother⟩

/-- An instruction may give way to another, and its uses to something of its type. -/
theorem supersedes_substituteEntry (consistent : program.Consistent)
    (hplaced : program.placed? handle = some entry)
    (hvalue : entry.instruction.operation.resultType = .void ∨
      (program.insertEntry ⟨new, entry.function, entry.block⟩ (ahead handle)).Local
          entry.function value ∧
        value.type? (program.insertEntry ⟨new, entry.function, entry.block⟩ (ahead handle)) =
          some entry.instruction.operation.resultType)
    (hother : value.uses handle = false) :
    program.Supersedes (program.substituteEntry handle entry new value) [handle] 1 := by
  have hinserted := consistent.insertAhead hplaced new
  have hadds := adds_insertEntry consistent hinserted
  exact hadds.trans_supersedes
    (supersedes_eraseEntry_rewrite hinserted (hadds.placed? hplaced) hvalue hother)

/-- What read the old result reads the new one, so the two have to be of one type. -/
theorem supersedes_substituteEntry_nextHandle (consistent : program.Consistent)
    (hplaced : program.placed? handle = some entry)
    (htype : new.operation.resultType = entry.instruction.operation.resultType) :
    program.Supersedes (program.substituteEntry handle entry new (.result program.nextHandle))
      [handle] 1 := by
  have hfree := consistent.toFreeListExact
  refine supersedes_substituteEntry consistent hplaced (Or.inr ⟨?_, ?_⟩) ?_
  · rw [local_result, functionOf?_insertEntry hfree, Function.update_self]
  · rw [Operand.type?, resultType?, placed?_insertEntry hfree, Function.update_self,
      Option.map_some, htype]
  · simp [Operand.uses, (ne_nextHandle hfree hplaced).symm]

/-! ## Edits

An edit of an operator is refused or makes one of the changes above.
-/

section Edits

theorem exists_of_resultType? (htype : program.resultType? handle = some type) :
    ∃ entry, program.placed? handle = some entry ∧
      entry.instruction.operation.resultType = type :=
  Option.map_eq_some_iff.mp htype

variable (consistent : program.Consistent)
include consistent

theorem runs_insertBefore_adds (anchor : Handle) (instruction : Instruction) :
    Runs (insertBefore anchor instruction) program
      (fun _ after => program.Adds after) fun _ _ => True := by
  cases hplaced : program.placed? anchor with
  | none => exact runs_of_error (insertBefore_of_stale hplaced instruction) trivial
  | some entry =>
      exact runs_of_ok (insertBefore_of_placed? consistent hplaced instruction)
        (adds_insertEntry consistent (consistent.insertAhead hplaced instruction))

theorem runs_erase_supersedes (handle : Handle) :
    Runs (erase handle) program
      (fun _ after => program.Supersedes after [handle] 1) fun _ _ => True := by
  cases hplaced : program.placed? handle with
  | none => exact runs_of_error (erase_of_stale hplaced) trivial
  | some entry =>
      obtain ⟨uses, huses⟩ := exists_useCount consistent hplaced
      rcases Nat.eq_zero_or_pos uses with rfl | hpos
      · exact runs_of_ok (erase_of_unused hplaced huses)
          (supersedes_eraseEntry consistent hplaced huses)
      · exact runs_of_error (erase_of_used huses hpos) trivial

variable (htype : program.resultType? handle = some type)
include htype

/-- A zero of the status width takes the place of a status, or of a result that nobody reads. -/
theorem runs_eraseOrZero_supersedes (hstatus : type = .void ∨ type = .status) :
    Runs (eraseOrZero handle LockOperator.statusWidth true) program
      (fun _ after => program.Supersedes after [handle] 1) fun _ _ => True := by
  obtain ⟨entry, hplaced, rfl⟩ := exists_of_resultType? htype
  obtain ⟨removal, hremoval⟩ :=
    eraseOrZero_of_placed? consistent hplaced LockOperator.statusWidth true
  refine runs_of_ok hremoval (supersedes_eraseEntry_rewrite consistent hplaced ?_ rfl)
  exact hstatus.imp_right fun hstatus => ⟨local_zeroed _ _, congrArg some hstatus.symm⟩

theorem runs_replaceWith_supersedes (hnew : new.operation.resultType = type) :
    Runs (replaceWith handle new) program
      (fun _ after => program.Supersedes after [handle] 1) fun _ _ => True := by
  obtain ⟨entry, hplaced, rfl⟩ := exists_of_resultType? htype
  exact runs_of_ok (replaceWith_of_placed? consistent hplaced new)
    (supersedes_substituteEntry_nextHandle consistent hplaced hnew)

end Edits

end Program

/-! ## Edits of calls -/

open Program

variable {site : CallSite} {program : Program}

@[simp] theorem SiteForm.resultType_operation (form : SiteForm) (callee : Callee)
    (arguments : List Operand) (result : Ty) :
    (form.operation callee arguments result).resultType = result := by
  cases form <;> rfl

/-- A call that is intact produces what it produced when it was captured. -/
theorem CallSite.Intact.resultType?_eq (hintact : site.Intact program) :
    program.resultType? site.handle = some site.result := by
  obtain ⟨entry, hplaced, -, hshape⟩ := hintact
  rw [resultType?_of_placed? hplaced, Operation.resultType_eq_of_shape_eq hshape,
    CallSite.operation, SiteForm.resultType_operation]

theorem CallSite.Intact.runs_validate (hintact : site.Intact program) :
    Runs (Edit.query site.validate) program (fun _ after => program = after) fun _ _ => True :=
  runs_of_ok (Edit.query_apply_of_ok hintact.validate) rfl

section Calls

variable (consistent : program.Consistent)
include consistent

theorem CallSite.runs_branchToNormal_adds (site : CallSite) :
    Runs site.branchToNormal program (fun _ after => program.Adds after) fun _ _ => True := by
  cases hform : site.form with
  | call => exact runs_of_ok (branchToNormal_of_call hform) (.refl consistent)
  | invoke normal unwind =>
      cases hplaced : program.placed? site.handle with
      | none =>
          unfold branchToNormal
          simp only [hform]
          exact runs_of_error
            (bind_apply_of_error (Edit.query_apply_of_error (parent_of_stale hplaced)) _) trivial
      | some entry =>
          exact runs_of_ok (branchToNormal_of_invoke consistent hform hplaced)
            (adds_insertEntry consistent
              (kept_pushBranch consistent hplaced normal site.location).consistent)

variable (hintact : site.Intact program)
include hintact

namespace CallSite

/-- A call that returns a status or nothing may be removed. -/
theorem runs_remove_supersedes (hstatus : site.result = .void ∨ site.result = .status) :
    Runs (site.remove LockOperator.statusWidth true) program
      (fun _ after => program.Supersedes after [site.handle] 1) fun _ _ => True := by
  unfold remove
  refine hintact.runs_validate.bind ?_
  rintro _ _ rfl
  refine (runs_branchToNormal_adds consistent site).bind fun _ between hadds => ?_
  exact (runs_eraseOrZero_supersedes hadds.consistent (hadds.resultType?_eq hintact.resultType?_eq)
    hstatus).weaken fun _ _ hafter => hadds.trans_supersedes hafter

/-- A call may be replaced by one that returns what it returned. -/
theorem runs_replace_supersedes {new : Instruction}
    (hnew : new.operation.resultType = site.result) :
    Runs (site.replace new) program
      (fun _ after => program.Supersedes after [site.handle] 1) fun _ _ => True := by
  unfold replace
  refine hintact.runs_validate.bind ?_
  rintro _ _ rfl
  refine (runs_branchToNormal_adds consistent site).bind fun _ between hadds => ?_
  exact (runs_replaceWith_supersedes hadds.consistent (hadds.resultType?_eq hintact.resultType?_eq)
    hnew).weaken fun _ _ hafter => hadds.trans_supersedes hafter

end CallSite

omit hintact in
/-- A sleep in front of a join that is not read may return what it likes. -/
theorem JoinOperator.runs_sleepBefore_supersedes (sleep : Instruction) :
    Runs (sleepBefore site sleep) program
      (fun _ after => program.Supersedes after [site.handle] 1) fun _ _ => True := by
  unfold sleepBefore
  refine (runs_insertBefore_adds consistent site.handle sleep).bind fun handle slept hslept => ?_
  have herase : ∀ state, program.Adds state → Runs (do
      let _ ← erase site.handle
      return handle) state (fun _ after => program.Supersedes after [site.handle] 1)
      fun _ _ => True := fun state hadds =>
    (runs_erase_supersedes hadds.consistent site.handle).bind fun _ _ hafter =>
      runs_pure (hadds.trans_supersedes hafter)
  split
  · exact herase slept hslept
  · exact (runs_insertBefore_adds hslept.consistent site.handle _).bind
      fun _ branched hbranched => herase branched (hslept.trans hbranched)

namespace LockOperator

/-- The plain call that a walk starts from returns what the call returned, and is the call itself or
new. -/
theorem runs_plainCall_supersedes (hstatus : site.result = .void ∨ site.result = .status)
    (mutex : Operand) :
    Runs (plainCall site mutex) program (fun base after =>
      program.Supersedes after [site.handle] 1 ∧ after.resultType? base = some site.result ∧
        (base = site.handle ∨ program.placed? base = none)) fun _ _ => True := by
  have htype := hintact.resultType?_eq
  obtain ⟨entry, hplaced, hentry⟩ := exists_of_resultType? htype
  cases hform : site.form with
  | call =>
      exact runs_of_ok (plainCall_of_call hform mutex)
        ⟨.refl consistent _ 1, htype, Or.inl rfl⟩
  | invoke normal unwind =>
      have hpushed := (kept_pushBranch consistent hplaced normal site.location).consistent
      have hadds : program.Adds (program.pushBranch entry normal site.location) :=
        adds_insertEntry consistent hpushed
      have hlive := hadds.placed? hplaced
      refine runs_of_ok (plainCall_of_invoke consistent hform hplaced mutex) ⟨?_, ?_, Or.inr ?_⟩
      · refine hadds.trans_supersedes (supersedes_substituteEntry hpushed hlive ?_ rfl)
        rw [hentry]
        exact hstatus.imp_right fun hstatus => ⟨local_zeroed _ _, congrArg some hstatus.symm⟩
      · rw [resultType?_of_placed? (placed?_substituteEntry_nextHandle hpushed hlive _ _)]
        rw [Placed.rewrite_eq, if_pos rfl]
        exact congrArg some (Operation.resultType_mapOperands (site.asCall [mutex]).operation _)
      · -- whatever was live still is, and so is not the next to be given out
        rw [Option.eq_none_iff_forall_ne_some]
        intro found hfound
        exact absurd rfl (ne_nextHandle hpushed.toFreeListExact (hadds.placed? hfound))

end LockOperator

end Calls

end ConcurrencyFaults

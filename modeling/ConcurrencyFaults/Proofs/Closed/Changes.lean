import ConcurrencyFaults.Proofs.Revision

/-!
# Programs without dangling operands

An operand is local to a function if it is no result at all or the result of a live instruction of
that function.  A program is closed if every instruction reads only operands that are local to its
own function, and sealed if it is consistent besides.  This file says what each of the changes of
`Layout.lean` asks for to keep a program sealed: what is inserted must read local operands, what is
put in the place of an operand must be local, and what is erased must be unread.

In a closed program nobody outside its function reads a result, so counting the uses in that
function is enough to know that a result is unread.

## Strategy

Every change is described by the function that holds each live instruction (`functionOf?`), since
this is all that locality looks at:

* what is inserted adds one entry to it, so local operands stay local
  (`functionOf?_insertEntry`, `Closed.insertEntry`);
* overwriting and replacing operands leave it alone (`functionOf?_modifyInstruction`,
  `functionOf?_rewriteFunction`), so only the operands that are written anew have to be looked at;
* erasing removes one entry, which nobody names if the result is unread (`Sealed.unread`,
  `Sealed.eraseEntry`).

An instruction gives way to another by an insertion, a replacement of operands and an erasure
(`Sealed.substituteEntry`).
-/

namespace ConcurrencyFaults.Program

variable {program before after : Program} {handle : Handle} {entry : Placed}
  {function : FunctionId} {operand : Operand}

/-- The function that holds a live instruction. -/
def functionOf? (program : Program) (handle : Handle) : Option FunctionId :=
  (program.placed? handle).map Placed.function

@[simp] theorem functionOf?_of_placed? (hplaced : program.placed? handle = some entry) :
    program.functionOf? handle = some entry.function := by
  simp [functionOf?, hplaced]

theorem functionOf?_eq_some_iff :
    program.functionOf? handle = some function ↔
      ∃ entry, program.placed? handle = some entry ∧ entry.function = function := by
  simp [functionOf?]

/-- The operand is no result, or the result of a live instruction of the function. -/
def Local (program : Program) (function : FunctionId) (operand : Operand) : Prop :=
  ∀ used ∈ operand.handle?, program.functionOf? used = some function

instance (program : Program) (function : FunctionId) (operand : Operand) :
    Decidable (program.Local function operand) :=
  inferInstanceAs (Decidable (∀ used ∈ operand.handle?, program.functionOf? used = some function))

theorem Local.of_handle?_eq_none (hnone : operand.handle? = none) :
    program.Local function operand := by
  simp [Local, hnone]

theorem local_result : program.Local function (.result handle) ↔
    program.functionOf? handle = some function := by
  simp [Local, Operand.handle?]

/-- An operand stays local as long as the instruction that it names stays where it is. -/
theorem Local.imp (hlocal : before.Local function operand)
    (hstays : ∀ used ∈ operand.handle?, before.functionOf? used = some function →
      after.functionOf? used = some function) : after.Local function operand :=
  fun used hused => hstays used hused (hlocal used hused)

theorem Kept.functionOf? {gone : List Handle} (hkept : Kept before after gone)
    (hbefore : before.functionOf? handle = some function) (hstays : handle ∉ gone) :
    after.functionOf? handle = some function := by
  obtain ⟨entry, hplaced, rfl⟩ := functionOf?_eq_some_iff.mp hbefore
  obtain ⟨found, hfound, hsame, -⟩ := hkept.alike hplaced hstays
  exact functionOf?_eq_some_iff.mpr ⟨found, hfound, hsame⟩

/-- An edit leaves an operand local unless it is about the instruction that the operand names. -/
theorem Kept.local {gone : List Handle} (hkept : Kept before after gone)
    (hlocal : before.Local function operand) (hstays : ∀ used ∈ operand.handle?, used ∉ gone) :
    after.Local function operand :=
  hlocal.imp fun used hused hbefore => hkept.functionOf? hbefore (hstays used hused)

/-- Every operand is local to the function that holds its reader. -/
def Closed (program : Program) : Prop :=
  ∀ reader entry, program.placed? reader = some entry →
    ∀ operand ∈ entry.instruction.operation.operands, program.Local entry.function operand

theorem Consistent.closed_iff (consistent : program.Consistent) :
    program.Closed ↔ ∀ reader ∈ program.handles, ∀ entry ∈ program.placed? reader,
      ∀ operand ∈ entry.instruction.operation.operands, program.Local entry.function operand :=
  consistent.forall_placed_iff

/-- A consistent program without dangling operands. -/
structure Sealed (program : Program) : Prop extends program.Consistent where
  closed : program.Closed

/-! ## Storage and lists do not matter -/

theorem Closed.congr (closed : before.Closed) (hplaced : after.placed? = before.placed?) :
    after.Closed := by
  unfold Closed Local functionOf?
  rw [hplaced]
  exact closed

theorem Sealed.getOrDeclare (sealed : program.Sealed) (name : String) (result : Ty)
    (parameters : List Ty) : (program.getOrDeclare name result parameters).2.Sealed :=
  ⟨sealed.toConsistent.getOrDeclare name result parameters,
    sealed.closed.congr (placed?_getOrDeclare ..)⟩

/-! ## Inserting

A fresh handle joins the function of its entry; no other handle changes its function. -/

theorem functionOf?_insertEntry (hfree : program.FreeListExact)
    (place : Handle → List Handle → List Handle) :
    (program.insertEntry entry place).functionOf? =
      Function.update program.functionOf? program.nextHandle (some entry.function) := by
  funext other
  unfold functionOf?
  rw [placed?_insertEntry hfree]
  by_cases hother : other = program.nextHandle <;> simp [hother]

theorem functionOf?_insertEntry_of_eq_some (hfree : program.FreeListExact)
    (hbefore : program.functionOf? handle = some function)
    (place : Handle → List Handle → List Handle) :
    (program.insertEntry entry place).functionOf? handle = some function := by
  obtain ⟨found, hplaced, rfl⟩ := functionOf?_eq_some_iff.mp hbefore
  exact functionOf?_of_placed? (placed?_insertEntry_of_placed? hfree hplaced entry place)

/-- What is inserted may read whatever is local to its function. -/
theorem Closed.insertEntry (closed : program.Closed) (hfree : program.FreeListExact)
    (hlocal : ∀ operand ∈ entry.instruction.operation.operands,
      program.Local entry.function operand) (place : Handle → List Handle → List Handle) :
    (program.insertEntry entry place).Closed := by
  intro reader found hfound operand hoperand
  rw [placed?_insertEntry hfree] at hfound
  have hbefore : program.Local found.function operand := by
    by_cases hreader : reader = program.nextHandle
    · rw [hreader, Function.update_self, Option.some.injEq] at hfound
      subst hfound
      exact hlocal operand hoperand
    · rw [Function.update_of_ne hreader] at hfound
      exact closed reader found hfound operand hoperand
  exact hbefore.imp fun used _ hused => functionOf?_insertEntry_of_eq_some hfree hused place

/-- An instruction that reads local operands may be put in front of any other. -/
theorem Sealed.insertAhead (sealed : program.Sealed) (hplaced : program.placed? handle = some entry)
    {instruction : Instruction}
    (hlocal : ∀ operand ∈ instruction.operation.operands, program.Local entry.function operand) :
    (program.insertEntry ⟨instruction, entry.function, entry.block⟩ (ahead handle)).Sealed :=
  ⟨sealed.toConsistent.insertAhead hplaced instruction,
    sealed.closed.insertEntry sealed.toFreeListExact hlocal _⟩

theorem Sealed.pushBranch (sealed : program.Sealed) (hplaced : program.placed? handle = some entry)
    (target : BlockId) (location : Option Location) :
    (program.pushBranch entry target location).Sealed :=
  ⟨(kept_pushBranch sealed.toConsistent hplaced target location).consistent,
    sealed.closed.insertEntry sealed.toFreeListExact (fun _ hmem => absurd hmem List.not_mem_nil) _⟩

/-! ## Overwriting

An instruction keeps its function when it is overwritten, and with it keeps its readers. -/

theorem functionOf?_modifyInstruction (hplaced : program.placed? handle = some entry)
    (change : Instruction → Instruction) :
    (program.modifyInstruction handle change).functionOf? = program.functionOf? := by
  funext other
  unfold functionOf?
  rw [placed?_modifyInstruction hplaced]
  by_cases hother : other = handle
  · rw [hother, Function.update_self, hplaced]
    rfl
  · rw [Function.update_of_ne hother]

theorem Sealed.modifyInstruction (sealed : program.Sealed)
    (hplaced : program.placed? handle = some entry) {change : Instruction → Instruction}
    (hlocal : ∀ operand ∈ (change entry.instruction).operation.operands,
      program.Local entry.function operand) : (program.modifyInstruction handle change).Sealed := by
  refine ⟨sealed.toConsistent.modifyInstruction handle change, ?_⟩
  intro reader found hfound operand hoperand
  unfold Local
  rw [functionOf?_modifyInstruction hplaced]
  rw [placed?_modifyInstruction hplaced] at hfound
  by_cases hreader : reader = handle
  · rw [hreader, Function.update_self, Option.some.injEq] at hfound
    subst hfound
    exact hlocal operand hoperand
  · rw [Function.update_of_ne hreader] at hfound
    exact sealed.closed reader found hfound operand hoperand

/-! ## Replacing operands

A replacement stays inside one function, so one value that is local there serves all readers. -/

theorem functionOf?_rewriteFunction (consistent : program.Consistent) (function : FunctionId)
    (change : Operand → Operand) :
    (program.rewriteFunction function change).functionOf? = program.functionOf? := by
  funext other
  unfold functionOf?
  rw [placed?_rewriteFunction consistent, Option.map_map]
  congr 1
  funext found
  exact Placed.function_rewrite ..

theorem local_replacing {value : Operand} (hvalue : program.Local function value)
    (hlocal : program.Local function operand) :
    program.Local function (replacing handle value operand) := by
  unfold replacing
  split
  · exact hvalue
  · exact hlocal

/-- The uses of a result may be replaced by anything local. -/
theorem Sealed.rewriteFunction (sealed : program.Sealed) (handle : Handle) {value : Operand}
    (hvalue : program.Local function value) :
    (program.rewriteFunction function (replacing handle value)).Sealed := by
  have consistent := sealed.toConsistent
  refine ⟨consistent.rewriteFunction function _, ?_⟩
  intro reader found hfound operand hoperand
  unfold Local
  rw [functionOf?_rewriteFunction consistent]
  rw [placed?_rewriteFunction consistent, Option.map_eq_some_iff] at hfound
  obtain ⟨old, hold, rfl⟩ := hfound
  rw [Placed.function_rewrite]
  by_cases hhere : old.function = function
  · -- an operand here is a former operand of the same reader, replaced or not
    rw [Placed.rewrite, if_pos hhere] at hoperand
    obtain ⟨former, hformer, rfl⟩ := List.mem_map.mp
      ((Operation.operands_mapOperands _ old.instruction.operation) ▸ hoperand)
    rw [hhere]
    exact local_replacing hvalue (hhere ▸ sealed.closed reader old hold former hformer)
  · rw [Placed.rewrite, if_neg hhere] at hoperand
    exact sealed.closed reader old hold operand hoperand

/-! ## Erasing

The edit asks for a use count of zero, which only looks at one function.  In a closed program this
rules out readers everywhere. -/

/-- Outside its function nobody reads a result, so it is unread if it is unused there. -/
theorem Sealed.unread (sealed : program.Sealed) (hplaced : program.placed? handle = some entry)
    (hunused : program.useCount handle = .ok 0) {reader : Handle} {found : Placed}
    (hfound : program.placed? reader = some found) :
    found.instruction.operation.useCount handle = 0 := by
  by_cases hsame : found.function = entry.function
  · exact (useCount_eq_zero_iff sealed.toConsistent hplaced).mp hunused reader found hfound hsame
  · -- a reader elsewhere would have an operand that is not local to it
    refine List.countP_eq_zero.mpr fun operand hoperand huses => hsame ?_
    have hlocal := sealed.closed reader found hfound operand hoperand
    rw [beq_iff_eq.mp huses, local_result, functionOf?_of_placed? hplaced] at hlocal
    exact (Option.some.inj hlocal).symm

/-- An unused instruction may be erased. -/
theorem Sealed.eraseEntry (sealed : program.Sealed) (hplaced : program.placed? handle = some entry)
    (hunused : program.useCount handle = .ok 0) : (program.eraseEntry handle entry).Sealed := by
  refine ⟨sealed.toConsistent.eraseEntry hplaced, ?_⟩
  intro reader found hfound operand hoperand
  rw [placed?_eraseEntry hplaced] at hfound
  have hreader : reader ≠ handle := by
    rintro rfl
    simp at hfound
  rw [Function.update_of_ne hreader] at hfound
  -- no operand that is left names the erased instruction
  have hunread := List.countP_eq_zero.mp (sealed.unread hplaced hunused hfound) operand hoperand
  refine (sealed.closed reader found hfound operand hoperand).imp fun used hused hbefore => ?_
  have hne : used ≠ handle := by
    rintro rfl
    refine hunread ?_
    cases operand <;> simp_all [Operand.handle?, Operand.uses]
  unfold functionOf? at hbefore ⊢
  rwa [placed?_eraseEntry hplaced, Function.update_of_ne hne]

/-- An instruction may be erased once its uses are replaced by something local. -/
theorem Sealed.eraseEntry_rewrite (sealed : program.Sealed)
    (hplaced : program.placed? handle = some entry) {value : Operand}
    (hvalue : program.Local entry.function value) (hother : value.uses handle = false) :
    ((program.rewriteFunction entry.function (replacing handle value)).eraseEntry handle
      (entry.rewrite entry.function (replacing handle value))).Sealed := by
  have consistent := sealed.toConsistent
  exact (sealed.rewriteFunction handle hvalue).eraseEntry
    (placed?_rewriteFunction_of_placed? consistent hplaced entry.function (replacing handle value))
    (useCount_rewriteFunction consistent hplaced hother)

/-- An instruction may give way to one that reads local operands, and its uses to something that is
local once the new instruction is there. -/
theorem Sealed.substituteEntry (sealed : program.Sealed)
    (hplaced : program.placed? handle = some entry) {new : Instruction} {value : Operand}
    (hlocal : ∀ operand ∈ new.operation.operands, program.Local entry.function operand)
    (hvalue : (program.insertEntry ⟨new, entry.function, entry.block⟩ (ahead handle)).Local
      entry.function value) (hother : value.uses handle = false) :
    (program.substituteEntry handle entry new value).Sealed :=
  (sealed.insertAhead hplaced hlocal).eraseEntry_rewrite
    (placed?_insertEntry_of_placed? sealed.toFreeListExact hplaced _ _) hvalue hother

theorem Sealed.substituteEntry_nextHandle (sealed : program.Sealed)
    (hplaced : program.placed? handle = some entry) {new : Instruction}
    (hlocal : ∀ operand ∈ new.operation.operands, program.Local entry.function operand) :
    (program.substituteEntry handle entry new (.result program.nextHandle)).Sealed := by
  have hfree := sealed.toFreeListExact
  refine sealed.substituteEntry hplaced hlocal ?_ ?_
  · rw [local_result, functionOf?_insertEntry hfree, Function.update_self]
  · simp [Operand.uses, (ne_nextHandle hfree hplaced).symm]

end ConcurrencyFaults.Program

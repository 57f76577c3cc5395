import ConcurrencyFaults.Proofs.Clearing

/-!
# Functions in which something was changed

A function was altered if one of its instructions was erased or another one was put in.  Two lists
of handles show it: that of the function before and that of the function afterwards (`Alters`).  In
a consistent program the lists say no more than which function each live instruction is in, so an
edit is followed by what it does to `functionOf?`.  Every edit of instructions works in the function
of its anchor and in no other (`AltersOnly`).

Two directions have to be kept apart.  That a function was altered is shown by one handle that is in
one of the lists and not in the other (`Alters.of_erased`, `Alters.of_inserted`).  That it was not
is shown for all handles at once: `functionOf?` changes at one handle, and there only from and to
the function that was worked on (`AltersOnly.of_update`).
-/

namespace ConcurrencyFaults.Program

variable {program before between after : Program} {handle : Handle} {entry : Placed}
  {function other : FunctionId}

/-- The instructions of a function in visitation order, none if there is no such function. -/
def handlesIn (program : Program) (function : FunctionId) : List Handle :=
  ((program.function? function).map Function.handles).getD []

/-- An instruction of the function was erased, or one was put in. -/
def Alters (before after : Program) (function : FunctionId) : Prop :=
  (∃ handle ∈ before.handlesIn function, handle ∉ after.handlesIn function) ∨
    ∃ handle ∈ after.handlesIn function, handle ∉ before.handlesIn function

instance (before after : Program) (function : FunctionId) :
    Decidable (before.Alters after function) :=
  inferInstanceAs (Decidable (_ ∨ _))

theorem Consistent.mem_handlesIn_iff (consistent : program.Consistent) :
    handle ∈ program.handlesIn function ↔ program.functionOf? handle = some function := by
  rw [functionOf?_eq_some_iff]
  cases hfunction : program.function? function with
  | some found =>
      rw [handlesIn, hfunction]
      exact consistent.mem_function_iff hfunction
  | none =>
      refine iff_of_false (by simp [handlesIn, hfunction]) ?_
      rintro ⟨entry, hplaced, rfl⟩
      obtain ⟨found, hfound, -⟩ := consistent.function_of_placed hplaced
      rw [hfunction] at hfound
      cases hfound

theorem Consistent.exists_of_mem_handlesIn (consistent : program.Consistent)
    (hmem : handle ∈ program.handlesIn function) :
    ∃ entry, program.placed? handle = some entry ∧ entry.function = function :=
  functionOf?_eq_some_iff.mp (consistent.mem_handlesIn_iff.mp hmem)

theorem Consistent.exists_function?_of_functionOf? (consistent : program.Consistent)
    (hhandle : program.functionOf? handle = some function) :
    ∃ found, program.function? function = some found := by
  obtain ⟨entry, hplaced, rfl⟩ := functionOf?_eq_some_iff.mp hhandle
  obtain ⟨found, hfound, -⟩ := consistent.function_of_placed hplaced
  exact ⟨found, hfound⟩

/-! ## Edits in one function

Sequences of edits in one function are again edits in this function.
-/

/-- Instructions were erased and put in within one function alone. -/
def AltersOnly (before after : Program) (function : FunctionId) : Prop :=
  ∀ other, other ≠ function → ∀ handle,
    after.functionOf? handle = some other ↔ before.functionOf? handle = some other

namespace AltersOnly

theorem refl (program : Program) (function : FunctionId) : program.AltersOnly program function :=
  fun _ _ _ => Iff.rfl

theorem trans (hfirst : before.AltersOnly between function)
    (hsecond : between.AltersOnly after function) : before.AltersOnly after function :=
  fun other hother handle => (hsecond other hother handle).trans (hfirst other hother handle)

/-- It is enough that nothing but one handle is answered for in another way, and that this handle
belongs to the function both times, if it is live. -/
theorem of_update {value : Option FunctionId}
    (hupdate : after.functionOf? = Function.update before.functionOf? handle value)
    (hbefore : ∀ found ∈ before.functionOf? handle, found = function)
    (hafter : ∀ found ∈ value, found = function) : before.AltersOnly after function := by
  intro other hother place
  rw [hupdate]
  by_cases hplace : place = handle
  · subst hplace
    rw [Function.update_self]
    -- neither before nor after is this handle in another function
    exact iff_of_false (fun hvalue => hother (hafter other hvalue))
      fun hvalue => hother (hbefore other hvalue)
  · rw [Function.update_of_ne hplace]

theorem not_alters (honly : before.AltersOnly after function) (hbefore : before.Consistent)
    (hafter : after.Consistent) (hother : other ≠ function) : ¬ before.Alters after other := by
  have hsame : ∀ handle, handle ∈ after.handlesIn other ↔ handle ∈ before.handlesIn other := by
    intro handle
    rw [hafter.mem_handlesIn_iff, hbefore.mem_handlesIn_iff]
    exact honly other hother handle
  rintro (⟨handle, hmem, hnot⟩ | ⟨handle, hmem, hnot⟩)
  · exact hnot ((hsame handle).mpr hmem)
  · exact hnot ((hsame handle).mp hmem)

end AltersOnly

theorem Alters.of_erased (hbefore : before.Consistent) (hafter : after.Consistent)
    (hlive : before.functionOf? handle = some function)
    (hgone : after.functionOf? handle = none) : before.Alters after function := by
  refine Or.inl ⟨handle, hbefore.mem_handlesIn_iff.mpr hlive, ?_⟩
  rw [hafter.mem_handlesIn_iff, hgone]
  simp

theorem Alters.of_inserted (hbefore : before.Consistent) (hafter : after.Consistent)
    (hfresh : before.functionOf? handle = none)
    (hlive : after.functionOf? handle = some function) : before.Alters after function := by
  refine Or.inr ⟨handle, hafter.mem_handlesIn_iff.mpr hlive, ?_⟩
  rw [hbefore.mem_handlesIn_iff, hfresh]
  simp

/-! ### The changes that edits are made of -/

theorem functionOf?_of_stale (hstale : program.placed? handle = none) :
    program.functionOf? handle = none := by
  rw [functionOf?, hstale]
  rfl

theorem altersOnly_insertEntry (hfree : program.FreeListExact)
    (place : Handle → List Handle → List Handle) :
    program.AltersOnly (program.insertEntry entry place) entry.function := by
  refine .of_update (functionOf?_insertEntry hfree place) ?_ (by simp)
  rw [functionOf?_of_stale (placed?_nextHandle hfree)]
  simp

theorem functionOf?_eraseEntry (hplaced : program.placed? handle = some entry) :
    (program.eraseEntry handle entry).functionOf? =
      Function.update program.functionOf? handle none := by
  funext place
  unfold functionOf?
  rw [placed?_eraseEntry hplaced]
  by_cases hplace : place = handle <;> simp [hplace]

theorem altersOnly_eraseEntry (hplaced : program.placed? handle = some entry) :
    program.AltersOnly (program.eraseEntry handle entry) entry.function := by
  refine .of_update (functionOf?_eraseEntry hplaced) ?_ (by simp)
  rw [functionOf?_of_placed? hplaced]
  simp

/-- The slot of an erased instruction is filled next, but under another generation. -/
theorem nextHandle_eraseEntry_ne (hplaced : program.placed? handle = some entry) :
    (program.eraseEntry handle entry).nextHandle ≠ handle := by
  let relisted := program.modifyHandles entry.function entry.block (·.filter (· != handle))
  have hrelisted : relisted.placed? handle = some entry := hplaced
  have hslot := slots_release hrelisted handle.slot
  -- the emptied slot heads the free list
  have hnext : (program.eraseEntry handle entry).nextHandle =
      ⟨handle.slot, (handle.generation + 1) % Slot.generationLimit⟩ := by
    show (relisted.release handle).2.nextHandle = _
    rw [nextHandle, free_release hrelisted]
    simp [hslot]
  rw [hnext]
  intro hsame
  exact succ_mod_generationLimit_ne handle.generation (congrArg Handle.generation hsame)

/-! ### Edits

Replacing uses changes operands alone, so only the erased and the inserted handle count.
-/

section Edits

variable (consistent : program.Consistent) (hplaced : program.placed? handle = some entry)
include consistent hplaced

theorem functionOf?_eraseEntry_rewrite (change : Operand → Operand) :
    ((program.rewriteFunction entry.function change).eraseEntry handle
      (entry.rewrite entry.function change)).functionOf? =
        Function.update program.functionOf? handle none := by
  rw [functionOf?_eraseEntry (placed?_rewriteFunction_of_placed? consistent hplaced _ _),
    functionOf?_rewriteFunction consistent]

theorem functionOf?_substituteEntry (new : Instruction) (value : Operand) :
    (program.substituteEntry handle entry new value).functionOf? =
      Function.update (Function.update program.functionOf? program.nextHandle (some entry.function))
        handle none := by
  have hfree := consistent.toFreeListExact
  have hinserted := @functionOf?_insertEntry program ⟨new, entry.function, entry.block⟩ hfree
    (ahead handle)
  unfold substituteEntry
  rw [functionOf?_eraseEntry (placed?_rewriteFunction_insertAhead consistent hplaced new value),
    functionOf?_rewriteFunction (consistent.insertAhead hplaced new), hinserted]

/-- An instruction gives way to another one of its function. -/
theorem altersOnly_substituteEntry (new : Instruction) (value : Operand) :
    program.AltersOnly (program.substituteEntry handle entry new value) entry.function := by
  have hinserted := @altersOnly_insertEntry program ⟨new, entry.function, entry.block⟩
    consistent.toFreeListExact (ahead handle)
  have hstill := placed?_rewriteFunction_insertAhead consistent hplaced new value
  have hsame := functionOf?_rewriteFunction (consistent.insertAhead hplaced new) entry.function
    (replacing handle value)
  have herased := altersOnly_eraseEntry hstill
  rw [Placed.function_rewrite] at herased
  refine hinserted.trans (AltersOnly.trans (fun _ _ _ => ?_) herased)
  rw [hsame]

theorem altersOnly_eraseEntry_rewrite (change : Operand → Operand) :
    program.AltersOnly ((program.rewriteFunction entry.function change).eraseEntry handle
      (entry.rewrite entry.function change)) entry.function := by
  refine .of_update (functionOf?_eraseEntry_rewrite consistent hplaced change) ?_ (by simp)
  rw [functionOf?_of_placed? hplaced]
  simp

end Edits

end ConcurrencyFaults.Program

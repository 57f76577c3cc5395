import ConcurrencyFaults.Proofs.Arena.Layout

/-!
# Answers to questions about a program

On a consistent program a question about a live handle is answered and every question about a stale
one is refused as such.  The number of uses of a result is read off the instructions of one
function, reader by reader (`usesAt`), which is the form in which rewriting them is followed.

A query may only be refused in the middle if one of the handles that it goes through is stale.  So
the lemmas on uses come in two forms: for a list of handles that are live (`useCount_of_live`), and
for a consistent program, where all that a function lists is (`useCount_of_placed?`).
-/

namespace ConcurrencyFaults.Program

variable {program : Program} {handle : Handle} {entry : Placed}

/-! ## Stale handles -/

section Stale

variable (hstale : program.placed? handle = none)
include hstale

theorem placed_of_stale : program.placed handle = .error (.staleHandle handle) := by
  simp [placed, hstale]

theorem instruction_of_stale : program.instruction handle = .error (.staleHandle handle) := by
  simp [instruction, placed_of_stale hstale, Except.map]

theorem parent_of_stale : program.parent handle = .error (.staleHandle handle) := by
  simp [parent, placed_of_stale hstale, Except.map]

theorem readers_of_stale : program.readers handle = .error (.staleHandle handle) := by
  simp [readers, parent_of_stale hstale, bind, Except.bind]

theorem useCount_of_stale : program.useCount handle = .error (.staleHandle handle) := by
  simp [useCount, readers_of_stale hstale, Except.map]

theorem users_of_stale : program.users handle = .error (.staleHandle handle) := by
  simp [users, readers_of_stale hstale, Except.map]

theorem position_of_stale : program.position handle = .error (.staleHandle handle) := by
  simp [position, parent_of_stale hstale, bind, Except.bind]

theorem step_of_stale (steps : Int) : program.step handle steps = .error (.staleHandle handle) := by
  simp [step, parent_of_stale hstale, bind, Except.bind]

end Stale

/-! ## Live handles -/

section Live

variable (hplaced : program.placed? handle = some entry)
include hplaced

theorem placed_of_placed? : program.placed handle = .ok entry := by
  simp [placed, hplaced]

theorem instruction_of_placed? : program.instruction handle = .ok entry.instruction := by
  simp [instruction, placed_of_placed? hplaced, Except.map]

theorem instruction?_of_placed? : program.instruction? handle = some entry.instruction := by
  simp [instruction?, hplaced]

theorem parent_of_placed? : program.parent handle = .ok (entry.function, entry.block) := by
  simp [parent, placed_of_placed? hplaced, Except.map]

end Live

theorem function_of_function? {id : FunctionId} {function : Function}
    (hfunction : program.function? id = some function) : program.function id = .ok function := by
  simp [Program.function, hfunction]

theorem placed_eq_ok_iff :
    program.placed handle = .ok entry ↔ program.placed? handle = some entry := by
  unfold placed
  cases program.placed? handle <;> simp

theorem function_eq_ok_iff {id : FunctionId} {function : Function} :
    program.function id = .ok function ↔ program.function? id = some function := by
  unfold Program.function
  cases program.function? id <;> simp

theorem function_of_unknown {id : FunctionId} (hunknown : program.function? id = none) :
    program.function id = .error (.unknownFunction id) := by
  simp [Program.function, hunknown]

theorem handlesOf_of_function? {id : FunctionId} {function : Function}
    (hfunction : program.function? id = some function) :
    program.handlesOf id = .ok function.handles := by
  simp [handlesOf, function_of_function? hfunction, Except.map]

/-! ## Uses

The uses of a result are looked for in the function of the instruction alone.  Edits rely on
`useCount_eq_zero_iff`: an unused result is read by no live instruction of its function. -/

/-- How often some instructions read the result of `handle`. -/
def usesAt (program : Program) (readers : List Handle) (handle : Handle) : Nat :=
  (readers.flatMap fun reader => ((program.instruction? reader).map fun instruction =>
    instruction.operation.operands).getD []).countP (·.uses handle)

theorem usesAt_cons {reader : Handle} (hplaced : program.placed? reader = some entry)
    (rest : List Handle) (handle : Handle) :
    program.usesAt (reader :: rest) handle =
      entry.instruction.operation.useCount handle + program.usesAt rest handle := by
  unfold usesAt
  rw [List.flatMap_cons, List.countP_append, instruction?_of_placed? hplaced]
  rfl

/-- Some instructions do not read a result if none of them does. -/
theorem usesAt_eq_zero_iff {readers : List Handle} :
    program.usesAt readers handle = 0 ↔ ∀ reader ∈ readers, ∀ entry,
      program.placed? reader = some entry → entry.instruction.operation.useCount handle = 0 := by
  unfold usesAt Operation.useCount
  simp only [List.countP_eq_zero, List.mem_flatMap]
  constructor
  · intro hzero reader hreader entry hplaced operand hoperand
    exact hzero operand ⟨reader, hreader, by simpa [instruction?_of_placed? hplaced] using hoperand⟩
  · -- a stale reader has no operands, so it is enough to look at the live ones
    rintro hzero operand ⟨reader, hreader, hoperand⟩
    cases hplaced : program.placed? reader with
    | none => simp [instruction?, hplaced] at hoperand
    | some entry =>
        rw [instruction?_of_placed? hplaced] at hoperand
        exact hzero reader hreader entry hplaced operand hoperand

/-- While the handles of a list are live, their instructions can be read one after another. -/
theorem mapM_instruction {readers : List Handle}
    (hlive : ∀ reader ∈ readers, ∃ entry, program.placed? reader = some entry) :
    ∃ found : List (Handle × Instruction),
      readers.mapM (fun reader => return (reader, ← program.instruction reader)) =
        (.ok found : Except EditError _) ∧
      ∀ handle, (found.flatMap fun reader => reader.2.operation.operands).countP (·.uses handle) =
        program.usesAt readers handle := by
  induction readers with
  | nil => exact ⟨[], rfl, fun _ => rfl⟩
  | cons reader rest ih =>
      obtain ⟨entry, hplaced⟩ := hlive reader (List.mem_cons_self ..)
      obtain ⟨found, hfound, hcount⟩ := ih fun later hlater =>
        hlive later (List.mem_cons_of_mem _ hlater)
      refine ⟨(reader, entry.instruction) :: found, ?_, fun handle => ?_⟩
      · rw [List.mapM_cons, instruction_of_placed? hplaced, hfound]
        rfl
      · rw [List.flatMap_cons, List.countP_append, hcount, usesAt_cons hplaced]
        rfl

/-- While all that a function lists is live, the readers of a result in it are counted. -/
theorem useCount_of_live (hplaced : program.placed? handle = some entry) {function : Function}
    (hfunction : program.function? entry.function = some function)
    (hlive : ∀ reader ∈ function.handles, ∃ entry, program.placed? reader = some entry) :
    program.useCount handle = .ok (program.usesAt function.handles handle) := by
  obtain ⟨found, hfound, hcount⟩ := mapM_instruction hlive
  unfold useCount readers
  rw [parent_of_placed? hplaced]
  simp only [bind, Except.bind, handlesOf_of_function? hfunction]
  simp only [bind, Except.bind] at hfound
  rw [hfound]
  exact congrArg Except.ok (hcount handle)

variable (consistent : program.Consistent)
include consistent

theorem live_of_mem_function {id : FunctionId} {function : Function}
    (hfunction : program.function? id = some function) :
    ∀ reader ∈ function.handles, ∃ entry, program.placed? reader = some entry := by
  intro reader hreader
  obtain ⟨entry, hlive, -⟩ := consistent.placed_of_mem_function hfunction hreader
  exact ⟨entry, hlive⟩

/-- The readers of a result are counted in the function that holds it. -/
theorem useCount_of_placed? (hplaced : program.placed? handle = some entry) {function : Function}
    (hfunction : program.function? entry.function = some function) :
    program.useCount handle = .ok (program.usesAt function.handles handle) :=
  useCount_of_live hplaced hfunction (live_of_mem_function consistent hfunction)

/-- A result is unused exactly if no instruction of its function reads it. -/
theorem useCount_eq_zero_iff (hplaced : program.placed? handle = some entry) :
    program.useCount handle = .ok 0 ↔
      ∀ reader found, program.placed? reader = some found → found.function = entry.function →
        found.instruction.operation.useCount handle = 0 := by
  obtain ⟨function, hfunction, -⟩ := consistent.function_of_placed hplaced
  rw [useCount_of_placed? consistent hplaced hfunction, Except.ok.injEq, usesAt_eq_zero_iff]
  constructor
  · intro hzero reader found hfound hsame
    have hreader := (consistent.mem_function_iff hfunction).mpr ⟨found, hfound, hsame⟩
    exact hzero reader hreader found hfound
  · intro hzero reader hreader found hfound
    obtain ⟨other, hother, hsame⟩ := consistent.placed_of_mem_function hfunction hreader
    obtain rfl : found = other := Option.some.inj (hfound.symm.trans hother)
    exact hzero reader found hfound hsame

theorem exists_useCount (hplaced : program.placed? handle = some entry) :
    ∃ uses, program.useCount handle = .ok uses := by
  obtain ⟨function, hfunction, -⟩ := consistent.function_of_placed hplaced
  exact ⟨_, useCount_of_placed? consistent hplaced hfunction⟩

/-! ## Positions and walks

A live instruction has a place in the list of its function, so positions, distances and walks are
answered.  A walk that would leave the function ends at one of its ends. -/

omit consistent in
/-- What a list holds has a place in it. -/
theorem exists_findIdx? {Item : Type} [DecidableEq Item] {items : List Item} {item : Item}
    (hmem : item ∈ items) : ∃ index, items.findIdx? (· == item) = some index := by
  rw [← Option.isSome_iff_exists, List.findIdx?_isSome]
  exact List.any_eq_true.mpr ⟨item, hmem, by simp⟩

theorem exists_position (hplaced : program.placed? handle = some entry) :
    ∃ index, program.position handle = .ok index := by
  obtain ⟨function, hfunction, hmem⟩ := consistent.function_of_placed hplaced
  obtain ⟨index, hindex⟩ := exists_findIdx? hmem
  refine ⟨index, ?_⟩
  simp [position, parent_of_placed? hplaced, handlesOf_of_function? hfunction, hindex, bind,
    Except.bind, pure, Except.pure]

/-- Two instructions of one function have a distance. -/
theorem exists_distance {other : Handle} {otherEntry : Placed}
    (hplaced : program.placed? handle = some entry)
    (hother : program.placed? other = some otherEntry)
    (hfunction : entry.function = otherEntry.function) :
    ∃ steps, program.distance handle other = .ok steps := by
  obtain ⟨first, hfirst⟩ := exists_position consistent hplaced
  obtain ⟨second, hsecond⟩ := exists_position consistent hother
  refine ⟨max first second - min first second, ?_⟩
  simp [distance, parent_of_placed? hplaced, parent_of_placed? hother, hfunction, hfirst, hsecond,
    bind, Except.bind, pure, Except.pure]

/-- A walk from a live instruction ends at a live instruction of the same function. -/
theorem exists_step (hplaced : program.placed? handle = some entry) (steps : Int) :
    ∃ step target, program.step handle steps = .ok step ∧
      program.placed? step.target = some target ∧ target.function = entry.function := by
  obtain ⟨function, hfunction, hmem⟩ := consistent.function_of_placed hplaced
  obtain ⟨index, hindex⟩ := exists_findIdx? hmem
  -- wherever the walk ends, it ends at something that the function lists
  have htarget : ∀ reached, function.handles.getD reached handle ∈ function.handles := by
    intro reached
    rcases Nat.lt_or_ge reached function.handles.length with hlt | hge
    · simp [List.getD_eq_getElem?_getD, hlt]
    · simpa [List.getD_eq_getElem?_getD, hge] using hmem
  have hstep : ∃ step, program.step handle steps = .ok step ∧ step.target ∈ function.handles := by
    unfold step
    simp only [parent_of_placed? hplaced, handlesOf_of_function? hfunction, hindex, bind,
      Except.bind, pure, Except.pure]
    exact ⟨_, rfl, htarget _⟩
  obtain ⟨step, hstep, hreached⟩ := hstep
  obtain ⟨target, hlive, hsame⟩ := consistent.placed_of_mem_function hfunction hreached
  exact ⟨step, target, hstep, hlive, hsame⟩

end ConcurrencyFaults.Program

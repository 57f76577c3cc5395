import ConcurrencyFaults.Proofs.Operators.Accesses
import ConcurrencyFaults.Proofs.Search

/-!
# Programs with other operations in the same places

Writing other operations over some of the instructions moves nothing: functions, blocks, handles,
names and locations stay (`Program.retouch`).  Two such changes come to one, so they can be taken
in either order exactly if they agree on what each live instruction becomes.

What a search finds in the new program is read off the operations.  Accesses are told by their
operation alone, and calls by the operation and the symbol that it names.

## Strategy

* An edit that overwrites one instruction is the `retouch` that leaves all other operations alone
  (`modifyInstruction_eq_retouch`), so a run that overwrites is one `retouch` in the end
  (`retouch_retouch`).
* Equality of two such programs is equality of their storage, slot by slot (`retouch_congr`).  Empty
  slots do not matter, so only what becomes of live instructions is compared.
* Searches go through the handles in the same order before and after, and it is enough that they
  see the same at each of them (`MemorySite.collect_retouch`, `CallSearch.inProgram_retouch`).
-/

namespace ConcurrencyFaults

/-- Another operation in the same place. -/
def Placed.retouch (change : Operation → Operation) (entry : Placed) : Placed :=
  { entry with
    instruction := entry.instruction.withOperation (change entry.instruction.operation) }

namespace Program

/-- Writes another operation over every instruction, depending on its handle. -/
def retouch (program : Program) (change : Handle → Operation → Operation) : Program :=
  { program with
    slots := program.slots.mapIdx fun index slot =>
      { slot with entry := slot.entry.map (Placed.retouch (change ⟨index, slot.generation⟩)) } }

variable {program : Program} {handle : Handle} {entry : Placed}
  {change first second : Handle → Operation → Operation}

/-! ## What stays

Functions and blocks are not touched, so these lemmas are equalities of definitions. -/

@[simp] theorem functions_retouch : (program.retouch change).functions = program.functions := rfl

@[simp] theorem function?_retouch : (program.retouch change).function? = program.function? := rfl

@[simp] theorem block?_retouch : (program.retouch change).block? = program.block? := rfl

@[simp] theorem handles_retouch : (program.retouch change).handles = program.handles := rfl

theorem slots_retouch (index : Nat) :
    (program.retouch change).slots[index]? = program.slots[index]?.map fun slot =>
      { slot with
        entry := slot.entry.map (Placed.retouch (change ⟨index, slot.generation⟩)) } :=
  List.getElem?_mapIdx

/-- The same handles are live, each with the operation that was chosen for it. -/
theorem placed?_retouch (handle : Handle) :
    (program.retouch change).placed? handle =
      (program.placed? handle).map (Placed.retouch (change handle)) := by
  unfold placed?
  rw [slots_retouch]
  cases program.slots[handle.slot]? with
  | none => rfl
  | some slot =>
      by_cases hgeneration : slot.generation = handle.generation
      · obtain ⟨index, generation⟩ := handle
        obtain rfl : slot.generation = generation := hgeneration
        simp [Option.filter]
      · simp [Option.filter, hgeneration]

theorem placed?_retouch_of_placed? (hplaced : program.placed? handle = some entry) :
    (program.retouch change).placed? handle = some (entry.retouch (change handle)) := by
  rw [placed?_retouch, hplaced, Option.map_some]

theorem placed?_retouch_of_eq (hplaced : program.placed? handle = some entry)
    (hsame : change handle entry.instruction.operation = entry.instruction.operation) :
    (program.retouch change).placed? handle = program.placed? handle := by
  calc (program.retouch change).placed? handle
    _ = some (entry.retouch (change handle)) := placed?_retouch_of_placed? hplaced
    _ = some entry := by
      rw [Placed.retouch, hsame]
      rfl
    _ = program.placed? handle := hplaced.symm

theorem Consistent.retouch (consistent : program.Consistent)
    (change : Handle → Operation → Operation) : (program.retouch change).Consistent where
  free_nodup := consistent.free_nodup
  mem_free_iff := by
    intro slot
    rw [slots_retouch]
    refine consistent.mem_free_iff.trans (exists_congr fun generation => ?_)
    cases program.slots[slot]? with
    | none => simp
    | some found =>
        obtain ⟨count, content⟩ := found
        cases content <;> simp
  function_id := consistent.function_id
  block_id := consistent.block_id
  placed_of_listed := by
    intro function id block handle hblock hmem
    obtain ⟨instruction, hplaced⟩ := consistent.placed_of_listed hblock hmem
    exact ⟨_, placed?_retouch_of_placed? hplaced⟩
  handles_nodup := consistent.handles_nodup
  mem_handles_of_isLive := by
    intro handle hlive
    refine consistent.mem_handles_of_isLive ?_
    rwa [isLive, placed?_retouch, Option.isSome_map] at hlive

/-! ## One change after another

A change may look at the operation that it finds, so the second is applied to the outcome of the
first. -/

theorem retouch_retouch :
    (program.retouch first).retouch second =
      program.retouch fun handle operation => second handle (first handle operation) := by
  simp only [retouch, List.mapIdx_mapIdx, Function.comp_def, Option.map_map]
  rfl

theorem retouch_id : (program.retouch fun _ operation => operation) = program := by
  have hentry : Placed.retouch (fun operation => operation) = id := rfl
  have hslots : (program.retouch fun _ operation => operation).slots = program.slots := by
    refine List.ext_getElem? fun index => ?_
    rw [slots_retouch]
    simp [hentry]
  exact congrArg (fun slots => { program with slots }) hslots

/-- Only what becomes of live instructions counts. -/
theorem retouch_congr (hsame : ∀ handle entry, program.placed? handle = some entry →
    first handle entry.instruction.operation = second handle entry.instruction.operation) :
    program.retouch first = program.retouch second := by
  have hslots : (program.retouch first).slots = (program.retouch second).slots := by
    refine List.ext_getElem? fun index => ?_
    rw [slots_retouch, slots_retouch]
    cases hslot : program.slots[index]? with
    | none => rfl
    | some slot =>
        obtain ⟨generation, content⟩ := slot
        cases content with
        | none => rfl
        | some entry =>
            have hchange := hsame ⟨index, generation⟩ entry (placed?_eq_some_iff.mpr hslot)
            simp [Placed.retouch, hchange]
  exact congrArg (fun slots => { program with slots }) hslots

theorem retouch_eq_self (hsame : ∀ handle entry, program.placed? handle = some entry →
    change handle entry.instruction.operation = entry.instruction.operation) :
    program.retouch change = program :=
  (retouch_congr hsame).trans retouch_id

/-- Overwriting one instruction is a change that leaves the operations of all others. -/
theorem modifyInstruction_eq_retouch (hplaced : program.placed? handle = some entry)
    (operation : Operation) :
    program.modifyInstruction handle (·.withOperation operation) =
      program.retouch (Function.update (fun _ old => old) handle fun _ => operation) := by
  have hslots : (program.modifyInstruction handle (·.withOperation operation)).slots =
      (program.retouch (Function.update (fun _ old => old) handle fun _ => operation)).slots := by
    refine List.ext_getElem? fun index => ?_
    rw [slots_modifyInstruction hplaced, slots_retouch]
    by_cases hindex : index = handle.slot
    · rw [if_pos hindex, hindex, placed?_eq_some_iff.mp hplaced]
      simp [Placed.retouch]
    · -- a handle of another slot is another handle
      rw [if_neg hindex]
      cases program.slots[index]? with
      | none => rfl
      | some slot =>
          have hne : (⟨index, slot.generation⟩ : Handle) ≠ handle := fun heq =>
            hindex (congrArg Handle.slot heq)
          obtain ⟨generation, content⟩ := slot
          cases content with
          | none => rfl
          | some entry =>
              simp only [Option.map_some, Function.update_of_ne hne]
              rfl
  simp only [modifyInstruction, isLive, hplaced, Option.isSome_some, if_true, retouch] at hslots ⊢
  rw [hslots]

/-! ## What searches find

Searches look at operations, and at functions for the names of their targets. -/

theorem instruction?_retouch (handle : Handle) :
    (program.retouch change).instruction? handle = (program.instruction? handle).map
      fun instruction => instruction.withOperation (change handle instruction.operation) := by
  unfold instruction?
  rw [placed?_retouch, Option.map_map, Option.map_map]
  rfl

theorem instructions_retouch :
    (program.retouch change).instructions = program.instructions.map
      fun (function, handle, instruction) =>
        (function, handle, instruction.withOperation (change handle instruction.operation)) := by
  unfold instructions instructionsIn
  rw [functions_retouch, List.map_flatMap]
  refine List.flatMap_congr fun function _ => ?_
  rw [List.map_map, List.map_filterMap, List.map_filterMap]
  refine List.filterMap_congr fun handle _ => ?_
  rw [instruction?_retouch]
  cases program.instruction? handle <;> rfl

/-- A change that keeps direct callees calls functions that exist. -/
theorem CalleesExist.retouch (calleesExist : program.CalleesExist)
    (hcallees : ∀ handle entry, program.placed? handle = some entry →
      (change handle entry.instruction.operation).directCallee? =
        entry.instruction.operation.directCallee?) : (program.retouch change).CalleesExist := by
  intro handle entry target hplaced hcallee
  rw [placed?_retouch, Option.map_eq_some_iff] at hplaced
  obtain ⟨found, hfound, rfl⟩ := hplaced
  exact calleesExist handle found target hfound ((hcallees handle found hfound).symm.trans hcallee)

end Program

open Program

variable {program : Program} {change : Handle → Operation → Operation}

/-- Accesses are found where they were if each operation is of the kind that it was. -/
theorem MemorySite.collect_retouch {select after : Operation → Option MemoryKind}
    (consistent : program.Consistent)
    (hselect : ∀ handle entry, program.placed? handle = some entry →
      after (change handle entry.instruction.operation) = select entry.instruction.operation) :
    collect (program.retouch change) after = collect program select := by
  unfold collect
  rw [instructions_retouch, List.filterMap_map]
  refine List.filterMap_congr fun visited hvisited => ?_
  obtain ⟨function, handle, instruction⟩ := visited
  obtain ⟨entry, hplaced, -, rfl⟩ := MemorySite.placed?_of_mem_instructions consistent hvisited
  have hkind := hselect handle entry hplaced
  simp only [Function.comp_apply, Instruction.withOperation, hkind]

namespace CallSearch

variable {search : CallSearch}

theorem seen_congr {other : Program} {handle : Handle}
    (hplaced : program.placed? handle = other.placed? handle)
    (hfunctions : program.functions = other.functions) :
    search.seen program handle = search.seen other handle := by
  have hfunction := function?_congr hfunctions
  simp only [seen, siteAt, CallSite.capture, instruction, placed, function, hplaced, hfunction]

/-- Calls are found where they were if the search sees the same at every live handle. -/
theorem inProgram_retouch (consistent : program.Consistent) (calleesExist : program.CalleesExist)
    (hafter : (program.retouch change).CalleesExist)
    (hseen : ∀ handle entry, program.placed? handle = some entry →
      search.seen (program.retouch change) handle = search.seen program handle) :
    search.inProgram (program.retouch change) = search.inProgram program := by
  have hlisted : ∀ handle ∈ program.handles,
      search.seen (program.retouch change) handle = search.seen program handle := by
    intro handle hmem
    obtain ⟨entry, hplaced⟩ := consistent.mem_handles_iff_placed?.mp hmem
    exact hseen handle entry hplaced
  calc search.inProgram (program.retouch change)
      = .ok (.ofSites (program.handles.filterMap (search.seen (program.retouch change)))) := by
        rw [search.inProgram_eq (consistent.retouch change) hafter, handles_retouch]
    _ = .ok (.ofSites (program.handles.filterMap (search.seen program))) := by
        rw [List.filterMap_congr hlisted]
    _ = search.inProgram program := (search.inProgram_eq consistent calleesExist).symm

end CallSearch

end ConcurrencyFaults

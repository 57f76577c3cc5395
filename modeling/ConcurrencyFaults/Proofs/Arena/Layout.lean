import ConcurrencyFaults.Proofs.Arena.Invariant
import ConcurrencyFaults.Proofs.Operands

/-!
# The ways to change a consistent program

Every edit of instructions is made of three changes: an instruction is stored and listed in a block
(`insertEntry`), an instruction is taken off its block's list and released (`eraseEntry`), or the
operands of all instructions of a function are rewritten (`rewriteFunction`).  Besides, functions
and blocks are appended (`addFunction`, `appendBlock`).  This file defines these changes without the
questions and refusals that surround them in an edit, says what each does to `placed?` and `block?`,
and proves that each keeps `Consistent`.

## Strategy

Each invariant is shown block by block (`Consistent.of_blocks`), and a block is compared with the
block that stood in its place: `block?_modifyHandles` says that relisting changes one block, and
`placed?_insertEntry`, `placed?_eraseEntry` and `placed?_rewriteFunction` say which handles are
answered anew.  What is left is a case distinction on two questions, whether the block is the one
that was relisted and whether the handle is the one that was put in or taken out.  A change of the
lists has to respect the order of handles nowhere: `insertEntry` takes any function that adds the
new handle somewhere, and the invariant asks for a permutation.
-/

namespace ConcurrencyFaults

/-- The instruction with its operands rewritten, if it stands in the given function. -/
def Placed.rewrite (function : FunctionId) (change : Operand → Operand) (entry : Placed) : Placed :=
  if entry.function = function then
    { entry with
      instruction :=
        entry.instruction.withOperation (entry.instruction.operation.mapOperands change) }
  else entry

@[simp] theorem Placed.function_rewrite (function : FunctionId) (change : Operand → Operand)
    (entry : Placed) : (entry.rewrite function change).function = entry.function := by
  unfold Placed.rewrite
  split <;> rfl

@[simp] theorem Placed.block_rewrite (function : FunctionId) (change : Operand → Operand)
    (entry : Placed) : (entry.rewrite function change).block = entry.block := by
  unfold Placed.rewrite
  split <;> rfl

@[simp] theorem Placed.shape_rewrite (function : FunctionId) (change : Operand → Operand)
    (entry : Placed) :
    (entry.rewrite function change).instruction.operation.shape =
      entry.instruction.operation.shape := by
  unfold Placed.rewrite
  split
  · exact Operation.shape_mapOperands change entry.instruction.operation
  · rfl

namespace Program

variable {program : Program} {handle : Handle} {entry : Placed}

/-! ## Relisting a block

Functions and blocks keep their identifiers when a block is relisted, and the slots do not change at
all. -/

theorem function?_modifyHandles (function : FunctionId) (block : BlockId)
    (change : List Handle → List Handle) (id : FunctionId) :
    (program.modifyHandles function block change).function? id =
      (program.function? id).map fun found =>
        if function = id then
          found.modifyBlock block fun block => { block with handles := change block.handles }
        else found := by
  simp [modifyHandles, modifyFunction, function?, List.getElem?_modify]

theorem block?_modifyHandles (function : FunctionId) (block : BlockId)
    (change : List Handle → List Handle) (id : FunctionId) (index : BlockId) :
    (program.modifyHandles function block change).block? id index =
      (program.block? id index).map fun found =>
        if function = id ∧ block = index then { found with handles := change found.handles }
        else found := by
  unfold block?
  rw [function?_modifyHandles]
  cases program.function? id with
  | none => rfl
  | some found =>
      by_cases hfunction : function = id
      · simp [hfunction, Function.modifyBlock, List.getElem?_modify]
      · simp [hfunction]

theorem block?_modifyHandles_self {function : FunctionId} {index : BlockId} {block : Block}
    (hblock : program.block? function index = some block) (change : List Handle → List Handle) :
    (program.modifyHandles function index change).block? function index =
      some { block with handles := change block.handles } := by
  simp [block?_modifyHandles, hblock]

theorem block?_modifyHandles_of_ne {function id : FunctionId} {block index : BlockId}
    (hne : ¬ (function = id ∧ block = index)) (change : List Handle → List Handle) :
    (program.modifyHandles function block change).block? id index = program.block? id index := by
  simp [block?_modifyHandles, hne]

private theorem modify_congr {Item : Type} {items : List Item} {index : Nat}
    {first second : Item → Item} (hchange : ∀ item, items[index]? = some item →
      first item = second item) : items.modify index first = items.modify index second := by
  refine List.ext_getElem? fun place => ?_
  rw [List.getElem?_modify, List.getElem?_modify]
  by_cases hplace : index = place
  · subst hplace
    cases hitem : items[index]? with
    | none => rfl
    | some item => simp [hchange item hitem]
  · simp [hplace]

theorem modifyHandles_congr {function : FunctionId} {index : BlockId} {block : Block}
    (hblock : program.block? function index = some block)
    {first second : List Handle → List Handle}
    (hchange : first block.handles = second block.handles) :
    program.modifyHandles function index first = program.modifyHandles function index second := by
  obtain ⟨found, hfunction, hindex⟩ := block?_eq_some_iff.mp hblock
  unfold modifyHandles modifyFunction Function.modifyBlock
  congr 1
  refine modify_congr fun item hitem => ?_
  obtain rfl : found = item := Option.some.inj (hfunction.symm.trans hitem)
  congr 1
  refine modify_congr fun item hitem => ?_
  obtain rfl : block = item := Option.some.inj (hindex.symm.trans hitem)
  rw [hchange]

/-- What a program lists depends on its functions alone. -/
theorem block?_congr {other : Program} (hfunctions : program.functions = other.functions) :
    program.block? = other.block? := by
  funext function index
  simp [block?, function?, hfunctions]

theorem function?_congr {other : Program} (hfunctions : program.functions = other.functions) :
    program.function? = other.function? := by
  funext id
  simp [function?, hfunctions]

theorem FreeListExact.modifyHandles (hfree : program.FreeListExact) (function : FunctionId)
    (block : BlockId) (change : List Handle → List Handle) :
    (program.modifyHandles function block change).FreeListExact :=
  ⟨hfree.free_nodup, hfree.mem_free_iff⟩

private theorem ids_modifyHandles (consistent : program.Consistent) {after : Program}
    {function : FunctionId} {block : BlockId} {change : List Handle → List Handle}
    (hfunctions : after.functions = (program.modifyHandles function block change).functions) :
    (∀ {id found}, after.function? id = some found → found.id = id) ∧
      ∀ {id index found}, after.block? id index = some found → found.id = index := by
  constructor
  · intro id found hfound
    rw [function?_congr hfunctions, function?_modifyHandles, Option.map_eq_some_iff] at hfound
    obtain ⟨old, hold, rfl⟩ := hfound
    have hid := consistent.function_id hold
    split
    · exact hid
    · exact hid
  · intro id index found hfound
    rw [block?_congr hfunctions, block?_modifyHandles, Option.map_eq_some_iff] at hfound
    obtain ⟨old, hold, rfl⟩ := hfound
    have hid := consistent.block_id hold
    split
    · exact hid
    · exact hid

/-! ## New functions and blocks

A new function has no blocks and a new block lists nothing, so no handle is concerned.  What has to
be shown is that no instruction named the new block before. -/

theorem function?_addFunction (name : String) (result : Ty) (parameters : List Ty)
    (id : FunctionId) :
    (program.addFunction name result parameters).2.function? id =
      if id = program.functions.length then
        some { id := program.functions.length, name, result, parameters }
      else program.function? id := by
  unfold addFunction function?
  rcases Nat.lt_trichotomy id program.functions.length with hlt | rfl | hgt
  · rw [if_neg (Nat.ne_of_lt hlt), List.getElem?_append_left hlt]
  · simp
  · rw [if_neg (Nat.ne_of_gt hgt), List.getElem?_eq_none (Nat.le_of_lt hgt),
      List.getElem?_eq_none]
    simpa using Nat.succ_le_of_lt hgt

theorem block?_addFunction (name : String) (result : Ty) (parameters : List Ty) :
    (program.addFunction name result parameters).2.block? = program.block? := by
  funext id index
  unfold block?
  rw [function?_addFunction]
  split
  · rename_i hid
    have hnone : program.function? id = none := by simp [function?, hid]
    simp [hnone]
  · rfl

theorem Consistent.addFunction (consistent : program.Consistent) (name : String) (result : Ty)
    (parameters : List Ty) : (program.addFunction name result parameters).2.Consistent := by
  have hblocks := @block?_addFunction program name result parameters
  refine Consistent.of_blocks ⟨consistent.free_nodup, consistent.mem_free_iff⟩ ?_ ?_ ?_ ?_ ?_
  · intro id function hfunction
    rw [function?_addFunction] at hfunction
    split at hfunction
    · rename_i hid
      rw [← Option.some.inj hfunction, hid]
    · exact consistent.function_id hfunction
  · rw [hblocks]
    exact consistent.block_id
  · rw [hblocks]
    exact consistent.nodup_block
  · rw [hblocks]
    exact consistent.mem_block_iff
  · rw [hblocks]
    exact consistent.block_of_placed

/-- A declaration adds a function, unless there is one of this name. -/
theorem getOrDeclare_cases (program : Program) (name : String) (result : Ty)
    (parameters : List Ty) :
    (program.getOrDeclare name result parameters).2 = program ∨
      (program.getOrDeclare name result parameters).2 =
        (program.addFunction name result parameters).2 := by
  unfold getOrDeclare
  split
  · exact Or.inl rfl
  · exact Or.inr rfl

@[simp] theorem placed?_getOrDeclare (program : Program) (name : String) (result : Ty)
    (parameters : List Ty) :
    (program.getOrDeclare name result parameters).2.placed? = program.placed? := by
  rcases program.getOrDeclare_cases name result parameters with hsame | hadded
  · rw [hsame]
  · rw [hadded]
    rfl

theorem Consistent.getOrDeclare (consistent : program.Consistent) (name : String) (result : Ty)
    (parameters : List Ty) : (program.getOrDeclare name result parameters).2.Consistent := by
  rcases program.getOrDeclare_cases name result parameters with hsame | hadded
  · rwa [hsame]
  · rw [hadded]
    exact consistent.addFunction name result parameters

/-- Appends an empty block to a function that has `count` blocks. -/
def appendBlock (program : Program) (function : FunctionId) (count : Nat) (label : String) :
    Program :=
  program.modifyFunction function fun old =>
    { old with blocks := old.blocks ++ [{ id := count, label }] }

theorem function?_appendBlock (function : FunctionId) (count : Nat) (label : String)
    (id : FunctionId) :
    (program.appendBlock function count label).function? id =
      (program.function? id).map fun found =>
        if function = id then { found with blocks := found.blocks ++ [{ id := count, label }] }
        else found := by
  simp [appendBlock, modifyFunction, function?, List.getElem?_modify]

theorem block?_appendBlock {function : FunctionId} {found : Function}
    (hfunction : program.function? function = some found) (label : String) (id : FunctionId)
    (index : BlockId) :
    (program.appendBlock function found.blocks.length label).block? id index =
      if id = function ∧ index = found.blocks.length then
        some { id := found.blocks.length, label }
      else program.block? id index := by
  unfold block?
  rw [function?_appendBlock]
  by_cases hid : id = function
  · subst hid
    rw [hfunction]
    rcases Nat.lt_trichotomy index found.blocks.length with hlt | rfl | hgt
    · simp [Nat.ne_of_lt hlt, List.getElem?_append_left hlt]
    · simp
    · have hlength : ([{ id := found.blocks.length, label }] : List Block).length ≤
          index - found.blocks.length := by
        rw [List.length_singleton]
        omega
      simp [Nat.ne_of_gt hgt, List.getElem?_append_right (Nat.le_of_lt hgt),
        List.getElem?_eq_none hlength, List.getElem?_eq_none (Nat.le_of_lt hgt)]
  · cases hother : program.function? id with
    | none => simp [hid]
    | some other => simp [hid, Ne.symm hid]

theorem Consistent.appendBlock (consistent : program.Consistent) {function : FunctionId}
    {found : Function} (hfunction : program.function? function = some found) (label : String) :
    (program.appendBlock function found.blocks.length label).Consistent := by
  have hblocks := block?_appendBlock hfunction label
  refine Consistent.of_blocks ⟨consistent.free_nodup, consistent.mem_free_iff⟩ ?_ ?_ ?_ ?_ ?_
  · intro id other hother
    rw [function?_appendBlock, Option.map_eq_some_iff] at hother
    obtain ⟨old, hold, rfl⟩ := hother
    have hid := consistent.function_id hold
    split
    · exact hid
    · exact hid
  · intro id index block hblock
    rw [hblocks] at hblock
    split at hblock
    · rename_i hnew
      rw [← Option.some.inj hblock, hnew.2]
    · exact consistent.block_id hblock
  · intro id index block hblock
    rw [hblocks] at hblock
    split at hblock
    · rw [← Option.some.inj hblock]
      exact List.nodup_nil
    · exact consistent.nodup_block hblock
  · intro id index block hblock handle
    rw [hblocks] at hblock
    split at hblock
    · -- no instruction named the new block before there was such a block
      rename_i hnew
      obtain ⟨rfl, rfl⟩ := hnew
      rw [← Option.some.inj hblock]
      refine ⟨fun hmem => absurd hmem List.not_mem_nil, ?_⟩
      rintro ⟨instruction, hplaced⟩
      have hexists := consistent.block_of_placed hplaced
      simp [block?, hfunction] at hexists
    · exact consistent.mem_block_iff hblock handle
  · intro handle entry hplaced
    rw [hblocks]
    split
    · rfl
    · exact consistent.block_of_placed hplaced

/-! ## Inserting

The next handle is stale, so no block lists it yet (`hfresh`): the block of the new instruction gets
it once, and all others go without. -/

/-- Stores an instruction under the next handle and lists it in its block. -/
def insertEntry (program : Program) (entry : Placed) (place : Handle → List Handle → List Handle) :
    Program :=
  (program.store entry).2.modifyHandles entry.function entry.block (place program.nextHandle)

theorem placed?_insertEntry (hfree : program.FreeListExact)
    (place : Handle → List Handle → List Handle) :
    (program.insertEntry entry place).placed? =
      Function.update program.placed? program.nextHandle (some entry) :=
  placed?_store hfree

theorem placed?_insertEntry_of_placed? (hfree : program.FreeListExact)
    (hplaced : program.placed? handle = some entry) (inserted : Placed)
    (place : Handle → List Handle → List Handle) :
    (program.insertEntry inserted place).placed? handle = some entry := by
  rw [placed?_insertEntry hfree, Function.update_of_ne (ne_nextHandle hfree hplaced), hplaced]

theorem functions_insertEntry (place : Handle → List Handle → List Handle) :
    (program.insertEntry entry place).functions =
      (program.modifyHandles entry.function entry.block (place program.nextHandle)).functions := by
  simp [insertEntry, modifyHandles, modifyFunction]

theorem Consistent.insertEntry (consistent : program.Consistent) {block : Block}
    (hblock : program.block? entry.function entry.block = some block)
    {place : Handle → List Handle → List Handle}
    (hplace : (place program.nextHandle block.handles).Perm (program.nextHandle :: block.handles)) :
    (program.insertEntry entry place).Consistent := by
  have hfree := consistent.toFreeListExact
  have hplaced := @placed?_insertEntry program entry hfree place
  have hfunctions := @functions_insertEntry program entry place
  have hids := ids_modifyHandles consistent hfunctions
  have hblocks := block?_congr hfunctions
  have hfresh : ∀ {function index block}, program.block? function index = some block →
      program.nextHandle ∉ block.handles := by
    intro function index block hfound hmem
    obtain ⟨instruction, hlive⟩ := consistent.placed_of_listed hfound hmem
    exact ne_nextHandle hfree hlive rfl
  refine Consistent.of_blocks ((hfree.store entry).modifyHandles _ _ _) hids.1 hids.2 ?_ ?_ ?_
  · intro function index found hfound
    rw [hblocks, block?_modifyHandles, Option.map_eq_some_iff] at hfound
    obtain ⟨old, hold, rfl⟩ := hfound
    by_cases hhere : entry.function = function ∧ entry.block = index
    · obtain ⟨rfl, rfl⟩ := hhere
      obtain rfl : block = old := Option.some.inj (hblock.symm.trans hold)
      simp only [and_self, if_true, hplace.nodup_iff, List.nodup_cons]
      exact ⟨hfresh hblock, consistent.nodup_block hblock⟩
    · rw [if_neg hhere]
      exact consistent.nodup_block hold
  · intro function index found hfound handle
    rw [hblocks, block?_modifyHandles, Option.map_eq_some_iff] at hfound
    obtain ⟨old, hold, rfl⟩ := hfound
    rw [hplaced]
    -- old handles stay where they are; the new one is in its block and in no other
    by_cases hnext : handle = program.nextHandle
    · subst hnext
      rw [Function.update_self]
      by_cases hhere : entry.function = function ∧ entry.block = index
      · obtain ⟨rfl, rfl⟩ := hhere
        obtain rfl : block = old := Option.some.inj (hblock.symm.trans hold)
        simp only [and_self, if_true, hplace.mem_iff, List.mem_cons, true_or, true_iff]
        exact ⟨entry.instruction, rfl⟩
      · rw [if_neg hhere]
        refine ⟨fun hmem => absurd hmem (hfresh hold), ?_⟩
        rintro ⟨instruction, hnew⟩
        obtain rfl := Option.some.inj hnew
        exact absurd ⟨rfl, rfl⟩ hhere
    · rw [Function.update_of_ne hnext, ← consistent.mem_block_iff hold]
      by_cases hhere : entry.function = function ∧ entry.block = index
      · obtain ⟨rfl, rfl⟩ := hhere
        obtain rfl : block = old := Option.some.inj (hblock.symm.trans hold)
        simp [hplace.mem_iff, hnext]
      · rw [if_neg hhere]
  · intro handle found hlive
    rw [hblocks, block?_modifyHandles, Option.isSome_map]
    rw [hplaced] at hlive
    by_cases hnext : handle = program.nextHandle
    · rw [hnext, Function.update_self, Option.some.injEq] at hlive
      rw [← hlive, hblock]
      rfl
    · rw [Function.update_of_ne hnext] at hlive
      exact consistent.block_of_placed hlive

/-! ## Erasing -/

/-- Takes the instruction of a handle off its block's list and releases its slot. -/
def eraseEntry (program : Program) (handle : Handle) (entry : Placed) : Program :=
  ((program.modifyHandles entry.function entry.block (·.filter (· != handle))).release handle).2

theorem placed?_eraseEntry (hplaced : program.placed? handle = some entry) :
    (program.eraseEntry handle entry).placed? = Function.update program.placed? handle none :=
  @placed?_release (program.modifyHandles entry.function entry.block _) handle entry hplaced

theorem placed?_eraseEntry_of_ne (hplaced : program.placed? handle = some entry) {other : Handle}
    (hne : other ≠ handle) :
    (program.eraseEntry handle entry).placed? other = program.placed? other := by
  rw [placed?_eraseEntry hplaced, Function.update_of_ne hne]

@[simp] theorem eraseEntry_rewrite (function : FunctionId) (change : Operand → Operand) :
    program.eraseEntry handle (entry.rewrite function change) =
      program.eraseEntry handle entry := by
  simp [eraseEntry]

theorem functions_eraseEntry :
    (program.eraseEntry handle entry).functions =
      (program.modifyHandles entry.function entry.block (·.filter (· != handle))).functions := by
  simp [eraseEntry]

theorem Consistent.eraseEntry (consistent : program.Consistent)
    (hplaced : program.placed? handle = some entry) :
    (program.eraseEntry handle entry).Consistent := by
  have hafter := placed?_eraseEntry hplaced
  have hfunctions := @functions_eraseEntry program handle entry
  have hids := ids_modifyHandles consistent hfunctions
  have hblocks := block?_congr hfunctions
  have hfree : (program.eraseEntry handle entry).FreeListExact :=
    (consistent.toFreeListExact.modifyHandles _ _ _).release hplaced
  refine Consistent.of_blocks hfree hids.1 hids.2 ?_ ?_ ?_
  · intro function index found hfound
    rw [hblocks, block?_modifyHandles, Option.map_eq_some_iff] at hfound
    obtain ⟨old, hold, rfl⟩ := hfound
    have hnodup := consistent.nodup_block hold
    split
    · exact hnodup.filter _
    · exact hnodup
  · intro function index found hfound other
    rw [hblocks, block?_modifyHandles, Option.map_eq_some_iff] at hfound
    obtain ⟨old, hold, rfl⟩ := hfound
    rw [hafter]
    -- the erased handle was listed by its own block only, and is taken off there
    by_cases hsame : other = handle
    · subst hsame
      rw [Function.update_self]
      refine ⟨fun hmem => ?_, by simp⟩
      by_cases hhere : entry.function = function ∧ entry.block = index
      · simp [hhere] at hmem
      · rw [if_neg hhere] at hmem
        obtain ⟨instruction, hlive⟩ := consistent.placed_of_listed hold hmem
        rw [hplaced, Option.some.injEq] at hlive
        exact absurd (by simp [hlive]) hhere
    · rw [Function.update_of_ne hsame, ← consistent.mem_block_iff hold]
      split
      · simp [hsame]
      · rfl
  · intro other found hlive
    rw [hblocks, block?_modifyHandles, Option.isSome_map]
    rw [hafter] at hlive
    by_cases hsame : other = handle
    · simp [hsame] at hlive
    · rw [Function.update_of_ne hsame] at hlive
      exact consistent.block_of_placed hlive

/-! ## Overwriting instructions -/

theorem Consistent.modifyInstruction (consistent : program.Consistent) (handle : Handle)
    (change : Instruction → Instruction) :
    (program.modifyInstruction handle change).Consistent := by
  cases hplaced : program.placed? handle with
  | none => rwa [modifyInstruction_of_stale hplaced]
  | some entry =>
      have hafter := placed?_modifyInstruction hplaced change
      have hfunctions : (program.modifyInstruction handle change).functions = program.functions :=
        functions_modifyInstruction change
      have hblocks := block?_congr hfunctions
      refine Consistent.of_blocks (consistent.toFreeListExact.modifyInstruction handle change)
        ?_ ?_ ?_ ?_ ?_
      · rw [function?_congr hfunctions]
        exact consistent.function_id
      · rw [hblocks]
        exact consistent.block_id
      · rw [hblocks]
        exact consistent.nodup_block
      · intro function index block hblock other
        rw [hblocks] at hblock
        rw [consistent.mem_block_iff hblock, hafter]
        by_cases hsame : other = handle
        · obtain ⟨instruction, parent, parentBlock⟩ := entry
          rw [hsame, hplaced, Function.update_self]
          simp
        · rw [Function.update_of_ne hsame]
      · intro other found hlive
        rw [hafter] at hlive
        rw [hblocks]
        by_cases hsame : other = handle
        · rw [hsame, Function.update_self, Option.some.injEq] at hlive
          subst hlive
          have hparent := consistent.block_of_placed hplaced
          exact hparent
        · rw [Function.update_of_ne hsame] at hlive
          exact consistent.block_of_placed hlive

/-! ## Rewriting a function

The rewriting goes through the instructions one by one.  An instruction that was listed twice would
be rewritten twice, so `placed?_rewriteAt` asks for a list without repetition; for the list of a
function this is part of the invariant. -/

/-- Rewrites the operands of the instructions at some handles. -/
def rewriteAt (program : Program) (change : Operand → Operand) (readers : List Handle) : Program :=
  readers.foldl
    (fun program reader => program.modifyInstruction reader fun instruction =>
      instruction.withOperation (instruction.operation.mapOperands change)) program

/-- Rewrites the operands of every instruction of a function. -/
def rewriteFunction (program : Program) (function : FunctionId) (change : Operand → Operand) :
    Program :=
  program.rewriteAt change (((program.function? function).map Function.handles).getD [])

@[simp] theorem functions_rewriteAt (change : Operand → Operand) (readers : List Handle) :
    (program.rewriteAt change readers).functions = program.functions := by
  induction readers generalizing program with
  | nil => rfl
  | cons reader rest ih =>
      simp only [rewriteAt, List.foldl_cons] at ih ⊢
      rw [ih, functions_modifyInstruction]

theorem Consistent.rewriteAt (consistent : program.Consistent) (change : Operand → Operand)
    (readers : List Handle) : (program.rewriteAt change readers).Consistent := by
  induction readers generalizing program with
  | nil => exact consistent
  | cons reader rest ih => exact ih (consistent.modifyInstruction reader _)

theorem placed?_rewriteAt (change : Operand → Operand) {readers : List Handle}
    (hnodup : readers.Nodup) (handle : Handle) :
    (program.rewriteAt change readers).placed? handle =
      (program.placed? handle).map fun entry =>
        if handle ∈ readers then entry.rewrite entry.function change else entry := by
  -- on the readers that are left, for any program: the first one is rewritten and never met again
  induction readers generalizing program with
  | nil => simp [rewriteAt]
  | cons reader rest ih =>
      rw [List.nodup_cons] at hnodup
      have hstep := @ih (program.modifyInstruction reader fun instruction =>
        instruction.withOperation (instruction.operation.mapOperands change)) hnodup.2
      rw [rewriteAt, List.foldl_cons]
      refine hstep.trans ?_
      cases hreader : program.placed? reader with
      | none =>
          rw [modifyInstruction_of_stale hreader]
          by_cases heq : handle = reader
          · simp [heq, hreader]
          · simp [heq]
      | some entry =>
          rw [placed?_modifyInstruction hreader]
          by_cases heq : handle = reader
          · subst heq
            simp [hreader, hnodup.1, Placed.rewrite]
          · simp [heq]

@[simp] theorem functions_rewriteFunction (function : FunctionId) (change : Operand → Operand) :
    (program.rewriteFunction function change).functions = program.functions :=
  functions_rewriteAt change _

theorem Consistent.rewriteFunction (consistent : program.Consistent) (function : FunctionId)
    (change : Operand → Operand) : (program.rewriteFunction function change).Consistent :=
  consistent.rewriteAt change _

theorem placed?_rewriteFunction (consistent : program.Consistent) (function : FunctionId)
    (change : Operand → Operand) (handle : Handle) :
    (program.rewriteFunction function change).placed? handle =
      (program.placed? handle).map (Placed.rewrite function change) := by
  unfold rewriteFunction
  cases hfunction : program.function? function with
  | none =>
      -- there is nothing to rewrite, and no instruction is of a function that does not exist
      cases hplaced : program.placed? handle with
      | none => simp [rewriteAt, hplaced]
      | some entry =>
          obtain ⟨found, hfound, -⟩ := consistent.function_of_placed hplaced
          have hne : entry.function ≠ function := by
            rintro rfl
            simp [hfunction] at hfound
          simp [rewriteAt, hplaced, Placed.rewrite, hne]
  | some found =>
      rw [Option.map_some, Option.getD_some,
        placed?_rewriteAt change (consistent.nodup_function hfunction)]
      cases hplaced : program.placed? handle with
      | none => rfl
      | some entry =>
          have hmem : handle ∈ found.handles ↔ entry.function = function := by
            simp [consistent.mem_function_iff hfunction, hplaced]
          by_cases heq : entry.function = function
          · simp [hmem, heq]
          · simp [hmem, heq, Placed.rewrite]

end Program

end ConcurrencyFaults

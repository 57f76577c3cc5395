import ConcurrencyFaults.Proofs.Arena.Storage
import Mathlib.Data.List.Pairwise

/-!
# Consistent programs

A program keeps three redundant records of its instructions: the slots, each with the parent of its
instruction, the lists of handles in the blocks, and the free list.  `Consistent` says that they
agree.  The whole of a program lists no handle twice exactly if each block lists none twice, once
listed handles know their block; `Consistent.of_blocks` therefore asks for the blocks alone, and is
the form in which edits re-establish the invariant.

Later modules do not take the invariant apart.  They ask for

* `listed` and `mem_block_iff`: where a live instruction stands, and what a block lists;
* `function_of_placed` and `mem_function_iff`: the same for functions;
* `mem_handles_iff_placed?` and `forall_placed_iff`: the handles of the whole program are the live
  ones, so a fact about all live instructions is decided on a finite list.
-/

namespace ConcurrencyFaults.Program

variable {program : Program} {handle : Handle} {entry : Placed}

/-- Every listed handle, in visitation order. -/
def handles (program : Program) : List Handle := program.functions.flatMap Function.handles

/-- Identifiers are places, listed handles are live with exactly the function and block that list
them, no handle is listed twice anywhere, every live handle is listed, and the free list holds
exactly the empty slots, each once. -/
structure Consistent (program : Program) : Prop extends program.FreeListExact where
  function_id : ∀ {id : FunctionId} {function : Function},
    program.function? id = some function → function.id = id
  block_id : ∀ {function : FunctionId} {id : BlockId} {block : Block},
    program.block? function id = some block → block.id = id
  placed_of_listed : ∀ {function : FunctionId} {id : BlockId} {block : Block} {handle : Handle},
    program.block? function id = some block → handle ∈ block.handles →
      ∃ instruction, program.placed? handle = some ⟨instruction, function, id⟩
  handles_nodup : program.handles.Nodup
  mem_handles_of_isLive : ∀ {handle : Handle}, program.isLive handle → handle ∈ program.handles

/-! ## Blocks

That no handle is listed twice is a statement about the whole program, and edits work on one block.
The two are told apart by the owner of a handle: lists that agree on who owns an element cannot
share one if their owners differ, once for the blocks of a function and once for the functions. -/

theorem block?_eq_some_iff {id : FunctionId} {index : BlockId} {block : Block} :
    program.block? id index = some block ↔
      ∃ function, program.function? id = some function ∧ function.blocks[index]? = some block := by
  simp [block?, Option.bind_eq_some_iff]

theorem mem_handles_iff :
    handle ∈ program.handles ↔
      ∃ function index block, program.block? function index = some block ∧
        handle ∈ block.handles := by
  simp only [handles, Function.handles, List.mem_flatMap, block?_eq_some_iff, function?]
  constructor
  · rintro ⟨function, hfunction, block, hblock, hmem⟩
    obtain ⟨id, hid⟩ := List.mem_iff_getElem?.mp hfunction
    obtain ⟨index, hindex⟩ := List.mem_iff_getElem?.mp hblock
    exact ⟨id, index, block, ⟨function, hid, hindex⟩, hmem⟩
  · rintro ⟨id, index, block, ⟨function, hid, hindex⟩, hmem⟩
    exact ⟨function, List.mem_of_getElem? hid, block, List.mem_of_getElem? hindex, hmem⟩

private theorem nodup_flatMap_of_owner {Item Owner : Type} {items : List Item}
    {elements : Item → List Handle} (owner : Handle → Owner) (ownerAt : Nat → Owner)
    (hinjective : ∀ {first second}, ownerAt first = ownerAt second → first = second)
    (hnodup : ∀ (index : Nat) item, items[index]? = some item → (elements item).Nodup)
    (howner : ∀ (index : Nat) item, items[index]? = some item → ∀ element ∈ elements item,
      owner element = ownerAt index) : (items.flatMap elements).Nodup := by
  refine List.nodup_flatMap.mpr ⟨fun item hitem => ?_, List.pairwise_iff_getElem.mpr ?_⟩
  · obtain ⟨index, hindex⟩ := List.mem_iff_getElem?.mp hitem
    exact hnodup index item hindex
  · intro first second hfirst hsecond hlt element hleft hright
    have hone := howner first _ (List.getElem?_eq_getElem hfirst) element hleft
    have htwo := howner second _ (List.getElem?_eq_getElem hsecond) element hright
    exact absurd (hinjective (hone.symm.trans htwo)) (Nat.ne_of_lt hlt)

theorem handles_nodup_of_blocks (parent : Handle → FunctionId × BlockId)
    (hnodup : ∀ {function index block}, program.block? function index = some block →
      block.handles.Nodup)
    (hparent : ∀ {function index block handle}, program.block? function index = some block →
      handle ∈ block.handles → parent handle = (function, index)) : program.handles.Nodup := by
  refine nodup_flatMap_of_owner (fun handle => (parent handle).1) id (fun h => h) ?_ ?_
  · intro id function hfunction
    refine nodup_flatMap_of_owner parent (fun index => (id, index)) (by simp) ?_ ?_
    · exact fun index block hblock => hnodup (block?_eq_some_iff.mpr ⟨function, hfunction, hblock⟩)
    · intro index block hblock element hmem
      exact hparent (block?_eq_some_iff.mpr ⟨function, hfunction, hblock⟩) hmem
  · intro id function hfunction element hmem
    obtain ⟨block, hblock, hlisted⟩ := List.mem_flatMap.mp hmem
    obtain ⟨index, hindex⟩ := List.mem_iff_getElem?.mp hblock
    rw [hparent (block?_eq_some_iff.mpr ⟨function, hfunction, hindex⟩) hlisted]
    rfl

theorem nodup_block_of_handles_nodup (hnodup : program.handles.Nodup) {function : FunctionId}
    {index : BlockId} {block : Block} (hblock : program.block? function index = some block) :
    block.handles.Nodup := by
  obtain ⟨found, hfunction, hindex⟩ := block?_eq_some_iff.mp hblock
  have hblocks := (List.nodup_flatMap.mp hnodup).1 found (List.mem_of_getElem? hfunction)
  exact (List.nodup_flatMap.mp hblocks).1 block (List.mem_of_getElem? hindex)

/-! ## Consequences -/

namespace Consistent

/-- The invariant from facts about single blocks: each lists exactly the live instructions that
name it. -/
theorem of_blocks (hfree : program.FreeListExact)
    (hfunction : ∀ {id function}, program.function? id = some function → function.id = id)
    (hblock : ∀ {function id block}, program.block? function id = some block → block.id = id)
    (hnodup : ∀ {function id block}, program.block? function id = some block →
      block.handles.Nodup)
    (hlists : ∀ {function id block}, program.block? function id = some block → ∀ handle,
      handle ∈ block.handles ↔
        ∃ instruction, program.placed? handle = some ⟨instruction, function, id⟩)
    (hexists : ∀ {handle entry}, program.placed? handle = some entry →
      (program.block? entry.function entry.block).isSome) :
    program.Consistent where
  toFreeListExact := hfree
  function_id := hfunction
  block_id := hblock
  placed_of_listed := fun hfound hmem => (hlists hfound _).mp hmem
  handles_nodup := by
    -- the owner of a live handle is the function and block of its entry
    refine handles_nodup_of_blocks
      (fun handle => ((program.placed? handle).map fun entry =>
        (entry.function, entry.block)).getD (0, 0)) hnodup ?_
    intro function index block handle hfound hmem
    obtain ⟨instruction, hentry⟩ := (hlists hfound handle).mp hmem
    rw [hentry]
    rfl
  mem_handles_of_isLive := by
    intro handle hlive
    obtain ⟨entry, hentry⟩ := Option.isSome_iff_exists.mp hlive
    obtain ⟨block, hfound⟩ := Option.isSome_iff_exists.mp (hexists hentry)
    exact mem_handles_iff.mpr ⟨_, _, block, hfound, (hlists hfound handle).mpr ⟨_, hentry⟩⟩

variable (consistent : program.Consistent)
include consistent

/-- A live instruction is listed by the block that its slot names. -/
theorem listed (hplaced : program.placed? handle = some entry) :
    ∃ block, program.block? entry.function entry.block = some block ∧
      handle ∈ block.handles := by
  have hlive : program.isLive handle = true := by simp [isLive, hplaced]
  obtain ⟨function, index, block, hblock, hmem⟩ :=
    mem_handles_iff.mp (consistent.mem_handles_of_isLive hlive)
  obtain ⟨instruction, hentry⟩ := consistent.placed_of_listed hblock hmem
  rw [hplaced, Option.some.injEq] at hentry
  subst hentry
  exact ⟨block, hblock, hmem⟩

/-- A block lists exactly the live instructions that name it. -/
theorem mem_block_iff {function : FunctionId} {index : BlockId} {block : Block}
    (hblock : program.block? function index = some block) (handle : Handle) :
    handle ∈ block.handles ↔
      ∃ instruction, program.placed? handle = some ⟨instruction, function, index⟩ := by
  refine ⟨consistent.placed_of_listed hblock, ?_⟩
  rintro ⟨instruction, hplaced⟩
  obtain ⟨found, hfound, hmem⟩ := consistent.listed hplaced
  obtain rfl : block = found := Option.some.inj (hblock.symm.trans hfound)
  exact hmem

theorem block_of_placed (hplaced : program.placed? handle = some entry) :
    (program.block? entry.function entry.block).isSome := by
  obtain ⟨block, hblock, -⟩ := consistent.listed hplaced
  exact Option.isSome_iff_exists.mpr ⟨block, hblock⟩

theorem function_of_placed (hplaced : program.placed? handle = some entry) :
    ∃ function, program.function? entry.function = some function ∧ handle ∈ function.handles := by
  obtain ⟨block, hblock, hmem⟩ := consistent.listed hplaced
  obtain ⟨function, hfunction, hindex⟩ := block?_eq_some_iff.mp hblock
  exact ⟨function, hfunction, List.mem_flatMap.mpr ⟨block, List.mem_of_getElem? hindex, hmem⟩⟩

theorem nodup_block {function : FunctionId} {index : BlockId} {block : Block}
    (hblock : program.block? function index = some block) : block.handles.Nodup :=
  nodup_block_of_handles_nodup consistent.handles_nodup hblock

theorem nodup_function {id : FunctionId} {function : Function}
    (hfunction : program.function? id = some function) : function.handles.Nodup :=
  (List.nodup_flatMap.mp consistent.handles_nodup).1 function (List.mem_of_getElem? hfunction)

/-- The instructions of a function are live and know their function. -/
theorem placed_of_mem_function {id : FunctionId} {function : Function}
    (hfunction : program.function? id = some function) (hmem : handle ∈ function.handles) :
    ∃ entry, program.placed? handle = some entry ∧ entry.function = id := by
  obtain ⟨block, hblock, hlisted⟩ := List.mem_flatMap.mp hmem
  obtain ⟨index, hindex⟩ := List.mem_iff_getElem?.mp hblock
  obtain ⟨instruction, hplaced⟩ := consistent.placed_of_listed
    (block?_eq_some_iff.mpr ⟨function, hfunction, hindex⟩) hlisted
  exact ⟨_, hplaced, rfl⟩

/-- A function lists exactly the live instructions that name it. -/
theorem mem_function_iff {id : FunctionId} {function : Function}
    (hfunction : program.function? id = some function) :
    handle ∈ function.handles ↔
      ∃ entry, program.placed? handle = some entry ∧ entry.function = id := by
  refine ⟨consistent.placed_of_mem_function hfunction, ?_⟩
  rintro ⟨entry, hplaced, rfl⟩
  obtain ⟨found, hfound, hmem⟩ := consistent.function_of_placed hplaced
  rw [hfunction, Option.some.injEq] at hfound
  exact hfound ▸ hmem

theorem mem_handles_iff_placed? :
    handle ∈ program.handles ↔ ∃ entry, program.placed? handle = some entry := by
  constructor
  · intro hmem
    obtain ⟨function, index, block, hblock, hlisted⟩ := mem_handles_iff.mp hmem
    obtain ⟨instruction, hplaced⟩ := consistent.placed_of_listed hblock hlisted
    exact ⟨_, hplaced⟩
  · rintro ⟨entry, hplaced⟩
    exact consistent.mem_handles_of_isLive (by simp [isLive, hplaced])

/-- What holds of every listed instruction holds of every live one. -/
theorem forall_placed_iff {property : Handle → Placed → Prop} :
    (∀ handle entry, program.placed? handle = some entry → property handle entry) ↔
      ∀ handle ∈ program.handles, ∀ entry ∈ program.placed? handle, property handle entry := by
  constructor
  · exact fun hall handle _ entry hplaced => hall handle entry hplaced
  · intro hall handle entry hplaced
    have hlive : program.isLive handle = true := by simp [isLive, hplaced]
    exact hall handle (consistent.mem_handles_of_isLive hlive) entry hplaced

end Consistent

end ConcurrencyFaults.Program

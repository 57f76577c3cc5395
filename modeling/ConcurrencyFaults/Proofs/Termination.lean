import ConcurrencyFaults.Proofs.Arena.Edits

/-!
# Block termination

A program is terminated when each block ends with a terminator, holds no other, and control leaves
it for blocks of its function only.

## Strategy

Instructions of different blocks do not matter to each other, so an edit is followed in the one
block that it is about.

1. That block is *opened* (`Terminated.opened`): its instructions are laid out with where control
   goes from each, while all other blocks stay terminated (`Open`).
2. Each change of `Layout.lean` changes that list in the obvious way (`Open.push`, `Open.ahead`,
   `Open.erase`, `Open.rewrite`).  In between the list need not be ended.
3. Once the list is ended again the block can be closed (`Open.close`).
-/

namespace ConcurrencyFaults.Program

variable {program : Program} {handle : Handle} {entry : Placed}

/-! ## Where control goes

`exits?` follows the changes of the arena as `placed?` does, but it does not see operands. -/

/-- Where control may go from a live terminator; `none` for all other handles. -/
def exits? (program : Program) (handle : Handle) : Option (List BlockId) :=
  (program.placed? handle).bind fun entry => entry.instruction.operation.exits?

theorem exits?_of_placed? (hplaced : program.placed? handle = some entry) :
    program.exits? handle = entry.instruction.operation.exits? := by
  simp [exits?, hplaced]

theorem exits?_insertEntry (hfree : program.FreeListExact)
    (place : Handle → List Handle → List Handle) :
    (program.insertEntry entry place).exits? =
      Function.update program.exits? program.nextHandle entry.instruction.operation.exits? := by
  funext handle
  unfold exits?
  rw [placed?_insertEntry hfree]
  by_cases hnext : handle = program.nextHandle <;> simp [hnext]

theorem exits?_eraseEntry (hplaced : program.placed? handle = some entry) :
    (program.eraseEntry handle entry).exits? = Function.update program.exits? handle none := by
  funext other
  unfold exits?
  rw [placed?_eraseEntry hplaced]
  by_cases hother : other = handle <;> simp [hother]

theorem exits?_rewriteFunction (consistent : program.Consistent) (function : FunctionId)
    (change : Operand → Operand) :
    (program.rewriteFunction function change).exits? = program.exits? := by
  funext handle
  unfold exits?
  rw [placed?_rewriteFunction consistent]
  cases hplaced : program.placed? handle with
  | none => rfl
  | some entry => exact Operation.exits?_eq_of_shape_eq (Placed.shape_rewrite function change entry)

theorem exits?_modifyInstruction {change : Instruction → Instruction}
    (hplaced : program.placed? handle = some entry)
    (hexits : (change entry.instruction).operation.exits? = entry.instruction.operation.exits?) :
    (program.modifyInstruction handle change).exits? = program.exits? := by
  funext other
  unfold exits?
  rw [placed?_modifyInstruction hplaced]
  by_cases hother : other = handle
  · subst hother
    simpa [hplaced] using hexits
  · simp [hother]

/-! ## Terminated programs

Blocks are never taken away, so a target that exists goes on to exist. -/

/-- A run of instructions that do not end the block, and one that does, from which control goes to
existing blocks of the function only. -/
def BlockTerminated (program : Program) (function : FunctionId) (block : Block) : Prop :=
  ∃ body last targets, block.handles = body ++ [last] ∧
    (∀ handle ∈ body, program.exits? handle = none) ∧ program.exits? last = some targets ∧
    ∀ target ∈ targets, (program.block? function target).isSome

/-- Every block of every function is terminated. -/
def Terminated (program : Program) : Prop :=
  ∀ (function : FunctionId) (index : BlockId) (block : Block),
    program.block? function index = some block → program.BlockTerminated function block

/-- A block depends on where control goes from its own instructions and on which blocks exist. -/
theorem BlockTerminated.congr {after : Program} {function : FunctionId} {block : Block}
    (hblock : program.BlockTerminated function block)
    (hexits : ∀ handle ∈ block.handles, after.exits? handle = program.exits? handle)
    (hexist : ∀ target, (program.block? function target).isSome →
      (after.block? function target).isSome) : after.BlockTerminated function block := by
  obtain ⟨body, last, targets, hlist, hbody, hlast, htargets⟩ := hblock
  rw [hlist] at hexits
  refine ⟨body, last, targets, hlist, fun handle hmem => ?_, ?_, fun target hmem => ?_⟩
  · rw [hexits handle (List.mem_append_left _ hmem), hbody handle hmem]
  · rw [hexits last (by simp), hlast]
  · exact hexist target (htargets target hmem)

theorem Terminated.congr {after : Program} (terminated : program.Terminated)
    (hblocks : after.block? = program.block?) (hexits : after.exits? = program.exits?) :
    after.Terminated := by
  intro function index block hblock
  rw [hblocks] at hblock
  refine (terminated function index block hblock).congr (fun _ _ => by rw [hexits]) ?_
  rw [hblocks]
  exact fun _ hexists => hexists

/-- What ends a block is listed last. -/
theorem Terminated.last?_eq (terminated : program.Terminated) (consistent : program.Consistent)
    (hplaced : program.placed? handle = some entry)
    (hexits : entry.instruction.operation.exits? ≠ none) {block : Block}
    (hblock : program.block? entry.function entry.block = some block) :
    block.last? = some handle := by
  obtain ⟨body, last, targets, hlist, hbody, -⟩ := terminated _ _ block hblock
  have hmem := (consistent.mem_block_iff hblock handle).mpr ⟨_, hplaced⟩
  rw [hlist, List.mem_append, List.mem_singleton] at hmem
  obtain rfl := hmem.resolve_left fun hmem => hexits (exits?_of_placed? hplaced ▸ hbody handle hmem)
  rw [Block.last?, hlist, List.getLast?_concat]

/-- Whether a block is terminated can be seen from its last instruction and the others. -/
theorem blockTerminated_iff {function : FunctionId} {block : Block} :
    program.BlockTerminated function block ↔
      (∀ handle ∈ block.handles.dropLast, program.exits? handle = none) ∧
        ∃ targets ∈ block.handles.getLast?.bind program.exits?,
          ∀ target ∈ targets, (program.block? function target).isSome := by
  constructor
  · rintro ⟨body, last, targets, hlist, hbody, hlast, htargets⟩
    rw [hlist, List.dropLast_concat, List.getLast?_concat]
    exact ⟨hbody, targets, hlast, htargets⟩
  · rintro ⟨hbody, targets, hlast, htargets⟩
    obtain ⟨last, hfound, hlast⟩ := Option.bind_eq_some_iff.mp hlast
    exact ⟨_, last, targets, (List.dropLast_append_getLast? last hfound).symm, hbody, hlast,
      htargets⟩

instance (function : FunctionId) (block : Block) :
    Decidable (program.BlockTerminated function block) :=
  decidable_of_iff _ blockTerminated_iff.symm

theorem terminated_iff :
    program.Terminated ↔ ∀ numbered ∈ program.functions.zipIdx, ∀ block ∈ numbered.1.blocks,
      program.BlockTerminated numbered.2 block := by
  constructor
  · rintro terminated ⟨function, id⟩ hfunction block hblock
    obtain ⟨index, hindex⟩ := List.mem_iff_getElem?.mp hblock
    exact terminated id index block
      (block?_eq_some_iff.mpr ⟨function, List.mem_zipIdx_iff_getElem?.mp hfunction, hindex⟩)
  · intro hall id index block hblock
    obtain ⟨function, hfunction, hindex⟩ := block?_eq_some_iff.mp hblock
    exact hall (function, id) (List.mem_zipIdx_iff_getElem?.mpr hfunction) block
      (List.mem_of_getElem? hindex)

instance : Decidable program.Terminated := decidable_of_iff _ terminated_iff.symm

/-! ## Ended lists

Of a laid out block only the exits count: all are `none` but the last one. -/

/-- Only the last of a list of instructions ends the block. -/
def Ended (exits : List (Option (List BlockId))) : Prop :=
  ∃ body targets, exits = body ++ [some targets] ∧ ∀ exit ∈ body, exit = none

section Ended

variable {front back : List (Option (List BlockId))} {exit : Option (List BlockId)}

private theorem ended_append_iff (hback : back ≠ []) :
    Ended (front ++ back) ↔ (∀ exit ∈ front, exit = none) ∧ Ended back := by
  constructor
  · rintro ⟨body, targets, hlist, hbody⟩
    rcases List.eq_nil_or_concat back with rfl | ⟨rest, last, rfl⟩
    · exact absurd rfl hback
    · rw [List.concat_eq_append, ← List.append_assoc] at hlist
      obtain ⟨rfl, hlast⟩ := List.append_inj' hlist rfl
      refine ⟨fun exit hmem => hbody exit (List.mem_append_left _ hmem), rest, targets, ?_, ?_⟩
      · rw [List.concat_eq_append, hlast]
      · exact fun exit hmem => hbody exit (List.mem_append_right _ hmem)
  · rintro ⟨hfront, body, targets, rfl, hbody⟩
    refine ⟨front ++ body, targets, by rw [List.append_assoc], fun exit hmem => ?_⟩
    rcases List.mem_append.mp hmem with hmem | hmem
    · exact hfront exit hmem
    · exact hbody exit hmem

private theorem ended_cons_iff (hback : back ≠ []) :
    Ended (exit :: back) ↔ exit = none ∧ Ended back := by
  rw [← List.singleton_append, ended_append_iff hback]
  simp

theorem ended_singleton (targets : List BlockId) : Ended [some targets] :=
  ⟨[], targets, rfl, by simp⟩

/-- An instruction that does not end the block may come before any other. -/
theorem Ended.insert (hended : Ended (front ++ exit :: back)) :
    Ended (front ++ none :: exit :: back) := by
  rw [ended_append_iff (List.cons_ne_nil _ _)] at hended ⊢
  exact ⟨hended.1, (ended_cons_iff (List.cons_ne_nil _ _)).mpr ⟨rfl, hended.2⟩⟩

/-- An instruction that does not end the block may be taken away. -/
theorem Ended.erase (hended : Ended (front ++ none :: back)) : Ended (front ++ back) := by
  rw [ended_append_iff (List.cons_ne_nil _ _)] at hended
  have hback : back ≠ [] := by
    rintro rfl
    obtain ⟨-, body, targets, hlist, -⟩ := hended
    rcases body with - | ⟨first, rest⟩ <;> simp at hlist
  rw [ended_cons_iff hback] at hended
  exact (ended_append_iff hback).mpr ⟨hended.1, hended.2.2⟩

/-- An instruction that ends the block is the last one and the only one of its kind. -/
theorem Ended.of_exits {targets : List BlockId} (hended : Ended (front ++ some targets :: back)) :
    back = [] ∧ ∀ exit ∈ front, exit = none := by
  rw [ended_append_iff (List.cons_ne_nil _ _)] at hended
  refine ⟨?_, hended.1⟩
  by_contra hback
  rw [ended_cons_iff hback] at hended
  exact absurd hended.2.1 (by simp)

theorem ended_append (hfront : ∀ exit ∈ front, exit = none) (hback : Ended back) :
    Ended (front ++ back) := by
  obtain ⟨body, targets, rfl, hbody⟩ := hback
  exact (ended_append_iff (by simp)).mpr ⟨hfront, body, targets, rfl, hbody⟩

end Ended

/-! ## Opening a block

All insertions into the opened block are one lemma (`Open.insert`), which does not ask where in the
list the new instruction goes. -/

/-- The instructions of one block are laid out, each with where control goes from it; all other
blocks are terminated. -/
structure Open (program : Program) (function : FunctionId) (index : BlockId)
    (items : List (Handle × Option (List BlockId))) : Prop where
  consistent : program.Consistent
  listed : ∃ block, program.block? function index = some block ∧
    block.handles = items.map Prod.fst
  exits : ∀ item ∈ items, program.exits? item.1 = item.2
  targets : ∀ item ∈ items, ∀ targets, item.2 = some targets → ∀ target ∈ targets,
    (program.block? function target).isSome
  elsewhere : ∀ {other place block}, program.block? other place = some block →
    ¬ (function = other ∧ index = place) → program.BlockTerminated other block

/-- The block of a live instruction can be opened. -/
theorem Terminated.opened (terminated : program.Terminated) (consistent : program.Consistent)
    (hplaced : program.placed? handle = some entry) :
    ∃ front back, program.Open entry.function entry.block
        (front ++ (handle, entry.instruction.operation.exits?) :: back) ∧
      Ended ((front ++ (handle, entry.instruction.operation.exits?) :: back).map Prod.snd) := by
  obtain ⟨block, hblock, hmem⟩ := consistent.listed hplaced
  obtain ⟨body, last, targets, hlist, hbody, hlast, htargets⟩ := terminated _ _ _ hblock
  -- the list of the block, split at the instruction
  let item (handle : Handle) := (handle, program.exits? handle)
  obtain ⟨front, back, hsplit⟩ := List.append_of_mem hmem
  have hitems : block.handles.map item =
      front.map item ++ (handle, entry.instruction.operation.exits?) :: back.map item := by
    rw [hsplit, List.map_append, List.map_cons, ← exits?_of_placed? hplaced]
  refine ⟨front.map item, back.map item, ?_, ?_⟩
  · rw [← hitems]
    refine ⟨consistent, ⟨block, hblock, by simp [item, Function.comp_def]⟩, by simp [item], ?_, ?_⟩
    -- only the last instruction has exits, and its targets exist
    · intro found hfound exits hexits
      rw [hlist, List.map_append, List.mem_append] at hfound
      rcases hfound with hfound | hfound
      · obtain ⟨early, hearly, rfl⟩ := List.mem_map.mp hfound
        exact absurd ((hbody early hearly).symm.trans hexits) (by simp)
      · obtain rfl : found = item last := by simpa using hfound
        obtain rfl : targets = exits := Option.some.inj (hlast.symm.trans hexits)
        exact htargets
    · exact fun hother _ => terminated _ _ _ hother
  · rw [← hitems, hlist]
    refine ⟨body.map program.exits?, targets, ?_, ?_⟩
    · simp [item, Function.comp_def, hlast]
    · simpa [item] using hbody

namespace Open

variable {function : FunctionId} {index : BlockId} {items : List (Handle × Option (List BlockId))}

/-- A block whose list is ended can be closed. -/
theorem close (opened : program.Open function index items) (hended : Ended (items.map Prod.snd)) :
    program.Terminated := by
  intro other place block hblock
  by_cases hhere : function = other ∧ index = place
  · obtain ⟨rfl, rfl⟩ := hhere
    obtain ⟨found, hfound, hhandles⟩ := opened.listed
    obtain rfl : found = block := Option.some.inj (hfound.symm.trans hblock)
    obtain ⟨body, targets, hexits, hbody⟩ := hended
    obtain ⟨early, late, rfl, rfl, hlate⟩ := List.map_eq_append_iff.mp hexits
    obtain ⟨last, rfl, hlast⟩ := List.map_eq_singleton_iff.mp hlate
    have hmem : last ∈ early ++ [last] := by simp
    refine ⟨early.map Prod.fst, last.1, targets, by simp [hhandles], ?_, ?_, ?_⟩
    · intro handle hhandle
      obtain ⟨item, hitem, rfl⟩ := List.mem_map.mp hhandle
      rw [opened.exits item (List.mem_append_left _ hitem)]
      exact hbody _ (List.mem_map_of_mem hitem)
    · rw [opened.exits last hmem, hlast]
    · exact opened.targets last hmem targets hlast
  · exact opened.elsewhere hblock hhere

/-- Handles of the opened block are live there. -/
theorem placed? (opened : program.Open function index items)
    {item : Handle × Option (List BlockId)} (hitem : item ∈ items) :
    ∃ instruction, program.placed? item.1 = some ⟨instruction, function, index⟩ := by
  obtain ⟨block, hblock, hhandles⟩ := opened.listed
  exact opened.consistent.placed_of_listed hblock (hhandles ▸ List.mem_map_of_mem hitem)

theorem nodup (opened : program.Open function index items) : (items.map Prod.fst).Nodup := by
  obtain ⟨block, hblock, hhandles⟩ := opened.listed
  exact hhandles ▸ opened.consistent.nodup_block hblock

private theorem insert (opened : program.Open function index items) {instruction : Instruction}
    {place : Handle → List Handle → List Handle} {after : List (Handle × Option (List BlockId))}
    (htargets : ∀ targets, instruction.operation.exits? = some targets →
      ∀ target ∈ targets, (program.block? function target).isSome)
    (hplace : place program.nextHandle (items.map Prod.fst) = after.map Prod.fst)
    (hafter : after.Perm ((program.nextHandle, instruction.operation.exits?) :: items)) :
    (program.insertEntry ⟨instruction, function, index⟩ place).Open function index after := by
  have hfree := opened.consistent.toFreeListExact
  obtain ⟨block, hblock, hhandles⟩ := opened.listed
  have hfunctions := @functions_insertEntry program ⟨instruction, function, index⟩ place
  have hblocks := block?_congr hfunctions
  have hexits := @exits?_insertEntry program ⟨instruction, function, index⟩ hfree place
  have hexist : ∀ {other target}, (program.block? other target).isSome →
      ((program.insertEntry ⟨instruction, function, index⟩ place).block? other target).isSome := by
    intro other target htarget
    rw [hblocks, block?_modifyHandles, Option.isSome_map]
    exact htarget
  refine ⟨?_, ?_, ?_, ?_, ?_⟩
  · refine @Consistent.insertEntry program ⟨instruction, function, index⟩ opened.consistent block
      hblock place ?_
    rw [hhandles, hplace]
    exact hafter.map Prod.fst
  · refine ⟨{ block with handles := place program.nextHandle block.handles }, ?_, ?_⟩
    · rw [hblocks]
      exact block?_modifyHandles_self hblock _
    · rw [← hplace, hhandles]
  · intro item hitem
    rw [hexits]
    rcases List.mem_cons.mp (hafter.mem_iff.mp hitem) with rfl | hold
    · simp
    · obtain ⟨found, hfound⟩ := opened.placed? hold
      rw [Function.update_of_ne (ne_nextHandle hfree hfound), opened.exits item hold]
  · intro item hitem targets hsome target htarget
    refine hexist ?_
    rcases List.mem_cons.mp (hafter.mem_iff.mp hitem) with rfl | hold
    · exact htargets targets hsome target htarget
    · exact opened.targets item hold targets hsome target htarget
  · intro other number found hfound helse
    rw [hblocks, block?_modifyHandles_of_ne helse] at hfound
    refine (opened.elsewhere hfound helse).congr (fun handle hmem => ?_) fun _ => hexist
    obtain ⟨listed, hlisted⟩ := opened.consistent.placed_of_listed hfound hmem
    rw [hexits, Function.update_of_ne (ne_nextHandle hfree hlisted)]

theorem push (opened : program.Open function index items) {instruction : Instruction}
    (htargets : ∀ targets, instruction.operation.exits? = some targets →
      ∀ target ∈ targets, (program.block? function target).isSome) :
    (program.insertEntry ⟨instruction, function, index⟩
        fun handle handles => handles ++ [handle]).Open function index
      (items ++ [(program.nextHandle, instruction.operation.exits?)]) :=
  opened.insert htargets (by simp) (List.perm_append_singleton _ _)

variable {front back : List (Handle × Option (List BlockId))} {anchor : Handle}
  {exit : Option (List BlockId)}

private theorem notMem (opened : program.Open function index (front ++ (handle, exit) :: back)) :
    handle ∉ front.map Prod.fst ∧ handle ∉ back.map Prod.fst := by
  have hnodup := opened.nodup
  rw [List.map_append, List.map_cons, List.nodup_append, List.nodup_cons] at hnodup
  exact ⟨fun hmem => hnodup.2.2 handle hmem handle (List.mem_cons_self ..) rfl, hnodup.2.1.1⟩

theorem ahead (opened : program.Open function index (front ++ (anchor, exit) :: back))
    {instruction : Instruction}
    (htargets : ∀ targets, instruction.operation.exits? = some targets →
      ∀ target ∈ targets, (program.block? function target).isSome) :
    (program.insertEntry ⟨instruction, function, index⟩ (ahead anchor)).Open function index
      (front ++ (program.nextHandle, instruction.operation.exits?) :: (anchor, exit) :: back) := by
  refine opened.insert htargets ?_ List.perm_middle
  rw [List.map_append, List.map_cons, ahead_append opened.notMem.1]
  simp

theorem erase (opened : program.Open function index (front ++ (handle, exit) :: back))
    (hplaced : program.placed? handle = some entry) :
    (program.eraseEntry handle entry).Open function index (front ++ back) := by
  obtain ⟨instruction, hfound⟩ := opened.placed?
    (show (handle, exit) ∈ front ++ (handle, exit) :: back by simp)
  obtain rfl : entry = ⟨instruction, function, index⟩ :=
    Option.some.inj (hplaced.symm.trans hfound)
  obtain ⟨block, hblock, hhandles⟩ := opened.listed
  have hblocks := block?_congr (@functions_eraseEntry program handle ⟨instruction, function, index⟩)
  have hexits := exits?_eraseEntry hplaced
  have hexist : ∀ {other target}, (program.block? other target).isSome →
      ((program.eraseEntry handle ⟨instruction, function, index⟩).block? other target).isSome := by
    intro other target htarget
    rw [hblocks, block?_modifyHandles, Option.isSome_map]
    exact htarget
  -- a handle is listed once, so no other item is erased
  have hkept : ∀ item ∈ front ++ back, item ∈ front ++ (handle, exit) :: back ∧
      item.1 ≠ handle := by
    intro item hitem
    rcases List.mem_append.mp hitem with hmem | hmem
    · exact ⟨by simp [hmem], fun heq => opened.notMem.1 (heq ▸ List.mem_map_of_mem hmem)⟩
    · exact ⟨by simp [hmem], fun heq => opened.notMem.2 (heq ▸ List.mem_map_of_mem hmem)⟩
  refine ⟨opened.consistent.eraseEntry hplaced, ?_, ?_, ?_, ?_⟩
  · refine ⟨{ block with handles := block.handles.filter (· != handle) }, ?_, ?_⟩
    · rw [hblocks]
      exact block?_modifyHandles_self hblock _
    · have hall : ∀ other ∈ (front ++ back).map Prod.fst, (other != handle) = true := by
        intro other hother
        obtain ⟨item, hitem, rfl⟩ := List.mem_map.mp hother
        simpa using (hkept item hitem).2
      simp only [List.map_append, List.mem_append] at hall
      simp only [hhandles, List.map_append, List.map_cons, List.filter_append, List.filter_cons,
        bne_self_eq_false, Bool.false_eq_true, if_false]
      rw [List.filter_eq_self.mpr fun other hmem => hall other (Or.inl hmem),
        List.filter_eq_self.mpr fun other hmem => hall other (Or.inr hmem)]
  · intro item hitem
    obtain ⟨hold, hne⟩ := hkept item hitem
    rw [hexits, Function.update_of_ne hne, opened.exits item hold]
  · intro item hitem targets hsome target htarget
    exact hexist (opened.targets item (hkept item hitem).1 targets hsome target htarget)
  · intro other number found hlisted helse
    rw [hblocks, block?_modifyHandles_of_ne helse] at hlisted
    refine (opened.elsewhere hlisted helse).congr (fun listed hmem => ?_) fun _ => hexist
    obtain ⟨listedInstruction, hlive⟩ := opened.consistent.placed_of_listed hlisted hmem
    -- the erased instruction names the opened block, not this one
    have hne : listed ≠ handle := by
      rintro rfl
      rw [hplaced, Option.some.injEq, Placed.mk.injEq] at hlive
      exact helse ⟨hlive.2.1, hlive.2.2⟩
    rw [hexits, Function.update_of_ne hne]

theorem rewrite (opened : program.Open function index items) (other : FunctionId)
    (change : Operand → Operand) :
    (program.rewriteFunction other change).Open function index items := by
  have hblocks := block?_congr (@functions_rewriteFunction program other change)
  have hexits := exits?_rewriteFunction opened.consistent other change
  refine ⟨opened.consistent.rewriteFunction other change, ?_, ?_, ?_, ?_⟩
  · rw [hblocks]
    exact opened.listed
  · rw [hexits]
    exact opened.exits
  · rw [hblocks]
    exact opened.targets
  · intro found place block hblock helse
    rw [hblocks] at hblock
    exact (opened.elsewhere hblock helse).congr (fun _ _ => by rw [hexits])
      fun _ => by rw [hblocks]; exact id

end Open

end ConcurrencyFaults.Program

import ConcurrencyFaults.Proofs.Alteration
import ConcurrencyFaults.Proofs.Search

/-!
# Where new instructions stand

The visitation order of a function is written down in the lists of its blocks.  When instructions
are put in and taken out, each block goes on listing what it listed, with more or less around it:
`Relists` gives for each listed handle the handles that stand in its place.  Such descriptions
compose, say the same of a block and of a whole function, and know nothing of positions, which enter
only with `flatMap_instead_ahead`: to list a handle ahead of the one at some place is to insert it
there.

The primitive changes are two.  `PutsAhead` is an insertion, of which nothing else is to be known.
`Moves` is an insertion together with a removal, the readers of which are left with a zero status;
it describes a call that moves as well as one that another takes the place of.

## Strategy

* A row that stands in the place of one handle is `instead`.  Lemmas about lists say what it comes
  to for an insertion (`ahead_eq_flatMap`), a removal (`flatMap_instead_nil`) and an append
  (`flatMap_instead_append`).
* A change of one block gives a `Relists`, because no other block lists the handle that is replaced
  (`relists_of_modifyHandles`).
* Compositions are formed by `Relists.trans` and tidied up by `Relists.congr`, which allows another
  description as long as it agrees on listed handles.
-/

namespace ConcurrencyFaults.Program

variable {program before between after : Program} {handle anchor gone new : Handle}
  {entry : Placed} {function : FunctionId} {place : Nat} {instruction : Instruction}

/-! ## Places in the visitation order

A place is a number, an instruction is named by its handle.  These lemmas lead from one to the
other. -/

/-- Where a walk ends that starts at some place in a list of some length. -/
def reach (length place : Nat) (steps : Int) : Nat :=
  (min (max (place + steps) 0) (length - 1 : Nat)).toNat

theorem reach_lt {length : Nat} (hplace : place < length) (steps : Int) :
    reach length place steps < length := by
  unfold reach
  omega

/-- A walk forward ends where it should unless the list ends before. -/
theorem reach_add {length steps : Nat} (hend : place + steps < length) :
    reach length place steps = place + steps := by
  unfold reach
  omega

namespace Consistent

variable (consistent : program.Consistent)
include consistent

theorem nodup_handlesIn (function : FunctionId) : (program.handlesIn function).Nodup := by
  unfold handlesIn
  cases hfunction : program.function? function with
  | none => exact List.nodup_nil
  | some found => exact consistent.nodup_function hfunction

theorem exists_of_getElem? (hplace : (program.handlesIn function)[place]? = some handle) :
    ∃ entry, program.placed? handle = some entry ∧ entry.function = function :=
  consistent.exists_of_mem_handlesIn (List.mem_of_getElem? hplace)

/-- The position of an instruction is its place in the visitation order. -/
theorem position_eq_ok_iff (hplaced : program.placed? handle = some entry) :
    program.position handle = .ok place ↔
      (program.handlesIn entry.function)[place]? = some handle := by
  obtain ⟨function, hfunction, hmem⟩ := consistent.function_of_placed hplaced
  rw [handlesIn, hfunction, Option.map_some, Option.getD_some]
  constructor
  · intro hposition
    obtain ⟨found, hfound, rfl⟩ := List.mem_iff_getElem.mp hmem
    rw [consistent.position_getElem hfunction hfound, Except.ok.injEq] at hposition
    rw [← hposition, List.getElem?_eq_getElem hfound]
  · intro hplace
    obtain ⟨hlt, rfl⟩ := List.getElem?_eq_some_iff.mp hplace
    exact consistent.position_getElem hfunction hlt

/-- A walk ends at the instruction that stands where it reaches. -/
theorem step_eq (hplace : (program.handlesIn function)[place]? = some handle) {steps : Int}
    {target : Handle}
    (htarget : (program.handlesIn function)[
      reach (program.handlesIn function).length place steps]? = some target) :
    program.step handle steps = .ok {
      target
      clamped := place + steps < 0 ||
        place + steps > ((program.handlesIn function).length - 1 : Nat) } := by
  obtain ⟨entry, hplaced, rfl⟩ := consistent.exists_of_getElem? hplace
  obtain ⟨function, hfunction, -⟩ := consistent.function_of_placed hplaced
  rw [handlesIn, hfunction, Option.map_some, Option.getD_some] at hplace htarget ⊢
  obtain ⟨hlt, rfl⟩ := List.getElem?_eq_some_iff.mp hplace
  have hfirst := findIdx?_getElem (consistent.nodup_function hfunction) hlt
  unfold step
  simp only [parent_of_placed? hplaced, handlesOf_of_function? hfunction, hfirst, bind, Except.bind,
    pure, Except.pure]
  rw [List.getD_eq_getElem?_getD]
  unfold reach at htarget
  rw [htarget, Option.getD_some]

end Consistent

/-! ## Lists of handles

Handles are listed once, so a row takes the place of one handle and of no other. -/

/-- Some handles in a row stand where one stood. -/
def instead (old : Handle) (row : List Handle) (handle : Handle) : List Handle :=
  if handle = old then row else [handle]

variable {old : Handle} {row handles : List Handle}

@[simp] theorem instead_self : instead old row old = row := if_pos rfl

theorem instead_of_ne (hne : handle ≠ old) : instead old row handle = [handle] := if_neg hne

theorem flatMap_eq_self {listed : Handle → List Handle}
    (hsame : ∀ handle ∈ handles, listed handle = [handle]) : handles.flatMap listed = handles := by
  rw [List.flatMap_congr hsame, List.flatMap_singleton']

theorem flatMap_instead_of_not_mem (hnot : old ∉ handles) :
    handles.flatMap (instead old row) = handles :=
  flatMap_eq_self fun _ hmem => instead_of_ne fun heq => hnot (heq ▸ hmem)

/-- A handle that is listed once has one row in its place. -/
theorem flatMap_instead_append {front back : List Handle} (hnodup : (front ++ old :: back).Nodup) :
    (front ++ old :: back).flatMap (instead old row) = front ++ row ++ back := by
  obtain ⟨-, hback, hdisjoint⟩ := List.nodup_append'.mp hnodup
  have hfront : old ∉ front := fun hmem => hdisjoint hmem (List.mem_cons_self ..)
  calc (front ++ old :: back).flatMap (instead old row)
    _ = front.flatMap (instead old row) ++ (row ++ back.flatMap (instead old row)) := by
      rw [List.flatMap_append, List.flatMap_cons, instead_self]
    _ = front ++ (row ++ back) := by
      rw [flatMap_instead_of_not_mem hfront,
        flatMap_instead_of_not_mem (List.nodup_cons.mp hback).1]
    _ = front ++ row ++ back := (List.append_assoc ..).symm

theorem flatMap_instead_nil (handles : List Handle) :
    handles.flatMap (instead gone []) = handles.filter (· != gone) := by
  induction handles with
  | nil => rfl
  | cons first rest ih =>
      rw [List.flatMap_cons, ih, List.filter_cons]
      by_cases hfirst : first = gone
      · simp [hfirst]
      · simp [hfirst, instead_of_ne]

theorem ahead_eq_flatMap (hnodup : handles.Nodup) (hmem : anchor ∈ handles) :
    ahead anchor new handles = handles.flatMap (instead anchor [new, anchor]) := by
  obtain ⟨front, back, rfl⟩ := List.append_of_mem hmem
  obtain ⟨-, -, hdisjoint⟩ := List.nodup_append'.mp hnodup
  rw [flatMap_instead_append hnodup,
    ahead_append fun hmem => hdisjoint hmem (List.mem_cons_self ..), List.append_assoc]
  rfl

/-- To list a handle ahead of another is to insert it at the place of that other. -/
theorem flatMap_instead_ahead (hnodup : handles.Nodup) (hplace : handles[place]? = some anchor) :
    handles.flatMap (instead anchor [new, anchor]) = handles.insertIdx place new := by
  obtain ⟨hlt, rfl⟩ := List.getElem?_eq_some_iff.mp hplace
  rw [← ahead_eq_flatMap hnodup (List.getElem_mem hlt), ahead,
    List.Nodup.idxOf_getElem hnodup place hlt]

/-! ## Relisted programs

The description is of blocks; a function lists the handles of its blocks one after another, so it is
relisted in the same way. -/

/-- Each block lists, in the place of each handle that it listed, some handles in a row. -/
structure Relists (before after : Program) (listed : Handle → List Handle) : Prop where
  consistent : after.Consistent
  name_eq : after.name = before.name
  /-- Functions and blocks are what they were but for the lists of the blocks. -/
  outline_eq : after.outline = before.outline
  block? : ∀ {function index block}, before.block? function index = some block →
    after.block? function index = some { block with handles := block.handles.flatMap listed }

namespace Relists

variable {listed later : Handle → List Handle}

theorem trans (hfirst : before.Relists between listed) (hsecond : between.Relists after later) :
    before.Relists after fun handle => (listed handle).flatMap later where
  consistent := hsecond.consistent
  name_eq := hsecond.name_eq.trans hfirst.name_eq
  outline_eq := hsecond.outline_eq.trans hfirst.outline_eq
  block? := by
    intro function index block hblock
    rw [hsecond.block? (hfirst.block? hblock), List.flatMap_assoc]

/-- Only what stands in the place of listed handles counts. -/
theorem congr (hrelists : before.Relists after listed)
    (hsame : ∀ handle ∈ before.handles, listed handle = later handle) :
    before.Relists after later where
  consistent := hrelists.consistent
  name_eq := hrelists.name_eq
  outline_eq := hrelists.outline_eq
  block? := by
    intro function index block hblock
    rw [hrelists.block? hblock, List.flatMap_congr fun handle hmem =>
      hsame handle (mem_handles_iff.mpr ⟨function, index, block, hblock, hmem⟩)]

theorem exists_function? (hrelists : before.Relists after listed) {id : FunctionId}
    {function : Function} (hfunction : before.function? id = some function) :
    ∃ now, after.function? id = some now ∧ now.name = function.name ∧
      now.handles = function.handles.flatMap listed := by
  obtain ⟨now, hnow, hsame⟩ := exists_function?_of_outline hrelists.outline_eq.symm hfunction
  have hname : now.name = function.name := by
    simpa [Function.outline] using congrArg (fun found => found.name) hsame
  have hlength : now.blocks.length = function.blocks.length := by
    simpa [Function.outline] using congrArg (fun found => found.blocks.length) hsame
  have hblocks : now.blocks = function.blocks.map fun block =>
      { block with handles := block.handles.flatMap listed } := by
    refine List.ext_getElem? fun index => ?_
    rw [List.getElem?_map]
    cases hindex : function.blocks[index]? with
    | none =>
        rw [List.getElem?_eq_none_iff] at hindex
        exact List.getElem?_eq_none (hlength ▸ hindex)
    | some block =>
        have hblock := hrelists.block? (block?_eq_some_iff.mpr ⟨function, hfunction, hindex⟩)
        obtain ⟨found, hfound, hlisted⟩ := block?_eq_some_iff.mp hblock
        obtain rfl : now = found := Option.some.inj (hnow.symm.trans hfound)
        exact hlisted
  refine ⟨now, hnow, hname, ?_⟩
  calc now.handles
      = function.blocks.flatMap fun block => block.handles.flatMap listed := by
        rw [Function.handles, hblocks, List.flatMap_map]
    _ = function.handles.flatMap listed := by rw [Function.handles, List.flatMap_assoc]

/-- The visitation order changes as the blocks do. -/
theorem handlesIn_eq (hrelists : before.Relists after listed) (function : FunctionId) :
    after.handlesIn function = (before.handlesIn function).flatMap listed := by
  unfold handlesIn
  cases hfunction : before.function? function with
  | some found =>
      obtain ⟨now, hnow, -, hhandles⟩ := hrelists.exists_function? hfunction
      rw [hnow]
      exact hhandles
  | none =>
      have hnone : after.function? function = none := by
        rw [Option.eq_none_iff_forall_ne_some]
        intro now hnow
        obtain ⟨found, hfound, -⟩ := exists_function?_of_outline hrelists.outline_eq hnow
        rw [hfunction] at hfound
        cases hfound
      rw [hnone]
      rfl

end Relists

/-- A change of one block alone, which lists some handles where it listed one. -/
private theorem relists_of_modifyHandles (consistent : program.Consistent)
    (hafter : after.Consistent) (hname : after.name = program.name)
    (hplaced : program.placed? old = some entry) {change : List Handle → List Handle}
    (hfunctions : after.functions =
      (program.modifyHandles entry.function entry.block change).functions)
    (hchange : ∀ block, program.block? entry.function entry.block = some block →
      change block.handles = block.handles.flatMap (instead old row)) :
    program.Relists after (instead old row) where
  consistent := hafter
  name_eq := hname
  outline_eq := (outline_congr hfunctions).trans (outline_modifyHandles ..)
  block? := by
    intro function index block hblock
    rw [block?_congr hfunctions, block?_modifyHandles, hblock, Option.map_some]
    by_cases hhere : entry.function = function ∧ entry.block = index
    · obtain ⟨rfl, rfl⟩ := hhere
      rw [if_pos ⟨rfl, rfl⟩, hchange block hblock]
    · -- the old handle is listed by its own block alone
      have hnot : old ∉ block.handles := by
        intro hmem
        obtain ⟨found, hfound⟩ := (consistent.mem_block_iff hblock old).mp hmem
        rw [hplaced, Option.some.injEq] at hfound
        exact hhere (by simp [hfound])
      rw [if_neg hhere, flatMap_instead_of_not_mem hnot]

theorem relists_insertAhead (consistent : program.Consistent)
    (hplaced : program.placed? anchor = some entry) (instruction : Instruction) :
    program.Relists
      (program.insertEntry ⟨instruction, entry.function, entry.block⟩ (ahead anchor))
      (instead anchor [program.nextHandle, anchor]) :=
  relists_of_modifyHandles consistent (consistent.insertAhead hplaced instruction)
    (name_insertEntry _) hplaced (functions_insertEntry _) fun _ hblock =>
      ahead_eq_flatMap (consistent.nodup_block hblock)
        ((consistent.mem_block_iff hblock anchor).mpr ⟨_, hplaced⟩)

theorem relists_eraseEntry (consistent : program.Consistent)
    (hplaced : program.placed? gone = some entry) :
    program.Relists (program.eraseEntry gone entry) (instead gone []) :=
  relists_of_modifyHandles consistent (consistent.eraseEntry hplaced) name_eraseEntry hplaced
    functions_eraseEntry fun _ _ => (flatMap_instead_nil _).symm

/-- A branch stands directly behind the instruction that its block ended with. -/
theorem relists_pushBranch (consistent : program.Consistent)
    (hplaced : program.placed? old = some entry)
    (hlast : ∀ block, program.block? entry.function entry.block = some block →
      block.last? = some old) (target : BlockId) (location : Option Location) :
    program.Relists (program.pushBranch entry target location)
      (instead old [old, program.nextHandle]) := by
  refine relists_of_modifyHandles consistent
    (kept_pushBranch consistent hplaced target location).consistent (name_insertEntry _) hplaced
    (functions_insertEntry _) fun block hblock => ?_
  obtain ⟨front, hfront⟩ := List.getLast?_eq_some_iff.mp (hlast _ hblock)
  have hnodup := consistent.nodup_block hblock
  rw [hfront] at hnodup ⊢
  rw [flatMap_instead_append hnodup]
  simp

theorem relists_rewriteFunction (consistent : program.Consistent) (function : FunctionId)
    (change : Operand → Operand) :
    program.Relists (program.rewriteFunction function change) fun handle => [handle] where
  consistent := consistent.rewriteFunction function change
  name_eq := name_rewriteFunction ..
  outline_eq := outline_rewriteFunction ..
  block? := by
    intro function index block hblock
    rw [block?_congr (functions_rewriteFunction _ _), hblock, flatMap_eq_self fun _ _ => rfl]

/-! ## Putting an instruction ahead of another

Nothing reads the new instruction yet, so the others are left as they are. -/

theorem ne_of_placed? (hplaced : program.placed? handle = some entry)
    (hnone : program.placed? new = none) : handle ≠ new := by
  rintro rfl
  rw [hplaced] at hnone
  cases hnone

/-- A new instruction stands directly ahead of an old one, in the same block, and all else is as it
was. -/
structure PutsAhead (before after : Program) (anchor new : Handle) (instruction : Instruction) :
    Prop where
  relists : before.Relists after (instead anchor [new, anchor])
  fresh : before.placed? new = none
  placed? : ∃ entry, before.placed? anchor = some entry ∧ after.placed? =
    Function.update before.placed? new (some ⟨instruction, entry.function, entry.block⟩)

theorem putsAhead_insertAhead (consistent : program.Consistent)
    (hplaced : program.placed? anchor = some entry) (instruction : Instruction) :
    program.PutsAhead
      (program.insertEntry ⟨instruction, entry.function, entry.block⟩ (ahead anchor)) anchor
      program.nextHandle instruction where
  relists := relists_insertAhead consistent hplaced instruction
  fresh := placed?_nextHandle consistent.toFreeListExact
  placed? := ⟨entry, hplaced, placed?_insertEntry consistent.toFreeListExact _⟩

namespace PutsAhead

variable (hputs : before.PutsAhead after anchor new instruction)
include hputs

theorem handlesIn_eq (consistent : before.Consistent)
    (hplace : (before.handlesIn function)[place]? = some anchor) :
    after.handlesIn function = (before.handlesIn function).insertIdx place new := by
  rw [hputs.relists.handlesIn_eq, flatMap_instead_ahead (consistent.nodup_handlesIn _) hplace]

theorem placed?_new (hplaced : before.placed? anchor = some entry) :
    after.placed? new = some ⟨instruction, entry.function, entry.block⟩ := by
  obtain ⟨found, hfound, hupdate⟩ := hputs.placed?
  rw [hplaced, Option.some.injEq] at hfound
  rw [hupdate, Function.update_self, hfound]

theorem placed?_of_placed? (hplaced : before.placed? handle = some entry) :
    after.placed? handle = some entry := by
  obtain ⟨found, -, hupdate⟩ := hputs.placed?
  rw [hupdate, Function.update_of_ne (ne_of_placed? hplaced hputs.fresh), hplaced]

end PutsAhead

/-! ## Moving an instruction

An insertion, a rewriting and an erasure are taken together, so that nobody has to know in which
order they were done. -/

/-- Clearing one result is replacing its uses. -/
theorem rewrite_eq_mapOperands_clearing (hplaced : program.placed? handle = some entry)
    (found : Placed) :
    found.rewrite entry.function (replacing handle .success) =
      found.mapOperands (program.clearing [handle] found.function) := by
  have hsame := rewrite_mapOperands_clearing hplaced [] found
  rwa [Placed.mapOperands_eq_self fun operand _ => clearing_nil found.function operand] at hsame

/-- A new instruction stands directly ahead of `anchor` and the one at `gone` is erased; what read
its result reads a zero status. -/
structure Moves (before after : Program) (gone anchor new : Handle) (instruction : Instruction) :
    Prop where
  relists : before.Relists after fun handle =>
    (instead anchor [new, anchor] handle).flatMap (instead gone [])
  fresh : before.placed? new = none
  stale : after.placed? gone = none
  /-- Its slot has moved on by one generation. -/
  generation : (after.occupancy gone.slot).map Prod.fst =
    some ((gone.generation + 1) % Slot.generationLimit)
  placed?_new : ∀ {entry}, before.placed? anchor = some entry → after.placed? new =
    some (Placed.mapOperands ⟨instruction, entry.function, entry.block⟩
      (before.clearing [gone] entry.function))
  placed?_of_placed? : ∀ {handle entry}, before.placed? handle = some entry → handle ≠ gone →
    after.placed? handle = some (entry.mapOperands (before.clearing [gone] entry.function))
  placed?_of_stale : ∀ {handle}, before.placed? handle = none → handle ≠ new →
    after.placed? handle = none

theorem moves_insertAhead (consistent : program.Consistent) {target : Placed}
    (hgone : program.placed? gone = some entry) (hanchor : program.placed? anchor = some target)
    (instruction : Instruction) :
    program.Moves (((program.insertEntry ⟨instruction, target.function, target.block⟩
        (ahead anchor)).rewriteFunction entry.function (replacing gone .success)).eraseEntry gone
          (entry.rewrite entry.function (replacing gone .success)))
      gone anchor program.nextHandle instruction := by
  have hputs := putsAhead_insertAhead consistent hanchor instruction
  have hinserted := hputs.relists.consistent
  have hrewritten := relists_rewriteFunction hinserted entry.function (replacing gone .success)
  have hstill := hputs.placed?_of_placed? hgone
  have hlive := placed?_rewriteFunction_of_placed? hinserted hstill entry.function
    (replacing gone .success)
  have herased := relists_eraseEntry hrewritten.consistent hlive
  -- what is still there is rewritten in the function of the erased instruction
  have hstays : ∀ {handle found}, handle ≠ gone →
      (program.insertEntry ⟨instruction, target.function, target.block⟩
        (ahead anchor)).placed? handle = some found →
      (((program.insertEntry ⟨instruction, target.function, target.block⟩
        (ahead anchor)).rewriteFunction entry.function (replacing gone .success)).eraseEntry gone
          (entry.rewrite entry.function (replacing gone .success))).placed? handle =
        some (found.mapOperands (program.clearing [gone] found.function)) := by
    intro handle found hne hfound
    rw [placed?_eraseEntry_rewrite hinserted hstill _ hne, hfound, Option.map_some,
      rewrite_eq_mapOperands_clearing hgone]
  refine ⟨?_, hputs.fresh, ?_, ?_, ?_, ?_, ?_⟩
  · refine ((hputs.relists.trans hrewritten).trans herased).congr fun handle _ => ?_
    rw [flatMap_eq_self fun _ _ => rfl]
  · rw [placed?_eraseEntry hlive, Function.update_self]
  · rw [occupancy_eraseEntry hlive, Function.update_self]
    rfl
  · intro found hfound
    have hne := ne_nextHandle consistent.toFreeListExact hgone
    exact hstays hne.symm (hputs.placed?_new hfound)
  · exact fun hfound hne => hstays hne (hputs.placed?_of_placed? hfound)
  · intro handle hnone hne
    have hother : handle ≠ gone := (ne_of_placed? hgone hnone).symm
    rw [placed?_eraseEntry_rewrite hinserted hstill _ hother,
      placed?_insertEntry consistent.toFreeListExact, Function.update_of_ne hne, hnone,
      Option.map_none]

/-- An instruction is moved by putting one in and erasing the old. -/
theorem exists_moves (consistent : program.Consistent) {target : Placed}
    (hgone : program.placed? gone = some entry) (hanchor : program.placed? anchor = some target)
    (instruction : Instruction) :
    ∃ inserted removal after,
      insertBefore anchor instruction program = .ok program.nextHandle inserted ∧
      eraseOrZero gone 32 true inserted = .ok removal after ∧
      program.Moves after gone anchor program.nextHandle instruction := by
  have hputs := putsAhead_insertAhead consistent hanchor instruction
  obtain ⟨removal, hremoval⟩ := eraseOrZero_of_placed? hputs.relists.consistent
    (hputs.placed?_of_placed? hgone) 32 true
  exact ⟨_, removal, _, insertBefore_of_placed? consistent hanchor instruction, hremoval,
    moves_insertAhead consistent hgone hanchor instruction⟩

namespace Moves

variable (hmoves : before.Moves after gone anchor new instruction)
include hmoves

theorem handlesIn_eq (consistent : before.Consistent)
    (hplace : (before.handlesIn function)[place]? = some anchor) :
    after.handlesIn function =
      ((before.handlesIn function).insertIdx place new).filter (· != gone) := by
  calc after.handlesIn function
      = ((before.handlesIn function).flatMap (instead anchor [new, anchor])).flatMap
          (instead gone []) := by
        rw [hmoves.relists.handlesIn_eq, List.flatMap_assoc]
    _ = ((before.handlesIn function).insertIdx place new).flatMap (instead gone []) := by
        rw [flatMap_instead_ahead (consistent.nodup_handlesIn _) hplace]
    _ = ((before.handlesIn function).insertIdx place new).filter (· != gone) :=
        flatMap_instead_nil _

/-- The erased handle is not the one that is given out next. -/
theorem nextHandle_ne : after.nextHandle ≠ gone :=
  nextHandle_ne_of_generation hmoves.relists.consistent.toFreeListExact hmoves.generation

end Moves

end ConcurrencyFaults.Program

import ConcurrencyFaults.Proofs.Arena.Commands
import ConcurrencyFaults.Proofs.Closed.Changes
import ConcurrencyFaults.Proofs.Sites

/-!
# Taking calls out of a program

When a call is removed, what read its result reads a zero status instead, and if the call was an
invoke, its block goes on at the normal continuation.  `Cleared` says what a program is like after
some of its calls were taken out in this way: every block lists what is left of it in the old order
and then the branches it gained, every instruction that is left is the old one but for the operands
that named an erased result, and each emptied slot has moved on by one generation.

## Strategy

`Program.takeOut` is what the removal of one call comes to: the branch, if there is one, is
appended, the uses of the result are rewritten, and the call is erased.  Its lemmas say what this
does to the blocks (`block?_takeOut`), to what handles name (`placed?_takeOut_of_placed?`) and to
the generations of slots (`generation_takeOut`).

`Cleared` holds of the program itself for the empty list (`Cleared.refl`) and is extended by one
call at a time (`Cleared.takeOut`), always compared with the program at the start:

* `rewrite_mapOperands_clearing` puts one more replacement of operands behind those made so far;
* `Cleared.block?_takeOut` adds a branch to the block of the call and leaves the other blocks alone;
* the generations see to it that no erased handle is given out again in between
  (`Cleared.nextHandle_not_mem`), so that branches are never mistaken for what they took over from.
-/

namespace ConcurrencyFaults

/-- The status that readers of a removed primitive are left with: zero, 32 bits wide and signed. -/
def Operand.success : Operand := .constant (.int 32 true 0)

/-- The function with the lists of its blocks blanked out. -/
def Function.outline (function : Function) : Function :=
  { function with blocks := function.blocks.map fun block => { block with handles := [] } }

/-- Where an invoke goes on if nothing is thrown. -/
def Operation.continuation? : Operation → Option BlockId
  | .invoke _ _ _ normal _ => some normal
  | _ => none

@[simp] theorem Operation.continuation?_mapOperands (operation : Operation)
    (change : Operand → Operand) :
    (operation.mapOperands change).continuation? = operation.continuation? := by
  cases operation <;> rfl

theorem Operation.continuation?_eq_of_shape_eq {operation other : Operation}
    (hshape : operation.shape = other.shape) :
    operation.continuation? = other.continuation? := by
  have hcontinuation := congrArg continuation? hshape
  simpa only [shape, continuation?_mapOperands] using hcontinuation

namespace Placed

/-- The instruction with its operands changed. -/
def mapOperands (entry : Placed) (change : Operand → Operand) : Placed :=
  { entry with
    instruction :=
      entry.instruction.withOperation (entry.instruction.operation.mapOperands change) }

theorem rewrite_eq (function : FunctionId) (change : Operand → Operand) (entry : Placed) :
    entry.rewrite function change =
      if entry.function = function then entry.mapOperands change else entry := rfl

theorem mapOperands_mapOperands (entry : Placed) (first second : Operand → Operand) :
    (entry.mapOperands first).mapOperands second =
      entry.mapOperands fun operand => second (first operand) := by
  simp [mapOperands, Instruction.withOperation, Operation.mapOperands_mapOperands]

theorem mapOperands_eq_self {entry : Placed} {change : Operand → Operand}
    (hfixed : ∀ operand ∈ entry.instruction.operation.operands, change operand = operand) :
    entry.mapOperands change = entry := by
  simp [mapOperands, Instruction.withOperation, Operation.mapOperands_eq_self hfixed]

/-- What takes over from an instruction that is taken out: an invoke goes on at its normal
continuation. -/
def branch? (entry : Placed) : Option Placed :=
  entry.instruction.operation.continuation?.map fun normal =>
    { entry with
      instruction := { operation := .branch normal, location := entry.instruction.location } }

@[simp] theorem branch?_mapOperands (entry : Placed) (change : Operand → Operand) :
    (entry.mapOperands change).branch? = entry.branch? := by
  simp [branch?, mapOperands, Instruction.withOperation]

/-- A branch stands where the instruction stood, and reads nothing. -/
theorem of_branch? {entry branch : Placed} (hbranch : entry.branch? = some branch) :
    branch.function = entry.function ∧ branch.block = entry.block ∧
      branch.instruction.operation.operands = [] := by
  obtain ⟨normal, -, rfl⟩ := Option.map_eq_some_iff.mp hbranch
  exact ⟨rfl, rfl, rfl⟩

end Placed

namespace Program

variable {program before between after : Program} {handle : Handle} {entry : Placed}
  {gone : List Handle}

/-! ## What lists and storage do not change

Blocks and functions are there throughout, with their names; changes are made to the lists of blocks
and to the storage of instructions alone.
-/

/-- The functions without the lists of their blocks. -/
def outline (program : Program) : List Function := program.functions.map Function.outline

theorem outline_congr {other : Program} (hfunctions : program.functions = other.functions) :
    program.outline = other.outline := by
  rw [outline, hfunctions, outline]

private theorem map_modify_of_eq {Item Other : Type} {items : List Item} {read : Item → Other}
    {change : Item → Item} (hchange : ∀ item, read (change item) = read item) (index : Nat) :
    (items.modify index change).map read = items.map read := by
  refine List.ext_getElem? fun place => ?_
  rw [List.getElem?_map, List.getElem?_map, List.getElem?_modify]
  cases items[place]? with
  | none => rfl
  | some item =>
      by_cases hplace : index = place
      · simp [hplace, hchange]
      · simp [hplace]

@[simp] theorem outline_modifyHandles (function : FunctionId) (block : BlockId)
    (change : List Handle → List Handle) :
    (program.modifyHandles function block change).outline = program.outline := by
  refine map_modify_of_eq (fun old => ?_) function
  have hblocks : (old.blocks.modify block fun found =>
        { found with handles := change found.handles }).map
          (fun found => { found with handles := [] }) =
      old.blocks.map fun found => { found with handles := [] } := by
    refine map_modify_of_eq ?_ block
    exact fun _ => rfl
  simp only [Function.outline, Function.modifyBlock, hblocks]

@[simp] theorem outline_insertEntry (place : Handle → List Handle → List Handle) :
    (program.insertEntry entry place).outline = program.outline :=
  (outline_congr (functions_insertEntry place)).trans (outline_modifyHandles ..)

@[simp] theorem outline_eraseEntry :
    (program.eraseEntry handle entry).outline = program.outline :=
  (outline_congr functions_eraseEntry).trans (outline_modifyHandles ..)

@[simp] theorem outline_rewriteFunction (function : FunctionId) (change : Operand → Operand) :
    (program.rewriteFunction function change).outline = program.outline :=
  outline_congr (functions_rewriteFunction ..)

@[simp] theorem name_insertEntry (place : Handle → List Handle → List Handle) :
    (program.insertEntry entry place).name = program.name := by
  show (program.store entry).2.name = _
  unfold store
  split <;> rfl

@[simp] theorem name_eraseEntry : (program.eraseEntry handle entry).name = program.name := by
  unfold eraseEntry release
  split <;> rfl

theorem name_modifyInstruction (change : Instruction → Instruction) :
    (program.modifyInstruction handle change).name = program.name := by
  unfold modifyInstruction
  split <;> rfl

@[simp] theorem name_rewriteFunction (function : FunctionId) (change : Operand → Operand) :
    (program.rewriteFunction function change).name = program.name := by
  unfold rewriteFunction rewriteAt
  generalize ((program.function? function).map Function.handles).getD [] = readers
  induction readers generalizing program with
  | nil => rfl
  | cons reader rest ih => exact ih.trans (name_modifyInstruction _)

/-- Programs of one outline have the same functions. -/
theorem exists_function?_of_outline {other : Program} (houtline : other.outline = program.outline)
    {id : FunctionId} {function : Function} (hfunction : other.function? id = some function) :
    ∃ found, program.function? id = some found ∧ found.outline = function.outline := by
  have hfunctions := congrArg (·[id]?) houtline
  simp only [outline, List.getElem?_map] at hfunctions
  rw [show other.functions[id]? = some function from hfunction, Option.map_some, eq_comm,
    Option.map_eq_some_iff] at hfunctions
  exact hfunctions

theorem exists_block?_of_outline {other : Program} (houtline : other.outline = program.outline)
    {function : FunctionId} {index : BlockId} {block : Block}
    (hblock : other.block? function index = some block) :
    ∃ found, program.block? function index = some found := by
  obtain ⟨old, hold, hindex⟩ := block?_eq_some_iff.mp hblock
  obtain ⟨new, hnew, hsame⟩ := exists_function?_of_outline houtline hold
  have hblocks := congrArg (fun found => found.blocks[index]?) hsame
  simp only [Function.outline, List.getElem?_map, hindex, Option.map_some,
    Option.map_eq_some_iff] at hblocks
  obtain ⟨found, hfound, -⟩ := hblocks
  exact ⟨found, block?_eq_some_iff.mpr ⟨new, hnew, hfound⟩⟩

/-! ## Taking out one call

The three steps of a removal, looked at one by one.
-/

/-- A slot that is filled again keeps its generation. -/
theorem generation_insertEntry (hfree : program.FreeListExact)
    (place : Handle → List Handle → List Handle) {slot generation : Nat}
    (hslot : (program.occupancy slot).map Prod.fst = some generation) :
    ((program.insertEntry entry place).occupancy slot).map Prod.fst = some generation := by
  rw [occupancy_insertEntry hfree]
  by_cases hnext : slot = program.nextHandle.slot
  · rw [hnext, Function.update_self]
    rw [hnext] at hslot
    rcases slot_nextHandle hfree with hempty | ⟨hnone, -⟩
    · simpa [occupancy, hempty] using hslot
    · simp [occupancy, hnone] at hslot
  · rw [Function.update_of_ne hnext, hslot]

/-- The program with a branch appended to its block. -/
def appendBranch (program : Program) : Option Placed → Program
  | some branch => program.insertEntry branch fun handle handles => handles ++ [handle]
  | none => program

/-- The handle that the branch receives. -/
def branchHandles (program : Program) (branch : Option Placed) : List Handle :=
  branch.toList.map fun _ => program.nextHandle

theorem eq_nextHandle_of_mem_branchHandles {branch : Option Placed} {new : Handle}
    (hmem : new ∈ program.branchHandles branch) : new = program.nextHandle := by
  obtain ⟨-, -, rfl⟩ := List.mem_map.mp hmem
  rfl

/-- The program after its instruction at `handle` was taken out. -/
def takeOut (program : Program) (handle : Handle) (entry : Placed) : Program :=
  ((program.appendBranch entry.branch?).rewriteFunction entry.function
    (replacing handle .success)).eraseEntry handle
      (entry.rewrite entry.function (replacing handle .success))

/-- A block loses the erased call and gains the branch. -/
theorem block?_takeOut (function : FunctionId) (index : BlockId) :
    (program.takeOut handle entry).block? function index =
      (program.block? function index).map fun block =>
        if entry.function = function ∧ entry.block = index then
          { block with
            handles := (block.handles ++ program.branchHandles entry.branch?).filter (· != handle) }
        else block := by
  have hrewritten := block?_congr (@functions_rewriteFunction (program.appendBranch entry.branch?)
    entry.function (replacing handle .success))
  unfold takeOut
  rw [block?_congr functions_eraseEntry, block?_modifyHandles, hrewritten,
    Placed.function_rewrite, Placed.block_rewrite]
  -- the branch is appended to the very block that loses the call
  cases hbranch : entry.branch? with
  | none => simp [appendBranch, branchHandles]
  | some branch =>
      obtain ⟨hfunction, hindex, -⟩ := Placed.of_branch? hbranch
      show ((program.insertEntry branch _).block? function index).map _ = _
      rw [block?_congr (functions_insertEntry _), block?_modifyHandles, hfunction, hindex,
        Option.map_map]
      refine congrFun (congrArg Option.map (funext fun block => ?_)) _
      by_cases hhere : entry.function = function ∧ entry.block = index <;>
        simp [hhere, branchHandles]

theorem name_takeOut : (program.takeOut handle entry).name = program.name := by
  unfold takeOut appendBranch
  rw [name_eraseEntry, name_rewriteFunction]
  split
  · exact name_insertEntry _
  · rfl

theorem outline_takeOut : (program.takeOut handle entry).outline = program.outline := by
  unfold takeOut appendBranch
  rw [outline_eraseEntry, outline_rewriteFunction]
  split
  · exact outline_insertEntry _
  · rfl

section TakeOut

variable (consistent : program.Consistent) (hplaced : program.placed? handle = some entry)
include consistent hplaced

theorem consistent_appendBranch : (program.appendBranch entry.branch?).Consistent := by
  cases hbranch : entry.branch? with
  | none => exact consistent
  | some branch =>
      obtain ⟨block, hblock, -⟩ := consistent.listed hplaced
      obtain ⟨hfunction, hindex, -⟩ := Placed.of_branch? hbranch
      rw [← hfunction, ← hindex] at hblock
      exact consistent.pushEntry hblock branch.instruction

theorem placed?_appendBranch :
    (program.appendBranch entry.branch?).placed? handle = some entry := by
  cases entry.branch? with
  | none => exact hplaced
  | some branch => exact placed?_insertEntry_of_placed? consistent.toFreeListExact hplaced _ _

theorem consistent_takeOut : (program.takeOut handle entry).Consistent := by
  have hbranched := consistent_appendBranch consistent hplaced
  have hlive := placed?_rewriteFunction_of_placed? hbranched
    (placed?_appendBranch consistent hplaced) entry.function (replacing handle .success)
  exact (hbranched.rewriteFunction _ _).eraseEntry hlive

/-- What is left is rewritten in the function of the erased call. -/
theorem placed?_takeOut :
    (program.takeOut handle entry).placed? =
      Function.update (fun other => ((program.appendBranch entry.branch?).placed? other).map
        (Placed.rewrite entry.function (replacing handle .success))) handle none := by
  have hbranched := consistent_appendBranch consistent hplaced
  have hlive := placed?_rewriteFunction_of_placed? hbranched
    (placed?_appendBranch consistent hplaced) entry.function (replacing handle .success)
  unfold takeOut
  rw [placed?_eraseEntry hlive]
  congr 1
  funext other
  rw [placed?_rewriteFunction hbranched]

/-- A new handle names the branch, which reads nothing. -/
theorem map_placed?_branchHandles :
    (program.branchHandles entry.branch?).map (program.takeOut handle entry).placed? =
      entry.branch?.toList.map some := by
  have hupdate := placed?_takeOut consistent hplaced
  cases hbranch : entry.branch? with
  | none => rfl
  | some branch =>
      have hne := ne_nextHandle consistent.toFreeListExact hplaced
      obtain ⟨-, -, hoperands⟩ := Placed.of_branch? hbranch
      have hfixed : branch.rewrite entry.function (replacing handle .success) = branch := by
        rw [Placed.rewrite_eq]
        split
        · exact Placed.mapOperands_eq_self (by simp [hoperands])
        · rfl
      have hnew :
          (program.appendBranch (some branch)).placed? program.nextHandle = some branch := by
        show (program.insertEntry branch _).placed? _ = _
        rw [placed?_insertEntry consistent.toFreeListExact, Function.update_self]
      rw [hbranch] at hupdate
      simp [branchHandles, hupdate, hne.symm, hnew, hfixed]

/-- What was there and is not taken out is rewritten. -/
theorem placed?_takeOut_of_placed? {other : Handle} {found : Placed}
    (hother : program.placed? other = some found) (hne : other ≠ handle) :
    (program.takeOut handle entry).placed? other =
      some (found.rewrite entry.function (replacing handle .success)) := by
  have hstill : (program.appendBranch entry.branch?).placed? other = some found := by
    cases entry.branch? with
    | none => exact hother
    | some branch => exact placed?_insertEntry_of_placed? consistent.toFreeListExact hother _ _
  rw [placed?_takeOut consistent hplaced, Function.update_of_ne hne, hstill, Option.map_some]

/-- The slot of the erased call moves on by one generation, and no other slot does. -/
theorem generation_takeOut (slot : Nat) {generation : Nat}
    (hslot : (program.occupancy slot).map Prod.fst = some generation) :
    ((program.takeOut handle entry).occupancy slot).map Prod.fst =
      some (if slot = handle.slot then (handle.generation + 1) % Slot.generationLimit
        else generation) := by
  have hlive := placed?_rewriteFunction_of_placed? (consistent_appendBranch consistent hplaced)
    (placed?_appendBranch consistent hplaced) entry.function (replacing handle .success)
  unfold takeOut
  rw [occupancy_eraseEntry hlive, occupancy_rewriteFunction]
  by_cases hsame : slot = handle.slot
  · simp [hsame]
  · rw [Function.update_of_ne hsame, if_neg hsame]
    cases entry.branch? with
    | none => exact hslot
    | some branch => exact generation_insertEntry consistent.toFreeListExact _ hslot

end TakeOut

/-! ## Taking out several calls

What an operand becomes depends on the function that it stands in, since uses are replaced in the
function of the erased call and nowhere else.
-/

/-- What an operand of a function becomes when some instructions are taken out. -/
def clearing (program : Program) (gone : List Handle) (function : FunctionId) (operand : Operand) :
    Operand :=
  match operand.handle? with
  | some handle =>
      if handle ∈ gone ∧ program.functionOf? handle = some function then .success else operand
  | none => operand

/-- The branch that a block gains when the instruction at `handle` is taken out. -/
def branchOf? (program : Program) (function : FunctionId) (index : BlockId) (handle : Handle) :
    Option Placed :=
  ((program.placed? handle).filter fun entry =>
    entry.function = function ∧ entry.block = index).bind Placed.branch?

/-- The program after some of its instructions were taken out. -/
structure Cleared (before after : Program) (gone : List Handle) : Prop where
  consistent : after.Consistent
  name_eq : after.name = before.name
  outline_eq : after.outline = before.outline
  /-- Only instructions of the program are taken out. -/
  live : ∀ handle ∈ gone, ∃ entry, before.placed? handle = some entry
  /-- Of what is left only operands change that named an erased result of their function. -/
  placed? : ∀ {handle entry}, before.placed? handle = some entry → handle ∉ gone →
    after.placed? handle = some (entry.mapOperands (before.clearing gone entry.function))
  /-- Blocks list what is left in the old order, and then the branches they gained. -/
  block? : ∀ {function index block}, before.block? function index = some block →
    ∃ tail, after.block? function index =
        some { block with handles := block.handles.filter (· ∉ gone) ++ tail } ∧
      tail.map after.placed? = (gone.filterMap (before.branchOf? function index)).map some ∧
      ∀ new ∈ tail, before.placed? new = none
  /-- Each emptied slot has moved on by one generation. -/
  generation : ∀ handle ∈ gone, (after.occupancy handle.slot).map Prod.fst =
    some ((handle.generation + 1) % Slot.generationLimit)

theorem branchOf?_of_placed? (hplaced : program.placed? handle = some entry) {function : FunctionId}
    {index : BlockId} :
    program.branchOf? function index handle =
      if entry.function = function ∧ entry.block = index then entry.branch? else none := by
  rw [branchOf?, hplaced]
  by_cases hhere : entry.function = function ∧ entry.block = index <;>
    simp [Option.filter, hhere]

/-- An operand stays as it is if it names no erased result of its function. -/
theorem clearing_eq_self {function : FunctionId} {operand : Operand}
    (hnames : ∀ handle ∈ gone, program.functionOf? handle = some function →
      operand ≠ .result handle) : program.clearing gone function operand = operand := by
  unfold clearing
  split
  · rename_i handle hhandle
    have hresult : operand = .result handle := by
      cases operand with
      | result used => exact congrArg Operand.result (Option.some.inj hhandle)
      | _ => cases hhandle
    exact if_neg fun hgone => hnames handle hgone.1 hgone.2 hresult
  · rfl

theorem clearing_nil (function : FunctionId) (operand : Operand) :
    program.clearing [] function operand = operand :=
  clearing_eq_self (by simp)

/-- It matters only in which functions the erased instructions are. -/
theorem clearing_eq_of_functionOf?
    (hsame : ∀ handle ∈ gone, before.functionOf? handle = after.functionOf? handle) :
    before.clearing gone = after.clearing gone := by
  funext function operand
  unfold clearing
  split
  · rename_i handle _
    by_cases hmem : handle ∈ gone
    · rw [hsame handle hmem]
    · simp [hmem]
  · rfl

theorem Cleared.refl (consistent : program.Consistent) : program.Cleared program [] where
  consistent := consistent
  name_eq := rfl
  outline_eq := rfl
  live := by simp
  placed? := fun {handle entry} hplaced _ => by
    rw [hplaced, Placed.mapOperands_eq_self fun operand _ => clearing_nil _ operand]
  block? := fun {function index block} hblock => ⟨[], by simp [hblock], by simp, by simp⟩
  generation := by simp

theorem uses_of_uses_clearing {function : FunctionId} {operand : Operand}
    (huses : (program.clearing gone function operand).uses handle = true) :
    operand.uses handle = true := by
  unfold clearing at huses
  split at huses
  · split at huses
    · cases huses
    · exact huses
  · exact huses

/-- One more result is cleared in its function. -/
theorem replacing_clearing (hplaced : program.placed? handle = some entry) (gone : List Handle)
    (operand : Operand) :
    replacing handle .success (program.clearing gone entry.function operand) =
      program.clearing (gone ++ [handle]) entry.function operand := by
  cases operand with
  | result used =>
      have hhere := functionOf?_of_placed? hplaced
      by_cases hgone : used ∈ gone ∧ program.functionOf? used = some entry.function
      · simp [clearing, Operand.handle?, hgone, replacing, Operand.uses, Operand.success]
      · by_cases hused : used = handle
        · subst hused
          have hstays : used ∉ gone := fun hmem => hgone ⟨hmem, hhere⟩
          simp [clearing, Operand.handle?, hstays, hhere, replacing, Operand.uses]
        · simp [clearing, Operand.handle?, hgone, hused, replacing, Operand.uses]
  | _ => rfl

theorem clearing_concat_of_ne (hplaced : program.placed? handle = some entry) (gone : List Handle)
    {function : FunctionId} (hne : entry.function ≠ function) (operand : Operand) :
    program.clearing (gone ++ [handle]) function operand =
      program.clearing gone function operand := by
  cases operand with
  | result used =>
      have hhere := functionOf?_of_placed? hplaced
      by_cases hused : used = handle
      · simp [clearing, Operand.handle?, hused, hhere, hne]
      · simp [clearing, Operand.handle?, hused]
  | _ => rfl

/-- What is left after some calls and then one more were taken out. -/
theorem rewrite_mapOperands_clearing (hplaced : program.placed? handle = some entry)
    (gone : List Handle) (found : Placed) :
    (found.mapOperands (program.clearing gone found.function)).rewrite entry.function
        (replacing handle .success) =
      found.mapOperands (program.clearing (gone ++ [handle]) found.function) := by
  rw [Placed.rewrite_eq]
  by_cases hfunction : found.function = entry.function
  · rw [if_pos (show (found.mapOperands _).function = _ from hfunction),
      Placed.mapOperands_mapOperands, hfunction]
    simp only [replacing_clearing hplaced]
  · rw [if_neg (show ¬ (found.mapOperands _).function = _ from hfunction)]
    have hsame : program.clearing (gone ++ [handle]) found.function =
        program.clearing gone found.function :=
      funext fun operand => clearing_concat_of_ne hplaced gone (Ne.symm hfunction) operand
    rw [hsame]

/-- A slot cannot come back to its generation in one step. -/
theorem succ_mod_generationLimit_ne (generation : Nat) :
    (generation + 1) % Slot.generationLimit ≠ generation := by
  rw [show Slot.generationLimit = 4294967296 from rfl]
  omega

/-- A handle whose slot has moved on is not the one that is given out next. -/
theorem nextHandle_ne_of_generation (hfree : program.FreeListExact)
    (hgeneration : (program.occupancy handle.slot).map Prod.fst =
      some ((handle.generation + 1) % Slot.generationLimit)) : program.nextHandle ≠ handle := by
  rintro rfl
  rcases slot_nextHandle hfree with hempty | ⟨hnone, -⟩
  · simp only [occupancy, hempty, Option.map_some, Option.some.injEq] at hgeneration
    exact succ_mod_generationLimit_ne _ hgeneration.symm
  · simp [occupancy, hnone] at hgeneration

theorem filter_not_mem_concat (handles gone : List Handle) (handle : Handle) :
    (handles.filter (· ∉ gone)).filter (· != handle) = handles.filter (· ∉ gone ++ [handle]) := by
  rw [List.filter_filter]
  refine List.filter_congr fun other _ => ?_
  by_cases hother : other = handle <;> simp [hother]

private theorem filter_bne_of_not_mem {handles : List Handle} (hnot : handle ∉ handles) :
    handles.filter (· != handle) = handles :=
  List.filter_eq_self.mpr fun _ hmem => bne_iff_ne.mpr fun heq => hnot (heq ▸ hmem)

namespace Cleared

variable (hcleared : before.Cleared between gone)
include hcleared

/-- Erased handles name nothing any more. -/
theorem placed?_of_mem (hmem : handle ∈ gone) : between.placed? handle = none := by
  rw [Option.eq_none_iff_forall_ne_some]
  intro entry hplaced
  have hgeneration := hcleared.generation handle hmem
  rw [occupancy_of_placed? hplaced] at hgeneration
  exact succ_mod_generationLimit_ne handle.generation (Option.some.inj hgeneration).symm

theorem nextHandle_not_mem : between.nextHandle ∉ gone := fun hmem =>
  nextHandle_ne_of_generation hcleared.consistent.toFreeListExact (hcleared.generation _ hmem) rfl

/-- The next handle is new to the program at the start, too. -/
theorem placed?_nextHandle : before.placed? between.nextHandle = none := by
  rw [Option.eq_none_iff_forall_ne_some]
  intro entry hplaced
  have hstill := hcleared.placed? hplaced hcleared.nextHandle_not_mem
  rw [Program.placed?_nextHandle hcleared.consistent.toFreeListExact] at hstill
  cases hstill

/-- The branches that were put in are not affected by further removals. -/
theorem placed?_takeOut_of_mem {function : FunctionId} {index : BlockId} {tail : List Handle}
    (htail : tail.map between.placed? = (gone.filterMap (before.branchOf? function index)).map some)
    {current : Placed} (hcurrent : between.placed? handle = some current) {new : Handle}
    (hmem : new ∈ tail) (hne : new ≠ handle) :
    (between.takeOut handle current).placed? new = between.placed? new := by
  have hlisted :
      between.placed? new ∈ (gone.filterMap (before.branchOf? function index)).map some :=
    htail ▸ List.mem_map_of_mem hmem
  obtain ⟨branch, hbranch, hnew⟩ := List.mem_map.mp hlisted
  obtain ⟨other, -, hother⟩ := List.mem_filterMap.mp hbranch
  obtain ⟨entry, -, hbranch⟩ := Option.bind_eq_some_iff.mp hother
  obtain ⟨-, -, hoperands⟩ := Placed.of_branch? hbranch
  rw [placed?_takeOut_of_placed? hcleared.consistent hcurrent hnew.symm hne, ← hnew,
    Placed.rewrite_eq]
  split
  · rw [Placed.mapOperands_eq_self (by simp [hoperands])]
  · rfl

omit hcleared in
theorem not_mem_tail (hplaced : before.placed? handle = some entry) {tail : List Handle}
    (hfresh : ∀ new ∈ tail, before.placed? new = none) : handle ∉ tail := by
  intro hmem
  rw [hfresh handle hmem] at hplaced
  cases hplaced

section Blocks

variable {current : Placed} {function : FunctionId} {index : BlockId} {block : Block}
  {tail : List Handle} (hplaced : before.placed? handle = some entry)
  (hcurrent : between.placed? handle = some current)
  (hlisted : between.block? function index =
    some { block with handles := block.handles.filter (· ∉ gone) ++ tail })
  (htail : tail.map between.placed? = (gone.filterMap (before.branchOf? function index)).map some)
  (hfresh : ∀ new ∈ tail, before.placed? new = none)
include hplaced hcurrent htail hfresh

theorem map_placed?_tail :
    tail.map (between.takeOut handle current).placed? = tail.map between.placed? := by
  have hnot := not_mem_tail hplaced hfresh
  refine List.map_congr_left fun new hmem => ?_
  exact hcleared.placed?_takeOut_of_mem htail hcurrent hmem fun heq => hnot (heq ▸ hmem)

include hlisted

/-- The block of the call loses it, and goes on with a branch if the call was an invoke. -/
theorem block?_takeOut_here
    (hsame : current = entry.mapOperands (before.clearing gone entry.function))
    (hhere : entry.function = function ∧ entry.block = index) :
    ∃ grown, (between.takeOut handle current).block? function index =
        some { block with handles := block.handles.filter (· ∉ gone ++ [handle]) ++ grown } ∧
      grown.map (between.takeOut handle current).placed? =
        ((gone ++ [handle]).filterMap (before.branchOf? function index)).map some ∧
      ∀ new ∈ grown, before.placed? new = none := by
  have hplace : current.function = function ∧ current.block = index := by rwa [hsame]
  have hgained : before.branchOf? function index handle = current.branch? := by
    rw [branchOf?_of_placed? hplaced, if_pos hhere, hsame, Placed.branch?_mapOperands]
  have hgrown : ∀ new ∈ tail ++ between.branchHandles current.branch?,
      before.placed? new = none := by
    intro new hmem
    rcases List.mem_append.mp hmem with hmem | hmem
    · exact hfresh new hmem
    · rw [eq_nextHandle_of_mem_branchHandles hmem, hcleared.placed?_nextHandle]
  refine ⟨tail ++ between.branchHandles current.branch?, ?_, ?_, hgrown⟩
  · rw [Program.block?_takeOut, hlisted, Option.map_some, if_pos hplace]
    have hhandles :=
      calc ((block.handles.filter (· ∉ gone) ++ tail) ++
              between.branchHandles current.branch?).filter (· != handle)
        _ = (block.handles.filter (· ∉ gone)).filter (· != handle) ++
              (tail ++ between.branchHandles current.branch?).filter (· != handle) := by
            rw [List.append_assoc, List.filter_append]
        _ = block.handles.filter (· ∉ gone ++ [handle]) ++
              (tail ++ between.branchHandles current.branch?) := by
            rw [filter_not_mem_concat, filter_bne_of_not_mem (not_mem_tail hplaced hgrown)]
    exact congrArg (fun handles => some { block with handles }) hhandles
  · calc (tail ++ between.branchHandles current.branch?).map
          (between.takeOut handle current).placed?
      _ = (gone.filterMap (before.branchOf? function index)).map some ++
            current.branch?.toList.map some := by
          rw [List.map_append, hcleared.map_placed?_tail hplaced hcurrent htail hfresh, htail,
            map_placed?_branchHandles hcleared.consistent hcurrent]
      _ = ((gone ++ [handle]).filterMap (before.branchOf? function index)).map some := by
          rw [List.filterMap_append, List.map_append, ← hgained]
          cases hbranch : before.branchOf? function index handle <;> simp [hbranch]

/-- Every other block stays. -/
theorem block?_takeOut_elsewhere (hbefore : before.Consistent)
    (hblock : before.block? function index = some block)
    (hsame : current = entry.mapOperands (before.clearing gone entry.function))
    (hhere : ¬ (entry.function = function ∧ entry.block = index)) :
    (between.takeOut handle current).block? function index =
        some { block with handles := block.handles.filter (· ∉ gone ++ [handle]) ++ tail } ∧
      tail.map (between.takeOut handle current).placed? =
        ((gone ++ [handle]).filterMap (before.branchOf? function index)).map some := by
  have hplace : ¬ (current.function = function ∧ current.block = index) := by rwa [hsame]
  have hnone : before.branchOf? function index handle = none := by
    rw [branchOf?_of_placed? hplaced, if_neg hhere]
  constructor
  · -- the call is listed by its own block alone
    have hnot : handle ∉ block.handles := by
      intro hmem
      obtain ⟨instruction, hfound⟩ := (hbefore.mem_block_iff hblock handle).mp hmem
      rw [hplaced, Option.some.injEq] at hfound
      exact hhere (by simp [hfound])
    have hall : (block.handles.filter (· ∉ gone)).filter (· != handle) =
        block.handles.filter (· ∉ gone) :=
      filter_bne_of_not_mem fun hmem => hnot (List.mem_of_mem_filter hmem)
    rw [Program.block?_takeOut, hlisted, Option.map_some, if_neg hplace, ← filter_not_mem_concat,
      hall]
  · rw [hcleared.map_placed?_tail hplaced hcurrent htail hfresh, htail, List.filterMap_append]
    simp [hnone]

end Blocks

theorem block?_takeOut (hbefore : before.Consistent) (hplaced : before.placed? handle = some entry)
    {current : Placed} (hcurrent : between.placed? handle = some current)
    (hsame : current = entry.mapOperands (before.clearing gone entry.function))
    {function : FunctionId} {index : BlockId} {block : Block}
    (hblock : before.block? function index = some block) :
    ∃ tail, (between.takeOut handle current).block? function index =
        some { block with handles := block.handles.filter (· ∉ gone ++ [handle]) ++ tail } ∧
      tail.map (between.takeOut handle current).placed? =
        ((gone ++ [handle]).filterMap (before.branchOf? function index)).map some ∧
      ∀ new ∈ tail, before.placed? new = none := by
  obtain ⟨tail, hlisted, htail, hfresh⟩ := hcleared.block? hblock
  by_cases hhere : entry.function = function ∧ entry.block = index
  · exact hcleared.block?_takeOut_here hplaced hcurrent hlisted htail hfresh hsame hhere
  · obtain ⟨hafter, hkept⟩ := hcleared.block?_takeOut_elsewhere hplaced hcurrent hlisted htail
      hfresh hbefore hblock hsame hhere
    exact ⟨tail, hafter, hkept, hfresh⟩

/-- Taking out one more call. -/
theorem takeOut (hbefore : before.Consistent) (hplaced : before.placed? handle = some entry)
    (hstays : handle ∉ gone) {current : Placed} (hcurrent : between.placed? handle = some current) :
    before.Cleared (between.takeOut handle current) (gone ++ [handle]) := by
  have hsame : current = entry.mapOperands (before.clearing gone entry.function) :=
    Option.some.inj (hcurrent.symm.trans (hcleared.placed? hplaced hstays))
  have consistent := hcleared.consistent
  refine ⟨consistent_takeOut consistent hcurrent, ?_, ?_, ?_, ?_, ?_, ?_⟩
  · rw [name_takeOut, hcleared.name_eq]
  · rw [outline_takeOut, hcleared.outline_eq]
  · intro other hmem
    rcases List.mem_append.mp hmem with hmem | hmem
    · exact hcleared.live other hmem
    · rw [List.mem_singleton.mp hmem]
      exact ⟨entry, hplaced⟩
  · intro other found hother hnot
    rw [List.mem_append, not_or, List.mem_singleton] at hnot
    rw [placed?_takeOut_of_placed? consistent hcurrent (hcleared.placed? hother hnot.1) hnot.2,
      hsame]
    exact congrArg some (rewrite_mapOperands_clearing hplaced gone found)
  · exact fun hblock => hcleared.block?_takeOut hbefore hplaced hcurrent hsame hblock
  · intro other hmem
    rcases List.mem_append.mp hmem with hmem | hmem
    · -- two live handles of one slot are the same, so the slot is another one
      have hslot : other.slot ≠ handle.slot := by
        intro hslot
        obtain ⟨found, hfound⟩ := hcleared.live other hmem
        exact hstays (eq_of_placed?_of_slot hplaced hfound hslot ▸ hmem)
      rw [generation_takeOut consistent hcurrent _ (hcleared.generation other hmem), if_neg hslot]
    · rw [List.mem_singleton.mp hmem]
      have hoccupied := occupancy_of_placed? hcurrent
      rw [generation_takeOut consistent hcurrent _ (by rw [hoccupied]; rfl), if_pos rfl]

/-! ### What follows -/

/-- Whatever is live was there before or is a branch that took over. -/
theorem cases_of_placed? (hbefore : before.Consistent) {found : Placed}
    (hfound : between.placed? handle = some found) :
    (∃ entry, before.placed? handle = some entry ∧ handle ∉ gone ∧
      found = entry.mapOperands (before.clearing gone entry.function)) ∨
    ∃ entry : Placed, entry.branch? = some found := by
  obtain ⟨block, hblock, hmem⟩ := hcleared.consistent.listed hfound
  obtain ⟨old, hold⟩ := exists_block?_of_outline hcleared.outline_eq hblock
  obtain ⟨tail, hlisted, htail, -⟩ := hcleared.block? hold
  obtain rfl := Option.some.inj (hlisted.symm.trans hblock)
  rcases List.mem_append.mp hmem with hmem | hmem
  · obtain ⟨hlisted, hstays⟩ := List.mem_filter.mp hmem
    have hstays : handle ∉ gone := by simpa using hstays
    obtain ⟨instruction, hplaced⟩ := (hbefore.mem_block_iff hold handle).mp hlisted
    have hstill := hcleared.placed? hplaced hstays
    exact Or.inl ⟨_, hplaced, hstays, Option.some.inj (hfound.symm.trans hstill)⟩
  · have hbranch : between.placed? handle ∈
        (gone.filterMap (before.branchOf? found.function found.block)).map some :=
      htail ▸ List.mem_map_of_mem hmem
    obtain ⟨branch, hbranch, hsame⟩ := List.mem_map.mp hbranch
    obtain ⟨other, -, hother⟩ := List.mem_filterMap.mp hbranch
    obtain ⟨entry, -, hentry⟩ := Option.bind_eq_some_iff.mp hother
    obtain rfl : branch = found := Option.some.inj (hsame.trans hfound)
    exact Or.inr ⟨entry, hentry⟩

/-- A result that nothing read is still unread. -/
theorem useCount_eq_zero (hbefore : before.Consistent)
    (hplaced : before.placed? handle = some entry)
    (hunused : before.useCount handle = .ok 0) (hstays : handle ∉ gone) :
    between.useCount handle = .ok 0 := by
  rw [useCount_eq_zero_iff hbefore hplaced] at hunused
  refine (useCount_eq_zero_iff hcleared.consistent (hcleared.placed? hplaced hstays)).mpr ?_
  intro reader found hfound hsame
  rcases hcleared.cases_of_placed? hbefore hfound with ⟨old, hold, -, rfl⟩ | ⟨old, hbranch⟩
  · have hzero := List.countP_eq_zero.mp (hunused reader old hold hsame)
    refine List.countP_eq_zero.mpr fun operand hoperand => ?_
    obtain ⟨former, hformer, rfl⟩ := List.mem_map.mp
      (Operation.operands_mapOperands _ old.instruction.operation ▸ hoperand)
    exact fun huses => hzero former hformer (uses_of_uses_clearing huses)
  · simp [Operation.useCount, (Placed.of_branch? hbranch).2.2]

/-- An instruction that nothing reads and that ends no block can be erased. -/
theorem exists_erase (hbefore : before.Consistent) (hplaced : before.placed? handle = some entry)
    (hunused : before.useCount handle = .ok 0) (hbranch : entry.branch? = none)
    (hstays : handle ∉ gone) :
    ∃ instruction after, erase handle between = .ok instruction after ∧
      before.Cleared after (gone ++ [handle]) := by
  have hcurrent := hcleared.placed? hplaced hstays
  have hstill := hcleared.useCount_eq_zero hbefore hplaced hunused hstays
  refine ⟨_, _, erase_of_unused hcurrent hstill, ?_⟩
  have hafter := hcleared.takeOut hbefore hplaced hstays hcurrent
  rw [Program.takeOut, Placed.branch?_mapOperands, hbranch] at hafter
  simp only [appendBranch] at hafter
  rwa [rewriteFunction_of_unused hcleared.consistent hcurrent hstill, eraseEntry_rewrite] at hafter

/-- A captured call that was not taken out is still as it was captured. -/
theorem intact {site : CallSite} (hintact : site.Intact before) (hstays : site.handle ∉ gone) :
    site.Intact between := by
  obtain ⟨entry, hplaced, hfunction, hshape⟩ := hintact
  refine ⟨_, hcleared.placed? hplaced hstays, hfunction, ?_⟩
  exact (Operation.shape_mapOperands ..).trans hshape

end Cleared

/-! ## Terminated programs -/

/-- The branch that a block gains: if what ended it was an invoke and is taken out, the branch to
its normal continuation. -/
def exitBranch? (program : Program) (gone : List Handle) (block : Block) : Option Placed :=
  ((block.last?.filter (· ∈ gone)).bind program.placed?).bind Placed.branch?

/-- Only an instruction that ends its block is followed by a branch. -/
theorem exits?_of_branch? {branch : Placed} (hbranch : entry.branch? = some branch) :
    entry.instruction.operation.exits? ≠ none := by
  obtain ⟨normal, hnormal, -⟩ := Option.map_eq_some_iff.mp hbranch
  cases hoperation : entry.instruction.operation with
  | invoke => exact Option.some_ne_none _
  | _ =>
      rw [hoperation] at hnormal
      cases hnormal

private theorem filterMap_of_unique {gone : List Handle} {read : Handle → Option Placed}
    {last : Handle} (hnodup : gone.Nodup) (hothers : ∀ other, other ≠ last → read other = none) :
    gone.filterMap read = if last ∈ gone then (read last).toList else [] := by
  induction gone with
  | nil => rfl
  | cons first rest ih =>
      rw [List.nodup_cons] at hnodup
      rw [List.filterMap_cons, ih hnodup.2]
      by_cases hfirst : first = last
      · subst hfirst
        rw [if_neg hnodup.1, if_pos (List.mem_cons_self ..)]
        cases read first <;> rfl
      · have hmem : last ∈ first :: rest ↔ last ∈ rest := by simp [Ne.symm hfirst]
        simp only [hothers first hfirst, hmem]

/-- In a terminated program a block gains a branch only for what ended it. -/
theorem Terminated.filterMap_branchOf? (terminated : program.Terminated)
    (consistent : program.Consistent) (hnodup : gone.Nodup) {function : FunctionId}
    {index : BlockId} {block : Block} (hblock : program.block? function index = some block) :
    gone.filterMap (program.branchOf? function index) =
      (program.exitBranch? gone block).toList := by
  obtain ⟨body, last, -, hlist, -⟩ := terminated function index block hblock
  have hlisted : last ∈ block.handles := by simp [hlist]
  obtain ⟨instruction, hplaced⟩ := (consistent.mem_block_iff hblock last).mp hlisted
  have hothers : ∀ other, other ≠ last → program.branchOf? function index other = none := by
    intro other hne
    rw [Option.eq_none_iff_forall_ne_some]
    intro branch hgained
    obtain ⟨entry, hfiltered, hbranch⟩ := Option.bind_eq_some_iff.mp hgained
    obtain ⟨hentry, hhere⟩ := Option.filter_eq_some_iff.mp hfiltered
    obtain ⟨rfl, rfl⟩ : entry.function = function ∧ entry.block = index := by simpa using hhere
    have hother := terminated.last?_eq consistent hentry (exits?_of_branch? hbranch) hblock
    rw [Block.last?, hlist, List.getLast?_concat] at hother
    exact hne (Option.some.inj hother).symm
  -- so at most the last instruction adds a branch, whatever else is taken out
  have hself : program.branchOf? function index last =
      (program.placed? last).bind Placed.branch? := by
    rw [branchOf?_of_placed? hplaced, if_pos ⟨rfl, rfl⟩, hplaced, Option.bind_some]
  rw [filterMap_of_unique hnodup hothers, exitBranch?, Block.last?, hlist,
    List.getLast?_concat, hself]
  by_cases hgone : last ∈ gone <;> simp [Option.filter, hgone]

end Program

end ConcurrencyFaults

import ConcurrencyFaults.Proofs.Arena.Queries
import ConcurrencyFaults.Proofs.Execution

/-!
# What edits come to

On a consistent program every edit either hands the program back untouched, or is one of the changes
of `Layout.lean`, or a composition of them.  The equations of this file say which, with the exact
condition for each outcome; after this file no edit is unfolded any more.

Erasing a result and replacing its uses are told apart by the number of uses in the edits, but not
in the equations: rewriting operands that do not occur changes nothing
(`rewriteFunction_of_unused`), so an unused result can be treated as one whose uses are all
replaced.

For each edit there is one equation for a live handle, or an existing block, and one for each way in
which it is refused:

* `addBlock`, `push`, `insertBefore` and `insertRelative` append or insert an entry;
* `changeInstruction` modifies one, and `replaceAllUses` those that its function lists;
* `erase` takes out an unused entry, and `eraseOrZero` and `replaceWith` are made of these.
-/

namespace ConcurrencyFaults.Program

variable {program : Program} {handle : Handle} {entry : Placed}

/-! ## Functions and blocks -/

theorem addBlock_of_function? {id : FunctionId} {function : Function}
    (hfunction : program.function? id = some function) (label : String) :
    addBlock id label program =
      .ok function.blocks.length (program.appendBlock id function.blocks.length label) := by
  unfold addBlock
  rw [bind_apply_of_ok (Edit.query_apply_of_ok (function_of_function? hfunction))]
  rfl

theorem addBlock_of_unknown {id : FunctionId} (hunknown : program.function? id = none)
    (label : String) : addBlock id label program = .error (.unknownFunction id) program := by
  unfold addBlock
  rw [bind_apply_of_error (Edit.query_apply_of_error (function_of_unknown hunknown))]

/-! ## Overwriting -/

theorem changeInstruction_of_placed? (hplaced : program.placed? handle = some entry)
    (change : Instruction → Instruction) :
    changeInstruction handle change program = .ok () (program.modifyInstruction handle change) := by
  unfold changeInstruction
  rw [bind_apply_of_ok (Edit.query_apply_of_ok (instruction_of_placed? hplaced))]
  rfl

theorem changeInstruction_of_stale (hstale : program.placed? handle = none)
    (change : Instruction → Instruction) :
    changeInstruction handle change program = .error (.staleHandle handle) program := by
  unfold changeInstruction
  rw [bind_apply_of_error (Edit.query_apply_of_error (instruction_of_stale hstale))]

/-! ## Insertion

An insertion stores first and lists then.  Both parts leave alone what the other one changes, which
is why the place of an anchor can be looked up in between. -/

private theorem insertEntry_eq (place : Handle → List Handle → List Handle) :
    (do
      let handle ← modifyGet (·.store entry)
      modify (·.modifyHandles entry.function entry.block (place handle))
      return handle : Edit Handle) program =
      .ok program.nextHandle (program.insertEntry entry place) := by
  rw [bind_apply_of_ok (modifyGet_apply _ program), store_fst]
  rfl

theorem push_of_block? {function : FunctionId} {index : BlockId} {block : Block}
    (hblock : program.block? function index = some block) (instruction : Instruction) :
    push function index instruction program =
      .ok program.nextHandle (program.insertEntry ⟨instruction, function, index⟩
        fun handle handles => handles ++ [handle]) := by
  obtain ⟨found, hfunction, hindex⟩ := block?_eq_some_iff.mp hblock
  unfold push
  rw [bind_apply_of_ok (Edit.query_apply_of_ok (function_of_function? hfunction)), hindex]
  exact insertEntry_eq _

theorem Consistent.pushEntry (consistent : program.Consistent) {function : FunctionId}
    {index : BlockId} {block : Block} (hblock : program.block? function index = some block)
    (instruction : Instruction) :
    (program.insertEntry ⟨instruction, function, index⟩
      fun handle handles => handles ++ [handle]).Consistent :=
  @Consistent.insertEntry program ⟨instruction, function, index⟩ consistent block hblock
    (fun handle handles => handles ++ [handle]) (List.perm_append_singleton _ _)

theorem push_of_unknownFunction {function : FunctionId}
    (hunknown : program.function? function = none) (index : BlockId) (instruction : Instruction) :
    push function index instruction program = .error (.unknownFunction function) program := by
  unfold push
  rw [bind_apply_of_error (Edit.query_apply_of_error (function_of_unknown hunknown))]

theorem push_of_unknownBlock {function : FunctionId} {index : BlockId} {found : Function}
    (hfunction : program.function? function = some found)
    (hunknown : program.block? function index = none) (instruction : Instruction) :
    push function index instruction program = .error (.unknownBlock function index) program := by
  have hindex : found.blocks[index]? = none := by simpa [block?, hfunction] using hunknown
  unfold push
  rw [bind_apply_of_ok (Edit.query_apply_of_ok (function_of_function? hfunction)), hindex]
  rfl

theorem push_of_unknown {function : FunctionId} {index : BlockId}
    (hunknown : program.block? function index = none) (instruction : Instruction) :
    ∃ problem, push function index instruction program = .error problem program := by
  cases hfunction : program.function? function with
  | none => exact ⟨_, push_of_unknownFunction hfunction index instruction⟩
  | some found => exact ⟨_, push_of_unknownBlock hfunction hunknown instruction⟩

/-- Lists a handle directly in front of another. -/
def ahead (anchor inserted : Handle) (handles : List Handle) : List Handle :=
  handles.insertIdx (handles.idxOf anchor) inserted

theorem ahead_append {anchor inserted : Handle} {front back : List Handle}
    (hfirst : anchor ∉ front) :
    ahead anchor inserted (front ++ anchor :: back) = front ++ inserted :: anchor :: back := by
  unfold ahead
  rw [List.idxOf_append_of_notMem hfirst, List.idxOf_cons_self, Nat.add_zero]
  induction front with
  | nil => rfl
  | cons first rest ih =>
      rw [List.mem_cons, not_or] at hfirst
      simpa using ih hfirst.2

theorem ahead_perm (anchor inserted : Handle) (handles : List Handle) :
    (ahead anchor inserted handles).Perm (inserted :: handles) :=
  List.perm_insertIdx inserted handles List.idxOf_le_length

theorem insertBefore_of_placed? (consistent : program.Consistent)
    (hplaced : program.placed? handle = some entry) (instruction : Instruction) :
    insertBefore handle instruction program =
      .ok program.nextHandle
        (program.insertEntry ⟨instruction, entry.function, entry.block⟩ (ahead handle)) := by
  obtain ⟨block, hblock, hmem⟩ := consistent.listed hplaced
  obtain ⟨found, hfunction, hlisted⟩ := block?_eq_some_iff.mp hblock
  obtain ⟨index, hindex⟩ := exists_findIdx? hmem
  let stored := (program.store ⟨instruction, entry.function, entry.block⟩).2
  have hstored : stored.function entry.function = .ok found := by
    apply function_of_function?
    rw [← hfunction]
    exact congrFun (function?_congr functions_store) _
  -- the place of the anchor is looked up before anything is listed
  have hrelisted : stored.modifyHandles entry.function entry.block
      (·.insertIdx index program.nextHandle) =
      program.insertEntry ⟨instruction, entry.function, entry.block⟩ (ahead handle) := by
    refine @modifyHandles_congr stored entry.function entry.block block ?_ _ _ ?_
    · rw [← hblock]
      exact congrFun (congrFun (block?_congr functions_store) _) _
    · have hplace := (List.findIdx?_eq_some_iff_findIdx_eq.mp hindex).2
      rw [ahead, List.idxOf, hplace]
  unfold insertBefore
  rw [bind_apply_of_ok (Edit.query_apply_of_ok (parent_of_placed? hplaced))]
  dsimp only
  rw [bind_apply_of_ok (modifyGet_apply _ program), store_fst,
    bind_apply_of_ok (Edit.query_apply_of_ok hstored)]
  simp only [hlisted, Block.position?, hindex]
  exact congrArg _ hrelisted

theorem insertBefore_of_stale (hstale : program.placed? handle = none) (instruction : Instruction) :
    insertBefore handle instruction program = .error (.staleHandle handle) program := by
  unfold insertBefore
  rw [bind_apply_of_error (Edit.query_apply_of_error (parent_of_stale hstale))]

/-- A relative insertion is one in front of a live instruction of the same function. -/
theorem insertRelative_of_placed? (consistent : program.Consistent)
    (hplaced : program.placed? handle = some entry) (instruction : Instruction) (steps : Nat) :
    ∃ anchor target clamped, program.placed? anchor = some target ∧
      target.function = entry.function ∧
      insertRelative handle instruction steps program =
        .ok (program.nextHandle, clamped)
          (program.insertEntry ⟨instruction, target.function, target.block⟩ (ahead anchor)) := by
  obtain ⟨step, target, hstep, htarget, hsame⟩ :=
    exists_step consistent hplaced (min steps longestWalk : Nat)
  refine ⟨step.target, target, step.clamped, htarget, hsame, ?_⟩
  unfold insertRelative
  rw [bind_apply_of_ok (Edit.query_apply_of_ok hstep),
    bind_apply_of_ok (insertBefore_of_placed? consistent htarget instruction)]
  rfl

theorem insertRelative_of_stale (hstale : program.placed? handle = none)
    (instruction : Instruction) (steps : Nat) :
    insertRelative handle instruction steps program = .error (.staleHandle handle) program := by
  unfold insertRelative
  rw [bind_apply_of_error (Edit.query_apply_of_error (step_of_stale hstale _))]

/-! ## Uses

The loop that replaces uses reads, rewrites and counts one instruction at a time.  Its equation is
stated for any list of live handles without repetition; only then is the list the one of a
function. -/

/-- What replacing the uses of a result by `value` does to an operand. -/
def replacing (handle : Handle) (value : Operand) : Operand → Operand := fun operand =>
  if operand.uses handle then value else operand

/-- Rewriting one instruction does not change what others read. -/
private theorem usesAt_modifyInstruction {reader : Handle}
    (hplaced : program.placed? reader = some entry) (change : Instruction → Instruction)
    {readers : List Handle} (hnot : reader ∉ readers) :
    (program.modifyInstruction reader change).usesAt readers handle =
      program.usesAt readers handle := by
  unfold usesAt
  congr 1
  refine List.flatMap_congr fun other hother => ?_
  have hne : other ≠ reader := fun heq => hnot (heq ▸ hother)
  simp [instruction?, placed?_modifyInstruction hplaced, hne]

/-- Reader by reader, the uses of a result are replaced and counted. -/
theorem replaceAllUses_loop (value : Operand) {readers : List Handle}
    (hlive : ∀ reader ∈ readers, ∃ entry, program.placed? reader = some entry)
    (hnodup : readers.Nodup) (count : Nat) :
    (readers.foldlM (fun count reader => do
      let instruction ← Edit.query (·.instruction reader)
      setOperation reader (instruction.operation.replaceUses handle value)
      return count + instruction.operation.useCount handle) count : Edit Nat) program =
      .ok (count + program.usesAt readers handle)
        (program.rewriteAt (replacing handle value) readers) := by
  -- on the readers that are left; none is visited twice, so each still reads what it read
  induction readers generalizing program count with
  | nil => rfl
  | cons reader rest ih =>
      rw [List.nodup_cons] at hnodup
      obtain ⟨entry, hplaced⟩ := hlive reader (List.mem_cons_self ..)
      let rewritten := program.modifyInstruction reader fun instruction =>
        instruction.withOperation (instruction.operation.mapOperands (replacing handle value))
      have hset : setOperation reader (entry.instruction.operation.replaceUses handle value)
          program = .ok () rewritten := calc
        _ = EStateM.Result.ok () (program.modifyInstruction reader
            (·.withOperation (entry.instruction.operation.replaceUses handle value))) :=
          changeInstruction_of_placed? hplaced _
        _ = EStateM.Result.ok () rewritten :=
          congrArg (EStateM.Result.ok ()) (modifyInstruction_congr hplaced rfl)
      have hstep : (do
          let instruction ← Edit.query (·.instruction reader)
          setOperation reader (instruction.operation.replaceUses handle value)
          return count + instruction.operation.useCount handle : Edit Nat) program =
          .ok (count + entry.instruction.operation.useCount handle) rewritten := by
        rw [bind_apply_of_ok (Edit.query_apply_of_ok (instruction_of_placed? hplaced)),
          bind_apply_of_ok hset]
        rfl
      have hrest : ∀ later ∈ rest, ∃ entry, rewritten.placed? later = some entry := by
        intro later hlater
        obtain ⟨found, hfound⟩ := hlive later (List.mem_cons_of_mem _ hlater)
        have hne : later ≠ reader := fun heq => hnodup.1 (heq ▸ hlater)
        exact ⟨found, by rw [placed?_modifyInstruction hplaced, Function.update_of_ne hne, hfound]⟩
      have hcount : program.usesAt (reader :: rest) handle =
          entry.instruction.operation.useCount handle + rewritten.usesAt rest handle := calc
        _ = entry.instruction.operation.useCount handle + program.usesAt rest handle :=
          usesAt_cons hplaced rest handle
        _ = entry.instruction.operation.useCount handle + rewritten.usesAt rest handle := by
          rw [usesAt_modifyInstruction hplaced _ hnodup.1]
      rw [List.foldlM_cons, bind_apply_of_ok hstep, ih hrest hnodup.2, hcount, Nat.add_assoc]
      rfl

/-- While a function lists live instructions alone, and none of them twice, replacing all uses of a
result in it counts the operands that read it. -/
theorem replaceAllUses_of_live (hplaced : program.placed? handle = some entry) {function : Function}
    (hfunction : program.function? entry.function = some function)
    (hlive : ∀ reader ∈ function.handles, ∃ entry, program.placed? reader = some entry)
    (hnodup : function.handles.Nodup) (value : Operand) :
    replaceAllUses handle value program =
      .ok (program.usesAt function.handles handle)
        (program.rewriteAt (replacing handle value) function.handles) := by
  unfold replaceAllUses
  rw [bind_apply_of_ok (Edit.query_apply_of_ok (parent_of_placed? hplaced))]
  dsimp only
  rw [bind_apply_of_ok (Edit.query_apply_of_ok (handlesOf_of_function? hfunction)),
    replaceAllUses_loop value hlive hnodup, Nat.zero_add]

/-- Replacing all uses of a live result rewrites the function that holds it, and counts the operands
that read it. -/
theorem replaceAllUses_of_useCount (consistent : program.Consistent)
    (hplaced : program.placed? handle = some entry) {uses : Nat}
    (huses : program.useCount handle = .ok uses) (value : Operand) :
    replaceAllUses handle value program =
      .ok uses (program.rewriteFunction entry.function (replacing handle value)) := by
  obtain ⟨function, hfunction, -⟩ := consistent.function_of_placed hplaced
  rw [useCount_of_placed? consistent hplaced hfunction, Except.ok.injEq] at huses
  rw [replaceAllUses_of_live hplaced hfunction (live_of_mem_function consistent hfunction)
    (consistent.nodup_function hfunction), rewriteFunction, hfunction, huses]
  rfl

theorem replaceAllUses_of_placed? (consistent : program.Consistent)
    (hplaced : program.placed? handle = some entry) (value : Operand) :
    ∃ uses, replaceAllUses handle value program =
      .ok uses (program.rewriteFunction entry.function (replacing handle value)) := by
  obtain ⟨uses, huses⟩ := exists_useCount consistent hplaced
  exact ⟨uses, replaceAllUses_of_useCount consistent hplaced huses value⟩

theorem replaceAllUses_of_stale (hstale : program.placed? handle = none) (value : Operand) :
    replaceAllUses handle value program = .error (.staleHandle handle) program := by
  unfold replaceAllUses
  rw [bind_apply_of_error (Edit.query_apply_of_error (parent_of_stale hstale))]

/-- Where no operand is changed, rewriting some instructions changes nothing. -/
private theorem rewriteAt_eq_self {change : Operand → Operand} {readers : List Handle}
    (hfixed : ∀ reader ∈ readers, ∀ entry, program.placed? reader = some entry →
      entry.instruction.operation.mapOperands change = entry.instruction.operation) :
    program.rewriteAt change readers = program := by
  induction readers with
  | nil => rfl
  | cons reader rest ih =>
      have hsame : (program.modifyInstruction reader fun instruction =>
          instruction.withOperation (instruction.operation.mapOperands change)) = program := by
        cases hplaced : program.placed? reader with
        | none => exact modifyInstruction_of_stale hplaced _
        | some entry =>
            refine modifyInstruction_eq_self hplaced ?_
            rw [hfixed reader (List.mem_cons_self ..) entry hplaced]
            rfl
      rw [rewriteAt, List.foldl_cons, hsame]
      exact ih fun later hlater => hfixed later (List.mem_cons_of_mem _ hlater)

theorem rewriteFunction_of_unused (consistent : program.Consistent)
    (hplaced : program.placed? handle = some entry) (hunused : program.useCount handle = .ok 0)
    (value : Operand) :
    program.rewriteFunction entry.function (replacing handle value) = program := by
  obtain ⟨function, hfunction, -⟩ := consistent.function_of_placed hplaced
  rw [rewriteFunction, hfunction]
  refine rewriteAt_eq_self fun reader hreader found hfound => ?_
  have hsame : found.function = entry.function := by
    obtain ⟨other, hother, hsame⟩ := consistent.placed_of_mem_function hfunction hreader
    rw [Option.some.inj (hfound.symm.trans hother), hsame]
  have hzero := (useCount_eq_zero_iff consistent hplaced).mp hunused reader found hfound hsame
  exact Operation.replaceUses_of_useCount_eq_zero hzero value

theorem placed?_rewriteFunction_of_placed? (consistent : program.Consistent)
    (hplaced : program.placed? handle = some entry) (function : FunctionId)
    (change : Operand → Operand) :
    (program.rewriteFunction function change).placed? handle =
      some (entry.rewrite function change) := by
  rw [placed?_rewriteFunction consistent, hplaced, Option.map_some]

/-- Once all uses of a result are replaced by something else, it has none. -/
theorem useCount_rewriteAt (hplaced : program.placed? handle = some entry) {function : Function}
    (hfunction : program.function? entry.function = some function)
    (hlive : ∀ reader ∈ function.handles, ∃ entry, program.placed? reader = some entry)
    (hnodup : function.handles.Nodup) {value : Operand} (hvalue : value.uses handle = false) :
    (program.rewriteAt (replacing handle value) function.handles).useCount handle = .ok 0 := by
  have hafter (reader : Handle) :
      (program.rewriteAt (replacing handle value) function.handles).placed? reader =
        (program.placed? reader).map fun entry =>
          if reader ∈ function.handles then entry.rewrite entry.function (replacing handle value)
          else entry :=
    placed?_rewriteAt _ hnodup reader
  -- the instruction itself may be among its readers, but it stays in its function
  obtain ⟨found, hfound, hsame⟩ : ∃ found,
      (program.rewriteAt (replacing handle value) function.handles).placed? handle = some found ∧
        found.function = entry.function := by
    refine ⟨_, (hafter handle).trans (congrArg _ hplaced), ?_⟩
    split
    · exact Placed.function_rewrite ..
    · rfl
  have hstays : (program.rewriteAt (replacing handle value) function.handles).function?
      found.function = some function := by
    rw [hsame, function?, functions_rewriteAt]
    exact hfunction
  rw [useCount_of_live hfound hstays, usesAt_eq_zero_iff.mpr]
  · intro reader hreader later hlater
    rw [hafter, Option.map_eq_some_iff] at hlater
    obtain ⟨old, -, rfl⟩ := hlater
    rw [if_pos hreader, Placed.rewrite, if_pos rfl]
    exact Operation.useCount_replaceUses hvalue
  · intro reader hreader
    obtain ⟨old, hold⟩ := hlive reader hreader
    exact ⟨_, (hafter reader).trans (congrArg _ hold)⟩

theorem useCount_rewriteFunction (consistent : program.Consistent)
    (hplaced : program.placed? handle = some entry) {value : Operand}
    (hvalue : value.uses handle = false) :
    (program.rewriteFunction entry.function (replacing handle value)).useCount handle = .ok 0 := by
  obtain ⟨function, hfunction, -⟩ := consistent.function_of_placed hplaced
  rw [rewriteFunction, hfunction]
  exact useCount_rewriteAt hplaced hfunction (live_of_mem_function consistent hfunction)
    (consistent.nodup_function hfunction) hvalue

theorem useCount_insertEntry (consistent : program.Consistent)
    (hplaced : program.placed? handle = some entry) (hunused : program.useCount handle = .ok 0)
    {inserted : Placed} (hinserted : inserted.instruction.operation.useCount handle = 0)
    {place : Handle → List Handle → List Handle}
    (hafter : (program.insertEntry inserted place).Consistent) :
    (program.insertEntry inserted place).useCount handle = .ok 0 := by
  have hfree := consistent.toFreeListExact
  have hupdate := @placed?_insertEntry program inserted hfree place
  have hlive := placed?_insertEntry_of_placed? hfree hplaced inserted place
  rw [useCount_eq_zero_iff consistent hplaced] at hunused
  rw [useCount_eq_zero_iff hafter hlive]
  intro reader found hfound hsame
  rw [hupdate] at hfound
  by_cases hreader : reader = program.nextHandle
  · rw [hreader, Function.update_self, Option.some.injEq] at hfound
    exact hfound ▸ hinserted
  · rw [Function.update_of_ne hreader] at hfound
    exact hunused reader found hfound hsame

/-! ## Removal

`erase` asks for the uses before anything is changed, so a refused removal leaves the program as it
is. -/

theorem erase_of_unused (hplaced : program.placed? handle = some entry)
    (hunused : program.useCount handle = .ok 0) :
    erase handle program = .ok entry.instruction (program.eraseEntry handle entry) := by
  have hrelisted : (program.modifyHandles entry.function entry.block
      (·.filter (· != handle))).placed? handle = some entry := hplaced
  unfold erase
  rw [bind_apply_of_ok (Edit.query_apply_of_ok hunused)]
  simp only [Nat.lt_irrefl, if_false, gt_iff_lt]
  rw [bind_apply_of_ok (Edit.query_apply_of_ok (parent_of_placed? hplaced))]
  dsimp only
  rw [bind_apply_of_ok (modify_apply _ program), bind_apply_of_ok (modifyGet_apply _ _),
    release_fst hrelisted]
  rfl

theorem erase_of_used {uses : Nat} (huses : program.useCount handle = .ok uses) (hpos : 0 < uses) :
    erase handle program = .error (.hasUses handle uses) program := by
  unfold erase
  rw [bind_apply_of_ok (Edit.query_apply_of_ok huses), if_pos hpos,
    bind_apply_of_error (throw_apply _ program)]

theorem erase_of_stale (hstale : program.placed? handle = none) :
    erase handle program = .error (.staleHandle handle) program := by
  unfold erase
  rw [bind_apply_of_error (Edit.query_apply_of_error (useCount_of_stale hstale))]

/-- The operand that readers of an erased result are left with. -/
def zeroed (width : Nat) (signed : Bool) : Operand := .constant (Constant.zero width signed)

/-- Whether or not the result was read, its uses are replaced by zero and it is erased; only the
answer tells the two apart. -/
theorem eraseOrZero_of_useCount (consistent : program.Consistent)
    (hplaced : program.placed? handle = some entry) {uses : Nat}
    (huses : program.useCount handle = .ok uses) (width : Nat) (signed : Bool) :
    eraseOrZero handle width signed program =
      .ok (if uses = 0 then .erased else .replaced uses) ((program.rewriteFunction entry.function
        (replacing handle (zeroed width signed))).eraseEntry handle
          (entry.rewrite entry.function (replacing handle (zeroed width signed)))) := by
  unfold eraseOrZero
  rw [bind_apply_of_ok (Edit.query_apply_of_ok huses)]
  by_cases hunused : uses = 0
  · subst hunused
    -- without uses there is nothing to rewrite
    have hsame : (program.rewriteFunction entry.function
        (replacing handle (zeroed width signed))).eraseEntry handle
          (entry.rewrite entry.function (replacing handle (zeroed width signed))) =
        program.eraseEntry handle entry := calc
      _ = program.eraseEntry handle
          (entry.rewrite entry.function (replacing handle (zeroed width signed))) := by
        rw [rewriteFunction_of_unused consistent hplaced huses]
      _ = program.eraseEntry handle entry := eraseEntry_rewrite ..
    rw [hsame, if_pos rfl, if_pos rfl, bind_apply_of_ok (erase_of_unused hplaced huses)]
    rfl
  · have hreplaced := replaceAllUses_of_useCount consistent hplaced huses (zeroed width signed)
    have hafter := placed?_rewriteFunction_of_placed? consistent hplaced entry.function
      (replacing handle (zeroed width signed))
    have hnone := useCount_rewriteFunction consistent hplaced
      (show (zeroed width signed).uses handle = false from rfl)
    rw [if_neg hunused, if_neg hunused]
    refine (bind_apply_of_ok hreplaced _).trans ?_
    rw [bind_apply_of_ok (erase_of_unused hafter hnone)]
    rfl

theorem eraseOrZero_of_placed? (consistent : program.Consistent)
    (hplaced : program.placed? handle = some entry) (width : Nat) (signed : Bool) :
    ∃ removal, eraseOrZero handle width signed program =
      .ok removal ((program.rewriteFunction entry.function
        (replacing handle (zeroed width signed))).eraseEntry handle
          (entry.rewrite entry.function (replacing handle (zeroed width signed)))) := by
  obtain ⟨uses, huses⟩ := exists_useCount consistent hplaced
  exact ⟨_, eraseOrZero_of_useCount consistent hplaced huses width signed⟩

/-- What is left when an instruction is erased, after its uses were redirected. -/
theorem placed?_eraseEntry_rewrite (consistent : program.Consistent)
    (hplaced : program.placed? handle = some entry) (change : Operand → Operand) {other : Handle}
    (hne : other ≠ handle) :
    ((program.rewriteFunction entry.function change).eraseEntry handle
      (entry.rewrite entry.function change)).placed? other =
        (program.placed? other).map (Placed.rewrite entry.function change) := by
  rw [placed?_eraseEntry_of_ne (placed?_rewriteFunction_of_placed? consistent hplaced _ _) hne,
    placed?_rewriteFunction consistent]

theorem eraseOrZero_of_stale (hstale : program.placed? handle = none) (width : Nat)
    (signed : Bool) : eraseOrZero handle width signed program = .error (.staleHandle handle) program
    := by
  unfold eraseOrZero
  rw [bind_apply_of_error (Edit.query_apply_of_error (useCount_of_stale hstale))]

/-! ## Replacement

The new instruction is inserted ahead of the old one, the uses are redirected and the old one is
erased, which cannot be refused then: nothing reads it any more.  The equation does not ask whether
the new instruction reads the old one; such an operand is redirected, too. -/

/-- The program after an instruction took the place of another, the readers of which are left with
`value`. -/
def substituteEntry (program : Program) (old : Handle) (entry : Placed) (new : Instruction)
    (value : Operand) : Program :=
  ((program.insertEntry ⟨new, entry.function, entry.block⟩ (ahead old)).rewriteFunction
    entry.function (replacing old value)).eraseEntry old
      (entry.rewrite entry.function (replacing old value))

theorem Consistent.insertAhead (consistent : program.Consistent)
    (hplaced : program.placed? handle = some entry) (instruction : Instruction) :
    (program.insertEntry ⟨instruction, entry.function, entry.block⟩ (ahead handle)).Consistent := by
  obtain ⟨block, hblock, -⟩ := consistent.listed hplaced
  exact @Consistent.insertEntry program ⟨instruction, entry.function, entry.block⟩ consistent block
    hblock (ahead handle) (ahead_perm handle _ _)

/-- The old instruction is still there when its uses are replaced. -/
theorem placed?_rewriteFunction_insertAhead (consistent : program.Consistent)
    (hplaced : program.placed? handle = some entry) (new : Instruction) (value : Operand) :
    ((program.insertEntry ⟨new, entry.function, entry.block⟩ (ahead handle)).rewriteFunction
      entry.function (replacing handle value)).placed? handle =
        some (entry.rewrite entry.function (replacing handle value)) :=
  placed?_rewriteFunction_of_placed? (consistent.insertAhead hplaced new)
    (placed?_insertEntry_of_placed? consistent.toFreeListExact hplaced _ _) _ _

theorem placed?_substituteEntry (consistent : program.Consistent)
    (hplaced : program.placed? handle = some entry) (new : Instruction) (value : Operand)
    {other : Handle} (hne : other ≠ handle) :
    (program.substituteEntry handle entry new value).placed? other =
      ((program.insertEntry ⟨new, entry.function, entry.block⟩ (ahead handle)).placed? other).map
        (Placed.rewrite entry.function (replacing handle value)) :=
  placed?_eraseEntry_rewrite (consistent.insertAhead hplaced new)
    (placed?_insertEntry_of_placed? consistent.toFreeListExact hplaced _ _) _ hne

theorem replaceWith_of_placed? (consistent : program.Consistent)
    (hplaced : program.placed? handle = some entry) (new : Instruction) :
    replaceWith handle new program =
      .ok program.nextHandle
        (program.substituteEntry handle entry new (.result program.nextHandle)) := by
  have hfree := consistent.toFreeListExact
  have hinserted := consistent.insertAhead hplaced new
  have hlive := placed?_insertEntry_of_placed? hfree hplaced
    ⟨new, entry.function, entry.block⟩ (ahead handle)
  have hvalue : (Operand.result program.nextHandle).uses handle = false := by
    simp [Operand.uses, (ne_nextHandle hfree hplaced).symm]
  obtain ⟨uses, huses⟩ := replaceAllUses_of_placed? hinserted hlive (.result program.nextHandle)
  have hafter := placed?_rewriteFunction_insertAhead consistent hplaced new
    (.result program.nextHandle)
  have hnone := useCount_rewriteFunction hinserted hlive hvalue
  unfold replaceWith
  rw [bind_apply_of_ok (insertBefore_of_placed? consistent hplaced new), bind_apply_of_ok huses,
    bind_apply_of_ok (erase_of_unused hafter hnone)]
  rfl

theorem replaceWith_of_stale (hstale : program.placed? handle = none) (new : Instruction) :
    replaceWith handle new program = .error (.staleHandle handle) program := by
  unfold replaceWith
  rw [bind_apply_of_error (insertBefore_of_stale hstale new)]

end ConcurrencyFaults.Program

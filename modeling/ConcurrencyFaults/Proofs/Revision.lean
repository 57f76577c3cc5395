import ConcurrencyFaults.Proofs.Termination

/-!
# Revisions

What the rest of a run relies on after an edit is little: the program is consistent, it is
terminated if it was, and the instructions that the edit was not about are where they were, with
other operands at most.  `Kept` states the first and the last, `Revised` all three; `gone` lists the
instructions that an edit was about.  The second half of the file takes the compositions of changes
that operators make and shows that each is a revision, by opening the block it works on.

## Strategy

That nothing else is lost follows change by change, from the `kept_…` lemmas and `Kept.trans`.
Termination does not: a composition may pass through a program with two terminators in a block.  So
for termination

* the block in question is opened at the instruction (`Terminated.opened`), which shows the list of
  its instructions together with where control goes from each;
* every change is followed on that list (`Open.ahead`, `Open.push`, `Open.rewrite`, `Open.erase`);
* the block is closed (`Open.close`) once the list is ended by a single terminator again.
-/

namespace ConcurrencyFaults.Program

variable {program before after : Program} {handle : Handle} {entry : Placed} {gone : List Handle}

/-! ## What an edit leaves alone

`Alike` disregards operands, since uses of a result may be replaced anywhere in its function.
-/

/-- The same instruction up to its operands, in the same function. -/
def Alike (entry other : Placed) : Prop :=
  other.function = entry.function ∧
    other.instruction.operation.shape = entry.instruction.operation.shape

/-- All instructions but some are still there. -/
structure Kept (before after : Program) (gone : List Handle) : Prop where
  consistent : after.Consistent
  alike : ∀ {handle entry}, before.placed? handle = some entry → handle ∉ gone →
    ∃ found, after.placed? handle = some found ∧ Alike entry found

theorem Kept.refl (consistent : program.Consistent) (gone : List Handle) :
    Kept program program gone :=
  ⟨consistent, fun hplaced _ => ⟨_, hplaced, rfl, rfl⟩⟩

/-- The second of two edits may also be about instructions that the first inserted. -/
theorem Kept.trans {between : Program} {later : List Handle} (hfirst : Kept before between gone)
    (hsecond : Kept between after later)
    (hlater : ∀ handle ∈ later, handle ∈ gone ∨ before.placed? handle = none) :
    Kept before after gone := by
  refine ⟨hsecond.consistent, fun {handle entry} hplaced hnot => ?_⟩
  obtain ⟨found, hfound, hfunction, hshape⟩ := hfirst.alike hplaced hnot
  -- what the second edit is about was either given up before or is new
  have hstays : handle ∉ later := by
    intro hmem
    rcases hlater handle hmem with hgone | hnone
    · exact hnot hgone
    · rw [hplaced] at hnone
      cases hnone
  obtain ⟨last, hlast, hlastFunction, hlastShape⟩ := hsecond.alike hfound hstays
  exact ⟨last, hlast, hlastFunction.trans hfunction, hlastShape.trans hshape⟩

theorem Kept.mono {more : List Handle} (hkept : Kept before after gone) (hmore : gone ⊆ more) :
    Kept before after more :=
  ⟨hkept.consistent, fun hplaced hnot => hkept.alike hplaced fun hmem => hnot (hmore hmem)⟩

theorem kept_insertEntry (consistent : program.Consistent)
    {place : Handle → List Handle → List Handle}
    (hafter : (program.insertEntry entry place).Consistent) :
    Kept program (program.insertEntry entry place) [] := by
  refine ⟨hafter, fun {handle found} hplaced _ => ⟨found, ?_, rfl, rfl⟩⟩
  exact placed?_insertEntry_of_placed? consistent.toFreeListExact hplaced entry place

theorem kept_eraseEntry (consistent : program.Consistent)
    (hplaced : program.placed? handle = some entry) :
    Kept program (program.eraseEntry handle entry) [handle] := by
  refine ⟨consistent.eraseEntry hplaced, fun {other found} hother hne => ⟨found, ?_, rfl, rfl⟩⟩
  rw [List.mem_singleton] at hne
  rw [placed?_eraseEntry_of_ne hplaced hne, hother]

theorem kept_rewriteFunction (consistent : program.Consistent) (function : FunctionId)
    (change : Operand → Operand) :
    Kept program (program.rewriteFunction function change) [] := by
  refine ⟨consistent.rewriteFunction function change, fun {handle found} hplaced _ => ?_⟩
  exact ⟨_, placed?_rewriteFunction_of_placed? consistent hplaced function change,
    Placed.function_rewrite .., Placed.shape_rewrite ..⟩

/-! ## Revisions

First the changes that leave the ends of blocks alone: declaring, overwriting an instruction by one
with the same continuations, inserting and erasing instructions that do not end a block.
-/

/-- Besides, a terminated program stays terminated. -/
structure Revised (before after : Program) (gone : List Handle) : Prop
    extends Kept before after gone where
  terminated : before.Terminated → after.Terminated

theorem Revised.refl (consistent : program.Consistent) (gone : List Handle) :
    Revised program program gone :=
  ⟨Kept.refl consistent gone, fun h => h⟩

theorem Revised.trans {between : Program} {later : List Handle}
    (hfirst : Revised before between gone) (hsecond : Revised between after later)
    (hlater : ∀ handle ∈ later, handle ∈ gone ∨ before.placed? handle = none) :
    Revised before after gone :=
  ⟨hfirst.toKept.trans hsecond.toKept hlater, fun h => hsecond.terminated (hfirst.terminated h)⟩

theorem Revised.mono {more : List Handle} (hrevised : Revised before after gone)
    (hmore : gone ⊆ more) : Revised before after more :=
  ⟨hrevised.toKept.mono hmore, hrevised.terminated⟩

theorem revised_getOrDeclare (consistent : program.Consistent) (name : String) (result : Ty)
    (parameters : List Ty) :
    Revised program (program.getOrDeclare name result parameters).2 [] := by
  refine ⟨⟨consistent.getOrDeclare name result parameters, fun {handle found} hplaced _ => ?_⟩, ?_⟩
  · exact ⟨found, by rw [placed?_getOrDeclare, hplaced], rfl, rfl⟩
  · intro terminated
    rcases program.getOrDeclare_cases name result parameters with hsame | hadded
    · rwa [hsame]
    · rw [hadded]
      exact terminated.congr (block?_addFunction ..) rfl

/-- An instruction may be overwritten as long as control goes from it where it went. -/
theorem revised_modifyInstruction {change : Instruction → Instruction}
    (consistent : program.Consistent) (hplaced : program.placed? handle = some entry)
    (hexits : (change entry.instruction).operation.exits? = entry.instruction.operation.exits?) :
    Revised program (program.modifyInstruction handle change) [handle] := by
  refine ⟨⟨consistent.modifyInstruction handle change, fun {other found} hother hne => ?_⟩, ?_⟩
  · rw [List.mem_singleton] at hne
    exact ⟨found, by rw [placed?_modifyInstruction hplaced, Function.update_of_ne hne, hother],
      rfl, rfl⟩
  · exact fun terminated => terminated.congr (block?_congr (functions_modifyInstruction _))
      (exits?_modifyInstruction hplaced hexits)

/-- Nothing is gone if even the shape of the instruction is the same. -/
theorem revised_modifyInstruction_of_shape {change : Instruction → Instruction}
    (consistent : program.Consistent) (hplaced : program.placed? handle = some entry)
    (hshape : (change entry.instruction).operation.shape = entry.instruction.operation.shape) :
    Revised program (program.modifyInstruction handle change) [] := by
  have hrevised := revised_modifyInstruction consistent hplaced
    (Operation.exits?_eq_of_shape_eq hshape)
  refine ⟨⟨hrevised.consistent, fun {other found} hother _ => ?_⟩, hrevised.terminated⟩
  by_cases heq : other = handle
  · subst heq
    obtain rfl : entry = found := Option.some.inj (hplaced.symm.trans hother)
    refine ⟨{ entry with instruction := change entry.instruction }, ?_, rfl, hshape⟩
    rw [placed?_modifyInstruction hplaced, Function.update_self]
  · exact hrevised.alike hother (by simpa using heq)

/-- An instruction that does not end a block may be put in front of any other. -/
theorem revised_insertAhead (consistent : program.Consistent)
    (hplaced : program.placed? handle = some entry) {instruction : Instruction}
    (hexits : instruction.operation.exits? = none) :
    Revised program
      (program.insertEntry ⟨instruction, entry.function, entry.block⟩ (ahead handle)) [] := by
  refine ⟨kept_insertEntry consistent (consistent.insertAhead hplaced instruction), ?_⟩
  intro terminated
  obtain ⟨front, back, opened, hended⟩ := terminated.opened consistent hplaced
  have hopened := @Open.ahead _ _ _ _ _ _ _ opened instruction (by simp [hexits])
  refine hopened.close ?_
  rw [List.map_append, List.map_cons] at hended
  rw [hexits, List.map_append, List.map_cons, List.map_cons]
  exact hended.insert

/-- Inserting such an instruction leaves its anchor where it is. -/
theorem exists_insertBefore (consistent : program.Consistent)
    (hplaced : program.placed? handle = some entry) {instruction : Instruction}
    (hexits : instruction.operation.exits? = none) :
    ∃ after, insertBefore handle instruction program = .ok program.nextHandle after ∧
      Revised program after [] ∧ after.placed? handle = some entry ∧
      after.placed? program.nextHandle = some ⟨instruction, entry.function, entry.block⟩ := by
  have hfree := consistent.toFreeListExact
  refine ⟨_, insertBefore_of_placed? consistent hplaced instruction,
    revised_insertAhead consistent hplaced hexits,
    placed?_insertEntry_of_placed? hfree hplaced _ _, ?_⟩
  rw [placed?_insertEntry hfree, Function.update_self]

/-- An instruction that does not end its block may be erased. -/
theorem revised_eraseEntry (consistent : program.Consistent)
    (hplaced : program.placed? handle = some entry)
    (hexits : entry.instruction.operation.exits? = none) :
    Revised program (program.eraseEntry handle entry) [handle] := by
  refine ⟨kept_eraseEntry consistent hplaced, fun terminated => ?_⟩
  obtain ⟨front, back, opened, hended⟩ := terminated.opened consistent hplaced
  refine (opened.erase hplaced).close ?_
  rw [hexits, List.map_append, List.map_cons] at hended
  rw [List.map_append]
  exact hended.erase

theorem revised_rewriteFunction (consistent : program.Consistent) (function : FunctionId)
    (change : Operand → Operand) :
    Revised program (program.rewriteFunction function change) [] :=
  ⟨kept_rewriteFunction consistent function change, fun terminated =>
    terminated.congr (block?_congr (functions_rewriteFunction _ _))
      (exits?_rewriteFunction consistent _ _)⟩

theorem revised_eraseEntry_rewrite (consistent : program.Consistent)
    (hplaced : program.placed? handle = some entry)
    (hexits : entry.instruction.operation.exits? = none) (function : FunctionId)
    (change : Operand → Operand) :
    Revised program ((program.rewriteFunction function change).eraseEntry handle
      (entry.rewrite function change)) [handle] := by
  have hrewritten := revised_rewriteFunction consistent function change
  have hlive := placed?_rewriteFunction_of_placed? consistent hplaced function change
  refine (hrewritten.mono (List.nil_subset [handle])).trans
    (revised_eraseEntry hrewritten.consistent hlive ?_) fun _ hmem => Or.inl hmem
  rw [Operation.exits?_eq_of_shape_eq (Placed.shape_rewrite function change entry), hexits]

/-! ## Replacing an instruction

The new instruction is put ahead of the old one, takes over its uses, and the old one is erased.  If
both end a block there are two terminators in between, so the three changes are looked at together.
-/

theorem kept_substituteEntry (consistent : program.Consistent)
    (hplaced : program.placed? handle = some entry) (new : Instruction) (value : Operand) :
    Kept program (program.substituteEntry handle entry new value) [handle] := by
  have hinserted := kept_insertEntry consistent (consistent.insertAhead hplaced new)
  have hrewritten := kept_rewriteFunction hinserted.consistent entry.function
    (replacing handle value)
  have hlive := placed?_rewriteFunction_insertAhead consistent hplaced new value
  exact ((hinserted.trans hrewritten (by simp)).mono (List.nil_subset [handle])).trans
    (kept_eraseEntry hrewritten.consistent hlive) fun _ hmem => Or.inl hmem

theorem placed?_substituteEntry_nextHandle (consistent : program.Consistent)
    (hplaced : program.placed? handle = some entry) (new : Instruction) (value : Operand) :
    (program.substituteEntry handle entry new value).placed? program.nextHandle =
      some (Placed.rewrite entry.function (replacing handle value)
        ⟨new, entry.function, entry.block⟩) := by
  have hne := ne_nextHandle consistent.toFreeListExact hplaced
  rw [placed?_substituteEntry consistent hplaced new value hne.symm,
    placed?_insertEntry consistent.toFreeListExact, Function.update_self, Option.map_some]

/-- In an opened block the new instruction stands where the old one stood. -/
theorem Open.substitute {function : FunctionId} {index : BlockId}
    {front back : List (Handle × Option (List BlockId))} {exit : Option (List BlockId)}
    (opened : program.Open function index (front ++ (handle, exit) :: back))
    (hplaced : program.placed? handle = some entry) {new : Instruction}
    (htargets : ∀ targets, new.operation.exits? = some targets →
      ∀ target ∈ targets, (program.block? function target).isSome) (value : Operand) :
    (program.substituteEntry handle entry new value).Open function index
      (front ++ (program.nextHandle, new.operation.exits?) :: back) := by
  obtain ⟨instruction, hfound⟩ := opened.placed?
    (show (handle, exit) ∈ front ++ (handle, exit) :: back by simp)
  obtain rfl : entry = ⟨instruction, function, index⟩ :=
    Option.some.inj (hplaced.symm.trans hfound)
  have hlive := placed?_rewriteFunction_insertAhead opened.consistent hplaced new value
  have hinserted := (opened.ahead htargets).rewrite function (replacing handle value)
  -- the new instruction now belongs to what stands in front
  rw [List.append_cons] at hinserted ⊢
  exact hinserted.erase hlive

/-- An instruction may give way to one from which control goes where it went. -/
theorem revised_substituteEntry (consistent : program.Consistent)
    (hplaced : program.placed? handle = some entry) {new : Instruction}
    (hexits : new.operation.exits? = entry.instruction.operation.exits?) (value : Operand) :
    Revised program (program.substituteEntry handle entry new value) [handle] := by
  refine ⟨kept_substituteEntry consistent hplaced new value, fun terminated => ?_⟩
  obtain ⟨front, back, opened, hended⟩ := terminated.opened consistent hplaced
  have htargets := opened.targets (handle, entry.instruction.operation.exits?) (by simp)
  refine (opened.substitute hplaced (fun targets hsome => ?_) value).close ?_
  · exact htargets targets (hexits ▸ hsome)
  · simpa [hexits] using hended

/-! ## Dissolving an invoke

An invoke ends its block.  When a call or nothing takes its place a branch has to end the block
instead; depending on the operator this branch is pushed to the end of the block or inserted ahead
of the invoke, in both cases before the invoke is erased.
-/

/-- A branch at the end of a block. -/
def pushBranch (program : Program) (entry : Placed) (target : BlockId)
    (location : Option Location) : Program :=
  program.insertEntry ⟨{ operation := .branch target, location }, entry.function, entry.block⟩
    fun handle handles => handles ++ [handle]

theorem kept_pushBranch (consistent : program.Consistent)
    (hplaced : program.placed? handle = some entry) (target : BlockId)
    (location : Option Location) : Kept program (program.pushBranch entry target location) [] := by
  obtain ⟨block, hblock, -⟩ := consistent.listed hplaced
  exact kept_insertEntry consistent (consistent.pushEntry hblock _)

theorem placed?_pushBranch (consistent : program.Consistent)
    (hplaced : program.placed? handle = some entry) (target : BlockId)
    (location : Option Location) :
    (program.pushBranch entry target location).placed? handle = some entry :=
  placed?_insertEntry_of_placed? consistent.toFreeListExact hplaced _ _

/-- After the branch a terminator stands next to last, behind instructions that do not end the
block. -/
theorem Terminated.opened_pushBranch (terminated : program.Terminated)
    (consistent : program.Consistent) (hplaced : program.placed? handle = some entry)
    {targets : List BlockId} (hexits : entry.instruction.operation.exits? = some targets)
    {target : BlockId} (htarget : target ∈ targets) (location : Option Location) :
    ∃ front, (∀ exit ∈ front.map Prod.snd, exit = none) ∧
      (program.pushBranch entry target location).Open entry.function entry.block
        (front ++ [(handle, some targets), (program.nextHandle, some [target])]) := by
  obtain ⟨front, back, opened, hended⟩ := terminated.opened consistent hplaced
  rw [hexits] at opened hended
  rw [List.map_append, List.map_cons] at hended
  obtain ⟨hback, hfront⟩ := hended.of_exits
  -- a terminator is last, so the branch comes directly behind it
  obtain rfl : back = [] := List.map_eq_nil_iff.mp hback
  refine ⟨front, hfront, ?_⟩
  have hexist := opened.targets (handle, some targets) (by simp) targets rfl target htarget
  have hpushed := @Open.push _ _ _ _ opened { operation := .branch target, location }
    fun exits hsome other hother => by
      obtain rfl : [target] = exits := Option.some.inj hsome
      obtain rfl : other = target := List.mem_singleton.mp hother
      exact hexist
  rwa [List.append_assoc] at hpushed

theorem ended_snoc {front : List (Handle × Option (List BlockId))} {handle : Handle}
    {targets : List BlockId} (hfront : ∀ exit ∈ front.map Prod.snd, exit = none) :
    Ended ((front ++ [(handle, some targets)]).map Prod.snd) := by
  rw [List.map_append]
  exact ended_append hfront (ended_singleton targets)

/-- An invoke may be erased behind a branch to one of its continuations. -/
theorem revised_eraseEntry_pushBranch (consistent : program.Consistent)
    (hplaced : program.placed? handle = some entry) {targets : List BlockId}
    (hexits : entry.instruction.operation.exits? = some targets) {target : BlockId}
    (htarget : target ∈ targets) (location : Option Location) (function : FunctionId)
    (change : Operand → Operand) :
    Revised program (((program.pushBranch entry target location).rewriteFunction function
      change).eraseEntry handle (entry.rewrite function change)) [handle] := by
  have hpushed := kept_pushBranch consistent hplaced target location
  have hrewritten := kept_rewriteFunction hpushed.consistent function change
  have hlive := placed?_rewriteFunction_of_placed? hpushed.consistent
    (placed?_pushBranch consistent hplaced target location) function change
  constructor
  · exact ((hpushed.trans hrewritten (by simp)).mono (List.nil_subset [handle])).trans
      (kept_eraseEntry hrewritten.consistent hlive) fun _ hmem => Or.inl hmem
  · intro terminated
    obtain ⟨front, hfront, opened⟩ :=
      terminated.opened_pushBranch consistent hplaced hexits htarget location
    exact ((opened.rewrite function change).erase hlive).close (ended_snoc hfront)

/-- An invoke may give way to an instruction that does not end the block and a branch to one of its
continuations. -/
theorem revised_substituteEntry_pushBranch (consistent : program.Consistent)
    (hplaced : program.placed? handle = some entry) {targets : List BlockId}
    (hexits : entry.instruction.operation.exits? = some targets) {target : BlockId}
    (htarget : target ∈ targets) (location : Option Location) {new : Instruction}
    (hnew : new.operation.exits? = none) (value : Operand) :
    Revised program ((program.pushBranch entry target location).substituteEntry handle entry new
      value) [handle] := by
  have hpushed := kept_pushBranch consistent hplaced target location
  have hlive := placed?_pushBranch consistent hplaced target location
  constructor
  · exact (hpushed.mono (List.nil_subset [handle])).trans
      (kept_substituteEntry hpushed.consistent hlive new value) fun _ hmem => Or.inl hmem
  · intro terminated
    obtain ⟨front, hfront, opened⟩ :=
      terminated.opened_pushBranch consistent hplaced hexits htarget location
    have hnone : ∀ targets, new.operation.exits? = some targets → ∀ target' ∈ targets,
        ((program.pushBranch entry target location).block? entry.function target').isSome := by
      simp [hnew]
    have hsubstituted := opened.substitute hlive hnone value
    rw [List.append_cons] at hsubstituted
    -- the block now ends with the branch, and the new instruction belongs to its front
    refine hsubstituted.close (ended_snoc ?_)
    rw [List.map_append, List.map_singleton, hnew]
    intro exit hmem
    rcases List.mem_append.mp hmem with hmem | hmem
    · exact hfront exit hmem
    · exact List.mem_singleton.mp hmem

/-- The branch may as well be put in front of the invoke. -/
theorem revised_eraseEntry_branchAhead (consistent : program.Consistent)
    (hplaced : program.placed? handle = some entry) {targets : List BlockId}
    (hexits : entry.instruction.operation.exits? = some targets) {target : BlockId}
    (htarget : target ∈ targets) (location : Option Location) :
    Revised program ((program.insertEntry
      ⟨{ operation := .branch target, location }, entry.function, entry.block⟩
      (ahead handle)).eraseEntry handle entry) [handle] := by
  have hinserted := kept_insertEntry consistent
    (consistent.insertAhead hplaced { operation := .branch target, location })
  have hlive := placed?_insertEntry_of_placed? consistent.toFreeListExact hplaced
    ⟨{ operation := .branch target, location }, entry.function, entry.block⟩ (ahead handle)
  constructor
  · exact (hinserted.mono (List.nil_subset [handle])).trans
      (kept_eraseEntry hinserted.consistent hlive) fun _ hmem => Or.inl hmem
  · intro terminated
    obtain ⟨front, back, opened, hended⟩ := terminated.opened consistent hplaced
    rw [hexits] at opened hended
    rw [List.map_append, List.map_cons] at hended
    obtain ⟨hback, hfront⟩ := hended.of_exits
    -- nothing stands behind the invoke, so the branch is last once the invoke is gone
    obtain rfl : back = [] := List.map_eq_nil_iff.mp hback
    have hexist := opened.targets (handle, some targets) (by simp) targets rfl target htarget
    have hahead := @Open.ahead _ _ _ _ _ _ _ opened { operation := .branch target, location }
      fun exits hsome other hother => by
        obtain rfl : [target] = exits := Option.some.inj hsome
        obtain rfl : other = target := List.mem_singleton.mp hother
        exact hexist
    rw [List.append_cons] at hahead
    refine (hahead.erase hlive).close ?_
    rw [List.append_nil]
    exact ended_snoc hfront

end ConcurrencyFaults.Program

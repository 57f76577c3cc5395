import ConcurrencyFaults.Proofs.Relisting

/-!
# Programs that are the same up to the names of their instructions

When an instruction is replaced, the new one receives a handle of its own, and what read the old
result reads the new one.  The program is then what it was but for the names of its instructions and
the contents that were replaced.  `Relocation` says this: blocks list the same instructions under
new names, and each instruction is an edited form of the old one, its operands renamed.  Relocations
compose, and they keep what does not depend on names, such as positions.

## Strategy

Several instructions are replaced one after the other, and after each of them the program is a
relocation of the one at the start, never of the one before: names are always names of handles of
the start, so that a call that was found there can be followed through the run.

* **One replacement is one more name.**  A replacement redirects the uses of `old` within its
  function.  That is renaming by `Function.update names old next` if no other function reads `old`
  (`rewrite_rename`), which `Replaceable` asks for.
* **New instructions stay as they are.**  They read none of the replaced ones, so no name that is
  given out later changes them (`rename_new`, `not_reads_replaced`).
* **Names stay apart.**  `names_eq_iff` says that a handle that was not replaced is the name of
  itself alone; without it, `Function.update` could redirect a use of something else.

`Replacing.substitute` is the step, and `Renewing` adds to it which handles are stale afterwards.
-/

namespace ConcurrencyFaults

/-! ## Renaming -/

/-- The operand under new names. -/
def Operand.rename (names : Handle → Handle) : Operand → Operand
  | .result handle => .result (names handle)
  | operand => operand

/-- The instruction with the results that it reads under new names. -/
def Instruction.rename (names : Handle → Handle) (instruction : Instruction) : Instruction :=
  instruction.withOperation (instruction.operation.mapOperands (Operand.rename names))

/-- The instruction reads the result of another. -/
def Instruction.Reads (instruction : Instruction) (handle : Handle) : Prop :=
  .result handle ∈ instruction.operation.operands

instance (instruction : Instruction) (handle : Handle) : Decidable (instruction.Reads handle) :=
  inferInstanceAs (Decidable (.result handle ∈ instruction.operation.operands))

section Renaming

variable {names later : Handle → Handle} {instruction : Instruction} {operand : Operand}

theorem Operand.rename_rename :
    (operand.rename names).rename later = operand.rename fun handle => later (names handle) := by
  cases operand <;> rfl

theorem Operand.rename_id : operand.rename (fun handle => handle) = operand := by
  cases operand <;> rfl

theorem Operand.rename_eq_self (hfixed : ∀ handle ∈ operand.handle?, names handle = handle) :
    operand.rename names = operand := by
  cases operand with
  | result handle => exact congrArg Operand.result (hfixed handle rfl)
  | _ => rfl

/-- What is read depends on the names of the operands alone. -/
theorem Operation.mapOperands_congr {operation : Operation} {first second : Operand → Operand}
    (hsame : ∀ operand ∈ operation.operands, first operand = second operand) :
    operation.mapOperands first = operation.mapOperands second := by
  have hlist : ∀ {values : List Operand}, (∀ value ∈ values, first value = second value) →
      values.map first = values.map second := List.map_congr_left
  cases operation with
  | call callee arguments | invoke callee arguments =>
      cases callee <;>
        simp_all [mapOperands, operands, Callee.mapOperands, Callee.operands, or_imp, forall_and]
  | ret value => cases value <;> simp_all [mapOperands, operands]
  | other opcode operands type => simp_all [mapOperands, Operation.operands]
  | _ => simp_all [mapOperands, operands]

namespace Instruction

theorem rename_rename :
    (instruction.rename names).rename later =
      instruction.rename fun handle => later (names handle) := by
  simp [rename, withOperation, Operation.mapOperands_mapOperands, Operand.rename_rename]

theorem rename_congr
    (hsame : ∀ operand ∈ instruction.operation.operands,
      operand.rename names = operand.rename later) :
    instruction.rename names = instruction.rename later := by
  rw [rename, rename, Operation.mapOperands_congr hsame]

theorem rename_id : instruction.rename (fun handle => handle) = instruction := by
  rw [rename, Operation.mapOperands_eq_self fun operand _ => Operand.rename_id]
  rfl

theorem rename_eq_self (hfixed : ∀ handle, instruction.Reads handle → names handle = handle) :
    instruction.rename names = instruction := by
  rw [rename, Operation.mapOperands_eq_self fun operand hmem => Operand.rename_eq_self ?_]
  · rfl
  · intro handle hhandle
    cases operand with
    | result used =>
        obtain rfl : used = handle := Option.some.inj hhandle
        exact hfixed used hmem
    | _ => cases hhandle

/-- A name for what the instruction does not read is no concern of it. -/
theorem rename_update_of_not_reads {old : Handle} (hunread : ¬ instruction.Reads old)
    (next : Handle) :
    instruction.rename (Function.update names old next) = instruction.rename names := by
  refine rename_congr fun operand hoperand => ?_
  cases operand with
  | result used =>
      have hused : used ≠ old := fun hsame => hunread (hsame ▸ hoperand)
      exact congrArg Operand.result (Function.update_of_ne hused ..)
  | _ => rfl

theorem reads_rename_iff {handle : Handle} :
    (instruction.rename names).Reads handle ↔
      ∃ used, instruction.Reads used ∧ names used = handle := by
  simp only [Reads, rename, withOperation, Operation.operands_mapOperands, List.mem_map]
  constructor
  · rintro ⟨operand, hmem, hrename⟩
    cases operand with
    | result used => exact ⟨used, hmem, Operand.result.inj hrename⟩
    | _ => cases hrename
  · rintro ⟨used, hmem, rfl⟩
    exact ⟨_, hmem, rfl⟩

end Instruction

end Renaming

namespace Program

variable {program before between after : Program} {handle other : Handle} {entry found : Placed}

/-! ## Replacing an instruction -/

/-- An inserted handle takes the place of the one that it was inserted ahead of. -/
theorem filter_ahead {handles : List Handle} {old new : Handle} (hnodup : handles.Nodup)
    (hmem : old ∈ handles) (hne : new ≠ old) :
    (ahead old new handles).filter (· != old) = handles.map (Function.update id old new) := by
  obtain ⟨front, back, rfl⟩ := List.append_of_mem hmem
  obtain ⟨-, hback, hdisjoint⟩ := List.nodup_append'.mp hnodup
  have hfront : old ∉ front := fun h => hdisjoint h (List.mem_cons_self ..)
  have hback : old ∉ back := (List.nodup_cons.mp hback).1
  -- a part without the old handle is neither filtered nor renamed
  have hkept : ∀ {part : List Handle}, old ∉ part →
      part.filter (· != old) = part.map (Function.update id old new) := by
    intro part hnot
    have hall : ∀ listed ∈ part, listed ≠ old := fun listed hlisted heq => hnot (heq ▸ hlisted)
    calc part.filter (· != old)
        = part := List.filter_eq_self.mpr fun listed hlisted => by simpa using hall listed hlisted
      _ = part.map id := (List.map_id part).symm
      _ = part.map (Function.update id old new) :=
          List.map_congr_left fun listed hlisted =>
            (Function.update_of_ne (hall listed hlisted) ..).symm
  calc (ahead old new (front ++ old :: back)).filter (· != old)
      = (front ++ new :: old :: back).filter (· != old) := by rw [ahead_append hfront]
    _ = front.filter (· != old) ++ new :: back.filter (· != old) := by
        rw [List.filter_append, List.filter_cons_of_pos (by simpa using hne),
          List.filter_cons_of_neg (by simp)]
    _ = (front ++ old :: back).map (Function.update id old new) := by
        rw [List.map_append, List.map_cons, Function.update_self, hkept hfront, hkept hback]

section SubstituteEntry

variable (consistent : program.Consistent) (hplaced : program.placed? handle = some entry)
  (new : Instruction) (value : Operand)
include consistent hplaced

theorem consistent_substituteEntry : (program.substituteEntry handle entry new value).Consistent :=
  ((consistent.insertAhead hplaced new).rewriteFunction _ _).eraseEntry
    (placed?_rewriteFunction_insertAhead consistent hplaced new value)

theorem placed?_substituteEntry_of_ne (hfound : program.placed? other = some found)
    (hne : other ≠ handle) :
    (program.substituteEntry handle entry new value).placed? other =
      some (found.rewrite entry.function (replacing handle value)) := by
  rw [placed?_substituteEntry consistent hplaced new value hne,
    placed?_insertEntry_of_placed? consistent.toFreeListExact hfound, Option.map_some]

/-- Each block lists the new instruction where it listed the old one. -/
theorem block?_substituteEntry {function : FunctionId} {index : BlockId} {block : Block}
    (hblock : program.block? function index = some block) :
    (program.substituteEntry handle entry new value).block? function index =
      some { block with
        handles := block.handles.map (Function.update id handle program.nextHandle) } := by
  have hrewritten := block?_congr (@functions_rewriteFunction
    (program.insertEntry ⟨new, entry.function, entry.block⟩ (ahead handle)) entry.function
    (replacing handle value))
  have hnew := ne_nextHandle consistent.toFreeListExact hplaced
  unfold substituteEntry
  rw [block?_congr functions_eraseEntry, block?_modifyHandles, hrewritten, Placed.function_rewrite,
    Placed.block_rewrite, block?_congr (functions_insertEntry _), block?_modifyHandles, hblock,
    Option.map_some, Option.map_some]
  by_cases hhere : entry.function = function ∧ entry.block = index
  · have hmem : handle ∈ block.handles :=
      (consistent.mem_block_iff hblock handle).mpr ⟨entry.instruction, by
        rw [hplaced, ← hhere.1, ← hhere.2]⟩
    rw [if_pos hhere, if_pos hhere,
      filter_ahead (consistent.nodup_block hblock) hmem hnew.symm]
  · have hnot : ∀ listed ∈ block.handles, listed ≠ handle := by
      rintro listed hlisted rfl
      obtain ⟨instruction, hfound⟩ := (consistent.mem_block_iff hblock listed).mp hlisted
      rw [hplaced, Option.some.injEq] at hfound
      exact hhere (by simp [hfound])
    have hsame : block.handles.map (Function.update id handle program.nextHandle) =
        block.handles :=
      calc block.handles.map (Function.update id handle program.nextHandle)
          = block.handles.map id :=
            List.map_congr_left fun listed hlisted => Function.update_of_ne (hnot listed hlisted) ..
        _ = block.handles := List.map_id block.handles
    rw [if_neg hhere, if_neg hhere, hsame]

omit consistent hplaced in
theorem outline_substituteEntry :
    (program.substituteEntry handle entry new value).outline = program.outline := by
  unfold substituteEntry
  rw [outline_eraseEntry, outline_rewriteFunction, outline_insertEntry]

omit consistent hplaced in
theorem name_substituteEntry :
    (program.substituteEntry handle entry new value).name = program.name := by
  unfold substituteEntry
  rw [name_eraseEntry, name_rewriteFunction, name_insertEntry]

/-- The slot of the replaced instruction moves on by one generation, and no other slot does. -/
theorem generation_substituteEntry {slot generation : Nat}
    (hslot : (program.occupancy slot).map Prod.fst = some generation) :
    ((program.substituteEntry handle entry new value).occupancy slot).map Prod.fst =
      some (if slot = handle.slot then (handle.generation + 1) % Slot.generationLimit
        else generation) := by
  have hlive := placed?_rewriteFunction_insertAhead consistent hplaced new value
  unfold substituteEntry
  rw [occupancy_eraseEntry hlive, occupancy_rewriteFunction]
  by_cases hsame : slot = handle.slot
  · simp [hsame]
  · rw [Function.update_of_ne hsame, if_neg hsame]
    exact generation_insertEntry consistent.toFreeListExact _ hslot

end SubstituteEntry

/-! ## Relocations -/

/-- The program with its instructions under new names and some of them edited. -/
structure Relocation (before after : Program) (names : Handle → Handle)
    (edit : Handle → Instruction → Instruction) : Prop where
  consistent : after.Consistent
  name_eq : after.name = before.name
  outline_eq : after.outline = before.outline
  /-- Blocks list the same instructions in the same order. -/
  block? : ∀ {function index block}, before.block? function index = some block →
    after.block? function index = some { block with handles := block.handles.map names }
  /-- What an instruction reads has the new names, too. -/
  placed? : ∀ {handle entry}, before.placed? handle = some entry →
    after.placed? (names handle) =
      some { entry with instruction := (edit handle entry.instruction).rename names }

theorem Relocation.refl (consistent : program.Consistent) :
    program.Relocation program (fun handle => handle) fun _ instruction => instruction where
  consistent := consistent
  name_eq := rfl
  outline_eq := rfl
  block? := fun {function index block} hblock => by simpa using hblock
  placed? := fun {handle entry} hplaced => by rw [hplaced, Instruction.rename_id]

namespace Relocation

variable {names later : Handle → Handle} {edit editLater : Handle → Instruction → Instruction}

/-- Relocations compose if the edits do. -/
theorem trans (hfirst : before.Relocation between names edit)
    (hsecond : between.Relocation after later editLater)
    {both : Handle → Instruction → Instruction}
    (hboth : ∀ {handle entry}, before.placed? handle = some entry →
      (editLater (names handle) ((edit handle entry.instruction).rename names)).rename later =
        (both handle entry.instruction).rename fun handle => later (names handle)) :
    before.Relocation after (fun handle => later (names handle)) both where
  consistent := hsecond.consistent
  name_eq := hsecond.name_eq.trans hfirst.name_eq
  outline_eq := hsecond.outline_eq.trans hfirst.outline_eq
  block? := by
    intro function index block hblock
    rw [hsecond.block? (hfirst.block? hblock), List.map_map]
    rfl
  placed? := by
    intro handle entry hplaced
    rw [hsecond.placed? (hfirst.placed? hplaced), ← hboth hplaced]

variable (hrelocation : before.Relocation after names edit) (hbefore : before.Consistent)
include hrelocation

/-- Each handle is listed under its new name. -/
theorem relists : before.Relists after fun handle => [names handle] where
  consistent := hrelocation.consistent
  name_eq := hrelocation.name_eq
  outline_eq := hrelocation.outline_eq
  block? := by
    intro function index block hblock
    rw [hrelocation.block? hblock, List.map_eq_flatMap]

/-- Each function is there as it was, with its instructions under new names. -/
theorem exists_function? {id : FunctionId} {function : Function}
    (hfunction : before.function? id = some function) :
    ∃ now, after.function? id = some now ∧ now.name = function.name ∧
      now.handles = function.handles.map names := by
  obtain ⟨now, hnow, hname, hhandles⟩ := hrelocation.relists.exists_function? hfunction
  exact ⟨now, hnow, hname, by rw [hhandles, List.map_eq_flatMap]⟩

include hbefore

/-- Whatever is there was there before. -/
theorem exists_of_placed? (hplaced : after.placed? handle = some entry) :
    ∃ old former, before.placed? old = some former ∧ names old = handle ∧
      entry = { former with instruction := (edit old former.instruction).rename names } := by
  obtain ⟨block, hblock, hmem⟩ := hrelocation.consistent.listed hplaced
  obtain ⟨former, hformer⟩ := exists_block?_of_outline hrelocation.outline_eq hblock
  obtain rfl := Option.some.inj ((hrelocation.block? hformer).symm.trans hblock)
  obtain ⟨old, hold, rfl⟩ := List.mem_map.mp hmem
  obtain ⟨instruction, hlive⟩ := (hbefore.mem_block_iff hformer old).mp hold
  exact ⟨old, _, hlive, rfl, Option.some.inj (hplaced.symm.trans (hrelocation.placed? hlive))⟩

/-- No two instructions receive the same name. -/
theorem injective (hplaced : before.placed? handle = some entry)
    (hother : before.placed? other = some found) (hsame : names handle = names other) :
    handle = other := by
  have hnow := hrelocation.placed? hplaced
  rw [hsame, hrelocation.placed? hother, Option.some.injEq] at hnow
  obtain ⟨block, hblock, hmem⟩ := hbefore.listed hplaced
  obtain ⟨-, hfunction, hindex⟩ := Placed.mk.inj hnow
  have hotherMem : other ∈ block.handles :=
    (hbefore.mem_block_iff hblock other).mpr
      ⟨found.instruction, by rw [hother, ← hfunction, ← hindex]⟩
  have hnodup := hrelocation.consistent.nodup_block (hrelocation.block? hblock)
  exact List.inj_on_of_nodup_map hnodup hmem hotherMem hsame

/-- Instructions keep their positions. -/
theorem position (hplaced : before.placed? handle = some entry) :
    after.position (names handle) = before.position handle := by
  obtain ⟨function, hfunction, hmem⟩ := hbefore.function_of_placed hplaced
  obtain ⟨now, hnow, -, hhandles⟩ := hrelocation.exists_function? hfunction
  obtain ⟨place, hplace, rfl⟩ := List.mem_iff_getElem.mp hmem
  have hlength : place < now.handles.length := by simpa [hhandles] using hplace
  have hafter := hrelocation.consistent.position_getElem hnow hlength
  simp only [hhandles, List.getElem_map] at hafter
  rw [hafter, hbefore.position_getElem hfunction hplace]

/-- They keep their order, too. -/
theorem precedes (hprecedes : before.Precedes handle other)
    (hplaced : before.placed? handle = some entry) (hother : before.placed? other = some found) :
    after.Precedes (names handle) (names other) := by
  obtain ⟨earlier, later, hearlier, hlater, hlt⟩ := hprecedes
  refine ⟨earlier, later, ?_, ?_, hlt⟩
  · rw [hrelocation.position hbefore hplaced, hearlier]
  · rw [hrelocation.position hbefore hother, hlater]

end Relocation

/-! ## Replacing several instructions -/

/-- What some replacements make of an instruction. -/
def replaced (changes : List (Handle × Instruction)) (handle : Handle)
    (instruction : Instruction) : Instruction :=
  ((changes.find? fun change => change.1 = handle).map Prod.snd).getD instruction

/-- Some instructions were replaced, one after the other, and nothing else has a new name. -/
structure Replacing (start : Program) (changes : List (Handle × Instruction))
    (names : Handle → Handle) (state : Program) : Prop where
  relocation : start.Relocation state names (replaced changes)
  live : ∀ change ∈ changes, ∃ entry, start.placed? change.1 = some entry
  fixed : ∀ handle, handle ∉ changes.map Prod.fst → names handle = handle

/-- Some instructions can be replaced one after the other: they differ, nothing outside its function
reads one of them, and none of the new ones reads one of them. -/
structure Replaceable (start : Program) (changes : List (Handle × Instruction)) : Prop where
  nodup : (changes.map Prod.fst).Nodup
  local_readers : ∀ change ∈ changes, ∃ entry, start.placed? change.1 = some entry ∧
    ∀ reader found, start.placed? reader = some found → found.instruction.Reads change.1 →
      found.function = entry.function
  unread : ∀ change ∈ changes, ∀ other ∈ changes, ¬ change.2.Reads other.1

theorem Replacing.refl (consistent : program.Consistent) :
    Replacing program [] (fun handle => handle) program where
  relocation := Relocation.refl consistent
  live := by simp
  fixed := fun _ _ => rfl

section Replacing

variable {start state : Program} {changes : List (Handle × Instruction)} {names : Handle → Handle}
  {old : Handle} {new : Instruction}

/-! ### What became of an instruction

`replaced` looks a handle up among the replacements.  As no handle is replaced twice, the order of
the replacements does not matter, and one that is appended concerns its own handle alone. -/

theorem find?_replacement_of_not_mem (hnot : old ∉ changes.map Prod.fst) :
    (changes.find? fun change => change.1 = old) = none := by
  refine List.find?_eq_none.mpr fun change hmem => ?_
  simpa using fun heq : change.1 = old => hnot (List.mem_map.mpr ⟨change, hmem, heq⟩)

theorem replaced_of_not_mem (hnot : old ∉ changes.map Prod.fst) (instruction : Instruction) :
    replaced changes old instruction = instruction := by
  rw [replaced, find?_replacement_of_not_mem hnot]
  rfl

theorem replaced_concat (hnot : old ∉ changes.map Prod.fst) (instruction : Instruction) :
    replaced (changes ++ [(old, new)]) handle instruction =
      if handle = old then new else replaced changes handle instruction := by
  unfold replaced
  rw [List.find?_append]
  by_cases hhandle : handle = old
  · subst hhandle
    simp [find?_replacement_of_not_mem hnot]
  · simp [hhandle, Ne.symm hhandle]

/-- What stands where a replaced instruction stood is one of the new ones. -/
theorem mem_of_replaced (changes : List (Handle × Instruction)) (handle : Handle)
    (instruction : Instruction) :
    replaced changes handle instruction = instruction ∨
      (handle, replaced changes handle instruction) ∈ changes := by
  unfold replaced
  cases hfind : changes.find? fun change => change.1 = handle with
  | none => exact Or.inl rfl
  | some change =>
      have hhandle : change.1 = handle := by simpa using List.find?_some hfind
      refine Or.inr ?_
      rw [← hhandle]
      exact List.mem_of_find?_eq_some hfind

theorem replaced_of_mem (hnodup : (changes.map Prod.fst).Nodup) (hmem : (old, new) ∈ changes)
    (instruction : Instruction) : replaced changes old instruction = new := by
  unfold replaced
  cases hfind : changes.find? fun change => change.1 = old with
  | none =>
      have hmissing := List.find?_eq_none.mp hfind (old, new) hmem
      simp at hmissing
  | some change =>
      have hhandle : change.1 = old := by simpa using List.find?_some hfind
      have hsame := List.inj_on_of_nodup_map hnodup (List.mem_of_find?_eq_some hfind) hmem hhandle
      rw [hsame]
      rfl

namespace Replaceable

variable {rest : List (Handle × Instruction)}
  (replaceable : Replaceable start (changes ++ (old, new) :: rest))
include replaceable

theorem not_mem : old ∉ changes.map Prod.fst := by
  have hnodup := replaceable.nodup
  rw [List.map_append, List.map_cons] at hnodup
  exact fun hold => (List.nodup_append'.mp hnodup).2.2 hold (List.mem_cons_self ..)

/-- Neither an instruction of another function nor one that was put in reads what is replaced
next. -/
theorem not_reads_replaced {entry found : Placed} (hplaced : start.placed? old = some entry)
    (hfound : start.placed? handle = some found) (hother : found.function ≠ entry.function) :
    ¬ (replaced changes handle found.instruction).Reads old := by
  have hmem : (old, new) ∈ changes ++ (old, new) :: rest := by simp
  intro hreads
  rcases mem_of_replaced changes handle found.instruction with hsame | hput
  · obtain ⟨former, hformer, hlocal⟩ := replaceable.local_readers _ hmem
    obtain rfl := Option.some.inj (hplaced.symm.trans hformer)
    exact hother (hlocal handle found hfound (hsame ▸ hreads))
  · exact replaceable.unread _ (List.mem_append_left _ hput) _ hmem hreads

end Replaceable

/-! ### One more name

In what follows, `names` are the names after some replacements, `old` is replaced next and `next` is
the handle that it receives. -/

theorem update_comp_names (hnames : ∀ handle, names handle = old ↔ handle = old) (next : Handle) :
    Function.update id old next ∘ names = Function.update names old next := by
  funext handle
  by_cases hhandle : handle = old
  · rw [Function.comp_apply, (hnames handle).mpr hhandle, hhandle, Function.update_self,
      Function.update_self]
  · have hne : names handle ≠ old := fun hsame => hhandle ((hnames handle).mp hsame)
    calc Function.update id old next (names handle)
        = names handle := Function.update_of_ne hne ..
      _ = Function.update names old next handle := (Function.update_of_ne hhandle ..).symm

/-- Renaming one more instruction is replacing its uses. -/
theorem rename_update (hnames : ∀ handle, names handle = old ↔ handle = old) {next : Handle}
    {instruction : Instruction} :
    (instruction.rename names).withOperation ((instruction.rename names).operation.mapOperands
        (Program.replacing old (.result next))) =
      instruction.rename (Function.update names old next) := by
  have hoperand : ∀ operand : Operand, Program.replacing old (.result next) (operand.rename names) =
      operand.rename (Function.update names old next) := by
    intro operand
    cases operand with
    | result used =>
        by_cases hused : used = old
        · subst hused
          simp [Operand.rename, Program.replacing, Operand.uses, (hnames used).mpr rfl]
        · simp [Operand.rename, Program.replacing, Operand.uses, hnames, hused]
    | _ => rfl
  simp [Instruction.rename, Instruction.withOperation, Operation.mapOperands_mapOperands, hoperand]

/-- Replacing the uses of an instruction within its function gives its readers the new name, and
nobody else is in need of it. -/
theorem rewrite_rename (hnames : ∀ handle, names handle = old ↔ handle = old)
    (found : Placed) {function : FunctionId} {instruction : Instruction}
    (hunread : found.function ≠ function → ¬ instruction.Reads old) (next : Handle) :
    ({ found with instruction := instruction.rename names } : Placed).rewrite function
        (Program.replacing old (.result next)) =
      { found with instruction := instruction.rename (Function.update names old next) } := by
  rw [Placed.rewrite_eq]
  by_cases hfunction : found.function = function
  · rw [if_pos hfunction, ← rename_update hnames]
    rfl
  · rw [if_neg hfunction, Instruction.rename_update_of_not_reads (hunread hfunction)]

namespace Replacing

variable (replacing : Replacing start changes names state)
include replacing

/-- What reads none of the replaced instructions is left alone by the new names. -/
theorem rename_new (hunread : ∀ change ∈ changes, ¬ new.Reads change.1) :
    new.rename names = new := by
  refine Instruction.rename_eq_self fun used hreads => replacing.fixed used fun hmem => ?_
  obtain ⟨change, hchange, rfl⟩ := List.mem_map.mp hmem
  exact hunread change hchange hreads

variable (hstart : start.Consistent)
include hstart

/-- A name belongs to an instruction that was not replaced only if it is its own. -/
theorem names_eq_iff (hplaced : start.placed? old = some entry)
    (hnot : old ∉ changes.map Prod.fst) : names handle = old ↔ handle = old := by
  have hold := replacing.fixed old hnot
  constructor
  · intro hnames
    by_cases hmem : handle ∈ changes.map Prod.fst
    · obtain ⟨change, hchange, rfl⟩ := List.mem_map.mp hmem
      obtain ⟨found, hfound⟩ := replacing.live change hchange
      exact replacing.relocation.injective hstart hfound hplaced (hnames.trans hold.symm)
    · rwa [replacing.fixed handle hmem] at hnames
  · rintro rfl
    exact hold

section Substitute

variable {rest : List (Handle × Instruction)}
  (replaceable : Replaceable start (changes ++ (old, new) :: rest))
  (hplaced : start.placed? old = some entry)
include replaceable hplaced

omit hstart in
/-- What is replaced next is still under its own name. -/
theorem placed?_old :
    state.placed? old = some { entry with instruction := entry.instruction.rename names } := by
  have hcurrent := replacing.relocation.placed? hplaced
  rwa [replacing.fixed old replaceable.not_mem, replaced_of_not_mem replaceable.not_mem] at hcurrent

/-- The new instruction stands where the old one stood, and reads itself where it read the old
one. -/
theorem placed?_substitute_new :
    (state.substituteEntry old { entry with instruction := entry.instruction.rename names } new
        (.result state.nextHandle)).placed? state.nextHandle =
      some { entry with
        instruction := new.rename (Function.update names old state.nextHandle) } := by
  have hcurrent := replacing.placed?_old replaceable hplaced
  have hnames : ∀ handle, names handle = old ↔ handle = old := fun _ =>
    replacing.names_eq_iff hstart hplaced replaceable.not_mem
  have hnew : new.rename names = new := replacing.rename_new fun change hchange =>
    replaceable.unread (old, new) (by simp) change (List.mem_append_left _ hchange)
  rw [placed?_substituteEntry_nextHandle replacing.relocation.consistent hcurrent,
    ← rewrite_rename hnames entry fun hother => absurd rfl hother, hnew]

/-- All others stay, and those that read the old instruction read the new one. -/
theorem placed?_substitute_of_ne (hfound : start.placed? handle = some found)
    (hne : handle ≠ old) :
    (state.substituteEntry old { entry with instruction := entry.instruction.rename names } new
        (.result state.nextHandle)).placed? (names handle) =
      some { found with
        instruction := (replaced changes handle found.instruction).rename
          (Function.update names old state.nextHandle) } := by
  have hcurrent := replacing.placed?_old replaceable hplaced
  have hnames : ∀ handle, names handle = old ↔ handle = old := fun _ =>
    replacing.names_eq_iff hstart hplaced replaceable.not_mem
  rw [placed?_substituteEntry_of_ne replacing.relocation.consistent hcurrent _ _
      (replacing.relocation.placed? hfound) fun hsame => hne ((hnames handle).mp hsame),
    rewrite_rename hnames found (replaceable.not_reads_replaced hplaced hfound)]

end Substitute

/-- One more instruction is replaced, by one that receives the next handle. -/
theorem substitute {rest : List (Handle × Instruction)}
    (replaceable : Replaceable start (changes ++ (old, new) :: rest)) :
    ∃ entry, state.placed? old = some entry ∧
      Replacing start (changes ++ [(old, new)]) (Function.update names old state.nextHandle)
        (state.substituteEntry old entry new (.result state.nextHandle)) := by
  obtain ⟨entry, hplaced, -⟩ := replaceable.local_readers (old, new) (by simp)
  have hstate := replacing.relocation.consistent
  have hcurrent := replacing.placed?_old replaceable hplaced
  have hnames : ∀ handle, names handle = old ↔ handle = old := fun _ =>
    replacing.names_eq_iff hstart hplaced replaceable.not_mem
  refine ⟨_, hcurrent, ⟨consistent_substituteEntry hstate hcurrent _ _, ?_, ?_, ?_, ?_⟩, ?_, ?_⟩
  · rw [name_substituteEntry, replacing.relocation.name_eq]
  · rw [outline_substituteEntry, replacing.relocation.outline_eq]
  · intro function index block hblock
    rw [block?_substituteEntry hstate hcurrent _ _ (replacing.relocation.block? hblock),
      List.map_map, update_comp_names hnames]
  · intro handle found hfound
    rw [replaced_concat replaceable.not_mem]
    by_cases hhandle : handle = old
    · subst hhandle
      obtain rfl := Option.some.inj (hplaced.symm.trans hfound)
      rw [if_pos rfl, Function.update_self]
      exact replacing.placed?_substitute_new hstart replaceable hplaced
    · rw [if_neg hhandle, Function.update_of_ne hhandle]
      exact replacing.placed?_substitute_of_ne hstart replaceable hplaced hfound hhandle
  · -- what was replaced was an instruction of the start
    intro change hmem
    rcases List.mem_append.mp hmem with hmem | hmem
    · exact replacing.live change hmem
    · rw [List.mem_singleton.mp hmem]
      exact ⟨entry, hplaced⟩
  · -- whatever else there is has its own name
    intro handle hnone
    rw [List.map_append, List.mem_append, not_or] at hnone
    have hne : handle ≠ old := by simpa using hnone.2
    rw [Function.update_of_ne hne, replacing.fixed handle hnone.1]

end Replacing

/-! ### The handles that are given up and given out

A run keeps the handles that it found.  After a replacement the old one has to be stale, and the new
one must not be mistaken for anything of the start: the slot that is given up moves on by one
generation, and slots are never reused in the generation that they had. -/

/-- Besides, what was put in has handles that named nothing before, and each slot that lost an
instruction has moved on by one generation. -/
structure Renewing (start : Program) (changes : List (Handle × Instruction))
    (names : Handle → Handle) (state : Program) : Prop
    extends Replacing start changes names state where
  fresh : ∀ change ∈ changes, start.placed? (names change.1) = none
  generation : ∀ change ∈ changes, (state.occupancy change.1.slot).map Prod.fst =
    some ((change.1.generation + 1) % Slot.generationLimit)

theorem Renewing.refl (consistent : program.Consistent) :
    Renewing program [] (fun handle => handle) program where
  toReplacing := Replacing.refl consistent
  fresh := by simp
  generation := by simp

namespace Renewing

variable (renewing : Renewing start changes names state)
include renewing

/-- A slot of another generation answers for the replaced instruction no more. -/
theorem placed?_of_mem {change : Handle × Instruction} (hmem : change ∈ changes) :
    state.placed? change.1 = none := by
  rw [Option.eq_none_iff_forall_ne_some]
  intro entry hplaced
  have hgeneration := renewing.generation change hmem
  rw [occupancy_of_placed? hplaced] at hgeneration
  exact succ_mod_generationLimit_ne change.1.generation (Option.some.inj hgeneration).symm

/-- The next handle is new to the program at the start, too. -/
theorem placed?_nextHandle : start.placed? state.nextHandle = none := by
  have hstate := renewing.relocation.consistent
  rw [Option.eq_none_iff_forall_ne_some]
  intro entry hplaced
  by_cases hmem : state.nextHandle ∈ changes.map Prod.fst
  · obtain ⟨change, hchange, hhandle⟩ := List.mem_map.mp hmem
    exact nextHandle_ne_of_generation hstate.toFreeListExact
      (renewing.generation change hchange) hhandle.symm
  · have hstill := renewing.relocation.placed? hplaced
    rw [renewing.fixed _ hmem, Program.placed?_nextHandle hstate.toFreeListExact] at hstill
    cases hstill

/-- One more instruction is replaced. -/
theorem next {rest : List (Handle × Instruction)} (hstart : start.Consistent)
    (replaceable : Replaceable start (changes ++ (old, new) :: rest)) :
    ∃ after names, replaceWith old new state = .ok state.nextHandle after ∧
      Renewing start (changes ++ [(old, new)]) names after := by
  have hstate := renewing.relocation.consistent
  have hnot : ∀ change ∈ changes, change.1 ≠ old := fun change hchange hsame =>
    replaceable.not_mem (hsame ▸ List.mem_map_of_mem hchange)
  obtain ⟨current, hcurrent, replacing⟩ := renewing.toReplacing.substitute hstart replaceable
  refine ⟨_, _, replaceWith_of_placed? hstate hcurrent new, replacing, ?_, ?_⟩
  · intro change hmem
    rcases List.mem_append.mp hmem with hmem | hmem
    · rw [Function.update_of_ne (hnot change hmem)]
      exact renewing.fresh change hmem
    · rw [List.mem_singleton.mp hmem, Function.update_self]
      exact renewing.placed?_nextHandle
  · intro change hmem
    rcases List.mem_append.mp hmem with hmem | hmem
    · -- two instructions of the start do not share a slot
      have hslot : change.1.slot ≠ old.slot := by
        intro hslot
        obtain ⟨former, hformer⟩ := replacing.live change (List.mem_append_left _ hmem)
        obtain ⟨found, hfound⟩ := replacing.live (old, new) (by simp)
        exact hnot change hmem (eq_of_placed?_of_slot hfound hformer hslot)
      rw [generation_substituteEntry hstate hcurrent _ _ (renewing.generation change hmem),
        if_neg hslot]
    · rw [List.mem_singleton.mp hmem]
      have hoccupied := occupancy_of_placed? hcurrent
      rw [generation_substituteEntry hstate hcurrent _ _ (by rw [hoccupied]; rfl), if_pos rfl]

end Renewing

end Replacing

end Program

end ConcurrencyFaults

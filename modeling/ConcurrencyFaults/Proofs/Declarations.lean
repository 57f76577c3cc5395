import ConcurrencyFaults.Proofs.Relocation

/-!
# Functions that are only declared

Some operators add the function that they have called from then on.  Such a function has no blocks,
so lists and storage are what they were, and where all callees exist no call turns into a call of
it.  Searches find what they found (`CallSearch.inProgram_addFunction`), and what was said of two
programs is still true after the same function was added to both.

Only one question is answered differently, the one for a function of the added name, and only where
there was none (`functionNamed?_addFunction`).
-/

namespace ConcurrencyFaults

open Program

/-! ## Functions and their names -/

namespace Program

variable {program start state : Program} {changes : List (Handle × Instruction)}
  {names : Handle → Handle} {edit : Handle → Instruction → Instruction}

theorem Consistent.function?_of_functionNamed? (consistent : program.Consistent) {name : String}
    {id : FunctionId} (hnamed : program.functionNamed? name = some id) :
    ∃ function, program.function? id = some function ∧ function.name = name := by
  obtain ⟨function, hfind, rfl⟩ := Option.map_eq_some_iff.mp hnamed
  exact ⟨function, consistent.function?_id (List.mem_of_find?_eq_some hfind),
    by simpa using List.find?_some hfind⟩

section AddFunction

variable (added : String) (result : Ty) (parameters : List Ty)

/-- A function that is added is the first of its name only if there was none. -/
theorem functionNamed?_addFunction (name : String) :
    (program.addFunction added result parameters).2.functionNamed? name =
      (program.functionNamed? name).or
        (if added = name then some program.functions.length else none) := by
  unfold addFunction functionNamed?
  rw [List.find?_append]
  cases program.functions.find? (·.name == name) with
  | some function => rfl
  | none => by_cases hname : added = name <;> simp [hname]

theorem handles_addFunction :
    (program.addFunction added result parameters).2.handles = program.handles := by
  simp [handles, addFunction, Function.handles]

theorem outline_addFunction :
    (program.addFunction added result parameters).2.outline =
      program.outline ++ [{ id := program.outline.length, name := added, result, parameters }] := by
  simp [outline, addFunction, Function.outline]

theorem calleesExist_addFunction (calleesExist : program.CalleesExist) :
    (program.addFunction added result parameters).2.CalleesExist := by
  intro handle entry target hplaced hcallee
  obtain ⟨function, hfunction⟩ := calleesExist handle entry target hplaced hcallee
  rw [function?_addFunction]
  split
  · exact ⟨_, rfl⟩
  · exact ⟨function, hfunction⟩

/-- What was relocated still is after the same function was added on both sides. -/
theorem Relocation.addFunction (hrelocation : start.Relocation state names edit) :
    (start.addFunction added result parameters).2.Relocation
      (state.addFunction added result parameters).2 names edit where
  consistent := hrelocation.consistent.addFunction added result parameters
  name_eq := hrelocation.name_eq
  outline_eq := by rw [outline_addFunction, outline_addFunction, hrelocation.outline_eq]
  block? := by
    rw [block?_addFunction, block?_addFunction]
    exact hrelocation.block?
  placed? := hrelocation.placed?

theorem Renewing.addFunction (renewing : Renewing start changes names state) :
    Renewing (start.addFunction added result parameters).2 changes names
      (state.addFunction added result parameters).2 where
  relocation := renewing.relocation.addFunction added result parameters
  live := renewing.live
  fixed := renewing.fixed
  fresh := renewing.fresh
  generation := renewing.generation

end AddFunction

end Program

/-! ## Searches -/

section Searches

variable {program : Program} (calleesExist : program.CalleesExist) (added : String) (result : Ty)
  (parameters : List Ty)
include calleesExist

/-- Calls are captured as they were before a function was added. -/
theorem CallSite.capture_addFunction (handle : Handle) (demangled : Bool) :
    capture (program.addFunction added result parameters).2 handle demangled =
      capture program handle demangled := by
  unfold capture
  rw [show (program.addFunction added result parameters).2.placed handle = program.placed handle
    from rfl]
  cases hplaced : program.placed handle with
  | error problem => rfl
  | ok entry =>
      simp only [bind, Except.bind]
      split
      · rfl
      · rfl
      · rename_i target arguments answer form hparts
        have hcallee : entry.instruction.operation.directCallee? = some target := by
          rw [callParts?_eq_some hparts]
          exact SiteForm.directCallee?_operation ..
        obtain ⟨function, hfunction⟩ :=
          calleesExist handle entry target (placed_eq_ok_iff.mp hplaced) hcallee
        -- the added function is the last one, and the callee was there before
        have hlater : (program.addFunction added result parameters).2.function? target =
            some function := by
          rw [function?_addFunction, if_neg, hfunction]
          rintro rfl
          simp [function?] at hfunction
        rw [function_of_function? hlater, function_of_function? hfunction]

/-- A search does not see a function that is called by nobody. -/
theorem CallSearch.inProgram_addFunction (consistent : program.Consistent) (search : CallSearch) :
    search.inProgram (program.addFunction added result parameters).2 =
      search.inProgram program := by
  have hseen : search.seen (program.addFunction added result parameters).2 =
      search.seen program := by
    funext handle
    unfold seen siteAt
    rw [CallSite.capture_addFunction calleesExist]
    rfl
  calc search.inProgram (program.addFunction added result parameters).2
      = .ok (.ofSites ((program.addFunction added result parameters).2.handles.filterMap
          (search.seen (program.addFunction added result parameters).2))) :=
        search.inProgram_eq (consistent.addFunction ..)
          (calleesExist_addFunction _ _ _ calleesExist)
    _ = .ok (.ofSites (program.handles.filterMap (search.seen program))) := by
        rw [handles_addFunction, hseen]
    _ = search.inProgram program := (search.inProgram_eq consistent calleesExist).symm

end Searches

end ConcurrencyFaults

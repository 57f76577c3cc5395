import ConcurrencyFaults.CallSearch
import ConcurrencyFaults.Proofs.Revision

/-!
# Call sites and what is done to them

A captured site is intact as long as its instruction is in its place and is the captured call up to
operands (`CallSite.Intact`).  Searching a program answers unless a call names a function that does
not exist; every site that it finds is intact and can be recovered from its handle.

The second half of the file goes through the ways in which operators change an intact call.  None of
them is refused, and each is a revision that is about this call alone; where the call is an invoke,
its block stays terminated.

## Strategy

* Capturing is inverted once, into what it says of the program (`capture_eq_some_iff`); that a
  captured call is intact and that its handle determines it are read off (`intact_of_capture`,
  `eq_of_capture`).
* A search is a `mapM` over functions and, within them, over handles.  Whether it answers and what
  its answers are follow element by element (`exists_siteAt`, `finds_of_siteAt`).
* A change goes by the form of the call.  A plain call is changed as it stands; an invoke gets a
  branch to its normal block first, after which it may be taken out of the end of its block.
-/

namespace ConcurrencyFaults

/-! ## Intact sites

Only the shape is compared, because the operands of a call may be rewritten by the change of another
one. -/

namespace SiteForm

/-- Where control goes from a call of this form, if it ends its block. -/
def exits? : SiteForm → Option (List BlockId)
  | .call => none
  | .invoke normal unwind => some [normal, unwind]

@[simp] theorem exits?_operation (form : SiteForm) (callee : Callee) (arguments : List Operand)
    (result : Ty) : (form.operation callee arguments result).exits? = form.exits? := by
  cases form <;> rfl

@[simp] theorem directCallee?_operation (form : SiteForm) (target : FunctionId)
    (arguments : List Operand) (result : Ty) :
    (form.operation (.direct target) arguments result).directCallee? = some target := by
  cases form <;> rfl

/-- The operands of a direct call are its arguments. -/
theorem mapOperands_operation (form : SiteForm) (target : FunctionId) (arguments : List Operand)
    (result : Ty) (change : Operand → Operand) :
    (form.operation (.direct target) arguments result).mapOperands change =
      form.operation (.direct target) (arguments.map change) result := by
  cases form <;> rfl

end SiteForm

namespace CallSite

variable {site : CallSite} {program : Program}

/-- The call as it was captured. -/
def operation (site : CallSite) : Operation :=
  site.form.operation (.direct site.target) site.arguments site.result

/-- The call is still there, in its function and with its shape. -/
def Intact (site : CallSite) (program : Program) : Prop :=
  ∃ entry, program.placed? site.handle = some entry ∧ entry.function = site.function ∧
    entry.instruction.operation.shape = site.operation.shape

theorem Intact.kept {before after : Program} {gone : List Handle} (hintact : site.Intact before)
    (hkept : before.Kept after gone) (hstays : site.handle ∉ gone) : site.Intact after := by
  obtain ⟨entry, hplaced, hfunction, hshape⟩ := hintact
  obtain ⟨found, hfound, hsame, halike⟩ := hkept.alike hplaced hstays
  exact ⟨found, hfound, hsame.trans hfunction, halike.trans hshape⟩

/-- Control goes from an intact call as its form says. -/
theorem Intact.placed? (hintact : site.Intact program) :
    ∃ entry, program.placed? site.handle = some entry ∧ entry.function = site.function ∧
      entry.instruction.operation.exits? = site.form.exits? := by
  obtain ⟨entry, hplaced, hfunction, hshape⟩ := hintact
  refine ⟨entry, hplaced, hfunction, ?_⟩
  rw [Operation.exits?_eq_of_shape_eq hshape]
  exact SiteForm.exits?_operation ..

theorem Intact.validate (hintact : site.Intact program) : site.validate program = .ok () := by
  obtain ⟨entry, hplaced, -, hshape⟩ := hintact
  have hcallee : entry.instruction.operation.directCallee? = some site.target := by
    rw [Operation.directCallee?_eq_of_shape_eq hshape]
    exact SiteForm.directCallee?_operation ..
  unfold CallSite.validate
  rw [Program.instruction_of_placed? hplaced]
  simp [bind, Except.bind, hcallee, pure, Except.pure]

/-! ## Capturing and searching

Calls through pointers are no sites.  A direct call needs its target, whose name the site copies. -/

theorem callParts?_eq_some {operation : Operation} {callee : Callee} {arguments : List Operand}
    {result : Ty} {form : SiteForm}
    (hparts : callParts? operation = some (callee, arguments, result, form)) :
    operation = form.operation callee arguments result := by
  cases operation with
  | call | invoke =>
      simp only [callParts?, Option.some.injEq, Prod.mk.injEq] at hparts
      obtain ⟨rfl, rfl, rfl, rfl⟩ := hparts
      rfl
  | _ => cases hparts

theorem placed_of_capture {handle : Handle} {demangled : Bool}
    (hcapture : capture program handle demangled = .ok (some site)) :
    site.handle = handle ∧ ∃ entry, program.placed? handle = some entry ∧
      entry.function = site.function ∧ entry.instruction.operation = site.operation := by
  unfold capture at hcapture
  obtain ⟨entry, hplaced, hcapture⟩ := Except.bind_eq_ok_iff.mp hcapture
  have hlive := Program.placed_eq_ok_iff.mp hplaced
  split at hcapture
  · cases hcapture
  · cases hcapture
  · rename_i target arguments result form hparts
    obtain ⟨function, -, hcapture⟩ := Except.bind_eq_ok_iff.mp hcapture
    cases hcapture
    exact ⟨rfl, entry, hlive, rfl, callParts?_eq_some hparts⟩

theorem eq_of_capture {other : CallSite} {demangled : Bool}
    (hsite : capture program site.handle demangled = .ok (some site))
    (hother : capture program other.handle demangled = .ok (some other))
    (hhandle : site.handle = other.handle) : site = other := by
  rw [hhandle, hother] at hsite
  exact (Option.some.inj (Except.ok.inj hsite)).symm

/-- A site is captured exactly where an instruction is that calls its target, and it copies all that
is known of that instruction but its name. -/
theorem capture_eq_some_iff {handle : Handle} {demangled : Bool} :
    capture program handle demangled = .ok (some site) ↔
      ∃ entry target, program.placed? handle = some entry ∧
        program.function? site.target = some target ∧
        entry.instruction.operation = site.operation ∧
        site = { site with
          handle, function := entry.function, block := entry.block, symbol := target.name
          name := Symbol.key target.name demangled
          attributes := entry.instruction.attributes, location := entry.instruction.location } := by
  constructor
  · intro hcapture
    unfold capture at hcapture
    obtain ⟨entry, hplaced, hcapture⟩ := Except.bind_eq_ok_iff.mp hcapture
    split at hcapture
    · cases hcapture
    · cases hcapture
    · rename_i hparts
      obtain ⟨function, hfunction, hcapture⟩ := Except.bind_eq_ok_iff.mp hcapture
      cases hcapture
      exact ⟨entry, function, Program.placed_eq_ok_iff.mp hplaced,
        Program.function_eq_ok_iff.mp hfunction, callParts?_eq_some hparts, rfl⟩
  · rintro ⟨entry, function, hplaced, hfunction, hoperation, hsite⟩
    -- the form of the site says which of the two kinds of calls is there
    have hparts : callParts? entry.instruction.operation =
        some (.direct site.target, site.arguments, site.result, site.form) := by
      rw [hoperation, CallSite.operation]
      cases site.form <;> rfl
    unfold capture
    rw [Program.placed_of_placed? hplaced]
    simp only [bind, Except.bind, hparts, Program.function_of_function? hfunction, pure,
      Except.pure]
    rw [hsite]

/-- A direct call of a function that exists can be captured. -/
theorem exists_capture_of_directCallee? {handle : Handle} {entry : Placed} {target : FunctionId}
    {function : Function}
    (hplaced : program.placed? handle = some entry)
    (hcallee : entry.instruction.operation.directCallee? = some target)
    (hfunction : program.function? target = some function) (demangled : Bool) :
    ∃ site, site.handle = handle ∧ capture program handle demangled = .ok (some site) := by
  obtain ⟨form, arguments, result, hoperation⟩ : ∃ form arguments result,
      entry.instruction.operation = SiteForm.operation form (.direct target) arguments result := by
    cases hoperation : entry.instruction.operation with
    | call callee arguments result =>
        rw [hoperation] at hcallee
        cases callee with
        | direct called =>
            obtain rfl : called = target := Option.some.inj hcallee
            exact ⟨.call, arguments, result, rfl⟩
        | indirect pointer => cases hcallee
    | invoke callee arguments result normal unwind =>
        rw [hoperation] at hcallee
        cases callee with
        | direct called =>
            obtain rfl : called = target := Option.some.inj hcallee
            exact ⟨.invoke normal unwind, arguments, result, rfl⟩
        | indirect pointer => cases hcallee
    | _ =>
        rw [hoperation] at hcallee
        cases hcallee
  let site : CallSite := {
    handle, function := entry.function, block := entry.block, target, symbol := function.name
    name := Symbol.key function.name demangled
    arguments, result, form
    attributes := entry.instruction.attributes, location := entry.instruction.location }
  exact ⟨site, rfl, capture_eq_some_iff.mpr ⟨entry, function, hplaced, hfunction, hoperation, rfl⟩⟩

theorem intact_of_capture {handle : Handle} {demangled : Bool}
    (hcapture : capture program handle demangled = .ok (some site)) :
    site.handle = handle ∧ site.Intact program := by
  obtain ⟨rfl, entry, hplaced, hfunction, hoperation⟩ := placed_of_capture hcapture
  exact ⟨rfl, entry, hplaced, hfunction, congrArg Operation.shape hoperation⟩

end CallSite

/-- Every function that a live instruction calls directly exists. -/
def Program.CalleesExist (program : Program) : Prop :=
  ∀ (handle : Handle) (entry : Placed) (target : FunctionId),
    program.placed? handle = some entry →
      entry.instruction.operation.directCallee? = some target →
        ∃ function, program.function? target = some function

theorem CallSite.exists_capture {program : Program} {handle : Handle} {entry : Placed}
    (hcallees : program.CalleesExist) (hplaced : program.placed? handle = some entry)
    (hcall : entry.instruction.operation.callForm? ≠ none) (demangled : Bool) :
    ∃ site?, capture program handle demangled = .ok site? := by
  unfold capture
  rw [Program.placed_of_placed? hplaced]
  simp only [bind, Except.bind]
  -- calls through pointers are left out; the others need their target
  have hcallee := hcallees handle entry
  cases hoperation : entry.instruction.operation with
  | call callee arguments result | invoke callee arguments result =>
      cases callee with
      | indirect pointer => exact ⟨none, rfl⟩
      | direct target =>
          obtain ⟨function, hfunction⟩ := hcallee target hplaced (by rw [hoperation]; rfl)
          simp only [callParts?, Program.function_of_function? hfunction]
          exact ⟨_, rfl⟩
  | _ =>
      rw [hoperation] at hcall
      exact absurd rfl hcall

/-- Capturing a direct call takes the function that it calls. -/
theorem CallSite.exists_function_of_capture {program : Program} {handle : Handle} {entry : Placed}
    {target : FunctionId} {site? : Option CallSite} {demangled : Bool}
    (hplaced : program.placed? handle = some entry)
    (hcallee : entry.instruction.operation.directCallee? = some target)
    (hcapture : capture program handle demangled = .ok site?) :
    ∃ function, program.function? target = some function := by
  unfold capture at hcapture
  rw [Program.placed_of_placed? hplaced] at hcapture
  obtain ⟨_, hentry, hcapture⟩ := Except.bind_eq_ok_iff.mp hcapture
  obtain rfl := Except.ok.inj hentry
  cases hoperation : entry.instruction.operation with
  | call callee arguments result | invoke callee arguments result =>
      rw [hoperation] at hcallee hcapture
      cases callee with
      | indirect pointer => cases hcallee
      | direct called =>
          obtain rfl : called = target := Option.some.inj hcallee
          obtain ⟨function, hfunction, -⟩ := Except.bind_eq_ok_iff.mp hcapture
          exact ⟨function, Program.function_eq_ok_iff.mp hfunction⟩
  | _ =>
      rw [hoperation] at hcallee
      cases hcallee

namespace CallSearch

variable {search : CallSearch} {program : Program} {site : CallSite}

/-- The site is what the search sees at its handle. -/
def Finds (search : CallSearch) (program : Program) (site : CallSite) : Prop :=
  search.siteAt program site.handle = .ok (some site)

/-- A found site is determined by its handle. -/
theorem Finds.eq_of_handle {other : CallSite} (hsite : search.Finds program site)
    (hother : search.Finds program other) (hhandle : site.handle = other.handle) :
    site = other := by
  unfold Finds at hsite hother
  rw [hhandle, hother] at hsite
  exact (Option.some.inj (Except.ok.inj hsite)).symm

theorem capture_of_siteAt {handle : Handle}
    (hsite : search.siteAt program handle = .ok (some site)) :
    CallSite.capture program handle search.demangled = .ok (some site) := by
  unfold siteAt at hsite
  obtain ⟨instruction, -, hsite⟩ := Except.bind_eq_ok_iff.mp hsite
  split at hsite
  · cases hsite
  · obtain ⟨found, hcapture, hsite⟩ := Except.bind_eq_ok_iff.mp hsite
    rw [hcapture]
    have hfilter : found.filter (fun site => search.matchesKey site.name) = some site :=
      Except.ok.inj hsite
    rw [(Option.filter_eq_some_iff.mp hfilter).1]

theorem Finds.intact (hsite : search.Finds program site) : site.Intact program :=
  (CallSite.intact_of_capture (capture_of_siteAt hsite)).2

theorem finds_of_siteAt {handle : Handle} (hsite : search.siteAt program handle = .ok (some site)) :
    search.Finds program site := by
  have hhandle := (CallSite.intact_of_capture (capture_of_siteAt hsite)).1
  rwa [Finds, hhandle]

theorem finds_of_sitesIn {function : FunctionId} {sites : List CallSite}
    (hsites : search.sitesIn program function = .ok sites) (hmem : site ∈ sites) :
    search.Finds program site := by
  unfold sitesIn at hsites
  obtain ⟨handles, -, hsites⟩ := Except.bind_eq_ok_iff.mp hsites
  obtain ⟨found, hfound, hsites⟩ := Except.bind_eq_ok_iff.mp hsites
  cases hsites
  obtain ⟨site?, hsite?, hsome⟩ := List.mem_filterMap.mp hmem
  obtain rfl : site? = some site := hsome
  obtain ⟨handle, -, hsite⟩ := Except.mem_of_mapM hfound hsite?
  exact finds_of_siteAt hsite

end CallSearch

namespace FoundCalls

variable {found : FoundCalls} {site : CallSite}

@[simp] theorem mem_sites_ofSites {sites : List CallSite} :
    site ∈ (ofSites sites).sites ↔ site ∈ sites := by
  unfold ofSites FoundCalls.sites
  cases hinvoke : site.isInvoke <;> simp [hinvoke]

theorem mem_of_get? {number : Nat} (hget : found.get? number = some site) : site ∈ found.sites := by
  unfold get? at hget
  unfold FoundCalls.sites
  split at hget
  · exact List.mem_append_left _ (List.mem_of_getElem? hget)
  · exact List.mem_append_right _ (List.mem_of_getElem? hget)

end FoundCalls

namespace CallSearch

variable {search : CallSearch} {program : Program} {site : CallSite}

theorem finds_of_inProgram {found : FoundCalls} (hfound : search.inProgram program = .ok found)
    (hmem : site ∈ found.sites) : search.Finds program site := by
  obtain ⟨groups, hgroups, rfl⟩ := Except.map_eq_ok_iff.mp hfound
  rw [FoundCalls.mem_sites_ofSites] at hmem
  obtain ⟨sites, hsites, hmem⟩ := List.mem_flatten.mp hmem
  obtain ⟨function, -, hfunction⟩ := Except.mem_of_mapM hgroups hsites
  exact finds_of_sitesIn hfunction hmem

theorem exists_siteAt (search : CallSearch) {handle : Handle} {entry : Placed}
    (hcallees : program.CalleesExist) (hplaced : program.placed? handle = some entry) :
    ∃ site?, search.siteAt program handle = .ok site? := by
  unfold siteAt
  rw [Program.instruction_of_placed? hplaced]
  by_cases hcall : entry.instruction.operation.callForm? = none
  · exact ⟨none, by simp [hcall, bind, Except.bind, pure, Except.pure]⟩
  · obtain ⟨site?, hsite?⟩ := CallSite.exists_capture hcallees hplaced hcall search.demangled
    refine ⟨site?.filter fun site => search.matchesKey site.name, ?_⟩
    simp [hcall, hsite?, bind, Except.bind, pure, Except.pure]

/-- A search is refused at most over a call of a function that does not exist. -/
theorem exists_inProgram (search : CallSearch) (consistent : program.Consistent)
    (hcallees : program.CalleesExist) : ∃ found, search.inProgram program = .ok found := by
  suffices hgroups : ∃ groups, program.functions.mapM
      (fun function => search.sitesIn program function.id) = .ok groups by
    obtain ⟨groups, hgroups⟩ := hgroups
    exact ⟨.ofSites groups.flatten, by simp [inProgram, hgroups, Except.map]⟩
  refine Except.exists_mapM fun function hmem => ?_
  obtain ⟨place, hplace⟩ := List.mem_iff_getElem?.mp hmem
  -- functions are searched by identifier, which is their place
  have hid : function.id = place := consistent.function_id hplace
  have hfunction : program.function? function.id = some function := by
    rw [hid]
    exact hplace
  have hhandles := Program.handlesOf_of_function? hfunction
  obtain ⟨sites, hsites⟩ : ∃ sites, function.handles.mapM (search.siteAt program) = .ok sites := by
    refine Except.exists_mapM fun handle hhandle => ?_
    obtain ⟨entry, hplaced, -⟩ := consistent.placed_of_mem_function hfunction hhandle
    exact search.exists_siteAt hcallees hplaced
  exact ⟨sites.filterMap id, by
    simp [sitesIn, hhandles, hsites, bind, Except.bind, pure, Except.pure]⟩

end CallSearch

/-! ## Changing an intact call

Every lemma of this section has the same two cases: a plain call, and an invoke, which ends its
block and whose place is first provided for by a branch (`branchToNormal_of_invoke`). -/

namespace CallSite

open Program

variable {site : CallSite} {program : Program}

theorem branchToNormal_of_call (hform : site.form = .call) :
    site.branchToNormal program = .ok none program := by
  unfold branchToNormal
  rw [hform]
  rfl

theorem branchToNormal_of_invoke {entry : Placed} {normal unwind : BlockId}
    (consistent : program.Consistent) (hform : site.form = .invoke normal unwind)
    (hplaced : program.placed? site.handle = some entry) :
    site.branchToNormal program =
      .ok (some program.nextHandle) (program.pushBranch entry normal site.location) := by
  obtain ⟨block, hblock, -⟩ := consistent.listed hplaced
  unfold branchToNormal
  simp only [hform]
  rw [bind_apply_of_ok (Edit.query_apply_of_ok (parent_of_placed? hplaced))]
  dsimp only
  rw [bind_apply_of_ok (push_of_block? hblock _)]
  rfl

variable (consistent : program.Consistent) (hintact : site.Intact program)
include consistent hintact

/-- A call may be removed whether or not its result is read. -/
theorem remove_of_intact (width : Nat) (signed : Bool) :
    ∃ removal after, site.remove width signed program = .ok removal after ∧
      program.Revised after [site.handle] := by
  obtain ⟨entry, hplaced, -, hexits⟩ := hintact.placed?
  unfold CallSite.remove
  rw [bind_apply_of_ok (Edit.query_apply_of_ok hintact.validate)]
  cases hform : site.form with
  | call =>
      rw [bind_apply_of_ok (branchToNormal_of_call hform)]
      obtain ⟨removal, hremoval⟩ := eraseOrZero_of_placed? consistent hplaced width signed
      rw [hform] at hexits
      exact ⟨removal, _, hremoval, revised_eraseEntry_rewrite consistent hplaced hexits _ _⟩
  | invoke normal unwind =>
      rw [bind_apply_of_ok (branchToNormal_of_invoke consistent hform hplaced)]
      obtain ⟨removal, hremoval⟩ := eraseOrZero_of_placed?
        (kept_pushBranch consistent hplaced normal site.location).consistent
        (placed?_pushBranch consistent hplaced normal site.location) width signed
      rw [hform] at hexits
      exact ⟨removal, _, hremoval, revised_eraseEntry_pushBranch consistent hplaced hexits
        (by simp) site.location _ _⟩

/-- A call may be replaced by an instruction that does not end the block. -/
theorem replace_of_intact {instruction : Instruction}
    (hnew : instruction.operation.exits? = none) :
    ∃ handle after, site.replace instruction program = .ok handle after ∧
      program.Revised after [site.handle] := by
  obtain ⟨entry, hplaced, -, hexits⟩ := hintact.placed?
  unfold CallSite.replace
  rw [bind_apply_of_ok (Edit.query_apply_of_ok hintact.validate)]
  cases hform : site.form with
  | call =>
      rw [bind_apply_of_ok (branchToNormal_of_call hform)]
      rw [hform] at hexits
      exact ⟨_, _, replaceWith_of_placed? consistent hplaced instruction,
        revised_substituteEntry consistent hplaced (hnew.trans hexits.symm) _⟩
  | invoke normal unwind =>
      rw [bind_apply_of_ok (branchToNormal_of_invoke consistent hform hplaced)]
      rw [hform] at hexits
      exact ⟨_, _, replaceWith_of_placed?
          (kept_pushBranch consistent hplaced normal site.location).consistent
          (placed?_pushBranch consistent hplaced normal site.location) instruction,
        revised_substituteEntry_pushBranch consistent hplaced hexits (by simp) site.location
          hnew _⟩

/-- A call may give way to any call of its form. -/
theorem replaceWith_of_intact {instruction : Instruction}
    (hnew : instruction.operation.exits? = site.form.exits?) :
    ∃ handle after, replaceWith site.handle instruction program = .ok handle after ∧
      program.Revised after [site.handle] := by
  obtain ⟨entry, hplaced, -, hexits⟩ := hintact.placed?
  exact ⟨_, _, replaceWith_of_placed? consistent hplaced instruction,
    revised_substituteEntry consistent hplaced (hnew.trans hexits.symm) _⟩

/-- An unused call may be erased once its block is provided for. -/
theorem erase_of_intact (hunused : program.useCount site.handle = .ok 0) :
    ∃ branch between instruction after, site.branchToNormal program = .ok branch between ∧
      erase site.handle between = .ok instruction after ∧
      program.Revised after [site.handle] := by
  obtain ⟨entry, hplaced, -, hexits⟩ := hintact.placed?
  cases hform : site.form with
  | call =>
      rw [hform] at hexits
      exact ⟨_, _, _, _, branchToNormal_of_call hform, erase_of_unused hplaced hunused,
        revised_eraseEntry consistent hplaced hexits⟩
  | invoke normal unwind =>
      have hpushed := kept_pushBranch consistent hplaced normal site.location
      have hlive := placed?_pushBranch consistent hplaced normal site.location
      have hstill : (program.pushBranch entry normal site.location).useCount site.handle = .ok 0 :=
        useCount_insertEntry consistent hplaced hunused rfl hpushed.consistent
      rw [hform] at hexits
      have hrevised := revised_eraseEntry_pushBranch consistent hplaced hexits
        (show normal ∈ [normal, unwind] by simp) site.location entry.function
        (replacing site.handle .undefined)
      -- the call is unused, so rewriting its uses changed nothing
      rw [rewriteFunction_of_unused hpushed.consistent hlive hstill, eraseEntry_rewrite] at hrevised
      exact ⟨_, _, _, _, branchToNormal_of_invoke consistent hform hplaced,
        erase_of_unused hlive hstill, hrevised⟩

end CallSite

end ConcurrencyFaults

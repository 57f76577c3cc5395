import ConcurrencyFaults.Proofs.Closed.Edits
import ConcurrencyFaults.Proofs.Relocation

/-!
# Calls that give way to calls

A call can be exchanged for another call in the same form: it keeps its place, its continuations and
its location, and everything else comes from a call that may stand elsewhere or nowhere at all.
After some calls were exchanged and received new handles, the program has the calls that it had,
each under its new name and with what it was given (`Exchanging`).  A search that looks for the old
targets and for the new ones therefore finds the same calls under the same numbers
(`Exchanging.inProgram`).

## Strategy

* A call is captured under its new name as the call that it gave way to (`Exchanging.capture_eq`).
* Nothing else is captured: what calls a function now called one before, since the edits of other
  instructions make no direct calls (`exists_former`, `exists_of_capture`).
* So the same is seen at each handle and at its new name (`seen_eq`).  Handles are visited in the
  same order (`Relocation.handles_eq`), and calls keep their form, on which their numbers depend
  (`FoundCalls.sites_ofSites_map`).
-/

namespace ConcurrencyFaults

open Program

/-- The call under new names, with all that another call brings along. -/
def CallSite.exchanged (names : Handle → Handle) (site other : CallSite) : CallSite :=
  { site with
    handle := names site.handle
    target := other.target
    symbol := other.symbol
    name := other.name
    arguments := other.arguments.map (Operand.rename names)
    result := other.result
    attributes := other.attributes }

/-- In a closed program, what reads a call is in the function of the call. -/
theorem CallSite.function_eq_of_reads {program : Program} {site : CallSite} {reader : Handle}
    {found : Placed} {demangled : Bool} (closed : program.Closed)
    (hsite : capture program site.handle demangled = .ok (some site))
    (hfound : program.placed? reader = some found) (hreads : found.instruction.Reads site.handle) :
    found.function = site.function := by
  obtain ⟨-, entry, hplaced, hfunction, -⟩ := placed_of_capture hsite
  have hlocal := closed reader found hfound _ hreads
  rw [local_result, functionOf?_of_placed? hplaced, Option.some.injEq] at hlocal
  exact hlocal.symm.trans hfunction

/-- What a call of a closed program reads is there. -/
theorem CallSite.exists_placed?_of_mem_arguments {program : Program} {site : CallSite}
    {handle : Handle} {demangled : Bool} (closed : program.Closed)
    (hsite : capture program site.handle demangled = .ok (some site))
    (hmem : .result handle ∈ site.arguments) : ∃ entry, program.placed? handle = some entry := by
  obtain ⟨-, reader, hplaced, -, hoperation⟩ := placed_of_capture hsite
  have hoperand : .result handle ∈ reader.instruction.operation.operands := by
    rw [hoperation, operands_operation]
    exact hmem
  obtain ⟨entry, hentry, -⟩ := functionOf?_eq_some_iff.mp (closed _ _ hplaced _ hoperand handle rfl)
  exact ⟨entry, hentry⟩

namespace FoundCalls

theorem sites_ofSites_map {change : CallSite → CallSite}
    (hform : ∀ site, (change site).isInvoke = site.isInvoke) (sites : List CallSite) :
    (ofSites (sites.map change)).sites = (ofSites sites).sites.map change := by
  simp only [ofSites, FoundCalls.sites, List.filter_map, List.map_append, Function.comp_def, hform]

end FoundCalls

namespace Program

variable {before after : Program} {handle : Handle} {names : Handle → Handle}
  {edit : Handle → Instruction → Instruction} {source : CallSite → CallSite} {demangled : Bool}

/-- Names of functions do not depend on what the functions do. -/
theorem functionNamed?_eq_of_outline_eq (houtline : after.outline = before.outline)
    (name : String) : after.functionNamed? name = before.functionNamed? name := by
  have hnamed : ∀ program : Program, program.functionNamed? name =
      (program.outline.find? (·.name == name)).map Function.id := by
    intro program
    rw [outline, List.find?_map, Option.map_map]
    rfl
  rw [hnamed, hnamed, houtline]

/-- Instructions are visited in the order in which they were. -/
theorem Relocation.handles_eq (hrelocation : before.Relocation after names edit) :
    after.handles = before.handles.map names := by
  have hlength : after.functions.length = before.functions.length := by
    simpa [outline] using congrArg List.length hrelocation.outline_eq
  have hfunctions : after.functions.map Function.handles =
      before.functions.map fun function => function.handles.map names := by
    refine List.ext_getElem? fun id => ?_
    rw [List.getElem?_map, List.getElem?_map]
    cases hfunction : before.functions[id]? with
    | none =>
        rw [List.getElem?_eq_none_iff] at hfunction
        rw [List.getElem?_eq_none (hlength ▸ hfunction)]
        rfl
    | some function =>
        obtain ⟨now, hnow, -, hhandles⟩ := hrelocation.exists_function? hfunction
        rw [show after.functions[id]? = some now from hnow, Option.map_some, Option.map_some,
          hhandles]
  calc after.handles
      = (after.functions.map Function.handles).flatten := List.flatMap_def ..
    _ = (before.functions.map fun function => function.handles.map names).flatten := by
        rw [hfunctions]
    _ = before.handles.map names := by rw [handles, List.map_flatMap, List.flatMap_def]

/-- If only calls were replaced, what calls nothing directly stays. -/
theorem replaced_of_directCallee?_eq_none {changes : List (Handle × Instruction)} {entry : Placed}
    (hcalls : ∀ change ∈ changes, ∃ site, site.handle = change.1 ∧
      CallSite.capture before site.handle demangled = .ok (some site))
    (hplaced : before.placed? handle = some entry)
    (hnone : entry.instruction.operation.directCallee? = none) :
    replaced changes handle entry.instruction = entry.instruction := by
  refine (mem_of_replaced changes handle entry.instruction).resolve_right fun hmem => ?_
  obtain ⟨site, hhandle, hsite⟩ := hcalls _ hmem
  obtain ⟨-, found, hfound, -, hoperation⟩ := CallSite.placed_of_capture hsite
  rw [hhandle, hplaced, Option.some.injEq] at hfound
  have hcallee : entry.instruction.operation.directCallee? = some site.target := by
    rw [hfound, hoperation]
    exact SiteForm.directCallee?_operation ..
  rw [hnone] at hcallee
  cases hcallee

/-- Each call that can be captured is the call that it was, but for its name and what `source` gives
it.  What calls nothing directly goes on to do so. -/
structure Exchanging (before after : Program) (names : Handle → Handle)
    (edit : Handle → Instruction → Instruction) (source : CallSite → CallSite)
    (demangled : Bool) : Prop extends Relocation before after names edit where
  calls : ∀ {site entry}, CallSite.capture before site.handle demangled = .ok (some site) →
    before.placed? site.handle = some entry →
      (edit site.handle entry.instruction).operation = site.form.operation
          (.direct (source site).target) (source site).arguments (source site).result ∧
        (edit site.handle entry.instruction).attributes = (source site).attributes ∧
        (edit site.handle entry.instruction).location = site.location
  /-- What is called under a name is the function of this name. -/
  target : ∀ {site}, CallSite.capture before site.handle demangled = .ok (some site) →
    ∃ function, before.function? (source site).target = some function ∧
      (source site).symbol = function.name ∧
      (source site).name = Symbol.key function.name demangled
  others : ∀ {handle entry}, before.placed? handle = some entry →
    entry.instruction.operation.directCallee? = none →
      (edit handle entry.instruction).operation.directCallee? = none

namespace Exchanging

variable (exchanging : Exchanging before after names edit source demangled) {site : CallSite}
include exchanging

theorem capture_eq (hsite : CallSite.capture before site.handle demangled = .ok (some site)) :
    CallSite.capture after (names site.handle) demangled =
      .ok (some (site.exchanged names (source site))) := by
  obtain ⟨entry, called, hplaced, -, -, hcaptured⟩ := CallSite.capture_eq_some_iff.mp hsite
  obtain ⟨function, hfunction, hsymbol, hkey⟩ := exchanging.target hsite
  obtain ⟨now, hnow, hname, -⟩ := exchanging.toRelocation.exists_function? hfunction
  obtain ⟨hoperation, hattributes, hlocation⟩ := exchanging.calls hsite hplaced
  refine CallSite.capture_eq_some_iff.mpr
    ⟨_, now, exchanging.toRelocation.placed? hplaced, hnow, ?_, ?_⟩
  · show (Operation.mapOperands _ _) = _
    rw [hoperation, SiteForm.mapOperands_operation]
    rfl
  · have hplace : site.function = entry.function ∧ site.block = entry.block :=
      ⟨congrArg CallSite.function hcaptured, congrArg CallSite.block hcaptured⟩
    rw [← hname] at hsymbol hkey
    simp only [CallSite.exchanged, CallSite.mk.injEq]
    exact ⟨trivial, hplace.1, hplace.2, trivial, hsymbol, hkey, trivial, trivial,
      hattributes.symm, hlocation.symm, trivial⟩

variable (consistent : before.Consistent) (calleesExist : before.CalleesExist)
include consistent calleesExist

/-- What calls a function now did call one before. -/
theorem exists_former {entry : Placed} {target : FunctionId}
    (hplaced : after.placed? handle = some entry)
    (hcallee : entry.instruction.operation.directCallee? = some target) :
    ∃ former, CallSite.capture before former.handle demangled = .ok (some former) ∧
      names former.handle = handle ∧ (source former).target = target := by
  obtain ⟨old, found, hfound, rfl, rfl⟩ :=
    exchanging.toRelocation.exists_of_placed? consistent hplaced
  have hedited : (edit old found.instruction).operation.directCallee? = some target := by
    simpa [Instruction.rename, Instruction.withOperation] using hcallee
  cases hcalled : found.instruction.operation.directCallee? with
  | none =>
      -- no edit turns another instruction into a direct call
      rw [exchanging.others hfound hcalled] at hedited
      cases hedited
  | some called =>
      obtain ⟨function, hfunction⟩ := calleesExist old found called hfound hcalled
      obtain ⟨former, rfl, hformer⟩ :=
        CallSite.exists_capture_of_directCallee? hfound hcalled hfunction demangled
      rw [(exchanging.calls hformer hfound).1, SiteForm.directCallee?_operation] at hedited
      exact ⟨former, hformer, rfl, Option.some.inj hedited⟩

/-- No other calls are found. -/
theorem exists_of_capture
    (hsite : CallSite.capture after site.handle demangled = .ok (some site)) :
    ∃ former, CallSite.capture before former.handle demangled = .ok (some former) ∧
      site = former.exchanged names (source former) := by
  obtain ⟨-, entry, hplaced, -, hoperation⟩ := CallSite.placed_of_capture hsite
  have hcallee : entry.instruction.operation.directCallee? = some site.target := by
    rw [hoperation]
    exact SiteForm.directCallee?_operation ..
  obtain ⟨former, hformer, hname, -⟩ :=
    exchanging.exists_former consistent calleesExist hplaced hcallee
  have hnow := exchanging.capture_eq hformer
  rw [hname, hsite] at hnow
  exact ⟨former, hformer, Option.some.inj (Except.ok.inj hnow)⟩

/-- The functions that are called are still there. -/
theorem calleesExist_after : after.CalleesExist := by
  intro handle entry target hplaced hcallee
  obtain ⟨former, hformer, -, rfl⟩ :=
    exchanging.exists_former consistent calleesExist hplaced hcallee
  obtain ⟨function, hfunction, -⟩ := exchanging.target hformer
  obtain ⟨now, hnow, -⟩ := exchanging.toRelocation.exists_function? hfunction
  exact ⟨now, hnow⟩

section Search

variable {search : CallSearch} (hdemangled : search.demangled = demangled)
  (hmatches : ∀ {site}, CallSite.capture before site.handle demangled = .ok (some site) →
    search.matchesKey (source site).name = search.matchesKey site.name)
include hdemangled hmatches

/-- What is seen under the new name of a handle is what was seen there, exchanged. -/
theorem seen_eq (hlisted : handle ∈ before.handles) :
    search.seen after (names handle) =
      (search.seen before handle).map fun site => site.exchanged names (source site) := by
  subst hdemangled
  cases hsite : search.seen before handle with
  | some site =>
      obtain ⟨rfl, hfinds⟩ := CallSearch.seen_eq_some_iff.mp hsite
      obtain ⟨hcapture, hkey⟩ := CallSearch.finds_iff.mp hfinds
      have hnow : search.Finds after (site.exchanged names (source site)) :=
        CallSearch.finds_iff.mpr
          ⟨exchanging.capture_eq hcapture, (hmatches hcapture).trans hkey⟩
      exact CallSearch.seen_eq_some_iff.mpr ⟨rfl, hnow⟩
  | none =>
      rw [Option.map_none, Option.eq_none_iff_forall_ne_some]
      intro now hnow
      obtain ⟨hhandle, hnow⟩ := CallSearch.seen_eq_some_iff.mp hnow
      obtain ⟨hcapture, hkey⟩ := CallSearch.finds_iff.mp hnow
      -- what is seen now gave way to a call, which would have been seen at `handle`
      obtain ⟨former, hformer, rfl⟩ :=
        exchanging.exists_of_capture consistent calleesExist hcapture
      obtain ⟨entry, hplaced⟩ := consistent.mem_handles_iff_placed?.mp hlisted
      obtain ⟨-, other, hother, -⟩ := CallSite.placed_of_capture hformer
      have hsame : former.handle = handle :=
        exchanging.toRelocation.injective consistent hother hplaced hhandle
      have hbefore := CallSearch.seen_eq_some_iff.mpr
        ⟨hsame, CallSearch.finds_iff.mpr ⟨hformer, (hmatches hformer).symm.trans hkey⟩⟩
      rw [hsite] at hbefore
      cases hbefore

/-- A search that tells no call from the one that it gave way to finds the calls that it found,
under the same numbers. -/
theorem inProgram {found : FoundCalls} (hfound : search.inProgram before = .ok found) :
    ∃ now, search.inProgram after = .ok now ∧
      now.sites = found.sites.map fun site => site.exchanged names (source site) := by
  rw [search.inProgram_eq consistent calleesExist] at hfound
  obtain rfl := Except.ok.inj hfound
  refine ⟨_, search.inProgram_eq exchanging.toRelocation.consistent
    (exchanging.calleesExist_after consistent calleesExist), ?_⟩
  have hseen {handle : Handle} (hlisted : handle ∈ before.handles) :=
    exchanging.seen_eq consistent calleesExist hdemangled hmatches hlisted
  calc (FoundCalls.ofSites (after.handles.filterMap (search.seen after))).sites
      = (FoundCalls.ofSites
          (before.handles.filterMap (search.seen after ∘ names))).sites := by
        rw [exchanging.toRelocation.handles_eq, List.filterMap_map]
    _ = (FoundCalls.ofSites ((before.handles.filterMap (search.seen before)).map
          fun site => site.exchanged names (source site))).sites := by
        rw [List.map_filterMap]
        exact congrArg (fun sites => (FoundCalls.ofSites sites).sites)
          (List.filterMap_congr fun _ hlisted => hseen hlisted)
    _ = _ := @FoundCalls.sites_ofSites_map (fun site => site.exchanged names (source site))
        (fun _ => rfl) _

end Search

end Exchanging

end Program

end ConcurrencyFaults

import ConcurrencyFaults.Proofs.Operators.Candidates

/-!
# Complete enumerations

A search finds every direct call of a function that it looks for, once and in visitation order, and
its numbers run through all plain calls and then through all invokes (`CallSearch.Enumerates`).

The sites can be grouped by function in two ways.  One sorts the sites of the whole program, the
other searches one function.  Both give the same groups because the visitation order goes through
one function after another, and sorting by function commutes with sorting by form
(`FoundCalls.inFunction_ofSites`).

## Strategy

* At one handle, a search sees a call exactly if there is a direct call whose target is looked for
  (`isTarget_of_seen`, `isTarget_of_seen_eq_none`).
* Along a list of handles, the sites of one form are then the targets of this form, in the same
  order (`map_filterMap_seen`).
* The visitation order is made of one block for each function, and the sites of a block belong to
  its function, so sorting by function takes one block out (`filter_flatMap_of_mem`,
  `filter_function_seen`).  This is what a search of the function alone goes through
  (`inFunction_eq`).
-/

namespace ConcurrencyFaults

open Program

namespace CallSearch

/-- Whether there is a direct call of one form at a handle whose target is looked for. -/
def isTarget (search : CallSearch) (program : Program) (form : CallForm) (handle : Handle) :
    Bool :=
  (program.instruction? handle).any fun instruction =>
    instruction.operation.callForm? == some form &&
      (instruction.operation.directCallee?.bind program.function?).any fun target =>
        search.names.contains (Symbol.key target.name search.demangled)

/-- The direct calls of one form whose target is looked for, in visitation order. -/
def targets (search : CallSearch) (program : Program) (form : CallForm) : List Handle :=
  program.handles.filter (search.isTarget program form)

/-- The search found what there is to find, in the order of its numbers, and sorts it by function
as searching each function does. -/
structure Enumerates (search : CallSearch) (program : Program) (found : FoundCalls) : Prop where
  captured : ∀ site ∈ found.sites,
    CallSite.capture program site.handle search.demangled = .ok (some site)
  calls_eq : found.calls.map CallSite.handle = search.targets program .call
  invokes_eq : found.invokes.map CallSite.handle = search.targets program .invoke
  nodup : ((found.calls ++ found.invokes).map CallSite.handle).Nodup
  get?_eq : ∀ number, found.get? number = (found.calls ++ found.invokes)[number]?
  get?_eq_none_iff : ∀ number, found.get? number = none ↔ found.size ≤ number
  /-- There is one group for a function. -/
  nodup_functions : (found.perFunction.map Prod.fst).Nodup
  answered : ∀ function ∈ program.functions,
    ∃ group, search.inFunction program function.id = .ok group
  /-- A function has a group exactly if searching it finds something, which is then the group. -/
  mem_perFunction_iff : ∀ function group, (function, group) ∈ found.perFunction ↔
    search.inFunction program function = .ok group ∧ group.isEmpty = false

end CallSearch

/-! ## One handle

What a target is, is said by looking at the instruction alone.  A search goes by way of capturing a
site, which looks the callee up a second time. -/

theorem Operation.callForm?_operation (site : CallSite) :
    site.operation.callForm? = some site.form.form := by
  unfold CallSite.operation
  cases site.form <;> rfl

section Targets

variable {search : CallSearch} {program : Program} {form : CallForm} {handle : Handle}
  {site : CallSite}

theorem CallSearch.isTarget_iff :
    search.isTarget program form handle = true ↔
      ∃ entry target, program.placed? handle = some entry ∧
        entry.instruction.operation.callForm? = some form ∧
          entry.instruction.operation.directCallee?.bind program.function? = some target ∧
            search.matchesKey (Symbol.key target.name search.demangled) = true := by
  simp only [isTarget, instruction?, Option.any_eq_true, Option.map_eq_some_iff,
    Bool.and_eq_true, beq_iff_eq, matchesKey]
  constructor
  · rintro ⟨_, ⟨entry, hplaced, rfl⟩, hform, target, htarget, hkey⟩
    exact ⟨entry, target, hplaced, hform, htarget, hkey⟩
  · rintro ⟨entry, target, hplaced, hform, htarget, hkey⟩
    exact ⟨_, ⟨entry, hplaced, rfl⟩, hform, target, htarget, hkey⟩

/-- A site is a target of its own form. -/
theorem CallSearch.isTarget_of_seen (hseen : search.seen program handle = some site) :
    search.isTarget program form handle = (site.form.form == form) := by
  obtain ⟨rfl, hfinds⟩ := seen_eq_some_iff.mp hseen
  obtain ⟨hcapture, hkey⟩ := finds_iff.mp hfinds
  obtain ⟨entry, target, hplaced, htarget, hoperation, hsite⟩ :=
    CallSite.capture_eq_some_iff.mp hcapture
  have hform : entry.instruction.operation.callForm? = some site.form.form :=
    hoperation ▸ Operation.callForm?_operation site
  have hname : site.name = Symbol.key target.name search.demangled := congrArg CallSite.name hsite
  have hcallee : entry.instruction.operation.directCallee?.bind program.function? =
      some target := by
    rw [hoperation, CallSite.operation, SiteForm.directCallee?_operation]
    exact htarget
  rw [Bool.eq_iff_iff, beq_iff_eq, isTarget_iff]
  constructor
  · rintro ⟨found, -, hfound, hsame, -⟩
    obtain rfl : entry = found := Option.some.inj (hplaced.symm.trans hfound)
    exact Option.some.inj (hform.symm.trans hsame)
  · rintro rfl
    exact ⟨entry, target, hplaced, hform, hcallee, hname ▸ hkey⟩

/-- What is not seen is no target. -/
theorem CallSearch.isTarget_of_seen_eq_none (hnone : search.seen program handle = none) :
    search.isTarget program form handle = false := by
  rw [Bool.eq_false_iff, ne_eq, isTarget_iff]
  rintro ⟨entry, target, hplaced, -, htarget, hkey⟩
  obtain ⟨callee, hcallee, hfunction⟩ := Option.bind_eq_some_iff.mp htarget
  obtain ⟨site, rfl, hcapture⟩ :=
    CallSite.exists_capture_of_directCallee? hplaced hcallee hfunction search.demangled
  obtain ⟨found, called, hfound, hcalled, hoperation, hsite⟩ :=
    CallSite.capture_eq_some_iff.mp hcapture
  obtain rfl : entry = found := Option.some.inj (hplaced.symm.trans hfound)
  have hsame : site.target = callee := by
    rw [hoperation, CallSite.operation, SiteForm.directCallee?_operation] at hcallee
    exact Option.some.inj hcallee
  rw [hsame, hfunction] at hcalled
  obtain rfl := Option.some.inj hcalled
  have hname : site.name = Symbol.key target.name search.demangled := congrArg CallSite.name hsite
  -- a target would be captured, and its name would be looked for
  have hseen := seen_eq_some_iff.mpr ⟨rfl, finds_iff.mpr ⟨hcapture, hname ▸ hkey⟩⟩
  rw [hnone] at hseen
  cases hseen

/-- The sites of one form that are seen at some handles are the targets among these. -/
theorem CallSearch.map_filterMap_seen {selects : CallSite → Bool} (handles : List Handle)
    (hselects : ∀ site, selects site = (site.form.form == form)) :
    ((handles.filterMap (search.seen program)).filter selects).map CallSite.handle =
      handles.filter (search.isTarget program form) := by
  rw [List.filter_filterMap, List.map_filterMap, ← List.filterMap_eq_filter]
  refine List.filterMap_congr fun handle _ => ?_
  cases hseen : search.seen program handle with
  | none => simp [Option.guard, isTarget_of_seen_eq_none hseen]
  | some site =>
      have htarget := @isTarget_of_seen search program form handle site hseen
      have hhandle := (seen_eq_some_iff.mp hseen).1
      rw [← hselects] at htarget
      cases hselected : selects site <;>
        simp [Option.guard, Option.filter, hselected, htarget, hhandle]

end Targets

/-! ## Groups

A group is a part of what was found, sorted by form once more.  Sorting twice does no harm, and the
order of the two sortings does not matter. -/

namespace FoundCalls

variable {found group : FoundCalls}

theorem isEmpty_eq_false_iff : found.isEmpty = false ↔ ∃ site, site ∈ found.sites := by
  rw [← List.length_pos_iff_exists_mem, List.length_pos_iff, Bool.eq_false_iff]
  simp [isEmpty, FoundCalls.sites, List.append_eq_nil_iff]

theorem ofSites_sites_ofSites (sites : List CallSite) :
    ofSites (ofSites sites).sites = ofSites sites := by
  simp [ofSites, FoundCalls.sites, List.filter_filter]

theorem ofSites_filter (sites : List CallSite) (selects : CallSite → Bool) :
    ofSites (sites.filter selects) =
      { calls := (ofSites sites).calls.filter selects
        invokes := (ofSites sites).invokes.filter selects } := by
  simp only [ofSites, List.filter_comm]

/-- Sorting by form does not get in the way of sorting by function. -/
theorem inFunction_ofSites (sites : List CallSite) (function : FunctionId) :
    (ofSites sites).inFunction function = ofSites (sites.filter (·.function == function)) := by
  rw [inFunction, ofSites_filter, ofSites_sites_ofSites, ofSites_filter]

/-- Every function that holds a site has its group. -/
theorem mem_perFunction_iff {function : FunctionId} :
    (function, group) ∈ found.perFunction ↔
      found.inFunction function = group ∧ group.isEmpty = false := by
  simp only [perFunction, List.mem_map, Prod.mk.injEq, mem_functions]
  constructor
  · rintro ⟨_, ⟨site, hsite, hfunction⟩, rfl, rfl⟩
    exact ⟨rfl, isEmpty_eq_false_iff.mpr ⟨site, mem_inFunction.mpr ⟨hsite, hfunction⟩⟩⟩
  · rintro ⟨rfl, hsites⟩
    obtain ⟨site, hsite⟩ := isEmpty_eq_false_iff.mp hsites
    obtain ⟨hsite, hfunction⟩ := mem_inFunction.mp hsite
    exact ⟨function, ⟨site, hsite, hfunction⟩, rfl, rfl⟩

theorem nodup_functions : (found.perFunction.map Prod.fst).Nodup := by
  rw [perFunction, List.map_map]
  exact (List.map_id _).symm ▸ pairwise_functions.imp Nat.ne_of_lt

end FoundCalls

/-- Of blocks with different keys, the entries with one of the keys are the block of that key. -/
theorem filter_flatMap_of_mem {Item Output Key : Type} [DecidableEq Key] {items : List Item}
    {block : Item → List Output} {key : Item → Key} {keyOf : Output → Key} {item : Item}
    (hnodup : (items.map key).Nodup)
    (hblocks : ∀ item ∈ items, ∀ output ∈ block item, keyOf output = key item)
    (hmem : item ∈ items) : (items.flatMap block).filter (keyOf · == key item) = block item := by
  induction items with
  | nil => cases hmem
  | cons first rest ih =>
      have hfirst := hblocks first (List.mem_cons_self ..)
      have hrest := fun other hother => hblocks other (List.mem_cons_of_mem _ hother)
      obtain ⟨hfresh, hnodup⟩ := List.nodup_cons.mp hnodup
      rw [List.flatMap_cons, List.filter_append]
      rcases List.mem_cons.mp hmem with rfl | hlater
      · have hown : (block item).filter (keyOf · == key item) = block item :=
          List.filter_eq_self.mpr fun output houtput => beq_iff_eq.mpr (hfirst output houtput)
        have hothers : (rest.flatMap block).filter (keyOf · == key item) = [] := by
          refine List.filter_eq_nil_iff.mpr fun output houtput hkey => hfresh ?_
          obtain ⟨other, hother, houtput⟩ := List.mem_flatMap.mp houtput
          rw [← beq_iff_eq.mp hkey, hrest other hother output houtput]
          exact List.mem_map_of_mem hother
        rw [hown, hothers, List.append_nil]
      · have hnone : (block first).filter (keyOf · == key item) = [] := by
          refine List.filter_eq_nil_iff.mpr fun output houtput hkey => hfresh ?_
          rw [← hfirst output houtput, beq_iff_eq.mp hkey]
          exact List.mem_map_of_mem hlater
        rw [hnone, List.nil_append, ih hnodup hrest hlater]

namespace CallSearch

variable {search : CallSearch} {program : Program} {found group : FoundCalls}

/-- A function that is searched exists. -/
theorem exists_function?_of_inFunction {function : FunctionId}
    (hgroup : search.inFunction program function = .ok group) :
    ∃ body, program.function? function = some body := by
  obtain ⟨_, hsites, -⟩ := Except.map_eq_ok_iff.mp hgroup
  obtain ⟨_, hhandles, -⟩ := Except.bind_eq_ok_iff.mp hsites
  obtain ⟨body, hbody, -⟩ := Except.map_eq_ok_iff.mp hhandles
  exact ⟨body, function_eq_ok_iff.mp hbody⟩

section Answer

variable (consistent : program.Consistent) (calleesExist : program.CalleesExist)
include consistent

/-- What is seen in one function is what is seen at its handles. -/
theorem filter_function_seen (search : CallSearch) {function : Function}
    (hmem : function ∈ program.functions) :
    (program.handles.filterMap (search.seen program)).filter (·.function == function.id) =
      function.handles.filterMap (search.seen program) := by
  rw [handles, List.filterMap_flatMap]
  refine @filter_flatMap_of_mem Function CallSite FunctionId _ _ _ Function.id _ _
    consistent.nodup_ids (fun other hother site hsite => ?_) hmem
  obtain ⟨handle, hhandle, hseen⟩ := List.mem_filterMap.mp hsite
  obtain ⟨rfl, hfinds⟩ := seen_eq_some_iff.mp hseen
  obtain ⟨entry, hplaced, hfunction, -⟩ := hfinds.intact
  obtain ⟨listed, hlisted, hid⟩ :=
    consistent.placed_of_mem_function (consistent.function?_id hother) hhandle
  obtain rfl : entry = listed := Option.some.inj (hplaced.symm.trans hlisted)
  exact hfunction.symm.trans hid

include calleesExist

/-- Searching one function finds its part of what is found in the whole program. -/
theorem inFunction_eq (hfound : search.inProgram program = .ok found) {function : Function}
    (hmem : function ∈ program.functions) :
    search.inFunction program function.id = .ok (found.inFunction function.id) := by
  rw [search.inProgram_eq consistent calleesExist] at hfound
  obtain rfl := Except.ok.inj hfound
  calc search.inFunction program function.id
      = .ok (FoundCalls.ofSites (function.handles.filterMap (search.seen program))) := by
        rw [inFunction, search.sitesIn_eq consistent calleesExist hmem]
        rfl
    _ = .ok (FoundCalls.ofSites ((program.handles.filterMap (search.seen program)).filter
          (·.function == function.id))) := by
        rw [search.filter_function_seen consistent hmem]
    _ = .ok ((FoundCalls.ofSites (program.handles.filterMap (search.seen program))).inFunction
          function.id) := by
        rw [FoundCalls.inFunction_ofSites]

theorem mem_perFunction_iff (hfound : search.inProgram program = .ok found)
    {function : FunctionId} :
    (function, group) ∈ found.perFunction ↔
      search.inFunction program function = .ok group ∧ group.isEmpty = false := by
  have hsame {body : Function} (hbody : program.function? function = some body) :
      search.inFunction program function = .ok (found.inFunction function) := by
    obtain rfl : body.id = function := consistent.function_id hbody
    exact inFunction_eq consistent calleesExist hfound (List.mem_of_getElem? hbody)
  rw [FoundCalls.mem_perFunction_iff]
  constructor
  · rintro ⟨rfl, hsites⟩
    -- the function of a site exists
    obtain ⟨site, hsite⟩ := FoundCalls.isEmpty_eq_false_iff.mp hsites
    obtain ⟨hlisted, rfl⟩ := FoundCalls.mem_inFunction.mp hsite
    obtain ⟨entry, hplaced, hfunction, -⟩ := (finds_of_inProgram hfound hlisted).intact
    obtain ⟨body, hbody, -⟩ := consistent.function_of_placed hplaced
    exact ⟨hsame (hfunction ▸ hbody), hsites⟩
  · rintro ⟨hgroup, hsites⟩
    obtain ⟨body, hbody⟩ := exists_function?_of_inFunction hgroup
    exact ⟨Except.ok.inj ((hsame hbody).symm.trans hgroup), hsites⟩

theorem map_handle_calls (hfound : search.inProgram program = .ok found) :
    found.calls.map CallSite.handle = search.targets program .call := by
  rw [search.inProgram_eq consistent calleesExist] at hfound
  obtain rfl := Except.ok.inj hfound
  refine map_filterMap_seen _ fun site => ?_
  cases hform : site.form.form <;> simp [CallSite.isInvoke, hform]

theorem map_handle_invokes (hfound : search.inProgram program = .ok found) :
    found.invokes.map CallSite.handle = search.targets program .invoke := by
  rw [search.inProgram_eq consistent calleesExist] at hfound
  obtain rfl := Except.ok.inj hfound
  exact map_filterMap_seen _ fun site => rfl

/-- A search finds all targets in their order, whether the program is searched as a whole or
function by function. -/
theorem exists_enumerates (search : CallSearch) :
    ∃ found, search.inProgram program = .ok found ∧ search.Enumerates program found := by
  have hfound := search.inProgram_eq consistent calleesExist
  have hsize (number : Nat) (found : FoundCalls) :
      found.get? number = none ↔ found.size ≤ number := by
    rw [found.get?_eq, List.getElem?_eq_none_iff, FoundCalls.sites, List.length_append,
      FoundCalls.size]
  have hlisted := (Operator.listed_calls consistent calleesExist hfound).nodup
  rw [List.map_map] at hlisted
  exact ⟨_, hfound, {
    captured := fun site hsite => (finds_iff.mp (finds_of_inProgram hfound hsite)).1
    calls_eq := map_handle_calls consistent calleesExist hfound
    invokes_eq := map_handle_invokes consistent calleesExist hfound
    nodup := hlisted
    get?_eq := FoundCalls.get?_eq _
    get?_eq_none_iff := fun number => hsize number _
    nodup_functions := FoundCalls.nodup_functions
    answered := fun function hmem => ⟨_, inFunction_eq consistent calleesExist hfound hmem⟩
    mem_perFunction_iff := fun function group =>
      mem_perFunction_iff consistent calleesExist hfound }⟩

end Answer

/-- Two functions that join threads.  One of them joins in both forms, and calls something else and
a function pointer in between. -/
def joinedThreads : Program :=
  Command.run [.declare "pthread_join" .status, .declare "printf" .status,
    .addFunction "main" .void [], .addBlock 2 "entry", .addBlock 2 "next", .addBlock 2 "pad",
    .push 2 0 (.ofOperation (.call (.direct 0) [.parameter 0, .undefined] .status)),
    .push 2 0 (.ofOperation (.call (.direct 1) [] .status)),
    .push 2 0 (.ofOperation (.call (.indirect (.parameter 1)) [] .status)),
    .push 2 0 (.ofOperation (.invoke (.direct 0) [.parameter 2, .undefined] .status 1 2)),
    .push 2 1 (.ofOperation (.call (.direct 0) [.parameter 1, .undefined] .status)),
    .push 2 1 (.ofOperation (.ret none)),
    .push 2 2 (.ofOperation .unreachable),
    .addFunction "helper" .void [], .addBlock 3 "entry",
    .push 3 0 (.ofOperation (.call (.direct 0) [.parameter 0, .undefined] .status)),
    .push 3 0 (.ofOperation (.ret none))]
    { name := "joined" }

theorem consistent_joinedThreads : joinedThreads.Consistent :=
  Command.consistent_run (Command.consistent_empty "joined") _

theorem exists_enumerates_joinedThreads :
    ∃ found, ({ names := ["pthread_join"] } : CallSearch).inProgram joinedThreads = .ok found ∧
      ({ names := ["pthread_join"] } : CallSearch).Enumerates joinedThreads found :=
  exists_enumerates consistent_joinedThreads
    (consistent_joinedThreads.calleesExist_iff.mpr (by decide)) _

example : (({ names := ["pthread_join"] } : CallSearch).targets joinedThreads .call).map (·.slot) =
    [0, 4, 7] := by decide

end CallSearch

end ConcurrencyFaults

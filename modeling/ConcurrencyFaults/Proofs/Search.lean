import ConcurrencyFaults.Proofs.Sites

/-!
# What a search finds, and in which order

On a consistent program whose direct callees exist a search is answered, and its answer can be
written down: what it sees at each handle, handle after handle in visitation order
(`CallSearch.inProgram_eq`).  A search therefore finds exactly the direct calls of the functions it
looks for, and lists the calls of one function by their rank: plain calls before invokes, calls of
one form by their positions (`CallSite.Precedes`).

Grouping by function loses nothing, and the groups follow each other in ascending order.

## Strategy

* A search is a loop over functions in a loop over handles, each step of which may be refused.  On a
  consistent program with existing callees no step is (`Except.mapM_eq_map`), and the loops are list
  operations on the visitation order (`sitesIn_eq`, `inProgram_eq`).
* The visitation order of one function is the order of positions (`pairwise_function`); this is
  stated for all handles at once, with nothing said about handles of different functions
  (`pairwise_handles`).
* Sorting by form turns the visitation order into ranks (`pairwise_sites_ofSites`).
-/

namespace ConcurrencyFaults

/-- Questions that are all answered are answered together. -/
theorem Except.mapM_eq_map {Error Item Answer : Type} {items : List Item}
    {question : Item → Except Error Answer} {answer : Item → Answer}
    (hanswer : ∀ item ∈ items, question item = .ok (answer item)) :
    items.mapM question = .ok (items.map answer) := by
  induction items with
  | nil => rfl
  | cons item rest ih =>
      rw [List.mapM_cons, hanswer item (List.mem_cons_self ..),
        ih fun other hother => hanswer other (List.mem_cons_of_mem _ hother)]
      rfl

theorem Operation.isNone_callForm? {operation : Operation} {target : FunctionId}
    (hcallee : operation.directCallee? = some target) : operation.callForm?.isNone = false := by
  cases operation with
  | call | invoke => rfl
  | _ => cases hcallee

/-! ## The visitation order

A position is a number that the program answers with, so the order of positions is a relation
between handles of one function. -/

namespace Program

variable {program : Program}

/-- The first instruction stands before the second in the function that holds both. -/
def Precedes (program : Program) (first second : Handle) : Prop :=
  ∃ earlier later, program.position first = .ok earlier ∧ program.position second = .ok later ∧
    earlier < later

theorem Precedes.irrefl {handle : Handle} : ¬ program.Precedes handle handle := by
  rintro ⟨earlier, later, hearlier, hlater, hlt⟩
  rw [hearlier] at hlater
  exact absurd (Except.ok.inj hlater) (Nat.ne_of_lt hlt)

theorem Precedes.asymm {first second : Handle} (hprecedes : program.Precedes first second) :
    ¬ program.Precedes second first := by
  rintro ⟨later, earlier, hlater, hearlier, hlt⟩
  obtain ⟨place, next, hplace, hnext, hgt⟩ := hprecedes
  rw [hearlier] at hplace
  rw [hlater] at hnext
  obtain rfl := Except.ok.inj hplace
  obtain rfl := Except.ok.inj hnext
  exact absurd hlt (Nat.lt_asymm hgt)

/-- In a list without repetitions a handle is found where it stands. -/
theorem findIdx?_getElem {handles : List Handle} (hnodup : handles.Nodup) {place : Nat}
    (hplace : place < handles.length) :
    handles.findIdx? (· == handles[place]) = some place := by
  refine List.findIdx?_eq_some_iff_getElem.mpr ⟨hplace, by simp, fun earlier hearlier => ?_⟩
  simpa using (List.pairwise_iff_getElem.mp hnodup) earlier place
    (Nat.lt_trans hearlier hplace) hplace hearlier

namespace Consistent

variable (consistent : program.Consistent)
include consistent

/-- The position of an instruction is its place in the list of its function. -/
theorem position_getElem {id : FunctionId} {function : Function}
    (hfunction : program.function? id = some function) {place : Nat}
    (hplace : place < function.handles.length) :
    program.position function.handles[place] = .ok place := by
  obtain ⟨entry, hplaced, rfl⟩ :=
    consistent.placed_of_mem_function hfunction (List.getElem_mem hplace)
  have hfirst := findIdx?_getElem (consistent.nodup_function hfunction) hplace
  simp [position, parent_of_placed? hplaced, handlesOf_of_function? hfunction, hfirst, bind,
    Except.bind, pure, Except.pure]

theorem function?_id {function : Function} (hmem : function ∈ program.functions) :
    program.function? function.id = some function := by
  obtain ⟨place, hplace⟩ := List.mem_iff_getElem?.mp hmem
  rw [consistent.function_id hplace]
  exact hplace

theorem nodup_ids : (program.functions.map Function.id).Nodup := by
  have hids : program.functions.map Function.id = List.range program.functions.length := by
    refine List.ext_getElem (by simp) fun place hplace _ => ?_
    simp only [List.length_map] at hplace
    rw [List.getElem_map, List.getElem_range]
    exact consistent.function_id (List.getElem?_eq_getElem hplace)
  rw [hids]
  exact List.nodup_range

theorem pairwise_function {id : FunctionId} {function : Function}
    (hfunction : program.function? id = some function) :
    function.handles.Pairwise program.Precedes :=
  List.pairwise_iff_getElem.mpr fun first second hfirst hsecond hlt =>
    ⟨first, second, consistent.position_getElem hfunction hfirst,
      consistent.position_getElem hfunction hsecond, hlt⟩

/-- Within one function, handles are listed by their positions. -/
theorem pairwise_handles :
    program.handles.Pairwise fun first second => ∀ entry other,
      program.placed? first = some entry → program.placed? second = some other →
        entry.function = other.function → program.Precedes first second := by
  refine List.pairwise_flatMap.mpr ⟨fun function hmem => ?_, List.pairwise_iff_getElem.mpr ?_⟩
  · have hfunction := consistent.function?_id hmem
    exact (consistent.pairwise_function hfunction).imp fun hprecedes _ _ _ _ _ => hprecedes
  -- instructions of two functions are not compared
  · intro first second hfirst hsecond hlt handle hhandle later hlater entry other hentry hother
      hsame
    obtain ⟨found, hfound, hid⟩ := consistent.placed_of_mem_function
      (List.getElem?_eq_getElem hfirst) hhandle
    obtain ⟨foundLater, hfoundLater, hidLater⟩ := consistent.placed_of_mem_function
      (List.getElem?_eq_getElem hsecond) hlater
    rw [hentry, Option.some.injEq] at hfound
    rw [hother, Option.some.injEq] at hfoundLater
    subst hfound hfoundLater
    exact absurd (hid.symm.trans (hsame.trans hidLater)) (Nat.ne_of_lt hlt)

end Consistent

end Program

/-- To find out whether all callees exist it is enough to look at the listed instructions. -/
theorem Program.Consistent.calleesExist_iff {program : Program} (consistent : program.Consistent) :
    program.CalleesExist ↔ ∀ handle ∈ program.handles, ∀ entry ∈ program.placed? handle,
      ∀ target ∈ entry.instruction.operation.directCallee?, (program.function? target).isSome := by
  rw [← consistent.forall_placed_iff]
  simp only [CalleesExist, Option.isSome_iff_exists, Option.mem_def]
  exact ⟨fun h handle entry hplaced target htarget => h handle entry target hplaced htarget,
    fun h handle entry target hplaced htarget => h handle entry hplaced target htarget⟩

/-- To look at all calls that can be captured it is enough to look at the listed instructions. -/
theorem Program.Consistent.forall_capture_iff {program : Program} (consistent : program.Consistent)
    {demangled : Bool} {property : CallSite → Prop} :
    (∀ site, CallSite.capture program site.handle demangled = .ok (some site) → property site) ↔
      ∀ handle ∈ program.handles,
        ∀ site ∈ (CallSite.capture program handle demangled).toOption.join, property site := by
  constructor
  · intro hall handle _ site hsite
    have hcapture : CallSite.capture program handle demangled = .ok (some site) := by
      cases hfound : CallSite.capture program handle demangled with
      | error problem =>
          rw [hfound] at hsite
          cases hsite
      | ok site? =>
          rw [hfound] at hsite
          exact congrArg Except.ok hsite
    exact hall site ((CallSite.placed_of_capture hcapture).1 ▸ hcapture)
  · intro hlisted site hsite
    obtain ⟨-, entry, hplaced, -⟩ := CallSite.placed_of_capture hsite
    have hlive : site.handle ∈ program.handles :=
      consistent.mem_handles_of_isLive (by simp [Program.isLive, hplaced])
    exact hlisted site.handle hlive site (by rw [hsite]; rfl)

/-! ## The answer of a search

What is known of the visitation order carries over to sites by way of their handles. -/

/-- Plain calls come before invokes, and calls of one form are in visitation order. -/
def CallSite.Precedes (program : Program) (first second : CallSite) : Prop :=
  first.isInvoke = false ∧ second.isInvoke = true ∨
    first.isInvoke = second.isInvoke ∧ program.Precedes first.handle second.handle

theorem CallSite.Precedes.irrefl {program : Program} {site : CallSite} :
    ¬ site.Precedes program site := by
  rintro (⟨hcall, hinvoke⟩ | ⟨-, hbefore⟩)
  · rw [hcall] at hinvoke
    cases hinvoke
  · exact Program.Precedes.irrefl hbefore

theorem CallSite.Precedes.asymm {program : Program} {first second : CallSite}
    (hprecedes : first.Precedes program second) : ¬ second.Precedes program first := by
  rintro (⟨hsecond, hfirst⟩ | ⟨hform, hback⟩)
  · rcases hprecedes with ⟨hcall, -⟩ | ⟨hform, -⟩
    · rw [hcall] at hfirst
      cases hfirst
    · rw [hsecond, hfirst] at hform
      cases hform
  · rcases hprecedes with ⟨hcall, hinvoke⟩ | ⟨-, hforth⟩
    · rw [hcall, hinvoke] at hform
      cases hform
    · exact hforth.asymm hback

namespace FoundCalls

variable {found : FoundCalls}

/-- Numbering calls before invokes keeps the order of calls of one form. -/
theorem pairwise_sites_ofSites {sites : List CallSite} {visited ranked : CallSite → CallSite → Prop}
    (hsites : sites.Pairwise visited)
    (hsame : ∀ first second, first.isInvoke = second.isInvoke → visited first second →
      ranked first second)
    (hforms : ∀ first second, first.isInvoke = false → second.isInvoke = true →
      ranked first second) : (ofSites sites).sites.Pairwise ranked := by
  refine List.pairwise_append.mpr ⟨?_, ?_, ?_⟩
  · refine List.pairwise_filter.mpr (hsites.imp fun hvisited hfirst hsecond => ?_)
    simp only [Bool.not_eq_true'] at hfirst hsecond
    exact hsame _ _ (hfirst.trans hsecond.symm) hvisited
  · refine List.pairwise_filter.mpr (hsites.imp fun hvisited hfirst hsecond => ?_)
    exact hsame _ _ (hfirst.trans hsecond.symm) hvisited
  · intro first hfirst second hsecond
    exact hforms _ _ (by simpa using (List.mem_filter.mp hfirst).2) (List.mem_filter.mp hsecond).2

/-! ### Groups

The functions of the sites are collected in an ascending list without repetitions. -/

@[simp] theorem mem_insertAscending {function other : FunctionId} {functions : List FunctionId} :
    other ∈ insertAscending function functions ↔ other = function ∨ other ∈ functions := by
  induction functions with
  | nil => simp [insertAscending]
  | cons first rest ih =>
      unfold insertAscending
      split
      · simp
      · split
        · simp_all
        · simp only [List.mem_cons, ih, or_left_comm]

theorem pairwise_insertAscending {function : FunctionId} {functions : List FunctionId}
    (hascending : functions.Pairwise (· < ·)) :
    (insertAscending function functions).Pairwise (· < ·) := by
  induction functions with
  | nil => simp [insertAscending]
  | cons first rest ih =>
      obtain ⟨hfirst, hrest⟩ := List.pairwise_cons.mp hascending
      unfold insertAscending
      split
      · rename_i hlt
        refine List.pairwise_cons.mpr ⟨fun other hother => ?_, hascending⟩
        rcases List.mem_cons.mp hother with rfl | hother
        · exact hlt
        · exact Nat.lt_trans hlt (hfirst other hother)
      · rename_i hnot
        split
        · exact hascending
        · rename_i hne
          refine List.pairwise_cons.mpr ⟨fun other hother => ?_, ih hrest⟩
          rcases mem_insertAscending.mp hother with rfl | hother
          · exact Nat.lt_of_le_of_ne (Nat.not_lt.mp hnot) (Ne.symm hne)
          · exact hfirst other hother

theorem mem_functions {function : FunctionId} :
    function ∈ found.functions ↔ ∃ site ∈ found.sites, site.function = function := by
  unfold functions
  induction found.sites with
  | nil => simp
  | cons site rest ih =>
      simp only [List.map_cons, List.foldr_cons, mem_insertAscending, ih, List.mem_cons,
        exists_eq_or_imp]
      exact or_congr eq_comm Iff.rfl

theorem pairwise_functions : found.functions.Pairwise (· < ·) := by
  unfold functions
  induction found.sites with
  | nil => exact .nil
  | cons site rest ih => exact pairwise_insertAscending ih

theorem mem_inFunction {function : FunctionId} {site : CallSite} :
    site ∈ (found.inFunction function).sites ↔ site ∈ found.sites ∧ site.function = function := by
  simp [inFunction]

end FoundCalls

namespace CallSearch

variable {search : CallSearch} {program : Program} {site : CallSite} {found : FoundCalls}

/-- What a search sees is a direct call of a function that it looks for. -/
theorem finds_iff : search.Finds program site ↔
    CallSite.capture program site.handle search.demangled = .ok (some site) ∧
      search.matchesKey site.name = true := by
  constructor
  · intro hfinds
    refine ⟨capture_of_siteAt hfinds, ?_⟩
    unfold Finds siteAt at hfinds
    obtain ⟨instruction, -, hfinds⟩ := Except.bind_eq_ok_iff.mp hfinds
    split at hfinds
    · cases hfinds
    · obtain ⟨site?, -, hfinds⟩ := Except.bind_eq_ok_iff.mp hfinds
      exact (Option.filter_eq_some_iff.mp (Except.ok.inj hfinds)).2
  · rintro ⟨hcapture, hkey⟩
    obtain ⟨-, entry, hplaced, -, hshape⟩ := CallSite.intact_of_capture hcapture
    have hcallee : entry.instruction.operation.directCallee? = some site.target := by
      rw [Operation.directCallee?_eq_of_shape_eq hshape]
      exact SiteForm.directCallee?_operation ..
    have hcall := Operation.isNone_callForm? hcallee
    unfold Finds siteAt
    simp [Program.instruction_of_placed? hplaced, hcall, hcapture, hkey, bind, Except.bind, pure,
      Except.pure]

/-- A search that is answered has looked at every call, so whatever is called exists. -/
theorem calleesExist_of_inProgram (consistent : program.Consistent)
    (hfound : search.inProgram program = .ok found) : program.CalleesExist := by
  intro handle entry target hplaced hcallee
  obtain ⟨function, hfunction, hmem⟩ := consistent.function_of_placed hplaced
  obtain ⟨groups, hgroups, -⟩ := Except.map_eq_ok_iff.mp hfound
  obtain ⟨sites, hsites⟩ := Except.exists_of_mapM hgroups (List.mem_of_getElem? hfunction)
  obtain ⟨handles, hhandles, hsites⟩ := Except.bind_eq_ok_iff.mp hsites
  obtain ⟨_, hseen, -⟩ := Except.bind_eq_ok_iff.mp hsites
  rw [consistent.function_id hfunction, Program.handlesOf_of_function? hfunction] at hhandles
  obtain rfl := Except.ok.inj hhandles
  obtain ⟨site?, hsite⟩ := Except.exists_of_mapM hseen hmem
  -- the search has captured the call, for which it looked the callee up
  simp only [siteAt, Program.instruction_of_placed? hplaced, bind, Except.bind,
    Operation.isNone_callForm? hcallee, Bool.false_eq_true, if_false] at hsite
  cases hcapture : CallSite.capture program handle search.demangled with
  | error problem =>
      rw [hcapture] at hsite
      cases hsite
  | ok site? => exact CallSite.exists_function_of_capture hplaced hcallee hcapture

/-- The site at a handle, if the search sees one there. -/
def seen (search : CallSearch) (program : Program) (handle : Handle) : Option CallSite :=
  (search.siteAt program handle).toOption.join

theorem seen_eq_some_iff {handle : Handle} :
    search.seen program handle = some site ↔
      site.handle = handle ∧ search.Finds program site := by
  unfold seen
  constructor
  · intro hseen
    cases hsite : search.siteAt program handle with
    | error problem =>
        rw [hsite] at hseen
        cases hseen
    | ok site? =>
        rw [hsite] at hseen
        obtain rfl : site? = some site := hseen
        exact ⟨(CallSite.intact_of_capture (capture_of_siteAt hsite)).1, finds_of_siteAt hsite⟩
  · rintro ⟨rfl, hfinds⟩
    rw [show search.siteAt program site.handle = _ from hfinds]
    rfl

section Answer

variable (consistent : program.Consistent) (hcallees : program.CalleesExist)
include consistent hcallees

theorem sitesIn_eq (search : CallSearch) {function : Function}
    (hmem : function ∈ program.functions) :
    search.sitesIn program function.id =
      .ok (function.handles.filterMap (search.seen program)) := by
  have hfunction := consistent.function?_id hmem
  have hsites : function.handles.mapM (search.siteAt program) =
      .ok (function.handles.map (search.seen program)) := by
    refine Except.mapM_eq_map fun handle hhandle => ?_
    obtain ⟨entry, hplaced, -⟩ := consistent.placed_of_mem_function hfunction hhandle
    obtain ⟨site?, hsite⟩ := search.exists_siteAt hcallees hplaced
    simp [seen, hsite, Except.toOption]
  simp [sitesIn, Program.handlesOf_of_function? hfunction, hsites, bind, Except.bind, pure,
    Except.pure]

theorem inProgram_eq (search : CallSearch) :
    search.inProgram program =
      .ok (.ofSites (program.handles.filterMap (search.seen program))) := by
  unfold inProgram Program.handles
  rw [Except.mapM_eq_map fun function hmem => search.sitesIn_eq consistent hcallees hmem,
    List.filterMap_flatMap, List.flatMap_def]
  rfl

theorem mem_sites_iff (hfound : search.inProgram program = .ok found) :
    site ∈ found.sites ↔ search.Finds program site := by
  rw [search.inProgram_eq consistent hcallees] at hfound
  obtain rfl := Except.ok.inj hfound
  rw [FoundCalls.mem_sites_ofSites, List.mem_filterMap]
  constructor
  · rintro ⟨handle, -, hseen⟩
    exact (seen_eq_some_iff.mp hseen).2
  · intro hfinds
    obtain ⟨entry, hplaced, -⟩ := hfinds.intact
    refine ⟨site.handle, consistent.mem_handles_of_isLive ?_, seen_eq_some_iff.mpr ⟨rfl, hfinds⟩⟩
    simp [Program.isLive, hplaced]

/-- The sites of one function are numbered by their rank. -/
theorem pairwise_inFunction (hfound : search.inProgram program = .ok found)
    (function : FunctionId) :
    (found.inFunction function).sites.Pairwise (CallSite.Precedes program) := by
  rw [search.inProgram_eq consistent hcallees] at hfound
  obtain rfl := Except.ok.inj hfound
  have hvisited : (program.handles.filterMap (search.seen program)).Pairwise fun first second =>
      first.function = second.function → program.Precedes first.handle second.handle := by
    refine consistent.pairwise_handles.filterMap _ fun handle later hbefore first hfirst second
      hsecond hsame => ?_
    obtain ⟨rfl, hfindsFirst⟩ := seen_eq_some_iff.mp hfirst
    obtain ⟨rfl, hfindsSecond⟩ := seen_eq_some_iff.mp hsecond
    obtain ⟨entry, hentry, hfunction, -⟩ := hfindsFirst.intact
    obtain ⟨other, hother, hfunctionOther, -⟩ := hfindsSecond.intact
    exact hbefore entry other hentry hother (hfunction.trans (hsame.trans hfunctionOther.symm))
  have hranked : (FoundCalls.ofSites
      (program.handles.filterMap (search.seen program))).sites.Pairwise
      fun first second => first.function = second.function → first.Precedes program second :=
    FoundCalls.pairwise_sites_ofSites hvisited
      (fun _ _ hform hbefore hsame => Or.inr ⟨hform, hbefore hsame⟩)
      fun _ _ hcall hinvoke _ => Or.inl ⟨hcall, hinvoke⟩
  -- within the group of one function the condition on functions is void
  have hgroup := List.pairwise_filter.mpr (hranked.imp fun hprecedes
    (hfirst : (_ == function) = true) (hsecond : (_ == function) = true) =>
      hprecedes ((beq_iff_eq.mp hfirst).trans (beq_iff_eq.mp hsecond).symm))
  exact FoundCalls.pairwise_sites_ofSites hgroup (fun _ _ _ hprecedes => hprecedes)
    fun _ _ hcall hinvoke => Or.inl ⟨hcall, hinvoke⟩

end Answer

end CallSearch

end ConcurrencyFaults

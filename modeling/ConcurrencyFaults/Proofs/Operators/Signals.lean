import ConcurrencyFaults.Proofs.Closed
import ConcurrencyFaults.Proofs.Declarations
import ConcurrencyFaults.Proofs.Exchanging
import ConcurrencyFaults.Proofs.Operators.Candidates

/-!
# Signals and broadcasts that are exchanged

An exchange puts a broadcast in the place of a signal and a signal in the place of a broadcast.  The
function that is to be called is looked up by its name and declared if there is none.  This happens
once at most: where some call was found, one of the two functions is there.  A run therefore amounts
to replacements in a program that has both functions (`SignalOperator.Exchanged`).

Each request is one more replacement (`SignalOperator.runs_apply_swap`), as long as no requested
call reads another, and requests that are refused or ask for a call without arguments change
nothing.

## Strategy

The code declares a function in the middle of the run, when it first needs one.  To compare the run
with replacements, the declaration is pulled to the front: `base` is the program at the start with
the function that some exchanged call needed, if it was missing (`DeclaredFor`).

1. What a call is exchanged for depends on `base` alone (`counterpart`), and a declaration changes
   none of the exchanges that were made before it (`Exchanged.exists_declared`), since these found
   their functions.
2. One request extends `Exchanged` by one call (`runs_swap`) or by none (`Exchanged.congr`).
3. `Progress` is the invariant of a run, which also has the other calls as they were found.  It is
   kept by each request (`keptByRequests_progress`), whence `exists_exchanged`.

Independence of the requested calls is a hypothesis about the whole run.  It is therefore assumed
within the invariant, so that requests are answered whether or not it holds.
-/

namespace ConcurrencyFaults

open Program Work

namespace SignalOperator

variable {program base after : Program} {site : CallSite} {sites requested : List CallSite}
  {names : Handle → Handle} {key : String} {handle : Handle}

/-! ## The call that takes the place of a call

A call keeps its arguments, its result type and its form.  Only its function changes, to the first
one with the opposite name. -/

/-- The call that takes the place of a call, in a program that has the function for it. -/
def counterpart (base : Program) (site : CallSite) : CallSite :=
  { site with
    target := (base.functionNamed? (opposite site.name)).getD site.target
    symbol := opposite site.name
    name := opposite site.name }

/-- The handle of a call with the instruction that replaces it. -/
def exchange (base : Program) (site : CallSite) : Handle × Instruction :=
  (site.handle, site.cloneWith (counterpart base site).target site.arguments site.result)

/-- The call is to the first function that has one of the two names. -/
def CallsByName (program : Program) (site : CallSite) : Prop :=
  ∃ name ∈ search.names, program.functionNamed? name = some site.target

instance (program : Program) (site : CallSite) : Decidable (CallsByName program site) :=
  inferInstanceAs (Decidable (∃ name ∈ search.names,
    program.functionNamed? name = some site.target))

/-- It is enough to look at the listed instructions. -/
theorem forall_callsByName_iff (consistent : program.Consistent) :
    (∀ site, search.Finds program site → CallsByName program site) ↔
      ∀ handle ∈ program.handles,
        ∀ site ∈ (CallSite.capture program handle search.demangled).toOption.join,
          search.matchesKey site.name = true → CallsByName program site := by
  simp only [CallSearch.finds_iff, and_imp]
  exact consistent.forall_capture_iff

theorem opposite_mem (name : String) : opposite name ∈ search.names := by
  unfold opposite
  split <;> simp [search]

theorem opposite_opposite (hkey : key ∈ search.names) : opposite (opposite key) = key := by
  rcases List.mem_pair.mp hkey with rfl | rfl <;> decide

theorem eq_or_eq_opposite {other : String} (hkey : key ∈ search.names)
    (hother : other ∈ search.names) : other = key ∨ other = opposite key := by
  rcases List.mem_pair.mp hkey with rfl | rfl <;>
    rcases List.mem_pair.mp hother with rfl | rfl <;> decide

/-- The two names are their own keys. -/
theorem key_eq (hkey : key ∈ search.names) : Symbol.key key false = key := by
  rcases List.mem_pair.mp hkey with rfl | rfl <;> decide

/-- A call by name carries the name. -/
theorem CallsByName.functionNamed?_name (hcalls : CallsByName program site)
    (consistent : program.Consistent)
    (hsite : CallSite.capture program handle false = .ok (some site)) :
    site.name ∈ search.names ∧ program.functionNamed? site.name = some site.target := by
  obtain ⟨name, hname, hnamed⟩ := hcalls
  obtain ⟨function, hfunction, hsame⟩ := consistent.function?_of_functionNamed? hnamed
  obtain ⟨entry, target, -, htarget, -, hcaptured⟩ := CallSite.capture_eq_some_iff.mp hsite
  obtain rfl : function = target := Option.some.inj (hfunction.symm.trans htarget)
  have hkey : site.name = name := by
    rw [congrArg CallSite.name hcaptured]
    simp only
    rw [hsame, key_eq hname]
  rw [hkey]
  exact ⟨hname, hnamed⟩

/-- Calls of a closed program can be exchanged if they do not read each other. -/
theorem replaceable_exchange (closed : base.Closed)
    (hcaptured : ∀ site ∈ sites, CallSite.capture base site.handle false = .ok (some site))
    (hnodup : (sites.map CallSite.handle).Nodup) (independent : Independent sites) :
    Replaceable base (sites.map (exchange base)) where
  nodup := by rwa [List.map_map]
  local_readers := by
    intro change hmem
    obtain ⟨site, hsite, rfl⟩ := List.mem_map.mp hmem
    obtain ⟨-, entry, hplaced, hfunction, -⟩ := CallSite.placed_of_capture (hcaptured site hsite)
    refine ⟨entry, hplaced, fun reader found hfound hreads => ?_⟩
    rw [hfunction]
    exact CallSite.function_eq_of_reads closed (hcaptured site hsite) hfound hreads
  unread := by
    intro change hmem other hother hreads
    obtain ⟨site, hsite, rfl⟩ := List.mem_map.mp hmem
    obtain ⟨target, htarget, rfl⟩ := List.mem_map.mp hother
    have hargument : .result target.handle ∈ site.arguments := by
      rwa [Instruction.Reads, exchange, CallSite.cloneWith, SiteForm.operands_operation] at hreads
    exact independent site hsite _ hargument _ rfl (List.mem_map_of_mem htarget)

/-! ## Programs in which calls can be exchanged -/

/-- A closed program in which all functions that are called exist, and signals and broadcasts are
called by name. -/
structure Resolved (program : Program) : Prop where
  consistent : program.Consistent
  closed : program.Closed
  calleesExist : program.CalleesExist
  callsByName : ∀ site, search.Finds program site → CallsByName program site

namespace Resolved

variable (resolved : Resolved program)
include resolved

theorem name_mem (hsite : search.Finds program site) : site.name ∈ search.names :=
  ((resolved.callsByName site hsite).functionNamed?_name resolved.consistent
    (CallSearch.finds_iff.mp hsite).1).1

theorem functionNamed?_name (hsite : search.Finds program site) :
    program.functionNamed? site.name = some site.target :=
  ((resolved.callsByName site hsite).functionNamed?_name resolved.consistent
    (CallSearch.finds_iff.mp hsite).1).2

end Resolved

/-- The function that some call is to be exchanged for was added, or none. -/
def DeclaredFor (sites : List CallSite) (program base : Program) : Prop :=
  base = program ∨ ∃ site ∈ sites, program.functionNamed? (opposite site.name) = none ∧
    base = (program.addFunction (opposite site.name) .status [.pointer]).2

namespace DeclaredFor

variable (declared : DeclaredFor sites program base)
include declared

theorem functionNamed?_eq {id : FunctionId} (hnamed : program.functionNamed? key = some id) :
    base.functionNamed? key = some id := by
  rcases declared with rfl | ⟨site, -, -, rfl⟩
  · exact hnamed
  · rw [functionNamed?_addFunction, hnamed, Option.some_or]

variable (resolved : Resolved program)
include resolved

theorem consistent : base.Consistent := by
  rcases declared with rfl | ⟨site, -, -, rfl⟩
  · exact resolved.consistent
  · exact resolved.consistent.addFunction ..

theorem closed : base.Closed := by
  rcases declared with rfl | ⟨site, -, -, rfl⟩
  · exact resolved.closed
  · exact resolved.closed.congr rfl

theorem calleesExist : base.CalleesExist := by
  rcases declared with rfl | ⟨site, -, -, rfl⟩
  · exact resolved.calleesExist
  · exact calleesExist_addFunction _ _ _ resolved.calleesExist

theorem capture_eq (handle : Handle) (demangled : Bool) :
    CallSite.capture base handle demangled = CallSite.capture program handle demangled := by
  rcases declared with rfl | ⟨site, -, -, rfl⟩
  · rfl
  · exact CallSite.capture_addFunction resolved.calleesExist ..

theorem inProgram_eq (search : CallSearch) : search.inProgram base = search.inProgram program := by
  rcases declared with rfl | ⟨site, -, -, rfl⟩
  · rfl
  · exact CallSearch.inProgram_addFunction resolved.calleesExist _ _ _ resolved.consistent search

/-- Where the opposite of one call was added, both names have their function: one was called and the
other was added. -/
theorem eq_of_functionNamed?_eq_none (hsites : ∀ site ∈ sites, search.Finds program site)
    (hnamed : ∀ site ∈ sites, ∃ target, base.functionNamed? (opposite site.name) = some target)
    (hkey : key ∈ search.names) (hnone : base.functionNamed? key = none) : base = program := by
  refine declared.resolve_right ?_
  rintro ⟨site, hsite, -, -⟩
  have hfound := hsites site hsite
  obtain ⟨target, htarget⟩ := hnamed site hsite
  rcases eq_or_eq_opposite (resolved.name_mem hfound) hkey with rfl | rfl
  · rw [declared.functionNamed?_eq (resolved.functionNamed?_name hfound)] at hnone
    cases hnone
  · rw [htarget] at hnone
    cases hnone

end DeclaredFor

/-! ## One exchange after another

`Renewing` is what is known of replacements that were made one after another.  What is added here is
which calls they replaced and where their functions come from. -/

/-- Of the requested calls, those with arguments were exchanged.  The function that is called now
was added to the program if it was missing. -/
structure Exchanged (program : Program) (requested sites : List CallSite) (base : Program)
    (names : Handle → Handle) (after : Program) : Prop where
  mem_iff : ∀ site, site ∈ sites ↔ site ∈ requested ∧ site.arguments ≠ []
  nodup : (sites.map CallSite.handle).Nodup
  declared : DeclaredFor sites program base
  named : ∀ site ∈ sites, ∃ target, base.functionNamed? (opposite site.name) = some target
  renewing : Renewing base (sites.map (exchange base)) names after

namespace Exchanged

theorem nil (consistent : program.Consistent) :
    Exchanged program [] [] program (fun handle => handle) program where
  mem_iff := by simp
  nodup := List.nodup_nil
  declared := Or.inl rfl
  named := by simp
  renewing := Renewing.refl consistent

variable (exchanged : Exchanged program requested sites base names after)
include exchanged

theorem congr {others : List CallSite}
    (hsame : ∀ site, site.arguments ≠ [] → (site ∈ requested ↔ site ∈ others)) :
    Exchanged program others sites base names after where
  mem_iff := fun site => (exchanged.mem_iff site).trans
    (and_congr_left fun harguments => hsame site harguments)
  nodup := exchanged.nodup
  declared := exchanged.declared
  named := exchanged.named
  renewing := exchanged.renewing

theorem functionNamed?_eq (name : String) :
    after.functionNamed? name = base.functionNamed? name :=
  functionNamed?_eq_of_outline_eq exchanged.renewing.relocation.outline_eq name

/-- The function that a call is to be exchanged for is declared, if it must be, in the program at
the start as well. -/
theorem exists_declared (resolved : Resolved program)
    (hsites : ∀ site ∈ sites, search.Finds program site) (hsite : search.Finds program site) :
    ∃ both, DeclaredFor (sites ++ [site]) program both ∧
      both.functionNamed? (opposite site.name) =
        some (after.getOrDeclare (opposite site.name) .status [.pointer]).1 ∧
      (∀ other ∈ sites, ∃ target, both.functionNamed? (opposite other.name) = some target) ∧
      Renewing both (sites.map (exchange both)) names
        (after.getOrDeclare (opposite site.name) .status [.pointer]).2 := by
  unfold getOrDeclare
  rw [exchanged.functionNamed?_eq]
  cases hnamed : base.functionNamed? (opposite site.name) with
  | some target =>
      refine ⟨base, ?_, hnamed, exchanged.named, exchanged.renewing⟩
      refine exchanged.declared.imp_right ?_
      rintro ⟨other, hother, hadded⟩
      exact ⟨other, List.mem_append_left _ hother, hadded⟩
  | none =>
      -- a function is missing only as long as none was declared
      obtain rfl : base = program := exchanged.declared.eq_of_functionNamed?_eq_none resolved hsites
        exchanged.named (opposite_mem _) hnamed
      have hlength : after.functions.length = base.functions.length := by
        simpa [outline] using congrArg List.length exchanged.renewing.relocation.outline_eq
      have hstays : ∀ other ∈ sites, ∃ target,
          base.functionNamed? (opposite other.name) = some target ∧
          (base.addFunction (opposite site.name) .status [.pointer]).2.functionNamed?
            (opposite other.name) = some target := by
        intro other hother
        obtain ⟨target, htarget⟩ := exchanged.named other hother
        exact ⟨target, htarget, by rw [functionNamed?_addFunction, htarget, Option.some_or]⟩
      refine ⟨(base.addFunction (opposite site.name) .status [.pointer]).2,
        Or.inr ⟨site, by simp, hnamed, rfl⟩, ?_, fun other hother => ?_, ?_⟩
      · rw [functionNamed?_addFunction, hnamed, Option.none_or, if_pos rfl, ← hlength]
        rfl
      · obtain ⟨target, -, htarget⟩ := hstays other hother
        exact ⟨target, htarget⟩
      · have hsame : sites.map (exchange (base.addFunction (opposite site.name) .status
            [.pointer]).2) = sites.map (exchange base) := by
          refine List.map_congr_left fun other hother => ?_
          obtain ⟨target, htarget, hlater⟩ := hstays other hother
          simp only [exchange, counterpart, htarget, hlater]
        rw [hsame]
        exact exchanged.renewing.addFunction ..

end Exchanged

/-- One more call is exchanged. -/
theorem runs_swap {state : Workspace} (resolved : Resolved program)
    (exchanged : Exchanged program requested sites base names state.program)
    (hsites : ∀ site ∈ sites, search.Finds program site) (hsite : search.Finds program site)
    (harguments : site.arguments ≠ []) (hnew : site.handle ∉ sites.map CallSite.handle)
    (independent : Independent (requested ++ [site])) :
    Runs (swap site) state
      (fun _ after => ∃ sites base names,
        Exchanged program (requested ++ [site]) sites base names after.program)
      fun _ _ => False := by
  obtain ⟨both, declared, htarget, hnamed, renewing⟩ :=
    exchanged.exists_declared resolved hsites hsite
  have hall : ∀ other ∈ sites ++ [site], search.Finds program other := by
    intro other hother
    rcases List.mem_append.mp hother with hother | hother
    · exact hsites other hother
    · rwa [List.mem_singleton.mp hother]
  have hmem : ∀ other, other ∈ sites ++ [site] ↔
      other ∈ requested ++ [site] ∧ other.arguments ≠ [] := by
    intro other
    rw [List.mem_append, List.mem_append, exchanged.mem_iff, List.mem_singleton]
    constructor
    · rintro (⟨hother, hsome⟩ | rfl)
      · exact ⟨Or.inl hother, hsome⟩
      · exact ⟨Or.inr rfl, harguments⟩
    · rintro ⟨hother | rfl, hsome⟩
      · exact Or.inl ⟨hother, hsome⟩
      · exact Or.inr rfl
  have hnodup : ((sites ++ [site]).map CallSite.handle).Nodup := by
    rw [List.map_append, List.nodup_append']
    exact ⟨exchanged.nodup, List.nodup_singleton _, by simpa using hnew⟩
  have replaceable := replaceable_exchange (declared.closed resolved)
    (fun other hother => (declared.capture_eq resolved _ _).trans
      (CallSearch.finds_iff.mp (hall other hother)).1)
    hnodup (independent.mono fun other hother => ((hmem other).mp hother).1)
  have hexchange : exchange both site = (site.handle, site.cloneWith
      (state.program.getOrDeclare (opposite site.name) .status [.pointer]).1 site.arguments
      site.result) := by
    rw [exchange, counterpart, htarget, Option.getD_some]
  -- seen from a program that has the function from the start, this is one more replacement
  rw [List.map_append, List.map_singleton, hexchange] at replaceable
  obtain ⟨after, later, hreplaced, hafter⟩ :=
    renewing.next (declared.consistent resolved) replaceable
  unfold swap Condition.retarget
  refine runs_bind_update (runs_bind_edit hreplaced (runs_bind_markEdited (runs_bind_markEdited
    (runs_bind_recordChange fun entry => runs_pure ⟨sites ++ [site], both, later, hmem, hnodup,
      declared, fun other hother => ?_, ?_⟩))))
  · rcases List.mem_append.mp hother with hother | hother
    · exact hnamed other hother
    · rw [List.mem_singleton.mp hother]
      exact ⟨_, htarget⟩
  · rw [List.map_append, List.map_singleton, hexchange]
    exact hafter

/-- One more call is asked for, and exchanged if it has arguments. -/
theorem runs_apply_swap {state : Workspace} (resolved : Resolved program)
    (exchanged : Exchanged program requested sites base names state.program)
    (hrequested : ∀ other ∈ requested, search.Finds program other)
    (hsite : search.Finds program site) (hnew : site.handle ∉ requested.map CallSite.handle)
    (independent : Independent (requested ++ [site])) :
    Runs (SignalOperator.apply .swap site) state
      (fun _ after => ∃ sites base names,
        Exchanged program (requested ++ [site]) sites base names after.program)
      fun _ _ => False := by
  unfold SignalOperator.apply
  split
  · rename_i hnone
    refine runs_bind_warn (runs_pure ⟨sites, base, names, exchanged.congr fun other hsome => ?_⟩)
    rw [List.mem_append, List.mem_singleton]
    refine ⟨Or.inl, fun hother => hother.resolve_right ?_⟩
    rintro rfl
    exact hsome (List.length_eq_zero_iff.mp hnone)
  · rename_i hsome
    have hsites : sites ⊆ requested := fun other hother => ((exchanged.mem_iff other).mp hother).1
    exact runs_swap resolved exchanged (fun other hother => hrequested other (hsites hother)) hsite
      (fun hnone => hsome (List.length_eq_zero_iff.mpr hnone))
      (fun hmem => hnew (List.map_subset CallSite.handle hsites hmem)) independent

/-! ## A run

The requested calls are those at the positions of the requests.  A request adds at most one of them,
at the end of the list (`atPositions_concat`). -/

section Run

variable {found : FoundCalls} {earlier : List Nat} {position : Nat} {plan : SignalPlan}
  {state : Workspace}

theorem atPositions_concat :
    found.atPositions (earlier ++ [position]) =
      found.atPositions earlier ++ (found.get? position).toList := by
  unfold FoundCalls.atPositions
  rw [List.filterMap_append]
  cases hsite : found.get? position <;> simp [hsite]

/-- After some requests the other calls are as they were found, and if the requested calls do not
read each other, those with arguments are exchanged. -/
structure Progress (program : Program) (found : FoundCalls) (earlier : List Nat)
    (state : Workspace) : Prop where
  pending : Pending program (found.sites.map .call) name earlier state
  exchanged : Independent (found.atPositions earlier) → ∃ sites base names,
    Exchanged program (found.atPositions earlier) sites base names state.program

/-- A request that is refused asks for no call or for one that was asked for before. -/
theorem Progress.warned (progress : Progress program found earlier state)
    (hrefused : (found.sites.map Candidate.call).length ≤ position ∨ position ∈ earlier)
    (entry : Entry) : Progress program found (earlier ++ [position]) (state.warned entry) := by
  have hsame : ∀ site, site ∈ found.atPositions earlier ↔
      site ∈ found.atPositions (earlier ++ [position]) := by
    intro site
    rw [atPositions_concat, List.mem_append, Option.mem_toList]
    refine ⟨Or.inl, fun hmem => hmem.elim id fun hget => ?_⟩
    rcases hrefused with hle | hearlier
    · rw [FoundCalls.get?_eq] at hget
      rw [List.length_map] at hle
      exact absurd (List.getElem?_eq_some_iff.mp hget).1 (Nat.not_lt.mpr hle)
    · exact List.mem_filterMap.mpr ⟨position, hearlier, hget⟩
  refine ⟨progress.pending.warned hrefused entry, fun independent => ?_⟩
  obtain ⟨sites, base, names, exchanged⟩ :=
    progress.exchanged (independent.mono fun site hmem => (hsame site).mp hmem)
  exact ⟨sites, base, names, exchanged.congr fun site _ => hsame site⟩

/-- The first request for a call exchanges it if it has arguments. -/
theorem Progress.selected (resolved : Resolved program)
    (hfound : search.inProgram program = .ok found)
    (progress : Progress program found earlier state)
    (hsite : found.get? position = some site) (hfirst : position ∉ earlier) :
    ∃ answer after, SignalOperator.apply .swap site (state.claimed name position) =
        .ok answer after ∧
      Progress program found (earlier ++ [position]) after := by
  have listed := Operator.listed_calls resolved.consistent resolved.calleesExist hfound
  have hcandidate : (found.sites.map Candidate.call)[position]? = some (.call site) := by
    rw [found.getElem?_map_call, hsite, Option.map_some]
  have hrequested : found.atPositions (earlier ++ [position]) =
      found.atPositions earlier ++ [site] := by
    rw [atPositions_concat, hsite]
    rfl
  have hfinds : ∀ other ∈ found.atPositions earlier, search.Finds program other := by
    intro other hother
    obtain ⟨_, -, hget⟩ := List.mem_filterMap.mp hother
    exact CallSearch.finds_of_inProgram hfound (FoundCalls.mem_of_get? hget)
  -- no call has two positions, so the first request for a position asks for a new call
  have hnew : site.handle ∉ (found.atPositions earlier).map CallSite.handle := by
    have hnot := listed.not_mem_handlesAt hcandidate hfirst
    simpa [handlesAt, FoundCalls.atPositions, FoundCalls.get?_eq, List.map_filterMap,
      Function.comp_def, Candidate.handle] using hnot
  have hruns : Runs (SignalOperator.apply .swap site) (state.claimed name position)
      (fun _ after => Independent (found.atPositions (earlier ++ [position])) →
        ∃ sites base names, Exchanged program (found.atPositions (earlier ++ [position])) sites base
          names after.program) fun _ _ => False := by
    -- if some requested call reads another, all that counts is that the request is answered
    by_cases independent : Independent (found.atPositions (earlier ++ [position]))
    · rw [hrequested] at independent ⊢
      obtain ⟨sites, base, names, exchanged⟩ := progress.exchanged
        (independent.mono (List.subset_append_left ..))
      exact (@runs_apply_swap _ _ site _ _ _ (state.claimed name position) resolved exchanged hfinds
        (CallSearch.finds_of_inProgram hfound (FoundCalls.mem_of_get? hsite)) hnew
        independent).weaken fun _ _ hafter _ => hafter
    · exact (@runs_apply site (state.claimed name position) _ progress.pending.rewired.consistent
        (progress.pending.intact listed hcandidate hfirst) .swap).weaken
          fun _ _ _ hindependent => absurd hindependent independent
  have hconfined := confines_apply (List.mem_singleton_self site.handle) .swap _
    (@Confined.refl (state.claimed name position) progress.pending.rewired.consistent _)
  obtain ⟨answer, after, hanswer, hafter, hconfined, -⟩ := (hruns.and_answered hconfined).exists_ok
  exact ⟨answer, after, hanswer, progress.pending.selected listed hcandidate hconfined, hafter⟩

theorem keptByRequests_progress (resolved : Resolved program)
    (hfound : search.inProgram program = .ok found) (hchange : plan.change = some .swap) :
    KeptByRequests program (found.sites.map .call) name (Operator.signal plan).change
      fun earlier _ => Progress program found earlier where
  pending := Progress.pending
  outOfBounds := fun progress hle => progress.warned (Or.inl hle) _
  repeated := fun progress _ hearlier => progress.warned (Or.inr hearlier) _
  selected := by
    intro earlier _ state position candidate progress hcandidate hfirst
    rw [found.getElem?_map_call, Option.map_eq_some_iff] at hcandidate
    obtain ⟨site, hsite, rfl⟩ := hcandidate
    obtain ⟨answer, after, hanswer, hafter⟩ := progress.selected resolved hfound hsite hfirst
    refine ⟨answer, after, ?_, hafter⟩
    simp only [Operator.change, hchange]
    exact hanswer

/-- A run exchanges the requested calls that have arguments, if none of the requested calls reads
another. -/
theorem exists_exchanged (resolved : Resolved program) (hchange : plan.change = some .swap)
    (independent : Independent (search.requested plan.positions program)) :
    ∃ answer after sites base names, run plan { program } = .ok answer after ∧
      Exchanged program (search.requested plan.positions program) sites base names
        after.program := by
  obtain ⟨found, hfound⟩ := search.exists_inProgram resolved.consistent resolved.calleesExist
  have listed := Operator.listed_calls resolved.consistent resolved.calleesExist hfound
  have hcandidates : (Operator.signal plan).candidates program = .ok (found.sites.map .call) :=
    Except.map_eq_ok_iff.mpr ⟨found, hfound, rfl⟩
  have hrequested : search.requested plan.positions program = found.atPositions plan.positions := by
    simp only [CallSearch.requested, hfound]
  obtain ⟨course, prepared, hcourse, hprepared⟩ :=
    Operator.exists_prepared hcandidates rfl .identity
  have hprogram : prepared.program = program := hprepared.program_eq
  have hstart : Progress program found [] prepared := by
    subst hprogram
    exact ⟨Pending.of_fresh resolved.consistent hprepared.used_eq hprepared.edited_eq _ _,
      fun _ => ⟨[], _, _, Exchanged.nil resolved.consistent⟩⟩
  have hmutates : (Operator.signal plan).mutates = true := by
    rw [Operator.mutates, hchange]
    rfl
  obtain ⟨answer, after, hfinish, progress⟩ := hprepared.exists_finish hcandidates
    (fun _ => hmutates) (keptByRequests_progress resolved hfound hchange) listed hstart
  obtain ⟨sites, base, names, exchanged⟩ := progress.exchanged (hrequested ▸ independent)
  refine ⟨answer, after, sites, base, names, ?_, hrequested ▸ exchanged⟩
  rw [show run plan = (Operator.signal plan).run .identity from rfl, Operator.run_eq,
    bind_apply_of_ok hcourse]
  exact hfinish

end Run

end SignalOperator

end ConcurrencyFaults

import ConcurrencyFaults.Proofs.Locking.SwapTwice
import ConcurrencyFaults.Proofs.Operators.Signals

/-!
# Exchanging signals and broadcasts twice

After a run that exchanges signals and broadcasts the search sees the same calls, each under its new
name and those that were exchanged with the other target, in the order in which they were.  A second
run therefore brings back what the first one took away: what remains of the two are new handles,
names that are gone and perhaps one declaration (`SignalOperator.exchange_undone`).

## Strategy

* The first run is an exchange in the sense of searches (`exchanging`).  It keeps the set of names
  that are searched for (`matchesKey_source`), so searches before and after it agree and the same
  positions ask for the same calls (`requested_eq`).
* What the first run needs of the program holds after it again (`resolved_after`,
  `independent_movedSite`), so the second run answers as well.
* The functions that were called before are still declared, so the second run declares none
  (`base_again`), and every call is back at its first target (`reissued`).
-/

namespace ConcurrencyFaults

open Program Work

namespace SignalOperator

open LockOperator (Reissued)

variable {program base after : Program} {site : CallSite} {sites requested : List CallSite}
  {names : Handle → Handle} {key : String} {handle : Handle}

/-! ## Calls after a run

`movedSite` says what has become of a call.  All that follows is about the program after the run,
but it is read off the program before it. -/

/-- What a call gave way to: its counterpart if it was exchanged, and else itself. -/
def source (base : Program) (sites : List CallSite) (site : CallSite) : CallSite :=
  if site ∈ sites then counterpart base site else site

/-- The call as it is found after a run. -/
def movedSite (base : Program) (sites : List CallSite) (names : Handle → Handle) (site : CallSite) :
    CallSite :=
  site.exchanged names (source base sites site)

theorem arguments_movedSite :
    (movedSite base sites names site).arguments = site.arguments.map (Operand.rename names) := by
  unfold movedSite source
  split <;> rfl

namespace Exchanged

variable (exchanged : Exchanged program requested sites base names after)
include exchanged

/-- A name that belongs to a function belongs to it after the run. -/
theorem functionNamed?_after {id : FunctionId} (hnamed : program.functionNamed? key = some id) :
    after.functionNamed? key = some id := by
  rw [exchanged.functionNamed?_eq]
  exact exchanged.declared.functionNamed?_eq hnamed

/-- Instructions other than the requested calls keep their names. -/
theorem names_eq (hnot : handle ∉ requested.map CallSite.handle) : names handle = handle := by
  refine exchanged.renewing.fixed handle fun hmem => hnot ?_
  rw [List.map_map] at hmem
  obtain ⟨site, hsite, rfl⟩ := List.mem_map.mp hmem
  exact List.mem_map_of_mem ((exchanged.mem_iff site).mp hsite).1

/-- What a requested call reads keeps its name. -/
theorem map_rename_arguments (independent : Independent requested) (hsite : site ∈ requested) :
    site.arguments.map (Operand.rename names) = site.arguments := by
  conv => rhs; rw [← List.map_id site.arguments]
  refine List.map_congr_left fun operand hoperand => Operand.rename_eq_self fun used hused => ?_
  exact exchanged.names_eq (independent site hsite operand hoperand used hused)

variable (hrequested : ∀ site ∈ requested, search.Finds program site)
include hrequested

theorem finds_of_mem (hsite : site ∈ sites) : search.Finds program site :=
  hrequested site ((exchanged.mem_iff site).mp hsite).1

variable (resolved : Resolved program)
include resolved

theorem capture_requested (hsite : site ∈ requested) :
    CallSite.capture base site.handle false = .ok (some site) :=
  (exchanged.declared.capture_eq resolved _ _).trans
    (CallSearch.finds_iff.mp (hrequested site hsite)).1

theorem capture_of_mem (hsite : site ∈ sites) :
    CallSite.capture base site.handle false = .ok (some site) :=
  exchanged.capture_requested hrequested resolved ((exchanged.mem_iff site).mp hsite).1

/-- The calls of the program are what they were, or they are calls of the opposite function. -/
theorem exchanging : base.Exchanging after names (replaced (sites.map (exchange base)))
    (source base sites) false where
  toRelocation := exchanged.renewing.relocation
  calls := by
    intro site entry hsite hplaced
    obtain ⟨found, target, hfound, -, hoperation, hcaptured⟩ :=
      CallSite.capture_eq_some_iff.mp hsite
    obtain rfl : entry = found := Option.some.inj (hplaced.symm.trans hfound)
    unfold source
    split
    · rename_i hmem
      have hchange : (site.handle, (exchange base site).2) ∈ sites.map (exchange base) :=
        List.mem_map_of_mem hmem
      rw [replaced_of_mem (by rw [List.map_map]; exact exchanged.nodup) hchange]
      exact ⟨rfl, rfl, rfl⟩
    · rename_i hnot
      -- a call is known by its handle, so no other call was exchanged in its place
      have hstays : site.handle ∉ (sites.map (exchange base)).map Prod.fst := by
        rw [List.map_map]
        intro hmem
        obtain ⟨other, hother, hhandle⟩ := List.mem_map.mp hmem
        have hsame := CallSite.eq_of_capture
          (exchanged.capture_of_mem hrequested resolved hother) hsite hhandle
        exact hnot (hsame ▸ hother)
      rw [replaced_of_not_mem hstays]
      exact ⟨hoperation, (congrArg CallSite.attributes hcaptured).symm,
        (congrArg CallSite.location hcaptured).symm⟩
  target := by
    intro site hsite
    unfold source
    split
    · rename_i hmem
      obtain ⟨target, htarget⟩ := exchanged.named site hmem
      obtain ⟨function, hfunction, hname⟩ :=
        (exchanged.declared.consistent resolved).function?_of_functionNamed? htarget
      refine ⟨function, ?_, hname.symm, ?_⟩
      · rwa [counterpart, htarget, Option.getD_some]
      · rw [hname]
        exact (key_eq (opposite_mem _)).symm
    · obtain ⟨entry, function, -, hfunction, -, hcaptured⟩ :=
        CallSite.capture_eq_some_iff.mp hsite
      exact ⟨function, hfunction, congrArg CallSite.symbol hcaptured,
        congrArg CallSite.name hcaptured⟩
  others := by
    have hcalls : ∀ change ∈ sites.map (exchange base), ∃ site, site.handle = change.1 ∧
        CallSite.capture base site.handle false = .ok (some site) := by
      intro change hmem
      obtain ⟨site, hsite, rfl⟩ := List.mem_map.mp hmem
      exact ⟨site, rfl, exchanged.capture_of_mem hrequested resolved hsite⟩
    intro handle entry hplaced hnone
    rw [replaced_of_directCallee?_eq_none hcalls hplaced hnone, hnone]

/-- Signals are found where broadcasts were, and the other way round. -/
theorem matchesKey_source (site : CallSite) :
    search.matchesKey (source base sites site).name = search.matchesKey site.name := by
  unfold source
  split
  · rename_i hmem
    have hname := resolved.name_mem (exchanged.finds_of_mem hrequested hmem)
    have hopposite := opposite_mem site.name
    rw [← List.contains_iff_mem] at hname hopposite
    exact hopposite.trans hname.symm
  · rfl

theorem requested_eq (positions : List Nat) :
    search.requested positions after =
      (search.requested positions program).map (movedSite base sites names) := by
  obtain ⟨found, hfound⟩ := search.exists_inProgram resolved.consistent resolved.calleesExist
  obtain ⟨now, hnow, hsites⟩ := (exchanged.exchanging hrequested resolved).inProgram
    (exchanged.declared.consistent resolved) (exchanged.declared.calleesExist resolved)
    (show search.demangled = false from rfl)
    (fun {site} _ => exchanged.matchesKey_source hrequested resolved site)
    ((exchanged.declared.inProgram_eq resolved search).trans hfound)
  simp only [CallSearch.requested, hfound, hnow, FoundCalls.atPositions, List.map_filterMap,
    FoundCalls.get?_eq, hsites, List.getElem?_map]
  rfl

/-- Calls that did not read each other do not do so after the run. -/
theorem independent_movedSite (independent : Independent requested) :
    Independent (requested.map (movedSite base sites names)) := by
  intro site hsite operand hoperand used hused hmem
  obtain ⟨former, hformer, rfl⟩ := List.mem_map.mp hsite
  -- the operand is what it was, and new names tell apart what the old ones did
  rw [arguments_movedSite, exchanged.map_rename_arguments independent hformer] at hoperand
  have hnot := independent former hformer operand hoperand used hused
  rw [List.map_map] at hmem
  obtain ⟨other, hother, hname⟩ := List.mem_map.mp hmem
  have hsame : names other.handle = names used := hname.trans (exchanged.names_eq hnot).symm
  obtain ⟨-, called, hcalled, -⟩ :=
    CallSite.placed_of_capture (exchanged.capture_requested hrequested resolved hother)
  have hread : .result used ∈ former.arguments := by
    cases operand with
    | result handle => rwa [← show handle = used from Option.some.inj hused]
    | _ => cases hused
  obtain ⟨entry, hentry⟩ := CallSite.exists_placed?_of_mem_arguments
    (exchanged.declared.closed resolved) (exchanged.capture_requested hrequested resolved hformer)
    hread
  rw [← exchanged.renewing.relocation.injective (exchanged.declared.consistent resolved) hcalled
    hentry hsame] at hnot
  exact hnot (List.mem_map_of_mem hother)

/-- Calls can be exchanged once more after a run: those that were exchanged call by the opposite
name, all others by the name that they had. -/
theorem resolved_after (closed : after.Closed) : Resolved after where
  consistent := exchanged.renewing.relocation.consistent
  closed := closed
  calleesExist := (exchanged.exchanging hrequested resolved).calleesExist_after
    (exchanged.declared.consistent resolved) (exchanged.declared.calleesExist resolved)
  callsByName := by
    intro site hsite
    obtain ⟨hcapture, hkey⟩ := CallSearch.finds_iff.mp hsite
    obtain ⟨former, hformer, rfl⟩ := (exchanged.exchanging hrequested resolved).exists_of_capture
      (exchanged.declared.consistent resolved) (exchanged.declared.calleesExist resolved) hcapture
    rw [exchanged.declared.capture_eq resolved] at hformer
    have hfinds : search.Finds program former := CallSearch.finds_iff.mpr
      ⟨hformer, (exchanged.matchesKey_source hrequested resolved former).symm.trans hkey⟩
    unfold CallsByName source
    split
    · rename_i hmem
      obtain ⟨target, htarget⟩ := exchanged.named former hmem
      refine ⟨opposite former.name, opposite_mem _, ?_⟩
      rw [exchanged.functionNamed?_eq, htarget]
      simp only [CallSite.exchanged, counterpart, htarget, Option.getD_some]
    · exact ⟨former.name, resolved.name_mem hfinds,
        exchanged.functionNamed?_after (resolved.functionNamed?_name hfinds)⟩

/-- An exchanged call is found again as a call of the opposite function.  All else is as it was. -/
theorem capture_after (independent : Independent requested) (hsite : site ∈ sites) :
    ∃ target, after.functionNamed? (opposite site.name) = some target ∧
      CallSite.capture after (names site.handle) false = .ok (some { site with
        handle := names site.handle
        target
        symbol := opposite site.name
        name := opposite site.name }) := by
  obtain ⟨target, htarget⟩ := exchanged.named site hsite
  refine ⟨target, (exchanged.functionNamed?_eq _).trans htarget, ?_⟩
  rw [(exchanged.exchanging hrequested resolved).capture_eq
    (exchanged.capture_of_mem hrequested resolved hsite), source, if_pos hsite]
  simp only [CallSite.exchanged, counterpart, htarget, Option.getD_some,
    exchanged.map_rename_arguments independent ((exchanged.mem_iff site).mp hsite).1]

/-- The function that an exchanged call would be exchanged for next is the one that it called. -/
theorem functionNamed?_opposite (hsite : site ∈ sites) :
    after.functionNamed? (opposite (movedSite base sites names site).name) = some site.target := by
  have hfinds := exchanged.finds_of_mem hrequested hsite
  rw [movedSite, source, if_pos hsite]
  show after.functionNamed? (opposite (opposite site.name)) = _
  rw [opposite_opposite (resolved.name_mem hfinds)]
  exact exchanged.functionNamed?_after (resolved.functionNamed?_name hfinds)

/-! ## Two runs

The calls of the second run are the images of those of the first, and `movedSite` preserves whether
a call has arguments. -/

section Again

variable {back restored : Program} {again : List CallSite} {later : Handle → Handle}
  (exchangedAgain : Exchanged after (requested.map (movedSite base sites names)) again back later
    restored)
include exchangedAgain

omit hrequested resolved in
/-- The calls of the second run are those of the first. -/
theorem mem_again_iff :
    site ∈ again ↔ ∃ former ∈ sites, movedSite base sites names former = site := by
  rw [exchangedAgain.mem_iff, List.mem_map]
  constructor
  · rintro ⟨⟨former, hformer, rfl⟩, harguments⟩
    rw [arguments_movedSite, ne_eq, List.map_eq_nil_iff] at harguments
    exact ⟨former, (exchanged.mem_iff former).mpr ⟨hformer, harguments⟩, rfl⟩
  · rintro ⟨former, hformer, rfl⟩
    obtain ⟨hmem, harguments⟩ := (exchanged.mem_iff former).mp hformer
    rw [arguments_movedSite, ne_eq, List.map_eq_nil_iff]
    exact ⟨⟨former, hmem, rfl⟩, harguments⟩

theorem base_again : back = after := by
  refine exchangedAgain.declared.resolve_right ?_
  -- a declaration would be of a name that is missing, but the call had that name before
  rintro ⟨site, hsite, hnone, -⟩
  obtain ⟨former, hformer, rfl⟩ :=
    (exchanged.mem_again_iff exchangedAgain).mp hsite
  rw [exchanged.functionNamed?_opposite hrequested resolved hformer] at hnone
  cases hnone

/-- The second run brings back what the first one took away. -/
theorem reissued :
    Reissued base restored (sites.map CallSite.handle) fun handle => later (names handle) := by
  obtain rfl := exchanged.base_again hrequested resolved exchangedAgain
  have hagain : ∀ {site : CallSite}, site ∈ again ↔
      ∃ former ∈ sites, movedSite base sites names former = site :=
    exchanged.mem_again_iff exchangedAgain
  refine Reissued.of_replacing (exchanged.declared.consistent resolved)
    exchanged.renewing.toReplacing exchangedAgain.renewing.toReplacing ?_ (fun handle => ?_) ?_ ?_
  · rw [List.map_map]
    exact exchangedAgain.nodup
  · rw [List.map_map]
    rfl
  · intro handle hmem
    rw [List.map_map] at hmem
    obtain ⟨site, hsite, rfl⟩ := List.mem_map.mp hmem
    obtain ⟨former, hformer, rfl⟩ := hagain.mp hsite
    exact ⟨former.handle, List.mem_map_of_mem hformer, rfl⟩
  · intro handle entry hplaced hmem
    obtain ⟨site, hsite, rfl⟩ := List.mem_map.mp hmem
    obtain ⟨found, target, hfound, -, hoperation, hcaptured⟩ :=
      CallSite.capture_eq_some_iff.mp (exchanged.capture_of_mem hrequested resolved hsite)
    obtain rfl : entry = found := Option.some.inj (hplaced.symm.trans hfound)
    refine List.mem_map.mpr ⟨_, hagain.mpr ⟨site, hsite, rfl⟩, ?_⟩
    have htarget := exchanged.functionNamed?_opposite hrequested resolved hsite
    have hattributes := congrArg CallSite.attributes hcaptured
    have hlocation := congrArg CallSite.location hcaptured
    simp only [exchange, counterpart, htarget, Option.getD_some]
    simp only [movedSite, source, if_pos hsite, counterpart, CallSite.exchanged,
      CallSite.cloneWith, Instruction.rename, Instruction.withOperation, hoperation,
      CallSite.operation, SiteForm.mapOperands_operation, hattributes, hlocation]

end Again

end Exchanged

/-- Two runs that exchange the same positions leave the program as it was, but for the handles and
the names of the calls and for one declaration at most.  In between, each requested call that has
arguments is a call of the opposite function. -/
theorem exchange_undone (program : Program) (plan : SignalPlan) (consistent : program.Consistent)
    (closed : program.Closed) (calleesExist : program.CalleesExist)
    (hchange : plan.change = some .swap)
    (htargets : ∀ site, search.Finds program site →
      ∃ name ∈ search.names, program.functionNamed? name = some site.target)
    (independent : Independent (search.requested plan.positions program)) :
    ∃ sites base swapped restored moved names,
      (∃ answer, run plan { program } = .ok answer swapped) ∧
      Exchanged program (search.requested plan.positions program) sites base moved
        swapped.program ∧
      (∀ site ∈ sites, ∃ target,
        swapped.program.functionNamed? (opposite site.name) = some target ∧
        CallSite.capture swapped.program (moved site.handle) false = .ok (some { site with
          handle := moved site.handle
          target
          symbol := opposite site.name
          name := opposite site.name })) ∧
      (∃ answer, run plan { program := swapped.program } = .ok answer restored) ∧
      Reissued base restored.program (sites.map CallSite.handle) names := by
  -- the first run
  have resolved : Resolved program := ⟨consistent, closed, calleesExist, htargets⟩
  have hrequested : ∀ site ∈ search.requested plan.positions program,
      search.Finds program site := by
    obtain ⟨found, hfound⟩ := search.exists_inProgram consistent calleesExist
    simp only [CallSearch.requested, hfound]
    intro site hsite
    obtain ⟨_, -, hget⟩ := List.mem_filterMap.mp hsite
    exact CallSearch.finds_of_inProgram hfound (FoundCalls.mem_of_get? hget)
  obtain ⟨answer, swapped, sites, base, moved, hrun, exchanged⟩ :=
    exists_exchanged resolved hchange independent
  have hclosed : swapped.program.Closed := by
    have hruns := @runs_run_sealed { program } ⟨consistent, closed⟩ plan fun _ => independent
    unfold Runs at hruns
    rw [hrun] at hruns
    exact hruns.closed
  -- the second run, over the same positions
  have hpositions := exchanged.requested_eq hrequested resolved plan.positions
  obtain ⟨answerAgain, restored, again, back, later, hrunAgain, exchangedAgain⟩ :=
    exists_exchanged (exchanged.resolved_after hrequested resolved hclosed) hchange
      (hpositions ▸ exchanged.independent_movedSite hrequested resolved independent)
  rw [hpositions] at exchangedAgain
  exact ⟨sites, base, swapped, restored, moved, _, ⟨answer, hrun⟩, exchanged,
    fun site hsite => exchanged.capture_after hrequested resolved independent hsite,
    ⟨answerAgain, hrunAgain⟩, exchanged.reissued hrequested resolved exchangedAgain⟩

/-- A signal with a name and a reader, one without arguments, and one that may unwind.  There is no
broadcast. -/
@[irreducible] def signalsAlone : Program :=
  Command.run [.declare "pthread_cond_signal" .status, .addFunction "main" .void [],
    .addBlock 1 "entry", .addBlock 1 "woken", .addBlock 1 "failed",
    .push 1 0 { operation := .call (.direct 0) [.global "cond"] .status, name := some "status" },
    .push 1 0 (.ofOperation (.other "work" [.result ⟨0, 0⟩] .void)),
    .push 1 0 (.ofOperation (.call (.direct 0) [] .status)),
    .push 1 0 (.ofOperation (.invoke (.direct 0) [.global "cond"] .status 1 2)),
    .push 1 1 (.ofOperation (.ret none)), .push 1 2 (.ofOperation .unreachable)]
    { name := "wakeups" }

theorem consistent_signalsAlone : signalsAlone.Consistent := by
  unfold signalsAlone
  exact Command.consistent_run (Command.consistent_empty "wakeups") _

/-- The invoke and the named call are exchanged.  The call is asked for twice, the one without
arguments is passed over, and there is no call at position 9. -/
def exchangeAll : SignalPlan := { change := some .swap, positions := [2, 0, 0, 1, 9] }

theorem exchange_undone_signalsAlone :
    ∃ sites base swapped restored moved names,
      (∃ answer, run exchangeAll { program := signalsAlone } = .ok answer swapped) ∧
      Exchanged signalsAlone (search.requested exchangeAll.positions signalsAlone) sites base moved
        swapped.program ∧
      (∀ site ∈ sites, ∃ target,
        swapped.program.functionNamed? (opposite site.name) = some target ∧
        CallSite.capture swapped.program (moved site.handle) false = .ok (some { site with
          handle := moved site.handle
          target
          symbol := opposite site.name
          name := opposite site.name })) ∧
      (∃ answer, run exchangeAll { program := swapped.program } = .ok answer restored) ∧
      Reissued base restored.program (sites.map CallSite.handle) names :=
  exchange_undone signalsAlone exchangeAll consistent_signalsAlone
    (consistent_signalsAlone.closed_iff.mpr (by decide +kernel))
    (consistent_signalsAlone.calleesExist_iff.mpr (by decide +kernel)) rfl
    ((forall_callsByName_iff consistent_signalsAlone).mpr (by decide +kernel)) (by decide +kernel)

end SignalOperator

end ConcurrencyFaults

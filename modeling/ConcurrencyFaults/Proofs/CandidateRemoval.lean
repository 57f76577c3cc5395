import ConcurrencyFaults.Proofs.ClearedLists
import ConcurrencyFaults.Proofs.Enumeration
import ConcurrencyFaults.Proofs.Operators.AttributeRuns
import ConcurrencyFaults.Proofs.Operators.Removals

/-!
# Removing the requested candidates

Candidates are numbered before the first of them is taken away, and after the run they are found by
another search.  That search finds the candidates that were not asked for and nothing else, in the
order in which they were: what is erased is gone, the branches that take over from erased invokes
are no candidates, and an operation that is only cleared of a result is a candidate if it was one
(`Operator.remaining_after_run`).

A run is followed by what it has come to after some of its requests (`Operator.Removing`).  The
first request for a candidate leaves no warning about its position, and any other request leaves one
and does nothing else.

## Strategy

* `targets_eq` and `map_handle_fences` compare the searches before and after: being a candidate
  depends on nothing that taking out other instructions changes.
* `takes` says which candidates a list of requests takes.  One more request takes one more candidate
  or nothing (`mem_iff_takes_concat`), which is what `Removing` is carried on by.
* `removesRequested_of_erases` combines the two.  Accesses that are no longer volatile are not
  erased and have a lemma of their own (`removesRequested_of_volatile`).
-/

namespace ConcurrencyFaults

open Program Work

/-! ## The candidates of a cleared program

Blocks gain branches, which no search looks for.
-/

namespace Program.Cleared

variable {before after : Program} {gone : List Handle} (hcleared : before.Cleared after gone)
include hcleared

theorem map_name_function? (id : FunctionId) :
    (after.function? id).map Function.name = (before.function? id).map Function.name := by
  have houtline := congrArg (fun outline : List Function => outline[id]?.map Function.name)
    hcleared.outline_eq
  simpa [outline, Function.outline, function?, Function.comp_def] using houtline

theorem isTarget_eq (search : CallSearch) (form : CallForm) {handle : Handle} {entry : Placed}
    (hplaced : before.placed? handle = some entry) (hstays : handle ∉ gone) :
    search.isTarget after form handle = search.isTarget before form handle := by
  have hkey (target : Option FunctionId) :
      (target.bind after.function?).any (fun function =>
          search.names.contains (Symbol.key function.name search.demangled)) =
        (target.bind before.function?).any fun function =>
          search.names.contains (Symbol.key function.name search.demangled) := by
    cases target with
    | none => rfl
    | some id =>
        have hname := congrArg (Option.any fun name =>
          search.names.contains (Symbol.key name search.demangled)) (hcleared.map_name_function? id)
        rwa [Option.any_map, Option.any_map] at hname
  simp only [CallSearch.isTarget, instruction?_of_placed? hplaced,
    instruction?_of_placed? (hcleared.placed? hplaced hstays), Option.any_some, Placed.mapOperands,
    Instruction.withOperation, Operation.callForm?_mapOperands,
    Operation.directCallee?_mapOperands, hkey]

theorem targets_eq (hbefore : before.Consistent) (search : CallSearch) (form : CallForm) :
    search.targets after form = (search.targets before form).filter (· ∉ gone) := by
  refine hcleared.filter_handles hbefore (fun handle entry hplaced hstays =>
    hcleared.isTarget_eq search form hplaced hstays) fun handle entry branch hbranch hplaced => ?_
  obtain ⟨normal, -, rfl⟩ := Option.map_eq_some_iff.mp hbranch
  simp [CallSearch.isTarget, instruction?_of_placed? hplaced, Operation.callForm?]

theorem map_handle_fences (hbefore : before.Consistent) :
    (MemorySite.fences after).map MemorySite.handle =
      ((MemorySite.fences before).map MemorySite.handle).filter (· ∉ gone) := by
  rw [MemorySite.fences, MemorySite.fences, MemorySite.map_handle_collect,
    MemorySite.map_handle_collect]
  refine hcleared.filter_handles hbefore (fun handle entry hplaced hstays => ?_)
    fun handle entry branch hbranch hplaced => ?_
  · rw [instruction?_of_placed? hplaced,
      instruction?_of_placed? (hcleared.placed? hplaced hstays)]
    simp only [Option.any_some, Placed.mapOperands, Instruction.withOperation]
    cases entry.instruction.operation <;> rfl
  · obtain ⟨normal, -, rfl⟩ := Option.map_eq_some_iff.mp hbranch
    simp [instruction?_of_placed? hplaced, MemorySite.fenceKind?]

end Program.Cleared

namespace Operator

variable {operator : Operator} {start : Program} {candidates remaining : List Candidate}

/-- The calls that are candidates are the targets of the search, the plain ones first. -/
theorem map_handle_candidates {search : CallSearch} (consistent : start.Consistent)
    (calleesExist : start.CalleesExist) (hsearch : operator.search? = some search)
    (hcandidates : operator.candidates start = .ok candidates) :
    candidates.map Candidate.handle =
      search.targets start .call ++ search.targets start .invoke := by
  obtain ⟨found, hfound, rfl⟩ := exists_found hsearch hcandidates
  rw [← CallSearch.map_handle_calls consistent calleesExist hfound,
    ← CallSearch.map_handle_invokes consistent calleesExist hfound, ← List.map_append,
    List.map_map]
  rfl

/-- After instructions were taken out, the candidates that are left are the others. -/
theorem map_handle_remaining {after : Program} {gone : List Handle} (consistent : start.Consistent)
    (calleesExist : start.CalleesExist) (herases : operator.Erases)
    (hcleared : start.Cleared after gone) (hcandidates : operator.candidates start = .ok candidates)
    (hremaining : operator.candidates after = .ok remaining) :
    remaining.map Candidate.handle = (candidates.map Candidate.handle).filter (· ∉ gone) := by
  have hcalls {search : CallSearch} (hsearch : operator.search? = some search) :
      remaining.map Candidate.handle = (candidates.map Candidate.handle).filter (· ∉ gone) := by
    have hafter := map_handle_candidates hcleared.consistent
      (hcleared.calleesExist consistent calleesExist) hsearch hremaining
    calc remaining.map Candidate.handle
      _ = search.targets after .call ++ search.targets after .invoke := hafter
      _ = (search.targets start .call ++ search.targets start .invoke).filter (· ∉ gone) := by
          rw [List.filter_append, hcleared.targets_eq consistent, hcleared.targets_eq consistent]
      _ = (candidates.map Candidate.handle).filter (· ∉ gone) := by
          rw [map_handle_candidates consistent calleesExist hsearch hcandidates]
  cases operator with
  | fence plan =>
      rw [eq_accesses rfl hcandidates, eq_accesses rfl hremaining, List.map_map, List.map_map]
      exact hcleared.map_handle_fences consistent
  | join | signal | wait => exact hcalls rfl
  | _ => exact herases.elim

/-! ## The candidates that were asked for

Only the first request for a candidate counts, and only if the operator accepts the candidate.
-/

/-- Whether one of the requests is carried out on an instruction. -/
def takes (operator : Operator) (candidates : List Candidate) (positions : List Nat)
    (handle : Handle) : Bool :=
  (firstRequest candidates positions handle).any fun (_, candidate) => operator.accepts candidate

variable {candidate : Candidate} {earlier positions : List Nat} {position : Nat} {handle : Handle}

/-- A candidate is taken if its position is requested and the request can be carried out. -/
theorem takes_iff (listed : Listed start candidates)
    (hcandidate : candidates[position]? = some candidate) :
    operator.takes candidates positions candidate.handle = true ↔
      position ∈ positions ∧ operator.accepts candidate = true := by
  simp only [takes, Option.any_eq_true, Prod.exists, listed.firstRequest_eq_some_iff]
  constructor
  · rintro ⟨request, found, ⟨other, hother, hhandle, hrequest⟩, haccepts⟩
    obtain rfl : position = other := by
      have hplace := listed.findIdx?_handle hother
      rw [hhandle, listed.findIdx?_handle hcandidate] at hplace
      exact Option.some.inj hplace
    obtain rfl : candidate = found := Option.some.inj (hcandidate.symm.trans hother)
    obtain ⟨hlt, hhere, -⟩ := List.findIdx?_eq_some_iff_getElem.mp hrequest
    exact ⟨List.mem_of_getElem (beq_iff_eq.mp hhere), haccepts⟩
  · rintro ⟨hmem, haccepts⟩
    obtain ⟨request, hrequest⟩ := exists_findIdx? hmem
    exact ⟨request, candidate, ⟨position, hcandidate, rfl, hrequest⟩, haccepts⟩

theorem not_takes_of_first (listed : Listed start candidates)
    (hcandidate : candidates[position]? = some candidate) (hfirst : position ∉ earlier) :
    ¬ operator.takes candidates earlier candidate.handle = true := fun htakes =>
  hfirst ((takes_iff listed hcandidate).mp htakes).1

/-- The first request for a candidate takes this candidate and no other, or nothing. -/
theorem mem_iff_takes_concat {gone : List Handle} (listed : Listed start candidates)
    (hcandidate : candidates[position]? = some candidate) (hfirst : position ∉ earlier)
    (hgone : ∀ handle, handle ∈ gone ↔ operator.takes candidates earlier handle = true)
    (handle : Handle) :
    (handle ∈ if operator.accepts candidate then gone ++ [candidate.handle] else gone) ↔
      operator.takes candidates (earlier ++ [position]) handle = true := by
  by_cases hhandle : handle = candidate.handle
  · subst hhandle
    have hnot : candidate.handle ∉ gone := fun hmem =>
      not_takes_of_first listed hcandidate hfirst ((hgone _).mp hmem)
    rw [takes, listed.firstRequest_concat_self hcandidate hfirst]
    show _ ↔ operator.accepts candidate = true
    cases operator.accepts candidate <;> simp [hnot]
  · rw [takes, firstRequest_concat_of_handle_ne hcandidate hhandle, ← takes, ← hgone]
    cases operator.accepts candidate <;> simp [hhandle]

/-- The candidates that were not taken, in the numbering that they had. -/
theorem filter_takes (listed : Listed start candidates) (positions : List Nat) :
    (candidates.map Candidate.handle).filter (!operator.takes candidates positions ·) =
      (candidates.zipIdx.filter fun (candidate, position) =>
        !(positions.contains position && operator.accepts candidate)).map (·.1.handle) := by
  have hnumbered : candidates.map Candidate.handle = candidates.zipIdx.map (·.1.handle) := by
    conv_lhs => rw [← List.zipIdx_map_fst 0 candidates, List.map_map]
    rfl
  rw [hnumbered, List.filter_map]
  refine congrArg _ (List.filter_congr fun (candidate, position) hmem => ?_)
  have hcandidate := List.mem_zipIdx_iff_getElem?.mp hmem
  have htakes := @takes_iff operator start candidates candidate positions position listed hcandidate
  rw [Function.comp_apply, Bool.not_inj_iff, Bool.eq_iff_iff, htakes, Bool.and_eq_true,
    List.contains_iff_mem]

/-! ## Accesses that were volatile

Nothing is erased here; a cleared access is still there and is no longer found.
-/

/-- A requested access is volatile no more. -/
theorem volatileKind?_touch {plan : VolatilePlan} {entry : Placed} (consistent : start.Consistent)
    (hcandidates : (Operator.volatile plan).candidates start = .ok candidates)
    (hplaced : start.placed? handle = some entry)
    (htakes : (Operator.volatile plan).takes candidates positions handle = true) :
    MemorySite.volatileKind? start
      ((Operator.volatile plan).touch candidates positions handle
        entry.instruction.operation) = none := by
  obtain ⟨⟨request, candidate⟩, hfirst, -⟩ := (Option.any_eq_true ..).mp htakes
  obtain ⟨hmem, rfl⟩ := mem_of_firstRequest hfirst
  rw [eq_accesses rfl hcandidates] at hmem
  obtain ⟨site, hsite, rfl⟩ := List.mem_map.mp hmem
  obtain ⟨found, hfound, -, hkind⟩ := MemorySite.placed?_of_mem_collect consistent hsite
  obtain rfl : entry = found := Option.some.inj (hplaced.symm.trans hfound)
  rw [touch_of_eq_some hfirst]
  exact VolatileOperator.volatileKind?_cleared hkind

/-- Those that are not requested stay volatile. -/
theorem map_handle_volatiles {plan : VolatilePlan} (consistent : start.Consistent)
    (hcandidates : (Operator.volatile plan).candidates start = .ok candidates)
    (positions : List Nat) :
    (MemorySite.volatiles
        (start.retouch ((Operator.volatile plan).touch candidates positions))).map
          MemorySite.handle =
      ((MemorySite.volatiles start).map MemorySite.handle).filter
        (!(Operator.volatile plan).takes candidates positions ·) := by
  rw [MemorySite.volatiles, MemorySite.volatiles, MemorySite.map_handle_collect,
    MemorySite.map_handle_collect, handles_retouch, List.filter_filter]
  refine List.filter_congr fun handle hmem => ?_
  obtain ⟨entry, hplaced⟩ := consistent.mem_handles_iff_placed?.mp hmem
  rw [instruction?_retouch, instruction?_of_placed? hplaced, Option.map_some, Option.any_some,
    Option.any_some]
  show (MemorySite.volatileKind? start ((Operator.volatile plan).touch candidates positions handle
    entry.instruction.operation)).isSome = _
  cases htakes : (Operator.volatile plan).takes candidates positions handle with
  | true => rw [volatileKind?_touch consistent hcandidates hplaced htakes]; rfl
  | false =>
      cases hfirst : firstRequest candidates positions handle with
      | none => rw [touch_of_eq_none hfirst]; rfl
      | some named =>
          rw [takes, hfirst] at htakes
          cases htakes

/-! ## One request after another

The invariant is carried on by a request that is refused (`Removing.warned`) and by one that is the
first for its candidate (`Removing.selected`).
-/

/-- What a run has come to after some of its requests: what they took is erased, if the operator
erases, and those of them that were declined have their warnings. -/
structure Removing (operator : Operator) (start : Program) (candidates : List Candidate)
    (earlier : List Nat) (state : Workspace) : Prop where
  pending : Pending start candidates operator.name earlier state
  cleared : operator.Erases → ∃ gone, start.Cleared state.program gone ∧
    ∀ handle, handle ∈ gone ↔ operator.takes candidates earlier handle = true
  declineWarnings_eq : state.ledger.declineWarnings =
    declineWarnings operator.name candidates.length earlier

section Requests

variable {state : Workspace}

/-- A request that is refused takes nothing and leaves its warning. -/
theorem Removing.warned (removing : operator.Removing start candidates earlier state)
    (hrefused : candidates.length ≤ position ∨ position ∈ earlier) {entry : Entry}
    (hentry : declineWarning? operator.name candidates.length earlier position = some entry)
    (hwarning : entry.isDeclineWarning = true) :
    operator.Removing start candidates (earlier ++ [position]) (state.warned entry) := by
  refine ⟨removing.pending.warned hrefused entry, fun herases => ?_, ?_⟩
  · obtain ⟨gone, hcleared, hgone⟩ := removing.cleared herases
    refine ⟨gone, hcleared, fun handle => ?_⟩
    rw [hgone, takes, takes, firstRequest_concat_of_refused hrefused]
  · calc (state.warned entry).ledger.declineWarnings
      _ = state.ledger.declineWarnings ++ [entry] := Workspace.declineWarnings_warned hwarning
      _ = declineWarnings operator.name candidates.length earlier ++ [entry] := by
        rw [removing.declineWarnings_eq]
      _ = declineWarnings operator.name candidates.length (earlier ++ [position]) := by
        rw [declineWarnings_concat, hentry, Option.toList_some]

/-- A first request takes its candidate, if it can be carried out, and leaves no warning. -/
theorem Removing.selected (consistent : start.Consistent) (fencesUnread : start.FencesUnread)
    (htakes : operator.TakesAway) (hcandidates : operator.candidates start = .ok candidates)
    (listed : Listed start candidates)
    (removing : operator.Removing start candidates earlier state)
    (hcandidate : candidates[position]? = some candidate) (hearlier : position ∉ earlier) :
    ∃ answer after, operator.change earlier.length candidate
        (state.claimed operator.name position) = .ok answer after ∧
      operator.Removing start candidates (earlier ++ [position]) after := by
  let claimed := state.claimed operator.name position
  have hmem := List.mem_of_getElem? hcandidate
  have hpending {answer : Bool} {after : Workspace}
      (hchange : operator.change earlier.length candidate claimed = .ok answer after) :=
    pending_of_change removing.pending listed hcandidate hchange
  have hdue : declineWarnings operator.name candidates.length (earlier ++ [position]) =
      declineWarnings operator.name candidates.length earlier :=
    declineWarnings_concat_of_first (List.getElem?_eq_some_iff.mp hcandidate).1 hearlier
  rcases htakes with herases | ⟨plan, rfl⟩
  · obtain ⟨gone, hcleared, hgone⟩ := removing.cleared herases
    -- not requested before, the candidate has not been erased
    have hstays : candidate.handle ∉ gone := fun hmem =>
      not_takes_of_first listed hcandidate hearlier ((hgone _).mp hmem)
    obtain ⟨answer, after, hchange, hafter, hquiet⟩ := (@clears_change start claimed gone operator
      candidates candidate consistent fencesUnread herases hcandidates hmem hcleared hstays
      earlier.length).exists_ok
    exact ⟨answer, after, hchange, hpending hchange,
      fun _ => ⟨_, hafter, mem_iff_takes_concat listed hcandidate hearlier hgone⟩,
      hquiet.trans (removing.declineWarnings_eq.trans hdue.symm)⟩
  · have hintact := removing.pending.intact listed hcandidate hearlier
    rw [eq_accesses rfl hcandidates] at hmem
    obtain ⟨site, -, rfl⟩ := List.mem_map.mp hmem
    obtain ⟨entry, hplaced⟩ := hintact
    obtain ⟨answer, after, hchange, hquiet⟩ :=
      (@VolatileOperator.quiet_clear claimed site entry hplaced).exists_ok
    exact ⟨answer, after, hchange, hpending hchange, False.elim,
      hquiet.trans (removing.declineWarnings_eq.trans hdue.symm)⟩

/-- Each request takes its candidate or nothing. -/
theorem keptByRequests_removing (consistent : start.Consistent)
    (fencesUnread : start.FencesUnread) (htakes : operator.TakesAway)
    (hcandidates : operator.candidates start = .ok candidates)
    (listed : Listed start candidates) :
    KeptByRequests start candidates operator.name operator.change
      fun earlier _ => operator.Removing start candidates earlier where
  pending := Removing.pending
  outOfBounds := fun removing hle =>
    removing.warned (Or.inl hle) (if_pos hle) (Entry.isDeclineWarning_outOfBounds ..)
  repeated := fun removing hlt hearlier =>
    removing.warned (Or.inr hearlier) ((if_neg (Nat.not_le.mpr hlt)).trans (if_pos hearlier))
      (Entry.isDeclineWarning_alreadyMutated ..)
  selected := Removing.selected consistent fencesUnread htakes hcandidates listed

end Requests

/-- A run takes its candidates one after another. -/
theorem exists_removing (consistent : start.Consistent) (fencesUnread : start.FencesUnread)
    (htakes : operator.TakesAway) (hcandidates : operator.candidates start = .ok candidates)
    (listed : Listed start candidates) (oracle : AliasOracle) :
    ∃ answer after, operator.run oracle { program := start } = .ok answer after ∧
      operator.Removing start candidates operator.positions after := by
  obtain ⟨course, prepared, hcourse, hprepared⟩ :=
    exists_prepared hcandidates htakes.numbersSites oracle
  have hquiet := @quiet_course { program := start } operator htakes oracle rfl
  unfold Runs at hquiet
  rw [hcourse] at hquiet
  have hprogram : prepared.program = start := hprepared.program_eq
  have hstart : operator.Removing start candidates [] prepared := by
    subst hprogram
    refine ⟨Pending.of_fresh consistent hprepared.used_eq hprepared.edited_eq candidates _,
      fun _ => ⟨[], Cleared.refl consistent, fun handle => ?_⟩, hquiet⟩
    simp [takes, firstRequest_nil]
  rw [run_eq, bind_apply_of_ok hcourse]
  exact hprepared.exists_finish hcandidates htakes.mutates
    (keptByRequests_removing consistent fencesUnread htakes hcandidates listed) listed hstart

/-! ## The whole run -/

/-- Whether the instruction at a handle is none of the candidates any more: it is erased or, if it
was volatile, an ordinary one. -/
def Took (operator : Operator) (program : Program) (handle : Handle) : Prop :=
  match operator with
  | .volatile _ => ∃ entry, program.placed? handle = some entry ∧
      MemorySite.volatileKind? program entry.instruction.operation = none
  | _ => program.placed? handle = none

/-- A run has taken the candidates that it was asked for and could take.  The others are the
candidates that are left, in the order of their numbers, and each request that named no candidate or
one that was requested before has its warning. -/
structure RemovesRequested (operator : Operator) (candidates remaining : List Candidate)
    (after : Workspace) : Prop where
  remaining_eq : remaining.map Candidate.handle =
    (candidates.zipIdx.filter fun (candidate, position) =>
      !(operator.positions.contains position && operator.accepts candidate)).map (·.1.handle)
  taken : ∀ {position candidate}, candidates[position]? = some candidate →
    position ∈ operator.positions → operator.accepts candidate = true →
      operator.Took after.program candidate.handle
  declineWarnings_eq : after.ledger.declineWarnings =
    declineWarnings operator.name candidates.length operator.positions

theorem removesRequested_of_erases {after : Workspace} (consistent : start.Consistent)
    (calleesExist : start.CalleesExist) (herases : operator.Erases)
    (hcandidates : operator.candidates start = .ok candidates) (listed : Listed start candidates)
    (removing : operator.Removing start candidates operator.positions after) :
    ∃ remaining, operator.candidates after.program = .ok remaining ∧
      operator.RemovesRequested candidates remaining after := by
  obtain ⟨gone, hcleared, hgone⟩ := removing.cleared herases
  obtain ⟨remaining, hremaining, -⟩ := exists_candidates hcleared.consistent
    (hcleared.calleesExist consistent calleesExist) operator
  refine ⟨remaining, hremaining, ?_, ?_, removing.declineWarnings_eq⟩
  · rw [map_handle_remaining consistent calleesExist herases hcleared hcandidates hremaining,
      ← filter_takes listed]
    exact List.filter_congr fun handle _ => by simp [hgone]
  · intro position candidate hcandidate hrequested haccepts
    have hstale := hcleared.placed?_of_mem
      ((hgone _).mpr ((takes_iff listed hcandidate).mpr ⟨hrequested, haccepts⟩))
    cases operator with
    | volatile plan => exact herases.elim
    | _ => exact hstale

theorem removesRequested_of_volatile {plan : VolatilePlan} {after : Workspace}
    (consistent : start.Consistent)
    (hcandidates : (Operator.volatile plan).candidates start = .ok candidates)
    (listed : Listed start candidates)
    (hprogram : after.program =
      start.retouch ((Operator.volatile plan).touch candidates plan.positions))
    (removing : (Operator.volatile plan).Removing start candidates plan.positions after) :
    ∃ remaining, (Operator.volatile plan).candidates after.program = .ok remaining ∧
      (Operator.volatile plan).RemovesRequested candidates remaining after := by
  refine ⟨_, rfl, ?_, ?_, removing.declineWarnings_eq⟩
  · have hleft := map_handle_volatiles consistent hcandidates plan.positions
    have hlisted : candidates.map Candidate.handle =
        (MemorySite.volatiles start).map MemorySite.handle := by
      rw [eq_accesses rfl hcandidates, List.map_map]
      rfl
    rw [← hlisted, filter_takes listed, ← hprogram] at hleft
    rw [List.map_map]
    exact hleft
  · intro position candidate hcandidate hrequested haccepts
    have htakes := (takes_iff listed hcandidate).mpr ⟨hrequested, haccepts⟩
    obtain ⟨entry, hplaced⟩ :=
      (listed.intact candidate (List.mem_of_getElem? hcandidate)).exists_placed?
    unfold Took
    rw [hprogram]
    exact ⟨_, placed?_retouch_of_placed? hplaced,
      @volatileKind?_touch start _ _ _ _ _ consistent hcandidates hplaced htakes⟩

/-- Of the candidates those that a run can take and was asked for are taken, and no others. -/
theorem remaining_after_run (consistent : start.Consistent) (calleesExist : start.CalleesExist)
    (fencesUnread : start.FencesUnread) (htakes : operator.TakesAway) (oracle : AliasOracle) :
    ∃ candidates answer after remaining,
      operator.candidates start = .ok candidates ∧
      operator.run oracle { program := start } = .ok answer after ∧
      operator.candidates after.program = .ok remaining ∧
      operator.RemovesRequested candidates remaining after := by
  obtain ⟨candidates, hcandidates, listed⟩ := exists_candidates consistent calleesExist operator
  obtain ⟨answer, after, hrun, removing⟩ :=
    exists_removing consistent fencesUnread htakes hcandidates listed oracle
  suffices hremaining : ∃ remaining, operator.candidates after.program = .ok remaining ∧
      operator.RemovesRequested candidates remaining after by
    obtain ⟨remaining, hremaining, hremoves⟩ := hremaining
    exact ⟨candidates, answer, after, remaining, hcandidates, hrun, hremaining, hremoves⟩
  rcases htakes with herases | ⟨plan, rfl⟩
  · exact removesRequested_of_erases consistent calleesExist herases hcandidates listed removing
  · obtain ⟨ledger, hyields⟩ := yields_retouch consistent hcandidates listed trivial oracle
    obtain ⟨-, rfl⟩ := EStateM.Result.ok.inj (hrun.symm.trans hyields)
    exact removesRequested_of_volatile consistent hcandidates listed rfl removing

/-- Of the joins in two functions the invoke and the first call are removed.  The call is asked for
twice, and no join has position 9. -/
theorem remaining_after_run_joinedThreads :
    ∃ candidates answer after remaining,
      (Operator.join { change := some .remove, positions := [3, 0, 0, 9] }).candidates
          CallSearch.joinedThreads = .ok candidates ∧
      (Operator.join { change := some .remove, positions := [3, 0, 0, 9] }).run .identity
          { program := CallSearch.joinedThreads } = .ok answer after ∧
      (Operator.join { change := some .remove, positions := [3, 0, 0, 9] }).candidates
          after.program = .ok remaining ∧
      (Operator.join { change := some .remove, positions := [3, 0, 0, 9] }).RemovesRequested
        candidates remaining after := by
  have answerable : CallSearch.joinedThreads.Answerable :=
    CallSearch.consistent_joinedThreads.answerable_iff.mpr (by decide)
  exact @remaining_after_run (.join { change := some .remove, positions := [3, 0, 0, 9] })
    CallSearch.joinedThreads CallSearch.consistent_joinedThreads answerable.calleesExist
    answerable.fencesUnread (Or.inl rfl) .identity

end Operator

end ConcurrencyFaults

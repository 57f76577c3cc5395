import ConcurrencyFaults.Proofs.Clearing
import ConcurrencyFaults.Proofs.Locking.Scheduling

/-!
# Removing lock pairs

A removal takes the listed calls out one after the other.  A call that was marked before the run
stays, and so may a call whose result is read if nothing can take the place of the result.

## Strategy

* After each call the program is what `Cleared` says for the calls that were taken out so far, and
  the marks and the journal have grown accordingly (`Removing`).  This is the invariant of the run;
  it is relative to the start, not to the state before.
* One call is removed or leaves a warning (`Removing.removeSite`).  Which of the two is recorded in
  `SomeRemoved`, again relative to the start, so the records of several calls can be appended
  (`SomeRemoved.append`).
* The requests are gathered before (`schedule_all`) and recorded after (`recordAllRemoved_apply`);
  the three parts are put together in `exists_remove`.
-/

namespace ConcurrencyFaults

open Program

variable {program : Program} {start state workspace : Workspace} {site : CallSite}

/-! ## Removing one call

A call may have changed since it was captured, as its arguments may have been cleared, so it is
taken out as it stands in the program. -/

/-- The form of a call decides whether a branch takes over from it. -/
theorem Placed.branch?_of_shape {entry : Placed}
    (hshape : entry.instruction.operation.shape = site.operation.shape) :
    entry.branch? = site.form.normal?.map fun normal =>
      { entry with
        instruction :=
          { operation := .branch normal, location := entry.instruction.location } } := by
  have hcontinuation : site.operation.continuation? = site.form.normal? := by
    unfold CallSite.operation
    cases site.form <;> rfl
  rw [Placed.branch?, Operation.continuation?_eq_of_shape_eq hshape, hcontinuation]

/-- An intact call is taken out whether or not its result is read. -/
theorem CallSite.remove_apply {entry : Placed} (consistent : program.Consistent)
    (hintact : site.Intact program) (hplaced : program.placed? site.handle = some entry)
    (hlocation : site.location = entry.instruction.location) :
    ∃ removal, site.remove LockOperator.statusWidth true program =
      .ok removal (program.takeOut site.handle entry) := by
  obtain ⟨found, hfound, -, hshape⟩ := id hintact
  obtain rfl : found = entry := Option.some.inj (hfound.symm.trans hplaced)
  have hbranch := Placed.branch?_of_shape hshape
  have hbranched := consistent_appendBranch consistent hplaced
  obtain ⟨removal, hremoval⟩ := eraseOrZero_of_placed? hbranched
    (placed?_appendBranch consistent hplaced) LockOperator.statusWidth true
  refine ⟨removal, ?_⟩
  unfold CallSite.remove
  rw [bind_apply_of_ok (Edit.query_apply_of_ok hintact.validate)]
  cases hform : site.form with
  | call =>
      rw [bind_apply_of_ok (branchToNormal_of_call hform)]
      rw [hform] at hbranch
      unfold takeOut
      rw [hbranch] at hremoval ⊢
      exact hremoval
  | invoke normal unwind =>
      rw [bind_apply_of_ok (branchToNormal_of_invoke consistent hform hplaced), hlocation]
      rw [hform] at hbranch
      unfold takeOut
      rw [hbranch] at hremoval ⊢
      exact hremoval

/-- A captured call that was not taken out so far is taken out as it now is. -/
theorem CallSite.exists_remove {before : Program} {gone : List Handle} {demangled : Bool}
    (hcleared : before.Cleared program gone) (consistent : before.Consistent)
    (hsite : capture before site.handle demangled = .ok (some site))
    (hstays : site.handle ∉ gone) :
    ∃ removal after, site.remove LockOperator.statusWidth true program = .ok removal after ∧
      before.Cleared after (gone ++ [site.handle]) := by
  obtain ⟨entry, target, hplaced, -, -, hcaptured⟩ := capture_eq_some_iff.mp hsite
  have hintact := hcleared.intact (intact_of_capture hsite).2 hstays
  have hcurrent := hcleared.placed? hplaced hstays
  obtain ⟨removal, hremove⟩ := remove_apply hcleared.consistent hintact hcurrent
    (congrArg CallSite.location hcaptured)
  exact ⟨removal, _, hremove, hcleared.takeOut consistent hplaced hstays hcurrent⟩

namespace LockOperator

/-- The warning about a call that cannot be removed because its result is read. -/
def usedWarning (site : CallSite) (family : LockFamily) : Entry :=
  .warning (s!"{name}: " ++ family.text ++ " call " ++ site.handle.text ++
    " still has uses, skipping")

/-- Removes an untouched call whose result is read some number of times. -/
def removeUnread (site : CallSite) (family : LockFamily) (uses : Nat) : Work Bool := do
  if uses > 0 then
    Work.record (usedWarning site family)
    return false
  let _ ← Work.edit (site.remove statusWidth true)
  Work.markEdited site.handle
  return true

theorem removeSite_eq (site : CallSite) (family : LockFamily) :
    removeSite site family = (do
      if !(← Work.isUntouched name site) then
        return false
      let uses ← if family.returnsStatus then pure 0 else Work.query (·.useCount site.handle)
      removeUnread site family uses) := rfl

/-- What a run has come to that removed some calls and left some notes. -/
structure Removing (start : Workspace) (removed : List Handle) (notes : List Entry)
    (state : Workspace) : Prop where
  cleared : start.program.Cleared state.program removed
  marks : ∀ handle, state.ledger.isEdited handle = true ↔
    handle ∈ removed ∨ start.ledger.isEdited handle = true
  journal : state.ledger.journal = start.ledger.journal.extend notes

/-- A call can be removed if it is not marked and the readers of its result, if there are any, can
take a status instead. -/
def Removable (start : Workspace) (site : CallSite) (family : LockFamily) : Prop :=
  start.ledger.isEdited site.handle = false ∧
    (family.returnsStatus = true ∨ start.program.useCount site.handle = .ok 0)

instance (start : Workspace) (site : CallSite) (family : LockFamily) :
    Decidable (Removable start site family) :=
  inferInstanceAs (Decidable (_ ∧ _))

/-- Some of the listed calls were removed and warnings were left about others: no call that was
marked is removed, and every one that can be removed is. -/
structure SomeRemoved (start : Workspace) (sites : List (CallSite × LockFamily))
    (removed : List Handle) (warnings : List Entry) : Prop where
  sublist : removed.Sublist (sites.map fun listed => listed.1.handle)
  marked : ∀ listed ∈ sites,
    start.ledger.isEdited listed.1.handle = true → listed.1.handle ∉ removed
  removable : ∀ listed ∈ sites, Removable start listed.1 listed.2 → listed.1.handle ∈ removed
  notes : ∀ warning ∈ warnings, warning.isTransformation = false
  quiet : (∀ listed ∈ sites, Removable start listed.1 listed.2) → warnings = []

namespace SomeRemoved

variable {sites later : List (CallSite × LockFamily)} {removed gone : List Handle}
  {warnings more : List Entry} {family : LockFamily}

theorem nil : SomeRemoved start [] [] [] where
  sublist := List.nil_sublist _
  marked := by simp
  removable := by simp
  notes := by simp
  quiet := fun _ => rfl

theorem one (hunmarked : start.ledger.isEdited site.handle = false) :
    SomeRemoved start [(site, family)] [site.handle] [] where
  sublist := List.Sublist.refl _
  marked := by simp [hunmarked]
  removable := by simp
  notes := by simp
  quiet := fun _ => rfl

theorem none {message : String} (hstays : ¬ Removable start site family) :
    SomeRemoved start [(site, family)] [] [.warning message] where
  sublist := List.nil_sublist _
  marked := by simp
  removable := by simp [hstays]
  notes := by simp [Entry.warning, Entry.isTransformation, EntryKind.isTransformation]
  quiet := fun hall => absurd (hall _ (List.mem_singleton_self _)) hstays

theorem append (hfirst : SomeRemoved start sites removed warnings)
    (hlater : SomeRemoved start later gone more)
    (hnodup : ((sites ++ later).map fun listed => listed.1.handle).Nodup) :
    SomeRemoved start (sites ++ later) (removed ++ gone) (warnings ++ more) := by
  rw [List.map_append, List.nodup_append'] at hnodup
  obtain ⟨-, -, hdisjoint⟩ := hnodup
  refine ⟨?_, ?_, ?_, ?_, ?_⟩
  · rw [List.map_append]
    exact hfirst.sublist.append hlater.sublist
  · intro listed hmem hmarked hgone
    rcases List.mem_append.mp hmem with hmem | hmem
    · have hhandle := List.mem_map_of_mem (f := fun listed => listed.1.handle) hmem
      rcases List.mem_append.mp hgone with hgone | hgone
      · exact hfirst.marked listed hmem hmarked hgone
      · exact hdisjoint hhandle (hlater.sublist.subset hgone)
    · have hhandle := List.mem_map_of_mem (f := fun listed => listed.1.handle) hmem
      rcases List.mem_append.mp hgone with hgone | hgone
      · exact hdisjoint (hfirst.sublist.subset hgone) hhandle
      · exact hlater.marked listed hmem hmarked hgone
  · intro listed hmem hremovable
    rcases List.mem_append.mp hmem with hmem | hmem
    · exact List.mem_append_left _ (hfirst.removable listed hmem hremovable)
    · exact List.mem_append_right _ (hlater.removable listed hmem hremovable)
  · intro warning hmem
    rcases List.mem_append.mp hmem with hmem | hmem
    · exact hfirst.notes warning hmem
    · exact hlater.notes warning hmem
  · intro hall
    rw [hfirst.quiet fun listed hmem => hall listed (List.mem_append_left _ hmem),
      hlater.quiet fun listed hmem => hall listed (List.mem_append_right _ hmem)]
    rfl

end SomeRemoved

namespace Removing

variable {removed : List Handle} {notes : List Entry} {family : LockFamily}
  (removing : Removing start removed notes state)
include removing

theorem note (entry : Entry) :
    Removing start removed (notes ++ [entry])
      { state with ledger := state.ledger.recordAll [entry] } := by
  refine ⟨removing.cleared, removing.marks, ?_⟩
  rw [Ledger.journal_recordAll, removing.journal]
  simp [Journal.extend]

variable (consistent : start.program.Consistent)
  (hsite : CallSite.capture start.program site.handle true = .ok (some site))
  (hstays : site.handle ∉ removed)
include consistent hsite hstays

/-- A call that was not removed so far is taken out as it now is. -/
theorem takeOut :
    ∃ removal after, site.remove statusWidth true state.program = .ok removal after ∧
      Removing start (removed ++ [site.handle]) notes
        { program := after, ledger := state.ledger.markEdited site.handle } := by
  obtain ⟨removal, after, hremove, hcleared⟩ :=
    CallSite.exists_remove removing.cleared consistent hsite hstays
  refine ⟨removal, after, hremove, hcleared, ?_, ?_⟩
  · intro handle
    rw [Ledger.isEdited_markEdited_iff, removing.marks, List.mem_append, List.mem_singleton]
    tauto
  · rw [Ledger.journal_markEdited, removing.journal]

/-- Counting the uses of a result finds none if there were none at the start. -/
theorem exists_uses : ∃ uses, state.program.useCount site.handle = .ok uses ∧
    (start.program.useCount site.handle = .ok 0 → uses = 0) := by
  obtain ⟨entry, -, hplaced, -⟩ := CallSite.capture_eq_some_iff.mp hsite
  have hcurrent := removing.cleared.placed? hplaced hstays
  obtain ⟨uses, huses⟩ := exists_useCount removing.cleared.consistent hcurrent
  refine ⟨uses, huses, fun hunused => ?_⟩
  have hstill := removing.cleared.useCount_eq_zero consistent hplaced hunused hstays
  exact Except.ok.inj (huses.symm.trans hstill)

/-- An unmarked call is removed if nothing reads its result. -/
theorem removeUnread (hunmarked : start.ledger.isEdited site.handle = false) {uses : Nat}
    (hunread : Removable start site family → uses = 0) :
    ∃ answer after more, LockOperator.removeUnread site family uses state = .ok answer after ∧
      Removing start (removed ++ if answer then [site.handle] else []) (notes ++ more) after ∧
      SomeRemoved start [(site, family)] (if answer then [site.handle] else []) more := by
  unfold LockOperator.removeUnread
  by_cases hused : uses > 0
  · rw [if_pos hused]
    refine ⟨false, _, [usedWarning site family], rfl, ?_, ?_⟩
    · rw [if_neg (by simp), List.append_nil]
      exact removing.note _
    · exact .none fun hremovable => absurd (hunread hremovable) (Nat.ne_of_gt hused)
  · obtain ⟨removal, after, hremove, hafter⟩ := removing.takeOut consistent hsite hstays
    rw [if_neg hused, bind_apply_of_ok (Work.edit_apply_of_ok hremove)]
    refine ⟨true, _, [], rfl, ?_, .one hunmarked⟩
    rwa [List.append_nil]

/-- One listed call is removed or leaves a warning. -/
theorem removeSite (family : LockFamily) :
    ∃ answer after more, LockOperator.removeSite site family state = .ok answer after ∧
      Removing start (removed ++ if answer then [site.handle] else []) (notes ++ more) after ∧
      SomeRemoved start [(site, family)] (if answer then [site.handle] else []) more := by
  have hintact := removing.cleared.intact (CallSite.intact_of_capture hsite).2 hstays
  have hasked := Work.isUntouched_of_intact hintact name
  have hmark : state.ledger.isEdited site.handle = start.ledger.isEdited site.handle := by
    rw [Bool.eq_iff_iff, removing.marks]
    simp [hstays]
  rw [hmark] at hasked
  rw [removeSite_eq]
  -- a marked call is refused; of the others, those without a status have their uses counted
  cases hedited : start.ledger.isEdited site.handle with
  | true =>
      rw [hedited, if_pos rfl] at hasked
      rw [bind_apply_of_ok hasked]
      refine ⟨false, _, [Work.editedWarning name site], rfl, ?_, ?_⟩
      · rw [if_neg (by simp), List.append_nil]
        exact removing.note _
      · exact .none fun hremovable => absurd (hedited.symm.trans hremovable.1) (by simp)
  | false =>
      rw [hedited, if_neg (by simp)] at hasked
      rw [bind_apply_of_ok hasked, if_neg (by simp)]
      cases hstatus : family.returnsStatus with
      | true => exact removing.removeUnread consistent hsite hstays hedited fun _ => rfl
      | false =>
          obtain ⟨uses, huses, hunused⟩ := removing.exists_uses consistent hsite hstays
          have hunread : Removable start site family → uses = 0 := fun hremovable =>
            hunused (hremovable.2.resolve_left (by simp [hstatus]))
          obtain ⟨answer, after, more, hremove, hafter, houtcome⟩ :=
            removing.removeUnread consistent hsite hstays hedited hunread
          refine ⟨answer, after, more, ?_, hafter, houtcome⟩
          rw [if_neg (by simp)]
          exact (bind_apply_of_ok (Work.query_apply_of_ok huses) _).trans hremove

end Removing

/-! ## Removing what is listed

The induction is on the listed calls and generalizes what was removed before.  Each call is listed
once, so none of those that are left is among the removed ones. -/

/-- The listed calls are calls of the program, each listed once. -/
structure Listed (program : Program) (sites : List (CallSite × LockFamily)) : Prop where
  captured : ∀ listed ∈ sites,
    CallSite.capture program listed.1.handle true = .ok (some listed.1)
  nodup : (sites.map fun listed => listed.1.handle).Nodup

/-- Removes one listed call after others were removed. -/
def removeNext (removed : List Handle) (listed : CallSite × LockFamily) : Work (List Handle) := do
  return if ← removeSite listed.1 listed.2 then removed ++ [listed.1.handle] else removed

theorem removeNext_apply {answer : Bool} {family : LockFamily} {after : Workspace}
    (hremove : removeSite site family state = .ok answer after) (removed : List Handle) :
    removeNext removed (site, family) state =
      .ok (removed ++ if answer then [site.handle] else []) after := by
  unfold removeNext
  rw [bind_apply_of_ok hremove]
  cases answer with
  | true => rfl
  | false =>
      rw [if_neg (by simp), if_neg (by simp), List.append_nil]
      rfl

/-- A run over the listed calls removes some of them. -/
theorem Removing.removeSites {sites : List (CallSite × LockFamily)} {removed : List Handle}
    {notes : List Entry} (removing : Removing start removed notes state)
    (consistent : start.program.Consistent) (listing : Listed start.program sites)
    (hstays : ∀ listed ∈ sites, listed.1.handle ∉ removed) :
    ∃ gone after warnings,
      sites.foldlM removeNext removed state = .ok (removed ++ gone) after ∧
      Removing start (removed ++ gone) (notes ++ warnings) after ∧
      SomeRemoved start sites gone warnings := by
  induction sites generalizing removed notes state with
  | nil =>
      refine ⟨[], state, [], ?_, ?_, .nil⟩
      · rw [List.append_nil]
        rfl
      · simpa using removing
  | cons first rest ih =>
      obtain ⟨site, family⟩ := first
      obtain ⟨answer, between, warnings, hfirst, hbetween, hsome⟩ :=
        removing.removeSite consistent (listing.captured _ (List.mem_cons_self ..))
          (hstays _ (List.mem_cons_self ..)) family
      -- what is removed now is none of the calls that come later
      have hlater : ∀ listed ∈ rest,
          listed.1.handle ∉ removed ++ if answer then [site.handle] else [] := by
        intro listed hmem hgone
        rcases List.mem_append.mp hgone with hgone | hgone
        · exact hstays listed (List.mem_cons_of_mem _ hmem) hgone
        · have hsame := List.mem_singleton.mp (hsome.sublist.subset hgone)
          exact (List.nodup_cons.mp listing.nodup).1 (List.mem_map.mpr ⟨listed, hmem, hsame⟩)
      obtain ⟨gone, after, more, hrest, hafter, hsomeLater⟩ := ih hbetween
        ⟨fun listed hmem => listing.captured listed (List.mem_cons_of_mem _ hmem),
          (List.nodup_cons.mp listing.nodup).2⟩ hlater
      refine ⟨_, after, warnings ++ more, ?_, ?_, hsome.append hsomeLater listing.nodup⟩
      · rw [List.foldlM_cons, bind_apply_of_ok (removeNext_apply hfirst removed), hrest,
          List.append_assoc]
      · rwa [List.append_assoc, List.append_assoc] at hafter

/-- Whatever the requests were, the listed calls are calls of the program. -/
theorem RemovalList.Covers.listed {removals : RemovalList} {addressing : PairAddressing}
    {addresses : List PairAddress} {oracle : AliasOracle} (consistent : program.Consistent)
    (calleesExist : program.CalleesExist)
    (covers : removals.Covers (.ofProgram oracle program) addressing addresses) :
    Listed program removals.sites where
  nodup := covers.sites_nodup
  captured := by
    intro listed hmem
    obtain ⟨pair, hpair, hside⟩ := covers.mem_sites listed hmem
    obtain ⟨address, -, hfind⟩ := List.mem_filterMap.mp hpair
    have hmatches := matches_of_find? consistent calleesExist hfind
    rcases hside with rfl | rfl
    · exact hmatches.lock_at
    · exact hmatches.unlock_at

/-! ## The run

A pair is recorded if it lost both of its calls. -/

/-- The entry for a pair that was removed. -/
def removedEntry (address : PairAddress) : Entry where
  kind := .pairRemoved
  pass := some name
  message := "removed pair " ++ address.text

/-- Both calls of a pair are among the removed ones. -/
def bothRemoved (removed : List Handle) (pair : LockPair) : Bool :=
  removed.contains pair.lock.handle && removed.contains pair.unlock.handle

theorem bothRemoved_iff {removed : List Handle} {pair : LockPair} :
    bothRemoved removed pair = true ↔
      pair.lock.handle ∈ removed ∧ pair.unlock.handle ∈ removed := by
  simp [bothRemoved]

/-- The requests whose pairs were removed. -/
def recordedRequests (requests : List (PairAddress × LockPair)) (removed : List Handle) :
    List (PairAddress × LockPair) :=
  requests.filter fun requested => bothRemoved removed requested.2

/-- What a run writes down for one request. -/
def recordRemoved (removed : List Handle) (requested : PairAddress × LockPair) : Work Unit := do
  if bothRemoved removed requested.2 then Work.record (removedEntry requested.1)

theorem recordRemoved_apply (removed : List Handle) (requested : PairAddress × LockPair) :
    recordRemoved removed requested workspace =
      .ok ()
        { workspace with
          ledger := workspace.ledger.recordAll
            ((recordedRequests [requested] removed).map fun requested =>
              removedEntry requested.1) } := by
  unfold recordRemoved recordedRequests
  cases hboth : bothRemoved removed requested.2 with
  | false => simp [hboth]; rfl
  | true => simp only [hboth, List.filter_cons, if_true]; rfl

theorem recordAllRemoved_apply (removed : List Handle)
    (requests : List (PairAddress × LockPair)) :
    requests.forM (recordRemoved removed) workspace =
      .ok ()
        { workspace with
          ledger := workspace.ledger.recordAll
            ((recordedRequests requests removed).map fun requested =>
              removedEntry requested.1) } := by
  induction requests generalizing workspace with
  | nil => rw [recordedRequests, List.filter_nil, List.map_nil, Ledger.recordAll_nil]; rfl
  | cons request rest ih =>
      have hsplit : recordedRequests (request :: rest) removed =
          recordedRequests [request] removed ++ recordedRequests rest removed :=
        List.filter_append [request] rest
      let removedEntries (requests : List (PairAddress × LockPair)) : List Entry :=
        (recordedRequests requests removed).map fun requested => removedEntry requested.1
      let noted := workspace.ledger.recordAll (removedEntries [request])
      calc (request :: rest).forM (recordRemoved removed) workspace
        _ = rest.forM (recordRemoved removed) { workspace with ledger := noted } :=
          bind_apply_of_ok (recordRemoved_apply removed request) _
        _ = .ok () { workspace with ledger := noted.recordAll (removedEntries rest) } := ih
        _ = .ok () { workspace with
            ledger := workspace.ledger.recordAll (removedEntries (request :: rest)) } := by
          simp only [noted, removedEntries]
          rw [Ledger.recordAll_recordAll, hsplit, List.map_append]

theorem remove_eq (index : PairIndex) (plan : LockPlan) :
    remove index plan = (do
      let removals ← (PairAddress.listOf plan.positions).foldlM (schedule index plan.addressing) {}
      let removed ← removals.sites.foldlM removeNext []
      removals.pairs.forM (recordRemoved removed)
      return !removed.isEmpty) := rfl

variable {plan : LockPlan} {oracle : AliasOracle}

/-- How a removal went: its requests were gathered in two lists, some of the listed calls were
removed and some warnings were left on the way. -/
structure RemovesListed (plan : LockPlan) (oracle : AliasOracle) (workspace : Workspace)
    (removals : RemovalList) (removed : List Handle) (warnings : List Entry)
    (after : Workspace) : Prop extends SomeRemoved workspace removals.sites removed warnings where
  covers : removals.Covers (.ofProgram oracle workspace.program) plan.addressing
    (PairAddress.listOf plan.positions)
  removing : Removing workspace removed
    (PairIndex.notes oracle workspace.program ++
      requestWarnings (.ofProgram oracle workspace.program) plan.addressing []
        (PairAddress.listOf plan.positions) ++ warnings ++
      (recordedRequests removals.pairs removed).map fun requested => removedEntry requested.1) after

/-- A run removes some of the listed calls and records the pairs that lost both of their calls. -/
theorem exists_remove (consistent : workspace.program.Consistent)
    (calleesExist : workspace.program.CalleesExist) (hmode : plan.mode = some .remove) :
    ∃ removals removed warnings after,
      run plan oracle workspace = .ok (!removed.isEmpty) after ∧
      RemovesListed plan oracle workspace removals removed warnings after := by
  let index := PairIndex.ofProgram oracle workspace.program
  let addresses := PairAddress.listOf plan.positions
  -- the index, and the requests in two lists
  have hbuild := PairIndex.build_apply consistent calleesExist oracle
  have hsides : ∀ address pair, find? index plan.addressing address = some pair →
      pair.unlock.handle ≠ pair.lock.handle := fun address pair hfind =>
    (matches_of_find? consistent calleesExist hfind).handle_ne
  obtain ⟨removals, hschedule, covers⟩ := @schedule_all index plan.addressing [] {}
    { workspace with
      ledger := workspace.ledger.recordAll (PairIndex.notes oracle workspace.program) }
    RemovalList.covers_nil hsides addresses
  -- nothing is removed by then, so the invariant holds with notes alone
  have hnothing : Removing workspace [] (PairIndex.notes oracle workspace.program ++
      requestWarnings index plan.addressing [] addresses)
      { workspace with
        ledger := (workspace.ledger.recordAll (PairIndex.notes oracle workspace.program)).recordAll
          (requestWarnings index plan.addressing [] addresses) } := by
    refine ⟨Cleared.refl consistent, fun handle => by simp, ?_⟩
    rw [Ledger.recordAll_recordAll, Ledger.journal_recordAll]
  obtain ⟨removed, after, warnings, hremove, hafter, hsome⟩ := hnothing.removeSites consistent
    (@RemovalList.Covers.listed _ removals _ _ _ consistent calleesExist covers) (by simp)
  rw [List.nil_append] at hremove hafter
  have hrecord := @recordAllRemoved_apply after removed removals.pairs
  let entries := (recordedRequests removals.pairs removed).map fun requested =>
    removedEntry requested.1
  refine ⟨removals, removed, warnings, { after with ledger := after.ledger.recordAll entries }, ?_,
    hsome, covers, hafter.cleared, hafter.marks, ?_⟩
  · unfold run
    rw [hmode]
    dsimp only
    rw [bind_apply_of_ok hbuild, remove_eq, bind_apply_of_ok hschedule, bind_apply_of_ok hremove,
      bind_apply_of_ok hrecord]
    rfl
  · rw [Ledger.journal_recordAll, hafter.journal]
    simp [Journal.extend, entries, index, addresses]

end LockOperator

end ConcurrencyFaults

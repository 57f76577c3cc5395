import ConcurrencyFaults.Proofs.Locking.Removal

/-!
# What a removal accounts for

The two calls of a pair are removed one by one, but the journal speaks of pairs.  A pair is recorded
exactly if both of its calls were removed, so a call that was removed alone is not accounted for:
its partner was marked before the run, or its result was still read.  Where the calls of each
requested pair can be removed together or not at all, every removed call belongs to a recorded pair.

## Strategy

A removal leaves a list of handles that were removed and a list of pairs that were asked for
(`RemovesListed`).  All that is said of erased instructions is said of the first list
(`Cleared.erases_iff`), and all that is said of the journal is said of the second
(`transformations_eq`).  The two lists are tied by `mem_recorded_iff`: a pair is recorded if both of
its handles are in the first.
-/

namespace ConcurrencyFaults

open Program

/-- There was an instruction at the handle and there is none any more. -/
def Program.Erases (before after : Program) (handle : Handle) : Prop :=
  before.isLive handle = true ∧ after.isLive handle = false

/-- Exactly the instructions that were taken out are erased. -/
theorem Program.Cleared.erases_iff {before after : Program} {gone : List Handle} {handle : Handle}
    (hcleared : before.Cleared after gone) : before.Erases after handle ↔ handle ∈ gone := by
  constructor
  · rintro ⟨hlive, hdead⟩
    by_contra hstays
    obtain ⟨entry, hplaced⟩ := Option.isSome_iff_exists.mp hlive
    have hstill := hcleared.placed? hplaced hstays
    rw [isLive, hstill] at hdead
    cases hdead
  · intro hmem
    obtain ⟨entry, hplaced⟩ := hcleared.live handle hmem
    refine ⟨?_, ?_⟩
    · rw [isLive, hplaced]
      rfl
    · rw [isLive, hcleared.placed?_of_mem hmem]
      rfl

namespace LockPair

/-- The handle is that of one of the two calls. -/
def HasSide (pair : LockPair) (handle : Handle) : Prop :=
  handle = pair.lock.handle ∨ handle = pair.unlock.handle

/-- Both calls of the pair were marked before the run, or both can be removed. -/
def RemovedTogether (pair : LockPair) (workspace : Workspace) : Prop :=
  (workspace.ledger.isEdited pair.lock.handle = true ∧
      workspace.ledger.isEdited pair.unlock.handle = true) ∨
    (LockOperator.Removable workspace pair.lock pair.family ∧
      LockOperator.Removable workspace pair.unlock pair.family)

instance (pair : LockPair) (workspace : Workspace) : Decidable (pair.RemovedTogether workspace) :=
  inferInstanceAs (Decidable (_ ∨ _))

end LockPair

namespace LockOperator

variable {workspace after : Workspace} {plan : LockPlan} {oracle : AliasOracle}
  {removals : RemovalList} {removed : List Handle} {warnings : List Entry} {handle : Handle}

theorem matches_of_requested {program : Program} {pair : LockPair} (consistent : program.Consistent)
    (calleesExist : program.CalleesExist)
    (hrequested : pair ∈ requestedPairs (.ofProgram oracle program) plan) :
    pair.Matches oracle program := by
  obtain ⟨address, -, hfind⟩ := List.mem_filterMap.mp hrequested
  exact matches_of_find? consistent calleesExist hfind

theorem isTransformation_of_mem_requestWarnings {index : PairIndex} {addressing : PairAddressing}
    {earlier later : List PairAddress} {entry : Entry}
    (hmem : entry ∈ requestWarnings index addressing earlier later) :
    entry.isTransformation = false := by
  induction later generalizing earlier with
  | nil => cases hmem
  | cons address rest ih =>
      rcases List.mem_append.mp hmem with hfirst | hrest
      · have hwarning := Option.mem_toList.mp hfirst
        unfold requestWarning? at hwarning
        split at hwarning
        · obtain rfl := Option.some.inj hwarning
          rfl
        · split at hwarning
          · obtain rfl := Option.some.inj hwarning
            rfl
          · cases hwarning
      · exact ih hrest

namespace RemovesListed

variable (removes : RemovesListed plan oracle workspace removals removed warnings after)
include removes

/-- Only the two calls of a requested pair are removed. -/
theorem exists_side (hmem : handle ∈ removed) :
    ∃ pair ∈ requestedPairs (.ofProgram oracle workspace.program) plan, pair.HasSide handle := by
  obtain ⟨listed, hlisted, rfl⟩ := List.mem_map.mp (removes.sublist.subset hmem)
  obtain ⟨pair, hpair, hside⟩ := removes.covers.mem_sites listed hlisted
  refine ⟨pair, hpair, ?_⟩
  rcases hside with rfl | rfl
  · exact Or.inl rfl
  · exact Or.inr rfl

/-- The changes that are written down are the recorded pairs. -/
theorem transformations_eq : after.ledger.journal.transformations =
    workspace.ledger.journal.transformations ++ (recordedRequests removals.pairs removed).map
      fun requested => removedEntry requested.1 := by
  have hnotes : ∀ entry ∈ PairIndex.notes oracle workspace.program ++
      requestWarnings (.ofProgram oracle workspace.program) plan.addressing []
        (PairAddress.listOf plan.positions) ++ warnings, entry.isTransformation = false := by
    intro entry hmem
    rcases List.mem_append.mp hmem with hmem | hmem
    · rcases List.mem_append.mp hmem with hmem | hmem
      · exact PairIndex.isTransformation_of_mem_notes hmem
      · exact isTransformation_of_mem_requestWarnings hmem
    · exact removes.notes entry hmem
  have hrecorded : ((recordedRequests removals.pairs removed).map fun requested =>
      removedEntry requested.1).filter Entry.isTransformation =
        (recordedRequests removals.pairs removed).map fun requested =>
          removedEntry requested.1 := by
    refine List.filter_eq_self.mpr fun entry hmem => ?_
    obtain ⟨requested, -, rfl⟩ := List.mem_map.mp hmem
    rfl
  rw [removes.removing.journal, Journal.transformations_extend, List.filter_append,
    List.filter_eq_nil_iff.mpr fun entry hmem => by simp [hnotes entry hmem], hrecorded,
    List.nil_append]

variable (consistent : workspace.program.Consistent)
  (calleesExist : workspace.program.CalleesExist) {pair : LockPair}
include consistent calleesExist

/-- Both calls of a requested pair are listed with its family. -/
theorem mem_sites_of_side {site : CallSite}
    (hrequested : pair ∈ requestedPairs (.ofProgram oracle workspace.program) plan)
    (hside : site = pair.lock ∨ site = pair.unlock) : (site, pair.family) ∈ removals.sites := by
  obtain ⟨listed, hlisted, hhandle⟩ := List.mem_map.mp (RemovalList.lists_iff.mp
    (removes.covers.lists_sides site (mem_sidesOf_iff.mpr ⟨pair, hrequested, hside⟩)))
  obtain ⟨other, hother, hotherSide⟩ := removes.covers.mem_sites listed hlisted
  -- the site may be listed for another pair, which then has the same family
  have hpairMatches := matches_of_requested consistent calleesExist hrequested
  have hotherMatches := matches_of_requested consistent calleesExist hother
  have hwhich : listed.1 = other.lock ∨ listed.1 = other.unlock :=
    hotherSide.imp (congrArg Prod.fst) (congrArg Prod.fst)
  obtain ⟨hsite, hfamily⟩ := hpairMatches.side_unique hotherMatches hside hwhich hhandle.symm
  have hlistedFamily : listed.2 = other.family := by rcases hotherSide with rfl | rfl <;> rfl
  have hsame : listed = (site, pair.family) :=
    Prod.ext hsite.symm (hlistedFamily.trans hfamily.symm)
  exact hsame ▸ hlisted

/-- A pair is recorded exactly if it was requested and lost both of its calls. -/
theorem mem_recorded_iff :
    (∃ address, (address, pair) ∈ recordedRequests removals.pairs removed) ↔
      pair ∈ requestedPairs (.ofProgram oracle workspace.program) plan ∧
        pair.lock.handle ∈ removed ∧ pair.unlock.handle ∈ removed := by
  constructor
  · rintro ⟨address, hrecorded⟩
    obtain ⟨hmem, hboth⟩ := List.mem_filter.mp hrecorded
    obtain ⟨haddress, hfind⟩ := removes.covers.mem_pairs _ hmem
    exact ⟨mem_requestedPairs haddress hfind, bothRemoved_iff.mp hboth⟩
  · rintro ⟨hrequested, hboth⟩
    obtain ⟨⟨address, other⟩, hmem, hlock, hunlock⟩ :=
      RemovalList.listsPair_iff.mp (removes.covers.lists_pairs pair hrequested)
    obtain ⟨-, hother⟩ := removes.covers.mem_pairs _ hmem
    obtain rfl : other = pair := LockPair.Matches.eq_of_handles
      (matches_of_find? consistent calleesExist hother)
      (matches_of_requested consistent calleesExist hrequested) hlock hunlock
    exact ⟨address, List.mem_filter.mpr ⟨hmem, bothRemoved_iff.mpr hboth⟩⟩

/-- A call is not removed alone from a pair whose calls are removed together or not at all. -/
theorem both_of_removedTogether
    (hrequested : pair ∈ requestedPairs (.ofProgram oracle workspace.program) plan)
    (htogether : pair.RemovedTogether workspace) (hside : pair.HasSide handle)
    (hmem : handle ∈ removed) : pair.lock.handle ∈ removed ∧ pair.unlock.handle ∈ removed := by
  have hlock := removes.mem_sites_of_side consistent calleesExist hrequested (Or.inl rfl)
  have hunlock := removes.mem_sites_of_side consistent calleesExist hrequested (Or.inr rfl)
  -- marked calls are never removed, removable ones always
  rcases htogether with ⟨hlockMark, hunlockMark⟩ | ⟨hlockFree, hunlockFree⟩
  · rcases hside with rfl | rfl
    · exact absurd hmem (removes.marked _ hlock hlockMark)
    · exact absurd hmem (removes.marked _ hunlock hunlockMark)
  · exact ⟨removes.removable _ hlock hlockFree, removes.removable _ hunlock hunlockFree⟩

end RemovesListed

/-- What a removal accounts for.  It records exactly those requested pairs that lost both of their
calls, each once; it erases nothing but calls of requested pairs and answers whether it erased any.
If the calls of each requested pair can be removed together or not at all, every erased call belongs
to a recorded pair. -/
theorem remove_accounts (consistent : workspace.program.Consistent)
    (calleesExist : workspace.program.CalleesExist) (hmode : plan.mode = some .remove) :
    ∃ modified after, ∃ recorded : List (PairAddress × LockPair),
      run plan oracle workspace = .ok modified after ∧
      after.ledger.journal.transformations =
        workspace.ledger.journal.transformations ++
          recorded.map (fun requested => removedEntry requested.1) ∧
      (recorded.map Prod.snd).Nodup ∧
      (∀ requested ∈ recorded, requested.1 ∈ PairAddress.listOf plan.positions ∧
        find? (.ofProgram oracle workspace.program) plan.addressing requested.1 =
          some requested.2) ∧
      (∀ pair, (∃ address, (address, pair) ∈ recorded) ↔
        pair ∈ requestedPairs (.ofProgram oracle workspace.program) plan ∧
          workspace.program.Erases after.program pair.lock.handle ∧
          workspace.program.Erases after.program pair.unlock.handle) ∧
      (∀ handle, workspace.program.Erases after.program handle →
        ∃ pair ∈ requestedPairs (.ofProgram oracle workspace.program) plan, pair.HasSide handle) ∧
      (modified = true ↔ ∃ handle, workspace.program.Erases after.program handle) ∧
      ((∀ pair ∈ requestedPairs (.ofProgram oracle workspace.program) plan,
          pair.RemovedTogether workspace) →
        (∀ handle, workspace.program.Erases after.program handle →
          ∃ requested ∈ recorded, requested.2.HasSide handle) ∧
        (modified = true → recorded ≠ [])) := by
  obtain ⟨removals, removed, warnings, after, hrun, removes⟩ :=
    @exists_remove workspace plan oracle consistent calleesExist hmode
  have herases : ∀ handle, workspace.program.Erases after.program handle ↔ handle ∈ removed :=
    fun handle => removes.removing.cleared.erases_iff
  have hmodified : (!removed.isEmpty) = true ↔
      ∃ handle, workspace.program.Erases after.program handle := by
    simp only [herases]
    cases removed <;> simp
  have hrecorded := fun pair =>
    @RemovesListed.mem_recorded_iff _ _ _ _ _ _ _ removes consistent calleesExist pair
  have haccounted : (∀ pair ∈ requestedPairs (.ofProgram oracle workspace.program) plan,
        pair.RemovedTogether workspace) → ∀ handle ∈ removed,
      ∃ requested ∈ recordedRequests removals.pairs removed, requested.2.HasSide handle := by
    intro htogether handle hmem
    obtain ⟨pair, hrequested, hside⟩ := removes.exists_side hmem
    have hboth := removes.both_of_removedTogether consistent calleesExist hrequested
      (htogether pair hrequested) hside hmem
    obtain ⟨address, hpair⟩ := (hrecorded pair).mpr ⟨hrequested, hboth⟩
    exact ⟨_, hpair, hside⟩
  refine ⟨_, after, recordedRequests removals.pairs removed, hrun, ?_, ?_, ?_, ?_, ?_, hmodified,
    ?_⟩
  · exact removes.transformations_eq
  · exact removes.covers.pairs_nodup.sublist (List.filter_sublist.map _)
  · exact fun requested hmem => removes.covers.mem_pairs _ (List.mem_of_mem_filter hmem)
  · intro pair
    simp only [herases]
    exact hrecorded pair
  · exact fun handle herased => removes.exists_side ((herases handle).mp herased)
  · intro htogether
    refine ⟨fun handle herased => haccounted htogether handle ((herases handle).mp herased), ?_⟩
    intro hanswer hnone
    obtain ⟨handle, herased⟩ := hmodified.mp hanswer
    obtain ⟨requested, hmem, -⟩ := haccounted htogether handle ((herases handle).mp herased)
    rw [hnone] at hmem
    cases hmem

/-- Two critical sections, the first with a lock whose result is read.  It is not to be unfolded,
lest runs on it are evaluated in passing. -/
@[irreducible] def readStatus : Program :=
  Command.run [.declare "_ZNSt3__15mutex4lockEv" .status,
    .declare "_ZNSt3__15mutex6unlockEv" .void,
    .addFunction "main" .void [], .addBlock 2 "entry",
    .push 2 0 (.ofOperation (.call (.direct 0) [.global "mutex"] .status)),
    .push 2 0 (.ofOperation (.other "work" [.result ⟨0, 0⟩] .void)),
    .push 2 0 (.ofOperation (.call (.direct 1) [.global "mutex"] .void)),
    .push 2 0 (.ofOperation (.call (.direct 0) [.global "other"] .status)),
    .push 2 0 (.ofOperation (.call (.direct 1) [.global "other"] .void)),
    .push 2 0 (.ofOperation (.ret none))]
    { name := "used" }

theorem consistent_readStatus : readStatus.Consistent := by
  unfold readStatus
  exact Command.consistent_run (Command.consistent_empty "used") _

/-- A plan that removes one pair of plain calls. -/
def removeAt (position : Nat) : LockPlan := { mode := some .remove, positions := [0, position] }

/-- The second pair is removed as a whole. -/
theorem remove_accounts_readStatus :
    ∃ modified after, ∃ recorded : List (PairAddress × LockPair),
      run (removeAt 1) .identity { program := readStatus } = .ok modified after ∧
      after.ledger.journal.transformations =
        Ledger.empty.journal.transformations ++
          recorded.map (fun requested => removedEntry requested.1) ∧
      (recorded.map Prod.snd).Nodup ∧
      (∀ requested ∈ recorded, requested.1 ∈ PairAddress.listOf (removeAt 1).positions ∧
        find? (.ofProgram .identity readStatus) .category requested.1 = some requested.2) ∧
      (∀ pair, (∃ address, (address, pair) ∈ recorded) ↔
        pair ∈ requestedPairs (.ofProgram .identity readStatus) (removeAt 1) ∧
          readStatus.Erases after.program pair.lock.handle ∧
          readStatus.Erases after.program pair.unlock.handle) ∧
      (∀ handle, readStatus.Erases after.program handle →
        ∃ pair ∈ requestedPairs (.ofProgram .identity readStatus) (removeAt 1),
          pair.HasSide handle) ∧
      (modified = true ↔ ∃ handle, readStatus.Erases after.program handle) ∧
      (∀ handle, readStatus.Erases after.program handle →
        ∃ requested ∈ recorded, requested.2.HasSide handle) ∧
      (modified = true → recorded ≠ []) := by
  have calleesExist := consistent_readStatus.calleesExist_iff.mpr (by decide +kernel)
  obtain ⟨modified, after, recorded, hrun, htransformations, hnodup, hfound, hrecorded, hsides,
      hmodified, haccounted⟩ := @remove_accounts { program := readStatus } (removeAt 1) .identity
    consistent_readStatus calleesExist rfl
  have htogether : ∀ pair ∈ requestedPairs (.ofProgram .identity readStatus) (removeAt 1),
      pair.RemovedTogether { program := readStatus } := by
    decide +kernel
  exact ⟨modified, after, recorded, hrun, htransformations, hnodup, hfound, hrecorded, hsides,
    hmodified, haccounted htogether⟩

/-- The lock of the first pair stays, as its result is read, but the unlock is removed, and the
journal of the run does not say so. -/
theorem unlock_removed_alone :
    readStatus.Consistent ∧ (removeAt 0).check = .ok () ∧
    ∃ modified after, run (removeAt 0) .identity { program := readStatus } = .ok modified after ∧
      modified = true ∧ readStatus.isLive ⟨2, 0⟩ = true ∧ after.program.isLive ⟨2, 0⟩ = false ∧
      after.ledger.journal.transformations = [] := by
  have hruns : Runs (run (removeAt 0) .identity) { program := readStatus }
      (fun modified after => modified = true ∧ readStatus.isLive ⟨2, 0⟩ = true ∧
        after.program.isLive ⟨2, 0⟩ = false ∧ after.ledger.journal.transformations = [])
      fun _ _ => False := by
    decide +kernel
  exact ⟨consistent_readStatus, rfl, hruns.exists_ok⟩

end LockOperator

end ConcurrencyFaults

import ConcurrencyFaults.Proofs.Locking.Accounting
import Mathlib.Data.List.Dedup

/-!
# Removing primitives that return a status

Readers of the status that a POSIX primitive returns can take a constant instead, so in a run that
starts afresh nothing keeps such a call from being removed.  What a removal does is then settled by
what was asked for, whatever the order of the requests, however often they repeat each other or
share calls, and however many of them name no pair: the program loses exactly the calls of the
requested pairs (`Program.Loses`), each requested pair is recorded once, and besides what the index
notes there is one warning for each request that names no pair or shares a call with an earlier one.

## Strategy

`exists_remove` says what a removal does in terms of a list of removed handles, in the order of the
run.  Every listed call can be removed (`removable_of_posix`), so the handles are those of the
requested calls (`mem_removed_iff`).  In a terminated program the order does not matter, since at
most one removed instruction ends a block, and it comes last (`Cleared.loses`).
-/

namespace ConcurrencyFaults

namespace Program

/-- The program after a set of its instructions was taken out, each once. -/
structure Loses (before after : Program) (gone : List Handle) : Prop where
  consistent : after.Consistent
  name_eq : after.name = before.name
  outline_eq : after.outline = before.outline
  /-- The instructions were there and are not any more, and nothing else is at their handles. -/
  erased : ∀ handle ∈ gone, before.Erases after handle
  /-- Each emptied slot has moved on by one generation. -/
  generation : ∀ handle ∈ gone, (after.occupancy handle.slot).map Prod.fst =
    some ((handle.generation + 1) % Slot.generationLimit)
  /-- All others stay.  Their operands change only where they named an erased result of their
  function, and then to a zero status. -/
  placed? : ∀ {handle entry}, before.placed? handle = some entry → handle ∉ gone →
    after.placed? handle = some (entry.mapOperands (before.clearing gone entry.function))
  /-- Blocks list what stays in the old order, and then a branch to the normal continuation if an
  invoke that was taken out ended them. -/
  block? : ∀ {function index block}, before.block? function index = some block →
    ∃ tail, after.block? function index =
        some { block with handles := block.handles.filter (· ∉ gone) ++ tail } ∧
      tail.map after.placed? = (before.exitBranch? gone block).toList.map some ∧
      ∀ new ∈ tail, before.placed? new = none

variable {before after : Program} {gone removed : List Handle}

theorem clearing_congr (hsame : ∀ handle, handle ∈ removed ↔ handle ∈ gone)
    (function : FunctionId) :
    before.clearing removed function = before.clearing gone function := by
  funext operand
  unfold clearing
  split
  · simp only [hsame]
  · rfl

theorem exitBranch?_congr (hsame : ∀ handle, handle ∈ removed ↔ handle ∈ gone) (block : Block) :
    before.exitBranch? removed block = before.exitBranch? gone block := by
  have hkeep : (fun handle => decide (handle ∈ removed)) = fun handle => decide (handle ∈ gone) :=
    funext fun handle => decide_eq_decide.mpr (hsame handle)
  rw [exitBranch?, hkeep, exitBranch?]

/-- In a terminated program it does not matter in which order the instructions are taken out. -/
theorem Cleared.loses (hcleared : before.Cleared after removed) (consistent : before.Consistent)
    (terminated : before.Terminated) (hnodup : removed.Nodup)
    (hsame : ∀ handle, handle ∈ removed ↔ handle ∈ gone) : before.Loses after gone where
  consistent := hcleared.consistent
  name_eq := hcleared.name_eq
  outline_eq := hcleared.outline_eq
  erased handle hmem := hcleared.erases_iff.mpr ((hsame handle).mpr hmem)
  generation handle hmem := hcleared.generation handle ((hsame handle).mpr hmem)
  placed? := by
    intro handle entry hplaced hstays
    rw [← clearing_congr hsame]
    exact hcleared.placed? hplaced fun hmem => hstays ((hsame handle).mp hmem)
  block? := by
    intro function index block hblock
    obtain ⟨tail, hlisted, htail, hfresh⟩ := hcleared.block? hblock
    have hkept : block.handles.filter (· ∉ removed) = block.handles.filter (· ∉ gone) :=
      List.filter_congr fun handle _ => by simp [hsame handle]
    rw [terminated.filterMap_branchOf? consistent hnodup hblock, exitBranch?_congr hsame] at htail
    exact ⟨tail, hkept ▸ hlisted, htail, hfresh⟩

end Program

/-- Where a kind of entry records changes, its entries are found among the transformations. -/
theorem Journal.count_eq_countP_transformations {kind : EntryKind}
    (hkind : kind.isTransformation = true) (journal : Journal) :
    journal.count kind = journal.transformations.countP (·.kind == kind) := by
  rw [count, transformations, List.countP_filter]
  refine List.countP_congr fun entry _ => ?_
  simp only [beq_iff_eq, Bool.and_eq_true]
  constructor
  · rintro rfl
    exact ⟨rfl, hkind⟩
  · exact And.left

namespace LockOperator

variable {program : Program} {plan : LockPlan} {oracle : AliasOracle}

/-- The handles of the calls that a plan names. -/
def requestedHandles (plan : LockPlan) (oracle : AliasOracle) (program : Program) : List Handle :=
  (requested plan oracle program).map CallSite.handle

theorem mem_requestedHandles {handle : Handle} : handle ∈ requestedHandles plan oracle program ↔
    ∃ pair ∈ requestedPairs (.ofProgram oracle program) plan, pair.HasSide handle := by
  simp only [requestedHandles, requested, List.mem_map, mem_sidesOf_iff]
  constructor
  · rintro ⟨site, ⟨pair, hpair, rfl | rfl⟩, rfl⟩
    · exact ⟨pair, hpair, Or.inl rfl⟩
    · exact ⟨pair, hpair, Or.inr rfl⟩
  · rintro ⟨pair, hpair, rfl | rfl⟩
    · exact ⟨pair.lock, ⟨pair, hpair, Or.inl rfl⟩, rfl⟩
    · exact ⟨pair.unlock, ⟨pair, hpair, Or.inr rfl⟩, rfl⟩

namespace RemovesListed

variable {after : Workspace} {removals : RemovalList} {removed : List Handle}
  {warnings : List Entry}
  (removes : RemovesListed plan oracle { program } removals removed warnings after)
  (hposix : ∀ pair ∈ requestedPairs (.ofProgram oracle program) plan, pair.family = .posix)
include removes hposix

/-- Nothing keeps a listed call from being removed: it is not marked, and returns a status. -/
theorem removable_of_posix : ∀ listed ∈ removals.sites,
    Removable { program } listed.1 listed.2 := by
  intro listed hmem
  obtain ⟨pair, hpair, hside⟩ := removes.covers.mem_sites listed hmem
  have hfamily : listed.2 = .posix := by
    rcases hside with rfl | rfl
    · exact hposix pair hpair
    · exact hposix pair hpair
  refine ⟨rfl, Or.inl ?_⟩
  rw [hfamily]
  rfl

variable (consistent : program.Consistent) (calleesExist : program.CalleesExist)
include consistent calleesExist

theorem mem_removed_iff (handle : Handle) :
    handle ∈ removed ↔ handle ∈ requestedHandles plan oracle program := by
  rw [mem_requestedHandles]
  constructor
  · exact removes.exists_side
  · intro hrequested
    obtain ⟨pair, hpair, hside⟩ := hrequested
    have hlisted : ∀ site, site = pair.lock ∨ site = pair.unlock → site.handle ∈ removed := by
      intro site hwhich
      have hmem := removes.mem_sites_of_side consistent calleesExist hpair hwhich
      exact removes.removable _ hmem
        (removes.removable_of_posix hposix _ hmem)
    rcases hside with rfl | rfl
    · exact hlisted pair.lock (Or.inl rfl)
    · exact hlisted pair.unlock (Or.inr rfl)

theorem mem_recorded_of_posix (pair : LockPair) :
    pair ∈ (recordedRequests removals.pairs removed).map Prod.snd ↔
      pair ∈ requestedPairs (.ofProgram oracle program) plan := by
  have hrecorded :=
    @RemovesListed.mem_recorded_iff _ _ _ _ _ _ _ removes consistent calleesExist pair
  constructor
  · intro hmem
    obtain ⟨⟨address, found⟩, hfound, rfl⟩ := List.mem_map.mp hmem
    exact (hrecorded.mp ⟨address, hfound⟩).1
  · intro hpair
    have hboth : pair.lock.handle ∈ removed ∧ pair.unlock.handle ∈ removed := by
      simp only [removes.mem_removed_iff hposix consistent calleesExist, mem_requestedHandles]
      exact ⟨⟨pair, hpair, Or.inl rfl⟩, pair, hpair, Or.inr rfl⟩
    obtain ⟨address, hfound⟩ := hrecorded.mpr ⟨hpair, hboth⟩
    exact List.mem_map.mpr ⟨_, hfound, rfl⟩

/-- There are as many entries as requested pairs, each counted once. -/
theorem count_pairRemoved_of_posix : after.ledger.journal.count .pairRemoved =
    (requestedPairs (.ofProgram oracle program) plan).dedup.length := by
  have hnodup : ((recordedRequests removals.pairs removed).map Prod.snd).Nodup :=
    removes.covers.pairs_nodup.sublist (List.filter_sublist.map _)
  have hmem : ∀ pair, pair ∈ (recordedRequests removals.pairs removed).map Prod.snd ↔
      pair ∈ (requestedPairs (.ofProgram oracle program) plan).dedup := by
    intro pair
    rw [List.mem_dedup]
    exact removes.mem_recorded_of_posix hposix consistent calleesExist pair
  -- two lists without repetitions and with the same members have one length
  have hperm := (List.perm_ext_iff_of_nodup hnodup (List.nodup_dedup _)).mpr hmem
  have hkind : ∀ entry ∈ (recordedRequests removals.pairs removed).map fun requested =>
      removedEntry requested.1, (entry.kind == EntryKind.pairRemoved) = true := by
    intro entry hmem
    obtain ⟨requested, -, rfl⟩ := List.mem_map.mp hmem
    rfl
  have hfresh : Journal.empty.transformations = [] := rfl
  have htransformations := removes.transformations_eq
  rw [show ({ program } : Workspace).ledger.journal = .empty from rfl, hfresh,
    List.nil_append] at htransformations
  calc after.ledger.journal.count .pairRemoved
    _ = after.ledger.journal.transformations.countP (·.kind == .pairRemoved) :=
      Journal.count_eq_countP_transformations rfl _
    _ = (recordedRequests removals.pairs removed).length := by
      rw [htransformations, List.countP_eq_length.mpr hkind, List.length_map]
    _ = ((recordedRequests removals.pairs removed).map Prod.snd).length := (List.length_map _).symm
    _ = (requestedPairs (.ofProgram oracle program) plan).dedup.length := hperm.length_eq

end RemovesListed

/-- What a removal does that asks for POSIX pairs alone and starts afresh. -/
theorem remove_posix (consistent : program.Consistent) (terminated : program.Terminated)
    (calleesExist : program.CalleesExist) (hmode : plan.mode = some .remove)
    (hposix : ∀ pair ∈ requestedPairs (.ofProgram oracle program) plan, pair.family = .posix) :
    ∃ modified after built, ∃ recorded : List (PairAddress × LockPair),
      run plan oracle { program } = .ok modified after ∧
      (modified = true ↔ requestedHandles plan oracle program ≠ []) ∧
      program.Loses after.program (requestedHandles plan oracle program) ∧
      PairIndex.build oracle { program } = .ok (.ofProgram oracle program) built ∧
      after.ledger.journal = built.ledger.journal.extend
        (requestWarnings (.ofProgram oracle program) plan.addressing []
            (PairAddress.listOf plan.positions) ++
          recorded.map fun requested => removedEntry requested.1) ∧
      (∀ requested ∈ recorded, requested.1 ∈ PairAddress.listOf plan.positions ∧
        find? (.ofProgram oracle program) plan.addressing requested.1 = some requested.2) ∧
      (∀ pair, pair ∈ recorded.map Prod.snd ↔
        pair ∈ requestedPairs (.ofProgram oracle program) plan) ∧
      after.ledger.journal.count .pairRemoved =
        (requestedPairs (.ofProgram oracle program) plan).dedup.length := by
  obtain ⟨removals, removed, warnings, after, hrun, removes⟩ :=
    @exists_remove { program } plan oracle consistent calleesExist hmode
  have hbuild := @PairIndex.build_apply { program } consistent calleesExist oracle
  have hsame := removes.mem_removed_iff hposix consistent calleesExist
  have hnodup : removed.Nodup := removes.covers.sites_nodup.sublist removes.sublist
  have hquiet := removes.quiet (removes.removable_of_posix hposix)
  have hmodified : (!removed.isEmpty) = true ↔ requestedHandles plan oracle program ≠ [] := by
    have hempty : removed = [] ↔ requestedHandles plan oracle program = [] := by
      simp only [List.eq_nil_iff_forall_not_mem, hsame]
    rw [ne_eq, ← hempty]
    cases removed <;> simp
  refine ⟨_, after, _, recordedRequests removals.pairs removed, hrun, hmodified,
    removes.removing.cleared.loses consistent terminated hnodup hsame, hbuild, ?_, ?_, ?_, ?_⟩
  · rw [removes.removing.journal, hquiet]
    simp [Journal.extend]
  · exact fun requested hmem => removes.covers.mem_pairs _ (List.mem_of_mem_filter hmem)
  · exact removes.mem_recorded_of_posix hposix consistent calleesExist
  · exact removes.count_pairRemoved_of_posix hposix consistent calleesExist

/-- A lock that may unwind and two unlocks on its normal path, the first of which reads its status.
It is not to be unfolded, lest runs on it are evaluated in passing. -/
@[irreducible] def lockedTwice : Program :=
  Command.run [.declare "pthread_mutex_lock" .status, .declare "pthread_mutex_unlock" .status,
    .addFunction "main" .void [], .addBlock 2 "entry", .addBlock 2 "held", .addBlock 2 "failed",
    .push 2 0 (.ofOperation (.invoke (.direct 0) [.global "mutex"] .status 1 2)),
    .push 2 1 (.ofOperation (.other "work" [.result ⟨0, 0⟩] .void)),
    .push 2 1 (.ofOperation (.call (.direct 1) [.global "mutex", .result ⟨0, 0⟩] .status)),
    .push 2 1 (.ofOperation (.call (.direct 1) [.global "mutex"] .status)),
    .push 2 1 (.ofOperation (.ret none)), .push 2 2 (.ofOperation .unreachable)]
    { name := "locked" }

theorem consistent_lockedTwice : lockedTwice.Consistent := by
  unfold lockedTwice
  exact Command.consistent_run (Command.consistent_empty "locked") _

/-- Two pairs that share their lock, one of them twice, and a position that is out of bounds. -/
def removeRepeatedly : LockPlan :=
  { mode := some .remove, positions := [2, 0, 2, 1, 2, 0, 0, 7] }

theorem remove_posix_lockedTwice :
    ∃ modified after built, ∃ recorded : List (PairAddress × LockPair),
      run removeRepeatedly .identity { program := lockedTwice } = .ok modified after ∧
      (modified = true ↔ requestedHandles removeRepeatedly .identity lockedTwice ≠ []) ∧
      lockedTwice.Loses after.program (requestedHandles removeRepeatedly .identity lockedTwice) ∧
      PairIndex.build .identity { program := lockedTwice } =
        .ok (.ofProgram .identity lockedTwice) built ∧
      after.ledger.journal = built.ledger.journal.extend
        (requestWarnings (.ofProgram .identity lockedTwice) .category []
            (PairAddress.listOf removeRepeatedly.positions) ++
          recorded.map fun requested => removedEntry requested.1) ∧
      (∀ requested ∈ recorded, requested.1 ∈ PairAddress.listOf removeRepeatedly.positions ∧
        find? (.ofProgram .identity lockedTwice) .category requested.1 = some requested.2) ∧
      (∀ pair, pair ∈ recorded.map Prod.snd ↔
        pair ∈ requestedPairs (.ofProgram .identity lockedTwice) removeRepeatedly) ∧
      after.ledger.journal.count .pairRemoved =
        (requestedPairs (.ofProgram .identity lockedTwice) removeRepeatedly).dedup.length := by
  have calleesExist := consistent_lockedTwice.calleesExist_iff.mpr (by decide +kernel)
  exact @remove_posix lockedTwice removeRepeatedly .identity consistent_lockedTwice
    (by decide +kernel) calleesExist rfl (by decide +kernel)

/-- Three calls go, two pairs are recorded, and all requests but the first leave a warning. -/
example : (requestedHandles removeRepeatedly .identity lockedTwice).dedup.length = 3 ∧
    (requestedPairs (.ofProgram .identity lockedTwice) removeRepeatedly).dedup.length = 2 ∧
    (requestWarnings (.ofProgram .identity lockedTwice) .category []
      (PairAddress.listOf removeRepeatedly.positions)).length = 3 := by
  decide +kernel

end LockOperator

end ConcurrencyFaults

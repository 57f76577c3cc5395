import ConcurrencyFaults.Proofs.Closed.Locks
import ConcurrencyFaults.Proofs.SharedLedger
import ConcurrencyFaults.Proofs.Successors

/-!
# Requests that replace calls

A request is about one call, or about the two or four calls of its pairs, and nothing else goes; no
slot is emptied more often than four times on the way.  So whatever the number of requests, a call
that is gone is seen to be gone after the request that replaced it, though its handle may be given
out again much later.

`Turnover.conforms_of_isChain` goes through the stages of a run from the first to the last.  What
conformed to the program at the start does so at every stage, with a list of lost calls that grows.
The second half of the file shows for the requests of each operator that they are turnovers; that
what they put in is of the right type is taken from `Successors`.
-/

namespace ConcurrencyFaults

open Program Work

/-- Some of the calls have given way to successors. -/
def Turnover (calls : Handle → Prop) (before after : Workspace) : Prop :=
  ∃ handles, (∀ handle ∈ handles, calls handle) ∧
    before.program.Supersedes after.program handles 4

variable {calls : Handle → Prop} {start : Program} {sites : List CallSite}
  {workspace before between after : Workspace} {handles : List Handle} {count : Nat}

namespace Turnover

theorem of_supersedes (hsupersedes : before.program.Supersedes after.program handles count)
    (hcount : count ≤ 4) (hcalls : ∀ handle ∈ handles, calls handle) :
    Turnover calls before after :=
  ⟨handles, hcalls, hsupersedes.mono (List.Subset.refl handles) hcount⟩

theorem of_program_eq (consistent : before.program.Consistent)
    (hsame : after.program = before.program) : Turnover calls before after := by
  refine ⟨[], by simp, ?_⟩
  rw [hsame]
  exact .refl consistent [] 4

theorem of_noted (consistent : before.program.Consistent) (hnoted : Noted before after) :
    Turnover calls before after :=
  of_program_eq consistent hnoted.program_eq

theorem trans_noted (hnoted : Noted before between) (hturnover : Turnover calls between after) :
    Turnover calls before after := by
  rwa [Turnover, ← hnoted.program_eq]

variable {rest : List Workspace} {last : Workspace} {gone : List Handle}

/-- Whatever conformed to the program at the start does so in the end of a chain.  What was lost on
the way is seen to be gone at some stage. -/
theorem conforms_of_isChain (hchain : (before :: rest).IsChain (Turnover calls))
    (hlast : (before :: rest).getLast? = some last)
    (hconforms : Conforms start before.program gone) :
    ∃ lost, (∀ handle ∈ lost, calls handle ∧
      ∃ stage ∈ rest, stage.program.placed? handle = none) ∧
        Conforms start last.program (gone ++ lost) := by
  induction rest generalizing before gone with
  | nil =>
      obtain rfl := Option.some.inj hlast
      exact ⟨[], by simp, by simpa using hconforms⟩
  | cons next rest ih =>
      obtain ⟨⟨handles, hcalls, hsupersedes⟩, hrest⟩ := List.isChain_cons_cons.mp hchain
      obtain ⟨lost, hlost, houtgrown, hnext⟩ := hsupersedes.conforms hconforms
      rw [List.getLast?_cons_cons] at hlast
      obtain ⟨later, hlater, hfinal⟩ := ih hrest hlast hnext
      -- lost in this step, or in one of those that follow
      refine ⟨lost ++ later, fun handle hmem => ?_, by rwa [← List.append_assoc]⟩
      rcases List.mem_append.mp hmem with hmem | hmem
      · exact ⟨hcalls handle (hlost hmem), next, List.mem_cons_self ..,
          (houtgrown handle hmem).placed?_eq_none (by decide)⟩
      · obtain ⟨hcall, stage, hstage, hnone⟩ := hlater handle hmem
        exact ⟨hcall, stage, List.mem_cons_of_mem next hstage, hnone⟩

/-- A chain empties no slot more than four times for each of its links. -/
theorem supersedes_of_isChain (consistent : before.program.Consistent)
    (hchain : (before :: rest).IsChain (Turnover calls))
    (hlast : (before :: rest).getLast? = some last) :
    ∃ handles, before.program.Supersedes last.program handles (4 * rest.length) := by
  induction rest generalizing before with
  | nil =>
      obtain rfl := Option.some.inj hlast
      exact ⟨[], .refl consistent [] _⟩
  | cons next rest ih =>
      obtain ⟨⟨handles, -, hsupersedes⟩, hrest⟩ := List.isChain_cons_cons.mp hchain
      rw [List.getLast?_cons_cons] at hlast
      obtain ⟨later, hlater⟩ := ih hsupersedes.consistent hrest hlast
      refine ⟨handles ++ later, (hsupersedes.trans hlater).mono (List.Subset.refl _) ?_⟩
      rw [List.length_cons, Nat.mul_succ, Nat.add_comm]

end Turnover

/-! ## Requests for found calls

A request claims its number, makes sure that the call is untouched, and only then does anything.
-/

section Calls

variable {found : FoundCalls} {pass : String} {handle : Nat → CallSite → Work Bool}

theorem turnover_callRequest (hcalls : ∀ site ∈ found.sites, calls site.handle)
    (hstep : ∀ request site (state : Workspace), site ∈ found.sites → state.program.Consistent →
      site.Intact state.program → Runs (handle request site) state
        (fun _ after => state.program.Supersedes after.program [site.handle] 1) fun _ _ => True)
    (tracked : Tracked start found.sites workspace) (request : Nat × Nat) :
    Runs (callRequest pass found handle request) workspace (fun _ => Turnover calls workspace)
      fun _ _ => True := by
  refine (runs_claimCall pass found request.1).bind ?_
  rintro (_ | site) between ⟨hbetween, hsite⟩
  · exact runs_pure (.of_noted tracked.consistent hbetween)
  · have hmem := FoundCalls.mem_of_get? (hsite site rfl)
    refine ((runs_isUntouched_noted pass site).and
      (runs_isUntouched (tracked.of_noted hbetween) hmem)).bind ?_
    rintro (_ | _) state ⟨hstate, still, -, hintact⟩
    -- a call that was edited before is passed over
    · exact runs_pure (.of_noted tracked.consistent (hbetween.trans hstate))
    · refine (hstep request.2 site state hmem still.consistent (hintact rfl)).weaken ?_
      intro _ after hafter
      exact .trans_noted (hbetween.trans hstate)
        (.of_supersedes hafter (by decide) (by simpa using hcalls site hmem))

end Calls

/-! ## Requests for lock pairs

Between the halves of a request the other calls of its pairs have to be intact still.  They are,
since each half is about its own calls only.
-/

namespace LockOperator

variable {search : CallSearch} {program : Program} {index : PairIndex}
  {first second pair : LockPair}

/-- The locks of two pairs of one family return the same, and so do the unlocks. -/
theorem results_eq_of_family (hfirst : first.Matched sites) (hsecond : second.Matched sites)
    (hreturns : ∀ site ∈ sites, site.result = primitiveResult site.name)
    (hfamily : first.family = second.family) :
    second.lock.result = first.lock.result ∧ second.unlock.result = first.unlock.result := by
  have hlock := hsecond.lock_role
  have hunlock := hsecond.unlock_role
  rw [← hfamily] at hlock hunlock
  exact ⟨result_eq_of_role hfirst.lock_role hlock (hreturns _ hfirst.lock_mem)
      (hreturns _ hsecond.lock_mem),
    result_eq_of_role hfirst.unlock_role hunlock (hreturns _ hfirst.unlock_mem)
      (hreturns _ hsecond.unlock_mem)⟩

section Requests

variable (hcalls : ∀ site ∈ sites, calls site.handle)
  (hreturns : ∀ site ∈ sites, site.result = primitiveResult site.name)
include hcalls hreturns

theorem turnover_removeSite (tracked : Tracked start sites workspace) {site : CallSite}
    (hmem : site ∈ sites) (family : LockFamily) :
    Runs (removeSite site family) workspace (fun _ => Turnover calls workspace)
      fun _ _ => True := by
  have hstatus := hreturns site hmem ▸ primitiveResult_eq site.name
  exact (runs_removeSite_supersedes tracked hmem hstatus family).weaken fun _ _ hafter =>
    .of_supersedes hafter (by decide) (by simpa using hcalls site hmem)

/-- First the locks are exchanged and then the unlocks, which are other calls. -/
theorem turnover_swapHalves (consistent : workspace.program.Consistent)
    (hfinds : ∀ site ∈ sites, search.Finds program site) (hfirst : first.Matched sites)
    (hsecond : second.Matched sites) (hnone : swapObstacle? first second = none)
    (hfirstIntact : first.lock.Intact workspace.program ∧ first.unlock.Intact workspace.program)
    (hsecondIntact : second.lock.Intact workspace.program ∧
      second.unlock.Intact workspace.program) :
    Runs (do
      swapSites first.lock second.lock
      swapSites first.unlock second.unlock
      return true) workspace (fun _ => Turnover calls workspace) fun _ _ => True := by
  obtain ⟨hlocks, hunlocks⟩ := handles_ne_of_swapObstacle? hnone
  obtain ⟨hlockResult, hunlockResult⟩ :=
    results_eq_of_family hfirst hsecond hreturns (family_eq_of_swapObstacle? hnone)
  refine (runs_swapSites_supersedes consistent hfirstIntact.1 hsecondIntact.1 hlocks
    hlockResult).bind fun _ swapped hswapped => ?_
  have hfirstStill := hfirstIntact.2.kept hswapped.toKept (by
    simpa using ⟨hfirst.handle_ne, hfirst.unlock_ne_lock hsecond hfinds⟩)
  have hsecondStill := hsecondIntact.2.kept hswapped.toKept (by
    simpa using ⟨hsecond.unlock_ne_lock hfirst hfinds, hsecond.handle_ne⟩)
  refine (runs_swapSites_supersedes hswapped.consistent hfirstStill hsecondStill hunlocks
    hunlockResult).bind fun _ after hafter => runs_pure ?_
  refine .of_supersedes (hswapped.trans hafter) (Nat.le_refl 4) ?_
  simpa using ⟨hcalls _ hfirst.lock_mem, hcalls _ hsecond.lock_mem, hcalls _ hfirst.unlock_mem,
    hcalls _ hsecond.unlock_mem⟩

theorem turnover_swapPairs (hfinds : ∀ site ∈ sites, search.Finds program site)
    (tracked : Tracked start sites workspace) (hfirst : first.Matched sites)
    (hsecond : second.Matched sites) :
    Runs (swapPairs first second) workspace (fun _ => Turnover calls workspace)
      fun _ _ => True := by
  have consistent := tracked.consistent
  unfold swapPairs
  split
  · exact runs_bind_warn (runs_pure (.of_noted consistent ⟨rfl, fun _ h => h⟩))
  · rename_i hnone
    refine (runs_isPairUntouched_intact tracked hfirst).bind ?_
    rintro (_ | _) between ⟨hbetween, hfirstIntact⟩
    · exact runs_pure (.of_noted consistent hbetween)
    · refine (runs_isPairUntouched_intact (tracked.of_noted hbetween) hsecond).bind ?_
      rintro (_ | _) state ⟨hstate, hsecondIntact⟩
      · exact runs_pure (.of_noted consistent (hbetween.trans hstate))
      · have hnoted := hbetween.trans hstate
        have hfirstIntact := hfirstIntact rfl
        rw [← hstate.program_eq] at hfirstIntact
        exact (turnover_swapHalves hcalls hreturns (hnoted.holds consistent) hfinds hfirst hsecond
          hnone hfirstIntact (hsecondIntact rfl)).weaken fun _ _ => .trans_noted hnoted

theorem turnover_swapRequest (hfinds : ∀ site ∈ sites, search.Finds program site)
    (tracked : Tracked start sites workspace) (hindex : ∀ pair ∈ index.pairs, pair.Matched sites)
    (plan : LockPlan) (request : PairAddress × PairAddress) :
    Runs (swapRequest index plan request) workspace (fun _ => Turnover calls workspace)
      fun _ _ => True := by
  obtain ⟨firstAddress, secondAddress⟩ := request
  refine (runs_resolve_find plan.addressing firstAddress).bind ?_
  rintro (_ | first) between ⟨hbetween, hfirst⟩
  · exact runs_pure (.of_noted tracked.consistent hbetween)
  · refine (runs_resolve_find plan.addressing secondAddress).bind ?_
    rintro (_ | second) state ⟨hstate, hsecond⟩
    · exact runs_pure (.of_noted tracked.consistent (hbetween.trans hstate))
    · have hnoted := hbetween.trans hstate
      exact (turnover_swapPairs hcalls hreturns hfinds (tracked.of_noted hnoted)
        (hindex first (mem_of_find? hfirst.symm))
        (hindex second (mem_of_find? hsecond.symm))).weaken fun _ _ => .trans_noted hnoted

/-- The lock is moved first, which leaves the unlock as it is. -/
theorem turnover_shiftSides (consistent : workspace.program.Consistent) (hpair : pair.Matched sites)
    (hlock : pair.lock.Intact workspace.program) (hunlock : pair.unlock.Intact workspace.program)
    (address : PairAddress) (lockDirection unlockDirection : Option Int) :
    Runs (do
      let lockMoved ← shiftSide address .lock pair.lock pair.family lockDirection
      let unlockMoved ← shiftSide address .unlock pair.unlock pair.family unlockDirection
      return lockMoved || unlockMoved) workspace (fun _ => Turnover calls workspace)
      fun _ _ => True := by
  have hlockStatus := hreturns _ hpair.lock_mem ▸ primitiveResult_eq pair.lock.name
  have hunlockStatus := hreturns _ hpair.unlock_mem ▸ primitiveResult_eq pair.unlock.name
  refine (runs_shiftSide_supersedes consistent hlock hlockStatus address .lock pair.family
    lockDirection).bind fun lockMoved locked hlocked => ?_
  have hstill := hunlock.kept hlocked.toKept (by simpa using hpair.handle_ne)
  refine (runs_shiftSide_supersedes hlocked.consistent hstill hunlockStatus address .unlock
    pair.family unlockDirection).bind fun unlockMoved after hafter => runs_pure ?_
  refine .of_supersedes (hlocked.trans hafter) (Nat.le_refl 4) ?_
  simpa using ⟨hcalls _ hpair.lock_mem, hcalls _ hpair.unlock_mem⟩

theorem turnover_shiftRequest (tracked : Tracked start sites workspace)
    (hindex : ∀ pair ∈ index.pairs, pair.Matched sites) (plan : LockPlan)
    (request : PairAddress × Nat) :
    Runs (shiftRequest index plan request) workspace (fun _ => Turnover calls workspace)
      fun _ _ => True := by
  obtain ⟨address, number⟩ := request
  refine (runs_resolve_find plan.addressing address).bind ?_
  rintro (_ | pair) between ⟨hbetween, hfound⟩
  · exact runs_pure (.of_noted tracked.consistent hbetween)
  · have hpair := hindex pair (mem_of_find? hfound.symm)
    refine (runs_isPairUntouched_intact (tracked.of_noted hbetween) hpair).bind ?_
    rintro (_ | _) state ⟨hstate, hintact⟩
    · exact runs_pure (.of_noted tracked.consistent (hbetween.trans hstate))
    · have hnoted := hbetween.trans hstate
      obtain ⟨hlock, hunlock⟩ := hintact rfl
      exact (turnover_shiftSides hcalls hreturns (hnoted.holds tracked.consistent) hpair hlock
        hunlock address _ _).weaken fun _ _ => .trans_noted hnoted

end Requests

end LockOperator

end ConcurrencyFaults

import ConcurrencyFaults.Proofs.Arena.Staleness
import ConcurrencyFaults.Proofs.Locking.SwapTwice

/-!
# The exact effect of a swap

One request of a swap exchanges the four calls of two pairs.  Nothing else is asked of the pairs
than that they have no call in common, belong to one family and do not read each other: they may be
on one mutex or on several, in one function or in two, and the oracle that found them may be any.

`Exchanged` says what the program is like afterwards, call by call.  Each place keeps the form and
the location of its call and receives all else from its partner; the name of a result is lost.  The
four old handles are given up and four new ones given out, and every reader of an old one reads the
new one of the same place.

## Strategy

The run is known to end in a program that is the old one with four replaced instructions, up to new
names (`run_exchange`, `Renewing`).  `Exchangeable.exchanged` reads the fields of `Exchanged` off
that renewal, and `exchangeable_of_closed` brings the conditions on the pairs into the form that
`run_exchange` asks for: that readers of a call are in its function follows from closedness.
-/

namespace ConcurrencyFaults

open Program

namespace LockOperator

variable {program after : Program} {first second : LockPair} {names : Handle → Handle}

/-- The program after the calls of two pairs changed places and received new handles. -/
structure Exchanged (program after : Program) (first second : LockPair) (names : Handle → Handle) :
    Prop where
  consistent : after.Consistent
  name_eq : after.name = program.name
  /-- Functions and blocks are what they were but for the lists of the blocks. -/
  outline_eq : after.outline = program.outline
  /-- Blocks list the new handles where they listed the old ones. -/
  block? : ∀ {function index block}, program.block? function index = some block →
    after.block? function index = some { block with handles := block.handles.map names }
  /-- All but the four calls keep their handles. -/
  fixed : ∀ handle, handle ∉ (sidesOf [first, second]).map CallSite.handle → names handle = handle
  /-- The new handles are four that named nothing before. -/
  fresh : ∀ site ∈ sidesOf [first, second], program.placed? (names site.handle) = none
  injective : ∀ site ∈ sidesOf [first, second], ∀ other ∈ sidesOf [first, second],
    names site.handle = names other.handle → site = other
  /-- The old ones name nothing any more. -/
  stale : ∀ site ∈ sidesOf [first, second], after.Stale site.handle
  /-- Each place keeps its form and its location and receives the rest from its partner. -/
  exchanged : ∀ listed ∈ partners first second,
    after.placed? (names listed.1.handle) = some
      { instruction := {
          operation := listed.1.form.operation (.direct listed.2.target) listed.2.arguments
            listed.2.result
          name := none
          attributes := listed.2.attributes
          location := listed.1.location }
        function := listed.1.function
        block := listed.1.block }
  /-- Every other instruction is what it was and reads the new results in place of the old. -/
  others : ∀ {handle entry}, program.placed? handle = some entry →
    handle ∉ (sidesOf [first, second]).map CallSite.handle →
      after.placed? handle = some { entry with instruction := entry.instruction.rename names }

namespace Exchangeable

variable {oracle : AliasOracle} (exchangeable : Exchangeable oracle program first second)
include exchangeable

/-- What was replaced has changed places. -/
theorem exchanged (renewing : Renewing program (exchanges first second) names after)
    (consistent : program.Consistent) : Exchanged program after first second names := by
  have hrelocation := renewing.relocation
  have hreplaceable := exchangeable.replaceable
  -- each of the four calls is captured, and one of the changes is about it
  have hside : ∀ site ∈ sidesOf [first, second],
      CallSite.capture program site.handle true = .ok (some site) ∧
        ∃ change ∈ exchanges first second, change.1 = site.handle := by
    intro site hsite
    obtain ⟨listed, hlisted, rfl⟩ := exists_mem_partners_iff.mpr hsite
    exact ⟨(exchangeable.of_mem_partners hlisted).1, _, List.mem_map_of_mem hlisted, rfl⟩
  refine ⟨hrelocation.consistent, hrelocation.name_eq, hrelocation.outline_eq, hrelocation.block?,
    ?_, ?_, ?_, ?_, ?_, ?_⟩
  · intro handle hnot
    exact renewing.fixed handle fun hmem => hnot (mem_exchanges_iff.mp hmem)
  · intro site hsite
    obtain ⟨-, change, hchange, hhandle⟩ := hside site hsite
    rw [← hhandle]
    exact renewing.fresh change hchange
  · intro site hsite other hother hsame
    obtain ⟨hcapture, -⟩ := hside site hsite
    obtain ⟨hotherCapture, -⟩ := hside other hother
    obtain ⟨-, entry, hplaced, -⟩ := CallSite.placed_of_capture hcapture
    obtain ⟨-, found, hfound, -⟩ := CallSite.placed_of_capture hotherCapture
    exact CallSite.eq_of_capture hcapture hotherCapture
      (hrelocation.injective consistent hplaced hfound hsame)
  · intro site hsite
    obtain ⟨-, change, hchange, hhandle⟩ := hside site hsite
    rw [← hhandle]
    exact Stale.of_placed? (renewing.placed?_of_mem hchange)
  · intro listed hlisted
    have hchange : (listed.1.handle, inPlaceOf listed.1 listed.2) ∈ exchanges first second :=
      List.mem_map_of_mem hlisted
    obtain ⟨entry, target, hplaced, -, -, hcaptured⟩ :=
      CallSite.capture_eq_some_iff.mp (exchangeable.of_mem_partners hlisted).1
    have hfunction : listed.1.function = entry.function := congrArg CallSite.function hcaptured
    have hblock : listed.1.block = entry.block := congrArg CallSite.block hcaptured
    -- the new call reads what stays, and that keeps its name
    have hfixed : (inPlaceOf listed.1 listed.2).rename names = inPlaceOf listed.1 listed.2 := by
      refine Instruction.rename_eq_self fun used hreads => renewing.fixed used fun hmem => ?_
      obtain ⟨change, hother, rfl⟩ := List.mem_map.mp hmem
      exact hreplaceable.unread _ hchange change hother hreads
    rw [hrelocation.placed? hplaced, replaced_of_mem hreplaceable.nodup hchange, hfixed, hfunction,
      hblock]
    rfl
  · intro handle entry hplaced hnot
    have hkept : handle ∉ (exchanges first second).map Prod.fst := fun hmem =>
      hnot (mem_exchanges_iff.mp hmem)
    have hnow := hrelocation.placed? hplaced
    rwa [renewing.fixed handle hkept, replaced_of_not_mem hkept] at hnow

end Exchangeable

/-- Two pairs of a closed program can be exchanged if they belong to one family, have no call in
common and no call that reads one of the four. -/
theorem exchangeable_of_closed {oracle : AliasOracle} (closed : program.Closed)
    (hfirst : first.Matches oracle program) (hsecond : second.Matches oracle program)
    (hlocks : first.lock.handle ≠ second.lock.handle)
    (hunlocks : first.unlock.handle ≠ second.unlock.handle)
    (hfamily : second.family = first.family)
    (hcount : ∀ site ∈ sidesOf [first, second], site.argumentCount = 1)
    (hstays : ∀ site ∈ sidesOf [first, second], ∀ argument ∈ site.arguments,
      ∀ other ∈ sidesOf [first, second], argument ≠ .result other.handle) :
    Exchangeable oracle program first second where
  first_matches := hfirst
  second_matches := hsecond
  family_eq := hfamily
  locks_ne := hlocks
  unlocks_ne := hunlocks
  argumentCount_eq := fun listed hlisted =>
    hcount listed.1 (exists_mem_partners_iff.mp ⟨listed, hlisted, rfl⟩)
  stays := fun listed hlisted argument hargument other hother =>
    hstays listed.1 (exists_mem_partners_iff.mp ⟨listed, hlisted, rfl⟩) argument hargument other.1
      (exists_mem_partners_iff.mp ⟨other, hother, rfl⟩)
  local_readers := by
    intro listed hlisted reader found hfound hreads
    have hsite : CallSite.capture program listed.1.handle true = .ok (some listed.1) := by
      rcases mem_partners.mp hlisted with rfl | rfl | rfl | rfl
      · exact hfirst.lock_at
      · exact hsecond.lock_at
      · exact hfirst.unlock_at
      · exact hsecond.unlock_at
    exact CallSite.function_eq_of_reads closed hsite hfound hreads

/-- A swap of two pairs changes what the exchange of their calls says and nothing else. -/
theorem swap_exchanges {plan : LockPlan} {oracle : AliasOracle}
    {firstAddress secondAddress : PairAddress} (consistent : program.Consistent)
    (closed : program.Closed) (hmode : plan.mode = some .swap)
    (hpositions : plan.positions = [firstAddress.group, firstAddress.position,
      secondAddress.group, secondAddress.position])
    (hfirst : find? (.ofProgram oracle program) plan.addressing firstAddress = some first)
    (hsecond : find? (.ofProgram oracle program) plan.addressing secondAddress = some second)
    (hlocks : first.lock.handle ≠ second.lock.handle)
    (hunlocks : first.unlock.handle ≠ second.unlock.handle)
    (hfamily : second.family = first.family)
    (hcount : ∀ site ∈ sidesOf [first, second], site.argumentCount = 1)
    (hstays : ∀ site ∈ sidesOf [first, second], ∀ argument ∈ site.arguments,
      ∀ other ∈ sidesOf [first, second], argument ≠ .result other.handle) :
    ∃ after names, run plan oracle { program } = .ok true after ∧
      Exchanged program after.program first second names := by
  have calleesExist := PairIndex.calleesExist_of_mem_pairs consistent (mem_of_find? hfirst)
  have exchangeable := exchangeable_of_closed closed
    (matches_of_find? consistent calleesExist hfirst)
    (matches_of_find? consistent calleesExist hsecond) hlocks hunlocks hfamily hcount hstays
  obtain ⟨after, names, hrun, hrenewing⟩ :=
    run_exchange consistent hmode hpositions hfirst hsecond exchangeable
  exact ⟨after, names, hrun, exchangeable.exchanged hrenewing consistent⟩

/-- The outer lock, which may unwind, and the inner one, which has a reader, change places. -/
theorem swap_exchanges_heldNested :
    ∃ after names, run swapNested .identity { program := heldNested } = .ok true after ∧
      Exchanged heldNested after.program outerPair innerPair names :=
  @swap_exchanges heldNested outerPair innerPair swapNested .identity ⟨2, 0⟩ ⟨0, 0⟩
    consistent_heldNested (consistent_heldNested.closed_iff.mpr (by decide +kernel)) rfl rfl
    (by decide +kernel) (by decide +kernel) (by decide) (by decide) rfl (by decide) (by decide)

end LockOperator

end ConcurrencyFaults

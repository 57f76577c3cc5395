import ConcurrencyFaults.Proofs.Arena.Commands
import ConcurrencyFaults.Proofs.Pairing
import ConcurrencyFaults.Proofs.Search

/-!
# Which pairs are indexed, and in which order

Two calls of one function belong together if they are the lock and the unlock of one family and
their first arguments always alias (`LockPair.Matches`).  The index of a program holds exactly these
pairs, each once, sorted by function and within a function by the ranks of the lock and of the
unlock (`LockPair.Precedes`).  Its categories are parts of the whole list and keep the order, so the
position of a pair is determined by the pairs that precede it.

## Strategy

* Membership is followed through the three loops: over the calls that are compared with a lock
  (`compare?_eq_paired_iff`), over the locks of a function (`paired_mem_ofLock_iff`,
  `paired_mem_ofFunction_iff`), and over the functions (`mem_pairs_iff`).
* The order comes from the order of the found calls.  Each loop contributes one key of the
  lexicographic order (`pairwise_ofFunction`, `pairwise_pairs`).
* `Precedes` is irreflexive, so a sorted list has no repetitions (`nodup_of_pairwise`), and
  antisymmetric, so there is one sorted list of the same pairs (`eq_of_pairwise`).
-/

namespace ConcurrencyFaults

open Program

/-! ## Pairs that belong together

This says what a pair is without mentioning the loops that look for one. -/

/-- The key names a primitive exactly if it is the name of that primitive. -/
theorem LockFamily.classify?_eq_some_iff {key : String} {family : LockFamily} {role : LockRole} :
    classify? key = some (family, role) ↔ key = family.name role := by
  constructor
  · intro hclassify
    unfold classify? at hclassify
    have hname := List.find?_some hclassify
    exact (beq_iff_eq.mp hname).symm
  · rintro rfl
    cases family <;> cases role <;> decide

namespace LockPair

variable {pair : LockPair} {program : Program} {oracle : AliasOracle}

/-- Both sides have a first argument, and the oracle says that the two always alias. -/
def Aliased (pair : LockPair) (oracle : AliasOracle) : Prop :=
  ∃ mutex ∈ pair.lock.arguments.head?, ∃ other ∈ pair.unlock.arguments.head?,
    oracle mutex other = .must

/-- A lock and an unlock that belong together: direct calls that the program has in one function,
the two halves of one family, whose first arguments always alias. -/
structure Matches (pair : LockPair) (oracle : AliasOracle) (program : Program) : Prop where
  lock_at : CallSite.capture program pair.lock.handle true = .ok (some pair.lock)
  unlock_at : CallSite.capture program pair.unlock.handle true = .ok (some pair.unlock)
  function_eq : pair.unlock.function = pair.lock.function
  lock_name : pair.lock.name = pair.family.name .lock
  unlock_name : pair.unlock.name = pair.family.name .unlock
  aliased : pair.Aliased oracle

/-- Pairs are sorted by function, then by the rank of the lock, then by that of the unlock. -/
def Precedes (program : Program) (first second : LockPair) : Prop :=
  first.function < second.function ∨
    first.function = second.function ∧
      (first.lock.Precedes program second.lock ∨
        first.lock = second.lock ∧ first.unlock.Precedes program second.unlock)

theorem Precedes.irrefl : ¬ pair.Precedes program pair := by
  rintro (hlt | ⟨-, hbefore | ⟨-, hbefore⟩⟩)
  · exact Nat.lt_irrefl _ hlt
  · exact CallSite.Precedes.irrefl hbefore
  · exact CallSite.Precedes.irrefl hbefore

theorem Precedes.asymm {first second : LockPair}
    (hprecedes : first.Precedes program second) :
    ¬ second.Precedes program first := by
  rintro (hlt | ⟨hfunction, hback⟩)
  · rcases hprecedes with hgt | ⟨hfunction, -⟩
    · exact absurd hlt (Nat.lt_asymm hgt)
    · exact absurd hlt (by rw [hfunction]; exact Nat.lt_irrefl _)
  · rcases hprecedes with hgt | ⟨-, hforth⟩
    · exact absurd hgt (by rw [hfunction]; exact Nat.lt_irrefl _)
    · rcases hforth with hforth | ⟨hlock, hforth⟩ <;> rcases hback with hback | ⟨hsame, hback⟩
      · exact hforth.asymm hback
      · rw [hsame] at hforth
        exact hforth.irrefl
      · rw [hlock] at hback
        exact hback.irrefl
      · exact hforth.asymm hback

theorem nodup_of_pairwise {pairs : List LockPair} (hpairs : pairs.Pairwise (Precedes program)) :
    pairs.Nodup := by
  refine hpairs.imp ?_
  rintro first _ hprecedes rfl
  exact hprecedes.irrefl

/-- Sorted lists of the same pairs are equal. -/
theorem eq_of_pairwise {pairs others : List LockPair} (hpairs : pairs.Pairwise (Precedes program))
    (hothers : others.Pairwise (Precedes program)) (hmem : ∀ pair, pair ∈ pairs ↔ pair ∈ others) :
    pairs = others := by
  have hperm := (List.perm_ext_iff_of_nodup (nodup_of_pairwise hpairs)
    (nodup_of_pairwise hothers)).mpr hmem
  exact hperm.eq_of_pairwise (fun _ _ _ _ hforth hback => absurd hback hforth.asymm) hpairs hothers

end LockPair

theorem PairIndex.matchesKey_search (family : LockFamily) (role : LockRole) :
    search.matchesKey (family.name role) = true := by
  cases family <;> cases role <;> decide

/-- Pairs that belong together are made of calls that the search for primitives finds. -/
theorem LockPair.matches_iff {pair : LockPair} {program : Program} {oracle : AliasOracle} :
    pair.Matches oracle program ↔
      PairIndex.search.Finds program pair.lock ∧ PairIndex.search.Finds program pair.unlock ∧
        pair.unlock.function = pair.lock.function ∧
        LockFamily.classify? pair.lock.name = some (pair.family, .lock) ∧
        LockFamily.classify? pair.unlock.name = some (pair.family, .unlock) ∧
        pair.Aliased oracle := by
  simp only [CallSearch.finds_iff, LockFamily.classify?_eq_some_iff]
  constructor
  · rintro ⟨hlock, hunlock, hfunction, hlockName, hunlockName, haliased⟩
    refine ⟨⟨hlock, ?_⟩, ⟨hunlock, ?_⟩, hfunction, hlockName, hunlockName, haliased⟩
    · rw [hlockName]
      exact PairIndex.matchesKey_search ..
    · rw [hunlockName]
      exact PairIndex.matchesKey_search ..
  · rintro ⟨⟨hlock, -⟩, ⟨hunlock, -⟩, hfunction, hlockName, hunlockName, haliased⟩
    exact ⟨hlock, hunlock, hfunction, hlockName, hunlockName, haliased⟩

/-! ## Leaving out repetitions

A call without arguments may be complained about more than once, so findings are thinned out. -/

section Repetitions

variable {Item : Type} [BEq Item]

theorem eraseDups_sublist (items : List Item) : items.eraseDups.Sublist items := by
  match items with
  | [] => simp
  | item :: rest =>
      rw [List.eraseDups_cons]
      exact ((eraseDups_sublist _).trans List.filter_sublist).cons_cons item
termination_by items.length
decreasing_by exact Nat.lt_succ_of_le (List.length_filter_le ..)

theorem nodup_eraseDups [LawfulBEq Item] (items : List Item) : items.eraseDups.Nodup := by
  match items with
  | [] => simp
  | item :: rest =>
      rw [List.eraseDups_cons, List.nodup_cons]
      exact ⟨by simp, nodup_eraseDups _⟩
termination_by items.length
decreasing_by exact Nat.lt_succ_of_le (List.length_filter_le ..)

end Repetitions

/-! ## One function

Every lock of the function is compared with every other call of it. -/

namespace PairFinding

variable {oracle : AliasOracle} {family : LockFamily} {lock other : CallSite} {mutex : Operand}
  {pair : LockPair} {sites : List CallSite} {program : Program}

@[simp] theorem pair?_eq_some_iff {finding : PairFinding} :
    finding.pair? = some pair ↔ finding = .paired pair := by
  cases finding <;> simp [pair?]

theorem mem_filterMap_pair? {findings : List PairFinding} :
    pair ∈ findings.filterMap pair? ↔ .paired pair ∈ findings := by
  simp

theorem compare?_eq_paired_iff :
    compare? oracle family lock mutex other = some (.paired pair) ↔
      pair = { family, lock, unlock := other } ∧ other.handle ≠ lock.handle ∧
        LockFamily.classify? other.name = some (family, .unlock) ∧
        ∃ otherMutex ∈ other.arguments.head?, oracle mutex otherMutex = .must := by
  constructor
  · intro hcompare
    obtain ⟨rfl, hhandle, hrole⟩ := paired_of_compare? hcompare
    refine ⟨rfl, hhandle, hrole, ?_⟩
    unfold compare? at hcompare
    rw [if_neg hhandle, if_neg (not_not.mpr hrole)] at hcompare
    split at hcompare
    · cases hcompare
    · rename_i otherMutex rest hother
      split at hcompare
      · rename_i hmust
        exact ⟨otherMutex, by rw [hother]; rfl, beq_iff_eq.mp hmust⟩
      · cases hcompare
  · rintro ⟨rfl, hhandle, hrole, otherMutex, hother, hmust⟩
    obtain ⟨rest, hother⟩ := List.head?_eq_some_iff.mp hother
    unfold compare?
    rw [if_neg hhandle, if_neg (not_not.mpr hrole), hother]
    simp [AliasOracle.must, hmust]

theorem paired_mem_ofLock_iff :
    .paired pair ∈ ofLock oracle sites lock ↔
      pair.lock = lock ∧ pair.unlock ∈ sites ∧ pair.unlock.handle ≠ lock.handle ∧
        LockFamily.classify? lock.name = some (pair.family, .lock) ∧
        LockFamily.classify? pair.unlock.name = some (pair.family, .unlock) ∧
        pair.Aliased oracle := by
  constructor
  · intro hpaired
    unfold ofLock at hpaired
    split at hpaired
    · rename_i family hrole
      split at hpaired
      · simp at hpaired
      · rename_i mutex rest harguments
        obtain ⟨unlock, hunlock, hcompare⟩ := List.mem_filterMap.mp hpaired
        obtain ⟨rfl, hhandle, hother, haliased⟩ := compare?_eq_paired_iff.mp hcompare
        exact ⟨rfl, hunlock, hhandle, hrole, hother, mutex, by rw [harguments]; rfl, haliased⟩
    · cases hpaired
  · rintro ⟨rfl, hunlock, hhandle, hrole, hother, mutex, hmutex, haliased⟩
    obtain ⟨rest, harguments⟩ := List.head?_eq_some_iff.mp hmutex
    unfold ofLock
    simp only [hrole, harguments]
    exact List.mem_filterMap.mpr
      ⟨pair.unlock, hunlock, compare?_eq_paired_iff.mpr ⟨rfl, hhandle, hother, haliased⟩⟩

theorem paired_mem_ofFunction_iff :
    .paired pair ∈ ofFunction oracle sites ↔
      pair.lock ∈ sites ∧ pair.unlock ∈ sites ∧ pair.unlock.handle ≠ pair.lock.handle ∧
        LockFamily.classify? pair.lock.name = some (pair.family, .lock) ∧
        LockFamily.classify? pair.unlock.name = some (pair.family, .unlock) ∧
        pair.Aliased oracle := by
  unfold ofFunction
  rw [List.mem_eraseDups, List.mem_flatMap]
  constructor
  · rintro ⟨lock, hlock, hpaired⟩
    obtain ⟨rfl, hrest⟩ := paired_mem_ofLock_iff.mp hpaired
    exact ⟨hlock, hrest⟩
  · rintro ⟨hlock, hrest⟩
    exact ⟨pair.lock, hlock, paired_mem_ofLock_iff.mpr ⟨rfl, hrest⟩⟩

/-- The pairs of one function are sorted by rank if its calls are. -/
theorem pairwise_ofFunction (hsites : sites.Pairwise (CallSite.Precedes program)) :
    ((ofFunction oracle sites).filterMap pair?).Pairwise fun first second =>
      first.lock.Precedes program second.lock ∨
        first.lock = second.lock ∧ first.unlock.Precedes program second.unlock := by
  refine List.Pairwise.sublist ((eraseDups_sublist _).filterMap pair?) ?_
  rw [List.filterMap_flatMap]
  refine List.pairwise_flatMap.mpr ⟨fun lock hlock => ?_, hsites.imp ?_⟩
  -- the pairs of one lock follow their unlocks
  · unfold ofLock
    split
    · split
      · exact .nil
      · rw [List.filterMap_filterMap]
        refine hsites.filterMap _ fun unlock later hprecedes first hfirst second hsecond => ?_
        simp only [Option.bind_eq_some_iff, pair?_eq_some_iff, exists_eq_right,
          compare?_eq_paired_iff] at hfirst hsecond
        obtain ⟨rfl, -⟩ := hfirst
        obtain ⟨rfl, -⟩ := hsecond
        exact Or.inr ⟨rfl, hprecedes⟩
    · exact .nil
  -- and the locks follow each other
  · intro lock later hprecedes first hfirst second hsecond
    rw [mem_filterMap_pair?, paired_mem_ofLock_iff] at hfirst hsecond
    rw [hfirst.1, hsecond.1]
    exact Or.inl hprecedes

end PairFinding

/-! ## The index of a program

Functions are gone through in the order of their numbers, each with the calls that it holds. -/

namespace PairIndex

variable {oracle : AliasOracle} {program : Program} {pair : LockPair} {results : List PairFinding}

section Findings

variable (consistent : program.Consistent) (calleesExist : program.CalleesExist)
include consistent calleesExist

/-- Nothing but pairs that belong together is indexed, and none of them is lost. -/
theorem mem_pairs_iff (hresults : findings oracle program = .ok results) :
    pair ∈ (ofFindings results).pairs ↔ pair.Matches oracle program := by
  obtain ⟨found, hfound, hfindings⟩ := findings_eq consistent calleesExist oracle
  rw [hresults] at hfindings
  obtain rfl := Except.ok.inj hfindings
  have hsites : ∀ site, site ∈ found.sites ↔ search.Finds program site := fun site =>
    CallSearch.mem_sites_iff consistent calleesExist hfound
  unfold ofFindings
  rw [PairFinding.mem_filterMap_pair?, List.mem_flatMap, LockPair.matches_iff]
  constructor
  · rintro ⟨group, hgroup, hpaired⟩
    obtain ⟨function, -, rfl⟩ := List.mem_map.mp hgroup
    obtain ⟨hlock, hunlock, -, hrest⟩ := PairFinding.paired_mem_ofFunction_iff.mp hpaired
    obtain ⟨hlock, hlockFunction⟩ := FoundCalls.mem_inFunction.mp hlock
    obtain ⟨hunlock, hunlockFunction⟩ := FoundCalls.mem_inFunction.mp hunlock
    exact ⟨(hsites _).mp hlock, (hsites _).mp hunlock,
      hunlockFunction.trans hlockFunction.symm, hrest⟩
  · rintro ⟨hlock, hunlock, hfunction, hlockRole, hunlockRole, haliased⟩
    -- one call cannot have both roles
    have hhandle : pair.unlock.handle ≠ pair.lock.handle := by
      intro hsame
      rw [hunlock.eq_of_handle hlock hsame, hlockRole] at hunlockRole
      simp at hunlockRole
    have hlockMem := (hsites _).mpr hlock
    refine ⟨(pair.lock.function, found.inFunction pair.lock.function), ?_, ?_⟩
    · exact List.mem_map.mpr ⟨_, FoundCalls.mem_functions.mpr ⟨_, hlockMem, rfl⟩, rfl⟩
    · refine PairFinding.paired_mem_ofFunction_iff.mpr
        ⟨?_, ?_, hhandle, hlockRole, hunlockRole, haliased⟩
      · exact FoundCalls.mem_inFunction.mpr ⟨hlockMem, rfl⟩
      · exact FoundCalls.mem_inFunction.mpr ⟨(hsites _).mpr hunlock, hfunction⟩

/-- The index is sorted through all categories. -/
theorem pairwise_pairs (hresults : findings oracle program = .ok results) :
    (ofFindings results).pairs.Pairwise (LockPair.Precedes program) := by
  obtain ⟨found, hfound, hfindings⟩ := findings_eq consistent calleesExist oracle
  rw [hresults] at hfindings
  obtain rfl := Except.ok.inj hfindings
  have hfunction : ∀ function, ∀ pair ∈ (PairFinding.ofFunction oracle
      (found.inFunction function).sites).filterMap PairFinding.pair?, pair.function = function := by
    intro function pair hpair
    rw [PairFinding.mem_filterMap_pair?] at hpair
    exact (FoundCalls.mem_inFunction.mp (PairFinding.paired_mem_ofFunction_iff.mp hpair).1).2
  unfold ofFindings FoundCalls.perFunction
  rw [List.filterMap_flatMap, List.flatMap_map]
  refine List.pairwise_flatMap.mpr ⟨fun function _ => ?_, found.pairwise_functions.imp ?_⟩
  · have hsites := CallSearch.pairwise_inFunction consistent calleesExist hfound function
    refine (PairFinding.pairwise_ofFunction hsites).imp_of_mem fun hfirst hsecond hprecedes => ?_
    exact Or.inr ⟨(hfunction _ _ hfirst).trans (hfunction _ _ hsecond).symm, hprecedes⟩
  · intro function later hlt first hfirst second hsecond
    refine Or.inl ?_
    rw [hfunction _ _ hfirst, hfunction _ _ hsecond]
    exact hlt

end Findings

theorem mem_ofCategory {index : PairIndex} {category : PairCategory} :
    pair ∈ index.ofCategory category ↔ pair ∈ index.pairs ∧ pair.category = category := by
  simp [ofCategory]

/-- Pairs are matched exactly: each category of the index holds the pairs of its two call forms that
belong together and no others, each once and in their order. -/
theorem build_exact {workspace : Workspace} (consistent : workspace.program.Consistent)
    (calleesExist : workspace.program.CalleesExist) (oracle : AliasOracle) :
    ∃ index after, build oracle workspace = .ok index after ∧
      after.program = workspace.program ∧
      ∀ category,
        (∀ pair, pair ∈ index.ofCategory category ↔
          pair.Matches oracle workspace.program ∧ pair.category = category) ∧
        (index.ofCategory category).Nodup ∧
        (index.ofCategory category).Pairwise (LockPair.Precedes workspace.program) := by
  obtain ⟨found, -, hanswered⟩ := findings_eq consistent calleesExist oracle
  have hnever : ∀ (problem : EditError) (after : Workspace), ¬ (after.program = workspace.program ∧
      findings oracle workspace.program = .error problem) := by
    rintro problem after ⟨-, hrefused⟩
    rw [hanswered] at hrefused
    cases hrefused
  have hruns := (runs_build oracle workspace).imp (fun _ _ h => h) hnever
  obtain ⟨index, after, hbuild, hafter, results, hresults, rfl⟩ := hruns.exists_ok
  refine ⟨_, after, hbuild, hafter, fun category => ?_⟩
  have hsorted := (pairwise_pairs consistent calleesExist hresults).filter
    (·.category == category)
  refine ⟨fun pair => ?_, LockPair.nodup_of_pairwise hsorted, hsorted⟩
  rw [mem_ofCategory, mem_pairs_iff consistent calleesExist hresults]

/-- An unlock before the locks that it belongs to: one that may unwind, and a plain one after. -/
def unlockFirst : Program :=
  Command.run [.declare "pthread_mutex_lock" .status, .declare "pthread_mutex_unlock" .status,
    .addFunction "main" .void [], .addBlock 2 "entry", .addBlock 2 "held", .addBlock 2 "failed",
    .push 2 0 (.ofOperation (.call (.direct 1) [.global "mutex"] .status)),
    .push 2 0 (.ofOperation (.invoke (.direct 0) [.global "mutex"] .status 1 2)),
    .push 2 1 (.ofOperation (.call (.direct 0) [.global "mutex"] .status)),
    .push 2 1 (.ofOperation (.ret none)), .push 2 2 (.ofOperation .unreachable)]
    { name := "locks" }

theorem consistent_unlockFirst : unlockFirst.Consistent :=
  Command.consistent_run (Command.consistent_empty "locks") _

theorem build_unlockFirst :
    ∃ index after, build .identity { program := unlockFirst } = .ok index after ∧
      after.program = unlockFirst ∧
      ∀ category,
        (∀ pair, pair ∈ index.ofCategory category ↔
          pair.Matches .identity unlockFirst ∧ pair.category = category) ∧
        (index.ofCategory category).Nodup ∧
        (index.ofCategory category).Pairwise (LockPair.Precedes unlockFirst) :=
  @build_exact { program := unlockFirst } consistent_unlockFirst
    (consistent_unlockFirst.calleesExist_iff.mpr (by decide)) .identity

/-- Both locks are paired with the one unlock, each in the category of its form. -/
example : (findings .identity unlockFirst).map (fun results => (ofFindings results).counts) =
    .ok [1, 0, 1, 0] := by decide

end PairIndex

end ConcurrencyFaults

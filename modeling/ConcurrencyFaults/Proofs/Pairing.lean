import ConcurrencyFaults.Locking.PairIndex
import ConcurrencyFaults.Proofs.Requests

/-!
# Which calls are paired

Pairs are made of found sites.  The two sides of a pair are different calls of one function, a lock
and an unlock of one family; as the role of a call can be read off its name, no call is the lock of
one pair and the unlock of another.

This much holds of any index, whether or not the program is consistent; it is what operators on
pairs rely on when they change one side of a pair and then the other.  Which pairs there are exactly
is the subject of `PairMatching.lean`.
-/

namespace ConcurrencyFaults

open Program

variable {pair : LockPair} {sites : List CallSite} {oracle : AliasOracle}

/-- A lock and an unlock of one family, both among the sites and in one function. -/
structure LockPair.Matched (pair : LockPair) (sites : List CallSite) : Prop where
  lock_mem : pair.lock ∈ sites
  unlock_mem : pair.unlock ∈ sites
  function_eq : pair.unlock.function = pair.lock.function
  handle_ne : pair.unlock.handle ≠ pair.lock.handle
  lock_role : LockFamily.classify? pair.lock.name = some (pair.family, .lock)
  unlock_role : LockFamily.classify? pair.unlock.name = some (pair.family, .unlock)

/-- An unlock of one pair is not the lock of any. -/
theorem LockPair.Matched.unlock_ne_lock {other : LockPair} {search : CallSearch}
    {program : Program} (hpair : pair.Matched sites) (hother : other.Matched sites)
    (hfinds : ∀ site ∈ sites, search.Finds program site) :
    pair.unlock.handle ≠ other.lock.handle := by
  intro hhandle
  have hsame := (hfinds _ hpair.unlock_mem).eq_of_handle (hfinds _ hother.lock_mem) hhandle
  have hrole := hpair.unlock_role
  rw [hsame, hother.lock_role, Option.some.injEq, Prod.mk.injEq] at hrole
  exact absurd hrole.2 (by simp)

namespace PairFinding

theorem paired_of_compare? {family : LockFamily} {lock other : CallSite} {mutex : Operand}
    (hcompare : compare? oracle family lock mutex other = some (.paired pair)) :
    pair = { family, lock, unlock := other } ∧ other.handle ≠ lock.handle ∧
      LockFamily.classify? other.name = some (family, .unlock) := by
  unfold compare? at hcompare
  split at hcompare
  · cases hcompare
  · rename_i hhandle
    split at hcompare
    · cases hcompare
    · rename_i hrole
      split at hcompare
      · cases hcompare
      · split at hcompare
        · cases hcompare
          exact ⟨rfl, hhandle, not_not.mp hrole⟩
        · cases hcompare

theorem matched_of_ofFunction {function : FunctionId}
    (hfunction : ∀ site ∈ sites, site.function = function)
    (hpaired : .paired pair ∈ ofFunction oracle sites) : pair.Matched sites := by
  unfold ofFunction at hpaired
  rw [List.mem_eraseDups] at hpaired
  obtain ⟨lock, hlock, hpaired⟩ := List.mem_flatMap.mp hpaired
  unfold ofLock at hpaired
  split at hpaired
  · rename_i family hrole
    split at hpaired
    · simp at hpaired
    · obtain ⟨unlock, hunlock, hcompare⟩ := List.mem_filterMap.mp hpaired
      obtain ⟨rfl, hhandle, hother⟩ := paired_of_compare? hcompare
      exact ⟨hlock, hunlock, (hfunction _ hunlock).trans (hfunction _ hlock).symm, hhandle,
        hrole, hother⟩
  · cases hpaired

end PairFinding

namespace PairIndex

variable {program : Program}

theorem mem_of_mem_toList {index : PairIndex} {category : PairCategory} {position : Nat}
    (hmem : (category, position, pair) ∈ index.toList) : pair ∈ index.pairs := by
  obtain ⟨group, -, hgroup⟩ := List.mem_flatMap.mp hmem
  obtain ⟨⟨found, place⟩, hfound, heq⟩ := List.mem_map.mp hgroup
  simp only [Prod.mk.injEq] at heq
  obtain ⟨-, -, rfl⟩ := heq
  exact List.mem_of_mem_filter (List.fst_mem_of_mem_zipIdx hfound)

theorem matched_of_findings {found : FoundCalls} (hfound : search.inProgram program = .ok found)
    {results : List PairFinding} (hresults : findings oracle program = .ok results)
    (hpair : pair ∈ (ofFindings results).pairs) : pair.Matched found.sites := by
  unfold findings at hresults
  rw [hfound] at hresults
  obtain rfl := Except.ok.inj hresults
  obtain ⟨finding, hfinding, hpaired⟩ := List.mem_filterMap.mp hpair
  -- complaints about calls without an argument are not indexed
  obtain rfl : finding = .paired pair := by
    cases finding with
    | paired other => exact congrArg PairFinding.paired (Option.some.inj hpaired)
    | noArgument site => cases hpaired
  obtain ⟨group, hgroup, hmem⟩ := List.mem_flatMap.mp hfinding
  obtain ⟨function, -, rfl⟩ := List.mem_map.mp hgroup
  have hsites : ∀ site ∈ (found.inFunction function).sites,
      site ∈ found.sites ∧ site.function = function := by
    intro site hsite
    simpa [FoundCalls.inFunction] using hsite
  have hmatched := PairFinding.matched_of_ofFunction (fun site hsite => (hsites site hsite).2) hmem
  exact ⟨(hsites _ hmatched.lock_mem).1, (hsites _ hmatched.unlock_mem).1, hmatched.function_eq,
    hmatched.handle_ne, hmatched.lock_role, hmatched.unlock_role⟩

/-- The pairs of an index are made of the sites that one search finds. -/
theorem exists_found {results : List PairFinding}
    (hresults : findings oracle program = .ok results) :
    ∃ found : FoundCalls, (∀ site ∈ found.sites, search.Finds program site) ∧
      ∀ pair ∈ (ofFindings results).pairs, pair.Matched found.sites := by
  obtain ⟨found, hfound, -⟩ := Except.map_eq_ok_iff.mp hresults
  exact ⟨found, fun site hmem => CallSearch.finds_of_inProgram hfound hmem,
    fun pair hpair => matched_of_findings hfound hresults hpair⟩

theorem findings_eq (consistent : program.Consistent) (calleesExist : program.CalleesExist)
    (oracle : AliasOracle) :
    ∃ found, search.inProgram program = .ok found ∧
      findings oracle program = .ok (found.perFunction.flatMap fun group =>
        PairFinding.ofFunction oracle group.2.sites) := by
  obtain ⟨found, hfound⟩ := search.exists_inProgram consistent calleesExist
  refine ⟨found, hfound, ?_⟩
  unfold findings
  rw [hfound]
  rfl

/-- Building an index asks one question and changes the journal alone. -/
theorem runs_build (oracle : AliasOracle) (workspace : Workspace) :
    Runs (build oracle) workspace
      (fun index after => after.program = workspace.program ∧
        ∃ results, findings oracle workspace.program = .ok results ∧ index = ofFindings results)
      (fun problem after => after.program = workspace.program ∧
        findings oracle workspace.program = .error problem) := by
  unfold build
  refine runs_bind (runs_get ?_)
  refine Work.runs_bind_recordAll fun ledger => ?_
  refine Work.runs_bind_query_of (fun results hresults => ?_) fun problem hrefused => ?_
  · exact Work.runs_bind_recordAll fun ledger => runs_pure ⟨rfl, results, hresults, rfl⟩
  · exact ⟨rfl, hrefused⟩

/-- Whatever the oracle says, matching the pairs of a consistent program is refused only if a call
names a function that does not exist. -/
theorem runs_bind_build {workspace : Workspace} {Answer : Type} {next : PairIndex → Work Answer}
    {answered : Answer → Workspace → Prop} (consistent : workspace.program.Consistent)
    (hnext : ∀ (found : FoundCalls) index ledger,
      (∀ site ∈ found.sites, search.Finds workspace.program site) →
      (∀ pair ∈ index.pairs, pair.Matched found.sites) →
      Runs (next index) { workspace with ledger } answered (Refusal workspace.program)) :
    Runs (build oracle >>= next) workspace answered (Refusal workspace.program) := by
  refine ((runs_build oracle workspace).imp (fun _ _ hbuilt => hbuilt) ?_).bind ?_
  · rintro problem ⟨program, ledger⟩ ⟨rfl, hrefused⟩
    refine ⟨Upheld.refl consistent, fun hanswerable => ?_⟩
    obtain ⟨found, -, hanswered⟩ := findings_eq consistent hanswerable.calleesExist oracle
    rw [hanswered] at hrefused
    cases hrefused
  · rintro index ⟨program, ledger⟩ ⟨rfl, results, hresults, rfl⟩
    obtain ⟨found, hfinds, hmatched⟩ := exists_found hresults
    exact hnext found _ ledger hfinds hmatched

end PairIndex

end ConcurrencyFaults

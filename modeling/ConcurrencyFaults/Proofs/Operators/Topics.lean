import ConcurrencyFaults.Proofs.Operators.AttributeRuns

/-!
# What operators on attributes are about

Candidates of different operators on attributes are mostly told apart by the constructor of an
access and the symbol of a call (`Program.topic`).  Each operator is about certain topics
(`Operator.IsAbout`), and two different ones are about the same topic only where an atomic access is
volatile.  No amendment changes the topic of an operation (`Operator.sameTopic_amend`).

## Strategy

Two operators can only get in each other's way at an instruction that is a candidate of both.

* **Candidates have topics.**  For accesses this is read off the kinds that the operators look for
  (`isAbout_of_memoryKind?`), and for calls off the symbols they search for (`isAbout_of_finds`).
* **Topics tell operators apart** (`IsAbout.cases_of_both`).  Among calls, volatile copies and
  creations of semaphores are told apart by the first letters of their symbols.  What remains is the
  pair of an atomic and a volatile operator, which write to different parts of an access.
* **Topics stay.**  An amendment keeps the constructor of an access and the callee of a call, so the
  operator that comes second finds the candidates that it would have found first.
-/

namespace ConcurrencyFaults

open Program

/-! ## Topics

A topic is coarser than the operation and finer than its constructor: of a call it keeps the symbol
of the function, by which both copies and semaphores are searched. -/

/-- What an operation is about, as far as operators on attributes tell operations apart. -/
inductive Topic where
  | fence
  | access (target : AtomicTarget)
  /-- A direct call of a function with this symbol. -/
  | call (symbol : String)
  | other

def Program.topic (program : Program) (operation : Operation) : Topic :=
  match operation with
  | .fence _ _ => .fence
  | .load _ _ _ _ _ => .access .load
  | .store _ _ _ _ _ => .access .store
  | .compareExchange _ _ _ _ _ _ _ _ => .access .compareExchange
  | .update _ _ _ _ _ _ _ => .access .update
  | operation =>
      match operation.directCallee?.bind program.function? with
      | some target => .call target.name
      | none => .other

theorem Program.topic_of_callee {program : Program} {operation : Operation} {target : Function}
    (hcallee : operation.directCallee?.bind program.function? = some target) :
    program.topic operation = .call target.name := by
  cases operation with
  | call | invoke => simp only [topic, hcallee]
  | _ => cases hcallee

/-- Candidates of an operator are about certain topics. -/
inductive Operator.IsAbout : Operator → Topic → Prop where
  | fence (plan : FencePlan) : IsAbout (.fence plan) .fence
  | atomic {plan : AtomicPlan} {target : AtomicTarget} (htarget : target = plan.target) :
      IsAbout (.atomic plan) (.access target)
  | volatile (plan : VolatilePlan) (target : AtomicTarget) :
      IsAbout (.volatile plan) (.access target)
  | copy (plan : VolatilePlan) {symbol : String}
      (hcopy : "llvm.memcpy".toList.isPrefixOf symbol.toList = true) :
      IsAbout (.volatile plan) (.call symbol)
  | semaphore (plan : SemaphorePlan) {symbol : String}
      (hkey : SemaphoreOperator.search.matchesKey (Symbol.key symbol false) = true) :
      IsAbout (.semaphore plan) (.call symbol)

/-- No memory copy creates a semaphore. -/
theorem SemaphoreOperator.not_matchesKey_of_isPrefixOf {symbol : String}
    (hcopy : "llvm.memcpy".toList.isPrefixOf symbol.toList = true) :
    SemaphoreOperator.search.matchesKey (Symbol.key symbol false) = false := by
  obtain ⟨rest, hrest⟩ := List.isPrefixOf_iff_prefix.mp hcopy
  have hkey : (Symbol.key symbol false).toList =
      "llvm.memcpy".toList ++ rest.takeWhile (· != '(') := by
    simp [Symbol.key, Symbol.withoutParameters, ← hrest]
  rw [Bool.eq_false_iff]
  intro hmatches
  simp only [search, CallSearch.matchesKey, List.contains_iff_mem, List.mem_cons,
    List.not_mem_nil, or_false] at hmatches
  -- the first letters differ
  rcases hmatches with hsame | hsame <;>
    · rw [hsame] at hkey
      simp at hkey

namespace Operator

variable {first second operator : Operator} {topic : Topic}

/-- Different operators are about the same only where a volatile access is atomic. -/
theorem IsAbout.cases_of_both (hfirst : first.IsAbout topic) (hsecond : second.IsAbout topic)
    (hne : first.name ≠ second.name) :
    (∃ plan other, first = .atomic plan ∧ second = .volatile other) ∨
      ∃ plan other, first = .volatile plan ∧ second = .atomic other := by
  cases hfirst with
  | fence plan =>
      cases hsecond
      exact absurd rfl hne
  | atomic htarget =>
      cases hsecond with
      | atomic hother => exact absurd (congrArg AtomicOperator.name (htarget.symm.trans hother)) hne
      | volatile other => exact Or.inl ⟨_, _, rfl, rfl⟩
  | volatile plan target =>
      cases hsecond with
      | atomic htarget => exact Or.inr ⟨_, _, rfl, rfl⟩
      | volatile other => exact absurd rfl hne
  | copy plan hcopy =>
      cases hsecond with
      | copy other => exact absurd rfl hne
      | semaphore other hkey =>
          rw [SemaphoreOperator.not_matchesKey_of_isPrefixOf hcopy] at hkey
          cases hkey
  | semaphore plan hkey =>
      cases hsecond with
      | copy other hcopy =>
          rw [SemaphoreOperator.not_matchesKey_of_isPrefixOf hcopy] at hkey
          cases hkey
      | semaphore other => exact absurd rfl hne

/-! ### Candidates are about the topics of their operator

Where an operator looks for accesses, the case split on the operation rules out all constructors but
those it looks for. -/

variable {program : Program} {operation amended : Operation} {candidates : List Candidate}
  {candidate : Candidate} {entry : Placed} {handle : Handle} {request : Nat}

theorem isAbout_of_memoryKind? {kind : MemoryKind}
    (hkind : operator.memoryKind? program operation = some kind) :
    operator.IsAbout (program.topic operation) := by
  cases operator with
  | fence plan =>
      cases operation with
      | fence => exact .fence plan
      | _ => cases hkind
  | atomic plan =>
      obtain ⟨target, change, positions, onlyAtomic, verbose⟩ := plan
      cases target with
      | compareExchange =>
          cases operation with
          | compareExchange => exact .atomic rfl
          | _ => cases hkind
      | store =>
          cases operation with
          | store => exact .atomic rfl
          | _ => cases hkind
      | load =>
          cases operation with
          | load => exact .atomic rfl
          | _ => cases hkind
      | update =>
          cases operation with
          | update => exact .atomic rfl
          | _ => cases hkind
  | volatile plan =>
      cases operation with
      | load | store | compareExchange | update => exact .volatile plan _
      | call | invoke =>
          obtain ⟨hcopied, -⟩ := Option.ite_none_right_eq_some.mp hkind
          -- a volatile copy calls a function whose symbol begins like that of a copy
          unfold MemorySite.isVolatileCopy at hcopied
          split at hcopied
          · cases hcopied
          · rename_i target htarget
            rw [topic_of_callee htarget]
            exact .copy plan (Bool.and_eq_true_iff.mp hcopied).1
      | _ => cases hkind
  | _ => cases hkind

/-- A call that is searched for is about semaphores. -/
theorem isAbout_of_finds {site : CallSite} (plan : SemaphorePlan)
    (hfinds : SemaphoreOperator.search.Finds program site)
    (hplaced : program.placed? site.handle = some entry) :
    (Operator.semaphore plan).IsAbout (program.topic entry.instruction.operation) := by
  obtain ⟨hcapture, hkey⟩ := CallSearch.finds_iff.mp hfinds
  obtain ⟨found, target, hfound, htarget, hoperation, hsite⟩ :=
    CallSite.capture_eq_some_iff.mp hcapture
  obtain rfl : entry = found := Option.some.inj (hplaced.symm.trans hfound)
  have hcallee : entry.instruction.operation.directCallee?.bind program.function? =
      some target := by
    rw [hoperation, CallSite.operation, SiteForm.directCallee?_operation]
    exact htarget
  have hname : site.name = Symbol.key target.name false := congrArg CallSite.name hsite
  rw [topic_of_callee hcallee]
  exact .semaphore plan (hname ▸ hkey)

theorem isAbout_of_mem (consistent : program.Consistent)
    (hattributes : operator.ChangesAttributes)
    (hcandidates : operator.candidates program = .ok candidates) (hmem : candidate ∈ candidates)
    (hplaced : program.placed? candidate.handle = some entry) :
    operator.IsAbout (program.topic entry.instruction.operation) := by
  cases hsearch : operator.search? with
  | none =>
      rw [eq_accesses hsearch hcandidates] at hmem
      obtain ⟨site, hsite, rfl⟩ := List.mem_map.mp hmem
      rw [accesses_eq_collect] at hsite
      obtain ⟨found, hfound, -, hkind⟩ := MemorySite.placed?_of_mem_collect consistent hsite
      obtain rfl : entry = found := Option.some.inj (hplaced.symm.trans hfound)
      obtain ⟨kind, hkind⟩ := Option.isSome_iff_exists.mp hkind
      exact isAbout_of_memoryKind? hkind
  | some search =>
      cases operator with
      | semaphore plan =>
          obtain ⟨found, hfound, rfl⟩ := exists_found hsearch hcandidates
          obtain ⟨site, hsite, rfl⟩ := List.mem_map.mp hmem
          obtain rfl : SemaphoreOperator.search = search := Option.some.inj hsearch
          exact isAbout_of_finds plan (CallSearch.finds_of_inProgram hfound hsite) hplaced
      | fence | atomic | volatile => cases hsearch
      | _ => exact hattributes.elim

/-! ### Amendments keep topics

The callee is kept along with the topic, for functions of one symbol may differ, and what is
captured of a call is its function. -/

/-- Operations of one topic that call the same function, if they are direct calls. -/
def SameTopic (program : Program) (operation amended : Operation) : Prop :=
  program.topic amended = program.topic operation ∧
    amended.directCallee? = operation.directCallee?

theorem sameTopic_withArguments (arguments : List Operand) :
    SameTopic program operation (operation.withArguments arguments) := by
  cases operation <;> exact ⟨rfl, rfl⟩

theorem sameTopic_withAccess (order : MemoryOrder) (scope : SyncScope) :
    SameTopic program operation (AtomicOperator.withAccess order scope operation) := by
  cases operation <;> exact ⟨rfl, rfl⟩

theorem sameTopic_cleared (hcleared : VolatileOperator.cleared? operation = some amended) :
    SameTopic program operation amended := by
  cases operation with
  | load | store | compareExchange | update =>
      obtain rfl := Option.some.inj hcleared
      exact ⟨rfl, rfl⟩
  | call | invoke =>
      obtain ⟨-, hcleared⟩ := Option.ite_none_right_eq_some.mp hcleared
      obtain rfl := Option.some.inj hcleared
      exact sameTopic_withArguments _
  | _ => cases hcleared

/-- An amendment changes neither the kind of an access nor the target of a call. -/
theorem sameTopic_amended
    (hamended : operator.amended? request candidate operation = some amended) :
    SameTopic program operation amended := by
  cases candidate with
  | access site =>
      cases operator with
      | fence plan =>
          obtain ⟨change, -, hamended⟩ := Option.bind_eq_some_iff.mp hamended
          cases operation with
          | fence order scope =>
              cases change with
              | remove => cases hamended
              | toggleScope =>
                  obtain rfl := Option.some.inj hamended
                  exact ⟨rfl, rfl⟩
              | order codes =>
                  obtain ⟨_, -, rfl⟩ := Option.map_eq_some_iff.mp hamended
                  exact ⟨rfl, rfl⟩
          | _ => cases hamended
      | atomic plan =>
          obtain ⟨change, -, hamended⟩ := Option.bind_eq_some_iff.mp hamended
          obtain ⟨_, -, rfl⟩ := Option.map_eq_some_iff.mp hamended
          exact sameTopic_withAccess _ _
      | volatile plan => exact sameTopic_cleared hamended
      | _ => cases hamended
  | call site =>
      cases operator with
      | semaphore plan =>
          obtain ⟨index, -, hamended⟩ := Option.bind_eq_some_iff.mp hamended
          obtain ⟨arguments, -, hamended⟩ := Option.bind_eq_some_iff.mp hamended
          obtain ⟨-, hamended⟩ := Option.ite_none_right_eq_some.mp hamended
          obtain rfl := Option.some.inj hamended
          exact sameTopic_withArguments _
      | _ => cases hamended

theorem sameTopic_amend (operator : Operator) (request : Nat) (candidate : Candidate)
    (operation : Operation) :
    SameTopic program operation (operator.amend request candidate operation) := by
  unfold amend
  cases hamended : operator.amended? request candidate operation with
  | none => exact ⟨rfl, rfl⟩
  | some amended => exact sameTopic_amended hamended

end Operator

end ConcurrencyFaults

import ConcurrencyFaults.Proofs.Operators.Topics

/-!
# Operators on attributes commute

Two operators on attributes may be run in either order, each with a ledger of its own, and come to
the same program and the same two answers (`Operator.attributes_commute`).

Where the two are about different topics neither amends what the other looks for.  The exception are
volatile atomic accesses, which are candidates of two operators.  There one operator writes the
order and scope and the other the flag, and neither reads what the other writes; it is here that
loads and stores must not be told from others by their flag, nor volatile accesses by their order.

## Strategy

* `Undisturbed` says of one operation what is needed of two operators; `IsAbout.undisturbed` shows
  it of any two with different names that are about the operation.
* A run amends each instruction at most once (`touch`), so what holds of one amendment holds of the
  run: the second operator finds the same candidates (`candidates_touch`), amends them in the same
  way (`amended?_touch`) and comes to the same answer (`changes_touch`).
* The two programs are then equal because they are instruction by instruction (`touch_comm`).
-/

namespace ConcurrencyFaults

open Program

namespace Operator

variable {first second operator : Operator} {topic : Topic} {program : Program}
  {operation amended : Operation} {candidates : List Candidate} {candidate : Candidate}
  {entry : Placed} {handle : Handle} {request : Nat}

/-! ## Orders and flags

Clearing the flag and writing an order are different components of one operation.
-/

section Volatile

variable {target : AtomicTarget} {onlyAtomic : Bool}

/-- The volatile flag does not matter to what is an access of a kind, nor to its order and scope. -/
theorem kind?_cleared (hcleared : VolatileOperator.cleared? operation = some amended) :
    AtomicOperator.kind? target onlyAtomic amended =
        AtomicOperator.kind? target onlyAtomic operation ∧
      AtomicOperator.access? amended = AtomicOperator.access? operation := by
  cases operation with
  | load | store | compareExchange | update =>
      obtain rfl := Option.some.inj hcleared
      cases target <;> exact ⟨rfl, rfl⟩
  | call | invoke =>
      obtain ⟨-, hcleared⟩ := Option.ite_none_right_eq_some.mp hcleared
      obtain rfl := Option.some.inj hcleared
      cases target <;> exact ⟨rfl, rfl⟩
  | _ => cases hcleared

/-- Order and scope do not matter to what is volatile. -/
theorem volatileKind?_withAccess (program : Program) (order : MemoryOrder) (scope : SyncScope)
    (operation : Operation) :
    MemorySite.volatileKind? program (AtomicOperator.withAccess order scope operation) =
      MemorySite.volatileKind? program operation := by
  cases operation with
  | load _ _ isVolatile | store _ _ isVolatile | update _ _ _ _ _ _ isVolatile
  | compareExchange _ _ _ _ _ _ _ isVolatile => cases isVolatile <;> rfl
  | _ => rfl

theorem cleared?_withAccess (order : MemoryOrder) (scope : SyncScope) (operation : Operation) :
    VolatileOperator.cleared? (AtomicOperator.withAccess order scope operation) =
      (VolatileOperator.cleared? operation).map (AtomicOperator.withAccess order scope) := by
  cases operation with
  | call callee arguments | invoke callee arguments =>
      by_cases hflag : MemorySite.copyFlagArgument < arguments.length
      · simp [VolatileOperator.cleared?, AtomicOperator.withAccess, Operation.arguments?,
          Operation.withArguments, hflag]
      · simp [VolatileOperator.cleared?, AtomicOperator.withAccess, Operation.arguments?, hflag]
  | _ => rfl

/-- The order and scope that a plan gives to an access. -/
def plannedAccess? (plan : AtomicPlan) (request : Nat) (operation : Operation) :
    Option (MemoryOrder × SyncScope) :=
  plan.change.bind fun change => AtomicOperator.decided? plan.target change request operation

theorem amended?_atomic (plan : AtomicPlan) (request : Nat) (site : MemorySite)
    (operation : Operation) :
    (Operator.atomic plan).amended? request (.access site) operation =
      (plannedAccess? plan request operation).map fun (order, scope) =>
        AtomicOperator.withAccess order scope operation := by
  simp only [Operator.amended?, plannedAccess?]
  cases plan.change <;> rfl

theorem plannedAccess?_cleared (hcleared : VolatileOperator.cleared? operation = some amended)
    (plan : AtomicPlan) (request : Nat) :
    plannedAccess? plan request amended = plannedAccess? plan request operation := by
  simp only [plannedAccess?, AtomicOperator.decided?,
    (@kind?_cleared operation amended plan.target false hcleared).2]

end Volatile

/-- A request of the first operator does not keep the second from amending the operation as it
would have done without it. -/
structure Undisturbed (program : Program) (operation : Operation) (first : Operator)
    (request : Nat) (candidate : Candidate) (second : Operator) : Prop where
  kind : second.memoryKind? program (first.amend request candidate operation) =
    second.memoryKind? program operation
  amended? : ∀ later other, second.amended? later other (first.amend request candidate operation) =
    (second.amended? later other operation).map (first.amend request candidate)

theorem undisturbed_of_amend_eq {request : Nat}
    (hsame : ∀ operation, first.amend request candidate operation = operation) :
    Undisturbed program operation first request candidate second := by
  have hid : first.amend request candidate = id := funext hsame
  refine ⟨by rw [hsame], fun later other => ?_⟩
  rw [hsame, hid, Option.map_id]
  rfl

theorem undisturbed_atomic (plan : VolatilePlan) (other : AtomicPlan) (request : Nat)
    (candidate : Candidate) :
    Undisturbed program operation (.volatile plan) request candidate (.atomic other) := by
  cases candidate with
  | call site => exact undisturbed_of_amend_eq fun _ => rfl
  | access site =>
      have hamend (operation : Operation) : (volatile plan).amend request (.access site) operation =
          (VolatileOperator.cleared? operation).getD operation := rfl
      constructor
      · rw [hamend]
        cases hcleared : VolatileOperator.cleared? operation with
        | none => rfl
        | some amended => exact (kind?_cleared hcleared).1
      · intro later found
        cases found with
        | call other => rfl
        | access found =>
            rw [amended?_atomic, amended?_atomic, hamend, Option.map_map]
            cases hcleared : VolatileOperator.cleared? operation with
            | none =>
                -- what has no flag has none under another order
                refine Option.map_congr fun access _ => ?_
                simp [hamend, cleared?_withAccess, hcleared]
            | some amended =>
                rw [Option.getD_some, plannedAccess?_cleared hcleared]
                refine Option.map_congr fun access _ => ?_
                simp [hamend, cleared?_withAccess, hcleared]

theorem undisturbed_volatile (plan : AtomicPlan) (other : VolatilePlan) (request : Nat)
    (candidate : Candidate) :
    Undisturbed program operation (.atomic plan) request candidate (.volatile other) := by
  cases candidate with
  | call site => exact undisturbed_of_amend_eq fun _ => rfl
  | access site =>
      have hamend (operation : Operation) : (atomic plan).amend request (.access site) operation =
          ((plannedAccess? plan request operation).map fun (order, scope) =>
            AtomicOperator.withAccess order scope operation).getD operation := by
        rw [amend, amended?_atomic]
      have hcleared (later : Nat) (found : MemorySite) (operation : Operation) :
          (volatile other).amended? later (.access found) operation =
            VolatileOperator.cleared? operation := rfl
      constructor
      · rw [hamend]
        cases plannedAccess? plan request operation with
        | none => rfl
        | some access => exact volatileKind?_withAccess program access.1 access.2 operation
      · intro later found
        cases found with
        | call other => rfl
        | access found =>
            rw [hcleared, hcleared, hamend]
            -- the order is planned for the access without its flag as for the access with it
            cases hplan : plannedAccess? plan request operation with
            | none =>
                cases hflag : VolatileOperator.cleared? operation with
                | none => simp [hflag]
                | some amended =>
                    simp [hflag, hamend, plannedAccess?_cleared hflag, hplan]
            | some access =>
                rw [Option.map_some, Option.getD_some, cleared?_withAccess]
                refine Option.map_congr fun amended hflag => ?_
                simp [hamend, plannedAccess?_cleared hflag, hplan]

/-- Requests of different operators for one operation do not disturb each other. -/
theorem IsAbout.undisturbed (hfirst : first.IsAbout topic) (hsecond : second.IsAbout topic)
    (hne : first.name ≠ second.name) (request : Nat) (candidate : Candidate) :
    Undisturbed program operation first request candidate second := by
  rcases hfirst.cases_of_both hsecond hne with ⟨plan, other, rfl, rfl⟩ | ⟨plan, other, rfl, rfl⟩
  · exact undisturbed_volatile plan other request candidate
  · exact undisturbed_atomic plan other request candidate

/-! ## Runs in either order

In what follows the first operator has run, with whatever positions, and the second runs next.
-/

theorem memoryKind?_retouch (operator : Operator) (program : Program)
    (change : Handle → Operation → Operation) :
    operator.memoryKind? (program.retouch change) = operator.memoryKind? program := by
  cases operator <;> rfl

theorem seen_eq_none {plan : SemaphorePlan} (hplaced : program.placed? handle = some entry)
    (hother : ¬ (Operator.semaphore plan).IsAbout (program.topic entry.instruction.operation)) :
    SemaphoreOperator.search.seen program handle = none := by
  rw [Option.eq_none_iff_forall_ne_some]
  intro site hseen
  obtain ⟨rfl, hfinds⟩ := CallSearch.seen_eq_some_iff.mp hseen
  exact hother (isAbout_of_finds plan hfinds hplaced)

section Runs

variable {others : List Candidate} {positions later : List Nat} (consistent : program.Consistent)
  (hfirst : first.ChangesAttributes) (hcandidates : first.candidates program = .ok candidates)
  (hne : first.name ≠ second.name)
include consistent hfirst hcandidates

theorem isAbout_of_firstRequest (hplaced : program.placed? handle = some entry)
    (hrequest : firstRequest candidates positions handle = some (request, candidate)) :
    first.IsAbout (program.topic entry.instruction.operation) := by
  obtain ⟨hmem, rfl⟩ := mem_of_firstRequest hrequest
  exact isAbout_of_mem consistent hfirst hcandidates hmem hplaced

omit consistent hfirst hcandidates in
theorem calleesExist_touch (calleesExist : program.CalleesExist) (positions : List Nat) :
    (program.retouch (first.touch candidates positions)).CalleesExist := by
  refine calleesExist.retouch fun handle entry _ => ?_
  cases hrequest : firstRequest candidates positions handle with
  | none => rw [touch_of_eq_none hrequest]
  | some named =>
      rw [touch_of_eq_some hrequest]
      exact (@sameTopic_amend program first named.1 named.2 entry.instruction.operation).2

include hne

/-- A run of another operator neither makes nor unmakes an access that the second one looks for. -/
theorem memoryKind?_touch (hplaced : program.placed? handle = some entry) (positions : List Nat) :
    second.memoryKind? program (first.touch candidates positions handle
        entry.instruction.operation) =
      second.memoryKind? program entry.instruction.operation := by
  cases hrequest : firstRequest candidates positions handle with
  | none => rw [touch_of_eq_none hrequest]
  | some named =>
      have habout := isAbout_of_firstRequest consistent hfirst hcandidates hplaced hrequest
      rw [touch_of_eq_some hrequest]
      by_cases hsecond : second.IsAbout (program.topic entry.instruction.operation)
      · -- both are about the operation, and do not disturb each other
        exact (habout.undisturbed hsecond hne named.1 named.2).kind
      · -- neither operation is one that the second operator is about
        have hnone (operation : Operation)
            (htopic : program.topic operation = program.topic entry.instruction.operation) :
            second.memoryKind? program operation = none := by
          rw [Option.eq_none_iff_forall_ne_some]
          exact fun kind hkind => hsecond (htopic ▸ isAbout_of_memoryKind? hkind)
        rw [hnone _ rfl, hnone _ (sameTopic_amend first named.1 named.2 _).1]

/-- A run of another operator makes no difference to where semaphores are created. -/
theorem seen_touch {plan : SemaphorePlan} (hsecond : second = .semaphore plan)
    (hplaced : program.placed? handle = some entry) (positions : List Nat) :
    SemaphoreOperator.search.seen (program.retouch (first.touch candidates positions)) handle =
      SemaphoreOperator.search.seen program handle := by
  subst hsecond
  cases hrequest : firstRequest candidates positions handle with
  | none =>
      refine CallSearch.seen_congr (placed?_retouch_of_eq hplaced ?_) functions_retouch
      exact touch_of_eq_none hrequest _
  | some named =>
      have habout := isAbout_of_firstRequest consistent hfirst hcandidates hplaced hrequest
      have hother : ¬ (Operator.semaphore plan).IsAbout
          (program.topic entry.instruction.operation) := by
        intro hsemaphore
        rcases habout.cases_of_both hsemaphore hne with ⟨_, _, -, hsame⟩ | ⟨_, _, -, hsame⟩ <;>
          cases hsame
      rw [seen_eq_none hplaced hother]
      refine @seen_eq_none _ _ handle plan (placed?_retouch_of_placed? hplaced) ?_
      have htopic : program.topic (first.touch candidates positions handle
          entry.instruction.operation) = program.topic entry.instruction.operation := by
        rw [touch_of_eq_some hrequest]
        exact (sameTopic_amend first named.1 named.2 _).1
      exact fun hsemaphore => hother (htopic ▸ hsemaphore)

variable (calleesExist : program.CalleesExist) (hsecond : second.ChangesAttributes)
  (hothers : second.candidates program = .ok others)

include calleesExist hsecond hothers in
theorem candidates_touch (positions : List Nat) :
    second.candidates (program.retouch (first.touch candidates positions)) = .ok others := by
  rw [← hothers]
  cases hsearch : second.search? with
  | none =>
      have hfound := @MemorySite.collect_retouch program (first.touch candidates positions)
        (second.memoryKind? program) (second.memoryKind? program) consistent
        fun handle entry hplaced =>
          memoryKind?_touch consistent hfirst hcandidates hne hplaced positions
      simp only [Operator.candidates, hsearch, accesses_eq_collect, memoryKind?_retouch, hfound]
  | some search =>
      cases second with
      | semaphore plan =>
          have hfound := SemaphoreOperator.search.inProgram_retouch consistent calleesExist
            (calleesExist_touch calleesExist positions) fun handle entry hplaced =>
              seen_touch consistent hfirst hcandidates hne rfl hplaced positions
          exact congrArg (Except.map fun found => found.sites.map Candidate.call) hfound
      | fence | atomic | volatile => cases hsearch
      | _ => exact hsecond.elim

include hsecond hothers in
/-- A request for an instruction that both operators amend comes to the same in either order. -/
theorem amended?_touch (hplaced : program.placed? handle = some entry) {found : Candidate}
    (hrequest : firstRequest others later handle = some (request, found)) (positions : List Nat) :
    second.amended? request found (first.touch candidates positions handle
        entry.instruction.operation) =
      (second.amended? request found entry.instruction.operation).map
        (first.touch candidates positions handle) := by
  cases hnamed : firstRequest candidates positions handle with
  | none =>
      have hid : first.touch candidates positions handle = id := funext (touch_of_eq_none hnamed)
      rw [hid, Option.map_id]
      rfl
  | some named =>
      have hamend : first.touch candidates positions handle = first.amend named.1 named.2 :=
        funext (touch_of_eq_some hnamed)
      have habout := isAbout_of_firstRequest consistent hfirst hcandidates hplaced hnamed
      have hother := isAbout_of_firstRequest consistent hsecond hothers hplaced hrequest
      have hundisturbed : Undisturbed program entry.instruction.operation first named.1 named.2
          second := habout.undisturbed hother hne named.1 named.2
      rw [hamend]
      exact hundisturbed.amended? request found

include hsecond hothers

/-- Where both operators amend an instruction, they may do so in either order. -/
theorem touch_comm (hplaced : program.placed? handle = some entry) (positions later : List Nat) :
    second.touch others later handle (first.touch candidates positions handle
        entry.instruction.operation) =
      first.touch candidates positions handle (second.touch others later handle
        entry.instruction.operation) := by
  cases hrequest : firstRequest others later handle with
  | none => rw [touch_of_eq_none hrequest, touch_of_eq_none hrequest]
  | some named =>
      have hamended := amended?_touch consistent hfirst hcandidates hne hsecond hothers hplaced
        hrequest positions
      rw [touch_of_eq_some hrequest, touch_of_eq_some hrequest, amend, hamended, amend]
      cases second.amended? named.1 named.2 entry.instruction.operation <;> rfl

theorem changes_touch (positions later : List Nat) :
    second.changes (program.retouch (first.touch candidates positions)) others later =
      second.changes program others later := by
  have hcounts (handle : Handle) (entry : Placed) (request : Nat) (found : Candidate)
      (hplaced : program.placed? handle = some entry)
      (hrequest : firstRequest others later handle = some (request, found)) :
      second.counts request found (first.touch candidates positions handle
          entry.instruction.operation) =
        second.counts request found entry.instruction.operation := by
    have hamended := amended?_touch consistent hfirst hcandidates hne hsecond hothers hplaced
      hrequest positions
    unfold counts
    split
    · rfl
    · rw [hamended, Option.isSome_map]
  -- an answer is yes if one of the candidates counts, and the same ones do
  rw [Bool.eq_iff_iff, changes_iff (consistent.retouch _), changes_iff consistent]
  constructor
  · rintro ⟨handle, entry, request, found, hplaced, hrequest, hcounted⟩
    rw [placed?_retouch, Option.map_eq_some_iff] at hplaced
    obtain ⟨entry, hplaced, rfl⟩ := hplaced
    exact ⟨handle, entry, request, found, hplaced, hrequest,
      (hcounts handle entry request found hplaced hrequest).symm.trans hcounted⟩
  · rintro ⟨handle, entry, request, found, hplaced, hrequest, hcounted⟩
    exact ⟨handle, _, request, found, placed?_retouch_of_placed? hplaced, hrequest,
      (hcounts handle entry request found hplaced hrequest).trans hcounted⟩

include calleesExist in
/-- After another operator's run, a run does what it would have done before. -/
theorem yields_after (positions : List Nat) (oracle : AliasOracle) :
    second.Yields oracle (program.retouch (first.touch candidates positions))
      (second.changes program others second.positions)
      ((program.retouch (first.touch candidates positions)).retouch
        (second.touch others second.positions)) := by
  have hfound := candidates_touch consistent hfirst hcandidates hne calleesExist hsecond hothers
    positions
  obtain ⟨found, hsame, hlisted⟩ := exists_candidates
    (consistent.retouch (first.touch candidates positions))
    (calleesExist_touch calleesExist positions) second
  obtain rfl := Except.ok.inj (hfound.symm.trans hsame)
  have hyields := yields_retouch (consistent.retouch _) hfound hlisted hsecond oracle
  rwa [changes_touch consistent hfirst hcandidates hne hsecond hothers] at hyields

end Runs

/-- Two different operators on attributes come to the same program and the same answers in either
order. -/
theorem attributes_commute (consistent : program.Consistent) (calleesExist : program.CalleesExist)
    (hfirst : first.ChangesAttributes) (hsecond : second.ChangesAttributes)
    (hne : first.name ≠ second.name) (oracle other : AliasOracle) :
    ∃ answer otherAnswer afterFirst afterSecond afterBoth,
      first.Yields oracle program answer afterFirst ∧
        second.Yields other afterFirst otherAnswer afterBoth ∧
      second.Yields other program otherAnswer afterSecond ∧
        first.Yields oracle afterSecond answer afterBoth := by
  obtain ⟨candidates, hcandidates, hlisted⟩ := exists_candidates consistent calleesExist first
  obtain ⟨others, hothers, hlistedOthers⟩ := exists_candidates consistent calleesExist second
  have hback := yields_after consistent hsecond hothers hne.symm calleesExist hfirst hcandidates
    second.positions oracle
  have hboth : (program.retouch (second.touch others second.positions)).retouch
        (first.touch candidates first.positions) =
      (program.retouch (first.touch candidates first.positions)).retouch
        (second.touch others second.positions) := by
    rw [retouch_retouch, retouch_retouch]
    exact retouch_congr fun handle entry hplaced =>
      (touch_comm consistent hfirst hcandidates hne hsecond hothers hplaced _ _).symm
  exact ⟨_, _, _, _, _, yields_retouch consistent hcandidates hlisted hfirst oracle,
    yields_after consistent hfirst hcandidates hne calleesExist hsecond hothers
      first.positions other,
    yields_retouch consistent hothers hlistedOthers hsecond other, hboth ▸ hback⟩

/-- A volatile atomic store between a fence and a semaphore that is created. -/
def publishedFlag : Program :=
  Command.run [.declare "sem_init" .status, .addFunction "main" .void [], .addBlock 1 "entry",
    .push 1 0 (.ofOperation (.fence .release .crossThread)),
    .push 1 0 (.ofOperation (.store (.global "flag") (.int 32 false 1) true .release .crossThread)),
    .push 1 0 (.ofOperation (.call (.direct 0) [.global "sem", .int 32 false 0, .int 32 false 1]
      .status)),
    .push 1 0 (.ofOperation (.ret none))]
    { name := "published" }

theorem consistent_publishedFlag : publishedFlag.Consistent :=
  Command.consistent_run (Command.consistent_empty "published") _

theorem calleesExist_publishedFlag : publishedFlag.CalleesExist :=
  consistent_publishedFlag.calleesExist_iff.mpr (by decide)

/-- The store is a candidate of both operators: one makes it plain, the other not volatile. -/
theorem attributes_commute_publishedFlag :
    ∃ answer otherAnswer afterFirst afterSecond afterBoth,
      (atomic { target := .store, change := some .makePlain, positions := [0] }).Yields .identity
          publishedFlag answer afterFirst ∧
        (volatile { positions := [0] }).Yields .identity afterFirst otherAnswer afterBoth ∧
      (volatile { positions := [0] }).Yields .identity publishedFlag otherAnswer
          afterSecond ∧
        (atomic { target := .store, change := some .makePlain, positions := [0] }).Yields .identity
          afterSecond answer afterBoth :=
  @attributes_commute (atomic { target := .store, change := some .makePlain, positions := [0] })
    (volatile { positions := [0] }) publishedFlag consistent_publishedFlag
    calleesExist_publishedFlag trivial trivial (by decide) .identity .identity

end Operator

end ConcurrencyFaults

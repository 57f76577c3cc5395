import ConcurrencyFaults.Proofs.Operators.AttributeRuns

/-!
# Toggling scopes

Toggling a scope twice gives it back, and toggling looks at no value that belongs to a request.  A
position is used once, so a run toggles the scopes of the candidates that are requested at all:
order, repetitions and positions out of bounds make no difference (`Operator.touch_congr`).  No
access becomes a candidate or ceases to be one, so another run finds the same positions and undoes
the first (`Operator.toggleScope_undone`).

## Strategy

* A run comes to one `retouch` by `Operator.touch` (`AttributeRuns.lean`), so the statements about
  runs are reduced to statements about one operation.
* For one operation, toggling twice is the identity (`TogglesScope.amend_amend`), and being a
  candidate and counting as a change are invariant (`memoryKind?_amend`, `counts_amend`).
* Which positions are requested matters only through the candidates that they name
  (`requested_cases`), as toggling looks at no request (`amended?_congr`).
-/

namespace ConcurrencyFaults

open Program

@[simp] theorem SyncScope.toggled_toggled (scope : SyncScope) : scope.toggled.toggled = scope := by
  cases scope <;> rfl

/-- Which candidate is requested at a handle does not depend on the request that counts. -/
theorem firstRequest_map_snd (candidates : List Candidate) (positions : List Nat)
    (handle : Handle) :
    (firstRequest candidates positions handle).map Prod.snd =
      (candidates.findIdx? (·.handle == handle)).bind fun position =>
        if position ∈ positions then candidates[position]? else none := by
  unfold firstRequest
  cases candidates.findIdx? (·.handle == handle) with
  | none => rfl
  | some position =>
      by_cases hmem : position ∈ positions
      · obtain ⟨request, hrequest⟩ := exists_findIdx? hmem
        cases hcandidate : candidates[position]? <;> simp [hrequest, hmem, hcandidate]
      · have hnone : positions.findIdx? (· == position) = none :=
          List.findIdx?_eq_none_iff.mpr fun other hother => by
            simpa using fun heq : other = position => hmem (heq ▸ hother)
        simp [hnone, hmem]

/-! ## One access

Order and scope of an access are its attributes.  They can be read and overwritten, and toggling
overwrites them with the old order and the other scope. -/

namespace AtomicOperator

variable {target : AtomicTarget} {request : Nat} {operation amended : Operation}
  {order : MemoryOrder} {scope : SyncScope}

theorem withAccess_self (haccess : access? operation = some (order, scope)) :
    withAccess order scope operation = operation := by
  cases operation with
  | load | store | compareExchange | update =>
      obtain ⟨rfl, rfl⟩ := Prod.mk.inj (Option.some.inj haccess)
      rfl
  | _ => rfl

theorem withAccess_withAccess (order old : MemoryOrder) (scope former : SyncScope)
    (operation : Operation) :
    withAccess order scope (withAccess old former operation) =
      withAccess order scope operation := by
  cases operation <;> rfl

theorem access?_withAccess (order : MemoryOrder) (scope : SyncScope) (operation : Operation) :
    access? (withAccess order scope operation) =
      (access? operation).map fun _ => (order, scope) := by
  cases operation <;> rfl

/-- Every access but a plain load or store has its scope toggled. -/
theorem amended?_toggleScope_eq_some_iff :
    amended? target .toggleScope request operation = some amended ↔
      ∃ order scope, access? operation = some (order, scope) ∧
        (mayBePlain target && !order.isAtomic) = false ∧
          withAccess order scope.toggled operation = amended := by
  rw [amended?, decided?_eq]
  cases access? operation with
  | none => simp
  | some attributes =>
      obtain ⟨order, scope⟩ := attributes
      cases mayBePlain target && !order.isAtomic <;> simp

/-- Where plain accesses are candidates a toggled one stays one, for its order is the same. -/
theorem kind?_withAccess (haccess : access? operation = some (order, scope)) (onlyAtomic : Bool)
    (other : SyncScope) :
    kind? target onlyAtomic (withAccess order other operation) =
      kind? target onlyAtomic operation := by
  cases operation with
  | load | store | compareExchange | update =>
      obtain ⟨rfl, rfl⟩ := Prod.mk.inj (Option.some.inj haccess)
      cases target <;> rfl
  | _ => cases haccess

end AtomicOperator

namespace Operator

/-- Operators that toggle scopes. -/
def TogglesScope : Operator → Prop
  | .fence plan => plan.change = some .toggleScope
  | .atomic plan => plan.change = some .toggleScope
  | _ => False

variable {operator first second : Operator} {program : Program} {candidates : List Candidate}
  {candidate : Candidate} {request : Nat} {operation amended : Operation} {entry : Placed}
  {handle : Handle}

theorem TogglesScope.changesAttributes (htoggles : operator.TogglesScope) :
    operator.ChangesAttributes := by
  cases operator with
  | fence plan =>
      intro hremove
      cases htoggles.symm.trans hremove
  | atomic => trivial
  | _ => exact htoggles.elim

theorem TogglesScope.candidates_eq (htoggles : operator.TogglesScope) (program : Program) :
    operator.candidates program = .ok ((operator.accesses program).map .access) := by
  cases operator with
  | fence | atomic => rfl
  | _ => exact htoggles.elim

theorem TogglesScope.numbersLike_self (htoggles : operator.TogglesScope) :
    operator.NumbersLike operator := by
  cases operator with
  | fence plan => exact .fence plan plan
  | atomic => exact .atomic rfl rfl
  | _ => exact htoggles.elim

/-- What is toggled depends neither on the request nor on the positions. -/
theorem TogglesScope.amended?_congr (hfirst : first.TogglesScope) (hsecond : second.TogglesScope)
    (hlike : first.NumbersLike second) (request other : Nat) (candidate : Candidate)
    (operation : Operation) :
    second.amended? other candidate operation = first.amended? request candidate operation := by
  cases hlike with
  | fence =>
      simp only [TogglesScope] at hfirst hsecond
      cases candidate with
      | call => rfl
      | access site =>
          simp only [amended?, hfirst, hsecond, Option.bind_some]
          rfl
  | atomic htarget =>
      simp only [TogglesScope] at hfirst hsecond
      cases candidate with
      | call => rfl
      | access site =>
          simp only [amended?, hfirst, hsecond, htarget, Option.bind_some]
          rfl
  | _ => exact hfirst.elim

theorem TogglesScope.amended?_amended (htoggles : operator.TogglesScope)
    (hamended : operator.amended? request candidate operation = some amended) (again : Nat) :
    operator.amended? again candidate amended = some operation := by
  cases operator with
  | fence plan =>
      simp only [TogglesScope] at htoggles
      cases candidate with
      | call => cases hamended
      | access site =>
          simp only [amended?, htoggles, Option.bind_some] at hamended ⊢
          cases operation with
          | fence order scope =>
              obtain rfl := Option.some.inj hamended
              simp [FenceOperator.amended?, FenceOperator.fence?]
          | _ => cases hamended
  | atomic plan =>
      simp only [TogglesScope] at htoggles
      cases candidate with
      | call => cases hamended
      | access site =>
          simp only [amended?, htoggles, Option.bind_some] at hamended ⊢
          obtain ⟨order, scope, haccess, hplain, rfl⟩ :=
            AtomicOperator.amended?_toggleScope_eq_some_iff.mp hamended
          refine AtomicOperator.amended?_toggleScope_eq_some_iff.mpr
            ⟨order, scope.toggled, ?_, hplain, ?_⟩
          · rw [AtomicOperator.access?_withAccess, haccess, Option.map_some]
          · rw [SyncScope.toggled_toggled, AtomicOperator.withAccess_withAccess,
              AtomicOperator.withAccess_self haccess]
  | _ => exact htoggles.elim

/-- Toggling twice leaves the operation. -/
theorem TogglesScope.amend_amend (htoggles : operator.TogglesScope) (request again : Nat)
    (candidate : Candidate) (operation : Operation) :
    operator.amend again candidate (operator.amend request candidate operation) = operation := by
  cases hamended : operator.amended? request candidate operation with
  | none =>
      have hagain := (htoggles.amended?_congr htoggles htoggles.numbersLike_self request again
        candidate operation).trans hamended
      simp [amend, hamended, hagain]
  | some amended => simp [amend, hamended, htoggles.amended?_amended hamended again]

theorem TogglesScope.counts_congr (hfirst : first.TogglesScope) (hsecond : second.TogglesScope)
    (hlike : first.NumbersLike second) (request other : Nat) (candidate : Candidate)
    (operation : Operation) :
    second.counts other candidate operation = first.counts request candidate operation := by
  have hamended := hfirst.amended?_congr hsecond hlike request other candidate operation
  cases hlike with
  | fence =>
      simp only [TogglesScope] at hfirst hsecond
      cases candidate with
      | call => rfl
      | access site => simp only [counts, hfirst, hsecond]
  | atomic => simp only [counts, hamended]
  | _ => exact hfirst.elim

theorem TogglesScope.counts_amend (htoggles : operator.TogglesScope) (request : Nat)
    (candidate : Candidate) (operation : Operation) :
    operator.counts request candidate (operator.amend request candidate operation) =
      operator.counts request candidate operation := by
  have hsame : (operator.amended? request candidate
      (operator.amend request candidate operation)).isSome =
        (operator.amended? request candidate operation).isSome := by
    cases hamended : operator.amended? request candidate operation with
    | none => simp [amend, hamended]
    | some amended => simp [amend, hamended, htoggles.amended?_amended hamended request]
  unfold counts
  split
  · rfl
  · exact hsame

theorem TogglesScope.memoryKind?_eq (htoggles : operator.TogglesScope) (program other : Program) :
    operator.memoryKind? program = operator.memoryKind? other := by
  cases operator with
  | fence | atomic => rfl
  | _ => exact htoggles.elim

/-- Toggling makes no candidate of an operation that is none, and leaves those that are. -/
theorem TogglesScope.memoryKind?_amend (htoggles : operator.TogglesScope) (program : Program)
    (request : Nat) (candidate : Candidate) (operation : Operation) :
    operator.memoryKind? program (operator.amend request candidate operation) =
      operator.memoryKind? program operation := by
  cases operator with
  | fence plan =>
      simp only [TogglesScope] at htoggles
      cases candidate with
      | call => rfl
      | access site =>
          cases operation <;> simp only [amend, amended?, htoggles] <;> rfl
  | atomic plan =>
      simp only [TogglesScope] at htoggles
      cases candidate with
      | call => rfl
      | access site =>
          simp only [amend, amended?, htoggles, Option.bind_some, memoryKind?]
          cases hamended : AtomicOperator.amended? plan.target .toggleScope request operation with
          | none => rfl
          | some amended =>
              obtain ⟨order, scope, haccess, -, rfl⟩ :=
                AtomicOperator.amended?_toggleScope_eq_some_iff.mp hamended
              exact AtomicOperator.kind?_withAccess haccess _ _
  | _ => exact htoggles.elim

/-! ## Whole runs

What remains is to carry the laws of one operation over to all handles at once. -/

section Runs

variable {positions others : List Nat}

/-- Lists of positions that name the same candidates request the same instructions, only by other
requests. -/
theorem requested_cases
    (hpositions : ∀ position < candidates.length, position ∈ positions ↔ position ∈ others)
    (handle : Handle) :
    (firstRequest candidates positions handle = none ∧
        firstRequest candidates others handle = none) ∨
      ∃ request other candidate,
        firstRequest candidates positions handle = some (request, candidate) ∧
          firstRequest candidates others handle = some (other, candidate) := by
  have hsame : (firstRequest candidates positions handle).map Prod.snd =
      (firstRequest candidates others handle).map Prod.snd := by
    simp only [firstRequest_map_snd]
    cases hplace : candidates.findIdx? (·.handle == handle) with
    | none => rfl
    | some position =>
        obtain ⟨hlt, -⟩ := List.findIdx?_eq_some_iff_getElem.mp hplace
        simp only [Option.bind_some, hpositions position hlt]
  cases hrequest : firstRequest candidates positions handle with
  | none =>
      rw [hrequest, Option.map_none] at hsame
      exact Or.inl ⟨rfl, Option.map_eq_none_iff.mp hsame.symm⟩
  | some named =>
      obtain ⟨request, candidate⟩ := named
      rw [hrequest, Option.map_some] at hsame
      obtain ⟨⟨other, _⟩, hother, rfl⟩ := Option.map_eq_some_iff.mp hsame.symm
      exact Or.inr ⟨request, other, _, rfl, hother⟩

section Congr

variable (hfirst : first.TogglesScope) (hsecond : second.TogglesScope)
  (hlike : first.NumbersLike second)
  (hpositions : ∀ position < candidates.length, position ∈ positions ↔ position ∈ others)

include hfirst hsecond hlike hpositions

/-- Requests that name the same candidates toggle the same scopes. -/
theorem touch_congr : first.touch candidates positions = second.touch candidates others := by
  funext handle operation
  rcases requested_cases hpositions handle with
    ⟨hnone, hother⟩ | ⟨request, other, candidate, hrequest, hother⟩
  · rw [touch_of_eq_none hnone, touch_of_eq_none hother]
  · rw [touch_of_eq_some hrequest, touch_of_eq_some hother, amend, amend,
      hfirst.amended?_congr hsecond hlike request other]

theorem changes_congr (program : Program) :
    first.changes program candidates positions = second.changes program candidates others := by
  unfold changes
  refine congrArg program.handles.any (funext fun handle => ?_)
  rcases requested_cases hpositions handle with
    ⟨hnone, hother⟩ | ⟨request, other, candidate, hrequest, hother⟩
  · rw [hnone, hother]
    rfl
  · simp only [hrequest, hother, Option.any_some, hfirst.counts_congr hsecond hlike request other]

end Congr

variable (htoggles : operator.TogglesScope) (candidates positions)

include htoggles

theorem TogglesScope.touch_touch (handle : Handle) (operation : Operation) :
    operator.touch candidates positions handle (operator.touch candidates positions handle
      operation) = operation := by
  cases hrequest : firstRequest candidates positions handle with
  | none => rw [touch_of_eq_none hrequest, touch_of_eq_none hrequest]
  | some named =>
      rw [touch_of_eq_some hrequest, touch_of_eq_some hrequest, htoggles.amend_amend]

theorem TogglesScope.changes_retouch (program : Program) :
    operator.changes (program.retouch (operator.touch candidates positions)) candidates positions =
      operator.changes program candidates positions := by
  unfold changes
  rw [handles_retouch]
  refine congrArg program.handles.any (funext fun handle => ?_)
  cases hrequest : firstRequest candidates positions handle with
  | none => rfl
  | some named =>
      obtain ⟨request, candidate⟩ := named
      simp only [Option.any_some, instruction?_retouch, Option.any_map,
        touch_of_eq_some hrequest, Instruction.withOperation, htoggles.counts_amend]

/-- The candidates are found in the same places after a run. -/
theorem TogglesScope.accesses_touch (consistent : program.Consistent) :
    operator.accesses (program.retouch (operator.touch candidates positions)) =
      operator.accesses program := by
  rw [accesses_eq_collect, accesses_eq_collect, htoggles.memoryKind?_eq _ program]
  refine MemorySite.collect_retouch consistent fun handle entry _ => ?_
  cases hrequest : firstRequest candidates positions handle with
  | none => rw [touch_of_eq_none hrequest]
  | some named => rw [touch_of_eq_some hrequest, htoggles.memoryKind?_amend]

/-- After a run, a run with the same positions gives every scope back. -/
theorem TogglesScope.yields_back (consistent : program.Consistent)
    (hcandidates : operator.candidates program = .ok candidates) (oracle : AliasOracle) :
    operator.Yields oracle (program.retouch (operator.touch candidates operator.positions))
      (operator.changes program candidates operator.positions) program := by
  -- this run finds the candidates that the first one found
  have hagain : operator.candidates
      (program.retouch (operator.touch candidates operator.positions)) = .ok candidates := by
    rw [htoggles.candidates_eq, htoggles.accesses_touch candidates _ consistent,
      ← htoggles.candidates_eq, hcandidates]
  have listed : Listed (program.retouch (operator.touch candidates operator.positions))
      candidates := by
    have haccesses := listed_accesses (consistent.retouch
      (operator.touch candidates operator.positions)) operator
    rwa [Except.ok.inj ((htoggles.candidates_eq _).symm.trans hagain)] at haccesses
  have hyields := yields_retouch (consistent.retouch _) hagain listed htoggles.changesAttributes
    oracle
  -- the two runs together write every operation over itself
  have hback : program.retouch (fun handle operation =>
      operator.touch candidates operator.positions handle
        (operator.touch candidates operator.positions handle operation)) = program :=
    retouch_eq_self fun handle entry _ => htoggles.touch_touch candidates _ handle _
  rwa [htoggles.changes_retouch, retouch_retouch, hback] at hyields

end Runs

/-- Two operators that request the same candidates toggle the same scopes with the same answer, and
what one of them toggled it gives back with that answer when it is run again. -/
theorem toggleScope_undone (consistent : program.Consistent) (hfirst : first.TogglesScope)
    (hsecond : second.TogglesScope) (hlike : first.NumbersLike second)
    (hpositions : ∀ position < (first.accesses program).length,
      position ∈ first.positions ↔ position ∈ second.positions)
    (oracle other later : AliasOracle) :
    ∃ answer after, first.Yields oracle program answer after ∧
      second.Yields other program answer after ∧ first.Yields later after answer program := by
  have hcandidates := hfirst.candidates_eq program
  have listed := listed_accesses consistent first
  have hnamed : ∀ position < ((first.accesses program).map Candidate.access).length,
      position ∈ first.positions ↔ position ∈ second.positions := by
    rwa [List.length_map]
  refine ⟨_, _, yields_retouch consistent hcandidates listed hfirst.changesAttributes oracle,
    ?_, hfirst.yields_back _ consistent hcandidates later⟩
  rw [touch_congr hfirst hsecond hlike hnamed, changes_congr hfirst hsecond hlike hnamed]
  exact yields_retouch consistent ((hlike.candidates_eq program).trans hcandidates) listed
    hsecond.changesAttributes other

/-- Two fences around a flag that is set atomically. -/
def fencedFlag : Program :=
  Command.run [.addFunction "main" .void [], .addBlock 0 "entry",
    .push 0 0 (.ofOperation (.fence .release .crossThread)),
    .push 0 0 (.ofOperation
      (.store (.global "flag") (.int 32 false 1) false .monotonic .singleThread)),
    .push 0 0 (.ofOperation (.fence .acquire .singleThread)),
    .push 0 0 (.ofOperation (.ret none))]
    { name := "fenced" }

theorem consistent_fencedFlag : fencedFlag.Consistent :=
  Command.consistent_run (Command.consistent_empty "fenced") _

/-- Requests for both fences, in order and then turned around with a repetition and a position that
is out of bounds. -/
theorem toggleScope_undone_fencedFlag :
    ∃ answer after,
      (fence { change := some .toggleScope, positions := [0, 1] }).Yields .identity fencedFlag
          answer after ∧
        (fence { change := some .toggleScope, positions := [1, 7, 0, 1] }).Yields .identity
          fencedFlag answer after ∧
        (fence { change := some .toggleScope, positions := [0, 1] }).Yields .identity after
          answer fencedFlag :=
  @toggleScope_undone (fence { change := some .toggleScope, positions := [0, 1] })
    (fence { change := some .toggleScope, positions := [1, 7, 0, 1] }) fencedFlag
    consistent_fencedFlag rfl rfl (.fence _ _) (by decide) .identity .identity .identity

end Operator

end ConcurrencyFaults

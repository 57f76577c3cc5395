import ConcurrencyFaults.Proofs.Closed.Insertions
import ConcurrencyFaults.Proofs.Closed.Locks
import ConcurrencyFaults.Proofs.Operators

/-!
# Operands stay local

Operators that remove calls, insert code or overwrite accesses keep a program closed: every result
that is read is the result of a live instruction of the reader's function.  Operators that put
copies of calls in the place of calls do so if the calls they are asked about do not read each
other's results, and an exchange of locks needs calls that can read each other's arguments besides.
Without these a copy may name an instruction that an earlier request erased, or one of another
function.

What single edits, handlers and modes do was shown in the modules before; here the operators are put
together (`Operator.runs_run_sealed`), under one hypothesis for those that copy calls and one for
those that exchange them.  Each of the three theorems about whole runs is followed by a run that it
applies to, and the last two by a run that shows what their hypotheses are good for.
-/

namespace ConcurrencyFaults

open Program Work

variable {program : Program} {workspace : Workspace}

/-! ## Single calls

A run that copies calls has to look at the requested calls all at once: a copy made for one request
may name a call that another request is about.
-/

namespace CallSearch

/-- The calls that some positions name. -/
def requested (search : CallSearch) (positions : List Nat) (program : Program) : List CallSite :=
  match search.inProgram program with
  | .ok found => found.atPositions positions
  | .error _ => []

variable {search : CallSearch} {positions : List Nat} {pass : String}
  {handle : Nat → CallSite → Work Bool}

/-- A run that asks for independent calls keeps the program sealed if each request does. -/
theorem runs_handle_sealed (sealed : workspace.program.Sealed)
    (hindependent : Independent (search.requested positions workspace.program))
    (hstep : ∀ request site state, state.program.Sealed → site.Intact state.program →
      site.Grounded state.program →
        Runs (handle request site) state
          (fun _ after => Settled [site.handle] state after ∧ after.program.Sealed)
          (fun _ after => after.program.Sealed)) :
    Runs (do
      let found ← Work.query search.inProgram
      Work.anyCall pass found positions handle) workspace
      (fun _ after => after.program.Sealed) (fun _ after => after.program.Sealed) := by
  refine runs_bind_query_of (fun found hfound => ?_) fun _ _ => sealed
  have hrequested : search.requested positions workspace.program = found.atPositions positions := by
    simp only [requested, hfound]
  rw [hrequested] at hindependent
  have hfinds : ∀ site ∈ found.sites, search.Finds workspace.program site :=
    fun site hmem => finds_of_inProgram hfound hmem
  exact (runs_anyCall_copying hindependent
    (fun site hsite => CallSite.grounded_of_finds sealed.closed (hfinds site hsite))
    (Copying.of_finds sealed hfinds _ rfl) hstep).weaken fun _ _ copying => copying.toSealed

end CallSearch

namespace SignalOperator

theorem keeps_remove (site : CallSite) : Work.Keeps Sealed (SignalOperator.apply .remove site) := by
  unfold SignalOperator.apply
  split
  · exact keeps_skip _
  · exact Condition.keeps_remove name site

theorem runs_run_sealed (sealed : workspace.program.Sealed) (plan : SignalPlan)
    (hindependent : plan.change = some .swap →
      Independent (search.requested plan.positions workspace.program)) :
    Runs (run plan) workspace (fun _ after => after.program.Sealed)
      (fun _ after => after.program.Sealed) := by
  unfold run
  cases hchange : plan.change with
  | none => exact runs_pure sealed
  | some change =>
      have hsearch : ∀ ledger, Runs (do
          let found ← Work.query search.inProgram
          Work.anyCall name found plan.positions fun _ site => apply change site)
          { workspace with ledger } (fun _ after => after.program.Sealed)
          (fun _ after => after.program.Sealed) := by
        intro ledger
        cases change with
        | remove =>
            exact ((keeps_query _).bind fun _ => keeps_anyCall fun _ site _ => keeps_remove site)
              { workspace with ledger } sealed
        | swap =>
            refine @CallSearch.runs_handle_sealed { workspace with ledger } _ _ _ _ sealed
              (hindependent hchange) fun _ site state sealed hintact hgrounded => ?_
            exact (runs_apply sealed.toConsistent hintact .swap).and
              (runs_swap_sealed sealed hgrounded)
      dsimp only
      split
      · exact runs_bind_warn (hsearch _)
      · exact hsearch workspace.ledger

end SignalOperator

namespace WaitOperator

theorem runs_run_sealed (sealed : workspace.program.Sealed) (plan : WaitPlan)
    (hindependent : plan.change = some .untime →
      Independent (search.requested plan.positions workspace.program)) :
    Runs (run plan) workspace (fun _ after => after.program.Sealed)
      (fun _ after => after.program.Sealed) := by
  unfold run
  cases hchange : plan.change with
  | none => exact runs_pure sealed
  | some change =>
      cases change with
      | remove =>
          exact ((keeps_query _).bind fun _ => keeps_anyCall fun _ site _ =>
            Condition.keeps_remove name site) workspace sealed
      | untime =>
          refine CallSearch.runs_handle_sealed sealed (hindependent hchange)
            fun request site state sealed hintact hgrounded => ?_
          exact (runs_apply sealed.toConsistent hintact .untime request).and
            (runs_untime_sealed sealed hgrounded)
      | timeout seconds nanoseconds points =>
          -- nothing is taken away, so the arguments that were captured are still to be had
          refine runs_bind_query_of (fun found hfound => ?_) fun _ _ => sealed
          have hkeeps : Work.Keeps workspace.program.Extended (Work.anyCall name found
              plan.positions (apply (.timeout seconds nanoseconds points))) :=
            keeps_anyCall fun request site hsite => keeps_moveDeadline
              (CallSite.grounded_of_finds sealed.closed
                (CallSearch.finds_of_inProgram hfound hsite)) _ _ _
          exact (hkeeps workspace (Extended.refl sealed)).imp
            (fun _ _ extended => extended.toSealed) fun _ _ extended => extended.toSealed

end WaitOperator

/-! ## Lock pairs

Matching the pairs does not touch the program, so what is known of it holds when the requests begin.
-/

/-- The pairs that a run on the program finds. -/
def PairIndex.ofProgram (oracle : AliasOracle) (program : Program) : PairIndex :=
  match findings oracle program with
  | .ok results => ofFindings results
  | .error _ => .empty

namespace LockOperator

/-- The calls of the pairs that a plan names. -/
def requested (plan : LockPlan) (oracle : AliasOracle) (program : Program) : List CallSite :=
  sidesOf (requestedPairs (.ofProgram oracle program) plan)

theorem runs_run_sealed (sealed : workspace.program.Sealed) (plan : LockPlan)
    (oracle : AliasOracle)
    (hindependent : plan.mode = some .shift ∨ plan.mode = some .swap →
      Independent (requested plan oracle workspace.program))
    (hexchanges : plan.mode = some .swap →
      Exchanges (.ofProgram oracle workspace.program) plan) :
    Runs (run plan oracle) workspace (fun _ after => after.program.Sealed)
      (fun _ after => after.program.Sealed) := by
  unfold run
  cases hmode : plan.mode with
  | none => exact runs_pure sealed
  | some mode =>
      refine ((PairIndex.runs_build oracle workspace).imp (fun _ _ hbuilt => hbuilt) ?_).bind ?_
      · rintro problem after ⟨hprogram, -⟩
        exact hprogram ▸ sealed
      rintro index ⟨program, ledger⟩ ⟨rfl, results, hresults, rfl⟩
      -- the index consists of calls that the search found, with arguments that are all local
      obtain ⟨found, hfinds, hmatched⟩ := PairIndex.exists_found hresults
      have hgrounded : ∀ site ∈ found.sites, site.Grounded workspace.program := fun site hsite =>
        CallSite.grounded_of_finds sealed.closed (hfinds site hsite)
      have hindex : PairIndex.ofProgram oracle workspace.program = .ofFindings results := by
        simp only [PairIndex.ofProgram, hresults]
      have copying : Copying workspace.program found.sites
          (requested plan oracle workspace.program) { workspace with ledger } :=
        Copying.of_finds sealed hfinds _ rfl
      have hrequested : sidesOf (requestedPairs (.ofFindings results) plan) ⊆
          requested plan oracle workspace.program := by
        rw [requested, hindex]
        exact List.Subset.refl _
      cases mode with
      | remove => exact keeps_remove _ plan { workspace with ledger } sealed
      | split =>
          have hpairs : ∀ pair ∈ (PairIndex.ofFindings results).pairs,
              pair.Grounded workspace.program := fun pair hpair =>
            (hmatched pair hpair).grounded sealed.closed hfinds
          exact (keeps_split hpairs plan { workspace with ledger } (Extended.refl sealed)).imp
            (fun _ _ extended => extended.toSealed) fun _ _ extended => extended.toSealed
      | shift =>
          exact (runs_shift_copying (hindependent (Or.inl hmode)) hgrounded copying hmatched
            hrequested).weaken fun _ _ copying => copying.toSealed
      | swap =>
          exact (runs_swap_copying (hindependent (Or.inr hmode)) hgrounded hfinds copying hmatched
            hrequested (hindex ▸ hexchanges hmode)).weaken fun _ _ copying => copying.toSealed

end LockOperator

/-! ## Operators -/

namespace Operator

/-- The operator builds other calls from the calls that its plan names. -/
def copiesCalls : Operator → Bool
  | .lock plan => plan.mode == some .shift
  | .signal plan => plan.change == some .swap
  | .wait plan => plan.change == some .untime
  | _ => false

/-- The operator lets lock pairs change places. -/
def exchangesCalls : Operator → Bool
  | .lock plan => plan.mode == some .swap
  | _ => false

/-- The calls that the plan of an operator names, if it can copy or exchange calls. -/
def requested (operator : Operator) (oracle : AliasOracle) (program : Program) : List CallSite :=
  match operator with
  | .lock plan => LockOperator.requested plan oracle program
  | .signal plan => SignalOperator.search.requested plan.positions program
  | .wait plan => WaitOperator.search.requested plan.positions program
  | _ => []

theorem runs_run_sealed (sealed : workspace.program.Sealed) (operator : Operator)
    (oracle : AliasOracle) (hexchanges : operator.exchangesCalls = false)
    (hindependent : operator.copiesCalls = true →
      Independent (operator.requested oracle workspace.program)) :
    Runs (operator.run oracle) workspace (fun _ after => after.program.Sealed)
      (fun _ after => after.program.Sealed) := by
  cases operator with
  | lock plan =>
      have hswap : plan.mode ≠ some .swap := by simpa [exchangesCalls] using hexchanges
      refine LockOperator.runs_run_sealed sealed plan oracle (fun hmode => ?_) fun hmode =>
        absurd hmode hswap
      exact hindependent (by simpa [copiesCalls] using hmode.resolve_right hswap)
  | fence plan => exact FenceOperator.keeps_run plan workspace sealed
  | atomic plan => exact AtomicOperator.keeps_run plan workspace sealed
  | volatile plan => exact VolatileOperator.keeps_run plan workspace sealed
  | semaphore plan => exact SemaphoreOperator.keeps_run plan workspace sealed
  | join plan => exact JoinOperator.keeps_run plan workspace sealed
  | signal plan =>
      exact SignalOperator.runs_run_sealed sealed plan fun hchange =>
        hindependent (by simpa [copiesCalls] using hchange)
  | wait plan =>
      exact WaitOperator.runs_run_sealed sealed plan fun hchange =>
        hindependent (by simpa [copiesCalls] using hchange)
  | yield plan => exact YieldOperator.keeps_run plan workspace sealed

/-- An operator that copies calls exchanges none. -/
theorem exchangesCalls_of_copiesCalls {operator : Operator}
    (hcopies : operator.copiesCalls = true) :
    operator.exchangesCalls = false := by
  cases operator with
  | lock plan =>
      have hmode : plan.mode = some .shift := by simpa [copiesCalls] using hcopies
      simp [exchangesCalls, hmode]
  | _ => rfl

/-! ### Neither copies nor exchanges -/

/-- A closed program is closed after a run that neither copies nor exchanges calls, whether the run
answered or was stopped. -/
theorem closed_after_run (consistent : workspace.program.Consistent)
    (closed : workspace.program.Closed) (operator : Operator) (oracle : AliasOracle)
    (hcopies : operator.copiesCalls = false) (hexchanges : operator.exchangesCalls = false) :
    Runs (operator.run oracle) workspace (fun _ after => after.program.Closed)
      (fun _ after => after.program.Closed) := by
  have hruns := runs_run_sealed ⟨consistent, closed⟩ operator oracle hexchanges fun hcopied =>
    absurd (hcopies.symm.trans hcopied) Bool.false_ne_true
  exact hruns.imp (fun _ _ sealed => sealed.closed) fun _ _ sealed => sealed.closed

/-- Two signals, the second on the result of the first. -/
def chainedSignals : Program :=
  Command.run [.declare "pthread_cond_signal" .pointer, .addFunction "main" .void [],
    .addBlock 1 "entry",
    .push 1 0 (.ofOperation (.call (.direct 0) [.global "cond"] .pointer)),
    .push 1 0 (.ofOperation (.call (.direct 0) [.result ⟨0, 0⟩] .pointer)),
    .push 1 0 (.ofOperation (.ret none))]
    { name := "signals" }

theorem consistent_chainedSignals : chainedSignals.Consistent :=
  Command.consistent_run (Command.consistent_empty "signals") _

theorem closed_chainedSignals : chainedSignals.Closed :=
  consistent_chainedSignals.closed_iff.mpr (by decide)

/-- The first signal is gone, and so is what read its result. -/
theorem closed_after_removal :
    Runs ((Operator.signal { change := some .remove, positions := [0, 1] }).run .identity)
      { program := chainedSignals } (fun _ after => after.program.Closed)
      (fun _ after => after.program.Closed) :=
  @closed_after_run { program := chainedSignals } consistent_chainedSignals closed_chainedSignals
    _ _ rfl rfl

/-! ### Copies -/

/-- A closed program is closed after a run that copies calls, if none of them reads the result of
one of them. -/
theorem closed_after_copies (consistent : workspace.program.Consistent)
    (closed : workspace.program.Closed) (operator : Operator) (oracle : AliasOracle)
    (hcopies : operator.copiesCalls = true)
    (hindependent : Independent (operator.requested oracle workspace.program)) :
    Runs (operator.run oracle) workspace (fun _ after => after.program.Closed)
      (fun _ after => after.program.Closed) := by
  have hruns := runs_run_sealed ⟨consistent, closed⟩ operator oracle
    (exchangesCalls_of_copiesCalls hcopies) fun _ => hindependent
  exact hruns.imp (fun _ _ sealed => sealed.closed) fun _ _ sealed => sealed.closed

/-- A broadcast takes the place of the second signal and reads the result of the first. -/
theorem closed_after_one_copy :
    Runs ((Operator.signal { change := some .swap, positions := [1] }).run .identity)
      { program := chainedSignals } (fun _ after => after.program.Closed)
      (fun _ after => after.program.Closed) :=
  @closed_after_copies { program := chainedSignals } consistent_chainedSignals
    closed_chainedSignals _ _ rfl (by decide)

/-- If the lists show an operand that is not local to the function of its reader, the program is not
closed. -/
theorem exists_not_closed {Answer : Type} {work : Work Answer}
    (hruns : Runs work workspace (fun _ after => ¬ ∀ reader ∈ after.program.handles,
      ∀ entry ∈ after.program.placed? reader, ∀ operand ∈ entry.instruction.operation.operands,
        after.program.Local entry.function operand) fun _ _ => False) :
    ∃ answer after, work workspace = .ok answer after ∧ ¬ after.program.Closed :=
  (hruns.weaken fun _ _ hdangling (closed : Program.Closed _) => hdangling
    fun reader _ entry hplaced => closed reader entry hplaced).exists_ok

/-- Where both signals become broadcasts, the second reads the result of a signal that is gone. -/
theorem dangling_after_copies :
    chainedSignals.Consistent ∧ chainedSignals.Closed ∧
    (Operator.signal { change := some .swap, positions := [0, 1] }).check = .ok () ∧
    ∃ modified after,
      (Operator.signal { change := some .swap, positions := [0, 1] }).run .identity
        { program := chainedSignals } = .ok modified after ∧ ¬ after.program.Closed :=
  ⟨consistent_chainedSignals, closed_chainedSignals, rfl, exists_not_closed (by decide +kernel)⟩

/-! ### Exchanges -/

/-- In every mode, an exchange of pairs included, the lock operator keeps a program closed if no
requested call reads the result of one and calls that change places can read each other's
arguments. -/
theorem closed_after_exchange (consistent : workspace.program.Consistent)
    (closed : workspace.program.Closed) (plan : LockPlan) (oracle : AliasOracle)
    (hindependent : Independent (LockOperator.requested plan oracle workspace.program))
    (hexchanges : LockOperator.Exchanges (.ofProgram oracle workspace.program) plan) :
    Runs ((Operator.lock plan).run oracle) workspace (fun _ after => after.program.Closed)
      (fun _ after => after.program.Closed) := by
  have hruns := LockOperator.runs_run_sealed ⟨consistent, closed⟩ plan oracle
    (fun _ => hindependent) fun _ => hexchanges
  exact hruns.imp (fun _ _ sealed => sealed.closed) fun _ _ sealed => sealed.closed

/-- One function with two local mutexes and one with a third.  It is not to be unfolded, lest runs
on it are evaluated in passing. -/
@[irreducible] def localLocks : Program :=
  Command.run [.declare "pthread_mutex_lock" .status, .declare "pthread_mutex_unlock" .status,
    .addFunction "first" .void [], .addBlock 2 "entry",
    .push 2 0 (.ofOperation (.other "alloca" [] .pointer)),
    .push 2 0 (.ofOperation (.other "alloca" [] .pointer)),
    .push 2 0 (.ofOperation (.call (.direct 0) [.result ⟨0, 0⟩] .status)),
    .push 2 0 (.ofOperation (.call (.direct 1) [.result ⟨0, 0⟩] .status)),
    .push 2 0 (.ofOperation (.call (.direct 0) [.result ⟨1, 0⟩] .status)),
    .push 2 0 (.ofOperation (.call (.direct 1) [.result ⟨1, 0⟩] .status)),
    .push 2 0 (.ofOperation (.ret none)), .addFunction "second" .void [], .addBlock 3 "entry",
    .push 3 0 (.ofOperation (.other "alloca" [] .pointer)),
    .push 3 0 (.ofOperation (.call (.direct 0) [.result ⟨7, 0⟩] .status)),
    .push 3 0 (.ofOperation (.call (.direct 1) [.result ⟨7, 0⟩] .status)),
    .push 3 0 (.ofOperation (.ret none))]
    { name := "locals" }

theorem consistent_localLocks : localLocks.Consistent := by
  unfold localLocks
  exact Command.consistent_run (Command.consistent_empty "locals") _

theorem closed_localLocks : localLocks.Closed :=
  consistent_localLocks.closed_iff.mpr (by decide +kernel)

/-- The two pairs of the first function may change places. -/
theorem closed_after_local_exchange :
    Runs ((Operator.lock { mode := some .swap, positions := [0, 0, 0, 1] }).run .identity)
      { program := localLocks } (fun _ after => after.program.Closed)
      (fun _ after => after.program.Closed) :=
  @closed_after_exchange { program := localLocks } consistent_localLocks closed_localLocks _ _
    (by decide +kernel) (by decide +kernel)

/-- Pairs of two functions cannot: each call still reads the mutex of the function that it left. -/
theorem dangling_after_exchange :
    localLocks.Consistent ∧ localLocks.Closed ∧
    (Operator.lock { mode := some .swap, positions := [0, 0, 0, 2] }).check = .ok () ∧
    ∃ modified after,
      (Operator.lock { mode := some .swap, positions := [0, 0, 0, 2] }).run .identity
        { program := localLocks } = .ok modified after ∧ ¬ after.program.Closed :=
  ⟨consistent_localLocks, closed_localLocks, rfl, exists_not_closed (by decide +kernel)⟩

end Operator

end ConcurrencyFaults

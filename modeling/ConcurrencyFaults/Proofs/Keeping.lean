import ConcurrencyFaults.Proofs.Requests

/-!
# Invariants that every step keeps

An action keeps an invariant if it leads from states of the invariant to states of the invariant,
answered or refused (`Keeps`).  This follows the shape of the action: a sequence keeps what its
parts keep (`Keeps.bind`), and so does handling requests one after another (`Keeps.foldlM`).  Where
a step relies on the answer before it, `Keeps.bind_known` hands over what is known of that answer.

For work the invariants are about the program alone.  Questions and notes then keep all of them, so
what is left to look at are the edits.
-/

namespace ConcurrencyFaults

variable {Error State Answer Other Request : Type}

/-- From every state of the invariant the action ends in one, whether it answers or is refused. -/
def Keeps (invariant : State → Prop) (action : EStateM Error State Answer) : Prop :=
  ∀ state, invariant state → Runs action state (fun _ => invariant) (fun _ => invariant)

theorem Runs.and {action : EStateM Error State Answer} {state : State}
    {first second : Answer → State → Prop} {refused : Error → State → Prop}
    (hfirst : Runs action state first refused) (hsecond : Runs action state second refused) :
    Runs action state (fun answer after => first answer after ∧ second answer after) refused := by
  unfold Runs at *
  split <;> simp_all

/-- What is known of the answers alone is known together with what is known of refusals. -/
theorem Runs.and_answered {action : EStateM Error State Answer} {state : State}
    {first second : Answer → State → Prop} {refused : Error → State → Prop}
    (hfirst : Runs action state first refused)
    (hsecond : Runs action state second fun _ _ => True) :
    Runs action state (fun answer after => first answer after ∧ second answer after) refused := by
  unfold Runs at *
  split <;> simp_all

namespace Keeps

variable {invariant : State → Prop} {action : EStateM Error State Answer}

theorem pure (answer : Answer) :
    Keeps invariant (Pure.pure answer : EStateM Error State Answer) :=
  fun _ hstate => runs_pure hstate

theorem bind {next : Answer → EStateM Error State Other} (hfirst : Keeps invariant action)
    (hnext : ∀ answer, Keeps invariant (next answer)) : Keeps invariant (action >>= next) :=
  fun state hstate => (hfirst state hstate).bind fun answer after => hnext answer after

theorem answered (hkeeps : Keeps invariant action) {state : State} (hstate : invariant state) :
    Runs action state (fun _ => invariant) fun _ _ => True :=
  (hkeeps state hstate).imp (fun _ _ hafter => hafter) fun _ _ _ => trivial

/-- What follows may rely on what is known of the answer. -/
theorem bind_known {next : Answer → EStateM Error State Other} {known : Answer → Prop}
    (hfirst : Keeps invariant action)
    (hknown : ∀ state, invariant state →
      Runs action state (fun answer _ => known answer) fun _ _ => True)
    (hnext : ∀ answer, known answer → Keeps invariant (next answer)) :
    Keeps invariant (action >>= next) :=
  fun state hstate => ((hfirst state hstate).and_answered (hknown state hstate)).bind
    fun answer after hafter => hnext answer hafter.2 after hafter.1

theorem foldlM {requests : List Request} {step : Answer → Request → EStateM Error State Answer}
    (hstep : ∀ request ∈ requests, ∀ answer, Keeps invariant (step answer request))
    (answer : Answer) : Keeps invariant (requests.foldlM step answer) :=
  fun _ hstate => runs_foldlM (fun _ => invariant)
    (fun request hmem answer state => hstep request hmem answer state) hstate

theorem forM {requests : List Request} {step : Request → EStateM Error State Unit}
    (hstep : ∀ request ∈ requests, Keeps invariant (step request)) :
    Keeps invariant (requests.forM step) :=
  fun _ hstate => runs_forM invariant (fun request hmem => hstep request hmem) hstate

end Keeps

theorem Edit.keeps_query {invariant : Program → Prop}
    (question : Program → Except EditError Answer) :
    Keeps invariant (Edit.query question) := by
  intro program hprogram
  cases hquestion : question program with
  | ok answer => exact runs_of_ok (Edit.query_apply_of_ok hquestion) hprogram
  | error problem => exact runs_of_error (Edit.query_apply_of_error hquestion) hprogram

/-! ## Work

The ledger may change freely as far as an invariant of programs is concerned.  A step that only
makes notes (`Noted`) therefore needs no look at what it notes.
-/

/-- Only notes were made, and no mark was lost. -/
structure Noted (before after : Workspace) : Prop where
  program_eq : after.program = before.program
  edited : ∀ handle, before.ledger.isEdited handle → after.ledger.isEdited handle

theorem Noted.trans {before between after : Workspace} (hfirst : Noted before between)
    (hsecond : Noted between after) : Noted before after :=
  ⟨hsecond.program_eq.trans hfirst.program_eq, fun handle hedited =>
    hsecond.edited handle (hfirst.edited handle hedited)⟩

theorem Noted.holds {before after : Workspace} {invariant : Program → Prop}
    (hnoted : Noted before after) (hbefore : invariant before.program) :
    invariant after.program := by
  rwa [hnoted.program_eq]

theorem Tracked.of_noted {start : Program} {sites : List CallSite} {before after : Workspace}
    (tracked : Tracked start sites before) (hnoted : Noted before after) :
    Tracked start sites after := by
  obtain ⟨program, ledger⟩ := after
  obtain ⟨rfl, hedited⟩ := hnoted
  exact tracked.noted hedited

/-- Work keeps an invariant of programs. -/
def Work.Keeps (invariant : Program → Prop) (work : Work Answer) : Prop :=
  ConcurrencyFaults.Keeps (fun workspace => invariant workspace.program) work

namespace Work

variable {invariant : Program → Prop} {work : Work Answer}

theorem Keeps.bind {next : Answer → Work Other} (hfirst : Keeps invariant work)
    (hnext : ∀ answer, Keeps invariant (next answer)) : Keeps invariant (work >>= next) :=
  ConcurrencyFaults.Keeps.bind hfirst hnext

theorem Keeps.bind_known {next : Answer → Work Other} {known : Answer → Prop}
    (hfirst : Keeps invariant work)
    (hknown : ∀ workspace : Workspace, invariant workspace.program →
      Runs work workspace (fun answer _ => known answer) fun _ _ => True)
    (hnext : ∀ answer, known answer → Keeps invariant (next answer)) :
    Keeps invariant (work >>= next) :=
  ConcurrencyFaults.Keeps.bind_known hfirst hknown hnext

theorem keeps_pure (answer : Answer) : Keeps invariant (pure answer : Work Answer) :=
  ConcurrencyFaults.Keeps.pure answer

theorem keeps_get : Keeps invariant (get : Work Workspace) := fun _ hprogram => hprogram

/-! ### Questions and notes

None of these touches the program.
-/

theorem keeps_query (question : Program → Except EditError Answer) :
    Keeps invariant (query question) := by
  intro workspace hprogram
  refine keeps_get.bind (fun workspace => ?_) workspace hprogram
  intro state hstate
  cases question workspace.program <;> exact hstate

theorem keeps_noteWith (change : Ledger → Answer × Ledger) : Keeps invariant (noteWith change) :=
  fun _ hprogram => hprogram

theorem keeps_record (entry : Entry) : Keeps invariant (record entry) := keeps_noteWith _

theorem keeps_warn (message : String) : Keeps invariant (warn message) := keeps_record _

theorem keeps_markEdited (handle : Handle) : Keeps invariant (markEdited handle) := keeps_noteWith _

theorem keeps_recordChange {pass : String} {kind : EntryKind} {function : FunctionId}
    {message : String} {location : Option Nat} :
    Keeps invariant (recordChange pass kind function message location) := keeps_record _

/-- Work that makes notes alone keeps whatever is known of the program. -/
theorem keeps_of_noted
    (hwork : ∀ workspace, Runs work workspace (fun _ => Noted workspace) fun _ _ => False) :
    Keeps invariant work :=
  fun workspace hprogram =>
    (hwork workspace).imp (fun _ _ hnoted => hnoted.holds hprogram) fun _ _ hnever => hnever.elim

theorem runs_isUntouched_noted {workspace : Workspace} {refused : EditError → Workspace → Prop}
    (pass : String) (site : CallSite) :
    Runs (isUntouched pass site) workspace (fun _ => Noted workspace) refused := by
  unfold isUntouched isEdited
  refine runs_bind (runs_bind (runs_get (runs_pure ?_)))
  -- an edited call and a stale one are warned about, any other is handed on in silence
  split
  · exact runs_bind_warn (runs_pure ⟨rfl, fun _ h => h⟩)
  · refine runs_bind (runs_get ?_)
    split
    · exact runs_pure ⟨rfl, fun _ h => h⟩
    · exact runs_bind_warn (runs_pure ⟨rfl, fun _ h => h⟩)

theorem keeps_isUntouched (pass : String) (site : CallSite) :
    Keeps invariant (isUntouched pass site) :=
  keeps_of_noted fun _ => runs_isUntouched_noted pass site

/-! ### Edits -/

/-- What is known of an edit is known of the program that the work leaves behind. -/
theorem runs_edit {change : Edit Answer} {workspace : Workspace}
    {answered : Answer → Program → Prop} {refused : EditError → Program → Prop}
    (hchange : Runs change workspace.program answered refused) :
    Runs (edit change) workspace (fun answer after => answered answer after.program)
      (fun problem after => refused problem after.program) := by
  unfold Runs at hchange ⊢
  unfold edit
  cases hresult : change workspace.program with
  | ok | error =>
      rw [hresult] at hchange
      exact hchange

theorem keeps_edit {change : Edit Answer} (hchange : ConcurrencyFaults.Keeps invariant change) :
    Keeps invariant (edit change) :=
  fun workspace hprogram => runs_edit (hchange workspace.program hprogram)

theorem keeps_update {change : Program → Answer × Program}
    (hchange : ∀ program, invariant program → invariant (change program).2) :
    Keeps invariant (update change) :=
  fun workspace hprogram => hchange workspace.program hprogram

/-! ### Requests

Requests are handled one after another, each on what those before it have left.  It is enough that
the handler keeps the invariant from every workspace.
-/

theorem keeps_foldlM {requests : List Request} {step : Answer → Request → Work Answer}
    (hstep : ∀ request ∈ requests, ∀ answer, Keeps invariant (step answer request))
    (answer : Answer) : Keeps invariant (requests.foldlM step answer) :=
  ConcurrencyFaults.Keeps.foldlM hstep answer

theorem keeps_forM {requests : List Request} {step : Request → Work Unit}
    (hstep : ∀ request ∈ requests, Keeps invariant (step request)) :
    Keeps invariant (requests.forM step) :=
  ConcurrencyFaults.Keeps.forM hstep

theorem keeps_anyOf {requests : List Request} {handle : Request → Work Bool}
    (hhandle : ∀ request ∈ requests, Keeps invariant (handle request)) :
    Keeps invariant (anyOf requests handle) :=
  keeps_foldlM (fun request hmem _ => (hhandle request hmem).bind fun _ => keeps_pure _) false

theorem keeps_anySite {pass : String} {sites : List MemorySite} {positions : List Nat}
    {handle : Nat → MemorySite → Work Bool}
    (hhandle : ∀ request site, Keeps invariant (handle request site)) :
    Keeps invariant (anySite pass sites positions handle) := by
  refine keeps_anyOf fun ⟨position, request⟩ _ => (keeps_noteWith _).bind fun claimed => ?_
  split
  · split
    · exact hhandle _ _
    · exact keeps_pure _
  · exact keeps_pure _

/-- Claiming the number of a call changes notes alone. -/
theorem runs_claimCall {workspace : Workspace} {refused : EditError → Workspace → Prop}
    (pass : String) (found : FoundCalls) (position : Nat) :
    Runs (claimCall pass found position) workspace
      (fun answer after => Noted workspace after ∧
        ∀ site ∈ answer, found.get? position = some site) refused := by
  unfold claimCall claimOrWarn
  refine runs_bind_noteWith ?_
  split
  · exact runs_pure ⟨⟨rfl, by simp⟩, fun _ hsite => hsite⟩
  · exact runs_pure ⟨⟨rfl, by simp⟩, fun _ hsite => by cases hsite⟩

/-- A handler has to keep the invariant only for calls that were found. -/
theorem keeps_anyCall {pass : String} {found : FoundCalls} {positions : List Nat}
    {handle : Nat → CallSite → Work Bool}
    (hhandle : ∀ request, ∀ site ∈ found.sites, Keeps invariant (handle request site)) :
    Keeps invariant (anyCall pass found positions handle) := by
  refine keeps_anyOf fun ⟨position, request⟩ _ workspace hprogram => ?_
  refine (runs_claimCall pass found position).bind ?_
  rintro answer after ⟨hnoted, hsite⟩
  have hprogram := hnoted.holds hprogram
  -- a number without a call ends the request here
  cases answer with
  | none => exact runs_pure hprogram
  | some site =>
      have hmem := FoundCalls.mem_of_get? (hsite site rfl)
      refine (keeps_isUntouched pass site).bind (fun untouched => ?_) after hprogram
      split
      · exact hhandle request site hmem
      · exact keeps_pure _

end Work

end ConcurrencyFaults

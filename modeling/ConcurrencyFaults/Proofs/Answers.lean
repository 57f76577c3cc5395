import ConcurrencyFaults.Proofs.Locking.Outcomes
import ConcurrencyFaults.Proofs.Operators

/-!
# What the answer of a run tells

A run answers whether it changed something, and its journal tells the same once more.  The two agree
for every operator but the removal of lock pairs, which records whole pairs: if the answer is yes, a
change was recorded during the run, and if it is no, none was and the program is what it was.

A single step either makes remarks alone (`Quiet`), or does something of which no more is known than
that the journal was extended (`Logged`), or records a change (`Recorded`).  A handler has to make
all its remarks before its first edit and to record a change after the last; its answer then agrees
with what it did (`Agrees`), and answers that agree can be summed up.  A run that was stopped has no
answer, and nothing is claimed of it.

## Strategy

* `Logged`, `Recorded` and `Quiet` compare two workspaces.  They compose as one would expect: a
  change stays recorded whatever follows (`Recorded.trans`), and is recorded whatever came before
  (`Logged.recorded`).
* `Logs`, `Records`, `Silent`, `Tells` and `Confirms` say the same of work from every workspace, and
  each has its rule for sequences.  A handler is read from its end: the last step confirms, edits in
  front of it keep that (`Logs.confirms`), and questions and remarks in front of those leave what
  the answer tells as it is (`Silent.tells`).
* `tells_anySite` and `tells_anyCall` sum up the requests of a run, by `Agrees.trans` for one after
  the other.
* Fences are the exception, as their handler answers yes without looking; the run has to rely on
  what is known of unused positions (`FenceOperator.runs_run_agrees`).

The last section is about plans that ask for no change at all.
-/

namespace ConcurrencyFaults

open Program

/-! ## What was written down

Entries are only ever appended, so each relation names the entries that were added in between.
-/

/-- The journal was only extended. -/
def Logged (before after : Workspace) : Prop :=
  ∃ entries, after.ledger.journal = before.ledger.journal.extend entries

/-- A change was written down. -/
def Recorded (before after : Workspace) : Prop :=
  ∃ entries, after.ledger.journal = before.ledger.journal.extend entries ∧
    ∃ entry ∈ entries, entry.isTransformation = true

/-- The program is what it was, and no change was written down. -/
def Quiet (before after : Workspace) : Prop :=
  after.program = before.program ∧
    ∃ notes, after.ledger.journal = before.ledger.journal.extend notes ∧
      ∀ note ∈ notes, note.isTransformation = false

/-- The answer tells whether a change was made. -/
def Agrees (before : Workspace) (changed : Bool) (after : Workspace) : Prop :=
  if changed then Recorded before after else Quiet before after

@[simp] theorem Journal.extend_nil (journal : Journal) : journal.extend [] = journal := by
  simp [Journal.extend]

@[simp] theorem Journal.extend_extend (journal : Journal) (earlier later : List Entry) :
    (journal.extend earlier).extend later = journal.extend (earlier ++ later) := by
  simp [Journal.extend]

section Relations

variable {before between after workspace : Workspace}

theorem Logged.of_journal_eq (hjournal : after.ledger.journal = before.ledger.journal) :
    Logged before after := ⟨[], by rw [hjournal, Journal.extend_nil]⟩

theorem Logged.trans (hfirst : Logged before between) (hsecond : Logged between after) :
    Logged before after := by
  obtain ⟨earlier, hearlier⟩ := hfirst
  obtain ⟨later, hlater⟩ := hsecond
  exact ⟨earlier ++ later, by rw [hlater, hearlier, Journal.extend_extend]⟩

theorem Recorded.logged (hrecorded : Recorded before after) : Logged before after := by
  obtain ⟨entries, hjournal, -⟩ := hrecorded
  exact ⟨entries, hjournal⟩

theorem Quiet.logged (hquiet : Quiet before after) : Logged before after := by
  obtain ⟨-, notes, hjournal, -⟩ := hquiet
  exact ⟨notes, hjournal⟩

theorem Agrees.logged {changed : Bool} (hagrees : Agrees before changed after) :
    Logged before after := by
  cases changed with
  | true => exact Recorded.logged hagrees
  | false => exact Quiet.logged hagrees

theorem Recorded.trans (hfirst : Recorded before between) (hsecond : Logged between after) :
    Recorded before after := by
  obtain ⟨earlier, hearlier, entry, hmem, hentry⟩ := hfirst
  obtain ⟨later, hlater⟩ := hsecond
  exact ⟨earlier ++ later, by rw [hlater, hearlier, Journal.extend_extend], entry,
    List.mem_append_left _ hmem, hentry⟩

theorem Logged.recorded (hfirst : Logged before between) (hsecond : Recorded between after) :
    Recorded before after := by
  obtain ⟨earlier, hearlier⟩ := hfirst
  obtain ⟨later, hlater, entry, hmem, hentry⟩ := hsecond
  exact ⟨earlier ++ later, by rw [hlater, hearlier, Journal.extend_extend], entry,
    List.mem_append_right _ hmem, hentry⟩

theorem Quiet.of_journal_eq (hprogram : after.program = before.program)
    (hjournal : after.ledger.journal = before.ledger.journal) : Quiet before after :=
  ⟨hprogram, [], by rw [hjournal, Journal.extend_nil], by simp⟩

theorem Quiet.refl (workspace : Workspace) : Quiet workspace workspace :=
  Quiet.of_journal_eq rfl rfl

theorem Quiet.of_notes {notes : List Entry} {ledger : Ledger}
    (hjournal : ledger.journal = workspace.ledger.journal.extend notes)
    (hnotes : ∀ note ∈ notes, note.isTransformation = false) :
    Quiet workspace { workspace with ledger } := ⟨rfl, notes, hjournal, hnotes⟩

theorem Quiet.of_note {note : Entry} (hnote : note.isTransformation = false) :
    Quiet workspace { workspace with ledger := workspace.ledger.record note } :=
  Quiet.of_notes rfl fun entry hmem => by rwa [List.mem_singleton.mp hmem]

theorem Quiet.trans (hfirst : Quiet before between) (hsecond : Quiet between after) :
    Quiet before after := by
  obtain ⟨hprogram, earlier, hearlier, hnotes⟩ := hfirst
  obtain ⟨hsame, later, hlater, hnotesLater⟩ := hsecond
  refine ⟨hsame.trans hprogram, earlier ++ later,
    by rw [hlater, hearlier, Journal.extend_extend], fun note hmem => ?_⟩
  rcases List.mem_append.mp hmem with hmem | hmem
  · exact hnotes note hmem
  · exact hnotesLater note hmem

/-- One of two answers is a yes exactly if one of two steps recorded a change. -/
theorem Agrees.trans {first second : Bool} (hfirst : Agrees before first between)
    (hsecond : Agrees between second after) : Agrees before (first || second) after := by
  cases first with
  | true => exact Recorded.trans hfirst hsecond.logged
  | false =>
      cases second with
      | true => exact (Quiet.logged hfirst).recorded hsecond
      | false => exact Quiet.trans hfirst hsecond

/-- What an answer tells, in terms of the entries that were added. -/
theorem Agrees.exists_entries {changed : Bool} (hagrees : Agrees before changed after) :
    ∃ entries, after.ledger.journal = before.ledger.journal.extend entries ∧
      (changed = true → ∃ entry ∈ entries, entry.isTransformation = true) ∧
      (changed = false → (∀ entry ∈ entries, entry.isTransformation = false) ∧
        after.program = before.program) := by
  cases changed with
  | true =>
      obtain ⟨entries, hjournal, hrecorded⟩ := hagrees
      exact ⟨entries, hjournal, fun _ => hrecorded, fun h => absurd h (by simp)⟩
  | false =>
      obtain ⟨hprogram, notes, hjournal, hnotes⟩ := hagrees
      exact ⟨notes, hjournal, fun h => absurd h (by simp), fun _ => ⟨hnotes, hprogram⟩⟩

end Relations

/-! ## Steps

Nothing is said of a step that is refused.
-/

namespace Work

variable {Answer Other : Type}

/-- From every workspace, if the work answers, the relation holds of where it started, what it
answered and where it ended. -/
def Ensures (relation : Workspace → Answer → Workspace → Prop) (work : Work Answer) : Prop :=
  ∀ workspace, Runs work workspace (relation workspace) fun _ _ => True

/-- The work makes remarks alone. -/
def Silent (work : Work Answer) : Prop := Ensures (fun before _ after => Quiet before after) work

/-- The work only extends the journal, whatever it does to the program. -/
def Logs (work : Work Answer) : Prop := Ensures (fun before _ after => Logged before after) work

/-- The work records a change. -/
def Records (work : Work Answer) : Prop :=
  Ensures (fun before _ after => Recorded before after) work

/-- The answer of the work agrees with what it did. -/
def Tells (work : Work Bool) : Prop := Ensures Agrees work

theorem Ensures.bind {first : Work Answer} {next : Answer → Work Other}
    {relation : Workspace → Answer → Workspace → Prop}
    {later total : Workspace → Other → Workspace → Prop} (hfirst : Ensures relation first)
    (hnext : ∀ answer, Ensures later (next answer))
    (htotal : ∀ {before answer between other after}, relation before answer between →
      later between other after → total before other after) : Ensures total (first >>= next) :=
  fun workspace => (hfirst workspace).bind fun answer between hrelation =>
    (hnext answer between).weaken fun _ _ hlater => htotal hrelation hlater

theorem silent_pure (answer : Answer) : Silent (pure answer : Work Answer) :=
  fun workspace => runs_pure (Quiet.refl workspace)

theorem Silent.bind {first : Work Answer} {next : Answer → Work Other} (hfirst : Silent first)
    (hnext : ∀ answer, Silent (next answer)) : Silent (first >>= next) :=
  Ensures.bind hfirst hnext Quiet.trans

/-- What is done after some remarks is all that the answer has to tell. -/
theorem Silent.tells {first : Work Answer} {next : Answer → Work Bool} (hfirst : Silent first)
    (hnext : ∀ answer, Tells (next answer)) : Tells (first >>= next) := by
  refine Ensures.bind hfirst hnext fun {before _ between changed after} hquiet hagrees => ?_
  have hfalse : Agrees before false between := hquiet
  exact hfalse.trans hagrees

theorem Silent.logs {work : Work Answer} (hsilent : Silent work) : Logs work :=
  fun workspace => (hsilent workspace).weaken fun _ _ => Quiet.logged

theorem Records.logs {work : Work Answer} (hrecords : Records work) : Logs work :=
  fun workspace => (hrecords workspace).weaken fun _ _ => Recorded.logged

theorem Logs.bind {first : Work Answer} {next : Answer → Work Other} (hfirst : Logs first)
    (hnext : ∀ answer, Logs (next answer)) : Logs (first >>= next) :=
  Ensures.bind hfirst hnext Logged.trans

theorem Logs.records {first : Work Answer} {next : Answer → Work Other} (hfirst : Logs first)
    (hnext : ∀ answer, Records (next answer)) : Records (first >>= next) :=
  Ensures.bind hfirst hnext Logged.recorded

/-- The answer to work that records a change is yes. -/
def Confirms (work : Work Bool) : Prop :=
  Ensures (fun before changed after => changed = true ∧ Recorded before after) work

theorem Confirms.tells {work : Work Bool} (hconfirms : Confirms work) : Tells work := by
  refine fun workspace => (hconfirms workspace).weaken ?_
  rintro _ after ⟨rfl, hrecorded⟩
  exact hrecorded

theorem Logs.confirms {first : Work Answer} {next : Answer → Work Bool} (hfirst : Logs first)
    (hnext : ∀ answer, Confirms (next answer)) : Confirms (first >>= next) :=
  Ensures.bind hfirst hnext fun hlogged hconfirmed =>
    ⟨hconfirmed.1, hlogged.recorded hconfirmed.2⟩

theorem Records.confirms {first : Work Answer} (hfirst : Records first) :
    Confirms (first >>= fun _ => pure true) :=
  fun workspace => (hfirst workspace).bind fun _ _ hrecorded => runs_pure ⟨rfl, hrecorded⟩

/-! ### Questions, notes and edits -/

theorem silent_get : Silent (get : Work Workspace) :=
  fun workspace => runs_get (Quiet.refl workspace)

theorem silent_query (question : Program → Except EditError Answer) : Silent (query question) := by
  intro workspace
  rw [← bind_pure (query question)]
  exact runs_bind_query_of (fun answer _ => runs_pure (Quiet.refl workspace)) fun _ _ => trivial

theorem silent_record {entry : Entry} (hentry : entry.isTransformation = false) :
    Silent (record entry) := fun _ => Quiet.of_note hentry

theorem silent_warn (message : String) : Silent (warn message) := silent_record rfl

theorem tells_skip (message : String) : Tells (do
    warn message
    return false) := (silent_warn message).tells fun _ => silent_pure false

theorem tells_pure_false : Tells (pure false) := silent_pure false

theorem logs_edit (change : Edit Answer) : Logs (edit change) := by
  intro workspace
  unfold Runs edit
  cases change workspace.program with
  | ok answer after => exact Logged.of_journal_eq rfl
  | error problem after => trivial

theorem logs_update (change : Program → Answer × Program) : Logs (update change) :=
  fun _ => Logged.of_journal_eq rfl

theorem silent_markEdited (handle : Handle) : Silent (markEdited handle) :=
  fun _ => Quiet.of_journal_eq rfl (Ledger.journal_markEdited handle)

theorem silent_markAll (handles : List Handle) : Silent (handles.forM markEdited) := by
  induction handles with
  | nil => exact silent_pure ()
  | cons first rest ih => exact (silent_markEdited first).bind fun _ => ih

theorem records_recordChange {kind : EntryKind} (hkind : kind.isTransformation = true)
    (pass : String) (function : FunctionId) (message : String) (location : Option Nat) :
    Records (recordChange pass kind function message location) :=
  fun _ => ⟨[_], rfl, _, List.mem_singleton_self _, hkind⟩

theorem silent_isUntouched (pass : String) (site : CallSite) :
    Silent (isUntouched pass site) := by
  unfold isUntouched isEdited
  refine (silent_get.bind fun _ => silent_pure _).bind fun edited => ?_
  split
  · exact (silent_warn _).bind fun _ => silent_pure _
  · refine silent_get.bind fun workspace => ?_
    split
    · exact silent_pure _
    · exact (silent_warn _).bind fun _ => silent_pure _

theorem silent_claimOrWarn (pass : String) (position candidates : Nat) :
    Silent (claimOrWarn pass position candidates) := by
  intro workspace
  show Quiet workspace { workspace with
    ledger := (workspace.ledger.claimOrWarn pass position candidates).2 }
  rcases workspace.ledger.claimOrWarn_cases pass position candidates with
    ⟨message, hclaim⟩ | ⟨-, -, hclaim⟩
  · rw [hclaim]
    exact Quiet.of_note rfl
  · rw [hclaim]
    exact Quiet.of_journal_eq rfl rfl

theorem silent_claimCall (pass : String) (found : FoundCalls) (position : Nat) :
    Silent (claimCall pass found position) := by
  refine (silent_claimOrWarn pass position found.size).bind fun claimed => ?_
  split <;> exact silent_pure _

/-! ### Requests

The answer to a list of requests is yes if that to one of them is.
-/

/-- Answers that agree are summed up to one that agrees; handlers may rely on an invariant. -/
theorem runs_anyOf_agrees {Request : Type} {requests : List Request}
    {handle : Request → Work Bool} {workspace : Workspace} (invariant : Workspace → Prop)
    (hhandle : ∀ request ∈ requests, ∀ state, invariant state →
      Runs (handle request) state
        (fun changed after => invariant after ∧ Agrees state changed after) fun _ _ => True)
    (hstart : invariant workspace) :
    Runs (anyOf requests handle) workspace (Agrees workspace) fun _ _ => True := by
  have hnothing : Agrees workspace false workspace := Quiet.refl workspace
  -- the fold is followed with the answer that was summed up so far
  refine (runs_foldlM (fun changed state => invariant state ∧ Agrees workspace changed state)
    (fun request hmem changed state hstate => ?_) ⟨hstart, hnothing⟩).weaken fun _ _ h => h.2
  refine (hhandle request hmem state hstate.1).bind fun answer after hafter => runs_pure ?_
  rw [Bool.or_comm]
  exact ⟨hafter.1, hstate.2.trans hafter.2⟩

theorem tells_anyOf {Request : Type} {requests : List Request} {handle : Request → Work Bool}
    (hhandle : ∀ request, Tells (handle request)) : Tells (anyOf requests handle) :=
  fun _ => runs_anyOf_agrees (fun _ => True)
    (fun request _ state _ => (hhandle request state).weaken fun _ _ hagrees => ⟨trivial, hagrees⟩)
    trivial

theorem tells_anySite {pass : String} {sites : List MemorySite} {positions : List Nat}
    {handle : Nat → MemorySite → Work Bool}
    (hhandle : ∀ request site, Tells (handle request site)) :
    Tells (anySite pass sites positions handle) := by
  refine tells_anyOf fun ⟨position, request⟩ => (silent_claimOrWarn _ _ _).tells fun claimed => ?_
  split
  · split
    · exact hhandle _ _
    · exact tells_pure_false
  · exact tells_pure_false

theorem tells_anyCall {pass : String} {found : FoundCalls} {positions : List Nat}
    {handle : Nat → CallSite → Work Bool} (hhandle : ∀ request site, Tells (handle request site)) :
    Tells (anyCall pass found positions handle) := by
  refine tells_anyOf fun ⟨position, request⟩ => (silent_claimCall _ _ _).tells fun site? => ?_
  split
  · exact tells_pure_false
  · refine (silent_isUntouched _ _).tells fun untouched => ?_
    split
    · exact hhandle _ _
    · exact tells_pure_false

end Work

open Work

/-! ## Accesses

The questions come first and the edit is followed by its entry.
-/

namespace AtomicOperator

theorem isTransformation_of_decide {target : AtomicTarget} {change : AtomicChange} {request : Nat}
    {order newOrder : MemoryOrder} {scope newScope : SyncScope} {kind : EntryKind}
    {message : String}
    (hdecide : decide target change request order scope = .ok (newOrder, newScope, kind, message)) :
    kind.isTransformation = true := by
  unfold decide at hdecide
  cases change with
  | makePlain | toggleScope =>
      dsimp only at hdecide
      split at hdecide
      · cases hdecide <;> rfl
      · cases hdecide <;> rfl
  | order codes =>
      dsimp only at hdecide
      split at hdecide
      · cases hdecide
      · split at hdecide
        · cases hdecide
          rfl
        · cases hdecide

theorem tells_apply (target : AtomicTarget) (change : AtomicChange) (request : Nat)
    (site : MemorySite) : Tells (apply target change request site) := by
  unfold apply
  refine (silent_query _).tells fun instruction => ?_
  split
  · exact tells_pure_false
  · split
    · exact tells_skip _
    · rename_i hdecide
      exact ((logs_edit _).confirms fun _ =>
        (records_recordChange (isTransformation_of_decide hdecide) _ _ _ _).confirms).tells

theorem tells_run (plan : AtomicPlan) : Tells (run plan) := by
  unfold run
  split
  · exact tells_pure_false
  · exact silent_get.tells fun _ => tells_anySite fun _ _ => tells_apply _ _ _ _

end AtomicOperator

namespace VolatileOperator

theorem tells_clear (site : MemorySite) : Tells (clear site) := by
  unfold clear
  refine (silent_query _).tells fun instruction => ?_
  split
  · exact tells_pure_false
  · exact ((logs_edit _).confirms fun _ => (records_recordChange rfl _ _ _ _).confirms).tells

theorem tells_run (plan : VolatilePlan) : Tells (run plan) :=
  silent_get.tells fun _ => tells_anySite fun _ _ => tells_clear _

end VolatileOperator

/-! ## Fences

A claimed position counts as a change whatever became of its fence.  The answer agrees all the same,
because the fence of an unused position is still there and every number of an accepted plan stands
for an order. -/

namespace FenceOperator

variable {workspace : Workspace} {site : MemorySite}

/-- A change of an accepted plan records what it does to a fence. -/
theorem runs_apply_recorded {plan : FencePlan} {change : FenceChange}
    (hchange : plan.change = some change) (haccepted : plan.check = .ok ()) (request : Nat)
    (hfence : workspace.program.LiveFence site.handle) :
    Runs (apply change request site) workspace (fun _ => Recorded workspace) fun _ _ => True := by
  obtain ⟨entry, hplaced, order, scope, hoperation⟩ := hfence
  have hasked := instruction_of_placed? hplaced
  have hfound : fence? entry.instruction.operation = some (order, scope) := by rw [hoperation]; rfl
  have hwritten : ∀ operation kind message, kind.isTransformation = true →
      Records (do
        edit (setOperation site.handle operation)
        recordChange name kind site.function message) :=
    fun _ _ _ hkind => (logs_edit _).records fun _ => records_recordChange hkind _ _ _ _
  cases change with
  | remove =>
      exact ((logs_edit _).records fun _ => records_recordChange rfl _ _ _ _) workspace
  | toggleScope =>
      refine runs_bind_query hasked ?_
      rw [hfound]
      exact hwritten _ _ _ rfl workspace
  | order codes =>
      obtain ⟨code, new, hcode, horder⟩ := FencePlan.exists_decode? hchange haccepted request
      have hnew : (nthOrLast codes request).bind OrderTable.fence.decode? = some new := by
        rw [hcode, Option.bind_some, horder]
      unfold apply
      dsimp only
      rw [hnew]
      refine runs_bind_query hasked ?_
      rw [hfound]
      exact hwritten _ _ _ rfl workspace

theorem runs_run_agrees (consistent : workspace.program.Consistent) {plan : FencePlan}
    (haccepted : plan.check = .ok ()) :
    Runs (run plan) workspace (Agrees workspace) fun _ _ => True := by
  unfold run
  cases hchange : plan.change with
  | none => exact tells_pure_false workspace
  | some change =>
      refine runs_bind (runs_get ?_)
      refine runs_anyOf_agrees (Held workspace.program) ?_ (Held.of_fences consistent)
      rintro ⟨position, request⟩ - state held
      refine runs_bind_noteWith ?_
      rcases state.ledger.claimOrWarn_cases name position
        (MemorySite.fences workspace.program).length with
        ⟨message, hclaim⟩ | ⟨hlt, hunused, hclaim⟩
      · rw [hclaim]
        exact runs_pure ⟨held.recorded _, Quiet.of_note rfl⟩
      · -- the position was not used before, so its fence is still there
        have hsite := List.getElem?_eq_getElem hlt
        have hlive := held.live position _ hsite hunused
        rw [hclaim, if_pos rfl, hsite]
        have happly := (runs_apply consistent (held.used position) hsite
          (by simp [Ledger.isUsed]) hlive change request).imp (fun _ _ h => h) fun _ _ _ => trivial
        refine (happly.and (runs_apply_recorded hchange haccepted request hlive)).bind ?_
        exact fun _ after hafter => runs_pure hafter

end FenceOperator

/-! ## Single calls

Marks are made between the edit and the entry, and say nothing about changes.
-/

namespace Condition

theorem tells_remove (pass : String) (site : CallSite) : Tells (remove pass site) :=
  ((logs_edit _).confirms fun _ => (silent_markEdited _).logs.confirms fun _ =>
    (records_recordChange rfl _ _ _ _).confirms).tells

theorem confirms_retarget (pass : String) (site : CallSite) (replacement : Instruction)
    (message : String) : Confirms (retarget pass site replacement message) :=
  (logs_edit _).confirms fun _ => (silent_markEdited _).logs.confirms fun _ =>
    (silent_markEdited _).logs.confirms fun _ => (records_recordChange rfl _ _ _ _).confirms

end Condition

namespace SignalOperator

theorem tells_apply (change : SignalChange) (site : CallSite) : Tells (apply change site) := by
  unfold apply
  split
  · exact tells_skip _
  · cases change with
    | remove => exact Condition.tells_remove _ _
    | swap => exact ((logs_update _).confirms fun _ => Condition.confirms_retarget _ _ _ _).tells

theorem tells_run (plan : SignalPlan) : Tells (run plan) := by
  have hsearched : ∀ change, Tells (do
      let found ← query search.inProgram
      anyCall name found plan.positions fun _ site => apply change site) := fun change =>
    (silent_query _).tells fun _ => tells_anyCall fun _ _ => tells_apply change _
  unfold run
  split
  · exact tells_pure_false
  · split
    · exact (silent_warn _).tells fun _ => hsearched _
    · exact hsearched _

end SignalOperator

namespace WaitOperator

theorem tells_untime (site : CallSite) : Tells (untime site) := by
  unfold untime
  split
  · exact tells_skip _
  · split
    · exact tells_skip _
    · exact ((logs_update _).confirms fun _ => Condition.confirms_retarget _ _ _ _).tells

theorem tells_moveDeadline (site : CallSite) (seconds nanoseconds : Int) (point : Option Nat) :
    Tells (moveDeadline site seconds nanoseconds point) := by
  unfold moveDeadline
  split
  · exact tells_skip _
  · split
    · extract_lets rest
      have hrest : ∀ handles, Tells (rest handles) := by
        intro handles
        simp only [rest]
        split
        · exact ((logs_edit _).confirms fun _ => (logs_edit _).confirms fun _ =>
            (silent_markAll _).logs.confirms fun _ => (silent_markEdited _).logs.confirms fun _ =>
              (silent_query _).logs.confirms fun _ =>
                (records_recordChange rfl _ _ _ _).confirms).tells
        · exact (silent_record rfl).tells fun _ => tells_pure_false
      split
      · exact hrest []
      · exact (silent_query _).tells hrest
    · exact tells_skip _

theorem tells_apply (change : WaitChange) (request : Nat) (site : CallSite) :
    Tells (apply change request site) := by
  cases change with
  | remove => exact Condition.tells_remove _ _
  | untime => exact tells_untime site
  | timeout seconds nanoseconds points => exact tells_moveDeadline _ _ _ _

theorem tells_run (plan : WaitPlan) : Tells (run plan) := by
  unfold run
  split
  · exact tells_pure_false
  · exact (silent_query _).tells fun _ => tells_anyCall fun _ _ => tells_apply _ _ _

end WaitOperator

namespace SemaphoreOperator

theorem silent_valueFor (plan : SemaphorePlan) (request : Nat) :
    Silent (valueFor plan request) := by
  unfold valueFor
  extract_lets rest
  have hrest : ∀ value, Silent (rest value) := by
    intro value
    simp only [rest]
    split
    · exact (silent_warn _).bind fun _ => silent_pure _
    · exact silent_pure _
  split
  · exact hrest _
  · exact (silent_warn _).bind fun _ => hrest _

theorem tells_setValue (site : CallSite) (value : Nat) : Tells (setValue site value) := by
  unfold setValue
  split
  · split
    · exact tells_skip _
    · refine (silent_query _).tells fun instruction => ?_
      split
      · exact tells_pure_false
      · split
        · exact tells_pure_false
        · exact ((logs_edit _).confirms fun _ => (silent_markEdited _).logs.confirms fun _ =>
            (records_recordChange rfl _ _ _ _).confirms).tells
  · exact tells_pure_false

theorem tells_run (plan : SemaphorePlan) : Tells (run plan) := by
  unfold run
  split
  · exact tells_skip _
  · exact (silent_query _).tells fun _ => tells_anyCall fun _ _ =>
      (silent_valueFor _ _).tells fun _ => tells_setValue _ _

end SemaphoreOperator

namespace YieldOperator

theorem tells_remove (site : CallSite) : Tells (remove site) := by
  unfold remove
  refine (silent_query _).tells fun uses => ?_
  split
  · exact tells_skip _
  · exact ((logs_edit _).confirms fun _ => (logs_edit _).confirms fun _ =>
      (silent_markEdited _).logs.confirms fun _ =>
        (records_recordChange rfl _ _ _ _).confirms).tells

theorem tells_run (plan : YieldPlan) : Tells (run plan) :=
  (silent_query _).tells fun _ => tells_anyCall fun _ _ => tells_remove _

end YieldOperator

namespace JoinOperator

theorem tells_replaceWithSleep (site : CallSite) (seconds : Nat) :
    Tells (replaceWithSleep site seconds) := by
  unfold replaceWithSleep
  extract_lets isStandard rest
  have hrest : ∀ uses, Tells (rest uses) := by
    intro uses
    simp only [rest]
    split
    · exact tells_skip _
    · exact ((logs_update _).confirms fun _ => (logs_edit _).confirms fun _ =>
        (silent_markEdited _).logs.confirms fun _ =>
          (records_recordChange rfl _ _ _ _).confirms).tells
  split
  · exact (silent_query _).tells hrest
  · exact hrest 0

theorem tells_apply (change : JoinChange) (site : CallSite) : Tells (apply change site) := by
  cases change with
  | remove =>
      exact ((logs_edit _).confirms fun _ => (records_recordChange rfl _ _ _ _).confirms).tells
  | sleep seconds => exact tells_replaceWithSleep site seconds

/-- The mark that is made afterwards is no change. -/
theorem tells_handler (change : JoinChange) (site : CallSite) : Tells (do
    let changed ← apply change site
    markEdited site.handle
    return changed) := by
  refine fun workspace =>
    (tells_apply change site workspace).bind fun changed between happlied => ?_
  refine (silent_markEdited site.handle between).bind fun _ after hmarked => runs_pure ?_
  have hfalse : Agrees between false after := hmarked
  simpa using happlied.trans hfalse

theorem tells_run (plan : JoinPlan) : Tells (run plan) := by
  unfold run
  split
  · exact tells_pure_false
  · split
    · exact tells_skip _
    · exact (silent_query _).tells fun _ => tells_anyCall fun _ _ => tells_handler _ _

end JoinOperator

/-! ## Lock pairs

A move may have its lock side skipped and its unlock side carried out; the answers of the two sides
are summed up like those of two requests.
-/

theorem PairIndex.quiet_noted (oracle : AliasOracle) (workspace : Workspace) :
    Quiet workspace (noted oracle workspace) :=
  Quiet.of_notes rfl fun _ hmem => isTransformation_of_mem_notes hmem

theorem PairIndex.silent_build (oracle : AliasOracle) : Silent (build oracle) := by
  refine fun workspace => (runs_build_notes oracle).imp ?_ fun _ _ _ => trivial
  rintro _ _ ⟨rfl, -⟩
  exact quiet_noted oracle workspace

namespace LockOperator

theorem silent_resolve (index : PairIndex) (addressing : PairAddressing) (address : PairAddress) :
    Silent (resolve index addressing address) := by
  unfold resolve
  extract_lets pair
  split
  · exact (silent_warn _).bind fun _ => silent_pure _
  · exact silent_pure _

theorem silent_isPairUntouched (pair : LockPair) : Silent (isPairUntouched pair) := by
  unfold isPairUntouched
  refine (silent_isUntouched _ _).bind fun untouched => ?_
  split
  · exact silent_isUntouched _ _
  · exact silent_pure _

theorem records_swapSites (first second : CallSite) : Records (swapSites first second) :=
  (logs_edit _).records fun _ => (logs_edit _).records fun _ => (silent_markAll _).logs.records
    fun _ => records_recordChange rfl _ _ _ _

theorem tells_swapPairs (first second : LockPair) : Tells (swapPairs first second) := by
  unfold swapPairs
  split
  · exact tells_skip _
  · refine (silent_isPairUntouched _).tells fun firstUntouched => ?_
    split
    · exact tells_pure_false
    · refine (silent_isPairUntouched _).tells fun secondUntouched => ?_
      split
      · exact tells_pure_false
      · exact ((records_swapSites _ _).logs.confirms fun _ =>
          (records_swapSites _ _).confirms).tells

theorem tells_swap (index : PairIndex) (plan : LockPlan) : Tells (swap index plan) := by
  refine tells_anyOf fun ⟨firstAddress, secondAddress⟩ =>
    (silent_resolve _ _ _).tells fun first => ?_
  split
  · refine (silent_resolve _ _ _).tells fun second => ?_
    split
    · exact tells_swapPairs _ _
    · exact tells_pure_false
  · exact tells_pure_false

theorem silent_shiftObstacle? (site : CallSite) (family : LockFamily) :
    Silent (shiftObstacle? site family) := by
  unfold shiftObstacle?
  split
  · exact silent_pure _
  · extract_lets rest
    have hrest : ∀ uses, Silent (rest uses) := by
      intro uses
      simp only [rest]
      split
      · exact silent_pure _
      · split <;> exact silent_pure _
    split
    · exact hrest 0
    · exact (silent_query _).bind hrest

theorem tells_shiftSite (site : CallSite) (family : LockFamily) (direction : Int) :
    Tells (shiftSite site family direction) := by
  unfold shiftSite
  refine (silent_shiftObstacle? _ _).tells fun obstacle => ?_
  split
  · exact tells_skip _
  · exact tells_pure_false
  · -- once the obstacle is ruled out the call is moved, however far the walk gets
    refine Confirms.tells ((logs_edit _).confirms fun base => (silent_query _).logs.confirms
      fun step => ?_)
    extract_lets rest
    have hrest : Confirms (rest ()) :=
      (logs_edit _).confirms fun _ => (logs_edit _).confirms fun _ =>
        (silent_markEdited _).logs.confirms fun _ => (silent_markEdited _).logs.confirms fun _ =>
          (silent_query _).logs.confirms fun _ => (records_recordChange rfl _ _ _ _).confirms
    split
    · exact (silent_warn _).logs.confirms fun _ => hrest
    · exact hrest

theorem tells_shiftSide (address : PairAddress) (role : LockRole) (site : CallSite)
    (family : LockFamily) (direction : Option Int) :
    Tells (shiftSide address role site family direction) := by
  unfold shiftSide
  split
  · exact tells_skip _
  · exact tells_skip _
  · exact tells_pure_false
  · exact tells_shiftSite _ _ _

theorem tells_shift (index : PairIndex) (plan : LockPlan) : Tells (shift index plan) := by
  refine tells_anyOf fun ⟨address, request⟩ => (silent_resolve _ _ _).tells fun pair => ?_
  split
  · refine (silent_isPairUntouched _).tells fun untouched => ?_
    split
    · exact tells_pure_false
    · refine fun workspace => (tells_shiftSide _ _ _ _ _ workspace).bind fun _ between hlock => ?_
      refine (tells_shiftSide _ _ _ _ _ between).bind fun _ _ hunlock => ?_
      exact runs_pure (hlock.trans hunlock)
  · exact tells_pure_false

theorem logs_insertCopy (lock : Handle) (site : CallSite) (role : String) (offset : Nat) :
    Logs (insertCopy lock site role offset) := by
  unfold insertCopy
  refine (logs_edit _).bind fun ⟨copy, clamped⟩ => ?_
  dsimp only
  split
  · exact (silent_warn _).logs.bind fun _ => (silent_pure _).logs
  · exact (silent_pure _).logs

theorem tells_splitPair (address : PairAddress) (pair : LockPair) (unlockOffset lockOffset : Nat) :
    Tells (splitPair address pair unlockOffset lockOffset) := by
  unfold splitPair
  refine (silent_query _).tells fun distance => ?_
  split
  · exact tells_skip _
  · exact ((logs_insertCopy _ _ _ _).confirms fun _ => (logs_insertCopy _ _ _ _).confirms fun _ =>
      (silent_markEdited _).logs.confirms fun _ => (silent_markEdited _).logs.confirms fun _ =>
        (records_recordChange rfl _ _ _ _).confirms).tells

theorem tells_split (index : PairIndex) (plan : LockPlan) : Tells (split index plan) := by
  rw [split_eq]
  refine tells_anyOf fun ⟨address, request⟩ => (silent_resolve _ _ _).tells fun pair => ?_
  split
  · refine (silent_isPairUntouched _).tells fun untouched => ?_
    split
    · exact tells_pure_false
    · split
      · exact tells_splitPair _ _ _ _
      · exact tells_skip _
  · exact tells_pure_false

theorem tells_run {plan : LockPlan} (hmode : plan.mode ≠ some .remove) (oracle : AliasOracle) :
    Tells (run plan oracle) := by
  unfold run
  split
  · exact tells_pure_false
  · rename_i mode hplan
    refine (PairIndex.silent_build oracle).tells fun index => ?_
    cases mode with
    | remove => exact absurd hplan hmode
    | swap => exact tells_swap index plan
    | shift => exact tells_shift index plan
    | split => exact tells_split index plan

end LockOperator

/-! ## Every operator -/

namespace Operator

variable {workspace after : Workspace} {operator : Operator} {oracle : AliasOracle}

theorem runs_run_agrees (consistent : workspace.program.Consistent)
    (haccepted : operator.check = .ok ())
    (hmode : ∀ plan, operator = .lock plan → plan.mode ≠ some .remove) (oracle : AliasOracle) :
    Runs (operator.run oracle) workspace (Agrees workspace) fun _ _ => True := by
  cases operator with
  | lock plan => exact LockOperator.tells_run (hmode plan rfl) oracle workspace
  | fence plan => exact FenceOperator.runs_run_agrees consistent haccepted
  | atomic plan => exact AtomicOperator.tells_run plan workspace
  | volatile plan => exact VolatileOperator.tells_run plan workspace
  | semaphore plan => exact SemaphoreOperator.tells_run plan workspace
  | join plan => exact JoinOperator.tells_run plan workspace
  | signal plan => exact SignalOperator.tells_run plan workspace
  | wait plan => exact WaitOperator.tells_run plan workspace
  | yield plan => exact YieldOperator.tells_run plan workspace

/-- A run that answers has extended the journal.  If the answer is yes, one of the new entries is
about a change; if it is no, none is, and the program is exactly what it was. -/
theorem answer_agrees {changed : Bool} (consistent : workspace.program.Consistent)
    (haccepted : operator.check = .ok ())
    (hmode : ∀ plan, operator = .lock plan → plan.mode ≠ some .remove)
    (hrun : operator.run oracle workspace = .ok changed after) :
    ∃ entries, after.ledger.journal = workspace.ledger.journal.extend entries ∧
      (changed = true → ∃ entry ∈ entries, entry.isTransformation = true) ∧
      (changed = false → (∀ entry ∈ entries, entry.isTransformation = false) ∧
        after.program = workspace.program) := by
  have hagrees := runs_run_agrees consistent haccepted hmode oracle
  unfold Runs at hagrees
  rw [hrun] at hagrees
  exact hagrees.exists_entries

/-- The fence is removed for the first of the positions; the others leave warnings. -/
theorem answer_agrees_joinAfterFence :
    ∃ after, (Operator.fence { change := some .remove, positions := [0, 0, 7] }).run .identity
        { program := joinAfterFence } = .ok true after ∧
      ∃ entries, after.ledger.journal = Journal.empty.extend entries ∧
        (true = true → ∃ entry ∈ entries, entry.isTransformation = true) ∧
        (true = false → (∀ entry ∈ entries, entry.isTransformation = false) ∧
          after.program = joinAfterFence) := by
  have hruns : Runs ((Operator.fence { change := some .remove, positions := [0, 0, 7] }).run
      .identity) { program := joinAfterFence } (fun changed _ => changed = true)
        fun _ _ => False := by
    decide +kernel
  obtain ⟨_, after, hrun, rfl⟩ := hruns.exists_ok
  exact ⟨after, hrun, @answer_agrees { program := joinAfterFence } after _ .identity true
    consistent_joinAfterFence rfl (fun _ h => by cases h) hrun⟩

/-! ## Plans that ask for no change

Most operators look first whether there is a change to make.  The volatile operator has no need to,
as its plan asks for a change by naming positions.  The operators on semaphores and yields ought to,
but handle the positions of a plan that asks for no change as if it did. -/

/-- The positions that a run handles whether or not its plan asks for a change. -/
def unguarded : Operator → List Nat
  | .semaphore plan => plan.positions
  | .yield plan => plan.positions
  | _ => []

/-- Without a change to make and without unguarded positions a run answers no and makes remarks at
most.  Only the search for yields, which is made even then, can be refused. -/
theorem run_of_not_mutates (hfind : operator.mutates = false) (hnone : operator.unguarded = [])
    (oracle : AliasOracle) (workspace : Workspace) :
    Runs (operator.run oracle) workspace
      (fun changed after => changed = false ∧ Quiet workspace after)
      (fun problem after => after = workspace ∧ (∃ plan, operator = .yield plan) ∧
        YieldOperator.search.inProgram workspace.program = .error problem) := by
  have hnothing : ∀ {refused : EditError → Workspace → Prop},
      Runs (pure false) workspace (fun changed after => changed = false ∧ Quiet workspace after)
        refused := runs_pure ⟨rfl, Quiet.refl workspace⟩
  cases operator with
  | lock plan =>
      have hmode : plan.mode = none := by simpa [mutates] using hfind
      simpa only [run, LockOperator.run, hmode] using hnothing
  | fence plan =>
      have hchange : plan.change = none := by simpa [mutates] using hfind
      simpa only [run, FenceOperator.run, hchange] using hnothing
  | atomic plan =>
      have hchange : plan.change = none := by simpa [mutates] using hfind
      simpa only [run, AtomicOperator.run, hchange] using hnothing
  | volatile plan =>
      have hpositions : plan.positions = [] := by simpa [mutates] using hfind
      simp only [run, VolatileOperator.run, hpositions]
      exact runs_bind (runs_get hnothing)
  | semaphore plan =>
      have hpositions : plan.positions = [] := hnone
      simp only [run, SemaphoreOperator.run, hpositions]
      exact runs_bind_warn (runs_pure ⟨rfl, Quiet.of_note rfl⟩)
  | join plan =>
      have hchange : plan.change = none := by simpa [mutates] using hfind
      simpa only [run, JoinOperator.run, hchange] using hnothing
  | signal plan =>
      have hchange : plan.change = none := by simpa [mutates] using hfind
      simpa only [run, SignalOperator.run, hchange] using hnothing
  | wait plan =>
      have hchange : plan.change = none := by simpa [mutates] using hfind
      simpa only [run, WaitOperator.run, hchange] using hnothing
  | yield plan =>
      have hpositions : plan.positions = [] := hnone
      simp only [run, YieldOperator.run, hpositions]
      refine runs_bind_query_of (fun found _ => hnothing) fun problem hrefused => ?_
      exact ⟨rfl, ⟨plan, rfl⟩, hrefused⟩

/-- A semaphore that is created, and a yield. -/
@[irreducible] def yieldAfterInit : Program :=
  Command.run [.declare "sem_init" .status, .declare "sched_yield" .status,
    .addFunction "main" .void [], .addBlock 2 "entry",
    .push 2 0 (.ofOperation (.call (.direct 0) [.global "sem", .int 32 true 0, .int 32 false 1]
      .status)),
    .push 2 0 (.ofOperation (.call (.direct 1) [] .status)),
    .push 2 0 (.ofOperation (.ret none))]
    { name := "yield" }

theorem consistent_yieldAfterInit : yieldAfterInit.Consistent := by
  unfold yieldAfterInit
  exact Command.consistent_run (Command.consistent_empty "yield") _

/-- The search for yields finds one, but as no position is given it stays. -/
theorem run_of_not_mutates_yieldAfterInit :
    Runs ((Operator.yield {}).run .identity) { program := yieldAfterInit }
      (fun changed after => changed = false ∧ Quiet { program := yieldAfterInit } after)
      (fun problem after => after = { program := yieldAfterInit } ∧
        (∃ plan, Operator.yield {} = .yield plan) ∧
          YieldOperator.search.inProgram yieldAfterInit = .error problem) :=
  @run_of_not_mutates (.yield {}) rfl rfl .identity { program := yieldAfterInit }

/-- Two accepted plans that ask for no change but give a position: the one removes the yield, the
other overwrites the initial value of the semaphore. -/
theorem changed_without_change :
    yieldAfterInit.Consistent ∧
      ((Operator.yield { positions := [0] }).mutates = false ∧
        (Operator.yield { positions := [0] }).check = .ok () ∧
        Runs ((Operator.yield { positions := [0] }).run .identity) { program := yieldAfterInit }
          (fun changed after => changed = true ∧ after.program ≠ yieldAfterInit)
          fun _ _ => False) ∧
      (Operator.semaphore { positions := [0] }).mutates = false ∧
        (Operator.semaphore { positions := [0] }).check = .ok () ∧
        Runs ((Operator.semaphore { positions := [0] }).run .identity) { program := yieldAfterInit }
          (fun changed after => changed = true ∧ after.program ≠ yieldAfterInit)
          fun _ _ => False :=
  ⟨consistent_yieldAfterInit, ⟨rfl, rfl, by decide +kernel⟩, rfl, rfl, by decide +kernel⟩

end Operator

end ConcurrencyFaults

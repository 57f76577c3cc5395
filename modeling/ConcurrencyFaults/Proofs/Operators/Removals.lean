import ConcurrencyFaults.Proofs.Locking.Removal
import ConcurrencyFaults.Proofs.Operators.Attributes

/-!
# Operators that take candidates away

The operators on fences, joins, signals and waits can erase what they are asked for, and the
operator on volatile accesses leaves an ordinary access behind, so that in either case a candidate
is none any more.  This file is about one request for a candidate that is as it was found: it is
erased and the rest of the program is cleared of its result (`Operator.clears_change`).  Only a
signal without an argument is passed over.

Whatever such a request leaves in the journal, it is none of the warnings by which requests are
declined (`Entry.isDeclineWarning`).  These are known by their last words.

## Strategy

Two things are followed side by side, the program and the warnings about declined requests, so
`Work.Clears` speaks of both.

* **Warnings.**  `declineWarnings` is the list that the positions of a run should leave.  It grows
  by one request at a time (`declineWarnings_concat`).  That nothing else counts as such a warning
  is a comparison of words: of two ends of one message, the shorter is an end of the longer
  (`isDeclineWarning_warning`).
* **Programs.**  `Program.Cleared` says that the program is the one at the start without some
  instructions, with constants where these were read.  One more erasure clears it of one more
  (`Cleared.exists_erase` for fences, `CallSite.exists_remove` for calls).
* **Operators.**  Each has its own code around the erasure, with a note here and a mark there, hence
  one lemma for each; `clears_change` joins them.
-/

namespace ConcurrencyFaults

open Program Work

/-! ## Declined requests

A request is declined because of its number, or because something was done to its candidate already.
Both are written as warnings, among others that are about something else. -/

/-- How the warnings end that decline a request: its position is out of bounds or was used up
before, or its candidate was edited before. -/
def Entry.declineEndings : List String :=
  [" candidates)", " was already mutated", " was already mutated in this run, skipping"]

/-- Whether an entry is a warning by which a request was declined, which its last words tell. -/
def Entry.isDeclineWarning (entry : Entry) : Bool :=
  entry.kind == .warning &&
    declineEndings.any fun ending => ending.toList.isSuffixOf entry.message.toList

/-- The warning about a request for a position that comes after some others, if there is one. -/
def declineWarning? (pass : String) (candidates : Nat) (earlier : List Nat) (position : Nat) :
    Option Entry :=
  if candidates ≤ position then some (.outOfBounds pass position candidates)
  else if position ∈ earlier then some (.alreadyMutated pass position)
  else none

/-- The warnings about requested positions, in the order of the requests: one for each that is out
of bounds, and one for each that was requested before. -/
def declineWarnings (pass : String) (candidates : Nat) (positions : List Nat) : List Entry :=
  positions.zipIdx.filterMap fun (position, request) =>
    declineWarning? pass candidates (positions.take request) position

/-- The warnings about declined requests that were left so far. -/
def Ledger.declineWarnings (ledger : Ledger) : List Entry :=
  ledger.journal.entries.filter Entry.isDeclineWarning

namespace Entry

theorem isDeclineWarning_outOfBounds (pass : String) (position candidates : Nat) :
    (outOfBounds pass position candidates).isDeclineWarning = true := by
  have hend : " candidates)".toList <:+ (outOfBounds pass position candidates).message.toList := by
    simp only [outOfBounds, warning, String.toList_append]
    exact List.suffix_append _ _
  exact List.any_eq_true.mpr ⟨_, by simp [declineEndings], List.isSuffixOf_iff_suffix.mpr hend⟩

theorem isDeclineWarning_alreadyMutated (pass : String) (position : Nat) :
    (alreadyMutated pass position).isDeclineWarning = true := by
  have hend : " was already mutated".toList <:+ (alreadyMutated pass position).message.toList := by
    simp only [alreadyMutated, warning, String.toList_append]
    exact List.suffix_append _ _
  exact List.any_eq_true.mpr ⟨_, by simp [declineEndings], List.isSuffixOf_iff_suffix.mpr hend⟩

theorem isDeclineWarning_of_kind {entry : Entry} (hkind : entry.kind ≠ .warning) :
    entry.isDeclineWarning = false := by
  simp [isDeclineWarning, hkind]

/-- Whether no message with this end declines a request. -/
def endsOtherwise (back : String) : Bool :=
  declineEndings.all fun ending =>
    !ending.toList.isSuffixOf back.toList && !back.toList.isSuffixOf ending.toList

/-- A message that ends with other words is about something else. -/
theorem isDeclineWarning_warning (front : String) {back : String}
    (hback : endsOtherwise back = true) :
    (warning (front ++ back)).isDeclineWarning = false := by
  rw [isDeclineWarning, Bool.and_eq_false_iff, List.any_eq_false]
  refine Or.inr fun ending hending hends => ?_
  have hother := List.all_eq_true.mp hback ending hending
  simp only [Bool.and_eq_true, Bool.not_eq_true', ← Bool.not_eq_true,
    List.isSuffixOf_iff_suffix] at hother hends
  -- of two ends of one message the shorter is an end of the longer
  have hmessage : back.toList <:+ (warning (front ++ back)).message.toList := by
    simp only [warning, String.toList_append]
    exact List.suffix_append _ _
  exact (List.suffix_or_suffix_of_suffix hends hmessage).elim hother.1 hother.2

end Entry

theorem declineWarnings_concat (pass : String) (candidates : Nat) (earlier : List Nat)
    (position : Nat) :
    declineWarnings pass candidates (earlier ++ [position]) =
      declineWarnings pass candidates earlier ++
        (declineWarning? pass candidates earlier position).toList := by
  -- earlier requests look at what came before them, which the new one does not change
  have hearlier : earlier.zipIdx.filterMap (fun (requested, request) =>
        declineWarning? pass candidates ((earlier ++ [position]).take request) requested) =
      declineWarnings pass candidates earlier := by
    refine List.filterMap_congr fun (requested, request) hmem => ?_
    have hlt := List.snd_lt_of_mem_zipIdx hmem
    dsimp only
    rw [List.take_append_of_le_length (by simpa using Nat.le_of_lt hlt)]
  rw [declineWarnings, List.zipIdx_append, List.filterMap_append, hearlier]
  cases hwarning : declineWarning? pass candidates earlier position <;> simp [hwarning]

theorem declineWarnings_concat_of_first {pass : String} {candidates position : Nat}
    {earlier : List Nat} (hlt : position < candidates) (hfirst : position ∉ earlier) :
    declineWarnings pass candidates (earlier ++ [position]) =
      declineWarnings pass candidates earlier := by
  rw [declineWarnings_concat, declineWarning?, if_neg (Nat.not_le.mpr hlt), if_neg hfirst,
    Option.toList_none, List.append_nil]

example : declineWarnings "join" 4 [3, 0, 0, 9] =
    [.alreadyMutated "join" 0, .outOfBounds "join" 9 4] := by decide

section Ledger

variable {ledger : Ledger} {entry : Entry}

theorem Ledger.declineWarnings_record (hentry : entry.isDeclineWarning = false) :
    (ledger.record entry).declineWarnings = ledger.declineWarnings := by
  simp [declineWarnings, record, Journal.record, List.filter_append, hentry]

@[simp] theorem Ledger.declineWarnings_markEdited (ledger : Ledger) (handle : Handle) :
    (ledger.markEdited handle).declineWarnings = ledger.declineWarnings := by
  unfold declineWarnings
  rw [journal_markEdited]

theorem Workspace.declineWarnings_warned {state : Workspace}
    (hentry : entry.isDeclineWarning = true) :
    (state.warned entry).ledger.declineWarnings = state.ledger.declineWarnings ++ [entry] := by
  simp [Workspace.warned, Ledger.declineWarnings, Journal.extend, List.filter_append, hentry]

end Ledger

/-! ## Which requests are carried out

The signal is the exception among the operators that erase: a call without an argument names no
condition variable, and the code leaves it alone. -/

namespace Operator

/-- Operators that erase their candidates. -/
def Erases : Operator → Prop
  | .fence plan => plan.change = some .remove
  | .join plan => plan.change = some .remove
  | .signal plan => plan.change = some .remove
  | .wait plan => plan.change = some .remove
  | .lock _ | .atomic _ | .volatile _ | .semaphore _ | .yield _ => False

/-- Operators that make a candidate cease to be one. -/
def TakesAway (operator : Operator) : Prop :=
  operator.Erases ∨ ∃ plan, operator = .volatile plan

/-- Whether a request for a candidate is carried out. -/
def accepts : Operator → Candidate → Bool
  | .signal _, .call site => site.argumentCount != 0
  | _, _ => true

theorem TakesAway.numbersSites {operator : Operator} (htakes : operator.TakesAway) :
    operator.numbersSites = true := by
  rcases htakes with herases | ⟨plan, rfl⟩
  · cases operator with
    | lock plan => exact herases.elim
    | _ => rfl
  · rfl

/-- There is something to do as soon as something is requested. -/
theorem TakesAway.mutates {operator : Operator} (htakes : operator.TakesAway)
    (hpositions : operator.positions ≠ []) : operator.mutates = true := by
  rcases htakes with herases | ⟨plan, rfl⟩
  · cases operator with
    | fence plan | join plan | signal plan | wait plan =>
        exact congrArg Option.isSome (show plan.change = some .remove from herases)
    | _ => exact herases.elim
  · simpa [Operator.mutates, Operator.positions] using hpositions

/-- The candidates of an operator on calls are as they were captured. -/
theorem exists_capture_of_mem {operator : Operator} {program : Program}
    {candidates : List Candidate} {candidate : Candidate} {search : CallSearch}
    (hsearch : operator.search? = some search)
    (hcandidates : operator.candidates program = .ok candidates) (hmem : candidate ∈ candidates) :
    ∃ site, candidate = .call site ∧
      CallSite.capture program site.handle search.demangled = .ok (some site) := by
  obtain ⟨found, hfound, rfl⟩ := exists_found hsearch hcandidates
  obtain ⟨site, hsite, rfl⟩ := List.mem_map.mp hmem
  exact ⟨site, rfl, (CallSearch.finds_iff.mp (CallSearch.finds_of_inProgram hfound hsite)).1⟩

end Operator

/-! ## Requests on single candidates

In all of these the candidate is live, since it was in the program at the start and is not among the
handles that are gone. -/

/-- Work that leaves a program cleared of some instructions and declines nothing. -/
abbrev Work.Clears {Answer : Type} (work : Work Answer) (state : Workspace) (start : Program)
    (gone : List Handle) : Prop :=
  Runs work state (fun _ after => start.Cleared after.program gone ∧
    after.ledger.declineWarnings = state.ledger.declineWarnings) fun _ _ => False

section Requests

variable {start : Program} {state : Workspace} {gone : List Handle}

/-- A change that is put on record is no warning. -/
theorem Work.runs_bind_changed {Answer : Type} {next : Unit → Work Answer}
    {answered : Answer → Workspace → Prop} {refused : EditError → Workspace → Prop}
    {kind : EntryKind} (hkind : kind ≠ .warning) {pass : String} {function : FunctionId}
    {message : String} {location : Option Nat}
    (hnext : ∀ ledger : Ledger, ledger.declineWarnings = state.ledger.declineWarnings →
      Runs (next ()) { state with ledger } answered refused) :
    Runs (recordChange pass kind function message location >>= next) state answered refused :=
  runs_bind_record (hnext _ (Ledger.declineWarnings_record (Entry.isDeclineWarning_of_kind hkind)))

/-- A fence is erased if nothing reads it. -/
theorem FenceOperator.clears_remove {site : MemorySite} {entry : Placed}
    (consistent : start.Consistent) (fencesUnread : start.FencesUnread)
    (hplaced : start.placed? site.handle = some entry)
    (hfence : entry.instruction.operation.IsFence) (hcleared : start.Cleared state.program gone)
    (hstays : site.handle ∉ gone) :
    Work.Clears (do
      FenceOperator.remove site
      return true) state start (gone ++ [site.handle]) := by
  -- a fence that is not read has no uses, and it does not end its block
  have hunused : start.useCount site.handle = .ok 0 :=
    (useCount_eq_zero_iff consistent hplaced).mpr fun reader found hfound _ =>
      fencesUnread site.handle reader found ⟨entry, hplaced, hfence⟩ hfound
  have hbranch : entry.branch? = none := by
    obtain ⟨order, scope, hoperation⟩ := hfence
    rw [Placed.branch?, hoperation]
    rfl
  obtain ⟨instruction, after, herase, hafter⟩ :=
    hcleared.exists_erase consistent hplaced hunused hbranch hstays
  simp only [remove, bind_assoc]
  exact runs_bind_edit herase (runs_bind_changed (by decide) fun ledger hledger =>
    runs_pure ⟨hafter, hledger⟩)

/-- The flag of an access is cleared whether or not it has one, and no request is declined. -/
theorem VolatileOperator.quiet_clear {site : MemorySite} {entry : Placed}
    (hplaced : state.program.placed? site.handle = some entry) :
    Runs (VolatileOperator.clear site) state
      (fun _ after => after.ledger.declineWarnings = state.ledger.declineWarnings)
      fun _ _ => False := by
  unfold clear
  refine runs_bind_query (instruction_of_placed? hplaced) ?_
  cases cleared? entry.instruction.operation with
  | none => exact runs_pure rfl
  | some operation =>
      exact runs_bind_edit (changeInstruction_of_placed? hplaced _)
        (runs_bind_changed (by decide) fun _ hledger => runs_pure hledger)

section Calls

variable {site : CallSite} {demangled : Bool} (consistent : start.Consistent)
  (hcapture : CallSite.capture start site.handle demangled = .ok (some site))
  (hcleared : start.Cleared state.program gone) (hstays : site.handle ∉ gone)
include consistent hcapture hcleared hstays

theorem JoinOperator.clears_remove :
    Work.Clears (do
      let changed ← JoinOperator.remove site
      markEdited site.handle
      return changed) state start (gone ++ [site.handle]) := by
  obtain ⟨removal, after, hremove, hafter⟩ :=
    CallSite.exists_remove hcleared consistent hcapture hstays
  simp only [remove, bind_assoc, pure_bind]
  exact runs_bind_edit hremove (runs_bind_changed (by decide) fun ledger hledger =>
    runs_bind_markEdited (runs_pure ⟨hafter, by simpa using hledger⟩))

theorem Condition.clears_remove (pass : String) :
    Work.Clears (Condition.remove pass site) state start (gone ++ [site.handle]) := by
  obtain ⟨removal, after, hremove, hafter⟩ :=
    CallSite.exists_remove hcleared consistent hcapture hstays
  exact runs_bind_edit hremove (runs_bind_markEdited (runs_bind_changed (by decide)
    fun ledger hledger => runs_pure ⟨hafter, by simpa using hledger⟩))

/-- Without an argument the signal stays. -/
theorem SignalOperator.clears_apply :
    Work.Clears (SignalOperator.apply .remove site) state start
      (if site.argumentCount != 0 then gone ++ [site.handle] else gone) := by
  unfold SignalOperator.apply
  by_cases hcount : site.argumentCount = 0
  · rw [if_pos hcount, if_neg (by simp [hcount])]
    refine runs_bind_warn (runs_pure ⟨hcleared, Ledger.declineWarnings_record ?_⟩)
    exact Entry.isDeclineWarning_warning _ (by decide)
  · rw [if_neg hcount, if_pos (by simpa using hcount)]
    exact Condition.clears_remove consistent hcapture hcleared hstays _

end Calls

namespace Operator

variable {operator : Operator} {candidates : List Candidate} {candidate : Candidate}

/-- A request that is carried out erases its candidate, and one that is not leaves the program
alone. -/
theorem clears_change (consistent : start.Consistent) (fencesUnread : start.FencesUnread)
    (herases : operator.Erases) (hcandidates : operator.candidates start = .ok candidates)
    (hmem : candidate ∈ candidates) (hcleared : start.Cleared state.program gone)
    (hstays : candidate.handle ∉ gone) (request : Nat) :
    Work.Clears (operator.change request candidate) state start
      (if operator.accepts candidate then gone ++ [candidate.handle] else gone) := by
  cases operator with
  | fence plan =>
      rw [eq_accesses rfl hcandidates] at hmem
      obtain ⟨site, hsite, rfl⟩ := List.mem_map.mp hmem
      obtain ⟨entry, hplaced, hfence⟩ := MemorySite.liveFence_of_mem_fences consistent hsite
      simp only [change, show plan.change = some .remove from herases]
      exact FenceOperator.clears_remove consistent fencesUnread hplaced hfence hcleared hstays
  | join plan =>
      obtain ⟨site, rfl, hcapture⟩ := exists_capture_of_mem rfl hcandidates hmem
      simp only [change, show plan.change = some .remove from herases]
      exact JoinOperator.clears_remove consistent hcapture hcleared hstays
  | signal plan =>
      obtain ⟨site, rfl, hcapture⟩ := exists_capture_of_mem rfl hcandidates hmem
      simp only [change, show plan.change = some .remove from herases]
      exact SignalOperator.clears_apply consistent hcapture hcleared hstays
  | wait plan =>
      obtain ⟨site, rfl, hcapture⟩ := exists_capture_of_mem rfl hcandidates hmem
      simp only [change, show plan.change = some .remove from herases]
      exact Condition.clears_remove consistent hcapture hcleared hstays _
  | _ => exact herases.elim

theorem quiet_search {Answer : Type} {next : Answer → Course}
    {question : Program → Except EditError Answer} (hstart : state.ledger.declineWarnings = []) :
    Runs (do
      let found ← query question
      return next found) state (fun _ prepared => prepared.ledger.declineWarnings = [])
      fun _ _ => True :=
  runs_bind_query_of (fun _ _ => runs_pure hstart) fun _ _ => trivial

theorem quiet_course (htakes : operator.TakesAway) (oracle : AliasOracle)
    (hstart : state.ledger.declineWarnings = []) :
    Runs (operator.course oracle) state (fun _ prepared => prepared.ledger.declineWarnings = [])
      fun _ _ => True := by
  have hwarned (front : String) {back : String} (hback : Entry.endsOtherwise back = true) :
      (state.ledger.record (.warning (front ++ back))).declineWarnings = [] :=
    (Ledger.declineWarnings_record (Entry.isDeclineWarning_warning front hback)).trans hstart
  rcases htakes with herases | ⟨plan, rfl⟩
  · cases operator with
    | fence plan =>
        simp only [course, show plan.change = some .remove from herases]
        exact runs_bind (runs_get (runs_pure hstart))
    | join plan =>
        simp only [course, show plan.change = some .remove from herases]
        split
        · exact runs_bind_warn (runs_pure (hwarned _ (by decide)))
        · exact quiet_search hstart
    | signal plan =>
        simp only [course, show plan.change = some .remove from herases]
        split
        · exact runs_bind_warn (quiet_search (hwarned _ (by decide)))
        · exact quiet_search hstart
    | wait plan =>
        simp only [course, show plan.change = some .remove from herases]
        exact quiet_search hstart
    | _ => exact herases.elim
  · exact runs_bind (runs_get (runs_pure hstart))

end Operator

end Requests

end ConcurrencyFaults

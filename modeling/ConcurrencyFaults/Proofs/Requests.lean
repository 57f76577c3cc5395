import ConcurrencyFaults.Operator.Requests
import ConcurrencyFaults.Proofs.Sites

/-!
# Handling requests

A run searches its sites once and then changes them one after another, so each change must leave
the sites of later requests alone.  What a piece of work leaves behind is `Settled`: it is a
revision about some handles, and whatever it was about is marked as edited afterwards.  Sites that
are not marked are therefore still as they were captured (`Tracked`), and marked ones are never
handled again.

The rules for `Runs` in this file follow work step by step; none of them needs to know why a run may
be refused.

## Strategy

* Every step of work has a rule `runs_bind_…`, which says in which workspace the rest goes on.  Of
  the ledger only marks and used positions are looked at, so entries are arbitrary.
* A handler is shown to be `Settled` about the site that it is given.  It may rely on this site
  being intact.
* `Tracked.settled` then carries the sites of the whole run over the request, and `runs_anyOf`
  chains the requests (`runs_anySite`, `runs_anyCall`).
* A run is refused by a search, which meets a call of a function that does not exist, or by the
  erasure of a fence that is read; `Refusal` says that one of these was there at the start.
-/

namespace ConcurrencyFaults

/-! ## Marks

Marks are added and never taken back, and nothing else in a ledger has to do with them. -/

namespace Ledger

variable {ledger : Ledger} {handle : Handle}

@[simp] theorem isEdited_record (entry : Entry) :
    (ledger.record entry).isEdited handle = ledger.isEdited handle := rfl

@[simp] theorem isEdited_markEdited_iff {marked : Handle} :
    (ledger.markEdited marked).isEdited handle ↔ handle = marked ∨ ledger.isEdited handle := by
  unfold markEdited
  split
  · rename_i hmarked
    constructor
    · exact Or.inr
    · rintro (rfl | hedited)
      · exact hmarked
      · exact hedited
  · simp [isEdited]

@[simp] theorem isEdited_claim (pass : String) (position candidates : Nat) :
    (ledger.claim pass position candidates).2.isEdited handle = ledger.isEdited handle := by
  unfold claim
  split
  · rfl
  · split <;> rfl

@[simp] theorem isEdited_claimOrWarn (pass : String) (position candidates : Nat) :
    (ledger.claimOrWarn pass position candidates).2.isEdited handle = ledger.isEdited handle := by
  have hclaim := @isEdited_claim ledger handle pass position candidates
  unfold claimOrWarn
  split
  rename_i claim claimed hresult
  rw [hresult] at hclaim
  split <;> exact hclaim

/-- Marks every handle of a list. -/
def markAll (ledger : Ledger) (handles : List Handle) : Ledger := handles.foldl markEdited ledger

@[simp] theorem isEdited_markAll_iff {handles : List Handle} :
    (ledger.markAll handles).isEdited handle ↔ handle ∈ handles ∨ ledger.isEdited handle := by
  induction handles generalizing ledger with
  | nil => simp [markAll]
  | cons first rest ih =>
      rw [markAll, List.foldl_cons]
      refine ih.trans ?_
      rw [isEdited_markEdited_iff, List.mem_cons]
      constructor
      · rintro (hmem | rfl | hedited)
        · exact Or.inl (Or.inr hmem)
        · exact Or.inl (Or.inl rfl)
        · exact Or.inr hedited
      · rintro ((rfl | hmem) | hedited)
        · exact Or.inr (Or.inl rfl)
        · exact Or.inl hmem
        · exact Or.inr (Or.inr hedited)

/-- A claim either leaves a warning or uses up the unused position of a candidate. -/
theorem claimOrWarn_cases (ledger : Ledger) (pass : String) (position candidates : Nat) :
    (∃ message, ledger.claimOrWarn pass position candidates = (false, ledger.warn message)) ∨
      position < candidates ∧ ledger.isUsed pass position = false ∧
        ledger.claimOrWarn pass position candidates =
          (true, { ledger with used := (pass, position) :: ledger.used }) := by
  unfold claimOrWarn claim
  by_cases hbound : position ≥ candidates
  · rw [if_pos hbound]
    exact Or.inl ⟨_, rfl⟩
  · rw [if_neg hbound]
    cases hused : ledger.isUsed pass position with
    | true => exact Or.inl ⟨_, rfl⟩
    | false => exact Or.inr ⟨Nat.lt_of_not_ge hbound, rfl, rfl⟩

end Ledger

/-! ## Following work

Each rule takes one step off the front of a piece of work. -/

namespace Work

variable {Answer Other : Type} {workspace : Workspace} {next : Answer → Work Other}
  {answered : Other → Workspace → Prop} {refused : EditError → Workspace → Prop}

theorem query_apply_of_ok {question : Program → Except EditError Answer} {answer : Answer}
    (hquestion : question workspace.program = .ok answer) :
    query question workspace = .ok answer workspace := by
  unfold query
  rw [bind_apply_of_ok (get_apply workspace), hquestion]
  rfl

theorem runs_query {question : Program → Except EditError Answer} {answer : Answer}
    {answered : Answer → Workspace → Prop} (hquestion : question workspace.program = .ok answer)
    (hanswered : answered answer workspace) : Runs (query question) workspace answered refused :=
  runs_of_ok (query_apply_of_ok hquestion) hanswered

theorem runs_bind_query {question : Program → Except EditError Answer} {answer : Answer}
    (hquestion : question workspace.program = .ok answer)
    (hnext : Runs (next answer) workspace answered refused) :
    Runs (query question >>= next) workspace answered refused :=
  runs_bind (runs_query hquestion hnext)

/-- A question that may be refused is asked of the program as it is. -/
theorem runs_bind_query_of {question : Program → Except EditError Answer}
    (hok : ∀ answer, question workspace.program = .ok answer →
      Runs (next answer) workspace answered refused)
    (herror : ∀ problem, question workspace.program = .error problem → refused problem workspace) :
    Runs (query question >>= next) workspace answered refused := by
  cases hquestion : question workspace.program with
  | ok answer => exact runs_bind_query hquestion (hok answer hquestion)
  | error problem =>
      refine runs_bind (runs_of_error ?_ (herror problem hquestion))
      unfold query
      rw [bind_apply_of_ok (get_apply workspace), hquestion]
      rfl

theorem runs_bind_edit {change : Edit Answer} {answer : Answer} {after : Program}
    (hchange : change workspace.program = .ok answer after)
    (hnext : Runs (next answer) { workspace with program := after } answered refused) :
    Runs (edit change >>= next) workspace answered refused := by
  refine runs_bind (runs_of_ok ?_ hnext)
  unfold edit
  rw [hchange]

theorem runs_bind_update {change : Program → Answer × Program}
    (hnext : Runs (next (change workspace.program).1)
      { workspace with program := (change workspace.program).2 } answered refused) :
    Runs (update change >>= next) workspace answered refused :=
  runs_bind hnext

theorem runs_bind_noteWith {change : Ledger → Answer × Ledger}
    (hnext : Runs (next (change workspace.ledger).1)
      { workspace with ledger := (change workspace.ledger).2 } answered refused) :
    Runs (noteWith change >>= next) workspace answered refused :=
  runs_bind hnext

variable {next : Unit → Work Other}

theorem runs_bind_record {entry : Entry}
    (hnext : Runs (next ()) { workspace with ledger := workspace.ledger.record entry }
      answered refused) : Runs (record entry >>= next) workspace answered refused :=
  runs_bind_noteWith hnext

theorem runs_bind_warn {message : String}
    (hnext : Runs (next ()) { workspace with ledger := workspace.ledger.record (.warning message) }
      answered refused) : Runs (warn message >>= next) workspace answered refused := by
  unfold warn
  exact runs_bind_record hnext

theorem runs_recordChange {pass : String} {kind : EntryKind} {function : FunctionId}
    {message : String} {location : Option Nat} {answered : Unit → Workspace → Prop}
    (hanswered : ∀ entry, answered () { workspace with ledger := workspace.ledger.record entry }) :
    Runs (recordChange pass kind function message location) workspace answered refused :=
  hanswered _

theorem runs_bind_recordChange {pass : String} {kind : EntryKind} {function : FunctionId}
    {message : String} {location : Option Nat}
    (hnext : ∀ entry, Runs (next ()) { workspace with ledger := workspace.ledger.record entry }
      answered refused) :
    Runs (recordChange pass kind function message location >>= next) workspace answered
      refused := by
  unfold recordChange
  exact runs_bind_record (hnext _)

theorem runs_bind_markEdited {handle : Handle}
    (hnext : Runs (next ()) { workspace with ledger := workspace.ledger.markEdited handle }
      answered refused) : Runs (markEdited handle >>= next) workspace answered refused :=
  runs_bind_noteWith hnext

theorem runs_bind_markAll {handles : List Handle}
    (hnext : Runs (next ()) { workspace with ledger := workspace.ledger.markAll handles }
      answered refused) : Runs (handles.forM markEdited >>= next) workspace answered refused := by
  refine runs_bind ?_
  induction handles generalizing workspace with
  | nil => exact hnext
  | cons first rest ih => exact runs_bind_markEdited (ih hnext)

theorem runs_bind_recordAll {entries : List Entry}
    (hnext : ∀ ledger, Runs (next ()) { workspace with ledger } answered refused) :
    Runs (entries.forM record >>= next) workspace answered refused := by
  refine runs_bind ?_
  induction entries generalizing workspace with
  | nil => exact hnext workspace.ledger
  | cons first rest ih => exact runs_bind_record (ih hnext)

end Work

/-! ## Settled work

`Revised` allows a revision to be about any handles; here the handles are bounded by what was asked
for, and those that were affected are marked. -/

open Program

/-- A revision about some instructions, during which no mark was lost. -/
structure Revises (gone : List Handle) (before after : Workspace) : Prop where
  revised : before.program.Revised after.program gone
  edited : ∀ handle, before.ledger.isEdited handle → after.ledger.isEdited handle

/-- The work was about some of the handles and has marked those. -/
def Settled (handles : List Handle) (before after : Workspace) : Prop :=
  ∃ gone ⊆ handles, Revises gone before after ∧ ∀ handle ∈ gone, after.ledger.isEdited handle

/-- The program is consistent, and terminated if the run started with a terminated one. -/
structure Upheld (start after : Program) : Prop where
  consistent : after.Consistent
  terminated : start.Terminated → after.Terminated

theorem Upheld.refl {program : Program} (consistent : program.Consistent) :
    Upheld program program :=
  ⟨consistent, fun terminated => terminated⟩

/-- Besides, the sites of the run are as they were found unless they are marked as edited. -/
structure Tracked (start : Program) (sites : List CallSite) (workspace : Workspace) : Prop
    extends Upheld start workspace.program where
  intact : ∀ site ∈ sites, workspace.ledger.isEdited site.handle ∨ site.Intact workspace.program

variable {start : Program} {sites : List CallSite} {before between after workspace : Workspace}
  {handles gone : List Handle} {handle : Handle}

theorem Settled.of_revised (hrevised : before.program.Revised after.program gone)
    (hgone : gone ⊆ handles)
    (hedited : ∀ handle, handle ∈ gone ∨ before.ledger.isEdited handle →
      after.ledger.isEdited handle) : Settled handles before after :=
  ⟨gone, hgone, ⟨hrevised, fun handle h => hedited handle (Or.inr h)⟩,
    fun handle h => hedited handle (Or.inl h)⟩

/-- Work about one instruction has to mark it. -/
theorem Settled.of_marked {program : Program} {ledger : Ledger}
    (hrevised : before.program.Revised program [handle]) (hmarked : ledger.isEdited handle)
    (hedited : ∀ other, before.ledger.isEdited other → ledger.isEdited other) :
    Settled [handle] before { program, ledger } := by
  refine Settled.of_revised hrevised (List.Subset.refl _) ?_
  rintro other (hmem | hbefore)
  · rw [List.mem_singleton.mp hmem]
    exact hmarked
  · exact hedited other hbefore

/-- Work about no instruction in particular has to keep marks. -/
theorem Settled.of_kept {program : Program} {ledger : Ledger}
    (hrevised : before.program.Revised program [])
    (hedited : ∀ other, before.ledger.isEdited other → ledger.isEdited other)
    (handles : List Handle) : Settled handles before { program, ledger } :=
  Settled.of_revised hrevised (List.nil_subset _) fun other hmarked =>
    hedited other (by simpa using hmarked)

theorem Settled.of_noted (consistent : workspace.program.Consistent) {ledger : Ledger}
    (hedited : ∀ handle, workspace.ledger.isEdited handle → ledger.isEdited handle)
    (handles : List Handle) : Settled handles workspace { workspace with ledger } :=
  Settled.of_kept (Revised.refl consistent []) hedited handles

theorem Settled.of_record (consistent : workspace.program.Consistent) (entry : Entry)
    (handles : List Handle) :
    Settled handles workspace { workspace with ledger := workspace.ledger.record entry } :=
  @Settled.of_noted workspace consistent (workspace.ledger.record entry) (fun _ h => h) handles

theorem Settled.refl (consistent : workspace.program.Consistent) (handles : List Handle) :
    Settled handles workspace workspace :=
  Settled.of_noted consistent (fun _ h => h) handles

theorem Settled.trans {later : List Handle} (hfirst : Settled handles before between)
    (hsecond : Settled later between after) : Settled (handles ++ later) before after := by
  obtain ⟨gone, hgone, hrevises, hmarked⟩ := hfirst
  obtain ⟨goneLater, hgoneLater, hrevisesLater, hmarkedLater⟩ := hsecond
  refine ⟨gone ++ goneLater, ?_, ⟨?_, ?_⟩, ?_⟩
  · exact List.append_subset.mpr ⟨fun _ hmem => List.mem_append_left _ (hgone hmem),
      fun _ hmem => List.mem_append_right _ (hgoneLater hmem)⟩
  · exact (hrevises.revised.mono (List.subset_append_left _ _)).trans hrevisesLater.revised
      fun handle hmem => Or.inl (List.mem_append_right _ hmem)
  · exact fun handle hedited => hrevisesLater.edited handle (hrevises.edited handle hedited)
  · intro handle hmem
    rcases List.mem_append.mp hmem with hmem | hmem
    · exact hrevisesLater.edited handle (hmarked handle hmem)
    · exact hmarkedLater handle hmem

theorem Settled.consistent (hsettled : Settled handles before after) :
    after.program.Consistent := by
  obtain ⟨gone, -, hrevises, -⟩ := hsettled
  exact hrevises.revised.consistent

/-- Work about other handles leaves a site as it is. -/
theorem Settled.intact {site : CallSite} (hsettled : Settled handles before after)
    (hintact : site.Intact before.program) (hother : site.handle ∉ handles) :
    site.Intact after.program := by
  obtain ⟨gone, hgone, hrevises, -⟩ := hsettled
  exact hintact.kept hrevises.revised.toKept fun hmem => hother (hgone hmem)

namespace Tracked

theorem settled (tracked : Tracked start sites before) (hsettled : Settled handles before after) :
    Tracked start sites after := by
  obtain ⟨gone, -, hrevises, hmarked⟩ := hsettled
  refine ⟨⟨hrevises.revised.consistent, fun hstart => ?_⟩, fun site hsite => ?_⟩
  · exact hrevises.revised.terminated (tracked.terminated hstart)
  -- what the work was about is marked by now, any other site is as it was
  · by_cases hgone : site.handle ∈ gone
    · exact Or.inl (hmarked _ hgone)
    · rcases tracked.intact site hsite with hedited | hintact
      · exact Or.inl (hrevises.edited _ hedited)
      · exact Or.inr (hintact.kept hrevises.revised.toKept hgone)

/-- Notes in the ledger do not matter as long as marks stay. -/
theorem noted (tracked : Tracked start sites workspace) {ledger : Ledger}
    (hedited : ∀ handle, workspace.ledger.isEdited handle → ledger.isEdited handle) :
    Tracked start sites { workspace with ledger } :=
  tracked.settled (Settled.of_noted tracked.consistent hedited [])

theorem recorded (tracked : Tracked start sites workspace) (entry : Entry) :
    Tracked start sites { workspace with ledger := workspace.ledger.record entry } :=
  @noted start sites workspace tracked (workspace.ledger.record entry) fun _ h => h

/-- At the start of a run every site that was found is intact. -/
theorem of_finds {search : CallSearch} {program : Program} (ledger : Ledger)
    (consistent : program.Consistent) (hfinds : ∀ site ∈ sites, search.Finds program site) :
    Tracked program sites { program, ledger } :=
  ⟨Upheld.refl consistent, fun site hsite => Or.inr (hfinds site hsite).intact⟩

end Tracked

/-! ## Refusals

A fence has no result to speak of, but nothing keeps a program from reading it. -/

def Operation.IsFence (operation : Operation) : Prop :=
  ∃ order scope, operation = .fence order scope

/-- The instruction is live and a fence. -/
def Program.LiveFence (program : Program) (handle : Handle) : Prop :=
  ∃ entry, program.placed? handle = some entry ∧ entry.instruction.operation.IsFence

/-- No live instruction reads the result of a live fence. -/
def Program.FencesUnread (program : Program) : Prop :=
  ∀ fence reader found, program.LiveFence fence → program.placed? reader = some found →
    found.instruction.operation.useCount fence = 0

/-- Calls name functions that exist, and no fence is read. -/
structure Program.Answerable (program : Program) : Prop where
  calleesExist : program.CalleesExist
  fencesUnread : program.FencesUnread

/-- What a run that is refused leaves behind, and what it needs to be refused. -/
def Refusal (start : Program) : EditError → Workspace → Prop := fun _ after =>
  Upheld start after.program ∧ ¬ start.Answerable

/-! ## Requests

A request claims its position, looks at its site, and only then hands it to the operator. -/

namespace Work

variable {Request : Type} {requests : List Request} {refused : EditError → Workspace → Prop}

/-- Requests keep what each of them keeps. -/
theorem runs_anyOf {handle : Request → Work Bool} (invariant : Workspace → Prop)
    (hstep : ∀ request ∈ requests, ∀ state, invariant state →
      Runs (handle request) state (fun _ => invariant) refused) (hstart : invariant workspace) :
    Runs (anyOf requests handle) workspace (fun _ => invariant) refused := by
  refine runs_foldlM (fun _ => invariant) (fun request hmem changed state hstate => ?_) hstart
  refine (hstep request hmem state hstate).bind fun _ _ hafter => ?_
  exact runs_pure hafter

/-- A site is untouched only if it is intact. -/
theorem runs_isUntouched {pass : String} {site : CallSite} (tracked : Tracked start sites workspace)
    (hsite : site ∈ sites) :
    Runs (isUntouched pass site) workspace
      (fun answer after => Tracked start sites after ∧ Settled [] workspace after ∧
        (answer = true → site.Intact after.program)) refused := by
  unfold isUntouched isEdited
  refine runs_bind (runs_bind (runs_get ?_))
  refine runs_pure ?_
  cases hedited : workspace.ledger.isEdited site.handle with
  | true =>
      have hsettled := Settled.of_record tracked.consistent (.warning
        (pass ++ ": call " ++ site.handle.text ++ " was already mutated in this run, skipping")) []
      refine runs_bind_warn (runs_pure ⟨tracked.settled hsettled, hsettled, ?_⟩)
      exact fun h => absurd h (by simp)
  | false =>
      have hintact : site.Intact workspace.program := by
        rcases tracked.intact site hsite with hmarked | hintact
        · rw [hedited] at hmarked
          exact absurd hmarked (by simp)
        · exact hintact
      refine runs_bind (runs_get ?_)
      rw [hintact.validate]
      exact runs_pure ⟨tracked, Settled.refl tracked.consistent [], fun _ => hintact⟩

/-- Memory sites are handled one at a time, each under a position that is used up first. -/
theorem runs_anySite {pass : String} {memorySites : List MemorySite} {positions : List Nat}
    {handle : Nat → MemorySite → Work Bool} (invariant : Workspace → Prop)
    (hnoted : ∀ state entry, invariant state →
      invariant { state with ledger := state.ledger.record entry })
    (hstep : ∀ position request site state, memorySites[position]? = some site →
      invariant state → state.ledger.isUsed pass position = false →
        Runs (handle request site) { state with
          ledger := { state.ledger with used := (pass, position) :: state.ledger.used } }
          (fun _ => invariant) refused)
    (hstart : invariant workspace) :
    Runs (anySite pass memorySites positions handle) workspace (fun _ => invariant) refused := by
  refine runs_anyOf invariant ?_ hstart
  rintro ⟨position, request⟩ - state hstate
  refine runs_bind_noteWith ?_
  rcases state.ledger.claimOrWarn_cases pass position memorySites.length with
    ⟨message, hclaim⟩ | ⟨hlt, hunused, hclaim⟩
  · rw [hclaim]
    exact runs_pure (hnoted state (.warning message) hstate)
  · have hsite := List.getElem?_eq_getElem hlt
    rw [hclaim, if_pos rfl, hsite]
    exact hstep position request _ state hsite hstate hunused

/-- What is done for one request for a found call. -/
def callRequest (pass : String) (found : FoundCalls) (handle : Nat → CallSite → Work Bool) :
    Nat × Nat → Work Bool := fun (position, request) => do
  match ← claimCall pass found position with
  | none => return false
  | some site => if ← isUntouched pass site then handle request site else return false

theorem anyCall_eq (pass : String) (found : FoundCalls) (positions : List Nat)
    (handle : Nat → CallSite → Work Bool) :
    anyCall pass found positions handle =
      anyOf positions.zipIdx (callRequest pass found handle) := rfl

section Calls

variable {pass : String} {found : FoundCalls} {handle : Nat → CallSite → Work Bool}
  (hstep : ∀ request site state, site ∈ found.sites → state.program.Consistent →
    site.Intact state.program →
      Runs (handle request site) state (fun _ => Settled [site.handle] state) refused)
include hstep

/-- A handler needs to know only that its own site is intact. -/
theorem runs_callRequest (tracked : Tracked start found.sites workspace) (request : Nat × Nat) :
    Runs (callRequest pass found handle request) workspace (fun _ => Tracked start found.sites)
      refused := by
  -- a claim takes a position and leaves all marks
  have hclaimed := @Tracked.noted start found.sites workspace tracked
    (workspace.ledger.claimOrWarn pass request.1 found.size).2 (by simp)
  refine runs_bind (runs_bind_noteWith ?_)
  split
  · refine runs_pure ?_
    cases hsite : found.get? request.1 with
    | none => exact runs_pure hclaimed
    | some site =>
        have hmem := FoundCalls.mem_of_get? hsite
        refine (runs_isUntouched hclaimed hmem).bind ?_
        rintro (_ | _) after ⟨tracked, -, hintact⟩
        · exact runs_pure tracked
        · refine (hstep request.2 site after hmem tracked.consistent (hintact rfl)).weaken ?_
          exact fun _ _ hsettled => tracked.settled hsettled
  · exact runs_pure hclaimed

/-- Found calls are handled one at a time. -/
theorem runs_anyCall {positions : List Nat} (tracked : Tracked start found.sites workspace) :
    Runs (anyCall pass found positions handle) workspace
      (fun _ => Tracked start found.sites) refused := by
  rw [anyCall_eq]
  exact runs_anyOf (Tracked start found.sites)
    (fun request _ _ tracked => runs_callRequest hstep tracked request) tracked

end Calls

/-- A search of a consistent program is refused only if a call names a function that does not
exist. -/
theorem runs_bind_search {search : CallSearch} {Answer : Type} {next : FoundCalls → Work Answer}
    {answered : Answer → Workspace → Prop} (consistent : workspace.program.Consistent)
    (hnext : ∀ found, (∀ site ∈ found.sites, search.Finds workspace.program site) →
      Runs (next found) workspace answered (Refusal workspace.program)) :
    Runs (query search.inProgram >>= next) workspace answered (Refusal workspace.program) := by
  refine runs_bind_query_of (fun found hfound => hnext found fun site hmem => ?_) ?_
  · exact CallSearch.finds_of_inProgram hfound hmem
  · intro problem hrefused
    refine ⟨Upheld.refl consistent, fun hanswerable => ?_⟩
    obtain ⟨found, hfound⟩ := search.exists_inProgram consistent hanswerable.calleesExist
    rw [hrefused] at hfound
    cases hfound

/-- Searching calls and handling some of them. -/
theorem runs_searchCalls {search : CallSearch} {pass : String} {positions : List Nat}
    {handle : Nat → CallSite → Work Bool} (consistent : workspace.program.Consistent)
    (hstep : ∀ request site state, state.program.Consistent → site.Intact state.program →
      Runs (handle request site) state (fun _ => Settled [site.handle] state)
        (Refusal workspace.program)) :
    Runs (do
      let found ← query search.inProgram
      anyCall pass found positions handle) workspace
      (fun _ after => Upheld workspace.program after.program) (Refusal workspace.program) := by
  refine runs_bind_search consistent fun found hfinds => ?_
  have tracked := Tracked.of_finds workspace.ledger consistent hfinds
  refine (runs_anyCall (fun request site state _ => hstep request site state) tracked).weaken ?_
  exact fun _ _ tracked => tracked.toUpheld

/-! ## Reports -/

/-- A report changes the journal alone. -/
theorem runs_reportSites (pass : String) (candidates : List (Option Location × String))
    (verbose : Bool) :
    Runs (reportSites pass candidates verbose) workspace
      (fun _ after => after.program = workspace.program) refused := by
  unfold reportSites
  exact runs_bind_recordAll fun ledger => runs_pure rfl

theorem runs_reportCalls (consistent : workspace.program.Consistent) (pass : String)
    (search : CallSearch) (verbose : Bool) :
    Runs (reportCalls pass search verbose) workspace
      (fun _ after => after.program = workspace.program) (Refusal workspace.program) := by
  unfold reportCalls
  exact runs_bind_search consistent fun found _ => runs_reportSites pass _ verbose

/-- Questions about all candidates that are each answered are answered together. -/
theorem runs_bind_mapM {Item Answer Other : Type} {items : List Item}
    {question : Item → Work Answer} {next : List Answer → Work Other}
    {answered : Other → Workspace → Prop}
    (hanswered : ∀ item ∈ items, ∃ answer, question item workspace = .ok answer workspace)
    (hnext : ∀ answers, Runs (next answers) workspace answered refused) :
    Runs (items.mapM question >>= next) workspace answered refused := by
  suffices hall : ∃ answers, items.mapM question workspace = .ok answers workspace by
    obtain ⟨answers, hall⟩ := hall
    exact runs_bind (runs_of_ok hall (hnext answers))
  -- questions leave the workspace alone, so the rest is asked in the same one
  clear hnext
  induction items with
  | nil => exact ⟨[], rfl⟩
  | cons item rest ih =>
      obtain ⟨first, hfirst⟩ := hanswered item (List.mem_cons_self ..)
      obtain ⟨later, hlater⟩ := ih fun other hother =>
        hanswered other (List.mem_cons_of_mem _ hother)
      refine ⟨first :: later, ?_⟩
      rw [List.mapM_cons, bind_apply_of_ok hfirst, bind_apply_of_ok hlater]
      rfl

end Work

end ConcurrencyFaults

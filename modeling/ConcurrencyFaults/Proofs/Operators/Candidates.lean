import ConcurrencyFaults.Proofs.Numbering

/-!
# The candidates of each operator

An operator has two ways of using its numbers.  A report shows the candidates of the program, and a
run claims one number for each request.  Here both are traced back to one list: what the search of
the operator sees (`Operator.candidates`).  Every operator but the one on lock pairs numbers single
instructions, so the list says all there is to say.

## Strategy

* **One list.**  Operators on memory collect accesses and operators on calls search for names.
  Either way the list is found in a consistent program, and no instruction is on it twice
  (`exists_candidates`).
* **Reports** show the list, line by line or as a number (`report_apply`).
* **Runs** are prepared by looking at the program once (`runs_numbered_course`).  There are two
  outcomes, which `Prepared` keeps apart: nothing is to be done, or what is left to do is a numbered
  course on the list.
* **Changes.**  What a request makes of its candidate is one of eight pieces of code, or nothing
  (`Handles`).  Each of them stays with its candidate (`confines_change`) and is answered where the
  candidate is as it was found (`runs_changeAccess`, `runs_changeCall`).

`exists_stages` puts the four together: each request of a run is followed from the list that was
found at the start.  It is what later modules use, so that they need not look at any search again.
-/

namespace ConcurrencyFaults

open Program Work

/-! ## Reports on sites

A report that is not verbose has one line, which stands for all sites.  Both kinds of reports have
the same total, which is the sum over the lines. -/

namespace Report

variable {pass : String} {sites : List (Option Location × String)} {verbose : Bool}

/-- Lines that stand for one candidate each add up to their number. -/
theorem foldl_size_of_forall {lines : List ReportLine}
    (hsingle : ∀ line ∈ lines, line.size = 1) (count : Nat) :
    lines.foldl (fun total line => total + line.size) count = count + lines.length := by
  induction lines generalizing count with
  | nil => rfl
  | cons line rest ih =>
      rw [List.foldl_cons, hsingle line (List.mem_cons_self ..),
        ih fun other hother => hsingle other (List.mem_cons_of_mem _ hother), List.length_cons]
      omega

/-- A report counts its sites, one by one or all at once. -/
theorem total_sites : (Report.sites pass sites verbose).1.total = sites.length := by
  unfold Report.sites
  cases verbose with
  | false => simp [ofCount, total, ReportLine.size]
  | true =>
      have hsingle : ∀ line ∈ (ofSites pass sites).lines, line.size = 1 := by
        intro line hline
        obtain ⟨site, -, rfl⟩ := List.mem_map.mp hline
        rfl
      rw [if_pos rfl]
      calc (ofSites pass sites).total
        _ = 0 + (ofSites pass sites).lines.length := foldl_size_of_forall hsingle 0
        _ = sites.length := by rw [Nat.zero_add, ofSites, List.length_map, List.length_zipIdx]

/-- In a verbose report, each line shows its own position. -/
theorem getElem?_lines_sites (position : Nat) :
    (Report.sites pass sites true).1.lines[position]? =
      sites[position]?.map fun site => .site position site.1 site.2 := by
  simp only [Report.sites, ofSites, if_true, List.getElem?_map, List.getElem?_zipIdx]
  cases sites[position]? <;> simp

end Report

namespace Work

variable {workspace : Workspace}

theorem reportSites_apply (pass : String) (sites : List (Option Location × String))
    (verbose : Bool) :
    reportSites pass sites verbose workspace =
      .ok (Report.sites pass sites verbose).1 { workspace with
        ledger := workspace.ledger.recordAll (Report.sites pass sites verbose).2 } :=
  bind_apply_of_ok (recordAll_apply _) _

theorem mapM_apply_of_ok {Item Answer : Type} {items : List Item} {question : Item → Work Answer}
    {answer : Item → Answer}
    (hanswer : ∀ item ∈ items, question item workspace = .ok (answer item) workspace) :
    items.mapM question workspace = .ok (items.map answer) workspace := by
  induction items with
  | nil => rfl
  | cons item rest ih =>
      rw [List.mapM_cons, bind_apply_of_ok (hanswer item (List.mem_cons_self ..)),
        bind_apply_of_ok (ih fun other hother => hanswer other (List.mem_cons_of_mem _ hother))]
      rfl

end Work

/-- Sorting calls by their form loses none. -/
theorem FoundCalls.perm_sites_ofSites (sites : List CallSite) :
    (ofSites sites).sites.Perm sites :=
  List.perm_append_comm.trans (List.filter_append_perm CallSite.isInvoke sites)

/-! ## What is searched

The definitions below take the operators apart by what they ask of the program: which positions are
requested, which accesses or calls are looked for, and what is to become of one of them. -/

namespace Operator

def positions : Operator → List Nat
  | .lock plan => plan.positions
  | .fence plan => plan.positions
  | .atomic plan => plan.positions
  | .volatile plan => plan.positions
  | .semaphore plan => plan.positions
  | .join plan => plan.positions
  | .signal plan => plan.positions
  | .wait plan => plan.positions
  | .yield plan => plan.positions

/-- Whether reports show candidates one by one. -/
def verbose : Operator → Bool
  | .lock plan => plan.verbose
  | .fence plan => plan.verbose
  | .atomic plan => plan.verbose
  | .volatile plan => plan.verbose
  | .semaphore plan => plan.verbose
  | .join plan => plan.verbose
  | .signal plan => plan.verbose
  | .wait plan => plan.verbose
  | .yield plan => plan.verbose

/-- Whether the operator numbers single instructions. -/
def numbersSites : Operator → Bool
  | .lock _ => false
  | _ => true

/-- The search of an operator on single calls. -/
def search? : Operator → Option CallSearch
  | .semaphore _ => some SemaphoreOperator.search
  | .join plan => some (JoinOperator.search plan)
  | .signal _ => some SignalOperator.search
  | .wait _ => some WaitOperator.search
  | .yield _ => some YieldOperator.search
  | .lock _ | .fence _ | .atomic _ | .volatile _ => none

/-- The accesses that an operator on memory looks for. -/
def accesses (operator : Operator) (program : Program) : List MemorySite :=
  match operator with
  | .fence _ => MemorySite.fences program
  | .atomic plan => AtomicOperator.sites plan.target plan.onlyAtomic program
  | .volatile _ => MemorySite.volatiles program
  | .lock _ | .semaphore _ | .join _ | .signal _ | .wait _ | .yield _ => []

/-- The candidates in the order of their positions. -/
def candidates (operator : Operator) (program : Program) : Except EditError (List Candidate) :=
  match operator.search? with
  | some search => (search.inProgram program).map fun found => found.sites.map .call
  | none => return (operator.accesses program).map .access

/-- What a report says of a candidate beside its location. -/
def detail (operator : Operator) (program : Program) : Candidate → String
  | .access site =>
      match operator with
      | .atomic _ =>
          (program.instruction? site.handle).elim "" fun instruction =>
            AtomicOperator.orderText instruction.operation
      | .volatile _ => site.kind.text
      | _ => ""
  | .call site =>
      match operator with
      | .semaphore _ => SemaphoreOperator.detail site
      | _ => site.name

/-- What the planned change makes of a candidate, for the request with a number. -/
def change (operator : Operator) (request : Nat) : Candidate → Work Bool
  | .access site =>
      match operator with
      | .fence plan =>
          match plan.change with
          | none => return false
          | some change => do
              FenceOperator.apply change request site
              return true
      | .atomic plan =>
          match plan.change with
          | none => return false
          | some change => AtomicOperator.apply plan.target change request site
      | .volatile _ => VolatileOperator.clear site
      | _ => return false
  | .call site =>
      match operator with
      | .semaphore plan => do
          let value ← SemaphoreOperator.valueFor plan request
          SemaphoreOperator.setValue site value
      | .join plan =>
          match plan.change with
          | none => return false
          | some change => do
              let changed ← JoinOperator.apply change site
              markEdited site.handle
              return changed
      | .signal plan =>
          match plan.change with
          | none => return false
          | some change => SignalOperator.apply change site
      | .wait plan =>
          match plan.change with
          | none => return false
          | some change => WaitOperator.apply change request site
      | .yield _ => YieldOperator.remove site
      | _ => return false

/-- Operators of one kind with the same settings for what is a candidate. -/
inductive NumbersLike : Operator → Operator → Prop where
  | fence (plan other : FencePlan) : NumbersLike (.fence plan) (.fence other)
  | atomic {plan other : AtomicPlan} (htarget : other.target = plan.target)
      (honly : other.onlyAtomic = plan.onlyAtomic) : NumbersLike (.atomic plan) (.atomic other)
  | volatile (plan other : VolatilePlan) : NumbersLike (.volatile plan) (.volatile other)
  | semaphore (plan other : SemaphorePlan) : NumbersLike (.semaphore plan) (.semaphore other)
  | join {plan other : JoinPlan} (hposix : other.posix = plan.posix)
      (hstandard : other.standard = plan.standard) : NumbersLike (.join plan) (.join other)
  | signal (plan other : SignalPlan) : NumbersLike (.signal plan) (.signal other)
  | wait (plan other : WaitPlan) : NumbersLike (.wait plan) (.wait other)
  | yield (plan other : YieldPlan) : NumbersLike (.yield plan) (.yield other)

variable {operator finder : Operator} {program : Program} {candidates : List Candidate}

theorem NumbersLike.candidates_eq (hlike : operator.NumbersLike finder) (program : Program) :
    finder.candidates program = operator.candidates program := by
  cases hlike with
  | atomic htarget honly => simp only [Operator.candidates, search?, accesses, htarget, honly]
  | join hposix hstandard =>
      simp only [Operator.candidates, search?, JoinOperator.search, hposix, hstandard]
  | _ => rfl

theorem NumbersLike.numbersSites (hlike : operator.NumbersLike finder) :
    finder.numbersSites = true := by
  cases hlike <;> rfl

/-! ## Candidates are found once

A program lists each of its handles once.  An access stands under its own handle, and the captured
calls of the search keep the handle they were captured at, so no candidate has two numbers. -/

/-- What makes an operation one of the accesses. -/
def memoryKind? (operator : Operator) (program : Program) : Operation → Option MemoryKind :=
  match operator with
  | .fence _ => MemorySite.fenceKind?
  | .atomic plan => AtomicOperator.kind? plan.target plan.onlyAtomic
  | .volatile _ => MemorySite.volatileKind? program
  | .lock _ | .semaphore _ | .join _ | .signal _ | .wait _ | .yield _ => fun _ => none

theorem accesses_eq_collect (operator : Operator) (program : Program) :
    operator.accesses program = MemorySite.collect program (operator.memoryKind? program) := by
  have hnothing : ([] : List MemorySite) = MemorySite.collect program fun _ => none := by
    simp [MemorySite.collect]
  cases operator with
  | fence plan | volatile plan => rfl
  | atomic plan => exact AtomicOperator.sites_eq_collect plan.target plan.onlyAtomic program
  | _ => exact hnothing

theorem listed_accesses (consistent : program.Consistent) (operator : Operator) :
    Listed program ((operator.accesses program).map .access) := by
  rw [accesses_eq_collect]
  constructor
  · intro candidate hmem
    obtain ⟨site, hsite, rfl⟩ := List.mem_map.mp hmem
    obtain ⟨entry, hplaced, -⟩ := MemorySite.placed?_of_mem_collect consistent hsite
    exact ⟨entry, hplaced⟩
  · rw [List.map_map]
    exact MemorySite.nodup_collect consistent

theorem listed_calls {search : CallSearch} {found : FoundCalls} (consistent : program.Consistent)
    (calleesExist : program.CalleesExist) (hfound : search.inProgram program = .ok found) :
    Listed program (found.sites.map .call) := by
  constructor
  · intro candidate hmem
    obtain ⟨site, hsite, rfl⟩ := List.mem_map.mp hmem
    exact (CallSearch.finds_of_inProgram hfound hsite).intact
  · rw [search.inProgram_eq consistent calleesExist] at hfound
    obtain rfl := Except.ok.inj hfound
    have hseen : ((program.handles.filterMap (search.seen program)).map CallSite.handle).Nodup := by
      refine List.pairwise_map.mpr (List.Pairwise.filterMap _ ?_ consistent.handles_nodup)
      rintro handle other hne first hfirst second hsecond
      rw [(CallSearch.seen_eq_some_iff.mp hfirst).1, (CallSearch.seen_eq_some_iff.mp hsecond).1]
      exact hne
    rw [List.map_map]
    exact ((FoundCalls.perm_sites_ofSites _).map CallSite.handle).nodup_iff.mpr hseen

theorem exists_candidates (consistent : program.Consistent) (calleesExist : program.CalleesExist)
    (operator : Operator) :
    ∃ candidates, operator.candidates program = .ok candidates ∧ Listed program candidates := by
  unfold Operator.candidates
  cases operator.search? with
  | none => exact ⟨_, rfl, listed_accesses consistent operator⟩
  | some search =>
      obtain ⟨found, hfound⟩ := search.exists_inProgram consistent calleesExist
      exact ⟨_, Except.map_eq_ok_iff.mpr ⟨found, hfound, rfl⟩,
        listed_calls consistent calleesExist hfound⟩

/-! ## Reports

The report of an operator is compared with the list.  Only that on atomic accesses asks the program
about each line. -/

/-- What a report shows of the candidates. -/
def shown (operator : Operator) (program : Program) (candidates : List Candidate) :
    List (Option Location × String) :=
  candidates.map fun candidate => (candidate.location, operator.detail program candidate)

theorem shown_accesses (operator : Operator) (program : Program) (sites : List MemorySite) :
    operator.shown program (sites.map .access) =
      sites.map fun site => (site.location, operator.detail program (.access site)) := by
  rw [shown, List.map_map]
  rfl

theorem shown_calls (operator : Operator) (program : Program) (sites : List CallSite) :
    operator.shown program (sites.map .call) =
      sites.map fun site => (site.location, operator.detail program (.call site)) := by
  rw [shown, List.map_map]
  rfl

/-- The calls that are candidates are those that the search answers. -/
theorem exists_found {search : CallSearch} (hsearch : operator.search? = some search)
    (hcandidates : operator.candidates program = .ok candidates) :
    ∃ found, search.inProgram program = .ok found ∧ candidates = found.sites.map .call := by
  unfold Operator.candidates at hcandidates
  rw [hsearch] at hcandidates
  obtain ⟨found, hfound, hsites⟩ := Except.map_eq_ok_iff.mp hcandidates
  exact ⟨found, hfound, hsites.symm⟩

theorem eq_accesses (hsearch : operator.search? = none)
    (hcandidates : operator.candidates program = .ok candidates) :
    candidates = (operator.accesses program).map .access := by
  unfold Operator.candidates at hcandidates
  rw [hsearch] at hcandidates
  exact (Except.ok.inj hcandidates).symm

/-- A report shows the candidates. -/
theorem report_apply {workspace : Workspace} (consistent : workspace.program.Consistent)
    (hsites : operator.numbersSites = true)
    (hcandidates : operator.candidates workspace.program = .ok candidates)
    (oracle : AliasOracle) :
    operator.report oracle workspace =
      reportSites operator.name (operator.shown workspace.program candidates) operator.verbose
        workspace := by
  cases operator with
  | lock plan => cases hsites
  | fence plan | volatile plan =>
      rw [eq_accesses rfl hcandidates, shown_accesses]
      rfl
  | atomic plan =>
      obtain rfl := eq_accesses rfl hcandidates
      let shows (site : MemorySite) : Option Location × String :=
        (site.location, (Operator.atomic plan).detail workspace.program (.access site))
      have hlive := (listed_accesses consistent (.atomic plan)).intact
      -- each order is read from the program, which answers for live accesses
      have hlines : (AtomicOperator.sites plan.target plan.onlyAtomic workspace.program).mapM
          (fun site => (do
            let instruction ← Work.query (·.instruction site.handle)
            return (site.location, AtomicOperator.orderText instruction.operation) :
              Work (Option Location × String))) workspace =
          .ok ((AtomicOperator.sites plan.target plan.onlyAtomic workspace.program).map shows)
            workspace := by
        refine mapM_apply_of_ok fun site hsite => ?_
        obtain ⟨entry, hplaced⟩ := hlive (.access site) (List.mem_map_of_mem hsite)
        rw [bind_apply_of_ok (query_apply_of_ok (instruction_of_placed? hplaced))]
        simp only [shows, detail, instruction?_of_placed? hplaced]
        rfl
      rw [shown_accesses]
      exact bind_apply_of_ok hlines _
  | semaphore plan | join plan | signal plan | wait plan | yield plan =>
      obtain ⟨found, hfound, rfl⟩ := exists_found rfl hcandidates
      rw [shown_calls]
      exact bind_apply_of_ok (query_apply_of_ok hfound) _

/-! ## Runs

Before the first request an operator looks for its candidates, and some warn before that.  What the
search leaves is a course, and nothing but notes and warnings has changed until then. -/

section Runs

/-- No request of the operator changes anything. -/
def Idle (operator : Operator) : Prop :=
  operator.mutates = false ∧ ∀ request candidate, operator.change request candidate = pure false

/-- A run was prepared: there is nothing to do, or it is a numbered course on the candidates. -/
structure Prepared (operator : Operator) (before : Workspace) (course : Course)
    (after : Workspace) : Prop where
  program_eq : after.program = before.program
  used_eq : after.ledger.used = before.ledger.used
  edited_eq : after.ledger.edited = before.ledger.edited
  course_cases : (course = .nothing ∧ (operator.Idle ∨ operator.positions = [])) ∨
    ∃ candidates, operator.candidates before.program = .ok candidates ∧
      course = .numbered operator.name candidates operator.positions operator.change

variable {workspace : Workspace}

/-- An operator that was not told what to change has nothing to do. -/
theorem idle_of_not_hasChange (hnone : operator.hasChange = false) : operator.Idle := by
  constructor
  · cases operator <;> simp_all [hasChange, mutates]
  · intro request candidate
    cases operator <;> cases candidate <;> simp_all [hasChange, change]

/-- An operator on memory that was told what to change numbers the accesses that it looks for. -/
theorem course_of_accesses (hsites : operator.numbersSites = true)
    (hsearch : operator.search? = none) (htold : operator.hasChange = true) (oracle : AliasOracle) :
    operator.course oracle = (do
      let sites := operator.accesses (← get).program
      return Course.ofSites operator.name sites operator.positions fun request site =>
        operator.change request (.access site)) := by
  cases operator with
  | lock plan => cases hsites
  | fence plan | atomic plan =>
      obtain ⟨change, hchange⟩ := Option.isSome_iff_exists.mp htold
      simp only [course, Operator.change, hchange]
      rfl
  | volatile plan => rfl
  | _ => cases hsearch

theorem runs_accesses {refusal : EditError → Workspace → Prop} (hsearch : operator.search? = none) :
    Runs (do
      let sites := operator.accesses (← get).program
      return Course.ofSites operator.name sites operator.positions fun request site =>
        operator.change request (.access site)) workspace
      (operator.Prepared workspace) refusal := by
  have hcandidates : operator.candidates workspace.program =
      .ok ((operator.accesses workspace.program).map .access) := by
    unfold Operator.candidates
    rw [hsearch]
    rfl
  exact runs_bind (runs_get (runs_pure ⟨rfl, rfl, rfl, Or.inr
    ⟨_, hcandidates, Course.ofSites_eq_numbered (fun _ _ => rfl) _ _ _⟩⟩))

/-- After the search, the course on found calls is numbered. -/
theorem runs_search {search : CallSearch} {handle : Nat → CallSite → Work Bool}
    (hsearch : operator.search? = some search)
    (hchange : ∀ request site, operator.change request (.call site) = handle request site) :
    Runs (do
      let found ← query search.inProgram
      return Course.ofCalls operator.name found operator.positions handle) workspace
      (operator.Prepared workspace) fun problem refused =>
        refused.program = workspace.program ∧
          operator.candidates workspace.program = .error problem := by
  have hcandidates : operator.candidates workspace.program =
      (search.inProgram workspace.program).map fun found => found.sites.map .call := by
    unfold Operator.candidates
    rw [hsearch]
  refine runs_bind_query_of (fun found hfound => runs_pure ⟨rfl, rfl, rfl, Or.inr ?_⟩)
    fun problem hproblem => ⟨rfl, by rw [hcandidates, hproblem]; rfl⟩
  exact ⟨_, by rw [hcandidates, hfound]; rfl, Course.ofCalls_eq_numbered hchange _ _ _⟩

/-- Warnings ahead of the search leave the program and the claims alone. -/
theorem Prepared.of_recorded {entry : Entry} {course : Course} {after : Workspace}
    (prepared : operator.Prepared
      { workspace with ledger := workspace.ledger.record entry } course after) :
    operator.Prepared workspace course after where
  program_eq := prepared.program_eq
  used_eq := prepared.used_eq
  edited_eq := prepared.edited_eq
  course_cases := prepared.course_cases

/-- Only the search of an operator can be refused. -/
theorem runs_numbered_course (hsites : operator.numbersSites = true) (oracle : AliasOracle) :
    Runs (operator.course oracle) workspace (operator.Prepared workspace) fun problem refused =>
      refused.program = workspace.program ∧
        operator.candidates workspace.program = .error problem := by
  cases htold : operator.hasChange with
  | false =>
      rw [course_of_not_hasChange htold]
      exact runs_pure ⟨rfl, rfl, rfl, Or.inl ⟨rfl, Or.inl (idle_of_not_hasChange htold)⟩⟩
  | true =>
      cases operator with
      | lock plan => cases hsites
      | fence plan | atomic plan | volatile plan =>
          rw [course_of_accesses hsites rfl htold]
          exact runs_accesses rfl
      | yield plan => exact @runs_search (.yield plan) _ _ _ rfl fun _ _ => rfl
      | semaphore plan =>
          simp only [course]
          split
          · rename_i hpositions
            exact runs_bind_warn (runs_pure ⟨rfl, rfl, rfl, Or.inl ⟨rfl, Or.inr
              (List.isEmpty_iff.mp hpositions)⟩⟩)
          · exact @runs_search (.semaphore plan) _ _ _ rfl fun _ _ => rfl
      | join plan =>
          obtain ⟨change, hchange⟩ := Option.isSome_iff_exists.mp htold
          simp only [course, hchange]
          split
          · rename_i hpositions
            exact runs_bind_warn (runs_pure ⟨rfl, rfl, rfl, Or.inl ⟨rfl, Or.inr
              (List.isEmpty_iff.mp hpositions)⟩⟩)
          · exact @runs_search (.join plan) _ _ _ rfl fun request site => by
              simp only [Operator.change, hchange]
      | signal plan =>
          obtain ⟨change, hchange⟩ := Option.isSome_iff_exists.mp htold
          -- the warning about two changes comes before the search
          have hsearch (state : Workspace) := @runs_search (.signal plan) state _ _ rfl
            fun request site => show Operator.change (.signal plan) request (.call site) =
              SignalOperator.apply change site by simp only [Operator.change, hchange]
          simp only [course, hchange]
          split
          · exact runs_bind_warn ((hsearch _).imp (fun _ _ prepared => prepared.of_recorded)
              fun _ _ hrefused => hrefused)
          · exact hsearch workspace
      | wait plan =>
          obtain ⟨change, hchange⟩ := Option.isSome_iff_exists.mp htold
          simp only [course, hchange]
          exact @runs_search (.wait plan) _ _ _ rfl fun request site => by
            simp only [Operator.change, hchange]

/-- Where candidates are found, a run is prepared. -/
theorem exists_prepared (hcandidates : operator.candidates program = .ok candidates)
    (hsites : operator.numbersSites = true) (oracle : AliasOracle) :
    ∃ course prepared, operator.course oracle { program } = .ok course prepared ∧
      operator.Prepared { program } course prepared := by
  have hruns := @runs_numbered_course operator { program } hsites oracle
  unfold Runs at hruns
  cases hcourse : operator.course oracle { program } with
  | error problem refused =>
      rw [hcourse] at hruns
      exact absurd (hcandidates.symm.trans hruns.2) (by simp)
  | ok course prepared =>
      rw [hcourse] at hruns
      exact ⟨course, prepared, rfl, hruns⟩

/-- A run that is to change something is a numbered course. -/
theorem exists_course (hcandidates : operator.candidates program = .ok candidates)
    (hsites : operator.numbersSites = true) (hmutates : operator.mutates = true)
    (hpositions : operator.positions ≠ []) (oracle : AliasOracle) :
    ∃ prepared : Workspace, operator.course oracle { program } =
        .ok (.numbered operator.name candidates operator.positions operator.change) prepared ∧
      prepared.program = program ∧ prepared.ledger.used = [] ∧ prepared.ledger.edited = [] := by
  obtain ⟨course, prepared, hcourse, hprepared⟩ := exists_prepared hcandidates hsites oracle
  refine ⟨prepared, ?_, hprepared.program_eq, hprepared.used_eq, hprepared.edited_eq⟩
  rcases hprepared.course_cases with ⟨-, hnothing⟩ | ⟨found, hfound, rfl⟩
  · rcases hnothing with hnothing | hnothing
    · exact absurd (hmutates.symm.trans hnothing.1) (by simp)
    · exact absurd hnothing hpositions
  · rw [hcourse, Except.ok.inj (hcandidates.symm.trans hfound)]

/-- A run that was prepared is finished, and what is known in the end is about all requests, unless
it is not to change anything. -/
theorem Prepared.exists_finish {course : Course} {prepared : Workspace}
    {known : List Nat → Bool → Workspace → Prop}
    (hprepared : operator.Prepared { program } course prepared)
    (hcandidates : operator.candidates program = .ok candidates)
    (hmutates : operator.positions ≠ [] → operator.mutates = true)
    (kept : KeptByRequests program candidates operator.name operator.change known)
    (listed : Listed program candidates) (hstart : known [] false prepared) :
    ∃ answer after, course.finish prepared = .ok answer after ∧
      known operator.positions answer after := by
  rcases hprepared.course_cases with ⟨rfl, hnothing⟩ | ⟨found, hfound, rfl⟩
  · -- an idle operator was asked for nothing, so all requests are the empty list
    have hpositions : operator.positions = [] := by
      by_contra hpositions
      exact hnothing.elim (fun hidle => Bool.false_ne_true
        (hidle.1.symm.trans (hmutates hpositions))) hpositions
    exact ⟨false, prepared, rfl, hpositions ▸ hstart⟩
  · obtain rfl := Except.ok.inj (hcandidates.symm.trans hfound)
    exact kept.exists_finish listed hstart operator.positions

end Runs

/-! ## Changes

`Handles` lists what an operator can make of a candidate.  It makes nothing of it if it was not told
what to change, or if the candidate is not of the kind that it numbers.  What holds of every change
is then shown once for each operator, with the change at hand. -/

/-- What an operator makes of a candidate, for the request with a number. -/
inductive Handles (request : Nat) : Operator → Candidate → Work Bool → Prop where
  | nothing (operator : Operator) (candidate : Candidate) :
      Handles request operator candidate (pure false)
  | fence (plan : FencePlan) (change : FenceChange) (site : MemorySite) :
      Handles request (.fence plan) (.access site) (do
        FenceOperator.apply change request site
        return true)
  | atomic (plan : AtomicPlan) (change : AtomicChange) (site : MemorySite) :
      Handles request (.atomic plan) (.access site)
        (AtomicOperator.apply plan.target change request site)
  | volatile (plan : VolatilePlan) (site : MemorySite) :
      Handles request (.volatile plan) (.access site) (VolatileOperator.clear site)
  | semaphore (plan : SemaphorePlan) (site : CallSite) :
      Handles request (.semaphore plan) (.call site) (do
        let value ← SemaphoreOperator.valueFor plan request
        SemaphoreOperator.setValue site value)
  | join (plan : JoinPlan) (change : JoinChange) (site : CallSite) :
      Handles request (.join plan) (.call site) (do
        let changed ← JoinOperator.apply change site
        markEdited site.handle
        return changed)
  | signal (plan : SignalPlan) (change : SignalChange) (site : CallSite) :
      Handles request (.signal plan) (.call site) (SignalOperator.apply change site)
  | wait (plan : WaitPlan) (change : WaitChange) (site : CallSite) :
      Handles request (.wait plan) (.call site) (WaitOperator.apply change request site)
  | yield (plan : YieldPlan) (site : CallSite) :
      Handles request (.yield plan) (.call site) (YieldOperator.remove site)

theorem handles_change (operator : Operator) (request : Nat) (candidate : Candidate) :
    Handles request operator candidate (operator.change request candidate) := by
  cases htold : operator.hasChange with
  | false =>
      rw [(idle_of_not_hasChange htold).2]
      exact .nothing operator candidate
  | true =>
      cases operator with
      | fence plan | atomic plan | join plan | signal plan | wait plan =>
          obtain ⟨change, hchange⟩ := Option.isSome_iff_exists.mp htold
          cases candidate <;> simp only [Operator.change, hchange] <;> constructor
      | lock plan | volatile plan | semaphore plan | yield plan => cases candidate <;> constructor

/-- The change of a candidate is about this candidate. -/
theorem confines_change (operator : Operator) (request : Nat) (candidate : Candidate)
    (origin : Workspace) :
    Confines origin [candidate.handle] (operator.change request candidate) := by
  have hhandles := operator.handles_change request candidate
  have hgone : candidate.handle ∈ [candidate.handle] := List.mem_singleton_self _
  generalize operator.change request candidate = work at hhandles ⊢
  cases hhandles with
  | nothing => exact .pure trivial
  | fence plan change site =>
      exact (FenceOperator.confines_apply hgone change request).bind fun _ _ => .pure trivial
  | atomic plan change site => exact AtomicOperator.confines_apply hgone plan.target change request
  | volatile plan site => exact VolatileOperator.confines_clear hgone
  | semaphore plan site =>
      exact (SemaphoreOperator.confines_valueFor plan request).bind fun value _ =>
        SemaphoreOperator.confines_setValue hgone value
  | join plan change site =>
      exact (JoinOperator.confines_apply hgone change).bind fun _ _ =>
        (confines_markEdited (Or.inl hgone)).bind fun _ _ => .pure trivial
  | signal plan change site => exact SignalOperator.confines_apply hgone change
  | wait plan change site => exact WaitOperator.confines_apply hgone change request
  | yield plan site => exact YieldOperator.confines_remove hgone

/-- The change of a candidate that was requested leaves the others pending. -/
theorem pending_of_change {start : Program} {candidate : Candidate} {earlier : List Nat}
    {position request : Nat} {state after : Workspace} {answer : Bool}
    (pending : Pending start candidates operator.name earlier state)
    (listed : Listed start candidates) (hcandidate : candidates[position]? = some candidate)
    (hchange : operator.change request candidate (state.claimed operator.name position) =
      .ok answer after) :
    Pending start candidates operator.name (earlier ++ [position]) after := by
  let claimed := state.claimed operator.name position
  have hconfined := operator.confines_change request candidate claimed _
    (@Confined.refl claimed pending.rewired.consistent _)
  unfold Runs at hconfined
  rw [hchange] at hconfined
  exact pending.selected listed hcandidate hconfined.1

/-- What the requests of an operator may rely on: only fences need more than their own site, for
they are erased where they are not read. -/
def Relies (operator : Operator) (start : Program) (state : Workspace) : Prop :=
  match operator with
  | .fence _ => FenceOperator.Held start state
  | _ => True

theorem relies_start {workspace : Workspace} (consistent : workspace.program.Consistent)
    (operator : Operator) : operator.Relies workspace.program workspace := by
  cases operator with
  | fence plan => exact FenceOperator.Held.of_fences consistent
  | _ => trivial

theorem Relies.warned {start : Program} {state : Workspace} (hrelies : operator.Relies start state)
    (entry : Entry) : operator.Relies start (state.warned entry) := by
  cases operator with
  | fence plan => exact FenceOperator.Held.recorded hrelies entry
  | _ => trivial

theorem Relies.claimed {start : Program} {state : Workspace}
    (hrelies : operator.Relies start state) (position : Nat) :
    operator.Relies start (state.claimed operator.name position) := by
  cases operator with
  | fence plan => exact FenceOperator.Held.used hrelies position
  | _ => trivial

section Changes

variable {start : Program} {state : Workspace} {position : Nat}

/-- A fence has the number that was claimed for it, so the claim keeps it from being erased
twice. -/
theorem runs_changeFence {site : MemorySite} (hstart : start.Consistent)
    (answerable : start.Answerable) (hsite : (MemorySite.fences start)[position]? = some site)
    (hunused : state.ledger.isUsed FenceOperator.name position = false)
    (held : FenceOperator.Held start state) (change : FenceChange) (request : Nat) :
    Runs (do
        FenceOperator.apply change request site
        return true)
      (state.claimed FenceOperator.name position) (fun _ => FenceOperator.Held start)
      fun _ _ => False := by
  have happly := FenceOperator.runs_apply hstart (held.used position) hsite
    (Workspace.isUsed_claimed.mpr (Or.inl rfl)) (held.live position site hsite hunused) change
    request
  refine (happly.imp (fun _ _ h => h) ?_).bind fun _ _ hheld => runs_pure hheld
  exact fun _ _ hrefusal => hrefusal.2 answerable

/-- An access is there by itself, whatever became of the others. -/
theorem allLive_of_placed? {site : MemorySite} (consistent : state.program.Consistent)
    (hlive : ∃ entry, state.program.placed? site.handle = some entry) (pass : String) :
    AllLive state.program [site] (state.claimed pass position) :=
  ⟨Upheld.refl consistent, fun other hmem => by rwa [List.mem_singleton.mp hmem]⟩

theorem runs_changeAccess {site : MemorySite} (hstart : start.Consistent)
    (answerable : start.Answerable)
    (hcandidates : operator.candidates start = .ok candidates)
    (hcandidate : candidates[position]? = some (.access site))
    (consistent : state.program.Consistent)
    (hlive : ∃ entry, state.program.placed? site.handle = some entry)
    (hunused : state.ledger.isUsed operator.name position = false)
    (hrelies : operator.Relies start state) (request : Nat) :
    Runs (operator.change request (.access site)) (state.claimed operator.name position)
      (fun _ => operator.Relies start) fun _ _ => False := by
  have hmem := List.mem_singleton_self site
  have hhandles := operator.handles_change request (.access site)
  generalize operator.change request (.access site) = work at hhandles ⊢
  cases hhandles with
  | nothing => exact runs_pure (hrelies.claimed position)
  | fence plan change =>
      rw [eq_accesses rfl hcandidates, List.getElem?_map, Option.map_eq_some_iff] at hcandidate
      obtain ⟨found, hfound, hsame⟩ := hcandidate
      obtain rfl := Candidate.access.inj hsame
      exact runs_changeFence hstart answerable hfound hunused hrelies change request
  | atomic plan change =>
      exact (AtomicOperator.runs_apply hmem (allLive_of_placed? consistent hlive _) plan.target
        change request).weaken fun _ _ _ => trivial
  | volatile plan =>
      exact (VolatileOperator.runs_clear hmem (allLive_of_placed? consistent hlive _)).weaken
        fun _ _ _ => trivial

theorem runs_changeCall {site : CallSite} (consistent : state.program.Consistent)
    (hintact : site.Intact state.program) (hrelies : operator.Relies start state) (request : Nat) :
    Runs (operator.change request (.call site)) (state.claimed operator.name position)
      (fun _ => operator.Relies start) fun _ _ => False := by
  let claimed := state.claimed operator.name position
  have consistent : claimed.program.Consistent := consistent
  have hintact : site.Intact claimed.program := hintact
  have hhandles := operator.handles_change request (.call site)
  generalize operator.change request (.call site) = work at hhandles ⊢
  cases hhandles with
  | nothing => exact runs_pure (hrelies.claimed position)
  | semaphore plan =>
      exact (SemaphoreOperator.runs_handler consistent hintact plan request).weaken
        fun _ _ _ => trivial
  | join plan change =>
      exact (JoinOperator.runs_handler consistent hintact change).weaken fun _ _ _ => trivial
  | signal plan change =>
      exact (SignalOperator.runs_apply consistent hintact change).weaken fun _ _ _ => trivial
  | wait plan change =>
      exact (WaitOperator.runs_apply consistent hintact change request).weaken
        fun _ _ _ => trivial
  | yield plan =>
      exact (YieldOperator.runs_remove consistent hintact).weaken fun _ _ _ => trivial

end Changes

/-! ## Requests

The course of a run is numbered, so a general fact about numbered courses gives the stages.  What it
asks for is shown above: changes are confined, and they are answered for intact candidates. -/

/-- Each request of a run is followed on the candidates that the search found. -/
theorem exists_stages (consistent : program.Consistent) (answerable : program.Answerable)
    (hsites : operator.numbersSites = true) (hmutates : operator.mutates = true)
    (hcandidates : operator.candidates program = .ok candidates)
    (listed : Listed program candidates) (oracle : AliasOracle) {number position : Nat}
    (hposition : operator.positions[number]? = some position) :
    ∃ before after, (operator.stages oracle { program })[number]? = some before ∧
      (operator.stages oracle { program })[number + 1]? = some after ∧
      Followed program candidates operator.name (operator.change number)
        (operator.positions.take number) position before after := by
  -- a run with a request has something to do, so its course is not empty
  have hpositions : operator.positions ≠ [] := List.ne_nil_of_mem (List.mem_of_getElem? hposition)
  obtain ⟨prepared, hcourse, rfl, hunused, hunedited⟩ :=
    exists_course hcandidates hsites hmutates hpositions oracle
  have hstages : operator.stages oracle { program := prepared.program } = prepared ::
      (Course.numbered operator.name candidates operator.positions operator.change).stages
        prepared := by
    unfold stages
    rw [hcourse]
  rw [hstages]
  refine Course.exists_stages_numbered listed
    (fun request candidate origin => confines_change operator request candidate origin)
    (fun _ entry hrelies => hrelies.warned entry) ?_
    (Pending.of_fresh consistent hunused hunedited candidates operator.name)
    (relies_start consistent operator) hposition
  intro position request candidate state hcandidate hstate hintact hunused hrelies
  cases candidate with
  | access site =>
      exact runs_changeAccess consistent answerable hcandidates hcandidate hstate hintact hunused
        hrelies request
  | call site => exact runs_changeCall hstate hintact hrelies request

end Operator

end ConcurrencyFaults

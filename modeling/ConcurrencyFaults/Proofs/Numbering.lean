import ConcurrencyFaults.Proofs.Confinement
import ConcurrencyFaults.Proofs.History
import ConcurrencyFaults.Proofs.Search

/-!
# Numbered candidates

Most operators number their candidates before the first of them is changed, and requests name them
by these numbers.  While a run erases and replaces candidates the numbers must keep their meaning.
They do because each change is confined to the candidate that was asked for: any other candidate is
still the instruction that it was when the program was searched, and has no mark (`Pending`).  The
first request for a position therefore comes upon its candidate as it was found, hands it to the
operator and touches nothing else; later requests for the position and requests beyond the last
candidate leave a warning alone (`Followed`).

The rules for one request are put together to a run by `Course.exists_stages_ofRequests`: what a
request does may depend on the requests before it, so the invariant is about these.

## Strategy

* A request for a position comes to one of three things, in view of the ledger: a warning of bounds,
  a warning of repetition, or the change of the candidate (`Work.numberedRequest_of_le`,
  `…_of_isUsed`, `…_of_intact`).
* `Pending` says which of them it is, and each of them keeps it (`Pending.warned`,
  `Pending.selected`).  The last needs that candidates have different handles (`Listed`), so that
  what is confined to one candidate leaves the others standing.
* From one request to all of them there are two ways.  `exists_stages_numbered` gives the outcome of
  each request at its stage, `KeptByRequests` carries along whatever an operator knows of its own
  changes.
-/

namespace ConcurrencyFaults

open Program Work

/-! ## Candidates

Accesses and calls are numbered alike.  They differ in what is looked at before a change. -/

/-- What an operator numbers: an access or a call. -/
inductive Candidate where
  | access (site : MemorySite)
  | call (site : CallSite)
deriving DecidableEq, Repr

namespace Candidate

def handle : Candidate → Handle
  | .access site => site.handle
  | .call site => site.handle

def location : Candidate → Option Location
  | .access site => site.location
  | .call site => site.location

/-- What was found is still there. -/
def Intact (candidate : Candidate) (program : Program) : Prop :=
  match candidate with
  | .access site => ∃ entry, program.placed? site.handle = some entry
  | .call site => site.Intact program

/-- Calls are skipped if they were edited before; accesses are not looked at once more. -/
def isUntouched (pass : String) : Candidate → Work Bool
  | .access _ => return true
  | .call site => Work.isUntouched pass site

variable {candidate : Candidate} {program before after : Program} {gone : List Handle}

theorem Intact.exists_placed? (hintact : candidate.Intact program) :
    ∃ entry, program.placed? candidate.handle = some entry := by
  cases candidate with
  | access site => exact hintact
  | call site =>
      obtain ⟨entry, hplaced, -⟩ := hintact
      exact ⟨entry, hplaced⟩

theorem Intact.rewired (hintact : candidate.Intact before) (hrewired : before.Rewired after gone)
    (hstays : candidate.handle ∉ gone) : candidate.Intact after := by
  cases candidate with
  | access site =>
      obtain ⟨entry, hplaced⟩ := hintact
      obtain ⟨found, hfound, -⟩ := hrewired.stays hplaced hstays
      exact ⟨found, hfound⟩
  | call site =>
      obtain ⟨entry, hplaced, hfunction, hshape⟩ := hintact
      obtain ⟨found, hfound, hsame⟩ := hrewired.stays hplaced hstays
      exact ⟨found, hfound, hsame.function_eq.trans hfunction, hsame.shape_eq.trans hshape⟩

theorem isUntouched_of_intact {workspace : Workspace}
    (hintact : candidate.Intact workspace.program)
    (hunmarked : workspace.ledger.isEdited candidate.handle = false) (pass : String) :
    candidate.isUntouched pass workspace = .ok true workspace := by
  cases candidate with
  | access site => rfl
  | call site =>
      refine (Work.isUntouched_of_intact hintact pass).trans (if_neg ?_)
      rw [show workspace.ledger.isEdited site.handle = false from hunmarked]
      exact Bool.false_ne_true

end Candidate

/-! ## Numbered requests

Searches for accesses and for calls number their finds in their own ways; both give the same course
once their finds are listed as candidates. -/

/-- Claims a position and has its candidate changed. -/
def Work.numberedRequest (pass : String) (candidates : List Candidate)
    (change : Nat → Candidate → Work Bool) : Nat × Nat → Work Bool := fun (position, request) => do
  if ← claimOrWarn pass position candidates.length then
    match candidates[position]? with
    | none => return false
    | some candidate =>
        if ← candidate.isUntouched pass then change request candidate else return false
  else
    return false

/-- Invokes are numbered on from the plain calls. -/
theorem FoundCalls.get?_eq (found : FoundCalls) (number : Nat) :
    found.get? number = found.sites[number]? := by
  unfold get? sites
  split
  · rename_i hlt
    exact (List.getElem?_append_left hlt).symm
  · rename_i hge
    exact (List.getElem?_append_right (Nat.le_of_not_lt hge)).symm

theorem FoundCalls.getElem?_map_call (found : FoundCalls) (number : Nat) :
    (found.sites.map Candidate.call)[number]? = (found.get? number).map .call := by
  rw [List.getElem?_map, get?_eq]

namespace Course

def numbered (pass : String) (candidates : List Candidate) (positions : List Nat)
    (change : Nat → Candidate → Work Bool) : Course :=
  ofRequests positions.zipIdx (numberedRequest pass candidates change)

theorem ofSites_eq_numbered {change : Nat → Candidate → Work Bool}
    {handle : Nat → MemorySite → Work Bool}
    (hchange : ∀ request site, change request (.access site) = handle request site)
    (pass : String) (sites : List MemorySite) (positions : List Nat) :
    ofSites pass sites positions handle =
      numbered pass (sites.map .access) positions change := by
  unfold ofSites numbered
  congr 1
  funext ⟨position, request⟩
  simp only [numberedRequest, List.length_map, List.getElem?_map]
  congr 1
  funext claimed
  cases claimed with
  | false => rfl
  | true =>
      cases sites[position]? with
      | none => rfl
      | some site => exact (hchange request site).symm

theorem ofCalls_eq_numbered {change : Nat → Candidate → Work Bool}
    {handle : Nat → CallSite → Work Bool}
    (hchange : ∀ request site, change request (.call site) = handle request site)
    (pass : String) (found : FoundCalls) (positions : List Nat) :
    ofCalls pass found positions handle =
      numbered pass (found.sites.map .call) positions change := by
  have hsize : found.size = (found.sites.map Candidate.call).length := by
    simp [FoundCalls.size, FoundCalls.sites]
  unfold ofCalls numbered
  congr 1
  funext ⟨position, request⟩
  unfold callRequest claimCall numberedRequest
  dsimp only
  rw [bind_assoc, hsize]
  congr 1
  funext claimed
  cases claimed with
  | false => rfl
  | true =>
      rw [if_pos rfl, if_pos rfl, found.getElem?_map_call, pure_bind]
      cases found.get? position with
      | none => rfl
      | some site =>
          dsimp only [Option.map_some, Candidate.isUntouched]
          rw [hchange]

end Course

/-! ## Claims

Claiming a position has three outcomes, and each of them leaves its own trace in the ledger. -/

section Claims

variable {ledger : Ledger} {pass : String} {position candidates : Nat}

/-- The warning about a position that was used up before. -/
def Entry.alreadyMutated (pass : String) (position : Nat) : Entry :=
  .warning s!"{pass}: position {position} was already mutated"

theorem Entry.not_isOutOfBounds_alreadyMutated (pass : String) (position : Nat) :
    ¬ (alreadyMutated pass position).IsOutOfBounds :=
  not_isOutOfBounds_warning _ (by decide)

theorem Ledger.claimOrWarn_of_le (hle : candidates ≤ position) :
    ledger.claimOrWarn pass position candidates =
      (false, ledger.recordAll [.outOfBounds pass position candidates]) := by
  unfold claimOrWarn claim
  rw [if_pos hle]
  rfl

theorem Ledger.claimOrWarn_of_isUsed (hlt : position < candidates)
    (hused : ledger.isUsed pass position = true) :
    ledger.claimOrWarn pass position candidates =
      (false, ledger.recordAll [.alreadyMutated pass position]) := by
  unfold claimOrWarn claim
  rw [if_neg (Nat.not_le.mpr hlt), if_pos hused]
  rfl

theorem Ledger.claimOrWarn_of_unused (hlt : position < candidates)
    (hunused : ledger.isUsed pass position = false) :
    ledger.claimOrWarn pass position candidates =
      (true, { ledger with used := (pass, position) :: ledger.used }) := by
  unfold claimOrWarn claim
  rw [if_neg (Nat.not_le.mpr hlt), hunused]
  rfl

end Claims

/-- The workspace with one more entry in its journal. -/
def Workspace.warned (workspace : Workspace) (entry : Entry) : Workspace :=
  { workspace with ledger := workspace.ledger.recordAll [entry] }

/-- The workspace with one more position used up. -/
def Workspace.claimed (workspace : Workspace) (pass : String) (position : Nat) : Workspace :=
  { workspace with
    ledger := { workspace.ledger with used := (pass, position) :: workspace.ledger.used } }

theorem Workspace.isUsed_claimed {workspace : Workspace} {pass : String} {position other : Nat} :
    (workspace.claimed pass position).ledger.isUsed pass other = true ↔
      other = position ∨ workspace.ledger.isUsed pass other = true := by
  simp [claimed, Ledger.isUsed]

/-! ## What requests leave alone

Positions are used up per pass, handles are marked for all passes. -/

/-- The instructions of the candidates at some positions. -/
def handlesAt (candidates : List Candidate) (positions : List Nat) : List Handle :=
  positions.filterMap fun position => candidates[position]?.map Candidate.handle

theorem handlesAt_concat (candidates : List Candidate) (positions : List Nat) (position : Nat) :
    handlesAt candidates (positions ++ [position]) =
      handlesAt candidates positions ++ (candidates[position]?.map Candidate.handle).toList := by
  unfold handlesAt
  rw [List.filterMap_append]
  cases hcandidate : candidates[position]? <;> simp [hcandidate]

/-- The candidates of a search: each is there, and each has one position. -/
structure Listed (start : Program) (candidates : List Candidate) : Prop where
  intact : ∀ candidate ∈ candidates, candidate.Intact start
  nodup : (candidates.map Candidate.handle).Nodup

/-- Since the search, only the candidates at some positions were changed, and no other is marked.
Just their positions are used up. -/
structure Pending (start : Program) (candidates : List Candidate) (pass : String)
    (earlier : List Nat) (state : Workspace) : Prop where
  rewired : start.Rewired state.program (handlesAt candidates earlier)
  unmarked : ∀ position candidate, candidates[position]? = some candidate → position ∉ earlier →
    state.ledger.isEdited candidate.handle = false
  used_iff : ∀ position, state.ledger.isUsed pass position = true ↔
    position ∈ earlier ∧ position < candidates.length

section Requests

variable {start : Program} {candidates : List Candidate} {candidate : Candidate} {pass : String}
  {earlier : List Nat} {position : Nat} {state after : Workspace}

/-- A position that was not requested is none of a candidate that was. -/
theorem Listed.not_mem_handlesAt (listed : Listed start candidates)
    (hcandidate : candidates[position]? = some candidate) (hfirst : position ∉ earlier) :
    candidate.handle ∉ handlesAt candidates earlier := by
  intro hmem
  obtain ⟨other, hother, hhandle⟩ := List.mem_filterMap.mp hmem
  have hhere : (candidates.map Candidate.handle)[position]? = some candidate.handle := by
    rw [List.getElem?_map, hcandidate, Option.map_some]
  have hthere : (candidates.map Candidate.handle)[other]? = some candidate.handle := by
    rw [List.getElem?_map, hhandle]
  obtain ⟨hlt, -⟩ := List.getElem?_eq_some_iff.mp hhere
  -- handles are listed once, so the positions are the same
  have hsame := (List.getElem?_inj hlt listed.nodup).mp (hhere.trans hthere.symm)
  exact hfirst (hsame ▸ hother)

namespace Pending

theorem of_fresh (consistent : state.program.Consistent) (hunused : state.ledger.used = [])
    (hunedited : state.ledger.edited = []) (candidates : List Candidate) (pass : String) :
    Pending state.program candidates pass [] state := by
  refine ⟨Rewired.refl consistent _, fun _ _ _ _ => ?_, fun position => ?_⟩
  · simp [Ledger.isEdited, hunedited]
  · simp [Ledger.isUsed, hunused]

variable (pending : Pending start candidates pass earlier state)
include pending

theorem intact (listed : Listed start candidates)
    (hcandidate : candidates[position]? = some candidate) (hfirst : position ∉ earlier) :
    candidate.Intact state.program :=
  (listed.intact candidate (List.mem_of_getElem? hcandidate)).rewired pending.rewired
    (listed.not_mem_handlesAt hcandidate hfirst)

theorem isUsed_eq_false (hfirst : position ∉ earlier) :
    state.ledger.isUsed pass position = false := by
  rw [Bool.eq_false_iff]
  exact fun hused => hfirst ((pending.used_iff position).mp hused).1

/-- A request that is refused leaves a note alone. -/
theorem warned (hrefused : candidates.length ≤ position ∨ position ∈ earlier) (entry : Entry) :
    Pending start candidates pass (earlier ++ [position]) (state.warned entry) := by
  refine ⟨?_, ?_, fun other => ?_⟩
  · refine pending.rewired.mono ?_
    rw [handlesAt_concat]
    exact List.subset_append_left _ _
  · exact fun other found hfound hfirst => pending.unmarked other found hfound fun hmem =>
      hfirst (List.mem_append_left _ hmem)
  · refine (pending.used_iff other).trans (and_congr_left fun hlt => ?_)
    rw [List.mem_append, List.mem_singleton]
    constructor
    · exact Or.inl
    · rintro (hmem | rfl)
      · exact hmem
      · exact hrefused.resolve_left (Nat.not_le.mpr hlt)

theorem selected (listed : Listed start candidates)
    (hcandidate : candidates[position]? = some candidate)
    (hconfined : Confined (state.claimed pass position) [candidate.handle] after) :
    Pending start candidates pass (earlier ++ [position]) after := by
  have hhere : handlesAt candidates (earlier ++ [position]) =
      handlesAt candidates earlier ++ [candidate.handle] := by
    rw [handlesAt_concat, hcandidate]
    rfl
  refine ⟨?_, ?_, fun other => ?_⟩
  · rw [hhere]
    exact (pending.rewired.mono (List.subset_append_left _ _)).trans
      (hconfined.rewired.mono (List.subset_append_right _ _))
  · intro other found hfound hfirst
    rw [List.mem_append, List.mem_singleton, not_or] at hfirst
    have hunmarked := pending.unmarked other found hfound hfirst.1
    have hlive := pending.intact listed hfound hfirst.1
    rw [Bool.eq_false_iff]
    intro hmarked
    rcases hconfined.marked found.handle hmarked with hbefore | hmem | hstale
    · exact Bool.false_ne_true (hunmarked.symm.trans hbefore)
    · -- the other position has a candidate of its own
      refine listed.not_mem_handlesAt hfound (List.mem_singleton.not.mpr hfirst.2) ?_
      simpa [handlesAt, hcandidate] using hmem
    · obtain ⟨entry, hplaced⟩ := hlive.exists_placed?
      exact Option.some_ne_none entry (hplaced.symm.trans hstale)
  · obtain ⟨hlt, -⟩ := List.getElem?_eq_some_iff.mp hcandidate
    have hused : after.ledger.isUsed pass other =
        (state.claimed pass position).ledger.isUsed pass other := by
      rw [Ledger.isUsed, hconfined.used_eq]
      rfl
    rw [hused, Workspace.isUsed_claimed, pending.used_iff, List.mem_append, List.mem_singleton]
    constructor
    · rintro (rfl | ⟨hmem, hother⟩)
      · exact ⟨Or.inr rfl, hlt⟩
      · exact ⟨Or.inl hmem, hother⟩
    · rintro ⟨hmem | rfl, hother⟩
      · exact Or.inr ⟨hmem, hother⟩
      · exact Or.inl rfl

end Pending

/-! ## One request

The candidate of a first request is untouched so far: neither was it requested before, nor was it
changed on behalf of another candidate. -/

/-- A candidate is as it was found: the same instruction in the same place, but for operands that
read the results of other candidates, and without a mark. -/
structure Candidate.Standing (start : Program) (gone : List Handle) (candidate : Candidate)
    (state : Workspace) : Prop where
  same : ∃ entry found, start.placed? candidate.handle = some entry ∧
    state.program.placed? candidate.handle = some found ∧ entry.Rewired gone found
  unmarked : state.ledger.isEdited candidate.handle = false

/-- What becomes of the request for a position after some others.  Beyond the last candidate it
warns of bounds, and a second request for a candidate leaves another warning.  A first request
finds its candidate as it was; it comes to the change of this candidate, and that is confined to
it. -/
structure Followed (start : Program) (candidates : List Candidate) (pass : String)
    (change : Candidate → Work Bool) (earlier : List Nat) (position : Nat)
    (before after : Workspace) : Prop where
  outOfBounds : candidates.length ≤ position →
    after = before.warned (.outOfBounds pass position candidates.length)
  repeated : position < candidates.length → position ∈ earlier →
    after = before.warned (.alreadyMutated pass position)
  selected : ∀ candidate, candidates[position]? = some candidate → position ∉ earlier →
    candidate.Standing start (handlesAt candidates earlier) before ∧
      after = (change candidate).left (before.claimed pass position) ∧
      Confined (before.claimed pass position) [candidate.handle] after

namespace Followed

variable {change : Candidate → Work Bool} {before : Workspace}

/-- A request warns of bounds exactly if there is no candidate for it. -/
theorem exists_entries
    (hfollowed : Followed start candidates pass change earlier position before after) :
    ∃ entries, after.ledger.journal = before.ledger.journal.extend entries ∧
      ((∃ entry ∈ entries, entry.IsOutOfBounds) ↔ candidates.length ≤ position) := by
  by_cases hle : candidates.length ≤ position
  · refine ⟨[.outOfBounds pass position candidates.length], ?_, ?_⟩
    · rw [hfollowed.outOfBounds hle]
      rfl
    · exact iff_of_true ⟨_, List.mem_singleton_self _, _, _, _, rfl⟩ hle
  · have hlt := Nat.lt_of_not_le hle
    by_cases hearlier : position ∈ earlier
    · refine ⟨[.alreadyMutated pass position], ?_, iff_of_false ?_ hle⟩
      · rw [hfollowed.repeated hlt hearlier]
        rfl
      · simpa using Entry.not_isOutOfBounds_alreadyMutated pass position
    · obtain ⟨-, -, hconfined⟩ :=
        hfollowed.selected _ (List.getElem?_eq_getElem hlt) hearlier
      obtain ⟨entries, hjournal, hentries⟩ := hconfined.logged
      refine ⟨entries, hjournal, iff_of_false ?_ hle⟩
      rintro ⟨entry, hmem, hbounds⟩
      exact hentries entry hmem hbounds

end Followed

/-- The first request for a candidate finds it standing. -/
theorem Pending.followed {change : Candidate → Work Bool}
    (pending : Pending start candidates pass earlier state) (listed : Listed start candidates)
    (hcandidate : candidates[position]? = some candidate) (hfirst : position ∉ earlier)
    (hleft : after = (change candidate).left (state.claimed pass position))
    (hconfined : Confined (state.claimed pass position) [candidate.handle] after) :
    Followed start candidates pass change earlier position state after := by
  obtain ⟨hlt, -⟩ := List.getElem?_eq_some_iff.mp hcandidate
  refine ⟨fun hle => absurd hle (Nat.not_le.mpr hlt), fun _ hmem => absurd hmem hfirst, ?_⟩
  intro other hother _
  obtain rfl : candidate = other := Option.some.inj (hcandidate.symm.trans hother)
  refine ⟨⟨?_, pending.unmarked position candidate hcandidate hfirst⟩, hleft, hconfined⟩
  obtain ⟨entry, hplaced⟩ :=
    (listed.intact candidate (List.mem_of_getElem? hcandidate)).exists_placed?
  obtain ⟨found, hfound, hrewired⟩ :=
    pending.rewired.stays hplaced (listed.not_mem_handlesAt hcandidate hfirst)
  exact ⟨entry, found, hplaced, hfound, hrewired⟩

/-- What is known of an answered piece of work is known of the workspace that it leaves. -/
theorem Runs.and_left {Answer : Type} {work : Work Answer} {answered : Answer → Workspace → Prop}
    {refused : EditError → Workspace → Prop} (hruns : Runs work state answered refused) :
    Runs work state (fun answer after => answered answer after ∧ after = work.left state)
      refused := by
  unfold Runs at *
  cases hwork : work state with
  | ok answer after =>
      rw [hwork] at hruns
      exact ⟨hruns, (Work.left_of_ok hwork).symm⟩
  | error problem after =>
      rw [hwork] at hruns
      exact hruns

theorem Work.claimOrWarn_apply {claimed : Bool} {ledger : Ledger} {count : Nat}
    (hclaim : state.ledger.claimOrWarn pass position count = (claimed, ledger)) :
    claimOrWarn pass position count state = .ok claimed { state with ledger } := by
  refine (modifyGet_apply _ state).trans ?_
  simp only [hclaim]

theorem Work.numberedRequest_of_le (change : Nat → Candidate → Work Bool) (request : Nat)
    (hle : candidates.length ≤ position) :
    numberedRequest pass candidates change (position, request) state =
      .ok false (state.warned (.outOfBounds pass position candidates.length)) :=
  bind_apply_of_ok (claimOrWarn_apply (Ledger.claimOrWarn_of_le hle)) _

theorem Work.numberedRequest_of_isUsed (change : Nat → Candidate → Work Bool) (request : Nat)
    (hlt : position < candidates.length) (hused : state.ledger.isUsed pass position = true) :
    numberedRequest pass candidates change (position, request) state =
      .ok false (state.warned (.alreadyMutated pass position)) :=
  bind_apply_of_ok (claimOrWarn_apply (Ledger.claimOrWarn_of_isUsed hlt hused)) _

/-- A first request is about its candidate, provided that this is as it was found. -/
theorem Work.numberedRequest_of_intact (change : Nat → Candidate → Work Bool) (request : Nat)
    (hcandidate : candidates[position]? = some candidate)
    (hunused : state.ledger.isUsed pass position = false)
    (hintact : candidate.Intact state.program)
    (hunmarked : state.ledger.isEdited candidate.handle = false) :
    numberedRequest pass candidates change (position, request) state =
      change request candidate (state.claimed pass position) := by
  obtain ⟨hlt, -⟩ := List.getElem?_eq_some_iff.mp hcandidate
  -- the claim marks nothing, so the candidate is not skipped
  have huntouched := @Candidate.isUntouched_of_intact candidate (state.claimed pass position)
    hintact hunmarked pass
  have hclaim := claimOrWarn_apply (Ledger.claimOrWarn_of_unused hlt hunused)
  refine (bind_apply_of_ok hclaim _).trans ?_
  rw [if_pos rfl, hcandidate]
  exact bind_apply_of_ok huntouched _

/-- A request does what it should if the change of its candidate is confined to it and not refused.
Besides, changes may keep some invariant and rely on it. -/
theorem Work.runs_numberedRequest {change : Nat → Candidate → Work Bool}
    {invariant : Workspace → Prop} {request : Nat}
    (hconfines : ∀ candidate origin,
      Confines origin [candidate.handle] (change request candidate))
    (hwarned : ∀ state entry, invariant state → invariant (state.warned entry))
    (hchange : ∀ candidate, candidates[position]? = some candidate →
      candidate.Intact state.program → state.ledger.isUsed pass position = false →
        invariant state →
          Runs (change request candidate) (state.claimed pass position) (fun _ => invariant)
            fun _ _ => False)
    (listed : Listed start candidates) (pending : Pending start candidates pass earlier state)
    (hstate : invariant state) :
    Runs (numberedRequest pass candidates change (position, request)) state
      (fun _ after => Followed start candidates pass (change request) earlier position state after ∧
        Pending start candidates pass (earlier ++ [position]) after ∧ invariant after)
      fun _ _ => False := by
  -- beyond the last candidate, a position that was requested before, or a first request
  by_cases hle : candidates.length ≤ position
  · refine runs_of_ok (numberedRequest_of_le change request hle) ?_
    refine ⟨⟨fun _ => rfl, fun hlt => ?_, fun candidate hcandidate => ?_⟩,
      pending.warned (Or.inl hle) _, hwarned state _ hstate⟩
    · exact absurd hle (Nat.not_le.mpr hlt)
    · exact absurd (List.getElem?_eq_some_iff.mp hcandidate).1 (Nat.not_lt.mpr hle)
  have hlt := Nat.lt_of_not_le hle
  by_cases hearlier : position ∈ earlier
  · have hused := (pending.used_iff position).mpr ⟨hearlier, hlt⟩
    refine runs_of_ok (numberedRequest_of_isUsed change request hlt hused) ?_
    refine ⟨⟨fun hbound => absurd hbound hle, fun _ _ => rfl, ?_⟩,
      pending.warned (Or.inr hearlier) _, hwarned state _ hstate⟩
    exact fun _ _ hfirst => absurd hearlier hfirst
  · have hunused := pending.isUsed_eq_false hearlier
    have hcandidate := List.getElem?_eq_getElem hlt
    have hintact := pending.intact listed hcandidate hearlier
    have hselected := numberedRequest_of_intact change request hcandidate hunused hintact
      (pending.unmarked position _ hcandidate hearlier)
    have hconfined := hconfines candidates[position] (state.claimed pass position) _
      (@Confined.refl (state.claimed pass position) pending.rewired.consistent _)
    have hruns := ((hchange _ hcandidate hintact hunused hstate).and_answered hconfined).and_left
    unfold Runs
    rw [hselected]
    refine hruns.weaken fun _ after hafter => ?_
    obtain ⟨⟨hinvariant, hconfined, -⟩, hleft⟩ := hafter
    exact ⟨pending.followed listed hcandidate hearlier hleft hconfined,
      pending.selected listed hcandidate hconfined, hinvariant⟩

end Requests

/-! ## All requests of a run

The number of a request is its place in the list, and the requests before it are those with smaller
numbers. -/

namespace Course

variable {Request : Type} {handle : Request → Work Bool}
  {invariant : List Request → Workspace → Prop}
  {outcome : List Request → Request → Workspace → Workspace → Prop}

private theorem exists_stagesFrom (close : List Bool → Work Bool) {requests : List Request}
    (hstep : ∀ earlier request state, request ∈ requests → invariant earlier state →
      Runs (handle request) state (fun _ after => outcome earlier request state after ∧
        invariant (earlier ++ [request]) after) fun _ _ => False)
    {earlier : List Request} {workspace : Workspace} (hstart : invariant earlier workspace)
    (answers : List Bool) {number : Nat} {request : Request}
    (hrequest : requests[number]? = some request) :
    ∃ before after,
      (workspace :: stagesFrom close answers (requests.map handle) workspace)[number]? =
        some before ∧
      (workspace :: stagesFrom close answers (requests.map handle) workspace)[number + 1]? =
        some after ∧
      outcome (earlier ++ requests.take number) request before after := by
  -- on the requests that are left; the invariant is about those that were handled
  induction requests generalizing earlier workspace answers number with
  | nil => cases hrequest
  | cons first rest ih =>
      obtain ⟨answer, between, hfirst, houtcome, hbetween⟩ :=
        (hstep earlier first workspace (List.mem_cons_self ..) hstart).exists_ok
      rw [List.map_cons]
      unfold stagesFrom
      rw [hfirst]
      cases number with
      | zero =>
          obtain rfl : first = request := Option.some.inj hrequest
          exact ⟨workspace, between, rfl, rfl, by simpa using houtcome⟩
      | succ number =>
          obtain ⟨before, after, hbefore, hafter, hlater⟩ :=
            ih (fun earlier request state hmem => hstep earlier request state
              (List.mem_cons_of_mem _ hmem)) hbetween (answers ++ [answer]) hrequest
          refine ⟨before, after, hbefore, hafter, ?_⟩
          rwa [List.take_succ_cons, ← List.singleton_append, ← List.append_assoc]

/-- If no request is refused, each has its outcome, in view of the requests before it. -/
theorem exists_stages_ofRequests {requests : List Request} {workspace : Workspace}
    (hstep : ∀ earlier request state, request ∈ requests → invariant earlier state →
      Runs (handle request) state (fun _ after => outcome earlier request state after ∧
        invariant (earlier ++ [request]) after) fun _ _ => False)
    (hstart : invariant [] workspace) {number : Nat} {request : Request}
    (hrequest : requests[number]? = some request) :
    ∃ before after,
      (workspace :: (ofRequests requests handle).stages workspace)[number]? = some before ∧
      (workspace :: (ofRequests requests handle).stages workspace)[number + 1]? = some after ∧
      outcome (requests.take number) request before after :=
  exists_stagesFrom (ofRequests requests handle).close hstep hstart [] hrequest

/-- The requests of a numbered course are followed one after another. -/
theorem exists_stages_numbered {start : Program} {candidates : List Candidate} {pass : String}
    {positions : List Nat} {change : Nat → Candidate → Work Bool} {invariant : Workspace → Prop}
    {workspace : Workspace} (listed : Listed start candidates)
    (hconfines : ∀ request candidate origin,
      Confines origin [candidate.handle] (change request candidate))
    (hwarned : ∀ state entry, invariant state → invariant (state.warned entry))
    (hchange : ∀ position request candidate state, candidates[position]? = some candidate →
      state.program.Consistent → candidate.Intact state.program →
        state.ledger.isUsed pass position = false → invariant state →
          Runs (change request candidate) (state.claimed pass position) (fun _ => invariant)
            fun _ _ => False)
    (hpending : Pending start candidates pass [] workspace) (hstart : invariant workspace)
    {number position : Nat} (hposition : positions[number]? = some position) :
    ∃ before after,
      (workspace :: (numbered pass candidates positions change).stages workspace)[number]? =
        some before ∧
      (workspace :: (numbered pass candidates positions change).stages workspace)[number + 1]? =
        some after ∧
      Followed start candidates pass (change number) (positions.take number) position before
        after := by
  have hrequest : positions.zipIdx[number]? = some (position, number) := by
    rw [List.getElem?_zipIdx, hposition]
    simp
  obtain ⟨before, after, hbefore, hafter, hfollowed⟩ :=
    @exists_stages_ofRequests _ (numberedRequest pass candidates change)
      (fun earlier state => Pending start candidates pass (earlier.map Prod.fst) state ∧
        invariant state)
      (fun earlier request before after => Followed start candidates pass (change request.2)
        (earlier.map Prod.fst) request.1 before after)
      positions.zipIdx workspace
      (by
        rintro earlier ⟨position, request⟩ state - ⟨pending, hstate⟩
        rw [List.map_append]
        exact runs_numberedRequest (hconfines request) hwarned
          (fun candidate hcandidate hintact hunused => hchange position request candidate state
            hcandidate pending.rewired.consistent hintact hunused) listed pending hstate)
      ⟨hpending, hstart⟩ number (position, number) hrequest
  refine ⟨before, after, hbefore, hafter, ?_⟩
  rwa [List.map_take, List.zipIdx_map_fst] at hfollowed

end Course

/-! ## What all requests keep

An operator that knows more of its changes than that they are confined states it as `known`. -/

/-- What is known after some requests, given whether one of them changed something.  It implies that
all other candidates are as they were found, the warnings about refused requests keep it, and so
does the change of a candidate that is requested for the first time. -/
structure KeptByRequests (start : Program) (candidates : List Candidate) (pass : String)
    (change : Nat → Candidate → Work Bool) (known : List Nat → Bool → Workspace → Prop) :
    Prop where
  pending : ∀ {earlier changed state}, known earlier changed state →
    Pending start candidates pass earlier state
  outOfBounds : ∀ {earlier changed state position}, known earlier changed state →
    candidates.length ≤ position → known (earlier ++ [position]) changed
      (state.warned (.outOfBounds pass position candidates.length))
  repeated : ∀ {earlier changed state position}, known earlier changed state →
    position < candidates.length → position ∈ earlier →
      known (earlier ++ [position]) changed (state.warned (.alreadyMutated pass position))
  selected : ∀ {earlier changed state position candidate}, known earlier changed state →
    candidates[position]? = some candidate → position ∉ earlier →
      ∃ answer after, change earlier.length candidate (state.claimed pass position) =
          .ok answer after ∧
        known (earlier ++ [position]) (answer || changed) after

namespace KeptByRequests

variable {start : Program} {candidates : List Candidate} {pass : String}
  {change : Nat → Candidate → Work Bool} {known : List Nat → Bool → Workspace → Prop}
  {earlier : List Nat} {changed : Bool} {state : Workspace}
  (kept : KeptByRequests start candidates pass change known) (listed : Listed start candidates)
include kept listed

theorem step (hknown : known earlier changed state) (position : Nat) :
    ∃ answer after, numberedRequest pass candidates change (position, earlier.length) state =
        .ok answer after ∧
      known (earlier ++ [position]) (answer || changed) after := by
  by_cases hle : candidates.length ≤ position
  · exact ⟨false, _, numberedRequest_of_le change earlier.length hle,
      kept.outOfBounds hknown hle⟩
  have hlt := Nat.lt_of_not_le hle
  have pending := kept.pending hknown
  by_cases hearlier : position ∈ earlier
  · exact ⟨false, _, numberedRequest_of_isUsed change earlier.length hlt
      ((pending.used_iff position).mpr ⟨hearlier, hlt⟩), kept.repeated hknown hlt hearlier⟩
  · have hcandidate := List.getElem?_eq_getElem hlt
    obtain ⟨answer, after, hchange, hafter⟩ := kept.selected hknown hcandidate hearlier
    refine ⟨answer, after, ?_, hafter⟩
    rw [numberedRequest_of_intact change earlier.length hcandidate
      (pending.isUsed_eq_false hearlier) (pending.intact listed hcandidate hearlier)
      (pending.unmarked position _ hcandidate hearlier), hchange]

theorem exists_rest (hknown : known earlier changed state) (rest : List Nat) :
    ∃ answer after, ((rest.zipIdx earlier.length).foldlM (fun changed request =>
        return (← numberedRequest pass candidates change request) || changed)
          changed : Work Bool) state = .ok answer after ∧
      known (earlier ++ rest) answer after := by
  -- on the requests that are left; their numbers go on from those before them
  induction rest generalizing earlier changed state with
  | nil => exact ⟨changed, state, rfl, by rwa [List.append_nil]⟩
  | cons position rest ih =>
      obtain ⟨answer, between, hrequest, hbetween⟩ := kept.step listed hknown position
      obtain ⟨final, after, hrest, hafter⟩ := ih hbetween
      rw [List.length_append, List.length_singleton] at hrest
      rw [List.append_assoc, List.singleton_append] at hafter
      refine ⟨final, after, ?_, hafter⟩
      rw [List.zipIdx_cons, List.foldlM_cons, bind_assoc, bind_apply_of_ok hrequest]
      exact hrest

/-- A numbered course is answered, and what is known in the end is about all of its requests. -/
theorem exists_finish (hknown : known [] false state) (positions : List Nat) :
    ∃ answer after, (Course.numbered pass candidates positions change).finish state =
        .ok answer after ∧
      known positions answer after := by
  obtain ⟨answer, after, hrest, hafter⟩ := kept.exists_rest listed hknown positions
  exact ⟨answer, after, (congrFun (Course.finish_ofRequests _ _) state).trans hrest, hafter⟩

private theorem exists_stages_rest (close : List Bool → Work Bool)
    (hknown : known earlier changed state) {rest : List Nat} (answers : List Bool)
    {number position : Nat} (hposition : rest[number]? = some position) :
    ∃ changed before answer after,
      (state :: Course.stagesFrom close answers ((rest.zipIdx earlier.length).map
        (numberedRequest pass candidates change)) state)[number]? = some before ∧
      (state :: Course.stagesFrom close answers ((rest.zipIdx earlier.length).map
        (numberedRequest pass candidates change)) state)[number + 1]? = some after ∧
      known (earlier ++ rest.take number) changed before ∧
      numberedRequest pass candidates change (position, earlier.length + number) before =
        .ok answer after := by
  -- on the requests that are left; their numbers go on from those before them
  induction rest generalizing earlier changed state answers number with
  | nil => cases hposition
  | cons first rest ih =>
      obtain ⟨answer, between, hfirst, hbetween⟩ := kept.step listed hknown first
      rw [List.zipIdx_cons, List.map_cons]
      unfold Course.stagesFrom
      rw [hfirst]
      cases number with
      | zero =>
          obtain rfl : first = position := Option.some.inj hposition
          exact ⟨changed, state, answer, between, rfl, rfl, by simpa using hknown, hfirst⟩
      | succ number =>
          obtain ⟨changed, before, answer, after, hbefore, hafter, hlater, hrequest⟩ :=
            ih hbetween (answers ++ [answer]) hposition
          rw [List.length_append, List.length_singleton] at hbefore hafter hrequest
          refine ⟨changed, before, answer, after, hbefore, hafter, ?_, ?_⟩
          · rwa [List.take_succ_cons, ← List.singleton_append, ← List.append_assoc]
          · rwa [Nat.add_right_comm, Nat.add_assoc] at hrequest

/-- What is known between requests is known at the stages of the course. -/
theorem exists_stages (hknown : known [] false state) {positions : List Nat}
    {number position : Nat} (hposition : positions[number]? = some position) :
    ∃ changed before answer after,
      (state :: (Course.numbered pass candidates positions change).stages state)[number]? =
        some before ∧
      (state :: (Course.numbered pass candidates positions change).stages state)[number + 1]? =
        some after ∧
      known (positions.take number) changed before ∧
      numberedRequest pass candidates change (position, number) before = .ok answer after := by
  obtain ⟨changed, before, answer, after, hbefore, hafter, hlater, hrequest⟩ :=
    kept.exists_stages_rest listed (Course.numbered pass candidates positions change).close hknown
      [] hposition
  rw [List.length_nil, Nat.zero_add] at hrequest
  exact ⟨changed, before, answer, after, hbefore, hafter, hlater, hrequest⟩

end KeptByRequests

end ConcurrencyFaults

import ConcurrencyFaults.Proofs.Operators.Attributes
import ConcurrencyFaults.Proofs.Retouching

/-!
# Runs on attributes

An operator on attributes finds its candidates before it changes the first of them, and uses each
position once.  A candidate that is requested is therefore amended once, for the first request that
names it, and until then it is as it was found.  So a whole run comes to retouching the program,
each instruction on its own, and its answer can be read off the program as it was before the run
(`Operator.yields_retouch`).

## Strategy

* `firstRequest` looks up the request that counts for a handle, as a function of the positions that
  were requested so far.  One more position changes it at one handle at most
  (`Listed.firstRequest_concat_self`, `firstRequest_concat_of_ne`).
* The invariant of the loop says of the positions so far what the program is by now: the start,
  retouched by the requests that count (`Operator.Amending`).
* A request that comes next finds its candidate as it was at the start, writes the amended operation
  over it, and so retouches the program at one more handle (`Amending.selected`).
-/

namespace ConcurrencyFaults

open Program Work

/-! ## The request that counts

Positions are looked up in a list of candidates that have different instructions (`Listed`). -/

/-- The number of the first request for an instruction, with the candidate that it names. -/
def firstRequest (candidates : List Candidate) (positions : List Nat) (handle : Handle) :
    Option (Nat × Candidate) := do
  let position ← candidates.findIdx? (·.handle == handle)
  let request ← positions.findIdx? (· == position)
  let candidate ← candidates[position]?
  return (request, candidate)

section FirstRequest

variable {program : Program} {candidates : List Candidate} {candidate : Candidate}
  {positions earlier : List Nat} {position request : Nat} {handle : Handle}

theorem firstRequest_nil (candidates : List Candidate) (handle : Handle) :
    firstRequest candidates [] handle = none := by
  unfold firstRequest
  cases candidates.findIdx? (·.handle == handle) <;> rfl

theorem mem_of_firstRequest
    (hfirst : firstRequest candidates positions handle = some (request, candidate)) :
    candidate ∈ candidates ∧ candidate.handle = handle := by
  simp only [firstRequest, Option.bind_eq_bind, Option.bind_eq_some_iff, Option.pure_def,
    Option.some.injEq, Prod.mk.injEq] at hfirst
  obtain ⟨position, hposition, -, -, found, hfound, -, rfl⟩ := hfirst
  obtain ⟨hlt, hhandle, -⟩ := List.findIdx?_eq_some_iff_getElem.mp hposition
  rw [List.getElem?_eq_getElem hlt, Option.some.injEq] at hfound
  subst hfound
  exact ⟨List.getElem_mem hlt, by simpa using hhandle⟩

/-- Candidates have different instructions, so each is found at its own position. -/
theorem Listed.findIdx?_handle (listed : Listed program candidates)
    (hcandidate : candidates[position]? = some candidate) :
    candidates.findIdx? (·.handle == candidate.handle) = some position := by
  obtain ⟨hlt, rfl⟩ := List.getElem?_eq_some_iff.mp hcandidate
  refine List.findIdx?_eq_some_iff_getElem.mpr ⟨hlt, by simp, fun earlier hearlier => ?_⟩
  have hne := List.pairwise_iff_getElem.mp listed.nodup earlier position
    (by simpa using Nat.lt_trans hearlier hlt) (by simpa using hlt) hearlier
  simpa using hne

/-- The first request for an instruction is the first one for the position of its candidate. -/
theorem Listed.firstRequest_eq_some_iff (listed : Listed program candidates) :
    firstRequest candidates positions handle = some (request, candidate) ↔
      ∃ position, candidates[position]? = some candidate ∧ candidate.handle = handle ∧
        positions.findIdx? (· == position) = some request := by
  constructor
  · intro hfirst
    simp only [firstRequest, Option.bind_eq_bind, Option.bind_eq_some_iff, Option.pure_def,
      Option.some.injEq, Prod.mk.injEq] at hfirst
    obtain ⟨position, hposition, found, hrequest, named, hnamed, rfl, rfl⟩ := hfirst
    obtain ⟨hlt, hhandle, -⟩ := List.findIdx?_eq_some_iff_getElem.mp hposition
    rw [List.getElem?_eq_getElem hlt, Option.some.injEq] at hnamed
    exact ⟨position, hnamed ▸ List.getElem?_eq_getElem hlt, by simpa [hnamed] using hhandle,
      hrequest⟩
  · rintro ⟨position, hcandidate, rfl, hrequest⟩
    simp [firstRequest, listed.findIdx?_handle hcandidate, hrequest, hcandidate]

private theorem findIdx?_eq_none_of_not_mem (hearlier : position ∉ earlier) :
    earlier.findIdx? (· == position) = none :=
  List.findIdx?_eq_none_iff.mpr fun other hother => by
    simpa using fun heq : other = position => hearlier (heq ▸ hother)

/-- A candidate that no request has named yet has none. -/
theorem Listed.firstRequest_of_not_mem (listed : Listed program candidates)
    (hcandidate : candidates[position]? = some candidate) (hearlier : position ∉ earlier) :
    firstRequest candidates earlier candidate.handle = none := by
  simp [firstRequest, listed.findIdx?_handle hcandidate, findIdx?_eq_none_of_not_mem hearlier]

/-- The request that comes next is the first for its candidate. -/
theorem Listed.firstRequest_concat_self (listed : Listed program candidates)
    (hcandidate : candidates[position]? = some candidate) (hearlier : position ∉ earlier) :
    firstRequest candidates (earlier ++ [position]) candidate.handle =
      some (earlier.length, candidate) := by
  simp [firstRequest, listed.findIdx?_handle hcandidate, List.findIdx?_append,
    findIdx?_eq_none_of_not_mem hearlier, hcandidate]

/-- The request that comes next matters to no other instruction, and if it was made before or is
out of bounds, to none at all. -/
theorem firstRequest_concat_of_ne
    (hother : ∀ candidate, candidates[position]? = some candidate → position ∉ earlier →
      candidate.handle ≠ handle) :
    firstRequest candidates (earlier ++ [position]) handle =
      firstRequest candidates earlier handle := by
  unfold firstRequest
  cases hplace : candidates.findIdx? (·.handle == handle) with
  | none => rfl
  | some place =>
      obtain ⟨hlt, hhandle, -⟩ := List.findIdx?_eq_some_iff_getElem.mp hplace
      have hcandidate := List.getElem?_eq_getElem hlt
      have hsame : (earlier ++ [position]).findIdx? (· == place) =
          earlier.findIdx? (· == place) := by
        rw [List.findIdx?_append]
        by_cases hmem : place ∈ earlier
        · obtain ⟨index, hindex⟩ := exists_findIdx? hmem
          rw [hindex]
          rfl
        · -- the instruction is not that of the next request
          have hne : position ≠ place := by
            rintro rfl
            exact hother _ hcandidate hmem (by simpa using hhandle)
          simp [hne]
      exact congrArg (·.bind fun request =>
        candidates[place]?.bind fun candidate => some (request, candidate)) hsame

theorem firstRequest_concat_of_handle_ne (hcandidate : candidates[position]? = some candidate)
    (hhandle : handle ≠ candidate.handle) :
    firstRequest candidates (earlier ++ [position]) handle =
      firstRequest candidates earlier handle := by
  refine firstRequest_concat_of_ne fun found hfound _ heq => hhandle ?_
  rw [← heq, Option.some.inj (hcandidate.symm.trans hfound)]

theorem firstRequest_concat_of_refused
    (hrefused : candidates.length ≤ position ∨ position ∈ earlier) (handle : Handle) :
    firstRequest candidates (earlier ++ [position]) handle =
      firstRequest candidates earlier handle := by
  refine firstRequest_concat_of_ne fun candidate hcandidate hfirst => ?_
  obtain ⟨hlt, -⟩ := List.getElem?_eq_some_iff.mp hcandidate
  exact absurd (hrefused.resolve_right hfirst) (Nat.not_le.mpr hlt)

end FirstRequest

namespace Operator

/-- What the requests of a run make of the operation at a handle. -/
def touch (operator : Operator) (candidates : List Candidate) (positions : List Nat)
    (handle : Handle) (operation : Operation) : Operation :=
  match firstRequest candidates positions handle with
  | none => operation
  | some (request, candidate) => operator.amend request candidate operation

/-- Whether one of the requests counts as a change. -/
def changes (operator : Operator) (start : Program) (candidates : List Candidate)
    (positions : List Nat) : Bool :=
  start.handles.any fun handle =>
    (firstRequest candidates positions handle).any fun (request, candidate) =>
      (start.instruction? handle).any fun instruction =>
        operator.counts request candidate instruction.operation

variable {operator : Operator} {start : Program} {candidates : List Candidate}
  {candidate : Candidate} {earlier positions : List Nat} {position : Nat} {handle : Handle}
  {entry : Placed}

theorem touch_of_eq_none (hnone : firstRequest candidates positions handle = none)
    (operation : Operation) :
    operator.touch candidates positions handle operation = operation := by
  unfold touch
  rw [hnone]

theorem touch_of_eq_some {request : Nat}
    (hfirst : firstRequest candidates positions handle = some (request, candidate))
    (operation : Operation) :
    operator.touch candidates positions handle operation =
      operator.amend request candidate operation := by
  unfold touch
  rw [hfirst]

theorem changes_iff (consistent : start.Consistent) :
    operator.changes start candidates positions = true ↔
      ∃ handle entry request candidate, start.placed? handle = some entry ∧
        firstRequest candidates positions handle = some (request, candidate) ∧
          operator.counts request candidate entry.instruction.operation = true := by
  simp only [changes, List.any_eq_true, Option.any_eq_true, instruction?, Option.map_eq_some_iff,
    Prod.exists]
  constructor
  · rintro ⟨handle, -, request, candidate, hfirst, -, ⟨entry, hplaced, rfl⟩, hcounts⟩
    exact ⟨handle, entry, request, candidate, hplaced, hfirst, hcounts⟩
  · rintro ⟨handle, entry, request, candidate, hplaced, hfirst, hcounts⟩
    exact ⟨handle, consistent.mem_handles_iff_placed?.mpr ⟨entry, hplaced⟩, request, candidate,
      hfirst, _, ⟨entry, hplaced, rfl⟩, hcounts⟩

/-- The next request counts along with those before it. -/
theorem changes_concat_self (consistent : start.Consistent) (listed : Listed start candidates)
    (hcandidate : candidates[position]? = some candidate) (hearlier : position ∉ earlier)
    (hplaced : start.placed? candidate.handle = some entry) :
    operator.changes start candidates (earlier ++ [position]) =
      (operator.counts earlier.length candidate entry.instruction.operation ||
        operator.changes start candidates earlier) := by
  have hself := listed.firstRequest_concat_self hcandidate hearlier
  have hother {handle : Handle} :=
    @firstRequest_concat_of_handle_ne candidates candidate earlier position handle hcandidate
  rw [Bool.eq_iff_iff, Bool.or_eq_true, changes_iff consistent, changes_iff consistent]
  constructor
  · rintro ⟨handle, found, request, named, hfound, hfirst, hcounts⟩
    by_cases hhandle : handle = candidate.handle
    · subst hhandle
      obtain rfl : entry = found := Option.some.inj (hplaced.symm.trans hfound)
      rw [hself, Option.some.injEq, Prod.mk.injEq] at hfirst
      obtain ⟨rfl, rfl⟩ := hfirst
      exact Or.inl hcounts
    · exact Or.inr ⟨handle, found, request, named, hfound, hother hhandle ▸ hfirst, hcounts⟩
  · rintro (hcounts | ⟨handle, found, request, named, hfound, hfirst, hcounts⟩)
    · exact ⟨_, entry, _, _, hplaced, hself, hcounts⟩
    · have hhandle : handle ≠ candidate.handle := by
        rintro rfl
        rw [listed.firstRequest_of_not_mem hcandidate hearlier] at hfirst
        cases hfirst
      exact ⟨handle, found, request, named, hfound, (hother hhandle).trans hfirst, hcounts⟩

/-! ## One request after another

A position that is out of bounds or was used before changes neither the program nor the lookup. -/

/-- The candidates of some requests were amended, and nothing else was done. -/
structure Amending (operator : Operator) (start : Program) (candidates : List Candidate)
    (earlier : List Nat) (changed : Bool) (state : Workspace) : Prop where
  pending : Pending start candidates operator.name earlier state
  program_eq : state.program = start.retouch (operator.touch candidates earlier)
  changed_eq : changed = operator.changes start candidates earlier

section Requests

variable {changed : Bool} {state : Workspace}

theorem Amending.warned (amending : operator.Amending start candidates earlier changed state)
    (hrefused : candidates.length ≤ position ∨ position ∈ earlier) (entry : Entry) :
    operator.Amending start candidates (earlier ++ [position]) changed (state.warned entry) := by
  have hsame := @firstRequest_concat_of_refused candidates earlier position hrefused
  refine ⟨amending.pending.warned hrefused entry, ?_, ?_⟩
  · refine amending.program_eq.trans (congrArg start.retouch ?_)
    funext handle operation
    simp only [touch, hsame]
  · simp only [amending.changed_eq, changes, hsame]

/-- A first request amends its candidate, which is still as it was found. -/
theorem Amending.selected (consistent : start.Consistent) (listed : Listed start candidates)
    (hattributes : operator.ChangesAttributes)
    (amending : operator.Amending start candidates earlier changed state)
    (hcandidate : candidates[position]? = some candidate) (hearlier : position ∉ earlier) :
    ∃ answer after, operator.change earlier.length candidate
        (state.claimed operator.name position) = .ok answer after ∧
      operator.Amending start candidates (earlier ++ [position]) (answer || changed) after := by
  have hself := listed.firstRequest_concat_self hcandidate hearlier
  have hnone := listed.firstRequest_of_not_mem hcandidate hearlier
  obtain ⟨entry, hplaced⟩ :=
    (listed.intact candidate (List.mem_of_getElem? hcandidate)).exists_placed?
  have hstanding : state.program.placed? candidate.handle = some entry := by
    rw [amending.program_eq, placed?_retouch_of_eq hplaced (touch_of_eq_none hnone _), hplaced]
  let claimed := state.claimed operator.name position
  obtain ⟨answer, after, hchange, rfl, hprogram⟩ := (@Operator.writes_change claimed entry operator
    hattributes candidate hstanding earlier.length).exists_ok
  refine ⟨_, after, hchange, pending_of_change amending.pending listed hcandidate hchange, ?_, ?_⟩
  · calc after.program
      _ = state.program.modifyInstruction candidate.handle (·.withOperation
            (operator.amend earlier.length candidate entry.instruction.operation)) := hprogram
      _ = (start.retouch (operator.touch candidates earlier)).retouch
            (Function.update (fun _ old => old) candidate.handle fun _ =>
              operator.amend earlier.length candidate entry.instruction.operation) := by
        rw [modifyInstruction_eq_retouch hstanding, amending.program_eq]
      _ = start.retouch (operator.touch candidates (earlier ++ [position])) := by
        rw [retouch_retouch]
        refine retouch_congr fun handle found hfound => ?_
        by_cases hhandle : handle = candidate.handle
        · subst hhandle
          obtain rfl : entry = found := Option.some.inj (hplaced.symm.trans hfound)
          rw [Function.update_self, touch_of_eq_some hself]
        · rw [Function.update_of_ne hhandle]
          simp only [touch, firstRequest_concat_of_handle_ne hcandidate hhandle]
  · rw [changes_concat_self consistent listed hcandidate hearlier hplaced, amending.changed_eq]

/-- Each request amends its candidate or nothing. -/
theorem keptByRequests_amending (consistent : start.Consistent) (listed : Listed start candidates)
    (hattributes : operator.ChangesAttributes) :
    KeptByRequests start candidates operator.name operator.change
      (operator.Amending start candidates) where
  pending := Amending.pending
  outOfBounds := fun amending hle => amending.warned (Or.inl hle) _
  repeated := fun amending _ hearlier => amending.warned (Or.inr hearlier) _
  selected := fun amending => amending.selected consistent listed hattributes

end Requests

/-! ## The whole run

A run is a preparation, which takes notes at most, and the loop over the positions. -/

/-- The operator gives an answer on a program and leaves another one, whatever is noted. -/
def Yields (operator : Operator) (oracle : AliasOracle) (before : Program) (answer : Bool)
    (after : Program) : Prop :=
  ∃ ledger, operator.run oracle { program := before } = .ok answer { program := after, ledger }

theorem amending_start (consistent : start.Consistent) (operator : Operator)
    (candidates : List Candidate) {prepared : Workspace} (hprogram : prepared.program = start)
    (hunused : prepared.ledger.used = []) (hunedited : prepared.ledger.edited = []) :
    operator.Amending start candidates [] false prepared := by
  have hnone := firstRequest_nil candidates
  subst hprogram
  refine ⟨Pending.of_fresh consistent hunused hunedited candidates operator.name, ?_, ?_⟩
  · exact (retouch_eq_self fun handle entry _ => touch_of_eq_none (hnone handle) _).symm
  · simp [changes, hnone]

theorem Idle.amend_eq (hidle : operator.Idle) (hattributes : operator.ChangesAttributes)
    (hplaced : start.placed? candidate.handle = some entry) (request : Nat) :
    operator.amend request candidate entry.instruction.operation = entry.instruction.operation ∧
      operator.counts request candidate entry.instruction.operation = false := by
  have hwrites := @Operator.writes_change { program := start } entry operator hattributes candidate
    hplaced request
  rw [hidle.2] at hwrites
  obtain ⟨hcounts, hprogram⟩ := hwrites
  have hstays := congrFun (placed?_modifyInstruction hplaced (·.withOperation
    (operator.amend request candidate entry.instruction.operation))) candidate.handle
  rw [← hprogram, Function.update_self] at hstays
  have hentry := Option.some.inj (hplaced.symm.trans hstays)
  exact ⟨(congrArg (fun entry : Placed => entry.instruction.operation) hentry).symm, hcounts.symm⟩

/-- If nothing is requested, or nothing comes of it, the program stays. -/
theorem retouch_of_idle (consistent : start.Consistent) (hattributes : operator.ChangesAttributes)
    (hnothing : operator.Idle ∨ operator.positions = []) :
    start.retouch (operator.touch candidates operator.positions) = start ∧
      operator.changes start candidates operator.positions = false := by
  have hidle (handle : Handle) (entry : Placed) (request : Nat) (candidate : Candidate)
      (hplaced : start.placed? handle = some entry)
      (hfirst : firstRequest candidates operator.positions handle = some (request, candidate)) :
      operator.amend request candidate entry.instruction.operation =
          entry.instruction.operation ∧
        operator.counts request candidate entry.instruction.operation = false := by
    rcases hnothing with hidle | hpositions
    · obtain ⟨-, rfl⟩ := mem_of_firstRequest hfirst
      exact hidle.amend_eq hattributes hplaced request
    · rw [hpositions, firstRequest_nil] at hfirst
      cases hfirst
  constructor
  · refine retouch_eq_self fun handle entry hplaced => ?_
    cases hfirst : firstRequest candidates operator.positions handle with
    | none => exact touch_of_eq_none hfirst _
    | some named =>
        rw [touch_of_eq_some hfirst]
        exact (hidle handle entry _ _ hplaced hfirst).1
  · rw [Bool.eq_false_iff, ne_eq, changes_iff consistent]
    rintro ⟨handle, entry, request, candidate, hplaced, hfirst, hcounts⟩
    rw [(hidle handle entry request candidate hplaced hfirst).2] at hcounts
    cases hcounts

theorem ChangesAttributes.numbersSites (hattributes : operator.ChangesAttributes) :
    operator.numbersSites = true := by
  cases operator with
  | lock plan => exact hattributes.elim
  | _ => rfl

/-- A run amends each candidate for the first request that names it. -/
theorem yields_retouch (consistent : start.Consistent)
    (hcandidates : operator.candidates start = .ok candidates) (listed : Listed start candidates)
    (hattributes : operator.ChangesAttributes) (oracle : AliasOracle) :
    operator.Yields oracle start (operator.changes start candidates operator.positions)
      (start.retouch (operator.touch candidates operator.positions)) := by
  obtain ⟨course, prepared, hcourse, hprepared⟩ :=
    exists_prepared hcandidates hattributes.numbersSites oracle
  have hprogram : prepared.program = start := hprepared.program_eq
  have hstart := amending_start consistent operator candidates hprogram hprepared.used_eq
    hprepared.edited_eq
  unfold Yields
  rw [run_eq, bind_apply_of_ok hcourse]
  rcases hprepared.course_cases with ⟨rfl, hnothing⟩ | ⟨found, hfound, rfl⟩
  · obtain ⟨hstays, hchanges⟩ :=
      @retouch_of_idle operator start candidates consistent hattributes hnothing
    refine ⟨prepared.ledger, ?_⟩
    rw [hstays, hchanges, ← hprogram]
    rfl
  · obtain rfl := Except.ok.inj (hcandidates.symm.trans hfound)
    obtain ⟨answer, after, hfinish, hafter⟩ :=
      (keptByRequests_amending consistent listed hattributes).exists_finish listed hstart
        operator.positions
    refine ⟨after.ledger, ?_⟩
    rw [← hafter.changed_eq, ← hafter.program_eq]
    exact hfinish

end Operator

end ConcurrencyFaults

import ConcurrencyFaults.Proofs.Operators.Candidates
import ConcurrencyFaults.Proofs.Relisting

/-!
# Deadlines that are moved

A timed wait has its deadline moved by eight instructions, which are inserted one after another in
front of an anchor.  Each of them goes directly ahead of the anchor and so directly behind the one
before it.  However many there are, they end up in a row (`Program.PutsRow`), and all else is as it
was.

Since nothing is taken away and no operand changes, the waits of a run stay what they were when the
program was searched (`WaitOperator.Waiting`).  What a request does therefore follows from its
position and from the instructions that its function has at that moment, among which may be the code
of earlier requests.

## Strategy

1. `PutsRow.concat` is the step for a single insertion: the row grows at its end, because the new
   instruction goes between the anchor and what is ahead of it.
2. Four insertions add to one field (`exists_addToField_putsRow`), and two fields make a deadline
   (`deadlineCode`).  The names of the new instructions are only known once they are inserted, hence
   the `FieldHandles`.
3. `MovesDeadline` says what one call of the code does, whether or not the deadline can be moved
   (`runs_moveDeadline_moves`).
4. `Waiting` is kept by every request: one that is passed over changes nothing, and one that is not
   puts a row somewhere, which leaves all captured calls alone (`PutsRow.capture_eq`).
5. `movesRequested_of_request` reads off what the request did, and `deadlines_moved` says it of all
   stages of a run.
-/

namespace ConcurrencyFaults

open Program Work

/-! ## Rows of new instructions

An insertion in front of an anchor relists the program with the anchor replaced by the new
instruction and itself.  Relistings compose, so a row is one relisting as well. -/

namespace Program

variable {before between after : Program} {anchor new handle : Handle} {entry : Placed}
  {instruction : Instruction} {row : List (Handle × Instruction)}

/-- New instructions stand in a row directly ahead of an old one, in the same block, and all else is
as it was. -/
structure PutsRow (before after : Program) (anchor : Handle) (row : List (Handle × Instruction)) :
    Prop where
  relists : before.Relists after (instead anchor (row.map Prod.fst ++ [anchor]))
  nodup : (row.map Prod.fst).Nodup
  fresh : ∀ handle ∈ row.map Prod.fst, before.placed? handle = none
  placed : ∃ entry, before.placed? anchor = some entry ∧ ∀ new ∈ row,
    after.placed? new.1 = some ⟨new.2, entry.function, entry.block⟩
  framed : ∀ handle ∉ row.map Prod.fst, after.placed? handle = before.placed? handle

theorem putsRow_nil (consistent : before.Consistent)
    (hplaced : before.placed? anchor = some entry) : before.PutsRow before anchor [] where
  relists := {
    consistent
    name_eq := rfl
    outline_eq := rfl
    block? := fun {function index block} hblock => by
      have hsame : ∀ handle ∈ block.handles, instead anchor [anchor] handle = [handle] := by
        intro handle _
        unfold instead
        split
        · rename_i heq
          rw [heq]
        · rfl
      rw [hblock, List.map_nil, List.nil_append, flatMap_eq_self hsame] }
  nodup := List.nodup_nil
  fresh := by simp
  placed := ⟨entry, hplaced, by simp⟩
  framed := fun _ _ => rfl

namespace PutsRow

theorem placed?_of_placed? (hputs : before.PutsRow after anchor row)
    (hplaced : before.placed? handle = some entry) : after.placed? handle = some entry := by
  rw [hputs.framed handle fun hmem => ?_, hplaced]
  exact ne_of_placed? hplaced (hputs.fresh handle hmem) rfl

theorem exists_anchor (hputs : before.PutsRow after anchor row) :
    ∃ entry, after.placed? anchor = some entry := by
  obtain ⟨entry, hplaced, -⟩ := hputs.placed
  exact ⟨entry, hputs.placed?_of_placed? hplaced⟩

theorem ne (hputs : before.PutsRow after anchor row) (hmem : (new, instruction) ∈ row) :
    after ≠ before := by
  rintro rfl
  obtain ⟨entry, -, hplaced⟩ := hputs.placed
  exact ne_of_placed? (hplaced _ hmem) (hputs.fresh new (List.mem_map_of_mem hmem)) rfl

/-- The row grows at its end, directly ahead of the anchor. -/
theorem concat (hputs : before.PutsRow between anchor row)
    (hnext : between.PutsAhead after anchor new instruction) :
    before.PutsRow after anchor (row ++ [(new, instruction)]) := by
  obtain ⟨entry, hanchor, hplaced⟩ := hputs.placed
  have hanchorNot : anchor ∉ row.map Prod.fst := fun hmem =>
    ne_of_placed? hanchor (hputs.fresh anchor hmem) rfl
  have hnew : new ∉ row.map Prod.fst := by
    intro hmem
    obtain ⟨⟨_, old⟩, hold, rfl⟩ := List.mem_map.mp hmem
    exact ne_of_placed? (hplaced _ hold) hnext.fresh rfl
  have hrow : (row ++ [(new, instruction)]).map Prod.fst = row.map Prod.fst ++ [new] := by simp
  -- the second insertion replaces the anchor alone, which is the last of what replaced it before
  refine ⟨(hputs.relists.trans hnext.relists).congr fun handle _ => ?_, ?_, ?_, ?_, ?_⟩
  · rw [hrow]
    by_cases hhandle : handle = anchor
    · rw [hhandle]
      calc (instead anchor (row.map Prod.fst ++ [anchor]) anchor).flatMap
            (instead anchor [new, anchor])
        _ = (row.map Prod.fst ++ [anchor]).flatMap (instead anchor [new, anchor]) := by
          rw [instead_self]
        _ = row.map Prod.fst ++ [new, anchor] := by
          rw [List.flatMap_append, flatMap_instead_of_not_mem hanchorNot, List.flatMap_singleton,
            instead_self]
        _ = instead anchor (row.map Prod.fst ++ [new] ++ [anchor]) anchor := by
          rw [instead_self, List.append_assoc]
          rfl
    · rw [instead_of_ne hhandle, instead_of_ne hhandle, List.flatMap_singleton,
        instead_of_ne hhandle]
  · rw [hrow, List.nodup_append']
    exact ⟨hputs.nodup, List.nodup_singleton new, List.disjoint_singleton.mpr hnew⟩
  · intro handle hmem
    rw [hrow, List.mem_append, List.mem_singleton] at hmem
    rcases hmem with hmem | rfl
    · exact hputs.fresh handle hmem
    · rw [← hputs.framed handle hnew, hnext.fresh]
  · refine ⟨entry, hanchor, fun added hmem => ?_⟩
    rw [List.mem_append, List.mem_singleton] at hmem
    rcases hmem with hmem | rfl
    · exact hnext.placed?_of_placed? (hplaced added hmem)
    · exact hnext.placed?_new (hputs.placed?_of_placed? hanchor)
  · intro handle hnot
    rw [hrow, List.mem_append, not_or, List.mem_singleton] at hnot
    obtain ⟨found, -, hupdate⟩ := hnext.placed?
    rw [hupdate, Function.update_of_ne hnot.2, hputs.framed handle hnot.1]

/-- One more insertion in front of the anchor is answered and goes to the end of the row. -/
theorem exists_insertBefore (hputs : before.PutsRow between anchor row)
    (instruction : Instruction) :
    ∃ new after, insertBefore anchor instruction between = .ok new after ∧
      before.PutsRow after anchor (row ++ [(new, instruction)]) := by
  obtain ⟨entry, hplaced⟩ := hputs.exists_anchor
  have consistent := hputs.relists.consistent
  exact ⟨_, _, insertBefore_of_placed? consistent hplaced instruction,
    hputs.concat (putsAhead_insertAhead consistent hplaced instruction)⟩

theorem capture_eq {site : CallSite} {demangled : Bool}
    (hputs : before.PutsRow after anchor row)
    (hcapture : CallSite.capture before handle demangled = .ok (some site)) :
    CallSite.capture after handle demangled = .ok (some site) := by
  obtain ⟨entry, target, hplaced, htarget, hoperation, hsite⟩ :=
    CallSite.capture_eq_some_iff.mp hcapture
  obtain ⟨found, hfound, hname, -⟩ := hputs.relists.exists_function? htarget
  refine CallSite.capture_eq_some_iff.mpr
    ⟨entry, found, hputs.placed?_of_placed? hplaced, hfound, hoperation, ?_⟩
  rw [hname]
  exact hsite

end PutsRow

end Program

namespace WaitOperator

variable {site : CallSite} {start program after : Program} {anchor : Handle} {time : Operand}
  {row : List (Handle × Instruction)} {workspace : Workspace} {point : Option Nat}

/-! ## The code for one deadline

A time has two fields, seconds and nanoseconds.  The code for either reads the old value and assigns
the sum, so it consists of four instructions of which each but the first reads the one before. -/

/-- The four instructions that add to a field. -/
structure FieldHandles where
  pointer : Handle
  old : Handle
  sum : Handle
  store : Handle

def FieldHandles.toList (handles : FieldHandles) : List Handle :=
  [handles.pointer, handles.old, handles.sum, handles.store]

/-- The code that adds `delta` to a field of the time at `time`: the address of the field, its old
value, the sum, and the assignment of the sum. -/
def FieldHandles.code (handles : FieldHandles) (time : Operand) (field : Nat) (delta : Int)
    (location : Option Location) : List (Handle × Instruction) :=
  [(handles.pointer, { operation := .fieldAddress time field, location }),
    (handles.old,
      { operation := .load (.result handles.pointer) (.int 64) false .notAtomic .crossThread
        location }),
    (handles.sum,
      { operation := .binary .add (.result handles.old) (.int 64 true delta) (.int 64), location }),
    (handles.store,
      { operation := .store (.result handles.pointer) (.result handles.sum) false .notAtomic
          .crossThread
        location })]

/-- The code that moves the deadline of a wait, whose time is at `time`. -/
def deadlineCode (site : CallSite) (time : Operand) (seconds nanoseconds : Int)
    (first second : FieldHandles) : List (Handle × Instruction) :=
  first.code time 0 seconds site.location ++ second.code time 1 nanoseconds site.location

theorem exists_addToField_putsRow (hputs : start.PutsRow program anchor row) (time : Operand)
    (field : Nat) (delta : Int) (location : Option Location) :
    ∃ (handles : FieldHandles) (after : Program),
      addToField anchor time field delta location program = .ok handles.toList after ∧
      start.PutsRow after anchor (row ++ handles.code time field delta location) := by
  obtain ⟨pointer, first, hpointer, hputs⟩ :=
    hputs.exists_insertBefore { operation := .fieldAddress time field, location }
  obtain ⟨old, second, hold, hputs⟩ := hputs.exists_insertBefore
    { operation := .load (.result pointer) (.int 64) false .notAtomic .crossThread, location }
  obtain ⟨sum, third, hsum, hputs⟩ := hputs.exists_insertBefore
    { operation := .binary .add (.result old) (.int 64 true delta) (.int 64), location }
  obtain ⟨store, fourth, hstore, hputs⟩ := hputs.exists_insertBefore
    { operation := .store (.result pointer) (.result sum) false .notAtomic .crossThread, location }
  refine ⟨⟨pointer, old, sum, store⟩, fourth, ?_, ?_⟩
  · unfold addToField
    dsimp only
    rw [bind_apply_of_ok hpointer, bind_apply_of_ok hold, bind_apply_of_ok hsum,
      bind_apply_of_ok hstore]
    rfl
  · rw [FieldHandles.code]
    simpa only [List.append_assoc, List.cons_append, List.nil_append] using hputs

/-- The code for both fields ends up in one row. -/
theorem exists_deadlineCode_putsRow {entry : Placed} (consistent : program.Consistent)
    (hlive : program.placed? anchor = some entry) (site : CallSite) (time : Operand)
    (seconds nanoseconds : Int) :
    ∃ (first second : FieldHandles) (between after : Program),
      addToField anchor time 0 seconds site.location program = .ok first.toList between ∧
      addToField anchor time 1 nanoseconds site.location between = .ok second.toList after ∧
      program.PutsRow after anchor (deadlineCode site time seconds nanoseconds first second) := by
  obtain ⟨first, between, hfirst, hputs⟩ :=
    exists_addToField_putsRow (putsRow_nil consistent hlive) time 0 seconds site.location
  obtain ⟨second, after, hsecond, hputs⟩ :=
    exists_addToField_putsRow hputs time 1 nanoseconds site.location
  exact ⟨first, second, between, after, hfirst, hsecond, hputs⟩

/-! ## One deadline

A request is passed over if the call has no deadline, has fewer than three arguments, or names a
point beyond its function.  `Movable` is what is left. -/

/-- The deadline of a call can be moved: it is a timed wait, its time is at `time`, and there is an
instruction in front of which the code goes, as the function is. -/
structure Movable (program : Program) (site : CallSite) (point : Option Nat) (time : Operand)
    (anchor : Handle) : Prop where
  name_eq : site.name = Condition.timedWait
  time_eq : site.arguments[2]? = some time
  anchor_eq : anchor? site (program.handlesIn site.function) point = some anchor

/-- Where the deadline can be moved, the code for it is put ahead of the anchor.  Otherwise nothing
changes. -/
structure MovesDeadline (before after : Program) (site : CallSite) (seconds nanoseconds : Int)
    (point : Option Nat) : Prop where
  moved : ∀ {time anchor}, Movable before site point time anchor →
    ∃ first second : FieldHandles,
      before.PutsRow after anchor (deadlineCode site time seconds nanoseconds first second)
  unmoved : (¬ ∃ time anchor, Movable before site point time anchor) → after = before

namespace MovesDeadline

variable {seconds nanoseconds : Int}

/-- Where the deadline cannot be moved, leaving the program alone is right. -/
theorem of_not_movable (hnone : ¬ ∃ time anchor, Movable program site point time anchor) :
    MovesDeadline program program site seconds nanoseconds point where
  moved := fun hmovable => absurd ⟨_, _, hmovable⟩ hnone
  unmoved := fun _ => rfl

/-- A call has one third argument and a point one instruction, so there is one place for the
code. -/
theorem of_putsRow (hmovable : Movable program site point time anchor) {first second : FieldHandles}
    (hputs : program.PutsRow after anchor
      (deadlineCode site time seconds nanoseconds first second)) :
    MovesDeadline program after site seconds nanoseconds point where
  moved := by
    intro otherTime otherAnchor hother
    obtain rfl : time = otherTime :=
      Option.some.inj (hmovable.time_eq.symm.trans hother.time_eq)
    obtain rfl : anchor = otherAnchor :=
      Option.some.inj (hmovable.anchor_eq.symm.trans hother.anchor_eq)
    exact ⟨first, second, hputs⟩
  unmoved := fun hnone => absurd ⟨time, anchor, hmovable⟩ hnone

end MovesDeadline

/-- A point in the function is needed only where the code does not go ahead of the wait itself. -/
private theorem anchor?_congr {handles others : List Handle}
    (hsame : point ≠ none → handles = others) :
    anchor? site handles point = anchor? site others point := by
  cases point with
  | none => rfl
  | some point => rw [hsame (Option.some_ne_none point)]

theorem runs_moveDeadline_moves (consistent : workspace.program.Consistent)
    (hintact : site.Intact workspace.program) (seconds nanoseconds : Int) (point : Option Nat) :
    Runs (moveDeadline site seconds nanoseconds point) workspace
      (fun _ after => MovesDeadline workspace.program after.program site seconds nanoseconds point)
      fun _ _ => False := by
  obtain ⟨entry, hplaced, hhere, -⟩ := hintact.placed?
  obtain ⟨function, hfunction, -⟩ := consistent.function_of_placed hplaced
  rw [hhere] at hfunction
  have hhandlesIn : workspace.program.handlesIn site.function = function.handles := by
    rw [handlesIn, hfunction]
    rfl
  unfold moveDeadline
  -- the three ways out come in the order of the fields of `Movable`
  split
  · rename_i hname
    refine runs_bind_warn (runs_pure (.of_not_movable ?_))
    rintro ⟨time, anchor, hmovable⟩
    exact hname hmovable.name_eq
  · rename_i hname
    split
    · rename_i time htime
      extract_lets rest
      have hrest : ∀ handles, (point ≠ none → handles = function.handles) →
          Runs (rest handles) workspace (fun _ after =>
            MovesDeadline workspace.program after.program site seconds nanoseconds point)
            fun _ _ => False := by
        intro handles hhandles
        have hsame : anchor? site handles point =
            anchor? site (workspace.program.handlesIn site.function) point :=
          anchor?_congr (hhandlesIn ▸ hhandles)
        simp only [rest]
        split
        · rename_i anchor hanchor
          rw [hsame] at hanchor
          obtain ⟨target, hlive⟩ := placed?_of_anchor? consistent hintact hfunction
            (fun _ => hhandlesIn) hanchor
          obtain ⟨first, second, between, last, hfirst, hsecond, hputs⟩ :=
            exists_deadlineCode_putsRow consistent hlive site time seconds nanoseconds
          obtain ⟨found, hfound⟩ := hputs.exists_anchor
          obtain ⟨position, hposition⟩ := exists_position hputs.relists.consistent hfound
          have hmovable : Movable workspace.program site point time anchor :=
            ⟨not_not.mp hname, htime, hanchor⟩
          exact runs_bind_edit hfirst (runs_bind_edit hsecond (runs_bind_markAll
            (runs_bind_markEdited (runs_bind_query hposition
              (runs_bind_recordChange fun entry => runs_pure (.of_putsRow hmovable hputs))))))
        · rename_i hanchor
          refine runs_bind_record (runs_pure (.of_not_movable ?_))
          rintro ⟨time', anchor', hmovable⟩
          exact hanchor anchor' (hsame.trans hmovable.anchor_eq)
      split
      · exact hrest [] fun hpoint => absurd rfl hpoint
      · exact runs_bind_query (handlesOf_of_function? hfunction) (hrest _ fun _ => rfl)
    · rename_i htime
      refine runs_bind_warn (runs_pure (.of_not_movable ?_))
      rintro ⟨time, anchor, hmovable⟩
      exact htime time hmovable.time_eq

/-! ## All requests of a run

Code that an earlier request put in may stand in front of a wait, and a later point may lie in it.
So what is kept is not where the waits are but what they are. -/

/-- After some requests, every wait is still what it was when the program was searched. -/
structure Waiting (start : Program) (found : FoundCalls) (earlier : List Nat) (state : Workspace) :
    Prop where
  pending : Pending start (found.sites.map .call) name earlier state
  captured : ∀ site ∈ found.sites,
    CallSite.capture state.program site.handle false = .ok (some site)

section Requests

variable {found : FoundCalls} {earlier : List Nat} {state : Workspace} {plan : WaitPlan}
  {seconds nanoseconds : List Int} {points : List Nat}

theorem MovesDeadline.capture_eq {before after : Program} {seconds nanoseconds : Int}
    (hmoves : MovesDeadline before after site seconds nanoseconds point) {other : CallSite}
    (hcapture : CallSite.capture before other.handle false = .ok (some other)) :
    CallSite.capture after other.handle false = .ok (some other) := by
  by_cases hmovable : ∃ time anchor, Movable before site point time anchor
  · obtain ⟨time, anchor, hmovable⟩ := hmovable
    obtain ⟨first, second, hputs⟩ := hmoves.moved hmovable
    exact hputs.capture_eq hcapture
  · rwa [hmoves.unmoved hmovable]

/-- The first request for a wait moves its deadline, if it can be moved, and leaves all other
waits. -/
theorem Waiting.selected {position : Nat} (waiting : Waiting start found earlier state)
    (listed : Listed start (found.sites.map .call))
    (hchange : plan.change = some (.timeout seconds nanoseconds points))
    (hsite : found.get? position = some site) (request : Nat) (hfirst : position ∉ earlier) :
    ∃ answer after, (Operator.wait plan).change request (.call site)
        (state.claimed name position) = .ok answer after ∧
      MovesDeadline state.program after.program site ((nthOrLast seconds request).getD 0)
        ((nthOrLast nanoseconds request).getD 0) (nthOrLast points request) ∧
      Waiting start found (earlier ++ [position]) after := by
  have hcandidate : (found.sites.map Candidate.call)[position]? = some (.call site) := by
    rw [found.getElem?_map_call, hsite, Option.map_some]
  have hconfined := Operator.confines_change (.wait plan) request (.call site)
    (state.claimed name position) _
    (@Confined.refl (state.claimed name position) waiting.pending.rewired.consistent _)
  have hmoves : Runs ((Operator.wait plan).change request (.call site))
      (state.claimed name position) (fun _ after =>
        MovesDeadline state.program after.program site ((nthOrLast seconds request).getD 0)
          ((nthOrLast nanoseconds request).getD 0) (nthOrLast points request))
      fun _ _ => False := by
    simp only [Operator.change, hchange]
    exact @runs_moveDeadline_moves site (state.claimed name position)
      waiting.pending.rewired.consistent (waiting.pending.intact listed hcandidate hfirst) _ _ _
  obtain ⟨answer, after, hanswer, hmoves, hconfined, -⟩ := (hmoves.and_answered hconfined).exists_ok
  refine ⟨answer, after, hanswer, hmoves, waiting.pending.selected listed hcandidate hconfined, ?_⟩
  exact fun other hother => hmoves.capture_eq (waiting.captured other hother)

theorem keptByRequests_waiting (listed : Listed start (found.sites.map .call))
    (hchange : plan.change = some (.timeout seconds nanoseconds points)) :
    KeptByRequests start (found.sites.map .call) name (Operator.wait plan).change
      fun earlier _ => Waiting start found earlier where
  pending := fun waiting => waiting.pending
  outOfBounds := fun waiting hle =>
    ⟨waiting.pending.warned (Or.inl hle) _, waiting.captured⟩
  repeated := fun waiting _ hearlier =>
    ⟨waiting.pending.warned (Or.inr hearlier) _, waiting.captured⟩
  selected := by
    intro earlier _ state position candidate waiting hcandidate hfirst
    rw [found.getElem?_map_call, Option.map_eq_some_iff] at hcandidate
    obtain ⟨site, hsite, rfl⟩ := hcandidate
    obtain ⟨answer, after, hanswer, -, hafter⟩ :=
      waiting.selected listed hchange hsite earlier.length hfirst
    exact ⟨answer, after, hanswer, hafter⟩

end Requests

/-- A request that moves a deadline moves that of its wait, by the amounts that are listed for the
request or last. -/
structure MovesRequested (found : FoundCalls) (plan : WaitPlan)
    (seconds nanoseconds : List Int) (points : List Nat) (number position : Nat)
    (before after : Program) : Prop where
  captured : ∀ site, found.get? position = some site →
    CallSite.capture before site.handle false = .ok (some site)
  moved : ∀ {site time anchor}, position ∉ plan.positions.take number →
    found.get? position = some site →
    Movable before site (nthOrLast points number) time anchor →
      ∃ delta nanos first second, nthOrLast seconds number = some delta ∧
        nthOrLast nanoseconds number = some nanos ∧
        before.PutsRow after anchor (deadlineCode site time delta nanos first second)
  changed_iff : after ≠ before ↔ position ∉ plan.positions.take number ∧
    ∃ site time anchor, found.get? position = some site ∧
      Movable before site (nthOrLast points number) time anchor

/-- An accepted plan asks for something and lists amounts for both fields. -/
theorem nonempty_of_accepted {plan : WaitPlan} {seconds nanoseconds : List Int}
    {points : List Nat} (haccepted : plan.check = .ok ())
    (hchange : plan.change = some (.timeout seconds nanoseconds points)) :
    plan.positions ≠ [] ∧ seconds ≠ [] ∧ nanoseconds ≠ [] := by
  unfold WaitPlan.check requirePositions at haccepted
  simp only [hchange] at haccepted
  split at haccepted
  · cases haccepted
  · split at haccepted
    · cases haccepted
    · rename_i hpositions
      obtain ⟨_, -, haccepted⟩ := Except.bind_eq_ok_iff.mp haccepted
      split at haccepted
      · cases haccepted
      · rename_i hamounts
        rw [Bool.or_eq_true, not_or] at hamounts
        simp only [List.isEmpty_iff] at hpositions hamounts
        exact ⟨hpositions, hamounts⟩

section Run

variable {found : FoundCalls} {plan : WaitPlan} {seconds nanoseconds : List Int}
  {points : List Nat} {number position : Nat} {before after : Workspace}

/-- A request beyond the last wait and a second request for one change nothing. -/
theorem MovesRequested.of_program_eq
    (captured : ∀ site ∈ found.sites,
      CallSite.capture before.program site.handle false = .ok (some site))
    (hpassed : found.get? position = none ∨ position ∈ plan.positions.take number)
    (hsame : after.program = before.program) :
    MovesRequested found plan seconds nanoseconds points number position before.program
      after.program where
  captured := fun site hsite => captured site (FoundCalls.mem_of_get? hsite)
  moved := by
    intro site time anchor hfirst hsite
    rcases hpassed with hnone | hmem
    · rw [hsite] at hnone
      cases hnone
    · exact absurd hmem hfirst
  changed_iff := by
    refine iff_of_false (not_not.mpr hsame) ?_
    rintro ⟨hfirst, site, -, -, hsite, -⟩
    rcases hpassed with hnone | hmem
    · rw [hsite] at hnone
      cases hnone
    · exact hfirst hmem

/-- The first request for a wait does what moves its deadline, and does it with amounts that are
listed. -/
theorem MovesRequested.of_moves (haccepted : plan.check = .ok ())
    (hchange : plan.change = some (.timeout seconds nanoseconds points))
    (captured : ∀ site ∈ found.sites,
      CallSite.capture before.program site.handle false = .ok (some site))
    (hfirst : position ∉ plan.positions.take number) (hsite : found.get? position = some site)
    (hmoves : MovesDeadline before.program after.program site
      ((nthOrLast seconds number).getD 0) ((nthOrLast nanoseconds number).getD 0)
      (nthOrLast points number)) :
    MovesRequested found plan seconds nanoseconds points number position before.program
      after.program := by
  -- lists that are not empty have an amount for each request, be it the last one
  obtain ⟨-, hseconds, hnanoseconds⟩ := nonempty_of_accepted haccepted hchange
  obtain ⟨delta, hdelta⟩ := exists_nthOrLast hseconds number
  obtain ⟨nanos, hnanos⟩ := exists_nthOrLast hnanoseconds number
  rw [hdelta, hnanos, Option.getD_some, Option.getD_some] at hmoves
  refine ⟨fun other hother => captured other (FoundCalls.mem_of_get? hother), ?_, ?_⟩
  · intro other time anchor _ hother hmovable
    obtain rfl : site = other := Option.some.inj (hsite.symm.trans hother)
    obtain ⟨first, second, hputs⟩ := hmoves.moved hmovable
    exact ⟨delta, nanos, first, second, hdelta, hnanos, hputs⟩
  · constructor
    · intro hne
      refine ⟨hfirst, site, ?_⟩
      by_contra hnone
      refine hne (hmoves.unmoved ?_)
      rintro ⟨time, anchor, hmovable⟩
      exact hnone ⟨time, anchor, hsite, hmovable⟩
    · rintro ⟨-, other, time, anchor, hother, hmovable⟩
      obtain rfl : site = other := Option.some.inj (hsite.symm.trans hother)
      obtain ⟨first, second, hputs⟩ := hmoves.moved hmovable
      exact hputs.ne (List.mem_cons_self ..)

/-- A request is beyond the last wait, repeats an earlier one, or is the first for a wait. -/
theorem movesRequested_of_request {answer : Bool}
    (haccepted : plan.check = .ok ())
    (hchange : plan.change = some (.timeout seconds nanoseconds points))
    (listed : Listed start (found.sites.map .call))
    (waiting : Waiting start found (plan.positions.take number) before)
    (hrequest : numberedRequest name (found.sites.map .call) (Operator.wait plan).change
      (position, number) before = .ok answer after) :
    MovesRequested found plan seconds nanoseconds points number position before.program
      after.program := by
  by_cases hle : (found.sites.map Candidate.call).length ≤ position
  · -- beyond the last wait
    rw [numberedRequest_of_le _ number hle] at hrequest
    cases hrequest
    refine .of_program_eq waiting.captured (Or.inl ?_) rfl
    rw [FoundCalls.get?_eq, List.getElem?_eq_none_iff]
    simpa using hle
  have hlt := Nat.lt_of_not_le hle
  by_cases hearlier : position ∈ plan.positions.take number
  · -- the number is used up, so the request is warned about
    rw [numberedRequest_of_isUsed _ number hlt
      ((waiting.pending.used_iff position).mpr ⟨hearlier, hlt⟩)] at hrequest
    cases hrequest
    exact .of_program_eq waiting.captured (Or.inr hearlier) rfl
  · obtain ⟨site, hsite⟩ : ∃ site, found.get? position = some site := by
      rw [List.length_map] at hlt
      exact ⟨_, (FoundCalls.get?_eq found position).trans (List.getElem?_eq_getElem hlt)⟩
    have hcandidate : (found.sites.map Candidate.call)[position]? = some (.call site) := by
      rw [found.getElem?_map_call, hsite, Option.map_some]
    obtain ⟨_, _, hanswer, hmoves, -⟩ :=
      waiting.selected listed hchange hsite number hearlier
    rw [numberedRequest_of_intact _ number hcandidate (waiting.pending.isUsed_eq_false hearlier)
      (waiting.pending.intact listed hcandidate hearlier)
      (waiting.pending.unmarked position _ hcandidate hearlier), hanswer] at hrequest
    cases hrequest
    exact .of_moves haccepted hchange waiting.captured hearlier hsite hmoves

/-- A run that moves deadlines answers.  Each of its requests leaves the program alone, or puts
eight instructions in a row directly ahead of one anchor: the code that adds the amounts of the
request to the two fields of the time that the wait is called with.  It does the latter if and only
if it is the first request for its position, the call at that position is a timed wait with at least
three arguments, and the insertion point, if one is listed, lies within the function as it then
is. -/
theorem deadlines_moved (program : Program) (plan : WaitPlan) (seconds nanoseconds : List Int)
    (points : List Nat) (oracle : AliasOracle) (consistent : program.Consistent)
    (calleesExist : program.CalleesExist)
    (hchange : plan.change = some (.timeout seconds nanoseconds points))
    (haccepted : plan.check = .ok ()) :
    ∃ found answer last, search.inProgram program = .ok found ∧
      (Operator.wait plan).run oracle { program } = .ok answer last ∧
      ((Operator.wait plan).stages oracle { program }).getLast? = some last ∧
      ∀ number position, plan.positions[number]? = some position →
        ∃ before after : Workspace,
          ((Operator.wait plan).stages oracle { program })[number]? = some before ∧
          ((Operator.wait plan).stages oracle { program })[number + 1]? = some after ∧
          MovesRequested found plan seconds nanoseconds points number position before.program
            after.program := by
  obtain ⟨found, hfound⟩ := search.exists_inProgram consistent calleesExist
  have listed := Operator.listed_calls consistent calleesExist hfound
  have hcandidates : (Operator.wait plan).candidates program = .ok (found.sites.map .call) :=
    Except.map_eq_ok_iff.mpr ⟨found, hfound, rfl⟩
  have hpositions : (Operator.wait plan).positions ≠ [] :=
    (nonempty_of_accepted haccepted hchange).1
  have hmutates : (Operator.wait plan).mutates = true := by
    rw [Operator.mutates, hchange]
    rfl
  obtain ⟨prepared, hcourse, rfl, hunused, hunedited⟩ :=
    Operator.exists_course hcandidates rfl hmutates hpositions oracle
  have kept := keptByRequests_waiting listed hchange
  have hstart : Waiting prepared.program found [] prepared := by
    refine ⟨.of_fresh consistent hunused hunedited _ _, fun site hsite => ?_⟩
    rw [show false = search.demangled from rfl]
    exact CallSearch.capture_of_siteAt (CallSearch.finds_of_inProgram hfound hsite)
  -- what is kept by requests gives both the end of the run and its stages
  obtain ⟨answer, last, hfinish, -⟩ := kept.exists_finish listed hstart plan.positions
  have hrun : (Operator.wait plan).run oracle { program := prepared.program } =
      .ok answer last := by
    rw [Operator.run_eq, bind_apply_of_ok hcourse]
    exact hfinish
  refine ⟨found, answer, last, hfound, hrun, ?_, fun number position hposition => ?_⟩
  · rw [Operator.getLast?_stages, Work.left_of_ok hrun]
  · have hstages : (Operator.wait plan).stages oracle { program := prepared.program } = prepared ::
        (Course.numbered name (found.sites.map .call) plan.positions
          (Operator.wait plan).change).stages prepared := by
      unfold Operator.stages
      rw [hcourse]
      rfl
    rw [hstages]
    obtain ⟨_, before, _, after, hbefore, hafter, waiting, hrequest⟩ :=
      kept.exists_stages listed hstart hposition
    exact ⟨before, after, hbefore, hafter,
      movesRequested_of_request haccepted hchange listed waiting hrequest⟩

/-- Two timed waits and one without a timeout. -/
def threeWaits : Program :=
  Command.run [.declare "pthread_cond_timedwait" .status, .declare "pthread_cond_wait" .status,
    .addFunction "main" .void [], .addBlock 2 "entry",
    .push 2 0 (.ofOperation (.call (.direct 0) [.global "cond", .global "mutex", .global "time"]
      .status)),
    .push 2 0 (.ofOperation (.call (.direct 1) [.global "cond", .global "mutex"] .status)),
    .push 2 0 (.ofOperation (.call (.direct 0) [.global "cond", .global "mutex", .global "time"]
      .status)),
    .push 2 0 (.ofOperation (.ret none))]
    { name := "waits" }

/-- The first wait is asked for twice, then a call without a deadline, then the other timed wait.
The last point lies in the code of the first request, which is put ahead of the second call. -/
def laterDeadlines : WaitPlan where
  change := some (.timeout [1, 2, 3, -4] [500] [1, 0, 0, 4])
  positions := [0, 0, 1, 2, 7]

theorem deadlines_moved_threeWaits :
    ∃ found answer last, search.inProgram threeWaits = .ok found ∧
      (Operator.wait laterDeadlines).run .identity { program := threeWaits } = .ok answer last ∧
      ((Operator.wait laterDeadlines).stages .identity { program := threeWaits }).getLast? =
        some last ∧
      ∀ number position, laterDeadlines.positions[number]? = some position →
        ∃ before after : Workspace,
          ((Operator.wait laterDeadlines).stages .identity { program := threeWaits })[number]? =
            some before ∧
          ((Operator.wait laterDeadlines).stages .identity { program := threeWaits })[number + 1]? =
            some after ∧
          MovesRequested found laterDeadlines [1, 2, 3, -4] [500] [1, 0, 0, 4] number position
            before.program after.program := by
  have consistent : threeWaits.Consistent :=
    Command.consistent_run (Command.consistent_empty "waits") _
  exact deadlines_moved threeWaits laterDeadlines _ _ _ .identity consistent
    (consistent.calleesExist_iff.mpr (by decide)) rfl rfl

end Run

end WaitOperator

end ConcurrencyFaults

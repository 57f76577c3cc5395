import ConcurrencyFaults.Proofs.Closed.Operators
import ConcurrencyFaults.Proofs.Operators.Calls

/-!
# Operators that replace calls by copies

Moving a lock, exchanging lock pairs and retargeting a call build the new call from arguments that
were captured before the first request.  An earlier request may have erased the call whose result
such an argument is, and replaced its uses in the program, but not in what was captured.  So these
operators keep a program closed if no requested call reads the result of a requested call
(`Independent`).

A run is followed by what it tracks anyway (`Tracked`) together with the facts that the program is
closed and that at most requested calls are gone (`Copying`).

## Strategy

* The arguments of a requested call were local when they were captured, and no requested call is
  named by them.  As only requested calls go, they are local as long as the call itself is intact
  (`Copying.grounded`).
* A handler therefore always puts a copy where its operands are local, which leaves the program
  closed, and takes away no more than the one call (`Copying.settled`).
* `runs_anyCall_copying` chains the requests.  An operator only has to show what its handler does
  with one grounded call (`Condition.runs_retarget_sealed`).
-/

namespace ConcurrencyFaults

open Program Work

variable {start program : Program} {sites requested : List CallSite} {site : CallSite}
  {workspace : Workspace} {refused : EditError → Workspace → Prop}

/-- None of the calls reads the result of any of them. -/
def Independent (sites : List CallSite) : Prop :=
  ∀ site ∈ sites, ∀ operand ∈ site.arguments, ∀ used ∈ operand.handle?,
    used ∉ sites.map CallSite.handle

instance (sites : List CallSite) : Decidable (Independent sites) :=
  inferInstanceAs (Decidable (∀ site ∈ sites, ∀ operand ∈ site.arguments, ∀ used ∈ operand.handle?,
    used ∉ sites.map CallSite.handle))

theorem Independent.mono (hindependent : Independent requested) (hsites : sites ⊆ requested) :
    Independent sites :=
  fun site hsite operand hoperand used hused hmem =>
    hindependent site (hsites hsite) operand hoperand used hused
      (List.map_subset CallSite.handle hsites hmem)

theorem Independent.not_self (hindependent : Independent [site]) :
    ∀ operand ∈ site.arguments, ∀ used ∈ operand.handle?, used ∉ [site.handle] :=
  hindependent site (List.mem_singleton_self site)

/-- Where a call is grounded, an instruction that reads its arguments is welcome. -/
theorem CallSite.Grounded.welcomes (hgrounded : site.Grounded program) {operation : Operation}
    (hreads : ∀ operand ∈ operation.operands, operand ∈ site.arguments) :
    program.Welcomes site.handle operation :=
  welcomes_of_functionOf? hgrounded.function_eq fun operand hoperand =>
    hgrounded.arguments operand (hreads operand hoperand)

/-! ## Following a run

Notes in the ledger do not matter (`noted`), and work about requested calls does not hurt
(`settled`). -/

/-- The program is closed, and everything is left that was there at the start except for requested
calls. -/
structure Copying (start : Program) (sites requested : List CallSite) (workspace : Workspace) : Prop
    extends Tracked start sites workspace where
  closed : workspace.program.Closed
  kept : start.Kept workspace.program (requested.map CallSite.handle)

namespace Copying

variable {before after : Workspace}

theorem toSealed (copying : Copying start sites requested workspace) : workspace.program.Sealed :=
  ⟨copying.consistent, copying.closed⟩

theorem noted (copying : Copying start sites requested before) (hnoted : Noted before after) :
    Copying start sites requested after := by
  obtain ⟨program, ledger⟩ := after
  obtain rfl : program = before.program := hnoted.program_eq
  exact ⟨copying.toTracked.noted hnoted.edited, copying.closed, copying.kept⟩

/-- Work about requested calls that leaves the program closed is part of such a run. -/
theorem settled (copying : Copying start sites requested before) {handles : List Handle}
    (hsettled : Settled handles before after) (hhandles : handles ⊆ requested.map CallSite.handle)
    (sealed : after.program.Sealed) : Copying start sites requested after := by
  refine ⟨copying.toTracked.settled hsettled, sealed.closed, ?_⟩
  obtain ⟨gone, hgone, hrevises, -⟩ := hsettled
  exact copying.kept.trans hrevises.revised.toKept fun handle hmem =>
    Or.inl (hhandles (hgone hmem))

/-- The arguments of an intact requested call are still local. -/
theorem grounded (copying : Copying start sites requested workspace)
    (hindependent : Independent requested) (hsite : site ∈ requested)
    (hstart : site.Grounded start) (hintact : site.Intact workspace.program) :
    site.Grounded workspace.program := by
  obtain ⟨entry, hplaced, hfunction, -⟩ := hintact
  exact ⟨functionOf?_eq_some_iff.mpr ⟨entry, hplaced, hfunction⟩, fun operand hoperand =>
    copying.kept.local (hstart.arguments operand hoperand)
      (hindependent site hsite operand hoperand)⟩

theorem of_finds {search : CallSearch} (sealed : program.Sealed)
    (hfinds : ∀ site ∈ sites, search.Finds program site) (requested : List CallSite)
    (hworkspace : workspace.program = program) : Copying program sites requested workspace := by
  subst hworkspace
  exact ⟨Tracked.of_finds workspace.ledger sealed.toConsistent hfinds, sealed.closed,
    Kept.refl sealed.toConsistent _⟩

end Copying

/-- The calls at some positions of a search. -/
def FoundCalls.atPositions (found : FoundCalls) (positions : List Nat) : List CallSite :=
  positions.filterMap found.get?

/-- Found calls are handled one at a time; a handler changes an intact requested call and leaves the
program closed. -/
theorem runs_anyCall_copying {pass : String} {found : FoundCalls} {positions : List Nat}
    {handle : Nat → CallSite → Work Bool}
    (hindependent : Independent (found.atPositions positions))
    (hfound : ∀ site ∈ found.sites, site.Grounded start)
    (copying : Copying start found.sites (found.atPositions positions) workspace)
    (hstep : ∀ request site state, state.program.Sealed → site.Intact state.program →
      site.Grounded state.program →
        Runs (handle request site) state
          (fun _ after => Settled [site.handle] state after ∧ after.program.Sealed) refused) :
    Runs (anyCall pass found positions handle) workspace
      (fun _ => Copying start found.sites (found.atPositions positions)) refused := by
  refine runs_anyOf (Copying start found.sites (found.atPositions positions)) ?_ copying
  -- one request: claim the call, look whether it is still intact, handle it
  rintro ⟨position, request⟩ hrequest state copying
  refine (runs_claimCall pass found position).bind ?_
  rintro answer claimed ⟨hnoted, hget⟩
  have copying := copying.noted hnoted
  cases answer with
  | none => exact runs_pure copying
  | some site =>
      have hget := hget site rfl
      have hmem := FoundCalls.mem_of_get? hget
      have hsite : site ∈ found.atPositions positions :=
        List.mem_filterMap.mpr ⟨position, (List.fst_mem_of_mem_zipIdx hrequest), hget⟩
      refine ((runs_isUntouched copying.toTracked hmem).and
        (runs_isUntouched_noted pass site)).bind ?_
      rintro (_ | _) after ⟨⟨-, -, hintact⟩, hnoted⟩
      · exact runs_pure (copying.noted hnoted)
      · have copying := copying.noted hnoted
        have hintact := hintact rfl
        refine (hstep request site after copying.toSealed hintact
          (copying.grounded hindependent hsite (hfound site hmem) hintact)).weaken ?_
        rintro _ _ ⟨hsettled, sealed⟩
        refine copying.settled hsettled ?_ sealed
        simpa using ⟨site, hsite, rfl⟩

/-! ## Retargeting

The new target is declared first, which touches no instruction, so the call is still grounded when
it is replaced. -/

namespace Condition

/-- A call may give way to a call of another function with some of its arguments. -/
theorem runs_retarget_sealed (sealed : workspace.program.Sealed)
    (hgrounded : site.Grounded workspace.program) (name : String) (parameters : List Ty)
    (pass : String) {arguments : List Operand} (harguments : arguments ⊆ site.arguments)
    (result : Ty) (message : String) :
    Runs (do
      let target ← Work.update (·.getOrDeclare name .status parameters)
      retarget pass site (site.cloneWith target arguments result) message) workspace
      (fun _ after => after.program.Sealed) (fun _ after => after.program.Sealed) := by
  let declared := (workspace.program.getOrDeclare name .status parameters).2
  have hdeclared : declared.Sealed := sealed.getOrDeclare name .status parameters
  have hkept : workspace.program.Kept declared [] :=
    (revised_getOrDeclare sealed.toConsistent name .status parameters).toKept
  have hwelcome : ∀ target, declared.Welcomes site.handle
      (site.cloneWith target arguments result).operation := by
    refine fun target => (hgrounded.kept hkept).welcomes fun operand hoperand => harguments ?_
    rwa [CallSite.cloneWith, SiteForm.operands_operation] at hoperand
  refine runs_bind_update ?_
  refine (runs_edit (runs_replaceWith hdeclared (hwelcome _))).bind ?_
  rintro handle after ⟨sealed, -⟩
  exact ((keeps_markEdited _).bind fun _ => (keeps_markEdited _).bind fun _ =>
    keeps_recordChange.bind fun _ => keeps_pure true) after sealed

end Condition

namespace SignalOperator

theorem runs_swap_sealed (sealed : workspace.program.Sealed)
    (hgrounded : site.Grounded workspace.program) :
    Runs (SignalOperator.apply .swap site) workspace (fun _ after => after.program.Sealed)
      (fun _ after => after.program.Sealed) := by
  unfold SignalOperator.apply
  split
  · exact keeps_skip _ workspace sealed
  · exact Condition.runs_retarget_sealed sealed hgrounded _ _ _ (List.Subset.refl _) _ _

end SignalOperator

namespace WaitOperator

theorem runs_untime_sealed (sealed : workspace.program.Sealed)
    (hgrounded : site.Grounded workspace.program) :
    Runs (untime site) workspace (fun _ after => after.program.Sealed)
      (fun _ after => after.program.Sealed) := by
  unfold untime
  split
  · exact keeps_skip _ workspace sealed
  · split
    · exact keeps_skip _ workspace sealed
    · exact Condition.runs_retarget_sealed sealed hgrounded _ _ _ (List.take_subset 2 _) _ _

end WaitOperator

end ConcurrencyFaults

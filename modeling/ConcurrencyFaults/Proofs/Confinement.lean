import ConcurrencyFaults.Proofs.Answers
import ConcurrencyFaults.Proofs.Rewiring

/-!
# Work that is about certain instructions

The request for a candidate hands one instruction to the operator, and what is done then is about
this instruction alone: the others are rewired at most, only this one and what was added are marked,
no position is used up, and nothing is said to be out of bounds (`Confined`).  This file goes
through the handlers of all operators that number single instructions; each is confined to the
instruction that it is given, whatever the workspace it starts on.

The proofs follow the handlers: a handler is a sequence of edits, notes and questions, for each of
which there is a lemma below (`confines_edit`, `confines_record`, `confines_markEdited`,
`confines_query`), and `Retains.bind` puts them in a row.  Edits bring in what was shown for them in
`Edit.Rewires`; a handler that marks what it inserted relies on the answer of the edit for that.

That a warning is not about bounds is told from its last character: only a number of candidates is
closed by a parenthesis.
-/

namespace ConcurrencyFaults

open Program Work

/-! ## Warnings about bounds

Entries of other kinds are no warnings at all.  A warning of a handler differs from one about bounds
in how its text ends.
-/

namespace Entry

/-- The warning about a position for which there is no candidate. -/
def outOfBounds (pass : String) (position candidates : Nat) : Entry :=
  .warning s!"{pass}: position {position} is out of bounds ({candidates} candidates)"

def IsOutOfBounds (entry : Entry) : Prop :=
  ∃ pass position candidates, entry = outOfBounds pass position candidates

theorem not_isOutOfBounds_of_kind {entry : Entry} (hkind : entry.kind ≠ .warning) :
    ¬ entry.IsOutOfBounds := by
  rintro ⟨pass, position, candidates, rfl⟩
  exact hkind rfl

theorem not_isOutOfBounds_error (message : String) : ¬ (error message).IsOutOfBounds :=
  not_isOutOfBounds_of_kind (show EntryKind.error ≠ .warning by decide)

/-- A warning about bounds ends with a closing parenthesis. -/
theorem not_isOutOfBounds_warning (front : String) {back : String}
    (hback : back.toList.getLast?.any (· != ')') = true) :
    ¬ (warning (front ++ back)).IsOutOfBounds := by
  rintro ⟨pass, position, candidates, hsame⟩
  have hlast := congrArg (fun entry : Entry => entry.message.toList.getLast?) hsame
  simp only [warning, outOfBounds, String.toList_append, List.getLast?_append] at hlast
  cases hend : back.toList.getLast? with
  | none => simp [hend] at hback
  | some last =>
      rw [hend] at hback hlast
      obtain rfl : last = ')' := Option.some.inj hlast
      exact absurd hback (by decide)

theorem not_isOutOfBounds_warning_append (front middle : String) {back : String}
    (hback : back.toList.getLast?.any (· != ')') = true) :
    ¬ (warning (front ++ (middle ++ back))).IsOutOfBounds := by
  rw [← String.append_assoc]
  exact not_isOutOfBounds_warning (front ++ middle) hback

/-- Numbers are written with digits. -/
theorem not_isOutOfBounds_of_number (front : String) (number : Nat) :
    ¬ (warning (front ++ toString number)).IsOutOfBounds := by
  refine not_isOutOfBounds_warning front ?_
  have hdigits : (toString number).toList = Nat.toDigits 10 number := by simp [toString, Nat.repr]
  rw [hdigits]
  cases hend : (Nat.toDigits 10 number).getLast? with
  | none => simp at hend
  | some last =>
      have hdigit := Nat.isDigit_of_mem_toDigits (by decide) (by decide)
        (List.mem_of_getLast? hend)
      have hother : last ≠ ')' := by
        rintro rfl
        exact absurd hdigit (by decide)
      simpa using hother

end Entry

@[simp] theorem Ledger.used_markEdited (ledger : Ledger) (handle : Handle) :
    (ledger.markEdited handle).used = ledger.used := by
  unfold markEdited
  split <;> rfl

/-! ## Confined work

Everything is compared with the workspace at the beginning of the request, never with the one before
the last step, so that what holds of one step holds of the rest of the handler too.
-/

/-- Since an earlier moment, the work was about certain instructions at most. -/
structure Confined (origin : Workspace) (gone : List Handle) (state : Workspace) : Prop where
  rewired : origin.program.Rewired state.program gone
  marked : ∀ handle, state.ledger.isEdited handle →
    origin.ledger.isEdited handle ∨ origin.program.Foreign gone handle
  used_eq : state.ledger.used = origin.ledger.used
  logged : ∃ entries, state.ledger.journal = origin.ledger.journal.extend entries ∧
    ∀ entry ∈ entries, ¬ entry.IsOutOfBounds

/-- Work that stays confined, up to its answer. -/
abbrev Work.Confines {Answer : Type} (origin : Workspace) (gone : List Handle)
    (work : Work Answer) (known : Answer → Prop := fun _ => True) : Prop :=
  Retains (Confined origin gone) work known

section Steps

variable {Answer : Type} {origin state : Workspace} {gone : List Handle} {handle : Handle}

theorem Confined.refl (consistent : origin.program.Consistent) (gone : List Handle) :
    Confined origin gone origin :=
  ⟨Rewired.refl consistent gone, fun _ hmarked => Or.inl hmarked, rfl,
    [], (Journal.extend_nil _).symm, by simp⟩

namespace Work

theorem confines_query (question : Program → Except EditError Answer) :
    Confines origin gone (query question) := by
  intro state hstate
  rw [← bind_pure (query question)]
  exact runs_bind_query_of (fun _ _ => runs_pure ⟨hstate, trivial⟩) fun _ _ => trivial

theorem confines_edit {change : Edit Answer} {known : Answer → Prop}
    (hrewires : Edit.Rewires origin.program gone change known) :
    Confines origin gone (edit change) known := by
  intro state hstate
  have hchange := hrewires state.program hstate.rewired
  unfold Runs edit at *
  cases hresult : change state.program with
  | ok answer program =>
      rw [hresult] at hchange
      exact ⟨⟨hchange.1, hstate.marked, hstate.used_eq, hstate.logged⟩, hchange.2⟩
  | error problem program => trivial

theorem confines_declare (name : String) (result : Ty) (parameters : List Ty) :
    Confines origin gone (update (·.getOrDeclare name result parameters)) := by
  intro state hstate
  have hdeclared :=
    rewired_getOrDeclare hstate.rewired.consistent name result parameters gone
  exact ⟨⟨hstate.rewired.trans hdeclared, hstate.marked, hstate.used_eq, hstate.logged⟩, trivial⟩

theorem confines_record {entry : Entry} (hentry : ¬ entry.IsOutOfBounds) :
    Confines origin gone (record entry) := by
  intro state hstate
  obtain ⟨entries, hjournal, hentries⟩ := hstate.logged
  refine ⟨⟨hstate.rewired, hstate.marked, hstate.used_eq, entries ++ [entry], ?_, ?_⟩, trivial⟩
  · show state.ledger.journal.record entry = _
    rw [hjournal, ← Journal.extend_extend]
    rfl
  · intro other hmem
    rcases List.mem_append.mp hmem with hmem | hmem
    · exact hentries other hmem
    · rwa [List.mem_singleton.mp hmem]

theorem confines_recordChange {kind : EntryKind} (hkind : kind ≠ .warning) (pass : String)
    (function : FunctionId) (message : String) (location : Option Nat) :
    Confines origin gone (recordChange pass kind function message location) :=
  confines_record (Entry.not_isOutOfBounds_of_kind hkind)

theorem confines_skip {message : String} (hmessage : ¬ (Entry.warning message).IsOutOfBounds) :
    Confines origin gone (do
      warn message
      return false) :=
  (confines_record hmessage).bind fun _ _ => .pure trivial

theorem confines_markEdited (hforeign : origin.program.Foreign gone handle) :
    Confines origin gone (markEdited handle) := by
  intro state hstate
  refine ⟨⟨hstate.rewired, fun other hmarked => ?_, ?_, ?_⟩, trivial⟩
  · rcases Ledger.isEdited_markEdited_iff.mp hmarked with rfl | hmarked
    · exact Or.inr hforeign
    · exact hstate.marked other hmarked
  · exact (state.ledger.used_markEdited handle).trans hstate.used_eq
  · rw [Ledger.journal_markEdited]
    exact hstate.logged

theorem confines_markAll {handles : List Handle}
    (hforeign : ∀ handle ∈ handles, origin.program.Foreign gone handle) :
    Confines origin gone (handles.forM markEdited) := by
  induction handles with
  | nil => exact .pure trivial
  | cons first rest ih =>
      exact (confines_markEdited (hforeign first (List.mem_cons_self ..))).bind fun _ _ =>
        ih fun handle hmem => hforeign handle (List.mem_cons_of_mem _ hmem)

end Work

end Steps

/-! ## Accesses

An access is erased or overwritten, and no operator marks it.
-/

variable {origin : Workspace} {gone : List Handle}

section Accesses

variable {site : MemorySite} (hgone : site.handle ∈ gone)
include hgone

namespace FenceOperator

theorem confines_changeOrder (order : MemoryOrder) :
    Confines origin gone (changeOrder site order) := by
  unfold changeOrder
  refine (confines_query _).bind fun instruction _ => ?_
  split
  · exact .pure trivial
  · exact (confines_edit (rewires_changeInstruction hgone _)).bind fun _ _ =>
      confines_recordChange (by decide) _ _ _ _

theorem confines_toggleScope : Confines origin gone (toggleScope site) := by
  unfold toggleScope
  refine (confines_query _).bind fun instruction _ => ?_
  split
  · exact .pure trivial
  · exact (confines_edit (rewires_changeInstruction hgone _)).bind fun _ _ =>
      confines_recordChange (by decide) _ _ _ _

theorem confines_remove : Confines origin gone (remove site) :=
  (confines_edit (rewires_erase hgone)).bind fun _ _ =>
    confines_recordChange (by decide) _ _ _ _

theorem confines_apply (change : FenceChange) (request : Nat) :
    Confines origin gone (apply change request site) := by
  cases change with
  | remove => exact confines_remove hgone
  | toggleScope => exact confines_toggleScope hgone
  | order codes =>
      unfold apply
      dsimp only
      split
      · exact confines_changeOrder hgone _
      · exact confines_record (Entry.not_isOutOfBounds_warning _ (by decide))

end FenceOperator

namespace AtomicOperator

omit hgone in
/-- A change that is not made is skipped; one that is made is no warning. -/
theorem not_isOutOfBounds_of_decide {target : AtomicTarget} {change : AtomicChange} {request : Nat}
    {order : MemoryOrder} {scope : SyncScope} {warning : String}
    (hdecide : decide target change request order scope = .error warning) :
    ¬ (Entry.warning warning).IsOutOfBounds := by
  unfold decide at hdecide
  -- each refusal has its own text, and none of them ends with a parenthesis
  cases change with
  | makePlain | toggleScope =>
      dsimp only at hdecide
      split at hdecide
      · cases hdecide <;> exact Entry.not_isOutOfBounds_warning _ (by decide)
      · cases hdecide <;> exact Entry.not_isOutOfBounds_warning _ (by decide)
  | order codes =>
      dsimp only at hdecide
      split at hdecide
      · cases hdecide
        exact Entry.not_isOutOfBounds_warning _ (by decide)
      · split at hdecide
        · cases hdecide
        · cases hdecide
          exact Entry.not_isOutOfBounds_warning _ (by decide)

theorem confines_apply (target : AtomicTarget) (change : AtomicChange) (request : Nat) :
    Confines origin gone (apply target change request site) := by
  unfold apply
  refine (confines_query _).bind fun instruction _ => ?_
  split
  · exact .pure trivial
  · split
    · rename_i hdecide
      exact confines_skip (not_isOutOfBounds_of_decide hdecide)
    · rename_i hdecide
      have hkind := isTransformation_of_decide hdecide
      refine (confines_edit (rewires_changeInstruction hgone _)).bind fun _ _ =>
        (confines_recordChange ?_ _ _ _ _).bind fun _ _ => .pure trivial
      rintro rfl
      cases hkind

end AtomicOperator

theorem VolatileOperator.confines_clear : Confines origin gone (clear site) := by
  unfold clear
  refine (confines_query _).bind fun instruction _ => ?_
  split
  · exact .pure trivial
  · exact (confines_edit (rewires_changeInstruction hgone _)).bind fun _ _ =>
      (confines_recordChange (by decide) _ _ _ _).bind fun _ _ => .pure trivial

end Accesses

/-! ## Calls

A call that is taken away or replaced is marked, and so is what takes its place.
-/

section Calls

variable {site : CallSite} (hgone : site.handle ∈ gone)
include hgone

namespace Condition

theorem confines_remove (pass : String) : Confines origin gone (remove pass site) :=
  (confines_edit (site.rewires_remove hgone _ _)).bind fun _ _ =>
    (confines_markEdited (Or.inl hgone)).bind fun _ _ =>
      (confines_recordChange (by decide) _ _ _ _).bind fun _ _ => .pure trivial

theorem confines_retarget (pass : String) (replacement : Instruction) (message : String) :
    Confines origin gone (retarget pass site replacement message) :=
  (confines_edit (rewires_replaceWith hgone replacement)).bind fun _ hforeign =>
    (confines_markEdited (Or.inl hgone)).bind fun _ _ =>
      (confines_markEdited hforeign).bind fun _ _ =>
        (confines_recordChange (by decide) _ _ _ _).bind fun _ _ => .pure trivial

end Condition

theorem SignalOperator.confines_apply (change : SignalChange) :
    Confines origin gone (apply change site) := by
  unfold apply
  split
  · exact confines_skip (Entry.not_isOutOfBounds_warning _ (by decide))
  · cases change with
    | remove => exact Condition.confines_remove hgone name
    | swap =>
        exact (confines_declare _ _ _).bind fun _ _ => Condition.confines_retarget hgone name _ _

namespace WaitOperator

theorem confines_untime : Confines origin gone (untime site) := by
  unfold untime
  split
  · exact confines_skip (Entry.not_isOutOfBounds_warning _ (by decide))
  · split
    · exact confines_skip (Entry.not_isOutOfBounds_warning_append _ _ (by decide))
    · exact (confines_declare _ _ _).bind fun _ _ => Condition.confines_retarget hgone name _ _

theorem confines_moveDeadline (seconds nanoseconds : Int) (point : Option Nat) :
    Confines origin gone (moveDeadline site seconds nanoseconds point) := by
  unfold moveDeadline
  split
  · exact confines_skip (Entry.not_isOutOfBounds_warning _ (by decide))
  · split
    · extract_lets rest
      -- what follows the question for the point is the same whether it was asked or not
      have hrest : ∀ handles, Confines origin gone (rest handles) := by
        intro handles
        simp only [rest]
        split
        · -- eight instructions, all of them new
          refine (confines_edit (rewires_addToField _ _ _ _ _)).bind fun first hfirst => ?_
          refine (confines_edit (rewires_addToField _ _ _ _ _)).bind fun second hsecond => ?_
          refine (confines_markAll ?_).bind fun _ _ => ?_
          · intro handle hmem
            exact (List.mem_append.mp hmem).elim (hfirst handle) (hsecond handle)
          · exact (confines_markEdited (Or.inl hgone)).bind fun _ _ =>
              (confines_query _).bind fun position _ =>
                (confines_recordChange (by decide) _ _ _ _).bind fun _ _ => .pure trivial
        · exact (confines_record (Entry.not_isOutOfBounds_error _)).bind
            fun _ _ => .pure trivial
      split
      · exact hrest []
      · exact (confines_query _).bind fun handles _ => hrest handles
    · exact confines_skip (Entry.not_isOutOfBounds_warning _ (by decide))

theorem confines_apply (change : WaitChange) (request : Nat) :
    Confines origin gone (apply change request site) := by
  cases change with
  | remove => exact Condition.confines_remove hgone name
  | untime => exact confines_untime hgone
  | timeout seconds nanoseconds points => exact confines_moveDeadline hgone _ _ _

end WaitOperator

namespace SemaphoreOperator

omit hgone in
theorem confines_valueFor (plan : SemaphorePlan) (request : Nat) :
    Confines origin gone (valueFor plan request) := by
  unfold valueFor
  extract_lets rest
  have hrest : ∀ value, Confines origin gone (rest value) := by
    intro value
    simp only [rest]
    split
    · exact (confines_record (Entry.not_isOutOfBounds_of_number _ _)).bind fun _ _ => .pure trivial
    · exact .pure trivial
  split
  · exact hrest _
  · exact (confines_record (Entry.not_isOutOfBounds_of_number _ _)).bind fun _ _ => hrest _

theorem confines_setValue (value : Nat) : Confines origin gone (setValue site value) := by
  unfold setValue
  split
  · split
    · exact confines_skip (Entry.not_isOutOfBounds_warning_append _ _ (by decide))
    · refine (confines_query _).bind fun instruction _ => ?_
      split
      · exact .pure trivial
      · split
        · exact .pure trivial
        · exact (confines_edit (rewires_changeInstruction hgone _)).bind fun _ _ =>
            (confines_markEdited (Or.inl hgone)).bind fun _ _ =>
              (confines_recordChange (by decide) _ _ _ _).bind fun _ _ => .pure trivial
  · exact .pure trivial

end SemaphoreOperator

theorem YieldOperator.confines_remove : Confines origin gone (remove site) := by
  unfold remove
  refine (confines_query _).bind fun uses _ => ?_
  split
  · exact confines_skip (Entry.not_isOutOfBounds_warning _ (by decide))
  · exact (confines_edit site.rewires_branchToNormal).bind fun _ _ =>
      (confines_edit (rewires_erase hgone)).bind fun _ _ =>
        (confines_markEdited (Or.inl hgone)).bind fun _ _ =>
          (confines_recordChange (by decide) _ _ _ _).bind fun _ _ => .pure trivial

namespace JoinOperator

theorem confines_replaceWithSleep (seconds : Nat) :
    Confines origin gone (replaceWithSleep site seconds) := by
  unfold replaceWithSleep
  extract_lets isStandard rest
  have hrest : ∀ uses, Confines origin gone (rest uses) := by
    intro uses
    simp only [rest]
    split
    · exact confines_skip (Entry.not_isOutOfBounds_warning _ (by decide))
    · refine (confines_declare _ _ _).bind fun target _ => ?_
      -- a standard join is given up for the sleep, another one is replaced by it
      have hreplace : ∀ sleep : Instruction, Edit.Rewires origin.program gone
          (if isStandard then sleepBefore site sleep else site.replace sleep)
          (origin.program.Foreign gone) := by
        intro sleep
        split
        · exact rewires_sleepBefore hgone sleep
        · exact site.rewires_replace hgone sleep
      exact (confines_edit (hreplace _)).bind fun _ hforeign =>
        (confines_markEdited hforeign).bind fun _ _ =>
          (confines_recordChange (by decide) _ _ _ _).bind fun _ _ => .pure trivial
  split
  · exact (confines_query _).bind fun uses _ => hrest uses
  · exact hrest 0

theorem confines_apply (change : JoinChange) : Confines origin gone (apply change site) := by
  cases change with
  | remove =>
      exact (confines_edit (site.rewires_remove hgone _ _)).bind fun _ _ =>
        (confines_recordChange (by decide) _ _ _ _).bind fun _ _ => .pure trivial
  | sleep seconds => exact confines_replaceWithSleep hgone seconds

end JoinOperator

end Calls

end ConcurrencyFaults

import ConcurrencyFaults.Proofs.Alteration
import ConcurrencyFaults.Proofs.Answers
import ConcurrencyFaults.Proofs.History

/-!
# Functions that the journal names

The number of changed functions in a tally is read off the journal: it is the number of functions
that entries about changes name.  Whether that is the number of functions that were altered is a
matter of each request.  A request accounts for what it does if the functions that its entries name
are those that it altered (`Accounts`), which is so if it works in one function and its entries name
that function (`WorksIn.accounts`).  If all requests of a run account for what they do, then so does
the tally (`Journal.length_changedFunctions`).

Two things can go wrong with a request that works in one function: it may leave the function as it
was after all, or record an entry without a function.  `WorksIn` rules out the second only, which is
why `WorksIn.accounts` asks for an altered function besides.
-/

namespace ConcurrencyFaults

open Program Work

variable {start program : Program} {before between after workspace : Workspace}
  {function other : FunctionId}

/-! ## Entries for changes

Warnings and statistics name no changed function, whatever they say. -/

namespace Journal

variable {journal : Journal} {entry : Entry} {entries : List Entry}

theorem mem_changedFunctions_iff :
    function ∈ journal.changedFunctions ↔
      ∃ entry ∈ journal.transformations, entry.function = some function := by
  simp [changedFunctions]

theorem changedFunctions_extend_of_notes
    (hnotes : ∀ entry ∈ entries, entry.isTransformation = false) :
    (journal.extend entries).changedFunctions = journal.changedFunctions := by
  rw [changedFunctions, transformations_extend_of_notes hnotes, changedFunctions]

theorem mem_changedFunctions_record_iff (hchange : entry.isTransformation = true)
    (hfunction : entry.function = some function) :
    other ∈ (journal.record entry).changedFunctions ↔
      other = function ∨ other ∈ journal.changedFunctions := by
  have hrecorded : (journal.record entry).transformations = journal.transformations ++ [entry] := by
    simp [transformations, record, hchange]
  rw [mem_changedFunctions_iff, mem_changedFunctions_iff, hrecorded]
  constructor
  · rintro ⟨found, hmem, hnamed⟩
    rcases List.mem_append.mp hmem with hmem | hmem
    · exact Or.inr ⟨found, hmem, hnamed⟩
    · rw [List.mem_singleton.mp hmem, hfunction, Option.some.injEq] at hnamed
      exact Or.inl hnamed.symm
  · rintro (rfl | ⟨found, hmem, hnamed⟩)
    · exact ⟨entry, by simp, hfunction⟩
    · exact ⟨found, List.mem_append_left _ hmem, hnamed⟩

end Journal

/-! ## What a request leaves behind

`AgreesIn` follows the steps of a request and can be put together from them; `Accounts` is what the
whole request comes to. -/

/-- Something was done in one function alone, and the journal names it. -/
structure WorksIn (function : FunctionId) (before after : Workspace) : Prop where
  only : before.program.AltersOnly after.program function
  named_iff : ∀ other, other ∈ after.ledger.journal.changedFunctions ↔
    other = function ∨ other ∈ before.ledger.journal.changedFunctions

/-- The answer says whether something was done in the function. -/
structure AgreesIn (function : FunctionId) (answer : Bool) (before after : Workspace) : Prop where
  quiet : answer = false → Quiet before after
  works : answer = true → WorksIn function before after

/-- The journal gained the names of the functions that were altered, all of which were there at the
start. -/
structure Accounts (start : Program) (before after : Workspace) : Prop where
  named_iff : ∀ function, function ∈ after.ledger.journal.changedFunctions ↔
    function ∈ before.ledger.journal.changedFunctions ∨
      before.program.Alters after.program function
  known : ∀ {function}, before.program.Alters after.program function →
    ∃ found, start.function? function = some found

namespace Quiet

theorem changedFunctions_eq (hquiet : Quiet before after) :
    after.ledger.journal.changedFunctions = before.ledger.journal.changedFunctions := by
  obtain ⟨-, notes, hjournal, hnotes⟩ := hquiet
  rw [hjournal, Journal.changedFunctions_extend_of_notes hnotes]

/-- Where nothing was done there is nothing to account for. -/
theorem accounts (hquiet : Quiet before after) : Accounts start before after := by
  have hnone : ∀ function, ¬ before.program.Alters after.program function := by
    intro function
    rw [hquiet.1]
    rintro (⟨handle, hmem, hnot⟩ | ⟨handle, hmem, hnot⟩) <;> exact hnot hmem
  refine ⟨fun function => ?_, fun halters => absurd halters (hnone _)⟩
  rw [hquiet.changedFunctions_eq]
  exact (or_iff_left (hnone function)).symm

theorem trans_accounts (hquiet : Quiet before between) (haccounts : Accounts start between after) :
    Accounts start before after := by
  obtain ⟨hnamed, hknown⟩ := haccounts
  rw [hquiet.changedFunctions_eq, hquiet.1] at hnamed
  rw [hquiet.1] at hknown
  exact ⟨hnamed, hknown⟩

end Quiet

namespace WorksIn

theorem trans (hfirst : WorksIn function before between)
    (hsecond : WorksIn function between after) : WorksIn function before after := by
  refine ⟨hfirst.only.trans hsecond.only, fun other => ?_⟩
  rw [hsecond.named_iff, hfirst.named_iff, ← or_assoc, or_self]

theorem of_record {program : Program} {ledger : Ledger} {entry : Entry}
    (honly : workspace.program.AltersOnly program function)
    (hjournal : ledger.journal.changedFunctions = workspace.ledger.journal.changedFunctions)
    (hchange : entry.isTransformation = true) (hfunction : entry.function = some function) :
    WorksIn function workspace { program, ledger := ledger.record entry } := by
  refine ⟨honly, fun other => ?_⟩
  rw [← hjournal]
  exact Journal.mem_changedFunctions_record_iff hchange hfunction

/-- What was done in a function is accounted for if it left the function altered. -/
theorem accounts (hworks : WorksIn function before after) (hbefore : before.program.Consistent)
    (hafter : after.program.Consistent) (halters : before.program.Alters after.program function)
    (hknown : ∃ found, start.function? function = some found) : Accounts start before after := by
  have hiff : ∀ other, before.program.Alters after.program other ↔ other = function := by
    intro other
    constructor
    · intro hother
      by_contra hne
      exact hworks.only.not_alters hbefore hafter hne hother
    · rintro rfl
      exact halters
  refine ⟨fun other => ?_, fun {other} hother => ?_⟩
  · rw [hworks.named_iff, hiff, or_comm]
  · rwa [(hiff other).mp hother]

end WorksIn

namespace AgreesIn

theorem of_quiet (hquiet : Quiet before after) : AgreesIn function false before after :=
  ⟨fun _ => hquiet, by simp⟩

theorem of_works (hworks : WorksIn function before after) : AgreesIn function true before after :=
  ⟨by simp, fun _ => hworks⟩

theorem trans {first second : Bool} (hfirst : AgreesIn function first before between)
    (hsecond : AgreesIn function second between after) :
    AgreesIn function (first || second) before after := by
  -- one of the two halves may have come to nothing
  cases first with
  | false =>
      have hquiet := hfirst.quiet rfl
      refine ⟨fun hnone => hquiet.trans (hsecond.quiet hnone), fun hsome => ?_⟩
      obtain ⟨honly, hiff⟩ := hsecond.works hsome
      exact ⟨hquiet.1 ▸ honly, hquiet.changedFunctions_eq ▸ hiff⟩
  | true =>
      have hworks := hfirst.works rfl
      cases second with
      | false =>
          have hquiet := hsecond.quiet rfl
          refine of_works ⟨?_, ?_⟩
          · rw [hquiet.1]
            exact hworks.only
          · rw [hquiet.changedFunctions_eq]
            exact hworks.named_iff
      | true => exact of_works (hworks.trans (hsecond.works rfl))

theorem accounts {answer : Bool} (hagrees : AgreesIn function answer before after)
    (hbefore : before.program.Consistent) (hafter : after.program.Consistent)
    (halters : answer = true → before.program.Alters after.program function)
    (hknown : ∃ found, start.function? function = some found) : Accounts start before after := by
  cases answer with
  | false => exact (hagrees.quiet rfl).accounts
  | true => exact (hagrees.works rfl).accounts hbefore hafter (halters rfl) hknown

end AgreesIn

/-- The entry for a change names the function that it is given. -/
theorem Work.runs_recordChange_in {refused : EditError → Workspace → Prop} {pass : String}
    {kind : EntryKind} {message : String} {location : Option Nat}
    {answered : Unit → Workspace → Prop} (hkind : kind.isTransformation = true)
    (hanswered : ∀ entry : Entry, entry.isTransformation = true →
      entry.function = some function →
        answered () { workspace with ledger := workspace.ledger.record entry }) :
    Runs (recordChange pass kind function message location) workspace answered refused :=
  hanswered _ hkind rfl

/-! ## Counting

What is altered at some stage of a run was altered between two neighbours, so the relation between
neighbours is summed up along the history. -/

section Counting

variable {history rest : List Workspace}

/-- Between some workspace and the next an instruction of the function was erased or put in. -/
def AlteredIn (history : List Workspace) (function : FunctionId) : Prop :=
  ∃ step ∈ history.zip history.tail, step.1.program.Alters step.2.program function

instance (history : List Workspace) (function : FunctionId) :
    Decidable (AlteredIn history function) :=
  inferInstanceAs (Decidable (∃ step ∈ _, _))

theorem alteredIn_cons_cons :
    AlteredIn (before :: after :: rest) function ↔
      before.program.Alters after.program function ∨ AlteredIn (after :: rest) function := by
  simp [AlteredIn]

/-- What each step accounts for is accounted for in the end. -/
theorem Accounts.of_isChain (hchain : (before :: rest).IsChain (Accounts start))
    (hlast : (before :: rest).getLast? = some after) :
    (∀ function, function ∈ after.ledger.journal.changedFunctions ↔
      function ∈ before.ledger.journal.changedFunctions ∨ AlteredIn (before :: rest) function) ∧
    ∀ function, AlteredIn (before :: rest) function →
      ∃ found, start.function? function = some found := by
  induction rest generalizing before with
  | nil =>
      obtain rfl : before = after := Option.some.inj hlast
      simp [AlteredIn]
  | cons next rest ih =>
      rw [List.isChain_cons_cons] at hchain
      obtain ⟨hfirst, hrest⟩ := hchain
      obtain ⟨hnamed, hknown⟩ := ih hrest (by simpa using hlast)
      refine ⟨fun function => ?_, fun function haltered => ?_⟩
      · rw [hnamed, hfirst.named_iff, alteredIn_cons_cons, or_assoc]
      · rcases alteredIn_cons_cons.mp haltered with halters | haltered
        · exact hfirst.known halters
        · exact hknown function haltered

/-- If a journal names those functions that have a property, their number is that of the functions
that it names. -/
theorem Journal.length_changedFunctions {journal : Journal} (consistent : program.Consistent)
    {property : FunctionId → Prop} [DecidablePred property]
    (hnamed : ∀ function, function ∈ journal.changedFunctions ↔ property function)
    (hknown : ∀ function, property function → ∃ found, program.function? function = some found) :
    journal.changedFunctions.length =
      program.functions.countP fun function => property function.id := by
  have hcount : (program.functions.countP fun function => property function.id) =
      ((program.functions.map Function.id).filter fun function => property function).length := by
    rw [← List.countP_eq_length_filter, List.countP_map]
    rfl
  rw [hcount]
  -- neither list has a function twice, so they are as long as they have the same members
  refine List.Perm.length_eq ((List.perm_ext_iff_of_nodup ?_ ?_).mpr fun function => ?_)
  · exact nodup_eraseDups _
  · exact consistent.nodup_ids.filter _
  · rw [hnamed, List.mem_filter, decide_eq_true_iff]
    refine ⟨fun hproperty => ⟨?_, hproperty⟩, And.right⟩
    obtain ⟨found, hfound⟩ := hknown function hproperty
    exact List.mem_map.mpr
      ⟨found, List.mem_of_getElem? hfound, consistent.function_id hfound⟩

end Counting

end ConcurrencyFaults

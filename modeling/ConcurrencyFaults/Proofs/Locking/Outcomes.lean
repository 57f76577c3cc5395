import ConcurrencyFaults.Proofs.Closed
import ConcurrencyFaults.Proofs.PairMatching

/-!
# Outcomes of the steps of a lock run

A run on lock pairs is put together from a few steps: it builds the index, looks up the pairs that
its requests name, asks whether their calls are untouched and makes notes.  On a consistent program
whose callees exist each of these has one outcome, which the equations of this file give together
with the notes that are made on the way.

Runs are composed from such equations by `bind_apply_of_ok`, with the ledger written as the old one
with a list of entries (`Ledger.recordAll`), so that notes of several steps add up by
`Ledger.recordAll_recordAll`.
-/

namespace ConcurrencyFaults

open Program

variable {program : Program} {workspace : Workspace} {site : CallSite}

/-! ## Notes

Notes change the journal and leave the marks. -/

namespace Ledger

/-- Records several entries. -/
def recordAll (ledger : Ledger) (entries : List Entry) : Ledger :=
  { ledger with journal := ledger.journal.extend entries }

variable {ledger : Ledger}

@[simp] theorem recordAll_nil : ledger.recordAll [] = ledger := by
  simp [recordAll, Journal.extend]

@[simp] theorem recordAll_recordAll (earlier later : List Entry) :
    (ledger.recordAll earlier).recordAll later = ledger.recordAll (earlier ++ later) := by
  simp [recordAll, Journal.extend]

@[simp] theorem isEdited_recordAll (entries : List Entry) (handle : Handle) :
    (ledger.recordAll entries).isEdited handle = ledger.isEdited handle := rfl

@[simp] theorem journal_recordAll (entries : List Entry) :
    (ledger.recordAll entries).journal = ledger.journal.extend entries := rfl

@[simp] theorem journal_markEdited (handle : Handle) :
    (ledger.markEdited handle).journal = ledger.journal := by
  unfold markEdited
  split <;> rfl

@[simp] theorem journal_markAll (handles : List Handle) :
    (ledger.markAll handles).journal = ledger.journal := by
  induction handles generalizing ledger with
  | nil => rfl
  | cons first rest ih => exact ih.trans (journal_markEdited first)

end Ledger

namespace Journal

variable {journal : Journal} {entries : List Entry}

theorem transformations_extend :
    (journal.extend entries).transformations =
      journal.transformations ++ entries.filter Entry.isTransformation := by
  simp [transformations, extend]

theorem transformations_extend_of_notes
    (hnotes : ∀ entry ∈ entries, entry.isTransformation = false) :
    (journal.extend entries).transformations = journal.transformations := by
  have hnone : entries.filter Entry.isTransformation = [] :=
    List.filter_eq_nil_iff.mpr fun entry hmem => by simp [hnotes entry hmem]
  rw [transformations_extend, hnone, List.append_nil]

end Journal

namespace Work

theorem edit_apply_of_ok {Answer : Type} {change : Edit Answer} {answer : Answer} {after : Program}
    (hchange : change workspace.program = .ok answer after) :
    edit change workspace = .ok answer { workspace with program := after } := by
  unfold edit
  rw [hchange]

theorem record_apply (entry : Entry) :
    record entry workspace =
      .ok () { workspace with ledger := workspace.ledger.recordAll [entry] } := rfl

theorem markEdited_apply (handle : Handle) :
    markEdited handle workspace =
      .ok () { workspace with ledger := workspace.ledger.markEdited handle } := rfl

theorem recordAll_apply (entries : List Entry) :
    entries.forM record workspace =
      .ok () { workspace with ledger := workspace.ledger.recordAll entries } := by
  induction entries generalizing workspace with
  | nil => rw [Ledger.recordAll_nil]; rfl
  | cons entry rest ih =>
      calc (entry :: rest).forM record workspace
        _ = rest.forM record { workspace with ledger := workspace.ledger.recordAll [entry] } :=
          bind_apply_of_ok (record_apply entry) _
        _ = .ok () { workspace with
            ledger := (workspace.ledger.recordAll [entry]).recordAll rest } := ih
        _ = .ok () { workspace with ledger := workspace.ledger.recordAll (entry :: rest) } := by
          rw [Ledger.recordAll_recordAll]
          rfl

/-- The warning about a call that was edited before. -/
def editedWarning (pass : String) (site : CallSite) : Entry :=
  .warning (pass ++ ": call " ++ site.handle.text ++ " was already mutated in this run, skipping")

/-- An intact call is untouched unless it is marked, and then there is one warning. -/
theorem isUntouched_of_intact (hintact : site.Intact workspace.program) (pass : String) :
    isUntouched pass site workspace =
      if workspace.ledger.isEdited site.handle then
        .ok false { workspace with ledger := workspace.ledger.recordAll [editedWarning pass site] }
      else .ok true workspace := by
  -- the mark is asked for first, and the snapshot is validated only if there is none
  have hasked : isEdited site.handle workspace =
      .ok (workspace.ledger.isEdited site.handle) workspace := rfl
  unfold isUntouched
  rw [bind_apply_of_ok hasked]
  cases workspace.ledger.isEdited site.handle with
  | true => rfl
  | false =>
      rw [if_neg Bool.false_ne_true, if_neg Bool.false_ne_true,
        bind_apply_of_ok (get_apply workspace), hintact.validate]
      rfl

/-- The last of several requests is handled after all others. -/
theorem anyOf_concat {Request : Type} {requests : List Request} {request : Request}
    {handle : Request → Work Bool} {before after : Workspace} {changed answer : Bool}
    (hbefore : anyOf requests handle workspace = .ok changed before)
    (hafter : handle request before = .ok answer after) :
    anyOf (requests ++ [request]) handle workspace = .ok (answer || changed) after := by
  unfold anyOf at hbefore ⊢
  simp only [List.foldlM_append, List.foldlM_cons, List.foldlM_nil, bind_pure]
  rw [bind_apply_of_ok hbefore]
  exact bind_apply_of_ok hafter _

theorem anyOf_singleton {Request : Type} {request : Request} {handle : Request → Work Bool}
    {after : Workspace} {answer : Bool} (hhandle : handle request workspace = .ok answer after) :
    anyOf [request] handle workspace = .ok answer after := by
  rw [← List.nil_append [request], ← Bool.or_false answer]
  exact anyOf_concat rfl hhandle

end Work

/-! ## The index

Building the index first warns of indirect calls and then makes one entry for each finding.  If the
search for calls is refused, the warnings stand all the same. -/

namespace PairIndex

/-- What is written down when the pairs of a program are matched. -/
def notes (oracle : AliasOracle) (program : Program) : List Entry :=
  indirectWarnings program ++
    match findings oracle program with
    | .ok results => entriesAfter [] results
    | .error _ => []

theorem ofProgram_of_findings {oracle : AliasOracle} {results : List PairFinding}
    (hresults : findings oracle program = .ok results) :
    ofProgram oracle program = ofFindings results := by
  simp only [ofProgram, hresults]

theorem notes_of_findings {oracle : AliasOracle} {results : List PairFinding}
    (hresults : findings oracle program = .ok results) :
    notes oracle program = indirectWarnings program ++ entriesAfter [] results := by
  simp only [notes, hresults]

/-- Matching the pairs makes notes alone. -/
theorem build_apply (consistent : workspace.program.Consistent)
    (calleesExist : workspace.program.CalleesExist) (oracle : AliasOracle) :
    build oracle workspace = .ok (.ofProgram oracle workspace.program)
      { workspace with ledger := workspace.ledger.recordAll (notes oracle workspace.program) } := by
  obtain ⟨found, -, hresults⟩ := findings_eq consistent calleesExist oracle
  let warned : Workspace := { workspace with
    ledger := workspace.ledger.recordAll (indirectWarnings workspace.program) }
  have hasked : Work.query (findings oracle) warned = .ok _ warned :=
    Work.query_apply_of_ok hresults
  unfold build
  rw [bind_apply_of_ok (get_apply workspace), bind_apply_of_ok (Work.recordAll_apply _)]
  refine (bind_apply_of_ok hasked _).trans ?_
  rw [bind_apply_of_ok (Work.recordAll_apply _), ofProgram_of_findings hresults,
    notes_of_findings hresults]
  dsimp only [warned]
  rw [Ledger.recordAll_recordAll]
  rfl

/-- Whether or not a call names a function that does not exist, no more than these notes is made. -/
theorem runs_build_notes (oracle : AliasOracle) :
    Runs (build oracle) workspace
      (fun index after => after = { workspace with
          ledger := workspace.ledger.recordAll (notes oracle workspace.program) } ∧
        ∃ results, findings oracle workspace.program = .ok results ∧ index = ofFindings results)
      fun _ after => after = { workspace with
        ledger := workspace.ledger.recordAll (notes oracle workspace.program) } := by
  unfold build
  refine runs_bind (runs_get (runs_bind (runs_of_ok (Work.recordAll_apply _) ?_)))
  refine Work.runs_bind_query_of (fun results hresults => ?_) fun problem hrefused => ?_
  · refine runs_bind (runs_of_ok (Work.recordAll_apply _) (runs_pure ⟨?_, results, hresults, rfl⟩))
    dsimp only at hresults ⊢
    rw [Ledger.recordAll_recordAll, notes_of_findings hresults]
  · dsimp only at hrefused
    simp only [notes, hrefused, List.append_nil]

/-- What building an index leaves behind, whether or not it is refused. -/
def noted (oracle : AliasOracle) (workspace : Workspace) : Workspace :=
  { workspace with ledger := workspace.ledger.recordAll (notes oracle workspace.program) }

/-- The calls of a new index are those of a search, and as yet all of them are intact. -/
theorem runs_build_tracked (consistent : workspace.program.Consistent) (oracle : AliasOracle) :
    Runs (build oracle) workspace
      (fun index after => after = noted oracle workspace ∧
        index = ofProgram oracle workspace.program ∧ ∃ found : FoundCalls,
          (∀ site ∈ found.sites, search.Finds workspace.program site) ∧
          (∀ pair ∈ index.pairs, pair.Matched found.sites) ∧
          Tracked workspace.program found.sites after)
      fun _ after => after = noted oracle workspace := by
  refine (runs_build_notes oracle).weaken ?_
  rintro _ _ ⟨rfl, results, hresults, rfl⟩
  obtain ⟨found, hfinds, hmatched⟩ := exists_found hresults
  exact ⟨rfl, (ofProgram_of_findings hresults).symm, found, hfinds, hmatched,
    .of_finds _ consistent hfinds⟩

theorem exists_of_mem_entriesAfter {note : Entry} {earlier findings : List PairFinding}
    (hmem : note ∈ entriesAfter earlier findings) :
    ∃ before finding, note = entry before finding := by
  induction findings generalizing earlier with
  | nil => cases hmem
  | cons finding rest ih =>
      rcases List.mem_cons.mp hmem with rfl | hmem
      · exact ⟨earlier, finding, rfl⟩
      · exact ih hmem

theorem isTransformation_of_mem_entriesAfter {note : Entry} {earlier findings : List PairFinding}
    (hmem : note ∈ entriesAfter earlier findings) : note.isTransformation = false := by
  obtain ⟨before, finding, rfl⟩ := exists_of_mem_entriesAfter hmem
  cases finding <;> rfl

/-- No note of the index is about a change. -/
theorem isTransformation_of_mem_notes {oracle : AliasOracle} {entry : Entry}
    (hmem : entry ∈ notes oracle program) : entry.isTransformation = false := by
  rcases List.mem_append.mp hmem with hmem | hmem
  · obtain ⟨function, -, rfl⟩ := List.mem_map.mp hmem
    rfl
  · split at hmem
    · exact isTransformation_of_mem_entriesAfter hmem
    · cases hmem

/-- The pairs of the index are exactly the pairs that belong together. -/
theorem mem_pairs_ofProgram_iff (consistent : program.Consistent)
    (calleesExist : program.CalleesExist) {oracle : AliasOracle} {pair : LockPair} :
    pair ∈ (ofProgram oracle program).pairs ↔ pair.Matches oracle program := by
  obtain ⟨found, -, hresults⟩ := findings_eq consistent calleesExist oracle
  rw [ofProgram_of_findings hresults, mem_pairs_iff consistent calleesExist hresults]

/-- Where a pair is found, all callees exist; otherwise the search for calls is refused. -/
theorem calleesExist_of_mem_pairs (consistent : program.Consistent) {oracle : AliasOracle}
    {pair : LockPair} (hmem : pair ∈ (ofProgram oracle program).pairs) : program.CalleesExist := by
  unfold ofProgram at hmem
  split at hmem
  · rename_i results hresults
    obtain ⟨found, hfound, -⟩ := Except.map_eq_ok_iff.mp hresults
    exact CallSearch.calleesExist_of_inProgram consistent hfound
  · cases hmem

theorem pairwise_pairs_ofProgram (consistent : program.Consistent)
    (calleesExist : program.CalleesExist) (oracle : AliasOracle) :
    (ofProgram oracle program).pairs.Pairwise (LockPair.Precedes program) := by
  obtain ⟨found, -, hresults⟩ := findings_eq consistent calleesExist oracle
  rw [ofProgram_of_findings hresults]
  exact pairwise_pairs consistent calleesExist hresults

end PairIndex

/-! ## Pairs

The two calls of a pair differ in their names, and a handle determines its call; so pairs can be
compared by the handles of their calls. -/

namespace LockPair.Matches

variable {pair other : LockPair} {oracle : AliasOracle}

theorem lock_intact (hpair : pair.Matches oracle program) : pair.lock.Intact program :=
  (CallSite.intact_of_capture hpair.lock_at).2

theorem unlock_intact (hpair : pair.Matches oracle program) : pair.unlock.Intact program :=
  (CallSite.intact_of_capture hpair.unlock_at).2

/-- A call that unlocks is not one that locks, whichever pairs they belong to. -/
theorem unlock_ne_lock (hpair : pair.Matches oracle program)
    (hother : other.Matches oracle program) :
    other.unlock.handle ≠ pair.lock.handle := by
  intro hsame
  have hsite := CallSite.eq_of_capture hother.unlock_at hpair.lock_at hsame
  have hname := hpair.lock_name
  rw [← hsite, hother.unlock_name] at hname
  exact absurd hname (by cases pair.family <;> cases other.family <;> decide)

theorem handle_ne (hpair : pair.Matches oracle program) :
    pair.unlock.handle ≠ pair.lock.handle :=
  hpair.unlock_ne_lock hpair

/-- The calls of a pair are calls of the program and name its family. -/
theorem of_side (hpair : pair.Matches oracle program)
    (hside : site = pair.lock ∨ site = pair.unlock) :
    CallSite.capture program site.handle true = .ok (some site) ∧
      ∃ role, LockFamily.classify? site.name = some (pair.family, role) := by
  rcases hside with rfl | rfl
  · exact ⟨hpair.lock_at, .lock, LockFamily.classify?_eq_some_iff.mpr hpair.lock_name⟩
  · exact ⟨hpair.unlock_at, .unlock, LockFamily.classify?_eq_some_iff.mpr hpair.unlock_name⟩

/-- One handle belongs to one call and one family, whichever pairs it is a side of. -/
theorem side_unique {otherSite : CallSite} (hpair : pair.Matches oracle program)
    (hother : other.Matches oracle program) (hside : site = pair.lock ∨ site = pair.unlock)
    (hotherSide : otherSite = other.lock ∨ otherSite = other.unlock)
    (hhandle : site.handle = otherSite.handle) : site = otherSite ∧ pair.family = other.family := by
  obtain ⟨hcapture, role, hrole⟩ := hpair.of_side hside
  obtain ⟨hotherCapture, otherRole, hotherRole⟩ := hother.of_side hotherSide
  obtain rfl := CallSite.eq_of_capture hcapture hotherCapture hhandle
  rw [hrole] at hotherRole
  exact ⟨rfl, (Prod.mk.inj (Option.some.inj hotherRole)).1⟩

/-- Pairs that belong together are told apart by the handles of their calls. -/
theorem eq_of_handles (hpair : pair.Matches oracle program)
    (hother : other.Matches oracle program) (hlock : pair.lock.handle = other.lock.handle)
    (hunlock : pair.unlock.handle = other.unlock.handle) : pair = other := by
  obtain ⟨hsameLock, hfamily⟩ :=
    hpair.side_unique hother (Or.inl rfl) (Or.inl rfl) hlock
  obtain ⟨hsameUnlock, -⟩ := hpair.side_unique hother (Or.inr rfl) (Or.inr rfl) hunlock
  cases pair
  cases other
  simp_all

end LockPair.Matches

namespace LockOperator

variable {index : PairIndex} {addressing : PairAddressing} {address : PairAddress} {pair : LockPair}

/-- The warning about an address that names no pair. -/
def boundsWarning (address : PairAddress) : Entry :=
  .warning (s!"{name}: position ({address.group}, {address.position}) is out of bounds, " ++
    "skipping")

theorem resolve_apply (index : PairIndex) (addressing : PairAddressing) (address : PairAddress) :
    resolve index addressing address workspace =
      match find? index addressing address with
      | some pair => .ok (some pair) workspace
      | none => .ok none
          { workspace with ledger := workspace.ledger.recordAll [boundsWarning address] } := by
  unfold resolve
  cases hfind : find? index addressing address <;> rfl

theorem resolve_of_find? (hfind : find? index addressing address = some pair) :
    resolve index addressing address workspace = .ok (some pair) workspace := by
  rw [resolve_apply, hfind]

theorem resolve_of_find?_eq_none (hfind : find? index addressing address = none) :
    resolve index addressing address workspace = .ok none
      { workspace with ledger := workspace.ledger.recordAll [boundsWarning address] } := by
  rw [resolve_apply, hfind]

theorem matches_of_find? (consistent : program.Consistent) (calleesExist : program.CalleesExist)
    {oracle : AliasOracle}
    (hfind : find? (.ofProgram oracle program) addressing address = some pair) :
    pair.Matches oracle program :=
  (PairIndex.mem_pairs_ofProgram_iff consistent calleesExist).mp (mem_of_find? hfind)

/-- A pair of intact calls is untouched unless one of them is marked, and then there is one
warning. -/
theorem isPairUntouched_of_intact (hlock : pair.lock.Intact workspace.program)
    (hunlock : pair.unlock.Intact workspace.program) :
    ∃ warnings : List Entry,
      isPairUntouched pair workspace =
        .ok (!workspace.ledger.isEdited pair.lock.handle &&
            !workspace.ledger.isEdited pair.unlock.handle)
          { workspace with ledger := workspace.ledger.recordAll warnings } ∧
      warnings = if workspace.ledger.isEdited pair.lock.handle then
          [Work.editedWarning name pair.lock]
        else if workspace.ledger.isEdited pair.unlock.handle then
          [Work.editedWarning name pair.unlock]
        else [] := by
  refine ⟨_, ?_, rfl⟩
  have hlockAsked := Work.isUntouched_of_intact hlock name
  have hunlockAsked := Work.isUntouched_of_intact hunlock name
  unfold isPairUntouched
  cases hlockMark : workspace.ledger.isEdited pair.lock.handle with
  | true =>
      rw [hlockMark, if_pos rfl] at hlockAsked
      rw [bind_apply_of_ok hlockAsked]
      rfl
  | false =>
      rw [hlockMark, if_neg (by simp)] at hlockAsked
      rw [bind_apply_of_ok hlockAsked, if_pos rfl, hunlockAsked]
      cases workspace.ledger.isEdited pair.unlock.handle <;> simp

/-- A pair of intact calls neither of which is marked is untouched, and there is nothing to warn
of. -/
theorem isPairUntouched_of_unedited (hlock : pair.lock.Intact workspace.program)
    (hunlock : pair.unlock.Intact workspace.program)
    (hlockUnedited : workspace.ledger.isEdited pair.lock.handle = false)
    (hunlockUnedited : workspace.ledger.isEdited pair.unlock.handle = false) :
    isPairUntouched pair workspace = .ok true workspace := by
  obtain ⟨warnings, huntouched, hwarnings⟩ := isPairUntouched_of_intact hlock hunlock
  rw [hlockUnedited, hunlockUnedited, if_neg Bool.false_ne_true, if_neg Bool.false_ne_true]
    at hwarnings
  rwa [hlockUnedited, hunlockUnedited, hwarnings, Ledger.recordAll_nil] at huntouched

end LockOperator

end ConcurrencyFaults

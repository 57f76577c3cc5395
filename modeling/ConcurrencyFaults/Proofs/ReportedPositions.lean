import ConcurrencyFaults.Proofs.Locking.Bounds
import ConcurrencyFaults.Proofs.Operators
import ConcurrencyFaults.Proofs.Operators.Candidates

/-!
# Reported positions are accepted positions

A user first has the candidates reported and then asks for some of them to be changed.  The two come
from separate runs, perhaps with different settings, but from one program; so the position that a
report shows for a candidate is the one under which a later run finds it, and the number of reported
candidates is the number of positions that a run accepts.

Operators on single instructions show and count one list of candidates, and their runs keep to this
list although they take candidates out (`Operator.Numbers`).  Lock pairs have positions in their
categories, and a report that counts the pairs of each category tells which positions there are
(`LockOperator.Accepts`).

The work is done elsewhere: `Numbering.lean` follows requests for numbered candidates,
`Operators/Candidates.lean` lists the candidates that each operator reports and asks for, and
`Locking/Bounds.lean` follows the warnings about pairs.  Here both sides are put against one list.
-/

namespace ConcurrencyFaults

open Work

/-! ## Pairs

A report counts pairs by category, and a request names a category and a position in it. -/

namespace LockOperator

/-- Runs that name pairs by category accept the positions that a report counts: an address that is
out of bounds by the report is passed over with a warning, any other names a pair. -/
structure Accepts (oracle : AliasOracle) (program : Program) (report : Report) : Prop where
  reported : ∀ finder : LockPlan, finder.verbose = false → ∀ ledger : Ledger,
    ∃ after, (Operator.lock finder).report oracle { program, ledger } = .ok report after
  resolved : ∃ index built, PairIndex.build oracle { program } = .ok index built ∧
    ∀ (address : PairAddress) (state : Workspace),
      (OutOfBounds report address → resolve index .category address state =
        .ok none (state.warned (boundsWarning address))) ∧
      (¬ OutOfBounds report address →
        ∃ pair, resolve index .category address state = .ok (some pair) state)
  warned : ∀ (plan : LockPlan) (mode : LockMode), plan.mode = some mode →
    plan.addressing = .category →
      ∃ changed after, (Operator.lock plan).run oracle { program } = .ok changed after ∧
        after.ledger.journal.entries.filter isBoundsWarning =
          (missed (fun address => OutOfBounds report address) mode plan.positions).map boundsWarning

theorem exists_accepts {program : Program} (consistent : program.Consistent)
    (answerable : program.Answerable) (oracle : AliasOracle) :
    ∃ report, Accepts oracle program report := by
  have calleesExist := answerable.calleesExist
  have hbounds (address : PairAddress) := @find?_eq_none_iff (.ofProgram oracle program) _ address
    (Report.categoryCount_pairCounts name _)
  refine ⟨.pairCounts name (.ofProgram oracle program), ?_, ?_, ?_⟩
  · exact fun finder hbrief ledger =>
      ⟨_, @report_apply { program, ledger } consistent calleesExist oracle finder hbrief⟩
  · refine ⟨_, _, @PairIndex.build_apply { program } consistent calleesExist oracle, ?_⟩
    intro address state
    constructor
    · exact fun hout => resolve_of_find?_eq_none ((hbounds address).mpr hout)
    · intro hinside
      obtain ⟨pair, hpair⟩ :=
        Option.ne_none_iff_exists'.mp fun hnone => hinside ((hbounds address).mp hnone)
      exact ⟨pair, resolve_of_find? hpair⟩
  · intro plan mode hmode hcategory
    have hruns :=
      @Operator.runs_run_answerable { program } consistent answerable (.lock plan) oracle
    have hannounced :=
      @runs_run_announced { program } plan mode hmode consistent calleesExist oracle
    obtain ⟨changed, after, hrun, -, entries, hjournal, hentries⟩ :=
      (hruns.and_answered hannounced).exists_ok
    -- a run misses the addresses that the report has no place for
    have hmissing : isMissing (.ofProgram oracle program) plan.addressing = fun address =>
        decide (OutOfBounds (.pairCounts name (.ofProgram oracle program)) address) := by
      funext address
      rw [hcategory, isMissing, Bool.eq_iff_iff, Option.isNone_iff_eq_none, decide_eq_true_iff]
      exact hbounds address
    refine ⟨changed, after, hrun, ?_⟩
    rw [hjournal, ← hmissing]
    exact hentries

end LockOperator

/-! ## Single instructions

A run that has no change to make requests nothing, but is answered all the same. -/

namespace Operator

/-- The candidates of an operator have the same positions in reports and in runs.  Every report with
the same settings counts them, and a verbose one shows each under its position.  A run with any
positions follows its requests on them, one after another, and ends with the last of its stages. -/
structure Numbers (operator : Operator) (oracle : AliasOracle) (program : Program)
    (candidates : List Candidate) : Prop where
  found : operator.candidates program = .ok candidates
  listed : Listed program candidates
  reported : ∀ finder, operator.NumbersLike finder → ∀ ledger : Ledger,
    ∃ report after, finder.report oracle { program, ledger } = .ok report after ∧
      report.total = candidates.length ∧
      (finder.verbose = true → ∀ position : Nat,
        report.lines[position]? = candidates[position]?.map fun candidate =>
          .site position candidate.location (finder.detail program candidate))
  answered : ∃ changed after, operator.run oracle { program } = .ok changed after ∧
    (operator.stages oracle { program }).getLast? = some after
  requested : operator.mutates = true → ∀ {number position : Nat},
    operator.positions[number]? = some position →
      ∃ before after, (operator.stages oracle { program })[number]? = some before ∧
        (operator.stages oracle { program })[number + 1]? = some after ∧
        (∃ entries, after.ledger.journal = before.ledger.journal.extend entries ∧
          ((∃ entry ∈ entries, entry.IsOutOfBounds) ↔ candidates.length ≤ position)) ∧
        Followed program candidates operator.name (operator.change number)
          (operator.positions.take number) position before after

/-- On a program that no run is refused on, reports and runs of every operator agree on what has a
position. -/
theorem reported_positions {program : Program} (consistent : program.Consistent)
    (answerable : program.Answerable) (oracle : AliasOracle) :
    (∀ operator : Operator, operator.numbersSites = true →
      ∃ candidates, operator.Numbers oracle program candidates) ∧
      ∃ report, LockOperator.Accepts oracle program report := by
  refine ⟨fun operator hsites => ?_,
    LockOperator.exists_accepts consistent answerable oracle⟩
  obtain ⟨candidates, hcandidates, listed⟩ :=
    exists_candidates consistent answerable.calleesExist operator
  refine ⟨candidates, hcandidates, listed, ?_, ?_, ?_⟩
  · intro finder hlike ledger
    have hfinder := (hlike.candidates_eq program).trans hcandidates
    have hreport := (@report_apply finder _ { program, ledger } consistent hlike.numbersSites
      hfinder oracle).trans (reportSites_apply _ _ _)
    refine ⟨_, _, hreport, ?_, fun hverbose position => ?_⟩
    · rw [Report.total_sites, shown, List.length_map]
    · rw [hverbose, Report.getElem?_lines_sites, shown, List.getElem?_map, Option.map_map]
      rfl
  · have hruns := @runs_run_answerable { program } consistent answerable operator oracle
    obtain ⟨changed, after, hrun, -⟩ := hruns.exists_ok
    refine ⟨changed, after, hrun, ?_⟩
    rw [getLast?_stages, Work.left_of_ok hrun]
  · intro hmutates number position hposition
    obtain ⟨before, after, hbefore, hafter, hfollowed⟩ :=
      exists_stages consistent answerable hsites hmutates hcandidates listed oracle hposition
    exact ⟨before, after, hbefore, hafter, hfollowed.exists_entries, hfollowed⟩

/-- The fence and the join have position 0 for their operators, and there are no pairs. -/
theorem reported_positions_joinAfterFence :
    (∀ operator : Operator, operator.numbersSites = true →
      ∃ candidates, operator.Numbers .identity joinAfterFence candidates) ∧
      ∃ report, LockOperator.Accepts .identity joinAfterFence report :=
  @reported_positions joinAfterFence consistent_joinAfterFence answerable_joinAfterFence .identity

end Operator

end ConcurrencyFaults

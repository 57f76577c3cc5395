import ConcurrencyFaults.Instruction
import ConcurrencyFaults.Journal.Basic
import ConcurrencyFaults.Locking.PairIndex

/-!
# Reports

A report lists the candidates of an operator: their number, or one line for each in the order of
their positions.  These positions are the ones that a later request names.
-/

namespace ConcurrencyFaults

/-- One line of a report. -/
inductive ReportLine where
  /-- A number of candidates, perhaps of a group with a label. -/
  | counted (label : Option String) (count : Nat)
  /-- One candidate. -/
  | site (position : Nat) (location : Option Location) (detail : String)
deriving DecidableEq, Repr, Inhabited

namespace ReportLine

/-- The number of candidates that a line stands for. -/
def size : ReportLine → Nat
  | .counted _ count => count
  | .site _ _ _ => 1

/-- How a location is written when it is not known. -/
def locationText : Option Location → String
  | some location => location.text
  | none => "<unknown location>"

/-- The columns of a line are separated by tabs; an empty detail is no column. -/
def text : ReportLine → String
  | .counted (some label) count => label ++ s!"\t{count}"
  | .counted none count => s!"{count}"
  | .site position location detail =>
      s!"{position}\t" ++ locationText location ++ (if detail.isEmpty then "" else "\t" ++ detail)

end ReportLine

/-- The candidates of one operator. -/
structure Report where
  pass : String
  lines : List ReportLine := []
deriving DecidableEq, Repr, Inhabited

namespace Report

/-- A report that is a single number. -/
def ofCount (pass : String) (count : Nat) : Report := { pass, lines := [.counted none count] }

/-- Appends a line. -/
def push (report : Report) (line : ReportLine) : Report :=
  { report with lines := report.lines ++ [line] }

/-- The number of candidates. -/
def total (report : Report) : Nat :=
  report.lines.foldl (fun total line => total + line.size) 0

/-- The number on the first line with this label. -/
def labelledCount (report : Report) (label : String) : Nat :=
  (report.lines.findSome? fun line =>
    match line with
    | .counted (some found) count => if found = label then some count else none
    | _ => none).getD 0

/-- The number of pairs of a category, which the category's number labels. -/
def categoryCount (report : Report) (category : PairCategory) : Nat :=
  report.labelledCount s!"{category.number}"

/-- Each line is ended by a line feed. -/
def text (report : Report) : String :=
  String.join (report.lines.map fun line => line.text ++ "\n")

/-! ## Candidates at sites -/

/-- The warnings about candidates without a location. -/
def locationWarnings (pass : String) (sites : List (Option Location × String)) : List Entry :=
  (sites.zipIdx.filter fun (site, _) => site.1.isNone).map fun (_, position) =>
    .warning s!"{pass}: candidate {position} has no debug location"

/-- One line for each candidate. -/
def ofSites (pass : String) (sites : List (Option Location × String)) : Report where
  pass
  lines := sites.zipIdx.map fun (site, position) => .site position site.1 site.2

/-- The candidates, or only their number unless the report is to be verbose.  Only a verbose report
warns about missing locations. -/
def sites (pass : String) (sites : List (Option Location × String)) (verbose : Bool) :
    Report × List Entry :=
  if verbose then (ofSites pass sites, locationWarnings pass sites)
  else (ofCount pass sites.length, [])

/-! ## Pairs -/

/-- The number of pairs of each category that has any. -/
def pairCounts (pass : String) (index : PairIndex) : Report where
  pass
  lines := PairCategory.all.filterMap fun category =>
    let count := (index.ofCategory category).length
    if count > 0 then some (.counted (some s!"{category.number}") count) else none

/-- The line of one pair: both locations and the distance between them. -/
def pairLine (program : Program) (category : PairCategory) (position : Nat) (pair : LockPair) :
    Except EditError ReportLine := do
  let distance ← pair.distance program
  return .site position pair.lock.location
    (category.text ++ " " ++ pair.family.text ++ " -> " ++
      ReportLine.locationText pair.unlock.location ++ s!" distance {distance}")

/-- The pairs, or only their numbers unless the report is to be verbose. -/
def pairs (pass : String) (index : PairIndex) (program : Program) (verbose : Bool) :
    Except EditError Report := do
  if verbose then
    let lines ← index.toList.mapM fun (category, position, pair) =>
      pairLine program category position pair
    return { pass, lines }
  else
    return pairCounts pass index

end Report

end ConcurrencyFaults

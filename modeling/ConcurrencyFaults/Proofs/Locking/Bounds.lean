import ConcurrencyFaults.Proofs.Answers
import ConcurrencyFaults.Proofs.Locking.Removal

/-!
# Which lock pairs have a position

A report that counts the pairs of each category tells which addresses by category name a pair: the
category has to be one of the four, and the position has to be below its count
(`find?_eq_none_iff`).  A run warns of the addresses that name no pair, and of no others
(`runs_run_announced`).

The warnings about bounds are known by their beginning and their end (`isBoundsWarning`).  All
messages of the operator begin with its name, but no other goes on with a position in parentheses;
`Clashes` says of the beginning of a message that nothing that follows can make it such a warning.

## Strategy

* `Announces told work` says which addresses the work warns of, in order.  It composes along `bind`
  and over lists of requests (`Announces.bind`, `announces_foldlM`).
* Handlers warn of no address (`discreet_shiftSite` and its like).  Of their messages, only the
  constant beginning is looked at, and `decide` compares it with that of a warning about bounds.
* What warns is the lookup of an address (`announces_resolve_bind`), so the addresses of a run are
  those that it looks up in vain (`missed`).
-/

namespace ConcurrencyFaults

open Work

/-! ## Counted pairs

A report has one line for each category that is not empty, and the count of a category is read from
the line with its number. -/

namespace PairCategory

theorem ofNumber?_eq_some_iff {number : Nat} {category : PairCategory} :
    ofNumber? number = some category ↔ category.number = number := by
  match number with
  | 0 | 1 | 2 | 3 => cases category <;> decide
  | more + 4 =>
      have hnone : ofNumber? (more + 4) = none := rfl
      rw [hnone]
      cases category <;> simp [PairCategory.number]

theorem number_le (category : PairCategory) : category.number ≤ 3 := by
  cases category <;> decide

theorem mem_all (category : PairCategory) : category ∈ all := by
  cases category <;> decide

/-- Categories are told apart by their labels. -/
theorem label_inj {first second : PairCategory} :
    s!"{first.number}" = s!"{second.number}" ↔ first = second := by
  cases first <;> cases second <;> decide

end PairCategory

namespace Report

/-- An empty category has no line, which is as good as a zero. -/
theorem labelledCount_categories (pass : String) (index : PairIndex) (category : PairCategory)
    (categories : List PairCategory) :
    labelledCount { pass, lines := categories.filterMap fun category =>
      let count := (index.ofCategory category).length
      if count > 0 then some (.counted (some s!"{category.number}") count) else none }
        s!"{category.number}" =
      if category ∈ categories then (index.ofCategory category).length else 0 := by
  unfold labelledCount
  dsimp only
  induction categories with
  | nil => rfl
  | cons first rest ih =>
      rw [List.filterMap_cons]
      by_cases hcount : (index.ofCategory first).length > 0
      · simp only [hcount, if_true, List.findSome?_cons, PairCategory.label_inj, List.mem_cons]
        by_cases hsame : category = first
        · rw [if_pos hsame.symm, if_pos (Or.inl hsame), hsame]
          rfl
        · rw [if_neg (Ne.symm hsame)]
          simpa only [hsame, false_or] using ih
      · simp only [hcount, if_false, List.mem_cons]
        rw [ih]
        by_cases hsame : category = first
        · have hzero : (index.ofCategory category).length = 0 := by
            rw [hsame]
            exact Nat.eq_zero_of_not_pos hcount
          simp [hzero]
        · simp [hsame]

theorem categoryCount_pairCounts (pass : String) (index : PairIndex) (category : PairCategory) :
    (pairCounts pass index).categoryCount category = (index.ofCategory category).length :=
  calc (pairCounts pass index).categoryCount category
    _ = if category ∈ PairCategory.all then (index.ofCategory category).length else 0 :=
      labelledCount_categories pass index category PairCategory.all
    _ = (index.ofCategory category).length := if_pos category.mem_all

end Report

namespace LockOperator

/-- By a report, there is no such category or it has too few pairs. -/
def OutOfBounds (report : Report) (address : PairAddress) : Prop :=
  3 < address.group ∨ ∃ category ∈ PairCategory.all, category.number = address.group ∧
    report.categoryCount category ≤ address.position

instance (report : Report) (address : PairAddress) : Decidable (OutOfBounds report address) := by
  unfold OutOfBounds
  infer_instance

variable {index : PairIndex} {report : Report} {address : PairAddress} {workspace : Workspace}

/-- No pair is found exactly where the counted pairs end. -/
theorem find?_eq_none_iff
    (hcounts : ∀ category, report.categoryCount category = (index.ofCategory category).length) :
    find? index .category address = none ↔ OutOfBounds report address := by
  unfold find? OutOfBounds
  cases hcategory : PairCategory.ofNumber? address.group with
  | none =>
      have hlarge : 3 < address.group := by
        rw [PairCategory.ofNumber?, List.getElem?_eq_none_iff] at hcategory
        exact hcategory
      exact iff_of_true rfl (Or.inl hlarge)
  | some category =>
      have hnumber := PairCategory.ofNumber?_eq_some_iff.mp hcategory
      rw [Option.bind_some, PairIndex.get?, List.getElem?_eq_none_iff, ← hcounts]
      constructor
      · exact fun hfew => Or.inr ⟨category, category.mem_all, hnumber, hfew⟩
      · rintro (hlarge | ⟨other, -, hother, hfew⟩)
        · exact absurd category.number_le (by omega)
        · have hsame := PairCategory.ofNumber?_eq_some_iff.mpr hother
          rw [hcategory, Option.some.injEq] at hsame
          rwa [hsame]

theorem report_apply (consistent : workspace.program.Consistent)
    (calleesExist : workspace.program.CalleesExist) (oracle : AliasOracle) {plan : LockPlan}
    (hbrief : plan.verbose = false) :
    LockOperator.report plan oracle workspace =
      .ok (Report.pairCounts name (.ofProgram oracle workspace.program))
        (PairIndex.noted oracle workspace) := by
  unfold LockOperator.report
  rw [bind_apply_of_ok (PairIndex.build_apply consistent calleesExist oracle)]
  refine query_apply_of_ok ?_
  rw [hbrief]
  rfl

/-! ## Warnings about bounds

Messages hold texts that may be anything, such as names of functions.  Where those stand near the
beginning, a message is told apart by its end. -/

/-- How a warning about bounds begins. -/
def boundsStart : String := s!"{name}: position ("

/-- How a warning about bounds ends. -/
def boundsEnd : String := ") is out of bounds, skipping"

def isBoundsWarning (entry : Entry) : Bool :=
  entry.kind == .warning && boundsStart.toList.isPrefixOf entry.message.toList &&
    boundsEnd.toList.isSuffixOf entry.message.toList

theorem isBoundsWarning_boundsWarning (address : PairAddress) :
    isBoundsWarning (boundsWarning address) = true := by
  have hmessage : (boundsWarning address).message =
      boundsStart ++ (toString address.group ++ ", " ++ toString address.position) ++
        boundsEnd := by
    have hend : boundsEnd = ") is out of bounds, " ++ "skipping" := by decide
    rw [hend]
    simp only [boundsWarning, Entry.warning, boundsStart, String.append_assoc]
    rfl
  unfold isBoundsWarning
  rw [hmessage, String.toList_append, Bool.and_eq_true, Bool.and_eq_true]
  refine ⟨⟨rfl, List.isPrefixOf_iff_prefix.mpr ?_⟩, List.isSuffixOf_iff_suffix.mpr ?_⟩
  · rw [String.toList_append, List.append_assoc]
    exact List.prefix_append _ _
  · exact List.suffix_append _ _

theorem not_isBoundsWarning_of_kind {entry : Entry} (hkind : entry.kind ≠ .warning) :
    isBoundsWarning entry = false := by
  simp [isBoundsWarning, hkind]

/-- A message that ends otherwise is no warning about bounds. -/
theorem not_isBoundsWarning_of_end (front : String) {back : String}
    (hlength : boundsEnd.toList.length ≤ back.toList.length)
    (hback : ¬ boundsEnd.toList <:+ back.toList) :
    isBoundsWarning (.warning (front ++ back)) = false := by
  have hnot : boundsEnd.toList.isSuffixOf (front ++ back).toList = false := by
    rw [Bool.eq_false_iff, Ne, List.isSuffixOf_iff_suffix, String.toList_append]
    exact fun hend => hback
      (List.suffix_of_suffix_length_le hend (List.suffix_append _ _) hlength)
  exact Bool.and_eq_false_iff.mpr (Or.inr hnot)

/-- No message that begins like this is a warning about bounds. -/
def Clashes (text : String) : Prop :=
  ¬ boundsStart.toList <+: text.toList ∧ ¬ text.toList <+: boundsStart.toList

instance (text : String) : Decidable (Clashes text) := by
  unfold Clashes
  infer_instance

theorem Clashes.append {text : String} (hclashes : Clashes text) (more : String) :
    Clashes (text ++ more) := by
  unfold Clashes
  rw [String.toList_append]
  constructor
  · intro hstart
    -- of two beginnings of one text one begins the other
    rcases List.prefix_or_prefix_of_prefix hstart (List.prefix_append _ _) with hlonger | hshorter
    · exact hclashes.1 hlonger
    · exact hclashes.2 hshorter
  · exact fun hstart => hclashes.2 ((List.prefix_append _ _).trans hstart)

theorem Clashes.append_append {front text : String} (hclashes : Clashes (front ++ text))
    (more : String) : Clashes (front ++ (text ++ more)) := by
  rw [← String.append_assoc]
  exact hclashes.append more

theorem Clashes.not_isBoundsWarning {message : String} (hclashes : Clashes message) :
    isBoundsWarning (.warning message) = false := by
  have hnot : boundsStart.toList.isPrefixOf message.toList = false := by
    rw [Bool.eq_false_iff]
    exact fun hstart => hclashes.1 (List.isPrefixOf_iff_prefix.mp hstart)
  simp [isBoundsWarning, Entry.warning, hnot]

theorem filter_isBoundsWarning_notes (oracle : AliasOracle) (program : Program) :
    (PairIndex.notes oracle program).filter isBoundsWarning = [] := by
  rw [List.filter_eq_nil_iff]
  intro note hnote
  rw [Bool.not_eq_true]
  -- the name of a function may be anything, so only the ends of these warnings tell
  rcases List.mem_append.mp hnote with hindirect | hfinding
  · obtain ⟨function, -, rfl⟩ := List.mem_map.mp hindirect
    exact not_isBoundsWarning_of_end _ (by decide) (by decide)
  · split at hfinding
    · obtain ⟨before, finding, rfl⟩ := PairIndex.exists_of_mem_entriesAfter hfinding
      cases finding with
      | paired pair => exact not_isBoundsWarning_of_kind (show EntryKind.pairFound ≠ _ by decide)
      | noArgument site => exact not_isBoundsWarning_of_end _ (by decide) (by decide)
    · cases hfinding

/-! ## What is said about bounds

`Announced` compares journals after all other entries were left out. -/

/-- These addresses and no others were said to be out of bounds, in this order. -/
def Announced (before : Workspace) (addresses : List PairAddress) (after : Workspace) : Prop :=
  ∃ entries, after.ledger.journal = before.ledger.journal.extend entries ∧
    entries.filter isBoundsWarning = addresses.map boundsWarning

section Announced

variable {before between after state : Workspace} {earlier later told : List PairAddress}
  {Answer Other : Type}

theorem Announced.trans (hfirst : Announced before earlier between)
    (hsecond : Announced between later after) : Announced before (earlier ++ later) after := by
  obtain ⟨first, hbetween, hfirst⟩ := hfirst
  obtain ⟨second, hafter, hsecond⟩ := hsecond
  refine ⟨first ++ second, by rw [hafter, hbetween, Journal.extend_extend], ?_⟩
  rw [List.filter_append, hfirst, hsecond, List.map_append]

theorem Announced.of_journal_eq (hjournal : after.ledger.journal = before.ledger.journal) :
    Announced before [] after := ⟨[], by rw [hjournal, Journal.extend_nil], rfl⟩

/-- Whatever else it does, the work says this about bounds. -/
def Announces (told : List PairAddress) (work : Work Answer) : Prop :=
  Ensures (fun before _ after => Announced before told after) work

/-- The work says nothing about bounds. -/
abbrev Discreet (work : Work Answer) : Prop := Announces [] work

theorem discreet_pure (answer : Answer) : Discreet (pure answer : Work Answer) :=
  fun _ => runs_pure (Announced.of_journal_eq rfl)

theorem Announces.bind {first : Work Answer} {next : Answer → Work Other}
    (hfirst : Announces earlier first) (hnext : ∀ answer, Announces later (next answer)) :
    Announces (earlier ++ later) (first >>= next) :=
  Ensures.bind hfirst hnext Announced.trans

theorem Discreet.bind {first : Work Answer} {next : Answer → Work Other} (hfirst : Discreet first)
    (hnext : ∀ answer, Announces told (next answer)) : Announces told (first >>= next) :=
  Announces.bind hfirst hnext

/-- What comes next may rely on what is known of the answer. -/
theorem Discreet.bind_of {first : Work Answer} {next : Answer → Work Other} {known : Answer → Prop}
    (hfirst : Ensures (fun before answer after => Announced before [] after ∧ known answer) first)
    (hnext : ∀ answer, known answer → Announces told (next answer)) :
    Announces told (first >>= next) :=
  fun workspace => (hfirst workspace).bind fun answer between hanswer =>
    (hnext answer hanswer.2 between).weaken fun _ _ hafter => hanswer.1.trans hafter

/-- One request after another, each says what it has to say. -/
theorem announces_foldlM {Request : Type} {step : Answer → Request → Work Answer}
    {tells : Request → List PairAddress}
    (hstep : ∀ answer request, Announces (tells request) (step answer request))
    (requests : List Request) (answer : Answer) :
    Announces (requests.flatMap tells) (requests.foldlM step answer) := by
  induction requests generalizing answer with
  | nil => exact discreet_pure answer
  | cons request rest ih =>
      rw [List.foldlM_cons, List.flatMap_cons]
      exact (hstep answer request).bind ih

theorem announces_anyOf {Request : Type} {handle : Request → Work Bool}
    {tells : Request → List PairAddress}
    (hhandle : ∀ request, Announces (tells request) (handle request)) (requests : List Request) :
    Announces (requests.flatMap tells) (anyOf requests handle) := by
  refine announces_foldlM (fun changed request => ?_) requests false
  rw [← List.append_nil (tells request)]
  exact (hhandle request).bind fun _ => discreet_pure _

theorem discreet_get : Discreet (get : Work Workspace) :=
  fun _ => runs_get (Announced.of_journal_eq rfl)

theorem discreet_query (question : Program → Except EditError Answer) :
    Discreet (query question) := by
  intro workspace
  rw [← bind_pure (query question)]
  exact runs_bind_query_of (fun _ _ => discreet_pure _ workspace) fun _ _ => trivial

theorem discreet_edit (change : Edit Answer) : Discreet (edit change) := by
  intro workspace
  unfold Runs edit
  cases change workspace.program with
  | ok answer program => exact Announced.of_journal_eq rfl
  | error problem program => trivial

theorem discreet_record {entry : Entry} (hentry : isBoundsWarning entry = false) :
    Discreet (record entry) :=
  fun _ => ⟨[entry], rfl, by simp [hentry]⟩

theorem discreet_warn {message : String} (hclashes : Clashes message) : Discreet (warn message) :=
  discreet_record hclashes.not_isBoundsWarning

theorem discreet_skip {message : String} (hclashes : Clashes message) : Discreet (do
    warn message
    return false) := (discreet_warn hclashes).bind fun _ => discreet_pure false

theorem discreet_markEdited (handle : Handle) : Discreet (markEdited handle) :=
  fun _ => Announced.of_journal_eq (Ledger.journal_markEdited handle)

theorem discreet_forM {Item : Type} {items : List Item} {work : Item → Work Unit}
    (hwork : ∀ item, Discreet (work item)) : Discreet (items.forM work) := by
  induction items with
  | nil => exact discreet_pure ()
  | cons first rest ih => exact (hwork first).bind fun _ => ih

theorem discreet_recordChange {kind : EntryKind} (hkind : kind ≠ .warning) (pass : String)
    (function : FunctionId) (message : String) (location : Option Nat) :
    Discreet (recordChange pass kind function message location) :=
  discreet_record (not_isBoundsWarning_of_kind hkind)

end Announced

/-! ## Handlers

The proofs of this section follow the handlers, statement by statement. -/

theorem clashes_message (problem : EditError) : Clashes (name ++ ": " ++ problem.message) := by
  cases problem with
  | staleHandle handle => exact Clashes.append_append (by decide) _
  | unknownFunction function => exact Clashes.append_append (by decide) _
  | unknownBlock function block =>
      exact ((Clashes.append_append (by decide) _).append_append _).append_append _
  | differentFunctions first second =>
      refine Clashes.append_append (Clashes.append_append ?_ _) _
      exact (Clashes.append_append (by decide) _).append_append _
  | hasUses handle uses => exact (Clashes.append_append (by decide) _).append_append _
  | notACallSite handle => exact (Clashes.append_append (by decide) _).append_append _
  | unlistedInBlock handle block =>
      exact ((Clashes.append_append (by decide) _).append_append _).append_append _
  | unlistedInFunction handle => exact (Clashes.append_append (by decide) _).append_append _
  | noCurrentBlock function => exact Clashes.append_append (by decide) _

theorem discreet_isUntouched (site : CallSite) : Discreet (isUntouched name site) := by
  unfold isUntouched isEdited
  refine (discreet_get.bind fun _ => discreet_pure _).bind fun edited => ?_
  split
  · exact discreet_skip ((Clashes.append (by decide) _).append _)
  · refine discreet_get.bind fun workspace => ?_
    split
    · exact discreet_pure _
    · exact discreet_skip ((clashes_message _).append _)

theorem discreet_isPairUntouched (pair : LockPair) : Discreet (isPairUntouched pair) := by
  unfold isPairUntouched
  refine (discreet_isUntouched _).bind fun untouched => ?_
  split
  · exact discreet_isUntouched _
  · exact discreet_pure _

theorem discreet_removeSite (site : CallSite) (family : LockFamily) :
    Discreet (removeSite site family) := by
  unfold removeSite
  refine (discreet_isUntouched site).bind fun untouched => ?_
  split
  · exact discreet_pure _
  · extract_lets rest
    have hrest : ∀ uses, Discreet (rest uses) := by
      intro uses
      simp only [rest]
      split
      · refine discreet_skip ?_
        cases family <;> exact (Clashes.append (by decide) _).append _
      · exact (discreet_edit _).bind fun _ => (discreet_markEdited _).bind fun _ => discreet_pure _
    split
    · exact hrest 0
    · exact (discreet_query _).bind hrest

theorem discreet_removeNext (removed : List Handle) (listed : CallSite × LockFamily) :
    Discreet (removeNext removed listed) :=
  (discreet_removeSite _ _).bind fun _ => discreet_pure _

theorem discreet_recordRemoved (removed : List Handle) (requested : PairAddress × LockPair) :
    Discreet (recordRemoved removed requested) := by
  unfold recordRemoved
  split
  · exact discreet_record (not_isBoundsWarning_of_kind (show EntryKind.pairRemoved ≠ _ by decide))
  · exact discreet_pure _

theorem discreet_swapSites (first second : CallSite) : Discreet (swapSites first second) :=
  (discreet_edit _).bind fun _ => (discreet_edit _).bind fun _ =>
    (discreet_forM discreet_markEdited).bind fun _ => discreet_recordChange (by decide) _ _ _ _

theorem clashes_of_swapObstacle? {first second : LockPair} {obstacle : String}
    (hobstacle : swapObstacle? first second = some obstacle) :
    Clashes (s!"{name}: " ++ obstacle) := by
  unfold swapObstacle? at hobstacle
  split at hobstacle
  · cases hobstacle
    decide
  · split at hobstacle
    · cases hobstacle
      decide
    · split at hobstacle
      · cases hobstacle
        refine Clashes.append_append (Clashes.append_append ?_ _) _
        exact (Clashes.append_append (by decide) _).append_append _
      · obtain ⟨site, -, rfl⟩ := Option.map_eq_some_iff.mp hobstacle
        refine Clashes.append_append (Clashes.append_append ?_ _) _
        exact (Clashes.append_append (by decide) _).append_append _

theorem discreet_swapPairs (first second : LockPair) : Discreet (swapPairs first second) := by
  unfold swapPairs
  split
  · rename_i hobstacle
    exact discreet_skip (clashes_of_swapObstacle? hobstacle)
  · refine (discreet_isPairUntouched _).bind fun firstUntouched => ?_
    split
    · exact discreet_pure false
    · refine (discreet_isPairUntouched _).bind fun secondUntouched => ?_
      split
      · exact discreet_pure false
      · exact (discreet_swapSites _ _).bind fun _ => (discreet_swapSites _ _).bind fun _ =>
          discreet_pure true

/-- What stands in the way of a shift is told in words. -/
theorem ensures_shiftObstacle? (site : CallSite) (family : LockFamily) :
    Ensures (fun before obstacle? after => Announced before [] after ∧
        ∀ obstacle ∈ obstacle?, Clashes (s!"{name}: " ++ obstacle))
      (shiftObstacle? site family) := by
  unfold shiftObstacle?
  intro workspace
  split
  · exact runs_pure ⟨.of_journal_eq rfl, by
      rintro _ ⟨⟩
      exact (Clashes.append_append (by decide) _).append_append _⟩
  · extract_lets rest
    have hrest : ∀ uses, Runs (rest uses) workspace (fun obstacle? after =>
        Announced workspace [] after ∧ ∀ obstacle ∈ obstacle?, Clashes (s!"{name}: " ++ obstacle))
        fun _ _ => True := by
      intro uses
      simp only [rest]
      split
      · refine runs_pure ⟨.of_journal_eq rfl, ?_⟩
        rintro _ ⟨⟩
        cases family <;> exact (Clashes.append_append (by decide) _).append_append _
      · split
        · refine runs_pure ⟨.of_journal_eq rfl, ?_⟩
          rintro _ ⟨⟩
          exact (Clashes.append_append (by decide) _).append_append _
        · exact runs_pure ⟨.of_journal_eq rfl, by rintro _ ⟨⟩⟩
    split
    · exact hrest 0
    · exact runs_bind_query_of (fun uses _ => hrest uses) fun _ _ => trivial

theorem discreet_shiftSite (site : CallSite) (family : LockFamily) (direction : Int) :
    Discreet (shiftSite site family direction) := by
  unfold shiftSite
  refine Discreet.bind_of (ensures_shiftObstacle? site family) fun obstacle? hobstacle => ?_
  split
  · exact discreet_skip (hobstacle _ rfl)
  · exact discreet_pure false
  · refine (discreet_edit _).bind fun base => (discreet_query _).bind fun step => ?_
    extract_lets rest
    -- with or without a warning about the end of the function
    have hrest : Discreet (rest ()) :=
      (discreet_edit _).bind fun _ => (discreet_edit _).bind fun _ =>
        (discreet_markEdited _).bind fun _ => (discreet_markEdited _).bind fun _ =>
          (discreet_query _).bind fun _ => (discreet_recordChange (by decide) _ _ _ _).bind
            fun _ => discreet_pure true
    split
    · exact (discreet_warn ((((Clashes.append (by decide) _).append _).append _).append _)).bind
        fun _ => hrest
    · exact hrest

theorem discreet_shiftSide (address : PairAddress) (role : LockRole) (site : CallSite)
    (family : LockFamily) (direction : Option Int) :
    Discreet (shiftSide address role site family direction) := by
  unfold shiftSide
  split
  · cases role <;>
      exact discreet_skip ((((Clashes.append (by decide) _).append _).append _).append _)
  · exact discreet_skip (by decide)
  · exact discreet_pure _
  · exact discreet_shiftSite _ _ _

theorem discreet_insertCopy (lock : Handle) (site : CallSite) {role : String}
    (hrole : Clashes (s!"{name}: " ++ role)) (offset : Nat) :
    Discreet (insertCopy lock site role offset) := by
  unfold insertCopy
  refine (discreet_edit _).bind fun ⟨copy, clamped⟩ => ?_
  dsimp only
  split
  · exact (discreet_warn (hrole.append _)).bind fun _ => discreet_pure _
  · exact discreet_pure _

theorem discreet_splitPair (address : PairAddress) (pair : LockPair)
    (unlockOffset lockOffset : Nat) :
    Discreet (splitPair address pair unlockOffset lockOffset) := by
  unfold splitPair
  refine (discreet_query _).bind fun distance => ?_
  split
  · exact discreet_skip ((Clashes.append (by decide) _).append _)
  · exact (discreet_insertCopy _ _ (by decide) _).bind fun _ =>
      (discreet_insertCopy _ _ (by decide) _).bind fun _ => (discreet_markEdited _).bind fun _ =>
        (discreet_markEdited _).bind fun _ => (discreet_recordChange (by decide) _ _ _ _).bind
          fun _ => discreet_pure _

/-! ## Requests

Each request looks up its address before anything else. -/

/-- No pair has this address. -/
def isMissing (index : PairIndex) (addressing : PairAddressing) (address : PairAddress) : Bool :=
  (find? index addressing address).isNone

section Requests

variable {told : List PairAddress} {Answer Request : Type}

/-- An address that names no pair is warned of. -/
theorem announces_resolve_bind {next : Option LockPair → Work Answer}
    (hnone : Discreet (next none)) (hsome : ∀ pair, Announces told (next (some pair))) :
    Announces (if isMissing index addressing address then [address] else told)
      (resolve index addressing address >>= next) := by
  intro state
  unfold isMissing
  cases hfind : find? index addressing address with
  | none =>
      have hwarned : Announced state [address]
          { state with ledger := state.ledger.recordAll [boundsWarning address] } :=
        ⟨_, rfl, by simp [isBoundsWarning_boundsWarning]⟩
      refine runs_bind (runs_of_ok (resolve_of_find?_eq_none hfind) ?_)
      exact (hnone _).weaken fun _ _ hafter => hwarned.trans hafter
  | some pair => exact runs_bind (runs_of_ok (resolve_of_find? hfind) (hsome pair state))

theorem announces_schedule (index : PairIndex) (addressing : PairAddressing)
    (removals : RemovalList) (address : PairAddress) :
    Announces (if isMissing index addressing address then [address] else [])
      (schedule index addressing removals address) := by
  unfold schedule
  refine announces_resolve_bind (discreet_pure removals) fun pair => ?_
  dsimp only
  split
  · refine (discreet_warn ?_).bind fun _ => discreet_pure _
    exact (Clashes.append (by decide) _).append _
  · exact discreet_pure _

theorem announces_swapRequest (index : PairIndex) (plan : LockPlan) (first second : PairAddress) :
    Announces
      (if isMissing index plan.addressing first then [first]
        else if isMissing index plan.addressing second then [second] else [])
      (swapRequest index plan (first, second)) :=
  announces_resolve_bind (discreet_pure false) fun _ =>
    announces_resolve_bind (discreet_pure false) fun _ => discreet_swapPairs _ _

theorem announces_shiftRequest (index : PairIndex) (plan : LockPlan) (address : PairAddress)
    (request : Nat) :
    Announces (if isMissing index plan.addressing address then [address] else [])
      (shiftRequest index plan (address, request)) := by
  refine announces_resolve_bind (discreet_pure false) fun pair => ?_
  refine (discreet_isPairUntouched pair).bind fun untouched => ?_
  split
  · exact discreet_pure false
  · exact (discreet_shiftSide _ _ _ _ _).bind fun _ => (discreet_shiftSide _ _ _ _ _).bind
      fun _ => discreet_pure _

theorem announces_splitRequest (index : PairIndex) (plan : LockPlan) (address : PairAddress)
    (request : Nat) :
    Announces (if isMissing index plan.addressing address then [address] else [])
      (splitRequest index plan (address, request)) := by
  refine announces_resolve_bind (discreet_pure false) fun pair => ?_
  refine (discreet_isPairUntouched pair).bind fun untouched => ?_
  split
  · exact discreet_pure false
  · split
    · exact discreet_splitPair _ _ _ _
    · exact discreet_skip ((Clashes.append (by decide) _).append _)

end Requests

/-! ## Runs

In a swap the addresses come in pairs; in all other modes they are looked up one by one. -/

/-- The addresses that a run looks up and finds missing, in its order.  The second address of a swap
is not looked up if the first is missing. -/
def missed (missing : PairAddress → Bool) (mode : LockMode) (positions : List Nat) :
    List PairAddress :=
  match mode with
  | .swap => (PairAddress.pairsOf positions).flatMap fun (first, second) =>
      if missing first then [first] else if missing second then [second] else []
  | .remove | .shift | .split => (PairAddress.listOf positions).filter missing

theorem flatMap_eq_filter (missing : PairAddress → Bool) (addresses : List PairAddress) :
    (addresses.flatMap fun address => if missing address then [address] else []) =
      addresses.filter missing := by
  induction addresses with
  | nil => rfl
  | cons address rest ih =>
      rw [List.flatMap_cons, List.filter_cons, ih]
      split <;> rfl

theorem announces_remove (index : PairIndex) (plan : LockPlan) :
    Announces (missed (isMissing index plan.addressing) .remove plan.positions)
      (remove index plan) := by
  have hremoved (sites : List (CallSite × LockFamily)) : Discreet (sites.foldlM removeNext []) := by
    have hsites := announces_foldlM discreet_removeNext sites []
    rwa [List.flatMap_eq_nil_iff.mpr fun _ _ => rfl] at hsites
  rw [remove_eq, missed, ← flatMap_eq_filter, ← List.append_nil (List.flatMap _ _)]
  refine (announces_foldlM (announces_schedule index plan.addressing) _ _).bind fun removals => ?_
  exact (hremoved removals.sites).bind fun removed =>
    (discreet_forM (discreet_recordRemoved removed)).bind fun _ => discreet_pure _

theorem announces_swap (index : PairIndex) (plan : LockPlan) :
    Announces (missed (isMissing index plan.addressing) .swap plan.positions)
      (swap index plan) := by
  rw [swap_eq]
  exact announces_anyOf (fun (first, second) => announces_swapRequest index plan first second) _

theorem announces_anyListed {missing : PairAddress → Bool} {handle : PairAddress × Nat → Work Bool}
    (hhandle : ∀ address request,
      Announces (if missing address then [address] else []) (handle (address, request)))
    (addresses : List PairAddress) :
    Announces (addresses.filter missing) (anyOf addresses.zipIdx handle) := by
  have haddresses := List.zipIdx_map_fst 0 addresses
  rw [← flatMap_eq_filter, ← congrArg (List.flatMap _) haddresses, List.flatMap_map]
  exact announces_anyOf (fun (address, request) => hhandle address request) _

theorem announces_shift (index : PairIndex) (plan : LockPlan) :
    Announces (missed (isMissing index plan.addressing) .shift plan.positions)
      (shift index plan) := by
  rw [shift_eq]
  exact announces_anyListed (announces_shiftRequest index plan) _

theorem announces_split (index : PairIndex) (plan : LockPlan) :
    Announces (missed (isMissing index plan.addressing) .split plan.positions)
      (split index plan) := by
  rw [split_eq]
  exact announces_anyListed (announces_splitRequest index plan) _

/-- A run that is to change something warns of the missing addresses, in its order, and says no more
about bounds. -/
theorem runs_run_announced {plan : LockPlan} {mode : LockMode} (hmode : plan.mode = some mode)
    (consistent : workspace.program.Consistent)
    (calleesExist : workspace.program.CalleesExist) (oracle : AliasOracle) :
    Runs (run plan oracle) workspace
      (fun _ after => Announced workspace
        (missed (isMissing (.ofProgram oracle workspace.program) plan.addressing) mode
          plan.positions) after)
      fun _ _ => True := by
  have hnoted : Announced workspace [] (PairIndex.noted oracle workspace) :=
    ⟨_, rfl, filter_isBoundsWarning_notes oracle workspace.program⟩
  have hafter {work : Work Bool} {told : List PairAddress} (hwork : Announces told work) :
      Runs work (PairIndex.noted oracle workspace)
        (fun _ after => Announced workspace told after) fun _ _ => True :=
    (hwork _).weaken fun _ _ htold => hnoted.trans htold
  unfold run
  rw [hmode]
  -- the notes on the pairs come first
  refine runs_bind (runs_of_ok (PairIndex.build_apply consistent calleesExist oracle) ?_)
  cases mode with
  | remove => exact hafter (announces_remove _ plan)
  | swap => exact hafter (announces_swap _ plan)
  | shift => exact hafter (announces_shift _ plan)
  | split => exact hafter (announces_split _ plan)

end LockOperator

end ConcurrencyFaults

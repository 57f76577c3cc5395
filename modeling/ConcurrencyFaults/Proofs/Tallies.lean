import ConcurrencyFaults.Journal.Tally
import ConcurrencyFaults.Proofs.NamedFunctions
import Mathlib.Algebra.GroupWithZero.Nat
import Mathlib.Data.List.Perm.Subperm

/-!
# Nothing is lost or counted twice

The kinds of entries are sorted three times: into changes and others, into the groups of a tally,
and into the parts of a summary.  The groups and the parts both come to the number of changes
(`Tally.counts_every_entry`).

## Strategy

* All three count entries by their kind, and counting by kinds that are listed once each counts
  every entry of a listed kind once (`Journal.sum_count`, by induction on the kinds).
* A summary is a text, and what it says is read back from it: `numbersIn` finds the numbers that are
  written in a text, whatever stands around them.  The words of the kinds have no digits, so these
  are just the counts (`numbersFrom_intercalate`).
* The counters of two journals in one are added up, except that a function which both of them name
  is one function (`Tally.Combines`).
-/

namespace ConcurrencyFaults

/-! ## Numbers in a text

Reading goes from the left and keeps the number that has been begun.  A digit carries it on, and
anything else closes it. -/

/-- The numbers in a text, the first of which begins with the digits that were already read. -/
def numbersFrom (read? : Option Nat) : List Char → List Nat
  | [] => read?.toList
  | char :: rest =>
      if char.isDigit then numbersFrom (some (10 * read?.getD 0 + (char.toNat - '0'.toNat))) rest
      else read?.toList ++ numbersFrom none rest

/-- The numbers that are written in a text. -/
def numbersIn (text : String) : List Nat := numbersFrom none text.toList

theorem numbersFrom_digits {digits : List Char} (hdigits : ∀ char ∈ digits, char.isDigit = true)
    (read : Nat) (rest : List Char) :
    numbersFrom (some read) (digits ++ rest) =
      numbersFrom (some (Nat.ofDigitChars 10 digits read)) rest := by
  induction digits generalizing read with
  | nil => rfl
  | cons char digits ih =>
      rw [List.cons_append, numbersFrom, if_pos (hdigits char (List.mem_cons_self ..)),
        ih fun later hlater => hdigits later (List.mem_cons_of_mem _ hlater),
        Nat.ofDigitChars_cons]
      rfl

/-- A number is read back from its digits. -/
theorem numbersFrom_repr (number : Nat) (rest : List Char) :
    numbersFrom none (number.repr.toList ++ rest) = numbersFrom (some number) rest := by
  have hdigits : ∀ char ∈ Nat.toDigits 10 number, char.isDigit = true := fun char hchar =>
    Nat.isDigit_of_mem_toDigits (by decide) (by decide) hchar
  have hvalue : Nat.ofDigitChars 10 (Nat.toDigits 10 number) 0 = number :=
    Nat.ofDigitChars_ten_toDigits
  rw [Nat.toList_repr]
  -- the first digit begins the number, the others carry it on
  cases hlist : Nat.toDigits 10 number with
  | nil => exact absurd hlist Nat.toDigits_ne_nil
  | cons char digits =>
      rw [hlist] at hdigits hvalue
      rw [Nat.ofDigitChars_cons] at hvalue
      rw [List.cons_append, numbersFrom, if_pos (hdigits char (List.mem_cons_self ..)),
        numbersFrom_digits fun later hlater => hdigits later (List.mem_cons_of_mem _ hlater)]
      exact congrArg (fun number => numbersFrom (some number) rest) hvalue

/-- Words without digits. -/
def digitless (words : List Char) : Bool := words.all fun char => !char.isDigit

theorem digitless_cons_iff {char : Char} {words : List Char} :
    digitless (char :: words) = true ↔ char.isDigit = false ∧ digitless words = true := by
  simp [digitless]

theorem numbersFrom_words {words : List Char} (hwords : digitless words = true)
    (rest : List Char) : numbersFrom none (words ++ rest) = numbersFrom none rest := by
  induction words with
  | nil => rfl
  | cons char words ih =>
      obtain ⟨hchar, hlater⟩ := digitless_cons_iff.mp hwords
      rw [List.cons_append, numbersFrom, hchar]
      exact ih hlater

theorem numbersFrom_some_words {words : List Char} (hwords : digitless words = true)
    (hne : words ≠ []) (read : Nat) (rest : List Char) :
    numbersFrom (some read) (words ++ rest) = read :: numbersFrom none rest := by
  cases words with
  | nil => exact absurd rfl hne
  | cons char words =>
      obtain ⟨hchar, hlater⟩ := digitless_cons_iff.mp hwords
      rw [List.cons_append, numbersFrom, hchar]
      exact congrArg (read :: ·) (numbersFrom_words hlater rest)

/-- A list of numbers, each with words behind it. -/
theorem numbersFrom_intercalate {Item : Type} (number : Item → Nat) {words : Item → List Char}
    {separator : List Char} (hseparator : digitless separator = true)
    (hwords : ∀ item, digitless (words item) = true) (hne : ∀ item, words item ≠ [])
    (items : List Item) :
    numbersFrom none (separator.intercalate
      (items.map fun item => (number item).repr.toList ++ words item)) = items.map number := by
  induction items with
  | nil => rfl
  | cons item rest ih =>
      -- a separator stands between items only, so the last one has none
      cases rest with
      | nil =>
          have hlast := numbersFrom_some_words (hwords item) (hne item) (number item) []
          rw [List.append_nil] at hlast
          simp only [List.map_cons, List.map_nil, List.intercalate_singleton]
          rw [numbersFrom_repr, hlast]
          rfl
      | cons next rest =>
          simp only [List.map_cons, List.intercalate_cons_cons, List.append_assoc] at ih ⊢
          rw [numbersFrom_repr, numbersFrom_some_words (hwords item) (hne item),
            numbersFrom_words hseparator, ih]

example : numbersIn "12 call swapped, 1 code inserted" = [12, 1] := by decide

/-! ## Counting by kinds

An entry has one kind, so entries of different kinds are different entries. -/

namespace EntryKind

theorem mem_all (kind : EntryKind) : kind ∈ all := by cases kind <;> decide

theorem nodup_all : all.Nodup := by decide

theorem digitless_text (kind : EntryKind) : digitless kind.text.toList = true := by
  cases kind <;> decide

end EntryKind

theorem countP_or_of_disjoint {Item : Type} {first second : Item → Bool}
    (hdisjoint : ∀ item, first item = true → second item = false) (items : List Item) :
    items.countP (fun item => first item || second item) =
      items.countP first + items.countP second := by
  induction items with
  | nil => rfl
  | cons item rest ih =>
      rw [List.countP_cons, List.countP_cons, List.countP_cons, ih]
      cases hfirst : first item with
      | false => simp [Nat.add_assoc]
      | true =>
          simp [hdisjoint item hfirst]
          omega

namespace Journal

variable {kinds : List EntryKind}

/-- Counted by kinds that are listed once each, every entry of a listed kind is counted once. -/
theorem sum_count (hnodup : kinds.Nodup) (journal : Journal) :
    (kinds.map journal.count).sum =
      journal.entries.countP fun entry => kinds.contains entry.kind := by
  induction kinds with
  | nil => simp
  | cons kind rest ih =>
      rw [List.nodup_cons] at hnodup
      have hdisjoint : ∀ entry : Entry, (entry.kind == kind) = true →
          rest.contains entry.kind = false := by
        intro entry hkind
        simpa [eq_of_beq hkind] using hnodup.1
      rw [List.map_cons, List.sum_cons, ih hnodup.2]
      simp only [List.contains_cons]
      exact (countP_or_of_disjoint hdisjoint journal.entries).symm

/-- Counted by the kinds of changes, every change is counted once. -/
theorem sum_count_transformations (journal : Journal) :
    ((EntryKind.all.filter EntryKind.isTransformation).map journal.count).sum =
      journal.transformations.length := by
  rw [sum_count (EntryKind.nodup_all.filter _), transformations, ← List.countP_eq_length_filter]
  refine List.countP_congr fun entry _ => ?_
  rw [List.contains_iff_mem, List.mem_filter]
  exact and_iff_right (EntryKind.mem_all entry.kind)

theorem count_merge (journal other : Journal) (kind : EntryKind) :
    (journal.merge other).count kind = journal.count kind + other.count kind :=
  List.countP_append

/-! ## Summaries

A summary lists the kinds that occur; those that do not would have added nothing. -/

theorem sum_filter_pos (counts : List (EntryKind × Nat)) :
    ((counts.filter fun counted => counted.2 > 0).map Prod.snd).sum =
      (counts.map Prod.snd).sum := by
  induction counts with
  | nil => rfl
  | cons counted rest ih =>
      by_cases hzero : counted.2 = 0
      · simpa [hzero] using ih
      · simpa [Nat.pos_of_ne_zero hzero] using ih

/-- The kinds of change that occur, each with the number of its entries, add up to the changes. -/
theorem sum_countByKind (journal : Journal) :
    ((journal.countByKind.filter fun counted => counted.1.isTransformation).map Prod.snd).sum =
      journal.transformations.length := by
  let counts := EntryKind.all.map fun kind => (kind, journal.count kind)
  calc ((journal.countByKind.filter fun counted => counted.1.isTransformation).map Prod.snd).sum
    _ = (((counts.filter fun counted => counted.1.isTransformation).filter
          fun counted => counted.2 > 0).map Prod.snd).sum := by
      rw [countByKind, List.filter_comm]
    _ = ((counts.filter fun counted => counted.1.isTransformation).map Prod.snd).sum :=
      sum_filter_pos _
    _ = ((EntryKind.all.filter EntryKind.isTransformation).map journal.count).sum := by
      rw [List.filter_map, List.map_map]
      rfl
    _ = journal.transformations.length := journal.sum_count_transformations

/-- Just if there is no change, no kind of change occurs. -/
theorem countByKind_eq_nil_iff (journal : Journal) :
    (journal.countByKind.filter fun counted => counted.1.isTransformation) = [] ↔
      journal.transformations = [] := by
  have hsum := journal.sum_countByKind
  constructor
  · intro hcounts
    rw [hcounts] at hsum
    exact List.length_eq_zero_iff.mp hsum.symm
  · intro hnone
    rw [hnone, List.length_nil, List.sum_eq_zero_iff_forall_eq_nat] at hsum
    rw [List.eq_nil_iff_forall_not_mem]
    intro counted hcounted
    have hpositive : 0 < counted.2 :=
      of_decide_eq_true (List.mem_filter.mp (List.mem_filter.mp hcounted).1).2
    exact hpositive.ne' (hsum counted.2 (List.mem_map_of_mem hcounted))

/-- Of counted kinds in words, the numbers are the counts. -/
theorem numbersIn_counts (counts : List (EntryKind × Nat)) :
    numbersIn (", ".intercalate (counts.map fun counted =>
      s!"{counted.2} " ++ counted.1.text)) = counts.map Prod.snd := by
  have hwords : ∀ counted : EntryKind × Nat, digitless (' ' :: counted.1.text.toList) = true :=
    fun counted => digitless_cons_iff.mpr ⟨by decide, counted.1.digitless_text⟩
  have hpart : ∀ counted : EntryKind × Nat, (s!"{counted.2} " ++ counted.1.text).toList =
      counted.2.repr.toList ++ ' ' :: counted.1.text.toList := by
    intro counted
    show (counted.2.repr ++ " " ++ counted.1.text).toList = _
    simp
  unfold numbersIn
  rw [String.toList_intercalate, List.map_map]
  simp only [Function.comp_def, hpart]
  exact numbersFrom_intercalate Prod.snd (by decide) hwords (by simp) counts

/-- A summary has one number for each kind of change that occurs, and without a change the number of
entries. -/
theorem numbersIn_summary (journal : Journal) :
    numbersIn journal.summary =
      if journal.isEmpty then []
      else if journal.transformations = [] then [journal.size]
      else (journal.countByKind.filter fun counted => counted.1.isTransformation).map Prod.snd := by
  unfold summary
  split
  case isTrue => decide
  case isFalse =>
    split
    case h_1 hcounts =>
      have hevents : numbersFrom (some journal.size) (" events".toList ++ []) = [journal.size] :=
        numbersFrom_some_words (by decide) (by decide) journal.size []
      rw [List.append_nil] at hevents
      rw [if_pos (journal.countByKind_eq_nil_iff.mp hcounts)]
      show numbersFrom none (journal.size.repr ++ " events").toList = _
      rw [String.toList_append, numbersFrom_repr, hevents]
    case h_2 hcounts =>
      rw [if_neg fun hnone => hcounts (journal.countByKind_eq_nil_iff.mpr hnone)]
      exact numbersIn_counts _

/-- The numbers in a summary add up to the changes, or failing those to the entries. -/
theorem sum_numbersIn_summary (journal : Journal) :
    (numbersIn journal.summary).sum =
      if journal.transformations = [] then journal.size else journal.transformations.length := by
  rw [numbersIn_summary]
  split
  case isTrue hempty =>
    have hnone : journal.entries = [] := List.isEmpty_iff.mp hempty
    simp [size, transformations, hnone]
  case isFalse =>
    split
    · exact List.sum_singleton
    · exact journal.sum_countByKind

/-! ## Functions

The functions that a journal names as changed are listed without repetition, so their number can be
compared by inclusion. -/

theorem nodup_changedFunctions (journal : Journal) : journal.changedFunctions.Nodup :=
  nodup_eraseDups _

theorem mem_changedFunctions_merge_iff {journal other : Journal} {function : FunctionId} :
    function ∈ (journal.merge other).changedFunctions ↔
      function ∈ journal.changedFunctions ∨ function ∈ other.changedFunctions := by
  simp only [mem_changedFunctions_iff, transformations, merge, extend, List.filter_append,
    List.mem_append, or_and_right, exists_or]

end Journal

/-! ## Tallies

Each counter is a sum of counts of kinds, the number of functions apart. -/

namespace Tally

/-- The tally of two journals in one: every counter is the sum, but of the functions those that both
journals name may be counted once. -/
structure Combines (first second whole : Tally) : Prop where
  pairsFound : whole.pairsFound = first.pairsFound + second.pairsFound
  removed : whole.removed = first.removed + second.removed
  altered : whole.altered = first.altered + second.altered
  splits : whole.splits = first.splits + second.splits
  attributes : whole.attributes = first.attributes + second.attributes
  insertions : whole.insertions = first.insertions + second.insertions
  warnings : whole.warnings = first.warnings + second.warnings
  errors : whole.errors = first.errors + second.errors
  max_le_functionsChanged :
    max first.functionsChanged second.functionsChanged ≤ whole.functionsChanged
  functionsChanged_le : whole.functionsChanged ≤ first.functionsChanged + second.functionsChanged

theorem combines_merge (journal other : Journal) :
    Combines (ofJournal journal) (ofJournal other) (ofJournal (journal.merge other)) where
  pairsFound := journal.count_merge other _
  removed := by
    simp only [ofJournal, Journal.count_merge]
    omega
  altered := by
    simp only [ofJournal, Journal.count_merge]
    omega
  splits := journal.count_merge other _
  attributes := by
    simp only [ofJournal, Journal.count_merge]
    omega
  insertions := journal.count_merge other _
  warnings := journal.count_merge other _
  errors := journal.count_merge other _
  max_le_functionsChanged := by
    refine Nat.max_le.mpr ⟨?_, ?_⟩
    · exact (List.Nodup.subperm journal.nodup_changedFunctions fun function hnamed =>
        Journal.mem_changedFunctions_merge_iff.mpr (.inl hnamed)).length_le
    · exact (List.Nodup.subperm other.nodup_changedFunctions fun function hnamed =>
        Journal.mem_changedFunctions_merge_iff.mpr (.inr hnamed)).length_le
  functionsChanged_le := by
    have hsubset : (journal.merge other).changedFunctions ⊆
        journal.changedFunctions ++ other.changedFunctions := fun function hnamed =>
      List.mem_append.mpr (Journal.mem_changedFunctions_merge_iff.mp hnamed)
    have hbound :=
      (List.Nodup.subperm (journal.merge other).nodup_changedFunctions hsubset).length_le
    rwa [List.length_append] at hbound

/-- Every change is in one group of the tally. -/
theorem sum_groups (journal : Journal) :
    (ofJournal journal).removed + (ofJournal journal).altered + (ofJournal journal).splits +
        (ofJournal journal).attributes + (ofJournal journal).insertions =
      journal.transformations.length := by
  -- the groups share out just the kinds that are changes
  have hkinds : EntryKind.all.filter EntryKind.isTransformation =
      [.pairRemoved, .callRemoved, .instructionRemoved, .callReplaced, .callSwapped, .callShifted,
        .pairSplit, .orderingChanged, .scopeToggled, .atomicityRemoved, .volatileRemoved,
        .argumentChanged, .codeInserted] := by decide
  rw [← journal.sum_count_transformations, hkinds]
  simp only [ofJournal, List.map_cons, List.map_nil, List.sum_cons, List.sum_nil]
  omega

/-- Nothing is lost and nothing is counted twice: the groups of a tally come to the number of
changes, and so do the numbers that the summary is written with as soon as there is a change.  A
journal that takes in another one has the entries of both in order, and its tally is put together
from theirs. -/
theorem counts_every_entry (journal other : Journal) :
    (ofJournal journal).removed + (ofJournal journal).altered + (ofJournal journal).splits +
        (ofJournal journal).attributes + (ofJournal journal).insertions =
      journal.transformations.length ∧
    (numbersIn journal.summary).sum =
      (if journal.transformations = [] then journal.size else journal.transformations.length) ∧
    (journal.merge other).entries = journal.entries ++ other.entries ∧
    Combines (ofJournal journal) (ofJournal other) (ofJournal (journal.merge other)) :=
  ⟨sum_groups journal, journal.sum_numbersIn_summary, rfl, combines_merge journal other⟩

end Tally

end ConcurrencyFaults

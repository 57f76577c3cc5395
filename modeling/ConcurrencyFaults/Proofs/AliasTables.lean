import ConcurrencyFaults.Aliasing
import Mathlib.Data.Finset.Card
import Mathlib.Data.Sym.Sym2

/-!
# Tables of alias answers

A table stores each answer for the two orders of its operands.  Read without regard to order, it is
the history of its insertions: the last answer that was given for two operands is the one that
counts (`AliasHistory.last?`), and the number of stored answers follows from the pairs that answers
were given for (`AliasHistory.directions`).  One insertion carries all of this on, whichever way
around its operands were named before (`AliasTable.Follows.insert`).
-/

namespace ConcurrencyFaults

/-- An answer that is given for two operands. -/
structure AliasInsertion where
  first : Operand
  second : Operand
  answer : AliasAnswer
deriving DecidableEq, Repr

/-- The operands without their order. -/
def AliasInsertion.pair (insertion : AliasInsertion) : Sym2 Operand :=
  s(insertion.first, insertion.second)

/-- Insertions in the order in which they were made. -/
abbrev AliasHistory := List AliasInsertion

namespace AliasHistory

/-- The last answer that was given for a pair. -/
def last? (history : AliasHistory) (pair : Sym2 Operand) : Option AliasAnswer :=
  (history.filter (·.pair = pair)).getLast?.map AliasInsertion.answer

/-- The pairs that answers were given for. -/
def pairs (history : AliasHistory) : Finset (Sym2 Operand) :=
  (history.map AliasInsertion.pair).toFinset

/-- A pair of different operands has two orders, and a pair of an operand with itself has one. -/
def directions (pairs : Finset (Sym2 Operand)) : Nat :=
  2 * (pairs.filter (¬ ·.IsDiag)).card + (pairs.filter Sym2.IsDiag).card

variable {history : AliasHistory} {insertion : AliasInsertion} {pair : Sym2 Operand}

theorem last?_concat :
    last? (history ++ [insertion]) pair =
      if insertion.pair = pair then some insertion.answer else last? history pair := by
  unfold last?
  rw [List.filter_append]
  by_cases hpair : insertion.pair = pair
  · simp [hpair]
  · simp [hpair]

theorem pairs_concat : pairs (history ++ [insertion]) = insert insertion.pair (pairs history) := by
  ext pair
  simp [pairs]

/-- A pair has a last answer exactly if one was given for it. -/
theorem isSome_last?_iff : (last? history pair).isSome ↔ pair ∈ pairs history := by
  rw [last?, Option.isSome_map, pairs, List.mem_toFinset, List.mem_map]
  constructor
  · intro hsome
    obtain ⟨insertion, hlast⟩ := Option.isSome_iff_exists.mp hsome
    have hmem := List.mem_of_getLast? hlast
    rw [List.mem_filter, decide_eq_true_eq] at hmem
    exact ⟨insertion, hmem.1, hmem.2⟩
  · rintro ⟨insertion, hmem, hpair⟩
    rw [Option.isSome_iff_ne_none, Ne, List.getLast?_eq_none_iff]
    exact List.ne_nil_of_mem (List.mem_filter.mpr ⟨hmem, decide_eq_true hpair⟩)

variable {pairs : Finset (Sym2 Operand)} {first second : Operand}

theorem directions_insert (hnew : s(first, second) ∉ pairs) :
    directions (insert s(first, second) pairs) =
      directions pairs + if first = second then 1 else 2 := by
  have houtside : ∀ (property : Sym2 Operand → Prop) [DecidablePred property],
      s(first, second) ∉ pairs.filter property := by
    intro property _ hmem
    exact hnew (Finset.mem_filter.mp hmem).1
  unfold directions
  rw [Finset.filter_insert, Finset.filter_insert]
  by_cases hsame : first = second
  · rw [if_neg (by simpa using hsame), if_pos (Sym2.mk_isDiag_iff.mpr hsame), if_pos hsame,
      Finset.card_insert_of_notMem (houtside _)]
    omega
  · rw [if_pos (by simpa using hsame), if_neg (by simpa using hsame), if_neg hsame,
      Finset.card_insert_of_notMem (houtside _)]
    omega

end AliasHistory

namespace AliasTable

variable {table : AliasTable} {first second : Operand} {answer : AliasAnswer}
  {history : AliasHistory}

/-! ## One direction

The table itself knows nothing of pairs.  It maps pairs of operands in a given order to answers, and
forgets an earlier answer for the same key.
-/

/-- The directed pairs that have an answer. -/
def keys (table : AliasTable) : List (Operand × Operand) := table.answers.map Prod.fst

theorem isSome_lookup_iff (key : Operand × Operand) :
    (table.answers.lookup key).isSome ↔ key ∈ table.keys := by
  rw [List.lookup_isSome_iff, keys, List.mem_map]
  constructor
  · rintro ⟨entry, hmem, hkey⟩
    exact ⟨entry, hmem, (eq_of_beq hkey).symm⟩
  · rintro ⟨entry, hmem, rfl⟩
    exact ⟨entry, hmem, beq_self_eq_true _⟩

/-- Dropping the answer for one key leaves those for the others. -/
theorem lookup_filter_ne {answers : List ((Operand × Operand) × AliasAnswer)}
    {key other : Operand × Operand} (hne : other ≠ key) :
    (answers.filter (·.1 != key)).lookup other = answers.lookup other := by
  induction answers with
  | nil => rfl
  | cons entry rest ih =>
      by_cases hkey : entry.1 = key
      · have hother : (other == entry.1) = false := beq_eq_false_iff_ne.mpr (hkey ▸ hne)
        rw [List.filter_cons_of_neg (by simpa using hkey), ih, List.lookup_cons, hother]
      · rw [List.filter_cons_of_pos (by simpa using hkey), List.lookup_cons, List.lookup_cons, ih]

theorem lookup_insertDirected (key : Operand × Operand) :
    (table.insertDirected first second answer).answers.lookup key =
      if key = (first, second) then some answer else table.answers.lookup key := by
  unfold insertDirected
  rw [List.lookup_cons]
  by_cases hkey : key = (first, second)
  · rw [if_pos hkey, beq_iff_eq.mpr hkey]
  · rw [if_neg hkey, beq_eq_false_iff_ne.mpr hkey]
    exact lookup_filter_ne hkey

theorem keys_insertDirected :
    (table.insertDirected first second answer).keys =
      (first, second) :: table.keys.filter (· != (first, second)) := by
  simp only [keys, insertDirected, List.map_cons, List.filter_map]
  rfl

theorem nodup_keys_insertDirected (hnodup : table.keys.Nodup) :
    (table.insertDirected first second answer).keys.Nodup := by
  rw [keys_insertDirected]
  exact List.nodup_cons.mpr ⟨by simp, hnodup.filter _⟩

/-- An answer that is there already is overwritten. -/
theorem size_insertDirected (hnodup : table.keys.Nodup) :
    (table.insertDirected first second answer).size =
      table.size + if (first, second) ∈ table.keys then 0 else 1 := by
  have hkeys : ∀ table : AliasTable, table.size = table.keys.length := fun table =>
    (List.length_map ..).symm
  -- without repetitions, at most one key is filtered away
  rw [hkeys, hkeys, keys_insertDirected, List.length_cons, ← hnodup.erase_eq_filter]
  by_cases hmem : (first, second) ∈ table.keys
  · have hpos := List.length_pos_of_mem hmem
    rw [if_pos hmem, List.length_erase_of_mem hmem]
    omega
  · rw [if_neg hmem, List.erase_of_not_mem hmem]

/-! ## Both directions

An insertion writes both orders of its operands.  If the two operands are equal this is one key, and
the second write finds it occupied by the first.
-/

/-- The table after some insertions. -/
def insertAll (table : AliasTable) (history : AliasHistory) : AliasTable :=
  history.foldl (fun table insertion =>
    table.insert insertion.first insertion.second insertion.answer) table

/-- The table says for each direction what was last said for the pair, and stores nothing else. -/
structure Follows (table : AliasTable) (history : AliasHistory) : Prop where
  lookup_eq : ∀ first second,
    table.answers.lookup (first, second) = history.last? s(first, second)
  nodup_keys : table.keys.Nodup
  size_eq : table.size = AliasHistory.directions history.pairs

namespace Follows

variable (follows : table.Follows history)
include follows

theorem mem_keys_iff : (first, second) ∈ table.keys ↔ s(first, second) ∈ history.pairs := by
  rw [← isSome_lookup_iff, follows.lookup_eq, AliasHistory.isSome_last?_iff]

/-- One more answer for a pair adds its directions, if it is the first. -/
theorem size_insert : (table.insert first second answer).size =
    AliasHistory.directions (Insert.insert s(first, second) history.pairs) := by
  have hback : (second, first) ∈ table.keys ↔ s(first, second) ∈ history.pairs := by
    rw [follows.mem_keys_iff, Sym2.eq_swap]
  rw [AliasTable.insert, size_insertDirected (nodup_keys_insertDirected follows.nodup_keys),
    size_insertDirected follows.nodup_keys, keys_insertDirected, follows.size_eq]
  by_cases hknown : s(first, second) ∈ history.pairs
  · have hmem : (first, second) ∈ (second, first) :: table.keys.filter (· != (second, first)) := by
      by_cases hsame : first = second
      · exact hsame ▸ List.mem_cons_self ..
      · refine List.mem_cons_of_mem _ (List.mem_filter.mpr ⟨follows.mem_keys_iff.mpr hknown, ?_⟩)
        simp [hsame]
    rw [if_pos (hback.mpr hknown), if_pos hmem, Finset.insert_eq_of_mem hknown, Nat.add_zero]
  · -- a new pair takes up two entries, or one if its operands are equal
    rw [if_neg (hback.not.mpr hknown), AliasHistory.directions_insert hknown]
    by_cases hsame : first = second
    · rw [if_pos (hsame ▸ List.mem_cons_self ..), if_pos hsame]
    · have hnot : (first, second) ∉
          (second, first) :: table.keys.filter (· != (second, first)) := by
        rw [List.mem_cons, not_or]
        exact ⟨fun heq => hsame (Prod.mk.inj heq).1, fun hmem =>
          hknown (follows.mem_keys_iff.mp (List.mem_of_mem_filter hmem))⟩
      rw [if_neg hnot, if_neg hsame]

theorem insert (insertion : AliasInsertion) :
    (table.insert insertion.first insertion.second insertion.answer).Follows
      (history ++ [insertion]) where
  lookup_eq := by
    intro first second
    rw [AliasTable.insert, lookup_insertDirected, lookup_insertDirected, follows.lookup_eq,
      AliasHistory.last?_concat, AliasInsertion.pair]
    by_cases hpair : s(insertion.first, insertion.second) = s(first, second)
    · rw [if_pos hpair]
      rcases Sym2.eq_iff.mp hpair with ⟨rfl, rfl⟩ | ⟨rfl, rfl⟩
      · rw [if_pos rfl]
      · rw [if_pos rfl, ite_self]
    · rw [if_neg hpair, if_neg, if_neg]
      · rintro ⟨rfl, rfl⟩
        exact hpair Sym2.eq_swap
      · rintro ⟨rfl, rfl⟩
        exact hpair rfl
  nodup_keys := nodup_keys_insertDirected (nodup_keys_insertDirected follows.nodup_keys)
  size_eq := by rw [AliasHistory.pairs_concat, follows.size_insert, AliasInsertion.pair]

end Follows

variable {fallback : AliasAnswer} {identity : Bool}

theorem follows_empty : AliasTable.Follows { fallback, identity } [] := by
  refine ⟨?_, ?_, ?_⟩
  · intro first second
    rfl
  · exact List.nodup_nil
  · rfl

/-- A table that starts out empty follows the insertions. -/
theorem follows_insertAll (history : AliasHistory) :
    (insertAll { fallback, identity } history).Follows history := by
  -- insertions are added at the end of the history, so the induction runs from its end
  induction history using List.reverseRecOn with
  | nil => exact follows_empty
  | append_singleton earlier insertion ih =>
      rw [insertAll, List.foldl_concat]
      exact ih.insert insertion

theorem settings_insertAll (table : AliasTable) (history : AliasHistory) :
    (table.insertAll history).fallback = table.fallback ∧
      (table.insertAll history).identity = table.identity := by
  induction history generalizing table with
  | nil => exact ⟨rfl, rfl⟩
  | cons insertion rest ih =>
      exact ih (table.insert insertion.first insertion.second insertion.answer)

/-- Whatever is inserted in whatever order, a table does not care about the order of two operands.
It gives the last answer that was inserted for them; without one, equal operands alias if the table
identifies them, and all else is answered by the fallback.  It stores two answers for each pair of
different operands and one for each operand that was paired with itself. -/
theorem answers_insertAll (fallback : AliasAnswer) (identity : Bool) (history : AliasHistory) :
    let table := insertAll { fallback, identity } history
    (∀ first second, table.oracle first second = table.oracle second first) ∧
    (∀ first second, table.oracle first second =
      (history.last? s(first, second)).getD
        (if identity = true ∧ first = second then .must else fallback)) ∧
    table.size = 2 * (history.pairs.filter (¬ ·.IsDiag)).card +
      (history.pairs.filter Sym2.IsDiag).card := by
  intro table
  have follows : table.Follows history := follows_insertAll history
  have hanswer : ∀ first second, table.oracle first second =
      (history.last? s(first, second)).getD
        (if identity = true ∧ first = second then .must else fallback) := by
    intro first second
    obtain ⟨hfallback, hidentity⟩ := settings_insertAll { fallback, identity } history
    rw [oracle, follows.lookup_eq]
    cases history.last? s(first, second) with
    | some answer => rfl
    | none =>
        rw [show table.identity = identity from hidentity,
          show table.fallback = fallback from hfallback, Option.getD_none]
        simp
  refine ⟨?_, hanswer, follows.size_eq⟩
  intro first second
  calc table.oracle first second
    _ = (history.last? s(first, second)).getD
          (if identity = true ∧ first = second then .must else fallback) := hanswer first second
    _ = (history.last? s(second, first)).getD
          (if identity = true ∧ second = first then .must else fallback) := by
      rw [Sym2.eq_swap, if_congr (and_congr_right' eq_comm) rfl rfl]
    _ = table.oracle second first := (hanswer second first).symm

/-- The second answer for a pair takes the place of the first, whichever way around it is given. -/
example :
    let table := insertAll {} [⟨.global "m", .parameter 0, .never⟩,
      ⟨.parameter 0, .global "m", .must⟩, ⟨.global "m", .global "m", .may⟩]
    (table.oracle (.global "m") (.parameter 0), table.oracle (.global "m") (.global "m"),
      table.size) = (.must, .may, 3) := by decide

end AliasTable

end ConcurrencyFaults

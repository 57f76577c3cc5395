import ConcurrencyFaults.Proofs.Likeness
import ConcurrencyFaults.Proofs.Locking.Removal

/-!
# Lock runs take no notice of words

What is done to a pair depends on the program, on the marks and on the pair itself.  The address by
which a request named the pair is used for messages alone, so what is done under two addresses is
alike.

Steps that get no address are compared with themselves (`Wordless`), steps that get one with the
same step under another (`ActAlike Eq`).  The relation is kept by `bind`, so each proof follows the
statements of its step; the journal is looked at only where an entry is recorded.
-/

namespace ConcurrencyFaults

namespace LockOperator

open Work

theorem wordless_isPairUntouched (pair : LockPair) : Wordless (isPairUntouched pair) := by
  refine (wordless_isUntouched name pair.lock).bind fun untouched => ?_
  cases untouched with
  | true => exact wordless_isUntouched name pair.unlock
  | false => exact wordless_pure false

/-! ## Removing -/

theorem wordless_removeSite (site : CallSite) (family : LockFamily) :
    Wordless (removeSite site family) := by
  refine (wordless_isUntouched name site).bind fun untouched => ?_
  cases untouched with
  | false => exact wordless_pure false
  | true =>
      have hrest : ∀ uses, Wordless (removeUnread site family uses) := by
        intro uses
        unfold removeUnread
        split
        · exact wordless_skip _ _
        · exact (wordless_edit _).bind fun _ =>
            (wordless_markEdited _).bind fun _ => wordless_pure true
      rw [if_neg (by simp)]
      split
      · exact hrest 0
      · exact (wordless_query _).bind hrest

theorem actAlike_recordRemoved (removed : List Handle)
    {requested named : PairAddress × LockPair} (hsame : requested.2 = named.2) :
    ActAlike Eq (recordRemoved removed requested) (recordRemoved removed named) := by
  unfold recordRemoved
  rw [hsame]
  split
  · exact actAlike_record rfl
  · exact wordless_pure ()

/-! ## Swapping -/

theorem wordless_swapSites (first second : CallSite) : Wordless (swapSites first second) := by
  refine (wordless_edit _).bind fun newFirst => (wordless_edit _).bind fun newSecond => ?_
  exact (Wordless.forM wordless_markEdited).bind fun _ => actAlike_recordChange _ _ _ _ _ _

theorem wordless_swapPairs (first second : LockPair) : Wordless (swapPairs first second) := by
  unfold swapPairs
  cases swapObstacle? first second with
  | some obstacle => exact wordless_skip _ _
  | none =>
      refine (wordless_isPairUntouched first).bind fun untouched => ?_
      cases untouched with
      | false => exact wordless_pure false
      | true =>
          refine (wordless_isPairUntouched second).bind fun otherUntouched => ?_
          cases otherUntouched with
          | false => exact wordless_pure false
          | true =>
              exact (wordless_swapSites _ _).bind fun _ =>
                (wordless_swapSites _ _).bind fun _ => wordless_pure true

/-! ## Shifting -/

theorem wordless_shiftObstacle? (site : CallSite) (family : LockFamily) :
    Wordless (shiftObstacle? site family) := by
  unfold shiftObstacle?
  split
  · exact wordless_pure _
  · extract_lets rest
    have hrest : ∀ uses, Wordless (rest uses) := by
      intro uses
      dsimp only [rest]
      split
      · exact wordless_pure _
      · split
        · exact wordless_pure _
        · exact wordless_pure _
    split
    · exact hrest 0
    · exact (wordless_query _).bind hrest

theorem wordless_shiftSite (site : CallSite) (family : LockFamily) (direction : Int) :
    Wordless (shiftSite site family direction) := by
  unfold shiftSite
  refine (wordless_shiftObstacle? site family).bind fun obstacle => ?_
  split
  · exact wordless_skip _ _
  · exact wordless_pure false
  · refine (wordless_edit _).bind fun base => (wordless_query _).bind fun step => ?_
    extract_lets rest
    have hrest : Wordless (rest ()) :=
      (wordless_edit _).bind fun moved => (wordless_edit _).bind fun _ =>
        (wordless_markEdited _).bind fun _ => (wordless_markEdited _).bind fun _ =>
          (wordless_query _).bind fun position =>
            (actAlike_recordChange _ _ _ _ _ _).bind fun _ _ _ => wordless_pure true
    split
    · exact (wordless_warn _).bind fun _ => hrest
    · exact hrest

theorem actAlike_shiftSide (address other : PairAddress) (role : LockRole) (site : CallSite)
    (family : LockFamily) (direction : Option Int) :
    ActAlike Eq (shiftSide address role site family direction)
      (shiftSide other role site family direction) := by
  unfold shiftSide
  split
  · exact (actAlike_warn _ _).bind fun _ _ _ => actAlike_pure rfl
  · exact wordless_skip _ _
  · exact wordless_pure false
  · exact wordless_shiftSite site family _

/-! ## Splitting -/

theorem wordless_insertCopy (lock : Handle) (site : CallSite) (role : String) (offset : Nat) :
    Wordless (insertCopy lock site role offset) := by
  refine (wordless_edit _).bind fun ⟨copy, clamped⟩ => ?_
  dsimp only
  split
  · exact (wordless_warn _).bind fun _ => wordless_pure copy
  · exact wordless_pure copy

theorem actAlike_splitPair (address other : PairAddress) (pair : LockPair)
    (unlockOffset lockOffset : Nat) :
    ActAlike Eq (splitPair address pair unlockOffset lockOffset)
      (splitPair other pair unlockOffset lockOffset) := by
  unfold splitPair
  refine ActAlike.bind (wordless_query pair.distance) ?_
  rintro distance _ rfl
  cases splitObstacle? pair distance unlockOffset lockOffset with
  | some obstacle => exact (actAlike_warn _ _).bind fun _ _ _ => actAlike_pure rfl
  | none =>
      refine ActAlike.bind (wordless_insertCopy _ _ _ _) ?_
      rintro unlockCopy _ rfl
      refine ActAlike.bind (wordless_insertCopy _ _ _ _) ?_
      rintro lockCopy _ rfl
      refine ActAlike.bind (wordless_markEdited unlockCopy) fun _ _ _ => ?_
      refine ActAlike.bind (wordless_markEdited lockCopy) fun _ _ _ => ?_
      exact (actAlike_recordChange _ _ _ _ _ _).bind fun _ _ _ => actAlike_pure rfl

end LockOperator

end ConcurrencyFaults

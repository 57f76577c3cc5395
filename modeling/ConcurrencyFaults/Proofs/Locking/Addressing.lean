import ConcurrencyFaults.Proofs.Locking.Wordless

/-!
# Two ways of naming a pair

A pair has a position among the pairs of its category and a position among the pairs of its
function.  Pairs are filed as they are discovered: behind the earlier pairs of their category, with
a note of that place under their function (`PairIndex.byFunction`).  Looking a pair up by its
function follows such a note, and finds the pairs of the function in the order of their discovery.

A run does not depend on how its requests name their pairs.  If each address by function is replaced
by an address by category of the same pair, or by one that is out of bounds if the old one was, the
requests find the same pairs, and the two runs differ in nothing but the words of their entries
(`run_byCategory`).

## Strategy

* `getInFunction?_eq` compares the notes under a function with the pairs of the function, both in
  the order of discovery; `get?_of_mem_filedAfter` finds each pair where it was filed.
* `Renamed` relates two lists of positions request by request.  It is turned into a relation between
  addresses (`Renamed.listOf`), pairs of addresses (`Renamed.pairsOf`) or numbered addresses
  (`Renamed.zipIdx`), as the modes read their positions.
* Each request finds its pair first (`actAlike_resolve_bind`) and no longer looks at its address but
  to mention it in an entry.
-/

namespace ConcurrencyFaults

open Program

namespace PairIndex

variable {index : PairIndex} {pair : LockPair} {category : PairCategory} {function : FunctionId}

/-! ## Filing pairs -/

/-- Pairs that are discovered after some others, each with the place at which it is filed: its
category and the number of pairs that are filed there already. -/
def filedAfter (earlier : List LockPair) : List LockPair → List (LockPair × PairCategory × Nat)
  | [] => []
  | pair :: rest =>
      (pair, pair.category, earlier.countP (·.category == pair.category)) ::
        filedAfter (earlier ++ [pair]) rest

/-- The places of the pairs of a function, in the order of their discovery. -/
def byFunction (index : PairIndex) (function : FunctionId) : List (PairCategory × Nat) :=
  ((filedAfter [] index.pairs).filter (·.1.function == function)).map Prod.snd

theorem map_filedAfter (earlier pairs : List LockPair) :
    (filedAfter earlier pairs).map Prod.fst = pairs := by
  induction pairs generalizing earlier with
  | nil => rfl
  | cons pair rest ih => rw [filedAfter, List.map_cons, ih]

/-- Every pair is found where it was filed; what is discovered later is filed behind it. -/
theorem get?_of_mem_filedAfter {earlier pairs : List LockPair} {place : Nat}
    (hfiled : (pair, category, place) ∈ filedAfter earlier pairs) :
    (PairIndex.mk (earlier ++ pairs)).get? category place = some pair := by
  induction pairs generalizing earlier with
  | nil => cases hfiled
  | cons first rest ih =>
      rcases List.mem_cons.mp hfiled with hfirst | hrest
      · simp only [Prod.mk.injEq] at hfirst
        obtain ⟨rfl, rfl, rfl⟩ := hfirst
        let front := earlier.filter (·.category == pair.category)
        let back := rest.filter (·.category == pair.category)
        calc (PairIndex.mk (earlier ++ pair :: rest)).get? pair.category
              (earlier.countP (·.category == pair.category))
          _ = (front ++ pair :: back)[front.length]? := by
            rw [get?, ofCategory, List.filter_append, List.filter_cons_of_pos (by simp),
              List.countP_eq_length_filter]
          _ = some pair := by
            rw [List.getElem?_append_right (Nat.le_refl _), Nat.sub_self, List.getElem?_cons_zero]
      · -- to the rest, the first pair is one more that was discovered earlier
        have hfound := ih hrest
        rwa [List.append_assoc, List.singleton_append] at hfound

/-- Looking up by function follows the note that was made under the function. -/
theorem getInFunction?_eq (function : FunctionId) (position : Nat) :
    index.getInFunction? function position =
      (index.byFunction function)[position]?.bind fun place => index.get? place.1 place.2 := by
  have hpairs : index.ofFunction function =
      ((filedAfter [] index.pairs).filter (·.1.function == function)).map Prod.fst :=
    calc index.ofFunction function
      _ = ((filedAfter [] index.pairs).map Prod.fst).filter (·.function == function) := by
          rw [ofFunction, map_filedAfter]
      _ = ((filedAfter [] index.pairs).filter (·.1.function == function)).map Prod.fst :=
          List.filter_map
  rw [getInFunction?, hpairs, byFunction, List.getElem?_map, List.getElem?_map]
  cases hnote : ((filedAfter [] index.pairs).filter (·.1.function == function))[position]? with
  | none => rfl
  | some filed =>
      have hmem := List.mem_of_mem_filter (List.mem_of_getElem? hnote)
      exact (get?_of_mem_filedAfter hmem).symm

/-! ## One address for each pair

No pair is listed twice, so neither way of counting gives it two positions.
-/

theorem mem_ofFunction : pair ∈ index.ofFunction function ↔
    pair ∈ index.pairs ∧ pair.function = function := by
  simp [ofFunction]

theorem exists_get?_iff :
    (∃ place : PairCategory × Nat, index.get? place.1 place.2 = some pair) ↔
      pair ∈ index.pairs := by
  constructor
  · rintro ⟨⟨category, position⟩, hfound⟩
    exact (mem_ofCategory.mp (List.mem_of_getElem? hfound)).1
  · intro hmem
    obtain ⟨position, hfound⟩ := List.mem_iff_getElem?.mp (mem_ofCategory.mpr ⟨hmem, rfl⟩)
    exact ⟨(pair.category, position), hfound⟩

theorem exists_getInFunction?_iff :
    (∃ place : FunctionId × Nat, index.getInFunction? place.1 place.2 = some pair) ↔
      pair ∈ index.pairs := by
  constructor
  · rintro ⟨⟨function, position⟩, hfound⟩
    exact (mem_ofFunction.mp (List.mem_of_getElem? hfound)).1
  · intro hmem
    obtain ⟨position, hfound⟩ := List.mem_iff_getElem?.mp (mem_ofFunction.mpr ⟨hmem, rfl⟩)
    exact ⟨(pair.function, position), hfound⟩

private theorem position_unique {pairs : List LockPair} (hnodup : pairs.Nodup) {first second : Nat}
    (hfirst : pairs[first]? = some pair) (hsecond : pairs[second]? = some pair) :
    first = second := by
  obtain ⟨hlt, -⟩ := List.getElem?_eq_some_iff.mp hfirst
  exact (List.getElem?_inj hlt hnodup).mp (hfirst.trans hsecond.symm)

theorem get?_unique (hnodup : index.pairs.Nodup) {first second : PairCategory × Nat}
    (hfirst : index.get? first.1 first.2 = some pair)
    (hsecond : index.get? second.1 second.2 = some pair) : first = second := by
  obtain ⟨category, position⟩ := first
  obtain ⟨other, place⟩ := second
  obtain rfl : pair.category = category := (mem_ofCategory.mp (List.mem_of_getElem? hfirst)).2
  obtain rfl : pair.category = other := (mem_ofCategory.mp (List.mem_of_getElem? hsecond)).2
  exact congrArg (pair.category, ·) (position_unique (hnodup.filter _) hfirst hsecond)

theorem getInFunction?_unique (hnodup : index.pairs.Nodup) {first second : FunctionId × Nat}
    (hfirst : index.getInFunction? first.1 first.2 = some pair)
    (hsecond : index.getInFunction? second.1 second.2 = some pair) : first = second := by
  obtain ⟨function, position⟩ := first
  obtain ⟨other, place⟩ := second
  obtain rfl : pair.function = function := (mem_ofFunction.mp (List.mem_of_getElem? hfirst)).2
  obtain rfl : pair.function = other := (mem_ofFunction.mp (List.mem_of_getElem? hsecond)).2
  exact congrArg (pair.function, ·) (position_unique (hnodup.filter _) hfirst hsecond)

end PairIndex

namespace LockOperator

open Work

variable {index : PairIndex} {plan : LockPlan} {positions : List Nat}

/-! ## Renamed requests -/

/-- The first address by function and the second by category name the same pair, or both are out of
bounds. -/
def NamesSame (index : PairIndex) (address other : PairAddress) : Prop :=
  find? index .function address = find? index .category other

/-- The second list names by category what the first names by function, address for address. -/
inductive Renamed (index : PairIndex) : List Nat → List Nat → Prop where
  | nil : Renamed index [] []
  /-- A number that is left over names nothing. -/
  | leftover (number other : Nat) : Renamed index [number] [other]
  | cons {function position category place : Nat} {rest others : List Nat}
      (hsame : NamesSame index ⟨function, position⟩ ⟨category, place⟩)
      (hrest : Renamed index rest others) :
      Renamed index (function :: position :: rest) (category :: place :: others)

namespace Renamed

theorem length_eq {numbers others : List Nat} (hrenamed : Renamed index numbers others) :
    numbers.length = others.length := by
  induction hrenamed with
  | nil | leftover => rfl
  | cons _ _ ih => simp only [List.length_cons, ih]

theorem listOf {numbers others : List Nat} (hrenamed : Renamed index numbers others) :
    List.Forall₂ (NamesSame index) (PairAddress.listOf numbers) (PairAddress.listOf others) := by
  induction hrenamed with
  | nil | leftover => exact .nil
  | cons hsame _ ih => exact .cons hsame ih

theorem pairsOf {numbers others : List Nat} (hrenamed : Renamed index numbers others) :
    List.Forall₂ (fun first second =>
        NamesSame index first.1 second.1 ∧ NamesSame index first.2 second.2)
      (PairAddress.pairsOf numbers) (PairAddress.pairsOf others) := by
  match hrenamed with
  | .nil | .leftover _ _ | .cons _ .nil | .cons _ (.leftover _ _) => exact .nil
  | .cons hfirst (.cons hsecond hrest) => exact .cons ⟨hfirst, hsecond⟩ hrest.pairsOf

/-- Every list of addresses by function can be renamed. -/
theorem exists_renamed (index : PairIndex) (numbers : List Nat) :
    ∃ others, Renamed index numbers others := by
  match numbers with
  | [] => exact ⟨[], .nil⟩
  | [number] => exact ⟨[number], .leftover number number⟩
  | function :: position :: rest =>
      obtain ⟨others, hrest⟩ := exists_renamed index rest
      cases hfind : index.getInFunction? function position with
      | none =>
          -- there are four categories, so the group 4 is out of bounds
          exact ⟨4 :: 0 :: others, .cons hfind hrest⟩
      | some pair =>
          have hmem := PairIndex.exists_getInFunction?_iff.mp ⟨(function, position), hfind⟩
          obtain ⟨⟨category, place⟩, hplace⟩ := PairIndex.exists_get?_iff.mpr hmem
          have hsame : NamesSame index ⟨function, position⟩ ⟨category.number, place⟩ :=
            calc index.getInFunction? function position
              _ = some pair := hfind
              _ = index.get? category place := hplace.symm
              _ = find? index .category ⟨category.number, place⟩ := by cases category <;> rfl
          exact ⟨category.number :: place :: others, .cons hsame hrest⟩

end Renamed

/-! ## Requests that find the same pair

Handlers are compared step by step (`ActAlike.bind`): both answer the same, and leave programs and
marks that are the same.  The entries they record name the pair by the address of the request.
-/

/-- The plan with other positions, which name pairs by their categories. -/
def byCategory (plan : LockPlan) (positions : List Nat) : LockPlan :=
  { plan with addressing := .category, positions }

variable {address other : PairAddress} {first second : RemovalList}

theorem actAlike_resolve (hsame : NamesSame index address other) :
    ActAlike Eq (resolve index .function address) (resolve index .category other) := by
  unfold resolve
  rw [show find? index .function address = _ from hsame]
  cases find? index .category other with
  | none => exact (actAlike_warn _ _).bind fun _ _ _ => actAlike_pure rfl
  | some pair => exact wordless_pure (some pair)

/-- After its pair was found, a request goes on in the same way. -/
theorem actAlike_resolve_bind {next otherNext : Option LockPair → Work Bool}
    (hsame : NamesSame index address other)
    (hnext : ∀ pair?, ActAlike Eq (next pair?) (otherNext pair?)) :
    ActAlike Eq (resolve index .function address >>= next)
      (resolve index .category other >>= otherNext) := by
  refine (actAlike_resolve hsame).bind ?_
  rintro pair? _ rfl
  exact hnext pair?

/-! ### Removing

The pairs are collected with their addresses before anything is removed, so the two collections are
compared too.
-/

/-- The lists differ at most in the addresses of the pairs. -/
structure RemovalList.Alike (first second : RemovalList) : Prop where
  sites_eq : first.sites = second.sites
  pairs_eq : first.pairs.map Prod.snd = second.pairs.map Prod.snd

theorem RemovalList.Alike.newSides_eq (halike : first.Alike second) (pair : LockPair) :
    first.newSides pair = second.newSides pair := by
  simp only [newSides, lists, halike.sites_eq]

theorem RemovalList.Alike.add (halike : first.Alike second) (address other : PairAddress)
    (pair : LockPair) : (first.add address pair).Alike (second.add other pair) := by
  have hlists : first.listsPair pair = second.listsPair pair := by
    have hpairs := congrArg (List.any · fun listed =>
      listed.lock.handle == pair.lock.handle && listed.unlock.handle == pair.unlock.handle)
        halike.pairs_eq
    rw [List.any_map, List.any_map] at hpairs
    exact hpairs
  constructor
  · simp only [RemovalList.add, halike.newSides_eq, halike.sites_eq]
  · simp only [RemovalList.add, hlists]
    split
    · exact halike.pairs_eq
    · rw [List.map_append, List.map_append, halike.pairs_eq]
      rfl

theorem actAlike_schedule (hsame : NamesSame index address other) (halike : first.Alike second) :
    ActAlike RemovalList.Alike (schedule index .function first address)
      (schedule index .category second other) := by
  unfold schedule
  refine (actAlike_resolve hsame).bind ?_
  rintro pair? _ rfl
  cases pair? with
  | none => exact actAlike_pure halike
  | some pair =>
      have hadded := halike.add address other pair
      dsimp only
      rw [halike.newSides_eq]
      split
      · exact (actAlike_warn _ _).bind fun _ _ _ => actAlike_pure hadded
      · exact actAlike_pure hadded

theorem actAlike_remove (hfunction : plan.addressing = .function)
    (hrenamed : Renamed index plan.positions positions) :
    ActAlike Eq (remove index plan) (remove index (byCategory plan positions)) := by
  rw [remove_eq, remove_eq, hfunction]
  have hschedule : ActAlike RemovalList.Alike
      ((PairAddress.listOf plan.positions).foldlM (schedule index .function) {})
      ((PairAddress.listOf positions).foldlM (schedule index .category) {}) :=
    ActAlike.foldlM hrenamed.listOf (fun _ _ hsame _ _ => actAlike_schedule hsame) ⟨rfl, rfl⟩
  refine hschedule.bind fun removals others halike => ?_
  have hremove : Wordless (removals.sites.foldlM removeNext []) :=
    ActAlike.foldlM (List.forall₂_same.mpr fun _ _ => rfl) (by
      rintro listed _ rfl removed _ rfl
      exact (wordless_removeSite _ _).bind fun answer => wordless_pure _) rfl
  rw [← halike.sites_eq]
  refine ActAlike.bind hremove ?_
  rintro removed _ rfl
  have hpairs : List.Forall₂ (fun requested named : PairAddress × LockPair =>
      requested.2 = named.2) removals.pairs others.pairs := by
    have hsame := halike.pairs_eq
    rwa [← List.forall₂_eq_eq_eq, List.forall₂_map_left_iff, List.forall₂_map_right_iff] at hsame
  refine (actAlike_forM hpairs fun _ _ => actAlike_recordRemoved removed).bind ?_
  exact fun _ _ _ => actAlike_pure rfl

/-! ### Swapping -/

theorem actAlike_swap (hfunction : plan.addressing = .function)
    (hrenamed : Renamed index plan.positions positions) :
    ActAlike Eq (swap index plan) (swap index (byCategory plan positions)) := by
  rw [swap_eq, swap_eq]
  refine actAlike_anyOf hrenamed.pairsOf ?_
  rintro ⟨firstAddress, secondAddress⟩ ⟨firstOther, secondOther⟩ ⟨hfirst, hsecond⟩
  unfold swapRequest
  dsimp only
  rw [hfunction]
  refine actAlike_resolve_bind hfirst fun first? => ?_
  cases first? with
  | none => exact wordless_pure false
  | some first =>
      refine actAlike_resolve_bind hsecond fun second? => ?_
      cases second? with
      | none => exact wordless_pure false
      | some second => exact wordless_swapPairs first second

/-! ### Shifting -/

theorem actAlike_shiftRequest (hfunction : plan.addressing = .function)
    (hsame : NamesSame index address other) (request : Nat) :
    ActAlike Eq (shiftRequest index plan (address, request))
      (shiftRequest index (byCategory plan positions) (other, request)) := by
  unfold shiftRequest
  dsimp only
  rw [hfunction]
  refine actAlike_resolve_bind hsame fun pair? => ?_
  cases pair? with
  | none => exact wordless_pure false
  | some pair =>
      refine ActAlike.bind (wordless_isPairUntouched pair) ?_
      rintro untouched _ rfl
      cases untouched with
      | false => exact wordless_pure false
      | true =>
          refine (actAlike_shiftSide address other .lock pair.lock pair.family _).bind ?_
          rintro lockMoved _ rfl
          refine (actAlike_shiftSide address other .unlock pair.unlock pair.family _).bind ?_
          rintro unlockMoved _ rfl
          exact wordless_pure (lockMoved || unlockMoved)

/-- Numbered requests are renamed one by one. -/
theorem Renamed.zipIdx {numbers others : List Nat} (hrenamed : Renamed index numbers others) :
    List.Forall₂ (fun request renamed : PairAddress × Nat =>
        NamesSame index request.1 renamed.1 ∧ request.2 = renamed.2)
      (PairAddress.listOf numbers).zipIdx (PairAddress.listOf others).zipIdx := by
  suffices hall : ∀ {addresses renamed : List PairAddress} (start : Nat),
      List.Forall₂ (NamesSame index) addresses renamed →
        List.Forall₂ (fun request renamed : PairAddress × Nat =>
            NamesSame index request.1 renamed.1 ∧ request.2 = renamed.2)
          (addresses.zipIdx start) (renamed.zipIdx start) from hall 0 hrenamed.listOf
  intro addresses renamed start haddresses
  induction haddresses generalizing start with
  | nil => exact .nil
  | cons hsame _ ih => exact .cons ⟨hsame, rfl⟩ (ih (start + 1))

theorem actAlike_shift (hfunction : plan.addressing = .function)
    (hrenamed : Renamed index plan.positions positions) :
    ActAlike Eq (shift index plan) (shift index (byCategory plan positions)) := by
  rw [shift_eq, shift_eq]
  refine actAlike_anyOf hrenamed.zipIdx ?_
  rintro ⟨address, request⟩ ⟨other, _⟩ ⟨hsame, rfl⟩
  exact actAlike_shiftRequest hfunction hsame request

/-! ### Splitting -/

theorem actAlike_splitRequest (hfunction : plan.addressing = .function)
    (hsame : NamesSame index address other) (request : Nat) :
    ActAlike Eq (splitRequest index plan (address, request))
      (splitRequest index (byCategory plan positions) (other, request)) := by
  unfold splitRequest
  dsimp only
  rw [hfunction]
  refine actAlike_resolve_bind hsame fun pair? => ?_
  cases pair? with
  | none => exact wordless_pure false
  | some pair =>
      refine ActAlike.bind (wordless_isPairUntouched pair) ?_
      rintro untouched _ rfl
      cases untouched with
      | false => exact wordless_pure false
      | true =>
          rw [if_neg (by simp), if_neg (by simp)]
          dsimp only [byCategory]
          cases splitOffsets? plan.splitOffsets request with
          | none => exact (actAlike_warn _ _).bind fun _ _ _ => actAlike_pure rfl
          | some offsets => exact actAlike_splitPair address other pair _ _

theorem actAlike_split (hfunction : plan.addressing = .function)
    (hrenamed : Renamed index plan.positions positions) :
    ActAlike Eq (split index plan) (split index (byCategory plan positions)) := by
  rw [split_eq, split_eq]
  refine actAlike_anyOf hrenamed.zipIdx ?_
  rintro ⟨address, request⟩ ⟨other, _⟩ ⟨hsame, rfl⟩
  exact actAlike_splitRequest hfunction hsame request

/-! ## Runs -/

variable {workspace : Workspace} {oracle : AliasOracle}

/-- If the callees exist, nothing stops a run on lock pairs. -/
theorem exists_run (consistent : workspace.program.Consistent)
    (calleesExist : workspace.program.CalleesExist) (plan : LockPlan) (oracle : AliasOracle) :
    ∃ modified after, run plan oracle workspace = .ok modified after := by
  unfold run
  -- building the index succeeds, and whatever is done with the pairs is never refused
  cases plan.mode with
  | none => exact ⟨false, workspace, rfl⟩
  | some mode =>
      obtain ⟨_, -, hresults⟩ := PairIndex.findings_eq consistent calleesExist oracle
      obtain ⟨found, hfinds, hmatched⟩ := PairIndex.exists_found hresults
      rw [← PairIndex.ofProgram_of_findings hresults] at hmatched
      have tracked : Tracked workspace.program found.sites (PairIndex.noted oracle workspace) :=
        Tracked.of_finds _ consistent hfinds
      dsimp only
      rw [bind_apply_of_ok (PairIndex.build_apply consistent calleesExist oracle)]
      have hanswers : ∀ {work : Work Bool},
          Runs work (PairIndex.noted oracle workspace)
            (fun _ => Tracked workspace.program found.sites) (fun _ _ => False) →
          ∃ modified after, work (PairIndex.noted oracle workspace) = .ok modified after := by
        intro work hruns
        obtain ⟨modified, after, hwork, -⟩ := hruns.exists_ok
        exact ⟨modified, after, hwork⟩
      cases mode with
      | remove => exact hanswers (runs_remove tracked hmatched plan)
      | swap => exact hanswers (runs_swap tracked hfinds hmatched plan)
      | shift => exact hanswers (runs_shift tracked hmatched plan)
      | split => exact hanswers (runs_split tracked hmatched plan)

/-- Whether a plan is accepted does not depend on the way in which it names pairs. -/
theorem check_byCategory (hlength : plan.positions.length = positions.length) :
    (byCategory plan positions).check = plan.check := by
  have hempty : positions.isEmpty = plan.positions.isEmpty := by
    rw [Bool.eq_iff_iff, List.isEmpty_iff_length_eq_zero, List.isEmpty_iff_length_eq_zero, hlength]
  have hpositions : ∀ mode, LockPlan.checkPositions mode positions =
      LockPlan.checkPositions mode plan.positions := by
    intro mode
    simp only [LockPlan.checkPositions, hlength, hempty]
  unfold LockPlan.check
  rw [show (byCategory plan positions).mode = plan.mode from rfl]
  cases plan.mode with
  | none => rfl
  | some mode =>
      dsimp only [byCategory]
      rw [hpositions]

/-- Runs on the same pairs differ in nothing but the words of their entries, whatever they are to do
with the pairs. -/
theorem run_byCategory (consistent : workspace.program.Consistent)
    (calleesExist : workspace.program.CalleesExist) (hfunction : plan.addressing = .function)
    (hrenamed : Renamed (.ofProgram oracle workspace.program) plan.positions positions) :
    ∃ modified after renamed,
      run plan oracle workspace = .ok modified after ∧
      run (byCategory plan positions) oracle workspace = .ok modified renamed ∧
      after.Alike renamed := by
  have halike : EndAlike Eq (run plan oracle workspace)
      (run (byCategory plan positions) oracle workspace) := by
    have hbuild := PairIndex.build_apply consistent calleesExist oracle
    unfold run
    rw [show (byCategory plan positions).mode = plan.mode from rfl]
    cases plan.mode with
    | none => exact .answered rfl (.refl workspace)
    | some mode =>
        dsimp only
        rw [bind_apply_of_ok hbuild, bind_apply_of_ok hbuild]
        cases mode with
        | remove => exact actAlike_remove hfunction hrenamed _ _ (.refl _)
        | swap => exact actAlike_swap hfunction hrenamed _ _ (.refl _)
        | shift => exact actAlike_shift hfunction hrenamed _ _ (.refl _)
        | split => exact actAlike_split hfunction hrenamed _ _ (.refl _)
  -- the first run answers, so the other one does, too
  obtain ⟨modified, after, hrun⟩ := exists_run consistent calleesExist plan oracle
  rw [hrun] at halike
  generalize hother : run (byCategory plan positions) oracle workspace = result at halike
  cases halike with
  | answered hsame hafter =>
      subst hsame
      exact ⟨modified, after, _, hrun, rfl, hafter⟩

/-- The two ways of naming pairs agree: either names each pair of the program once, and a run does
the same under both. -/
structure AddressingsAgree (index : PairIndex) (oracle : AliasOracle) (program : Program) :
    Prop where
  /-- Looking up by function follows the notes that were made when pairs were filed by category. -/
  noted : ∀ function position, index.getInFunction? function position =
    (index.byFunction function)[position]?.bind fun place => index.get? place.1 place.2
  /-- The positions in a function count its pairs, through all categories and in the order of their
  discovery. -/
  discovered : ∀ function, ∃ pairs : List LockPair,
    (∀ position, index.getInFunction? function position = pairs[position]?) ∧
    pairs.Pairwise (LockPair.Precedes program) ∧
    ∀ pair, pair ∈ pairs ↔ pair.Matches oracle program ∧ pair.function = function
  /-- Each pair has one address of either kind. -/
  addressed : ∀ pair : LockPair, pair.Matches oracle program →
    (∃! place : PairCategory × Nat, index.get? place.1 place.2 = some pair) ∧
    ∃! place : FunctionId × Nat, index.getInFunction? place.1 place.2 = some pair
  /-- No address names anything else. -/
  named_category : ∀ category position pair, index.get? category position = some pair →
    pair.Matches oracle program
  named_function : ∀ function position pair, index.getInFunction? function position = some pair →
    pair.Matches oracle program
  /-- Whatever positions a plan has, they can be renamed. -/
  renamed : ∀ numbers, ∃ positions, Renamed index numbers positions
  /-- A plan that names its pairs by function is as good as any that names them by category: it is
  accepted as well, and from the same workspace it comes to the same answer, program and marks, with
  entries of the same kinds. -/
  runs : ∀ (plan : LockPlan) positions ledger, plan.check = .ok () →
    plan.addressing = .function → Renamed index plan.positions positions →
      (byCategory plan positions).check = .ok () ∧
      ∃ modified after other,
        run plan oracle { program, ledger } = .ok modified after ∧
        run (byCategory plan positions) oracle { program, ledger } = .ok modified other ∧
        after.Alike other

theorem addressings_agree {program : Program} (consistent : program.Consistent)
    (calleesExist : program.CalleesExist) (oracle : AliasOracle) :
    ∃ index built, PairIndex.build oracle { program } = .ok index built ∧
      AddressingsAgree index oracle program := by
  have hmatches : ∀ {pair : LockPair},
      pair ∈ (PairIndex.ofProgram oracle program).pairs ↔ pair.Matches oracle program :=
    PairIndex.mem_pairs_ofProgram_iff consistent calleesExist
  have hsorted := PairIndex.pairwise_pairs_ofProgram consistent calleesExist oracle
  have hnodup := LockPair.nodup_of_pairwise hsorted
  refine ⟨_, _, @PairIndex.build_apply { program } consistent calleesExist oracle,
    PairIndex.getInFunction?_eq, fun function => ⟨_, fun _ => rfl, hsorted.filter _, ?_⟩, ?_, ?_,
    ?_, Renamed.exists_renamed _, ?_⟩
  · intro pair
    exact PairIndex.mem_ofFunction.trans (and_congr_left fun _ => hmatches)
  · intro pair hpair
    obtain ⟨place, hplace⟩ := PairIndex.exists_get?_iff.mpr (hmatches.mpr hpair)
    obtain ⟨note, hnote⟩ := PairIndex.exists_getInFunction?_iff.mpr (hmatches.mpr hpair)
    exact ⟨⟨place, hplace, fun _ hother => PairIndex.get?_unique hnodup hother hplace⟩,
      note, hnote, fun _ hother => PairIndex.getInFunction?_unique hnodup hother hnote⟩
  · intro category position pair hfound
    exact hmatches.mp (PairIndex.exists_get?_iff.mp ⟨(category, position), hfound⟩)
  · intro function position pair hfound
    exact hmatches.mp (PairIndex.exists_getInFunction?_iff.mp ⟨(function, position), hfound⟩)
  · intro plan positions ledger haccepted hfunction hrenamed
    refine ⟨(check_byCategory hrenamed.length_eq).trans haccepted, ?_⟩
    exact @run_byCategory plan positions { program, ledger } oracle consistent calleesExist
      hfunction hrenamed

/-- Two functions with sections, one of which is unlocked by a call that may unwind.  The program is
not to be unfolded, lest runs on it are evaluated in passing. -/
@[irreducible] def lockedTwofold : Program :=
  Command.run [.declare "pthread_mutex_lock" .status, .declare "pthread_mutex_unlock" .status,
    .addFunction "main" .void [], .addBlock 2 "entry", .addBlock 2 "open", .addBlock 2 "failed",
    .push 2 0 (.ofOperation (.call (.direct 0) [.global "first"] .status)),
    .push 2 0 (.ofOperation (.invoke (.direct 1) [.global "first"] .status 1 2)),
    .push 2 1 (.ofOperation (.call (.direct 0) [.global "second"] .status)),
    .push 2 1 (.ofOperation (.call (.direct 1) [.global "second"] .status)),
    .push 2 1 (.ofOperation (.ret none)), .push 2 2 (.ofOperation .unreachable),
    .addFunction "worker" .void [], .addBlock 3 "entry",
    .push 3 0 (.ofOperation (.call (.direct 0) [.global "first"] .status)),
    .push 3 0 (.ofOperation (.call (.direct 1) [.global "first"] .status)),
    .push 3 0 (.ofOperation (.ret none))]
    { name := "locks" }

theorem consistent_lockedTwofold : lockedTwofold.Consistent := by
  unfold lockedTwofold
  exact Command.consistent_run (Command.consistent_empty "locks") _

theorem addressings_agree_lockedTwofold :
    ∃ index built, PairIndex.build .identity { program := lockedTwofold } = .ok index built ∧
      AddressingsAgree index .identity lockedTwofold :=
  addressings_agree consistent_lockedTwofold
    (consistent_lockedTwofold.calleesExist_iff.mpr (by decide +kernel)) .identity

/-- The pairs of the first function are filed in two categories, the second of them in front of the
pair of the other function. -/
example :
    (PairIndex.ofProgram .identity lockedTwofold).byFunction 2 =
      [(.callInvoke, 0), (.callCall, 0)] ∧
    (PairIndex.ofProgram .identity lockedTwofold).byFunction 3 = [(.callCall, 1)] := by
  decide +kernel

end LockOperator

end ConcurrencyFaults

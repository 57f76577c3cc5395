import ConcurrencyFaults.Proofs.Locking.Swapping
import Mathlib.Logic.Equiv.Basic

/-!
# Swapping twice

A second swap finds its pairs by positions in the index of the program that the first swap left.  If
no other call of the family is on one of the two mutexes, the pairs of that program are the pairs of
the original under new names (`pairs_exchanged`): a call that changed places took the mutex of its
partner along, so it belongs to the call that it belonged to.  Blocks keep their order and so do the
pairs, hence every position names the pair that it named before.  The second swap then brings each
call back to its place, and what remains of the two are four new handles and four names that are
gone (`swap_twice`).

## Strategy

* `aliased_exchanged_iff` compares the mutexes of two calls before and after.  In the family of the
  pairs both mutexes are exchanged wherever they stand, which keeps equal ones equal and different
  ones different; calls of other families keep theirs.
* From it `matches_exchanged` and `exists_of_matches` show that the same calls belong together, and
  `precedes_exchanged` that pairs keep their order.  A list is determined by its members and its
  order, so the two indices correspond pair by pair (`pairs_exchanged`).
* `swappable_exchanged` brings back the hypotheses for the second run.
* `Reissued.of_replacing` composes the two runs: each call is replaced by one that is replaced by
  what the call was, and everything else is only renamed.
-/

namespace ConcurrencyFaults

open Program

namespace LockOperator

variable {program after : Program} {first second pair : LockPair} {mutex other : Operand}
  {names : Handle → Handle} {site : CallSite}

/-- No other call of the family is on one of the two mutexes. -/
def SoleUsers (program : Program) (first second : LockPair) (mutex other : Operand) : Prop :=
  ∀ site, CallSite.capture program site.handle true = .ok (some site) →
    (∃ role, site.name = first.family.name role) →
    site.arguments.head? = some mutex ∨ site.arguments.head? = some other →
      site ∈ sidesOf [first, second]

theorem soleUsers_iff (consistent : program.Consistent) :
    SoleUsers program first second mutex other ↔
      ∀ handle ∈ program.handles, ∀ site ∈ (CallSite.capture program handle true).toOption.join,
        (site.name = first.family.name .lock ∨ site.name = first.family.name .unlock) →
          site.arguments.head? = some mutex ∨ site.arguments.head? = some other →
            site ∈ sidesOf [first, second] := by
  have hname : ∀ {name : String}, (∃ role, name = first.family.name role) ↔
      name = first.family.name .lock ∨ name = first.family.name .unlock := by
    intro name
    constructor
    · rintro ⟨role, hrole⟩
      cases role with
      | lock => exact Or.inl hrole
      | unlock => exact Or.inr hrole
    · rintro (hlock | hunlock)
      · exact ⟨.lock, hlock⟩
      · exact ⟨.unlock, hunlock⟩
  simp only [SoleUsers, hname]
  exact consistent.forall_capture_iff

/-- For the identity, calls are on the same mutex exactly if their first arguments are equal. -/
theorem aliased_identity_iff : pair.Aliased .identity ↔
    ∃ mutex, pair.lock.arguments.head? = some mutex ∧ pair.unlock.arguments.head? = some mutex := by
  have hmust : ∀ first second : Operand, AliasOracle.identity first second = .must ↔
      first = second := by
    intro first second
    unfold AliasOracle.identity
    split
    · rename_i hsame
      exact iff_of_true rfl hsame
    · rename_i hdifferent
      refine iff_of_false ?_ hdifferent
      split <;> simp
  constructor
  · rintro ⟨mutex, hlock, other, hunlock, hsame⟩
    obtain rfl := (hmust mutex other).mp hsame
    exact ⟨mutex, hlock, hunlock⟩
  · rintro ⟨mutex, hlock, hunlock⟩
    exact ⟨mutex, hlock, mutex, hunlock, (hmust mutex mutex).mpr rfl⟩

/-- Changing operands in a way that keeps different ones apart does not make two of them equal. -/
theorem exists_common_map_iff {change : Operand → Operand} {first second : Option Operand}
    (hinjective : ∀ operand ∈ first, ∀ target ∈ second, change operand = change target →
      operand = target) :
    (∃ operand, first.map change = some operand ∧ second.map change = some operand) ↔
      ∃ operand, first = some operand ∧ second = some operand := by
  constructor
  · rintro ⟨operand, hfirst, hsecond⟩
    obtain ⟨former, hformer, rfl⟩ := Option.map_eq_some_iff.mp hfirst
    obtain ⟨target, htarget, hsame⟩ := Option.map_eq_some_iff.mp hsecond
    obtain rfl := hinjective former hformer target htarget hsame.symm
    exact ⟨former, hformer, htarget⟩
  · rintro ⟨operand, rfl, rfl⟩
    exact ⟨change operand, rfl, rfl⟩

namespace Swappable

variable (swappable : Swappable program first second mutex other)
include swappable

/-- Calls of the family change over from one mutex to the other. -/
theorem head?_partner (sole : SoleUsers program first second mutex other)
    (hsite : CallSite.capture program site.handle true = .ok (some site))
    (hfamily : ∃ role, site.name = first.family.name role) :
    (partner first second site).arguments.head? =
      site.arguments.head?.map (Equiv.swap mutex other) := by
  rcases swappable.partner_cases hsite with ⟨listed, hmem, rfl, hpartner, -⟩ | ⟨hnone, hpartner, -⟩
  · rw [hpartner]
    rcases swappable.arguments_of_mem_partners hmem with ⟨hfirst, hsecond⟩ | ⟨hfirst, hsecond⟩
    · simp [hfirst, hsecond]
    · simp [hfirst, hsecond]
  · rw [hpartner]
    -- a call that stays is on neither mutex, since no call outside the pairs is
    have hstays : ∀ operand ∈ site.arguments.head?, Equiv.swap mutex other operand = operand := by
      intro operand hoperand
      refine Equiv.swap_apply_of_ne_of_ne ?_ ?_
      · rintro rfl
        obtain ⟨listed, hmem, rfl⟩ :=
          exists_mem_partners_iff.mpr (sole site hsite hfamily (Or.inl hoperand))
        exact hnone listed hmem rfl
      · rintro rfl
        obtain ⟨listed, hmem, rfl⟩ :=
          exists_mem_partners_iff.mpr (sole site hsite hfamily (Or.inr hoperand))
        exact hnone listed hmem rfl
    cases hhead : site.arguments.head? with
    | none => rfl
    | some operand => rw [Option.map_some, hstays operand hhead]

theorem partner_sides :
    partner first second first.lock = second.lock ∧ partner first second second.lock = first.lock ∧
      partner first second first.unlock = second.unlock ∧
        partner first second second.unlock = first.unlock :=
  have hpartner := fun listed => @Swappable.partner_of_mem _ _ _ _ _ listed swappable
  ⟨hpartner (first.lock, second.lock) (by simp [partners]),
    hpartner (second.lock, first.lock) (by simp [partners]),
    hpartner (first.unlock, second.unlock) (by simp [partners]),
    hpartner (second.unlock, first.unlock) (by simp [partners])⟩

theorem partner_eq_self (hsite : CallSite.capture program site.handle true = .ok (some site))
    (hfamily : ∀ role, site.name ≠ first.family.name role) : partner first second site = site := by
  rcases swappable.partner_cases hsite with ⟨listed, hmem, rfl, -⟩ | ⟨-, hpartner, -⟩
  · exfalso
    have hfirst := swappable.first_matches
    have hsecond := swappable.second_matches
    have hsame := swappable.family_eq
    rcases mem_partners.mp hmem with rfl | rfl | rfl | rfl
    · exact hfamily .lock hfirst.lock_name
    · exact hfamily .lock (hsame ▸ hsecond.lock_name)
    · exact hfamily .unlock hfirst.unlock_name
    · exact hfamily .unlock (hsame ▸ hsecond.unlock_name)
  · exact hpartner

end Swappable

/-- Operands of calls are told apart under their new names. -/
theorem rename_injective (consistent : program.Consistent) (closed : program.Closed)
    {changes : List (Handle × Instruction)} (replacing : Replacing program changes names after)
    {target : CallSite} (hsite : CallSite.capture program site.handle true = .ok (some site))
    (htarget : CallSite.capture program target.handle true = .ok (some target))
    {first second : Operand} (hfirst : first ∈ site.arguments) (hsecond : second ∈ target.arguments)
    (hsame : first.rename names = second.rename names) : first = second := by
  cases first with
  | result handle =>
      cases second with
      | result used =>
          obtain ⟨entry, hentry⟩ := CallSite.exists_placed?_of_mem_arguments closed hsite hfirst
          obtain ⟨found, hfound⟩ := CallSite.exists_placed?_of_mem_arguments closed htarget hsecond
          have hnames : names handle = names used := Operand.result.inj hsame
          exact congrArg Operand.result
            (replacing.relocation.injective consistent hentry hfound hnames)
      | _ => cases hsame
  | _ =>
      cases second with
      | result used => cases hsame
      | _ => exact hsame

/-! ## Pairs after the exchange

Throughout this section `names` is the renaming that the first run leads to.
-/

section Pairs

variable (swappable : Swappable program first second mutex other)
  (sole : SoleUsers program first second mutex other) (consistent : program.Consistent)
  (closed : program.Closed) (replacing : Replacing program (exchanges first second) names after)
include swappable sole consistent closed replacing

/-- Two calls of one family are on one mutex exactly if they were before. -/
theorem aliased_exchanged_iff
    (hlock : CallSite.capture program pair.lock.handle true = .ok (some pair.lock))
    (hunlock : CallSite.capture program pair.unlock.handle true = .ok (some pair.unlock))
    (hlockName : pair.lock.name = pair.family.name .lock)
    (hunlockName : pair.unlock.name = pair.family.name .unlock) :
    (exchangedPair names first second pair).Aliased .identity ↔ pair.Aliased .identity := by
  have hlockPartner := (swappable.capture_partner hlock).1
  have hunlockPartner := (swappable.capture_partner hunlock).1
  have hrenamed := @exists_common_map_iff (Operand.rename names)
    (partner first second pair.lock).arguments.head?
    (partner first second pair.unlock).arguments.head? fun operand hoperand target htarget hsame =>
      rename_injective consistent closed replacing hlockPartner hunlockPartner
        (List.mem_of_mem_head? hoperand) (List.mem_of_mem_head? htarget) hsame
  rw [aliased_identity_iff, aliased_identity_iff]
  simp only [exchangedPair, CallSite.exchanged, List.head?_map]
  rw [hrenamed]
  -- exchanging the two mutexes is injective; it is done in the family of the two pairs alone
  by_cases hfamily : pair.family = first.family
  · rw [swappable.head?_partner sole hlock ⟨.lock, hfamily ▸ hlockName⟩,
      swappable.head?_partner sole hunlock ⟨.unlock, hfamily ▸ hunlockName⟩]
    exact exists_common_map_iff fun _ _ _ _ hsame => (Equiv.swap mutex other).injective hsame
  · have hforeign : ∀ {name : String} {role : LockRole}, name = pair.family.name role →
        ∀ otherRole, name ≠ first.family.name otherRole := by
      intro name role hname otherRole hsame
      have hclassify := LockFamily.classify?_eq_some_iff.mpr hname
      rw [LockFamily.classify?_eq_some_iff.mpr hsame] at hclassify
      exact hfamily (Prod.mk.inj (Option.some.inj hclassify)).1.symm
    rw [swappable.partner_eq_self hlock (hforeign hlockName),
      swappable.partner_eq_self hunlock (hforeign hunlockName)]

/-- Calls that belong together still do. -/
theorem matches_exchanged (hpair : pair.Matches .identity program) :
    (exchangedPair names first second pair).Matches .identity after where
  lock_at := (swappable.exchanging replacing).capture_eq hpair.lock_at
  unlock_at := (swappable.exchanging replacing).capture_eq hpair.unlock_at
  function_eq := hpair.function_eq
  lock_name := (swappable.capture_partner hpair.lock_at).2.trans hpair.lock_name
  unlock_name := (swappable.capture_partner hpair.unlock_at).2.trans hpair.unlock_name
  aliased := (aliased_exchanged_iff swappable sole consistent closed replacing hpair.lock_at
    hpair.unlock_at hpair.lock_name hpair.unlock_name).mpr hpair.aliased

theorem exists_of_matches (calleesExist : program.CalleesExist)
    (hpair : pair.Matches .identity after) :
    ∃ former : LockPair, former.Matches .identity program ∧
      pair = exchangedPair names first second former := by
  obtain ⟨lock, hlock, hlockSite⟩ :=
    (swappable.exchanging replacing).exists_of_capture consistent calleesExist hpair.lock_at
  obtain ⟨unlock, hunlock, hunlockSite⟩ :=
    (swappable.exchanging replacing).exists_of_capture consistent calleesExist hpair.unlock_at
  let former : LockPair := { family := pair.family, lock, unlock }
  have hsame : pair = exchangedPair names first second former := by
    cases pair
    simp_all [exchangedPair, former]
  have hlockName : lock.name = pair.family.name .lock := by
    rw [← (swappable.capture_partner hlock).2, ← hpair.lock_name, hlockSite]
    rfl
  have hunlockName : unlock.name = pair.family.name .unlock := by
    rw [← (swappable.capture_partner hunlock).2, ← hpair.unlock_name, hunlockSite]
    rfl
  have haliased : former.Aliased .identity :=
    (@aliased_exchanged_iff _ _ _ _ former _ _ _ swappable sole consistent closed replacing hlock
      hunlock hlockName hunlockName).mp (hsame ▸ hpair.aliased)
  have hfunction : unlock.function = lock.function := by
    have hnow := hpair.function_eq
    rw [hlockSite, hunlockSite] at hnow
    exact hnow
  exact ⟨former, ⟨hlock, hunlock, hfunction, hlockName, hunlockName, haliased⟩, hsame⟩

omit swappable sole closed in
/-- Pairs keep their order. -/
theorem precedes_exchanged {later : LockPair} (hpair : pair.Matches .identity program)
    (hlater : later.Matches .identity program) (hprecedes : pair.Precedes program later) :
    (exchangedPair names first second pair).Precedes after
      (exchangedPair names first second later) := by
  have hsites : ∀ {site target : CallSite},
      CallSite.capture program site.handle true = .ok (some site) →
      CallSite.capture program target.handle true = .ok (some target) →
      site.Precedes program target →
        (site.exchanged names (partner first second site)).Precedes after
          (target.exchanged names (partner first second target)) := by
    intro site target hsite htarget hbefore
    obtain ⟨-, entry, hplaced, -⟩ := CallSite.placed_of_capture hsite
    obtain ⟨-, found, hfound, -⟩ := CallSite.placed_of_capture htarget
    rcases hbefore with hforms | ⟨hform, hbefore⟩
    · exact Or.inl hforms
    · exact Or.inr ⟨hform, replacing.relocation.precedes consistent hbefore hplaced hfound⟩
  rcases hprecedes with hfunction | ⟨hfunction, hbefore⟩
  · exact Or.inl hfunction
  · refine Or.inr ⟨hfunction, ?_⟩
    rcases hbefore with hbefore | ⟨hlock, hbefore⟩
    · exact Or.inl (hsites hpair.lock_at hlater.lock_at hbefore)
    · refine Or.inr ⟨?_, hsites hpair.unlock_at hlater.unlock_at hbefore⟩
      show CallSite.exchanged .. = CallSite.exchanged ..
      rw [hlock]

/-- The index of the program after the exchange is the old one, pair by pair. -/
theorem pairs_exchanged (calleesExist : program.CalleesExist) :
    (PairIndex.ofProgram .identity after).pairs =
      (PairIndex.ofProgram .identity program).pairs.map (exchangedPair names first second) := by
  have hafter := replacing.relocation.consistent
  have calleesExistAfter :=
    (swappable.exchanging replacing).calleesExist_after consistent calleesExist
  have hmatches : ∀ pair ∈ (PairIndex.ofProgram .identity program).pairs,
      pair.Matches .identity program := fun pair =>
    (PairIndex.mem_pairs_ofProgram_iff consistent calleesExist).mp
  have hsorted := PairIndex.pairwise_pairs_ofProgram hafter calleesExistAfter .identity
  have hsortedMap : ((PairIndex.ofProgram .identity program).pairs.map
      (exchangedPair names first second)).Pairwise (LockPair.Precedes after) := by
    refine List.pairwise_map.mpr ((PairIndex.pairwise_pairs_ofProgram consistent calleesExist
      .identity).imp_of_mem fun hpair hlater hprecedes => ?_)
    exact precedes_exchanged consistent replacing (hmatches _ hpair) (hmatches _ hlater) hprecedes
  -- both lists are in order, so it is enough that they have the same members
  have hmem : ∀ pair, pair ∈ (PairIndex.ofProgram .identity after).pairs ↔
      pair ∈ (PairIndex.ofProgram .identity program).pairs.map
        (exchangedPair names first second) := by
    intro pair
    rw [PairIndex.mem_pairs_ofProgram_iff hafter calleesExistAfter, List.mem_map]
    simp only [PairIndex.mem_pairs_ofProgram_iff consistent calleesExist]
    constructor
    · intro hpair
      obtain ⟨former, hformer, rfl⟩ :=
        exists_of_matches swappable sole consistent closed replacing calleesExist hpair
      exact ⟨former, hformer, rfl⟩
    · rintro ⟨former, hformer, rfl⟩
      exact matches_exchanged swappable sole consistent closed replacing hformer
  exact LockPair.eq_of_pairwise hsorted hsortedMap hmem

/-- Every address names the pair that it named before. -/
theorem find?_exchanged (calleesExist : program.CalleesExist) (addressing : PairAddressing)
    (address : PairAddress) :
    find? (.ofProgram .identity after) addressing address =
      (find? (.ofProgram .identity program) addressing address).map
        (exchangedPair names first second) := by
  have hpairs := pairs_exchanged swappable sole consistent closed replacing calleesExist
  cases addressing with
  | category =>
      unfold find?
      cases PairCategory.ofNumber? address.group with
      | none => rfl
      | some category =>
          simp only [Option.bind_some, PairIndex.get?, PairIndex.ofCategory, hpairs,
            List.filter_map, List.getElem?_map]
          rfl
  | function =>
      simp only [find?, PairIndex.getInFunction?, PairIndex.ofFunction, hpairs, List.filter_map,
        List.getElem?_map]
      rfl

omit sole consistent closed replacing in
/-- The calls that change places do so again under their new names. -/
theorem partners_exchanged (names : Handle → Handle) :
    partners (exchangedPair names first second first) (exchangedPair names first second second) =
      (partners first second).map fun listed =>
        (listed.1.exchanged names listed.2, listed.2.exchanged names listed.1) := by
  obtain ⟨hfirstLock, hsecondLock, hfirstUnlock, hsecondUnlock⟩ := swappable.partner_sides
  simp [partners, exchangedPair, hfirstLock, hfirstUnlock, hsecondLock, hsecondUnlock]

omit sole consistent closed in
/-- The instruction whose result is a mutex keeps its name. -/
theorem names_mutex {operand : Operand} (hoperand : operand ∈ [mutex, other]) {handle : Handle}
    (hhandle : handle ∈ operand.handle?) : names handle = handle := by
  have hrename := swappable.rename_mutex replacing hoperand
  cases operand with
  | result used =>
      obtain rfl : used = handle := Option.some.inj hhandle
      exact Operand.result.inj hrename
  | _ => cases hhandle

omit sole consistent closed replacing in
theorem exists_of_mem_partners_exchanged {listed : CallSite × CallSite}
    (hmem : listed ∈ partners (exchangedPair names first second first)
      (exchangedPair names first second second)) :
    ∃ former ∈ partners first second,
      listed = (former.1.exchanged names former.2, former.2.exchanged names former.1) := by
  rw [partners_exchanged swappable] at hmem
  obtain ⟨former, hformer, rfl⟩ := List.mem_map.mp hmem
  exact ⟨former, hformer, rfl⟩

omit sole closed in
/-- No instruction becomes the one whose result is a mutex by receiving a new name. -/
theorem mutex_ne_renamed {operand : Operand} (hoperand : operand ∈ [mutex, other])
    {former : CallSite × CallSite} (hformer : former ∈ partners first second) :
    operand ≠ .result (names former.1.handle) := by
  rintro rfl
  obtain ⟨entry, hplaced⟩ := swappable.mutex_live _ hoperand _ rfl
  obtain ⟨-, found, hfound, -⟩ := CallSite.placed_of_capture (swappable.of_mem_partners hformer).1
  have hname := names_mutex swappable replacing hoperand rfl
  have hsame := replacing.relocation.injective consistent hplaced hfound hname
  exact swappable.mutex_stays _ hoperand former hformer (congrArg Operand.result hsame)

omit sole in
/-- The result of a new call is read in its own function alone. -/
theorem function_eq_of_reads_exchanged {former : CallSite × CallSite}
    (hformer : former ∈ partners first second) {reader : Handle} {found : Placed}
    (hfound : after.placed? reader = some found)
    (hreads : found.instruction.Reads (names former.1.handle)) :
    found.function = former.1.function := by
  obtain ⟨-, called, hcalled, -⟩ :=
    CallSite.placed_of_capture (swappable.of_mem_partners hformer).1
  obtain ⟨old, entry, hplaced, -, rfl⟩ := replacing.relocation.exists_of_placed? consistent hfound
  obtain ⟨used, hused, hname⟩ := Instruction.reads_rename_iff.mp hreads
  rcases mem_of_replaced (exchanges first second) old entry.instruction with hsame | hchange
  · -- an old instruction read the call under its old name
    rw [hsame] at hused
    obtain ⟨source, hsource, -⟩ :=
      functionOf?_eq_some_iff.mp (closed old entry hplaced _ hused used rfl)
    obtain rfl := replacing.relocation.injective consistent hsource hcalled hname
    exact swappable.local_readers former hformer old entry hplaced hused
  · -- what was put in reads a mutex alone
    obtain ⟨listed, hmemListed, hcontent⟩ := List.mem_map.mp hchange
    have hnew : inPlaceOf listed.1 listed.2 = replaced (exchanges first second) old
      entry.instruction := congrArg Prod.snd hcontent
    rw [← hnew] at hused
    have hoperand := swappable.reads_inPlaceOf hmemListed hused
    rw [names_mutex swappable replacing hoperand rfl] at hname
    exact absurd (congrArg Operand.result hname)
      (mutex_ne_renamed swappable consistent replacing hoperand hformer)

/-- The pairs that changed places can change places again, and the mutexes change places with
them. -/
theorem swappable_exchanged :
    Swappable after (exchangedPair names first second first)
      (exchangedPair names first second second) other mutex where
  first_matches :=
    matches_exchanged swappable sole consistent closed replacing swappable.first_matches
  second_matches :=
    matches_exchanged swappable sole consistent closed replacing swappable.second_matches
  family_eq := swappable.family_eq
  first_arguments := by
    obtain ⟨hlock, hunlock⟩ := swappable.second_arguments
    obtain ⟨hlockPartner, -, hunlockPartner, -⟩ := swappable.partner_sides
    have hother := swappable.rename_mutex replacing (show other ∈ [mutex, other] by simp)
    simp [exchangedPair, CallSite.exchanged, hlockPartner, hunlockPartner, hlock, hunlock, hother]
  second_arguments := by
    obtain ⟨hlock, hunlock⟩ := swappable.first_arguments
    obtain ⟨-, hlockPartner, -, hunlockPartner⟩ := swappable.partner_sides
    have hmutex := swappable.rename_mutex replacing (show mutex ∈ [mutex, other] by simp)
    simp [exchangedPair, CallSite.exchanged, hlockPartner, hunlockPartner, hlock, hunlock, hmutex]
  mutex_ne := swappable.mutex_ne.symm
  mutex_live := by
    intro operand hoperand handle hhandle
    have hlisted : operand ∈ [mutex, other] := List.mem_pair.mpr (List.mem_pair.mp hoperand).symm
    have hname := names_mutex swappable replacing hlisted hhandle
    obtain ⟨entry, hplaced⟩ := swappable.mutex_live operand hlisted handle hhandle
    exact ⟨_, hname ▸ replacing.relocation.placed? hplaced⟩
  mutex_stays := by
    intro operand hoperand listed hmem
    have hlisted : operand ∈ [mutex, other] := List.mem_pair.mpr (List.mem_pair.mp hoperand).symm
    obtain ⟨former, hformer, rfl⟩ := exists_of_mem_partners_exchanged swappable hmem
    exact mutex_ne_renamed swappable consistent replacing hlisted hformer
  local_readers := by
    intro listed hmem reader found hfound hreads
    obtain ⟨former, hformer, rfl⟩ := exists_of_mem_partners_exchanged swappable hmem
    exact function_eq_of_reads_exchanged swappable consistent closed replacing hformer hfound hreads

end Pairs

/-- In a closed program, two pairs of one family can change places if each is on a mutex of its own
that is not the result of one of the four calls. -/
theorem swappable_of_closed (closed : program.Closed)
    (hfirst : first.Matches .identity program) (hsecond : second.Matches .identity program)
    (hfamily : second.family = first.family)
    (hfirstArguments : first.lock.arguments = [mutex] ∧ first.unlock.arguments = [mutex])
    (hsecondArguments : second.lock.arguments = [other] ∧ second.unlock.arguments = [other])
    (hne : mutex ≠ other)
    (hstays : ∀ site ∈ sidesOf [first, second],
      mutex ≠ .result site.handle ∧ other ≠ .result site.handle) :
    Swappable program first second mutex other where
  first_matches := hfirst
  second_matches := hsecond
  family_eq := hfamily
  first_arguments := hfirstArguments
  second_arguments := hsecondArguments
  mutex_ne := hne
  mutex_live := by
    have hlive : ∀ {site : CallSite} {operand : Operand}, site.arguments = [operand] →
        CallSite.capture program site.handle true = .ok (some site) →
        ∀ handle ∈ operand.handle?, ∃ entry, program.placed? handle = some entry := by
      intro site operand harguments hsite handle hhandle
      cases operand with
      | result used =>
          obtain rfl : used = handle := Option.some.inj hhandle
          exact CallSite.exists_placed?_of_mem_arguments closed hsite (by simp [harguments])
      | _ => cases hhandle
    intro operand hmem
    rcases List.mem_pair.mp hmem with rfl | rfl
    · exact hlive hfirstArguments.1 hfirst.lock_at
    · exact hlive hsecondArguments.1 hsecond.lock_at
  mutex_stays := by
    intro operand hmem listed hlisted
    obtain ⟨hmutex, hother⟩ := hstays listed.1 (exists_mem_partners_iff.mp ⟨listed, hlisted, rfl⟩)
    rcases List.mem_pair.mp hmem with rfl | rfl
    · exact hmutex
    · exact hother
  local_readers := by
    intro listed hlisted reader found hfound hreads
    obtain ⟨pair, hpair, hside⟩ :=
      mem_sidesOf_iff.mp (exists_mem_partners_iff.mp ⟨listed, hlisted, rfl⟩)
    have hmatches : pair.Matches .identity program := by
      rcases List.mem_pair.mp hpair with rfl | rfl
      · exact hfirst
      · exact hsecond
    exact CallSite.function_eq_of_reads closed (hmatches.of_side hside).1 hfound hreads

/-- One run exchanges two pairs that can change places. -/
theorem run_swap {plan : LockPlan} {firstAddress secondAddress : PairAddress}
    (consistent : program.Consistent) (hmode : plan.mode = some .swap)
    (hpositions : plan.positions = [firstAddress.group, firstAddress.position,
      secondAddress.group, secondAddress.position])
    (hfirst : find? (.ofProgram .identity program) plan.addressing firstAddress = some first)
    (hsecond : find? (.ofProgram .identity program) plan.addressing secondAddress = some second)
    (swappable : Swappable program first second mutex other) :
    ∃ after names, run plan .identity { program } = .ok true after ∧
      Replacing program (exchanges first second) names after.program := by
  obtain ⟨after, names, hrun, hrenewing⟩ :=
    run_exchange consistent hmode hpositions hfirst hsecond swappable.exchangeable
  exact ⟨after, names, hrun, hrenewing.toReplacing⟩

/-! ## Two runs

A replaced instruction loses its name, for the name belongs to the instruction that is erased.
-/

/-- The instruction without its name, if it is at one of the handles. -/
def unnamed (handles : List Handle) (handle : Handle) (instruction : Instruction) : Instruction :=
  if handle ∈ handles then { instruction with name := none } else instruction

/-- The program with some of its instructions put in anew: under other handles, by which their
readers refer to them now, and without their names. -/
structure Reissued (before after : Program) (handles : List Handle) (names : Handle → Handle) :
    Prop where
  relocation : before.Relocation after names (unnamed handles)
  /-- All others keep their handles. -/
  fixed : ∀ {handle entry}, before.placed? handle = some entry → handle ∉ handles →
    names handle = handle
  injective : ∀ {handle entry other found}, before.placed? handle = some entry →
    before.placed? other = some found → names handle = names other → handle = other

/-- Instructions are put in anew by two rounds of replacements, if the second one brings back what
the first one took away. -/
theorem Reissued.of_replacing {between : Program} {later : Handle → Handle} {handles : List Handle}
    {changes again : List (Handle × Instruction)} (consistent : program.Consistent)
    (hfirst : Replacing program changes names between)
    (hsecond : Replacing between again later after) (hnodup : (again.map Prod.fst).Nodup)
    (hhandles : ∀ handle, handle ∈ changes.map Prod.fst ↔ handle ∈ handles)
    (hagain : ∀ handle ∈ again.map Prod.fst, ∃ old ∈ handles, names old = handle)
    (hback : ∀ {handle entry}, program.placed? handle = some entry → handle ∈ handles →
      (names handle, ({ entry.instruction with name := none }).rename names) ∈ again) :
    Reissued program after handles fun handle => later (names handle) := by
  -- a handle is replaced in the second round only if it was in the first
  have houtside : ∀ {handle entry}, program.placed? handle = some entry → handle ∉ handles →
      handle ∉ changes.map Prod.fst ∧ names handle ∉ again.map Prod.fst := by
    intro handle entry hplaced hnot
    refine ⟨fun hmem => hnot ((hhandles handle).mp hmem), fun hmem => hnot ?_⟩
    obtain ⟨old, hold, hsame⟩ := hagain _ hmem
    obtain ⟨change, hchange, rfl⟩ := List.mem_map.mp ((hhandles old).mpr hold)
    obtain ⟨found, hfound⟩ := hfirst.live change hchange
    rwa [← hfirst.relocation.injective consistent hfound hplaced hsame]
  have hrelocation : program.Relocation after (fun handle => later (names handle))
      (unnamed handles) := by
    refine hfirst.relocation.trans hsecond.relocation fun {handle entry} hplaced => ?_
    unfold unnamed
    split
    · rename_i hmem
      rw [replaced_of_mem hnodup (hback hplaced hmem), Instruction.rename_rename]
    · rename_i hnot
      obtain ⟨hstays, hstaysAgain⟩ := houtside hplaced hnot
      rw [replaced_of_not_mem hstays, replaced_of_not_mem hstaysAgain, Instruction.rename_rename]
  refine ⟨hrelocation, ?_, hrelocation.injective consistent⟩
  intro handle entry hplaced hnot
  obtain ⟨hstays, hstaysAgain⟩ := houtside hplaced hnot
  rw [hsecond.fixed _ hstaysAgain, hfirst.fixed _ hstays]

/-- Brought back, a call is what it was but for its name. -/
theorem inPlaceOf_exchanged {listed : CallSite × CallSite} {entry : Placed} {demangled : Bool}
    (hsite : CallSite.capture program listed.1.handle demangled = .ok (some listed.1))
    (hplaced : program.placed? listed.1.handle = some entry) :
    inPlaceOf (listed.1.exchanged names listed.2) (listed.2.exchanged names listed.1) =
      ({ entry.instruction with name := none }).rename names := by
  obtain ⟨found, target, hfound, -, hoperation, hcaptured⟩ := CallSite.capture_eq_some_iff.mp hsite
  obtain rfl : entry = found := Option.some.inj (hplaced.symm.trans hfound)
  have hattributes := congrArg CallSite.attributes hcaptured
  have hlocation := congrArg CallSite.location hcaptured
  simp only [Instruction.rename, Instruction.withOperation, hoperation, inPlaceOf,
    CallSite.cloneWith, CallSite.exchanged, CallSite.operation, SiteForm.mapOperands_operation,
    hattributes, hlocation]

/-- Exchanging two pairs twice brings each call back, under a new handle. -/
theorem reissued_of_replacing {between : Program} {later : Handle → Handle}
    (consistent : program.Consistent)
    (swappable : Swappable program first second mutex other)
    (again : Swappable between (exchangedPair names first second first)
      (exchangedPair names first second second) other mutex)
    (hfirst : Replacing program (exchanges first second) names between)
    (hsecond : Replacing between (exchanges (exchangedPair names first second first)
      (exchangedPair names first second second)) later after) :
    Reissued program after ((sidesOf [first, second]).map CallSite.handle)
      fun handle => later (names handle) := by
  refine Reissued.of_replacing consistent hfirst hsecond again.exchangeable.replaceable.nodup
    (fun handle => mem_exchanges_iff) (fun handle hmem => ?_) fun {handle entry} hplaced hmem => ?_
  · exact List.mem_map.mp
      (show handle ∈ ((sidesOf [first, second]).map CallSite.handle).map names from
        mem_exchanges_iff.mp hmem)
  · obtain ⟨change, hchange, rfl⟩ := List.mem_map.mp (mem_exchanges_iff.mpr hmem)
    obtain ⟨listed, hlisted, rfl⟩ := List.mem_map.mp hchange
    rw [← inPlaceOf_exchanged (swappable.of_mem_partners hlisted).1 hplaced, exchanges,
      partners_exchanged swappable, List.map_map]
    exact List.mem_map.mpr ⟨listed, hlisted, rfl⟩

/-- Swapping two pairs twice restores the program up to the handles and the names of the four
calls. -/
theorem swap_twice {plan : LockPlan} {firstAddress secondAddress : PairAddress}
    (consistent : program.Consistent) (closed : program.Closed) (hmode : plan.mode = some .swap)
    (hpositions : plan.positions = [firstAddress.group, firstAddress.position,
      secondAddress.group, secondAddress.position])
    (hfirst : find? (.ofProgram .identity program) plan.addressing firstAddress = some first)
    (hsecond : find? (.ofProgram .identity program) plan.addressing secondAddress = some second)
    (hfamily : second.family = first.family)
    (hfirstArguments : first.lock.arguments = [mutex] ∧ first.unlock.arguments = [mutex])
    (hsecondArguments : second.lock.arguments = [other] ∧ second.unlock.arguments = [other])
    (hne : mutex ≠ other) (sole : SoleUsers program first second mutex other)
    (hstays : ∀ site ∈ sidesOf [first, second],
      mutex ≠ .result site.handle ∧ other ≠ .result site.handle) :
    ∃ swapped moved restored names,
      run plan .identity { program } = .ok true swapped ∧
      Replacing program (exchanges first second) moved swapped.program ∧
      run plan .identity { program := swapped.program } = .ok true restored ∧
      Reissued program restored.program ((sidesOf [first, second]).map CallSite.handle) names := by
  have calleesExist := PairIndex.calleesExist_of_mem_pairs consistent (mem_of_find? hfirst)
  have swappable := swappable_of_closed closed
    (matches_of_find? consistent calleesExist hfirst)
    (matches_of_find? consistent calleesExist hsecond) hfamily hfirstArguments hsecondArguments hne
    hstays
  obtain ⟨swapped, names, hswap, hswapped⟩ :=
    run_swap consistent hmode hpositions hfirst hsecond swappable
  -- the same positions name the same pairs, in which the mutexes have changed places
  have again := swappable_exchanged swappable sole consistent closed hswapped
  have hfind := find?_exchanged swappable sole consistent closed hswapped calleesExist
    plan.addressing
  have hfirstAgain := hfind firstAddress
  have hsecondAgain := hfind secondAddress
  rw [hfirst, Option.map_some] at hfirstAgain
  rw [hsecond, Option.map_some] at hsecondAgain
  obtain ⟨restored, later, hrestore, hrestored⟩ := run_swap hswapped.relocation.consistent hmode
    hpositions hfirstAgain hsecondAgain again
  exact ⟨swapped, names, restored, fun handle => later (names handle), hswap, hswapped, hrestore,
    reissued_of_replacing consistent swappable again hswapped hrestored⟩

/-- Two locks held one inside the other.  The outer one may unwind, and the inner one has a name and
a reader. -/
@[irreducible] def heldNested : Program :=
  Command.run [.declare "pthread_mutex_lock" .status, .declare "pthread_mutex_unlock" .status,
    .addFunction "main" .void [], .addBlock 2 "entry", .addBlock 2 "held", .addBlock 2 "failed",
    .push 2 0 (.ofOperation (.invoke (.direct 0) [.global "outer"] .status 1 2)),
    .push 2 1 { operation := .call (.direct 0) [.global "inner"] .status, name := some "status" },
    .push 2 1 (.ofOperation (.other "work" [.result ⟨1, 0⟩] .void)),
    .push 2 1 (.ofOperation (.call (.direct 1) [.global "inner"] .status)),
    .push 2 1 (.ofOperation (.call (.direct 1) [.global "outer"] .status)),
    .push 2 1 (.ofOperation (.ret none)), .push 2 2 (.ofOperation .unreachable)]
    { name := "nested" }

theorem consistent_heldNested : heldNested.Consistent := by
  unfold heldNested
  exact Command.consistent_run (Command.consistent_empty "nested") _

/-- A pair whose unlock is a plain call in the second block, with all that a search knows of it. -/
def nestedPair (handle other : Handle) (block : BlockId) (form : SiteForm) (mutex : String) :
    LockPair where
  family := .posix
  lock := {
    handle, function := 2, block, target := 0, symbol := "pthread_mutex_lock"
    name := "pthread_mutex_lock", arguments := [.global mutex], result := .status
    attributes := .none, location := none, form }
  unlock := {
    handle := other, function := 2, block := 1, target := 1, symbol := "pthread_mutex_unlock"
    name := "pthread_mutex_unlock", arguments := [.global mutex], result := .status
    attributes := .none, location := none, form := .call }

/-- The pair on the outer mutex, which starts with an invoke. -/
def outerPair : LockPair := nestedPair ⟨0, 0⟩ ⟨4, 0⟩ 0 (.invoke 1 2) "outer"

/-- The pair on the inner mutex. -/
def innerPair : LockPair := nestedPair ⟨1, 0⟩ ⟨3, 0⟩ 1 .call "inner"

/-- The first pair of an invoke and a call changes places with the first pair of calls. -/
def swapNested : LockPlan := { mode := some .swap, positions := [2, 0, 0, 0] }

theorem swap_twice_heldNested :
    ∃ swapped moved restored names,
      run swapNested .identity { program := heldNested } = .ok true swapped ∧
      Replacing heldNested (exchanges outerPair innerPair) moved swapped.program ∧
      run swapNested .identity { program := swapped.program } = .ok true restored ∧
      Reissued heldNested restored.program ((sidesOf [outerPair, innerPair]).map CallSite.handle)
        names :=
  @swap_twice heldNested outerPair innerPair (.global "outer") (.global "inner") swapNested ⟨2, 0⟩
    ⟨0, 0⟩ consistent_heldNested
    (consistent_heldNested.closed_iff.mpr (by decide +kernel)) rfl rfl (by decide +kernel)
    (by decide +kernel) rfl ⟨rfl, rfl⟩ ⟨rfl, rfl⟩ (by decide)
    ((soleUsers_iff consistent_heldNested).mpr (by decide +kernel)) (by decide)

end LockOperator

end ConcurrencyFaults

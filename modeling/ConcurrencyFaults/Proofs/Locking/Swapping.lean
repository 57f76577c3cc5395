import ConcurrencyFaults.Proofs.Exchanging
import ConcurrencyFaults.Proofs.Locking.Outcomes

/-!
# Swapping two pairs

A swap replaces four calls, each by the call that it changes places with.  Where the two pairs
belong to one family, are on two mutexes and none of the four calls reads the result of one of them
(`Swappable`), the outcome is the program with the four calls under new names and with their new
contents (`swapPairs_apply`).  The calls of the program are then found as they were but for their
names, with the arguments and the target of their partners where they changed places
(`Swappable.exchanging`), and the pairs that changed places are swappable again.

## Strategy

* `Exchangeable` is what the exchange itself needs; a swappable pair of pairs is exchangeable.
* The four replacements are made one after another.  `Exchangeable.replaceable` shows that they do
  not get in each other's way: the calls are different, and no new call reads one that goes.  Each
  half of the exchange then extends what has been replaced by two calls (`swapSites_apply`).
* `partner_cases` sorts the calls of the program into the four and all others, and everything that
  is said of calls afterwards goes through it.
-/

namespace ConcurrencyFaults

open Program

namespace LockOperator

/-! ## What changes places -/

/-- The calls of two pairs, each with the call that it changes places with. -/
def partners (first second : LockPair) : List (CallSite × CallSite) :=
  [(first.lock, second.lock), (second.lock, first.lock), (first.unlock, second.unlock),
    (second.unlock, first.unlock)]

/-- The call that a call changes places with; the call itself if it stays. -/
def partner (first second : LockPair) (site : CallSite) : CallSite :=
  (((partners first second).find? fun listed => listed.1.handle = site.handle).map
    Prod.snd).getD site

/-- The handles of the calls that change places, each with the instruction that replaces it. -/
def exchanges (first second : LockPair) : List (Handle × Instruction) :=
  (partners first second).map fun listed => (listed.1.handle, inPlaceOf listed.1 listed.2)

/-- A pair after an exchange of two pairs. -/
def exchangedPair (names : Handle → Handle) (first second pair : LockPair) : LockPair where
  family := pair.family
  lock := pair.lock.exchanged names (partner first second pair.lock)
  unlock := pair.unlock.exchanged names (partner first second pair.unlock)

/-- Two pairs of one family, each on a mutex of its own, with four calls that do not read each
other. -/
structure Swappable (program : Program) (first second : LockPair) (mutex other : Operand) :
    Prop where
  first_matches : first.Matches .identity program
  second_matches : second.Matches .identity program
  family_eq : second.family = first.family
  first_arguments : first.lock.arguments = [mutex] ∧ first.unlock.arguments = [mutex]
  second_arguments : second.lock.arguments = [other] ∧ second.unlock.arguments = [other]
  mutex_ne : mutex ≠ other
  /-- If a mutex is the result of an instruction, then of one that stays. -/
  mutex_live : ∀ operand ∈ [mutex, other], ∀ handle ∈ operand.handle?,
    ∃ entry, program.placed? handle = some entry
  mutex_stays : ∀ operand ∈ [mutex, other], ∀ listed ∈ partners first second,
    operand ≠ .result listed.1.handle
  /-- The results of the four calls are read in their own functions alone. -/
  local_readers : ∀ listed ∈ partners first second, ∀ reader found,
    program.placed? reader = some found → found.instruction.Reads listed.1.handle →
      found.function = listed.1.function

/-- Two pairs of one family that have no call in common.  Each of the four calls has one argument,
none of them reads another, and what reads them is in their own functions. -/
structure Exchangeable (oracle : AliasOracle) (program : Program) (first second : LockPair) :
    Prop where
  first_matches : first.Matches oracle program
  second_matches : second.Matches oracle program
  family_eq : second.family = first.family
  locks_ne : first.lock.handle ≠ second.lock.handle
  unlocks_ne : first.unlock.handle ≠ second.unlock.handle
  argumentCount_eq : ∀ listed ∈ partners first second, listed.1.argumentCount = 1
  stays : ∀ listed ∈ partners first second, ∀ argument ∈ listed.1.arguments,
    ∀ other ∈ partners first second, argument ≠ .result other.1.handle
  local_readers : ∀ listed ∈ partners first second, ∀ reader found,
    program.placed? reader = some found → found.instruction.Reads listed.1.handle →
      found.function = listed.1.function

theorem mem_partners {first second : LockPair} {listed : CallSite × CallSite} :
    listed ∈ partners first second ↔
      listed = (first.lock, second.lock) ∨ listed = (second.lock, first.lock) ∨
        listed = (first.unlock, second.unlock) ∨ listed = (second.unlock, first.unlock) := by
  simp [partners]

theorem exists_partner_of_mem {first second : LockPair} {listed : CallSite × CallSite}
    (hmem : listed ∈ partners first second) : (listed.2, listed.1) ∈ partners first second := by
  rcases mem_partners.mp hmem with rfl | rfl | rfl | rfl <;> simp [partners]

variable {program after : Program} {first second : LockPair} {mutex other : Operand}
  {names : Handle → Handle} {site : CallSite} {listed : CallSite × CallSite}

/-- The calls that change places are the sides of the two pairs. -/
theorem exists_mem_partners_iff :
    (∃ listed ∈ partners first second, listed.1 = site) ↔ site ∈ sidesOf [first, second] := by
  simp only [mem_partners, mem_sidesOf_iff]
  grind

/-- The calls that are exchanged are the sides of the two pairs. -/
theorem mem_exchanges_iff {handle : Handle} :
    handle ∈ (exchanges first second).map Prod.fst ↔
      handle ∈ (sidesOf [first, second]).map CallSite.handle := by
  simp only [exchanges, List.map_map, List.mem_map, ← exists_mem_partners_iff]
  grind

/-- What is put in reads the arguments of the other call and nothing else. -/
theorem reads_inPlaceOf_iff {site other : CallSite} {handle : Handle} :
    (inPlaceOf site other).Reads handle ↔ .result handle ∈ other.arguments := by
  have hoperands : (inPlaceOf site other).operation.operands = other.arguments :=
    SiteForm.operands_operation ..
  rw [Instruction.Reads, hoperands]

namespace Exchangeable

variable {oracle : AliasOracle} (exchangeable : Exchangeable oracle program first second)
include exchangeable

/-- Calls that change places are calls of the program that name the same primitive. -/
theorem of_mem_partners (hmem : listed ∈ partners first second) :
    CallSite.capture program listed.1.handle true = .ok (some listed.1) ∧
      CallSite.capture program listed.2.handle true = .ok (some listed.2) ∧
      listed.2.name = listed.1.name := by
  have hfirst := exchangeable.first_matches
  have hsecond := exchangeable.second_matches
  have hfamily := exchangeable.family_eq
  rcases mem_partners.mp hmem with rfl | rfl | rfl | rfl
  · exact ⟨hfirst.lock_at, hsecond.lock_at, by rw [hfirst.lock_name, hsecond.lock_name, hfamily]⟩
  · exact ⟨hsecond.lock_at, hfirst.lock_at, by rw [hfirst.lock_name, hsecond.lock_name, hfamily]⟩
  · exact ⟨hfirst.unlock_at, hsecond.unlock_at,
      by rw [hfirst.unlock_name, hsecond.unlock_name, hfamily]⟩
  · exact ⟨hsecond.unlock_at, hfirst.unlock_at,
      by rw [hfirst.unlock_name, hsecond.unlock_name, hfamily]⟩

theorem nodup_handles : ((partners first second).map fun listed => listed.1.handle).Nodup := by
  have hfirst := exchangeable.first_matches
  have hsecond := exchangeable.second_matches
  simp [partners, exchangeable.locks_ne, exchangeable.unlocks_ne, hfirst.handle_ne.symm,
    hsecond.handle_ne.symm, (hfirst.unlock_ne_lock hsecond).symm,
    (hsecond.unlock_ne_lock hfirst).symm]

/-- The new calls read what their partners read, and none of those reads one of the four. -/
theorem replaceable : Replaceable program (exchanges first second) where
  nodup := by
    have hnodup := exchangeable.nodup_handles
    rwa [exchanges, List.map_map]
  local_readers := by
    intro change hmem
    obtain ⟨listed, hlisted, rfl⟩ := List.mem_map.mp hmem
    obtain ⟨-, entry, hplaced, hfunction, -⟩ :=
      CallSite.placed_of_capture (exchangeable.of_mem_partners hlisted).1
    refine ⟨entry, hplaced, fun reader found hfound hreads => ?_⟩
    rw [hfunction]
    exact exchangeable.local_readers listed hlisted reader found hfound hreads
  unread := by
    intro change hmem target htarget hreads
    obtain ⟨listed, hlisted, rfl⟩ := List.mem_map.mp hmem
    obtain ⟨listedTarget, hlistedTarget, rfl⟩ := List.mem_map.mp htarget
    exact exchangeable.stays _ (exists_partner_of_mem hlisted) _ (reads_inPlaceOf_iff.mp hreads)
      listedTarget hlistedTarget rfl

end Exchangeable

namespace Swappable

variable (swappable : Swappable program first second mutex other)
include swappable

theorem arguments_of_mem_partners (hmem : listed ∈ partners first second) :
    listed.1.arguments = [mutex] ∧ listed.2.arguments = [other] ∨
      listed.1.arguments = [other] ∧ listed.2.arguments = [mutex] := by
  obtain ⟨hfirstLock, hfirstUnlock⟩ := swappable.first_arguments
  obtain ⟨hsecondLock, hsecondUnlock⟩ := swappable.second_arguments
  rcases mem_partners.mp hmem with rfl | rfl | rfl | rfl
  · exact Or.inl ⟨hfirstLock, hsecondLock⟩
  · exact Or.inr ⟨hsecondLock, hfirstLock⟩
  · exact Or.inl ⟨hfirstUnlock, hsecondUnlock⟩
  · exact Or.inr ⟨hsecondUnlock, hfirstUnlock⟩

/-- What is put in reads a mutex and nothing else. -/
theorem reads_inPlaceOf (hmem : listed ∈ partners first second) {handle : Handle}
    (hreads : (inPlaceOf listed.1 listed.2).Reads handle) : .result handle ∈ [mutex, other] := by
  rw [reads_inPlaceOf_iff] at hreads
  rcases swappable.arguments_of_mem_partners hmem with ⟨-, harguments⟩ | ⟨-, harguments⟩ <;>
    simp [List.mem_singleton.mp (harguments ▸ hreads)]

/-- Calls on different mutexes are different calls. -/
theorem exchangeable : Exchangeable .identity program first second where
  first_matches := swappable.first_matches
  second_matches := swappable.second_matches
  family_eq := swappable.family_eq
  locks_ne := by
    intro hhandle
    have hsame := CallSite.eq_of_capture swappable.first_matches.lock_at
      swappable.second_matches.lock_at hhandle
    have hmutex := swappable.first_arguments.1
    rw [hsame, swappable.second_arguments.1, List.singleton_inj] at hmutex
    exact swappable.mutex_ne hmutex.symm
  unlocks_ne := by
    intro hhandle
    have hsame := CallSite.eq_of_capture swappable.first_matches.unlock_at
      swappable.second_matches.unlock_at hhandle
    have hmutex := swappable.first_arguments.2
    rw [hsame, swappable.second_arguments.2, List.singleton_inj] at hmutex
    exact swappable.mutex_ne hmutex.symm
  argumentCount_eq := by
    intro listed hmem
    rcases swappable.arguments_of_mem_partners hmem with ⟨harguments, -⟩ | ⟨harguments, -⟩ <;>
      simp [CallSite.argumentCount, harguments]
  stays := by
    intro listed hmem argument hargument target htarget
    refine swappable.mutex_stays argument ?_ target htarget
    rcases swappable.arguments_of_mem_partners hmem with ⟨harguments, -⟩ | ⟨harguments, -⟩ <;>
      simp [List.mem_singleton.mp (harguments ▸ hargument)]
  local_readers := swappable.local_readers

theorem of_mem_partners (hmem : listed ∈ partners first second) :
    CallSite.capture program listed.1.handle true = .ok (some listed.1) ∧
      CallSite.capture program listed.2.handle true = .ok (some listed.2) ∧
      listed.2.name = listed.1.name :=
  swappable.exchangeable.of_mem_partners hmem

end Swappable

/-! ## The exchange

The locks change places first and the unlocks afterwards.  In between the program is one with two of
its calls replaced, which is why the replacements are followed as a list that grows.
-/

section Exchange

variable {start : Program} {workspace : Workspace} {done rest : List (Handle × Instruction)}

/-- The entry for two calls that changed places. -/
def swappedEntry (first second : CallSite) : Entry where
  kind := .callSwapped
  function := some first.function
  pass := some name
  message :=
    first.name ++ " " ++ first.handle.text ++ " <-> " ++ second.name ++ " " ++ second.handle.text

/-- Marking calls changes the ledger alone. -/
theorem exists_markEdited (handles : List Handle) :
    ∃ ledger, handles.forM Work.markEdited workspace = .ok () { workspace with ledger } := by
  induction handles generalizing workspace with
  | nil => exact ⟨workspace.ledger, rfl⟩
  | cons handle rest ih =>
      obtain ⟨ledger, hrest⟩ :=
        @ih { workspace with ledger := workspace.ledger.markEdited handle }
      exact ⟨ledger, (bind_apply_of_ok (Work.markEdited_apply handle) _).trans hrest⟩

/-- Two calls change places. -/
theorem swapSites_apply {first second : CallSite}
    (renewing : Renewing start done names workspace.program) (hstart : start.Consistent)
    (replaceable : Replaceable start (done ++ (first.handle, inPlaceOf first second) ::
      (second.handle, inPlaceOf second first) :: rest)) :
    ∃ after names, swapSites first second workspace = .ok () after ∧
      Renewing start (done ++ [(first.handle, inPlaceOf first second),
        (second.handle, inPlaceOf second first)]) names after.program := by
  obtain ⟨between, namesBetween, hfirst, hbetween⟩ := renewing.next hstart replaceable
  rw [List.append_cons] at replaceable
  obtain ⟨after, namesAfter, hsecond, hafter⟩ := hbetween.next hstart replaceable
  rw [List.append_assoc, List.singleton_append] at hafter
  obtain ⟨ledger, hmarked⟩ := @exists_markEdited { workspace with program := after }
    [first.handle, second.handle, workspace.program.nextHandle, between.nextHandle]
  have hsecondEdit := @Work.edit_apply_of_ok { workspace with program := between } _ _ _ _ hsecond
  refine ⟨{ program := after, ledger := ledger.recordAll [swappedEntry first second] }, namesAfter,
    ?_, hafter⟩
  unfold swapSites
  rw [bind_apply_of_ok (Work.edit_apply_of_ok hfirst), bind_apply_of_ok hsecondEdit,
    bind_apply_of_ok hmarked]
  rfl

variable {oracle : AliasOracle}

/-- Nothing speaks against an exchange of the two pairs. -/
theorem Exchangeable.swapObstacle?_eq_none
    (exchangeable : Exchangeable oracle program first second) :
    swapObstacle? first second = none := by
  have hcount := exchangeable.argumentCount_eq
  simp only [partners, List.forall_mem_cons] at hcount
  simp [swapObstacle?, exchangeable.locks_ne, exchangeable.unlocks_ne, exchangeable.family_eq,
    hcount]

/-- Two pairs change places if nothing was edited before. -/
theorem swapPairs_apply (consistent : workspace.program.Consistent)
    (exchangeable : Exchangeable oracle workspace.program first second)
    (hfresh : workspace.ledger.edited = []) :
    ∃ after names, swapPairs first second workspace = .ok true after ∧
      Renewing workspace.program (exchanges first second) names after.program := by
  have hunmarked : ∀ handle, workspace.ledger.isEdited handle = false := fun handle => by
    simp [Ledger.isEdited, hfresh]
  have huntouched : ∀ {pair : LockPair}, pair.Matches oracle workspace.program →
      isPairUntouched pair workspace = .ok true workspace := by
    intro pair hpair
    obtain ⟨warnings, hasked, hwarnings⟩ :=
      isPairUntouched_of_intact hpair.lock_intact hpair.unlock_intact
    simp only [hunmarked, Bool.false_eq_true, if_false] at hasked hwarnings
    rw [hasked, hwarnings, Ledger.recordAll_nil]
    rfl
  obtain ⟨between, namesBetween, hlocks, hbetween⟩ :=
    @swapSites_apply _ _ workspace [] _ first.lock second.lock
      (Renewing.refl consistent) consistent exchangeable.replaceable
  obtain ⟨after, namesAfter, hunlocks, hafter⟩ :=
    @swapSites_apply _ _ between _ [] first.unlock second.unlock hbetween consistent
      exchangeable.replaceable
  refine ⟨after, namesAfter, ?_, hafter⟩
  unfold swapPairs
  rw [exchangeable.swapObstacle?_eq_none]
  dsimp only
  rw [bind_apply_of_ok (huntouched exchangeable.first_matches), if_neg (by simp),
    bind_apply_of_ok (huntouched exchangeable.second_matches), if_neg (by simp),
    bind_apply_of_ok hlocks, bind_apply_of_ok hunlocks]
  rfl

/-- A run with one request for two pairs that can change places exchanges these. -/
theorem run_exchange {plan : LockPlan} {firstAddress secondAddress : PairAddress}
    (consistent : program.Consistent) (hmode : plan.mode = some .swap)
    (hpositions : plan.positions = [firstAddress.group, firstAddress.position,
      secondAddress.group, secondAddress.position])
    (hfirst : find? (.ofProgram oracle program) plan.addressing firstAddress = some first)
    (hsecond : find? (.ofProgram oracle program) plan.addressing secondAddress = some second)
    (exchangeable : Exchangeable oracle program first second) :
    ∃ after names, run plan oracle { program } = .ok true after ∧
      Renewing program (exchanges first second) names after.program := by
  have calleesExist := PairIndex.calleesExist_of_mem_pairs consistent (mem_of_find? hfirst)
  have hbuild := @PairIndex.build_apply { program } consistent calleesExist oracle
  obtain ⟨after, names, hpairs, hrenewing⟩ := @swapPairs_apply first second
    { program, ledger := Ledger.empty.recordAll (PairIndex.notes oracle program) } oracle consistent
    exchangeable rfl
  refine ⟨after, names, ?_, hrenewing⟩
  -- there is one request, so the run ends with the workspace that the exchange leaves
  have hrequests : PairAddress.pairsOf plan.positions = [] ++ [(firstAddress, secondAddress)] := by
    rw [hpositions]
    rfl
  unfold run
  rw [hmode]
  dsimp only
  rw [bind_apply_of_ok hbuild]
  unfold swap
  rw [hrequests]
  show _ = EStateM.Result.ok (true || false) after
  refine Work.anyOf_concat rfl ?_
  dsimp only
  rw [bind_apply_of_ok (resolve_of_find? hfirst)]
  dsimp only
  rw [bind_apply_of_ok (resolve_of_find? hsecond)]
  exact hpairs

end Exchange

/-! ## Calls after the exchange

A call that changes places keeps its form and its location, and takes everything else over.
-/

namespace Swappable

variable (swappable : Swappable program first second mutex other)
include swappable

/-- A call of the program is one of the four or stays what it is. -/
theorem partner_cases (hsite : CallSite.capture program site.handle true = .ok (some site)) :
    (∃ listed ∈ partners first second, listed.1 = site ∧ partner first second site = listed.2 ∧
      ∀ instruction, replaced (exchanges first second) site.handle instruction =
        inPlaceOf site listed.2) ∨
    (∀ listed ∈ partners first second, listed.1.handle ≠ site.handle) ∧
      partner first second site = site ∧
      ∀ instruction, replaced (exchanges first second) site.handle instruction = instruction := by
  have hexchange : ((exchanges first second).find? fun change => change.1 = site.handle) =
      ((partners first second).find? fun listed => listed.1.handle = site.handle).map
        fun listed => (listed.1.handle, inPlaceOf listed.1 listed.2) := by
    rw [exchanges, List.find?_map]
    rfl
  unfold partner replaced
  rw [hexchange]
  -- both look for the handle in the same list, so they find the same or nothing
  cases hfind : (partners first second).find? fun listed => listed.1.handle = site.handle with
  | none =>
      rw [List.find?_eq_none] at hfind
      exact Or.inr ⟨fun listed hmem => by simpa using hfind listed hmem, rfl, fun _ => rfl⟩
  | some listed =>
      have hmem := List.mem_of_find?_eq_some hfind
      have hhandle : listed.1.handle = site.handle := by simpa using List.find?_some hfind
      obtain rfl : listed.1 = site :=
        CallSite.eq_of_capture (swappable.of_mem_partners hmem).1 hsite hhandle
      exact Or.inl ⟨listed, hmem, rfl, rfl, fun _ => rfl⟩

theorem partner_of_mem (hmem : listed ∈ partners first second) :
    partner first second listed.1 = listed.2 := by
  rcases swappable.partner_cases (swappable.of_mem_partners hmem).1 with
    ⟨found, hfound, hsame, hpartner, -⟩ | ⟨hnone, -⟩
  · have hlisted : found = listed :=
      List.inj_on_of_nodup_map swappable.exchangeable.nodup_handles hfound hmem
        (congrArg CallSite.handle hsame)
    rw [hpartner, hlisted]
  · exact absurd rfl (hnone listed hmem)

/-- Calls change places with calls of the same primitive. -/
theorem capture_partner (hsite : CallSite.capture program site.handle true = .ok (some site)) :
    CallSite.capture program (partner first second site).handle true =
        .ok (some (partner first second site)) ∧
      (partner first second site).name = site.name := by
  rcases swappable.partner_cases hsite with ⟨listed, hmem, rfl, hpartner, -⟩ | ⟨-, hpartner, -⟩
  · rw [hpartner]
    exact (swappable.of_mem_partners hmem).2
  · rw [hpartner]
    exact ⟨hsite, rfl⟩

/-- What stands in the place of a call is a call in its form with all that its partner brings. -/
theorem replaced_exchanges (hsite : CallSite.capture program site.handle true = .ok (some site))
    {entry : Placed} (hplaced : program.placed? site.handle = some entry) :
    let new := replaced (exchanges first second) site.handle entry.instruction
    let source := partner first second site
    new.operation = site.form.operation (.direct source.target) source.arguments source.result ∧
      new.attributes = source.attributes ∧ new.location = site.location := by
  obtain ⟨found, target, hfound, -, hoperation, hcaptured⟩ := CallSite.capture_eq_some_iff.mp hsite
  obtain rfl : entry = found := Option.some.inj (hplaced.symm.trans hfound)
  rcases swappable.partner_cases hsite with ⟨listed, -, -, hpartner, hnew⟩ | ⟨-, hpartner, hnew⟩
  · simp only [hpartner, hnew]
    exact ⟨rfl, rfl, rfl⟩
  · simp only [hpartner, hnew]
    exact ⟨hoperation, (congrArg CallSite.attributes hcaptured).symm,
      (congrArg CallSite.location hcaptured).symm⟩

variable (replacing : Replacing program (exchanges first second) names after)
include replacing

/-- The calls of the program are what they were, the four with what their partners bring along. -/
theorem exchanging : program.Exchanging after names (replaced (exchanges first second))
    (partner first second) true where
  toRelocation := replacing.relocation
  calls := fun hsite hplaced => swappable.replaced_exchanges hsite hplaced
  target := by
    intro site hsite
    obtain ⟨entry, target, -, htarget, -, hsource⟩ :=
      CallSite.capture_eq_some_iff.mp (swappable.capture_partner hsite).1
    exact ⟨target, htarget, congrArg CallSite.symbol hsource, congrArg CallSite.name hsource⟩
  others := by
    have hcalls : ∀ change ∈ exchanges first second, ∃ site, site.handle = change.1 ∧
        CallSite.capture program site.handle true = .ok (some site) := by
      intro change hmem
      obtain ⟨listed, hlisted, rfl⟩ := List.mem_map.mp hmem
      exact ⟨listed.1, rfl, (swappable.of_mem_partners hlisted).1⟩
    intro handle entry hplaced hnone
    rw [replaced_of_directCallee?_eq_none hcalls hplaced hnone, hnone]

theorem rename_mutex {operand : Operand} (hoperand : operand ∈ [mutex, other]) :
    operand.rename names = operand := by
  refine Operand.rename_eq_self fun handle hhandle => replacing.fixed handle fun hmem => ?_
  obtain ⟨change, hchange, rfl⟩ := List.mem_map.mp hmem
  obtain ⟨listed, hlisted, rfl⟩ := List.mem_map.mp hchange
  refine swappable.mutex_stays operand hoperand listed hlisted ?_
  cases operand with
  | result used => exact congrArg Operand.result (Option.some.inj hhandle)
  | _ => cases hhandle

end Swappable

end LockOperator

end ConcurrencyFaults

import ConcurrencyFaults.Proofs.Locking.Outcomes
import ConcurrencyFaults.Proofs.NamedFunctions

/-!
# Which calls are reported when pairs are matched

Matching the pairs of a program leaves two kinds of warnings: one for each function with indirect
calls, and one for each primitive that is called without arguments and takes part in a comparison
(`CallSite.Incomparable`).  A lock always does.  An unlock does only if its function has a lock of
its family that has an argument; the comparison starts from the lock, so an unlock without arguments
that stands alone is not reported.

A call can be complained about by several locks of its function, but repetitions within one function
are left out, and the functions share no calls.

## Strategy

Complaints are characterized from the inside out, each step by an equivalence: of one comparison
(`compare?_eq_noArgument_iff`), of one lock (`noArgument_mem_ofLock_iff`), of one function
(`noArgument_mem_ofFunction_iff`) and of the program (`mem_complaints_iff`).  The entries of an
index are one for each finding, and the complaints among them are the only warnings
(`warnings_entriesAfter`).
-/

namespace ConcurrencyFaults

open Program

variable {oracle : AliasOracle} {program : Program} {workspace : Workspace} {site lock : CallSite}

/-- A primitive without arguments that a comparison comes upon: a lock, or an unlock in a function
that has a lock of the same family with an argument. -/
structure CallSite.Incomparable (site : CallSite) (program : Program) : Prop where
  captured : CallSite.capture program site.handle true = .ok (some site)
  arguments_eq : site.arguments = []
  compared : ∃ family : LockFamily, site.name = family.name .lock ∨
    site.name = family.name .unlock ∧
      ∃ lock, CallSite.capture program lock.handle true = .ok (some lock) ∧
        lock.function = site.function ∧ lock.name = family.name .lock ∧ lock.arguments ≠ []

/-! ## Complaints

A lock without arguments complains about itself and looks at no unlock. -/

namespace PairFinding

variable {family : LockFamily} {other : CallSite} {mutex : Operand} {sites : List CallSite}

/-- The call that could not be compared. -/
def complaint? : PairFinding → Option CallSite
  | .paired _ => none
  | .noArgument site => some site

@[simp] theorem complaint?_eq_some_iff {finding : PairFinding} :
    finding.complaint? = some site ↔ finding = .noArgument site := by
  cases finding <;> simp [complaint?]

theorem mem_filterMap_complaint? {findings : List PairFinding} :
    site ∈ findings.filterMap complaint? ↔ .noArgument site ∈ findings := by
  simp

theorem compare?_eq_noArgument_iff :
    compare? oracle family lock mutex other = some (.noArgument site) ↔
      other = site ∧ site.handle ≠ lock.handle ∧
        LockFamily.classify? site.name = some (family, .unlock) ∧ site.arguments = [] := by
  constructor
  · intro hcompare
    unfold compare? at hcompare
    split at hcompare
    · cases hcompare
    · rename_i hhandle
      split at hcompare
      · cases hcompare
      · rename_i hrole
        split at hcompare
        · rename_i harguments
          obtain rfl : other = site := by simpa using hcompare
          exact ⟨rfl, hhandle, not_not.mp hrole, harguments⟩
        · split at hcompare
          · simp at hcompare
          · cases hcompare
  · rintro ⟨rfl, hhandle, hrole, harguments⟩
    unfold compare?
    rw [if_neg hhandle, if_neg (not_not.mpr hrole), harguments]

/-- A lock complains about itself, or about the unlocks of its function. -/
theorem noArgument_mem_ofLock_iff :
    .noArgument site ∈ ofLock oracle sites lock ↔
      site.arguments = [] ∧ ∃ family, LockFamily.classify? lock.name = some (family, .lock) ∧
        (lock = site ∨ lock.arguments ≠ [] ∧ site ∈ sites ∧ site.handle ≠ lock.handle ∧
          LockFamily.classify? site.name = some (family, .unlock)) := by
  constructor
  · intro hcomplaint
    unfold ofLock at hcomplaint
    split at hcomplaint
    · rename_i family hrole
      split at hcomplaint
      · rename_i harguments
        obtain rfl : site = lock := by simpa using hcomplaint
        exact ⟨harguments, family, hrole, Or.inl rfl⟩
      · rename_i mutex rest harguments
        obtain ⟨other, hother, hcompare⟩ := List.mem_filterMap.mp hcomplaint
        obtain ⟨rfl, hhandle, hunlock, hnone⟩ := compare?_eq_noArgument_iff.mp hcompare
        exact ⟨hnone, family, hrole, Or.inr ⟨by simp [harguments], hother, hhandle, hunlock⟩⟩
    · cases hcomplaint
  · rintro ⟨hnone, family, hrole, rfl | ⟨harguments, hsite, hhandle, hunlock⟩⟩
    · simp [ofLock, hrole, hnone]
    · obtain ⟨mutex, rest, hmutex⟩ := List.exists_cons_of_ne_nil harguments
      simp only [ofLock, hrole, hmutex]
      exact List.mem_filterMap.mpr
        ⟨site, hsite, compare?_eq_noArgument_iff.mpr ⟨rfl, hhandle, hunlock, hnone⟩⟩

theorem noArgument_mem_ofFunction_iff :
    .noArgument site ∈ ofFunction oracle sites ↔
      site ∈ sites ∧ site.arguments = [] ∧
        ∃ lock ∈ sites, ∃ family, LockFamily.classify? lock.name = some (family, .lock) ∧
          (lock = site ∨ lock.arguments ≠ [] ∧ site.handle ≠ lock.handle ∧
            LockFamily.classify? site.name = some (family, .unlock)) := by
  unfold ofFunction
  rw [List.mem_eraseDups, List.mem_flatMap]
  constructor
  · rintro ⟨lock, hlock, hcomplaint⟩
    obtain ⟨hnone, family, hrole, rfl | ⟨harguments, hsite, hrest⟩⟩ :=
      noArgument_mem_ofLock_iff.mp hcomplaint
    · exact ⟨hlock, hnone, lock, hlock, family, hrole, Or.inl rfl⟩
    · exact ⟨hsite, hnone, lock, hlock, family, hrole, Or.inr ⟨harguments, hrest⟩⟩
  · rintro ⟨hsite, hnone, lock, hlock, family, hrole, hcompared⟩
    refine ⟨lock, hlock, noArgument_mem_ofLock_iff.mpr ⟨hnone, family, hrole, ?_⟩⟩
    exact hcompared.imp_right fun ⟨harguments, hrest⟩ => ⟨harguments, hsite, hrest⟩

theorem nodup_complaints_ofFunction :
    ((ofFunction oracle sites).filterMap complaint?).Nodup := by
  refine List.Nodup.filterMap (fun first second complained hfirst hsecond => ?_)
    (nodup_eraseDups (sites.flatMap (ofLock oracle sites)))
  rw [Option.mem_def, complaint?_eq_some_iff] at hfirst hsecond
  rw [hfirst, hsecond]

end PairFinding

/-! ## The warnings of an index

Functions are in the order of the program, calls in the order in which they are found. -/

namespace PairIndex

variable {results : List PairFinding}

/-- The warning about the indirect calls of a function. -/
def indirectWarning (program : Program) (function : Function) : Entry :=
  .warning (function.name ++ s!": {indirectCalls program function}" ++
    " indirect call(s) cannot be resolved and are not considered for pairing")

/-- The warning about a primitive that has no argument to compare. -/
def argumentWarning (site : CallSite) : Entry :=
  .warning (site.name ++ " call " ++ site.handle.text ++ " in " ++ functionText site.function ++
    " has no arguments; it cannot be paired")

/-- Some instruction of the function calls an operand. -/
def CallsIndirectly (program : Program) (function : Function) : Prop :=
  ∃ handle entry operand, program.placed? handle = some entry ∧ entry.function = function.id ∧
    entry.instruction.operation.callee? = some (.indirect operand)

theorem indirectCalls_pos_iff (consistent : program.Consistent) {function : Function}
    (hfunction : function ∈ program.functions) :
    0 < indirectCalls program function ↔ CallsIndirectly program function := by
  have hmem : ∀ handle, handle ∈ function.handles ↔
      ∃ entry, program.placed? handle = some entry ∧ entry.function = function.id := fun _ =>
    consistent.mem_function_iff (consistent.function?_id hfunction)
  unfold indirectCalls CallsIndirectly
  rw [List.countP_pos_iff]
  constructor
  · rintro ⟨⟨handle, instruction⟩, hlisted, hindirect⟩
    obtain ⟨found, hfound, hinstruction⟩ := List.mem_filterMap.mp hlisted
    obtain ⟨entry, hplaced, hentry⟩ := (hmem found).mp hfound
    rw [instruction?_of_placed? hplaced, Option.map_some, Option.some.injEq,
      Prod.mk.injEq] at hinstruction
    obtain ⟨rfl, rfl⟩ := hinstruction
    dsimp only at hindirect
    split at hindirect
    · rename_i operand hcallee
      exact ⟨found, entry, operand, hplaced, hentry, hcallee⟩
    · cases hindirect
  · rintro ⟨handle, entry, operand, hplaced, hentry, hcallee⟩
    refine ⟨(handle, entry.instruction), List.mem_filterMap.mpr ⟨handle, ?_, ?_⟩, ?_⟩
    · exact (hmem handle).mpr ⟨entry, hplaced, hentry⟩
    · rw [instruction?_of_placed? hplaced, Option.map_some]
    · simp only [hcallee]

/-- Only complaints are warnings: a pair that is found is filed under a kind of its own. -/
theorem warnings_entriesAfter (earlier findings : List PairFinding) :
    (entriesAfter earlier findings).filter (·.kind == .warning) =
      (findings.filterMap PairFinding.complaint?).map argumentWarning := by
  induction findings generalizing earlier with
  | nil => rfl
  | cons finding rest ih =>
      unfold entriesAfter
      cases finding with
      | paired pair =>
          rw [List.filter_cons_of_neg (by simp [entry]), ih]
          rfl
      | noArgument site =>
          rw [List.filter_cons_of_pos rfl, ih]
          rfl

section Findings

variable (consistent : program.Consistent) (calleesExist : program.CalleesExist)
include consistent calleesExist

/-- The complaints of all functions are about the calls that cannot be compared. -/
theorem mem_complaints_iff (hresults : findings oracle program = .ok results) :
    site ∈ results.filterMap PairFinding.complaint? ↔ site.Incomparable program := by
  obtain ⟨found, hfound, hfindings⟩ := findings_eq consistent calleesExist oracle
  rw [hresults] at hfindings
  obtain rfl := Except.ok.inj hfindings
  have hsites : ∀ site, site ∈ found.sites ↔
      CallSite.capture program site.handle true = .ok (some site) ∧
        search.matchesKey site.name = true := fun site =>
    (CallSearch.mem_sites_iff consistent calleesExist hfound).trans CallSearch.finds_iff
  rw [PairFinding.mem_filterMap_complaint?, List.mem_flatMap]
  constructor
  · rintro ⟨group, hgroup, hcomplaint⟩
    obtain ⟨function, -, rfl⟩ := List.mem_map.mp hgroup
    obtain ⟨hsite, hnone, lock, hlock, family, hrole, hcompared⟩ :=
      PairFinding.noArgument_mem_ofFunction_iff.mp hcomplaint
    obtain ⟨hsite, hsiteFunction⟩ := FoundCalls.mem_inFunction.mp hsite
    obtain ⟨hlock, hlockFunction⟩ := FoundCalls.mem_inFunction.mp hlock
    rw [LockFamily.classify?_eq_some_iff] at hrole
    refine ⟨((hsites _).mp hsite).1, hnone, family, ?_⟩
    rcases hcompared with rfl | ⟨harguments, -, hunlock⟩
    · exact Or.inl hrole
    · exact Or.inr ⟨LockFamily.classify?_eq_some_iff.mp hunlock, lock, ((hsites _).mp hlock).1,
        hlockFunction.trans hsiteFunction.symm, hrole, harguments⟩
  · rintro ⟨hsite, hnone, family, hcompared⟩
    -- the lock that complains: the call itself, or the lock that it is compared with
    obtain ⟨lock, hlock, hfunction, hrole, hside⟩ : ∃ lock,
        CallSite.capture program lock.handle true = .ok (some lock) ∧
        lock.function = site.function ∧ lock.name = family.name .lock ∧
        (lock = site ∨ lock.arguments ≠ [] ∧ site.name = family.name .unlock) := by
      rcases hcompared with hname | ⟨hname, lock, hlock, hfunction, hrole, harguments⟩
      · exact ⟨site, hsite, rfl, hname, Or.inl rfl⟩
      · exact ⟨lock, hlock, hfunction, hrole, Or.inr ⟨harguments, hname⟩⟩
    have hlockMem : lock ∈ found.sites :=
      (hsites _).mpr ⟨hlock, hrole ▸ matchesKey_search family .lock⟩
    have hsiteMem : site ∈ found.sites := by
      rcases hside with rfl | ⟨-, hname⟩
      · exact hlockMem
      · exact (hsites _).mpr ⟨hsite, hname ▸ matchesKey_search family .unlock⟩
    refine ⟨(site.function, found.inFunction site.function), ?_, ?_⟩
    · exact List.mem_map.mpr ⟨_, FoundCalls.mem_functions.mpr ⟨site, hsiteMem, rfl⟩, rfl⟩
    · refine PairFinding.noArgument_mem_ofFunction_iff.mpr
        ⟨FoundCalls.mem_inFunction.mpr ⟨hsiteMem, rfl⟩, hnone, lock,
          FoundCalls.mem_inFunction.mpr ⟨hlockMem, hfunction⟩, family,
          LockFamily.classify?_eq_some_iff.mpr hrole, hside.imp_right ?_⟩
      rintro ⟨harguments, hname⟩
      refine ⟨harguments, fun hhandle => ?_, LockFamily.classify?_eq_some_iff.mpr hname⟩
      -- a call with an argument is not the one without
      exact harguments (CallSite.eq_of_capture hsite hlock hhandle ▸ hnone)

theorem nodup_complaints (hresults : findings oracle program = .ok results) :
    (results.filterMap PairFinding.complaint?).Nodup := by
  obtain ⟨found, -, hfindings⟩ := findings_eq consistent calleesExist oracle
  rw [hresults] at hfindings
  obtain rfl := Except.ok.inj hfindings
  have hfunction : ∀ function, ∀ site ∈ (PairFinding.ofFunction oracle
      (found.inFunction function).sites).filterMap PairFinding.complaint?,
      site.function = function := by
    intro function site hsite
    rw [PairFinding.mem_filterMap_complaint?] at hsite
    exact (FoundCalls.mem_inFunction.mp
      (PairFinding.noArgument_mem_ofFunction_iff.mp hsite).1).2
  unfold FoundCalls.perFunction
  rw [List.filterMap_flatMap, List.flatMap_map]
  refine List.pairwise_flatMap.mpr ⟨fun function _ => ?_, found.pairwise_functions.imp ?_⟩
  · exact PairFinding.nodup_complaints_ofFunction
  · rintro function later hlt site hsite other hother rfl
    exact Nat.ne_of_lt hlt ((hfunction _ _ hsite).symm.trans (hfunction _ _ hother))

end Findings

/-- Matching the pairs of a program warns of its indirect calls, once for each function that has
any, and of the primitives that cannot be compared, once for each of them, and of nothing else. -/
theorem warnings_build (consistent : workspace.program.Consistent)
    (calleesExist : workspace.program.CalleesExist) (oracle : AliasOracle) :
    ∃ (index : PairIndex) (entries : List Entry) (functions : List Function)
        (sites : List CallSite),
      build oracle workspace = .ok index
        { workspace with ledger := workspace.ledger.recordAll entries } ∧
      entries.filter (·.kind == .warning) =
        functions.map (indirectWarning workspace.program) ++ sites.map argumentWarning ∧
      functions.Nodup ∧ (∀ function, function ∈ functions ↔
        function ∈ workspace.program.functions ∧ CallsIndirectly workspace.program function) ∧
      sites.Nodup ∧ ∀ site, site ∈ sites ↔ site.Incomparable workspace.program := by
  obtain ⟨found, -, hresults⟩ := findings_eq consistent calleesExist oracle
  have hfunctions : workspace.program.functions.Nodup := consistent.nodup_ids.of_map
  refine ⟨_, _, workspace.program.functions.filter
      fun function => indirectCalls workspace.program function > 0, _,
    build_apply consistent calleesExist oracle, ?_, hfunctions.filter _, fun function => ?_,
    nodup_complaints consistent calleesExist hresults,
    fun site => mem_complaints_iff consistent calleesExist hresults⟩
  · rw [notes_of_findings hresults, List.filter_append, warnings_entriesAfter]
    refine congrArg (· ++ _) (List.filter_eq_self.mpr fun entry hentry => ?_)
    obtain ⟨function, -, rfl⟩ := List.mem_map.mp hentry
    rfl
  · rw [List.mem_filter, decide_eq_true_iff]
    exact and_congr_right fun hmem => indirectCalls_pos_iff consistent hmem

/-- A section whose unlock has no argument, with a lock that has none either and a call through a
parameter before it. -/
def unlockedBlindly : Program :=
  Command.run [.declare "pthread_mutex_lock" .status, .declare "pthread_mutex_unlock" .status,
    .addFunction "main" .void [.pointer], .addBlock 2 "entry",
    .push 2 0 (.ofOperation (.call (.indirect (.parameter 0)) [] .void)),
    .push 2 0 (.ofOperation (.call (.direct 0) [] .status)),
    .push 2 0 (.ofOperation (.call (.direct 0) [.global "mutex"] .status)),
    .push 2 0 (.ofOperation (.call (.direct 1) [] .status)),
    .push 2 0 (.ofOperation (.ret none))]
    { name := "locks" }

theorem consistent_unlockedBlindly : unlockedBlindly.Consistent :=
  Command.consistent_run (Command.consistent_empty "locks") _

theorem warnings_build_unlockedBlindly :
    ∃ (index : PairIndex) (entries : List Entry) (functions : List Function)
        (sites : List CallSite),
      build .identity { program := unlockedBlindly } = .ok index
        { program := unlockedBlindly, ledger := Ledger.empty.recordAll entries } ∧
      entries.filter (·.kind == .warning) =
        functions.map (indirectWarning unlockedBlindly) ++ sites.map argumentWarning ∧
      functions.Nodup ∧ (∀ function, function ∈ functions ↔
        function ∈ unlockedBlindly.functions ∧ CallsIndirectly unlockedBlindly function) ∧
      sites.Nodup ∧ ∀ site, site ∈ sites ↔ site.Incomparable unlockedBlindly :=
  @warnings_build { program := unlockedBlindly } consistent_unlockedBlindly
    (consistent_unlockedBlindly.calleesExist_iff.mpr (by decide)) .identity

/-- Both the lock and the unlock without arguments are reported. -/
example : (findings .identity unlockedBlindly).map
    (fun results => (results.filterMap PairFinding.complaint?).map (·.handle.slot)) =
    .ok [1, 3] := by decide

/-- An unlock without arguments that stands alone. -/
def unlockedAlone : Program :=
  Command.run [.declare "pthread_mutex_unlock" .status, .addFunction "main" .void [],
    .addBlock 1 "entry", .push 1 0 (.ofOperation (.call (.direct 0) [] .status)),
    .push 1 0 (.ofOperation (.ret none))]
    { name := "locks" }

theorem consistent_unlockedAlone : unlockedAlone.Consistent :=
  Command.consistent_run (Command.consistent_empty "locks") _

/-- The call is an unlock without arguments, and nothing is said about it. -/
theorem unlock_unreported :
    (∃ site, CallSite.capture unlockedAlone ⟨0, 0⟩ true = .ok (some site) ∧
      site.name = LockFamily.posix.name .unlock ∧ site.arguments = []) ∧
    ∃ index after, build .identity { program := unlockedAlone } = .ok index after ∧
      after.ledger.journal.ofKind .warning = [] := by
  refine ⟨⟨_, rfl, by decide, rfl⟩, _, _, build_apply consistent_unlockedAlone
    (consistent_unlockedAlone.calleesExist_iff.mpr (by decide)) .identity, ?_⟩
  decide

end PairIndex

end ConcurrencyFaults

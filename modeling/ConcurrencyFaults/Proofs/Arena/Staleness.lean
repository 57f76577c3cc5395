import ConcurrencyFaults.Proofs.Arena.Commands

/-!
# Stale handles stay stale

A handle is answered again after it was erased only when the generation of its slot has gone once
around, which takes as many releases of that slot as there are generations.  The invariant behind
this counts: `releases` releases after a handle was issued, its slot has the generation that many
steps further on (`Passed`), and is still filled if there was no release.  Within the window the
slot therefore never has the handle's generation again, and a handle that is issued has the
generation of its slot.

## Strategy

* `Stale.of_placed?`: a handle that is not answered is refused by every question and every edit, so
  all that matters is the occupancy of its slot.
* `GenerationsBounded`: generations stay below the limit, which makes the arithmetic of the window
  exact.
* `Passed.step` is what one command preserves.  A command may release the slot, or fill it again, or
  do neither, and it cannot do both (`Effect.slot_ne`).  The only way back would be a handle that is
  issued with the old generation, and `Passed.continued` excludes it within the window.
* `passed_run` is the induction on the commands that follow, and `stale_of_erased` counts from the
  insertion on.
-/

namespace ConcurrencyFaults

namespace Program

/-- Every question about a handle and every edit of it is refused, and no refusal changes the
program. -/
structure Stale (program : Program) (handle : Handle) : Prop where
  isLive : program.isLive handle = false
  instruction : program.instruction handle = .error (.staleHandle handle)
  change : ∀ change,
    changeInstruction handle change program = .error (.staleHandle handle) program
  parent : program.parent handle = .error (.staleHandle handle)
  useCount : program.useCount handle = .error (.staleHandle handle)
  users : program.users handle = .error (.staleHandle handle)
  position : program.position handle = .error (.staleHandle handle)
  step : ∀ steps, program.step handle steps = .error (.staleHandle handle)
  insertBefore : ∀ instruction,
    insertBefore handle instruction program = .error (.staleHandle handle) program
  insertRelative : ∀ instruction steps,
    insertRelative handle instruction steps program = .error (.staleHandle handle) program
  replaceAllUses : ∀ value,
    replaceAllUses handle value program = .error (.staleHandle handle) program
  erase : erase handle program = .error (.staleHandle handle) program
  eraseOrZero : ∀ width signed,
    eraseOrZero handle width signed program = .error (.staleHandle handle) program
  replaceWith : ∀ new, replaceWith handle new program = .error (.staleHandle handle) program

variable {program : Program} {handle : Handle}

theorem Stale.of_placed? (hstale : program.placed? handle = none) : program.Stale handle where
  isLive := by simp [Program.isLive, hstale]
  instruction := instruction_of_stale hstale
  change := changeInstruction_of_stale hstale
  parent := parent_of_stale hstale
  useCount := useCount_of_stale hstale
  users := users_of_stale hstale
  position := position_of_stale hstale
  step := step_of_stale hstale
  insertBefore := insertBefore_of_stale hstale
  insertRelative := insertRelative_of_stale hstale
  replaceAllUses := replaceAllUses_of_stale hstale
  erase := erase_of_stale hstale
  eraseOrZero := eraseOrZero_of_stale hstale
  replaceWith := replaceWith_of_stale hstale

/-! ## Generations in reach -/

/-- No slot is of a generation beyond the last. -/
def GenerationsBounded (program : Program) : Prop :=
  ∀ slot generation filled, program.occupancy slot = some (generation, filled) →
    generation < Slot.generationLimit

theorem generationLimit_pos : 0 < Slot.generationLimit := by
  unfold Slot.generationLimit
  exact Nat.pow_pos (by decide)

/-- The next handle continues the generation of its empty slot, or starts a new slot. -/
theorem occupancy_nextHandle (hfree : program.FreeListExact) :
    program.occupancy program.nextHandle.slot = some (program.nextHandle.generation, false) ∨
      program.nextHandle.generation = 0 := by
  rcases slot_nextHandle hfree with hslot | ⟨-, hfirst⟩
  · left
    simp [occupancy, hslot]
  · exact Or.inr hfirst

theorem nextHandle_generation_lt (hfree : program.FreeListExact)
    (hbounded : program.GenerationsBounded) :
    program.nextHandle.generation < Slot.generationLimit := by
  rcases occupancy_nextHandle hfree with hslot | hfirst
  · exact hbounded _ _ _ hslot
  · rw [hfirst]
    exact generationLimit_pos

end Program

open Program

variable {before after : Program} {trace : Trace}

/-- How often a command released a slot. -/
def Trace.releases (trace : Trace) (slot : Nat) : Nat :=
  trace.erased?.toList.countP (·.slot == slot)

/-- The slots that an issued and an erased handle are not of stay as they are. -/
theorem Trace.applyTo_of_ne {occupancy : Nat → Option (Nat × Bool)} {slot : Nat}
    (hissued : ∀ handle, trace.issued? = some handle → handle.slot ≠ slot)
    (herased : ∀ handle, trace.erased? = some handle → handle.slot ≠ slot) :
    trace.applyTo occupancy slot = occupancy slot := by
  obtain ⟨issued?, erased?⟩ := trace
  cases issued? <;> cases erased? <;>
    simp_all [applyTo, Function.update_of_ne, Ne.symm]

theorem Trace.applyTo_erased {occupancy : Nat → Option (Nat × Bool)} {handle : Handle}
    (herased : trace.erased? = some handle) :
    trace.applyTo occupancy handle.slot =
      some ((handle.generation + 1) % Slot.generationLimit, false) := by
  simp [applyTo, herased]

theorem Trace.applyTo_issued {occupancy : Nat → Option (Nat × Bool)} {handle : Handle}
    (hissued : trace.issued? = some handle)
    (herased : ∀ other, trace.erased? = some other → other.slot ≠ handle.slot) :
    trace.applyTo occupancy handle.slot = some (handle.generation, true) := by
  obtain ⟨issued?, erased?⟩ := trace
  cases hissued
  cases erased? <;> simp_all [applyTo, Function.update_of_ne, Ne.symm]

namespace Effect

variable (effect : Effect before trace after) (consistent : before.Consistent)
include effect consistent

/-- A command that issues and erases does so in different slots. -/
theorem slot_ne {issued erased : Handle} (hissued : trace.issued? = some issued)
    (herased : trace.erased? = some erased) : erased.slot ≠ issued.slot := by
  obtain ⟨entry, hplaced⟩ := effect.erased erased herased
  rw [effect.issued issued hissued]
  exact slot_ne_nextHandle consistent.toFreeListExact hplaced

theorem occupancy_issued {handle : Handle} (hissued : trace.issued? = some handle) :
    after.occupancy handle.slot = some (handle.generation, true) := by
  rw [effect.occupancy]
  exact Trace.applyTo_issued hissued fun _ herased => effect.slot_ne consistent hissued herased

theorem generationsBounded (hbounded : before.GenerationsBounded) : after.GenerationsBounded := by
  intro slot generation filled hslot
  by_cases herased : ∃ handle, trace.erased? = some handle ∧ handle.slot = slot
  · obtain ⟨handle, herased, rfl⟩ := herased
    rw [effect.occupancy, Trace.applyTo_erased herased, Option.some.injEq, Prod.mk.injEq] at hslot
    rw [← hslot.1]
    exact Nat.mod_lt _ generationLimit_pos
  · by_cases hissued : ∃ handle, trace.issued? = some handle ∧ handle.slot = slot
    · obtain ⟨handle, hissued, rfl⟩ := hissued
      rw [effect.occupancy_issued consistent hissued, Option.some.injEq, Prod.mk.injEq] at hslot
      rw [← hslot.1, effect.issued handle hissued]
      exact nextHandle_generation_lt consistent.toFreeListExact hbounded
    · rw [effect.occupancy, Trace.applyTo_of_ne] at hslot
      · exact hbounded slot generation filled hslot
      · exact fun handle hsome hsame => hissued ⟨handle, hsome, hsame⟩
      · exact fun handle hsome hsame => herased ⟨handle, hsome, hsame⟩

end Effect

/-! ## Counting releases

`Passed program handle releases` forgets everything about the history but a number.  Without a
release the slot is still filled, which is why the next handle of the same slot cannot be issued
before the first one. -/

/-- Some releases of its slot after a handle was issued. -/
def Passed (program : Program) (handle : Handle) (releases : Nat) : Prop :=
  ∃ filled, (releases = 0 → filled = true) ∧
    program.occupancy handle.slot =
      some ((handle.generation + releases) % Slot.generationLimit, filled)

private theorem add_mod_ne {generation steps limit : Nat} (hgeneration : generation < limit)
    (hpos : 0 < steps) (hsteps : steps < limit) : (generation + steps) % limit ≠ generation := by
  rcases Nat.lt_or_ge (generation + steps) limit with hlt | hge
  · rw [Nat.mod_eq_of_lt hlt]
    omega
  · rw [Nat.mod_eq_sub_mod hge, Nat.mod_eq_of_lt (by omega)]
    omega

theorem Passed.stale {program : Program} {handle : Handle} {releases : Nat}
    (hpassed : Passed program handle releases)
    (hgeneration : handle.generation < Slot.generationLimit) (hpos : 0 < releases)
    (hwindow : releases < Slot.generationLimit) : program.Stale handle := by
  obtain ⟨filled, -, hslot⟩ := hpassed
  exact Stale.of_placed? (placed?_eq_none_of_occupancy hslot
    (Or.inr (add_mod_ne hgeneration hpos hwindow)))

/-- The next handle of the same slot is issued after a release, and continues the count. -/
theorem Passed.continued {program : Program} {handle : Handle} {releases : Nat}
    (hpassed : Passed program handle releases) (hfree : program.FreeListExact)
    (hsame : program.nextHandle.slot = handle.slot) :
    0 < releases ∧
      program.nextHandle.generation = (handle.generation + releases) % Slot.generationLimit := by
  obtain ⟨filled, hfilled, hslot⟩ := hpassed
  rw [← hsame] at hslot
  rcases slot_nextHandle hfree with hfound | ⟨hfound, -⟩
  · simp only [occupancy, hfound, Option.map_some, Option.some.injEq, Prod.mk.injEq] at hslot
    refine ⟨Nat.pos_of_ne_zero fun hzero => ?_, hslot.1⟩
    -- without a release the slot would still be filled
    rw [hfilled hzero] at hslot
    exact absurd hslot.2 (by simp)
  · simp [occupancy, hfound] at hslot

/-- One command releases the slot of the handle at most once and does not issue the handle. -/
theorem Passed.step {handle : Handle} {releases : Nat} (effect : Effect before trace after)
    (consistent : before.Consistent) (hpassed : Passed before handle releases)
    (hgeneration : handle.generation < Slot.generationLimit)
    (hwindow : releases < Slot.generationLimit) :
    Passed after handle (releases + trace.releases handle.slot) ∧ trace.issued? ≠ some handle := by
  obtain ⟨filled, hfilled, hslot⟩ := id hpassed
  -- the slot is released, or it is filled by the next handle, or it is not touched
  by_cases herased : ∃ erased, trace.erased? = some erased ∧ erased.slot = handle.slot
  · obtain ⟨erased, herased, hsame⟩ := herased
    obtain ⟨entry, hplaced⟩ := effect.erased erased herased
    have hbefore := occupancy_of_placed? hplaced
    rw [hsame, hslot, Option.some.injEq, Prod.mk.injEq] at hbefore
    have hone : trace.releases handle.slot = 1 := by simp [Trace.releases, herased, hsame]
    rw [hone]
    refine ⟨⟨false, by simp, ?_⟩, fun hissued => ?_⟩
    · calc after.occupancy handle.slot
        _ = trace.applyTo before.occupancy erased.slot := by rw [effect.occupancy, hsame]
        _ = some ((erased.generation + 1) % Slot.generationLimit, false) :=
          Trace.applyTo_erased herased
        _ = some ((handle.generation + (releases + 1)) % Slot.generationLimit, false) := by
          rw [← hbefore.1, Nat.mod_add_mod, Nat.add_assoc]
    · exact effect.slot_ne consistent hissued herased hsame
  · have hnone : trace.releases handle.slot = 0 := by
      unfold Trace.releases
      rw [List.countP_eq_zero]
      intro erased hmem hsame
      exact herased ⟨erased, Option.mem_toList.mp hmem, eq_of_beq hsame⟩
    rw [hnone, Nat.add_zero]
    by_cases hissued : ∃ issued, trace.issued? = some issued ∧ issued.slot = handle.slot
    · obtain ⟨issued, hissued, hsame⟩ := hissued
      have hslotIssued := effect.occupancy_issued consistent hissued
      obtain rfl := effect.issued issued hissued
      obtain ⟨hpos, hcontinued⟩ := hpassed.continued consistent.toFreeListExact hsame
      refine ⟨⟨true, fun _ => rfl, ?_⟩, fun heq => ?_⟩
      · rw [← hsame, hslotIssued, hcontinued]
      · -- the handle itself would have the generation of the slot, less than one turn later
        obtain rfl : before.nextHandle = handle := Option.some.inj (hissued.symm.trans heq)
        exact add_mod_ne hgeneration hpos hwindow hcontinued.symm
    · refine ⟨⟨filled, hfilled, ?_⟩, fun heq => hissued ⟨handle, heq, rfl⟩⟩
      rw [effect.occupancy, Trace.applyTo_of_ne, hslot]
      · exact fun issued hsome hsame => hissued ⟨issued, hsome, hsame⟩
      · exact fun erased hsome hsame => herased ⟨erased, hsome, hsame⟩

namespace Command

/-- How often a sequence of commands releases a slot. -/
def releasesIn (slot : Nat) (commands : List Command) (program : Program) : Nat :=
  (erasedIn commands program).countP (·.slot == slot)

variable {program : Program} {handle : Handle}

theorem releasesIn_cons (slot : Nat) (command : Command) (rest : List Command) :
    releasesIn slot (command :: rest) program =
      (command.perform program).1.releases slot +
        releasesIn slot rest (command.perform program).2 := by
  unfold releasesIn erasedIn Trace.releases
  rw [traces, List.filterMap_cons]
  cases (command.perform program).1.erased? with
  | none => simp
  | some erased => simp [List.countP_cons, Nat.add_comm]

theorem issuedIn_cons (command : Command) (rest : List Command) :
    issuedIn (command :: rest) program =
      (command.perform program).1.issued?.toList ++ issuedIn rest (command.perform program).2 := by
  unfold issuedIn
  rw [traces, List.filterMap_cons]
  cases (command.perform program).1.issued? <;> rfl

/-- The releases of a slot add up over a run, and within the window no command issues the handle. -/
theorem passed_run {releases : Nat} (consistent : program.Consistent)
    (hgeneration : handle.generation < Slot.generationLimit)
    (hpassed : Passed program handle releases) (commands : List Command)
    (hwindow : releases + releasesIn handle.slot commands program < Slot.generationLimit) :
    Passed (run commands program) handle (releases + releasesIn handle.slot commands program) ∧
      handle ∉ issuedIn commands program := by
  -- on the commands; the window is that of the whole run, and each step uses up its own releases
  induction commands generalizing program releases with
  | nil => exact ⟨hpassed, List.not_mem_nil⟩
  | cons command rest ih =>
      have heffect := command.effect consistent
      rw [releasesIn_cons] at hwindow ⊢
      obtain ⟨hnext, hissued⟩ := hpassed.step heffect consistent hgeneration (by omega)
      rw [← Nat.add_assoc] at hwindow ⊢
      obtain ⟨hlast, hlater⟩ := ih heffect.consistent hnext hwindow
      refine ⟨hlast, ?_⟩
      rw [issuedIn_cons, List.mem_append, not_or, Option.mem_toList]
      exact ⟨hissued, hlater⟩

theorem generationsBounded_run (consistent : program.Consistent)
    (hbounded : program.GenerationsBounded) (commands : List Command) :
    (run commands program).GenerationsBounded := by
  induction commands generalizing program with
  | nil => exact hbounded
  | cons command rest ih =>
      have heffect := command.effect consistent
      exact ih heffect.consistent (heffect.generationsBounded consistent hbounded)

theorem releasesIn_pos {commands : List Command} (herased : handle ∈ erasedIn commands program) :
    0 < releasesIn handle.slot commands program :=
  List.countP_pos_iff.mpr ⟨handle, herased, by simp⟩

/-- Take any history that starts from an empty program, with an insertion in it that issued
`handle`.  As long as the slot of `handle` has been released fewer times since than there are
generations, no command has issued `handle` again; and once `handle` was erased, every question
about it and every edit of it is refused as stale. -/
theorem stale_of_erased (name : String) (earlier : List Command) (insertion : Command)
    (later : List Command) {handle : Handle}
    (hissued : (insertion.perform (run earlier { name })).1.issued? = some handle)
    (hwindow : releasesIn handle.slot later (run (earlier ++ [insertion]) { name }) <
      Slot.generationLimit) :
    handle ∉ issuedIn later (run (earlier ++ [insertion]) { name }) ∧
      (handle ∈ erasedIn later (run (earlier ++ [insertion]) { name }) →
        (run (earlier ++ insertion :: later) { name }).Stale handle) := by
  have consistent := consistent_run (consistent_empty name) earlier
  have heffect := insertion.effect consistent
  have hrun : run (earlier ++ [insertion]) { name } =
      (insertion.perform (run earlier { name })).2 := by
    simp [run]
  have hwhole : run (earlier ++ insertion :: later) { name } =
      run later (run (earlier ++ [insertion]) { name }) := by
    simp [run]
  have hbounded : (run (earlier ++ [insertion]) { name }).GenerationsBounded :=
    generationsBounded_run (consistent_empty name) (by simp [GenerationsBounded, occupancy]) _
  have hslot := heffect.occupancy_issued consistent hissued
  rw [← hrun] at hslot
  have hgeneration := hbounded _ _ _ hslot
  have hfresh : Passed (run (earlier ++ [insertion]) { name }) handle 0 :=
    ⟨true, fun _ => rfl, by rw [hslot, Nat.add_zero, Nat.mod_eq_of_lt hgeneration]⟩
  obtain ⟨hpassed, hnever⟩ := passed_run (hrun ▸ heffect.consistent) hgeneration hfresh later
    (by omega)
  refine ⟨hnever, fun herased => ?_⟩
  rw [hwhole]
  refine hpassed.stale hgeneration ?_ (by omega)
  have hpos := releasesIn_pos herased
  omega

/-- The slot of an erased instruction goes to the next one that is inserted, under a new handle. -/
theorem stale_of_reused_slot :
    (run [.addFunction "main" .void [], .addBlock 0 "entry", .push 0 0 (.ofOperation .unreachable),
      .erase ⟨0, 0⟩, .push 0 0 (.ofOperation (.ret none))] { name := "reuse" }).Stale ⟨0, 0⟩ :=
  (stale_of_erased "reuse" [.addFunction "main" .void [], .addBlock 0 "entry"]
    (.push 0 0 (.ofOperation .unreachable))
    [.erase ⟨0, 0⟩, .push 0 0 (.ofOperation (.ret none))] (by decide) (by decide)).2 (by decide)

end Command

end ConcurrencyFaults

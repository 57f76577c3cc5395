import ConcurrencyFaults.Proofs.Relisting
import Mathlib.Data.List.Perm.Subperm

/-!
# Counting steps

Distances, walks and relative insertions count single steps along the visitation order of one
function.  Read through places in that order, a distance is a difference of places, a walk ends at
the sum of its start and its steps, cut to the order (`reach`), and a relative insertion puts a new
instruction at the place where the walk ends.

Walks are counted in 64-bit words: a signed number of steps, whose amount is unsigned, and sums and
differences that stop at the ends of the range.  `wordReach` computes the end of a walk in this way.

## Strategy

* Handles are turned into places once (`Consistent.exists_place`, `Consistent.distance_eq`); the
  laws of distances and walks are then linear arithmetic (`metric_of_places`, `exists_walks`).
* Nothing is lost in words as long as the order has fewer than 2^63 places (`wordReach_eq`).  The
  same bound makes the conversion of an unsigned number of steps harmless: a walk that is too long
  for a signed word leaves the function however it is cut (`Consistent.step_longestWalk`).
* An insertion ahead of the end of a walk puts one place into the order (`PutsAhead.distance_new`),
  so the distance is the number of steps, except at the start itself.
-/

namespace ConcurrencyFaults

/-! ## Words

The operations on words are read as operations on numbers. -/

namespace Word

/-- The sum of two words, or the greatest word if they overflow. -/
def saturatingAdd (first second : UInt64) : UInt64 :=
  if first + second < first then -1 else first + second

/-- The difference of two words, or zero if it is negative. -/
def saturatingSub (first second : UInt64) : UInt64 :=
  if second ≤ first then first - second else 0

/-- The amount of a signed word.  It fits an unsigned one, also that of the least. -/
def magnitude (steps : Int64) : UInt64 :=
  if steps < 0 then 0 - steps.toUInt64 else steps.toUInt64

theorem toNat_saturatingAdd (first second : UInt64) :
    (saturatingAdd first second).toNat = min (first.toNat + second.toNat) (UInt64.size - 1) := by
  have hfirst := first.toNat_lt
  have hsecond := second.toNat_lt
  have hsum := UInt64.toNat_add first second
  have hgreatest : (-1 : UInt64).toNat = UInt64.size - 1 := rfl
  unfold saturatingAdd
  simp only [UInt64.lt_iff_toNat_lt]
  unfold UInt64.size at *
  split <;> omega

theorem toNat_saturatingSub (first second : UInt64) :
    (saturatingSub first second).toNat = first.toNat - second.toNat := by
  unfold saturatingSub
  simp only [UInt64.le_iff_toNat_le]
  split
  · rename_i hle
    exact UInt64.toNat_sub_of_le _ _ (UInt64.le_iff_toNat_le.mpr hle)
  · rename_i hlt
    have hzero : (0 : UInt64).toNat = 0 := rfl
    omega

theorem toNat_magnitude (steps : Int64) : (magnitude steps).toNat = steps.toInt.natAbs := by
  have hbits : steps.toInt = if 2 * steps.toUInt64.toNat < 2 ^ 64 then (steps.toUInt64.toNat : Int)
      else steps.toUInt64.toNat - 2 ^ 64 := BitVec.toInt_eq_toNat_cond steps.toBitVec
  have hword := steps.toUInt64.toNat_lt
  have hnegated : (0 - steps.toUInt64).toNat = (2 ^ 64 - steps.toUInt64.toNat + 0) % 2 ^ 64 :=
    UInt64.toNat_sub 0 steps.toUInt64
  have hzero : (0 : Int64).toInt = 0 := rfl
  unfold magnitude
  simp only [Int64.lt_iff_toInt_lt, hzero]
  split at hbits <;> split <;> omega

end Word

namespace Program

variable {program after : Program} {first second third start new : Handle} {function : FunctionId}
  {place earlier later : Nat}

/-! ## Distances

Each instruction has one place in the order of its function, and the order has no other places. -/

namespace Consistent

variable (consistent : program.Consistent)
include consistent

theorem exists_place (hfunction : program.functionOf? start = some function) :
    ∃ place : Nat, (program.handlesIn function)[place]? = some start :=
  List.mem_iff_getElem?.mp (consistent.mem_handlesIn_iff.mpr hfunction)

theorem place_unique (hfirst : (program.handlesIn function)[earlier]? = some start)
    (hsecond : (program.handlesIn function)[later]? = some start) : earlier = later := by
  have hlength := (List.getElem?_eq_some_iff.mp hfirst).1
  have hnodup := consistent.nodup_handlesIn function
  exact (List.getElem?_inj hlength hnodup).mp (hfirst.trans hsecond.symm)

/-- The distance of two instructions is the difference of their places. -/
theorem distance_eq (hfirst : (program.handlesIn function)[earlier]? = some first)
    (hsecond : (program.handlesIn function)[later]? = some second) :
    program.distance first second = .ok (max earlier later - min earlier later) := by
  obtain ⟨firstEntry, hfirstPlaced, rfl⟩ := consistent.exists_of_getElem? hfirst
  obtain ⟨secondEntry, hsecondPlaced, hsame⟩ := consistent.exists_of_getElem? hsecond
  rw [← hsame] at hsecond
  have hfirstPosition := (consistent.position_eq_ok_iff hfirstPlaced).mpr hfirst
  have hsecondPosition := (consistent.position_eq_ok_iff hsecondPlaced).mpr hsecond
  simp [distance, parent_of_placed? hfirstPlaced, parent_of_placed? hsecondPlaced, hsame,
    hfirstPosition, hsecondPosition, bind, Except.bind, pure, Except.pure]

end Consistent

/-- Distances between three instructions are symmetric, separate them and add up. -/
structure Metric (program : Program) (first second third : Handle) : Prop where
  symm : program.distance first second = program.distance second first
  zero_iff : program.distance first second = .ok 0 ↔ first = second
  triangle : ∃ there onward direct, program.distance first second = .ok there ∧
    program.distance second third = .ok onward ∧ program.distance first third = .ok direct ∧
    direct ≤ there + onward

theorem metric_of_places (consistent : program.Consistent) {last : Nat}
    (hfirst : (program.handlesIn function)[earlier]? = some first)
    (hsecond : (program.handlesIn function)[later]? = some second)
    (hthird : (program.handlesIn function)[last]? = some third) :
    program.Metric first second third where
  symm := by
    rw [consistent.distance_eq hfirst hsecond, consistent.distance_eq hsecond hfirst,
      Nat.max_comm, Nat.min_comm]
  zero_iff := by
    rw [consistent.distance_eq hfirst hsecond, Except.ok.injEq]
    constructor
    · intro hzero
      have hplaces : earlier = later := by omega
      rw [hplaces] at hfirst
      exact Option.some.inj (hfirst.symm.trans hsecond)
    · intro hsame
      rw [hsame] at hfirst
      have hplaces := consistent.place_unique hfirst hsecond
      omega
  triangle := by
    refine ⟨_, _, _, consistent.distance_eq hfirst hsecond, consistent.distance_eq hsecond hthird,
      consistent.distance_eq hfirst hthird, ?_⟩
    omega

/-! ## Walks

`reach` cuts the sum of a place and of steps to the order.  A walk is clamped where there was
something to cut. -/

/-- A walk from `start`, which stands at `place`, ends where its steps lead, or at the end of the
order that they would pass. -/
structure Walks (program : Program) (order : List Handle) (start : Handle) (place : Nat)
    (steps : Int) (step : Step) : Prop where
  step_eq : program.step start steps = .ok step
  target_eq : order[reach order.length place steps]? = some step.target
  clamped_iff : step.clamped = true ↔ place + steps < 0 ∨ order.length ≤ place + steps
  distance_iff : program.distance start step.target = .ok steps.natAbs ↔ step.clamped = false

theorem exists_walks (consistent : program.Consistent)
    (hplace : (program.handlesIn function)[place]? = some start) (steps : Int) :
    ∃ step, program.Walks (program.handlesIn function) start place steps step := by
  have hlt := (List.getElem?_eq_some_iff.mp hplace).1
  have htarget := List.getElem?_eq_getElem (reach_lt hlt steps)
  have hstep := consistent.step_eq hplace htarget
  have hclamped : (decide (place + steps < 0) ||
      decide (place + steps > ((program.handlesIn function).length - 1 : Nat))) = true ↔
        place + steps < 0 ∨ (program.handlesIn function).length ≤ place + steps := by
    rw [Bool.or_eq_true, decide_eq_true_eq, decide_eq_true_eq]
    omega
  refine ⟨_, hstep, htarget, hclamped, ?_⟩
  rw [consistent.distance_eq hplace htarget, Except.ok.injEq, ← Bool.not_eq_true, hclamped]
  unfold reach
  omega

/-! ### Walks in words -/

/-- Where a walk ends in an order of some length, and whether it was cut short, all in words. -/
def wordReach (length place : UInt64) (steps : Int64) : UInt64 × Bool :=
  if 0 ≤ steps then
    let wanted := Word.saturatingAdd place (Word.magnitude steps)
    (min wanted (length - 1), length - 1 < wanted)
  else
    (Word.saturatingSub place (Word.magnitude steps), place < Word.magnitude steps)

/-- A number up to that of the longest walk is what its word says. -/
theorem toNat_word {number : Nat} (hnumber : number ≤ longestWalk) :
    (UInt64.ofNat number).toNat = number :=
  UInt64.toNat_ofNat_of_lt' (Nat.lt_of_le_of_lt hnumber (by decide))

/-- In an order that is not too long, words lose nothing. -/
theorem wordReach_eq {length : Nat} (hplace : place < length) (hlength : length ≤ longestWalk)
    (steps : Int64) :
    wordReach (.ofNat length) (.ofNat place) steps =
      (.ofNat (reach length place steps.toInt),
        decide (place + steps.toInt < 0 ∨ length ≤ place + steps.toInt)) := by
  have hlast : (UInt64.ofNat length - 1).toNat = length - 1 := by
    have hone : (1 : UInt64).toNat = 1 := rfl
    have hle : (1 : UInt64) ≤ UInt64.ofNat length := by
      rw [UInt64.le_iff_toNat_le, toNat_word hlength]
      omega
    rw [UInt64.toNat_sub_of_le _ _ hle, toNat_word hlength, hone]
  have hplaceWord := toNat_word (Nat.le_trans (Nat.le_of_lt hplace) hlength)
  have hreached := toNat_word (Nat.le_trans (Nat.le_of_lt (reach_lt hplace steps.toInt)) hlength)
  have hamount := Word.toNat_magnitude steps
  have hgreatest : steps.toInt ≤ longestWalk := Int64.toInt_le steps
  have hroom : 2 * longestWalk ≤ UInt64.size - 1 := by decide
  have hsigned : 0 ≤ steps ↔ 0 ≤ steps.toInt := Int64.le_iff_toInt_le
  unfold wordReach
  split
  · rename_i hforward
    rw [hsigned] at hforward
    have hwanted : (Word.saturatingAdd (.ofNat place) (Word.magnitude steps)).toNat =
        place + steps.toInt.natAbs := by
      rw [Word.toNat_saturatingAdd, hplaceWord, hamount]
      omega
    refine Prod.ext (UInt64.toNat_inj.mp ?_) (decide_eq_decide.mpr ?_)
    · rw [hreached, UInt64.toNat_min, hwanted, hlast]
      unfold reach
      omega
    · rw [UInt64.lt_iff_toNat_lt, hwanted, hlast]
      omega
  · rename_i hbackward
    rw [hsigned] at hbackward
    refine Prod.ext (UInt64.toNat_inj.mp ?_) (decide_eq_decide.mpr ?_)
    · rw [hreached, Word.toNat_saturatingSub, hplaceWord, hamount]
      unfold reach
      omega
    · rw [UInt64.lt_iff_toNat_lt, hplaceWord, hamount]
      omega

/-! ## Relative insertions

A number of steps is cut to the longest walk before it is walked. -/

/-- No function holds more instructions than the program. -/
theorem Consistent.length_handlesIn_le (consistent : program.Consistent) (function : FunctionId) :
    (program.handlesIn function).length ≤ program.handles.length := by
  have hnodup := consistent.nodup_handlesIn function
  refine (List.subperm_of_subset hnodup fun handle hmem => ?_).length_le
  obtain ⟨entry, hplaced, -⟩ := consistent.exists_of_mem_handlesIn hmem
  exact consistent.mem_handles_iff_placed?.mpr ⟨entry, hplaced⟩

/-- A walk that is too long for a signed word leaves the function also when it is cut. -/
theorem Consistent.step_longestWalk (consistent : program.Consistent)
    (hplace : (program.handlesIn function)[place]? = some start)
    (hlength : (program.handlesIn function).length ≤ longestWalk) (steps : Nat) :
    program.step start (min steps longestWalk : Nat) = program.step start steps := by
  obtain ⟨cut, hcut⟩ := exists_walks consistent hplace (min steps longestWalk : Nat)
  obtain ⟨whole, hwhole⟩ := exists_walks consistent hplace steps
  have htarget : cut.target = whole.target := by
    refine Option.some.inj ?_
    calc some cut.target
      _ = (program.handlesIn function)[reach (program.handlesIn function).length place
            (min steps longestWalk : Nat)]? := hcut.target_eq.symm
      _ = (program.handlesIn function)[reach (program.handlesIn function).length place steps]? := by
        -- where the two differ, both lead past the end
        congr 1
        unfold reach
        omega
      _ = some whole.target := hwhole.target_eq
  have hclamped : cut.clamped = whole.clamped := by
    rw [Bool.eq_iff_iff, hcut.clamped_iff, hwhole.clamped_iff]
    omega
  rw [hcut.step_eq, hwhole.step_eq]
  exact congrArg Except.ok (by cases cut; cases whole; simp_all)

theorem PutsAhead.filter_handlesIn {anchor : Handle} {instruction : Instruction}
    (hputs : program.PutsAhead after anchor new instruction) (consistent : program.Consistent)
    (function : FunctionId) :
    (after.handlesIn function).filter (· != new) = program.handlesIn function := by
  rw [hputs.relists.handlesIn_eq, List.filter_flatMap]
  refine flatMap_eq_self fun handle hmem => ?_
  obtain ⟨entry, hplaced, -⟩ := consistent.exists_of_mem_handlesIn hmem
  have hne := ne_of_placed? hplaced hputs.fresh
  by_cases hanchor : handle = anchor
  · subst hanchor
    simp [hne]
  · simp [instead_of_ne hanchor, hne]

/-- The new instruction is as far away as the one that it stands ahead of was, but never at its own
place. -/
theorem PutsAhead.distance_new {anchor : Handle} {instruction : Instruction} {steps : Nat}
    (hputs : program.PutsAhead after anchor new instruction) (consistent : program.Consistent)
    (hplace : (program.handlesIn function)[place]? = some start)
    (hanchor : (program.handlesIn function)[place + steps]? = some anchor) :
    after.distance start new = .ok (max steps 1) := by
  have horder := hputs.handlesIn_eq consistent hanchor
  have hwithin := (List.getElem?_eq_some_iff.mp hanchor).1
  have hnew : (after.handlesIn function)[place + steps]? = some new := by
    rw [horder, List.getElem?_insertIdx_self, if_pos (Nat.le_of_lt hwithin)]
  -- without steps the start itself makes room for the new instruction
  rcases Nat.eq_zero_or_pos steps with rfl | hpos
  · have hstart : (after.handlesIn function)[place + 1]? = some start := by
      rw [horder, List.getElem?_insertIdx_of_gt (by omega), Nat.add_sub_cancel, hplace]
    rw [hputs.relists.consistent.distance_eq hstart hnew]
    exact congrArg Except.ok (by omega)
  · have hstart : (after.handlesIn function)[place]? = some start := by
      rw [horder, List.getElem?_insertIdx_of_lt (by omega), hplace]
    rw [hputs.relists.consistent.distance_eq hstart hnew]
    exact congrArg Except.ok (by omega)

/-- A relative insertion puts the new instruction directly ahead of the one where the walk ends, in
its block. -/
structure InsertsAhead (before after : Program) (order : List Handle) (base : Handle) (place : Nat)
    (instruction : Instruction) (steps : Nat) (new : Handle) (step : Step) : Prop where
  walks : before.Walks order base place steps step
  insertRelative_eq :
    insertRelative base instruction steps before = .ok (new, step.clamped) after
  putsAhead : before.PutsAhead after step.target new instruction
  order_eq : ∀ function, (after.handlesIn function).filter (· != new) = before.handlesIn function
  distance_eq : step.clamped = false → after.distance base new = .ok (max steps 1)

theorem exists_insertsAhead (consistent : program.Consistent)
    (hplace : (program.handlesIn function)[place]? = some start)
    (hlength : (program.handlesIn function).length ≤ longestWalk) (instruction : Instruction)
    (steps : Nat) :
    ∃ new step after, program.InsertsAhead after (program.handlesIn function) start place
      instruction steps new step := by
  obtain ⟨step, hwalks⟩ := exists_walks consistent hplace steps
  obtain ⟨target, htarget, hsame⟩ := consistent.exists_of_getElem? hwalks.target_eq
  have hputs := putsAhead_insertAhead consistent htarget instruction
  have hcut : program.step start (min steps longestWalk : Nat) = .ok step :=
    (consistent.step_longestWalk hplace hlength steps).trans hwalks.step_eq
  have hinsert : insertRelative start instruction steps program =
      .ok (program.nextHandle, step.clamped) (program.insertEntry
        ⟨instruction, target.function, target.block⟩ (ahead step.target)) := by
    unfold insertRelative
    rw [bind_apply_of_ok (Edit.query_apply_of_ok hcut),
      bind_apply_of_ok (insertBefore_of_placed? consistent htarget instruction)]
    rfl
  refine ⟨_, _, _, hwalks, hinsert, hputs, hputs.filter_handlesIn consistent, fun hunclamped => ?_⟩
  have hend : ¬ ((place : Int) + steps < 0 ∨
      ((program.handlesIn function).length : Int) ≤ place + steps) := by
    rw [← hwalks.clamped_iff, hunclamped]
    exact Bool.false_ne_true
  have hreached := hwalks.target_eq
  rw [reach_add (by omega)] at hreached
  exact hputs.distance_new consistent hplace hreached

/-! ## Together

The size of the program bounds the orders of its functions. -/

/-- Distances are those of a line, signed 64-bit walks stop where the order does, and a relative
insertion goes where the walk does. -/
theorem metric_walks_insertsAhead (consistent : program.Consistent)
    (hsize : program.handles.length ≤ longestWalk)
    (hfirst : program.functionOf? first = some function)
    (hsecond : program.functionOf? second = some function)
    (hthird : program.functionOf? third = some function) :
    program.Metric first second third ∧
    ∃ place, program.position first = .ok place ∧
      (∀ steps : Int64, ∃ step,
        program.Walks (program.handlesIn function) first place steps.toInt step ∧
        wordReach (.ofNat (program.handlesIn function).length) (.ofNat place) steps =
          (.ofNat (reach (program.handlesIn function).length place steps.toInt), step.clamped)) ∧
      ∀ (instruction : Instruction) (steps : Nat), ∃ new step after,
        program.InsertsAhead after (program.handlesIn function) first place instruction steps new
          step := by
  have hlength := Nat.le_trans (consistent.length_handlesIn_le function) hsize
  obtain ⟨place, hplace⟩ := consistent.exists_place hfirst
  obtain ⟨later, hlater⟩ := consistent.exists_place hsecond
  obtain ⟨last, hlast⟩ := consistent.exists_place hthird
  have hposition : program.position first = .ok place := by
    obtain ⟨entry, hplaced, rfl⟩ := consistent.exists_of_getElem? hplace
    exact (consistent.position_eq_ok_iff hplaced).mpr hplace
  refine ⟨metric_of_places consistent hplace hlater hlast, place, hposition, fun steps => ?_,
    exists_insertsAhead consistent hplace hlength⟩
  obtain ⟨step, hwalks⟩ := exists_walks consistent hplace steps.toInt
  have hclamped : decide (place + steps.toInt < 0 ∨
      (program.handlesIn function).length ≤ place + steps.toInt) = step.clamped := by
    rw [Bool.eq_iff_iff, decide_eq_true_iff, hwalks.clamped_iff]
  refine ⟨step, hwalks, ?_⟩
  rw [wordReach_eq (List.getElem?_eq_some_iff.mp hplace).1 hlength, hclamped]

/-- Two blocks of two instructions each, not in the order in which they were issued. -/
@[irreducible] def crossed : Program :=
  Command.run [.addFunction "main" .void [], .addBlock 0 "entry", .addBlock 0 "exit",
    .push 0 0 (.ofOperation (.other "work" [] .pointer)), .push 0 1 (.ofOperation (.ret none)),
    .insertBefore ⟨1, 0⟩ (.ofOperation (.other "rest" [] .pointer)),
    .push 0 0 (.ofOperation (.branch 1))] { name := "crossed" }

/-- The longest walk backward ends at the first instruction, and a step forward from the end of a
block in the next block. -/
theorem metric_walks_insertsAhead_crossed :
    crossed.Metric ⟨3, 0⟩ ⟨1, 0⟩ ⟨0, 0⟩ ∧
    (∃ step, crossed.Walks (crossed.handlesIn 0) ⟨3, 0⟩ 1 Int64.minValue.toInt step ∧
      wordReach 4 1 Int64.minValue = (0, step.clamped)) ∧
    ∃ new step after, crossed.InsertsAhead after (crossed.handlesIn 0) ⟨3, 0⟩ 1
      (.ofOperation .unreachable) 1 new step := by
  have consistent : crossed.Consistent := by
    unfold crossed
    exact Command.consistent_run (Command.consistent_empty "crossed") _
  obtain ⟨hmetric, place, hposition, hwalks, hinserts⟩ :=
    @metric_walks_insertsAhead crossed ⟨3, 0⟩ ⟨1, 0⟩ ⟨0, 0⟩ 0 consistent (by decide +kernel)
      (by decide +kernel) (by decide +kernel) (by decide +kernel)
  have hone : crossed.position ⟨3, 0⟩ = .ok 1 := by decide +kernel
  obtain rfl : place = 1 := Except.ok.inj (hposition.symm.trans hone)
  obtain ⟨step, hwalk, hword⟩ := hwalks Int64.minValue
  have hlength : (crossed.handlesIn 0).length = 4 := by decide +kernel
  rw [hlength] at hword
  exact ⟨hmetric, ⟨step, hwalk, hword⟩, hinserts _ 1⟩

end Program

end ConcurrencyFaults

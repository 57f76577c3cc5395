import ConcurrencyFaults.Program.Edit
import Mathlib.Data.List.Nodup
import Mathlib.Logic.Function.Basic

/-!
# Storing and releasing instructions

The slots of a program are a finite map with a stack of free places.  This file says what storing,
releasing and overwriting do to a slot, and reads that back through `placed?`, the one question that
a handle can be asked: each of the three updates the answer for a single handle.

The stack of free places is exact (`FreeListExact`) when it names the empty slots, each once.  Only
then does `store` never overwrite an instruction, so the update of `placed?` by a store is proved
under that invariant, which the three operations keep.

## Strategy

Everything goes through the slots first.  `slots_store`, `slots_release` and
`slots_modifyInstruction` say what is in each slot afterwards, and `placed?_of_slots` turns such a
statement into one about handles.  What it needs is that a slot answers one handle at a time: a
handle of another generation was stale before the operation and is stale after it.  No later module
looks into a slot again but to count generations.
-/

namespace ConcurrencyFaults.Program

variable {program : Program} {handle : Handle} {entry : Placed}

/-- A handle is answered by a slot of its generation that is filled. -/
theorem placed?_eq_some_iff :
    program.placed? handle = some entry ↔
      program.slots[handle.slot]? = some ⟨handle.generation, some entry⟩ := by
  unfold placed?
  cases hslot : program.slots[handle.slot]? with
  | none => simp
  | some slot =>
      obtain ⟨generation, content⟩ := slot
      by_cases hgeneration : generation = handle.generation
      · simp [Option.filter, hgeneration]
      · simp [Option.filter, hgeneration]

theorem placed?_eq_none_iff :
    program.placed? handle = none ↔
      ∀ entry, program.slots[handle.slot]? ≠ some ⟨handle.generation, some entry⟩ := by
  simp only [← placed?_eq_some_iff, ne_eq, Option.eq_none_iff_forall_ne_some]

/-- Two live handles of one slot are the same handle. -/
theorem eq_of_placed?_of_slot {other : Handle} {otherEntry : Placed}
    (hplaced : program.placed? handle = some entry)
    (hother : program.placed? other = some otherEntry) (hslot : other.slot = handle.slot) :
    other = handle := by
  rw [placed?_eq_some_iff] at hplaced hother
  rw [hslot, hplaced] at hother
  obtain ⟨slot, generation⟩ := handle
  obtain ⟨otherSlot, otherGeneration⟩ := other
  simp only [Option.some.injEq, Slot.mk.injEq] at hother hslot
  rw [hslot, hother.1]

/-! ## The free places

`nextHandle` is what `store` is going to answer.  Naming it apart from `store` lets a later proof
speak of the new handle before the instruction is there. -/

/-- The free list names exactly the empty slots, each once. -/
structure FreeListExact (program : Program) : Prop where
  free_nodup : program.free.Nodup
  mem_free_iff : ∀ {slot : Nat},
    slot ∈ program.free ↔ ∃ generation, program.slots[slot]? = some ⟨generation, none⟩

/-- The handle that the next stored instruction receives. -/
def nextHandle (program : Program) : Handle :=
  match program.free with
  | slot :: _ => ⟨slot, (program.slots[slot]?.map Slot.generation).getD 0⟩
  | [] => ⟨program.slots.length, 0⟩

@[simp] theorem store_fst : (program.store entry).1 = program.nextHandle := by
  unfold store nextHandle
  cases program.free <;> rfl

@[simp] theorem functions_store : (program.store entry).2.functions = program.functions := by
  unfold store
  split <;> rfl

/-- The slot of the next handle is empty and of its generation, or does not exist yet. -/
theorem slot_nextHandle (hfree : program.FreeListExact) :
    program.slots[program.nextHandle.slot]? = some ⟨program.nextHandle.generation, none⟩ ∨
      program.slots[program.nextHandle.slot]? = none ∧ program.nextHandle.generation = 0 := by
  unfold nextHandle
  cases hlist : program.free with
  | nil => simp
  | cons slot rest =>
      have hmem : slot ∈ program.free := by simp [hlist]
      obtain ⟨generation, hslot⟩ := hfree.mem_free_iff.mp hmem
      left
      simp [hslot]

theorem placed?_nextHandle (hfree : program.FreeListExact) :
    program.placed? program.nextHandle = none := by
  rw [placed?_eq_none_iff]
  intro entry
  rcases slot_nextHandle hfree with hslot | ⟨hslot, -⟩ <;> simp [hslot]

theorem ne_nextHandle (hfree : program.FreeListExact)
    (hplaced : program.placed? handle = some entry) :
    handle ≠ program.nextHandle := by
  rintro rfl
  simp [placed?_nextHandle hfree] at hplaced

/-- The slot of a live handle is not the one that is filled next. -/
theorem slot_ne_nextHandle (hfree : program.FreeListExact)
    (hplaced : program.placed? handle = some entry) : handle.slot ≠ program.nextHandle.slot := by
  intro hslot
  rw [placed?_eq_some_iff, hslot] at hplaced
  rcases slot_nextHandle hfree with hnext | ⟨hnext, -⟩ <;> simp [hnext] at hplaced

/-! ## Slots after each operation

Each operation touches one slot; these are the only proofs that unfold them. -/

theorem slots_store (hfree : program.FreeListExact) (index : Nat) :
    (program.store entry).2.slots[index]? =
      if index = program.nextHandle.slot then some ⟨program.nextHandle.generation, some entry⟩
      else program.slots[index]? := by
  unfold store nextHandle
  cases hlist : program.free with
  | nil =>
      -- a slot is appended: the places before it keep theirs, and there is nothing behind it
      by_cases hindex : index = program.slots.length
      · simp [hindex]
      · rcases Nat.lt_or_gt_of_ne hindex with hlt | hgt
        · simp [hindex, List.getElem?_append_left hlt]
        · simp only [hindex, if_false]
          rw [List.getElem?_eq_none (by simp; omega), List.getElem?_eq_none (by omega)]
  | cons slot rest =>
      have hmem : slot ∈ program.free := by simp [hlist]
      obtain ⟨generation, hslot⟩ := hfree.mem_free_iff.mp hmem
      by_cases hindex : index = slot
      · simp [hindex, hslot]
      · simp [hindex, List.getElem?_modify_ne _ _ (Ne.symm hindex)]

theorem slots_release (hplaced : program.placed? handle = some entry) (index : Nat) :
    (program.release handle).2.slots[index]? =
      if index = handle.slot then
        some ⟨(handle.generation + 1) % Slot.generationLimit, none⟩
      else program.slots[index]? := by
  rw [placed?_eq_some_iff] at hplaced
  unfold release
  by_cases hindex : index = handle.slot
  · simp [hplaced, hindex, Slot.emptied]
  · simp [hplaced, hindex, List.getElem?_modify_ne _ _ (Ne.symm hindex)]

theorem slots_modifyInstruction (hplaced : program.placed? handle = some entry)
    (change : Instruction → Instruction) (index : Nat) :
    (program.modifyInstruction handle change).slots[index]? =
      if index = handle.slot then
        some ⟨handle.generation, some { entry with instruction := change entry.instruction }⟩
      else program.slots[index]? := by
  have hslot := placed?_eq_some_iff.mp hplaced
  unfold modifyInstruction isLive
  by_cases hindex : index = handle.slot
  · simp [hplaced, hslot, hindex]
  · simp [hplaced, hindex, List.getElem?_modify_ne _ _ (Ne.symm hindex)]

/-! ## What handles name after each operation -/

/-- If one slot is filled under the generation of `handle`, only the answer for `handle` changes,
provided that no other handle of the slot was live. -/
private theorem placed?_of_slots {after : Program} {content : Option Placed} {generation : Nat}
    (hother : ∀ other : Handle, other.slot = handle.slot → other ≠ handle →
      program.placed? other = none)
    (hslots : ∀ index, after.slots[index]? =
      if index = handle.slot then some ⟨generation, content⟩ else program.slots[index]?)
    (hcontent : content = none ∨ generation = handle.generation) :
    after.placed? = Function.update program.placed? handle content := by
  funext other
  by_cases heq : other = handle
  · subst heq
    rw [Function.update_self]
    -- an emptied slot may be of any generation, a filled one is of that of the handle
    rcases hcontent with rfl | rfl
    · rw [placed?_eq_none_iff]
      intro entry
      simp [hslots]
    · cases content with
      | none =>
          rw [placed?_eq_none_iff]
          intro entry
          simp [hslots]
      | some entry => simp [placed?_eq_some_iff, hslots]
  · rw [Function.update_of_ne heq]
    by_cases hslot : other.slot = handle.slot
    -- handles of other generations were stale, and the slot still is not of theirs
    · rw [hother other hslot heq, placed?_eq_none_iff]
      intro entry hfilled
      rw [hslots, if_pos hslot] at hfilled
      rcases hcontent with rfl | rfl
      · simp at hfilled
      · simp only [Option.some.injEq, Slot.mk.injEq] at hfilled
        obtain ⟨slot, generation⟩ := handle
        obtain ⟨otherSlot, otherGeneration⟩ := other
        simp_all
    · unfold placed?
      rw [hslots, if_neg hslot]

theorem placed?_store (hfree : program.FreeListExact) :
    (program.store entry).2.placed? =
      Function.update program.placed? program.nextHandle (some entry) := by
  refine placed?_of_slots ?_ (slots_store hfree) (Or.inr rfl)
  intro other hslot _
  rw [placed?_eq_none_iff, hslot]
  intro entry
  rcases slot_nextHandle hfree with hnext | ⟨hnext, -⟩ <;> simp [hnext]

/-- No handle but the live one of a slot is answered. -/
private theorem placed?_eq_none_of_slot {other : Handle}
    (hplaced : program.placed? handle = some entry) (hslot : other.slot = handle.slot)
    (hne : other ≠ handle) : program.placed? other = none := by
  rw [Option.eq_none_iff_forall_ne_some]
  exact fun _ hother => hne (eq_of_placed?_of_slot hplaced hother hslot)

theorem placed?_release (hplaced : program.placed? handle = some entry) :
    (program.release handle).2.placed? = Function.update program.placed? handle none :=
  placed?_of_slots (fun _ hslot hne => placed?_eq_none_of_slot hplaced hslot hne)
    (slots_release hplaced) (Or.inl rfl)

theorem placed?_modifyInstruction (hplaced : program.placed? handle = some entry)
    (change : Instruction → Instruction) :
    (program.modifyInstruction handle change).placed? =
      Function.update program.placed? handle
        (some { entry with instruction := change entry.instruction }) :=
  placed?_of_slots (fun _ hslot hne => placed?_eq_none_of_slot hplaced hslot hne)
    (slots_modifyInstruction hplaced change) (Or.inr rfl)

/-! ## What else the operations leave or change

An overwriting that makes the same of the instruction at hand is the same overwriting, and one that
makes nothing new of it is none.  Equality of programs is shown slot by slot. -/

theorem release_fst (hplaced : program.placed? handle = some entry) :
    (program.release handle).1 = some entry.instruction := by
  rw [placed?_eq_some_iff] at hplaced
  simp [release, hplaced]

@[simp] theorem functions_release : (program.release handle).2.functions = program.functions := by
  unfold release
  split <;> rfl

theorem free_release (hplaced : program.placed? handle = some entry) :
    (program.release handle).2.free = handle.slot :: program.free := by
  rw [placed?_eq_some_iff] at hplaced
  simp [release, hplaced]

@[simp] theorem functions_modifyInstruction (change : Instruction → Instruction) :
    (program.modifyInstruction handle change).functions = program.functions := by
  unfold modifyInstruction
  split <;> rfl

@[simp] theorem free_modifyInstruction (change : Instruction → Instruction) :
    (program.modifyInstruction handle change).free = program.free := by
  unfold modifyInstruction
  split <;> rfl

theorem modifyInstruction_of_stale (hstale : program.placed? handle = none)
    (change : Instruction → Instruction) : program.modifyInstruction handle change = program := by
  simp [modifyInstruction, isLive, hstale]

theorem modifyInstruction_congr {first second : Instruction → Instruction}
    (hplaced : program.placed? handle = some entry)
    (hchange : first entry.instruction = second entry.instruction) :
    program.modifyInstruction handle first = program.modifyInstruction handle second := by
  have hslots : (program.modifyInstruction handle first).slots =
      (program.modifyInstruction handle second).slots := by
    refine List.ext_getElem? fun index => ?_
    rw [slots_modifyInstruction hplaced, slots_modifyInstruction hplaced, hchange]
  simp only [modifyInstruction, isLive, hplaced, Option.isSome_some, if_true] at hslots ⊢
  rw [hslots]

theorem modifyInstruction_eq_self {change : Instruction → Instruction}
    (hplaced : program.placed? handle = some entry)
    (hchange : change entry.instruction = entry.instruction) :
    program.modifyInstruction handle change = program := by
  have hslots : (program.modifyInstruction handle change).slots = program.slots := by
    refine List.ext_getElem? fun index => ?_
    rw [slots_modifyInstruction hplaced, hchange]
    split
    · rename_i hindex
      rw [hindex, placed?_eq_some_iff.mp hplaced]
    · rfl
  simp only [modifyInstruction, isLive, hplaced, Option.isSome_some, if_true] at hslots ⊢
  rw [hslots]

/-! ## The free list stays exact -/

theorem FreeListExact.store (hfree : program.FreeListExact) (entry : Placed) :
    (program.store entry).2.FreeListExact := by
  have hslots := @slots_store program entry hfree
  cases hlist : program.free with
  | nil =>
      -- the new slot is filled at once, so no place becomes free
      have hnext : program.nextHandle.slot = program.slots.length := by simp [nextHandle, hlist]
      have hfreeList : (program.store entry).2.free = [] := by simp [Program.store, hlist]
      refine ⟨by simp [hfreeList], fun {slot} => ?_⟩
      rw [hfreeList, hslots]
      have hnone := @FreeListExact.mem_free_iff program hfree slot
      rw [hlist] at hnone
      by_cases hslot : slot = program.nextHandle.slot
      · simp [hslot]
      · simpa [hslot] using hnone
  | cons head rest =>
      -- the first place was free once, so it is free no longer
      have hnext : program.nextHandle.slot = head := by simp [nextHandle, hlist]
      have hfreeList : (program.store entry).2.free = rest := by simp [Program.store, hlist]
      have hnodup := hfree.free_nodup
      rw [hlist, List.nodup_cons] at hnodup
      refine ⟨by simpa [hfreeList] using hnodup.2, fun {slot} => ?_⟩
      rw [hfreeList, hslots, hnext]
      have hold := @FreeListExact.mem_free_iff program hfree slot
      rw [hlist, List.mem_cons] at hold
      by_cases hslot : slot = head
      · simp [hslot, hnodup.1]
      · simpa [hslot] using hold

theorem FreeListExact.release (hfree : program.FreeListExact)
    (hplaced : program.placed? handle = some entry) :
    (program.release handle).2.FreeListExact := by
  have hslot := placed?_eq_some_iff.mp hplaced
  -- the place is filled, so it is not free yet and the list stays without repetition
  have hused : handle.slot ∉ program.free := by
    rw [hfree.mem_free_iff]
    rintro ⟨generation, hempty⟩
    simp [hslot] at hempty
  refine ⟨by simp [free_release hplaced, hused, hfree.free_nodup], fun {slot} => ?_⟩
  rw [free_release hplaced, slots_release hplaced, List.mem_cons, hfree.mem_free_iff]
  by_cases heq : slot = handle.slot
  · simp [heq]
  · simp [heq]

theorem FreeListExact.modifyInstruction (hfree : program.FreeListExact) (handle : Handle)
    (change : Instruction → Instruction) :
    (program.modifyInstruction handle change).FreeListExact := by
  cases hplaced : program.placed? handle with
  | none => rwa [modifyInstruction_of_stale hplaced]
  | some entry =>
      have hslot := placed?_eq_some_iff.mp hplaced
      refine ⟨by simpa using hfree.free_nodup, fun {slot} => ?_⟩
      rw [free_modifyInstruction, slots_modifyInstruction hplaced, hfree.mem_free_iff]
      by_cases heq : slot = handle.slot
      · simp [heq, hslot]
      · simp [heq]

end ConcurrencyFaults.Program

import ConcurrencyFaults.Proofs.Clearing
import ConcurrencyFaults.Proofs.Search

/-!
# The order of what is left

When calls are taken out of a program, functions keep their names and blocks, and every block lists
what is left of it in the old order and then branches (`Cleared.forall₂_blocks`).  What is left
therefore stands in its old order (`Cleared.precedes`), and a list of instructions that no branch
belongs to is afterwards what is left of it (`Cleared.filter_handles`).

Functions and blocks are compared place by place with `List.Forall₂`, from which the lists of the
whole program follow by putting those of the blocks in a row.
-/

namespace ConcurrencyFaults.Program

variable {before after : Program} {gone : List Handle}

private theorem sublist_flatMap_handles {olds news : List Block}
    (hblocks : List.Forall₂ (fun old new =>
      (old.handles.filter (· ∉ gone)).Sublist new.handles) olds news) :
    ((olds.flatMap Block.handles).filter (· ∉ gone)).Sublist (news.flatMap Block.handles) := by
  induction hblocks with
  | nil => exact .slnil
  | cons hfirst _ ih =>
      rw [List.flatMap_cons, List.flatMap_cons, List.filter_append]
      exact hfirst.append ih

private theorem filter_flatMap_of_forall₂ {Item Other : Type} {items : List Item}
    {others : List Other} {read : Item → List Handle} {reread : Other → List Handle}
    {first second : Handle → Bool}
    (hitems : List.Forall₂ (fun item other =>
      (reread other).filter second = (read item).filter first) items others) :
    (others.flatMap reread).filter second = (items.flatMap read).filter first := by
  induction hitems with
  | nil => rfl
  | @cons item other items others hfirst _ ih =>
      calc ((other :: others).flatMap reread).filter second
        _ = (reread other).filter second ++ (others.flatMap reread).filter second := by
          rw [List.flatMap_cons, List.filter_append]
        _ = (read item).filter first ++ (items.flatMap read).filter first := by rw [hfirst, ih]
        _ = ((item :: items).flatMap read).filter first := by
          rw [List.flatMap_cons, List.filter_append]

namespace Cleared

variable (hcleared : before.Cleared after gone)
include hcleared

theorem forall₂_blocks {id : FunctionId} {function : Function}
    (hfunction : before.function? id = some function) :
    ∃ now, after.function? id = some now ∧ now.name = function.name ∧
      List.Forall₂ (fun old new => ∃ index tail, before.block? id index = some old ∧
        new.handles = old.handles.filter (· ∉ gone) ++ tail ∧
          ∀ handle ∈ tail, ∃ entry branch : Placed, entry.branch? = some branch ∧
            after.placed? handle = some branch) function.blocks now.blocks := by
  obtain ⟨now, hnow, hsame⟩ := exists_function?_of_outline hcleared.outline_eq.symm hfunction
  have hname : now.name = function.name := by
    simpa [Function.outline] using congrArg Function.name hsame
  have hlength : now.blocks.length = function.blocks.length := by
    simpa [Function.outline] using congrArg (fun found => found.blocks.length) hsame
  refine ⟨now, hnow, hname, List.forall₂_iff_get.mpr ⟨hlength.symm, fun index hold hnew => ?_⟩⟩
  have hblock : before.block? id index = some function.blocks[index] :=
    block?_eq_some_iff.mpr ⟨function, hfunction, List.getElem?_eq_getElem hold⟩
  obtain ⟨tail, hlisted, htail, -⟩ := hcleared.block? hblock
  obtain ⟨found, hfound, hindex⟩ := block?_eq_some_iff.mp hlisted
  obtain rfl := Option.some.inj (hnow.symm.trans hfound)
  have hhandles := congrArg (Option.map Block.handles) hindex
  rw [List.getElem?_eq_getElem hnew, Option.map_some, Option.map_some,
    Option.some.injEq] at hhandles
  refine ⟨index, tail, hblock, hhandles, fun handle hmem => ?_⟩
  obtain ⟨branch, hbranch, hplaced⟩ := List.mem_map.mp (htail ▸ List.mem_map_of_mem hmem)
  obtain ⟨other, -, hother⟩ := List.mem_filterMap.mp hbranch
  obtain ⟨entry, -, hentry⟩ := Option.bind_eq_some_iff.mp hother
  exact ⟨entry, branch, hentry, hplaced.symm⟩

theorem exists_function? {id : FunctionId} {function : Function}
    (hfunction : before.function? id = some function) :
    ∃ now, after.function? id = some now ∧ now.name = function.name ∧
      (function.handles.filter (· ∉ gone)).Sublist now.handles := by
  obtain ⟨now, hnow, hname, hblocks⟩ := hcleared.forall₂_blocks hfunction
  refine ⟨now, hnow, hname, sublist_flatMap_handles (hblocks.imp ?_)⟩
  rintro old new ⟨-, tail, -, hhandles, -⟩
  rw [hhandles]
  exact List.sublist_append_left _ _

theorem precedes (hbefore : before.Consistent) {first second : Handle} {entry other : Placed}
    (hfirst : before.placed? first = some entry) (hsecond : before.placed? second = some other)
    (hfunction : entry.function = other.function) (hfirstStays : first ∉ gone)
    (hsecondStays : second ∉ gone) (hprecedes : before.Precedes first second) :
    after.Precedes first second := by
  obtain ⟨function, hfound, hmem⟩ := hbefore.function_of_placed hfirst
  obtain ⟨now, hnow, -, hsublist⟩ := hcleared.exists_function? hfound
  have hmemSecond : second ∈ function.handles :=
    (hbefore.mem_function_iff hfound).mpr ⟨other, hsecond, hfunction.symm⟩
  have hordered := (hbefore.pairwise_function hfound).filter (· ∉ gone)
  have horderedAfter := (hcleared.consistent.pairwise_function hnow).sublist hsublist
  have hleft : ∀ handle ∈ function.handles, handle ∉ gone →
      handle ∈ function.handles.filter (· ∉ gone) := fun handle hlisted hstays =>
    List.mem_filter.mpr ⟨hlisted, by simpa using hstays⟩
  obtain ⟨place, hplace, rfl⟩ := List.mem_iff_getElem.mp (hleft first hmem hfirstStays)
  obtain ⟨next, hnext, rfl⟩ := List.mem_iff_getElem.mp (hleft second hmemSecond hsecondStays)
  -- both lists have the two handles, and each has them in one order only
  rcases Nat.lt_trichotomy place next with hlt | rfl | hgt
  · exact List.pairwise_iff_getElem.mp horderedAfter place next hplace hnext hlt
  · exact absurd hprecedes Precedes.irrefl
  · have hback := List.pairwise_iff_getElem.mp hordered next place hnext hplace hgt
    exact absurd hback hprecedes.asymm

/-- Of the instructions that are selected those are left that were not taken out, provided that the
selection depends on nothing that clearing changes and takes no branch. -/
theorem filter_handles (hbefore : before.Consistent) {first second : Handle → Bool}
    (hkept : ∀ handle entry, before.placed? handle = some entry → handle ∉ gone →
      second handle = first handle)
    (hadded : ∀ handle (entry branch : Placed), entry.branch? = some branch →
      after.placed? handle = some branch → second handle = false) :
    after.handles.filter second = (before.handles.filter first).filter (· ∉ gone) := by
  have hfunctions : List.Forall₂ (fun old new : Function =>
      new.handles.filter second = old.handles.filter fun handle =>
        decide (handle ∉ gone) && first handle) before.functions after.functions := by
    have hlength : after.functions.length = before.functions.length := by
      simpa [outline] using congrArg List.length hcleared.outline_eq
    refine List.forall₂_iff_get.mpr ⟨hlength.symm, fun id hold hnew => ?_⟩
    obtain ⟨now, hnow, -, hblocks⟩ := hcleared.forall₂_blocks (List.getElem?_eq_getElem hold)
    obtain rfl := Option.some.inj ((List.getElem?_eq_getElem hnew).symm.trans hnow)
    refine filter_flatMap_of_forall₂ (hblocks.imp ?_)
    rintro old new ⟨index, tail, hblock, hhandles, htail⟩
    -- the branches at the end of the block are not selected
    have hnone : tail.filter second = [] := List.filter_eq_nil_iff.mpr fun handle hmem => by
      obtain ⟨entry, branch, hbranch, hplaced⟩ := htail handle hmem
      simp [hadded handle entry branch hbranch hplaced]
    rw [hhandles, List.filter_append, hnone, List.append_nil, List.filter_filter]
    refine List.filter_congr fun handle hmem => ?_
    obtain ⟨instruction, hplaced⟩ := (hbefore.mem_block_iff hblock handle).mp hmem
    by_cases hgone : handle ∈ gone
    · simp [hgone]
    · simp [hgone, hkept handle _ hplaced hgone]
  rw [List.filter_filter]
  exact filter_flatMap_of_forall₂ hfunctions

theorem calleesExist (hbefore : before.Consistent) (calleesExist : before.CalleesExist) :
    after.CalleesExist := by
  intro handle found target hfound hcallee
  rcases hcleared.cases_of_placed? hbefore hfound with
    ⟨entry, hplaced, -, rfl⟩ | ⟨entry, hbranch⟩
  · have hcalled : entry.instruction.operation.directCallee? = some target := by
      simpa [Placed.mapOperands, Instruction.withOperation] using hcallee
    obtain ⟨function, hfunction⟩ := calleesExist handle entry target hplaced hcalled
    obtain ⟨now, hnow, -⟩ := hcleared.exists_function? hfunction
    exact ⟨now, hnow⟩
  -- a branch calls nothing
  · obtain ⟨normal, -, rfl⟩ := Option.map_eq_some_iff.mp hbranch
    cases hcallee

end Cleared

end ConcurrencyFaults.Program

import ConcurrencyFaults.Proofs.Arena.Staleness
import ConcurrencyFaults.Proofs.Correspondence
import ConcurrencyFaults.Proofs.Relocation

/-!
# Erasing and replacing results that are read

An instruction whose result is read cannot just go.  Either its readers are left with a zero
constant, or another instruction takes its place and its readers.  Counting the uses, rewriting them
and erasing are separate walks over the operands of a function; `ErasesLeaving` and `Substitutes`
say what they come to together, handle by handle, for each block and each operand.

That a replacement captures no operand but those meant for it needs a closed program.  The handle of
the new instruction names nothing before, so in a closed program nothing reads it, and afterwards it
is read exactly where the old result was read (`Substitutes.useCount_eq`).

## Strategy

* Operands are compared place by place (`Operand.Becomes`), and entries by `Placed.Corresponds`.
  Counting uses agrees with such a comparison if nobody read the new result
  (`countP_uses_of_becomes`).
* Uses are counted along lists of readers (`usesAt`).  A list of readers can be split, permuted and
  rid of those that read nothing (`usesAt_append`, `usesAt_perm`, `usesAt_filter`).
* The readers of the new result are those in front of its place, the new instruction itself, and
  those behind; each of the three parts is compared with the old program.
-/

namespace ConcurrencyFaults

/-- Where an operand read the result of `gone` there is `value`; any other operand stays. -/
def Operand.Becomes (gone : Handle) (value operand operand' : Operand) : Prop :=
  operand' = if operand = .result gone then value else operand

/-- If nothing read the new result before, it is read where the old one was. -/
theorem countP_uses_of_becomes {old new : Handle} {operands operands' : List Operand}
    (hoperands : List.Forall₂ (Operand.Becomes old (.result new)) operands operands')
    (hunread : ∀ operand ∈ operands, operand ≠ .result new) :
    operands'.countP (·.uses new) = operands.countP (·.uses old) := by
  induction hoperands with
  | nil => rfl
  | @cons operand operand' rest rest' hoperand _ ih =>
      rw [List.forall_mem_cons] at hunread
      have hsame : operand'.uses new = operand.uses old := by
        rw [hoperand]
        by_cases huses : operand = .result old
        · simp [huses, Operand.uses]
        · simp [huses, Operand.uses, hunread.1]
      rw [List.countP_cons, List.countP_cons, ih hunread.2, hsame]

theorem Placed.Corresponds.useCount_eq {old new : Handle} {entry found : Placed}
    (hcorresponds : entry.Corresponds (Operand.Becomes old (.result new)) found)
    (hunread : ∀ operand ∈ entry.instruction.operation.operands, operand ≠ .result new) :
    found.instruction.operation.useCount new = entry.instruction.operation.useCount old :=
  countP_uses_of_becomes hcorresponds.operation.operands hunread

namespace Program

variable {program before after : Program} {handle gone old new : Handle} {entry : Placed}
  {function : FunctionId} {value operand : Operand} {instruction : Instruction}

theorem becomes_replacing (gone : Handle) (value operand : Operand) :
    Operand.Becomes gone value operand (replacing gone value operand) := by
  simp [Operand.Becomes, replacing, Operand.uses]

theorem becomes_self (hne : operand ≠ .result gone) : Operand.Becomes gone value operand operand :=
  (if_neg hne).symm

/-! ## The operands of a function

What a use count counts is the occurrences of a result among these. -/

/-- Every operand of every instruction of a function, in visitation order. -/
def operandsIn (program : Program) (function : FunctionId) : List Operand :=
  (program.handlesIn function).flatMap fun reader =>
    ((program.instruction? reader).map fun instruction => instruction.operation.operands).getD []

theorem Consistent.useCount_eq (consistent : program.Consistent)
    (hplaced : program.placed? handle = some entry) :
    program.useCount handle =
      .ok (program.usesAt (program.handlesIn entry.function) handle) := by
  obtain ⟨function, hfunction, -⟩ := consistent.function_of_placed hplaced
  rw [handlesIn, hfunction]
  exact useCount_of_placed? consistent hplaced hfunction

theorem usesAt_handlesIn (function : FunctionId) (handle : Handle) :
    program.usesAt (program.handlesIn function) handle =
      (program.operandsIn function).count (.result handle) := rfl

theorem usesAt_append (front back : List Handle) (handle : Handle) :
    program.usesAt (front ++ back) handle =
      program.usesAt front handle + program.usesAt back handle := by
  unfold usesAt
  rw [List.flatMap_append, List.countP_append]

/-! ## Erasing

The value that is left in the place of the result need not be a constant here. -/

/-- The instruction at `gone` was erased, and uses of its result in its function became `value`. -/
structure ErasesLeaving (before after : Program) (gone : Handle) (function : FunctionId)
    (value : Operand) : Prop where
  /-- Its block lists the others in the old order, every other block all that it listed. -/
  relists : before.Relists after (instead gone [])
  stale : after.Stale gone
  here : ∀ {handle entry}, before.placed? handle = some entry → handle ≠ gone →
    entry.function = function →
      ∃ found, after.placed? handle = some found ∧
        entry.Corresponds (Operand.Becomes gone value) found
  elsewhere : ∀ {handle entry}, before.placed? handle = some entry → entry.function ≠ function →
    after.placed? handle = some entry
  none_of_none : ∀ {handle}, before.placed? handle = none → after.placed? handle = none

theorem erasesLeaving_eraseEntry (consistent : program.Consistent)
    (hplaced : program.placed? gone = some entry) (value : Operand) :
    program.ErasesLeaving
      ((program.rewriteFunction entry.function (replacing gone value)).eraseEntry gone
        (entry.rewrite entry.function (replacing gone value))) gone entry.function value := by
  have hrewritten := relists_rewriteFunction consistent entry.function (replacing gone value)
  have hlive := placed?_rewriteFunction_of_placed? consistent hplaced entry.function
    (replacing gone value)
  -- what is still there was rewritten if it is of the same function
  have hstays : ∀ {handle found}, handle ≠ gone → program.placed? handle = some found →
      ((program.rewriteFunction entry.function (replacing gone value)).eraseEntry gone
        (entry.rewrite entry.function (replacing gone value))).placed? handle =
        some (found.rewrite entry.function (replacing gone value)) := by
    intro handle found hne hfound
    rw [placed?_eraseEntry_rewrite consistent hplaced _ hne, hfound, Option.map_some]
  refine ⟨?_, ?_, ?_, ?_, ?_⟩
  · refine (hrewritten.trans (relists_eraseEntry hrewritten.consistent hlive)).congr ?_
    intro handle _
    rw [List.flatMap_singleton]
  · exact Stale.of_placed? (by rw [placed?_eraseEntry hlive, Function.update_self])
  · intro handle found hfound hne hsame
    refine ⟨_, hstays hne hfound, Placed.corresponds_rewrite (fun _ operand _ => ?_) ?_⟩
    · exact becomes_replacing gone value operand
    · exact fun hother => absurd hsame hother
  · intro handle found hfound hother
    have hne : handle ≠ gone := by
      rintro rfl
      exact hother (by rw [Option.some.inj (hfound.symm.trans hplaced)])
    rw [hstays hne hfound, Placed.rewrite, if_neg hother]
  · intro handle hnone
    have hne : handle ≠ gone := (ne_of_placed? hplaced hnone).symm
    rw [placed?_eraseEntry_rewrite consistent hplaced _ hne, hnone, Option.map_none]

/-- A live instruction can always be erased when its readers are left with a zero constant.  The
answer tells whether there were any, and counts their operands. -/
theorem eraseOrZero_erasesLeaving (consistent : program.Consistent)
    (hplaced : program.placed? handle = some entry) (width : Nat) (signed : Bool) :
    ∃ uses after, program.useCount handle = .ok uses ∧
      uses = (program.operandsIn entry.function).count (.result handle) ∧
      eraseOrZero handle width signed program =
        .ok (if .result handle ∈ program.operandsIn entry.function then .replaced uses else .erased)
          after ∧
      program.ErasesLeaving after handle entry.function (.int width signed 0) := by
  have huses := consistent.useCount_eq hplaced
  have hanswer := eraseOrZero_of_useCount consistent hplaced huses width signed
  rw [usesAt_handlesIn] at huses hanswer
  refine ⟨_, _, huses, rfl, ?_, erasesLeaving_eraseEntry consistent hplaced (.int width signed 0)⟩
  rw [hanswer]
  by_cases hread : Operand.result handle ∈ program.operandsIn entry.function
  · have hpos := List.count_pos_iff.mpr hread
    rw [if_neg (Nat.ne_of_gt hpos), if_pos hread]
    rfl
  · rw [if_pos (List.count_eq_zero.mpr hread), if_neg hread]
    rfl

/-- A result that is read by its own instruction, by a call that both calls it and passes it on, and
by the return.  The next handle reuses a slot. -/
@[irreducible] def feedback : Program :=
  Command.run [.addFunction "main" (.int 32) [], .addBlock 0 "entry",
    .push 0 0 (.ofOperation (.other "phi" [.result ⟨0, 0⟩] .pointer)),
    .push 0 0 (.ofOperation (.call (.indirect (.result ⟨0, 0⟩)) [.result ⟨0, 0⟩] .pointer)),
    .push 0 0 (.ofOperation .unreachable),
    .push 0 0 (.ofOperation (.ret (some (.result ⟨0, 0⟩)))), .erase ⟨2, 0⟩]
    { name := "feedback" }

theorem consistent_feedback : feedback.Consistent := by
  unfold feedback
  exact Command.consistent_run (Command.consistent_empty "feedback") _

/-- The use of a result by its own instruction counts, too. -/
theorem eraseOrZero_erasesLeaving_feedback :
    ∃ after, eraseOrZero ⟨0, 0⟩ 32 true feedback = .ok (.replaced 4) after ∧
      feedback.ErasesLeaving after ⟨0, 0⟩ 0 (.int 32 true 0) := by
  have hplaced : feedback.placed? ⟨0, 0⟩ =
      some ⟨.ofOperation (.other "phi" [.result ⟨0, 0⟩] .pointer), 0, 0⟩ := by decide +kernel
  obtain ⟨uses, after, huses, -, hanswer, herases⟩ :=
    eraseOrZero_erasesLeaving consistent_feedback hplaced 32 true
  have hfour : feedback.useCount ⟨0, 0⟩ = .ok 4 := by decide +kernel
  have hread : Operand.result ⟨0, 0⟩ ∈ feedback.operandsIn 0 := by decide +kernel
  rw [hfour, Except.ok.injEq] at huses
  rw [if_pos hread, ← huses] at hanswer
  exact ⟨after, hanswer, herases⟩

/-! ## Replacing

The new instruction is inserted first and then rewritten with all the others, so it reads itself
where it was made to read what it replaces. -/

/-- A new instruction stands where the one at `old` stood, and what read the old result reads the
new one, in the new instruction, too. -/
structure Substitutes (before after : Program) (old new : Handle) (instruction : Instruction) :
    Prop where
  fresh : before.placed? new = none
  /-- One block lists the new handle where it listed the old one; all else is listed as it was. -/
  relists : before.Relists after (instead old [new])
  stale : after.Stale old
  inserted : ∀ {entry}, before.placed? old = some entry →
    ∃ found, after.placed? new = some found ∧
      Placed.Corresponds (Operand.Becomes old (.result new))
        ⟨instruction, entry.function, entry.block⟩ found
  kept : ∀ {handle entry}, before.placed? handle = some entry → handle ≠ old →
    ∃ found, after.placed? handle = some found ∧
      entry.Corresponds (Operand.Becomes old (.result new)) found
  none_of_none : ∀ {handle}, before.placed? handle = none → handle ≠ new →
    after.placed? handle = none

theorem relists_substituteEntry (consistent : program.Consistent)
    (hplaced : program.placed? old = some entry) (instruction : Instruction) (value : Operand) :
    program.Relists (program.substituteEntry old entry instruction value)
      (instead old [program.nextHandle]) where
  consistent := consistent_substituteEntry consistent hplaced instruction value
  name_eq := name_substituteEntry instruction value
  outline_eq := outline_substituteEntry instruction value
  block? := by
    intro function index block hblock
    rw [block?_substituteEntry consistent hplaced instruction value hblock, List.map_eq_flatMap]
    refine congrArg (fun handles => some { block with handles }) ?_
    refine List.flatMap_congr fun handle _ => ?_
    by_cases hhandle : handle = old
    · rw [hhandle, Function.update_self, instead_self]
    · rw [Function.update_of_ne hhandle, instead_of_ne hhandle, id]

theorem placed?_substituteEntry_self (consistent : program.Consistent)
    (hplaced : program.placed? old = some entry) (instruction : Instruction) (value : Operand) :
    (program.substituteEntry old entry instruction value).placed? old = none := by
  unfold substituteEntry
  rw [placed?_eraseEntry (placed?_rewriteFunction_insertAhead consistent hplaced instruction value),
    Function.update_self]

/-- What named nothing before names nothing, the new handle apart. -/
theorem placed?_substituteEntry_of_stale (consistent : program.Consistent)
    (hplaced : program.placed? old = some entry) (instruction : Instruction) (value : Operand)
    (hstale : program.placed? handle = none) (hne : handle ≠ program.nextHandle) :
    (program.substituteEntry old entry instruction value).placed? handle = none := by
  have hother : handle ≠ old := (ne_of_placed? hplaced hstale).symm
  rw [placed?_substituteEntry consistent hplaced instruction value hother,
    placed?_insertEntry consistent.toFreeListExact, Function.update_of_ne hne, hstale,
    Option.map_none]

/-- In a closed program a result is read in its own function alone. -/
theorem Closed.ne_result (closed : program.Closed) {reader : Handle} {found : Placed}
    (hfound : program.placed? reader = some found)
    (hother : program.functionOf? handle ≠ some found.function)
    (hoperand : operand ∈ found.instruction.operation.operands) : operand ≠ .result handle := by
  rintro rfl
  exact hother (local_result.mp (closed reader found hfound _ hoperand))

theorem substitutes_substituteEntry (consistent : program.Consistent) (closed : program.Closed)
    (hplaced : program.placed? old = some entry) (instruction : Instruction) :
    program.Substitutes
      (program.substituteEntry old entry instruction (.result program.nextHandle)) old
      program.nextHandle instruction := by
  refine ⟨placed?_nextHandle consistent.toFreeListExact,
    relists_substituteEntry consistent hplaced instruction _,
    .of_placed? (placed?_substituteEntry_self consistent hplaced instruction _), ?_, ?_,
    placed?_substituteEntry_of_stale consistent hplaced instruction _⟩
  · intro found hfound
    obtain rfl : entry = found := Option.some.inj (hplaced.symm.trans hfound)
    refine ⟨_, placed?_substituteEntry_nextHandle consistent hplaced instruction _, ?_⟩
    exact Placed.corresponds_rewrite (fun _ operand _ => becomes_replacing old _ operand)
      fun hother => absurd rfl hother
  · intro handle found hfound hne
    refine ⟨_, placed?_substituteEntry_of_ne consistent hplaced instruction _ hfound hne, ?_⟩
    refine Placed.corresponds_rewrite (fun _ operand _ => becomes_replacing old _ operand) ?_
    intro hother operand hoperand
    refine becomes_self (closed.ne_result hfound ?_ hoperand)
    rw [functionOf?_of_placed? hplaced]
    exact fun hsame => hother (Option.some.inj hsame).symm

/-! ## What reads the new result

The program counts uses in one function; what is to be shown is about readers in all of them. -/

theorem usesAt_singleton (hplaced : program.placed? handle = some entry) (used : Handle) :
    program.usesAt [handle] used = entry.instruction.operation.useCount used := by
  rw [usesAt_cons hplaced]
  rfl

theorem usesAt_perm {first second : List Handle} (hperm : first.Perm second) (handle : Handle) :
    program.usesAt first handle = program.usesAt second handle :=
  (hperm.flatMap_right _).countP_eq _

/-- Readers that do not read a result need not be counted. -/
theorem usesAt_filter {readers : List Handle} (counted : Handle → Bool)
    (hunread : ∀ reader ∈ readers, counted reader = false → ∀ entry,
      program.placed? reader = some entry → entry.instruction.operation.useCount handle = 0) :
    program.usesAt (readers.filter counted) handle = program.usesAt readers handle := by
  induction readers with
  | nil => rfl
  | cons reader rest ih =>
      have hrest := ih fun later hlater => hunread later (List.mem_cons_of_mem _ hlater)
      have hsplit : ∀ readers, program.usesAt (reader :: readers) handle =
          program.usesAt [reader] handle + program.usesAt readers handle :=
        fun readers => usesAt_append [reader] readers handle
      cases hcounted : counted reader with
      | true =>
          calc program.usesAt ((reader :: rest).filter counted) handle
            _ = program.usesAt [reader] handle + program.usesAt (rest.filter counted) handle := by
              rw [List.filter_cons_of_pos hcounted, hsplit]
            _ = program.usesAt [reader] handle + program.usesAt rest handle := by rw [hrest]
            _ = program.usesAt (reader :: rest) handle := (hsplit rest).symm
      | false =>
          have hzero : program.usesAt [reader] handle = 0 := by
            rw [usesAt_eq_zero_iff]
            intro other hother
            obtain rfl := List.mem_singleton.mp hother
            exact hunread _ (List.mem_cons_self ..) hcounted
          calc program.usesAt ((reader :: rest).filter counted) handle
            _ = program.usesAt rest handle := by
              rw [List.filter_cons_of_neg (by simp [hcounted]), hrest]
            _ = program.usesAt [reader] handle + program.usesAt rest handle := by
              rw [hzero, Nat.zero_add]
            _ = program.usesAt (reader :: rest) handle := (hsplit rest).symm

theorem Closed.usesAt_handles (closed : program.Closed) (consistent : program.Consistent)
    (hplaced : program.placed? old = some entry) :
    program.usesAt (program.handles.filter (· != old)) old =
      program.usesAt ((program.handlesIn entry.function).filter (· != old)) old := by
  -- readers in the function of the result, and readers elsewhere, which do not count
  let here (reader : Handle) : Bool := program.functionOf? reader = some entry.function
  have hperm : ((program.handles.filter (· != old)).filter here).Perm
      ((program.handlesIn entry.function).filter (· != old)) := by
    refine (List.perm_ext_iff_of_nodup ((consistent.handles_nodup.filter _).filter _)
      ((consistent.nodup_handlesIn _).filter _)).mpr fun reader => ?_
    have hlisted : program.functionOf? reader = some entry.function → reader ∈ program.handles := by
      intro hreader
      obtain ⟨found, hfound, -⟩ := functionOf?_eq_some_iff.mp hreader
      exact consistent.mem_handles_iff_placed?.mpr ⟨found, hfound⟩
    simp only [List.mem_filter, consistent.mem_handlesIn_iff, here, decide_eq_true_eq]
    tauto
  have hunread : ∀ reader ∈ program.handles.filter (· != old), here reader = false → ∀ found,
      program.placed? reader = some found → found.instruction.operation.useCount old = 0 := by
    intro reader _ helsewhere found hfound
    rw [decide_eq_false_iff_not, functionOf?_of_placed? hfound] at helsewhere
    refine List.countP_eq_zero.mpr fun operand hoperand huses => ?_
    refine closed.ne_result hfound ?_ hoperand (by simpa [Operand.uses] using huses)
    rw [functionOf?_of_placed? hplaced]
    exact fun hsame => helsewhere hsame.symm
  calc program.usesAt (program.handles.filter (· != old)) old
      = program.usesAt ((program.handles.filter (· != old)).filter here) old :=
        (usesAt_filter here hunread).symm
    _ = program.usesAt ((program.handlesIn entry.function).filter (· != old)) old :=
        usesAt_perm hperm old

namespace Substitutes

variable (hsubstitutes : before.Substitutes after old new instruction) (closed : before.Closed)
include hsubstitutes closed

/-- Instructions that stay read the new result as often as they read the old one. -/
theorem usesAt_eq {readers : List Handle}
    (hlive : ∀ reader ∈ readers, ∃ entry, before.placed? reader = some entry)
    (hstays : old ∉ readers) : after.usesAt readers new = before.usesAt readers old := by
  induction readers with
  | nil => rfl
  | cons reader rest ih =>
      obtain ⟨entry, hentry⟩ := hlive reader (List.mem_cons_self ..)
      rw [List.mem_cons, not_or] at hstays
      obtain ⟨found, hfound, hcorresponds⟩ := hsubstitutes.kept hentry (Ne.symm hstays.1)
      have hunread : ∀ operand ∈ entry.instruction.operation.operands, operand ≠ .result new := by
        intro operand hoperand
        refine closed.ne_result hentry ?_ hoperand
        simp [functionOf?, hsubstitutes.fresh]
      rw [usesAt_cons hfound, usesAt_cons hentry, hcorresponds.useCount_eq hunread,
        ih (fun later hlater => hlive later (List.mem_cons_of_mem _ hlater)) hstays.2]

/-- The new result is read by what read the old one, the old instruction apart, and by the new
instruction where it was made to read the old one. -/
theorem useCount_eq (consistent : before.Consistent) (hplaced : before.placed? old = some entry)
    (hlocal : ∀ operand ∈ instruction.operation.operands,
      before.Local entry.function operand) :
    after.useCount new = .ok
      (before.usesAt (before.handles.filter (· != old)) old +
        instruction.operation.useCount old) := by
  obtain ⟨found, hfound, hcorresponds⟩ := hsubstitutes.inserted hplaced
  have hunread : ∀ operand ∈ instruction.operation.operands, operand ≠ .result new := by
    rintro operand hoperand rfl
    have hnew := local_result.mp (hlocal _ hoperand)
    simp [functionOf?, hsubstitutes.fresh] at hnew
  have hmem : old ∈ before.handlesIn entry.function :=
    consistent.mem_handlesIn_iff.mpr (functionOf?_of_placed? hplaced)
  have hnodup := consistent.nodup_handlesIn entry.function
  have hlive : ∀ reader ∈ before.handlesIn entry.function,
      ∃ entry, before.placed? reader = some entry := by
    intro reader hreader
    obtain ⟨entry, hentry, -⟩ := consistent.exists_of_mem_handlesIn hreader
    exact ⟨entry, hentry⟩
  have hlisted := hsubstitutes.relists.handlesIn_eq entry.function
  have hothers := @flatMap_instead_nil old (before.handlesIn entry.function)
  -- readers in front of the old instruction, the new one, and readers behind
  obtain ⟨front, back, horder⟩ := List.append_of_mem hmem
  rw [horder] at hnodup hlive hlisted hothers
  rw [flatMap_instead_append hnodup] at hlisted hothers
  obtain ⟨-, hback, hdisjoint⟩ := List.nodup_append'.mp hnodup
  have hfront : after.usesAt front new = before.usesAt front old :=
    hsubstitutes.usesAt_eq closed (fun reader hreader => hlive reader (by simp [hreader]))
      fun hmem => hdisjoint hmem (List.mem_cons_self ..)
  have hbehind : after.usesAt back new = before.usesAt back old :=
    hsubstitutes.usesAt_eq closed (fun reader hreader => hlive reader (by simp [hreader]))
      (List.nodup_cons.mp hback).1
  have hnew : after.usesAt [new] new = instruction.operation.useCount old :=
    (usesAt_singleton hfound new).trans (hcorresponds.useCount_eq hunread)
  rw [hsubstitutes.relists.consistent.useCount_eq hfound, hcorresponds.function_eq, hlisted,
    closed.usesAt_handles consistent hplaced, horder, ← hothers, Except.ok.injEq]
  calc after.usesAt (front ++ [new] ++ back) new
    _ = after.usesAt front new + after.usesAt [new] new + after.usesAt back new := by
      rw [usesAt_append, usesAt_append]
    _ = before.usesAt front old + before.usesAt back old + instruction.operation.useCount old := by
      rw [hfront, hnew, hbehind, Nat.add_right_comm]
    _ = before.usesAt (front ++ [] ++ back) old + instruction.operation.useCount old := by
      rw [List.append_nil, usesAt_append]

end Substitutes

/-- A live instruction of a closed program can be replaced by any that reads results of the same
function.  The new one takes over the place and the readers of the old one. -/
theorem replaceWith_substitutes (consistent : program.Consistent) (closed : program.Closed)
    (hplaced : program.placed? old = some entry) (instruction : Instruction)
    (hlocal : ∀ operand ∈ instruction.operation.operands,
      program.Local entry.function operand) :
    ∃ new after, replaceWith old instruction program = .ok new after ∧
      program.Substitutes after old new instruction ∧
      after.useCount new = .ok
        (program.usesAt (program.handles.filter (· != old)) old +
          instruction.operation.useCount old) := by
  have hsubstitutes := substitutes_substituteEntry consistent closed hplaced instruction
  exact ⟨_, _, replaceWith_of_placed? consistent hplaced instruction, hsubstitutes,
    hsubstitutes.useCount_eq closed consistent hplaced hlocal⟩

/-- The replacement reads what it replaces.  It stands in a slot that was used before, and is read
by itself, by the call and by the return. -/
theorem replaceWith_substitutes_feedback :
    ∃ new after, replaceWith ⟨0, 0⟩ (.ofOperation (.fieldAddress (.result ⟨0, 0⟩) 1)) feedback =
        .ok new after ∧
      feedback.Substitutes after ⟨0, 0⟩ new (.ofOperation (.fieldAddress (.result ⟨0, 0⟩) 1)) ∧
      after.useCount new = .ok 4 := by
  have hplaced : feedback.placed? ⟨0, 0⟩ =
      some ⟨.ofOperation (.other "phi" [.result ⟨0, 0⟩] .pointer), 0, 0⟩ := by decide +kernel
  have closed : feedback.Closed := consistent_feedback.closed_iff.mpr (by decide +kernel)
  obtain ⟨new, after, hanswer, hsubstitutes, huses⟩ :=
    replaceWith_substitutes consistent_feedback closed hplaced
      (.ofOperation (.fieldAddress (.result ⟨0, 0⟩) 1)) (by decide +kernel)
  have hothers : feedback.usesAt (feedback.handles.filter (· != ⟨0, 0⟩)) ⟨0, 0⟩ = 3 := by
    decide +kernel
  rw [hothers] at huses
  exact ⟨new, after, hanswer, hsubstitutes, huses⟩

end Program

end ConcurrencyFaults

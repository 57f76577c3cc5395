import ConcurrencyFaults.Proofs.Clearing

/-!
# Types of operands

An operand that reads a result is of the type that its instruction produces, and a constant brings a
type of its own.  When an instruction goes, its readers are left with something else: a zero, or the
result of its successor.  They do not notice as long as that is of the type of what they lost; and
of a result that is no value at all there are no readers.

`Conforms` compares a program with the one that a run started on: of the instructions that were
there at the start all but some are left, and each reads operands of the types that it read before.
What such an instruction reads has to be live, too, for the handle of a dangling operand could be
given to an instruction of another type.  So the program at the start has to be closed.  Nothing is
asked of instructions that came later; these may well dangle.

## Strategy

* `Stands` is the comparison of a single operand with what stands in its place now.  It survives
  changes that keep the instruction which the operand names (`Stands.kept`), and the replacement of
  a result by something local of its type (`Stands.replacing`).
* `Conforms` lifts it to programs.  An edit inserts, rewrites or erases, and each of the three has
  its lemma (`Conforms.of_placed?`, `Conforms.rewriteFunction`, `Conforms.eraseEntry`).
-/

namespace ConcurrencyFaults

namespace Operation

@[simp] theorem resultType_mapOperands (operation : Operation) (change : Operand → Operand) :
    (operation.mapOperands change).resultType = operation.resultType := by
  cases operation <;> rfl

theorem resultType_eq_of_shape_eq {operation other : Operation}
    (hshape : operation.shape = other.shape) : operation.resultType = other.resultType := by
  have htype := congrArg resultType hshape
  simpa only [shape, resultType_mapOperands] using htype

end Operation

/-- The type of what a live instruction produces. -/
def Program.resultType? (program : Program) (handle : Handle) : Option Ty :=
  (program.placed? handle).map fun entry => entry.instruction.operation.resultType

/-- The type of an operand, where it can be told: that of the result that is read, or that of the
constant.  A parameter and an undefined value do not tell theirs. -/
def Operand.type? (program : Program) : Operand → Option Ty
  | .result handle => program.resultType? handle
  | .constant value => some value.type
  | .global _ => some .pointer
  | .parameter _ | .undefined => none

/-- The same instruction in the same place, with operands of the same types.  Only those differ that
read the result of an instruction which is lost. -/
def Placed.Conforms (before after : Program) (lost : Handle → Prop) (entry found : Placed) : Prop :=
  ∃ change : Operand → Operand, found = entry.mapOperands change ∧
    ∀ operand ∈ entry.instruction.operation.operands,
      (change operand).type? after = operand.type? before ∧
        (change operand = operand ∨ ∃ handle, operand = .result handle ∧ lost handle)

namespace Program

variable {start program before after : Program} {gone erased later : List Handle}
  {handle : Handle} {entry : Placed} {function : FunctionId} {operand old new value : Operand}

@[simp] theorem resultType?_of_placed? (hplaced : program.placed? handle = some entry) :
    program.resultType? handle = some entry.instruction.operation.resultType := by
  simp [resultType?, hplaced]

/-- Every result that is read is a value. -/
def ReadsValues (program : Program) : Prop :=
  ∀ reader entry, program.placed? reader = some entry →
    ∀ operand ∈ entry.instruction.operation.operands, operand.type? program ≠ some .void

theorem Consistent.readsValues_iff (consistent : program.Consistent) :
    program.ReadsValues ↔ ∀ reader ∈ program.handles, ∀ entry ∈ program.placed? reader,
      ∀ operand ∈ entry.instruction.operation.operands, operand.type? program ≠ some .void :=
  consistent.forall_placed_iff

/-- An operand is of the same type as long as the instruction that it names stays. -/
theorem Kept.type?_eq (hkept : Kept before after gone) (hlocal : before.Local function operand)
    (hstays : ∀ used ∈ operand.handle?, used ∉ gone) :
    operand.type? after = operand.type? before := by
  cases operand with
  | result used =>
      obtain ⟨entry, hplaced, -⟩ := functionOf?_eq_some_iff.mp (local_result.mp hlocal)
      obtain ⟨found, hfound, -, hshape⟩ := hkept.alike hplaced (hstays used rfl)
      simp only [Operand.type?, resultType?_of_placed? hplaced, resultType?_of_placed? hfound,
        Operation.resultType_eq_of_shape_eq hshape]
  | parameter _ | global _ | constant _ | undefined => rfl

/-! ## Conforming programs

The list `gone` may name more than what was erased, so the comparisons of several steps can be made
over one list. -/

/-- What an instruction reads now in the place of what it read at the start: something local of the
same type, and something else only if it read the result of an instruction that is gone. -/
structure Stands (start program : Program) (gone : List Handle) (function : FunctionId)
    (old new : Operand) : Prop where
  isLocal : program.Local function new
  type_eq : new.type? program = old.type? start
  changed : new = old ∨ ∃ handle ∈ gone, old = .result handle

/-- All instructions of the start but some are left, and what they read is of the types that it was
of. -/
structure Conforms (start program : Program) (gone : List Handle) : Prop where
  closed : start.Closed
  readsValues : start.ReadsValues
  consistent : program.Consistent
  stays : ∀ {handle entry}, start.placed? handle = some entry → handle ∉ gone →
    ∃ change : Operand → Operand, program.placed? handle = some (entry.mapOperands change) ∧
      ∀ operand ∈ entry.instruction.operation.operands,
        Stands start program gone entry.function operand (change operand)

theorem Stands.kept (hstands : Stands start before gone function old new)
    (hkept : Kept before after erased) (hstays : ∀ used ∈ new.handle?, used ∉ erased) :
    Stands start after gone function old new where
  isLocal := hkept.local hstands.isLocal hstays
  type_eq := (hkept.type?_eq hstands.isLocal hstays).trans hstands.type_eq
  changed := hstands.changed

/-- What reads a result that goes may read something local of its type from then on. -/
theorem Stands.replacing (hstands : Stands start before gone function old new)
    (hkept : Kept before after []) (hgone : handle ∈ gone)
    (hvalue : new = .result handle →
      before.Local function value ∧ value.type? before = before.resultType? handle) :
    Stands start after gone function old (replacing handle value new) := by
  refine Stands.kept ?_ hkept fun _ _ => List.not_mem_nil
  unfold Program.replacing
  split
  · rename_i huses
    obtain rfl := beq_iff_eq.mp huses
    obtain ⟨hlocal, htype⟩ := hvalue rfl
    refine ⟨hlocal, htype.trans hstands.type_eq, Or.inr ?_⟩
    -- the operand named the result all along, or it named another one that is gone
    rcases hstands.changed with rfl | hchanged
    · exact ⟨handle, hgone, rfl⟩
    · exact hchanged
  · exact hstands

namespace Conforms

theorem refl (consistent : start.Consistent) (closed : start.Closed)
    (readsValues : start.ReadsValues) : Conforms start start [] where
  closed := closed
  readsValues := readsValues
  consistent := consistent
  stays := by
    intro handle entry hplaced _
    refine ⟨id, ?_, fun operand hoperand => ⟨closed handle entry hplaced operand hoperand, rfl,
      Or.inl rfl⟩⟩
    exact hplaced.trans (congrArg some (Placed.mapOperands_eq_self fun _ _ => rfl).symm)

/-- A handle that is stale now was stale at the start, unless its instruction is gone. -/
theorem stale_before (hconforms : Conforms start program gone)
    (hstale : program.placed? handle = none) : handle ∈ gone ∨ start.placed? handle = none := by
  by_cases hmem : handle ∈ gone
  · exact Or.inl hmem
  · refine Or.inr (Option.eq_none_iff_forall_ne_some.mpr fun entry hplaced => ?_)
    obtain ⟨change, hfound, -⟩ := hconforms.stays hplaced hmem
    rw [hstale] at hfound
    cases hfound

/-- What was not there at the start need not be listed among what is gone. -/
theorem mono (hconforms : Conforms start program gone)
    (hlater : ∀ handle ∈ gone, handle ∈ later ∨ start.placed? handle = none) :
    Conforms start program later where
  closed := hconforms.closed
  readsValues := hconforms.readsValues
  consistent := hconforms.consistent
  stays := by
    intro handle entry hplaced hnot
    have hlisted : ∀ other ∈ gone, start.placed? other ≠ none → other ∈ later :=
      fun other hmem hlive => (hlater other hmem).resolve_right hlive
    obtain ⟨change, hfound, hstands⟩ := hconforms.stays hplaced fun hmem =>
      hnot (hlisted handle hmem (by simp [hplaced]))
    refine ⟨change, hfound, fun operand hoperand => ?_⟩
    obtain ⟨hlocal, htype, hchanged⟩ := hstands operand hoperand
    refine ⟨hlocal, htype, hchanged.imp_right ?_⟩
    -- operands of the start name instructions of the start
    rintro ⟨used, hused, rfl⟩
    obtain ⟨found, hlive, -⟩ := functionOf?_eq_some_iff.mp
      (local_result.mp (hconforms.closed handle entry hplaced _ hoperand))
    exact ⟨used, hlisted used hused (by simp [hlive]), rfl⟩

theorem weaken (hconforms : Conforms start program gone) (hlater : gone ⊆ later) :
    Conforms start program later :=
  hconforms.mono fun _ hmem => Or.inl (hlater hmem)

/-! ### The changes that edits are made of

Insertions ask for nothing.  An erasure asks that no reader is left, which rewriting provides. -/

/-- Whatever else comes in, it is enough that all instructions are what they were. -/
theorem of_placed? (hconforms : Conforms start before gone) (consistent : after.Consistent)
    (hsame : ∀ {handle entry}, before.placed? handle = some entry →
      after.placed? handle = some entry) : Conforms start after gone where
  closed := hconforms.closed
  readsValues := hconforms.readsValues
  consistent := consistent
  stays := by
    intro handle entry hplaced hnot
    have hkept : Kept before after [] :=
      ⟨consistent, fun {_ found} hfound _ => ⟨found, hsame hfound, rfl, rfl⟩⟩
    obtain ⟨change, hfound, hstands⟩ := hconforms.stays hplaced hnot
    exact ⟨change, hsame hfound, fun operand hoperand =>
      (hstands operand hoperand).kept hkept fun _ _ => List.not_mem_nil⟩

/-- The uses of a result may be replaced by something local of its type; a result that is no value
has no uses that count. -/
theorem rewriteFunction (hconforms : Conforms start program gone)
    (hplaced : program.placed? handle = some entry) (hgone : handle ∈ gone)
    (hvalue : entry.instruction.operation.resultType = .void ∨
      program.Local entry.function value ∧
        value.type? program = some entry.instruction.operation.resultType) :
    Conforms start (program.rewriteFunction entry.function (replacing handle value)) gone where
  closed := hconforms.closed
  readsValues := hconforms.readsValues
  consistent := hconforms.consistent.rewriteFunction _ _
  stays := by
    intro reader found hreader hnot
    have hkept := kept_rewriteFunction hconforms.consistent entry.function (replacing handle value)
    obtain ⟨change, hlive, hstands⟩ := hconforms.stays hreader hnot
    have hrewritten := placed?_rewriteFunction_of_placed? hconforms.consistent hlive entry.function
      (replacing handle value)
    rw [Placed.rewrite_eq] at hrewritten
    split at hrewritten
    · rename_i hfunction
      refine ⟨_, hrewritten.trans (by rw [Placed.mapOperands_mapOperands]), fun operand hmem => ?_⟩
      refine (hstands operand hmem).replacing hkept hgone fun hread => ?_
      -- the result has a reader, so it is a value
      have htype := (hstands operand hmem).type_eq
      rw [hread, Operand.type?, resultType?_of_placed? hplaced] at htype
      rw [resultType?_of_placed? hplaced]
      have hfunction : found.function = entry.function := hfunction
      exact hfunction ▸ hvalue.resolve_left fun hvoid =>
        hconforms.readsValues reader found hreader operand hmem (htype.symm.trans (by rw [hvoid]))
    · exact ⟨change, hrewritten, fun operand hmem =>
        (hstands operand hmem).kept hkept fun _ _ => List.not_mem_nil⟩

theorem eraseEntry (hconforms : Conforms start program gone)
    (hplaced : program.placed? handle = some entry) (hgone : handle ∈ gone)
    (hunused : program.useCount handle = .ok 0) :
    Conforms start (program.eraseEntry handle entry) gone where
  closed := hconforms.closed
  readsValues := hconforms.readsValues
  consistent := hconforms.consistent.eraseEntry hplaced
  stays := by
    intro reader found hreader hnot
    have consistent := hconforms.consistent
    obtain ⟨change, hlive, hstands⟩ := hconforms.stays hreader hnot
    refine ⟨change, ?_, fun operand hmem => ?_⟩
    · have hne : reader ≠ handle := (ne_of_mem_of_not_mem hgone hnot).symm
      rw [placed?_eraseEntry_of_ne hplaced hne, hlive]
    refine (hstands operand hmem).kept (kept_eraseEntry consistent hplaced) fun used hused => ?_
    rw [List.mem_singleton]
    rintro rfl
    -- a reader of the result would be in its function, and be counted
    have hread : change operand = .result used := by
      cases hchange : change operand <;> simp_all [Operand.handle?]
    have hlocal := (hstands operand hmem).isLocal
    rw [hread, local_result, functionOf?_of_placed? hplaced] at hlocal
    have hcount := (useCount_eq_zero_iff consistent hplaced).mp hunused reader _ hlive
      (Option.some.inj hlocal).symm
    refine List.countP_eq_zero.mp hcount (.result used) ?_ (by simp [Operand.uses])
    rw [← hread]
    exact (Operation.operands_mapOperands change _) ▸ List.mem_map_of_mem hmem

/-- An instruction may be erased once its uses are replaced. -/
theorem eraseEntry_rewrite (hconforms : Conforms start program gone)
    (hplaced : program.placed? handle = some entry)
    (hvalue : entry.instruction.operation.resultType = .void ∨
      program.Local entry.function value ∧
        value.type? program = some entry.instruction.operation.resultType)
    (hother : value.uses handle = false) :
    Conforms start ((program.rewriteFunction entry.function (replacing handle value)).eraseEntry
      handle (entry.rewrite entry.function (replacing handle value))) (gone ++ [handle]) := by
  have hgone : handle ∈ gone ++ [handle] := by simp
  have consistent := hconforms.consistent
  refine ((hconforms.weaken (List.subset_append_left gone [handle])).rewriteFunction hplaced hgone
    hvalue).eraseEntry ?_ hgone ?_
  · exact placed?_rewriteFunction_of_placed? consistent hplaced _ _
  · exact useCount_rewriteFunction consistent hplaced hother

end Conforms

end Program

end ConcurrencyFaults

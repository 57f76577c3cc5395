import ConcurrencyFaults.Operator.Atomic
import ConcurrencyFaults.Operator.Fence
import ConcurrencyFaults.Operator.Volatile
import ConcurrencyFaults.Proofs.Requests

/-!
# Operators on memory accesses

Changing the order, the scope or the volatile flag of an access overwrites one instruction by one
from which control goes where it went, so all sites of a run stay live.  Only fences are erased; a
position is used up before its fence is handled, and different positions are different fences, so
each is erased once.

## Strategy

Runs are followed by an invariant that is kept by single requests.

* Atomic and volatile accesses: all sites are live (`AllLive`), whatever position is requested.
  One lemma serves both operators (`runs_overwriting`).
* Fences: the sites whose positions are not used up are live (`FenceOperator.Held`).  A request
  takes the live fence of its position, which is used up by then, so the invariant no longer speaks
  of it and may be kept when it is erased (`Held.changed`).

Only an erasure can be refused, namely that of a fence which something reads.  Where no fence is
read at the start none is read later (`Program.FencesUnread.of_placed?`), and the run answers.
-/

namespace ConcurrencyFaults

open Program Work

variable {program start : Program} {workspace : Workspace}
  {refused : EditError → Workspace → Prop}

/-! ## Memory sites

Sites are collected in the order of the program.  They are filtered out of the list of all handles,
which has no repetitions. -/

namespace MemorySite

variable {site : MemorySite} {select : Operation → Option MemoryKind}

theorem placed?_of_mem_instructions (consistent : program.Consistent) {function : FunctionId}
    {handle : Handle} {instruction : Instruction}
    (hmem : (function, handle, instruction) ∈ program.instructions) :
    ∃ entry, program.placed? handle = some entry ∧ entry.function = function ∧
      entry.instruction = instruction := by
  obtain ⟨found, hfound, hvisited⟩ := List.mem_flatMap.mp hmem
  obtain ⟨⟨listed, read⟩, hlisted, heq⟩ := List.mem_map.mp hvisited
  simp only [Prod.mk.injEq] at heq
  obtain ⟨rfl, rfl, rfl⟩ := heq
  obtain ⟨other, hother, hread⟩ := List.mem_filterMap.mp hlisted
  obtain ⟨id, hfunction⟩ := List.mem_iff_getElem?.mp hfound
  obtain ⟨entry, hplaced, hid⟩ := consistent.placed_of_mem_function hfunction hother
  rw [instruction?_of_placed? hplaced] at hread
  simp only [Option.map_some, Option.some.injEq, Prod.mk.injEq] at hread
  obtain ⟨rfl, rfl⟩ := hread
  exact ⟨entry, hplaced, hid.trans (consistent.function_id hfunction).symm, rfl⟩

/-- A collected site is live in its function, and its instruction is of the kind that was asked
for. -/
theorem placed?_of_mem_collect (consistent : program.Consistent)
    (hsite : site ∈ collect program select) :
    ∃ entry, program.placed? site.handle = some entry ∧ entry.function = site.function ∧
      (select entry.instruction.operation).isSome := by
  obtain ⟨⟨function, handle, instruction⟩, hmem, hselect⟩ := List.mem_filterMap.mp hsite
  obtain ⟨kind, hkind, rfl⟩ := Option.map_eq_some_iff.mp hselect
  obtain ⟨entry, hplaced, hfunction, rfl⟩ := placed?_of_mem_instructions consistent hmem
  exact ⟨entry, hplaced, hfunction, by simp [hkind]⟩

/-- The sites are the listed instructions of which a kind is named. -/
theorem map_handle_collect (program : Program) (select : Operation → Option MemoryKind) :
    (collect program select).map MemorySite.handle = program.handles.filter fun handle =>
      (program.instruction? handle).any fun instruction =>
        (select instruction.operation).isSome := by
  unfold collect instructions handles
  rw [List.filterMap_flatMap, List.map_flatMap, List.filter_flatMap]
  refine List.flatMap_congr fun function _ => ?_
  rw [instructionsIn, List.filterMap_map, List.filterMap_filterMap, List.map_filterMap,
    ← List.filterMap_eq_filter]
  refine List.filterMap_congr fun handle _ => ?_
  cases hfound : program.instruction? handle with
  | none => simp [Option.guard, hfound]
  | some instruction =>
      cases hkind : select instruction.operation <;> simp [Option.guard, hfound, hkind]

theorem nodup_collect (consistent : program.Consistent) :
    ((collect program select).map MemorySite.handle).Nodup := by
  rw [map_handle_collect]
  exact consistent.handles_nodup.filter _

theorem position_eq_of_handle_eq (consistent : program.Consistent) {first second : Nat}
    {other : MemorySite} (hfirst : (collect program select)[first]? = some site)
    (hsecond : (collect program select)[second]? = some other)
    (hhandle : site.handle = other.handle) : first = second := by
  have hlt : first < ((collect program select).map MemorySite.handle).length := by
    rw [List.length_map]
    exact (List.getElem?_eq_some_iff.mp hfirst).1
  refine (List.getElem?_inj hlt (nodup_collect consistent)).mp ?_
  calc ((collect program select).map MemorySite.handle)[first]?
    _ = some site.handle := by rw [List.getElem?_map, hfirst, Option.map_some]
    _ = some other.handle := by rw [hhandle]
    _ = ((collect program select).map MemorySite.handle)[second]? := by
      rw [List.getElem?_map, hsecond, Option.map_some]

end MemorySite

/-! ## Overwriting accesses

The new instruction is in the place of the old one, so no handle goes stale. -/

/-- The program is as the run needs it, and all sites are live. -/
structure AllLive (start : Program) (memorySites : List MemorySite) (workspace : Workspace) : Prop
    extends Upheld start workspace.program where
  live : ∀ site ∈ memorySites, ∃ entry, workspace.program.placed? site.handle = some entry

variable {memorySites : List MemorySite} {site : MemorySite}

theorem AllLive.of_collect {select : Operation → Option MemoryKind}
    (consistent : workspace.program.Consistent) :
    AllLive workspace.program (MemorySite.collect workspace.program select) workspace :=
  ⟨Upheld.refl consistent, fun _ hsite => by
    obtain ⟨entry, hplaced, -⟩ := MemorySite.placed?_of_mem_collect consistent hsite
    exact ⟨entry, hplaced⟩⟩

/-- An access may be overwritten by one from which control goes where it went. -/
theorem runs_bind_setOperation {Answer : Type} {next : Unit → Work Answer}
    {answered : Answer → Workspace → Prop} {handle : Handle} {entry : Placed}
    {operation : Operation} (alive : AllLive start memorySites workspace)
    (hplaced : workspace.program.placed? handle = some entry)
    (hexits : operation.exits? = entry.instruction.operation.exits?)
    (hnext : ∀ state, AllLive start memorySites state → Runs (next ()) state answered refused) :
    Runs (Work.edit (setOperation handle operation) >>= next) workspace answered refused := by
  have hrevised := @revised_modifyInstruction workspace.program handle entry
    (·.withOperation operation) alive.consistent hplaced hexits
  refine runs_bind_edit (changeInstruction_of_placed? hplaced _) (hnext _ ⟨⟨hrevised.consistent,
    fun h => hrevised.terminated (alive.terminated h)⟩, fun site hsite => ?_⟩)
  obtain ⟨found, hfound⟩ := alive.live site hsite
  by_cases hsame : site.handle = handle
  · rw [hsame]
    exact ⟨_, by rw [placed?_modifyInstruction hplaced, Function.update_self]⟩
  · exact ⟨found, by rw [placed?_modifyInstruction hplaced, Function.update_of_ne hsame, hfound]⟩

theorem AllLive.noted (alive : AllLive start memorySites workspace) (ledger : Ledger) :
    AllLive start memorySites { workspace with ledger } := ⟨alive.toUpheld, alive.live⟩

theorem runs_overwriting {pass : String} {select : Operation → Option MemoryKind}
    {positions : List Nat} {handle : Nat → MemorySite → Work Bool}
    (consistent : workspace.program.Consistent)
    (hstep : ∀ request site state memorySites, site ∈ memorySites →
      AllLive workspace.program memorySites state →
        Runs (handle request site) state (fun _ => AllLive workspace.program memorySites) refused) :
    Runs (Work.anySite pass (MemorySite.collect workspace.program select) positions handle)
      workspace (fun _ after => Upheld workspace.program after.program) refused := by
  refine (runs_anySite (AllLive workspace.program (MemorySite.collect workspace.program select))
    ?_ ?_ (AllLive.of_collect consistent)).weaken fun _ _ alive => alive.toUpheld
  · exact fun state entry alive => alive.noted _
  · intro position request site state hsite alive _
    exact hstep request site _ _ (List.mem_of_getElem? hsite) (alive.noted _)

/-! ## Orders of accepted plans

A plan is checked before it is run; what the check accepts can be decoded. -/

/-- Where anything is listed, there is something for each request. -/
theorem exists_nthOrLast {Value : Type} {values : List Value} (hvalues : values ≠ [])
    (index : Nat) : ∃ value, nthOrLast values index = some value := by
  unfold nthOrLast
  cases values[index]? with
  | some value => exact ⟨value, rfl⟩
  | none => exact ⟨_, List.getLast?_eq_some_getLast hvalues⟩

/-- Whatever request it is for, a number that was accepted stands for an order. -/
theorem OrderTable.exists_decode? {table : OrderTable} {codes : List Nat} (hnonempty : codes ≠ [])
    (haccepted : table.check codes = .ok ()) (request : Nat) :
    ∃ code order, nthOrLast codes request = some code ∧ table.decode? code = some order := by
  have hsmall : ∀ code ∈ codes, code ≤ table.maxCode := by
    intro code hmem
    unfold OrderTable.check at haccepted
    split at haccepted
    · cases haccepted
    · rename_i hnone
      obtain ⟨index, hlt, rfl⟩ := List.mem_iff_getElem.mp hmem
      have hpair : (codes[index], index) ∈ codes.zipIdx := by
        simp [List.mem_zipIdx_iff_getElem?]
      simpa using List.find?_eq_none.mp hnone _ hpair
  obtain ⟨code, hcode⟩ := exists_nthOrLast hnonempty request
  have hmem : code ∈ codes := by
    rcases Option.or_eq_some_iff.mp hcode with hnth | ⟨-, hlast⟩
    · exact List.mem_of_getElem? hnth
    · exact List.mem_of_getLast? hlast
  have horders : 0 < table.orders.length := by cases table <;> decide
  have hlt : code < table.orders.length :=
    Nat.lt_of_le_of_lt (hsmall code hmem) (Nat.sub_lt horders Nat.one_pos)
  exact ⟨code, _, hcode, List.getElem?_eq_getElem hlt⟩

theorem FencePlan.exists_decode? {plan : FencePlan} {codes : List Nat}
    (hchange : plan.change = some (.order codes)) (haccepted : plan.check = .ok ())
    (request : Nat) :
    ∃ code order, nthOrLast codes request = some code ∧
      OrderTable.fence.decode? code = some order := by
  unfold FencePlan.check at haccepted
  rw [hchange] at haccepted
  obtain ⟨_, -, haccepted⟩ := Except.bind_eq_ok_iff.mp haccepted
  cases codes with
  | nil => cases haccepted
  | cons first rest => exact OrderTable.exists_decode? (by simp) haccepted request

theorem AtomicPlan.exists_decode? {plan : AtomicPlan} {codes : List Nat}
    (hchange : plan.change = some (.order codes)) (haccepted : plan.check = .ok ())
    (request : Nat) :
    ∃ code order, nthOrLast codes request = some code ∧
      plan.target.table.decode? code = some order := by
  unfold AtomicPlan.check at haccepted
  rw [hchange] at haccepted
  obtain ⟨_, -, haccepted⟩ := Except.bind_eq_ok_iff.mp haccepted
  cases codes with
  | nil => cases haccepted
  | cons first rest => exact OrderTable.exists_decode? (by simp) haccepted request

/-! ## Atomic accesses

Four operators in one, which differ in the accesses that they collect. -/

namespace AtomicOperator

@[simp] theorem exits?_withAccess (order : MemoryOrder) (scope : SyncScope)
    (operation : Operation) : (withAccess order scope operation).exits? = operation.exits? := by
  cases operation <;> rfl

theorem runs_apply (hsite : site ∈ memorySites) (alive : AllLive start memorySites workspace)
    (target : AtomicTarget) (change : AtomicChange) (request : Nat) :
    Runs (apply target change request site) workspace (fun _ => AllLive start memorySites)
      refused := by
  obtain ⟨entry, hplaced⟩ := alive.live site hsite
  unfold apply
  refine runs_bind_query (instruction_of_placed? hplaced) ?_
  split
  · exact runs_pure alive
  · split
    · exact runs_bind_warn (runs_pure (alive.noted _))
    · refine runs_bind_setOperation alive hplaced (exits?_withAccess ..) fun state alive => ?_
      exact runs_bind_recordChange fun _ => runs_pure (alive.noted _)

/-- What makes an operation a candidate. -/
def kind? (target : AtomicTarget) (onlyAtomic : Bool) : Operation → Option MemoryKind :=
  match target with
  | .compareExchange => MemorySite.compareExchangeKind?
  | .store => MemorySite.storeKind? onlyAtomic
  | .load => MemorySite.loadKind? onlyAtomic
  | .update => MemorySite.updateKind?

theorem sites_eq_collect (target : AtomicTarget) (onlyAtomic : Bool) (program : Program) :
    sites target onlyAtomic program = MemorySite.collect program (kind? target onlyAtomic) := by
  cases target <;> rfl

theorem runs_run (consistent : workspace.program.Consistent) (plan : AtomicPlan) :
    Runs (run plan) workspace (fun _ after => Upheld workspace.program after.program) refused := by
  unfold run
  cases plan.change with
  | none => exact runs_pure (Upheld.refl consistent)
  | some change =>
      refine runs_bind (runs_get ?_)
      rw [sites_eq_collect]
      exact runs_overwriting consistent fun request site state memorySites hsite alive =>
        runs_apply hsite alive plan.target change request

theorem runs_report (consistent : workspace.program.Consistent) (plan : AtomicPlan) :
    Runs (report plan) workspace (fun _ after => after.program = workspace.program) refused := by
  unfold report
  refine runs_bind (runs_get ?_)
  rw [sites_eq_collect]
  refine runs_bind_mapM (fun site hsite => ?_) fun lines => runs_reportSites _ lines _
  obtain ⟨entry, hplaced, -⟩ := MemorySite.placed?_of_mem_collect consistent hsite
  refine ⟨(site.location, orderText entry.instruction.operation), ?_⟩
  rw [bind_apply_of_ok (query_apply_of_ok (instruction_of_placed? hplaced))]
  rfl

end AtomicOperator

/-! ## Volatile accesses

Clearing a flag changes an attribute, or an argument if the access is a call. -/

namespace VolatileOperator

theorem exits?_cleared? {operation cleared : Operation}
    (hcleared : cleared? operation = some cleared) : cleared.exits? = operation.exits? := by
  cases operation with
  | load | store | compareExchange | update =>
      rw [← Option.some.inj hcleared]
      rfl
  | call | invoke =>
      dsimp only [cleared?, Operation.arguments?] at hcleared
      split at hcleared
      · rw [← Option.some.inj hcleared, Operation.exits?_withArguments]
      · cases hcleared
  | _ => cases hcleared

theorem runs_clear (hsite : site ∈ memorySites) (alive : AllLive start memorySites workspace) :
    Runs (clear site) workspace (fun _ => AllLive start memorySites) refused := by
  obtain ⟨entry, hplaced⟩ := alive.live site hsite
  unfold clear
  refine runs_bind_query (instruction_of_placed? hplaced) ?_
  split
  · exact runs_pure alive
  · rename_i operation hcleared
    refine runs_bind_setOperation alive hplaced (exits?_cleared? hcleared) fun state alive => ?_
    exact runs_bind_recordChange fun _ => runs_pure (alive.noted _)

theorem runs_run (consistent : workspace.program.Consistent) (plan : VolatilePlan) :
    Runs (run plan) workspace (fun _ after => Upheld workspace.program after.program) refused := by
  unfold run
  refine runs_bind (runs_get ?_)
  exact runs_overwriting consistent fun _ site state memorySites hsite alive =>
    runs_clear hsite alive

theorem runs_report (plan : VolatilePlan) :
    Runs (report plan) workspace (fun _ after => after.program = workspace.program) refused := by
  unfold report
  exact runs_bind (runs_get (runs_reportSites _ _ _))

end VolatileOperator

/-! ## Fences

First what may become of fences that nothing reads, then the run. -/

theorem Operation.IsFence.useCount {operation : Operation} (hfence : operation.IsFence)
    (handle : Handle) : operation.useCount handle = 0 := by
  obtain ⟨order, scope, rfl⟩ := hfence
  rfl

theorem Operation.IsFence.exits? {operation : Operation} (hfence : operation.IsFence) :
    operation.exits? = none := by
  obtain ⟨order, scope, rfl⟩ := hfence
  rfl

/-- Whether an operation is a fence can be read off its shape. -/
theorem Operation.IsFence.of_shape {operation other : Operation} (hfence : operation.IsFence)
    (hshape : other.shape = operation.shape) : other.IsFence := by
  obtain ⟨order, scope, rfl⟩ := hfence
  cases other with
  | fence order scope => exact ⟨order, scope, rfl⟩
  | _ => cases hshape

/-- Fences stay unread if every instruction reads what it read, or is a fence and was one. -/
theorem Program.FencesUnread.of_placed? {after : Program} (hunread : program.FencesUnread)
    (hbefore : ∀ handle entry, after.placed? handle = some entry →
      ∃ found, program.placed? handle = some found ∧
        (entry.instruction.operation = found.instruction.operation ∨
          found.instruction.operation.IsFence ∧ entry.instruction.operation.IsFence)) :
    after.FencesUnread := by
  rintro fence reader readerEntry ⟨entry, hplaced, hfence⟩ hreader
  obtain ⟨found, hfound, hsame⟩ := hbefore fence entry hplaced
  have hwas : found.instruction.operation.IsFence := by
    rcases hsame with hsame | ⟨hwas, -⟩
    · rwa [← hsame]
    · exact hwas
  obtain ⟨reads, hreads, hsame | ⟨-, hother⟩⟩ := hbefore reader readerEntry hreader
  · rw [hsame]
    exact hunread fence reader reads ⟨found, hfound, hwas⟩ hreads
  · exact hother.useCount fence

theorem Program.FencesUnread.eraseEntry {handle : Handle} {entry : Placed}
    (hunread : program.FencesUnread) (hplaced : program.placed? handle = some entry) :
    (program.eraseEntry handle entry).FencesUnread := by
  refine hunread.of_placed? fun other found hfound => ?_
  rw [placed?_eraseEntry hplaced] at hfound
  by_cases hsame : other = handle
  · rw [hsame, Function.update_self] at hfound
    cases hfound
  · rw [Function.update_of_ne hsame] at hfound
    exact ⟨found, hfound, Or.inl rfl⟩

theorem Program.FencesUnread.modifyInstruction {handle : Handle} {entry : Placed}
    {operation : Operation} (hunread : program.FencesUnread)
    (hplaced : program.placed? handle = some entry)
    (hwas : entry.instruction.operation.IsFence) (hfence : operation.IsFence) :
    (program.modifyInstruction handle (·.withOperation operation)).FencesUnread := by
  refine hunread.of_placed? fun other found hfound => ?_
  rw [placed?_modifyInstruction hplaced] at hfound
  by_cases hsame : other = handle
  · rw [hsame, Function.update_self, Option.some.injEq] at hfound
    subst hsame hfound
    exact ⟨entry, hplaced, Or.inr ⟨hwas, hfence⟩⟩
  · rw [Function.update_of_ne hsame] at hfound
    exact ⟨found, hfound, Or.inl rfl⟩

theorem MemorySite.liveFence_of_mem_fences (consistent : program.Consistent)
    (hsite : site ∈ MemorySite.fences program) : program.LiveFence site.handle := by
  obtain ⟨entry, hplaced, -, hkind⟩ := placed?_of_mem_collect consistent hsite
  refine ⟨entry, hplaced, ?_⟩
  cases hoperation : entry.instruction.operation with
  | fence order scope => exact ⟨order, scope, rfl⟩
  | _ =>
      rw [hoperation] at hkind
      exact absurd hkind (by simp [fenceKind?])

theorem Program.LiveFence.kept {after : Program} {handle : Handle} {gone : List Handle}
    (hlive : program.LiveFence handle) (hkept : Kept program after gone) (hnot : handle ∉ gone) :
    after.LiveFence handle := by
  obtain ⟨entry, hplaced, hfence⟩ := hlive
  obtain ⟨found, hfound, -, hshape⟩ := hkept.alike hplaced hnot
  exact ⟨found, hfound, hfence.of_shape hshape⟩

namespace FenceOperator

/-- A fence is live as long as its position is not used up, and fences stay unread. -/
structure Held (start : Program) (workspace : Workspace) : Prop
    extends Upheld start workspace.program where
  unread : start.FencesUnread → workspace.program.FencesUnread
  live : ∀ position site, (MemorySite.fences start)[position]? = some site →
    workspace.ledger.isUsed name position = false → workspace.program.LiveFence site.handle

theorem Held.of_fences (consistent : workspace.program.Consistent) :
    Held workspace.program workspace :=
  ⟨Upheld.refl consistent, fun h => h, fun _ _ hsite _ =>
    MemorySite.liveFence_of_mem_fences consistent (List.mem_of_getElem? hsite)⟩

theorem Held.recorded (held : Held start workspace) (entry : Entry) :
    Held start { workspace with ledger := workspace.ledger.record entry } :=
  ⟨held.toUpheld, held.unread, held.live⟩

variable {position : Nat} {site : MemorySite}

theorem Held.used (held : Held start workspace) (position : Nat) :
    Held start { workspace with ledger :=
      { workspace.ledger with used := (name, position) :: workspace.ledger.used } } := by
  refine ⟨held.toUpheld, held.unread, fun other site hsite hunused => ?_⟩
  refine held.live other site hsite ?_
  simp only [Ledger.isUsed, List.contains_cons, Bool.or_eq_false_iff] at hunused
  exact hunused.2

section Change

variable (hstart : start.Consistent) (held : Held start workspace)
  (hsite : (MemorySite.fences start)[position]? = some site)
  (hused : workspace.ledger.isUsed name position = true)
  (hfence : workspace.program.LiveFence site.handle)
include hstart held hsite hused

/-- A change that is about the fence of a used position alone leaves the other fences live. -/
theorem Held.changed {after : Program}
    (hrevised : workspace.program.Revised after [site.handle])
    (hunread : workspace.program.FencesUnread → after.FencesUnread) :
    Held start { workspace with program := after } := by
  refine ⟨⟨hrevised.consistent, fun h => hrevised.terminated (held.terminated h)⟩,
    fun h => hunread (held.unread h), fun other found hfound hunused => ?_⟩
  refine (held.live other found hfound hunused).kept hrevised.toKept fun hmem => ?_
  have hsame : found.handle = site.handle := List.mem_singleton.mp hmem
  -- one fence has one position, and that position is used up
  obtain rfl := MemorySite.position_eq_of_handle_eq hstart hfound hsite hsame
  rw [show workspace.ledger.isUsed name other = false from hunused] at hused
  cases hused

include hfence

/-- Another order or scope is written into a fence. -/
theorem runs_overwrite (order : MemoryOrder) (scope : SyncScope) (kind : EntryKind)
    (message : String) :
    Runs (do
      Work.edit (setOperation site.handle (.fence order scope))
      Work.recordChange name kind site.function message) workspace (fun _ => Held start)
      refused := by
  obtain ⟨entry, hplaced, hwas⟩ := hfence
  have hrevised := @revised_modifyInstruction workspace.program site.handle entry
    (·.withOperation (.fence order scope)) held.consistent hplaced hwas.exits?.symm
  have hheld := held.changed hstart hsite hused hrevised fun hunread =>
    hunread.modifyInstruction hplaced hwas ⟨order, scope, rfl⟩
  exact runs_bind_edit (changeInstruction_of_placed? hplaced _)
    (runs_recordChange fun entry => hheld.recorded entry)

theorem runs_changeOrder (order : MemoryOrder) :
    Runs (changeOrder site order) workspace (fun _ => Held start) refused := by
  obtain ⟨entry, hplaced, oldOrder, scope, hoperation⟩ := id hfence
  unfold changeOrder
  refine runs_bind_query (instruction_of_placed? hplaced) ?_
  rw [hoperation]
  exact runs_overwrite hstart held hsite hused hfence order scope _ _

theorem runs_toggleScope :
    Runs (toggleScope site) workspace (fun _ => Held start) refused := by
  obtain ⟨entry, hplaced, order, scope, hoperation⟩ := id hfence
  unfold toggleScope
  refine runs_bind_query (instruction_of_placed? hplaced) ?_
  rw [hoperation]
  exact runs_overwrite hstart held hsite hused hfence order scope.toggled _ _

/-- Only a fence that is read cannot be erased. -/
theorem runs_remove :
    Runs (remove site) workspace (fun _ => Held start) (Refusal start) := by
  obtain ⟨entry, hplaced, hwas⟩ := id hfence
  obtain ⟨uses, huses⟩ := exists_useCount held.consistent hplaced
  unfold remove
  by_cases hunused : uses = 0
  · subst hunused
    have hheld := held.changed hstart hsite hused
      (revised_eraseEntry held.consistent hplaced hwas.exits?) fun hunread =>
        hunread.eraseEntry hplaced
    exact runs_bind_edit (erase_of_unused hplaced huses)
      (runs_recordChange fun entry => hheld.recorded entry)
  · have hrefused : Work.edit (erase site.handle) workspace =
        .error (.hasUses site.handle uses) workspace := by
      unfold Work.edit
      rw [erase_of_used huses (Nat.pos_of_ne_zero hunused)]
    refine runs_bind (runs_of_error hrefused ⟨held.toUpheld, fun hanswerable => hunused ?_⟩)
    -- a refusal means that something reads the fence
    have hunread := held.unread hanswerable.fencesUnread
    have hzero := (useCount_eq_zero_iff held.consistent hplaced).mpr fun reader found hfound _ =>
      hunread site.handle reader found hfence hfound
    rw [hzero, Except.ok.injEq] at huses
    exact huses.symm

theorem runs_apply (change : FenceChange) (request : Nat) :
    Runs (apply change request site) workspace (fun _ => Held start) (Refusal start) := by
  cases change with
  | remove => exact runs_remove hstart held hsite hused hfence
  | toggleScope => exact runs_toggleScope hstart held hsite hused hfence
  | order codes =>
      unfold apply
      dsimp only
      split
      · exact runs_changeOrder hstart held hsite hused hfence _
      · exact held.recorded _

end Change

theorem runs_run (consistent : workspace.program.Consistent) (plan : FencePlan) :
    Runs (run plan) workspace (fun _ after => Upheld workspace.program after.program)
      (Refusal workspace.program) := by
  unfold run
  cases plan.change with
  | none => exact runs_pure (Upheld.refl consistent)
  | some change =>
      refine runs_bind (runs_get ?_)
      refine (runs_anySite (Held workspace.program) ?_ ?_ (Held.of_fences consistent)).weaken
        fun _ _ held => held.toUpheld
      · exact fun state entry held => held.recorded entry
      · intro position request site state hsite held hunused
        refine (runs_apply consistent (held.used position) hsite ?_
          (held.live position site hsite hunused) change request).bind ?_
        · simp [Ledger.isUsed]
        · exact fun _ _ held => runs_pure held

theorem runs_report (plan : FencePlan) :
    Runs (report plan) workspace (fun _ after => after.program = workspace.program) refused := by
  unfold report
  exact runs_bind (runs_get (runs_reportSites _ _ _))

end FenceOperator

end ConcurrencyFaults

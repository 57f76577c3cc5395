import ConcurrencyFaults.Proofs.Requests
import Mathlib.Data.List.Forall2

/-!
# Workspaces that are alike

Messages are written for those who read the journal; no run looks at them.  Two workspaces are alike
if they hold the same program, the same marks and used positions, and entries of the same kinds in
the same order (`Workspace.Alike`).  Two pieces of work act alike if from such workspaces they come
to related answers, or are refused for the same reason, and leave workspaces that are alike again
(`Work.ActAlike`).  Whatever is put together from parts that act alike acts alike.

The relation between answers is there for what the two pieces of work count differently: an address
and the answer to it may be written down in two ways.  Work that is compared with itself has equal
answers (`Work.Wordless`).
-/

namespace ConcurrencyFaults

/-- The kinds of all entries, the oldest first. -/
def Journal.kinds (journal : Journal) : List EntryKind := journal.entries.map Entry.kind

/-- The workspaces differ at most in what their entries say. -/
structure Workspace.Alike (first second : Workspace) : Prop where
  program_eq : first.program = second.program
  edited_eq : first.ledger.edited = second.ledger.edited
  used_eq : first.ledger.used = second.ledger.used
  kinds_eq : first.ledger.journal.kinds = second.ledger.journal.kinds

namespace Workspace.Alike

variable {first second : Workspace}

theorem refl (workspace : Workspace) : workspace.Alike workspace := ⟨rfl, rfl, rfl, rfl⟩

theorem isEdited_eq (halike : first.Alike second) (handle : Handle) :
    first.ledger.isEdited handle = second.ledger.isEdited handle := by
  rw [Ledger.isEdited, halike.edited_eq, Ledger.isEdited]

/-- Entries of one kind are recorded on both sides. -/
theorem record (halike : first.Alike second) {entry other : Entry}
    (hkind : entry.kind = other.kind) :
    ({ first with ledger := first.ledger.record entry } : Workspace).Alike
      { second with ledger := second.ledger.record other } := by
  refine ⟨halike.program_eq, halike.edited_eq, halike.used_eq, ?_⟩
  calc (first.ledger.journal.entries ++ [entry]).map Entry.kind
    _ = first.ledger.journal.kinds ++ [entry.kind] := List.map_append
    _ = second.ledger.journal.kinds ++ [other.kind] := by rw [halike.kinds_eq, hkind]
    _ = (second.ledger.journal.entries ++ [other]).map Entry.kind := by
      rw [List.map_append]
      rfl

theorem markEdited (halike : first.Alike second) (handle : Handle) :
    ({ first with ledger := first.ledger.markEdited handle } : Workspace).Alike
      { second with ledger := second.ledger.markEdited handle } := by
  unfold Ledger.markEdited
  rw [halike.isEdited_eq]
  split
  · exact halike
  · exact ⟨halike.program_eq, congrArg (handle :: ·) halike.edited_eq, halike.used_eq,
      halike.kinds_eq⟩

end Workspace.Alike

namespace Work

variable {First Second Answer Other : Type} {related : First → Second → Prop}
  {relatedNext : Answer → Other → Prop}

/-- Both ended with related answers, or were refused for the same reason, in workspaces that are
alike. -/
inductive EndAlike (related : First → Second → Prop) :
    EStateM.Result EditError Workspace First → EStateM.Result EditError Workspace Second →
      Prop where
  | answered {answer : First} {other : Second} {after otherAfter : Workspace}
      (hrelated : related answer other) (hafter : after.Alike otherAfter) :
      EndAlike related (.ok answer after) (.ok other otherAfter)
  | refused {problem : EditError} {after otherAfter : Workspace}
      (hafter : after.Alike otherAfter) :
      EndAlike related (.error problem after) (.error problem otherAfter)

/-- From workspaces that are alike both come to ends that are alike. -/
def ActAlike (related : First → Second → Prop) (first : Work First) (second : Work Second) : Prop :=
  ∀ before other, before.Alike other → EndAlike related (first before) (second other)

/-- The work takes no notice of what the entries say. -/
def Wordless (work : Work Answer) : Prop := ActAlike Eq work work

/-! ## Parts put together

Loops are compared request by request, over two lists of equal length (`List.Forall₂`). -/

theorem actAlike_pure {answer : First} {other : Second} (hrelated : related answer other) :
    ActAlike related (pure answer) (pure other) := fun _ _ halike => .answered hrelated halike

theorem wordless_pure (answer : Answer) : Wordless (pure answer) := actAlike_pure rfl

theorem ActAlike.bind {first : Work First} {second : Work Second} {next : First → Work Answer}
    {otherNext : Second → Work Other} (hfirst : ActAlike related first second)
    (hnext : ∀ answer other, related answer other →
      ActAlike relatedNext (next answer) (otherNext other)) :
    ActAlike relatedNext (first >>= next) (second >>= otherNext) := by
  intro before other halike
  have hends := hfirst before other halike
  show EndAlike relatedNext (EStateM.bind first next before) (EStateM.bind second otherNext other)
  unfold EStateM.bind
  generalize first before = result at hends
  generalize second other = otherResult at hends
  cases hends with
  | answered hrelated hafter => exact hnext _ _ hrelated _ _ hafter
  | refused hafter => exact .refused hafter

theorem Wordless.bind {work : Work First} {next : First → Work Answer} (hwork : Wordless work)
    (hnext : ∀ answer, Wordless (next answer)) : Wordless (work >>= next) := by
  refine ActAlike.bind hwork ?_
  rintro answer _ rfl
  exact hnext answer

/-- Related requests are handled alike, one after another. -/
theorem ActAlike.foldlM {Request Requested : Type} {asked : Request → Requested → Prop}
    {requests : List Request} {others : List Requested} {step : First → Request → Work First}
    {otherStep : Second → Requested → Work Second}
    (hrequests : List.Forall₂ asked requests others)
    (hstep : ∀ request requested, asked request requested → ∀ answer other, related answer other →
      ActAlike related (step answer request) (otherStep other requested))
    {answer : First} {other : Second} (hstart : related answer other) :
    ActAlike related (requests.foldlM step answer) (others.foldlM otherStep other) := by
  induction hrequests generalizing answer other with
  | nil => exact actAlike_pure hstart
  | cons hasked _ ih =>
      rw [List.foldlM_cons, List.foldlM_cons]
      exact (hstep _ _ hasked _ _ hstart).bind fun _ _ hrelated => ih hrelated

theorem actAlike_forM {Request Requested : Type} {asked : Request → Requested → Prop}
    {requests : List Request} {others : List Requested} {handle : Request → Work Unit}
    {otherHandle : Requested → Work Unit} (hrequests : List.Forall₂ asked requests others)
    (hhandle : ∀ request requested, asked request requested →
      ActAlike Eq (handle request) (otherHandle requested)) :
    ActAlike Eq (requests.forM handle) (others.forM otherHandle) := by
  induction hrequests with
  | nil => exact actAlike_pure rfl
  | cons hasked _ ih => exact (hhandle _ _ hasked).bind fun _ _ _ => ih

theorem actAlike_anyOf {Request Requested : Type} {asked : Request → Requested → Prop}
    {requests : List Request} {others : List Requested} {handle : Request → Work Bool}
    {otherHandle : Requested → Work Bool} (hrequests : List.Forall₂ asked requests others)
    (hhandle : ∀ request requested, asked request requested →
      ActAlike Eq (handle request) (otherHandle requested)) :
    ActAlike Eq (anyOf requests handle) (anyOf others otherHandle) := by
  refine ActAlike.foldlM hrequests (fun request requested hasked changed other hsame => ?_) rfl
  refine (hhandle request requested hasked).bind ?_
  rintro answer _ rfl
  exact actAlike_pure (by rw [hsame])

theorem Wordless.forM {Item : Type} {items : List Item} {handle : Item → Work Unit}
    (hhandle : ∀ item, Wordless (handle item)) : Wordless (items.forM handle) :=
  actAlike_forM (List.forall₂_same.mpr fun _ _ => rfl) fun item _ (hsame : item = _) =>
    hsame ▸ hhandle item

/-! ## Single steps

Only `record` looks at what an entry says, and it only appends. -/

theorem actAlike_get : ActAlike Workspace.Alike (get : Work Workspace) get := fun _ _ halike =>
  .answered halike halike

theorem wordless_query (question : Program → Except EditError Answer) :
    Wordless (query question) := by
  unfold query
  refine actAlike_get.bind fun first second halike => ?_
  rw [halike.program_eq]
  cases question second.program with
  | ok answer => exact wordless_pure answer
  | error problem => exact fun _ _ hrefused => .refused hrefused

theorem wordless_edit (change : Edit Answer) : Wordless (edit change) := by
  intro before other halike
  unfold edit
  rw [← halike.program_eq]
  cases change before.program with
  | ok answer after =>
      exact .answered rfl ⟨rfl, halike.edited_eq, halike.used_eq, halike.kinds_eq⟩
  | error problem after =>
      exact .refused ⟨rfl, halike.edited_eq, halike.used_eq, halike.kinds_eq⟩

theorem actAlike_record {entry other : Entry} (hkind : entry.kind = other.kind) :
    ActAlike Eq (record entry) (record other) := fun _ _ halike =>
  .answered rfl (halike.record hkind)

theorem actAlike_warn (message other : String) : ActAlike Eq (warn message) (warn other) :=
  actAlike_record rfl

theorem wordless_warn (message : String) : Wordless (warn message) := actAlike_warn message message

theorem actAlike_recordChange (pass : String) (kind : EntryKind) (function : FunctionId)
    (message other : String) (location : Option Nat) :
    ActAlike Eq (recordChange pass kind function message location)
      (recordChange pass kind function other location) := actAlike_record rfl

theorem wordless_markEdited (handle : Handle) : Wordless (markEdited handle) := fun _ _ halike =>
  .answered rfl (halike.markEdited handle)

theorem wordless_skip (message : String) (answer : Answer) :
    Wordless (do warn message; return answer) :=
  (wordless_warn message).bind fun _ => wordless_pure answer

theorem wordless_isEdited (handle : Handle) : Wordless (isEdited handle) := fun _ _ halike =>
  .answered (halike.isEdited_eq handle) halike

theorem wordless_isUntouched (pass : String) (site : CallSite) :
    Wordless (isUntouched pass site) := by
  unfold isUntouched
  refine (wordless_isEdited site.handle).bind fun edited => ?_
  cases edited with
  | true => exact wordless_skip _ _
  | false =>
      refine actAlike_get.bind fun first second halike => ?_
      rw [halike.program_eq]
      cases site.validate second.program with
      | ok => exact wordless_pure true
      | error problem => exact wordless_skip _ _

end Work

end ConcurrencyFaults

import ConcurrencyFaults.Workspace

/-!
# Executing edits and work

An edit, or a piece of work, is a function of the state it starts from.  The first half of this file
evaluates the building blocks such actions are written with, and the questions they ask.  The second
half reads the outcome of an action through `Runs`, which asks one thing of the state that an answer
leaves behind and another of the state that a refusal leaves behind; an action that is never refused
satisfies it for every second demand.

Proofs about operators follow the text of an operator with `runs_bind`, `runs_get` and `runs_pure`,
and take a loop at `runs_foldlM` or `runs_forM`.  Where a part has a lemma of its own, `Runs.bind`
goes on from what that lemma says.
-/

namespace ConcurrencyFaults

variable {Error State Answer Other : Type}

/-! ## Evaluation -/

section Evaluation

variable {action : EStateM Error State Answer} {state after : State}

theorem throw_apply (problem : Error) (state : State) :
    (throw problem : EStateM Error State Answer) state = .error problem state := rfl

theorem get_apply (state : State) : (get : EStateM Error State State) state = .ok state state := rfl

theorem modify_apply (change : State → State) (state : State) :
    (modify change : EStateM Error State Unit) state = .ok () (change state) := rfl

theorem modifyGet_apply (change : State → Answer × State) (state : State) :
    (modifyGet change : EStateM Error State Answer) state = .ok (change state).1 (change state).2 :=
  rfl

/-- After an answer the rest goes on where the first action stopped. -/
theorem bind_apply_of_ok {answer : Answer} (hfirst : action state = .ok answer after)
    (next : Answer → EStateM Error State Other) : (action >>= next) state = next answer after := by
  show EStateM.bind action next state = _
  simp only [EStateM.bind, hfirst]

/-- After a refusal nothing more happens. -/
theorem bind_apply_of_error {problem : Error} (hfirst : action state = .error problem after)
    (next : Answer → EStateM Error State Other) :
    (action >>= next) state = .error problem after := by
  show EStateM.bind action next state = _
  simp only [EStateM.bind, hfirst]

end Evaluation

theorem Edit.query_apply_of_ok {question : Program → Except EditError Answer} {program : Program}
    {answer : Answer} (hquestion : question program = .ok answer) :
    Edit.query question program = .ok answer program := by
  unfold Edit.query
  rw [bind_apply_of_ok (get_apply program), hquestion]
  rfl

theorem Edit.query_apply_of_error {question : Program → Except EditError Answer}
    {program : Program} {problem : EditError} (hquestion : question program = .error problem) :
    Edit.query question program = .error problem program := by
  unfold Edit.query
  rw [bind_apply_of_ok (get_apply program), hquestion]
  rfl

/-! ## Several questions

A list of questions is answered exactly if each of them is.  These are inductions on the list, with
the equation of `mapM` for one more question. -/

namespace Except

variable {Error Item Answer Other : Type}

theorem bind_eq_ok_iff {question : Except Error Answer} {next : Answer → Except Error Other}
    {other : Other} : question >>= next = .ok other ↔
      ∃ answer, question = .ok answer ∧ next answer = .ok other := by
  cases question with
  | error problem => simp [bind, Except.bind]
  | ok answer => simp [bind, Except.bind]

theorem exists_bind {question : Except Error Answer} {next : Answer → Except Error Other}
    (hfirst : ∃ answer, question = .ok answer)
    (hnext : ∀ answer, ∃ other, next answer = .ok other) :
    ∃ other, question >>= next = .ok other := by
  obtain ⟨answer, hanswer⟩ := hfirst
  obtain ⟨other, hother⟩ := hnext answer
  exact ⟨other, bind_eq_ok_iff.mpr ⟨answer, hanswer, hother⟩⟩

theorem map_eq_ok_iff {question : Except Error Answer} {change : Answer → Other} {other : Other} :
    question.map change = .ok other ↔ ∃ answer, question = .ok answer ∧ change answer = other := by
  cases question <;> simp [Except.map]

variable {items : List Item} {question : Item → Except Error Answer} {answers : List Answer}

theorem mem_of_mapM (hmap : items.mapM question = .ok answers) {answer : Answer}
    (hmem : answer ∈ answers) : ∃ item ∈ items, question item = .ok answer := by
  induction items generalizing answers with
  | nil =>
      rw [List.mapM_nil] at hmap
      cases hmap
      cases hmem
  | cons item rest ih =>
      rw [List.mapM_cons, bind_eq_ok_iff] at hmap
      obtain ⟨first, hfirst, hmap⟩ := hmap
      obtain ⟨later, hlater, hmap⟩ := bind_eq_ok_iff.mp hmap
      cases hmap
      rcases List.mem_cons.mp hmem with rfl | hmem
      · exact ⟨item, List.mem_cons_self .., hfirst⟩
      · obtain ⟨found, hfound, hanswer⟩ := ih hlater hmem
        exact ⟨found, List.mem_cons_of_mem _ hfound, hanswer⟩

theorem exists_of_mapM (hmap : items.mapM question = .ok answers) {item : Item}
    (hmem : item ∈ items) : ∃ answer, question item = .ok answer := by
  induction items generalizing answers with
  | nil => cases hmem
  | cons first rest ih =>
      rw [List.mapM_cons, bind_eq_ok_iff] at hmap
      obtain ⟨answer, hanswer, hmap⟩ := hmap
      obtain ⟨later, hlater, -⟩ := bind_eq_ok_iff.mp hmap
      rcases List.mem_cons.mp hmem with rfl | hmem
      · exact ⟨answer, hanswer⟩
      · exact ih hlater hmem

theorem exists_mapM (hanswered : ∀ item ∈ items, ∃ answer, question item = .ok answer) :
    ∃ answers, items.mapM question = .ok answers := by
  induction items with
  | nil => exact ⟨[], rfl⟩
  | cons item rest ih =>
      obtain ⟨first, hfirst⟩ := hanswered item (List.mem_cons_self ..)
      obtain ⟨later, hlater⟩ := ih fun other hother =>
        hanswered other (List.mem_cons_of_mem _ hother)
      refine ⟨first :: later, ?_⟩
      rw [List.mapM_cons, hfirst]
      simp [bind, Except.bind, hlater, pure, Except.pure]

end Except

/-! ## Outcomes

A partial correctness statement would say nothing of a run that is stopped.  As operators change the
program before they can be refused, `Runs` has a demand for that case, too. -/

/-- If the action answers, `answered` holds of the answer and of the state it leaves; if it is
refused, `refused` holds of the reason and of the state it leaves. -/
def Runs (action : EStateM Error State Answer) (state : State) (answered : Answer → State → Prop)
    (refused : Error → State → Prop) : Prop :=
  match action state with
  | .ok answer after => answered answer after
  | .error problem after => refused problem after

section Outcomes

variable {action : EStateM Error State Answer} {state after : State}
  {answered : Answer → State → Prop} {refused : Error → State → Prop}

instance [∀ answer after, Decidable (answered answer after)]
    [∀ problem after, Decidable (refused problem after)] :
    Decidable (Runs action state answered refused) :=
  match hrun : action state with
  | .ok answer after => decidable_of_iff (answered answer after) (by simp only [Runs, hrun])
  | .error problem after => decidable_of_iff (refused problem after) (by simp only [Runs, hrun])

theorem runs_of_ok {answer : Answer} (haction : action state = .ok answer after)
    (hanswered : answered answer after) : Runs action state answered refused := by
  unfold Runs
  rwa [haction]

theorem runs_of_error {problem : Error} (haction : action state = .error problem after)
    (hrefused : refused problem after) : Runs action state answered refused := by
  unfold Runs
  rwa [haction]

/-- An action all of whose refusals are impossible answers. -/
theorem Runs.exists_ok (hruns : Runs action state answered fun _ _ => False) :
    ∃ answer after, action state = .ok answer after ∧ answered answer after := by
  unfold Runs at hruns
  split at hruns
  · exact ⟨_, _, ‹_›, hruns⟩
  · exact hruns.elim

theorem Runs.imp {answered' : Answer → State → Prop} {refused' : Error → State → Prop}
    (hruns : Runs action state answered refused)
    (hanswered : ∀ answer after, answered answer after → answered' answer after)
    (hrefused : ∀ problem after, refused problem after → refused' problem after) :
    Runs action state answered' refused' := by
  unfold Runs at hruns ⊢
  split
  · rename_i hok
    rw [hok] at hruns
    exact hanswered _ _ hruns
  · rename_i herror
    rw [herror] at hruns
    exact hrefused _ _ hruns

theorem Runs.weaken {answered' : Answer → State → Prop} (hruns : Runs action state answered refused)
    (hanswered : ∀ answer after, answered answer after → answered' answer after) :
    Runs action state answered' refused :=
  hruns.imp hanswered fun _ _ hrefused => hrefused

theorem runs_pure {answer : Answer} (hanswered : answered answer state) :
    Runs (pure answer) state answered refused := hanswered

theorem runs_bind {next : Answer → EStateM Error State Other} {answered : Other → State → Prop}
    (hruns : Runs action state (fun answer after => Runs (next answer) after answered refused)
      refused) : Runs (action >>= next) state answered refused := by
  unfold Runs at hruns
  cases hfirst : action state with
  | ok answer after =>
      rw [hfirst] at hruns
      unfold Runs
      rw [bind_apply_of_ok hfirst]
      exact hruns
  | error problem after =>
      rw [hfirst] at hruns
      exact runs_of_error (bind_apply_of_error hfirst next) hruns

/-- What is known of the first part is all that the rest may rely on. -/
theorem Runs.bind {next : Answer → EStateM Error State Other} {finished : Other → State → Prop}
    (hruns : Runs action state answered refused)
    (hnext : ∀ answer after, answered answer after → Runs (next answer) after finished refused) :
    Runs (action >>= next) state finished refused :=
  runs_bind (hruns.weaken hnext)

theorem runs_get {answered : State → State → Prop} (hanswered : answered state state) :
    Runs get state answered refused := hanswered

/-- Requests handled one after another keep what each of them keeps. -/
theorem runs_foldlM {Request : Type} {requests : List Request}
    {step : Answer → Request → EStateM Error State Answer} (invariant : Answer → State → Prop)
    (hstep : ∀ request ∈ requests, ∀ answer state, invariant answer state →
      Runs (step answer request) state invariant refused)
    {answer : Answer} (hstart : invariant answer state) :
    Runs (requests.foldlM step answer) state invariant refused := by
  induction requests generalizing answer state with
  | nil => exact hstart
  | cons request rest ih =>
      rw [List.foldlM_cons]
      refine (hstep request (List.mem_cons_self ..) answer state hstart).bind ?_
      intro next after hnext
      exact ih (fun later hlater => hstep later (List.mem_cons_of_mem _ hlater)) hnext

theorem runs_forM {Request : Type} {requests : List Request}
    {step : Request → EStateM Error State Unit} (invariant : State → Prop)
    (hstep : ∀ request ∈ requests, ∀ state, invariant state →
      Runs (step request) state (fun _ => invariant) refused)
    (hstart : invariant state) :
    Runs (requests.forM step) state (fun _ => invariant) refused := by
  induction requests generalizing state with
  | nil => exact hstart
  | cons request rest ih =>
      refine (hstep request (List.mem_cons_self ..) state hstart).bind ?_
      intro _ after hnext
      exact ih (fun later hlater => hstep later (List.mem_cons_of_mem _ hlater)) hnext

end Outcomes

end ConcurrencyFaults

import ContainerLb.CallProgram

/-!
# Executions that have not ended

A program that shares its state with others is seen in the middle of its
execution: some of its calls have been answered and it waits for the next
reply. Every such beginning can be completed, so what is known of the calls
of all complete executions holds for the calls made so far and for the call
that comes next. Others may also change the state behind the back of the
program; what holds under all replies still holds then, and it is derived
along the text of the program. In particular every program comes to its end
if its calls are answered.
-/

namespace ContainerLb.InterruptedRuns

open CallProgram

variable {ι φ β σ α : Type} {handle : Handler ι φ σ β}

/-- The calls answered so far lead from a program and a state to the rest of
the program and the present state. -/
inductive Interrupted (handle : Handler ι φ σ β) :
    Prog ι β α → σ → List (Event ι φ β σ) → Prog ι β α → σ → Prop
  /-- No call has been answered. -/
  | start (program : Prog ι β α) (state : σ) : Interrupted handle program state [] program state
  /-- The first call was answered under a label. -/
  | call {op : ι} {next : β → Prog ι β α} {state : σ} (label : φ)
      {events : List (Event ι φ β σ)} {rest : Prog ι β α} {present : σ}
      (tail : Interrupted handle (next (answer handle op label state).reply)
        (answer handle op label state).after events rest present) :
      Interrupted handle (.call op next) state (answer handle op label state::events) rest present

namespace Interrupted

variable {program rest : Prog ι β α} {state present : σ} {events : List (Event ι φ β σ)}

/-- One more call is answered. -/
theorem concat {op : ι} {next : β → Prog ι β α}
    (h : Interrupted handle program state events (.call op next) present) (label : φ) :
    Interrupted handle program state (events++[answer handle op label present])
      (next (answer handle op label present).reply) (answer handle op label present).after := by
  generalize hrest : Prog.call op next=rest at h
  induction h with
  | start program state =>
    subst hrest
    exact .call label (.start _ _)
  | call first tail ih => exact .call first (ih hrest)

/-- An execution of the rest completes the execution. -/
theorem runs {outcome : Outcome ι φ β σ α}
    (h : Interrupted handle program state events rest present)
    (hr : Runs handle rest present outcome) :
    Runs handle program state (outcome.prepend events) := by
  induction h with
  | start program state => exact hr
  | call label tail ih => exact .call label (ih hr)

/-- Every beginning is one of a complete execution. -/
theorem exists_runs [Inhabited φ] (h : Interrupted handle program state events rest present) :
    ∃ outcome more,Runs handle program state outcome ∧ outcome.events=events++more := by
  have hr := h.runs (@exec_runs _ _ _ _ _ handle _ rest [] present)
  exact ⟨_,_,hr,rfl⟩

/-- The call that comes next belongs to a complete execution. -/
theorem exists_runs_call [Inhabited φ] {op : ι} {next : β → Prog ι β α}
    (h : Interrupted handle program state events (.call op next) present) :
    ∃ outcome,Runs handle program state outcome ∧ ∃ e∈outcome.events,e.op=op := by
  obtain ⟨outcome,more,hr,hevents⟩ := (h.concat default).exists_runs
  exact ⟨outcome,hr,answer handle op default present,by rw [hevents]; simp,rfl⟩

/-- A finished program has been executed completely. -/
theorem runs_of_done {value : α}
    (h : Interrupted handle program state events (.done value) present) :
    Runs handle program state ⟨value,present,events⟩ := by
  have hr := h.runs (.done value present)
  rwa [Outcome.prepend,List.append_nil] at hr

/-- Without further failures the execution continues with the rest. -/
theorem exec_eq [Inhabited φ] (h : Interrupted handle program state events rest present) :
    program.exec handle (events.map Event.label) state=
      (rest.exec handle [] present).prepend events := by
  induction h with
  | start program state => rfl
  | call label tail ih =>
    rw [List.map_cons,Prog.exec]
    exact congrArg (Outcome.prepend _) ih

/-- The present state is the one after the calls answered so far. -/
theorem getElem?_present (h : Interrupted handle program state events rest present) :
    (state::events.map Event.after)[events.length]?=some present := by
  induction h with
  | start program state => rfl
  | call label tail ih => exact ih

end Interrupted

/-- What is left of a program when its next call has been answered. -/
inductive Left : Prog ι β α → Prog ι β α → Prop
  /-- The reply is arbitrary. -/
  | call (op : ι) (next : β → Prog ι β α) (reply : β) : Left (next reply) (.call op next)

/-- Every program comes to its end, whatever is replied. -/
theorem left_wellFounded : WellFounded (@Left ι β α) := by
  refine ⟨fun program => ?_⟩
  induction program with
  | done value => exact ⟨_,nofun⟩
  | call op next ih =>
    refine ⟨_,fun rest hleft => ?_⟩
    cases hleft with
    | call _ _ reply => exact ih reply

/-- Whatever is replied, every issued call is admitted and a final value has
the property. -/
def Yields (admitted : ι → Prop) (post : α → Prop) : Prog ι β α → Prop
  | .done value => post value
  | .call op next => admitted op ∧ ∀ reply,Yields admitted post (next reply)

section Yields

variable {γ : Type} {admitted : ι → Prop}

@[simp]
theorem yields_pure {post : α → Prop} (value : α) :
    Yields admitted post (pure value : Prog ι β α) ↔ post value := Iff.rfl

@[simp]
theorem yields_request {post : β → Prop} (op : ι) :
    Yields admitted post (Prog.request op) ↔ admitted op ∧ ∀ reply,post reply := Iff.rfl

/-- A sequence yields what its second part yields from every value of the
first. -/
@[simp]
theorem yields_bind {post : γ → Prop} (program : Prog ι β α) (rest : α → Prog ι β γ) :
    Yields admitted post (program >>= rest) ↔
      Yields admitted (fun value => Yields admitted post (rest value)) program := by
  induction program with
  | done value => exact Iff.rfl
  | call op next ih => exact and_congr_right fun _ => forall_congr' ih

/-- Rule of consequence. -/
theorem Yields.imp {program : Prog ι β α} {post weaker : α → Prop}
    (h : Yields admitted post program) (himp : ∀ value,post value → weaker value) :
    Yields admitted weaker program := by
  induction program with
  | done value => exact himp value h
  | call op next ih => exact ⟨h.1,fun reply => ih reply (h.2 reply)⟩

end Yields

end ContainerLb.InterruptedRuns

import Mathlib.Logic.Basic

/-!
# Programs of fallible external calls

A program is finished or waits for the reply of one external call. The state
acted on by the calls stays outside the program text. A handler answers every
call, consulting one label of the surrounding environment for each of them,
so a program has one execution for every list of labels. An execution keeps
each executed call with its label, its reply and the state it left. These
states are the points between two calls that an observer can see.

Executions are computed by a total function of the label list. The relation
that forgets the list is used for inversion, one lemma per program former.
-/

namespace ContainerLb.CallProgram

/-- A finished program, or one call together with what follows its reply. -/
inductive Prog (ι β α : Type) where
  /-- The program has ended with this value. -/
  | done (value : α)
  /-- Issue the call and continue with its reply. -/
  | call (op : ι) (next : β → Prog ι β α)

/-- One executed call and everything that an observer can record of it. -/
structure Event (ι φ β σ : Type) where
  /-- The issued call. -/
  op : ι
  /-- What the environment decided for this call. -/
  label : φ
  /-- What the handler answered. -/
  reply : β
  /-- The state between this call and the next one. -/
  after : σ

/-- A complete execution with every point that it passed through. -/
structure Outcome (ι φ β σ α : Type) where
  /-- Final value of the program. -/
  value : α
  /-- Final state. -/
  state : σ
  /-- All executed calls in order. -/
  events : List (Event ι φ β σ)

/-- Answer to a call under one environment label, with the resulting state. -/
abbrev Handler (ι φ σ β : Type) := ι → φ → σ → β×σ

section Programs

variable {ι φ β σ α γ : Type}

namespace Prog

/-- Continue a program at its final value. -/
def bind : Prog ι β α → (α → Prog ι β γ) → Prog ι β γ
  | .done value,rest => rest value
  | .call op next,rest => .call op fun reply => (next reply).bind rest

instance : Monad (Prog ι β) where
  pure := .done
  bind := bind

/-- Issue one call and return its reply. -/
def request (op : ι) : Prog ι β β := .call op .done

end Prog

/-- Put earlier events in front of an execution that started after them. -/
def Outcome.prepend (events : List (Event ι φ β σ)) (rest : Outcome ι φ β σ α) :
    Outcome ι φ β σ α := ⟨rest.value,rest.state,events++rest.events⟩

/-- The event of answering one call under a label in a state. -/
def answer (handle : Handler ι φ σ β) (op : ι) (label : φ) (state : σ) : Event ι φ β σ :=
  ⟨op,label,(handle op label state).1,(handle op label state).2⟩

@[simp]
theorem answer_op (handle : Handler ι φ σ β) (op : ι) (label : φ) (state : σ) :
    (answer handle op label state).op=op := rfl

/-- Run to completion, giving one label to each call. A call beyond the
supplied labels gets the default one. -/
def Prog.exec [Inhabited φ] (handle : Handler ι φ σ β) :
    Prog ι β α → List φ → σ → Outcome ι φ β σ α
  | .done value,_,state => ⟨value,state,[]⟩
  | .call op next,labels,state =>
    let event := answer handle op (labels.headD default) state
    ((next event.reply).exec handle labels.tail event.after).prepend [event]

/-- A sequence is executed as its first part and then, with the labels that
are left, as its second part. -/
theorem exec_bind [Inhabited φ] (handle : Handler ι φ σ β) (program : Prog ι β α)
    (rest : α → Prog ι β γ) (labels : List φ) (state : σ) :
    (program >>= rest).exec handle labels state=
      ((rest (program.exec handle labels state).value).exec handle
        (labels.drop (program.exec handle labels state).events.length)
        (program.exec handle labels state).state).prepend
          (program.exec handle labels state).events := by
  induction program generalizing labels state with
  | done value => rfl
  | call op next ih =>
    have hnext := ih (answer handle op (labels.headD default) state).reply labels.tail
      (answer handle op (labels.headD default) state).after
    change ((next _ >>= rest).exec handle labels.tail _).prepend _=_
    rw [hnext]
    simp only [Prog.exec,Outcome.prepend,List.cons_append,List.nil_append,List.length_cons,
      List.drop_tail]

/-- Every call of an execution got one of the supplied labels or the default
one. -/
theorem exec_labels [Inhabited φ] (handle : Handler ι φ σ β) (program : Prog ι β α)
    (labels : List φ) (state : σ) :
    ∀ event∈(program.exec handle labels state).events,event.label∈default::labels := by
  induction program generalizing labels state with
  | done value => exact List.forall_mem_nil _
  | call op next ih =>
    simp only [Prog.exec,Outcome.prepend,List.cons_append,List.nil_append,List.forall_mem_cons]
    cases labels with
    | nil => exact ⟨List.mem_cons_self,ih _ [] _⟩
    | cons label rest =>
      refine ⟨List.mem_cons_of_mem _ List.mem_cons_self,fun event hm => ?_⟩
      rcases List.mem_cons.mp (ih _ rest _ event hm) with hd|hr
      · exact hd ▸ List.mem_cons_self
      · exact List.mem_cons_of_mem _ (List.mem_cons_of_mem _ hr)

/-- The executions of a program from a state, over all environments. -/
inductive Runs (handle : Handler ι φ σ β) : Prog ι β α → σ → Outcome ι φ β σ α → Prop
  /-- A finished program has exactly one execution, with no event. -/
  | done (value : α) (state : σ) : Runs handle (.done value) state ⟨value,state,[]⟩
  /-- Any label may be given to the call; the rest runs from the answer. -/
  | call {op : ι} {next : β → Prog ι β α} {state : σ} (label : φ)
      {rest : Outcome ι φ β σ α}
      (tail : Runs handle (next (answer handle op label state).reply)
        (answer handle op label state).after rest) :
      Runs handle (.call op next) state (rest.prepend [answer handle op label state])

variable {handle : Handler ι φ σ β}

/-- Every computed execution is one of the related executions. -/
theorem exec_runs [Inhabited φ] (program : Prog ι β α) (labels : List φ) (state : σ) :
    Runs handle program state (program.exec handle labels state) := by
  induction program generalizing labels state with
  | done value => exact .done value state
  | call op next ih =>
    rw [Prog.exec]
    exact .call (labels.headD default) (ih _ _ _)

/-- A finished program runs in one way. -/
theorem runs_done {value : α} {state : σ} {outcome : Outcome ι φ β σ α} :
    Runs handle (.done value) state outcome ↔ outcome=⟨value,state,[]⟩ := by
  constructor
  · intro hr
    cases hr
    rfl
  · rintro rfl
    exact .done value state

/-- A call runs by answering it under some label and running the rest. -/
theorem runs_call {op : ι} {next : β → Prog ι β α} {state : σ}
    {outcome : Outcome ι φ β σ α} :
    Runs handle (.call op next) state outcome ↔
      ∃ label rest,Runs handle (next (answer handle op label state).reply)
        (answer handle op label state).after rest ∧
        outcome=rest.prepend [answer handle op label state] := by
  constructor
  · intro hr
    cases hr with
    | call label tail => exact ⟨label,_,tail,rfl⟩
  · rintro ⟨label,rest,htail,rfl⟩
    exact .call label htail

/-- A sequence runs as its first part followed by the second part, started
from the value and the state that the first part left. -/
theorem runs_bind {program : Prog ι β α} {rest : α → Prog ι β γ} {state : σ}
    {outcome : Outcome ι φ β σ γ} :
    Runs handle (program >>= rest) state outcome ↔
      ∃ first second,Runs handle program state first ∧
        Runs handle (rest first.value) first.state second ∧
        outcome=second.prepend first.events := by
  constructor
  · intro hr
    induction program generalizing state outcome with
    | done value => exact ⟨_,outcome,.done value state,hr,rfl⟩
    | call op next ih =>
      obtain ⟨label,tail,htail,rfl⟩ := runs_call.mp hr
      obtain ⟨first,second,hfirst,hsecond,rfl⟩ := ih _ htail
      exact ⟨_,second,.call label hfirst,hsecond,rfl⟩
  · rintro ⟨first,second,hfirst,hsecond,rfl⟩
    induction hfirst with
    | done value state => exact hsecond
    | call label tail ih => exact runs_call.mpr ⟨label,_,ih hsecond,rfl⟩

/-- One requested call runs as its answer under some label. -/
theorem runs_request {op : ι} {state : σ} {outcome : Outcome ι φ β σ β} :
    Runs handle (Prog.request op) state outcome ↔
      ∃ label,outcome=⟨(answer handle op label state).reply,
        (answer handle op label state).after,[answer handle op label state]⟩ := by
  rw [Prog.request,runs_call]
  constructor
  · rintro ⟨label,rest,hrest,rfl⟩
    rw [runs_done] at hrest
    exact ⟨label,by rw [hrest]; rfl⟩
  · rintro ⟨label,rfl⟩
    exact ⟨label,_,.done _ _,rfl⟩

/-- Memory of an observer who updates it at every executed call. -/
def remember {γ : Type} (watch : Event ι φ β σ → γ → γ) (events : List (Event ι φ β σ)) (memory : γ) :
    γ := events.foldl (fun memory event => watch event memory) memory

/-- A property of state and memory at every point of an execution. -/
def Throughout {γ : Type} (watch : Event ι φ β σ → γ → γ) (holds : σ → γ → Prop) :
    List (Event ι φ β σ) → γ → Prop
  | [],_ => True
  | event::rest,memory =>
    holds event.after (watch event memory) ∧ Throughout watch holds rest (watch event memory)

instance decidableThroughout {γ : Type} {watch : Event ι φ β σ → γ → γ} {holds : σ → γ → Prop}
    [∀ state memory,Decidable (holds state memory)] :
    (events : List (Event ι φ β σ)) → (memory : γ) → Decidable (Throughout watch holds events memory)
  | [],_ => isTrue trivial
  | event::rest,memory =>
    have : Decidable (Throughout watch holds rest (watch event memory)) :=
      decidableThroughout rest (watch event memory)
    inferInstanceAs (Decidable (_ ∧ _))

section Observers

variable {γ : Type} {watch : Event ι φ β σ → γ → γ} {holds : σ → γ → Prop}

/-- The memory after two parts of an execution. -/
theorem remember_append (first second : List (Event ι φ β σ)) (memory : γ) :
    remember watch (first++second) memory=
      remember watch second (remember watch first memory) :=
  List.foldl_append

/-- A property of two parts of an execution, the second observed after the
first. -/
theorem throughout_append (first second : List (Event ι φ β σ)) (memory : γ) :
    Throughout watch holds (first++second) memory ↔
      Throughout watch holds first memory ∧
        Throughout watch holds second (remember watch first memory) := by
  induction first generalizing memory with
  | nil => exact (iff_of_eq (true_and _)).symm
  | cons event rest ih =>
    simp only [List.cons_append,Throughout,ih,and_assoc]
    rfl

/-- A weaker property holds at the same points. -/
theorem Throughout.imp {weaker : σ → γ → Prop} (h : ∀ state memory,holds state memory →
    weaker state memory) {events : List (Event ι φ β σ)} {memory : γ}
    (hall : Throughout watch holds events memory) : Throughout watch weaker events memory := by
  induction events generalizing memory with
  | nil => trivial
  | cons event rest ih => exact ⟨h _ _ hall.1,ih hall.2⟩

/-- Without memory a property holds throughout when it holds after every
call. -/
theorem throughout_iff_forall {alone : σ → Prop} {events : List (Event ι φ β σ)} :
    Throughout (fun _ memory => memory) (fun state (_ : Unit) => alone state) events () ↔
      ∀ event∈events,alone event.after := by
  induction events with
  | nil => simp [Throughout]
  | cons event rest ih => simp [Throughout,ih]

/-- Invariant rule with an observer. If each executed call is admitted under
its label and admitted calls preserve the property, then it holds throughout
and at the end. -/
theorem Runs.throughout {program : Prog ι β α} {state : σ} {outcome : Outcome ι φ β σ α}
    {memory : γ} (admitted : ι → φ → Prop)
    (hstep : ∀ op label state memory,admitted op label → holds state memory →
      holds (answer handle op label state).after (watch (answer handle op label state) memory))
    (hr : Runs handle program state outcome)
    (hop : ∀ event∈outcome.events,admitted event.op event.label)
    (hs : holds state memory) :
    Throughout watch holds outcome.events memory ∧
      holds outcome.state (remember watch outcome.events memory) := by
  induction hr generalizing memory with
  | done value state => exact ⟨trivial,hs⟩
  | @call op next state label rest tail ih =>
    simp only [Outcome.prepend,List.cons_append,List.nil_append,List.mem_cons,
      forall_eq_or_imp] at hop ⊢
    have hafter := hstep op label state memory hop.1 hs
    exact ⟨⟨hafter,(ih hop.2 hafter).1⟩,(ih hop.2 hafter).2⟩

end Observers

/-- Every event is the answer to its call in some state. -/
theorem Runs.answered {program : Prog ι β α} {state : σ} {outcome : Outcome ι φ β σ α}
    (hr : Runs handle program state outcome) :
    ∀ event∈outcome.events,∃ before,event=answer handle event.op event.label before := by
  induction hr with
  | done value state => nofun
  | @call op next state label rest tail ih =>
    intro event hm
    rcases List.mem_cons.mp hm with rfl|hm
    · exact ⟨state,rfl⟩
    · exact ih event hm

/-- Successive events: each one is the answer in the state that the one
before it left. -/
def Chained (handle : Handler ι φ σ β) : σ → List (Event ι φ β σ) → Prop
  | _,[] => True
  | state,event::rest =>
    event=answer handle event.op event.label state ∧ Chained handle event.after rest

/-- The events of an execution are successive and lead to its final state. -/
theorem Runs.chained {program : Prog ι β α} {state : σ} {outcome : Outcome ι φ β σ α}
    (hr : Runs handle program state outcome) :
    Chained handle state outcome.events ∧
      outcome.events.foldl (fun _ event => event.after) state=outcome.state := by
  induction hr with
  | done value state => exact ⟨trivial,rfl⟩
  | call label tail ih => exact ⟨⟨rfl,ih.1⟩,ih.2⟩

/-- Invariant rule for the state alone, with calls admitted under labels. -/
theorem Runs.labelled_invariant {program : Prog ι β α} {state : σ}
    {outcome : Outcome ι φ β σ α} (admitted : ι → φ → Prop) (holds : σ → Prop)
    (hstep : ∀ op label state,admitted op label → holds state → holds (handle op label state).2)
    (hr : Runs handle program state outcome)
    (hop : ∀ event∈outcome.events,admitted event.op event.label) (hs : holds state) :
    (∀ event∈outcome.events,holds event.after) ∧ holds outcome.state := by
  have hall := @Runs.throughout _ _ _ _ _ handle _ (fun _ memory => memory)
    (fun state (_ : Unit) => holds state) _ _ _ () admitted
    (fun op label state _ => hstep op label state) hr hop hs
  exact ⟨throughout_iff_forall.mp hall.1,hall.2⟩

/-- Invariant rule for the state alone, with calls admitted under every label. -/
theorem Runs.invariant {program : Prog ι β α} {state : σ} {outcome : Outcome ι φ β σ α}
    (admitted : ι → Prop) (holds : σ → Prop)
    (hstep : ∀ op label state,admitted op → holds state → holds (handle op label state).2)
    (hr : Runs handle program state outcome) (hop : ∀ event∈outcome.events,admitted event.op)
    (hs : holds state) :
    (∀ event∈outcome.events,holds event.after) ∧ holds outcome.state :=
  hr.labelled_invariant (fun op _ => admitted op) holds hstep hop hs

end Programs

end ContainerLb.CallProgram

import ContainerLb.CallProgram
import Mathlib.Data.List.Nodup

/-!
# Scripts of calls

What a program does to the outside is the list of its calls and their
replies. A script says in advance which calls come in which order and what a
refusal means for the rest: the program stops, or it goes on without the
calls that belong to the refused one. A program that follows a script makes
no other calls and in no other order, whoever answers them.

Where no call is answered in two ways, the answers are a function of the
calls, and the value of the program is determined by it. Calls in the order
of a rank are not even made twice.
-/

namespace ContainerLb.Scripts

open CallProgram

variable {ι φ β σ α γ : Type}

/-- Calls and replies on one way of a program to its final value. -/
inductive Path : Prog ι β α → List (ι×β) → α → Prop
  /-- The program has ended. -/
  | done (value : α) : Path (.done value) [] value
  /-- A call is answered. -/
  | call {op : ι} {next : β → Prog ι β α} {trace : List (ι×β)} {value : α} (reply : β)
      (tail : Path (next reply) trace value) : Path (.call op next) ((op,reply)::trace) value

/-- Every execution goes one of these ways. -/
theorem runs_path {handle : Handler ι φ σ β} {program : Prog ι β α} {state : σ}
    {outcome : Outcome ι φ β σ α} (hr : Runs handle program state outcome) :
    Path program (outcome.events.map fun e => (e.op,e.reply)) outcome.value := by
  induction hr with
  | done value state => exact .done value
  | call label tail ih => exact .call _ ih

theorem path_pure {value result : α} {trace : List (ι×β)} :
    Path (pure value : Prog ι β α) trace result ↔ trace=[] ∧ result=value := by
  constructor
  · intro h
    cases h
    exact ⟨rfl,rfl⟩
  · rintro ⟨rfl,rfl⟩
    exact .done result

theorem path_request {op : ι} {reply : β} {trace : List (ι×β)} :
    Path (Prog.request op) trace reply ↔ trace=[(op,reply)] := by
  constructor
  · intro h
    cases h with
    | call _ tail =>
      cases tail
      rfl
  · rintro rfl
    exact .call reply (.done reply)

/-- A sequence goes through its first part and then through its second. -/
theorem path_bind {program : Prog ι β α} {rest : α → Prog ι β γ} {trace : List (ι×β)}
    {result : γ} : Path (program >>= rest) trace result ↔ ∃ first value second,
      Path program first value ∧ Path (rest value) second result ∧ trace=first++second := by
  constructor
  · intro h
    induction program generalizing trace with
    | done value => exact ⟨[],value,trace,.done value,h,rfl⟩
    | call op next ih =>
      cases h with
      | call reply tail =>
        obtain ⟨first,value,second,hfirst,hsecond,rfl⟩ := ih reply tail
        exact ⟨_,value,second,.call reply hfirst,hsecond,rfl⟩
  · rintro ⟨first,value,second,hfirst,hsecond,rfl⟩
    induction hfirst with
    | done value => exact hsecond
    | call reply tail ih => exact .call reply (ih hsecond)

/-- The value of a program whose calls are all answered by a function. -/
def evalWith (reply : ι → β) : Prog ι β α → α
  | .done value => value
  | .call op next => evalWith reply (next (reply op))

@[simp]
theorem evalWith_pure (reply : ι → β) (value : α) :
    evalWith reply (pure value : Prog ι β α)=value := rfl

@[simp]
theorem evalWith_request (reply : ι → β) (op : ι) :
    evalWith reply (Prog.request op)=reply op := rfl

@[simp]
theorem evalWith_bind (reply : ι → β) (program : Prog ι β α) (rest : α → Prog ι β γ) :
    evalWith reply (program >>= rest)=evalWith reply (rest (evalWith reply program)) := by
  induction program with
  | done value => rfl
  | call op next ih => exact ih (reply op)

/-- On a way on which a function answers, the program has this value. -/
theorem evalWith_of_path {reply : ι → β} {program : Prog ι β α} {trace : List (ι×β)} {value : α}
    (hpath : Path program trace value) (hreply : ∀ call∈trace,call.2=reply call.1) :
    value=evalWith reply program := by
  induction hpath with
  | done value => rfl
  | call first tail ih =>
    obtain ⟨hfirst,hrest⟩ := List.forall_mem_cons.mp hreply
    rw [evalWith,←hfirst]
    exact ih hrest

section Recorded

variable [DecidableEq ι] [Inhabited β] {trace : List (ι×β)}

/-- The first answer to a call on a way. -/
def recorded (trace : List (ι×β)) (op : ι) : β :=
  ((trace.find? fun call => call.1=op).map Prod.snd).getD default

/-- If no call is answered in two ways, this is the answer. -/
theorem recorded_of_mem
    (hsame : ∀ first∈trace,∀ second∈trace,first.1=second.1 → first.2=second.2)
    {call : ι×β} (hc : call∈trace) : call.2=recorded trace call.1 := by
  rw [recorded]
  cases hfound : trace.find? fun other => other.1=call.1 with
  | none => exact absurd (List.find?_eq_none.mp hfound call hc) (by simp)
  | some found =>
    have hop : found.1=call.1 := by simpa using List.find?_some hfound
    exact hsame call hc found (List.mem_of_find?_eq_some hfound) hop.symm

/-- In particular if no call is made twice. -/
theorem recorded_of_nodup (hnodup : (trace.map Prod.fst).Nodup) {call : ι×β} (hc : call∈trace) :
    call.2=recorded trace call.1 :=
  recorded_of_mem (fun _ hfirst _ hsecond hop =>
    congrArg Prod.snd (List.inj_on_of_nodup_map hnodup hfirst hsecond hop)) hc

end Recorded

/-- Calls come in the order of a rank, between two bounds. -/
def Ordered (rank : ι → ℕ) (last : ℕ) : ℕ → Prog ι β α → Prop
  | bound,.done _ => bound≤last
  | bound,.call op next => bound≤ rank op ∧ ∀ reply,Ordered rank last (rank op+1) (next reply)

section Ordered

variable {rank : ι → ℕ} {bound middle last : ℕ} {program : Prog ι β α}

theorem ordered_pure (value : α) (h : bound≤last) :
    Ordered rank last bound (pure value : Prog ι β α) := h

theorem ordered_request (op : ι) :
    Ordered rank (rank op+1) (rank op) (Prog.request op : Prog ι β β) :=
  ⟨Nat.le_refl _,fun _ => Nat.le_refl _⟩

/-- A lower bound serves as well. -/
theorem Ordered.of_le (h : Ordered rank last middle program) (hbound : bound≤ middle) :
    Ordered rank last bound program := by
  cases program with
  | done value => exact Nat.le_trans hbound h
  | call op next => exact ⟨Nat.le_trans hbound h.1,h.2⟩

theorem Ordered.bind {rest : α → Prog ι β γ} (h : Ordered rank middle bound program)
    (hrest : ∀ value,Ordered rank last middle (rest value)) :
    Ordered rank last bound (program >>= rest) := by
  induction program generalizing bound with
  | done value => exact (hrest value).of_le h
  | call op next ih => exact ⟨h.1,fun reply => ih reply (h.2 reply)⟩

/-- Then no call is made twice. -/
theorem Ordered.nodup {trace : List (ι×β)} {value : α} (h : Ordered rank last bound program)
    (hpath : Path program trace value) :
    (∀ call∈trace,bound≤ rank call.1) ∧ (trace.map Prod.fst).Nodup := by
  induction hpath generalizing bound with
  | done value => exact ⟨List.forall_mem_nil _,List.nodup_nil⟩
  | call reply tail ih =>
    obtain ⟨hlater,hnodup⟩ := ih (h.2 reply)
    refine ⟨List.forall_mem_cons.mpr ⟨h.1,fun call hc => ?_⟩,List.nodup_cons.mpr ⟨?_,hnodup⟩⟩
    · exact Nat.le_trans h.1 (Nat.le_of_succ_le (hlater call hc))
    · intro hm
      obtain ⟨call,hc,hsame⟩ := List.mem_map.mp hm
      have := hlater call hc
      rw [hsame] at this
      exact Nat.not_succ_le_self _ this

end Ordered

/-- An entry of a script. -/
inductive Block (ι : Type) where
  /-- A call whose refusal ends the program. -/
  | must (op : ι)
  /-- A call whose refusal only drops the calls that belong to it; their own
  refusals are ignored. -/
  | attempt (op : ι) (inner : List ι)
  /-- The program ends here. -/
  | abort
  deriving DecidableEq

/-- All calls of an entry. -/
def Block.calls : Block ι → List ι
  | .must op => [op]
  | .attempt op inner => op::inner
  | .abort => []

/-- All calls of a script. -/
def calls (script : List (Block ι)) : List ι := script.flatMap Block.calls

/-- Calls and replies that obey a script, and whether they reach its end. -/
inductive Follows (fails : β → Prop) : List (Block ι) → List (ι×β) → Bool → Prop
  /-- The script is over. -/
  | done : Follows fails [] [] true
  /-- The program ends. -/
  | abort (rest : List (Block ι)) : Follows fails (.abort::rest) [] false
  /-- A refusal ends the program. -/
  | stopped {op : ι} {reply : β} (rest : List (Block ι)) (hreply : fails reply) :
      Follows fails (.must op::rest) [(op,reply)] false
  /-- The call is not refused. -/
  | passed {op : ι} {reply : β} {rest : List (Block ι)} {trace : List (ι×β)} {completed : Bool}
      (hreply : ¬fails reply) (tail : Follows fails rest trace completed) :
      Follows fails (.must op::rest) ((op,reply)::trace) completed
  /-- A refusal drops what belongs to the call. -/
  | skipped {op : ι} {reply : β} (inner : List ι) {rest : List (Block ι)} {trace : List (ι×β)}
      {completed : Bool} (hreply : fails reply) (tail : Follows fails rest trace completed) :
      Follows fails (.attempt op inner::rest) ((op,reply)::trace) completed
  /-- What belongs to the call follows it. -/
  | attempted {op : ι} {reply : β} {inner : List ι} {within : List (ι×β)} {rest : List (Block ι)}
      {trace : List (ι×β)} {completed : Bool} (hreply : ¬fails reply)
      (hwithin : within.map Prod.fst=inner) (tail : Follows fails rest trace completed) :
      Follows fails (.attempt op inner::rest) ((op,reply)::(within++trace)) completed

section Follows

variable {fails : β → Prop} {script more : List (Block ι)} {trace later : List (ι×β)}
variable {completed : Bool}

/-- One script after the other. -/
theorem Follows.append (h : Follows fails script trace true)
    (hmore : Follows fails more later completed) :
    Follows fails (script++more) (trace++later) completed := by
  generalize hend : true=ended at h
  induction h with
  | done => exact hmore
  | abort => contradiction
  | stopped => contradiction
  | passed hreply _ ih => exact .passed hreply (ih hend)
  | skipped inner hreply _ ih => exact .skipped inner hreply (ih hend)
  | attempted hreply hwithin _ ih =>
    simp only [List.cons_append,List.append_assoc]
    exact .attempted hreply hwithin (ih hend)

/-- A program that has ended does not care for what was to follow. -/
theorem Follows.ended (h : Follows fails script trace false) (more : List (Block ι)) :
    Follows fails (script++more) trace false := by
  generalize hend : false=ended at h
  induction h with
  | done => contradiction
  | abort rest => exact .abort _
  | stopped rest hreply => exact .stopped _ hreply
  | passed hreply _ ih => exact .passed hreply (ih hend)
  | skipped inner hreply _ ih => exact .skipped inner hreply (ih hend)
  | attempted hreply hwithin _ ih => exact .attempted hreply hwithin (ih hend)

/-- Returning after a refusal. -/
theorem Follows.returned {value result : α} (h : Follows fails script trace false)
    (hrest : Path (pure value : Prog ι β α) later result) (more : List (Block ι)) :
    Follows fails (script++more) (trace++later) false ∧ result=value := by
  obtain ⟨rfl,hvalue⟩ := path_pure.mp hrest
  rw [List.append_nil]
  exact ⟨h.ended more,hvalue⟩

/-- No other calls are made and in no other order. -/
theorem Follows.sublist (h : Follows fails script trace completed) :
    (trace.map Prod.fst).Sublist (calls script) := by
  induction h with
  | done => exact .slnil
  | abort rest => exact List.nil_sublist _
  | stopped rest hreply => exact (List.nil_sublist _).cons_cons _
  | passed hreply _ ih => exact ih.cons_cons _
  | skipped inner hreply _ ih => exact (ih.trans (List.sublist_append_right _ _)).cons_cons _
  | attempted hreply hwithin _ ih =>
    subst hwithin
    rw [List.map_cons,List.map_append]
    exact ((List.Sublist.refl _).append ih).cons_cons _

/-- Without refusals all calls are made. -/
theorem Follows.all_calls (h : Follows fails script trace completed)
    (hreplies : ∀ call∈trace,¬fails call.2) (hscript : .abort∉script) :
    trace.map Prod.fst=calls script ∧ completed=true := by
  induction h with
  | done => exact ⟨rfl,rfl⟩
  | abort rest => exact absurd List.mem_cons_self hscript
  | stopped rest hreply => exact absurd hreply (hreplies _ List.mem_cons_self)
  | passed hreply _ ih =>
    obtain ⟨hcalls,hdone⟩ := ih (fun call hc => hreplies call (List.mem_cons_of_mem _ hc))
      fun hm => hscript (List.mem_cons_of_mem _ hm)
    exact ⟨congrArg _ hcalls,hdone⟩
  | skipped inner hreply => exact absurd hreply (hreplies _ List.mem_cons_self)
  | @attempted op reply inner within rest trace completed hreply hwithin _ ih =>
    obtain ⟨hcalls,hdone⟩ := ih
      (fun call hc => hreplies call (List.mem_cons_of_mem _ (List.mem_append_right _ hc)))
      fun hm => hscript (List.mem_cons_of_mem _ hm)
    refine ⟨?_,hdone⟩
    rw [List.map_cons,List.map_append,hwithin,hcalls]
    rfl

end Follows

end ContainerLb.Scripts

import ContainerLb.CallProgram
import Mathlib.Data.List.Basic

/-!
# Giving back what was opened

The state is a stack of open resources. A resource that is opened for a body
of calls and closed behind it, on every way out, leaves the stack as it was
if the body does. So whole programs restore the stack, and the nesting of
their bodies bounds how far it grows in between.
-/

namespace ContainerLb.Releasing

open CallProgram

variable {ι φ β δ α γ : Type} {handle : Handler ι φ (List δ) β} {depth : ℕ}

/-- Between the beginning and the end there are at most so many more open
resources, and none at the end. -/
def Restores (handle : Handler ι φ (List δ) β) (depth : ℕ) (program : Prog ι β α) : Prop :=
  ∀ opened o,Runs handle program opened o → o.state=opened ∧
    ∀ e∈o.events,∃ extra,extra.length≤depth ∧ e.after=extra++opened

theorem restores_pure (value : α) : Restores handle depth (pure value : Prog ι β α) := by
  intro opened o hr
  rw [runs_done.mp hr]
  exact ⟨rfl,List.forall_mem_nil _⟩

/-- A call that opens and closes nothing. -/
theorem restores_request {op : ι} (hop : ∀ label opened,(handle op label opened).2=opened) :
    Restores handle depth (Prog.request op) := by
  intro opened o hr
  obtain ⟨label,rfl⟩ := runs_request.mp hr
  exact ⟨hop label opened,List.forall_mem_singleton.mpr ⟨[],Nat.zero_le _,hop label opened⟩⟩

theorem Restores.bind {program : Prog ι β α} {rest : α → Prog ι β γ}
    (hprogram : Restores handle depth program)
    (hrest : ∀ value,Restores handle depth (rest value)) :
    Restores handle depth (program >>= rest) := by
  intro opened o hr
  obtain ⟨first,second,hfirst,hsecond,rfl⟩ := runs_bind.mp hr
  obtain ⟨hstate,hevents⟩ := hprogram opened first hfirst
  rw [hstate] at hsecond
  obtain ⟨hend,hlater⟩ := hrest _ opened second hsecond
  exact ⟨hend,List.forall_mem_append.mpr ⟨hevents,hlater⟩⟩

/-- Open a resource, and close it when the body returns. -/
def acquiring (opens closes : ι) (granted : β → Bool) (refused : α) (body : Prog ι β α) :
    Prog ι β α := do
  let reply ← Prog.request opens
  if granted reply then
    let value ← body
    let _ ← Prog.request closes
    return value
  else return refused

/-- Whether the resource is granted or not, the stack is as before. -/
theorem Restores.acquiring {opens closes : ι} {granted : β → Bool} {refused : α}
    {body : Prog ι β α} (resource : δ) (hbody : Restores handle depth body)
    (hopens : ∀ label opened,(handle opens label opened).2=
      if granted (handle opens label opened).1 then resource::opened else opened)
    (hcloses : ∀ label opened,(handle closes label (resource::opened)).2=opened) :
    Restores handle (depth+1) (acquiring opens closes granted refused body) := by
  intro opened o hr
  obtain ⟨asked,rest,hasked,hrest,rfl⟩ := runs_bind.mp hr
  obtain ⟨label,rfl⟩ := runs_request.mp hasked
  have hafter : (answer handle opens label opened).after=_ := hopens label opened
  by_cases hgranted : granted (handle opens label opened).1=true
  · rw [if_pos hgranted] at hafter
    rw [if_pos (show granted (answer handle opens label opened).reply=true from hgranted),
      hafter] at hrest
    obtain ⟨within,second,hwithin,hsecond,rfl⟩ := runs_bind.mp hrest
    obtain ⟨hstate,hevents⟩ := hbody _ within hwithin
    obtain ⟨closed,last,hclosed,hlast,rfl⟩ := runs_bind.mp hsecond
    obtain ⟨label',rfl⟩ := runs_request.mp hclosed
    rw [runs_done.mp hlast,hstate]
    have hback : (answer handle closes label' (resource::opened)).after=opened :=
      hcloses label' opened
    refine ⟨hback,List.forall_mem_append.mpr ⟨List.forall_mem_singleton.mpr ?_,
      List.forall_mem_append.mpr ⟨fun e he => ?_,?_⟩⟩⟩
    · exact ⟨[resource],Nat.le_add_left 1 depth,hafter⟩
    · obtain ⟨extra,hlength,hextra⟩ := hevents e he
      refine ⟨extra++[resource],?_,by rw [hextra,List.append_assoc]; rfl⟩
      rw [List.length_append]
      exact Nat.add_le_add_right hlength 1
    · exact List.forall_mem_singleton.mpr ⟨[],Nat.zero_le _,hback⟩
  · rw [if_neg hgranted] at hafter
    rw [if_neg (show ¬granted (answer handle opens label opened).reply=true from hgranted)] at hrest
    rw [runs_done.mp hrest]
    exact ⟨hafter,List.forall_mem_singleton.mpr ⟨[],Nat.zero_le _,hafter⟩⟩

end ContainerLb.Releasing

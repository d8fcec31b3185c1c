import ContainerLb.Scripts

/-!
# Reading a state that others change

A program that only reads a shared state takes one access at a time, and
others change the state in between. What they may do between two accesses is
a relation, the rely condition of the program. Under a rely condition a
program is specified along its text, and the specification holds for every
sequence of observed states that follows the condition. Where nothing changes
the program has the value of one reading of the state.
-/

namespace ContainerLb.Interference

open CallProgram Scripts

variable {τ α γ : Type}

/-- A program that reads a shared state. It has no value when an access is
not possible. -/
abbrev Reader (τ α : Type) := OptionT (Prog Unit τ) α

/-- One access to a part of the state. -/
def load (part : τ → Option α) : Reader τ α := OptionT.mk (.call () fun now => .done (part now))

/-- A value that does not depend on the state. -/
def given (value : Option α) : Reader τ α := OptionT.mk (.done value)

/-- The value when nobody else is there. -/
def alone (reader : Reader τ α) (now : τ) : Option α := evalWith (fun _ => now) reader.run

section Alone

variable (now : τ)

@[simp]
theorem alone_pure (value : α) : alone (pure value : Reader τ α) now=some value := rfl

@[simp]
theorem alone_load (part : τ → Option α) : alone (load part) now=part now := rfl

@[simp]
theorem alone_given (value : Option α) : alone (given value : Reader τ α) now=value := rfl

@[simp]
theorem alone_bind (reader : Reader τ α) (rest : α → Reader τ γ) :
    alone (reader >>= rest) now=(alone reader now).bind fun value => alone (rest value) now := by
  change evalWith _ (reader.run >>= _)=(evalWith _ reader.run).bind _
  rw [evalWith_bind]
  cases evalWith (fun _ => now) reader.run <;> rfl

/-- If all observed states are the same, nothing was disturbed. -/
theorem alone_of_path {reader : Reader τ α} {trace : List (Unit×τ)} {value : Option α}
    (hpath : Path reader.run trace value) (hsame : ∀ seen∈trace,seen.2=now) :
    value=alone reader now :=
  evalWith_of_path hpath hsame

end Alone

/-- Whatever others do under the rely condition, the program ends with a
value, and value and last observed state have the property. -/
def Ends (rely : τ → τ → Prop) (post : α → τ → Prop) : Prog Unit τ (Option α) → τ → Prop
  | .done value,now => ∃ result∈value,post result now
  | .call _ next,now => ∀ later,rely now later → Ends rely post (next later) later

/-- The same of a reading program. -/
def Ensures (rely : τ → τ → Prop) (post : α → τ → Prop) (reader : Reader τ α) (now : τ) : Prop :=
  Ends rely post reader.run now

section Ensures

variable {rely : τ → τ → Prop} {now : τ}

@[simp]
theorem ensures_pure {post : α → τ → Prop} (value : α) :
    Ensures rely post (pure value) now ↔ post value now := by
  change (∃ result∈some value,post result now) ↔ _
  simp

@[simp]
theorem ensures_given {post : α → τ → Prop} (value : Option α) :
    Ensures rely post (given value) now ↔ ∃ result∈value,post result now := Iff.rfl

@[simp]
theorem ensures_load {post : α → τ → Prop} (part : τ → Option α) :
    Ensures rely post (load part) now ↔
      ∀ later,rely now later → ∃ result∈part later,post result later := Iff.rfl

/-- A sequence ensures what its second part ensures from every value and
state of the first. -/
@[simp]
theorem ensures_bind {post : γ → τ → Prop} (reader : Reader τ α) (rest : α → Reader τ γ) :
    Ensures rely post (reader >>= rest) now ↔
      Ensures rely (fun value later => Ensures rely post (rest value) later) reader now := by
  change Ends rely post (Prog.bind reader.run _) now ↔ Ends rely _ reader.run now
  induction reader.run generalizing now with
  | done value =>
    cases value with
    | none =>
      change (∃ result∈none,_) ↔ ∃ result∈none,_
      simp
    | some value =>
      change _ ↔ ∃ result∈some value,_
      simp only [Option.mem_def,Option.some_inj,exists_eq_left']
      rfl
  | call op next ih => exact forall₂_congr fun later _ => ih later

/-- Rule of consequence. -/
theorem Ensures.imp {reader : Reader τ α} {post weaker : α → τ → Prop}
    (h : Ensures rely post reader now)
    (himp : ∀ value later,post value later → weaker value later) :
    Ensures rely weaker reader now := by
  unfold Ensures at h ⊢
  generalize reader.run=program at h ⊢
  induction program generalizing now with
  | done value =>
    obtain ⟨result,hresult,hpost⟩ := h
    exact ⟨result,hresult,himp result now hpost⟩
  | call op next ih => exact fun later hlater => ih later (h later hlater)

/-- What others keep holds at the end, and it may be used to show that they
follow the rely condition. -/
theorem Ensures.of_stable {reader : Reader τ α} {post : α → τ → Prop} {weaker : τ → τ → Prop}
    {kept : τ → Prop} (h : Ensures rely post reader now) (hnow : kept now)
    (hkept : ∀ earlier later,kept earlier → weaker earlier later →
      kept later ∧ rely earlier later) :
    Ensures weaker (fun value later => kept later ∧ post value later) reader now := by
  unfold Ensures at h ⊢
  generalize reader.run=program at h ⊢
  induction program generalizing now with
  | done value =>
    obtain ⟨result,hresult,hpost⟩ := h
    exact ⟨result,hresult,hnow,hpost⟩
  | call op next ih =>
    intro later hlater
    obtain ⟨hagain,hrely⟩ := hkept now later hnow hlater
    exact ih later hagain (h later hrely)

/-- The specification holds for every sequence of observed states that
follows the rely condition. -/
theorem Ensures.of_path {reader : Reader τ α} {post : α → τ → Prop} {trace : List (Unit×τ)}
    {value : Option α} (h : Ensures rely post reader now) (hpath : Path reader.run trace value)
    (hchain : List.IsChain rely (now::trace.map Prod.snd)) :
    ∃ result later,value=some result ∧ post result later := by
  unfold Ensures at h
  generalize reader.run=program at h hpath
  induction hpath generalizing now with
  | done value =>
    obtain ⟨result,hresult,hpost⟩ := h
    exact ⟨result,now,hresult,hpost⟩
  | call reply tail ih =>
    obtain ⟨hfirst,hrest⟩ := List.isChain_cons_cons.mp hchain
    exact ih hrest (h reply hfirst)

end Ensures

end ContainerLb.Interference

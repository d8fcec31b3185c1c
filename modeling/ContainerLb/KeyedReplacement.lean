import Mathlib.Data.Nat.Basic

/-!
# Replacing a keyed list position by position

A list of keys is replaced by another one, position after position. At each
position the key that stood there is removed from a map, unless it stays, and
the new key is stored with the value of the position. The map is keyed, the
walk is positional, so a removal may hit a key that an earlier position has
just stored. What the map holds in the end is decided by the last position
that concerns a key.
-/

namespace ContainerLb.KeyedReplacement

variable {κ ν : Type} [DecidableEq κ] (old new : ℕ → Option κ) (value : ℕ → ν)

/-- What one position decides for a key: stored, removed, or not concerned. -/
def touchAt (j : ℕ) (k : κ) : Option (Option ν) :=
  if new j=some k then some (some (value j))
  else if old j=some k then some none
  else none

/-- Decision of the last of the first `n` positions that concern a key. -/
def lastTouch : ℕ → κ → Option (Option ν)
  | 0,_ => none
  | n+1,k => (touchAt old new value n k).or (lastTouch n k)

/-- Contents of the map after the first `n` positions. -/
def replaced (n : ℕ) (base : κ → Option ν) (k : κ) : Option ν :=
  (lastTouch old new value n k).getD (base k)

variable {old new : ℕ → Option κ} {value : ℕ → ν}

/-- One more position decides for its own keys and keeps the others. -/
theorem replaced_succ (n : ℕ) (base : κ → Option ν) (k : κ) :
    replaced old new value (n+1) base k=
      (touchAt old new value n k).getD (replaced old new value n base k) := by
  rw [replaced,replaced,lastTouch]
  cases touchAt old new value n k <;> rfl

/-- A position that does not concern a key decides nothing for it. -/
theorem touchAt_eq_none {j : ℕ} {k : κ} :
    touchAt old new value j k=none ↔ new j≠some k ∧ old j≠some k := by
  unfold touchAt
  split
  · simp_all
  · split <;> simp_all

/-- Keys of neither list are not concerned. -/
theorem lastTouch_eq_none {n : ℕ} {k : κ} :
    lastTouch old new value n k=none ↔ ∀ j<n,new j≠some k ∧ old j≠some k := by
  induction n with
  | zero => simp [lastTouch]
  | succ n ih =>
    rw [lastTouch,Option.or_eq_none_iff,touchAt_eq_none,ih]
    constructor
    · rintro ⟨hn,hall⟩ j hj
      rcases Nat.lt_succ_iff_lt_or_eq.mp hj with h|rfl
      · exact hall j h
      · exact hn
    · intro hall
      exact ⟨hall n (Nat.lt_succ_self n),fun j hj => hall j (Nat.lt_succ_of_lt hj)⟩

/-- Two maps that agree on all keys of neither list become equal. -/
theorem replaced_congr {n : ℕ} {base base' : κ → Option ν}
    (h : ∀ k,(∀ j<n,new j≠some k ∧ old j≠some k) → base k=base' k) (k : κ) :
    replaced old new value n base k=replaced old new value n base' k := by
  unfold replaced
  cases ht : lastTouch old new value n k with
  | some decided => rfl
  | none => exact h k (lastTouch_eq_none.mp ht)

/-- A key that the new list does not have is removed when the old list has
it, and kept otherwise. -/
theorem replaced_of_not_new {n : ℕ} {base : κ → Option ν} {k : κ}
    (hnew : ∀ j<n,new j≠some k) :
    ((∃ j<n,old j=some k) → replaced old new value n base k=none) ∧
      ((∀ j<n,old j≠some k) → replaced old new value n base k=base k) := by
  constructor
  · rintro ⟨j,hj,hold⟩
    induction n with
    | zero => omega
    | succ n ih =>
      rw [replaced_succ,touchAt,if_neg (hnew n (Nat.lt_succ_self n))]
      by_cases hn : old n=some k
      · rw [if_pos hn]
        rfl
      · rw [if_neg hn]
        have hlt : j<n := by
          rcases Nat.lt_succ_iff_lt_or_eq.mp hj with h|rfl
          · exact h
          · exact absurd hold hn
        exact ih (fun i hi => hnew i (Nat.lt_succ_of_lt hi)) hlt
  · intro hold
    have hnone : lastTouch old new value n k=none :=
      lastTouch_eq_none.mpr fun j hj => ⟨hnew j hj,hold j hj⟩
    rw [replaced,hnone]
    rfl

/-- A key that the new list has at one position only is found there in the
end exactly when no later position of the old list has it. -/
theorem replaced_eq_value_iff {n i : ℕ} {base : κ → Option ν} {k : κ} (hi : i<n)
    (hnew : new i=some k) (honly : ∀ j<n,new j=some k → j=i) :
    replaced old new value n base k=some (value i) ↔ ∀ j,i<j → j<n → old j≠some k := by
  induction n with
  | zero => omega
  | succ n ih =>
    rw [replaced_succ,touchAt]
    rcases Nat.lt_succ_iff_lt_or_eq.mp hi with hlt|rfl
    · have hn : new n≠some k := fun h => by
        have := honly n (Nat.lt_succ_self n) h
        omega
      rw [if_neg hn]
      by_cases ho : old n=some k
      · rw [if_pos ho]
        constructor
        · intro h
          contradiction
        · intro h
          exact absurd ho (h n hlt (Nat.lt_succ_self n))
      · rw [if_neg ho]
        refine (ih hlt fun j hj => honly j (Nat.lt_succ_of_lt hj)).trans ?_
        constructor
        · intro h j hij hj
          rcases Nat.lt_succ_iff_lt_or_eq.mp hj with hjn|rfl
          · exact h j hij hjn
          · exact ho
        · intro h j hij hj
          exact h j hij (Nat.lt_succ_of_lt hj)
    · rw [if_pos hnew]
      constructor
      · intro _ j hij hj
        omega
      · intro _
        rfl

end ContainerLb.KeyedReplacement

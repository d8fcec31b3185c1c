import Mathlib.Data.Int.CardIntervalMod
import Mathlib.Data.Set.Card
import Mathlib.Data.Fintype.EquivFin

/-!
# Counting residues

How often each residue occurs among the first numbers. The counts differ by
at most one, the larger count belongs to the smallest residues, and together
they are all numbers. For a power of two this counts the values of a
fixed-width random number.
-/

namespace ContainerLb.ResidueCounts

/-- Numbers below a bound with a given residue. -/
def residueCount (bound modulus residue : ℕ) : ℕ :=
  bound/modulus+if residue<bound%modulus then 1 else 0

/-- The count is right. -/
theorem card_filter_mod {bound modulus residue : ℕ} (h : residue< modulus) :
    ((Finset.range bound).filter fun value => value%modulus=residue).card=
      residueCount bound modulus residue := by
  have hmod : ∀ value,value%modulus=residue ↔ value≡residue [MOD modulus] := by
    intro value
    rw [Nat.ModEq,Nat.mod_eq_of_lt h]
  have hcount := Nat.count_modEq_card bound (Nat.zero_lt_of_lt h) residue
  rw [Nat.count_eq_card_filter_range,Nat.mod_eq_of_lt h] at hcount
  simp only [hmod]
  exact hcount

/-- The larger count belongs to the residues below the remainder. -/
theorem residueCount_eq_succ {bound modulus residue : ℕ} :
    residueCount bound modulus residue=bound/modulus+1 ↔ residue<bound%modulus := by
  unfold residueCount
  split
  · rename_i h
    exact iff_of_true rfl h
  · rename_i h
    exact iff_of_false (by omega) h

/-- It occurs as often as the remainder says. -/
theorem card_larger {bound modulus : ℕ} (h : 0< modulus) :
    ((Finset.range modulus).filter fun residue =>
      residueCount bound modulus residue=bound/modulus+1).card=bound%modulus := by
  have hlarger : ((Finset.range modulus).filter fun residue =>
      residueCount bound modulus residue=bound/modulus+1)=Finset.range (bound%modulus) := by
    have hlt := Nat.mod_lt bound h
    ext residue
    rw [Finset.mem_filter,residueCount_eq_succ,Finset.mem_range,Finset.mem_range]
    omega
  rw [hlarger,Finset.card_range]

/-- All counts together. -/
theorem sum_residueCount {bound modulus : ℕ} (h : 0< modulus) :
    ∑ residue∈Finset.range modulus,residueCount bound modulus residue=bound := by
  have hones : ∑ residue∈Finset.range modulus,(if residue<bound%modulus then 1 else 0)=
      bound%modulus := by
    rw [←Finset.card_filter]
    simp only [←@residueCount_eq_succ bound modulus]
    exact card_larger h
  unfold residueCount
  rw [Finset.sum_add_distrib,hones,Finset.sum_const_nat fun _ _ => rfl,Finset.card_range]
  exact Nat.div_add_mod bound modulus

/-- Values of a 32-bit number with a given residue. -/
theorem ncard_residue {modulus residue : ℕ} (h : residue< modulus) :
    {value : UInt32 | value.toNat%modulus=residue}.ncard=residueCount (2^32) modulus residue := by
  have himage : UInt32.toNat '' {value : UInt32 | value.toNat%modulus=residue}=
      ((Finset.range (2^32)).filter fun value => value%modulus=residue : Finset ℕ) := by
    ext value
    simp only [Set.mem_image,Set.mem_ofPred_eq,Finset.coe_filter,Finset.mem_range]
    constructor
    · rintro ⟨word,hword,rfl⟩
      exact ⟨word.toNat_lt,hword⟩
    · rintro ⟨hlt,hvalue⟩
      have hword := UInt32.toNat_ofNat_of_lt' hlt
      exact ⟨UInt32.ofNat value,by rw [hword,hvalue],hword⟩
  have hinj : Function.Injective UInt32.toNat := fun _ _ => UInt32.toNat_inj.mp
  rw [←Set.ncard_image_of_injective _ hinj,himage,Set.ncard_coe_finset]
  exact card_filter_mod h

end ContainerLb.ResidueCounts

import Mathlib.Data.Nat.ModEq
import Mathlib.Tactic.Ring

/-!
# Sums with end-around carry

Addition on the numbers from zero to a top value where a carry out of the
top is added back at the bottom. With top 65535 this is the one's complement
sum of 16-bit words. The top value and zero are congruent, so a sum equals
the top value exactly when the plain sum is a positive multiple of it.

The same number can be had from the plain sum by moving the carries back to
the bottom until none is left.
-/

namespace ContainerLb.OnesComplement

/-- Add two numbers and return a carry out of the top to the bottom. -/
def wrapAdd (top first second : ℕ) : ℕ :=
  if first+second≤top then first+second else first+second-top

/-- Sum of all words with end-around carry. -/
def wrapSum (top : ℕ) (words : List ℕ) : ℕ := words.foldl (wrapAdd top) 0

/-- Move everything above a base back to the bottom, once. -/
def foldCarry (base value : ℕ) : ℕ := value/base+value%base

/-- One addition keeps the plain sum up to multiples of the top value, stays
in range, and is zero only for two zeros. -/
theorem wrapAdd_spec {top first second : ℕ} (hf : first≤top) (hs : second≤top) :
    wrapAdd top first second≡first+second [MOD top] ∧ wrapAdd top first second≤top ∧
      (wrapAdd top first second=0 ↔ first+second=0) := by
  unfold wrapAdd
  split
  · exact ⟨rfl,by assumption,Iff.rfl⟩
  · rename_i hlt
    refine ⟨?_,by omega,by omega⟩
    have he : first+second-top+top=first+second := by omega
    have hm : first+second-top+top≡first+second-top [MOD top] := Nat.add_modEq_right
    rw [he] at hm
    exact hm.symm

/-- The running sum has the same three properties from any start in range. -/
theorem foldl_wrapAdd_spec {top : ℕ} (words : List ℕ) (hw : ∀ word∈words,word≤top)
    {start : ℕ} (hs : start≤top) :
    words.foldl (wrapAdd top) start≡start+words.sum [MOD top] ∧
      words.foldl (wrapAdd top) start≤top ∧
      (words.foldl (wrapAdd top) start=0 ↔ start+words.sum=0) := by
  induction words generalizing start with
  | nil => exact ⟨rfl,hs,Iff.rfl⟩
  | cons word rest ih =>
    have hword := hw word List.mem_cons_self
    have hrest : ∀ other∈rest,other≤top := fun other h => hw other (List.mem_cons_of_mem _ h)
    obtain ⟨hmod,hle,hzero⟩ := wrapAdd_spec hs hword
    obtain ⟨hm,hl,hz⟩ := ih hrest hle
    rw [List.foldl_cons,List.sum_cons]
    refine ⟨?_,hl,by omega⟩
    rw [←Nat.add_assoc]
    exact hm.trans (hmod.add_right _)

/-- The sum is the top value exactly when the plain sum is a positive
multiple of it. -/
theorem wrapSum_eq_top {top : ℕ} (htop : 0<top) {words : List ℕ}
    (hw : ∀ word∈words,word≤top) :
    wrapSum top words=top ↔ top∣words.sum ∧ words.sum≠0 := by
  obtain ⟨hmod,hle,hzero⟩ := foldl_wrapAdd_spec words hw (Nat.zero_le top)
  rw [Nat.zero_add] at hmod hzero
  change wrapSum top words≡words.sum [MOD top] at hmod
  change wrapSum top words≤top at hle
  change wrapSum top words=0 ↔ words.sum=0 at hzero
  constructor
  · intro h
    refine ⟨?_,by omega⟩
    rw [h] at hmod
    exact (Nat.modEq_zero_iff_dvd).mp (hmod.symm.trans (Nat.modEq_zero_iff_dvd.mpr dvd_rfl))
  · rintro ⟨hdvd,hne⟩
    have hd : top∣wrapSum top words :=
      Nat.modEq_zero_iff_dvd.mp (hmod.trans (Nat.modEq_zero_iff_dvd.mpr hdvd))
    obtain ⟨k,hk⟩ := hd
    have hk1 : k=1 := by
      have hpos : wrapSum top words≠0 := fun h => hne (hzero.mp h)
      rcases Nat.lt_or_ge k 2 with hlt|hge
      · have : k≠0 := by
          rintro rfl
          exact hpos (by rw [hk,Nat.mul_zero])
        omega
      · have h2 := Nat.mul_le_mul_left top hge
        omega
    rw [hk,hk1,Nat.mul_one]

/-- Folding a carry keeps the number up to multiples of the base minus one. -/
theorem foldCarry_modEq (base value : ℕ) : foldCarry (base+1) value≡value [MOD base] := by
  have he : value=foldCarry (base+1) value+base*(value/(base+1)) := by
    calc value=(base+1)*(value/(base+1))+value%(base+1) := (Nat.div_add_mod value (base+1)).symm
      _=foldCarry (base+1) value+base*(value/(base+1)) := by
        unfold foldCarry
        ring
  have hm : foldCarry (base+1) value≡foldCarry (base+1) value+base*(value/(base+1)) [MOD base] :=
    Nat.modEq_add_modulus_mul_iff.mpr rfl
  rwa [←he] at hm

/-- A number without carries is kept. -/
theorem foldCarry_of_lt {base value : ℕ} (h : value<base) : foldCarry base value=value := by
  rw [foldCarry,Nat.div_eq_of_lt h,Nat.mod_eq_of_lt h,Nat.zero_add]

/-- A number with carries gets smaller. -/
theorem foldCarry_lt {base value : ℕ} (hbase : 1<base) (h : base≤value) :
    foldCarry base value<value := by
  have hq : 0<value/base := Nat.div_pos h (by omega)
  have hless : 1*(value/base)<base*(value/base) := Nat.mul_lt_mul_of_pos_right hbase hq
  have hsplit := Nat.div_add_mod value base
  rw [foldCarry]
  omega

/-- Move carries back to the bottom until none is left. -/
def foldAll (base value : ℕ) : ℕ :=
  if 1<base ∧ base≤value then foldAll base (foldCarry base value) else value
termination_by value
decreasing_by
  rename_i h
  exact foldCarry_lt h.1 h.2

/-- A number without carries is its own result. -/
theorem foldAll_of_lt {base value : ℕ} (h : value<base) : foldAll base value=value := by
  rw [foldAll,if_neg (by omega)]

/-- One step does not change the result. -/
theorem foldAll_foldCarry {base : ℕ} (hbase : 1<base) (value : ℕ) :
    foldAll base (foldCarry base value)=foldAll base value := by
  rcases Nat.lt_or_ge value base with h|h
  · rw [foldCarry_of_lt h]
  · nth_rewrite 2 [foldAll]
    rw [if_pos ⟨hbase,h⟩]

/-- Two steps are enough for two digits. -/
theorem foldAll_of_lt_sq {base value : ℕ} (hbase : 1<base) (h : value<base*base) :
    foldAll base value=foldCarry base (foldCarry base value) := by
  have hq : value/base<base := Nat.div_lt_of_lt_mul h
  have hr : value%base<base := Nat.mod_lt _ (by omega)
  have hdouble : foldCarry base value<base+(base-1) := by
    rw [foldCarry]
    omega
  have hlast : foldCarry base (foldCarry base value)<base := by
    rcases Nat.lt_or_ge (foldCarry base value) base with hlt|hge
    · rwa [foldCarry_of_lt hlt]
    · generalize foldCarry base value=folded at hdouble hge ⊢
      have hone : folded/base=1 := Nat.div_eq_of_lt_le (by omega) (by omega)
      have hsplit := Nat.div_add_mod folded base
      rw [hone,Nat.mul_one] at hsplit
      rw [foldCarry,hone]
      omega
  rw [←foldAll_foldCarry hbase,←foldAll_foldCarry hbase,foldAll_of_lt hlast]

/-- The result is in range, congruent to the number and zero only for zero. -/
theorem foldAll_spec {top : ℕ} (htop : 0<top) (value : ℕ) :
    foldAll (top+1) value≤top ∧ foldAll (top+1) value≡value [MOD top] ∧
      (foldAll (top+1) value=0 ↔ value=0) := by
  induction value using Nat.strong_induction_on with
  | h value ih =>
    rcases Nat.lt_or_ge value (top+1) with h|h
    · rw [foldAll_of_lt h]
      exact ⟨by omega,rfl,Iff.rfl⟩
    · obtain ⟨hle,hmod,hzero⟩ := ih _ (foldCarry_lt (by omega) h)
      rw [foldAll_foldCarry (by omega)] at hle hmod hzero
      refine ⟨hle,hmod.trans (foldCarry_modEq top value),?_⟩
      have hpos : 0<value/(top+1) := Nat.div_pos h (by omega)
      rw [hzero,foldCarry]
      omega

/-- These three properties determine a number. -/
theorem eq_of_residue {top first second : ℕ} (hf : first≤top) (hs : second≤top)
    (hmod : first≡second [MOD top]) (hzero : first=0 ↔ second=0) : first=second := by
  rcases Nat.lt_or_ge first top with hlt|hge
  · rcases Nat.lt_or_ge second top with hlt'|hge'
    · exact Nat.ModEq.eq_of_lt_of_lt hmod hlt hlt'
    · obtain rfl : second=top := by omega
      have hdvd : second∣first := (hmod.dvd_iff dvd_rfl).mpr dvd_rfl
      have hfirst : first=0 := Nat.eq_zero_of_dvd_of_lt hdvd hlt
      rw [hfirst,hzero.mp hfirst]
  · obtain rfl : first=top := by omega
    rcases Nat.lt_or_ge second first with hlt'|hge'
    · have hdvd : first∣second := (hmod.dvd_iff dvd_rfl).mp dvd_rfl
      have hsecond : second=0 := Nat.eq_zero_of_dvd_of_lt hdvd hlt'
      rw [hsecond,hzero.mpr hsecond]
    · omega

end ContainerLb.OnesComplement

import Mathlib.Tactic.Positivity
import Mathlib.Algebra.Order.Ring.Int

/-!
# Byte counts as text

The table of statistics shows byte counts with a binary unit. A loop divides
the count by 1024 until it is below, while a signed 64-bit divisor and the
index of the unit grow. The index stays inside the table of units for every
64-bit count, so showing a row never panics, and the divisor is the largest
power of 1024 that is not above the count.

The quotient is a floating-point number. The count is rounded to 53 bits, the
division by a power of two is exact, and the text rounds to one decimal, both
times to the nearest value and to an even last digit in between.
-/

namespace ContainerLb.ByteFormat

/-- Factor between two units. -/
def unit : UInt64 := 1024

/-- Loop of `formatBytes`: the divisor and the index of the unit. -/
def scale (n : UInt64) (div : Int64) (exp : ℕ) : Int64×ℕ :=
  if unit≤n then scale (n/unit) (div*1024) (exp+1) else (div,exp)
termination_by n.toNat
decreasing_by
  rename_i h
  have hn : 1024≤n.toNat := UInt64.le_iff_toNat_le.mp h
  rw [UInt64.toNat_div]
  exact Nat.div_lt_self (by omega) (by decide)

/-- Quotient rounded to the nearest number, in between to the even one. -/
def roundDiv (value divisor : ℕ) : ℕ :=
  if 2*(value%divisor)<divisor ∨ 2*(value%divisor)=divisor ∧ value/divisor%2=0 then
    value/divisor
  else value/divisor+1

/-- Conversion of a 64-bit number to `float64`: 53 significant bits. -/
def toFloat64 (b : UInt64) : ℕ :=
  let spacing := 2^(b.toNat.log2-52)
  roundDiv b.toNat spacing*spacing

/-- `%.1f` of a quotient of floating-point numbers, the divisor a power of two. -/
def oneDecimal (value divisor : ℕ) : String :=
  let tenths := roundDiv (10*value) divisor
  toString (tenths/10)++"."++toString (tenths%10)

/-- `formatBytes`, absent where an index outside the units would panic. -/
def formatBytes (b : UInt64) : Option String :=
  if b<unit then some (toString b.toNat++" B")
  else do
    let (div,exp) := scale (b/unit) 1024 0
    let letter ← "KMGTPE".toList[exp]?
    return oneDecimal (toFloat64 b) div.toInt.toNat++" "++String.ofList [letter]++"iB"

/-- State of the loop for a count: what is left of the count, the divisor and
the index belong together and fit their types. -/
structure Scaled (b n : UInt64) (div : Int64) (exp : ℕ) : Prop where
  /-- The count without the digits that are divided away. -/
  left : n.toNat=b.toNat/1024^(exp+1)
  /-- Something is left. -/
  pos : 1≤n.toNat
  /-- The divisor is a power, not reduced. -/
  power : div.toInt=1024^(exp+1)
  /-- There is a unit for the index. -/
  inside : exp<6

/-- One round of the loop keeps the state right. -/
theorem Scaled.step {b n : UInt64} {div : Int64} {exp : ℕ} (h : Scaled b n div exp)
    (hn : unit≤n) : Scaled b (n/unit) (div*1024) (exp+1) := by
  have hb := b.toNat_lt
  have hge : 1024≤n.toNat := UInt64.le_iff_toNat_le.mp hn
  have hdiv : (n/unit).toNat=n.toNat/1024 := UInt64.toNat_div n unit
  have hpow : (1024 : ℕ)^(exp+1+1)=1024^(exp+1)*1024 := pow_succ 1024 (exp+1)
  -- six factors of 1024 would leave less than one of a 64-bit number
  have hroom : exp+1<6 := by
    by_contra hlast
    have hfive : exp=5 := by
      have := h.inside
      omega
    have hleft := h.left
    rw [hfive] at hleft
    omega
  refine ⟨?_,?_,?_,hroom⟩
  · rw [hdiv,h.left,hpow,Nat.div_div_eq_div_mul]
  · rw [hdiv]
    omega
  · have hsmall : (1024 : ℤ)^(exp+1+1)≤1024^6 :=
      pow_le_pow_right₀ (by decide) (by omega)
    have hexact : div.toInt*(1024 : Int64).toInt=1024^(exp+1+1) := by
      rw [h.power,pow_succ 1024 (exp+1)]
      rfl
    have hpos : (0 : ℤ)<1024^(exp+1+1) := by positivity
    rw [Int64.toInt_mul,hexact]
    exact Int.bmod_eq_of_le (by omega) (by omega)

/-- The loop ends in a right state with less than one unit left. -/
theorem Scaled.scale {b n : UInt64} {div : Int64} {exp : ℕ} (h : Scaled b n div exp) :
    ∃ rest,Scaled b rest (scale n div exp).1 (scale n div exp).2 ∧ rest.toNat<1024 := by
  induction n,div,exp using scale.induct with
  | case1 n div exp hn ih =>
    rw [ByteFormat.scale,if_pos hn]
    exact ih (h.step hn)
  | case2 n div exp hn =>
    rw [ByteFormat.scale,if_neg hn]
    exact ⟨n,h,Nat.lt_of_not_le fun hle => hn (UInt64.le_iff_toNat_le.mpr hle)⟩

/-- The loop starts in a right state for every count of at least one unit. -/
theorem start_scaled {b : UInt64} (h : unit≤b) : Scaled b (b/unit) 1024 0 := by
  have hb : 1024≤b.toNat := UInt64.le_iff_toNat_le.mp h
  have hdiv : (b/unit).toNat=b.toNat/1024 := UInt64.toNat_div b unit
  refine ⟨?_,by omega,rfl,by decide⟩
  rw [hdiv,Nat.zero_add,pow_one]

/-- The loop ends with the largest power of 1024 that is not above the count. -/
theorem scale_result {b : UInt64} (hb : unit≤b) :
    ∃ (div : Int64) (exp : ℕ),scale (b/unit) 1024 0=(div,exp) ∧ exp<6 ∧
      div.toInt=1024^(exp+1) ∧ 1024^(exp+1)≤b.toNat ∧ b.toNat<1024*1024^(exp+1) := by
  obtain ⟨rest,hs,hrest⟩ := (start_scaled hb).scale
  generalize scale (b/unit) 1024 0=result at hs ⊢
  obtain ⟨div,exp⟩ := result
  obtain ⟨hleft,hpos,hpower,hinside⟩ := hs
  dsimp only at hleft hpower hinside
  have hpow : 0<1024^(exp+1) := by positivity
  rw [hleft] at hpos hrest
  refine ⟨div,exp,rfl,hinside,hpower,?_,(Nat.div_lt_iff_lt_mul hpow).mp hrest⟩
  rw [Nat.le_div_iff_mul_le hpow] at hpos
  omega

/-- Text of a count with a unit. -/
theorem formatBytes_of_scale {b : UInt64} (hb : unit≤b) {div : Int64} {exp : ℕ} {letter : Char}
    (hscale : scale (b/unit) 1024 0=(div,exp)) (hletter : "KMGTPE".toList[exp]?=some letter) :
    formatBytes b=some (oneDecimal (toFloat64 b) div.toInt.toNat++" "++
      String.ofList [letter]++"iB") := by
  rw [formatBytes,if_neg (UInt64.not_lt.mpr hb)]
  simp only [hscale,hletter]
  rfl

/-- Units of byte counts. Every 64-bit count has a text. From 1024 on, the
loop ends with an index below six. The divisor is the power of 1024 for the
index, which fits a signed 64-bit number, and it is the largest one that is
not above the count. -/
theorem formatBytes_unit (b : UInt64) :
    formatBytes b≠none ∧
      (unit≤b → ∃ (div : Int64) (exp : ℕ) (letter : Char),scale (b/unit) 1024 0=(div,exp) ∧
        exp<6 ∧ "KMGTPE".toList[exp]?=some letter ∧
        formatBytes b=some (oneDecimal (toFloat64 b) div.toInt.toNat++" "++
          String.ofList [letter]++"iB") ∧
        div.toInt=1024^(exp+1) ∧ (1024 : ℤ)^(exp+1)<2^63 ∧ div.toInt≤b.toNat ∧
        (b.toNat : ℤ)<1024*div.toInt) := by
  rcases UInt64.lt_or_le b unit with hb|hb
  · refine ⟨?_,fun hge => absurd hb (UInt64.not_lt.mpr hge)⟩
    rw [formatBytes,if_pos hb]
    exact Option.some_ne_none _
  · obtain ⟨div,exp,hscale,hexp,hpower,hlow,hhigh⟩ := scale_result hb
    have hunits : exp<"KMGTPE".toList.length := hexp
    have hletter := List.getElem?_eq_getElem hunits
    have htext := formatBytes_of_scale hb hscale hletter
    have hfits : (1024 : ℤ)^(exp+1)≤1024^6 := pow_le_pow_right₀ (by decide) (by omega)
    refine ⟨by rw [htext]; exact Option.some_ne_none _,fun _ => ?_⟩
    refine ⟨div,exp,_,hscale,hexp,hletter,htext,hpower,hfits.trans_lt (by decide),?_,?_⟩
    · rw [hpower]
      exact_mod_cast hlow
    · rw [hpower]
      exact_mod_cast hhigh

end ContainerLb.ByteFormat

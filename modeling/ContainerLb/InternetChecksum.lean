import ContainerLb.HostBytes
import ContainerLb.OnesComplement

/-!
# The Internet checksum in either byte order

A header is valid when its 16-bit words, read as they are sent, add up to
all ones with end-around carry. A host may add the words in its own byte
order, fold the carries twice and store the complement: reading the words in
the other order multiplies their sum by 256 modulo 65535, so the stored
bytes are right on the wire too.
-/

namespace ContainerLb.InternetChecksum

open HostBytes OnesComplement

/-- Consecutive 16-bit words of a byte sequence of even length. -/
def words (order : ByteOrder) : List UInt8 → List ℕ
  | first::second::rest => (order.load16 first second).toNat::words order rest
  | _ => []

/-- The words as sent add up to all ones. -/
def ChecksumValid (bytes : List UInt8) : Prop := wrapSum 65535 (words .big bytes)=65535

instance (bytes : List UInt8) : Decidable (ChecksumValid bytes) :=
  inferInstanceAs (Decidable (_=_))

/-- Fold the carries of a sum twice and complement the low 16 bits. -/
def complementFold (csum : UInt32) : UInt16 :=
  let csum := (csum>>>16)+(csum&&&0xffff)
  let csum := csum+(csum>>>16)
  (~~~csum).toUInt16

/-- Loaded words before their reduction to 16 bits. -/
theorem load16_toNat (order : ByteOrder) (first second : UInt8) :
    (order.load16 first second).toNat=
      match order with
      | .little => first.toNat+2^8*second.toNat
      | .big => second.toNat+2^8*first.toNat := by
  have hf := first.toNat_lt
  have hs := second.toNat_lt
  cases order <;> exact UInt16.toNat_ofNat_of_lt' (by simp only [UInt16.size]; omega)

/-- Every word is a 16-bit number. -/
theorem words_le (order : ByteOrder) (bytes : List UInt8) :
    ∀ word∈words order bytes,word≤65535 := by
  induction bytes using words.induct with
  | case1 first second rest ih =>
    intro word hw
    rcases List.mem_cons.mp hw with rfl|hw
    · exact Nat.le_of_lt_succ (UInt16.toNat_lt _)
    · exact ih word hw
  | case2 bytes hshort => simp [words]

/-- Words of a concatenation behind an even number of bytes. -/
theorem words_append (order : ByteOrder) {count : ℕ} {bytes : List UInt8} (rest : List UInt8)
    (h : bytes.length=2*count) : words order (bytes++rest)=words order bytes++words order rest := by
  induction count generalizing bytes with
  | zero => rw [List.length_eq_zero_iff.mp h]; rfl
  | succ count ih =>
    match bytes,h with
    | first::second::tail,h =>
      have htail : tail.length=2*count := by
        simp only [List.length_cons] at h
        omega
      simp only [List.cons_append,words,ih htail]

/-- A stored number is one word. -/
theorem words_store16 (order : ByteOrder) (value : UInt16) :
    words order (order.store16 value)=[value.toNat] := by
  have hv := value.toNat_lt
  cases order <;>
    simp only [ByteOrder.store16,words,load16_toNat,byteOf,UInt8.toNat_ofNat',
      List.cons.injEq,and_true] <;>
    omega

/-- Factor between the words of a host and the words as sent, modulo 65535. -/
def swapFactor : ByteOrder → ℕ
  | .little => 256
  | .big => 1

/-- The sum as sent is a fixed multiple of the sum in host order, and both
vanish together. -/
theorem sum_words_big (order : ByteOrder) (bytes : List UInt8) :
    (words .big bytes).sum≡swapFactor order*(words order bytes).sum [MOD 65535] ∧
      ((words .big bytes).sum=0 ↔ (words order bytes).sum=0) := by
  induction bytes using words.induct with
  | case1 first second rest ih =>
    have hword : (ByteOrder.big.load16 first second).toNat≡
          swapFactor order*(order.load16 first second).toNat [MOD 65535] ∧
        ((ByteOrder.big.load16 first second).toNat=0 ↔
          (order.load16 first second).toNat=0) := by
      cases order with
      | little =>
        rw [load16_toNat,load16_toNat]
        simp only [swapFactor,Nat.ModEq]
        omega
      | big => exact ⟨by rw [swapFactor,Nat.one_mul],Iff.rfl⟩
    simp only [words,List.sum_cons]
    refine ⟨?_,by omega⟩
    rw [Nat.mul_add]
    exact hword.1.add ih.1
  | case2 bytes hshort => simp [words,Nat.ModEq]

/-- Validity can be decided from the words in host order. -/
theorem checksumValid_iff (order : ByteOrder) (bytes : List UInt8) :
    ChecksumValid bytes ↔ 65535∣(words order bytes).sum ∧ (words order bytes).sum≠0 := by
  obtain ⟨hmod,hzero⟩ := sum_words_big order bytes
  have hcoprime : Nat.Coprime 65535 (swapFactor order) := by cases order <;> decide
  rw [ChecksumValid,wrapSum_eq_top (by decide) (words_le .big bytes),hmod.dvd_iff dvd_rfl,
    hcoprime.dvd_mul_left,Ne,Ne,hzero]

/-- The words of a valid header add up to all ones in either order. -/
theorem ChecksumValid.wrapSum_eq {bytes : List UInt8} (h : ChecksumValid bytes)
    (order : ByteOrder) : wrapSum 65535 (words order bytes)=65535 :=
  (wrapSum_eq_top (by decide) (words_le order bytes)).mpr ((checksumValid_iff order bytes).mp h)

/-- The upper half of a 32-bit number. -/
theorem shiftRight16_toNat (csum : UInt32) : (csum>>>16).toNat=csum.toNat/65536 := by
  rw [UInt32.toNat_shiftRight,Nat.shiftRight_eq_div_pow]
  rfl

/-- The first fold adds the two halves without overflow. -/
theorem fold_toNat (csum : UInt32) :
    ((csum>>>16)+(csum&&&0xffff)).toNat=foldCarry 65536 csum.toNat := by
  have hn := csum.toNat_lt
  have hlow : (csum&&&0xffff).toNat=csum.toNat%65536 :=
    (UInt32.toNat_and csum 0xffff).trans (Nat.and_two_pow_sub_one_eq_mod csum.toNat 16)
  rw [UInt32.toNat_add,shiftRight16_toNat,hlow,foldCarry]
  omega

/-- After the first fold at most one carry is left. -/
theorem foldCarry_toNat_le (csum : UInt32) : foldCarry 65536 csum.toNat≤131070 := by
  have hn := csum.toNat_lt
  rw [foldCarry]
  omega

/-- The second fold adds the carry without overflow. -/
theorem fold_again_toNat {csum folded : UInt32} (h : folded.toNat=foldCarry 65536 csum.toNat) :
    (folded+(folded>>>16)).toNat=folded.toNat+folded.toNat/65536 := by
  have hle := foldCarry_toNat_le csum
  rw [UInt32.toNat_add,shiftRight16_toNat]
  omega

/-- The complement after the second fold. -/
theorem complementFold_toNat (csum : UInt32) :
    (complementFold csum).toNat=
      65535-(foldCarry 65536 csum.toNat+foldCarry 65536 csum.toNat/65536)%65536 := by
  have hle := foldCarry_toNat_le csum
  have hfirst := fold_toNat csum
  have hsecond := fold_again_toNat hfirst
  unfold complementFold
  dsimp only
  rw [UInt32.toNat_toUInt16,UInt32.toNat_not,hsecond,hfirst,UInt32.size]
  omega

/-- The stored complement completes every sum to a positive multiple of
65535. -/
theorem complementFold_spec (csum : UInt32) :
    65535∣csum.toNat+(complementFold csum).toNat ∧ csum.toNat+(complementFold csum).toNat≠0 := by
  have hle := foldCarry_toNat_le csum
  have hmod : foldCarry 65536 csum.toNat≡csum.toNat [MOD 65535] :=
    foldCarry_modEq 65535 csum.toNat
  have hvalue := complementFold_toNat csum
  have hsum : foldCarry 65536 csum.toNat+(complementFold csum).toNat=65535 ∨
      foldCarry 65536 csum.toNat+(complementFold csum).toNat=131070 := by
    rcases Nat.lt_or_ge (foldCarry 65536 csum.toNat) 65536 with h|h <;> omega
  constructor
  · rw [←(hmod.add_right (complementFold csum).toNat).dvd_iff dvd_rfl]
    rcases hsum with h|h <;> rw [h]
    decide
  · intro hzero
    have hcsum : csum.toNat=0 := by omega
    rw [hcsum,foldCarry] at hvalue
    omega

/-- Checksum of a header whose own field is zero: the complement of the sum
of its words as sent, with all carries folded. -/
def checksum (bytes : List UInt8) : UInt16 :=
  UInt16.ofNat (65535-foldAll 65536 (words .big bytes).sum)

/-- Two folds leave no carry of a 32-bit sum. -/
theorem foldAll_toNat (csum : UInt32) :
    foldAll 65536 csum.toNat=foldCarry 65536 (foldCarry 65536 csum.toNat) :=
  foldAll_of_lt_sq (by decide) csum.toNat_lt

/-- The stored complement is that of the sum with all carries folded. -/
theorem complementFold_eq (csum : UInt32) :
    complementFold csum=UInt16.ofNat (65535-foldAll 65536 csum.toNat) := by
  have hle := foldCarry_toNat_le csum
  apply UInt16.toNat_inj.mp
  rw [complementFold_toNat,foldAll_toNat,UInt16.toNat_ofNat_of_lt' (by
    simp only [UInt16.size]
    omega)]
  generalize foldCarry 65536 csum.toNat=folded at hle ⊢
  rw [foldCarry]
  omega

/-- A folded sum is a 16-bit number, congruent to the sum and zero only for
zero. -/
theorem foldAll_word (value : ℕ) :
    foldAll 65536 value≤65535 ∧ foldAll 65536 value≡value [MOD 65535] ∧
      (foldAll 65536 value=0 ↔ value=0) :=
  foldAll_spec (by decide) value

/-- Folding the sum as sent swaps the bytes of the folded sum of a
little-endian host. -/
theorem foldAll_words_swap (bytes : List UInt8) :
    foldAll 65536 (words .big bytes).sum=foldAll 65536 (words .little bytes).sum/256+
      256*(foldAll 65536 (words .little bytes).sum%256) := by
  obtain ⟨hmod,hzero⟩ := sum_words_big .little bytes
  obtain ⟨hle,hbig,hbig0⟩ := foldAll_word (words .big bytes).sum
  obtain ⟨hle',hlittle,hlittle0⟩ := foldAll_word (words .little bytes).sum
  have hshift := (hbig.trans hmod).trans (hlittle.symm.mul_left (swapFactor .little))
  generalize foldAll 65536 (words .little bytes).sum=folded at hle' hlittle0 hshift ⊢
  have hswap : swapFactor .little*folded≡folded/256+256*(folded%256) [MOD 65535] := by
    rw [swapFactor,Nat.ModEq]
    omega
  exact eq_of_residue hle (by omega) (hshift.trans hswap) (by omega)

/-- The complement of the sum in host order, stored in host order, is the
checksum as sent. -/
theorem store16_checksum (order : ByteOrder) (bytes : List UInt8) :
    order.store16 (UInt16.ofNat (65535-foldAll 65536 (words order bytes).sum))=
      ByteOrder.big.store16 (checksum bytes) := by
  cases order with
  | big => rfl
  | little =>
    have hle := (foldAll_word (words .little bytes).sum).1
    rw [checksum,foldAll_words_swap]
    generalize foldAll 65536 (words .little bytes).sum=folded at hle ⊢
    -- both numbers are loads of the same two bytes
    have hlittle : UInt16.ofNat (65535-folded)=
        ByteOrder.little.load16 (UInt8.ofNat (255-folded%256)) (UInt8.ofNat (255-folded/256)) := by
      simp only [ByteOrder.load16,UInt8.toNat_ofNat']
      congr 1
      omega
    have hbig : UInt16.ofNat (65535-(folded/256+256*(folded%256)))=
        ByteOrder.big.load16 (UInt8.ofNat (255-folded%256)) (UInt8.ofNat (255-folded/256)) := by
      simp only [ByteOrder.load16,UInt8.toNat_ofNat']
      congr 1
      omega
    rw [hlittle,hbig,ByteOrder.store16_load16,ByteOrder.store16_load16]

end ContainerLb.InternetChecksum

import ContainerLb.PacketEffects

/-!
# The header checksum

`update_ip_csum` adds the ten words of the fixed header in host order in a
32-bit accumulator, folds the carries twice, the second time without a mask,
and stores the low half of the complement. This is the Internet checksum of
the header: nothing overflows, no carry is left after the second fold, and
the bytes that are stored depend neither on the host nor on what the field
held before.
-/

namespace ContainerLb.HeaderChecksum

open HostBytes OnesComplement InternetChecksum PacketPath PacketEffects

variable {order : ByteOrder} {frame : List UInt8} {ip : ℕ}

/-- The fixed header at an offset with a zero checksum field. -/
def zeroedHeader (frame : List UInt8) (ip : ℕ) : List UInt8 :=
  slice frame ip 10++[0,0]++slice frame (ip+12) 8

/-- Clearing the field gives this header. -/
theorem slice_zeroed {first second : UInt8} {zeroed : List UInt8}
    (h : write frame (ip+10) [first,second]=some zeroed) :
    slice zeroed ip 20=slice frame ip 10++[first,second]++slice frame (ip+12) 8 := by
  have hbefore := @slice_write_of_disjoint _ _ _ _ ip 10 h (by omega)
  have hbehind := @slice_write_of_disjoint _ _ _ _ (ip+12) 8 h (Or.inr (Nat.le_refl _))
  rw [slice_add zeroed ip 12 8,slice_add zeroed ip 10 2,hbefore,hbehind]
  congr 2
  exact slice_write h

/-- `update_ip_csum` stores the checksum as it is sent. -/
theorem updateIpCsum_eq (order : ByteOrder) (hlen : ip+20≤frame.length) :
    updateIpCsum order frame ip=
      write frame (ip+10) (ByteOrder.big.store16 (checksum (zeroedHeader frame ip))) := by
  have hzero : order.store16 0=[0,0] := by cases order <;> rfl
  obtain ⟨zeroed,hz,hzl⟩ := @write_of_le frame [0,0] (ip+10) (by change ip+10+2≤_; omega)
  obtain ⟨total,hsum,htotal⟩ := @sumWords_value zeroed order 10 ip 0 (by omega) (by decide)
  rw [UInt32.toNat_zero,Nat.zero_add,slice_zeroed hz] at htotal
  simp only [updateIpCsum,hzero,hz,hsum,Option.bind_eq_bind,Option.bind_some]
  rw [complementFold_eq,htotal,store16_checksum,write_write hz (ByteOrder.length_store16 _ _).symm]
  rfl

/-- The accumulator holds the exact sums and two folds leave no carry. -/
structure ExactSum (order : ByteOrder) (header : List UInt8) (ip : ℕ) (csum : UInt32) : Prop where
  /-- After every round of the loop it holds the sum of the words so far. -/
  rounds : ∀ count≤10,∃ sum,sumWords order header ip count 0=some sum ∧
    sum.toNat=(words order (slice header ip (2*count))).sum
  /-- The loop ends with this sum. -/
  total : sumWords order header ip 10 0=some csum
  /-- The first fold does not overflow. -/
  first : ((csum>>>16)+(csum&&&0xffff)).toNat=foldCarry 65536 csum.toNat
  /-- The second fold does not overflow. -/
  second : ∀ sum,sum=(csum>>>16)+(csum&&&0xffff) →
    (sum+(sum>>>16)).toNat=sum.toNat+sum.toNat/65536
  /-- Further folds would change nothing. -/
  folded : foldAll 65536 csum.toNat=foldCarry 65536 (foldCarry 65536 csum.toNat)

/-- The loop over any header has an exact sum. -/
theorem exactSum (order : ByteOrder) {header : List UInt8} (hlen : ip+20≤header.length) :
    ∃ csum,ExactSum order header ip csum := by
  have hrounds : ∀ count≤10,∃ sum,sumWords order header ip count 0=some sum ∧
      sum.toNat=(words order (slice header ip (2*count))).sum := by
    intro count hcount
    obtain ⟨sum,hsum,hvalue⟩ := @sumWords_value header order count ip 0 (by omega)
      (by rw [UInt32.toNat_zero]; omega)
    exact ⟨sum,hsum,by rw [hvalue,UInt32.toNat_zero,Nat.zero_add]⟩
  obtain ⟨csum,htotal,_⟩ := hrounds 10 (Nat.le_refl _)
  have hfirst := fold_toNat csum
  refine ⟨csum,hrounds,htotal,hfirst,fun sum hsum => ?_,foldAll_toNat csum⟩
  exact fold_again_toNat (hsum ▸ hfirst)

/-- The Internet checksum. For every header, in either byte order, the
accumulator is exact and `update_ip_csum` stores the complement of the fully
folded sum of the header with a zero field. The words then add up to all ones
in either order. The stored bytes do not depend on what the field held nor on
the order in which the words are loaded. -/
theorem updateIpCsum_rfc1071 (order : ByteOrder) (frame : List UInt8) (ip : ℕ)
    (hlen : ip+20≤frame.length) :
    ∃ zeroed csum written,write frame (ip+10) [0,0]=some zeroed ∧ ExactSum order zeroed ip csum ∧
      updateIpCsum order frame ip=some written ∧
      slice written (ip+10) 2=order.store16 (UInt16.ofNat (65535-foldAll 65536 csum.toNat)) ∧
      csum.toNat=(words order (slice zeroed ip 20)).sum ∧
      (∀ i,i< ip+10 ∨ ip+12≤ i → written[i]?=frame[i]?) ∧
      (∀ reading,wrapSum 65535 (words reading (slice written ip 20))=65535) ∧
      (∀ first second other,write frame (ip+10) [first,second]=some other →
        updateIpCsum order other ip=some written) ∧
      ∀ host,updateIpCsum host frame ip=some written := by
  obtain ⟨zeroed,hz,hzl⟩ := @write_of_le frame [0,0] (ip+10) (by change ip+10+2≤_; omega)
  obtain ⟨csum,hexact⟩ := @exactSum ip order zeroed (by omega)
  obtain ⟨written,hrun,_,hkept,hvalid⟩ := updateIpCsum_spec order hlen
  have hvalue : csum.toNat=(words order (slice zeroed ip 20)).sum := by
    obtain ⟨sum,hsum,hvalue⟩ := hexact.rounds 10 (Nat.le_refl _)
    obtain rfl : csum=sum := Option.some.inj (hexact.total.symm.trans hsum)
    exact hvalue
  have hstored := hrun
  rw [updateIpCsum_eq order hlen] at hstored
  refine ⟨zeroed,csum,written,hz,hexact,hrun,?_,hvalue,hkept,hvalid.wrapSum_eq,?_,?_⟩
  · rw [hvalue,slice_zeroed hz,store16_checksum]
    exact slice_write hstored
  · intro first second other hother
    obtain ⟨again,hagain,hlength⟩ := @write_of_le frame [first,second] (ip+10)
      (by change ip+10+2≤_; omega)
    obtain rfl : other=again := Option.some.inj (hother.symm.trans hagain)
    -- the old field is overwritten before it is read
    have hheader : zeroedHeader other ip=zeroedHeader frame ip := by
      rw [zeroedHeader,@slice_write_of_disjoint _ _ _ _ ip 10 hother (by omega),
        @slice_write_of_disjoint _ _ _ _ (ip+12) 8 hother (Or.inr (Nat.le_refl _)),zeroedHeader]
    rw [updateIpCsum_eq order (by omega),hheader,
      write_write hother (ByteOrder.length_store16 _ _).symm,hstored]
  · intro host
    rw [updateIpCsum_eq host hlen,hstored]

/-- A datagram header whose field holds garbage. -/
def staleHeader : List UInt8 :=
  [0x45,0,0,0x73,0,0,0x40,0,0x40,0x11,0xde,0xad,0xc0,0xa8,0,1,0xc0,0xa8,0,0xc7]

/-- Its field becomes 0xb861 on the wire, on either host. -/
theorem updateIpCsum_stale :
    ∃ zeroed csum written,write staleHeader 10 [0,0]=some zeroed ∧
      ExactSum .little zeroed 0 csum ∧ updateIpCsum .little staleHeader 0=some written ∧
      updateIpCsum .big staleHeader 0=some written ∧ slice written 10 2=[0xb8,0x61] ∧
      wrapSum 65535 (words .little (slice written 0 20))=65535 := by
  obtain ⟨zeroed,csum,written,hz,hexact,hrun,_,_,_,hsum,_,hhost⟩ :=
    updateIpCsum_rfc1071 .little staleHeader 0 (by decide)
  have hbytes : (updateIpCsum .little staleHeader 0).map (slice · 10 2)=some [0xb8,0x61] := by
    decide
  rw [hrun,Option.map_some,Option.some_inj] at hbytes
  exact ⟨zeroed,csum,written,hz,hexact,hrun,hhost .big,hbytes,hsum .little⟩

end ContainerLb.HeaderChecksum

import Mathlib.Tactic.Ring
import Mathlib.Tactic.NormNum

/-!
# Numbers in memory and bounds-checked byte buffers

A host loads and stores 16-bit and 32-bit numbers in its own byte order.
Both orders are covered by one parameter. A buffer is a list of bytes; every
access outside it is reported as an absent result, so a program that yields
a result has stayed inside.
-/

namespace ContainerLb.HostBytes

/-- Byte order of the host for all multi-byte loads and stores. -/
inductive ByteOrder where
  /-- Least significant byte first. -/
  | little
  /-- Most significant byte first. -/
  | big
  deriving DecidableEq,Repr

/-- Four bytes in memory order. -/
@[ext]
structure Quad where
  /-- Byte at the lowest address. -/
  a : UInt8
  /-- Second byte. -/
  b : UInt8
  /-- Third byte. -/
  c : UInt8
  /-- Byte at the highest address. -/
  d : UInt8
  deriving DecidableEq,Repr

/-- The four bytes as a buffer. -/
def Quad.toList (quad : Quad) : List UInt8 := [quad.a,quad.b,quad.c,quad.d]

/-- The buffer determines the four bytes. -/
theorem Quad.toList_inj {first second : Quad} : first.toList=second.toList ↔ first=second := by
  simp [Quad.toList,Quad.ext_iff]

/-- A 32-bit number, least significant byte first. -/
def littleValue (a b c d : UInt8) : ℕ := a.toNat+2^8*b.toNat+2^16*c.toNat+2^24*d.toNat

/-- A byte of a number by its weight. -/
def byteOf (value weight : ℕ) : UInt8 := UInt8.ofNat (value/weight)

namespace ByteOrder

/-- Load a 32-bit number from four bytes. -/
def load32 (order : ByteOrder) (quad : Quad) : UInt32 :=
  match order with
  | little => UInt32.ofNat (littleValue quad.a quad.b quad.c quad.d)
  | big => UInt32.ofNat (littleValue quad.d quad.c quad.b quad.a)

/-- Store a 32-bit number as four bytes. -/
def store32 (order : ByteOrder) (value : UInt32) : Quad :=
  let byte (weight : ℕ) := byteOf value.toNat weight
  match order with
  | little => ⟨byte 1,byte (2^8),byte (2^16),byte (2^24)⟩
  | big => ⟨byte (2^24),byte (2^16),byte (2^8),byte 1⟩

/-- Load a 16-bit number from two bytes. -/
def load16 (order : ByteOrder) (first second : UInt8) : UInt16 :=
  match order with
  | little => UInt16.ofNat (first.toNat+2^8*second.toNat)
  | big => UInt16.ofNat (second.toNat+2^8*first.toNat)

/-- Store a 16-bit number as two bytes. -/
def store16 (order : ByteOrder) (value : UInt16) : List UInt8 :=
  let byte (weight : ℕ) := byteOf value.toNat weight
  match order with
  | little => [byte 1,byte (2^8)]
  | big => [byte (2^8),byte 1]

end ByteOrder

/-- Four bytes always fit a 32-bit number. -/
theorem littleValue_lt (a b c d : UInt8) : littleValue a b c d<2^32 := by
  have ha := a.toNat_lt
  have hb := b.toNat_lt
  have hc := c.toNat_lt
  have hd := d.toNat_lt
  unfold littleValue
  omega

/-- The loaded number before its reduction to 32 bits. -/
theorem ByteOrder.load32_toNat (order : ByteOrder) (quad : Quad) :
    (order.load32 quad).toNat=
      match order with
      | .little => littleValue quad.a quad.b quad.c quad.d
      | .big => littleValue quad.d quad.c quad.b quad.a := by
  cases order <;> exact UInt32.toNat_ofNat_of_lt' (littleValue_lt _ _ _ _)

/-- Each byte of a number can be recovered from its little-endian value. -/
theorem byteOf_littleValue (a b c d : UInt8) :
    byteOf (littleValue a b c d) 1=a ∧ byteOf (littleValue a b c d) (2^8)=b ∧
      byteOf (littleValue a b c d) (2^16)=c ∧ byteOf (littleValue a b c d) (2^24)=d := by
  have ha := a.toNat_lt
  have hb := b.toNat_lt
  have hc := c.toNat_lt
  have hd := d.toNat_lt
  unfold littleValue byteOf
  refine ⟨?_,?_,?_,?_⟩ <;> apply UInt8.toNat_inj.mp <;> rw [UInt8.toNat_ofNat'] <;> omega

/-- Storing a loaded number restores its four bytes in either order. -/
@[simp]
theorem ByteOrder.store32_load32 (order : ByteOrder) (quad : Quad) :
    order.store32 (order.load32 quad)=quad := by
  cases order with
  | little =>
    obtain ⟨ha,hb,hc,hd⟩ := byteOf_littleValue quad.a quad.b quad.c quad.d
    simp only [store32,load32_toNat,ha,hb,hc,hd]
  | big =>
    obtain ⟨hd,hc,hb,ha⟩ := byteOf_littleValue quad.d quad.c quad.b quad.a
    simp only [store32,load32_toNat,ha,hb,hc,hd]

/-- Loading a stored number restores it in either order. -/
@[simp]
theorem ByteOrder.load32_store32 (order : ByteOrder) (value : UInt32) :
    order.load32 (order.store32 value)=value := by
  have hv := value.toNat_lt
  apply UInt32.toNat_inj.mp
  rw [load32_toNat]
  cases order <;> simp only [store32,littleValue,byteOf,UInt8.toNat_ofNat'] <;> omega

/-- Different bytes load as different numbers. -/
theorem ByteOrder.load32_inj (order : ByteOrder) {first second : Quad} :
    order.load32 first=order.load32 second ↔ first=second := by
  constructor
  · intro h
    rw [←order.store32_load32 first,h,order.store32_load32]
  · rintro rfl
    rfl

/-- Only four zero bytes load as zero. -/
theorem ByteOrder.load32_eq_zero (order : ByteOrder) {quad : Quad} :
    order.load32 quad=0 ↔ quad=⟨0,0,0,0⟩ := by
  have hz : order.load32 ⟨0,0,0,0⟩=0 := by cases order <;> rfl
  rw [←hz,order.load32_inj]

/-- A stored 16-bit number has two bytes. -/
theorem ByteOrder.length_store16 (order : ByteOrder) (value : UInt16) :
    (order.store16 value).length=2 := by
  cases order <;> rfl

/-- Storing a loaded 16-bit number restores its two bytes in either order. -/
@[simp]
theorem ByteOrder.store16_load16 (order : ByteOrder) (first second : UInt8) :
    order.store16 (order.load16 first second)=[first,second] := by
  have hf := first.toNat_lt
  have hs := second.toNat_lt
  cases order <;>
    simp only [store16,load16,byteOf,List.cons.injEq,and_true,←UInt8.toNat_inj,
      UInt8.toNat_ofNat',UInt16.toNat_ofNat'] <;>
    omega

/-- A stored 16-bit number loads as itself in either order. -/
theorem ByteOrder.load16_store16 (order : ByteOrder) (value : UInt16) :
    ∃ first second,order.store16 value=[first,second] ∧ order.load16 first second=value := by
  have hv := value.toNat_lt
  cases order <;> refine ⟨_,_,rfl,UInt16.toNat_inj.mp ?_⟩ <;>
    simp only [load16,byteOf,UInt16.toNat_ofNat',UInt8.toNat_ofNat'] <;> omega

/-- The consecutive bytes of a buffer from an offset on. -/
def slice (buffer : List UInt8) (offset length : ℕ) : List UInt8 :=
  (buffer.drop offset).take length

/-- Load one byte. -/
def readByte (buffer : List UInt8) (offset : ℕ) : Option UInt8 := buffer[offset]?

/-- Load a 16-bit number in host order. -/
def read16 (order : ByteOrder) (buffer : List UInt8) (offset : ℕ) : Option UInt16 := do
  let first ← buffer[offset]?
  let second ← buffer[offset+1]?
  return order.load16 first second

/-- Load four bytes. -/
def readQuad (buffer : List UInt8) (offset : ℕ) : Option Quad := do
  let a ← buffer[offset]?
  let b ← buffer[offset+1]?
  let c ← buffer[offset+2]?
  let d ← buffer[offset+3]?
  return ⟨a,b,c,d⟩

/-- Load a 32-bit number in host order. -/
def read32 (order : ByteOrder) (buffer : List UInt8) (offset : ℕ) : Option UInt32 :=
  (readQuad buffer offset).map order.load32

/-- Overwrite consecutive bytes, all of which must lie inside the buffer. -/
def write (buffer : List UInt8) (offset : ℕ) (bytes : List UInt8) : Option (List UInt8) :=
  if offset+bytes.length≤buffer.length then
    some (buffer.take offset++bytes++buffer.drop (offset+bytes.length))
  else none

/-- A write inside the buffer happens and keeps the length. -/
theorem write_of_le {buffer bytes : List UInt8} {offset : ℕ}
    (h : offset+bytes.length≤buffer.length) :
    ∃ written,write buffer offset bytes=some written ∧ written.length=buffer.length := by
  refine ⟨_,if_pos h,?_⟩
  simp only [List.length_append,List.length_take,List.length_drop]
  omega

/-- Byte view of a write: the written range holds the new bytes and every
other byte is kept. -/
theorem getElem?_write {buffer bytes written : List UInt8} {offset : ℕ}
    (h : write buffer offset bytes=some written) (i : ℕ) :
    written[i]?=if offset≤ i ∧ i<offset+bytes.length then bytes[i-offset]? else buffer[i]? := by
  unfold write at h
  split at h
  · rename_i hle
    cases h
    have ht : (buffer.take offset).length=offset := by
      rw [List.length_take]
      omega
    rcases Nat.lt_or_ge i offset with hi|hi
    · rw [if_neg (by omega),List.append_assoc,List.getElem?_append_left (by omega),
        List.getElem?_take_of_lt hi]
    · rcases Nat.lt_or_ge i (offset+bytes.length) with hj|hj
      · rw [if_pos ⟨hi,hj⟩,List.append_assoc,List.getElem?_append_right (by omega),ht,
          List.getElem?_append_left (by omega)]
      · rw [if_neg (by omega),List.getElem?_append_right (by
            rw [List.length_append]
            omega),List.length_append,ht,List.getElem?_drop]
        congr 1
        omega
  · contradiction

/-- Byte view of a slice. -/
theorem getElem?_slice (buffer : List UInt8) (offset length i : ℕ) :
    (slice buffer offset length)[i]?=if i<length then buffer[offset+i]? else none := by
  unfold slice
  split
  · rename_i hi
    rw [List.getElem?_take_of_lt hi,List.getElem?_drop]
  · rename_i hi
    exact List.getElem?_take_eq_none (by omega)

/-- Slices agree when all their bytes do. -/
theorem slice_congr {first second : List UInt8} {offset length : ℕ}
    (h : ∀ i,offset≤ i → i<offset+length → first[i]?=second[i]?) :
    slice first offset length=slice second offset length := by
  apply List.ext_getElem?
  intro i
  rw [getElem?_slice,getElem?_slice]
  split
  · exact h _ (by omega) (by omega)
  · rfl

/-- A slice inside the buffer is determined by its bytes. -/
theorem slice_eq {buffer bytes : List UInt8} {offset : ℕ}
    (h : ∀ i<bytes.length,buffer[offset+i]?=bytes[i]?) :
    slice buffer offset bytes.length=bytes := by
  apply List.ext_getElem?
  intro i
  rw [getElem?_slice]
  split
  · rename_i hi
    exact h i hi
  · rename_i hi
    exact (List.getElem?_eq_none (by omega)).symm

/-- A slice in two parts. -/
theorem slice_add (buffer : List UInt8) (offset first second : ℕ) :
    slice buffer offset (first+second)=
      slice buffer offset first++slice buffer (offset+first) second := by
  rw [slice,List.take_add,List.drop_drop]
  rfl

/-- A slice inside the buffer has all its bytes. -/
theorem length_slice {buffer : List UInt8} {offset length : ℕ}
    (h : offset+length≤buffer.length) : (slice buffer offset length).length=length := by
  rw [slice,List.length_take,List.length_drop]
  omega

/-- The written range holds the written bytes. -/
theorem slice_write {buffer bytes written : List UInt8} {offset : ℕ}
    (h : write buffer offset bytes=some written) : slice written offset bytes.length=bytes := by
  refine slice_eq fun i hi => ?_
  rw [getElem?_write h,if_pos (by omega),Nat.add_sub_cancel_left]

/-- A range outside the written one is kept. -/
theorem slice_write_of_disjoint {buffer bytes written : List UInt8} {offset other length : ℕ}
    (h : write buffer offset bytes=some written)
    (hd : other+length≤offset ∨ offset+bytes.length≤other) :
    slice written other length=slice buffer other length := by
  refine slice_congr fun i hi hlt => ?_
  rw [getElem?_write h,if_neg (by omega)]

/-- A later write to the same range replaces an earlier one. -/
theorem write_write {buffer first second written : List UInt8} {offset : ℕ}
    (h : write buffer offset first=some written) (hlen : first.length=second.length) :
    write written offset second=write buffer offset second := by
  have hle : offset+first.length≤buffer.length := by
    by_contra hout
    rw [write,if_neg hout] at h
    contradiction
  obtain ⟨again,hagain,hlength⟩ := write_of_le hle
  obtain rfl : again=written := Option.some.inj (hagain.symm.trans h)
  obtain ⟨left,hleft,_⟩ := @write_of_le again second offset (by omega)
  obtain ⟨right,hright,_⟩ := @write_of_le buffer second offset (by omega)
  rw [hleft,hright,Option.some_inj]
  apply List.ext_getElem?
  intro i
  rw [getElem?_write hleft,getElem?_write hright,getElem?_write h,hlen]
  split
  · rfl
  · rfl

/-- Four bytes are present exactly inside the buffer. -/
theorem readQuad_of_le {buffer : List UInt8} {offset : ℕ} (h : offset+4≤buffer.length) :
    ∃ quad,readQuad buffer offset=some quad ∧ slice buffer offset 4=quad.toList := by
  refine ⟨⟨buffer[offset],buffer[offset+1],buffer[offset+2],buffer[offset+3]⟩,?_,?_⟩
  · simp [readQuad,List.getElem?_eq_getElem (show offset<buffer.length by omega),
      List.getElem?_eq_getElem (show offset+1<buffer.length by omega),
      List.getElem?_eq_getElem (show offset+2<buffer.length by omega),
      List.getElem?_eq_getElem (show offset+3<buffer.length by omega)]
  · refine @slice_eq buffer (Quad.toList _) offset fun i hi => ?_
    simp only [Quad.toList,List.length_cons,List.length_nil] at hi
    have hc : i=0 ∨ i=1 ∨ i=2 ∨ i=3 := by omega
    rcases hc with rfl|rfl|rfl|rfl <;> simp [Quad.toList,show offset<buffer.length by omega]

/-- Four bytes found in a buffer are loaded from there. -/
theorem readQuad_of_slice {buffer : List UInt8} {offset : ℕ} {quad : Quad}
    (h : slice buffer offset 4=quad.toList) : readQuad buffer offset=some quad := by
  have hlen := congrArg List.length h
  rw [slice,List.length_take,List.length_drop] at hlen
  simp only [Quad.toList,List.length_cons,List.length_nil] at hlen
  obtain ⟨found,hread,hfound⟩ := @readQuad_of_le buffer offset (by omega)
  rw [hread,Quad.toList_inj.mp (hfound.symm.trans h)]

/-- A number by its four bytes. -/
theorem read32_of_slice (order : ByteOrder) {buffer : List UInt8} {offset : ℕ} {quad : Quad}
    (h : slice buffer offset 4=quad.toList) :
    read32 order buffer offset=some (order.load32 quad) := by
  rw [read32,readQuad_of_slice h,Option.map_some]

end ContainerLb.HostBytes

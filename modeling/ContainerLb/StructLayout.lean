import ContainerLb.HostBytes

/-!
# Records in memory

A record is a list of members. Each member starts at the next multiple of its
alignment, and the whole is filled up to a multiple of the largest one, as
compilers lay out records. A member says how wide it is and what its bytes
mean. Two declarations of one record can agree in all positions and differ in
that meaning; what is written through one and read through the other is then
reinterpreted member by member.
-/

namespace ContainerLb.StructLayout

open HostBytes

/-- Member of a record: its width and the meaning of its bytes. -/
inductive Field where
  /-- A 32-bit member whose four bytes count as they stand in memory. -/
  | quad
  /-- A 16-bit number in network order. -/
  | net16
  /-- A 16-bit number in host order. -/
  | host16
  /-- A 32-bit number in host order. -/
  | host32
  /-- An array of bytes. -/
  | bytes (n : ℕ)
  deriving DecidableEq

namespace Field

/-- Number of bytes. -/
def size : Field → ℕ
  | quad => 4
  | net16 => 2
  | host16 => 2
  | host32 => 4
  | bytes n => n

/-- Every offset of the member is a multiple of this. -/
def align : Field → ℕ
  | quad => 4
  | net16 => 2
  | host16 => 2
  | host32 => 4
  | bytes _ => 1

/-- What a member stands for. -/
abbrev Value : Field → Type
  | quad => Quad
  | net16 => UInt16
  | host16 => UInt16
  | host32 => UInt32
  | bytes n => Vector UInt8 n

/-- The bytes of a value. -/
def encode (order : ByteOrder) : (field : Field) → field.Value → List UInt8
  | quad,value => value.toList
  | net16,value => ByteOrder.big.store16 value
  | host16,value => order.store16 value
  | host32,value => (order.store32 value).toList
  | bytes _,value => value.toList

/-- The value of as many bytes as the member has. -/
def decode (order : ByteOrder) : (field : Field) → List UInt8 → Option field.Value
  | quad,[a,b,c,d] => some ⟨a,b,c,d⟩
  | net16,[first,second] => some (ByteOrder.big.load16 first second)
  | host16,[first,second] => some (order.load16 first second)
  | host32,[a,b,c,d] => some (order.load32 ⟨a,b,c,d⟩)
  | bytes n,list => if h : list.length=n then some ⟨list.toArray,by simpa using h⟩ else none
  | _,_ => none

/-- A value takes the bytes of its member. -/
theorem length_encode (order : ByteOrder) (field : Field) (value : field.Value) :
    (field.encode order value).length=field.size := by
  cases field with
  | quad => rfl
  | net16 => exact ByteOrder.big.length_store16 value
  | host16 => exact order.length_store16 value
  | host32 => rfl
  | bytes n => exact value.length_toList

/-- Reading a member undoes writing it. -/
@[simp]
theorem decode_encode (order : ByteOrder) (field : Field) (value : field.Value) :
    field.decode order (field.encode order value)=some value := by
  cases field with
  | quad => rfl
  | net16 =>
    obtain ⟨first,second,hstore,hload⟩ := ByteOrder.big.load16_store16 value
    rw [encode,hstore,decode,hload]
  | host16 =>
    obtain ⟨first,second,hstore,hload⟩ := order.load16_store16 value
    rw [encode,hstore,decode,hload]
  | host32 => exact congrArg some (order.load32_store32 value)
  | bytes n =>
    rw [encode,decode,dif_pos value.length_toList]
    rfl

/-- A number loaded from four bytes shows them again in memory. -/
theorem quad_of_host32 (order : ByteOrder) (quad : Quad) :
    Field.quad.decode order (host32.encode order (order.load32 quad))=some quad := by
  rw [encode,order.store32_load32]
  rfl

/-- A number in host order is in network order only on a host with that order
or if its two bytes are equal. -/
theorem net16_of_host16 (order : ByteOrder) (value : UInt16) :
    net16.decode order (host16.encode order value)=some value ↔
      order=.big ∨ value%256=value/256 := by
  cases order with
  | big => exact iff_of_true (net16.decode_encode .big value) (Or.inl rfl)
  | little =>
    have hv := value.toNat_lt
    have hhigh : value.toNat/2^8%2^8=value.toNat/256 := by omega
    have hlow : value.toNat/1%2^8=value.toNat%256 := by omega
    rw [encode,ByteOrder.store16,decode,Option.some_inj,←UInt16.toNat_inj,←UInt16.toNat_inj]
    simp only [ByteOrder.load16,byteOf,UInt16.toNat_ofNat',UInt8.toNat_ofNat',UInt16.toNat_mod,
      UInt16.toNat_div,reduceCtorEq,false_or,hhigh,hlow]
    change _ ↔ value.toNat%256=value.toNat/256
    omega

/-- Position and width, without the meaning. -/
def shape (field : Field) : ℕ×ℕ := (field.size,field.align)

/-- An alignment is never zero. -/
theorem align_pos (field : Field) : 0<field.align := by
  cases field <;> simp [align]

end Field

/-- The next multiple of an alignment. -/
def alignUp (offset align : ℕ) : ℕ := (offset+align-1)/align*align

/-- It is not before the offset. -/
theorem le_alignUp (offset : ℕ) {align : ℕ} (h : 0<align) : offset≤alignUp offset align := by
  have hdiv := Nat.div_add_mod (offset+align-1) align
  have hmod := Nat.mod_lt (offset+align-1) h
  rw [Nat.mul_comm] at hdiv
  unfold alignUp
  omega

/-- Values of all members. -/
abbrev Record : List Field → Type
  | [] => Unit
  | field::fields => field.Value×Record fields

/-- End of the last member when the first one is placed from an offset on. -/
def endFrom (offset : ℕ) : List Field → ℕ
  | [] => offset
  | field::fields => endFrom (alignUp offset field.align+field.size) fields

/-- Size of the whole record. -/
def recordSize (fields : List Field) : ℕ :=
  alignUp (endFrom 0 fields) (fields.foldr (fun field largest => max field.align largest) 1)

/-- The members from an offset on, with zero bytes between them. -/
def encodeFrom (order : ByteOrder) (offset : ℕ) : (fields : List Field) → Record fields → List UInt8
  | [],_ => []
  | field::fields,(value,rest) =>
    List.replicate (alignUp offset field.align-offset) 0++field.encode order value++
      encodeFrom order (alignUp offset field.align+field.size) fields rest

/-- The bytes of a record. -/
def encode (order : ByteOrder) (fields : List Field) (record : Record fields) : List UInt8 :=
  encodeFrom order 0 fields record++List.replicate (recordSize fields-endFrom 0 fields) 0

/-- Read the members from an offset on at their positions. -/
def decodeFrom (order : ByteOrder) (list : List UInt8) (offset : ℕ) :
    (fields : List Field) → Option (Record fields)
  | [] => some ()
  | field::fields => do
    let value ← field.decode order (slice list (alignUp offset field.align) field.size)
    let rest ← decodeFrom order list (alignUp offset field.align+field.size) fields
    return (value,rest)

/-- Read a record from bytes of exactly its size. -/
def decode (order : ByteOrder) (fields : List Field) (list : List UInt8) : Option (Record fields) :=
  if list.length=recordSize fields then decodeFrom order list 0 fields else none

/-- The values of one list of members, taken for those of another. -/
def reinterpret (order : ByteOrder) :
    (fields others : List Field) → Record fields → Option (Record others)
  | [],[],_ => some ()
  | field::fields,other::others,(value,rest) => do
    let value ← other.decode order (field.encode order value)
    let rest ← reinterpret order fields others rest
    return (value,rest)
  | [],_::_,_ => none
  | _::_,[],_ => none

section Reading

variable {order : ByteOrder} {fields others : List Field}

/-- Members from an offset on reach to their end. -/
theorem length_encodeFrom (offset : ℕ) (record : Record fields) :
    offset+(encodeFrom order offset fields record).length=endFrom offset fields := by
  induction fields generalizing offset with
  | nil => rfl
  | cons field fields ih =>
    have hle := le_alignUp offset field.align_pos
    have hrest := ih (alignUp offset field.align+field.size) record.2
    rw [encodeFrom,endFrom,←hrest,List.length_append,List.length_append,List.length_replicate,
      field.length_encode]
    omega

/-- Equal shapes reach equally far. -/
theorem endFrom_congr (h : fields.map Field.shape=others.map Field.shape) (offset : ℕ) :
    endFrom offset fields=endFrom offset others := by
  induction fields generalizing others offset with
  | nil =>
    obtain rfl := List.map_eq_nil_iff.mp h.symm
    rfl
  | cons field fields ih =>
    obtain ⟨other,others,rfl,hshape,hrest⟩ := List.map_eq_cons_iff.mp h.symm
    obtain ⟨hsize,halign⟩ := Prod.mk.inj hshape
    rw [endFrom,endFrom,hsize,halign]
    exact ih hrest.symm _

/-- Equal shapes have equal sizes. -/
theorem recordSize_congr (h : fields.map Field.shape=others.map Field.shape) :
    recordSize fields=recordSize others := by
  have hlargest : ∀ list : List Field,list.foldr (fun field largest => max field.align largest) 1=
      (list.map Field.shape).foldr (fun shape largest => max shape.2 largest) 1 := by
    intro list
    rw [List.foldr_map]
    rfl
  rw [recordSize,recordSize,endFrom_congr h,hlargest,hlargest,h]

/-- A record takes its size. -/
theorem length_encode (record : Record fields) :
    (encode order fields record).length=recordSize fields := by
  have hend := @length_encodeFrom order fields 0 record
  have hle : endFrom 0 fields≤ recordSize fields := by
    refine le_alignUp _ ?_
    cases fields with
    | nil => exact Nat.one_pos
    | cons field fields => exact Nat.lt_of_lt_of_le field.align_pos (Nat.le_max_left _ _)
  rw [encode,List.length_append,List.length_replicate]
  omega

/-- Members placed from an offset on are read one by one, whatever follows. -/
theorem decodeFrom_encodeFrom {list tail : List UInt8} {offset : ℕ} {record : Record fields}
    (hshape : fields.map Field.shape=others.map Field.shape)
    (hlist : list.drop offset=encodeFrom order offset fields record++tail) :
    decodeFrom order list offset others=reinterpret order fields others record := by
  induction fields generalizing others offset with
  | nil =>
    obtain rfl := List.map_eq_nil_iff.mp hshape.symm
    rfl
  | cons field fields ih =>
    obtain ⟨other,others,rfl,hother,hrest⟩ := List.map_eq_cons_iff.mp hshape.symm
    obtain ⟨hsize,halign⟩ := Prod.mk.inj hother
    obtain ⟨value,rest⟩ := record
    have hle := le_alignUp offset field.align_pos
    have hlength := field.length_encode order value
    -- The bytes from this member on, behind the fill.
    have hfrom : list.drop (alignUp offset field.align)=field.encode order value++
        (encodeFrom order (alignUp offset field.align+field.size) fields rest++tail) := by
      have hfill : (List.replicate (alignUp offset field.align-offset) (0 : UInt8)).length=
          alignUp offset field.align-offset := List.length_replicate
      rw [←Nat.add_sub_cancel' hle,←List.drop_drop,hlist,encodeFrom,List.append_assoc,
        List.append_assoc,List.drop_left' hfill,Nat.add_sub_cancel' hle]
    have hvalue : slice list (alignUp offset field.align) field.size=field.encode order value := by
      rw [slice,hfrom,List.take_left' hlength]
    have hafter : list.drop (alignUp offset field.align+field.size)=
        encodeFrom order (alignUp offset field.align+field.size) fields rest++tail := by
      rw [←List.drop_drop,hfrom,List.drop_left' hlength]
    rw [decodeFrom,reinterpret,hsize,halign,hvalue,ih hrest.symm hafter]

/-- Reading through a declaration of the same shape reinterprets what was
written member by member. -/
theorem decode_encode_of_shape (record : Record fields)
    (h : fields.map Field.shape=others.map Field.shape) :
    decode order others (encode order fields record)=reinterpret order fields others record := by
  rw [decode,length_encode,recordSize_congr h,if_pos rfl]
  exact decodeFrom_encodeFrom h rfl

/-- Reinterpretation succeeds exactly when it does so for each member. -/
theorem reinterpret_cons {field other : Field} {value : field.Value} {rest : Record fields}
    {value' : other.Value} {rest' : Record others} :
    reinterpret order (field::fields) (other::others) (value,rest)=some (value',rest') ↔
      other.decode order (field.encode order value)=some value' ∧
        reinterpret order fields others rest=some rest' := by
  simp [reinterpret,Option.bind_eq_some_iff]

/-- Under the same declaration nothing changes. -/
theorem reinterpret_self (record : Record fields) :
    reinterpret order fields fields record=some record := by
  induction fields with
  | nil => rfl
  | cons field fields ih => exact reinterpret_cons.mpr ⟨field.decode_encode order _,ih _⟩

/-- Reading undoes writing. -/
theorem decode_encode (record : Record fields) :
    decode order fields (encode order fields record)=some record := by
  rw [decode_encode_of_shape record rfl,reinterpret_self]

end Reading

section Packed

variable {order : ByteOrder}

/-- Writing a member undoes reading it. -/
theorem Field.encode_of_decode {field : Field} {list : List UInt8} {value : field.Value}
    (h : field.decode order list=some value) : field.encode order value=list := by
  cases field with
  | quad =>
    rcases list with _|⟨a,_|⟨b,_|⟨c,_|⟨d,_|_⟩⟩⟩⟩ <;> cases h
    rfl
  | net16 =>
    rcases list with _|⟨first,_|⟨second,_|_⟩⟩ <;> cases h
    exact ByteOrder.big.store16_load16 first second
  | host16 =>
    rcases list with _|⟨first,_|⟨second,_|_⟩⟩ <;> cases h
    exact order.store16_load16 first second
  | host32 =>
    rcases list with _|⟨a,_|⟨b,_|⟨c,_|⟨d,_|_⟩⟩⟩⟩ <;> cases h
    exact congrArg Quad.toList (order.store32_load32 _)
  | bytes n =>
    rw [decode] at h
    split at h <;> cases h
    rfl

/-- Every member from an offset on follows the one before without fill. -/
def Packed (offset : ℕ) : List Field → Prop
  | [] => True
  | field::fields => alignUp offset field.align=offset ∧ Packed (offset+field.size) fields

instance decidablePacked : (offset : ℕ) → (fields : List Field) → Decidable (Packed offset fields)
  | _,[] => isTrue trivial
  | offset,field::fields =>
    have := decidablePacked (offset+field.size) fields
    inferInstanceAs (Decidable (_ ∧ _))

/-- Members are not placed before their offset. -/
theorem le_endFrom (offset : ℕ) (fields : List Field) : offset≤endFrom offset fields := by
  induction fields generalizing offset with
  | nil => exact Nat.le_refl _
  | cons field fields ih =>
    have hle := le_alignUp offset field.align_pos
    have hrest := ih (alignUp offset field.align+field.size)
    rw [endFrom]
    omega

/-- Members without fill show the bytes they were read from. -/
theorem encodeFrom_of_decodeFrom {list : List UInt8} {offset : ℕ} {fields : List Field}
    {record : Record fields} (hpacked : Packed offset fields)
    (h : decodeFrom order list offset fields=some record) :
    encodeFrom order offset fields record=slice list offset (endFrom offset fields-offset) := by
  induction fields generalizing offset with
  | nil => simp [encodeFrom,endFrom,slice]
  | cons field fields ih =>
    obtain ⟨hnext,hpacked⟩ := hpacked
    simp only [decodeFrom,hnext,Option.bind_eq_bind,Option.bind_eq_some_iff] at h
    obtain ⟨value,hvalue,rest,hrest,hrecord⟩ := h
    cases hrecord
    have hle := le_endFrom (offset+field.size) fields
    have hlength : endFrom (offset+field.size) fields-offset=
        field.size+(endFrom (offset+field.size) fields-(offset+field.size)) := by omega
    rw [encodeFrom,endFrom,hnext,Nat.sub_self,List.replicate_zero,List.nil_append,
      field.encode_of_decode hvalue,ih hpacked hrest,hlength,slice_add]

/-- Writing undoes reading when there is no fill. -/
theorem encode_of_decode {list : List UInt8} {fields : List Field} {record : Record fields}
    (hpacked : Packed 0 fields) (hsize : recordSize fields=endFrom 0 fields)
    (h : decode order fields list=some record) : encode order fields record=list := by
  rw [decode] at h
  split at h
  · rename_i hlength
    rw [encode,encodeFrom_of_decodeFrom hpacked h,hsize,Nat.sub_self,List.replicate_zero,
      List.append_nil,Nat.sub_zero,slice,List.drop_zero,List.take_of_length_le (by omega)]
  · contradiction

end Packed

end ContainerLb.StructLayout

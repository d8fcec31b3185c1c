import ContainerLb.StructLayout
import ContainerLb.InternetChecksum
import ContainerLb.Balancing

/-!
# IPv4 datagrams in Ethernet frames

A datagram without options stands in a frame behind two packed headers. What
is read from a frame are the members of the headers, and only frames with a
correct header checksum are read. Then reading and writing are inverse to
each other. A frame can also be changed member by member in place.
-/

namespace ContainerLb.Datagrams

open HostBytes StructLayout InternetChecksum Balancing

/-- What the hops of a datagram leave alone. -/
structure Content where
  /-- Type of service. -/
  tos : UInt8
  /-- Length as sent. -/
  totalLength : UInt16
  /-- Identification. -/
  id : UInt16
  /-- Flags and fragment offset. -/
  fragment : UInt16
  /-- Time to live. -/
  ttl : UInt8
  /-- Number of the protocol. -/
  protocol : UInt8
  /-- Everything behind the header. -/
  payload : List UInt8
  /-- A control message has its whole header. -/
  complete : protocol=1 → 8≤payload.length
  deriving DecidableEq

/-- Hardware address. -/
abbrev LinkAddr := Vector UInt8 6

/-- A datagram with its hardware addresses. -/
abbrev Datagram := Message Quad LinkAddr Content

/-- `struct ethhdr`. -/
def ethhdr : List Field := [.bytes 6,.bytes 6,.net16]

/-- `struct iphdr`: version and length with type of service, total length,
identification, fragment, time to live with protocol, checksum, addresses. -/
def iphdr : List Field := [.bytes 2,.net16,.net16,.net16,.bytes 2,.net16,.quad,.quad]

/-- Members of the Ethernet header of an IPv4 datagram. -/
def linkRecord (d : Datagram) : Record ethhdr := (d.dstLink,d.srcLink,0x0800,())

/-- Members of the IPv4 header with a given checksum. -/
def ipRecord (d : Datagram) (check : UInt16) : Record iphdr :=
  (#v[0x45,d.content.tos],d.content.totalLength,d.content.id,d.content.fragment,
    #v[d.content.ttl,d.content.protocol],check,d.src,d.dst,())

/-- Bytes of the Ethernet header. -/
def linkHeader (d : Datagram) : List UInt8 := encode .big ethhdr (linkRecord d)

/-- Bytes of the IPv4 header with a given checksum. -/
def ipHeader (d : Datagram) (check : UInt16) : List UInt8 := encode .big iphdr (ipRecord d check)

/-- The frame with a given checksum. -/
def frameOf (d : Datagram) (check : UInt16) : List UInt8 :=
  linkHeader d++ipHeader d check++d.content.payload

/-- The frame of a datagram. -/
def serialize (d : Datagram) : List UInt8 := frameOf d (checksum (ipHeader d 0))

/-- A datagram without options from the members of its headers, if the type,
the header length and the checksum are right. -/
def assemble (link : Record ethhdr) (ip : Record iphdr) (payload : List UInt8) : Option Datagram :=
  let (dstLink,srcLink,type,_) := link
  let (first,totalLength,id,fragment,second,check,src,dst,_) := ip
  if h : second[1]=1 → 8≤payload.length then
    let d : Datagram := ⟨dstLink,srcLink,src,dst,
      first[1],totalLength,id,fragment,second[0],second[1],payload,h⟩
    if type=0x0800 ∧ first[0]=0x45 ∧ check=checksum (ipHeader d 0) then some d else none
  else none

/-- Read a datagram from a frame. -/
def parse (frame : List UInt8) : Option Datagram := do
  let link ← decode .big ethhdr (slice frame 0 14)
  let ip ← decode .big iphdr (slice frame 14 20)
  assemble link ip (frame.drop 34)

/-- Two bytes are what they hold. -/
theorem pair_eta (pair : Vector UInt8 2) : pair=#v[pair[0],pair[1]] := by
  ext i hi
  have hi : i=0 ∨ i=1 := by omega
  rcases hi with rfl|rfl <;> rfl

/-- Exactly the members of a datagram are assembled to it. -/
theorem assemble_eq_some {link : Record ethhdr} {ip : Record iphdr} {payload : List UInt8}
    {d : Datagram} : assemble link ip payload=some d ↔ link=linkRecord d ∧
      ip=ipRecord d (checksum (ipHeader d 0)) ∧ payload=d.content.payload := by
  constructor
  · obtain ⟨dstLink,srcLink,type,_⟩ := link
    obtain ⟨first,totalLength,id,fragment,second,check,src,dst,_⟩ := ip
    intro h
    simp only [assemble] at h
    split at h
    · split at h
      · rename_i hchecks
        obtain ⟨rfl,hfirst,rfl⟩ := hchecks
        cases h
        have hpair : #v[(0x45 : UInt8),first[1]]=first := by rw [←hfirst,←pair_eta]
        refine ⟨rfl,?_,rfl⟩
        rw [ipRecord,hpair,←pair_eta second]
      · contradiction
    · contradiction
  · rintro ⟨rfl,rfl,rfl⟩
    exact (dif_pos d.content.complete).trans (if_pos ⟨rfl,rfl,rfl⟩)

section Layout

variable (d : Datagram) (check : UInt16)

/-- The Ethernet header has 14 bytes. -/
theorem length_linkHeader : (linkHeader d).length=14 := length_encode _

/-- The IPv4 header has 20 bytes. -/
theorem length_ipHeader : (ipHeader d check).length=20 := length_encode _

/-- The first header of a frame. -/
theorem slice_link : slice (frameOf d check) 0 14=linkHeader d := by
  rw [slice,List.drop_zero,frameOf,List.append_assoc,List.take_left' (length_linkHeader d)]

/-- The second header of a frame. -/
theorem slice_ip : slice (frameOf d check) 14 20=ipHeader d check := by
  rw [slice,frameOf,List.append_assoc,List.drop_left' (length_linkHeader d),
    List.take_left' (length_ipHeader d check)]

/-- Everything behind both headers. -/
theorem drop_frameOf : (frameOf d check).drop 34=d.content.payload := by
  refine List.drop_left' ?_
  rw [List.length_append,length_linkHeader,length_ipHeader]

/-- Everything before the checksum. -/
def front : List UInt8 :=
  d.dstLink.toList++(d.srcLink.toList++([8,0]++(ipHeader d 0).take 10))

/-- It has 24 bytes. -/
theorem length_front : (front d).length=24 := by
  simp [front,length_ipHeader]

/-- All members of a frame in their order. -/
theorem frameOf_eq : frameOf d check=
    front d++(ByteOrder.big.store16 check++(d.src.toList++(d.dst.toList++d.content.payload))) := by
  have hlink : linkHeader d=[]++d.dstLink.toList++([]++d.srcLink.toList++[8,0])++[] := rfl
  have hip : ipHeader d check=(ipHeader d 0).take 10++
      (ByteOrder.big.store16 check++(d.src.toList++d.dst.toList)) := rfl
  rw [frameOf,hlink,hip,front]
  simp only [List.append_assoc,List.nil_append]

/-- A byte of the second header. -/
theorem getElem?_ip {i : ℕ} (h : i<20) : (frameOf d check)[14+i]?=(ipHeader d check)[i]? := by
  rw [←slice_ip d check,getElem?_slice,if_pos h]

/-- Part of the second header. -/
theorem slice_ip_part {offset length : ℕ} (h : offset+length≤20) :
    slice (frameOf d check) (14+offset) length=slice (ipHeader d check) offset length := by
  rw [←slice_ip d check]
  apply List.ext_getElem?
  intro i
  rw [getElem?_slice,getElem?_slice,getElem?_slice]
  split
  · rw [if_pos (by omega),Nat.add_assoc]
  · rfl

end Layout

/-- Reading and writing are inverse to each other: exactly the frame of a
datagram is read as this datagram. -/
theorem parse_eq_some {frame : List UInt8} {d : Datagram} :
    parse frame=some d ↔ frame=serialize d := by
  simp only [parse,Option.bind_eq_bind,Option.bind_eq_some_iff,assemble_eq_some]
  constructor
  · rintro ⟨link,hlink,ip,hip,rfl,rfl,hpayload⟩
    have hlinkBytes := encode_of_decode (by decide) (by decide) hlink
    have hipBytes := encode_of_decode (by decide) (by decide) hip
    have hsplit : frame=slice frame 0 14++slice frame 14 20++frame.drop 34 := by
      rw [←slice_add frame 0 14 20]
      exact (List.take_append_drop 34 frame).symm
    rw [hsplit,hpayload,←hlinkBytes,←hipBytes]
    rfl
  · rintro rfl
    refine ⟨_,?_,_,?_,rfl,rfl,drop_frameOf d _⟩
    · rw [serialize,slice_link]
      exact decode_encode _
    · rw [serialize,slice_ip]
      exact decode_encode _

section Fields

variable (d : Datagram) (check : UInt16)

/-- The type says IPv4. -/
theorem getElem?_type : (frameOf d check)[12]?=some 0x08 ∧ (frameOf d check)[13]?=some 0x00 := by
  rw [frameOf_eq,front]
  constructor <;> simp [List.getElem?_append]

/-- A header of twenty bytes. -/
theorem getElem?_first : (frameOf d check)[14]?=some 0x45 := @getElem?_ip d check 0 (by decide)

/-- The protocol. -/
theorem getElem?_protocol : (frameOf d check)[23]?=some d.content.protocol :=
  @getElem?_ip d check 9 (by decide)

/-- The sender as sent. -/
theorem slice_src : slice (frameOf d check) 26 4=d.src.toList :=
  @slice_ip_part d check 12 4 (by decide)

/-- The receiver as sent. -/
theorem slice_dst : slice (frameOf d check) 30 4=d.dst.toList :=
  @slice_ip_part d check 16 4 (by decide)

/-- Headers and payload. -/
theorem length_frameOf : (frameOf d check).length=34+d.content.payload.length := by
  rw [frameOf,List.length_append,List.length_append,length_linkHeader,length_ipHeader]

end Fields

section Writes

variable (d : Datagram) (check : UInt16)

/-- Replacing a member in the middle of a buffer. -/
theorem write_member (new : List UInt8) {buffer before old behind : List UInt8} {offset : ℕ}
    (hbuffer : buffer=before++(old++behind)) (hoffset : before.length=offset)
    (hlength : new.length=old.length) :
    write buffer offset new=some (before++(new++behind)) := by
  subst hoffset hbuffer
  have hle : before.length+new.length≤(before++(old++behind)).length := by
    simp only [List.length_append]
    omega
  rw [write,if_pos hle,List.take_left,hlength,←List.drop_drop,List.drop_left,List.drop_left,
    List.append_assoc]

/-- The next hop in place. -/
theorem write_dstLink (link : LinkAddr) :
    write (frameOf d check) 0 link.toList=some (frameOf {d with dstLink := link} check) := by
  have hframe := frameOf_eq d check
  rw [front,List.append_assoc] at hframe
  rw [@write_member link.toList _ [] _ _ 0 hframe rfl (by simp),frameOf_eq]
  simp only [front,List.append_assoc,List.nil_append]
  rfl

/-- The previous hop in place. -/
theorem write_srcLink (link : LinkAddr) :
    write (frameOf d check) 6 link.toList=some (frameOf {d with srcLink := link} check) := by
  have hframe := frameOf_eq d check
  rw [front,List.append_assoc,List.append_assoc] at hframe
  rw [write_member _ hframe (by simp) (by simp),frameOf_eq]
  simp only [front,List.append_assoc]
  rfl

/-- The checksum in place. -/
theorem write_check (new : UInt16) :
    write (frameOf d check) 24 (ByteOrder.big.store16 new)=some (frameOf d new) := by
  rw [write_member _ (frameOf_eq d check) (length_front d) (by simp [ByteOrder.length_store16]),
    frameOf_eq]

/-- The sender in place. -/
theorem write_src (src : Quad) :
    write (frameOf d check) 26 src.toList=some (frameOf {d with src := src} check) := by
  have hframe := frameOf_eq d check
  rw [←List.append_assoc] at hframe
  rw [write_member src.toList hframe (by simp [length_front,ByteOrder.length_store16]) rfl,
    frameOf_eq,List.append_assoc]
  rfl

/-- The receiver in place. -/
theorem write_dst (dst : Quad) :
    write (frameOf d check) 30 dst.toList=some (frameOf {d with dst := dst} check) := by
  have hframe := frameOf_eq d check
  rw [←List.append_assoc,←List.append_assoc] at hframe
  rw [write_member dst.toList hframe (by simp [length_front,ByteOrder.length_store16,Quad.toList])
    rfl,
    frameOf_eq,List.append_assoc,List.append_assoc]
  rfl

end Writes

end ContainerLb.Datagrams

import ContainerLb.DnatRefinement

/-!
# What may change in a frame

Both programs pass every frame on with its length, read and write inside it
and change their own fields only. The checksum that they write covers the
fixed header of twenty bytes, while the header of a frame may be longer. What
the options add decides whether the receiver accepts the longer header.
-/

namespace ContainerLb.FrameRules

open BoundedMaps HostBytes InternetChecksum BpfManager PoolRuns PacketPath PacketEffects
open DnatRefinement

variable {order : ByteOrder} {frame : List UInt8}

/-- Frame rule. For every sequence of bytes, map contents and random number
both programs stay inside the frame, pass it on and keep its length. The
first one changes hardware addresses, checksum and destination only, the
second one checksum and source only. A frame that is not ICMP over IPv4 or
that misses one of the lookups is not changed. -/
theorem frame_rule (order : ByteOrder) (world : World) {cpus : ℕ} (counters : Counters cpus)
    (cpu : Fin cpus) (prandom : UInt32) (frame : List UInt8) :
    (∃ v,xdpLbIngress order world counters cpu prandom frame=some v ∧ v.action=.pass ∧
      v.frame.length=frame.length ∧
      (∀ i : ℕ,v.frame[i]?≠frame[i]? → i<12 ∨ 24≤ i ∧ i<26 ∨ 30≤ i ∧ i<34) ∧
      ((¬IcmpFrame order frame ∨ ∀ cfg backend,¬Selects order world prandom frame cfg backend) →
        v.frame=frame)) ∧
    ∃ out,xdpVethSnat order world frame=some (.pass,out) ∧ out.length=frame.length ∧
      (∀ i : ℕ,out[i]?≠frame[i]? → 24≤ i ∧ i<26 ∨ 26≤ i ∧ i<30) ∧
      ((¬IcmpFrame order frame ∨ ∀ cfg,¬Translates order world frame cfg) → out=frame) := by
  constructor
  · rcases xdpLbIngress_cases counters cpu order world prandom frame with
      ⟨cfg,backend,rewritten,hs,hrun,hd⟩|⟨_,hpass⟩
    · refine ⟨_,hrun,rfl,hd.length,fun i hne => ?_,fun hmissed => ?_⟩
      · by_contra hout
        exact hne (hd.kept i (by omega) (by omega))
      · rcases hmissed with hicmp|hnone
        · exact absurd hs.icmp hicmp
        · exact absurd hs (hnone cfg backend)
    · exact ⟨_,hpass,rfl,rfl,fun i hne => absurd rfl hne,fun _ => rfl⟩
  · by_cases ht : ∃ cfg,Translates order world frame cfg
    · obtain ⟨cfg,ht⟩ := ht
      obtain ⟨rewritten,hrun,hs⟩ := xdpVethSnat_translated ht
      refine ⟨rewritten,hrun,hs.length,fun i hne => ?_,fun hmissed => ?_⟩
      · by_contra hout
        exact hne (hs.kept i (by omega))
      · rcases hmissed with hicmp|hnone
        · exact absurd ht.icmp hicmp
        · exact absurd ht (hnone cfg)
    · have hpass := xdpVethSnat_otherwise fun cfg h => ht ⟨cfg,h⟩
      exact ⟨frame,hpass,rfl,fun i hne => absurd rfl hne,fun _ => rfl⟩

/-- Length of the header that the first header byte gives, on the wire. -/
def headerLength (frame : List UInt8) : ℕ := 4*((frame[14]?.getD 0).toNat%16)

/-- A longer header behind a valid fixed header is valid exactly when its
options add nothing modulo 65535. -/
theorem header_valid_iff {rewritten : List UInt8} {length : ℕ} (hlength : 20≤length)
    (hlen : 14+length≤ rewritten.length) (hfixed : ChecksumValid (slice rewritten 14 20))
    (hkept : ∀ i,34≤ i → rewritten[i]?=frame[i]?) :
    ChecksumValid (slice rewritten 14 length) ↔
      65535∣(words .big (slice frame 34 (length-20))).sum := by
  have hoptions : slice rewritten 34 (length-20)=slice frame 34 (length-20) :=
    slice_congr fun i hi _ => hkept i hi
  have hsplit : slice rewritten 14 length=slice rewritten 14 20++slice frame 34 (length-20) := by
    rw [←hoptions,←slice_add,Nat.add_sub_cancel' hlength]
  have htwenty : (slice rewritten 14 20).length=2*10 := length_slice (by omega)
  rw [checksumValid_iff .big] at hfixed
  rw [checksumValid_iff .big,hsplit,words_append .big _ htwenty,List.sum_append]
  constructor
  · intro hvalid
    exact (Nat.dvd_add_right hfixed.1).mp hvalid.1
  · intro hdvd
    exact ⟨Nat.dvd_add hfixed.1 hdvd,by omega⟩

/-- Validity of rewritten headers. For a frame that holds a header of legal
length, the header that either program rewrites is accepted by the receiver
if and only if the 16-bit words of its options add up to a multiple of 65535,
whatever the checksum was before. Without options it always is. -/
theorem rewritten_header_valid_iff (order : ByteOrder) (world : World) {cpus : ℕ}
    (counters : Counters cpus) (cpu : Fin cpus) (prandom : UInt32) (frame : List UInt8)
    (hlegal : 20≤headerLength frame) (hlen : 14+headerLength frame≤frame.length) :
    (∀ cfg backend,Selects order world prandom frame cfg backend →
      ∃ v,xdpLbIngress order world counters cpu prandom frame=some v ∧
        (ChecksumValid (slice v.frame 14 (headerLength frame)) ↔
          65535∣(words .big (slice frame 34 (headerLength frame-20))).sum)) ∧
    ∀ cfg,Translates order world frame cfg →
      ∃ out,xdpVethSnat order world frame=some (.pass,out) ∧
        (ChecksumValid (slice out 14 (headerLength frame)) ↔
          65535∣(words .big (slice frame 34 (headerLength frame-20))).sum) := by
  constructor
  · intro cfg backend hs
    obtain ⟨rewritten,hrun,hd⟩ := xdpLbIngress_selected counters cpu hs
    have hlen' : 14+headerLength frame≤ rewritten.length := by rwa [hd.length]
    refine ⟨_,hrun,header_valid_iff hlegal hlen' hd.checksum fun i hi => ?_⟩
    exact hd.kept i (by omega) (Or.inr (Or.inr hi))
  · intro cfg ht
    obtain ⟨rewritten,hrun,hs⟩ := xdpVethSnat_translated ht
    have hlen' : 14+headerLength frame≤ rewritten.length := by rwa [hs.length]
    refine ⟨rewritten,hrun,header_valid_iff hlegal hlen' hs.checksum fun i hi => ?_⟩
    exact hs.kept i (Or.inr (by omega))

/-- An echo message whose header carries four bytes of options. -/
def optionEcho (kind check check' : UInt8) (saddr daddr : Quad) (options : Quad) : List UInt8 :=
  [2,66,1,2,3,4,2,66,9,9,9,9,0x08,0x00,
    0x46,0,0,32,0,1,0,0,64,1,check,check']++saddr.toList++daddr.toList++options.toList++
    [kind,0,0xf7,0xfd,0,1,0,1]

/-- A valid header with a router alert is no longer valid after either
program. -/
theorem rewritten_options_rejected :
    ChecksumValid (slice (optionEcho 8 0x79 0x14 ⟨192,168,0,9⟩ ⟨172,17,0,1⟩ ⟨148,4,0,0⟩) 14 24) ∧
      (∃ v,xdpLbIngress .little (run .little bridgePool [unhindered [bridged 2 "veth2"]]).world
          (.replicate maxBackends (Vector.replicate 1 ⟨0,0⟩)) (0 : Fin 1) 7
          (optionEcho 8 0x79 0x14 ⟨192,168,0,9⟩ ⟨172,17,0,1⟩ ⟨148,4,0,0⟩)=some v ∧
        slice v.frame 30 4=[172,17,0,2] ∧ ¬ChecksumValid (slice v.frame 14 24)) ∧
      ChecksumValid (slice (optionEcho 0 0x79 0x13 ⟨172,17,0,2⟩ ⟨192,168,0,9⟩ ⟨148,4,0,0⟩) 14 24) ∧
      ∃ out,xdpVethSnat .little (run .little bridgePool [unhindered [bridged 2 "veth2"]]).world
          (optionEcho 0 0x79 0x13 ⟨172,17,0,2⟩ ⟨192,168,0,9⟩ ⟨148,4,0,0⟩)=some (.pass,out) ∧
        slice out 26 4=[172,17,0,1] ∧ ¬ChecksumValid (slice out 14 24) := by
  refine ⟨by decide,⟨_,rfl,by decide,by decide⟩,by decide,_,rfl,by decide,by decide⟩

/-- Options that only end the list are accepted after the rewrite. -/
theorem rewritten_header_valid_padding :
    ∃ v,xdpLbIngress .little (run .little bridgePool [unhindered [bridged 2 "veth2"]]).world
        (.replicate maxBackends (Vector.replicate 1 ⟨0,0⟩)) (0 : Fin 1) 7
        (optionEcho 8 0 0 ⟨192,168,0,9⟩ ⟨172,17,0,1⟩ ⟨0,0,0,0⟩)=some v ∧
      ChecksumValid (slice v.frame 14 24) := by
  obtain ⟨v,hrun,hvalid⟩ := (rewritten_header_valid_iff .little
    (run .little bridgePool [unhindered [bridged 2 "veth2"]]).world
    (ArrayMap.replicate maxBackends (Vector.replicate 1 ⟨0,0⟩)) (0 : Fin 1) 7
    (optionEcho 8 0 0 ⟨192,168,0,9⟩ ⟨172,17,0,1⟩ ⟨0,0,0,0⟩) (by decide) (by decide)).1 _ _
    ⟨by decide,rfl,by decide,Or.inr (by decide),rfl,by decide⟩
  exact ⟨v,hrun,hvalid.mpr (by decide)⟩

end ContainerLb.FrameRules

import ContainerLb.DnatRefinement

/-!
# The way to a backend and back

A request is sent to a backend by one program and the reply gets the virtual
address by the other. The two programs meet in the maps only: the reply
comes from the address of a slot, and that address has to be registered.
-/

namespace ContainerLb.NatRoundTrip

open BoundedMaps HostBytes InternetChecksum BpfManager PoolRuns PacketPath PacketEffects
open DnatRefinement

variable {order : ByteOrder} {frame : List UInt8}

/-- What a backend answers: addresses swapped, identifier, sequence number
and payload kept, valid header checksum. -/
structure Answers (request reply : List UInt8) : Prop where
  /-- The reply has no options either. -/
  plain : PlainIcmp reply
  /-- It comes from the destination of the request. -/
  saddr : slice reply 26 4=slice request 30 4
  /-- It goes to the source of the request. -/
  daddr : slice reply 30 4=slice request 26 4
  /-- Identifier, sequence number and payload. -/
  content : reply.drop 38=request.drop 38
  /-- The header is valid. -/
  checksum : ChecksumValid (slice reply 14 20)

/-- Bytes kept from a position on. -/
theorem drop_congr {first second : List UInt8} {offset : ℕ}
    (h : ∀ i,offset≤ i → first[i]?=second[i]?) : first.drop offset=second.drop offset := by
  apply List.ext_getElem?
  intro i
  rw [List.getElem?_drop,List.getElem?_drop]
  exact h _ (by omega)

/-- A frame for another address than a configured virtual address is left
alone. -/
theorem xdpLbIngress_other {world : World} {cfg : LbConfig} {cpus : ℕ} {counters : Counters cpus}
    {cpu : Fin cpus} {prandom : UInt32} {dst : Quad}
    (hconfig : world.configMap.lookup 0=some cfg) (hvip : cfg.vip≠0)
    (hdst : slice frame 30 4=dst.toList) (hother : dst≠order.store32 cfg.vip) :
    xdpLbIngress order world counters cpu prandom frame=some ⟨.pass,frame,counters⟩ := by
  refine xdpLbIngress_otherwise _ _ fun cfg' backend hs => ?_
  cases Option.some.inj (hs.config.symm.trans hconfig)
  have hread := hs.vip.resolve_left hvip
  rw [read32_of_slice order hdst,Option.some.injEq] at hread
  exact hother (by rw [←hread,order.store32_load32])

/-- Round trip. With a virtual address and all active slots in use and
registered, a request to the virtual address reaches the picked backend, the
reply comes back from the virtual address to the client with its ICMP bytes
and a valid header, and it is not balanced again. -/
theorem nat_round_trip (order : ByteOrder) (world : World) (cfg : LbConfig)
    (hconfig : world.configMap.lookup 0=some cfg) (hvip : cfg.vip≠0) (hcount : cfg.backendCount≠0)
    (hslots : ∀ idx<cfg.backendCount,∃ info,world.backendMap.lookup idx=some info ∧
      info.ipv4≠0 ∧ world.backendIpsMap.lookup info.ipv4≠none)
    {cpus : ℕ} (counters : Counters cpus) (cpu : Fin cpus) (prandom : UInt32)
    (request : List UInt8) (client : Quad) (hrequest : PlainIcmp request)
    (hdst : slice request 30 4=(order.store32 cfg.vip).toList)
    (hsrc : slice request 26 4=client.toList) (hclient : client≠order.store32 cfg.vip) :
    ∃ info v,world.backendMap.lookup (prandom%cfg.backendCount)=some info ∧
      xdpLbIngress order world counters cpu prandom request=some v ∧
      slice v.frame 30 4=(order.store32 info.ipv4).toList ∧
      ∀ reply,Answers v.frame reply →
        ∃ out,xdpVethSnat order world reply=some (.pass,out) ∧
          slice out 26 4=(order.store32 cfg.vip).toList ∧ slice out 30 4=client.toList ∧
          out.drop 34=reply.drop 34 ∧ out.drop 38=request.drop 38 ∧
          ChecksumValid (slice out 14 20) ∧
          ∀ (counters : Counters cpus) (cpu : Fin cpus) (prandom : UInt32),
            xdpLbIngress order world counters cpu prandom out=some ⟨.pass,out,counters⟩ := by
  obtain ⟨info,hslot,haddress,hregistered⟩ := hslots _ (mod_lt_count prandom hcount)
  have hread := read32_of_slice order hdst
  rw [order.load32_store32] at hread
  obtain ⟨rewritten,hingress,hd⟩ := xdpLbIngress_selected counters cpu
    ⟨hrequest.icmp,hconfig,hcount,Or.inr hread,hslot,haddress⟩
  refine ⟨info,_,hslot,hingress,hd.daddr,fun reply ha => ?_⟩
  have hfrom := read32_of_slice order (ha.saddr.trans hd.daddr)
  rw [order.load32_store32] at hfrom
  obtain ⟨idx,hidx⟩ := Option.ne_none_iff_exists'.mp hregistered
  obtain ⟨out,hsnat,hs⟩ := @xdpVethSnat_translated order reply world cfg
    ⟨ha.plain.icmp,⟨_,_,hfrom,hidx⟩,hconfig,hvip⟩
  have hto : slice out 30 4=client.toList := by
    rw [slice_congr fun i hi _ => hs.kept i (Or.inr hi),ha.daddr,
      slice_congr fun i hi hlt => hd.kept i (by omega) (by omega),hsrc]
  refine ⟨out,hsnat,hs.saddr,hto,?_,?_,hs.checksum,fun counters cpu prandom => ?_⟩
  · exact drop_congr fun i hi => hs.kept i (by omega)
  · rw [drop_congr fun i hi => hs.kept i (by omega),ha.content,
      drop_congr fun i hi => hd.kept i (by omega) (by omega)]
  · exact xdpLbIngress_other hconfig hvip hto hclient

/-- One synced backend and the reply that it sends: the client gets it from
the virtual address. -/
theorem nat_round_trip_bridge :
    ∃ out,xdpVethSnat .little (run .little bridgePool [unhindered [bridged 2 "veth2"]]).world
        (echo 0 0x0e 0x1c ⟨172,17,0,2⟩ ⟨192,168,0,9⟩)=some (.pass,out) ∧
      slice out 26 4=[172,17,0,1] ∧ slice out 30 4=[192,168,0,9] ∧
      ChecksumValid (slice out 14 20) := by
  have hslots : ∀ idx<(1 : UInt32),∃ info,
      (run .little bridgePool [unhindered [bridged 2 "veth2"]]).world.backendMap.lookup idx=
        some info ∧ info.ipv4≠0 ∧
      (run .little bridgePool [unhindered [bridged 2 "veth2"]]).world.backendIpsMap.lookup
        info.ipv4≠none := by
    intro idx hidx
    have hzero : idx=0 := by
      rw [UInt32.lt_iff_toNat_lt] at hidx
      exact UInt32.toNat_inj.mp (Nat.lt_one_iff.mp hidx)
    rw [hzero]
    exact ⟨backendInfo .little ⟨172,17,0,2⟩ 80 [2,66,172,17,0,2],by decide,by decide,by decide⟩
  obtain ⟨info,v,_,hrun,_,hreply⟩ := nat_round_trip .little
    (run .little bridgePool [unhindered [bridged 2 "veth2"]]).world
    (lbConfig .little [172,17,0,1] 80 1 [2,66,1,2,3,4]) (by decide) (by decide) (by decide) hslots
    (.replicate maxBackends (Vector.replicate 1 ⟨0,0⟩)) (0 : Fin 1) 7
    (echo 8 0 0 ⟨192,168,0,9⟩ ⟨172,17,0,1⟩) ⟨192,168,0,9⟩ (by decide) (by decide) (by decide)
    (by decide)
  have hframe : (xdpLbIngress .little
      (run .little bridgePool [unhindered [bridged 2 "veth2"]]).world
      (.replicate maxBackends (Vector.replicate 1 ⟨0,0⟩)) (0 : Fin 1) 7
      (echo 8 0 0 ⟨192,168,0,9⟩ ⟨172,17,0,1⟩)).map Verdict.frame=
        some ([2,66,172,17,0,2,2,66,1,2,3,4]++
          (echo 8 0x0e 0x1c ⟨192,168,0,9⟩ ⟨172,17,0,2⟩).drop 12) := by decide
  rw [hrun,Option.map_some,Option.some_inj] at hframe
  rw [hframe] at hreply
  obtain ⟨out,hsnat,hfrom,hto,_,_,hvalid,_⟩ := hreply
    (echo 0 0x0e 0x1c ⟨172,17,0,2⟩ ⟨192,168,0,9⟩)
    ⟨by decide,by decide,by decide,by decide,by decide⟩
  exact ⟨out,hsnat,hfrom,hto,hvalid⟩

/-- Replies are translated by their source alone. With a virtual address, a
request for another address is left alone. The answer that its destination
sends back keeps its source if and only if that is not registered or is the
virtual address itself; a registered source is replaced by the virtual
address. -/
theorem direct_reply_source (order : ByteOrder) (world : World) (cfg : LbConfig)
    (hconfig : world.configMap.lookup 0=some cfg) (hvip : cfg.vip≠0) {cpus : ℕ}
    (counters : Counters cpus) (cpu : Fin cpus) (prandom : UInt32) (request reply : List UInt8)
    (dst : Quad) (hdst : slice request 30 4=dst.toList) (hreply : IcmpFrame order reply)
    (hsrc : slice reply 26 4=dst.toList) :
    (dst≠order.store32 cfg.vip →
      xdpLbIngress order world counters cpu prandom request=some ⟨.pass,request,counters⟩) ∧
    ∃ out,xdpVethSnat order world reply=some (.pass,out) ∧
      (slice out 26 4=dst.toList ↔
        world.backendIpsMap.lookup (order.load32 dst)=none ∨ dst=order.store32 cfg.vip) ∧
      (world.backendIpsMap.lookup (order.load32 dst)≠none →
        slice out 26 4=(order.store32 cfg.vip).toList) := by
  refine ⟨xdpLbIngress_other hconfig hvip hdst,?_⟩
  have hread := read32_of_slice order hsrc
  cases hlookup : world.backendIpsMap.lookup (order.load32 dst) with
  | none =>
    refine ⟨reply,xdpVethSnat_otherwise fun cfg' ht => ?_,by simp [hsrc],by simp⟩
    obtain ⟨saddr,idx,hsaddr,hidx⟩ := ht.registered
    rw [hread,Option.some.injEq] at hsaddr
    rw [←hsaddr,hlookup] at hidx
    contradiction
  | some idx =>
    obtain ⟨out,hout,hs⟩ := xdpVethSnat_translated
      ⟨hreply,⟨_,idx,hread,hlookup⟩,hconfig,hvip⟩
    refine ⟨out,hout,?_,fun _ => hs.saddr⟩
    rw [hs.saddr,Quad.toList_inj]
    simp [eq_comm]

/-- A backend that is pinged directly answers from the virtual address. -/
theorem direct_reply_from_vip :
    xdpLbIngress .little (run .little bridgePool [unhindered [bridged 2 "veth2"]]).world
        (.replicate maxBackends (Vector.replicate 1 ⟨0,0⟩)) (0 : Fin 1) 7
        (echo 8 0 0 ⟨192,168,0,9⟩ ⟨172,17,0,2⟩)=
        some ⟨.pass,echo 8 0 0 ⟨192,168,0,9⟩ ⟨172,17,0,2⟩,
          .replicate maxBackends (Vector.replicate 1 ⟨0,0⟩)⟩ ∧
      ∃ out,xdpVethSnat .little (run .little bridgePool [unhindered [bridged 2 "veth2"]]).world
          (echo 0 0x0e 0x1c ⟨172,17,0,2⟩ ⟨192,168,0,9⟩)=some (.pass,out) ∧
        slice out 26 4=[172,17,0,1] := by
  refine ⟨by decide,_,rfl,by decide⟩

/-- A container that is not a backend answers from its own address. -/
theorem direct_reply_source_unregistered :
    ∃ out,xdpVethSnat .little (run .little bridgePool [unhindered [bridged 2 "veth2"]]).world
        (echo 0 0x0e 0x1c ⟨172,17,0,9⟩ ⟨192,168,0,9⟩)=some (.pass,out) ∧
      slice out 26 4=[172,17,0,9] := by
  obtain ⟨out,hout,hsource,_⟩ := (direct_reply_source .little
    (run .little bridgePool [unhindered [bridged 2 "veth2"]]).world _ rfl (by decide)
    (ArrayMap.replicate maxBackends (Vector.replicate 1 ⟨0,0⟩)) (0 : Fin 1) 7
    (echo 8 0 0 ⟨192,168,0,9⟩ ⟨172,17,0,9⟩) (echo 0 0x0e 0x1c ⟨172,17,0,9⟩ ⟨192,168,0,9⟩)
    ⟨172,17,0,9⟩ (by decide) (by decide) (by decide)).2
  exact ⟨out,hout,hsource.mpr (Or.inl (by decide))⟩

end ContainerLb.NatRoundTrip

import ContainerLb.Datagrams
import ContainerLb.HeaderChecksum
import ContainerLb.DnatRefinement
import ContainerLb.Convergence

/-!
# The packet programs as a service on datagrams

On the frame of a datagram without options both programs act member by
member: what they leave is again the frame of a datagram, with the hops and
addresses that a service over the synced list gives it. Frames whose maps are
the image of a list are thus handled as the service hides its members behind
the virtual address, and byte order, offsets and checksums are not visible
any more.
-/

namespace ContainerLb.DatagramPath

open CallProgram BoundedMaps HostBytes NetAddresses InternetChecksum HeaderChecksum BpfManager
open PoolSync ManagerSteps SyncEffects PoolRuns PacketPath PacketEffects DnatRefinement Convergence
open Balancing Datagrams

variable {order : ByteOrder} {d : Datagram} {check : UInt16}

/-- Datagrams that are balanced: control messages. -/
def Icmp (content : Content) : Prop := content.protocol=1

instance : DecidablePred Icmp := fun content => inferInstanceAs (Decidable (content.protocol=1))

/-- The checks of both programs accept exactly the control messages. -/
theorem icmpFrame_iff : IcmpFrame order (frameOf d check) ↔ Icmp d.content := by
  have hlength := length_frameOf d check
  constructor
  · rintro ⟨_,_,_,hprotocol,_⟩
    exact Option.some.inj ((getElem?_protocol d check).symm.trans hprotocol)
  · intro hicmp
    obtain ⟨htype,hzero⟩ := getElem?_type d check
    have hpayload := d.content.complete hicmp
    refine PlainIcmp.icmp ⟨by omega,htype,hzero,getElem?_first d check,?_⟩
    rw [getElem?_protocol,show d.content.protocol=1 from hicmp]

/-- The header without its checksum. -/
theorem zeroedHeader_frameOf (d : Datagram) (check : UInt16) :
    zeroedHeader (frameOf d check) 14=ipHeader d 0 := by
  have hbefore : slice (frameOf d check) 14 10=_ := @slice_ip_part d check 0 10 (by decide)
  have hbehind : slice (frameOf d check) 26 8=_ := @slice_ip_part d check 12 8 (by decide)
  rw [zeroedHeader,hbefore,hbehind]
  rfl

/-- `update_ip_csum` completes the frame of a datagram. -/
theorem updateIpCsum_frameOf (order : ByteOrder) (d : Datagram) (check : UInt16) :
    updateIpCsum order (frameOf d check) 14=some (serialize d) := by
  have hlength := length_frameOf d check
  rw [updateIpCsum_eq order (by omega),zeroedHeader_frameOf,write_check]
  rfl

/-- The rewrite for a backend sends the datagram on to it. -/
theorem dnat_serialize (order : ByteOrder) (cfg : LbConfig) (backend : BackendInfo) (d : Datagram) :
    dnat order cfg backend (serialize d)=
      some (serialize (d.redirect cfg.srcMac (order.store32 backend.ipv4,backend.mac))) := by
  simp only [dnat,serialize,write_dstLink,write_srcLink,write_dst,updateIpCsum_frameOf,
    Option.bind_eq_bind,Option.bind_some]
  rfl

/-- The rewrite of a reply changes its sender. -/
theorem snat_serialize (order : ByteOrder) (vip : UInt32) (d : Datagram) :
    snat order vip (serialize d)=some (serialize {d with src := order.store32 vip}) := by
  simp only [snat,serialize,write_src,updateIpCsum_frameOf,Option.bind_eq_bind,Option.bind_some]

/-- With a picked backend the program leaves what the rewrite leaves. -/
theorem xdpLbIngress_rewrite {cpus : ℕ} {world : World} {counters : Counters cpus} {cpu : Fin cpus}
    {prandom : UInt32} {cfg : LbConfig} {backend : BackendInfo} {frame rewritten : List UInt8}
    (h : Selects order world prandom frame cfg backend)
    (hdnat : dnat order cfg backend frame=some rewritten) :
    xdpLbIngress order world counters cpu prandom frame=some ⟨.pass,rewritten,
      countFrame counters cpu (prandom%cfg.backendCount) frame.length⟩ := by
  obtain ⟨quad,_,_,hread⟩ := h.icmp.read32 (Nat.le_refl 30)
  have haccept : ¬(cfg.vip≠0 ∧ order.load32 quad≠cfg.vip) := by
    rintro ⟨hv,hd⟩
    exact h.vip.elim hv fun hsame => hd (Option.some.inj (hread.symm.trans hsame))
  simp only [xdpLbIngress,isIcmp_value,h.icmp,h.config,hread,h.slot,hdnat,decide_true,
    Option.bind_eq_bind,Option.bind_some,Bool.not_true,Bool.false_eq_true,if_false,
    if_neg h.count,if_neg haccept,if_neg h.address]
  rfl

/-- With all checks the program leaves what the rewrite leaves. -/
theorem xdpVethSnat_rewrite {world : World} {cfg : LbConfig} {frame rewritten : List UInt8}
    (h : Translates order world frame cfg) (hsnat : snat order cfg.vip frame=some rewritten) :
    xdpVethSnat order world frame=some (.pass,rewritten) := by
  obtain ⟨saddr,idx,hread,hlookup⟩ := h.registered
  simp only [xdpVethSnat,isIcmp_value,h.icmp,h.config,hread,hlookup,hsnat,decide_true,
    Option.bind_eq_bind,Option.bind_some,Bool.not_true,Bool.false_eq_true,if_false,if_neg h.vip]
  rfl

/-- The virtual address, absent when it is 0.0.0.0 or not IPv4. -/
def vipOf (vip : IP) : Option Quad := vip.to4.filter fun v4 => v4≠⟨0,0,0,0⟩

/-- The service over a list: its elements are the members, behind the virtual
address. -/
def serviceOf (vip : IP) (srcMAC : HardwareAddr) (backends : List Backend) : Service Quad Mac where
  vip := vipOf vip
  gateway := macBytes srcMAC
  members := backends.map fun b => (b.ip.to4.getD ⟨0,0,0,0⟩,macBytes b.mac)

/-- The configured number is that of the address of the service, or zero. -/
theorem lbConfig_vip (vip : IP) (vport : UInt16) (count : UInt32) (srcMAC : HardwareAddr) :
    (lbConfig order vip vport count srcMAC).vip=((vipOf vip).map order.load32).getD 0 := by
  have hzero : order.load32 ⟨0,0,0,0⟩=0 := order.load32_eq_zero.mpr rfl
  change (vip.to4.map order.load32).getD 0=_
  rw [vipOf]
  cases vip.to4 with
  | none => rfl
  | some v4 =>
    by_cases hv : v4=⟨0,0,0,0⟩
    · simp [Option.filter,hv,hzero]
    · simp [Option.filter,hv]

/-- The number is zero exactly without an address of the service. -/
theorem lbConfig_vip_eq_zero {vip : IP} {vport : UInt16} {count : UInt32} {srcMAC : HardwareAddr} :
    (lbConfig order vip vport count srcMAC).vip=0 ↔ vipOf vip=none := by
  rw [lbConfig_vip]
  cases hvip : vipOf vip with
  | none => simp
  | some v4 =>
    have hne : v4≠⟨0,0,0,0⟩ := by simpa using (Option.filter_eq_some_iff.mp hvip).2
    simpa [order.load32_eq_zero] using hne

section Image

variable {s : State} {backends : List Backend} {cpus : ℕ} {counters : Counters cpus}
variable {cpu : Fin cpus} {prandom : UInt32}

/-- The destination passes the test of the program exactly when the service
takes it. -/
theorem accepted_iff {vip : IP} {vport : UInt16} {count : UInt32} {srcMAC : HardwareAddr} :
    ((lbConfig order vip vport count srcMAC).vip=0 ∨ read32 order (frameOf d check) 30=
      some (lbConfig order vip vport count srcMAC).vip) ↔ ∀ v4∈vipOf vip,d.dst=v4 := by
  rw [read32_of_slice order (slice_dst d check),lbConfig_vip_eq_zero,lbConfig_vip]
  cases vipOf vip with
  | none => simp
  | some v4 => simp [order.load32_inj]

/-- The member for a random number is the element at the reduced position. -/
theorem serviceOf_pick (vip : IP) (srcMAC : HardwareAddr) (backends : List Backend) (draw : ℕ) :
    (serviceOf vip srcMAC backends).pick draw=backends[draw%backends.length]?.map fun b =>
      (b.ip.to4.getD ⟨0,0,0,0⟩,macBytes b.mac) := by
  simp [Service.pick,serviceOf]

/-- The service leaves a datagram that it does not take or has nobody for. -/
theorem forward_unless {vip : IP} {srcMAC : HardwareAddr} {draw : ℕ}
    (h : ¬((serviceOf vip srcMAC backends).Accepts Icmp d ∧ backends≠[])) :
    (serviceOf vip srcMAC backends).forward Icmp draw d=d := by
  rw [Service.forward]
  split
  · rename_i haccepts
    obtain rfl : backends=[] := by_contra fun hne => h ⟨haccepts,hne⟩
    rfl
  · rfl

/-- The rewrite for the picked element is what the service does. -/
theorem dnat_forwards {vip : IP} {srcMAC : HardwareAddr} {draw : ℕ} {b : Backend} {v4 : Quad}
    {cfg : LbConfig} (hmac : cfg.srcMac=macBytes srcMAC)
    (haccepts : (serviceOf vip srcMAC backends).Accepts Icmp d)
    (hb : backends[draw%backends.length]?=some b) (hv : b.ip.to4=some v4) :
    dnat order cfg (backendInfo order v4 b.port b.mac) (serialize d)=
      some (serialize ((serviceOf vip srcMAC backends).forward Icmp draw d)) := by
  have hpick := serviceOf_pick vip srcMAC backends draw
  rw [hb,Option.map_some,hv,Option.getD_some] at hpick
  rw [dnat_serialize,Service.forward_of_accepts haccepts hpick,hmac,
    show order.store32 (backendInfo order v4 _ _).ipv4=v4 from order.store32_load32 v4]
  rfl

/-- No frame is rewritten that the service does not take. -/
theorem not_selects (h : Image order s backends)
    (hother : ¬((serviceOf s.pool.vip s.pool.srcMAC backends).Accepts Icmp d ∧ backends≠[]))
    (cfg : LbConfig) (info : BackendInfo) :
    ¬Selects order s.world prandom (serialize d) cfg info := by
  intro hs
  cases Option.some.inj (hs.config.symm.trans h.config)
  refine hother ⟨⟨icmpFrame_iff.mp hs.icmp,accepted_iff.mp hs.vip⟩,?_⟩
  rintro rfl
  exact hs.count rfl

/-- At the image of a list the ingress program forwards as the service over
the list does. -/
theorem ingress_forwards (h : Image order s backends)
    (hzero : ∀ b∈backends,b.ip.to4≠some ⟨0,0,0,0⟩) (d : Datagram) :
    ∃ after,xdpLbIngress order s.world counters cpu prandom (serialize d)=some ⟨.pass,
      serialize ((serviceOf s.pool.vip s.pool.srcMAC backends).forward Icmp prandom.toNat d),
      after⟩ := by
  by_cases htaken : (serviceOf s.pool.vip s.pool.srcMAC backends).Accepts Icmp d ∧ backends≠[]
  · obtain ⟨haccepts,hne⟩ := htaken
    have hb := List.getElem?_eq_getElem (Nat.mod_lt prandom.toNat (List.length_pos_of_ne_nil hne))
    obtain ⟨v4,hv,hslot⟩ := h.slots _ _ hb
    have hselects : Selects order s.world prandom (serialize d) _ _ :=
      ⟨icmpFrame_iff.mpr haccepts.1,h.config,
        ofNat_ne_zero h.bounded (List.length_pos_of_ne_nil hne).ne',accepted_iff.mpr haccepts.2,
        (congrArg _ (prandom_mod h.bounded)).trans hslot,
        backendInfo_ipv4.mpr fun he => hzero _ (List.mem_of_getElem? hb) (he ▸ hv)⟩
    exact ⟨_,xdpLbIngress_rewrite hselects (dnat_forwards rfl haccepts hb hv)⟩
  · rw [forward_unless htaken]
    exact ⟨counters,xdpLbIngress_otherwise counters cpu (not_selects h htaken)⟩

/-- Exactly the members are registered. -/
theorem registered_iff (h : Image order s backends) :
    (∃ saddr idx,read32 order (frameOf d check) 26=some saddr ∧
      s.world.backendIpsMap.lookup saddr=some idx) ↔
    d.src∈(serviceOf s.pool.vip s.pool.srcMAC backends).members.map Prod.fst := by
  rw [read32_of_slice order (slice_src d check)]
  simp only [Option.some_inj,serviceOf,List.map_map,List.mem_map,Function.comp_apply]
  constructor
  · rintro ⟨_,idx,rfl,hlookup⟩
    obtain ⟨i,b,hb,hkey,_⟩ := (h.keys _ _).mp hlookup
    obtain ⟨v4,hv,hload⟩ := Option.map_eq_some_iff.mp hkey
    refine ⟨b,List.mem_of_getElem? hb,?_⟩
    rw [hv,Option.getD_some,order.load32_inj.mp hload]
  · rintro ⟨b,hb,hsrc⟩
    obtain ⟨i,hi⟩ := List.mem_iff_getElem?.mp hb
    obtain ⟨v4,hv,_⟩ := h.slots i b hi
    rw [hv,Option.getD_some] at hsrc
    subst hsrc
    exact ⟨_,_,rfl,(h.keys _ _).mpr ⟨i,b,hi,by rw [ipKey,hv,Option.map_some],rfl⟩⟩

/-- At the image of a list the veth program returns as the service over the
list does. -/
theorem veth_returns (h : Image order s backends) (d : Datagram) :
    xdpVethSnat order s.world (serialize d)=
      some (.pass,serialize ((serviceOf s.pool.vip s.pool.srcMAC backends).back Icmp d)) := by
  have hvip : (serviceOf s.pool.vip s.pool.srcMAC backends).vip=vipOf s.pool.vip := rfl
  rw [Service.back,hvip]
  cases hv : vipOf s.pool.vip with
  | none =>
    refine xdpVethSnat_otherwise fun cfg ht => ht.vip ?_
    cases Option.some.inj (ht.config.symm.trans h.config)
    exact lbConfig_vip_eq_zero.mpr hv
  | some v4 =>
    by_cases hmember : Icmp d.content ∧
        d.src∈(serviceOf s.pool.vip s.pool.srcMAC backends).members.map Prod.fst
    · have hne : (lbConfig order s.pool.vip s.pool.vport (UInt32.ofNat backends.length)
          s.pool.srcMAC).vip≠0 := fun hz => by
        rw [lbConfig_vip_eq_zero,hv] at hz
        contradiction
      have htranslates : Translates order s.world (serialize d) _ :=
        ⟨icmpFrame_iff.mpr hmember.1,(registered_iff h).mpr hmember.2,h.config,hne⟩
      rw [xdpVethSnat_rewrite htranslates (snat_serialize ..),lbConfig_vip,hv,Option.map_some,
        Option.getD_some,order.store32_load32]
      simp only [if_pos hmember]
    · simp only [if_neg hmember]
      refine xdpVethSnat_otherwise fun cfg ht => hmember ?_
      exact ⟨icmpFrame_iff.mp ht.icmp,(registered_iff h).mp ht.registered⟩

end Image

end ContainerLb.DatagramPath

import ContainerLb.PacketEffects
import ContainerLb.PoolRuns

/-!
# Load balancing over the synced list

The purpose of the balancer in terms of lists: a random number picks an
element and the frame is addressed to it. After a successful reconciliation
the packet program does exactly that for every eligible frame, whatever
failed in earlier reconciliations. Frames change counters only, so this
holds for every frame until the maps are written again.
-/

namespace ContainerLb.DnatRefinement

open CallProgram BoundedMaps HostBytes NetAddresses BpfManager PoolSync ManagerSteps
open SyncPhases SyncEffects SyncContract PoolRuns PacketPath PacketEffects

/-- The element that a random number picks. -/
def pick (backends : List Backend) (prandom : UInt32) : Option Backend :=
  backends[prandom.toNat%backends.length]?

/-- The destination is the virtual IPv4 address, or that is 0.0.0.0. -/
def DestinedFor (vip : IP) (frame : List UInt8) : Prop :=
  ∃ v4∈vip.to4,v4=⟨0,0,0,0⟩ ∨ slice frame 30 4=v4.toList

instance (vip : IP) (frame : List UInt8) : Decidable (DestinedFor vip frame) :=
  inferInstanceAs (Decidable (∃ v4∈vip.to4,_))

/-- Frames to balance: ICMP over IPv4 for the virtual address. -/
def Eligible (order : ByteOrder) (vip : IP) (frame : List UInt8) : Prop :=
  IcmpFrame order frame ∧ DestinedFor vip frame

instance (order : ByteOrder) (vip : IP) (frame : List UInt8) :
    Decidable (Eligible order vip frame) := inferInstanceAs (Decidable (_ ∧ _))

/-- A frame carries the address and the hardware address of a backend. -/
def AddressedTo (b : Backend) (frame : List UInt8) : Prop :=
  slice frame 0 6=(macBytes b.mac).toList ∧ some (slice frame 30 4)=b.ip.to4.map Quad.toList

variable {order : ByteOrder} {vip : IP} {frame : List UInt8} {prandom : UInt32} {world : World}

/-- Six bytes are copied as they are. -/
theorem macBytes_toList {mac : HardwareAddr} (h : mac.length=6) : (macBytes mac).toList=mac := by
  rw [macBytes,dif_pos h]
  rfl

/-- The reduced random number as an index. -/
theorem prandom_mod {count : ℕ} (hc : count≤ maxBackends) :
    prandom%UInt32.ofNat count=UInt32.ofNat (prandom.toNat%count) := by
  have hn := toNat_ofNat_of_le hc
  rw [←UInt32.toNat_inj,UInt32.toNat_mod,hn]
  refine (UInt32.toNat_ofNat_of_lt' ?_).symm
  exact (Nat.mod_le _ _).trans_lt prandom.toNat_lt

/-- Positions are indices different from zero when the list is not empty. -/
theorem ofNat_ne_zero {count : ℕ} (hc : count≤ maxBackends) (hpos : count≠0) :
    UInt32.ofNat count≠0 := fun h => hpos ((ofNat_inj_of_le hc (Nat.zero_le _)).mp h)

/-- The configured virtual address accepts the destination of an eligible
frame. -/
theorem Eligible.accepted {vport : UInt16} {count : UInt32} {srcMAC : HardwareAddr}
    (he : Eligible order vip frame) :
    (lbConfig order vip vport count srcMAC).vip=0 ∨
      read32 order frame 30=some (lbConfig order vip vport count srcMAC).vip := by
  obtain ⟨hicmp,v4,hv,hdest⟩ := he
  obtain ⟨quad,_,hslice,hread⟩ := hicmp.read32 (Nat.le_refl 30)
  have hvip : (lbConfig order vip vport count srcMAC).vip=order.load32 v4 := by
    rw [lbConfig,Option.mem_def.mp hv]
    rfl
  rw [hvip]
  rcases hdest with rfl|hsame
  · exact Or.inl (order.load32_eq_zero.mpr rfl)
  · right
    rw [hread,Quad.toList_inj.mp (hslice.symm.trans hsame)]

/-- The value written for a backend is in use exactly when its address is
not 0.0.0.0. -/
theorem backendInfo_ipv4 {v4 : Quad} {port : UInt16} {mac : HardwareAddr} :
    (backendInfo order v4 port mac).ipv4≠0 ↔ v4≠⟨0,0,0,0⟩ :=
  not_iff_not.mpr order.load32_eq_zero

/-- A frame rewritten for the encoding of a backend is addressed to it. -/
theorem Selects.addressed {cfg : LbConfig} {b : Backend} {v4 : Quad} {cpus : ℕ}
    (counters : Counters cpus) (cpu : Fin cpus) (hv : b.ip.to4=some v4)
    (hs : Selects order world prandom frame cfg (backendInfo order v4 b.port b.mac)) :
    ∃ v,xdpLbIngress order world counters cpu prandom frame=some v ∧ AddressedTo b v.frame ∧
      slice v.frame 6 6=cfg.srcMac.toList := by
  obtain ⟨rewritten,hrun,hd⟩ := xdpLbIngress_selected counters cpu hs
  have haddress : order.store32 (backendInfo order v4 b.port b.mac).ipv4=v4 :=
    order.store32_load32 v4
  refine ⟨_,hrun,⟨hd.dstMac,?_⟩,hd.srcMac⟩
  rw [hv,Option.map_some,hd.daddr,haddress]

/-- For an eligible frame all checks hold when the picked slot holds a backend. -/
theorem Eligible.selects {vport : UInt16} {srcMAC : HardwareAddr} {count : ℕ} {b : Backend}
    {v4 : Quad} (he : Eligible order vip frame) (hcount : count≤ maxBackends) (hpos : count≠0)
    (hconfig : world.configMap.lookup 0=
      some (lbConfig order vip vport (UInt32.ofNat count) srcMAC))
    (hv : b.ip.to4=some v4) (hip : b.ip.to4≠some ⟨0,0,0,0⟩)
    (hlookup : world.backendMap.lookup (UInt32.ofNat (prandom.toNat%count))=
      some (backendInfo order v4 b.port b.mac)) :
    Selects order world prandom frame (lbConfig order vip vport (UInt32.ofNat count) srcMAC)
      (backendInfo order v4 b.port b.mac) := by
  refine ⟨he.1,hconfig,ofNat_ne_zero hcount hpos,he.accepted,?_,backendInfo_ipv4.mpr ?_⟩
  · change world.backendMap.lookup (prandom%UInt32.ofNat count)=_
    rw [prandom_mod hcount]
    exact hlookup
  · rintro rfl
    exact hip hv

/-- An eligible frame whose picked slot holds a backend is addressed to it. -/
theorem eligible_addressed {vport : UInt16} {srcMAC : HardwareAddr} {count : ℕ} {b : Backend}
    {cpus : ℕ} {counters : Counters cpus} {cpu : Fin cpus} (he : Eligible order vip frame)
    (hcount : count≤ maxBackends) (hpos : count≠0)
    (hconfig : world.configMap.lookup 0=
      some (lbConfig order vip vport (UInt32.ofNat count) srcMAC))
    (hslot : InSlot order world (prandom.toNat%count) b) (hip : b.ip.to4≠some ⟨0,0,0,0⟩) :
    ∃ v,xdpLbIngress order world counters cpu prandom frame=some v ∧ AddressedTo b v.frame ∧
      slice v.frame 6 6=(macBytes srcMAC).toList := by
  obtain ⟨v4,hv,hlookup⟩ := hslot
  exact Selects.addressed counters cpu hv (he.selects hcount hpos hconfig hv hip hlookup)

/-- Without active backends no frame changes. -/
theorem ingress_of_empty {cpus : ℕ} {counters : Counters cpus} {cpu : Fin cpus} {cfg : LbConfig}
    (hconfig : world.configMap.lookup 0=some cfg) (hcount : cfg.backendCount=0) :
    xdpLbIngress order world counters cpu prandom frame=some ⟨.pass,frame,counters⟩ := by
  refine xdpLbIngress_otherwise _ _ fun found backend h => h.count ?_
  have hsame : cfg=found := Option.some.inj (hconfig.symm.trans h.config)
  rw [←hsame]
  exact hcount

/-- What a successful reconciliation leaves behind after any run: a
configuration for the whole list, and each element in its slot. -/
theorem run_filled {vip : IP} {vport : UInt16} {srcMAC : HardwareAddr} {attempts : List Attempt}
    {a : Attempt} (hok : Succeeds order (run order (initial vip vport srcMAC) attempts) a) :
    a.newBackends.length≤ maxBackends ∧
      (run order (initial vip vport srcMAC) (attempts++[a])).world.configMap.lookup 0=
        some (lbConfig order vip vport (UInt32.ofNat a.newBackends.length) srcMAC) ∧
      ∀ j b,a.newBackends[j]?=some b →
        InSlot order (run order (initial vip vport srcMAC) (attempts++[a])).world j b := by
  have hc := attempt_contract order (run order (initial vip vport srcMAC) attempts) a
  obtain ⟨hvip,hport,hmac⟩ := run_settings order vip vport srcMAC attempts
  obtain ⟨_,hlen,hconfig⟩ := hc.done hok
  rw [poolConfig,hvip,hport,hmac] at hconfig
  rw [run_concat]
  exact ⟨hlen,hconfig,hc.filled hok⟩

/-- Refinement of the list. After any run, whatever failed in it, and a
successful last reconciliation, every eligible frame is addressed to the
picked element, with the configured source hardware address. After the
empty list no frame changes. -/
theorem ingress_refines_list (order : ByteOrder) (vip : IP) (vport : UInt16)
    (srcMAC : HardwareAddr) (attempts : List Attempt) (a : Attempt)
    (hok : Succeeds order (run order (initial vip vport srcMAC) attempts) a) {cpus : ℕ}
    (counters : Counters cpus) (cpu : Fin cpus) (prandom : UInt32) (frame : List UInt8) :
    (a.newBackends≠[] →
      (∀ b∈a.newBackends,b.ip.to4≠some ⟨0,0,0,0⟩ ∧ b.mac.length=6) → srcMAC.length=6 →
      Eligible order vip frame →
      ∃ b v4 v,pick a.newBackends prandom=some b ∧ b.ip.to4=some v4 ∧
        xdpLbIngress order (run order (initial vip vport srcMAC) (attempts++[a])).world counters
          cpu prandom frame=some v ∧
        slice v.frame 30 4=v4.toList ∧ slice v.frame 0 6=b.mac ∧ slice v.frame 6 6=srcMAC) ∧
    (a.newBackends=[] →
      xdpLbIngress order (run order (initial vip vport srcMAC) (attempts++[a])).world counters
        cpu prandom frame=some ⟨.pass,frame,counters⟩) := by
  obtain ⟨hlen,hconfig,hfilled⟩ := run_filled hok
  constructor
  · intro hne hvalid hsrc heligible
    have hpos : a.newBackends.length≠0 := fun h => hne (List.length_eq_zero_iff.mp h)
    have hlt : prandom.toNat%a.newBackends.length<a.newBackends.length :=
      Nat.mod_lt _ (Nat.pos_of_ne_zero hpos)
    have hpick := List.getElem?_eq_getElem hlt
    obtain ⟨hip,hsix⟩ := hvalid _ (List.getElem_mem hlt)
    obtain ⟨v4,hv,hlookup⟩ := hfilled _ _ hpick
    obtain ⟨v,hrun,⟨hdst,hdaddr⟩,hsource⟩ :=
      @eligible_addressed _ _ _ _ _ _ _ _ _ _ counters cpu heligible hlen hpos hconfig
        ⟨v4,hv,hlookup⟩ hip
    rw [macBytes_toList hsix] at hdst
    rw [macBytes_toList hsrc] at hsource
    rw [hv,Option.map_some,Option.some_inj] at hdaddr
    exact ⟨_,v4,v,hpick,hv,hrun,hdaddr,hdst,hsource⟩
  · intro hempty
    refine ingress_of_empty hconfig ?_
    rw [hempty]
    rfl

/-- An echo message without payload, for concrete runs. -/
def echo (kind check check' : UInt8) (saddr daddr : Quad) : List UInt8 :=
  [2,66,1,2,3,4,2,66,9,9,9,9,0x08,0x00,
    0x45,0,0,28,0,1,0,0,64,1,check,check']++saddr.toList++daddr.toList++[kind,0,0xf7,0xfd,0,1,0,1]

/-- A list synced after a failed attempt: an odd number picks the second
element. -/
theorem ingress_refines_after_refused_attach :
    ∃ b v4 v,pick [bridged 2 "veth2",bridged 3 "veth3"] 7=some b ∧ b.ip.to4=some v4 ∧
      xdpLbIngress .little (run .little (initial [172,17,0,1] 80 [2,66,1,2,3,4])
        ([⟨[bridged 4 "veth4"],storedOrder,[noFault,noFault,⟨some (.other 16),some (.other 16)⟩]⟩]++
          [unhindered [bridged 2 "veth2",bridged 3 "veth3"]])).world
        (.replicate maxBackends (Vector.replicate 1 ⟨0,0⟩)) (0 : Fin 1) 7
        (echo 8 0 0 ⟨192,168,0,9⟩ ⟨172,17,0,1⟩)=some v ∧
      slice v.frame 30 4=v4.toList ∧ slice v.frame 0 6=b.mac ∧
        slice v.frame 6 6=[2,66,1,2,3,4] :=
  (ingress_refines_list .little [172,17,0,1] 80 [2,66,1,2,3,4]
    [⟨[bridged 4 "veth4"],storedOrder,[noFault,noFault,⟨some (.other 16),some (.other 16)⟩]⟩]
    (unhindered [bridged 2 "veth2",bridged 3 "veth3"]) (by decide)
    (.replicate maxBackends (Vector.replicate 1 ⟨0,0⟩)) (0 : Fin 1) 7
    (echo 8 0 0 ⟨192,168,0,9⟩ ⟨172,17,0,1⟩)).1 (by decide) (by decide) (by decide) (by decide)

end ContainerLb.DnatRefinement

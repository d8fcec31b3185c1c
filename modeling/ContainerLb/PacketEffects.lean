import ContainerLb.PacketPath

/-!
# What the packet programs do to a frame

Every run of the two programs stays inside the frame, returns the pass
action and rewrites the frame exactly when all checks and lookups hold. A
rewrite replaces its address fields, leaves a valid header checksum and
keeps all other bytes.
-/

namespace ContainerLb.PacketEffects

open BoundedMaps HostBytes InternetChecksum BpfManager PacketPath

variable {order : ByteOrder} {frame : List UInt8}

/-- IPv4 by its type field, ICMP by its protocol field, and long enough for
the fixed header and for the ICMP header behind the options. -/
def IcmpFrame (order : ByteOrder) (frame : List UInt8) : Prop :=
  34≤frame.length ∧ frame[12]?=some 0x08 ∧ frame[13]?=some 0x00 ∧ frame[23]?=some 1 ∧
    14+ihl order (frame[14]?.getD 0)*4+8≤frame.length

instance (order : ByteOrder) (frame : List UInt8) : Decidable (IcmpFrame order frame) :=
  inferInstanceAs (Decidable (_ ∧ _))

/-- ICMP over IPv4 with a header of twenty bytes. -/
def PlainIcmp (frame : List UInt8) : Prop :=
  42≤frame.length ∧ frame[12]?=some 0x08 ∧ frame[13]?=some 0x00 ∧ frame[14]?=some 0x45 ∧
    frame[23]?=some 1

instance (frame : List UInt8) : Decidable (PlainIcmp frame) :=
  inferInstanceAs (Decidable (_ ∧ _))

/-- Both programs accept a plain frame in either byte order. -/
theorem PlainIcmp.icmp (h : PlainIcmp frame) : IcmpFrame order frame := by
  obtain ⟨hlen,h12,h13,h14,h23⟩ := h
  refine ⟨by omega,h12,h13,h23,?_⟩
  rw [h14,Option.getD_some]
  have hihl : ihl order 0x45≤5 := by cases order <;> decide
  omega

/-- Two present bytes load as a number. -/
theorem read16_of_getElem? {offset : ℕ} {first second : UInt8} (hf : frame[offset]?=some first)
    (hs : frame[offset+1]?=some second) :
    read16 order frame offset=some (order.load16 first second) := by
  simp [read16,hf,hs]

/-- The type field is compared byte by byte as sent. -/
theorem load16_eq_ethPIp (order : ByteOrder) (first second : UInt8) :
    order.load16 first second=htons order ethPIp ↔ first=0x08 ∧ second=0x00 := by
  have hf := first.toNat_lt
  have hs := second.toNat_lt
  rw [←UInt16.toNat_inj,←UInt8.toNat_inj,←UInt8.toNat_inj,load16_toNat]
  cases order with
  | little =>
    have hvalue : (htons .little ethPIp).toNat=8 := by decide
    simp only [hvalue,UInt8.reduceToNat]
    omega
  | big =>
    have hvalue : (htons .big ethPIp).toNat=2048 := by decide
    simp only [hvalue,UInt8.reduceToNat]
    omega

/-- The checks read inside the frame and decide exactly `IcmpFrame`. -/
theorem isIcmp_value (order : ByteOrder) (frame : List UInt8) :
    isIcmp order frame=some (decide (IcmpFrame order frame)) := by
  unfold isIcmp
  by_cases hEth : frame.length<14
  · have hno : ¬IcmpFrame order frame := fun h => by
      have := h.1
      omega
    simp [hEth,hno]
  · have h12 := List.getElem?_eq_getElem (show 12<frame.length by omega)
    have h13 := List.getElem?_eq_getElem (show 13<frame.length by omega)
    rw [if_neg hEth,read16_of_getElem? h12 h13,Option.bind_eq_bind,Option.bind_some]
    by_cases hType : order.load16 frame[12] frame[13]=htons order ethPIp
    · rw [if_neg (not_not.mpr hType)]
      obtain ⟨hx,hy⟩ := (load16_eq_ethPIp order _ _).mp hType
      rw [hx] at h12
      rw [hy] at h13
      by_cases hIp : frame.length<34
      · have hno : ¬IcmpFrame order frame := fun h => by
          have := h.1
          omega
        simp [hIp,hno]
      · have h23 := List.getElem?_eq_getElem (show 23<frame.length by omega)
        have h14 := List.getElem?_eq_getElem (show 14<frame.length by omega)
        simp only [IcmpFrame,h12,h13,h23,h14,readByte,ipprotoIcmp,Option.bind_eq_bind,
          Option.bind_some,Option.getD_some,Option.some_inj,if_neg hIp]
        by_cases hProto : frame[23]=1
        · simp only [hProto,ne_eq,not_true_eq_false,if_false,true_and]
          by_cases hIcmp : frame.length<14+ihl order frame[14]*4+8
          · rw [if_pos hIcmp,decide_eq_false (by omega)]
            rfl
          · rw [if_neg hIcmp,decide_eq_true (by omega)]
            rfl
        · simp [hProto]
    · rw [if_pos hType]
      have hno : ¬IcmpFrame order frame := by
        rintro ⟨_,hx,hy,_⟩
        rw [h12,Option.some_inj] at hx
        rw [h13,Option.some_inj] at hy
        exact hType ((load16_eq_ethPIp order _ _).mpr ⟨hx,hy⟩)
      simp [hno]

/-- The loop adds the words of its range, without overflow for few words. -/
theorem sumWords_value (order : ByteOrder) {count offset : ℕ} {csum : UInt32}
    (hlen : offset+2*count≤frame.length) (hsum : csum.toNat+65535*count<2^32) :
    ∃ total,sumWords order frame offset count csum=some total ∧
      total.toNat=csum.toNat+(words order (slice frame offset (2*count))).sum := by
  induction count generalizing offset csum with
  | zero => exact ⟨csum,rfl,by simp [slice,words]⟩
  | succ count ih =>
    have hfirst := List.getElem?_eq_getElem (show offset<frame.length by omega)
    have hsecond := List.getElem?_eq_getElem (show offset+1<frame.length by omega)
    have hsplit : slice frame offset (2*(count+1))=
        frame[offset]::frame[offset+1]::slice frame (offset+2) (2*count) := by
      rw [slice,List.drop_eq_getElem_cons (by omega),List.drop_eq_getElem_cons (by omega)]
      rfl
    have hword := (order.load16 frame[offset] frame[offset+1]).toNat_lt
    have hnext : (csum+(order.load16 frame[offset] frame[offset+1]).toUInt32).toNat=
        csum.toNat+(order.load16 frame[offset] frame[offset+1]).toNat := by
      rw [UInt32.toNat_add,UInt16.toNat_toUInt32]
      omega
    obtain ⟨total,hr,ht⟩ := @ih (offset+2)
      (csum+(order.load16 frame[offset] frame[offset+1]).toUInt32) (by omega) (by omega)
    refine ⟨total,?_,?_⟩
    · rw [sumWords,read16_of_getElem? hfirst hsecond]
      exact hr
    · rw [ht,hnext,hsplit,words,List.sum_cons]
      omega

/-- The words of a header around its checksum field. -/
theorem sum_header {bytes : List UInt8} {ip : ℕ} {check : UInt16} (hlen : ip+20≤bytes.length)
    (hcheck : slice bytes (ip+10) 2=order.store16 check) :
    (words order (slice bytes ip 20)).sum=(words order (slice bytes ip 10)).sum+check.toNat+
      (words order (slice bytes (ip+12) 8)).sum := by
  have hfirst : (slice bytes ip 10).length=2*5 := length_slice (by omega)
  have hsecond : (slice bytes ip 12).length=2*6 := length_slice (by omega)
  rw [slice_add bytes ip 12 8,words_append order _ hsecond,slice_add bytes ip 10 2,
    words_append order _ hfirst,hcheck,words_store16]
  simp only [List.sum_append,List.sum_cons,List.sum_nil,Nat.add_zero]

/-- `update_ip_csum` changes the checksum field only and leaves a valid fixed
header, whatever the field held. -/
theorem updateIpCsum_spec (order : ByteOrder) {ip : ℕ} (hlen : ip+20≤frame.length) :
    ∃ written,updateIpCsum order frame ip=some written ∧ written.length=frame.length ∧
      (∀ i,i< ip+10 ∨ ip+12≤ i → written[i]?=frame[i]?) ∧
      ChecksumValid (slice written ip 20) := by
  have htwo := order.length_store16
  obtain ⟨zeroed,hz,hzl⟩ := @write_of_le frame (order.store16 0) (ip+10) (by rw [htwo]; omega)
  obtain ⟨total,hsum,htotal⟩ := @sumWords_value zeroed order 10 ip 0 (by omega) (by decide)
  obtain ⟨written,hw,hwl⟩ := @write_of_le zeroed (order.store16 (complementFold total)) (ip+10)
    (by rw [htwo]; omega)
  refine ⟨written,?_,by omega,fun i hi => ?_,?_⟩
  · simp [updateIpCsum,hz,hsum,hw]
  · rw [getElem?_write hw,getElem?_write hz,htwo,htwo,if_neg (by omega),if_neg (by omega)]
  · -- the two headers differ in the checksum field only
    have hfield := slice_write hw
    have hzero := slice_write hz
    rw [htwo] at hfield hzero
    have hbefore := @slice_write_of_disjoint _ _ _ _ ip 10 hw (by omega)
    have hbehind := @slice_write_of_disjoint _ _ _ _ (ip+12) 8 hw (by rw [htwo]; omega)
    have hnew := sum_header (by omega) hfield
    have hold := sum_header (by omega) hzero
    rw [hbefore,hbehind] at hnew
    rw [hold] at htotal
    have hcomplete := complementFold_spec total
    have hsame : (words order (slice written ip 20)).sum=
        total.toNat+(complementFold total).toNat := by
      rw [hnew,htotal]
      simp only [UInt32.toNat_zero,UInt16.toNat_zero]
      omega
    rw [checksumValid_iff order,hsame]
    exact hcomplete

/-- A frame rewritten for a backend. -/
structure Dnatted (srcMac dstMac : Mac) (daddr : Quad) (frame rewritten : List UInt8) : Prop where
  /-- The length is kept. -/
  length : rewritten.length=frame.length
  /-- Destination hardware address. -/
  dstMac : slice rewritten 0 6=dstMac.toList
  /-- Source hardware address. -/
  srcMac : slice rewritten 6 6=srcMac.toList
  /-- Destination address as sent. -/
  daddr : slice rewritten 30 4=daddr.toList
  /-- All bytes outside the rewritten fields are kept. -/
  kept : ∀ i,12≤ i → (i<24 ∨ 26≤ i ∧ i<30 ∨ 34≤ i) → rewritten[i]?=frame[i]?
  /-- The fixed header is valid. -/
  checksum : ChecksumValid (slice rewritten 14 20)

/-- The rewrite for a backend succeeds inside every frame that holds the
fixed headers. -/
theorem dnat_spec (order : ByteOrder) (cfg : LbConfig) (backend : BackendInfo)
    (hlen : 34≤frame.length) :
    ∃ rewritten,dnat order cfg backend frame=some rewritten ∧
      Dnatted cfg.srcMac backend.mac (order.store32 backend.ipv4) frame rewritten := by
  have hmac : backend.mac.toList.length=6 := by simp
  have hsrc : cfg.srcMac.toList.length=6 := by simp
  have hquad : (order.store32 backend.ipv4).toList.length=4 := rfl
  obtain ⟨first,h1,l1⟩ := @write_of_le frame backend.mac.toList 0 (by omega)
  obtain ⟨second,h2,l2⟩ := @write_of_le first cfg.srcMac.toList 6 (by omega)
  obtain ⟨third,h3,l3⟩ := @write_of_le second (order.store32 backend.ipv4).toList 30 (by omega)
  obtain ⟨written,h4,l4,hkept,hvalid⟩ := @updateIpCsum_spec third order 14 (by omega)
  refine ⟨written,by simp [dnat,h1,h2,h3,h4],by omega,?_,?_,?_,?_,hvalid⟩
  · rw [slice_congr fun i _ hi => hkept i (by omega),
      slice_write_of_disjoint h3 (by omega),slice_write_of_disjoint h2 (by omega)]
    have hs := slice_write h1
    rwa [hmac] at hs
  · rw [slice_congr fun i _ hi => hkept i (by omega),slice_write_of_disjoint h3 (by omega)]
    have hs := slice_write h2
    rwa [hsrc] at hs
  · rw [slice_congr fun i hi _ => hkept i (by omega)]
    exact slice_write h3
  · intro i hi hfield
    rw [hkept i (by omega),getElem?_write h3,getElem?_write h2,getElem?_write h1,
      if_neg (by omega),if_neg (by omega),if_neg (by omega)]

/-- A reply rewritten to come from an address. -/
structure Snatted (saddr : Quad) (frame rewritten : List UInt8) : Prop where
  /-- The length is kept. -/
  length : rewritten.length=frame.length
  /-- Source address as sent. -/
  saddr : slice rewritten 26 4=saddr.toList
  /-- All bytes outside the rewritten fields are kept. -/
  kept : ∀ i,i<24 ∨ 30≤ i → rewritten[i]?=frame[i]?
  /-- The fixed header is valid. -/
  checksum : ChecksumValid (slice rewritten 14 20)

/-- The rewrite of a reply succeeds inside every frame that holds the fixed
headers. -/
theorem snat_spec (order : ByteOrder) (vip : UInt32) (hlen : 34≤frame.length) :
    ∃ rewritten,snat order vip frame=some rewritten ∧
      Snatted (order.store32 vip) frame rewritten := by
  have hquad : (order.store32 vip).toList.length=4 := rfl
  obtain ⟨first,h1,l1⟩ := @write_of_le frame (order.store32 vip).toList 26 (by omega)
  obtain ⟨written,h2,l2,hkept,hvalid⟩ := @updateIpCsum_spec first order 14 (by omega)
  refine ⟨written,by simp [snat,h1,h2],by omega,?_,?_,hvalid⟩
  · rw [slice_congr fun i hi _ => hkept i (by omega)]
    exact slice_write h1
  · intro i hi
    rw [hkept i (by omega),getElem?_write h1,if_neg (by omega)]

/-- The fixed header holds an address at either address field. -/
theorem IcmpFrame.read32 {offset : ℕ} (h : IcmpFrame order frame) (ho : offset≤30) :
    ∃ quad,readQuad frame offset=some quad ∧ slice frame offset 4=quad.toList ∧
      HostBytes.read32 order frame offset=some (order.load32 quad) := by
  obtain ⟨quad,hq,hs⟩ := @readQuad_of_le frame offset (by have := h.1; omega)
  exact ⟨quad,hq,hs,by rw [HostBytes.read32,hq,Option.map_some]⟩

/-- A reduced random number is below the count. -/
theorem mod_lt_count (prandom : UInt32) {count : UInt32} (h : count≠0) : prandom%count<count := by
  rw [UInt32.lt_iff_toNat_lt,UInt32.toNat_mod]
  exact Nat.mod_lt _ (Nat.pos_of_ne_zero fun hz => h (UInt32.toNat_inj.mp hz))

/-- All checks of `xdp_lb_ingress` hold and pick a backend. -/
structure Selects (order : ByteOrder) (world : World) (prandom : UInt32) (frame : List UInt8)
    (cfg : LbConfig) (backend : BackendInfo) : Prop where
  /-- The frame is ICMP over IPv4. -/
  icmp : IcmpFrame order frame
  /-- There is a configuration. -/
  config : world.configMap.lookup 0=some cfg
  /-- Some backend is active. -/
  count : cfg.backendCount≠0
  /-- The destination is the virtual address, or all are accepted. -/
  vip : cfg.vip=0 ∨ HostBytes.read32 order frame 30=some cfg.vip
  /-- The random number picks a slot. -/
  slot : world.backendMap.lookup (prandom%cfg.backendCount)=some backend
  /-- The slot is in use. -/
  address : backend.ipv4≠0

/-- The picked index is below the count. -/
theorem Selects.index_lt {world : World} {prandom : UInt32} {cfg : LbConfig}
    {backend : BackendInfo} (h : Selects order world prandom frame cfg backend) :
    prandom%cfg.backendCount<cfg.backendCount := mod_lt_count prandom h.count

section Ingress

variable {cpus : ℕ} {world : World} (counters : Counters cpus) (cpu : Fin cpus) {prandom : UInt32}

/-- With a picked backend the frame is rewritten for it and counted once. -/
theorem xdpLbIngress_selected {cfg : LbConfig} {backend : BackendInfo}
    (h : Selects order world prandom frame cfg backend) :
    ∃ rewritten,xdpLbIngress order world counters cpu prandom frame=some ⟨.pass,rewritten,
        countFrame counters cpu (prandom%cfg.backendCount) frame.length⟩ ∧
      Dnatted cfg.srcMac backend.mac (order.store32 backend.ipv4) frame rewritten := by
  obtain ⟨rewritten,hdnat,hspec⟩ := dnat_spec order cfg backend h.icmp.1
  obtain ⟨quad,_,_,hread⟩ := h.icmp.read32 (Nat.le_refl 30)
  have haccept : ¬(cfg.vip≠0 ∧ order.load32 quad≠cfg.vip) := by
    rintro ⟨hv,hd⟩
    rcases h.vip with h|h
    · exact hv h
    · rw [hread,Option.some_inj] at h
      exact hd h
  refine ⟨rewritten,?_,hspec⟩
  simp only [xdpLbIngress,isIcmp_value,h.icmp,h.config,hread,h.slot,hdnat,decide_true,
    Option.bind_eq_bind,Option.bind_some,Bool.not_true,Bool.false_eq_true,if_false,
    if_neg h.count,if_neg haccept,if_neg h.address]
  rfl

/-- Without a picked backend nothing changes. -/
theorem xdpLbIngress_otherwise (h : ∀ cfg backend,¬Selects order world prandom frame cfg backend) :
    xdpLbIngress order world counters cpu prandom frame=some ⟨.pass,frame,counters⟩ := by
  unfold xdpLbIngress
  rw [isIcmp_value,Option.bind_eq_bind,Option.bind_some]
  by_cases hicmp : IcmpFrame order frame
  · obtain ⟨quad,_,_,hread⟩ := hicmp.read32 (Nat.le_refl 30)
    rw [decide_eq_true hicmp]
    cases hconfig : world.configMap.lookup 0 with
    | none => rfl
    | some cfg =>
      by_cases hcount : cfg.backendCount=0
      · simp [hcount]
      · by_cases hvip : cfg.vip≠0 ∧ order.load32 quad≠cfg.vip
        · simp [hcount,hread,hvip]
        · cases hslot : world.backendMap.lookup (prandom%cfg.backendCount) with
          | none =>
            simp only [Bool.not_true,Bool.false_eq_true,if_false,if_neg hcount,hread,
              Option.bind_eq_bind,Option.bind_some,if_neg hvip,hslot]
            rfl
          | some backend =>
            have haddress : backend.ipv4=0 := by
              by_contra hne
              refine h cfg backend ⟨hicmp,hconfig,hcount,?_,hslot,hne⟩
              rw [hread,Option.some_inj]
              tauto
            simp only [Bool.not_true,Bool.false_eq_true,if_false,if_neg hcount,hread,
              Option.bind_eq_bind,Option.bind_some,if_neg hvip,hslot,if_pos haddress]
            rfl
  · rw [decide_eq_false hicmp]
    rfl

/-- Both outcomes of the program. -/
theorem xdpLbIngress_cases (order : ByteOrder) (world : World) (prandom : UInt32)
    (frame : List UInt8) :
    (∃ cfg backend rewritten,Selects order world prandom frame cfg backend ∧
      xdpLbIngress order world counters cpu prandom frame=some ⟨.pass,rewritten,
        countFrame counters cpu (prandom%cfg.backendCount) frame.length⟩ ∧
      Dnatted cfg.srcMac backend.mac (order.store32 backend.ipv4) frame rewritten) ∨
    (∀ cfg backend,¬Selects order world prandom frame cfg backend) ∧
      xdpLbIngress order world counters cpu prandom frame=some ⟨.pass,frame,counters⟩ := by
  by_cases h : ∃ cfg backend,Selects order world prandom frame cfg backend
  · obtain ⟨cfg,backend,hs⟩ := h
    obtain ⟨rewritten,hrun,hd⟩ := xdpLbIngress_selected counters cpu hs
    exact Or.inl ⟨cfg,backend,rewritten,hs,hrun,hd⟩
  · have hnone : ∀ cfg backend,¬Selects order world prandom frame cfg backend :=
      fun cfg backend hs => h ⟨cfg,backend,hs⟩
    exact Or.inr ⟨hnone,xdpLbIngress_otherwise counters cpu hnone⟩

end Ingress

/-- All checks of `xdp_veth_snat` hold. -/
structure Translates (order : ByteOrder) (world : World) (frame : List UInt8) (cfg : LbConfig) :
    Prop where
  /-- The frame is ICMP over IPv4. -/
  icmp : IcmpFrame order frame
  /-- The source is a registered backend. -/
  registered : ∃ saddr idx,HostBytes.read32 order frame 26=some saddr ∧
    world.backendIpsMap.lookup saddr=some idx
  /-- There is a configuration. -/
  config : world.configMap.lookup 0=some cfg
  /-- There is a virtual address. -/
  vip : cfg.vip≠0

/-- The reply of a registered backend gets the virtual address. -/
theorem xdpVethSnat_translated {world : World} {cfg : LbConfig}
    (h : Translates order world frame cfg) :
    ∃ rewritten,xdpVethSnat order world frame=some (.pass,rewritten) ∧
      Snatted (order.store32 cfg.vip) frame rewritten := by
  obtain ⟨rewritten,hsnat,hspec⟩ := snat_spec order cfg.vip h.icmp.1
  obtain ⟨saddr,idx,hread,hlookup⟩ := h.registered
  refine ⟨rewritten,?_,hspec⟩
  simp only [xdpVethSnat,isIcmp_value,h.icmp,h.config,hread,hlookup,hsnat,decide_true,
    Option.bind_eq_bind,Option.bind_some,Bool.not_true,Bool.false_eq_true,if_false,if_neg h.vip]
  rfl

/-- Without all checks nothing changes. -/
theorem xdpVethSnat_otherwise {world : World} (h : ∀ cfg,¬Translates order world frame cfg) :
    xdpVethSnat order world frame=some (.pass,frame) := by
  unfold xdpVethSnat
  rw [isIcmp_value,Option.bind_eq_bind,Option.bind_some]
  by_cases hicmp : IcmpFrame order frame
  · obtain ⟨quad,_,_,hread⟩ := @IcmpFrame.read32 order frame 26 hicmp (by decide)
    rw [decide_eq_true hicmp]
    cases hlookup : world.backendIpsMap.lookup (order.load32 quad) with
    | none => simp [hread,hlookup]
    | some idx =>
      cases hconfig : world.configMap.lookup 0 with
      | none => simp [hread,hlookup]
      | some cfg =>
        have hvip : cfg.vip=0 := by
          by_contra hne
          exact h cfg ⟨hicmp,⟨_,idx,hread,hlookup⟩,hconfig,hne⟩
        simp [hread,hlookup,hvip]
  · rw [decide_eq_false hicmp]
    rfl

end ContainerLb.PacketEffects

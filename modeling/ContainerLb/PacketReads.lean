import ContainerLb.Interference
import ContainerLb.PacketEffects

/-!
# The packet programs access by access

A lookup in an array map gives a pointer into memory that the manager may
overwrite at any time, so every use of a field is an access of its own. The
number of backends and the address of the picked one are used twice, and the
hardware addresses are copied byte by byte. Seen at one moment the accesses
give the programs of the packet path.

The second use of the number is a divisor. Should it have become zero, the
instruction leaves the random number as it is.
-/

namespace ContainerLb.PacketReads

open BoundedMaps HostBytes BpfManager PacketPath PacketEffects Interference

variable {α : Type} {order : ByteOrder} {frame : List UInt8}

/-- What `xdp_lb_ingress` leaves of a frame, and the index it counts. -/
structure Handled where
  /-- Return value. -/
  action : XdpAction
  /-- Bytes of the frame. -/
  frame : List UInt8
  /-- Index of a rewritten frame. -/
  counted : Option UInt32
  deriving DecidableEq

/-- A field of the entry of `config_map`. -/
def configField (field : LbConfig → α) (world : World) : Option α :=
  (world.configMap.lookup 0).map field

/-- A field of an entry of `backend_map`. -/
def backendField (idx : UInt32) (field : BackendInfo → α) (world : World) : Option α :=
  (world.backendMap.lookup idx).map field

/-- The filter of destinations. -/
def acceptsReads (order : ByteOrder) (frame : List UInt8) : Reader World Bool := do
  let vip ← load (configField LbConfig.vip)
  if vip=0 then return true
  let daddr ← given (read32 order frame 30)
  let vip ← load (configField LbConfig.vip)
  return decide (daddr=vip)

/-- The loop over both hardware addresses. -/
def copyMacs (idx : UInt32) : List (Fin 6) → List UInt8 → Reader World (List UInt8)
  | [],frame => pure frame
  | i::rest,frame => do
    let dest ← load (backendField idx fun backend => backend.mac[i])
    let frame ← given (write frame i [dest])
    let source ← load (configField fun cfg => cfg.srcMac[i])
    let frame ← given (write frame (6+i) [source])
    copyMacs idx rest frame

/-- The rewrite of a frame for the backend at an index. -/
def dnatReads (order : ByteOrder) (idx : UInt32) (frame : List UInt8) :
    Reader World (List UInt8) := do
  let frame ← copyMacs idx (List.finRange 6) frame
  let ipv4 ← load (backendField idx BackendInfo.ipv4)
  let frame ← given (write frame 30 (order.store32 ipv4).toList)
  given (updateIpCsum order frame 14)

/-- The rest of `xdp_lb_ingress` for an accepted frame: the backend is picked
by the number of backends, used a second time. -/
def pickReads (order : ByteOrder) (prandom : UInt32) (frame : List UInt8) :
    Reader World Handled := do
  let count ← load (configField LbConfig.backendCount)
  let idx := prandom%count
  match ← load fun world => some (backendField idx BackendInfo.ipv4 world) with
  | none => return ⟨.pass,frame,none⟩
  | some ipv4 =>
    if ipv4=0 then return ⟨.pass,frame,none⟩
    let rewritten ← dnatReads order idx frame
    return ⟨.pass,rewritten,some idx⟩

/-- `xdp_lb_ingress` with one random number. A missing entry is a null
pointer where the program checks for it. -/
def xdpLbIngressReads (order : ByteOrder) (prandom : UInt32) (frame : List UInt8) :
    Reader World Handled := do
  let unchanged : Handled := ⟨.pass,frame,none⟩
  if !(← given (isIcmp order frame)) then return unchanged
  match ← load fun world => some (configField LbConfig.backendCount world) with
  | none => return unchanged
  | some count =>
    if count=0 then return unchanged
    if !(← acceptsReads order frame) then return unchanged
    pickReads order prandom frame

/-- `xdp_veth_snat`. -/
def xdpVethSnatReads (order : ByteOrder) (frame : List UInt8) :
    Reader World (XdpAction×List UInt8) := do
  if !(← given (isIcmp order frame)) then return (.pass,frame)
  let saddr ← given (read32 order frame 26)
  match ← load fun world => some (world.backendIpsMap.lookup saddr) with
  | none => return (.pass,frame)
  | some _ =>
    match ← load fun world => some (configField LbConfig.vip world) with
    | none => return (.pass,frame)
    | some vip =>
      if vip=0 then return (.pass,frame)
      let vip ← load (configField LbConfig.vip)
      let rewritten ← given (snat order vip frame)
      return (.pass,rewritten)

/-- The loop with both addresses given. -/
def setMacs (dest source : Mac) : List (Fin 6) → List UInt8 → Option (List UInt8)
  | [],frame => some frame
  | i::rest,frame => do
    let frame ← write frame i [dest[i]]
    let frame ← write frame (6+i) [source[i]]
    setMacs dest source rest frame

/-- Only the copied bytes count. -/
theorem setMacs_congr {dest dest' source source' : Mac} {indices : List (Fin 6)}
    (h : ∀ i∈indices,dest[i]=dest'[i] ∧ source[i]=source'[i]) (frame : List UInt8) :
    setMacs dest source indices frame=setMacs dest' source' indices frame := by
  induction indices generalizing frame with
  | nil => rfl
  | cons i rest ih =>
    obtain ⟨⟨hdest,hsource⟩,hrest⟩ := List.forall_mem_cons.mp h
    simp only [setMacs,hdest,hsource,ih hrest]

/-- Byte view of the loop. -/
theorem setMacs_spec (dest source : Mac) (indices : List (Fin 6)) (hlen : 12≤frame.length) :
    ∃ written,setMacs dest source indices frame=some written ∧ written.length=frame.length ∧
      (∀ i : Fin 6,i∈indices → written[i.val]?=some dest[i] ∧ written[6+i.val]?=some source[i]) ∧
      ∀ j,(∀ i∈indices,j≠i.val ∧ j≠6+i.val) → written[j]?=frame[j]? := by
  induction indices generalizing frame with
  | nil => exact ⟨frame,rfl,rfl,nofun,fun _ _ => rfl⟩
  | cons i rest ih =>
    obtain ⟨first,hfirst,hlength⟩ := @write_of_le frame [dest[i]] i (by simp; omega)
    obtain ⟨second,hsecond,hlength'⟩ := @write_of_le first [source[i]] (6+i) (by simp; omega)
    obtain ⟨written,hwritten,hsame,hset,hkept⟩ := @ih second (by omega)
    refine ⟨written,?_,by omega,fun j hj => ?_,fun j hj => ?_⟩
    · simp only [setMacs,hfirst,hsecond,hwritten,Option.bind_eq_bind,Option.bind_some]
    · by_cases hm : j∈rest
      · exact hset j hm
      · -- the byte was set in this round and is not touched again
        obtain rfl : j=i := (List.mem_cons.mp hj).resolve_right hm
        have hout : ∀ other∈rest,other.val≠j.val :=
          fun other ho heq => hm (Fin.ext heq ▸ ho)
        rw [hkept j fun other ho => ⟨(hout other ho).symm,by omega⟩,
          hkept (6+j) fun other ho => ⟨by omega,by have := hout other ho; omega⟩,
          getElem?_write hsecond,getElem?_write hsecond,getElem?_write hfirst]
        simp
    · obtain ⟨⟨hne,hne'⟩,hrest⟩ := List.forall_mem_cons.mp hj
      rw [hkept j hrest,getElem?_write hsecond,getElem?_write hfirst]
      simp only [List.length_singleton]
      rw [if_neg (by omega),if_neg (by omega)]

/-- The whole loop writes both addresses. -/
theorem setMacs_finRange (dest source : Mac) (hlen : 12≤frame.length) :
    setMacs dest source (List.finRange 6) frame=
      (write frame 0 dest.toList).bind (write · 6 source.toList) := by
  have hdest : dest.toList.length=6 := by simp
  have hsource : source.toList.length=6 := by simp
  obtain ⟨written,hwritten,_,hset,hkept⟩ := setMacs_spec dest source (List.finRange 6) hlen
  obtain ⟨first,hfirst,hlength⟩ := @write_of_le frame dest.toList 0 (by omega)
  obtain ⟨second,hsecond,_⟩ := @write_of_le first source.toList 6 (by omega)
  rw [hwritten,hfirst,Option.bind_some,hsecond,Option.some_inj]
  refine List.ext_getElem? fun j => ?_
  rw [getElem?_write hsecond,getElem?_write hfirst,hdest,hsource]
  rcases Nat.lt_or_ge j 6 with hj|hj
  · rw [(hset ⟨j,hj⟩ (List.mem_finRange _)).1,if_neg (by omega),if_pos (by omega)]
    simp [hj]
  · rcases Nat.lt_or_ge j 12 with hj'|hj'
    · have hbyte := (hset ⟨j-6,by omega⟩ (List.mem_finRange _)).2
      rw [show 6+(j-6)=j by omega] at hbyte
      rw [hbyte,if_pos (by omega)]
      simp [show j-6<6 by omega]
    · rw [hkept j fun i _ => ⟨by omega,by omega⟩,if_neg (by omega),if_neg (by omega)]

section Alone

variable {world : World} {cfg : LbConfig} {backend : BackendInfo} {idx : UInt32}

theorem alone_copyMacs (hconfig : world.configMap.lookup 0=some cfg)
    (hslot : world.backendMap.lookup idx=some backend) (indices : List (Fin 6))
    (frame : List UInt8) :
    alone (copyMacs idx indices frame) world=setMacs backend.mac cfg.srcMac indices frame := by
  induction indices generalizing frame with
  | nil => rfl
  | cons i rest ih =>
    simp only [copyMacs,alone_bind,alone_load,alone_given,configField,backendField,hconfig,hslot,
      Option.map_some,Option.bind_some,ih,setMacs,Option.bind_eq_bind]

theorem alone_dnatReads (hconfig : world.configMap.lookup 0=some cfg)
    (hslot : world.backendMap.lookup idx=some backend) (hlen : 12≤frame.length) :
    alone (dnatReads order idx frame) world=dnat order cfg backend frame := by
  simp only [dnatReads,alone_bind,alone_copyMacs hconfig hslot,setMacs_finRange _ _ hlen,alone_load,
    alone_given,backendField,hslot,Option.map_some,Option.bind_some,dnat,Option.bind_eq_bind,
    Option.bind_assoc]

theorem alone_acceptsReads {daddr : UInt32} (hconfig : world.configMap.lookup 0=some cfg)
    (hread : read32 order frame 30=some daddr) :
    alone (acceptsReads order frame) world=some (decide (¬(cfg.vip≠0 ∧ daddr≠cfg.vip))) := by
  by_cases hvip : cfg.vip=0
  · simp [acceptsReads,configField,hconfig,hvip]
  · simp [acceptsReads,configField,hconfig,hvip,hread]

/-- The counters after a frame. -/
def Handled.verdict {cpus : ℕ} (h : Handled) (counters : Counters cpus) (cpu : Fin cpus)
    (length : ℕ) : Verdict cpus :=
  ⟨h.action,h.frame,match h.counted with
    | none => counters
    | some idx => countFrame counters cpu idx length⟩

/-- Without disturbance the accesses are `xdp_lb_ingress` at one moment. -/
theorem xdpLbIngress_eq_alone {cpus : ℕ} (order : ByteOrder) (world : World)
    (counters : Counters cpus) (cpu : Fin cpus) (prandom : UInt32) (frame : List UInt8) :
    xdpLbIngress order world counters cpu prandom frame=
      (alone (xdpLbIngressReads order prandom frame) world).map
        fun h => h.verdict counters cpu frame.length := by
  unfold xdpLbIngress xdpLbIngressReads pickReads
  rw [isIcmp_value]
  by_cases hicmp : IcmpFrame order frame
  · obtain ⟨quad,_,_,hread⟩ := hicmp.read32 (Nat.le_refl 30)
    have hlen : 12≤frame.length := by
      have := hicmp.1
      omega
    cases hconfig : world.configMap.lookup 0 with
    | none => simp [hicmp,hconfig,configField,Handled.verdict]
    | some cfg =>
      by_cases hcount : cfg.backendCount=0
      · simp [hicmp,hconfig,configField,hcount,Handled.verdict]
      · have haccepts := alone_acceptsReads hconfig hread
        by_cases hvip : cfg.vip≠0 ∧ order.load32 quad≠cfg.vip
        · simp [hicmp,hconfig,configField,hcount,haccepts,hread,hvip,Handled.verdict]
        · cases hslot : world.backendMap.lookup (prandom%cfg.backendCount) with
          | none =>
            simp [hicmp,hconfig,configField,hcount,haccepts,hread,hvip,hslot,backendField,
              Handled.verdict]
          | some backend =>
            by_cases haddress : backend.ipv4=0
            · simp [hicmp,hconfig,configField,hcount,haccepts,hread,hvip,hslot,backendField,
                haddress,Handled.verdict]
            · simp [hicmp,hconfig,configField,hcount,haccepts,hread,hvip,hslot,backendField,
                haddress,Handled.verdict,alone_dnatReads hconfig hslot hlen]
  · simp [hicmp,Handled.verdict]

/-- Without disturbance the accesses are `xdp_veth_snat` at one moment. -/
theorem xdpVethSnat_eq_alone (order : ByteOrder) (world : World) (frame : List UInt8) :
    xdpVethSnat order world frame=alone (xdpVethSnatReads order frame) world := by
  unfold xdpVethSnat xdpVethSnatReads
  rw [isIcmp_value]
  by_cases hicmp : IcmpFrame order frame
  · obtain ⟨quad,_,_,hread⟩ := @IcmpFrame.read32 order frame 26 hicmp (by decide)
    cases hkey : world.backendIpsMap.lookup (order.load32 quad) with
    | none => simp [hicmp,hread,hkey]
    | some idx =>
      cases hconfig : world.configMap.lookup 0 with
      | none => simp [hicmp,hread,hkey,hconfig,configField]
      | some cfg =>
        by_cases hvip : cfg.vip=0
        · simp [hicmp,hread,hkey,hconfig,configField,hvip]
        · simp [hicmp,hread,hkey,hconfig,configField,hvip]
  · simp [hicmp]

end Alone

end ContainerLb.PacketReads

import ContainerLb.StructLayout
import ContainerLb.ManagerSteps

/-!
# Bytes of the map values

The Go structs of the generated bindings and the C structs of `types.h` place
their members alike, so every value that the manager writes is read unchanged
by the packet programs. The comments of `types.h` also fix byte orders. The
addresses keep them, since they are loaded from wire bytes in host order. The
ports do not: they are written as plain numbers, while the comments ask for
network order.
-/

namespace ContainerLb.MapEncoding

open CallProgram HostBytes NetAddresses BpfManager ManagerSteps StructLayout

/-- Members of the Go struct `lbBackendInfo`. -/
abbrev lbBackendInfo : List Field := [.host32,.host16,.host16,.bytes 6,.bytes 2,.host32]

/-- Members of the Go struct `lbLbConfig`. -/
abbrev lbLbConfig : List Field := [.host32,.host16,.host16,.host32,.bytes 6,.bytes 2]

/-- `struct backend_info` with the byte orders of its comments: address and
port in network order. -/
abbrev backendInfoFields : List Field := [.quad,.net16,.host16,.bytes 6,.bytes 2,.host32]

/-- `struct lb_config` with the byte orders of its comments: virtual address
and virtual port in network order. -/
abbrev lbConfigFields : List Field := [.quad,.net16,.host16,.host32,.bytes 6,.bytes 2]

/-- Two zero bytes. -/
def zeroPad : Vector UInt8 2 := Vector.replicate 2 0

/-- A value of `backend_map` by members. -/
def backendRecord (info : BackendInfo) : Record lbBackendInfo :=
  (info.ipv4,info.port,info.pad,info.mac,info.pad2,info.weight,())

/-- A value of `config_map` by members. -/
def configRecord (config : LbConfig) : Record lbLbConfig :=
  (config.vip,config.vport,config.pad,config.backendCount,config.srcMac,config.pad2,())

/-- The bytes that `BackendMap.Put` hands over. -/
def backendBytes (order : ByteOrder) (info : BackendInfo) : List UInt8 :=
  encode order lbBackendInfo (backendRecord info)

/-- The bytes that `ConfigMap.Put` hands over. -/
def configBytes (order : ByteOrder) (config : LbConfig) : List UInt8 :=
  encode order lbLbConfig (configRecord config)

/-- What the comments of `types.h` make of an active backend. -/
def documentedBackend (v4 : Quad) (port : UInt16) (mac : Mac) : Record backendInfoFields :=
  (v4,port,0,mac,zeroPad,1,())

/-- What the comments of `types.h` make of a configuration. -/
def documentedConfig (vip : Quad) (vport : UInt16) (backendCount : UInt32) (srcMac : Mac) :
    Record lbConfigFields :=
  (vip,vport,0,backendCount,srcMac,zeroPad,())

/-- Six bytes are copied. -/
theorem macBytes_vector (mac : Mac) : macBytes mac.toList=mac := by
  rw [macBytes,dif_pos mac.length_toList]
  rfl

/-- Both languages place the members of a value alike. -/
theorem same_shapes :
    lbBackendInfo.map Field.shape=backendInfoFields.map Field.shape ∧
      lbLbConfig.map Field.shape=lbConfigFields.map Field.shape := ⟨rfl,rfl⟩

/-- Address and port at the head of both structs: the address is as
documented, the port only on hosts or with values for which the order does
not matter. -/
theorem reinterpret_head (order : ByteOrder) (v4 : Quad) (port : UInt16) {fields : List Field}
    (rest : Record fields) :
    reinterpret order (.host32::.host16::fields) (.quad::.net16::fields)
      (order.load32 v4,port,rest)=some (v4,port,rest) ↔ order=.big ∨ port%256=port/256 := by
  rw [reinterpret_cons,reinterpret_cons,Field.net16_of_host16]
  constructor
  · intro h
    exact h.2.1
  · intro h
    exact ⟨Field.quad_of_host32 order v4,h,reinterpret_self rest⟩

/-- When the value that `UpdateBackend` writes is read as documented. -/
theorem decode_backendBytes (order : ByteOrder) (v4 : Quad) (port : UInt16) (mac : Mac) :
    decode order backendInfoFields (backendBytes order (backendInfo order v4 port mac.toList))=
      some (documentedBackend v4 port mac) ↔ order=.big ∨ port%256=port/256 := by
  rw [backendBytes,decode_encode_of_shape _ same_shapes.1,backendInfo,macBytes_vector]
  exact reinterpret_head order v4 port _

/-- When the value that `UpdateConfig` writes is read as documented. -/
theorem decode_configBytes (order : ByteOrder) {vip : IP} {v4 : Quad} (hv : vip.to4=some v4)
    (vport : UInt16) (backendCount : UInt32) (srcMac : Mac) :
    decode order lbConfigFields
        (configBytes order (lbConfig order vip vport backendCount srcMac.toList))=
      some (documentedConfig v4 vport backendCount srcMac) ↔ order=.big ∨ vport%256=vport/256 := by
  rw [configBytes,decode_encode_of_shape _ same_shapes.2,lbConfig,macBytes_vector,hv]
  exact reinterpret_head order v4 vport _

/-- A call of `UpdateBackend` that hands over what is documented. The reverse
entry is found under the source address that `xdp_veth_snat` loads. -/
def BackendCall (order : ByteOrder) (index : UInt32) (v4 : Quad) (port : UInt16) (mac : Mac) :
    Call → Prop
  | .putBackend i info => i=index ∧
    decode order backendInfoFields (backendBytes order info)=some (documentedBackend v4 port mac)
  | .putBackendIp key i => i=index ∧ order.store32 key=v4 ∧
    ∀ frame,slice frame 26 4=v4.toList → read32 order frame 26=some key
  | _ => False

/-- Every execution of `UpdateBackend` hands over what is documented: the
forward entry always, the reverse entry when it succeeds. -/
def BackendDocumented (order : ByteOrder) (index : UInt32) (ip : IP) (v4 : Quad) (port : UInt16)
    (mac : Mac) : Prop :=
  ∀ world o,Runs handle (updateBackend order index ip port mac.toList) world o →
    (∀ e∈o.events,BackendCall order index v4 port mac e.op) ∧
    (∃ e∈o.events,∃ info,e.op=.putBackend index info) ∧
    (o.value=none → ∃ e∈o.events,∃ key,e.op=.putBackendIp key index)

/-- Every execution of `UpdateConfig` hands over what is documented. -/
def ConfigDocumented (order : ByteOrder) (vip : IP) (v4 : Quad) (vport : UInt16)
    (backendCount : UInt32) (srcMac : Mac) : Prop :=
  ∀ world o,Runs handle (updateConfig order vip vport backendCount srcMac.toList) world o →
    ∃ e config,o.events=[e] ∧ e.op=.putConfig 0 config ∧
      decode order lbConfigFields (configBytes order config)=
        some (documentedConfig v4 vport backendCount srcMac)

/-- The reverse entry is always as documented. -/
theorem backendCall_putBackendIp (order : ByteOrder) (index : UInt32) (v4 : Quad) (port : UInt16)
    (mac : Mac) : BackendCall order index v4 port mac (.putBackendIp (order.load32 v4) index) := by
  exact ⟨rfl,order.store32_load32 v4,fun _ hframe => read32_of_slice order hframe⟩

/-- The forward entry depends on the port. -/
theorem backendCall_putBackend (order : ByteOrder) (index : UInt32) (v4 : Quad) (port : UInt16)
    (mac : Mac) :
    BackendCall order index v4 port mac (.putBackend index (backendInfo order v4 port mac.toList)) ↔
      order=.big ∨ port%256=port/256 :=
  (and_iff_right rfl).trans (decode_backendBytes order v4 port mac)

/-- The calls of `UpdateBackend` for an IPv4 address: the forward entry, and
after its success the reverse entry. -/
theorem updateBackend_ops {order : ByteOrder} {index : UInt32} {ip : IP} {v4 : Quad} {port : UInt16}
    {mac : HardwareAddr} {world : World} {o : GoOutcome (Option GoError)} (hv : ip.to4=some v4)
    (hr : Runs handle (updateBackend order index ip port mac) world o) :
    ∃ first rest,o.events=first::rest ∧
      first.op=.putBackend index (backendInfo order v4 port mac) ∧
      (∀ e∈rest,e.op=.putBackendIp (order.load32 v4) index) ∧ (o.value=none → rest≠[]) := by
  rcases runs_updateBackend hr with ⟨hnone,_⟩|⟨found,fault,hfound,hcases⟩
  · rw [hv] at hnone
    contradiction
  · obtain rfl := Option.some_inj.mp (hv.symm.trans hfound)
    rcases hcases with ⟨_,hfailed,_,hevents⟩|⟨_,world',fault',_,_,_,hevents⟩
    · exact ⟨_,[],hevents,rfl,List.forall_mem_nil _,fun hok => absurd hok hfailed⟩
    · exact ⟨_,[_],hevents,rfl,List.forall_mem_singleton.mpr rfl,fun _ => List.cons_ne_nil _ _⟩

/-- When all executions of `UpdateBackend` are as documented. -/
theorem backendDocumented_iff (order : ByteOrder) (index : UInt32) {ip : IP} {v4 : Quad}
    (hv : ip.to4=some v4) (port : UInt16) (mac : Mac) :
    BackendDocumented order index ip v4 port mac ↔ order=.big ∨ port%256=port/256 := by
  rw [←backendCall_putBackend order index v4 port mac]
  constructor
  · intro h
    have hr := @exec_runs _ _ _ _ _ handle _ (updateBackend order index ip port mac.toList) [] newWorld
    obtain ⟨first,rest,hevents,hop,_,_⟩ := updateBackend_ops hv hr
    rw [←hop]
    exact (h _ _ hr).1 first (hevents ▸ List.mem_cons_self)
  · intro h world o hr
    obtain ⟨first,rest,hevents,hop,hrest,hdone⟩ := updateBackend_ops hv hr
    rw [hevents]
    refine ⟨List.forall_mem_cons.mpr ⟨hop ▸ h,fun e he => ?_⟩,⟨first,List.mem_cons_self,_,hop⟩,
      fun hok => ?_⟩
    · rw [hrest e he]
      exact backendCall_putBackendIp order index v4 port mac
    · obtain ⟨e,he⟩ := List.exists_mem_of_ne_nil rest (hdone hok)
      exact ⟨e,List.mem_cons_of_mem _ he,_,hrest e he⟩

/-- When all executions of `UpdateConfig` are as documented. -/
theorem configDocumented_iff (order : ByteOrder) {vip : IP} {v4 : Quad} (hv : vip.to4=some v4)
    (vport : UInt16) (backendCount : UInt32) (srcMac : Mac) :
    ConfigDocumented order vip v4 vport backendCount srcMac ↔
      order=.big ∨ vport%256=vport/256 := by
  rw [←decode_configBytes order hv vport backendCount srcMac]
  constructor
  · intro h
    have hr := @exec_runs _ _ _ _ _ handle _
      (updateConfig order vip vport backendCount srcMac.toList) [] newWorld
    obtain ⟨e,config,hevents,hop,hdecode⟩ := h _ _ hr
    obtain ⟨fault,ho⟩ := runs_updateConfig hr
    rw [ho,List.cons.injEq] at hevents
    rw [←hevents.1,answer_op,Call.putConfig.injEq] at hop
    rw [hop.2]
    exact hdecode
  · intro h world o hr
    obtain ⟨fault,rfl⟩ := runs_updateConfig hr
    exact ⟨_,_,rfl,rfl,h⟩

/-- Map encoding. For both forms of an address and either host order, all that
the two operations hand to the maps reads as the comments of `types.h` say,
if and only if the host has network order or both ports have two equal
bytes. -/
theorem encoding_documented_iff (order : ByteOrder) (ip vip : IP) (v4 vip4 : Quad)
    (hip : ip=v4.toList ∨ ip=v4InV6Prefix++v4.toList)
    (hvip : vip=vip4.toList ∨ vip=v4InV6Prefix++vip4.toList) (port vport : UInt16)
    (mac srcMac : Mac) (index backendCount : UInt32) :
    BackendDocumented order index ip v4 port mac ∧
      ConfigDocumented order vip vip4 vport backendCount srcMac ↔
    order=.big ∨ port%256=port/256 ∧ vport%256=vport/256 := by
  rw [backendDocumented_iff order index (IP.to4_eq_some.mpr hip),
    configDocumented_iff order (IP.to4_eq_some.mpr hvip)]
  exact or_and_left.symm

/-- On a host with network order the port reads back. -/
theorem encoding_documented_big :
    BackendDocumented .big 0 [172,17,0,2] ⟨172,17,0,2⟩ 8080 #v[2,66,172,17,0,2] ∧
      ConfigDocumented .big (v4InV6Prefix++[10,0,0,100]) ⟨10,0,0,100⟩ 80 1 #v[2,66,0,0,0,1] :=
  (encoding_documented_iff .big [172,17,0,2] (v4InV6Prefix++[10,0,0,100]) ⟨172,17,0,2⟩
    ⟨10,0,0,100⟩ (Or.inl rfl) (Or.inr rfl) 8080 80 #v[2,66,172,17,0,2] #v[2,66,0,0,0,1] 0 1).mpr
    (Or.inl rfl)

/-- On a little-endian host port 8080 is written as the bytes 90 1f, which
read as 36895 in network order. -/
theorem port_swapped :
    ((updateBackend .little 0 [172,17,0,2] 8080 [2,66,172,17,0,2]).exec handle [] newWorld).events.map
        Event.op=
      [.putBackend 0 (backendInfo .little ⟨172,17,0,2⟩ 8080 [2,66,172,17,0,2]),
        .putBackendIp (ByteOrder.little.load32 ⟨172,17,0,2⟩) 0] ∧
      backendBytes .little (backendInfo .little ⟨172,17,0,2⟩ 8080 [2,66,172,17,0,2])=
        [172,17,0,2,0x90,0x1f,0,0,2,66,172,17,0,2,0,0,1,0,0,0] ∧
      decode .little backendInfoFields
          (backendBytes .little (backendInfo .little ⟨172,17,0,2⟩ 8080 [2,66,172,17,0,2]))=
        some (documentedBackend ⟨172,17,0,2⟩ 36895 #v[2,66,172,17,0,2]) ∧
      ¬BackendDocumented .little 0 [172,17,0,2] ⟨172,17,0,2⟩ 8080 #v[2,66,172,17,0,2] := by
  refine ⟨by decide,by decide,rfl,fun h => ?_⟩
  have hsame := (backendDocumented_iff .little 0 rfl 8080 _).mp h
  revert hsame
  decide

end ContainerLb.MapEncoding

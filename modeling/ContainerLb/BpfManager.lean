import ContainerLb.CallProgram
import ContainerLb.BoundedMaps
import ContainerLb.NetAddresses

/-!
# Shared maps, veth links and the operations of the manager

The world holds the maps shared with the packet programs, the links recorded
by the manager and the links alive in the kernel. Each system call is one
atomic step that the environment may let fail; a failed call changes nothing.
`updateBackend` and `clearBackend` issue two such calls and can stop between
them. Attaching and detaching are one step each, with the fallback between
the driver and the generic mode inside.

Go errors keep the chain of their causes. Each constructor names the format
text that the source uses for it.
-/

namespace ContainerLb.BpfManager

open CallProgram BoundedMaps HostBytes NetAddresses

/-- `MAX_BACKENDS`: entries of `backend_map`, `backend_ips_map`, `counters_map`. -/
def maxBackends : ℕ := 64

/-- `ETH_ALEN` bytes of an Ethernet address stored in a map value. -/
abbrev Mac := Vector UInt8 6

/-- `struct backend_info`: value type of `backend_map`. -/
structure BackendInfo where
  /-- Address, loaded as the host loads it from a packet. -/
  ipv4 : UInt32
  /-- Port as given. -/
  port : UInt16
  /-- Alignment padding. -/
  pad : UInt16
  /-- Hardware address. -/
  mac : Mac
  /-- Alignment padding. -/
  pad2 : Vector UInt8 2
  /-- One for an active entry. -/
  weight : UInt32
  deriving DecidableEq

/-- `struct lb_config`: value type of `config_map`. -/
structure LbConfig where
  /-- Virtual address, zero for all destinations. -/
  vip : UInt32
  /-- Virtual port. -/
  vport : UInt16
  /-- Alignment padding. -/
  pad : UInt16
  /-- Number of active backends. -/
  backendCount : UInt32
  /-- Source hardware address of forwarded frames. -/
  srcMac : Mac
  /-- Alignment padding. -/
  pad2 : Vector UInt8 2
  deriving DecidableEq

/-- Six zero bytes. -/
def zeroMac : Mac := Vector.replicate 6 0

/-- The all-zero value of `backend_map`. -/
def emptyBackend : BackendInfo := ⟨0,0,0,zeroMac,Vector.replicate 2 0,0⟩

/-- The all-zero value of `config_map`. -/
def emptyConfig : LbConfig := ⟨0,0,0,0,zeroMac,Vector.replicate 2 0⟩

/-- Attach mode of an XDP link. -/
inductive XdpMode where
  /-- Native driver mode, tried first. -/
  | driver
  /-- Generic mode, the fallback. -/
  | generic
  deriving DecidableEq,Repr

/-- The SNAT program attached to one interface. -/
structure XdpLink where
  /-- Index of the interface given to the kernel. -/
  iface : ℤ
  /-- Mode in which the attach succeeded. -/
  mode : XdpMode
  deriving DecidableEq,Repr

/-- Everything that the manager's calls read and write. -/
structure World where
  /-- `config_map`, one slot. -/
  configMap : ArrayMap 1 LbConfig
  /-- `backend_map`, index to backend. -/
  backendMap : ArrayMap maxBackends BackendInfo
  /-- `backend_ips_map`, address to index. -/
  backendIpsMap : HashMap maxBackends UInt32 UInt32
  /-- `Manager.vethLinks`, veth name to link handle. -/
  vethLinks : Finmap fun _ : String => ℕ
  /-- Links alive in the kernel by handle. -/
  links : Finmap fun _ : ℕ => XdpLink
  /-- Next unused link handle. -/
  nextLink : ℕ

/-- Freshly loaded maps and a manager without veth links. -/
def newWorld : World where
  configMap := .replicate 1 emptyConfig
  backendMap := .replicate maxBackends emptyBackend
  backendIpsMap := .empty maxBackends UInt32 UInt32
  vethLinks := ∅
  links := ∅
  nextLink := 0

/-- Go errors with their causes. -/
inductive GoError where
  /-- Error number of a system call. -/
  | errno (error : Errno)
  /-- "backend IP must be IPv4: %s". -/
  | backendNotIPv4 (ip : IP)
  /-- "backend_map put idx=%d: %w". -/
  | backendMapPut (index : UInt32) (cause : GoError)
  /-- "backend_ips_map put ip=%s: %w". -/
  | backendIpsMapPut (ip : IP) (cause : GoError)
  /-- "backend_map clear idx=%d: %w". -/
  | backendMapClear (index : UInt32) (cause : GoError)
  /-- "config_map put: %w". -/
  | configMapPut (cause : GoError)
  /-- "driver mode err: %v, generic mode err: %v". -/
  | attachModes (errDriver err : Errno)
  /-- "detach XDP SNAT from veth %s: %w". -/
  | detachSnat (vethName : String) (cause : GoError)
  /-- "write backend %d (%s): %w". -/
  | writeBackend (index : ℕ) (name : String) (cause : GoError)
  /-- "attach veth XDP for %s (%s): %w". -/
  | attachVeth (name vethName : String) (cause : GoError)
  /-- "clear backend %d (%s): %w". -/
  | clearBackend (index : UInt32) (name : String) (cause : GoError)
  /-- "detach veth XDP for %s (%s): %w". -/
  | detachVeth (name vethName : String) (cause : GoError)
  /-- "update BPF config: %w". -/
  | updateConfig (cause : GoError)
  deriving DecidableEq

/-- Calls that act on the world, each taken as one atomic step. -/
inductive Call where
  /-- `BackendMap.Put`. -/
  | putBackend (index : UInt32) (info : BackendInfo)
  /-- `BackendIpsMap.Put`. -/
  | putBackendIp (key index : UInt32)
  /-- `BackendIpsMap.Delete`. -/
  | deleteBackendIp (key : UInt32)
  /-- `ConfigMap.Put`. -/
  | putConfig (index : UInt32) (config : LbConfig)
  /-- `Manager.AttachVethXDP`. -/
  | attachVethXDP (vethName : String) (vethIfIndex : ℤ)
  /-- `Manager.DetachVethXDP`. -/
  | detachVethXDP (vethName : String)
  deriving DecidableEq

/-- Failures that the environment imposes on one call. The second one is
read only by the generic-mode attempt of an attach. -/
structure Fault where
  /-- Failure of the first system call. -/
  first : Option Errno
  /-- Failure of the second system call. -/
  second : Option Errno
  deriving DecidableEq,Inhabited

/-- No failure is imposed. -/
def noFault : Fault := ⟨none,none⟩

/-- Result of a map operation: an imposed or forced error leaves the world. -/
def commit (fault : Option Errno) (result : Except Errno World) (world : World) :
    Option GoError×World :=
  match fault with
  | some error => (some (.errno error),world)
  | none =>
    match result with
    | .ok written => (none,written)
    | .error error => (some (.errno error),world)

/-- `link.AttachXDP` with the SNAT program: a fresh live link, or an error
without any effect. -/
def attachXDP (iface : ℤ) (mode : XdpMode) (fault : Option Errno) (world : World) :
    Except Errno (ℕ×World) :=
  match fault with
  | some error => .error error
  | none => .ok (world.nextLink,{world with
      links := world.links.insert world.nextLink ⟨iface,mode⟩
      nextLink := world.nextLink+1})

/-- `Manager.AttachVethXDP`: nothing to do for a recorded name, otherwise
driver mode, then generic mode, then record the link. -/
def attachVethXDP (vethName : String) (vethIfIndex : ℤ) (fault : Fault) (world : World) :
    Option GoError×World :=
  if vethName∈world.vethLinks then (none,world)
  else
    match attachXDP vethIfIndex .driver fault.first world with
    | .ok (l,world) => (none,{world with vethLinks := world.vethLinks.insert vethName l})
    | .error errDriver =>
      match attachXDP vethIfIndex .generic fault.second world with
      | .ok (l,world) => (none,{world with vethLinks := world.vethLinks.insert vethName l})
      | .error err => (some (.attachModes errDriver err),world)

/-- `Manager.DetachVethXDP`: nothing to do for an unknown name, otherwise
close the link and forget it; a close error keeps both. -/
def detachVethXDP (vethName : String) (fault : Fault) (world : World) :
    Option GoError×World :=
  match world.vethLinks.lookup vethName with
  | none => (none,world)
  | some l =>
    match fault.first with
    | some error => (some (.detachSnat vethName (.errno error)),world)
    | none => (none,{world with
        links := world.links.erase l
        vethLinks := world.vethLinks.erase vethName})

/-- Effect and reply of every call. -/
def handle : Handler Call Fault World (Option GoError)
  | .putBackend index info,fault,world =>
    commit fault.first ((world.backendMap.put index info).map
      fun written => {world with backendMap := written}) world
  | .putBackendIp key index,fault,world =>
    commit fault.first ((world.backendIpsMap.put key index).map
      fun written => {world with backendIpsMap := written}) world
  | .deleteBackendIp key,fault,world =>
    commit fault.first ((world.backendIpsMap.delete key).map
      fun written => {world with backendIpsMap := written}) world
  | .putConfig index config,fault,world =>
    commit fault.first ((world.configMap.put index config).map
      fun written => {world with configMap := written}) world
  | .attachVethXDP vethName vethIfIndex,fault,world =>
    attachVethXDP vethName vethIfIndex fault world
  | .detachVethXDP vethName,fault,world => detachVethXDP vethName fault world

/-- Go code that issues calls and finally returns a value. -/
abbrev Go := Prog Call (Option GoError)

/-- Copy of a hardware address, all zero unless it has six bytes. -/
def macBytes (mac : HardwareAddr) : Mac :=
  if h : mac.length=6 then ⟨mac.toArray,by simpa using h⟩ else zeroMac

/-- The value that `UpdateBackend` writes for four address bytes. -/
def backendInfo (order : ByteOrder) (v4 : Quad) (port : UInt16) (mac : HardwareAddr) :
    BackendInfo :=
  {emptyBackend with ipv4 := order.load32 v4,port := port,mac := macBytes mac,weight := 1}

/-- The value that `UpdateConfig` writes; an address that is not IPv4 counts
as zero. -/
def lbConfig (order : ByteOrder) (vip : IP) (vport : UInt16) (backendCount : UInt32)
    (srcMAC : HardwareAddr) : LbConfig :=
  {emptyConfig with
    vip := (vip.to4.map order.load32).getD 0
    vport := vport
    backendCount := backendCount
    srcMac := macBytes srcMAC}

/-- `Manager.UpdateConfig`. -/
def updateConfig (order : ByteOrder) (vip : IP) (vport : UInt16) (backendCount : UInt32)
    (srcMAC : HardwareAddr) : Go (Option GoError) := do
  let err ← Prog.request (.putConfig 0 (lbConfig order vip vport backendCount srcMAC))
  return err.map .configMapPut

/-- `Manager.UpdateBackend`: forward entry, then reverse entry. -/
def updateBackend (order : ByteOrder) (index : UInt32) (ip : IP) (port : UInt16)
    (mac : HardwareAddr) : Go (Option GoError) :=
  match ip.to4 with
  | none => return some (.backendNotIPv4 ip)
  | some v4 => do
    match ← Prog.request (.putBackend index (backendInfo order v4 port mac)) with
    | some err => return some (.backendMapPut index err)
    | none =>
      let err ← Prog.request (.putBackendIp (order.load32 v4) index)
      return err.map (.backendIpsMapPut ip)

/-- `Manager.ClearBackend`: zero the forward entry, then drop the reverse
entry, whose removal error is ignored. -/
def clearBackend (order : ByteOrder) (index : UInt32) (ip : IP) : Go (Option GoError) := do
  match ← Prog.request (.putBackend index emptyBackend) with
  | some err => return some (.backendMapClear index err)
  | none =>
    match ip.to4 with
    | none => return none
    | some v4 =>
      let _ ← Prog.request (.deleteBackendIp (order.load32 v4))
      return none

end ContainerLb.BpfManager

import ContainerLb.VethLinks
import ContainerLb.DockerDiscovery

/-!
# Starting and closing the manager

`newManager` loads the programs and maps and attaches the DNAT program,
`close` detaches everything and closes the loaded objects, and `start` is the
part of `main` before the first discovery. Every system call may be refused.
A refused call changes nothing in the kernel; `close` goes on after a refused
detach, while closing the objects stops at the first refusal.

Go visits the recorded veth links in an unspecified order, so the visited
names are an argument of `close`.
-/

namespace ContainerLb.Lifecycle

open CallProgram BoundedMaps NetAddresses BpfManager DockerDiscovery

/-- Members of `lbPrograms` and `lbMaps`. -/
inductive Obj where
  /-- Program `xdp_lb_ingress`. -/
  | xdpLbIngress
  /-- Program `xdp_veth_snat`. -/
  | xdpVethSnat
  /-- Map `backend_ips_map`. -/
  | backendIpsMap
  /-- Map `backend_map`. -/
  | backendMap
  /-- Map `config_map`. -/
  | configMap
  /-- Map `counters_map`. -/
  | countersMap
  deriving DecidableEq,Repr

/-- `lbObjects`: programs and maps in the order in which they are closed. -/
def lbObjects : List Obj :=
  [.xdpLbIngress,.xdpVethSnat,.backendIpsMap,.backendMap,.configMap,.countersMap]

/-- `net.Interface`. -/
structure Interface where
  /-- Index of the interface. -/
  index : ℤ
  /-- Hardware address. -/
  hardwareAddr : HardwareAddr
  deriving DecidableEq

/-- Maps and veth links, the DNAT link and the objects that are open. -/
structure Kernel where
  /-- Maps and veth links. -/
  world : World
  /-- The live link of the DNAT program. -/
  ingress : Option XdpLink
  /-- Loaded objects with an open descriptor. -/
  opened : Finset Obj

/-- Nothing loaded and nothing attached. -/
def unloaded : Kernel := ⟨newWorld,none,∅⟩

/-- Calls made while starting and closing. -/
inductive LifeCall where
  /-- `net.InterfaceByName`. -/
  | interfaceByName (ifaceName : String)
  /-- `rlimit.RemoveMemlock`. -/
  | removeMemlock
  /-- `loadLbObjects`: all objects or none. -/
  | loadLbObjects
  /-- `link.AttachXDP` with the DNAT program. -/
  | attachIngress (iface : ℤ) (mode : XdpMode)
  /-- `client.NewClientWithOpts`. -/
  | newClient
  /-- `Close` of a recorded veth link, which is forgotten in any case. -/
  | closeVeth (vethName : String)
  /-- `Close` of the DNAT link. -/
  | closeIngress
  /-- `Close` of a program or map. -/
  | closeObject (obj : Obj)
  deriving DecidableEq

/-- An error or success. The interface is read after `interfaceByName` only. -/
abbrev Answer := Except Errno Interface

/-- Calls beyond the supplied answers succeed. -/
instance : Inhabited Answer := ⟨.ok ⟨0,[]⟩⟩

/-- Executed calls. -/
abbrev LifeStep := Event LifeCall Answer Answer Kernel

/-- Executions of Go code on the kernel. -/
abbrev LifeOutcome (α : Type) := Outcome LifeCall Answer Answer Kernel α

/-- Go code that starts or closes. -/
abbrev Life := Prog LifeCall Answer

/-- A veth link is closed unless refused and its name is forgotten. -/
def closeVethLink (vethName : String) (answer : Answer) (world : World) : World :=
  match world.vethLinks.lookup vethName,answer with
  | some l,.ok _ => {world with
      links := world.links.erase l
      vethLinks := world.vethLinks.erase vethName}
  | _,_ => {world with vethLinks := world.vethLinks.erase vethName}

/-- Effect of a call under the answer that it gets. -/
def lifeEffect (op : LifeCall) (answer : Answer) (k : Kernel) : Kernel :=
  match op,answer with
  | .closeVeth vethName,answer => {k with world := closeVethLink vethName answer k.world}
  | .loadLbObjects,.ok _ => {k with world := newWorld,opened := lbObjects.toFinset}
  | .attachIngress iface mode,.ok _ => {k with ingress := some ⟨iface,mode⟩}
  | .closeIngress,.ok _ => {k with ingress := none}
  | .closeObject obj,.ok _ => {k with opened := k.opened.erase obj}
  | _,_ => k

/-- The environment decides every answer. -/
def lifeHandle : Handler LifeCall Answer Kernel Answer :=
  fun op answer k => (answer,lifeEffect op answer k)

/-- Errors of `NewManager`. -/
inductive ManagerError where
  /-- "remove memlock: %w". -/
  | removeMemlock (cause : Errno)
  /-- "interface %q not found: %w". -/
  | interfaceNotFound (ifaceName : String) (cause : Errno)
  /-- "load BPF objects: %w". -/
  | loadObjects (cause : Errno)
  /-- "attach XDP to %s (driver+generic both failed): %w". -/
  | attachXDP (ifaceName : String) (cause : Errno)
  deriving DecidableEq

/-- Errors collected by `Close`. -/
inductive CloseError where
  /-- "detach veth %s: %w". -/
  | detachVeth (vethName : String) (cause : Errno)
  /-- "detach docker0 XDP: %w". -/
  | detachIngress (cause : Errno)
  /-- "close BPF objects: %w". -/
  | closeObjects (cause : Errno)
  deriving DecidableEq

/-- `Manager` without its lock, its objects and its veth links, which are
parts of the kernel. -/
structure Manager where
  /-- Name of the ingress interface. -/
  ifaceName : String
  /-- Its index. -/
  ifaceIdx : ℤ
  /-- The recorded DNAT link. -/
  xdpLink : Option XdpLink
  deriving DecidableEq

/-- `_LbClose`: close one after the other up to the first error. -/
def lbClose : List (Life (Option Errno)) → Life (Option Errno)
  | [] => return none
  | closer::rest => do
    match ← closer with
    | some err => return some err
    | none => lbClose rest

/-- `Close` of a program or map. -/
def objClose (obj : Obj) : Life (Option Errno) := do
  match ← Prog.request (.closeObject obj) with
  | .error err => return some err
  | .ok _ => return none

/-- `lbPrograms.Close`. -/
def lbProgramsClose : Life (Option Errno) :=
  lbClose [objClose .xdpLbIngress,objClose .xdpVethSnat]

/-- `lbMaps.Close`. -/
def lbMapsClose : Life (Option Errno) :=
  lbClose [objClose .backendIpsMap,objClose .backendMap,objClose .configMap,objClose .countersMap]

/-- `lbObjects.Close`. -/
def lbObjectsClose : Life (Option Errno) := lbClose [lbProgramsClose,lbMapsClose]

/-- `link.AttachXDP` of `NewManager`: driver mode, then generic mode. When
both are refused the loaded objects are closed. -/
def attachIngress (ifaceName : String) (iface : Interface) : Life (Except ManagerError Manager) := do
  match ← Prog.request (.attachIngress iface.index .driver) with
  | .ok _ => return .ok ⟨ifaceName,iface.index,some ⟨iface.index,.driver⟩⟩
  | .error _ =>
    match ← Prog.request (.attachIngress iface.index .generic) with
    | .ok _ => return .ok ⟨ifaceName,iface.index,some ⟨iface.index,.generic⟩⟩
    | .error err =>
      let _ ← lbObjectsClose
      return .error (.attachXDP ifaceName err)

/-- `NewManager`. -/
def newManager (ifaceName : String) : Life (Except ManagerError Manager) := do
  match ← Prog.request .removeMemlock with
  | .error err => return .error (.removeMemlock err)
  | .ok _ =>
    match ← Prog.request (.interfaceByName ifaceName) with
    | .error err => return .error (.interfaceNotFound ifaceName err)
    | .ok iface =>
      match ← Prog.request .loadLbObjects with
      | .error err => return .error (.loadObjects err)
      | .ok _ => attachIngress ifaceName iface

/-- Loop of `Close` over the recorded veth links. -/
def closeVeths : List String → List CloseError → Life (List CloseError)
  | [],errs => return errs
  | name::rest,errs => do
    match ← Prog.request (.closeVeth name) with
    | .error err => closeVeths rest (errs++[.detachVeth name err])
    | .ok _ => closeVeths rest errs

/-- `Close` of the recorded DNAT link. -/
def closeXdpLink (m : Manager) (errs : List CloseError) : Life (List CloseError) :=
  match m.xdpLink with
  | none => return errs
  | some _ => do
    match ← Prog.request .closeIngress with
    | .error err => return errs++[.detachIngress err]
    | .ok _ => return errs

/-- `Manager.Close`, visiting the recorded veth links in the given order. It
returns nil or the text "BPF manager close: %v" of all errors. -/
def close (m : Manager) (names : List String) : Life (Option (List CloseError)) := do
  let errs ← closeVeths names []
  let errs ← closeXdpLink m errs
  let err ← lbObjectsClose
  let errs := errs++(err.map CloseError.closeObjects).toList
  return if errs=[] then none else some errs

/-- The given names are those of the recorded veth links, each one once. -/
def Visits (names : List String) (world : World) : Prop :=
  names.Nodup ∧ names.toFinset=world.vethLinks.keys

instance (names : List String) (world : World) : Decidable (Visits names world) :=
  inferInstanceAs (Decidable (_ ∧ _))

/-- Command line flags; the two intervals only set timers. -/
structure Flags where
  /-- Interface of the DNAT program. -/
  iface : String
  /-- Virtual address as text. -/
  vip : String
  /-- Virtual port. -/
  port : ℤ
  /-- Label of the backends. -/
  label : String

/-- What `main` knows before the first discovery. -/
structure Settings where
  /-- Virtual address. -/
  vip : IP
  /-- Virtual port. -/
  vport : UInt16
  /-- Hardware address of the ingress interface. -/
  srcMAC : HardwareAddr
  /-- Discovery of backends. -/
  watcher : DockerWatcher
  /-- The manager. -/
  manager : Manager

/-- Reasons for which `main` gives up with `log.Fatalf`. -/
inductive Fatal where
  /-- "[ERROR] Invalid VIP address: %s". -/
  | invalidVip (text : String)
  /-- "[ERROR] Could not find interface %s: %v". -/
  | noInterface (ifaceName : String) (cause : Errno)
  /-- "[ERROR] Failed to initialize BPF manager: %v". -/
  | manager (cause : ManagerError)
  /-- "[ERROR] Failed to connect to Docker daemon: %v", with the cause of
  "create Docker client: %w". -/
  | docker (cause : Errno)
  deriving DecidableEq

/-- `NewDockerWatcher`. -/
def newDockerWatcher (labelFilter : String) (targetPort : UInt16) :
    Life (Except Errno DockerWatcher) := do
  match ← Prog.request .newClient with
  | .error err => return .error err
  | .ok _ => return .ok ⟨labelFilter,targetPort⟩

/-- `main` up to the first discovery. -/
def start (lib : Parsers) (flags : Flags) : Life (Except Fatal Settings) :=
  match lib.parseIP flags.vip with
  | none => return .error (.invalidVip flags.vip)
  | some vip => do
    match ← Prog.request (.interfaceByName flags.iface) with
    | .error err => return .error (.noInterface flags.iface err)
    | .ok iface =>
      match ← newManager flags.iface with
      | .error err => return .error (.manager err)
      | .ok m =>
        match ← newDockerWatcher flags.label (UInt16.ofInt flags.port) with
        | .error err => return .error (.docker err)
        | .ok w => return .ok ⟨vip,UInt16.ofInt flags.port,iface.hardwareAddr,w,m⟩

/-- Library functions for a virtual address beside the container of the
bridge. -/
def hostParsers : Parsers := {bridgeParsers with
  parseIP := fun text => if text="172.17.0.1" then some [172,17,0,1] else bridgeParsers.parseIP text}

/-- Flags for the bridge. -/
def hostFlags : Flags := ⟨"docker0","172.17.0.1",80,"lb.backend=true"⟩

/-- The kernel grants everything at the start. -/
def granted : List Answer := List.replicate 6 (.ok ⟨3,[2,66,1,2,3,4]⟩)

end ContainerLb.Lifecycle

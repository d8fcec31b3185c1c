import ContainerLb.NetAddresses

/-!
# Discovery of backends

`discoverBackends` asks the container engine for the matching containers,
inspects each of them and looks up the host side of its veth. A container
that cannot be inspected, is not running or not healthy, has no usable IPv4
network or no veth is left out. Only a failed listing is an error.

What the engine, the kernel and the parsing functions of the Go library
answer is an argument. The networks of a container stand in the order in
which the loop visits them.
-/

namespace ContainerLb.DockerDiscovery

open NetAddresses

/-- A listed container. Its identifier is long enough to be shortened. -/
structure ContainerSummary where
  /-- Full identifier. -/
  id : String
  /-- Label values by name. -/
  labels : String → Option String
  /-- At least the twelve characters that are kept. -/
  long : 12≤ id.length

/-- One network of a container as the engine reports it. -/
structure EndpointSettings where
  /-- Address, empty without one. -/
  ipAddress : String
  /-- Hardware address. -/
  macAddress : String
  deriving DecidableEq

/-- An inspected container. -/
structure ContainerJSON where
  /-- Name with a leading slash. -/
  name : String
  /-- Whether it runs. -/
  running : Bool
  /-- Status of its health check, if it has one. -/
  health : Option String
  /-- Host process id of its init process. -/
  pid : ℤ
  /-- Its networks in the order of the loop. -/
  networks : List EndpointSettings
  deriving DecidableEq

/-- An interface as netlink lists it. -/
structure Link where
  /-- Kind of the interface. -/
  type : String
  /-- Index of the parent, for a veth that of its peer. -/
  parentIndex : ℤ
  deriving DecidableEq

/-- Errors of `FindHostVeth`. -/
inductive VethError where
  /-- "get container netns (pid %d): %w". -/
  | netns (pid : ℤ)
  /-- "create netlink handle in container netns: %w". -/
  | handle
  /-- "list links in container netns (pid %d): %w". -/
  | linkList (pid : ℤ)
  /-- "no veth interface found in container (pid %d)". -/
  | noVeth (pid : ℤ)
  /-- "find host veth by index %d: %w". -/
  | linkByIndex (index : ℤ)
  deriving DecidableEq

/-- Errors of `DiscoverBackends`. -/
inductive DiscoverError where
  /-- "list containers: %w". -/
  | containerList (cause : String)
  deriving DecidableEq

/-- What the container engine and the kernel answer. -/
structure Host where
  /-- `ContainerList` with an optional label filter. -/
  containerList : Option String → Except String (List ContainerSummary)
  /-- `ContainerInspect` by full identifier. -/
  containerInspect : String → Option ContainerJSON
  /-- Links in the network namespace of a process, or why they cannot be had. -/
  containerLinks : ℤ → Except VethError (List Link)
  /-- `netlink.LinkByIndex`: name of a host interface. -/
  linkByIndex : ℤ → Option String

/-- Parsing functions of the Go library. -/
structure Parsers where
  /-- `net.ParseIP`. -/
  parseIP : String → Option IP
  /-- `net.ParseMAC`. -/
  parseMAC : String → Option HardwareAddr
  /-- `strconv.ParseUint` of the trimmed text, in base ten and sixteen bits. -/
  parsePort : String → Option UInt16

/-- `DockerWatcher` without its client. -/
structure DockerWatcher where
  /-- Label that a container must have, empty for all containers. -/
  labelFilter : String
  /-- Port of containers that do not name their own. -/
  targetPort : UInt16

/-- `FindHostVeth`: the peer of the first veth in the container's namespace. -/
def findHostVeth (host : Host) (containerPID : ℤ) : Except VethError (String×ℤ) := do
  let links ← host.containerLinks containerPID
  let hostVethIdx := ((links.find? fun l => l.type="veth").map Link.parentIndex).getD 0
  if hostVethIdx=0 then throw (.noVeth containerPID)
  match host.linkByIndex hostVethIdx with
  | none => throw (.linkByIndex hostVethIdx)
  | some name => return (name,hostVethIdx)

/-- Loop over the networks: the first one with an IPv4 address and a hardware
address of six bytes. -/
def networkAddress (lib : Parsers) : List EndpointSettings → Option (IP×HardwareAddr)
  | [] => none
  | ns::rest =>
    if ns.ipAddress="" then networkAddress lib rest
    else
      match lib.parseIP ns.ipAddress with
      | none => networkAddress lib rest
      | some parsed =>
        if parsed.to4=none then networkAddress lib rest
        else
          match lib.parseMAC ns.macAddress with
          | none => networkAddress lib rest
          | some parsedMAC =>
            if parsedMAC.length≠6 then networkAddress lib rest else some (parsed,parsedMAC)

/-- `strings.TrimPrefix` of a slash. -/
def trimSlash (name : String) : String :=
  match name.toList with
  | '/'::rest => String.ofList rest
  | _ => name

/-- A container without a health check or with an acceptable status. -/
def acceptsHealth : Option String → Bool
  | none => true
  | some status => status="healthy" ∨ status="none"

/-- The backend of a container with its address and veth. -/
def backendOf (lib : Parsers) (w : DockerWatcher) (c : ContainerSummary) (inspect : ContainerJSON)
    (address : IP×HardwareAddr) (veth : String×ℤ) : Backend where
  id := String.ofList (c.id.toList.take 12)
  name := trimSlash inspect.name
  ip := address.1
  mac := address.2
  port := ((c.labels "lb.port").bind lib.parsePort).getD w.targetPort
  healthy := true
  containerPID := inspect.pid
  vethName := veth.1
  vethIdx := veth.2

/-- Body of the loop of `DiscoverBackends`. -/
def inspectBackend (lib : Parsers) (host : Host) (w : DockerWatcher) (c : ContainerSummary) :
    Option Backend :=
  match host.containerInspect c.id with
  | none => none
  | some inspect =>
    if inspect.running=false then none
    else if acceptsHealth inspect.health=false then none
    else
      match networkAddress lib inspect.networks with
      | none => none
      | some address =>
        match findHostVeth host inspect.pid with
        | .error _ => none
        | .ok veth => some (backendOf lib w c inspect address veth)

/-- `DiscoverBackends`. -/
def discoverBackends (lib : Parsers) (host : Host) (w : DockerWatcher) :
    Except DiscoverError (List Backend) :=
  match host.containerList (if w.labelFilter="" then none else some w.labelFilter) with
  | .error cause => .error (.containerList cause)
  | .ok containers => .ok (containers.filterMap (inspectBackend lib host w))

variable {lib : Parsers} {host : Host} {w : DockerWatcher}

/-- The chosen network has an IPv4 address and six bytes of hardware address. -/
theorem networkAddress_usable {networks : List EndpointSettings} {ip : IP} {mac : HardwareAddr}
    (h : networkAddress lib networks=some (ip,mac)) : ip.to4≠none ∧ mac.length=6 := by
  induction networks with
  | nil => contradiction
  | cons ns rest ih =>
    rw [networkAddress] at h
    split at h
    · exact ih h
    · split at h
      · exact ih h
      · split at h
        · exact ih h
        · rename_i hip
          split at h
          · exact ih h
          · split at h
            · exact ih h
            · rename_i hmac
              cases h
              exact ⟨hip,not_not.mp hmac⟩

/-- The peer of the first veth is found when it is a host interface. -/
theorem findHostVeth_of_first {pid index : ℤ} {name : String} {links : List Link} {l : Link}
    (hlinks : host.containerLinks pid=.ok links)
    (hfirst : links.find? (fun l => l.type="veth")=some l) :
    findHostVeth host pid=.ok (name,index) ↔
      l.parentIndex=index ∧ index≠0 ∧ host.linkByIndex index=some name := by
  simp only [findHostVeth,hlinks,bind,Except.bind,hfirst,Option.map_some,Option.getD_some]
  by_cases hzero : l.parentIndex=0
  · rw [if_pos hzero]
    refine iff_of_false nofun ?_
    rintro ⟨hindex,hne,_⟩
    exact hne (hindex.symm.trans hzero)
  · rw [if_neg hzero]
    cases hname : host.linkByIndex l.parentIndex with
    | none =>
      refine iff_of_false nofun ?_
      rintro ⟨rfl,_,hfound⟩
      rw [hname] at hfound
      contradiction
    | some found =>
      constructor
      · intro h
        cases h
        exact ⟨rfl,hzero,hname⟩
      · rintro ⟨rfl,_,hfound⟩
        rw [hname] at hfound
        cases hfound
        rfl

/-- A veth is found from the first veth only. -/
theorem findHostVeth_eq_ok {pid index : ℤ} {name : String} :
    findHostVeth host pid=.ok (name,index) ↔ ∃ links l,host.containerLinks pid=.ok links ∧
      links.find? (fun l => l.type="veth")=some l ∧ l.parentIndex=index ∧ index≠0 ∧
      host.linkByIndex index=some name := by
  constructor
  · intro h
    cases hlinks : host.containerLinks pid with
    | error err =>
      rw [findHostVeth,hlinks] at h
      contradiction
    | ok links =>
      cases hfirst : links.find? (fun l => l.type="veth") with
      | none =>
        simp only [findHostVeth,hlinks,bind,Except.bind,hfirst,Option.map_none,Option.getD_none,
          if_true] at h
        contradiction
      | some l => exact ⟨links,l,rfl,hfirst,(findHostVeth_of_first hlinks hfirst).mp h⟩
  · rintro ⟨links,l,hlinks,hfirst,h⟩
    exact (findHostVeth_of_first hlinks hfirst).mpr h

/-- A container that discovery looks at further. -/
def Considered (host : Host) (c : ContainerSummary) (inspect : ContainerJSON) : Prop :=
  host.containerInspect c.id=some inspect ∧ inspect.running=true ∧
    acceptsHealth inspect.health=true

/-- What the loop makes of a container. -/
theorem inspectBackend_eq_some {c : ContainerSummary} {b : Backend} :
    inspectBackend lib host w c=some b ↔ ∃ inspect address veth,Considered host c inspect ∧
      networkAddress lib inspect.networks=some address ∧
      findHostVeth host inspect.pid=.ok veth ∧ backendOf lib w c inspect address veth=b := by
  constructor
  · intro h
    unfold inspectBackend at h
    split at h
    · contradiction
    · rename_i inspect hinspect
      split at h
      · contradiction
      · rename_i hrunning
        split at h
        · contradiction
        · rename_i hhealth
          split at h
          · contradiction
          · rename_i address hnetwork
            split at h
            · contradiction
            · rename_i veth hveth
              exact ⟨inspect,address,veth,
                ⟨hinspect,Bool.eq_true_of_not_eq_false hrunning,
                  Bool.eq_true_of_not_eq_false hhealth⟩,hnetwork,hveth,Option.some.inj h⟩
  · rintro ⟨inspect,address,veth,⟨hinspect,hrunning,hhealth⟩,hnetwork,hveth,rfl⟩
    simp only [inspectBackend,hinspect,hrunning,hhealth,hnetwork,hveth]
    rfl

/-- What the loop keeps. -/
theorem inspectBackend_usable {c : ContainerSummary} {b : Backend}
    (h : inspectBackend lib host w c=some b) : b.ip.to4≠none ∧ b.mac.length=6 := by
  obtain ⟨_,_,_,_,hnetwork,_,rfl⟩ := inspectBackend_eq_some.mp h
  exact networkAddress_usable hnetwork

/-- Every discovered backend has an IPv4 address and six bytes of hardware
address. -/
theorem discoverBackends_usable {backends : List Backend}
    (h : discoverBackends lib host w=.ok backends) :
    ∀ b∈backends,b.ip.to4≠none ∧ b.mac.length=6 := by
  unfold discoverBackends at h
  split at h
  · contradiction
  · cases h
    intro b hb
    obtain ⟨c,_,hc⟩ := List.mem_filterMap.mp hb
    exact inspectBackend_usable hc

/-- Parsing of the texts of one container, for concrete runs. -/
def bridgeParsers : Parsers where
  parseIP text :=
    if text="172.17.0.2" then some [0,0,0,0,0,0,0,0,0,0,255,255,172,17,0,2] else none
  parseMAC text := if text="02:42:ac:11:00:02" then some [2,66,172,17,0,2] else none
  parsePort text := if text="8080" then some 8080 else none

/-- A host with one running container on the default bridge network. -/
def bridgeHost : Host where
  containerList _ := .ok [⟨"4f1d2a90c3b7e6",fun name => if name="lb.port" then some "8080" else none,
    by decide⟩]
  containerInspect id :=
    if id="4f1d2a90c3b7e6" then
      some ⟨"/web",true,some "healthy",4711,[⟨"",""⟩,⟨"172.17.0.2","02:42:ac:11:00:02"⟩]⟩
    else none
  containerLinks _ := .ok [⟨"device",0⟩,⟨"veth",7⟩]
  linkByIndex index := if index=7 then some "veth9a1b" else none

/-- The container of this host. -/
def bridgeBackend : Backend :=
  ⟨"4f1d2a90c3b7","web",[0,0,0,0,0,0,0,0,0,0,255,255,172,17,0,2],[2,66,172,17,0,2],8080,true,4711,
    "veth9a1b",7⟩

example : discoverBackends bridgeParsers bridgeHost ⟨"lb.backend=true",80⟩=.ok [bridgeBackend] := by
  decide

end ContainerLb.DockerDiscovery

import ContainerLb.DockerDiscovery
import ContainerLb.Convergence

/-!
# Discovery and the orders of its two loops

Discovery takes the address of a container from the first usable network that
the loop over a Go map visits, and the veth from the first veth that netlink
lists. Both orders are open, and nothing ties the two choices together. So
the discovered list depends on the order of the networks as soon as two
usable networks of a container differ, and address and veth can belong to
different interfaces as soon as the container has more than one.
-/

namespace ContainerLb.DiscoveryOrder

open CallProgram BoundedMaps HostBytes NetAddresses BpfManager PoolSync ManagerSteps
open SyncEffects SyncContract PoolRuns Convergence DockerDiscovery

/-- Order in which one poll visits the networks of each container. -/
def NetworkOrder :=
  {visit : String → List EndpointSettings → List EndpointSettings //
    ∀ id networks,(visit id networks).Perm networks}

/-- Order in which netlink lists the links of each process. -/
def LinkOrder :=
  {list : ℤ → List Link → List Link // ∀ pid links,(list pid links).Perm links}

/-- The host as a poll with an order of networks sees it. -/
def visited (host : Host) (nets : NetworkOrder) : Host :=
  {host with containerInspect := fun id => (host.containerInspect id).map fun inspect =>
    {inspect with networks := nets.1 id inspect.networks}}

/-- The host with an order of links. -/
def listed (host : Host) (order : LinkOrder) : Host :=
  {host with containerLinks := fun pid => (host.containerLinks pid).map (order.1 pid)}

/-- The containers that are listed for a watcher. -/
def listing (host : Host) (w : DockerWatcher) : Except String (List ContainerSummary) :=
  host.containerList (if w.labelFilter="" then none else some w.labelFilter)

/-- Address of one network, if the loop accepts it. -/
def usableNetwork (lib : Parsers) (ns : EndpointSettings) : Option (IP×HardwareAddr) :=
  networkAddress lib [ns]

/-- An element moved to the front. -/
def bringFirst {α : Type} [DecidableEq α] (x : α) (list : List α) : List α :=
  if x∈list then x::list.erase x else list

/-- Moving an element is a reordering. -/
theorem bringFirst_perm {α : Type} [DecidableEq α] (x : α) (list : List α) :
    (bringFirst x list).Perm list := by
  unfold bringFirst
  split
  · rename_i h
    exact (List.perm_cons_erase h).symm
  · exact .refl _

/-- The networks with a given one first. -/
def firstNetwork (ns : EndpointSettings) : NetworkOrder :=
  ⟨fun _ => bringFirst ns,fun _ => bringFirst_perm ns⟩

/-- The links with a given one first. -/
def firstLink (l : Link) : LinkOrder := ⟨fun _ => bringFirst l,fun _ => bringFirst_perm l⟩

/-- The links as they stand. -/
def storedLinks : LinkOrder := ⟨fun _ links => links,fun _ _ => .refl _⟩

section Loops

variable {lib : Parsers} {host : Host} {w : DockerWatcher}

/-- The loop over the networks takes the first usable one. -/
theorem networkAddress_eq (networks : List EndpointSettings) :
    networkAddress lib networks=networks.findSome? (usableNetwork lib) := by
  induction networks with
  | nil => rfl
  | cons ns rest ih =>
    rw [List.findSome?_cons,←ih,usableNetwork,networkAddress,networkAddress]
    by_cases hempty : ns.ipAddress=""
    · rw [if_pos hempty,if_pos hempty]
      rfl
    · rw [if_neg hempty,if_neg hempty]
      cases lib.parseIP ns.ipAddress with
      | none => rfl
      | some parsed =>
        by_cases hip : parsed.to4=none
        · simp only [if_pos hip]
          rfl
        · simp only [if_neg hip]
          cases lib.parseMAC ns.macAddress with
          | none => rfl
          | some parsedMAC =>
            by_cases hmac : parsedMAC.length=6
            · simp [hmac]
            · simp [hmac,networkAddress]

/-- A chosen address is that of some usable network. -/
theorem exists_usable {networks : List EndpointSettings} {address : IP×HardwareAddr}
    (h : networkAddress lib networks=some address) :
    ∃ ns∈networks,usableNetwork lib ns=some address := by
  rw [networkAddress_eq] at h
  exact List.exists_of_findSome?_eq_some h

/-- Whether an address is found does not depend on the order. -/
theorem networkAddress_isSome {networks other : List EndpointSettings}
    (h : networks.Perm other) :
    (networkAddress lib networks).isSome=(networkAddress lib other).isSome := by
  rw [networkAddress_eq,networkAddress_eq,Bool.eq_iff_iff,List.findSome?_isSome_iff,
    List.findSome?_isSome_iff]
  simp only [h.mem_iff]

/-- Any usable network can come first. -/
theorem networkAddress_first {networks : List EndpointSettings} {ns : EndpointSettings}
    {address : IP×HardwareAddr} (hm : ns∈networks) (h : usableNetwork lib ns=some address) :
    networkAddress lib (bringFirst ns networks)=some address := by
  rw [networkAddress_eq,bringFirst,if_pos hm,List.findSome?_cons,h]

/-- All usable networks have the same address and hardware address. -/
def Agreeing (lib : Parsers) (networks : List EndpointSettings) : Prop :=
  ∀ ns∈networks,∀ other∈networks,∀ address address',usableNetwork lib ns=some address →
    usableNetwork lib other=some address' → address=address'

/-- Then the order does not matter. -/
theorem Agreeing.networkAddress_eq {networks first second : List EndpointSettings}
    (h : Agreeing lib networks) (hf : first.Perm networks) (hs : second.Perm networks) :
    networkAddress lib first=networkAddress lib second := by
  have hsome := @networkAddress_isSome lib _ _ (hf.trans hs.symm)
  cases hfirst : networkAddress lib first with
  | none =>
    rw [hfirst,Option.isSome_none,eq_comm,Option.isSome_eq_false_iff,
      Option.isNone_iff_eq_none] at hsome
    exact hsome.symm
  | some address =>
    rw [hfirst,Option.isSome_some] at hsome
    obtain ⟨address',hsecond⟩ := Option.isSome_iff_exists.mp hsome.symm
    obtain ⟨ns,hns,husable⟩ := exists_usable hfirst
    obtain ⟨other,hother,husable'⟩ := exists_usable hsecond
    rw [hsecond,h ns (hf.mem_iff.mp hns) other (hs.mem_iff.mp hother) _ _ husable husable']

/-- Visiting in another order changes only the address that is found. -/
theorem inspectBackend_visited {nets : NetworkOrder} {c : ContainerSummary} {b : Backend} :
    inspectBackend lib (visited host nets) w c=some b ↔
      ∃ inspect address veth,Considered host c inspect ∧
        networkAddress lib (nets.1 c.id inspect.networks)=some address ∧
        findHostVeth host inspect.pid=.ok veth ∧ backendOf lib w c inspect address veth=b := by
  rw [inspectBackend_eq_some]
  constructor
  · rintro ⟨_,address,veth,⟨hinspect,hrunning,hhealth⟩,hnetwork,hveth,rfl⟩
    obtain ⟨inspect,hfound,rfl⟩ := Option.map_eq_some_iff.mp hinspect
    exact ⟨inspect,address,veth,⟨hfound,hrunning,hhealth⟩,hnetwork,hveth,rfl⟩
  · rintro ⟨inspect,address,veth,⟨hfound,hrunning,hhealth⟩,hnetwork,hveth,rfl⟩
    refine ⟨{inspect with networks := nets.1 c.id inspect.networks},address,veth,
      ⟨?_,hrunning,hhealth⟩,hnetwork,hveth,rfl⟩
    exact Option.map_eq_some_iff.mpr ⟨inspect,hfound,rfl⟩

/-- Which containers become backends does not depend on the order. -/
theorem inspectBackend_isSome (first second : NetworkOrder) (c : ContainerSummary) :
    (inspectBackend lib (visited host first) w c).isSome=
      (inspectBackend lib (visited host second) w c).isSome := by
  have himp : ∀ one other : NetworkOrder,
      (inspectBackend lib (visited host one) w c).isSome →
        (inspectBackend lib (visited host other) w c).isSome := by
    intro one other h
    obtain ⟨b,hb⟩ := Option.isSome_iff_exists.mp h
    obtain ⟨inspect,address,veth,hc,hnetwork,hveth,_⟩ := inspectBackend_visited.mp hb
    have hperm := (one.2 c.id inspect.networks).trans (other.2 c.id inspect.networks).symm
    have hsome := @networkAddress_isSome lib _ _ hperm
    rw [hnetwork,Option.isSome_some] at hsome
    obtain ⟨address',hnetwork'⟩ := Option.isSome_iff_exists.mp hsome.symm
    exact Option.isSome_iff_exists.mpr
      ⟨_,inspectBackend_visited.mpr ⟨inspect,address',veth,hc,hnetwork',hveth,rfl⟩⟩
  exact Bool.eq_iff_iff.mpr ⟨himp first second,himp second first⟩

end Loops

/-- Lists with the same elements left out agree only element by element. -/
theorem filterMap_eq_iff {α β : Type} {f g : α → Option β} {list : List α}
    (h : ∀ x∈list,(f x).isSome=(g x).isSome) :
    list.filterMap f=list.filterMap g ↔ ∀ x∈list,f x=g x := by
  refine ⟨fun heq => ?_,List.filterMap_congr⟩
  induction list with
  | nil => exact List.forall_mem_nil _
  | cons x rest ih =>
    rw [List.forall_mem_cons] at h ⊢
    cases hf : f x with
    | none =>
      have hg : g x=none := by simpa [hf] using h.1.symm
      rw [List.filterMap_cons_none hf,List.filterMap_cons_none hg] at heq
      exact ⟨hg.symm,ih h.2 heq⟩
    | some y =>
      obtain ⟨z,hg⟩ : ∃ z,g x=some z := by
        rw [←Option.isSome_iff_exists,←h.1,hf]
        rfl
      rw [List.filterMap_cons_some hf,List.filterMap_cons_some hg,List.cons.injEq] at heq
      exact ⟨by rw [hg,heq.1],ih h.2 heq.2⟩

section Stability

variable {lib : Parsers} {host : Host} {w : DockerWatcher}

/-- All containers that become backends have agreeing usable networks. -/
def AgreeingHost (lib : Parsers) (host : Host) (w : DockerWatcher) : Prop :=
  ∀ containers,listing host w=.ok containers → ∀ c∈containers,∀ inspect,Considered host c inspect →
    (∃ veth,findHostVeth host inspect.pid=.ok veth) → Agreeing lib inspect.networks

/-- A listing is turned into backends one container at a time. -/
theorem discoverBackends_of_listing {containers : List ContainerSummary}
    (h : listing host w=.ok containers) :
    discoverBackends lib host w=.ok (containers.filterMap (inspectBackend lib host w)) := by
  unfold listing at h
  rw [discoverBackends,h]

/-- Without a listing there is an error. -/
theorem discoverBackends_of_error {cause : String} (h : listing host w=.error cause) :
    discoverBackends lib host w=.error (.containerList cause) := by
  unfold listing at h
  rw [discoverBackends,h]

/-- A considered container with an address and a veth is discovered. -/
theorem discovered {nets : NetworkOrder} {containers : List ContainerSummary} {c : ContainerSummary}
    {inspect : ContainerJSON} {address : IP×HardwareAddr} {veth : String×ℤ}
    (hlist : listing host w=.ok containers) (hc : c∈containers) (hconsidered : Considered host c inspect)
    (hnetwork : networkAddress lib (nets.1 c.id inspect.networks)=some address)
    (hveth : findHostVeth host inspect.pid=.ok veth) :
    ∃ backends,discoverBackends lib (visited host nets) w=.ok backends ∧
      backendOf lib w c inspect address veth∈backends := by
  have hvisited : listing (visited host nets) w=.ok containers := hlist
  refine ⟨_,discoverBackends_of_listing hvisited,List.mem_filterMap.mpr ⟨c,hc,?_⟩⟩
  exact inspectBackend_visited.mpr ⟨inspect,address,veth,hconsidered,hnetwork,hveth,rfl⟩

/-- Every discovered backend comes from such a container. -/
theorem mem_discovered {nets : NetworkOrder} {backends : List Backend} {b : Backend}
    (h : discoverBackends lib (visited host nets) w=.ok backends) (hb : b∈backends) :
    ∃ containers c inspect address veth,listing host w=.ok containers ∧ c∈containers ∧
      Considered host c inspect ∧
      networkAddress lib (nets.1 c.id inspect.networks)=some address ∧
      findHostVeth host inspect.pid=.ok veth ∧ backendOf lib w c inspect address veth=b := by
  cases hlist : listing host w with
  | error cause =>
    have hvisited : listing (visited host nets) w=.error cause := hlist
    rw [discoverBackends_of_error hvisited] at h
    contradiction
  | ok containers =>
    have hvisited : listing (visited host nets) w=.ok containers := hlist
    rw [discoverBackends_of_listing hvisited,Except.ok.injEq] at h
    rw [←h] at hb
    obtain ⟨c,hc,hmade⟩ := List.mem_filterMap.mp hb
    obtain ⟨inspect,address,veth,hrest⟩ := inspectBackend_visited.mp hmade
    exact ⟨containers,c,inspect,address,veth,rfl,hc,hrest⟩

/-- Two orders give the same list exactly when they give the same backends. -/
theorem discoverBackends_eq_iff {containers : List ContainerSummary}
    (hlist : listing host w=.ok containers) (first second : NetworkOrder) :
    discoverBackends lib (visited host first) w=discoverBackends lib (visited host second) w ↔
      ∀ c∈containers,inspectBackend lib (visited host first) w c=
        inspectBackend lib (visited host second) w c := by
  have hvisited : ∀ nets,listing (visited host nets) w=.ok containers := fun _ => hlist
  rw [discoverBackends_of_listing (hvisited first),discoverBackends_of_listing (hvisited second),
    Except.ok.injEq]
  exact filterMap_eq_iff fun c _ => inspectBackend_isSome first second c

/-- With agreeing networks the order of a poll does not matter. -/
theorem AgreeingHost.discoverBackends_eq (h : AgreeingHost lib host w)
    (first second : NetworkOrder) :
    discoverBackends lib (visited host first) w=discoverBackends lib (visited host second) w := by
  cases hlist : listing host w with
  | error cause =>
    have hvisited : ∀ nets,listing (visited host nets) w=.error cause := fun _ => hlist
    rw [discoverBackends_of_error (hvisited first),discoverBackends_of_error (hvisited second)]
  | ok containers =>
    refine (discoverBackends_eq_iff hlist first second).mpr fun c hc => Option.ext fun b => ?_
    have himp : ∀ one other : NetworkOrder,inspectBackend lib (visited host one) w c=some b →
        inspectBackend lib (visited host other) w c=some b := by
      intro one other hb
      obtain ⟨inspect,address,veth,hconsidered,hnetwork,hveth,rfl⟩ := inspectBackend_visited.mp hb
      have hagree := h containers hlist c hc inspect hconsidered ⟨veth,hveth⟩
      rw [hagree.networkAddress_eq (one.2 _ _) (other.2 _ _)] at hnetwork
      exact inspectBackend_visited.mpr ⟨inspect,address,veth,hconsidered,hnetwork,hveth,rfl⟩
    exact ⟨himp first second,himp second first⟩

/-- Disagreeing networks show in the list under some orders. -/
theorem agreeingHost_of_stable
    (h : ∀ first second : NetworkOrder,
      discoverBackends lib (visited host first) w=discoverBackends lib (visited host second) w) :
    AgreeingHost lib host w := by
  intro containers hlist c hc inspect hconsidered ⟨veth,hveth⟩ ns hns other hother address address'
    husable husable'
  have hmake : ∀ ns∈inspect.networks,∀ address,usableNetwork lib ns=some address →
      inspectBackend lib (visited host (firstNetwork ns)) w c=
        some (backendOf lib w c inspect address veth) := fun ns hns address husable =>
    inspectBackend_visited.mpr
      ⟨inspect,address,veth,hconsidered,networkAddress_first hns husable,hveth,rfl⟩
  have hsame := (discoverBackends_eq_iff hlist (firstNetwork ns) (firstNetwork other)).mp
    (h (firstNetwork ns) (firstNetwork other)) c hc
  rw [hmake ns hns address husable,hmake other hother address' husable',Option.some_inj] at hsame
  exact Prod.ext (congrArg Backend.ip hsame) (congrArg Backend.mac hsame)

/-- Right after a successful reconciliation of the first list, after any run,
that of the second list only writes entries in use, whatever fails. -/
def Quiet (before after : List Backend) : Prop :=
  ∀ (order : ByteOrder) (vip : IP) (vport : UInt16) (srcMAC : HardwareAddr)
    (attempts : List Attempt) (first second : Attempt),
    first.newBackends=before → second.newBackends=after →
    Succeeds order (run order (initial vip vport srcMAC) attempts) first →
    ∀ e∈(attempt order (run order (initial vip vport srcMAC) (attempts++[first])) second).events,
      refreshes e.op=true

/-- The same list again is quiet. -/
theorem quiet_self (backends : List Backend) : Quiet backends backends := by
  intro order vip vport srcMAC attempts first second hfirst hsecond hok e he
  have hc := attempt_contract order (run order (initial vip vport srcMAC) attempts) first
  have hcalls := (attempt_contract order
    (run order (initial vip vport srcMAC) (attempts++[first])) second).calls e he
  rw [run_concat] at hcalls
  refine SyncCall.refreshes hcalls ?_ fun b hb => ?_
  · rw [hsecond,←hfirst]
    exact (hc.done hok).1
  · rw [hsecond,←hfirst] at hb
    exact (hc.veths hok b.vethName).mpr (Or.inl (List.mem_map_of_mem hb))

/-- Stability of discovery. Two polls of the same Docker state give the same
list under any two orders of the networks, with a quiet second
reconciliation, if and only if the usable networks of every container that
becomes a backend agree in address and hardware address. -/
theorem discovery_stable_iff (lib : Parsers) (host : Host) (w : DockerWatcher) :
    (∀ first second : NetworkOrder,
      discoverBackends lib (visited host first) w=discoverBackends lib (visited host second) w ∧
      ∀ before after,discoverBackends lib (visited host first) w=.ok before →
        discoverBackends lib (visited host second) w=.ok after → Quiet before after) ↔
      AgreeingHost lib host w := by
  constructor
  · intro h
    exact agreeingHost_of_stable fun first second => (h first second).1
  · intro h first second
    have hsame := h.discoverBackends_eq first second
    refine ⟨hsame,fun before after hbefore hafter => ?_⟩
    rw [hsame,hafter,Except.ok.injEq] at hbefore
    rw [←hbefore]
    exact quiet_self after

end Stability

/-- Parsing of the texts of a container in two networks, for concrete runs. -/
def dualParsers : Parsers where
  parseIP text :=
    if text="172.17.0.2" then some (v4InV6Prefix++[172,17,0,2])
    else if text="172.18.0.2" then some (v4InV6Prefix++[172,18,0,2]) else none
  parseMAC text :=
    if text="02:42:ac:11:00:02" then some [2,66,172,17,0,2]
    else if text="02:42:ac:12:00:02" then some [2,66,172,18,0,2] else none
  parsePort _ := none

/-- The default network and another one. -/
def bridgeNetwork : EndpointSettings := ⟨"172.17.0.2","02:42:ac:11:00:02"⟩

/-- Another network. -/
def otherNetwork : EndpointSettings := ⟨"172.18.0.2","02:42:ac:12:00:02"⟩

/-- A host with one running container in two networks. -/
def dualHost : Host where
  containerList _ := .ok [⟨"8c05be71d2f943",fun _ => none,by decide⟩]
  containerInspect id :=
    if id="8c05be71d2f943" then some ⟨"/web",true,none,4711,[bridgeNetwork,otherNetwork]⟩
    else none
  containerLinks _ := .ok [⟨"device",0⟩,⟨"veth",7⟩,⟨"veth",9⟩]
  linkByIndex index :=
    if index=7 then some "veth9a1b" else if index=9 then some "veth77c2" else none

/-- The container as it is discovered with an address byte. -/
def dualBackend (net : UInt8) : Backend :=
  ⟨"8c05be71d2f9","web",v4InV6Prefix++[172,net,0,2],[2,66,172,net,0,2],80,true,4711,"veth9a1b",7⟩

/-- Two polls of the same state find different addresses, and the second
reconciliation clears the slot that is in use. -/
theorem discovery_flips :
    discoverBackends dualParsers (visited dualHost (firstNetwork bridgeNetwork))
        ⟨"lb.backend=true",80⟩=.ok [dualBackend 17] ∧
      discoverBackends dualParsers (visited dualHost (firstNetwork otherNetwork))
        ⟨"lb.backend=true",80⟩=.ok [dualBackend 18] ∧
      dualBackend 17≠dualBackend 18 ∧
      Succeeds .little bridgePool (unhindered [dualBackend 17]) ∧
      ∃ e∈(attempt .little (run .little bridgePool [unhindered [dualBackend 17]])
        (unhindered [dualBackend 18])).events,e.op=.putBackend 0 emptyBackend := by
  decide

/-- An interface of a container as the kernel has it. -/
structure Interface where
  /-- Kind of the interface. -/
  type : String
  /-- Its IPv4 address, if it has one. -/
  ipv4 : Option Quad
  /-- Its hardware address. -/
  mac : HardwareAddr
  /-- For a veth, host index of its peer. -/
  parentIndex : ℤ
  deriving DecidableEq

/-- What netlink reports of it to the loop. -/
def Interface.link (iface : Interface) : Link := ⟨iface.type,iface.parentIndex⟩

/-- Docker and netlink report the interfaces of each process. -/
structure Describes (lib : Parsers) (host : Host) (interfaces : ℤ → List Interface) : Prop where
  /-- A network has the address and hardware address of one interface. -/
  networks : ∀ id inspect,host.containerInspect id=some inspect → ∀ ns∈inspect.networks,
    ∀ ip mac,lib.parseIP ns.ipAddress=some ip → lib.parseMAC ns.macAddress=some mac →
      ∃ iface∈interfaces inspect.pid,iface.ipv4=ip.to4 ∧ iface.mac=mac
  /-- The links are those of all interfaces. -/
  links : ∀ pid links,host.containerLinks pid=.ok links →
    links.Perm ((interfaces pid).map Interface.link)

/-- Address, hardware address and veth of a backend belong to one interface:
a veth with these addresses whose peer is the named host interface. -/
def OneInterface (host : Host) (interfaces : List Interface) (b : Backend) : Prop :=
  ∃ iface∈interfaces,iface.type="veth" ∧ iface.ipv4=b.ip.to4 ∧ iface.mac=b.mac ∧
    iface.parentIndex=b.vethIdx ∧ host.linkByIndex b.vethIdx=some b.vethName

/-- Every usable network and every veth with a host peer belong together. -/
def Unambiguous (lib : Parsers) (host : Host) (interfaces : List Interface)
    (networks : List EndpointSettings) : Prop :=
  ∀ ns∈networks,∀ ip mac,usableNetwork lib ns=some (ip,mac) →
    ∀ v∈interfaces,v.type="veth" → v.parentIndex≠0 → host.linkByIndex v.parentIndex≠none →
      ∃ iface∈interfaces,iface.type="veth" ∧ iface.ipv4=ip.to4 ∧ iface.mac=mac ∧
        iface.parentIndex=v.parentIndex

section Pairing

variable {lib : Parsers} {host : Host} {w : DockerWatcher} {interfaces : ℤ → List Interface}

/-- The links in another order. -/
theorem listed_links {order : LinkOrder} {pid : ℤ} {shown : List Link} :
    (listed host order).containerLinks pid=.ok shown ↔
      ∃ links,host.containerLinks pid=.ok links ∧ order.1 pid links=shown := by
  change (host.containerLinks pid).map (order.1 pid)=_ ↔ _
  cases host.containerLinks pid <;> simp [Except.map]

/-- A veth that is found is the peer of some veth of the container. -/
theorem Describes.found (hd : Describes lib host interfaces) {order : LinkOrder} {pid index : ℤ}
    {name : String} (h : findHostVeth (listed host order) pid=.ok (name,index)) :
    (∃ links,host.containerLinks pid=.ok links) ∧
      (∃ v∈interfaces pid,v.type="veth" ∧ v.parentIndex=index) ∧ index≠0 ∧
      host.linkByIndex index=some name := by
  obtain ⟨shown,l,hlinks,hfirst,hindex,hne,hname⟩ := findHostVeth_eq_ok.mp h
  obtain ⟨links,hstored,rfl⟩ := listed_links.mp hlinks
  have hmem := (order.2 pid links).mem_iff.mp (List.mem_of_find?_eq_some hfirst)
  obtain ⟨v,hv,rfl⟩ := List.mem_map.mp ((hd.links pid links hstored).mem_iff.mp hmem)
  have hveth := List.find?_some hfirst
  have htype : v.type="veth" := of_decide_eq_true hveth
  exact ⟨⟨links,hstored⟩,⟨v,hv,htype,hindex⟩,hne,hname⟩

/-- Any veth with a host peer can be found. -/
theorem Describes.findable (hd : Describes lib host interfaces) {pid : ℤ} {v : Interface}
    {links : List Link} {name : String} (hlinks : host.containerLinks pid=.ok links)
    (hv : v∈interfaces pid) (htype : v.type="veth") (hne : v.parentIndex≠0)
    (hname : host.linkByIndex v.parentIndex=some name) :
    findHostVeth (listed host (firstLink v.link)) pid=.ok (name,v.parentIndex) := by
  have hmem : v.link∈links := (hd.links pid links hlinks).mem_iff.mpr (List.mem_map_of_mem hv)
  have hlisted : (listed host (firstLink v.link)).containerLinks pid=
      .ok (bringFirst v.link links) := listed_links.mpr ⟨links,hlinks,rfl⟩
  have hfirst : (bringFirst v.link links).find? (fun l => l.type="veth")=some v.link := by
    rw [bringFirst,if_pos hmem]
    exact List.find?_cons_of_pos (decide_eq_true htype)
  exact (findHostVeth_of_first hlisted hfirst).mpr ⟨rfl,hne,hname⟩

end Pairing

/-- Pairing of address and veth. For a host whose replies describe the
interfaces of its containers, every backend that discovery can produce under
some order of networks and some order of links belongs to one interface, if
and only if in every considered container each usable network belongs
together with each veth that has a host peer. -/
theorem one_interface_iff (lib : Parsers) (host : Host) (w : DockerWatcher)
    (interfaces : ℤ → List Interface) (hd : Describes lib host interfaces) :
    (∀ (nets : NetworkOrder) (order : LinkOrder) (backends : List Backend),
      discoverBackends lib (visited (listed host order) nets) w=.ok backends →
      ∀ b∈backends,OneInterface host (interfaces b.containerPID) b) ↔
    ∀ containers,listing host w=.ok containers → ∀ c∈containers,∀ inspect,
      Considered host c inspect → (∃ links,host.containerLinks inspect.pid=.ok links) →
      Unambiguous lib host (interfaces inspect.pid) inspect.networks := by
  constructor
  · intro h containers hlist c hc inspect hconsidered ⟨links,hlinks⟩ ns hns ip mac husable v hv
      htype hne hpeer
    obtain ⟨name,hname⟩ := Option.ne_none_iff_exists'.mp hpeer
    have hveth := hd.findable hlinks hv htype hne hname
    -- With this network and this veth first, the container is discovered with both.
    obtain ⟨backends,hdiscover,hmem⟩ := @discovered lib (listed host (firstLink v.link)) w
      (firstNetwork ns) _ _ _ _ _ hlist hc hconsidered (networkAddress_first hns husable) hveth
    obtain ⟨iface,hiface,hkind,hipv4,hmac,hindex,_⟩ :=
      h (firstNetwork ns) (firstLink v.link) backends hdiscover _ hmem
    exact ⟨iface,hiface,hkind,hipv4,hmac,hindex⟩
  · intro h nets order backends hdiscover b hb
    obtain ⟨containers,c,inspect,⟨ip,mac⟩,⟨name,index⟩,hlist,hc,hconsidered,hnetwork,hveth,rfl⟩ :=
      mem_discovered hdiscover hb
    obtain ⟨ns,hns,husable⟩ := exists_usable hnetwork
    obtain ⟨hlinks,⟨v,hv,htype,rfl⟩,hne,hname⟩ := hd.found hveth
    have hpeer : host.linkByIndex v.parentIndex≠none := by
      rw [hname]
      exact Option.some_ne_none name
    obtain ⟨iface,hiface,hkind,hipv4,hmac,hindex⟩ := h containers hlist c hc inspect hconsidered
      hlinks ns ((nets.2 _ _).mem_iff.mp hns) ip mac husable v hv htype hne hpeer
    exact ⟨iface,hiface,hkind,hipv4,hmac,hindex,hname⟩

/-- The interfaces of a container in two networks. -/
def dualInterfaces (_ : ℤ) : List Interface :=
  [⟨"device",some ⟨127,0,0,1⟩,[0,0,0,0,0,0],0⟩,
    ⟨"veth",some ⟨172,17,0,2⟩,[2,66,172,17,0,2],7⟩,
    ⟨"veth",some ⟨172,18,0,2⟩,[2,66,172,18,0,2],9⟩]

/-- Docker and netlink report these interfaces. -/
theorem dual_describes : Describes dualParsers dualHost dualInterfaces where
  networks := by
    intro id inspect hinspect ns hns ip mac hip hmac
    simp only [dualHost,Option.ite_none_right_eq_some,Option.some_inj] at hinspect
    obtain ⟨_,rfl⟩ := hinspect
    rcases List.mem_pair.mp hns with rfl|rfl
    all_goals
      obtain rfl := Option.some_inj.mp hip
      obtain rfl := Option.some_inj.mp hmac
      decide
  links := by
    intro pid links hlinks
    obtain rfl := Except.ok.inj hlinks
    exact .refl _

/-- With the second network visited first, the backend has the address of one
interface and the veth of the other. -/
theorem mixed_interfaces :
    Describes dualParsers dualHost dualInterfaces ∧
      discoverBackends dualParsers (visited (listed dualHost storedLinks) (firstNetwork otherNetwork))
        ⟨"lb.backend=true",80⟩=.ok [dualBackend 18] ∧
      ¬OneInterface dualHost (dualInterfaces (dualBackend 18).containerPID) (dualBackend 18) := by
  refine ⟨dual_describes,by decide,?_⟩
  unfold OneInterface
  decide

/-- The interfaces of a container on the default bridge network. -/
def bridgeInterfaces (_ : ℤ) : List Interface :=
  [⟨"device",some ⟨127,0,0,1⟩,[0,0,0,0,0,0],0⟩,⟨"veth",some ⟨172,17,0,2⟩,[2,66,172,17,0,2],7⟩]

/-- Docker and netlink report these too: the entry without texts names no
address. -/
theorem bridge_describes : Describes bridgeParsers bridgeHost bridgeInterfaces where
  networks := by
    intro id inspect hinspect ns hns ip mac hip hmac
    simp only [bridgeHost,Option.ite_none_right_eq_some,Option.some_inj] at hinspect
    obtain ⟨_,rfl⟩ := hinspect
    rcases List.mem_pair.mp hns with rfl|rfl
    · contradiction
    · obtain rfl := Option.some_inj.mp hip
      obtain rfl := Option.some_inj.mp hmac
      decide
  links := by
    intro pid links hlinks
    obtain rfl := Except.ok.inj hlinks
    exact .refl _

/-- A container with one network is discovered with the veth of the same
interface. -/
theorem bridge_interface :
    OneInterface bridgeHost (bridgeInterfaces bridgeBackend.containerPID) bridgeBackend := by
  refine (one_interface_iff bridgeParsers bridgeHost ⟨"lb.backend=true",80⟩ bridgeInterfaces
    bridge_describes).mpr ?_ (firstNetwork ⟨"",""⟩) storedLinks [bridgeBackend] (by decide) _
    (List.mem_singleton_self _)
  intro containers _ c _ inspect hconsidered _ ns hns ip mac husable v hv htype _ _
  have hinspect := hconsidered.1
  simp only [bridgeHost,Option.ite_none_right_eq_some,Option.some_inj] at hinspect
  obtain ⟨_,rfl⟩ := hinspect
  rcases List.mem_pair.mp hns with rfl|rfl
  · contradiction
  · obtain ⟨rfl,rfl⟩ := Prod.mk.inj (Option.some_inj.mp husable)
    rcases List.mem_pair.mp hv with rfl|rfl
    · contradiction
    · decide

end ContainerLb.DiscoveryOrder

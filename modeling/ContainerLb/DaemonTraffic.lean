import ContainerLb.DaemonRuns
import ContainerLb.DiscoveryOrder

/-!
# Where the traffic of the running program goes

At every moment of every execution, also while `Close` runs beside a
reconciliation, the maps hold nothing but encodings of backends that some
poll has discovered, and the links are on their veths. So a frame that is
rewritten between two steps goes to a container that the engine reported as
running and healthy, with its address and hardware address, and a reply gets
the virtual address only if it comes from the address of such a container.

The calls of `Sync` are bounded by its text alone, because `Close` changes
the links behind its back.
-/

namespace ContainerLb.DaemonTraffic

open CallProgram BoundedMaps HostBytes NetAddresses BpfManager PoolSync ManagerSteps
open DockerDiscovery PacketPath PacketEffects DnatRefinement Lifecycle InterruptedRuns Daemon
open DaemonRuns DiscoveryOrder

variable {order : ByteOrder} {config : UInt32 → LbConfig} {new : List Backend}

/-- The configuration that a pool writes for a number of backends. -/
def configOf (order : ByteOrder) (p : Pool) (count : UInt32) : LbConfig :=
  lbConfig order p.vip p.vport count p.srcMAC

/-- Calls that `Sync` can issue for a list, whatever is replied. -/
inductive Issued (order : ByteOrder) (config : UInt32 → LbConfig) (new : List Backend) :
    Call → Prop
  /-- A slot is zeroed. -/
  | clearSlot (index : UInt32) : Issued order config new (.putBackend index emptyBackend)
  /-- A slot gets an element of the list. -/
  | writeSlot (index : UInt32) {b : Backend} {v4 : Quad} (hb : b∈new) (hv : b.ip.to4=some v4) :
      Issued order config new (.putBackend index (backendInfo order v4 b.port b.mac))
  /-- The address of an element is registered. -/
  | register (index : UInt32) {b : Backend} {v4 : Quad} (hb : b∈new) (hv : b.ip.to4=some v4) :
      Issued order config new (.putBackendIp (order.load32 v4) index)
  /-- An address is removed. -/
  | forget (key : UInt32) : Issued order config new (.deleteBackendIp key)
  /-- The veth of an element gets the program. -/
  | attach {b : Backend} (hb : b∈new) : Issued order config new (.attachVethXDP b.vethName b.vethIdx)
  /-- A veth loses the program. -/
  | detach (vethName : String) : Issued order config new (.detachVethXDP vethName)
  /-- The configuration of the pool. -/
  | configure (count : UInt32) : Issued order config new (.putConfig 0 (config count))

theorem clearBackend_yields (index : UInt32) (ip : IP) :
    Yields (Issued order config new) (fun _ => True) (clearBackend order index ip) := by
  simp only [clearBackend,yields_bind,yields_request]
  refine ⟨.clearSlot index,fun reply => ?_⟩
  cases reply with
  | some err => trivial
  | none =>
    cases ip.to4 with
    | none => trivial
    | some v4 => exact ⟨.forget _,fun _ => trivial⟩

theorem updateBackend_yields {b : Backend} (hb : b∈new) (index : UInt32) :
    Yields (Issued order config new) (fun _ => True)
      (updateBackend order index b.ip b.port b.mac) := by
  unfold updateBackend
  cases hv : b.ip.to4 with
  | none => trivial
  | some v4 =>
    refine ⟨.writeSlot index hb hv,fun reply => ?_⟩
    cases reply with
    | some err => trivial
    | none => exact ⟨.register index hb hv,fun _ => trivial⟩

theorem clearReused_yields (old : List Backend) (i : ℕ) (b : Backend) :
    Yields (Issued order config new) (fun _ => True) (clearReused order old i b) := by
  unfold clearReused
  split
  · trivial
  · exact (yields_bind _ _).mpr (clearBackend_yields _ _)

/-- The body of the first loop keeps the configuration of the pool. -/
theorem writeBackend_yields {now : Pool} {b : Backend} (hnow : configOf order now=config) (hb : b∈new)
    (i : ℕ) :
    Yields (Issued order config new) (fun result => configOf order result.1=config)
      (writeBackend order now i b) := by
  refine (yields_bind _ _).mpr ((clearReused_yields _ _ _).imp fun _ _ => ?_)
  refine (yields_bind _ _).mpr ((updateBackend_yields hb _).imp fun err _ => ?_)
  cases err with
  | some err => exact hnow
  | none =>
    by_cases hattached : b.vethName∈now.byVeth
    · simpa [hattached] using hnow
    · simp only [hattached,if_false]
      refine ⟨.attach hb,fun reply => ?_⟩
      cases reply <;> exact hnow

/-- The first loop. -/
theorem writeBackends_yields {now : Pool} {rest : List Backend} (hnow : configOf order now=config)
    (hrest : ∀ b∈rest,b∈new) (i : ℕ) (oldByVeth : VethMap) :
    Yields (Issued order config new) (fun result => configOf order result.1=config)
      (writeBackends order now i oldByVeth rest) := by
  induction rest generalizing now i oldByVeth with
  | nil => exact hnow
  | cons b rest ih =>
    have hb := hrest b List.mem_cons_self
    refine (yields_bind _ _).mpr ((writeBackend_yields hnow hb i).imp ?_)
    rintro ⟨now,err⟩ hnow
    cases err with
    | some err => exact hnow
    | none => exact ih hnow (fun b hm => hrest b (List.mem_cons_of_mem _ hm)) _ _

/-- The second loop. -/
theorem clearStale_yields (idx : ℕ) (old : List Backend) :
    Yields (Issued order config new) (fun _ => True) (clearStale order idx old) := by
  induction old generalizing idx with
  | nil => trivial
  | cons b rest ih =>
    refine (yields_bind _ _).mpr ((clearBackend_yields _ _).imp fun err _ => ?_)
    cases err with
    | some err => trivial
    | none => exact ih _

/-- The third loop. -/
theorem detachStale_yields {now : Pool} (hnow : configOf order now=config) (entries : VethEntries) :
    Yields (Issued order config new) (fun result => configOf order result.1=config)
      (detachStale now entries) := by
  induction entries generalizing now with
  | nil => exact hnow
  | cons entry rest ih =>
    refine ⟨.detach _,fun reply => ?_⟩
    cases reply with
    | some err => exact hnow
    | none => exact ih hnow

/-- `Sync` issues these calls only and keeps the configuration of the pool. -/
theorem sync_yields {p : Pool} (hp : configOf order p=config) (new : List Backend)
    (iter : IterOrder) :
    Yields (Issued order config new) (fun result => configOf order result.1=config)
      (sync order p new iter) := by
  refine (yields_bind _ _).mpr
    ((writeBackends_yields hp (fun _ hm => hm) _ _).imp ?_)
  rintro ⟨written,left,err⟩ hwritten
  cases err with
  | some err => exact hwritten
  | none =>
    refine (yields_bind _ _).mpr ((clearStale_yields _ _).imp fun err _ => ?_)
    cases err with
    | some err => exact hwritten
    | none =>
      refine (yields_bind _ _).mpr ((detachStale_yields hwritten _).imp ?_)
      rintro ⟨detached,err⟩ hdetached
      cases err with
      | some err => exact hdetached
      | none =>
        have hissued : Issued order config new
            (.putConfig 0 (configOf order detached (UInt32.ofNat new.length))) := by
          rw [hdetached]
          exact .configure _
        refine ⟨hissued,fun reply => ?_⟩
        cases reply <;> exact hdetached

/-- The maps and links refer to known backends only. -/
structure Confined (order : ByteOrder) (config : UInt32 → LbConfig) (known : Backend → Prop)
    (world : World) : Prop where
  /-- A slot in use encodes a known backend. -/
  slots : ∀ index info,world.backendMap.lookup index=some info → info=emptyBackend ∨
    ∃ b v4,known b ∧ b.ip.to4=some v4 ∧ info=backendInfo order v4 b.port b.mac
  /-- A registered address is that of a known backend. -/
  keys : ∀ key index,world.backendIpsMap.lookup key=some index →
    ∃ b v4,known b ∧ b.ip.to4=some v4 ∧ key=order.load32 v4
  /-- The configuration is empty or that of the pool. -/
  config : ∀ cfg,world.configMap.lookup 0=some cfg → cfg=emptyConfig ∨ ∃ count,cfg=config count
  /-- A live link is on the veth of a known backend. -/
  links : ∀ l link,world.links.lookup l=some link → ∃ b,known b ∧ link.iface=b.vethIdx

variable {known : Backend → Prop} {world : World}

/-- Freshly loaded maps refer to no backend. -/
theorem newWorld_confined (order : ByteOrder) (config : UInt32 → LbConfig)
    (known : Backend → Prop) : Confined order config known newWorld := by
  refine ⟨fun index info h => .inl ?_,fun key index h => ?_,fun cfg h => .inl ?_,
    fun l link h => ?_⟩
  · have hlt := (ArrayMap.lookup_isSome _ index).mp (by rw [h]; rfl)
    exact Option.some.inj (h.symm.trans (ArrayMap.lookup_replicate hlt))
  · exact absurd (h.symm.trans (HashMap.lookup_empty key)) (Option.some_ne_none _)
  · exact Option.some.inj (h.symm.trans (ArrayMap.lookup_replicate (by decide)))
  · exact absurd (h.symm.trans (Finmap.lookup_empty l)) (Option.some_ne_none _)

/-- More backends may become known. -/
theorem Confined.imp {more : Backend → Prop} (h : Confined order config known world)
    (himp : ∀ b,known b → more b) : Confined order config more world := by
  refine ⟨fun index info hl => (h.slots index info hl).imp_right ?_,fun key index hl => ?_,h.config,
    fun l link hl => ?_⟩
  · rintro ⟨b,v4,hb,hv⟩
    exact ⟨b,v4,himp b hb,hv⟩
  · obtain ⟨b,v4,hb,hv⟩ := h.keys key index hl
    exact ⟨b,v4,himp b hb,hv⟩
  · obtain ⟨b,hb,hv⟩ := h.links l link hl
    exact ⟨b,himp b hb,hv⟩

/-- What is left after an erasure was there before. -/
theorem lookup_of_lookup_erase {κ ν : Type} [DecidableEq κ] {map : Finmap fun _ : κ => ν}
    {key other : κ} {value : ν} (h : (map.erase key).lookup other=some value) :
    map.lookup other=some value := by
  by_cases hsame : other=key
  · rw [hsame,Finmap.lookup_erase] at h
    contradiction
  · rwa [Finmap.lookup_erase_ne hsame] at h

/-- A slot may get the encoding of a known backend. -/
theorem Confined.putBackend (h : Confined order config known world) (index : UInt32)
    (fault : Fault) {info : BackendInfo} (hinfo : info=emptyBackend ∨
      ∃ b v4,known b ∧ b.ip.to4=some v4 ∧ info=backendInfo order v4 b.port b.mac) :
    Confined order config known (step (.putBackend index info) fault world).after := by
  rcases putBackend_cases index info fault world with ⟨_,hafter⟩|⟨_,written,hput,hafter⟩ <;>
    rw [hafter]
  · exact h
  · refine ⟨fun other value hl => ?_,h.keys,h.config,h.links⟩
    rw [ArrayMap.lookup_put hput] at hl
    split at hl
    · cases hl
      exact hinfo
    · exact h.slots other value hl

/-- The address of a known backend may be registered. -/
theorem Confined.putBackendIp (h : Confined order config known world) (index : UInt32)
    (fault : Fault) {b : Backend} {v4 : Quad} (hb : known b) (hv : b.ip.to4=some v4) :
    Confined order config known
      (step (.putBackendIp (order.load32 v4) index) fault world).after := by
  rcases putBackendIp_cases (order.load32 v4) index fault world with
    ⟨_,hafter⟩|⟨_,written,hput,hafter⟩ <;> rw [hafter]
  · exact h
  · refine ⟨h.slots,fun other value hl => ?_,h.config,h.links⟩
    rw [HashMap.lookup_put hput] at hl
    split at hl
    · exact ⟨b,v4,hb,hv,‹_›⟩
    · exact h.keys other value hl

/-- Any address may be forgotten. -/
theorem Confined.deleteBackendIp (h : Confined order config known world) (key : UInt32)
    (fault : Fault) :
    Confined order config known (step (.deleteBackendIp key) fault world).after := by
  rcases deleteBackendIp_cases key fault world with ⟨_,hafter,_⟩|⟨written,hdelete,hafter⟩ <;>
    rw [hafter]
  · exact h
  · refine ⟨h.slots,fun other value hl => ?_,h.config,h.links⟩
    rw [HashMap.lookup_delete hdelete] at hl
    split at hl
    · contradiction
    · exact h.keys other value hl

/-- A veth of a known backend may be attached. -/
theorem Confined.attachVethXDP (h : Confined order config known world) (fault : Fault)
    {b : Backend} (hb : known b) : Confined order config known
      (step (.attachVethXDP b.vethName b.vethIdx) fault world).after := by
  rcases attachVethXDP_cases b.vethName b.vethIdx fault world with
    ⟨_,hafter,_⟩|⟨_,hafter,_⟩|⟨_,_,mode,hafter⟩ <;> rw [hafter]
  · exact h
  · exact h
  · refine ⟨h.slots,h.keys,h.config,fun l link hl => ?_⟩
    by_cases hfresh : l=world.nextLink
    · rw [hfresh,Finmap.lookup_insert] at hl
      cases hl
      exact ⟨b,hb,rfl⟩
    · rw [Finmap.lookup_insert_of_ne _ hfresh] at hl
      exact h.links l link hl

/-- Any veth may be detached. -/
theorem Confined.detachVethXDP (h : Confined order config known world) (vethName : String)
    (fault : Fault) :
    Confined order config known (step (.detachVethXDP vethName) fault world).after := by
  rcases detachVethXDP_cases vethName fault world with
    ⟨_,hafter,_⟩|⟨_,hafter,_⟩|⟨_,closed,_,hafter⟩ <;> rw [hafter]
  · exact h
  · exact h
  · refine ⟨h.slots,h.keys,h.config,fun l link hl => ?_⟩
    exact h.links l link (lookup_of_lookup_erase hl)

/-- The configuration of the pool may be written. -/
theorem Confined.putConfig (h : Confined order config known world) (count : UInt32)
    (fault : Fault) :
    Confined order config known (step (.putConfig 0 (config count)) fault world).after := by
  rcases putConfig_cases 0 (config count) fault world with ⟨_,hafter⟩|⟨_,written,hput,hafter⟩ <;>
    rw [hafter]
  · exact h
  · refine ⟨h.slots,h.keys,fun cfg hl => ?_,h.links⟩
    rw [ArrayMap.lookup_put hput,if_pos rfl] at hl
    cases hl
    exact .inr ⟨count,rfl⟩

/-- Every call of `Sync` for known backends refers to them only. -/
theorem Issued.confined {op : Call} (hop : Issued order config new op) (hnew : ∀ b∈new,known b)
    (fault : Fault) (h : Confined order config known world) :
    Confined order config known (step op fault world).after := by
  cases hop with
  | clearSlot index => exact h.putBackend index fault (.inl rfl)
  | @writeSlot index b v4 hb hv => exact h.putBackend index fault (.inr ⟨b,v4,hnew b hb,hv,rfl⟩)
  | @register index b v4 hb hv => exact h.putBackendIp index fault (hnew b hb) hv
  | forget key => exact h.deleteBackendIp key fault
  | @attach b hb => exact h.attachVethXDP fault (hnew b hb)
  | detach vethName => exact h.detachVethXDP vethName fault
  | configure count => exact h.putConfig count fault

/-- So does every call of `Close`. -/
theorem Confined.lifeEffect {k : Kernel} (h : Confined order config known k.world) (op : LifeCall)
    (reply : Answer) : Confined order config known (lifeEffect op reply k).world := by
  have hveth : ∀ vethName,Confined order config known (closeVethLink vethName reply k.world) := by
    intro vethName
    unfold closeVethLink
    split
    · refine ⟨h.slots,h.keys,h.config,fun l link hl => ?_⟩
      exact h.links l link (lookup_of_lookup_erase hl)
    · exact ⟨h.slots,h.keys,h.config,h.links⟩
  cases op with
  | closeVeth vethName => exact hveth vethName
  | loadLbObjects =>
    cases reply with
    | error err => exact h
    | ok iface => exact newWorld_confined order config known
  | _ => cases reply <;> exact h

variable {cpus : ℕ} {lib : Parsers} {w : DockerWatcher} {actions : List (Action cpus)}
variable {s s' first : Process cpus} {action : Action cpus} {b : Backend}

/-- Some poll found a listed container running and healthy, with the address,
hardware address and veth of this backend. -/
def Seen (lib : Parsers) (w : DockerWatcher) (actions : List (Action cpus)) (b : Backend) : Prop :=
  ∃ host iter containers c inspect,.discover host iter∈actions ∧ listing host w=.ok containers ∧
    c∈containers ∧ Considered host c inspect ∧
    networkAddress lib inspect.networks=some (b.ip,b.mac) ∧
    findHostVeth host inspect.pid=.ok (b.vethName,b.vethIdx)

/-- It stays so. -/
theorem Seen.append (h : Seen lib w actions b) (more : List (Action cpus)) :
    Seen lib w (actions++more) b := by
  obtain ⟨host,iter,containers,c,inspect,hm,hrest⟩ := h
  exact ⟨host,iter,containers,c,inspect,List.mem_append_left _ hm,hrest⟩

/-- Every element of a discovered list has been seen. -/
theorem seen_of_discovered {host : Host} {backends : List Backend}
    (h : discoverBackends lib host w=.ok backends) (iter : IterOrder) :
    ∀ b∈backends,Seen lib w (actions++[.discover host iter]) b := by
  intro b hb
  have hm : Action.discover host iter∈actions++[.discover host iter] :=
    List.mem_append_right _ List.mem_cons_self
  cases hlist : listing host w with
  | error cause =>
    rw [discoverBackends_of_error hlist] at h
    contradiction
  | ok containers =>
    rw [discoverBackends_of_listing hlist] at h
    cases h
    obtain ⟨c,hc,hinspect⟩ := List.mem_filterMap.mp hb
    obtain ⟨inspect,address,veth,hconsidered,hnetwork,hveth,rfl⟩ :=
      inspectBackend_eq_some.mp hinspect
    exact ⟨host,iter,containers,c,inspect,hm,hlist,hc,hconsidered,hnetwork,hveth⟩

/-- What holds at every moment of an execution. -/
structure Traced (lib : Parsers) (order : ByteOrder) (w : DockerWatcher)
    (config : UInt32 → LbConfig) (actions : List (Action cpus)) (s : Process cpus) : Prop where
  /-- The discovery is the same. -/
  watcher : s.settings.watcher=w
  /-- The pool has its configuration. -/
  pool : configOf order s.pool=config
  /-- The maps and links. -/
  world : Confined order config (Seen lib w actions) s.kernel.world
  /-- A running `Sync`. -/
  syncing : ∀ backends rest,s.reconciler=.syncing backends rest →
    (∀ b∈backends,Seen lib w actions b) ∧
      Yields (Issued order config backends) (fun result => configOf order result.1=config) rest

/-- Steps of other threads keep it. -/
theorem Traced.of_quiet (h : Traced lib order w config actions s) (action : Action cpus)
    (hsettings : s'.settings=s.settings) (hkernel : s'.kernel.world=s.kernel.world)
    (hpool : s'.pool=s.pool)
    (hreconciler : ∀ backends rest,s'.reconciler=.syncing backends rest →
      s.reconciler=.syncing backends rest) :
    Traced lib order w config (actions++[action]) s' := by
  refine ⟨hsettings ▸ h.watcher,hpool ▸ h.pool,?_,fun backends rest hsyncing => ?_⟩
  · rw [hkernel]
    exact h.world.imp fun b hb => hb.append [action]
  · obtain ⟨hseen,hyields⟩ := h.syncing backends rest (hreconciler backends rest hsyncing)
    exact ⟨fun b hb => (hseen b hb).append [action],hyields⟩

/-- Every step keeps it. -/
theorem Traced.moves (h : Traced lib order w config actions s)
    (hmove : Moves lib order s action s') :
    Traced lib order w config (actions++[action]) s' := by
  have hworld : ∀ action,Confined order config (Seen lib w (actions++[action])) s.kernel.world :=
    fun action => h.world.imp fun b hb => hb.append [action]
  cases hmove with
  | @discovered host iter backends hidle hok =>
    rw [h.watcher] at hok
    refine ⟨h.watcher,h.pool,hworld _,fun backends rest hsyncing => ?_⟩
    cases hsyncing
    exact ⟨seen_of_discovered hok iter,sync_yields h.pool _ iter⟩
  | @call fault backends op next hsyncing hlock =>
    obtain ⟨hseen,hissued,hnext⟩ := h.syncing _ _ hsyncing
    have hseen' : ∀ b∈backends,Seen lib w (actions++[.call fault]) b :=
      fun b hb => (hseen b hb).append _
    refine ⟨h.watcher,h.pool,hissued.confined hseen' _ (hworld _),fun backends rest hrest => ?_⟩
    cases hrest
    exact ⟨hseen',hnext _⟩
  | returned hsyncing => exact ⟨h.watcher,(h.syncing _ _ hsyncing).2,hworld _,nofun⟩
  | close hclosing =>
    refine ⟨h.watcher,h.pool,(hworld _).lifeEffect _ _,fun backends rest hsyncing => ?_⟩
    obtain ⟨hseen,hyields⟩ := h.syncing backends rest hsyncing
    exact ⟨fun b hb => (hseen b hb).append _,hyields⟩
  | stopPolling => exact h.of_quiet _ rfl rfl rfl nofun
  | pollFailed => exact h.of_quiet _ rfl rfl rfl fun _ _ hs => hs
  | snapshot => exact h.of_quiet _ rfl rfl rfl fun _ _ hs => hs
  | readRow => exact h.of_quiet _ rfl rfl rfl fun _ _ hs => hs
  | print => exact h.of_quiet _ rfl rfl rfl fun _ _ hs => hs
  | stopCollecting => exact h.of_quiet _ rfl rfl rfl fun _ _ hs => hs
  | signal => exact h.of_quiet _ rfl rfl rfl fun _ _ hs => hs
  | enterClose => exact h.of_quiet _ rfl rfl rfl fun _ _ hs => hs
  | closed => exact h.of_quiet _ rfl rfl rfl fun _ _ hs => hs
  | ingress => exact h.of_quiet _ rfl rfl rfl fun _ _ hs => hs

/-- The whole execution. -/
theorem steps_traced (hfirst : Launched first) (h : steps lib order first actions=some s) :
    Traced lib order first.settings.watcher (configOf order first.pool) actions s := by
  refine steps_induction (Traced lib order first.settings.watcher (configOf order first.pool))
    ⟨rfl,rfl,?_,fun backends rest hsyncing => ?_⟩ (fun _ _ _ _ _ hs hmove => hs.moves hmove) h
  · rw [hfirst.world]
    exact newWorld_confined order _ _
  · rw [hfirst.threads.2.1] at hsyncing
    contradiction

/-- A frame at the ingress interface is passed on unchanged or addressed to a
known backend. -/
theorem Confined.ingress (h : Confined order config known world) (counters : Counters cpus)
    (cpu : Fin cpus) (prandom : UInt32) (frame : List UInt8) :
    ∃ v,xdpLbIngress order world counters cpu prandom frame=some v ∧ v.action=.pass ∧
      (v.frame=frame ∨ ∃ b count,known b ∧ AddressedTo b v.frame ∧
        slice v.frame 6 6=(config count).srcMac.toList) := by
  rcases xdpLbIngress_cases counters cpu order world prandom frame with
    ⟨cfg,backend,rewritten,hs,hrun,hd⟩|⟨_,hrun⟩
  · refine ⟨_,hrun,rfl,.inr ?_⟩
    rcases h.slots _ backend hs.slot with rfl|⟨b,v4,hb,hv,rfl⟩
    · exact absurd rfl hs.address
    · rcases h.config cfg hs.config with rfl|⟨count,rfl⟩
      · exact absurd rfl hs.count
      · obtain ⟨v,hv',haddressed,hmac⟩ := Selects.addressed counters cpu hv hs
        rw [hrun] at hv'
        cases hv'
        exact ⟨b,count,hb,haddressed,hmac⟩
  · exact ⟨_,hrun,rfl,.inl rfl⟩

/-- A frame from a veth is passed on unchanged or comes from the address of a
known backend and gets the configured one. -/
theorem Confined.veth (h : Confined order config known world) (frame : List UInt8) :
    ∃ rewritten,xdpVethSnat order world frame=some (.pass,rewritten) ∧
      (rewritten=frame ∨ ∃ b v4 count,known b ∧ b.ip.to4=some v4 ∧ slice frame 26 4=v4.toList ∧
        (config count).vip≠0 ∧ Snatted (order.store32 (config count).vip) frame rewritten) := by
  by_cases htranslates : ∃ cfg,Translates order world frame cfg
  · obtain ⟨cfg,ht⟩ := htranslates
    obtain ⟨rewritten,hrun,hsnatted⟩ := xdpVethSnat_translated ht
    refine ⟨rewritten,hrun,.inr ?_⟩
    obtain ⟨saddr,idx,hread,hlookup⟩ := ht.registered
    obtain ⟨b,v4,hb,hv,rfl⟩ := h.keys saddr idx hlookup
    obtain ⟨quad,_,hslice,hquad⟩ := @IcmpFrame.read32 order frame 26 ht.icmp (by decide)
    have hsame : quad=v4 := order.load32_inj.mp (Option.some.inj (hquad.symm.trans hread))
    rcases h.config cfg ht.config with rfl|⟨count,rfl⟩
    · exact absurd rfl ht.vip
    · exact ⟨b,v4,count,hb,hv,hsame ▸ hslice,ht.vip,hsnatted⟩
  · exact ⟨frame,xdpVethSnat_otherwise fun cfg ht => htranslates ⟨cfg,ht⟩,.inl rfl⟩

/-- The traffic is confined to discovered containers. At every moment of
every execution, under any failures and also during and after `Close`, a
frame that the ingress interface handles between two steps is passed on,
unchanged or rewritten for a container that some poll found running and
healthy, with its address and hardware address and with the hardware address
of the ingress interface as source. A frame that a veth handles between two
steps is passed on, unchanged or, when its source is the address of such a
container, with the virtual address as source. The SNAT program is attached
to veths of such containers only. Frames that other steps overtake are the
subject of `FramesInFlight`. -/
theorem traffic_confined (lib : Parsers) (order : ByteOrder) (cpus : ℕ) (flags : Flags)
    (answers : List Answer) (first : Process cpus)
    (hlaunch : launch lib cpus flags answers=.ok first) (actions : List (Action cpus))
    (s : Process cpus) (hsteps : steps lib order first actions=some s) :
    (∀ cpu prandom frame,(ingressVerdict order s cpu prandom frame).action=.pass ∧
      ((ingressVerdict order s cpu prandom frame).frame=frame ∨
        ∃ b,Seen lib first.settings.watcher actions b ∧
          AddressedTo b (ingressVerdict order s cpu prandom frame).frame ∧
          slice (ingressVerdict order s cpu prandom frame).frame 6 6=
            (macBytes first.settings.srcMAC).toList)) ∧
    (∀ iface frame,(vethVerdict order s iface frame).1=.pass ∧
      ((vethVerdict order s iface frame).2=frame ∨
        ∃ b v4 vip,Seen lib first.settings.watcher actions b ∧ b.ip.to4=some v4 ∧
          slice frame 26 4=v4.toList ∧ first.settings.vip.to4=some vip ∧
          Snatted vip frame (vethVerdict order s iface frame).2)) ∧
    ∀ l link,s.kernel.world.links.lookup l=some link →
      ∃ b,Seen lib first.settings.watcher actions b ∧ link.iface=b.vethIdx := by
  have hfirst := launch_launched hlaunch
  have hworld := (steps_traced hfirst hsteps).world
  rw [hfirst.pool] at hworld
  refine ⟨fun cpu prandom frame => ?_,fun iface frame => ?_,hworld.links⟩
  · unfold ingressVerdict
    split
    · exact ⟨rfl,.inl rfl⟩
    · obtain ⟨v,hv,hpass,hframe⟩ := hworld.ingress s.counters cpu prandom frame
      rw [hv,Option.getD_some]
      refine ⟨hpass,hframe.imp_right ?_⟩
      rintro ⟨b,count,hb,haddressed,hmac⟩
      exact ⟨b,hb,haddressed,hmac⟩
  · unfold vethVerdict
    split
    · obtain ⟨rewritten,hrun,hframe⟩ := hworld.veth frame
      rw [hrun,Option.getD_some]
      refine ⟨rfl,hframe.imp_right ?_⟩
      rintro ⟨b,v4,count,hb,hv,hslice,hvip,hsnatted⟩
      cases hto4 : first.settings.vip.to4 with
      | none =>
        have hzero : (configOf order (newPool first.settings.vip first.settings.vport
            first.settings.srcMAC) count).vip=0 := by
          simp [configOf,newPool,lbConfig,hto4]
        exact absurd hzero hvip
      | some vip =>
        have hsame : order.store32 (configOf order (newPool first.settings.vip first.settings.vport
            first.settings.srcMAC) count).vip=vip := by
          simp [configOf,newPool,lbConfig,hto4,order.store32_load32]
        rw [hsame] at hsnatted
        exact ⟨b,v4,vip,hb,hv,hslice,rfl,hsnatted⟩
    · exact ⟨rfl,.inl rfl⟩

/-- After the first reconciliation on the bridge a request is rewritten, for a
container that was found. -/
theorem traffic_confined_first_sync :
    ∃ s b,steps hostParsers .little bridgeProcess firstSync=some s ∧
      (ingressVerdict .little s (Fin.last 0) 7 (echo 8 0 0 ⟨192,168,0,9⟩ ⟨172,17,0,1⟩)).frame≠
        echo 8 0 0 ⟨192,168,0,9⟩ ⟨172,17,0,1⟩ ∧
      Seen hostParsers ⟨"lb.backend=true",80⟩ firstSync b ∧ AddressedTo b
        (ingressVerdict .little s (Fin.last 0) 7 (echo 8 0 0 ⟨192,168,0,9⟩ ⟨172,17,0,1⟩)).frame := by
  have hsteps : ∃ s,steps hostParsers .little bridgeProcess firstSync=some s ∧
      (ingressVerdict .little s (Fin.last 0) 7 (echo 8 0 0 ⟨192,168,0,9⟩ ⟨172,17,0,1⟩)).frame≠
        echo 8 0 0 ⟨192,168,0,9⟩ ⟨172,17,0,1⟩ := ⟨_,rfl,by decide⟩
  obtain ⟨s,hs,hrewritten⟩ := hsteps
  obtain ⟨b,hseen,haddressed,_⟩ := (((traffic_confined hostParsers .little 1 hostFlags granted
    bridgeProcess launch_bridge firstSync s hs).1 (Fin.last 0) 7
    (echo 8 0 0 ⟨192,168,0,9⟩ ⟨172,17,0,1⟩)).2).resolve_left hrewritten
  exact ⟨s,b,hs,hrewritten,hseen,haddressed⟩

end ContainerLb.DaemonTraffic

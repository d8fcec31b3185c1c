import ContainerLb.DaemonRuns
import ContainerLb.DatagramPath
import ContainerLb.VethLinks

/-!
# The service in steady state

Once the same list has been synced twice without failures, every further poll
that finds it writes what is there already, whatever fails, so the maps stay
its image at every moment. On datagrams the two packet programs are then the
service over the list: a client that sends a control message to the virtual
address gets the answer of one of the backends as if the host at that address
had sent it.
-/

namespace ContainerLb.SteadyService

open CallProgram BoundedMaps HostBytes NetAddresses BpfManager PoolSync DockerDiscovery
open ManagerSteps SyncPhases SyncEffects SyncContract PoolRuns ReturnPath VethLinks Convergence
open Lifecycle StartAndClose InterruptedRuns Daemon DaemonRuns PacketPath Balancing Datagrams
open DatagramPath

variable {cpus : ℕ} {lib : Parsers} {order : ByteOrder} {first mid s s' : Process cpus}
variable {action : Action cpus} {actions more : List (Action cpus)} {backends : List Backend}

/-- Every poll among some steps fails or finds this list. -/
def OnlyFinds (lib : Parsers) (w : DockerWatcher) (backends : List Backend)
    (actions : List (Action cpus)) : Prop :=
  ∀ host iter found,.discover host iter∈actions → discoverBackends lib host w=.ok found →
    found=backends

/-- There is none among no steps. -/
theorem onlyFinds_nil {w : DockerWatcher} : OnlyFinds lib w backends ([] : List (Action cpus)) :=
  fun _ _ _ hm => absurd hm List.not_mem_nil

/-- The reconciliations started since some point were all for one list, and a
running one is among them. -/
def Furthered (backends : List Backend) (earlier attempts : List Attempt) (r : Reconciler) : Prop :=
  ∃ further,attempts=earlier++further ∧ (∀ a∈further,a.newBackends=backends) ∧
    ∀ found rest,r=.syncing found rest → further≠[]

/-- One more step. -/
theorem Furthered.moves {w : DockerWatcher} {earlier attempts : List Attempt}
    (h : Furthered backends earlier attempts s.reconciler) (hw : s.settings.watcher=w)
    (hfinds : OnlyFinds lib w backends [action]) (hmove : Moves lib order s action s') :
    Furthered backends earlier (extend lib w attempts action) s'.reconciler := by
  obtain ⟨further,rfl,hlist,hsyncing⟩ := h
  cases hmove with
  | pollFailed hidle herr =>
    rw [hw] at herr
    exact ⟨further,by simp only [extend,herr],hlist,hsyncing⟩
  | @discovered host iter found hidle hok =>
    rw [hw] at hok
    refine ⟨further++[⟨found,iter,[]⟩],by simp only [extend,hok,List.append_assoc],?_,by simp⟩
    intro a ha
    rcases List.mem_append.mp ha with ha|ha
    · exact hlist a ha
    · cases List.mem_singleton.mp ha
      exact hfinds host iter found List.mem_cons_self hok
  | @call fault found op next hs hlock =>
    -- the call belongs to the last reconciliation, which is a further one
    obtain ⟨init,a,rfl⟩ := List.eq_nil_or_concat' further |>.resolve_left (hsyncing _ _ hs)
    refine ⟨init++[{a with faults := a.faults++[fault]}],?_,?_,by simp⟩
    · simp [extend,←List.append_assoc]
    · intro b hb
      rcases List.mem_append.mp hb with hb|hb
      · exact hlist b (List.mem_append_left _ hb)
      · cases List.mem_singleton.mp hb
        exact hlist a (List.mem_append_right _ (List.mem_singleton.mpr rfl))
  | returned => exact ⟨further,rfl,hlist,by simp⟩
  | stopPolling => exact ⟨further,rfl,hlist,by simp⟩
  | snapshot => exact ⟨further,rfl,hlist,hsyncing⟩
  | readRow => exact ⟨further,rfl,hlist,hsyncing⟩
  | print => exact ⟨further,rfl,hlist,hsyncing⟩
  | stopCollecting => exact ⟨further,rfl,hlist,hsyncing⟩
  | signal => exact ⟨further,rfl,hlist,hsyncing⟩
  | enterClose => exact ⟨further,rfl,hlist,hsyncing⟩
  | close => exact ⟨further,rfl,hlist,hsyncing⟩
  | closed => exact ⟨further,rfl,hlist,hsyncing⟩
  | ingress => exact ⟨further,rfl,hlist,hsyncing⟩

/-- All steps since some point. -/
theorem steps_furthered {w : DockerWatcher} (hw : mid.settings.watcher=w)
    (hidle : ∀ found rest,mid.reconciler≠.syncing found rest)
    (h : steps lib order mid more=some s) (hfinds : OnlyFinds lib w backends more) :
    Furthered backends (schedule lib w actions) (schedule lib w (actions++more)) s.reconciler := by
  have hall := steps_induction (fun more s => s.settings.watcher=w ∧
      (OnlyFinds lib w backends more → Furthered backends (schedule lib w actions)
        (schedule lib w (actions++more)) s.reconciler)) ?_ ?_ h
  · exact hall.2 hfinds
  · exact ⟨hw,fun _ => ⟨[],by simp,nofun,fun found rest hs => absurd hs (hidle found rest)⟩⟩
  · rintro more s action s' _ ⟨hws,hs⟩ hmove
    refine ⟨by rw [hmove.settings,hws],fun hfinds => ?_⟩
    have hbefore := hs fun host iter found hm =>
      hfinds host iter found (List.mem_append_left _ hm)
    rw [←List.append_assoc,schedule_concat]
    exact hbefore.moves hws (fun host iter found hm =>
      hfinds host iter found (List.mem_append_right _ hm)) hmove

/-- The reconciliations since some point are finished, or the last one is in
the middle of its calls. -/
theorem Furthered.reconciled {start : State} {earlier attempts : List Attempt} {pool : Pool}
    {world : World} {r : Reconciler} (h : Furthered backends earlier attempts r)
    (hreconciled : Reconciled order start attempts pool world r) :
    ∃ finished,(∀ a∈finished,a.newBackends=backends) ∧
      ((∀ found rest,r≠.syncing found rest) ∧
          run order (run order start earlier) finished=⟨pool,world⟩ ∨
        ∃ iter events rest,r=.syncing backends rest ∧
          pool=(run order (run order start earlier) finished).pool ∧
          Interrupted handle (sync order pool backends iter)
            (run order (run order start earlier) finished).world events rest world) := by
  obtain ⟨further,rfl,hlist,hne⟩ := h
  by_cases hsyncing : ∃ found rest,r=.syncing found rest
  · obtain ⟨found,rest,rfl⟩ := hsyncing
    obtain ⟨init,a,rfl⟩ := List.eq_nil_or_concat' further |>.resolve_left (hne found rest rfl)
    obtain ⟨finished,iter,events,hsplit,hpool,hinterrupted⟩ := hreconciled
    rw [←List.append_assoc] at hsplit
    obtain ⟨rfl,hlast⟩ := List.append_inj' hsplit rfl
    cases List.singleton_inj.mp hlast
    obtain rfl : found=backends := hlist _ (List.mem_append_right _ (List.mem_singleton.mpr rfl))
    rw [run_append] at hpool hinterrupted
    exact ⟨init,fun b hb => hlist b (List.mem_append_left _ hb),
      .inr ⟨iter,events,rest,rfl,hpool,hinterrupted⟩⟩
  · have hfree : ∀ found rest,r≠.syncing found rest := fun found rest hs => hsyncing ⟨found,rest,hs⟩
    have hend := hreconciled.run_eq hfree
    rw [run_append] at hend
    exact ⟨further,hlist,.inl ⟨hfree,hend⟩⟩

/-- At the image of a list, no call of its reconciliations changes the world,
so they do not either before they end. -/
theorem interrupted_world {state : State} {iter : IterOrder} {events : List Step}
    {rest : Go (Pool×Option GoError)} {world : World} (h : Image order state backends)
    (hi : Interrupted handle (sync order state.pool backends iter) state.world events rest world) :
    world=state.world := by
  obtain ⟨o,later,hr,hevents⟩ := hi.exists_runs
  have hkept := (hr.invariant (SyncCall order state.pool backends) (fun w => w=state.world)
    (fun _ fault w hop hw => by rw [hw]; exact (h.call hop).2 fault) (sync_contract hr).calls rfl).1
  rcases List.mem_cons.mp (List.mem_of_getElem? hi.getElem?_present) with hsame|hlater
  · exact hsame
  · obtain ⟨e,he,rfl⟩ := List.mem_map.mp hlater
    exact hkept e (by rw [hevents]; exact List.mem_append_left _ he)

/-- While only one list is found, the program stays at its image. -/
theorem steady_state {start : State} {earlier attempts : List Attempt} {pool : Pool} {world : World}
    {r : Reconciler} (himage : Image order (run order start earlier) backends)
    (htracked : Tracked (run order start earlier).pool (run order start earlier).world)
    (hfurther : Furthered backends earlier attempts r)
    (hreconciled : Reconciled order start attempts pool world r) :
    world=(run order start earlier).world := by
  obtain ⟨finished,hlist,hcase⟩ := hfurther.reconciled hreconciled
  rw [himage.run_kept htracked hlist] at hcase
  rcases hcase with ⟨_,hend⟩|⟨iter,events,rest,_,rfl,hinterrupted⟩
  · rw [hend]
  · exact interrupted_world himage hinterrupted

/-- Where they are attached, the packet programs are a service on datagrams. -/
structure Serves (order : ByteOrder) (s : Process cpus) (service : Service Quad Mac) : Prop where
  /-- Frames at the ingress interface are forwarded. -/
  forward : ∀ cpu prandom frame d,parse frame=some d →
    (ingressVerdict order s cpu prandom frame).action=.pass ∧
      parse (ingressVerdict order s cpu prandom frame).frame=
        some (service.forward Icmp prandom.toNat d)
  /-- Frames from a veth come back. -/
  back : ∀ iface frame d,SnatOn s.kernel.world iface → parse frame=some d →
    (vethVerdict order s iface frame).1=.pass ∧
      parse (vethVerdict order s iface frame).2=some (service.back Icmp d)

/-- At the image of a list the program serves it. -/
theorem serves_of_image {state : State} (himage : Image order state backends)
    (hzero : ∀ b∈backends,b.ip.to4≠some ⟨0,0,0,0⟩) (hworld : s.kernel.world=state.world)
    (hattached : s.kernel.ingress≠none) :
    Serves order s (serviceOf state.pool.vip state.pool.srcMAC backends) := by
  obtain ⟨link,hlink⟩ := Option.ne_none_iff_exists'.mp hattached
  constructor
  · intro cpu prandom frame d hparse
    rw [parse_eq_some] at hparse
    subst hparse
    obtain ⟨after,hrun⟩ := @ingress_forwards _ _ _ _ s.counters cpu prandom himage hzero d
    simp only [ingressVerdict,hlink,hworld,hrun,Option.getD_some,parse_eq_some,and_self]
  · intro iface frame d hon hparse
    rw [parse_eq_some] at hparse
    subst hparse
    rw [vethVerdict,if_pos hon,hworld,veth_returns himage]
    exact ⟨rfl,parse_eq_some.mpr rfl⟩

/-- No veth name is given to two interfaces. -/
def OneIface (veth : String → ℤ) (attempts : List Attempt) : Prop :=
  ∀ a∈attempts,∀ b∈a.newBackends,b.vethIdx=veth b.vethName

instance (veth : String → ℤ) (attempts : List Attempt) : Decidable (OneIface veth attempts) :=
  inferInstanceAs (Decidable (∀ a∈attempts,∀ b∈a.newBackends,b.vethIdx=veth b.vethName))

/-- Then links are on the interfaces that their names say. -/
theorem smoothRun_iface {veth : String → ℤ} {state : State} {attempts : List Attempt}
    (hstate : Tidy order state) (hlinked : Linked state.world)
    (hsmooth : SmoothRun order state attempts) (hone : OneIface veth attempts)
    (hfirst : ∀ name iface,ifaceOf state.world name=some iface → iface=veth name) :
    ∀ name iface,ifaceOf (run order state attempts).world name=some iface → iface=veth name := by
  induction attempts generalizing state with
  | nil => exact hfirst
  | cons a rest ih =>
    have hr := attempt_runs order state a
    have htidy := next_tidy hsmooth.1 hstate
    have hnext : Linked (next order state a).world := runs_linked hlinked hr
    refine ih htidy hnext hsmooth.2 (fun b hb => hone b (List.mem_cons_of_mem _ hb)) ?_
    intro name iface hiface
    have hpool : (next order state a).pool.backends=a.newBackends :=
      ((attempt_contract order state a).done hsmooth.1.1).1
    have hname : name∈vethNames a.newBackends := by
      by_contra hout
      have hgone : name∉(next order state a).world.vethLinks := by
        rw [←Finmap.mem_keys,htidy.veths.1,hpool,List.mem_toFinset]
        exact hout
      rw [(Linked.ifaceOf_eq_none hnext).mpr hgone] at hiface
      contradiction
    have hgiven := sync_iface hstate.settled.tracked hlinked hr hsmooth.1.1 hname
    rw [show ifaceOf (attempt order state a).state name=some iface from hiface] at hgiven
    rcases Option.or_eq_some_iff.mp hgiven.symm with hold|⟨_,hnew⟩
    · exact hfirst name iface hold
    · obtain ⟨b,hb,rfl⟩ := Option.map_eq_some_iff.mp hnew
      have hsame : b.vethName=name := by simpa using List.find?_some hb
      rw [←hsame]
      exact hone a List.mem_cons_self b (List.mem_of_find?_eq_some hb)

/-- The SNAT program is on the veth of every backend. -/
theorem snatOn_of_image {veth : String → ℤ} {state : State} {b : Backend}
    (himage : Image order state backends) (hlinked : Linked state.world)
    (hone : ∀ name iface,ifaceOf state.world name=some iface → iface=veth name)
    (hb : b∈backends) (hidx : b.vethIdx=veth b.vethName) : SnatOn state.world b.vethIdx := by
  have hname : b.vethName∈state.world.vethLinks := by
    rw [←Finmap.mem_keys,himage.veths.1,List.mem_toFinset]
    exact List.mem_map_of_mem hb
  have hsome : ifaceOf state.world b.vethName≠none :=
    fun hnone => (Linked.ifaceOf_eq_none hlinked).mp hnone hname
  obtain ⟨iface,hiface⟩ := Option.ne_none_iff_exists'.mp hsome
  obtain ⟨link,hlink,rfl⟩ := Option.map_eq_some_iff.mp hiface
  obtain ⟨l,hl,hlive⟩ := Option.bind_eq_some_iff.mp hlink
  refine ⟨l,Finmap.mem_keys.mpr (Finmap.mem_of_lookup_eq_some hlive),link,hlive,?_⟩
  rw [hidx]
  exact hone _ _ hiface

/-- Every request for an address is answered by a backend from a list, and
the client sees the answer as if the host at that address had sent it. The
answer is not balanced again. -/
def AnswersAsOne (order : ByteOrder) (s : Process cpus) (vip : Quad) (backends : List Backend) :
    Prop :=
  ∀ cpu prandom request m,parse request=some m → Icmp m.content → m.dst=vip →
    ∃ b∈backends,∃ sent,parse (ingressVerdict order s cpu prandom request).frame=some sent ∧
      some sent.dst=b.ip.to4 ∧ sent.dstLink=macBytes b.mac ∧ sent.src=m.src ∧
      sent.content=m.content ∧
      ∀ (answer : Content → Content) reply,Icmp (answer m.content) →
        parse reply=some (sent.answered answer) →
        ∃ out,parse (vethVerdict order s b.vethIdx reply).2=some out ∧
          out.seen=(m.answered answer).seen ∧
          (m.src≠vip → ∀ cpu prandom,parse (ingressVerdict order s cpu prandom
            (vethVerdict order s b.vethIdx reply).2).frame=some out)

/-- What the service hides, the program hides. -/
theorem Serves.answersAsOne {vip : IP} {v4 : Quad} {srcMAC : HardwareAddr}
    (h : Serves order s (serviceOf vip srcMAC backends)) (hvip : vipOf vip=some v4)
    (hne : backends≠[]) (hips : ∀ b∈backends,∃ v4,b.ip.to4=some v4)
    (hon : ∀ b∈backends,SnatOn s.kernel.world b.vethIdx) :
    AnswersAsOne order s v4 backends := by
  intro cpu prandom request m hrequest hicmp hdst
  have haccepts : (serviceOf vip srcMAC backends).Accepts Icmp m := by
    refine ⟨hicmp,fun other hother => ?_⟩
    rw [hdst]
    exact Option.some.inj (hvip.symm.trans hother)
  have hlt := Nat.mod_lt prandom.toNat (List.length_pos_of_ne_nil hne)
  have hb := List.getElem?_eq_getElem hlt
  have hmem := List.mem_of_getElem? hb
  obtain ⟨b4,hb4⟩ := hips _ hmem
  have hpick := serviceOf_pick vip srcMAC backends prandom.toNat
  rw [hb,Option.map_some,hb4,Option.getD_some] at hpick
  have hmember : _∈(serviceOf vip srcMAC backends).members := List.mem_of_getElem? hpick
  obtain ⟨_,hsent⟩ := h.forward cpu prandom request m hrequest
  rw [Service.forward_of_accepts haccepts hpick] at hsent
  refine ⟨_,hmem,_,hsent,hb4.symm,rfl,rfl,rfl,fun answer reply hanswer hreply => ?_⟩
  obtain ⟨_,hout⟩ := h.back _ reply _ (hon _ hmem) hreply
  rw [←Service.forward_of_accepts haccepts hpick] at hout
  have hseen := Service.seen_back hvip haccepts hmember hpick hanswer
  refine ⟨_,hout,hseen,fun hclient cpu prandom => ?_⟩
  have hdst := congrArg (fun seen => seen.2.1) hseen
  rw [(h.forward cpu prandom _ _ hout).2,Service.forward_other hvip (hdst.trans_ne hclient)]

/-- Two reconciliations of one list at the end of a run without failures. -/
theorem image_of_twice {vip : IP} {vport : UInt16} {srcMAC : HardwareAddr} {attempts : List Attempt}
    {a b : Attempt} (hsmooth : SmoothRun order (initial vip vport srcMAC) (attempts++[a,b]))
    (hsame : a.newBackends=b.newBackends)
    (hdistinct : (b.newBackends.map fun b => b.ip.to4).Nodup) :
    Image order (run order (initial vip vport srcMAC) (attempts++[a,b])) b.newBackends := by
  obtain ⟨hbefore,ha,hb,_⟩ := smoothRun_append.mp hsmooth
  have htidy := next_tidy ha (smoothRun_induction _ (initial_tidy order vip vport srcMAC)
    (fun _ _ => next_tidy) hbefore)
  have hdone := ((attempt_contract order _ a).done ha.1).1
  rw [run_append]
  exact next_image htidy hb (hdone.trans hsame) hdistinct

/-- At this moment between two polls all reconciliations have succeeded
without failures, the last two for one list of distinct addresses. -/
structure SyncedTwice (lib : Parsers) (order : ByteOrder) (first : Process cpus)
    (actions : List (Action cpus)) (mid : Process cpus) (backends : List Backend) : Prop where
  /-- The moment is reached. -/
  reached : steps lib order first actions=some mid
  /-- No reconciliation is running. -/
  idle : ∀ found rest,mid.reconciler≠.syncing found rest
  /-- There were no failures. -/
  smooth : SmoothRun order (origin first) (schedule lib first.settings.watcher actions)
  /-- The last two reconciliations. -/
  twice : ∃ earlier a b,schedule lib first.settings.watcher actions=earlier++[a,b] ∧
    a.newBackends=backends ∧ b.newBackends=backends
  /-- No address occurs twice. -/
  distinct : (backends.map fun b => b.ip.to4).Nodup
  /-- None is zero. -/
  nonzero : ∀ b∈backends,b.ip.to4≠some ⟨0,0,0,0⟩

namespace SyncedTwice

/-- Then the maps are the image of the list. -/
theorem image (h : SyncedTwice lib order first actions mid backends) :
    Image order (run order (origin first) (schedule lib first.settings.watcher actions))
      backends := by
  obtain ⟨earlier,a,b,hschedule,ha,rfl⟩ := h.twice
  have hsmooth := h.smooth
  rw [hschedule] at hsmooth ⊢
  exact image_of_twice hsmooth ha h.distinct

/-- They stay so while only this list is found. -/
theorem steady (h : SyncedTwice lib order first actions mid backends) (hfirst : Launched first)
    (hfinds : OnlyFinds lib first.settings.watcher backends more)
    (hsteps : steps lib order mid more=some s) (hopen : s.main.isShut=false) :
    s.kernel.world=(run order (origin first)
      (schedule lib first.settings.watcher actions)).world ∧ s.kernel.ingress≠none := by
  have hall : steps lib order first (actions++more)=some s := by
    rw [steps_append,h.reached]
    exact hsteps
  have hworking := steps_working hfirst hall hopen
  have hsettled := run_settled order first.settings.vip first.settings.vport first.settings.srcMAC
    (schedule lib first.settings.watcher actions)
  have hfurthered := @steps_furthered _ _ _ _ _ actions _ _ _
    (congrArg Settings.watcher (steps_settings h.reached)) h.idle hsteps hfinds
  exact ⟨steady_state h.image hsettled.tracked hfurthered hworking.reconciled,
    by rw [hworking.ingress]; exact hfirst.attached⟩

end SyncedTwice

/-- Two reconciliations of the same container on the bridge. -/
def twoSyncs : List (Action 1) :=
  firstSync++[.returned,.discover bridgeHost storedOrder]++List.replicate 3 (.call noFault)++
    [.returned]

/-- A third one that is refused its first write. -/
def thirdSync : List (Action 1) :=
  .discover bridgeHost storedOrder::[⟨some (.other 12),none⟩].map .call

/-- A poll that finds a list and calls of its reconciliation. -/
theorem onlyFinds_sync {w : DockerWatcher} {host : Host} {iter : IterOrder} {faults : List Fault}
    (hok : discoverBackends lib host w=.ok backends) :
    OnlyFinds lib w backends (.discover host iter::faults.map .call : List (Action cpus)) := by
  intro host iter found hm hfound
  rcases List.mem_cons.mp hm with h|h
  · cases h
    exact Except.ok.inj (hfound.symm.trans hok)
  · obtain ⟨fault,_,h⟩ := List.mem_map.mp h
    cases h

/-- The discovery there finds the container. -/
theorem thirdSync_finds :
    OnlyFinds hostParsers ⟨"lb.backend=true",80⟩ [bridgeBackend] thirdSync :=
  onlyFinds_sync (by decide)

/-- The two reconciliations are without failures. -/
theorem twoSyncs_synced : ∃ mid,SyncedTwice hostParsers .little bridgeProcess twoSyncs mid
    [bridgeBackend] := by
  have hschedule : schedule hostParsers ⟨"lb.backend=true",80⟩ twoSyncs=
      []++[⟨[bridgeBackend],storedOrder,List.replicate 4 noFault⟩,
        ⟨[bridgeBackend],storedOrder,List.replicate 3 noFault⟩] := rfl
  refine ⟨_,rfl,nofun,?_,⟨_,_,_,hschedule,rfl,rfl⟩,by decide,by decide⟩
  change SmoothRun _ _ (schedule hostParsers ⟨"lb.backend=true",80⟩ twoSyncs)
  rw [hschedule]
  decide

end ContainerLb.SteadyService

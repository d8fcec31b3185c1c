import ContainerLb.DaemonRuns

/-!
# Shutting down beside a running reconciliation

`Close` may start while a `Sync` is in the middle of its calls and goes on
beside it. Its lock keeps the links from being changed by the reconciliation,
whose map writes do not concern it, so on the links `Close` runs as if it
were alone. Afterwards the SNAT program is closed, so that the rest of the
reconciliation cannot attach it again.
-/

namespace ContainerLb.Shutdown

open CallProgram BoundedMaps HostBytes NetAddresses BpfManager PoolSync ManagerSteps
open DockerDiscovery VethLinks Lifecycle StartAndClose InterruptedRuns Daemon DaemonRuns

variable {cpus : ℕ} {lib : Parsers} {order : ByteOrder} {s s' first : Process cpus}
variable {action : Action cpus} {k : Kernel} {m : Manager}

/-- The kernel without the contents of the maps. -/
def shell (k : Kernel) : Kernel :=
  {k with world := {newWorld with
    vethLinks := k.world.vethLinks
    links := k.world.links
    nextLink := k.world.nextLink}}

/-- Names and links correspond independently of the maps. -/
theorem shell_linked (h : Linked k.world) : Linked (shell k).world :=
  ⟨h.live,h.once,h.recorded,h.fresh⟩

/-- The calls of `Close` do not depend on the maps. -/
theorem lifeEffect_shell (op : LifeCall) (reply : Answer) (k : Kernel) :
    lifeEffect op reply (shell k)=shell (lifeEffect op reply k) := by
  have hveth : ∀ vethName,closeVethLink vethName reply (shell k).world=
      (shell {k with world := closeVethLink vethName reply k.world}).world := by
    intro vethName
    simp only [closeVethLink,shell]
    cases k.world.vethLinks.lookup vethName <;> cases reply <;> rfl
  cases op with
  | closeVeth vethName =>
    simp only [lifeEffect,hveth vethName]
    rfl
  | _ => cases reply <;> rfl

/-- A call without the lock changes map contents only. -/
theorem shell_kernelHandle {op : Call} (h : locksManager op=false) (fault : Fault) (k : Kernel) :
    shell (kernelHandle op fault k).2=shell k := by
  have hpart : part op≠.links := by
    cases op <;> simp_all [part,locksManager]
  have hkept := (step_changes op (imposed k.opened op fault) k.world).links hpart
  simp only [ManagerSteps.step,answer] at hkept
  simp only [shell,kernelHandle,hkept]

/-- With everything closed and forgotten no call changes anything. -/
theorem kernelHandle_closed (hopened : k.opened=∅) (hnames : k.world.vethLinks=∅) (op : Call)
    (fault : Fault) : (kernelHandle op fault k).2=k := by
  have hclosed : ∀ obj,usedObject op=some obj →
      imposed k.opened op fault=⟨some closedFd,some closedFd⟩ := by
    intro obj hobj
    simp [imposed,hobj,hopened]
  have hrecorded : ∀ vethName,vethName∉k.world.vethLinks := by
    intro vethName
    rw [hnames]
    exact Finmap.notMem_empty
  cases op with
  | attachVethXDP vethName vethIfIndex =>
    simp [kernelHandle,hclosed _ rfl,handle,attachVethXDP,hrecorded,attachXDP]
  | detachVethXDP vethName => simp [kernelHandle,handle,detachVethXDP,hnames]
  | _ => simp [kernelHandle,hclosed _ rfl,handle,commit]

/-- The links and objects in every phase of `main`: they are those of the
running program, those that `Close` has not reached yet, or those that it
has reported. -/
def Shutting (m : Manager) (k : Kernel) : Main → Prop
  | .closing rest => ∃ entered names events,Linked entered.world ∧ Visits names entered.world ∧
    entered.opened=lbObjects.toFinset ∧ m.xdpLink=entered.ingress ∧
    Interrupted lifeHandle (close m names) entered events rest (shell k)
  | .closed err => (k.ingress≠none → ∃ cause,.detachIngress cause∈err.getD []) ∧
    ((∃ cause,.closeObjects cause∈err.getD []) ∨ k.opened=∅ ∧ k.world.vethLinks=∅ ∧
      ∀ l∈k.world.links,∃ name cause,.detachVeth name cause∈err.getD [])
  | _ => Linked k.world ∧ k.opened=lbObjects.toFinset ∧ m.xdpLink=k.ingress

/-- `Close` returns. -/
theorem Shutting.closed {err : Option (List CloseError)} (h : Shutting m k (.closing (.done err))) :
    Shutting m k (.closed err) := by
  obtain ⟨entered,names,events,hlinked,hvisits,hopened,hlink,hinterrupted⟩ := h
  obtain ⟨veths,link,objects,hphases⟩ :=
    close_phases hvisits.1 hopened hlink hinterrupted.runs_of_done
  have hreported : err.getD []=veths++link++objects := hphases.reported
  have hnames : k.world.vethLinks=∅ := hphases.forgotten hvisits
  have hlinks : ∀ l∈k.world.links,∃ name cause,.detachVeth name cause∈veths := by
    intro l hl
    obtain ⟨name,cause,_,hcause⟩ := (hphases.mem_links hlinked hvisits l).mp hl
    exact ⟨name,cause,hcause⟩
  simp only [Shutting,hreported,List.mem_append]
  constructor
  · intro hingress
    rcases hphases.ingress with ⟨hnone,_⟩|⟨_,cause,rfl⟩
    · exact absurd hnone hingress
    · exact ⟨cause,.inl (.inr List.mem_cons_self)⟩
  · rcases hphases.opened with ⟨hempty,_⟩|⟨_,cause,rfl⟩
    · refine .inr ⟨hempty,hnames,fun l hl => ?_⟩
      obtain ⟨name,cause,hcause⟩ := hlinks l hl
      exact ⟨name,cause,.inl (.inl hcause)⟩
    · exact .inl ⟨cause,.inr List.mem_cons_self⟩

/-- A call of a running `Sync`, in every phase of `main`. -/
theorem Shutting.call {main : Main} (h : Shutting m k main) {op : Call}
    (hlock : ¬(locksManager op=true ∧ main.isClosing=true)) (fault : Fault) :
    Shutting m (kernelHandle op fault k).2 main := by
  have hworking : Linked k.world ∧ k.opened=lbObjects.toFinset ∧ m.xdpLink=k.ingress →
      Linked (kernelHandle op fault k).2.world ∧
        (kernelHandle op fault k).2.opened=lbObjects.toFinset ∧
        m.xdpLink=(kernelHandle op fault k).2.ingress :=
    fun ⟨hlinked,hkept⟩ => ⟨step_linked op _ hlinked,hkept⟩
  cases main with
  | starting => exact hworking h
  | running => exact hworking h
  | cancelled => exact hworking h
  | closing rest =>
    obtain ⟨entered,names,events,hlinked,hvisits,hopened,hlink,hinterrupted⟩ := h
    have hfree : locksManager op=false := by simpa [Main.isClosing] using hlock
    refine ⟨entered,names,events,hlinked,hvisits,hopened,hlink,?_⟩
    rwa [shell_kernelHandle hfree]
  | closed err =>
    refine ⟨h.1,h.2.imp_right fun hclosed => ?_⟩
    rw [kernelHandle_closed hclosed.1 hclosed.2.1]
    exact hclosed

/-- A call of `Close`. -/
theorem Shutting.close {op : LifeCall} {next : Answer → Life (Option (List CloseError))}
    (h : Shutting m k (.closing (.call op next))) (reply : Answer) :
    Shutting m (lifeEffect op reply k) (.closing (next reply)) := by
  obtain ⟨entered,names,events,hlinked,hvisits,hopened,hlink,hinterrupted⟩ := h
  have hcall := hinterrupted.concat reply
  change Interrupted _ _ _ _ (next reply) (lifeEffect op reply (shell k)) at hcall
  rw [lifeEffect_shell] at hcall
  exact ⟨entered,names,_,hlinked,hvisits,hopened,hlink,hcall⟩

/-- The goroutines do not matter. -/
theorem Shutting.spawned {main : Main} (h : Shutting m k main) : Shutting m k (spawned main) := by
  cases main <;> exact h

/-- Every step of the program keeps the invariant. -/
theorem Shutting.moves (hmanager : s.settings.manager=m) (h : Shutting m s.kernel s.main)
    (hmove : Moves lib order s action s') : Shutting m s'.kernel s'.main := by
  cases hmove with
  | pollFailed => exact h.spawned
  | returned => exact h.spawned
  | call hsyncing hlock => exact h.call hlock _
  | signal hrunning =>
    rw [hrunning] at h
    exact h
  | @enterClose names hcancelled hvisits =>
    rw [hcancelled] at h
    obtain ⟨hlinked,hopened,hlink⟩ := h
    subst hmanager
    exact ⟨shell s.kernel,names,[],shell_linked hlinked,hvisits,hopened,hlink,.start _ _⟩
  | close hclosing =>
    rw [hclosing] at h
    exact h.close _
  | closed hclosing =>
    rw [hclosing] at h
    exact h.closed
  | _ => exact h

/-- The whole execution. -/
theorem steps_shutting {actions : List (Action cpus)} (hfirst : Launched first)
    (h : steps lib order first actions=some s) :
    Shutting first.settings.manager s.kernel s.main := by
  have hall : s.settings.manager=first.settings.manager ∧
      Shutting first.settings.manager s.kernel s.main := by
    refine steps_induction (fun _ s => s.settings.manager=first.settings.manager ∧
      Shutting first.settings.manager s.kernel s.main) ⟨rfl,?_⟩ (fun _ _ _ _ _ hs hmove => ?_) h
    · rw [hfirst.threads.1]
      refine ⟨?_,hfirst.opened,hfirst.ingress.symm⟩
      rw [hfirst.world]
      exact newWorld_linked
    · exact ⟨(congrArg Settings.manager hmove.settings).trans hs.1,Shutting.moves hs.1 hs.2 hmove⟩
  exact hall.2

/-- What is left of `Close` does not load anything. -/
theorem steps_closing {actions : List (Action cpus)} (hfirst : Launched first)
    (h : steps lib order first actions=some s) :
    ∀ rest,s.main=.closing rest → Yields (·≠.loadLbObjects) (fun _ => True) rest := by
  refine steps_induction (fun _ s => ∀ rest,s.main=.closing rest →
    Yields (·≠.loadLbObjects) (fun _ => True) rest) ?_ (fun _ s _ s' _ hs hmove => ?_) h
  · rw [hfirst.threads.1]
    simp
  · have hspawned : ∀ rest,spawned s.main=.closing rest → s.main=.closing rest := by
      intro rest
      cases s.main <;> simp [spawned]
    intro rest hrest
    cases hmove with
    | pollFailed => exact hs rest (hspawned rest hrest)
    | returned => exact hs rest (hspawned rest hrest)
    | enterClose =>
      cases hrest
      exact close_yields _ _
    | close hclosing =>
      cases hrest
      exact (hs _ hclosing).2 _
    | signal => contradiction
    | closed => contradiction
    | _ => exact hs rest hrest

/-- Nothing stays attached unnoticed. In every execution, with `Close` beside
a `Sync` that was still running and under any failures, at every moment after
`Close` has returned: a DNAT link is left only if its error was reported, a
SNAT link only if the error of some veth or of the objects was reported. If
`Close` returned nil, then no program is attached and no object is open, and
all frames pass unchanged and uncounted, whatever the remaining threads
do. -/
theorem shutdown_accounted (lib : Parsers) (order : ByteOrder) (cpus : ℕ) (flags : Flags)
    (answers : List Answer) (first : Process cpus)
    (hlaunch : launch lib cpus flags answers=.ok first) (actions : List (Action cpus))
    (s : Process cpus) (hsteps : steps lib order first actions=some s)
    (err : Option (List CloseError)) (hclosed : s.main=.closed err) :
    (s.kernel.ingress≠none → ∃ cause,.detachIngress cause∈err.getD []) ∧
    (s.kernel.world.links≠∅ → (∃ name cause,.detachVeth name cause∈err.getD []) ∨
      ∃ cause,.closeObjects cause∈err.getD []) ∧
    (err=none → s.kernel.ingress=none ∧ s.kernel.world.links=∅ ∧ s.kernel.opened=∅ ∧
      (∀ cpu prandom frame,ingressVerdict order s cpu prandom frame=⟨.pass,frame,s.counters⟩) ∧
      ∀ iface frame,vethVerdict order s iface frame=(.pass,frame)) := by
  have h := steps_shutting (launch_launched hlaunch) hsteps
  rw [hclosed] at h
  obtain ⟨hingress,hlinks⟩ := h
  refine ⟨hingress,fun hleft => ?_,fun hnil => ?_⟩
  · rcases hlinks with hobjects|⟨_,_,hveths⟩
    · exact .inr hobjects
    · left
      by_contra hnone
      refine hleft (Finmap.ext_lookup fun l => ?_)
      rw [Finmap.lookup_empty,Finmap.lookup_eq_none]
      exact fun hl => hnone (hveths l hl)
  · subst hnil
    obtain ⟨hopened,_,hveths⟩ : s.kernel.opened=∅ ∧ _ ∧ _ :=
      hlinks.resolve_left fun ⟨_,hcause⟩ => List.not_mem_nil hcause
    have hnone : s.kernel.ingress=none := by
      by_contra hleft
      obtain ⟨_,hcause⟩ := hingress hleft
      exact List.not_mem_nil hcause
    have hempty : ∀ l,l∉s.kernel.world.links := fun l hl =>
      have ⟨_,_,hcause⟩ := hveths l hl
      List.not_mem_nil hcause
    refine ⟨hnone,?_,hopened,fun cpu prandom frame => ?_,fun iface frame => ?_⟩
    · refine Finmap.ext_lookup fun l => ?_
      rw [Finmap.lookup_empty,Finmap.lookup_eq_none]
      exact hempty l
    · rw [ingressVerdict,hnone]
    · refine if_neg ?_
      rintro ⟨l,hl,_⟩
      exact hempty l (Finmap.mem_keys.mp hl)

/-- The first reconciliation on the bridge and a shutdown that is granted
everything. -/
def firstShutdown : List (Action 1) :=
  firstSync++[.returned,.signal,.enterClose ["veth9a1b"]]++
    List.replicate 8 (.close (.ok ⟨0,[]⟩))++[.closed]

/-- `Close` has returned nil. -/
def closedNil (s : Process 1) : Bool :=
  match s.main with
  | .closed none => true
  | _ => false

/-- Then nothing is attached any more. -/
theorem shutdown_accounted_granted :
    ∃ s,steps hostParsers .little bridgeProcess firstShutdown=some s ∧ s.kernel.ingress=none ∧
      s.kernel.world.links=∅ ∧ s.kernel.opened=∅ := by
  have hany : (steps hostParsers .little bridgeProcess firstShutdown).any closedNil=true := by
    decide +kernel
  obtain ⟨s,hs,hclosed⟩ := Option.any_eq_true _ _ |>.mp hany
  have hmain : s.main=.closed none := by
    unfold closedNil at hclosed
    split at hclosed
    · assumption
    · contradiction
  obtain ⟨hingress,hlinks,hopened,_⟩ := (shutdown_accounted hostParsers .little 1 hostFlags granted
    bridgeProcess launch_bridge firstShutdown s hs none hmain).2.2 rfl
  exact ⟨s,hs,hingress,hlinks,hopened⟩

end ContainerLb.Shutdown

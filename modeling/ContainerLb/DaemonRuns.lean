import ContainerLb.Daemon

/-!
# The running program refines runs of reconciliations

One inversion lemma says what every step of the program can do. From it
follows that polls, failed polls, frames, tables and signals in any order
leave the maps and links to the reconciliations: until `Close` is entered the
world is a point of the run that reconciles the discovered lists one after
the other, and between two polls it is the end of that run.
-/

namespace ContainerLb.DaemonRuns

open CallProgram BoundedMaps HostBytes NetAddresses BpfManager PoolSync DockerDiscovery
open PoolRuns Statistics Lifecycle StartAndClose InterruptedRuns Daemon

variable {cpus : ℕ} {lib : Parsers} {order : ByteOrder} {s s' first : Process cpus}
variable {action : Action cpus} {actions : List (Action cpus)}

/-- What a step does, with everything that enables it. -/
inductive Moves (lib : Parsers) (order : ByteOrder) (s : Process cpus) :
    Action cpus → Process cpus → Prop
  /-- A failed poll is skipped. -/
  | pollFailed {host : Host} {iter : IterOrder} {err : DiscoverError}
      (hidle : s.reconciler=.idle) (herr : discoverBackends lib host s.settings.watcher=.error err) :
      Moves lib order s (.discover host iter) {s with main := spawned s.main}
  /-- A discovered list is synced. -/
  | discovered {host : Host} {iter : IterOrder} {backends : List Backend}
      (hidle : s.reconciler=.idle) (hok : discoverBackends lib host s.settings.watcher=.ok backends) :
      Moves lib order s (.discover host iter)
        {s with reconciler := .syncing backends (sync order s.pool backends iter)}
  /-- A call of `Sync`. -/
  | call {fault : Fault} {backends : List Backend} {op : Call}
      {next : Option GoError → Go (Pool×Option GoError)}
      (hsyncing : s.reconciler=.syncing backends (.call op next))
      (hlock : ¬(locksManager op=true ∧ s.main.isClosing=true)) :
      Moves lib order s (.call fault) {s with
        kernel := (kernelHandle op fault s.kernel).2
        reconciler := .syncing backends (next (kernelHandle op fault s.kernel).1)}
  /-- `Sync` returns. -/
  | returned {backends : List Backend} {pool : Pool} {err : Option GoError}
      (hsyncing : s.reconciler=.syncing backends (.done (pool,err))) :
      Moves lib order s .returned
        {s with pool := pool,reconciler := .idle,main := spawned s.main}
  /-- The polling goroutine returns. -/
  | stopPolling (hidle : s.reconciler=.idle) (hcancelled : s.main.isCancelled=true) :
      Moves lib order s .stopPolling {s with reconciler := .stopped}
  /-- The list is copied outside of `Sync`. -/
  | snapshot (hfree : ∀ backends rest,s.reconciler≠.syncing backends rest)
      (hidle : s.collector=.idle) :
      Moves lib order s .snapshot {s with collector := .reading (getBackends s.pool) []}
  /-- A row is added. -/
  | readRow {backends : List Backend} {rows : List Row} {b : Backend}
      (hreading : s.collector=.reading backends rows) (hb : backends[rows.length]?=some b) :
      Moves lib order s .readRow {s with
        collector := .reading backends (rows++[rowOf s.kernel s.counters rows.length b])}
  /-- A complete table is printed. -/
  | print {backends : List Backend} {rows : List Row}
      (hreading : s.collector=.reading backends rows) (hfull : rows.length=backends.length) :
      Moves lib order s .print {s with collector := .idle,printed := s.printed++[rows]}
  /-- The collector returns. -/
  | stopCollecting (hidle : s.collector=.idle) (hcancelled : s.main.isCancelled=true) :
      Moves lib order s .stopCollecting {s with collector := .stopped}
  /-- The context is cancelled. -/
  | signal (hrunning : s.main=.running) : Moves lib order s .signal {s with main := .cancelled}
  /-- `Close` is entered. -/
  | enterClose {names : List String} (hcancelled : s.main=.cancelled)
      (hvisits : Visits names s.kernel.world) :
      Moves lib order s (.enterClose names)
        {s with main := .closing (close s.settings.manager names)}
  /-- A call of `Close`. -/
  | close {reply : Answer} {op : LifeCall} {next : Answer → Life (Option (List CloseError))}
      (hclosing : s.main=.closing (.call op next)) :
      Moves lib order s (.close reply)
        {s with kernel := lifeEffect op reply s.kernel,main := .closing (next reply)}
  /-- `Close` returns. -/
  | closed {err : Option (List CloseError)} (hclosing : s.main=.closing (.done err)) :
      Moves lib order s .closed {s with main := .closed err}
  /-- A frame changes counters only. -/
  | ingress {cpu : Fin cpus} {prandom : UInt32} {frame : List UInt8} :
      Moves lib order s (.ingress cpu prandom frame)
        {s with counters := (ingressVerdict order s cpu prandom frame).counters}

/-- Every enabled step is one of these. -/
theorem step_moves (h : step lib order s action=some s') : Moves lib order s action s' := by
  cases action with
  | discover host iter =>
    simp only [step] at h
    split at h
    · rename_i hidle
      split at h <;> cases h
      · exact .pollFailed hidle ‹_›
      · exact .discovered hidle ‹_›
    · contradiction
  | call fault =>
    simp only [step] at h
    split at h
    · split at h <;> cases h
      exact .call ‹_› ‹_›
    · contradiction
  | returned =>
    simp only [step] at h
    split at h <;> cases h
    exact .returned ‹_›
  | stopPolling =>
    simp only [step] at h
    split at h
    · split at h <;> cases h
      exact .stopPolling ‹_› ‹_›
    · contradiction
  | snapshot =>
    simp only [step] at h
    split at h <;> cases h
    exact .snapshot ‹_› ‹_›
  | readRow =>
    simp only [step] at h
    split at h
    · obtain ⟨b,hb,rfl⟩ := Option.map_eq_some_iff.mp h
      exact .readRow ‹_› hb
    · contradiction
  | print =>
    simp only [step] at h
    split at h
    · split at h <;> cases h
      exact .print ‹_› ‹_›
    · contradiction
  | stopCollecting =>
    simp only [step] at h
    split at h
    · split at h <;> cases h
      exact .stopCollecting ‹_› ‹_›
    · contradiction
  | signal =>
    simp only [step] at h
    split at h <;> cases h
    exact .signal ‹_›
  | enterClose names =>
    simp only [step] at h
    split at h
    · split at h <;> cases h
      exact .enterClose ‹_› ‹_›
    · contradiction
  | close answer =>
    simp only [step] at h
    split at h <;> cases h
    exact .close ‹_›
  | closed =>
    simp only [step] at h
    split at h <;> cases h
    exact .closed ‹_›
  | ingress cpu prandom frame =>
    cases h
    exact .ingress

/-- Steps followed by others. -/
theorem steps_append (actions more : List (Action cpus)) :
    steps lib order first (actions++more)=
      (steps lib order first actions).bind fun s => steps lib order s more := by
  induction actions generalizing first with
  | nil => rfl
  | cons action rest ih =>
    simp only [List.cons_append,steps,Option.bind_assoc]
    exact congrArg _ (funext fun s => ih)

/-- One more step. -/
theorem steps_concat (actions : List (Action cpus)) (action : Action cpus) :
    steps lib order first (actions++[action])=
      (steps lib order first actions).bind fun s => step lib order s action := by
  simp [steps_append,steps]

/-- What holds before the first step and is kept by every step holds after
every execution; the property may refer to the steps taken. -/
theorem steps_induction (holds : List (Action cpus) → Process cpus → Prop) (hfirst : holds [] first)
    (hmove : ∀ actions s action s',steps lib order first actions=some s → holds actions s →
      Moves lib order s action s' → holds (actions++[action]) s')
    (h : steps lib order first actions=some s) : holds actions s := by
  induction actions using List.reverseRecOn generalizing s with
  | nil =>
    cases h
    exact hfirst
  | append_singleton actions action ih =>
    rw [steps_concat] at h
    obtain ⟨before,hbefore,hstep⟩ := Option.bind_eq_some_iff.mp h
    exact hmove actions before action s hbefore (ih hbefore) (step_moves hstep)

/-- The program before the first discovery. -/
structure Launched (s : Process cpus) : Prop where
  /-- The maps are empty and there is no veth link. -/
  world : s.kernel.world=newWorld
  /-- All objects are open. -/
  opened : s.kernel.opened=lbObjects.toFinset
  /-- The recorded DNAT link is alive. -/
  ingress : s.kernel.ingress=s.settings.manager.xdpLink
  /-- There is one. -/
  attached : s.settings.manager.xdpLink≠none
  /-- The counters are zero. -/
  counters : s.counters=Timeline.newCounters cpus
  /-- The pool is new. -/
  pool : s.pool=newPool s.settings.vip s.settings.vport s.settings.srcMAC
  /-- No thread has done anything. -/
  threads : s.main=.starting ∧ s.reconciler=.idle ∧ s.collector=.idle ∧ s.printed=[]

/-- A successful start leads there. -/
theorem launch_launched {flags : Flags} {answers : List Answer}
    (h : launch lib cpus flags answers=.ok s) : Launched s := by
  have hstarted := start_started
    (exec_runs (start lib flags) answers unloaded : Runs lifeHandle _ _ _)
  simp only [launch] at h
  cases hvalue : ((start lib flags).exec lifeHandle answers unloaded).value with
  | error err =>
    rw [hvalue] at h
    contradiction
  | ok settings =>
    rw [hvalue] at h
    cases h
    obtain ⟨_,_,_,_,hloaded⟩ := hstarted.settings settings hvalue
    have hattached : settings.manager.xdpLink≠none := by
      rcases hloaded.mode with hmode|⟨hmode,_⟩ <;> rw [hmode] <;> nofun
    exact ⟨hstarted.world,hloaded.opened,hloaded.ingress,hattached,rfl,rfl,rfl,rfl,rfl,rfl⟩

/-- The reconciliations of an execution: a discovered list starts one, and a
call belongs to the last one started. -/
def extend (lib : Parsers) (w : DockerWatcher) (attempts : List Attempt) :
    Action cpus → List Attempt
  | .discover host iter =>
    match discoverBackends lib host w with
    | .error _ => attempts
    | .ok backends => attempts++[⟨backends,iter,[]⟩]
  | .call fault =>
    match attempts.getLast? with
    | none => attempts
    | some a => attempts.dropLast++[{a with faults := a.faults++[fault]}]
  | _ => attempts

/-- All reconciliations started by the steps taken. -/
def schedule (lib : Parsers) (w : DockerWatcher) (actions : List (Action cpus)) : List Attempt :=
  actions.foldl (extend lib w) []

@[simp]
theorem schedule_concat (w : DockerWatcher) (actions : List (Action cpus)) (action : Action cpus) :
    schedule lib w (actions++[action])=extend lib w (schedule lib w actions) action :=
  List.foldl_concat ..

/-- The state of pool and maps over which an execution reconciles. -/
def origin (s : Process cpus) : State :=
  initial s.settings.vip s.settings.vport s.settings.srcMAC

/-- How pool, world and reconciling thread follow from the reconciliations
started so far: they are finished, or the last one is in the middle of its
calls. -/
def Reconciled (order : ByteOrder) (start : State) (attempts : List Attempt) (pool : Pool)
    (world : World) : Reconciler → Prop
  | .syncing backends rest => ∃ finished iter events,
    attempts=finished++[⟨backends,iter,events.map Event.label⟩] ∧
      pool=(run order start finished).pool ∧
      Interrupted handle (sync order pool backends iter) (run order start finished).world events
        rest world
  | _ => run order start attempts=⟨pool,world⟩

/-- What holds until `Close` is entered. -/
structure Working (lib : Parsers) (order : ByteOrder) (settings : Settings)
    (actions : List (Action cpus)) (s : Process cpus) : Prop where
  /-- All objects are open. -/
  opened : s.kernel.opened=lbObjects.toFinset
  /-- The recorded DNAT link is alive. -/
  ingress : s.kernel.ingress=settings.manager.xdpLink
  /-- The reconciliations so far. -/
  reconciled : Reconciled order (initial settings.vip settings.vport settings.srcMAC)
    (schedule lib settings.watcher actions) s.pool s.kernel.world s.reconciler

/-- While all objects are open the environment alone decides. -/
theorem imposed_of_open {opened : Finset Obj} (h : opened=lbObjects.toFinset) (op : Call)
    (fault : Fault) : imposed opened op fault=fault := by
  cases op <;> simp [imposed,usedObject,h,lbObjects]

/-- A call of the running `Sync`. -/
theorem Reconciled.call {start : State} {attempts : List Attempt} {pool : Pool} {world : World}
    {backends : List Backend} {op : Call} {next : Option GoError → Go (Pool×Option GoError)}
    (h : Reconciled order start attempts pool world (.syncing backends (.call op next)))
    (w : DockerWatcher) (fault : Fault) :
    Reconciled order start (extend lib w attempts (.call fault : Action cpus)) pool
      (handle op fault world).2 (.syncing backends (next (handle op fault world).1)) := by
  obtain ⟨finished,iter,events,rfl,hpool,hinterrupted⟩ := h
  refine ⟨finished,iter,_,?_,hpool,hinterrupted.concat fault⟩
  simp [extend,answer]

/-- `Sync` returns with its pool. -/
theorem Reconciled.returned {start : State} {attempts : List Attempt} {pool pool' : Pool}
    {world : World} {backends : List Backend} {err : Option GoError}
    (h : Reconciled order start attempts pool world (.syncing backends (.done (pool',err)))) :
    run order start attempts=⟨pool',world⟩ := by
  obtain ⟨finished,iter,events,rfl,rfl,hinterrupted⟩ := h
  rw [run_concat,next,attempt,hinterrupted.exec_eq]
  rfl

/-- Spawning the goroutines does not enter `Close`. -/
theorem isShut_spawned (main : Main) : (spawned main).isShut=main.isShut := by
  cases main <;> rfl

/-- `Close` is not left again. -/
theorem isShut_of_moves (hmove : Moves lib order s action s') (h : s'.main.isShut=false) :
    s.main.isShut=false := by
  cases hmove with
  | pollFailed => rwa [←isShut_spawned]
  | returned => rwa [←isShut_spawned]
  | signal hrunning => rw [hrunning]; rfl
  | enterClose => contradiction
  | close => contradiction
  | closed => contradiction
  | _ => exact h

/-- Before a moment outside of `Close` it was never entered. -/
theorem isShut_of_steps (h : steps lib order s actions=some s') (hopen : s'.main.isShut=false) :
    s.main.isShut=false :=
  steps_induction (fun _ t => t.main.isShut=false → s.main.isShut=false) id
    (fun _ _ _ _ _ ht hmove hopen => ht (isShut_of_moves hmove hopen)) h hopen

/-- Steps of the other threads keep it. -/
theorem Working.of_quiet {settings : Settings} (h : Working lib order settings actions s)
    (hkernel : s'.kernel=s.kernel) (hpool : s'.pool=s.pool) (hreconciler : s'.reconciler=s.reconciler)
    (haction : ∀ attempts,extend lib settings.watcher attempts action=attempts) :
    Working lib order settings (actions++[action]) s' := by
  obtain ⟨hopened,hingress,hreconciled⟩ := h
  refine ⟨hkernel ▸ hopened,hkernel ▸ hingress,?_⟩
  rw [schedule_concat,haction,hkernel,hpool,hreconciler]
  exact hreconciled

/-- Every step keeps it until `Close` is entered. -/
theorem Moves.working {settings : Settings} (hsettings : s.settings=settings)
    (h : s.main.isShut=false → Working lib order settings actions s)
    (hmove : Moves lib order s action s') (hshut : s'.main.isShut=false) :
    Working lib order settings (actions++[action]) s' := by
  cases hmove with
  | pollFailed hidle herr =>
    rw [hsettings] at herr
    refine (h ((isShut_spawned s.main).symm.trans hshut)).of_quiet rfl rfl rfl fun attempts => ?_
    simp only [extend,herr]
  | @discovered host iter backends hidle hok =>
    obtain ⟨hopened,hingress,hreconciled⟩ := h hshut
    rw [hidle] at hreconciled
    rw [hsettings] at hok
    have hrun : run order _ _=_ := hreconciled
    refine ⟨hopened,hingress,schedule lib settings.watcher actions,iter,[],?_,?_,?_⟩
    · simp only [schedule_concat,extend,hok]
      rfl
    · rw [hrun]
    · rw [hrun]
      exact .start _ _
  | @call fault backends op next hsyncing hlock =>
    obtain ⟨hopened,hingress,hreconciled⟩ := h hshut
    rw [hsyncing] at hreconciled
    refine ⟨hopened,hingress,?_⟩
    rw [schedule_concat,kernelHandle,imposed_of_open hopened]
    exact hreconciled.call settings.watcher fault
  | returned hsyncing =>
    obtain ⟨hopened,hingress,hreconciled⟩ := h ((isShut_spawned s.main).symm.trans hshut)
    rw [hsyncing] at hreconciled
    refine ⟨hopened,hingress,?_⟩
    rw [schedule_concat]
    exact hreconciled.returned
  | stopPolling hidle hcancelled =>
    obtain ⟨hopened,hingress,hreconciled⟩ := h hshut
    rw [hidle] at hreconciled
    exact ⟨hopened,hingress,by rw [schedule_concat]; exact hreconciled⟩
  | snapshot => exact (h hshut).of_quiet rfl rfl rfl fun _ => rfl
  | readRow => exact (h hshut).of_quiet rfl rfl rfl fun _ => rfl
  | print => exact (h hshut).of_quiet rfl rfl rfl fun _ => rfl
  | stopCollecting => exact (h hshut).of_quiet rfl rfl rfl fun _ => rfl
  | signal hrunning =>
    exact (h (by rw [hrunning]; rfl)).of_quiet rfl rfl rfl fun _ => rfl
  | enterClose => contradiction
  | close => contradiction
  | closed => contradiction
  | ingress => exact (h hshut).of_quiet rfl rfl rfl fun _ => rfl

/-- The settings never change. -/
theorem Moves.settings (hmove : Moves lib order s action s') : s'.settings=s.settings := by
  cases hmove <;> rfl

theorem steps_settings (h : steps lib order first actions=some s) : s.settings=first.settings :=
  steps_induction (fun _ s => s.settings=first.settings) rfl
    (fun _ _ _ _ _ hs hmove => hmove.settings.trans hs) h

/-- The whole execution until `Close` is entered. -/
theorem steps_working (hfirst : Launched first) (h : steps lib order first actions=some s)
    (hshut : s.main.isShut=false) : Working lib order first.settings actions s := by
  have hall : s.settings=first.settings ∧
      (s.main.isShut=false → Working lib order first.settings actions s) := by
    refine steps_induction (fun actions s => s.settings=first.settings ∧
        (s.main.isShut=false → Working lib order first.settings actions s))
      ⟨rfl,fun _ => ⟨hfirst.opened,hfirst.ingress,?_⟩⟩
      (fun _ _ _ _ _ hs hmove => ⟨hmove.settings.trans hs.1,hmove.working hs.1 hs.2⟩) h
    rw [hfirst.threads.2.1,hfirst.pool,hfirst.world]
    rfl
  exact hall.2 hshut

/-- The points of one more reconciliation. -/
theorem mem_points_concat {start : State} {a : Attempt} {world : World} (attempts : List Attempt)
    (h : world∈(run order start attempts).world::
      (attempt order (run order start attempts) a).events.map Event.after) :
    world∈points order start (attempts++[a]) := by
  induction attempts generalizing start with
  | nil =>
    rcases List.mem_cons.mp h with rfl|h
    · exact List.mem_cons_self
    · exact List.mem_cons_of_mem _ (List.mem_append_left _ h)
  | cons b rest ih => exact List.mem_cons_of_mem _ (List.mem_append_right _ (ih h))

/-- While no `Sync` runs the reconciliations are finished. -/
theorem Reconciled.run_eq {start : State} {attempts : List Attempt} {pool : Pool} {world : World}
    {reconciler : Reconciler} (h : Reconciled order start attempts pool world reconciler)
    (hfree : ∀ backends rest,reconciler≠.syncing backends rest) :
    run order start attempts=⟨pool,world⟩ := by
  cases reconciler with
  | idle => exact h
  | stopped => exact h
  | syncing backends rest => exact absurd rfl (hfree backends rest)

/-- While `Sync` runs only the last reconciliation is unfinished, and the world
is the point of it after the calls made so far. -/
theorem Reconciled.unfinished {start : State} {attempts : List Attempt} {pool : Pool}
    {world : World} {backends : List Backend} {rest : Go (Pool×Option GoError)}
    (h : Reconciled order start attempts pool world (.syncing backends rest)) :
    ∃ finished a,attempts=finished++[a] ∧ a.newBackends=backends ∧
      pool=(run order start finished).pool ∧
      ((run order start finished).world::
        (attempt order (run order start finished) a).events.map Event.after)[a.faults.length]?=
          some world := by
  obtain ⟨finished,iter,events,rfl,rfl,hinterrupted⟩ := h
  refine ⟨finished,_,rfl,rfl,rfl,?_⟩
  rw [attempt,hinterrupted.exec_eq,Outcome.prepend,List.map_append,←List.cons_append,
    List.length_map,List.getElem?_append_left (by simp)]
  exact hinterrupted.getElem?_present

/-- The present world is a point of the run of the reconciliations. -/
theorem Reconciled.mem_points {start : State} {attempts : List Attempt} {pool : Pool} {world : World}
    {reconciler : Reconciler} (h : Reconciled order start attempts pool world reconciler) :
    world∈points order start attempts := by
  by_cases hsyncing : ∃ backends rest,reconciler=.syncing backends rest
  · obtain ⟨backends,rest,rfl⟩ := hsyncing
    obtain ⟨finished,a,rfl,_,_,hworld⟩ := h.unfinished
    exact mem_points_concat finished (List.mem_of_getElem? hworld)
  · have hlast := @run_mem_points order start attempts
    rwa [h.run_eq fun backends rest hs => hsyncing ⟨backends,rest,hs⟩] at hlast

/-- The running program refines the runs of reconciliations. In every
execution after a successful start, in any order of polls, calls, frames,
tables and signals and under any failures, until `Close` is entered, the maps
and links are a point of the run that reconciles the discovered lists in the
order of their discovery. While no `Sync` runs, pool and world are the end of
that run; otherwise only its last reconciliation is unfinished, the pool is
still that of the ones before, and the maps and links are the point of the
last one after the calls made so far. -/
theorem daemon_refines_runs (lib : Parsers) (order : ByteOrder) (cpus : ℕ) (flags : Flags)
    (answers : List Answer) (first : Process cpus)
    (hlaunch : launch lib cpus flags answers=.ok first) (actions : List (Action cpus))
    (s : Process cpus) (hsteps : steps lib order first actions=some s)
    (hopen : s.main.isShut=false) :
    s.kernel.world∈points order (origin first) (schedule lib first.settings.watcher actions) ∧
    ((∀ backends rest,s.reconciler≠.syncing backends rest) →
      run order (origin first) (schedule lib first.settings.watcher actions)=
        ⟨s.pool,s.kernel.world⟩) ∧
    ∀ backends rest,s.reconciler=.syncing backends rest → ∃ finished a,
      schedule lib first.settings.watcher actions=finished++[a] ∧ a.newBackends=backends ∧
      s.pool=(run order (origin first) finished).pool ∧
      ((run order (origin first) finished).world::(attempt order (run order (origin first) finished)
        a).events.map Event.after)[a.faults.length]?=some s.kernel.world := by
  have hreconciled := (steps_working (launch_launched hlaunch) hsteps hopen).reconciled
  refine ⟨hreconciled.mem_points,hreconciled.run_eq,fun backends rest hsyncing => ?_⟩
  rw [hsyncing] at hreconciled
  exact hreconciled.unfinished

/-- The program started on the bridge. -/
def bridgeProcess : Process 1 where
  settings := ⟨[172,17,0,1],80,[2,66,1,2,3,4],⟨"lb.backend=true",80⟩,
    ⟨"docker0",3,some ⟨3,.driver⟩⟩⟩
  kernel := ⟨newWorld,some ⟨3,.driver⟩,lbObjects.toFinset⟩
  counters := Timeline.newCounters 1
  pool := newPool [172,17,0,1] 80 [2,66,1,2,3,4]
  main := .starting
  reconciler := .idle
  collector := .idle
  printed := []

/-- The kernel grants it. -/
theorem launch_bridge : launch hostParsers 1 hostFlags granted=.ok bridgeProcess := rfl

/-- The first reconciliation there, from its discovery on. -/
def firstSync : List (Action 1) := .discover bridgeHost storedOrder::List.replicate 4 (.call noFault)

/-- In the middle of it the world is the point of the run after two calls. -/
theorem daemon_refines_first_sync :
    ∃ s,steps hostParsers .little bridgeProcess (firstSync.take 3)=some s ∧
      ∃ finished a,schedule hostParsers ⟨"lb.backend=true",80⟩ (firstSync.take 3)=finished++[a] ∧
        a.newBackends=[bridgeBackend] ∧ ((run .little bridgePool finished).world::
          (attempt .little (run .little bridgePool finished) a).events.map Event.after)[
            a.faults.length]?=some s.kernel.world := by
  refine ⟨_,rfl,?_⟩
  obtain ⟨finished,a,hattempts,hbackends,_,hworld⟩ := (daemon_refines_runs hostParsers .little 1
    hostFlags granted bridgeProcess launch_bridge (firstSync.take 3) _ rfl rfl).2.2 _ _ rfl
  exact ⟨finished,a,hattempts,hbackends,hworld⟩

end ContainerLb.DaemonRuns

import ContainerLb.StartAndClose
import ContainerLb.InterruptedRuns
import ContainerLb.Timeline

/-!
# The running program

After `start` three threads share the manager: the reconciling one, which is
`main` for the first list and the polling goroutine afterwards, the collector
of statistics and `main` itself, which waits for a signal and then closes the
manager. Frames arrive at any time. A step is one system call or one change
of a thread's phase, and any list of enabled steps is an execution.

The lock of the pool is held during a whole `Sync`, so no snapshot of the
list is taken inside. The lock of the manager is held during `Close`, so no
veth is attached or detached inside, but map writes are not excluded. A call
on a closed object fails.
-/

namespace ContainerLb.Daemon

open CallProgram BoundedMaps HostBytes NetAddresses BpfManager PoolSync DockerDiscovery
open PacketPath Statistics Lifecycle Timeline

variable {cpus : ℕ}

/-- `EBADF`, the error of a call on a closed descriptor. -/
def closedFd : Errno := .other 9

/-- The object used by a call of the manager. -/
def usedObject : Call → Option Obj
  | .putBackend _ _ => some .backendMap
  | .putBackendIp _ _ => some .backendIpsMap
  | .deleteBackendIp _ => some .backendIpsMap
  | .putConfig _ _ => some .configMap
  | .attachVethXDP _ _ => some .xdpVethSnat
  | .detachVethXDP _ => none

/-- A closed object makes the call fail, otherwise the environment decides. -/
def imposed (opened : Finset Obj) (op : Call) (fault : Fault) : Fault :=
  match usedObject op with
  | none => fault
  | some obj => if obj∈opened then fault else ⟨some closedFd,some closedFd⟩

/-- Effect and reply of a call of the manager on the kernel. -/
def kernelHandle : Handler Call Fault Kernel (Option GoError) := fun op fault k =>
  let answered := handle op (imposed k.opened op fault) k.world
  (answered.1,{k with world := answered.2})

/-- Whether a call takes the lock of the manager. -/
def locksManager : Call → Bool
  | .attachVethXDP _ _ => true
  | .detachVethXDP _ => true
  | _ => false

/-- Phases of `main`. -/
inductive Main where
  /-- Before the goroutines are started. -/
  | starting
  /-- Waiting for a signal. -/
  | running
  /-- The context is cancelled, `Close` has not been entered. -/
  | cancelled
  /-- In `Close`, with what is left of it. -/
  | closing (rest : Life (Option (List CloseError)))
  /-- `Close` has returned. -/
  | closed (err : Option (List CloseError))

/-- The context is cancelled. -/
def Main.isCancelled : Main → Bool
  | .starting => false
  | .running => false
  | _ => true

/-- `Close` has been entered. -/
def Main.isShut : Main → Bool
  | .closing _ => true
  | .closed _ => true
  | _ => false

/-- The lock of the manager is held by `Close`. -/
def Main.isClosing : Main → Bool
  | .closing _ => true
  | _ => false

/-- Phases of the reconciling thread. -/
inductive Reconciler where
  /-- Between two polls. -/
  | idle
  /-- In `Sync` for a list, with what is left of it. -/
  | syncing (newBackends : List Backend) (rest : Go (Pool×Option GoError))
  /-- The goroutine has returned. -/
  | stopped

/-- Phases of the collector. -/
inductive Collector where
  /-- Between two tables. -/
  | idle
  /-- In `render` with the snapshot and the rows written so far. -/
  | reading (backends : List Backend) (rows : List Row)
  /-- The goroutine has returned. -/
  | stopped

/-- The whole program between two steps. -/
structure Process (cpus : ℕ) where
  /-- Flags and what was found at the start. -/
  settings : Settings
  /-- Maps, links and objects. -/
  kernel : Kernel
  /-- Counters of all processors. -/
  counters : Counters cpus
  /-- The pool when `Sync` last returned. -/
  pool : Pool
  /-- Phase of `main`. -/
  main : Main
  /-- Phase of the reconciling thread. -/
  reconciler : Reconciler
  /-- Phase of the collector. -/
  collector : Collector
  /-- Tables printed so far. -/
  printed : List (List Row)

/-- Steps of the threads and of the environment. -/
inductive Action (cpus : ℕ) where
  /-- A discovery, and the iteration order for the `Sync` that follows. -/
  | discover (host : Host) (iter : IterOrder)
  /-- The running `Sync` makes its next call. -/
  | call (fault : Fault)
  /-- The running `Sync` returns. -/
  | returned
  /-- The polling goroutine sees the cancelled context. -/
  | stopPolling
  /-- The collector takes a snapshot of the list. -/
  | snapshot
  /-- The collector reads the counters of the next row. -/
  | readRow
  /-- The collector prints its table. -/
  | print
  /-- The collector sees the cancelled context. -/
  | stopCollecting
  /-- A signal ends the wait of `main`, which cancels the context. -/
  | signal
  /-- `main` enters `Close`, visiting the veth links in this order. -/
  | enterClose (names : List String)
  /-- `Close` makes its next call. -/
  | close (answer : Answer)
  /-- `Close` returns. -/
  | closed
  /-- A frame arrives at the ingress interface. -/
  | ingress (cpu : Fin cpus) (prandom : UInt32) (frame : List UInt8)

/-- `ReadStats` through the manager. -/
def readStatsFrom (k : Kernel) (counters : Counters cpus) (index : UInt32) :
    Except Errno (UInt64×UInt64) :=
  if .countersMap∈k.opened then readStats counters index else .error closedFd

/-- A row of `Collector.render`; an index that cannot be read shows zeros. -/
def rowOf (k : Kernel) (counters : Counters cpus) (i : ℕ) (b : Backend) : Row :=
  match readStatsFrom k counters (UInt32.ofNat i) with
  | .ok (packets,bytes) => ⟨i,b,packets,bytes⟩
  | .error _ => ⟨i,b,0,0⟩

/-- The first discovery is over, so the goroutines run. -/
def spawned (main : Main) : Main :=
  match main with
  | .starting => .running
  | main => main

/-- `xdp_lb_ingress` on a frame, if the program is attached. -/
def ingressVerdict (order : ByteOrder) (s : Process cpus) (cpu : Fin cpus) (prandom : UInt32)
    (frame : List UInt8) : Verdict cpus :=
  match s.kernel.ingress with
  | none => ⟨.pass,frame,s.counters⟩
  | some _ => (xdpLbIngress order s.kernel.world s.counters cpu prandom frame).getD
      ⟨.aborted,frame,s.counters⟩

/-- Whether the SNAT program is attached to an interface. -/
def SnatOn (world : World) (iface : ℤ) : Prop :=
  ∃ l∈world.links.keys,∃ link∈world.links.lookup l,link.iface=iface

instance (world : World) (iface : ℤ) : Decidable (SnatOn world iface) :=
  inferInstanceAs (Decidable (∃ l∈world.links.keys,∃ link∈world.links.lookup l,link.iface=iface))

/-- `xdp_veth_snat` on a frame from an interface, if the program is attached
there. -/
def vethVerdict (order : ByteOrder) (s : Process cpus) (iface : ℤ) (frame : List UInt8) :
    XdpAction×List UInt8 :=
  if SnatOn s.kernel.world iface then
    (xdpVethSnat order s.kernel.world frame).getD (.aborted,frame)
  else (.pass,frame)

/-- One step, absent when it is not enabled. -/
def step (lib : Parsers) (order : ByteOrder) (s : Process cpus) : Action cpus → Option (Process cpus)
  | .discover host iter =>
    match s.reconciler with
    | .idle =>
      match discoverBackends lib host s.settings.watcher with
      | .error _ => some {s with main := spawned s.main}
      | .ok backends =>
        some {s with reconciler := .syncing backends (sync order s.pool backends iter)}
    | _ => none
  | .call fault =>
    match s.reconciler with
    | .syncing backends (.call op next) =>
      if locksManager op ∧ s.main.isClosing then none
      else
        let answered := kernelHandle op fault s.kernel
        some {s with kernel := answered.2,reconciler := .syncing backends (next answered.1)}
    | _ => none
  | .returned =>
    match s.reconciler with
    | .syncing _ (.done (pool,_)) =>
      some {s with pool := pool,reconciler := .idle,main := spawned s.main}
    | _ => none
  | .stopPolling =>
    match s.reconciler with
    | .idle => if s.main.isCancelled then some {s with reconciler := .stopped} else none
    | _ => none
  | .snapshot =>
    match s.main,s.reconciler,s.collector with
    | .starting,_,_ => none
    | _,.syncing _ _,_ => none
    | _,_,.idle => some {s with collector := .reading (getBackends s.pool) []}
    | _,_,_ => none
  | .readRow =>
    match s.collector with
    | .reading backends rows =>
      backends[rows.length]?.map fun b =>
        {s with collector := .reading backends (rows++[rowOf s.kernel s.counters rows.length b])}
    | _ => none
  | .print =>
    match s.collector with
    | .reading backends rows =>
      if rows.length=backends.length then
        some {s with collector := .idle,printed := s.printed++[rows]}
      else none
    | _ => none
  | .stopCollecting =>
    match s.collector with
    | .idle => if s.main.isCancelled then some {s with collector := .stopped} else none
    | _ => none
  | .signal =>
    match s.main with
    | .running => some {s with main := .cancelled}
    | _ => none
  | .enterClose names =>
    match s.main with
    | .cancelled =>
      if Visits names s.kernel.world then
        some {s with main := .closing (close s.settings.manager names)}
      else none
    | _ => none
  | .close answer =>
    match s.main with
    | .closing (.call op next) =>
      let answered := lifeHandle op answer s.kernel
      some {s with kernel := answered.2,main := .closing (next answered.1)}
    | _ => none
  | .closed =>
    match s.main with
    | .closing (.done err) => some {s with main := .closed err}
    | _ => none
  | .ingress cpu prandom frame =>
    some {s with counters := (ingressVerdict order s cpu prandom frame).counters}

/-- A list of steps, all of them enabled. -/
def steps (lib : Parsers) (order : ByteOrder) :
    Process cpus → List (Action cpus) → Option (Process cpus)
  | s,[] => some s
  | s,action::rest => (step lib order s action).bind fun s => steps lib order s rest

/-- `main` up to the first discovery: the program, or why it gives up. -/
def launch (lib : Parsers) (cpus : ℕ) (flags : Flags) (answers : List Answer) :
    Except Fatal (Process cpus) :=
  let o := (start lib flags).exec lifeHandle answers unloaded
  o.value.map fun settings => {
    settings := settings
    kernel := o.state
    counters := newCounters cpus
    pool := newPool settings.vip settings.vport settings.srcMAC
    main := .starting
    reconciler := .idle
    collector := .idle
    printed := []}

end ContainerLb.Daemon

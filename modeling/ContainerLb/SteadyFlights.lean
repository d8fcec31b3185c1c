import ContainerLb.FramesInFlight
import ContainerLb.SteadyService

/-!
# Frames in flight in steady state

In steady state the reconciliations write what is there already, so a frame
in flight sees one and the same world at all its accesses, however many
writes come in between. The packet programs are then the service also on
frames in flight: nothing is torn.
-/

namespace ContainerLb.SteadyFlights

open CallProgram Scripts Interference HostBytes NetAddresses BpfManager PoolSync DockerDiscovery
open PoolRuns Convergence PacketPath PacketReads Balancing Datagrams DatagramPath Lifecycle Daemon
open DaemonRuns FramesInFlight SteadyService

variable {cpus : ℕ} {lib : Parsers} {order : ByteOrder} {first mid : Process cpus}
variable {actions : List (Action cpus)} {backends : List Backend} {α : Type}
variable {program : Prog Unit World α} {now : Moment cpus}
variable {o : Outcome Unit (List (Action cpus)) World (Moment cpus) α}

/-- The polls until some moment of a flight. -/
theorem OnlyFinds.flight {w : DockerWatcher} {more before : List (Action cpus)}
    (hmore : OnlyFinds lib w backends more)
    (hflight : ∀ e∈o.events,OnlyFinds lib w backends e.label)
    (hlabels : ∀ action∈before,∃ e∈o.events,action∈e.label) :
    OnlyFinds lib w backends (more++before) := by
  intro host iter found hm
  rcases List.mem_append.mp hm with hm|hm
  · exact hmore host iter found hm
  · obtain ⟨e,he,hlabel⟩ := hlabels _ hm
    exact hflight e he host iter found hlabel

/-- In steady state all accesses of a flight see the same world. -/
theorem steady_flight (hsynced : SyncedTwice lib order first actions mid backends)
    (hfirst : Launched first) {more : List (Action cpus)}
    (hsteps : steps lib order mid more=some now.2)
    (hfinds : OnlyFinds lib first.settings.watcher backends more)
    (hr : Runs (others lib order) program now o)
    (hflight : ∀ e∈o.events,OnlyFinds lib first.settings.watcher backends e.label)
    (hopen : o.state.2.main.isShut=false) :
    ∀ seen∈o.events.map fun e => (e.op,e.reply),
      seen.2=(run order (origin first) (schedule lib first.settings.watcher actions)).world := by
  intro seen hseen
  obtain ⟨e,he,rfl⟩ := List.mem_map.mp hseen
  obtain ⟨hreply,⟨before,hlabels,_,hreached⟩,behind,_,hlater⟩ := flight_moments hr e he
  have hpart := OnlyFinds.flight hfinds hflight hlabels
  have hall : steps lib order mid (more++before)=some e.after.2 := by
    rw [steps_append,hsteps]
    exact hreached
  exact hreply.trans (hsynced.steady hfirst hpart hall (isShut_of_steps hlater hopen)).1

/-- A frame in flight is treated like one that is handled at once. -/
theorem alone_forwards {state : State} (himage : Image order state backends)
    (hzero : ∀ b∈backends,b.ip.to4≠some ⟨0,0,0,0⟩) (prandom : UInt32) (d : Datagram) :
    ∃ h,alone (xdpLbIngressReads order prandom (serialize d)) state.world=some h ∧ h.action=.pass ∧
      h.frame=serialize ((serviceOf state.pool.vip state.pool.srcMAC backends).forward Icmp
        prandom.toNat d) := by
  obtain ⟨after,hrun⟩ := @ingress_forwards _ _ _ _ (Timeline.newCounters 1) (Fin.last 0) prandom
    himage hzero d
  rw [xdpLbIngress_eq_alone] at hrun
  obtain ⟨h,hvalue,hverdict⟩ := Option.map_eq_some_iff.mp hrun
  exact ⟨h,hvalue,congrArg Verdict.action hverdict,congrArg Verdict.frame hverdict⟩

/-- An echo request for the virtual address of the bridge. -/
def echoRequest : Datagram :=
  ⟨#v[2,66,1,2,3,4],#v[2,66,9,9,9,9],⟨192,168,0,9⟩,⟨172,17,0,1⟩,
    ⟨0,28,1,0,64,1,[8,0,0xf7,0xfd,0,1,0,1],fun _ => Nat.le_refl 8⟩⟩

end ContainerLb.SteadyFlights

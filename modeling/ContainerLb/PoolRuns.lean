import ContainerLb.SyncContract

/-!
# Runs of reconciliations

A run starts from an empty pool over freshly loaded maps and reconciles one
list after the other. Every attempt comes with the failures that the
environment imposes on its calls and with an iteration order. What holds
between any two attempts, whatever failed before, is collected in one
invariant.
-/

namespace ContainerLb.PoolRuns

open CallProgram BoundedMaps HostBytes NetAddresses BpfManager PoolSync ManagerSteps
open SyncPhases SyncEffects SyncContract

/-- Pool and world between two reconciliations. -/
@[ext]
structure State where
  /-- Memory of the pool. -/
  pool : Pool
  /-- Maps and links. -/
  world : World

/-- One call of `Sync` with the choices of the environment. -/
structure Attempt where
  /-- The list to sync. -/
  newBackends : List Backend
  /-- Iteration order of the leftover veths. -/
  iter : IterOrder
  /-- Failures imposed on the calls, in order; none beyond the list. -/
  faults : List Fault

/-- An attempt on which the environment imposes no failure. -/
def unhindered (newBackends : List Backend) : Attempt := ⟨newBackends,storedOrder,[]⟩

/-- The state of `NewPool` over empty maps. -/
def initial (vip : IP) (vport : UInt16) (srcMAC : HardwareAddr) : State :=
  ⟨newPool vip vport srcMAC,newWorld⟩

/-- Execution of one attempt. -/
def attempt (order : ByteOrder) (s : State) (a : Attempt) : GoOutcome (Pool×Option GoError) :=
  (sync order s.pool a.newBackends a.iter).exec handle a.faults s.world

/-- State after one attempt. -/
def next (order : ByteOrder) (s : State) (a : Attempt) : State :=
  ⟨(attempt order s a).value.1,(attempt order s a).state⟩

/-- State after a list of attempts. -/
def run (order : ByteOrder) (s : State) (attempts : List Attempt) : State :=
  attempts.foldl (next order) s

/-- `Sync` returned nil. -/
def Succeeds (order : ByteOrder) (s : State) (a : Attempt) : Prop :=
  (attempt order s a).value.2=none

/-- `Sync` returned nil and none of its calls failed. -/
def Smooth (order : ByteOrder) (s : State) (a : Attempt) : Prop :=
  Succeeds order s a ∧ ∀ e∈(attempt order s a).events,Unfailing e

/-- Every attempt of a run is smooth. -/
def SmoothRun (order : ByteOrder) : State → List Attempt → Prop
  | _,[] => True
  | s,a::rest => Smooth order s a ∧ SmoothRun order (next order s a) rest

instance (order : ByteOrder) (s : State) (a : Attempt) : Decidable (Succeeds order s a) :=
  inferInstanceAs (Decidable (_=none))

instance (order : ByteOrder) (s : State) (a : Attempt) : Decidable (Smooth order s a) :=
  inferInstanceAs (Decidable (_ ∧ _))

instance decidableSmoothRun (order : ByteOrder) :
    (s : State) → (attempts : List Attempt) → Decidable (SmoothRun order s attempts)
  | _,[] => isTrue trivial
  | s,a::rest =>
    have := decidableSmoothRun order (next order s a) rest
    inferInstanceAs (Decidable (_ ∧ _))

variable {order : ByteOrder} {s : State} {a : Attempt}

/-- The computed execution of an attempt is an execution of `sync`. -/
theorem attempt_runs (order : ByteOrder) (s : State) (a : Attempt) :
    Runs handle (sync order s.pool a.newBackends a.iter) s.world (attempt order s a) :=
  exec_runs _ _ _

/-- Every attempt meets the contract. -/
theorem attempt_contract (order : ByteOrder) (s : State) (a : Attempt) :
    Contract order s.pool a.newBackends s.world (attempt order s a) :=
  sync_contract (attempt_runs order s a)

/-- A run continued by another one. -/
theorem run_append (attempts more : List Attempt) :
    run order s (attempts++more)=run order (run order s attempts) more :=
  List.foldl_append

/-- A run with one more attempt. -/
theorem run_concat (attempts : List Attempt) :
    run order s (attempts++[a])=next order (run order s attempts) a :=
  run_append attempts [a]

/-- What every attempt preserves holds after every run. -/
theorem run_induction (holds : State → Prop) (hs : holds s)
    (hnext : ∀ s a,holds s → holds (next order s a)) (attempts : List Attempt) :
    holds (run order s attempts) := by
  induction attempts generalizing s with
  | nil => exact hs
  | cons a rest ih => exact ih (hnext s a hs)

/-- What every smooth attempt preserves holds after every smooth run. -/
theorem smoothRun_induction (holds : State → Prop) (hs : holds s)
    (hnext : ∀ s a,Smooth order s a → holds s → holds (next order s a))
    {attempts : List Attempt} (hsmooth : SmoothRun order s attempts) :
    holds (run order s attempts) := by
  induction attempts generalizing s with
  | nil => exact hs
  | cons a rest ih => exact ih (hnext s a hsmooth.1 hs) hsmooth.2

/-- A smooth run is smooth in its first part and from there on. -/
theorem smoothRun_append {attempts more : List Attempt} :
    SmoothRun order s (attempts++more) ↔
      SmoothRun order s attempts ∧ SmoothRun order (run order s attempts) more := by
  induction attempts generalizing s with
  | nil => exact (iff_of_eq (true_and _)).symm
  | cons a rest ih =>
    rw [List.cons_append,SmoothRun,SmoothRun,ih,and_assoc]
    rfl

/-- What holds between two reconciliations of any run. -/
structure Settled (order : ByteOrder) (s : State) : Prop where
  /-- Pool and manager agree on the attached veths. -/
  tracked : Tracked s.pool s.world
  /-- The remembered list fits the maps. -/
  bounded : s.pool.backends.length≤ maxBackends
  /-- All remembered addresses are IPv4. -/
  addresses : ∀ b∈s.pool.backends,∃ v4,b.ip.to4=some v4
  /-- The configured count is the length of the remembered list. -/
  count : ∃ config,s.world.configMap.lookup 0=some config ∧
    config.backendCount=UInt32.ofNat s.pool.backends.length

/-- The initial state is settled. -/
theorem initial_settled (order : ByteOrder) (vip : IP) (vport : UInt16) (srcMAC : HardwareAddr) :
    Settled order (initial vip vport srcMAC) := by
  refine ⟨fun name => ?_,Nat.zero_le _,by simp [initial,newPool],emptyConfig,?_,rfl⟩
  · simpa [initial,newPool,newWorld] using Finmap.notMem_empty
  · exact ArrayMap.lookup_replicate (by decide)

/-- Every attempt keeps the state settled. -/
theorem next_settled (hs : Settled order s) : Settled order (next order s a) := by
  have hc := attempt_contract order s a
  by_cases hok : (attempt order s a).value.2=none
  · obtain ⟨hbackends,hlen,hconfig⟩ := hc.done hok
    refine ⟨hc.tracked hs.tracked,?_,?_,_,hconfig,?_⟩
    · rw [next,hbackends]
      exact hlen
    · rw [next,hbackends]
      intro b hb
      obtain ⟨j,hj⟩ := List.mem_iff_getElem?.mp hb
      obtain ⟨v4,hv,_⟩ := hc.filled hok j b hj
      exact ⟨v4,hv⟩
    · rw [next,hbackends]
      rfl
  · obtain ⟨hbackends,hconfig⟩ := hc.failed hok
    refine ⟨hc.tracked hs.tracked,?_,?_,?_⟩
    · rw [next,hbackends]
      exact hs.bounded
    · rw [next,hbackends]
      exact hs.addresses
    · obtain ⟨config,hl,hn⟩ := hs.count
      refine ⟨config,?_,?_⟩
      · rw [next,hconfig]
        exact hl
      · rw [next,hbackends]
        exact hn

/-- Every run ends in a settled state. -/
theorem run_settled (order : ByteOrder) (vip : IP) (vport : UInt16) (srcMAC : HardwareAddr)
    (attempts : List Attempt) : Settled order (run order (initial vip vport srcMAC) attempts) :=
  run_induction _ (initial_settled order vip vport srcMAC) (fun _ _ => next_settled) attempts

/-- The settings of the pool never change. -/
theorem run_settings (order : ByteOrder) (vip : IP) (vport : UInt16) (srcMAC : HardwareAddr)
    (attempts : List Attempt) :
    (run order (initial vip vport srcMAC) attempts).pool.vip=vip ∧
      (run order (initial vip vport srcMAC) attempts).pool.vport=vport ∧
      (run order (initial vip vport srcMAC) attempts).pool.srcMAC=srcMAC := by
  refine run_induction (fun s => s.pool.vip=vip ∧ s.pool.vport=vport ∧ s.pool.srcMAC=srcMAC)
    ⟨rfl,rfl,rfl⟩ (fun s a hs => ?_) attempts
  obtain ⟨hvip,hport,hmac⟩ := (attempt_contract order s a).settings
  exact ⟨hvip.trans hs.1,hport.trans hs.2.1,hmac.trans hs.2.2⟩

/-- All worlds that a run passes through, between its attempts and between
the calls of each attempt. -/
def points (order : ByteOrder) : State → List Attempt → List World
  | s,[] => [s.world]
  | s,a::rest =>
    s.world::((attempt order s a).events.map Event.after++points order (next order s a) rest)

/-- What holds in good states and throughout every attempt from a good state
to the next one holds at every point of a run. -/
theorem points_induction {good : State → Prop} {holds : World → Prop}
    (hgood : ∀ s,good s → holds s.world)
    (hnext : ∀ s a,good s → good (next order s a) ∧ ∀ e∈(attempt order s a).events,holds e.after)
    (hs : good s) (attempts : List Attempt) : ∀ world∈points order s attempts,holds world := by
  induction attempts generalizing s with
  | nil => exact List.forall_mem_singleton.mpr (hgood s hs)
  | cons a rest ih =>
    have ha := hnext s a hs
    rw [points,List.forall_mem_cons,List.forall_mem_append,List.forall_mem_map]
    exact ⟨hgood s hs,ha.2,ih ha.1⟩

/-- The last point of a run. -/
theorem run_mem_points (attempts : List Attempt) :
    (run order s attempts).world∈points order s attempts := by
  induction attempts generalizing s with
  | nil => exact List.mem_cons_self
  | cons a rest ih => exact List.mem_cons_of_mem _ (List.mem_append_right _ ih)

/-- A container on the default bridge network, for concrete runs. -/
def bridged (host : UInt8) (vethName : String) : Backend :=
  ⟨vethName,vethName,[172,17,0,host],[2,66,172,17,0,host],80,true,1,vethName,host.toNat⟩

/-- The pool of concrete runs over freshly loaded maps. -/
def bridgePool : State := initial [172,17,0,1] 80 [2,66,1,2,3,4]

end ContainerLb.PoolRuns

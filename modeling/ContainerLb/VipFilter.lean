import ContainerLb.Capacity

/-!
# The filter on the virtual address

The configuration stores the virtual address as four bytes, and zero stands
for all destinations. An address that is not IPv4 is stored as zero too. So
the packet program filters by the configured address exactly when that is an
IPv4 address.
-/

namespace ContainerLb.VipFilter

open CallProgram BoundedMaps HostBytes NetAddresses BpfManager PoolSync ManagerSteps
open SyncPhases SyncEffects SyncContract PoolRuns PacketPath PacketEffects DnatRefinement
open Convergence Snapshot Capacity

variable {order : ByteOrder} {vip : IP} {world : World}

/-- Only frames for the virtual address are modified. -/
def Filters (order : ByteOrder) (vip : IP) (world : World) : Prop :=
  ∀ (cpus : ℕ) (counters : Counters cpus) (cpu : Fin cpus) (prandom : UInt32)
    (frame : List UInt8) (v : Verdict cpus),
    xdpLbIngress order world counters cpu prandom frame=some v → v.frame≠frame →
      DestinedFor vip frame

/-- The stored form of a virtual address. -/
def storedVip (order : ByteOrder) (vip : IP) : UInt32 := (vip.to4.map order.load32).getD 0

/-- No backend is active, or the virtual address is configured. -/
def Configured (order : ByteOrder) (vip : IP) (world : World) : Prop :=
  ∃ cfg,world.configMap.lookup 0=some cfg ∧ (cfg.backendCount=0 ∨ cfg.vip=storedVip order vip)

/-- A modified frame was selected for a backend. -/
theorem selects_of_modified {cpus : ℕ} {counters : Counters cpus} {cpu : Fin cpus}
    {prandom : UInt32} {frame : List UInt8} {v : Verdict cpus}
    (hrun : xdpLbIngress order world counters cpu prandom frame=some v) (hne : v.frame≠frame) :
    ∃ cfg backend,Selects order world prandom frame cfg backend := by
  rcases xdpLbIngress_cases counters cpu order world prandom frame with
    ⟨cfg,backend,_,hs,_,_⟩|⟨_,hpass⟩
  · exact ⟨cfg,backend,hs⟩
  · rw [hrun] at hpass
    exact absurd (congrArg Verdict.frame (Option.some.inj hpass)) hne

/-- A configured IPv4 address is filtered by. -/
theorem Configured.filters {v4 : Quad} (hv : vip.to4=some v4) (h : Configured order vip world) :
    Filters order vip world := by
  intro cpus counters cpu prandom frame v hrun hne
  obtain ⟨cfg,backend,hs⟩ := selects_of_modified hrun hne
  obtain ⟨cfg',hcfg',hvip⟩ := h
  cases Option.some.inj (hs.config.symm.trans hcfg')
  have hstored : cfg.vip=order.load32 v4 := by
    rw [hvip.resolve_left hs.count,storedVip,hv]
    rfl
  refine ⟨v4,hv,?_⟩
  rcases hs.vip with hzero|hdest
  · left
    exact order.load32_eq_zero.mp (hstored.symm.trans hzero)
  · right
    obtain ⟨quad,_,hslice,hread⟩ := hs.icmp.read32 (Nat.le_refl 30)
    rw [hread,hstored,Option.some.injEq,order.load32_inj] at hdest
    rw [hslice,hdest]

/-- A pool with the virtual address over a world that is configured for it. -/
def Serves (order : ByteOrder) (vip : IP) (s : State) : Prop :=
  s.pool.vip=vip ∧ Configured order vip s.world

/-- An attempt of such a pool keeps its world configured at every point. -/
theorem Serves.next {s : State} (h : Serves order vip s) (a : Attempt) :
    Serves order vip (next order s a) ∧
      ∀ e∈(attempt order s a).events,Configured order vip e.after := by
  have hc := attempt_contract order s a
  have hdone : Succeeds order s a → Configured order vip (PoolRuns.next order s a).world := by
    intro hok
    refine ⟨_,(hc.done hok).2.2,Or.inr ?_⟩
    rw [←h.1]
    rfl
  have hkept : ∀ world',world'.configMap=s.world.configMap → Configured order vip world' := by
    intro world' hsame
    obtain ⟨cfg,hcfg,hvip⟩ := h.2
    exact ⟨cfg,hsame ▸ hcfg,hvip⟩
  refine ⟨⟨hc.settings.1.trans h.1,?_⟩,fun e hm => ?_⟩
  · by_cases hok : Succeeds order s a
    · exact hdone hok
    · exact hkept _ (hc.failed hok).2
  · rcases hc.config e hm with ⟨_,hok,hlast⟩|⟨_,hsame⟩
    · rw [hlast]
      exact hdone hok
    · exact hkept _ hsame

/-- Every point of every run is configured for the virtual address. -/
theorem points_configured (order : ByteOrder) (vip : IP) (vport : UInt16) (srcMAC : HardwareAddr)
    (attempts : List Attempt) :
    ∀ world∈points order (initial vip vport srcMAC) attempts,Configured order vip world := by
  have hinitial : Serves order vip (initial vip vport srcMAC) :=
    ⟨rfl,emptyConfig,ArrayMap.lookup_replicate (by decide),Or.inl rfl⟩
  exact points_induction (fun s hs => hs.2) (fun s a hs => hs.next a) hinitial attempts

/-- An address that is not IPv4 lets every destination pass the filter once a
backend is active. -/
theorem not_filters_of_notIPv4 (order : ByteOrder) (vport : UInt16) (srcMAC : HardwareAddr)
    (hv : vip.to4=none) :
    ¬Filters order vip
      (run order (initial vip vport srcMAC) [unhindered [bridged 2 "veth2"]]).world := by
  have hok : Succeeds order (initial vip vport srcMAC) (unhindered [bridged 2 "veth2"]) :=
    (Tidy.smooth (initial_tidy order vip vport srcMAC) (unhindered_unopposed order _ _)
      (by decide)).1
  have hc := attempt_contract order (initial vip vport srcMAC) (unhindered [bridged 2 "veth2"])
  obtain ⟨v4,hip,hslot⟩ := hc.filled hok 0 (bridged 2 "veth2") rfl
  have hicmp : IcmpFrame order (probe 0 ⟨10,0,0,1⟩) := PlainIcmp.icmp (by decide)
  have hselects : Selects order (next order (initial vip vport srcMAC)
      (unhindered [bridged 2 "veth2"])).world 0 (probe 0 ⟨10,0,0,1⟩)
      (poolConfig order (initial vip vport srcMAC).pool [bridged 2 "veth2"])
      (backendInfo order v4 (bridged 2 "veth2").port (bridged 2 "veth2").mac) := by
    have hcount : UInt32.ofNat 1≠0 := by decide
    refine ⟨hicmp,(hc.done hok).2.2,hcount,Or.inl ?_,hslot,backendInfo_ipv4.mpr ?_⟩
    · change (vip.to4.map order.load32).getD 0=0
      rw [hv]
      rfl
    · cases hip
      decide
  obtain ⟨v,hrun,haddressed,_⟩ := Selects.addressed
    (ArrayMap.replicate maxBackends (Vector.replicate 1 ⟨0,0⟩)) (0 : Fin 1) hip hselects
  intro hfilters
  have hne : v.frame≠probe 0 ⟨10,0,0,1⟩ := by
    intro hsame
    have haddress := haddressed.2
    rw [hsame] at haddress
    exact absurd haddress (by decide)
  obtain ⟨found,hfound,_⟩ := hfilters 1 _ 0 0 _ v hrun hne
  rw [hv] at hfound
  contradiction

/-- Only traffic for the virtual address is balanced: at every point of every
run, whatever fails, every modified frame has the configured virtual address
as its destination, or that address is 0.0.0.0. This holds if and only if the
configured address is an IPv4 address. -/
theorem only_vip_balanced_iff (order : ByteOrder) (vip : IP) (vport : UInt16)
    (srcMAC : HardwareAddr) :
    (∀ attempts,∀ world∈points order (initial vip vport srcMAC) attempts,
      Filters order vip world) ↔ vip.to4≠none := by
  constructor
  · intro hall hv
    exact not_filters_of_notIPv4 order vport srcMAC hv (hall _ _ (run_mem_points _))
  · intro hv attempts world hw
    obtain ⟨v4,hv4⟩ := Option.ne_none_iff_exists'.mp hv
    exact (points_configured order vip vport srcMAC attempts world hw).filters hv4

/-- With the virtual address 2001:db8::1 a frame for 10.0.0.1 is sent to a
backend. -/
theorem foreign_frame_balanced_for_ipv6_vip :
    Succeeds .little (initial [32,1,13,184,0,0,0,0,0,0,0,0,0,0,0,1] 80 [2,66,1,2,3,4])
        (unhindered [bridged 2 "veth2"]) ∧
      ∃ v,xdpLbIngress .little
          (run .little (initial [32,1,13,184,0,0,0,0,0,0,0,0,0,0,0,1] 80 [2,66,1,2,3,4])
            [unhindered [bridged 2 "veth2"]]).world
          (.replicate maxBackends (Vector.replicate 1 ⟨0,0⟩)) (0 : Fin 1) 7
          (echo 8 0 0 ⟨192,168,0,9⟩ ⟨10,0,0,1⟩)=some v ∧
        slice v.frame 30 4=[172,17,0,2] ∧
        ¬DestinedFor [32,1,13,184,0,0,0,0,0,0,0,0,0,0,0,1]
          (echo 8 0 0 ⟨192,168,0,9⟩ ⟨10,0,0,1⟩) := by
  refine ⟨by decide,_,rfl,by decide,by decide⟩

end ContainerLb.VipFilter

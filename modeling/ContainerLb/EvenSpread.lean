import ContainerLb.DnatRefinement
import ContainerLb.ResidueCounts

/-!
# How evenly frames are spread

A random number of 32 bits picks a position by its remainder. Among all its
values, the numbers of values for any two positions differ by at most one,
and every value delivers the frame. This counts the values through the whole
program: checks, remainder, slot lookup and the bypass of empty slots.
-/

namespace ContainerLb.EvenSpread

open CallProgram BoundedMaps HostBytes NetAddresses BpfManager PoolSync ManagerSteps
open SyncPhases SyncEffects SyncContract PoolRuns PacketPath PacketEffects DnatRefinement
open ResidueCounts

variable {order : ByteOrder} {world : World} {cpus : ℕ} {counters : Counters cpus}
  {cpu : Fin cpus} {frame : List UInt8} {backends : List Backend}

/-- A random number sends a frame to a position: the frame is addressed to
the backend there and counted there. -/
def SentTo (order : ByteOrder) (world : World) (counters : Counters cpus) (cpu : Fin cpus)
    (frame : List UInt8) (backends : List Backend) (i : ℕ) (prandom : UInt32) : Prop :=
  ∃ b v,backends[i]?=some b ∧ xdpLbIngress order world counters cpu prandom frame=some v ∧
    AddressedTo b v.frame ∧ v.counters=countFrame counters cpu (UInt32.ofNat i) frame.length

/-- Random numbers that send a frame to a position. -/
noncomputable def sentCount (order : ByteOrder) (world : World) (counters : Counters cpus)
    (cpu : Fin cpus) (frame : List UInt8) (backends : List Backend) (i : ℕ) : ℕ :=
  {prandom | SentTo order world counters cpu frame backends i prandom}.ncard

/-- The counters tell at which index a frame was counted. -/
theorem countFrame_inj {idx other : UInt32} {length : ℕ} (hidx : idx.toNat< maxBackends)
    (h : countFrame counters cpu idx length=countFrame counters cpu other length) : idx=other := by
  by_contra hne
  obtain ⟨stats,hstats⟩ :=
    Option.isSome_iff_exists.mp ((ArrayMap.lookup_isSome counters idx).mpr hidx)
  have hlookup := congrArg (ArrayMap.lookup · idx) h
  simp only [countFrame,ArrayMap.lookup_modify,if_neg hne,if_true,hstats,Option.map_some,
    Option.some_inj] at hlookup
  have hown := congrArg (fun s => s[cpu].rxPackets.toNat) hlookup
  simp only [Fin.getElem_fin,Vector.getElem_set_self,UInt64.toNat_add,UInt64.reduceToNat] at hown
  have hlt := (stats[(cpu : ℕ)]).rxPackets.toNat_lt
  omega

/-- With a full configuration, a random number sends an eligible frame to its
remainder and nowhere else. -/
theorem sentTo_iff {vip : IP} {vport : UInt16} {srcMAC : HardwareAddr} {i : ℕ}
    {prandom : UInt32} (he : Eligible order vip frame) (hlen : backends.length≤ maxBackends)
    (hconfig : world.configMap.lookup 0=
      some (lbConfig order vip vport (UInt32.ofNat backends.length) srcMAC))
    (hslots : ∀ j b,backends[j]?=some b → InSlot order world j b)
    (haddress : ∀ b∈backends,b.ip.to4≠some ⟨0,0,0,0⟩) (hi : i<backends.length) :
    SentTo order world counters cpu frame backends i prandom ↔
      prandom.toNat%backends.length=i := by
  have hpos : backends.length≠0 := by omega
  have hlt : prandom.toNat%backends.length<backends.length :=
    Nat.mod_lt _ (Nat.pos_of_ne_zero hpos)
  have hpick := List.getElem?_eq_getElem hlt
  obtain ⟨v4,hv,hlookup⟩ := hslots _ _ hpick
  have hs := he.selects hlen hpos hconfig hv (haddress _ (List.getElem_mem hlt)) hlookup
  obtain ⟨rewritten,hrun,_⟩ := xdpLbIngress_selected counters cpu hs
  have hindex : prandom%(lbConfig order vip vport (UInt32.ofNat backends.length) srcMAC).backendCount=
      UInt32.ofNat (prandom.toNat%backends.length) := prandom_mod hlen
  rw [hindex] at hrun
  constructor
  · rintro ⟨b,v,_,hv,_,hcount⟩
    obtain rfl := Option.some.inj (hrun.symm.trans hv)
    have hsame := countFrame_inj (by rw [toNat_ofNat_of_le] <;> omega) hcount
    exact (ofNat_inj_of_le (by omega) (by omega)).mp hsame
  · rintro rfl
    obtain ⟨v,hv,haddressed,_⟩ := Selects.addressed counters cpu hv hs
    obtain rfl := Option.some.inj (hrun.symm.trans hv)
    exact ⟨_,_,hpick,hrun,haddressed,rfl⟩

/-- Even spread. After any run and a successful reconciliation of a list of
usable addresses that is not empty, the numbers of random values that send an
eligible frame to two positions differ by at most one. The larger number
occurs for as many positions as the remainder of all values says, the numbers
add up to all values, and every value delivers the frame. -/
theorem even_spread (order : ByteOrder) (vip : IP) (vport : UInt16) (srcMAC : HardwareAddr)
    (attempts : List Attempt) (a : Attempt)
    (hok : Succeeds order (run order (initial vip vport srcMAC) attempts) a)
    (hne : a.newBackends≠[]) (haddress : ∀ b∈a.newBackends,b.ip.to4≠some ⟨0,0,0,0⟩) {cpus : ℕ}
    (counters : Counters cpus) (cpu : Fin cpus) (frame : List UInt8)
    (he : Eligible order vip frame) :
    let world := (run order (initial vip vport srcMAC) (attempts++[a])).world
    let n := a.newBackends.length
    let sent := sentCount order world counters cpu frame a.newBackends
    (∀ i<n,sent i=2^32/n ∨ sent i=2^32/n+1) ∧
      ((Finset.range n).filter fun i => sent i=2^32/n+1).card=2^32%n ∧
      ∑ i∈Finset.range n,sent i=2^32 ∧
      ∀ prandom,∃ i<n,SentTo order world counters cpu frame a.newBackends i prandom := by
  intro world n sent
  obtain ⟨hlen,hconfig,hfilled⟩ := run_filled hok
  have hpos : 0<n := List.length_pos_iff.mpr hne
  have hiff : ∀ i<n,∀ prandom,
      SentTo order world counters cpu frame a.newBackends i prandom ↔ prandom.toNat%n=i := by
    intro i hi prandom
    exact sentTo_iff he hlen hconfig hfilled haddress hi
  have hsent : ∀ i<n,sent i=residueCount (2^32) n i := by
    intro i hi
    rw [←ncard_residue hi]
    exact congrArg Set.ncard (Set.ext (hiff i hi))
  refine ⟨fun i hi => ?_,?_,?_,fun prandom => ?_⟩
  · rw [hsent i hi,residueCount]
    split
    · exact Or.inr rfl
    · exact Or.inl rfl
  · rw [←card_larger hpos]
    congr 1
    refine Finset.filter_congr fun i hi => ?_
    rw [hsent i (Finset.mem_range.mp hi)]
  · rw [Finset.sum_congr rfl fun i hi => hsent i (Finset.mem_range.mp hi)]
    exact sum_residueCount hpos
  · exact ⟨prandom.toNat%n,Nat.mod_lt _ hpos,(hiff _ (Nat.mod_lt _ hpos) prandom).mpr rfl⟩

/-- Three backends share four billion values: one of them gets one more. -/
theorem even_spread_three :
    let sent := sentCount .little (run .little (initial [172,17,0,1] 80 [2,66,1,2,3,4])
      ([]++[unhindered [bridged 2 "veth2",bridged 3 "veth3",bridged 4 "veth4"]])).world
      (.replicate maxBackends (Vector.replicate 1 ⟨0,0⟩)) (0 : Fin 1)
      (echo 8 0 0 ⟨192,168,0,9⟩ ⟨172,17,0,1⟩)
      [bridged 2 "veth2",bridged 3 "veth3",bridged 4 "veth4"]
    (∀ i<3,sent i=1431655765 ∨ sent i=1431655766) ∧
      ((Finset.range 3).filter fun i => sent i=1431655766).card=1 ∧
      ∑ i∈Finset.range 3,sent i=4294967296 := by
  obtain ⟨hcounts,hlarger,hsum,_⟩ := even_spread .little [172,17,0,1] 80 [2,66,1,2,3,4] []
    (unhindered [bridged 2 "veth2",bridged 3 "veth3",bridged 4 "veth4"]) (by decide) (by decide)
    (by decide) (.replicate maxBackends (Vector.replicate 1 ⟨0,0⟩)) (0 : Fin 1)
    (echo 8 0 0 ⟨192,168,0,9⟩ ⟨172,17,0,1⟩) (by decide)
  exact ⟨hcounts,hlarger,hsum⟩

end ContainerLb.EvenSpread

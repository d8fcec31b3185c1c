import ContainerLb.PoolSync
import ContainerLb.PacketEffects

/-!
# Reading the counters

Every processor counts into its own copy of a counter. A reader adds the
copies of one index, modulo the word size, and the table of statistics shows
the sums of index `i` in the row of the pool's backend at position `i`.
-/

namespace ContainerLb.Statistics

open BoundedMaps HostBytes NetAddresses BpfManager PoolSync PacketPath PacketEffects

variable {cpus : ℕ} {counters : Counters cpus} {cpu : Fin cpus}

/-- One iteration of the loop of `ReadStats`. -/
def addCounter (sums : UInt64×UInt64) (counter : StatsCounter) : UInt64×UInt64 :=
  (sums.1+counter.rxPackets,sums.2+counter.rxBytes)

/-- `Manager.ReadStats`: packets and bytes of all processors. -/
def readStats (counters : Counters cpus) (index : UInt32) : Except Errno (UInt64×UInt64) :=
  match counters.lookup index with
  | none => .error .enoent
  | some perCPU => .ok (perCPU.toList.foldl addCounter (0,0))

/-- `Pool.GetBackends`: a copy of the remembered list. -/
def getBackends (p : Pool) : List Backend := p.backends

/-- A row of the table, before it is formatted. -/
structure Row where
  /-- Index of the row. -/
  idx : ℕ
  /-- The backend that it names. -/
  backend : Backend
  /-- Packets shown. -/
  packets : UInt64
  /-- Bytes shown. -/
  bytes : UInt64
  deriving DecidableEq

/-- Rows of `Collector.render`; an index that cannot be read shows zeros. -/
def render (p : Pool) (counters : Counters cpus) : List Row :=
  (getBackends p).zipIdx.map fun (b,i) =>
    match readStats counters (UInt32.ofNat i) with
    | .ok (packets,bytes) => ⟨i,b,packets,bytes⟩
    | .error _ => ⟨i,b,0,0⟩

/-- An amount added at the start is added to the sum. -/
theorem foldl_addCounter (perCPU : List StatsCounter) (packets bytes : UInt64)
    (sums : UInt64×UInt64) :
    perCPU.foldl addCounter (sums.1+packets,sums.2+bytes)=
      ((perCPU.foldl addCounter sums).1+packets,(perCPU.foldl addCounter sums).2+bytes) := by
  induction perCPU generalizing sums with
  | nil => rfl
  | cons counter rest ih =>
    rw [List.foldl_cons,List.foldl_cons,←ih]
    congr 1
    simp only [addCounter,Prod.mk.injEq]
    exact ⟨by ac_rfl,by ac_rfl⟩

/-- An amount added to one copy is added to the sum. -/
theorem foldl_addCounter_set {perCPU : List StatsCounter} {k : ℕ} {own : StatsCounter}
    (hk : perCPU[k]?=some own) (packets bytes : UInt64) (sums : UInt64×UInt64) :
    (perCPU.set k ⟨own.rxPackets+packets,own.rxBytes+bytes⟩).foldl addCounter sums=
      ((perCPU.foldl addCounter sums).1+packets,(perCPU.foldl addCounter sums).2+bytes) := by
  induction perCPU generalizing k sums with
  | nil => contradiction
  | cons counter rest ih =>
    cases k with
    | zero =>
      cases hk
      rw [List.set_cons_zero,List.foldl_cons,List.foldl_cons,←foldl_addCounter]
      congr 1
      simp only [addCounter,Prod.mk.injEq]
      exact ⟨by ac_rfl,by ac_rfl⟩
    | succ k =>
      rw [List.set_cons_succ,List.foldl_cons,List.foldl_cons]
      exact ih hk _

/-- A counted frame adds one packet and its length at its index. -/
theorem readStats_countFrame (idx : UInt32) (length : ℕ) (index : UInt32) :
    readStats (countFrame counters cpu idx length) index=
      if index=idx then
        (readStats counters index).map fun sums => (sums.1+1,sums.2+UInt64.ofNat length)
      else readStats counters index := by
  unfold readStats countFrame
  rw [ArrayMap.lookup_modify]
  by_cases he : index=idx
  · rw [if_pos he,if_pos he]
    cases hl : counters.lookup index with
    | none => rfl
    | some perCPU =>
      have hown : perCPU.toList[cpu.val]?=some perCPU[cpu] := by simp
      have hsum := foldl_addCounter_set hown 1 (UInt64.ofNat length) (0,0)
      simp only [Option.map_some,Except.map,Fin.getElem_fin,Vector.toList_set] at hsum ⊢
      rw [hsum]
  · rw [if_neg he,if_neg he]

end ContainerLb.Statistics

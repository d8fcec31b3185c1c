import ContainerLb.BpfManager
import Mathlib.Data.List.AList

/-!
# The reconciling pool

`sync` compares the given list with the last synced one by position and by
veth name. It rewrites the slots one by one, clearing a slot first when its
address changes, attaches the SNAT program to new veths, clears the slots
beyond the new length, detaches the veths that are gone and writes the
configuration last. It stops at the first reported error and keeps what has
been done; only the clearing inside the first loop ignores its error.

The order in which Go visits the remaining veths is unspecified. It is an
argument here, any rearrangement of the entries.
-/

namespace ContainerLb.PoolSync

open CallProgram BoundedMaps HostBytes NetAddresses BpfManager

/-- `Pool` without its lock: last synced list, attached veths, configuration. -/
@[ext]
structure Pool where
  /-- Snapshot of the last fully synced backends. -/
  backends : List Backend
  /-- Names of the veths attached so far. -/
  byVeth : Finset String
  /-- Configured virtual address. -/
  vip : IP
  /-- Configured virtual port. -/
  vport : UInt16
  /-- Source hardware address for forwarded frames. -/
  srcMAC : HardwareAddr
  deriving DecidableEq

/-- `NewPool`. -/
def newPool (vip : IP) (vport : UInt16) (srcMAC : HardwareAddr) : Pool :=
  ⟨[],∅,vip,vport,srcMAC⟩

/-- Go map from veth name to backend. -/
abbrev VethMap := AList fun _ : String => Backend

/-- Entries of such a map. -/
abbrev VethEntries := List (Sigma fun _ : String => Backend)

/-- Iteration order of a Go map: some rearrangement of its entries. -/
def IterOrder := {reorder : VethEntries → VethEntries // ∀ entries,(reorder entries).Perm entries}

/-- Iteration in stored order. -/
def storedOrder : IterOrder := ⟨id,fun _ => .refl _⟩

/-- Old backends by veth name; a later backend replaces an earlier one. -/
def byVethName (backends : List Backend) : VethMap :=
  backends.foldl (fun map b => map.insert b.vethName b) ∅

/-- Whether the first loop clears index `i` before writing `b` there: the
index was used by a different address. -/
def reusedBy (old : List Backend) (i : ℕ) (b : Backend) : Option Backend :=
  match old[i]? with
  | none => none
  | some previous => if previous.ip.equal b.ip then none else some previous

/-- Clearing inside the first loop; its error is ignored. -/
def clearReused (order : ByteOrder) (old : List Backend) (i : ℕ) (b : Backend) : Go Unit :=
  match reusedBy old i b with
  | none => return ()
  | some previous => do
    let _ ← clearBackend order (UInt32.ofNat i) previous.ip
    return ()

/-- Body of the first loop of `Sync` at position `i`: clear a reused index,
write the backend and attach its veth unless that has been done. -/
def writeBackend (order : ByteOrder) (p : Pool) (i : ℕ) (b : Backend) :
    Go (Pool×Option GoError) := do
  clearReused order p.backends i b
  match ← updateBackend order (UInt32.ofNat i) b.ip b.port b.mac with
  | some err => return (p,some (.writeBackend i b.name err))
  | none =>
    if b.vethName∈p.byVeth then return (p,none)
    else
      match ← Prog.request (.attachVethXDP b.vethName b.vethIdx) with
      | some err => return (p,some (.attachVeth b.name b.vethName err))
      | none => return ({p with byVeth := insert b.vethName p.byVeth},none)

/-- First loop of `Sync` from position `i` on. Returns the pool, the veths
not seen in the new list so far and the error. -/
def writeBackends (order : ByteOrder) (p : Pool) (i : ℕ) (oldByVeth : VethMap) :
    List Backend → Go (Pool×VethMap×Option GoError)
  | [] => return (p,oldByVeth,none)
  | b::rest => do
    let (p,err) ← writeBackend order p i b
    match err with
    | some err => return (p,oldByVeth,some err)
    | none => writeBackends order p (i+1) (oldByVeth.erase b.vethName) rest

/-- Second loop of `Sync`: clear the old backends from index `idx` on. -/
def clearStale (order : ByteOrder) (idx : ℕ) : List Backend → Go (Option GoError)
  | [] => return none
  | old::rest => do
    match ← clearBackend order (UInt32.ofNat idx) old.ip with
    | some err => return some (.clearBackend (UInt32.ofNat idx) old.name err)
    | none => clearStale order (idx+1) rest

/-- Third loop of `Sync`: detach the veths that are left over. -/
def detachStale (p : Pool) : VethEntries → Go (Pool×Option GoError)
  | [] => return (p,none)
  | ⟨vethName,old⟩::rest => do
    match ← Prog.request (.detachVethXDP vethName) with
    | some err => return (p,some (.detachVeth old.name vethName err))
    | none => detachStale {p with byVeth := p.byVeth.erase vethName} rest

/-- `Pool.Sync`. Returns the pool and the error, absent on success. -/
def sync (order : ByteOrder) (p : Pool) (newBackends : List Backend) (iter : IterOrder) :
    Go (Pool×Option GoError) := do
  let (p,oldByVeth,err) ← writeBackends order p 0 (byVethName p.backends) newBackends
  match err with
  | some err => return (p,some err)
  | none =>
    match ← clearStale order newBackends.length (p.backends.drop newBackends.length) with
    | some err => return (p,some err)
    | none =>
      let (p,err) ← detachStale p (iter.1 oldByVeth.entries)
      match err with
      | some err => return (p,some err)
      | none =>
        match ← updateConfig order p.vip p.vport (UInt32.ofNat newBackends.length) p.srcMAC with
        | some err => return (p,some (.updateConfig err))
        | none => return ({p with backends := newBackends},none)

end ContainerLb.PoolSync

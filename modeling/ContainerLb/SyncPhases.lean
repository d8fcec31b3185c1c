import ContainerLb.PoolSync
import ContainerLb.ManagerSteps

/-!
# Phases of one reconciliation

Inversion of the loops of `sync`, one iteration at a time, and of `sync`
itself into its four phases: write, clear, detach, configure. Each lemma
lists where the execution may have stopped and which calls it executed.
-/

namespace ContainerLb.SyncPhases

open CallProgram BoundedMaps HostBytes NetAddresses BpfManager PoolSync ManagerSteps

variable {order : ByteOrder} {p : Pool} {world : World}

/-- The clearing inside the first loop runs `ClearBackend` or nothing. -/
theorem runs_clearReused {old : List Backend} {i : ℕ} {b : Backend} {o : GoOutcome Unit}
    (hr : Runs handle (clearReused order old i b) world o) :
    (reusedBy old i b=none ∧ o.state=world ∧ o.events=[]) ∨
    ∃ previous cleared,reusedBy old i b=some previous ∧
      Runs handle (clearBackend order (UInt32.ofNat i) previous.ip) world cleared ∧
      o.state=cleared.state ∧ o.events=cleared.events := by
  unfold clearReused at hr
  cases hb : reusedBy old i b with
  | none =>
    rw [hb] at hr
    obtain rfl := runs_done.mp hr
    exact Or.inl ⟨rfl,rfl,rfl⟩
  | some previous =>
    rw [hb] at hr
    obtain ⟨cleared,rest,hcleared,hrest,rfl⟩ := runs_bind.mp hr
    obtain rfl := runs_done.mp hrest
    exact Or.inr ⟨previous,cleared,rfl,hcleared,rfl,by simp [Outcome.prepend]⟩

/-- The body of the first loop: stopped by the write, or continued to an
attach when the veth is not attached yet. -/
theorem runs_writeBackend {i : ℕ} {b : Backend} {o : GoOutcome (Pool×Option GoError)}
    (hr : Runs handle (writeBackend order p i b) world o) :
    ∃ cleared updated,Runs handle (clearReused order p.backends i b) world cleared ∧
      Runs handle (updateBackend order (UInt32.ofNat i) b.ip b.port b.mac) cleared.state updated ∧
      ((updated.value≠none ∧ o.value.1=p ∧ o.value.2≠none ∧ o.state=updated.state ∧
          o.events=cleared.events++updated.events) ∨
      (updated.value=none ∧ b.vethName∈p.byVeth ∧ o.value=(p,none) ∧ o.state=updated.state ∧
          o.events=cleared.events++updated.events) ∨
      (updated.value=none ∧ b.vethName∉p.byVeth ∧ ∃ fault,
        (((step (.attachVethXDP b.vethName b.vethIdx) fault updated.state).reply≠none ∧
            o.value.1=p ∧ o.value.2≠none) ∨
          ((step (.attachVethXDP b.vethName b.vethIdx) fault updated.state).reply=none ∧
            o.value=({p with byVeth := insert b.vethName p.byVeth},none))) ∧
        o.state=(step (.attachVethXDP b.vethName b.vethIdx) fault updated.state).after ∧
        o.events=cleared.events++updated.events++
          [step (.attachVethXDP b.vethName b.vethIdx) fault updated.state])) := by
  obtain ⟨cleared,second,hcleared,hsecond,rfl⟩ := runs_bind.mp hr
  obtain ⟨updated,third,hupdated,hthird,rfl⟩ := runs_bind.mp hsecond
  refine ⟨cleared,updated,hcleared,hupdated,?_⟩
  cases hv : updated.value with
  | some err =>
    simp only [hv] at hthird
    obtain rfl := runs_done.mp hthird
    exact Or.inl ⟨by simp,rfl,by simp [Outcome.prepend],rfl,by simp [Outcome.prepend]⟩
  | none =>
    simp only [hv] at hthird
    by_cases hm : b.vethName∈p.byVeth
    · rw [if_pos hm] at hthird
      obtain rfl := runs_done.mp hthird
      exact Or.inr (Or.inl ⟨rfl,hm,rfl,rfl,by simp [Outcome.prepend]⟩)
    · rw [if_neg hm] at hthird
      obtain ⟨attached,fourth,hattached,hfourth,rfl⟩ := runs_bind.mp hthird
      obtain ⟨fault,rfl⟩ := runs_request.mp hattached
      refine Or.inr (Or.inr ⟨rfl,hm,fault,?_⟩)
      cases ha : (step (.attachVethXDP b.vethName b.vethIdx) fault updated.state).reply with
      | some err =>
        simp only [ha] at hfourth
        obtain rfl := runs_done.mp hfourth
        exact ⟨Or.inl ⟨by simp,rfl,by simp [Outcome.prepend]⟩,rfl,by simp [Outcome.prepend]⟩
      | none =>
        simp only [ha] at hfourth
        obtain rfl := runs_done.mp hfourth
        exact ⟨Or.inr ⟨rfl,rfl⟩,rfl,by simp [Outcome.prepend]⟩

/-- One iteration of the first loop. -/
theorem runs_writeBackends_cons {i : ℕ} {oldByVeth : VethMap} {b : Backend}
    {rest : List Backend} {o : GoOutcome (Pool×VethMap×Option GoError)}
    (hr : Runs handle (writeBackends order p i oldByVeth (b::rest)) world o) :
    ∃ body,Runs handle (writeBackend order p i b) world body ∧
      ((body.value.2≠none ∧ o.value.1=body.value.1 ∧ o.value.2.2≠none ∧ o.state=body.state ∧
          o.events=body.events) ∨
      (body.value.2=none ∧ ∃ tail,
        Runs handle (writeBackends order body.value.1 (i+1) (oldByVeth.erase b.vethName) rest)
            body.state tail ∧
          o=tail.prepend body.events)) := by
  rw [writeBackends] at hr
  obtain ⟨body,second,hbody,hsecond,rfl⟩ := runs_bind.mp hr
  refine ⟨body,hbody,?_⟩
  cases hv : body.value.2 with
  | some err =>
    simp only [hv] at hsecond
    obtain rfl := runs_done.mp hsecond
    exact Or.inl ⟨by simp,rfl,by simp [Outcome.prepend],rfl,by simp [Outcome.prepend]⟩
  | none =>
    simp only [hv] at hsecond
    exact Or.inr ⟨rfl,second,hsecond,rfl⟩

/-- One iteration of the second loop. -/
theorem runs_clearStale_cons {idx : ℕ} {old : Backend} {rest : List Backend}
    {o : GoOutcome (Option GoError)}
    (hr : Runs handle (clearStale order idx (old::rest)) world o) :
    ∃ cleared,Runs handle (clearBackend order (UInt32.ofNat idx) old.ip) world cleared ∧
      ((cleared.value≠none ∧ o.value≠none ∧ o.state=cleared.state ∧ o.events=cleared.events) ∨
      (cleared.value=none ∧ ∃ tail,Runs handle (clearStale order (idx+1) rest) cleared.state tail ∧
        o=tail.prepend cleared.events)) := by
  rw [clearStale] at hr
  obtain ⟨cleared,second,hcleared,hsecond,rfl⟩ := runs_bind.mp hr
  refine ⟨cleared,hcleared,?_⟩
  cases hv : cleared.value with
  | some err =>
    simp only [hv] at hsecond
    obtain rfl := runs_done.mp hsecond
    exact Or.inl ⟨by simp,by simp [Outcome.prepend],rfl,by simp [Outcome.prepend]⟩
  | none =>
    simp only [hv] at hsecond
    exact Or.inr ⟨rfl,second,hsecond,rfl⟩

/-- One iteration of the third loop. -/
theorem runs_detachStale_cons {vethName : String} {old : Backend} {rest : VethEntries}
    {o : GoOutcome (Pool×Option GoError)}
    (hr : Runs handle (detachStale p (⟨vethName,old⟩::rest)) world o) :
    ∃ fault,
      ((step (.detachVethXDP vethName) fault world).reply≠none ∧ o.value.1=p ∧ o.value.2≠none ∧
        o.state=world ∧ o.events=[step (.detachVethXDP vethName) fault world]) ∨
      ((step (.detachVethXDP vethName) fault world).reply=none ∧
        ∃ tail,Runs handle (detachStale {p with byVeth := p.byVeth.erase vethName} rest)
            (step (.detachVethXDP vethName) fault world).after tail ∧
          o=tail.prepend [step (.detachVethXDP vethName) fault world]) := by
  rw [detachStale] at hr
  obtain ⟨detached,second,hdetached,hsecond,rfl⟩ := runs_bind.mp hr
  obtain ⟨fault,rfl⟩ := runs_request.mp hdetached
  refine ⟨fault,?_⟩
  cases hd : (step (.detachVethXDP vethName) fault world).reply with
  | some err =>
    simp only [hd] at hsecond
    obtain rfl := runs_done.mp hsecond
    have hc := detachVethXDP_cases vethName fault world
    simp only [hd,reduceCtorEq,false_and,or_false] at hc
    exact Or.inl ⟨by simp,rfl,by simp [Outcome.prepend],by simp [Outcome.prepend,hc.2.1],rfl⟩
  | none =>
    simp only [hd] at hsecond
    exact Or.inr ⟨rfl,second,hsecond,rfl⟩

/-- The configuration that a pool writes for a list. -/
def poolConfig (order : ByteOrder) (p : Pool) (newBackends : List Backend) : LbConfig :=
  lbConfig order p.vip p.vport (UInt32.ofNat newBackends.length) p.srcMAC

/-- The four phases of `sync` and the places where it can stop. -/
inductive Progress (order : ByteOrder) (p : Pool) (newBackends : List Backend)
    (iter : IterOrder) (world : World) (o : GoOutcome (Pool×Option GoError)) : Prop
  /-- Stopped in the first loop. -/
  | writeFailed (written : GoOutcome (Pool×VethMap×Option GoError))
      (hwritten : Runs handle (writeBackends order p 0 (byVethName p.backends) newBackends)
        world written)
      (hpool : o.value.1=written.value.1) (herr : o.value.2≠none)
      (hstate : o.state=written.state) (hevents : o.events=written.events)
      (hstop : written.value.2.2≠none)
  /-- Stopped in the second loop. -/
  | clearFailed (written : GoOutcome (Pool×VethMap×Option GoError))
      (cleared : GoOutcome (Option GoError))
      (hwritten : Runs handle (writeBackends order p 0 (byVethName p.backends) newBackends)
        world written) (hwrote : written.value.2.2=none)
      (hcleared : Runs handle (clearStale order newBackends.length
        (written.value.1.backends.drop newBackends.length)) written.state cleared)
      (hpool : o.value.1=written.value.1) (herr : o.value.2≠none)
      (hstate : o.state=cleared.state) (hevents : o.events=written.events++cleared.events)
      (hstop : cleared.value≠none)
  /-- Stopped in the third loop. -/
  | detachFailed (written : GoOutcome (Pool×VethMap×Option GoError))
      (cleared : GoOutcome (Option GoError)) (detached : GoOutcome (Pool×Option GoError))
      (hwritten : Runs handle (writeBackends order p 0 (byVethName p.backends) newBackends)
        world written) (hwrote : written.value.2.2=none)
      (hcleared : Runs handle (clearStale order newBackends.length
        (written.value.1.backends.drop newBackends.length)) written.state cleared)
      (hclear : cleared.value=none)
      (hdetached : Runs handle (detachStale written.value.1 (iter.1 written.value.2.1.entries))
        cleared.state detached)
      (hpool : o.value.1=detached.value.1) (herr : o.value.2≠none)
      (hstate : o.state=detached.state)
      (hevents : o.events=written.events++cleared.events++detached.events)
      (hstop : detached.value.2≠none)
  /-- All loops completed and the configuration was attempted. -/
  | configured (written : GoOutcome (Pool×VethMap×Option GoError))
      (cleared : GoOutcome (Option GoError)) (detached : GoOutcome (Pool×Option GoError))
      (fault : Fault)
      (hwritten : Runs handle (writeBackends order p 0 (byVethName p.backends) newBackends)
        world written) (hwrote : written.value.2.2=none)
      (hcleared : Runs handle (clearStale order newBackends.length
        (written.value.1.backends.drop newBackends.length)) written.state cleared)
      (hclear : cleared.value=none)
      (hdetached : Runs handle (detachStale written.value.1 (iter.1 written.value.2.1.entries))
        cleared.state detached) (hdetach : detached.value.2=none)
      (hresult : (o.value.2≠none ∧ o.value.1=detached.value.1 ∧
          (step (.putConfig 0 (poolConfig order detached.value.1 newBackends)) fault
            detached.state).reply≠none) ∨
        (o.value.2=none ∧ o.value.1={detached.value.1 with backends := newBackends} ∧
          (step (.putConfig 0 (poolConfig order detached.value.1 newBackends)) fault
            detached.state).reply=none))
      (hstate : o.state=(step (.putConfig 0 (poolConfig order detached.value.1 newBackends)) fault
        detached.state).after)
      (hevents : o.events=written.events++cleared.events++detached.events++
        [step (.putConfig 0 (poolConfig order detached.value.1 newBackends)) fault detached.state])

/-- Every execution of `sync` goes through its phases. -/
theorem runs_sync {newBackends : List Backend} {iter : IterOrder}
    {o : GoOutcome (Pool×Option GoError)}
    (hr : Runs handle (sync order p newBackends iter) world o) :
    Progress order p newBackends iter world o := by
  obtain ⟨written,second,hwritten,hsecond,rfl⟩ := runs_bind.mp hr
  cases hwrote : written.value.2.2 with
  | some err =>
    simp only [hwrote] at hsecond
    obtain rfl := runs_done.mp hsecond
    exact .writeFailed written hwritten rfl (by simp [Outcome.prepend]) rfl
      (by simp [Outcome.prepend]) (by simp [hwrote])
  | none =>
    simp only [hwrote] at hsecond
    obtain ⟨cleared,third,hcleared,hthird,rfl⟩ := runs_bind.mp hsecond
    cases hclear : cleared.value with
    | some err =>
      simp only [hclear] at hthird
      obtain rfl := runs_done.mp hthird
      exact .clearFailed written cleared hwritten hwrote hcleared rfl
        (by simp [Outcome.prepend]) rfl (by simp [Outcome.prepend]) (by simp [hclear])
    | none =>
      simp only [hclear] at hthird
      obtain ⟨detached,fourth,hdetached,hfourth,rfl⟩ := runs_bind.mp hthird
      cases hdetach : detached.value.2 with
      | some err =>
        simp only [hdetach] at hfourth
        obtain rfl := runs_done.mp hfourth
        exact .detachFailed written cleared detached hwritten hwrote hcleared hclear hdetached rfl
          (by simp [Outcome.prepend]) rfl (by simp [Outcome.prepend]) (by simp [hdetach])
      | none =>
        simp only [hdetach] at hfourth
        obtain ⟨config,fifth,hconfig,hfifth,rfl⟩ := runs_bind.mp hfourth
        obtain ⟨fault,rfl⟩ := runs_updateConfig hconfig
        refine .configured written cleared detached fault hwritten hwrote hcleared hclear
          hdetached hdetach ?_ ?_ ?_ <;>
          cases hc : (step (.putConfig 0 (poolConfig order detached.value.1 newBackends)) fault
            detached.state).reply <;>
          simp only [poolConfig] at hc ⊢ <;>
          simp only [hc,Option.map_none,Option.map_some] at hfifth <;>
          obtain rfl := runs_done.mp hfifth <;>
          simp [Outcome.prepend]

/-- A successful `sync` completed all its loops and wrote the configuration. -/
theorem runs_sync_succeeded {newBackends : List Backend} {iter : IterOrder}
    {o : GoOutcome (Pool×Option GoError)}
    (hr : Runs handle (sync order p newBackends iter) world o) (hok : o.value.2=none) :
    ∃ (written : GoOutcome (Pool×VethMap×Option GoError)) (cleared : GoOutcome (Option GoError))
      (detached : GoOutcome (Pool×Option GoError)) (fault : Fault),
      Runs handle (writeBackends order p 0 (byVethName p.backends) newBackends) world written ∧
      written.value.2.2=none ∧
      Runs handle (clearStale order newBackends.length
        (written.value.1.backends.drop newBackends.length)) written.state cleared ∧
      cleared.value=none ∧
      Runs handle (detachStale written.value.1 (iter.1 written.value.2.1.entries))
        cleared.state detached ∧
      o.state=(step (.putConfig 0 (poolConfig order detached.value.1 newBackends)) fault
        detached.state).after ∧
      o.events=written.events++cleared.events++detached.events++
        [step (.putConfig 0 (poolConfig order detached.value.1 newBackends)) fault
          detached.state] := by
  cases runs_sync hr with
  | writeFailed _ _ _ herr => exact absurd hok herr
  | clearFailed _ _ _ _ _ _ herr => exact absurd hok herr
  | detachFailed _ _ _ _ _ _ _ _ _ herr => exact absurd hok herr
  | configured written cleared detached fault hw hwrote hc hclear hd _ _ hstate hevents =>
    exact ⟨written,cleared,detached,fault,hw,hwrote,hc,hclear,hd,hstate,hevents⟩

end ContainerLb.SyncPhases

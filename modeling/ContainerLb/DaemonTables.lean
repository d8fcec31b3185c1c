import ContainerLb.DaemonRuns

/-!
# The printed tables

A table is put together in several steps: a snapshot of the list, one read of
the counters for each row, and the output. Lists may be replaced and frames
counted in between. Every table nevertheless shows the list that was synced
at the moment of its own snapshot, in its order, and every row shows the
frames rewritten at its index up to the moment of its own read.
-/

namespace ContainerLb.DaemonTables

open CallProgram BoundedMaps HostBytes NetAddresses BpfManager PoolSync PoolRuns DockerDiscovery
open PacketPath Statistics Timeline Lifecycle Daemon DaemonRuns SyncEffects

variable {cpus : ℕ} {lib : Parsers} {order : ByteOrder} {s s' first : Process cpus}
variable {action : Action cpus} {actions taken reads : List (Action cpus)}

/-- The frame rewritten in a step. Which backend is behind the index is not
followed here. -/
def rewrite (order : ByteOrder) (s : Process cpus) : Action cpus → Option Delivery
  | .ingress _ prandom frame =>
    if s.kernel.ingress=none then none
    else (rewriteIndex order s.kernel.world prandom frame).map fun idx => ⟨idx,none,frame.length⟩
  | _ => none

/-- All frames rewritten in an execution. -/
def rewritten (lib : Parsers) (order : ByteOrder) :
    Process cpus → List (Action cpus) → List Delivery
  | _,[] => []
  | s,action::rest => (rewrite order s action).toList++
    ((step lib order s action).map fun s => rewritten lib order s rest).getD []

/-- One more step. -/
theorem rewritten_concat (h : steps lib order first actions=some s) (action : Action cpus) :
    rewritten lib order first (actions++[action])=
      rewritten lib order first actions++(rewrite order s action).toList := by
  induction actions generalizing first with
  | nil =>
    cases h
    cases hstep : step lib order s action <;> simp [rewritten,hstep]
  | cons earlier rest ih =>
    obtain ⟨next,hnext,hrest⟩ := Option.bind_eq_some_iff.mp h
    simp [rewritten,hnext,ih hrest]

/-- The counters account for all rewritten frames. -/
theorem steps_accounts (hfirst : Launched first) (h : steps lib order first actions=some s) :
    Accounts s.counters (rewritten lib order first actions) := by
  refine steps_induction (fun actions s => Accounts s.counters (rewritten lib order first actions))
    ?_ (fun actions s action s' hsteps hs hmove => ?_) h
  · rw [hfirst.counters]
    exact newCounters_accounts cpus
  · rw [rewritten_concat hsteps]
    cases hmove with
    | @ingress cpu prandom frame =>
      simp only [ingressVerdict,rewrite]
      cases hlink : s.kernel.ingress with
      | none => simpa using hs
      | some link =>
        have hspec := @xdpLbIngress_rewriteIndex order cpus s.kernel.world s.counters cpu prandom
          frame
        cases hidx : rewriteIndex order s.kernel.world prandom frame with
        | none =>
          rw [hspec.2 hidx]
          simpa using hs
        | some idx =>
          obtain ⟨_,_,_,_,_,hrun,_⟩ := hspec.1 idx hidx
          rw [hrun]
          exact hs.count cpu ⟨idx,none,frame.length⟩
    | _ => simpa [rewrite] using hs

/-- The step puts out a table. -/
def isPrint : Action cpus → Bool
  | .print => true
  | _ => false

/-- The step reads the counters of a row. -/
def isReadRow : Action cpus → Bool
  | .readRow => true
  | _ => false

/-- The step begins or ends a table. -/
def isBoundary : Action cpus → Bool
  | .snapshot => true
  | .print => true
  | _ => false

/-- A row names the element at its index and shows the frames there up to its
own read, in the steps since the snapshot of the list. -/
def RowRead (lib : Parsers) (order : ByteOrder) (first : Process cpus)
    (taken reads : List (Action cpus)) (backends : List Backend) (i : ℕ) (row : Row) : Prop :=
  row.idx=i ∧ backends[i]?=some row.backend ∧
    ∃ part,part++[.readRow]<+:reads ∧ part.countP isReadRow=i ∧ (row.packets,row.bytes)=
      totals (atIndex (rewritten lib order first (taken++.snapshot::part)) (UInt32.ofNat i))

/-- More steps may follow. -/
theorem RowRead.concat {backends : List Backend} {i : ℕ} {row : Row}
    (h : RowRead lib order first taken reads backends i row) (action : Action cpus) :
    RowRead lib order first taken (reads++[action]) backends i row := by
  obtain ⟨hidx,hb,part,hpart,hrest⟩ := h
  exact ⟨hidx,hb,part,hpart.trans (List.prefix_append ..),hrest⟩

/-- Rows of a table whose list was taken after some steps, with the steps since
its snapshot. -/
structure ReadSince (lib : Parsers) (order : ByteOrder) (first : Process cpus)
    (taken reads : List (Action cpus)) (backends : List Backend) (rows : List Row) : Prop where
  /-- No other table is begun or ended. -/
  inside : ∀ action∈reads,isBoundary action=false
  /-- The list is that of the reconciliations until the snapshot. -/
  synced : backends=
    (run order (origin first) (schedule lib first.settings.watcher taken)).pool.backends
  /-- Every read has made one row. -/
  count : reads.countP isReadRow=rows.length
  /-- The rows. -/
  read : ∀ i row,rows[i]?=some row → RowRead lib order first taken reads backends i row

/-- Steps of other threads may follow. -/
theorem ReadSince.concat {backends : List Backend} {rows : List Row}
    (h : ReadSince lib order first taken reads backends rows) (hinside : isBoundary action=false)
    (hother : isReadRow action=false) :
    ReadSince lib order first taken (reads++[action]) backends rows := by
  refine ⟨?_,h.synced,?_,fun i row hrow => (h.read i row hrow).concat action⟩
  · exact List.forall_mem_append.mpr ⟨h.inside,List.forall_mem_singleton.mpr hinside⟩
  · simp [h.count,hother]

/-- A row that is read now. -/
theorem ReadSince.readRow {backends : List Backend} {rows : List Row} {b : Backend}
    (h : ReadSince lib order first taken reads backends rows) (hb : backends[rows.length]?=some b)
    (hopened : s.kernel.opened=lbObjects.toFinset)
    (haccounts : Accounts s.counters (rewritten lib order first (taken++.snapshot::reads))) :
    ReadSince lib order first taken (reads++[.readRow]) backends
      (rows++[rowOf s.kernel s.counters rows.length b]) := by
  have hlt := (List.getElem?_eq_some_iff.mp hb).1
  have hbounded : backends.length≤ maxBackends := by
    rw [h.synced]
    exact (run_settled order _ _ _ _).bounded
  have hindex : (UInt32.ofNat rows.length).toNat< maxBackends :=
    toNat_ofNat_lt (hlt.trans_le hbounded) le_rfl
  have hrow : rowOf s.kernel s.counters rows.length b=⟨rows.length,b,
      (totals (atIndex (rewritten lib order first (taken++.snapshot::reads))
        (UInt32.ofNat rows.length))).1,
      (totals (atIndex (rewritten lib order first (taken++.snapshot::reads))
        (UInt32.ofNat rows.length))).2⟩ := by
    have hopen : Obj.countersMap∈s.kernel.opened := by rw [hopened]; decide
    simp only [rowOf,readStatsFrom,if_pos hopen,haccounts _ hindex]
  refine ⟨?_,h.synced,?_,fun i row hi => ?_⟩
  · exact List.forall_mem_append.mpr ⟨h.inside,List.forall_mem_singleton.mpr rfl⟩
  · simp [h.count,isReadRow]
  · rcases Nat.lt_or_ge i rows.length with hold|hnew
    · rw [List.getElem?_append_left hold] at hi
      exact (h.read i row hi).concat .readRow
    · rw [List.getElem?_append_right hnew,List.getElem?_singleton] at hi
      obtain ⟨hzero,hsome⟩ := Option.ite_none_right_eq_some.mp hi
      obtain rfl : i=rows.length := by omega
      obtain rfl := Option.some.inj hsome
      rw [hrow]
      exact ⟨rfl,hb,reads,List.prefix_rfl,h.count,rfl⟩

/-- What is known of the tables until `Close` is entered. -/
structure Tabled (lib : Parsers) (order : ByteOrder) (first : Process cpus)
    (actions : List (Action cpus)) (s : Process cpus) : Prop where
  /-- Every output has put out one table. -/
  count : actions.countP isPrint=s.printed.length
  /-- The table in work is the next one. -/
  reading : ∀ backends rows,s.collector=.reading backends rows →
    ∃ taken reads,actions=taken++.snapshot::reads ∧ taken.countP isPrint=s.printed.length ∧
      ReadSince lib order first taken reads backends rows
  /-- The printed tables. -/
  printed : ∀ k table,s.printed[k]?=some table → ∃ taken reads rest backends,
    actions=taken++.snapshot::(reads++.print::rest) ∧ taken.countP isPrint=k ∧
      ReadSince lib order first taken reads backends table ∧ table.length=backends.length

/-- The printed tables stay as they are. -/
theorem Tabled.printed_concat (h : Tabled lib order first actions s) (action : Action cpus) :
    ∀ k table,s.printed[k]?=some table → ∃ taken reads rest backends,
      actions++[action]=taken++.snapshot::(reads++.print::rest) ∧ taken.countP isPrint=k ∧
        ReadSince lib order first taken reads backends table ∧ table.length=backends.length := by
  intro k table htable
  obtain ⟨taken,reads,rest,backends,rfl,hrest⟩ := h.printed k table htable
  exact ⟨taken,reads,rest++[action],backends,by simp,hrest⟩

/-- Steps of other threads keep it. -/
theorem Tabled.of_quiet (h : Tabled lib order first actions s) (hinside : isBoundary action=false)
    (hother : isReadRow action=false)
    (hcollector : ∀ backends rows,s'.collector=.reading backends rows →
      s.collector=.reading backends rows) (hprinted : s'.printed=s.printed) :
    Tabled lib order first (actions++[action]) s' := by
  have hprint : isPrint action=false := by
    cases action with
    | print => contradiction
    | _ => rfl
  refine ⟨?_,fun backends rows hreading => ?_,hprinted ▸ h.printed_concat action⟩
  · simp [h.count,hprint,hprinted]
  · obtain ⟨taken,reads,rfl,hcount,hread⟩ := h.reading backends rows
      (hcollector backends rows hreading)
    rw [hprinted]
    exact ⟨taken,reads++[action],by simp,hcount,hread.concat hinside hother⟩

/-- Every step keeps it until `Close` is entered. -/
theorem Tabled.moves (hfirst : Launched first) (hsteps : steps lib order first actions=some s)
    (h : Tabled lib order first actions s) (hopen : s.main.isShut=false)
    (hmove : Moves lib order s action s') : Tabled lib order first (actions++[action]) s' := by
  have hworking := steps_working hfirst hsteps hopen
  cases hmove with
  | snapshot hfree hidle =>
    refine ⟨by simp [h.count,isPrint],fun backends rows hreading => ?_,h.printed_concat _⟩
    cases hreading
    have hrun := hworking.reconciled.run_eq hfree
    refine ⟨actions,[],rfl,h.count,nofun,?_,rfl,nofun⟩
    exact (congrArg (fun state : State => state.pool.backends) hrun).symm
  | readRow hreading hb =>
    refine ⟨by simp [h.count,isPrint],fun backends rows hnow => ?_,h.printed_concat _⟩
    cases hnow
    obtain ⟨taken,reads,rfl,hcount,hread⟩ := h.reading _ _ hreading
    exact ⟨taken,reads++[.readRow],by simp,hcount,
      hread.readRow hb hworking.opened (steps_accounts hfirst hsteps)⟩
  | @print backends rows hreading hfull =>
    refine ⟨by simp [h.count,isPrint],nofun,fun k table htable => ?_⟩
    rcases Nat.lt_or_ge k s.printed.length with hold|hnew
    · rw [List.getElem?_append_left hold] at htable
      exact h.printed_concat _ k table htable
    · rw [List.getElem?_append_right hnew,List.getElem?_singleton] at htable
      obtain ⟨hzero,hsome⟩ := Option.ite_none_right_eq_some.mp htable
      obtain rfl : k=s.printed.length := by omega
      obtain rfl := Option.some.inj hsome
      obtain ⟨taken,reads,rfl,hcount,hread⟩ := h.reading _ _ hreading
      exact ⟨taken,reads,[],backends,by simp,hcount,hread,hfull⟩
  | stopCollecting => exact h.of_quiet rfl rfl nofun rfl
  | _ => exact h.of_quiet rfl rfl (fun _ _ hs => hs) rfl

/-- The whole execution until `Close` is entered. -/
theorem steps_tabled (hfirst : Launched first) (h : steps lib order first actions=some s)
    (hopen : s.main.isShut=false) : Tabled lib order first actions s := by
  refine steps_induction (fun actions s => s.main.isShut=false → Tabled lib order first actions s)
    (fun _ => ⟨?_,?_,?_⟩) (fun actions s action s' hsteps hs hmove hopen => ?_) h hopen
  · rw [hfirst.threads.2.2.2]
    rfl
  · intro backends rows hreading
    rw [hfirst.threads.2.2.1] at hreading
    contradiction
  · rw [hfirst.threads.2.2.2]
    nofun
  · have hbefore := isShut_of_moves hmove hopen
    exact (hs hbefore).moves hfirst hsteps hbefore hmove

/-- The first reconciliation on the bridge, one frame and one table. -/
def firstTable : List (Action 1) :=
  firstSync++[.returned,
    .ingress (Fin.last 0) 7 (DnatRefinement.echo 8 0 0 ⟨192,168,0,9⟩ ⟨172,17,0,1⟩),.snapshot,.readRow,.print]

end ContainerLb.DaemonTables

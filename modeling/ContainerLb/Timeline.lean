import ContainerLb.Statistics
import ContainerLb.ReturnPath
import ContainerLb.DnatRefinement

/-!
# Frames between the calls of reconciliations

The reconciling process advances by one call at a time, and frames are
handled in between, each one on some processor. Any list of moments is an
interleaving, also one that ends inside a reconciliation. Frames change
counters only, so the calls of the run do not depend on them.

Each rewritten frame is one delivery: the picked index, the backend that the
slot was last written for, and the length. The counters of an index are the
deliveries at that index. They say nothing about the backend once the index
has been given to another one.
-/

namespace ContainerLb.Timeline

open CallProgram BoundedMaps HostBytes NetAddresses BpfManager PoolSync ManagerSteps
open SyncEffects SyncContract PoolRuns PacketPath PacketEffects ReturnPath Statistics
open DnatRefinement

variable {order : ByteOrder} {cpus : ℕ}

/-- Index at which `xdp_lb_ingress` rewrites a frame, if it does. -/
def rewriteIndex (order : ByteOrder) (world : World) (prandom : UInt32) (frame : List UInt8) :
    Option UInt32 := do
  let cfg ← world.configMap.lookup 0
  let backend ← world.backendMap.lookup (prandom%cfg.backendCount)
  if IcmpFrame order frame ∧ cfg.backendCount≠0 ∧
      (cfg.vip=0 ∨ read32 order frame 30=some cfg.vip) ∧ backend.ipv4≠0 then
    some (prandom%cfg.backendCount)
  else none

/-- It is the picked index of the checks of the program. -/
theorem rewriteIndex_eq_some {world : World} {prandom idx : UInt32} {frame : List UInt8} :
    rewriteIndex order world prandom frame=some idx ↔
      ∃ cfg backend,Selects order world prandom frame cfg backend ∧
        idx=prandom%cfg.backendCount := by
  simp only [rewriteIndex,Option.bind_eq_bind,Option.bind_eq_some_iff,
    Option.ite_none_right_eq_some,Option.some.injEq]
  constructor
  · rintro ⟨cfg,hcfg,backend,hslot,⟨hicmp,hcount,hvip,haddress⟩,hidx⟩
    exact ⟨cfg,backend,⟨hicmp,hcfg,hcount,hvip,hslot,haddress⟩,hidx.symm⟩
  · rintro ⟨cfg,backend,hs,hidx⟩
    exact ⟨cfg,hs.config,backend,hs.slot,⟨hs.icmp,hs.count,hs.vip,hs.address⟩,hidx.symm⟩

/-- What the program does to frame and counters. -/
theorem xdpLbIngress_rewriteIndex (world : World) (counters : Counters cpus) (cpu : Fin cpus)
    (prandom : UInt32) (frame : List UInt8) :
    (∀ idx,rewriteIndex order world prandom frame=some idx →
      ∃ cfg backend rewritten,world.configMap.lookup 0=some cfg ∧
        world.backendMap.lookup idx=some backend ∧
        xdpLbIngress order world counters cpu prandom frame=
          some ⟨.pass,rewritten,countFrame counters cpu idx frame.length⟩ ∧
        Dnatted cfg.srcMac backend.mac (order.store32 backend.ipv4) frame rewritten) ∧
    (rewriteIndex order world prandom frame=none →
      xdpLbIngress order world counters cpu prandom frame=some ⟨.pass,frame,counters⟩) := by
  constructor
  · intro idx h
    obtain ⟨cfg,backend,hs,rfl⟩ := rewriteIndex_eq_some.mp h
    obtain ⟨rewritten,hrun,hd⟩ := xdpLbIngress_selected counters cpu hs
    exact ⟨cfg,backend,rewritten,hs.config,hs.slot,hrun,hd⟩
  · intro h
    refine xdpLbIngress_otherwise _ _ fun cfg backend hs => ?_
    have hsome := rewriteIndex_eq_some.mpr ⟨cfg,backend,hs,rfl⟩
    rw [h] at hsome
    contradiction

/-- Steps of the reconciling process. -/
inductive Act where
  /-- A call for a list. -/
  | call (newBackends : List Backend) (e : Step)
  /-- `Sync` returns with this pool. -/
  | returned (pool : Pool)

/-- All steps of a run of reconciliations. -/
def acts (order : ByteOrder) : State → List Attempt → List Act
  | _,[] => []
  | s,a::rest =>
    (attempt order s a).events.map (Act.call a.newBackends)++
      Act.returned (attempt order s a).value.1::acts order (next order s a) rest

/-- One moment of the system. -/
inductive Moment (cpus : ℕ) where
  /-- The reconciling process takes its next step. -/
  | advance
  /-- A frame arrives at the bridge. -/
  | ingress (cpu : Fin cpus) (prandom : UInt32) (frame : List UInt8)
  /-- A frame arrives from a veth. -/
  | veth (frame : List UInt8)

/-- The system between two moments. -/
structure Clock (cpus : ℕ) where
  /-- Maps and links. -/
  world : World
  /-- The pool when `Sync` last returned. -/
  pool : Pool
  /-- Steps that the reconciling process has still to take. -/
  pending : List Act
  /-- Counters of all processors. -/
  counters : Counters cpus
  /-- The backend last written into each slot. -/
  owners : Owners

/-- All counters zero. -/
def newCounters (cpus : ℕ) : Counters cpus :=
  .replicate maxBackends (Vector.replicate cpus ⟨0,0⟩)

/-- Before a run of reconciliations over freshly loaded maps. -/
def start (order : ByteOrder) (cpus : ℕ) (s : State) (attempts : List Attempt) : Clock cpus :=
  ⟨s.world,s.pool,acts order s attempts,newCounters cpus,fun _ => none⟩

/-- The system after one more step of the reconciling process. -/
def advance (clock : Clock cpus) : Clock cpus :=
  match clock.pending with
  | [] => clock
  | .call newBackends e::rest =>
    {clock with world := e.after,pending := rest,owners := own newBackends e clock.owners}
  | .returned pool::rest => {clock with pool := pool,pending := rest}

/-- One moment. The program on the veths has no access to the counters. -/
def tick (order : ByteOrder) (clock : Clock cpus) : Moment cpus → Clock cpus
  | .advance => advance clock
  | .ingress cpu prandom frame =>
    match xdpLbIngress order clock.world clock.counters cpu prandom frame with
    | none => clock
    | some v => {clock with counters := v.counters}
  | .veth _ => clock

/-- A list of moments. -/
def play (order : ByteOrder) (clock : Clock cpus) (moments : List (Moment cpus)) : Clock cpus :=
  moments.foldl (tick order) clock

/-- A rewritten frame. -/
structure Delivery where
  /-- Picked index. -/
  index : UInt32
  /-- Backend that the slot was last written for. -/
  owner : Option Backend
  /-- Length of the frame. -/
  length : ℕ
  deriving DecidableEq

/-- The delivery of a moment. -/
def delivery (order : ByteOrder) (clock : Clock cpus) : Moment cpus → Option Delivery
  | .ingress _ prandom frame =>
    (rewriteIndex order clock.world prandom frame).map fun idx =>
      ⟨idx,clock.owners idx,frame.length⟩
  | _ => none

/-- All deliveries of a list of moments. -/
def deliveries (order : ByteOrder) : Clock cpus → List (Moment cpus) → List Delivery
  | _,[] => []
  | clock,moment::rest =>
    (delivery order clock moment).toList++deliveries order (tick order clock moment) rest

/-- Packets and bytes of deliveries, as 64-bit numbers. -/
def totals (log : List Delivery) : UInt64×UInt64 :=
  (UInt64.ofNat log.length,UInt64.ofNat (log.map Delivery.length).sum)

/-- The deliveries at an index. -/
def atIndex (log : List Delivery) (index : UInt32) : List Delivery :=
  log.filter fun d => d.index=index

/-- What is read at every index are the totals of the deliveries there. -/
def Accounts (counters : Counters cpus) (log : List Delivery) : Prop :=
  ∀ index : UInt32,index.toNat< maxBackends →
    readStats counters index=.ok (totals (atIndex log index))

/-- Fresh counters account for no delivery. -/
theorem newCounters_accounts (cpus : ℕ) : Accounts (newCounters cpus) [] := by
  intro index h
  have hzero : ∀ count : ℕ,(List.replicate count (⟨0,0⟩ : StatsCounter)).foldl addCounter (0,0)=
      (0,0) := by
    intro count
    induction count with
    | zero => rfl
    | succ count ih => exact ih
  rw [readStats,newCounters,ArrayMap.lookup_replicate h]
  exact congrArg Except.ok ((congrArg _ Vector.toList_replicate).trans (hzero cpus))

/-- A counted frame is accounted for. -/
theorem Accounts.count {counters : Counters cpus} {log : List Delivery}
    (h : Accounts counters log) (cpu : Fin cpus) (d : Delivery) :
    Accounts (countFrame counters cpu d.index d.length) (log++[d]) := by
  intro index hlt
  rw [readStats_countFrame,h index hlt]
  by_cases he : index=d.index
  · subst he
    simp [atIndex,totals,Except.map,UInt64.ofNat_add]
  · have hne : d.index≠index := fun heq => he heq.symm
    simp [he,hne,atIndex]

/-- One moment keeps the account. -/
theorem tick_accounts (order : ByteOrder) {clock : Clock cpus} {log : List Delivery}
    (h : Accounts clock.counters log) (moment : Moment cpus) :
    Accounts (tick order clock moment).counters
      (log++(delivery order clock moment).toList) := by
  cases moment with
  | advance =>
    have hkept : (advance clock).counters=clock.counters := by
      unfold advance
      split <;> rfl
    simpa [tick,delivery,hkept] using h
  | veth frame => simpa [tick,delivery] using h
  | ingress cpu prandom frame =>
    have hspec := @xdpLbIngress_rewriteIndex order cpus clock.world clock.counters cpu prandom frame
    simp only [tick,delivery]
    cases hidx : rewriteIndex order clock.world prandom frame with
    | none =>
      rw [hspec.2 hidx]
      simpa using h
    | some idx =>
      obtain ⟨cfg,backend,rewritten,_,_,hrun,_⟩ := hspec.1 idx hidx
      rw [hrun]
      exact h.count cpu ⟨idx,clock.owners idx,frame.length⟩

/-- All moments keep the account. -/
theorem play_accounts (order : ByteOrder) {clock : Clock cpus} {log : List Delivery}
    (h : Accounts clock.counters log) (moments : List (Moment cpus)) :
    Accounts (play order clock moments).counters (log++deliveries order clock moments) := by
  induction moments generalizing clock log with
  | nil => simpa [play,deliveries] using h
  | cons moment rest ih =>
    have hrest := ih (tick_accounts order h moment)
    rw [List.append_assoc] at hrest
    exact hrest

/-- Conservation of the counters. In every interleaving of frames with the
calls of any reconciliations, whatever fails, what is read at an index are
number and lengths of the frames rewritten at that index, modulo the word
size. One frame is counted once, at the index of its rewrite, or it is passed
unchanged with all counters. Frames from veths change no counter. -/
theorem counters_conserved (order : ByteOrder) (vip : IP) (vport : UInt16)
    (srcMAC : HardwareAddr) (attempts : List Attempt) (cpus : ℕ) (moments : List (Moment cpus)) :
    (∀ i< maxBackends,
      readStats (play order (start order cpus (initial vip vport srcMAC) attempts) moments).counters
          (UInt32.ofNat i)=
        .ok (totals (atIndex
          (deliveries order (start order cpus (initial vip vport srcMAC) attempts) moments)
          (UInt32.ofNat i)))) ∧
    (∀ world (counters : Counters cpus) cpu prandom frame,
      (∀ idx,rewriteIndex order world prandom frame=some idx →
        idx.toNat< maxBackends ∧ ∃ backend v,world.backendMap.lookup idx=some backend ∧
          xdpLbIngress order world counters cpu prandom frame=some v ∧
          slice v.frame 30 4=(order.store32 backend.ipv4).toList ∧
          ∀ index,readStats v.counters index=if index=idx then
            (readStats counters index).map fun sums => (sums.1+1,sums.2+UInt64.ofNat frame.length)
            else readStats counters index) ∧
      (rewriteIndex order world prandom frame=none →
        xdpLbIngress order world counters cpu prandom frame=some ⟨.pass,frame,counters⟩)) ∧
    ∀ (clock : Clock cpus) frame,
      (tick order clock (.veth frame)).counters=clock.counters := by
  refine ⟨fun i hi => ?_,fun world counters cpu prandom frame => ⟨fun idx hidx => ?_,?_⟩,
    fun clock frame => rfl⟩
  · have hlt : (UInt32.ofNat i).toNat< maxBackends := toNat_ofNat_lt hi le_rfl
    have hstart : Accounts (start order cpus (initial vip vport srcMAC) attempts).counters [] :=
      newCounters_accounts cpus
    exact play_accounts order hstart moments _ hlt
  · have hspec := @xdpLbIngress_rewriteIndex order cpus world counters cpu prandom frame
    obtain ⟨cfg,backend,rewritten,_,hslot,hrun,hd⟩ := hspec.1 idx hidx
    have hlt := (ArrayMap.lookup_isSome world.backendMap idx).mp (by rw [hslot]; rfl)
    exact ⟨hlt,backend,_,hslot,hrun,hd.daddr,fun index => readStats_countFrame idx _ index⟩
  · exact (xdpLbIngress_rewriteIndex world counters cpu prandom frame).2

/-- A backend stands at a position of one of the lists. -/
def StandsAt (lists : List (List Backend)) (i : ℕ) (b : Backend) : Prop :=
  ∃ list∈lists,list[i]?=some b

/-- Every container keeps its position and no other one ever has it. -/
def Steady (lists : List (List Backend)) : Prop :=
  ∀ i j b c,StandsAt lists i b → StandsAt lists j c → (b.id=c.id ↔ i=j)

instance (lists : List (List Backend)) : Decidable (Steady lists) :=
  decidable_of_iff (∀ first∈lists,∀ second∈lists,∀ i<first.length,∀ j<second.length,
      ∀ b∈first[i]?,∀ c∈second[j]?,(b.id=c.id ↔ i=j)) (by
    constructor
    · rintro h i j b c ⟨first,hfirst,hb⟩ ⟨second,hsecond,hc⟩
      exact h first hfirst second hsecond i (List.getElem?_eq_some_iff.mp hb).1 j
        (List.getElem?_eq_some_iff.mp hc).1 b hb c hc
    · intro h first hfirst second hsecond i _ j _ b hb c hc
      exact h i j b c ⟨first,hfirst,hb⟩ ⟨second,hsecond,hc⟩)

/-- Every slot in use holds the encoding of its owner, which stands at the
position of the slot in one of the lists. -/
def Owned (order : ByteOrder) (lists : List (List Backend)) (world : World) (owners : Owners) :
    Prop :=
  ∀ index info,world.backendMap.lookup index=some info → info≠emptyBackend →
    ∃ b v4,owners index=some b ∧ StandsAt lists index.toNat b ∧ b.ip.to4=some v4 ∧
      info=backendInfo order v4 b.port b.mac

variable {lists : List (List Backend)} {world : World} {owners : Owners} {p : Pool}
variable {new : List Backend}

/-- A slot write of a reconciliation zeroes the slot or encodes the element
at its position. -/
theorem SyncCall.written {index : UInt32} {info : BackendInfo}
    (h : SyncCall order p new (.putBackend index info)) :
    info=emptyBackend ∨ ∃ b v4,new[index.toNat]?=some b ∧ b.ip.to4=some v4 ∧
      info=backendInfo order v4 b.port b.mac := by
  cases h with
  | loop h =>
    cases h with
    | slot h =>
      cases h with
      | clearSlot hj hold hnew => exact Or.inl rfl
      | @writeSlot b v4 hj hnew hip =>
        right
        rw [toNat_ofNat_of_le hj]
        exact ⟨b,v4,hnew,hip,rfl⟩

/-- Calls on other parts of the world keep the slots and their owners. -/
theorem Owned.of_part {op : Call} (h : Owned order lists world owners) (fault : Fault)
    (hpart : part op≠.slots) :
    Owned order lists (step op fault world).after (own new (step op fault world) owners) := by
  have hslots := (step_changes op fault world).slots hpart
  have howners : own new (step op fault world) owners=owners := by
    cases op with
    | putBackend index info => contradiction
    | _ => rfl
  rw [howners]
  intro index info hlookup
  rw [hslots] at hlookup
  exact h index info hlookup

/-- Every call of a reconciliation keeps the slots owned. -/
theorem SyncCall.owned {op : Call} (hop : SyncCall order p new op) (hnew : new∈lists)
    (fault : Fault) (h : Owned order lists world owners) :
    Owned order lists (step op fault world).after (own new (step op fault world) owners) := by
  cases op with
  | putBackend index info =>
    rcases putBackend_cases index info fault world with hrefused|⟨hreply,written,hput,hafter⟩
    · rw [hrefused.2]
      simpa [own,hrefused.1] using h
    · intro other value hlookup hne
      rw [hafter,ArrayMap.lookup_put hput] at hlookup
      by_cases ho : other=index
      · subst ho
        rw [if_pos rfl] at hlookup
        cases hlookup
        rcases SyncCall.written hop with hempty|⟨b,v4,hb,hv,hinfo⟩
        · contradiction
        · refine ⟨b,v4,?_,⟨new,hnew,hb⟩,hv,hinfo⟩
          simp [own,hreply,hne,hb]
      · rw [if_neg ho] at hlookup
        rw [own_putBackend_of_ne fault ho]
        exact h other value hlookup hne
  | _ => exact h.of_part fault (by simp [part])

/-- A pool remembers elements of the lists at their positions. -/
def Fits (lists : List (List Backend)) (pool : Pool) : Prop :=
  ∀ i b,pool.backends[i]?=some b → i< maxBackends ∧ StandsAt lists i b

/-- The remaining steps of a run: every call is answered in the world before
it and belongs to the reconciliation of one of the lists. -/
def Scheduled (order : ByteOrder) (lists : List (List Backend)) : World → List Act → Prop
  | _,[] => True
  | world,.call new e::rest =>
    e=step e.op e.label world ∧ new∈lists ∧ (∃ p,SyncCall order p new e.op) ∧
      Scheduled order lists e.after rest
  | world,.returned pool::rest => Fits lists pool ∧ Scheduled order lists world rest

/-- Successive calls for one of the lists. -/
theorem scheduled_calls {events : List Step} {rest : List Act}
    (hchained : Chained handle world events) (hcalls : ∀ e∈events,SyncCall order p new e.op)
    (hnew : new∈lists)
    (hrest : Scheduled order lists (events.foldl (fun _ e => e.after) world) rest) :
    Scheduled order lists world (events.map (Act.call new)++rest) := by
  induction events generalizing world with
  | nil => exact hrest
  | cons e events ih =>
    have he := hcalls e List.mem_cons_self
    have hothers : ∀ e'∈events,SyncCall order p new e'.op :=
      fun e' hm => hcalls e' (List.mem_cons_of_mem _ hm)
    exact ⟨hchained.1,hnew,⟨p,he⟩,ih hchained.2 hothers hrest⟩

/-- The pool after an attempt at one of the lists. -/
theorem next_fits (order : ByteOrder) {s : State} {a : Attempt} (hs : Fits lists s.pool)
    (hnew : a.newBackends∈lists) : Fits lists (next order s a).pool := by
  have hc := attempt_contract order s a
  intro i b hb
  change (attempt order s a).value.1.backends[i]?=some b at hb
  by_cases hok : (attempt order s a).value.2=none
  · have hdone := hc.done hok
    rw [hdone.1] at hb
    have hlt := (List.getElem?_eq_some_iff.mp hb).1
    exact ⟨by omega,a.newBackends,hnew,hb⟩
  · rw [(hc.failed hok).1] at hb
    exact hs i b hb

/-- The steps of a run are scheduled. -/
theorem acts_scheduled {s : State} {attempts : List Attempt} (hs : Fits lists s.pool)
    (hlists : ∀ a∈attempts,a.newBackends∈lists) :
    Scheduled order lists s.world (acts order s attempts) := by
  induction attempts generalizing s with
  | nil => trivial
  | cons a rest ih =>
    have hnew := hlists a List.mem_cons_self
    have hfits := next_fits order hs hnew
    have hchained := (attempt_runs order s a).chained
    have hrest := ih hfits fun a' hm => hlists a' (List.mem_cons_of_mem _ hm)
    refine scheduled_calls hchained.1 (attempt_contract order s a).calls hnew ?_
    rw [hchained.2]
    exact ⟨hfits,hrest⟩

/-- What holds at every moment of a run over the lists. -/
structure Sound (order : ByteOrder) (lists : List (List Backend)) (clock : Clock cpus) : Prop where
  /-- The remaining steps. -/
  scheduled : Scheduled order lists clock.world clock.pending
  /-- The slots and their owners. -/
  owned : Owned order lists clock.world clock.owners
  /-- The pool. -/
  pool : Fits lists clock.pool

/-- A run starts so. -/
theorem start_sound (order : ByteOrder) (vip : IP) (vport : UInt16) (srcMAC : HardwareAddr)
    (attempts : List Attempt) : Sound order (attempts.map Attempt.newBackends)
      (start order cpus (initial vip vport srcMAC) attempts) := by
  have hfits : Fits (attempts.map Attempt.newBackends) (initial vip vport srcMAC).pool := by
    intro i b hb
    contradiction
  refine ⟨acts_scheduled hfits fun a hm => List.mem_map_of_mem hm,?_,hfits⟩
  intro index info hlookup hne
  have hlt := (ArrayMap.lookup_isSome _ index).mp (by rw [hlookup]; rfl)
  have hempty : (initial vip vport srcMAC).world.backendMap.lookup index=some emptyBackend :=
    ArrayMap.lookup_replicate hlt
  exact absurd (Option.some.inj (hlookup.symm.trans hempty)) hne

/-- Every moment keeps it. -/
theorem tick_sound {clock : Clock cpus} (h : Sound order lists clock) (moment : Moment cpus) :
    Sound order lists (tick order clock moment) := by
  cases moment with
  | veth frame => exact h
  | ingress cpu prandom frame =>
    simp only [tick]
    split
    · exact h
    · exact ⟨h.scheduled,h.owned,h.pool⟩
  | advance =>
    have hscheduled := h.scheduled
    simp only [tick,advance]
    cases hpending : clock.pending with
    | nil => exact h
    | cons act rest =>
      rw [hpending] at hscheduled
      cases act with
      | returned pool => exact ⟨hscheduled.2,h.owned,hscheduled.1⟩
      | call new e =>
        obtain ⟨hstep,hnew,⟨p,hcall⟩,hrest⟩ := hscheduled
        have howned := SyncCall.owned hcall hnew e.label h.owned
        rw [←hstep] at howned
        exact ⟨hrest,howned,h.pool⟩

/-- In such a state the owner of a delivery stands at the picked index of one
of the lists, and the rewritten frame carries its addresses. -/
theorem Sound.delivered {clock : Clock cpus} (h : Sound order lists clock) {cpu : Fin cpus}
    {prandom : UInt32} {frame : List UInt8} {d : Delivery}
    (hd : delivery order clock (.ingress cpu prandom frame)=some d) :
    ∃ b v,d.owner=some b ∧ StandsAt lists d.index.toNat b ∧
      xdpLbIngress order clock.world clock.counters cpu prandom frame=some v ∧
      AddressedTo b v.frame := by
  obtain ⟨idx,hidx,rfl⟩ := Option.map_eq_some_iff.mp hd
  obtain ⟨cfg,backend,hs,rfl⟩ := rewriteIndex_eq_some.mp hidx
  have hne : backend≠emptyBackend := by
    intro he
    rw [he] at hs
    exact hs.address rfl
  obtain ⟨b,v4,howner,hstands,hv,rfl⟩ := h.owned _ backend hs.slot hne
  obtain ⟨v,hrun,haddressed,_⟩ := Selects.addressed clock.counters cpu hv hs
  exact ⟨b,v,howner,hstands,hrun,haddressed⟩

/-- The owners of all deliveries of a run. -/
theorem deliveries_owned {clock : Clock cpus} (h : Sound order lists clock)
    (moments : List (Moment cpus)) :
    ∀ d∈deliveries order clock moments,∃ b,d.owner=some b ∧ StandsAt lists d.index.toNat b := by
  induction moments generalizing clock with
  | nil => nofun
  | cons moment rest ih =>
    intro d hm
    rcases List.mem_append.mp hm with hm|hm
    · have hd := Option.mem_toList.mp hm
      cases moment with
      | ingress cpu prandom frame =>
        obtain ⟨b,_,howner,hstands,_⟩ := h.delivered hd
        exact ⟨b,howner,hstands⟩
      | _ => contradiction
    · exact ih (tick_sound h moment) d hm

/-- The state after all moments. -/
theorem play_sound {clock : Clock cpus} (h : Sound order lists clock)
    (moments : List (Moment cpus)) : Sound order lists (play order clock moments) := by
  induction moments generalizing clock with
  | nil => exact h
  | cons moment rest ih => exact ih (tick_sound h moment)

/-- A frame was sent to this container. -/
def sentTo (b : Backend) (d : Delivery) : Bool := d.owner.any fun owner => owner.id=b.id

/-- The rows of the table. -/
theorem render_getElem? {counters : Counters cpus} {i : ℕ} {b : Backend} {sums : UInt64×UInt64}
    (hb : (getBackends p)[i]?=some b) (hread : readStats counters (UInt32.ofNat i)=.ok sums) :
    (render p counters)[i]?=some ⟨i,b,sums.1,sums.2⟩ := by
  simp [render,hb,hread]

/-- Attribution of the counters. In every run over lists in which every
container keeps its position and no other one ever has it, the row of a
backend shows at every moment number and lengths of the frames sent to its
container, modulo the word size, and all frames at its index were sent to
it. -/
theorem statistics_attributed (order : ByteOrder) (vip : IP) (vport : UInt16)
    (srcMAC : HardwareAddr) (attempts : List Attempt)
    (hsteady : Steady (attempts.map Attempt.newBackends)) (cpus : ℕ)
    (moments : List (Moment cpus)) (i : ℕ) (b : Backend)
    (hb : (getBackends (play order (start order cpus (initial vip vport srcMAC) attempts)
      moments).pool)[i]?=some b) :
    (∃ row,
      (render (play order (start order cpus (initial vip vport srcMAC) attempts) moments).pool
        (play order (start order cpus (initial vip vport srcMAC) attempts) moments).counters)[i]?=
          some row ∧ row.backend=b ∧
      (row.packets,row.bytes)=totals ((deliveries order
        (start order cpus (initial vip vport srcMAC) attempts) moments).filter (sentTo b))) ∧
    ∀ d∈deliveries order (start order cpus (initial vip vport srcMAC) attempts) moments,
      d.index=UInt32.ofNat i → sentTo b d=true := by
  have hstart : Accounts (start order cpus (initial vip vport srcMAC) attempts).counters [] :=
    newCounters_accounts cpus
  have hsound := @start_sound cpus order vip vport srcMAC attempts
  have hpool := (play_sound hsound moments).pool i b hb
  have hlt : (UInt32.ofNat i).toNat< maxBackends := toNat_ofNat_lt hpool.1 le_rfl
  have hread := play_accounts order hstart moments _ hlt
  have hsame : ∀ d∈deliveries order (start order cpus (initial vip vport srcMAC) attempts) moments,
      (d.index=UInt32.ofNat i ↔ sentTo b d=true) := by
    intro d hm
    obtain ⟨owner,howner,hstands⟩ := deliveries_owned hsound moments d hm
    have hiff := hsteady _ _ owner b hstands hpool.2
    have hindex : d.index=UInt32.ofNat i ↔ d.index.toNat=i := by
      rw [←UInt32.toNat_inj,toNat_ofNat_of_le hpool.1.le]
    rw [hindex,←hiff]
    simp [sentTo,howner]
  refine ⟨⟨_,render_getElem? hb hread,rfl,?_⟩,fun d hm hi => (hsame d hm).mp hi⟩
  refine congrArg totals (List.filter_congr fun d hm => ?_)
  exact Bool.eq_iff_iff.mpr (decide_eq_true_iff.trans (hsame d hm))

/-- The moments of two reconciliations of one backend each, the second one in
place of the first, with one frame between them. -/
def replacing : List (Moment 1) :=
  List.replicate 5 .advance++[.ingress 0 7 (echo 8 0 0 ⟨192,168,0,9⟩ ⟨172,17,0,1⟩)]++
    List.replicate 8 .advance

/-- The frame sent to the first backend is shown in the row of the second. -/
theorem statistics_inherited_by_successor :
    SmoothRun .little bridgePool
        [unhindered [bridged 2 "veth2"],unhindered [bridged 3 "veth3"]] ∧
      (play .little (start .little 1 bridgePool
        [unhindered [bridged 2 "veth2"],unhindered [bridged 3 "veth3"]]) replacing).pending.length=0 ∧
      render (play .little (start .little 1 bridgePool
          [unhindered [bridged 2 "veth2"],unhindered [bridged 3 "veth3"]]) replacing).pool
        (play .little (start .little 1 bridgePool
          [unhindered [bridged 2 "veth2"],unhindered [bridged 3 "veth3"]]) replacing).counters=
        [⟨0,bridged 3 "veth3",1,42⟩] ∧
      (deliveries .little (start .little 1 bridgePool
        [unhindered [bridged 2 "veth2"],unhindered [bridged 3 "veth3"]]) replacing).filter
          (sentTo (bridged 3 "veth3"))=[] := by
  decide

/-- Appending a backend keeps the row of the first one. -/
theorem statistics_attributed_growing :
    Steady ([unhindered [bridged 2 "veth2"],
        unhindered [bridged 2 "veth2",bridged 3 "veth3"]].map Attempt.newBackends) ∧
      ∃ row,
      (render (play .little (start .little 1 (initial [172,17,0,1] 80 [2,66,1,2,3,4])
          [unhindered [bridged 2 "veth2"],unhindered [bridged 2 "veth2",bridged 3 "veth3"]])
          replacing).pool
        (play .little (start .little 1 (initial [172,17,0,1] 80 [2,66,1,2,3,4])
          [unhindered [bridged 2 "veth2"],unhindered [bridged 2 "veth2",bridged 3 "veth3"]])
          replacing).counters)[0]?=some row ∧ row.backend=bridged 2 "veth2" ∧
      (row.packets,row.bytes)=totals ((deliveries .little
        (start .little 1 (initial [172,17,0,1] 80 [2,66,1,2,3,4])
          [unhindered [bridged 2 "veth2"],unhindered [bridged 2 "veth2",bridged 3 "veth3"]])
        replacing).filter (sentTo (bridged 2 "veth2"))) :=
  ⟨by decide,(statistics_attributed .little [172,17,0,1] 80 [2,66,1,2,3,4]
    [unhindered [bridged 2 "veth2"],unhindered [bridged 2 "veth2",bridged 3 "veth3"]] (by decide) 1
    replacing 0 (bridged 2 "veth2") (by decide)).1⟩

end ContainerLb.Timeline

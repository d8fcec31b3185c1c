import ContainerLb.ReverseMap
import ContainerLb.ReturnPath

/-!
# Repeated reconciliations of one list

A reconciliation acts on the slots, keys and veths of the old and the new
list only, and one without failures determines all of these. So attempts
that report an error do not change what the next clean attempt reaches, and
once a list is synced exactly, syncing it again changes nothing.
-/

namespace ContainerLb.Convergence

open CallProgram BoundedMaps HostBytes NetAddresses BpfManager PoolSync ManagerSteps
open SyncPhases SlotEffects SyncEffects SyncContract PoolRuns ReverseMap KeyedReplacement
open ReturnPath

variable {order : ByteOrder} {p : Pool} {world : World} {old new : List Backend}

/-- Two worlds agree outside the slots, keys and veths of two lists. -/
structure Agrees (order : ByteOrder) (old new : List Backend) (world world' : World) : Prop where
  /-- Slots behind both lists. -/
  slots : ∀ index : UInt32,old.length≤ index.toNat → new.length≤ index.toNat →
    world'.backendMap.lookup index=world.backendMap.lookup index
  /-- Keys of neither list. -/
  keys : ∀ k,(∀ b∈old++new,ipKey order b.ip≠some k) →
    world'.backendIpsMap.lookup k=world.backendIpsMap.lookup k
  /-- Veths of neither list. -/
  veths : ∀ name,name∉vethNames (old++new) → (name∈world'.vethLinks ↔ name∈world.vethLinks)

/-- Veth names of two lists. -/
theorem mem_vethNames_append {name : String} :
    name∈vethNames (old++new) ↔ name∈vethNames old ∨ name∈vethNames new := by
  rw [vethNames,List.map_append,List.mem_append]
  rfl

/-- A world agrees with itself. -/
theorem Agrees.refl (order : ByteOrder) (old new : List Backend) (world : World) :
    Agrees order old new world world :=
  ⟨fun _ _ _ => rfl,fun _ _ => rfl,fun _ _ => Iff.rfl⟩

/-- Agreement of successive worlds. -/
theorem Agrees.trans {first second third : World} (h : Agrees order old new first second)
    (h' : Agrees order old new second third) : Agrees order old new first third :=
  ⟨fun index ho hn => (h'.slots index ho hn).trans (h.slots index ho hn),
    fun k hk => (h'.keys k hk).trans (h.keys k hk),
    fun name hn => (h'.veths name hn).trans (h.veths name hn)⟩

/-- A slot write is noticed at its own index only. -/
theorem putBackend_agrees {j : ℕ} {info : BackendInfo} (fault : Fault) (world : World)
    (hj : j≤ maxBackends) (hlist : j<old.length ∨ j<new.length) :
    Agrees order old new world (step (.putBackend (UInt32.ofNat j) info) fault world).after := by
  have hframe := step_changes (.putBackend (UInt32.ofNat j) info) fault world
  refine ⟨fun index ho hn => ?_,fun k _ => by rw [hframe.reverse nofun],
    fun name _ => by rw [(hframe.links nofun).1]⟩
  refine (putBackend_touches _ info none none fault world).kept ?_
  rintro rfl
  rw [toNat_ofNat_of_le hj] at ho hn
  omega

/-- Every call of a reconciliation stays within the two lists. -/
theorem SyncCall.agrees {op : Call} (hop : SyncCall order p new op) (fault : Fault)
    (world : World) : Agrees order p.backends new world (step op fault world).after := by
  have hframe := step_changes op fault world
  cases hop with
  | configure =>
    exact ⟨fun _ _ _ => by rw [hframe.slots nofun],fun _ _ => by rw [hframe.reverse nofun],
      fun _ _ => by rw [(hframe.links nofun).1]⟩
  | loop h =>
    cases h with
    | @detach name hold hnew =>
      refine ⟨fun _ _ _ => by rw [hframe.slots nofun],fun _ _ => by rw [hframe.reverse nofun],
        fun other ho => detachVethXDP_other fault world ?_⟩
      rintro rfl
      exact ho (mem_vethNames_append.mpr (Or.inl hold))
    | slot h =>
      cases h with
      | clearSlot hj hold _ =>
        exact putBackend_agrees fault world hj (Or.inl (List.getElem?_eq_some_iff.mp hold).1)
      | writeSlot hj hnew _ =>
        exact putBackend_agrees fault world hj (Or.inr (List.getElem?_eq_some_iff.mp hnew).1)
      | @clearKey previous key hold _ hkey =>
        refine ⟨fun _ _ _ => by rw [hframe.slots nofun],fun k hk => ?_,
          fun _ _ => by rw [(hframe.links nofun).1]⟩
        rcases deleteBackendIp_keys key fault world k with h|⟨hs,_⟩
        · exact h
        · exact absurd (hkey.trans hs)
            (hk previous (List.mem_append_left _ (List.mem_of_getElem? hold)))
      | @writeKey b key hnew hkey =>
        refine ⟨fun _ _ _ => by rw [hframe.slots nofun],fun k hk => ?_,
          fun _ _ => by rw [(hframe.links nofun).1]⟩
        rcases putBackendIp_keys key _ fault world k with h|⟨hs,_⟩
        · exact h
        · exact absurd (hkey.trans hs)
            (hk b (List.mem_append_right _ (List.mem_of_getElem? hnew)))
      | @attach b hnew _ =>
        refine ⟨fun _ _ _ => by rw [hframe.slots nofun],fun _ _ => by rw [hframe.reverse nofun],
          fun other ho => attachVethXDP_other b.vethIdx fault world ?_⟩
        rintro rfl
        exact ho (List.mem_map_of_mem (List.mem_append_right _ (List.mem_of_getElem? hnew)))

/-- A reconciliation stays within the two lists, whatever fails. -/
theorem sync_agrees {iter : IterOrder} {o : GoOutcome (Pool×Option GoError)}
    (hr : Runs handle (sync order p new iter) world o) :
    Agrees order p.backends new world o.state :=
  (hr.invariant (SyncCall order p new) (Agrees order p.backends new world)
    (fun _ fault w hop hw => hw.trans (SyncCall.agrees hop fault w)) (sync_contract hr).calls
    (.refl ..)).2

/-- Every attempt of a run reports an error. -/
def FailingRun (order : ByteOrder) : State → List Attempt → Prop
  | _,[] => True
  | s,a::rest => ¬Succeeds order s a ∧ FailingRun order (next order s a) rest

instance decidableFailingRun (order : ByteOrder) :
    (s : State) → (attempts : List Attempt) → Decidable (FailingRun order s attempts)
  | _,[] => isTrue trivial
  | s,a::rest =>
    have := decidableFailingRun order (next order s a) rest
    inferInstanceAs (Decidable (_ ∧ _))

/-- A state after failed attempts at one list: the pool still compares with
the same list, and nothing outside the two lists has changed. -/
structure Retried (order : ByteOrder) (new : List Backend) (s s' : State) : Prop where
  /-- The remembered list is kept. -/
  backends : s'.pool.backends=s.pool.backends
  /-- The configuration that a success would write is the same. -/
  config : poolConfig order s'.pool new=poolConfig order s.pool new
  /-- The worlds agree outside the two lists. -/
  agrees : Agrees order s.pool.backends new s.world s'.world

/-- The configuration to write depends on the settings of the pool only. -/
theorem poolConfig_next (s : State) (a : Attempt) :
    poolConfig order (next order s a).pool new=poolConfig order s.pool new := by
  obtain ⟨hvip,hport,hmac⟩ := (attempt_contract order s a).settings
  simp only [poolConfig,next,hvip,hport,hmac]

/-- One more failed attempt at the list. -/
theorem Retried.again {s s' : State} {a : Attempt} (h : Retried order new s s')
    (hlist : a.newBackends=new) (hfail : ¬Succeeds order s' a) :
    Retried order new s (next order s' a) := by
  have hagrees := sync_agrees (attempt_runs order s' a)
  rw [h.backends,hlist] at hagrees
  exact ⟨((attempt_contract order s' a).failed hfail).1.trans h.backends,
    (poolConfig_next s' a).trans h.config,h.agrees.trans hagrees⟩

/-- Any number of failed attempts at the list. -/
theorem FailingRun.retried {s s' : State} {retries : List Attempt}
    (hfail : FailingRun order s' retries) (hlist : ∀ a∈retries,a.newBackends=new)
    (h : Retried order new s s') : Retried order new s (run order s' retries) := by
  induction retries generalizing s' with
  | nil => exact h
  | cons a rest ih =>
    exact ih hfail.2 (fun b hb => hlist b (List.mem_cons_of_mem _ hb))
      (h.again (hlist a (List.mem_cons_self ..)) hfail.1)

/-- The tables of two states are equal. The handles of the links may differ,
the names under which they are recorded may not. -/
structure SameTables (s s' : State) : Prop where
  /-- `backend_map`. -/
  backendMap : s'.world.backendMap=s.world.backendMap
  /-- `backend_ips_map`. -/
  backendIpsMap : s'.world.backendIpsMap=s.world.backendIpsMap
  /-- `config_map`. -/
  configMap : s'.world.configMap=s.world.configMap
  /-- The attached veths. -/
  veths : s'.world.vethLinks.keys=s.world.vethLinks.keys
  /-- The pool's own record of the veths, and the remembered list. -/
  pool : s'.pool.byVeth=s.pool.byVeth ∧ s'.pool.backends=s.pool.backends

/-- The only slot of the configuration decides the map. -/
theorem configMap_ext {first second : ArrayMap 1 LbConfig}
    (h : first.lookup 0=second.lookup 0) : first=second := by
  refine ArrayMap.ext_lookup (by decide) fun index => ?_
  by_cases hi : index.toNat<1
  · obtain rfl : index=0 := UInt32.toNat_inj.mp (by simpa using hi)
    exact h
  · have hnone : ∀ map : ArrayMap 1 LbConfig,map.lookup index=none := fun map => by
      rw [←Option.not_isSome_iff_eq_none,ArrayMap.lookup_isSome]
      exact hi
    rw [hnone,hnone]

section Determined

variable {s s' : State} {a a' : Attempt} (h : Retried order new s s')
variable (hlist : a.newBackends=new) (hlist' : a'.newBackends=new)

include h hlist hlist'

/-- Successful attempts determine the slots. -/
theorem Retried.backendMap (hok : Succeeds order s a) (hok' : Succeeds order s' a') :
    (next order s' a').world.backendMap=(next order s a).world.backendMap := by
  have hc := attempt_contract order s a
  have hc' := attempt_contract order s' a'
  rw [hlist] at hc
  rw [hlist'] at hc'
  refine ArrayMap.ext_lookup (by decide) fun index => ?_
  obtain ⟨j,hj,hindex⟩ : ∃ j,j=index.toNat ∧ UInt32.ofNat j=index :=
    ⟨_,rfl,UInt32.ofNat_toNat⟩
  rcases Nat.lt_or_ge j new.length with hn|hn
  · obtain ⟨b,hb⟩ : ∃ b,new[j]?=some b := ⟨_,List.getElem?_eq_getElem hn⟩
    obtain ⟨v4,hv,hl⟩ := hc.filled hok j b hb
    obtain ⟨v4',hv',hl'⟩ := hc'.filled hok' j b hb
    obtain rfl : v4=v4' := Option.some.inj (hv.symm.trans hv')
    rw [←hindex]
    exact hl'.trans hl.symm
  · rcases Nat.lt_or_ge j s.pool.backends.length with ho|ho
    · obtain ⟨b,hb⟩ : ∃ b,s.pool.backends[j]?=some b := ⟨_,List.getElem?_eq_getElem ho⟩
      have hb' := hb
      rw [←h.backends] at hb'
      rw [←hindex]
      exact (hc'.zeroed hok' j b hn hb').trans (hc.zeroed hok j b hn hb).symm
    · have hagrees := sync_agrees (attempt_runs order s a)
      have hagrees' := sync_agrees (attempt_runs order s' a')
      rw [hlist] at hagrees
      rw [hlist',h.backends] at hagrees'
      rw [hj] at hn ho
      exact ((hagrees'.slots index ho hn).trans (h.agrees.slots index ho hn)).trans
        (hagrees.slots index ho hn).symm

/-- Attempts without failures determine the keys. -/
theorem Retried.backendIpsMap (hs : Smooth order s a) (hs' : Smooth order s' a') :
    (next order s' a').world.backendIpsMap=
      (next order s a).world.backendIpsMap := by
  have hkeys := sync_keys (attempt_runs order s a) hs.1 hs.2
  have hkeys' := sync_keys (attempt_runs order s' a') hs'.1 hs'.2
  rw [hlist] at hkeys
  rw [hlist',h.backends] at hkeys'
  refine HashMap.ext_lookup fun k => ?_
  refine (hkeys' k).trans (Eq.trans (replaced_congr (fun k hk => ?_) k) (hkeys k).symm)
  refine h.agrees.keys k fun b hb hkey => ?_
  rcases List.mem_append.mp hb with hm|hm
  · obtain ⟨j,hj,hkj⟩ := (mem_keys_iff (Nat.le_max_left _ new.length)).mp ⟨b,hm,hkey⟩
    exact (hk j hj).2 hkj
  · obtain ⟨j,hj,hkj⟩ := (mem_keys_iff (Nat.le_max_right s.pool.backends.length _)).mp ⟨b,hm,hkey⟩
    exact (hk j hj).1 hkj

/-- Successful attempts determine the attached veths. -/
theorem Retried.byVeth (ht : Tracked s.pool s.world) (ht' : Tracked s'.pool s'.world)
    (hok : Succeeds order s a) (hok' : Succeeds order s' a') :
    (next order s' a').pool.byVeth=(next order s a).pool.byVeth := by
  have hveths := (attempt_contract order s a).veths hok
  have hveths' := (attempt_contract order s' a').veths hok'
  rw [hlist] at hveths
  rw [hlist',h.backends] at hveths'
  ext name
  refine (hveths' name).trans (Iff.trans ?_ (hveths name).symm)
  rw [ht name,ht' name]
  by_cases hn : name∈vethNames new
  · exact iff_of_true (Or.inl hn) (Or.inl hn)
  · refine or_congr_right (and_congr_left fun ho => h.agrees.veths name ?_)
    rw [mem_vethNames_append]
    exact not_or.mpr ⟨ho,hn⟩

/-- Attempts without failures determine all tables. -/
theorem Retried.sameTables (ht : Tracked s.pool s.world) (ht' : Tracked s'.pool s'.world)
    (hs : Smooth order s a) (hs' : Smooth order s' a') :
    SameTables (next order s a) (next order s' a') := by
  have hc := attempt_contract order s a
  have hc' := attempt_contract order s' a'
  have hbyVeth := h.byVeth hlist hlist' ht ht' hs.1 hs'.1
  obtain ⟨hbackends,_,hconfig⟩ := hc.done hs.1
  obtain ⟨hbackends',_,hconfig'⟩ := hc'.done hs'.1
  rw [hlist] at hbackends hconfig
  rw [hlist'] at hbackends' hconfig'
  refine ⟨h.backendMap hlist hlist' hs.1 hs'.1,h.backendIpsMap hlist hlist' hs hs',
    configMap_ext ?_,?_,hbyVeth,hbackends'.trans hbackends.symm⟩
  · exact hconfig'.trans ((congrArg some h.config).trans hconfig.symm)
  · ext name
    rw [Finmap.mem_keys,Finmap.mem_keys]
    refine (hc'.tracked ht' name).symm.trans (Iff.trans ?_ (hc.tracked ht name))
    rw [show (attempt order s' a').value.1.byVeth=(attempt order s a).value.1.byVeth from hbyVeth]

end Determined

/-- Retries converge. From any state of any run, attempts at a list that all
report an error, whatever fails in them, followed by one without failures
reach the tables of a single attempt without failures, in any iteration
orders. -/
theorem retry_converges (order : ByteOrder) (vip : IP) (vport : UInt16) (srcMAC : HardwareAddr)
    (attempts retries : List Attempt) (last single : Attempt) (new : List Backend)
    (hretries : ∀ a∈retries,a.newBackends=new) (hlast : last.newBackends=new)
    (hsingle : single.newBackends=new)
    (hfail : FailingRun order (run order (initial vip vport srcMAC) attempts) retries)
    (hsmooth : Smooth order (run order (initial vip vport srcMAC) (attempts++retries)) last)
    (hsmooth' : Smooth order (run order (initial vip vport srcMAC) attempts) single) :
    SameTables (run order (initial vip vport srcMAC) (attempts++[single]))
      (run order (initial vip vport srcMAC) (attempts++retries++[last])) := by
  have hs := run_settled order vip vport srcMAC attempts
  have hs' := run_settled order vip vport srcMAC (attempts++retries)
  rw [run_append] at hs' hsmooth
  rw [run_concat,run_concat,run_append]
  have hretried := hfail.retried hretries ⟨rfl,rfl,.refl ..⟩
  exact hretried.sameTables hsingle hlast hs.tracked hs'.tracked hsmooth' hsmooth

/-- An attempt whose only failure is the ignored one of a clearing reports
success. Its successor compares with the new list and never removes the
address that a single attempt without failures removes. -/
theorem retry_after_ignored_failure :
    (∃ e∈(attempt .little (run .little bridgePool [unhindered [bridged 2 "veth2"]])
        ⟨[bridged 3 "veth3"],storedOrder,[⟨some (.other 12),none⟩]⟩).events,¬Unfailing e) ∧
      Smooth .little (run .little bridgePool [unhindered [bridged 2 "veth2"],
        ⟨[bridged 3 "veth3"],storedOrder,[⟨some (.other 12),none⟩]⟩])
        (unhindered [bridged 3 "veth3"]) ∧
      Smooth .little (run .little bridgePool [unhindered [bridged 2 "veth2"]])
        (unhindered [bridged 3 "veth3"]) ∧
      ¬SameTables (run .little bridgePool [unhindered [bridged 2 "veth2"],
          unhindered [bridged 3 "veth3"]])
        (run .little bridgePool [unhindered [bridged 2 "veth2"],
          ⟨[bridged 3 "veth3"],storedOrder,[⟨some (.other 12),none⟩]⟩,
          unhindered [bridged 3 "veth3"]]) := by
  refine ⟨by decide,by decide,by decide,fun h => ?_⟩
  have hkey := congrArg (fun map : HashMap maxBackends UInt32 UInt32 =>
    map.lookup (ByteOrder.little.load32 ⟨172,17,0,2⟩)) h.backendIpsMap
  revert hkey
  decide

/-- Two failed attempts, the first stopped between the two entries of the
new backend after an ignored failure, then one without failures. -/
theorem retry_converges_bridge :
    SameTables (run .little (initial [172,17,0,1] 80 [2,66,1,2,3,4])
        ([unhindered [bridged 2 "veth2"]]++[unhindered [bridged 3 "veth3"]]))
      (run .little (initial [172,17,0,1] 80 [2,66,1,2,3,4])
        ([unhindered [bridged 2 "veth2"]]++
          [⟨[bridged 3 "veth3"],storedOrder,
            [⟨some (.other 12),none⟩,noFault,⟨some (.other 12),none⟩]⟩,
          ⟨[bridged 3 "veth3"],storedOrder,
            [noFault,noFault,noFault,noFault,⟨some (.other 16),some (.other 16)⟩]⟩]++
          [unhindered [bridged 3 "veth3"]])) :=
  retry_converges .little [172,17,0,1] 80 [2,66,1,2,3,4] _ _ _ _ [bridged 3 "veth3"]
    (by decide) rfl rfl (by decide) (by decide) (by decide)

/-- What holds between two reconciliations of a run without failures: apart
from lost registrations, the tables are those of the remembered list. -/
structure Tidy (order : ByteOrder) (s : State) : Prop where
  /-- What holds in any run. -/
  settled : Settled order s
  /-- Only remembered addresses are registered. -/
  keys : KeysWithin order s.world s.pool.backends
  /-- All slots behind the remembered list are zero. -/
  zero : ∀ index : UInt32,s.pool.backends.length≤ index.toNat → index.toNat< maxBackends →
    s.world.backendMap.lookup index=some emptyBackend
  /-- Exactly the remembered veths are attached. -/
  veths : AttachedExactly s s.pool.backends

/-- The initial state is tidy. -/
theorem initial_tidy (order : ByteOrder) (vip : IP) (vport : UInt16) (srcMAC : HardwareAddr) :
    Tidy order (initial vip vport srcMAC) := by
  refine ⟨initial_settled order vip vport srcMAC,fun k hk => ?_,fun index _ hi => ?_,rfl,rfl⟩
  · exact absurd (HashMap.lookup_empty k) hk
  · exact ArrayMap.lookup_replicate hi

/-- An attempt without failures keeps the state tidy. -/
theorem next_tidy {s : State} {a : Attempt} (hsmooth : Smooth order s a) (hs : Tidy order s) :
    Tidy order (next order s a) := by
  have hr := attempt_runs order s a
  have hc := attempt_contract order s a
  have hbackends : (next order s a).pool.backends=a.newBackends := (hc.done hsmooth.1).1
  refine ⟨next_settled hs.settled,?_,?_,?_⟩ <;> rw [hbackends]
  · refine (sync_keysWithin hr hsmooth.1 hsmooth.2).mpr fun k hk => ?_
    obtain ⟨b,hb,hkey⟩ := hs.keys k hk
    exact ⟨b,List.mem_append_left _ hb,hkey⟩
  · intro index hn hi
    rcases Nat.lt_or_ge index.toNat s.pool.backends.length with ho|ho
    · have hzero := hc.zeroed hsmooth.1 index.toNat _ hn (List.getElem?_eq_getElem ho)
      rwa [UInt32.ofNat_toNat] at hzero
    · exact ((sync_agrees hr).slots index ho hn).trans (hs.zero index ho hi)
  · refine (next_attachedExactly hs.settled.tracked hsmooth.1).mpr fun name hm => ?_
    rw [hs.veths.1,List.mem_toFinset] at hm
    exact Or.inl hm

/-- The tables are exactly those of a list. -/
structure Image (order : ByteOrder) (s : State) (backends : List Backend) : Prop where
  /-- The list fits the maps. -/
  bounded : backends.length≤ maxBackends
  /-- Every element stands encoded in the slot of its position. -/
  slots : ∀ j b,backends[j]?=some b → InSlot order s.world j b
  /-- All other slots are zero. -/
  zero : ∀ index : UInt32,backends.length≤ index.toNat → index.toNat< maxBackends →
    s.world.backendMap.lookup index=some emptyBackend
  /-- Exactly the addresses of the list are registered, with their positions. -/
  keys : ∀ k index,s.world.backendIpsMap.lookup k=some index ↔
    ∃ i b,backends[i]?=some b ∧ ipKey order b.ip=some k ∧ index=UInt32.ofNat i
  /-- The configuration has the settings of the pool and the length. -/
  config : s.world.configMap.lookup 0=some (lbConfig order s.pool.vip s.pool.vport
    (UInt32.ofNat backends.length) s.pool.srcMAC)
  /-- Exactly the veths of the list are attached. -/
  veths : AttachedExactly s backends
  /-- The pool remembers the list. -/
  pool : s.pool.backends=backends

/-- Distinct addresses at different positions are not equal for the pool. -/
theorem equal_of_distinct {backends : List Backend} (hip : ∀ b∈backends,∃ v4,b.ip.to4=some v4)
    (hdistinct : (backends.map fun b => b.ip.to4).Nodup) {i j : ℕ} {b c : Backend}
    (hb : backends[i]?=some b) (hc : backends[j]?=some c) (hij : i<j) :
    c.ip.equal b.ip=false := by
  obtain ⟨first,hfirst⟩ := hip b (List.mem_of_getElem? hb)
  obtain ⟨second,hsecond⟩ := hip c (List.mem_of_getElem? hc)
  rw [←Bool.not_eq_true,IP.equal_iff hsecond hfirst]
  rintro rfl
  have hsame := position_of_distinct hdistinct hb hc (hfirst.trans hsecond.symm)
  omega

/-- From a tidy state that remembers a list of distinct addresses, syncing
the list once more without failures reaches its image. -/
theorem next_image {s : State} {a : Attempt} (hs : Tidy order s) (hsmooth : Smooth order s a)
    (hlist : s.pool.backends=a.newBackends)
    (hdistinct : (a.newBackends.map fun b => b.ip.to4).Nodup) :
    Image order (next order s a) a.newBackends := by
  have hr := attempt_runs order s a
  have hc := attempt_contract order s a
  have htidy := next_tidy hsmooth hs
  obtain ⟨hbackends,hlen,hconfig⟩ := hc.done hsmooth.1
  have hpool : (next order s a).pool.backends=a.newBackends := hbackends
  have hip := hs.settled.addresses
  have hregistered : ∀ i b,a.newBackends[i]?=some b →
      Registered order (next order s a).world i b := by
    intro i b hb
    refine (sync_registered hip hr hsmooth.1 hsmooth.2 hdistinct hb).mpr fun j c hj hij => ?_
    rw [hlist] at hj hip
    exact equal_of_distinct hip hdistinct hb hj hij
  have hkeys := htidy.keys
  have hzero := htidy.zero
  have hveths := htidy.veths
  rw [hpool] at hkeys hzero hveths
  refine ⟨hlen,hc.filled hsmooth.1,hzero,fun k index => ⟨fun hl => ?_,?_⟩,?_,hveths,hpool⟩
  · obtain ⟨b,hb,hkey⟩ := hkeys k (by rw [hl]; nofun)
    obtain ⟨i,hi⟩ := List.mem_iff_getElem?.mp hb
    have hreg := hregistered i b hi
    rw [Registered,hkey,Option.bind_some,hl] at hreg
    exact ⟨i,b,hi,hkey,Option.some.inj hreg⟩
  · rintro ⟨i,b,hi,hkey,rfl⟩
    have hreg := hregistered i b hi
    rwa [Registered,hkey,Option.bind_some] at hreg
  · obtain ⟨hvip,hport,hmac⟩ := hc.settings
    rw [show (next order s a).pool.vip=s.pool.vip from hvip,
      show (next order s a).pool.vport=s.pool.vport from hport,
      show (next order s a).pool.srcMAC=s.pool.srcMAC from hmac]
    exact hconfig

/-- Calls that only write entries in use: no `ClearBackend`, no attaching and
no detaching. -/
def refreshes : Call → Bool
  | .putBackend _ info => info≠emptyBackend
  | .putBackendIp _ _ => true
  | .putConfig _ _ => true
  | _ => false

/-- An address equals itself. -/
theorem equal_self (ip : IP) : ip.equal ip=true := by
  simp [IP.equal]

/-- Reconciling the remembered list with all its veths attached only writes
entries in use. -/
theorem SyncCall.refreshes {p : Pool} {new : List Backend} {op : Call}
    (h : SyncCall order p new op) (hlist : p.backends=new)
    (hveths : ∀ b∈new,b.vethName∈p.byVeth) : refreshes op=true := by
  cases h with
  | configure => rfl
  | loop hloop =>
    cases hloop with
    | detach hold hnew =>
      rw [hlist] at hold
      exact absurd hold hnew
    | slot hslot =>
      cases hslot with
      | clearSlot _ hold hnew =>
        rw [hlist] at hold
        exact absurd (equal_self _) (by rw [hnew _ hold]; nofun)
      | clearKey hold hnew _ =>
        rw [hlist] at hold
        exact absurd (equal_self _) (by rw [hnew _ hold]; nofun)
      | attach hnew hv => exact absurd (hveths _ (List.mem_of_getElem? hnew)) hv
      | @writeSlot b v4 => exact decide_eq_true (backendInfo_ne_empty order v4 b.port b.mac)
      | writeKey => rfl

/-- Writing what a slot holds already, refused or not. -/
theorem putBackend_same {index : UInt32} {info : BackendInfo}
    (h : world.backendMap.lookup index=some info) (fault : Fault) :
    (step (.putBackend index info) fault world).after=world := by
  rcases putBackend_cases index info fault world with ⟨_,he⟩|⟨_,written,hw,he⟩ <;> rw [he]
  rw [ArrayMap.eq_of_put (by decide) hw h]

/-- Writing what a key holds already, refused or not. -/
theorem putBackendIp_same {key index : UInt32}
    (h : world.backendIpsMap.lookup key=some index) (fault : Fault) :
    (step (.putBackendIp key index) fault world).after=world := by
  rcases putBackendIp_cases key index fault world with ⟨_,he⟩|⟨_,written,hw,he⟩ <;> rw [he]
  rw [HashMap.eq_of_put hw h]

/-- Writing the present configuration, refused or not. -/
theorem putConfig_same {config : LbConfig} (h : world.configMap.lookup 0=some config)
    (fault : Fault) : (step (.putConfig 0 config) fault world).after=world := by
  rcases putConfig_cases 0 config fault world with ⟨_,he⟩|⟨_,written,hw,he⟩ <;> rw [he]
  rw [ArrayMap.eq_of_put (by decide) hw h]

/-- At the image of the list, every call of its reconciliation writes what is
there already. -/
theorem Image.call {s : State} {backends : List Backend} {op : Call}
    (h : Image order s backends) (hop : SyncCall order s.pool backends op) :
    refreshes op=true ∧ ∀ fault,(step op fault s.world).after=s.world := by
  have hveths : ∀ b∈backends,b.vethName∈s.pool.byVeth := by
    intro b hb
    rw [h.veths.2,List.mem_toFinset]
    exact List.mem_map_of_mem hb
  have hrefreshes := SyncCall.refreshes hop h.pool hveths
  refine ⟨hrefreshes,?_⟩
  cases hop with
  | configure => exact putConfig_same h.config
  | loop hloop =>
    cases hloop with
    | detach => contradiction
    | slot hslot =>
      cases hslot with
      | clearSlot => exact absurd hrefreshes (by simp [refreshes])
      | clearKey => contradiction
      | attach => contradiction
      | @writeSlot b v4 _ hnew hip =>
        obtain ⟨found,hf,hl⟩ := h.slots _ b hnew
        obtain rfl : v4=found := Option.some.inj (hip.symm.trans hf)
        exact putBackend_same hl
      | @writeKey b key hnew hkey =>
        exact putBackendIp_same ((h.keys _ _).mpr ⟨_,b,hnew,hkey,rfl⟩)

/-- At the image of a list, an attempt at the list changes nothing, whatever
fails, and only writes entries in use. -/
theorem Image.kept {s : State} {a : Attempt} {backends : List Backend}
    (h : Image order s backends) (ht : Tracked s.pool s.world) (hlist : a.newBackends=backends) :
    next order s a=s ∧ ∀ e∈(attempt order s a).events,refreshes e.op=true := by
  subst hlist
  have hc := attempt_contract order s a
  refine ⟨?_,fun e hm => (h.call (hc.calls e hm)).1⟩
  have hworld : (attempt order s a).state=s.world :=
    ((attempt_runs order s a).invariant (SyncCall order s.pool a.newBackends)
      (fun w => w=s.world) (fun _ fault w hop hw => by rw [hw]; exact (h.call hop).2 fault)
      hc.calls rfl).2
  obtain ⟨hvip,hport,hmac⟩ := hc.settings
  have hbackends : (attempt order s a).value.1.backends=s.pool.backends := by
    by_cases hok : (attempt order s a).value.2=none
    · exact (hc.done hok).1.trans h.pool.symm
    · exact (hc.failed hok).1
  have hbyVeth : (attempt order s a).value.1.byVeth=s.pool.byVeth := by
    ext name
    rw [hc.tracked ht name,ht name,hworld]
  exact State.ext (Pool.ext hbackends hbyVeth hvip hport hmac) hworld

/-- At the image of a list, attempts at the list change nothing. -/
theorem Image.run_kept {s : State} {backends : List Backend} {further : List Attempt}
    (h : Image order s backends) (ht : Tracked s.pool s.world)
    (hlist : ∀ a∈further,a.newBackends=backends) : run order s further=s := by
  induction further with
  | nil => rfl
  | cons a rest ih =>
    change run order (next order s a) rest=s
    rw [(h.kept ht (hlist a (List.mem_cons_self ..))).1]
    exact ih fun b hb => hlist b (List.mem_cons_of_mem _ hb)

/-- Steady polling. After any run without failures that ends with two
attempts at a list of distinct addresses, the tables are the image of the
list. Every further attempt at the list, with or without failures, leaves the
whole state as it is and only writes entries in use. -/
theorem steady_polling (order : ByteOrder) (vip : IP) (vport : UInt16) (srcMAC : HardwareAddr)
    (attempts : List Attempt) (first second : Attempt) (backends : List Backend)
    (hfirst : first.newBackends=backends) (hsecond : second.newBackends=backends)
    (hdistinct : (backends.map fun b => b.ip.to4).Nodup)
    (hsmooth : SmoothRun order (initial vip vport srcMAC) (attempts++[first,second])) :
    Image order (run order (initial vip vport srcMAC) (attempts++[first,second])) backends ∧
      ∀ (further : List Attempt) (a : Attempt),(∀ b∈further++[a],b.newBackends=backends) →
        run order (initial vip vport srcMAC) (attempts++[first,second]++further++[a])=
          run order (initial vip vport srcMAC) (attempts++[first,second]) ∧
        ∀ e∈(attempt order (run order (initial vip vport srcMAC)
          (attempts++[first,second]++further)) a).events,refreshes e.op=true := by
  have himage : Image order
      (run order (initial vip vport srcMAC) (attempts++[first,second])) backends := by
    obtain ⟨hbefore,hf,hs,_⟩ := smoothRun_append.mp hsmooth
    have htidy := next_tidy hf (smoothRun_induction _ (initial_tidy order vip vport srcMAC)
      (fun _ _ => next_tidy) hbefore)
    have hdone := ((attempt_contract order _ first).done hf.1).1
    rw [run_append]
    subst hsecond
    exact next_image htidy hs (hdone.trans hfirst) hdistinct
  have ht := (run_settled order vip vport srcMAC (attempts++[first,second])).tracked
  refine ⟨himage,fun further a hlist => ?_⟩
  have hfurther : run order (initial vip vport srcMAC) (attempts++[first,second]++further)=
      run order (initial vip vport srcMAC) (attempts++[first,second]) := by
    rw [run_append]
    exact himage.run_kept ht fun b hb => hlist b (List.mem_append_left _ hb)
  rw [run_concat,hfurther]
  exact himage.kept ht (hlist a (List.mem_append_right _ (List.mem_singleton.mpr rfl)))

/-- Shrinking a list to its second element and polling again. -/
theorem steady_polling_shrinking :
    Image .little (run .little (initial [172,17,0,1] 80 [2,66,1,2,3,4])
      ([unhindered [bridged 2 "veth2",bridged 3 "veth3"]]++
        [unhindered [bridged 3 "veth3"],unhindered [bridged 3 "veth3"]])) [bridged 3 "veth3"] :=
  (steady_polling .little [172,17,0,1] 80 [2,66,1,2,3,4]
    [unhindered [bridged 2 "veth2",bridged 3 "veth3"]] (unhindered [bridged 3 "veth3"])
    (unhindered [bridged 3 "veth3"]) [bridged 3 "veth3"] rfl rfl (by decide) (by decide)).1

end ContainerLb.Convergence

import ContainerLb.PoolRuns
import ContainerLb.KeyedReplacement

/-!
# The reverse map after a reconciliation without failures

Slots are compared by position while `backend_ips_map` is keyed by address.
The two loops of `sync` that write the maps are a replacement of the old
keys by the new keys, position by position. The contents of the reverse map
after a reconciliation in which no call failed follow from it, for any
contents before.
-/

namespace ContainerLb.ReverseMap

open CallProgram BoundedMaps HostBytes NetAddresses BpfManager PoolSync ManagerSteps
open SyncPhases SlotEffects SyncEffects SyncContract PoolRuns KeyedReplacement

variable {order : ByteOrder} {p : Pool} {world : World}

/-- Key under which a list registers a position. -/
def keyAt (order : ByteOrder) (backends : List Backend) (j : ℕ) : Option UInt32 :=
  backends[j]?.bind fun b => ipKey order b.ip

/-- Contents of the reverse map after the first `n` positions. -/
abbrev replacedKeys (order : ByteOrder) (old new : List Backend) (n : ℕ)
    (base : UInt32 → Option UInt32) : UInt32 → Option UInt32 :=
  replaced (keyAt order old) (keyAt order new) UInt32.ofNat n base

/-- The key of an occupied position. -/
theorem keyAt_of_getElem? {backends : List Backend} {j : ℕ} {b : Backend}
    (hb : backends[j]?=some b) : keyAt order backends j=ipKey order b.ip := by
  rw [keyAt,hb,Option.bind_some]

/-- There is no key beyond the list. -/
theorem keyAt_of_length_le {backends : List Backend} {j : ℕ} (h : backends.length≤j) :
    keyAt order backends j=none := by
  rw [keyAt,List.getElem?_eq_none h,Option.bind_none]

/-- A registered key belongs to an element at its position. -/
theorem keyAt_eq_some {backends : List Backend} {j : ℕ} {k : UInt32} :
    keyAt order backends j=some k ↔ ∃ b,backends[j]?=some b ∧ ipKey order b.ip=some k :=
  Option.bind_eq_some_iff

/-- Keys are the loaded address bytes. -/
theorem ipKey_eq_some {ip : IP} {k : UInt32} :
    ipKey order ip=some k ↔ ∃ v4,ip.to4=some v4 ∧ order.load32 v4=k :=
  Option.map_eq_some_iff

/-- The first loop removes the key of an old address exactly when it is not
the key that it writes. -/
theorem reusedBy_key {old : List Backend} {i : ℕ} {b : Backend} {v4 : Quad} {k : UInt32}
    (hv : b.ip.to4=some v4) (hk : order.load32 v4≠k) :
    ((reusedBy old i b).bind fun previous => ipKey order previous.ip)=some k ↔
      keyAt order old i=some k := by
  rw [Option.bind_eq_some_iff,keyAt_eq_some]
  constructor
  · rintro ⟨previous,hp,hkey⟩
    exact ⟨previous,(reusedBy_eq_some hp).1,hkey⟩
  · rintro ⟨previous,hold,hkey⟩
    refine ⟨previous,?_,hkey⟩
    obtain ⟨found,hf,hl⟩ := ipKey_eq_some.mp hkey
    have hne : ¬previous.ip.equal b.ip=true := by
      rw [IP.equal_iff hf hv]
      rintro rfl
      exact hk hl
    simp only [reusedBy,hold,if_neg hne]

/-- Clearing without failures removes exactly one key. -/
theorem clearBackend_keys {index : UInt32} {ip : IP} {o : GoOutcome (Option GoError)}
    (hr : Runs handle (clearBackend order index ip) world o) (hu : ∀ e∈o.events,Unfailing e)
    (k : UInt32) :
    o.state.backendIpsMap.lookup k=
      if ipKey order ip=some k then none else world.backendIpsMap.lookup k := by
  split
  · rename_i hk
    exact (clearBackend_unfailing hr hu).2 k hk
  · rename_i hk
    rcases (clearBackend_touches hr).reverse k with h|h
    · exact h
    · exact absurd h.1 hk

/-- The clearing inside the first loop, without failures. -/
theorem clearReused_keys {old : List Backend} {i : ℕ} {b : Backend} {o : GoOutcome Unit}
    (hr : Runs handle (clearReused order old i b) world o) (hu : ∀ e∈o.events,Unfailing e)
    (k : UInt32) :
    o.state.backendIpsMap.lookup k=
      if ((reusedBy old i b).bind fun previous => ipKey order previous.ip)=some k then none
      else world.backendIpsMap.lookup k := by
  rcases runs_clearReused hr with ⟨hn,hs,_⟩|⟨previous,cleared,hp,hc,hs,he⟩
  · rw [hs,hn]
    rfl
  · rw [he] at hu
    rw [hs,hp]
    exact clearBackend_keys hc hu k

/-- A successful `UpdateBackend` registers exactly one key. -/
theorem updateBackend_keys {index : UInt32} {ip : IP} {port : UInt16} {mac : HardwareAddr}
    {o : GoOutcome (Option GoError)} {v4 : Quad} (hv : ip.to4=some v4)
    (hr : Runs handle (updateBackend order index ip port mac) world o) (hok : o.value=none)
    (k : UInt32) :
    o.state.backendIpsMap.lookup k=
      if order.load32 v4=k then some index else world.backendIpsMap.lookup k := by
  split
  · rename_i hk
    obtain ⟨found,hf,_,_,hl⟩ := updateBackend_done hr hok
    obtain rfl : v4=found := Option.some.inj (hv.symm.trans hf)
    rw [←hk]
    exact hl
  · rename_i hk
    rcases (updateBackend_touches hr hv).reverse k with h|h
    · exact h
    · exact absurd (Option.some.inj h.1) hk

/-- One iteration of the first loop decides as its position does. -/
theorem writeBackend_keys {new : List Backend} {i : ℕ} {b : Backend}
    {o : GoOutcome (Pool×Option GoError)} (hb : new[i]?=some b)
    (hr : Runs handle (writeBackend order p i b) world o) (hok : o.value.2=none)
    (hu : ∀ e∈o.events,Unfailing e) (k : UInt32) :
    o.state.backendIpsMap.lookup k=
      (touchAt (keyAt order p.backends) (keyAt order new) UInt32.ofNat i k).getD
        (world.backendIpsMap.lookup k) := by
  obtain ⟨cleared,updated,hc,hup,hcases⟩ := runs_writeBackend hr
  -- the attach keeps the maps, so the keys are those after the write
  obtain ⟨hdone,hsame,hevents⟩ : updated.value=none ∧
      o.state.backendIpsMap=updated.state.backendIpsMap ∧ ∀ e∈cleared.events,e∈o.events := by
    rcases hcases with ⟨_,_,herr,_⟩|⟨hv,_,_,hs,he⟩|⟨hv,_,fault,_,hs,he⟩
    · exact absurd hok herr
    · exact ⟨hv,by rw [hs],fun e hm => by rw [he]; exact List.mem_append_left _ hm⟩
    · refine ⟨hv,?_,fun e hm => ?_⟩
      · rw [hs]
        exact (step_changes (.attachVethXDP _ _) fault updated.state).reverse nofun
      · rw [he,List.append_assoc]
        exact List.mem_append_left _ hm
  obtain ⟨v4,hv,_⟩ := updateBackend_done hup hdone
  have hkey : keyAt order new i=some (order.load32 v4) := by
    rw [keyAt_of_getElem? hb,ipKey,hv,Option.map_some]
  rw [hsame,updateBackend_keys hv hup hdone,touchAt,hkey]
  by_cases hk : order.load32 v4=k
  · rw [if_pos hk,if_pos (congrArg some hk)]
    rfl
  · rw [if_neg hk,if_neg (fun h => hk (Option.some.inj h)),
      clearReused_keys hc (fun e hm => hu e (hevents e hm))]
    by_cases hold : keyAt order p.backends i=some k
    · rw [if_pos hold,if_pos ((reusedBy_key hv hk).mpr hold)]
      rfl
    · rw [if_neg hold,if_neg (fun h => hold ((reusedBy_key hv hk).mp h))]
      rfl

/-- The first loop continues the replacement through its positions. -/
theorem writeBackends_keys {old new rest : List Backend} {i : ℕ} {oldByVeth : VethMap}
    {base : UInt32 → Option UInt32} {o : GoOutcome (Pool×VethMap×Option GoError)}
    (hold : p.backends=old) (hrest : rest=new.drop i) (hi : i≤ maxBackends)
    (hr : Runs handle (writeBackends order p i oldByVeth rest) world o)
    (hok : o.value.2.2=none) (hu : ∀ e∈o.events,Unfailing e)
    (hbase : ∀ k,world.backendIpsMap.lookup k=replacedKeys order old new i base k) :
    ∀ k,o.state.backendIpsMap.lookup k=replacedKeys order old new (i+rest.length) base k := by
  induction rest generalizing p i oldByVeth world o with
  | nil =>
    obtain rfl := runs_done.mp hr
    exact hbase
  | cons b rest ih =>
    obtain ⟨hb,htail⟩ := drop_cons hrest
    obtain ⟨body,hbody,⟨_,_,herr,_⟩|⟨hnone,tail,ht,rfl⟩⟩ := runs_writeBackends_cons hr
    · exact absurd hok herr
    · have hspec := writeBackend_spec hi hb hbody
      have hpool : body.value.1.backends=old := by
        rw [hspec.pool]
        exact hold
      have hstep : ∀ k,body.state.backendIpsMap.lookup k=
          replacedKeys order old new (i+1) base k := by
        intro k
        rw [writeBackend_keys hb hbody hnone (fun e hm => hu e (List.mem_append_left _ hm)) k,
          hold,hbase k]
        exact (replaced_succ i base k).symm
      have hih := ih hpool htail (hspec.done hnone).1 ht hok
        (fun e hm => hu e (List.mem_append_right _ hm)) hstep
      rwa [List.length_cons,Nat.add_comm rest.length,←Nat.add_assoc]

/-- The second loop continues the replacement behind the new list. -/
theorem clearStale_keys {old new rest : List Backend} {idx : ℕ}
    {base : UInt32 → Option UInt32} {o : GoOutcome (Option GoError)}
    (hrest : rest=old.drop idx) (hnew : new.length≤ idx)
    (hr : Runs handle (clearStale order idx rest) world o)
    (hok : o.value=none) (hu : ∀ e∈o.events,Unfailing e)
    (hbase : ∀ k,world.backendIpsMap.lookup k=replacedKeys order old new idx base k) :
    ∀ k,o.state.backendIpsMap.lookup k=replacedKeys order old new (idx+rest.length) base k := by
  induction rest generalizing idx world o with
  | nil =>
    obtain rfl := runs_done.mp hr
    exact hbase
  | cons b rest ih =>
    obtain ⟨hb,htail⟩ := drop_cons hrest
    obtain ⟨cleared,hc,⟨_,herr,_⟩|⟨_,tail,ht,rfl⟩⟩ := runs_clearStale_cons hr
    · exact absurd hok herr
    · have hstep : ∀ k,cleared.state.backendIpsMap.lookup k=
          replacedKeys order old new (idx+1) base k := by
        intro k
        rw [clearBackend_keys hc (fun e hm => hu e (List.mem_append_left _ hm)) k,hbase k]
        refine Eq.trans ?_ (replaced_succ idx base k).symm
        have hnone : ¬(none : Option UInt32)=some k := nofun
        rw [touchAt,keyAt_of_length_le hnew,keyAt_of_getElem? hb,if_neg hnone]
        split <;> rfl
      have hih := ih htail (by omega) ht hok
        (fun e hm => hu e (List.mem_append_right _ hm)) hstep
      rwa [List.length_cons,Nat.add_comm rest.length,←Nat.add_assoc]

/-- A reconciliation without failures replaces the keys of the old list by
those of the new list, position by position. -/
theorem sync_keys {new : List Backend} {iter : IterOrder} {o : GoOutcome (Pool×Option GoError)}
    (hr : Runs handle (sync order p new iter) world o) (hok : o.value.2=none)
    (hu : ∀ e∈o.events,Unfailing e) (k : UInt32) :
    o.state.backendIpsMap.lookup k=
      replacedKeys order p.backends new (max p.backends.length new.length)
        world.backendIpsMap.lookup k := by
  obtain ⟨written,cleared,detached,fault,hw,hwrote,hc,hclear,hd,hstate,hevents⟩ :=
    runs_sync_succeeded hr hok
  have hloops := loopPhases hw hwrote hc hd
  have hin : ∀ e,e∈written.events ∨ e∈cleared.events → e∈o.events := by
    intro e hm
    rw [hevents,List.append_assoc,List.append_assoc]
    rcases hm with h|h
    · exact List.mem_append_left _ h
    · exact List.mem_append_right _ (List.mem_append_left _ h)
  have hlen := (hloops.slots.write.done hwrote).1
  rw [Nat.zero_add] at hlen
  have hfirst := writeBackends_keys rfl List.drop_zero.symm (Nat.zero_le _) hw hwrote
    (fun e hm => hu e (hin e (Or.inl hm))) (fun k => rfl)
  have hbackends : written.value.1.backends=p.backends := by rw [hloops.slots.write.pool]
  rw [hbackends] at hc
  rw [Nat.zero_add] at hfirst
  have hsecond := clearStale_keys rfl (Nat.le_refl _) hc hclear
    (fun e hm => hu e (hin e (Or.inr hm))) hfirst
  have hcount : new.length+(p.backends.drop new.length).length=
      max p.backends.length new.length := by
    rw [List.length_drop]
    omega
  rw [hcount] at hsecond
  have hsame : o.state.backendIpsMap=detached.state.backendIpsMap := by
    rw [hstate]
    rcases putConfig_cases 0 (poolConfig order detached.value.1 new) fault detached.state with
      ⟨_,he⟩|⟨_,_,_,he⟩ <;> rw [he]
  rw [hsame,hloops.maps.2.2]
  exact hsecond k

/-- A backend's address is registered with its position. -/
def Registered (order : ByteOrder) (world : World) (i : ℕ) (b : Backend) : Prop :=
  (ipKey order b.ip).bind world.backendIpsMap.lookup=some (UInt32.ofNat i)

instance (order : ByteOrder) (world : World) (i : ℕ) (b : Backend) :
    Decidable (Registered order world i b) := inferInstanceAs (Decidable (_=_))

/-- All registered addresses belong to a list. -/
def KeysWithin (order : ByteOrder) (world : World) (backends : List Backend) : Prop :=
  ∀ k,world.backendIpsMap.lookup k≠none → ∃ b∈backends,ipKey order b.ip=some k

-- the keys are finitely many even though the addresses are too many to try
instance (order : ByteOrder) (world : World) (backends : List Backend) :
    Decidable (KeysWithin order world backends) :=
  @decidable_of_iff _ (∀ k∈world.backendIpsMap.entries.keys,∃ b∈backends,ipKey order b.ip=some k)
    (forall_congr' fun _ => imp_congr_left HashMap.mem_keys_iff) Finset.decidableDforallFinset

/-- A list has a key exactly when one of its first positions has it. -/
theorem mem_keys_iff {backends : List Backend} {n : ℕ} (hn : backends.length≤n) {k : UInt32} :
    (∃ b∈backends,ipKey order b.ip=some k) ↔ ∃ j<n,keyAt order backends j=some k := by
  constructor
  · rintro ⟨b,hb,hk⟩
    obtain ⟨j,hj⟩ := List.mem_iff_getElem?.mp hb
    have hlt := (List.getElem?_eq_some_iff.mp hj).1
    exact ⟨j,by omega,by rw [keyAt_of_getElem? hj,hk]⟩
  · rintro ⟨j,_,hk⟩
    obtain ⟨b,hb,hkey⟩ := keyAt_eq_some.mp hk
    exact ⟨b,List.mem_of_getElem? hb,hkey⟩

/-- After a reconciliation without failures, only new addresses are
registered exactly when only old and new ones were before. -/
theorem sync_keysWithin {new : List Backend} {iter : IterOrder}
    {o : GoOutcome (Pool×Option GoError)}
    (hr : Runs handle (sync order p new iter) world o) (hok : o.value.2=none)
    (hu : ∀ e∈o.events,Unfailing e) :
    KeysWithin order o.state new ↔ KeysWithin order world (p.backends++new) := by
  have hkeys := sync_keys hr hok hu
  have hold := fun k => @mem_keys_iff order p.backends _ (Nat.le_max_left _ new.length) k
  have hnew := fun k => @mem_keys_iff order new _ (Nat.le_max_right p.backends.length _) k
  simp only [KeysWithin,List.mem_append,or_and_right,exists_or]
  refine forall_congr' fun k => ?_
  by_cases hn : ∃ b∈new,ipKey order b.ip=some k
  · exact iff_of_true (fun _ => hn) (fun _ => Or.inr hn)
  · have habsent : ∀ j< max p.backends.length new.length,keyAt order new j≠some k :=
      fun j hj h => hn ((hnew k).mpr ⟨j,hj,h⟩)
    obtain ⟨hgone,hkept⟩ := @replaced_of_not_new _ _ _ (keyAt order p.backends)
      (keyAt order new) UInt32.ofNat _ world.backendIpsMap.lookup k habsent
    rw [hkeys k]
    by_cases ho : ∃ b∈p.backends,ipKey order b.ip=some k
    · rw [replacedKeys,hgone ((hold k).mp ho)]
      exact iff_of_true (fun h => absurd rfl h) (fun _ => Or.inl ho)
    · rw [replacedKeys,hkept fun j hj h => ho ((hold k).mpr ⟨j,hj,h⟩)]
      exact imp_congr_right fun _ => iff_of_false hn (not_or.mpr ⟨ho,hn⟩)

/-- In a list of distinct addresses an address has one position. -/
theorem position_of_distinct {backends : List Backend}
    (hdistinct : (backends.map fun b => b.ip.to4).Nodup) {i j : ℕ} {b c : Backend}
    (hb : backends[i]?=some b) (hc : backends[j]?=some c) (h : b.ip.to4=c.ip.to4) : i=j := by
  have hi : (backends.map fun b => b.ip.to4)[i]?=some b.ip.to4 := by
    rw [List.getElem?_map,hb,Option.map_some]
  have hj : (backends.map fun b => b.ip.to4)[j]?=some b.ip.to4 := by
    rw [List.getElem?_map,hc,Option.map_some,h]
  exact (List.getElem?_inj (List.getElem?_eq_some_iff.mp hi).1 hdistinct).mp (hi.trans hj.symm)

/-- After a reconciliation without failures, a position of pairwise distinct
addresses is registered exactly when its address stood at no later position
of the old list. -/
theorem sync_registered {new : List Backend} {iter : IterOrder}
    {o : GoOutcome (Pool×Option GoError)} (hold : ∀ c∈p.backends,∃ v4,c.ip.to4=some v4)
    (hr : Runs handle (sync order p new iter) world o) (hok : o.value.2=none)
    (hu : ∀ e∈o.events,Unfailing e) (hdistinct : (new.map fun b => b.ip.to4).Nodup)
    {i : ℕ} {b : Backend} (hb : new[i]?=some b) :
    Registered order o.state i b ↔
      ∀ j c,p.backends[j]?=some c → i<j → c.ip.equal b.ip=false := by
  obtain ⟨v4,hv,_⟩ := (sync_contract hr).filled hok i b hb
  have hkey : keyAt order new i=some (order.load32 v4) := by
    rw [keyAt_of_getElem? hb,ipKey,hv,Option.map_some]
  have hi : i< max p.backends.length new.length :=
    (List.getElem?_eq_some_iff.mp hb).1.trans_le (Nat.le_max_right _ _)
  -- distinct addresses are distinct keys, so the key is written once
  have honly : ∀ j< max p.backends.length new.length,
      keyAt order new j=some (order.load32 v4) → j=i := by
    intro j _ hj
    obtain ⟨c,hc,hk⟩ := keyAt_eq_some.mp hj
    obtain ⟨quad,hq,hl⟩ := ipKey_eq_some.mp hk
    rw [order.load32_inj] at hl
    subst hl
    exact position_of_distinct hdistinct hc hb (hq.trans hv.symm)
  have hequal : ∀ {j c},p.backends[j]?=some c →
      (keyAt order p.backends j=some (order.load32 v4) ↔ c.ip.equal b.ip=true) := by
    intro j c hc
    obtain ⟨quad,hq⟩ := hold c (List.mem_of_getElem? hc)
    rw [keyAt_of_getElem? hc,ipKey,hq,Option.map_some,IP.equal_iff hq hv,Option.some_inj,
      order.load32_inj]
  rw [Registered,ipKey,hv,Option.map_some,Option.bind_some,sync_keys hr hok hu,
    replaced_eq_value_iff hi hkey honly]
  constructor
  · intro h j c hc hij
    have hj := (List.getElem?_eq_some_iff.mp hc).1
    have hne := h j hij (by omega)
    rw [Ne,hequal hc] at hne
    simpa using hne
  · intro h j hij _ hj
    obtain ⟨c,hc,_⟩ := keyAt_eq_some.mp hj
    have hfalse := h j c hc hij
    rw [(hequal hc).mp hj] at hfalse
    contradiction

/-- Completeness of the reverse map. After any run and a last reconciliation
without failures of a list with distinct addresses, every position of the
list is registered exactly when no address of the list stood at a later
position of the list synced before. -/
theorem reverseMap_complete_iff (order : ByteOrder) (vip : IP) (vport : UInt16)
    (srcMAC : HardwareAddr) (attempts : List Attempt) (a : Attempt)
    (hsmooth : Smooth order (run order (initial vip vport srcMAC) attempts) a)
    (hdistinct : (a.newBackends.map fun b => b.ip.to4).Nodup) :
    (∀ i b,a.newBackends[i]?=some b →
      Registered order (run order (initial vip vport srcMAC) (attempts++[a])).world i b) ↔
    ∀ i b,a.newBackends[i]?=some b →
      ∀ (j : ℕ) (c : Backend),
        (run order (initial vip vport srcMAC) attempts).pool.backends[j]?=some c →
          i<j → c.ip.equal b.ip=false := by
  have hsettled := run_settled order vip vport srcMAC attempts
  rw [run_concat]
  exact forall_congr' fun i => forall_congr' fun b => imp_congr_right fun hb =>
    sync_registered hsettled.addresses (attempt_runs order _ a) hsmooth.1 hsmooth.2 hdistinct hb

/-- Shrinking a list to its second element loses the element's registration:
the stale index of the old list holds the address that index zero has just
registered. -/
theorem reverseMap_lost_by_shrinking :
    SmoothRun .little bridgePool
        [unhindered [bridged 2 "veth2",bridged 3 "veth3"],unhindered [bridged 3 "veth3"]] ∧
      ¬Registered .little (run .little bridgePool
        [unhindered [bridged 2 "veth2",bridged 3 "veth3"],unhindered [bridged 3 "veth3"]]).world 0
        (bridged 3 "veth3") := by
  decide

/-- Growing a list keeps all registrations. -/
theorem reverseMap_complete_growing :
    Registered .little (run .little (initial [172,17,0,1] 80 [2,66,1,2,3,4])
        ([unhindered [bridged 2 "veth2"]]++
          [unhindered [bridged 2 "veth2",bridged 3 "veth3"]])).world 0 (bridged 2 "veth2") ∧
      Registered .little (run .little (initial [172,17,0,1] 80 [2,66,1,2,3,4])
        ([unhindered [bridged 2 "veth2"]]++
          [unhindered [bridged 2 "veth2",bridged 3 "veth3"]])).world 1 (bridged 3 "veth3") := by
  have hall := (reverseMap_complete_iff .little [172,17,0,1] 80 [2,66,1,2,3,4]
    [unhindered [bridged 2 "veth2"]] (unhindered [bridged 2 "veth2",bridged 3 "veth3"])
    (by decide) (by decide)).mpr fun i b _ j c hc hij => by
      have hj : j<1 := (List.getElem?_eq_some_iff.mp hc).1
      omega
  exact ⟨hall 0 _ rfl,hall 1 _ rfl⟩

/-- Healing of the reverse map. After any run and a last reconciliation
without failures, every registered address belongs to the synced list
exactly when before it every one belonged to this or to the remembered list. -/
theorem reverseMap_heals_iff (order : ByteOrder) (vip : IP) (vport : UInt16)
    (srcMAC : HardwareAddr) (attempts : List Attempt) (a : Attempt)
    (hsmooth : Smooth order (run order (initial vip vport srcMAC) attempts) a) :
    KeysWithin order (run order (initial vip vport srcMAC) (attempts++[a])).world a.newBackends ↔
      KeysWithin order (run order (initial vip vport srcMAC) attempts).world
        ((run order (initial vip vport srcMAC) attempts).pool.backends++a.newBackends) := by
  rw [run_concat]
  exact sync_keysWithin (attempt_runs order _ a) hsmooth.1 hsmooth.2

/-- A refused attach leaves a registered address that the next list, synced
without failures, does not remove. -/
theorem reverseMap_leaks_after_refused_attach :
    Smooth .little (run .little bridgePool [⟨[bridged 2 "veth2"],storedOrder,
        [noFault,noFault,⟨some (.other 16),some (.other 16)⟩]⟩]) (unhindered [bridged 3 "veth3"]) ∧
      ¬KeysWithin .little (run .little bridgePool ([⟨[bridged 2 "veth2"],storedOrder,
        [noFault,noFault,⟨some (.other 16),some (.other 16)⟩]⟩]++
        [unhindered [bridged 3 "veth3"]])).world [bridged 3 "veth3"] := by
  decide

/-- The same list synced after the refused attach leaves no other address. -/
theorem reverseMap_heals_by_retry :
    KeysWithin .little (run .little (initial [172,17,0,1] 80 [2,66,1,2,3,4])
      ([⟨[bridged 2 "veth2"],storedOrder,[noFault,noFault,⟨some (.other 16),some (.other 16)⟩]⟩]++
        [unhindered [bridged 2 "veth2"]])).world [bridged 2 "veth2"] :=
  (reverseMap_heals_iff .little [172,17,0,1] 80 [2,66,1,2,3,4]
    [⟨[bridged 2 "veth2"],storedOrder,[noFault,noFault,⟨some (.other 16),some (.other 16)⟩]⟩]
    (unhindered [bridged 2 "veth2"]) (by decide)).mpr (by decide)

end ContainerLb.ReverseMap

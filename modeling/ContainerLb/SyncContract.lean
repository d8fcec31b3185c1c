import ContainerLb.SyncEffects

/-!
# Contract of a reconciliation under arbitrary failures

One description of everything that an execution of `sync` guarantees
whatever fails: which calls it issues, when the configuration changes, what
the pool remembers, and what a reported success means for the slots.
-/

namespace ContainerLb.SyncContract

open CallProgram BoundedMaps HostBytes NetAddresses BpfManager PoolSync ManagerSteps
open SyncPhases SlotEffects SyncEffects

variable {order : ByteOrder} {p : Pool} {world : World}

/-- Veth names of a list. -/
def vethNames (backends : List Backend) : List String := backends.map Backend.vethName

/-- The old map has exactly the veth names of the old list. -/
theorem mem_byVethName {old : List Backend} {name : String} :
    name∈byVethName old ↔ name∈vethNames old := by
  have hfold : ∀ (list : List Backend) (map : VethMap),
      name∈list.foldl (fun map b => map.insert b.vethName b) map ↔
        name∈map ∨ name∈vethNames list := by
    intro list
    induction list with
    | nil => simp [vethNames]
    | cons b rest ih =>
      intro map
      rw [List.foldl_cons,ih,AList.mem_insert]
      simp only [vethNames,List.map_cons,List.mem_cons]
      tauto
  have hempty : name∉(∅ : VethMap) := AList.notMem_empty name
  have hmem := hfold old ∅
  rw [byVethName]
  tauto

/-- Erasing the veths of a list removes exactly those. -/
theorem mem_foldl_erase {new : List Backend} {name : String} (map : VethMap) :
    name∈new.foldl (fun map b => map.erase b.vethName) map ↔
      name∈map ∧ name∉vethNames new := by
  induction new generalizing map with
  | nil => simp [vethNames]
  | cons b rest ih =>
    rw [List.foldl_cons,ih,AList.mem_erase]
    simp only [vethNames,List.map_cons,List.mem_cons]
    tauto

/-- The veths left to detach are those of the old list that the new list
does not have, in any iteration order. -/
theorem mem_leftover {old new : List Backend} {iter : IterOrder} {name : String} :
    name∈(iter.1 (new.foldl (fun map b => map.erase b.vethName) (byVethName old)).entries).keys ↔
      name∈vethNames old ∧ name∉vethNames new := by
  have hperm := iter.2 (new.foldl (fun map b => map.erase b.vethName) (byVethName old)).entries
  rw [List.keys,(hperm.map Sigma.fst).mem_iff]
  change name∈new.foldl (fun map b => map.erase b.vethName) (byVethName old) ↔ _
  rw [mem_foldl_erase,mem_byVethName]

/-- Calls of the three loops. -/
inductive LoopCall (order : ByteOrder) (p : Pool) (new : List Backend) : Call → Prop
  /-- A call of the first two loops. -/
  | slot {j : ℕ} {op : Call} (h : SlotCall order p.backends p.byVeth new j op) :
      LoopCall order p new op
  /-- Detaching a veth that only the old list has. -/
  | detach {name : String} (hold : name∈vethNames p.backends) (hnew : name∉vethNames new) :
      LoopCall order p new (.detachVethXDP name)

/-- Calls of a reconciliation from a pool to a list. -/
inductive SyncCall (order : ByteOrder) (p : Pool) (new : List Backend) : Call → Prop
  /-- A call of the loops. -/
  | loop {op : Call} (h : LoopCall order p new op) : SyncCall order p new op
  /-- Writing the configuration for the new list. -/
  | configure : SyncCall order p new (.putConfig 0 (poolConfig order p new))

/-- The loops do not write the configuration. -/
theorem LoopCall.not_configures {new : List Backend} {e : Step} (h : LoopCall order p new e.op) :
    configures e=false := by
  unfold configures
  generalize e.op=op at h
  cases h with
  | slot h => cases h <;> rfl
  | detach => rfl

/-- Slot calls keep the configuration. -/
theorem SlotCall.config {old new : List Backend} {attached : Finset String} {j : ℕ} {op : Call}
    (hop : SlotCall order old attached new j op) (fault : Fault) (world : World) :
    (step op fault world).after.configMap=world.configMap :=
  (step_changes op fault world).config (by cases hop <;> nofun)

/-- What one call of a reconciliation can do to the slot of a position: keep
it, zero it in place of an old address that is not kept there, or fill it
with the new element. -/
theorem SyncCall.slot {new : List Backend} {op : Call} {j : ℕ} (hop : SyncCall order p new op)
    (hj : j≤ maxBackends) (fault : Fault) (world : World) :
    (step op fault world).after.backendMap.lookup (UInt32.ofNat j)=
        world.backendMap.lookup (UInt32.ofNat j) ∨
      (op=.putBackend (UInt32.ofNat j) emptyBackend ∧
        (step op fault world).after.backendMap.lookup (UInt32.ofNat j)=some emptyBackend ∧
        ∃ previous,p.backends[j]?=some previous ∧
          ∀ b,new[j]?=some b → previous.ip.equal b.ip=false) ∨
      ∃ b,new[j]?=some b ∧ InSlot order (step op fault world).after j b := by
  by_cases hpart : part op=.slots
  · cases hop with
    | configure => contradiction
    | loop h =>
      cases h with
      | detach => contradiction
      | slot h =>
        cases h with
        | clearKey => contradiction
        | writeKey => contradiction
        | attach => contradiction
        | clearSlot hi hold hnew =>
          rcases (putBackend_touches _ emptyBackend none none fault world).slot (UInt32.ofNat j)
            with h|⟨he,h⟩
          · exact Or.inl h
          · obtain rfl := (ofNat_inj_of_le hj hi).mp he
            exact Or.inr (Or.inl ⟨rfl,h,_,hold,hnew⟩)
        | @writeSlot b v4 hi hnew hip =>
          rcases (putBackend_touches _ (backendInfo order v4 b.port b.mac) none none fault
            world).slot (UInt32.ofNat j) with h|⟨he,h⟩
          · exact Or.inl h
          · obtain rfl := (ofNat_inj_of_le hj hi).mp he
            exact Or.inr (Or.inr ⟨b,hnew,v4,hip,h⟩)
  · exact Or.inl (by rw [(step_changes op fault world).slots hpart])

/-- An execution of slot calls keeps the configuration at every point. -/
theorem config_of_slotCalls {α : Type} {program : Go α} {o : GoOutcome α} {old new : List Backend}
    {attached : Finset String} (hr : Runs handle program world o)
    (hcalls : ∀ e∈o.events,∃ j,SlotCall order old attached new j e.op) :
    (∀ e∈o.events,e.after.configMap=world.configMap) ∧ o.state.configMap=world.configMap :=
  hr.invariant (fun op => ∃ j,SlotCall order old attached new j op)
    (fun w => w.configMap=world.configMap)
    (fun _ fault w hop hw => (SlotCall.config hop.choose_spec fault w).trans hw) hcalls rfl

/-- An execution of detach calls keeps the maps at every point. -/
theorem maps_of_detachCalls {α : Type} {program : Go α} {o : GoOutcome α} {names : List String}
    (hr : Runs handle program world o)
    (hcalls : ∀ e∈o.events,∃ name∈names,e.op=.detachVethXDP name) :
    ∀ e∈o.events,e.after.configMap=world.configMap ∧ e.after.backendMap=world.backendMap ∧
      e.after.backendIpsMap=world.backendIpsMap := by
  refine (hr.invariant (fun op => ∃ name∈names,op=.detachVethXDP name)
    (fun w => w.configMap=world.configMap ∧ w.backendMap=world.backendMap ∧
      w.backendIpsMap=world.backendIpsMap) ?_ hcalls ⟨rfl,rfl,rfl⟩).1
  rintro op fault w ⟨name,_,rfl⟩ ⟨hc,hb,hi⟩
  have hmaps := step_changes (.detachVethXDP name) fault w
  exact ⟨(hmaps.config nofun).trans hc,(hmaps.slots nofun).trans hb,
    (hmaps.reverse nofun).trans hi⟩

/-- The first two loops, both completed. -/
structure SlotPhases (order : ByteOrder) (p : Pool) (new : List Backend) (world : World)
    (written : GoOutcome (Pool×VethMap×Option GoError)) (cleared : GoOutcome (Option GoError)) :
    Prop where
  /-- Description of the first loop. -/
  write : WriteSpec order new p 0 (byVethName p.backends) new world written
  /-- Description of the second loop. -/
  clear : ClearSpec order p.backends new new.length (p.backends.drop new.length) written.state
    cleared
  /-- Both loops issue slot calls. -/
  calls : ∀ e∈written.events++cleared.events,
    ∃ j,SlotCall order p.backends p.byVeth new j e.op
  /-- The configuration is kept at every point. -/
  config : ∀ e∈written.events++cleared.events,e.after.configMap=world.configMap
  /-- The configuration is kept at the end. -/
  configEnd : cleared.state.configMap=world.configMap
  /-- Agreement with the manager is kept. -/
  tracked : Tracked p world → Tracked written.value.1 cleared.state

/-- Description of the first two loops after a completed first one. -/
theorem slotPhases {new : List Backend} {written : GoOutcome (Pool×VethMap×Option GoError)}
    {cleared : GoOutcome (Option GoError)}
    (hw : Runs handle (writeBackends order p 0 (byVethName p.backends) new) world written)
    (hwrote : written.value.2.2=none)
    (hc : Runs handle (clearStale order new.length (written.value.1.backends.drop new.length))
      written.state cleared) : SlotPhases order p new world written cleared := by
  have hwrite := writeBackends_spec List.drop_zero.symm (Nat.zero_le _) hw
  have hlen := (hwrite.done hwrote).1
  rw [Nat.zero_add] at hlen
  have hbackends : written.value.1.backends=p.backends := by rw [hwrite.pool]
  rw [hbackends] at hc
  have hclear := clearStale_spec rfl hlen (Nat.le_refl new.length) hc
  have hfirst := config_of_slotCalls hw hwrite.calls
  have hsecond := config_of_slotCalls hc fun e hm =>
    (hclear.calls p.byVeth e hm).imp fun _ h => h.2
  refine ⟨hwrite,hclear,?_,?_,hsecond.2.trans hfirst.2,fun ht name => ?_⟩
  · intro e hm
    rcases List.mem_append.mp hm with h|h
    · exact hwrite.calls e h
    · exact (hclear.calls _ e h).imp fun _ hj => hj.2
  · intro e hm
    rcases List.mem_append.mp hm with h|h
    · exact hfirst.1 e h
    · exact (hsecond.1 e h).trans hfirst.2
  · rw [hclear.vethLinks]
    exact hwrite.tracked ht name

/-- The first three loops, the first two completed. -/
structure LoopPhases (order : ByteOrder) (p : Pool) (new : List Backend) (world : World)
    (written : GoOutcome (Pool×VethMap×Option GoError)) (cleared : GoOutcome (Option GoError))
    (detached : GoOutcome (Pool×Option GoError)) : Prop where
  /-- The first two loops. -/
  slots : SlotPhases order p new world written cleared
  /-- The settings and the remembered list are kept. -/
  pool : detached.value.1={p with byVeth := detached.value.1.byVeth}
  /-- All calls belong to the reconciliation. -/
  calls : ∀ e∈written.events++cleared.events++detached.events,LoopCall order p new e.op
  /-- The configuration is kept at every point. -/
  config : ∀ e∈written.events++cleared.events++detached.events,
    e.after.configMap=world.configMap
  /-- The third loop keeps the maps. -/
  maps : detached.state.configMap=world.configMap ∧
    detached.state.backendMap=cleared.state.backendMap ∧
    detached.state.backendIpsMap=cleared.state.backendIpsMap
  /-- Agreement with the manager is kept. -/
  tracked : Tracked p world → Tracked detached.value.1 detached.state
  /-- A completed third loop leaves the new veths and those that neither list
  has, of the veths attached before. -/
  veths : detached.value.2=none → ∀ name,name∈detached.value.1.byVeth ↔
    name∈vethNames new ∨ name∈p.byVeth ∧ name∉vethNames p.backends

/-- Description of the three loops after the first two were completed. -/
theorem loopPhases {new : List Backend} {iter : IterOrder}
    {written : GoOutcome (Pool×VethMap×Option GoError)} {cleared : GoOutcome (Option GoError)}
    {detached : GoOutcome (Pool×Option GoError)}
    (hw : Runs handle (writeBackends order p 0 (byVethName p.backends) new) world written)
    (hwrote : written.value.2.2=none)
    (hc : Runs handle (clearStale order new.length (written.value.1.backends.drop new.length))
      written.state cleared)
    (hd : Runs handle (detachStale written.value.1 (iter.1 written.value.2.1.entries))
      cleared.state detached) : LoopPhases order p new world written cleared detached := by
  have hslots := slotPhases hw hwrote hc
  have hdetach := detachStale_spec hd
  obtain ⟨_,hnames,hleft,_⟩ := hslots.write.done hwrote
  have hkeys : ∀ name,name∈(iter.1 written.value.2.1.entries).keys ↔
      name∈vethNames p.backends ∧ name∉vethNames new := by
    intro name
    rw [hleft]
    exact mem_leftover
  have hmaps := maps_of_detachCalls hd hdetach.calls
  refine ⟨hslots,?_,?_,?_,⟨hdetach.maps.1.trans hslots.configEnd,hdetach.maps.2⟩,
    fun ht => hdetach.tracked (hslots.tracked ht),fun hnone name => ?_⟩
  · have hpool := hdetach.pool
    rw [hslots.write.pool] at hpool
    exact hpool
  · intro e hm
    rcases List.mem_append.mp hm with h|h
    · exact .slot (hslots.calls e h).choose_spec
    · obtain ⟨name,hname,hop⟩ := hdetach.calls e h
      rw [hop]
      exact .detach ((hkeys name).mp hname).1 ((hkeys name).mp hname).2
  · intro e hm
    rcases List.mem_append.mp hm with h|h
    · exact hslots.config e h
    · exact (hmaps e h).1.trans hslots.configEnd
  · rw [hdetach.done hnone name,hkeys name,hnames name]
    change (name∈p.byVeth ∨ name∈vethNames new) ∧ _ ↔ _
    tauto

/-- Everything that one reconciliation guarantees, whatever fails. -/
structure Contract (order : ByteOrder) (p : Pool) (new : List Backend) (world : World)
    (o : GoOutcome (Pool×Option GoError)) : Prop where
  /-- All calls belong to the reconciliation of the two lists. -/
  calls : ∀ e∈o.events,SyncCall order p new e.op
  /-- The settings of the pool are kept. -/
  settings : o.value.1.vip=p.vip ∧ o.value.1.vport=p.vport ∧ o.value.1.srcMAC=p.srcMAC
  /-- Agreement with the manager is kept. -/
  tracked : Tracked p world → Tracked o.value.1 o.state
  /-- The configuration is written at the last point of a success only. -/
  config : ∀ e∈o.events,(configures e=true ∧ o.value.2=none ∧ e.after=o.state) ∨
    (configures e=false ∧ e.after.configMap=world.configMap)
  /-- A failure keeps the remembered list and the configuration. -/
  failed : o.value.2≠none → o.value.1.backends=p.backends ∧ o.state.configMap=world.configMap
  /-- A success remembers the list and has configured its length. -/
  done : o.value.2=none → o.value.1.backends=new ∧ new.length≤ maxBackends ∧
    o.state.configMap.lookup 0=some (poolConfig order p new)
  /-- A success has filled the slots of the list. -/
  filled : o.value.2=none → ∀ j b,new[j]?=some b → InSlot order o.state j b
  /-- A success has zeroed the other slots of the old list. -/
  zeroed : o.value.2=none → ∀ j b,new.length≤j → p.backends[j]?=some b →
    o.state.backendMap.lookup (UInt32.ofNat j)=some emptyBackend
  /-- A success has attached the new veths and detached the other old ones. -/
  veths : o.value.2=none → ∀ name,name∈o.value.1.byVeth ↔
    name∈vethNames new ∨ name∈p.byVeth ∧ name∉vethNames p.backends

/-- An execution that stopped in a loop. -/
theorem Contract.of_stopped {new : List Backend} {o : GoOutcome (Pool×Option GoError)}
    (herr : o.value.2≠none) (hpool : o.value.1={p with byVeth := o.value.1.byVeth})
    (hcalls : ∀ e∈o.events,SyncCall order p new e.op)
    (hconfig : ∀ e∈o.events,configures e=false ∧ e.after.configMap=world.configMap)
    (hend : o.state.configMap=world.configMap) (ht : Tracked p world → Tracked o.value.1 o.state) :
    Contract order p new world o := by
  refine ⟨hcalls,by rw [hpool]; exact ⟨rfl,rfl,rfl⟩,ht,fun e hm => Or.inr (hconfig e hm),
    fun _ => ⟨by rw [hpool],hend⟩,?_,?_,?_,?_⟩ <;> exact fun h => absurd h herr

/-- An execution that stopped before the configuration. -/
theorem Contract.of_loops {new : List Backend} {o : GoOutcome (Pool×Option GoError)}
    (herr : o.value.2≠none) (hpool : o.value.1={p with byVeth := o.value.1.byVeth})
    (hcalls : ∀ e∈o.events,LoopCall order p new e.op)
    (hconfig : ∀ e∈o.events,e.after.configMap=world.configMap)
    (hend : o.state.configMap=world.configMap) (ht : Tracked p world → Tracked o.value.1 o.state) :
    Contract order p new world o :=
  .of_stopped herr hpool (fun e hm => .loop (hcalls e hm))
    (fun e hm => ⟨(hcalls e hm).not_configures,hconfig e hm⟩) hend ht

section Configured

variable {new : List Backend} {written : GoOutcome (Pool×VethMap×Option GoError)}
variable {cleared : GoOutcome (Option GoError)} {detached o : GoOutcome (Pool×Option GoError)}
variable {fault : Fault}

/-- The calls of an execution that attempted the configuration. -/
theorem LoopPhases.configured_calls (hloops : LoopPhases order p new world written cleared detached)
    (hevents : o.events=written.events++cleared.events++detached.events++
      [step (.putConfig 0 (poolConfig order p new)) fault detached.state]) :
    ∀ e∈o.events,SyncCall order p new e.op := by
  rw [hevents]
  intro e hm
  rcases List.mem_append.mp hm with h|h
  · exact .loop (hloops.calls e h)
  · rw [List.mem_singleton.mp h]
    exact .configure

/-- An execution whose configuration was refused. -/
theorem LoopPhases.refused (hloops : LoopPhases order p new world written cleared detached)
    (herr : o.value.2≠none) (hpool : o.value.1=detached.value.1)
    (hreply : (step (.putConfig 0 (poolConfig order p new)) fault detached.state).reply≠none)
    (hstate : o.state=(step (.putConfig 0 (poolConfig order p new)) fault detached.state).after)
    (hevents : o.events=written.events++cleared.events++detached.events++
      [step (.putConfig 0 (poolConfig order p new)) fault detached.state]) :
    Contract order p new world o := by
  have hafter : o.state=detached.state := by
    rcases putConfig_cases 0 (poolConfig order p new) fault detached.state with ⟨_,he⟩|⟨h,_⟩
    · rw [hstate,he]
    · exact absurd h hreply
  refine .of_stopped herr ?_ (hloops.configured_calls hevents) ?_ ?_ ?_
  · rw [hpool]
    exact hloops.pool
  · rw [hevents]
    intro e hm
    rcases List.mem_append.mp hm with h|h
    · exact ⟨(hloops.calls e h).not_configures,hloops.config e h⟩
    · rw [List.mem_singleton.mp h,←hstate,hafter]
      exact ⟨Option.isNone_eq_false_iff.mpr (Option.isSome_iff_ne_none.mpr hreply),hloops.maps.1⟩
  · rw [hafter]
    exact hloops.maps.1
  · rw [hpool,hafter]
    exact hloops.tracked

/-- The world after an accepted configuration. -/
theorem configured_world
    (hreply : (step (.putConfig 0 (poolConfig order p new)) fault detached.state).reply=none)
    (hstate : o.state=(step (.putConfig 0 (poolConfig order p new)) fault detached.state).after) :
    o.state.configMap.lookup 0=some (poolConfig order p new) ∧
      o.state.backendMap=detached.state.backendMap ∧
      o.state.vethLinks=detached.state.vethLinks := by
  rcases putConfig_cases 0 (poolConfig order p new) fault detached.state with
    ⟨h,_⟩|⟨_,stored,hput,he⟩
  · exact absurd hreply h
  · rw [hstate,he]
    exact ⟨(ArrayMap.lookup_put hput 0).trans (if_pos rfl),rfl,rfl⟩

/-- An execution that completed. -/
theorem LoopPhases.completed (hloops : LoopPhases order p new world written cleared detached)
    (hwrote : written.value.2.2=none) (hclear : cleared.value=none)
    (hdetach : detached.value.2=none) (hnone : o.value.2=none)
    (hpool : o.value.1={detached.value.1 with backends := new})
    (hreply : (step (.putConfig 0 (poolConfig order p new)) fault detached.state).reply=none)
    (hstate : o.state=(step (.putConfig 0 (poolConfig order p new)) fault detached.state).after)
    (hevents : o.events=written.events++cleared.events++detached.events++
      [step (.putConfig 0 (poolConfig order p new)) fault detached.state]) :
    Contract order p new world o := by
  obtain ⟨hconfig,hslots,hlinks⟩ := configured_world hreply hstate
  obtain ⟨hlen,_,_,hfilled⟩ := hloops.slots.write.done hwrote
  rw [Nat.zero_add] at hlen
  rw [hloops.maps.2.1] at hslots
  refine ⟨hloops.configured_calls hevents,?_,?_,?_,fun h => absurd hnone h,
    fun _ => ⟨?_,hlen,hconfig⟩,?_,?_,?_⟩
  · rw [hpool,hloops.pool]
    exact ⟨rfl,rfl,rfl⟩
  · intro ht name
    rw [hpool,hlinks]
    exact hloops.tracked ht name
  · rw [hevents]
    intro e hm
    rcases List.mem_append.mp hm with h|h
    · exact Or.inr ⟨(hloops.calls e h).not_configures,hloops.config e h⟩
    · rw [List.mem_singleton.mp h,hstate]
      exact Or.inl ⟨Option.isNone_iff_eq_none.mpr hreply,hnone,rfl⟩
  · rw [hpool]
  · -- the second loop keeps the slots of the new list
    intro _ j b hb
    obtain ⟨v4,hv,hl⟩ := hfilled j b (Nat.zero_le j) hb
    refine ⟨v4,hv,?_⟩
    rw [hslots,hloops.slots.clear.earlier j (List.getElem?_eq_some_iff.mp hb).1]
    exact hl
  · intro _ j b hj hb
    rw [hslots]
    exact hloops.slots.clear.done hclear j b hj hb
  · intro _ name
    rw [hpool]
    exact hloops.veths hdetach name

end Configured

/-- Every execution of `sync` meets the contract. -/
theorem sync_contract {new : List Backend} {iter : IterOrder}
    {o : GoOutcome (Pool×Option GoError)}
    (hr : Runs handle (sync order p new iter) world o) : Contract order p new world o := by
  cases runs_sync hr with
  | writeFailed written hw hpool herr hstate hevents =>
    have hspec := writeBackends_spec List.drop_zero.symm (Nat.zero_le _) hw
    have hconfig := config_of_slotCalls hw hspec.calls
    refine .of_loops herr ?_ ?_ ?_ ?_ ?_
    · rw [hpool]
      exact hspec.pool
    · rw [hevents]
      exact fun e hm => .slot (hspec.calls e hm).choose_spec
    · rw [hevents]
      exact hconfig.1
    · rw [hstate]
      exact hconfig.2
    · rw [hpool,hstate]
      exact hspec.tracked
  | clearFailed written cleared hw hwrote hc hpool herr hstate hevents =>
    have hslots := slotPhases hw hwrote hc
    refine .of_loops herr ?_ ?_ ?_ ?_ ?_
    · rw [hpool]
      exact hslots.write.pool
    · rw [hevents]
      exact fun e hm => .slot (hslots.calls e hm).choose_spec
    · rw [hevents]
      exact hslots.config
    · rw [hstate]
      exact hslots.configEnd
    · rw [hpool,hstate]
      exact hslots.tracked
  | detachFailed written cleared detached hw hwrote hc hclear hd hpool herr hstate hevents =>
    have hloops := loopPhases hw hwrote hc hd
    refine .of_loops herr ?_ ?_ ?_ ?_ ?_
    · rw [hpool]
      exact hloops.pool
    · rw [hevents]
      exact hloops.calls
    · rw [hevents]
      exact hloops.config
    · rw [hstate]
      exact hloops.maps.1
    · rw [hpool,hstate]
      exact hloops.tracked
  | configured written cleared detached fault hw hwrote hc hclear hd hdetach hresult hstate
      hevents =>
    have hloops := loopPhases hw hwrote hc hd
    have hsame : poolConfig order detached.value.1 new=poolConfig order p new := by
      rw [hloops.pool]
      rfl
    rw [hsame] at hresult hstate hevents
    rcases hresult with ⟨herr,hpool,hreply⟩|⟨hnone,hpool,hreply⟩
    · exact hloops.refused herr hpool hreply hstate hevents
    · exact hloops.completed hwrote hclear hdetach hnone hpool hreply hstate hevents

end ContainerLb.SyncContract

import ContainerLb.SyncPhases
import ContainerLb.SlotEffects

/-!
# Effect of a reconciliation under arbitrary failures

The calls of each phase are characterised by the two lists alone. From the
success of a phase follow the slots and the veth names that it has treated,
whatever clearing failed on the way. The pool and the manager agree on the
attached veths after every execution that started in agreement.
-/

namespace ContainerLb.SyncEffects

open CallProgram BoundedMaps HostBytes NetAddresses BpfManager PoolSync ManagerSteps
open SyncPhases SlotEffects

variable {order : ByteOrder} {p : Pool} {world : World}

/-- Positions up to the map size survive the conversion to `uint32`. -/
theorem toNat_ofNat_of_le {j : ℕ} (hj : j≤ maxBackends) : (UInt32.ofNat j).toNat=j :=
  UInt32.toNat_ofNat_of_lt' (by
    simp only [maxBackends] at hj
    simp only [UInt32.size]
    omega)

/-- Positions of a list that fits the maps are existing slots. -/
theorem toNat_ofNat_lt {j n : ℕ} (hj : j<n) (hn : n≤ maxBackends) :
    (UInt32.ofNat j).toNat< maxBackends := by
  rw [toNat_ofNat_of_le (hj.le.trans hn)]
  exact hj.trans_le hn

/-- Different positions are different indices. -/
theorem ofNat_inj_of_le {i j : ℕ} (hi : i≤ maxBackends) (hj : j≤ maxBackends) :
    UInt32.ofNat i=UInt32.ofNat j ↔ i=j := by
  rw [←UInt32.toNat_inj,toNat_ofNat_of_le hi,toNat_ofNat_of_le hj]

/-- Head and tail of a suffix by position. -/
theorem drop_cons {α : Type} {list rest : List α} {b : α} {i : ℕ} (h : b::rest=list.drop i) :
    list[i]?=some b ∧ rest=list.drop (i+1) := by
  constructor
  · have hg : (list.drop i)[0]?=some b := by rw [←h]; rfl
    simpa using hg
  · rw [←List.drop_drop,←h]
    rfl

/-- Nothing stands behind an empty suffix. -/
theorem drop_nil {α : Type} {list : List α} {i j : ℕ} (h : []=list.drop i) (hj : i≤j) :
    list[j]?=none :=
  List.getElem?_eq_none ((List.drop_eq_nil_iff.mp h.symm).trans hj)

/-- Calls of the first two loops at a position, where they replace the old
element by the new one and attach what is not attached yet. -/
inductive SlotCall (order : ByteOrder) (old : List Backend) (attached : Finset String)
    (new : List Backend) (j : ℕ) : Call → Prop
  /-- Zero the slot of an old address that is not kept at its position. -/
  | clearSlot {previous : Backend} (hj : j≤ maxBackends) (hold : old[j]?=some previous)
      (hnew : ∀ b,new[j]?=some b → previous.ip.equal b.ip=false) :
      SlotCall order old attached new j (.putBackend (UInt32.ofNat j) emptyBackend)
  /-- Remove the key of such an address. -/
  | clearKey {previous : Backend} {key : UInt32} (hold : old[j]?=some previous)
      (hnew : ∀ b,new[j]?=some b → previous.ip.equal b.ip=false)
      (hkey : ipKey order previous.ip=some key) :
      SlotCall order old attached new j (.deleteBackendIp key)
  /-- Write a new backend into its slot. -/
  | writeSlot {b : Backend} {v4 : Quad} (hj : j≤ maxBackends) (hnew : new[j]?=some b)
      (hip : b.ip.to4=some v4) :
      SlotCall order old attached new j
        (.putBackend (UInt32.ofNat j) (backendInfo order v4 b.port b.mac))
  /-- Write the key of a new backend. -/
  | writeKey {b : Backend} {key : UInt32} (hnew : new[j]?=some b)
      (hkey : ipKey order b.ip=some key) :
      SlotCall order old attached new j (.putBackendIp key (UInt32.ofNat j))
  /-- Attach the veth of a new backend. -/
  | attach {b : Backend} (hnew : new[j]?=some b) (hv : b.vethName∉attached) :
      SlotCall order old attached new j (.attachVethXDP b.vethName b.vethIdx)

/-- Calls of an execution that started with more veths attached. -/
theorem SlotCall.mono {old new : List Backend} {attached more : Finset String} {j : ℕ} {op : Call}
    (hsub : attached⊆more) (h : SlotCall order old more new j op) :
    SlotCall order old attached new j op := by
  cases h with
  | clearSlot hj hold hnew => exact .clearSlot hj hold hnew
  | clearKey hold hnew hkey => exact .clearKey hold hnew hkey
  | writeSlot hj hnew hip => exact .writeSlot hj hnew hip
  | writeKey hnew hkey => exact .writeKey hnew hkey
  | attach hnew hv => exact .attach hnew fun hm => hv (hsub hm)

/-- What the first loop compares at a position. -/
theorem reusedBy_eq_some {old : List Backend} {i : ℕ} {b previous : Backend}
    (h : reusedBy old i b=some previous) :
    old[i]?=some previous ∧ previous.ip.equal b.ip=false := by
  unfold reusedBy at h
  split at h
  · contradiction
  · rename_i found hf
    split at h
    · contradiction
    · rename_i hne
      cases h
      exact ⟨hf,by simpa using hne⟩

/-- Calls of `ClearBackend` at an old position whose address is not kept. -/
theorem clearBackend_calls {old new : List Backend} {attached : Finset String} {j : ℕ}
    {previous : Backend} {o : GoOutcome (Option GoError)} (hj : j≤ maxBackends) (hold : old[j]?=some previous)
    (hnew : ∀ b,new[j]?=some b → previous.ip.equal b.ip=false)
    (hr : Runs handle (clearBackend order (UInt32.ofNat j) previous.ip) world o) :
    ∀ e∈o.events,SlotCall order old attached new j e.op := by
  have hslot : SlotCall order old attached new j (.putBackend (UInt32.ofNat j) emptyBackend) :=
    .clearSlot hj hold hnew
  obtain ⟨fault,⟨_,_,_,he⟩|⟨_,_,middle,_,⟨_,_,he⟩|⟨v4,fault',hv,_,he⟩⟩⟩ := runs_clearBackend hr
  · rw [he]
    simpa using hslot
  · rw [he]
    simpa using hslot
  · rw [he]
    have hkey : SlotCall order old attached new j (.deleteBackendIp (order.load32 v4)) :=
      .clearKey hold hnew (by rw [ipKey,hv,Option.map_some])
    intro e hm
    rcases List.mem_cons.mp hm with rfl|hm
    · exact hslot
    · rw [List.mem_singleton.mp hm]
      exact hkey

/-- Calls of the clearing inside the first loop. -/
theorem clearReused_calls {old new : List Backend} {attached : Finset String} {i : ℕ}
    {b : Backend} {o : GoOutcome Unit} (hi : i≤ maxBackends) (hb : new[i]?=some b)
    (hr : Runs handle (clearReused order old i b) world o) :
    ∀ e∈o.events,SlotCall order old attached new i e.op := by
  rcases runs_clearReused hr with ⟨_,_,he⟩|⟨previous,cleared,hp,hc,_,he⟩
  · rw [he]
    simp
  · rw [he]
    obtain ⟨hold,hne⟩ := reusedBy_eq_some hp
    refine clearBackend_calls hi hold (fun found hf => ?_) hc
    rw [hb] at hf
    cases hf
    exact hne

/-- Effect of the clearing inside the first loop. -/
theorem clearReused_touches {old : List Backend} {i : ℕ} {b : Backend} {o : GoOutcome Unit}
    (hr : Runs handle (clearReused order old i b) world o) :
    Touches (UInt32.ofNat i) emptyBackend
      ((reusedBy old i b).bind fun previous => ipKey order previous.ip) none world o.state := by
  rcases runs_clearReused hr with ⟨_,hs,_⟩|⟨previous,cleared,hp,hc,hs,_⟩
  · rw [hs]
    exact .refl ..
  · rw [hs,hp]
    exact clearBackend_touches hc

/-- Calls of `UpdateBackend` for a new backend at its position. -/
theorem updateBackend_calls {old new : List Backend} {attached : Finset String} {i : ℕ}
    {b : Backend} {o : GoOutcome (Option GoError)} (hi : i≤ maxBackends) (hb : new[i]?=some b)
    (hr : Runs handle (updateBackend order (UInt32.ofNat i) b.ip b.port b.mac) world o) :
    ∀ e∈o.events,SlotCall order old attached new i e.op := by
  rcases runs_updateBackend hr with ⟨_,_,_,he⟩|⟨v4,fault,hv,⟨_,_,_,he⟩|⟨_,_,fault',_,_,_,he⟩⟩
  · rw [he]
    simp
  · rw [he]
    have hslot : SlotCall order old attached new i (.putBackend (UInt32.ofNat i)
        (backendInfo order v4 b.port b.mac)) := .writeSlot hi hb hv
    simpa using hslot
  · rw [he]
    intro e hm
    rcases List.mem_cons.mp hm with rfl|hm
    · exact .writeSlot hi hb hv
    · rw [List.mem_singleton.mp hm]
      exact .writeKey hb (by rw [ipKey,hv,Option.map_some])

/-- The pool and the manager name the same attached veths. -/
def Tracked (p : Pool) (world : World) : Prop := ∀ name,name∈p.byVeth ↔ name∈world.vethLinks

/-- Effect of one iteration of the first loop, stopped or not. -/
structure BodySpec (order : ByteOrder) (new : List Backend) (p : Pool) (i : ℕ) (b : Backend)
    (world : World) (o : GoOutcome (Pool×Option GoError)) : Prop where
  /-- Only calls of the position are issued. -/
  calls : ∀ e∈o.events,SlotCall order p.backends p.byVeth new i e.op
  /-- Only the set of attached veths of the pool may change. -/
  pool : o.value.1={p with byVeth := o.value.1.byVeth}
  /-- All other slots are kept. -/
  others : ∀ index,index≠UInt32.ofNat i →
    o.state.backendMap.lookup index=world.backendMap.lookup index
  /-- Agreement with the manager is kept. -/
  tracked : Tracked p world → Tracked o.value.1 o.state
  /-- On success the slot holds the backend and its veth is attached. -/
  done : o.value.2=none → i+1≤ maxBackends ∧ o.value.1.byVeth=insert b.vethName p.byVeth ∧
    ∃ v4,b.ip.to4=some v4 ∧
      o.state.backendMap.lookup (UInt32.ofNat i)=some (backendInfo order v4 b.port b.mac)

/-- `UpdateBackend` keeps the other slots and the recorded links. -/
theorem updateBackend_kept {index : UInt32} {ip : IP} {port : UInt16} {mac : HardwareAddr}
    {o : GoOutcome (Option GoError)}
    (hr : Runs handle (updateBackend order index ip port mac) world o) :
    (∀ other,other≠index → o.state.backendMap.lookup other=world.backendMap.lookup other) ∧
      o.state.vethLinks=world.vethLinks := by
  cases hv : ip.to4 with
  | none =>
    obtain ⟨_,hs,_⟩ := updateBackend_notIPv4 hr hv
    rw [hs]
    exact ⟨fun _ _ => rfl,rfl⟩
  | some v4 =>
    have ht := updateBackend_touches hr hv
    exact ⟨fun _ => ht.kept,ht.vethLinks⟩

/-- A successful attach of a new name is recorded on both sides. -/
theorem Tracked.attach {vethName : String} {vethIfIndex : ℤ} {fault : Fault}
    (ht : Tracked p world)
    (hok : (step (.attachVethXDP vethName vethIfIndex) fault world).reply=none) :
    Tracked {p with byVeth := insert vethName p.byVeth}
      (step (.attachVethXDP vethName vethIfIndex) fault world).after := by
  intro name
  rw [Finset.mem_insert,ht name]
  rcases attachVethXDP_cases vethName vethIfIndex fault world with
    ⟨hr,_⟩|⟨_,he,hm⟩|⟨_,_,mode,he⟩
  · exact absurd hok hr
  · rw [he]
    constructor
    · rintro (rfl|h)
      · exact hm
      · exact h
    · exact Or.inr
  · rw [he]
    exact Finmap.mem_insert.symm

/-- A refused attach changes nothing. -/
theorem attachVethXDP_refused {vethName : String} {vethIfIndex : ℤ} {fault : Fault}
    (hr : (step (.attachVethXDP vethName vethIfIndex) fault world).reply≠none) :
    (step (.attachVethXDP vethName vethIfIndex) fault world).after=world := by
  rcases attachVethXDP_cases vethName vethIfIndex fault world with ⟨_,he,_⟩|⟨h,_⟩|⟨h,_⟩
  · exact he
  · exact absurd h hr
  · exact absurd h hr

/-- The body of the first loop meets its description. -/
theorem writeBackend_spec {new : List Backend} {i : ℕ} {b : Backend}
    {o : GoOutcome (Pool×Option GoError)} (hi : i≤ maxBackends) (hb : new[i]?=some b)
    (hr : Runs handle (writeBackend order p i b) world o) :
    BodySpec order new p i b world o := by
  obtain ⟨cleared,updated,hc,hu,hcases⟩ := runs_writeBackend hr
  have hcalls : ∀ e∈cleared.events++updated.events,
      SlotCall order p.backends p.byVeth new i e.op := by
    intro e hm
    rcases List.mem_append.mp hm with h|h
    · exact clearReused_calls hi hb hc e h
    · exact updateBackend_calls hi hb hu e h
  have htouch := clearReused_touches hc
  obtain ⟨hkept,hlinks⟩ := updateBackend_kept hu
  have hothers : ∀ index,index≠UInt32.ofNat i →
      updated.state.backendMap.lookup index=world.backendMap.lookup index :=
    fun index hne => (hkept index hne).trans (htouch.kept hne)
  have htracked : Tracked p world → Tracked p updated.state := by
    intro ht name
    rw [hlinks,htouch.vethLinks]
    exact ht name
  have hdone : updated.value=none → i+1≤ maxBackends ∧ ∃ v4,b.ip.to4=some v4 ∧
      updated.state.backendMap.lookup (UInt32.ofNat i)=some (backendInfo order v4 b.port b.mac) := by
    intro hok
    obtain ⟨v4,hv,hlt,hslot,_⟩ := updateBackend_done hu hok
    rw [toNat_ofNat_of_le hi] at hlt
    exact ⟨hlt,v4,hv,hslot⟩
  rcases hcases with ⟨_,hp,herr,hs,he⟩|⟨hok,hm,hval,hs,he⟩|⟨hok,hm,fault,hres,hs,he⟩
  · refine ⟨by rwa [he],by rw [hp],by rwa [hs],by rwa [hp,hs],fun h => absurd h herr⟩
  · refine ⟨by rwa [he],by rw [hval],by rwa [hs],by rwa [hval,hs],fun _ => ?_⟩
    rw [hval,hs]
    exact ⟨(hdone hok).1,(Finset.insert_eq_of_mem hm).symm,(hdone hok).2⟩
  · have hmaps := (step_changes (.attachVethXDP b.vethName b.vethIdx) fault updated.state).slots nofun
    have hattach : SlotCall order p.backends p.byVeth new i
        (.attachVethXDP b.vethName b.vethIdx) := .attach hb hm
    refine ⟨?_,?_,?_,?_,?_⟩
    · rw [he]
      intro e hmem
      rcases List.mem_append.mp hmem with h|h
      · exact hcalls e h
      · rw [List.mem_singleton.mp h]
        exact hattach
    · rcases hres with ⟨_,hp,_⟩|⟨_,hval⟩
      · rw [hp]
      · rw [hval]
    · rwa [hs,hmaps]
    · intro ht
      rcases hres with ⟨hr,hp,_⟩|⟨hr,hval⟩
      · rw [hp,hs,attachVethXDP_refused hr]
        exact htracked ht
      · rw [hval,hs]
        exact (htracked ht).attach hr
    · intro hnone
      rcases hres with ⟨_,_,herr⟩|⟨_,hval⟩
      · exact absurd hnone herr
      · rw [hval,hs,hmaps]
        exact ⟨(hdone hok).1,rfl,(hdone hok).2⟩

/-- A backend stands encoded in the slot of its position. -/
def InSlot (order : ByteOrder) (world : World) (j : ℕ) (b : Backend) : Prop :=
  ∃ v4,b.ip.to4=some v4 ∧
    world.backendMap.lookup (UInt32.ofNat j)=some (backendInfo order v4 b.port b.mac)

/-- Only the slot itself matters for this. -/
theorem InSlot.congr {world' : World} {j : ℕ} {b : Backend} (h : InSlot order world j b)
    (hslot : world'.backendMap.lookup (UInt32.ofNat j)=
      world.backendMap.lookup (UInt32.ofNat j)) : InSlot order world' j b := by
  obtain ⟨v4,hv,hl⟩ := h
  exact ⟨v4,hv,hslot.trans hl⟩

/-- Effect of the first loop from a position on, stopped or not. -/
structure WriteSpec (order : ByteOrder) (new : List Backend) (p : Pool) (i : ℕ)
    (oldByVeth : VethMap) (rest : List Backend) (world : World)
    (o : GoOutcome (Pool×VethMap×Option GoError)) : Prop where
  /-- Only calls of the positions are issued. -/
  calls : ∀ e∈o.events,∃ j,SlotCall order p.backends p.byVeth new j e.op
  /-- Only the set of attached veths of the pool may change. -/
  pool : o.value.1={p with byVeth := o.value.1.byVeth}
  /-- Slots before the position are kept. -/
  earlier : ∀ j< i,o.state.backendMap.lookup (UInt32.ofNat j)=
    world.backendMap.lookup (UInt32.ofNat j)
  /-- Agreement with the manager is kept. -/
  tracked : Tracked p world → Tracked o.value.1 o.state
  /-- On success all positions fit and are filled, all veths are attached and
  none of them is left to detach. -/
  done : o.value.2.2=none → i+rest.length≤ maxBackends ∧
    (∀ name,name∈o.value.1.byVeth ↔ name∈p.byVeth ∨ name∈rest.map Backend.vethName) ∧
    o.value.2.1=rest.foldl (fun map b => map.erase b.vethName) oldByVeth ∧
    ∀ j b,i≤j → new[j]?=some b → InSlot order o.state j b

/-- The first loop meets its description. -/
theorem writeBackends_spec {new rest : List Backend} {i : ℕ} {oldByVeth : VethMap}
    {o : GoOutcome (Pool×VethMap×Option GoError)} (hrest : rest=new.drop i)
    (hi : i≤ maxBackends) (hr : Runs handle (writeBackends order p i oldByVeth rest) world o) :
    WriteSpec order new p i oldByVeth rest world o := by
  induction rest generalizing p i oldByVeth world o with
  | nil =>
    obtain rfl := runs_done.mp hr
    refine ⟨by simp,rfl,fun _ _ => rfl,id,fun _ => ⟨hi,by simp,rfl,fun j b hj hb => ?_⟩⟩
    rw [drop_nil hrest hj] at hb
    contradiction
  | cons b rest ih =>
    obtain ⟨hb,htail⟩ := drop_cons hrest
    obtain ⟨body,hbody,hcases⟩ := runs_writeBackends_cons hr
    have hspec := writeBackend_spec hi hb hbody
    have hbefore : ∀ j< i,body.state.backendMap.lookup (UInt32.ofNat j)=
        world.backendMap.lookup (UInt32.ofNat j) := by
      intro j hj
      refine hspec.others _ fun he => ?_
      rw [ofNat_inj_of_le (by omega) hi] at he
      omega
    rcases hcases with ⟨_,hp,herr,hs,he⟩|⟨hok,tail,ht,rfl⟩
    · exact ⟨by rw [he]; exact fun e hm => ⟨i,hspec.calls e hm⟩,by rw [hp]; exact hspec.pool,by rwa [hs],
        by rw [hp,hs]; exact hspec.tracked,fun h => absurd h herr⟩
    · obtain ⟨hi',hveth,hslot⟩ := hspec.done hok
      have hih := ih htail hi' ht
      have hpb : body.value.1.backends=p.backends := by rw [hspec.pool]
      refine ⟨?_,?_,fun j hj => ?_,fun h => hih.tracked (hspec.tracked h),fun hnone => ?_⟩
      · intro e hm
        rcases List.mem_append.mp hm with h|h
        · exact ⟨i,hspec.calls e h⟩
        · obtain ⟨j,hcall⟩ := hih.calls e h
          rw [hpb,hveth] at hcall
          exact ⟨j,hcall.mono (Finset.subset_insert _ _)⟩
      · have hpool := hih.pool
        rw [hspec.pool] at hpool
        exact hpool
      · exact (hih.earlier j (by omega)).trans (hbefore j hj)
      · obtain ⟨hlen,hnames,hleft,hslots⟩ := hih.done hnone
        refine ⟨by rw [List.length_cons]; omega,fun name => ?_,hleft,fun j c hj hc => ?_⟩
        · refine (hnames name).trans ?_
          rw [hveth,Finset.mem_insert,List.map_cons,List.mem_cons]
          tauto
        · rcases Nat.eq_or_lt_of_le hj with rfl|hlt
          · rw [hb] at hc
            cases hc
            obtain ⟨v4,hv,hl⟩ := hslot
            exact ⟨v4,hv,(hih.earlier i (by omega)).trans hl⟩
          · exact hslots j c hlt hc

/-- Effect of the second loop from an index on, stopped or not. -/
structure ClearSpec (order : ByteOrder) (old new : List Backend) (idx : ℕ) (rest : List Backend)
    (world : World) (o : GoOutcome (Option GoError)) : Prop where
  /-- Only calls of the positions are issued. -/
  calls : ∀ attached,∀ e∈o.events,∃ j,idx≤j ∧ SlotCall order old attached new j e.op
  /-- Slots before the index are kept. -/
  earlier : ∀ j< idx,o.state.backendMap.lookup (UInt32.ofNat j)=
    world.backendMap.lookup (UInt32.ofNat j)
  /-- Recorded links are kept. -/
  vethLinks : o.state.vethLinks=world.vethLinks
  /-- On success all slots from the index on that the old list used are zero. -/
  done : o.value=none → ∀ j b,idx≤j → old[j]?=some b →
    o.state.backendMap.lookup (UInt32.ofNat j)=some emptyBackend

/-- The second loop meets its description. -/
theorem clearStale_spec {old new rest : List Backend} {idx : ℕ} {o : GoOutcome (Option GoError)}
    (hrest : rest=old.drop idx) (hidx : idx≤ maxBackends) (hnew : new.length≤ idx)
    (hr : Runs handle (clearStale order idx rest) world o) :
    ClearSpec order old new idx rest world o := by
  induction rest generalizing idx world o with
  | nil =>
    obtain rfl := runs_done.mp hr
    refine ⟨by simp,fun _ _ => rfl,rfl,fun _ j b hj hb => ?_⟩
    have hlen : old.length≤ idx := List.drop_eq_nil_iff.mp hrest.symm
    rw [List.getElem?_eq_none (by omega)] at hb
    contradiction
  | cons b rest ih =>
    obtain ⟨hb,htail⟩ := drop_cons hrest
    obtain ⟨cleared,hc,hcases⟩ := runs_clearStale_cons hr
    have hfresh : ∀ c,new[idx]?=some c → b.ip.equal c.ip=false := by
      intro c hc
      rw [List.getElem?_eq_none hnew] at hc
      contradiction
    have hcalls := fun attached => @clearBackend_calls _ _ _ _ attached _ _ _ hidx hb hfresh hc
    have htouch := clearBackend_touches hc
    have hbefore : ∀ j< idx,cleared.state.backendMap.lookup (UInt32.ofNat j)=
        world.backendMap.lookup (UInt32.ofNat j) := by
      intro j hj
      refine htouch.kept fun he => ?_
      rw [ofNat_inj_of_le (by omega) hidx] at he
      omega
    rcases hcases with ⟨_,herr,hs,he⟩|⟨hok,tail,ht,rfl⟩
    · exact ⟨by rw [he]; exact fun attached e hm => ⟨idx,Nat.le_refl _,hcalls attached e hm⟩,
        by rwa [hs],by rw [hs,htouch.vethLinks],fun h => absurd h herr⟩
    · obtain ⟨hlt,hslot⟩ := clearBackend_done hc hok
      rw [toNat_ofNat_of_le hidx] at hlt
      have hih := ih htail hlt (by omega) ht
      refine ⟨?_,fun j hj => ?_,?_,fun hnone j c hj hcj => ?_⟩
      · intro attached e hm
        rcases List.mem_append.mp hm with h|h
        · exact ⟨idx,Nat.le_refl _,hcalls attached e h⟩
        · obtain ⟨j,hj,hcall⟩ := hih.calls attached e h
          exact ⟨j,by omega,hcall⟩
      · exact (hih.earlier j (by omega)).trans (hbefore j hj)
      · exact hih.vethLinks.trans htouch.vethLinks
      · rcases Nat.eq_or_lt_of_le hj with rfl|hjlt
        · exact (hih.earlier idx (by omega)).trans hslot
        · exact hih.done hnone j c hjlt hcj

/-- A successful detach is recorded on both sides. -/
theorem Tracked.detach {vethName : String} {fault : Fault} (ht : Tracked p world)
    (hok : (step (.detachVethXDP vethName) fault world).reply=none) :
    Tracked {p with byVeth := p.byVeth.erase vethName}
      (step (.detachVethXDP vethName) fault world).after := by
  intro name
  rw [Finset.mem_erase,ht name]
  rcases detachVethXDP_cases vethName fault world with ⟨hr,_⟩|⟨_,he,hm⟩|⟨_,l,_,he⟩
  · exact absurd hok hr
  · rw [he]
    exact ⟨And.right,fun h => ⟨fun hn => hm (hn ▸ h),h⟩⟩
  · rw [he]
    exact Finmap.mem_erase.symm

/-- Effect of the third loop, stopped or not. -/
structure DetachSpec (p : Pool) (entries : VethEntries) (world : World)
    (o : GoOutcome (Pool×Option GoError)) : Prop where
  /-- Only listed veths are detached. -/
  calls : ∀ e∈o.events,∃ name∈entries.keys,e.op=.detachVethXDP name
  /-- Only the set of attached veths of the pool may change. -/
  pool : o.value.1={p with byVeth := o.value.1.byVeth}
  /-- The maps are kept. -/
  maps : o.state.configMap=world.configMap ∧ o.state.backendMap=world.backendMap ∧
    o.state.backendIpsMap=world.backendIpsMap
  /-- Agreement with the manager is kept. -/
  tracked : Tracked p world → Tracked o.value.1 o.state
  /-- On success exactly the listed veths are gone. -/
  done : o.value.2=none → ∀ name,name∈o.value.1.byVeth ↔ name∈p.byVeth ∧ name∉entries.keys

/-- The third loop meets its description. -/
theorem detachStale_spec {entries : VethEntries} {o : GoOutcome (Pool×Option GoError)}
    (hr : Runs handle (detachStale p entries) world o) : DetachSpec p entries world o := by
  induction entries generalizing p world o with
  | nil =>
    obtain rfl := runs_done.mp hr
    exact ⟨by simp,rfl,⟨rfl,rfl,rfl⟩,id,fun _ => by simp⟩
  | cons entry rest ih =>
    obtain ⟨vethName,old⟩ := entry
    obtain ⟨fault,⟨_,hp,herr,hs,he⟩|⟨hok,tail,ht,rfl⟩⟩ := runs_detachStale_cons hr
    · refine ⟨?_,by rw [hp],by rw [hs]; exact ⟨rfl,rfl,rfl⟩,by rw [hp,hs]; exact id,
        fun h => absurd h herr⟩
      rw [he]
      intro e hm
      rw [List.mem_singleton.mp hm]
      exact ⟨vethName,by simp,rfl⟩
    · have hih := ih ht
      have hmaps := step_changes (.detachVethXDP vethName) fault world
      refine ⟨?_,hih.pool,?_,fun h => hih.tracked (h.detach hok),fun hnone name => ?_⟩
      · intro e hm
        rcases List.mem_append.mp hm with h|h
        · rw [List.mem_singleton.mp h]
          exact ⟨vethName,by simp,rfl⟩
        · obtain ⟨name,hname,hop⟩ := hih.calls e h
          exact ⟨name,by simp [hname],hop⟩
      · exact ⟨hih.maps.1.trans (hmaps.config nofun),hih.maps.2.1.trans (hmaps.slots nofun),
          hih.maps.2.2.trans (hmaps.reverse nofun)⟩
      · refine (hih.done hnone name).trans ?_
        rw [Finset.mem_erase,List.keys_cons,List.mem_cons]
        tauto

end ContainerLb.SyncEffects

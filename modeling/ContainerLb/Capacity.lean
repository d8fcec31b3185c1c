import ContainerLb.Convergence
import ContainerLb.Snapshot
import ContainerLb.DockerDiscovery

/-!
# Lists that fit the maps

The reverse map has as many entries as there are slots and holds keys of the
old and of the new list while one replaces the other. At each position the
old key is removed before the new one is stored, so the keys never outnumber
the positions. Hence a list of at most the map size with IPv4 addresses is
synced whenever the environment imposes no failure.
-/

namespace ContainerLb.Capacity

open CallProgram BoundedMaps HostBytes NetAddresses BpfManager PoolSync ManagerSteps
open SyncPhases SlotEffects SyncEffects SyncContract PoolRuns ReverseMap KeyedReplacement
open Convergence Snapshot DockerDiscovery PacketPath DnatRefinement

variable {order : ByteOrder} {p : Pool} {world : World} {old new : List Backend}

/-- The environment lets a call succeed; of the two modes of an attach one is
enough. -/
def Permitted : Call → Fault → Prop
  | .attachVethXDP _ _,fault => fault.first=none ∨ fault.second=none
  | _,fault => fault.first=none

instance (op : Call) (fault : Fault) : Decidable (Permitted op fault) := by
  unfold Permitted
  split <;> infer_instance

/-- A permitted attach is accepted. -/
theorem attachVethXDP_accepted {vethName : String} {vethIfIndex : ℤ} {fault : Fault}
    (h : Permitted (.attachVethXDP vethName vethIfIndex) fault) :
    (step (.attachVethXDP vethName vethIfIndex) fault world).reply=none := by
  simp only [step,answer,handle,attachVethXDP,attachXDP]
  split
  · rfl
  · cases hf : fault.first with
    | none => rfl
    | some error =>
      have hs : fault.second=none := h.resolve_left (by simp [hf])
      rw [hs]

/-- A permitted detach is accepted. -/
theorem detachVethXDP_accepted {vethName : String} {fault : Fault}
    (h : fault.first=none) : (step (.detachVethXDP vethName) fault world).reply=none := by
  simp only [step,answer,handle,detachVethXDP]
  cases world.vethLinks.lookup vethName with
  | none => rfl
  | some l => rw [h]

/-- A permitted configuration is accepted. -/
theorem putConfig_accepted {config : LbConfig} {fault : Fault} (h : fault.first=none) :
    (step (.putConfig 0 config) fault world).reply=none := by
  have hput := @ArrayMap.put_of_lt _ _ world.configMap 0 config (by decide)
  simp only [step,answer,handle,hput,h]
  rfl

/-- A permitted key is accepted when it is there or the map is not full. -/
theorem putBackendIp_accepted {key index : UInt32} {fault : Fault} (h : fault.first=none)
    (hroom : world.backendIpsMap.lookup key≠none ∨
      world.backendIpsMap.entries.keys.card< maxBackends) :
    (step (.putBackendIp key index) fault world).reply=none := by
  obtain ⟨written,hput⟩ := HashMap.put_of_room index hroom
  simp only [step,answer,handle,hput,h]
  rfl

/-- The keys are no more than the elements that they belong to. -/
theorem KeysWithin.card_le {backends : List Backend} (h : KeysWithin order world backends) :
    world.backendIpsMap.entries.keys.card≤backends.length := by
  have hsub : world.backendIpsMap.entries.keys⊆
      (backends.filterMap fun b => ipKey order b.ip).toFinset := by
    intro k hk
    obtain ⟨b,hb,hkey⟩ := h k (HashMap.mem_keys_iff.mp hk)
    exact List.mem_toFinset.mpr (List.mem_filterMap.mpr ⟨b,hb,hkey⟩)
  calc world.backendIpsMap.entries.keys.card
      ≤ (backends.filterMap fun b => ipKey order b.ip).toFinset.card := Finset.card_le_card hsub
    _ ≤ (backends.filterMap fun b => ipKey order b.ip).length := List.toFinset_card_le _
    _ ≤ backends.length := List.length_filterMap_le _ _

/-- Clearing an existing slot does not fail when it is permitted. -/
theorem clearBackend_permitted {index : UInt32} {ip : IP} {o : GoOutcome (Option GoError)}
    (hindex : index.toNat< maxBackends) (hr : Runs handle (clearBackend order index ip) world o)
    (hfree : ∀ e∈o.events,Permitted e.op e.label) : ∀ e∈o.events,Unfailing e := by
  obtain ⟨fault,⟨hrefused,_,_,he⟩|⟨hput,_,middle,_,hrest⟩⟩ := runs_clearBackend hr
  · rw [he,List.forall_mem_singleton] at hfree
    exact absurd ((putBackend_reply hindex).mpr hfree) hrefused
  · rcases hrest with ⟨_,_,he⟩|⟨v4,fault',_,_,he⟩
    · rw [he,List.forall_mem_singleton]
      exact Or.inl hput
    · rw [he,List.forall_mem_cons,List.forall_mem_singleton] at hfree ⊢
      exact ⟨Or.inl hput,Or.inr ⟨rfl,hfree.2⟩⟩

/-- Writing a backend into an existing slot does not fail when it is
permitted and its key is there or fits. Only an address that is not IPv4 is
refused. -/
theorem updateBackend_permitted {index : UInt32} {ip : IP} {port : UInt16} {mac : HardwareAddr}
    {o : GoOutcome (Option GoError)} (hindex : index.toNat< maxBackends)
    (hroom : ∀ v4,ip.to4=some v4 → world.backendIpsMap.lookup (order.load32 v4)≠none ∨
      world.backendIpsMap.entries.keys.card< maxBackends)
    (hr : Runs handle (updateBackend order index ip port mac) world o)
    (hfree : ∀ e∈o.events,Permitted e.op e.label) :
    (∀ e∈o.events,Unfailing e) ∧ (ip.to4≠none → o.value=none) := by
  rcases runs_updateBackend hr with ⟨hip,_,_,he⟩|⟨v4,fault,hip,⟨hrefused,_,_,he⟩|
    ⟨hput,middle,fault',hmiddle,hvalue,_,he⟩⟩
  · rw [he]
    exact ⟨List.forall_mem_nil _,fun h => absurd hip h⟩
  · rw [he,List.forall_mem_singleton] at hfree
    exact absurd ((putBackend_reply hindex).mpr hfree) hrefused
  · rw [he,List.forall_mem_cons,List.forall_mem_singleton] at hfree ⊢
    have hsame : middle.backendIpsMap=world.backendIpsMap := by
      rw [hmiddle]
      exact (step_changes (.putBackend _ _) fault world).reverse nofun
    have hkey := hroom v4 hip
    rw [←hsame] at hkey
    have haccepted := @putBackendIp_accepted _ _ index _ hfree.2 hkey
    exact ⟨⟨Or.inl hput,Or.inl haccepted⟩,fun _ => hvalue.mpr haccepted⟩

/-- The elements whose keys may be registered when the first `n` positions of
the old list are replaced. -/
def swapped (old new : List Backend) (n : ℕ) : List Backend := new.take n++old.drop n

/-- An element before or after one more replaced position. -/
theorem mem_swapped_succ {n : ℕ} {c : Backend} :
    c∈swapped old new (n+1) ↔ c∈new.take n ∨ new[n]?=some c ∨ c∈old.drop (n+1) := by
  rw [swapped,List.take_add_one,List.mem_append,List.mem_append,Option.mem_toList,or_assoc]

/-- An element before a position is replaced. -/
theorem mem_swapped {n : ℕ} {c : Backend} :
    c∈swapped old new n ↔ c∈new.take n ∨ old[n]?=some c ∨ c∈old.drop (n+1) := by
  rw [swapped,List.drop_eq_getElem?_toList_append,List.mem_append,List.mem_append,
    Option.mem_toList]

/-- The clearing inside the first loop does not fail when it is permitted. -/
theorem clearReused_permitted {i : ℕ} {b : Backend} {o : GoOutcome Unit} (hi : i< maxBackends)
    (hr : Runs handle (clearReused order old i b) world o)
    (hfree : ∀ e∈o.events,Permitted e.op e.label) : ∀ e∈o.events,Unfailing e := by
  rcases runs_clearReused hr with ⟨_,_,he⟩|⟨previous,cleared,_,hc,_,he⟩
  · rw [he]
    exact List.forall_mem_nil _
  · rw [he] at hfree ⊢
    exact clearBackend_permitted (toNat_ofNat_lt hi le_rfl) hc hfree

/-- Once a key that is about to be stored is absent, so is the old one of its
position, and there is room. -/
theorem clearReused_room {i : ℕ} {b : Backend} {v4 : Quad} {o : GoOutcome Unit}
    (hi : i< maxBackends) (hlen : old.length≤ maxBackends) (hv : b.ip.to4=some v4)
    (hk : KeysWithin order world (swapped old new i))
    (hr : Runs handle (clearReused order old i b) world o) (hu : ∀ e∈o.events,Unfailing e) :
    o.state.backendIpsMap.lookup (order.load32 v4)≠none ∨
      o.state.backendIpsMap.entries.keys.card< maxBackends := by
  by_cases hnone : o.state.backendIpsMap.lookup (order.load32 v4)=none
  · right
    have hwithin : KeysWithin order o.state (new.take i++old.drop (i+1)) := by
      intro k hlookup
      have hne : order.load32 v4≠k := fun he => hlookup (he ▸ hnone)
      have hkeys := clearReused_keys hr hu k
      by_cases hgone : keyAt order old i=some k
      · rw [if_pos ((reusedBy_key hv hne).mpr hgone)] at hkeys
        exact absurd hkeys hlookup
      · rw [if_neg (fun h => hgone ((reusedBy_key hv hne).mp h))] at hkeys
        rw [hkeys] at hlookup
        obtain ⟨c,hc,hkey⟩ := hk k hlookup
        rcases mem_swapped.mp hc with hc|hc|hc
        · exact ⟨c,List.mem_append_left _ hc,hkey⟩
        · exact absurd (keyAt_eq_some.mpr ⟨c,hc,hkey⟩) hgone
        · exact ⟨c,List.mem_append_right _ hc,hkey⟩
    have hcard := KeysWithin.card_le hwithin
    rw [List.length_append,List.length_take,List.length_drop] at hcard
    omega
  · exact Or.inl hnone

/-- The body of the first loop does not fail when it is permitted. -/
theorem writeBackend_unfailing {i : ℕ} {b : Backend} {o : GoOutcome (Pool×Option GoError)}
    (hold : p.backends=old) (hi : i< maxBackends) (hlen : old.length≤ maxBackends)
    (hr : Runs handle (writeBackend order p i b) world o)
    (hfree : ∀ e∈o.events,Permitted e.op e.label)
    (hk : KeysWithin order world (swapped old new i)) :
    (∀ e∈o.events,Unfailing e) ∧ (b.ip.to4≠none → o.value.2=none) := by
  obtain ⟨cleared,updated,hc,hup,hcases⟩ := runs_writeBackend hr
  rw [hold] at hc
  -- whatever follows them, the clearing and the write are executed
  have hboth : (∀ e∈cleared.events++updated.events,Permitted e.op e.label) →
      (∀ e∈cleared.events++updated.events,Unfailing e) ∧ (b.ip.to4≠none → updated.value=none) := by
    intro hpermitted
    rw [List.forall_mem_append] at hpermitted ⊢
    have hclear := clearReused_permitted hi hc hpermitted.1
    have hupdate := updateBackend_permitted (toNat_ofNat_lt hi le_rfl)
      (fun v4 hv => clearReused_room hi hlen hv hk hc hclear) hup hpermitted.2
    exact ⟨⟨hclear,hupdate.1⟩,hupdate.2⟩
  rcases hcases with ⟨hv,_,_,_,he⟩|⟨_,_,hvalue,_,he⟩|⟨_,_,fault,hattach,_,he⟩
  · rw [he] at hfree ⊢
    exact ⟨(hboth hfree).1,fun hip => absurd ((hboth hfree).2 hip) hv⟩
  · rw [he] at hfree ⊢
    exact ⟨(hboth hfree).1,fun _ => by rw [hvalue]⟩
  · rw [he,List.forall_mem_append,List.forall_mem_singleton] at hfree ⊢
    have haccepted := @attachVethXDP_accepted updated.state _ _ _ hfree.2
    refine ⟨⟨(hboth hfree.1).1,Or.inl haccepted⟩,fun _ => ?_⟩
    · rcases hattach with ⟨hrefused,_⟩|⟨_,hvalue⟩
      · exact absurd haccepted hrefused
      · rw [hvalue]

/-- The body of the first loop keeps the keys within what is left of the old
list and what is written of the new one. -/
theorem writeBackend_swaps {i : ℕ} {b : Backend} {o : GoOutcome (Pool×Option GoError)}
    (hold : p.backends=old) (hb : new[i]?=some b)
    (hr : Runs handle (writeBackend order p i b) world o) (hok : o.value.2=none)
    (hu : ∀ e∈o.events,Unfailing e) (hk : KeysWithin order world (swapped old new i)) :
    KeysWithin order o.state (swapped old new (i+1)) := by
  intro k hlookup
  rw [writeBackend_keys hb hr hok hu k,hold] at hlookup
  by_cases hnew : keyAt order new i=some k
  · obtain ⟨c,hc,hkey⟩ := keyAt_eq_some.mp hnew
    exact ⟨c,mem_swapped_succ.mpr (Or.inr (Or.inl hc)),hkey⟩
  · rw [touchAt,if_neg hnew] at hlookup
    by_cases hgone : keyAt order old i=some k
    · rw [if_pos hgone] at hlookup
      exact absurd rfl hlookup
    · rw [if_neg hgone] at hlookup
      obtain ⟨c,hc,hkey⟩ := hk k hlookup
      rcases mem_swapped.mp hc with hc|hc|hc
      · exact ⟨c,mem_swapped_succ.mpr (Or.inl hc),hkey⟩
      · exact absurd (keyAt_eq_some.mpr ⟨c,hc,hkey⟩) hgone
      · exact ⟨c,mem_swapped_succ.mpr (Or.inr (Or.inr hc)),hkey⟩

/-- The first loop does not fail when it is permitted, up to an address that
is not IPv4, and swaps the keys of its positions. -/
theorem writeBackends_permitted {rest : List Backend} {i : ℕ} {oldByVeth : VethMap}
    {o : GoOutcome (Pool×VethMap×Option GoError)} (hold : p.backends=old)
    (hrest : rest=new.drop i) (hnew : new.length≤ maxBackends) (hlen : old.length≤ maxBackends)
    (hr : Runs handle (writeBackends order p i oldByVeth rest) world o)
    (hfree : ∀ e∈o.events,Permitted e.op e.label)
    (hk : KeysWithin order world (swapped old new i)) :
    (∀ e∈o.events,Unfailing e) ∧ ((∀ b∈rest,b.ip.to4≠none) → o.value.2.2=none) ∧
      (o.value.2.2=none → KeysWithin order o.state (swapped old new (i+rest.length))) := by
  induction rest generalizing p i oldByVeth world o with
  | nil =>
    obtain rfl := runs_done.mp hr
    exact ⟨List.forall_mem_nil _,fun _ => rfl,fun _ => hk⟩
  | cons b rest ih =>
    obtain ⟨hb,htail⟩ := drop_cons hrest
    have hi : i< maxBackends := by
      have := (List.getElem?_eq_some_iff.mp hb).1
      omega
    obtain ⟨body,hbody,⟨herr,_,hv,_,he⟩|⟨hnone,tail,ht,rfl⟩⟩ := runs_writeBackends_cons hr
    · rw [he] at hfree ⊢
      have hall := writeBackend_unfailing hold hi hlen hbody hfree hk
      exact ⟨hall.1,fun hips => absurd (hall.2 (hips b List.mem_cons_self)) herr,
        fun hok => absurd hok hv⟩
    · have hparts := List.forall_mem_append.mp hfree
      have hall := writeBackend_unfailing hold hi hlen hbody hparts.1 hk
      have hpool : body.value.1.backends=old := by
        rw [(writeBackend_spec hi.le hb hbody).pool]
        exact hold
      have hih := ih hpool htail ht hparts.2 (writeBackend_swaps hold hb hbody hnone hall.1 hk)
      rw [List.length_cons,Nat.add_comm rest.length,←Nat.add_assoc]
      exact ⟨List.forall_mem_append.mpr ⟨hall.1,hih.1⟩,
        fun hips => hih.2.1 (List.forall_mem_cons.mp hips).2,hih.2.2⟩

/-- The second loop does not fail when it is permitted. -/
theorem clearStale_permitted {rest : List Backend} {idx : ℕ} {o : GoOutcome (Option GoError)}
    (hlen : idx+rest.length≤ maxBackends) (hr : Runs handle (clearStale order idx rest) world o)
    (hfree : ∀ e∈o.events,Permitted e.op e.label) :
    (∀ e∈o.events,Unfailing e) ∧ o.value=none := by
  induction rest generalizing idx world o with
  | nil =>
    obtain rfl := runs_done.mp hr
    exact ⟨List.forall_mem_nil _,rfl⟩
  | cons b rest ih =>
    rw [List.length_cons] at hlen
    have hindex : (UInt32.ofNat idx).toNat< maxBackends := toNat_ofNat_lt (by omega) le_rfl
    obtain ⟨cleared,hc,⟨herr,_,_,he⟩|⟨_,tail,ht,rfl⟩⟩ := runs_clearStale_cons hr
    · rw [he] at hfree
      have hall := clearBackend_permitted hindex hc hfree
      exact absurd (clearBackend_unfailing hc hall).1 herr
    · have hparts := List.forall_mem_append.mp hfree
      have hall := clearBackend_permitted hindex hc hparts.1
      have hih := ih (by omega) ht hparts.2
      exact ⟨List.forall_mem_append.mpr ⟨hall,hih.1⟩,hih.2⟩

/-- The third loop does not fail when it is permitted. -/
theorem detachStale_permitted {entries : VethEntries} {o : GoOutcome (Pool×Option GoError)}
    (hr : Runs handle (detachStale p entries) world o)
    (hfree : ∀ e∈o.events,Permitted e.op e.label) :
    (∀ e∈o.events,Unfailing e) ∧ o.value.2=none := by
  induction entries generalizing p world o with
  | nil =>
    obtain rfl := runs_done.mp hr
    exact ⟨List.forall_mem_nil _,rfl⟩
  | cons entry rest ih =>
    obtain ⟨vethName,b⟩ := entry
    obtain ⟨fault,⟨hrefused,_,_,_,he⟩|⟨hreply,tail,ht,rfl⟩⟩ := runs_detachStale_cons hr
    · rw [he,List.forall_mem_singleton] at hfree
      exact absurd (detachVethXDP_accepted hfree) hrefused
    · have hparts := List.forall_mem_append.mp hfree
      have hih := ih ht hparts.2
      have hfirst : ∀ e∈[step (.detachVethXDP vethName) fault world],Unfailing e :=
        List.forall_mem_singleton.mpr (Or.inl hreply)
      exact ⟨List.forall_mem_append.mpr ⟨hfirst,hih.1⟩,hih.2⟩

section Phases

variable {written : GoOutcome (Pool×VethMap×Option GoError)} {cleared : GoOutcome (Option GoError)}
variable (hnew : new.length≤ maxBackends) (hlen : p.backends.length≤ maxBackends)
variable (hk : KeysWithin order world p.backends)
variable (hw : Runs handle (writeBackends order p 0 (byVethName p.backends) new) world written)
include hnew hlen hk hw

/-- The first loop of a reconciliation from keys of the remembered list. -/
theorem firstLoop_permitted (hfree : ∀ e∈written.events,Permitted e.op e.label) :
    (∀ e∈written.events,Unfailing e) ∧ ((∀ b∈new,b.ip.to4≠none) → written.value.2.2=none) ∧
      (written.value.2.2=none → KeysWithin order written.state (swapped p.backends new new.length)) := by
  have hkeys : KeysWithin order world (swapped p.backends new 0) := by simpa [swapped] using hk
  have hall := writeBackends_permitted rfl List.drop_zero.symm hnew hlen hw hfree hkeys
  rwa [Nat.zero_add] at hall

/-- The first two loops. -/
theorem slotLoops_permitted
    (hc : Runs handle (clearStale order new.length (written.value.1.backends.drop new.length))
      written.state cleared)
    (hfree : ∀ e∈written.events++cleared.events,Permitted e.op e.label) :
    (∀ e∈written.events++cleared.events,Unfailing e) ∧ cleared.value=none := by
  rw [List.forall_mem_append] at hfree ⊢
  have hpool := (writeBackends_spec List.drop_zero.symm (Nat.zero_le _) hw).pool
  have hfit : new.length+(written.value.1.backends.drop new.length).length≤ maxBackends := by
    rw [hpool,List.length_drop]
    dsimp only
    omega
  have hclear := clearStale_permitted hfit hc hfree.2
  exact ⟨⟨(firstLoop_permitted hnew hlen hk hw hfree.1).1,hclear.1⟩,hclear.2⟩

end Phases

/-- From keys of the remembered list, a reconciliation of a list that fits
does not fail when it is permitted, up to an address that is not IPv4. -/
theorem sync_permitted {iter : IterOrder} {o : GoOutcome (Pool×Option GoError)}
    (hnew : new.length≤ maxBackends) (hlen : p.backends.length≤ maxBackends)
    (hk : KeysWithin order world p.backends)
    (hr : Runs handle (sync order p new iter) world o)
    (hfree : ∀ e∈o.events,Permitted e.op e.label) :
    (∀ e∈o.events,Unfailing e) ∧ ((∀ b∈new,b.ip.to4≠none) → o.value.2=none) := by
  cases runs_sync hr with
  | writeFailed written hw _ _ _ he hstop =>
    rw [he] at hfree ⊢
    have hall := firstLoop_permitted hnew hlen hk hw hfree
    exact ⟨hall.1,fun hips => absurd (hall.2.1 hips) hstop⟩
  | clearFailed written cleared hw _ hc _ _ _ he hstop =>
    rw [he] at hfree
    exact absurd (slotLoops_permitted hnew hlen hk hw hc hfree).2 hstop
  | detachFailed written cleared detached hw _ hc _ hd _ _ _ he hstop =>
    rw [he,List.forall_mem_append] at hfree
    exact absurd (detachStale_permitted hd hfree.2).2 hstop
  | configured written cleared detached fault hw _ hc _ hd _ hresult _ he =>
    rw [he,List.forall_mem_append,List.forall_mem_append,List.forall_mem_singleton] at hfree ⊢
    have hslots := slotLoops_permitted hnew hlen hk hw hc hfree.1.1
    have hdetach := detachStale_permitted hd hfree.1.2
    have hconfig := @putConfig_accepted detached.state (poolConfig order detached.value.1 new) fault
      hfree.2
    refine ⟨⟨⟨hslots.1,hdetach.1⟩,Or.inl hconfig⟩,fun _ => ?_⟩
    rcases hresult with ⟨_,_,hrefused⟩|⟨hnone,_⟩
    · exact absurd hconfig hrefused
    · exact hnone

/-- The environment lets every call of an attempt succeed. -/
def Unopposed (order : ByteOrder) (s : State) (a : Attempt) : Prop :=
  ∀ e∈(attempt order s a).events,Permitted e.op e.label

/-- The environment lets every call of a run succeed. -/
def UnopposedRun (order : ByteOrder) : State → List Attempt → Prop
  | _,[] => True
  | s,a::rest => Unopposed order s a ∧ UnopposedRun order (next order s a) rest

instance (order : ByteOrder) (s : State) (a : Attempt) : Decidable (Unopposed order s a) :=
  inferInstanceAs (Decidable (∀ e∈_,_))

instance decidableUnopposedRun (order : ByteOrder) :
    (s : State) → (attempts : List Attempt) → Decidable (UnopposedRun order s attempts)
  | _,[] => isTrue trivial
  | s,a::rest =>
    have := decidableUnopposedRun order (next order s a) rest
    inferInstanceAs (Decidable (_ ∧ _))

/-- Without imposed failures every attempt is unopposed. -/
theorem unhindered_unopposed (order : ByteOrder) (s : State) (new : List Backend) :
    Unopposed order s (unhindered new) := by
  intro e hm
  have hlabel : e.label=noFault := List.mem_singleton.mp (exec_labels handle _ [] s.world e hm)
  rw [hlabel]
  cases e.op with
  | attachVethXDP vethName vethIfIndex => exact Or.inl rfl
  | _ => rfl

/-- An unopposed run continued by an unopposed attempt. -/
theorem unopposedRun_concat {s : State} {attempts : List Attempt} {a : Attempt} :
    UnopposedRun order s (attempts++[a]) ↔
      UnopposedRun order s attempts ∧ Unopposed order (run order s attempts) a := by
  induction attempts generalizing s with
  | nil => simp [UnopposedRun,run]
  | cons first rest ih =>
    rw [List.cons_append,UnopposedRun,UnopposedRun,ih,and_assoc]
    rfl

/-- A list fits the maps and has addresses that they can hold. -/
def Fitting (backends : List Backend) : Prop :=
  backends.length≤ maxBackends ∧ ∀ b∈backends,b.ip.to4≠none

instance (backends : List Backend) : Decidable (Fitting backends) :=
  inferInstanceAs (Decidable (_ ∧ _))

/-- From a tidy state an unopposed attempt at a fitting list has no failure. -/
theorem Tidy.smooth {s : State} {a : Attempt} (hs : Tidy order s) (hfree : Unopposed order s a)
    (hfits : Fitting a.newBackends) : Smooth order s a := by
  have hall := sync_permitted hfits.1 hs.settled.bounded hs.keys (attempt_runs order s a) hfree
  exact ⟨hall.2 hfits.2,hall.1⟩

/-- Unopposed runs over fitting lists have no failure and stay tidy. -/
theorem UnopposedRun.smooth {s : State} {attempts : List Attempt} (hs : Tidy order s)
    (hfree : UnopposedRun order s attempts) (hfits : ∀ a∈attempts,Fitting a.newBackends) :
    SmoothRun order s attempts ∧ Tidy order (run order s attempts) := by
  induction attempts generalizing s with
  | nil => exact ⟨trivial,hs⟩
  | cons a rest ih =>
    rw [List.forall_mem_cons] at hfits
    have hsmooth := Tidy.smooth hs hfree.1 hfits.1
    have hih := ih (next_tidy hsmooth hs) hfree.2 hfits.2
    exact ⟨⟨hsmooth,hih.1⟩,hih.2⟩

/-- The first loop of an attempt stopped after its first `n` positions. -/
def processed (order : ByteOrder) (s : State) (a : Attempt) (n : ℕ) :
    GoOutcome (Pool×VethMap×Option GoError) :=
  (writeBackends order s.pool 0 (byVethName s.pool.backends) (a.newBackends.take n)).exec handle
    a.faults s.world

/-- The first loop over the beginning of a list does what the loop over the
list begins with. -/
theorem writeBackends_begins (first second : List Backend) (i : ℕ) (oldByVeth : VethMap)
    (labels : List Fault) :
    ((writeBackends order p i oldByVeth first).exec handle labels world).events<+:
      ((writeBackends order p i oldByVeth (first++second)).exec handle labels world).events := by
  induction first generalizing p i oldByVeth labels world with
  | nil => exact ⟨_,rfl⟩
  | cons b rest ih =>
    rw [List.cons_append,writeBackends,writeBackends,exec_bind,exec_bind]
    simp only [Outcome.prepend]
    rw [List.prefix_append_right_inj]
    cases ((writeBackend order p i b).exec handle labels world).value.2 with
    | some err => exact List.prefix_refl _
    | none => exact ih _ _ _

/-- The processed positions are passed through by the attempt. -/
theorem processed_begins (order : ByteOrder) (s : State) (a : Attempt) (n : ℕ) :
    (processed order s a n).events<+:(attempt order s a).events := by
  have hloop := @writeBackends_begins order s.pool s.world (a.newBackends.take n)
    (a.newBackends.drop n) 0 (byVethName s.pool.backends) a.faults
  rw [List.take_append_drop] at hloop
  rw [attempt,sync,exec_bind]
  exact hloop.trans (List.prefix_append _ _)

/-- Keys after the processed positions of an unopposed attempt. -/
theorem Tidy.processed_keys {s : State} {a : Attempt} {n : ℕ} (hs : Tidy order s)
    (hfree : Unopposed order s a) (hlen : a.newBackends.length≤ maxBackends)
    (hn : n≤a.newBackends.length) (hok : (processed order s a n).value.2.2=none) :
    KeysWithin order (processed order s a n).state
      (a.newBackends.take n++s.pool.backends.drop n) := by
  have hpermitted : ∀ e∈(processed order s a n).events,Permitted e.op e.label :=
    fun e hm => hfree e ((processed_begins order s a n).subset hm)
  have htake : (a.newBackends.take n).length=n := by rw [List.length_take]; omega
  have hall := firstLoop_permitted (by omega) hs.settled.bounded hs.keys
    (exec_runs _ a.faults s.world) hpermitted
  have hkeys := hall.2.2 hok
  rwa [swapped,htake,List.take_take,Nat.min_self] at hkeys

/-- The reverse map within its capacity. In every run in which no call fails,
and every list has at most as many elements as there are slots, at every
reconciliation: after its first positions the registered addresses are those
of the new list up to there and of the old list behind, no address is ever
refused, and in the end all of them belong to the new list. No call fails
means that the environment imposes no failure and that the earlier lists had
IPv4 addresses, since `UpdateBackend` fails on others. -/
theorem reverseMap_within_capacity (order : ByteOrder) (vip : IP) (vport : UInt16)
    (srcMAC : HardwareAddr) (attempts : List Attempt) (a : Attempt)
    (hfree : UnopposedRun order (initial vip vport srcMAC) (attempts++[a]))
    (hlen : ∀ x∈attempts++[a],x.newBackends.length≤ maxBackends)
    (hips : ∀ x∈attempts,∀ b∈x.newBackends,b.ip.to4≠none) :
    (∀ n≤a.newBackends.length,
      (processed order (run order (initial vip vport srcMAC) attempts) a n).events<+:
        (attempt order (run order (initial vip vport srcMAC) attempts) a).events ∧
      ((processed order (run order (initial vip vport srcMAC) attempts) a n).value.2.2=none →
        KeysWithin order (processed order (run order (initial vip vport srcMAC) attempts) a n).state
          (a.newBackends.take n++
            (run order (initial vip vport srcMAC) attempts).pool.backends.drop n))) ∧
    (∀ e∈(attempt order (run order (initial vip vport srcMAC) attempts) a).events,
      e.after.backendIpsMap.entries.keys.card≤ maxBackends ∧
        ∀ key index,e.op=.putBackendIp key index → e.reply=none) ∧
    (Succeeds order (run order (initial vip vport srcMAC) attempts) a →
      KeysWithin order (run order (initial vip vport srcMAC) (attempts++[a])).world
        a.newBackends) ∧
    ((∀ b∈a.newBackends,b.ip.to4≠none) →
      Succeeds order (run order (initial vip vport srcMAC) attempts) a) := by
  rw [unopposedRun_concat] at hfree
  rw [List.forall_mem_append,List.forall_mem_singleton] at hlen
  have htidy := (UnopposedRun.smooth (initial_tidy order vip vport srcMAC) hfree.1
    fun x hx => ⟨hlen.1 x hx,hips x hx⟩).2
  have hall := sync_permitted hlen.2 htidy.settled.bounded htidy.keys
    (attempt_runs order _ a) hfree.2
  refine ⟨fun n hn => ⟨processed_begins order _ a n,Tidy.processed_keys htidy hfree.2 hlen.2 hn⟩,
    fun e hm => ⟨e.after.backendIpsMap.bounded,fun key index hop => ?_⟩,fun hok => ?_,hall.2⟩
  · have hdelete : isDelete e.op≠true := by
      rw [hop]
      exact Bool.false_ne_true
    exact (hall.1 e hm).resolve_right fun h => hdelete h.1
  · rw [run_concat]
    refine (sync_keysWithin (attempt_runs order _ a) hok hall.1).mpr fun k hk => ?_
    obtain ⟨b,hb,hkey⟩ := htidy.keys k hk
    exact ⟨b,List.mem_append_left _ hb,hkey⟩

/-- Two backends replaced by two others, at the point after the first position. -/
theorem reverseMap_within_capacity_replacing :
    (processed .little (run .little (initial [172,17,0,1] 80 [2,66,1,2,3,4])
        [unhindered [bridged 2 "veth2",bridged 3 "veth3"]])
        (unhindered [bridged 4 "veth4",bridged 5 "veth5"]) 1).value.2.2=none ∧
      KeysWithin .little (processed .little (run .little (initial [172,17,0,1] 80 [2,66,1,2,3,4])
        [unhindered [bridged 2 "veth2",bridged 3 "veth3"]])
        (unhindered [bridged 4 "veth4",bridged 5 "veth5"]) 1).state
        ([bridged 4 "veth4",bridged 5 "veth5"].take 1++
          (run .little (initial [172,17,0,1] 80 [2,66,1,2,3,4])
            [unhindered [bridged 2 "veth2",bridged 3 "veth3"]]).pool.backends.drop 1) :=
  ⟨by decide,((reverseMap_within_capacity .little [172,17,0,1] 80 [2,66,1,2,3,4]
    [unhindered [bridged 2 "veth2",bridged 3 "veth3"]]
    (unhindered [bridged 4 "veth4",bridged 5 "veth5"]) (by decide) (by decide) (by decide)).1 1
    (by decide)).2 (by decide)⟩

/-- Every discovered pool that fits is synced. From every state that a run
without failures reaches, an unopposed attempt at a discovered list succeeds
if and only if the list has no more elements than there are slots. If none of
its addresses is 0.0.0.0, which marks an empty slot, every eligible frame is
then addressed to an element of the list. -/
theorem discovered_pool_synced (order : ByteOrder) (vip : IP) (vport : UInt16)
    (srcMAC : HardwareAddr) (attempts : List Attempt)
    (hsmooth : SmoothRun order (initial vip vport srcMAC) attempts) (lib : Parsers) (host : Host)
    (w : DockerWatcher) (a : Attempt)
    (hfound : discoverBackends lib host w=.ok a.newBackends)
    (hfree : Unopposed order (run order (initial vip vport srcMAC) attempts) a) :
    (Succeeds order (run order (initial vip vport srcMAC) attempts) a ↔
      a.newBackends.length≤ maxBackends) ∧
    (a.newBackends.length≤ maxBackends → a.newBackends≠[] →
      (∀ b∈a.newBackends,b.ip.to4≠some ⟨0,0,0,0⟩) →
      Consistent order vip srcMAC a.newBackends
        (run order (initial vip vport srcMAC) (attempts++[a])).world) := by
  have htidy : Tidy order (run order (initial vip vport srcMAC) attempts) :=
    smoothRun_induction _ (initial_tidy order vip vport srcMAC) (fun _ _ => next_tidy) hsmooth
  have hips : ∀ b∈a.newBackends,b.ip.to4≠none :=
    fun b hb => (discoverBackends_usable hfound b hb).1
  have hc := attempt_contract order (run order (initial vip vport srcMAC) attempts) a
  have hiff : Succeeds order (run order (initial vip vport srcMAC) attempts) a ↔
      a.newBackends.length≤ maxBackends :=
    ⟨fun hok => (hc.done hok).2.1,fun hlen => (Tidy.smooth htidy hfree ⟨hlen,hips⟩).1⟩
  refine ⟨hiff,fun hlen hne hzero => ?_⟩
  have hs := Contract.synced hc (run_settings order vip vport srcMAC attempts) (hiff.mpr hlen)
  rw [run_concat]
  refine consistent_of_filled hlen (fun h => hne (List.length_eq_zero_iff.mp h)) hs.config
    (fun j hj => ?_) hzero
  exact ⟨_,List.getElem_mem hj,hs.slots j _ (List.getElem?_eq_getElem hj)⟩

/-- The container of a host, discovered and synced after another list. -/
theorem discovered_pool_synced_bridge :
    discoverBackends bridgeParsers bridgeHost ⟨"lb.backend=true",80⟩=.ok [bridgeBackend] ∧
      Succeeds .little (run .little (initial [172,17,0,1] 80 [2,66,1,2,3,4])
        [unhindered [bridged 3 "veth3"]]) (unhindered [bridgeBackend]) ∧
      Consistent .little [172,17,0,1] [2,66,1,2,3,4] [bridgeBackend]
        (run .little (initial [172,17,0,1] 80 [2,66,1,2,3,4])
          ([unhindered [bridged 3 "veth3"]]++[unhindered [bridgeBackend]])).world := by
  have hsynced := discovered_pool_synced .little [172,17,0,1] 80 [2,66,1,2,3,4]
    [unhindered [bridged 3 "veth3"]] (by decide) bridgeParsers bridgeHost ⟨"lb.backend=true",80⟩
    (unhindered [bridgeBackend]) (by decide) (by decide)
  exact ⟨by decide,hsynced.1.mpr (by decide),hsynced.2 (by decide) (by decide) (by decide)⟩

section Crowd

/-- A text followed by a number of two digits. -/
def numbered (text : String) (n : ℕ) : String :=
  text++String.ofList [Nat.digitChar (n/10),Nat.digitChar (n%10)]

/-- The number at the end of such a text. -/
def numberOf (text : String) : ℕ :=
  match text.toList.reverse with
  | units::tens::_ => 10*(tens.toNat-48)+(units.toNat-48)
  | _ => 0

/-- An IPv4 address in sixteen bytes, as it is parsed. -/
def mapped (v4 : Quad) : IP := [0,0,0,0,0,0,0,0,0,0,255,255]++v4.toList

/-- Parsing of the texts of numbered containers. The digits of a hardware
address are hexadecimal. -/
def crowdParsers : Parsers where
  parseIP text :=
    if text="0.0.0.0" then some (mapped ⟨0,0,0,0⟩)
    else if text=numbered "172.17.0." (numberOf text) ∧ 10≤ numberOf text then
      some (mapped ⟨172,17,0,UInt8.ofNat (numberOf text)⟩)
    else none
  parseMAC text :=
    if text=numbered "02:42:ac:11:00:" (numberOf text) then
      some [2,66,172,17,0,UInt8.ofNat (16*(numberOf text/10)+numberOf text%10)]
    else none
  parsePort _ := none

theorem long_numbered (n : ℕ) : 12≤ (numbered "f1d2a90c3b" n).length := by
  simp only [numbered,String.length_append,String.length_ofList]
  exact Nat.le_of_eq rfl

/-- A listed container with a number. -/
def crowdSummary (n : ℕ) : ContainerSummary :=
  ⟨numbered "f1d2a90c3b" n,fun _ => none,long_numbered n⟩

/-- A running container with a number and an address. -/
def crowdContainer (address : String) (n : ℕ) : ContainerJSON :=
  ⟨numbered "/web" n,true,none,4700+n,[⟨address,numbered "02:42:ac:11:00:" n⟩]⟩

/-- A host with sixty-five running containers, 172.17.0.10 to 172.17.0.74. -/
def crowdHost : Host where
  containerList _ := .ok ((List.range 65).map fun i => crowdSummary (i+10))
  containerInspect id := some (crowdContainer (numbered "172.17.0." (numberOf id)) (numberOf id))
  containerLinks pid := .ok [⟨"device",0⟩,⟨"veth",pid-4700⟩]
  linkByIndex index := some (numbered "veth" index.toNat)

/-- What discovery makes of one of them. -/
def crowdMember (n : ℕ) : Backend :=
  ⟨numbered "f1d2a90c3b" n,numbered "web" n,mapped ⟨172,17,0,UInt8.ofNat n⟩,
    [2,66,172,17,0,UInt8.ofNat (16*(n/10)+n%10)],80,true,4700+n,numbered "veth" n,n⟩

/-- All of them. -/
def crowd : List Backend := (List.range 65).map fun i => crowdMember (i+10)

/-- A host with one container whose address is 0.0.0.0. -/
def unaddressedHost : Host := {crowdHost with
  containerList := fun _ => .ok [crowdSummary 10]
  containerInspect := fun _ => some (crowdContainer "0.0.0.0" 10)}

/-- This container. -/
def unaddressed : Backend := {crowdMember 10 with ip := mapped ⟨0,0,0,0⟩}

variable {n : ℕ}

theorem toList_numbered (text : String) (n : ℕ) :
    (numbered text n).toList=text.toList++[Nat.digitChar (n/10),Nat.digitChar (n%10)] := by
  rw [numbered,String.toList_append,String.toList_ofList]

/-- The number can be read off again. -/
theorem numberOf_numbered (text : String) (h : n<100) : numberOf (numbered text n)=n := by
  have hdigit : ∀ d<10,(Nat.digitChar d).toNat-48=d := by
    intro d hd
    rw [Nat.toNat_digitChar_of_lt_ten hd]
    omega
  rw [numberOf,toList_numbered,List.reverse_append]
  change 10*((Nat.digitChar (n/10)).toNat-48)+((Nat.digitChar (n%10)).toNat-48)=n
  rw [hdigit _ (by omega),hdigit _ (by omega)]
  omega

/-- Every container of the host is found. -/
theorem inspectBackend_crowd (hmin : 10≤n) (hmax : n<100) :
    inspectBackend crowdParsers crowdHost ⟨"lb.backend=true",80⟩ (crowdSummary n)=
      some (crowdMember n) := by
  have hne : ∀ text,numberOf text=0 → numbered "172.17.0." n≠text := by
    rintro text htext rfl
    rw [numberOf_numbered _ hmax] at htext
    omega
  refine inspectBackend_eq_some.mpr ⟨crowdContainer (numbered "172.17.0." n) n,
    (mapped ⟨172,17,0,UInt8.ofNat n⟩,[2,66,172,17,0,UInt8.ofNat (16*(n/10)+n%10)]),
    (numbered "veth" n,n),⟨?_,rfl,rfl⟩,?_,?_,?_⟩
  · simp only [crowdHost,crowdSummary,numberOf_numbered _ hmax]
  · simp only [crowdContainer,networkAddress,crowdParsers,numberOf_numbered _ hmax,
      if_neg (hne "" rfl),if_neg (hne "0.0.0.0" rfl),hmin,and_self,if_true]
    rfl
  · refine findHostVeth_eq_ok.mpr ⟨[⟨"device",0⟩,⟨"veth",n⟩],⟨"veth",n⟩,?_,rfl,rfl,?_,?_⟩
    · simp [crowdHost,crowdContainer]
    · omega
    · simp [crowdHost]
  · have hid : String.ofList ((numbered "f1d2a90c3b" n).toList.take 12)=numbered "f1d2a90c3b" n := by
      rw [toList_numbered,List.take_of_length_le (by simp),←toList_numbered,String.ofList_toList]
    have hname : trimSlash (numbered "/web" n)=numbered "web" n := by
      have hslash : "/web".toList = '/' :: "web".toList := by decide
      rw [trimSlash,toList_numbered,hslash]
      change String.ofList ("web".toList++_)=_
      rw [←toList_numbered,String.ofList_toList]
    simp only [backendOf,crowdMember,crowdSummary,crowdContainer,hid,hname]
    rfl

/-- Discovery returns all of them. -/
theorem discoverBackends_crowd :
    discoverBackends crowdParsers crowdHost ⟨"lb.backend=true",80⟩=.ok crowd := by
  change Except.ok (((List.range 65).map fun i => crowdSummary (i+10)).filterMap
    (inspectBackend crowdParsers crowdHost ⟨"lb.backend=true",80⟩))=_
  rw [List.filterMap_map,crowd,←List.filterMap_eq_map]
  refine congrArg Except.ok (List.filterMap_congr fun i hi => ?_)
  rw [List.mem_range] at hi
  rw [Function.comp_apply,Function.comp_apply,inspectBackend_crowd (by omega) (by omega)]

/-- Discovered pools that are not served although nothing but the map sizes
refuses a write: sixty-five containers with addresses and veths of their own
are not synced, and a container with the address 0.0.0.0 is synced but lets an
eligible frame pass unchanged. -/
theorem discovered_pools_not_served :
    (discoverBackends crowdParsers crowdHost ⟨"lb.backend=true",80⟩=.ok crowd ∧
      (crowd.map fun b => b.ip.to4).Nodup ∧ (vethNames crowd).Nodup ∧
      Unopposed .little bridgePool (unhindered crowd) ∧
      ¬Succeeds .little bridgePool (unhindered crowd)) ∧
    discoverBackends crowdParsers unaddressedHost ⟨"lb.backend=true",80⟩=.ok [unaddressed] ∧
      Unopposed .little bridgePool (unhindered [unaddressed]) ∧
      Succeeds .little bridgePool (unhindered [unaddressed]) ∧
      Eligible .little [172,17,0,1] (echo 8 0 0 ⟨192,168,0,9⟩ ⟨172,17,0,1⟩) ∧
      xdpLbIngress .little (run .little bridgePool [unhindered [unaddressed]]).world
          (.replicate maxBackends (Vector.replicate 1 ⟨0,0⟩)) (Fin.last 0) 7
          (echo 8 0 0 ⟨192,168,0,9⟩ ⟨172,17,0,1⟩)=
        some ⟨.pass,echo 8 0 0 ⟨192,168,0,9⟩ ⟨172,17,0,1⟩,
          .replicate maxBackends (Vector.replicate 1 ⟨0,0⟩)⟩ := by
  refine ⟨⟨discoverBackends_crowd,?_,?_,unhindered_unopposed .little bridgePool crowd,
    fun hok => ?_⟩,by decide,unhindered_unopposed .little bridgePool _,by decide,by decide,by decide⟩
  · have haddresses : (crowd.map fun b => b.ip.to4)=
        (List.range 65).map fun i => some ⟨172,17,0,UInt8.ofNat (i+10)⟩ := rfl
    rw [haddresses]
    refine List.Nodup.map_on (fun i hi j hj h => ?_) List.nodup_range
    have hlast := congrArg UInt8.toNat (congrArg Quad.d (Option.some.inj h))
    rw [UInt8.toNat_ofNat',UInt8.toNat_ofNat'] at hlast
    rw [List.mem_range] at hi hj
    omega
  · have hnames : vethNames crowd=(List.range 65).map fun i => numbered "veth" (i+10) := rfl
    rw [hnames]
    refine List.Nodup.map_on (fun i hi j hj h => ?_) List.nodup_range
    rw [List.mem_range] at hi hj
    have hnumber := congrArg numberOf h
    rw [numberOf_numbered _ (by omega),numberOf_numbered _ (by omega)] at hnumber
    omega
  · have hlen := ((attempt_contract .little bridgePool (unhindered crowd)).done hok).2.1
    have hcrowd : crowd.length=65 := by simp [crowd]
    change crowd.length≤ maxBackends at hlen
    rw [hcrowd] at hlen
    exact absurd hlen (by decide)

end Crowd

end ContainerLb.Capacity

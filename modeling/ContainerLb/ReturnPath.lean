import ContainerLb.PoolRuns
import ContainerLb.PacketEffects

/-!
# Backends and their return path

A backend that may receive frames needs the SNAT program on its veth. The
veths to detach are taken from the last synced list while attachments are
recorded as they happen, and a live slot is rewritten before the veth of its
new backend is attached. Both results state when this is harmless.
-/

namespace ContainerLb.ReturnPath

open CallProgram BoundedMaps HostBytes NetAddresses BpfManager PoolSync ManagerSteps
open SyncPhases SlotEffects SyncEffects SyncContract PoolRuns PacketEffects

variable {order : ByteOrder}

/-- Exactly the veths of a list are attached, for the manager and the pool. -/
def AttachedExactly (s : State) (backends : List Backend) : Prop :=
  s.world.vethLinks.keys=(vethNames backends).toFinset ∧
    s.pool.byVeth=(vethNames backends).toFinset

/-- Every attached veth belongs to one of two lists. -/
def AttachedWithin (s : State) (old new : List Backend) : Prop :=
  ∀ name∈s.world.vethLinks.keys,name∈vethNames old ∨ name∈vethNames new

instance (s : State) (backends : List Backend) : Decidable (AttachedExactly s backends) :=
  inferInstanceAs (Decidable (_ ∧ _))

instance (s : State) (old new : List Backend) : Decidable (AttachedWithin s old new) :=
  inferInstanceAs (Decidable (∀ name∈s.world.vethLinks.keys,_))

/-- A successful reconciliation attaches exactly the new veths when nothing
but old and new veths was attached, and only then. -/
theorem next_attachedExactly {s : State} {a : Attempt} (hs : Tracked s.pool s.world)
    (hok : Succeeds order s a) :
    AttachedExactly (next order s a) a.newBackends ↔
      AttachedWithin s s.pool.backends a.newBackends := by
  have hc := attempt_contract order s a
  have hveths := hc.veths hok
  have htracked := hc.tracked hs
  have hkeys : (next order s a).world.vethLinks.keys=(next order s a).pool.byVeth := by
    ext name
    rw [Finmap.mem_keys]
    exact (htracked name).symm
  rw [AttachedExactly,hkeys,and_self]
  constructor
  · intro h name hm
    rw [Finmap.mem_keys,←hs name] at hm
    by_cases hold : name∈vethNames s.pool.backends
    · exact Or.inl hold
    · have hleft := (hveths name).mpr (Or.inr ⟨hm,hold⟩)
      change name∈(next order s a).pool.byVeth at hleft
      rw [h,List.mem_toFinset] at hleft
      exact Or.inr hleft
  · intro h
    ext name
    rw [List.mem_toFinset]
    refine (hveths name).trans ⟨?_,Or.inl⟩
    rintro (hnew|⟨hm,hold⟩)
    · exact hnew
    · rw [hs name,←Finmap.mem_keys] at hm
      exact (h name hm).resolve_left hold

/-- Healing of the attachments. After any run and a last reconciliation that
succeeds, exactly its veths are attached if and only if before it only its
veths and those of the remembered list were. -/
theorem attachments_heal_iff (order : ByteOrder) (vip : IP) (vport : UInt16)
    (srcMAC : HardwareAddr) (attempts : List Attempt) (a : Attempt)
    (hok : Succeeds order (run order (initial vip vport srcMAC) attempts) a) :
    AttachedExactly (run order (initial vip vport srcMAC) (attempts++[a])) a.newBackends ↔
      AttachedWithin (run order (initial vip vport srcMAC) attempts)
        (run order (initial vip vport srcMAC) attempts).pool.backends a.newBackends := by
  rw [run_concat]
  exact next_attachedExactly (run_settled order vip vport srcMAC attempts).tracked hok

/-- An attempt whose configuration write is refused leaves its veth attached,
and no later list that lacks it detaches it. -/
theorem attachment_leaks_after_refused_config :
    Smooth .little (run .little bridgePool [⟨[bridged 2 "veth2"],storedOrder,
        [noFault,noFault,noFault,⟨some (.other 12),none⟩]⟩]) (unhindered [bridged 3 "veth3"]) ∧
      ¬AttachedExactly (run .little bridgePool ([⟨[bridged 2 "veth2"],storedOrder,
        [noFault,noFault,noFault,⟨some (.other 12),none⟩]⟩]++
        [unhindered [bridged 3 "veth3"]])) [bridged 3 "veth3"] := by
  decide

/-- The same list synced after the refused write has its veth attached. -/
theorem attachments_heal_by_retry :
    AttachedExactly (run .little (initial [172,17,0,1] 80 [2,66,1,2,3,4])
      ([⟨[bridged 2 "veth2"],storedOrder,[noFault,noFault,noFault,⟨some (.other 12),none⟩]⟩]++
        [unhindered [bridged 2 "veth2"]])) [bridged 2 "veth2"] :=
  (attachments_heal_iff .little [172,17,0,1] 80 [2,66,1,2,3,4]
    [⟨[bridged 2 "veth2"],storedOrder,[noFault,noFault,noFault,⟨some (.other 12),none⟩]⟩]
    (unhindered [bridged 2 "veth2"]) (by decide)).mpr (by decide)

/-- The backend last written into each slot. -/
abbrev Owners := UInt32 → Option Backend

/-- A slot belongs to the element at its position once that is written, and
to nobody once it is zeroed. -/
def own (new : List Backend) (e : Step) (owners : Owners) : Owners :=
  match e.op with
  | .putBackend index info =>
    if e.reply=none then
      Function.update owners index (if info=emptyBackend then none else new[index.toNat]?)
    else owners
  | _ => owners

/-- An index that the packet program may pick. -/
def Live (config : ArrayMap 1 LbConfig) (index : UInt32) : Prop :=
  ∃ cfg∈config.lookup 0,index<cfg.backendCount

instance (config : ArrayMap 1 LbConfig) (index : UInt32) : Decidable (Live config index) :=
  inferInstanceAs (Decidable (∃ cfg∈config.lookup 0,_))

/-- Every live slot in use belongs to a backend with an attached veth. -/
def Guarded (world : World) (owners : Owners) : Prop :=
  ∀ index info,Live world.configMap index → world.backendMap.lookup index=some info →
    info≠emptyBackend → ∃ b,owners index=some b ∧ b.vethName∈world.vethLinks

instance (world : World) (owners : Owners) : Decidable (Guarded world owners) :=
  decidable_of_iff (∀ j< maxBackends,Live world.configMap (UInt32.ofNat j) →
      ∀ info∈world.backendMap.lookup (UInt32.ofNat j),info≠emptyBackend →
        ∃ b∈owners (UInt32.ofNat j),b.vethName∈world.vethLinks) (by
    constructor
    · intro h index info hlive hslot hne
      have hlt : index.toNat< maxBackends :=
        (ArrayMap.lookup_isSome world.backendMap index).mp (by rw [hslot]; rfl)
      have hj := h index.toNat hlt
      rw [UInt32.ofNat_toNat] at hj
      exact hj hlive info hslot hne
    · intro h j _ hlive info hslot hne
      exact h _ info hlive hslot hne)

variable {p : Pool} {world : World} {new : List Backend} {owners : Owners}

/-- A frame can only be rewritten for a backend with an attached veth. -/
theorem Guarded.selected {prandom : UInt32} {frame : List UInt8} {cfg : LbConfig}
    {info : BackendInfo} (hg : Guarded world owners)
    (hs : Selects order world prandom frame cfg info) :
    ∃ b,owners (prandom%cfg.backendCount)=some b ∧ b.vethName∈world.vethLinks := by
  refine hg _ info ⟨cfg,hs.config,hs.index_lt⟩ hs.slot ?_
  rintro rfl
  exact hs.address rfl

/-- A world with the same slots and no fewer veths is as good. -/
theorem Guarded.mono {world' : World} (hg : Guarded world owners)
    (hconfig : world'.configMap=world.configMap) (hslots : world'.backendMap=world.backendMap)
    (hlinks : ∀ name,name∈world.vethLinks → name∈world'.vethLinks) : Guarded world' owners := by
  intro index info hlive hslot hne
  rw [hconfig] at hlive
  rw [hslots] at hslot
  obtain ⟨b,hb,hm⟩ := hg index info hlive hslot hne
  exact ⟨b,hb,hlinks _ hm⟩

/-- A slot write is harmless when it zeroes the slot, or when the slot is not
live, or when the veth of the written element is attached. -/
theorem putBackend_guarded {index : UInt32} {info : BackendInfo} (fault : Fault)
    (hg : Guarded world owners)
    (hsafe : info=emptyBackend ∨ (Live world.configMap index →
      ∃ b,new[index.toNat]?=some b ∧ b.vethName∈world.vethLinks)) :
    Guarded (step (.putBackend index info) fault world).after
      (own new (step (.putBackend index info) fault world) owners) := by
  rcases putBackend_cases index info fault world with ⟨hr,he⟩|⟨hr,written,hw,he⟩
  · have hown : own new (step (.putBackend index info) fault world) owners=owners := if_neg hr
    rw [he,hown]
    exact hg
  · have hown : own new (step (.putBackend index info) fault world) owners=
        Function.update owners index (if info=emptyBackend then none else new[index.toNat]?) :=
      if_pos hr
    rw [he,hown]
    intro other found hlive hslot hne
    have hput := ArrayMap.lookup_put hw other
    by_cases ho : other=index
    · subst ho
      rw [if_pos rfl] at hput
      obtain rfl : info=found := Option.some.inj (hput.symm.trans hslot)
      rw [Function.update_self,if_neg hne]
      exact hsafe.resolve_left hne hlive
    · rw [if_neg ho] at hput
      rw [Function.update_of_ne ho]
      exact hg other found hlive (hput.symm.trans hslot) hne

/-- Ownership changes at the written slot only. -/
theorem own_putBackend_of_ne {index other : UInt32} {info : BackendInfo} (fault : Fault)
    (h : other≠index) :
    own new (step (.putBackend index info) fault world) owners other=owners other := by
  change (if _ then Function.update owners index _ else owners) other=_
  split
  · exact Function.update_of_ne h _ _
  · rfl

/-- An attach loses no veth. -/
theorem attachVethXDP_grows (vethName : String) (vethIfIndex : ℤ) (fault : Fault) {name : String}
    (h : name∈world.vethLinks) :
    name∈(step (.attachVethXDP vethName vethIfIndex) fault world).after.vethLinks := by
  rcases attachVethXDP_cases vethName vethIfIndex fault world with
    ⟨_,he,_⟩|⟨_,he,_⟩|⟨_,_,mode,he⟩ <;> rw [he]
  · exact h
  · exact h
  · exact Finmap.mem_insert.mpr (Or.inr h)

/-- What the calls at one position preserve: the configuration, guarded
slots, the veth of a live new element, ownership of the other slots. -/
structure Watched (fixed : ArrayMap 1 LbConfig) (new : List Backend) (j : ℕ) (before : Owners)
    (world : World) (owners : Owners) : Prop where
  /-- The configuration is kept. -/
  config : world.configMap=fixed
  /-- All live slots are guarded. -/
  guarded : Guarded world owners
  /-- The veth of the element is attached if its slot is live. -/
  ready : Live fixed (UInt32.ofNat j) → ∀ b,new[j]?=some b → b.vethName∈world.vethLinks
  /-- The other slots keep their owners. -/
  others : ∀ index,index≠UInt32.ofNat j → owners index=before index

/-- The reverse map does not matter for it. -/
theorem Watched.of_reverse {fixed : ArrayMap 1 LbConfig} {j : ℕ} {before : Owners}
    {world' : World} (h : Watched fixed new j before world owners)
    (hc : Changes .reverse world world') : Watched fixed new j before world' owners := by
  have hlinks := (hc.links nofun).1
  refine ⟨(hc.config nofun).trans h.config,?_,?_,h.others⟩
  · exact h.guarded.mono (hc.config nofun) (hc.slots nofun) fun _ hm => by rwa [hlinks]
  · rw [hlinks]
    exact h.ready

/-- One call at a position preserves it. -/
theorem SlotCall.watched {old : List Backend} {attached : Finset String} {j : ℕ} {op : Call}
    {fixed : ArrayMap 1 LbConfig} {before : Owners}
    (hop : SlotCall order old attached new j op) (fault : Fault)
    (h : Watched fixed new j before world owners) :
    Watched fixed new j before (step op fault world).after
      (own new (step op fault world) owners) := by
  have hconfig : (step op fault world).after.configMap=fixed :=
    (SlotCall.config hop fault world).trans h.config
  cases hop with
  | clearSlot hj hold hnew =>
    refine ⟨hconfig,putBackend_guarded fault h.guarded (Or.inl rfl),fun hl b hb => ?_,
      fun index hi => (own_putBackend_of_ne fault hi).trans (h.others index hi)⟩
    rw [(putBackend_touches _ _ none none fault world).vethLinks]
    exact h.ready hl b hb
  | writeSlot hj hnew hip =>
    refine ⟨hconfig,putBackend_guarded fault h.guarded (Or.inr fun hl => ?_),fun hl b hb => ?_,
      fun index hi => (own_putBackend_of_ne fault hi).trans (h.others index hi)⟩
    · rw [h.config] at hl
      rw [toNat_ofNat_of_le hj]
      exact ⟨_,hnew,h.ready hl _ hnew⟩
    · rw [(putBackend_touches _ _ none none fault world).vethLinks]
      exact h.ready hl b hb
  | clearKey => exact h.of_reverse (step_changes (.deleteBackendIp _) fault world)
  | writeKey => exact h.of_reverse (step_changes (.putBackendIp _ _) fault world)
  | @attach b hnew hv =>
    have hmaps := step_changes (.attachVethXDP b.vethName b.vethIdx) fault world
    exact ⟨hconfig,h.guarded.mono (hmaps.config nofun) (hmaps.slots nofun) fun _ =>
      attachVethXDP_grows _ _ fault,fun hl c hc => attachVethXDP_grows _ _ fault (h.ready hl c hc),
      h.others⟩

/-- The written value of a backend is never all zero. -/
theorem backendInfo_ne_empty (order : ByteOrder) (v4 : Quad) (port : UInt16) (mac : HardwareAddr) :
    backendInfo order v4 port mac≠emptyBackend := by
  intro h
  have hweight := congrArg BackendInfo.weight h
  exact absurd hweight (by decide : (1 : UInt32)≠0)

/-- A successful `UpdateBackend` gives the slot to the element at its
position. -/
theorem updateBackend_owner {i : ℕ} {b : Backend} {o : GoOutcome (Option GoError)}
    (hi : i≤ maxBackends)
    (hr : Runs handle (updateBackend order (UInt32.ofNat i) b.ip b.port b.mac) world o)
    (hok : o.value=none) :
    remember (own new) o.events owners (UInt32.ofNat i)=new[i]? := by
  rcases runs_updateBackend hr with ⟨_,hn,_⟩|⟨v4,fault,_,⟨_,hn,_⟩|⟨hput,middle,fault',_,_,_,he⟩⟩
  · exact absurd hok hn
  · exact absurd hok hn
  · rw [he]
    change own new (step (.putBackend _ _) fault world) owners (UInt32.ofNat i)=_
    have hown : own new (step (.putBackend (UInt32.ofNat i) (backendInfo order v4 b.port b.mac))
        fault world) owners=_ := if_pos hput
    rw [hown,Function.update_self,if_neg (backendInfo_ne_empty order v4 b.port b.mac),toNat_ofNat_of_le hi]

/-- The body of the first loop keeps all live slots guarded and ends as the
owner of its slot. -/
theorem writeBackend_guarded {i : ℕ} {b : Backend} {o : GoOutcome (Pool×Option GoError)}
    (hi : i≤ maxBackends) (hb : new[i]?=some b)
    (hr : Runs handle (writeBackend order p i b) world o) (hg : Guarded world owners)
    (hready : Live world.configMap (UInt32.ofNat i) → b.vethName∈world.vethLinks) :
    Throughout (own new) Guarded o.events owners ∧
      Watched world.configMap new i owners o.state (remember (own new) o.events owners) ∧
      (o.value.2=none → remember (own new) o.events owners (UInt32.ofNat i)=some b) := by
  have hspec := writeBackend_spec hi hb hr
  have hstart : Watched world.configMap new i owners world owners := by
    refine ⟨rfl,hg,fun hl c hc => ?_,fun _ _ => rfl⟩
    rw [hb] at hc
    cases hc
    exact hready hl
  obtain ⟨hall,hend⟩ := Runs.throughout (fun op _ => SlotCall order p.backends p.byVeth new i op)
    (fun op fault w g hop hw => SlotCall.watched hop fault hw) hr hspec.calls hstart
  refine ⟨hall.imp fun _ _ h => h.guarded,hend,fun hok => ?_⟩
  obtain ⟨cleared,updated,_,hu,hcases⟩ := runs_writeBackend hr
  rcases hcases with ⟨_,_,herr,_⟩|⟨hv,_,_,_,he⟩|⟨hv,_,fault,_,_,he⟩
  · exact absurd hok herr
  · rw [he,remember_append,updateBackend_owner hi hu hv,hb]
  · rw [he,remember_append,remember_append]
    change remember (own new) updated.events _ (UInt32.ofNat i)=_
    rw [updateBackend_owner hi hu hv,hb]

/-- Every live position of a list from `i` on has its veth attached already,
or gets it attached at an earlier one of these positions. -/
def ReadyFrom (config : ArrayMap 1 LbConfig) (attached : Finset String) (new : List Backend)
    (i : ℕ) : Prop :=
  ∀ j b,i≤j → j≤ maxBackends → new[j]?=some b → Live config (UInt32.ofNat j) →
    b.vethName∈attached ∨ ∃ k c,i≤k ∧ k<j ∧ new[k]?=some c ∧ c.vethName=b.vethName

/-- The first loop keeps all live slots guarded. On success all its slots
belong to the new elements. -/
theorem writeBackends_guarded {rest : List Backend} {i : ℕ} {oldByVeth : VethMap}
    {o : GoOutcome (Pool×VethMap×Option GoError)} (hrest : rest=new.drop i) (hi : i≤ maxBackends)
    (hr : Runs handle (writeBackends order p i oldByVeth rest) world o)
    (ht : Tracked p world) (hg : Guarded world owners)
    (hready : ReadyFrom world.configMap p.byVeth new i) :
    Throughout (own new) Guarded o.events owners ∧
      Guarded o.state (remember (own new) o.events owners) ∧
      (∀ j< i,remember (own new) o.events owners (UInt32.ofNat j)=owners (UInt32.ofNat j)) ∧
      (o.value.2.2=none → ∀ j b,i≤j → new[j]?=some b →
        remember (own new) o.events owners (UInt32.ofNat j)=some b) := by
  induction rest generalizing p i oldByVeth world o owners with
  | nil =>
    obtain rfl := runs_done.mp hr
    refine ⟨trivial,hg,fun _ _ => rfl,fun _ j b hj hb => ?_⟩
    rw [drop_nil hrest hj] at hb
    contradiction
  | cons b rest ih =>
    obtain ⟨hb,htail⟩ := drop_cons hrest
    obtain ⟨body,hbody,hcases⟩ := runs_writeBackends_cons hr
    have hspec := writeBackend_spec hi hb hbody
    have hlive : Live world.configMap (UInt32.ofNat i) → b.vethName∈world.vethLinks := by
      intro hl
      rcases hready i b (Nat.le_refl i) hi hb hl with h|⟨k,_,hk,hlt,_⟩
      · exact (ht _).mp h
      · omega
    obtain ⟨hall,hend,howner⟩ := writeBackend_guarded hi hb hbody hg hlive
    have hbefore : ∀ j< i,remember (own new) body.events owners (UInt32.ofNat j)=
        owners (UInt32.ofNat j) := by
      intro j hj
      refine hend.others _ fun he => ?_
      rw [ofNat_inj_of_le (by omega) hi] at he
      omega
    rcases hcases with ⟨_,_,herr,hs,he⟩|⟨hok,tail,htl,rfl⟩
    · rw [he,hs]
      exact ⟨hall,hend.guarded,hbefore,fun h => absurd h herr⟩
    · obtain ⟨hi',hveth,_⟩ := hspec.done hok
      have hnext : ReadyFrom body.state.configMap body.value.1.byVeth new (i+1) := by
        rw [hend.config,hveth]
        intro j c hj hmax hc hl
        rcases hready j c (by omega) hmax hc hl with h|⟨k,d,hk,hlt,hd,hsame⟩
        · exact Or.inl (Finset.mem_insert_of_mem h)
        · rcases Nat.eq_or_lt_of_le hk with rfl|hik
          · rw [hb] at hd
            cases hd
            exact Or.inl (by rw [←hsame]; exact Finset.mem_insert_self _ _)
          · exact Or.inr ⟨k,d,hik,hlt,hd,hsame⟩
      obtain ⟨htall,htend,htbefore,htowner⟩ :=
        ih htail hi' htl (hspec.tracked ht) hend.guarded hnext
      simp only [Outcome.prepend,throughout_append,remember_append]
      refine ⟨⟨hall,htall⟩,htend,fun j hj => ?_,fun hnone j c hj hc => ?_⟩
      · rw [htbefore j (by omega),hbefore j hj]
      · rcases Nat.eq_or_lt_of_le hj with rfl|hlt
        · rw [htbefore i (by omega),howner hok,←hb,hc]
        · exact htowner hnone j c hlt hc

/-- The second loop keeps all live slots guarded and the owners of the slots
before it. -/
theorem clearStale_guarded {old rest : List Backend} {o : GoOutcome (Option GoError)}
    (hlen : new.length≤ maxBackends) (hrest : rest=old.drop new.length)
    (hr : Runs handle (clearStale order new.length rest) world o) (hg : Guarded world owners) :
    Throughout (own new) Guarded o.events owners ∧
      Guarded o.state (remember (own new) o.events owners) ∧
      ∀ j<new.length,
        remember (own new) o.events owners (UInt32.ofNat j)=owners (UInt32.ofNat j) := by
  have hspec := clearStale_spec hrest hlen (Nat.le_refl _) hr
  have hstep : ∀ op fault w (g : Owners),(∃ j,new.length≤j ∧ SlotCall order old ∅ new j op) →
      (Guarded w g ∧ ∀ j<new.length,g (UInt32.ofNat j)=owners (UInt32.ofNat j)) →
      Guarded (step op fault w).after (own new (step op fault w) g) ∧
        ∀ j<new.length,own new (step op fault w) g (UInt32.ofNat j)=owners (UInt32.ofNat j) := by
    rintro op fault w g ⟨j,hj,hop⟩ ⟨hw,hsame⟩
    -- behind the new list there is nothing to write, so no veth has to be ready
    have hnone : new[j]?=none := List.getElem?_eq_none hj
    have hwatched : Watched w.configMap new j g w g :=
      ⟨rfl,hw,fun _ b hb => (Option.some_ne_none b (hb.symm.trans hnone)).elim,fun _ _ => rfl⟩
    have hafter := SlotCall.watched hop fault hwatched
    refine ⟨hafter.guarded,fun i hi => ?_⟩
    have hbound : j≤ maxBackends ∨ own new (step op fault w) g=g := by
      cases hop with
      | clearSlot hj => exact Or.inl hj
      | writeSlot hj => exact Or.inl hj
      | clearKey => exact Or.inr rfl
      | writeKey => exact Or.inr rfl
      | attach => exact Or.inr rfl
    rcases hbound with hbound|hkept
    · rw [←hsame i hi]
      refine hafter.others _ fun he => ?_
      rw [ofNat_inj_of_le (by omega) hbound] at he
      omega
    · exact (congrFun hkept _).trans (hsame i hi)
  obtain ⟨hall,hend⟩ := Runs.throughout _ hstep hr (hspec.calls ∅) ⟨hg,fun _ _ => rfl⟩
  exact ⟨hall.imp fun _ _ h => h.1,hend.1,hend.2⟩

/-- Slots of a list belong to its elements, whose veths are attached, and
the live slots behind it are zero. -/
structure Anchored (new : List Backend) (world : World) (owners : Owners) : Prop where
  /-- Owners of the slots. -/
  owners : ∀ j b,new[j]?=some b → owners (UInt32.ofNat j)=some b
  /-- Attached veths. -/
  attached : ∀ name∈vethNames new,name∈world.vethLinks
  /-- Live slots behind the list. -/
  zeroed : ∀ index,Live world.configMap index → new.length≤ index.toNat →
    world.backendMap.lookup index=some emptyBackend

/-- Such a world is guarded. -/
theorem Anchored.guarded (h : Anchored new world owners) : Guarded world owners := by
  intro index info hlive hslot hne
  rcases Nat.lt_or_ge index.toNat new.length with hlt|hge
  · have hb := List.getElem?_eq_getElem hlt
    have howner := h.owners _ _ hb
    rw [UInt32.ofNat_toNat] at howner
    exact ⟨_,howner,h.attached _ (List.mem_map_of_mem (List.getElem_mem hlt))⟩
  · rw [h.zeroed index hlive hge] at hslot
    exact absurd (Option.some.inj hslot).symm hne

/-- The third loop, which detaches veths that the new list does not have,
keeps a world anchored. -/
theorem detachStale_anchored {entries : VethEntries} {o : GoOutcome (Pool×Option GoError)}
    (hentries : ∀ name∈entries.keys,name∉vethNames new)
    (hr : Runs handle (detachStale p entries) world o) (h : Anchored new world owners) :
    Throughout (own new) Guarded o.events owners ∧
      Anchored new o.state (remember (own new) o.events owners) := by
  have hstep : ∀ op fault w (g : Owners),(∃ name∈entries.keys,op=.detachVethXDP name) →
      Anchored new w g → Anchored new (step op fault w).after (own new (step op fault w) g) := by
    rintro op fault w g ⟨name,hname,rfl⟩ hw
    have hmaps := step_changes (.detachVethXDP name) fault w
    refine ⟨hw.owners,fun other ho => ?_,fun index hl hi => ?_⟩
    · refine (detachVethXDP_other fault w ?_).mpr (hw.attached other ho)
      rintro rfl
      exact hentries _ hname ho
    · rw [hmaps.config nofun] at hl
      rw [hmaps.slots nofun]
      exact hw.zeroed index hl hi
  obtain ⟨hall,hend⟩ := Runs.throughout _ hstep hr (detachStale_spec hr).calls h
  exact ⟨hall.imp fun _ _ h => h.guarded,hend⟩

/-- The first two loops keep all live slots guarded. When both succeed the
world is anchored in the new list. -/
theorem slotLoops_guarded {written : GoOutcome (Pool×VethMap×Option GoError)}
    {cleared : GoOutcome (Option GoError)} (ht : Tracked p world) (hg : Guarded world owners)
    (hlive : ∀ index,Live world.configMap index → index.toNat<p.backends.length)
    (hready : ReadyFrom world.configMap p.byVeth new 0)
    (hw : Runs handle (writeBackends order p 0 (byVethName p.backends) new) world written)
    (hwrote : written.value.2.2=none)
    (hc : Runs handle (clearStale order new.length (written.value.1.backends.drop new.length))
      written.state cleared) :
    Throughout (own new) Guarded (written.events++cleared.events) owners ∧
      Guarded cleared.state (remember (own new) (written.events++cleared.events) owners) ∧
      (cleared.value=none →
        Anchored new cleared.state (remember (own new) (written.events++cleared.events) owners)) := by
  have hslots := slotPhases hw hwrote hc
  obtain ⟨hlen,hnames,_,_⟩ := hslots.write.done hwrote
  rw [Nat.zero_add] at hlen
  have hbackends : written.value.1.backends=p.backends := by rw [hslots.write.pool]
  rw [hbackends] at hc
  obtain ⟨hall,hend,_,howners⟩ :=
    writeBackends_guarded List.drop_zero.symm (Nat.zero_le _) hw ht hg hready
  obtain ⟨hall',hend',howners'⟩ := clearStale_guarded hlen rfl hc hend
  simp only [throughout_append,remember_append]
  refine ⟨⟨hall,hall'⟩,hend',fun hclear => ⟨fun j b hb => ?_,fun name hn => ?_,
    fun index hl hi => ?_⟩⟩
  · rw [howners' j (List.getElem?_eq_some_iff.mp hb).1]
    exact howners hwrote j b (Nat.zero_le j) hb
  · rw [←hslots.tracked ht name,hnames name]
    exact Or.inr hn
  · rw [hslots.configEnd] at hl
    have hold := List.getElem?_eq_getElem (hlive index hl)
    have hzero := hslots.clear.done hclear index.toNat _ hi hold
    rwa [UInt32.ofNat_toNat] at hzero

/-- Writing the configuration of an anchored list, accepted or not. -/
theorem putConfig_guarded {fault : Fault} (hlen : new.length≤ maxBackends)
    (h : Anchored new world owners) :
    Guarded (step (.putConfig 0 (poolConfig order p new)) fault world).after owners := by
  rcases putConfig_cases 0 (poolConfig order p new) fault world with ⟨_,he⟩|⟨_,written,hw,he⟩
  · rw [he]
    exact h.guarded
  · rw [he]
    rintro index info ⟨cfg,hcfg,hlt⟩ _ _
    have hput := ArrayMap.lookup_put hw 0
    rw [if_pos rfl] at hput
    obtain rfl : poolConfig order p new=cfg := Option.some.inj (hput.symm.trans hcfg)
    have hindex : index.toNat<new.length := by
      rw [UInt32.lt_iff_toNat_lt] at hlt
      rwa [←toNat_ofNat_of_le hlen]
    have howner := h.owners _ _ (List.getElem?_eq_getElem hindex)
    rw [UInt32.ofNat_toNat] at howner
    exact ⟨_,howner,h.attached _ (List.mem_map_of_mem (List.getElem_mem hindex))⟩

/-- A reconciliation whose live positions have their veths ready keeps all
live slots guarded at every point, whatever fails. -/
theorem sync_guarded {iter : IterOrder} {o : GoOutcome (Pool×Option GoError)}
    (hr : Runs handle (sync order p new iter) world o) (ht : Tracked p world)
    (hg : Guarded world owners)
    (hlive : ∀ index,Live world.configMap index → index.toNat<p.backends.length)
    (hready : ReadyFrom world.configMap p.byVeth new 0) :
    Throughout (own new) Guarded o.events owners ∧
      Guarded o.state (remember (own new) o.events owners) := by
  have hleft : ∀ {written : GoOutcome (Pool×VethMap×Option GoError)},
      WriteSpec order new p 0 (byVethName p.backends) new world written →
      written.value.2.2=none →
      ∀ name∈(iter.1 written.value.2.1.entries).keys,name∉vethNames new := by
    intro written hwrite hwrote name hn
    rw [(hwrite.done hwrote).2.2.1] at hn
    exact (mem_leftover.mp hn).2
  cases runs_sync hr with
  | writeFailed written hw _ _ hstate hevents =>
    obtain ⟨hall,hend,_⟩ :=
      writeBackends_guarded List.drop_zero.symm (Nat.zero_le _) hw ht hg hready
    rw [hstate,hevents]
    exact ⟨hall,hend⟩
  | clearFailed written cleared hw hwrote hc _ _ hstate hevents =>
    obtain ⟨hall,hend,_⟩ := slotLoops_guarded ht hg hlive hready hw hwrote hc
    rw [hstate,hevents]
    exact ⟨hall,hend⟩
  | detachFailed written cleared detached hw hwrote hc hclear hd _ _ hstate hevents =>
    obtain ⟨hall,_,hanchored⟩ := slotLoops_guarded ht hg hlive hready hw hwrote hc
    obtain ⟨hall',hend⟩ := detachStale_anchored
      (hleft (slotPhases hw hwrote hc).write hwrote) hd (hanchored hclear)
    rw [hstate,hevents]
    refine ⟨(throughout_append _ _ _).mpr ⟨hall,hall'⟩,?_⟩
    rw [remember_append]
    exact hend.guarded
  | configured written cleared detached fault hw hwrote hc hclear hd _ _ hstate hevents =>
    have hwrite := (slotPhases hw hwrote hc).write
    obtain ⟨hall,_,hanchored⟩ := slotLoops_guarded ht hg hlive hready hw hwrote hc
    obtain ⟨hall',hend⟩ := detachStale_anchored (hleft hwrite hwrote) hd (hanchored hclear)
    have hlen := (hwrite.done hwrote).1
    rw [Nat.zero_add] at hlen
    have hlast := @putConfig_guarded order detached.value.1 _ _ _ fault hlen hend
    rw [hstate,hevents]
    have hmemory := @remember_append _ _ _ _ _ (own new) (written.events++cleared.events)
      detached.events owners
    refine ⟨(throughout_append _ _ _).mpr
      ⟨(throughout_append _ _ _).mpr ⟨hall,hall'⟩,?_,trivial⟩,?_⟩
    · rw [hmemory]
      exact hlast
    · rw [remember_append,hmemory]
      exact hlast

/-- Condition on one reconciliation: every element that takes over a live
slot has its veth attached already, or shares it with an earlier element. -/
def VethsReady (s : State) (new : List Backend) : Prop :=
  ∀ j<s.pool.backends.length,∀ b∈new[j]?,
    b.vethName∈s.pool.byVeth ∨ b.vethName∈vethNames (new.take j)

instance (s : State) (new : List Backend) : Decidable (VethsReady s new) :=
  inferInstanceAs (Decidable (∀ j<s.pool.backends.length,∀ b∈new[j]?,_))

/-- The condition holds before every attempt of a run. -/
def VethsReadyRun (order : ByteOrder) : State → List Attempt → Prop
  | _,[] => True
  | s,a::rest => VethsReady s a.newBackends ∧ VethsReadyRun order (next order s a) rest

/-- All live slots are guarded at every point of a run: in its first state
and after every call of every attempt. -/
def GuardedRun (order : ByteOrder) : State → Owners → List Attempt → Prop
  | s,owners,[] => Guarded s.world owners
  | s,owners,a::rest =>
    Guarded s.world owners ∧
      Throughout (own a.newBackends) Guarded (attempt order s a).events owners ∧
      GuardedRun order (next order s a)
        (remember (own a.newBackends) (attempt order s a).events owners) rest

instance decidableVethsReadyRun (order : ByteOrder) :
    (s : State) → (attempts : List Attempt) → Decidable (VethsReadyRun order s attempts)
  | _,[] => isTrue trivial
  | s,a::rest =>
    have := decidableVethsReadyRun order (next order s a) rest
    inferInstanceAs (Decidable (_ ∧ _))

instance decidableGuardedRun (order : ByteOrder) : (s : State) → (owners : Owners) →
    (attempts : List Attempt) → Decidable (GuardedRun order s owners attempts)
  | s,owners,[] => inferInstanceAs (Decidable (Guarded s.world owners))
  | s,owners,a::rest =>
    have := decidableGuardedRun order (next order s a)
      (remember (own a.newBackends) (attempt order s a).events owners) rest
    inferInstanceAs (Decidable (_ ∧ _ ∧ _))

/-- In a settled state the live indices are the positions of the remembered
list. -/
theorem Settled.live_iff {s : State} (hs : Settled order s) {index : UInt32} :
    Live s.world.configMap index ↔ index.toNat<s.pool.backends.length := by
  obtain ⟨cfg,hcfg,hcount⟩ := hs.count
  have hn := toNat_ofNat_of_le hs.bounded
  constructor
  · rintro ⟨found,hfound,hlt⟩
    obtain rfl : cfg=found := Option.some.inj (hcfg.symm.trans hfound)
    rwa [hcount,UInt32.lt_iff_toNat_lt,hn] at hlt
  · intro hlt
    refine ⟨cfg,hcfg,?_⟩
    rwa [hcount,UInt32.lt_iff_toNat_lt,hn]

/-- The condition in terms of positions and live indices. -/
theorem VethsReady.readyFrom {s : State} (hs : Settled order s) (h : VethsReady s new) :
    ReadyFrom s.world.configMap s.pool.byVeth new 0 := by
  intro j b _ hmax hb hl
  rw [Settled.live_iff hs,toNat_ofNat_of_le hmax] at hl
  rcases h j hl b hb with hm|hm
  · exact Or.inl hm
  · obtain ⟨c,hc,hname⟩ := List.mem_map.mp hm
    obtain ⟨k,hk⟩ := List.mem_iff_getElem?.mp hc
    have hkj : k<j := by
      have hlt := (List.getElem?_eq_some_iff.mp hk).1
      rw [List.length_take] at hlt
      omega
    rw [List.getElem?_take_of_lt hkj] at hk
    exact Or.inr ⟨k,c,Nat.zero_le k,hkj,hk,hname⟩

/-- From a settled and guarded state on, a run whose attempts all meet the
condition is guarded at every point. -/
theorem guardedRun_of_ready {s : State} {attempts : List Attempt} (hs : Settled order s)
    (hg : Guarded s.world owners) (hready : VethsReadyRun order s attempts) :
    GuardedRun order s owners attempts := by
  induction attempts generalizing s owners with
  | nil => exact hg
  | cons a rest ih =>
    obtain ⟨hall,hend⟩ := sync_guarded (attempt_runs order s a) hs.tracked hg
      (fun _ => (Settled.live_iff hs).mp) (hready.1.readyFrom hs)
    exact ⟨hg,hall,ih (next_settled hs) hend hready.2⟩

/-- No forwarding without a return path. In every run in which each list only
gives live slots to elements with ready veths, every live slot in use
belongs to a backend with an attached veth at every point, whatever fails.
Then a frame is rewritten only for such a backend. -/
theorem return_path_open (order : ByteOrder) (vip : IP) (vport : UInt16) (srcMAC : HardwareAddr)
    (attempts : List Attempt)
    (hready : VethsReadyRun order (initial vip vport srcMAC) attempts) :
    GuardedRun order (initial vip vport srcMAC) (fun _ => none) attempts ∧
      ∀ world owners,Guarded world owners → ∀ prandom frame cfg info,
        Selects order world prandom frame cfg info →
        ∃ b,owners (prandom%cfg.backendCount)=some b ∧ b.vethName∈world.vethLinks := by
  have hs := initial_settled order vip vport srcMAC
  refine ⟨guardedRun_of_ready hs (fun index info hlive _ _ => ?_) hready,
    fun world owners hg prandom frame cfg info => hg.selected⟩
  exact absurd ((Settled.live_iff hs).mp hlive) (Nat.not_lt_zero _)

/-- Replacing the only backend writes its live slot before the new veth is
attached. -/
theorem return_path_missing_while_replacing :
    ¬GuardedRun .little bridgePool (fun _ => none)
      [unhindered [bridged 2 "veth2"],unhindered [bridged 3 "veth3"]] := by
  decide

/-- Growing and shrinking again keeps the return path open. -/
theorem return_path_open_growing :
    GuardedRun .little (initial [172,17,0,1] 80 [2,66,1,2,3,4]) (fun _ => none)
      [unhindered [bridged 2 "veth2"],unhindered [bridged 2 "veth2",bridged 3 "veth3"],
        unhindered [bridged 3 "veth3"]] :=
  (return_path_open .little [172,17,0,1] 80 [2,66,1,2,3,4]
    [unhindered [bridged 2 "veth2"],unhindered [bridged 2 "veth2",bridged 3 "veth3"],
      unhindered [bridged 3 "veth3"]] (by decide)).1

end ContainerLb.ReturnPath

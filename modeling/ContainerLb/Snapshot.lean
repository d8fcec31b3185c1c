import ContainerLb.DnatRefinement

/-!
# What frames see while the maps are being written

Slots are written one by one under the old count. At every point of every
run each live slot shows an element of the last completed list or of a list
attempted since, at its own position, or nothing. Frames that meet a zeroed
slot pass unchanged; whether a reconciliation has such points depends on the
two lists only.
-/

namespace ContainerLb.Snapshot

open CallProgram BoundedMaps HostBytes NetAddresses BpfManager PoolSync ManagerSteps
open SyncPhases SlotEffects SyncEffects SyncContract PoolRuns PacketPath PacketEffects
open DnatRefinement

variable {order : ByteOrder} {p : Pool} {world : World} {new : List Backend}

/-- The lists whose elements the live slots may show. -/
structure History where
  /-- The last list whose configuration was written. -/
  completed : List Backend
  /-- The lists attempted after it, the latest first. -/
  later : List (List Backend)

/-- All lists of a history. -/
def History.lists (h : History) : List (List Backend) := h.completed::h.later

/-- A reconciliation of a list has started. -/
def History.started (h : History) (new : List Backend) : History := ⟨h.completed,new::h.later⟩

/-- The history after a call of this reconciliation. -/
def History.seenAt (h : History) (new : List Backend) (e : Step) : History :=
  if configures e then ⟨new,[]⟩ else h.started new

/-- A slot is zero or holds the element of one of the lists at its position. -/
def ShownBy (order : ByteOrder) (world : World) (idx : ℕ) (lists : List (List Backend)) : Prop :=
  world.backendMap.lookup (UInt32.ofNat idx)=some emptyBackend ∨
    ∃ list∈lists,∃ b,list[idx]?=some b ∧ InSlot order world idx b

/-- The configured count is the length of the completed list, within the map
size, and every slot below it shows one of the lists. -/
structure Fresh (order : ByteOrder) (world : World) (h : History) : Prop where
  /-- The configured count. -/
  count : ∃ cfg,world.configMap.lookup 0=some cfg ∧
    cfg.backendCount=UInt32.ofNat h.completed.length
  /-- The map size. -/
  bounded : h.completed.length≤ maxBackends
  /-- The slots below the count. -/
  slots : ∀ idx<h.completed.length,ShownBy order world idx h.lists

/-- One call of a reconciliation keeps a slot within the lists. -/
theorem ShownBy.step {lists : List (List Backend)} {op : Call} {idx : ℕ}
    (hop : SyncCall order p new op) (hidx : idx≤ maxBackends) (hnew : new∈lists) (fault : Fault)
    (h : ShownBy order world idx lists) :
    ShownBy order (ManagerSteps.step op fault world).after idx lists := by
  rcases hop.slot hidx fault world with hkept|⟨_,hzero,_⟩|⟨b,hb,hslot⟩
  · rcases h with h|⟨list,hlist,b,hb,hslot⟩
    · exact Or.inl (hkept.trans h)
    · exact Or.inr ⟨list,hlist,b,hb,hslot.congr hkept⟩
  · exact Or.inl hzero
  · exact Or.inr ⟨new,hnew,b,hb,hslot⟩

/-- A successful reconciliation leaves its own list only. -/
theorem fresh_of_success {o : GoOutcome (Pool×Option GoError)}
    (hc : Contract order p new world o) (hok : o.value.2=none) :
    Fresh order o.state ⟨new,[]⟩ := by
  obtain ⟨_,hlen,hconfig⟩ := hc.done hok
  refine ⟨⟨_,hconfig,rfl⟩,hlen,fun idx hidx => ?_⟩
  have hb := List.getElem?_eq_getElem hidx
  exact Or.inr ⟨new,List.mem_singleton.mpr rfl,_,hb,hc.filled hok idx _ hb⟩

/-- At every point of a reconciliation the slots show lists of the history,
and at its end too. -/
theorem sync_fresh {iter : IterOrder} {o : GoOutcome (Pool×Option GoError)} {h : History}
    (hr : Runs handle (sync order p new iter) world o) (hf : Fresh order world h) :
    (∀ e∈o.events,Fresh order e.after (h.seenAt new e)) ∧
      Fresh order o.state (if o.value.2=none then ⟨new,[]⟩ else h.started new) := by
  have hc := sync_contract hr
  have hstart : ∀ idx<h.completed.length,ShownBy order world idx (h.started new).lists := by
    intro idx hidx
    rcases hf.slots idx hidx with hzero|⟨list,hlist,hrest⟩
    · exact Or.inl hzero
    · refine Or.inr ⟨list,?_,hrest⟩
      simp only [History.lists,History.started,List.mem_cons] at hlist ⊢
      tauto
  have hnew : new∈(h.started new).lists := by simp [History.lists,History.started]
  obtain ⟨hpoints,hend⟩ := hr.invariant (SyncCall order p new)
    (fun w => ∀ idx<h.completed.length,ShownBy order w idx (h.started new).lists)
    (fun op fault w hop hw idx hidx =>
      (hw idx hidx).step hop (hidx.le.trans hf.bounded) hnew fault) hc.calls hstart
  constructor
  · intro e hm
    rcases hc.config e hm with ⟨hconf,hok,hlast⟩|⟨hconf,hkept⟩
    · rw [History.seenAt,if_pos hconf,hlast]
      exact fresh_of_success hc hok
    · rw [History.seenAt,if_neg (by simp [hconf])]
      refine ⟨?_,hf.bounded,hpoints e hm⟩
      rw [hkept]
      exact hf.count
  · split
    · rename_i hok
      exact fresh_of_success hc hok
    · rename_i herr
      refine ⟨?_,hf.bounded,hend⟩
      rw [(hc.failed herr).2]
      exact hf.count

/-- In a fresh world a frame is left alone or addressed to an element of one
of the lists. -/
theorem Fresh.ingress {h : History} {cpus : ℕ} {counters : Counters cpus} {cpu : Fin cpus}
    {prandom : UInt32} {frame : List UInt8} {v : Verdict cpus} (hf : Fresh order world h)
    (hrun : xdpLbIngress order world counters cpu prandom frame=some v) :
    v.frame=frame ∨ ∃ list∈h.lists,∃ b∈list,AddressedTo b v.frame := by
  rcases xdpLbIngress_cases counters cpu order world prandom frame with
    ⟨cfg,info,_,hs,_,_⟩|⟨_,hsame⟩
  · obtain ⟨found,hfound,hcount⟩ := hf.count
    obtain rfl : cfg=found := Option.some.inj (hs.config.symm.trans hfound)
    have hpos : h.completed.length≠0 := by
      intro hz
      rw [hz] at hcount
      exact hs.count hcount
    have hslot := hs.slot
    rw [hcount,prandom_mod hf.bounded] at hslot
    rcases hf.slots _ (Nat.mod_lt prandom.toNat (Nat.pos_of_ne_zero hpos)) with
      hzero|⟨list,hlist,b,hb,v4,hv,hin⟩
    · rw [hzero] at hslot
      obtain rfl := Option.some.inj hslot
      exact absurd rfl hs.address
    · rw [hin] at hslot
      obtain rfl := Option.some.inj hslot
      obtain ⟨w,hw,haddressed,_⟩ := Selects.addressed counters cpu hv hs
      obtain rfl : w=v := Option.some.inj (hw.symm.trans hrun)
      exact Or.inr ⟨list,hlist,b,List.mem_of_getElem? hb,haddressed⟩
  · obtain rfl := Option.some.inj (hsame.symm.trans hrun)
    exact Or.inl rfl

/-- The slots show lists of the history at every point of a run: in its first
state and after every call of every attempt. -/
def FreshRun (order : ByteOrder) : State → History → List Attempt → Prop
  | s,h,[] => Fresh order s.world h
  | s,h,a::rest =>
    Fresh order s.world h ∧
      (∀ e∈(attempt order s a).events,Fresh order e.after (h.seenAt a.newBackends e)) ∧
      FreshRun order (next order s a)
        (if Succeeds order s a then ⟨a.newBackends,[]⟩ else h.started a.newBackends) rest

/-- From a fresh state on, every run is fresh at every point. -/
theorem freshRun_of_fresh {s : State} {h : History} (attempts : List Attempt)
    (hf : Fresh order s.world h) : FreshRun order s h attempts := by
  induction attempts generalizing s h with
  | nil => exact hf
  | cons a rest ih =>
    obtain ⟨hpoints,hend⟩ := sync_fresh (attempt_runs order s a) hf
    exact ⟨hf,hpoints,ih hend⟩

/-- Bounded staleness. At every point of every run, whatever fails, the count
is the length of the last completed list and every live slot is zero or the
encoding of the element at its position of that list or of a later attempted
one. So no frame is ever addressed to anything else. -/
theorem staleness_bounded (order : ByteOrder) (vip : IP) (vport : UInt16) (srcMAC : HardwareAddr)
    (attempts : List Attempt) :
    FreshRun order (initial vip vport srcMAC) ⟨[],[]⟩ attempts ∧
      ∀ world h,Fresh order world h → ∀ (cpus : ℕ) (counters : Counters cpus) (cpu : Fin cpus)
        (prandom : UInt32) (frame : List UInt8) (v : Verdict cpus),
        xdpLbIngress order world counters cpu prandom frame=some v →
        v.frame=frame ∨ ∃ list∈h.lists,∃ b∈list,AddressedTo b v.frame := by
  refine ⟨freshRun_of_fresh attempts ⟨⟨emptyConfig,?_,rfl⟩,Nat.zero_le _,nofun⟩,
    fun world h hf cpus counters cpu prandom frame v => hf.ingress⟩
  exact ArrayMap.lookup_replicate (by decide)

/-- Every eligible frame is addressed to an element of a list, with the
configured source hardware address. -/
def Consistent (order : ByteOrder) (vip : IP) (srcMAC : HardwareAddr) (backends : List Backend)
    (world : World) : Prop :=
  ∀ (cpus : ℕ) (counters : Counters cpus) (cpu : Fin cpus) (prandom : UInt32)
    (frame : List UInt8),Eligible order vip frame →
    ∃ b∈backends,∃ v,xdpLbIngress order world counters cpu prandom frame=some v ∧
      AddressedTo b v.frame ∧ slice v.frame 6 6=(macBytes srcMAC).toList

/-- The new list starts with the addresses of the old one. -/
def Extends (old new : List Backend) : Prop :=
  old.length≤new.length ∧ ∀ i<old.length,∀ b∈old[i]?,∀ c∈new[i]?,b.ip.equal c.ip=true

instance (old new : List Backend) : Decidable (Extends old new) :=
  inferInstanceAs (Decidable (_ ∧ _))

/-- The environment refuses to zero the slot of a position. -/
def ClearRefused (events : List Step) (j : ℕ) : Prop :=
  ∀ e∈events,e.op=.putBackend (UInt32.ofNat j) emptyBackend → e.label.first≠none

/-- The new list is not shorter than the old one, and at every position of
the old list it keeps the address or the environment refuses to zero the
slot. -/
def KeepsLive (events : List Step) (old new : List Backend) : Prop :=
  old.length≤new.length ∧
    ∀ j<old.length,∀ b∈old[j]?,∀ c∈new[j]?,b.ip.equal c.ip=true ∨ ClearRefused events j

variable {vip : IP} {vport : UInt16} {srcMAC : HardwareAddr}

/-- A world with filled slots below its count is consistent. -/
theorem consistent_of_filled {backends : List Backend} {count : ℕ} (hcount : count≤ maxBackends)
    (hpos : count≠0) (hconfig : world.configMap.lookup 0=
      some (lbConfig order vip vport (UInt32.ofNat count) srcMAC))
    (hslots : ∀ j<count,∃ b∈backends,InSlot order world j b)
    (hips : ∀ b∈backends,b.ip.to4≠some ⟨0,0,0,0⟩) :
    Consistent order vip srcMAC backends world := by
  intro cpus counters cpu prandom frame he
  obtain ⟨b,hb,hslot⟩ := hslots _ (Nat.mod_lt prandom.toNat (Nat.pos_of_ne_zero hpos))
  exact ⟨b,hb,eligible_addressed he hcount hpos hconfig hslot (hips b hb)⟩

/-- The state that a successful reconciliation of a list with the given
settings leaves. -/
structure Synced (order : ByteOrder) (vip : IP) (vport : UInt16) (srcMAC : HardwareAddr)
    (old : List Backend) (p : Pool) (world : World) : Prop where
  /-- The remembered list. -/
  backends : p.backends=old
  /-- The settings. -/
  settings : p.vip=vip ∧ p.vport=vport ∧ p.srcMAC=srcMAC
  /-- The map size. -/
  bounded : old.length≤ maxBackends
  /-- The configuration. -/
  config : world.configMap.lookup 0=
    some (lbConfig order vip vport (UInt32.ofNat old.length) srcMAC)
  /-- The slots. -/
  slots : ∀ j b,old[j]?=some b → InSlot order world j b

/-- Success leaves such a state. -/
theorem Contract.synced {o : GoOutcome (Pool×Option GoError)}
    (hc : Contract order p new world o) (hsettings : p.vip=vip ∧ p.vport=vport ∧ p.srcMAC=srcMAC)
    (hok : o.value.2=none) : Synced order vip vport srcMAC new o.value.1 o.state := by
  obtain ⟨hbackends,hlen,hconfig⟩ := hc.done hok
  obtain ⟨hvip,hport,hmac⟩ := hc.settings
  rw [poolConfig,hsettings.1,hsettings.2.1,hsettings.2.2] at hconfig
  exact ⟨hbackends,⟨hvip.trans hsettings.1,hport.trans hsettings.2.1,hmac.trans hsettings.2.2⟩,
    hlen,hconfig,hc.filled hok⟩

/-- A call that may zero a live slot is refused, or the slot keeps its
address. -/
def LiveCall (old new : List Backend) (op : Call) (fault : Fault) : Prop :=
  ∀ j<old.length,op=.putBackend (UInt32.ofNat j) emptyBackend → fault.first=none →
    ∃ b c,old[j]?=some b ∧ new[j]?=some c ∧ b.ip.equal c.ip=true

/-- Under the condition all calls are of this kind. -/
theorem KeepsLive.calls {events : List Step} {old : List Backend}
    (h : KeepsLive events old new) : ∀ e∈events,LiveCall old new e.op e.label := by
  intro e hm j hj hop hfault
  have hb := List.getElem?_eq_getElem hj
  have hc := List.getElem?_eq_getElem (hj.trans_le h.1)
  rcases h.2 j hj _ hb _ hc with heq|hrefused
  · exact ⟨_,_,hb,hc,heq⟩
  · exact absurd hfault (hrefused e hm hop)

/-- Such a call keeps all live slots in use. -/
theorem LiveCall.slots {old : List Backend} {op : Call} {fault : Fault} {world : World}
    (hlive : LiveCall old new op fault) (hop : SyncCall order p new op) (hold : p.backends=old)
    (hbound : old.length≤ maxBackends) (hw : ∀ j<old.length,∃ b∈old++new,InSlot order world j b) :
    ∀ j<old.length,∃ b∈old++new,InSlot order (step op fault world).after j b := by
  intro j hj
  obtain ⟨b,hb,hslot⟩ := hw j hj
  rcases hop.slot (hj.le.trans hbound) fault world with hkept|⟨rfl,_,previous,hp,hne⟩|⟨c,hc,hfilled⟩
  · exact ⟨b,hb,hslot.congr hkept⟩
  · -- the write is refused, since the address at the position changes
    have hfault : fault.first≠none := by
      intro hf
      obtain ⟨found,c,hfound,hc,heq⟩ := hlive j hj rfl hf
      rw [hold,hfound] at hp
      obtain rfl := Option.some.inj hp
      rw [hne c hc] at heq
      contradiction
    have hindex : (UInt32.ofNat j).toNat< maxBackends := by
      rw [toNat_ofNat_of_le (hj.le.trans hbound)]
      exact hj.trans_le hbound
    rcases putBackend_cases (UInt32.ofNat j) emptyBackend fault world with ⟨_,he⟩|⟨hreply,_⟩
    · rw [he]
      exact ⟨b,hb,hslot⟩
    · exact absurd ((putBackend_reply (toNat_ofNat_lt hj hbound)).mp hreply) hfault
  · exact ⟨c,List.mem_append_right _ (List.mem_of_getElem? hc),hfilled⟩

/-- When no live slot is zeroed, every point of a successful reconciliation
is consistent. -/
theorem sync_consistent {old : List Backend} {iter : IterOrder}
    {o : GoOutcome (Pool×Option GoError)} (hs : Synced order vip vport srcMAC old p world)
    (hr : Runs handle (sync order p new iter) world o) (hok : o.value.2=none)
    (hold : old≠[]) (hnew : new≠[]) (hips : ∀ b∈old++new,b.ip.to4≠some ⟨0,0,0,0⟩)
    (hkeeps : KeepsLive o.events old new) :
    ∀ e∈o.events,Consistent order vip srcMAC (old++new) e.after := by
  have hc := sync_contract hr
  obtain ⟨hpoints,_⟩ := hr.labelled_invariant
    (fun op fault => SyncCall order p new op ∧ LiveCall old new op fault)
    (fun w => ∀ j<old.length,∃ b∈old++new,InSlot order w j b)
    (fun _ _ _ hop hw => hop.2.slots hop.1 hs.backends hs.bounded hw)
    (fun e hm => ⟨hc.calls e hm,hkeeps.calls e hm⟩) fun j hj =>
    ⟨_,List.mem_append_left _ (List.getElem_mem hj),
      hs.slots j _ (List.getElem?_eq_getElem hj)⟩
  intro e hm
  rcases hc.config e hm with ⟨_,_,hlast⟩|⟨_,hkept⟩
  · rw [hlast]
    have hsynced := Contract.synced hc hs.settings hok
    refine consistent_of_filled hsynced.bounded (fun h => hnew (List.length_eq_zero_iff.mp h))
      hsynced.config (fun j hj => ?_) hips
    exact ⟨_,List.mem_append_right _ (List.getElem_mem hj),
      hsynced.slots j _ (List.getElem?_eq_getElem hj)⟩
  · have hconfig := hs.config
    rw [←hkept] at hconfig
    exact consistent_of_filled hs.bounded (fun h => hold (List.length_eq_zero_iff.mp h)) hconfig
      (hpoints e hm) hips

/-- A frame for an address whose source hardware address starts with a given
byte. -/
def probe (first : UInt8) (daddr : Quad) : List UInt8 :=
  [0,0,0,0,0,0,first,0,0,0,0,0,0x08,0x00,
    0x45,0,0,28,0,0,0,0,64,1,0,0,0,0,0,0]++daddr.toList++[8,0,0,0,0,0,0,0]

/-- A zeroed live slot lets a frame pass. -/
theorem not_consistent_of_zeroed {backends : List Backend} {count j : ℕ} {v4 : Quad}
    (hvip : vip.to4=some v4) (hcount : count≤ maxBackends) (hj : j<count)
    (hconfig : world.configMap.lookup 0=
      some (lbConfig order vip vport (UInt32.ofNat count) srcMAC))
    (hzero : world.backendMap.lookup (UInt32.ofNat j)=some emptyBackend) :
    ¬Consistent order vip srcMAC backends world := by
  intro hcon
  have hplain : PlainIcmp (probe ((macBytes srcMAC)[0]+1) v4) :=
    ⟨Nat.le_refl 42,rfl,rfl,rfl,rfl⟩
  obtain ⟨b,_,v,hrun,_,hsource⟩ := hcon 1 (.replicate maxBackends (Vector.replicate 1 ⟨0,0⟩)) 0
    (UInt32.ofNat j) (probe ((macBytes srcMAC)[0]+1) v4) ⟨hplain.icmp,v4,hvip,Or.inr rfl⟩
  have hsame := @xdpLbIngress_otherwise order (probe ((macBytes srcMAC)[0]+1) v4) _ world
    (.replicate maxBackends (Vector.replicate 1 ⟨0,0⟩)) 0 (UInt32.ofNat j) ?_
  · obtain rfl := Option.some.inj (hsame.symm.trans hrun)
    -- the frame still has its own source hardware address
    have hfirst : some ((macBytes srcMAC)[0]+1)=(macBytes srcMAC).toList[0]? :=
      congrArg (·[0]?) hsource
    rw [Vector.getElem?_toList,Vector.getElem?_eq_getElem (by decide),Option.some_inj] at hfirst
    have hvalue := congrArg UInt8.toNat hfirst
    rw [UInt8.toNat_add] at hvalue
    have hlt := ((macBytes srcMAC)[0]).toNat_lt
    simp only [UInt8.reduceToNat] at hvalue
    omega
  · intro cfg info hs
    obtain rfl := Option.some.inj (hconfig.symm.trans hs.config)
    have hslot := hs.slot
    change world.backendMap.lookup (UInt32.ofNat j%UInt32.ofNat count)=some info at hslot
    rw [prandom_mod hcount,toNat_ofNat_of_le (hj.le.trans hcount),Nat.mod_eq_of_lt hj,hzero] at hslot
    obtain rfl := Option.some.inj hslot
    exact hs.address rfl

/-- A successful `ClearBackend` passes through a point with a zeroed slot. -/
theorem clearBackend_zeroing {index : UInt32} {ip : IP} {o : GoOutcome (Option GoError)}
    (hr : Runs handle (clearBackend order index ip) world o) (hok : o.value=none) :
    ∃ e∈o.events,e.after.backendMap.lookup index=some emptyBackend := by
  obtain ⟨fault,⟨_,hn,_⟩|⟨hput,_,middle,_,⟨_,_,he⟩|⟨v4,fault',_,_,he⟩⟩⟩ := runs_clearBackend hr
  · exact absurd hok hn
  · rw [he]
    exact ⟨_,List.mem_cons_self,(putBackend_filled hput).2⟩
  · rw [he]
    exact ⟨_,List.mem_cons_self,(putBackend_filled hput).2⟩

/-- Without failures the first loop zeroes every slot whose address changes,
before it writes the new element. -/
theorem writeBackends_zeroing {rest : List Backend} {i j : ℕ} {oldByVeth : VethMap}
    {o : GoOutcome (Pool×VethMap×Option GoError)} {b previous : Backend}
    (hrest : rest=new.drop i) (hi : i≤ maxBackends)
    (hr : Runs handle (writeBackends order p i oldByVeth rest) world o)
    (hok : o.value.2.2=none) (hu : ∀ e∈o.events,Unfailing e) (hj : i≤j) (hb : new[j]?=some b)
    (hreused : reusedBy p.backends j b=some previous) :
    ∃ e∈o.events,e.after.backendMap.lookup (UInt32.ofNat j)=some emptyBackend := by
  induction rest generalizing p i oldByVeth world o with
  | nil =>
    rw [drop_nil hrest hj] at hb
    contradiction
  | cons c rest ih =>
    obtain ⟨hc,htail⟩ := drop_cons hrest
    obtain ⟨body,hbody,⟨_,_,herr,_⟩|⟨hnone,tail,ht,rfl⟩⟩ := runs_writeBackends_cons hr
    · exact absurd hok herr
    · have hspec := writeBackend_spec hi hc hbody
      rcases Nat.eq_or_lt_of_le hj with rfl|hlt
      · obtain rfl : c=b := Option.some.inj (hc.symm.trans hb)
        obtain ⟨cleared,updated,hcleared,_,hcases⟩ := runs_writeBackend hbody
        have hin : ∀ e∈cleared.events,e∈body.events := by
          intro e hm
          rcases hcases with ⟨_,_,_,_,he⟩|⟨_,_,_,_,he⟩|⟨_,_,fault,_,_,he⟩ <;> rw [he] <;>
            simp [hm]
        rcases runs_clearReused hcleared with ⟨hno,_⟩|⟨found,inner,_,hrun,_,he⟩
        · rw [hreused] at hno
          contradiction
        · rw [he] at hin
          obtain ⟨e,hm,hzero⟩ := clearBackend_zeroing hrun (clearBackend_unfailing hrun
            fun e hm => hu e (List.mem_append_left _ (hin e hm))).1
          exact ⟨e,List.mem_append_left _ (hin e hm),hzero⟩
      · have hbackends : body.value.1.backends=p.backends := by rw [hspec.pool]
        rw [←hbackends] at hreused
        obtain ⟨e,hm,hzero⟩ := ih htail (hspec.done hnone).1 ht hok
          (fun e hm => hu e (List.mem_append_right _ hm)) hlt hreused
        exact ⟨e,List.mem_append_right _ hm,hzero⟩

/-- A successful reconciliation of a shorter list passes through a point with
a zeroed live slot. -/
theorem sync_zeroing_stale {iter : IterOrder} {o : GoOutcome (Pool×Option GoError)}
    (hr : Runs handle (sync order p new iter) world o) (hok : o.value.2=none)
    (hlt : new.length<p.backends.length) :
    ∃ e∈o.events,e.after.configMap=world.configMap ∧
      e.after.backendMap.lookup (UInt32.ofNat new.length)=some emptyBackend := by
  obtain ⟨written,cleared,detached,fault,hw,hwrote,hc,hclear,_,_,hevents⟩ :=
    runs_sync_succeeded hr hok
  have hslots := slotPhases hw hwrote hc
  have hbackends : written.value.1.backends=p.backends := by rw [hslots.write.pool]
  rw [hbackends,List.drop_eq_getElem_cons hlt] at hc
  obtain ⟨first,hfirst,⟨_,herr,_⟩|⟨hnone,tail,_,rfl⟩⟩ := runs_clearStale_cons hc
  · exact absurd hclear herr
  · obtain ⟨e,hm,hzero⟩ := clearBackend_zeroing hfirst hnone
    have hm' : e∈written.events++(first.events++tail.events) :=
      List.mem_append_right _ (List.mem_append_left _ hm)
    refine ⟨e,?_,hslots.config e hm',hzero⟩
    rw [hevents,List.append_assoc]
    exact List.mem_append_left _ hm'

/-- Without failures a reconciliation that changes the address of a live slot
passes through a point where it is zeroed. -/
theorem sync_zeroing_reused {iter : IterOrder} {o : GoOutcome (Pool×Option GoError)} {j : ℕ}
    {b c : Backend} (hr : Runs handle (sync order p new iter) world o) (hok : o.value.2=none)
    (hu : ∀ e∈o.events,Unfailing e) (hb : p.backends[j]?=some b) (hc : new[j]?=some c)
    (hne : b.ip.equal c.ip≠true) :
    ∃ e∈o.events,e.after.configMap=world.configMap ∧
      e.after.backendMap.lookup (UInt32.ofNat j)=some emptyBackend := by
  obtain ⟨written,cleared,detached,fault,hw,hwrote,hclear,_,_,_,hevents⟩ :=
    runs_sync_succeeded hr hok
  have hslots := slotPhases hw hwrote hclear
  have hin : ∀ e∈written.events,e∈o.events := by
    intro e hm
    rw [hevents,List.append_assoc,List.append_assoc]
    exact List.mem_append_left _ hm
  have hreused : reusedBy p.backends j c=some b := by simp only [reusedBy,hb,if_neg hne]
  obtain ⟨e,hm,hzero⟩ := writeBackends_zeroing List.drop_zero.symm (Nat.zero_le _) hw hwrote
    (fun e hm => hu e (hin e hm)) (Nat.zero_le j) hc hreused
  exact ⟨e,hin e hm,hslots.config e (List.mem_append_left _ hm),hzero⟩

/-- A point of a reconciliation with the old configuration and a zeroed live
slot is not consistent. -/
theorem Synced.not_consistent {old : List Backend} {v4 : Quad} {j : ℕ} {world' : World}
    (hs : Synced order vip vport srcMAC old p world) (hvip : vip.to4=some v4) (hj : j<old.length)
    (hconfig : world'.configMap=world.configMap)
    (hzero : world'.backendMap.lookup (UInt32.ofNat j)=some emptyBackend)
    (backends : List Backend) : ¬Consistent order vip srcMAC backends world' := by
  have hold := hs.config
  rw [←hconfig] at hold
  exact not_consistent_of_zeroed hvip hs.bounded hj hold hzero

/-- A successful reconciliation that is consistent at every point zeroes no
live slot. -/
theorem Synced.keepsLive {old backends : List Backend} {v4 : Quad} {iter : IterOrder}
    {o : GoOutcome (Pool×Option GoError)} (hs : Synced order vip vport srcMAC old p world)
    (hvip : vip.to4=some v4) (hr : Runs handle (sync order p new iter) world o)
    (hok : o.value.2=none) (hall : ∀ e∈o.events,Consistent order vip srcMAC backends e.after) :
    KeepsLive o.events old new := by
  refine ⟨?_,fun j hj b hb c hc => Or.inr fun e hm hop hfault => ?_⟩
  · by_contra hlt
    rw [not_le,←hs.backends] at hlt
    obtain ⟨e,hm,hconfig,hzero⟩ := sync_zeroing_stale hr hok hlt
    rw [hs.backends] at hlt
    exact hs.not_consistent hvip hlt hconfig hzero _ (hall e hm)
  · obtain ⟨before,he⟩ := hr.answered e hm
    have hindex : (UInt32.ofNat j).toNat< maxBackends := by
      rw [toNat_ofNat_of_le (hj.le.trans hs.bounded)]
      exact hj.trans_le hs.bounded
    have hzero : e.after.backendMap.lookup (UInt32.ofNat j)=some emptyBackend := by
      rw [he,hop]
      exact (putBackend_filled ((putBackend_reply (toNat_ofNat_lt hj hs.bounded)).mpr hfault)).2
    rcases (sync_contract hr).config e hm with ⟨hconfigures,_⟩|⟨_,hconfig⟩
    · rw [configures,hop] at hconfigures
      contradiction
    · exact hs.not_consistent hvip hj hconfig hzero _ (hall e hm)

/-- Without failures the new list even has to extend the old one. -/
theorem Synced.extends {old backends : List Backend} {v4 : Quad} {iter : IterOrder}
    {o : GoOutcome (Pool×Option GoError)} (hs : Synced order vip vport srcMAC old p world)
    (hvip : vip.to4=some v4) (hr : Runs handle (sync order p new iter) world o)
    (hok : o.value.2=none) (hu : ∀ e∈o.events,Unfailing e)
    (hall : ∀ e∈o.events,Consistent order vip srcMAC backends e.after) : Extends old new := by
  refine ⟨(hs.keepsLive hvip hr hok hall).1,fun j hj b hb c hc => ?_⟩
  by_contra hne
  rw [←hs.backends] at hb
  obtain ⟨e,hm,hconfig,hzero⟩ := sync_zeroing_reused hr hok hu hb hc hne
  exact hs.not_consistent hvip hj hconfig hzero _ (hall e hm)

/-- A list that extends the old one zeroes no live slot. -/
theorem Extends.keepsLive {old : List Backend} (h : Extends old new) (events : List Step) :
    KeepsLive events old new :=
  ⟨h.1,fun j hj b hb c hc => Or.inl (h.2 j hj b hb c hc)⟩

/-- Consistency of the snapshot. After a successful reconciliation of one
list and during a successful one of another, both not empty and with
addresses in use: every point is consistent exactly when the new list is not
shorter and every live slot keeps its address or is refused to be zeroed.
Without failing calls this means that the new list extends the old one. -/
theorem snapshot_consistent_iff (order : ByteOrder) (vip : IP) (vport : UInt16)
    (srcMAC : HardwareAddr) (v4 : Quad) (hvip : vip.to4=some v4) (attempts : List Attempt)
    (first second : Attempt)
    (hfirst : Succeeds order (run order (initial vip vport srcMAC) attempts) first)
    (hsecond : Succeeds order (run order (initial vip vport srcMAC) (attempts++[first])) second)
    (hold : first.newBackends≠[]) (hnew : second.newBackends≠[])
    (hips : ∀ b∈first.newBackends++second.newBackends,b.ip.to4≠some ⟨0,0,0,0⟩) :
    ((∀ e∈(attempt order (run order (initial vip vport srcMAC) (attempts++[first])) second).events,
        Consistent order vip srcMAC (first.newBackends++second.newBackends) e.after) ↔
      KeepsLive
        (attempt order (run order (initial vip vport srcMAC) (attempts++[first])) second).events
        first.newBackends second.newBackends) ∧
    (Smooth order (run order (initial vip vport srcMAC) (attempts++[first])) second →
      ((∀ e∈(attempt order (run order (initial vip vport srcMAC) (attempts++[first])) second).events,
        Consistent order vip srcMAC (first.newBackends++second.newBackends) e.after) ↔
      Extends first.newBackends second.newBackends)) := by
  have hsynced := Contract.synced (attempt_contract order _ first)
    (run_settings order vip vport srcMAC attempts) hfirst
  rw [run_concat] at hsecond ⊢
  have hr := attempt_runs order (next order (run order (initial vip vport srcMAC) attempts) first)
    second
  have hconsistent := sync_consistent hsynced hr hsecond hold hnew hips
  refine ⟨⟨hsynced.keepsLive hvip hr hsecond,hconsistent⟩,fun hsmooth => ⟨?_,fun hext => ?_⟩⟩
  · exact hsynced.extends hvip hr hsecond hsmooth.2
  · exact hconsistent (hext.keepsLive _)

/-- Replacing the only backend zeroes its live slot first, and an eligible
frame then passes unchanged. -/
theorem snapshot_hole_while_replacing :
    Smooth .little (run .little bridgePool [unhindered [bridged 2 "veth2"]])
        (unhindered [bridged 3 "veth3"]) ∧
      ∃ e∈(attempt .little (run .little bridgePool [unhindered [bridged 2 "veth2"]])
          (unhindered [bridged 3 "veth3"])).events,
        Eligible .little [172,17,0,1] (echo 8 0 0 ⟨192,168,0,9⟩ ⟨172,17,0,1⟩) ∧
          xdpLbIngress .little e.after (.replicate maxBackends (Vector.replicate 1 ⟨0,0⟩))
            (0 : Fin 1) 7 (echo 8 0 0 ⟨192,168,0,9⟩ ⟨172,17,0,1⟩)=
            some ⟨.pass,echo 8 0 0 ⟨192,168,0,9⟩ ⟨172,17,0,1⟩,
              .replicate maxBackends (Vector.replicate 1 ⟨0,0⟩)⟩ := by
  decide

/-- Appending a backend is consistent at every point. -/
theorem snapshot_consistent_growing :
    Extends [bridged 2 "veth2"] [bridged 2 "veth2",bridged 3 "veth3"] ∧
      ∀ e∈(attempt .little (run .little (initial [172,17,0,1] 80 [2,66,1,2,3,4])
          ([]++[unhindered [bridged 2 "veth2"]]))
          (unhindered [bridged 2 "veth2",bridged 3 "veth3"])).events,
        Consistent .little [172,17,0,1] [2,66,1,2,3,4]
          ([bridged 2 "veth2"]++[bridged 2 "veth2",bridged 3 "veth3"]) e.after :=
  ⟨by decide,((snapshot_consistent_iff .little [172,17,0,1] 80 [2,66,1,2,3,4] ⟨172,17,0,1⟩
    (by decide) [] (unhindered [bridged 2 "veth2"])
    (unhindered [bridged 2 "veth2",bridged 3 "veth3"]) (by decide) (by decide) (by decide)
    (by decide) (by decide)).2 (by decide)).mpr (by decide)⟩

end ContainerLb.Snapshot

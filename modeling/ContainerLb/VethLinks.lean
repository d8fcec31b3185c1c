import ContainerLb.PoolRuns

/-!
# Links on the veths

The manager records one link handle per veth name and the pool remembers the
names. Whatever fails, both name the same veths, every handle is that of a
live link and every live link has exactly one name. A link stays on the
interface that it was first attached to: a later backend with the same veth
name does not move it.
-/

namespace ContainerLb.VethLinks

open CallProgram BoundedMaps HostBytes NetAddresses BpfManager PoolSync ManagerSteps
open SyncPhases SlotEffects SyncEffects SyncContract PoolRuns

variable {order : ByteOrder} {p : Pool} {world : World} {new : List Backend}

/-- Recorded names and live links correspond one to one. -/
structure Linked (world : World) : Prop where
  /-- Every recorded link is alive. -/
  live : ∀ name l,world.vethLinks.lookup name=some l → l∈world.links
  /-- Different names have different links. -/
  once : ∀ name other l,world.vethLinks.lookup name=some l →
    world.vethLinks.lookup other=some l → name=other
  /-- Every live link is recorded. -/
  recorded : ∀ l,l∈world.links → ∃ name,world.vethLinks.lookup name=some l
  /-- Handles are given out once. -/
  fresh : ∀ l,l∈world.links → l<world.nextLink

/-- Without links they correspond. -/
theorem newWorld_linked : Linked newWorld := by
  have hnames : ∀ name l,newWorld.vethLinks.lookup name≠some l := by simp [newWorld]
  have hlinks : ∀ l,l∉newWorld.links := fun _ => Finmap.notMem_empty
  exact ⟨fun name l h => absurd h (hnames name l),fun name _ l h => absurd h (hnames name l),
    fun l h => absurd h (hlinks l),fun l h => absurd h (hlinks l)⟩

/-- Lookups after a fresh link was recorded under a name. -/
theorem Linked.lookup_insert {vethName name : String} {l : ℕ} (h : Linked world)
    (hl : (world.vethLinks.insert vethName world.nextLink).lookup name=some l) :
    name=vethName ∧ l=world.nextLink ∨
      name≠vethName ∧ world.vethLinks.lookup name=some l ∧ l<world.nextLink := by
  by_cases hname : name=vethName
  · rw [hname,Finmap.lookup_insert] at hl
    exact Or.inl ⟨hname,(Option.some.inj hl).symm⟩
  · rw [Finmap.lookup_insert_of_ne _ hname] at hl
    exact Or.inr ⟨hname,hl,h.fresh l (h.live name l hl)⟩

/-- A fresh link under a new name. -/
theorem Linked.insert {vethName : String} {iface : ℤ} {mode : XdpMode} (h : Linked world)
    (hnew : vethName∉world.vethLinks) :
    Linked {world with
      vethLinks := world.vethLinks.insert vethName world.nextLink
      links := world.links.insert world.nextLink ⟨iface,mode⟩
      nextLink := world.nextLink+1} := by
  constructor
  · intro name l hl
    rw [Finmap.mem_insert]
    rcases h.lookup_insert hl with ⟨_,hfresh⟩|⟨_,hold,_⟩
    · exact Or.inl hfresh
    · exact Or.inr (h.live name l hold)
  · intro name other l hl hl'
    -- the fresh handle is above all old ones, so a mixed pair cannot share it
    rcases h.lookup_insert hl with ⟨hname,hfresh⟩|⟨_,hold,hlt⟩
    · rcases h.lookup_insert hl' with ⟨hother,_⟩|⟨_,_,hlt⟩
      · rw [hname,hother]
      · exact absurd hfresh hlt.ne
    · rcases h.lookup_insert hl' with ⟨_,hfresh⟩|⟨_,hold',_⟩
      · exact absurd hfresh hlt.ne
      · exact h.once name other l hold hold'
  · intro l hl
    rcases Finmap.mem_insert.mp hl with rfl|hl
    · exact ⟨vethName,Finmap.lookup_insert _⟩
    · obtain ⟨name,hname⟩ := h.recorded l hl
      have hne : name≠vethName := by
        rintro rfl
        exact hnew (Finmap.mem_of_lookup_eq_some hname)
      exact ⟨name,by rw [Finmap.lookup_insert_of_ne _ hne]; exact hname⟩
  · intro l hl
    rcases Finmap.mem_insert.mp hl with rfl|hl
    · exact Nat.lt_succ_self _
    · exact Nat.lt_succ_of_lt (h.fresh l hl)

/-- A closed link and its name removed. -/
theorem Linked.erase {vethName : String} {l : ℕ} (h : Linked world)
    (hl : world.vethLinks.lookup vethName=some l) :
    Linked {world with
      links := world.links.erase l
      vethLinks := world.vethLinks.erase vethName} := by
  have hother : ∀ name l',(world.vethLinks.erase vethName).lookup name=some l' →
      name≠vethName ∧ world.vethLinks.lookup name=some l' := by
    intro name l' hl'
    have hne : name≠vethName := by
      rintro rfl
      rw [Finmap.lookup_erase] at hl'
      contradiction
    rw [Finmap.lookup_erase_ne hne] at hl'
    exact ⟨hne,hl'⟩
  constructor
  · intro name l' hl'
    obtain ⟨hne,hkept⟩ := hother name l' hl'
    refine Finmap.mem_erase.mpr ⟨?_,h.live name l' hkept⟩
    rintro rfl
    exact hne (h.once name vethName l' hkept hl)
  · intro name other l' hl' hl''
    exact h.once name other l' (hother name l' hl').2 (hother other l' hl'').2
  · intro l' hl'
    obtain ⟨hne,hlive⟩ := Finmap.mem_erase.mp hl'
    obtain ⟨name,hname⟩ := h.recorded l' hlive
    have hne' : name≠vethName := by
      rintro rfl
      exact hne (Option.some.inj (hname.symm.trans hl))
    exact ⟨name,by rw [Finmap.lookup_erase_ne hne']; exact hname⟩
  · intro l' hl'
    exact h.fresh l' (Finmap.mem_erase.mp hl').2

/-- Calls on other parts of the world keep the links. -/
theorem Linked.of_part {op : Call} (h : Linked world) (fault : Fault) (hpart : part op≠.links) :
    Linked (step op fault world).after := by
  obtain ⟨hveths,hlinks,hnext⟩ := (step_changes op fault world).links hpart
  constructor
  · rw [hveths,hlinks]
    exact h.live
  · rw [hveths]
    exact h.once
  · rw [hveths,hlinks]
    exact h.recorded
  · rw [hlinks,hnext]
    exact h.fresh

/-- Every call keeps names and links in correspondence, refused or not. -/
theorem step_linked (op : Call) (fault : Fault) (h : Linked world) :
    Linked (step op fault world).after := by
  cases op with
  | attachVethXDP vethName vethIfIndex =>
    rcases attachVethXDP_cases vethName vethIfIndex fault world with
      ⟨_,hsame,_⟩|⟨_,hsame,_⟩|⟨_,hnew,mode,hafter⟩
    · rwa [hsame]
    · rwa [hsame]
    · rw [hafter]
      exact h.insert hnew
  | detachVethXDP vethName =>
    rcases detachVethXDP_cases vethName fault world with ⟨_,hsame,_⟩|⟨_,hsame,_⟩|⟨_,l,hl,hafter⟩
    · rwa [hsame]
    · rwa [hsame]
    · rw [hafter]
      exact h.erase hl
  | _ => exact h.of_part fault (by simp [part])

/-- Every execution keeps names and links in correspondence. -/
theorem runs_linked {α : Type} {program : Go α} {o : GoOutcome α} (h : Linked world)
    (hr : Runs handle program world o) : Linked o.state :=
  (hr.invariant (fun _ => True) Linked (fun op fault _ _ hw => step_linked op fault hw)
    (fun _ _ => trivial) h).2

/-- After every run names and links correspond. -/
theorem run_linked (order : ByteOrder) (vip : IP) (vport : UInt16) (srcMAC : HardwareAddr)
    (attempts : List Attempt) :
    Linked (run order (initial vip vport srcMAC) attempts).world :=
  run_induction (fun s => Linked s.world) newWorld_linked
    (fun s a hs => runs_linked hs (attempt_runs order s a)) attempts

/-- Agreement on the attachments. After every run, whatever failed in it, the
pool and the manager name the same veths, every recorded link is alive, every
live link is recorded under exactly one name, and what a successful
reconciliation leaves attached does not depend on its iteration order. -/
theorem attachments_agree (order : ByteOrder) (vip : IP) (vport : UInt16) (srcMAC : HardwareAddr)
    (attempts : List Attempt) :
    (run order (initial vip vport srcMAC) attempts).pool.byVeth=
        (run order (initial vip vport srcMAC) attempts).world.vethLinks.keys ∧
      (∀ name l,(run order (initial vip vport srcMAC) attempts).world.vethLinks.lookup name=some l →
        l∈(run order (initial vip vport srcMAC) attempts).world.links) ∧
      (∀ l∈(run order (initial vip vport srcMAC) attempts).world.links,∃! name,
        (run order (initial vip vport srcMAC) attempts).world.vethLinks.lookup name=some l) ∧
      ∀ first second : Attempt,first.newBackends=second.newBackends →
        Succeeds order (run order (initial vip vport srcMAC) attempts) first →
        Succeeds order (run order (initial vip vport srcMAC) attempts) second →
        (run order (initial vip vport srcMAC) (attempts++[first])).pool.byVeth=
          (run order (initial vip vport srcMAC) (attempts++[second])).pool.byVeth := by
  have htracked := (run_settled order vip vport srcMAC attempts).tracked
  have hlinked := run_linked order vip vport srcMAC attempts
  refine ⟨?_,hlinked.live,fun l hl => ?_,fun first second hlist hfirst hsecond => ?_⟩
  · ext name
    rw [Finmap.mem_keys]
    exact htracked name
  · obtain ⟨name,hname⟩ := hlinked.recorded l hl
    exact ⟨name,hname,fun other hother => hlinked.once other name l hother hname⟩
  · have hc := attempt_contract order (run order (initial vip vport srcMAC) attempts)
    rw [run_concat,run_concat]
    ext name
    rw [next,next]
    rw [(hc first).veths hfirst name,(hc second).veths hsecond name,hlist]

/-- Interface that the recorded link of a name is attached to. -/
def ifaceOf (world : World) (name : String) : Option ℤ :=
  ((world.vethLinks.lookup name).bind world.links.lookup).map XdpLink.iface

/-- Exactly the recorded names have an interface. -/
theorem Linked.ifaceOf_eq_none {name : String} (h : Linked world) :
    ifaceOf world name=none ↔ name∉world.vethLinks := by
  rw [ifaceOf,Option.map_eq_none_iff,Option.bind_eq_none_iff,←Finmap.lookup_eq_none]
  constructor
  · intro hnone
    by_contra hsome
    obtain ⟨l,hl⟩ := Option.ne_none_iff_exists'.mp hsome
    exact Finmap.lookup_eq_none.mp (hnone l hl) (h.live name l hl)
  · intro hnone l hl
    rw [hnone] at hl
    contradiction

/-- A recorded name keeps its interface. -/
theorem Linked.ifaceOf_or {name : String} (h : Linked world) (hmem : name∈world.vethLinks)
    (iface : Option ℤ) : (ifaceOf world name).or iface=ifaceOf world name := by
  have hsome : ifaceOf world name≠none := fun hn => h.ifaceOf_eq_none.mp hn hmem
  obtain ⟨old,hold⟩ := Option.ne_none_iff_exists'.mp hsome
  rw [hold,Option.some_or]

/-- Calls on other parts of the world keep all interfaces. -/
theorem ifaceOf_of_part {op : Call} (fault : Fault) (hpart : part op≠.links) (name : String) :
    ifaceOf (step op fault world).after name=ifaceOf world name := by
  obtain ⟨hveths,hlinks,_⟩ := (step_changes op fault world).links hpart
  rw [ifaceOf,ifaceOf,hveths,hlinks]

/-- An accepted attach gives its interface to its name, unless that has one. -/
theorem attachVethXDP_iface {vethName : String} {vethIfIndex : ℤ} {fault : Fault}
    (h : Linked world) (hok : (step (.attachVethXDP vethName vethIfIndex) fault world).reply=none)
    (name : String) :
    ifaceOf (step (.attachVethXDP vethName vethIfIndex) fault world).after name=
      if name=vethName then (ifaceOf world name).or (some vethIfIndex) else ifaceOf world name := by
  rcases attachVethXDP_cases vethName vethIfIndex fault world with
    ⟨hrefused,_⟩|⟨_,hsame,hmem⟩|⟨_,hnew,mode,hafter⟩
  · exact absurd hok hrefused
  · rw [hsame]
    by_cases hname : name=vethName
    · subst hname
      rw [if_pos rfl,h.ifaceOf_or hmem]
    · rw [if_neg hname]
  · by_cases hname : name=vethName
    · subst hname
      rw [if_pos rfl,h.ifaceOf_eq_none.mpr hnew,hafter]
      simp [ifaceOf]
    · rw [if_neg hname,hafter,ifaceOf,ifaceOf,Finmap.lookup_insert_of_ne _ hname]
      cases hl : world.vethLinks.lookup name with
      | none => rfl
      | some l =>
        have hne : l≠world.nextLink := (h.fresh l (h.live name l hl)).ne
        rw [Option.bind_some,Option.bind_some,Finmap.lookup_insert_of_ne _ hne]

/-- A detach keeps the interfaces of the other names. -/
theorem detachVethXDP_iface {vethName name : String} (fault : Fault) (h : Linked world)
    (hne : name≠vethName) :
    ifaceOf (step (.detachVethXDP vethName) fault world).after name=ifaceOf world name := by
  rcases detachVethXDP_cases vethName fault world with ⟨_,hsame,_⟩|⟨_,hsame,_⟩|⟨_,l,hl,hafter⟩
  · rw [hsame]
  · rw [hsame]
  · rw [hafter,ifaceOf,ifaceOf,Finmap.lookup_erase_ne hne]
    cases hl' : world.vethLinks.lookup name with
    | none => rfl
    | some l' =>
      have hne' : l'≠l := by
        rintro rfl
        exact hne (h.once name vethName l' hl' hl)
      rw [Option.bind_some,Option.bind_some,Finmap.lookup_erase_ne hne']

/-- An execution of calls on other parts of the world keeps all interfaces. -/
theorem ifaceOf_of_runs {α : Type} {program : Go α} {o : GoOutcome α}
    (hr : Runs handle program world o) (hpart : ∀ e∈o.events,part e.op≠.links) (name : String) :
    ifaceOf o.state name=ifaceOf world name :=
  (hr.invariant (fun op => part op≠.links) (fun w => ifaceOf w name=ifaceOf world name)
    (fun _ fault w hop hw => (@ifaceOf_of_part w _ fault hop name).trans hw) hpart rfl).2

/-- Clearing a backend keeps all interfaces. -/
theorem clearBackend_iface {index : UInt32} {ip : IP} {o : GoOutcome (Option GoError)}
    (hr : Runs handle (clearBackend order index ip) world o) (name : String) :
    ifaceOf o.state name=ifaceOf world name := by
  refine ifaceOf_of_runs hr ?_ name
  obtain ⟨fault,⟨_,_,_,he⟩|⟨_,_,middle,_,⟨_,_,he⟩|⟨v4,fault',_,_,he⟩⟩⟩ := runs_clearBackend hr <;>
    simp [he,part]

/-- The clearing inside the first loop keeps all interfaces. -/
theorem clearReused_iface {old : List Backend} {i : ℕ} {b : Backend} {o : GoOutcome Unit}
    (hr : Runs handle (clearReused order old i b) world o) (name : String) :
    ifaceOf o.state name=ifaceOf world name := by
  rcases runs_clearReused hr with ⟨_,hstate,_⟩|⟨previous,cleared,_,hc,hstate,_⟩
  · rw [hstate]
  · rw [hstate]
    exact clearBackend_iface hc name

/-- Writing a backend keeps all interfaces. -/
theorem updateBackend_iface {index : UInt32} {ip : IP} {port : UInt16} {mac : HardwareAddr}
    {o : GoOutcome (Option GoError)}
    (hr : Runs handle (updateBackend order index ip port mac) world o) (name : String) :
    ifaceOf o.state name=ifaceOf world name := by
  refine ifaceOf_of_runs hr ?_ name
  rcases runs_updateBackend hr with ⟨_,_,_,he⟩|⟨v4,fault,_,⟨_,_,_,he⟩|⟨_,middle,fault',_,_,_,he⟩⟩ <;>
    simp [he,part]

/-- The body of the first loop gives a name without interface that of its
element. -/
theorem writeBackend_iface {i : ℕ} {b : Backend} {o : GoOutcome (Pool×Option GoError)}
    (ht : Tracked p world) (hl : Linked world)
    (hr : Runs handle (writeBackend order p i b) world o) (hok : o.value.2=none) (name : String) :
    ifaceOf o.state name=
      if name=b.vethName then (ifaceOf world name).or (some b.vethIdx) else ifaceOf world name := by
  obtain ⟨cleared,updated,hc,hup,hcases⟩ := runs_writeBackend hr
  have hbefore : ∀ name,ifaceOf updated.state name=ifaceOf world name := fun name =>
    (updateBackend_iface hup name).trans (clearReused_iface hc name)
  have hlinked : Linked updated.state := runs_linked (runs_linked hl hc) hup
  rcases hcases with ⟨_,_,herr,_⟩|⟨_,hmem,_,hstate,_⟩|⟨_,_,fault,hattach,hstate,_⟩
  · exact absurd hok herr
  · rw [hstate,hbefore]
    by_cases hname : name=b.vethName
    · subst hname
      rw [if_pos rfl,hl.ifaceOf_or ((ht b.vethName).mp hmem)]
    · rw [if_neg hname]
  · have hreply : (step (.attachVethXDP b.vethName b.vethIdx) fault updated.state).reply=none := by
      rcases hattach with ⟨_,_,herr⟩|⟨hreply,_⟩
      · exact absurd hok herr
      · exact hreply
    rw [hstate,attachVethXDP_iface hlinked hreply,hbefore]

/-- Interface that a name gets from a list: that of the first element with the
name. -/
def firstIface (backends : List Backend) (name : String) : Option ℤ :=
  (backends.find? fun b => b.vethName=name).map Backend.vethIdx

/-- The first loop gives every name without interface that of its first
element with the name. -/
theorem writeBackends_iface {rest : List Backend} {i : ℕ} {oldByVeth : VethMap}
    {o : GoOutcome (Pool×VethMap×Option GoError)} (hrest : rest=new.drop i) (hi : i≤ maxBackends)
    (ht : Tracked p world) (hl : Linked world)
    (hr : Runs handle (writeBackends order p i oldByVeth rest) world o) (hok : o.value.2.2=none)
    (name : String) : ifaceOf o.state name=(ifaceOf world name).or (firstIface rest name) := by
  induction rest generalizing p i oldByVeth world o with
  | nil =>
    obtain rfl := runs_done.mp hr
    simp [firstIface]
  | cons b rest ih =>
    obtain ⟨hb,htail⟩ := drop_cons hrest
    obtain ⟨body,hbody,⟨_,_,herr,_⟩|⟨hnone,tail,htl,rfl⟩⟩ := runs_writeBackends_cons hr
    · exact absurd hok herr
    · have hspec := writeBackend_spec hi hb hbody
      have hih := ih htail (hspec.done hnone).1 (hspec.tracked ht) (runs_linked hl hbody) htl hok
      have hstep := writeBackend_iface ht hl hbody hnone name
      change ifaceOf tail.state name=_
      rw [hih,hstep]
      by_cases hname : name=b.vethName
      · rw [if_pos hname,Option.or_assoc]
        simp [firstIface,hname]
      · have hother : ¬b.vethName=name := fun h => hname h.symm
        rw [if_neg hname]
        simp [firstIface,hother]

/-- The second loop keeps all interfaces. -/
theorem clearStale_iface {rest : List Backend} {idx : ℕ} {o : GoOutcome (Option GoError)}
    (hr : Runs handle (clearStale order idx rest) world o) (name : String) :
    ifaceOf o.state name=ifaceOf world name := by
  induction rest generalizing idx world o with
  | nil =>
    obtain rfl := runs_done.mp hr
    rfl
  | cons b rest ih =>
    obtain ⟨cleared,hc,⟨_,_,hstate,_⟩|⟨_,tail,ht,rfl⟩⟩ := runs_clearStale_cons hr
    · rw [hstate]
      exact clearBackend_iface hc name
    · exact (ih ht).trans (clearBackend_iface hc name)

/-- The third loop keeps the interfaces of the names that it does not visit. -/
theorem detachStale_iface {entries : VethEntries} {o : GoOutcome (Pool×Option GoError)}
    {name : String} (hl : Linked world) (hname : name∉entries.keys)
    (hr : Runs handle (detachStale p entries) world o) :
    ifaceOf o.state name=ifaceOf world name := by
  have hcalls := (detachStale_spec hr).calls
  have hkeep := hr.invariant (fun op => ∃ vethName∈entries.keys,op=.detachVethXDP vethName)
    (fun w => Linked w ∧ ifaceOf w name=ifaceOf world name) ?_ hcalls ⟨hl,rfl⟩
  · exact hkeep.2.2
  · rintro op fault w ⟨vethName,hm,rfl⟩ ⟨hw,hsame⟩
    have hne : name≠vethName := fun h => hname (h ▸ hm)
    exact ⟨step_linked _ fault hw,(detachVethXDP_iface fault hw hne).trans hsame⟩

/-- After a successful reconciliation a name of the new list has the interface
that it had before, or else that of the first element with the name. -/
theorem sync_iface {iter : IterOrder} {o : GoOutcome (Pool×Option GoError)} {name : String}
    (ht : Tracked p world) (hl : Linked world) (hr : Runs handle (sync order p new iter) world o)
    (hok : o.value.2=none) (hname : name∈vethNames new) :
    ifaceOf o.state name=(ifaceOf world name).or (firstIface new name) := by
  obtain ⟨written,cleared,detached,fault,hw,hwrote,hc,_,hd,hstate,_⟩ := runs_sync_succeeded hr hok
  have hspec := writeBackends_spec List.drop_zero.symm (Nat.zero_le _) hw
  have hleft : name∉(iter.1 written.value.2.1.entries).keys := by
    rw [(hspec.done hwrote).2.2.1,mem_leftover]
    exact fun h => h.2 hname
  have hlinked := runs_linked (runs_linked hl hw) hc
  rw [hstate,ifaceOf_of_part fault (by simp [part]),detachStale_iface hlinked hleft hd,
    clearStale_iface hc,
    writeBackends_iface List.drop_zero.symm (Nat.zero_le _) ht hl hw hwrote]

/-- SNAT on the current interface. After any run and a successful last
reconciliation, the link of every backend is attached to the backend's own
interface if and only if, for each of them, the link recorded for its veth
name before was, or there was none and the first element with that name has
the same interface. -/
theorem snat_on_current_iface_iff (order : ByteOrder) (vip : IP) (vport : UInt16)
    (srcMAC : HardwareAddr) (attempts : List Attempt) (a : Attempt)
    (hok : Succeeds order (run order (initial vip vport srcMAC) attempts) a) :
    (∀ b∈a.newBackends,
      ifaceOf (run order (initial vip vport srcMAC) (attempts++[a])).world b.vethName=
        some b.vethIdx) ↔
    ∀ b∈a.newBackends,
      (ifaceOf (run order (initial vip vport srcMAC) attempts).world b.vethName).or
        (firstIface a.newBackends b.vethName)=some b.vethIdx := by
  rw [run_concat]
  refine forall_congr' fun b => imp_congr_right fun hb => ?_
  have hname : b.vethName∈vethNames a.newBackends := List.mem_map_of_mem hb
  have hiface := sync_iface (run_settled order vip vport srcMAC attempts).tracked
    (run_linked order vip vport srcMAC attempts) (attempt_runs order _ a) hok hname
  rw [←hiface]
  rfl

/-- A container recreated with the same veth name and another interface: the
link stays on the interface that is gone. -/
theorem snat_on_previous_iface :
    SmoothRun .little bridgePool [unhindered [bridged 2 "veth2"],
        unhindered [{bridged 2 "veth2" with vethIdx := 9}]] ∧
      ifaceOf (run .little bridgePool [unhindered [bridged 2 "veth2"],
        unhindered [{bridged 2 "veth2" with vethIdx := 9}]]).world "veth2"=some 2 := by
  decide

/-- A container that keeps its interface beside a new one. -/
theorem snat_on_current_iface_growing :
    ifaceOf (run .little (initial [172,17,0,1] 80 [2,66,1,2,3,4])
        ([unhindered [bridged 2 "veth2"]]++
          [unhindered [bridged 2 "veth2",bridged 3 "veth3"]])).world "veth2"=some 2 ∧
      ifaceOf (run .little (initial [172,17,0,1] 80 [2,66,1,2,3,4])
        ([unhindered [bridged 2 "veth2"]]++
          [unhindered [bridged 2 "veth2",bridged 3 "veth3"]])).world "veth3"=some 3 := by
  have hall := (snat_on_current_iface_iff .little [172,17,0,1] 80 [2,66,1,2,3,4]
    [unhindered [bridged 2 "veth2"]] (unhindered [bridged 2 "veth2",bridged 3 "veth3"])
    (by decide)).mpr (by decide)
  exact ⟨hall (bridged 2 "veth2") (by decide),hall (bridged 3 "veth3") (by decide)⟩

end ContainerLb.VethLinks

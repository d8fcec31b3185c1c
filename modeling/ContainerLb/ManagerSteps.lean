import ContainerLb.BpfManager

/-!
# What a single call and a single manager operation can do

One inversion lemma for each call: it is refused and the world is kept, or
it is accepted and changes exactly one component. One inversion lemma for
each operation of the manager: the calls that it executed, in order, and
where it stopped. All later arguments about runs start from these.
-/

namespace ContainerLb.ManagerSteps

open CallProgram BoundedMaps HostBytes NetAddresses BpfManager

/-- Executed calls of the manager. -/
abbrev Step := Event Call Fault (Option GoError) World

/-- Executions of Go code on the world. -/
abbrev GoOutcome (α : Type) := Outcome Call Fault (Option GoError) World α

/-- The event of one call. -/
abbrev step (op : Call) (fault : Fault) (world : World) : Step := answer handle op fault world

/-- Whether a call removes a key of `backend_ips_map`. -/
def isDelete : Call → Bool
  | .deleteBackendIp _ => true
  | _ => false

/-- A call that did not fail. The removal of an absent key is not counted as
a failure, since the map already is as wanted. -/
def Unfailing (e : Step) : Prop := e.reply=none ∨ isDelete e.op=true ∧ e.label.first=none

instance (e : Step) : Decidable (Unfailing e) := inferInstanceAs (Decidable (_ ∨ _))

/-- Whether a call has written the configuration. -/
def configures (e : Step) : Bool :=
  match e.op with
  | .putConfig _ _ => e.reply.isNone
  | _ => false

/-- Address under which a backend is registered in `backend_ips_map`. -/
def ipKey (order : ByteOrder) (ip : IP) : Option UInt32 := ip.to4.map order.load32

/-- A map operation keeps the world when refused, by the environment or by the
map, and otherwise stores the changed map. -/
theorem commit_cases {α : Type} (fault : Option Errno) (result : Except Errno α)
    (store : α → World) (world : World) :
    ((commit fault (result.map store) world).1≠none ∧
      (commit fault (result.map store) world).2=world ∧
      (fault=none → ∃ error,result=.error error)) ∨
    ((commit fault (result.map store) world).1=none ∧
      ∃ written,result=.ok written ∧ (commit fault (result.map store) world).2=store written) := by
  cases fault with
  | some error => exact Or.inl ⟨by simp [commit],rfl,by simp⟩
  | none =>
    cases result with
    | ok written => exact Or.inr ⟨rfl,written,rfl,rfl⟩
    | error error => exact Or.inl ⟨by simp [commit,Except.map],rfl,fun _ => ⟨error,rfl⟩⟩

/-- Writing a slot of `backend_map`. -/
theorem putBackend_cases (index : UInt32) (info : BackendInfo) (fault : Fault) (world : World) :
    ((step (.putBackend index info) fault world).reply≠none ∧
      (step (.putBackend index info) fault world).after=world) ∨
    ((step (.putBackend index info) fault world).reply=none ∧
      ∃ written,world.backendMap.put index info=.ok written ∧
        (step (.putBackend index info) fault world).after={world with backendMap := written}) :=
  (commit_cases fault.first (world.backendMap.put index info) _ world).imp_left
    fun h => ⟨h.1,h.2.1⟩

/-- Writing a key of `backend_ips_map`. -/
theorem putBackendIp_cases (key index : UInt32) (fault : Fault) (world : World) :
    ((step (.putBackendIp key index) fault world).reply≠none ∧
      (step (.putBackendIp key index) fault world).after=world) ∨
    ((step (.putBackendIp key index) fault world).reply=none ∧
      ∃ written,world.backendIpsMap.put key index=.ok written ∧
        (step (.putBackendIp key index) fault world).after=
          {world with backendIpsMap := written}) :=
  (commit_cases fault.first (world.backendIpsMap.put key index) _ world).imp_left
    fun h => ⟨h.1,h.2.1⟩

/-- Removing a key of `backend_ips_map`. Without an imposed failure the key
is gone afterwards, whether it was there or not. -/
theorem deleteBackendIp_cases (key : UInt32) (fault : Fault) (world : World) :
    ((step (.deleteBackendIp key) fault world).reply≠none ∧
      (step (.deleteBackendIp key) fault world).after=world ∧
      (fault.first=none → world.backendIpsMap.lookup key=none)) ∨
    ∃ written,world.backendIpsMap.delete key=.ok written ∧
      (step (.deleteBackendIp key) fault world).after={world with backendIpsMap := written} := by
  rcases commit_cases fault.first (world.backendIpsMap.delete key)
    (fun written => {world with backendIpsMap := written}) world with ⟨hr,he,hf⟩|⟨_,h⟩
  · refine Or.inl ⟨hr,he,fun hnone => ?_⟩
    obtain ⟨error,hd⟩ := hf hnone
    exact HashMap.lookup_of_delete_error hd
  · exact Or.inr h

/-- Writing the configuration. -/
theorem putConfig_cases (index : UInt32) (config : LbConfig) (fault : Fault) (world : World) :
    ((step (.putConfig index config) fault world).reply≠none ∧
      (step (.putConfig index config) fault world).after=world) ∨
    ((step (.putConfig index config) fault world).reply=none ∧
      ∃ written,world.configMap.put index config=.ok written ∧
        (step (.putConfig index config) fault world).after={world with configMap := written}) :=
  (commit_cases fault.first (world.configMap.put index config) _ world).imp_left
    fun h => ⟨h.1,h.2.1⟩

/-- Attaching to a veth: refused, already recorded, or a fresh link under the
name in one of the two modes. -/
theorem attachVethXDP_cases (vethName : String) (vethIfIndex : ℤ) (fault : Fault)
    (world : World) :
    ((step (.attachVethXDP vethName vethIfIndex) fault world).reply≠none ∧
      (step (.attachVethXDP vethName vethIfIndex) fault world).after=world ∧
      vethName∉world.vethLinks) ∨
    ((step (.attachVethXDP vethName vethIfIndex) fault world).reply=none ∧
      (step (.attachVethXDP vethName vethIfIndex) fault world).after=world ∧
      vethName∈world.vethLinks) ∨
    ((step (.attachVethXDP vethName vethIfIndex) fault world).reply=none ∧
      vethName∉world.vethLinks ∧
      ∃ mode,(step (.attachVethXDP vethName vethIfIndex) fault world).after={world with
        vethLinks := world.vethLinks.insert vethName world.nextLink
        links := world.links.insert world.nextLink ⟨vethIfIndex,mode⟩
        nextLink := world.nextLink+1}) := by
  simp only [step,answer,handle,attachVethXDP]
  by_cases hm : vethName∈world.vethLinks
  · simp [hm]
  · cases hf : fault.first with
    | none => exact Or.inr (Or.inr ⟨by simp [hm,attachXDP],hm,.driver,by simp [hm,attachXDP]⟩)
    | some errDriver =>
      cases hs : fault.second with
      | none => exact Or.inr (Or.inr ⟨by simp [hm,attachXDP],hm,.generic,by simp [hm,attachXDP]⟩)
      | some err => exact Or.inl (by simp [hm,attachXDP])

/-- Detaching from a veth: refused, not recorded, or the link is closed and
forgotten. -/
theorem detachVethXDP_cases (vethName : String) (fault : Fault) (world : World) :
    ((step (.detachVethXDP vethName) fault world).reply≠none ∧
      (step (.detachVethXDP vethName) fault world).after=world ∧ vethName∈world.vethLinks) ∨
    ((step (.detachVethXDP vethName) fault world).reply=none ∧
      (step (.detachVethXDP vethName) fault world).after=world ∧ vethName∉world.vethLinks) ∨
    ((step (.detachVethXDP vethName) fault world).reply=none ∧
      ∃ l,world.vethLinks.lookup vethName=some l ∧
        (step (.detachVethXDP vethName) fault world).after={world with
          links := world.links.erase l
          vethLinks := world.vethLinks.erase vethName}) := by
  simp only [step,answer,handle,detachVethXDP]
  cases hl : world.vethLinks.lookup vethName with
  | none => exact Or.inr (Or.inl ⟨rfl,rfl,Finmap.lookup_eq_none.mp hl⟩)
  | some l =>
    have hm : vethName∈world.vethLinks := Finmap.mem_of_lookup_eq_some hl
    cases hf : fault.first with
    | none => exact Or.inr (Or.inr ⟨rfl,l,rfl,rfl⟩)
    | some error => exact Or.inl ⟨by simp,rfl,hm⟩

/-- A veth name other than the attached one keeps its state. -/
theorem attachVethXDP_other {vethName name : String} (vethIfIndex : ℤ) (fault : Fault)
    (world : World) (hne : name≠vethName) :
    name∈(step (.attachVethXDP vethName vethIfIndex) fault world).after.vethLinks ↔
      name∈world.vethLinks := by
  rcases attachVethXDP_cases vethName vethIfIndex fault world with
    ⟨_,he,_⟩|⟨_,he,_⟩|⟨_,_,mode,he⟩ <;> rw [he]
  exact Finmap.mem_insert.trans (or_iff_right hne)

/-- A veth name other than the detached one keeps its state. -/
theorem detachVethXDP_other {vethName name : String} (fault : Fault) (world : World)
    (hne : name≠vethName) :
    name∈(step (.detachVethXDP vethName) fault world).after.vethLinks ↔ name∈world.vethLinks := by
  rcases detachVethXDP_cases vethName fault world with ⟨_,he,_⟩|⟨_,he,_⟩|⟨_,l,_,he⟩ <;> rw [he]
  exact Finmap.mem_erase.trans (and_iff_right hne)

/-- The parts of the world that calls act on. -/
inductive Part where
  /-- `config_map`. -/
  | config
  /-- `backend_map`. -/
  | slots
  /-- `backend_ips_map`. -/
  | reverse
  /-- The links of the manager and of the kernel. -/
  | links
  deriving DecidableEq

/-- The part that a call acts on. -/
def part : Call → Part
  | .putBackend _ _ => .slots
  | .putBackendIp _ _ => .reverse
  | .deleteBackendIp _ => .reverse
  | .putConfig _ _ => .config
  | .attachVethXDP _ _ => .links
  | .detachVethXDP _ => .links

/-- Two worlds that differ in one part at most. -/
structure Changes (changed : Part) (world world' : World) : Prop where
  /-- The configuration is another part. -/
  config : changed≠.config → world'.configMap=world.configMap
  /-- The slots are another part. -/
  slots : changed≠.slots → world'.backendMap=world.backendMap
  /-- The reverse map is another part. -/
  reverse : changed≠.reverse → world'.backendIpsMap=world.backendIpsMap
  /-- The links are another part. -/
  links : changed≠.links → world'.vethLinks=world.vethLinks ∧ world'.links=world.links ∧
    world'.nextLink=world.nextLink

/-- Equal worlds differ in no part. -/
theorem Changes.refl (changed : Part) (world : World) : Changes changed world world :=
  ⟨fun _ => rfl,fun _ => rfl,fun _ => rfl,fun _ => ⟨rfl,rfl,rfl⟩⟩

/-- Frame rule: a call acts on its own part only. -/
theorem step_changes (op : Call) (fault : Fault) (world : World) :
    Changes (part op) world (step op fault world).after := by
  cases op with
  | putBackend index info =>
    rcases putBackend_cases index info fault world with ⟨_,he⟩|⟨_,_,_,he⟩ <;> rw [he]
    · exact .refl ..
    · exact ⟨fun _ => rfl,fun h => absurd rfl h,fun _ => rfl,fun _ => ⟨rfl,rfl,rfl⟩⟩
  | putBackendIp key index =>
    rcases putBackendIp_cases key index fault world with ⟨_,he⟩|⟨_,_,_,he⟩ <;> rw [he]
    · exact .refl ..
    · exact ⟨fun _ => rfl,fun _ => rfl,fun h => absurd rfl h,fun _ => ⟨rfl,rfl,rfl⟩⟩
  | deleteBackendIp key =>
    rcases deleteBackendIp_cases key fault world with ⟨_,he,_⟩|⟨_,_,he⟩ <;> rw [he]
    · exact .refl ..
    · exact ⟨fun _ => rfl,fun _ => rfl,fun h => absurd rfl h,fun _ => ⟨rfl,rfl,rfl⟩⟩
  | putConfig index config =>
    rcases putConfig_cases index config fault world with ⟨_,he⟩|⟨_,_,_,he⟩ <;> rw [he]
    · exact .refl ..
    · exact ⟨fun h => absurd rfl h,fun _ => rfl,fun _ => rfl,fun _ => ⟨rfl,rfl,rfl⟩⟩
  | attachVethXDP vethName vethIfIndex =>
    rcases attachVethXDP_cases vethName vethIfIndex fault world with
      ⟨_,he,_⟩|⟨_,he,_⟩|⟨_,_,_,he⟩ <;> rw [he]
    · exact .refl ..
    · exact .refl ..
    · exact ⟨fun _ => rfl,fun _ => rfl,fun _ => rfl,fun h => absurd rfl h⟩
  | detachVethXDP vethName =>
    rcases detachVethXDP_cases vethName fault world with ⟨_,he,_⟩|⟨_,he,_⟩|⟨_,_,_,he⟩ <;> rw [he]
    · exact .refl ..
    · exact .refl ..
    · exact ⟨fun _ => rfl,fun _ => rfl,fun _ => rfl,fun h => absurd rfl h⟩

/-- Executions of `UpdateConfig`. -/
theorem runs_updateConfig {order : ByteOrder} {vip : IP} {vport : UInt16} {count : UInt32}
    {srcMAC : HardwareAddr} {world : World} {o : GoOutcome (Option GoError)}
    (hr : Runs handle (updateConfig order vip vport count srcMAC) world o) :
    ∃ fault,o=⟨(step (.putConfig 0 (lbConfig order vip vport count srcMAC)) fault world).reply.map
        .configMapPut,
      (step (.putConfig 0 (lbConfig order vip vport count srcMAC)) fault world).after,
      [step (.putConfig 0 (lbConfig order vip vport count srcMAC)) fault world]⟩ := by
  obtain ⟨first,second,hfirst,hsecond,rfl⟩ := runs_bind.mp hr
  obtain ⟨fault,rfl⟩ := runs_request.mp hfirst
  obtain rfl := runs_done.mp hsecond
  exact ⟨fault,rfl⟩

/-- Executions of `UpdateBackend`: not IPv4, stopped at the forward entry, or
both entries attempted. -/
theorem runs_updateBackend {order : ByteOrder} {index : UInt32} {ip : IP} {port : UInt16}
    {mac : HardwareAddr} {world : World} {o : GoOutcome (Option GoError)}
    (hr : Runs handle (updateBackend order index ip port mac) world o) :
    (ip.to4=none ∧ o.value≠none ∧ o.state=world ∧ o.events=[]) ∨
    ∃ v4 fault,ip.to4=some v4 ∧
      (((step (.putBackend index (backendInfo order v4 port mac)) fault world).reply≠none ∧
        o.value≠none ∧ o.state=world ∧
        o.events=[step (.putBackend index (backendInfo order v4 port mac)) fault world]) ∨
      ((step (.putBackend index (backendInfo order v4 port mac)) fault world).reply=none ∧
        ∃ world' fault',
          world'=(step (.putBackend index (backendInfo order v4 port mac)) fault world).after ∧
          (o.value=none ↔ (step (.putBackendIp (order.load32 v4) index) fault' world').reply=none) ∧
          o.state=(step (.putBackendIp (order.load32 v4) index) fault' world').after ∧
          o.events=[step (.putBackend index (backendInfo order v4 port mac)) fault world,
            step (.putBackendIp (order.load32 v4) index) fault' world'])) := by
  unfold updateBackend at hr
  cases hv : ip.to4 with
  | none =>
    rw [hv] at hr
    obtain rfl := runs_done.mp hr
    exact Or.inl ⟨rfl,by simp,rfl,rfl⟩
  | some v4 =>
    rw [hv] at hr
    obtain ⟨first,second,hfirst,hsecond,rfl⟩ := runs_bind.mp hr
    obtain ⟨fault,rfl⟩ := runs_request.mp hfirst
    refine Or.inr ⟨v4,fault,rfl,?_⟩
    cases hp : (step (.putBackend index (backendInfo order v4 port mac)) fault world).reply with
    | some err =>
      simp only [hp] at hsecond
      obtain rfl := runs_done.mp hsecond
      have hc := putBackend_cases index (backendInfo order v4 port mac) fault world
      rw [hp] at hc
      simp only [ne_eq,reduceCtorEq,not_false_eq_true,true_and,false_and,or_false] at hc
      exact Or.inl ⟨by simp,by simp [Outcome.prepend],hc,rfl⟩
    | none =>
      simp only [hp] at hsecond
      obtain ⟨third,fourth,hthird,hfourth,rfl⟩ := runs_bind.mp hsecond
      obtain ⟨fault',rfl⟩ := runs_request.mp hthird
      obtain rfl := runs_done.mp hfourth
      exact Or.inr ⟨rfl,_,fault',rfl,by simp [Outcome.prepend],rfl,rfl⟩

/-- Executions of `ClearBackend`: stopped at the forward entry, or the
reverse entry is removed too when the address is IPv4. -/
theorem runs_clearBackend {order : ByteOrder} {index : UInt32} {ip : IP} {world : World}
    {o : GoOutcome (Option GoError)} (hr : Runs handle (clearBackend order index ip) world o) :
    ∃ fault,
      (((step (.putBackend index emptyBackend) fault world).reply≠none ∧ o.value≠none ∧
        o.state=world ∧ o.events=[step (.putBackend index emptyBackend) fault world]) ∨
      ((step (.putBackend index emptyBackend) fault world).reply=none ∧ o.value=none ∧
        ∃ world',world'=(step (.putBackend index emptyBackend) fault world).after ∧
          ((ip.to4=none ∧ o.state=world' ∧
            o.events=[step (.putBackend index emptyBackend) fault world]) ∨
          ∃ v4 fault',ip.to4=some v4 ∧
            o.state=(step (.deleteBackendIp (order.load32 v4)) fault' world').after ∧
            o.events=[step (.putBackend index emptyBackend) fault world,
              step (.deleteBackendIp (order.load32 v4)) fault' world']))) := by
  obtain ⟨first,second,hfirst,hsecond,rfl⟩ := runs_bind.mp hr
  obtain ⟨fault,rfl⟩ := runs_request.mp hfirst
  refine ⟨fault,?_⟩
  cases hp : (step (.putBackend index emptyBackend) fault world).reply with
  | some err =>
    simp only [hp] at hsecond
    obtain rfl := runs_done.mp hsecond
    have hc := putBackend_cases index emptyBackend fault world
    rw [hp] at hc
    simp only [ne_eq,reduceCtorEq,not_false_eq_true,true_and,false_and,or_false] at hc
    exact Or.inl ⟨by simp,by simp [Outcome.prepend],hc,rfl⟩
  | none =>
    simp only [hp] at hsecond
    cases hv : ip.to4 with
    | none =>
      rw [hv] at hsecond
      obtain rfl := runs_done.mp hsecond
      exact Or.inr ⟨rfl,rfl,_,rfl,Or.inl ⟨rfl,rfl,rfl⟩⟩
    | some v4 =>
      rw [hv] at hsecond
      obtain ⟨third,fourth,hthird,hfourth,rfl⟩ := runs_bind.mp hsecond
      obtain ⟨fault',rfl⟩ := runs_request.mp hthird
      obtain rfl := runs_done.mp hfourth
      exact Or.inr ⟨rfl,rfl,_,rfl,Or.inr ⟨v4,fault',rfl,rfl,rfl⟩⟩

end ContainerLb.ManagerSteps

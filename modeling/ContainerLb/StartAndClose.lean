import ContainerLb.Lifecycle
import ContainerLb.InterruptedRuns

/-!
# What is left after starting and after closing

A failed start of the manager leaves nothing attached, and nothing loaded
unless closing an object was refused. A successful one has loaded everything
and attached the DNAT program once. `close` visits every veth link and goes
on after errors, so what it leaves behind is exactly what it reports.
-/

namespace ContainerLb.StartAndClose

open CallProgram BoundedMaps BpfManager PoolRuns DockerDiscovery VethLinks Lifecycle
open InterruptedRuns

variable {k : Kernel} {names : List String} {errs : List CloseError} {m : Manager}

/-- A call runs under some answer, followed by what it is continued with. -/
theorem runs_ask {α : Type} {op : LifeCall} {next : Answer → Life α} {o : LifeOutcome α} :
    Runs lifeHandle (Prog.request op >>= next) k o ↔
      ∃ reply rest,Runs lifeHandle (next reply) (lifeEffect op reply k) rest ∧
        o=rest.prepend [⟨op,reply,reply,lifeEffect op reply k⟩] :=
  runs_call

/-- The error that `Close` reports for a refused call. -/
def complaint (e : LifeStep) : Option CloseError :=
  match e.op,e.reply with
  | .closeVeth vethName,.error err => some (.detachVeth vethName err)
  | .closeIngress,.error err => some (.detachIngress err)
  | .closeObject _,.error err => some (.closeObjects err)
  | _,_ => none

/-- All errors that `Close` reports. -/
def complaints (events : List LifeStep) : List CloseError := events.filterMap complaint

theorem complaints_append (first second : List LifeStep) :
    complaints (first++second)=complaints first++complaints second :=
  List.filterMap_append

/-- Objects closed in order up to the first refusal, which is returned. -/
structure ClosedInOrder (objs : List Obj) (k : Kernel) (o : LifeOutcome (Option Errno)) :
    Prop where
  /-- A first part is closed, all of it exactly without an error. -/
  parts : ∃ closed left,objs=closed++left ∧
    o.state={k with opened := k.opened\closed.toFinset} ∧ (o.value=none ↔ left=[])
  /-- The returned error is the only refusal. -/
  reported : complaints o.events=(o.value.map CloseError.closeObjects).toList

/-- A program that closes these objects in order. -/
def Closes (objs : List Obj) (program : Life (Option Errno)) : Prop :=
  ∀ k o,Runs lifeHandle program k o → ClosedInOrder objs k o

/-- Closing one object. -/
theorem objClose_closes (obj : Obj) : Closes [obj] (objClose obj) := by
  intro k o hr
  obtain ⟨reply,rest,hrest,rfl⟩ := runs_ask.mp hr
  cases reply with
  | error err =>
    obtain rfl := runs_done.mp hrest
    exact ⟨⟨[],[obj],rfl,by simp [lifeEffect,Outcome.prepend],by simp [Outcome.prepend]⟩,rfl⟩
  | ok iface =>
    obtain rfl := runs_done.mp hrest
    refine ⟨⟨[obj],[],rfl,?_,by simp [Outcome.prepend]⟩,rfl⟩
    simp [lifeEffect,Outcome.prepend,Finset.sdiff_singleton_eq_erase]

/-- `_LbClose` closes what its arguments close. -/
theorem lbClose_closes {objs : List (List Obj)} {closers : List (Life (Option Errno))}
    (h : List.Forall₂ Closes objs closers) : Closes objs.flatten (lbClose closers) := by
  induction h with
  | nil =>
    intro k o hr
    obtain rfl := runs_done.mp hr
    exact ⟨⟨[],[],rfl,by simp,by simp⟩,rfl⟩
  | @cons own closer others closers hown hothers ih =>
    intro k o hr
    obtain ⟨first,second,hfirst,hsecond,rfl⟩ := runs_bind.mp hr
    obtain ⟨⟨closed,left,hparts,hstate,hdone⟩,hreported⟩ := hown k first hfirst
    cases hvalue : first.value with
    | some err =>
      rw [hvalue] at hsecond hdone hreported
      obtain rfl := runs_done.mp hsecond
      refine ⟨⟨closed,left++others.flatten,?_,hstate,?_⟩,?_⟩
      · rw [List.flatten_cons,hparts,List.append_assoc]
      · have hleft : left≠[] := fun hl => nomatch hdone.mpr hl
        simp [Outcome.prepend,hleft]
      · simpa [Outcome.prepend] using hreported
    | none =>
      rw [hvalue] at hsecond hreported
      obtain rfl : left=[] := hdone.mp hvalue
      rw [List.append_nil] at hparts
      obtain ⟨⟨closed',left',hparts',hstate',hdone'⟩,hreported'⟩ := ih _ _ hsecond
      refine ⟨⟨own++closed',left',?_,?_,hdone'⟩,?_⟩
      · rw [List.flatten_cons,hparts',List.append_assoc]
      · rw [hparts]
        simp only [Outcome.prepend,hstate',hstate,List.toFinset_append,sdiff_sdiff_left]
        rfl
      · rw [Outcome.prepend,complaints_append,hreported,hreported']
        rfl

/-- `lbObjects.Close` closes all objects in order. -/
theorem lbObjectsClose_closes : Closes lbObjects lbObjectsClose := by
  have hprograms : Closes [.xdpLbIngress,.xdpVethSnat] lbProgramsClose :=
    @lbClose_closes [[_],[_]] _
      (.cons (objClose_closes _) (.cons (objClose_closes _) .nil))
  have hmaps : Closes [.backendIpsMap,.backendMap,.configMap,.countersMap] lbMapsClose :=
    @lbClose_closes [[_],[_],[_],[_]] _
      (.cons (objClose_closes _) (.cons (objClose_closes _)
        (.cons (objClose_closes _) (.cons (objClose_closes _) .nil))))
  exact @lbClose_closes [[_,_],[_,_,_,_]] _ (.cons hprograms (.cons hmaps .nil))

/-- Nothing stays open exactly without an error. -/
theorem ClosedInOrder.opened_eq_empty {o : LifeOutcome (Option Errno)}
    (h : ClosedInOrder lbObjects k o) (hk : k.opened=lbObjects.toFinset) :
    o.state.opened=∅ ↔ o.value=none := by
  obtain ⟨closed,left,hparts,hstate,hdone⟩ := h.parts
  have hnodup : (closed++left).Nodup := hparts ▸ by decide
  rw [hdone,hstate]
  dsimp only
  rw [hk,hparts,Finset.sdiff_eq_empty_iff_subset]
  constructor
  · intro hsub
    refine List.eq_nil_iff_forall_not_mem.mpr fun obj hobj => ?_
    have hclosed := hsub (List.mem_toFinset.mpr (List.mem_append_right closed hobj))
    exact (List.nodup_append.mp hnodup).2.2 obj (List.mem_toFinset.mp hclosed) obj hobj rfl
  · rintro rfl
    rw [List.append_nil]

/-- A manager that has loaded everything and attached the DNAT program, in
driver mode or, after a refusal, in generic mode. -/
structure Loaded (m : Manager) (k : Kernel) (events : List LifeStep) : Prop where
  /-- All objects are open. -/
  opened : k.opened=lbObjects.toFinset
  /-- The recorded link is the live one. -/
  ingress : k.ingress=m.xdpLink
  /-- It is on the interface of the manager. -/
  mode : m.xdpLink=some ⟨m.ifaceIdx,.driver⟩ ∨ m.xdpLink=some ⟨m.ifaceIdx,.generic⟩ ∧
    ∃ e∈events,∃ err,e.op=.attachIngress m.ifaceIdx .driver ∧ e.reply=.error err

/-- Nothing is attached, and nothing is open unless closing it was refused. -/
structure GivenUp (k : Kernel) (events : List LifeStep) : Prop where
  /-- No DNAT link. -/
  ingress : k.ingress=none
  /-- No object without a report. -/
  opened : k.opened=∅ ↔ complaints events=[]

/-- Calls that close nothing come before. -/
theorem GivenUp.prepend {events : List LifeStep} (h : GivenUp k events) {before : List LifeStep}
    (hbefore : complaints before=[]) : GivenUp k (before++events) :=
  ⟨h.ingress,by rw [complaints_append,hbefore]; exact h.opened⟩

theorem Loaded.prepend {events : List LifeStep} (h : Loaded m k events) (before : List LifeStep) :
    Loaded m k (before++events) :=
  ⟨h.opened,h.ingress,h.mode.imp_right fun ⟨hgeneric,e,he,herr⟩ =>
    ⟨hgeneric,e,List.mem_append_right _ he,herr⟩⟩

/-- What `NewManager` can end with. -/
structure Boots (ifaceName : String) (o : LifeOutcome (Except ManagerError Manager)) : Prop where
  /-- The maps are empty and there is no veth link. -/
  world : o.state.world=newWorld
  /-- A manager has everything. -/
  loaded : ∀ m,o.value=.ok m → m.ifaceName=ifaceName ∧ Loaded m o.state o.events
  /-- An error leaves nothing. -/
  givenUp : ∀ err,o.value=.error err → GivenUp o.state o.events

/-- The attach of `NewManager` after everything has been loaded. -/
theorem attachIngress_boots {ifaceName : String} {iface : Interface}
    {o : LifeOutcome (Except ManagerError Manager)} (hworld : k.world=newWorld)
    (hingress : k.ingress=none) (hopened : k.opened=lbObjects.toFinset)
    (hr : Runs lifeHandle (attachIngress ifaceName iface) k o) : Boots ifaceName o := by
  obtain ⟨reply,driver,hdriver,rfl⟩ := runs_ask.mp hr
  cases reply with
  | ok answered =>
    obtain rfl := runs_done.mp hdriver
    refine ⟨hworld,?_,nofun⟩
    rintro m ⟨⟩
    exact ⟨rfl,hopened,rfl,.inl rfl⟩
  | error errDriver =>
    obtain ⟨reply,generic,hgeneric,rfl⟩ := runs_ask.mp hdriver
    cases reply with
    | ok answered =>
      obtain rfl := runs_done.mp hgeneric
      refine ⟨hworld,?_,nofun⟩
      rintro m ⟨⟩
      exact ⟨rfl,hopened,rfl,.inr ⟨rfl,_,List.mem_cons_self,errDriver,rfl,rfl⟩⟩
    | error err =>
      obtain ⟨closing,last,hclosing,hlast,rfl⟩ := runs_bind.mp hgeneric
      obtain rfl := runs_done.mp hlast
      have hclosed := lbObjectsClose_closes _ _ hclosing
      obtain ⟨closed,left,_,hstate,_⟩ := hclosed.parts
      have hevents : complaints closing.events=[] ↔ closing.value=none := by
        rw [hclosed.reported]
        cases closing.value <;> simp
      refine ⟨?_,nofun,fun _ _ => ⟨?_,(hclosed.opened_eq_empty hopened).trans ?_⟩⟩
      · change closing.state.world=newWorld
        rw [hstate]
        exact hworld
      · change closing.state.ingress=none
        rw [hstate]
        exact hingress
      · simpa [Outcome.prepend,complaints,complaint] using hevents.symm

/-- Every execution of `NewManager`. -/
theorem newManager_boots {ifaceName : String} {o : LifeOutcome (Except ManagerError Manager)}
    (hr : Runs lifeHandle (newManager ifaceName) unloaded o) : Boots ifaceName o := by
  obtain ⟨reply,limited,hlimited,rfl⟩ := runs_ask.mp hr
  cases reply with
  | error err =>
    obtain rfl := runs_done.mp hlimited
    exact ⟨rfl,nofun,fun _ _ => ⟨rfl,iff_of_true rfl rfl⟩⟩
  | ok answered =>
    obtain ⟨reply,found,hfound,rfl⟩ := runs_ask.mp hlimited
    cases reply with
    | error err =>
      obtain rfl := runs_done.mp hfound
      exact ⟨rfl,nofun,fun _ _ => ⟨rfl,iff_of_true rfl rfl⟩⟩
    | ok iface =>
      obtain ⟨reply,loaded,hloaded,rfl⟩ := runs_ask.mp hfound
      cases reply with
      | error err =>
        obtain rfl := runs_done.mp hloaded
        exact ⟨rfl,nofun,fun _ _ => ⟨rfl,iff_of_true rfl rfl⟩⟩
      | ok answered =>
        obtain ⟨hworld,hboots,hgivenUp⟩ := attachIngress_boots rfl rfl rfl hloaded
        refine ⟨hworld,fun m hm => ⟨(hboots m hm).1,?_⟩,fun err herr => ?_⟩
        · exact (((hboots m hm).2.prepend _).prepend _).prepend _
        · exact (((hgivenUp err herr).prepend rfl).prepend rfl).prepend rfl

/-- What `main` has reached before the first discovery. -/
structure Started (lib : Parsers) (flags : Flags) (o : LifeOutcome (Except Fatal Settings)) :
    Prop where
  /-- The maps are empty and there is no veth link. -/
  world : o.state.world=newWorld
  /-- The settings are those of the flags, with a loaded manager. -/
  settings : ∀ settings,o.value=.ok settings → lib.parseIP flags.vip=some settings.vip ∧
    settings.vport=UInt16.ofInt flags.port ∧ settings.manager.ifaceName=flags.iface ∧
    settings.watcher=⟨flags.label,settings.vport⟩ ∧ Loaded settings.manager o.state o.events
  /-- Only a missing Docker client is noticed after the manager was loaded,
  which then is not closed. -/
  fatal : ∀ err,o.value=.error err →
    (∃ cause,err=.docker cause) ∧ (∃ m,Loaded m o.state o.events) ∨
      (∀ cause,err≠.docker cause) ∧ GivenUp o.state o.events

/-- `main` gives up before or while the manager is loaded. -/
theorem started_of_givenUp {lib : Parsers} {flags : Flags} {o : LifeOutcome (Except Fatal Settings)}
    {err : Fatal} (hvalue : o.value=.error err) (herr : ∀ cause,err≠.docker cause)
    (hworld : o.state.world=newWorld) (hgivenUp : GivenUp o.state o.events) :
    Started lib flags o := by
  refine ⟨hworld,fun settings hs => ?_,fun other ho => ?_⟩
  · rw [hvalue] at hs
    contradiction
  · rw [hvalue] at ho
    cases ho
    exact .inr ⟨herr,hgivenUp⟩

/-- Every execution of the start. -/
theorem start_started {lib : Parsers} {flags : Flags} {o : LifeOutcome (Except Fatal Settings)}
    (hr : Runs lifeHandle (start lib flags) unloaded o) : Started lib flags o := by
  have hnothing : GivenUp unloaded [] := ⟨rfl,iff_of_true rfl rfl⟩
  unfold start at hr
  split at hr
  · obtain rfl := runs_done.mp hr
    exact started_of_givenUp rfl (by simp) rfl hnothing
  · rename_i vip hvip
    obtain ⟨reply,found,hfound,rfl⟩ := runs_ask.mp hr
    cases reply with
    | error cause =>
      obtain rfl := runs_done.mp hfound
      exact started_of_givenUp rfl (by simp) rfl (hnothing.prepend rfl)
    | ok iface =>
      obtain ⟨manager,last,hmanager,hlast,rfl⟩ := runs_bind.mp hfound
      obtain ⟨hworld,hloaded,hgivenUp⟩ := newManager_boots hmanager
      cases hvalue : manager.value with
      | error cause =>
        rw [hvalue] at hlast
        obtain rfl := runs_done.mp hlast
        refine started_of_givenUp rfl (by simp) hworld ?_
        rw [Outcome.prepend,Outcome.prepend,List.append_nil]
        exact (hgivenUp cause hvalue).prepend rfl
      | ok m =>
        rw [hvalue] at hlast
        obtain ⟨hname,hm⟩ := hloaded m hvalue
        obtain ⟨watcher,final,hwatcher,hfinal,rfl⟩ := runs_bind.mp hlast
        obtain ⟨reply,client,hclient,rfl⟩ := runs_ask.mp hwatcher
        have hkept : ∀ before after,Loaded m manager.state (before++(manager.events++after)) := by
          intro before after
          refine Loaded.prepend ⟨hm.opened,hm.ingress,hm.mode.imp_right fun hgeneric => ?_⟩ before
          obtain ⟨hmode,e,he,herr⟩ := hgeneric
          exact ⟨hmode,e,List.mem_append_left _ he,herr⟩
        cases reply with
        | error cause =>
          obtain rfl := runs_done.mp hclient
          obtain rfl := runs_done.mp hfinal
          refine ⟨hworld,fun settings hs => ?_,fun err herr => .inl ⟨⟨cause,?_⟩,m,hkept _ _⟩⟩
          · cases hs
          · cases herr
            rfl
        | ok answered =>
          obtain rfl := runs_done.mp hclient
          obtain rfl := runs_done.mp hfinal
          refine ⟨hworld,fun settings hs => ?_,fun err herr => ?_⟩
          · cases hs
            exact ⟨hvip,rfl,hname,rfl,hkept _ _⟩
          · cases herr

/-- Starting is all or nothing up to the last call. On success everything is
loaded, the maps are empty, no veth link exists and the DNAT program is
attached once, in driver mode or, after a refusal, in generic mode. When
`main` gives up for any other reason than a missing Docker client, nothing is
attached, and nothing stays open unless closing it was refused. Without the
Docker client it gives up with everything attached. -/
theorem start_all_or_nothing (lib : Parsers) (flags : Flags)
    (o : LifeOutcome (Except Fatal Settings)) (hr : Runs lifeHandle (start lib flags) unloaded o) :
    o.state.world=newWorld ∧
    (∀ settings,o.value=.ok settings → lib.parseIP flags.vip=some settings.vip ∧
      settings.vport=UInt16.ofInt flags.port ∧ settings.manager.ifaceName=flags.iface ∧
      settings.watcher=⟨flags.label,settings.vport⟩ ∧
      Loaded settings.manager o.state o.events) ∧
    (∀ err,o.value=.error err → (∀ cause,err≠.docker cause) → o.state.ingress=none ∧
      (o.state.opened=∅ ↔ complaints o.events=[])) ∧
    ∀ cause,o.value=.error (.docker cause) → ∃ m,Loaded m o.state o.events := by
  obtain ⟨hworld,hsettings,hfatal⟩ := start_started hr
  refine ⟨hworld,hsettings,fun err herr hdocker => ?_,fun cause herr => ?_⟩
  · rcases hfatal err herr with ⟨⟨cause,rfl⟩,_⟩|⟨_,hgivenUp⟩
    · exact absurd rfl (hdocker cause)
    · exact ⟨hgivenUp.ingress,hgivenUp.opened⟩
  · rcases hfatal _ herr with ⟨_,hm⟩|⟨hdocker,_⟩
    · exact hm
    · exact absurd rfl (hdocker cause)

/-- Both modes refused on the bridge: everything loaded is closed again. -/
theorem start_refused_attach :
    ((start hostParsers hostFlags).exec lifeHandle
        (granted.take 4++[.error (.other 95),.error (.other 95)]) unloaded).value=
        .error (.manager (.attachXDP "docker0" (.other 95))) ∧
      ((start hostParsers hostFlags).exec lifeHandle
        (granted.take 4++[.error (.other 95),.error (.other 95)]) unloaded).state.opened=∅ := by
  obtain ⟨_,_,hgivenUp,_⟩ := start_all_or_nothing hostParsers hostFlags _
    (exec_runs _ (granted.take 4++[.error (.other 95),.error (.other 95)]) unloaded)
  exact ⟨rfl,(hgivenUp _ rfl nofun).2.mpr rfl⟩

/-- The veth links of visited names are closed or reported. -/
structure VethsClosed (names : List String) (world closed : World) (reported : List CloseError) :
    Prop where
  /-- The errors name visited veths. -/
  named : ∀ error∈reported,∃ name∈names,∃ err,error=.detachVeth name err
  /-- The visited names are forgotten. -/
  forgotten : ∀ name,closed.vethLinks.lookup name=
    if name∈names then none else world.vethLinks.lookup name
  /-- A link of a visited name is left exactly when its name is reported. -/
  links : ∀ l,l∈closed.links ↔ l∈world.links ∧ ∀ name∈names,
    world.vethLinks.lookup name=some l → ∃ err,.detachVeth name err∈reported

/-- Lookups after a name was forgotten. -/
theorem lookup_closeVethLink (vethName name : String) (reply : Answer) (world : World) :
    (closeVethLink vethName reply world).vethLinks.lookup name=
      if name=vethName then none else world.vethLinks.lookup name := by
  have herase : (closeVethLink vethName reply world).vethLinks=world.vethLinks.erase vethName := by
    unfold closeVethLink
    split <;> rfl
  rw [herase]
  by_cases h : name=vethName
  · rw [if_pos h,h,Finmap.lookup_erase]
  · rw [if_neg h,Finmap.lookup_erase_ne h]

/-- A link is gone exactly when it was recorded under the name and the call
was not refused. -/
theorem mem_closeVethLink (vethName : String) (reply : Answer) (world : World) (l : ℕ) :
    l∈(closeVethLink vethName reply world).links ↔ l∈world.links ∧
      (world.vethLinks.lookup vethName=some l → ∃ err,reply=.error err) := by
  unfold closeVethLink
  cases hlookup : world.vethLinks.lookup vethName with
  | none => simp
  | some closed =>
    cases reply with
    | error err => simp
    | ok iface => simp [Finmap.mem_erase,and_comm,eq_comm]

/-- One more name in front, after its own call. -/
theorem VethsClosed.cons {name : String} {rest : List String} {reply : Answer}
    {world closed : World} {own later : List CloseError} (hname : name∉rest)
    (hown : ∀ error,error∈own ↔ ∃ err,reply=.error err ∧ error=.detachVeth name err)
    (h : VethsClosed rest (closeVethLink name reply world) closed later) :
    VethsClosed (name::rest) world closed (own++later) := by
  refine ⟨fun error hm => ?_,fun other => ?_,fun l => ?_⟩
  · rcases List.mem_append.mp hm with hm|hm
    · obtain ⟨err,_,herr⟩ := (hown error).mp hm
      exact ⟨name,List.mem_cons_self,err,herr⟩
    · obtain ⟨other,ho,herr⟩ := h.named error hm
      exact ⟨other,List.mem_cons_of_mem _ ho,herr⟩
  · rw [h.forgotten other,lookup_closeVethLink]
    by_cases hn : other=name <;> simp [hn]
  · -- the name is not visited again, so its report is its own
    have hnamed : ∀ err,.detachVeth name err∉later := by
      intro err hm
      obtain ⟨other,ho,_,he⟩ := h.named _ hm
      cases he
      exact hname ho
    rw [h.links l,mem_closeVethLink,and_assoc,List.forall_mem_cons]
    simp only [List.mem_append,hown,hnamed,or_false,CloseError.detachVeth.injEq,true_and,
      exists_eq_right']
    refine and_congr_right fun _ => and_congr_right fun _ => forall₂_congr fun other hm => ?_
    have hne := ne_of_mem_of_not_mem hm hname
    rw [lookup_closeVethLink,if_neg hne]
    simp [hne]

/-- Every execution of the loop closes the links of the visited names and
reports the refused calls behind the earlier errors. -/
theorem closeVeths_closed {o : LifeOutcome (List CloseError)} (hnodup : names.Nodup)
    (hr : Runs lifeHandle (closeVeths names errs) k o) :
    o.value=errs++complaints o.events ∧ o.state.ingress=k.ingress ∧ o.state.opened=k.opened ∧
      VethsClosed names k.world o.state.world (complaints o.events) := by
  induction names generalizing errs k o with
  | nil =>
    obtain rfl := runs_done.mp hr
    exact ⟨by simp [complaints],rfl,rfl,by simp [complaints],by simp,by simp⟩
  | cons name rest ih =>
    obtain ⟨hname,hnodup⟩ := List.nodup_cons.mp hnodup
    obtain ⟨reply,tail,htail,rfl⟩ := runs_ask.mp hr
    have htail' : Runs lifeHandle (closeVeths rest (errs++complaints
        [⟨.closeVeth name,reply,reply,lifeEffect (.closeVeth name) reply k⟩]))
          (lifeEffect (.closeVeth name) reply k) tail := by
      cases reply with
      | error err => exact htail
      | ok iface =>
        change Runs lifeHandle (closeVeths rest (errs++[])) _ tail
        rw [List.append_nil]
        exact htail
    obtain ⟨hvalue,hingress,hopened,hclosed⟩ := ih hnodup htail'
    refine ⟨?_,hingress,hopened,?_⟩
    · rw [Outcome.prepend,hvalue,complaints_append,List.append_assoc]
    · rw [Outcome.prepend,complaints_append]
      refine VethsClosed.cons hname (fun error => ?_) hclosed
      cases reply <;> simp [complaints,complaint]

/-- Closing the recorded DNAT link. -/
theorem closeXdpLink_cases {o : LifeOutcome (List CloseError)} (hlink : m.xdpLink=k.ingress)
    (hr : Runs lifeHandle (closeXdpLink m errs) k o) :
    o.value=errs++complaints o.events ∧ o.state.world=k.world ∧ o.state.opened=k.opened ∧
      (o.state.ingress=none ∧ complaints o.events=[] ∨
        o.state.ingress≠none ∧ ∃ err,complaints o.events=[.detachIngress err]) := by
  unfold closeXdpLink at hr
  cases hrecorded : m.xdpLink with
  | none =>
    rw [hrecorded] at hr hlink
    obtain rfl := runs_done.mp hr
    exact ⟨by simp [complaints],rfl,rfl,.inl ⟨hlink.symm,rfl⟩⟩
  | some link =>
    rw [hrecorded] at hr hlink
    obtain ⟨reply,rest,hrest,rfl⟩ := runs_ask.mp hr
    cases reply with
    | error err =>
      obtain rfl := runs_done.mp hrest
      refine ⟨rfl,rfl,rfl,.inr ⟨?_,err,rfl⟩⟩
      change k.ingress≠none
      rw [←hlink]
      exact Option.some_ne_none link
    | ok iface =>
      obtain rfl := runs_done.mp hrest
      exact ⟨(List.append_nil errs).symm,rfl,rfl,.inl ⟨rfl,rfl⟩⟩

/-- The three parts of `Close` with the errors that each of them reports. -/
structure ClosePhases (names : List String) (k : Kernel)
    (o : LifeOutcome (Option (List CloseError))) (veths link objects : List CloseError) : Prop where
  /-- All errors are returned, nil without any. -/
  value : o.value=if veths++link++objects=[] then none else some (veths++link++objects)
  /-- The veth links. -/
  closed : VethsClosed names k.world o.state.world veths
  /-- The DNAT link. -/
  ingress : o.state.ingress=none ∧ link=[] ∨
    o.state.ingress≠none ∧ ∃ err,link=[.detachIngress err]
  /-- The objects. -/
  opened : o.state.opened=∅ ∧ objects=[] ∨
    o.state.opened≠∅ ∧ ∃ err,objects=[.closeObjects err]

/-- Every execution of `Close` has these parts. -/
theorem close_phases {o : LifeOutcome (Option (List CloseError))} (hnodup : names.Nodup)
    (hopened : k.opened=lbObjects.toFinset) (hlink : m.xdpLink=k.ingress)
    (hr : Runs lifeHandle (close m names) k o) :
    ∃ veths link objects,ClosePhases names k o veths link objects := by
  obtain ⟨veths,afterVeths,hveths,hafterVeths,rfl⟩ := runs_bind.mp hr
  obtain ⟨link,afterLink,hxdp,hafterLink,rfl⟩ := runs_bind.mp hafterVeths
  obtain ⟨objects,last,hobjects,hlast,rfl⟩ := runs_bind.mp hafterLink
  obtain rfl := runs_done.mp hlast
  obtain ⟨hvvalue,hvingress,hvopened,hvclosed⟩ := closeVeths_closed hnodup hveths
  obtain ⟨hlvalue,hlworld,hlopened,hlingress⟩ :=
    closeXdpLink_cases (hlink.trans hvingress.symm) hxdp
  have ho := lbObjectsClose_closes _ _ hobjects
  obtain ⟨closed,left,_,hstate,_⟩ := ho.parts
  have hempty := ho.opened_eq_empty (hlopened.trans (hvopened.trans hopened))
  have hworld : objects.state.world=veths.state.world := by rw [hstate]; exact hlworld
  have hingress : objects.state.ingress=link.state.ingress := by rw [hstate]
  have herrs : link.value++(objects.value.map CloseError.closeObjects).toList=
      complaints veths.events++complaints link.events++complaints objects.events := by
    rw [hlvalue,hvvalue,ho.reported]
    rfl
  refine ⟨complaints veths.events,complaints link.events,complaints objects.events,?_,?_,?_,?_⟩
  · change (if _=[] then none else some _)=_
    rw [herrs]
  · exact hworld ▸ hvclosed
  · change objects.state.ingress=none ∧ _ ∨ objects.state.ingress≠none ∧ _
    rw [hingress]
    exact hlingress
  · change objects.state.opened=∅ ∧ _ ∨ objects.state.opened≠∅ ∧ _
    rw [ne_eq,hempty,ho.reported]
    cases objects.value <;> simp

/-- `Close` does not load anything. -/
theorem lbClose_yields {closers : List (Life (Option Errno))}
    (h : ∀ closer∈closers,Yields (·≠.loadLbObjects) (fun _ => True) closer) :
    Yields (·≠.loadLbObjects) (fun _ => True) (lbClose closers) := by
  induction closers with
  | nil => trivial
  | cons closer rest ih =>
    obtain ⟨hcloser,hrest⟩ := List.forall_mem_cons.mp h
    simp only [lbClose,yields_bind]
    refine hcloser.imp fun err _ => ?_
    cases err with
    | some err => trivial
    | none => exact ih hrest

theorem objClose_yields (obj : Obj) :
    Yields (·≠.loadLbObjects) (fun _ => True) (objClose obj) := by
  simp only [objClose,yields_bind,yields_request]
  refine ⟨by simp,fun reply => ?_⟩
  cases reply <;> trivial

theorem closeVeths_yields (names : List String) (errs : List CloseError) :
    Yields (·≠.loadLbObjects) (fun _ => True) (closeVeths names errs) := by
  induction names generalizing errs with
  | nil => trivial
  | cons name rest ih =>
    simp only [closeVeths,yields_bind,yields_request]
    refine ⟨by simp,fun reply => ?_⟩
    cases reply <;> exact ih _

theorem close_yields (m : Manager) (names : List String) :
    Yields (·≠.loadLbObjects) (fun _ => True) (close m names) := by
  simp only [close,yields_bind,yields_pure]
  refine (closeVeths_yields names []).imp fun errs _ => ?_
  have hlink : Yields (·≠.loadLbObjects) (fun _ => True) (closeXdpLink m errs) := by
    unfold closeXdpLink
    split
    · trivial
    · simp only [yields_bind,yields_request]
      refine ⟨by simp,fun reply => ?_⟩
      cases reply <;> trivial
  refine hlink.imp fun errs _ => ?_
  refine lbClose_yields (List.forall_mem_cons.mpr ⟨?_,List.forall_mem_singleton.mpr ?_⟩) <;>
    refine lbClose_yields fun closer hc => ?_
  · rcases List.mem_pair.mp hc with rfl|rfl <;> exact objClose_yields _
  · simp only [List.mem_cons,List.not_mem_nil,or_false] at hc
    rcases hc with rfl|rfl|rfl|rfl <;> exact objClose_yields _

/-- The names are those of the recorded links. -/
theorem visits_mem_iff {world : World} (h : Visits names world) (name : String) :
    name∈names ↔ name∈world.vethLinks := by
  rw [←List.mem_toFinset,h.2,Finmap.mem_keys]

section Phases

variable {o : LifeOutcome (Option (List CloseError))} {veths link objects : List CloseError}

/-- What is returned are the errors of the three parts. -/
theorem ClosePhases.reported (h : ClosePhases names k o veths link objects) :
    o.value.getD []=veths++link++objects := by
  rw [h.value]
  split <;> simp [*]

/-- Nil is returned exactly without any of them. -/
theorem ClosePhases.nil_iff (h : ClosePhases names k o veths link objects) :
    o.value=none ↔ veths=[] ∧ link=[] ∧ objects=[] := by
  rw [h.value]
  split <;> simp_all

/-- All names are forgotten. -/
theorem ClosePhases.forgotten (h : ClosePhases names k o veths link objects)
    (hvisits : Visits names k.world) : o.state.world.vethLinks=∅ := by
  refine Finmap.ext_lookup fun name => ?_
  rw [h.closed.forgotten,Finmap.lookup_empty]
  by_cases hname : name∈names
  · rw [if_pos hname]
  · rw [if_neg hname]
    exact Finmap.lookup_eq_none.mpr fun hm => hname ((visits_mem_iff hvisits name).mpr hm)

/-- The links left are those of the reported veths. -/
theorem ClosePhases.mem_links (h : ClosePhases names k o veths link objects)
    (hlinked : Linked k.world) (hvisits : Visits names k.world) (l : ℕ) :
    l∈o.state.world.links ↔ ∃ name err,k.world.vethLinks.lookup name=some l ∧
      .detachVeth name err∈veths := by
  rw [h.closed.links]
  constructor
  · rintro ⟨hlive,hreported⟩
    obtain ⟨name,hname⟩ := hlinked.recorded l hlive
    have hvisited := (visits_mem_iff hvisits name).mpr (Finmap.mem_of_lookup_eq_some hname)
    obtain ⟨err,herr⟩ := hreported name hvisited hname
    exact ⟨name,err,hname,herr⟩
  · rintro ⟨name,err,hname,herr⟩
    refine ⟨hlinked.live name l hname,fun other _ hother => ?_⟩
    rw [hlinked.once other name l hother hname]
    exact ⟨err,herr⟩

/-- No link is left exactly when no veth is reported. -/
theorem ClosePhases.links_eq_empty (h : ClosePhases names k o veths link objects)
    (hlinked : Linked k.world) (hvisits : Visits names k.world) :
    o.state.world.links=∅ ↔ veths=[] := by
  constructor
  · intro hempty
    refine List.eq_nil_iff_forall_not_mem.mpr fun error herror => ?_
    obtain ⟨name,hname,err,rfl⟩ := h.closed.named error herror
    obtain ⟨l,hl⟩ := Finmap.mem_iff.mp ((visits_mem_iff hvisits name).mp hname)
    have hleft := (h.mem_links hlinked hvisits l).mpr ⟨name,err,hl,herror⟩
    exact Finmap.notMem_empty (hempty ▸ hleft)
  · intro hempty
    refine Finmap.ext_lookup fun l => ?_
    rw [Finmap.lookup_empty,Finmap.lookup_eq_none,h.mem_links hlinked hvisits,hempty]
    simp

end Phases

/-- `Close` reports exactly what it leaves behind. In every execution, with
any refusals and in any order of the veth links, all recorded names are
forgotten. A veth link is left alive exactly when an error names its veth,
the DNAT link exactly when its error is reported, an object stays open
exactly when the error of the objects is reported. So the result is nil
exactly when nothing is left. -/
theorem close_reports_leftovers (k : Kernel) (m : Manager) (names : List String)
    (hlinked : Linked k.world) (hvisits : Visits names k.world)
    (hopened : k.opened=lbObjects.toFinset) (hlink : m.xdpLink=k.ingress)
    (o : LifeOutcome (Option (List CloseError))) (hr : Runs lifeHandle (close m names) k o) :
    o.state.world.vethLinks=∅ ∧
    (∀ l,l∈o.state.world.links ↔ ∃ name err,k.world.vethLinks.lookup name=some l ∧
      .detachVeth name err∈o.value.getD []) ∧
    (o.state.ingress≠none ↔ ∃ err,.detachIngress err∈o.value.getD []) ∧
    (o.state.opened≠∅ ↔ ∃ err,.closeObjects err∈o.value.getD []) ∧
    (o.value=none ↔ o.state.world.links=∅ ∧ o.state.ingress=none ∧ o.state.opened=∅) := by
  obtain ⟨veths,link,objects,h⟩ := close_phases hvisits.1 hopened hlink hr
  have hingress : ∀ err,.detachIngress err∉veths := fun err hm => by
    obtain ⟨_,_,_,he⟩ := h.closed.named _ hm
    cases he
  have hobjects : ∀ err,.closeObjects err∉veths := fun err hm => by
    obtain ⟨_,_,_,he⟩ := h.closed.named _ hm
    cases he
  refine ⟨h.forgotten hvisits,?_⟩
  simp only [h.reported,h.nil_iff,h.mem_links hlinked hvisits,h.links_eq_empty hlinked hvisits]
  rcases h.ingress with ⟨hi,rfl⟩|⟨hi,_,rfl⟩ <;> rcases h.opened with ⟨ho,rfl⟩|⟨ho,_,rfl⟩ <;>
    simp [hingress,hobjects,hi,ho]

/-- The kernel after the start and one synced backend. -/
def bridgeKernel : Kernel :=
  ⟨(run .little bridgePool [unhindered [bridged 2 "veth2"]]).world,some ⟨3,.driver⟩,
    lbObjects.toFinset⟩

/-- One veth link that cannot be closed is the only thing that is left. -/
theorem close_reports_veth :
    ∃ o : LifeOutcome (Option (List CloseError)),
      Runs lifeHandle (close ⟨"docker0",3,some ⟨3,.driver⟩⟩ ["veth2"]) bridgeKernel o ∧
      o.value=some [.detachVeth "veth2" (.other 16)] ∧ o.state.world.vethLinks=∅ ∧
      o.state.ingress=none ∧ o.state.opened=∅ := by
  have hr : Runs lifeHandle (close ⟨"docker0",3,some ⟨3,.driver⟩⟩ ["veth2"]) bridgeKernel _ :=
    exec_runs _ [.error (.other 16)] _
  obtain ⟨hforgotten,_,hingress,hopened,_⟩ := close_reports_leftovers bridgeKernel _ _
    (run_linked .little [172,17,0,1] 80 [2,66,1,2,3,4] _) (by decide) rfl rfl _ hr
  refine ⟨_,hr,rfl,hforgotten,?_,?_⟩
  · by_contra hleft
    obtain ⟨err,herr⟩ := hingress.mp hleft
    cases List.mem_singleton.mp herr
  · by_contra hleft
    obtain ⟨err,herr⟩ := hopened.mp hleft
    cases List.mem_singleton.mp herr

end ContainerLb.StartAndClose

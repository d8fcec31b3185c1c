import ContainerLb.Snapshot
import ContainerLb.SteadyFlights

/-!
# Lists that grow

A reconciliation for a list that starts with the synced one takes no slot out
of use: it fills the slots of the new elements and writes their number last.
So the change happens at a single moment, also for a frame in flight, and a
failure only delays it. For the synced list itself nothing changes at all,
whatever failed before it was synced.
-/

namespace ContainerLb.Growth

open CallProgram Scripts Interference BoundedMaps HostBytes NetAddresses BpfManager PoolSync
open ManagerSteps SyncPhases SyncEffects SyncContract PoolRuns DnatRefinement Snapshot Convergence
open DockerDiscovery PacketPath PacketEffects PacketReads Balancing Datagrams DatagramPath Lifecycle
open InterruptedRuns Daemon DaemonRuns FramesInFlight SteadyService SteadyFlights

section Maps

variable {order : ByteOrder} {vip : IP} {vport : UInt16} {srcMAC : HardwareAddr} {p : Pool}
variable {old new shown : List Backend} {world : World}

/-- What the ingress program needs to serve a list. -/
structure Shown (order : ByteOrder) (vip : IP) (vport : UInt16) (srcMAC : HardwareAddr)
    (backends : List Backend) (world : World) : Prop where
  /-- The map size. -/
  bounded : backends.length≤ maxBackends
  /-- The configuration. -/
  config : world.configMap.lookup 0=
    some (lbConfig order vip vport (UInt32.ofNat backends.length) srcMAC)
  /-- The slots. -/
  slots : ∀ j b,backends[j]?=some b → InSlot order world j b

@[simp]
theorem lbConfig_backendCount (count : UInt32) :
    (lbConfig order vip vport count srcMAC).backendCount=count := rfl

/-- A synced list is shown. -/
theorem shown_of_synced (h : Synced order vip vport srcMAC old p world) :
    Shown order vip vport srcMAC old world :=
  ⟨h.bounded,h.config,h.slots⟩

/-- An element keeps its position. -/
theorem getElem?_of_begins {j : ℕ} {b : Backend} (h : old<+:new) (hb : old[j]?=some b) :
    new[j]?=some b := by
  obtain ⟨hj,rfl⟩ := List.getElem?_eq_some_iff.mp hb
  exact List.prefix_iff_getElem?.mp h j hj

/-- While the pool has the beginning of a list, no call for the list takes a
slot of a beginning out of use. -/
theorem slots_kept {op : Call} (hop : SyncCall order p new op) (hpool : p.backends<+:new)
    (hshown : shown<+:new) (hbounded : shown.length≤ maxBackends)
    (h : ∀ j b,shown[j]?=some b → InSlot order world j b) (fault : Fault) :
    ∀ j b,shown[j]?=some b → InSlot order (step op fault world).after j b := by
  intro j b hb
  have hnew := getElem?_of_begins hshown hb
  have hj := (List.getElem?_eq_some_iff.mp hb).1
  rcases hop.slot (hj.le.trans hbounded) fault world with
    hsame|⟨_,_,previous,hp,hne⟩|⟨c,hc,hfilled⟩
  · exact (h j b hb).congr hsame
  · -- the position would have to change
    cases Option.some.inj ((getElem?_of_begins hpool hp).symm.trans hnew)
    have hchanged := hne _ hnew
    rw [equal_self] at hchanged
    contradiction
  · cases Option.some.inj (hc.symm.trans hnew)
    exact hfilled

/-- Calls for a list that is shown leave it shown. -/
theorem Shown.call {op : Call} (h : Shown order vip vport srcMAC new world)
    (hop : SyncCall order p new op) (hpool : p.backends<+:new)
    (hsettings : p.vip=vip ∧ p.vport=vport ∧ p.srcMAC=srcMAC) (fault : Fault) :
    Shown order vip vport srcMAC new (step op fault world).after := by
  refine ⟨h.bounded,?_,slots_kept hop hpool List.prefix_rfl h.bounded h.slots fault⟩
  cases hop with
  | loop hloop =>
    rw [(step_changes _ fault world).config ?_]
    · exact h.config
    · cases hloop with
      | slot hslot => cases hslot <;> simp [part]
      | detach => simp [part]
  | configure =>
    rcases putConfig_cases 0 (poolConfig order p new) fault world with
      ⟨_,hafter⟩|⟨_,written,hput,hafter⟩ <;> rw [hafter]
    · exact h.config
    · rw [ArrayMap.lookup_put hput,if_pos rfl,poolConfig,hsettings.1,hsettings.2.1,hsettings.2.2]

/-- A reconciliation for a list that starts with the synced one shows one of
them at every point, and one of them is synced at the end. -/
theorem sync_shown {iter : IterOrder} {o : GoOutcome (Pool×Option GoError)}
    (hs : Synced order vip vport srcMAC old p world) (hbegin : old<+:new)
    (hr : Runs handle (sync order p new iter) world o) :
    (∀ e∈o.events,Shown order vip vport srcMAC old e.after ∨
      Shown order vip vport srcMAC new e.after) ∧
    (Synced order vip vport srcMAC old o.value.1 o.state ∨
      Synced order vip vport srcMAC new o.value.1 o.state) := by
  have hc := sync_contract hr
  obtain ⟨hpoints,hend⟩ := hr.invariant (SyncCall order p new)
    (fun w => ∀ j b,old[j]?=some b → InSlot order w j b)
    (fun op fault w hop hw => slots_kept hop (hs.backends ▸ hbegin) hbegin hs.bounded hw fault)
    hc.calls hs.slots
  constructor
  · intro e he
    rcases hc.config e he with ⟨_,hok,hafter⟩|⟨_,hconfig⟩
    · rw [hafter]
      exact .inr (shown_of_synced (Contract.synced hc hs.settings hok))
    · exact .inl ⟨hs.bounded,by rw [hconfig]; exact hs.config,hpoints e he⟩
  · by_cases hok : o.value.2=none
    · exact .inr (Contract.synced hc hs.settings hok)
    · obtain ⟨hbackends,hconfig⟩ := hc.failed hok
      obtain ⟨hvip,hport,hmac⟩ := hc.settings
      exact .inl ⟨hbackends.trans hs.backends,⟨hvip.trans hs.settings.1,hport.trans hs.settings.2.1,
        hmac.trans hs.settings.2.2⟩,hs.bounded,by rw [hconfig]; exact hs.config,hend⟩

/-- The same for any number of them. -/
theorem run_synced {state : State} {attempts : List Attempt}
    (hs : Synced order vip vport srcMAC old state.pool state.world) (hbegin : old<+:new)
    (hattempts : ∀ a∈attempts,a.newBackends=new) :
    ∃ synced,(synced=old ∨ synced=new) ∧ Synced order vip vport srcMAC synced
      (run order state attempts).pool (run order state attempts).world := by
  induction attempts generalizing state old with
  | nil => exact ⟨old,.inl rfl,hs⟩
  | cons a rest ih =>
    obtain ⟨rfl,hrest⟩ := List.forall_mem_cons.mp hattempts
    rcases (sync_shown hs hbegin (attempt_runs order state a)).2 with hold|hnew
    · exact ih hold hbegin hrest
    · obtain ⟨synced,hsynced,h⟩ := @ih a.newBackends (next order state a) hnew List.prefix_rfl hrest
      exact ⟨synced,.inr (or_self_iff.mp hsynced),h⟩

end Maps

section Frames

variable {order : ByteOrder} {vip : IP} {vport : UInt16} {srcMAC : HardwareAddr}
variable {old new shown : List Backend} {now earlier later : World} {d : Datagram}
variable {prandom : UInt32} {b : Backend}

/-- A list is shown, or the one to which it grows. -/
def ShownFrom (order : ByteOrder) (vip : IP) (vport : UInt16) (srcMAC : HardwareAddr)
    (shown new : List Backend) (world : World) : Prop :=
  Shown order vip vport srcMAC shown world ∨ Shown order vip vport srcMAC new world

/-- What may happen between two accesses while a list grows: one of the two
lists is shown, and the new one stays. -/
structure Grows (order : ByteOrder) (vip : IP) (vport : UInt16) (srcMAC : HardwareAddr)
    (old new : List Backend) (earlier later : World) : Prop where
  /-- The list that is shown. -/
  shown : ShownFrom order vip vport srcMAC old new later
  /-- The new one stays. -/
  kept : Shown order vip vport srcMAC new earlier → Shown order vip vport srcMAC new later

/-- From a moment on at which a list is shown, it or the new one is. -/
theorem Grows.stays (h : Grows order vip vport srcMAC old new earlier later)
    (hshown : shown=old ∨ shown=new)
    (hearlier : ShownFrom order vip vport srcMAC shown new earlier) :
    ShownFrom order vip vport srcMAC shown new later := by
  rcases hshown with rfl|rfl
  · exact h.shown
  · exact .inr (h.kept (or_self_iff.mp hearlier))

/-- Both lists are beginnings of the new one. -/
theorem begins_of_shown (hbegin : old<+:new) (hshown : shown=old ∨ shown=new) : shown<+:new := by
  rcases hshown with rfl|rfl
  · exact hbegin
  · exact List.prefix_rfl

/-- The slot of an element is the same in a list and in the grown list. -/
theorem inSlot_of_shown {j : ℕ} (hshown : shown<+:new) (hb : shown[j]?=some b)
    (h : ShownFrom order vip vport srcMAC shown new now) : InSlot order now j b := by
  rcases h with h|h
  · exact h.slots j b hb
  · exact h.slots j b (getElem?_of_begins hshown hb)

/-- The settings have been written. -/
theorem written_of_shown (h : ShownFrom order vip vport srcMAC shown new now) :
    Written (fun count => lbConfig order vip vport count srcMAC) now :=
  h.elim (fun h => ⟨_,h.config⟩) fun h => ⟨_,h.config⟩

/-- A frame for an element of a shown list reaches it, also when the list
grows in the meantime. -/
theorem grown_dnat (hbegin : old<+:new) (hshown : shown=old ∨ shown=new)
    (haccepts : (serviceOf vip srcMAC shown).Accepts Icmp d)
    (hb : shown[prandom.toNat%shown.length]?=some b)
    (hnow : ShownFrom order vip vport srcMAC shown new now) :
    Ensures (Grows order vip vport srcMAC old new)
      (fun rewritten _ => rewritten=
        serialize ((serviceOf vip srcMAC shown).forward Icmp prandom.toNat d))
      (dnatReads order (UInt32.ofNat (prandom.toNat%shown.length)) (serialize d)) now := by
  have hbegins := begins_of_shown hbegin hshown
  obtain ⟨v4,hv,hlookup⟩ := inSlot_of_shown hbegins hb hnow
  have hidx := (ArrayMap.lookup_isSome _ _).mp (Option.isSome_of_eq_some hlookup)
  have hicmp : IcmpFrame order (serialize d) := icmpFrame_iff.mpr haccepts.1
  have hrewrite := @dnatReads_ensures order (fun count => lbConfig order vip vport count srcMAC)
    (fun world => world.backendMap.lookup (UInt32.ofNat (prandom.toNat%shown.length))=
      some (backendInfo order v4 b.port b.mac)) now _ (serialize d) _ (fun _ => rfl) hidx
    hicmp.1 (written_of_shown hnow)
  refine (hrewrite.of_stable hnow fun earlier later h hgrows => ?_).imp fun rewritten _ h => ?_
  · have hlater := hgrows.stays hshown h
    obtain ⟨other,hother,hsame⟩ := inSlot_of_shown hbegins hb hlater
    cases Option.some.inj (hv.symm.trans hother)
    exact ⟨hlater,fun _ => written_of_shown hlater,hsame⟩
  · have hwhole := h.2.whole fun _ hworld => hworld
    exact Option.some.inj (hwhole.symm.trans (dnat_forwards rfl haccepts hb hv))

/-- An accepted frame goes to an element of the list that is shown when the
number is used the second time. -/
theorem grown_picks {first : List Backend} (hbegin : old<+:new)
    (hzero : ∀ b∈new,b.ip.to4≠some ⟨0,0,0,0⟩) (hfirst : first=old ∨ first=new) (hne : first≠[])
    (hicmp : Icmp d.content) (hdst : ∀ v4∈vipOf vip,d.dst=v4)
    (hnow : ShownFrom order vip vport srcMAC first new now) :
    Ensures (Grows order vip vport srcMAC old new)
      (fun h _ => h.action=.pass ∧ ∃ shown,(shown=old ∨ shown=new) ∧
        h.frame=serialize ((serviceOf vip srcMAC shown).forward Icmp prandom.toNat d))
      (pickReads order prandom (serialize d)) now := by
  simp only [pickReads,ensures_bind,ensures_load]
  intro next hnext
  -- there is still an element, since the list only grows
  obtain ⟨shown,hshown,hsome,hpresent⟩ : ∃ shown,(shown=old ∨ shown=new) ∧ shown≠[] ∧
      Shown order vip vport srcMAC shown next := by
    rcases hnext.stays hfirst hnow with h|h
    · exact ⟨first,hfirst,hne,h⟩
    · refine ⟨new,.inr rfl,?_,h⟩
      rintro rfl
      exact hne (List.prefix_nil.mp (begins_of_shown hbegin hfirst))
  refine ⟨UInt32.ofNat shown.length,by simp [configField,hpresent.config],
    fun later hlater => ⟨_,rfl,?_⟩⟩
  have hb := List.getElem?_eq_getElem (Nat.mod_lt prandom.toNat (List.length_pos_of_ne_nil hsome))
  have hbegins := begins_of_shown hbegin hshown
  have hstill := hlater.stays hshown (.inl hpresent)
  obtain ⟨v4,hv,hlookup⟩ := inSlot_of_shown hbegins hb hstill
  have haddress : v4≠⟨0,0,0,0⟩ := fun he =>
    hzero _ (List.mem_of_getElem? (getElem?_of_begins hbegins hb)) (he ▸ hv)
  rw [prandom_mod hpresent.bounded]
  simp only [backendField,hlookup,Option.map_some]
  rw [if_neg (backendInfo_ipv4.mpr haddress),ensures_bind]
  refine (grown_dnat hbegin hshown ⟨hicmp,hdst⟩ hb hstill).imp fun rewritten _ h => ?_
  rw [ensures_pure]
  exact ⟨rfl,shown,hshown,h⟩

/-- While a list grows, every datagram is forwarded as the service over the
old list or over the new one does. -/
theorem grown_forwards (hbegin : old<+:new) (hzero : ∀ b∈new,b.ip.to4≠some ⟨0,0,0,0⟩)
    (prandom : UInt32) (d : Datagram) (now : World) :
    Ensures (Grows order vip vport srcMAC old new)
      (fun h _ => h.action=.pass ∧ ∃ shown,(shown=old ∨ shown=new) ∧
        h.frame=serialize ((serviceOf vip srcMAC shown).forward Icmp prandom.toNat d))
      (xdpLbIngressReads order prandom (serialize d)) now := by
  have hpassed : ∀ {accepted : Prop},(Icmp d.content → (∀ v4∈vipOf vip,d.dst=v4) → accepted) →
      ¬accepted → (serviceOf vip srcMAC old).forward Icmp prandom.toNat d=d :=
    fun haccepted h => forward_unless fun htaken => h (haccepted htaken.1.1 htaken.1.2)
  by_cases hicmp : IcmpFrame order (serialize d)
  · simp only [xdpLbIngressReads,isIcmp_value,hicmp,decide_true,ensures_bind,ensures_given,
      Option.mem_some_iff,exists_eq_left',Bool.not_true,Bool.false_eq_true,if_false,ensures_load]
    intro next hnext
    obtain ⟨first,hfirst,hshown⟩ : ∃ first,(first=old ∨ first=new) ∧
        Shown order vip vport srcMAC first next :=
      hnext.shown.elim (fun h => ⟨old,.inl rfl,h⟩) fun h => ⟨new,.inr rfl,h⟩
    simp only [configField,hshown.config,Option.map_some,lbConfig_backendCount]
    by_cases hempty : first=[]
    · subst hempty
      rw [if_pos (by rfl),ensures_pure]
      exact ⟨rfl,[],hfirst,by rw [forward_unless fun h => h.2 rfl]⟩
    · rw [if_neg (ofNat_ne_zero hshown.bounded (List.length_pos_of_ne_nil hempty).ne'),ensures_bind]
      have hfrom : ShownFrom order vip vport srcMAC first new next := .inl hshown
      have hfilter := @acceptsReads_ensures order
        (fun count => lbConfig order vip vport count srcMAC) (fun _ => True) next (serialize d)
        (lbConfig order vip vport 0 srcMAC).vip (fun _ => rfl) hicmp (written_of_shown hfrom)
      refine (hfilter.of_stable hfrom fun earlier later h hgrows => ?_).imp
        fun accepted third h => ?_
      · have hlater := hgrows.stays hfirst h
        exact ⟨hlater,fun _ => written_of_shown hlater,trivial⟩
      · obtain ⟨hthird,_,haccepted⟩ := h
        rw [serialize,accepted_iff] at haccepted
        cases accepted with
        | false =>
          rw [Bool.not_false,if_pos rfl,ensures_pure]
          exact ⟨rfl,old,.inl rfl,by rw [hpassed (fun _ => haccepted.mpr) Bool.false_ne_true]⟩
        | true =>
          exact grown_picks hbegin hzero hfirst hempty (icmpFrame_iff.mp hicmp) (haccepted.mp rfl)
            hthird
  · simp only [xdpLbIngressReads,isIcmp_value,hicmp,decide_false,ensures_bind,ensures_given,
      Option.mem_some_iff,exists_eq_left',Bool.not_false,if_true]
    rw [ensures_pure]
    exact ⟨rfl,old,.inl rfl,by rw [hpassed (fun h _ => icmpFrame_iff.mpr h) hicmp]⟩

end Frames

section Program

variable {cpus : ℕ} {lib : Parsers} {order : ByteOrder} {first mid s s' : Process cpus}
variable {actions more during : List (Action cpus)} {old new : List Backend}

/-- At this moment between two polls the last reconciliation has succeeded,
whatever failed before. -/
structure SyncedOnce (lib : Parsers) (order : ByteOrder) (first : Process cpus)
    (actions : List (Action cpus)) (mid : Process cpus) (backends : List Backend) : Prop where
  /-- The moment is reached. -/
  reached : steps lib order first actions=some mid
  /-- No reconciliation is running. -/
  idle : ∀ found rest,mid.reconciler≠.syncing found rest
  /-- The last reconciliation. -/
  once : ∃ earlier a,schedule lib first.settings.watcher actions=earlier++[a] ∧
    a.newBackends=backends ∧ Succeeds order (run order (origin first) earlier) a

/-- Where a grown list has been found: the list that is shown, and what the
next call can be. -/
structure Growing (order : ByteOrder) (settings : Settings) (old new : List Backend)
    (s : Process cpus) : Prop where
  /-- One of the lists is shown. -/
  shown : ShownFrom order settings.vip settings.vport settings.srcMAC old new s.kernel.world
  /-- The calls are for the new list, from a beginning of it. -/
  calls : ∀ found op next,s.reconciler=.syncing found (.call op next) →
    SyncCall order s.pool new op ∧ s.pool.backends<+:new ∧ s.pool.vip=settings.vip ∧
      s.pool.vport=settings.vport ∧ s.pool.srcMAC=settings.srcMAC

/-- In the middle of a reconciliation. -/
theorem growing_of_interrupted {vip : IP} {vport : UInt16} {srcMAC : HardwareAddr} {pool : Pool}
    {start world : World} {iter : IterOrder} {events : List Step} {rest : Go (Pool×Option GoError)}
    (hs : Synced order vip vport srcMAC old pool start) (hbegin : old<+:new)
    (hi : Interrupted handle (sync order pool new iter) start events rest world) :
    ShownFrom order vip vport srcMAC old new world ∧
      ∀ op next,rest=.call op next → SyncCall order pool new op := by
  constructor
  · obtain ⟨o,later,hr,hevents⟩ := hi.exists_runs
    rcases List.mem_cons.mp (List.mem_of_getElem? hi.getElem?_present) with rfl|hpresent
    · exact .inl (shown_of_synced hs)
    · obtain ⟨e,he,rfl⟩ := List.mem_map.mp hpresent
      exact (sync_shown hs hbegin hr).1 e (by rw [hevents]; exact List.mem_append_left _ he)
  · rintro op next rfl
    obtain ⟨o,hr,e,he,rfl⟩ := hi.exists_runs_call
    exact (sync_contract hr).calls e he

namespace SyncedOnce

/-- The list is synced then. -/
theorem synced (h : SyncedOnce lib order first actions mid old) :
    Synced order first.settings.vip first.settings.vport first.settings.srcMAC old
      (run order (origin first) (schedule lib first.settings.watcher actions)).pool
      (run order (origin first) (schedule lib first.settings.watcher actions)).world := by
  obtain ⟨earlier,a,hschedule,rfl,hok⟩ := h.once
  rw [hschedule,run_concat]
  exact Contract.synced (attempt_contract order _ a) (run_settings order _ _ _ earlier) hok

/-- While every poll fails or finds the grown list, it grows. -/
theorem growing (h : SyncedOnce lib order first actions mid old) (hfirst : Launched first)
    (hbegin : old<+:new) (hfinds : OnlyFinds lib first.settings.watcher new more)
    (hsteps : steps lib order mid more=some s) (hopen : s.main.isShut=false) :
    Growing order first.settings old new s := by
  have hall : steps lib order first (actions++more)=some s := by
    rw [steps_append,h.reached]
    exact hsteps
  have hworking := steps_working hfirst hall hopen
  have hfurthered := @steps_furthered _ _ _ _ _ actions _ _ _
    (congrArg Settings.watcher (steps_settings h.reached)) h.idle hsteps hfinds
  obtain ⟨finished,hlist,hcase⟩ := hfurthered.reconciled hworking.reconciled
  obtain ⟨l,hl,hsynced⟩ := run_synced h.synced hbegin hlist
  have hbegins := begins_of_shown hbegin hl
  have hfrom : ∀ {world},ShownFrom order first.settings.vip first.settings.vport
      first.settings.srcMAC l new world → ShownFrom order first.settings.vip first.settings.vport
      first.settings.srcMAC old new world := by
    rcases hl with rfl|rfl
    · exact id
    · exact fun hnew => .inr (or_self_iff.mp hnew)
  rcases hcase with ⟨hfree,hend⟩|⟨iter,events,rest,hs,hpool,hinterrupted⟩
  · rw [show run order (run order (origin first) _) finished=_ from hend] at hsynced
    exact ⟨hfrom (.inl (shown_of_synced hsynced)),fun found op next hs => absurd hs (hfree _ _)⟩
  · rw [origin,←hpool] at hsynced
    obtain ⟨hshown,hcalls⟩ := growing_of_interrupted hsynced hbegins hinterrupted
    refine ⟨hfrom hshown,fun found op next hnext => ?_⟩
    rw [hs] at hnext
    cases hnext
    exact ⟨hcalls op next rfl,hsynced.backends ▸ hbegins,hsynced.settings⟩

/-- The grown list stays once it is shown. -/
theorem kept (h : SyncedOnce lib order first actions mid old) (hfirst : Launched first)
    (hbegin : old<+:new) (hfinds : OnlyFinds lib first.settings.watcher new (more++during))
    (hsteps : steps lib order mid more=some s) (hduring : steps lib order s during=some s')
    (hopen : s'.main.isShut=false)
    (hshown : Shown order first.settings.vip first.settings.vport first.settings.srcMAC new
      s.kernel.world) :
    Shown order first.settings.vip first.settings.vport first.settings.srcMAC new
      s'.kernel.world := by
  refine steps_induction (fun during t => OnlyFinds lib first.settings.watcher new (more++during) →
    t.main.isShut=false → Shown order first.settings.vip first.settings.vport
      first.settings.srcMAC new t.kernel.world) (fun _ _ => hshown)
    (fun before t action t' hbefore ht hmove hfinds hopen => ?_) hduring hfinds hopen
  have hsofar : OnlyFinds lib first.settings.watcher new (more++before) := by
    rw [←List.append_assoc] at hfinds
    exact fun host iter found hm => hfinds host iter found (List.mem_append_left _ hm)
  have hstill := isShut_of_moves hmove hopen
  have hall : steps lib order mid (more++before)=some t := by
    rw [steps_append,hsteps]
    exact hbefore
  cases hmove with
  | call hsyncing =>
    obtain ⟨hop,hbegins,hsettings⟩ :=
      (h.growing hfirst hbegin hsofar hall hstill).calls _ _ _ hsyncing
    exact (ht hsofar hstill).call hop hbegins hsettings _
  | close => contradiction
  | _ => exact ht hsofar hstill

end SyncedOnce

/-- Library functions for a second container. -/
def grownParsers : Parsers := {hostParsers with
  parseIP := fun text => if text="172.17.0.3" then some [172,17,0,3] else hostParsers.parseIP text
  parseMAC := fun text =>
    if text="02:42:ac:11:00:03" then some [2,66,172,17,0,3] else hostParsers.parseMAC text}

/-- The bridge with a second container behind the first one. -/
def grownHost : Host where
  containerList label := (bridgeHost.containerList label).map fun containers =>
    containers++[⟨"81be05d7a2c49f",fun _ => none,by decide⟩]
  containerInspect id :=
    if id="81be05d7a2c49f" then
      some ⟨"/api",true,none,4712,[⟨"172.17.0.3","02:42:ac:11:00:03"⟩]⟩
    else bridgeHost.containerInspect id
  containerLinks pid := if pid=4712 then .ok [⟨"veth",9⟩] else bridgeHost.containerLinks pid
  linkByIndex index := if index=9 then some "veth3c4d" else bridgeHost.linkByIndex index

/-- The second container. -/
def secondBackend : Backend :=
  ⟨"81be05d7a2c4","api",[172,17,0,3],[2,66,172,17,0,3],80,true,4712,"veth3c4d",9⟩

/-- The reconciliation of both, up to its last call. -/
def grownSync : List (Action 1) :=
  .discover grownHost storedOrder::(List.replicate 6 noFault).map .call

/-- The first reconciliation has succeeded. -/
theorem firstSynced_once : ∃ mid,SyncedOnce grownParsers .little bridgeProcess firstSynced mid
    [bridgeBackend] := by
  refine ⟨_,rfl,by simp,[],⟨[bridgeBackend],storedOrder,List.replicate 4 noFault⟩,rfl,rfl,rfl⟩

end Program

end ContainerLb.Growth

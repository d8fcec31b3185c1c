import ContainerLb.DaemonTraffic
import ContainerLb.Shutdown
import ContainerLb.PacketReads

/-!
# Frames in flight

A packet program runs beside the threads of the manager, which may take any
number of steps between two of its accesses. So a frame can meet the slot of
its backend while it is rewritten: the address and the bytes of the hardware
address then come from different moments, and the address may be gone when it
is used, although it was there when it was checked. They are still those of
discovered containers, or zero. What never changes once it has been written,
the virtual address and the own hardware address, is seen whole.
-/

namespace ContainerLb.FramesInFlight

open CallProgram Scripts Interference BoundedMaps HostBytes NetAddresses BpfManager PoolSync
open ManagerSteps DockerDiscovery PacketPath PacketEffects PacketReads Lifecycle InterruptedRuns
open Daemon DaemonRuns DaemonTraffic Shutdown

section Programs

variable {order : ByteOrder} {config : UInt32 → LbConfig} {known : Backend → Prop}
variable {seen : World → Prop} {now : World} {idx : UInt32} {frame : List UInt8} {vip : IP}
variable {src : Mac}

/-- The configuration has been written. -/
def Written (config : UInt32 → LbConfig) (world : World) : Prop :=
  ∃ count,world.configMap.lookup 0=some (config count)

/-- What may happen between two accesses: the configuration stays written,
and the access sees one of the observed worlds. -/
structure Disturbs (config : UInt32 → LbConfig) (seen : World → Prop) (earlier later : World) :
    Prop where
  /-- The configuration. -/
  written : Written config earlier → Written config later
  /-- The world later on. -/
  seen : seen later

/-- A part of a slot as it was in one of the observed worlds. -/
def FromSlot {β : Type} (seen : World → Prop) (idx : UInt32) (field : BackendInfo → β)
    (value : β) : Prop :=
  ∃ world info,seen world ∧ world.backendMap.lookup idx=some info ∧ field info=value

/-- If the slot is the same in all of them, the part is. -/
theorem FromSlot.eq {β : Type} {field : BackendInfo → β} {value : β} {info : BackendInfo}
    (h : FromSlot seen idx field value)
    (hslot : ∀ world,seen world → world.backendMap.lookup idx=some info) : field info=value := by
  obtain ⟨world,other,hseen,hother,rfl⟩ := h
  rw [hslot world hseen,Option.some_inj] at hother
  rw [hother]

/-- A frame is rewritten with parts of a slot, each from some moment. -/
def Assembled (order : ByteOrder) (seen : World → Prop) (src : Mac) (idx : UInt32)
    (frame rewritten : List UInt8) : Prop :=
  ∃ dest ipv4,(∀ i : Fin 6,FromSlot seen idx (fun info => info.mac.get i) (dest.get i)) ∧
    FromSlot seen idx BackendInfo.ipv4 ipv4 ∧
    dnat order {emptyConfig with srcMac := src} {emptyBackend with ipv4 := ipv4,mac := dest} frame=
      some rewritten

/-- If the slot does not change, the frame is rewritten for its backend. -/
theorem Assembled.whole {info : BackendInfo} {rewritten : List UInt8}
    (h : Assembled order seen src idx frame rewritten)
    (hslot : ∀ world,seen world → world.backendMap.lookup idx=some info) :
    dnat order {emptyConfig with srcMac := src} info frame=some rewritten := by
  obtain ⟨dest,ipv4,hdest,hipv4,hdnat⟩ := h
  have hmac : info.mac=dest := Vector.ext fun i hi => (hdest ⟨i,hi⟩).eq hslot
  rw [←hmac,←hipv4.eq hslot] at hdnat
  exact hdnat

/-- A frame diverted in flight to the backend at an index. -/
structure Diverted (order : ByteOrder) (seen : World → Prop) (vip : IP) (src : Mac) (idx : UInt32)
    (frame rewritten : List UInt8) : Prop where
  /-- Only ICMP frames are rewritten. -/
  icmp : IcmpFrame order frame
  /-- Only those for the virtual address, if there is one. -/
  accepted : ∀ v4,vip.to4=some v4 → v4=⟨0,0,0,0⟩ ∨ slice frame 30 4=v4.toList
  /-- The rewrite. -/
  parts : Assembled order seen src idx frame rewritten

/-- The rewrite of a frame that is long enough. -/
theorem dnatted_of_dnat {cfg : LbConfig} {backend : BackendInfo} {rewritten : List UInt8}
    (hlen : 34≤frame.length) (h : dnat order cfg backend frame=some rewritten) :
    Dnatted cfg.srcMac backend.mac (order.store32 backend.ipv4) frame rewritten := by
  obtain ⟨other,hother,hspec⟩ := dnat_spec order cfg backend hlen
  cases Option.some.inj (h.symm.trans hother)
  exact hspec

/-- A byte of the hardware address of a known backend, or of a free slot. -/
def SomeMacByte (known : Backend → Prop) (i : Fin 6) (byte : UInt8) : Prop :=
  byte=0 ∨ ∃ b,known b ∧ byte=(macBytes b.mac).get i

/-- The address of a known backend, or of a free slot. -/
def SomeAddress (known : Backend → Prop) (addr : Quad) : Prop :=
  addr=⟨0,0,0,0⟩ ∨ ∃ b,known b ∧ b.ip.to4=some addr

/-- A configuration other than the empty one is that of the pool. -/
theorem written_of_ne {cfg : LbConfig} (h : Confined order config known now)
    (hconfig : now.configMap.lookup 0=some cfg) (hne : cfg≠emptyConfig) : Written config now := by
  rcases h.config cfg hconfig with hempty|⟨count,rfl⟩
  · exact absurd hempty hne
  · exact ⟨count,hconfig⟩

/-- An index inside the map always has an entry. -/
theorem exists_slot (world : World) (hidx : idx.toNat< maxBackends) :
    ∃ info,world.backendMap.lookup idx=some info :=
  Option.isSome_iff_exists.mp ((ArrayMap.lookup_isSome _ _).mpr hidx)

/-- Where the maps refer to known backends only, so does every part. -/
theorem Diverted.confined {rewritten : List UInt8}
    (h : Diverted order seen vip src idx frame rewritten)
    (hseen : ∀ world,seen world → Confined order config known world) :
    ∃ dest daddr,(∀ i : Fin 6,SomeMacByte known i (dest.get i)) ∧ SomeAddress known daddr ∧
      Dnatted src dest daddr frame rewritten := by
  obtain ⟨dest,ipv4,hdest,hipv4,hdnat⟩ := h.parts
  refine ⟨dest,_,fun i => ?_,?_,dnatted_of_dnat h.icmp.1 hdnat⟩
  · obtain ⟨world,info,hworld,hslot,hbyte⟩ := hdest i
    rw [←hbyte]
    rcases (hseen world hworld).slots idx info hslot with rfl|⟨b,v4,hb,_,rfl⟩
    · exact .inl (by simp [emptyBackend,zeroMac,Vector.get])
    · exact .inr ⟨b,hb,rfl⟩
  · obtain ⟨world,info,hworld,hslot,rfl⟩ := hipv4
    rcases (hseen world hworld).slots idx info hslot with rfl|⟨b,v4,hb,hv,rfl⟩
    · have hzero : order.load32 ⟨0,0,0,0⟩=0 := order.load32_eq_zero.mpr rfl
      left
      rw [show emptyBackend.ipv4=0 from rfl,←hzero,order.store32_load32]
    · refine .inr ⟨b,hb,?_⟩
      rw [show (backendInfo order v4 b.port b.mac).ipv4=order.load32 v4 from rfl,
        order.store32_load32]
      exact hv

/-- The loop copies bytes of the slot and the own hardware address. -/
theorem copyMacs_ensures (hsrc : ∀ count,(config count).srcMac=src)
    (hidx : idx.toNat< maxBackends) (hlen : 12≤frame.length) {indices : List (Fin 6)}
    (hnodup : indices.Nodup) (hnow : Written config now) :
    Ensures (Disturbs config seen) (fun written _ => ∃ dest : Mac,
        (∀ i∈indices,FromSlot seen idx (fun info => info.mac[i]) dest[i]) ∧
        setMacs dest src indices frame=some written)
      (copyMacs idx indices frame) now := by
  induction indices generalizing frame now with
  | nil => exact (ensures_pure frame).mpr ⟨zeroMac,nofun,rfl⟩
  | cons i rest ih =>
    obtain ⟨hi,hnodup⟩ := List.nodup_cons.mp hnodup
    simp only [copyMacs,ensures_bind,ensures_load,ensures_given]
    intro next hnext
    obtain ⟨info,hslot⟩ := exists_slot next hidx
    obtain ⟨first,hfirst,hlength⟩ := @write_of_le frame [info.mac[i]] i (by simp; omega)
    refine ⟨info.mac[i],by simp [backendField,hslot],first,hfirst,fun later hlater => ?_⟩
    obtain ⟨count,hconfig⟩ := hlater.written (hnext.written hnow)
    obtain ⟨second,hsecond,hlength'⟩ := @write_of_le first [src[i]] (6+i) (by simp; omega)
    refine ⟨src[i],by simp [configField,hconfig,hsrc],second,hsecond,?_⟩
    refine (ih (by omega) hnodup ⟨count,hconfig⟩).imp fun written last h => ?_
    obtain ⟨dest,hdest,hset⟩ := h
    -- the byte of this round is put in its place, where the rest does not look
    have hother : ∀ j∈rest,(dest.set i info.mac[i])[j]=dest[j] := by
      intro j hj
      have hne : i.val≠j.val := fun heq => hi (Fin.ext heq ▸ hj)
      simp [hne]
    have hown : (dest.set i info.mac[i])[i]=info.mac[i] := by simp
    refine ⟨dest.set i info.mac[i],List.forall_mem_cons.mpr ⟨?_,fun j hj => ?_⟩,?_⟩
    · exact ⟨next,info,hnext.seen,hslot,hown.symm⟩
    · rw [hother j hj]
      exact hdest j hj
    · rw [←setMacs_congr (fun j hj => ⟨hother j hj,rfl⟩) second] at hset
      simp only [setMacs,hown,hfirst,hsecond,hset,Option.bind_eq_bind,Option.bind_some]

/-- The rewrite ends with parts of the slot. -/
theorem dnatReads_ensures (hsrc : ∀ count,(config count).srcMac=src)
    (hidx : idx.toNat< maxBackends) (hlen : 34≤frame.length) (hnow : Written config now) :
    Ensures (Disturbs config seen) (fun rewritten _ => Assembled order seen src idx frame rewritten)
      (dnatReads order idx frame) now := by
  simp only [dnatReads,ensures_bind,ensures_load,ensures_given]
  refine (copyMacs_ensures hsrc hidx (by omega) (List.nodup_finRange 6) hnow).imp
    fun copied _ h later hlater => ?_
  obtain ⟨dest,hdest,hset⟩ := h
  obtain ⟨info,hslot⟩ := exists_slot later hidx
  obtain ⟨rewritten,hdnat,_⟩ := dnat_spec order {emptyConfig with srcMac := src}
    {emptyBackend with ipv4 := info.ipv4,mac := dest} hlen
  have hparts := hdnat
  rw [setMacs_finRange _ _ (by omega)] at hset
  obtain ⟨first,hfirst,hcopied⟩ := Option.bind_eq_some_iff.mp hset
  simp only [dnat,hfirst,hcopied,Option.bind_eq_bind,Option.bind_some] at hdnat
  obtain ⟨addressed,haddressed,hcsum⟩ := Option.bind_eq_some_iff.mp hdnat
  exact ⟨info.ipv4,by simp [backendField,hslot],addressed,haddressed,rewritten,hcsum,dest,_,
    fun i => hdest i (List.mem_finRange i),⟨later,info,hlater.seen,hslot,rfl⟩,hparts⟩

/-- The filter sees the virtual address. -/
theorem acceptsReads_ensures {value : UInt32} (hvip : ∀ count,(config count).vip=value)
    (hicmp : IcmpFrame order frame) (hnow : Written config now) :
    Ensures (Disturbs config seen) (fun accepted later => Written config later ∧
        (accepted=true ↔ value=0 ∨ read32 order frame 30=some value))
      (acceptsReads order frame) now := by
  obtain ⟨quad,_,_,hread⟩ := hicmp.read32 (Nat.le_refl 30)
  simp only [acceptsReads,ensures_bind,ensures_load]
  intro next hnext
  obtain ⟨count,hconfig⟩ := hnext.written hnow
  refine ⟨value,by simp [configField,hconfig,hvip],?_⟩
  by_cases hzero : value=0
  · rw [if_pos hzero,ensures_pure]
    exact ⟨⟨count,hconfig⟩,iff_of_true rfl (.inl hzero)⟩
  · rw [if_neg hzero]
    simp only [ensures_bind,ensures_given,ensures_load,ensures_pure]
    refine ⟨_,hread,fun later hlater => ?_⟩
    obtain ⟨again,hagain⟩ := hlater.written ⟨count,hconfig⟩
    refine ⟨value,by simp [configField,hagain,hvip],⟨again,hagain⟩,?_⟩
    rw [hread,Option.some_inj,decide_eq_true_iff,or_iff_right hzero]

/-- A frame that the filter accepts is for the virtual address. -/
theorem slice_of_accepted {v4 : Quad} (hicmp : IcmpFrame order frame) (hv : vip.to4=some v4)
    (h : (vip.to4.map order.load32).getD 0=0 ∨
      read32 order frame 30=some ((vip.to4.map order.load32).getD 0)) :
    v4=⟨0,0,0,0⟩ ∨ slice frame 30 4=v4.toList := by
  obtain ⟨quad,_,hslice,hread⟩ := hicmp.read32 (Nat.le_refl 30)
  rw [hv,Option.map_some,Option.getD_some,hread,Option.some_inj] at h
  rcases h with hzero|hsame
  · exact .inl (order.load32_eq_zero.mp hzero)
  · exact .inr (order.load32_inj.mp hsame ▸ hslice)

/-- An accepted frame is passed on unchanged or rewritten with the parts of
the slot that it counts for. -/
theorem pickReads_ensures (hsrc : ∀ count,(config count).srcMac=src) (hlen : 34≤frame.length)
    (hnow : Written config now) (prandom : UInt32) :
    Ensures (Disturbs config seen) (fun h _ => h=⟨.pass,frame,none⟩ ∨
        ∃ rewritten idx,h=⟨.pass,rewritten,some idx⟩ ∧
          Assembled order seen src idx frame rewritten)
      (pickReads order prandom frame) now := by
  simp only [pickReads,ensures_bind,ensures_load]
  intro next hnext
  obtain ⟨count,hconfig⟩ := hnext.written hnow
  refine ⟨(config count).backendCount,by simp [configField,hconfig],fun later hlater => ⟨_,rfl,?_⟩⟩
  cases hslot : later.backendMap.lookup (prandom%(config count).backendCount) with
  | none => simp [backendField,hslot]
  | some info =>
    simp only [backendField,hslot,Option.map_some]
    by_cases haddress : info.ipv4=0
    · simp [haddress]
    · have hidx := (ArrayMap.lookup_isSome _ _).mp (Option.isSome_of_eq_some hslot)
      rw [if_neg haddress,ensures_bind]
      refine (dnatReads_ensures hsrc hidx hlen (hlater.written ⟨count,hconfig⟩)).imp
        fun rewritten _ hparts => ?_
      rw [ensures_pure]
      exact .inr ⟨rewritten,_,rfl,hparts⟩

/-- Every frame at the ingress interface is passed on unchanged and uncounted
or diverted and counted once. -/
theorem ingress_ensures (hseen : ∀ world,seen world → Confined order config known world)
    (hvip : ∀ count,(config count).vip=(vip.to4.map order.load32).getD 0)
    (hsrc : ∀ count,(config count).srcMac=src) (prandom : UInt32) (frame : List UInt8)
    (now : World) :
    Ensures (Disturbs config seen) (fun h _ => h=⟨.pass,frame,none⟩ ∨
        ∃ rewritten idx,h=⟨.pass,rewritten,some idx⟩ ∧
          Diverted order seen vip src idx frame rewritten)
      (xdpLbIngressReads order prandom frame) now := by
  by_cases hicmp : IcmpFrame order frame
  · simp only [xdpLbIngressReads,isIcmp_value,hicmp,decide_true,ensures_bind,ensures_given,
      Option.mem_some_iff,exists_eq_left',Bool.not_true,Bool.false_eq_true,if_false,ensures_load]
    intro next hnext
    cases hconfig : next.configMap.lookup 0 with
    | none => simp [configField,hconfig]
    | some cfg =>
      simp only [configField,hconfig,Option.map_some]
      by_cases hcount : cfg.backendCount=0
      · simp [hcount]
      · -- a number other than zero means that the configuration is there
        have hwritten := written_of_ne (hseen next hnext.seen) hconfig
          fun hempty => hcount (congrArg LbConfig.backendCount hempty)
        simp only [if_neg hcount,ensures_bind]
        refine (acceptsReads_ensures hvip hicmp hwritten).imp fun accepted later h => ?_
        obtain ⟨hlater,haccepted⟩ := h
        cases accepted with
        | false => simp
        | true =>
          refine (pickReads_ensures hsrc hicmp.1 hlater prandom).imp fun h _ hpicked => ?_
          refine hpicked.imp_right ?_
          rintro ⟨rewritten,idx,rfl,hparts⟩
          exact ⟨rewritten,idx,rfl,hicmp,fun v4 hv =>
            slice_of_accepted hicmp hv (haccepted.mp rfl),hparts⟩
  · simp [xdpLbIngressReads,isIcmp_value,hicmp]

/-- Every frame from a veth is passed on unchanged or, if it comes from the
address of a known backend, with the virtual address. -/
theorem veth_ensures (hseen : ∀ world,seen world → Confined order config known world)
    (hvip : ∀ count,(config count).vip=(vip.to4.map order.load32).getD 0)
    (frame : List UInt8) (now : World) :
    Ensures (Disturbs config seen) (fun result _ => result=(.pass,frame) ∨
        ∃ b v4 addr rewritten,result=(.pass,rewritten) ∧ known b ∧ b.ip.to4=some v4 ∧
          slice frame 26 4=v4.toList ∧ vip.to4=some addr ∧ Snatted addr frame rewritten)
      (xdpVethSnatReads order frame) now := by
  by_cases hicmp : IcmpFrame order frame
  · obtain ⟨quad,_,hslice,hread⟩ := @IcmpFrame.read32 order frame 26 hicmp (by decide)
    simp only [xdpVethSnatReads,isIcmp_value,hicmp,decide_true,ensures_bind,ensures_given,
      Option.mem_some_iff,exists_eq_left',Bool.not_true,Bool.false_eq_true,if_false,ensures_load,
      hread]
    intro next hnext
    cases hkey : next.backendIpsMap.lookup (order.load32 quad) with
    | none => simp
    | some registered =>
      obtain ⟨b,v4,hb,hv,hsame⟩ := (hseen next hnext.seen).keys _ registered hkey
      obtain rfl := order.load32_inj.mp hsame
      simp only [ensures_bind,ensures_load,Option.mem_some_iff,exists_eq_left']
      intro later hlater
      cases hconfig : later.configMap.lookup 0 with
      | none => simp [configField,hconfig]
      | some cfg =>
        simp only [configField,hconfig,Option.map_some]
        by_cases hzero : cfg.vip=0
        · simp [hzero]
        · -- from here on the virtual address is the same at every access
          obtain ⟨count,hcount⟩ := written_of_ne (hseen later hlater.seen) hconfig
            fun hempty => hzero (congrArg LbConfig.vip hempty)
          rw [hconfig] at hcount
          cases hcount
          cases hto4 : vip.to4 with
          | none => exact absurd (by rw [hvip,hto4]; rfl) hzero
          | some addr =>
            simp only [if_neg hzero,ensures_bind,ensures_load,ensures_given,ensures_pure]
            intro last hlast
            obtain ⟨again,hagain⟩ := hlast.written ⟨count,hconfig⟩
            obtain ⟨rewritten,hsnat,hspec⟩ := snat_spec order (order.load32 addr) hicmp.1
            rw [order.store32_load32] at hspec
            exact ⟨order.load32 addr,by simp [configField,hagain,hvip,hto4],rewritten,hsnat,
              .inr ⟨b,quad,addr,rewritten,rfl,hb,hv,hslice,rfl,hspec⟩⟩
  · simp [xdpVethSnatReads,isIcmp_value,hicmp]

end Programs

section Flights

variable {cpus : ℕ} {lib : Parsers} {order : ByteOrder} {config : UInt32 → LbConfig}
variable {first s s' : Process cpus} {actions more : List (Action cpus)} {world : World}

/-- The steps of an execution and where they have led. -/
abbrev Moment (cpus : ℕ) := List (Action cpus)×Process cpus

/-- Before an access the threads take some steps, if they are enabled. -/
def others (lib : Parsers) (order : ByteOrder) :
    Handler Unit (List (Action cpus)) (Moment cpus) World := fun _ before now =>
  match steps lib order now.2 before with
  | some s => (s.kernel.world,now.1++before,s)
  | none => (now.2.kernel.world,now)

/-- A call of `Sync` leaves the configuration written. -/
theorem issued_written {new : List Backend} {op : Call} (hop : Issued order config new op)
    (fault : Fault) (h : Written config world) : Written config (step op fault world).after := by
  cases hop with
  | configure count =>
    rcases putConfig_cases 0 (config count) fault world with ⟨_,hafter⟩|⟨_,written,hput,hafter⟩ <;>
      rw [hafter]
    · exact h
    · exact ⟨count,by rw [ArrayMap.lookup_put hput,if_pos rfl]⟩
  | _ =>
    rw [Written,(step_changes _ fault world).config (by simp [part])]
    exact h

/-- The configuration stays written in every execution. -/
theorem steps_written (hfirst : Launched first) (h : steps lib order first actions=some s)
    (hmore : steps lib order s more=some s')
    (hwritten : Written (configOf order first.pool) s.kernel.world) :
    Written (configOf order first.pool) s'.kernel.world := by
  refine steps_induction (fun _ t => Written (configOf order first.pool) t.kernel.world) hwritten
    (fun during t action t' hduring ht hmove => ?_) hmore
  have hall : steps lib order first (actions++during)=some t := by
    rw [steps_append,h]
    exact hduring
  cases hmove with
  | call hsyncing =>
    obtain ⟨_,hissued,_⟩ := (steps_traced hfirst hall).syncing _ _ hsyncing
    exact issued_written hissued _ ht
  | @close reply op next hclosing =>
    have hop := (steps_closing hfirst hall _ hclosing).1
    cases op with
    | loadLbObjects => exact absurd rfl hop
    | closeVeth vethName =>
      obtain ⟨count,hcount⟩ := ht
      refine ⟨count,?_⟩
      rw [←hcount]
      simp only [lifeEffect,closeVethLink]
      split <;> rfl
    | _ => cases reply <;> exact ht
  | _ => exact ht

/-- The steps before an access lead from one moment of an execution to a
later one, which the access sees. -/
theorem others_steps (before : List (Action cpus)) (now : Moment cpus) :
    ∃ during⊆before,(others lib order () before now).2.1=now.1++during ∧
      steps lib order now.2 during=some (others lib order () before now).2.2 ∧
      (others lib order () before now).1=(others lib order () before now).2.2.kernel.world := by
  unfold others
  split
  · exact ⟨before,List.Subset.refl _,rfl,‹_›,rfl⟩
  · exact ⟨[],List.nil_subset _,(List.append_nil _).symm,rfl,rfl⟩

section Chain

variable {α : Type} {program : Prog Unit World α} {now : Moment cpus}
variable {o : Outcome Unit (List (Action cpus)) World (Moment cpus) α}

/-- A flight ends at a later moment of the execution. -/
theorem flight_steps (hr : Runs (others lib order) program now o) :
    ∃ during,o.state.1=now.1++during ∧ steps lib order now.2 during=some o.state.2 := by
  induction hr with
  | done value state => exact ⟨[],(List.append_nil _).symm,rfl⟩
  | @call op next state label rest tail ih =>
    obtain ⟨before,_,hbefore,hsteps,_⟩ := @others_steps _ lib order label state
    obtain ⟨during,hduring,hrest⟩ := ih
    refine ⟨before++during,?_,?_⟩
    · rw [←List.append_assoc,←hbefore]
      exact hduring
    · rw [steps_append,hsteps]
      exact hrest

/-- Every access sees the world of a moment between the start and the end of
the flight, reached by steps that were taken before accesses. -/
theorem flight_moments (hr : Runs (others lib order) program now o) :
    ∀ e∈o.events,e.reply=e.after.2.kernel.world ∧
      (∃ before,(∀ action∈before,∃ e∈o.events,action∈e.label) ∧ e.after.1=now.1++before ∧
        steps lib order now.2 before=some e.after.2) ∧
      ∃ behind,o.state.1=e.after.1++behind ∧ steps lib order e.after.2 behind=some o.state.2 := by
  induction hr with
  | done value state => exact List.forall_mem_nil _
  | @call op next state label rest tail ih =>
    obtain ⟨before,hsubset,hmoment,hsteps,hview⟩ := @others_steps _ lib order label state
    have hbehind := flight_steps tail
    have hown : ∀ action∈before,
        ∃ e∈(rest.prepend [answer (others lib order) op label state]).events,action∈e.label :=
      fun action ha => ⟨_,List.mem_cons_self,hsubset ha⟩
    refine List.forall_mem_cons.mpr
      ⟨⟨hview,⟨before,hown,hmoment,hsteps⟩,hbehind⟩,fun e he => ?_⟩
    obtain ⟨hreply,⟨more,hmore,hlater,hreached⟩,hlast⟩ := ih e he
    refine ⟨hreply,⟨before++more,fun action ha => ?_,?_,?_⟩,hlast⟩
    · rcases List.mem_append.mp ha with ha|ha
      · exact hown action ha
      · obtain ⟨later,hl,hin⟩ := hmore action ha
        exact ⟨later,List.mem_cons_of_mem _ hl,hin⟩
    · rw [←List.append_assoc,←hmoment]
      exact hlater
    · rw [steps_append,hsteps]
      exact hreached

/-- The maps seen in flight refer to backends discovered before its end. -/
theorem flight_confined (hfirst : Launched first) (hnow : steps lib order first now.1=some now.2)
    (hr : Runs (others lib order) program now o) :
    ∀ e∈o.events,Confined order (configOf order first.pool)
      (Seen lib first.settings.watcher o.state.1) e.reply := by
  intro e he
  obtain ⟨hreply,⟨before,_,hmoment,hreached⟩,behind,hend,_⟩ := flight_moments hr e he
  have hall : steps lib order first e.after.1=some e.after.2 := by
    rw [hmoment,steps_append,hnow]
    exact hreached
  rw [hreply,hend]
  exact (steps_traced hfirst hall).world.imp fun b hb => hb.append behind

/-- The worlds seen in flight follow each other by steps that were taken
before accesses. -/
theorem flight_chain {rely : World → World → Prop} (hr : Runs (others lib order) program now o)
    (hrely : ∀ e∈o.events,∀ before s between,steps lib order now.2 before=some s →
      steps lib order s between=some e.after.2 →
      (∀ action∈before++between,∃ e∈o.events,action∈e.label) → rely s.kernel.world e.reply) :
    List.IsChain rely
      (now.2.kernel.world::(o.events.map fun e => (e.op,e.reply)).map Prod.snd) := by
  induction hr with
  | done value state => exact List.isChain_singleton _
  | @call op next state label rest tail ih =>
    obtain ⟨during,hsubset,_,hsteps,hview⟩ := @others_steps _ lib order label state
    have hown : ∀ action∈during,
        ∃ e∈(rest.prepend [answer (others lib order) op label state]).events,action∈e.label :=
      fun action ha => ⟨_,List.mem_cons_self,hsubset ha⟩
    refine List.isChain_cons_cons.mpr
      ⟨hrely _ List.mem_cons_self [] state.2 during rfl hsteps hown,?_⟩
    change List.IsChain _ ((others lib order () label state).1::_)
    rw [hview]
    refine ih fun e he before s between hbefore hbetween hlabels => ?_
    refine hrely e (List.mem_cons_of_mem _ he) (during++before) s between ?_ hbetween ?_
    · rw [steps_append,hsteps]
      exact hbefore
    · intro action ha
      rw [List.append_assoc] at ha
      rcases List.mem_append.mp ha with ha|ha
      · exact hown action ha
      · obtain ⟨later,hl,hin⟩ := hlabels action ha
        exact ⟨later,List.mem_cons_of_mem _ hl,hin⟩

/-- In flight the configuration stays written. -/
theorem flight_disturbs {seen : World → Prop} (hfirst : Launched first)
    (hnow : steps lib order first now.1=some now.2) (hr : Runs (others lib order) program now o)
    (hseen : ∀ e∈o.events,seen e.reply) :
    List.IsChain (Disturbs (configOf order first.pool) seen)
      (now.2.kernel.world::(o.events.map fun e => (e.op,e.reply)).map Prod.snd) := by
  refine flight_chain hr fun e he before s between hbefore hbetween _ =>
    ⟨fun hwritten => ?_,hseen e he⟩
  have hall : steps lib order first (now.1++before)=some s := by
    rw [steps_append,hnow]
    exact hbefore
  rw [(flight_moments hr e he).1]
  exact steps_written hfirst hall hbetween hwritten

end Chain

/-- Frames in flight are confined to discovered containers. Whatever steps
the threads take between the accesses of a packet program, at any moment of
any execution and under any failures, a frame at the ingress interface is
passed on, unchanged and uncounted or rewritten and counted once. Then it was
for the virtual address, its source is the own hardware address, the checksum
is that of the fixed twenty bytes of its header, and the destination address
and every byte of the destination hardware address are those of containers
that polls found running and healthy, or zero. If the slot does not change in
flight, they are those of its backend. A frame from a veth is passed on,
unchanged or, when its source is the address of such a container, with the
virtual address. -/
theorem flights_confined (lib : Parsers) (order : ByteOrder) (cpus : ℕ) (flags : Flags)
    (answers : List Answer) (first : Process cpus)
    (hlaunch : launch lib cpus flags answers=.ok first) (actions : List (Action cpus))
    (s : Process cpus) (hsteps : steps lib order first actions=some s) :
    (∀ prandom frame o,
      Runs (others lib order) (xdpLbIngressReads order prandom frame).run (actions,s) o →
      o.value=some ⟨.pass,frame,none⟩ ∨ ∃ rewritten idx,o.value=some ⟨.pass,rewritten,some idx⟩ ∧
        IcmpFrame order frame ∧
        (∀ vip,first.settings.vip.to4=some vip →
          vip=⟨0,0,0,0⟩ ∨ slice frame 30 4=vip.toList) ∧
        (∃ dest daddr,
          (∀ i : Fin 6,SomeMacByte (Seen lib first.settings.watcher o.state.1) i (dest.get i)) ∧
          SomeAddress (Seen lib first.settings.watcher o.state.1) daddr ∧
          Dnatted (macBytes first.settings.srcMAC) dest daddr frame rewritten) ∧
        ∀ info,(∀ e∈o.events,e.reply.backendMap.lookup idx=some info) →
          Dnatted (macBytes first.settings.srcMAC) info.mac (order.store32 info.ipv4) frame
            rewritten) ∧
    ∀ frame o,Runs (others lib order) (xdpVethSnatReads order frame).run (actions,s) o →
      o.value=some (.pass,frame) ∨ ∃ b v4 vip rewritten,o.value=some (.pass,rewritten) ∧
        Seen lib first.settings.watcher o.state.1 b ∧ b.ip.to4=some v4 ∧
        slice frame 26 4=v4.toList ∧ first.settings.vip.to4=some vip ∧
        Snatted vip frame rewritten := by
  have hfirst := launch_launched hlaunch
  have hvip : ∀ count,(configOf order first.pool count).vip=
      (first.settings.vip.to4.map order.load32).getD 0 := by
    rw [hfirst.pool]
    exact fun _ => rfl
  have hsrc : ∀ count,(configOf order first.pool count).srcMac=macBytes first.settings.srcMAC := by
    rw [hfirst.pool]
    exact fun _ => rfl
  constructor
  · intro prandom frame o hr
    have hconfined : ∀ world,(∃ e∈o.events,e.reply=world) →
        Confined order (configOf order first.pool)
          (Seen lib first.settings.watcher o.state.1) world := by
      rintro _ ⟨e,he,rfl⟩
      exact flight_confined hfirst hsteps hr e he
    obtain ⟨h,_,hvalue,hpost⟩ := (ingress_ensures hconfined hvip hsrc prandom frame
      s.kernel.world).of_path (runs_path hr)
        (flight_disturbs hfirst hsteps hr fun e he => ⟨e,he,rfl⟩)
    rcases hpost with rfl|⟨rewritten,idx,rfl,hdiverted⟩
    · exact .inl hvalue
    · refine .inr ⟨rewritten,idx,hvalue,hdiverted.icmp,hdiverted.accepted,
        hdiverted.confined hconfined,fun info hinfo => ?_⟩
      refine dnatted_of_dnat hdiverted.icmp.1 (hdiverted.parts.whole ?_)
      rintro _ ⟨e,he,rfl⟩
      exact hinfo e he
  · intro frame o hr
    obtain ⟨result,_,hvalue,hpost⟩ := (veth_ensures (fun _ hworld => hworld) hvip frame
      s.kernel.world).of_path (runs_path hr)
        (flight_disturbs hfirst hsteps hr (flight_confined hfirst hsteps hr))
    rcases hpost with rfl|⟨b,v4,vip,rewritten,rfl,hrest⟩
    · exact .inl hvalue
    · exact .inr ⟨b,v4,vip,rewritten,hvalue,hrest⟩

/-- The bridge without its container. -/
def emptiedHost : Host := {bridgeHost with containerList := fun _ => .ok []}

/-- The first reconciliation on the bridge. -/
def firstSynced : List (Action 1) := firstSync++[.returned]

/-- The container disappears before the last access to its slot. -/
def lastMoment : List (List (Action 1)) :=
  List.replicate 17 []++[[.discover emptiedHost storedOrder,.call noFault]]

/-- The frame for the container that this leaves. -/
def tornFrame : List UInt8 :=
  [2,66,172,17,0,2,2,66,1,2,3,4,8,0,69,0,0,28,0,1,0,0,64,1,186,47,192,168,0,9,0,0,0,0,8,0,247,253,
    0,1,0,1]

/-- It has the hardware address of the container, but no destination. -/
theorem flights_confined_torn :
    ∃ s o,steps hostParsers .little bridgeProcess firstSynced=some s ∧
      Runs (others hostParsers .little)
        (xdpLbIngressReads .little 7 (DnatRefinement.echo 8 0 0 ⟨192,168,0,9⟩ ⟨172,17,0,1⟩)).run
        (firstSynced,s) o ∧
      o.value=some ⟨.pass,tornFrame,some 0⟩ ∧ slice tornFrame 30 4=[0,0,0,0] ∧
      ∃ dest daddr,
        (∀ i : Fin 6,
          SomeMacByte (Seen hostParsers ⟨"lb.backend=true",80⟩ o.state.1) i (dest.get i)) ∧
        SomeAddress (Seen hostParsers ⟨"lb.backend=true",80⟩ o.state.1) daddr ∧
        Dnatted (macBytes [2,66,1,2,3,4]) dest daddr
          (DnatRefinement.echo 8 0 0 ⟨192,168,0,9⟩ ⟨172,17,0,1⟩) tornFrame := by
  have htorn : ((steps hostParsers .little bridgeProcess firstSynced).bind fun s =>
      ((xdpLbIngressReads .little 7
        (DnatRefinement.echo 8 0 0 ⟨192,168,0,9⟩ ⟨172,17,0,1⟩)).run.exec
          (others hostParsers .little) lastMoment (firstSynced,s)).value)=
      some ⟨.pass,tornFrame,some 0⟩ := by
    decide +kernel
  obtain ⟨s,hs,hvalue⟩ := Option.bind_eq_some_iff.mp htorn
  have hr := @exec_runs _ _ _ _ _ (others hostParsers .little) _
    (xdpLbIngressReads .little 7
      (DnatRefinement.echo 8 0 0 ⟨192,168,0,9⟩ ⟨172,17,0,1⟩)).run lastMoment (firstSynced,s)
  refine ⟨s,_,hs,hr,hvalue,by decide,?_⟩
  rcases (flights_confined hostParsers .little 1 hostFlags granted bridgeProcess launch_bridge
    firstSynced s hs).1 _ _ _ hr with hpassed|⟨rewritten,idx,hrewritten,_,_,hparts,_⟩
  · have hcounted := congrArg Handled.counted (Option.some.inj (hvalue.symm.trans hpassed))
    exact absurd hcounted (Option.some_ne_none 0)
  · have hframe := congrArg Handled.frame (Option.some.inj (hvalue.symm.trans hrewritten))
    rw [show tornFrame=rewritten from hframe]
    exact hparts

end Flights

end ContainerLb.FramesInFlight

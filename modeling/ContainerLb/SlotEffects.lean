import ContainerLb.ManagerSteps

/-!
# Effect of clearing and writing one backend

Both operations act on one slot of `backend_map` and on one key of
`backend_ips_map`. Whatever fails, each of the two entries is kept or gets
its final value and nothing else changes. When the operation is not stopped
both entries have their final value.
-/

namespace ContainerLb.SlotEffects

open CallProgram BoundedMaps HostBytes NetAddresses BpfManager ManagerSteps

/-- Possible effect of an operation on a slot and a key, stopped or not. -/
structure Touches (index : UInt32) (info : BackendInfo) (key entry : Option UInt32)
    (world world' : World) : Prop where
  /-- The configuration is kept. -/
  config : world'.configMap=world.configMap
  /-- The recorded links are kept. -/
  vethLinks : world'.vethLinks=world.vethLinks
  /-- A slot is kept, or it is the one slot with its final value. -/
  slot : ∀ other,world'.backendMap.lookup other=world.backendMap.lookup other ∨
    other=index ∧ world'.backendMap.lookup other=some info
  /-- A key is kept, or it is the one key with its final entry. -/
  reverse : ∀ k,world'.backendIpsMap.lookup k=world.backendIpsMap.lookup k ∨
    key=some k ∧ world'.backendIpsMap.lookup k=entry

/-- Nothing is touched when the world is kept. -/
theorem Touches.refl (index : UInt32) (info : BackendInfo) (key entry : Option UInt32)
    (world : World) : Touches index info key entry world world :=
  ⟨rfl,rfl,fun _ => Or.inl rfl,fun _ => Or.inl rfl⟩

/-- Slots other than the written one survive a possibly stopped operation. -/
theorem Touches.kept {index other : UInt32} {info : BackendInfo} {key entry : Option UInt32}
    {world world' : World} (ht : Touches index info key entry world world') (ho : other≠index) :
    world'.backendMap.lookup other=world.backendMap.lookup other := by
  rcases ht.slot other with h|h
  · exact h
  · exact absurd h.1 ho

/-- A single slot write, refused or not. -/
theorem putBackend_touches (index : UInt32) (info : BackendInfo) (key entry : Option UInt32)
    (fault : Fault) (world : World) :
    Touches index info key entry world (step (.putBackend index info) fault world).after := by
  rcases putBackend_cases index info fault world with ⟨_,he⟩|⟨_,written,hw,he⟩
  · rw [he]
    exact .refl ..
  · rw [he]
    refine ⟨rfl,rfl,fun other => ?_,fun _ => Or.inl rfl⟩
    have hl := ArrayMap.lookup_put hw other
    by_cases ho : other=index
    · exact Or.inr ⟨ho,by rw [hl,if_pos ho]⟩
    · exact Or.inl (by rw [hl,if_neg ho])

/-- An accepted slot write fills the slot, which exists. -/
theorem putBackend_filled {index : UInt32} {info : BackendInfo} {fault : Fault} {world : World}
    (h : (step (.putBackend index info) fault world).reply=none) :
    index.toNat< maxBackends ∧
      (step (.putBackend index info) fault world).after.backendMap.lookup index=some info := by
  rcases putBackend_cases index info fault world with ⟨hr,_⟩|⟨_,written,hw,he⟩
  · exact absurd h hr
  · rw [he]
    exact ⟨ArrayMap.lt_of_put hw,by rw [ArrayMap.lookup_put hw,if_pos rfl]⟩

/-- A write to an existing slot is accepted exactly when no failure is imposed
on it. -/
theorem putBackend_reply {index : UInt32} {info : BackendInfo} {fault : Fault} {world : World}
    (hindex : index.toNat< maxBackends) :
    (step (.putBackend index info) fault world).reply=none ↔ fault.first=none := by
  simp only [step,answer,handle,ArrayMap.put_of_lt _ info hindex]
  cases fault.first with
  | none => simp [commit,Except.map]
  | some error => simp [commit]

/-- A key write changes at most the key. -/
theorem putBackendIp_keys (key index : UInt32) (fault : Fault) (world : World) (k : UInt32) :
    (step (.putBackendIp key index) fault world).after.backendIpsMap.lookup k=
        world.backendIpsMap.lookup k ∨
      some key=some k ∧
        (step (.putBackendIp key index) fault world).after.backendIpsMap.lookup k=some index := by
  rcases putBackendIp_cases key index fault world with ⟨_,he⟩|⟨_,written,hw,he⟩
  · rw [he]
    exact Or.inl rfl
  · rw [he]
    have hl := HashMap.lookup_put hw k
    by_cases hk : k=key
    · exact Or.inr ⟨by rw [hk],by rw [hl,if_pos hk]⟩
    · exact Or.inl (by rw [hl,if_neg hk])

/-- An accepted key write stores the index. -/
theorem putBackendIp_filled {key index : UInt32} {fault : Fault} {world : World}
    (h : (step (.putBackendIp key index) fault world).reply=none) :
    (step (.putBackendIp key index) fault world).after.backendIpsMap.lookup key=some index := by
  rcases putBackendIp_cases key index fault world with ⟨hr,_⟩|⟨_,written,hw,he⟩
  · exact absurd h hr
  · rw [he]
    exact (HashMap.lookup_put hw key).trans (if_pos rfl)

/-- A key removal changes at most the key. -/
theorem deleteBackendIp_keys (key : UInt32) (fault : Fault) (world : World) (k : UInt32) :
    (step (.deleteBackendIp key) fault world).after.backendIpsMap.lookup k=
        world.backendIpsMap.lookup k ∨
      some key=some k ∧
        (step (.deleteBackendIp key) fault world).after.backendIpsMap.lookup k=none := by
  rcases deleteBackendIp_cases key fault world with ⟨_,he,_⟩|⟨written,hw,he⟩
  · rw [he]
    exact Or.inl rfl
  · rw [he]
    have hl := HashMap.lookup_delete hw k
    by_cases hk : k=key
    · exact Or.inr ⟨by rw [hk],by rw [hl,if_pos hk]⟩
    · exact Or.inl (by rw [hl,if_neg hk])

/-- A key removal that does not fail leaves the key absent. -/
theorem deleteBackendIp_gone {key : UInt32} {fault : Fault} {world : World}
    (hu : Unfailing (step (.deleteBackendIp key) fault world)) :
    (step (.deleteBackendIp key) fault world).after.backendIpsMap.lookup key=none := by
  rcases deleteBackendIp_cases key fault world with ⟨hr,he,hl⟩|⟨written,hw,he⟩
  · rw [he]
    rcases hu with h|⟨_,h⟩
    · exact absurd h hr
    · exact hl h
  · rw [he]
    exact (HashMap.lookup_delete hw key).trans (if_pos rfl)

/-- A slot write followed by a change of one key. -/
theorem Touches.then_key {index : UInt32} {info : BackendInfo} {key : UInt32}
    {entry : Option UInt32} {fault : Fault} {world world' : World}
    (hreverse : Changes .reverse (step (.putBackend index info) fault world).after world')
    (hkeys : ∀ k,world'.backendIpsMap.lookup k=
        (step (.putBackend index info) fault world).after.backendIpsMap.lookup k ∨
      some key=some k ∧ world'.backendIpsMap.lookup k=entry) :
    Touches index info (some key) entry world world' := by
  have hfirst := putBackend_touches index info (some key) entry fault world
  have hsame := (step_changes (.putBackend index info) fault world).reverse nofun
  refine ⟨(hreverse.config nofun).trans hfirst.config,
    (hreverse.links nofun).1.trans hfirst.vethLinks,fun other => ?_,fun k => ?_⟩
  · rw [hreverse.slots nofun]
    exact hfirst.slot other
  · rw [←hsame]
    exact hkeys k

/-- `UpdateBackend` touches its slot and its key only. -/
theorem updateBackend_touches {order : ByteOrder} {index : UInt32} {ip : IP} {port : UInt16}
    {mac : HardwareAddr} {world : World} {o : GoOutcome (Option GoError)}
    (hr : Runs handle (updateBackend order index ip port mac) world o) {v4 : Quad}
    (hv : ip.to4=some v4) :
    Touches index (backendInfo order v4 port mac) (some (order.load32 v4)) (some index) world
      o.state := by
  rcases runs_updateBackend hr with ⟨hn,_⟩|⟨found,fault,hf,hc⟩
  · rw [hv] at hn
    contradiction
  · obtain rfl : v4=found := Option.some.inj (hv.symm.trans hf)
    rcases hc with ⟨_,_,hs,_⟩|⟨_,middle,fault',hm,_,hs,_⟩
    · rw [hs]
      exact .refl ..
    · subst hm
      rw [hs]
      exact Touches.then_key (step_changes (.putBackendIp _ _) fault' _)
        (putBackendIp_keys _ _ fault' _)

/-- `UpdateBackend` refuses an address that is not IPv4 before any call. -/
theorem updateBackend_notIPv4 {order : ByteOrder} {index : UInt32} {ip : IP} {port : UInt16}
    {mac : HardwareAddr} {world : World} {o : GoOutcome (Option GoError)}
    (hr : Runs handle (updateBackend order index ip port mac) world o) (hv : ip.to4=none) :
    o.value≠none ∧ o.state=world ∧ o.events=[] := by
  rcases runs_updateBackend hr with ⟨_,h⟩|⟨found,fault,hf,_⟩
  · exact h
  · rw [hv] at hf
    contradiction

/-- A successful `UpdateBackend` has an IPv4 address and an existing slot,
and has written both entries. -/
theorem updateBackend_done {order : ByteOrder} {index : UInt32} {ip : IP} {port : UInt16}
    {mac : HardwareAddr} {world : World} {o : GoOutcome (Option GoError)}
    (hr : Runs handle (updateBackend order index ip port mac) world o) (hok : o.value=none) :
    ∃ v4,ip.to4=some v4 ∧ index.toNat< maxBackends ∧
      o.state.backendMap.lookup index=some (backendInfo order v4 port mac) ∧
      o.state.backendIpsMap.lookup (order.load32 v4)=some index := by
  rcases runs_updateBackend hr with ⟨_,hn,_⟩|⟨v4,fault,hf,hc⟩
  · exact absurd hok hn
  · refine ⟨v4,hf,?_⟩
    rcases hc with ⟨_,hn,_⟩|⟨hput,middle,fault',hm,hv,hs,_⟩
    · exact absurd hok hn
    · have hslot := putBackend_filled hput
      refine ⟨hslot.1,?_,?_⟩
      · rw [hs,(step_changes (.putBackendIp _ _) fault' middle).slots nofun,hm]
        exact hslot.2
      · rw [hs]
        exact putBackendIp_filled (hv.mp hok)

/-- `ClearBackend` touches its slot and the key of its address only. -/
theorem clearBackend_touches {order : ByteOrder} {index : UInt32} {ip : IP} {world : World}
    {o : GoOutcome (Option GoError)} (hr : Runs handle (clearBackend order index ip) world o) :
    Touches index emptyBackend (ipKey order ip) none world o.state := by
  obtain ⟨fault,⟨_,_,hs,_⟩|⟨_,_,middle,hm,hc⟩⟩ := runs_clearBackend hr
  · rw [hs]
    exact .refl ..
  · rcases hc with ⟨_,hs,_⟩|⟨v4,fault',hv,hs,_⟩
    · rw [hs,hm]
      exact putBackend_touches ..
    · have hkey : ipKey order ip=some (order.load32 v4) := by rw [ipKey,hv,Option.map_some]
      subst hm
      rw [hkey,hs]
      exact Touches.then_key (step_changes (.deleteBackendIp _) fault' _)
        (deleteBackendIp_keys _ fault' _)

/-- A successful `ClearBackend` has an existing slot, now all zero. -/
theorem clearBackend_done {order : ByteOrder} {index : UInt32} {ip : IP} {world : World}
    {o : GoOutcome (Option GoError)} (hr : Runs handle (clearBackend order index ip) world o)
    (hok : o.value=none) :
    index.toNat< maxBackends ∧ o.state.backendMap.lookup index=some emptyBackend := by
  obtain ⟨fault,⟨_,hn,_⟩|⟨hput,_,middle,hm,hc⟩⟩ := runs_clearBackend hr
  · exact absurd hok hn
  · have hslot := putBackend_filled hput
    refine ⟨hslot.1,?_⟩
    rcases hc with ⟨_,hs,_⟩|⟨v4,fault',_,hs,_⟩
    · rw [hs,hm]
      exact hslot.2
    · rw [hs,(step_changes (.deleteBackendIp _) fault' middle).slots nofun,hm]
      exact hslot.2

/-- `ClearBackend` without failures zeroes the slot and removes the key. -/
theorem clearBackend_unfailing {order : ByteOrder} {index : UInt32} {ip : IP} {world : World}
    {o : GoOutcome (Option GoError)} (hr : Runs handle (clearBackend order index ip) world o)
    (hu : ∀ e∈o.events,Unfailing e) :
    o.value=none ∧ ∀ k,ipKey order ip=some k → o.state.backendIpsMap.lookup k=none := by
  obtain ⟨fault,⟨hn,_,_,he⟩|⟨hput,hv,middle,hm,hc⟩⟩ := runs_clearBackend hr
  · rw [he] at hu
    rcases hu _ (List.mem_singleton.mpr rfl) with h|⟨h,_⟩
    · exact absurd h hn
    · contradiction
  · refine ⟨hv,fun k hk => ?_⟩
    rcases hc with ⟨hip,_⟩|⟨v4,fault',hip,hs,he⟩
    · rw [ipKey,hip] at hk
      contradiction
    · rw [ipKey,hip] at hk
      obtain rfl := Option.some.inj hk
      rw [he] at hu
      rw [hs]
      exact deleteBackendIp_gone (hu _ (List.mem_cons_of_mem _ (List.mem_singleton.mpr rfl)))

end ContainerLb.SlotEffects

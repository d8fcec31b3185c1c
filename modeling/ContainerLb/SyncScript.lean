import ContainerLb.Scripts
import ContainerLb.PoolRuns

/-!
# The script of a reconciliation

Which calls `Sync` makes and in which order follows from the old and the new
list, the attached veths and the iteration order: the slots one after the
other, then the slots behind the new list, then the veths that are gone, then
the configuration. A refused call ends the reconciliation, apart from the
clearing of a slot that is written next. The replies decide nothing else, so
this holds whatever answers the map and link calls that the methods of the
manager make.
-/

namespace ContainerLb.SyncScript

open CallProgram Scripts HostBytes NetAddresses BpfManager PoolSync SyncPhases PoolRuns

variable {order : ByteOrder} {p p' : Pool} {trace : List (Call×Option GoError)}
variable {err : Option GoError}

/-- Removal of an address, for IPv4 addresses. -/
def forgetting (order : ByteOrder) (ip : IP) : List Call :=
  match ip.to4 with
  | none => []
  | some v4 => [.deleteBackendIp (order.load32 v4)]

/-- Both entries of a backend. -/
def entries (order : ByteOrder) (index : UInt32) (b : Backend) : List (Block Call) :=
  match b.ip.to4 with
  | none => [.abort]
  | some v4 => [.must (.putBackend index (backendInfo order v4 b.port b.mac)),
      .must (.putBackendIp (order.load32 v4) index)]

/-- One position of the new list. -/
def slotScript (order : ByteOrder) (old : List Backend) (attached : Finset String) (i : ℕ)
    (b : Backend) : List (Block Call) :=
  (match reusedBy old i b with
    | none => []
    | some previous =>
      [.attempt (.putBackend (UInt32.ofNat i) emptyBackend) (forgetting order previous.ip)])++
  entries order (UInt32.ofNat i) b++
  if b.vethName∈attached then [] else [.must (.attachVethXDP b.vethName b.vethIdx)]

/-- The positions of the new list from one on. -/
def writeScript (order : ByteOrder) (old : List Backend) (attached : Finset String) (i : ℕ) :
    List Backend → List (Block Call)
  | [] => []
  | b::rest => slotScript order old attached i b++
      writeScript order old (insert b.vethName attached) (i+1) rest

/-- The positions behind the new list. -/
def clearScript (order : ByteOrder) (idx : ℕ) : List Backend → List (Block Call)
  | [] => []
  | old::rest => .must (.putBackend (UInt32.ofNat idx) emptyBackend)::
      (forgetting order old.ip).map (.attempt · [])++clearScript order (idx+1) rest

/-- Veths of the old list that the new one does not have. -/
def leftover (old new : List Backend) : VethMap :=
  new.foldl (fun map b => map.erase b.vethName) (byVethName old)

/-- The calls of `Sync`. -/
def syncScript (order : ByteOrder) (p : Pool) (new : List Backend) (iter : IterOrder) :
    List (Block Call) :=
  writeScript order p.backends p.byVeth 0 new++
    clearScript order new.length (p.backends.drop new.length)++
    (iter.1 (leftover p.backends new).entries).map (fun e => .must (.detachVethXDP e.1))++
    [.must (.putConfig 0 (poolConfig order p new))]

/-- A reply other than nil. -/
def Refused (reply : Option GoError) : Prop := reply≠none

instance : DecidablePred Refused := fun reply => inferInstanceAs (Decidable (reply≠none))

/-- A single call whose refusal ends the program. -/
theorem follows_must (op : Call) (reply : Option GoError) :
    Follows Refused [.must op] [(op,reply)] reply.isNone := by
  cases reply with
  | some refusal => exact .stopped _ (Option.some_ne_none refusal)
  | none => exact .passed (not_not.mpr rfl) .done

/-- `ClearBackend` is refused at once, or forgets the address as well. -/
theorem path_clearBackend {index : UInt32} {ip : IP}
    (h : Path (clearBackend order index ip) trace err) :
    (∃ refusal,trace=[(.putBackend index emptyBackend,some refusal)] ∧ err≠none) ∨
    ∃ within,trace=(.putBackend index emptyBackend,none)::within ∧
      within.map Prod.fst=forgetting order ip ∧ err=none := by
  obtain ⟨_,reply,rest,hput,hrest,rfl⟩ := path_bind.mp h
  obtain rfl := path_request.mp hput
  cases reply with
  | some refusal =>
    obtain ⟨rfl,rfl⟩ := path_pure.mp hrest
    exact .inl ⟨refusal,rfl,nofun⟩
  | none =>
    refine .inr ⟨rest,rfl,?_⟩
    unfold forgetting
    cases hv : ip.to4 with
    | none =>
      simp only [hv] at hrest
      obtain ⟨rfl,rfl⟩ := path_pure.mp hrest
      exact ⟨rfl,rfl⟩
    | some v4 =>
      simp only [hv] at hrest
      obtain ⟨_,reply,_,hdelete,hpure,rfl⟩ := path_bind.mp hrest
      obtain rfl := path_request.mp hdelete
      obtain ⟨rfl,rfl⟩ := path_pure.mp hpure
      exact ⟨rfl,rfl⟩

/-- Calls whose refusals are ignored, one by one. -/
theorem follows_ignored (within : List (Call×Option GoError)) :
    Follows Refused ((within.map Prod.fst).map (.attempt · [])) within true := by
  induction within with
  | nil => exact .done
  | cons call rest ih =>
    by_cases hreply : Refused call.2
    · exact .skipped [] hreply ih
    · exact @Follows.attempted _ _ _ _ _ _ [] _ _ _ hreply rfl ih

/-- The clearing inside the first loop never ends the reconciliation. -/
theorem clearReused_follows {old : List Backend} {i : ℕ} {b : Backend}
    (h : Path (clearReused order old i b) trace ()) :
    Follows Refused (match reusedBy old i b with
      | none => []
      | some previous => [.attempt (.putBackend (UInt32.ofNat i) emptyBackend)
          (forgetting order previous.ip)]) trace true := by
  unfold clearReused at h
  cases hb : reusedBy old i b with
  | none =>
    rw [hb] at h
    obtain ⟨rfl,_⟩ := path_pure.mp h
    exact .done
  | some previous =>
    rw [hb] at h
    obtain ⟨_,reply,_,hclear,hpure,rfl⟩ := path_bind.mp h
    obtain ⟨rfl,_⟩ := path_pure.mp hpure
    rw [List.append_nil]
    rcases path_clearBackend hclear with ⟨refusal,rfl,_⟩|⟨within,rfl,hwithin,_⟩
    · exact .skipped _ (Option.some_ne_none refusal) .done
    · rw [←List.append_nil within]
      exact .attempted (not_not.mpr rfl) hwithin .done

/-- `UpdateBackend` writes both entries. -/
theorem updateBackend_follows {index : UInt32} {b : Backend}
    (h : Path (updateBackend order index b.ip b.port b.mac) trace err) :
    Follows Refused (entries order index b) trace err.isNone := by
  unfold updateBackend at h
  unfold entries
  cases hv : b.ip.to4 with
  | none =>
    simp only [hv] at h
    obtain ⟨rfl,rfl⟩ := path_pure.mp h
    exact .abort _
  | some v4 =>
    simp only [hv] at h
    obtain ⟨_,reply,rest,hput,hrest,rfl⟩ := path_bind.mp h
    obtain rfl := path_request.mp hput
    cases reply with
    | some refusal =>
      obtain ⟨rfl,rfl⟩ := path_pure.mp hrest
      exact .stopped _ (Option.some_ne_none refusal)
    | none =>
      obtain ⟨_,reply,_,hput,hpure,rfl⟩ := path_bind.mp hrest
      obtain rfl := path_request.mp hput
      obtain ⟨rfl,rfl⟩ := path_pure.mp hpure
      rw [Option.isNone_map]
      exact .passed (not_not.mpr rfl) (follows_must _ reply)

/-- The body of the first loop. -/
theorem writeBackend_follows {i : ℕ} {b : Backend}
    (h : Path (writeBackend order p i b) trace (p',err)) :
    Follows Refused (slotScript order p.backends p.byVeth i b) trace err.isNone ∧
      (err=none → p'={p with byVeth := insert b.vethName p.byVeth}) := by
  obtain ⟨_,_,_,hclear,hrest,rfl⟩ := path_bind.mp h
  obtain ⟨_,reply,_,hupdate,hattach,rfl⟩ := path_bind.mp hrest
  have hclear := clearReused_follows hclear
  have hupdate := updateBackend_follows hupdate
  rw [slotScript,←List.append_assoc]
  cases reply with
  | some refusal =>
    obtain ⟨hall,hvalue⟩ := (hclear.append hupdate).returned hattach _
    cases hvalue
    exact ⟨hall,nofun⟩
  | none =>
    dsimp only at hattach
    split at hattach
    · rename_i hm
      obtain ⟨rfl,hvalue⟩ := path_pure.mp hattach
      cases hvalue
      rw [if_pos hm,Finset.insert_eq_of_mem hm]
      exact ⟨(hclear.append hupdate).append .done,fun _ => rfl⟩
    · rename_i hm
      rw [if_neg hm]
      obtain ⟨_,reply,_,hrequest,hpure,rfl⟩ := path_bind.mp hattach
      obtain rfl := path_request.mp hrequest
      have hall := (hclear.append hupdate).append
        (follows_must (.attachVethXDP b.vethName b.vethIdx) reply)
      cases reply with
      | some refusal =>
        obtain ⟨rfl,hvalue⟩ := path_pure.mp hpure
        cases hvalue
        exact ⟨hall,nofun⟩
      | none =>
        obtain ⟨rfl,hvalue⟩ := path_pure.mp hpure
        cases hvalue
        exact ⟨hall,fun _ => rfl⟩

/-- The first loop. -/
theorem writeBackends_follows {rest : List Backend} {i : ℕ} {map map' : VethMap}
    (h : Path (writeBackends order p i map rest) trace (p',map',err)) :
    Follows Refused (writeScript order p.backends p.byVeth i rest) trace err.isNone ∧
      (err=none → map'=rest.foldl (fun map b => map.erase b.vethName) map ∧
        ∃ attached,p'={p with byVeth := attached}) := by
  induction rest generalizing p i map trace with
  | nil =>
    obtain ⟨rfl,hvalue⟩ := path_pure.mp h
    cases hvalue
    exact ⟨.done,fun _ => ⟨rfl,_,rfl⟩⟩
  | cons b rest ih =>
    obtain ⟨_,⟨body,stop⟩,_,hbody,hrest,rfl⟩ := path_bind.mp h
    obtain ⟨hslot,hpool⟩ := writeBackend_follows hbody
    cases stop with
    | some refusal =>
      obtain ⟨hall,hvalue⟩ := hslot.returned hrest _
      cases hvalue
      exact ⟨hall,nofun⟩
    | none =>
      obtain rfl := hpool rfl
      obtain ⟨htail,hdone⟩ := ih hrest
      refine ⟨hslot.append htail,fun hnone => ?_⟩
      obtain ⟨hmap,attached,hattached⟩ := hdone hnone
      exact ⟨hmap,attached,hattached⟩

/-- The second loop. -/
theorem clearStale_follows {rest : List Backend} {idx : ℕ}
    (h : Path (clearStale order idx rest) trace err) :
    Follows Refused (clearScript order idx rest) trace err.isNone := by
  induction rest generalizing idx trace with
  | nil =>
    obtain ⟨rfl,rfl⟩ := path_pure.mp h
    exact .done
  | cons old rest ih =>
    obtain ⟨_,reply,tail,hclear,hrest,rfl⟩ := path_bind.mp h
    rcases path_clearBackend hclear with ⟨refusal,rfl,hreply⟩|⟨within,rfl,hwithin,rfl⟩
    · obtain ⟨cause,rfl⟩ := Option.ne_none_iff_exists'.mp hreply
      obtain ⟨rfl,rfl⟩ := path_pure.mp hrest
      exact .stopped _ (Option.some_ne_none refusal)
    · rw [clearScript,←hwithin]
      exact .passed (not_not.mpr rfl) ((follows_ignored within).append (ih hrest))

/-- The third loop. -/
theorem detachStale_follows {stale : VethEntries}
    (h : Path (detachStale p stale) trace (p',err)) :
    Follows Refused (stale.map fun e => .must (.detachVethXDP e.1)) trace err.isNone ∧
      (err=none → ∃ attached,p'={p with byVeth := attached}) := by
  induction stale generalizing p trace with
  | nil =>
    obtain ⟨rfl,hvalue⟩ := path_pure.mp h
    cases hvalue
    exact ⟨.done,fun _ => ⟨_,rfl⟩⟩
  | cons entry rest ih =>
    obtain ⟨_,reply,_,hrequest,hrest,rfl⟩ := path_bind.mp h
    obtain rfl := path_request.mp hrequest
    cases reply with
    | some refusal =>
      obtain ⟨rfl,hvalue⟩ := path_pure.mp hrest
      cases hvalue
      exact ⟨.stopped _ (Option.some_ne_none refusal),nofun⟩
    | none =>
      obtain ⟨htail,hpool⟩ := ih hrest
      refine ⟨.passed (not_not.mpr rfl) htail,fun hnone => ?_⟩
      obtain ⟨attached,hattached⟩ := hpool hnone
      exact ⟨attached,hattached⟩

/-- `Sync` itself. -/
theorem sync_follows {new : List Backend} {iter : IterOrder}
    (h : Path (sync order p new iter) trace (p',err)) :
    Follows Refused (syncScript order p new iter) trace err.isNone := by
  obtain ⟨_,⟨written,map,stop⟩,_,hwrite,hrest,rfl⟩ := path_bind.mp h
  obtain ⟨hwritten,hdone⟩ := writeBackends_follows hwrite
  rw [syncScript,List.append_assoc,List.append_assoc]
  cases stop with
  | some refusal =>
    obtain ⟨hall,hvalue⟩ := hwritten.returned hrest _
    cases hvalue
    exact hall
  | none =>
    obtain ⟨rfl,attached,rfl⟩ := hdone rfl
    obtain ⟨_,stop,_,hclear,hrest,rfl⟩ := path_bind.mp hrest
    have hcleared := clearStale_follows hclear
    refine hwritten.append ?_
    cases stop with
    | some refusal =>
      obtain ⟨hall,hvalue⟩ := hcleared.returned hrest _
      cases hvalue
      exact hall
    | none =>
      obtain ⟨_,⟨detached,stop⟩,_,hdetach,hrest,rfl⟩ := path_bind.mp hrest
      obtain ⟨hdetached,hdone⟩ := detachStale_follows hdetach
      refine hcleared.append ?_
      cases stop with
      | some refusal =>
        obtain ⟨hall,hvalue⟩ := hdetached.returned hrest _
        cases hvalue
        exact hall
      | none =>
        obtain ⟨attached,rfl⟩ := hdone rfl
        refine hdetached.append ?_
        obtain ⟨_,stop,_,hconfig,hrest,rfl⟩ := path_bind.mp hrest
        obtain ⟨_,reply,_,hrequest,hpure,rfl⟩ := path_bind.mp hconfig
        obtain rfl := path_request.mp hrequest
        obtain ⟨rfl,rfl⟩ := path_pure.mp hpure
        have hconfigured := follows_must (.putConfig 0 (poolConfig order p new)) reply
        cases reply with
        | some refusal =>
          obtain ⟨rfl,hvalue⟩ := path_pure.mp hrest
          cases hvalue
          exact hconfigured
        | none =>
          obtain ⟨rfl,hvalue⟩ := path_pure.mp hrest
          cases hvalue
          exact hconfigured

/-- With IPv4 addresses the script of a position goes on. -/
theorem abort_notMem_slotScript {old : List Backend} {attached : Finset String} {i : ℕ}
    {b : Backend} (h : ∃ v4,b.ip.to4=some v4) : .abort∉slotScript order old attached i b := by
  obtain ⟨v4,hv⟩ := h
  simp only [slotScript,entries,hv,List.mem_append]
  rintro ((h|h)|h)
  · split at h <;> simp at h
  · simp at h
  · split at h <;> simp at h

/-- With IPv4 addresses the script of the new list goes on. -/
theorem abort_notMem_writeScript {old new : List Backend} {attached : Finset String} {i : ℕ}
    (h : ∀ b∈new,∃ v4,b.ip.to4=some v4) : .abort∉writeScript order old attached i new := by
  induction new generalizing attached i with
  | nil => exact List.not_mem_nil
  | cons b rest ih =>
    rw [writeScript,List.mem_append,not_or]
    exact ⟨abort_notMem_slotScript (h b List.mem_cons_self),
      ih fun c hc => h c (List.mem_cons_of_mem _ hc)⟩

/-- Clearing goes on to its end. -/
theorem abort_notMem_clearScript (idx : ℕ) (old : List Backend) :
    .abort∉clearScript order idx old := by
  induction old generalizing idx with
  | nil => exact List.not_mem_nil
  | cons b rest ih => simp [clearScript,ih]

/-- With IPv4 addresses nothing but a refusal ends the reconciliation. -/
theorem abort_notMem_syncScript {new : List Backend} {iter : IterOrder}
    (h : ∀ b∈new,∃ v4,b.ip.to4=some v4) : .abort∉syncScript order p new iter := by
  simp [syncScript,abort_notMem_writeScript h,abort_notMem_clearScript]

/-- Nothing is refused. -/
def grantAll : Handler Call Unit Unit (Option GoError) := fun _ _ _ => (none,())

/-- A pool that has synced two backends. -/
def pairPool : Pool :=
  ⟨[bridged 2 "veth1",bridged 3 "veth2"],insert "veth2" (insert "veth1" ∅),[10,0,0,100],8080,
    [2,66,10,0,0,1]⟩

end ContainerLb.SyncScript

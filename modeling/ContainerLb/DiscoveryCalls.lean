import ContainerLb.DockerDiscovery
import ContainerLb.Releasing
import ContainerLb.Scripts

/-!
# A poll call by call

`DiscoverBackends` asks the container engine and the kernel one question
after the other, and containers come and go in between. Every backend that it
reports is one that a single host could have shown. If no question gets two
answers, the whole list is that of a single host, so the poll may be taken
for one step. The namespace and the netlink handle of every container are
given back on every way out of `FindHostVeth`.
-/

namespace ContainerLb.DiscoveryCalls

open CallProgram Scripts Releasing NetAddresses DockerDiscovery

/-- Questions of a poll, and what it gives back. -/
inductive HostCall where
  /-- `ContainerList`. -/
  | containerList (label : Option String)
  /-- `ContainerInspect`. -/
  | containerInspect (id : String)
  /-- `netns.GetFromPid`. -/
  | getFromPid (pid : ℤ)
  /-- `netlink.NewHandleAt`. -/
  | newHandleAt (pid : ℤ)
  /-- `LinkList` of the handle. -/
  | linkList (pid : ℤ)
  /-- `netlink.LinkByIndex`. -/
  | linkByIndex (index : ℤ)
  /-- `Delete` of the handle. -/
  | deleteHandle (pid : ℤ)
  /-- `Close` of the namespace. -/
  | closeNs (pid : ℤ)
  deriving DecidableEq

/-- A reply, of which every question reads its own part. -/
structure HostReply where
  /-- Listed containers, or why there are none. -/
  containers : Except String (List ContainerSummary)
  /-- The inspected container. -/
  inspected : Option ContainerJSON
  /-- Whether a namespace or a handle is opened. -/
  granted : Bool
  /-- The links of a namespace. -/
  links : Option (List Link)
  /-- The name of a host interface. -/
  link : Option String

instance : Inhabited HostReply := ⟨⟨.ok [],none,false,none,none⟩⟩

/-- What a poll holds open. -/
inductive Descriptor where
  /-- A network namespace. -/
  | netns (pid : ℤ)
  /-- A netlink handle inside. -/
  | handle (pid : ℤ)
  deriving DecidableEq

/-- Effect of a question on the open descriptors. -/
def effect (reply : HostReply) (opened : List Descriptor) : HostCall → List Descriptor
  | .getFromPid pid => if reply.granted then .netns pid::opened else opened
  | .newHandleAt pid => if reply.granted then .handle pid::opened else opened
  | .deleteHandle pid => opened.erase (.handle pid)
  | .closeNs pid => opened.erase (.netns pid)
  | _ => opened

/-- The world outside replies as it likes. -/
def hostHandle : Handler HostCall HostReply (List Descriptor) HostReply := fun op reply opened =>
  (reply,effect reply opened op)

/-- Programs that ask such questions. -/
abbrev Ask := Prog HostCall HostReply

/-- The rest of `FindHostVeth`, behind its deferred calls. -/
def hostVethCalls (pid : ℤ) : Ask (Except VethError (String×ℤ)) := do
  match (← Prog.request (.linkList pid)).links with
  | none => return .error (.linkList pid)
  | some links =>
    let hostVethIdx := ((links.find? fun l => l.type="veth").map Link.parentIndex).getD 0
    if hostVethIdx=0 then return .error (.noVeth pid)
    match (← Prog.request (.linkByIndex hostVethIdx)).link with
    | none => return .error (.linkByIndex hostVethIdx)
    | some name => return .ok (name,hostVethIdx)

/-- `FindHostVeth`: the handle is deleted and the namespace closed when it
returns. -/
def findHostVethCalls (pid : ℤ) : Ask (Except VethError (String×ℤ)) :=
  acquiring (.getFromPid pid) (.closeNs pid) HostReply.granted (.error (.netns pid))
    (acquiring (.newHandleAt pid) (.deleteHandle pid) HostReply.granted (.error .handle)
      (hostVethCalls pid))

/-- Body of the loop of `DiscoverBackends`. -/
def inspectCalls (lib : Parsers) (w : DockerWatcher) (c : ContainerSummary) :
    Ask (Option Backend) := do
  match (← Prog.request (.containerInspect c.id)).inspected with
  | none => return none
  | some inspect =>
    if inspect.running=false then return none
    if acceptsHealth inspect.health=false then return none
    match networkAddress lib inspect.networks with
    | none => return none
    | some address =>
      match ← findHostVethCalls inspect.pid with
      | .error _ => return none
      | .ok veth => return some (backendOf lib w c inspect address veth)

/-- Loop of `DiscoverBackends` with the list so far. -/
def inspectLoop (lib : Parsers) (w : DockerWatcher) (backends : List Backend) :
    List ContainerSummary → Ask (List Backend)
  | [] => return backends
  | c::rest => do
    let found ← inspectCalls lib w c
    inspectLoop lib w (backends++found.toList) rest

/-- `DiscoverBackends`. -/
def discoverBackendsCalls (lib : Parsers) (w : DockerWatcher) :
    Ask (Except DiscoverError (List Backend)) := do
  let label := if w.labelFilter="" then none else some w.labelFilter
  match (← Prog.request (.containerList label)).containers with
  | .error cause => return .error (.containerList cause)
  | .ok containers => return .ok (← inspectLoop lib w [] containers)

variable {lib : Parsers} {w : DockerWatcher} {reply : HostCall → HostReply}

section OneHost

/-- The host that answers every question by a function. -/
def hostOf (reply : HostCall → HostReply) : Host where
  containerList label := (reply (.containerList label)).containers
  containerInspect id := (reply (.containerInspect id)).inspected
  containerLinks pid :=
    if (reply (.getFromPid pid)).granted then
      if (reply (.newHandleAt pid)).granted then
        match (reply (.linkList pid)).links with
        | none => .error (.linkList pid)
        | some links => .ok links
      else .error .handle
    else .error (.netns pid)
  linkByIndex index := (reply (.linkByIndex index)).link

theorem evalWith_acquiring {α : Type} {opens closes : HostCall} {refused : α} {body : Ask α} :
    evalWith reply (acquiring opens closes HostReply.granted refused body)=
      if (reply opens).granted then evalWith reply body else refused := by
  by_cases hgranted : (reply opens).granted=true <;> simp [acquiring,hgranted]

/-- Then `FindHostVeth` finds what this host shows, errors included. -/
theorem evalWith_findHostVethCalls (reply : HostCall → HostReply) (pid : ℤ) :
    evalWith reply (findHostVethCalls pid)=findHostVeth (hostOf reply) pid := by
  simp only [findHostVethCalls,evalWith_acquiring,findHostVeth,hostOf]
  by_cases hns : (reply (.getFromPid pid)).granted=true
  · by_cases hhandle : (reply (.newHandleAt pid)).granted=true
    · simp only [hns,hhandle,if_true,hostVethCalls,evalWith_bind,evalWith_request]
      cases (reply (.linkList pid)).links with
      | none => rfl
      | some links =>
        conv_rhs => simp only [bind,Except.bind]
        dsimp only
        generalize ((links.find? fun l => l.type="veth").map Link.parentIndex).getD 0=index
        by_cases hzero : index=0
        · rw [if_pos hzero,if_pos hzero]
          rfl
        · rw [if_neg hzero,if_neg hzero,evalWith_bind,evalWith_request]
          cases (reply (.linkByIndex index)).link <;> rfl
    · simp only [hns,hhandle,if_true]
      rfl
  · simp only [hns]
    rfl

theorem evalWith_inspectCalls (reply : HostCall → HostReply) (c : ContainerSummary) :
    evalWith reply (inspectCalls lib w c)=inspectBackend lib (hostOf reply) w c := by
  simp only [inspectCalls,inspectBackend,evalWith_bind,evalWith_request]
  change _=match (reply (.containerInspect c.id)).inspected with | none => none | some _ => _
  cases (reply (.containerInspect c.id)).inspected with
  | none => rfl
  | some inspect =>
    by_cases hrunning : inspect.running=false
    · simp [hrunning]
    · by_cases hhealth : acceptsHealth inspect.health=false
      · simp [hrunning,hhealth]
      · simp only [if_neg hrunning,if_neg hhealth]
        cases networkAddress lib inspect.networks with
        | none => rfl
        | some address =>
          simp only [evalWith_bind,evalWith_findHostVethCalls]
          cases findHostVeth (hostOf reply) inspect.pid <;> rfl

theorem evalWith_inspectLoop (reply : HostCall → HostReply) (backends : List Backend)
    (containers : List ContainerSummary) :
    evalWith reply (inspectLoop lib w backends containers)=
      backends++containers.filterMap (inspectBackend lib (hostOf reply) w) := by
  induction containers generalizing backends with
  | nil => simp [inspectLoop]
  | cons c rest ih =>
    simp only [inspectLoop,evalWith_bind,ih,evalWith_inspectCalls,List.append_assoc]
    cases hb : inspectBackend lib (hostOf reply) w c with
    | none => simp [hb]
    | some b => simp [hb]

theorem evalWith_discoverBackendsCalls (reply : HostCall → HostReply) :
    evalWith reply (discoverBackendsCalls lib w)=discoverBackends lib (hostOf reply) w := by
  simp only [discoverBackendsCalls,discoverBackends,evalWith_bind,evalWith_request]
  change _=match (reply (.containerList _)).containers with | .error _ => _ | .ok _ => _
  cases (reply (.containerList (if w.labelFilter="" then none else some w.labelFilter))).containers
    with
  | error cause => rfl
  | ok containers => simp [evalWith_inspectLoop]

end OneHost

section Released

theorem hostVethCalls_restores (pid : ℤ) : Restores hostHandle 0 (hostVethCalls pid) := by
  refine (restores_request fun _ _ => rfl).bind fun reply => ?_
  split
  · exact restores_pure _
  · dsimp only
    split
    · exact restores_pure _
    · refine (restores_request fun _ _ => rfl).bind fun reply => ?_
      split <;> exact restores_pure _

/-- Handle and namespace are given back. -/
theorem findHostVethCalls_restores (pid : ℤ) : Restores hostHandle 2 (findHostVethCalls pid) :=
  ((hostVethCalls_restores pid).acquiring (.handle pid) (fun _ _ => rfl)
    fun _ _ => by simp [hostHandle,effect]).acquiring (.netns pid) (fun _ _ => rfl)
    fun _ _ => by simp [hostHandle,effect]

theorem inspectCalls_restores (c : ContainerSummary) :
    Restores hostHandle 2 (inspectCalls lib w c) := by
  refine (restores_request fun _ _ => rfl).bind fun reply => ?_
  split
  · exact restores_pure _
  · split
    · exact restores_pure _
    · split
      · exact restores_pure _
      · split
        · exact restores_pure _
        · refine (findHostVethCalls_restores _).bind fun found => ?_
          split <;> exact restores_pure _

theorem inspectLoop_restores (backends : List Backend) (containers : List ContainerSummary) :
    Restores hostHandle 2 (inspectLoop lib w backends containers) := by
  induction containers generalizing backends with
  | nil => exact restores_pure _
  | cons c rest ih => exact (inspectCalls_restores c).bind fun found => ih _

theorem discoverBackendsCalls_restores (lib : Parsers) (w : DockerWatcher) :
    Restores hostHandle 2 (discoverBackendsCalls lib w) := by
  refine (restores_request fun _ _ => rfl).bind fun reply => ?_
  split
  · exact restores_pure _
  · exact (inspectLoop_restores [] _).bind fun backends => restores_pure _

end Released

section OneContainer

/-- The order of the questions about one container. -/
def rank : HostCall → ℕ
  | .containerList _ => 0
  | .containerInspect _ => 1
  | .getFromPid _ => 2
  | .newHandleAt _ => 3
  | .linkList _ => 4
  | .linkByIndex _ => 5
  | .deleteHandle _ => 6
  | .closeNs _ => 7

theorem hostVethCalls_ordered (pid : ℤ) : Ordered rank 6 4 (hostVethCalls pid) := by
  refine Ordered.bind (ordered_request (HostCall.linkList pid)) fun reply => ?_
  split
  · exact ordered_pure _ (by simp [rank])
  · dsimp only
    split
    · exact ordered_pure _ (by simp [rank])
    · refine Ordered.bind (ordered_request (HostCall.linkByIndex _)) fun reply => ?_
      split <;> exact ordered_pure _ (Nat.le_refl 6)

theorem acquiring_ordered {α : Type} {opens closes : HostCall} {refused : α} {body : Ask α}
    (hbody : Ordered rank (rank closes) (rank opens+1) body) (hlast : rank opens< rank closes) :
    Ordered rank (rank closes+1) (rank opens)
      (acquiring opens closes HostReply.granted refused body) := by
  refine (ordered_request opens).bind fun reply => ?_
  split
  · exact hbody.bind fun value => (ordered_request closes).bind fun _ =>
      ordered_pure value (Nat.le_refl _)
  · exact ordered_pure _ (Nat.succ_le_succ hlast.le)

theorem findHostVethCalls_ordered (pid : ℤ) : Ordered rank 8 2 (findHostVethCalls pid) := by
  refine @acquiring_ordered _ (.getFromPid pid) (.closeNs pid) _ _ ?_ (by simp [rank])
  exact @acquiring_ordered _ (.newHandleAt pid) (.deleteHandle pid) _ _ (hostVethCalls_ordered pid)
    (by simp [rank])

theorem inspectCalls_ordered (c : ContainerSummary) :
    Ordered rank 8 1 (inspectCalls lib w c) := by
  refine Ordered.bind (ordered_request (HostCall.containerInspect c.id)) fun reply => ?_
  split
  · exact ordered_pure _ (by simp [rank])
  · split
    · exact ordered_pure _ (by simp [rank])
    · split
      · exact ordered_pure _ (by simp [rank])
      · split
        · exact ordered_pure _ (by simp [rank])
        · refine Ordered.bind (findHostVethCalls_ordered _) fun found => ?_
          split <;> exact ordered_pure _ (Nat.le_refl 8)

/-- No question is asked twice about one container, so one host could have
given the answers. -/
theorem inspectCalls_recorded {c : ContainerSummary} {trace : List (HostCall×HostReply)}
    {found : Option Backend} (h : Path (inspectCalls lib w c) trace found) :
    found=inspectBackend lib (hostOf (recorded trace)) w c := by
  have hnodup := ((inspectCalls_ordered c).nodup h).2
  rw [evalWith_of_path h fun call hc => recorded_of_nodup hnodup hc,evalWith_inspectCalls]

/-- Every container is answered for in a part of its own. -/
theorem inspectLoop_recorded {containers : List ContainerSummary} {backends result : List Backend}
    {trace : List (HostCall×HostReply)}
    (h : Path (inspectLoop lib w backends containers) trace result) :
    ∃ parts,trace=parts.flatten ∧ parts.length=containers.length ∧
      result=backends++(containers.zip parts).filterMap fun answered =>
        inspectBackend lib (hostOf (recorded answered.2)) w answered.1 := by
  induction containers generalizing backends trace with
  | nil =>
    obtain ⟨rfl,rfl⟩ := path_pure.mp h
    exact ⟨[],rfl,rfl,by simp⟩
  | cons c rest ih =>
    obtain ⟨part,found,later,hpart,hlater,rfl⟩ := path_bind.mp h
    obtain ⟨parts,rfl,hlength,rfl⟩ := ih hlater
    refine ⟨part::parts,rfl,by rw [List.length_cons,hlength,List.length_cons],?_⟩
    rw [inspectCalls_recorded hpart,List.append_assoc,List.zip_cons_cons,List.filterMap_cons]
    cases inspectBackend lib (hostOf (recorded part)) w c <;> rfl

end OneContainer

/-- Answers for the container on the bridge, whose interface is gone when its
name is asked for. -/
def vanishing : List HostReply := [
  {(default : HostReply) with containers := bridgeHost.containerList none},
  {(default : HostReply) with inspected := bridgeHost.containerInspect "4f1d2a90c3b7e6"},
  {(default : HostReply) with granted := true},
  {(default : HostReply) with granted := true},
  {(default : HostReply) with links := some [⟨"device",0⟩,⟨"veth",7⟩]}]

end ContainerLb.DiscoveryCalls

import ContainerLb.DaemonRuns
import Mathlib.Order.WellFounded

/-!
# The program can always be stopped

`Close` waits for nothing, and while it holds the lock of the manager it only
delays a `Sync` that wants to attach or detach. So no threads wait for each
other. Once no further poll and no further table is begun, every step brings
some thread closer to its end, in whatever order they come and whatever each
single call is answered, and until all threads have ended one of them can go
on.
-/

namespace ContainerLb.Stopping

open CallProgram HostBytes NetAddresses BpfManager PoolSync DockerDiscovery Statistics
open Lifecycle InterruptedRuns Daemon DaemonRuns

variable {cpus : ℕ} {lib : Parsers} {order : ByteOrder} {s s' first : Process cpus}
variable {action : Action cpus} {actions : List (Action cpus)}

/-- What the environment answers to one step. -/
structure Reply where
  /-- What a poll finds. -/
  host : Host
  /-- Order in which leftover veths are visited. -/
  iter : IterOrder
  /-- What is imposed on a call of `Sync`. -/
  fault : Fault
  /-- What is replied to a call of `Close`. -/
  answer : Answer

/-- Steps by which the threads go on towards their end, up to what they are
answered. -/
inductive Turn where
  /-- The first poll. -/
  | discover
  /-- A call of `Sync`. -/
  | call
  /-- The end of `Sync`. -/
  | returned
  /-- The end of polling. -/
  | stopPolling
  /-- A row of a table. -/
  | readRow
  /-- The end of a table. -/
  | print
  /-- The end of the tables. -/
  | stopCollecting
  /-- The signal. -/
  | signal
  /-- Entering `Close`. -/
  | enterClose (names : List String)
  /-- A call of `Close`. -/
  | close
  /-- The end of `Close`. -/
  | closed

/-- The step that a turn is with an answer. -/
def Turn.answered (reply : Reply) : Turn → Action cpus
  | .discover => .discover reply.host reply.iter
  | .call => .call reply.fault
  | .returned => .returned
  | .stopPolling => .stopPolling
  | .readRow => .readRow
  | .print => .print
  | .stopCollecting => .stopCollecting
  | .signal => .signal
  | .enterClose names => .enterClose names
  | .close => .close reply.answer
  | .closed => .closed

/-- The first poll is made by `main`; no other one is begun. -/
def Turn.Due (s : Process cpus) : Turn → Prop
  | .discover => s.main=.starting
  | _ => True

/-- A step towards the end, under some answer. -/
def Winds (lib : Parsers) (order : ByteOrder) (s s' : Process cpus) : Prop :=
  ∃ (turn : Turn) (reply : Reply),turn.Due s ∧ step lib order s (turn.answered reply)=some s'

/-- Some thread can go on, whatever it is answered. -/
def GoesOn (lib : Parsers) (order : ByteOrder) (s : Process cpus) : Prop :=
  ∃ turn : Turn,turn.Due s ∧ ∀ reply,(step lib order s (turn.answered reply)).isSome=true

/-- `Close` has returned and both goroutines have ended. -/
def Ended (s : Process cpus) : Prop :=
  (∃ err,s.main=.closed err) ∧ s.reconciler=.stopped ∧ s.collector=.stopped

section Measure

/-- Phases left to `main`, and what is left of `Close`. -/
def mainLeft (s : Process cpus) : ℕ×Life (Option (List CloseError)) :=
  match s.main with
  | .starting => (4,.done none)
  | .running => (3,.done none)
  | .cancelled => (2,.done none)
  | .closing rest => (1,rest)
  | .closed err => (0,.done err)

/-- Phases left to the reconciling thread, and what is left of `Sync`. Before
the goroutines are started there is a poll to come. -/
def reconcilerLeft (s : Process cpus) : ℕ×Go (Pool×Option GoError) :=
  match s.reconciler,s.main with
  | .idle,.starting => (3,.done (s.pool,none))
  | .syncing _ rest,_ => (2,rest)
  | .idle,_ => (1,.done (s.pool,none))
  | .stopped,_ => (0,.done (s.pool,none))

/-- Steps left to the collector. -/
def collectorLeft (s : Process cpus) : ℕ :=
  match s.collector with
  | .reading backends rows => backends.length-rows.length+2
  | .idle => 1
  | .stopped => 0

/-- The threads come closer to their end, `main` before the others. -/
def Closer (s' s : Process cpus) : Prop :=
  Prod.Lex (Prod.Lex (·<·) Left) (Prod.Lex (Prod.Lex (·<·) Left) (·<·))
    (mainLeft s',reconcilerLeft s',collectorLeft s') (mainLeft s,reconcilerLeft s,collectorLeft s)

/-- They cannot come closer forever. -/
theorem closer_wellFounded : WellFounded (@Closer cpus) :=
  InvImage.wf (fun s : Process cpus => (mainLeft s,reconcilerLeft s,collectorLeft s))
    (WellFounded.prod_lex (WellFounded.prod_lex Nat.lt_wfRel.wf left_wellFounded)
      (WellFounded.prod_lex (WellFounded.prod_lex Nat.lt_wfRel.wf left_wellFounded)
        Nat.lt_wfRel.wf))

/-- `main` has entered its next phase. -/
theorem closer_of_main (h : (mainLeft s').1< (mainLeft s).1) : Closer s' s :=
  .left _ _ (Prod.lex_def.mpr (.inl h))

/-- The reconciling thread has gone on. -/
theorem closer_of_reconciler (hmain : mainLeft s'=mainLeft s)
    (h : Prod.Lex (·<·) Left (reconcilerLeft s') (reconcilerLeft s)) : Closer s' s := by
  rw [Closer,hmain]
  exact .right _ (.left _ _ h)

/-- The collector has gone on. -/
theorem closer_of_collector (hmain : mainLeft s'=mainLeft s)
    (hreconciler : reconcilerLeft s'=reconcilerLeft s) (h : collectorLeft s'<collectorLeft s) :
    Closer s' s := by
  rw [Closer,hmain,hreconciler]
  exact .right _ (.right _ h)

end Measure

/-- What the phases of the threads have to do with each other. -/
structure Orderly (s : Process cpus) : Prop where
  /-- Polling ends after the context is cancelled. -/
  cancelled : s.reconciler=.stopped → s.main.isCancelled=true
  /-- A table has at most one row for each backend. -/
  rows : ∀ backends rows,s.collector=.reading backends rows → rows.length≤backends.length

/-- Spawning the goroutines keeps a cancelled context. -/
theorem isCancelled_spawned {main : Main} (h : main.isCancelled=true) :
    (spawned main).isCancelled=true := by
  cases main with
  | starting => contradiction
  | _ => exact h

/-- Every step keeps this. -/
theorem Orderly.moves (h : Orderly s) (hmove : Moves lib order s action s') : Orderly s' := by
  obtain ⟨hcancelled,hrows⟩ := h
  cases hmove with
  | pollFailed => exact ⟨fun hs => isCancelled_spawned (hcancelled hs),hrows⟩
  | discovered => exact ⟨nofun,hrows⟩
  | call => exact ⟨nofun,hrows⟩
  | returned => exact ⟨nofun,hrows⟩
  | stopPolling _ hc => exact ⟨fun _ => hc,hrows⟩
  | snapshot =>
    refine ⟨hcancelled,fun backends rows hreading => ?_⟩
    cases hreading
    exact Nat.zero_le _
  | readRow _ hb =>
    refine ⟨hcancelled,fun backends rows hreading => ?_⟩
    cases hreading
    rw [List.length_append]
    exact (List.getElem?_eq_some_iff.mp hb).1
  | print => exact ⟨hcancelled,nofun⟩
  | stopCollecting => exact ⟨hcancelled,nofun⟩
  | signal => exact ⟨fun _ => rfl,hrows⟩
  | enterClose => exact ⟨fun _ => rfl,hrows⟩
  | close => exact ⟨fun _ => rfl,hrows⟩
  | closed => exact ⟨fun _ => rfl,hrows⟩
  | ingress => exact ⟨hcancelled,hrows⟩

/-- Every step towards the end brings a thread closer to it. -/
theorem Winds.closer (h : Winds lib order s s') : Closer s' s := by
  obtain ⟨turn,reply,hdue,hstep⟩ := h
  have hmove := step_moves hstep
  cases turn with
  | discover =>
    have hstarting : s.main=.starting := hdue
    cases hmove with
    | pollFailed => exact closer_of_main (by simp [mainLeft,hstarting,spawned])
    | discovered hidle =>
      refine closer_of_reconciler rfl ?_
      simp only [reconcilerLeft,hstarting,hidle]
      exact .left _ _ (by decide)
  | call =>
    cases hmove with
    | call hsyncing =>
      refine closer_of_reconciler rfl ?_
      simp only [reconcilerLeft,hsyncing]
      exact .right _ (.call _ _ _)
  | returned =>
    cases hmove with
    | returned hsyncing =>
      by_cases hstarting : s.main=.starting
      · exact closer_of_main (by simp [mainLeft,hstarting,spawned])
      · have hspawned : spawned s.main=s.main := by
          cases hmain : s.main with
          | starting => exact absurd hmain hstarting
          | _ => rfl
        refine closer_of_reconciler ?_ ?_
        · simp only [mainLeft,hspawned]
        · simp only [reconcilerLeft,hsyncing,hspawned]
          exact .left _ _ (by decide)
  | stopPolling =>
    cases hmove with
    | stopPolling hidle hcancelled =>
      have hstarting : s.main≠.starting := by
        intro hmain
        rw [hmain] at hcancelled
        contradiction
      refine closer_of_reconciler rfl ?_
      simp only [reconcilerLeft,hidle]
      exact .left _ _ (by decide)
  | readRow =>
    cases hmove with
    | readRow hreading hb =>
      have hlt := (List.getElem?_eq_some_iff.mp hb).1
      refine closer_of_collector rfl rfl ?_
      simp only [collectorLeft,hreading,List.length_append,List.length_singleton]
      omega
  | print =>
    cases hmove with
    | print hreading => exact closer_of_collector rfl rfl (by simp [collectorLeft,hreading])
  | stopCollecting =>
    cases hmove with
    | stopCollecting hidle => exact closer_of_collector rfl rfl (by simp [collectorLeft,hidle])
  | signal =>
    cases hmove with
    | signal hrunning => exact closer_of_main (by simp [mainLeft,hrunning])
  | enterClose names =>
    cases hmove with
    | enterClose hcancelled => exact closer_of_main (by simp [mainLeft,hcancelled])
  | close =>
    cases hmove with
    | close hclosing =>
      refine .left _ _ ?_
      simp only [mainLeft,hclosing]
      exact .right _ (.call _ _ _)
  | closed =>
    cases hmove with
    | closed hclosing => exact closer_of_main (by simp [mainLeft,hclosing])

/-- So there are finitely many of them. -/
theorem winds_acc (s : Process cpus) : Acc (fun s' s => Winds lib order s s') s :=
  Subrelation.accessible Winds.closer (closer_wellFounded.apply s)

section Progress

/-- `Close` waits for nothing. -/
theorem goesOn_of_closing {rest : Life (Option (List CloseError))} (h : s.main=.closing rest) :
    GoesOn lib order s := by
  cases rest with
  | done err => exact ⟨.closed,trivial,fun _ => by simp [step,Turn.answered,h]⟩
  | call op next => exact ⟨.close,trivial,fun _ => by simp [step,Turn.answered,h]⟩

/-- `Sync` waits for `Close` only. -/
theorem goesOn_of_syncing {backends : List Backend} {rest : Go (Pool×Option GoError)}
    (h : s.reconciler=.syncing backends rest) : GoesOn lib order s := by
  by_cases hclosing : s.main.isClosing=true
  · cases hmain : s.main with
    | closing rest => exact goesOn_of_closing hmain
    | _ =>
      rw [hmain] at hclosing
      contradiction
  · cases rest with
    | done value => exact ⟨.returned,trivial,fun _ => by simp [step,Turn.answered,h]⟩
    | call op next => exact ⟨.call,trivial,fun _ => by simp [step,Turn.answered,h,hclosing]⟩

/-- In the middle of a table the collector waits for nothing. -/
theorem goesOn_of_reading {backends : List Backend} {rows : List Row}
    (h : s.collector=.reading backends rows) (hrows : rows.length≤backends.length) :
    GoesOn lib order s := by
  rcases Nat.lt_or_eq_of_le hrows with hlt|hfull
  · exact ⟨.readRow,trivial,fun _ => by simp [step,Turn.answered,h,hlt]⟩
  · exact ⟨.print,trivial,fun _ => by simp [step,Turn.answered,h,hfull]⟩

/-- Before `Close` it is `main` that can go on, if no `Sync` runs. -/
theorem goesOn_of_open (h : Orderly s) (hopen : s.main.isShut=false) : GoesOn lib order s := by
  cases hmain : s.main with
  | starting =>
    cases hreconciler : s.reconciler with
    | idle =>
      refine ⟨.discover,hmain,fun reply => ?_⟩
      cases hfound : discoverBackends lib reply.host s.settings.watcher <;>
        simp [step,Turn.answered,hreconciler,hfound]
    | syncing backends rest => exact goesOn_of_syncing hreconciler
    | stopped =>
      have hcancelled := h.cancelled hreconciler
      rw [hmain] at hcancelled
      contradiction
  | running => exact ⟨.signal,trivial,fun _ => by simp [step,Turn.answered,hmain]⟩
  | cancelled =>
    have hvisits : Visits s.kernel.world.vethLinks.keys.toList s.kernel.world :=
      ⟨Finset.nodup_toList _,Finset.toList_toFinset _⟩
    exact ⟨.enterClose s.kernel.world.vethLinks.keys.toList,trivial,
      fun _ => by simp [step,Turn.answered,hmain,hvisits]⟩
  | closing rest =>
    rw [hmain] at hopen
    contradiction
  | closed err =>
    rw [hmain] at hopen
    contradiction

/-- Until all threads have ended one of them can go on. -/
theorem ended_or_goesOn (h : Orderly s) : Ended s ∨ GoesOn lib order s := by
  cases hmain : s.main with
  | closing rest => exact .inr (goesOn_of_closing hmain)
  | closed err =>
    have hcancelled : s.main.isCancelled=true := by rw [hmain]; rfl
    cases hreconciler : s.reconciler with
    | idle =>
      exact .inr ⟨.stopPolling,trivial,fun _ => by simp [step,Turn.answered,hreconciler,hcancelled]⟩
    | syncing backends rest => exact .inr (goesOn_of_syncing hreconciler)
    | stopped =>
      cases hcollector : s.collector with
      | idle =>
        exact .inr ⟨.stopCollecting,trivial,
          fun _ => by simp [step,Turn.answered,hcollector,hcancelled]⟩
      | reading backends rows => exact .inr (goesOn_of_reading hcollector (h.rows _ _ hcollector))
      | stopped => exact .inl ⟨⟨err,hmain⟩,hreconciler,hcollector⟩
  | _ => exact .inr (goesOn_of_open h (by rw [hmain]; rfl))

end Progress

/-- Steps towards the end keep the phases in order. -/
theorem Orderly.winds (h : Orderly s) (hwinds : Relation.ReflTransGen (Winds lib order) s s') :
    Orderly s' := by
  induction hwinds with
  | refl => exact h
  | tail _ hlast ih =>
    obtain ⟨turn,reply,_,hstep⟩ := hlast
    exact ih.moves (step_moves hstep)

/-- Turns with an answer to each of them. -/
def answered (replies : ℕ → Reply) (turns : List Turn) : List (Action cpus) :=
  turns.mapIdx fun i turn => turn.answered (replies i)

/-- However the single steps are answered, some turns lead to the end. -/
theorem exists_ended (h : Orderly s) (replies : ℕ → Reply) :
    ∃ turns s',steps lib order s (answered replies turns)=some s' ∧ Ended s' := by
  have hacc := @winds_acc _ lib order s
  induction hacc generalizing replies with
  | intro s _ ih =>
    rcases @ended_or_goesOn _ lib order s h with hended|⟨turn,hdue,hstep⟩
    · exact ⟨[],s,rfl,hended⟩
    · obtain ⟨mid,hmid⟩ := Option.isSome_iff_exists.mp (hstep (replies 0))
      obtain ⟨turns,s',hsteps,hended⟩ := ih mid ⟨turn,replies 0,hdue,hmid⟩
        (h.moves (step_moves hmid)) fun i => replies (i+1)
      refine ⟨turn::turns,s',?_,hended⟩
      rw [answered,List.mapIdx_cons,steps,hmid]
      exact hsteps

/-- The program can always be stopped. From every moment of every execution,
in the middle of a `Sync`, of a table or of `Close`, as long as no further
poll and no further table is begun, the steps of the threads come to an end
in whatever order and whatever each of them is answered; until `Close` has
returned and both goroutines have ended, some thread can go on whatever it is
answered. So with any answers there are steps that lead there. -/
theorem can_always_stop (lib : Parsers) (order : ByteOrder) (cpus : ℕ) (flags : Flags)
    (answers : List Answer) (first : Process cpus)
    (hlaunch : launch lib cpus flags answers=.ok first) (actions : List (Action cpus))
    (s : Process cpus) (hsteps : steps lib order first actions=some s) :
    (∀ visited : ℕ → Process cpus,visited 0=s →
      ¬∀ n,Winds lib order (visited n) (visited (n+1))) ∧
    (∀ s',Relation.ReflTransGen (Winds lib order) s s' → Ended s' ∨ GoesOn lib order s') ∧
    ∀ replies : ℕ → Reply,∃ turns s',
      steps lib order s (answered replies turns)=some s' ∧ Ended s' := by
  have hfirst := launch_launched hlaunch
  have horderly : Orderly s := by
    refine steps_induction (fun _ s => Orderly s) ⟨fun hs => ?_,fun backends rows hs => ?_⟩
      (fun _ _ _ _ _ hs hmove => hs.moves hmove) hsteps
    · rw [hfirst.threads.2.1] at hs
      contradiction
    · rw [hfirst.threads.2.2.1] at hs
      contradiction
  refine ⟨fun visited hstart hwinds => ?_,fun s' hwinds => ended_or_goesOn (horderly.winds hwinds),
    exists_ended horderly⟩
  have hfinite := acc_iff_isEmpty_descending_chain.mp (@winds_acc _ lib order s)
  exact hfinite.false ⟨visited,hstart,hwinds⟩

/-- Answers that refuse every second call. -/
def halfRefused (i : ℕ) : Reply :=
  if i%2=0 then ⟨bridgeHost,storedOrder,noFault,.ok ⟨0,[]⟩⟩
  else ⟨bridgeHost,storedOrder,⟨some (.other 5),some (.other 5)⟩,.error (.other 5)⟩

/-- From the middle of the first reconciliation on the bridge, with every
second call refused. -/
theorem can_always_stop_half_refused :
    ∃ s,steps hostParsers .little bridgeProcess (firstSync.take 2)=some s ∧ ∃ turns s',
      steps hostParsers .little s (answered halfRefused turns)=some s' ∧ Ended s' := by
  refine ⟨_,rfl,?_⟩
  exact (can_always_stop hostParsers .little 1 hostFlags granted bridgeProcess launch_bridge
    (firstSync.take 2) _ rfl).2.2 halfRefused

end ContainerLb.Stopping

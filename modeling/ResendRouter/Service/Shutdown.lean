import ResendRouter.Delivery.Lease
import ResendRouter.Foundation.Watch

/-! # Worker loops and the shutdown

`run_worker` between two of its awaits, for the workers of any number of
processes, and the end of `main`: the signal on the watch channel, and the wait
for the worker tasks. When a select is left, the claim call in it is dropped,
while its statement may already be executed, or still be on its way.
-/

namespace ResendRouter.Service
open Foundation Program Database Delivery

inductive LoopStage where
  | atHead
  /-- Inside the select. The flag is set when the claim statement has taken effect, and its reply
  will not be read. -/
  | selecting (executed : Bool)
  /-- Inside `sleep_or_shutdown`. -/
  | sleeping
  | processing (batch : List ℕ)
  /-- The loop has ended, and the statement of the dropped claim call is on its way. -/
  | leaving
  | stopped
  /-- Dropped while its tasks were running. -/
  | aborted

def LoopStage.hasReturned : LoopStage → Bool
  | .leaving => true
  | .stopped => true
  | _ => false

structure Loop where
  stage : LoopStage
  /-- The last version of the channel that the receiver has seen. -/
  seen : ℕ

inductive LoopEvent where
  /-- The test of the channel at the head of the loop. -/
  | borrow
  | claim (now : Time) (skip : List Uuid) (fate : Fate)
  | claimUnread (now : Time) (skip : List Uuid)
  /-- The receiver is told of a change. -/
  | change
  /-- The idle sleep is over. -/
  | wake
  | join
  /-- The statement of a dropped claim call takes effect, or never does. -/
  | late (now : Time) (skip : List Uuid)
  | forget

section
variable (env : Env) (channel : Watch Bool) (time : Time) (w : World) (workerId : String)

def Loop.stop (l : Loop) : Option (World × Loop) :=
  (w.step env ⟨time, .stop workerId⟩).map fun w => (w, { l with stage := .stopped })

def Loop.go (l : Loop) (stage : LoopStage) : Option (World × Loop) :=
  (w.step env ⟨time, .idle⟩).map fun w => (w, { l with stage := stage })

/-- A statement of the loop, executed by the database. -/
def Loop.execute (l : Loop) (now : Time) (skip : List Uuid) (fate : Fate)
    (stage : World → LoopStage) : Option (World × Loop) :=
  (w.step env ⟨time, .claim workerId now skip fate⟩).map fun w => (w, { l with stage := stage w })

def afterClaim (w : World) : LoopStage :=
  match w.phase workerId with
  | .processing batch => .processing batch
  | _ => .sleeping

def Loop.step (l : Loop) : LoopEvent → Option (World × Loop)
  | .borrow => match l.stage with
    | .atHead =>
      if channel.value then l.stop env time w workerId
      else l.go env time w (.selecting false)
    | _ => none
  | .claim now skip fate => match l.stage with
    | .selecting false => l.execute env time w workerId now skip fate (afterClaim workerId)
    | _ => none
  | .claimUnread now skip => match l.stage with
    | .selecting false =>
      l.execute env time w workerId now skip .lost fun _ => .selecting true
    | _ => none
  | .change => match channel.changed l.seen with
    | none => none
    | some told =>
      let l := { l with seen := told.toOption.getD l.seen }
      -- `changed.is_err() || *shutdown.borrow()`
      let ends := told.toOption = none ∨ channel.value = true
      match l.stage with
      | .selecting executed =>
        if ends then
          if executed then l.stop env time w workerId else l.go env time w .leaving
        else l.go env time w .atHead
      | .sleeping =>
        if ends then l.stop env time w workerId else l.go env time w .atHead
      | _ => none
  | .wake => match l.stage with
    | .sleeping => l.go env time w .atHead
    | _ => none
  | .join => match l.stage with
    | .processing _ => (w.step env ⟨time, .join workerId⟩).map fun w =>
        (w, { l with stage := .atHead })
    | _ => none
  | .late now skip => match l.stage with
    | .leaving => (l.execute env time w workerId now skip .lost fun _ => .stopped).bind
        fun (w, l) => l.stop env time w workerId
    | _ => none
  | .forget => match l.stage with
    | .leaving => l.stop env time w workerId
    | _ => none

/-- The loop is dropped with its runtime. -/
def Loop.abort (l : Loop) : Option (World × Loop) :=
  match l.stage with
  | .processing _ => (w.step env ⟨time, .stop workerId⟩).map fun w =>
      (w, { l with stage := .aborted })
  | .selecting false => l.go env time w .leaving
  | .leaving => none
  | .stopped => none
  | .aborted => none
  | _ => l.stop env time w workerId

end

inductive MainStage where
  /-- The server accepts connections, or ends those that it has. -/
  | serving
  /-- The handles before `joined` are dealt with, and all of them `inTime` so far. -/
  | draining (joined : ℕ) (inTime : Bool)
  | returned (inTime : Bool)
  deriving DecidableEq

inductive MainEvent where
  /-- `shutdown_signal` has received a signal. -/
  | signal
  /-- The server has ended its connections. -/
  | served
  | serveFails
  | joined
  | timedOut
  | returns
  | killed

structure Process where
  channel : Watch Bool
  main : MainStage

/-- One step of `main`, with the ids of the process's workers and their loops. -/
def Process.step (workers : List String) (loops : String → Loop) (p : Process) :
    MainEvent → Option Process
  | .signal => match p.main with
    | .serving => if p.channel.value then none else some { p with channel := p.channel.send true }
    | _ => none
  | .served => match p.main with
    | .serving =>
      if p.channel.value then some ⟨p.channel.send true, .draining 0 true⟩ else none
    | _ => none
  | .serveFails => match p.main with
    | .serving => some ⟨p.channel.close, .returned false⟩
    | _ => none
  | .joined => match p.main with
    | .draining k inTime => match workers[k]? with
      | some workerId =>
        if (loops workerId).stage.hasReturned then some { p with main := .draining (k + 1) inTime }
        else none
      | none => none
    | _ => none
  | .timedOut => match p.main with
    | .draining k _ =>
      if k < workers.length then some { p with main := .draining (k + 1) false } else none
    | _ => none
  | .returns => match p.main with
    | .draining k inTime =>
      if workers.length ≤ k then some ⟨p.channel.close, .returned inTime⟩ else none
    | _ => none
  | .killed => match p.main with
    | .returned _ => none
    | _ => some ⟨p.channel.close, .returned false⟩

/-- The workers of every process; each worker belongs to one. -/
structure Layout where
  workers : ℕ → List String
  process : String → ℕ
  process_eq : ∀ p, ∀ workerId ∈ workers p, process workerId = p

structure Cluster where
  world : World
  loops : String → Loop
  processes : ℕ → Process

inductive ClusterAction where
  | enqueue (q : Enqueue)
  | task (claim : ℕ) (event : TaskEvent)
  | loop (workerId : String) (event : LoopEvent)
  | main (p : ℕ) (event : MainEvent)
  | abort (workerId : String)

structure ClusterEvent where
  time : Time
  action : ClusterAction

namespace Cluster
variable (env : Env) (layout : Layout)

def update (w : Cluster) (workerId : String) (r : World × Loop) : Cluster :=
  { w with world := r.1, loops := Function.update w.loops workerId r.2 }

def step (w : Cluster) (e : ClusterEvent) : Option Cluster :=
  match e.action with
  | .enqueue q => (w.world.step env ⟨e.time, .enqueue q⟩).map fun v => { w with world := v }
  | .task i event => (w.world.step env ⟨e.time, .task i event⟩).map fun v => { w with world := v }
  | .loop workerId event => ((w.loops workerId).step env
      (w.processes (layout.process workerId)).channel e.time w.world workerId event).map
        (w.update workerId)
  | .main p event => ((w.processes p).step (layout.workers p) w.loops event).map fun q =>
      { w with processes := Function.update w.processes p q }
  | .abort workerId => match (w.processes (layout.process workerId)).main with
    | .returned _ => ((w.loops workerId).abort env e.time w.world workerId).map
        (w.update workerId)
    | _ => none

def initial : Cluster :=
  ⟨.initial, fun _ => ⟨.atHead, 0⟩, fun _ => ⟨.new false, .serving⟩⟩

end Cluster

def cluster (env : Env) (layout : Layout) : System Cluster ClusterEvent :=
  ⟨.initial, Cluster.step env layout⟩

end ResendRouter.Service

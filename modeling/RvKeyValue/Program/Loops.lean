import RvKeyValue.Cluster.Rounds
import RvKeyValue.Service.System

/-!
# The program

`run` of `cmd/node/main.go` starts the service and, beside the apply loop, the two loops that drive the
cluster: `RunElectionTimer` starts elections and `RunHeartbeatLoop` sends heartbeats. Nothing else
starts either. A successful `AppendEntries` handler resets the timer through a channel of one place.

Time is a number of nanoseconds that passes in steps of any length. The ticker of the heartbeat loop may
tick at any time. A loop may find its context done at any time; when the error of a loop ends the
process, that is a crash.
-/

open Raft (Bytes NodeId Members Label Event Server)
open Store (Json)

namespace Program

/-- `MinElectionTimeout`. -/
def minElectionTimeout : Nat := 150000000

/-- `MaxElectionTimeout`. -/
def maxElectionTimeout : Nat := 300000000

/-- `RandomElectionTimeout`, with the number that `Int63n` draws: at most the difference of the two. -/
def randomElectionTimeout (drawn : Nat) : Option Nat :=
  if drawn ≤ maxElectionTimeout - minElectionTimeout then some (minElectionTimeout + drawn) else none

/-- Where `RunElectionTimer` stands. -/
inductive TimerStage
  /-- Before `NewTimer`. -/
  | arming
  /-- In the `select`, with the time at which the timer fires. -/
  | waiting (deadline : Nat)
  /-- The timer has fired, before `State`. -/
  | fired
  /-- Before `StartElection`. -/
  | starting
  /-- `StartElection` runs as a call of the node. -/
  | electing (tag : Nat)
  /-- Returned an error. -/
  | stopped
deriving DecidableEq, Repr

/-- Where `RunHeartbeatLoop` stands. -/
inductive HeartbeatStage
  /-- In the `select`. -/
  | waiting
  /-- The ticker has ticked, before `State`. -/
  | ticked
  /-- Before `ReplicateOnce`. -/
  | starting
  /-- `ReplicateOnce` runs as a call of the node. -/
  | replicating (tag : Nat)
  /-- Returned an error. -/
  | stopped
deriving DecidableEq, Repr

/-- What runs beside the service at a node. -/
structure Loops where
  /-- `RunElectionTimer`. -/
  timer : TimerStage := .arming
  /-- `RunHeartbeatLoop`. -/
  heartbeat : HeartbeatStage := .waiting
  /-- Handlers of `AppendEntries` before `notifyAppendReset`. -/
  notices : Nat := 0
  /-- Whether the channel `resetElection` is full. -/
  reset : Bool := false
deriving DecidableEq, Repr

/-- A move of `RunElectionTimer`. -/
inductive TimerMove
  /-- A timer is set, with the number that is drawn. -/
  | arm (drawn : Nat)
  /-- The channel is received from, and the timer stopped. -/
  | reset
  /-- The timer fires. -/
  | fire
  /-- The role is looked up. -/
  | look
  /-- `StartElection` is called. -/
  | start
  /-- The context is done. -/
  | halt
deriving DecidableEq, Repr

/-- A move of `RunHeartbeatLoop`. -/
inductive HeartbeatMove
  /-- The ticker ticks. -/
  | tick
  /-- The role is looked up. -/
  | look
  /-- `ReplicateOnce` is called. -/
  | start
  /-- The context is done. -/
  | halt
deriving DecidableEq, Repr

/-- What happens next. -/
inductive Action
  /-- The service goes on. -/
  | serve (action : Service.Action)
  /-- Time passes. -/
  | elapse (duration : Nat)
  /-- `RunElectionTimer` of a node goes on. -/
  | timer (node : NodeId) (move : TimerMove)
  /-- `RunHeartbeatLoop` of a node goes on. -/
  | heartbeat (node : NodeId) (move : HeartbeatMove)
  /-- A handler of `AppendEntries` calls `notifyAppendReset`. -/
  | notify (node : NodeId)
deriving DecidableEq, Repr

/-- What the timer of a node did, with the time. -/
inductive Pulse
  /-- It was reset. -/
  | reset
  /-- It started an election. -/
  | election
deriving DecidableEq, Repr

/-- A `Pulse` of a node. -/
structure Moment where
  /-- The node. -/
  node : NodeId
  /-- The time. -/
  time : Nat
  /-- What happened. -/
  pulse : Pulse
deriving DecidableEq, Repr

/-- Events of the cluster that only the two loops start. -/
def drives : Service.Action → Bool
  | .raft ⟨_, .start .election⟩ => true
  | .raft ⟨_, .start .replicate⟩ => true
  | _ => false

/-- Whether `StartElection` returns an error at an event of its call. -/
def electionError (sv : Server) : Event → Bool
  | .step tag save _ =>
    match sv.calls tag with
    | some (.election .preVoteWon) => (sv.node.becomeCandidate save).err.isSome
    | some (.election (.winning term)) => (sv.node.promoteCandidate save term).err.isSome
    | _ => false
  | .reply packet save =>
    match packet.body with
    | .preVoteResponse _ resp => (sv.node.stepDownForHigherTerm save resp.term).err.isSome
    | .voteResponse _ resp => (sv.node.stepDownForHigherTerm save resp.term).err.isSome
    | _ => false
  | .cancel _ => true
  | _ => false

/-- Whether an event is an `AppendEntries` that is answered with success. -/
def acknowledges (sv : Server) : Event → Bool
  | .serve packet save =>
    match packet.body with
    | .appendRequest req =>
      let out := sv.node.handleAppendEntries save req
      out.err.isNone && out.value.success
    | _ => false
  | _ => false

namespace Loops

/-- The timer after an event at its node: it goes on when `StartElection` has returned. -/
def timerAfter (before after : Server) (event : Event) : TimerStage → TimerStage
  | .electing tag =>
    if (after.calls tag).isSome then .electing tag
    else if electionError before event then .stopped
    else .arming
  | stage => stage

/-- The heartbeat loop after an event at its node. -/
def heartbeatAfter (before after : Server) (event : Event) : HeartbeatStage → HeartbeatStage
  | .replicating tag =>
    if (after.calls tag).isSome then .replicating tag
    else if (before.roundError event).isSome then .stopped
    else .waiting
  | stage => stage

/-- What runs beside the service after an event at the node; a process that starts again starts its
loops again. -/
def hear (loops : Loops) (before after : Server) (event : Event) : Loops :=
  if event = .crash then {}
  else
    { loops with
      timer := timerAfter before after event loops.timer
      heartbeat := heartbeatAfter before after event loops.heartbeat
      notices := loops.notices + if acknowledges before event then 1 else 0 }

end Loops

end Program

/-- The service with the loops of its nodes, the time, and a journal of the timers that the code does
not have. -/
structure Program where
  /-- The service. -/
  service : Service
  /-- What runs beside it at each node. -/
  loops : NodeId → Program.Loops := fun _ => {}
  /-- The time, in nanoseconds. -/
  now : Nat := 0
  /-- What the timers did, oldest first. -/
  journal : List Program.Moment := []

namespace Program

/-- Every process has been started. -/
def initial (members : Members) : Program where
  service := .initial members

/-- The process of a node. -/
def server (p : Program) (id : NodeId) : Server := p.service.server id

/-- The loops of a node move. -/
def set (p : Program) (node : NodeId) (loops : Loops) : Program :=
  { p with loops := Function.update p.loops node loops }

/-- The timer of a node is written down. -/
def note (p : Program) (node : NodeId) (pulse : Pulse) : Program :=
  { p with journal := p.journal ++ [⟨node, p.now, pulse⟩] }

/-- The loops of a node hear of a step of its process. -/
def hear (p : Program) (old : Service) (label : Option Label) : Program :=
  match label with
  | none => p
  | some label =>
    p.set label.node ((p.loops label.node).hear (old.server label.node) (p.server label.node) label.event)

/-- `RunElectionTimer` goes on. -/
def runElectionTimer (json : Json) (members : Members) (p : Program) (node : NodeId) :
    TimerMove → Option Program
  | .arm drawn =>
    if (p.loops node).timer = .arming then
      (randomElectionTimeout drawn).map fun timeout =>
        p.set node { p.loops node with timer := .waiting (p.now + timeout) }
    else none
  | .reset =>
    match (p.loops node).timer with
    | .waiting _ =>
      if (p.loops node).reset then
        some ((p.set node { p.loops node with timer := .arming, reset := false }).note node .reset)
      else none
    | _ => none
  | .fire =>
    match (p.loops node).timer with
    | .waiting deadline =>
      if deadline ≤ p.now then some (p.set node { p.loops node with timer := .fired }) else none
    | _ => none
  | .look =>
    if (p.loops node).timer = .fired then
      some (p.set node { p.loops node with
        timer := if (p.server node).node.state = .leader then .arming else .starting })
    else none
  | .start =>
    if (p.loops node).timer = .starting then
      (p.service.step json members (.raft ⟨node, .start .election⟩)).map fun service =>
        (({ p with service }).set node
          { p.loops node with timer := .electing (p.server node).nextTag }).note node .election
    else none
  | .halt =>
    match (p.loops node).timer with
    | .waiting _ => some (p.set node { p.loops node with timer := .stopped })
    | _ => none

/-- `RunHeartbeatLoop` goes on. -/
def runHeartbeatLoop (json : Json) (members : Members) (p : Program) (node : NodeId) :
    HeartbeatMove → Option Program
  | .tick =>
    if (p.loops node).heartbeat = .waiting then
      some (p.set node { p.loops node with heartbeat := .ticked })
    else none
  | .look =>
    if (p.loops node).heartbeat = .ticked then
      some (p.set node { p.loops node with
        heartbeat := if (p.server node).node.state = .leader then .starting else .waiting })
    else none
  | .start =>
    if (p.loops node).heartbeat = .starting then
      (p.service.step json members (.raft ⟨node, .start .replicate⟩)).map fun service =>
        ({ p with service }).set node
          { p.loops node with heartbeat := .replicating (p.server node).nextTag }
    else none
  | .halt =>
    if (p.loops node).heartbeat = .waiting then
      some (p.set node { p.loops node with heartbeat := .stopped })
    else none

/-- One step of the program. -/
def step (json : Json) (members : Members) (p : Program) : Action → Option Program
  | .serve action =>
    if drives action then none
    else (p.service.step json members action).map fun service =>
      ({ p with service }).hear p.service (p.service.label json action)
  | .elapse duration => some { p with now := p.now + duration }
  | .timer node move => p.runElectionTimer json members node move
  | .heartbeat node move => p.runHeartbeatLoop json members node move
  | .notify node =>
    if 0 < (p.loops node).notices then
      some (p.set node { p.loops node with notices := (p.loops node).notices - 1, reset := true })
    else none

/-- The step of the cluster an action makes. -/
def label (json : Json) (p : Program) : Action → Option Label
  | .serve action => p.service.label json action
  | .timer node .start => some ⟨node, .start .election⟩
  | .heartbeat node .start => some ⟨node, .start .replicate⟩
  | _ => none

/-- The steps of calls and handlers, as the program takes them. -/
def ofLabels (labels : List Label) : List Action := labels.map fun label => .serve (.raft label)

/-- The timer of a node is set, fires, and starts an election. -/
def timeout (node : NodeId) : List Action :=
  [.timer node (.arm 0), .elapse minElectionTimeout, .timer node .fire, .timer node .look,
    .timer node .start]

/-- The timer of a node fires, and the node is elected. -/
def timedCampaign (node : NodeId) (tag term : Nat) (voters : List (NodeId × Nat)) : List Action :=
  timeout node ++ ofLabels ((Label.campaign node tag term 0 0 voters).drop 1)

end Program

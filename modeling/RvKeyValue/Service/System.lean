import RvKeyValue.Node.ApplyLoop
import RvKeyValue.Service.Handler

/-!
# The service

The cluster with a state machine, an apply loop and the client API at each node: what
`cmd/node/main.go` starts. Elections, heartbeats, messages, sections of running calls and crashes
are steps of the cluster as before. Proposals, `ApplyCommitted` and `Compact` start only where a
handler or the loop starts them.

What clients see, and which entries their requests add to a log, is written down in a journal that
the code does not have.
-/

open Raft (Bytes NodeId LogEntry Members Label Event Server Traced Record decodeMembershipChange)
open Store (Json KVMap KVStateMachine encodeCommand)

namespace Service

/-- Where `applyCommittedLoop` stands: its `ApplyCommitted` is about to be called, or a call of the node. -/
abbrev LoopStage := Raft.LoopStage (Option Nat)

/-- Something the journal says of a handler. -/
inductive Moment
  /-- It was given its request. -/
  | received (handler : Nat)
  /-- A proposal for the request it was given by a client appended an entry. -/
  | appended (origin : Nat) (entry : LogEntry)
  /-- It wrote its response. -/
  | answered (handler : Nat) (response : Response)
deriving DecidableEq, Repr

/-- What happens next. -/
inductive Action
  /-- A step of the cluster that no handler and no loop starts. -/
  | raft (label : Label)
  /-- A client sends a request to a node. -/
  | receive (node : NodeId) (request : Request)
  /-- A handler goes on. -/
  | handle (handler : Nat)
  /-- `Forward` returns an error. -/
  | abandon (handler : Nat)
  /-- The loop of a node goes on. -/
  | loop (node : NodeId) (save : Bool)
deriving DecidableEq, Repr

/-- Events that are not started by a handler or by the loop. -/
def background : Event → Bool
  | .start (.propose _) => false
  | .start .apply => false
  | .compact _ _ => false
  | _ => true

/-- The state machine of a process that starts: what the database holds, then the snapshot of the
node. Absent when the process ends with the error of `RestoreSnapshot`. -/
def startMachine (json : Json) (db : Option KVMap) (snapshot : Bytes) : Option KVStateMachine :=
  ((KVStateMachine.newBoltKVStateMachine db).restoreSnapshot json snapshot).toOption

/-- The state machine after an event at its node. `Apply` either succeeds or changes nothing: an event
that says it succeeds where it returns an error does not exist. -/
def machineAfter (json : Json) (before after : Server) (machine : KVStateMachine) :
    Event → Option KVStateMachine
  | .step tag _ true =>
    match before.calls tag with
    | some (.apply (.holding entry)) =>
      match decodeMembershipChange json.unmarshalMembership entry.command with
      | none => (machine.apply json entry).toOption
      | some _ => some machine
    | _ => some machine
  | .crash => startMachine json machine.db after.node.snapshot
  | _ => some machine

end Service

/-- The cluster, what runs beside the nodes, and the journal. -/
structure Service where
  /-- The cluster, with what each process applied. -/
  traced : Traced
  /-- The state machines. -/
  machines : NodeId → KVStateMachine
  /-- The apply loops. -/
  loops : NodeId → Service.LoopStage := fun _ => .applying none
  /-- The handlers, in the order in which they were given their requests. -/
  handlers : List Service.Handler := []
  /-- The journal, oldest first. -/
  journal : List Service.Moment := []

namespace Service

/-- Every process has been started on an empty store and an empty database. -/
def initial (members : Members) : Service where
  traced := .initial members
  machines _ := .newBoltKVStateMachine (some ∅)

/-- The process of a node. -/
def server (s : Service) (id : NodeId) : Server := s.traced.cluster.servers id

/-- A step of the cluster, with the state machine of its node. -/
def advance (json : Json) (members : Members) (s : Service) (label : Label) : Option Service :=
  (s.traced.step json.unmarshalMembership members label).bind fun traced =>
    (machineAfter json (s.server label.node) (traced.cluster.servers label.node)
      (s.machines label.node) label.event).map fun machine =>
        { s with traced, machines := Function.update s.machines label.node machine }

/-- A handler moves to another stage. -/
def put (s : Service) (id : Nat) (h : Handler) (stage : Stage) : Service :=
  { s with
    handlers := s.handlers.set id { h with stage }
    journal := s.journal ++ stage.response.toList.map fun response => .answered id response }

/-- The loop of a node moves to another stage. -/
def setLoop (s : Service) (node : NodeId) (stage : LoopStage) : Service :=
  { s with loops := Function.update s.loops node stage }

/-- A handler is given a request. -/
def receive (s : Service) (node : NodeId) (origin : Nat) (request : Request) : Service :=
  { s with
    handlers := s.handlers ++ [⟨node, origin, request, request.enter⟩]
    journal := s.journal ++ .received s.handlers.length ::
      request.enter.response.toList.map fun response => .answered s.handlers.length response }

/-- The handler that waits for a call of a node. -/
def owner (s : Service) (node : NodeId) (tag : Nat) : Option Nat :=
  s.handlers.findIdx? fun h => decide (h.node = node ∧ h.stage.call = some tag)

/-- A handler hears of a step of the call it waits for, from one state of its node to another. -/
def hear (s : Service) (id : Nat) (h : Handler) (before : Server) (tag : Nat) (shown : List Record) :
    Service :=
  let written := { s with
    journal := s.journal ++
      (h.appended before (s.server h.node) tag).toList.map fun entry => .appended h.origin entry }
  match ending before (s.server h.node) tag shown with
  | none => written
  | some ended => written.put id h (h.resume ended)

/-- The loop hears of a step of its call. -/
def hearLoop (s : Service) (node : NodeId) (before : Server) (tag : Nat) (shown : List Record) :
    Service :=
  if s.loops node = .applying (some tag) then
    match ending before (s.server node) tag shown with
    | none => s
    | some ended => s.setLoop node (.back (decide (ended ≠ .applied)))
  else s

/-- Whoever waits for a call hears of a step of the cluster, and a crash ends the handlers and the
loop of its process. -/
def notify (s : Service) (old : Service) (label : Label) : Service :=
  match label.event with
  | .crash => { s with
      handlers := s.handlers.map (Handler.lose label.node)
      loops := Function.update s.loops label.node (.applying none) }
  | event =>
    match event.call with
    | none => s
    | some tag =>
      let shown := s.traced.cluster.observed.drop old.traced.cluster.observed.length
      match (s.owner label.node tag).bind fun id => s.handlers[id]?.map fun h => (id, h) with
      | some (id, h) => s.hear id h (old.server label.node) tag shown
      | none => s.hearLoop label.node (old.server label.node) tag shown

/-- A handler goes on. -/
def handle (json : Json) (members : Members) (s : Service) (id : Nat) (h : Handler) : Option Service :=
  let sv := s.server h.node
  match h.stage with
  | .checking => some (s.put id h (if sv.node.state = .leader then .proposing else .refused))
  | .proposing =>
    match encodeCommand json h.request.command with
    | .error (.command text) => some (s.put id h (.answered (.error 400 text)))
    | .error _ => some (s.put id h (.answered (.internal none)))
    | .ok command => (s.advance json members ⟨h.node, .start (.propose command)⟩).map fun moved =>
        moved.put id h (.waiting sv.nextTag)
  | .refused =>
    -- `forwardToLeader`, and `Forward` up to the request it sends
    if sv.node.leaderID = "" ∨ sv.node.leaderID = sv.node.id then
      some (s.put id h (.answered (.error 409 "not leader")))
    else if sv.node.leaderID ∈ members.ids then
      some ((s.put id h (.forwarding s.handlers.length)).receive sv.node.leaderID h.origin h.request)
    else some (s.put id h (.answered .badGateway))
  | .forwarding target =>
    (s.handlers[target]?.bind fun other => other.stage.response).map fun response =>
      s.put id h (.answered response.forwarded)
  | .committed entry => (s.advance json members ⟨h.node, .start .apply⟩).map fun moved =>
      moved.put id h (.applying entry sv.nextTag)
  | .reading _ =>
    match h.request with
    | .get key =>
      match (s.machines h.node).get key with
      | some bytes => some (s.put id h (.answered (.value bytes)))
      | none => some (s.put id h (.answered (.error 404 "not found")))
    | .write _ => none
  | _ => none

/-- `applyCommittedLoop` goes on. The slot `commitReady` is filled by the sections of the node and emptied
here only; the loop may find it full at any time. -/
def loop (json : Json) (members : Members) (s : Service) (node : NodeId) (save : Bool) :
    Option Service :=
  let sv := s.server node
  match s.loops node with
  | .applying none => (s.advance json members ⟨node, .start .apply⟩).map fun moved =>
      moved.setLoop node (.applying (some sv.nextTag))
  | stage =>
    (stage.next sv.node save (some ((s.machines node).snapshot json)) true none).bind fun next =>
      match stage with
      | .compacting snapshot => (s.advance json members ⟨node, .compact snapshot save⟩).map fun moved =>
          moved.setLoop node next
      | _ => some (s.setLoop node next)

/-- One step of the service. -/
def step (json : Json) (members : Members) (s : Service) : Action → Option Service
  | .raft label =>
    if background label.event then
      (s.advance json members label).map fun moved => moved.notify s label
    else none
  | .receive node request =>
    if node ∈ members.ids then some (s.receive node s.handlers.length request) else none
  | .handle id => s.handlers[id]?.bind fun h => s.handle json members id h
  | .abandon id => s.handlers[id]?.bind fun h =>
      match h.stage with
      | .forwarding _ => some (s.put id h (.answered .badGateway))
      | _ => none
  | .loop node save => if node ∈ members.ids then s.loop json members node save else none

/-- The step of the cluster an action makes. -/
def label (json : Json) (s : Service) : Action → Option Label
  | .raft label => some label
  | .handle id => s.handlers[id]?.bind fun h =>
      match h.stage with
      | .proposing => (encodeCommand json h.request.command).toOption.map fun command =>
          ⟨h.node, .start (.propose command)⟩
      | .committed _ => some ⟨h.node, .start .apply⟩
      | _ => none
  | .loop node save =>
    match s.loops node with
    | .applying none => some ⟨node, .start .apply⟩
    | .compacting snapshot => some ⟨node, .compact snapshot save⟩
    | _ => none
  | _ => none

/-- The step of the cluster an action makes meets a condition. -/
def under (json : Json) (allowed : Traced → Label → Prop) (s : Service) (action : Action) : Prop :=
  match s.label json action with
  | some label => allowed s.traced label
  | none => True

instance (json : Json) (allowed : Traced → Label → Prop) [∀ t label, Decidable (allowed t label)]
    (s : Service) (action : Action) : Decidable (s.under json allowed action) := by
  unfold under
  split <;> infer_instance

/-- Steps of the cluster, as actions. -/
def ofLabels (labels : List Label) : List Action := labels.map .raft

end Service

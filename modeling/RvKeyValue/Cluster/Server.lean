import RvKeyValue.Cluster.Call
import RvKeyValue.Raft.Requests

/-!
# One process

A process is a node record with its running calls. It starts calls, takes their next
sections, serves the RPCs of its peers, compacts its log, and may crash at any point: then
only the store survives and the node is built again from it.

The entries that compaction removed are kept on the side. The code has no such list: it is
there to say what a snapshot stands for.
-/

namespace Raft

/-- A message on its way, named by the RPC it belongs to: the calling node, the called node and
the number of the call at the calling node. -/
structure Packet where
  /-- The node that made the RPC. -/
  source : NodeId
  /-- The peer it called. -/
  target : NodeId
  /-- The call at the source. -/
  tag : Nat
  /-- The message. -/
  body : Body
deriving DecidableEq, Repr

/-- A process. -/
structure Server where
  /-- The node record. -/
  node : RaftNode
  /-- The entries compaction removed, oldest first. -/
  compacted : List LogEntry := []
  /-- The running calls. -/
  calls : Nat → Option Call := fun _ => none
  /-- The number of the next call. -/
  nextTag : Nat := 0

/-- The calls a process can start. -/
inductive Start
  /-- `StartElection`. -/
  | election
  /-- `ProposeWithRetryInterval`. -/
  | propose (command : Bytes)
  /-- `ReplicateOnce`. -/
  | replicate
  /-- `ApplyCommitted`. -/
  | apply
deriving DecidableEq, Repr

/-- A call before its first section. -/
def Start.call : Start → Call
  | election => .election .starting
  | propose command => .propose (.starting command)
  | replicate => .replicate none .ensuring
  | apply => .apply .fetching

/-- What can happen at a process. The flags say whether a `Save` and an `sm.Apply` made in the
step succeed. -/
inductive Event
  /-- A call starts. -/
  | start (kind : Start)
  /-- A call takes its next section. -/
  | step (tag : Nat) (save applied : Bool)
  /-- A response reaches its call. -/
  | reply (packet : Packet) (save : Bool)
  /-- An RPC of a call returns an error. -/
  | failure (tag : Nat) (peer : NodeId)
  /-- The context of a call is done. -/
  | cancel (tag : Nat)
  /-- A request is handled. -/
  | serve (packet : Packet) (save : Bool)
  /-- `Compact` runs. -/
  | compact (snapshot : Bytes) (save : Bool)
  /-- The process stops and is started again. -/
  | crash
deriving DecidableEq, Repr

/-- The message an event takes from the network. -/
def Event.packet : Event → Option Packet
  | reply packet _ => some packet
  | serve packet _ => some packet
  | _ => none

/-- What a process does in one step. -/
structure Reaction where
  /-- The process after it. -/
  server : Server
  /-- Messages sent. -/
  sent : List Packet := []
  /-- What is observed, with the call it belongs to. -/
  observed : List (Nat × Observation) := []

namespace Server

/-- The whole log: what compaction removed and what is retained. -/
def full (sv : Server) : List LogEntry := sv.compacted ++ sv.node.log

/-- The whole log has an entry at its index. -/
def Holds (sv : Server) (entry : LogEntry) : Prop :=
  0 < entry.index ∧ sv.full[entry.index - 1]? = some entry

instance (sv : Server) (entry : LogEntry) : Decidable (sv.Holds entry) := by
  unfold Holds
  infer_instance

/-- An entry of the log is not above its end. -/
theorem Holds.le_length {sv : Server} {entry : LogEntry} (held : sv.Holds entry) :
    entry.index ≤ sv.full.length := by
  have inside := (List.getElem?_eq_some_iff.mp held.2).1
  omega

/-- Only the log up to the entry matters. -/
theorem Holds.take {sv sv' : Server} {entry : LogEntry} (held : sv.Holds entry)
    (same : sv'.full.take entry.index = sv.full.take entry.index) : sv'.Holds entry := by
  refine ⟨held.1, ?_⟩
  have below : entry.index - 1 < entry.index := by have := held.1; omega
  rw [← List.getElem?_take_of_lt below, same, List.getElem?_take_of_lt below]
  exact held.2

/-- Only the log matters. -/
theorem Holds.congr {sv sv' : Server} {entry : LogEntry} (held : sv.Holds entry)
    (same : sv'.full = sv.full) : sv'.Holds entry :=
  held.take (by rw [same])

/-- Whether a call of some kind is running. -/
def runs (sv : Server) (kind : Call → Bool) : Bool :=
  (List.range sv.nextTag).any fun tag => (sv.calls tag).any kind

/-- Whether an event hands the node a request that it accepts and that carries another term than
its log at an index up to the given one. -/
def conflicts (sv : Server) (event : Event) (upTo : Nat) : Bool :=
  match event with
  | .serve packet _ =>
    match packet.body with
    | .appendRequest req => sv.node.accepts req && sv.node.conflicts req upTo
    | _ => false
  | _ => false

/-- A call that runs after one call was set is that one or ran before. -/
theorem call_updated {calls : Nat → Option Call} {tag position : Nat} {next : Option Call}
    {call : Call} (found : Function.update calls tag next position = some call) :
    position = tag ∧ next = some call ∨ position ≠ tag ∧ calls position = some call := by
  by_cases same : position = tag
  · rw [same, Function.update_self] at found
    exact Or.inl ⟨same, found⟩
  · rw [Function.update_of_ne same] at found
    exact Or.inr ⟨same, found⟩

/-- A call goes on after a section. -/
def resume (sv : Server) (tag : Nat) (turn : Turn) : Reaction where
  server := { sv with node := turn.node, calls := Function.update sv.calls tag turn.call }
  sent := turn.sent.map fun request => ⟨sv.node.id, request.1, tag, request.2⟩
  observed := turn.observed.map fun observation => (tag, observation)

/-- The handlers of the three RPCs: the record after the handler and the response, which is
absent when the handler returns an error. -/
def handle (n : RaftNode) (save : Bool) : Body → Option (RaftNode × Option Body)
  | .preVoteRequest req => some (n, some (.preVoteResponse req (n.preVote req)))
  | .voteRequest req =>
    let out := n.requestVote save req
    some (out.node, if out.err.isSome then none else some (.voteResponse req out.value))
  | .appendRequest req =>
    let out := n.handleAppendEntries save req
    some (out.node, if out.err.isSome then none else some (.appendResponse req out.value))
  | _ => none

/-- `Compact`, with the entries it removes kept on the side. -/
def compact (sv : Server) (save : Bool) (snapshot : Bytes) : Server :=
  let out := sv.node.compact save snapshot
  { sv with
    node := out.node
    compacted := sv.compacted ++ sv.node.log.take (sv.node.log.length - out.node.log.length) }

/-- What `Compact` moves to the side is the part of the whole log between the two snapshots. -/
theorem compacted_eq {sv : Server} {full : List LogEntry} (before : Represents sv.node full)
    (side : sv.compacted = full.take sv.node.lastIncludedIndex) {cut after : RaftNode}
    (represents : Represents cut full) (above : sv.node.lastIncludedIndex ≤ cut.lastIncludedIndex)
    (inside : cut.lastIncludedIndex ≤ full.length) (log : after.log = cut.log)
    (index : after.lastIncludedIndex = cut.lastIncludedIndex) :
    sv.compacted ++ sv.node.log.take (sv.node.log.length - after.log.length) =
      full.take after.lastIncludedIndex := by
  rw [side, index, log, before.retained, represents.retained, List.length_drop, List.length_drop,
    show full.length - sv.node.lastIncludedIndex - (full.length - cut.lastIncludedIndex) =
      cut.lastIncludedIndex - sv.node.lastIncludedIndex by omega, ← List.take_add,
    show sv.node.lastIncludedIndex + (cut.lastIncludedIndex - sv.node.lastIncludedIndex) =
      cut.lastIncludedIndex by omega]

/-- A restart over the store: calls are gone, and what the stored snapshot covers is what was
compacted. -/
def restart (sv : Server) (peers : List NodeId) : Server :=
  let node := newRaftNode sv.node.id peers sv.node.store
  { sv with
    node
    compacted := sv.compacted.take node.lastIncludedIndex
    calls := fun _ => none }

/-- One step of a process; `peers` is its command line's peer list. -/
def react (unmarshal : Bytes → Option MembershipCommand) (peers : List NodeId) (sv : Server) :
    Event → Option Reaction
  | .start kind => some
    { server := { sv with
        calls := Function.update sv.calls sv.nextTag (some kind.call)
        nextTag := sv.nextTag + 1 } }
  | .step tag save applied =>
    (sv.calls tag).bind fun call =>
      (call.step unmarshal sv.node save applied).map fun turn => sv.resume tag turn
  | .reply packet save =>
    if packet.source = sv.node.id then
      (sv.calls packet.tag).bind fun call =>
        (call.reply sv.node save packet.target packet.body).map fun turn => sv.resume packet.tag turn
    else none
  | .failure tag peer =>
    (sv.calls tag).bind fun call =>
      (call.failure peer).map fun next =>
        { server := { sv with calls := Function.update sv.calls tag (some next) } }
  | .cancel tag =>
    (sv.calls tag).bind fun call =>
      call.cancel.map fun observed =>
        { server := { sv with calls := Function.update sv.calls tag none }
          observed := observed.map fun observation => (tag, observation) }
  | .serve packet save =>
    if packet.target = sv.node.id then
      (handle sv.node save packet.body).map fun answer =>
        { server := { sv with node := answer.1 }
          sent := answer.2.toList.map fun body => { packet with body } }
    else none
  | .compact snapshot save => some { server := sv.compact save snapshot }
  | .crash => some { server := sv.restart peers }

/-- What a process does, one case for each kind of event. -/
inductive Reacts (unmarshal : Bytes → Option MembershipCommand) (peers : List NodeId) (sv : Server) :
    Event → Reaction → Prop
  /-- A call starts. -/
  | start (kind : Start) : Reacts unmarshal peers sv (.start kind)
      { server := { sv with
          calls := Function.update sv.calls sv.nextTag (some kind.call)
          nextTag := sv.nextTag + 1 } }
  /-- A call takes its next section. -/
  | step (tag : Nat) (save applied : Bool) (call : Call) (turn : Turn)
      (running : sv.calls tag = some call)
      (stepped : call.step unmarshal sv.node save applied = some turn) :
      Reacts unmarshal peers sv (.step tag save applied) (sv.resume tag turn)
  /-- A response reaches its call. -/
  | reply (packet : Packet) (save : Bool) (call : Call) (turn : Turn)
      (own : packet.source = sv.node.id) (running : sv.calls packet.tag = some call)
      (replied : call.reply sv.node save packet.target packet.body = some turn) :
      Reacts unmarshal peers sv (.reply packet save) (sv.resume packet.tag turn)
  /-- An RPC of a call returns an error. -/
  | failure (tag : Nat) (peer : NodeId) (call next : Call) (running : sv.calls tag = some call)
      (failed : call.failure peer = some next) :
      Reacts unmarshal peers sv (.failure tag peer)
        { server := { sv with calls := Function.update sv.calls tag (some next) } }
  /-- The context of a call is done. -/
  | cancel (tag : Nat) (call : Call) (observed : List Observation)
      (running : sv.calls tag = some call) (cancelled : call.cancel = some observed) :
      Reacts unmarshal peers sv (.cancel tag)
        { server := { sv with calls := Function.update sv.calls tag none }
          observed := observed.map fun observation => (tag, observation) }
  /-- A request is handled. -/
  | serve (packet : Packet) (save : Bool) (answer : RaftNode × Option Body)
      (here : packet.target = sv.node.id) (handled : handle sv.node save packet.body = some answer) :
      Reacts unmarshal peers sv (.serve packet save)
        { server := { sv with node := answer.1 }
          sent := answer.2.toList.map fun body => { packet with body } }
  /-- `Compact` runs. -/
  | compact (snapshot : Bytes) (save : Bool) :
      Reacts unmarshal peers sv (.compact snapshot save) { server := sv.compact save snapshot }
  /-- The process restarts. -/
  | crash : Reacts unmarshal peers sv .crash { server := sv.restart peers }

/-- Nothing else happens. -/
theorem react_cases {unmarshal : Bytes → Option MembershipCommand} {peers : List NodeId} {sv : Server}
    {event : Event} {reaction : Reaction} (reacted : sv.react unmarshal peers event = some reaction) :
    Reacts unmarshal peers sv event reaction := by
  cases event with
  | start kind =>
    obtain rfl := Option.some.inj reacted
    exact .start kind
  | step tag save applied =>
    obtain ⟨call, running, resumed⟩ := Option.bind_eq_some_iff.mp reacted
    obtain ⟨turn, stepped, rfl⟩ := Option.map_eq_some_iff.mp resumed
    exact .step tag save applied call turn running stepped
  | reply packet save =>
    simp only [react] at reacted
    split at reacted
    · rename_i own
      obtain ⟨call, running, resumed⟩ := Option.bind_eq_some_iff.mp reacted
      obtain ⟨turn, replied, rfl⟩ := Option.map_eq_some_iff.mp resumed
      exact .reply packet save call turn own running replied
    · contradiction
  | failure tag peer =>
    obtain ⟨call, running, resumed⟩ := Option.bind_eq_some_iff.mp reacted
    obtain ⟨next, failed, rfl⟩ := Option.map_eq_some_iff.mp resumed
    exact .failure tag peer call next running failed
  | cancel tag =>
    obtain ⟨call, running, resumed⟩ := Option.bind_eq_some_iff.mp reacted
    obtain ⟨observed, cancelled, rfl⟩ := Option.map_eq_some_iff.mp resumed
    exact .cancel tag call observed running cancelled
  | serve packet save =>
    simp only [react] at reacted
    split at reacted
    · rename_i here
      obtain ⟨answer, handled, rfl⟩ := Option.map_eq_some_iff.mp reacted
      exact .serve packet save answer here handled
    · contradiction
  | compact snapshot save =>
    obtain rfl := Option.some.inj reacted
    exact .compact snapshot save
  | crash =>
    obtain rfl := Option.some.inj reacted
    exact .crash

end Server

end Raft

import RvKeyValue.Base.Run
import RvKeyValue.Cluster.Server

/-!
# The cluster

Processes with fixed ids and a network that may delay, reorder and lose messages: a message
stays until it is taken, and nothing forces it to be taken. A step names a process and an
event. What the processes showed is recorded in order.

The conditions under which the properties of the cluster are studied are predicates on a
state and the step about to be taken, so that they can be checked along a run.
-/

namespace Raft

/-- The members of a cluster and the peer list each is started with: exactly the others. `run`
and `parsePeers` of `cmd/node/main.go` reject empty ids. -/
structure Members where
  /-- The members. -/
  ids : List NodeId
  /-- No member is listed twice. -/
  distinct : ids.Nodup
  /-- No member has the empty id. -/
  named : ∀ id ∈ ids, id ≠ ""
  /-- The peer list of each member. -/
  peers : NodeId → List NodeId
  /-- No peer is listed twice. -/
  peersDistinct : ∀ id ∈ ids, (peers id).Nodup
  /-- The peers of a member are the other members. -/
  mem_peers : ∀ id ∈ ids, ∀ peer, peer ∈ peers id ↔ peer ∈ ids ∧ peer ≠ id

/-- A cluster of distinct, named members, each with the others in the listed order as peers. -/
def Members.ofIds (ids : List NodeId) (distinct : ids.Nodup) (named : ∀ id ∈ ids, id ≠ "") :
    Members where
  ids := ids
  distinct := distinct
  named := named
  peers id := ids.filter fun peer => peer ≠ id
  peersDistinct _ _ := distinct.filter _
  mem_peers id _ peer := by simp [List.mem_filter]

/-- Something a call at a node showed. -/
structure Record where
  /-- The node. -/
  node : NodeId
  /-- The call. -/
  tag : Nat
  /-- What it showed. -/
  observation : Observation
deriving DecidableEq, Repr

/-- The processes, the messages on their way and what was observed, oldest first. -/
structure Cluster where
  /-- The processes. -/
  servers : NodeId → Server
  /-- Messages that were sent and not taken yet. -/
  net : List Packet := []
  /-- What was observed. -/
  observed : List Record := []

/-- A step of a run: what happens at which process. -/
structure Label where
  /-- The process. -/
  node : NodeId
  /-- What happens. -/
  event : Event
deriving DecidableEq, Repr

namespace Cluster

/-- Every process has been started on an empty store. -/
def initial (members : Members) : Cluster where
  servers id := { node := newRaftNode id (members.peers id) (some {}) }

/-- The network after an event has taken its message, if that message is there. -/
def take (net : List Packet) : Option Packet → Option (List Packet)
  | none => some net
  | some packet => if packet ∈ net then some (net.erase packet) else none

/-- The cluster after a process reacted. -/
def absorb (c : Cluster) (node : NodeId) (net : List Packet) (reaction : Reaction) : Cluster where
  servers := Function.update c.servers node reaction.server
  net := net ++ reaction.sent
  observed := c.observed ++ reaction.observed.map fun shown => ⟨node, shown.1, shown.2⟩

/-- One step of the cluster. -/
def step (unmarshal : Bytes → Option MembershipCommand) (members : Members) (c : Cluster)
    (label : Label) : Option Cluster :=
  if label.node ∈ members.ids then
    (take c.net label.event.packet).bind fun net =>
      ((c.servers label.node).react unmarshal (members.peers label.node) label.event).map
        fun reaction => c.absorb label.node net reaction
  else none

/-- The message an event takes was on its way, and the others stay. -/
theorem take_some {net rest : List Packet} {packet : Option Packet}
    (taken : take net packet = some rest) :
    (∀ message, packet = some message → message ∈ net) ∧ ∀ other ∈ rest, other ∈ net := by
  cases packet with
  | none =>
    obtain rfl := Option.some.inj taken
    exact ⟨by simp, fun _ listed => listed⟩
  | some message =>
    simp only [take] at taken
    split at taken
    · rename_i present
      obtain rfl := Option.some.inj taken
      refine ⟨fun other same => ?_, fun other listed => List.mem_of_mem_erase listed⟩
      rw [← Option.some.inj same]
      exact present
    · contradiction

/-- What a step of the cluster does: a member reacts. -/
theorem step_some {unmarshal : Bytes → Option MembershipCommand} {members : Members}
    {c c' : Cluster} {label : Label}
    (stepped : c.step unmarshal members label = some c') :
    label.node ∈ members.ids ∧ ∃ net reaction, take c.net label.event.packet = some net ∧
      (c.servers label.node).react unmarshal (members.peers label.node) label.event =
        some reaction ∧ c' = c.absorb label.node net reaction := by
  unfold step at stepped
  split at stepped
  · rename_i inside
    obtain ⟨net, taken, rest⟩ := Option.bind_eq_some_iff.mp stepped
    obtain ⟨reaction, reacted, rfl⟩ := Option.map_eq_some_iff.mp rest
    exact ⟨inside, net, reaction, taken, reacted, rfl⟩
  · contradiction

/-- What is observed after a step was observed before it, or in it at the process that took it. -/
theorem absorb_observed {c : Cluster} {node : NodeId} {net : List Packet} {reaction : Reaction}
    {index : Nat} {record : Record}
    (found : (c.absorb node net reaction).observed[index]? = some record) :
    c.observed[index]? = some record ∨ c.observed.length ≤ index ∧ record.node = node ∧
      (record.tag, record.observation) ∈ reaction.observed := by
  replace found : (c.observed ++ reaction.observed.map fun shown => ⟨node, shown.1, shown.2⟩)[index]?
    = some record := found
  by_cases old : index < c.observed.length
  · rw [List.getElem?_append_left old] at found
    exact Or.inl found
  · rw [List.getElem?_append_right (Nat.le_of_not_lt old)] at found
    obtain ⟨shown, made, rfl⟩ := List.mem_map.mp (List.mem_of_getElem? found)
    exact Or.inr ⟨Nat.le_of_not_lt old, rfl, made⟩

/-- The process that reacted. -/
theorem absorb_own (c : Cluster) (node : NodeId) (net : List Packet) (reaction : Reaction) :
    (c.absorb node net reaction).servers node = reaction.server :=
  Function.update_self ..

/-- The other processes stay as they are. -/
theorem absorb_other (c : Cluster) {node id : NodeId} (net : List Packet) (reaction : Reaction)
    (elsewhere : id ≠ node) : (c.absorb node net reaction).servers id = c.servers id :=
  Function.update_of_ne elsewhere _ _

/-- The call an event advances by its own next section. -/
def stepped (c : Cluster) (label : Label) : Option Call :=
  match label.event with
  | .step tag _ _ => (c.servers label.node).calls tag
  | _ => none

/-- Every `Save` the step makes succeeds. -/
def savesSucceed (label : Label) : Bool :=
  match label.event with
  | .step _ save _ => save
  | .reply _ save => save
  | .serve _ save => save
  | .compact _ save => save
  | _ => true

/-- The step applies no membership change. -/
def membershipFixed (unmarshal : Bytes → Option MembershipCommand) (c : Cluster) (label : Label) :
    Bool :=
  match c.stepped label with
  | some (.apply (.holding entry)) =>
    match decodeMembershipChange unmarshal entry.command with
    | some (.ok _) => false
    | _ => true
  | _ => true

/-- The term a candidate enters is below `2 ^ 64`. -/
def termsFit (c : Cluster) (label : Label) : Bool :=
  match c.stepped label with
  | some (.election .preVoteWon) =>
    decide ((c.servers label.node).node.currentTerm + 1 < Word.limit)
  | _ => true

/-- A step that keeps the membership applies no entry that decodes as a change. -/
theorem membershipFixed_holding {unmarshal : Bytes → Option MembershipCommand} {c : Cluster}
    {label : Label} {tag : Nat} {save applied : Bool} {entry : LogEntry} {change : MembershipChange}
    (fixed : c.membershipFixed unmarshal label = true) (steps : label.event = .step tag save applied)
    (running : (c.servers label.node).calls tag = some (.apply (.holding entry))) :
    decodeMembershipChange unmarshal entry.command ≠ some (.ok change) := by
  intro decoded
  simp [membershipFixed, stepped, steps, running, decoded] at fixed

/-- A candidate whose terms fit enters the next term. -/
theorem termsFit_preVoteWon {c : Cluster} {label : Label} {tag : Nat} {save applied : Bool}
    (fits : c.termsFit label = true) (steps : label.event = .step tag save applied)
    (running : (c.servers label.node).calls tag = some (.election .preVoteWon)) :
    (c.servers label.node).node.currentTerm + 1 < Word.limit := by
  simpa [termsFit, stepped, steps, running] using fits

/-- The index that follows an appended entry is below `2 ^ 64`. -/
def indicesFit (c : Cluster) (label : Label) : Bool :=
  match c.stepped label with
  | some (.propose (.appending _)) =>
    decide ((c.servers label.node).node.lastLogIndexLocked + 2 < Word.limit)
  | _ => true

/-- The step wraps no counter. -/
def nothingWraps (c : Cluster) (label : Label) : Bool := c.termsFit label && c.indicesFit label

/-- `AppendLocal` runs only while the node is leader. -/
def leaderAppends (c : Cluster) (label : Label) : Bool :=
  match c.stepped label with
  | some (.propose (.appending _)) => decide ((c.servers label.node).node.state = .leader)
  | _ => true

/-- A leader records a replication success only for a request of its current term. -/
def successCurrent (c : Cluster) (label : Label) : Bool :=
  match c.stepped label with
  | some (.replicate _ (.recording _ _ req true)) =>
    decide ((c.servers label.node).node.state = .leader →
      req.term = (c.servers label.node).node.currentTerm)
  | _ => true

/-- The step hands a node no request it accepts that carries another term than its log at or below
the index of an entry a proposal on it waits for. -/
def waitingKept (c : Cluster) (label : Label) : Bool :=
  let sv := c.servers label.node
  (List.range sv.nextTag).all fun tag =>
    ((sv.calls tag).bind Call.awaits).all fun entry => !sv.conflicts label.event entry.index

/-- `StartElection` starts only when no other runs on the node. -/
def oneElection (c : Cluster) (label : Label) : Bool :=
  match label.event with
  | .start .election => !(c.servers label.node).runs Call.isElection
  | _ => true

/-- `ApplyCommitted` starts only when no other runs on the node. -/
def oneApplier (c : Cluster) (label : Label) : Bool :=
  match label.event with
  | .start .apply => !(c.servers label.node).runs Call.isApply
  | _ => true

/-- `nextCommittedEntry` runs only when no other `ApplyCommitted` on the node holds an entry it has
fetched and not yet marked. -/
def fetchesAlone (c : Cluster) (label : Label) : Bool :=
  match c.stepped label with
  | some (.apply .fetching) => !(c.servers label.node).runs fun call => call.holds.isSome
  | _ => true

/-- The step hands a node no request it accepts that carries another term than its log at or below
its commit index. -/
def committedKept (c : Cluster) (label : Label) : Bool :=
  let sv := c.servers label.node
  !sv.conflicts label.event sv.node.commitIndex

/-- No call is running on a member. -/
def idle (members : Members) (c : Cluster) : Bool :=
  members.ids.all fun id => !(c.servers id).runs fun _ => true

/-- One call at a time: a call, a compaction or a restart starts when no call is running, and a
request is handled while its call or no call is running. -/
def sequential (members : Members) (c : Cluster) (label : Label) : Bool :=
  match label.event with
  | .start _ => c.idle members
  | .compact _ _ => c.idle members
  | .crash => c.idle members
  | .serve packet _ => c.idle members || ((c.servers packet.source).calls packet.tag).isSome
  | _ => true

end Cluster

/-- One member. -/
def oneNode : Members := .ofIds ["A"] (by decide) (by decide)

/-- Three members. -/
def threeNodes : Members := .ofIds ["A", "B", "C"] (by decide) (by decide)

/-- Five members. -/
def fiveNodes : Members := .ofIds ["A", "B", "C", "D", "E"] (by decide) (by decide)

namespace Label

/-- A call takes a number of sections, with every `Save` and `sm.Apply` succeeding. -/
def sections (node : NodeId) (tag count : Nat) : List Label :=
  List.replicate count ⟨node, .step tag true true⟩

/-- The only member elects itself and commits commands, with calls numbered from zero. -/
def commitAlone (node : NodeId) (commands : List Bytes) : List Label :=
  [⟨node, .start .election⟩] ++ sections node 0 6 ++
    commands.zipIdx.flatMap fun command =>
      [⟨node, .start (.propose command.1)⟩] ++ sections node (command.2 + 1) 3

/-- An RPC is served and its response delivered. -/
def rpc (source target : NodeId) (tag : Nat) (request response : Body) : List Label :=
  [⟨target, .serve ⟨source, target, tag, request⟩ true⟩,
    ⟨source, .reply ⟨source, target, tag, response⟩ true⟩]

/-- An election in a term on a log with the given last index and term, won with the votes of the
listed peers; each is listed with the term it is in before. -/
def campaign (node : NodeId) (tag term lastIndex lastTerm : Nat) (voters : List (NodeId × Nat)) :
    List Label :=
  [⟨node, .start .election⟩] ++ sections node tag 3 ++
    (voters.flatMap fun voter => rpc node voter.1 tag
      (.preVoteRequest ⟨term, node, lastIndex, lastTerm⟩)
      (.preVoteResponse ⟨term, node, lastIndex, lastTerm⟩ ⟨voter.2, true⟩)) ++
    sections node tag 2 ++
    (voters.flatMap fun voter => rpc node voter.1 tag
      (.voteRequest ⟨term, node, lastIndex, lastTerm⟩)
      (.voteResponse ⟨term, node, lastIndex, lastTerm⟩ ⟨term, true⟩) ++ sections node tag 1) ++
    sections node tag 1

end Label

end Raft

import RvKeyValue.Base.Ballot
import RvKeyValue.Cluster.ElectionSafety
import RvKeyValue.Cluster.Operations
import RvKeyValue.Node.Recovery

/-!
# A process and its elections

`StartElection` reads the node twice and writes it once, in sections of their own, and then acts on
what it has read. To say what a request or a promotion rests on, a process is run here together with
the messages it has taken and the records its elections have read and left. The code keeps none of
that: it is there for the statements.

In every run of a process, whatever it is sent: an election that has won its pre-vote has the grants
of enough of the peers it read, and so has one that goes on to `promoteCandidate`.
-/

namespace Raft

open Transition (Reach)

/-- The process after an event. -/
def Server.next (unmarshal : Bytes → Option MembershipCommand) (peers : List NodeId) (sv : Server)
    (event : Event) : Option Server :=
  (sv.react unmarshal peers event).map Reaction.server

/-- Whether an event applies a membership change. -/
def Server.reconfigures (unmarshal : Bytes → Option MembershipCommand) (sv : Server) : Event → Bool
  | .step tag _ _ =>
    match sv.calls tag with
    | some (.apply (.holding entry)) =>
      match decodeMembershipChange unmarshal entry.command with
      | some (.ok _) => true
      | _ => false
    | _ => false
  | _ => false

/-- What a call of `StartElection` has behind it. -/
structure Trail where
  /-- The messages the process had taken when the call started. -/
  before : List Packet := []
  /-- The record when the call started. -/
  began : Option RaftNode := none
  /-- The record `electionSnapshot` read in `PreVoteElection`. -/
  polled : Option RaftNode := none
  /-- The record `BecomeCandidate` left. -/
  entered : Option RaftNode := none
  /-- The record `electionSnapshot` read in `StartElection`. -/
  asked : Option RaftNode := none

/-- A process with the messages it has taken and the trails of its calls. -/
structure Watched where
  /-- The process. -/
  server : Server
  /-- The requests it has handled and the responses that reached their calls, oldest first. -/
  taken : List Packet := []
  /-- The trail of each call. -/
  trails : Nat → Trail := fun _ => {}

/-- The trail of a call after its next section, with the record before and after it. -/
def Trail.mark (trail : Trail) (call : Option Call) (before after : RaftNode) : Trail :=
  match call with
  | some (.election .preVoteReading) => { trail with polled := some before }
  | some (.election .preVoteWon) => { trail with entered := some after }
  | some (.election .campaigning) => { trail with asked := some before }
  | _ => trail

/-- A record is one of those a call has read or left. -/
def Trail.Holds (trail : Trail) (record : RaftNode) : Prop :=
  trail.polled = some record ∨ trail.entered = some record ∨ trail.asked = some record

namespace Watched

/-- A process that was just started. -/
def started (n : RaftNode) : Watched := { server := { node := n } }

/-- The trails after an event. -/
def trailsAfter (w : Watched) (event : Event) (after : RaftNode) : Nat → Trail :=
  match event with
  | .start _ => Function.update w.trails w.server.nextTag
    { before := w.taken, began := some w.server.node }
  | .step tag _ _ =>
    Function.update w.trails tag ((w.trails tag).mark (w.server.calls tag) w.server.node after)
  | _ => w.trails

/-- The process after an event, with what it has taken and the trails. -/
def next (unmarshal : Bytes → Option MembershipCommand) (peers : List NodeId) (w : Watched)
    (event : Event) : Option Watched :=
  (w.server.next unmarshal peers event).map fun server =>
    { server, taken := w.taken ++ event.packet.toList, trails := w.trailsAfter event server.node }

end Watched

/-- A peer has answered a pre-vote request of a call with a grant. -/
def PreVoted (taken : List Packet) (tag : Nat) (req : PreVoteRequest) (peer : NodeId) : Prop :=
  ∃ source resp, (⟨source, peer, tag, .preVoteResponse req resp⟩ : Packet) ∈ taken ∧
    resp.voteGranted = true

/-- A peer has answered a vote request of a call with a grant. -/
def Voted (taken : List Packet) (tag : Nat) (req : RequestVoteRequest) (peer : NodeId) : Prop :=
  ∃ source resp, (⟨source, peer, tag, .voteResponse req resp⟩ : Packet) ∈ taken ∧
    resp.voteGranted = true

/-- What is true of a call of `StartElection` at each stage, by its trail and the messages taken. -/
def Trail.Walked (trail : Trail) (taken : List Packet) (tag : Nat) : ElectionStage → Prop
  | .preVoting req clusterSize votes waiting => ∃ n, trail.polled = some n ∧
      req = n.preVoteRequest ∧ clusterSize = n.peers.length + 1 ∧
      Ballot.Count n.peers (PreVoted taken tag req) votes waiting
  | .preVoteWon => ∃ n, trail.polled = some n ∧
      Ballot.Carried n.peers (PreVoted taken tag n.preVoteRequest) (majority (n.peers.length + 1))
  | .campaigning => ∃ n save, trail.entered = some (RaftNode.becomeCandidate n save).node ∧
      (n.becomeCandidate save).err = none
  | .voting req clusterSize votes waiting => ∃ n, trail.asked = some n ∧ req = n.voteRequest ∧
      clusterSize = n.peers.length + 1 ∧ Ballot.Count n.peers (Voted taken tag req) votes waiting
  | .voteReceived req clusterSize votes waiting peer voteGranted => ∃ n, trail.asked = some n ∧
      req = n.voteRequest ∧ clusterSize = n.peers.length + 1 ∧
      Ballot.Count n.peers (Voted taken tag req) votes (peer :: waiting) ∧
      (voteGranted = true → Voted taken tag req peer)
  | .winning term => ∃ n, trail.asked = some n ∧ term = n.currentTerm ∧
      Ballot.Carried n.peers (Voted taken tag n.voteRequest) (majority (n.peers.length + 1))
  | _ => True

section

variable {unmarshal : Bytes → Option MembershipCommand} {peers : List NodeId} {n : RaftNode}
  {trail : Trail} {taken taken' : List Packet} {tag : Nat}

/-- More messages do not matter. -/
theorem Trail.Walked.more {stage : ElectionStage} (walked : trail.Walked taken tag stage)
    (more : taken ⊆ taken') : trail.Walked taken' tag stage := by
  have preVoted : ∀ req peer, PreVoted taken tag req peer → PreVoted taken' tag req peer :=
    fun _ _ ⟨source, resp, heard, granted⟩ => ⟨source, resp, more heard, granted⟩
  have voted : ∀ req peer, Voted taken tag req peer → Voted taken' tag req peer :=
    fun _ _ ⟨source, resp, heard, granted⟩ => ⟨source, resp, more heard, granted⟩
  cases stage with
  | preVoting req clusterSize votes waiting =>
    obtain ⟨n, read, same, size, count⟩ := walked
    exact ⟨n, read, same, size, count.imp (preVoted req)⟩
  | preVoteWon =>
    obtain ⟨n, read, carried⟩ := walked
    exact ⟨n, read, carried.imp (preVoted _)⟩
  | campaigning => exact walked
  | voting req clusterSize votes waiting =>
    obtain ⟨n, read, same, size, count⟩ := walked
    exact ⟨n, read, same, size, count.imp (voted req)⟩
  | voteReceived req clusterSize votes waiting peer voteGranted =>
    obtain ⟨n, read, same, size, count, heard⟩ := walked
    exact ⟨n, read, same, size, count.imp (voted req), fun granted => voted _ _ (heard granted)⟩
  | winning term =>
    obtain ⟨n, read, same, carried⟩ := walked
    exact ⟨n, read, same, carried.imp (voted _)⟩
  | starting => trivial
  | preVoteStarting => trivial
  | preVoteReading => trivial

/-- A section of `StartElection`. -/
theorem Trail.Walked.step {stage stage' : ElectionStage} {save : Bool} {turn : Turn}
    (walked : trail.Walked taken tag stage) (stepped : Call.electionStep n save stage = some turn)
    (goes : turn.call = some (.election stage')) :
    (trail.mark (some (.election stage)) n turn.node).Walked taken tag stage' := by
  cases stage with
  | starting =>
    obtain rfl := Option.some.inj stepped
    split at goes
    · cases goes
      trivial
    · contradiction
  | preVoteStarting =>
    obtain rfl := Option.some.inj stepped
    split at goes
    · cases goes
      trivial
    · contradiction
  | preVoteReading =>
    obtain rfl := Option.some.inj stepped
    split at goes
    · rename_i alone
      cases goes
      exact ⟨n, rfl, .alone _ _ alone⟩
    · cases goes
      exact ⟨n, rfl, rfl, rfl, .start _ _⟩
  | preVoting req clusterSize votes waiting =>
    cases waiting with
    | nil =>
      obtain rfl := Option.some.inj stepped
      contradiction
    | cons peer rest => contradiction
  | preVoteWon =>
    obtain rfl := Option.some.inj stepped
    split at goes
    · contradiction
    · rename_i saved
      cases goes
      refine ⟨n, save, ?_, Option.not_isSome_iff_eq_none.mp saved⟩
      rw [if_neg saved]
      rfl
  | campaigning =>
    obtain rfl := Option.some.inj stepped
    split at goes
    · rename_i alone
      cases goes
      exact ⟨n, rfl, rfl, .alone _ _ alone⟩
    · cases goes
      exact ⟨n, rfl, rfl, rfl, .start _ _⟩
  | voting req clusterSize votes waiting =>
    cases waiting with
    | nil =>
      obtain rfl := Option.some.inj stepped
      contradiction
    | cons peer rest => contradiction
  | voteReceived req clusterSize votes waiting peer voteGranted =>
    obtain ⟨asked, read, same, size, count, heard⟩ := walked
    obtain rfl := Option.some.inj stepped
    split at goes
    · contradiction
    split at goes
    · cases goes
      exact ⟨asked, read, same, size, count.drop⟩
    rename_i granted
    have counted := count.grant (heard (by simpa using granted))
    split at goes
    · rename_i enough
      cases goes
      refine ⟨asked, read, by rw [same]; rfl, ?_⟩
      rw [← same, ← size]
      exact counted.carried enough
    · cases goes
      exact ⟨asked, read, same, size, counted⟩
  | winning term =>
    obtain rfl := Option.some.inj stepped
    contradiction

/-- A response that reaches `StartElection`. -/
theorem Trail.Walked.reply {stage stage' : ElectionStage} {save : Bool} {packet : Packet} {turn : Turn}
    (walked : trail.Walked taken packet.tag stage)
    (replied : Call.reply n save packet.target (.election stage) packet.body = some turn)
    (goes : turn.call = some (.election stage')) :
    trail.Walked (taken ++ [packet]) packet.tag stage' := by
  obtain ⟨source, peer, tag, body⟩ := packet
  dsimp only at walked replied ⊢
  have more : taken ⊆ taken ++ [⟨source, peer, tag, body⟩] := List.subset_append_left ..
  cases stage with
  | preVoting req clusterSize votes waiting =>
    cases body with
    | preVoteResponse asked resp =>
      obtain ⟨n, read, same, size, count⟩ := walked.more more
      simp only [Call.reply] at replied
      split at replied
      · rename_i awaited
        obtain ⟨rfl, listed⟩ := awaited
        have next := count.perm (List.perm_cons_erase listed)
        obtain rfl := Option.some.inj replied
        split at goes
        · contradiction
        split at goes
        · cases goes
          exact ⟨n, read, same, size, next.drop⟩
        rename_i granted
        have counted := next.grant ⟨source, resp, by simp, by simpa using granted⟩
        split at goes
        · rename_i enough
          cases goes
          refine ⟨n, read, ?_⟩
          rw [← same, ← size]
          exact counted.carried enough
        · cases goes
          exact ⟨n, read, same, size, counted⟩
      · contradiction
    | _ => contradiction
  | voting req clusterSize votes waiting =>
    cases body with
    | voteResponse asked resp =>
      obtain ⟨n, read, same, size, count⟩ := walked.more more
      simp only [Call.reply] at replied
      split at replied
      · rename_i awaited
        obtain ⟨rfl, listed⟩ := awaited
        have next := count.perm (List.perm_cons_erase listed)
        obtain rfl := Option.some.inj replied
        split at goes
        · contradiction
        · cases goes
          exact ⟨n, read, same, size, next, fun granted => ⟨source, resp, by simp, granted⟩⟩
      · contradiction
    | _ => contradiction
  | _ => contradiction

/-- An RPC of `StartElection` that returns an error. -/
theorem Trail.Walked.failure {stage stage' : ElectionStage} {peer : NodeId}
    (walked : trail.Walked taken tag stage)
    (failed : Call.failure peer (.election stage) = some (.election stage')) :
    trail.Walked taken tag stage' := by
  cases stage with
  | preVoting req clusterSize votes waiting =>
    obtain ⟨n, read, same, size, count⟩ := walked
    simp only [Call.failure] at failed
    split at failed
    · rename_i listed
      cases failed
      exact ⟨n, read, same, size, (count.perm (List.perm_cons_erase listed)).drop⟩
    · contradiction
  | voting req clusterSize votes waiting =>
    obtain ⟨n, read, same, size, count⟩ := walked
    simp only [Call.failure] at failed
    split at failed
    · rename_i listed
      cases failed
      exact ⟨n, read, same, size, (count.perm (List.perm_cons_erase listed)).drop⟩
    · contradiction
  | _ => contradiction

/-- How an election comes to stand where it stands after an event. -/
inductive Server.Advances (sv : Server) (event : Event) (after : RaftNode) (tag : Nat) :
    ElectionStage → Prop
  /-- It stood there before, and the event is of another call. -/
  | kept {stage : ElectionStage} (ran : sv.calls tag = some (.election stage))
      (running : event ≠ .crash) (apart : ∀ save applied, event ≠ .step tag save applied)
      (older : ∀ kind, event = .start kind → tag ≠ sv.nextTag) : sv.Advances event after tag stage
  /-- It was started. -/
  | started (starts : event = .start .election) (here : tag = sv.nextTag) :
      sv.Advances event after tag .starting
  /-- It took a section. -/
  | stepped {stage stage' : ElectionStage} {save applied : Bool} {turn : Turn}
      (steps : event = .step tag save applied) (ran : sv.calls tag = some (.election stage))
      (turned : Call.electionStep sv.node save stage = some turn)
      (goes : turn.call = some (.election stage')) (left : turn.node = after) :
      sv.Advances event after tag stage'
  /-- It got a response. -/
  | replied {stage stage' : ElectionStage} {save : Bool} {packet : Packet} {turn : Turn}
      (replies : event = .reply packet save) (own : packet.tag = tag)
      (ran : sv.calls tag = some (.election stage))
      (turned : Call.reply sv.node save packet.target (.election stage) packet.body = some turn)
      (goes : turn.call = some (.election stage')) : sv.Advances event after tag stage'
  /-- An RPC of it returned an error. -/
  | failed {stage stage' : ElectionStage} {peer : NodeId} (fails : event = .failure tag peer)
      (ran : sv.calls tag = some (.election stage))
      (moved : Call.failure peer (.election stage) = some (.election stage')) :
      sv.Advances event after tag stage'

/-- An election after a step has advanced to where it stands. -/
theorem Server.react_election {sv : Server} {event : Event} {reaction : Reaction} {stage : ElectionStage}
    (reacted : sv.react unmarshal peers event = some reaction)
    (runs : reaction.server.calls tag = some (.election stage)) :
    sv.Advances event reaction.server.node tag stage := by
  cases Server.react_cases reacted with
  | start kind =>
    rcases Server.call_updated runs with ⟨here, started⟩ | ⟨other, before⟩
    · cases kind with
      | election =>
        cases started
        exact .started rfl here
      | _ => cases started
    · exact .kept before (by simp) (by simp) fun _ _ => other
  | step position save applied old turn ran turned =>
    rcases Server.call_updated runs with ⟨rfl, goes⟩ | ⟨other, before⟩
    · cases old with
      | election stage => exact .stepped rfl ran turned goes rfl
      | _ => exact absurd (Call.step_kind turned goes) (by simp [Call.isElection])
    · refine .kept before (by simp) (fun save applied same => ?_) (by simp)
      cases same
      exact other rfl
  | reply packet save old turn _ ran turned =>
    rcases Server.call_updated runs with ⟨rfl, goes⟩ | ⟨other, before⟩
    · cases old with
      | election stage => exact .replied rfl rfl ran turned goes
      | _ => exact absurd (Call.reply_kind turned goes) (by simp [Call.isElection])
    · exact .kept before (by simp) (by simp) (by simp)
  | failure position peer old next ran failed =>
    rcases Server.call_updated runs with ⟨rfl, goes⟩ | ⟨other, before⟩
    · obtain rfl := Option.some.inj goes
      cases old with
      | election stage => exact .failed rfl ran failed
      | _ => exact absurd (Call.failure_kind failed) (by simp [Call.isElection])
    · exact .kept before (by simp) (by simp) (by simp)
  | cancel position old observed ran _ =>
    rcases Server.call_updated runs with ⟨-, goes⟩ | ⟨-, before⟩
    · contradiction
    · exact .kept before (by simp) (by simp) (by simp)
  | serve packet save answer _ _ =>
    exact .kept runs (by simp) (by simp) (by simp)
  | compact snapshot save =>
    exact .kept runs (by simp) (by simp) (by simp)
  | crash =>
    contradiction

/-- `replicateOnce` sends nothing when it returns. -/
theorem Call.replicated_sent (n : RaftNode) (owner : Option LogEntry) :
    (Call.replicated n owner).sent = [] := by
  cases owner <;> rfl

/-- So it does with an error. -/
theorem Call.replicateFailed_sent (n : RaftNode) (err : Option RaftError) (owner : Option LogEntry) :
    (Call.replicateFailed n err owner).sent = [] := by
  cases owner <;> rfl

/-- What a section sends: `replicateOnce` sends `AppendEntries`, and `StartElection` its two requests,
each when it reads the record. -/
theorem Call.step_asks {call : Call} {save applied : Bool} {turn : Turn}
    (stepped : call.step unmarshal n save applied = some turn) {message : NodeId × Body}
    (sent : message ∈ turn.sent) :
    (∃ req, message.2 = .appendRequest req) ∨
      call = .election .preVoteReading ∧ message.2 = .preVoteRequest n.preVoteRequest ∨
      call = .election .campaigning ∧ message.2 = .voteRequest n.voteRequest := by
  cases call with
  | election stage =>
    simp only [Call.step, Call.electionStep] at stepped
    split at stepped <;> cases stepped
    case h_3 =>
      split at sent
      · simp [Call.campaign] at sent
      · obtain ⟨peer, -, rfl⟩ := List.mem_map.mp sent
        exact Or.inr (Or.inl ⟨rfl, rfl⟩)
    case h_7 =>
      split at sent
      · simp [Call.campaign] at sent
      · obtain ⟨peer, -, rfl⟩ := List.mem_map.mp sent
        exact Or.inr (Or.inr ⟨rfl, rfl⟩)
    all_goals
      repeat' split at sent
      all_goals simp [Call.campaign] at sent
  | propose stage =>
    simp only [Call.step, Call.proposeStep] at stepped
    split at stepped <;> cases stepped
    all_goals
      repeat' split at sent
      all_goals simp [Call.pursue, Call.fail, Call.spread] at sent
  | replicate owner stage =>
    obtain ⟨req, same⟩ : ∃ req, message.2 = .appendRequest req := by
      simp only [Call.step, Call.replicateStep] at stepped
      split at stepped
      case h_3 =>
        cases stepped
        obtain ⟨request, -, rfl⟩ := List.mem_map.mp sent
        exact ⟨_, rfl⟩
      all_goals
        repeat' split at stepped
        all_goals cases stepped
        all_goals simp [Call.spread, Call.replicated_sent, Call.replicateFailed_sent] at sent
    exact Or.inl ⟨req, same⟩
  | apply stage =>
    simp only [Call.step, Call.applyStep] at stepped
    split at stepped <;> cases stepped
    all_goals
      repeat' split at sent
      all_goals simp at sent

/-- A response makes a call send nothing. -/
theorem Call.reply_sent {call : Call} {save : Bool} {peer : NodeId} {body : Body} {turn : Turn}
    (replied : call.reply n save peer body = some turn) : turn.sent = [] := by
  unfold Call.reply at replied
  split at replied
  all_goals try split at replied
  all_goals cases replied
  · repeat' split
    all_goals rfl
  · split <;> rfl
  · repeat' split
    all_goals first
      | rfl
      | exact Call.replicated_sent _ _
      | exact Call.replicateFailed_sent _ _ _

/-- A process asks for votes in the section in which `StartElection` reads the record: there, and for
what that record says. -/
theorem Server.react_sends {sv : Server} {event : Event} {reaction : Reaction} {packet : Packet}
    (reacted : sv.react unmarshal peers event = some reaction) (sent : packet ∈ reaction.sent) :
    (∀ req, packet.body = .preVoteRequest req → ∃ save applied, event = .step packet.tag save applied ∧
      sv.calls packet.tag = some (.election .preVoteReading) ∧ req = sv.node.preVoteRequest) ∧
    ∀ req, packet.body = .voteRequest req → ∃ save applied, event = .step packet.tag save applied ∧
      sv.calls packet.tag = some (.election .campaigning) ∧ req = sv.node.voteRequest := by
  cases Server.react_cases reacted with
  | start kind =>
    simp at sent
  | step tag save applied call turn ran turned =>
    obtain ⟨message, listed, rfl⟩ := List.mem_map.mp sent
    dsimp only
    rcases Call.step_asks turned listed with ⟨req, same⟩ | ⟨rfl, same⟩ | ⟨rfl, same⟩
    · simp [same]
    · refine ⟨fun req body => ⟨save, applied, rfl, ran, ?_⟩, by simp [same]⟩
      rw [same] at body
      exact (Body.preVoteRequest.inj body).symm
    · refine ⟨by simp [same], fun req body => ⟨save, applied, rfl, ran, ?_⟩⟩
      rw [same] at body
      exact (Body.voteRequest.inj body).symm
  | reply message save call turn _ ran turned =>
    simp [Server.resume, Call.reply_sent turned] at sent
  | failure tag peer call next ran failed =>
    simp at sent
  | cancel tag call observed ran cancelled =>
    simp at sent
  | serve message save answer _ handled =>
    obtain ⟨body, answered, rfl⟩ := List.mem_map.mp sent
    dsimp only
    -- a handler answers with a response
    cases asked : message.body <;> rw [asked] at handled <;> cases handled
    all_goals
      try split at answered
      all_goals simp at answered
    all_goals simp [answered]
  | compact snapshot save =>
    simp at sent
  | crash =>
    simp at sent

/-- The only operation of a process that changes the membership applies a fetched entry. -/
theorem Server.operation_reconfigures {sv : Server} {event : Event} {op : Operation}
    (performed : sv.operation event = some op) (changes : op.reconfigures = true) :
    ∃ tag save applied entry, event = .step tag save applied ∧
      sv.calls tag = some (.apply (.holding entry)) ∧ op = .applyEntry entry := by
  have served : ∀ body : Body, body.operation ≠ some op := by
    intro body same
    cases body <;> cases same <;> contradiction
  cases event with
  | step tag save applied =>
    obtain ⟨call, ran, same⟩ := Option.bind_eq_some_iff.mp performed
    unfold Call.operation at same
    split at same <;> cases same
    all_goals first
      | contradiction
      | exact ⟨tag, save, applied, _, rfl, ran, rfl⟩
  | reply packet save => exact absurd performed (served packet.body)
  | serve packet save => exact absurd performed (served packet.body)
  | compact snapshot save =>
    cases performed
    contradiction
  | start kind => contradiction
  | failure tag peer => contradiction
  | cancel tag => contradiction
  | crash => contradiction

/-- A step that applies no membership change and is no restart keeps the membership. -/
theorem Server.react_membership {sv : Server} {event : Event} {reaction : Reaction}
    (fixed : sv.reconfigures unmarshal event = false) (running : event ≠ .crash)
    (reacted : sv.react unmarshal peers event = some reaction) :
    reaction.server.node.peers = sv.node.peers ∧
      reaction.server.node.selfMember = sv.node.selfMember ∧
      reaction.server.node.membershipConfigured = sv.node.membershipConfigured := by
  rw [Server.react_node running reacted]
  cases performed : sv.operation event with
  | none => exact ⟨rfl, rfl, rfl⟩
  | some op =>
    by_cases changes : op.reconfigures = true
    · -- the only such operation of a process applies an entry, and here the entry is no change
      obtain ⟨tag, save, applied, entry, rfl, ran, rfl⟩ := Server.operation_reconfigures performed changes
      have same : sv.node.applyEntry unmarshal save entry = sv.node := by
        rcases sv.node.applyEntry_cases save unmarshal entry with kept | ⟨change, -, decoded, -⟩
        · exact kept
        · simp [Server.reconfigures, ran, decoded] at fixed
      show (sv.node.applyEntry unmarshal save entry).peers = _ ∧ _ ∧ _
      exact ⟨congrArg RaftNode.peers same, congrArg RaftNode.selfMember same,
        congrArg RaftNode.membershipConfigured same⟩
    · exact (sv.node.perform_prepared unmarshal _ _).membership (by simpa using changes)

/-- A process moves its record as a node does. -/
theorem Server.react_reach {sv : Server} {event : Event} {reaction : Reaction}
    (reacted : sv.react unmarshal peers event = some reaction)
    (before : Reach (RaftNode.next unmarshal peers) (fun _ _ => True) n sv.node) :
    Reach (RaftNode.next unmarshal peers) (fun _ _ => True) n reaction.server.node := by
  by_cases crashed : event = .crash
  · subst crashed
    obtain rfl := Option.some.inj reacted
    have built : sv.node.next unmarshal peers .restart = some (sv.restart peers).node := rfl
    exact .next before trivial built
  · rw [Server.react_node crashed reacted]
    cases sv.operation event with
    | none => exact before
    | some op =>
      have moved : sv.node.next unmarshal peers (.perform op event.save) =
          some (sv.node.perform unmarshal event.save op) := rfl
      exact .next before trivial moved

namespace Watched

variable {w w' : Watched} {event : Event} {guard : Watched → Event → Prop}

/-- A step of a watched process is one of the process. -/
theorem next_some (stepped : w.next unmarshal peers event = some w') :
    ∃ reaction, w.server.react unmarshal peers event = some reaction ∧ w' =
      { server := reaction.server, taken := w.taken ++ event.packet.toList
        trails := w.trailsAfter event reaction.server.node } := by
  obtain ⟨server, moved, rfl⟩ := Option.map_eq_some_iff.mp stepped
  obtain ⟨reaction, reacted, rfl⟩ := Option.map_eq_some_iff.mp moved
  exact ⟨reaction, reacted, rfl⟩

/-- The trail of a call that takes no section. -/
theorem trailsAfter_other {after : RaftNode} {tag : Nat}
    (apart : ∀ save applied, event ≠ .step tag save applied)
    (older : ∀ kind, event = .start kind → tag ≠ w.server.nextTag) :
    w.trailsAfter event after tag = w.trails tag := by
  unfold trailsAfter
  split
  · exact Function.update_of_ne (older _ rfl) _ _
  · refine Function.update_of_ne (fun here => ?_) _ _
    exact apart _ _ (by rw [here])
  · rfl

/-- The records a call holds after an event are those it held, the one before the event and the one
after it. -/
theorem holds_next {after record : RaftNode} {tag : Nat}
    (held : (w.trailsAfter event after tag).Holds record) :
    (w.trails tag).Holds record ∨ record = w.server.node ∨ record = after := by
  unfold trailsAfter at held
  split at held
  · by_cases here : tag = w.server.nextTag
    · rw [here, Function.update_self] at held
      simp [Trail.Holds] at held
    · rw [Function.update_of_ne here] at held
      exact Or.inl held
  · rename_i position save applied
    by_cases here : tag = position
    · rw [here, Function.update_self] at held
      rw [here]
      unfold Trail.mark at held
      split at held
      · rcases held with read | left | read
        · exact Or.inr (Or.inl (Option.some.inj read).symm)
        · exact Or.inl (Or.inr (Or.inl left))
        · exact Or.inl (Or.inr (Or.inr read))
      · rcases held with read | left | read
        · exact Or.inl (Or.inl read)
        · exact Or.inr (Or.inr (Option.some.inj left).symm)
        · exact Or.inl (Or.inr (Or.inr read))
      · rcases held with read | left | read
        · exact Or.inl (Or.inl read)
        · exact Or.inl (Or.inr (Or.inl left))
        · exact Or.inr (Or.inl (Option.some.inj read).symm)
      · exact Or.inl held
    · rw [Function.update_of_ne here] at held
      exact Or.inl held
  · exact Or.inl held

/-- The record of a process, and those its calls hold, are records the node has had. -/
theorem records (run : Reach (Watched.next unmarshal peers) guard (Watched.started n) w) :
    Reach (RaftNode.next unmarshal peers) (fun _ _ => True) n w.server.node ∧
      ∀ tag record, (w.trails tag).Holds record →
        Reach (RaftNode.next unmarshal peers) (fun _ _ => True) n record := by
  refine run.invariant (P := fun w => Reach (RaftNode.next unmarshal peers) (fun _ _ => True) n
    w.server.node ∧ ∀ tag record, (w.trails tag).Holds record →
      Reach (RaftNode.next unmarshal peers) (fun _ _ => True) n record) ?_ ?_
  · refine ⟨.start, fun tag record held => ?_⟩
    simp [Trail.Holds, started] at held
  · intro before after event known _ stepped
    obtain ⟨reaction, reacted, rfl⟩ := next_some stepped
    have reached := Server.react_reach reacted known.1
    refine ⟨reached, fun tag record held => ?_⟩
    rcases holds_next held with old | rfl | rfl
    · exact known.2 tag record old
    · exact known.1
    · exact reached

/-- Every election has behind it what its stage says. -/
def Told (w : Watched) : Prop := ∀ tag stage, w.server.calls tag = some (.election stage) →
  (w.trails tag).Walked w.taken tag stage

/-- A step of the process. -/
theorem Told.next (told : w.Told) (stepped : w.next unmarshal peers event = some w') : w'.Told := by
  obtain ⟨reaction, reacted, rfl⟩ := next_some stepped
  intro tag stage runs
  have more : w.taken ⊆ w.taken ++ event.packet.toList := List.subset_append_left ..
  cases Server.react_election reacted runs with
  | kept ran running apart older =>
    dsimp only
    rw [trailsAfter_other apart older]
    exact (told tag stage ran).more more
  | started starts here => trivial
  | stepped steps ran turned goes left =>
    subst steps
    refine Trail.Walked.more ?_ more
    show Trail.Walked (Function.update w.trails tag _ tag) _ _ _
    rw [Function.update_self, ran, ← left]
    exact (told tag _ ran).step turned goes
  | replied replies own ran turned goes =>
    subst replies own
    exact (told _ _ ran).reply turned goes
  | failed fails ran moved =>
    subst fails
    exact ((told tag _ ran).failure moved).more more

/-- Every election of every run. -/
theorem Told.reach (run : Reach (Watched.next unmarshal peers) guard (Watched.started n) w) : w.Told := by
  refine run.invariant (fun tag stage running => ?_) fun _ _ _ told _ stepped => told.next stepped
  cases running

end Watched

end

end Raft

import RvKeyValue.Cluster.Enrolled
import RvKeyValue.Cluster.LeaderHints
import RvKeyValue.Cluster.Rules
import RvKeyValue.Cluster.Tenure

/-!
# Who can depose a leader

A leader stops leading its term when it hears of a later one, when it crashes, and when it starts an
election itself. `HandleAppendEntries` would also make a leader follow a request of its own term, but
there is no such request: the node that was promoted in a term is the only one that sends requests of
that term, and it sends them to its peers.
-/

namespace Raft

open Transition (Reach)

section

variable {unmarshal : Bytes → Option MembershipCommand} {n : RaftNode} {id : NodeId}
  {peers : List NodeId}

/-- A round sends the requests it has built to the peers it has built them for. -/
theorem Call.step_posts {save applied : Bool} {call : Call} {turn : Turn} {peer : NodeId}
    {req : AppendEntriesRequest} (stepped : call.step unmarshal n save applied = some turn)
    (sent : (peer, .appendRequest req) ∈ turn.sent) : (peer, req) ∈ call.requests := by
  cases call with
  | election stage =>
    rcases Call.step_asks stepped sent with ⟨_, same⟩ | ⟨_, same⟩ | ⟨_, same⟩
    all_goals cases same
    simp only [Call.step, Call.electionStep] at stepped
    split at stepped <;> cases stepped
    all_goals
      repeat' split at sent
      all_goals simp [Call.campaign] at sent
  | propose stage =>
    simp only [Call.step, Call.proposeStep] at stepped
    split at stepped <;> cases stepped
    all_goals
      repeat' split at sent
      all_goals simp [Call.pursue, Call.fail, Call.spread] at sent
  | replicate owner stage =>
    simp only [Call.step, Call.replicateStep] at stepped
    split at stepped
    case h_3 requests =>
      cases stepped
      obtain ⟨request, listed, same⟩ := List.mem_map.mp sent
      cases same
      exact listed
    all_goals
      repeat' split at stepped
      all_goals cases stepped
      all_goals simp [Call.spread, Call.replicated_sent, Call.replicateFailed_sent] at sent
  | apply stage =>
    simp only [Call.step, Call.applyStep] at stepped
    split at stepped <;> cases stepped
    all_goals
      repeat' split at sent
      all_goals simp at sent

/-- The requests of a process are for its peers and name it. -/
def Server.Addressed (members : Members) (id : NodeId) (sv : Server) : Prop :=
  ∀ tag call, sv.calls tag = some call → ∀ request ∈ call.requests,
    request.1 ∈ members.peers id ∧ request.2.leaderID = id

/-- A request to append entries is to a peer of the leader it names. -/
def Packet.Addressed (members : Members) (packet : Packet) : Prop :=
  ∀ req, packet.body = .appendRequest req → packet.target ∈ members.peers req.leaderID

variable {members : Members} {sv : Server} {event : Event} {reaction : Reaction}

/-- A process with fixed members goes on so. -/
theorem Server.Addressed.react (addressed : sv.Addressed members id) (enrolled : Enrolled members id sv)
    (asks : sv.Asks reaction) (reacted : sv.react unmarshal peers event = some reaction) :
    reaction.server.Addressed members id ∧ ∀ packet ∈ reaction.sent, packet.Addressed members := by
  refine ⟨fun tag call running request listed => ?_, fun packet listed req same => ?_⟩
  · rcases asks.calls tag call running request listed with ⟨old, ran, was⟩ | built
    · exact addressed tag old ran request was
    · -- a request can be built for a peer only
      have peer := ((enrolled.coherent.builds request.1).mp ⟨request.2, built⟩).2
      rw [enrolled.peers] at peer
      exact ⟨peer, (RaftNode.buildAppendEntries_signed built).trans enrolled.own⟩
  · cases Server.react_cases reacted with
    | step tag save applied call turn running turned =>
      obtain ⟨⟨peer, body⟩, sent, rfl⟩ := List.mem_map.mp listed
      obtain rfl : body = .appendRequest req := same
      obtain ⟨target, signed⟩ := addressed tag call running _ (Call.step_posts turned sent)
      rw [signed]
      exact target
    | reply message save call turn _ running turned =>
      simp [Server.resume, Call.reply_sent turned] at listed
    | serve message save answer here handled =>
      obtain ⟨body, answered, rfl⟩ := List.mem_map.mp listed
      obtain rfl : body = .appendRequest req := same
      -- a handler answers with a response
      cases asked : message.body <;> rw [asked] at handled <;> cases handled
      all_goals
        try split at answered
        all_goals simp at answered
    | _ => simp at listed

/-- A request is no response. -/
theorem Call.reply_appendRequest (n : RaftNode) (save : Bool) (peer : NodeId) (call : Call)
    (req : AppendEntriesRequest) : call.reply n save peer (.appendRequest req) = none := by
  cases call with
  | election stage => cases stage <;> rfl
  | propose stage => rfl
  | replicate owner stage => cases stage <;> rfl
  | apply stage => rfl

/-- What every run with fixed members and one election at a time keeps: processes and their requests
are who they say they are, and who leads or is named was elected. -/
structure Credible (members : Members) (c : Cluster) : Prop where
  /-- The processes. -/
  enrolled : ∀ id, Enrolled members id (c.servers id)
  /-- They run one election each. -/
  lone : ∀ id, (c.servers id).Lone
  /-- Their rounds. -/
  calls : ∀ id, (c.servers id).Addressed members id
  /-- The messages. -/
  net : ∀ packet ∈ c.net, packet.Addressed members
  /-- Leaders were elected. -/
  hinted : ∃ votes, HintedCluster members c votes

variable {c c' : Cluster} {label : Label}

/-- A step keeps that. -/
theorem Credible.step (credible : Credible members c) (allowed : FairElections unmarshal c label)
    (stepped : c.step unmarshal members label = some c') : Credible members c' := by
  obtain ⟨fixed, fits, one⟩ := allowed
  obtain ⟨votes, hinted⟩ := credible.hinted
  have enrolled := Enrolled.step credible.enrolled fixed stepped
  have lone := Cluster.step_lone credible.lone one stepped
  have hinted' := hinted.next fixed fits ((credible.lone _).electsAlone _) stepped
  obtain ⟨calls, net⟩ := Cluster.step_keeps credible.calls credible.net stepped
    fun reaction _ _ reacted => (credible.calls label.node).react (credible.enrolled label.node)
      (Server.react_asks (fun _ _ _ steps running => Cluster.termsFit_preVoteWon fits steps running) reacted)
      reacted
  exact ⟨enrolled, lone, calls, net, _, hinted'⟩

/-- Every run keeps that. -/
theorem Credible.reach
    (run : Reach (Cluster.step unmarshal members) (FairElections unmarshal) (.initial members) c) :
    Credible members c := by
  refine run.invariant (P := Credible members) ?_ fun _ _ _ credible allowed stepped =>
    credible.step allowed stepped
  exact ⟨.initial members, fun _ => .idle rfl,
    fun _ _ _ running => by contradiction,
    fun _ listed => by contradiction, _, .initial members⟩

/-- A leader that handles a request to append entries of its own term does not exist. -/
theorem Credible.no_rival (credible : Credible members c) {id : NodeId} (inside : id ∈ members.ids)
    (leads : (c.servers id).node.state = .leader) {packet : Packet} (listed : packet ∈ c.net)
    (here : packet.target = id) {req : AppendEntriesRequest} (body : packet.body = .appendRequest req) :
    req.term ≠ (c.servers id).node.currentTerm := by
  intro same
  obtain ⟨votes, hinted⟩ := credible.hinted
  obtain ⟨⟨left, leftSeen, leftNode, leftPromoted⟩, voted⟩ := hinted.net packet listed req body
  obtain ⟨⟨right, rightSeen, rightNode, rightPromoted⟩, -⟩ := (hinted.hinted id inside).role leads
  rw [← same] at rightPromoted
  have agree := hinted.fair.agree leftSeen rightSeen leftPromoted rightPromoted
    fun leftPeers rightPeers leftAsked rightAsked => members.close leftAsked rightAsked
  -- so the leader is the sender, and sends to itself
  have target := credible.net packet listed req body
  rw [← leftNode, agree, rightNode, (credible.enrolled id).own, here] at target
  exact ((members.mem_peers id inside id).mp target).2 rfl

/-- What deposes a leader, other than itself, shows it a later term. -/
theorem Credible.deposed_later (credible : Credible members c)
    (fixed : c.membershipFixed unmarshal label = true) (inside : label.node ∈ members.ids)
    (leads : (c.servers label.node).node.state = .leader)
    (present : ∀ packet, label.event.packet = some packet → packet ∈ c.net)
    (reacted : (c.servers label.node).react unmarshal (members.peers label.node) label.event =
      some reaction)
    {op : Operation} (runs : (c.servers label.node).operation label.event = some op)
    (reason : RaftNode.Deposes unmarshal (c.servers label.node).node op) :
    ∃ packet term, label.event.packet = some packet ∧ packet.body.term = some term ∧
      (c.servers label.node).node.currentTerm < term := by
  obtain ⟨node, event⟩ := label
  cases Server.operation_cases runs with
  | call running made =>
    unfold Call.operation at made
    split at made <;> cases made
    all_goals try contradiction
    -- only the entry of a membership change would depose the leader
    obtain ⟨change, decoded⟩ := reason
    exact absurd decoded (Cluster.membershipFixed_holding fixed rfl running)
  | @message _ packet _ taken made =>
    refine ⟨packet, ?_⟩
    cases body : packet.body with
    | appendRequest req =>
      rw [body] at made
      cases made
      -- it is served, and not of the leader's term
      have target : packet.target = node := by
        cases Server.react_cases reacted with
        | serve _ _ answer here handled =>
          cases taken
          exact here.trans (credible.enrolled node).own
        | reply _ _ call turn own running replied =>
          cases taken
          rw [body, Call.reply_appendRequest] at replied
          contradiction
        | _ => contradiction
      have other := credible.no_rival inside leads (present packet taken) target body
      exact ⟨_, taken, rfl, lt_of_le_of_ne reason other.symm⟩
    | preVoteRequest req =>
      rw [body] at made
      contradiction
    | _ =>
      rw [body] at made
      cases made
      exact ⟨_, taken, rfl, reason⟩
  | compact snapshot save => contradiction

/-- A leader leads on in its term unless it crashes, becomes a candidate itself, or takes a message
that shows it a later term. -/
theorem Credible.office_kept (credible : Credible members c)
    (fixed : c.membershipFixed unmarshal label = true)
    (stepped : c.step unmarshal members label = some c') {id : NodeId}
    (leads : (c.servers id).node.state = .leader) :
    ((c'.servers id).node.state = .leader ∧
        (c'.servers id).node.currentTerm = (c.servers id).node.currentTerm) ∨
      label.node = id ∧ (label.event = .crash ∨
        (∃ tag save applied, label.event = .step tag save applied ∧
          (c.servers id).calls tag = some (.election .preVoteWon)) ∨
        ∃ packet term, label.event.packet = some packet ∧ packet.body.term = some term ∧
          (c.servers id).node.currentTerm < term) := by
  obtain ⟨inside, net, reaction, taken, reacted, rfl⟩ := Cluster.step_some stepped
  by_cases here : id = label.node
  swap
  · rw [c.absorb_other net reaction here]
    exact Or.inl ⟨leads, rfl⟩
  subst here
  rw [c.absorb_own]
  rcases Server.react_moves reacted with ⟨crash, -⟩ | ⟨-, node | ⟨op, runs, node⟩⟩
  · exact Or.inr ⟨rfl, Or.inl crash⟩
  · rw [node]
    exact Or.inl ⟨leads, rfl⟩
  rw [node]
  rcases (c.servers label.node).node.perform_role unmarshal label.event.save
    (Server.operation_ne_becomeLeader runs) with rfl | ⟨-, candidate, -⟩ | ⟨-, reason⟩ | ⟨role, term⟩
  · exact Or.inr ⟨rfl, Or.inr (Or.inl (Server.operation_enters runs))⟩
  · rw [leads] at candidate
    contradiction
  · exact Or.inr ⟨rfl, Or.inr (Or.inr (credible.deposed_later fixed inside leads
      (Cluster.take_some taken).1 reacted runs reason))⟩
  · exact Or.inl ⟨role.trans leads, term⟩

end

end Raft

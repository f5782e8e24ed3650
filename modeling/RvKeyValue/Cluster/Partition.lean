import RvKeyValue.Cluster.Enrolled
import RvKeyValue.Cluster.TermOrder

/-!
# A minority cut off from the others

`StartElection` asks its peers for pre-votes before it enters a term. So a group of members that hears
only of each other, and is no majority, stays in the terms it knows: however often its members time
out, none of them enters a later term or sends one to anybody. When the network heals, the group comes
back without a term that would depose the leader of the others.
-/

namespace Raft

open Transition (Reach)

/-- The node that sent a message: the caller of the RPC sends the request, the called node the
response. -/
def Packet.sender (packet : Packet) : NodeId :=
  match packet.body with
  | .preVoteRequest _ => packet.source
  | .voteRequest _ => packet.source
  | .appendRequest _ => packet.source
  | .preVoteResponse _ _ => packet.target
  | .voteResponse _ _ => packet.target
  | .appendResponse _ _ => packet.target

/-- A member of the group takes messages of RPCs within the group only. -/
def Label.Inside (group : List NodeId) (label : Label) : Prop :=
  label.node ∈ group → ∀ packet ∈ label.event.packet, packet.source ∈ group ∧ packet.target ∈ group

instance (group : List NodeId) (label : Label) : Decidable (label.Inside group) :=
  inferInstanceAs (Decidable (_ → _))

/-- A pre-vote that the answers of the group cannot win. -/
def ElectionStage.short (group : List NodeId) : ElectionStage → Bool
  | preVoteWon => false
  | preVoting _ clusterSize votes waiting =>
    decide (votes + waiting.countP (fun peer => decide (peer ∈ group)) < majority clusterSize)
  | _ => true

/-- So is the pre-vote of a call, if it is in one. -/
def Call.short (group : List NodeId) : Call → Bool
  | election stage => stage.short group
  | _ => true

/-- The node is not past a term, in memory and on disk. -/
def RaftNode.Behind (bound : Nat) (n : RaftNode) : Prop :=
  n.Throughout fun state => state.currentTerm ≤ bound

/-- A process that is not past a term: nor are its requests, and none of its pre-votes is won by the
group. -/
def Server.Behind (group : List NodeId) (bound : Nat) (sv : Server) : Prop :=
  sv.node.Behind bound ∧ ∀ tag < sv.nextTag, ∀ call ∈ sv.calls tag,
    call.short group = true ∧ ∀ request ∈ call.requests, request.2.term ≤ bound

/-- The members of a group are not past a term, and they have sent nobody a later one. -/
def Cluster.Behind (group : List NodeId) (bound : Nat) (c : Cluster) : Prop :=
  (∀ id ∈ group, (c.servers id).Behind group bound) ∧
    ∀ packet ∈ c.net, packet.sender ∈ group → ∀ term ∈ packet.body.term, term ≤ bound

instance (bound : Nat) (n : RaftNode) : Decidable (n.Behind bound) :=
  inferInstanceAs (Decidable (n.Throughout _))

instance (group : List NodeId) (bound : Nat) (sv : Server) : Decidable (sv.Behind group bound) :=
  inferInstanceAs (Decidable (_ ∧ _))

instance (group : List NodeId) (bound : Nat) (c : Cluster) : Decidable (c.Behind group bound) :=
  inferInstanceAs (Decidable (_ ∧ _))

section

variable {unmarshal : Bytes → Option MembershipCommand} {sv : Server} {peers group : List NodeId}
  {bound : Nat} {event : Event} {reaction : Reaction} {n : RaftNode} {op : Operation}

/-- A message is handled by an operation that hears at most the term it shows. -/
theorem Body.operation_shows {body : Body} (handles : body.operation = some op) :
    op ≠ .becomeCandidate ∧ ∀ term, n.hears op = some term → body.term = some term := by
  cases body <;> cases handles
  all_goals
    refine ⟨by simp, fun term hears => ?_⟩
    simp only [RaftNode.hears] at hears
    try split at hears
    all_goals first
      | contradiction
      | exact hears

/-- The sections of a call hear no term. -/
theorem Call.operation_deaf {call : Call} (made : call.operation = some op) : n.hears op = none := by
  unfold Call.operation at made
  split at made <;> cases made
  all_goals rfl

/-- An operation that enters and hears no later term brings the node into none. -/
theorem RaftNode.perform_behind (save : Bool) (current : n.currentTerm ≤ bound)
    (enters : op = .becomeCandidate → Word.add n.currentTerm 1 ≤ bound)
    (heard : ∀ term, n.hears op = some term → term ≤ bound) :
    (n.perform unmarshal save op).currentTerm ≤ bound := by
  by_cases candidate : op = .becomeCandidate
  · have low := enters candidate
    subst candidate
    rw [← n.becomeCandidate_term save] at low
    exact low
  · rw [n.perform_term unmarshal save candidate]
    cases hears : n.hears op with
    | none =>
      rw [Option.getD_none, Nat.max_zero]
      exact current
    | some term => exact Nat.max_le.mpr ⟨current, heard term hears⟩

/-- A process that is not past a term does not get past it while it enters and is shown no later one. -/
theorem RaftNode.Behind.react (behind : sv.node.Behind bound)
    (enters : ∀ tag, sv.calls tag = some (.election .preVoteWon) →
      Word.add sv.node.currentTerm 1 ≤ bound)
    (shown : ∀ packet ∈ event.packet, ∀ term ∈ packet.body.term, term ≤ bound)
    (reacted : sv.react unmarshal peers event = some reaction) :
    reaction.server.node.Behind bound := by
  refine Throughout.react behind (fun _ => Nat.zero_le bound) (fun _ _ low => low) (fun op runs => ?_) reacted
  refine RaftNode.perform_behind event.save behind.memory ?_ ?_
  · rintro rfl
    obtain ⟨tag, -, -, -, running⟩ := Server.operation_enters runs
    exact enters tag running
  · intro term hears
    cases Server.operation_cases runs with
    | call running made =>
      rw [Call.operation_deaf made] at hears
      contradiction
    | message taken made => exact shown _ taken term ((Body.operation_shows made).2 term hears)
    | compact snapshot save => contradiction

/-- Handlers answer with the term they leave the node in. -/
theorem Server.handle_term {save : Bool} {body answer : Body} {m : RaftNode}
    (handled : Server.handle n save body = some (m, some answer)) :
    answer.term = some m.currentTerm := by
  have saved (k : RaftNode) : k.currentTerm = (k.persistLocked save).1.currentTerm :=
    (k.persistLocked_term save).symm
  cases body with
  | preVoteRequest req =>
    cases handled
    simp only [Body.term, RaftNode.preVote]
    repeat' split
    all_goals rfl
  | voteRequest req =>
    obtain ⟨rfl, answered⟩ := Prod.mk.inj (Option.some.inj handled)
    split at answered
    · contradiction
    · cases answered
      refine congrArg some ?_
      rcases n.requestVote_cases save req with same | ⟨-, ⟨-, -, same⟩ | ⟨-, same⟩⟩
      · rw [same]
      · rw [same]
        exact saved { n.seeTerm req.term with votedFor := req.candidateID }
      · rw [same]
        exact saved (n.seeTerm req.term)
  | appendRequest req =>
    obtain ⟨rfl, answered⟩ := Prod.mk.inj (Option.some.inj handled)
    split at answered
    · contradiction
    · cases answered
      refine congrArg some ?_
      rcases n.handleAppendEntries_cases save req with
        same | ⟨-, -, ⟨-, ⟨-, same⟩ | ⟨-, same⟩⟩ | ⟨-, ⟨-, same⟩ | ⟨-, same⟩⟩⟩
      · rw [same]
      · rw [same]
        exact saved (n.follow req)
      · rw [same]
      · rw [same]
        exact saved (n.accept req)
      · rw [same]
  | _ => contradiction

/-- A call that is no election is in no pre-vote. -/
theorem Call.short_of_other {call : Call} (other : call.isElection = false) :
    call.short group = true := by
  cases call with
  | election stage => contradiction
  | _ => rfl

/-- A section of a call brings it into no pre-vote that the group can win. -/
theorem Call.step_short {save applied : Bool} {call next : Call} {turn : Turn}
    (short : call.short group = true)
    (opens : 1 + n.peers.countP (fun peer => decide (peer ∈ group)) < majority (n.peers.length + 1))
    (stepped : call.step unmarshal n save applied = some turn) (goes : turn.call = some next) :
    next.short group = true := by
  cases call with
  | election stage =>
    simp only [Call.step, Call.electionStep] at stepped
    split at stepped <;> cases stepped
    all_goals
      simp only [Call.campaign] at goes
      repeat' split at goes
      all_goals cases goes
    all_goals first
      | rfl
      | exact decide_eq_true opens
      | omega
  | _ => exact Call.short_of_other (Call.step_kind stepped goes)

/-- Nor does an answer of the group. -/
theorem Call.reply_short {save : Bool} {peer : NodeId} {call next : Call} {body : Body} {turn : Turn}
    (short : call.short group = true) (member : peer ∈ group)
    (replied : call.reply n save peer body = some turn) (goes : turn.call = some next) :
    next.short group = true := by
  cases call with
  | election stage =>
    cases stage with
    | preVoting req clusterSize votes waiting =>
      cases body with
      | preVoteResponse asked resp =>
        have before := of_decide_eq_true short
        simp only [Call.reply] at replied
        split at replied
        · rename_i outstanding
          have counted : (waiting.erase peer).countP (fun peer => decide (peer ∈ group)) =
              waiting.countP (fun peer => decide (peer ∈ group)) - 1 := by
            rw [List.countP_erase, if_pos ⟨outstanding.2, decide_eq_true member⟩]
          have present : 0 < waiting.countP fun peer => decide (peer ∈ group) :=
            List.countP_pos_iff.mpr ⟨peer, outstanding.2, decide_eq_true member⟩
          have many : ¬ majority clusterSize ≤ votes + 1 := by omega
          obtain rfl := Option.some.inj replied
          simp only [Call.campaign, if_neg many] at goes
          split at goes
          · contradiction
          split at goes
          all_goals
            cases goes
            refine decide_eq_true ?_
            rw [counted]
            omega
        · contradiction
      | _ => contradiction
    | voting req clusterSize votes waiting =>
      cases body with
      | voteResponse asked resp =>
        simp only [Call.reply] at replied
        split at replied
        · obtain rfl := Option.some.inj replied
          simp only [Call.campaign] at goes
          split at goes
          all_goals cases goes
          rfl
        · contradiction
      | _ => contradiction
    | _ => contradiction
  | _ => exact Call.short_of_other (Call.reply_kind replied goes)

/-- Nor does an error. -/
theorem Call.failure_short {peer : NodeId} {call next : Call} (short : call.short group = true)
    (failed : call.failure peer = some next) : next.short group = true := by
  cases call with
  | election stage =>
    cases stage with
    | preVoting req clusterSize votes waiting =>
      have before := of_decide_eq_true short
      simp only [Call.failure] at failed
      split at failed
      · cases failed
        have fewer : (waiting.erase peer).countP (fun peer => decide (peer ∈ group)) ≤
            waiting.countP (fun peer => decide (peer ∈ group)) :=
          List.erase_sublist.countP_le
        exact decide_eq_true (by omega)
      · contradiction
    | voting req clusterSize votes waiting =>
      simp only [Call.failure] at failed
      split at failed
      · cases failed
        rfl
      · contradiction
    | _ => contradiction
  | _ => exact Call.short_of_other (Call.failure_kind failed)

/-- A member and its peers are the members, each once. -/
theorem Members.perm_peers (members : Members) {id : NodeId} (inside : id ∈ members.ids) :
    (id :: members.peers id).Perm members.ids := by
  have distinct : (id :: members.peers id).Nodup := by
    refine List.nodup_cons.mpr ⟨fun own => ?_, members.peersDistinct id inside⟩
    exact ((members.mem_peers id inside id).mp own).2 rfl
  rw [List.perm_ext_iff_of_nodup distinct members.distinct]
  intro peer
  rw [List.mem_cons, members.mem_peers id inside]
  by_cases own : peer = id
  · simp [own, inside]
  · simp [own]

/-- A member of a group counts itself and its peers in the group. -/
theorem Members.count_peers (members : Members) {id : NodeId} (inside : id ∈ members.ids)
    (member : id ∈ group) :
    members.ids.countP (fun id => decide (id ∈ group)) =
        1 + (members.peers id).countP (fun peer => decide (peer ∈ group)) ∧
      members.ids.length = (members.peers id).length + 1 := by
  have counted := (members.perm_peers inside).countP_eq fun peer => decide (peer ∈ group)
  rw [List.countP_cons, if_pos (decide_eq_true member)] at counted
  have size := (members.perm_peers inside).length_eq
  rw [List.length_cons] at size
  exact ⟨by omega, size.symm⟩

/-- What a process sends, it sends. -/
theorem Server.react_sender (reacted : sv.react unmarshal peers event = some reaction) {packet : Packet}
    (sent : packet ∈ reaction.sent) : packet.sender = sv.node.id := by
  cases Server.react_cases reacted with
  | step tag save applied call turn running turned =>
    obtain ⟨message, listed, rfl⟩ := List.mem_map.mp sent
    rcases Call.step_asks turned listed with ⟨req, same⟩ | ⟨-, same⟩ | ⟨-, same⟩
    all_goals simp only [Packet.sender, same]
  | reply message save call turn _ running turned =>
    simp [Server.resume, Call.reply_sent turned] at sent
  | serve message save answer here handled =>
    obtain ⟨body, answered, rfl⟩ := List.mem_map.mp sent
    cases asked : message.body <;> rw [asked] at handled <;> cases handled
    all_goals
      try split at answered
      all_goals simp at answered
    all_goals
      rw [answered]
      exact here
  | _ => simp at sent

/-- What a process that is not past a term asks and answers is not either. -/
theorem Server.react_terms (before : sv.node.Behind bound) (after : reaction.server.node.Behind bound)
    (built : ∀ tag call, sv.calls tag = some call → ∀ request ∈ call.requests, request.2.term ≤ bound)
    (asks : sv.Asks reaction) (reacted : sv.react unmarshal peers event = some reaction) :
    (∀ tag call, reaction.server.calls tag = some call →
      ∀ request ∈ call.requests, request.2.term ≤ bound) ∧
    ∀ packet ∈ reaction.sent, ∀ term ∈ packet.body.term, term ≤ bound := by
  refine ⟨fun tag call running request listed => ?_, fun packet sent term shows => ?_⟩
  · rcases asks.calls tag call running request listed with ⟨old, ran, was⟩ | new
    · exact built tag old ran request was
    · rw [RaftNode.buildAppendEntries_term new]
      exact before.memory
  · cases Server.react_cases reacted with
    | step tag save applied call turn ran turned =>
      obtain ⟨message, listed, rfl⟩ := List.mem_map.mp sent
      rcases Call.step_asks turned listed with ⟨req, same⟩ | ⟨-, same⟩ | ⟨-, same⟩
      · obtain ⟨position, old, peer, was, made⟩ := asks.sent _ sent req same
        rw [same] at shows
        rw [← Option.some.inj shows]
        exact built position old was _ made
      · rw [same] at shows
        contradiction
      · rw [same] at shows
        rw [← Option.some.inj shows]
        exact before.memory
    | reply message save call turn _ ran turned =>
      simp [Server.resume, Call.reply_sent turned] at sent
    | serve message save answer here handled =>
      obtain ⟨body, answered, rfl⟩ := List.mem_map.mp sent
      obtain ⟨node, response⟩ := answer
      replace answered : response = some body := Option.mem_toList.mp answered
      rw [answered] at handled
      rw [Server.handle_term handled] at shows
      rw [← Option.some.inj shows]
      exact after.memory
    | _ => simp at sent

variable {members : Members} {id : NodeId}

/-- The calls of a process after a step are not past a term that it is not past. -/
theorem Server.Behind.react (behind : sv.Behind group bound) (enrolled : Enrolled members id sv)
    (inside : id ∈ members.ids) (member : id ∈ group)
    (minority : members.ids.countP (fun id => decide (id ∈ group)) < majority members.ids.length)
    (among : ∀ packet ∈ event.packet, packet.source ∈ group ∧ packet.target ∈ group)
    (shown : ∀ packet ∈ event.packet, ∀ term ∈ packet.body.term, term ≤ bound)
    (reacted : sv.react unmarshal (members.peers id) event = some reaction) :
    reaction.server.Behind group bound ∧
      ∀ packet ∈ reaction.sent, ∀ term ∈ packet.body.term, term ≤ bound := by
  have calls : ∀ tag call, sv.calls tag = some call → call.short group = true ∧
      ∀ request ∈ call.requests, request.2.term ≤ bound := fun tag call running =>
    behind.2 tag (enrolled.numbered tag call running) call running
  have lost : ∀ tag, sv.calls tag ≠ some (.election .preVoteWon) := by
    intro tag running
    have short := (calls tag _ running).1
    contradiction
  have node := behind.1.react (fun tag running => absurd running (lost tag)) shown reacted
  have asks := Server.react_asks (fun tag _ _ _ running => absurd running (lost tag)) reacted
  obtain ⟨requests, sent⟩ := Server.react_terms behind.1 node
    (fun tag call running => (calls tag call running).2) asks reacted
  -- a member of a group that is no majority does not win a pre-vote within the group
  obtain ⟨counted, size⟩ := members.count_peers inside member
  have opens := minority
  rw [counted, size, ← enrolled.peers] at opens
  -- no pre-vote is opened or answered so that the group can win it
  have short := Server.react_calls (P := fun call => call.short group = true)
    (fun tag call running => (calls tag call running).1) (fun kind _ => by cases kind <;> rfl)
    (fun _ _ _ _ _ _ _ still turned goes => Call.step_short still opens turned goes)
    (fun packet _ _ _ _ taken still turned goes =>
      Call.reply_short still (among packet (by rw [taken]; rfl)).2 turned goes)
    (fun _ _ _ still failed => Call.failure_short still failed) reacted
  exact ⟨⟨node, fun tag _ call running => ⟨short tag call running, requests tag call running⟩⟩, sent⟩

/-- A step of the cluster in which the group hears only of itself. -/
theorem Cluster.Behind.step {c c' : Cluster} {label : Label} (behind : c.Behind group bound)
    (enrolled : ∀ id, Enrolled members id (c.servers id))
    (minority : members.ids.countP (fun id => decide (id ∈ group)) < majority members.ids.length)
    (inside : label.Inside group) (stepped : c.step unmarshal members label = some c') :
    c'.Behind group bound := by
  obtain ⟨servers, net⟩ := behind
  refine Cluster.step_keeps (S := fun id sv => id ∈ group → sv.Behind group bound)
    (N := fun packet => packet.sender ∈ group → ∀ term ∈ packet.body.term, term ≤ bound)
    servers net stepped fun reaction known present reacted => ?_
  by_cases member : label.node ∈ group
  · have among := inside member
    have shown : ∀ packet ∈ label.event.packet, ∀ term ∈ packet.body.term, term ≤ bound := by
      intro packet takes
      refine net packet (present packet takes) ?_
      -- both ends of the RPC are in the group, so the sender is
      obtain ⟨source, target⟩ := among packet takes
      unfold Packet.sender
      split <;> assumption
    obtain ⟨server, sent⟩ := (servers label.node member).react (enrolled label.node) known member
      minority among shown reacted
    exact ⟨fun _ => server, fun packet listed _ => sent packet listed⟩
  · refine ⟨fun here => absurd here member, fun packet listed sender => ?_⟩
    rw [(Server.react_sender reacted listed).trans (enrolled label.node).own] at sender
    exact absurd sender member

/-- A group of members that is no majority and hears only of itself does not get past the terms it
knows: no member of the group enters a later term, in memory or on disk, wins a pre-vote for one or
sends one to anybody. Elections, proposals, failed saves and crashes may happen in any order, inside
and outside the group. -/
theorem minority_stays_behind {c c' : Cluster}
    (run : Reach (Cluster.step unmarshal members)
      (fun c label => c.membershipFixed unmarshal label = true) (.initial members) c)
    (minority : members.ids.countP (fun id => decide (id ∈ group)) < majority members.ids.length)
    (behind : c.Behind group bound)
    (cut : Reach (Cluster.step unmarshal members)
      (fun c label => c.membershipFixed unmarshal label = true ∧ label.Inside group) c c') :
    c'.Behind group bound := by
  have enrolled := Enrolled.reach run
  have both : (∀ id, Enrolled members id (c'.servers id)) ∧ c'.Behind group bound := by
    refine cut.invariant
      (P := fun c => (∀ id, Enrolled members id (c.servers id)) ∧ c.Behind group bound)
      ⟨enrolled, behind⟩ ?_
    rintro before after label ⟨known, still⟩ ⟨fixed, inside⟩ stepped
    refine ⟨?_, still.step known minority inside stepped⟩
    exact Enrolled.step known fixed stepped
  exact both.2

end

/-- `A` leads term 1 of five nodes, with the votes of `B` and `C`. -/
def electedByThree : List Label := Label.campaign "A" 0 1 0 0 [("B", 0), ("C", 0)]

/-- `D` and `E` are cut off and time out: `D` gets the pre-vote of `E` and gives up on the others, and
`E`, which crashes in between, does no better. -/
def timeoutsApart : List Label :=
  [⟨"D", .start .election⟩] ++ Label.sections "D" 0 3 ++
  Label.rpc "D" "E" 0 (.preVoteRequest ⟨1, "D", 0, 0⟩)
    (.preVoteResponse ⟨1, "D", 0, 0⟩ ⟨0, true⟩) ++
  [⟨"D", .failure 0 "A"⟩, ⟨"D", .failure 0 "B"⟩, ⟨"D", .failure 0 "C"⟩] ++ Label.sections "D" 0 1 ++
  [⟨"E", .crash⟩, ⟨"E", .start .election⟩] ++ Label.sections "E" 0 3

/-- Two nodes that are cut off after an election they did not hear of stay in term 0, whatever they
try, while the three others are in term 1. -/
theorem minority_stays_behind_pair : ∃ c c',
    Reach (Cluster.step plainCommands fiveNodes)
      (fun c label => c.membershipFixed plainCommands label = true) (.initial fiveNodes) c ∧
      Reach (Cluster.step plainCommands fiveNodes)
        (fun c label => c.membershipFixed plainCommands label = true ∧ label.Inside ["D", "E"]) c c' ∧
      (c'.servers "A").node.currentTerm = 1 ∧ (c'.servers "D").nextTag = 1 ∧
      c.Behind ["D", "E"] 0 ∧ c'.Behind ["D", "E"] 0 := by
  have passed : (Transition.exec (Cluster.step plainCommands fiveNodes)
      (fun c label => c.membershipFixed plainCommands label = true) (.initial fiveNodes)
      electedByThree).any (fun c => decide (c.Behind ["D", "E"] 0) &&
        (Transition.exec (Cluster.step plainCommands fiveNodes)
          (fun c label => c.membershipFixed plainCommands label = true ∧ label.Inside ["D", "E"]) c
          timeoutsApart).any fun c' =>
            decide ((c'.servers "A").node.currentTerm = 1 ∧ (c'.servers "D").nextTag = 1)) = true := by
    decide +kernel
  obtain ⟨c, run, test⟩ := Reach.of_exec_test passed
  obtain ⟨here, there⟩ := (Bool.and_eq_true ..).mp test
  have behind := of_decide_eq_true here
  obtain ⟨c', cut, test'⟩ := Reach.of_exec_test there
  obtain ⟨led, tried⟩ := of_decide_eq_true test'
  exact ⟨c, c', run, cut, led, tried, behind,
    minority_stays_behind run (by decide) behind cut⟩

end Raft

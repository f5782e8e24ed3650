import RvKeyValue.Cluster.DurableVotes
import RvKeyValue.Cluster.Tally

/-!
# Campaigns and the votes they count

What `StartElection` knows about stored votes at each of its stages: a granting response is sent
only after its vote was stored, and the candidate counts its own vote only after
`BecomeCandidate` returned no error. The majority is taken of the peers the candidate has when it
asks for votes, whatever they are later. Sections of other calls say nothing about votes.
-/

namespace Raft

/-- The peers that nodes have asked for their votes, by node and term. -/
abbrev Polls := NodeId → Nat → List NodeId → Prop

section

variable {unmarshal : Bytes → Option MembershipCommand} {polls polls' : Polls}
  {good : List NodeId → Prop} {id : NodeId} {n : RaftNode} {state : PersistentState}
  {votes votes' : Votes}

/-- A candidate has stored its own vote. -/
def SelfVote (id : NodeId) (n : RaftNode) (votes : Votes) : Prop :=
  n.state = .candidate → votes id n.currentTerm id

/-- What `StartElection` knows: after `BecomeCandidate` its own vote is stored, and the votes it
counted are. -/
structure Campaign (polls : Polls) (id : NodeId) (n : RaftNode) (votes : Votes)
    (stage : ElectionStage) : Prop where
  /-- A candidate has stored its own vote. -/
  self : stage.campaigns = true → SelfVote id n votes
  /-- The counted votes are stored, and are those of peers that were asked. -/
  polled : ∃ members : Members,
    Polled members id (fun req => id ∈ members.ids ∧ polls id req.term (members.peers id))
      (fun req voter => votes voter req.term id) stage

/-- A vote request names its sender, and a granting response stands for a stored vote. -/
def VoteBody (votes : Votes) (source target : NodeId) : Body → Prop
  | .voteRequest req => req.candidateID = source
  | .voteResponse req resp => resp.voteGranted = true → votes target req.term source
  | _ => True

/-- A promotion is backed by stored votes of a majority of the node and the peers it asked. -/
def Backed (polls : Polls) (votes : Votes) (node : NodeId) : Observation → Prop
  | .promoted term => ∃ members : Members, node ∈ members.ids ∧
      polls node term (members.peers node) ∧ ∃ voters, members.quorums.IsQuorum voters ∧
        ∀ voter ∈ voters, votes voter term node
  | _ => True

/-- A candidate's stored vote stays on record while the record moves. -/
theorem SelfVote.move (voted : SelfVote id n votes) {other : NodeId}
    (added : votes.Extends other votes') {n' : RaftNode}
    (role : n'.state = .candidate → n.state = .candidate ∧ n'.currentTerm = n.currentTerm) :
    SelfVote id n' votes' := by
  intro candidate
  have before := role candidate
  rw [before.2]
  exact added.grows _ _ _ (voted before.1)

/-- What a campaign knows stays true while its record moves and votes are added. -/
theorem Campaign.move {stage : ElectionStage} (known : Campaign polls id n votes stage)
    {other : NodeId} (added : votes.Extends other votes') {n' : RaftNode}
    (role : n'.state = .candidate → n.state = .candidate ∧ n'.currentTerm = n.currentTerm) :
    Campaign polls id n' votes' stage := by
  obtain ⟨members, polled⟩ := known.polled
  exact ⟨fun running => (known.self running).move added role, members,
    polled.imp (fun _ asked => asked) fun _ _ => added.grows _ _ _⟩

/-- What a campaign knows stays true when others ask for votes. -/
theorem Campaign.more {stage : ElectionStage} (known : Campaign polls id n votes stage)
    (more : ∀ id term peers, polls id term peers → polls' id term peers) :
    Campaign polls' id n votes stage := by
  obtain ⟨members, polled⟩ := known.polled
  exact ⟨known.self, members,
    polled.imp (fun _ asked => ⟨asked.1, more _ _ _ asked.2⟩) fun _ _ voted => voted⟩

/-- A message stays true when votes are added. -/
theorem VoteBody.grow {source target : NodeId} {body : Body} (said : VoteBody votes source target body)
    (added : votes.Extends id votes') : VoteBody votes' source target body := by
  cases body with
  | voteResponse req resp => exact fun yes => added.grows _ _ _ (said yes)
  | voteRequest req => exact said
  | preVoteRequest req => trivial
  | preVoteResponse req resp => trivial
  | appendRequest req => trivial
  | appendResponse req resp => trivial

/-- A promotion stays backed when votes are added and others ask for votes. -/
theorem Backed.grow {node : NodeId} {observation : Observation}
    (backed : Backed polls votes node observation) (added : votes.Extends id votes')
    (more : ∀ id term peers, polls id term peers → polls' id term peers) :
    Backed polls' votes' node observation := by
  cases observation with
  | promoted term =>
    obtain ⟨members, inside, asked, voters, quorum, voted⟩ := backed
    exact ⟨members, inside, more _ _ _ asked, voters, quorum,
      fun voter counted => added.grows _ _ _ (voted voter counted)⟩
  | handed entry => trivial
  | reconfigured entry => trivial
  | returned entry => trivial
  | failed err => trivial

/-- What a section of any other call does: it moves the record and says nothing about votes. -/
structure Aside (n : RaftNode) (turn : Turn) : Prop where
  /-- The record moved and was possibly saved. -/
  saves : Saves n turn.node
  /-- The call is still no election. -/
  call : ∀ call, turn.call = some call → call.isElection = false
  /-- No message is about votes. -/
  sent : ∀ request ∈ turn.sent, ∀ votes source target, VoteBody votes source target request.2
  /-- Nobody is promoted. -/
  observed : ∀ observation ∈ turn.observed, ∀ polls votes node, Backed polls votes node observation

namespace Aside

variable {n' : RaftNode}

/-- A proposal goes on. -/
theorem pursue (saves : Saves n n') (stage : ProposeStage) : Aside n (Call.pursue n' stage) :=
  ⟨saves, fun call same => by rw [← Option.some.inj same]; rfl, by simp [Call.pursue],
    by simp [Call.pursue]⟩

/-- A proposal fails. -/
theorem fail (saves : Saves n n') (err : Option RaftError) : Aside n (Call.fail n' err) :=
  ⟨saves, by simp [Call.fail], by simp [Call.fail], by simp [Call.fail, Backed]⟩

/-- A call ends. -/
theorem done (saves : Saves n n') : Aside n { node := n' } := ⟨saves, by simp, by simp, by simp⟩

/-- `replicateOnce` goes on. -/
theorem spread (saves : Saves n n') (owner : Option LogEntry) (stage : ReplicateStage) :
    Aside n (Call.spread n' owner stage) :=
  ⟨saves, fun call same => by rw [← Option.some.inj same]; rfl, by simp [Call.spread],
    by simp [Call.spread]⟩

/-- `replicateOnce` returns. -/
theorem replicated (saves : Saves n n') (owner : Option LogEntry) :
    Aside n (Call.replicated n' owner) := by
  cases owner with
  | none => exact done saves
  | some entry => exact pursue saves _

/-- `replicateOnce` returns an error. -/
theorem replicateFailed (saves : Saves n n') (err : Option RaftError) (owner : Option LogEntry) :
    Aside n (Call.replicateFailed n' err owner) := by
  cases owner with
  | none => exact done saves
  | some entry => exact fail saves err

end Aside

/-- Sections of proposals. -/
theorem proposeStep_aside {save : Bool} {stage : ProposeStage} {turn : Turn}
    (stepped : Call.proposeStep unmarshal n save stage = some turn) : Aside n turn := by
  have still : Saves n n := (Moves.refl n).unsaved
  cases stage with
  | starting command =>
    obtain rfl := Option.some.inj stepped
    split
    · exact .pursue still _
    · exact .fail still _
  | appending command =>
    obtain rfl := Option.some.inj stepped
    have saves := appendLocal_saves n unmarshal save command
    split
    · exact .fail saves _
    · exact .pursue saves _
  | checking entry =>
    obtain rfl := Option.some.inj stepped
    split
    · exact ⟨still, by simp, by simp, by simp [Backed]⟩
    · exact .pursue still _
  | leading entry =>
    obtain rfl := Option.some.inj stepped
    split
    · exact .spread still _ _
    · exact .fail still _
  | rechecking entry =>
    obtain rfl := Option.some.inj stepped
    split
    · exact ⟨still, by simp, by simp, by simp [Backed]⟩
    · exact .pursue still _
  | sleeping entry =>
    obtain rfl := Option.some.inj stepped
    exact .pursue still _

/-- Sections of `replicateOnce`. -/
theorem replicateStep_aside {owner : Option LogEntry} {stage : ReplicateStage} {turn : Turn}
    (stepped : Call.replicateStep n owner stage = some turn) : Aside n turn := by
  have still : Saves n n := (Moves.refl n).unsaved
  cases stage with
  | ensuring =>
    obtain rfl := Option.some.inj stepped
    exact .spread (ensureLeaderProgress_moves n).unsaved _ _
  | listing =>
    obtain rfl := Option.some.inj stepped
    exact .spread still _ _
  | building remaining requests =>
    cases remaining with
    | nil =>
      obtain rfl := Option.some.inj stepped
      refine ⟨still, fun call same => by rw [← Option.some.inj same]; rfl, ?_, by simp [Call.spread]⟩
      intro request listed votes source target
      obtain ⟨built, -, rfl⟩ := List.mem_map.mp listed
      trivial
    | cons peer remaining =>
      obtain rfl := Option.some.inj stepped
      split
      · exact .replicateFailed still _ _
      · exact .spread still _ _
  | awaiting waiting =>
    cases waiting with
    | nil =>
      obtain rfl := Option.some.inj stepped
      exact .replicated still _
    | cons request waiting => contradiction
  | recording waiting peer req success =>
    cases success with
    | true =>
      obtain rfl := Option.some.inj stepped
      have saves := (recordReplicationSuccess_moves n peer (Call.matchIndexOf req)).unsaved
      split
      · exact .replicateFailed saves _ _
      · split
        · split
          · exact .spread saves _ _
          · exact .spread saves _ _
        · exact .spread saves _ _
    | false =>
      obtain rfl := Option.some.inj stepped
      have saves := (recordReplicationFailure_moves n peer).unsaved
      split
      · exact .replicateFailed saves _ _
      · exact .spread saves _ _
  | stopping waiting =>
    cases owner with
    | none => contradiction
    | some entry =>
      obtain rfl := Option.some.inj stepped
      split
      · exact .replicated still _
      · exact .spread still _ _

/-- Sections of `ApplyCommitted` that apply no membership change. -/
theorem applyStep_aside {save applied : Bool} {stage : ApplyStage} {turn : Turn}
    (fixed : ∀ entry change, stage = .holding entry →
      decodeMembershipChange unmarshal entry.command ≠ some (.ok change))
    (stepped : Call.applyStep unmarshal n save applied stage = some turn) : Aside n turn := by
  have still : Saves n n := (Moves.refl n).unsaved
  cases stage with
  | fetching =>
    obtain rfl := Option.some.inj stepped
    split
    · exact .done still
    · exact ⟨still, fun call same => by rw [← Option.some.inj same]; rfl, by simp, by simp⟩
  | holding entry =>
    obtain rfl := Option.some.inj stepped
    split
    · exact .done still
    · rename_i change decoded
      exact absurd decoded (fixed entry change rfl)
    · refine ⟨still, fun call same => ?_, by simp, by simp [Backed]⟩
      cases applied with
      | true => rw [← Option.some.inj same]; rfl
      | false => contradiction
  | marking entry =>
    obtain rfl := Option.some.inj stepped
    exact ⟨(markApplied_moves n entry.index).unsaved,
      fun call same => by rw [← Option.some.inj same]; rfl, by simp, by simp⟩

/-- A response that reaches `replicateOnce`. -/
theorem replicateReply_aside {save : Bool} {peer : NodeId} {owner : Option LogEntry}
    {stage : ReplicateStage} {body : Body} {turn : Turn}
    (replied : Call.reply n save peer (.replicate owner stage) body = some turn) : Aside n turn := by
  cases stage with
  | awaiting waiting =>
    cases body with
    | appendResponse asked resp =>
      simp only [Call.reply] at replied
      split at replied
      · obtain rfl := Option.some.inj replied
        have saves := stepDownForHigherTerm_saves n save resp.term
        split
        · exact .replicateFailed saves _ _
        · split
          · exact .replicated saves _
          · exact .spread saves _ _
      · contradiction
    | _ => contradiction
  | _ => contradiction

/-- `BecomeCandidate` without an error has stored the candidate's own vote. -/
theorem becomeCandidate_fair (named : id ≠ "") (voter : Voter id n state votes)
    (listed : Listed good n) (fits : n.currentTerm + 1 < Word.limit) (save : Bool) :
    (∃ state', Voter id (n.becomeCandidate save).node state'
      (votes.record id (n.becomeCandidate save).node)) ∧
      Listed good (n.becomeCandidate save).node ∧
      ((n.becomeCandidate save).err = none → SelfVote id (n.becomeCandidate save).node
        (votes.record id (n.becomeCandidate save).node)) := by
  let running : RaftNode := { n with
    state := .candidate, leaderID := "", nextIndex := none, matchIndex := none,
    currentTerm := Word.add n.currentTerm 1, votedFor := n.id }
  have later : n.currentTerm < running.currentTerm := by
    show n.currentTerm < Word.add n.currentTerm 1
    rw [Word.add_eq fits]
    exact Nat.lt_succ_self _
  have there : Voter id running state votes := voter.move (.later rfl rfl rfl rfl later)
  have peers : Listed good running := ⟨listed.memory, listed.disk⟩
  have saved := running.persistLocked_cases save
  refine ⟨there.persisted saved, peers.persisted saved, fun stored _ => ?_⟩
  replace stored : (running.persistLocked save).2 = none := stored
  show votes.record id (running.persistLocked save).1 id (running.persistLocked save).1.currentTerm id
  rw [RaftNode.persistLocked_stored there.store stored]
  exact Or.inr ⟨rfl, _, rfl, rfl, voter.own, named⟩

/-- What the sections of `StartElection` do, apart from the count. -/
structure VotesTurn (polls : Polls) (good : List NodeId → Prop) (id : NodeId) (votes : Votes)
    (turn : Turn) : Prop where
  /-- The voter keeps its word. -/
  voter : ∃ state, Voter id turn.node state (votes.record id turn.node)
  /-- Its peers are as they should be. -/
  listed : Listed good turn.node
  /-- A candidate has stored its own vote. -/
  self : ∀ stage, turn.call = some (.election stage) → stage.campaigns = true →
    SelfVote id turn.node (votes.record id turn.node)
  /-- Its messages are true. -/
  sent : ∀ request ∈ turn.sent, VoteBody (votes.record id turn.node) id request.1 request.2
  /-- A promotion is backed. -/
  observed : ∀ observation ∈ turn.observed,
    Backed polls (votes.record id turn.node) id observation

/-- A section that leaves the record alone and shows nothing. -/
theorem VotesTurn.still (voter : Voter id n state votes) (listed : Listed good n) {turn : Turn}
    (node : turn.node = n)
    (self : ∀ stage, turn.call = some (.election stage) → stage.campaigns = true → SelfVote id n votes)
    (sent : ∀ request ∈ turn.sent, VoteBody votes id request.1 request.2)
    (quiet : turn.observed = []) : VotesTurn polls good id votes turn := by
  have same : votes.record id turn.node = votes := by
    rw [node]
    exact voter.record_eq
  refine ⟨⟨state, ?_⟩, ?_, ?_, ?_, by simp [quiet]⟩
  · rw [same, node]
    exact voter
  · rw [node]
    exact listed
  · rw [same, node]
    exact self
  · rw [same]
    exact sent

/-- The record, votes, messages and promotions of a section of `StartElection`. -/
theorem electionStep_votes (named : id ≠ "") (voter : Voter id n state votes) (listed : Listed good n)
    {save : Bool} {stage : ElectionStage} {turn : Turn} (known : Campaign polls id n votes stage)
    (fits : stage = .preVoteWon → n.currentTerm + 1 < Word.limit)
    (stepped : Call.electionStep n save stage = some turn) :
    VotesTurn polls good id votes turn := by
  cases stage with
  | starting =>
    obtain rfl := Option.some.inj stepped
    split
    · refine .still voter listed rfl (fun stage' next running => ?_) (by simp [Call.campaign]) rfl
      obtain rfl : .preVoteStarting = stage' := by simpa [Call.campaign] using next
      contradiction
    · exact .still voter listed rfl (by simp) (by simp) rfl
  | preVoteStarting =>
    obtain rfl := Option.some.inj stepped
    split
    · refine .still voter listed rfl (fun stage' next running => ?_) (by simp [Call.campaign]) rfl
      obtain rfl : .preVoteReading = stage' := by simpa [Call.campaign] using next
      contradiction
    · exact .still voter listed rfl (by simp) (by simp) rfl
  | preVoteReading =>
    obtain rfl := Option.some.inj stepped
    split
    · refine .still voter listed rfl (fun stage' next running => ?_) (by simp [Call.campaign]) rfl
      obtain rfl : .preVoteWon = stage' := by simpa [Call.campaign] using next
      contradiction
    · refine .still voter listed rfl (fun stage' next running => ?_) (fun request sent => ?_) rfl
      · obtain rfl : .preVoting n.preVoteRequest (n.peers.length + 1) 1 n.peers = stage' := by
          simpa [Call.campaign] using next
        contradiction
      · obtain ⟨peer, -, rfl⟩ := List.mem_map.mp sent
        trivial
  | preVoting req clusterSize count waiting =>
    cases waiting with
    | nil =>
      obtain rfl := Option.some.inj stepped
      exact .still voter listed rfl (by simp) (by simp) rfl
    | cons peer waiting => contradiction
  | preVoteWon =>
    obtain rfl := Option.some.inj stepped
    obtain ⟨voter', listed', voted⟩ := becomeCandidate_fair named voter listed (fits rfl) save
    split
    · exact ⟨voter', listed', by simp, by simp, by simp⟩
    · rename_i succeeded
      have self := voted (by simpa using succeeded)
      exact ⟨voter', listed', fun _ _ _ => self, by simp [Call.campaign], by simp [Call.campaign]⟩
  | campaigning =>
    obtain rfl := Option.some.inj stepped
    have self := known.self rfl
    split
    · exact .still voter listed rfl (fun _ _ _ => self) (by simp [Call.campaign]) rfl
    · refine .still voter listed rfl (fun _ _ _ => self) (fun request sent => ?_) rfl
      obtain ⟨peer, -, rfl⟩ := List.mem_map.mp sent
      exact voter.own
  | voting req clusterSize count waiting =>
    cases waiting with
    | nil =>
      obtain rfl := Option.some.inj stepped
      exact .still voter listed rfl (by simp) (by simp) rfl
    | cons peer waiting => contradiction
  | voteReceived req clusterSize count waiting peer voteGranted =>
    obtain rfl := Option.some.inj stepped
    have self := known.self rfl
    split
    · exact .still voter listed rfl (by simp) (by simp) rfl
    split
    · exact .still voter listed rfl (fun _ _ _ => self) (by simp [Call.campaign]) rfl
    split <;> exact .still voter listed rfl (fun _ _ _ => self) (by simp [Call.campaign]) rfl
  | winning term =>
    obtain rfl := Option.some.inj stepped
    obtain ⟨members, req, same, ⟨inside, asked⟩, voters, ballots, enough⟩ := known.polled
    have moved := promoteCandidate_saves n save term
    refine ⟨voter.saves moved, listed.saves moved, by simp, by simp, fun observation shown => ?_⟩
    split at shown
    · rename_i promoted
      rw [List.mem_singleton.mp shown]
      obtain ⟨running, current⟩ := RaftNode.promoteCandidate_promoted promoted
      rw [same] at asked
      refine ⟨members, inside, asked, voters.toFinset, ballots.quorum enough,
        fun other counted => Or.inl ?_⟩
      by_cases own : other = id
      · rw [own, ← current]
        exact known.self rfl running
      · rw [← same]
        exact ballots.votes other (List.mem_toFinset.mp counted) own
    · contradiction

/-- What a section of `StartElection` does. -/
structure FairTurn (polls : Polls) (good : List NodeId → Prop) (id : NodeId) (votes : Votes)
    (turn : Turn) : Prop extends VotesTurn polls good id votes turn where
  /-- The campaign knows only what is true. -/
  campaign : ∀ stage, turn.call = some (.election stage) →
    Campaign polls id turn.node (votes.record id turn.node) stage

/-- Sections of `StartElection`. The peers that are asked are read together with the term. -/
theorem electionStep_fair (voter : Voter id n state votes) (listed : Listed good n)
    (proper : Proper id n.peers) {save : Bool} {stage : ElectionStage} {turn : Turn}
    (known : Campaign polls id n votes stage)
    (fits : stage = .preVoteWon → n.currentTerm + 1 < Word.limit)
    (asks : stage = .campaigning → polls id n.currentTerm n.peers)
    (stepped : Call.electionStep n save stage = some turn) :
    FairTurn polls good id votes turn := by
  have said := electionStep_votes proper.1 voter listed known fits stepped
  refine ⟨said, fun stage' next => ⟨said.self stage' next, ?_⟩⟩
  have added := votes.extends_record id turn.node
  obtain ⟨members, start, polled⟩ : ∃ members : Members, (stage = .campaigning →
      n.peers = members.peers id ∧ id ∈ members.ids ∧
        polls id n.voteRequest.term (members.peers id)) ∧
      Polled members id (fun req => id ∈ members.ids ∧ polls id req.term (members.peers id))
        (fun req voter => votes voter req.term id) stage := by
    by_cases campaigning : stage = .campaigning
    · refine ⟨.around proper, fun _ => ?_, by rw [campaigning]; trivial⟩
      rw [Members.around_peers]
      exact ⟨rfl, List.mem_cons_self, asks campaigning⟩
    · obtain ⟨members, polled⟩ := known.polled
      exact ⟨members, fun same => absurd same campaigning, polled⟩
  have counted := polled.step (fun _ asked => asked.1) start stepped next
  exact ⟨members, counted.imp (fun _ asked => asked) fun _ _ => added.grows _ _ _⟩

/-- A section of `StartElection` other than `BecomeCandidate` only moves the record. -/
theorem electionStep_saves {save : Bool} {stage : ElectionStage} {turn : Turn}
    (other : stage ≠ .preVoteWon) (stepped : Call.electionStep n save stage = some turn) :
    Saves n turn.node := by
  have still : Saves n n := (Moves.refl n).unsaved
  unfold Call.electionStep at stepped
  split at stepped <;> cases stepped
  case h_6 => exact absurd rfl other
  case h_11 => exact promoteCandidate_saves n save _
  all_goals
    simp only [Call.campaign]
    repeat' split
    all_goals exact still

/-- What another campaign of the node knows stays true over a section of `StartElection`, unless that
enters a term and does not store its vote. -/
theorem electionStep_others (named : id ≠ "") (voter : Voter id n state votes)
    (listed : Listed good n) {save : Bool} {stage other : ElectionStage} {turn : Turn}
    (fits : stage = .preVoteWon → n.currentTerm + 1 < Word.limit)
    (saved : stage = .preVoteWon → save = true) (known : Campaign polls id n votes other)
    (stepped : Call.electionStep n save stage = some turn) :
    Campaign polls id turn.node (votes.record id turn.node) other := by
  have added := votes.extends_record id turn.node
  by_cases won : stage = .preVoteWon
  · obtain rfl := saved won
    subst won
    obtain ⟨-, -, voted⟩ := becomeCandidate_fair named voter listed (fits rfl) true
    have stored : (n.becomeCandidate true).err = none := by
      show (RaftNode.persistLocked _ true).2 = none
      unfold RaftNode.persistLocked
      dsimp only
      rw [voter.store]
      rfl
    have node : turn.node = (n.becomeCandidate true).node := by
      obtain rfl := Option.some.inj stepped
      rw [stored]
      rfl
    obtain ⟨members, polled⟩ := known.polled
    refine ⟨fun _ => ?_, members, polled.imp (fun _ asked => asked) fun _ _ => added.grows _ _ _⟩
    rw [node]
    exact voted stored
  · exact known.move added (electionStep_saves won stepped).role

/-- A response that reaches `StartElection`. -/
theorem electionReply_fair (voter : Voter id n state votes) (listed : Listed good n) {save : Bool}
    {peer : NodeId} {stage : ElectionStage} {body : Body} {turn : Turn}
    (known : Campaign polls id n votes stage) (said : VoteBody votes id peer body)
    (replied : Call.reply n save peer (.election stage) body = some turn) :
    FairTurn polls good id votes turn := by
  obtain ⟨term, ⟨node, sent, observed⟩, -⟩ := Call.electionReply_shape replied
  have moved := stepDownForHigherTerm_saves n save term
  rw [← node] at moved
  have added := votes.extends_record id turn.node
  have campaign : ∀ stage', turn.call = some (.election stage') →
      Campaign polls id turn.node (votes.record id turn.node) stage' := by
    intro stage' next
    obtain ⟨members, polled⟩ := known.polled
    have counted := polled.reply
      (fun req resp heard granted => by rw [heard] at said; exact said granted) replied next
    have before : Campaign polls id n votes stage' :=
      ⟨fun running => known.self (Call.electionReply_campaigns replied next running), members, counted⟩
    exact before.move added moved.role
  exact ⟨⟨voter.saves moved, listed.saves moved, fun stage' next => (campaign stage' next).self,
    by simp [sent], by simp [observed]⟩, campaign⟩

end

end Raft

import Mathlib.Data.Finset.Max
import Mathlib.Data.Prod.Lex
import RvKeyValue.Cluster.Continuation

/-!
# A majority can elect a leader

Whatever happened before, a group of members that is a majority can elect one of them by itself: no
message from or to anybody else is needed, and nobody has to crash. A member with the freshest log first
learns of the latest term in the group, from the answer to a pre-vote or, if it leads an old term, to a
heartbeat, and then campaigns.
-/

namespace Raft

open Transition (Reach)

/-- The freshness of a log: the last term, then the last index. -/
def RaftNode.freshness (n : RaftNode) : Nat ×ₗ Nat := toLex (n.lastLogTermLocked, n.lastLogIndexLocked)

/-- One of the two rounds of `StartElection`: the stage in which it starts, what it asks, the stage with
some votes and some answers outstanding, and the stage in which it is won. -/
structure Count where
  /-- The first stage. -/
  opens : ElectionStage
  /-- The request. -/
  request : Body
  /-- The stages between. -/
  counting : Nat → List NodeId → ElectionStage
  /-- The last stage. -/
  won : ElectionStage

/-- The pre-vote of a node. -/
def RaftNode.preVoteCount (n : RaftNode) : Count where
  opens := .preVoteReading
  request := .preVoteRequest n.preVoteRequest
  counting := .preVoting n.preVoteRequest (n.peers.length + 1)
  won := .preVoteWon

/-- The vote on a candidate. -/
def RaftNode.voteCount (n : RaftNode) : Count where
  opens := .campaigning
  request := .voteRequest n.voteRequest
  counting := .voting n.voteRequest (n.peers.length + 1)
  won := .winning n.currentTerm

/-- A group that is a majority. -/
def Faction.Majority (g : Faction) : Prop := majority g.members.ids.length ≤ g.among.length

/-- A member that grants its vote brings a round on by one vote; it keeps its record, or has voted. -/
def Faction.Counts (g : Faction) (id : NodeId) (tag : Nat) (n : RaftNode) (count : Count)
    (Grants Voted : RaftNode → Prop) : Prop :=
  ∀ ⦃c : Cluster⦄ ⦃votes : Nat⦄ ⦃waiting : List NodeId⦄ ⦃voter : NodeId⦄, g.Stands c id →
    (c.servers id).node = n → voter ∈ g.voters id → voter ∈ waiting → Grants (c.servers voter).node →
    (⟨id, voter, tag, count.request⟩ : Packet) ∈ c.net →
    (c.servers id).calls tag = some (.election (count.counting votes waiting)) →
    ∃ c' record, g.Answered c c' id tag voter n (some (.election
      (if majority (n.peers.length + 1) ≤ votes + 1 then count.won
        else count.counting (votes + 1) (waiting.erase voter)))) record ∧
      (record = (c.servers voter).node ∨ Voted record)

section

variable {g : Faction} {c c' : Cluster} {id peer : NodeId} {tag : Nat} {call : Call} {n : RaftNode}
  {count : Count} {Grants Voted : RaftNode → Prop}

/-- Enough votes win a round. The caller keeps its record. -/
theorem Faction.Counts.gathers (counts : g.Counts id tag n count Grants Voted) {votes : Nat}
    {waiting voters : List NodeId} (stands : g.Stands c id) (own : (c.servers id).node = n)
    (distinct : voters.Nodup) (asked : ∀ voter ∈ voters, voter ∈ g.voters id ∧ voter ∈ waiting ∧
      Grants (c.servers voter).node ∧ (⟨id, voter, tag, count.request⟩ : Packet) ∈ c.net)
    (running : (c.servers id).calls tag = some (.election (count.counting votes waiting)))
    (short : votes < majority (n.peers.length + 1))
    (enough : majority (n.peers.length + 1) ≤ votes + voters.length) :
    ∃ c', g.Goes c c' ∧ (c'.servers id).calls tag = some (.election count.won) ∧
      (c'.servers id).node = n ∧
      ∀ other, (c'.servers other).node = (c.servers other).node ∨ Voted (c'.servers other).node := by
  induction voters generalizing c votes waiting with
  | nil =>
    rw [List.length_nil] at enough
    omega
  | cons voter voters ih =>
    rw [List.length_cons] at enough
    obtain ⟨inside, outstanding, grants, sent⟩ := asked voter List.mem_cons_self
    obtain ⟨c₁, record, answered, voted⟩ := counts stands own inside outstanding grants sent running
    have moved : ∀ other, (c₁.servers other).node = (c.servers other).node ∨
        Voted (c₁.servers other).node := by
      intro other
      by_cases here : other = id
      · rw [here, answered.node, own]
        exact Or.inl rfl
      by_cases there : other = voter
      · rw [there, answered.callee]
        exact voted
      · rw [answered.others other here there]
        exact Or.inl rfl
    have next := answered.call
    by_cases won : majority (n.peers.length + 1) ≤ votes + 1
    · rw [if_pos won] at next
      exact ⟨c₁, answered.goes, next, answered.node, moved⟩
    · rw [if_neg won] at next
      obtain ⟨fresh, distinct⟩ := List.nodup_cons.mp distinct
      obtain ⟨c₂, more, done, kept, ends⟩ := ih (stands.after answered.goes) answered.node distinct
        (fun other listed => by
          obtain ⟨otherInside, among, grants, sent⟩ := asked other (List.mem_cons_of_mem _ listed)
          have apart : other ≠ voter := ne_of_mem_of_not_mem listed fresh
          refine ⟨otherInside, (List.mem_erase_of_ne apart).mpr among, ?_, answered.net _ sent apart⟩
          rw [answered.others other ((mem_voters stands.inside).mp otherInside).2 apart]
          exact grants) next (by omega) (by omega)
      refine ⟨c₂, Reach.trans answered.goes more, done, kept, fun other => ?_⟩
      rcases ends other with same | later
      · rw [same]
        exact moved other
      · exact Or.inr later

/-- A round opens: it is won without asking, or all peers are asked. -/
theorem Call.electionStep_opens (n : RaftNode) (save : Bool)
    (round : count = n.preVoteCount ∨ count = n.voteCount) :
    Call.electionStep n save count.opens = some (if majority (n.peers.length + 1) ≤ 1 then
        Call.campaign n count.won
      else { Call.campaign n (count.counting 1 n.peers) with
        sent := n.peers.map fun peer => (peer, count.request) }) := by
  rcases round with rfl | rfl <;> rfl

/-- A member with peers asks them. -/
theorem Faction.asks (stands : g.Stands c id)
    (round : count = (c.servers id).node.preVoteCount ∨ count = (c.servers id).node.voteCount)
    (running : (c.servers id).calls tag = some (.election count.opens))
    (several : ¬ majority ((c.servers id).node.peers.length + 1) ≤ 1) :
    ∃ c', g.Moved c c' id tag (c.servers id).node
        (some (.election (count.counting 1 (c.servers id).node.peers))) ∧
      ∀ voter ∈ g.voters id, (⟨id, voter, tag, count.request⟩ : Packet) ∈ c'.net := by
  have stepped := Call.electionStep_opens (c.servers id).node true round
  rw [if_neg several] at stepped
  obtain ⟨c', moved, net⟩ := takes stands running (Or.inl ⟨_, rfl⟩)
    (by rcases round with rfl | rfl <;> simp [RaftNode.preVoteCount, RaftNode.voteCount]) stepped
  refine ⟨c', moved, fun voter listed => ?_⟩
  have among : voter ∈ (c.servers id).node.peers := by
    rw [(stands.enrolled id).peers]
    exact List.mem_of_mem_filter listed
  rw [net, List.map_map]
  exact List.mem_append_right _ (List.mem_map.mpr ⟨voter, among, rfl⟩)

/-- With its own vote, a member of a majority has enough voters. -/
theorem Faction.Majority.voters_enough (enough : g.Majority) (inside : id ∈ g.among) :
    majority ((g.members.peers id).length + 1) ≤ 1 + (g.voters id).length := by
  obtain ⟨known, member⟩ := mem_among.mp inside
  obtain ⟨counted, size⟩ := g.members.count_peers known member
  unfold Majority among voters at *
  rw [← List.countP_eq_length_filter] at enough ⊢
  rw [← size]
  omega

/-- The round of a member that the other members of a majority grant their votes is won. -/
theorem Faction.Counts.polls (counts : g.Counts id tag (c.servers id).node count Grants Voted)
    (round : count = (c.servers id).node.preVoteCount ∨ count = (c.servers id).node.voteCount)
    (stands : g.Stands c id) (enough : g.Majority)
    (running : (c.servers id).calls tag = some (.election count.opens))
    (grants : ∀ voter ∈ g.voters id, Grants (c.servers voter).node) :
    ∃ c', g.Goes c c' ∧ (c'.servers id).calls tag = some (.election count.won) ∧
      (c'.servers id).node = (c.servers id).node ∧
      ∀ other, (c'.servers other).node = (c.servers other).node ∨ Voted (c'.servers other).node := by
  have peers := (stands.enrolled id).peers
  by_cases single : majority ((c.servers id).node.peers.length + 1) ≤ 1
  · have stepped := Call.electionStep_opens (c.servers id).node true round
    rw [if_pos single] at stepped
    obtain ⟨c', moved, -⟩ := takes stands running (Or.inl ⟨_, rfl⟩)
      (by rcases round with rfl | rfl <;> simp [RaftNode.preVoteCount, RaftNode.voteCount]) stepped
    exact ⟨c', moved.goes, moved.call, moved.node, fun other => Or.inl (moved.same other)⟩
  · obtain ⟨c₁, moved, sent⟩ := Faction.asks stands round running single
    obtain ⟨c₂, goes, won, kept, ends⟩ := counts.gathers (stands.after moved.goes) moved.node
      ((g.members.peersDistinct id (mem_among.mp stands.inside).1).filter _) (fun voter listed => by
        refine ⟨listed, ?_, ?_, sent voter listed⟩
        · rw [peers]
          exact List.mem_of_mem_filter listed
        · rw [moved.same]
          exact grants voter listed) moved.call (by omega) (by
        rw [peers]
        exact enough.voters_enough stands.inside)
    refine ⟨c₂, Reach.trans moved.goes goes, won, kept, fun other => ?_⟩
    rw [← moved.same other]
    exact ends other

/-- `IsLogAtLeastUpToDate` compares the freshness of logs. -/
theorem isLogAtLeastUpToDate_iff (n m : RaftNode) :
    isLogAtLeastUpToDate n.lastLogIndexLocked n.lastLogTermLocked m.lastLogIndexLocked
      m.lastLogTermLocked = true ↔ m.freshness ≤ n.freshness := by
  unfold isLogAtLeastUpToDate RaftNode.freshness
  rw [Prod.Lex.toLex_le_toLex]
  -- the terms differ, or the indices decide
  split
  all_goals
    rw [decide_eq_true_eq]
    dsimp only
    omega

/-- A member that would vote in a term it is not past. -/
def RaftNode.WouldVote (n : RaftNode) (req : PreVoteRequest) (term : Nat) : Prop :=
  n.preVote req = ⟨n.currentTerm, true⟩ ∧ n.currentTerm ≤ term

/-- It brings the pre-vote on, and nobody moves. -/
theorem Faction.preVoteCounts : g.Counts id tag n n.preVoteCount
    (fun m => m.WouldVote n.preVoteRequest n.currentTerm) fun _ => False := by
  intro c votes waiting voter stands own inside outstanding grants sent running
  obtain ⟨granted, behind⟩ := grants
  have handled : Server.handle (c.servers voter).node true (.preVoteRequest n.preVoteRequest) =
      some ((c.servers voter).node,
        some (.preVoteResponse n.preVoteRequest ⟨(c.servers voter).node.currentTerm, true⟩)) := by
    rw [← granted]
    rfl
  have stays : n.stepDownForHigherTerm true (c.servers voter).node.currentTerm = ⟨n, false, none⟩ :=
    if_pos behind
  have replied : Call.reply (c.servers id).node true voter
      (.election (n.preVoteCount.counting votes waiting))
      (.preVoteResponse n.preVoteRequest ⟨(c.servers voter).node.currentTerm, true⟩) =
      some (Call.campaign n (if majority (n.peers.length + 1) ≤ votes + 1 then .preVoteWon
        else n.preVoteCount.counting (votes + 1) (waiting.erase voter))) := by
    rw [own]
    by_cases won : majority (n.peers.length + 1) ≤ votes + 1
    all_goals simp [Call.reply, RaftNode.preVoteCount, outstanding, stays, won]
  obtain ⟨c', answered⟩ := rpc stands inside sent running handled replied
  exact ⟨c', _, answered, Or.inl rfl⟩

/-- A `Save` that succeeds is no error. -/
theorem RaftNode.persistLocked_succeeds (n : RaftNode) : (n.persistLocked true).2 = none := by
  unfold RaftNode.persistLocked
  cases n.store <;> rfl

/-- A member that has not been in a term and whose log is not fresher votes in it. -/
structure RaftNode.WillVote (n : RaftNode) (req : RequestVoteRequest) : Prop where
  /-- The term is later. -/
  later : n.currentTerm < req.term
  /-- The voter is a member. -/
  belongs : n.selfMember = true
  /-- So is the candidate. -/
  knows : n.isMemberLocked req.candidateID = true
  /-- The candidate's log is fresh enough. -/
  fresh : isLogAtLeastUpToDate req.lastLogIndex req.lastLogTerm n.lastLogIndexLocked
    n.lastLogTermLocked = true

/-- It grants its vote, in the term. -/
theorem RaftNode.WillVote.grants {n : RaftNode} {req : RequestVoteRequest} (votes : n.WillVote req) :
    ∃ m, n.requestVote true req = ⟨m, ⟨req.term, true⟩, none⟩ ∧ m.currentTerm = req.term := by
  obtain ⟨later, belongs, knows, fresh⟩ := votes
  have seen : n.seeTerm req.term = { n.adoptTerm req.term with state := .follower } := if_pos later
  have attended : ¬ (req.term < n.currentTerm ∨ n.selfMember = false ∨
      n.isMemberLocked req.candidateID = false) := by
    rw [belongs, knows]
    simp only [not_or]
    exact ⟨by omega, by simp, by simp⟩
  have free : ((n.seeTerm req.term).votedFor = "" ∨ (n.seeTerm req.term).votedFor = req.candidateID) ∧
      isLogAtLeastUpToDate req.lastLogIndex req.lastLogTerm
        (n.seeTerm req.term).lastLogIndexLocked (n.seeTerm req.term).lastLogTermLocked = true := by
    rw [seen]
    exact ⟨Or.inl rfl, fresh⟩
  rw [RaftNode.requestVote_eq, if_neg attended, if_pos free, RaftNode.seeTerm_term later.le]
  refine ⟨(RaftNode.persistLocked { n.seeTerm req.term with votedFor := req.candidateID } true).1,
    ?_, ?_⟩
  · unfold RaftNode.persisting
    rw [RaftNode.persistLocked_succeeds]
  · rw [RaftNode.persistLocked_term]
    exact RaftNode.seeTerm_term later.le

/-- It brings the vote on, and is in the candidate's term. -/
theorem Faction.voteCounts (candidate : n.state = .candidate) : g.Counts id tag n n.voteCount
    (fun m => m.WillVote n.voteRequest) fun m => m.currentTerm = n.currentTerm := by
  intro c votes waiting voter stands own inside outstanding grants sent running
  obtain ⟨record, granted, entered⟩ := grants.grants
  have handled : Server.handle (c.servers voter).node true (.voteRequest n.voteRequest) =
      some (record, some (.voteResponse n.voteRequest ⟨n.currentTerm, true⟩)) := by
    simp only [Server.handle, granted, Option.isSome_none, Bool.false_eq_true, if_false]
    rfl
  have stays : n.stepDownForHigherTerm true n.currentTerm = ⟨n, false, none⟩ := if_pos le_rfl
  have replied : Call.reply (c.servers id).node true voter (.election (n.voteCount.counting votes waiting))
      (.voteResponse n.voteRequest ⟨n.currentTerm, true⟩) = some (Call.campaign n
        (.voteReceived n.voteRequest (n.peers.length + 1) votes (waiting.erase voter) voter true)) := by
    rw [own]
    simp [Call.reply, RaftNode.voteCount, outstanding, stays]
  obtain ⟨c₁, answered⟩ := rpc stands inside sent running handled replied
  have runs : n.isCandidateForTerm n.currentTerm = true := by
    simp [RaftNode.isCandidateForTerm, candidate]
  obtain ⟨c₂, moved, net⟩ := takes (stands.after answered.goes) answered.call (Or.inl ⟨_, rfl⟩) (by simp)
    (show _ = some (Call.campaign n (if majority (n.peers.length + 1) ≤ votes + 1 then
        .winning n.currentTerm else n.voteCount.counting (votes + 1) (waiting.erase voter))) by
      rw [answered.node]
      by_cases won : majority (n.peers.length + 1) ≤ votes + 1
      all_goals simp [Call.step, Call.electionStep, Call.campaign, RaftNode.voteCount, RaftNode.voteRequest,
        runs, won])
  refine ⟨c₂, record, answered.trans ((mem_voters stands.inside).mp inside).2 moved fun packet listed => ?_,
    Or.inr entered⟩
  rw [net]
  exact List.mem_append_left _ listed

/-- A process knows the other members. -/
theorem Enrolled.knows {members : Members} {sv : Server} (enrolled : Enrolled members peer sv)
    (known : peer ∈ members.ids) (other : id ∈ members.ids) (apart : peer ≠ id) :
    sv.node.isMemberLocked id = true := by
  have listed : id ∈ sv.node.peers := by
    rw [enrolled.peers]
    exact (members.mem_peers peer known id).mpr ⟨other, apart.symm⟩
  have foreign : id ≠ sv.node.id := by
    rw [enrolled.own]
    exact apart.symm
  unfold RaftNode.isMemberLocked containsPeer
  rw [if_neg foreign, Bool.or_eq_true, List.any_eq_true]
  exact Or.inl ⟨id, listed, beq_self_eq_true id⟩

/-- A member that no member of the group is ahead of: none has a fresher log or is in a later term. -/
structure Faction.Foremost (g : Faction) (c : Cluster) (id : NodeId) : Prop where
  /-- No log is fresher. -/
  fresh : ∀ other ∈ g.among, (c.servers other).node.freshness ≤ (c.servers id).node.freshness
  /-- No term is later. -/
  latest : ∀ other ∈ g.among, (c.servers other).node.currentTerm ≤ (c.servers id).node.currentTerm

/-- The other members of the group would vote for it. -/
theorem Faction.Foremost.wouldVote (foremost : g.Foremost c id) (stands : g.Stands c id)
    (fits : (c.servers id).node.currentTerm + 1 < Word.limit) {voter : NodeId}
    (listed : voter ∈ g.voters id) :
    (c.servers voter).node.WouldVote (c.servers id).node.preVoteRequest
      (c.servers id).node.currentTerm := by
  obtain ⟨inside, apart⟩ := (mem_voters stands.inside).mp listed
  have low := foremost.latest voter inside
  have fresh := (isLogAtLeastUpToDate_iff _ _).mpr (foremost.fresh voter inside)
  have knows : (c.servers voter).node.isMemberLocked (c.servers id).node.id = true := by
    rw [(stands.enrolled id).own]
    exact (stands.enrolled voter).knows (mem_among.mp inside).1 (mem_among.mp stands.inside).1 apart
  refine ⟨?_, low⟩
  unfold RaftNode.preVote RaftNode.preVoteRequest
  rw [Word.add_eq fits]
  dsimp only
  rw [if_neg (by omega), (stands.enrolled voter).belongs, if_neg (by simp), knows, if_neg (by simp), fresh]

/-- A member that does not lead starts an election and comes to its pre-vote. -/
theorem Faction.opens (stands : g.Stands c id) (idle : (c.servers id).node.state ≠ .leader) :
    ∃ c' tag, g.Moved c c' id tag (c.servers id).node (some (.election .preVoteReading)) := by
  obtain ⟨c₁, tag, first⟩ := start stands .election fun _ => idle
  have belongs := (stands.enrolled id).belongs
  obtain ⟨c₂, second, -⟩ := takes (stands.after first.goes) first.call (Or.inl ⟨_, rfl⟩)
    (by simp [Start.call]) (show _ = some (Call.campaign (c.servers id).node .preVoteStarting) by
      rw [first.node]
      simp [Start.call, Call.step, Call.electionStep, belongs])
  obtain ⟨c₃, third, -⟩ := takes (stands.after (first.trans second).goes) second.call (Or.inl ⟨_, rfl⟩)
    (by simp) (show _ = some (Call.campaign (c.servers id).node .preVoteReading) by
      rw [second.node]
      simp [Call.step, Call.electionStep, Call.campaign, belongs])
  exact ⟨c₃, tag, (first.trans second).trans third⟩

/-- A candidate has the log it had. -/
theorem RaftNode.becomeCandidate_freshness (n : RaftNode) (save : Bool) :
    (n.becomeCandidate save).node.freshness = n.freshness := by
  unfold RaftNode.becomeCandidate RaftNode.persisting
  dsimp only
  rcases RaftNode.persistLocked_cases { n with
      state := .candidate, leaderID := "", nextIndex := none, matchIndex := none
      currentTerm := Word.add n.currentTerm 1, votedFor := n.id } save with same | stored
  · rw [same]
    rfl
  · rw [stored]
    rfl

/-- A member that has won its pre-vote becomes a candidate, with the log it had. -/
theorem Faction.enters (stands : g.Stands c id) (fits : (c.servers id).node.currentTerm + 1 < Word.limit)
    (running : (c.servers id).calls tag = some (.election .preVoteWon)) :
    ∃ c' n, g.Moved c c' id tag n (some (.election .campaigning)) ∧ n.state = .candidate ∧
      n.currentTerm = (c.servers id).node.currentTerm + 1 ∧
      n.freshness = (c.servers id).node.freshness := by
  have saved : ((c.servers id).node.becomeCandidate true).err = none := RaftNode.persistLocked_succeeds _
  obtain ⟨c', moved, -⟩ := takes stands running (Or.inl ⟨_, rfl⟩) (fun _ => fits)
    (show _ = some (Call.campaign ((c.servers id).node.becomeCandidate true).node .campaigning) by
      simp [Call.step, Call.electionStep, saved])
  refine ⟨c', _, moved, (RaftNode.becomeCandidate_role _ true).1, ?_,
    RaftNode.becomeCandidate_freshness _ true⟩
  show ((c.servers id).node.becomeCandidate true).node.currentTerm = _
  rw [RaftNode.becomeCandidate_term, Word.add_eq fits]

/-- A candidate that has won leads its term. -/
theorem Faction.promotes (stands : g.Stands c id) (candidate : (c.servers id).node.state = .candidate)
    (running : (c.servers id).calls tag =
      some (.election (.winning (c.servers id).node.currentTerm))) :
    ∃ c' n, g.Moved c c' id tag n none ∧ n.state = .leader ∧
      n.currentTerm = (c.servers id).node.currentTerm := by
  have promoted : ((c.servers id).node.promoteCandidate true
      (c.servers id).node.currentTerm).value = true := by
    unfold RaftNode.promoteCandidate
    rw [if_neg (by simp [candidate, (stands.enrolled id).belongs])]
    rfl
  obtain ⟨term, leads⟩ := RaftNode.promoteCandidate_leads promoted
  obtain ⟨c', moved, -⟩ := takes stands running (Or.inl ⟨_, rfl⟩) (by simp) rfl
  exact ⟨c', _, moved, leads, term⟩

/-- The foremost member of a majority is elected. -/
theorem Faction.campaigns (stands : g.Stands c id) (enough : g.Majority)
    (idle : (c.servers id).node.state ≠ .leader)
    (fits : (c.servers id).node.currentTerm + 1 < Word.limit) (foremost : g.Foremost c id) :
    ∃ c', g.Goes c c' ∧ (c'.servers id).node.state = .leader ∧
      ∀ other ∈ g.among, (c'.servers other).node.currentTerm ≤ (c'.servers id).node.currentTerm := by
  obtain ⟨c₁, tag, first⟩ := Faction.opens stands idle
  have stands₁ := stands.after first.goes
  have would : ∀ voter ∈ g.voters id, (c₁.servers voter).node.WouldVote
      (c₁.servers id).node.preVoteRequest (c₁.servers id).node.currentTerm := by
    intro voter listed
    rw [first.same, first.same]
    exact foremost.wouldVote stands fits listed
  obtain ⟨c₂, second, call₂, -, same₂⟩ := Counts.polls preVoteCounts (Or.inl rfl) stands₁ enough
    first.call would
  have same : ∀ other, (c₂.servers other).node = (c.servers other).node := by
    intro other
    rcases same₂ other with same | none
    · rw [same, first.same]
    · contradiction
  have stands₂ := stands₁.after second
  obtain ⟨c₃, n, third, candidate, term, freshness⟩ :=
    Faction.enters stands₂ (by rw [same]; exact fits) call₂
  have stands₃ := stands₂.after third.goes
  have before : ∀ other ≠ id, (c₃.servers other).node = (c.servers other).node := by
    intro other here
    rw [third.others other here, same]
  rw [same, ← third.node] at term freshness
  rw [← third.node] at candidate
  have grants : ∀ voter ∈ g.voters id,
      (c₃.servers voter).node.WillVote (c₃.servers id).node.voteRequest := by
    intro voter listed
    obtain ⟨inside, apart⟩ := (mem_voters stands.inside).mp listed
    have low := foremost.latest voter inside
    have fresh := foremost.fresh voter inside
    rw [← freshness, ← before voter apart] at fresh
    refine ⟨?_, (stands₃.enrolled voter).belongs, ?_, (isLogAtLeastUpToDate_iff _ _).mpr fresh⟩
    · show (c₃.servers voter).node.currentTerm < (c₃.servers id).node.currentTerm
      rw [before voter apart]
      omega
    · show (c₃.servers voter).node.isMemberLocked (c₃.servers id).node.id = true
      rw [(stands₃.enrolled id).own]
      exact (stands₃.enrolled voter).knows (mem_among.mp inside).1 (mem_among.mp stands.inside).1 apart
  obtain ⟨c₄, fourth, call₄, node₄, terms⟩ := Counts.polls (voteCounts candidate) (Or.inr rfl) stands₃
    enough third.call grants
  rw [← node₄] at candidate
  obtain ⟨c₅, m, fifth, leads, led⟩ := Faction.promotes (stands₃.after fourth) candidate (by
    rw [call₄, node₄]
    rfl)
  have goes := Reach.trans (Reach.trans (Reach.trans first.goes second) third.goes) fourth
  refine ⟨c₅, Reach.trans goes fifth.goes, by rw [fifth.node]; exact leads, fun other inside => ?_⟩
  by_cases here : other = id
  · rw [here]
  · have low := foremost.latest other inside
    rw [fifth.others other here, fifth.node, led, node₄]
    rcases terms other with kept | entered
    · rw [kept, before other here]
      omega
    · exact entered.le

/-- A node that is shown a later term follows in it, with the log it had. -/
theorem RaftNode.stepDownForHigherTerm_later {n : RaftNode} {term : Nat} (later : n.currentTerm < term) :
    ∃ m, n.stepDownForHigherTerm true term = ⟨m, true, none⟩ ∧ m.state = .follower ∧
      m.currentTerm = term ∧ m.freshness = n.freshness := by
  have moved : n.stepDownForHigherTerm true term =
      { n.adoptTerm term with state := .follower }.persisting true true := if_neg (by omega)
  have saved := RaftNode.persistLocked_succeeds { n.adoptTerm term with state := .follower }
  refine ⟨(RaftNode.persistLocked { n.adoptTerm term with state := .follower } true).1, ?_, ?_⟩
  · rw [moved, RaftNode.persisting, saved]
  · rcases RaftNode.persistLocked_cases { n.adoptTerm term with state := .follower } true with same | stored
    · rw [same]
      exact ⟨rfl, rfl, rfl⟩
    · rw [stored]
      exact ⟨rfl, rfl, rfl⟩

/-- What a member has learned of a later term: it follows in that term, with the log it had, and nobody
else has moved. -/
structure Faction.Learned (g : Faction) (c c' : Cluster) (id : NodeId) (term : Nat) : Prop where
  /-- The group did so by itself. -/
  goes : g.Goes c c'
  /-- It follows. -/
  follows : (c'.servers id).node.state = .follower
  /-- The term. -/
  term : (c'.servers id).node.currentTerm = term
  /-- Its log. -/
  freshness : (c'.servers id).node.freshness = (c.servers id).node.freshness
  /-- The others. -/
  others : ∀ other ≠ id, (c'.servers other).node = (c.servers other).node

/-- A call of a process that kept its record learns of the later term of a peer that refuses its
request. -/
theorem Faction.refused {request answer : Body} (stands : g.Stands c id) (asked : peer ∈ g.voters id)
    (later : (c.servers id).node.currentTerm < (c.servers peer).node.currentTerm)
    (moved : g.Moved c c' id tag (c.servers id).node (some call))
    (sent : (⟨id, peer, tag, request⟩ : Packet) ∈ c'.net)
    (handled : Server.handle (c.servers peer).node true request =
      some ((c.servers peer).node, some answer))
    (replied : ∀ m, (c.servers id).node.stepDownForHigherTerm true (c.servers peer).node.currentTerm =
      ⟨m, true, none⟩ → call.reply (c.servers id).node true peer answer = some { node := m }) :
    ∃ c'', g.Learned c c'' id (c.servers peer).node.currentTerm := by
  rw [← moved.same peer] at handled
  obtain ⟨m, demoted, follows, entered, kept⟩ := RaftNode.stepDownForHigherTerm_later later
  have answered := replied m demoted
  rw [← moved.node] at answered
  obtain ⟨c'', last⟩ := rpc (stands.after moved.goes) asked sent moved.call handled answered
  refine ⟨c'', Reach.trans moved.goes last.goes, ?_, ?_, ?_, fun other here => ?_⟩
  · rw [last.node]
    exact follows
  · rw [last.node]
    exact entered
  · rw [last.node]
    exact kept
  · by_cases away : other = peer
    · rw [away, last.callee, moved.same]
    · rw [last.others other here away, moved.same]

/-- A member that does not lead learns of a later term from a pre-vote. -/
theorem Faction.learnsByPreVote (stands : g.Stands c id) (asked : peer ∈ g.voters id)
    (idle : (c.servers id).node.state ≠ .leader)
    (later : (c.servers id).node.currentTerm < (c.servers peer).node.currentTerm) :
    ∃ c', g.Learned c c' id (c.servers peer).node.currentTerm := by
  have listed : peer ∈ (c.servers id).node.peers := by
    rw [(stands.enrolled id).peers]
    exact List.mem_of_mem_filter asked
  have several : ¬ majority ((c.servers id).node.peers.length + 1) ≤ 1 := by
    have positive := List.length_pos_of_mem listed
    unfold majority
    omega
  obtain ⟨c₁, tag, first⟩ := Faction.opens stands idle
  obtain ⟨c₂, second, sent⟩ := Faction.asks (stands.after first.goes) (Or.inl rfl) (by rw [first.call]; rfl)
    (by rw [first.node]; exact several)
  rw [first.node] at second sent
  have answers : ((c.servers peer).node.preVote (c.servers id).node.preVoteRequest).term =
      (c.servers peer).node.currentTerm := by
    unfold RaftNode.preVote
    repeat' split
    all_goals rfl
  refine Faction.refused stands asked later (first.trans second) (sent peer asked) rfl
    fun m demoted => ?_
  simp [Call.reply, RaftNode.preVoteCount, listed, answers, demoted]

/-- A round builds a request for every remaining peer. -/
theorem Faction.builds {remaining : List NodeId} {requests : List (NodeId × AppendEntriesRequest)}
    (stands : g.Stands c id)
    (knows : ∀ peer ∈ remaining, ∃ req, (c.servers id).node.buildAppendEntries peer = .ok req)
    (running : (c.servers id).calls tag = some (.replicate none (.building remaining requests))) :
    ∃ c' built, g.Moved c c' id tag (c.servers id).node (some (.replicate none (.building [] built))) ∧
      (∀ request ∈ requests, request ∈ built) ∧
      ∀ peer ∈ remaining, ∃ req, (peer, req) ∈ built ∧
        (c.servers id).node.buildAppendEntries peer = .ok req := by
  induction remaining generalizing c requests with
  | nil => exact ⟨c, requests, ⟨Reach.start, rfl, running, fun _ _ => rfl⟩, fun _ listed => listed, by simp⟩
  | cons first remaining ih =>
    obtain ⟨req, built⟩ := knows first List.mem_cons_self
    obtain ⟨c₁, moved, -⟩ := takes stands running (Or.inr ⟨_, _, rfl⟩) (by simp)
      (show _ = some (Call.spread (c.servers id).node none
          (.building remaining (requests ++ [(first, req)]))) by
        simp [Call.step, Call.replicateStep, built])
    have node : (c₁.servers id).node = (c.servers id).node := moved.node
    obtain ⟨c₂, all, more, kept, found⟩ := ih (stands.after moved.goes) (by
      rw [node]
      exact fun peer listed => knows peer (List.mem_cons_of_mem _ listed)) moved.call
    rw [node] at more found
    refine ⟨c₂, all, moved.trans more, fun request listed => kept request (List.mem_append_left _ listed),
      fun peer listed => ?_⟩
    rcases List.mem_cons.mp listed with rfl | later
    · exact ⟨req, kept _ (List.mem_append_right _ List.mem_cons_self), built⟩
    · exact found peer later

/-- A leader of an old term learns of a later one from a heartbeat. -/
theorem Faction.learnsByHeartbeat (stands : g.Stands c id) (asked : peer ∈ g.voters id)
    (leads : (c.servers id).node.state = .leader)
    (later : (c.servers id).node.currentTerm < (c.servers peer).node.currentTerm) :
    ∃ c', g.Learned c c' id (c.servers peer).node.currentTerm := by
  have coherent := (stands.enrolled id).coherent
  obtain ⟨c₁, tag, first⟩ := start stands .replicate (by simp)
  obtain ⟨c₂, second, -⟩ := takes (stands.after first.goes) first.call (Or.inr ⟨_, _, rfl⟩)
    (by simp [Start.call]) (show _ = some (Call.spread (c.servers id).node none .listing) by
      rw [first.node]
      simp only [Start.call, Call.step, Call.replicateStep, coherent.ensureLeaderProgress_same])
  replace second := first.trans second
  obtain ⟨c₃, third, -⟩ := takes (stands.after second.goes) second.call (Or.inr ⟨_, _, rfl⟩) (by simp)
    (show _ = some (Call.spread (c.servers id).node none (.building (c.servers id).node.peers [])) by
      rw [second.node]
      rfl)
  replace third := second.trans third
  have node : (c₃.servers id).node = (c.servers id).node := third.node
  obtain ⟨c₄, built, fourth, -, found⟩ := Faction.builds (stands.after third.goes) (fun other listed => by
    rw [node]
    exact (coherent.builds other).mpr ⟨leads, listed⟩) third.call
  rw [node] at fourth found
  replace fourth := third.trans fourth
  obtain ⟨c₅, fifth, net⟩ := takes (stands.after fourth.goes) fourth.call (Or.inr ⟨_, _, rfl⟩) (by simp) rfl
  rw [fourth.node] at fifth net
  -- the request to the peer is on its way, in the old term
  obtain ⟨req, listed, asks⟩ := found peer (by
    rw [(stands.enrolled id).peers]
    exact List.mem_of_mem_filter asked)
  have old : req.term < (c.servers peer).node.currentTerm := by
    rw [RaftNode.buildAppendEntries_term asks]
    exact later
  have sent : (⟨id, peer, tag, .appendRequest req⟩ : Packet) ∈ c₅.net := by
    rw [net]
    refine List.mem_append_right _ (List.mem_map.mpr ⟨(peer, .appendRequest req), ?_, rfl⟩)
    exact List.mem_map.mpr ⟨(peer, req), listed, rfl⟩
  have refuses : (c.servers peer).node.handleAppendEntries true req =
      ⟨(c.servers peer).node, ⟨(c.servers peer).node.currentTerm, false⟩, none⟩ := by
    unfold RaftNode.handleAppendEntries
    rw [if_pos old]
  have handled : Server.handle (c.servers peer).node true (.appendRequest req) = some
      ((c.servers peer).node, some (.appendResponse req ⟨(c.servers peer).node.currentTerm, false⟩)) := by
    simp [Server.handle, refuses]
  refine Faction.refused stands asked later (fourth.trans fifth) sent handled
    fun m demoted => ?_
  simp [Call.reply, listed, demoted, Call.replicated]

/-- A majority has a member of which some function is largest. -/
theorem Faction.Majority.exists_foremost {α : Type} [LinearOrder α] (enough : g.Majority)
    (f : NodeId → α) : ∃ id ∈ g.among, ∀ other ∈ g.among, f other ≤ f id := by
  have some : 0 < g.among.length := by
    unfold Majority majority at enough
    omega
  obtain ⟨first, inside⟩ := List.exists_mem_of_length_pos some
  obtain ⟨id, among, largest⟩ := Finset.exists_max_image g.among.toFinset f
    ⟨first, List.mem_toFinset.mpr inside⟩
  exact ⟨id, List.mem_toFinset.mp among, fun other listed => largest other (List.mem_toFinset.mpr listed)⟩

/-- A majority can bring one of its members to lead, in a term that no member of the group is past. -/
theorem Faction.Majority.elects (enough : g.Majority)
    (enrolled : ∀ other, Enrolled g.members other (c.servers other))
    (fits : ∀ id ∈ g.among, (c.servers id).node.currentTerm + 1 < Word.limit) :
    ∃ c', ∃ leader ∈ g.among, g.Goes c c' ∧ (c'.servers leader).node.state = .leader ∧
      ∀ other ∈ g.among, (c'.servers other).node.currentTerm ≤ (c'.servers leader).node.currentTerm := by
  obtain ⟨id, inside, fresh⟩ := enough.exists_foremost fun id => (c.servers id).node.freshness
  obtain ⟨peer, peerInside, latest⟩ := enough.exists_foremost fun id => (c.servers id).node.currentTerm
  have stands : g.Stands c id := ⟨enrolled, inside⟩
  by_cases later : (c.servers id).node.currentTerm < (c.servers peer).node.currentTerm
  · -- it first learns of the latest term, whatever its role
    have asked : peer ∈ g.voters id := (mem_voters inside).mpr ⟨peerInside, by rintro rfl; omega⟩
    obtain ⟨c₁, learned⟩ : ∃ c', g.Learned c c' id (c.servers peer).node.currentTerm := by
      by_cases leads : (c.servers id).node.state = .leader
      · exact Faction.learnsByHeartbeat stands asked leads later
      · exact Faction.learnsByPreVote stands asked leads later
    have foremost : g.Foremost c₁ id := by
      constructor
      all_goals
        intro other listed
        by_cases here : other = id
        · rw [here]
      · rw [learned.others other here, learned.freshness]
        exact fresh other listed
      · rw [learned.others other here, learned.term]
        exact latest other listed
    obtain ⟨c₂, second, leads, terms⟩ := Faction.campaigns (stands.after learned.goes) enough
      (by rw [learned.follows]; decide) (by rw [learned.term]; exact fits peer peerInside) foremost
    exact ⟨c₂, id, inside, Reach.trans learned.goes second, leads, terms⟩
  · have current : ∀ other ∈ g.among,
        (c.servers other).node.currentTerm ≤ (c.servers id).node.currentTerm := by
      intro other listed
      have low := latest other listed
      omega
    by_cases leads : (c.servers id).node.state = .leader
    · exact ⟨c, id, inside, Reach.start, leads, current⟩
    · obtain ⟨c₁, first, promoted, terms⟩ :=
        Faction.campaigns stands enough leads (fits id inside) ⟨fresh, current⟩
      exact ⟨c₁, id, inside, first, promoted, terms⟩

end

/-- From every state that a cluster with fixed members reaches, whoever crashed, whichever messages were
lost and whichever saves failed, a group that is a majority can bring one of its members to lead, in a
term that no member of the group is past. The group does so by itself, and nobody in it crashes. -/
theorem majority_elects {unmarshal : Bytes → Option MembershipCommand} {members : Members}
    {group : List NodeId} {c : Cluster}
    (run : Reach (Cluster.step unmarshal members)
      (fun c label => c.membershipFixed unmarshal label = true) (.initial members) c)
    (enough : majority members.ids.length ≤ members.ids.countP fun id => decide (id ∈ group))
    (fits : ∀ id ∈ group, id ∈ members.ids → (c.servers id).node.currentTerm + 1 < Word.limit) :
    ∃ c' leader, leader ∈ group ∧ leader ∈ members.ids ∧
      Reach (Cluster.step unmarshal members) (Alone unmarshal group) c c' ∧
      (c'.servers leader).node.state = .leader ∧
      ∀ other ∈ group, other ∈ members.ids →
        (c'.servers other).node.currentTerm ≤ (c'.servers leader).node.currentTerm := by
  let g : Faction := ⟨unmarshal, members, group⟩
  have many : g.Majority := by
    unfold Faction.Majority Faction.among
    rw [← List.countP_eq_length_filter]
    exact enough
  obtain ⟨c', leader, inside, goes, leads, terms⟩ := many.elects (Enrolled.reach run) fun id inside =>
    fits id (Faction.mem_among.mp inside).2 (Faction.mem_among.mp inside).1
  obtain ⟨known, member⟩ := Faction.mem_among.mp inside
  exact ⟨c', leader, member, known, goes, leads, fun other otherInside otherKnown =>
    terms other (Faction.mem_among.mpr ⟨otherKnown, otherInside⟩)⟩

/-- `A` leads term 1 with the votes of `B` and `C`. Cut off from `A` and `B`, the others can elect one of
them, in a term that `C`, which voted for `A`, is not past. -/
theorem majority_elects_others : ∃ c c' leader,
    Reach (Cluster.step plainCommands fiveNodes)
      (fun c label => c.membershipFixed plainCommands label = true) (.initial fiveNodes) c ∧
      (c.servers "A").node.state = .leader ∧ (c.servers "C").node.currentTerm = 1 ∧
      leader ∈ ["C", "D", "E"] ∧
      Reach (Cluster.step plainCommands fiveNodes) (Alone plainCommands ["C", "D", "E"]) c c' ∧
      (c'.servers leader).node.state = .leader ∧
      (c'.servers "C").node.currentTerm ≤ (c'.servers leader).node.currentTerm := by
  have passed : (Transition.exec (Cluster.step plainCommands fiveNodes)
      (fun c label => c.membershipFixed plainCommands label = true) (.initial fiveNodes)
      electedByThree).any (fun c => decide ((c.servers "A").node.state = .leader ∧
        (c.servers "C").node.currentTerm = 1 ∧
        ∀ id ∈ ["C", "D", "E"], (c.servers id).node.currentTerm + 1 < Word.limit)) = true := by
    decide +kernel
  obtain ⟨c, run, test⟩ := Reach.of_exec_test passed
  obtain ⟨leads, voted, room⟩ := of_decide_eq_true test
  have enough : majority fiveNodes.ids.length ≤
      fiveNodes.ids.countP fun id => decide (id ∈ ["C", "D", "E"]) := by
    decide
  obtain ⟨c', leader, member, -, goes, leads', terms⟩ :=
    majority_elects run enough fun id inside _ => room id inside
  exact ⟨c, c', leader, run, leads, voted, member, goes, leads', terms "C" (by decide) (by decide)⟩

end Raft

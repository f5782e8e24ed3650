import RvKeyValue.Cluster.System
import RvKeyValue.Node.Operation

/-!
# Durable votes

A `Save` may fail, so the vote in memory can run ahead of the stored one, and a crash takes it
back. What counts is the vote that was once on disk: a node that has stored a vote in a term
never stores another one in that term, because memory keeps a stored vote for as long as the
term lasts and a restart reads it back. A node that applies its own removal forgets its vote, but
it does not vote until it comes back.

Every section first moves the record, keeping its store, and then possibly saves it.
-/

namespace Raft

/-- The votes that were on disk at some time: who voted in which term for whom. -/
abbrev Votes := NodeId → Nat → NodeId → Prop

/-- A node's votes have grown and nobody else's have changed. -/
structure Votes.Extends (id : NodeId) (votes votes' : Votes) : Prop where
  /-- No vote is forgotten. -/
  grows : ∀ voter term candidate, votes voter term candidate → votes' voter term candidate
  /-- Other voters' votes are the same. -/
  only : ∀ voter, voter ≠ id → votes' voter = votes voter

/-- Nobody votes. -/
theorem Votes.extends_refl (votes : Votes) (id : NodeId) : votes.Extends id votes where
  grows _ _ _ voted := voted
  only _ _ := rfl

/-- The votes with the one a record has stored. -/
def Votes.record (votes : Votes) (id : NodeId) (n : RaftNode) : Votes := fun voter term candidate =>
  votes voter term candidate ∨ voter = id ∧ ∃ state, n.store = some state ∧
    state.currentTerm = term ∧ state.votedFor = candidate ∧ candidate ≠ ""

/-- A record whose memory and disk agree with the votes it has stored. -/
structure Voter (id : NodeId) (n : RaftNode) (state : PersistentState) (votes : Votes) : Prop where
  /-- The record is the node's. -/
  own : n.id = id
  /-- What is stored. -/
  store : n.store = some state
  /-- Memory is in no earlier term than the disk. -/
  term : state.currentTerm ≤ n.currentTerm
  /-- A vote in the term of memory is remembered, unless the node has left. -/
  memory : ∀ candidate, votes id n.currentTerm candidate →
    n.votedFor = candidate ∨ n.votedFor = "" ∧ n.selfMember = false
  /-- So is one in the stored term after a restart. -/
  disk : ∀ candidate, votes id state.currentTerm candidate →
    state.votedFor = candidate ∨ state.votedFor = "" ∧ state.selfMember.getD true = false
  /-- The stored vote is on record. -/
  recorded : state.votedFor ≠ "" → votes id state.currentTerm state.votedFor
  /-- No vote is in a later term than the stored one. -/
  past : ∀ term candidate, votes id term candidate → term ≤ state.currentTerm
  /-- Votes are for somebody. -/
  named : ∀ term candidate, votes id term candidate → candidate ≠ ""
  /-- One vote in each term. -/
  once : ∀ term left right, votes id term left → votes id term right → left = right

/-- The peer lists of a record, in memory and on disk, are as they should be. -/
structure Listed (good : List NodeId → Prop) (n : RaftNode) : Prop where
  /-- In memory. -/
  memory : good n.peers
  /-- On disk, if a list is stored. -/
  disk : ∀ state peers, n.store = some state → state.peers = some peers → good peers

/-- A record moved without saving: the term only rises, a vote is kept within it, and only a member
votes. -/
structure Respects (n m : RaftNode) : Prop where
  /-- The id is the same. -/
  own : m.id = n.id
  /-- The peers are the same. -/
  peers : m.peers = n.peers
  /-- The node is a member as before. -/
  member : m.selfMember = n.selfMember
  /-- The store is the same. -/
  store : m.store = n.store
  /-- The term does not fall. -/
  term : n.currentTerm ≤ m.currentTerm
  /-- A vote is kept within its term. -/
  vote : m.currentTerm = n.currentTerm → n.votedFor ≠ "" → m.votedFor = n.votedFor
  /-- Only a member votes. -/
  free : m.currentTerm = n.currentTerm → m.votedFor ≠ n.votedFor → n.selfMember = true

/-- A record moved without saving and did not become a candidate. -/
structure Moves (n m : RaftNode) : Prop extends Respects n m where
  /-- A candidate was one before, in the same term. -/
  role : m.state = .candidate → n.state = .candidate ∧ m.currentTerm = n.currentTerm

/-- A record moved and was possibly saved. -/
def Saves (n n' : RaftNode) : Prop :=
  ∃ m, Moves n m ∧ (n' = m ∨ n' = { m with store := some m.persistentState })

section Moving

variable {n m m' : RaftNode}

/-- Nothing moved. -/
theorem Moves.refl (n : RaftNode) : Moves n n :=
  ⟨⟨rfl, rfl, rfl, rfl, le_refl _, fun _ _ => rfl, fun _ other => absurd rfl other⟩,
    fun role => ⟨role, rfl⟩⟩

/-- Moving twice. -/
theorem Moves.trans (first : Moves n m) (second : Moves m m') : Moves n m' where
  own := second.own.trans first.own
  peers := second.peers.trans first.peers
  member := second.member.trans first.member
  store := second.store.trans first.store
  term := le_trans first.term second.term
  vote same voted := by
    have low := first.term
    have high := second.term
    have kept := first.vote (by omega) voted
    rw [← kept]
    exact second.vote (by omega) (by rw [kept]; exact voted)
  free same changed := by
    have low := first.term
    have high := second.term
    by_cases before : m.votedFor = n.votedFor
    · rw [← before] at changed
      rw [← first.member]
      exact second.free (by omega) changed
    · exact first.free (by omega) before
  role candidate := by
    have after := second.role candidate
    have before := first.role after.1
    exact ⟨before.1, after.2.trans before.2⟩

/-- A section that does not save. -/
theorem Moves.unsaved (moves : Moves n m) : Saves n m := ⟨m, moves, Or.inl rfl⟩

/-- A section that ends with a save, which may fail. -/
theorem Moves.saved (moves : Moves n m) (save : Bool) : Saves n (m.persistLocked save).1 := by
  refine ⟨m, moves, ?_⟩
  unfold RaftNode.persistLocked
  cases m.store with
  | none => exact Or.inl rfl
  | some state =>
    cases save with
    | false => exact Or.inl rfl
    | true => exact Or.inr rfl

/-- A candidate after a section was one before, in the same term. -/
theorem Saves.role {n n' : RaftNode} (moved : Saves n n') (candidate : n'.state = .candidate) :
    n.state = .candidate ∧ n'.currentTerm = n.currentTerm := by
  obtain ⟨m, moves, saved⟩ := moved
  cases saved with
  | inl same => rw [same] at candidate ⊢; exact moves.role candidate
  | inr stored => rw [stored] at candidate ⊢; exact moves.role candidate

/-- A section that touches none of id, membership, role, term, vote and store. -/
theorem Moves.keep (own : m.id = n.id) (peers : m.peers = n.peers)
    (member : m.selfMember = n.selfMember) (store : m.store = n.store)
    (term : m.currentTerm = n.currentTerm) (vote : m.votedFor = n.votedFor)
    (role : m.state = n.state) : Moves n m :=
  ⟨⟨own, peers, member, store, term.ge, fun _ _ => vote, fun _ other => absurd vote other⟩,
    fun candidate => ⟨role ▸ candidate, term⟩⟩

/-- A section that leaves the candidate's role and touches none of id, membership, term, vote and
store. -/
theorem Moves.leave (own : m.id = n.id) (peers : m.peers = n.peers)
    (member : m.selfMember = n.selfMember) (store : m.store = n.store)
    (term : m.currentTerm = n.currentTerm) (vote : m.votedFor = n.votedFor)
    (role : m.state ≠ .candidate) : Moves n m :=
  ⟨⟨own, peers, member, store, term.ge, fun _ _ => vote, fun _ other => absurd vote other⟩,
    fun candidate => absurd candidate role⟩

/-- Entering a later term. -/
theorem Respects.later (own : m.id = n.id) (peers : m.peers = n.peers)
    (member : m.selfMember = n.selfMember) (store : m.store = n.store)
    (term : n.currentTerm < m.currentTerm) : Respects n m :=
  ⟨own, peers, member, store, term.le, fun same _ => by omega, fun same _ => by omega⟩

/-- Entering a later term in another role than candidate. -/
theorem Moves.later (own : m.id = n.id) (peers : m.peers = n.peers)
    (member : m.selfMember = n.selfMember) (store : m.store = n.store)
    (term : n.currentTerm < m.currentTerm) (role : m.state ≠ .candidate) : Moves n m :=
  ⟨.later own peers member store term, fun candidate => absurd candidate role⟩

end Moving

section Voting

variable {id : NodeId} {n m : RaftNode} {state : PersistentState} {votes : Votes}
  {good : List NodeId → Prop}

/-- What is stored is put on record, for this node only. -/
theorem Votes.extends_record (votes : Votes) (id : NodeId) (n : RaftNode) :
    votes.Extends id (votes.record id n) := by
  refine ⟨fun _ _ _ voted => Or.inl voted, fun other ne => ?_⟩
  funext term candidate
  simp [Votes.record, ne]

/-- The stored vote is on record already. -/
theorem Voter.record_eq (voter : Voter id n state votes) : votes.record id n = votes := by
  funext other term candidate
  refine propext ⟨fun voted => ?_, Or.inl⟩
  rcases voted with old | ⟨rfl, stored, store, rfl, rfl, named⟩
  · exact old
  · obtain rfl := Option.some.inj (voter.store.symm.trans store)
    exact voter.recorded named

/-- No vote is in a later term than memory. -/
theorem Voter.le (voter : Voter id n state votes) {term : Nat} {candidate : NodeId}
    (voted : votes id term candidate) : term ≤ n.currentTerm :=
  (voter.past _ _ voted).trans voter.term

/-- A move keeps the voter's word. -/
theorem Voter.move (voter : Voter id n state votes) (moved : Respects n m) :
    Voter id m state votes where
  own := moved.own.trans voter.own
  store := moved.store.trans voter.store
  term := le_trans voter.term moved.term
  memory candidate voted := by
    have low := moved.term
    have high := voter.le voted
    have same : m.currentTerm = n.currentTerm := by omega
    rw [same] at voted
    rcases voter.memory candidate voted with kept | ⟨empty, gone⟩
    · refine Or.inl ((moved.vote same ?_).trans kept)
      rw [kept]
      exact voter.named _ _ voted
    · have still : m.votedFor = n.votedFor := by
        by_contra changed
        have member := moved.free same changed
        rw [gone] at member
        contradiction
      exact Or.inr ⟨still.trans empty, moved.member.trans gone⟩
  disk := voter.disk
  recorded := voter.recorded
  past := voter.past
  named := voter.named
  once := voter.once

/-- A membership change is applied: a node that goes forgets its vote, and one that comes back has
not voted in the term, or remembers. -/
theorem Voter.reconfigure (voter : Voter id n state votes) {change : MembershipChange}
    (applied : RaftNode.Reconfigured n change m)
    (later : change = ⟨.addPeer, id⟩ → n.selfMember = false → n.votedFor = "" →
      ∀ candidate, ¬ votes id n.currentTerm candidate) : Voter id m state votes where
  own := applied.own.trans voter.own
  store := applied.store.trans voter.store
  term := by
    rw [applied.term]
    exact voter.term
  memory candidate voted := by
    rw [applied.term] at voted
    exact applied.remembers (voter.memory candidate voted) fun comes removed empty =>
      later (comes.trans (by rw [voter.own])) removed empty candidate voted
  disk := voter.disk
  recorded := voter.recorded
  past := voter.past
  named := voter.named
  once := voter.once

/-- Saving puts the vote in memory on record and contradicts none. -/
theorem Voter.save (voter : Voter id n state votes) :
    Voter id { n with store := some n.persistentState } n.persistentState
      (votes.record id { n with store := some n.persistentState }) := by
  -- a vote on record in the term is the one in memory, if there is one in memory
  have agrees : ∀ candidate, votes id n.currentTerm candidate → n.votedFor ≠ "" →
      n.votedFor = candidate := by
    intro candidate voted named
    exact (voter.memory candidate voted).resolve_right fun gone => named gone.1
  have stored : ∀ {term : Nat} {candidate : NodeId},
      votes.record id { n with store := some n.persistentState } id term candidate →
      votes id term candidate ∨ term = n.currentTerm ∧ n.votedFor = candidate ∧ candidate ≠ "" := by
    intro term candidate voted
    rcases voted with old | ⟨-, saved, store, rfl, rfl, named⟩
    · exact Or.inl old
    · obtain rfl := Option.some.inj store
      exact Or.inr ⟨rfl, rfl, named⟩
  have present : ∀ candidate,
      votes.record id { n with store := some n.persistentState } id n.currentTerm candidate →
      n.votedFor = candidate ∨ n.votedFor = "" ∧ n.selfMember = false := by
    intro candidate voted
    rcases stored voted with old | ⟨-, same, -⟩
    · exact voter.memory candidate old
    · exact Or.inl same
  exact {
    own := voter.own
    store := rfl
    term := le_refl _
    memory := present
    disk := present
    recorded := fun voted => Or.inr ⟨rfl, _, rfl, rfl, rfl, voted⟩
    past := fun term candidate voted => by
      rcases stored voted with old | ⟨same, -⟩
      · exact voter.le old
      · exact same.le
    named := fun term candidate voted => by
      rcases stored voted with old | ⟨-, -, named⟩
      · exact voter.named _ _ old
      · exact named
    once := fun term left right votedLeft votedRight => by
      rcases stored votedLeft with oldLeft | ⟨rfl, rfl, named⟩
      · rcases stored votedRight with oldRight | ⟨rfl, rfl, named⟩
        · exact voter.once _ _ _ oldLeft oldRight
        · exact (agrees left oldLeft named).symm
      · rcases stored votedRight with oldRight | ⟨-, same, -⟩
        · exact agrees right oldRight named
        · exact same }

/-- What was possibly saved keeps the voter's word. -/
theorem Voter.persisted (voter : Voter id m state votes) {n' : RaftNode}
    (saved : n' = m ∨ n' = { m with store := some m.persistentState }) :
    ∃ state', Voter id n' state' (votes.record id n') := by
  rcases saved with rfl | rfl
  · refine ⟨state, ?_⟩
    rw [voter.record_eq]
    exact voter
  · exact ⟨_, voter.save⟩

/-- A section keeps the voter's word. -/
theorem Voter.saves (voter : Voter id n state votes) {n' : RaftNode} (moved : Saves n n') :
    ∃ state', Voter id n' state' (votes.record id n') := by
  obtain ⟨m, moves, saved⟩ := moved
  exact (voter.move moves.toRespects).persisted saved

/-- A restart reads the stored vote back. -/
theorem Voter.restart (voter : Voter id n state votes) (peers : List NodeId) :
    Voter id (newRaftNode id peers n.store) state votes := by
  rw [voter.store]
  exact {
    own := rfl
    store := rfl
    term := le_refl _
    memory := voter.disk
    disk := voter.disk
    recorded := voter.recorded
    past := voter.past
    named := voter.named
    once := voter.once }

/-- What was possibly saved has the peers it had. -/
theorem Listed.persisted (listed : Listed good m) {n' : RaftNode}
    (saved : n' = m ∨ n' = { m with store := some m.persistentState }) : Listed good n' := by
  rcases saved with rfl | rfl
  · exact listed
  · refine ⟨listed.memory, fun state peers store some => ?_⟩
    obtain rfl := Option.some.inj store
    replace some : clonePeers m.peers = .some peers := some
    unfold clonePeers at some
    split at some
    · contradiction
    · rw [← Option.some.inj some]
      exact listed.memory

/-- A section leaves the peers alone. -/
theorem Listed.saves (listed : Listed good n) {n' : RaftNode} (moved : Saves n n') :
    Listed good n' := by
  obtain ⟨m, moves, saved⟩ := moved
  refine Listed.persisted ⟨?_, fun state peers store some => ?_⟩ saved
  · rw [moves.peers]
    exact listed.memory
  · rw [moves.store] at store
    exact listed.disk state peers store some

/-- A restart reads a stored list or takes the one it is given. -/
theorem Listed.restart (listed : Listed good n) {peers : List NodeId} (given : good peers)
    (id : NodeId) : Listed good (newRaftNode id peers n.store) := by
  refine ⟨?_, fun state found store some => ?_⟩
  · cases store : n.store with
    | none => exact given
    | some state =>
      show good (state.peers.getD peers)
      cases some : state.peers with
      | none => exact given
      | some found => exact listed.disk state found store some
  · refine listed.disk state found ?_ some
    rw [← store]
    cases n.store <;> rfl

end Voting

section Sections

variable (n : RaftNode)

/-- The commit rule touches only the commit index. -/
theorem advanceCommitLocked_moves : Moves n n.advanceCommitLocked := by
  cases n.advanceCommitLocked_cases with
  | inl same => rw [same]; exact .refl n
  | inr committed =>
    obtain ⟨index, -, -, -, -, -, same⟩ := committed
    rw [same]
    exact .keep rfl rfl rfl rfl rfl rfl rfl

/-- A move and then the commit rule. -/
theorem Moves.committed {n m : RaftNode} (moves : Moves n m) : Moves n m.advanceCommitLocked :=
  moves.trans (advanceCommitLocked_moves m)

/-- Resetting the leader's progress touches only that and the commit index. -/
theorem initLeaderProgressLocked_moves : Moves n n.initLeaderProgressLocked := by
  unfold RaftNode.initLeaderProgressLocked
  apply Moves.committed
  exact .keep rfl rfl rfl rfl rfl rfl rfl

/-- `ensureLeaderProgress`. -/
theorem ensureLeaderProgress_moves : Moves n n.ensureLeaderProgress := by
  unfold RaftNode.ensureLeaderProgress
  split
  · exact .refl n
  split
  · exact .refl n
  · exact initLeaderProgressLocked_moves n

/-- `RecordReplicationSuccess`. -/
theorem recordReplicationSuccess_moves (peer : NodeId) (matchIndex : Nat) :
    Moves n (n.recordReplicationSuccess peer matchIndex).1 := by
  unfold RaftNode.recordReplicationSuccess
  split
  · exact .refl n
  · apply Moves.committed
    exact .keep rfl rfl rfl rfl rfl rfl rfl

/-- `RecordReplicationFailure`. -/
theorem recordReplicationFailure_moves (peer : NodeId) :
    Moves n (n.recordReplicationFailure peer).1 := by
  unfold RaftNode.recordReplicationFailure
  split
  · exact .refl n
  split
  · exact .refl n
  split
  · exact .refl n
  · exact .keep rfl rfl rfl rfl rfl rfl rfl

/-- `markApplied`. -/
theorem markApplied_moves (index : Nat) : Moves n (n.markApplied index) := by
  unfold RaftNode.markApplied
  split
  · exact .keep rfl rfl rfl rfl rfl rfl rfl
  · exact .refl n

/-- The commit rule of a follower. -/
theorem followCommit_moves (leaderCommit : Nat) : Moves n (n.followCommit leaderCommit) := by
  unfold RaftNode.followCommit
  split
  · exact .keep rfl rfl rfl rfl rfl rfl rfl
  · exact .refl n

/-- Adopting the term of a vote request and voting, when the vote is free. -/
theorem vote_moves {term : Nat} {candidate : NodeId} (member : n.selfMember = true)
    (free : (n.seeTerm term).votedFor = "" ∨ (n.seeTerm term).votedFor = candidate) :
    Moves n { n.seeTerm term with votedFor := candidate } := by
  unfold RaftNode.seeTerm at free ⊢
  split
  · rename_i later
    exact .later rfl rfl rfl rfl later (by simp)
  · rename_i same
    rw [if_neg same] at free
    exact ⟨⟨rfl, rfl, rfl, rfl, le_refl _, fun _ voted => (free.resolve_left voted).symm,
      fun _ _ => member⟩, fun role => ⟨role, rfl⟩⟩

/-- Adopting the term of a vote request. -/
theorem seeTerm_moves (term : Nat) : Moves n (n.seeTerm term) := by
  unfold RaftNode.seeTerm
  split
  · rename_i later
    exact .later rfl rfl rfl rfl later (by simp)
  · exact .refl n

/-- Following a leader. -/
theorem follow_moves (req : AppendEntriesRequest) : Moves n (n.follow req) := by
  by_cases later : n.currentTerm < req.term
  · simp only [RaftNode.follow, if_pos later]
    split
    · exact .later rfl rfl rfl rfl later (by simp)
    · exact .later rfl rfl rfl rfl later (by simp)
  · simp only [RaftNode.follow, if_neg later]
    split
    · exact .leave rfl rfl rfl rfl rfl rfl (by simp)
    · exact .leave rfl rfl rfl rfl rfl rfl (by simp)

/-- Accepting a leader's entries. -/
theorem accept_moves (req : AppendEntriesRequest) : Moves n (n.accept req) := by
  refine (follow_moves n req).trans (.trans ?_ (followCommit_moves _ _))
  exact .keep rfl rfl rfl rfl rfl rfl rfl

/-- `stepDownForHigherTerm`. -/
theorem stepDownForHigherTerm_saves (save : Bool) (term : Nat) :
    Saves n (n.stepDownForHigherTerm save term).node := by
  unfold RaftNode.stepDownForHigherTerm
  split
  · exact (Moves.refl n).unsaved
  · rename_i old
    refine Moves.saved ?_ save
    exact .later rfl rfl rfl rfl (Nat.lt_of_not_le old) (by simp)

/-- `RequestVote`. -/
theorem requestVote_saves (save : Bool) (req : RequestVoteRequest) :
    Saves n (n.requestVote save req).node := by
  cases n.requestVote_cases save req with
  | inl refused => rw [refused]; exact (Moves.refl n).unsaved
  | inr seen =>
    cases seen.2 with
    | inl granted =>
      have member : n.selfMember = true := n.requestVote_member (by rw [granted.2.2]; rfl)
      rw [granted.2.2]
      exact (vote_moves n member granted.1).saved save
    | inr adopted => rw [adopted.2]; exact (seeTerm_moves n req.term).saved save

/-- `HandleAppendEntries`. -/
theorem handleAppendEntries_saves (save : Bool) (req : AppendEntriesRequest) :
    Saves n (n.handleAppendEntries save req).node := by
  cases n.handleAppendEntries_cases save req with
  | inl refused => rw [refused]; exact (Moves.refl n).unsaved
  | inr followed =>
    cases followed.2.2 with
    | inl rejected =>
      cases rejected.2 with
      | inl newer => rw [newer.2]; exact (follow_moves n req).saved save
      | inr same => rw [same.2]; exact (follow_moves n req).unsaved
    | inr matched =>
      cases matched.2 with
      | inl changed => rw [changed.2]; exact (accept_moves n req).saved save
      | inr unchanged => rw [unchanged.2]; exact (accept_moves n req).unsaved

/-- `promoteCandidate`. -/
theorem promoteCandidate_saves (save : Bool) (term : Nat) :
    Saves n (n.promoteCandidate save term).node := by
  unfold RaftNode.promoteCandidate
  split
  · exact (Moves.refl n).unsaved
  · have led : Moves n { n with state := .leader, leaderID := n.id } :=
      .leave rfl rfl rfl rfl rfl rfl (by simp)
    exact (led.trans (initLeaderProgressLocked_moves _)).saved save

/-- `AppendLocal`. -/
theorem appendLocal_saves (unmarshal : Bytes → Option MembershipCommand) (save : Bool)
    (command : Bytes) : Saves n (n.appendLocal unmarshal save command).node := by
  have appends : Saves n (n.appendCommand save command).node := by
    unfold RaftNode.appendCommand
    refine Moves.saved ?_ save
    split
    · apply Moves.committed
      exact .keep rfl rfl rfl rfl rfl rfl rfl
    · exact .keep rfl rfl rfl rfl rfl rfl rfl
  cases RaftNode.appendLocal_cases unmarshal n save command with
  | inl refused =>
    obtain ⟨err, same⟩ := refused
    rw [same]
    exact (Moves.refl n).unsaved
  | inr appended =>
    rw [appended]
    exact appends

/-- `Compact`. -/
theorem compact_saves (save : Bool) (snapshot : Bytes) :
    Saves n (n.compact save snapshot).node := by
  unfold RaftNode.compact
  split
  · exact (Moves.refl n).unsaved
  split
  · exact (Moves.refl n).unsaved
  · refine Moves.saved ?_ save
    exact .keep rfl rfl rfl rfl rfl rfl rfl

end Sections

end Raft

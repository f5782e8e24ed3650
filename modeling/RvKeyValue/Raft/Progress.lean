import RvKeyValue.Raft.Node

/-!
# Leader progress and the commit rule

The sections of `raft/node.go` and `raft/heartbeat.go` that keep a leader's view of its peers,
and the commit rule that reads it.
-/

namespace Raft.RaftNode

/-- Members of the cluster that hold an index, as `advanceCommitLocked` counts them: the node
itself and the peers whose match index reaches it. -/
def replicatedCount (n : RaftNode) (index : Nat) : Nat :=
  1 + n.peers.countP fun peer =>
    decide (index ≤ ((n.matchIndex.bind fun progress => progress peer).getD 0))

/-- The loop of `advanceCommitLocked`, from an index downwards to the commit index. -/
def advanceCommitFrom (n : RaftNode) : Nat → RaftNode
  | 0 => n
  | index + 1 =>
    if index + 1 ≤ n.commitIndex then n
    else if n.logTermAtLocked (index + 1) ≠ n.currentTerm then n.advanceCommitFrom index
    else if majority n.clusterSizeLocked ≤ n.replicatedCount (index + 1) then
      { n with commitIndex := index + 1, commitReady := true }
    else n.advanceCommitFrom index

/-- `advanceCommitLocked` — commit the highest entry of the current term a majority holds. -/
def advanceCommitLocked (n : RaftNode) : RaftNode :=
  if n.state ≠ .leader ∨ n.selfMember = false then n
  else n.advanceCommitFrom n.lastLogIndexLocked

/-- The loop either finds nothing to commit or commits an index a majority holds. -/
theorem advanceCommitFrom_cases (n : RaftNode) (top : Nat) :
    n.advanceCommitFrom top = n ∨
      ∃ index, n.commitIndex < index ∧ index ≤ top ∧ n.logTermAtLocked index = n.currentTerm ∧
        majority n.clusterSizeLocked ≤ n.replicatedCount index ∧
        n.advanceCommitFrom top = { n with commitIndex := index, commitReady := true } := by
  induction top with
  | zero => exact Or.inl rfl
  | succ top ih =>
    have lower : n.advanceCommitFrom top = n ∨ ∃ index, n.commitIndex < index ∧ index ≤ top + 1 ∧
        n.logTermAtLocked index = n.currentTerm ∧
        majority n.clusterSizeLocked ≤ n.replicatedCount index ∧
        n.advanceCommitFrom top = { n with commitIndex := index, commitReady := true } := by
      refine ih.imp_right fun found => found.imp fun index facts => ?_
      exact ⟨facts.1, Nat.le_succ_of_le facts.2.1, facts.2.2⟩
    unfold advanceCommitFrom
    split
    · exact Or.inl rfl
    · rename_i above
      split
      · exact lower
      · rename_i current
        split
        · rename_i enough
          exact Or.inr ⟨top + 1, Nat.lt_of_not_le above, le_refl _, not_not.mp current, enough, rfl⟩
        · exact lower

/-- `advanceCommitLocked` changes nothing or commits, as a leader, an entry of its own term that
a majority holds. -/
theorem advanceCommitLocked_cases (n : RaftNode) :
    n.advanceCommitLocked = n ∨
      ∃ index, n.state = .leader ∧ n.commitIndex < index ∧ index ≤ n.lastLogIndexLocked ∧
        n.logTermAtLocked index = n.currentTerm ∧
        majority n.clusterSizeLocked ≤ n.replicatedCount index ∧
        n.advanceCommitLocked = { n with commitIndex := index, commitReady := true } := by
  unfold advanceCommitLocked
  split
  · exact Or.inl rfl
  · rename_i leading
    rw [not_or, not_not] at leading
    refine (n.advanceCommitFrom_cases n.lastLogIndexLocked).imp_right fun found => ?_
    exact found.imp fun index facts => ⟨leading.1, facts⟩

/-- Committing changes neither term nor role. -/
theorem advanceCommitLocked_role (n : RaftNode) :
    n.advanceCommitLocked.currentTerm = n.currentTerm ∧ n.advanceCommitLocked.state = n.state := by
  cases n.advanceCommitLocked_cases with
  | inl same =>
    rw [same]
    exact ⟨rfl, rfl⟩
  | inr committed =>
    obtain ⟨index, -, -, -, -, -, same⟩ := committed
    rw [same]
    exact ⟨rfl, rfl⟩

/-- The next index of a peer, absent when it is not tracked. -/
def nextOf (n : RaftNode) (peer : NodeId) : Option Nat := n.nextIndex.bind fun progress => progress peer

/-- The match index of a peer, absent when it is not tracked. -/
def matchOf (n : RaftNode) (peer : NodeId) : Option Nat := n.matchIndex.bind fun progress => progress peer

/-- `initLeaderProgressLocked`. -/
def initLeaderProgressLocked (n : RaftNode) : RaftNode :=
  { n with
    nextIndex := some fun peer =>
      if containsPeer n.peers peer then some (Word.add n.lastLogIndexLocked 1) else none
    matchIndex := some fun peer => if containsPeer n.peers peer then some 0 else none
    }.advanceCommitLocked

/-- New progress maps change neither term nor role. -/
theorem initLeaderProgressLocked_role (n : RaftNode) :
    n.initLeaderProgressLocked.currentTerm = n.currentTerm ∧
      n.initLeaderProgressLocked.state = n.state :=
  advanceCommitLocked_role _

/-- Whether both progress maps exist and know every peer. -/
def hasProgress (n : RaftNode) : Bool :=
  match n.nextIndex, n.matchIndex with
  | some next, some known => n.peers.all fun peer => (next peer).isSome && (known peer).isSome
  | _, _ => false

/-- `ensureLeaderProgress`. -/
def ensureLeaderProgress (n : RaftNode) : RaftNode :=
  if n.state ≠ .leader then n
  else if n.hasProgress then n
  else n.initLeaderProgressLocked

/-- `BuildAppendEntries` — the request for a peer, with everything from its next index on. -/
def buildAppendEntries (n : RaftNode) (peerID : NodeId) : Except RaftError AppendEntriesRequest :=
  match n.nextIndex.bind fun progress => progress peerID with
  | none => .error (.unknownPeer peerID)
  | some known =>
    let next := if known ≤ n.lastIncludedIndex then n.firstLogIndexLocked else known
    let prevLogIndex := Word.sub next 1
    .ok {
      term := n.currentTerm
      leaderID := n.id
      prevLogIndex
      prevLogTerm := n.logTermAtLocked prevLogIndex
      entries := n.cloneEntriesFromLocked next
      leaderCommit := n.commitIndex }

/-- A request is built in the current term. -/
theorem buildAppendEntries_term {n : RaftNode} {peerID : NodeId} {req : AppendEntriesRequest}
    (built : n.buildAppendEntries peerID = .ok req) : req.term = n.currentTerm := by
  unfold buildAppendEntries at built
  split at built
  · contradiction
  · rw [← Except.ok.inj built]

/-- `RecordReplicationSuccess`. -/
def recordReplicationSuccess (n : RaftNode) (peerID : NodeId) (matchIndex : Nat) :
    RaftNode × Option RaftError :=
  match n.nextIndex.bind fun progress => progress peerID with
  | none => (n, some (.unknownPeer peerID))
  | some _ =>
    ({ n with
      matchIndex := n.matchIndex.map fun progress => Function.update progress peerID (some matchIndex)
      nextIndex := n.nextIndex.map fun progress =>
        Function.update progress peerID (some (Word.add matchIndex 1))
      }.advanceCommitLocked, none)

/-- Recording a success changes no term. -/
theorem recordReplicationSuccess_term (n : RaftNode) (peerID : NodeId) (matchIndex : Nat) :
    (n.recordReplicationSuccess peerID matchIndex).1.currentTerm = n.currentTerm := by
  unfold recordReplicationSuccess
  split
  · rfl
  · exact (advanceCommitLocked_role _).1

/-- `RecordReplicationFailure` — back off by one, not below the snapshot. -/
def recordReplicationFailure (n : RaftNode) (peerID : NodeId) : RaftNode × Option RaftError :=
  match n.nextIndex.bind fun progress => progress peerID with
  | none => (n, some (.unknownPeer peerID))
  | some next =>
    if next ≤ 1 then (n, none)
    else if next ≤ Word.add n.lastIncludedIndex 1 then (n, none)
    else ({ n with
      nextIndex := n.nextIndex.map fun progress => Function.update progress peerID (some (next - 1)) },
      none)

/-- Recording a failure changes no term. -/
theorem recordReplicationFailure_term (n : RaftNode) (peerID : NodeId) :
    (n.recordReplicationFailure peerID).1.currentTerm = n.currentTerm := by
  unfold recordReplicationFailure
  split
  · rfl
  split
  · rfl
  split <;> rfl

end Raft.RaftNode

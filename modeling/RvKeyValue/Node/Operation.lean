import RvKeyValue.Base.Run
import RvKeyValue.Raft.Requests

/-!
# The operations of one node

Every section of `raft/node.go` and `raft/election.go` that can change a node, with any arguments:
whoever calls them, and in whatever order, a node moves by these functions. `ApplyCommitted` is a
sequence of the last two, once for each entry. What each of them does to the record is said once here:
it ends in a `Save`, or it changes nothing a `Save` would write.
-/

namespace Raft

open Transition (Reach)

/-- An operation, or a section of one. -/
inductive Operation
  /-- `BecomeFollower`. -/
  | becomeFollower (term : Nat)
  /-- `BecomeCandidate`. -/
  | becomeCandidate
  /-- `BecomeLeader`. -/
  | becomeLeader
  /-- `promoteCandidate`. -/
  | promoteCandidate (term : Nat)
  /-- `stepDownForHigherTerm`. -/
  | stepDownForHigherTerm (term : Nat)
  /-- `RequestVote`. -/
  | requestVote (req : RequestVoteRequest)
  /-- `HandleAppendEntries`. -/
  | handleAppendEntries (req : AppendEntriesRequest)
  /-- `AppendLocal`. -/
  | appendLocal (command : Bytes)
  /-- `ensureLeaderProgress`. -/
  | ensureLeaderProgress
  /-- `RecordReplicationSuccess`. -/
  | recordReplicationSuccess (peer : NodeId) (matchIndex : Nat)
  /-- `RecordReplicationFailure`. -/
  | recordReplicationFailure (peer : NodeId)
  /-- `Compact`. -/
  | compact (snapshot : Bytes)
  /-- `ApplyMembershipChange`. -/
  | applyMembershipChange (change : MembershipChange)
  /-- The step of `ApplyCommitted` that applies a membership change, or nothing of the node, for an
  entry it has fetched. -/
  | applyEntry (entry : LogEntry)
  /-- `markApplied`, after `sm.Apply`. -/
  | markApplied (index : Nat)

/-- Operations that change the membership. -/
def Operation.reconfigures : Operation → Bool
  | applyMembershipChange _ => true
  | applyEntry _ => true
  | _ => false

/-- Operations that change the vote within a term. -/
def Operation.votes : Operation → Bool
  | becomeCandidate => true
  | requestVote _ => true
  | op => op.reconfigures

/-- Operations that mark an entry applied. -/
def Operation.applies : Operation → Bool
  | applyEntry _ => true
  | markApplied _ => true
  | _ => false

/-- Operations that change the log or the snapshot. -/
def Operation.writes : Operation → Bool
  | handleAppendEntries _ => true
  | appendLocal _ => true
  | compact _ => true
  | _ => false

/-- How far an operation may mark entries as applied. -/
def Operation.marks : Operation → Nat
  | applyEntry entry => entry.index
  | markApplied index => index
  | _ => 0

/-- A section that raises the commit index fills the slot, and does not empty it. -/
structure Signals (n m : RaftNode) : Prop where
  /-- The commit index does not fall. -/
  commit : n.commitIndex ≤ m.commitIndex
  /-- When it rises, the slot is full. -/
  raised : m.commitIndex = n.commitIndex ∨ m.commitReady = true
  /-- A full slot stays full. -/
  full : n.commitReady = true → m.commitReady = true

namespace Signals

variable {n m k : RaftNode}

/-- Commit index and slot stay. -/
theorem of_eq (commit : m.commitIndex = n.commitIndex) (ready : m.commitReady = n.commitReady) :
    Signals n m := ⟨commit.ge, Or.inl commit, fun full => ready.trans full⟩

/-- The commit index rises. -/
theorem rises (above : n.commitIndex < m.commitIndex) (ready : m.commitReady = true) : Signals n m :=
  ⟨above.le, Or.inr ready, fun _ => ready⟩

/-- Two sections. -/
theorem trans (first : Signals n m) (second : Signals m k) : Signals n k where
  commit := first.commit.trans second.commit
  raised := by
    rcases second.raised with same | ready
    · rw [same]
      exact first.raised.imp_right second.full
    · exact Or.inr ready
  full ready := second.full (first.full ready)

end Signals

/-- A copy of a peer list gives the list back when the default is empty. -/
theorem clonePeers_getD (list default : List NodeId) :
    (clonePeers list).getD default = if list = [] then default else list := by
  unfold clonePeers
  cases list with
  | nil => rfl
  | cons peer rest => rfl

/-- A copy of a peer list is never an empty one. -/
theorem clonePeers_ne (list : List NodeId) : clonePeers list ≠ some [] := by
  unfold clonePeers
  cases list with
  | nil => simp
  | cons peer rest => simp

/-- Peer lists with the same copy are the same. -/
theorem clonePeers_inj {left right : List NodeId} (same : clonePeers left = clonePeers right) :
    left = right := by
  have read := congrArg (Option.getD · []) same
  simp only [clonePeers_getD, ite_eq_right_iff.mpr Eq.symm] at read
  exact read

namespace RaftNode

/-- `ApplyMembershipChange`. -/
def applyMembershipChange (n : RaftNode) (save : Bool) (change : MembershipChange) : Outcome Unit :=
  match change.validate with
  | .error err => ⟨n, (), some err⟩
  | .ok () =>
    match n.applyMembershipChangeLocked change with
    | (changed, some err) => ⟨changed, (), some err⟩
    | (changed, none) => changed.persisting save ()

/-- What `ApplyCommitted` does to the node for an entry it has fetched. -/
def applyEntry (unmarshal : Bytes → Option MembershipCommand) (n : RaftNode) (save : Bool)
    (entry : LogEntry) : RaftNode :=
  match decodeMembershipChange unmarshal entry.command with
  | some (.ok change) => (n.applyCommittedMembershipChange save change entry.index).node
  | _ => n

/-- The record after an operation. -/
def perform (unmarshal : Bytes → Option MembershipCommand) (n : RaftNode) (save : Bool) :
    Operation → RaftNode
  | .becomeFollower term => (n.becomeFollower save term).node
  | .becomeCandidate => (n.becomeCandidate save).node
  | .becomeLeader => (n.becomeLeader save).node
  | .promoteCandidate term => (n.promoteCandidate save term).node
  | .stepDownForHigherTerm term => (n.stepDownForHigherTerm save term).node
  | .requestVote req => (n.requestVote save req).node
  | .handleAppendEntries req => (n.handleAppendEntries save req).node
  | .appendLocal command => (n.appendLocal unmarshal save command).node
  | .ensureLeaderProgress => n.ensureLeaderProgress
  | .recordReplicationSuccess peer matchIndex => (n.recordReplicationSuccess peer matchIndex).1
  | .recordReplicationFailure peer => (n.recordReplicationFailure peer).1
  | .compact snapshot => (n.compact save snapshot).node
  | .applyMembershipChange change => (n.applyMembershipChange save change).node
  | .applyEntry entry => n.applyEntry unmarshal save entry
  | .markApplied index => n.markApplied index

/-- A step of an operation that a `Save` would not see. -/
structure Durable (op : Operation) (n m : RaftNode) : Prop where
  /-- The own id stays. -/
  own : m.id = n.id
  /-- A `Save` would write the same. -/
  state : m.persistentState = n.persistentState
  /-- The store stays. -/
  store : m.store = n.store
  /-- Membership stays configured or not. -/
  configured : m.membershipConfigured = n.membershipConfigured
  /-- What is committed more is signalled. -/
  signals : Signals n m
  /-- Nothing applied is taken back. -/
  applied : n.lastApplied ≤ m.lastApplied
  /-- At most one entry is marked. -/
  marked : m.lastApplied ≤ max n.lastApplied op.marks

/-- What an operation has done to the record, `Save` and store apart. -/
structure Prepared (n : RaftNode) (op : Operation) (m : RaftNode) : Prop where
  /-- The own id stays. -/
  own : m.id = n.id
  /-- The membership is changed by some operations only. -/
  membership : op.reconfigures = false → m.peers = n.peers ∧ m.selfMember = n.selfMember ∧
    m.membershipConfigured = n.membershipConfigured
  /-- So is the vote within a term. -/
  vote : op.votes = false →
    m.currentTerm = n.currentTerm ∧ m.votedFor = n.votedFor ∨ n.currentTerm < m.currentTerm
  /-- So are log and snapshot. -/
  log : op.writes = false → m.log = n.log ∧ m.lastIncludedIndex = n.lastIncludedIndex ∧
    m.lastIncludedTerm = n.lastIncludedTerm
  /-- What is committed more is signalled. -/
  signals : Signals n m
  /-- Nothing applied is taken back. -/
  applied : n.lastApplied ≤ m.lastApplied
  /-- At most one entry is marked. -/
  marked : m.lastApplied ≤ max n.lastApplied op.marks
  /-- The snapshot moves to the applied index only. -/
  included : m.lastIncludedIndex = n.lastIncludedIndex ∨ m.lastIncludedIndex = n.lastApplied

section

variable {n m k : RaftNode} {op : Operation}

/-- Only indices of peers change. -/
theorem Durable.progress (n : RaftNode) (next known : Option (NodeId → Option Nat)) :
    Durable op n { n with nextIndex := next, matchIndex := known } :=
  ⟨rfl, rfl, rfl, rfl, .of_eq rfl rfl, le_refl _, le_max_left _ _⟩

/-- Nothing happens. -/
theorem Durable.refl (n : RaftNode) : Durable op n n := .progress n _ _

/-- Two steps. -/
theorem Durable.trans (first : Durable op n m) (second : Durable op m k) : Durable op n k :=
  ⟨second.own.trans first.own, second.state.trans first.state, second.store.trans first.store,
    second.configured.trans first.configured, first.signals.trans second.signals,
    first.applied.trans second.applied, second.marked.trans (max_le first.marked (le_max_right _ _))⟩

/-- Nothing that would be saved changes after what an operation has done. -/
theorem Prepared.durable (prepared : Prepared n op m) (kept : Durable op m k) : Prepared n op k := by
  have listed := clonePeers_inj (congrArg PersistentState.peers kept.state)
  have member := Option.some.inj (congrArg PersistentState.selfMember kept.state)
  have term : k.currentTerm = m.currentTerm := congrArg PersistentState.currentTerm kept.state
  have vote : k.votedFor = m.votedFor := congrArg PersistentState.votedFor kept.state
  have log : k.log = m.log := congrArg PersistentState.log kept.state
  have included : k.lastIncludedIndex = m.lastIncludedIndex :=
    congrArg PersistentState.lastIncludedIndex kept.state
  have includedTerm : k.lastIncludedTerm = m.lastIncludedTerm :=
    congrArg PersistentState.lastIncludedTerm kept.state
  refine ⟨kept.own.trans prepared.own, fun fixed => ?_, fun quiet => ?_, fun quiet => ?_,
    prepared.signals.trans kept.signals, prepared.applied.trans kept.applied,
    kept.marked.trans (max_le prepared.marked (le_max_right _ _)), ?_⟩
  · rw [listed, member, kept.configured]
    exact prepared.membership fixed
  · rw [term, vote]
    exact prepared.vote quiet
  · rw [log, included, includedTerm]
    exact prepared.log quiet
  · rw [included]
    exact prepared.included

/-- A save comes last. -/
theorem Prepared.saved (prepared : Prepared n op m) (save : Bool) :
    Prepared n op (m.persistLocked save).1 := by
  rcases m.persistLocked_cases save with same | stored
  · rw [same]
    exact prepared
  · rw [stored]
    exact { prepared with signals := prepared.signals.trans (.of_eq rfl rfl) }

/-- Only role, hint, progress, term and vote change. -/
theorem Prepared.turn (n : RaftNode) {role : State} {hint vote : NodeId} {term : Nat}
    {next known : Option (NodeId → Option Nat)} (voted : op.votes = false →
      term = n.currentTerm ∧ vote = n.votedFor ∨ n.currentTerm < term) :
    Prepared n op { n with state := role, leaderID := hint, nextIndex := next, matchIndex := known
                           currentTerm := term, votedFor := vote } :=
  ⟨rfl, fun _ => ⟨rfl, rfl, rfl⟩, voted, fun _ => ⟨rfl, rfl, rfl⟩, .of_eq rfl rfl, le_refl _,
    le_max_left _ _, Or.inl rfl⟩

end

/-- `advanceCommitLocked` moves the commit index and the signal. -/
theorem advanceCommitLocked_eq (n : RaftNode) : ∃ index ready, n.commitIndex ≤ index ∧
    n.advanceCommitLocked = { n with commitIndex := index, commitReady := ready } := by
  cases n.advanceCommitLocked_cases with
  | inl same => exact ⟨_, _, le_refl _, same⟩
  | inr committed =>
    obtain ⟨index, -, above, -, -, -, same⟩ := committed
    exact ⟨_, _, above.le, same⟩

/-- `advanceCommitLocked` changes nothing that is stored. -/
theorem advanceCommitLocked_durable (n : RaftNode) (op : Operation) :
    Durable op n n.advanceCommitLocked := by
  rcases n.advanceCommitLocked_cases with same | ⟨index, -, above, -, -, -, same⟩
  · rw [same]
    exact .refl n
  · rw [same]
    exact ⟨rfl, rfl, rfl, rfl, .rises above rfl, le_refl _, le_max_left _ _⟩

/-- `initLeaderProgressLocked` sets up progress only. -/
theorem initLeaderProgressLocked_durable (n : RaftNode) (op : Operation) :
    Durable op n n.initLeaderProgressLocked :=
  (Durable.progress n _ _).trans (advanceCommitLocked_durable _ op)

/-- Following a leader of the own term changes nothing that is stored. -/
theorem follow_durable {n : RaftNode} {req : AppendEntriesRequest} (same : ¬ n.currentTerm < req.term) :
    Durable (.handleAppendEntries req) n (n.follow req) := by
  simp only [follow, if_neg same]
  split <;> exact ⟨rfl, rfl, rfl, rfl, .of_eq rfl rfl, le_refl _, le_max_left _ _⟩

/-- The append loop reports a change whenever it makes one. -/
theorem appendLoop_unchanged {n : RaftNode} {index : Nat} {entries : List LogEntry}
    (same : (n.appendLoop index entries).2 = false) : (n.appendLoop index entries).1 = n.log := by
  induction entries generalizing index with
  | nil => rfl
  | cons entry rest ih =>
    unfold appendLoop at same ⊢
    split
    · rename_i covered
      rw [if_pos covered] at same
      exact ih same
    · rename_i above
      rw [if_neg above] at same
      split
      · rename_i present
        rw [if_pos present] at same
        split
        · rename_i differs
          rw [if_pos differs] at same
          contradiction
        · rename_i agrees
          rw [if_neg agrees] at same
          exact ih same
      · rename_i absent
        rw [if_neg absent] at same
        contradiction

/-- Following a leader touches neither membership nor log. -/
theorem follow_prepared (n : RaftNode) (req : AppendEntriesRequest) :
    Prepared n (.handleAppendEntries req) (n.follow req) := by
  by_cases later : n.currentTerm < req.term
  · simp only [follow, if_pos later]
    split <;> exact .turn n fun _ => Or.inr later
  · exact (Prepared.turn n fun _ => Or.inl ⟨rfl, rfl⟩).durable (follow_durable later)

/-- The commit rule of `HandleAppendEntries` changes nothing that is stored. -/
theorem followCommit_durable (n : RaftNode) (leaderCommit : Nat) (op : Operation) :
    Durable op n (n.followCommit leaderCommit) := by
  rcases n.followCommit_cases leaderCommit with same | ⟨index, above, -, same⟩
  · rw [same]
    exact .refl n
  · rw [same]
    exact ⟨rfl, rfl, rfl, rfl, .rises above rfl, le_refl _, le_max_left _ _⟩

/-- Accepting a request touches no membership. -/
theorem accept_prepared (n : RaftNode) (req : AppendEntriesRequest) :
    Prepared n (.handleAppendEntries req) (n.accept req) := by
  have following := n.follow_prepared req
  refine Prepared.durable ?_ (followCommit_durable _ req.leaderCommit _)
  exact { following with
    log := by simp [Operation.writes]
    signals := following.signals.trans (.of_eq rfl rfl) }

/-- Taking the lead touches neither membership, term, vote nor log. -/
theorem lead_prepared (n : RaftNode) (op : Operation) :
    Prepared n op { n with state := .leader, leaderID := n.id }.initLeaderProgressLocked :=
  (Prepared.turn n fun _ => Or.inl ⟨rfl, rfl⟩).durable (initLeaderProgressLocked_durable _ op)

/-- Accepting a request without a need to save changes nothing that is stored. -/
theorem accept_durable {n : RaftNode} {req : AppendEntriesRequest} (idle : n.mustSave req = false) :
    Durable (.handleAppendEntries req) n (n.accept req) := by
  obtain ⟨term, loop⟩ := (Bool.or_eq_false_iff ..).mp idle
  have log := appendLoop_unchanged loop
  unfold accept
  rw [log]
  exact (follow_durable (of_decide_eq_false term)).trans (followCommit_durable _ _ _)

/-- A valid change has a known type. -/
theorem supported_of_validate {change : MembershipChange} (valid : change.validate = .ok ()) :
    change.type = .addPeer ∨ change.type = .removePeer := by
  unfold MembershipChange.validate at valid
  split at valid
  · cases valid
  split at valid
  · cases valid
  split at valid
  · rename_i type
    exact Or.inl type
  · rename_i type
    exact Or.inr type
  · cases valid

/-- A decoded change is valid. -/
theorem validate_of_decode {unmarshal : Bytes → Option MembershipCommand} {data : Bytes}
    {change : MembershipChange} (decoded : decodeMembershipChange unmarshal data = some (.ok change)) :
    change.validate = .ok () := by
  unfold decodeMembershipChange at decoded
  split at decoded
  · contradiction
  split at decoded
  · contradiction
  dsimp only at decoded
  split at decoded
  · simp at decoded
  · rename_i valid
    rw [← Except.ok.inj (Option.some.inj decoded)]
    exact valid

/-- What applying a change does to a record. -/
structure Reconfigured (n : RaftNode) (change : MembershipChange) (m : RaftNode) : Prop where
  /-- The own id stays. -/
  own : m.id = n.id
  /-- Nothing is saved yet. -/
  store : m.store = n.store
  /-- The term stays. -/
  term : m.currentTerm = n.currentTerm
  /-- The log stays. -/
  log : m.log = n.log
  /-- The snapshot stays. -/
  included : m.lastIncludedIndex = n.lastIncludedIndex
  /-- So does its term. -/
  includedTerm : m.lastIncludedTerm = n.lastIncludedTerm
  /-- What is committed more is signalled. -/
  signals : Signals n m
  /-- It is in the log. -/
  commitLe : m.commitIndex ≤ max n.commitIndex n.lastLogIndexLocked
  /-- Nothing is marked. -/
  applied : m.lastApplied = n.lastApplied
  /-- The membership is configured. -/
  configured : m.membershipConfigured = true
  /-- The node itself comes or goes. -/
  member : m.selfMember =
    if change.peerID = n.id then decide (change.type = .addPeer) else n.selfMember
  /-- Or a peer does. -/
  peers : m.peers = if change.peerID = n.id then n.peers
    else if change.type = .addPeer then
      if containsPeer n.peers change.peerID then n.peers else n.peers ++ [change.peerID]
    else removePeer n.peers change.peerID
  /-- A node that goes forgets its vote. -/
  vote : m.votedFor =
    if change.peerID = n.id ∧ change.type = .removePeer then "" else n.votedFor
  /-- Nobody becomes a candidate. -/
  role : m.state = .candidate → n.state = .candidate

/-- An operation that applies a change is prepared by it. -/
theorem Reconfigured.prepared {n m : RaftNode} {change : MembershipChange} {op : Operation}
    (applied : Reconfigured n change m) (reconfigures : op.reconfigures = true) : Prepared n op m := by
  refine ⟨applied.own, by simp [reconfigures], fun quiet => ?_,
    fun _ => ⟨applied.log, applied.included, applied.includedTerm⟩, applied.signals, applied.applied.ge,
    applied.applied.le.trans (le_max_left _ _), Or.inl applied.included⟩
  cases op <;> contradiction

/-- A vote that is remembered or was forgotten by leaving still is, unless the node comes back. -/
theorem Reconfigured.remembers {n m : RaftNode} {change : MembershipChange} {candidate : NodeId}
    (applied : Reconfigured n change m)
    (remembered : n.votedFor = candidate ∨ n.votedFor = "" ∧ n.selfMember = false)
    (later : change = ⟨.addPeer, n.id⟩ → n.selfMember = false → n.votedFor ≠ "") :
    m.votedFor = candidate ∨ m.votedFor = "" ∧ m.selfMember = false := by
  have forgets := applied.vote
  have stays := applied.member
  by_cases self : change.peerID = n.id
  · rw [if_pos self] at stays
    by_cases goes : change.type = .removePeer
    · rw [if_pos ⟨self, goes⟩] at forgets
      rw [goes] at stays
      exact Or.inr ⟨forgets, stays⟩
    · rw [if_neg fun both => goes both.2] at forgets
      rw [forgets]
      refine remembered.imp_right fun ⟨empty, removed⟩ => ⟨empty, ?_⟩
      by_cases comes : change.type = .addPeer
      · exact absurd empty (later (by rw [← comes, ← self]) removed)
      · rw [stays, decide_eq_false comes]
  · rw [if_neg self] at stays
    rw [if_neg fun both => self both.1] at forgets
    rw [forgets, stays]
    exact remembered

/-- `advanceCommitLocked` ends `applyMembershipChangeLocked`. -/
theorem Reconfigured.advance {n m : RaftNode} {change : MembershipChange}
    (applied : Reconfigured n change m) : Reconfigured n change m.advanceCommitLocked := by
  rcases m.advanceCommitLocked_cases with same | ⟨index, -, above, inside, -, -, same⟩
  · rw [same]
    exact applied
  · have last : m.lastLogIndexLocked = n.lastLogIndexLocked := by
      rw [lastLogIndexLocked, lastLogIndexLocked, applied.log, applied.included]
    rw [same]
    exact { applied with
      signals := applied.signals.trans (.rises above rfl)
      commitLe := (inside.trans last.le).trans (le_max_right _ _) }

/-- What `applyMembershipChangeLocked` does with a change of a known type. -/
theorem applyMembershipChangeLocked_eq (n : RaftNode) {change : MembershipChange}
    (supported : change.type = .addPeer ∨ change.type = .removePeer) :
    ∃ m, Reconfigured n change m ∧ n.applyMembershipChangeLocked change = (m, none) := by
  unfold applyMembershipChangeLocked
  rcases supported with type | type
  · rw [type]
    dsimp only
    by_cases self : change.peerID = n.id
    · rw [if_pos self]
      refine ⟨_, Reconfigured.advance ?_, rfl⟩
      exact ⟨rfl, rfl, rfl, rfl, rfl, rfl, .of_eq rfl rfl, le_max_left _ _, rfl, rfl, by simp [self, type],
        by simp [self], by simp [type], fun role => role⟩
    rw [if_neg self]
    by_cases known : containsPeer n.peers change.peerID = true
    · rw [if_pos known]
      refine ⟨_, Reconfigured.advance ?_, rfl⟩
      exact ⟨rfl, rfl, rfl, rfl, rfl, rfl, .of_eq rfl rfl, le_max_left _ _, rfl, rfl, by simp [self],
        by simp [self, type, known], by simp [type], fun role => role⟩
    · rw [if_neg known]
      refine ⟨_, Reconfigured.advance ?_, rfl⟩
      split <;> exact ⟨rfl, rfl, rfl, rfl, rfl, rfl, .of_eq rfl rfl, le_max_left _ _, rfl, rfl,
        by simp [self], by simp [self, type, known], by simp [type], fun role => role⟩
  · rw [type]
    dsimp only
    by_cases self : change.peerID = n.id
    · rw [if_pos self]
      refine ⟨_, Reconfigured.advance ?_, rfl⟩
      exact ⟨rfl, rfl, rfl, rfl, rfl, rfl, .of_eq rfl rfl, le_max_left _ _, rfl, rfl, by simp [self, type],
        by simp [self], by simp [self, type], by simp⟩
    · rw [if_neg self]
      refine ⟨_, Reconfigured.advance ?_, rfl⟩
      exact ⟨rfl, rfl, rfl, rfl, rfl, rfl, .of_eq rfl rfl, le_max_left _ _, rfl, rfl, by simp [self],
        by simp [self, type], by simp [self], fun role => role⟩

/-- What `ApplyMembershipChange` does with a valid change. -/
theorem applyMembershipChange_eq (n : RaftNode) (save : Bool) {change : MembershipChange}
    (valid : change.validate = .ok ()) : ∃ m, Reconfigured n change m ∧
      (n.applyMembershipChange save change).node = (m.persistLocked save).1 := by
  obtain ⟨m, applied, same⟩ := n.applyMembershipChangeLocked_eq (supported_of_validate valid)
  refine ⟨m, applied, ?_⟩
  rw [applyMembershipChange, valid]
  dsimp only
  rw [same]
  rfl

/-- What `ApplyCommitted` does with a membership change. -/
theorem applyEntry_eq (n : RaftNode) (save : Bool) {unmarshal : Bytes → Option MembershipCommand}
    {entry : LogEntry} {change : MembershipChange}
    (decoded : decodeMembershipChange unmarshal entry.command = some (.ok change)) :
    ∃ m, Reconfigured n change m ∧
      n.applyEntry unmarshal save entry = ((m.markApplied entry.index).persistLocked save).1 := by
  obtain ⟨m, applied, same⟩ :=
    n.applyMembershipChangeLocked_eq (supported_of_validate (validate_of_decode decoded))
  refine ⟨m, applied, ?_⟩
  rw [applyEntry, decoded]
  dsimp only
  rw [applyCommittedMembershipChange, same]
  rfl

/-- `ApplyCommitted` applies a membership change, or does nothing to the node. -/
theorem applyEntry_cases (n : RaftNode) (save : Bool) (unmarshal : Bytes → Option MembershipCommand)
    (entry : LogEntry) : n.applyEntry unmarshal save entry = n ∨
      ∃ change m, decodeMembershipChange unmarshal entry.command = some (.ok change) ∧
        Reconfigured n change m ∧
        n.applyEntry unmarshal save entry = ((m.markApplied entry.index).persistLocked save).1 := by
  by_cases decoded : ∃ change, decodeMembershipChange unmarshal entry.command = some (.ok change)
  · obtain ⟨change, decoded⟩ := decoded
    obtain ⟨m, applied, same⟩ := n.applyEntry_eq save decoded
    exact Or.inr ⟨change, m, decoded, applied, same⟩
  · left
    unfold applyEntry
    split
    · rename_i change found
      exact absurd ⟨change, found⟩ decoded
    · rfl

/-- An operation ends in a `Save` of the record, or changes nothing that a `Save` would write. -/
def Ends (op : Operation) (save : Bool) (n after : RaftNode) : Prop :=
  Durable op n after ∨ ∃ m, after = (m.persistLocked save).1 ∧ m.store = n.store ∧ Prepared n op m

/-- `RequestVote`. -/
theorem requestVote_ends (n : RaftNode) (save : Bool) (req : RequestVoteRequest) :
    Ends (.requestVote req) save n (n.requestVote save req).node := by
  have free : ∀ {P : Prop}, Operation.votes (.requestVote req) = false → P := by
    simp [Operation.votes]
  obtain ⟨seen, store⟩ : Prepared n (.requestVote req) (n.seeTerm req.term) ∧
      (n.seeTerm req.term).store = n.store := by
    unfold seeTerm
    split <;> exact ⟨.turn n free, rfl⟩
  rcases n.requestVote_cases save req with refused | ⟨-, ⟨-, -, voted⟩ | ⟨-, adopted⟩⟩
  · rw [refused]
    exact Or.inl (.refl n)
  · rw [voted]
    refine Or.inr ⟨_, rfl, store, ?_⟩
    exact { seen with vote := free, signals := seen.signals.trans (.of_eq rfl rfl) }
  · rw [adopted]
    exact Or.inr ⟨_, rfl, store, seen⟩

/-- `HandleAppendEntries`. -/
theorem handleAppendEntries_ends (n : RaftNode) (save : Bool) (req : AppendEntriesRequest) :
    Ends (.handleAppendEntries req) save n (n.handleAppendEntries save req).node := by
  rcases n.handleAppendEntries_cases save req with refused | ⟨-, -, ⟨-, ⟨-, left⟩ | ⟨same, stays⟩⟩ |
    ⟨-, ⟨-, accepted⟩ | ⟨idle, accepted⟩⟩⟩
  · rw [refused]
    exact Or.inl (.refl n)
  · rw [left]
    exact Or.inr ⟨_, rfl, (n.follow_log req).2.2.2.2.1, n.follow_prepared req⟩
  · rw [stays]
    exact Or.inl (follow_durable same)
  · rw [accepted]
    exact Or.inr ⟨_, rfl, (n.accept_fields req).2.2.1, n.accept_prepared req⟩
  · rw [accepted]
    exact Or.inl (accept_durable idle)

/-- `AppendLocal`. -/
theorem appendLocal_ends (unmarshal : Bytes → Option MembershipCommand) (n : RaftNode) (save : Bool)
    (command : Bytes) :
    Ends (.appendLocal command) save n (n.appendLocal unmarshal save command).node := by
  rcases n.appendLocal_cases unmarshal save command with ⟨err, refused⟩ | appended
  · rw [refused]
    exact Or.inl (.refl n)
  · rw [appended]
    simp only [appendCommand]
    have written : Prepared n (.appendLocal command)
        { n with log := n.log ++ [⟨n.currentTerm, Word.add n.lastLogIndexLocked 1, command⟩] } :=
      ⟨rfl, fun _ => ⟨rfl, rfl, rfl⟩, fun _ => Or.inl ⟨rfl, rfl⟩, by simp [Operation.writes],
        .of_eq rfl rfl, le_refl _, le_max_left _ _, Or.inl rfl⟩
    split
    · have kept := advanceCommitLocked_durable
        { n with log := n.log ++ [⟨n.currentTerm, Word.add n.lastLogIndexLocked 1, command⟩] }
        (.appendLocal command)
      exact Or.inr ⟨_, rfl, kept.store, written.durable kept⟩
    · exact Or.inr ⟨_, rfl, rfl, written⟩

/-- Every operation. -/
theorem perform_saves (unmarshal : Bytes → Option MembershipCommand) (n : RaftNode) (save : Bool)
    (op : Operation) : Ends op save n (n.perform unmarshal save op) := by
  cases op with
  | becomeFollower term =>
    refine Or.inr ⟨_, rfl, ?_⟩
    split
    · rename_i later
      exact ⟨rfl, .turn n fun _ => Or.inr later⟩
    · exact ⟨rfl, .turn n fun _ => Or.inl ⟨rfl, rfl⟩⟩
  | becomeCandidate => exact Or.inr ⟨_, rfl, rfl, .turn n (by simp [Operation.votes])⟩
  | becomeLeader =>
    exact Or.inr ⟨_, rfl, (initLeaderProgressLocked_durable _ .becomeLeader).store, n.lead_prepared _⟩
  | promoteCandidate term =>
    simp only [perform, promoteCandidate]
    split
    · exact Or.inl (.refl n)
    · exact Or.inr ⟨_, rfl, (initLeaderProgressLocked_durable _ .becomeLeader).store, n.lead_prepared _⟩
  | stepDownForHigherTerm term =>
    simp only [perform, stepDownForHigherTerm]
    split
    · exact Or.inl (.refl n)
    · rename_i later
      exact Or.inr ⟨_, rfl, rfl, .turn n fun _ => Or.inr (Nat.lt_of_not_le later)⟩
  | requestVote req => exact n.requestVote_ends save req
  | handleAppendEntries req => exact n.handleAppendEntries_ends save req
  | appendLocal command => exact n.appendLocal_ends unmarshal save command
  | ensureLeaderProgress =>
    simp only [perform, ensureLeaderProgress]
    split
    · exact Or.inl (.refl n)
    split
    · exact Or.inl (.refl n)
    · exact Or.inl (initLeaderProgressLocked_durable n _)
  | recordReplicationSuccess peer matchIndex =>
    simp only [perform, recordReplicationSuccess]
    split
    · exact Or.inl (.refl n)
    · exact Or.inl ((Durable.progress n _ _).trans (advanceCommitLocked_durable _ _))
  | recordReplicationFailure peer =>
    simp only [perform, recordReplicationFailure]
    split
    · exact Or.inl (.refl n)
    split
    · exact Or.inl (.refl n)
    split
    · exact Or.inl (.refl n)
    · exact Or.inl (.progress n _ _)
  | compact snapshot =>
    simp only [perform]
    rcases n.compact_cases save snapshot with same | ⟨-, -, cut⟩
    · rw [same]
      exact Or.inl (.refl n)
    · rw [cut]
      refine Or.inr ⟨_, rfl, rfl, ?_⟩
      exact ⟨rfl, fun _ => ⟨rfl, rfl, rfl⟩, fun _ => Or.inl ⟨rfl, rfl⟩, by simp [Operation.writes],
        .of_eq rfl rfl, le_refl _, le_max_left _ _, Or.inr rfl⟩
  | applyMembershipChange change =>
    cases valid : change.validate with
    | error err =>
      simp only [perform, applyMembershipChange, valid]
      exact Or.inl (.refl n)
    | ok done =>
      obtain ⟨m, applied, same⟩ := n.applyMembershipChange_eq save valid
      exact Or.inr ⟨m, same, applied.store, applied.prepared rfl⟩
  | applyEntry entry =>
    simp only [perform]
    rcases n.applyEntry_cases save unmarshal entry with same | ⟨change, m, -, applied, same⟩
    · rw [same]
      exact Or.inl (.refl n)
    · refine Or.inr ⟨m.markApplied entry.index, same, ?_⟩
      rw [m.markApplied_eq]
      exact ⟨applied.store, (applied.prepared rfl).durable
        ⟨rfl, rfl, rfl, rfl, .of_eq rfl rfl, le_max_left _ _, le_refl _⟩⟩
  | markApplied index =>
    simp only [perform, n.markApplied_eq]
    exact Or.inl ⟨rfl, rfl, rfl, rfl, .of_eq rfl rfl, le_max_left _ _, le_refl _⟩

/-- What an operation has done to the record when it has saved, or need not. -/
theorem perform_prepared (unmarshal : Bytes → Option MembershipCommand) (n : RaftNode) (save : Bool)
    (op : Operation) : Prepared n op (n.perform unmarshal save op) := by
  rcases n.perform_saves unmarshal save op with kept | ⟨m, same, -, prepared⟩
  · exact (Prepared.turn n fun _ => Or.inl ⟨rfl, rfl⟩).durable kept
  · rw [same]
    exact prepared.saved save

/-- An operation leaves in the store what was there, or what the record is then. -/
theorem perform_store (unmarshal : Bytes → Option MembershipCommand) (n : RaftNode) (save : Bool)
    (op : Operation) : (n.perform unmarshal save op).store = n.store ∨
      (n.perform unmarshal save op).store = some (n.perform unmarshal save op).persistentState := by
  rcases n.perform_saves unmarshal save op with durable | ⟨m, same, store, -⟩
  · exact Or.inl durable.store
  · rw [same]
    rcases m.persistLocked_cases save with kept | saved
    · rw [kept]
      exact Or.inl store
    · rw [saved]
      exact Or.inr rfl

/-- The other operations apply nothing, and only `Compact` moves the snapshot, to the applied index. -/
theorem perform_indices (unmarshal : Bytes → Option MembershipCommand) (n : RaftNode) (save : Bool)
    {op : Operation} (idle : op.applies = false) :
    (n.perform unmarshal save op).lastApplied = n.lastApplied ∧
      ((n.perform unmarshal save op).lastIncludedIndex = n.lastIncludedIndex ∨
        (n.perform unmarshal save op).lastIncludedIndex = n.lastApplied) := by
  have prepared := n.perform_prepared unmarshal save op
  have unmarked : op.marks = 0 := by
    cases op <;> first | rfl | contradiction
  have most := prepared.marked
  rw [unmarked, Nat.max_eq_left (Nat.zero_le _)] at most
  exact ⟨le_antisymm most prepared.applied, prepared.included⟩

end RaftNode

end Raft

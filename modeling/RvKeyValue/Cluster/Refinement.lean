import RvKeyValue.Base.ReplicatedLog.Safety
import RvKeyValue.Cluster.Tally
import RvKeyValue.Raft.Log

/-!
# Node records refine the abstract protocol

A record is related to the abstract node of the same id: the whole log behind the record's
snapshot is the abstract log, its commit index covers a committed prefix of it, and a leader's
progress map only claims what the peers have acknowledged. `Advance` says what a section of
the code must show: the abstract protocol has moved along, at this node only, and the new
record refines it again.
-/

namespace Raft

open ReplicatedLog (Inv Committed Chosen)

/-- The abstract protocol over node ids and log entries. -/
abbrev Protocol := ReplicatedLog.State NodeId LogEntry

/-- The abstract protocol's invariant, and leader logs that are numbered from one and leave
room for the next index. -/
structure Good (members : Members) (a : Protocol) : Prop where
  /-- The protocol's own invariant. -/
  inv : Inv LogEntry.term members.quorums a
  /-- Leader logs are numbered. -/
  indexed : ∀ term election, a.elected term = some election → Indexed (a.leaderLog term)
  /-- The index after a leader's last is a word. -/
  bounded : ∀ term election, a.elected term = some election →
    (a.leaderLog term).length + 1 < Word.limit

/-- A leader's progress maps know exactly the peers, and claim only acknowledged prefixes. -/
structure Progress (members : Members) (id : NodeId) (n : RaftNode) (a : Protocol) : Prop where
  /-- Both maps exist. -/
  maps : n.nextIndex.isSome = true ∧ n.matchIndex.isSome = true
  /-- What is known of a peer. -/
  peer : ∀ peer ∈ members.peers id, ∃ next known,
    (n.nextIndex.bind fun progress => progress peer) = some next ∧
    (n.matchIndex.bind fun progress => progress peer) = some known ∧
    1 ≤ next ∧ next ≤ (a.log id).length + 1 ∧ known ≤ (a.log id).length ∧
    (known = 0 ∨ a.acked peer (a.term id) ((a.log id).take known))
  /-- Nothing is known of anyone else. -/
  stranger : ∀ peer, peer ∉ members.peers id →
    (n.nextIndex.bind fun progress => progress peer) = none ∧
    (n.matchIndex.bind fun progress => progress peer) = none

/-- A record and the abstract node of the same id. -/
structure Refines (members : Members) (id : NodeId) (n : RaftNode) (a : Protocol) : Prop where
  /-- The node is a member. -/
  member : id ∈ members.ids
  /-- The record is the node's. -/
  own : n.id = id
  /-- Its peers are the other members. -/
  peers : n.peers = members.peers id
  /-- It knows itself as a member. -/
  selfMember : n.selfMember = true
  /-- Same term. -/
  term : n.currentTerm = a.term id
  /-- The term is a word. -/
  termFits : a.term id < Word.limit
  /-- Same vote. -/
  vote : a.vote id = if n.votedFor = "" then none else some n.votedFor
  /-- The record retains the end of the abstract log. -/
  log : Represents n (a.log id)
  /-- What it believes committed is committed. -/
  commit : Committed LogEntry.term members.quorums a (a.term id) ((a.log id).take n.commitIndex)
  /-- The commit index lies in the log. -/
  commitLe : n.commitIndex ≤ (a.log id).length
  /-- Only committed entries are applied. -/
  appliedLe : n.lastApplied ≤ n.commitIndex
  /-- Only applied entries are compacted. -/
  includedLe : n.lastIncludedIndex ≤ n.lastApplied
  /-- A leader was elected in its term and acknowledges its own log. -/
  leads : n.state = .leader → ∃ election, a.elected (a.term id) = some election ∧
    election.leader = id ∧ a.acked id (a.term id) (a.log id)
  /-- A leader's progress maps are truthful. -/
  progress : n.state = .leader → Progress members id n a
  /-- Nobody else has progress maps. -/
  idle : n.state ≠ .leader → n.nextIndex = none ∧ n.matchIndex = none
  /-- A candidate has voted for itself on its present log. -/
  candidate : n.state = .candidate → 0 < a.term id ∧ a.granted id (a.term id) id (a.log id)

/-- The store holds the durable fields of the record. -/
structure Stored (members : Members) (id : NodeId) (n : RaftNode) (state : PersistentState) :
    Prop where
  /-- It is the record's store. -/
  store : n.store = some state
  /-- Same term. -/
  term : state.currentTerm = n.currentTerm
  /-- Same vote. -/
  vote : state.votedFor = n.votedFor
  /-- Same log. -/
  log : state.log = n.log
  /-- Same snapshot index. -/
  included : state.lastIncludedIndex = n.lastIncludedIndex
  /-- Same snapshot term. -/
  includedTerm : state.lastIncludedTerm = n.lastIncludedTerm
  /-- A restart finds the same peers. -/
  peers : state.peers.getD (members.peers id) = members.peers id
  /-- A restart finds a member. -/
  selfMember : state.selfMember.getD true = true

/-- What a section of the code at a node does to the abstract protocol. -/
structure Advance (members : Members) (id : NodeId) (n n' : RaftNode) (a a' : Protocol) : Prop where
  /-- The protocol's invariant still holds. -/
  good : Good members a'
  /-- History has grown. -/
  grows : a.Grows a'
  /-- Only this node moved. -/
  only : a.OnlyAt a' id
  /-- The new record refines the new node. -/
  refines : Refines members id n' a'
  /-- The term does not fall. -/
  term : n.currentTerm ≤ n'.currentTerm
  /-- The commit index does not fall. -/
  commit : n.commitIndex ≤ n'.commitIndex
  /-- Committed entries stay. -/
  committed : (a'.log id).take n.commitIndex = (a.log id).take n.commitIndex
  /-- The snapshot stays. -/
  snapshot : n'.lastIncludedIndex = n.lastIncludedIndex
  /-- A candidate that is not new in its term was one before, on the same log. -/
  steady : n'.state = .candidate → n'.currentTerm ≤ n.currentTerm →
    n.state = .candidate ∧ n'.currentTerm = n.currentTerm ∧ a'.log id = a.log id

section Records

variable {members : Members} {id : NodeId} {n n' : RaftNode} {a a' : Protocol}

/-- Progress is unaffected by what other nodes do. -/
theorem Progress.frame (progress : Progress members id n a) (grows : a.Grows a')
    (term : a'.term id = a.term id) (log : a'.log id = a.log id) : Progress members id n a' where
  maps := progress.maps
  peer other inside := by
    have known := progress.peer other inside
    rw [term, log]
    obtain ⟨next, known, atNext, atKnown, low, high, held, acked⟩ := known
    exact ⟨next, known, atNext, atKnown, low, high, held, acked.imp_right (grows.acked _ _ _)⟩
  stranger := progress.stranger

/-- A record refines its node as long as that node's term, vote and log stand still. -/
theorem Refines.frame (refines : Refines members id n a) (grows : a.Grows a')
    (term : a'.term id = a.term id) (vote : a'.vote id = a.vote id) (log : a'.log id = a.log id) :
    Refines members id n a' where
  member := refines.member
  own := refines.own
  peers := refines.peers
  selfMember := refines.selfMember
  term := by rw [term]; exact refines.term
  termFits := by rw [term]; exact refines.termFits
  vote := by rw [vote]; exact refines.vote
  log := by rw [log]; exact refines.log
  commit := by
    rw [term, log]
    exact refines.commit.grow grows (le_refl _)
  commitLe := by rw [log]; exact refines.commitLe
  appliedLe := refines.appliedLe
  includedLe := refines.includedLe
  leads leader := by
    rw [term, log]
    obtain ⟨election, decided, self, acked⟩ := refines.leads leader
    exact ⟨election, grows.elected _ _ decided, self, grows.acked _ _ _ acked⟩
  progress leader := (refines.progress leader).frame grows term log
  idle := refines.idle
  candidate role := by
    rw [term, log]
    have voted := refines.candidate role
    exact ⟨voted.1, grows.granted _ _ _ _ voted.2⟩

/-- The fields of a record that the relation to the abstract node reads. -/
structure SameCore (n n' : RaftNode) : Prop where
  /-- Own id. -/
  own : n'.id = n.id
  /-- Peers. -/
  peers : n'.peers = n.peers
  /-- Membership. -/
  selfMember : n'.selfMember = n.selfMember
  /-- Role. -/
  state : n'.state = n.state
  /-- Term. -/
  term : n'.currentTerm = n.currentTerm
  /-- Vote. -/
  vote : n'.votedFor = n.votedFor
  /-- Retained log. -/
  log : n'.log = n.log
  /-- Commit index. -/
  commit : n'.commitIndex = n.commitIndex
  /-- Applied index. -/
  applied : n'.lastApplied = n.lastApplied
  /-- Snapshot index. -/
  included : n'.lastIncludedIndex = n.lastIncludedIndex
  /-- Snapshot term. -/
  includedTerm : n'.lastIncludedTerm = n.lastIncludedTerm
  /-- Next indices. -/
  next : n'.nextIndex = n.nextIndex
  /-- Match indices. -/
  known : n'.matchIndex = n.matchIndex

/-- Records with the same core refine the same node. -/
theorem Refines.congr (refines : Refines members id n a) (same : SameCore n n') :
    Refines members id n' a where
  member := refines.member
  own := same.own.trans refines.own
  peers := same.peers.trans refines.peers
  selfMember := same.selfMember.trans refines.selfMember
  term := same.term.trans refines.term
  termFits := refines.termFits
  vote := by rw [same.vote]; exact refines.vote
  log := refines.log.congr same.log same.included same.includedTerm
  commit := by rw [same.commit]; exact refines.commit
  commitLe := by rw [same.commit]; exact refines.commitLe
  appliedLe := by rw [same.applied, same.commit]; exact refines.appliedLe
  includedLe := by rw [same.included, same.applied]; exact refines.includedLe
  leads leader := refines.leads (same.state.symm.trans leader)
  progress leader := by
    have progress := refines.progress (same.state.symm.trans leader)
    exact ⟨by rw [same.next, same.known]; exact progress.maps,
      by rw [same.next, same.known]; exact progress.peer,
      by rw [same.next, same.known]; exact progress.stranger⟩
  idle other := by
    rw [same.next, same.known]
    exact refines.idle (by rwa [← same.state])
  candidate role := refines.candidate (same.state.symm.trans role)

/-- A section that only touches fields outside the core moves nothing. -/
theorem Advance.stay (good : Good members a) (refines : Refines members id n a)
    (same : SameCore n n') : Advance members id n n' a a where
  good := good
  grows := .refl a
  only := .refl a id
  refines := refines.congr same
  term := same.term.ge
  commit := same.commit.ge
  committed := rfl
  snapshot := same.included
  steady role _ := ⟨same.state.symm.trans role, same.term, rfl⟩

/-- Sections at one node compose. -/
theorem Advance.trans {n'' : RaftNode} {a'' : Protocol} (first : Advance members id n n' a a')
    (second : Advance members id n' n'' a' a'') : Advance members id n n'' a a'' where
  good := second.good
  grows := first.grows.trans second.grows
  only := first.only.trans second.only
  refines := second.refines
  term := le_trans first.term second.term
  commit := le_trans first.commit second.commit
  committed := by
    have shorter := congrArg (List.take n.commitIndex) second.committed
    simp only [List.take_take, Nat.min_eq_left first.commit] at shorter
    exact shorter.trans first.committed
  snapshot := second.snapshot.trans first.snapshot
  steady role old := by
    have candidate := second.steady role (le_trans old first.term)
    have before := first.steady candidate.1 (by rw [← candidate.2.1]; exact old)
    exact ⟨before.1, candidate.2.1.trans before.2.1, candidate.2.2.trans before.2.2⟩

/-- Saving a record changes nothing but the store. -/
theorem persisted_core (n : RaftNode) (save : Bool) : SameCore n (n.persistLocked save).1 := by
  unfold RaftNode.persistLocked
  cases n.store with
  | none => constructor <;> rfl
  | some state => cases save <;> constructor <;> rfl

/-- A save that succeeds leaves the record's durable fields in the store. -/
theorem persisted_stored (refines : Refines members id n a) {state : PersistentState}
    (stored : n.store = some state) :
    (n.persistLocked true).2 = none ∧
      Stored members id (n.persistLocked true).1 n.persistentState := by
  unfold RaftNode.persistLocked
  rw [stored]
  refine ⟨rfl, ⟨rfl, rfl, rfl, rfl, rfl, rfl, ?_, ?_⟩⟩
  · simp only [RaftNode.persistentState, clonePeers, refines.peers]
    split
    · rfl
    · rfl
  · exact refines.selfMember

end Records

end Raft

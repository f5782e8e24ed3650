import RvKeyValue.Base.Word

/-!
# Data of the consensus protocol

The types of `raft/types.go`. Terms and indices are natural numbers that stand for `uint64`
values: where the code adds to one, the model adds with `Word.add`, which wraps. Node ids are
the code's strings, and the empty string is its way to say "nobody".
-/

namespace Raft

/-- A node's id. -/
abbrev NodeId := String

/-- A byte slice. Go's nil and empty slices are the same value here. -/
abbrev Bytes := List UInt8

/-- `State` — the role a node is currently playing. -/
inductive State
  /-- Follows a leader or waits for one. -/
  | follower
  /-- Asks for votes. -/
  | candidate
  /-- Replicates its log. -/
  | leader
deriving DecidableEq, Repr

/-- `LogEntry` — the unit of replication. -/
structure LogEntry where
  /-- Term in which the entry was created. -/
  term : Nat
  /-- Position in the log, counted from one. -/
  index : Nat
  /-- Opaque command. -/
  command : Bytes
deriving DecidableEq, Repr, Inhabited

/-- `PersistentState` — what a node stores. Absent peers are Go's nil slice, an absent
membership flag its nil pointer; the default is what `Load` returns for an empty database. -/
structure PersistentState where
  /-- Latest term seen. -/
  currentTerm : Nat := 0
  /-- Vote in that term. -/
  votedFor : NodeId := ""
  /-- Other voting members, absent when there are none. -/
  peers : Option (List NodeId) := none
  /-- Whether the node itself is a member. -/
  selfMember : Option Bool := none
  /-- Last index the snapshot covers. -/
  lastIncludedIndex : Nat := 0
  /-- Term of that index. -/
  lastIncludedTerm : Nat := 0
  /-- Snapshot bytes. -/
  snapshot : Bytes := []
  /-- Retained log. -/
  log : List LogEntry := []
deriving DecidableEq, Repr, Inhabited

/-- `RequestVoteRequest`. -/
structure RequestVoteRequest where
  /-- Candidate's term. -/
  term : Nat
  /-- Candidate. -/
  candidateID : NodeId
  /-- Candidate's last index. -/
  lastLogIndex : Nat
  /-- Candidate's last term. -/
  lastLogTerm : Nat
deriving DecidableEq, Repr

/-- `RequestVoteResponse`. -/
structure RequestVoteResponse where
  /-- Voter's term. -/
  term : Nat
  /-- Whether the vote was given. -/
  voteGranted : Bool
deriving DecidableEq, Repr

/-- `PreVoteRequest` — asks for a vote in a term the sender has not entered. -/
structure PreVoteRequest where
  /-- The term the sender would enter. -/
  term : Nat
  /-- Sender. -/
  candidateID : NodeId
  /-- Sender's last index. -/
  lastLogIndex : Nat
  /-- Sender's last term. -/
  lastLogTerm : Nat
deriving DecidableEq, Repr

/-- `PreVoteResponse`. -/
structure PreVoteResponse where
  /-- Receiver's term. -/
  term : Nat
  /-- Whether the receiver would vote. -/
  voteGranted : Bool
deriving DecidableEq, Repr

/-- `AppendEntriesRequest`. -/
structure AppendEntriesRequest where
  /-- Leader's term. -/
  term : Nat
  /-- Leader. -/
  leaderID : NodeId
  /-- Index before the first entry sent. -/
  prevLogIndex : Nat
  /-- Term at that index. -/
  prevLogTerm : Nat
  /-- Entries sent. -/
  entries : List LogEntry
  /-- Leader's commit index. -/
  leaderCommit : Nat
deriving DecidableEq, Repr

/-- `AppendEntriesResponse`. -/
structure AppendEntriesResponse where
  /-- Receiver's term. -/
  term : Nat
  /-- Whether the entries were accepted. -/
  success : Bool
deriving DecidableEq, Repr

/-- The errors the package returns. -/
inductive RaftError
  /-- `ErrLogInconsistent` — an append does not match the local log. -/
  | logInconsistent (prevLogIndex prevLogTerm : Nat)
  /-- `ErrUnknownPeer` — leader replication state is missing a peer. -/
  | unknownPeer (peerID : NodeId)
  /-- `ErrMembershipChangePending` — another membership change is not applied yet. -/
  | membershipChangePending
  /-- `ErrNotLeader` — a write was proposed to a non-leader. -/
  | notLeader (state : State)
  /-- An error text of the membership code. -/
  | membership (text : String)
  /-- The error `StableStore.Save` returned. -/
  | save
deriving DecidableEq, Repr

/-- `IsLogAtLeastUpToDate` — the freshness comparison of `RequestVote`. -/
def isLogAtLeastUpToDate (candidateLastIndex candidateLastTerm localLastIndex localLastTerm : Nat) :
    Bool :=
  if candidateLastTerm ≠ localLastTerm then decide (localLastTerm < candidateLastTerm)
  else decide (localLastIndex ≤ candidateLastIndex)

end Raft

import Mathlib.Logic.Function.Basic
import RvKeyValue.Raft.Membership

/-!
# The node record, its log and its store

The record and the lock-protected helpers of `raft/node.go`. A section of the code that holds
the lock is a function on the record; the content of the stable store is part of the record,
as the `store` field is in the code, so that a restart is `newRaftNode` over it. A section
that may save takes a flag that says whether a `Save` it makes succeeds.
-/

namespace Raft

/-- `RaftNode` — the local state of one node. The two progress maps are absent when nil, and
the one-slot channel `commitReady` is a flag that says whether the slot is full. -/
structure RaftNode where
  /-- Own id. -/
  id : NodeId
  /-- Other voting members. -/
  peers : List NodeId
  /-- Whether the node itself is a member. -/
  selfMember : Bool := true
  /-- Whether membership was configured or stored. -/
  membershipConfigured : Bool
  /-- Role. -/
  state : State := .follower
  /-- Known leader, empty when none. -/
  leaderID : NodeId := ""
  /-- Latest term seen. -/
  currentTerm : Nat := 0
  /-- Vote in that term, empty when none. -/
  votedFor : NodeId := ""
  /-- Retained log. -/
  log : List LogEntry := []
  /-- Last index known to be committed. -/
  commitIndex : Nat := 0
  /-- Last index applied. -/
  lastApplied : Nat := 0
  /-- Last index the snapshot covers. -/
  lastIncludedIndex : Nat := 0
  /-- Term of that index. -/
  lastIncludedTerm : Nat := 0
  /-- Snapshot bytes. -/
  snapshot : Bytes := []
  /-- Next index to send to each peer. -/
  nextIndex : Option (NodeId → Option Nat) := none
  /-- Index each peer is known to hold. -/
  matchIndex : Option (NodeId → Option Nat) := none
  /-- Content of the stable store, absent without one. -/
  store : Option PersistentState := none
  /-- The commit signal. -/
  commitReady : Bool := false

/-- What a section returns: the record after it, its value and its error. -/
structure Outcome (α : Type) where
  /-- The record when the lock is released. -/
  node : RaftNode
  /-- The returned value. -/
  value : α
  /-- The returned error. -/
  err : Option RaftError := none

/-- `clonePeers` — a copy of no peers is nil. -/
def clonePeers (peers : List NodeId) : Option (List NodeId) :=
  if peers.isEmpty then none else some peers

/-- `containsPeer`. -/
def containsPeer (peers : List NodeId) (id : NodeId) : Bool := peers.any fun peer => peer == id

/-- `removePeer`. -/
def removePeer (peers : List NodeId) (id : NodeId) : List NodeId :=
  peers.filter fun peer => peer ≠ id

/-- `majority` — more than half of the cluster. -/
def majority (clusterSize : Nat) : Nat := clusterSize / 2 + 1

/-- `NewRaftNode` — a node over a store, or over none. -/
def newRaftNode (id : NodeId) (peers : List NodeId) (store : Option PersistentState) : RaftNode :=
  match store with
  | none => { id, peers, membershipConfigured := !peers.isEmpty }
  | some state =>
    { id
      peers := state.peers.getD peers
      selfMember := state.selfMember.getD true
      membershipConfigured := !peers.isEmpty || state.peers.isSome || state.selfMember.isSome
      currentTerm := state.currentTerm
      votedFor := state.votedFor
      lastIncludedIndex := state.lastIncludedIndex
      lastIncludedTerm := state.lastIncludedTerm
      snapshot := state.snapshot
      commitIndex := state.lastIncludedIndex
      lastApplied := state.lastIncludedIndex
      log := state.log
      store }

namespace RaftNode

/-- `firstLogIndexLocked`. -/
def firstLogIndexLocked (n : RaftNode) : Nat := Word.add n.lastIncludedIndex 1

/-- `lastLogIndexLocked`. -/
def lastLogIndexLocked (n : RaftNode) : Nat :=
  match n.log.getLast? with
  | none => n.lastIncludedIndex
  | some entry => entry.index

/-- `lastLogTermLocked`. -/
def lastLogTermLocked (n : RaftNode) : Nat :=
  match n.log.getLast? with
  | none => n.lastIncludedTerm
  | some entry => entry.term

/-- `containsLogIndexLocked`. -/
def containsLogIndexLocked (n : RaftNode) (index : Nat) : Bool :=
  decide (n.firstLogIndexLocked ≤ index) && decide (index ≤ n.lastLogIndexLocked)

/-- The slice access `n.log[index-n.firstLogIndexLocked()]`. The code panics out of range; here
the zero entry is read. -/
def entryAtLocked (n : RaftNode) (index : Nat) : LogEntry :=
  (n.log[index - n.firstLogIndexLocked]?).getD default

/-- `logTermAtLocked` — zero also when the index is absent. -/
def logTermAtLocked (n : RaftNode) (index : Nat) : Nat :=
  if index = 0 then 0
  else if index = n.lastIncludedIndex then n.lastIncludedTerm
  else if n.containsLogIndexLocked index then (n.entryAtLocked index).term
  else 0

/-- `cloneEntriesFromLocked`. -/
def cloneEntriesFromLocked (n : RaftNode) (startIndex : Nat) : List LogEntry :=
  let start := if startIndex ≤ n.lastIncludedIndex then n.firstLogIndexLocked else startIndex
  if n.lastLogIndexLocked < start then [] else n.log.drop (start - n.firstLogIndexLocked)

/-- `isMemberLocked`. -/
def isMemberLocked (n : RaftNode) (id : NodeId) : Bool :=
  if id = n.id then n.selfMember
  else containsPeer n.peers id || (n.selfMember && !n.membershipConfigured)

/-- `clusterSizeLocked`. -/
def clusterSizeLocked (n : RaftNode) : Nat := n.peers.length + if n.selfMember then 1 else 0

/-- `Members`. -/
def members (n : RaftNode) : List NodeId := (if n.selfMember then [n.id] else []) ++ n.peers

/-- The value `persistLocked` passes to `Save`. -/
def persistentState (n : RaftNode) : PersistentState where
  currentTerm := n.currentTerm
  votedFor := n.votedFor
  peers := clonePeers n.peers
  selfMember := some n.selfMember
  lastIncludedIndex := n.lastIncludedIndex
  lastIncludedTerm := n.lastIncludedTerm
  snapshot := n.snapshot
  log := n.log

/-- `persistLocked` — save the durable fields; a failed `Save` leaves the store as it was. -/
def persistLocked (n : RaftNode) (save : Bool) : RaftNode × Option RaftError :=
  match n.store with
  | none => (n, none)
  | some _ => if save then ({ n with store := some n.persistentState }, none) else (n, some .save)

/-- `persistLocked` changes nothing but the store. -/
theorem persistLocked_cases (n : RaftNode) (save : Bool) :
    (n.persistLocked save).1 = n ∨
      (n.persistLocked save).1 = { n with store := some n.persistentState } := by
  unfold persistLocked
  cases n.store with
  | none => exact Or.inl rfl
  | some state =>
    cases save with
    | true => exact Or.inr rfl
    | false => exact Or.inl rfl

/-- A `persistLocked` over a store that returns no error has stored the durable fields. -/
theorem persistLocked_stored {n : RaftNode} {save : Bool} {state : PersistentState}
    (store : n.store = some state) (noError : (n.persistLocked save).2 = none) :
    (n.persistLocked save).1 = { n with store := some n.persistentState } := by
  unfold persistLocked at noError ⊢
  rw [store] at noError ⊢
  cases save with
  | true => rfl
  | false => contradiction

/-- `persistLocked` returns no error but that of a failed `Save`. -/
theorem persistLocked_err {n : RaftNode} {save : Bool} {err : RaftError}
    (failed : (n.persistLocked save).2 = some err) : err = .save ∧ save = false := by
  unfold persistLocked at failed
  cases store : n.store with
  | none =>
    rw [store] at failed
    contradiction
  | some state =>
    rw [store] at failed
    cases save with
    | true => contradiction
    | false => exact ⟨(Option.some.inj failed).symm, rfl⟩

/-- Persist and return a value. -/
def persisting {α : Type} (n : RaftNode) (save : Bool) (value : α) : Outcome α :=
  ⟨(n.persistLocked save).1, value, (n.persistLocked save).2⟩

/-- A section that ends without an error in a save has stored the durable fields. -/
theorem persisting_stored {α : Type} {n : RaftNode} {save : Bool} {value : α}
    {state : PersistentState} (store : n.store = some state)
    (noError : (n.persisting save value).err = none) :
    (n.persisting save value).node.store = some n.persistentState :=
  congrArg RaftNode.store (persistLocked_stored store noError)

end RaftNode

end Raft

import Mathlib.Data.Fintype.EquivFin
import RvKeyValue.Node.Operation

/-!
# Restarts

A node that is built again over its store. While saves succeed, what `NewRaftNode` reads back is the
consensus state the node had in memory, after every operation. The membership is read back from a
mix of stored fields and command-line peers: it is what it was unless the peer list had become empty
or the membership had never been configured.
-/

namespace Raft

open Transition (Reach)

/-- What happens to a node: an operation, whose `Save` succeeds or not, or a restart over the
store. -/
inductive NodeEvent
  /-- An operation. -/
  | perform (op : Operation) (save : Bool)
  /-- `NewRaftNode` over the store. -/
  | restart

/-- Every `Save` succeeds. -/
def NodeEvent.saves : NodeEvent → Bool
  | perform _ save => save
  | restart => true

namespace RaftNode

/-- The record after an event; `peers` is the command line's peer list. -/
def next (unmarshal : Bytes → Option MembershipCommand) (peers : List NodeId) (n : RaftNode) :
    NodeEvent → Option RaftNode
  | .perform op save => some (n.perform unmarshal save op)
  | .restart => some (newRaftNode n.id peers n.store)

/-- No event changes the id. -/
theorem next_id {unmarshal : Bytes → Option MembershipCommand} {peers : List NodeId} {n after : RaftNode}
    {event : NodeEvent} (stepped : n.next unmarshal peers event = some after) : after.id = n.id := by
  cases event with
  | perform op save =>
    obtain rfl := Option.some.inj stepped
    exact (n.perform_prepared unmarshal save op).own
  | restart =>
    obtain rfl := Option.some.inj stepped
    unfold newRaftNode
    split <;> rfl

/-- No event gives a node a store or takes it away. -/
theorem next_store {unmarshal : Bytes → Option MembershipCommand} {peers : List NodeId}
    {n after : RaftNode} {event : NodeEvent} (stepped : n.next unmarshal peers event = some after) :
    after.store.isSome = n.store.isSome := by
  cases event with
  | perform op save =>
    obtain rfl := Option.some.inj stepped
    rcases n.perform_saves unmarshal save op with kept | ⟨m, saved, store, -⟩
    · rw [kept.store]
    · rw [saved, ← store]
      unfold persistLocked
      cases held : m.store with
      | none => rw [held]
      | some state =>
        cases save with
        | true => rfl
        | false => rw [if_neg (by simp), held]
  | restart =>
    obtain rfl := Option.some.inj stepped
    unfold newRaftNode
    split
    · rename_i none
      rw [none]
    · rename_i state held
      rw [held]

end RaftNode

/-- The stored fields that make up the consensus state. -/
structure Consensus where
  /-- Latest term seen. -/
  currentTerm : Nat
  /-- Vote in that term. -/
  votedFor : NodeId
  /-- Retained log. -/
  log : List LogEntry
  /-- Last index the snapshot covers. -/
  lastIncludedIndex : Nat
  /-- Term of that index. -/
  lastIncludedTerm : Nat
  /-- Snapshot bytes. -/
  snapshot : Bytes
deriving DecidableEq, Repr

/-- The consensus state a `Save` writes. -/
def PersistentState.consensus (state : PersistentState) : Consensus where
  currentTerm := state.currentTerm
  votedFor := state.votedFor
  log := state.log
  lastIncludedIndex := state.lastIncludedIndex
  lastIncludedTerm := state.lastIncludedTerm
  snapshot := state.snapshot

/-- The consensus state of a node. -/
def RaftNode.consensus (n : RaftNode) : Consensus := n.persistentState.consensus

section

variable {unmarshal : Bytes → Option MembershipCommand} {peers : List NodeId}

/-- What is stored is the consensus state. -/
def Recoverable (n : RaftNode) : Prop := ∃ state, n.store = some state ∧ state.consensus = n.consensus

/-- An operation whose save succeeds leaves the consensus state stored. -/
theorem Recoverable.perform {n : RaftNode} (recoverable : Recoverable n) (op : Operation) :
    Recoverable (n.perform unmarshal true op) := by
  obtain ⟨state, stored, same⟩ := recoverable
  rcases n.perform_saves unmarshal true op with kept | ⟨m, saved, store, -⟩
  · refine ⟨state, kept.store.trans stored, ?_⟩
    unfold RaftNode.consensus
    rw [kept.state]
    exact same
  · rw [saved, RaftNode.persistLocked, store, stored]
    exact ⟨_, rfl, rfl⟩

/-- After every operation of every run in which saves succeed, a node built over the same store has
the consensus state of the node, and has committed and applied what its snapshot covers. -/
theorem restart_recovers_consensus {id : NodeId} {state : PersistentState} {n : RaftNode}
    (run : Reach (RaftNode.next unmarshal peers) (fun _ event => event.saves = true)
      (newRaftNode id peers (some state)) n) :
    (newRaftNode n.id peers n.store).consensus = n.consensus ∧
      (newRaftNode n.id peers n.store).commitIndex = n.lastIncludedIndex ∧
      (newRaftNode n.id peers n.store).lastApplied = n.lastIncludedIndex := by
  have recoverable : Recoverable n := by
    refine run.invariant ⟨state, rfl, rfl⟩ fun before after event kept saves stepped => ?_
    cases event with
    | perform op save =>
      obtain rfl : save = true := saves
      obtain rfl := Option.some.inj stepped
      exact kept.perform op
    | restart =>
      obtain rfl := Option.some.inj stepped
      obtain ⟨stored, there, -⟩ := kept
      rw [there]
      exact ⟨stored, rfl, rfl⟩
  obtain ⟨stored, there, same⟩ := recoverable
  have included : stored.lastIncludedIndex = n.lastIncludedIndex :=
    congrArg Consensus.lastIncludedIndex same
  rw [there]
  exact ⟨same, included, included⟩

/-- A candidate that won its election has appended a command. -/
theorem restart_recovers_consensus_leader : ∃ n : RaftNode,
    Reach (RaftNode.next plainCommands ["B"]) (fun _ event => event.saves = true)
      (newRaftNode "A" ["B"] (some {})) n ∧
      n.consensus = ⟨1, "A", [⟨1, 1, [88]⟩], 0, 0, []⟩ ∧
      (newRaftNode n.id ["B"] n.store).consensus = n.consensus := by
  have passed : (Transition.exec (RaftNode.next plainCommands ["B"])
      (fun _ event => event.saves = true) (newRaftNode "A" ["B"] (some {}))
      [.perform .becomeCandidate true, .perform (.promoteCandidate 1) true,
        .perform (.appendLocal [88]) true]).any (fun n =>
          decide (n.consensus = ⟨1, "A", [⟨1, 1, [88]⟩], 0, 0, []⟩)) = true := by
    decide +kernel
  obtain ⟨n, run, test⟩ := Reach.of_exec_test passed
  exact ⟨n, run, of_decide_eq_true test, (restart_recovers_consensus run).1⟩

/-- What a `Save` stored of the membership, or what a restart read of it and has not saved since. -/
inductive MembershipStored (peers : List NodeId) (n : RaftNode) (state : PersistentState) : Prop
  /-- The last `Save` stored the membership. -/
  | saved (listed : state.peers = clonePeers n.peers) (own : state.selfMember = some n.selfMember)
  /-- The membership was read back. -/
  | read (listed : n.peers = state.peers.getD peers) (own : state.selfMember = some n.selfMember)
      (configured : n.membershipConfigured = true) (some : state.peers ≠ some [])

/-- An event keeps what is stored of the membership in step with it. -/
theorem MembershipStored.next {n after : RaftNode} {state : PersistentState} (stored : n.store = some state)
    (kept : MembershipStored peers n state) {event : NodeEvent} (saves : event.saves = true)
    (stepped : n.next unmarshal peers event = some after) :
    ∃ state', after.store = some state' ∧ MembershipStored peers after state' := by
  cases event with
  | perform op save =>
    obtain rfl : save = true := saves
    obtain rfl := Option.some.inj stepped
    rcases n.perform_saves unmarshal true op with same | ⟨m, saved, store, -⟩
    · have listed := clonePeers_inj (congrArg PersistentState.peers same.state)
      have member := Option.some.inj (congrArg PersistentState.selfMember same.state)
      refine ⟨state, same.store.trans stored, ?_⟩
      cases kept with
      | saved list own => exact .saved (by rw [listed]; exact list) (by rw [member]; exact own)
      | read list own configured some =>
        exact .read (by rw [listed]; exact list) (by rw [member]; exact own)
          (same.configured.trans configured) some
    · rw [saved, RaftNode.persistLocked, store, stored]
      exact ⟨_, rfl, .saved rfl rfl⟩
  | restart =>
    obtain rfl := Option.some.inj stepped
    rw [stored]
    have listed : state.peers ≠ some [] := by
      cases kept with
      | saved listed own => rw [listed]; exact clonePeers_ne n.peers
      | read listed own configured some => exact some
    have member : state.selfMember = some n.selfMember := by
      cases kept with
      | saved listed own => exact own
      | read listed own configured some => exact own
    refine ⟨state, rfl, .read rfl ?_ ?_ listed⟩
    · show state.selfMember = some (state.selfMember.getD true)
      rw [member]
      rfl
    · show (!peers.isEmpty || state.peers.isSome || state.selfMember.isSome) = true
      rw [member]
      simp

/-- Two nodes list the same members and give the same answers about membership. -/
def SameMembership (n m : RaftNode) : Prop :=
  (∀ id, id ∈ m.members ↔ id ∈ n.members) ∧ ∀ id, m.isMemberLocked id = n.isMemberLocked id

/-- Only the fields of the membership count. -/
theorem SameMembership.of_fields {n m : RaftNode} (own : m.id = n.id) (listed : m.peers = n.peers)
    (member : m.selfMember = n.selfMember)
    (open_ : (m.selfMember && !m.membershipConfigured) = (n.selfMember && !n.membershipConfigured)) :
    SameMembership n m := by
  constructor
  · intro id
    unfold RaftNode.members
    rw [own, listed, member]
  · intro id
    unfold RaftNode.isMemberLocked
    rw [own, listed, open_, member]

/-- A member of a list of peers. -/
theorem mem_members {n : RaftNode} {id : NodeId} :
    id ∈ n.members ↔ n.selfMember = true ∧ id = n.id ∨ id ∈ n.peers := by
  unfold RaftNode.members
  rw [List.mem_append]
  split
  · rename_i member
    rw [List.mem_singleton]
    simp [member]
  · rename_i removed
    simp [removed]

/-- `containsPeer` looks for the peer. -/
theorem containsPeer_iff {list : List NodeId} {id : NodeId} : containsPeer list id = true ↔ id ∈ list := by
  unfold containsPeer
  simp

/-- When the peer list of a configured node is not empty, or the command line names nobody but a node
that is a member itself, what is read back is the membership; and only then. -/
theorem MembershipStored.recovered {n : RaftNode} {state : PersistentState}
    (kept : MembershipStored peers n state) :
    SameMembership n (newRaftNode n.id peers (some state)) ↔
      (n.membershipConfigured = true ∨ n.selfMember = false) ∧
        (n.peers = [] → ∀ peer ∈ peers, n.selfMember = true ∧ peer = n.id) := by
  cases kept with
  | read listed own configured some =>
    have same : SameMembership n (newRaftNode n.id peers (Option.some state)) := by
      refine .of_fields rfl listed.symm ?_ ?_
      · show state.selfMember.getD true = n.selfMember
        rw [own]
        rfl
      · show (state.selfMember.getD true && !(!peers.isEmpty || state.peers.isSome ||
          state.selfMember.isSome)) = _
        rw [own, configured]
        simp
    refine ⟨fun _ => ⟨Or.inl configured, fun empty peer there => ?_⟩, fun _ => same⟩
    -- an empty list is read back from a command line that names nobody
    have none : peers = [] := by
      cases stored : state.peers with
      | none => rw [listed, stored] at empty; exact empty
      | some list =>
        rw [listed, stored] at empty
        rw [stored] at some
        exact absurd (congrArg Option.some empty) some
    rw [none] at there
    contradiction
  | saved listed own =>
    have read : (newRaftNode n.id peers (some state)).peers =
        if n.peers = [] then peers else n.peers := by
      show state.peers.getD peers = _
      rw [listed, clonePeers_getD]
    have member : (newRaftNode n.id peers (some state)).selfMember = n.selfMember := by
      show state.selfMember.getD true = _
      rw [own]
      rfl
    have configured : (newRaftNode n.id peers (some state)).membershipConfigured = true := by
      show (!peers.isEmpty || state.peers.isSome || state.selfMember.isSome) = true
      rw [own]
      simp
    have name : (newRaftNode n.id peers (some state)).id = n.id := rfl
    generalize newRaftNode n.id peers (some state) = r at read member configured name
    constructor
    · intro same
      constructor
      · by_contra unconfigured
        rw [not_or, Bool.not_eq_true, Bool.not_eq_false] at unconfigured
        -- an unconfigured node takes a stranger for a member
        obtain ⟨stranger, absent⟩ := Infinite.exists_notMem_finset (n.id :: r.peers).toFinset
        rw [List.mem_toFinset, List.mem_cons, not_or] at absent
        have answer := same.2 stranger
        unfold RaftNode.isMemberLocked at answer
        have unknown : containsPeer r.peers stranger = false := by
          rw [← Bool.not_eq_true, containsPeer_iff]
          exact absent.2
        rw [name, if_neg absent.1, if_neg absent.1, unknown, configured, unconfigured.1,
          unconfigured.2] at answer
        simp at answer
      · intro empty peer there
        rw [if_pos empty] at read
        have found := (same.1 peer).mp (mem_members.mpr (Or.inr (by rw [read]; exact there)))
        rw [mem_members, empty] at found
        simpa using found
    · rintro ⟨known, covered⟩
      have closed : (r.selfMember && !r.membershipConfigured) =
          (n.selfMember && !n.membershipConfigured) := by
        rw [configured]
        cases known with
        | inl known => rw [known]; simp
        | inr removed => rw [removed]; simp
      by_cases empty : n.peers = []
      · rw [if_pos empty] at read
        constructor
        · intro id
          rw [mem_members, mem_members, member, name, read, empty]
          constructor
          · intro found
            exact found.elim Or.inl fun there => Or.inl (covered empty id there)
          · intro found
            exact found.elim Or.inl fun there => by contradiction
        · intro id
          unfold RaftNode.isMemberLocked
          rw [name, member]
          split
          · rfl
          · rename_i other
            have unknown : containsPeer r.peers id = false := by
              rw [← Bool.not_eq_true, containsPeer_iff, read]
              exact fun there => other (covered empty id there).2
            rw [unknown, empty, ← closed, ← member]
            rfl
      · rw [if_neg empty] at read
        exact .of_fields name read member closed

/-- Once a `Save` was made, and while saves succeed, a node built again with the same id, command line
and store has the membership the node had if and only if the membership was configured (or the node
had been removed) and the peer list is not empty (or the command line names nobody else). -/
theorem restart_recovers_membership_iff {id : NodeId} {state : PersistentState} {m n : RaftNode}
    (created : Reach (RaftNode.next unmarshal peers) (fun _ event => event.saves = true)
      (newRaftNode id peers (some state)) m)
    (saved : m.store = some m.persistentState)
    (run : Reach (RaftNode.next unmarshal peers) (fun _ event => event.saves = true) m n) :
    SameMembership n (newRaftNode id peers n.store) ↔
      (n.membershipConfigured = true ∨ n.selfMember = false) ∧
        (n.peers = [] → ∀ peer ∈ peers, n.selfMember = true ∧ peer = id) := by
  have name : m.id = id := created.invariant (P := fun node => node.id = id) rfl
    fun _ _ _ kept _ stepped => (RaftNode.next_id stepped).trans kept
  have stored : n.id = id ∧ ∃ state', n.store = some state' ∧ MembershipStored peers n state' := by
    have start : m.id = id ∧ ∃ state', m.store = some state' ∧ MembershipStored peers m state' :=
      ⟨name, _, saved, .saved rfl rfl⟩
    refine run.invariant (P := fun node => node.id = id ∧
      ∃ state', node.store = some state' ∧ MembershipStored peers node state') start ?_
    rintro before after event ⟨own, state', there, kept⟩ saves stepped
    exact ⟨(RaftNode.next_id stepped).trans own, kept.next there saves stepped⟩
  obtain ⟨rfl, state', there, kept⟩ := stored
  rw [there]
  exact kept.recovered

/-- A node whose only peer is removed while another is added keeps its membership over a restart. -/
theorem restart_recovers_membership_replaced : ∃ n : RaftNode,
    Reach (RaftNode.next (readsChanges [⟨.addPeer, "C"⟩, ⟨.removePeer, "B"⟩]) ["B"])
      (fun _ event => event.saves = true) (newRaftNode "A" ["B"] (some {})) n ∧
      n.members = ["A", "C"] ∧ SameMembership n (newRaftNode "A" ["B"] n.store) := by
  have passed : (Transition.exec
      (RaftNode.next (readsChanges [⟨.addPeer, "C"⟩, ⟨.removePeer, "B"⟩]) ["B"])
      (fun _ event => event.saves = true) (newRaftNode "A" ["B"] (some {}))
      [.perform (.applyEntry ⟨1, 1, membershipJson ⟨.addPeer, "C"⟩⟩) true,
        .perform (.applyEntry ⟨1, 2, membershipJson ⟨.removePeer, "B"⟩⟩) true]).any (fun n =>
          decide (n.members = ["A", "C"] ∧ n.store = some n.persistentState ∧
            n.membershipConfigured = true ∧ n.peers ≠ [])) = true := by
    decide +kernel
  obtain ⟨n, run, test⟩ := Reach.of_exec_test passed
  obtain ⟨listed, stored, configured, some⟩ := of_decide_eq_true test
  exact ⟨n, run, listed, (restart_recovers_membership_iff run stored .start).mpr
    ⟨Or.inl configured, fun none => absurd none some⟩⟩

/-- A node that has applied the removal of its only peer has it back after a restart. -/
theorem removed_peer_returns : ∃ n : RaftNode,
    Reach (RaftNode.next (readsChanges [⟨.removePeer, "B"⟩]) ["B"])
      (fun _ event => event.saves = true) (newRaftNode "A" ["B"] (some {})) n ∧
      n.store = some n.persistentState ∧ n.members = ["A"] ∧ n.isMemberLocked "B" = false ∧
      (newRaftNode "A" ["B"] n.store).members = ["A", "B"] ∧
      (newRaftNode "A" ["B"] n.store).isMemberLocked "B" = true := by
  have passed : (Transition.exec (RaftNode.next (readsChanges [⟨.removePeer, "B"⟩]) ["B"])
      (fun _ event => event.saves = true) (newRaftNode "A" ["B"] (some {}))
      [.perform (.applyEntry ⟨1, 1, membershipJson ⟨.removePeer, "B"⟩⟩) true]).any (fun n =>
          decide (n.store = some n.persistentState ∧ n.members = ["A"] ∧ n.isMemberLocked "B" = false ∧
            (newRaftNode "A" ["B"] n.store).members = ["A", "B"] ∧
            (newRaftNode "A" ["B"] n.store).isMemberLocked "B" = true)) = true := by
    decide +kernel
  obtain ⟨n, run, test⟩ := Reach.of_exec_test passed
  exact ⟨n, run, of_decide_eq_true test⟩

end

end Raft

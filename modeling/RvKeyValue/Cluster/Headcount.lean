import RvKeyValue.Cluster.Watched

/-!
# Counting members

The members of a node are its own id and its peer list, and a majority counts the node as one and its
peers by their places on the list. The list comes from the command line, from the store or from
membership changes. `parsePeers` refuses a peer named twice, a change adds nobody who is listed or is
the node itself, and what is stored is what was listed. But nothing compares the peers of the command
line with the node's own id: a node named among its own peers counts itself twice.

A node that is not has different members in every run, and what it counts are different nodes.
-/

namespace Raft

open Transition (Reach)

/-- An error of `parsePeers`. -/
inductive PeersError where
  /-- `invalid peer %q, want id=address`. -/
  | invalidPeer (rawPeer : String)
  /-- `duplicate peer id %q`. -/
  | duplicatePeer (id : NodeId)
deriving DecidableEq, Repr

/-- The two parts of `strings.SplitN(peer, "=", 2)`, if there are two. -/
def splitPeer (peer : String) : Option (String × String) :=
  match peer.toList.span (· ≠ '=') with
  | (_, []) => none
  | (id, _ :: addr) => some (String.ofList id, String.ofList addr)

/-- The loop of `parsePeers`, with the ids and addresses found so far. -/
def parsePeersLoop (ids : List NodeId) (addrs : NodeId → Option String) :
    List String → Except PeersError (List NodeId × (NodeId → Option String))
  | [] => .ok (ids, addrs)
  | rawPeer :: rest =>
    match splitPeer (trimSpace rawPeer) with
    | none => .error (.invalidPeer rawPeer)
    | some (first, second) =>
      let id := trimSpace first
      let addr := trimSpace second
      if id = "" ∨ addr = "" then .error (.invalidPeer rawPeer)
      else if (addrs id).isSome then .error (.duplicatePeer id)
      else parsePeersLoop (ids ++ [id]) (Function.update addrs id (some addr)) rest

/-- `parsePeers` — the ids of the peers, in order, and their addresses. -/
def parsePeers (value : String) : Except PeersError (List NodeId × (NodeId → Option String)) :=
  if trimSpace value = "" then .ok ([], fun _ => none)
  else parsePeersLoop [] (fun _ => none) ((value.toList.splitOn ',').map String.ofList)

/-- The loop of `parsePeers` adds no id twice: those found have an address. -/
theorem parsePeersLoop_nodup {rawPeers : List String} {ids ids' : List NodeId}
    {addrs addrs' : NodeId → Option String} (known : ∀ id, (addrs id).isSome = true ↔ id ∈ ids)
    (distinct : ids.Nodup) (parsed : parsePeersLoop ids addrs rawPeers = .ok (ids', addrs')) :
    ids'.Nodup := by
  induction rawPeers generalizing ids addrs with
  | nil =>
    obtain ⟨rfl, rfl⟩ := Prod.mk.inj (Except.ok.inj parsed)
    exact distinct
  | cons rawPeer rest ih =>
    unfold parsePeersLoop at parsed
    split at parsed
    · cases parsed
    · rename_i first second split
      dsimp only at parsed
      split_ifs at parsed with blank found
      have new : trimSpace first ∉ ids := fun listed => found ((known _).mpr listed)
      apply ih ?_ ?_ parsed
      · intro id
        by_cases same : id = trimSpace first
        · rw [same, Function.update_self]
          simp
        · rw [Function.update_of_ne same, known id]
          simp [same]
      · exact distinct.append (List.nodup_singleton _) (List.disjoint_singleton.mpr new)

/-- The ids `parsePeers` accepts are different. -/
theorem parsePeers_nodup {value : String} {ids : List NodeId} {addrs : NodeId → Option String}
    (parsed : parsePeers value = .ok (ids, addrs)) : ids.Nodup := by
  unfold parsePeers at parsed
  split at parsed
  · obtain ⟨rfl, rfl⟩ := Prod.mk.inj (Except.ok.inj parsed)
    exact List.nodup_nil
  · exact parsePeersLoop_nodup (by simp) List.nodup_nil parsed

namespace RaftNode

/-- A node names nobody twice: not with the peers it has, not with those it would read at a restart,
and not with those of the command line. -/
structure Distinct (peers : List NodeId) (n : RaftNode) : Prop where
  /-- The command line. -/
  flags : (n.id :: peers).Nodup
  /-- The peer list. -/
  listed : (n.id :: n.peers).Nodup
  /-- The store. -/
  stored : ∀ state, n.store = some state → (n.id :: state.peers.getD peers).Nodup

variable {unmarshal : Bytes → Option MembershipCommand} {peers : List NodeId} {n m : RaftNode}

/-- A membership change adds nobody twice. -/
theorem Reconfigured.listed {change : MembershipChange} (applied : Reconfigured n change m)
    (distinct : (n.id :: n.peers).Nodup) : (m.id :: m.peers).Nodup := by
  rw [applied.own, applied.peers]
  split_ifs with own adds known
  · exact distinct
  · exact distinct
  · have new : change.peerID ∉ n.peers := fun there => known (containsPeer_iff.mpr there)
    have apart : change.peerID ∉ n.id :: n.peers := by
      rw [List.mem_cons]
      rintro (self | there)
      · exact own self
      · exact new there
    exact distinct.append (List.nodup_singleton _) (List.disjoint_singleton.mpr apart)
  · have fewer : (removePeer n.peers change.peerID).Sublist n.peers := List.filter_sublist
    exact distinct.sublist (fewer.cons_cons n.id)

/-- An operation keeps the peers, or applies a membership change to them. -/
theorem perform_peers (n : RaftNode) (save : Bool) (op : Operation) :
    (n.perform unmarshal save op).peers = n.peers ∨
      ∃ change m, Reconfigured n change m ∧ (n.perform unmarshal save op).peers = m.peers := by
  have saved : ∀ m : RaftNode, (m.persistLocked save).1.peers = m.peers := by
    intro m
    rcases m.persistLocked_cases save with same | stored
    · rw [same]
    · rw [stored]
  cases op with
  | applyMembershipChange change =>
    cases valid : change.validate with
    | error err =>
      have same : n.applyMembershipChange save change = ⟨n, (), some err⟩ := by
        rw [applyMembershipChange, valid]
      left
      simp only [perform, same]
    | ok done =>
      obtain ⟨m, applied, same⟩ := n.applyMembershipChange_eq save valid
      right
      refine ⟨change, m, applied, ?_⟩
      simp only [perform, same, saved]
  | applyEntry entry =>
    rcases n.applyEntry_cases save unmarshal entry with same | ⟨change, m, -, applied, same⟩
    · left
      simp only [perform, same]
    · right
      refine ⟨change, m, applied, ?_⟩
      simp only [perform, same, saved, markApplied_eq]
  | _ => exact Or.inl ((n.perform_prepared unmarshal save _).membership rfl).1

/-- An operation leaves the store, or stores the peers it leaves. -/
theorem perform_stores (n : RaftNode) (save : Bool) (op : Operation) :
    (n.perform unmarshal save op).store = n.store ∨ ∃ state,
      (n.perform unmarshal save op).store = some state ∧
        state.peers = clonePeers (n.perform unmarshal save op).peers := by
  rcases n.perform_store unmarshal save op with kept | stored
  · exact Or.inl kept
  · exact Or.inr ⟨_, stored, rfl⟩

/-- An event names nobody twice. -/
theorem Distinct.next {after : RaftNode} {event : NodeEvent} (distinct : n.Distinct peers)
    (stepped : n.next unmarshal peers event = some after) : after.Distinct peers := by
  have own : after.id = n.id := next_id stepped
  have flags : (after.id :: peers).Nodup := by
    rw [own]
    exact distinct.flags
  cases event with
  | perform op save =>
    obtain rfl := Option.some.inj stepped
    have listed : ((n.perform unmarshal save op).id :: (n.perform unmarshal save op).peers).Nodup := by
      rcases perform_peers n save op with same | ⟨change, m, applied, same⟩
      · rw [own, same]
        exact distinct.listed
      · rw [own, ← applied.own, same]
        exact applied.listed distinct.listed
    refine ⟨flags, listed, fun state there => ?_⟩
    rcases perform_stores n save op with kept | ⟨written, stored, cloned⟩
    · rw [own]
      exact distinct.stored state (kept.symm.trans there)
    · obtain rfl := Option.some.inj (stored.symm.trans there)
      -- an empty list is stored as none
      rw [cloned, clonePeers_getD]
      split_ifs
      · exact flags
      · exact listed
  | restart =>
    obtain rfl := Option.some.inj stepped
    cases held : n.store with
    | none => exact ⟨distinct.flags, distinct.flags, by simp [newRaftNode]⟩
    | some state =>
      have read := distinct.stored state held
      refine ⟨distinct.flags, read, fun stored there => ?_⟩
      obtain rfl : state = stored := Option.some.inj there
      exact read

/-- A node over a store that holds no peers names those of the command line. -/
theorem Distinct.start {id : NodeId} {store : Option PersistentState} (flags : (id :: peers).Nodup)
    (fresh : ∀ state, store = some state → state.peers = none) :
    (newRaftNode id peers store).Distinct peers := by
  cases store with
  | none => exact ⟨flags, flags, by simp [newRaftNode]⟩
  | some state =>
    have none := fresh state rfl
    have read : (id :: state.peers.getD peers).Nodup := by
      rw [none]
      exact flags
    refine ⟨flags, read, fun stored there => ?_⟩
    obtain rfl : state = stored := Option.some.inj there
    exact read

/-- No run names anybody twice. -/
theorem Distinct.reach {guard : RaftNode → NodeEvent → Prop} (start : n.Distinct peers)
    (run : Reach (RaftNode.next unmarshal peers) guard n m) : m.Distinct peers :=
  run.invariant start fun _ _ _ distinct _ stepped => distinct.next stepped

/-- A node names its members once. -/
theorem Distinct.members (distinct : n.Distinct peers) : n.members.Nodup := by
  unfold RaftNode.members
  split_ifs
  · exact distinct.listed
  · exact (List.nodup_cons.mp distinct.listed).2

/-- At least so many different nodes: the node itself and peers that agree. -/
def Agreed (n : RaftNode) (agrees : NodeId → Prop) (count : Nat) : Prop :=
  ∃ nodes : Finset NodeId, nodes ⊆ (n.id :: n.peers).toFinset ∧ count ≤ nodes.card ∧ n.id ∈ nodes ∧
    ∀ node ∈ nodes, node ≠ n.id → agrees node

/-- The members `advanceCommitLocked` counts are different nodes. -/
theorem Distinct.replicated (distinct : n.Distinct peers) (index : Nat) :
    n.Agreed (fun peer => index ≤ (n.matchOf peer).getD 0) (n.replicatedCount index) := by
  have carried : Ballot.Carried n.peers (fun peer => index ≤ (n.matchOf peer).getD 0)
      (n.replicatedCount index) := by
    refine ⟨n.peers.filter fun peer => decide (index ≤ (n.matchOf peer).getD 0),
      List.filter_sublist.subperm, ?_, fun voter counted => ?_⟩
    · unfold replicatedCount
      rw [List.countP_eq_length_filter, Nat.add_comm]
      exact le_refl _
    · exact of_decide_eq_true (List.mem_filter.mp counted).2
  exact carried.distinct distinct.listed

end RaftNode

section

variable {unmarshal : Bytes → Option MembershipCommand}

/-- A node built from any accepted `--peers` that do not name the node itself, over a store that holds no
peers yet: in every run of membership changes, restarts and any other operations it names no member twice,
and the members `advanceCommitLocked` counts for an index are that many different nodes; and in every run
of the process, so are those whose pre-votes and votes an election of it has counted as a majority. -/
theorem members_counted_once {value : String} {ids : List NodeId} {addrs : NodeId → Option String}
    {id : NodeId} {store : Option PersistentState} (parsed : parsePeers value = .ok (ids, addrs))
    (other : id ∉ ids) (fresh : ∀ state, store = some state → state.peers = none) :
    (∀ n, Reach (RaftNode.next unmarshal ids) (fun _ _ => True) (newRaftNode id ids store) n →
      n.members.Nodup ∧
        ∀ index, n.Agreed (fun peer => index ≤ (n.matchOf peer).getD 0) (n.replicatedCount index)) ∧
    ∀ w, Reach (Watched.next unmarshal ids) (fun _ _ => True)
        (Watched.started (newRaftNode id ids store)) w → ∀ tag,
      (w.server.calls tag = some (.election .preVoteWon) → ∃ n, (w.trails tag).polled = some n ∧
        n.Agreed (PreVoted w.taken tag n.preVoteRequest) (majority (n.peers.length + 1))) ∧
      ∀ term, w.server.calls tag = some (.election (.winning term)) →
        ∃ n, (w.trails tag).asked = some n ∧ term = n.currentTerm ∧
          n.Agreed (Voted w.taken tag n.voteRequest) (majority (n.peers.length + 1)) := by
  have start : (newRaftNode id ids store).Distinct ids :=
    .start (List.nodup_cons.mpr ⟨other, parsePeers_nodup parsed⟩) fresh
  refine ⟨fun n run => ?_, fun w run tag => ?_⟩
  · have distinct := start.reach run
    exact ⟨distinct.members, distinct.replicated⟩
  · have told : w.Told := .reach run
    have held : ∀ record, (w.trails tag).Holds record → record.Distinct ids := fun record held =>
      start.reach ((Watched.records run).2 tag record held)
    refine ⟨fun ran => ?_, fun term ran => ?_⟩
    · obtain ⟨n, read, carried⟩ := told tag _ ran
      exact ⟨n, read, carried.distinct (held n (Or.inl read)).listed⟩
    · obtain ⟨n, read, same, carried⟩ := told tag _ ran
      exact ⟨n, read, same, carried.distinct (held n (Or.inr (Or.inr read))).listed⟩

end

/-- Peers B and C, C replaced by D. -/
theorem members_counted_once_replaced : ∃ n : RaftNode,
    Reach (RaftNode.next (readsChanges [⟨.addPeer, "D"⟩, ⟨.removePeer, "C"⟩]) ["B", "C"]) (fun _ _ => True)
      (newRaftNode "A" ["B", "C"] (some {})) n ∧ n.members = ["A", "B", "D"] ∧ n.members.Nodup := by
  have parsed : ∃ addrs, parsePeers "B=b:7001, C = c:7001" = .ok (["B", "C"], addrs) := ⟨_, rfl⟩
  obtain ⟨addrs, accepted⟩ := parsed
  have passed : (Transition.exec
      (RaftNode.next (readsChanges [⟨.addPeer, "D"⟩, ⟨.removePeer, "C"⟩]) ["B", "C"]) (fun _ _ => True)
      (newRaftNode "A" ["B", "C"] (some {}))
      [.perform (.applyEntry ⟨1, 1, membershipJson ⟨.addPeer, "D"⟩⟩) true,
        .perform (.applyEntry ⟨1, 2, membershipJson ⟨.removePeer, "C"⟩⟩) true, .restart]).any (fun n =>
          decide (n.members = ["A", "B", "D"])) = true := by
    decide +kernel
  obtain ⟨n, run, listed⟩ := Reach.of_exec_test passed
  have counted := (members_counted_once accepted (by decide) fun state same => by cases same; rfl).1 n run
  exact ⟨n, run, of_decide_eq_true listed, counted.1⟩

/-- A node named among its own peers counts itself twice. -/
theorem own_peer_counted_twice : ∃ ids addrs, parsePeers "A=a:7001,B=b:7001" = .ok (ids, addrs) ∧
    (newRaftNode "A" ids (some {})).members = ["A", "A", "B"] :=
  ⟨_, _, rfl, rfl⟩

end Raft

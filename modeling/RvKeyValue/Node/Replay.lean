import RvKeyValue.Base.Overwrite
import RvKeyValue.Node.Recovery

/-!
# Membership over a replayed log

A restart reads back the membership as it was stored last, and the applied index as the snapshot's:
the node then applies changes again that its membership already reflects. As long as each of them
agrees with the membership it is applied to, nothing changes; where a peer was added and removed, an
older membership comes back.
-/

namespace Raft

open Transition (Reach)

/-- Whether a node lists an id among its members. -/
def RaftNode.lists (n : RaftNode) (id : NodeId) : Bool := decide (id ∈ n.members)

/-- What a change writes: whether its peer is a member. -/
def MembershipChange.write (change : MembershipChange) : NodeId × Bool :=
  (change.peerID, decide (change.type = .addPeer))

section

variable (unmarshal : Bytes → Option MembershipCommand)

/-- The changes among entries, in order. -/
def changesOf (entries : List LogEntry) : List MembershipChange :=
  entries.filterMap fun entry =>
    match decodeMembershipChange unmarshal entry.command with
    | some (.ok change) => some change
    | _ => none

/-- The membership after the changes of a log. -/
def membersAfter (initial : NodeId → Bool) (entries : List LogEntry) : NodeId → Bool :=
  Overwrite.replay initial ((changesOf unmarshal entries).map MembershipChange.write)

/-- A node, and the length of the longest prefix of the committed log it has applied. -/
structure Replaying where
  /-- The node. -/
  node : RaftNode
  /-- Entries applied. -/
  high : Nat := 0

/-- One event. -/
def Replaying.next (peers : List NodeId) (r : Replaying) (event : NodeEvent) : Option Replaying :=
  (r.node.next unmarshal peers event).map fun node => { node, high := max r.high node.lastApplied }

/-- Saves succeed, and entries are applied in the order of the committed log. -/
def AppliesLog (committed : List LogEntry) (n : RaftNode) : NodeEvent → Bool
  | .perform (.applyMembershipChange _) _ => false
  | .perform (.applyEntry entry) save => save && decide (committed[n.lastApplied]? = some entry)
  | .perform (.markApplied index) save => save && decide (index = n.lastApplied + 1) &&
    (committed[n.lastApplied]?).any fun entry => (decodeMembershipChange unmarshal entry.command).isNone
  | .perform _ save => save
  | .restart => true

/-- A node is restarted when the changes it will apply again agree with its members, and with a peer
list that is not taken for none. -/
def RestartsSettled (committed : List LogEntry) (peers : List NodeId) (r : Replaying) : NodeEvent → Bool
  | .restart => (decide (r.node.peers ≠ []) || decide (peers = [])) &&
    (changesOf unmarshal ((committed.take r.high).drop r.node.lastIncludedIndex)).all fun change =>
      r.node.lists change.peerID == decide (change.type = .addPeer)
  | _ => true

end

section

variable {unmarshal : Bytes → Option MembershipCommand} {peers : List NodeId} {n m : RaftNode}

/-- Changes of one log after another. -/
theorem changesOf_append (first second : List LogEntry) :
    changesOf unmarshal (first ++ second) = changesOf unmarshal first ++ changesOf unmarshal second :=
  List.filterMap_append

/-- Whether an id is listed depends on the own membership and on the peers. -/
theorem RaftNode.lists_eq (n : RaftNode) (id : NodeId) :
    n.lists id = (n.selfMember && decide (id = n.id) || decide (id ∈ n.peers)) := by
  unfold lists
  rw [Bool.eq_iff_iff]
  simp [mem_members]

/-- What marking an entry applied and saving leaves. -/
theorem RaftNode.marked_fields (n : RaftNode) (index : Nat) (save : Bool) :
    ((n.markApplied index).persistLocked save).1.id = n.id ∧
      ((n.markApplied index).persistLocked save).1.peers = n.peers ∧
      ((n.markApplied index).persistLocked save).1.selfMember = n.selfMember ∧
      ((n.markApplied index).persistLocked save).1.lastApplied = max n.lastApplied index ∧
      ((n.markApplied index).persistLocked save).1.lastIncludedIndex = n.lastIncludedIndex := by
  rw [n.markApplied_eq]
  cases RaftNode.persistLocked_cases { n with lastApplied := max n.lastApplied index } save with
  | inl same => rw [same]; exact ⟨rfl, rfl, rfl, rfl, rfl⟩
  | inr stored => rw [stored]; exact ⟨rfl, rfl, rfl, rfl, rfl⟩

/-- Applying a change writes whether its peer is a member. -/
theorem RaftNode.Reconfigured.lists {change : MembershipChange} (applied : Reconfigured n change m)
    (supported : change.type = .addPeer ∨ change.type = .removePeer) (own : n.id ∉ n.peers) :
    m.id ∉ m.peers ∧
      m.lists = Function.update n.lists change.peerID (decide (change.type = .addPeer)) := by
  have listed : ∀ id, id ∈ m.peers ↔ if change.peerID = n.id ∨ id ≠ change.peerID then id ∈ n.peers
      else change.type = .addPeer := by
    intro id
    rw [applied.peers]
    by_cases self : change.peerID = n.id
    · rw [if_pos self, if_pos (Or.inl self)]
    rw [if_neg self]
    by_cases here : id = change.peerID
    · have neither : ¬ (change.peerID = n.id ∨ id ≠ change.peerID) := by simp [self, here]
      rw [if_neg neither]
      cases supported with
      | inl adds =>
        rw [if_pos adds]
        split
        · rename_i known
          simp [here, adds, containsPeer_iff.mp known]
        · simp [here, adds]
      | inr removes => simp [here, removes, removePeer]
    · rw [if_pos (Or.inr here)]
      split
      · split
        · rfl
        · simp [here]
      · simp [removePeer, here]
  constructor
  · rw [applied.own, listed]
    split
    · exact own
    · rename_i other
      rw [not_or, not_not] at other
      exact absurd other.2.symm other.1
  · funext id
    rw [m.lists_eq, applied.own, applied.member]
    by_cases here : id = change.peerID
    · rw [here, Function.update_self]
      by_cases self : change.peerID = n.id
      · have absent : change.peerID ∉ m.peers := by
          rw [listed, if_pos (Or.inl self), self]
          exact own
        rw [if_pos self, decide_eq_true self, decide_eq_false absent, Bool.and_true, Bool.or_false]
      · have there : change.peerID ∈ m.peers ↔ change.type = .addPeer := by
          have neither : ¬ (change.peerID = n.id ∨ change.peerID ≠ change.peerID) := by simp [self]
          rw [listed, if_neg neither]
        rw [decide_eq_false self, Bool.and_false, Bool.false_or]
        exact decide_eq_decide.mpr there
    · have same : id ∈ m.peers ↔ id ∈ n.peers := by
        rw [listed, if_pos (Or.inr here)]
      rw [Function.update_of_ne here, n.lists_eq, decide_eq_decide.mpr same]
      by_cases self : change.peerID = n.id
      · have other : id ≠ n.id := by
          rw [← self]
          exact here
        rw [decide_eq_false other, Bool.and_false, Bool.and_false]
      · rw [if_neg self]

/-- What is stored of the snapshot index and the membership. -/
structure MembersStored (peers : List NodeId) (n : RaftNode) (state : PersistentState) : Prop where
  /-- This is the stored state. -/
  store : n.store = some state
  /-- The snapshot index is stored. -/
  included : state.lastIncludedIndex = n.lastIncludedIndex
  /-- So is the own membership. -/
  member : state.selfMember.getD true = n.selfMember
  /-- So is the peer list, or it is the one the command line gives. -/
  listed : state.peers = clonePeers n.peers ∨ state.peers.getD peers = n.peers

/-- An operation whose save succeeds keeps them stored. -/
theorem MembersStored.perform {state : PersistentState} (stored : MembersStored peers n state)
    (op : Operation) : ∃ state', MembersStored peers (n.perform unmarshal true op) state' := by
  rcases n.perform_saves unmarshal true op with kept | ⟨m, saved, store, -⟩
  · have listed := clonePeers_inj (congrArg PersistentState.peers kept.state)
    have member := Option.some.inj (congrArg PersistentState.selfMember kept.state)
    have included := congrArg PersistentState.lastIncludedIndex kept.state
    refine ⟨state, kept.store.trans stored.store, stored.included.trans included.symm,
      stored.member.trans member.symm, ?_⟩
    rw [listed]
    exact stored.listed
  · rw [saved, RaftNode.persistLocked, store, stored.store]
    exact ⟨_, rfl, rfl, rfl, Or.inl rfl⟩

/-- The members of a node are those after the longest prefix it has applied, and the changes it
applies again agree with them. -/
structure Folded (unmarshal : Bytes → Option MembershipCommand) (committed : List LogEntry)
    (initial : NodeId → Bool) (peers : List NodeId) (r : Replaying) : Prop where
  /-- A node is not its own peer. -/
  own : r.node.id ∉ r.node.peers
  /-- The applied index lies in the prefix. -/
  applied : r.node.lastApplied ≤ r.high
  /-- So does the snapshot. -/
  included : r.node.lastIncludedIndex ≤ r.high
  /-- The prefix is committed. -/
  within : r.high ≤ committed.length
  /-- The members are those of the prefix. -/
  members : r.node.lists = membersAfter unmarshal initial (committed.take r.high)
  /-- Changes that will be applied again agree. -/
  settled : ∀ change ∈ changesOf unmarshal ((committed.take r.high).drop r.node.lastApplied),
    r.node.lists change.peerID = decide (change.type = .addPeer)
  /-- What is stored. -/
  stored : ∃ state, MembersStored peers r.node state

namespace Folded

variable {committed : List LogEntry} {initial : NodeId → Bool} {r : Replaying}

/-- The next entry of the committed log is applied. -/
theorem advance (folded : Folded unmarshal committed initial peers r) {entry : LogEntry}
    (found : committed[r.node.lastApplied]? = some entry) (own : m.id ∉ m.peers)
    (applied : m.lastApplied = r.node.lastApplied + 1)
    (included : m.lastIncludedIndex = r.node.lastIncludedIndex)
    (lists : m.lists = Overwrite.replay r.node.lists
      ((changesOf unmarshal [entry]).map MembershipChange.write))
    (stored : ∃ state, MembersStored peers m state) :
    Folded unmarshal committed initial peers ⟨m, max r.high m.lastApplied⟩ := by
  have inside := (List.getElem?_eq_some_iff.mp found).1
  have within := folded.within
  have low := folded.applied
  have snapshot := folded.included
  by_cases again : r.node.lastApplied < r.high
  · have same : max r.high m.lastApplied = r.high := by omega
    have split : (committed.take r.high).drop r.node.lastApplied =
        [entry] ++ (committed.take r.high).drop (r.node.lastApplied + 1) := by
      have there : (committed.take r.high)[r.node.lastApplied]? = some entry := by
        rw [List.getElem?_take_of_lt again]
        exact found
      rw [List.drop_eq_getElem?_toList_append, there]
      rfl
    have settled := folded.settled
    rw [split, changesOf_append] at settled
    -- the entry is applied again, and agrees with the members
    have kept : m.lists = r.node.lists := by
      rw [lists]
      refine Overwrite.replay_eq_self fun write listed => ?_
      obtain ⟨change, among, rfl⟩ := List.mem_map.mp listed
      exact settled change (List.mem_append_left _ among)
    rw [same]
    refine ⟨own, ?_, ?_, within, kept.trans folded.members, ?_, stored⟩
    · show m.lastApplied ≤ r.high
      omega
    · show m.lastIncludedIndex ≤ r.high
      omega
    · simp only [applied, kept]
      exact fun change among => settled change (List.mem_append_right _ among)
  · have last : r.node.lastApplied = r.high := by omega
    have next : max r.high m.lastApplied = r.high + 1 := by omega
    have longer : committed.take (r.high + 1) = committed.take r.high ++ [entry] := by
      rw [List.take_add_one, ← last, found]
      rfl
    rw [next]
    refine ⟨own, ?_, ?_, ?_, ?_, ?_, stored⟩
    · show m.lastApplied ≤ r.high + 1
      omega
    · show m.lastIncludedIndex ≤ r.high + 1
      omega
    · show r.high + 1 ≤ committed.length
      omega
    · simp only
      rw [longer, membersAfter, changesOf_append, List.map_append, Overwrite.replay_append, lists,
        folded.members]
      rfl
    · have empty : (committed.take (r.high + 1)).drop (r.high + 1) = [] := by
        rw [List.drop_eq_nil_iff, List.length_take]
        exact min_le_left _ _
      simp only [applied, last, empty]
      exact fun change among => absurd among List.not_mem_nil

/-- The members stay, and the applied index goes no further than it was. -/
theorem stay (folded : Folded unmarshal committed initial peers r) (name : m.id = r.node.id)
    (listed : m.peers = r.node.peers) (member : m.selfMember = r.node.selfMember)
    (applied : m.lastApplied ≤ r.high) (included : m.lastIncludedIndex ≤ r.high)
    (settled : ∀ change ∈ changesOf unmarshal ((committed.take r.high).drop m.lastApplied),
      r.node.lists change.peerID = decide (change.type = .addPeer))
    (stored : ∃ state, MembersStored peers m state) :
    Folded unmarshal committed initial peers ⟨m, max r.high m.lastApplied⟩ := by
  have lists : m.lists = r.node.lists := by
    funext id
    rw [m.lists_eq, r.node.lists_eq, name, listed, member]
  have same : max r.high m.lastApplied = r.high := by omega
  rw [same]
  refine ⟨?_, applied, included, folded.within, lists.trans folded.members, ?_, stored⟩
  · show m.id ∉ m.peers
    rw [name, listed]
    exact folded.own
  · simp only [lists]
    exact settled

/-- `NewRaftNode` over the store. -/
theorem restart (folded : Folded unmarshal committed initial peers r)
    (ready : RestartsSettled unmarshal committed peers r .restart = true) :
    Folded unmarshal committed initial peers ⟨newRaftNode r.node.id peers r.node.store,
      max r.high (newRaftNode r.node.id peers r.node.store).lastApplied⟩ := by
  obtain ⟨state, stored⟩ := folded.stored
  obtain ⟨known, settled⟩ := (Bool.and_eq_true ..).mp ready
  rw [Bool.or_eq_true, decide_eq_true_eq, decide_eq_true_eq] at known
  have listed : state.peers.getD peers = r.node.peers := by
    cases stored.listed with
    | inr read => exact read
    | inl saved =>
      rw [saved, clonePeers_getD]
      split
      · rename_i empty
        rw [known.resolve_left (not_not.mpr empty), empty]
      · rfl
  rw [stored.store]
  refine folded.stay rfl listed stored.member ?_ ?_ ?_ ⟨state, rfl, rfl, rfl, Or.inr rfl⟩
  · show state.lastIncludedIndex ≤ r.high
    rw [stored.included]
    exact folded.included
  · show state.lastIncludedIndex ≤ r.high
    rw [stored.included]
    exact folded.included
  · show ∀ change ∈ changesOf unmarshal ((committed.take r.high).drop state.lastIncludedIndex), _
    rw [stored.included]
    exact fun change among => beq_iff_eq.mp (List.all_eq_true.mp settled change among)

/-- Every event. -/
theorem next (folded : Folded unmarshal committed initial peers r) (indexed : Indexed committed)
    {event : NodeEvent} (follows : AppliesLog unmarshal committed r.node event = true)
    (ready : RestartsSettled unmarshal committed peers r event = true) {after : Replaying}
    (stepped : r.next unmarshal peers event = some after) :
    Folded unmarshal committed initial peers after := by
  cases event with
  | restart =>
    obtain rfl := Option.some.inj stepped
    exact folded.restart ready
  | perform op save =>
    obtain rfl := Option.some.inj stepped
    obtain ⟨state, stored⟩ := folded.stored
    have quiet : save = true → op.reconfigures = false → op.applies = false →
        Folded unmarshal committed initial peers
          ⟨r.node.perform unmarshal save op,
            max r.high (r.node.perform unmarshal save op).lastApplied⟩ := by
      rintro rfl fixed idle
      obtain ⟨applied, included⟩ := r.node.perform_indices unmarshal true idle
      have prepared := r.node.perform_prepared unmarshal true op
      obtain ⟨listed, member, -⟩ := prepared.membership fixed
      refine folded.stay prepared.own listed member ?_ ?_ ?_ (stored.perform op)
      · rw [applied]
        exact folded.applied
      · have low := folded.applied
        have snapshot := folded.included
        omega
      · rw [applied]
        exact folded.settled
    cases op with
    | applyMembershipChange change => exact absurd follows Bool.false_ne_true
    | applyEntry entry =>
      obtain ⟨rfl, found⟩ := (Bool.and_eq_true ..).mp follows
      have found := of_decide_eq_true found
      have number := indexed _ _ found
      by_cases decodes : ∃ change, decodeMembershipChange unmarshal entry.command = some (.ok change)
      · obtain ⟨change, decoded⟩ := decodes
        obtain ⟨m, applied, same⟩ := r.node.applyEntry_eq true decoded
        have supported := RaftNode.supported_of_validate (RaftNode.validate_of_decode decoded)
        obtain ⟨own, lists⟩ := applied.lists supported folded.own
        obtain ⟨name, listed, member, marked, included⟩ := m.marked_fields entry.index true
        have shown : ((m.markApplied entry.index).persistLocked true).1.lists = m.lists := by
          funext id
          rw [RaftNode.lists_eq, m.lists_eq, name, listed, member]
        have persisted : ∃ state', MembersStored peers
            (r.node.perform unmarshal true (.applyEntry entry)) state' := stored.perform _
        simp only [RaftNode.perform, same] at persisted ⊢
        refine folded.advance found ?_ ?_ (included.trans applied.included) ?_ persisted
        · rw [name, listed]
          exact own
        · rw [marked, applied.applied, number]
          exact max_eq_right (Nat.le_succ _)
        · rw [shown, lists]
          simp only [changesOf, List.filterMap_cons, decoded, List.filterMap_nil]
          rfl
      · have same : r.node.applyEntry unmarshal true entry = r.node := by
          unfold RaftNode.applyEntry
          split
          · rename_i change decoded
            exact absurd ⟨change, decoded⟩ decodes
          · rfl
        simp only [RaftNode.perform, same]
        exact folded.stay rfl rfl rfl folded.applied folded.included folded.settled folded.stored
    | markApplied index =>
      obtain ⟨follows, plain⟩ := (Bool.and_eq_true ..).mp follows
      obtain ⟨rfl, following⟩ := (Bool.and_eq_true ..).mp follows
      have following := of_decide_eq_true following
      cases found : committed[r.node.lastApplied]? with
      | none =>
        rw [found] at plain
        exact absurd plain Bool.false_ne_true
      | some entry =>
        rw [found] at plain
        have persisted : ∃ state', MembersStored peers
            (r.node.perform unmarshal true (.markApplied index)) state' := stored.perform _
        simp only [RaftNode.perform, r.node.markApplied_eq, following] at persisted ⊢
        refine folded.advance found folded.own (max_eq_right (Nat.le_succ _)) rfl ?_ persisted
        have decoded : decodeMembershipChange unmarshal entry.command = none :=
          Option.isNone_iff_eq_none.mp plain
        simp only [changesOf, List.filterMap_cons, decoded, List.filterMap_nil]
        rfl
    | _ => exact quiet follows rfl rfl

end Folded

/-- In every run that applies a committed log in order, with every `Save` successful, and that restarts
the node only when what it will apply again agrees with its members: the members are those after a
prefix of the committed log no shorter than any prefix the node has applied, before or after a
restart. -/
theorem membership_never_goes_back {id : NodeId} (other : id ∉ peers) {committed : List LogEntry}
    (indexed : Indexed committed) {r : Replaying}
    (run : Reach (Replaying.next unmarshal peers)
      (fun r event => AppliesLog unmarshal committed r.node event = true ∧
        RestartsSettled unmarshal committed peers r event = true)
      { node := newRaftNode id peers (some {}) } r) :
    ∃ length, r.high ≤ length ∧ length ≤ committed.length ∧
      r.node.lists = membersAfter unmarshal (newRaftNode id peers (some {})).lists
        (committed.take length) := by
  have start : Folded unmarshal committed (newRaftNode id peers (some {})).lists peers
      { node := newRaftNode id peers (some {}) } :=
    ⟨other, le_refl _, le_refl _, Nat.zero_le _, rfl, by simp [changesOf], _, rfl, rfl, rfl, Or.inr rfl⟩
  have folded := run.invariant start fun _ _ _ folded allowed stepped =>
    folded.next indexed allowed.1 allowed.2 stepped
  exact ⟨r.high, le_refl _, folded.within, folded.members⟩

/-- A peer is added, the node is restarted and applies the change again. -/
theorem membership_never_goes_back_added : ∃ r : Replaying,
    Reach (Replaying.next (readsChanges [⟨.addPeer, "C"⟩]) ["B"])
      (fun r event =>
        AppliesLog (readsChanges [⟨.addPeer, "C"⟩]) [⟨1, 1, membershipJson ⟨.addPeer, "C"⟩⟩] r.node event =
            true ∧
          RestartsSettled (readsChanges [⟨.addPeer, "C"⟩]) [⟨1, 1, membershipJson ⟨.addPeer, "C"⟩⟩] ["B"] r
            event = true)
      { node := newRaftNode "A" ["B"] (some {}) } r ∧
      r.high = 1 ∧ r.node.lastApplied = 0 ∧
      ∃ length, r.high ≤ length ∧ length ≤ 1 ∧
        r.node.lists = membersAfter (readsChanges [⟨.addPeer, "C"⟩])
          (newRaftNode "A" ["B"] (some {})).lists
          ([⟨1, 1, membershipJson ⟨.addPeer, "C"⟩⟩].take length) := by
  have passed : (Transition.exec (Replaying.next (readsChanges [⟨.addPeer, "C"⟩]) ["B"])
      (fun r event =>
        AppliesLog (readsChanges [⟨.addPeer, "C"⟩]) [⟨1, 1, membershipJson ⟨.addPeer, "C"⟩⟩] r.node event =
            true ∧
          RestartsSettled (readsChanges [⟨.addPeer, "C"⟩]) [⟨1, 1, membershipJson ⟨.addPeer, "C"⟩⟩] ["B"] r
            event = true)
      { node := newRaftNode "A" ["B"] (some {}) }
      [.perform (.applyEntry ⟨1, 1, membershipJson ⟨.addPeer, "C"⟩⟩) true, .restart]).any (fun r =>
        decide (r.high = 1 ∧ r.node.lastApplied = 0)) = true := by
    decide +kernel
  obtain ⟨r, run, test⟩ := Reach.of_exec_test passed
  obtain ⟨high, again⟩ := of_decide_eq_true test
  exact ⟨r, run, high, again, membership_never_goes_back (by decide)
    (by simp [Indexed, List.getElem?_singleton]) run⟩

/-- A log in which a peer is added and removed again. -/
def addedAndRemoved : List LogEntry :=
  [⟨1, 1, membershipJson ⟨.addPeer, "D"⟩⟩, ⟨1, 2, membershipJson ⟨.removePeer, "D"⟩⟩]

/-- The reader of its commands. -/
def readsAddedAndRemoved : Bytes → Option MembershipCommand :=
  readsChanges [⟨.addPeer, "D"⟩, ⟨.removePeer, "D"⟩]

/-- A node that has applied the removal of a peer is restarted, and lists the peer again when it has
applied the first entry of its committed log once more. -/
theorem removed_member_reappears : ∃ r : Replaying,
    Reach (Replaying.next readsAddedAndRemoved ["B"])
      (fun r event => AppliesLog readsAddedAndRemoved addedAndRemoved r.node event = true)
      { node := newRaftNode "A" ["B"] (some {}) } r ∧
      r.high = 2 ∧ r.node.lists "D" = true ∧
      ∀ length, r.high ≤ length → r.node.lists ≠ membersAfter readsAddedAndRemoved
        (newRaftNode "A" ["B"] (some {})).lists (addedAndRemoved.take length) := by
  -- a leader sends both entries and commits them, and again after the restart
  have passed : (Transition.exec (Replaying.next readsAddedAndRemoved ["B"])
      (fun r event => AppliesLog readsAddedAndRemoved addedAndRemoved r.node event = true)
      { node := newRaftNode "A" ["B"] (some {}) }
      [.perform (.handleAppendEntries ⟨1, "B", 0, 0, addedAndRemoved, 2⟩) true,
        .perform (.applyEntry ⟨1, 1, membershipJson ⟨.addPeer, "D"⟩⟩) true,
        .perform (.applyEntry ⟨1, 2, membershipJson ⟨.removePeer, "D"⟩⟩) true,
        .restart,
        .perform (.handleAppendEntries ⟨1, "B", 2, 1, [], 2⟩) true,
        .perform (.applyEntry ⟨1, 1, membershipJson ⟨.addPeer, "D"⟩⟩) true]).any (fun r =>
          decide (r.high = 2 ∧ r.node.lists "D" = true)) = true := by
    decide +kernel
  obtain ⟨r, run, test⟩ := Reach.of_exec_test passed
  obtain ⟨high, listed⟩ := of_decide_eq_true test
  refine ⟨r, run, high, listed, fun length long same => ?_⟩
  have whole : addedAndRemoved.take length = addedAndRemoved :=
    List.take_of_length_le (by rw [high] at long; exact long)
  have removed : membersAfter readsAddedAndRemoved (newRaftNode "A" ["B"] (some {})).lists
      addedAndRemoved "D" = false := by
    decide +kernel
  rw [same, whole, removed] at listed
  exact Bool.false_ne_true listed

end

end Raft

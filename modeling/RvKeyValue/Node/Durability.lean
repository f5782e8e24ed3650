import RvKeyValue.Node.Recovery

/-!
# Acknowledged and applied means stored

Memory is changed before `Save`, and nothing is rolled back when it fails. A request that repeats
one whose `Save` failed changes nothing and is acknowledged without another `Save`; an entry can be
committed and handed to the state machine before it is stored. Both need a failed `Save` of a section
that changed the log: without one, what a node acknowledges and what it applies is in its store.
-/

namespace Raft

open Transition (Reach)

/-- The request follows index zero or an entry with a term, and leaves room for the next index. -/
def AppendEntriesRequest.Anchored (req : AppendEntriesRequest) : Prop :=
  (req.prevLogIndex = 0 ∨ 0 < req.prevLogTerm) ∧ req.prevLogIndex + req.entries.length + 1 < Word.limit

instance (req : AppendEntriesRequest) : Decidable req.Anchored := by
  unfold AppendEntriesRequest.Anchored
  infer_instance

/-- A call another node makes, and whether the `Save` it may lead to succeeds. -/
inductive PeerCall
  /-- `HandleAppendEntries`. -/
  | appendEntries (req : AppendEntriesRequest) (save : Bool)
  /-- `RequestVote`. -/
  | requestVote (req : RequestVoteRequest) (save : Bool)

/-- The record after a call. -/
def RaftNode.answer (n : RaftNode) : PeerCall → Option RaftNode
  | .appendEntries req save => some (n.handleAppendEntries save req).node
  | .requestVote req save => some (n.requestVote save req).node

/-- A request that is accepted follows a known entry. -/
def Anchors (n : RaftNode) : PeerCall → Prop
  | .appendEntries req _ => n.accepts req = true → req.Anchored
  | .requestVote _ _ => True

instance (n : RaftNode) (call : PeerCall) : Decidable (Anchors n call) := by
  cases call with
  | appendEntries req save => exact inferInstanceAs (Decidable (_ → _))
  | requestVote req save => exact inferInstanceAs (Decidable True)

/-- The state has an entry in its log, or its snapshot covers the entry's index. -/
def PersistentState.Holds (state : PersistentState) (entry : LogEntry) : Prop :=
  entry ∈ state.log ∨ entry.index ≤ state.lastIncludedIndex

instance (state : PersistentState) (entry : LogEntry) : Decidable (state.Holds entry) := by
  unfold PersistentState.Holds
  infer_instance

/-- The store has the term of the record and its entries up to an index. -/
def RaftNode.stores (n : RaftNode) (upTo : Nat) : Bool :=
  n.store.any fun state => decide (state.currentTerm = n.currentTerm ∧
    ∀ entry ∈ n.log, entry.index ≤ upTo → state.Holds entry)

section

variable {n m : RaftNode} {full : List LogEntry}

/-- Saving changes nothing of the log. -/
theorem Represents.saved (rep : Represents n full) (save : Bool) :
    Represents (n.persistLocked save).1 full := by
  cases n.persistLocked_cases save with
  | inl same => rw [same]; exact rep
  | inr stored => rw [stored]; exact rep.congr rfl rfl rfl

/-- A record retains an entry of the whole log above its snapshot. -/
theorem Represents.mem_log (rep : Represents n full) {entry : LogEntry} :
    entry ∈ n.log ↔ n.lastIncludedIndex < entry.index ∧ full[entry.index - 1]? = some entry := by
  rw [rep.retained]
  constructor
  · intro listed
    obtain ⟨position, found⟩ := List.mem_iff_getElem?.mp listed
    rw [List.getElem?_drop] at found
    have number := rep.indexed _ _ found
    refine ⟨by omega, ?_⟩
    rw [number, Nat.add_sub_cancel]
    exact found
  · rintro ⟨above, found⟩
    refine List.mem_iff_getElem?.mpr ⟨entry.index - 1 - n.lastIncludedIndex, ?_⟩
    rw [List.getElem?_drop, ← found]
    congr 1
    omega

/-- The stored state has what a request was acknowledged for, given the log of the node before and
after the call. -/
structure RequestStored (before after : List LogEntry) (req : AppendEntriesRequest)
    (stored : PersistentState) : Prop where
  /-- The term of the request. -/
  term : stored.currentTerm = req.term
  /-- Every entry the node has up to the last one sent. -/
  log : ∀ entry ∈ after, entry.index ≤ req.prevLogIndex + req.entries.length → stored.Holds entry
  /-- No index up to there is missing. -/
  reached : ∀ index, 0 < index → index ≤ req.prevLogIndex + req.entries.length →
    index ≤ stored.lastIncludedIndex ∨ ∃ entry ∈ stored.log, entry.index = index
  /-- Every entry sent, with its term, and with its command unless the node had an entry of that index
  and term before. -/
  sent : ∀ position entry, req.entries[position]? = some entry →
    req.prevLogIndex + 1 + position ≤ stored.lastIncludedIndex ∨
      ∃ held ∈ stored.log, held.index = req.prevLogIndex + 1 + position ∧ held.term = entry.term ∧
        (held.command = entry.command ∨ held ∈ before)

/-- A state with the term and the log of a record that has accepted a request has what it was
acknowledged for. -/
theorem Represents.acknowledged (rep : Represents n full) {req : AppendEntriesRequest}
    (anchored : req.Anchored) (passed : ¬ n.Mismatch req) {stored : PersistentState}
    (term : stored.currentTerm = req.term) (included : stored.lastIncludedIndex = n.lastIncludedIndex)
    (log : ∀ entry ∈ (n.accept req).log, entry.index ≤ req.prevLogIndex + req.entries.length →
      stored.Holds entry) : RequestStored n.log (n.accept req).log req stored := by
  obtain ⟨same, followed, followedTerm, -⟩ := n.follow_log req
  obtain ⟨full', rep', appended⟩ := rep.accepted (fun _ => anchored.1) (fun _ => anchored.2) passed
  obtain ⟨-, snapshot, -⟩ := n.accept_fields req
  have reaches := appended.reaches
    ((rep.congr same followed followedTerm).prevInside anchored.1 passed)
  have covered := rep'.covered
  have held : ∀ index, 0 < index → index ≤ req.prevLogIndex + req.entries.length →
      index ≤ stored.lastIncludedIndex ∨
        ∃ entry ∈ stored.log, entry.index = index ∧ full'[index - 1]? = some entry := by
    intro index above within
    have inside : index ≤ full'.length := by
      by_cases old : index ≤ req.prevLogIndex
      · omega
      -- the index was sent
      have place : index - req.prevLogIndex - 1 < req.entries.length := by omega
      cases appended.sent _ _ (List.getElem?_eq_getElem place) with
      | inl inSnapshot => omega
      | inr inLog => omega
    by_cases below : index ≤ n.lastIncludedIndex
    · exact Or.inl (by omega)
    have found : full'[index - 1]? = some full'[index - 1] := List.getElem?_eq_getElem (by omega)
    have number : full'[index - 1].index = index := by
      have := rep'.indexed _ _ found
      omega
    have retained : full'[index - 1] ∈ (n.accept req).log :=
      rep'.mem_log.mpr ⟨by omega, by rw [number]; exact found⟩
    cases log _ retained (by omega) with
    | inl listed => exact Or.inr ⟨_, listed, number, found⟩
    | inr under => exact Or.inl (by omega)
  refine ⟨term, log, fun index above within => (held index above within).imp_right
    fun ⟨entry, listed, number, _⟩ => ⟨entry, listed, number⟩, fun position entry found => ?_⟩
  have inRange := (List.getElem?_eq_some_iff.mp found).1
  rcases held (req.prevLogIndex + 1 + position) (by omega) (by omega) with under |
    ⟨kept, listed, number, there⟩
  · exact Or.inl under
  by_cases below : req.prevLogIndex + 1 + position ≤ n.lastIncludedIndex
  · exact Or.inl (by omega)
  refine Or.inr ⟨kept, listed, number, ?_, ?_⟩
  · have sent := ((appended.sent position entry found).resolve_left below).2
    have read := termAt_succ there
    rw [show req.prevLogIndex + 1 + position - 1 + 1 = req.prevLogIndex + 1 + position by omega,
      sent] at read
    exact read.symm
  · rcases appended.origin kept (List.mem_of_getElem? there) with old | ⟨other, sent, place, rfl⟩
    · obtain ⟨position, held⟩ := List.mem_iff_getElem?.mp old
      have own := rep.indexed _ _ held
      exact Or.inr (rep.mem_log.mpr ⟨by omega, by rw [own]; exact held⟩)
    · obtain rfl : other = position := Nat.add_left_cancel number
      obtain rfl := Option.some.inj (place.symm.trans found)
      exact Or.inl rfl

/-- A request is answered with success when it is accepted, and a `Save` follows when something
changed. -/
theorem RaftNode.handleAppendEntries_success {save : Bool} {req : AppendEntriesRequest}
    (success : (n.handleAppendEntries save req).value.success = true) :
    n.currentTerm ≤ req.term ∧ n.accepts req = true ∧ ¬ n.Mismatch req ∧
      (n.mustSave req = true ∧ n.handleAppendEntries save req =
          (n.accept req).persisting save ⟨(n.accept req).currentTerm, true⟩ ∨
        n.mustSave req = false ∧ n.handleAppendEntries save req =
          ⟨n.accept req, ⟨(n.accept req).currentTerm, true⟩, none⟩) := by
  rcases n.handleAppendEntries_cases save req with refused | ⟨current, member, ⟨-, ⟨-, left⟩ |
    ⟨-, stays⟩⟩ | ⟨passed, accepted⟩⟩
  · rw [refused] at success
    contradiction
  · rw [left] at success
    contradiction
  · rw [stays] at success
    contradiction
  · exact ⟨current, RaftNode.accepts_iff.mpr ⟨current, member, passed⟩, passed, accepted⟩

/-- An accepted request without entries leaves the log. -/
theorem RaftNode.accept_nil (n : RaftNode) {req : AppendEntriesRequest} (empty : req.entries = []) :
    (n.accept req).log = n.log ∧ (n.accept req).lastIncludedIndex = n.lastIncludedIndex ∧
      (n.accept req).lastIncludedTerm = n.lastIncludedTerm := by
  obtain ⟨log, included, includedTerm, -⟩ := n.follow_log req
  unfold RaftNode.accept
  rw [empty]
  cases RaftNode.followCommit_cases { n.follow req with
      log := ((n.follow req).appendLoop (Word.add req.prevLogIndex 1) []).1 } req.leaderCommit with
  | inl same => rw [same]; exact ⟨log, included, includedTerm⟩
  | inr raised =>
    obtain ⟨index, -, -, same⟩ := raised
    rw [same]
    exact ⟨log, included, includedTerm⟩

/-- A numbered log, and a store whose snapshot ends where that of the record does. -/
structure RaftNode.Kept (n : RaftNode) : Prop where
  /-- The log. -/
  numbered : ∃ full, Represents n full
  /-- The store. -/
  stored : ∃ state, n.store = some state ∧ state.lastIncludedIndex = n.lastIncludedIndex

/-- A record with another log and the same store and snapshot, saved or not. -/
theorem RaftNode.Kept.saved (kept : n.Kept) (rep : Represents m full) (store : m.store = n.store)
    (included : m.lastIncludedIndex = n.lastIncludedIndex) (save : Bool) :
    m.Kept ∧ (m.persistLocked save).1.Kept := by
  obtain ⟨state, there, same⟩ := kept.stored
  have moved : m.Kept := ⟨⟨full, rep⟩, state, store.trans there, same.trans included.symm⟩
  refine ⟨moved, ?_⟩
  cases m.persistLocked_cases save with
  | inl unsaved => rw [unsaved]; exact moved
  | inr stored => rw [stored]; exact ⟨⟨full, rep.congr rfl rfl rfl⟩, _, rfl, rfl⟩

/-- A call keeps this when an accepted request follows a known entry. -/
theorem RaftNode.Kept.answer (kept : n.Kept) {call : PeerCall} (allowed : Anchors n call)
    {after : RaftNode} (stepped : n.answer call = some after) : after.Kept := by
  obtain ⟨full, rep⟩ := kept.numbered
  cases call with
  | requestVote req save =>
    obtain rfl := Option.some.inj stepped
    have seen : Represents (n.seeTerm req.term) full ∧ (n.seeTerm req.term).store = n.store ∧
        (n.seeTerm req.term).lastIncludedIndex = n.lastIncludedIndex := by
      unfold RaftNode.seeTerm
      split <;> exact ⟨rep.congr rfl rfl rfl, rfl, rfl⟩
    obtain ⟨seen, store, included⟩ := seen
    rcases n.requestVote_cases save req with refused | ⟨-, ⟨-, -, voted⟩ | ⟨-, adopted⟩⟩
    · rw [refused]
      exact kept
    · rw [voted]
      exact (kept.saved (m := { n.seeTerm req.term with votedFor := req.candidateID })
        (seen.congr rfl rfl rfl) store included save).2
    · rw [adopted]
      exact (kept.saved seen store included save).2
  | appendEntries req save =>
    obtain rfl := Option.some.inj stepped
    obtain ⟨log, included, includedTerm, -, store, -⟩ := n.follow_log req
    have following := kept.saved (rep.congr log included includedTerm) store included save
    rcases n.handleAppendEntries_cases save req with refused | ⟨current, member, ⟨-, ⟨-, left⟩ |
      ⟨-, stays⟩⟩ | ⟨passed, answered⟩⟩
    · rw [refused]
      exact kept
    · rw [left]
      exact following.2
    · rw [stays]
      exact following.1
    · have anchored := allowed (RaftNode.accepts_iff.mpr ⟨current, member, passed⟩)
      obtain ⟨full', rep', -⟩ := rep.accepted (fun _ => anchored.1) (fun _ => anchored.2) passed
      obtain ⟨-, included, store, -⟩ := n.accept_fields req
      have accepted := kept.saved rep' store included save
      rcases answered with ⟨-, answered⟩ | ⟨-, answered⟩
      · rw [answered]
        exact accepted.2
      · rw [answered]
        exact accepted.1

/-- A node, the entries its `ApplyCommitted` calls have fetched and not yet handed to the state machine,
and the entries of its log that were written with a `Save` that failed, since the last one that
succeeded. -/
structure Fetching where
  /-- The node. -/
  node : RaftNode
  /-- Entries fetched. -/
  held : List LogEntry := []
  /-- Entries whose `Save` failed. -/
  unsaved : List LogEntry := []

/-- The entries whose `Save` failed when a section has left a record: none if the store is in step with
it. -/
def Fetching.unsavedAfter (f : Fetching) (after : RaftNode) : List LogEntry :=
  if after.store = some after.persistentState then []
  else after.log.filter fun entry => decide (entry ∈ f.unsaved ∨ entry ∉ f.node.log)

/-- What happens to a node that applies entries. -/
inductive FetchingEvent
  /-- An operation or a restart, which ends every call. -/
  | node (event : NodeEvent)
  /-- `nextCommittedEntry` in one of the `ApplyCommitted` calls. -/
  | fetch
  /-- `sm.Apply` with a fetched entry. -/
  | hand (entry : LogEntry)

/-- One event. -/
def Fetching.next (unmarshal : Bytes → Option MembershipCommand) (peers : List NodeId) (f : Fetching) :
    FetchingEvent → Option Fetching
  | .node (.perform op save) =>
    let after := f.node.perform unmarshal save op
    some { f with node := after, unsaved := f.unsavedAfter after }
  | .node .restart => some { node := newRaftNode f.node.id peers f.node.store }
  | .fetch => f.node.nextCommittedEntry.map fun entry => { f with held := f.held ++ [entry] }
  | .hand entry => if entry ∈ f.held then some { f with held := f.held.erase entry } else none

/-- Accepted entries follow a known entry and take no committed one back, and indices fit a word. -/
def Operation.Extends (n : RaftNode) : Operation → Prop
  | .appendLocal _ => n.lastLogIndexLocked + 2 < Word.limit
  | .handleAppendEntries req => n.accepts req = true → req.entries ≠ [] →
    req.Anchored ∧ n.conflicts req n.commitIndex = false
  | _ => True

instance (n : RaftNode) (op : Operation) : Decidable (op.Extends n) := by
  unfold Operation.Extends
  split <;> infer_instance

/-- After each section the commit index is below every entry whose `Save` has failed. -/
def CommitsSaved (unmarshal : Bytes → Option MembershipCommand) (f : Fetching) : FetchingEvent → Prop
  | .node (.perform op save) => op.Extends f.node ∧
    ∀ entry ∈ f.unsavedAfter (f.node.perform unmarshal save op),
      (f.node.perform unmarshal save op).commitIndex < entry.index
  | _ => True

instance (unmarshal : Bytes → Option MembershipCommand) (f : Fetching) (event : FetchingEvent) :
    Decidable (CommitsSaved unmarshal f event) := by
  unfold CommitsSaved
  split <;> infer_instance

/-- As leader a record counts a majority for an index of its term above another. -/
def RaftNode.MajorityAbove (n : RaftNode) (commit : Nat) : Prop :=
  n.state = .leader ∧ n.selfMember = true ∧ ∃ index, commit < index ∧ index ≤ n.lastLogIndexLocked ∧
    n.logTermAtLocked index = n.currentTerm ∧ majority n.clusterSizeLocked ≤ n.replicatedCount index

/-- The commit rule leaves the commit index exactly when it counts no majority above it. -/
theorem RaftNode.advanceCommitFrom_idle (n : RaftNode) (top : Nat) :
    (n.advanceCommitFrom top).commitIndex = n.commitIndex ↔ ¬ ∃ index, n.commitIndex < index ∧
      index ≤ top ∧ n.logTermAtLocked index = n.currentTerm ∧
      majority n.clusterSizeLocked ≤ n.replicatedCount index := by
  induction top with
  | zero =>
    refine iff_of_true rfl ?_
    rintro ⟨index, above, low, -⟩
    omega
  | succ top ih =>
    -- the next index decides, or the search goes on below it
    have below : ¬ (n.logTermAtLocked (top + 1) = n.currentTerm ∧
          majority n.clusterSizeLocked ≤ n.replicatedCount (top + 1)) →
        ((¬ ∃ index, n.commitIndex < index ∧ index ≤ top ∧ n.logTermAtLocked index = n.currentTerm ∧
          majority n.clusterSizeLocked ≤ n.replicatedCount index) ↔
        ¬ ∃ index, n.commitIndex < index ∧ index ≤ top + 1 ∧
          n.logTermAtLocked index = n.currentTerm ∧
          majority n.clusterSizeLocked ≤ n.replicatedCount index) := by
      refine fun fails => not_congr ⟨fun ⟨index, above, low, rest⟩ => ⟨index, above, by omega, rest⟩,
        fun ⟨index, above, low, rest⟩ => ⟨index, above, ?_, rest⟩⟩
      by_contra high
      obtain rfl : index = top + 1 := by omega
      exact fails rest
    unfold RaftNode.advanceCommitFrom
    split_ifs with committed term counted
    · refine iff_of_true rfl ?_
      rintro ⟨index, above, low, -⟩
      omega
    · exact ih.trans (below fun holds => term holds.1)
    · refine iff_of_false (show ¬ top + 1 = n.commitIndex by omega) fun none => none ?_
      exact ⟨top + 1, by omega, le_refl _, of_not_not term, counted⟩
    · exact ih.trans (below fun holds => counted holds.2)

/-- So does `advanceCommitLocked`. -/
theorem RaftNode.advanceCommitLocked_idle (n : RaftNode) :
    n.advanceCommitLocked.commitIndex = n.commitIndex ↔ ¬ n.MajorityAbove n.commitIndex := by
  unfold RaftNode.advanceCommitLocked
  split
  · rename_i other
    refine iff_of_true rfl ?_
    rintro ⟨leads, member, -⟩
    exact other.elim (fun role => role leads) fun left => by rw [member] at left; cases left
  · rename_i leads
    simp only [not_or, not_not, Bool.not_eq_false] at leads
    exact (n.advanceCommitFrom_idle _).trans
      (not_congr ⟨fun counts => ⟨leads.1, leads.2, counts⟩, fun above => above.2.2⟩)

/-- `AppendLocal` leaves the commit index exactly when it refuses the command or the node counts no
majority above it afterwards. -/
theorem RaftNode.appendLocal_commitIndex (n : RaftNode)
    (unmarshal : Bytes → Option MembershipCommand) (save : Bool) (command : Bytes) :
    (n.appendLocal unmarshal save command).node.commitIndex = n.commitIndex ↔
      (n.appendLocal unmarshal save command).node.log = n.log ∨
        ¬ (n.appendLocal unmarshal save command).node.MajorityAbove n.commitIndex := by
  -- the store is not among what the rule counts
  have counted : ∀ m : RaftNode, (m.persistLocked save).1.log = m.log ∧
      (m.persistLocked save).1.commitIndex = m.commitIndex ∧
      ((m.persistLocked save).1.MajorityAbove n.commitIndex ↔ m.MajorityAbove n.commitIndex) := by
    intro m
    cases m.persistLocked_cases save with
    | inl same => rw [same]; exact ⟨rfl, rfl, Iff.rfl⟩
    | inr stored => rw [stored]; exact ⟨rfl, rfl, Iff.rfl⟩
  cases n.appendLocal_cases unmarshal save command with
  | inl refused =>
    obtain ⟨err, same⟩ := refused
    rw [same]
    exact iff_of_true rfl (Or.inl rfl)
  | inr appended =>
    rw [appended]
    simp only [RaftNode.appendCommand, RaftNode.persisting, counted]
    split
    · obtain ⟨index, ready, -, same⟩ := RaftNode.advanceCommitLocked_eq { n with
        log := n.log ++ [⟨n.currentTerm, Word.add n.lastLogIndexLocked 1, command⟩] }
      have idle := RaftNode.advanceCommitLocked_idle { n with
        log := n.log ++ [⟨n.currentTerm, Word.add n.lastLogIndexLocked 1, command⟩] }
      rw [same] at idle ⊢
      refine idle.trans ⟨Or.inr, fun rest => rest.resolve_left ?_⟩
      simp
    · rename_i other
      exact iff_of_true rfl (Or.inr fun above => other above.1)

/-- A numbered log, with the given entries or a snapshot that covers them. -/
structure Retains (n : RaftNode) (held : List LogEntry) : Prop where
  /-- The log is numbered. -/
  numbered : ∃ full, Represents n full
  /-- The entries are here. -/
  present : ∀ entry ∈ held, n.persistentState.Holds entry

/-- What is fetched is in the log, at a committed index. -/
theorem Represents.fetched (rep : Represents n full) {entry : LogEntry}
    (fetched : n.nextCommittedEntry = some entry) : entry ∈ n.log ∧ entry.index ≤ n.commitIndex := by
  simp only [RaftNode.nextCommittedEntry] at fetched
  split at fetched
  · contradiction
  · rename_i ready
    rw [not_or, Bool.not_eq_false, rep.containsLogIndex] at ready
    obtain ⟨committed, above, inside⟩ := ready
    have found : full[Word.add n.lastApplied 1 - 1]? = some full[Word.add n.lastApplied 1 - 1] :=
      List.getElem?_eq_getElem (by omega)
    rw [rep.entryAt above found] at fetched
    have number := rep.indexed _ _ found
    obtain rfl := Option.some.inj fetched
    refine ⟨rep.mem_log.mpr ⟨by omega, ?_⟩, by omega⟩
    rw [number, Nat.add_sub_cancel]
    exact found

/-- A request that meets no other term up to an index meets none up to an earlier one. -/
theorem RaftNode.conflicts_earlier {req : AppendEntriesRequest} {upTo earlier : Nat}
    (quiet : n.conflicts req upTo = false) (le : earlier ≤ upTo) : n.conflicts req earlier = false := by
  rw [RaftNode.conflicts, List.any_eq_false] at quiet ⊢
  intro position listed conflict
  refine quiet position listed ?_
  simp only [RaftNode.conflictsAt, Bool.and_eq_true, decide_eq_true_eq] at conflict ⊢
  exact ⟨⟨conflict.1.1.trans le, conflict.1.2⟩, conflict.2⟩

/-- A step that a `Save` would not see leaves the log as it was. -/
theorem Represents.durable (rep : Represents n full) (same : m.persistentState = n.persistentState) :
    Represents m full :=
  rep.congr (congrArg PersistentState.log same) (congrArg PersistentState.lastIncludedIndex same)
    (congrArg PersistentState.lastIncludedTerm same)

namespace Retains

variable {held : List LogEntry}

/-- Only the log and the snapshot's index and term matter. -/
theorem congr (retains : Retains n held) (log : m.log = n.log)
    (included : m.lastIncludedIndex = n.lastIncludedIndex)
    (includedTerm : m.lastIncludedTerm = n.lastIncludedTerm) : Retains m held := by
  obtain ⟨full, rep⟩ := retains.numbered
  refine ⟨⟨full, rep.congr log included includedTerm⟩, fun entry listed => ?_⟩
  show entry ∈ m.log ∨ entry.index ≤ m.lastIncludedIndex
  rw [log, included]
  exact retains.present entry listed

/-- A step that a `Save` would not see. -/
theorem durable (retains : Retains n held) (same : m.persistentState = n.persistentState) :
    Retains m held :=
  retains.congr (congrArg PersistentState.log same) (congrArg PersistentState.lastIncludedIndex same)
    (congrArg PersistentState.lastIncludedTerm same)

/-- Saving. -/
theorem saved (retains : Retains n held) (save : Bool) : Retains (n.persistLocked save).1 held := by
  cases n.persistLocked_cases save with
  | inl same => rw [same]; exact retains
  | inr stored => rw [stored]; exact retains.congr rfl rfl rfl

/-- `AppendLocal`. -/
theorem appendLocal (retains : Retains n held) {unmarshal : Bytes → Option MembershipCommand}
    (save : Bool) (command : Bytes) (room : n.lastLogIndexLocked + 2 < Word.limit) :
    Retains (n.appendLocal unmarshal save command).node held := by
  obtain ⟨full, rep⟩ := retains.numbered
  cases n.appendLocal_cases unmarshal save command with
  | inl refused =>
    obtain ⟨err, same⟩ := refused
    rw [same]
    exact retains
  | inr appended =>
    rw [appended]
    have last := rep.lastLogIndex
    have next : Word.add n.lastLogIndexLocked 1 = full.length + 1 := by
      rw [Word.add_eq (by omega), last]
    have longer : Retains
        { n with log := n.log ++ [⟨n.currentTerm, Word.add n.lastLogIndexLocked 1, command⟩] } held :=
      ⟨⟨_, rep.snoc next (by omega)⟩, fun entry listed =>
        (retains.present entry listed).imp_left fun old => List.mem_append_left _ old⟩
    simp only [RaftNode.appendCommand]
    split
    · exact (longer.durable
        (RaftNode.advanceCommitLocked_durable _ (.appendLocal command)).state).saved save
    · exact longer.saved save

/-- An accepted request that takes no committed entry back. -/
theorem accept (retains : Retains n held) (committed : ∀ entry ∈ held, entry.index ≤ n.commitIndex)
    {req : AppendEntriesRequest} (passed : ¬ n.Mismatch req)
    (quiet : req.entries ≠ [] → req.Anchored ∧ n.conflicts req n.commitIndex = false) :
    Retains (n.accept req) held := by
  obtain ⟨full, rep⟩ := retains.numbered
  by_cases empty : req.entries = []
  · obtain ⟨log, included, includedTerm⟩ := n.accept_nil empty
    exact retains.congr log included includedTerm
  · obtain ⟨anchored, quiet⟩ := quiet empty
    obtain ⟨full', rep', appended⟩ := rep.accepted (fun _ => anchored.1) (fun _ => anchored.2) passed
    obtain ⟨-, included, -⟩ := n.accept_fields req
    refine ⟨⟨full', rep'⟩, fun entry listed => ?_⟩
    cases retains.present entry listed with
    | inr covered =>
      refine Or.inr ?_
      show entry.index ≤ (n.accept req).lastIncludedIndex
      rw [included]
      exact covered
    | inl old =>
      obtain ⟨above, found⟩ := rep.mem_log.mp old
      have inside := (List.getElem?_eq_some_iff.mp found).1
      have same := appended.kept entry.index
        (RaftNode.conflicts_earlier quiet (committed entry listed)) (by omega)
      refine Or.inl (rep'.mem_log.mpr ⟨by rw [included]; exact above, ?_⟩)
      have read := congrArg (fun list : List LogEntry => list[entry.index - 1]?) same
      simp only [List.getElem?_take_of_lt (by omega : entry.index - 1 < entry.index)] at read
      exact read.trans found

/-- `Compact`: what leaves the log is covered by the snapshot. -/
theorem compact (retains : Retains n held) (save : Bool) (snapshot : Bytes) :
    Retains (n.compact save snapshot).node held := by
  obtain ⟨full, rep⟩ := retains.numbered
  cases n.compact_cases save snapshot with
  | inl same => rw [same]; exact retains
  | inr cut =>
    obtain ⟨above, known, same⟩ := cut
    have rep' := rep.cutAtApplied above known snapshot
    rw [same]
    refine saved ⟨⟨full, rep'⟩, fun entry listed => ?_⟩ save
    by_cases covered : entry.index ≤ n.lastApplied
    · exact Or.inr covered
    · refine Or.inl (rep'.mem_log.mpr ⟨Nat.lt_of_not_le covered, ?_⟩)
      cases retains.present entry listed with
      | inl old => exact (rep.mem_log.mp old).2
      | inr below =>
        have : entry.index ≤ n.lastIncludedIndex := below
        omega

/-- Every operation, whether its `Save` succeeds or fails. -/
theorem perform (retains : Retains n held) (committed : ∀ entry ∈ held, entry.index ≤ n.commitIndex)
    (unmarshal : Bytes → Option MembershipCommand) {op : Operation} (allowed : op.Extends n)
    (save : Bool) : Retains (n.perform unmarshal save op) held := by
  have quiet : op.writes = false → Retains (n.perform unmarshal save op) held := by
    intro silent
    obtain ⟨log, included, includedTerm⟩ := (n.perform_prepared unmarshal save op).log silent
    exact retains.congr log included includedTerm
  cases op with
  | appendLocal command => exact retains.appendLocal save command allowed
  | compact snapshot => exact retains.compact save snapshot
  | handleAppendEntries req =>
    obtain ⟨log, included, includedTerm, -⟩ := n.follow_log req
    have following := retains.congr log included includedTerm
    simp only [RaftNode.perform]
    rcases n.handleAppendEntries_cases save req with refused | ⟨current, member, ⟨-, ⟨-, left⟩ |
      ⟨-, stays⟩⟩ | ⟨passed, answered⟩⟩
    · rw [refused]
      exact retains
    · rw [left]
      exact following.saved save
    · rw [stays]
      exact following
    · have accepted := retains.accept committed passed
        (allowed (RaftNode.accepts_iff.mpr ⟨current, member, passed⟩))
      rcases answered with ⟨-, answered⟩ | ⟨-, answered⟩
      · rw [answered]
        exact accepted.saved save
      · rw [answered]
        exact accepted
  | _ => exact quiet rfl

end Retains

/-- The log of a node is stored except for the entries whose `Save` failed, and so is what its calls
hold. -/
structure LogStored (f : Fetching) (state : PersistentState) : Prop where
  /-- The node has a numbered log and what is held. -/
  retains : Retains f.node f.held
  /-- The stored log is numbered. -/
  storedNumbered : ∃ full, Represents (newRaftNode f.node.id [] (some state)) full
  /-- This is the stored state. -/
  store : f.node.store = some state
  /-- The log is stored. -/
  log : ∀ entry ∈ f.node.log, entry ∈ state.log ∨ entry ∈ f.unsaved
  /-- Entries that are not are not committed. -/
  unsaved : ∀ entry ∈ f.unsaved, f.node.commitIndex < entry.index
  /-- Entries held are. -/
  committed : ∀ entry ∈ f.held, entry.index ≤ f.node.commitIndex
  /-- The store has them. -/
  stored : ∀ entry ∈ f.held, state.Holds entry

namespace LogStored

variable {f after : Fetching} {state : PersistentState}

/-- Every operation. -/
theorem perform (kept : LogStored f state) {unmarshal : Bytes → Option MembershipCommand}
    {op : Operation} {save : Bool} (allowed : CommitsSaved unmarshal f (.node (.perform op save))) :
    ∃ state', LogStored { f with
      node := f.node.perform unmarshal save op
      unsaved := f.unsavedAfter (f.node.perform unmarshal save op) } state' := by
  have retains := kept.retains.perform kept.committed unmarshal allowed.1 save
  -- either nothing is stored, or everything that is in memory
  have store := f.node.perform_store unmarshal save op
  have prepared := f.node.perform_prepared unmarshal save op
  have own := prepared.own
  have commit := prepared.signals.commit
  have below := allowed.2
  generalize f.node.perform unmarshal save op = node at *
  have committed : ∀ entry ∈ f.held, entry.index ≤ node.commitIndex :=
    fun entry listed => (kept.committed entry listed).trans commit
  rcases store with same | saved
  · refine ⟨state, retains, own ▸ kept.storedNumbered, same.trans kept.store, fun entry listed => ?_,
      below, committed, kept.stored⟩
    show entry ∈ state.log ∨ entry ∈ f.unsavedAfter node
    unfold Fetching.unsavedAfter
    split
    · rename_i inStep
      have equal := Option.some.inj ((same.trans kept.store).symm.trans inStep)
      exact Or.inl (equal ▸ listed)
    · rw [List.mem_filter, decide_eq_true_eq]
      by_cases old : entry ∈ f.node.log
      · exact (kept.log entry old).imp_right fun failed => ⟨listed, Or.inl failed⟩
      · exact Or.inr ⟨listed, Or.inr old⟩
  · obtain ⟨full, rep⟩ := retains.numbered
    exact ⟨node.persistentState, retains, ⟨full, rep.congr rfl rfl rfl⟩, saved, fun _ => Or.inl, below,
      committed, retains.present⟩

/-- Every event. -/
theorem next (kept : LogStored f state) {unmarshal : Bytes → Option MembershipCommand}
    {peers : List NodeId} {event : FetchingEvent} (allowed : CommitsSaved unmarshal f event)
    (stepped : f.next unmarshal peers event = some after) : ∃ state', LogStored after state' := by
  cases event with
  | node event =>
    cases event with
    | perform op save =>
      obtain rfl := Option.some.inj stepped
      exact kept.perform allowed
    | restart =>
      obtain rfl := Option.some.inj stepped
      obtain ⟨full, rep⟩ := kept.storedNumbered
      simp only [kept.store]
      exact ⟨state, ⟨⟨full, rep.congr rfl rfl rfl⟩, by simp⟩, ⟨full, rep.congr rfl rfl rfl⟩, rfl,
        fun _ => Or.inl, by simp, by simp, by simp⟩
  | fetch =>
    obtain ⟨entry, fetched, rfl⟩ := Option.map_eq_some_iff.mp stepped
    obtain ⟨full, rep⟩ := kept.retains.numbered
    obtain ⟨listed, committed⟩ := rep.fetched fetched
    have stored : entry ∈ state.log := (kept.log entry listed).resolve_right fun unsaved => by
      have := kept.unsaved entry unsaved
      omega
    have each : ∀ {P : LogEntry → Prop}, (∀ held ∈ f.held, P held) → P entry →
        ∀ held ∈ f.held ++ [entry], P held := by
      intro P old new held there
      cases List.mem_append.mp there with
      | inl there => exact old held there
      | inr last => rw [List.mem_singleton.mp last]; exact new
    exact ⟨state, ⟨⟨full, rep⟩, each kept.retains.present (Or.inl listed)⟩, kept.storedNumbered,
      kept.store, kept.log, kept.unsaved, each kept.committed committed,
      each kept.stored (Or.inl stored)⟩
  | hand entry =>
    simp only [Fetching.next] at stepped
    split at stepped
    · obtain rfl := Option.some.inj stepped
      have fewer : ∀ held ∈ f.held.erase entry, held ∈ f.held := fun held => List.mem_of_mem_erase
      exact ⟨state, ⟨kept.retains.numbered, fun held there => kept.retains.present held (fewer held there)⟩,
        kept.storedNumbered, kept.store, kept.log, kept.unsaved,
        fun held there => kept.committed held (fewer held there),
        fun held there => kept.stored held (fewer held there)⟩
    · contradiction

end LogStored

/-- In every run in which the commit index stays below the entries whose `Save` has failed, from any
store with a numbered log: every entry an `ApplyCommitted` has fetched and may hand to the state machine
is in the stored state. In each state of it an `AppendLocal`, whether it returns an error or not, leaves
the commit index exactly when it refuses the command or does not complete a majority. -/
theorem applied_is_stored {unmarshal : Bytes → Option MembershipCommand} {id : NodeId}
    {peers : List NodeId} {state : PersistentState}
    (numbered : Represents (newRaftNode id peers (some state)) full) {f : Fetching}
    (run : Reach (Fetching.next unmarshal peers) (CommitsSaved unmarshal)
      { node := newRaftNode id peers (some state) } f) :
    (∀ entry ∈ f.held, ∃ stored, f.node.store = some stored ∧ stored.Holds entry) ∧
    ∀ command save, (f.node.appendLocal unmarshal save command).node.commitIndex =
        f.node.commitIndex ↔
      (f.node.appendLocal unmarshal save command).node.log = f.node.log ∨
        ¬ (f.node.appendLocal unmarshal save command).node.MajorityAbove f.node.commitIndex := by
  have start : LogStored { node := newRaftNode id peers (some state) } state :=
    ⟨⟨⟨full, numbered⟩, by simp⟩, ⟨full, numbered.congr rfl rfl rfl⟩, rfl, fun _ => Or.inl, by simp,
      by simp, by simp⟩
  obtain ⟨stored, kept⟩ : ∃ stored, LogStored f stored :=
    run.invariant (P := fun f => ∃ stored, LogStored f stored) ⟨state, start⟩
      fun _ _ _ kept allowed stepped => kept.elim fun _ kept => kept.next allowed stepped
  exact ⟨fun entry listed => ⟨stored, kept.store, kept.stored entry listed⟩, fun command save =>
    f.node.appendLocal_commitIndex unmarshal save command⟩

/-- The leader of three appends an entry whose `Save` fails and another whose `Save` succeeds, a peer
acknowledges both, and the first is fetched. -/
theorem applied_is_stored_third : ∃ (f : Fetching) (stored : PersistentState),
    Reach (Fetching.next plainCommands ["B", "C"]) (CommitsSaved plainCommands)
      { node := newRaftNode "A" ["B", "C"] (some {}) } f ∧
      f.held = [⟨1, 1, [88]⟩] ∧ f.node.store = some stored ∧ stored.Holds ⟨1, 1, [88]⟩ := by
  have passed : (Transition.exec (Fetching.next plainCommands ["B", "C"]) (CommitsSaved plainCommands)
      { node := newRaftNode "A" ["B", "C"] (some {}) }
      [.node (.perform .becomeCandidate true), .node (.perform .becomeLeader false),
        .node (.perform (.appendLocal [88]) false), .node (.perform (.appendLocal [89]) true),
        .node (.perform (.recordReplicationSuccess "B" 2) true), .fetch]).any (fun f =>
          decide (f.held = [⟨1, 1, [88]⟩])) = true := by
    decide +kernel
  obtain ⟨f, run, test⟩ := Reach.of_exec_test passed
  have held := of_decide_eq_true test
  have empty : Represents (newRaftNode "A" ["B", "C"] (some {})) [] :=
    ⟨le_refl _, rfl, by simp [Indexed], rfl, by decide⟩
  obtain ⟨stored, there, holds⟩ := (applied_is_stored empty run).1 ⟨1, 1, [88]⟩ (by simp [held])
  exact ⟨f, stored, run, held, there, holds⟩

/-- A single member's `AppendLocal` whose `Save` fails returns the error, has moved the commit index,
and `ApplyCommitted` fetches the entry though nothing of it is stored. -/
theorem unsaved_append_applied : ∃ f g : Fetching,
    Reach (Fetching.next plainCommands []) (fun _ _ => True)
        { node := newRaftNode "A" [] (some {}) } f ∧
      (f.node.appendLocal plainCommands false [88]).err = some .save ∧ f.node.commitIndex = 0 ∧
      (f.node.appendLocal plainCommands false [88]).node.commitIndex = 1 ∧
      Reach (Fetching.next plainCommands []) (fun _ _ => True) f g ∧
      g.held = [⟨1, 1, [88]⟩] ∧ g.node.store = f.node.store ∧
      g.node.store.any (fun stored => decide (stored.Holds ⟨1, 1, [88]⟩)) = false := by
  have passed : (Transition.exec (Fetching.next plainCommands []) (fun _ _ => True)
      { node := newRaftNode "A" [] (some {}) }
      [.node (.perform .becomeCandidate true), .node (.perform (.promoteCandidate 1) true)]).any
        (fun f => decide ((f.node.appendLocal plainCommands false [88]).err = some .save ∧
          f.node.commitIndex = 0 ∧
          (f.node.appendLocal plainCommands false [88]).node.commitIndex = 1) &&
          (Transition.exec (Fetching.next plainCommands []) (fun _ _ => True) f
            [.node (.perform (.appendLocal [88]) false), .fetch]).any (fun g =>
              decide (g.held = [⟨1, 1, [88]⟩] ∧ g.node.store = f.node.store ∧
                g.node.store.any (fun stored => decide (stored.Holds ⟨1, 1, [88]⟩)) = false))) =
      true := by
    decide +kernel
  obtain ⟨f, run, test⟩ := Reach.of_exec_test passed
  obtain ⟨failed, fetched⟩ := (Bool.and_eq_true ..).mp test
  obtain ⟨g, later, held⟩ := Reach.of_exec_test fetched
  obtain ⟨err, before, after⟩ := of_decide_eq_true failed
  exact ⟨f, g, run, err, before, after, later, of_decide_eq_true held⟩

end

end Raft

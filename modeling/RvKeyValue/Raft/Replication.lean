import RvKeyValue.Raft.Election

/-!
# Log sections

The sections of `raft/node.go` that change the log: appending locally, accepting a leader's
entries, applying and compacting. `unmarshal` is the JSON reader of membership commands.
-/

namespace Raft

/-- `normalizeEntries` — renumber entries from an index on. -/
def normalizeEntries (startIndex : Nat) : List LogEntry → List LogEntry
  | [] => []
  | entry :: rest =>
    { entry with index := startIndex } :: normalizeEntries (Word.add startIndex 1) rest

namespace RaftNode

/-- The loop of `appendEntriesToLogLocked`, at the index of the first remaining entry: the new
log and whether it changed. -/
def appendLoop (n : RaftNode) (index : Nat) : List LogEntry → List LogEntry × Bool
  | [] => (n.log, false)
  | entry :: rest =>
    if index ≤ n.lastIncludedIndex then n.appendLoop (Word.add index 1) rest
    else if n.containsLogIndexLocked index then
      if (n.entryAtLocked index).term ≠ entry.term then
        (n.log.take (index - n.firstLogIndexLocked) ++ normalizeEntries index (entry :: rest), true)
      else n.appendLoop (Word.add index 1) rest
    else (n.log ++ normalizeEntries index (entry :: rest), true)

/-- `appendEntriesToLogLocked` — the record with the new log and whether the log changed. -/
def appendEntriesToLogLocked (n : RaftNode) (prevLogIndex prevLogTerm : Nat)
    (entries : List LogEntry) : Except RaftError (RaftNode × Bool) :=
  if 0 < prevLogIndex ∧ n.logTermAtLocked prevLogIndex ≠ prevLogTerm then
    .error (.logInconsistent prevLogIndex prevLogTerm)
  else
    let appended := n.appendLoop (Word.add prevLogIndex 1) entries
    .ok ({ n with log := appended.1 }, appended.2)

/-- The commit rule of `HandleAppendEntries`. -/
def followCommit (n : RaftNode) (leaderCommit : Nat) : RaftNode :=
  if n.commitIndex < leaderCommit ∧ n.commitIndex < min leaderCommit n.lastLogIndexLocked then
    { n with commitIndex := min leaderCommit n.lastLogIndexLocked, commitReady := true }
  else n

/-- What `HandleAppendEntries` does before it looks at the log: adopt a later term, drop leader
progress and follow the sender. -/
def follow (n : RaftNode) (req : AppendEntriesRequest) : RaftNode :=
  let seen := if n.currentTerm < req.term then n.adoptTerm req.term else n
  let left := if seen.state ≠ .follower then { seen with nextIndex := none, matchIndex := none }
    else seen
  { left with state := .follower, leaderID := req.leaderID }

/-- `HandleAppendEntries`. -/
def handleAppendEntries (n : RaftNode) (save : Bool) (req : AppendEntriesRequest) :
    Outcome AppendEntriesResponse :=
  if req.term < n.currentTerm then ⟨n, ⟨n.currentTerm, false⟩, none⟩
  else if n.isMemberLocked req.leaderID = false then ⟨n, ⟨n.currentTerm, false⟩, none⟩
  else
    let newer := decide (n.currentTerm < req.term)
    let following := n.follow req
    match following.appendEntriesToLogLocked req.prevLogIndex req.prevLogTerm req.entries with
    | .error _ =>
      if newer then following.persisting save ⟨following.currentTerm, false⟩
      else ⟨following, ⟨following.currentTerm, false⟩, none⟩
    | .ok (appended, logChanged) =>
      let committed := appended.followCommit req.leaderCommit
      if newer || logChanged then committed.persisting save ⟨committed.currentTerm, true⟩
      else ⟨committed, ⟨committed.currentTerm, true⟩, none⟩

/-- The record after `HandleAppendEntries` accepted a request. -/
def accept (n : RaftNode) (req : AppendEntriesRequest) : RaftNode :=
  { n.follow req with
    log := ((n.follow req).appendLoop (Word.add req.prevLogIndex 1) req.entries).1
    }.followCommit req.leaderCommit

/-- Whether an accepted request makes `HandleAppendEntries` save. -/
def mustSave (n : RaftNode) (req : AppendEntriesRequest) : Bool :=
  decide (n.currentTerm < req.term) ||
    ((n.follow req).appendLoop (Word.add req.prevLogIndex 1) req.entries).2

/-- The log check of `HandleAppendEntries` fails. -/
def Mismatch (n : RaftNode) (req : AppendEntriesRequest) : Prop :=
  0 < req.prevLogIndex ∧ (n.follow req).logTermAtLocked req.prevLogIndex ≠ req.prevLogTerm

instance (n : RaftNode) (req : AppendEntriesRequest) : Decidable (n.Mismatch req) := by
  unfold Mismatch
  infer_instance

/-- Whether `HandleAppendEntries` accepts a request. -/
def accepts (n : RaftNode) (req : AppendEntriesRequest) : Bool :=
  decide (n.currentTerm ≤ req.term) && n.isMemberLocked req.leaderID && !decide (n.Mismatch req)

/-- A request is accepted if its term is current, its sender a member and its previous entry here. -/
theorem accepts_iff {n : RaftNode} {req : AppendEntriesRequest} : n.accepts req = true ↔
    n.currentTerm ≤ req.term ∧ n.isMemberLocked req.leaderID = true ∧ ¬ n.Mismatch req := by
  simp [accepts, and_assoc]

/-- What `HandleAppendEntries` does: refuse as it is; follow the sender and refuse; or accept. It
saves when the term is new or the log changed. -/
theorem handleAppendEntries_cases (n : RaftNode) (save : Bool) (req : AppendEntriesRequest) :
    n.handleAppendEntries save req = ⟨n, ⟨n.currentTerm, false⟩, none⟩ ∨
    n.currentTerm ≤ req.term ∧ n.isMemberLocked req.leaderID = true ∧
      (n.Mismatch req ∧
          (n.currentTerm < req.term ∧ n.handleAppendEntries save req =
              (n.follow req).persisting save ⟨(n.follow req).currentTerm, false⟩ ∨
            ¬ n.currentTerm < req.term ∧ n.handleAppendEntries save req =
              ⟨n.follow req, ⟨(n.follow req).currentTerm, false⟩, none⟩) ∨
        ¬ n.Mismatch req ∧
          (n.mustSave req = true ∧ n.handleAppendEntries save req =
              (n.accept req).persisting save ⟨(n.accept req).currentTerm, true⟩ ∨
            n.mustSave req = false ∧ n.handleAppendEntries save req =
              ⟨n.accept req, ⟨(n.accept req).currentTerm, true⟩, none⟩)) := by
  unfold handleAppendEntries
  by_cases stale : req.term < n.currentTerm
  · rw [if_pos stale]
    exact Or.inl rfl
  rw [if_neg stale]
  by_cases stranger : n.isMemberLocked req.leaderID = false
  · rw [if_pos stranger]
    exact Or.inl rfl
  rw [if_neg stranger]
  refine Or.inr ⟨Nat.le_of_not_lt stale, by simpa using stranger, ?_⟩
  simp only [appendEntriesToLogLocked]
  by_cases mismatch : n.Mismatch req
  · refine Or.inl ⟨mismatch, ?_⟩
    unfold Mismatch at mismatch
    rw [if_pos mismatch]
    by_cases newer : n.currentTerm < req.term
    · exact Or.inl ⟨newer, by simp only [newer, decide_true, if_true]⟩
    · exact Or.inr ⟨newer, by simp only [newer, decide_false, Bool.false_eq_true, if_false]⟩
  · refine Or.inr ⟨mismatch, ?_⟩
    unfold Mismatch at mismatch
    rw [if_neg mismatch]
    cases changed : n.mustSave req with
    | true => exact Or.inl ⟨rfl, if_pos changed⟩
    | false => exact Or.inr ⟨rfl, if_neg (by rw [Bool.not_eq_true]; exact changed)⟩

section Membership

variable (unmarshal : Bytes → Option MembershipCommand)

/-- `hasPendingMembershipChangeLocked`. -/
def hasPendingMembershipChangeLocked (n : RaftNode) : Bool :=
  n.log.any fun entry => decide (n.lastApplied < entry.index) &&
    (decodeMembershipChange unmarshal entry.command).isSome

/-- The part of `AppendLocal` after its membership checks. -/
def appendCommand (n : RaftNode) (save : Bool) (command : Bytes) : Outcome LogEntry :=
  let entry : LogEntry := ⟨n.currentTerm, Word.add n.lastLogIndexLocked 1, command⟩
  let appended := { n with log := n.log ++ [entry] }
  let advanced := if n.state = .leader then appended.advanceCommitLocked else appended
  advanced.persisting save entry

/-- `AppendLocal` — append a command in the current term, whatever the node's role. -/
def appendLocal (n : RaftNode) (save : Bool) (command : Bytes) : Outcome LogEntry :=
  match decodeMembershipChange unmarshal command with
  | some (.error err) => ⟨n, default, some err⟩
  | some (.ok _) =>
    if n.hasPendingMembershipChangeLocked unmarshal then
      ⟨n, default, some .membershipChangePending⟩
    else n.appendCommand save command
  | none => n.appendCommand save command

/-- `AppendLocal` refuses a membership command or appends. -/
theorem appendLocal_cases (n : RaftNode) (save : Bool) (command : Bytes) :
    (∃ err, n.appendLocal unmarshal save command = ⟨n, default, some err⟩) ∨
      n.appendLocal unmarshal save command = n.appendCommand save command := by
  unfold appendLocal
  split
  · exact Or.inl ⟨_, rfl⟩
  · split
    · exact Or.inl ⟨_, rfl⟩
    · exact Or.inr rfl
  · exact Or.inr rfl

end Membership

/-- `applyMembershipChangeLocked`. -/
def applyMembershipChangeLocked (n : RaftNode) (change : MembershipChange) :
    RaftNode × Option RaftError :=
  let configured := { n with membershipConfigured := true }
  match change.type with
  | .addPeer =>
    if change.peerID = n.id then ({ configured with selfMember := true }.advanceCommitLocked, none)
    else if containsPeer n.peers change.peerID then (configured.advanceCommitLocked, none)
    else
      let added := { configured with peers := n.peers ++ [change.peerID] }
      let tracked :=
        if n.state = .leader ∧ n.nextIndex.isSome ∧ n.matchIndex.isSome then
          { added with
            nextIndex := n.nextIndex.map fun progress =>
              Function.update progress change.peerID (some (Word.add n.lastLogIndexLocked 1))
            matchIndex := n.matchIndex.map fun progress =>
              Function.update progress change.peerID (some 0) }
        else added
      (tracked.advanceCommitLocked, none)
  | .removePeer =>
    if change.peerID = n.id then
      ({ configured with
        selfMember := false
        state := .follower
        leaderID := ""
        votedFor := ""
        nextIndex := none
        matchIndex := none }.advanceCommitLocked, none)
    else
      ({ configured with
        peers := removePeer n.peers change.peerID
        nextIndex := n.nextIndex.map fun progress => Function.update progress change.peerID none
        matchIndex := n.matchIndex.map fun progress => Function.update progress change.peerID none
        }.advanceCommitLocked, none)
  | .unsupported text =>
    (configured, some (.membership ("unsupported membership change " ++ text.quote)))

/-- `nextCommittedEntry`. -/
def nextCommittedEntry (n : RaftNode) : Option LogEntry :=
  let next := Word.add n.lastApplied 1
  if n.commitIndex < next ∨ n.containsLogIndexLocked next = false then none
  else some (n.entryAtLocked next)

/-- `markApplied`. -/
def markApplied (n : RaftNode) (index : Nat) : RaftNode :=
  if n.lastApplied < index then { n with lastApplied := index } else n

/-- `markApplied` changes only the applied index, and never lowers it. -/
theorem markApplied_eq (n : RaftNode) (index : Nat) :
    n.markApplied index = { n with lastApplied := max n.lastApplied index } := by
  unfold markApplied
  split
  · rename_i above
    rw [Nat.max_eq_right above.le]
  · rename_i below
    rw [Nat.max_eq_left (Nat.le_of_not_lt below)]

/-- `applyCommittedMembershipChange`. -/
def applyCommittedMembershipChange (n : RaftNode) (save : Bool) (change : MembershipChange)
    (index : Nat) : Outcome Unit :=
  match n.applyMembershipChangeLocked change with
  | (changed, some err) => ⟨changed, (), some err⟩
  | (changed, none) => (changed.markApplied index).persisting save ()

/-- `ShouldSnapshot`. -/
def shouldSnapshot (n : RaftNode) (threshold : Nat) : Bool :=
  decide (0 < threshold) && decide (Word.add n.lastIncludedIndex threshold ≤ n.lastApplied)

/-- The log `Compact` retains when it cuts at an index. -/
def retainedAfter (n : RaftNode) (index : Nat) : List LogEntry :=
  if index < n.firstLogIndexLocked then []
  else if n.lastLogIndexLocked ≤ index then []
  else n.log.drop (index - n.firstLogIndexLocked + 1)

/-- The record `Compact` saves. -/
def cutAtApplied (n : RaftNode) (snapshot : Bytes) : RaftNode :=
  { n with
    log := n.retainedAfter n.lastApplied
    lastIncludedIndex := n.lastApplied
    lastIncludedTerm := n.logTermAtLocked n.lastApplied
    snapshot }

/-- `Compact` — replace everything applied by a snapshot. -/
def compact (n : RaftNode) (save : Bool) (snapshot : Bytes) : Outcome Unit :=
  if n.lastApplied ≤ n.lastIncludedIndex then ⟨n, (), none⟩
  else if n.logTermAtLocked n.lastApplied = 0 then
    ⟨n, (), some (.logInconsistent n.lastApplied 0)⟩
  else (n.cutAtApplied snapshot).persisting save ()

/-- What `Compact` does: nothing, or cut the log at a present applied index and save. -/
theorem compact_cases (n : RaftNode) (save : Bool) (snapshot : Bytes) :
    (n.compact save snapshot).node = n ∨
      n.lastIncludedIndex < n.lastApplied ∧ 0 < n.logTermAtLocked n.lastApplied ∧
        n.compact save snapshot = (n.cutAtApplied snapshot).persisting save () := by
  unfold compact
  split
  · exact Or.inl rfl
  · rename_i above
    split
    · exact Or.inl rfl
    · rename_i known
      exact Or.inr ⟨Nat.lt_of_not_le above, Nat.pos_of_ne_zero known, rfl⟩

/-- `Compact` cuts at the applied index or changes no index. -/
theorem compact_indices (n : RaftNode) (save : Bool) (snapshot : Bytes) :
    (n.compact save snapshot).node.currentTerm = n.currentTerm ∧
      (n.compact save snapshot).node.commitIndex = n.commitIndex ∧
      (n.compact save snapshot).node.lastApplied = n.lastApplied ∧
      ((n.compact save snapshot).node.lastIncludedIndex = n.lastIncludedIndex ∨
        (n.compact save snapshot).node.lastIncludedIndex = n.lastApplied) := by
  cases n.compact_cases save snapshot with
  | inl same =>
    rw [same]
    exact ⟨rfl, rfl, rfl, Or.inl rfl⟩
  | inr cut =>
    rw [show (n.compact save snapshot).node = ((n.cutAtApplied snapshot).persistLocked save).1 by
      rw [cut.2.2]; rfl]
    cases (n.cutAtApplied snapshot).persistLocked_cases save with
    | inl same => rw [same]; exact ⟨rfl, rfl, rfl, Or.inr rfl⟩
    | inr stored => rw [stored]; exact ⟨rfl, rfl, rfl, Or.inr rfl⟩

/-- Following a leader keeps the log and the snapshot. -/
theorem follow_log (n : RaftNode) (req : AppendEntriesRequest) :
    (n.follow req).log = n.log ∧ (n.follow req).lastIncludedIndex = n.lastIncludedIndex ∧
      (n.follow req).lastIncludedTerm = n.lastIncludedTerm ∧
      (n.follow req).snapshot = n.snapshot ∧ (n.follow req).store = n.store ∧
      (n.follow req).state = .follower ∧ (n.follow req).lastApplied = n.lastApplied ∧
      (n.follow req).commitIndex = n.commitIndex := by
  by_cases later : n.currentTerm < req.term
  · simp only [follow, if_pos later]
    split <;> exact ⟨rfl, rfl, rfl, rfl, rfl, trivial, rfl, rfl⟩
  · simp only [follow, if_neg later]
    split <;> exact ⟨rfl, rfl, rfl, rfl, rfl, trivial, rfl, rfl⟩

/-- Following a leader keeps the own id. -/
theorem follow_id (n : RaftNode) (req : AppendEntriesRequest) : (n.follow req).id = n.id := by
  by_cases later : n.currentTerm < req.term
  · simp only [follow, if_pos later]
    split <;> rfl
  · simp only [follow, if_neg later]
    split <;> rfl

/-- Following a leader of no earlier term enters its term. -/
theorem follow_term {n : RaftNode} {req : AppendEntriesRequest} (current : n.currentTerm ≤ req.term) :
    (n.follow req).currentTerm = req.term := by
  by_cases later : n.currentTerm < req.term
  · simp only [follow, if_pos later]
    split <;> rfl
  · simp only [follow, if_neg later]
    split <;> exact Nat.le_antisymm current (Nat.le_of_not_lt later)

/-- The commit rule of a follower raises the commit index at most, and sets the signal then. -/
theorem followCommit_cases (n : RaftNode) (leaderCommit : Nat) :
    n.followCommit leaderCommit = n ∨ ∃ index, n.commitIndex < index ∧
      index ≤ n.lastLogIndexLocked ∧
      n.followCommit leaderCommit = { n with commitIndex := index, commitReady := true } := by
  unfold followCommit
  split
  · rename_i raised
    exact Or.inr ⟨_, raised.2, Nat.min_le_right _ _, rfl⟩
  · exact Or.inl rfl

/-- Accepting a request follows its sender and leaves snapshot and store alone. -/
theorem accept_fields (n : RaftNode) (req : AppendEntriesRequest) :
    (n.accept req).currentTerm = (n.follow req).currentTerm ∧
      (n.accept req).lastIncludedIndex = n.lastIncludedIndex ∧ (n.accept req).store = n.store ∧
      (n.accept req).state = .follower := by
  obtain ⟨-, included, -, -, store, role, -⟩ := n.follow_log req
  unfold accept
  cases RaftNode.followCommit_cases { n.follow req with
      log := ((n.follow req).appendLoop (Word.add req.prevLogIndex 1) req.entries).1 }
      req.leaderCommit with
  | inl same =>
    rw [same]
    exact ⟨rfl, included, store, role⟩
  | inr raised =>
    obtain ⟨index, -, -, same⟩ := raised
    rw [same]
    exact ⟨rfl, included, store, role⟩

/-- Accepting a request applies nothing and commits no more than the new log. -/
theorem accept_commit (n : RaftNode) (req : AppendEntriesRequest) :
    (n.accept req).lastApplied = n.lastApplied ∧ (n.accept req).snapshot = n.snapshot ∧
      n.commitIndex ≤ (n.accept req).commitIndex ∧
      ((n.accept req).commitIndex ≤ n.commitIndex ∨
        (n.accept req).commitIndex ≤ (n.accept req).lastLogIndexLocked) := by
  obtain ⟨-, -, -, snapshot, -, -, applied, commit⟩ := n.follow_log req
  unfold accept
  cases RaftNode.followCommit_cases { n.follow req with
      log := ((n.follow req).appendLoop (Word.add req.prevLogIndex 1) req.entries).1 }
      req.leaderCommit with
  | inl same =>
    rw [same]
    exact ⟨applied, snapshot, commit.ge, Or.inl commit.le⟩
  | inr raised =>
    obtain ⟨index, above, within, same⟩ := raised
    rw [same]
    exact ⟨applied, snapshot, le_trans commit.ge above.le, Or.inr within⟩

end RaftNode

end Raft

import RvKeyValue.Cluster.System
import RvKeyValue.Raft.Requests

/-!
# Numbered logs in every run

Whatever the schedule, the membership changes and the failed saves, a process keeps its whole
log numbered from one without a gap, in memory and on disk, and sends only requests that keep
it so at their receiver. The only condition is that no counter wraps.
-/

namespace Raft

/-- What of a record most sections leave alone. -/
structure LogCore where
  /-- Own id. -/
  own : NodeId
  /-- Retained log. -/
  log : List LogEntry
  /-- Snapshot index. -/
  included : Nat
  /-- Snapshot term. -/
  includedTerm : Nat
  /-- Snapshot bytes. -/
  snapshot : Bytes
  /-- Store. -/
  store : Option PersistentState
  /-- Applied index. -/
  applied : Nat

/-- The log, the snapshot, the store and the applied index of a record. -/
def RaftNode.logCore (n : RaftNode) : LogCore :=
  ⟨n.id, n.log, n.lastIncludedIndex, n.lastIncludedTerm, n.snapshot, n.store, n.lastApplied⟩

/-- A section left the log alone, and neither the term nor the commit index fell. -/
structure Keeps (n m : RaftNode) : Prop where
  /-- Log, snapshot, store and applied index stay. -/
  core : m.logCore = n.logCore
  /-- The term does not fall. -/
  term : n.currentTerm ≤ m.currentTerm
  /-- The commit index does not fall. -/
  commit : n.commitIndex ≤ m.commitIndex
  /-- It does not rise above the log. -/
  commitLe : m.commitIndex ≤ n.commitIndex ∨ m.commitIndex ≤ n.lastLogIndexLocked
  /-- Only a node in a positive term newly leaves the follower's role. -/
  seated : m.state ≠ .follower → n.state ≠ .follower ∨ 0 < m.currentTerm

namespace Keeps

variable {n m : RaftNode} (kept : Keeps n m)
include kept

/-- Own id. -/
theorem own : m.id = n.id := congrArg LogCore.own kept.core

/-- Retained log. -/
theorem log : m.log = n.log := congrArg LogCore.log kept.core

/-- Snapshot index. -/
theorem included : m.lastIncludedIndex = n.lastIncludedIndex := congrArg LogCore.included kept.core

/-- Snapshot term. -/
theorem includedTerm : m.lastIncludedTerm = n.lastIncludedTerm :=
  congrArg LogCore.includedTerm kept.core

/-- Store. -/
theorem store : m.store = n.store := congrArg LogCore.store kept.core

/-- Applied index. -/
theorem applied : m.lastApplied = n.lastApplied := congrArg LogCore.applied kept.core

/-- Last index. -/
theorem lastLogIndex : m.lastLogIndexLocked = n.lastLogIndexLocked := by
  unfold RaftNode.lastLogIndexLocked
  rw [kept.log, kept.included]

end Keeps

/-- A section kept the log and possibly saved. -/
def KeepsSaved (n n' : RaftNode) : Prop :=
  ∃ m, Keeps n m ∧ (n' = m ∨ n' = { m with store := some m.persistentState })

section Keeping

variable {n m m' : RaftNode}

/-- Nothing changed. -/
theorem Keeps.refl (n : RaftNode) : Keeps n n :=
  ⟨rfl, le_refl _, le_refl _, Or.inl (le_refl _), Or.inl⟩

/-- Two sections. -/
theorem Keeps.trans (first : Keeps n m) (second : Keeps m m') : Keeps n m' where
  core := second.core.trans first.core
  term := le_trans first.term second.term
  commit := le_trans first.commit second.commit
  commitLe := by
    have last := first.lastLogIndex
    have below := first.commitLe
    have above := second.commitLe
    omega
  seated active := by
    cases second.seated active with
    | inr positive => exact Or.inr positive
    | inl before =>
      refine (first.seated before).imp_right fun positive => ?_
      exact lt_of_lt_of_le positive second.term

/-- A section that does not save. -/
theorem Keeps.unsaved (kept : Keeps n m) : KeepsSaved n m := ⟨m, kept, Or.inl rfl⟩

/-- A section that ends with a save, which may fail. -/
theorem Keeps.saved (kept : Keeps n m) (save : Bool) : KeepsSaved n (m.persistLocked save).1 := by
  refine ⟨m, kept, ?_⟩
  unfold RaftNode.persistLocked
  cases m.store with
  | none => exact Or.inl rfl
  | some state =>
    cases save with
    | false => exact Or.inl rfl
    | true => exact Or.inr rfl

/-- A kept record has the same applied index and commits no more than its log. -/
theorem KeepsSaved.commit {n n' : RaftNode} (kept : KeepsSaved n n') :
    n'.lastApplied = n.lastApplied ∧ n.commitIndex ≤ n'.commitIndex ∧
      (n'.commitIndex ≤ n.commitIndex ∨ n'.commitIndex ≤ n.lastLogIndexLocked) := by
  obtain ⟨m, keeps, saved⟩ := kept
  cases saved with
  | inl same => rw [same]; exact ⟨keeps.applied, keeps.commit, keeps.commitLe⟩
  | inr stored => rw [stored]; exact ⟨keeps.applied, keeps.commit, keeps.commitLe⟩

/-- A kept record retains the same log and snapshot, in no earlier term. -/
theorem KeepsSaved.fields {n n' : RaftNode} (kept : KeepsSaved n n') :
    n'.id = n.id ∧ n'.log = n.log ∧ n'.lastIncludedIndex = n.lastIncludedIndex ∧
      n.currentTerm ≤ n'.currentTerm := by
  obtain ⟨m, keeps, saved⟩ := kept
  cases saved with
  | inl same => rw [same]; exact ⟨keeps.own, keeps.log, keeps.included, keeps.term⟩
  | inr stored => rw [stored]; exact ⟨keeps.own, keeps.log, keeps.included, keeps.term⟩

/-- A section that keeps term, role and commit index too. -/
theorem Keeps.same (core : m.logCore = n.logCore) (term : m.currentTerm = n.currentTerm)
    (role : m.state = n.state) (commit : m.commitIndex = n.commitIndex) : Keeps n m :=
  ⟨core, term.ge, commit.ge, Or.inl commit.le, fun active => Or.inl (role ▸ active)⟩

/-- A section that makes the node a follower. -/
theorem Keeps.follower (core : m.logCore = n.logCore) (term : n.currentTerm ≤ m.currentTerm)
    (role : m.state = .follower) (commit : m.commitIndex = n.commitIndex) : Keeps n m :=
  ⟨core, term, commit.ge, Or.inl commit.le, fun active => absurd role active⟩

end Keeping

section Sections

variable (n : RaftNode)

/-- A kept record after the commit rule. -/
theorem Keeps.committed {n m : RaftNode} (kept : Keeps n m) : Keeps n m.advanceCommitLocked := by
  cases m.advanceCommitLocked_cases with
  | inl same => rw [same]; exact kept
  | inr committed =>
    obtain ⟨index, -, above, within, -, -, same⟩ := committed
    rw [same]
    exact kept.trans ⟨rfl, le_refl _, above.le, Or.inr within, Or.inl⟩

/-- A kept record after its leader progress was reset. -/
theorem Keeps.progress {n m : RaftNode} (kept : Keeps n m) : Keeps n m.initLeaderProgressLocked := by
  unfold RaftNode.initLeaderProgressLocked
  apply Keeps.committed
  exact kept.trans (.same rfl rfl rfl rfl)

/-- `BecomeCandidate`. -/
theorem becomeCandidate_keeps (fits : n.currentTerm + 1 < Word.limit) (save : Bool) :
    KeepsSaved n (n.becomeCandidate save).node := by
  have next : Word.add n.currentTerm 1 = n.currentTerm + 1 := Word.add_eq fits
  unfold RaftNode.becomeCandidate
  rw [next]
  refine Keeps.saved ?_ save
  exact ⟨rfl, Nat.le_succ _, le_refl _, Or.inl (le_refl _), fun _ => Or.inr (Nat.succ_pos _)⟩

/-- `stepDownForHigherTerm`. -/
theorem stepDownForHigherTerm_keeps (save : Bool) (term : Nat) :
    KeepsSaved n (n.stepDownForHigherTerm save term).node := by
  unfold RaftNode.stepDownForHigherTerm
  split
  · exact (Keeps.refl n).unsaved
  · rename_i old
    refine Keeps.saved ?_ save
    exact .follower rfl (Nat.le_of_not_le old) rfl rfl

/-- Adopting the term of a vote request. -/
theorem seeTerm_keeps (term : Nat) : Keeps n (n.seeTerm term) := by
  unfold RaftNode.seeTerm
  split
  · rename_i later
    exact .follower rfl later.le rfl rfl
  · exact .refl n

/-- `RequestVote`. -/
theorem requestVote_keeps (save : Bool) (req : RequestVoteRequest) :
    KeepsSaved n (n.requestVote save req).node := by
  cases n.requestVote_cases save req with
  | inl refused => rw [refused]; exact (Keeps.refl n).unsaved
  | inr seen =>
    cases seen.2 with
    | inl granted =>
      rw [granted.2.2]
      refine Keeps.saved ((seeTerm_keeps n req.term).trans ?_) save
      exact .same rfl rfl rfl rfl
    | inr adopted => rw [adopted.2]; exact (seeTerm_keeps n req.term).saved save

/-- `promoteCandidate`. -/
theorem promoteCandidate_keeps (save : Bool) (term : Nat) :
    KeepsSaved n (n.promoteCandidate save term).node := by
  unfold RaftNode.promoteCandidate
  split
  · exact (Keeps.refl n).unsaved
  · rename_i eligible
    rw [not_or, not_not] at eligible
    refine Keeps.saved (Keeps.progress ?_) save
    exact ⟨rfl, le_refl _, le_refl _, Or.inl (le_refl _), fun _ => Or.inl (by rw [eligible.1]; simp)⟩

/-- `ensureLeaderProgress`. -/
theorem ensureLeaderProgress_keeps : Keeps n n.ensureLeaderProgress := by
  unfold RaftNode.ensureLeaderProgress
  split
  · exact .refl n
  split
  · exact .refl n
  · exact (Keeps.refl n).progress

/-- `RecordReplicationSuccess`. -/
theorem recordReplicationSuccess_keeps (peer : NodeId) (matchIndex : Nat) :
    Keeps n (n.recordReplicationSuccess peer matchIndex).1 := by
  unfold RaftNode.recordReplicationSuccess
  split
  · exact .refl n
  · apply Keeps.committed
    exact .same rfl rfl rfl rfl

/-- `RecordReplicationFailure`. -/
theorem recordReplicationFailure_keeps (peer : NodeId) :
    Keeps n (n.recordReplicationFailure peer).1 := by
  unfold RaftNode.recordReplicationFailure
  split
  · exact .refl n
  split
  · exact .refl n
  split
  · exact .refl n
  · exact .same rfl rfl rfl rfl

/-- `markApplied` after a section that keeps the log. -/
theorem Keeps.marked {n m : RaftNode} (kept : Keeps n m) (index : Nat) :
    Keeps (n.markApplied index) (m.markApplied index) := by
  rw [n.markApplied_eq, m.markApplied_eq, kept.applied]
  refine ⟨?_, kept.term, kept.commit, kept.commitLe, kept.seated⟩
  exact congrArg (fun core => { core with applied := max n.lastApplied index }) kept.core

/-- `applyMembershipChangeLocked`. -/
theorem applyMembershipChangeLocked_keeps (change : MembershipChange) :
    Keeps n (n.applyMembershipChangeLocked change).1 := by
  have configured : Keeps n { n with membershipConfigured := true } :=
    .same rfl rfl rfl rfl
  unfold RaftNode.applyMembershipChangeLocked
  split
  · split
    · apply Keeps.committed
      exact .same rfl rfl rfl rfl
    split
    · exact configured.committed
    · apply Keeps.committed
      split
      · exact .same rfl rfl rfl rfl
      · exact .same rfl rfl rfl rfl
  · split
    · dsimp only
      apply Keeps.committed
      exact .follower rfl (le_refl _) rfl rfl
    · apply Keeps.committed
      exact .same rfl rfl rfl rfl
  · exact configured

/-- `applyCommittedMembershipChange` marks the entry when the change is applied. -/
theorem applyCommittedMembershipChange_keeps (save : Bool) (change : MembershipChange)
    (index : Nat) :
    KeepsSaved (if (n.applyMembershipChangeLocked change).2.isSome then n else n.markApplied index)
      (n.applyCommittedMembershipChange save change index).node := by
  have applied := applyMembershipChangeLocked_keeps n change
  unfold RaftNode.applyCommittedMembershipChange
  generalize n.applyMembershipChangeLocked change = result at applied
  obtain ⟨changed, err⟩ := result
  cases err with
  | some err => exact applied.unsaved
  | none => exact (applied.marked index).saved save

/-- Following a leader. -/
theorem follow_keeps {req : AppendEntriesRequest} (current : n.currentTerm ≤ req.term) :
    Keeps n (n.follow req) := by
  obtain ⟨log, included, includedTerm, snapshot, store, role, applied, commit⟩ := n.follow_log req
  refine .follower ?_ ?_ role commit
  · unfold RaftNode.logCore
    rw [n.follow_id req, log, included, includedTerm, snapshot, store, applied]
  · rw [RaftNode.follow_term current]
    exact current

end Sections

/-- What is stored is the end of a whole log that starts with what was compacted. -/
structure DiskAligned (compacted : List LogEntry) (state : PersistentState) : Prop where
  /-- The stored snapshot covers only compacted entries. -/
  covered : state.lastIncludedIndex ≤ compacted.length
  /-- A restart retains the end of a whole log. -/
  represents : Represents (newRaftNode "" [] (some state))
    (compacted.take state.lastIncludedIndex ++ state.log)
  /-- Stored terms are positive. -/
  positive : PositiveTerms state.log

/-- More compacted entries do not matter to what is stored. -/
theorem DiskAligned.grow {compacted more : List LogEntry} {state : PersistentState}
    (disk : DiskAligned compacted state) (longer : compacted <+: more) :
    DiskAligned more state := by
  have same : more.take state.lastIncludedIndex = compacted.take state.lastIncludedIndex := by
    obtain ⟨rest, rfl⟩ := longer
    exact List.take_append_of_le_length disk.covered
  refine ⟨le_trans disk.covered longer.length_le, ?_, disk.positive⟩
  rw [same]
  exact disk.represents

/-- A process whose log is numbered without a gap, in memory and on disk. -/
structure Aligned (sv : Server) : Prop where
  /-- The record retains the end of the whole log. -/
  represents : Represents sv.node sv.full
  /-- The rest was compacted. -/
  side : sv.compacted.length = sv.node.lastIncludedIndex
  /-- Terms are positive. -/
  positive : PositiveTerms sv.full
  /-- So it is on disk. -/
  disk : ∀ state, sv.node.store = some state → DiskAligned sv.compacted state
  /-- A candidate or leader is in a positive term. -/
  seated : sv.node.state ≠ .follower → 0 < sv.node.currentTerm

/-- A section that applies nothing, keeps the snapshot and commits no more than the log. -/
structure Commits (sv after : Server) : Prop where
  /-- The applied index stays. -/
  applied : after.node.lastApplied = sv.node.lastApplied
  /-- The commit index does not fall. -/
  commit : sv.node.commitIndex ≤ after.node.commitIndex
  /-- It rises no higher than the log. -/
  commitLe : after.node.commitIndex ≤ sv.node.commitIndex ∨ after.node.commitIndex ≤ after.full.length
  /-- The snapshot index stays. -/
  included : after.node.lastIncludedIndex = sv.node.lastIncludedIndex

/-- Two sections. -/
theorem Commits.trans {sv after later : Server} (first : Commits sv after)
    (second : Commits after later) (longer : after.full.length ≤ later.full.length) :
    Commits sv later := by
  have above := first.commitLe
  have below := second.commitLe
  refine ⟨second.applied.trans first.applied, le_trans first.commit second.commit, ?_,
    second.included.trans first.included⟩
  omega

namespace Aligned

variable {sv : Server}

/-- What was compacted is the start of the whole log. -/
theorem side_eq (aligned : Aligned sv) :
    sv.compacted = sv.full.take sv.node.lastIncludedIndex := by
  rw [← aligned.side]
  exact (List.take_left).symm

/-- Only what was compacted, the log and the snapshot matter to a save. -/
theorem save (aligned : Aligned sv) :
    Aligned { sv with node := { sv.node with store := some sv.node.persistentState } } where
  represents := aligned.represents.congr rfl rfl rfl
  side := aligned.side
  positive := aligned.positive
  disk state stored := by
    obtain rfl := Option.some.inj stored
    refine ⟨aligned.side.ge, ?_, fun entry listed => aligned.positive entry ?_⟩
    · have whole : sv.compacted.take sv.node.lastIncludedIndex ++ sv.node.log = sv.full := by
        rw [← aligned.side, List.take_length]
        rfl
      show Represents _ (sv.compacted.take sv.node.lastIncludedIndex ++ sv.node.log)
      rw [whole]
      exact aligned.represents.congr rfl rfl rfl
    · exact List.mem_append_right _ listed
  seated := aligned.seated

/-- A section that keeps the log. -/
theorem keep (aligned : Aligned sv) {m : RaftNode} (kept : Keeps sv.node m) :
    Aligned { sv with node := m } := by
  have whole : Server.full { sv with node := m } = sv.full := by
    unfold Server.full
    rw [kept.log]
  refine ⟨?_, aligned.side.trans kept.included.symm, ?_, fun state stored => ?_, fun active => ?_⟩
  · rw [whole]
    exact aligned.represents.congr kept.log kept.included kept.includedTerm
  · rw [whole]
    exact aligned.positive
  · exact aligned.disk state (kept.store.symm.trans stored)
  · cases kept.seated active with
    | inl before => exact lt_of_lt_of_le (aligned.seated before) kept.term
    | inr positive => exact positive

/-- `markApplied`. -/
theorem marked (aligned : Aligned sv) (index : Nat) :
    Aligned { sv with node := sv.node.markApplied index } := by
  rw [sv.node.markApplied_eq]
  exact ⟨aligned.represents.congr rfl rfl rfl, aligned.side, aligned.positive, aligned.disk,
    aligned.seated⟩

/-- A section that keeps the log and possibly saves. -/
theorem keepSaved (aligned : Aligned sv) {n' : RaftNode} (kept : KeepsSaved sv.node n') :
    Aligned { sv with node := n' } := by
  obtain ⟨m, keeps, saved⟩ := kept
  cases saved with
  | inl same => rw [same]; exact aligned.keep keeps
  | inr stored => rw [stored]; exact (aligned.keep keeps).save

/-- A process whose record has a new log above the same snapshot. -/
theorem rewrite (aligned : Aligned sv) {m : RaftNode} {full' : List LogEntry}
    (represents : Represents m full') (positive : PositiveTerms full')
    (included : m.lastIncludedIndex = sv.node.lastIncludedIndex)
    (below : full'.take sv.node.lastIncludedIndex = sv.full.take sv.node.lastIncludedIndex)
    (store : m.store = sv.node.store) (seated : m.state ≠ .follower → 0 < m.currentTerm) :
    Server.full { sv with node := m } = full' ∧ Aligned { sv with node := m } := by
  have whole : Server.full { sv with node := m } = full' := by
    show sv.compacted ++ m.log = full'
    rw [aligned.side_eq, ← below, represents.retained, included, List.take_append_drop]
  refine ⟨whole, ?_, aligned.side.trans included.symm, ?_, fun state stored => ?_, seated⟩
  · rw [whole]
    exact represents
  · rw [whole]
    exact positive
  · exact aligned.disk state (store.symm.trans stored)

/-- A section may end with a save. -/
theorem persist (aligned : Aligned sv) (save : Bool) :
    Aligned { sv with node := (sv.node.persistLocked save).1 } :=
  aligned.keepSaved ((Keeps.refl sv.node).saved save)

/-- A section that keeps the log. -/
theorem commits (aligned : Aligned sv) {n' : RaftNode} (kept : KeepsSaved sv.node n') :
    Commits sv { sv with node := n' } := by
  obtain ⟨-, log, included, -⟩ := kept.fields
  obtain ⟨applied, commit, commitLe⟩ := kept.commit
  refine ⟨applied, commit, commitLe.imp_right fun within => ?_, included⟩
  rw [aligned.represents.lastLogIndex] at within
  show n'.commitIndex ≤ (sv.compacted ++ n'.log).length
  rw [log]
  exact within

/-- `AppendLocal` after its checks extends the whole log by the entry it returns. -/
theorem appendCommand (aligned : Aligned sv) (positive : 0 < sv.node.currentTerm)
    (room : sv.node.lastLogIndexLocked + 2 < Word.limit) (save : Bool) (command : Bytes) :
    Aligned { sv with node := (sv.node.appendCommand save command).node } ∧
      Server.full { sv with node := (sv.node.appendCommand save command).node } =
        sv.full ++ [(sv.node.appendCommand save command).value] ∧
      (sv.node.appendCommand save command).value.index = sv.full.length + 1 ∧
      sv.node.currentTerm ≤ (sv.node.appendCommand save command).node.currentTerm ∧
      Commits sv { sv with node := (sv.node.appendCommand save command).node } := by
  rw [aligned.represents.lastLogIndex] at room
  have index : Word.add sv.node.lastLogIndexLocked 1 = sv.full.length + 1 := by
    rw [aligned.represents.lastLogIndex]
    exact Word.add_eq (by omega)
  have covered := aligned.represents.covered
  let entry : LogEntry := ⟨sv.node.currentTerm, sv.full.length + 1, command⟩
  let appended : RaftNode := { sv.node with log := sv.node.log ++ [entry] }
  have longer : Represents appended (sv.full ++ [entry]) := aligned.represents.snoc rfl room
  obtain ⟨whole, grown⟩ := aligned.rewrite longer
    (fun other listed => by
      cases List.mem_append.mp listed with
      | inl old => exact aligned.positive other old
      | inr new => rw [List.mem_singleton.mp new]; exact positive)
    rfl (List.take_append_of_le_length covered) rfl aligned.seated
  have kept : KeepsSaved appended (sv.node.appendCommand save command).node := by
    unfold RaftNode.appendCommand
    rw [index]
    refine Keeps.saved ?_ save
    split
    · exact (Keeps.refl appended).committed
    · exact .refl appended
  have value : (sv.node.appendCommand save command).value = entry := by
    unfold RaftNode.appendCommand
    rw [index]
    rfl
  obtain ⟨-, log, included, term⟩ := kept.fields
  have after : Server.full { sv with node := (sv.node.appendCommand save command).node } =
      sv.full ++ [entry] := by
    rw [← whole]
    show sv.compacted ++ (sv.node.appendCommand save command).node.log = sv.compacted ++ appended.log
    rw [log]
  refine ⟨grown.keepSaved kept, by rw [value, after], by rw [value], term, ?_⟩
  obtain ⟨applied, commit, commitLe⟩ := kept.commit
  refine ⟨applied, commit, commitLe.imp_right fun within => ?_, included⟩
  rw [after]
  rwa [longer.lastLogIndex] at within

/-- Accepting a contiguous request keeps the log aligned, and every entry below the first
conflict. -/
theorem accept (aligned : Aligned sv) {req : AppendEntriesRequest} (contiguous : req.Contiguous)
    (passed : ¬ sv.node.Mismatch req) :
    Aligned { sv with node := sv.node.accept req } ∧
      ∀ upTo, sv.node.conflicts req upTo = false → upTo ≤ sv.full.length →
        (Server.full { sv with node := sv.node.accept req }).take upTo = sv.full.take upTo := by
  obtain ⟨full', represents, positive, below, kept⟩ :=
    aligned.represents.accept aligned.positive contiguous passed
  obtain ⟨-, included, store, role⟩ := sv.node.accept_fields req
  obtain ⟨whole, rewritten⟩ := aligned.rewrite represents positive included below store
    fun active => absurd role active
  rw [whole]
  exact ⟨rewritten, kept⟩

/-- `HandleAppendEntries` with a contiguous request keeps the log aligned, and every entry below
the first conflict of an accepted request. -/
theorem handleAppendEntries (aligned : Aligned sv) {req : AppendEntriesRequest}
    (contiguous : req.Contiguous) (save : Bool) :
    Aligned { sv with node := (sv.node.handleAppendEntries save req).node } ∧
      sv.node.currentTerm ≤ (sv.node.handleAppendEntries save req).node.currentTerm ∧
      Commits sv { sv with node := (sv.node.handleAppendEntries save req).node } ∧
      ∀ upTo, (sv.node.accepts req = true → sv.node.conflicts req upTo = false) →
        upTo ≤ sv.full.length →
        (Server.full { sv with node := (sv.node.handleAppendEntries save req).node }).take upTo =
          sv.full.take upTo := by
  have same : ∀ {n' : RaftNode}, KeepsSaved sv.node n' →
      Aligned { sv with node := n' } ∧ sv.node.currentTerm ≤ n'.currentTerm ∧
      Commits sv { sv with node := n' } ∧
      ∀ upTo, (sv.node.accepts req = true → sv.node.conflicts req upTo = false) →
        upTo ≤ sv.full.length →
        (Server.full { sv with node := n' }).take upTo = sv.full.take upTo := by
    intro n' kept
    obtain ⟨-, log, -, term⟩ := kept.fields
    refine ⟨aligned.keepSaved kept, term, aligned.commits kept, fun upTo _ _ => ?_⟩
    show (sv.compacted ++ n'.log).take upTo = _
    rw [log]
    rfl
  cases sv.node.handleAppendEntries_cases save req with
  | inl refused =>
    rw [refused]
    exact same (Keeps.refl sv.node).unsaved
  | inr followed =>
    obtain ⟨current, member, answer⟩ := followed
    have following := follow_keeps sv.node current
    cases answer with
    | inl rejected =>
      cases rejected.2 with
      | inl newer => rw [newer.2]; exact same (following.saved save)
      | inr older => rw [older.2]; exact same following.unsaved
    | inr matched =>
      obtain ⟨passed, saving⟩ := matched
      have accepts : sv.node.accepts req = true := by
        simp [RaftNode.accepts, current, member, passed]
      obtain ⟨accepted, kept⟩ := aligned.accept contiguous passed
      have term : sv.node.currentTerm ≤ (sv.node.accept req).currentTerm := by
        rw [(sv.node.accept_fields req).1, RaftNode.follow_term current]
        exact current
      have commits : Commits sv { sv with node := sv.node.accept req } := by
        obtain ⟨applied, -, commit, commitLe⟩ := sv.node.accept_commit req
        refine ⟨applied, commit, commitLe.imp_right fun within => ?_, (sv.node.accept_fields req).2.1⟩
        exact within.trans accepted.represents.lastLogIndex.le
      cases saving with
      | inr unchanged =>
        rw [unchanged.2]
        exact ⟨accepted, term, commits, fun upTo quiet => kept upTo (quiet accepts)⟩
      | inl changed =>
        rw [changed.2]
        have saved := (Keeps.refl (sv.node.accept req)).saved save
        refine ⟨accepted.persist save, le_trans term saved.fields.2.2.2,
          commits.trans (accepted.commits saved) (le_of_eq ?_), fun upTo quiet within => ?_⟩
        · show (sv.compacted ++ (sv.node.accept req).log).length =
            (sv.compacted ++ ((sv.node.accept req).persistLocked save).1.log).length
          rw [saved.fields.2.1]
        rw [← kept upTo (quiet accepts) within]
        show (sv.compacted ++ ((sv.node.accept req).persistLocked save).1.log).take upTo =
          (sv.compacted ++ (sv.node.accept req).log).take upTo
        rw [saved.fields.2.1]

/-- `Compact` changes no entry of the whole log. -/
theorem compact (aligned : Aligned sv) (save : Bool) (snapshot : Bytes) :
    Aligned (sv.compact save snapshot) ∧ (sv.compact save snapshot).full = sv.full := by
  cases sv.node.compact_cases save snapshot with
  | inl same =>
    have still : sv.compact save snapshot = sv := by
      unfold Server.compact
      simp only [same, Nat.sub_self, List.take_zero, List.append_nil]
    rw [still]
    exact ⟨aligned, rfl⟩
  | inr cut =>
    obtain ⟨above, known, shape⟩ := cut
    have represents := aligned.represents.cutAtApplied above known snapshot
    have saved := (Keeps.refl (sv.node.cutAtApplied snapshot)).saved save
    obtain ⟨-, log, included, -⟩ := saved.fields
    have side := Server.compacted_eq aligned.represents aligned.side_eq represents above.le
      represents.covered log included
    rw [included] at side
    -- the cut record first, then its save
    let moved : Server := { sv with
      node := sv.node.cutAtApplied snapshot
      compacted := sv.full.take sv.node.lastApplied }
    have whole : moved.full = sv.full := by
      show sv.full.take sv.node.lastApplied ++ (sv.node.cutAtApplied snapshot).log = sv.full
      rw [represents.retained]
      exact List.take_append_drop _ _
    have cutAligned : Aligned moved := {
      represents := by rw [whole]; exact represents
      side := by
        show (sv.full.take sv.node.lastApplied).length = sv.node.lastApplied
        rw [List.length_take]
        exact Nat.min_eq_left represents.covered
      positive := by rw [whole]; exact aligned.positive
      disk := fun state stored => by
        refine (aligned.disk state stored).grow ?_
        rw [aligned.side_eq]
        exact List.take_prefix_take_left above.le
      seated := aligned.seated }
    have after : sv.compact save snapshot =
        { moved with node := ((sv.node.cutAtApplied snapshot).persistLocked save).1 } := by
      unfold Server.compact
      simp only [shape]
      exact congrArg (fun side => { sv with
        node := ((sv.node.cutAtApplied snapshot).persistLocked save).1, compacted := side }) side
    rw [after]
    refine ⟨cutAligned.persist save, ?_⟩
    rw [← whole]
    show moved.compacted ++ ((sv.node.cutAtApplied snapshot).persistLocked save).1.log =
      moved.compacted ++ (sv.node.cutAtApplied snapshot).log
    rw [log]

/-- A restart finds a numbered log on disk. -/
theorem restart (aligned : Aligned sv) (peers : List NodeId) : Aligned (sv.restart peers) := by
  unfold Server.restart
  cases store : sv.node.store with
  | none =>
    refine ⟨⟨le_refl _, rfl, fun position entry found => ?_, rfl, ?_⟩, rfl, fun entry listed => ?_,
      fun state stored => by contradiction, fun active => absurd rfl active⟩
    · simp [Server.full, newRaftNode] at found
    · show 1 < Word.limit
      decide
    · simp [Server.full, newRaftNode] at listed
  | some state =>
    have disk := aligned.disk state store
    have length : (sv.compacted.take state.lastIncludedIndex).length = state.lastIncludedIndex := by
      rw [List.length_take]
      exact Nat.min_eq_left disk.covered
    refine ⟨disk.represents.congr rfl rfl rfl, length, fun entry listed => ?_,
      fun stored same => ?_, fun active => absurd rfl active⟩
    · cases List.mem_append.mp listed with
      | inl old =>
        have inside : entry ∈ sv.compacted := List.mem_of_mem_take old
        exact aligned.positive entry (List.mem_append_left _ inside)
      | inr new => exact disk.positive entry new
    · obtain rfl : state = stored := Option.some.inj same
      refine ⟨length.ge, ?_, disk.positive⟩
      show Represents _ ((sv.compacted.take state.lastIncludedIndex).take state.lastIncludedIndex ++
        state.log)
      rw [List.take_take, Nat.min_self]
      exact disk.represents

end Aligned

end Raft

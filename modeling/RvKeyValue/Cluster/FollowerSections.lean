import RvKeyValue.Cluster.LeaderSections
import RvKeyValue.Raft.Append

/-!
# Follower sections refine the protocol

`HandleAppendEntries` compares terms only. Because the entries of one term are written by one
leader, an equal term at an index means equal logs up to it, so the sent part of the leader's
log either is in the follower's log already or replaces it from the first difference on; a
committed prefix is part of the leader's log and survives the cut.
-/

namespace Raft

open ReplicatedLog (Step Rooted Committed)

section

variable {members : Members} {id : NodeId} {n : RaftNode} {a : Protocol}

/-- Rooted logs with the same term at an index agree up to it. -/
theorem Good.matching (good : Good members a) {left right : List LogEntry}
    (rootedLeft : Rooted LogEntry.term a left) (rootedRight : Rooted LogEntry.term a right)
    {index : Nat} (inside : index ≤ right.length) (same : termAt left index = termAt right index) :
    index ≤ left.length ∧ left.take index = right.take index := by
  cases index with
  | zero => simp
  | succ position =>
    have atRight : right[position]? = some right[position] := List.getElem?_eq_getElem inside
    have termRight := termAt_succ atRight
    obtain ⟨⟨election, decided⟩, -⟩ := rootedRight position _ atRight
    have positive := good.inv.electedPos _ _ decided
    obtain ⟨other, entry, shifted, atLeft, termLeft⟩ :=
      exists_of_termAt_pos (by rw [same, termRight]; exact positive)
    obtain rfl : position = other := Nat.succ.inj shifted
    have within := (List.getElem?_eq_some_iff.mp atLeft).1
    refine ⟨within, rootedLeft.matching rootedRight atLeft atRight ?_⟩
    rw [termLeft, same, termRight]

/-- `HandleAppendEntries` follows the sender in the request's term. -/
theorem Refines.follow (good : Good members a) (refines : Refines members id n a)
    (req : AppendEntriesRequest) (current : n.currentTerm ≤ req.term)
    (fits : req.term < Word.limit) :
    (n.follow req).store = n.store ∧ (n.follow req).currentTerm = req.term ∧
      (n.follow req).state = .follower ∧ (n.follow req).log = n.log ∧
      (n.currentTerm = req.term → (n.follow req).votedFor = n.votedFor) ∧
      (n.follow req).lastIncludedIndex = n.lastIncludedIndex ∧
      (n.follow req).lastIncludedTerm = n.lastIncludedTerm ∧
      ∃ a', Advance members id n (n.follow req) a a' := by
  by_cases later : n.currentTerm < req.term
  · have same : n.follow req =
        { n.adoptTerm req.term with state := .follower, leaderID := req.leaderID } := by
      unfold RaftNode.follow
      simp only [if_pos later]
      split <;> rfl
    rw [same]
    exact ⟨rfl, rfl, rfl, rfl, fun equal => by omega, rfl, rfl, _,
      refines.adopt good later fits req.leaderID⟩
  · have equal : n.currentTerm = req.term := by omega
    have same : n.follow req = { n with
        state := .follower, leaderID := req.leaderID, nextIndex := none, matchIndex := none } := by
      unfold RaftNode.follow
      simp only [if_neg later]
      split
      · rfl
      · rename_i role
        have idle := refines.idle (by rw [not_not.mp role]; simp)
        simp only [idle.1, idle.2]
    rw [same]
    refine ⟨rfl, equal, rfl, rfl, fun _ => rfl, rfl, rfl, a, ?_⟩
    refine ⟨good, .refl a, .refl a id, ?_, le_refl _, le_refl _, rfl, rfl,
      fun role => absurd role (by simp)⟩
    exact { refines with
      log := refines.log.congr rfl rfl rfl
      leads := fun role => absurd role (by simp)
      progress := fun role => absurd role (by simp)
      idle := fun _ => ⟨rfl, rfl⟩
      candidate := fun role => absurd role (by simp) }

section Accepting

variable {source : NodeId} {req : AppendEntriesRequest} {log : List LogEntry}

/-- The log a request describes is rooted. -/
theorem AppendOk.rooted (good : Good members a) (sent : AppendOk members a source req log) :
    Rooted LogEntry.term a log := by
  obtain ⟨election, decided, -⟩ := sent.elected
  exact (good.inv.leaderRooted _ _ decided).shorten sent.written

/-- A request that passes the consistency check agrees with the log up to its previous index. -/
theorem Refines.prevMatches (good : Good members a) (refines : Refines members id n a)
    (sent : AppendOk members a source req log)
    (passed : ¬ (0 < req.prevLogIndex ∧ n.logTermAtLocked req.prevLogIndex ≠ req.prevLogTerm)) :
    req.prevLogIndex ≤ (a.log id).length ∧
      (a.log id).take req.prevLogIndex = log.take req.prevLogIndex := by
  have rooted := sent.rooted good
  cases first : req.prevLogIndex with
  | zero => simp
  | succ position =>
    rw [← first]
    have positive : 0 < req.prevLogIndex := by omega
    have same : n.logTermAtLocked req.prevLogIndex = termAt log req.prevLogIndex := by
      rw [← sent.prevTerm]
      by_contra other
      exact passed ⟨positive, other⟩
    by_cases below : req.prevLogIndex < n.lastIncludedIndex
    · -- the snapshot hides the index, so the check reads term zero, which no sent entry has
      rw [refines.log.logTermAt_below below] at same
      have inside : position < log.length := by
        have := sent.prevLe
        omega
      have read := termAt_succ (List.getElem?_eq_getElem inside)
      obtain ⟨⟨election, decided⟩, -⟩ := rooted position _ (List.getElem?_eq_getElem inside)
      have known := good.inv.electedPos _ _ decided
      rw [← first] at read
      omega
    · rw [refines.log.logTermAt (Nat.le_of_not_lt below)] at same
      exact good.matching (good.inv.logRooted id) rooted sent.prevLe same

/-- What the follower believes committed is part of its leader's log. -/
theorem Refines.committed_prefix (good : Good members a) (refines : Refines members id n a)
    (sent : AppendOk members a source req log) (term : a.term id = req.term) :
    (a.log id).take n.commitIndex <+: a.leaderLog req.term := by
  obtain ⟨election, decided, -⟩ := sent.elected
  have commit := refines.commit
  rw [term] at commit
  exact commit.prefix_leaderLog good.inv decided

/-- When the first sent entries are covered, the follower's log holds the sender's log up to
them. -/
theorem Refines.covered_prefix (good : Good members a) (refines : Refines members id n a)
    (sent : AppendOk members a source req log) (term : a.term id = req.term)
    (prev : (a.log id).take req.prevLogIndex = log.take req.prevLogIndex) {count : Nat}
    (within : count ≤ req.entries.length)
    (covered : ∀ position entry, position < count → req.entries[position]? = some entry →
      Covered n (a.log id) (req.prevLogIndex + 1 + position) entry) :
    log.take (req.prevLogIndex + count) <+: a.log id := by
  have length : req.entries.length = log.length - req.prevLogIndex := by
    rw [sent.entries, List.length_drop]
  cases count with
  | zero =>
    rw [Nat.add_zero, ← prev]
    exact List.take_prefix _ _
  | succ last =>
    -- the last covered entry decides: either the snapshot hides it or its term matches
    have inside : req.prevLogIndex + last < log.length := by omega
    have found : log[req.prevLogIndex + last]? = some log[req.prevLogIndex + last] :=
      List.getElem?_eq_getElem inside
    have listed : req.entries[last]? = some log[req.prevLogIndex + last] := by
      rw [sent.entries, List.getElem?_drop]
      exact found
    have shifted : req.prevLogIndex + 1 + last = req.prevLogIndex + (last + 1) := by omega
    cases covered last _ (Nat.lt_succ_self last) listed with
    | inl hidden =>
      rw [shifted] at hidden
      have included := le_trans refines.includedLe refines.appliedLe
      have left : log.take (req.prevLogIndex + (last + 1)) <+: a.leaderLog req.term :=
        (List.take_prefix _ _).trans sent.written
      have right := refines.committed_prefix good sent term
      have commitLe := refines.commitLe
      have shorter : (log.take (req.prevLogIndex + (last + 1))).length ≤
          ((a.log id).take n.commitIndex).length := by
        rw [List.length_take, List.length_take]
        omega
      exact (List.prefix_of_prefix_length_le left right shorter).trans (List.take_prefix _ _)
    | inr present =>
      rw [shifted] at present
      have read : termAt log (req.prevLogIndex + (last + 1)) = log[req.prevLogIndex + last].term :=
        termAt_succ found
      have agree := good.matching (good.inv.logRooted id) (sent.rooted good)
        (by omega : req.prevLogIndex + (last + 1) ≤ log.length) (present.2.trans read.symm)
      rw [← agree.2]
      exact List.take_prefix _ _

/-- A log that lacks part of the sender's log keeps its committed prefix when it is replaced. -/
theorem Refines.commit_survives (good : Good members a) (refines : Refines members id n a)
    (sent : AppendOk members a source req log) (term : a.term id = req.term)
    (missing : ¬ log <+: a.log id) :
    n.commitIndex ≤ log.length ∧ log.take n.commitIndex = (a.log id).take n.commitIndex := by
  have committed := refines.committed_prefix good sent term
  have commitLe := refines.commitLe
  cases List.prefix_or_prefix_of_prefix committed sent.written with
  | inl shorter =>
    have length := shorter.length_le
    rw [List.length_take, Nat.min_eq_left commitLe] at length
    refine ⟨length, ?_⟩
    have cut := List.prefix_iff_eq_take.mp shorter
    rw [List.length_take, Nat.min_eq_left commitLe] at cut
    exact cut.symm
  | inr longer => exact absurd (longer.trans (List.take_prefix _ _)) missing

/-- Replacing the log by the sender's is copying the leader's log. -/
theorem Refines.copy (good : Good members a) (refines : Refines members id n a)
    (sent : AppendOk members a source req log) (term : a.term id = req.term)
    (role : n.state = .follower) (missing : ¬ log <+: a.log id) :
    Advance members id n { n with log := log.drop n.lastIncludedIndex } a
      (a.accept id log.length) := by
  obtain ⟨election, decided, -⟩ := sent.elected
  have led : a.elected (a.term id) = some election := by rw [term]; exact decided
  have copied : (a.leaderLog (a.term id)).take log.length = log := by
    rw [term]
    exact (List.prefix_iff_eq_take.mp sent.written).symm
  have absent : ¬ (a.leaderLog (a.term id)).take log.length <+: a.log id := by
    rw [copied]
    exact missing
  have grows := Step.grows good.inv (.accept id log.length election led absent)
  have logNow : (a.accept id log.length).log id = log := by
    simp [ReplicatedLog.State.accept, copied]
  have survives := refines.commit_survives good sent term missing
  have included := le_trans refines.includedLe refines.appliedLe
  have room := good.bounded _ _ decided
  have within := sent.written.length_le
  have goodNow : Good members (a.accept id log.length) :=
    ⟨good.inv.step (.accept id log.length election led absent), good.indexed, good.bounded⟩
  refine ⟨goodNow, grows, a.accept_onlyAt id _, ?_, le_refl _, le_refl _, ?_, rfl,
    fun candidate => absurd (candidate.symm.trans role) (by simp)⟩
  · exact { refines with
      log := by
        rw [logNow]
        refine ⟨le_trans included survives.1, rfl, (good.indexed _ _ decided).shorten sent.written,
          ?_, by omega⟩
        have same : (a.log id).take n.commitIndex = log.take n.commitIndex := survives.2.symm
        exact refines.log.boundary.trans (termAt_congr same included)
      commit := by
        rw [logNow, survives.2]
        exact refines.commit.grow grows (le_refl _)
      commitLe := by rw [logNow]; exact survives.1
      leads := fun leader => absurd (leader.symm.trans role) (by simp)
      progress := fun leader => absurd (leader.symm.trans role) (by simp)
      candidate := fun candidate => absurd (candidate.symm.trans role) (by simp) }
  · rw [logNow]
    exact survives.2

/-- The retained log after a cut is the sender's log above the snapshot. -/
theorem cut_log {full log : List LogEntry} {included count : Nat} (covered : included ≤ count)
    (within : count ≤ log.length) (agree : full.take count = log.take count) :
    (full.drop included).take (count - included) ++ log.drop count = log.drop included := by
  have left : (full.drop included).take (count - included) = (log.take count).drop included := by
    rw [← agree, List.drop_take]
  have whole : log.drop included = (log.take count ++ log.drop count).drop included := by
    rw [List.take_append_drop]
  rw [left, whole, List.drop_append_of_le_length]
  rw [List.length_take]
  omega

/-- The loop of `appendEntriesToLogLocked` leaves the log as it is, or replaces it by the
sender's; either way the sender's log is then part of it. -/
theorem Refines.accepted (good : Good members a) (refines : Refines members id n a)
    (sent : AppendOk members a source req log) (term : a.term id = req.term)
    (role : n.state = .follower)
    (passed : ¬ (0 < req.prevLogIndex ∧ n.logTermAtLocked req.prevLogIndex ≠ req.prevLogTerm)) :
    ∃ a', Advance members id n
        { n with log := (n.appendLoop (Word.add req.prevLogIndex 1) req.entries).1 } a a' ∧
      ((n.appendLoop (Word.add req.prevLogIndex 1) req.entries).2 = false →
        (n.appendLoop (Word.add req.prevLogIndex 1) req.entries).1 = n.log) ∧
      log <+: a'.log id ∧ a'.term id = a.term id := by
  obtain ⟨election, decided, -⟩ := sent.elected
  have room := good.bounded _ _ decided
  have within := sent.written.length_le
  have prevLe := sent.prevLe
  have length : req.entries.length = log.length - req.prevLogIndex := by
    rw [sent.entries, List.length_drop]
  have start : Word.add req.prevLogIndex 1 = req.prevLogIndex + 1 := Word.add_eq (by omega)
  obtain ⟨near, prev⟩ := refines.prevMatches good sent passed
  have accepted := RaftNode.appendLoop_accepted refines.log req.entries
    (by omega : 1 ≤ req.prevLogIndex + 1) (by omega) (by omega)
  rw [start]
  generalize n.appendLoop (req.prevLogIndex + 1) req.entries = result at accepted
  cases accepted with
  | unchanged all =>
    have held := refines.covered_prefix good sent term prev (le_refl _)
      fun position entry _ found => all position entry found
    rw [List.take_of_length_le (by omega)] at held
    exact ⟨a, .stay good refines ⟨rfl, rfl, rfl, rfl, rfl, rfl, rfl, rfl, rfl, rfl, rfl, rfl, rfl⟩,
      fun _ => rfl, held, rfl⟩
  | cut position inRange before above nearEnd differs =>
    have held := refines.covered_prefix good sent term prev inRange.le before
    have countLe : req.prevLogIndex + position ≤ log.length := by omega
    have agree : (a.log id).take (req.prevLogIndex + position) =
        log.take (req.prevLogIndex + position) := by
      have cut := List.prefix_iff_eq_take.mp held
      rw [List.length_take, Nat.min_eq_left countLe] at cut
      exact cut.symm
    have inside : req.prevLogIndex + position < log.length := by omega
    have found : log[req.prevLogIndex + position]? = some log[req.prevLogIndex + position] :=
      List.getElem?_eq_getElem inside
    have missing : ¬ log <+: a.log id := by
      intro whole
      have longer := whole.length_le
      have here := whole.getElem?_of_some found
      have listed : req.entries[position]? = some log[req.prevLogIndex + position] := by
        rw [sent.entries, List.getElem?_drop]
        exact found
      have shifted : req.prevLogIndex + 1 + position = req.prevLogIndex + position + 1 := by omega
      apply differs _ listed (by omega)
      rw [shifted]
      exact termAt_succ here
    have rest : req.entries.drop position = log.drop (req.prevLogIndex + position) := by
      rw [sent.entries, List.drop_drop]
    have numbered : normalizeEntries (req.prevLogIndex + 1 + position) (req.entries.drop position) =
        log.drop (req.prevLogIndex + position) := by
      rw [rest]
      apply normalizeEntries_eq_self
      · rw [List.length_drop]
        omega
      · intro offset entry read
        rw [List.getElem?_drop] at read
        have index := ((good.indexed _ _ decided).shorten sent.written) _ _ read
        omega
    have newLog : ((a.log id).drop n.lastIncludedIndex).take
          (req.prevLogIndex + 1 + position - (n.lastIncludedIndex + 1)) ++
        normalizeEntries (req.prevLogIndex + 1 + position) (req.entries.drop position) =
        log.drop n.lastIncludedIndex := by
      rw [numbered, show req.prevLogIndex + 1 + position - (n.lastIncludedIndex + 1) =
        req.prevLogIndex + position - n.lastIncludedIndex by omega]
      exact cut_log (by omega) countLe agree
    have copied := refines.copy good sent term role missing
    refine ⟨a.accept id log.length, ?_, by simp, ?_, rfl⟩
    · simp only [newLog]
      exact copied
    · have logNow : (a.accept id log.length).log id = log := by
        have same := List.prefix_iff_eq_take.mp sent.written
        simp [ReplicatedLog.State.accept, term, ← same]
      rw [logNow]

/-- Acknowledging the sender's log once it is held. -/
theorem Refines.acknowledge (good : Good members a) (refines : Refines members id n a)
    (sent : AppendOk members a source req log) (term : a.term id = req.term)
    (held : log <+: a.log id) :
    Advance members id n n a (a.ack id log) ∧ AckOk (a.ack id log) id req := by
  obtain ⟨election, decided, -⟩ := sent.elected
  have led : a.elected (a.term id) = some election := by rw [term]; exact decided
  have written : log <+: a.leaderLog (a.term id) := by rw [term]; exact sent.written
  have grows := Step.grows good.inv (.ack id log election led held written)
  have prevLe := sent.prevLe
  refine ⟨⟨good.ack led held written, grows, a.ack_onlyAt id log, refines.frame grows rfl rfl rfl,
    le_refl _, le_refl _, rfl, rfl, fun role _ => ⟨role, rfl, rfl⟩⟩, log, ?_, ?_⟩
  · exact Or.inr ⟨rfl, term.symm, List.prefix_rfl⟩
  · rw [sent.entries, List.length_drop]
    omega

/-- Following the leader's commit index stays inside the acknowledged log. -/
theorem Refines.followCommit (good : Good members a) (refines : Refines members id n a)
    (sent : AppendOk members a source req log) (term : a.term id = req.term)
    (held : log <+: a.log id) : Advance members id n (n.followCommit req.leaderCommit) a a := by
  have idle : Advance members id n n a a := .stay good refines ⟨rfl, rfl, rfl, rfl, rfl, rfl, rfl,
    rfl, rfl, rfl, rfl, rfl, rfl⟩
  unfold RaftNode.followCommit
  split
  · rename_i behind
    have commitLe := sent.commitLe
    have length := held.length_le
    have reached : min req.leaderCommit n.lastLogIndexLocked = req.leaderCommit := by
      rw [refines.log.lastLogIndex]
      omega
    have same : (a.log id).take req.leaderCommit = log.take req.leaderCommit := by
      rw [List.prefix_iff_eq_take.mp held, List.take_take, Nat.min_eq_left commitLe]
    have committed : Committed LogEntry.term members.quorums a (a.term id)
        ((a.log id).take req.leaderCommit) := by
      rw [same, term]
      exact sent.commit
    rw [reached]
    exact { idle with
      refines := refines.raiseCommit behind.1.le (by omega) committed true
      commit := behind.1.le }
  · exact idle

/-- Following the commit index changes nothing durable. -/
theorem Persists.followCommit (persists : Persists members id n) (leaderCommit : Nat) :
    Persists members id (n.followCommit leaderCommit) := by
  unfold RaftNode.followCommit
  split
  · exact persists.congr rfl rfl rfl rfl rfl rfl
  · exact persists

/-- Following the commit index leaves term and store alone. -/
theorem followCommit_fields (n : RaftNode) (leaderCommit : Nat) :
    (n.followCommit leaderCommit).store = n.store ∧
      (n.followCommit leaderCommit).currentTerm = n.currentTerm := by
  unfold RaftNode.followCommit
  split <;> exact ⟨rfl, rfl⟩

/-- `HandleAppendEntries` follows the leader, takes its log and acknowledges it. -/
theorem handleAppendEntries_advance (good : Good members a) (refines : Refines members id n a)
    (persists : Persists members id n) (sent : AppendOk members a source req log) :
    (n.handleAppendEntries true req).err = none ∧
    (n.handleAppendEntries true req).value.term < Word.limit ∧
    Persists members id (n.handleAppendEntries true req).node ∧
    ∃ a', Advance members id n (n.handleAppendEntries true req).node a a' ∧
      ((n.handleAppendEntries true req).value.success = true → AckOk a' id req) := by
  cases n.handleAppendEntries_cases true req with
  | inl refused =>
    rw [refused]
    have bound : n.currentTerm < Word.limit := by rw [refines.term]; exact refines.termFits
    exact ⟨rfl, bound, persists, a, .stay good refines ⟨rfl, rfl, rfl, rfl, rfl, rfl, rfl, rfl, rfl,
      rfl, rfl, rfl, rfl⟩, by simp⟩
  | inr followed =>
    obtain ⟨current, -, answer⟩ := followed
    obtain ⟨store, reached, role, sameLog, sameVote, sameIndex, sameTerm, a₁, moved⟩ :=
      refines.follow good req current sent.fits
    obtain ⟨state, stored⟩ := persists
    have store₁ : (n.follow req).store = some state := store.trans stored.store
    have unsaved : ¬ n.currentTerm < req.term → Persists members id (n.follow req) := by
      intro same
      have equal : n.currentTerm = req.term := by omega
      exact Persists.congr ⟨state, stored⟩ store (reached.trans equal.symm) (sameVote equal) sameLog
        sameIndex sameTerm
    have fits₁ : (n.follow req).currentTerm < Word.limit := by rw [reached]; exact sent.fits
    cases answer with
    | inl rejected =>
      cases rejected.2 with
      | inl newer =>
        rw [newer.2]
        have saved := persisted_stored moved.refines store₁
        exact ⟨saved.1, fits₁, ⟨_, saved.2⟩, a₁, moved.saved, by simp [RaftNode.persisting]⟩
      | inr same =>
        rw [same.2]
        exact ⟨rfl, fits₁, unsaved same.1, a₁, moved, by simp⟩
    | inr matched =>
      obtain ⟨consistent, saving⟩ := matched
      have sent₁ := sent.grow moved.grows
      have term₁ : a₁.term id = req.term := moved.refines.term.symm.trans reached
      obtain ⟨a₂, appended, kept, held, sameA⟩ :=
        moved.refines.accepted moved.good sent₁ term₁ role consistent
      have sent₂ := sent₁.grow appended.grows
      have term₂ := sameA.trans term₁
      obtain ⟨acked, ack⟩ := appended.refines.acknowledge appended.good sent₂ term₂ held
      have committed := acked.refines.followCommit acked.good (sent₂.grow acked.grows) term₂ held
      have whole : Advance members id n (n.accept req) a _ :=
        ((moved.trans appended).trans acked).trans committed
      have fields : (n.accept req).store = (n.follow req).store ∧
          (n.accept req).currentTerm = (n.follow req).currentTerm := followCommit_fields _ _
      have fits : (n.accept req).currentTerm < Word.limit := by rw [fields.2]; exact fits₁
      cases saving with
      | inl changed =>
        rw [changed.2]
        have saved := persisted_stored whole.refines (fields.1.trans store₁)
        exact ⟨saved.1, fits, ⟨_, saved.2⟩, _, whole.saved, fun _ => ack⟩
      | inr unchanged =>
        rw [unchanged.2]
        have nothing := unchanged.1
        unfold RaftNode.mustSave at nothing
        rw [Bool.or_eq_false_iff, decide_eq_false_iff_not] at nothing
        refine ⟨rfl, fits, ?_, _, whole, fun _ => ack⟩
        apply Persists.followCommit
        exact (unsaved nothing.1).congr rfl rfl rfl (kept nothing.2) rfl rfl

end Accepting

/-- The next entry to apply is the next committed one. -/
theorem nextCommittedEntry_found (refines : Refines members id n a) {entry : LogEntry}
    (found : n.nextCommittedEntry = some entry) :
    entry.index = n.lastApplied + 1 ∧ entry.index ≤ n.commitIndex ∧
      (a.log id)[n.lastApplied]? = some entry := by
  cases refines.log.nextCommittedEntry refines.includedLe refines.appliedLe refines.commitLe with
  | inl all =>
    rw [all.1] at found
    contradiction
  | inr next =>
    obtain ⟨other, same, index, committed, read⟩ := next
    obtain rfl : other = entry := Option.some.inj (same.symm.trans found)
    exact ⟨index, by omega, read⟩

/-- Marking a committed entry as applied moves nothing else. -/
theorem markApplied_advance (good : Good members a) (refines : Refines members id n a)
    (persists : Persists members id n) {index : Nat} (committed : index ≤ n.commitIndex) :
    Persists members id (n.markApplied index) ∧
      Advance members id n (n.markApplied index) a a := by
  have idle : Advance members id n n a a := .stay good refines ⟨rfl, rfl, rfl, rfl, rfl, rfl, rfl,
    rfl, rfl, rfl, rfl, rfl, rfl⟩
  unfold RaftNode.markApplied
  split
  · rename_i later
    refine ⟨persists.congr rfl rfl rfl rfl rfl rfl, ?_⟩
    exact { idle with
      refines := { refines with
        log := refines.log.congr rfl rfl rfl
        appliedLe := committed
        includedLe := le_trans refines.includedLe later.le
        progress := fun role => ⟨(refines.progress role).maps, (refines.progress role).peer,
          (refines.progress role).stranger⟩ } }
  · exact ⟨persists, idle⟩

/-- What a compacted process keeps on the side and what its record retains make up the whole
log. -/
def SnapshotOk (id : NodeId) (sv : Server) (a : Protocol) : Prop :=
  sv.compacted = (a.log id).take sv.node.lastIncludedIndex

/-- `Compact` changes no entry of the whole log. -/
theorem compact_refines {sv : Server} (refines : Refines members id sv.node a)
    (persists : Persists members id sv.node) (snapshotOk : SnapshotOk id sv a) (snapshot : Bytes) :
    Refines members id (sv.compact true snapshot).node a ∧
    Persists members id (sv.compact true snapshot).node ∧
    SnapshotOk id (sv.compact true snapshot) a ∧
    (sv.compact true snapshot).node.commitIndex = sv.node.commitIndex ∧
    (sv.compact true snapshot).node.state = sv.node.state := by
  obtain ⟨state, stored⟩ := persists
  unfold Server.compact
  cases sv.node.compact_cases true snapshot with
  | inl same =>
    simp only [same]
    exact ⟨refines, ⟨state, stored⟩, by simpa [SnapshotOk] using snapshotOk, trivial, trivial⟩
  | inr cut =>
    obtain ⟨above, known, shape⟩ := cut
    simp only [shape]
    have inside := le_trans refines.appliedLe refines.commitLe
    have represents := refines.log.cutAtApplied above known snapshot
    have refined : Refines members id (sv.node.cutAtApplied snapshot) a := { refines with
      log := represents
      includedLe := le_refl _
      progress := fun role => ⟨(refines.progress role).maps, (refines.progress role).peer,
        (refines.progress role).stranger⟩ }
    have core := persisted_core (sv.node.cutAtApplied snapshot) true
    refine ⟨refined.congr core, refined.persists stored.store, ?_, core.commit, core.state⟩
    exact Server.compacted_eq refines.log snapshotOk represents above.le inside core.log core.included

/-- A restart finds the log, the term and the vote it stored. -/
theorem restart_refines {sv : Server} (refines : Refines members id sv.node a)
    (persists : Persists members id sv.node) (snapshotOk : SnapshotOk id sv a) :
    Refines members id (sv.restart (members.peers id)).node a ∧
    Persists members id (sv.restart (members.peers id)).node ∧
    SnapshotOk id (sv.restart (members.peers id)) a := by
  obtain ⟨state, stored⟩ := persists
  have included := le_trans refines.includedLe refines.appliedLe
  have shape : (sv.restart (members.peers id)).node = newRaftNode sv.node.id (members.peers id)
      (some state) := by
    rw [← stored.store]
    rfl
  have shorter : (a.log id).take sv.node.lastIncludedIndex <+: (a.log id).take sv.node.commitIndex :=
    List.take_prefix_take_left included
  rw [shape]
  refine ⟨?_, ⟨state, rfl, rfl, rfl, rfl, rfl, rfl, stored.peers, stored.selfMember⟩, ?_⟩
  · exact {
      member := refines.member
      own := refines.own
      peers := stored.peers
      selfMember := stored.selfMember
      term := stored.term.trans refines.term
      termFits := refines.termFits
      vote := by
        show a.vote id = if state.votedFor = "" then none else some state.votedFor
        rw [stored.vote]
        exact refines.vote
      log := refines.log.congr stored.log stored.included stored.includedTerm
      commit := by
        show ReplicatedLog.Committed _ _ _ _ ((a.log id).take state.lastIncludedIndex)
        rw [stored.included]
        exact refines.commit.shorten shorter
      commitLe := by
        show state.lastIncludedIndex ≤ _
        rw [stored.included]
        exact refines.log.covered
      appliedLe := le_refl _
      includedLe := le_refl _
      leads := fun role => absurd role (by simp [newRaftNode])
      progress := fun role => absurd role (by simp [newRaftNode])
      idle := fun _ => ⟨rfl, rfl⟩
      candidate := fun role => absurd role (by simp [newRaftNode]) }
  · show sv.compacted.take (sv.restart (members.peers id)).node.lastIncludedIndex =
      (a.log id).take (sv.restart (members.peers id)).node.lastIncludedIndex
    rw [shape]
    show sv.compacted.take state.lastIncludedIndex = (a.log id).take state.lastIncludedIndex
    rw [stored.included, snapshotOk, List.take_take, Nat.min_self]

end

end Raft

import RvKeyValue.Node.Terms

/-!
# The role of a node

Which sections change the role, said once. `BecomeCandidate` makes a candidate of the next term and
`promoteCandidate` makes a leader of a candidate, in the term it has. Every other section leaves a
follower, or leaves role and term as they are. A section that leaves a leader has kept the log,
appended to it, or cut it at the applied index.
-/

namespace Raft

/-- A process starts as a follower. -/
theorem newRaftNode_state (id : NodeId) (peers : List NodeId) (store : Option PersistentState) :
    (newRaftNode id peers store).state = .follower := by
  cases store <;> rfl

namespace RaftNode

/-- A section leaves a follower, for a reason, or leaves role and term as they are. -/
def Demotes (reason : Prop) (n m : RaftNode) : Prop :=
  m.state = .follower ∧ reason ∨ m.state = n.state ∧ m.currentTerm = n.currentTerm

/-- The reason for which an operation other than `BecomeCandidate`, `BecomeLeader` and
`promoteCandidate` can change the role: a later term, a leader of the own term, or a membership
change. -/
def Deposes (unmarshal : Bytes → Option MembershipCommand) (n : RaftNode) : Operation → Prop
  | .becomeFollower _ => True
  | .stepDownForHigherTerm term => n.currentTerm < term
  | .requestVote req => n.currentTerm < req.term
  | .handleAppendEntries req => n.currentTerm ≤ req.term
  | .applyMembershipChange _ => True
  | .applyEntry entry => ∃ change, decodeMembershipChange unmarshal entry.command = some (.ok change)
  | _ => False

section

variable {unmarshal : Bytes → Option MembershipCommand} {n m k : RaftNode} {reason : Prop}

namespace Demotes

/-- Nothing happens. -/
theorem refl (n : RaftNode) : Demotes reason n n := Or.inr ⟨rfl, rfl⟩

/-- A section goes on without touching role and term. -/
theorem after (demotes : Demotes reason n m) (role : k.state = m.state)
    (term : k.currentTerm = m.currentTerm) : Demotes reason n k := by
  rcases demotes with ⟨follower, why⟩ | ⟨same, sameTerm⟩
  · exact Or.inl ⟨role.trans follower, why⟩
  · exact Or.inr ⟨role.trans same, term.trans sameTerm⟩

/-- The commit rule. -/
theorem advanced (demotes : Demotes reason n m) : Demotes reason n m.advanceCommitLocked := by
  obtain ⟨term, role⟩ := m.advanceCommitLocked_role
  exact demotes.after role term

/-- A section that ends with a save, which may fail. -/
theorem saved (demotes : Demotes reason n m) (save : Bool) :
    Demotes reason n (m.persistLocked save).1 := by
  rcases m.persistLocked_cases save with same | stored
  · rw [same]
    exact demotes
  · rw [stored]
    exact demotes.after rfl rfl

end Demotes

/-- `HandleAppendEntries` leaves a follower, unless it refuses; it refuses an earlier term. -/
theorem handleAppendEntries_demotes (n : RaftNode) (save : Bool) (req : AppendEntriesRequest) :
    (n.handleAppendEntries save req).node = n ∨
      (n.handleAppendEntries save req).node.state = .follower ∧ n.currentTerm ≤ req.term := by
  have saved : ∀ {m : RaftNode}, m.state = .follower → (m.persistLocked save).1.state = .follower := by
    intro m follower
    rcases m.persistLocked_cases save with same | stored
    · rw [same]
      exact follower
    · rw [stored]
      exact follower
  have following : (n.follow req).state = .follower := by
    simp [follow]
  have accepting : (n.accept req).state = .follower := by
    unfold accept
    rcases followCommit_cases { n.follow req with
        log := ((n.follow req).appendLoop (Word.add req.prevLogIndex 1) req.entries).1 }
        req.leaderCommit with same | ⟨index, -, -, same⟩
    · rw [same]
      exact following
    · rw [same]
      exact following
  rcases n.handleAppendEntries_cases save req with
    same | ⟨current, -, ⟨-, ⟨-, same⟩ | ⟨-, same⟩⟩ | ⟨-, ⟨-, same⟩ | ⟨-, same⟩⟩⟩
  · exact Or.inl (by rw [same])
  · rw [same]
    exact Or.inr ⟨saved following, current⟩
  · rw [same]
    exact Or.inr ⟨following, current⟩
  · rw [same]
    exact Or.inr ⟨saved accepting, current⟩
  · rw [same]
    exact Or.inr ⟨accepting, current⟩

/-- `RequestVote`. -/
theorem requestVote_demotes (n : RaftNode) (save : Bool) (req : RequestVoteRequest) :
    Demotes (n.currentTerm < req.term) n (n.requestVote save req).node := by
  have seen : Demotes (n.currentTerm < req.term) n (n.seeTerm req.term) := by
    unfold seeTerm
    split
    · rename_i later
      exact Or.inl ⟨rfl, later⟩
    · exact .refl n
  rcases n.requestVote_cases save req with same | ⟨-, ⟨-, -, same⟩ | ⟨-, same⟩⟩
  · rw [same]
    exact .refl n
  · rw [same]
    have voted : Demotes (n.currentTerm < req.term) n
        { n.seeTerm req.term with votedFor := req.candidateID } := seen.after rfl rfl
    exact voted.saved save
  · rw [same]
    exact seen.saved save

/-- `applyMembershipChangeLocked` makes a node that goes a follower. -/
theorem applyMembershipChangeLocked_demotes (n : RaftNode) (change : MembershipChange) :
    Demotes True n (n.applyMembershipChangeLocked change).1 := by
  have unchanged : Demotes True n n := .refl n
  unfold applyMembershipChangeLocked
  cases change.type with
  | unsupported text => exact unchanged.after rfl rfl
  | addPeer =>
    dsimp only
    split
    · exact Demotes.advanced (unchanged.after rfl rfl)
    split
    · exact Demotes.advanced (unchanged.after rfl rfl)
    · apply Demotes.advanced
      split <;> exact unchanged.after rfl rfl
  | removePeer =>
    dsimp only
    split
    · dsimp only
      apply Demotes.advanced
      exact Or.inl ⟨rfl, trivial⟩
    · apply Demotes.advanced
      exact unchanged.after rfl rfl

/-- `promoteCandidate` makes a leader of a candidate of the term, or does nothing. -/
theorem promoteCandidate_promotes (n : RaftNode) (save : Bool) (term : Nat) :
    (n.promoteCandidate save term).node = n ∨
      n.state = .candidate ∧ n.currentTerm = term ∧ (n.promoteCandidate save term).node.state = .leader ∧
        (n.promoteCandidate save term).node.currentTerm = term := by
  cases won : (n.promoteCandidate save term).value with
  | true =>
    obtain ⟨candidate, current⟩ := promoteCandidate_promoted won
    obtain ⟨leads, leader⟩ := promoteCandidate_leads won
    exact Or.inr ⟨candidate, current, leader, leads⟩
  | false =>
    unfold promoteCandidate at won ⊢
    split
    · exact Or.inl rfl
    · rename_i passed
      rw [if_neg passed] at won
      contradiction

/-- Every operation but `BecomeCandidate`, `BecomeLeader` and `promoteCandidate` leaves a follower, for
its reason, or leaves role and term as they are. -/
theorem perform_demotes (unmarshal : Bytes → Option MembershipCommand) (n : RaftNode) (save : Bool)
    {op : Operation} (stays : op ≠ .becomeCandidate) (led : op ≠ .becomeLeader)
    (won : ∀ term, op ≠ .promoteCandidate term) :
    Demotes (Deposes unmarshal n op) n (n.perform unmarshal save op) := by
  cases op with
  | becomeCandidate => exact absurd rfl stays
  | becomeLeader => exact absurd rfl led
  | promoteCandidate term => exact absurd rfl (won term)
  | becomeFollower term =>
    apply Demotes.saved
    split <;> exact Or.inl ⟨rfl, trivial⟩
  | stepDownForHigherTerm term =>
    simp only [perform, stepDownForHigherTerm]
    split
    · exact .refl n
    · rename_i later
      apply Demotes.saved
      exact Or.inl ⟨rfl, Nat.lt_of_not_le later⟩
  | requestVote req => exact n.requestVote_demotes save req
  | handleAppendEntries req =>
    rcases n.handleAppendEntries_demotes save req with same | demoted
    · simp only [perform, same]
      exact .refl n
    · exact Or.inl demoted
  | appendLocal command =>
    simp only [perform]
    rcases n.appendLocal_cases unmarshal save command with ⟨err, same⟩ | same
    · rw [same]
      exact .refl n
    · rw [same]
      unfold appendCommand
      apply Demotes.saved
      split
      · exact Demotes.advanced ((Demotes.refl n).after rfl rfl)
      · exact (Demotes.refl n).after rfl rfl
  | ensureLeaderProgress =>
    simp only [perform, ensureLeaderProgress]
    split
    · exact .refl n
    split
    · exact .refl n
    · obtain ⟨term, role⟩ := n.initLeaderProgressLocked_role
      exact (Demotes.refl n).after role term
  | recordReplicationSuccess peer matchIndex =>
    simp only [perform, recordReplicationSuccess]
    split
    · exact .refl n
    · exact Demotes.advanced ((Demotes.refl n).after rfl rfl)
  | recordReplicationFailure peer =>
    simp only [perform, recordReplicationFailure]
    split
    · exact .refl n
    split
    · exact .refl n
    split
    · exact .refl n
    · exact (Demotes.refl n).after rfl rfl
  | compact snapshot =>
    simp only [perform]
    rcases n.compact_cases save snapshot with same | ⟨-, -, same⟩
    · rw [same]
      exact .refl n
    · rw [same]
      have cut : Demotes (Deposes unmarshal n (.compact snapshot)) n (n.cutAtApplied snapshot) :=
        (Demotes.refl n).after rfl rfl
      exact cut.saved save
  | applyMembershipChange change =>
    have changed := n.applyMembershipChangeLocked_demotes change
    simp only [perform, applyMembershipChange]
    split
    · exact .refl n
    · split
      · rename_i after err applied
        rw [applied] at changed
        exact changed
      · rename_i after applied
        rw [applied] at changed
        exact changed.saved save
  | applyEntry entry =>
    simp only [perform, applyEntry]
    split
    · rename_i change decoded
      have changed : Demotes (Deposes unmarshal n (.applyEntry entry)) n
          (n.applyMembershipChangeLocked change).1 := by
        rcases n.applyMembershipChangeLocked_demotes change with ⟨follower, -⟩ | same
        · exact Or.inl ⟨follower, change, decoded⟩
        · exact Or.inr same
      unfold applyCommittedMembershipChange
      split
      · rename_i after err applied
        rw [applied] at changed
        exact changed
      · rename_i after applied
        rw [applied] at changed
        apply Demotes.saved
        rw [markApplied_eq]
        exact changed.after rfl rfl
    · exact .refl n
  | markApplied index =>
    simp only [perform, markApplied_eq]
    exact (Demotes.refl n).after rfl rfl

/-- What an operation other than `BecomeLeader` does to the role. -/
theorem perform_role (unmarshal : Bytes → Option MembershipCommand) (n : RaftNode) (save : Bool)
    {op : Operation} (own : op ≠ .becomeLeader) : op = .becomeCandidate ∨
      (op = .promoteCandidate n.currentTerm ∧ n.state = .candidate ∧
        (n.perform unmarshal save op).state = .leader ∧
        (n.perform unmarshal save op).currentTerm = n.currentTerm) ∨
      Demotes (Deposes unmarshal n op) n (n.perform unmarshal save op) := by
  by_cases enters : op = .becomeCandidate
  · exact Or.inl enters
  by_cases promotes : ∃ term, op = .promoteCandidate term
  · obtain ⟨term, rfl⟩ := promotes
    rcases n.promoteCandidate_promotes save term with same | ⟨candidate, rfl, leader, after⟩
    · refine Or.inr (Or.inr ?_)
      rw [show n.perform unmarshal save (.promoteCandidate term) = n from same]
      exact .refl n
    · exact Or.inr (Or.inl ⟨rfl, candidate, leader, after⟩)
  · exact Or.inr (Or.inr (n.perform_demotes unmarshal save enters own
      fun term same => promotes ⟨term, same⟩))

/-- Who leads after an operation led before it, in the same term, or was the candidate of the term
that `promoteCandidate` promoted. -/
theorem perform_leads {save : Bool} {op : Operation} (own : op ≠ .becomeLeader)
    (leads : (n.perform unmarshal save op).state = .leader) :
    (n.perform unmarshal save op).currentTerm = n.currentTerm ∧
      (n.state = .leader ∨ n.state = .candidate ∧ op = .promoteCandidate n.currentTerm) := by
  rcases n.perform_role unmarshal save own with
    rfl | ⟨promotes, candidate, -, term⟩ | ⟨follower, -⟩ | ⟨role, term⟩
  · have candidate : (n.perform unmarshal save .becomeCandidate).state = .candidate :=
      (n.becomeCandidate_role save).1
    rw [candidate] at leads
    contradiction
  · exact ⟨term, Or.inr ⟨candidate, promotes⟩⟩
  · rw [follower] at leads
    contradiction
  · exact ⟨term, Or.inl (role ▸ leads)⟩

/-- A candidate after an operation is one that `BecomeCandidate` has just made, or was one before, in
the same term. -/
theorem perform_candidate {save : Bool} {op : Operation} (own : op ≠ .becomeLeader)
    (candidate : (n.perform unmarshal save op).state = .candidate) :
    op = .becomeCandidate ∨
      n.state = .candidate ∧ (n.perform unmarshal save op).currentTerm = n.currentTerm := by
  rcases n.perform_role unmarshal save own with
    enters | ⟨-, -, leader, -⟩ | ⟨follower, -⟩ | ⟨role, term⟩
  · exact Or.inl enters
  · rw [leader] at candidate
    contradiction
  · rw [follower] at candidate
    contradiction
  · exact Or.inr ⟨role ▸ candidate, term⟩

/-- Saving does not touch the log. -/
theorem persistLocked_log (n : RaftNode) (save : Bool) : (n.persistLocked save).1.log = n.log := by
  rcases n.persistLocked_cases save with same | stored
  · rw [same]
  · rw [stored]

/-- `AppendLocal` adds at most one entry, of the node's term. -/
theorem appendLocal_log (n : RaftNode) (save : Bool) (command : Bytes) :
    (n.appendLocal unmarshal save command).node.log = n.log ∨ ∃ entry : LogEntry,
      entry.term = n.currentTerm ∧ entry.command = command ∧
        (n.appendLocal unmarshal save command).node.log = n.log ++ [entry] := by
  rcases n.appendLocal_cases unmarshal save command with ⟨err, same⟩ | same
  · exact Or.inl (by rw [same])
  · rw [same]
    refine Or.inr ⟨⟨n.currentTerm, Word.add n.lastLogIndexLocked 1, command⟩, rfl, rfl, ?_⟩
    unfold appendCommand
    refine (persistLocked_log _ save).trans ?_
    split
    · obtain ⟨index, ready, -, advanced⟩ := advanceCommitLocked_eq
        { n with log := n.log ++ [⟨n.currentTerm, Word.add n.lastLogIndexLocked 1, command⟩] }
      rw [advanced]
    · rfl

/-- `Compact` keeps a suffix of the log. -/
theorem compact_log (n : RaftNode) (save : Bool) (snapshot : Bytes) :
    (n.compact save snapshot).node.log <:+ n.log := by
  rcases n.compact_cases save snapshot with same | ⟨-, -, same⟩
  · rw [same]
  · rw [same]
    have kept : ((n.cutAtApplied snapshot).persisting save ()).node.log = n.retainedAfter n.lastApplied :=
      persistLocked_log _ save
    rw [kept]
    unfold retainedAfter
    split
    · exact List.nil_suffix
    split
    · exact List.nil_suffix
    · exact List.drop_suffix _ _

/-- The log a section leaves to a leader that neither appends nor compacts. -/
theorem perform_log {save : Bool} {op : Operation}
    (leads : (n.perform unmarshal save op).state = .leader)
    (appends : ∀ command, op ≠ .appendLocal command) (compacts : ∀ snapshot, op ≠ .compact snapshot) :
    (n.perform unmarshal save op).log = n.log := by
  by_cases handles : ∃ req, op = .handleAppendEntries req
  · obtain ⟨req, rfl⟩ := handles
    rcases n.handleAppendEntries_demotes save req with same | ⟨follower, -⟩
    · simp only [perform, same]
    · simp only [perform] at leads
      rw [follower] at leads
      contradiction
  · have idle : op.writes = false := by
      cases op with
      | handleAppendEntries req => exact absurd ⟨req, rfl⟩ handles
      | appendLocal command => exact absurd rfl (appends command)
      | compact snapshot => exact absurd rfl (compacts snapshot)
      | _ => rfl
    exact ((n.perform_prepared unmarshal save op).log idle).1

end

end RaftNode

end Raft

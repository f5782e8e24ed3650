import RvKeyValue.Node.Operation

/-!
# The term of a node

Only `BecomeCandidate` makes a term of its own, the next one. Every other operation leaves the term
as it is or raises it to one it was shown: a handler does so when the sender is a member, and
`RequestVote` only on a node that is a member itself.
-/

namespace Raft.RaftNode

/-- The term an operation shows the node, if the node attends to it. -/
def hears (n : RaftNode) : Operation → Option Nat
  | .becomeFollower term => some term
  | .stepDownForHigherTerm term => some term
  | .requestVote req =>
    if n.selfMember && n.isMemberLocked req.candidateID then some req.term else none
  | .handleAppendEntries req => if n.isMemberLocked req.leaderID then some req.term else none
  | _ => none

/-- Saving does not touch the term. -/
theorem persistLocked_term (n : RaftNode) (save : Bool) :
    (n.persistLocked save).1.currentTerm = n.currentTerm := by
  cases n.persistLocked_cases save with
  | inl same => rw [same]
  | inr stored => rw [stored]

/-- The term after a vote request that is attended to. -/
theorem seeTerm_max (n : RaftNode) (term : Nat) : (n.seeTerm term).currentTerm = max n.currentTerm term := by
  unfold seeTerm
  split
  · rename_i later
    exact (Nat.max_eq_right later.le).symm
  · rename_i current
    exact (Nat.max_eq_left (Nat.le_of_not_lt current)).symm

/-- `RequestVote` raises the term to that of a member's request. -/
theorem requestVote_max (n : RaftNode) (save : Bool) (req : RequestVoteRequest) :
    (n.requestVote save req).node.currentTerm =
      max n.currentTerm ((n.hears (.requestVote req)).getD 0) := by
  rw [requestVote_eq]
  split_ifs with refused granted newer
  · rcases refused with stale | left | stranger
    · simp only [hears]
      split
      · exact (Nat.max_eq_left stale.le).symm
      · exact (Nat.max_eq_left (Nat.zero_le _)).symm
    · simp [hears, left]
    · simp [hears, stranger]
  all_goals
    have attends : n.hears (.requestVote req) = some req.term := by
      simp only [not_or, Bool.not_eq_false] at refused
      simp [hears, refused]
    rw [attends, Option.getD_some, ← seeTerm_max]
  · exact persistLocked_term _ _
  · exact persistLocked_term _ _

/-- `HandleAppendEntries` raises the term to that of a member's request. -/
theorem handleAppendEntries_max (n : RaftNode) (save : Bool) (req : AppendEntriesRequest) :
    (n.handleAppendEntries save req).node.currentTerm =
      max n.currentTerm ((n.hears (.handleAppendEntries req)).getD 0) := by
  unfold handleAppendEntries
  by_cases stale : req.term < n.currentTerm
  · rw [if_pos stale]
    simp only [hears]
    split
    · exact (Nat.max_eq_left stale.le).symm
    · exact (Nat.max_eq_left (Nat.zero_le _)).symm
  rw [if_neg stale]
  by_cases stranger : n.isMemberLocked req.leaderID = false
  · rw [if_pos stranger]
    simp [hears, stranger]
  rw [if_neg stranger]
  have current := Nat.le_of_not_lt stale
  have attends : n.hears (.handleAppendEntries req) = some req.term := by
    simp [hears, stranger]
  have following := follow_term current
  have accepting : (n.accept req).currentTerm = req.term := (n.accept_fields req).1.trans following
  rw [attends, Option.getD_some, Nat.max_eq_right current]
  simp only [appendEntriesToLogLocked]
  by_cases mismatch : n.Mismatch req
  · unfold Mismatch at mismatch
    rw [if_pos mismatch]
    dsimp only
    split
    · exact (persistLocked_term _ _).trans following
    · exact following
  · unfold Mismatch at mismatch
    rw [if_neg mismatch]
    dsimp only
    split
    · exact (persistLocked_term _ _).trans accepting
    · exact accepting

/-- `BecomeCandidate` enters the next term. -/
theorem becomeCandidate_term (n : RaftNode) (save : Bool) :
    (n.becomeCandidate save).node.currentTerm = Word.add n.currentTerm 1 :=
  persistLocked_term _ _

/-- It makes the node a candidate that has voted for itself. -/
theorem becomeCandidate_role (n : RaftNode) (save : Bool) :
    (n.becomeCandidate save).node.state = .candidate ∧ (n.becomeCandidate save).node.votedFor = n.id ∧
      (n.becomeCandidate save).node.id = n.id := by
  unfold becomeCandidate persisting
  dsimp only
  cases RaftNode.persistLocked_cases { n with
      state := .candidate, leaderID := "", nextIndex := none, matchIndex := none
      currentTerm := Word.add n.currentTerm 1, votedFor := n.id } save with
  | inl same => rw [same]; exact ⟨rfl, rfl, rfl⟩
  | inr stored => rw [stored]; exact ⟨rfl, rfl, rfl⟩

/-- Every other operation leaves the term or raises it to the one it shows. -/
theorem perform_term (unmarshal : Bytes → Option MembershipCommand) (n : RaftNode) (save : Bool)
    {op : Operation} (other : op ≠ .becomeCandidate) :
    (n.perform unmarshal save op).currentTerm = max n.currentTerm ((n.hears op).getD 0) := by
  -- an operation that shows no term
  have same : ∀ {m : RaftNode}, m.currentTerm = n.currentTerm →
      m.currentTerm = max n.currentTerm ((none : Option Nat).getD 0) :=
    fun kept => kept.trans (Nat.max_eq_left (Nat.zero_le _)).symm
  cases op with
  | becomeCandidate => exact absurd rfl other
  | becomeFollower term =>
    refine (persistLocked_term _ _).trans ?_
    split
    · rename_i later
      exact (Nat.max_eq_right later.le).symm
    · rename_i current
      exact (Nat.max_eq_left (Nat.le_of_not_lt current)).symm
  | stepDownForHigherTerm term =>
    simp only [perform, stepDownForHigherTerm]
    split
    · rename_i current
      exact (Nat.max_eq_left current).symm
    · rename_i later
      have raised : max n.currentTerm term = term := Nat.max_eq_right (by omega)
      exact (persistLocked_term _ _).trans raised.symm
  | requestVote req => exact n.requestVote_max save req
  | handleAppendEntries req => exact n.handleAppendEntries_max save req
  | becomeLeader =>
    exact same ((persistLocked_term _ _).trans (initLeaderProgressLocked_role _).1)
  | promoteCandidate term =>
    refine same ?_
    simp only [perform, promoteCandidate]
    split
    · rfl
    · exact (persistLocked_term _ _).trans (initLeaderProgressLocked_role _).1
  | appendLocal command =>
    refine same ?_
    rcases n.appendLocal_cases unmarshal save command with ⟨err, refused⟩ | appended
    · simp only [perform, refused]
    · simp only [perform, appended, appendCommand]
      refine (persistLocked_term _ _).trans ?_
      split
      · exact (advanceCommitLocked_role _).1
      · rfl
  | ensureLeaderProgress =>
    refine same ?_
    simp only [perform, ensureLeaderProgress]
    split
    · rfl
    split
    · rfl
    · exact (initLeaderProgressLocked_role _).1
  | recordReplicationSuccess peer matchIndex => exact same (n.recordReplicationSuccess_term peer matchIndex)
  | recordReplicationFailure peer => exact same (n.recordReplicationFailure_term peer)
  | compact snapshot =>
    refine same ?_
    rcases n.compact_cases save snapshot with kept | ⟨-, -, cut⟩
    · simp only [perform, kept]
    · simp only [perform, cut]
      exact persistLocked_term _ _
  | applyMembershipChange change =>
    refine same ?_
    cases valid : change.validate with
    | error err => simp [perform, applyMembershipChange, valid]
    | ok done =>
      obtain ⟨m, applied, result⟩ := n.applyMembershipChange_eq save valid
      simp only [perform, result]
      exact (persistLocked_term _ _).trans applied.term
  | applyEntry entry =>
    refine same ?_
    rcases n.applyEntry_cases save unmarshal entry with kept | ⟨change, m, -, applied, result⟩
    · simp only [perform, kept]
    · simp only [perform, result, markApplied_eq]
      exact (persistLocked_term _ _).trans applied.term
  | markApplied index =>
    refine same ?_
    simp only [perform, markApplied_eq]

/-- No operation lowers the term, if the term after it is a word. -/
theorem perform_term_le (unmarshal : Bytes → Option MembershipCommand) (n : RaftNode) (save : Bool)
    {op : Operation} (fits : op = .becomeCandidate → n.currentTerm + 1 < Word.limit) :
    n.currentTerm ≤ (n.perform unmarshal save op).currentTerm := by
  by_cases enters : op = .becomeCandidate
  · have term := n.becomeCandidate_term save
    rw [Word.add_eq (fits enters)] at term
    subst enters
    show n.currentTerm ≤ (n.becomeCandidate save).node.currentTerm
    omega
  · rw [n.perform_term unmarshal save enters]
    exact Nat.le_max_left _ _

end Raft.RaftNode

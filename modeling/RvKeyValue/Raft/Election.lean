import RvKeyValue.Raft.Progress

/-!
# Election sections

The role changes and vote handlers of `raft/node.go` and the sections of `StartElection` in
`raft/election.go`.
-/

namespace Raft.RaftNode

/-- `BecomeFollower`. -/
def becomeFollower (n : RaftNode) (save : Bool) (term : Nat) : Outcome Unit :=
  let left := { n with state := .follower, leaderID := "", nextIndex := none, matchIndex := none }
  let moved := if n.currentTerm < term then { left with currentTerm := term, votedFor := "" } else left
  moved.persisting save ()

/-- `BecomeCandidate` — enter the next term and vote for oneself. -/
def becomeCandidate (n : RaftNode) (save : Bool) : Outcome Unit :=
  { n with
    state := .candidate
    leaderID := ""
    nextIndex := none
    matchIndex := none
    currentTerm := Word.add n.currentTerm 1
    votedFor := n.id }.persisting save ()

/-- `BecomeLeader`. -/
def becomeLeader (n : RaftNode) (save : Bool) : Outcome Unit :=
  { n with state := .leader, leaderID := n.id }.initLeaderProgressLocked.persisting save ()

/-- The reset a node makes when a request or response shows a later term. -/
def adoptTerm (n : RaftNode) (term : Nat) : RaftNode :=
  { n with
    currentTerm := term
    votedFor := ""
    leaderID := ""
    nextIndex := none
    matchIndex := none }

/-- `RequestVote`. -/
def requestVote (n : RaftNode) (save : Bool) (req : RequestVoteRequest) :
    Outcome RequestVoteResponse :=
  if req.term < n.currentTerm then ⟨n, ⟨n.currentTerm, false⟩, none⟩
  else if n.selfMember = false then ⟨n, ⟨n.currentTerm, false⟩, none⟩
  else if n.isMemberLocked req.candidateID = false then ⟨n, ⟨n.currentTerm, false⟩, none⟩
  else
    let newer := decide (n.currentTerm < req.term)
    let seen := if newer then { n.adoptTerm req.term with state := .follower } else n
    let canVoteForCandidate := seen.votedFor == "" || seen.votedFor == req.candidateID
    let logIsFreshEnough := isLogAtLeastUpToDate req.lastLogIndex req.lastLogTerm
      seen.lastLogIndexLocked seen.lastLogTermLocked
    if canVoteForCandidate && logIsFreshEnough then
      { seen with votedFor := req.candidateID }.persisting save ⟨seen.currentTerm, true⟩
    else if newer then seen.persisting save ⟨seen.currentTerm, false⟩
    else ⟨seen, ⟨seen.currentTerm, false⟩, none⟩

/-- The part of `RequestVote` that adopts a later term. -/
def seeTerm (n : RaftNode) (term : Nat) : RaftNode :=
  if n.currentTerm < term then { n.adoptTerm term with state := .follower } else n

/-- `RequestVote` as one decision: refuse a request that is not attended to; otherwise see its term, and
vote if the vote is free and the log is fresh enough. -/
theorem requestVote_eq (n : RaftNode) (save : Bool) (req : RequestVoteRequest) :
    n.requestVote save req =
      if req.term < n.currentTerm ∨ n.selfMember = false ∨ n.isMemberLocked req.candidateID = false then
        ⟨n, ⟨n.currentTerm, false⟩, none⟩
      else if ((n.seeTerm req.term).votedFor = "" ∨ (n.seeTerm req.term).votedFor = req.candidateID) ∧
          isLogAtLeastUpToDate req.lastLogIndex req.lastLogTerm
            (n.seeTerm req.term).lastLogIndexLocked (n.seeTerm req.term).lastLogTermLocked = true then
        { n.seeTerm req.term with votedFor := req.candidateID }.persisting save
          ⟨(n.seeTerm req.term).currentTerm, true⟩
      else if n.currentTerm < req.term then
        (n.seeTerm req.term).persisting save ⟨(n.seeTerm req.term).currentTerm, false⟩
      else ⟨n.seeTerm req.term, ⟨(n.seeTerm req.term).currentTerm, false⟩, none⟩ := by
  have shape : (if decide (n.currentTerm < req.term) = true then
      { n.adoptTerm req.term with state := .follower } else n) = n.seeTerm req.term := by
    simp [seeTerm]
  unfold requestVote
  simp only [shape]
  by_cases stale : req.term < n.currentTerm
  · rw [if_pos stale, if_pos (Or.inl stale)]
  by_cases left : n.selfMember = false
  · rw [if_neg stale, if_pos left, if_pos (Or.inr (Or.inl left))]
  by_cases stranger : n.isMemberLocked req.candidateID = false
  · rw [if_neg stale, if_neg left, if_pos stranger, if_pos (Or.inr (Or.inr stranger))]
  · have attended : ¬ (req.term < n.currentTerm ∨ n.selfMember = false ∨
        n.isMemberLocked req.candidateID = false) := by
      simp only [not_or]
      exact ⟨stale, left, stranger⟩
    rw [if_neg stale, if_neg left, if_neg stranger, if_neg attended]
    simp only [Bool.and_eq_true, Bool.or_eq_true, beq_iff_eq, decide_eq_true_eq]

/-- What `RequestVote` does: refuse as it is, vote and save, adopt a later term and save, or refuse
in the term it is in. -/
theorem requestVote_cases (n : RaftNode) (save : Bool) (req : RequestVoteRequest) :
    n.requestVote save req = ⟨n, ⟨n.currentTerm, false⟩, none⟩ ∨
    n.currentTerm ≤ req.term ∧
      ((((n.seeTerm req.term).votedFor = "" ∨ (n.seeTerm req.term).votedFor = req.candidateID) ∧
          isLogAtLeastUpToDate req.lastLogIndex req.lastLogTerm
            (n.seeTerm req.term).lastLogIndexLocked (n.seeTerm req.term).lastLogTermLocked = true ∧
          n.requestVote save req = { n.seeTerm req.term with votedFor := req.candidateID }.persisting
            save ⟨(n.seeTerm req.term).currentTerm, true⟩) ∨
        n.currentTerm < req.term ∧ n.requestVote save req =
          (n.seeTerm req.term).persisting save ⟨(n.seeTerm req.term).currentTerm, false⟩) := by
  rw [requestVote_eq]
  split_ifs with refused granted newer
  · exact Or.inl rfl
  · exact Or.inr ⟨Nat.le_of_not_lt fun stale => refused (Or.inl stale), Or.inl ⟨granted.1, granted.2, rfl⟩⟩
  · exact Or.inr ⟨newer.le, Or.inr ⟨newer, rfl⟩⟩
  · have unmoved : n.seeTerm req.term = n := if_neg newer
    rw [unmoved]
    exact Or.inl rfl

/-- The term after a vote request of no earlier term. -/
theorem seeTerm_term {n : RaftNode} {term : Nat} (current : n.currentTerm ≤ term) :
    (n.seeTerm term).currentTerm = term := by
  unfold seeTerm
  split
  · rfl
  · omega

/-- Adopting a term does not touch the store. -/
theorem seeTerm_store (n : RaftNode) (term : Nat) : (n.seeTerm term).store = n.store := by
  unfold seeTerm
  split <;> rfl

/-- A vote is granted for a term that is not older than the voter's. -/
theorem requestVote_term {n : RaftNode} {save : Bool} {req : RequestVoteRequest}
    (granted : (n.requestVote save req).value.voteGranted = true) : n.currentTerm ≤ req.term := by
  cases n.requestVote_cases save req with
  | inl refused => rw [refused] at granted; contradiction
  | inr seen => exact seen.1

/-- Only a member grants its vote. -/
theorem requestVote_member (n : RaftNode) {save : Bool} {req : RequestVoteRequest}
    (granted : (n.requestVote save req).value.voteGranted = true) : n.selfMember = true := by
  by_contra removed
  rw [Bool.not_eq_true] at removed
  rw [requestVote_eq, if_pos (Or.inr (Or.inl removed))] at granted
  contradiction

/-- A vote granted without an error is stored, with the term it is for. -/
theorem requestVote_granted {n : RaftNode} {save : Bool} {req : RequestVoteRequest}
    {state : PersistentState} (store : n.store = some state)
    (noError : (n.requestVote save req).err = none)
    (granted : (n.requestVote save req).value.voteGranted = true) :
    ∃ stored, (n.requestVote save req).node.store = some stored ∧
      stored.currentTerm = req.term ∧ stored.votedFor = req.candidateID := by
  cases n.requestVote_cases save req with
  | inl refused => rw [refused] at granted; contradiction
  | inr seen =>
    obtain ⟨current, answer⟩ := seen
    cases answer with
    | inr adopted => rw [adopted.2] at granted; contradiction
    | inl voted =>
      obtain ⟨-, -, answered⟩ := voted
      rw [answered] at noError ⊢
      have kept : RaftNode.store { n.seeTerm req.term with votedFor := req.candidateID } =
          some state := (n.seeTerm_store req.term).trans store
      exact ⟨_, persisting_stored kept noError, seeTerm_term current, rfl⟩

/-- `PreVote` — answers without changing anything. -/
def preVote (n : RaftNode) (req : PreVoteRequest) : PreVoteResponse :=
  if req.term < n.currentTerm then ⟨n.currentTerm, false⟩
  else if n.selfMember = false then ⟨n.currentTerm, false⟩
  else if n.isMemberLocked req.candidateID = false then ⟨n.currentTerm, false⟩
  else ⟨n.currentTerm, isLogAtLeastUpToDate req.lastLogIndex req.lastLogTerm
    n.lastLogIndexLocked n.lastLogTermLocked⟩

/-- `stepDownForHigherTerm` — whether the node stepped down. -/
def stepDownForHigherTerm (n : RaftNode) (save : Bool) (term : Nat) : Outcome Bool :=
  if term ≤ n.currentTerm then ⟨n, false, none⟩
  else { n.adoptTerm term with state := .follower }.persisting save true

/-- A node that does not step down is not touched. -/
theorem stepDownForHigherTerm_stays {n : RaftNode} {save : Bool} {term : Nat}
    (stays : (n.stepDownForHigherTerm save term).value = false) :
    (n.stepDownForHigherTerm save term).node = n := by
  unfold stepDownForHigherTerm at stays ⊢
  split at stays
  · rw [if_pos (by assumption)]
  · contradiction

/-- `isCandidateForTerm`. -/
def isCandidateForTerm (n : RaftNode) (term : Nat) : Bool :=
  decide (n.state = .candidate) && decide (n.currentTerm = term)

/-- `promoteCandidate` — whether the node became leader. -/
def promoteCandidate (n : RaftNode) (save : Bool) (term : Nat) : Outcome Bool :=
  if n.state ≠ .candidate ∨ n.currentTerm ≠ term ∨ n.selfMember = false then ⟨n, false, none⟩
  else { n with state := .leader, leaderID := n.id }.initLeaderProgressLocked.persisting save true

/-- A promotion finds a candidate of the term. -/
theorem promoteCandidate_promoted {n : RaftNode} {save : Bool} {term : Nat}
    (promoted : (n.promoteCandidate save term).value = true) :
    n.state = .candidate ∧ n.currentTerm = term := by
  unfold promoteCandidate at promoted
  split at promoted
  · contradiction
  · rename_i passed
    rw [not_or, not_or, not_not, not_not] at passed
    exact ⟨passed.1, passed.2.1⟩

/-- A promoted node leads the term. -/
theorem promoteCandidate_leads {n : RaftNode} {save : Bool} {term : Nat}
    (promoted : (n.promoteCandidate save term).value = true) :
    (n.promoteCandidate save term).node.currentTerm = term ∧
      (n.promoteCandidate save term).node.state = .leader := by
  have current := (promoteCandidate_promoted promoted).2
  unfold promoteCandidate at promoted ⊢
  split at promoted
  · contradiction
  · rename_i passed
    have role := initLeaderProgressLocked_role { n with state := .leader, leaderID := n.id }
    rw [if_neg passed]
    generalize RaftNode.initLeaderProgressLocked _ = m at role
    show (m.persistLocked save).1.currentTerm = term ∧ (m.persistLocked save).1.state = .leader
    cases m.persistLocked_cases save with
    | inl same => rw [same]; exact ⟨role.1.trans current, role.2⟩
    | inr stored => rw [stored]; exact ⟨role.1.trans current, role.2⟩

/-- The request `StartElection` builds from its `electionSnapshot`. -/
def voteRequest (n : RaftNode) : RequestVoteRequest :=
  ⟨n.currentTerm, n.id, n.lastLogIndexLocked, n.lastLogTermLocked⟩

/-- The request `PreVoteElection` builds from its `electionSnapshot`. -/
def preVoteRequest (n : RaftNode) : PreVoteRequest :=
  ⟨Word.add n.currentTerm 1, n.id, n.lastLogIndexLocked, n.lastLogTermLocked⟩

end Raft.RaftNode

import RvKeyValue.Cluster.Refinement

/-!
# Election sections refine the protocol

Stepping down is moving to a later term; `RequestVote` moves and then votes; `BecomeCandidate`
moves to the next term and votes for itself. Each section saves before it answers, so the
store is in step with the record again at its end.
-/

namespace Raft

open ReplicatedLog (Step lastTerm)

section

variable {members : Members} {id : NodeId} {n : RaftNode} {a : Protocol}

/-- The store is in step with the record. -/
def Persists (members : Members) (id : NodeId) (n : RaftNode) : Prop :=
  ∃ state, Stored members id n state

/-- A record with a store that refines its node is in step with it after a save. -/
theorem Refines.persists (refines : Refines members id n a) {state : PersistentState}
    (store : n.store = some state) : Persists members id (n.persistLocked true).1 :=
  ⟨_, (persisted_stored refines store).2⟩

/-- Saving at the end of a section moves nothing. -/
theorem Advance.saved {n' : RaftNode} {a' : Protocol} (advance : Advance members id n n' a a') :
    Advance members id n (n'.persistLocked true).1 a a' :=
  advance.trans (.stay advance.good advance.refines (persisted_core n' true))

/-- The stored fields matter, the others do not. -/
theorem Persists.congr {n' : RaftNode} (persists : Persists members id n)
    (store : n'.store = n.store) (term : n'.currentTerm = n.currentTerm)
    (vote : n'.votedFor = n.votedFor) (log : n'.log = n.log)
    (included : n'.lastIncludedIndex = n.lastIncludedIndex)
    (includedTerm : n'.lastIncludedTerm = n.lastIncludedTerm) : Persists members id n' := by
  obtain ⟨state, stored⟩ := persists
  refine ⟨state, ?_, ?_, ?_, ?_, ?_, ?_, stored.peers, stored.selfMember⟩
  · rw [store]; exact stored.store
  · rw [term]; exact stored.term
  · rw [vote]; exact stored.vote
  · rw [log]; exact stored.log
  · rw [included]; exact stored.included
  · rw [includedTerm]; exact stored.includedTerm

/-- The last term the record reads is that of the abstract log. -/
theorem lastTerm_eq (log : List LogEntry) : lastTerm LogEntry.term log = termAt log log.length := by
  unfold lastTerm termAt
  rw [List.getLast?_eq_getElem?]
  split
  · rename_i empty
    rw [List.length_eq_zero_iff.mp empty]
    rfl
  · rfl

section Steps

/-- Moving to a later term keeps the protocol good. -/
theorem Good.raise (good : Good members a) {term : Nat} (later : a.term id < term) :
    Good members (a.raise id term) where
  inv := good.inv.step (.raise id term later)
  indexed := good.indexed
  bounded := good.bounded

/-- A vote keeps the protocol good. -/
theorem Good.castVote (good : Good members a) {candidate : NodeId}
    (free : ∀ other, a.vote id = some other → other = candidate) :
    Good members (a.castVote id candidate) where
  inv := good.inv.step (.castVote id candidate free)
  indexed := good.indexed
  bounded := good.bounded

end Steps

/-- Adopting a later term as a follower is moving to that term. -/
theorem Refines.adopt (good : Good members a) (refines : Refines members id n a) {term : Nat}
    (later : n.currentTerm < term) (fits : term < Word.limit) (leader : NodeId) :
    Advance members id n { n.adoptTerm term with state := .follower, leaderID := leader } a
      (a.raise id term) := by
  have above : a.term id < term := by rw [← refines.term]; exact later
  have grows := Step.grows good.inv (.raise id term above)
  have termNow : (a.raise id term).term id = term := by simp [ReplicatedLog.State.raise]
  have voteNow : (a.raise id term).vote id = none := by simp [ReplicatedLog.State.raise]
  refine ⟨good.raise above, grows, a.raise_onlyAt id term, ?_, later.le, le_refl _, rfl, rfl,
    fun role => absurd role (by simp)⟩
  exact {
    member := refines.member
    own := refines.own
    peers := refines.peers
    selfMember := refines.selfMember
    term := termNow.symm
    termFits := by rw [termNow]; exact fits
    vote := voteNow
    log := refines.log.congr rfl rfl rfl
    commit := refines.commit.grow grows (by rw [termNow]; exact above.le)
    commitLe := refines.commitLe
    appliedLe := refines.appliedLe
    includedLe := refines.includedLe
    leads := fun role => absurd role (by simp)
    progress := fun role => absurd role (by simp)
    idle := fun _ => ⟨rfl, rfl⟩
    candidate := fun role => absurd role (by simp) }

/-- Setting the vote when it is free is voting. -/
theorem Refines.setVote (good : Good members a) (refines : Refines members id n a)
    {candidate : NodeId} (named : candidate ≠ "")
    (free : n.votedFor = "" ∨ n.votedFor = candidate) :
    Advance members id n { n with votedFor := candidate } a (a.castVote id candidate) := by
  have unspent : ∀ other, a.vote id = some other → other = candidate := by
    intro other voted
    rw [refines.vote] at voted
    split at voted
    · contradiction
    · rename_i spent
      have chosen : n.votedFor = candidate := free.resolve_left spent
      rw [chosen] at voted
      exact (Option.some.inj voted).symm
  have grows := Step.grows good.inv (.castVote id candidate unspent)
  have voteNow : (a.castVote id candidate).vote id = some candidate := by
    simp [ReplicatedLog.State.castVote]
  refine ⟨good.castVote unspent, grows, a.castVote_onlyAt id candidate, ?_, le_refl _, le_refl _, rfl,
    rfl, fun role _ => ⟨role, rfl, rfl⟩⟩
  have framed : Refines members id n { a.castVote id candidate with vote := a.vote } :=
    refines.frame ⟨grows.term, grows.elected, grows.leaderLog, grows.granted, grows.acked⟩ rfl rfl rfl
  exact { framed with
    vote := by rw [voteNow, if_neg named]
    log := framed.log.congr rfl rfl rfl
    commit := refines.commit.grow grows (le_refl _)
    progress := fun role => ⟨(framed.progress role).maps, (framed.progress role).peer,
      (framed.progress role).stranger⟩ }

/-- `stepDownForHigherTerm` moves to the response's term when that is later. -/
theorem stepDown_advance (good : Good members a) (refines : Refines members id n a)
    (persists : Persists members id n) {term : Nat} (fits : term < Word.limit) :
    (n.stepDownForHigherTerm true term).err = none ∧
    Persists members id (n.stepDownForHigherTerm true term).node ∧
    ∃ a', Advance members id n (n.stepDownForHigherTerm true term).node a a' := by
  unfold RaftNode.stepDownForHigherTerm
  by_cases old : term ≤ n.currentTerm
  · rw [if_pos old]
    exact ⟨rfl, persists, a, .stay good refines ⟨rfl, rfl, rfl, rfl, rfl, rfl, rfl, rfl, rfl, rfl,
      rfl, rfl, rfl⟩⟩
  · rw [if_neg old]
    obtain ⟨state, stored⟩ := persists
    have moved := refines.adopt good (Nat.lt_of_not_le old) fits ""
    have saved := persisted_stored moved.refines stored.store
    exact ⟨saved.1, ⟨_, saved.2⟩, _, moved.saved⟩

/-- The voter's log at the vote was no fresher than the request says. -/
def VoteOk (a : Protocol) (voter : NodeId) (req : RequestVoteRequest) : Prop :=
  ∃ log, a.granted voter req.term req.candidateID log ∧
    isLogAtLeastUpToDate req.lastLogIndex req.lastLogTerm log.length (lastTerm LogEntry.term log) =
      true

/-- What the record compares a candidate with. -/
theorem Refines.freshness (refines : Refines members id n a) (lastLogIndex lastLogTerm : Nat) :
    isLogAtLeastUpToDate lastLogIndex lastLogTerm n.lastLogIndexLocked n.lastLogTermLocked =
      isLogAtLeastUpToDate lastLogIndex lastLogTerm (a.log id).length
        (lastTerm LogEntry.term (a.log id)) := by
  rw [refines.log.lastLogIndex, refines.log.lastLogTerm, lastTerm_eq]

/-- Adopting the term of a request that is not older moves to exactly that term. -/
theorem Refines.see (good : Good members a) (refines : Refines members id n a) {term : Nat}
    (current : n.currentTerm ≤ term) (fits : term < Word.limit) :
    (n.seeTerm term).store = n.store ∧ (n.seeTerm term).currentTerm = term ∧
      ∃ a', Advance members id n (n.seeTerm term) a a' := by
  unfold RaftNode.seeTerm
  by_cases later : n.currentTerm < term
  · rw [if_pos later]
    exact ⟨rfl, rfl, _, refines.adopt good later fits ""⟩
  · rw [if_neg later]
    exact ⟨rfl, by omega, a, .stay good refines ⟨rfl, rfl, rfl, rfl, rfl, rfl, rfl, rfl, rfl, rfl,
      rfl, rfl, rfl⟩⟩

/-- `RequestVote` adopts a later term and votes when it may; a granted vote is recorded. -/
theorem requestVote_advance (good : Good members a) (refines : Refines members id n a)
    (persists : Persists members id n) (req : RequestVoteRequest) (named : req.candidateID ≠ "")
    (fits : req.term < Word.limit) :
    (n.requestVote true req).err = none ∧
    (n.requestVote true req).value.term < Word.limit ∧
    Persists members id (n.requestVote true req).node ∧
    ∃ a', Advance members id n (n.requestVote true req).node a a' ∧
      ((n.requestVote true req).value.voteGranted = true →
        VoteOk a' id req ∧ a'.term id = req.term) := by
  cases n.requestVote_cases true req with
  | inl refused =>
    rw [refused]
    have bound : n.currentTerm < Word.limit := by rw [refines.term]; exact refines.termFits
    exact ⟨rfl, bound, persists, a, .stay good refines ⟨rfl, rfl, rfl, rfl, rfl, rfl, rfl, rfl, rfl,
      rfl, rfl, rfl, rfl⟩, by simp⟩
  | inr seen =>
    obtain ⟨current, answer⟩ := seen
    obtain ⟨store, reached, a₁, moved⟩ := refines.see good current fits
    obtain ⟨state, stored⟩ := persists
    have seenStore : (n.seeTerm req.term).store = some state := store.trans stored.store
    have seenBound : (n.seeTerm req.term).currentTerm < Word.limit := by rw [reached]; exact fits
    cases answer with
    | inl granted =>
      obtain ⟨free, fresh, granted⟩ := granted
      rw [granted]
      rw [moved.refines.freshness] at fresh
      have voted := moved.refines.setVote moved.good named free
      have saved := persisted_stored voted.refines seenStore
      refine ⟨saved.1, seenBound, ⟨_, saved.2⟩, _, (moved.trans voted).saved, fun _ => ⟨?_, ?_⟩⟩
      · refine ⟨a₁.log id, Or.inr ⟨rfl, ?_, rfl, rfl⟩, fresh⟩
        rw [← moved.refines.term, reached]
      · exact moved.refines.term.symm.trans reached
    | inr adopted =>
      rw [adopted.2]
      have saved := persisted_stored moved.refines seenStore
      exact ⟨saved.1, seenBound, ⟨_, saved.2⟩, a₁, moved.saved, by simp [RaftNode.persisting]⟩

/-- `BecomeCandidate` moves to the next term and votes for itself. -/
theorem becomeCandidate_advance (good : Good members a) (refines : Refines members id n a)
    (persists : Persists members id n) (fits : n.currentTerm + 1 < Word.limit) :
    (n.becomeCandidate true).err = none ∧
    Persists members id (n.becomeCandidate true).node ∧
    ∃ a', Advance members id n (n.becomeCandidate true).node a a' := by
  obtain ⟨state, stored⟩ := persists
  have next : Word.add n.currentTerm 1 = n.currentTerm + 1 := Word.add_eq fits
  have moved := refines.adopt good (Nat.lt_succ_self n.currentTerm) fits ""
  have voted := moved.refines.setVote moved.good (members.named id refines.member) (Or.inl rfl)
  have both := moved.trans voted
  -- the record is the follower's of the new term, with the vote and the candidate's role
  let follower : RaftNode :=
    { n.adoptTerm (n.currentTerm + 1) with state := .follower, leaderID := "", votedFor := id }
  let running : RaftNode := { follower with state := .candidate }
  have refined : Refines members id running
      ((a.raise id (n.currentTerm + 1)).castVote id id) := by
    exact { both.refines with
      log := both.refines.log.congr rfl rfl rfl
      leads := fun role => absurd role (by simp [running])
      progress := fun role => absurd role (by simp [running])
      idle := fun _ => ⟨rfl, rfl⟩
      candidate := fun _ => ⟨by simp [ReplicatedLog.State.castVote, ReplicatedLog.State.raise],
        Or.inr ⟨rfl, rfl, rfl, rfl⟩⟩ }
  have advance : Advance members id n running a ((a.raise id (n.currentTerm + 1)).castVote id id) :=
    { both with
      refines := refined
      steady := fun _ old => absurd old (by simp [running, follower, RaftNode.adoptTerm]) }
  have same : n.becomeCandidate true = running.persisting true () := by
    unfold RaftNode.becomeCandidate
    rw [next]
    simp only [running, follower, RaftNode.adoptTerm, refines.own]
  rw [same]
  have saved := persisted_stored refined stored.store
  exact ⟨saved.1, ⟨_, saved.2⟩, _, advance.saved⟩

end

end Raft

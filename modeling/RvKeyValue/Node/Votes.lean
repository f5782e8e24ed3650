import RvKeyValue.Node.Recovery

/-!
# One vote in each term

A node remembers its vote in `votedFor`, stores it, and reads it back after a restart, so it does
not vote twice in a term. The code that applies the node's own removal clears the vote without
entering another term: a node that is removed and comes back in the same term votes again.
-/

namespace Raft

open Transition (Reach)

/-- A node and the votes it has given: term and candidate. -/
structure VoteRecord where
  /-- The node. -/
  node : RaftNode
  /-- Votes given, oldest first. -/
  votes : List (Nat × NodeId) := []

/-- The vote an event gives: a candidate votes for itself, and `RequestVote` may grant one. -/
def RaftNode.gives (n : RaftNode) : NodeEvent → Option (Nat × NodeId)
  | .perform .becomeCandidate _ => some (Word.add n.currentTerm 1, n.id)
  | .perform (.requestVote req) save =>
    if (n.requestVote save req).value.voteGranted then some (req.term, req.candidateID) else none
  | _ => none

/-- The change an event applies. -/
def NodeEvent.change (unmarshal : Bytes → Option MembershipCommand) : NodeEvent → Option MembershipChange
  | .perform (.applyMembershipChange change) _ => some change
  | .perform (.applyEntry entry) _ =>
    match decodeMembershipChange unmarshal entry.command with
    | some (.ok change) => some change
    | _ => none
  | _ => none

namespace VoteRecord

/-- One event, with the vote it gives. -/
def next (unmarshal : Bytes → Option MembershipCommand) (peers : List NodeId) (b : VoteRecord)
    (event : NodeEvent) : Option VoteRecord :=
  (b.node.next unmarshal peers event).map fun node =>
    { node, votes := b.votes ++ (b.node.gives event).toList }

/-- A node that was removed and has forgotten its vote is added again only in a term in which it has
not voted. -/
def rejoinsLater (unmarshal : Bytes → Option MembershipCommand) (b : VoteRecord) (event : NodeEvent) : Bool :=
  if event.change unmarshal = some ⟨.addPeer, b.node.id⟩ ∧ b.node.selfMember = false ∧
      b.node.votedFor = "" then
    b.votes.all fun vote => decide (vote.1 ≠ b.node.currentTerm)
  else true

/-- The term a candidate enters is a word. -/
def termFits (b : VoteRecord) : NodeEvent → Bool
  | .perform .becomeCandidate _ => decide (b.node.currentTerm + 1 < Word.limit)
  | _ => true

/-- Votes are asked for by somebody. -/
def candidateNamed : NodeEvent → Bool
  | .perform (.requestVote req) _ => decide (req.candidateID ≠ "")
  | _ => true

end VoteRecord

/-- Saves succeed, terms do not wrap, candidates have names, and a node that was removed comes back in
a term in which it has not voted. -/
def KeepsVote (unmarshal : Bytes → Option MembershipCommand) (b : VoteRecord) (event : NodeEvent) : Prop :=
  event.saves = true ∧ b.termFits event = true ∧ VoteRecord.candidateNamed event = true ∧
    b.rejoinsLater unmarshal event = true

instance (unmarshal : Bytes → Option MembershipCommand) (b : VoteRecord) (event : NodeEvent) :
    Decidable (KeepsVote unmarshal b event) := by
  unfold KeepsVote
  infer_instance

section

variable {unmarshal : Bytes → Option MembershipCommand} {peers : List NodeId} {n m : RaftNode}
  {votes : List (Nat × NodeId)}

/-- Saving changes neither term, vote nor membership in memory. -/
theorem RaftNode.persistLocked_fields (n : RaftNode) (save : Bool) :
    (n.persistLocked save).1.currentTerm = n.currentTerm ∧
      (n.persistLocked save).1.votedFor = n.votedFor ∧
      (n.persistLocked save).1.selfMember = n.selfMember := by
  cases n.persistLocked_cases save with
  | inl same => rw [same]; exact ⟨rfl, rfl, rfl⟩
  | inr stored => rw [stored]; exact ⟨rfl, rfl, rfl⟩

/-- What is stored of a voter. -/
def VoterStored (n : RaftNode) : Prop :=
  ∃ state, n.store = some state ∧ state.consensus = n.consensus ∧
    state.selfMember.getD true = n.selfMember

/-- The votes a node has given, against what it remembers. -/
structure VoteKept (n : RaftNode) (votes : List (Nat × NodeId)) : Prop where
  /-- What is stored is what the node remembers. -/
  stored : VoterStored n
  /-- No vote is in a later term. -/
  past : ∀ vote ∈ votes, vote.1 ≤ n.currentTerm
  /-- The vote in the current term is remembered, unless the node was removed. -/
  present : ∀ vote ∈ votes, vote.1 = n.currentTerm →
    n.votedFor = vote.2 ∨ n.votedFor = "" ∧ n.selfMember = false
  /-- Votes are for somebody. -/
  named : ∀ vote ∈ votes, vote.2 ≠ ""
  /-- One vote in each term. -/
  once : ∀ left ∈ votes, ∀ right ∈ votes, left.1 = right.1 → left.2 = right.2

/-- An operation whose save succeeds leaves the voter stored. -/
theorem VoterStored.perform (stored : VoterStored n) (op : Operation) :
    VoterStored (n.perform unmarshal true op) := by
  obtain ⟨state, there, consensus, member⟩ := stored
  rcases n.perform_saves unmarshal true op with kept | ⟨m, saved, store, -⟩
  · have same := Option.some.inj (congrArg PersistentState.selfMember kept.state)
    refine ⟨state, kept.store.trans there, ?_, member.trans same.symm⟩
    rw [RaftNode.consensus, kept.state]
    exact consensus
  · rw [saved, RaftNode.persistLocked, store, there]
    exact ⟨_, rfl, rfl, rfl⟩

namespace VoteKept

/-- The node moves, keeping its vote or entering a later term. -/
theorem move (kept : VoteKept n votes) (stored : VoterStored m)
    (member : m.selfMember = n.selfMember)
    (vote : m.currentTerm = n.currentTerm ∧ m.votedFor = n.votedFor ∨ n.currentTerm < m.currentTerm) :
    VoteKept m votes := by
  refine ⟨stored, fun given listed => ?_, fun given listed now => ?_, kept.named, kept.once⟩
  · have past := kept.past given listed
    omega
  · have past := kept.past given listed
    rcases vote with ⟨term, vote⟩ | later
    · rw [vote, member]
      exact kept.present given listed (now.trans term)
    · omega

/-- The node gives a vote and remembers it. -/
theorem give (kept : VoteKept n votes) (stored : VoterStored m) {candidate : NodeId}
    (voted : m.votedFor = candidate) (named : candidate ≠ "") (later : n.currentTerm ≤ m.currentTerm)
    (free : m.currentTerm = n.currentTerm →
      n.selfMember = true ∧ (n.votedFor = "" ∨ n.votedFor = candidate)) :
    VoteKept m (votes ++ [(m.currentTerm, candidate)]) := by
  -- an earlier vote in the same term was for the same candidate
  have agrees : ∀ vote ∈ votes, vote.1 = m.currentTerm → vote.2 = candidate := by
    intro vote listed now
    have past := kept.past vote listed
    have same : m.currentTerm = n.currentTerm := by omega
    obtain ⟨member, open_⟩ := free same
    rcases kept.present vote listed (now.trans same) with remembered | ⟨-, removed⟩
    · rw [← remembered]
      refine open_.resolve_left fun none => kept.named vote listed ?_
      rw [← remembered]
      exact none
    · rw [member] at removed
      contradiction
  refine ⟨stored, fun vote listed => ?_, fun vote listed now => Or.inl ?_, fun vote listed => ?_,
    fun left leftListed right rightListed same => ?_⟩
  · rcases List.mem_append.mp listed with old | new
    · exact le_trans (kept.past vote old) later
    · rw [List.mem_singleton.mp new]
  · rcases List.mem_append.mp listed with old | new
    · rw [voted, agrees vote old now]
    · rw [List.mem_singleton.mp new]
      exact voted
  · rcases List.mem_append.mp listed with old | new
    · exact kept.named vote old
    · rw [List.mem_singleton.mp new]
      exact named
  · rcases List.mem_append.mp leftListed with oldLeft | newLeft
    · rcases List.mem_append.mp rightListed with oldRight | newRight
      · exact kept.once left oldLeft right oldRight same
      · rw [List.mem_singleton.mp newRight] at same ⊢
        exact agrees left oldLeft same
    · rw [List.mem_singleton.mp newLeft] at same ⊢
      rcases List.mem_append.mp rightListed with oldRight | newRight
      · exact (agrees right oldRight same.symm).symm
      · rw [List.mem_singleton.mp newRight]

/-- A membership change is applied: a node that goes forgets its vote, and one that comes back has
not voted in the term, or remembers. -/
theorem reconfigure (kept : VoteKept n votes) (stored : VoterStored m) {change : MembershipChange}
    {k : RaftNode} (applied : RaftNode.Reconfigured n change k)
    (term : m.currentTerm = k.currentTerm) (vote : m.votedFor = k.votedFor)
    (member : m.selfMember = k.selfMember)
    (later : change = ⟨.addPeer, n.id⟩ → n.selfMember = false → n.votedFor = "" →
      ∀ vote ∈ votes, vote.1 ≠ n.currentTerm) : VoteKept m votes := by
  have now := term.trans applied.term
  refine ⟨stored, fun given listed => ?_, fun given listed same => ?_, kept.named, kept.once⟩
  · rw [now]
    exact kept.past given listed
  · have current := same.trans now
    rw [vote, member]
    exact applied.remembers (kept.present given listed current) fun comes removed empty =>
      later comes removed empty given listed current

/-- `RequestVote`. -/
theorem requestVote (kept : VoteKept n votes) {req : RequestVoteRequest} (named : req.candidateID ≠ "")
    (stored : VoterStored (n.requestVote true req).node) :
    VoteKept (n.requestVote true req).node
      (votes ++ (n.gives (.perform (.requestVote req) true)).toList) := by
  have member : (n.requestVote true req).value.voteGranted = true → n.selfMember = true :=
    n.requestVote_member
  simp only [RaftNode.gives]
  rcases n.requestVote_cases true req with refused | ⟨current, ⟨free, -, voted⟩ | ⟨later, adopted⟩⟩
  · rw [refused] at stored ⊢
    simpa using kept
  · rw [voted] at stored member ⊢
    simp only [RaftNode.persisting, if_true, Option.toList_some] at stored member ⊢
    have fields := RaftNode.persistLocked_fields
      { n.seeTerm req.term with votedFor := req.candidateID } true
    have term : (n.seeTerm req.term).currentTerm = req.term := RaftNode.seeTerm_term current
    have now := fields.1.trans term
    have given := kept.give stored fields.2.1 named (by rw [now]; exact current) fun same => by
      have here : req.term = n.currentTerm := now.symm.trans same
      have unmoved : n.seeTerm req.term = n := by
        unfold RaftNode.seeTerm
        rw [if_neg (by omega)]
      rw [unmoved] at free
      exact ⟨member trivial, free⟩
    rw [now] at given
    exact given
  · rw [adopted] at stored ⊢
    simp only [RaftNode.persisting, Bool.false_eq_true, if_false, Option.toList_none,
      List.append_nil] at stored ⊢
    have fields := (n.seeTerm req.term).persistLocked_fields true
    have same : (n.seeTerm req.term).selfMember = n.selfMember := by
      unfold RaftNode.seeTerm
      split <;> rfl
    refine kept.move stored (fields.2.2.trans same) (Or.inr ?_)
    rw [fields.1, RaftNode.seeTerm_term current]
    exact later

/-- `BecomeCandidate`: the term is a new one. -/
theorem becomeCandidate (kept : VoteKept n votes) (named : n.id ≠ "")
    (fits : n.currentTerm + 1 < Word.limit) (stored : VoterStored (n.becomeCandidate true).node) :
    VoteKept (n.becomeCandidate true).node (votes ++ [(Word.add n.currentTerm 1, n.id)]) := by
  have fields := RaftNode.persistLocked_fields { n with
    state := .candidate
    leaderID := ""
    nextIndex := none
    matchIndex := none
    currentTerm := Word.add n.currentTerm 1
    votedFor := n.id } true
  have term : (n.becomeCandidate true).node.currentTerm = Word.add n.currentTerm 1 := fields.1
  have later := Word.add_eq fits
  rw [← term]
  refine kept.give stored fields.2.1 named ?_ fun same => ?_
  · omega
  · omega

/-- Every operation that does not vote or change the membership. -/
theorem quiet (kept : VoteKept n votes) {op : Operation} (quiet : op.votes = false)
    (stored : VoterStored (n.perform unmarshal true op)) :
    VoteKept (n.perform unmarshal true op) votes := by
  have fixed : op.reconfigures = false := by
    cases op with
    | applyMembershipChange change => contradiction
    | applyEntry entry => contradiction
    | _ => rfl
  have prepared := n.perform_prepared unmarshal true op
  exact kept.move stored (prepared.membership fixed).2.1 (prepared.vote quiet)

/-- An event keeps the votes a node has given in step with what it remembers. -/
theorem next {b after : VoteRecord} (kept : VoteKept b.node b.votes) (named : b.node.id ≠ "")
    {event : NodeEvent} (allowed : KeepsVote unmarshal b event)
    (stepped : b.next unmarshal peers event = some after) : VoteKept after.node after.votes := by
  obtain ⟨saves, fits, candidate, rejoins⟩ := allowed
  cases event with
  | restart =>
    obtain rfl := Option.some.inj stepped
    obtain ⟨state, there, consensus, member⟩ := kept.stored
    simp only [RaftNode.gives, Option.toList_none, List.append_nil, there]
    exact kept.move ⟨state, rfl, rfl, rfl⟩ member
      (Or.inl ⟨congrArg Consensus.currentTerm consensus, congrArg Consensus.votedFor consensus⟩)
  | perform op save =>
    obtain rfl : save = true := saves
    obtain rfl := Option.some.inj stepped
    have stored : VoterStored (b.node.perform unmarshal true op) := kept.stored.perform op
    have later : ∀ change, NodeEvent.change unmarshal (.perform op true) = some change →
        change = ⟨.addPeer, b.node.id⟩ → b.node.selfMember = false → b.node.votedFor = "" →
        ∀ vote ∈ b.votes, vote.1 ≠ b.node.currentTerm := by
      intro change applies comes removed empty vote listed
      rw [VoteRecord.rejoinsLater, if_pos ⟨applies.trans (congrArg some comes), removed, empty⟩] at rejoins
      exact of_decide_eq_true (List.all_eq_true.mp rejoins vote listed)
    cases op with
    | becomeCandidate => exact kept.becomeCandidate named (of_decide_eq_true fits) stored
    | requestVote req => exact kept.requestVote (of_decide_eq_true candidate) stored
    | applyMembershipChange change =>
      simp only [RaftNode.gives, Option.toList_none, List.append_nil]
      cases valid : change.validate with
      | error err =>
        simp only [RaftNode.perform, RaftNode.applyMembershipChange, valid]
        exact kept
      | ok done =>
        obtain ⟨m, applied, same⟩ := b.node.applyMembershipChange_eq true valid
        simp only [RaftNode.perform, same] at stored ⊢
        obtain ⟨term, vote, member⟩ := m.persistLocked_fields true
        exact kept.reconfigure stored applied term vote member (later change rfl)
    | applyEntry entry =>
      simp only [RaftNode.gives, Option.toList_none, List.append_nil]
      by_cases decodes : ∃ change, decodeMembershipChange unmarshal entry.command = some (.ok change)
      · obtain ⟨change, decoded⟩ := decodes
        obtain ⟨m, applied, same⟩ := b.node.applyEntry_eq true decoded
        simp only [RaftNode.perform, same, m.markApplied_eq] at stored ⊢
        obtain ⟨term, vote, member⟩ := RaftNode.persistLocked_fields
          { m with lastApplied := max m.lastApplied entry.index } true
        refine kept.reconfigure stored applied term vote member (later change ?_)
        simp only [NodeEvent.change, decoded]
      · have same : b.node.applyEntry unmarshal true entry = b.node := by
          unfold RaftNode.applyEntry
          split
          · rename_i change decoded
            exact absurd ⟨change, decoded⟩ decodes
          · rfl
        simp only [RaftNode.perform, same]
        exact kept
    | _ =>
      simp only [RaftNode.gives, Option.toList_none, List.append_nil]
      exact kept.quiet rfl stored

end VoteKept

/-- In every run whose steps all keep the condition, over any store, a node votes once in each term:
two votes in a term are for the same candidate. -/
theorem one_vote_per_term {id : NodeId} (own : id ≠ "") {state : PersistentState} {b : VoteRecord}
    (run : Reach (VoteRecord.next unmarshal peers) (KeepsVote unmarshal)
      { node := newRaftNode id peers (some state) } b) :
    ∀ left ∈ b.votes, ∀ right ∈ b.votes, left.1 = right.1 → left.2 = right.2 := by
  have start : VoteKept (newRaftNode id peers (some state)) [] :=
    ⟨⟨state, rfl, rfl, rfl⟩, by simp, by simp, by simp, by simp⟩
  have kept : b.node.id = id ∧ VoteKept b.node b.votes := by
    refine run.invariant (P := fun b => b.node.id = id ∧ VoteKept b.node b.votes) ⟨rfl, start⟩ ?_
    rintro before after event ⟨name, kept⟩ allowed stepped
    obtain ⟨node, moved, rfl⟩ := Option.map_eq_some_iff.mp stepped
    exact ⟨(RaftNode.next_id moved).trans name, kept.next (by rw [name]; exact own) allowed stepped⟩
  exact kept.2.once

/-- A node votes, is removed, and comes back after it has seen a later term. -/
theorem one_vote_per_term_rejoins : ∃ b : VoteRecord,
    Reach (VoteRecord.next plainCommands ["B", "C"]) (KeepsVote plainCommands)
      { node := newRaftNode "A" ["B", "C"] (some {}) } b ∧
      b.votes = [(1, "B"), (2, "C")] ∧
      ∀ left ∈ b.votes, ∀ right ∈ b.votes, left.1 = right.1 → left.2 = right.2 := by
  have passed : (Transition.exec (VoteRecord.next plainCommands ["B", "C"]) (KeepsVote plainCommands)
      { node := newRaftNode "A" ["B", "C"] (some {}) }
      [.perform (.requestVote ⟨1, "B", 0, 0⟩) true,
        .perform (.applyMembershipChange ⟨.removePeer, "A"⟩) true,
        .perform (.becomeFollower 2) true,
        .perform (.applyMembershipChange ⟨.addPeer, "A"⟩) true, .restart,
        .perform (.requestVote ⟨2, "C", 0, 0⟩) true]).any (fun b =>
          decide (b.votes = [(1, "B"), (2, "C")])) = true := by
    decide +kernel
  obtain ⟨b, run, test⟩ := Reach.of_exec_test passed
  exact ⟨b, run, of_decide_eq_true test, one_vote_per_term (by decide) run⟩

/-- A node that applies its own removal forgets its vote: added again in the same term, it grants a
second candidate its vote. -/
theorem rejoined_node_votes_twice : ∃ b : VoteRecord,
    Reach (VoteRecord.next (readsChanges [⟨.removePeer, "A"⟩, ⟨.addPeer, "A"⟩]) ["B", "C"])
      (fun _ event => event.saves = true) { node := newRaftNode "A" ["B", "C"] (some {}) } b ∧
      b.votes = [(2, "B"), (2, "C")] := by
  -- both changes are in the log and committed before the first vote
  have passed : (Transition.exec
      (VoteRecord.next (readsChanges [⟨.removePeer, "A"⟩, ⟨.addPeer, "A"⟩]) ["B", "C"])
      (fun _ event => event.saves = true) { node := newRaftNode "A" ["B", "C"] (some {}) }
      [.perform (.handleAppendEntries ⟨1, "B", 0, 0,
          [⟨1, 1, membershipJson ⟨.removePeer, "A"⟩⟩, ⟨1, 2, membershipJson ⟨.addPeer, "A"⟩⟩], 2⟩) true,
        .perform (.requestVote ⟨2, "B", 2, 1⟩) true,
        .perform (.applyEntry ⟨1, 1, membershipJson ⟨.removePeer, "A"⟩⟩) true,
        .perform (.applyEntry ⟨1, 2, membershipJson ⟨.addPeer, "A"⟩⟩) true,
        .perform (.requestVote ⟨2, "C", 2, 1⟩) true]).any (fun b =>
          decide (b.votes = [(2, "B"), (2, "C")])) = true := by
    decide +kernel
  obtain ⟨b, run, test⟩ := Reach.of_exec_test passed
  exact ⟨b, run, of_decide_eq_true test⟩

end

end Raft

import RvKeyValue.Node.Recovery
import RvKeyValue.Node.Roles

/-!
# Role and progress maps

A node keeps its role, the leader it knows and two maps about its peers in separate fields, and more
than a dozen sections set them by hand. They fit together after every operation: the maps are there
exactly while the node leads, and then know exactly its peers; and a section that leaves a leader has
not moved the term. So `BuildAppendEntries` has a request for the peers of a leader and for nobody
else, in the term the node leads.
-/

namespace Raft

open Transition (Reach)

namespace RaftNode

/-- Role, known leader and progress maps fit together. -/
structure Coherent (n : RaftNode) : Prop where
  /-- `nextIndex` is there for a leader only. -/
  next : n.nextIndex.isSome = true ↔ n.state = .leader
  /-- So is `matchIndex`. -/
  known : n.matchIndex.isSome = true ↔ n.state = .leader
  /-- A leader's `nextIndex` has its peers. -/
  nextKeys : n.state = .leader → ∀ peer, (n.nextOf peer).isSome = true ↔ peer ∈ n.peers
  /-- So has its `matchIndex`. -/
  knownKeys : n.state = .leader → ∀ peer, (n.matchOf peer).isSome = true ↔ peer ∈ n.peers
  /-- A leader knows itself as the leader. -/
  hint : n.state = .leader → n.leaderID = n.id

/-- What an operation sets the indices of a peer to. -/
def Sets (n : RaftNode) (peer : NodeId) (known next : Nat) : Operation → Prop
  | .becomeLeader => known = 0 ∧ next = Word.add n.lastLogIndexLocked 1
  | .recordReplicationSuccess target index =>
    peer = target ∧ known = index ∧ next = Word.add index 1 ∧ n.nextOf peer ≠ none
  | .recordReplicationFailure target => peer = target ∧ n.matchOf peer = some known ∧
    ∃ old, n.nextOf peer = some old ∧ ¬ old ≤ Word.add n.lastIncludedIndex 1 ∧ next = old - 1
  | _ => n.matchOf peer = none ∧ known = 0 ∧ next = Word.add n.lastLogIndexLocked 1

/-- A section that may name a leader of a term. -/
def Names (id : NodeId) (term : Nat) : Operation → Prop
  | .handleAppendEntries req => id = req.leaderID ∧ term = req.term
  | _ => False

/-- What a section of an operation leaves: a coherent record, and a leader only of the term the node was
in. -/
structure Orderly (op : Operation) (n m : RaftNode) : Prop where
  /-- The record is coherent. -/
  coherent : Coherent m
  /-- Who leads has not changed its term. -/
  term : m.state = .leader → m.currentTerm = n.currentTerm
  /-- The known leader is forgotten, kept within its term, the node itself, or named by the operation. -/
  hint : m.leaderID = "" ∨ m.leaderID = n.leaderID ∧ m.currentTerm = n.currentTerm ∨
    m.state = .leader ∨ Names m.leaderID m.currentTerm op
  /-- The indices of a peer are as they were or what the operation sets. -/
  entries : ∀ peer known next, m.matchOf peer = some known → m.nextOf peer = some next →
    n.matchOf peer = some known ∧ n.nextOf peer = some next ∨ n.Sets peer known next op

section

variable {unmarshal : Bytes → Option MembershipCommand} {n m k : RaftNode}
  {op : Operation}

namespace Orderly

/-- Nothing the bookkeeping is about changes after a section. -/
theorem after (orderly : Orderly op n m) (own : k.id = m.id) (role : k.state = m.state)
    (hint : k.leaderID = m.leaderID) (term : k.currentTerm = m.currentTerm) (peers : k.peers = m.peers)
    (next : k.nextIndex = m.nextIndex) (known : k.matchIndex = m.matchIndex) : Orderly op n k := by
  obtain ⟨⟨hasNext, hasKnown, nextKeys, knownKeys, leader⟩, same, named, entries⟩ := orderly
  refine ⟨⟨?_, ?_, fun leads peer => ?_, fun leads peer => ?_, fun leads => ?_⟩, fun leads => ?_,
    ?_, fun peer => ?_⟩
  · rw [next, role]
    exact hasNext
  · rw [known, role]
    exact hasKnown
  · rw [nextOf, next, peers]
    exact nextKeys (role ▸ leads) peer
  · rw [matchOf, known, peers]
    exact knownKeys (role ▸ leads) peer
  · rw [hint, own]
    exact leader (role ▸ leads)
  · rw [term]
    exact same (role ▸ leads)
  · rw [hint, term, role]
    exact named
  · rw [matchOf, nextOf, known, next]
    exact entries peer

/-- Nothing happens. -/
theorem refl (coherent : Coherent n) : Orderly op n n :=
  ⟨coherent, fun _ => rfl, Or.inr (Or.inl ⟨rfl, rfl⟩), fun _ _ _ held found => Or.inl ⟨held, found⟩⟩

/-- A node without maps that does not lead. -/
theorem idle (other : m.state ≠ .leader) (next : m.nextIndex = none) (known : m.matchIndex = none)
    (hint : m.leaderID = "" ∨ m.leaderID = n.leaderID ∧ m.currentTerm = n.currentTerm ∨
      Names m.leaderID m.currentTerm op) : Orderly op n m := by
  refine ⟨⟨?_, ?_, fun leads => absurd leads other, fun leads => absurd leads other,
    fun leads => absurd leads other⟩, fun leads => absurd leads other,
    hint.imp_right (Or.imp_right Or.inr), fun peer known next held => ?_⟩
  · rw [next]
    simp [other]
  · rw [known]
    simp [other]
  · simp [matchOf, *] at held

/-- The commit rule. -/
theorem advanced (orderly : Orderly op n m) : Orderly op n m.advanceCommitLocked := by
  obtain ⟨index, ready, -, same⟩ := m.advanceCommitLocked_eq
  rw [same]
  exact orderly.after rfl rfl rfl rfl rfl rfl rfl

/-- A section that ends with a save, which may fail. -/
theorem saved (orderly : Orderly op n m) (save : Bool) : Orderly op n (m.persistLocked save).1 := by
  rcases m.persistLocked_cases save with same | stored
  · rw [same]
    exact orderly
  · rw [stored]
    exact orderly.after rfl rfl rfl rfl rfl rfl rfl

/-- A leader sets up its maps. -/
theorem leads (role : m.state = .leader) (hint : m.leaderID = m.id)
    (term : m.currentTerm = n.currentTerm)
    (sets : ∀ peer, n.Sets peer 0 (Word.add m.lastLogIndexLocked 1) op) :
    Orderly op n m.initLeaderProgressLocked := by
  have keys : ∀ peer (value : Nat), (if containsPeer m.peers peer then some value else none).isSome = true ↔
      peer ∈ m.peers := by
    intro peer value
    by_cases listed : containsPeer m.peers peer = true
    · simp [listed, containsPeer_iff.mp listed]
    · rw [if_neg listed]
      simpa using fun inside => listed (containsPeer_iff.mpr inside)
  apply advanced
  refine ⟨⟨?_, ?_, fun _ peer => ?_, fun _ peer => ?_, fun _ => hint⟩, fun _ => term,
    Or.inr (Or.inr (Or.inl role)), fun peer known next held found => Or.inr ?_⟩
  · simp [role]
  · simp [role]
  · exact keys peer _
  · exact keys peer _
  · obtain ⟨-, ⟨⟩⟩ := Option.ite_none_right_eq_some.mp held
    obtain ⟨-, ⟨⟩⟩ := Option.ite_none_right_eq_some.mp found
    exact sets peer

/-- A leader sets both indices of a peer, which may be a new one, or forgets the peer. -/
theorem update (coherent : Coherent n) (leads : n.state = .leader) {peer : NodeId}
    (next known : Option Nat) (same : next.isSome = known.isSome) (own : m.id = n.id)
    (role : m.state = .leader) (hint : m.leaderID = n.leaderID) (term : m.currentTerm = n.currentTerm)
    (peers : ∀ other, other ∈ m.peers ↔ if other = peer then next.isSome = true else other ∈ n.peers)
    (nextIndex : m.nextIndex = n.nextIndex.map fun progress => Function.update progress peer next)
    (matchIndex : m.matchIndex = n.matchIndex.map fun progress => Function.update progress peer known)
    (sets : ∀ index later, known = some index → next = some later → n.Sets peer index later op) :
    Orderly op n m := by
  obtain ⟨oldNext, hasNext⟩ := Option.isSome_iff_exists.mp (coherent.next.mpr leads)
  obtain ⟨oldKnown, hasKnown⟩ := Option.isSome_iff_exists.mp (coherent.known.mpr leads)
  have nextKeys := coherent.nextKeys leads
  have knownKeys := coherent.knownKeys leads
  simp only [nextOf, hasNext, Option.bind_some] at nextKeys
  simp only [matchOf, hasKnown, Option.bind_some] at knownKeys
  rw [hasNext, Option.map_some] at nextIndex
  rw [hasKnown, Option.map_some] at matchIndex
  refine ⟨⟨?_, ?_, fun _ other => ?_, fun _ other => ?_, fun _ => ?_⟩, fun _ => term,
    Or.inr (Or.inl ⟨hint, term⟩), fun other index later held found => ?_⟩
  · simp [nextIndex, role]
  · simp [matchIndex, role]
  · rw [nextOf, nextIndex, peers, Option.bind_some]
    by_cases here : other = peer
    · rw [if_pos here, here, Function.update_self]
    · rw [if_neg here, Function.update_of_ne here]
      exact nextKeys other
  · rw [matchOf, matchIndex, peers, Option.bind_some]
    by_cases here : other = peer
    · rw [if_pos here, here, Function.update_self, same]
    · rw [if_neg here, Function.update_of_ne here]
      exact knownKeys other
  · rw [hint, own]
    exact coherent.hint leads
  · rw [matchOf, matchIndex, Option.bind_some] at held
    rw [nextOf, nextIndex, Option.bind_some] at found
    by_cases here : other = peer
    · rw [here, Function.update_self] at held found
      exact Or.inr (here ▸ sets index later held found)
    · rw [Function.update_of_ne here] at held found
      exact Or.inl ⟨by rw [matchOf, hasKnown]; exact held, by rw [nextOf, hasNext]; exact found⟩

end Orderly

/-- Who does not lead has no maps. -/
theorem Coherent.none (coherent : Coherent n) (other : n.state ≠ .leader) :
    n.nextIndex = none ∧ n.matchIndex = none := by
  constructor
  · exact Option.not_isSome_iff_eq_none.mp fun there => other (coherent.next.mp there)
  · exact Option.not_isSome_iff_eq_none.mp fun there => other (coherent.known.mp there)

/-- A tracked peer is a peer of a leader. -/
theorem Coherent.found (coherent : Coherent n) {peer : NodeId} {next : Nat}
    (tracked : n.nextOf peer = some next) : n.state = .leader ∧ peer ∈ n.peers := by
  have there : n.nextIndex.isSome = true := by
    cases maps : n.nextIndex with
    | none => simp [nextOf, maps] at tracked
    | some progress => rfl
  have leads := coherent.next.mp there
  exact ⟨leads, (coherent.nextKeys leads peer).mp (by rw [tracked]; rfl)⟩

/-- Following a leader drops the maps. -/
theorem follow_orderly (coherent : Coherent n) {req : AppendEntriesRequest}
    (current : n.currentTerm ≤ req.term) : Orderly (.handleAppendEntries req) n (n.follow req) := by
  have maps : (n.follow req).nextIndex = none ∧ (n.follow req).matchIndex = none := by
    unfold follow
    by_cases later : n.currentTerm < req.term
    · simp only [if_pos later]
      split <;> exact ⟨rfl, rfl⟩
    · simp only [if_neg later]
      split
      · exact ⟨rfl, rfl⟩
      · rename_i follower
        have other : n.state ≠ .leader := by
          rw [not_not.mp follower]
          simp
        exact coherent.none other
  have role : (n.follow req).state ≠ .leader := by
    simp [follow]
  exact .idle role maps.1 maps.2 (Or.inr (Or.inr ⟨rfl, follow_term current⟩))

/-- Accepting a leader's entries follows it. -/
theorem accept_orderly (coherent : Coherent n) {req : AppendEntriesRequest}
    (current : n.currentTerm ≤ req.term) : Orderly (.handleAppendEntries req) n (n.accept req) := by
  have following := follow_orderly coherent current
  unfold accept
  rcases RaftNode.followCommit_cases { n.follow req with
      log := ((n.follow req).appendLoop (Word.add req.prevLogIndex 1) req.entries).1 }
      req.leaderCommit with same | ⟨index, -, -, same⟩
  · rw [same]
    exact following.after rfl rfl rfl rfl rfl rfl rfl
  · rw [same]
    exact following.after rfl rfl rfl rfl rfl rfl rfl

/-- `HandleAppendEntries`. -/
theorem handleAppendEntries_orderly (coherent : Coherent n) (save : Bool) (req : AppendEntriesRequest) :
    Orderly (.handleAppendEntries req) n (n.handleAppendEntries save req).node := by
  rcases n.handleAppendEntries_cases save req with
    same | ⟨current, -, ⟨-, ⟨-, same⟩ | ⟨-, same⟩⟩ | ⟨-, ⟨-, same⟩ | ⟨-, same⟩⟩⟩
  · rw [same]
    exact .refl coherent
  · rw [same]
    exact (follow_orderly coherent current).saved save
  · rw [same]
    exact follow_orderly coherent current
  · rw [same]
    exact (accept_orderly coherent current).saved save
  · rw [same]
    exact accept_orderly coherent current

/-- Adopting a later term drops the maps. -/
theorem seeTerm_orderly (coherent : Coherent n) (term : Nat) : Orderly op n (n.seeTerm term) := by
  unfold seeTerm
  split
  · exact .idle (by simp) rfl rfl (Or.inl rfl)
  · exact .refl coherent

/-- `RequestVote`. -/
theorem requestVote_orderly (coherent : Coherent n) (save : Bool) (req : RequestVoteRequest) :
    Orderly op n (n.requestVote save req).node := by
  have seen : Orderly op n (n.seeTerm req.term) := seeTerm_orderly coherent req.term
  rcases n.requestVote_cases save req with same | ⟨-, ⟨-, -, same⟩ | ⟨-, same⟩⟩
  · rw [same]
    exact .refl coherent
  · rw [same]
    have voted : Orderly op n { n.seeTerm req.term with votedFor := req.candidateID } :=
      seen.after rfl rfl rfl rfl rfl rfl rfl
    exact voted.saved save
  · rw [same]
    exact seen.saved save

/-- `stepDownForHigherTerm`. -/
theorem stepDownForHigherTerm_orderly (coherent : Coherent n) (save : Bool) (term : Nat) :
    Orderly op n (n.stepDownForHigherTerm save term).node := by
  unfold stepDownForHigherTerm
  split
  · exact .refl coherent
  · have left : Orderly op n { n.adoptTerm term with state := .follower } :=
      .idle (by simp) rfl rfl (Or.inl rfl)
    exact left.saved save

/-- `promoteCandidate`. -/
theorem promoteCandidate_orderly (coherent : Coherent n) (save : Bool) (term : Nat) :
    Orderly (.promoteCandidate term) n (n.promoteCandidate save term).node := by
  unfold promoteCandidate
  split
  · exact .refl coherent
  · rename_i passed
    rw [not_or, not_not] at passed
    have led : Orderly (.promoteCandidate term) n
        { n with state := .leader, leaderID := n.id }.initLeaderProgressLocked :=
      .leads rfl rfl rfl fun peer => ⟨by
        rw [matchOf, (coherent.none (by rw [passed.1]; simp)).2]
        rfl, rfl, rfl⟩
    exact led.saved save

/-- `AppendLocal`. -/
theorem appendLocal_orderly (coherent : Coherent n) (save : Bool) (command : Bytes) :
    Orderly op n (n.appendLocal unmarshal save command).node := by
  rcases n.appendLocal_cases unmarshal save command with ⟨err, same⟩ | same
  · rw [same]
    exact .refl coherent
  · rw [same]
    unfold appendCommand
    apply Orderly.saved
    have appended : Orderly op n { n with
        log := n.log ++ [⟨n.currentTerm, Word.add n.lastLogIndexLocked 1, command⟩] } :=
      (Orderly.refl coherent).after rfl rfl rfl rfl rfl rfl rfl
    split
    · exact appended.advanced
    · exact appended

/-- `RecordReplicationSuccess`. -/
theorem recordReplicationSuccess_orderly (coherent : Coherent n) (peer : NodeId) (matchIndex : Nat) :
    Orderly (.recordReplicationSuccess peer matchIndex) n
      (n.recordReplicationSuccess peer matchIndex).1 := by
  unfold recordReplicationSuccess
  split
  · exact .refl coherent
  · rename_i next tracked
    obtain ⟨leads, listed⟩ := coherent.found tracked
    apply Orderly.advanced
    refine .update coherent leads (some (Word.add matchIndex 1)) (some matchIndex) rfl rfl leads rfl rfl
      (fun other => ?_) rfl rfl ?_
    · by_cases here : other = peer
      · simp [here, listed]
      · simp [here]
    · rintro _ _ ⟨⟩ ⟨⟩
      exact ⟨rfl, rfl, rfl, Option.ne_none_iff_exists'.mpr ⟨next, tracked⟩⟩

/-- `RecordReplicationFailure`. -/
theorem recordReplicationFailure_orderly (coherent : Coherent n) (peer : NodeId) :
    Orderly (.recordReplicationFailure peer) n (n.recordReplicationFailure peer).1 := by
  unfold recordReplicationFailure
  split
  · exact .refl coherent
  · rename_i next tracked
    split
    · exact .refl coherent
    split
    · exact .refl coherent
    · rename_i moves
      obtain ⟨leads, listed⟩ := coherent.found tracked
      -- the match index of the peer is written back as it is
      obtain ⟨known, there⟩ := Option.isSome_iff_exists.mp ((coherent.knownKeys leads peer).mpr listed)
      refine .update coherent leads (some (next - 1)) (some known) rfl rfl leads rfl rfl
        (fun other => ?_) rfl ?_ ?_
      · by_cases here : other = peer
        · simp [here, listed]
        · simp [here]
      · cases maps : n.matchIndex with
        | none => rfl
        | some progress =>
          have found : progress peer = some known := by
            rw [matchOf, maps] at there
            exact there
          rw [Option.map_some, ← found, Function.update_eq_self]
      · rintro _ _ ⟨⟩ ⟨⟩
        exact ⟨rfl, there, next, tracked, moves, rfl⟩

/-- A leader that knows the progress of its peers keeps its maps. -/
theorem Coherent.ensureLeaderProgress_same (coherent : n.Coherent) : n.ensureLeaderProgress = n := by
  unfold ensureLeaderProgress
  by_cases leads : n.state = .leader
  case neg => rw [if_pos leads]
  obtain ⟨next, hasNext⟩ := Option.isSome_iff_exists.mp (coherent.next.mpr leads)
  obtain ⟨known, hasKnown⟩ := Option.isSome_iff_exists.mp (coherent.known.mpr leads)
  have progress : n.hasProgress = true := by
    unfold hasProgress
    rw [hasNext, hasKnown]
    refine List.all_eq_true.mpr fun peer listed => ?_
    have tracked := (coherent.nextKeys leads peer).mpr listed
    have matched := (coherent.knownKeys leads peer).mpr listed
    rw [nextOf, hasNext] at tracked
    rw [matchOf, hasKnown] at matched
    exact (Bool.and_eq_true ..).mpr ⟨tracked, matched⟩
  rw [if_neg (not_not.mpr leads), if_pos progress]

/-- `Compact`. -/
theorem compact_orderly (coherent : Coherent n) (save : Bool) (snapshot : Bytes) :
    Orderly op n (n.compact save snapshot).node := by
  rcases n.compact_cases save snapshot with same | ⟨-, -, same⟩
  · rw [same]
    exact .refl coherent
  · rw [same]
    have cut : Orderly op n (n.cutAtApplied snapshot) :=
      (Orderly.refl coherent).after rfl rfl rfl rfl rfl rfl rfl
    exact cut.saved save

/-- `applyMembershipChangeLocked` — a leader's maps follow its peers. -/
theorem applyMembershipChangeLocked_orderly (coherent : Coherent n) (change : MembershipChange)
    (sets : ∀ peer, n.matchOf peer = none → n.Sets peer 0 (Word.add n.lastLogIndexLocked 1) op) :
    Orderly op n (n.applyMembershipChangeLocked change).1 := by
  have unchanged : Orderly op n n := .refl coherent
  unfold applyMembershipChangeLocked
  cases change.type with
  | unsupported text => exact unchanged.after rfl rfl rfl rfl rfl rfl rfl
  | addPeer =>
    dsimp only
    split
    · exact Orderly.advanced (unchanged.after rfl rfl rfl rfl rfl rfl rfl)
    split
    · exact Orderly.advanced (unchanged.after rfl rfl rfl rfl rfl rfl rfl)
    · rename_i other stranger
      apply Orderly.advanced
      split
      · rename_i tracked
        refine .update coherent tracked.1 (some (Word.add n.lastLogIndexLocked 1)) (some 0) rfl rfl
          tracked.1 rfl rfl (fun peer => ?_) rfl rfl ?_
        · by_cases here : peer = change.peerID
          · simp [here]
          · simp [here]
        · rintro _ _ ⟨⟩ ⟨⟩
          exact sets _ (Option.not_isSome_iff_eq_none.mp fun known =>
            stranger (containsPeer_iff.mpr ((coherent.knownKeys tracked.1 _).mp known)))
      · rename_i untracked
        have idle : n.state ≠ .leader := fun leads =>
          untracked ⟨leads, coherent.next.mpr leads, coherent.known.mpr leads⟩
        exact .idle idle (coherent.none idle).1 (coherent.none idle).2 (Or.inr (Or.inl ⟨rfl, rfl⟩))
  | removePeer =>
    dsimp only
    split
    · dsimp only
      apply Orderly.advanced
      exact .idle (by simp) rfl rfl (Or.inl rfl)
    · apply Orderly.advanced
      by_cases leads : n.state = .leader
      · refine .update coherent leads none none rfl rfl leads rfl rfl (fun peer => ?_) rfl rfl
          fun _ _ gone => by contradiction
        by_cases here : peer = change.peerID
        · simp [removePeer, here]
        · simp [removePeer, here]
      · obtain ⟨next, known⟩ := coherent.none leads
        exact .idle leads (by simp [next]) (by simp [known]) (Or.inr (Or.inl ⟨rfl, rfl⟩))

/-- Every operation leaves role and maps in order. -/
theorem perform_orderly (coherent : Coherent n) (save : Bool) (op : Operation) :
    Orderly op n (n.perform unmarshal save op) := by
  cases op with
  | becomeFollower term =>
    apply Orderly.saved
    split <;> exact .idle (by simp) rfl rfl (Or.inl rfl)
  | becomeCandidate =>
    apply Orderly.saved
    exact .idle (by simp) rfl rfl (Or.inl rfl)
  | becomeLeader =>
    apply Orderly.saved
    exact .leads rfl rfl rfl fun _ => ⟨rfl, rfl⟩
  | promoteCandidate term => exact promoteCandidate_orderly coherent save term
  | stepDownForHigherTerm term => exact stepDownForHigherTerm_orderly coherent save term
  | requestVote req => exact requestVote_orderly coherent save req
  | handleAppendEntries req => exact handleAppendEntries_orderly coherent save req
  | appendLocal command => exact appendLocal_orderly coherent save command
  | ensureLeaderProgress =>
    simp only [perform, coherent.ensureLeaderProgress_same]
    exact .refl coherent
  | recordReplicationSuccess peer matchIndex =>
    exact recordReplicationSuccess_orderly coherent peer matchIndex
  | recordReplicationFailure peer => exact recordReplicationFailure_orderly coherent peer
  | compact snapshot => exact compact_orderly coherent save snapshot
  | applyMembershipChange change =>
    show Orderly _ n (n.applyMembershipChange save change).node
    have changed : Orderly (.applyMembershipChange change) n _ :=
      applyMembershipChangeLocked_orderly coherent change fun _ none => ⟨none, rfl, rfl⟩
    unfold applyMembershipChange
    split
    · exact .refl coherent
    · split
      · rename_i after err applied
        rw [applied] at changed
        exact changed
      · rename_i after applied
        rw [applied] at changed
        exact changed.saved save
  | applyEntry entry =>
    show Orderly _ n (n.applyEntry unmarshal save entry)
    unfold applyEntry
    split
    · rename_i change decoded
      have changed : Orderly (.applyEntry entry) n _ :=
        applyMembershipChangeLocked_orderly coherent change fun _ none => ⟨none, rfl, rfl⟩
      unfold applyCommittedMembershipChange
      split
      · rename_i after err applied
        rw [applied] at changed
        exact changed
      · rename_i after applied
        rw [applied] at changed
        apply Orderly.saved
        rw [markApplied_eq]
        exact changed.after rfl rfl rfl rfl rfl rfl rfl
    · exact .refl coherent
  | markApplied index =>
    show Orderly _ n (n.markApplied index)
    rw [markApplied_eq]
    exact (Orderly.refl coherent).after rfl rfl rfl rfl rfl rfl rfl

/-- A node that is built leads nothing and has no maps. -/
theorem newRaftNode_coherent (id : NodeId) (peers : List NodeId) (store : Option PersistentState) :
    Coherent (newRaftNode id peers store) := by
  have built : Orderly .becomeCandidate (newRaftNode id peers store) (newRaftNode id peers store) := by
    unfold newRaftNode
    split <;> exact .idle (by simp) rfl rfl (Or.inl rfl)
  exact built.coherent

/-- Every event leaves role and maps in order, and a leader only of the term the node was in. -/
theorem next_coherent {peers : List NodeId} {event : NodeEvent} (coherent : Coherent n)
    (stepped : n.next unmarshal peers event = some m) :
    Coherent m ∧ (m.state = .leader → m.currentTerm = n.currentTerm) := by
  cases event with
  | perform op save =>
    obtain rfl := Option.some.inj stepped
    have orderly : Orderly op n (n.perform unmarshal save op) := perform_orderly coherent save op
    exact ⟨orderly.coherent, orderly.term⟩
  | restart =>
    obtain rfl := Option.some.inj stepped
    refine ⟨newRaftNode_coherent _ _ _, fun leads => ?_⟩
    rw [newRaftNode_state] at leads
    contradiction

/-- `BuildAppendEntries` has a request for the peers of a leader. -/
theorem Coherent.builds (coherent : Coherent n) (peer : NodeId) :
    (∃ req, n.buildAppendEntries peer = .ok req) ↔ n.state = .leader ∧ peer ∈ n.peers := by
  constructor
  · rintro ⟨req, built⟩
    unfold buildAppendEntries at built
    split at built
    · contradiction
    · rename_i next tracked
      exact coherent.found tracked
  · rintro ⟨leads, listed⟩
    obtain ⟨next, tracked⟩ := Option.isSome_iff_exists.mp ((coherent.nextKeys leads peer).mpr listed)
    unfold buildAppendEntries
    rw [show (n.nextIndex.bind fun progress => progress peer) = some next from tracked]
    exact ⟨_, rfl⟩

/-- Every run keeps the bookkeeping coherent. -/
theorem Coherent.reach {id : NodeId} {peers : List NodeId} {store : Option PersistentState}
    (run : Reach (RaftNode.next unmarshal peers) (fun _ _ => True) (newRaftNode id peers store) n) :
    Coherent n := by
  refine run.invariant (newRaftNode_coherent _ _ _) fun _ _ _ coherent _ stepped => ?_
  exact (next_coherent coherent stepped).1

/-- In every run, whatever saves fail: both maps are there exactly while the node leads, and know
exactly its peers; it then knows itself as the leader; a request can be built exactly for the peers of
a leader, in its current term; and that is the term it leads, since no event that leaves it leader
changes the term. -/
theorem role_and_maps_coherent {id : NodeId} {peers : List NodeId} {store : Option PersistentState}
    (run : Reach (RaftNode.next unmarshal peers) (fun _ _ => True) (newRaftNode id peers store) n) :
    Coherent n ∧
      (∀ peer, (∃ req, n.buildAppendEntries peer = .ok req) ↔ n.state = .leader ∧ peer ∈ n.peers) ∧
      (∀ peer req, n.buildAppendEntries peer = .ok req → req.term = n.currentTerm) ∧
      ∀ event m, n.next unmarshal peers event = some m → m.state = .leader →
        m.currentTerm = n.currentTerm := by
  have coherent : Coherent n := .reach run
  exact ⟨coherent, coherent.builds, fun _ _ => buildAppendEntries_term,
    fun _ _ stepped => (next_coherent coherent stepped).2⟩

/-- A node that comes to lead after a restart and removes a peer, although the save fails, has a
request for the remaining peer and none for the removed one. -/
theorem role_and_maps_coherent_removal : ∃ n : RaftNode,
    Reach (RaftNode.next plainCommands ["B", "C"]) (fun _ _ => True)
      (newRaftNode "A" ["B", "C"] (some {})) n ∧
      n.state = .leader ∧ n.leaderID = n.id ∧ (∃ req, n.buildAppendEntries "C" = .ok req) ∧
      ¬ ∃ req, n.buildAppendEntries "B" = .ok req := by
  have passed : (Transition.exec (RaftNode.next plainCommands ["B", "C"]) (fun _ _ => True)
      (newRaftNode "A" ["B", "C"] (some {}))
      [.perform .becomeLeader true, .restart, .perform .becomeCandidate true,
        .perform (.promoteCandidate 1) true,
        .perform (.applyMembershipChange ⟨.removePeer, "B"⟩) false]).any (fun n =>
          decide (n.state = .leader ∧ n.peers = ["C"])) = true := by
    decide +kernel
  obtain ⟨n, run, test⟩ := Reach.of_exec_test passed
  obtain ⟨leads, peers⟩ := of_decide_eq_true test
  obtain ⟨coherent, builds, -, -⟩ := role_and_maps_coherent run
  refine ⟨n, run, leads, coherent.hint leads, (builds "C").mpr ⟨leads, by simp [peers]⟩, fun built => ?_⟩
  have listed := ((builds "B").mp built).2
  simp [peers] at listed

end

end RaftNode

end Raft

import RvKeyValue.Cluster.ElectionSections

/-!
# Leader sections refine the protocol

A promotion is an election won with the votes the candidate counted. A leader acknowledges
whatever it writes: together with the acknowledgements the progress map stands for, a majority
holds what it commits, so it is chosen. A replication request carries the rest of the
leader's log, and recording its success claims what the peer acknowledged in this term.
-/

namespace Raft

open ReplicatedLog (Step Committed Chosen UpToDate lastTerm)

section

variable {members : Members} {id : NodeId} {n : RaftNode} {a : Protocol}

/-- A leader's abstract log is its term's leader log. -/
theorem Refines.leaderLog (good : Good members a) (refines : Refines members id n a)
    (leader : n.state = .leader) : ∃ election, a.elected (a.term id) = some election ∧
      election.leader = id ∧ a.log id = a.leaderLog (a.term id) := by
  obtain ⟨election, decided, self, -⟩ := refines.leads leader
  have holds := good.inv.leaderHolds _ _ decided (by rw [self])
  rw [self] at holds
  exact ⟨election, decided, self, holds⟩

/-- The members `advanceCommitLocked` counts for an index. -/
def holders (id : NodeId) (n : RaftNode) (index : Nat) : List NodeId :=
  id :: n.peers.filter fun peer =>
    decide (index ≤ ((n.matchIndex.bind fun progress => progress peer).getD 0))

/-- The count is the number of those members. -/
theorem holders_length (id : NodeId) (n : RaftNode) (index : Nat) :
    (holders id n index).length = n.replicatedCount index := by
  unfold holders RaftNode.replicatedCount
  rw [List.length_cons, List.countP_eq_length_filter]
  omega

/-- A counted majority is a quorum. -/
theorem Refines.holders_quorum (refines : Refines members id n a) {index : Nat}
    (enough : majority n.clusterSizeLocked ≤ n.replicatedCount index) :
    members.quorums.IsQuorum (holders id n index).toFinset := by
  have others := members.mem_peers id refines.member
  have size := members.length_peers refines.member
  apply Quorums.majority_of_count
  · rw [holders, List.nodup_cons, refines.peers]
    refine ⟨fun found => ?_, (members.peersDistinct id refines.member).filter _⟩
    exact ((others id).mp (List.mem_of_mem_filter found)).2 rfl
  · intro member found
    rw [holders, refines.peers] at found
    cases List.mem_cons.mp found with
    | inl self => rw [self]; exact refines.member
    | inr other => exact ((others member).mp (List.mem_of_mem_filter other)).1
  · rw [holders_length]
    unfold majority RaftNode.clusterSizeLocked at enough
    rw [refines.selfMember, refines.peers, if_pos rfl, size] at enough
    exact enough

/-- Acknowledging one's own log keeps the protocol good. -/
theorem Good.ack (good : Good members a) {pre : List LogEntry}
    {election : ReplicatedLog.Election NodeId LogEntry}
    (led : a.elected (a.term id) = some election) (held : pre <+: a.log id)
    (written : pre <+: a.leaderLog (a.term id)) : Good members (a.ack id pre) where
  inv := good.inv.step (.ack id pre election led held written)
  indexed := good.indexed
  bounded := good.bounded

/-- Raising the commit index over a committed prefix keeps the relation. -/
theorem Refines.raiseCommit (refines : Refines members id n a) {index : Nat}
    (above : n.commitIndex ≤ index) (inside : index ≤ (a.log id).length)
    (committed : Committed LogEntry.term members.quorums a (a.term id) ((a.log id).take index))
    (ready : Bool) : Refines members id { n with commitIndex := index, commitReady := ready } a :=
  { refines with
    log := refines.log.congr rfl rfl rfl
    commit := committed
    commitLe := inside
    appliedLe := le_trans refines.appliedLe above
    progress := fun role => ⟨(refines.progress role).maps, (refines.progress role).peer,
      (refines.progress role).stranger⟩ }

/-- An index of the leader's own term that a majority holds is chosen. -/
theorem Refines.chosen_of_count (good : Good members a) (refines : Refines members id n a)
    (leader : n.state = .leader) {index : Nat} (above : n.commitIndex < index)
    (current : n.logTermAtLocked index = n.currentTerm)
    (enough : majority n.clusterSizeLocked ≤ n.replicatedCount index) :
    Chosen LogEntry.term members.quorums a (a.term id) ((a.log id).take index) := by
  obtain ⟨election, decided, self, holds⟩ := refines.leaderLog good leader
  obtain ⟨-, -, -, whole⟩ := refines.leads leader
  have positive := good.inv.electedPos _ _ decided
  have included := le_trans refines.includedLe refines.appliedLe
  have termHere : termAt (a.log id) index = a.term id := by
    rw [← refines.log.logTermAt (by omega), current, refines.term]
  obtain ⟨position, entry, rfl, found, entryTerm⟩ :=
    exists_of_termAt_pos (by rw [termHere]; exact positive)
  have read : ((a.log id).take (position + 1))[position]? = some entry := by
    rw [List.getElem?_take_of_lt (Nat.lt_succ_self position)]
    exact found
  have present : entry ∈ (a.log id).take (position + 1) := List.mem_of_getElem? read
  refine ⟨⟨election, decided⟩, ?_, ⟨entry, present, entryTerm.trans termHere⟩,
    _, refines.holders_quorum enough, ?_⟩
  · rw [← holds]
    exact List.take_prefix _ _
  · intro member counted
    have listed := List.mem_toFinset.mp counted
    rw [holders, refines.peers] at listed
    cases List.mem_cons.mp listed with
    | inl same =>
      rw [same]
      exact good.inv.ackedShorter _ _ _ _ whole (List.take_prefix _ _)
    | inr other =>
      have kept := List.mem_filter.mp other
      obtain ⟨next, known, atNext, atKnown, low, high, within, acked⟩ :=
        (refines.progress leader).peer member kept.1
      have reaches : position + 1 ≤ known := by
        have test := kept.2
        rw [atKnown, decide_eq_true_eq] at test
        exact test
      have shorter : (a.log id).take (position + 1) <+: (a.log id).take known :=
        List.take_prefix_take_left reaches
      exact good.inv.ackedShorter _ _ _ _ (acked.resolve_left (by omega)) shorter

/-- `advanceCommitLocked` commits only what is chosen. -/
theorem Refines.advanceCommit (good : Good members a) (refines : Refines members id n a) :
    Advance members id n n.advanceCommitLocked a a := by
  cases n.advanceCommitLocked_cases with
  | inl same =>
    rw [same]
    exact .stay good refines ⟨rfl, rfl, rfl, rfl, rfl, rfl, rfl, rfl, rfl, rfl, rfl, rfl, rfl⟩
  | inr found =>
    obtain ⟨index, leader, above, inside, current, enough, committed⟩ := found
    rw [refines.log.lastLogIndex] at inside
    have chosen := refines.chosen_of_count good leader above current enough
    rw [committed]
    refine ⟨good, .refl a, .refl a id, ?_, le_refl _, above.le, rfl, rfl,
      fun role _ => ⟨role, rfl, rfl⟩⟩
    exact refines.raiseCommit above.le inside
      (Or.inr ⟨a.term id, _, le_refl _, chosen, List.prefix_rfl⟩) true

/-- Committing changes nothing durable. -/
theorem Persists.advanceCommit (persists : Persists members id n) :
    Persists members id n.advanceCommitLocked := by
  cases n.advanceCommitLocked_cases with
  | inl same => rw [same]; exact persists
  | inr found =>
    obtain ⟨index, _, _, _, _, _, committed⟩ := found
    rw [committed]
    exact persists.congr rfl rfl rfl rfl rfl rfl

/-- Committing leaves the store alone. -/
theorem advanceCommitLocked_store (n : RaftNode) : n.advanceCommitLocked.store = n.store := by
  cases n.advanceCommitLocked_cases with
  | inl same => rw [same]
  | inr found =>
    obtain ⟨index, _, _, _, _, _, committed⟩ := found
    rw [committed]

/-- Winning an election keeps the protocol good. -/
theorem Good.elect (good : Good members a) (refines : Refines members id n a)
    {voters : Finset NodeId} (undecided : a.elected (a.term id) = none) (positive : 0 < a.term id)
    (quorum : members.quorums.IsQuorum voters)
    (votes : ∀ voter ∈ voters, ∃ log, a.granted voter (a.term id) id log ∧
      UpToDate LogEntry.term (a.log id) log) : Good members (a.elect id voters) where
  inv := good.inv.step (.elect id voters undecided positive quorum votes)
  indexed term election decided := by
    by_cases same : term = a.term id
    · subst same
      simpa [ReplicatedLog.State.elect] using refines.log.indexed
    · simp only [ReplicatedLog.State.elect, Function.update_of_ne same] at decided ⊢
      exact good.indexed term election decided
  bounded term election decided := by
    by_cases same : term = a.term id
    · subst same
      simpa [ReplicatedLog.State.elect] using refines.log.bounded
    · simp only [ReplicatedLog.State.elect, Function.update_of_ne same] at decided ⊢
      exact good.bounded term election decided

/-- The code's freshness test is the protocol's. -/
theorem upToDate_of_fresh {candidate voter : List LogEntry}
    (fresh : isLogAtLeastUpToDate candidate.length (lastTerm LogEntry.term candidate) voter.length
      (lastTerm LogEntry.term voter) = true) : UpToDate LogEntry.term candidate voter := by
  unfold isLogAtLeastUpToDate at fresh
  split at fresh
  · exact Or.inl (of_decide_eq_true fresh)
  · rename_i same
    exact Or.inr ⟨(not_not.mp same).symm, of_decide_eq_true fresh⟩

/-- A request describes the log of its candidate for as long as that node campaigns in the
request's term. -/
def SelfMatch (id : NodeId) (n : RaftNode) (a : Protocol) (req : RequestVoteRequest) : Prop :=
  req.candidateID = id ∧ req.term ≤ a.term id ∧
    (n.state = .candidate → a.term id = req.term →
      req.lastLogIndex = (a.log id).length ∧ req.lastLogTerm = lastTerm LogEntry.term (a.log id))

/-- The counted votes of a candidate that still campaigns are votes on logs no fresher than
its own. -/
theorem Refines.votes_upToDate (refines : Refines members id n a) {req : RequestVoteRequest}
    {voters : List NodeId}
    (ballots : Ballots members id (fun voter => VoteOk a voter req) voters)
    (matched : SelfMatch id n a req) (role : n.state = .candidate) (term : a.term id = req.term)
    {voter : NodeId} (counted : voter ∈ voters) :
    ∃ log, a.granted voter (a.term id) id log ∧ UpToDate LogEntry.term (a.log id) log := by
  by_cases self : voter = id
  · subst self
    exact ⟨a.log voter, (refines.candidate role).2, .refl _ _⟩
  · obtain ⟨log, granted, fresh⟩ := ballots.votes voter counted self
    have described := matched.2.2 role term
    rw [described.1, described.2] at fresh
    rw [matched.1, ← term] at granted
    exact ⟨log, granted, upToDate_of_fresh fresh⟩

/-- A candidate with a majority of votes is, or becomes, the leader of its term. -/
theorem Refines.decide (good : Good members a) (refines : Refines members id n a)
    {req : RequestVoteRequest} {voters : List NodeId}
    (ballots : Ballots members id (fun voter => VoteOk a voter req) voters)
    (matched : SelfMatch id n a req) (enough : majority members.ids.length ≤ voters.length)
    (role : n.state = .candidate) (term : a.term id = req.term) :
    ∃ a' election, Good members a' ∧ a.Grows a' ∧ a.OnlyAt a' id ∧ a'.term id = a.term id ∧
      a'.vote id = a.vote id ∧ a'.log id = a.log id ∧
      a'.elected (a.term id) = some election ∧ election.leader = id := by
  have quorum := ballots.quorum enough
  have votes : ∀ voter ∈ voters.toFinset, ∃ log, a.granted voter (a.term id) id log ∧
      UpToDate LogEntry.term (a.log id) log := fun voter counted =>
    refines.votes_upToDate ballots matched role term (List.mem_toFinset.mp counted)
  cases decided : a.elected (a.term id) with
  | none =>
    have positive := (refines.candidate role).1
    have grows := Step.grows good.inv (.elect id _ decided positive quorum votes)
    have won : (a.elect id voters.toFinset).elected (a.term id) =
        some ⟨id, a.log id, voters.toFinset⟩ := by
      simp [ReplicatedLog.State.elect]
    exact ⟨a.elect id voters.toFinset, _, good.elect refines decided positive quorum votes, grows,
      a.elect_onlyAt id _, rfl, rfl, rfl, won, rfl⟩
  | some election =>
    have unique := ReplicatedLog.winner_unique good.inv decided quorum fun voter counted =>
      (votes voter counted).imp fun _ facts => facts.1
    exact ⟨a, election, good, .refl a, .refl a id, rfl, rfl, rfl, decided, unique⟩

/-- A candidate that wins acknowledges the log it was elected with. -/
theorem Refines.win (good : Good members a) (refines : Refines members id n a)
    {req : RequestVoteRequest} {voters : List NodeId}
    (ballots : Ballots members id (fun voter => VoteOk a voter req) voters)
    (matched : SelfMatch id n a req) (enough : majority members.ids.length ≤ voters.length)
    (role : n.state = .candidate) (term : a.term id = req.term) :
    ∃ a' election, Good members a' ∧ a.Grows a' ∧ a.OnlyAt a' id ∧ a'.term id = a.term id ∧
      a'.vote id = a.vote id ∧ a'.log id = a.log id ∧
      a'.elected (a.term id) = some election ∧ election.leader = id ∧
      a'.acked id (a.term id) (a.log id) := by
  obtain ⟨a₁, election, good₁, grows, only, sameTerm, sameVote, sameLog, decided, self⟩ :=
    refines.decide good ballots matched enough role term
  have led : a₁.elected (a₁.term id) = some election := by rw [sameTerm]; exact decided
  have written : a₁.log id <+: a₁.leaderLog (a₁.term id) := by
    have holds := good₁.inv.leaderHolds _ _ led (by rw [self])
    rw [self] at holds
    rw [holds]
  have acked := Step.grows good₁.inv (.ack id _ election led List.prefix_rfl written)
  refine ⟨a₁.ack id (a₁.log id), election, good₁.ack led List.prefix_rfl written,
    grows.trans acked, only.trans (a₁.ack_onlyAt id _), sameTerm, sameVote, sameLog, decided, self,
    Or.inr ⟨rfl, sameTerm.symm, ?_⟩⟩
  rw [sameLog]

/-- A fresh leader's progress maps claim nothing. -/
theorem Refines.lead (refines : Refines members id n a)
    {election : ReplicatedLog.Election NodeId LogEntry}
    (decided : a.elected (a.term id) = some election) (self : election.leader = id)
    (acked : a.acked id (a.term id) (a.log id)) :
    Refines members id { n with
      state := .leader
      leaderID := n.id
      nextIndex := some fun peer =>
        if containsPeer n.peers peer then some (Word.add n.lastLogIndexLocked 1) else none
      matchIndex := some fun peer => if containsPeer n.peers peer then some 0 else none } a := by
  have bounded := refines.log.bounded
  have next : Word.add n.lastLogIndexLocked 1 = (a.log id).length + 1 := by
    rw [refines.log.lastLogIndex, Word.add_eq bounded]
  have known : ∀ peer, containsPeer n.peers peer = true ↔ peer ∈ members.peers id := by
    intro peer
    rw [refines.peers]
    simp [containsPeer]
  exact { refines with
    log := refines.log.congr rfl rfl rfl
    leads := fun _ => ⟨election, decided, self, acked⟩
    progress := fun _ => {
      maps := ⟨rfl, rfl⟩
      peer := fun peer inside => by
        have found := (known peer).mpr inside
        exact ⟨(a.log id).length + 1, 0, by simp [found, next], by simp [found], by omega, le_refl _,
          Nat.zero_le _, Or.inl rfl⟩
      stranger := fun peer outside => by
        have absent : ¬ containsPeer n.peers peer = true := fun found => outside ((known peer).mp found)
        simp [absent] }
    idle := fun role => absurd rfl role
    candidate := fun role => absurd role (by simp) }

/-- `promoteCandidate` makes a node leader only when it won the election of its term. -/
theorem promoteCandidate_advance (good : Good members a) (refines : Refines members id n a)
    (persists : Persists members id n) {req : RequestVoteRequest} {voters : List NodeId}
    (ballots : Ballots members id (fun voter => VoteOk a voter req) voters)
    (matched : SelfMatch id n a req)
    (enough : majority members.ids.length ≤ voters.length) :
    (n.promoteCandidate true req.term).err = none ∧
    Persists members id (n.promoteCandidate true req.term).node ∧
    ∃ a', Advance members id n (n.promoteCandidate true req.term).node a a' ∧
      ((n.promoteCandidate true req.term).value = true → ∃ election,
        a'.elected req.term = some election ∧ election.leader = id ∧ a'.term id = req.term) := by
  unfold RaftNode.promoteCandidate
  split
  · exact ⟨rfl, persists, a, .stay good refines ⟨rfl, rfl, rfl, rfl, rfl, rfl, rfl, rfl, rfl, rfl,
      rfl, rfl, rfl⟩, by simp⟩
  · rename_i eligible
    rw [not_or, not_or, not_not, not_not] at eligible
    obtain ⟨role, current, -⟩ := eligible
    have term : a.term id = req.term := refines.term.symm.trans current
    obtain ⟨a₁, election, good₁, grows, only, sameTerm, sameVote, sameLog, decided, self, acked⟩ :=
      refines.win good ballots matched enough role term
    obtain ⟨state, stored⟩ := persists
    have framed := refines.frame grows sameTerm sameVote sameLog
    have led := framed.lead (by rw [sameTerm]; exact decided) self
      (by rw [sameTerm, sameLog]; exact acked)
    have committed := led.advanceCommit good₁
    have moved : Advance members id n _ a a₁ := {
      good := good₁, grows := grows, only := only, refines := led, term := le_refl _
      commit := le_refl _, committed := by rw [sameLog], snapshot := rfl
      steady := fun candidate => absurd candidate (by simp) }
    have both := moved.trans committed
    have saved := persisted_stored committed.refines
      ((advanceCommitLocked_store _).trans stored.store)
    refine ⟨saved.1, ⟨_, saved.2⟩, a₁, both.saved, fun _ => ⟨election, ?_, self, ?_⟩⟩
    · rw [← term]
      exact decided
    · exact sameTerm.trans term

/-- A leader keeps its progress maps, so `ensureLeaderProgress` finds nothing to do. -/
theorem Refines.ensureLeaderProgress (refines : Refines members id n a) :
    n.ensureLeaderProgress = n := by
  unfold RaftNode.ensureLeaderProgress
  split
  · rfl
  · rename_i leader
    have progress := refines.progress (not_not.mp leader)
    have known : n.hasProgress = true := by
      obtain ⟨next, nextMap⟩ := Option.isSome_iff_exists.mp progress.maps.1
      obtain ⟨known, knownMap⟩ := Option.isSome_iff_exists.mp progress.maps.2
      simp only [RaftNode.hasProgress, nextMap, knownMap, refines.peers, List.all_eq_true,
        Bool.and_eq_true]
      intro peer inside
      obtain ⟨nextIndex, matchIndex, atNext, atMatch, -⟩ := progress.peer peer inside
      rw [nextMap, Option.bind_some] at atNext
      rw [knownMap, Option.bind_some] at atMatch
      exact ⟨by rw [atNext]; rfl, by rw [atMatch]; rfl⟩
    rw [if_pos known]

/-- What a replication request of a leader says about its log. -/
structure AppendOk (members : Members) (a : Protocol) (source : NodeId)
    (req : AppendEntriesRequest) (log : List LogEntry) : Prop where
  /-- The sender names itself. -/
  leader : req.leaderID = source
  /-- The term is a word. -/
  fits : req.term < Word.limit
  /-- The sender was elected in the request's term. -/
  elected : ∃ election, a.elected req.term = some election ∧ election.leader = source
  /-- The log it describes is part of what that leader wrote. -/
  written : log <+: a.leaderLog req.term
  /-- The previous index lies in the log. -/
  prevLe : req.prevLogIndex ≤ log.length
  /-- It carries the rest of the log. -/
  entries : req.entries = log.drop req.prevLogIndex
  /-- It carries the term before the rest. -/
  prevTerm : req.prevLogTerm = termAt log req.prevLogIndex
  /-- What it calls committed is committed. -/
  commit : Committed LogEntry.term members.quorums a req.term (log.take req.leaderCommit)
  /-- The commit index lies in the log. -/
  commitLe : req.leaderCommit ≤ log.length

/-- Growing history keeps a request truthful. -/
theorem AppendOk.grow {a' : Protocol} {source : NodeId} {req : AppendEntriesRequest}
    {log : List LogEntry} (grows : a.Grows a') (sent : AppendOk members a source req log) :
    AppendOk members a' source req log := by
  obtain ⟨election, decided, self⟩ := sent.elected
  exact { sent with
    elected := ⟨election, grows.elected _ _ decided, self⟩
    written := sent.written.trans (grows.leaderLog _ _ decided)
    commit := sent.commit.grow grows (le_refl _) }

/-- `BuildAppendEntries` describes the leader's log. -/
theorem buildAppendEntries_ok (good : Good members a) (refines : Refines members id n a)
    {peer : NodeId} {req : AppendEntriesRequest} (built : n.buildAppendEntries peer = .ok req) :
    AppendOk members a id req (a.log id) := by
  unfold RaftNode.buildAppendEntries at built
  cases found : n.nextIndex.bind fun progress => progress peer with
  | none => simp [found] at built
  | some known =>
    rw [found] at built
    by_cases leader : n.state = .leader
    · have listed : peer ∈ members.peers id := by
        by_contra outside
        have absent := ((refines.progress leader).stranger peer outside).1
        rw [found] at absent
        contradiction
      obtain ⟨next, -, atNext, -, low, high, -, -⟩ := (refines.progress leader).peer peer listed
      obtain rfl : known = next := Option.some.inj (found.symm.trans atNext)
      obtain ⟨election, decided, self, holds⟩ := refines.leaderLog good leader
      have bounded := refines.log.bounded
      have covered := refines.log.covered
      have first := refines.log.firstLogIndex
      obtain ⟨start, startEq, above, below⟩ : ∃ start,
          (if known ≤ n.lastIncludedIndex then n.firstLogIndexLocked else known) = start ∧
            n.lastIncludedIndex < start ∧ start ≤ (a.log id).length + 1 := by
        split
        · exact ⟨_, rfl, by omega, by omega⟩
        · exact ⟨known, rfl, by omega, high⟩
      have prev : Word.sub start 1 = start - 1 := Word.sub_eq (by omega) (by omega)
      simp only [startEq, prev, Except.ok.injEq] at built
      subst built
      exact {
        leader := refines.own
        fits := by rw [refines.term]; exact refines.termFits
        elected := ⟨election, by rw [refines.term]; exact decided, self⟩
        written := by rw [refines.term, ← holds]
        prevLe := by show start - 1 ≤ _; omega
        entries := refines.log.cloneEntriesFrom above
        prevTerm := refines.log.logTermAt (by show n.lastIncludedIndex ≤ start - 1; omega)
        commit := by rw [refines.term]; exact refines.commit
        commitLe := refines.commitLe }
    · have absent := (refines.idle leader).1
      rw [absent] at found
      contradiction

/-- A peer has acknowledged everything a request covers. -/
def AckOk (a : Protocol) (peer : NodeId) (req : AppendEntriesRequest) : Prop :=
  ∃ pre, a.acked peer req.term pre ∧ pre.length = req.prevLogIndex + req.entries.length

/-- A leader's maps with one peer's entries replaced. -/
theorem Progress.update {n : RaftNode} (progress : Progress members id n a) {peer : NodeId}
    (listed : peer ∈ members.peers id) {next known : Nat} (low : 1 ≤ next)
    (high : next ≤ (a.log id).length + 1) (within : known ≤ (a.log id).length)
    (acked : known = 0 ∨ a.acked peer (a.term id) ((a.log id).take known)) :
    Progress members id { n with
      matchIndex := n.matchIndex.map fun old => Function.update old peer (some known)
      nextIndex := n.nextIndex.map fun old => Function.update old peer (some next) } a := by
  obtain ⟨nextMap, atNext⟩ := Option.isSome_iff_exists.mp progress.maps.1
  obtain ⟨knownMap, atKnown⟩ := Option.isSome_iff_exists.mp progress.maps.2
  refine ⟨by simp [atNext, atKnown], fun other inside => ?_, fun other outside => ?_⟩
  · by_cases same : other = peer
    · subst same
      exact ⟨next, known, by simp [atNext], by simp [atKnown], low, high, within, acked⟩
    · have old := progress.peer other inside
      rw [atNext, atKnown] at old
      simpa [atNext, atKnown, same] using old
  · have same : other ≠ peer := fun same => outside (by rw [same]; exact listed)
    have old := progress.stranger other outside
    rw [atNext, atKnown] at old
    simpa [atNext, atKnown, same] using old

/-- `RecordReplicationSuccess` of a request of the current term claims what was acknowledged. -/
theorem recordSuccess_advance (good : Good members a) (refines : Refines members id n a)
    (persists : Persists members id n) {peer : NodeId} {req : AppendEntriesRequest}
    (acked : AckOk a peer req) (current : n.state = .leader → req.term = n.currentTerm) :
    Persists members id (n.recordReplicationSuccess peer (Call.matchIndexOf req)).1 ∧
    ∃ a', Advance members id n (n.recordReplicationSuccess peer (Call.matchIndexOf req)).1 a a' := by
  unfold RaftNode.recordReplicationSuccess
  cases found : n.nextIndex.bind fun progress => progress peer with
  | none => exact ⟨persists, a, .stay good refines ⟨rfl, rfl, rfl, rfl, rfl, rfl, rfl, rfl, rfl, rfl,
      rfl, rfl, rfl⟩⟩
  | some next =>
    by_cases leader : n.state = .leader
    · have progress := refines.progress leader
      have listed : peer ∈ members.peers id := by
        by_contra outside
        have absent := (progress.stranger peer outside).1
        rw [found] at absent
        contradiction
      obtain ⟨election, decided, self, holds⟩ := refines.leaderLog good leader
      obtain ⟨pre, acknowledged, length⟩ := acked
      have term : req.term = a.term id := (current leader).trans refines.term
      rw [term] at acknowledged
      obtain ⟨-, -, written⟩ := good.inv.ackedWritten _ _ _ acknowledged
      rw [← holds] at written
      have within := written.length_le
      have bounded := refines.log.bounded
      have known : Call.matchIndexOf req = pre.length := by
        rw [length]
        exact Word.add_eq (by omega)
      have after : Word.add pre.length 1 = pre.length + 1 := Word.add_eq (by omega)
      have claimed : a.acked peer (a.term id) ((a.log id).take pre.length) := by
        rw [← List.prefix_iff_eq_take.mp written]
        exact acknowledged
      have updated := progress.update listed (by omega : 1 ≤ pre.length + 1) (by omega) within
        (Or.inr claimed)
      have refined : Refines members id { n with
          matchIndex := n.matchIndex.map fun old => Function.update old peer (some pre.length)
          nextIndex := n.nextIndex.map fun old => Function.update old peer (some (pre.length + 1)) }
          a :=
        { refines with
          log := refines.log.congr rfl rfl rfl
          progress := fun _ => updated
          idle := fun role => absurd leader role }
      have moved : Advance members id n _ a a := {
        good := good, grows := .refl a, only := .refl a id, refines := refined, term := le_refl _
        commit := le_refl _, committed := rfl, snapshot := rfl
        steady := fun role _ => ⟨role, rfl, rfl⟩ }
      simp only [known, after]
      refine ⟨?_, a, moved.trans (refined.advanceCommit good)⟩
      exact Persists.advanceCommit (persists.congr rfl rfl rfl rfl rfl rfl)
    · have absent := (refines.idle leader).1
      rw [absent] at found
      contradiction

/-- `RecordReplicationFailure` only moves the next index of a peer. -/
theorem recordFailure_advance (good : Good members a) (refines : Refines members id n a)
    (persists : Persists members id n) (peer : NodeId) :
    Persists members id (n.recordReplicationFailure peer).1 ∧
    Advance members id n (n.recordReplicationFailure peer).1 a a := by
  have idle : Advance members id n n a a := .stay good refines ⟨rfl, rfl, rfl, rfl, rfl, rfl, rfl,
    rfl, rfl, rfl, rfl, rfl, rfl⟩
  unfold RaftNode.recordReplicationFailure
  cases found : n.nextIndex.bind fun progress => progress peer with
  | none => exact ⟨persists, idle⟩
  | some next =>
    by_cases leader : n.state = .leader
    · have progress := refines.progress leader
      have listed : peer ∈ members.peers id := by
        by_contra outside
        have absent := (progress.stranger peer outside).1
        rw [found] at absent
        contradiction
      obtain ⟨old, known, atNext, atKnown, low, high, within, acked⟩ := progress.peer peer listed
      obtain rfl : next = old := Option.some.inj (found.symm.trans atNext)
      simp only
      split
      · exact ⟨persists, idle⟩
      split
      · exact ⟨persists, idle⟩
      rename_i first snapshot
      have updated := progress.update listed (by omega : 1 ≤ next - 1) (by omega) within acked
      have unchanged : (n.matchIndex.map fun old => Function.update old peer (some known)) =
          n.matchIndex := by
        obtain ⟨knownMap, isKnown⟩ := Option.isSome_iff_exists.mp progress.maps.2
        rw [isKnown, Option.bind_some] at atKnown
        rw [isKnown, Option.map_some, ← atKnown, Function.update_eq_self]
      rw [unchanged] at updated
      refine ⟨persists.congr rfl rfl rfl rfl rfl rfl, ?_⟩
      exact { idle with
        refines := { refines with
          log := refines.log.congr rfl rfl rfl
          progress := fun _ => updated
          idle := fun role => absurd leader role } }
    · have absent := (refines.idle leader).1
      rw [absent] at found
      contradiction

/-- Writing an entry as leader keeps the protocol good. -/
theorem Good.append (good : Good members a) (refines : Refines members id n a) {entry : LogEntry}
    {election : ReplicatedLog.Election NodeId LogEntry}
    (decided : a.elected (a.term id) = some election) (self : election.leader = id)
    (current : entry.term = a.term id) (next : entry.index = (a.log id).length + 1)
    (room : (a.log id).length + 2 < Word.limit) : Good members (a.append id entry) where
  inv := good.inv.step (.append id entry election decided self current)
  indexed term other led := by
    by_cases same : term = a.term id
    · subst same
      simpa [ReplicatedLog.State.append] using refines.log.indexed.snoc next
    · simp only [ReplicatedLog.State.append, Function.update_of_ne same] at led ⊢
      exact good.indexed term other led
  bounded term other led := by
    by_cases same : term = a.term id
    · subst same
      simpa [ReplicatedLog.State.append] using room
    · simp only [ReplicatedLog.State.append, Function.update_of_ne same] at led ⊢
      exact good.bounded term other led

/-- An entry stands where the leader of its term wrote it. -/
def Written (a : Protocol) (entry : LogEntry) : Prop :=
  (∃ election, a.elected entry.term = some election) ∧ 1 ≤ entry.index ∧
    (a.leaderLog entry.term)[entry.index - 1]? = some entry

/-- What a leader wrote stays written. -/
theorem Written.grow {a' : Protocol} {entry : LogEntry} (grows : a.Grows a')
    (written : Written a entry) : Written a' entry := by
  obtain ⟨⟨election, decided⟩, positive, found⟩ := written
  exact ⟨⟨election, grows.elected _ _ decided⟩, positive,
    (grows.leaderLog _ _ decided).getElem?_of_some found⟩

/-- A leader's record with the next entry refines the protocol in which it wrote that entry and
acknowledged it. -/
theorem Refines.append (good : Good members a) (refines : Refines members id n a)
    (leader : n.state = .leader) {entry : LogEntry} (current : entry.term = a.term id)
    (next : entry.index = (a.log id).length + 1) (room : (a.log id).length + 2 < Word.limit) :
    Advance members id n { n with log := n.log ++ [entry] } a
      ((a.append id entry).ack id (a.log id ++ [entry])) := by
  obtain ⟨election, decided, self, holds⟩ := refines.leaderLog good leader
  have goodNow := good.append refines decided self current next room
  have logNow : (a.append id entry).log id = a.log id ++ [entry] := by
    simp [ReplicatedLog.State.append]
  have held : a.log id ++ [entry] <+: (a.append id entry).log id := by rw [logNow]
  have written : a.log id ++ [entry] <+:
      (a.append id entry).leaderLog ((a.append id entry).term id) := by
    simp [ReplicatedLog.State.append]
  have grows := (Step.grows good.inv (.append id entry election decided self current)).trans
    (Step.grows goodNow.inv (.ack id _ election decided held written))
  have commitLe := refines.commitLe
  have keep : ∀ count, count ≤ (a.log id).length →
      ((a.append id entry).log id).take count = (a.log id).take count := by
    intro count within
    rw [logNow, List.take_append_of_le_length within]
  have longer : ((a.append id entry).log id).length = (a.log id).length + 1 := by
    rw [logNow, List.length_append, List.length_singleton]
  refine ⟨goodNow.ack decided held written, grows,
    (a.append_onlyAt id entry).trans (ReplicatedLog.State.ack_onlyAt _ id _), ?_, le_refl _, le_refl _,
    keep _ commitLe, rfl, fun role => absurd (role.symm.trans leader) (by simp)⟩
  exact { refines with
    log := by
      show Represents _ ((a.append id entry).log id)
      rw [logNow]
      exact refines.log.snoc next room
    commit := by
      have kept := refines.commit.grow grows (le_refl _)
      rw [← keep _ commitLe] at kept
      exact kept
    commitLe := by
      show n.commitIndex ≤ ((a.append id entry).log id).length
      rw [longer]
      exact Nat.le_succ_of_le commitLe
    leads := fun _ => ⟨election, decided, self, Or.inr ⟨rfl, rfl, by
      show (a.append id entry).log id <+: _
      rw [logNow]⟩⟩
    progress := fun _ => {
      maps := (refines.progress leader).maps
      peer := fun peer inside => by
        obtain ⟨nextIndex, known, atNext, atKnown, low, high, within, acked⟩ :=
          (refines.progress leader).peer peer inside
        have more : ((a.append id entry).log id).length = (a.log id).length + 1 := longer
        refine ⟨nextIndex, known, atNext, atKnown, low, ?_, ?_, acked.imp_right fun old => ?_⟩
        · show nextIndex ≤ ((a.append id entry).log id).length + 1
          omega
        · show known ≤ ((a.append id entry).log id).length
          omega
        · have kept := grows.acked _ _ _ old
          rw [← keep known within] at kept
          exact kept
      stranger := (refines.progress leader).stranger }
    idle := fun role => absurd leader role
    candidate := fun role => absurd (role.symm.trans leader) (by simp) }

/-- `AppendLocal` on a leader writes the next entry of its log. -/
theorem appendCommand_advance (good : Good members a) (refines : Refines members id n a)
    (persists : Persists members id n) (leader : n.state = .leader)
    (room : n.lastLogIndexLocked + 2 < Word.limit) (command : Bytes) :
    (n.appendCommand true command).err = none ∧
    Persists members id (n.appendCommand true command).node ∧
    ∃ a', Advance members id n (n.appendCommand true command).node a a' ∧
      Written a' (n.appendCommand true command).value := by
  obtain ⟨state, stored⟩ := persists
  rw [refines.log.lastLogIndex] at room
  have index : Word.add n.lastLogIndexLocked 1 = (a.log id).length + 1 := by
    rw [refines.log.lastLogIndex]
    exact Word.add_eq (by omega)
  let entry : LogEntry := ⟨n.currentTerm, (a.log id).length + 1, command⟩
  have written : Advance members id n { n with log := n.log ++ [entry] } a _ :=
    refines.append good leader refines.term rfl room
  have committed := written.refines.advanceCommit written.good
  unfold RaftNode.appendCommand
  simp only [index, if_pos leader]
  have saved := persisted_stored committed.refines
    ((advanceCommitLocked_store _).trans stored.store)
  refine ⟨saved.1, ⟨_, saved.2⟩, _, (written.trans committed).saved, ?_⟩
  obtain ⟨election, decided, self, holds⟩ := refines.leaderLog good leader
  refine ⟨⟨election, ?_⟩, ?_, ?_⟩
  · show a.elected n.currentTerm = some election
    rw [refines.term]
    exact decided
  · exact Nat.succ_pos _
  · show ((a.append id _).leaderLog n.currentTerm)[(a.log id).length + 1 - 1]? = _
    rw [refines.term]
    simp [ReplicatedLog.State.append, RaftNode.persisting, entry, refines.term]

end

end Raft

import RvKeyValue.Node.Exchange

/-!
# What exchanges achieve

One exchange leaves a follower's log as it was or makes it the leader's, so that logs keep matching.
The commit index of a follower never covers an entry that is not the leader's, although it is only
bounded by the follower's own last index: a request carries everything the leader had when its commit
index was read. Repeated exchanges find the index from which the logs agree, one step back at a time.
-/

namespace Raft

open Matching (overlay)

/-- The record, the follower's record and whether the request was accepted, after `BuildAppendEntries`,
`HandleAppendEntries` and `RecordReplicationSuccess` or `RecordReplicationFailure`. -/
def exchange (peer : NodeId) (save : Bool) (l f : RaftNode) : RaftNode × RaftNode × Bool :=
  match l.buildAppendEntries peer with
  | .error _ => (l, f, false)
  | .ok req =>
    let handled := f.handleAppendEntries save req
    if handled.value.success then
      ((l.recordReplicationSuccess peer (Word.add req.prevLogIndex req.entries.length)).1,
        handled.node, true)
    else ((l.recordReplicationFailure peer).1, handled.node, false)

/-- Exchanges up to the first accepted request, at most a number of them; `saves` says which of the
follower's saves succeed. -/
def catchUp (peer : NodeId) : List Bool → RaftNode → RaftNode → RaftNode × RaftNode × Bool
  | [], l, f => (l, f, false)
  | save :: saves, l, f =>
    match exchange peer save l f with
    | (l', f', true) => (l', f', true)
    | (l', f', false) => catchUp peer saves l' f'

/-- A leader of term 2 with three entries, the first one compacted, at a next index for its peers. -/
def compactedLeader (next : Nat) : RaftNode :=
  { newRaftNode "A" ["B"] (some {
      currentTerm := 2
      lastIncludedIndex := 1
      lastIncludedTerm := 1
      log := [⟨2, 2, [89]⟩, ⟨2, 3, [90]⟩] }) with
    state := .leader
    commitIndex := 2
    nextIndex := some fun _ => some next
    matchIndex := some fun _ => some 0 }

/-- Its log. -/
def leaderLog : List LogEntry := [⟨1, 1, [88]⟩, ⟨2, 2, [89]⟩, ⟨2, 3, [90]⟩]

/-- A follower whose second entry was never committed. -/
def divergedFollower : RaftNode :=
  newRaftNode "B" ["A"] (some { currentTerm := 1, log := [⟨1, 1, [88]⟩, ⟨1, 2, [91]⟩] })

/-- The leader's log. -/
theorem compactedLeader_represents (next : Nat) : Represents (compactedLeader next) leaderLog :=
  ⟨(by decide : 1 ≤ leaderLog.length), rfl, by decide, rfl, by decide⟩

/-- The follower matches it. -/
theorem divergedFollower_compatible :
    Compatible divergedFollower [⟨1, 1, [88]⟩, ⟨1, 2, [91]⟩] leaderLog :=
  ⟨⟨by decide, rfl, by decide, rfl, by decide⟩, by decide, by decide, by decide, by decide⟩

section

variable {l f : RaftNode} {sent log full : List LogEntry} {peer : NodeId} {next : Nat}
  {req : AppendEntriesRequest}

/-- The leader has what the follower's snapshot covers. -/
theorem Compatible.receives (compatible : Compatible f full log) : Receives f full log := by
  refine ⟨compatible.represents, compatible.positive, compatible.matching, ?_⟩
  refine (List.prefix_take_iff.mpr ⟨?_, ?_⟩).trans compatible.committed
  · exact List.take_prefix _ _
  · rw [List.length_take]
    have := compatible.included
    omega

/-- One exchange: a refused request leaves the follower's log, and an accepted one leaves it when the
follower agrees with the leader through the last entry sent, and otherwise makes it the leader's, cut
there. Any log that matches both matches the result. -/
theorem exchange_keeps_matching (leader : Represents l log) (positive : PositiveTerms log)
    (follower : Compatible f full log)
    (progress : (l.nextIndex.bind fun known => known peer) = some next) (low : 1 ≤ next)
    (high : next ≤ log.length + 1) (save : Bool) :
    ∃ req, l.buildAppendEntries peer = .ok req ∧
      ((f.handleAppendEntries save req).value.success = false ∧
          (f.handleAppendEntries save req).node.log = f.log ∧
          Represents (f.handleAppendEntries save req).node full ∨
        (f.handleAppendEntries save req).value.success = true ∧ ∃ result,
          Represents (f.handleAppendEntries save req).node result ∧
          (log.take (req.prevLogIndex + req.entries.length) <+: full ∧ result = full ∨
            ¬ log.take (req.prevLogIndex + req.entries.length) <+: full ∧
              result = log.take (req.prevLogIndex + req.entries.length)) ∧
          ∀ third, LogMatching third log → LogMatching third full → LogMatching third result) := by
  obtain ⟨req, built, ships, -⟩ := leader.ships progress low high
  have receives := follower.receives
  have whole : log.take (req.prevLogIndex + req.entries.length) = log := by
    have prevLe := ships.prevLe
    rw [ships.entries, List.length_drop, List.take_of_length_le (by omega)]
  refine ⟨req, built, ?_⟩
  cases accepts : f.accepts req with
  | false =>
    obtain ⟨refused, held, -, -⟩ := RaftNode.handleAppendEntries_refused save accepts
    exact Or.inl ⟨refused, held, (receives.refused save accepts).represents⟩
  | true =>
    obtain ⟨success, -⟩ := RaftNode.handleAppendEntries_accepted save accepts
    obtain ⟨after, -⟩ := receives.accepted positive List.prefix_rfl leader ships save accepts
    refine Or.inr ⟨success, overlay full log, after.represents, ?_, fun third matchesLog matchesFull =>
      matchesFull.overlay matchesLog⟩
    rw [whole]
    by_cases present : log <+: full
    · exact Or.inl ⟨present, Matching.overlay_of_isPrefix present⟩
    · exact Or.inr ⟨present, Matching.overlay_of_not_isPrefix present⟩

/-- The follower's second entry is replaced by the leader's log. -/
theorem exchange_keeps_matching_diverged : ∃ req,
    (compactedLeader 2).buildAppendEntries "B" = .ok req ∧
      (divergedFollower.handleAppendEntries true req).value.success = true ∧
      ∃ result, Represents (divergedFollower.handleAppendEntries true req).node result ∧
        result = leaderLog.take (req.prevLogIndex + req.entries.length) := by
  obtain ⟨req, built, refused | ⟨success, result, rep, kept | taken, -⟩⟩ := exchange_keeps_matching
    (compactedLeader_represents 2) (by decide) divergedFollower_compatible rfl (by decide)
    (by decide : 2 ≤ leaderLog.length + 1) true
  · obtain rfl := Except.ok.inj built
    exact absurd refused.1 (by decide)
  · obtain rfl := Except.ok.inj built
    exact absurd kept.1 (by decide)
  · exact ⟨req, built, success, result, rep, taken.2⟩

/-- After a request the leader built with a log it has since extended, whatever a follower newly takes
for committed is the leader's own entry. -/
theorem commit_covers_leader_entries (leader : Represents l sent) (known : l.commitIndex ≤ sent.length)
    (progress : (l.nextIndex.bind fun known => known peer) = some next) (low : 1 ≤ next)
    (high : next ≤ sent.length + 1) (built : l.buildAppendEntries peer = .ok req)
    (grown : sent <+: log) (positive : PositiveTerms log) (follower : Compatible f full log)
    (save : Bool) {index : Nat} (new : f.commitIndex < index)
    (covered : index ≤ (f.handleAppendEntries save req).node.commitIndex) :
    ∃ entry, log[index - 1]? = some entry ∧ (f.handleAppendEntries save req).node.log[index - 1 -
      (f.handleAppendEntries save req).node.lastIncludedIndex]? = some entry := by
  obtain ⟨other, builds, ships, -, -, commit, -⟩ := leader.ships progress low high
  obtain rfl := Except.ok.inj (built.symm.trans builds)
  cases accepts : f.accepts req with
  | false =>
    obtain ⟨-, -, same, -⟩ := RaftNode.handleAppendEntries_refused save accepts
    omega
  | true =>
    obtain ⟨-, -, -, seat⟩ := RaftNode.handleAppendEntries_accepted save accepts
    obtain ⟨after, raised⟩ := follower.receives.accepted positive grown leader ships save accepts
    have within := follower.included
    -- the leader's commit index was within the log it sent
    have inside : index - 1 < sent.length := by omega
    have found : sent[index - 1]? = some sent[index - 1] := List.getElem?_eq_getElem inside
    refine ⟨sent[index - 1], grown.getElem?_of_some found, ?_⟩
    rw [after.represents.retained, List.getElem?_drop, seat.included,
      show f.lastIncludedIndex + (index - 1 - f.lastIncludedIndex) = index - 1 by omega]
    exact (Matching.isPrefix_overlay full sent).getElem?_of_some found

/-- The second entry, which the follower newly takes for committed, is the leader's. -/
theorem commit_covers_leader_entries_diverged : ∃ req,
    (compactedLeader 2).buildAppendEntries "B" = .ok req ∧ ∃ entry, leaderLog[1]? = some entry ∧
      (divergedFollower.handleAppendEntries true req).node.log[1]? = some entry := by
  have progress : ((compactedLeader 2).nextIndex.bind fun known => known "B") = some 2 := rfl
  exact ⟨_, rfl, commit_covers_leader_entries (compactedLeader_represents 2) (by decide) progress
    (by decide) (by decide : 2 ≤ leaderLog.length + 1) rfl List.prefix_rfl (by decide)
    divergedFollower_compatible true (by decide : 0 < 2) (by decide)⟩

/-- Recording a success sets both indices. -/
theorem recordReplicationSuccess_progress (tracked : l.matchIndex.isSome = true)
    (progress : (l.nextIndex.bind fun known => known peer) = some next) {index : Nat}
    (room : index + 1 < Word.limit) :
    ((l.recordReplicationSuccess peer index).1.matchIndex.bind fun known => known peer) = some index ∧
      ((l.recordReplicationSuccess peer index).1.nextIndex.bind fun known => known peer) =
        some (index + 1) := by
  obtain ⟨nexts, known, -⟩ := Option.bind_eq_some_iff.mp progress
  obtain ⟨matches', tracks⟩ := Option.isSome_iff_exists.mp tracked
  unfold RaftNode.recordReplicationSuccess
  rw [progress]
  dsimp only
  obtain ⟨commit, ready, -, same⟩ := RaftNode.advanceCommitLocked_eq { l with
    matchIndex := l.matchIndex.map fun progress => Function.update progress peer (some index)
    nextIndex := l.nextIndex.map fun progress =>
      Function.update progress peer (some (Word.add index 1)) }
  rw [same, known, tracks, Word.add_eq room]
  simp

/-- A leader whose record for a peer stands at an index and that is otherwise as it was. -/
structure Probes (peer : NodeId) (next : Nat) (log : List LogEntry) (l l' : RaftNode) : Prop where
  /-- The next index. -/
  progress : (l'.nextIndex.bind fun known => known peer) = some next
  /-- The log. -/
  represents : Represents l' log
  /-- Matches are tracked. -/
  tracked : l'.matchIndex.isSome = true
  /-- The snapshot. -/
  included : l'.lastIncludedIndex = l.lastIncludedIndex
  /-- The id. -/
  own : l'.id = l.id
  /-- The term. -/
  term : l'.currentTerm = l.currentTerm

/-- Recording a failure steps back by one, above the snapshot. -/
theorem Probes.failure {l' : RaftNode} (probes : Probes peer next log l l')
    (above : l.lastIncludedIndex + 1 < next) :
    Probes peer (next - 1) log l (l'.recordReplicationFailure peer).1 := by
  have covered := probes.represents.covered
  have bounded := probes.represents.bounded
  have included := probes.included
  obtain ⟨nexts, known, -⟩ := Option.bind_eq_some_iff.mp probes.progress
  unfold RaftNode.recordReplicationFailure
  rw [probes.progress]
  dsimp only
  rw [Word.add_eq (by omega), if_neg (by omega), if_neg (by omega)]
  refine ⟨?_, probes.represents.congr rfl rfl rfl, probes.tracked, included, probes.own, probes.term⟩
  dsimp only
  rw [known]
  simp

/-- A follower accepts a request that follows an index up to which it agrees with the leader, if its
snapshot does not reach beyond it. -/
theorem Receives.accepts (receives : Receives f full log) (member : f.isMemberLocked req.leaderID = true)
    (current : f.currentTerm ≤ req.term) (ships : req.Ships sent)
    (above : req.prevLogIndex = 0 ∨ f.lastIncludedIndex ≤ req.prevLogIndex)
    (agrees : full.take req.prevLogIndex = sent.take req.prevLogIndex) : f.accepts req = true := by
  refine RaftNode.accepts_iff.mpr ⟨current, member, fun mismatch => mismatch.2 ?_⟩
  obtain ⟨held, included, includedTerm, -⟩ := f.follow_log req
  have following := receives.represents.congr held included includedTerm
  have positive := mismatch.1
  rw [following.logTermAt (by omega), ships.prevTerm]
  exact termAt_congr agrees (le_refl _)

/-- Exchanges from a next index above one at which a follower and a leader agree: they end in an
accepted request before that index is passed. -/
theorem catchUp_from {l' : RaftNode} {base : Nat} (positive : PositiveTerms log)
    (receives : Receives f full log) (probes : Probes peer next log l l')
    (member : f.isMemberLocked l.id = true) (current : f.currentTerm ≤ l.currentTerm)
    (floor : l.lastIncludedIndex ≤ base) (above : f.lastIncludedIndex ≤ base)
    (agrees : full.take base = log.take base) (low : base < next) (high : next ≤ log.length + 1)
    {saves : List Bool} (enough : next ≤ base + saves.length) :
    ∃ leader follower result, catchUp peer saves l' f = (leader, follower, true) ∧
      Represents follower result ∧ log <+: result ∧
      (leader.matchIndex.bind fun known => known peer) = some log.length ∧
      (leader.nextIndex.bind fun known => known peer) = some (log.length + 1) := by
  induction saves generalizing next l' f with
  | nil =>
    rw [List.length_nil] at enough
    omega
  | cons save saves ih =>
    have included := probes.included
    obtain ⟨req, built, ships, term, own, -, prev⟩ :=
      probes.represents.ships probes.progress (by omega) high
    have index : req.prevLogIndex = next - 1 := by omega
    have bounded := probes.represents.bounded
    have last : Word.add req.prevLogIndex req.entries.length = log.length := by
      rw [ships.entries, List.length_drop, Word.add_eq (by omega)]
      omega
    unfold catchUp exchange
    rw [built]
    dsimp only
    cases accepted : f.accepts req with
    | true =>
      obtain ⟨success, -⟩ := RaftNode.handleAppendEntries_accepted save accepted
      obtain ⟨after, -⟩ := receives.accepted positive List.prefix_rfl probes.represents ships save accepted
      rw [if_pos success, last]
      obtain ⟨matched, nexted⟩ :=
        recordReplicationSuccess_progress probes.tracked probes.progress bounded
      exact ⟨_, _, _, rfl, after.represents, Matching.isPrefix_overlay full log, matched, nexted⟩
    | false =>
      obtain ⟨refused, -, -, seat⟩ := RaftNode.handleAppendEntries_refused save accepted
      -- a refusal at the index where the logs agree is impossible
      have further : base + 1 < next := by
        by_contra reached
        have here : req.prevLogIndex = base := by omega
        have accepts := receives.accepts (by rw [own, probes.own]; exact member)
          (by rw [term, probes.term]; exact current) ships (Or.inr (by omega))
          (by rw [here]; exact agrees)
        rw [accepts] at accepted
        contradiction
      rw [if_neg (by simp [refused])]
      refine ih (receives.refused save accepted) (probes.failure (by omega)) ?_ ?_ ?_ (by omega)
        (by omega) (by rw [List.length_cons] at enough; omega)
      · rw [seat.member]
        exact member
      · rcases seat.term with same | later
        · rw [same]
          exact current
        · rw [later, term, probes.term]
      · rw [seat.included]
        exact above

/-- A leader with last index `n`, compacted at `b`, that starts at the end of its log brings a follower
up to date within `n - b + 1` exchanges, if the follower's snapshot reaches `b` or its log agrees with
the leader's snapshot. -/
theorem catchUp_converges (leader : Represents l log) (positive : PositiveTerms log)
    (follower : Compatible f full log) (tracked : l.matchIndex.isSome = true)
    (progress : (l.nextIndex.bind fun known => known peer) = some (log.length + 1))
    (member : f.isMemberLocked l.id = true) (current : f.currentTerm ≤ l.currentTerm)
    (reachable : l.lastIncludedIndex ≤ f.lastIncludedIndex ∨
      termAt full l.lastIncludedIndex = l.lastIncludedTerm)
    {saves : List Bool} (rounds : saves.length = log.length - l.lastIncludedIndex + 1) :
    ∃ leader follower result, catchUp peer saves l f = (leader, follower, true) ∧
      Represents follower result ∧ log <+: result ∧
      (leader.matchIndex.bind fun known => known peer) = some log.length ∧
      (leader.nextIndex.bind fun known => known peer) = some (log.length + 1) := by
  have receives := follower.receives
  have covered := leader.covered
  have snapshot := receives.snapshot_agrees
  have probes : Probes peer (log.length + 1) log l l := ⟨progress, leader, tracked, rfl, rfl, rfl⟩
  by_cases higher : l.lastIncludedIndex ≤ f.lastIncludedIndex
  · exact catchUp_from positive receives probes member current higher (le_refl _) snapshot.1
      (by omega) (le_refl _) (by omega)
  · have same := reachable.resolve_left higher
    rw [leader.boundary] at same
    have agrees := receives.matching.agree same (Represents.termAt_pos positive (by omega) covered)
    exact catchUp_from positive receives probes member current (le_refl _) (by omega) agrees.1
      (by omega) (le_refl _) (by omega)

/-- The diverged follower has the leader's log after the third exchange. -/
theorem catchUp_converges_diverged : ∃ leader follower result,
    catchUp "B" [true, true, true] (compactedLeader 4) divergedFollower = (leader, follower, true) ∧
      Represents follower result ∧ leaderLog <+: result ∧
      (leader.matchIndex.bind fun known => known "B") = some 3 ∧
      (leader.nextIndex.bind fun known => known "B") = some 4 :=
  catchUp_converges (compactedLeader_represents 4) (by decide) divergedFollower_compatible rfl rfl rfl
    (by decide) (Or.inr rfl) rfl

end

end Raft

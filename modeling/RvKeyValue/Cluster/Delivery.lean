import RvKeyValue.Cluster.Safety
import RvKeyValue.Node.CatchUp

/-!
# The order of requests

Heartbeats and proposals send overlapping requests at the same time, and they may arrive in any order.
While the next index of the peer lies in the log or just behind it, two requests a leader built in one
term and a follower would accept have the same effect in either order, and a repeated one has none.

`RecordReplicationSuccess` can set a next index beyond the end of the log, because it does not know the
term its request was built in. `BuildAppendEntries` then sends the term zero for an absent index, which
a follower takes for a match only while it does not have that index either. When such a request can
still change places with another is said exactly.
-/

namespace Raft

open Matching (overlay)
open Transition (Reach)

/-- A request that a leader whose log has become `log` built for a peer at a moment when its log was
`sent`. -/
structure Moment (log : List LogEntry) (l : RaftNode) (sent : List LogEntry) (peer : NodeId)
    (req : AppendEntriesRequest) : Prop where
  /-- The log at that moment. -/
  represents : Represents l sent
  /-- A leader only appends. -/
  older : sent <+: log
  /-- The next index is a word. -/
  word : ∀ next, (l.nextIndex.bind fun known => known peer) = some next → next < Word.limit
  /-- The request. -/
  built : l.buildAppendEntries peer = .ok req

/-- The log of a follower that accepts a request: a copy of the log that was sent, but a request from
beyond the end of that log carries nothing. -/
def received (full sent : List LogEntry) (req : AppendEntriesRequest) : List LogEntry :=
  if req.prevLogIndex ≤ sent.length then overlay full sent else full

/-- A second request finds after the first what it found before: it follows an index of its sender's log,
or the first carries nothing, or its index is below the follower's snapshot or beyond the first
sender's log. -/
def Undisturbed (f : RaftNode) (sent other : List LogEntry) (req late : AppendEntriesRequest) : Prop :=
  late.prevLogIndex ≤ other.length ∨ sent.length < req.prevLogIndex ∨
    late.prevLogIndex < f.lastIncludedIndex ∨ sent.length < late.prevLogIndex

/-- Two requests can change places: neither disturbs the other, and the commit indices they carry are
cut at the ends of the logs to the same effect. -/
structure Interchangeable (f : RaftNode) (full sent other : List LogEntry)
    (req late : AppendEntriesRequest) : Prop where
  /-- The second after the first. -/
  after : Undisturbed f sent other req late
  /-- The first after the second. -/
  before : Undisturbed f other sent late req
  /-- The commit index. -/
  commit : max (max f.commitIndex (min req.leaderCommit (received full sent req).length))
      (min late.leaderCommit (received (received full sent req) other late).length) =
    max (max f.commitIndex (min late.leaderCommit (received full other late).length))
      (min req.leaderCommit (received (received full other late) sent req).length)

section

variable {f : RaftNode} {log full sent other : List LogEntry} {req late : AppendEntriesRequest}

/-- Of two moments of one log it does not matter which is copied first. -/
theorem received_comm (older : sent <+: log) (otherOlder : other <+: log) :
    received (received full sent req) other late = received (received full other late) sent req := by
  unfold received
  split
  · split
    · -- of two moments of one log one is the earlier
      rcases List.prefix_or_prefix_of_prefix older otherOlder with earlier | later
      · rw [Matching.overlay_overlay earlier, Matching.overlay_late earlier]
      · rw [Matching.overlay_late later, Matching.overlay_overlay later]
    · rfl
  · rfl

/-- A copy of an earlier moment changes nothing of a later one. -/
theorem received_late (earlier : sent <+: other) (reach : late.prevLogIndex ≤ other.length) :
    received (received full other late) sent req = received full other late := by
  unfold received
  rw [if_pos reach]
  split
  · exact Matching.overlay_late earlier
  · rfl

/-- Requests that follow an index of their senders' logs and carry a commit index of them can change
places. -/
theorem Interchangeable.of_reach (reach : req.prevLogIndex ≤ sent.length)
    (lateReach : late.prevLogIndex ≤ other.length) (commit : req.leaderCommit ≤ sent.length)
    (lateCommit : late.leaderCommit ≤ other.length) : Interchangeable f full sent other req late := by
  refine ⟨Or.inl lateReach, Or.inl reach, ?_⟩
  simp only [received, if_pos reach, if_pos lateReach]
  have long : ∀ old new : List LogEntry, new.length ≤ (overlay old new).length :=
    fun old new => (Matching.isPrefix_overlay old new).length_le
  have first := long full sent
  have second := long full other
  have both := long (overlay full sent) other
  have swapped := long (overlay full other) sent
  omega

namespace Receives

variable {l l' : RaftNode} {peer : NodeId}

/-- What one request leaves: the copy, and a commit index that has followed the leader's. -/
theorem handle (receives : Receives f full log) (positive : PositiveTerms log)
    (moment : Moment log l sent peer req) (save : Bool) (accepts : f.accepts req = true) :
    Receives (f.handleAppendEntries save req).node (received full sent req) log ∧
      (f.handleAppendEntries save req).node.commitIndex =
        max f.commitIndex (min req.leaderCommit (received full sent req).length) := by
  obtain ⟨prevTerm, entries, -⟩ := moment.represents.built moment.word moment.built
  unfold received
  split
  · rename_i reach
    exact receives.accepted positive moment.older moment.represents ⟨reach, prevTerm, entries⟩ save
      accepts
  · obtain ⟨log, included, includedTerm⟩ :=
      f.accept_nil (entries.trans (List.drop_eq_nil_iff.mpr (by omega)))
    obtain ⟨-, held, commit, seat⟩ := RaftNode.handleAppendEntries_accepted save accepts
    have accepted := receives.represents.congr log included includedTerm
    refine ⟨⟨receives.represents.congr (held.trans log) seat.included seat.includedTerm,
      receives.positive, receives.matching, ?_⟩, ?_⟩
    · rw [seat.included]
      exact receives.snapshot
    · rw [commit, f.accept_commitIndex, accepted.lastLogIndex]

/-- A request from beyond its sender's log is accepted where its index is absent. -/
theorem accepts_beyond (receives : Receives f full log) (moment : Moment log l sent peer req)
    (beyond : sent.length < req.prevLogIndex) (current : f.currentTerm ≤ req.term)
    (member : f.isMemberLocked req.leaderID = true) :
    f.accepts req = true ↔ req.prevLogIndex < f.lastIncludedIndex ∨ full.length < req.prevLogIndex := by
  obtain ⟨held, included, includedTerm, -⟩ := f.follow_log req
  have following := receives.represents.congr held included includedTerm
  have zero : req.prevLogTerm = 0 :=
    (moment.represents.built moment.word moment.built).1.trans (termAt_beyond beyond)
  have passes : (f.follow req).logTermAtLocked req.prevLogIndex = 0 → f.accepts req = true :=
    fun absent => RaftNode.accepts_iff.mpr ⟨current, member, fun mismatch =>
      mismatch.2 (absent.trans zero.symm)⟩
  by_cases below : req.prevLogIndex < f.lastIncludedIndex
  · exact iff_of_true (passes (following.logTermAt_below (by omega))) (Or.inl below)
  have read := following.logTermAt (by omega : (f.follow req).lastIncludedIndex ≤ req.prevLogIndex)
  constructor
  · intro accepts
    by_contra inside
    have present := Represents.termAt_pos receives.positive (by omega : 0 < req.prevLogIndex) (by omega)
    exact (RaftNode.accepts_iff.mp accepts).2.2 ⟨by omega, by omega⟩
  · intro absent
    exact passes (read.trans (termAt_beyond (by omega)))

/-- Of two requests of a leader's term that a follower accepts, it accepts the second after the first
exactly when the first does not disturb it. -/
theorem accepts_after (receives : Receives f full log) (positive : PositiveTerms log)
    (moment : Moment log l sent peer req) (later : Moment log l' other peer late)
    (term : l'.currentTerm = l.currentTerm) (save : Bool) (accepts : f.accepts req = true)
    (lateAccepts : f.accepts late = true) :
    (f.handleAppendEntries save req).node.accepts late = true ↔
      Undisturbed f sent other req late := by
  obtain ⟨-, -, reqTerm⟩ := moment.represents.built moment.word moment.built
  obtain ⟨prevTerm, entries, lateTerm⟩ := later.represents.built later.word later.built
  obtain ⟨current, -⟩ := RaftNode.accepts_iff.mp accepts
  obtain ⟨lateCurrent, member, passed⟩ := RaftNode.accepts_iff.mp lateAccepts
  obtain ⟨-, -, -, seat⟩ := RaftNode.handleAppendEntries_accepted save accepts
  obtain ⟨after, -⟩ := receives.handle positive moment save accepts
  have stillMember : (f.handleAppendEntries save req).node.isMemberLocked late.leaderID = true := by
    rw [seat.member]
    exact member
  have stillCurrent : (f.handleAppendEntries save req).node.currentTerm ≤ late.term := by
    have same : late.term = req.term := by rw [lateTerm, term, reqTerm]
    rcases seat.term with stays | adopted <;> omega
  by_cases reach : late.prevLogIndex ≤ other.length
  · refine iff_of_true ?_ (Or.inl reach)
    have ships : late.Ships other := ⟨reach, prevTerm, entries⟩
    obtain ⟨agrees, reached, above⟩ := receives.prev_agrees positive later.older ships passed
    refine after.accepts stillMember stillCurrent ships (by rw [seat.included]; exact above) ?_
    -- a log that was replaced had less of the leader's log than the request that replaced it
    have whole : other.take late.prevLogIndex = log.take late.prevLogIndex := by
      obtain ⟨rest, rfl⟩ := later.older
      exact (List.take_append_of_le_length reach).symm
    unfold received overlay
    split
    · split
      · exact agrees
      · rename_i absent
        have short : late.prevLogIndex ≤ sent.length := by
          by_contra beyond
          refine absent ?_
          have shorter := congrArg (List.take sent.length) (agrees.trans whole)
          rw [List.take_take, List.take_take, Nat.min_eq_left (by omega),
            ← List.prefix_iff_eq_take.mp moment.older] at shorter
          rw [← shorter]
          exact List.take_prefix _ _
        rw [whole]
        obtain ⟨rest, rfl⟩ := moment.older
        exact (List.take_append_of_le_length short).symm
    · exact agrees
  · have before := (receives.accepts_beyond later (by omega) lateCurrent member).mp lateAccepts
    rw [after.accepts_beyond later (by omega) stillCurrent stillMember, seat.included]
    unfold Undisturbed received overlay
    split_ifs with carries present
    · have shorter := present.length_le
      omega
    · omega
    · omega

/-- What two requests leave that are both accepted, one after the other. -/
theorem handleBoth (receives : Receives f full log) (positive : PositiveTerms log)
    (moment : Moment log l sent peer req) (later : Moment log l' other peer late)
    (save saveLate : Bool) (accepts : f.accepts req = true)
    (again : (f.handleAppendEntries save req).node.accepts late = true) :
    ((f.handleAppendEntries save req).node.handleAppendEntries saveLate late).node.log =
        (received (received full sent req) other late).drop f.lastIncludedIndex ∧
      ((f.handleAppendEntries save req).node.handleAppendEntries saveLate late).node.commitIndex =
        max (max f.commitIndex (min req.leaderCommit (received full sent req).length))
          (min late.leaderCommit (received (received full sent req) other late).length) := by
  obtain ⟨after, commit⟩ := receives.handle positive moment save accepts
  obtain ⟨afterBoth, commitBoth⟩ := after.handle positive later saveLate again
  obtain ⟨-, -, -, seat⟩ := RaftNode.handleAppendEntries_accepted save accepts
  obtain ⟨-, -, -, lateSeat⟩ := RaftNode.handleAppendEntries_accepted saveLate again
  refine ⟨?_, commitBoth.trans (by rw [commit])⟩
  rw [afterBoth.represents.retained, lateSeat.included, seat.included]

end Receives

/-- Two requests of one term that a follower would accept: a request that is repeated changes nothing,
and the two in either order are both answered with success and leave the same log and commit index
exactly when they are interchangeable. They are whenever both follow an index of the leader's log and
carry a commit index in it, and a request built before one that was handled changes nothing of the
log. -/
theorem requests_commute {l l' : RaftNode} {peer : NodeId} (positive : PositiveTerms log)
    (follower : Compatible f full log) (moment : Moment log l sent peer req)
    (later : Moment log l' other peer late) (term : l'.currentTerm = l.currentTerm)
    (accepts : f.accepts req = true) (lateAccepts : f.accepts late = true) (save saveLate : Bool) :
    let first := f.handleAppendEntries save req
    let second := f.handleAppendEntries saveLate late
    let both := first.node.handleAppendEntries saveLate late
    let swapped := second.node.handleAppendEntries save req
    let repeated := first.node.handleAppendEntries save req
    first.value.success = true ∧ second.value.success = true ∧ repeated.value.success = true ∧
      repeated.node.log = first.node.log ∧ repeated.node.commitIndex = first.node.commitIndex ∧
      (both.value.success = true ∧ swapped.value.success = true ∧
          both.node.log = swapped.node.log ∧ both.node.commitIndex = swapped.node.commitIndex ↔
        Interchangeable f full sent other req late) ∧
      (req.prevLogIndex ≤ sent.length → late.prevLogIndex ≤ other.length →
        req.leaderCommit ≤ sent.length → late.leaderCommit ≤ other.length →
        Interchangeable f full sent other req late) ∧
      (sent <+: other → late.prevLogIndex ≤ other.length → swapped.node.log = second.node.log) := by
  intro first second both swapped repeated
  have receives := follower.receives
  obtain ⟨firstOk, -, -, seat⟩ := RaftNode.handleAppendEntries_accepted save accepts
  obtain ⟨secondOk, -, -, lateSeat⟩ := RaftNode.handleAppendEntries_accepted saveLate lateAccepts
  obtain ⟨after, commit⟩ := receives.handle positive moment save accepts
  obtain ⟨lateAfter, -⟩ := receives.handle positive later saveLate lateAccepts
  have bothIff := receives.accepts_after positive moment later term save accepts lateAccepts
  have swappedIff := receives.accepts_after positive later moment term.symm saveLate lateAccepts accepts
  have again := (receives.accepts_after positive moment moment rfl save accepts accepts).mpr
    ((Nat.lt_or_ge sent.length req.prevLogIndex).symm.imp_right Or.inl)
  have same : received (received full sent req) sent req = received full sent req := by
    by_cases reach : req.prevLogIndex ≤ sent.length
    · exact received_late List.prefix_rfl reach
    · unfold received
      rw [if_neg reach]
  obtain ⟨repeatedLog, repeatedCommit⟩ :=
    receives.handleBoth positive moment moment save save accepts again
  rw [same] at repeatedLog repeatedCommit
  refine ⟨firstOk, secondOk, (RaftNode.handleAppendEntries_success_iff _ _ _).mpr again, ?_, ?_, ?_,
    .of_reach, fun earlier reach => ?_⟩
  · rw [repeatedLog, after.represents.retained, seat.included]
  · rw [repeatedCommit, commit]
    omega
  · rw [RaftNode.handleAppendEntries_success_iff, RaftNode.handleAppendEntries_success_iff]
    constructor
    · rintro ⟨ok, swappedOk, -, equal⟩
      obtain ⟨-, bothCommit⟩ := receives.handleBoth positive moment later save saveLate accepts ok
      obtain ⟨-, swappedCommit⟩ :=
        receives.handleBoth positive later moment saveLate save lateAccepts swappedOk
      exact ⟨bothIff.mp ok, swappedIff.mp swappedOk, bothCommit.symm.trans (equal.trans swappedCommit)⟩
    · intro fits
      have ok := bothIff.mpr fits.after
      have swappedOk := swappedIff.mpr fits.before
      obtain ⟨bothLog, bothCommit⟩ :=
        receives.handleBoth positive moment later save saveLate accepts ok
      obtain ⟨swappedLog, swappedCommit⟩ :=
        receives.handleBoth positive later moment saveLate save lateAccepts swappedOk
      refine ⟨ok, swappedOk, ?_, bothCommit.trans (fits.commit.trans swappedCommit.symm)⟩
      rw [bothLog, swappedLog, received_comm moment.older later.older]
  · cases accepted : second.node.accepts req with
    | false => exact (RaftNode.handleAppendEntries_refused save accepted).2.1
    | true =>
      obtain ⟨swappedLog, -⟩ :=
        receives.handleBoth positive later moment saveLate save lateAccepts accepted
      rw [swappedLog, received_late earlier reach, lateAfter.represents.retained, lateSeat.included]

end

/-- The leader before it appended its third entry. -/
def earlierLeader : RaftNode := { compactedLeader 2 with log := [⟨2, 2, [89]⟩] }

/-- What it sends then. -/
def earlierRequest : AppendEntriesRequest := ⟨2, "A", 1, 1, [⟨2, 2, [89]⟩], 2⟩

/-- What it sends with its third entry. -/
def laterRequest : AppendEntriesRequest := ⟨2, "A", 1, 1, [⟨2, 2, [89]⟩, ⟨2, 3, [90]⟩], 2⟩

/-- The request without the third entry does not take it back when it arrives late. -/
theorem requests_commute_diverged :
    let late := (divergedFollower.handleAppendEntries true laterRequest).node.handleAppendEntries true
      earlierRequest
    late.value.success = true ∧
      late.node.log = (divergedFollower.handleAppendEntries true laterRequest).node.log := by
  have word : ∀ next, some 2 = some next → next < Word.limit := by
    rintro next ⟨⟩
    decide
  have earlier : Moment leaderLog earlierLeader [⟨1, 1, [88]⟩, ⟨2, 2, [89]⟩] "B" earlierRequest :=
    ⟨⟨by decide, rfl, by decide, rfl, by decide⟩, by decide, word, by decide +kernel⟩
  have later : Moment leaderLog (compactedLeader 2) leaderLog "B" laterRequest :=
    ⟨compactedLeader_represents 2, List.prefix_rfl, word, by decide +kernel⟩
  obtain ⟨-, -, -, -, -, commutes, reach, kept⟩ := requests_commute (by decide)
    divergedFollower_compatible earlier later rfl (by decide) (by decide) true true
  exact ⟨(commutes.mpr (reach (by decide) (by decide) (by decide) (by decide))).2.1,
    kept (by decide) (by decide)⟩

/-- `A` leads term 1 with two entries that `B` accepts, but the response is delayed. `C` is elected in
term 2 and its only entry replaces those at `A` and `B`. `A` is elected in term 3 with that log and only
then records the delayed success, so that `B`'s next index is 3 and the last index is 1. -/
def nextBeyondLog : List Label :=
  Label.campaign "A" 0 1 0 0 [("B", 0), ("C", 0)] ++
  [⟨"A", .start (.propose [88])⟩] ++ Label.sections "A" 1 2 ++
  [⟨"A", .start (.propose [89])⟩] ++ Label.sections "A" 2 11 ++
  [⟨"B", .serve ⟨"A", "B", 2, .appendRequest ⟨1, "A", 0, 0, [⟨1, 1, [88]⟩, ⟨1, 2, [89]⟩], 0⟩⟩ true⟩] ++
  Label.campaign "C" 0 2 0 0 [("D", 0), ("E", 0)] ++
  [⟨"C", .start (.propose [90])⟩] ++ Label.sections "C" 1 11 ++
  [⟨"A", .serve ⟨"C", "A", 1, .appendRequest ⟨2, "C", 0, 0, [⟨2, 1, [90]⟩], 0⟩⟩ true⟩] ++
  [⟨"B", .serve ⟨"C", "B", 1, .appendRequest ⟨2, "C", 0, 0, [⟨2, 1, [90]⟩], 0⟩⟩ true⟩] ++
  Label.campaign "A" 3 3 1 2 [("D", 2), ("E", 2)] ++
  [⟨"A", .reply ⟨"A", "B", 2, .appendResponse ⟨1, "A", 0, 0, [⟨1, 1, [88]⟩, ⟨1, 2, [89]⟩], 0⟩
    ⟨1, true⟩⟩ true⟩] ++ Label.sections "A" 2 1

/-- `A` appends two entries, sends from index 3 on, is refused by `B` and steps back to index 2. -/
def backInLog : List Label :=
  [⟨"A", .start (.propose [91])⟩] ++ Label.sections "A" 4 2 ++
  [⟨"A", .start (.propose [92])⟩] ++ Label.sections "A" 5 2 ++
  [⟨"A", .start .replicate⟩] ++ Label.sections "A" 6 7 ++
  Label.rpc "A" "B" 6 (.appendRequest ⟨3, "A", 2, 3, [⟨3, 3, [92]⟩], 0⟩)
    (.appendResponse ⟨3, "A", 2, 3, [⟨3, 3, [92]⟩], 0⟩ ⟨3, false⟩) ++ Label.sections "A" 6 1

/-- The request from beyond the log, without entries and with term zero for index 2. -/
def beyondRequest : AppendEntriesRequest := ⟨3, "A", 2, 0, [], 0⟩

/-- The request from index 2 on. -/
def fromSecond : AppendEntriesRequest := ⟨3, "A", 1, 2, [⟨3, 2, [91]⟩, ⟨3, 3, [92]⟩], 0⟩

/-- `B` would accept either of two requests `A` built in term 3, and accepts both in the order in which
they were built. In the other order it refuses the first one. -/
theorem late_request_refused : ∃ early c : Cluster,
    Reach (Cluster.step plainCommands fiveNodes) (Assumed plainCommands) (.initial fiveNodes) early ∧
      Reach (Cluster.step plainCommands fiveNodes) (Assumed plainCommands) early c ∧
      (early.servers "A").node.state = .leader ∧ (c.servers "A").node.state = .leader ∧
      (early.servers "A").node.currentTerm = (c.servers "A").node.currentTerm ∧
      (early.servers "A").node.log <+: (c.servers "A").node.log ∧
      (early.servers "A").node.buildAppendEntries "B" = .ok beyondRequest ∧
      (c.servers "A").node.buildAppendEntries "B" = .ok fromSecond ∧
      (c.servers "B").node.log <+: (c.servers "A").node.log ∧
      (c.servers "B").node.accepts beyondRequest = true ∧
      (c.servers "B").node.accepts fromSecond = true ∧
      (((c.servers "B").node.handleAppendEntries true beyondRequest).node.handleAppendEntries true
        fromSecond).value.success = true ∧
      (((c.servers "B").node.handleAppendEntries true fromSecond).node.handleAppendEntries true
        beyondRequest).value.success = false := by
  have passed : (Transition.exec (Cluster.step plainCommands fiveNodes) (Assumed plainCommands)
      (.initial fiveNodes) nextBeyondLog).any (fun early =>
        decide ((early.servers "A").node.state = .leader ∧
          (early.servers "A").node.currentTerm = 3 ∧
          (early.servers "A").node.log = [⟨2, 1, [90]⟩] ∧
            (early.servers "A").node.buildAppendEntries "B" = .ok beyondRequest) &&
        (Transition.exec (Cluster.step plainCommands fiveNodes) (Assumed plainCommands) early
          backInLog).any (fun c => decide ((c.servers "A").node.state = .leader ∧
            (c.servers "A").node.currentTerm = 3 ∧ [⟨2, 1, [90]⟩] <+: (c.servers "A").node.log ∧
            (c.servers "A").node.buildAppendEntries "B" = .ok fromSecond ∧
            (c.servers "B").node.log <+: (c.servers "A").node.log ∧
            (c.servers "B").node.accepts beyondRequest = true ∧
            (c.servers "B").node.accepts fromSecond = true ∧
            (((c.servers "B").node.handleAppendEntries true beyondRequest).node.handleAppendEntries
              true fromSecond).value.success = true ∧
            (((c.servers "B").node.handleAppendEntries true fromSecond).node.handleAppendEntries
              true beyondRequest).value.success = false))) = true := by
    decide +kernel
  obtain ⟨early, run, test⟩ := Reach.of_exec_test passed
  obtain ⟨before, rest⟩ := (Bool.and_eq_true ..).mp test
  obtain ⟨earlyLeads, earlyTerm, earlyLog, earlyBuilt⟩ := of_decide_eq_true before
  obtain ⟨c, more, after⟩ := Reach.start.of_exec_any rest
  obtain ⟨leads, term, log, facts⟩ := of_decide_eq_true after
  exact ⟨early, c, run, more, earlyLeads, leads, earlyTerm.trans term.symm, by rw [earlyLog]; exact log,
    earlyBuilt, facts⟩

end Raft

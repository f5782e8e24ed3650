import RvKeyValue.Base.Matching
import RvKeyValue.Node.Durability

/-!
# An exchange between a leader and a follower

`BuildAppendEntries` on one node and `HandleAppendEntries` on another, with different snapshots. The
leader always sends its whole log from the peer's next index on, so an accepted request copies the
leader's log over the follower's: the follower keeps a log that already has the leader's as a prefix,
and takes the leader's otherwise. What the exchange does to logs, to the commit index, in which order
requests may arrive and how long a follower needs to catch up all follow from that.
-/

namespace Raft

open Matching (Matches overlay)

/-- Equal terms at an index mean equal logs up to it. -/
def LogMatching (left right : List LogEntry) : Prop := Matches LogEntry.term left right

instance (left right : List LogEntry) : Decidable (LogMatching left right) := by
  unfold LogMatching
  infer_instance

/-- What `HandleAppendEntries` leaves alone: the snapshot, the membership and the term, unless the
request is of a later one. -/
structure SameSeat (req : AppendEntriesRequest) (n m : RaftNode) : Prop where
  /-- The snapshot covers what it covered. -/
  included : m.lastIncludedIndex = n.lastIncludedIndex
  /-- Its term is the same. -/
  includedTerm : m.lastIncludedTerm = n.lastIncludedTerm
  /-- The members are the same. -/
  member : ∀ id, m.isMemberLocked id = n.isMemberLocked id
  /-- The term is the old one or the request's. -/
  term : m.currentTerm = n.currentTerm ∨ m.currentTerm = req.term

section

variable {n m k : RaftNode} {req : AppendEntriesRequest}

/-- Two sections. -/
theorem SameSeat.trans (first : SameSeat req n m) (second : SameSeat req m k) : SameSeat req n k where
  included := second.included.trans first.included
  includedTerm := second.includedTerm.trans first.includedTerm
  member id := (second.member id).trans (first.member id)
  term := by
    rcases second.term with same | later
    · rw [same]
      exact first.term
    · exact Or.inr later

namespace RaftNode

/-- A request leaves the membership alone. -/
theorem Prepared.isMember (prepared : Prepared n (.handleAppendEntries req) m) (id : NodeId) :
    m.isMemberLocked id = n.isMemberLocked id := by
  obtain ⟨peers, self, configured⟩ := prepared.membership rfl
  unfold isMemberLocked
  rw [prepared.own, peers, self, configured]

/-- Saving changes neither log nor seat. -/
theorem persistLocked_seat (n : RaftNode) (save : Bool) (req : AppendEntriesRequest) :
    (n.persistLocked save).1.log = n.log ∧ (n.persistLocked save).1.commitIndex = n.commitIndex ∧
      SameSeat req n (n.persistLocked save).1 := by
  rcases n.persistLocked_cases save with same | stored
  · rw [same]
    exact ⟨rfl, rfl, rfl, rfl, fun _ => rfl, Or.inl rfl⟩
  · rw [stored]
    exact ⟨rfl, rfl, rfl, rfl, fun _ => rfl, Or.inl rfl⟩

/-- Following a leader keeps the seat. -/
theorem follow_seat (current : n.currentTerm ≤ req.term) : SameSeat req n (n.follow req) :=
  ⟨(n.follow_log req).2.1, (n.follow_log req).2.2.1, (n.follow_prepared req).isMember,
    Or.inr (follow_term current)⟩

/-- A refused request leaves log and commit index. -/
theorem handleAppendEntries_refused (save : Bool) (refuses : n.accepts req = false) :
    (n.handleAppendEntries save req).value.success = false ∧
      (n.handleAppendEntries save req).node.log = n.log ∧
      (n.handleAppendEntries save req).node.commitIndex = n.commitIndex ∧
      SameSeat req n (n.handleAppendEntries save req).node := by
  obtain ⟨log, -, -, -, -, -, -, commit⟩ := n.follow_log req
  rcases n.handleAppendEntries_cases save req with refused | ⟨current, member, ⟨-, ⟨-, left⟩ |
    ⟨-, stays⟩⟩ | ⟨passed, -⟩⟩
  · rw [refused]
    exact ⟨rfl, rfl, rfl, rfl, rfl, fun _ => rfl, Or.inl rfl⟩
  · rw [left]
    obtain ⟨savedLog, savedCommit, seat⟩ := (n.follow req).persistLocked_seat save req
    exact ⟨rfl, savedLog.trans log, savedCommit.trans commit, (follow_seat current).trans seat⟩
  · rw [stays]
    exact ⟨rfl, log, commit, follow_seat current⟩
  · rw [accepts_iff.mpr ⟨current, member, passed⟩] at refuses
    contradiction

/-- The commit rule of a follower. -/
theorem followCommit_commitIndex (n : RaftNode) (leaderCommit : Nat) :
    (n.followCommit leaderCommit).commitIndex =
      max n.commitIndex (min leaderCommit n.lastLogIndexLocked) := by
  unfold followCommit
  split
  · show min leaderCommit n.lastLogIndexLocked = _
    omega
  · omega

/-- The commit index after an accepted request. -/
theorem accept_commitIndex (n : RaftNode) (req : AppendEntriesRequest) :
    (n.accept req).commitIndex =
      max n.commitIndex (min req.leaderCommit (n.accept req).lastLogIndexLocked) := by
  have last : (n.accept req).lastLogIndexLocked = { n.follow req with
      log := ((n.follow req).appendLoop (Word.add req.prevLogIndex 1) req.entries).1
      }.lastLogIndexLocked := by
    unfold accept followCommit
    split <;> rfl
  rw [last]
  unfold accept
  rw [followCommit_commitIndex]
  show max (n.follow req).commitIndex _ = _
  rw [(n.follow_log req).2.2.2.2.2.2.2]

/-- Accepting a request keeps the seat. -/
theorem accept_seat (current : n.currentTerm ≤ req.term) : SameSeat req n (n.accept req) := by
  refine ⟨(n.accept_fields req).2.1, ?_, (n.accept_prepared req).isMember,
    Or.inr ((n.accept_fields req).1.trans (follow_term current))⟩
  unfold accept followCommit
  split <;> exact (n.follow_log req).2.2.1

/-- An accepted request, saved or not. -/
theorem handleAppendEntries_accepted (save : Bool) (accepted : n.accepts req = true) :
    (n.handleAppendEntries save req).value.success = true ∧
      (n.handleAppendEntries save req).node.log = (n.accept req).log ∧
      (n.handleAppendEntries save req).node.commitIndex = (n.accept req).commitIndex ∧
      SameSeat req n (n.handleAppendEntries save req).node := by
  obtain ⟨current, member, passed⟩ := accepts_iff.mp accepted
  have saved := (n.accept req).persistLocked_seat save req
  unfold Mismatch at passed
  unfold handleAppendEntries
  rw [if_neg (by omega), if_neg (by simp [member])]
  simp only [appendEntriesToLogLocked]
  rw [if_neg passed]
  dsimp only
  split
  · exact ⟨rfl, saved.1, saved.2.1, (accept_seat current).trans saved.2.2⟩
  · exact ⟨rfl, rfl, rfl, accept_seat current⟩

/-- Success means that the request was accepted. -/
theorem handleAppendEntries_success_iff (n : RaftNode) (save : Bool) (req : AppendEntriesRequest) :
    (n.handleAppendEntries save req).value.success = true ↔ n.accepts req = true := by
  cases accepts : n.accepts req with
  | true => simp [(handleAppendEntries_accepted save accepts).1]
  | false => simp [(handleAppendEntries_refused save accepts).1]

end RaftNode

end

/-- A request carries the rest of a log from one of its indices on. -/
structure AppendEntriesRequest.Ships (req : AppendEntriesRequest) (log : List LogEntry) : Prop where
  /-- The index is one of the log, or zero. -/
  prevLe : req.prevLogIndex ≤ log.length
  /-- Its term. -/
  prevTerm : req.prevLogTerm = termAt log req.prevLogIndex
  /-- The rest. -/
  entries : req.entries = log.drop req.prevLogIndex

/-- A follower with a whole log that matches a leader's and whose committed entries the leader has. As
in every state of a node, its snapshot covers committed entries only. -/
structure Compatible (f : RaftNode) (full log : List LogEntry) : Prop where
  /-- The record retains the end of the whole log. -/
  represents : Represents f full
  /-- Entries have positive terms. -/
  positive : PositiveTerms full
  /-- The logs match. -/
  matching : LogMatching log full
  /-- The snapshot covers committed entries. -/
  included : f.lastIncludedIndex ≤ f.commitIndex
  /-- The leader has the committed entries. -/
  committed : full.take f.commitIndex <+: log

/-- A follower with a whole log that matches a leader's and whose snapshot the leader has. -/
structure Receives (f : RaftNode) (full log : List LogEntry) : Prop where
  /-- The record retains the end of the whole log. -/
  represents : Represents f full
  /-- Entries have positive terms. -/
  positive : PositiveTerms full
  /-- The logs match. -/
  matching : LogMatching log full
  /-- The leader has what the snapshot covers. -/
  snapshot : full.take f.lastIncludedIndex <+: log

section

variable {l f : RaftNode} {sent log full : List LogEntry} {peer : NodeId} {next : Nat}
  {req : AppendEntriesRequest}

/-- Equal positive terms at an index of matching logs. -/
theorem LogMatching.agree (matching : LogMatching log full) {index : Nat}
    (same : termAt full index = termAt log index) (positive : 0 < termAt log index) :
    full.take index = log.take index ∧ index ≤ full.length := by
  obtain ⟨position, entry, rfl, found, term⟩ := exists_of_termAt_pos positive
  obtain ⟨other, held, eq, there, held_term⟩ := exists_of_termAt_pos (by rw [same]; exact positive)
  obtain rfl : position = other := Nat.succ.inj eq
  have terms : entry.term = held.term := by rw [term, held_term, same]
  exact ⟨(matching position entry held found there terms).symm, (List.getElem?_eq_some_iff.mp there).1⟩

/-- A request that `BuildAppendEntries` makes carries the rest of the log, from the snapshot on at the
earliest: nothing, and term zero, if the next index lies beyond the end. -/
theorem Represents.builds (rep : Represents l log)
    (progress : (l.nextIndex.bind fun known => known peer) = some next) (word : next < Word.limit) :
    ∃ req, l.buildAppendEntries peer = .ok req ∧ req.prevLogTerm = termAt log req.prevLogIndex ∧
      req.entries = log.drop req.prevLogIndex ∧ req.term = l.currentTerm ∧ req.leaderID = l.id ∧
      req.leaderCommit = l.commitIndex ∧ req.prevLogIndex = max (next - 1) l.lastIncludedIndex := by
  have covered := rep.covered
  have bounded := rep.bounded
  unfold RaftNode.buildAppendEntries
  rw [progress, rep.firstLogIndex]
  dsimp only
  generalize start : (if next ≤ l.lastIncludedIndex then l.lastIncludedIndex + 1 else next) = first
  have value : first = max (next - 1) l.lastIncludedIndex + 1 := by
    rw [← start]
    split <;> omega
  have previous : Word.sub first 1 = first - 1 := Word.sub_eq (by omega) (by omega)
  rw [previous]
  refine ⟨_, rfl, rep.logTermAt (by omega), rep.cloneEntriesFrom (by omega), rfl, rfl, rfl, ?_⟩
  show first - 1 = max (next - 1) l.lastIncludedIndex
  omega

/-- A request that was built. -/
theorem Represents.built (rep : Represents l log)
    (word : ∀ next, (l.nextIndex.bind fun known => known peer) = some next → next < Word.limit)
    (built : l.buildAppendEntries peer = .ok req) :
    req.prevLogTerm = termAt log req.prevLogIndex ∧ req.entries = log.drop req.prevLogIndex ∧
      req.term = l.currentTerm := by
  cases progress : l.nextIndex.bind fun known => known peer with
  | none =>
    unfold RaftNode.buildAppendEntries at built
    rw [progress] at built
    contradiction
  | some next =>
    obtain ⟨made, builds, prevTerm, entries, term, -⟩ := rep.builds progress (word next progress)
    obtain rfl := Except.ok.inj (built.symm.trans builds)
    exact ⟨prevTerm, entries, term⟩

/-- For a next index within reach the request follows an index of the log. -/
theorem Represents.ships (rep : Represents l log)
    (progress : (l.nextIndex.bind fun known => known peer) = some next) (low : 1 ≤ next)
    (high : next ≤ log.length + 1) : ∃ req, l.buildAppendEntries peer = .ok req ∧ req.Ships log ∧
      req.term = l.currentTerm ∧ req.leaderID = l.id ∧ req.leaderCommit = l.commitIndex ∧
      req.prevLogIndex = max (next - 1) l.lastIncludedIndex := by
  have covered := rep.covered
  have bounded := rep.bounded
  obtain ⟨req, built, prevTerm, entries, term, own, commit, prev⟩ := rep.builds progress (by omega)
  exact ⟨req, built, ⟨by omega, prevTerm, entries⟩, term, own, commit, prev⟩

/-- An entry that was sent, at its place in the leader's log. -/
theorem AppendEntriesRequest.Ships.found (ships : req.Ships sent) (position : Nat) :
    req.entries[position]? = sent[req.prevLogIndex + position]? := by
  rw [ships.entries, List.getElem?_drop]

namespace Receives

/-- The follower's snapshot covers what the leader has. -/
theorem snapshot_agrees (receives : Receives f full log) :
    full.take f.lastIncludedIndex = log.take f.lastIncludedIndex ∧ f.lastIncludedIndex ≤ log.length := by
  have covered := receives.represents.covered
  have length := receives.snapshot.length_le
  have read := List.prefix_iff_eq_take.mp receives.snapshot
  rw [List.length_take] at length read
  rw [Nat.min_eq_left covered] at length read
  exact ⟨read, length⟩

/-- The logs agree at an index of what was sent that the follower covers. -/
theorem covered_agrees (receives : Receives f full log) (positive : PositiveTerms log)
    (older : sent <+: log) {position : Nat} {entry : LogEntry} (found : sent[position]? = some entry)
    (covered : Covered f full (position + 1) entry) :
    full.take (position + 1) = sent.take (position + 1) ∧ position + 1 ≤ full.length := by
  have inside := (List.getElem?_eq_some_iff.mp found).1
  have whole : sent.take (position + 1) = log.take (position + 1) := by
    obtain ⟨rest, rfl⟩ := older
    exact (List.take_append_of_le_length inside).symm
  rw [whole]
  rcases covered with below | ⟨within, same⟩
  · have agrees := receives.snapshot_agrees
    have included := receives.represents.covered
    have shorter := congrArg (List.take (position + 1)) agrees.1
    rw [List.take_take, List.take_take, Nat.min_eq_left below] at shorter
    exact ⟨shorter, by omega⟩
  · have term := termAt_succ (older.getElem?_of_some found)
    have present := positive entry (List.mem_of_getElem? (older.getElem?_of_some found))
    exact receives.matching.agree (by rw [term, same]) (by omega)

/-- A request that passes the log check follows an index up to which the logs agree. -/
theorem prev_agrees (receives : Receives f full log) (positive : PositiveTerms log)
    (older : sent <+: log) (ships : req.Ships sent) (passed : ¬ f.Mismatch req) :
    full.take req.prevLogIndex = sent.take req.prevLogIndex ∧ req.prevLogIndex ≤ full.length ∧
      (req.prevLogIndex = 0 ∨ f.lastIncludedIndex ≤ req.prevLogIndex) := by
  by_cases first : req.prevLogIndex = 0
  · rw [first]
    exact ⟨rfl, Nat.zero_le _, Or.inl rfl⟩
  have inside : req.prevLogIndex - 1 < sent.length := by
    have := ships.prevLe
    omega
  have found : sent[req.prevLogIndex - 1]? = some sent[req.prevLogIndex - 1] :=
    List.getElem?_eq_getElem inside
  have term := termAt_succ found
  have index : req.prevLogIndex - 1 + 1 = req.prevLogIndex := by omega
  rw [index] at term
  have present := positive _ (older.subset (List.mem_of_getElem? found))
  obtain ⟨held, included, includedTerm, -⟩ := f.follow_log req
  have following := receives.represents.congr held included includedTerm
  have known : (f.follow req).logTermAtLocked req.prevLogIndex = req.prevLogTerm := by
    by_contra other
    exact passed ⟨Nat.pos_of_ne_zero first, other⟩
  have above : (f.follow req).lastIncludedIndex ≤ req.prevLogIndex := by
    by_contra below
    rw [following.logTermAt_below (by omega), ships.prevTerm, term] at known
    omega
  rw [following.logTermAt above, ships.prevTerm, term] at known
  have agrees := receives.covered_agrees positive older found (Or.inr ⟨?_, ?_⟩)
  · rw [index] at agrees
    exact ⟨agrees.1, agrees.2, Or.inr (by omega)⟩
  · rw [index]
    by_contra beyond
    rw [termAt_beyond (by omega)] at known
    omega
  · rw [index]
    exact known

/-- A follower that covers everything sent has the leader's log as a prefix. -/
theorem has_all (receives : Receives f full log) (positive : PositiveTerms log) (older : sent <+: log)
    (ships : req.Ships sent) (passed : ¬ f.Mismatch req)
    (all : ∀ position entry, req.entries[position]? = some entry →
      Covered f full (req.prevLogIndex + 1 + position) entry) : sent <+: full := by
  have prevLe := ships.prevLe
  by_cases heartbeat : req.prevLogIndex = sent.length
  · have agrees := receives.prev_agrees positive older ships passed
    rw [heartbeat, List.take_length] at agrees
    rw [← agrees.1]
    exact List.take_prefix _ _
  · -- the last entry sent decides
    have last : sent[sent.length - 1]? = some sent[sent.length - 1] :=
      List.getElem?_eq_getElem (by omega)
    have place := ships.found (sent.length - 1 - req.prevLogIndex)
    rw [show req.prevLogIndex + (sent.length - 1 - req.prevLogIndex) = sent.length - 1 by omega,
      last] at place
    have covered := all _ _ place
    rw [show req.prevLogIndex + 1 + (sent.length - 1 - req.prevLogIndex) = sent.length - 1 + 1 by
      omega] at covered
    have agrees := receives.covered_agrees positive older last covered
    rw [show sent.length - 1 + 1 = sent.length by omega, List.take_length] at agrees
    rw [← agrees.1]
    exact List.take_prefix _ _

/-- Up to the first entry it does not cover a follower agrees with the leader. -/
theorem before_agrees (receives : Receives f full log) (positive : PositiveTerms log)
    (older : sent <+: log) (ships : req.Ships sent) (passed : ¬ f.Mismatch req) {position : Nat}
    (inRange : position < req.entries.length)
    (before : ∀ earlier entry, earlier < position → req.entries[earlier]? = some entry →
      Covered f full (req.prevLogIndex + 1 + earlier) entry) :
    full.take (req.prevLogIndex + position) = sent.take (req.prevLogIndex + position) := by
  cases position with
  | zero => exact (receives.prev_agrees positive older ships passed).1
  | succ earlier =>
    have inside : earlier < req.entries.length := by omega
    have found : req.entries[earlier]? = some req.entries[earlier] := List.getElem?_eq_getElem inside
    have covered := before earlier _ (by omega) found
    rw [ships.found] at found
    rw [show req.prevLogIndex + 1 + earlier = req.prevLogIndex + earlier + 1 by omega] at covered
    exact (receives.covered_agrees positive older found covered).1

/-- The append loop copies the leader's log over the follower's. -/
theorem appendLoop (receives : Receives f full log) (positive : PositiveTerms log)
    (older : sent <+: log) (sender : Represents l sent) (ships : req.Ships sent)
    (passed : ¬ f.Mismatch req) : Represents { f.follow req with
      log := ((f.follow req).appendLoop (Word.add req.prevLogIndex 1) req.entries).1 }
      (overlay full sent) := by
  obtain ⟨held, included, includedTerm, -⟩ := f.follow_log req
  have following := receives.represents.congr held included includedTerm
  have prevLe := ships.prevLe
  have bounded := sender.bounded
  have length : req.entries.length = sent.length - req.prevLogIndex := by
    rw [ships.entries, List.length_drop]
  have reached := (receives.prev_agrees positive older ships passed).2.1
  have start : Word.add req.prevLogIndex 1 = req.prevLogIndex + 1 := Word.add_eq (by omega)
  have accepted := RaftNode.appendLoop_accepted following req.entries
    (by omega : 1 ≤ req.prevLogIndex + 1) (by omega) (by omega)
  rw [start]
  generalize (f.follow req).appendLoop (req.prevLogIndex + 1) req.entries = result at accepted
  -- the follower covers what the record that follows the leader covers
  have same : ∀ index entry, Covered (f.follow req) full index entry = Covered f full index entry := by
    intro index entry
    unfold Covered
    rw [included]
  cases accepted with
  | unchanged all =>
    have present := receives.has_all positive older ships passed fun position entry found => by
      rw [← same]
      exact all position entry found
    rw [Matching.overlay_of_isPrefix present]
    exact following
  | cut position inRange before above near differs =>
    have agrees := receives.before_agrees positive older ships passed inRange
      fun earlier entry below found => by
        rw [← same]
        exact before earlier entry below found
    have found : req.entries[position]? = some req.entries[position] := List.getElem?_eq_getElem inRange
    have place := (ships.found position).symm.trans found
    have absent : ¬ sent <+: full := by
      intro present
      have there := present.getElem?_of_some place
      have inside := (List.getElem?_eq_some_iff.mp there).1
      refine differs _ found (by omega) ?_
      rw [show req.prevLogIndex + 1 + position = req.prevLogIndex + position + 1 by omega]
      exact termAt_succ there
    rw [Matching.overlay_of_not_isPrefix absent]
    have numbered : normalizeEntries (req.prevLogIndex + 1 + position) (req.entries.drop position) =
        sent.drop (req.prevLogIndex + position) := by
      rw [ships.entries, List.drop_drop]
      refine normalizeEntries_eq_self (by rw [List.length_drop]; omega) fun place entry there => ?_
      rw [List.getElem?_drop] at there
      have number := sender.indexed _ _ there
      omega
    refine ⟨?_, ?_, sender.indexed, ?_, sender.bounded⟩
    · show (f.follow req).lastIncludedIndex ≤ sent.length
      omega
    · show _ = sent.drop (f.follow req).lastIncludedIndex
      rw [numbered, show req.prevLogIndex + 1 + position - ((f.follow req).lastIncludedIndex + 1) =
        req.prevLogIndex + position - (f.follow req).lastIncludedIndex by omega, ← List.drop_take,
        agrees, ← List.drop_append_of_le_length (by rw [List.length_take]; omega),
        List.take_append_drop]
    · show (f.follow req).lastIncludedTerm = termAt sent (f.follow req).lastIncludedIndex
      rw [following.boundary]
      exact termAt_congr agrees (by omega)

/-- An accepted request copies the leader's log over the follower's. -/
theorem accept (receives : Receives f full log) (positive : PositiveTerms log)
    (older : sent <+: log) (sender : Represents l sent) (ships : req.Ships sent)
    (passed : ¬ f.Mismatch req) : Represents (f.accept req) (overlay full sent) := by
  have rep := receives.appendLoop positive older sender ships passed
  unfold RaftNode.accept
  cases RaftNode.followCommit_cases { f.follow req with
      log := ((f.follow req).appendLoop (Word.add req.prevLogIndex 1) req.entries).1 }
      req.leaderCommit with
  | inl same =>
    rw [same]
    exact rep
  | inr raised =>
    obtain ⟨index, -, -, same⟩ := raised
    rw [same]
    exact rep.congr rfl rfl rfl

/-- A request that is refused changes nothing of this. -/
theorem refused (receives : Receives f full log) (save : Bool) (refuses : f.accepts req = false) :
    Receives (f.handleAppendEntries save req).node full log := by
  obtain ⟨-, held, -, seat⟩ := RaftNode.handleAppendEntries_refused save refuses
  refine ⟨receives.represents.congr held seat.included seat.includedTerm, receives.positive,
    receives.matching, ?_⟩
  rw [seat.included]
  exact receives.snapshot

/-- A request that is accepted copies the log that was sent, and the commit index follows. -/
theorem accepted (receives : Receives f full log) (positive : PositiveTerms log)
    (older : sent <+: log) (sender : Represents l sent) (ships : req.Ships sent) (save : Bool)
    (accepts : f.accepts req = true) :
    Receives (f.handleAppendEntries save req).node (overlay full sent) log ∧
      (f.handleAppendEntries save req).node.commitIndex =
        max f.commitIndex (min req.leaderCommit (overlay full sent).length) := by
  obtain ⟨current, -, passed⟩ := RaftNode.accepts_iff.mp accepts
  obtain ⟨-, held, commit, seat⟩ := RaftNode.handleAppendEntries_accepted save accepts
  have rep := receives.accept positive older sender ships passed
  have own := RaftNode.accept_seat current
  refine ⟨⟨rep.congr held (seat.included.trans own.included.symm)
    (seat.includedTerm.trans own.includedTerm.symm), ?_, ?_, ?_⟩, ?_⟩
  · unfold overlay
    split
    · exact receives.positive
    · exact fun entry listed => positive entry (older.subset listed)
  · exact receives.matching.overlay (Matching.Matches.isPrefix older)
  · rw [seat.included]
    unfold overlay
    split
    · exact receives.snapshot
    · exact (List.take_prefix _ _).trans older
  · rw [commit, f.accept_commitIndex, rep.lastLogIndex]

end Receives

end

end Raft

import RvKeyValue.Node.ApplyLoop

/-!
# Compaction and the peers

`Compact` replaces a part of the log that is applied by a snapshot, of which the node keeps the last
index and its term. What peers see of a node is compared before and after: votes depend on the last
index and term only; an append that follows an index below the snapshot finds no term there any more.
-/

namespace Raft

open Transition (Reach)

/-- The second record has the log of the first without its beginning, and a snapshot up to there. -/
structure Tail (n m : RaftNode) (cut : List LogEntry) : Prop where
  /-- The own id. -/
  own : m.id = n.id
  /-- The peers. -/
  peers : m.peers = n.peers
  /-- The own membership. -/
  self : m.selfMember = n.selfMember
  /-- Whether the membership is configured. -/
  configured : m.membershipConfigured = n.membershipConfigured
  /-- The role. -/
  state : m.state = n.state
  /-- The term. -/
  term : m.currentTerm = n.currentTerm
  /-- The vote. -/
  vote : m.votedFor = n.votedFor
  /-- The commit index. -/
  commit : m.commitIndex = n.commitIndex
  /-- Both have a store, or none. -/
  stored : m.store.isSome = n.store.isSome
  /-- The log. -/
  log : n.log = cut ++ m.log
  /-- The snapshot covers the beginning. -/
  below : ∀ entry ∈ cut, entry.index ≤ m.lastIncludedIndex
  /-- It ends with its last entry. -/
  index : (cut.getLast?.map LogEntry.index).getD n.lastIncludedIndex = m.lastIncludedIndex
  /-- It knows the term of that entry. -/
  indexTerm : (cut.getLast?.map LogEntry.term).getD n.lastIncludedTerm = m.lastIncludedTerm

/-- What peers see of two records, and the entries above an index. -/
structure SameForPeers (above : Nat) (n m : RaftNode) : Prop where
  /-- The term. -/
  term : m.currentTerm = n.currentTerm
  /-- The vote. -/
  vote : m.votedFor = n.votedFor
  /-- The commit index. -/
  commit : m.commitIndex = n.commitIndex
  /-- The last log index. -/
  lastIndex : m.lastLogIndexLocked = n.lastLogIndexLocked
  /-- The last log term. -/
  lastTerm : m.lastLogTermLocked = n.lastLogTermLocked
  /-- The entries above the index. -/
  entries : m.log.filter (fun entry => decide (above < entry.index)) =
    n.log.filter fun entry => decide (above < entry.index)

/-- Two outcomes of a handler: the same answer, and records that differ by a beginning of the log. -/
structure SameOutcome {α : Type} (cut : List LogEntry) (left right : Outcome α) : Prop where
  /-- The records. -/
  tail : Tail left.node right.node cut
  /-- The response. -/
  value : right.value = left.value
  /-- The error. -/
  err : right.err = left.err

namespace Tail

variable {n m : RaftNode} {cut : List LogEntry}

/-- The last log index. -/
theorem lastLogIndex (tail : Tail n m cut) : m.lastLogIndexLocked = n.lastLogIndexLocked := by
  unfold RaftNode.lastLogIndexLocked
  rw [tail.log, List.getLast?_append, ← tail.index]
  cases m.log.getLast? with
  | some entry => rfl
  | none => cases cut.getLast? <;> rfl

/-- The last log term. -/
theorem lastLogTerm (tail : Tail n m cut) : m.lastLogTermLocked = n.lastLogTermLocked := by
  unfold RaftNode.lastLogTermLocked
  rw [tail.log, List.getLast?_append, ← tail.indexTerm]
  cases m.log.getLast? with
  | some entry => rfl
  | none => cases cut.getLast? <;> rfl

/-- Membership is the same. -/
theorem isMember (tail : Tail n m cut) (id : NodeId) : m.isMemberLocked id = n.isMemberLocked id := by
  unfold RaftNode.isMemberLocked
  rw [tail.own, tail.peers, tail.self, tail.configured]

/-- Peers see the same, and the entries above the snapshot are the same. -/
theorem same (tail : Tail n m cut) : SameForPeers m.lastIncludedIndex n m := by
  refine ⟨tail.term, tail.vote, tail.commit, tail.lastLogIndex, tail.lastLogTerm, ?_⟩
  have none : cut.filter (fun entry => decide (m.lastIncludedIndex < entry.index)) = [] := by
    rw [List.filter_eq_nil_iff]
    intro entry listed above
    have := tail.below entry listed
    have := of_decide_eq_true above
    omega
  rw [tail.log, List.filter_append, none, List.nil_append]

/-- Saving. -/
theorem persisting (tail : Tail n m cut) {α : Type} (save : Bool) (value : α) :
    SameOutcome cut (n.persisting save value) (m.persisting save value) := by
  have stored := tail.stored
  unfold RaftNode.persisting RaftNode.persistLocked
  cases left : n.store with
  | none =>
    rw [left, Option.isSome_none] at stored
    have right : m.store = none := Option.isSome_eq_false_iff.mp stored |> Option.isNone_iff_eq_none.mp
    rw [right]
    exact ⟨tail, rfl, rfl⟩
  | some old =>
    rw [left, Option.isSome_some] at stored
    obtain ⟨other, right⟩ := Option.isSome_iff_exists.mp stored
    rw [right]
    cases save with
    | true => exact ⟨{ tail with stored := rfl }, rfl, rfl⟩
    | false => exact ⟨tail, rfl, rfl⟩

/-- `seeTerm`. -/
theorem seeTerm (tail : Tail n m cut) (term : Nat) : Tail (n.seeTerm term) (m.seeTerm term) cut := by
  unfold RaftNode.seeTerm
  rw [tail.term]
  split
  · exact { tail with state := rfl, term := rfl, vote := rfl }
  · exact tail

/-- `HandleAppendEntries` up to the log check. -/
theorem follow (tail : Tail n m cut) (req : AppendEntriesRequest) :
    Tail (n.follow req) (m.follow req) cut := by
  have seen : Tail (if n.currentTerm < req.term then n.adoptTerm req.term else n)
      (if m.currentTerm < req.term then m.adoptTerm req.term else m) cut := by
    rw [tail.term]
    split
    · exact { tail with term := rfl, vote := rfl }
    · exact tail
  unfold RaftNode.follow
  generalize (if n.currentTerm < req.term then n.adoptTerm req.term else n) = before at seen
  generalize (if m.currentTerm < req.term then m.adoptTerm req.term else m) = after at seen
  dsimp only
  rw [seen.state]
  split
  · exact { seen with state := rfl }
  · exact { seen with state := rfl }

/-- The commit rule of a follower. -/
theorem followCommit (tail : Tail n m cut) (leaderCommit : Nat) :
    Tail (n.followCommit leaderCommit) (m.followCommit leaderCommit) cut := by
  unfold RaftNode.followCommit
  rw [tail.commit, tail.lastLogIndex]
  split
  · exact { tail with commit := rfl }
  · exact tail

/-- `RequestVote`. -/
theorem requestVote (tail : Tail n m cut) (save : Bool) (req : RequestVoteRequest) :
    SameOutcome cut (n.requestVote save req) (m.requestVote save req) := by
  have seen := tail.seeTerm req.term
  unfold RaftNode.requestVote
  rw [tail.term, tail.self, tail.isMember]
  split
  · exact ⟨tail, rfl, rfl⟩
  split
  · exact ⟨tail, rfl, rfl⟩
  split
  · exact ⟨tail, rfl, rfl⟩
  simp only [decide_eq_true_eq]
  have left : (if n.currentTerm < req.term then { n.adoptTerm req.term with state := .follower }
      else n) = n.seeTerm req.term := rfl
  have right : (if n.currentTerm < req.term then { m.adoptTerm req.term with state := .follower }
      else m) = m.seeTerm req.term := by
    unfold RaftNode.seeTerm
    rw [tail.term]
  rw [left, right, seen.vote, seen.lastLogIndex, seen.lastLogTerm, seen.term]
  split
  · refine Tail.persisting ?_ save _
    exact { seen with vote := rfl, term := rfl }
  split
  · exact seen.persisting save _
  · exact ⟨seen, rfl, rfl⟩

/-- `PreVote`. -/
theorem preVote (tail : Tail n m cut) (req : PreVoteRequest) : m.preVote req = n.preVote req := by
  unfold RaftNode.preVote
  rw [tail.term, tail.self, tail.isMember, tail.lastLogIndex, tail.lastLogTerm]

/-- `HandleAppendEntries`, when both find the same term at the previous index if they come to read it, and
the loop cuts the same beginning. -/
theorem handleAppendEntries (tail : Tail n m cut) (save : Bool) (req : AppendEntriesRequest)
    (checks : n.currentTerm ≤ req.term → n.isMemberLocked req.leaderID = true →
      (m.follow req).logTermAtLocked req.prevLogIndex =
        (n.follow req).logTermAtLocked req.prevLogIndex)
    (log : ((n.follow req).appendLoop (Word.add req.prevLogIndex 1) req.entries).1 =
      cut ++ ((m.follow req).appendLoop (Word.add req.prevLogIndex 1) req.entries).1)
    (changed : ((m.follow req).appendLoop (Word.add req.prevLogIndex 1) req.entries).2 =
      ((n.follow req).appendLoop (Word.add req.prevLogIndex 1) req.entries).2) :
    SameOutcome cut (n.handleAppendEntries save req) (m.handleAppendEntries save req) := by
  have following := tail.follow req
  unfold RaftNode.handleAppendEntries RaftNode.appendEntriesToLogLocked
  rw [tail.term, tail.isMember]
  split
  · exact ⟨tail, rfl, rfl⟩
  rename_i current
  split
  · exact ⟨tail, rfl, rfl⟩
  rename_i member
  dsimp only
  rw [checks (Nat.le_of_not_lt current) (Bool.not_eq_false _ ▸ member)]
  by_cases differs : 0 < req.prevLogIndex ∧
      (n.follow req).logTermAtLocked req.prevLogIndex ≠ req.prevLogTerm
  · simp only [if_pos differs]
    rw [following.term]
    split
    · exact following.persisting save _
    · exact ⟨following, rfl, rfl⟩
  · have appended : Tail
        { n.follow req with
          log := ((n.follow req).appendLoop (Word.add req.prevLogIndex 1) req.entries).1 }
        { m.follow req with
          log := ((m.follow req).appendLoop (Word.add req.prevLogIndex 1) req.entries).1 } cut :=
      { following with log := log }
    have committed := appended.followCommit req.leaderCommit
    simp only [if_neg differs]
    rw [changed, committed.term]
    split
    · exact committed.persisting save _
    · exact ⟨committed, rfl, rfl⟩

end Tail

section

variable {n m : RaftNode} {full : List LogEntry}

/-- The part of the whole log between two snapshots. -/
def between (n m : RaftNode) (full : List LogEntry) : List LogEntry :=
  (full.drop n.lastIncludedIndex).take (m.lastIncludedIndex - n.lastIncludedIndex)

/-- Two records of one log retain it up to the part between their snapshots. -/
theorem between_append (long : Represents n full) (short : Represents m full)
    (later : n.lastIncludedIndex ≤ m.lastIncludedIndex) : n.log = between n m full ++ m.log := by
  have rest : m.log = (full.drop n.lastIncludedIndex).drop (m.lastIncludedIndex - n.lastIncludedIndex) := by
    rw [List.drop_drop, short.retained]
    congr 1
    omega
  rw [long.retained, rest]
  exact (List.take_append_drop _ _).symm

/-- How long that part is. -/
theorem between_length (short : Represents m full) :
    (between n m full).length = m.lastIncludedIndex - n.lastIncludedIndex := by
  have covered := short.covered
  unfold between
  rw [List.length_take, List.length_drop]
  omega

/-- An entry of that part. -/
theorem between_getElem? {position : Nat} {entry : LogEntry}
    (found : (between n m full)[position]? = some entry) :
    position < m.lastIncludedIndex - n.lastIncludedIndex ∧
      full[n.lastIncludedIndex + position]? = some entry := by
  unfold between at found
  rw [List.getElem?_take] at found
  split at found
  · rename_i inside
    rw [List.getElem?_drop] at found
    exact ⟨inside, found⟩
  · cases found

/-- The loop of `appendEntriesToLogLocked` does the same on two records of one log, when the entries up
to the later snapshot have the terms the log has. -/
theorem appendLoop_between (long : Represents n full) (short : Represents m full)
    (later : n.lastIncludedIndex ≤ m.lastIncludedIndex) :
    ∀ (entries : List LogEntry) (index : Nat), index + entries.length < Word.limit →
      (∀ position entry, entries[position]? = some entry → index + position ≤ m.lastIncludedIndex →
        entry.term = termAt full (index + position)) →
      (n.appendLoop index entries).1 = between n m full ++ (m.appendLoop index entries).1 ∧
        (m.appendLoop index entries).2 = (n.appendLoop index entries).2 := by
  intro entries
  induction entries with
  | nil =>
    intro index room agree
    exact ⟨between_append long short later, rfl⟩
  | cons entry rest ih =>
    intro index room agree
    rw [List.length_cons] at room
    have next : Word.add index 1 = index + 1 := Word.add_eq (by omega)
    have tail := ih (index + 1) (by omega) fun position other found inside => by
      have same := agree (position + 1) other (by simpa using found) (by omega)
      rwa [show index + (position + 1) = index + 1 + position by omega] at same
    have firstN := long.firstLogIndex
    have firstM := short.firstLogIndex
    have covered := short.covered
    unfold RaftNode.appendLoop
    rw [next]
    by_cases belowN : index ≤ n.lastIncludedIndex
    · -- both snapshots cover the entry
      rw [if_pos belowN, if_pos (belowN.trans later)]
      exact tail
    rw [if_neg belowN]
    by_cases belowM : index ≤ m.lastIncludedIndex
    · -- only the later one does, and the longer log has the entry's term
      have contained := (long.containsLogIndex index).mpr ⟨by omega, by omega⟩
      have held : full[index - 1]? = some full[index - 1] := List.getElem?_eq_getElem (by omega)
      have term := agree 0 entry rfl (by omega)
      have read := termAt_succ held
      rw [show index - 1 + 1 = index + 0 by omega, ← term] at read
      rw [if_pos belowM, if_pos contained, long.entryAt (by omega) held, if_neg (by simp [read])]
      exact tail
    rw [if_neg belowM]
    have contains : m.containsLogIndexLocked index = n.containsLogIndexLocked index := by
      rw [Bool.eq_iff_iff, long.containsLogIndex, short.containsLogIndex]
      omega
    rw [contains]
    split
    · rename_i contained
      obtain ⟨-, inside⟩ := (long.containsLogIndex index).mp contained
      have held : full[index - 1]? = some full[index - 1] := List.getElem?_eq_getElem (by omega)
      rw [long.entryAt (by omega) held, short.entryAt (by omega) held]
      split
      · have distance : index - (n.lastIncludedIndex + 1) -
            (m.lastIncludedIndex - n.lastIncludedIndex) = index - (m.lastIncludedIndex + 1) := by omega
        refine ⟨?_, rfl⟩
        rw [between_append long short later, firstN, firstM, List.take_append,
          between_length short, List.take_of_length_le (by rw [between_length short]; omega),
          List.append_assoc, distance]
      · exact tail
    · refine ⟨?_, rfl⟩
      rw [between_append long short later, List.append_assoc]

/-- Two records of one log with the same fields otherwise. -/
theorem Tail.of_represents (long : Represents n full) (short : Represents m full)
    (later : n.lastIncludedIndex ≤ m.lastIncludedIndex)
    (stored : m.store.isSome = n.store.isSome)
    (same : m = { n with
      log := m.log
      lastIncludedIndex := m.lastIncludedIndex
      lastIncludedTerm := m.lastIncludedTerm
      snapshot := m.snapshot
      store := m.store }) : Tail n m (between n m full) := by
  have covered := short.covered
  have length : (between n m full).length = _ := between_length short
  have last : ∀ {entry : LogEntry}, (between n m full).getLast? = some entry →
      full[m.lastIncludedIndex - 1]? = some entry ∧ n.lastIncludedIndex < m.lastIncludedIndex := by
    intro entry found
    rw [List.getLast?_eq_getElem?, length] at found
    obtain ⟨inside, held⟩ := between_getElem? found
    rw [show n.lastIncludedIndex + (m.lastIncludedIndex - n.lastIncludedIndex - 1) =
      m.lastIncludedIndex - 1 by omega] at held
    exact ⟨held, by omega⟩
  have none : (between n m full).getLast? = none → m.lastIncludedIndex = n.lastIncludedIndex := by
    intro empty
    rw [List.getLast?_eq_none_iff.mp empty, List.length_nil] at length
    omega
  refine ⟨(congrArg RaftNode.id same :), (congrArg RaftNode.peers same :),
    (congrArg RaftNode.selfMember same :),
    (congrArg RaftNode.membershipConfigured same :), (congrArg RaftNode.state same :),
    (congrArg RaftNode.currentTerm same :), (congrArg RaftNode.votedFor same :),
    (congrArg RaftNode.commitIndex same :), stored, between_append long short later, ?_, ?_, ?_⟩
  · intro entry listed
    obtain ⟨position, found⟩ := List.getElem?_of_mem listed
    obtain ⟨inside, held⟩ := between_getElem? found
    have number := short.indexed _ _ held
    omega
  · cases found : (between n m full).getLast? with
    | none => exact (none found).symm
    | some entry =>
      obtain ⟨held, above⟩ := last found
      have number := short.indexed _ _ held
      show entry.index = m.lastIncludedIndex
      omega
  · cases found : (between n m full).getLast? with
    | none =>
      show n.lastIncludedTerm = m.lastIncludedTerm
      rw [long.boundary, short.boundary, none found]
    | some entry =>
      obtain ⟨held, above⟩ := last found
      have read := termAt_succ held
      rw [show m.lastIncludedIndex - 1 + 1 = m.lastIncludedIndex by omega] at read
      show entry.term = m.lastIncludedTerm
      rw [short.boundary, read]

/-- What `Compact` makes of a record that represents a log: nothing, or a record of the same log. -/
theorem Represents.compact_tail (rep : Represents n full) (save : Bool) (snapshot : Bytes) :
    (n.compact save snapshot).node = n ∨
      Represents (n.compact save snapshot).node full ∧
        n.lastIncludedIndex ≤ (n.compact save snapshot).node.lastIncludedIndex ∧
        (n.compact save snapshot).node.lastIncludedIndex = n.lastApplied ∧
        Tail n (n.compact save snapshot).node (between n (n.compact save snapshot).node full) := by
  have short := Numbered.compact rep save snapshot
  rcases n.compact_cases save snapshot with same | ⟨above, known, cut⟩
  · exact Or.inl same
  · have saved : (n.compact save snapshot).node = ((n.cutAtApplied snapshot).persistLocked save).1 := by
      rw [cut]
      rfl
    rcases (n.cutAtApplied snapshot).persistLocked_cases save with kept | stored
    · have node := saved.trans kept
      rw [node] at short ⊢
      exact Or.inr ⟨short, above.le, rfl, Tail.of_represents rep short above.le rfl rfl⟩
    · have some : n.store.isSome = true := by
        by_contra absent
        rw [Bool.not_eq_true, Option.isSome_eq_false_iff, Option.isNone_iff_eq_none] at absent
        have nothing : ((n.cutAtApplied snapshot).persistLocked save).1 = n.cutAtApplied snapshot := by
          unfold RaftNode.persistLocked
          rw [show (n.cutAtApplied snapshot).store = none from absent]
        rw [nothing] at stored
        have store := congrArg RaftNode.store stored
        rw [show (n.cutAtApplied snapshot).store = none from absent] at store
        cases store
      have node := saved.trans stored
      rw [node] at short ⊢
      exact Or.inr ⟨short, above.le, rfl, Tail.of_represents rep short above.le some.symm rfl⟩

/-- A request that is accepted and follows an entry with a term follows the snapshot's index at the
earliest: below it no term is found. -/
theorem Represents.accepts_above (rep : Represents n full) {req : AppendEntriesRequest}
    (accepts : n.accepts req = true) (above : 0 < req.prevLogIndex) (positive : 0 < req.prevLogTerm) :
    n.lastIncludedIndex ≤ req.prevLogIndex := by
  by_contra below
  obtain ⟨log, included, includedTerm, -⟩ := n.follow_log req
  have absent := (rep.congr log included includedTerm).logTermAt_below
    (by omega : req.prevLogIndex < (n.follow req).lastIncludedIndex)
  exact (RaftNode.accepts_iff.mp accepts).2.2 ⟨above, by omega⟩

/-- A handler answers the same on two records, and peers see the same of what it leaves. -/
structure AnswersSame {α : Type} (above : Nat) (left right : Outcome α) : Prop where
  /-- The response. -/
  value : right.value = left.value
  /-- The error. -/
  err : right.err = left.err
  /-- The records. -/
  same : SameForPeers above left.node right.node

/-- Of one record. -/
theorem AnswersSame.refl {α : Type} (above : Nat) (out : Outcome α) : AnswersSame above out out :=
  ⟨rfl, rfl, rfl, rfl, rfl, rfl, rfl, rfl⟩

/-- A request whose check finds the same on two records of one log is handled the same, if its entries
are those of the log as far as the later snapshot goes. -/
theorem Tail.append (long : Represents n full) (short : Represents m full)
    (later : n.lastIncludedIndex ≤ m.lastIncludedIndex) (tail : Tail n m (between n m full))
    (save : Bool) {req : AppendEntriesRequest}
    (checks : n.currentTerm ≤ req.term → n.isMemberLocked req.leaderID = true →
      (m.follow req).logTermAtLocked req.prevLogIndex =
        (n.follow req).logTermAtLocked req.prevLogIndex)
    (room : req.entries ≠ [] → req.prevLogIndex + req.entries.length + 1 < Word.limit)
    (agree : ∀ position entry, req.entries[position]? = some entry →
      req.prevLogIndex + position < m.lastIncludedIndex →
        full[req.prevLogIndex + position]? = some entry) :
    SameOutcome (between n m full) (n.handleAppendEntries save req)
      (m.handleAppendEntries save req) := by
  obtain ⟨logN, includedN, termN, -⟩ := n.follow_log req
  obtain ⟨logM, includedM, termM, -⟩ := m.follow_log req
  have longer := long.congr logN includedN termN
  have shorter := short.congr logM includedM termM
  have part : between (n.follow req) (m.follow req) full = between n m full := by
    unfold between
    rw [includedN, includedM]
  have loops : ((n.follow req).appendLoop (Word.add req.prevLogIndex 1) req.entries).1 =
      between n m full ++
        ((m.follow req).appendLoop (Word.add req.prevLogIndex 1) req.entries).1 ∧
      ((m.follow req).appendLoop (Word.add req.prevLogIndex 1) req.entries).2 =
        ((n.follow req).appendLoop (Word.add req.prevLogIndex 1) req.entries).2 := by
    by_cases empty : req.entries = []
    · rw [empty]
      refine ⟨?_, rfl⟩
      show (n.follow req).log = between n m full ++ (m.follow req).log
      rw [logN, logM]
      exact between_append long short later
    have fits := room empty
    rw [Word.add_eq (by omega), ← part]
    refine appendLoop_between longer shorter (by rw [includedN, includedM]; exact later)
      req.entries _ (by omega) fun position entry found inside => ?_
    rw [includedM] at inside
    have read := termAt_succ (agree position entry found (by omega))
    rw [show req.prevLogIndex + 1 + position = req.prevLogIndex + position + 1 by omega, read]
  exact tail.handleAppendEntries save req checks loops.1 loops.2

/-- The check of a request that has the log's term for its previous index finds the same on two records
of one log, unless the first accepts it and the snapshot of the second goes beyond an entry it follows. -/
theorem Represents.checks_same (long : Represents n full) (short : Represents m full)
    (later : n.lastIncludedIndex ≤ m.lastIncludedIndex) {req : AppendEntriesRequest}
    (term : req.prevLogIndex < m.lastIncludedIndex → req.prevLogTerm = termAt full req.prevLogIndex)
    (follows : n.accepts req = true → 0 < req.prevLogIndex → 0 < req.prevLogTerm →
      m.lastIncludedIndex ≤ req.prevLogIndex) (current : n.currentTerm ≤ req.term)
    (member : n.isMemberLocked req.leaderID = true) :
    (m.follow req).logTermAtLocked req.prevLogIndex =
      (n.follow req).logTermAtLocked req.prevLogIndex := by
  obtain ⟨logN, includedN, termN, -⟩ := n.follow_log req
  obtain ⟨logM, includedM, termM, -⟩ := m.follow_log req
  have longer := long.congr logN includedN termN
  have shorter := short.congr logM includedM termM
  by_cases zero : req.prevLogIndex = 0
  · rw [zero]
    simp [RaftNode.logTermAtLocked]
  by_cases reaches : m.lastIncludedIndex ≤ req.prevLogIndex
  · rw [longer.logTermAt (by omega), shorter.logTermAt (by omega)]
  rw [shorter.logTermAt_below (by omega)]
  by_cases below : req.prevLogIndex < n.lastIncludedIndex
  · exact (longer.logTermAt_below (by omega)).symm
  -- the longer log has the term of the request, so that it accepts
  have found : (n.follow req).logTermAtLocked req.prevLogIndex = req.prevLogTerm :=
    (longer.logTermAt (by omega)).trans (term (by omega)).symm
  rw [found]
  by_contra positive
  exact reaches (follows (RaftNode.accepts_iff.mpr ⟨current, member, fun mismatch => mismatch.2 found⟩)
    (by omega) (by omega))

/-- In every state a process reaches over an empty or saved store by steps that keep the log numbered:
after `Compact`, with any snapshot and whether it is saved or not, votes and pre-votes are answered as
before. An append that a leader whose log agrees up to the commit index has built is answered as before,
with the same seen of the node after it, exactly when it is not one that the node accepts and that
follows an entry the snapshot goes beyond. -/
theorem compaction_unseen {unmarshal : Bytes → Option MembershipCommand} {peers : List NodeId}
    {id : NodeId} {state : PersistentState} {p : Process} (saved : SavedStore unmarshal state)
    (run : Reach (Process.next unmarshal peers) Process.Known
      { node := newRaftNode id peers (some state) } p) (snapshot : Bytes) (kept : Bool) :
    SameForPeers p.node.lastApplied p.node (p.node.compact kept snapshot).node ∧
    (∀ req, (p.node.compact kept snapshot).node.preVote req = p.node.preVote req) ∧
    (∀ save req, AnswersSame p.node.lastApplied (p.node.requestVote save req)
      ((p.node.compact kept snapshot).node.requestVote save req)) ∧
    ∀ (l : RaftNode) (log own : List LogEntry) (peer : NodeId) (req : AppendEntriesRequest)
      (save : Bool), Represents l log → Represents p.node own →
      log.take p.node.commitIndex = own.take p.node.commitIndex →
      (∀ next, (l.nextIndex.bind fun known => known peer) = some next → next < Word.limit) →
      l.buildAppendEntries peer = .ok req →
      (AnswersSame p.node.lastApplied (p.node.handleAppendEntries save req)
          ((p.node.compact kept snapshot).node.handleAppendEntries save req) ↔
        (p.node.accepts req = true → 0 < req.prevLogIndex → 0 < req.prevLogTerm →
          (p.node.compact kept snapshot).node.lastIncludedIndex ≤ req.prevLogIndex)) := by
  obtain ⟨stored, disk⟩ := saved.numbered
  have behind : p.Behind := run.invariant (Process.Behind.start disk id peers)
    fun _ _ _ behind known stepped => behind.next known stepped
  have committed := behind.applied
  -- handlers leave the snapshot, so what is above it is what is above the applied index
  have boundary : ∀ (op : Operation) (save : Bool), op.applies = false →
      (p.node.compact kept snapshot).node.lastIncludedIndex = p.node.lastApplied →
      ((p.node.compact kept snapshot).node.perform unmarshal save op).lastIncludedIndex =
        p.node.lastApplied := by
    intro op save idle applied
    rcases (p.node.compact kept snapshot).node.perform_indices unmarshal save idle with
      ⟨-, stays | moved⟩
    · exact stays.trans applied
    · exact moved.trans (p.node.compact_indices kept snapshot).2.2.1
  have answers : ∀ {α : Type} {cut : List LogEntry} {left right : Outcome α},
      SameOutcome cut left right → right.node.lastIncludedIndex = p.node.lastApplied →
      AnswersSame p.node.lastApplied left right := by
    intro α cut left right out applied
    have seen := out.tail.same
    rw [applied] at seen
    exact ⟨out.value, out.err, seen⟩
  obtain ⟨full, rep⟩ := behind.numbered.memory
  refine ⟨?_, ?_, fun save req => ?_, fun l log own peer req save held ours agrees word built => ?_⟩
  · rcases rep.compact_tail kept snapshot with same | ⟨-, -, applied, tail⟩
    · rw [same]
      exact ⟨rfl, rfl, rfl, rfl, rfl, rfl⟩
    · rw [← applied]
      exact tail.same
  · rcases rep.compact_tail kept snapshot with same | ⟨-, -, -, tail⟩
    · rw [same]
      exact fun _ => rfl
    · exact tail.preVote
  · rcases rep.compact_tail kept snapshot with same | ⟨-, -, applied, tail⟩
    · rw [same]
      exact .refl _ _
    · exact answers (tail.requestVote save req) (boundary (.requestVote req) save rfl applied)
  · -- the log the leader agrees with stands for the node as well
    rcases ours.compact_tail kept snapshot with same | ⟨short, later, applied, tail⟩
    · rw [same]
      exact iff_of_true (.refl _ _) ours.accepts_above
    obtain ⟨prevTerm, entries, -⟩ := held.built word built
    have bounded := held.bounded
    refine ⟨fun answered accepts => ?_, fun follows => answers (tail.append ours short later save
      (ours.checks_same short later (fun below => ?_) follows) (fun some => ?_)
      fun position entry found inside => ?_) (boundary (.handleAppendEntries req) save rfl applied)⟩
    · refine short.accepts_above ((RaftNode.handleAppendEntries_success_iff _ save _).mp ?_)
      rw [answered.value]
      exact (RaftNode.handleAppendEntries_success_iff _ _ _).mpr accepts
    · exact prevTerm.trans (termAt_congr agrees (by omega))
    · have inside : req.prevLogIndex < log.length := by
        by_contra beyond
        exact some (entries.trans (List.drop_eq_nil_iff.mpr (by omega)))
      rw [entries, List.length_drop]
      omega
    · rw [entries, List.getElem?_drop] at found
      have common := congrArg (fun list => list[req.prevLogIndex + position]?) agrees
      simp only [List.getElem?_take_of_lt (show req.prevLogIndex + position < p.node.commitIndex by
        omega)] at common
      exact common.symm.trans found

end

/-- A record without a snapshot represents its log. -/
theorem Represents.of_log {n : RaftNode} {log : List LogEntry} (retained : n.log = log)
    (included : n.lastIncludedIndex = 0) (term : n.lastIncludedTerm = 0) (indexed : Indexed log)
    (bounded : log.length + 1 < Word.limit) : Represents n log where
  covered := by rw [included]; exact Nat.zero_le _
  retained := by rw [retained, included]; rfl
  indexed := indexed
  boundary := by rw [term, included]; rfl
  bounded := bounded

/-- `A` leads term 1 with two entries, both of them committed; `B` has acknowledged the first. -/
def ledByA : List NodeEvent :=
  [.perform .becomeCandidate true, .perform .becomeLeader true, .perform (.appendLocal [88]) true,
    .perform (.recordReplicationSuccess "B" 1) true, .perform (.appendLocal [89]) true,
    .perform (.recordReplicationSuccess "C" 2) true]

/-- What `A` sends to `B` then. -/
def secondToB : AppendEntriesRequest := ⟨1, "A", 1, 1, [⟨1, 2, [89]⟩], 2⟩

/-- `B` takes both entries and applies them. -/
def appliedByB : List ProcessEvent :=
  [.operate (.handleAppendEntries ⟨1, "A", 0, 0, [⟨1, 1, [88]⟩], 0⟩) true,
    .operate (.handleAppendEntries secondToB) true] ++ List.replicate 7 (.loop true true none)

/-- `B` compacts both entries and takes the third, which follows the snapshot, as before. -/
theorem compaction_unseen_third : ∃ (l : RaftNode) (p : Process) (req : AppendEntriesRequest),
    Reach (Process.next plainCommands ["A", "C"]) Process.Known
      { node := newRaftNode "B" ["A", "C"] (some {}) } p ∧
      p.node.lastIncludedIndex < p.node.lastApplied ∧ l.buildAppendEntries "B" = .ok req ∧
      (p.node.handleAppendEntries true req).value.success = true ∧
      ((p.node.compact true [7]).node.handleAppendEntries true req).value.success = true := by
  have follower : (Transition.exec (Process.next plainCommands ["A", "C"]) Process.Known
      { node := newRaftNode "B" ["A", "C"] (some {}) } appliedByB).any (fun p =>
        decide (p.node.log = [⟨1, 1, [88]⟩, ⟨1, 2, [89]⟩] ∧ p.node.lastIncludedIndex = 0 ∧
          p.node.lastIncludedTerm = 0 ∧ p.node.commitIndex = 2 ∧ p.node.lastApplied = 2 ∧
          (p.node.compact true [7]).node.lastIncludedIndex = 2 ∧
          (p.node.handleAppendEntries true ⟨1, "A", 2, 1, [⟨1, 3, [90]⟩], 2⟩).value.success =
            true)) = true := by
    decide +kernel
  have leader : (Transition.exec (RaftNode.next plainCommands ["B", "C"]) KnownPrev
      (newRaftNode "A" ["B", "C"] (some {})) (ledByA ++
        [.perform (.recordReplicationSuccess "B" 2) true, .perform (.appendLocal [90]) true])).any
      (fun l => decide (l.log = [⟨1, 1, [88]⟩, ⟨1, 2, [89]⟩, ⟨1, 3, [90]⟩] ∧
        l.lastIncludedIndex = 0 ∧ l.lastIncludedTerm = 0 ∧
        (l.nextIndex.bind fun known => known "B") = some 3 ∧
        l.buildAppendEntries "B" = .ok ⟨1, "A", 2, 1, [⟨1, 3, [90]⟩], 2⟩)) = true := by
    decide +kernel
  obtain ⟨p, run, test⟩ := Reach.of_exec_test follower
  obtain ⟨log, included, term, commit, applied, compacted, accepts⟩ := of_decide_eq_true test
  obtain ⟨l, -, test⟩ := Reach.of_exec_test leader
  obtain ⟨sent, includedL, termL, progress, built⟩ := of_decide_eq_true test
  obtain ⟨-, -, -, appends⟩ := compaction_unseen .empty run [7] true
  have same := appends l _ _ "B" _ true
    (Represents.of_log sent includedL termL (by decide) (by decide))
    (Represents.of_log log included term (by decide) (by decide)) (by rw [commit]; rfl)
    (fun next known => by rw [progress] at known; cases known; decide) built
  refine ⟨l, p, _, run, by omega, built, accepts, ?_⟩
  rw [(same.mpr fun _ _ _ => ?_).value]
  · exact accepts
  · rw [compacted]

/-- `A` sends the second entry to `B` again, because the response was lost. `B` accepts it before
`Compact` and refuses it after: the previous index 1 is below the snapshot's 2, and no term is found. -/
theorem compaction_refuses_resent : ∃ (l : RaftNode) (p : Process),
    Reach (RaftNode.next plainCommands ["B", "C"]) KnownPrev
      (newRaftNode "A" ["B", "C"] (some {})) l ∧
      Reach (Process.next plainCommands ["A", "C"]) Process.Known
        { node := newRaftNode "B" ["A", "C"] (some {}) } p ∧
      p.node.lastIncludedIndex < p.node.lastApplied ∧ l.state = .leader ∧
      l.log = p.node.log ∧ l.lastIncludedIndex = p.node.lastIncludedIndex ∧
      l.buildAppendEntries "B" = .ok secondToB ∧
      (p.node.handleAppendEntries true secondToB).value.success = true ∧
      ((p.node.compact true [7]).node.handleAppendEntries true secondToB).value.success = false := by
  have follower : (Transition.exec (Process.next plainCommands ["A", "C"]) Process.Known
      { node := newRaftNode "B" ["A", "C"] (some {}) } appliedByB).any (fun p =>
        decide (p.node.log = [⟨1, 1, [88]⟩, ⟨1, 2, [89]⟩] ∧ p.node.lastIncludedIndex = 0 ∧
          p.node.lastApplied = 2 ∧ (p.node.handleAppendEntries true secondToB).value.success = true ∧
          ((p.node.compact true [7]).node.handleAppendEntries true secondToB).value.success =
            false)) = true := by
    decide +kernel
  have leader : (Transition.exec (RaftNode.next plainCommands ["B", "C"]) KnownPrev
      (newRaftNode "A" ["B", "C"] (some {})) ledByA).any (fun l =>
        decide (l.state = .leader ∧ l.log = [⟨1, 1, [88]⟩, ⟨1, 2, [89]⟩] ∧ l.lastIncludedIndex = 0 ∧
          l.buildAppendEntries "B" = .ok secondToB)) = true := by
    decide +kernel
  obtain ⟨p, run, test⟩ := Reach.of_exec_test follower
  obtain ⟨log, included, applied, accepts, refuses⟩ := of_decide_eq_true test
  obtain ⟨l, led, test⟩ := Reach.of_exec_test leader
  obtain ⟨leads, sent, includedL, built⟩ := of_decide_eq_true test
  exact ⟨l, p, led, run, by omega, leads, sent.trans log.symm, includedL.trans included.symm, built,
    accepts, refuses⟩

end Raft

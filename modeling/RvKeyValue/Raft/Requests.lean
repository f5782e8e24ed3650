import RvKeyValue.Raft.Append

/-!
# Requests and whole logs

What can be said of `HandleAppendEntries` without any assumption about who is leader: a request
a node built, with entries of positive terms that follow a known entry, leaves the receiver's
log numbered without a gap, and it replaces an entry only where it carries another term.
-/

namespace Raft

/-- Every entry was written in a term above zero. -/
def PositiveTerms (log : List LogEntry) : Prop := ∀ entry ∈ log, 0 < entry.term

instance (log : List LogEntry) : Decidable (PositiveTerms log) := by
  unfold PositiveTerms
  infer_instance

/-- The entries of a request have positive terms, follow an entry the sender knows, and leave room
for the next index. -/
def AppendEntriesRequest.Contiguous (req : AppendEntriesRequest) : Prop :=
  req.entries ≠ [] → (req.prevLogIndex = 0 ∨ 0 < req.prevLogTerm) ∧ PositiveTerms req.entries ∧
    req.prevLogIndex + req.entries.length + 1 < Word.limit

/-- Entry number `position` of a request meets another term in the log, at an index up to the
given one. -/
def RaftNode.conflictsAt (n : RaftNode) (req : AppendEntriesRequest) (upTo position : Nat) : Bool :=
  let index := req.prevLogIndex + 1 + position
  decide (index ≤ upTo) && n.containsLogIndexLocked index &&
    decide ((n.entryAtLocked index).term ≠ ((req.entries[position]?).getD default).term)

/-- A request carries an entry that meets another term in the log, at an index up to the given
one. -/
def RaftNode.conflicts (n : RaftNode) (req : AppendEntriesRequest) (upTo : Nat) : Bool :=
  (List.range req.entries.length).any fun position => n.conflictsAt req upTo position

section

variable {n : RaftNode} {full : List LogEntry}

/-- With positive terms, only a present index has a term. -/
theorem Represents.termAt_pos (positive : PositiveTerms full) {index : Nat} (above : 0 < index)
    (inside : index ≤ full.length) : 0 < termAt full index := by
  have found : full[index - 1]? = some full[index - 1] := List.getElem?_eq_getElem (by omega)
  have read := termAt_succ found
  rw [show index - 1 + 1 = index by omega] at read
  rw [read]
  exact positive _ (List.mem_of_getElem? found)

/-- The requests a node builds are contiguous. -/
theorem Represents.buildAppendEntries (rep : Represents n full) (positive : PositiveTerms full)
    {peer : NodeId} {req : AppendEntriesRequest} (built : n.buildAppendEntries peer = .ok req) :
    req.Contiguous := by
  unfold RaftNode.buildAppendEntries at built
  split at built
  · contradiction
  · rename_i known found
    have covered := rep.covered
    have bounded := rep.bounded
    rw [rep.firstLogIndex] at built
    generalize next : (if known ≤ n.lastIncludedIndex then n.lastIncludedIndex + 1 else known) = start
      at built
    have above : n.lastIncludedIndex < start := by
      rw [← next]
      split <;> omega
    have fields := Except.ok.inj built
    rw [← fields]
    unfold AppendEntriesRequest.Contiguous
    simp only
    intro some
    have entries : n.cloneEntriesFromLocked start = full.drop (start - 1) := rep.cloneEntriesFrom above
    have inside : start - 1 < full.length := by
      by_contra beyond
      have empty : full.drop (start - 1) = [] := List.drop_eq_nil_iff.mpr (by omega)
      exact some (entries.trans empty)
    have previous : Word.sub start 1 = start - 1 := Word.sub_eq (by omega) (by omega)
    rw [previous, entries, rep.logTermAt (by omega : n.lastIncludedIndex ≤ start - 1)]
    refine ⟨?_, fun entry listed => positive entry (List.mem_of_mem_drop listed), ?_⟩
    · by_cases first : start - 1 = 0
      · exact Or.inl first
      · exact Or.inr (Represents.termAt_pos positive (by omega) (by omega))
    · rw [List.length_drop]
      omega

/-- A request that passes the log check follows an index the log has. -/
theorem Represents.prevInside (rep : Represents n full) {req : AppendEntriesRequest}
    (known : req.prevLogIndex = 0 ∨ 0 < req.prevLogTerm)
    (passed : ¬ (0 < req.prevLogIndex ∧ n.logTermAtLocked req.prevLogIndex ≠ req.prevLogTerm)) :
    req.prevLogIndex ≤ full.length := by
  by_cases first : req.prevLogIndex = 0
  · omega
  have term : n.logTermAtLocked req.prevLogIndex = req.prevLogTerm := by
    by_contra other
    exact passed ⟨Nat.pos_of_ne_zero first, other⟩
  have covered := rep.covered
  by_cases below : req.prevLogIndex < n.lastIncludedIndex
  · omega
  rw [rep.logTermAt (Nat.le_of_not_lt below)] at term
  by_contra beyond
  rw [termAt_beyond (Nat.lt_of_not_le beyond)] at term
  have positive := known.resolve_left first
  omega

/-- What the append loop leaves: a numbered log that keeps every entry below the first conflict and
carries the terms that were sent. -/
structure AppendedTo (n : RaftNode) (req : AppendEntriesRequest) (full full' : List LogEntry) : Prop where
  /-- Entries are old or were sent. -/
  origin : ∀ entry ∈ full', entry ∈ full ∨ ∃ (position : Nat) (sent : LogEntry),
    req.entries[position]? = some sent ∧ entry = { sent with index := req.prevLogIndex + 1 + position }
  /-- What the snapshot covers stays. -/
  below : full'.take n.lastIncludedIndex = full.take n.lastIncludedIndex
  /-- Entries below a conflict stay. -/
  kept : ∀ upTo, n.conflicts req upTo = false → upTo ≤ full.length → full'.take upTo = full.take upTo
  /-- The log does not end before the index the request follows. -/
  reaches : req.prevLogIndex ≤ full.length → req.prevLogIndex ≤ full'.length
  /-- What was sent is there, or the snapshot covers it. -/
  sent : ∀ position entry, req.entries[position]? = some entry →
    req.prevLogIndex + 1 + position ≤ n.lastIncludedIndex ∨
      req.prevLogIndex + 1 + position ≤ full'.length ∧
        termAt full' (req.prevLogIndex + 1 + position) = entry.term

/-- An entry sent for a place that holds one of another term is a conflict. -/
theorem Represents.conflict (rep : Represents n full) {req : AppendEntriesRequest} {position upTo : Nat}
    (inRange : position < req.entries.length)
    (above : n.lastIncludedIndex < req.prevLogIndex + 1 + position)
    (inside : req.prevLogIndex + 1 + position ≤ full.length)
    (within : req.prevLogIndex + 1 + position ≤ upTo)
    (differs : termAt full (req.prevLogIndex + 1 + position) ≠ req.entries[position].term) :
    n.conflicts req upTo = true := by
  have found : req.entries[position]? = some req.entries[position] := List.getElem?_eq_getElem inRange
  have there : full[req.prevLogIndex + 1 + position - 1]? =
      some full[req.prevLogIndex + 1 + position - 1] :=
    List.getElem?_eq_getElem (by omega)
  have term := termAt_succ there
  rw [show req.prevLogIndex + 1 + position - 1 + 1 = req.prevLogIndex + 1 + position by omega] at term
  have contained := (rep.containsLogIndex (req.prevLogIndex + 1 + position)).mpr ⟨above, inside⟩
  have entry := rep.entryAt above there
  refine List.any_eq_true.mpr ⟨position, List.mem_range.mpr inRange, ?_⟩
  simp only [RaftNode.conflictsAt, contained, entry, found, Option.getD_some,
    Bool.and_eq_true, decide_eq_true_eq]
  exact ⟨⟨within, trivial⟩, by rw [← term]; exact differs⟩

/-- The log is cut where the first uncovered entry goes. -/
theorem Represents.cut (rep : Represents n full) {req : AppendEntriesRequest}
    (room : req.prevLogIndex + req.entries.length + 1 < Word.limit) {position : Nat}
    (inRange : position < req.entries.length)
    (before : ∀ earlier entry, earlier < position → req.entries[earlier]? = some entry →
      Covered n full (req.prevLogIndex + 1 + earlier) entry)
    (above : n.lastIncludedIndex < req.prevLogIndex + 1 + position)
    (near : req.prevLogIndex + 1 + position ≤ full.length + 1)
    (differs : ∀ entry, req.entries[position]? = some entry →
      req.prevLogIndex + 1 + position ≤ full.length →
      termAt full (req.prevLogIndex + 1 + position) ≠ entry.term) :
    ∃ full', Represents { n with
        log := (full.drop n.lastIncludedIndex).take
            (req.prevLogIndex + 1 + position - (n.lastIncludedIndex + 1)) ++
          normalizeEntries (req.prevLogIndex + 1 + position) (req.entries.drop position) } full' ∧
      AppendedTo n req full full' := by
  have covered := rep.covered
  have kept : (full.take (req.prevLogIndex + position)).length = req.prevLogIndex + position := by
    rw [List.length_take]
    omega
  have length : (normalizeEntries (req.prevLogIndex + 1 + position)
      (req.entries.drop position)).length = req.entries.length - position := by
    rw [normalizeEntries_length, List.length_drop]
  have fits : req.prevLogIndex + 1 + position + (req.entries.drop position).length < Word.limit := by
    rw [List.length_drop]
    omega
  -- the part of the new log that was sent, read at a place above the cut
  have read : ∀ place, req.prevLogIndex + position ≤ place →
      (full.take (req.prevLogIndex + position) ++ normalizeEntries (req.prevLogIndex + 1 + position)
        (req.entries.drop position))[place]? =
      (req.entries[place - req.prevLogIndex]?).map fun entry => { entry with index := place + 1 } := by
    intro place high
    rw [List.getElem?_append_right (by rw [kept]; exact high), kept, normalizeEntries_getElem? fits,
      List.getElem?_drop, show position + (place - (req.prevLogIndex + position)) =
        place - req.prevLogIndex by omega, show req.prevLogIndex + 1 + position +
        (place - (req.prevLogIndex + position)) = place + 1 by omega]
  have low : ∀ upTo ≤ req.prevLogIndex + position,
      (full.take (req.prevLogIndex + position) ++ normalizeEntries (req.prevLogIndex + 1 + position)
        (req.entries.drop position)).take upTo = full.take upTo := by
    intro upTo within
    rw [List.take_append_of_le_length (by rw [kept]; exact within), List.take_take,
      Nat.min_eq_left within]
  refine ⟨full.take (req.prevLogIndex + position) ++
    normalizeEntries (req.prevLogIndex + 1 + position) (req.entries.drop position),
    ⟨?_, ?_, ?_, ?_, ?_⟩, ?_, low _ (by omega), fun upTo quiet within => low upTo ?_, ?_, ?_⟩
  · rw [List.length_append, kept]
    show n.lastIncludedIndex ≤ _
    omega
  · show _ = List.drop n.lastIncludedIndex (_ ++ _)
    rw [List.drop_append_of_le_length (by rw [kept]; omega), List.drop_take,
      show req.prevLogIndex + 1 + position - (n.lastIncludedIndex + 1) =
        req.prevLogIndex + position - n.lastIncludedIndex by omega]
  · intro place entry found
    by_cases old : place < req.prevLogIndex + position
    · rw [List.getElem?_append_left (by rw [kept]; exact old), List.getElem?_take_of_lt old] at found
      exact rep.indexed place entry found
    · rw [read place (Nat.le_of_not_lt old)] at found
      obtain ⟨sent, -, rfl⟩ := Option.map_eq_some_iff.mp found
      rfl
  · exact rep.boundary.trans (termAt_congr (low _ (by omega)).symm (le_refl _))
  · rw [List.length_append, kept, length]
    omega
  · intro entry listed
    cases List.mem_append.mp listed with
    | inl old => exact Or.inl (List.mem_of_mem_take old)
    | inr new =>
      obtain ⟨place, found⟩ := List.mem_iff_getElem?.mp new
      rw [normalizeEntries_getElem? fits] at found
      obtain ⟨sent, there, rfl⟩ := Option.map_eq_some_iff.mp found
      rw [List.getElem?_drop] at there
      exact Or.inr ⟨position + place, sent, there, by rw [Nat.add_assoc _ position]⟩
  · by_contra high
    -- otherwise the cut itself is a conflict
    have inside : req.prevLogIndex + 1 + position ≤ full.length := by omega
    have conflict : n.conflicts req upTo = true := rep.conflict inRange above inside (by omega)
      (differs _ (List.getElem?_eq_getElem inRange) inside)
    rw [quiet] at conflict
    contradiction
  · intro within
    rw [List.length_append, kept]
    omega
  · intro place entry found
    have inside := (List.getElem?_eq_some_iff.mp found).1
    by_cases old : place < position
    · refine (before place entry old found).imp_right fun ⟨_, same⟩ => ⟨?_, ?_⟩
      · rw [List.length_append, kept, length]
        omega
      · rw [← same]
        exact termAt_congr (low (req.prevLogIndex + position) (le_refl _)) (by omega)
    · refine Or.inr ⟨?_, ?_⟩
      · rw [List.length_append, kept, length]
        omega
      · have there := read (req.prevLogIndex + place) (by omega)
        rw [Nat.add_sub_cancel_left, found, Option.map_some] at there
        rw [show req.prevLogIndex + 1 + place = req.prevLogIndex + place + 1 by omega,
          termAt_succ there]

/-- The append loop of a request that passed the log check. -/
theorem Represents.appendLoop (rep : Represents n full) {req : AppendEntriesRequest}
    (known : req.entries ≠ [] → req.prevLogIndex = 0 ∨ 0 < req.prevLogTerm)
    (room : req.entries ≠ [] → req.prevLogIndex + req.entries.length + 1 < Word.limit)
    (passed : ¬ (0 < req.prevLogIndex ∧ n.logTermAtLocked req.prevLogIndex ≠ req.prevLogTerm)) :
    ∃ full', Represents
        { n with log := (n.appendLoop (Word.add req.prevLogIndex 1) req.entries).1 } full' ∧
      AppendedTo n req full full' := by
  by_cases empty : req.entries = []
  · rw [empty]
    exact ⟨full, rep, fun _ => Or.inl, rfl, fun _ _ _ => rfl, id, by simp [empty]⟩
  have prevLe := rep.prevInside (known empty) passed
  have fits := room empty
  have start : Word.add req.prevLogIndex 1 = req.prevLogIndex + 1 := Word.add_eq (by omega)
  have accepted := RaftNode.appendLoop_accepted rep req.entries
    (by omega : 1 ≤ req.prevLogIndex + 1) (by omega) (by omega)
  rw [start]
  generalize n.appendLoop (req.prevLogIndex + 1) req.entries = result at accepted
  cases accepted with
  | unchanged all => exact ⟨full, rep, fun _ => Or.inl, rfl, fun _ _ _ => rfl, id, all⟩
  | cut position inRange before above near differs =>
    exact rep.cut fits inRange before above near differs

/-- Following a leader changes no conflict. -/
theorem RaftNode.conflicts_follow (n : RaftNode) (req : AppendEntriesRequest) (upTo : Nat) :
    (n.follow req).conflicts req upTo = n.conflicts req upTo := by
  obtain ⟨log, included, -⟩ := n.follow_log req
  have first : (n.follow req).firstLogIndexLocked = n.firstLogIndexLocked := by
    unfold firstLogIndexLocked
    rw [included]
  have last : (n.follow req).lastLogIndexLocked = n.lastLogIndexLocked := by
    unfold lastLogIndexLocked
    rw [log, included]
  have contained : ∀ index,
      (n.follow req).containsLogIndexLocked index = n.containsLogIndexLocked index := by
    intro index
    unfold containsLogIndexLocked
    rw [first, last]
  have entry : ∀ index, (n.follow req).entryAtLocked index = n.entryAtLocked index := by
    intro index
    unfold entryAtLocked
    rw [first, log]
  unfold conflicts conflictsAt
  simp only [contained, entry]

/-- What accepting a request leaves. -/
theorem Represents.accepted (rep : Represents n full) {req : AppendEntriesRequest}
    (known : req.entries ≠ [] → req.prevLogIndex = 0 ∨ 0 < req.prevLogTerm)
    (room : req.entries ≠ [] → req.prevLogIndex + req.entries.length + 1 < Word.limit)
    (passed : ¬ n.Mismatch req) :
    ∃ full', Represents (n.accept req) full' ∧ AppendedTo n req full full' := by
  obtain ⟨log, included, includedTerm, -⟩ := n.follow_log req
  have following := rep.congr log included includedTerm
  obtain ⟨full', rep', appended⟩ := following.appendLoop known room passed
  refine ⟨full', ?_, appended.origin, ?_, fun upTo quiet => appended.kept upTo ?_, appended.reaches,
    fun position entry found => ?_⟩
  · unfold RaftNode.accept
    cases RaftNode.followCommit_cases { n.follow req with
        log := ((n.follow req).appendLoop (Word.add req.prevLogIndex 1) req.entries).1 }
        req.leaderCommit with
    | inl same =>
      rw [same]
      exact rep'
    | inr raised =>
      obtain ⟨index, -, -, same⟩ := raised
      rw [same]
      exact rep'.congr rfl rfl rfl
  · have below := appended.below
    rwa [included] at below
  · rw [n.conflicts_follow]
    exact quiet
  · have sent := appended.sent position entry found
    rwa [included] at sent

/-- What accepting a contiguous request leaves: a numbered log that keeps every entry below the first
conflict. -/
theorem Represents.accept (rep : Represents n full) (positive : PositiveTerms full)
    {req : AppendEntriesRequest} (contiguous : req.Contiguous) (passed : ¬ n.Mismatch req) :
    ∃ full', Represents (n.accept req) full' ∧ PositiveTerms full' ∧
      full'.take n.lastIncludedIndex = full.take n.lastIncludedIndex ∧
      ∀ upTo, n.conflicts req upTo = false → upTo ≤ full.length →
        full'.take upTo = full.take upTo := by
  obtain ⟨full', rep', appended⟩ := rep.accepted (fun some => (contiguous some).1)
    (fun some => (contiguous some).2.2) passed
  refine ⟨full', rep', fun entry listed => ?_, appended.below, appended.kept⟩
  cases appended.origin entry listed with
  | inl old => exact positive entry old
  | inr new =>
    obtain ⟨position, sent, found, rfl⟩ := new
    have there := List.mem_of_getElem? found
    exact (contiguous (List.ne_nil_of_mem there)).2.1 sent there

end

end Raft

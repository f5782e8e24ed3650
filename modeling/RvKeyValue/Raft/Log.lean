import RvKeyValue.Base.Prefix
import RvKeyValue.Raft.Replication

/-!
# The retained log as a suffix of a whole log

A node retains the part of its log above its snapshot and computes every position from the
snapshot's index. `Represents` says that a record is the retained part of a given whole log,
numbered from one; under it each accessor of `raft/node.go` reads the whole log.
-/

namespace Raft

/-- Entry `k` of the list has index `k + 1`. -/
def Indexed (log : List LogEntry) : Prop :=
  ∀ position entry, log[position]? = some entry → entry.index = position + 1

instance (log : List LogEntry) : Decidable (Indexed log) :=
  decidable_of_iff (∀ position : Fin log.length, log[position].index = position + 1) <| by
    constructor
    · intro numbered position entry found
      obtain ⟨inside, rfl⟩ := List.getElem?_eq_some_iff.mp found
      exact numbered ⟨position, inside⟩
    · intro numbered position
      exact numbered position _ (List.getElem?_eq_getElem position.isLt)

/-- The term at an index, zero at index zero and beyond the end. -/
def termAt (log : List LogEntry) (index : Nat) : Nat :=
  if index = 0 then 0 else ((log[index - 1]?).map LogEntry.term).getD 0

/-- A record retains the part of a whole log above its snapshot. -/
structure Represents (n : RaftNode) (full : List LogEntry) : Prop where
  /-- The snapshot covers a prefix. -/
  covered : n.lastIncludedIndex ≤ full.length
  /-- The retained log is the rest. -/
  retained : n.log = full.drop n.lastIncludedIndex
  /-- The whole log is numbered from one. -/
  indexed : Indexed full
  /-- The snapshot knows the term of its last entry. -/
  boundary : n.lastIncludedTerm = termAt full n.lastIncludedIndex
  /-- The index after the last one is still a word. -/
  bounded : full.length + 1 < Word.limit

namespace Indexed

/-- Entries of a numbered list keep their numbers in a prefix. -/
theorem shorten {log pre : List LogEntry} (indexed : Indexed log) (isPrefix : pre <+: log) :
    Indexed pre :=
  fun position entry found => indexed position entry (isPrefix.getElem?_of_some found)

/-- Appending the next entry keeps a list numbered. -/
theorem snoc {log : List LogEntry} {entry : LogEntry} (indexed : Indexed log)
    (next : entry.index = log.length + 1) : Indexed (log ++ [entry]) := by
  intro position other found
  by_cases inside : position < log.length
  · rw [List.getElem?_append_left inside] at found
    exact indexed position other found
  · have bound := (List.getElem?_eq_some_iff.mp found).1
    rw [List.length_append, List.length_singleton] at bound
    have last : position = log.length := by omega
    subst last
    obtain rfl : entry = other := by simpa using found
    exact next

end Indexed

/-- The term at the index of a present entry. -/
theorem termAt_succ {log : List LogEntry} {position : Nat} {entry : LogEntry}
    (found : log[position]? = some entry) : termAt log (position + 1) = entry.term := by
  simp [termAt, found]

/-- Beyond the end there is no term. -/
theorem termAt_beyond {log : List LogEntry} {index : Nat} (beyond : log.length < index) :
    termAt log index = 0 := by
  unfold termAt
  rw [if_neg (by omega), List.getElem?_eq_none (by omega)]
  rfl

/-- A positive term belongs to a present entry. -/
theorem exists_of_termAt_pos {log : List LogEntry} {index : Nat} (positive : 0 < termAt log index) :
    ∃ position entry, index = position + 1 ∧ log[position]? = some entry ∧
      entry.term = termAt log index := by
  cases index with
  | zero => simp [termAt] at positive
  | succ position =>
    cases found : log[position]? with
    | none => simp [termAt, found] at positive
    | some entry => exact ⟨position, entry, rfl, found, by simp [termAt, found]⟩

/-- Two logs that agree up to an index have the same terms there. -/
theorem termAt_congr {left right : List LogEntry} {index upTo : Nat}
    (same : left.take upTo = right.take upTo) (le : index ≤ upTo) :
    termAt left index = termAt right index := by
  unfold termAt
  split
  · rfl
  · have position : index - 1 < upTo := by omega
    have read := congrArg (fun log => log[index - 1]?) same
    simp only [List.getElem?_take_of_lt position] at read
    rw [read]

namespace Represents

variable {n : RaftNode} {full : List LogEntry}

/-- The first retained index follows the snapshot. -/
theorem firstLogIndex (rep : Represents n full) :
    n.firstLogIndexLocked = n.lastIncludedIndex + 1 := by
  have covered := rep.covered
  have bounded := rep.bounded
  exact Word.add_eq (by omega)

/-- The last retained index is the length of the whole log. -/
theorem lastLogIndex (rep : Represents n full) : n.lastLogIndexLocked = full.length := by
  have covered := rep.covered
  unfold RaftNode.lastLogIndexLocked
  rw [rep.retained, List.getLast?_drop]
  split
  · rename_i last
    split at last
    · omega
    · rw [List.getLast?_eq_none_iff] at last
      simp only [last, List.length_nil] at covered ⊢
      omega
  · rename_i entry last
    split at last
    · contradiction
    · rw [List.getLast?_eq_getElem?] at last
      have index := rep.indexed _ _ last
      have inside := (List.getElem?_eq_some_iff.mp last).1
      omega

/-- The last retained term is that of the whole log's last entry. -/
theorem lastLogTerm (rep : Represents n full) : n.lastLogTermLocked = termAt full full.length := by
  have covered := rep.covered
  unfold RaftNode.lastLogTermLocked
  rw [rep.retained, List.getLast?_drop]
  by_cases empty : full.length ≤ n.lastIncludedIndex
  · rw [if_pos empty, show full.length = n.lastIncludedIndex by omega]
    exact rep.boundary
  · rw [if_neg empty]
    have inside : full.length - 1 < full.length := by omega
    have last : full.getLast? = some full[full.length - 1] := by
      rw [List.getLast?_eq_getElem?]
      exact List.getElem?_eq_getElem inside
    have read := termAt_succ (List.getElem?_eq_getElem inside)
    rw [show full.length - 1 + 1 = full.length by omega] at read
    rw [last, read]

/-- An index is retained when it lies above the snapshot and not beyond the end. -/
theorem containsLogIndex (rep : Represents n full) (index : Nat) :
    n.containsLogIndexLocked index = true ↔ n.lastIncludedIndex < index ∧ index ≤ full.length := by
  unfold RaftNode.containsLogIndexLocked
  rw [rep.firstLogIndex, rep.lastLogIndex, Bool.and_eq_true, decide_eq_true_eq, decide_eq_true_eq]
  omega

/-- A retained index reads the whole log's entry. -/
theorem entryAt (rep : Represents n full) {index : Nat} {entry : LogEntry}
    (above : n.lastIncludedIndex < index) (found : full[index - 1]? = some entry) :
    n.entryAtLocked index = entry := by
  unfold RaftNode.entryAtLocked
  rw [rep.firstLogIndex, rep.retained, List.getElem?_drop,
    show n.lastIncludedIndex + (index - (n.lastIncludedIndex + 1)) = index - 1 by omega, found]
  rfl

/-- The next entry to apply is the next committed one; there is none when all are applied. -/
theorem nextCommittedEntry (rep : Represents n full)
    (includedLe : n.lastIncludedIndex ≤ n.lastApplied) (appliedLe : n.lastApplied ≤ n.commitIndex)
    (commitLe : n.commitIndex ≤ full.length) :
    n.nextCommittedEntry = none ∧ n.lastApplied = n.commitIndex ∨
      ∃ entry, n.nextCommittedEntry = some entry ∧ entry.index = n.lastApplied + 1 ∧
        n.lastApplied < n.commitIndex ∧ full[n.lastApplied]? = some entry := by
  have bounded := rep.bounded
  have next : Word.add n.lastApplied 1 = n.lastApplied + 1 := Word.add_eq (by omega)
  have contained := rep.containsLogIndex (n.lastApplied + 1)
  unfold RaftNode.nextCommittedEntry
  simp only [next]
  by_cases all : n.lastApplied = n.commitIndex
  · rw [if_pos (Or.inl (by omega))]
    exact Or.inl ⟨rfl, all⟩
  · have inside : n.lastApplied < full.length := by omega
    have read : full[n.lastApplied + 1 - 1]? = some full[n.lastApplied] :=
      List.getElem?_eq_getElem inside
    have ready : ¬ (n.commitIndex < n.lastApplied + 1 ∨
        n.containsLogIndexLocked (n.lastApplied + 1) = false) := by
      rw [not_or, Bool.not_eq_false, contained]
      omega
    rw [if_neg ready, rep.entryAt (by omega) read]
    exact Or.inr ⟨_, rfl, rep.indexed _ _ (List.getElem?_eq_getElem inside), by omega,
      List.getElem?_eq_getElem inside⟩

/-- From the snapshot's index on, the accessor reads the whole log's terms. -/
theorem logTermAt (rep : Represents n full) {index : Nat} (above : n.lastIncludedIndex ≤ index) :
    n.logTermAtLocked index = termAt full index := by
  unfold RaftNode.logTermAtLocked
  by_cases zero : index = 0
  · simp [zero, termAt]
  by_cases snapshot : index = n.lastIncludedIndex
  · rw [if_neg zero, if_pos snapshot, snapshot]
    exact rep.boundary
  rw [if_neg zero, if_neg snapshot]
  by_cases inside : index ≤ full.length
  · have contained := (rep.containsLogIndex index).mpr ⟨by omega, inside⟩
    have found : full[index - 1]? = some full[index - 1] := List.getElem?_eq_getElem (by omega)
    rw [if_pos contained, rep.entryAt (by omega) found]
    have read := termAt_succ found
    rwa [show index - 1 + 1 = index by omega, eq_comm] at read
  · have absent : ¬ n.containsLogIndexLocked index = true :=
      fun contained => inside ((rep.containsLogIndex index).mp contained).2
    rw [if_neg absent, termAt_beyond (by omega)]

/-- Strictly inside the snapshot the accessor finds nothing. -/
theorem logTermAt_below (rep : Represents n full) {index : Nat}
    (below : index < n.lastIncludedIndex) : n.logTermAtLocked index = 0 := by
  unfold RaftNode.logTermAtLocked
  have absent : ¬ n.containsLogIndexLocked index = true := fun contained => by
    have := ((rep.containsLogIndex index).mp contained).1
    omega
  have other : ¬ index = n.lastIncludedIndex := by omega
  rw [if_neg other, if_neg absent]
  split <;> rfl

/-- The entries sent from an index on are the rest of the whole log. -/
theorem cloneEntriesFrom (rep : Represents n full) {start : Nat} (above : n.lastIncludedIndex < start) :
    n.cloneEntriesFromLocked start = full.drop (start - 1) := by
  have outside : ¬ start ≤ n.lastIncludedIndex := by omega
  simp only [RaftNode.cloneEntriesFromLocked, if_neg outside]
  rw [rep.lastLogIndex, rep.firstLogIndex, rep.retained, List.drop_drop,
    show n.lastIncludedIndex + (start - (n.lastIncludedIndex + 1)) = start - 1 by omega]
  split
  · exact (List.drop_eq_nil_iff.mpr (by omega)).symm
  · rfl

/-- Only the log and the snapshot's index and term matter. -/
theorem congr (rep : Represents n full) {m : RaftNode} (log : m.log = n.log)
    (index : m.lastIncludedIndex = n.lastIncludedIndex)
    (term : m.lastIncludedTerm = n.lastIncludedTerm) : Represents m full where
  covered := by rw [index]; exact rep.covered
  retained := by rw [log, index]; exact rep.retained
  indexed := rep.indexed
  boundary := by rw [term, index]; exact rep.boundary
  bounded := rep.bounded

/-- Appending the next entry extends the whole log. -/
theorem snoc (rep : Represents n full) {entry : LogEntry} (next : entry.index = full.length + 1)
    (room : full.length + 2 < Word.limit) :
    Represents { n with log := n.log ++ [entry] } (full ++ [entry]) where
  covered := by
    have := rep.covered
    rw [List.length_append]
    exact Nat.le_trans this (Nat.le_add_right _ _)
  retained := by
    rw [List.drop_append_of_le_length rep.covered, ← rep.retained]
  indexed := rep.indexed.snoc next
  boundary := by
    have same : full.take n.lastIncludedIndex = (full ++ [entry]).take n.lastIncludedIndex := by
      rw [List.take_append_of_le_length rep.covered]
    exact rep.boundary.trans (termAt_congr same (le_refl _))
  bounded := by
    rw [List.length_append, List.length_singleton]
    omega

/-- The record `Compact` saves retains the rest of the same whole log. -/
theorem cutAtApplied (rep : Represents n full) (above : n.lastIncludedIndex < n.lastApplied)
    (known : 0 < n.logTermAtLocked n.lastApplied) (snapshot : Bytes) :
    Represents (n.cutAtApplied snapshot) full := by
  have term := rep.logTermAt above.le
  have inside : n.lastApplied ≤ full.length := by
    by_contra beyond
    rw [term, termAt_beyond (Nat.lt_of_not_le beyond)] at known
    contradiction
  have first := rep.firstLogIndex
  have last := rep.lastLogIndex
  refine ⟨inside, ?_, rep.indexed, term, rep.bounded⟩
  show n.retainedAfter n.lastApplied = full.drop n.lastApplied
  unfold RaftNode.retainedAfter
  rw [if_neg (by omega : ¬ n.lastApplied < n.firstLogIndexLocked)]
  split
  · rename_i whole
    rw [last] at whole
    exact (List.drop_eq_nil_iff.mpr whole).symm
  · rw [rep.retained, List.drop_drop, first]
    congr 1
    omega

end Represents

end Raft

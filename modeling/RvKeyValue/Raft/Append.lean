import RvKeyValue.Raft.Log

/-!
# Accepting entries

What the loop of `appendEntriesToLogLocked` computes: the log is unchanged when the snapshot
or the log already covers every sent entry, and otherwise it is cut at the first index that
is absent or has another term, and the sent entries follow from there on.
-/

namespace Raft

/-- The snapshot covers the index or the log has the entry's term there. -/
def Covered (n : RaftNode) (full : List LogEntry) (index : Nat) (entry : LogEntry) : Prop :=
  index ≤ n.lastIncludedIndex ∨ index ≤ full.length ∧ termAt full index = entry.term

/-- Renumbering keeps the number of entries. -/
theorem normalizeEntries_length (start : Nat) (entries : List LogEntry) :
    (normalizeEntries start entries).length = entries.length := by
  induction entries generalizing start with
  | nil => rfl
  | cons entry rest ih => simp [normalizeEntries, ih]

/-- Renumbered entries carry consecutive numbers and are otherwise the ones given. -/
theorem normalizeEntries_getElem? {start : Nat} {entries : List LogEntry}
    (room : start + entries.length < Word.limit) (position : Nat) :
    (normalizeEntries start entries)[position]? =
      (entries[position]?).map fun entry => { entry with index := start + position } := by
  induction entries generalizing start position with
  | nil => rfl
  | cons entry rest ih =>
    rw [List.length_cons] at room
    have next : Word.add start 1 = start + 1 := Word.add_eq (by omega)
    rw [normalizeEntries, next]
    cases position with
    | zero => rfl
    | succ position =>
      have later := ih (by omega : start + 1 + rest.length < Word.limit) position
      rw [Nat.add_assoc, Nat.add_comm 1] at later
      simpa using later

/-- Entries that already carry consecutive numbers are renumbered to themselves. -/
theorem normalizeEntries_eq_self {start : Nat} {entries : List LogEntry}
    (room : start + entries.length < Word.limit)
    (numbered : ∀ position entry, entries[position]? = some entry → entry.index = start + position) :
    normalizeEntries start entries = entries := by
  refine List.ext_getElem? fun position => ?_
  rw [normalizeEntries_getElem? room]
  cases found : entries[position]? with
  | none => rfl
  | some entry =>
    have number := numbered position entry found
    rw [Option.map_some, ← number]

/-- What accepting entries from an index on does to a log: a result and whether it changed. -/
inductive Accepted (n : RaftNode) (full : List LogEntry) (index : Nat) (entries : List LogEntry) :
    List LogEntry × Bool → Prop
  /-- Everything sent is covered. -/
  | unchanged (all : ∀ position entry, entries[position]? = some entry →
      Covered n full (index + position) entry) : Accepted n full index entries (n.log, false)
  /-- The first uncovered entry is absent or has another term; the log is cut there. -/
  | cut (position : Nat) (inRange : position < entries.length)
      (before : ∀ earlier entry, earlier < position → entries[earlier]? = some entry →
        Covered n full (index + earlier) entry)
      (above : n.lastIncludedIndex < index + position) (near : index + position ≤ full.length + 1)
      (differs : ∀ entry, entries[position]? = some entry → index + position ≤ full.length →
        termAt full (index + position) ≠ entry.term) :
      Accepted n full index entries
        ((full.drop n.lastIncludedIndex).take (index + position - (n.lastIncludedIndex + 1)) ++
          normalizeEntries (index + position) (entries.drop position), true)

/-- A covered first entry changes nothing. -/
theorem Accepted.cons {n : RaftNode} {full : List LogEntry} {index : Nat} {entry : LogEntry}
    {rest : List LogEntry} {result : List LogEntry × Bool} (covered : Covered n full index entry)
    (accepted : Accepted n full (index + 1) rest result) :
    Accepted n full index (entry :: rest) result := by
  have shift : ∀ position, index + 1 + position = index + (position + 1) := by omega
  have extend : ∀ position other, (entry :: rest)[position]? = some other →
      (∀ earlier, position = earlier + 1 → Covered n full (index + 1 + earlier) other) →
        Covered n full (index + position) other := by
    intro position other found later
    cases position with
    | zero =>
      obtain rfl : entry = other := by simpa using found
      exact covered
    | succ earlier =>
      rw [← shift]
      exact later earlier rfl
  cases accepted with
  | unchanged all =>
    refine .unchanged fun position other found => extend position other found ?_
    rintro earlier rfl
    exact all earlier other (by simpa using found)
  | cut position inRange before above near differs =>
    rw [shift] at above near
    rw [shift]
    refine .cut (position + 1) (by rw [List.length_cons]; omega) (fun earlier other below found => ?_)
      above near (fun other found inside => ?_)
    · refine extend earlier other found ?_
      rintro previous rfl
      exact before previous other (by omega) (by simpa using found)
    · rw [← shift]
      exact differs other (by simpa using found) (by omega)

/-- The loop computes what accepting does. -/
theorem RaftNode.appendLoop_accepted {n : RaftNode} {full : List LogEntry} (rep : Represents n full)
    (entries : List LogEntry) {index : Nat} (start : 1 ≤ index) (near : index ≤ full.length + 1)
    (room : index + entries.length < Word.limit) :
    Accepted n full index entries (n.appendLoop index entries) := by
  induction entries generalizing index with
  | nil => exact .unchanged fun position entry found => by simp at found
  | cons entry rest ih =>
    rw [List.length_cons] at room
    have next : Word.add index 1 = index + 1 := Word.add_eq (by omega)
    have covering := rep.covered
    by_cases snapshot : index ≤ n.lastIncludedIndex
    · rw [appendLoop, if_pos snapshot, next]
      exact (ih (by omega) (by omega) (by omega)).cons (Or.inl snapshot)
    by_cases inside : index ≤ full.length
    · have contained := (rep.containsLogIndex index).mpr ⟨by omega, inside⟩
      have found : full[index - 1]? = some full[index - 1] := List.getElem?_eq_getElem (by omega)
      have read : termAt full index = full[index - 1].term := by
        have value := termAt_succ found
        rwa [show index - 1 + 1 = index by omega] at value
      rw [appendLoop, if_neg snapshot, if_pos contained, rep.entryAt (by omega) found]
      by_cases same : full[index - 1].term = entry.term
      · rw [if_neg (by simpa using same), next]
        exact (ih (by omega) (by omega) (by omega)).cons (Or.inr ⟨inside, read.trans same⟩)
      · rw [if_pos same, rep.firstLogIndex, rep.retained]
        apply Accepted.cut 0 (by simp) (by omega) (by omega) (by omega)
        intro other found' _
        obtain rfl : entry = other := by simpa using found'
        simpa [read] using same
    · have absent : ¬ n.containsLogIndexLocked index = true :=
        fun contained => inside ((rep.containsLogIndex index).mp contained).2
      have whole : n.log = (full.drop n.lastIncludedIndex).take
          (index + 0 - (n.lastIncludedIndex + 1)) := by
        rw [rep.retained, List.take_of_length_le]
        rw [List.length_drop]
        omega
      rw [appendLoop, if_neg snapshot, if_neg absent, whole]
      exact .cut 0 (by simp) (by omega) (by omega) (by omega)
        (fun _ _ present => absurd present inside)

end Raft

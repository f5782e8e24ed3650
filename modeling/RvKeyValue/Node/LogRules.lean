import Mathlib.Data.Finset.Card
import Mathlib.Order.Bounds.Basic
import RvKeyValue.Node.Contiguity

/-!
# The two loops over the log and what they are for

`advanceCommitLocked` walks down from the end of the log and stops at the first entry of the current
term that enough peers hold; the rule is a maximum. `appendEntriesToLogLocked` walks up over the
entries of a request and cuts the log at the first one that it does not have; the rule is a minimum.
Both are compared with their rule on a log that is numbered from the snapshot on, without any
assumption on where the log comes from.
-/

namespace Raft

namespace RaftNode

/-- The log has an entry of the current term at an index, and the node itself and the peers known to
hold it are more than half of the cluster. -/
def Committable (n : RaftNode) (index : Nat) : Prop :=
  (∃ entry ∈ n.log, entry.index = index ∧ entry.term = n.currentTerm) ∧
    n.peers.toFinset.card + 1 < 2 * ((n.peers.toFinset.filter fun peer =>
      index ≤ (n.matchIndex.bind fun known => known peer).getD 0).card + 1)

/-- An index above the snapshot, among those from `start` on that `entries` stand for, that is absent
from the log or present with another term. -/
def Differs (n : RaftNode) (start : Nat) (entries : List LogEntry) (index : Nat) : Prop :=
  n.lastIncludedIndex < index ∧ start ≤ index ∧ ∃ entry, entries[index - start]? = some entry ∧
    ∀ held ∈ n.log, held.index = index → held.term ≠ entry.term

/-- The log with everything from an index on replaced by entries numbered from it. -/
def replacedFrom (n : RaftNode) (index : Nat) (entries : List LogEntry) : List LogEntry :=
  n.log.filter (fun held => held.index < index) ++
    entries.mapIdx fun position entry => { entry with index := index + position }

section

variable {n : RaftNode}

namespace Contiguous

/-- The entry with an index stands at its distance from the snapshot. -/
theorem mem_iff (contiguous : n.Contiguous) {index : Nat} {held : LogEntry} :
    held ∈ n.log ∧ held.index = index ↔
      n.lastIncludedIndex < index ∧ n.log[index - (n.lastIncludedIndex + 1)]? = some held := by
  constructor
  · rintro ⟨listed, rfl⟩
    obtain ⟨position, found⟩ := List.mem_iff_getElem?.mp listed
    have number := contiguous position held found
    refine ⟨by omega, ?_⟩
    rw [show held.index - (n.lastIncludedIndex + 1) = position by omega]
    exact found
  · rintro ⟨above, found⟩
    have number := contiguous _ _ found
    exact ⟨List.mem_of_getElem? found, by omega⟩

/-- The last index is as far from the snapshot as the log is long. -/
theorem lastLogIndex (contiguous : n.Contiguous) :
    n.lastLogIndexLocked = n.lastIncludedIndex + n.log.length := by
  unfold lastLogIndexLocked
  split
  · rename_i empty
    rw [List.getLast?_eq_none_iff.mp empty]
    rfl
  · rename_i entry last
    rw [List.getLast?_eq_getElem?] at last
    have number := contiguous _ _ last
    have inside := (List.getElem?_eq_some_iff.mp last).1
    omega

/-- The entries below an index are those in front of it. -/
theorem filter_below (contiguous : n.Contiguous) (index : Nat) :
    n.log.filter (fun held => held.index < index) =
      n.log.take (index - (n.lastIncludedIndex + 1)) := by
  conv_lhs => rw [← n.log.take_append_drop (index - (n.lastIncludedIndex + 1))]
  rw [List.filter_append]
  have below : (n.log.take (index - (n.lastIncludedIndex + 1))).filter (fun held => held.index < index) =
      n.log.take (index - (n.lastIncludedIndex + 1)) := by
    refine List.filter_eq_self.mpr fun held listed => ?_
    obtain ⟨position, found⟩ := List.mem_iff_getElem?.mp listed
    have near := (List.getElem?_eq_some_iff.mp found).1
    rw [List.length_take] at near
    rw [List.getElem?_take_of_lt (by omega)] at found
    have number := contiguous position held found
    exact decide_eq_true (by omega)
  have above : (n.log.drop (index - (n.lastIncludedIndex + 1))).filter (fun held => held.index < index) =
      [] := by
    refine List.filter_eq_nil_iff.mpr fun held listed => ?_
    obtain ⟨position, found⟩ := List.mem_iff_getElem?.mp listed
    rw [List.getElem?_drop] at found
    have number := contiguous _ held found
    rw [decide_eq_true_eq]
    omega
  rw [below, above, List.append_nil]

/-- An index that is retained has an entry, and the accessor reads it. -/
theorem entryAt (contiguous : n.Contiguous) (first : n.lastIncludedIndex + 1 < Word.limit) {index : Nat}
    (above : n.lastIncludedIndex < index) (inside : index ≤ n.lastLogIndexLocked) :
    n.containsLogIndexLocked index = true ∧ n.entryAtLocked index ∈ n.log ∧
      (n.entryAtLocked index).index = index := by
  have start : n.firstLogIndexLocked = n.lastIncludedIndex + 1 := Word.add_eq first
  have last := contiguous.lastLogIndex
  have within : index - (n.lastIncludedIndex + 1) < n.log.length := by omega
  have read : n.entryAtLocked index = n.log[index - (n.lastIncludedIndex + 1)] := by
    unfold entryAtLocked
    rw [start, List.getElem?_eq_getElem within]
    rfl
  refine ⟨?_, ?_⟩
  · unfold containsLogIndexLocked
    rw [Bool.and_eq_true, decide_eq_true_eq, decide_eq_true_eq, start]
    exact ⟨above, inside⟩
  · rw [read]
    exact contiguous.mem_iff.mpr ⟨above, List.getElem?_eq_getElem within⟩

/-- An index above the last one is not retained. -/
theorem beyond (contiguous : n.Contiguous) {index : Nat} (after : n.lastLogIndexLocked < index) :
    n.containsLogIndexLocked index = false ∧ ∀ held ∈ n.log, held.index ≠ index := by
  refine ⟨?_, fun held listed same => ?_⟩
  · unfold containsLogIndexLocked
    rw [Bool.and_eq_false_iff, decide_eq_false_iff_not, decide_eq_false_iff_not]
    exact Or.inr (Nat.not_le_of_lt after)
  · have last := contiguous.lastLogIndex
    obtain ⟨above, found⟩ := contiguous.mem_iff.mp ⟨listed, same⟩
    have within := (List.getElem?_eq_some_iff.mp found).1
    omega

/-- Two entries with one index are one entry. -/
theorem unique (contiguous : n.Contiguous) {left right : LogEntry} (leftIn : left ∈ n.log)
    (rightIn : right ∈ n.log) (same : left.index = right.index) : left = right := by
  have leftAt := (contiguous.mem_iff.mp ⟨leftIn, same⟩).2
  have rightAt := (contiguous.mem_iff.mp ⟨rightIn, rfl⟩).2
  exact Option.some.inj (leftAt.symm.trans rightAt)

/-- Above the snapshot the accessor reads the terms of the entries, and zero where there is none. -/
theorem logTermAt (contiguous : n.Contiguous) (first : n.lastIncludedIndex + 1 < Word.limit)
    {index : Nat} (above : n.lastIncludedIndex < index) :
    n.logTermAtLocked index = if index ≤ n.lastLogIndexLocked then (n.entryAtLocked index).term
      else 0 := by
  have positive : ¬ index = 0 := by omega
  have apart : ¬ index = n.lastIncludedIndex := by omega
  unfold logTermAtLocked
  rw [if_neg positive, if_neg apart]
  by_cases inside : index ≤ n.lastLogIndexLocked
  · rw [if_pos (contiguous.entryAt first above inside).1, if_pos inside]
  · rw [(contiguous.beyond (Nat.lt_of_not_le inside)).1, if_neg inside]
    rfl

end Contiguous

/-- The loop of `advanceCommitLocked` finds the largest index up to its start that passes both
tests. -/
theorem advanceCommitFrom_greatest (n : RaftNode) (top : Nat) :
    IsGreatest {index | index = n.commitIndex ∨ n.commitIndex < index ∧ index ≤ top ∧
      n.logTermAtLocked index = n.currentTerm ∧
      majority n.clusterSizeLocked ≤ n.replicatedCount index} (n.advanceCommitFrom top).commitIndex := by
  induction top with
  | zero =>
    refine ⟨Or.inl rfl, ?_⟩
    rintro index (rfl | ⟨above, low, -⟩)
    · exact le_refl _
    · omega
  | succ top ih =>
    obtain ⟨found, largest⟩ := ih
    -- when the test fails at `top + 1`, the set is the one for `top`
    have lower : ∀ fails : n.logTermAtLocked (top + 1) = n.currentTerm →
        ¬ majority n.clusterSizeLocked ≤ n.replicatedCount (top + 1),
        IsGreatest {index | index = n.commitIndex ∨ n.commitIndex < index ∧ index ≤ top + 1 ∧
          n.logTermAtLocked index = n.currentTerm ∧
          majority n.clusterSizeLocked ≤ n.replicatedCount index} (n.advanceCommitFrom top).commitIndex := by
      intro fails
      refine ⟨found.imp_right fun ⟨above, low, rest⟩ => ⟨above, by omega, rest⟩, ?_⟩
      rintro index (rfl | ⟨above, low, current, enough⟩)
      · exact largest (Or.inl rfl)
      · have below : index ≤ top := by
          by_contra high
          obtain rfl : index = top + 1 := by omega
          exact fails current enough
        exact largest (Or.inr ⟨above, below, current, enough⟩)
    unfold advanceCommitFrom
    split
    · rename_i committed
      refine ⟨Or.inl rfl, ?_⟩
      rintro index (rfl | ⟨above, low, -⟩)
      · exact le_refl _
      · omega
    · rename_i above
      split
      · rename_i other
        exact lower fun current => absurd current other
      · rename_i current
        split
        · rename_i enough
          refine ⟨Or.inr ⟨Nat.lt_of_not_le above, le_refl _, not_not.mp current, enough⟩, ?_⟩
          rintro index (rfl | ⟨-, low, -⟩)
          · show n.commitIndex ≤ top + 1
            omega
          · exact low
        · rename_i few
          exact lower fun _ => few

/-- Among distinct peers, the count of `advanceCommitLocked` reaches a majority when the node and the
peers that hold the index are more than half of the cluster. -/
theorem majority_le_replicatedCount (member : n.selfMember = true) (distinct : n.peers.Nodup)
    (index : Nat) : majority n.clusterSizeLocked ≤ n.replicatedCount index ↔
      n.peers.toFinset.card + 1 < 2 * ((n.peers.toFinset.filter fun peer =>
        index ≤ (n.matchIndex.bind fun known => known peer).getD 0).card + 1) := by
  have size : n.clusterSizeLocked = n.peers.length + 1 := by simp [clusterSizeLocked, member]
  have counted : n.replicatedCount index = 1 + (n.peers.toFinset.filter fun peer =>
      index ≤ (n.matchIndex.bind fun known => known peer).getD 0).card := by
    have listed : (n.peers.toFinset.filter fun peer =>
        index ≤ (n.matchIndex.bind fun known => known peer).getD 0) =
        (n.peers.filter fun peer =>
          decide (index ≤ (n.matchIndex.bind fun known => known peer).getD 0)).toFinset := by
      ext peer
      simp
    rw [listed, List.toFinset_card_of_nodup (distinct.filter _), ← List.countP_eq_length_filter]
    rfl
  rw [size, counted, List.toFinset_card_of_nodup distinct, majority]
  omega

/-- `advanceCommitLocked` moves the commit index to the largest index above it that can be committed, if
there is one, and raises the commit signal when it moves; nothing else changes. -/
theorem advanceCommitLocked_commits_largest (leads : n.state = .leader) (member : n.selfMember = true)
    (contiguous : n.Contiguous) (words : n.lastLogIndexLocked < Word.limit)
    (included : n.lastIncludedIndex ≤ n.commitIndex) (distinct : n.peers.Nodup) :
    IsGreatest {index | index = n.commitIndex ∨ n.commitIndex < index ∧ n.Committable index}
      n.advanceCommitLocked.commitIndex ∧
    n.advanceCommitLocked = { n with
      commitIndex := n.advanceCommitLocked.commitIndex
      commitReady := n.commitReady || decide (n.commitIndex < n.advanceCommitLocked.commitIndex) } := by
  have last := contiguous.lastLogIndex
  have loop : n.advanceCommitLocked = n.advanceCommitFrom n.lastLogIndexLocked := by
    unfold advanceCommitLocked
    rw [if_neg (by simp [leads, member])]
  -- an index above the commit index is in the log with the current term when the accessor says so
  have read : ∀ index, n.commitIndex < index →
      ((index ≤ n.lastLogIndexLocked ∧ n.logTermAtLocked index = n.currentTerm) ↔
        ∃ entry ∈ n.log, entry.index = index ∧ entry.term = n.currentTerm) := by
    intro index above
    constructor
    · rintro ⟨inside, current⟩
      have first : n.lastIncludedIndex + 1 < Word.limit := by omega
      obtain ⟨-, listed, number⟩ := contiguous.entryAt first (by omega) inside
      rw [contiguous.logTermAt first (by omega), if_pos inside] at current
      exact ⟨_, listed, number, current⟩
    · rintro ⟨entry, listed, number, current⟩
      have inside : index ≤ n.lastLogIndexLocked := by
        by_contra beyond
        exact (contiguous.beyond (Nat.lt_of_not_le beyond)).2 entry listed number
      have first : n.lastIncludedIndex + 1 < Word.limit := by omega
      obtain ⟨-, there, same⟩ := contiguous.entryAt first (by omega) inside
      rw [contiguous.logTermAt first (by omega), if_pos inside,
        contiguous.unique there listed (same.trans number.symm)]
      exact ⟨inside, current⟩
  refine ⟨?_, ?_⟩
  · rw [loop]
    convert n.advanceCommitFrom_greatest n.lastLogIndexLocked using 1
    ext index
    refine or_congr_right (and_congr_right fun above => ?_)
    unfold Committable
    rw [← read index above, majority_le_replicatedCount member distinct, and_assoc]
  · rcases n.advanceCommitLocked_cases with same | ⟨index, -, above, -, -, -, moved⟩
    · rw [same]
      simp
    · rw [moved]
      simp [above]

/-- A leader of term 2 over a snapshot up to index 2; `B` holds what is up to index 5, `C` up to 3. -/
def leadsOverSnapshot : RaftNode where
  id := "A"
  peers := ["B", "C"]
  membershipConfigured := true
  state := .leader
  currentTerm := 2
  log := [⟨1, 3, [88]⟩, ⟨2, 4, [89]⟩, ⟨2, 5, [90]⟩, ⟨2, 6, [91]⟩]
  commitIndex := 2
  lastIncludedIndex := 2
  lastIncludedTerm := 1
  nextIndex := some fun peer => if peer = "B" then some 6 else if peer = "C" then some 4 else none
  matchIndex := some fun peer => if peer = "B" then some 5 else if peer = "C" then some 3 else none

/-- Its log is numbered from the snapshot on. -/
theorem leadsOverSnapshot_contiguous : leadsOverSnapshot.Contiguous := by
  intro position entry found
  match position, found with
  | 0, found | 1, found | 2, found | 3, found => cases found; rfl

/-- It commits index 5, across an entry of an older term. -/
theorem advanceCommitLocked_commits_largest_five :
    IsGreatest {index | index = 2 ∨ 2 < index ∧ leadsOverSnapshot.Committable index} 5 ∧
      leadsOverSnapshot.advanceCommitLocked = { leadsOverSnapshot with
        commitIndex := 5, commitReady := true } := by
  have commit : leadsOverSnapshot.advanceCommitLocked.commitIndex = 5 := by decide
  obtain ⟨greatest, same⟩ := advanceCommitLocked_commits_largest rfl rfl leadsOverSnapshot_contiguous
    (by decide) (by decide) (by decide)
  rw [commit] at greatest same
  exact ⟨greatest, same⟩

/-- The index of the next entry is only computed for a further one. -/
theorem appendLoop_next (n : RaftNode) {index : Nat} {rest : List LogEntry}
    (room : index + 1 + rest.length ≤ Word.limit) :
    n.appendLoop (Word.add index 1) rest = n.appendLoop (index + 1) rest := by
  cases rest with
  | nil => rfl
  | cons entry rest =>
    rw [List.length_cons] at room
    rw [Word.add_eq (by omega)]

/-- The first entry of a request differs, or a later one does. -/
theorem differs_cons {start index : Nat} {entry : LogEntry} {rest : List LogEntry} :
    n.Differs start (entry :: rest) index ↔
      index = start ∧ n.lastIncludedIndex < start ∧
          (∀ held ∈ n.log, held.index = start → held.term ≠ entry.term) ∨
        n.Differs (start + 1) rest index := by
  constructor
  · rintro ⟨above, from_, other, found, apart⟩
    by_cases first : index = start
    · subst first
      obtain rfl : entry = other := by simpa using found
      exact Or.inl ⟨rfl, above, apart⟩
    · refine Or.inr ⟨above, by omega, other, ?_, apart⟩
      rw [show index - start = index - (start + 1) + 1 by omega, List.getElem?_cons_succ] at found
      exact found
  · rintro (⟨rfl, above, apart⟩ | ⟨above, from_, other, found, apart⟩)
    · exact ⟨above, le_refl _, entry, by simp, apart⟩
    · refine ⟨above, by omega, other, ?_, apart⟩
      rw [show index - start = index - (start + 1) + 1 by omega, List.getElem?_cons_succ]
      exact found

/-- `normalizeEntries` numbers entries from an index on. -/
theorem normalizeEntries_eq_mapIdx {start : Nat} {entries : List LogEntry}
    (room : start + entries.length ≤ Word.limit) : normalizeEntries start entries =
      entries.mapIdx fun position entry => { entry with index := start + position } := by
  induction entries generalizing start with
  | nil => rfl
  | cons entry rest ih =>
    rw [List.length_cons] at room
    rw [normalizeEntries, List.mapIdx_cons]
    congr 1
    cases rest with
    | nil => rfl
    | cons other rest =>
      rw [List.length_cons] at room ih
      rw [Word.add_eq (by omega), ih (by omega)]
      congr 1
      funext position entry
      rw [show start + (position + 1) = start + 1 + position by omega]

/-- The loop of `appendEntriesToLogLocked` changes nothing when no index differs, and otherwise
replaces the log from the least such index on. -/
theorem appendLoop_least (contiguous : n.Contiguous) (first : n.lastIncludedIndex + 1 < Word.limit)
    (entries : List LogEntry) {start : Nat}
    (near : start ≤ n.lastLogIndexLocked + 1) (room : start + entries.length ≤ Word.limit) :
    (∀ index, ¬ n.Differs start entries index) ∧ n.appendLoop start entries = (n.log, false) ∨
      ∃ index, IsLeast {index | n.Differs start entries index} index ∧
        n.appendLoop start entries = (n.replacedFrom index (entries.drop (index - start)), true) := by
  induction entries generalizing start with
  | nil =>
    refine Or.inl ⟨fun index ⟨_, _, entry, found, _⟩ => ?_, rfl⟩
    simp at found
  | cons entry rest ih =>
    rw [List.length_cons] at room
    have last := contiguous.lastLogIndex
    have following := n.appendLoop_next (by omega : start + 1 + rest.length ≤ Word.limit)
    -- the first entry does not differ: the rest decides
    have goOn : ∀ fits : start + 1 ≤ n.lastLogIndexLocked + 1,
        (n.lastIncludedIndex < start → ∃ held ∈ n.log, held.index = start ∧ held.term = entry.term) →
        (∀ index, ¬ n.Differs start (entry :: rest) index) ∧
            n.appendLoop (start + 1) rest = (n.log, false) ∨
          ∃ index, IsLeast {index | n.Differs start (entry :: rest) index} index ∧
            n.appendLoop (start + 1) rest =
              (n.replacedFrom index ((entry :: rest).drop (index - start)), true) := by
      intro fits covered
      have shift : ∀ index, n.Differs start (entry :: rest) index ↔ n.Differs (start + 1) rest index := by
        intro index
        rw [differs_cons]
        refine or_iff_right fun ⟨_, above, apart⟩ => ?_
        obtain ⟨held, listed, number, term⟩ := covered above
        exact apart held listed number term
      rcases ih fits (by omega) with ⟨none, same⟩ | ⟨index, least, cut⟩
      · exact Or.inl ⟨fun index differs => none index ((shift index).mp differs), same⟩
      · refine Or.inr ⟨index, ?_, ?_⟩
        · rw [show {index | n.Differs start (entry :: rest) index} =
            {index | n.Differs (start + 1) rest index} from Set.ext shift]
          exact least
        · have beyond : start + 1 ≤ index := least.1.2.1
          rw [cut, show index - start = index - (start + 1) + 1 by omega, List.drop_succ_cons]
    -- the first entry differs: it is the least
    have stop : n.lastIncludedIndex < start →
        (∀ held ∈ n.log, held.index = start → held.term ≠ entry.term) →
        n.appendLoop start (entry :: rest) =
          (n.log.take (start - (n.lastIncludedIndex + 1)) ++ normalizeEntries start (entry :: rest), true) →
        ∃ index, IsLeast {index | n.Differs start (entry :: rest) index} index ∧
          n.appendLoop start (entry :: rest) =
            (n.replacedFrom index ((entry :: rest).drop (index - start)), true) := by
      intro above apart cut
      refine ⟨start, ⟨differs_cons.mpr (Or.inl ⟨rfl, above, apart⟩), fun index differs => differs.2.1⟩, ?_⟩
      rw [cut, Nat.sub_self, List.drop_zero, replacedFrom, contiguous.filter_below,
        normalizeEntries_eq_mapIdx (by rw [List.length_cons]; omega)]
    by_cases snapshot : start ≤ n.lastIncludedIndex
    · rw [appendLoop, if_pos snapshot, following]
      exact goOn (by omega) fun above => absurd snapshot (Nat.not_le_of_lt above)
    have above := Nat.lt_of_not_le snapshot
    by_cases inside : start ≤ n.lastLogIndexLocked
    · obtain ⟨contained, listed, number⟩ := contiguous.entryAt first above inside
      by_cases same : (n.entryAtLocked start).term = entry.term
      · rw [appendLoop, if_neg snapshot, if_pos contained, if_neg (not_not.mpr same), following]
        exact goOn (by omega) fun _ => ⟨_, listed, number, same⟩
      · refine Or.inr (stop above (fun held among index => ?_) ?_)
        · rw [contiguous.unique among listed (index.trans number.symm)]
          exact same
        · rw [appendLoop, if_neg snapshot, if_pos contained, if_pos same]
          rw [show n.firstLogIndexLocked = n.lastIncludedIndex + 1 from Word.add_eq first]
    · obtain ⟨absent, nowhere⟩ := contiguous.beyond (Nat.lt_of_not_le inside)
      refine Or.inr (stop above (fun held among index => absurd index (nowhere held among)) ?_)
      rw [appendLoop, if_neg snapshot, absent, if_neg Bool.false_ne_true, List.take_of_length_le (by omega)]

/-- A replacement at an index that differs is another log. -/
theorem replacedFrom_ne {start index : Nat} {entries : List LogEntry}
    (differs : n.Differs start entries index) :
    n.replacedFrom index (entries.drop (index - start)) ≠ n.log := by
  obtain ⟨above, from_, entry, found, apart⟩ := differs
  intro same
  have listed : ({ entry with index := index } : LogEntry) ∈ n.log := by
    rw [← same]
    refine List.mem_append_right _ (List.mem_iff_getElem?.mpr ⟨0, ?_⟩)
    rw [List.getElem?_mapIdx, List.getElem?_drop]
    simp [found]
  exact apart _ listed rfl rfl

/-- What is held at an index is what the accessor reads, and a positive term that is not held is not
read. -/
theorem Contiguous.logTermAt_eq_iff (contiguous : n.Contiguous)
    (first : n.lastIncludedIndex + 1 < Word.limit) {index term : Nat} (positive : 0 < index) :
    (n.HoldsAt index term → n.logTermAtLocked index = term) ∧
      (0 < term → n.logTermAtLocked index = term → n.HoldsAt index term) := by
  have nonzero : ¬ index = 0 := by omega
  have boundary : index = n.lastIncludedIndex → n.logTermAtLocked index = n.lastIncludedTerm := by
    intro at_
    unfold logTermAtLocked
    rw [if_neg nonzero, if_pos at_]
  constructor
  · rintro (⟨at_, term⟩ | ⟨entry, listed, number, term⟩)
    · rw [boundary at_, term]
    · obtain ⟨above, -⟩ := contiguous.mem_iff.mp ⟨listed, number⟩
      have inside : index ≤ n.lastLogIndexLocked := by
        by_contra beyond
        exact (contiguous.beyond (Nat.lt_of_not_le beyond)).2 entry listed number
      obtain ⟨-, there, same⟩ := contiguous.entryAt first above inside
      rw [contiguous.logTermAt first above, if_pos inside,
        contiguous.unique there listed (same.trans number.symm), term]
  · intro known read
    by_cases at_ : index = n.lastIncludedIndex
    · exact Or.inl ⟨at_, (boundary at_).symm.trans read⟩
    by_cases below : index < n.lastIncludedIndex
    · have absent : n.containsLogIndexLocked index = false := by
        unfold containsLogIndexLocked
        rw [Bool.and_eq_false_iff, decide_eq_false_iff_not,
          show n.firstLogIndexLocked = n.lastIncludedIndex + 1 from Word.add_eq first]
        exact Or.inl (by omega)
      unfold logTermAtLocked at read
      rw [if_neg nonzero, if_neg at_, absent, if_neg Bool.false_ne_true] at read
      omega
    have above : n.lastIncludedIndex < index := by omega
    rw [contiguous.logTermAt first above] at read
    split at read
    · rename_i inside
      obtain ⟨-, there, same⟩ := contiguous.entryAt first above inside
      exact Or.inr ⟨_, there, same, read⟩
    · omega

/-- Following a leader changes no term of the log. -/
theorem follow_logTermAt (n : RaftNode) (req : AppendEntriesRequest) (index : Nat) :
    (n.follow req).logTermAtLocked index = n.logTermAtLocked index := by
  unfold follow
  by_cases later : n.currentTerm < req.term
  · simp only [if_pos later]
    split <;> rfl
  · simp only [if_neg later]
    split <;> rfl

/-- `appendEntriesToLogLocked` against its rule. After index zero, or an entry or snapshot end with the
named term, the log is replaced from the least index on that differs, if there is one, and the flag says
whether the log is another one. After anything else with a positive term there is an error, and the
handler that gets it leaves the log as it was. -/
theorem append_replaces_from_least (contiguous : n.Contiguous)
    (first : n.lastIncludedIndex + 1 < Word.limit) {prevLogIndex prevLogTerm : Nat}
    {entries : List LogEntry} (room : prevLogIndex + entries.length < Word.limit) :
    (prevLogIndex = 0 ∨ n.HoldsAt prevLogIndex prevLogTerm →
      ((∀ index, ¬ n.Differs (prevLogIndex + 1) entries index) →
        n.appendEntriesToLogLocked prevLogIndex prevLogTerm entries = .ok (n, false)) ∧
      (∀ index, IsLeast {index | n.Differs (prevLogIndex + 1) entries index} index →
        n.appendEntriesToLogLocked prevLogIndex prevLogTerm entries =
          .ok ({ n with log := n.replacedFrom index (entries.drop (index - (prevLogIndex + 1))) }, true)) ∧
      ∃ m changed, n.appendEntriesToLogLocked prevLogIndex prevLogTerm entries = .ok (m, changed) ∧
        (changed = true ↔ m.log ≠ n.log)) ∧
    (¬ (prevLogIndex = 0 ∨ n.HoldsAt prevLogIndex prevLogTerm) → 0 < prevLogTerm →
      n.appendEntriesToLogLocked prevLogIndex prevLogTerm entries =
        .error (.logInconsistent prevLogIndex prevLogTerm) ∧
      ∀ save req, req.prevLogIndex = prevLogIndex → req.prevLogTerm = prevLogTerm →
        (n.handleAppendEntries save req).node.log = n.log) := by
  have last := contiguous.lastLogIndex
  refine ⟨fun known => ?_, fun unknown positive => ?_⟩
  · have passes : ¬ (0 < prevLogIndex ∧ n.logTermAtLocked prevLogIndex ≠ prevLogTerm) := by
      rintro ⟨above, other⟩
      have held := known.resolve_left (by omega)
      exact other ((contiguous.logTermAt_eq_iff first above).1 held)
    have near : prevLogIndex ≤ n.lastLogIndexLocked := by
      rcases known with rfl | ⟨at_, -⟩ | ⟨entry, listed, number, -⟩
      · exact Nat.zero_le _
      · omega
      · by_contra beyond
        exact (contiguous.beyond (Nat.lt_of_not_le beyond)).2 entry listed number
    have result : n.appendEntriesToLogLocked prevLogIndex prevLogTerm entries =
        .ok ({ n with log := (n.appendLoop (prevLogIndex + 1) entries).1 },
          (n.appendLoop (prevLogIndex + 1) entries).2) := by
      unfold appendEntriesToLogLocked
      rw [if_neg passes, n.appendLoop_next (by omega)]
    rw [result]
    rcases appendLoop_least contiguous first entries (by omega : prevLogIndex + 1 ≤ _) (by omega) with
      ⟨none, same⟩ | ⟨index, least, cut⟩
    · rw [same]
      refine ⟨fun _ => rfl, fun index least => absurd least.1 (none index), n, false, rfl, ?_⟩
      simp
    · rw [cut]
      refine ⟨fun none => absurd least.1 (none index), fun other least' => ?_, _, true, rfl, ?_⟩
      · rw [least'.unique least]
      · exact iff_of_true rfl (replacedFrom_ne least.1)
  · rw [not_or] at unknown
    obtain ⟨nonzero, absent⟩ := unknown
    have above : 0 < prevLogIndex := Nat.pos_of_ne_zero nonzero
    have other : n.logTermAtLocked prevLogIndex ≠ prevLogTerm :=
      fun read => absent ((contiguous.logTermAt_eq_iff first above).2 positive read)
    refine ⟨if_pos ⟨above, other⟩, fun save req index term => ?_⟩
    have refuses : n.accepts req = false := by
      rw [Bool.eq_false_iff]
      intro accepted
      obtain ⟨-, -, passed⟩ := accepts_iff.mp accepted
      refine passed ⟨by rw [index]; exact above, ?_⟩
      rw [index, term, follow_logTermAt]
      exact other
    exact (handleAppendEntries_refused save refuses).2.1

/-- Entries after index 3 of which the first two are there and the third meets another term. -/
theorem append_replaces_from_least_cut :
    leadsOverSnapshot.appendEntriesToLogLocked 3 1 [⟨2, 0, [89]⟩, ⟨2, 0, [90]⟩, ⟨3, 0, [92]⟩] =
      .ok ({ leadsOverSnapshot with
        log := [⟨1, 3, [88]⟩, ⟨2, 4, [89]⟩, ⟨2, 5, [90]⟩, ⟨3, 6, [92]⟩] }, true) := by
  have least : IsLeast {index | leadsOverSnapshot.Differs (3 + 1)
      [⟨2, 0, [89]⟩, ⟨2, 0, [90]⟩, ⟨3, 0, [92]⟩] index} 6 := by
    refine ⟨⟨by decide, by decide, ⟨3, 0, [92]⟩, rfl, by decide⟩, ?_⟩
    rintro index ⟨-, low, entry, found, apart⟩
    by_contra small
    have positions : index = 4 ∨ index = 5 := by omega
    rcases positions with rfl | rfl
    · cases found
      exact apart ⟨2, 4, [89]⟩ (by decide) rfl rfl
    · cases found
      exact apart ⟨2, 5, [90]⟩ (by decide) rfl rfl
  have held : leadsOverSnapshot.HoldsAt 3 1 := Or.inr ⟨⟨1, 3, [88]⟩, by decide, rfl, rfl⟩
  exact ((append_replaces_from_least leadsOverSnapshot_contiguous (by decide) (by decide)).1
    (Or.inr held)).2.1 6 least

end

end RaftNode

end Raft

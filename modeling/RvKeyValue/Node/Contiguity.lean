import RvKeyValue.Node.Exchange

/-!
# The log without gaps

Every access to the retained log subtracts the snapshot's index. The accesses are repeated here with
the range check the runtime makes, with no result where the code panics. While the log is numbered
without a gap from the snapshot on, every access is in range, for every argument.

`logTermAtLocked` answers zero for an absent index, and an `AppendEntries` request with term zero for
an index the log does not have passes the check; its entries then follow a gap. Requests that name a
positive term, or follow index zero, keep the log numbered.
-/

namespace Raft

open Transition (Reach)

namespace RaftNode

/-- `n.log[index-n.firstLogIndexLocked()]`, absent when it is out of range. -/
def entryChecked (n : RaftNode) (index : Nat) : Option LogEntry :=
  n.log[Word.sub index n.firstLogIndexLocked]?

/-- `logTermAtLocked`. -/
def logTermAtChecked (n : RaftNode) (index : Nat) : Option Nat :=
  if index = 0 then some 0
  else if index = n.lastIncludedIndex then some n.lastIncludedTerm
  else if n.containsLogIndexLocked index then (n.entryChecked index).map LogEntry.term
  else some 0

/-- The loop of `appendEntriesToLogLocked`. -/
def appendLoopChecked (n : RaftNode) (index : Nat) : List LogEntry → Option (List LogEntry × Bool)
  | [] => some (n.log, false)
  | entry :: rest =>
    if index ≤ n.lastIncludedIndex then n.appendLoopChecked (Word.add index 1) rest
    else if n.containsLogIndexLocked index then
      match n.entryChecked index with
      | none => none
      | some held =>
        if held.term ≠ entry.term then
          let position := Word.sub index n.firstLogIndexLocked
          if position ≤ n.log.length then
            some (n.log.take position ++ normalizeEntries index (entry :: rest), true)
          else none
        else n.appendLoopChecked (Word.add index 1) rest
    else some (n.log ++ normalizeEntries index (entry :: rest), true)

/-- `appendEntriesToLogLocked`. -/
def appendEntriesToLogChecked (n : RaftNode) (prevLogIndex prevLogTerm : Nat)
    (entries : List LogEntry) : Option (Except RaftError (RaftNode × Bool)) :=
  (if 0 < prevLogIndex then n.logTermAtChecked prevLogIndex else some prevLogTerm).bind fun term =>
    if term ≠ prevLogTerm then some (.error (.logInconsistent prevLogIndex prevLogTerm))
    else (n.appendLoopChecked (Word.add prevLogIndex 1) entries).map fun appended =>
      .ok ({ n with log := appended.1 }, appended.2)

/-- `nextCommittedEntry`. -/
def nextCommittedEntryChecked (n : RaftNode) : Option (Option LogEntry) :=
  let next := Word.add n.lastApplied 1
  if n.commitIndex < next ∨ n.containsLogIndexLocked next = false then some none
  else (n.entryChecked next).map some

/-- `cloneEntriesFromLocked`. -/
def cloneEntriesFromChecked (n : RaftNode) (startIndex : Nat) : Option (List LogEntry) :=
  let start := if startIndex ≤ n.lastIncludedIndex then n.firstLogIndexLocked else startIndex
  let position := Word.sub start n.firstLogIndexLocked
  if n.lastLogIndexLocked < start then some []
  else if position ≤ n.log.length then some (n.log.drop position) else none

/-- `Compact`, up to its `Save`: the record it saves, or its error. -/
def compactChecked (n : RaftNode) (snapshot : Bytes) : Option (Except RaftError RaftNode) :=
  if n.lastApplied ≤ n.lastIncludedIndex then some (.ok n)
  else (n.logTermAtChecked n.lastApplied).bind fun term =>
    if term = 0 then some (.error (.logInconsistent n.lastApplied 0))
    else
      let position := Word.add (Word.sub n.lastApplied n.firstLogIndexLocked) 1
      let cut := fun log : List LogEntry => some (.ok { n with
        log, lastIncludedIndex := n.lastApplied, lastIncludedTerm := term, snapshot })
      if n.lastApplied < n.firstLogIndexLocked then cut []
      else if n.lastLogIndexLocked ≤ n.lastApplied then cut []
      else if position ≤ n.log.length then cut (n.log.drop position)
      else none

/-- The entry at each position has the index that follows the snapshot by it. -/
def Contiguous (n : RaftNode) : Prop :=
  ∀ position entry, n.log[position]? = some entry →
    entry.index = n.lastIncludedIndex + 1 + position

/-- The node has an entry at an index with a term, or its snapshot ends there with that term. -/
def HoldsAt (n : RaftNode) (index term : Nat) : Prop :=
  index = n.lastIncludedIndex ∧ n.lastIncludedTerm = term ∨
    ∃ entry ∈ n.log, entry.index = index ∧ entry.term = term

/-- No access to the log is out of range, whatever the arguments: each section has a result, the one
it has without the range check. -/
structure InRange (n : RaftNode) : Prop where
  /-- `logTermAtLocked`. -/
  term : ∀ index, n.logTermAtChecked index = some (n.logTermAtLocked index)
  /-- `appendEntriesToLogLocked`. -/
  append : ∀ prevLogIndex prevLogTerm entries,
    n.appendEntriesToLogChecked prevLogIndex prevLogTerm entries =
      some (n.appendEntriesToLogLocked prevLogIndex prevLogTerm entries)
  /-- `nextCommittedEntry`. -/
  next : n.nextCommittedEntryChecked = some n.nextCommittedEntry
  /-- `cloneEntriesFromLocked`. -/
  clone : ∀ startIndex, n.cloneEntriesFromChecked startIndex = some (n.cloneEntriesFromLocked startIndex)
  /-- `Compact`. -/
  compact : ∀ snapshot, n.compactChecked snapshot =
    some (if n.lastApplied ≤ n.lastIncludedIndex then .ok n
      else if n.logTermAtLocked n.lastApplied = 0 then .error (.logInconsistent n.lastApplied 0)
      else .ok (n.cutAtApplied snapshot))

end RaftNode

section

variable {n : RaftNode} {full : List LogEntry}

namespace Represents

/-- A retained index is read in range. -/
theorem entryChecked (rep : Represents n full) {index : Nat}
    (contained : n.containsLogIndexLocked index = true) :
    Word.sub index n.firstLogIndexLocked = index - n.firstLogIndexLocked ∧
      index - n.firstLogIndexLocked < n.log.length ∧
      n.entryChecked index = some (n.entryAtLocked index) := by
  obtain ⟨above, inside⟩ := (rep.containsLogIndex index).mp contained
  have bounded := rep.bounded
  have first := rep.firstLogIndex
  have distance : Word.sub index n.firstLogIndexLocked = index - n.firstLogIndexLocked :=
    Word.sub_eq (by omega) (by omega)
  have within : index - n.firstLogIndexLocked < n.log.length := by
    rw [rep.retained, List.length_drop]
    omega
  refine ⟨distance, within, ?_⟩
  unfold RaftNode.entryChecked RaftNode.entryAtLocked
  rw [distance, List.getElem?_eq_getElem within]
  rfl

/-- `logTermAtLocked` stays in range. -/
theorem logTermAtChecked (rep : Represents n full) (index : Nat) :
    n.logTermAtChecked index = some (n.logTermAtLocked index) := by
  unfold RaftNode.logTermAtChecked RaftNode.logTermAtLocked
  split
  · rfl
  split
  · rfl
  split
  · rename_i contained
    rw [(rep.entryChecked contained).2.2, Option.map_some]
  · rfl

/-- So does the append loop. -/
theorem appendLoopChecked (rep : Represents n full) (index : Nat) (entries : List LogEntry) :
    n.appendLoopChecked index entries = some (n.appendLoop index entries) := by
  induction entries generalizing index with
  | nil => rfl
  | cons entry rest ih =>
    unfold RaftNode.appendLoopChecked RaftNode.appendLoop
    split
    · exact ih _
    split
    · rename_i contained
      obtain ⟨distance, within, read⟩ := rep.entryChecked contained
      rw [read]
      dsimp only
      split
      · rw [distance, if_pos within.le]
      · exact ih _
    · rfl

/-- So does `appendEntriesToLogLocked`. -/
theorem appendEntriesToLogChecked (rep : Represents n full) (prevLogIndex prevLogTerm : Nat)
    (entries : List LogEntry) : n.appendEntriesToLogChecked prevLogIndex prevLogTerm entries =
      some (n.appendEntriesToLogLocked prevLogIndex prevLogTerm entries) := by
  unfold RaftNode.appendEntriesToLogChecked RaftNode.appendEntriesToLogLocked
  rw [rep.logTermAtChecked, rep.appendLoopChecked]
  by_cases follows : 0 < prevLogIndex
  · rw [if_pos follows, Option.bind_some]
    by_cases same : n.logTermAtLocked prevLogIndex = prevLogTerm
    · rw [if_neg (by simpa using same), if_neg (by simp [same])]
      rfl
    · rw [if_pos same, if_pos ⟨follows, same⟩]
  · rw [if_neg follows, if_neg (by simp [follows]), Option.bind_some, if_neg (by simp)]
    rfl

/-- So does `nextCommittedEntry`. -/
theorem nextCommittedEntryChecked (rep : Represents n full) :
    n.nextCommittedEntryChecked = some n.nextCommittedEntry := by
  unfold RaftNode.nextCommittedEntryChecked RaftNode.nextCommittedEntry
  dsimp only
  split
  · rfl
  · rename_i ready
    rw [not_or, Bool.not_eq_false] at ready
    rw [(rep.entryChecked ready.2).2.2, Option.map_some]

/-- So does `cloneEntriesFromLocked`. -/
theorem cloneEntriesFromChecked (rep : Represents n full) (startIndex : Nat) :
    n.cloneEntriesFromChecked startIndex = some (n.cloneEntriesFromLocked startIndex) := by
  have first := rep.firstLogIndex
  have last := rep.lastLogIndex
  have bounded := rep.bounded
  have length : n.log.length = full.length - n.lastIncludedIndex := by
    rw [rep.retained, List.length_drop]
  unfold RaftNode.cloneEntriesFromChecked RaftNode.cloneEntriesFromLocked
  dsimp only
  generalize start : (if startIndex ≤ n.lastIncludedIndex then n.firstLogIndexLocked else startIndex) =
    origin
  have above : n.firstLogIndexLocked ≤ origin := by
    rw [← start]
    split <;> omega
  by_cases beyond : n.lastLogIndexLocked < origin
  · rw [if_pos beyond, if_pos beyond]
  · have distance : Word.sub origin n.firstLogIndexLocked = origin - n.firstLogIndexLocked :=
      Word.sub_eq (by omega) above
    rw [if_neg beyond, if_neg beyond, distance, if_pos (by omega)]

/-- So does `Compact`. -/
theorem compactChecked (rep : Represents n full) (snapshot : Bytes) : n.compactChecked snapshot =
    some (if n.lastApplied ≤ n.lastIncludedIndex then .ok n
      else if n.logTermAtLocked n.lastApplied = 0 then .error (.logInconsistent n.lastApplied 0)
      else .ok (n.cutAtApplied snapshot)) := by
  have first := rep.firstLogIndex
  have last := rep.lastLogIndex
  have bounded := rep.bounded
  have length : n.log.length = full.length - n.lastIncludedIndex := by
    rw [rep.retained, List.length_drop]
  unfold RaftNode.compactChecked
  rw [rep.logTermAtChecked]
  by_cases nothing : n.lastApplied ≤ n.lastIncludedIndex
  · rw [if_pos nothing, if_pos nothing]
  rw [if_neg nothing, if_neg nothing, Option.bind_some]
  by_cases absent : n.logTermAtLocked n.lastApplied = 0
  · rw [if_pos absent, if_pos absent]
  rw [if_neg absent, if_neg absent]
  have below : ¬ n.lastApplied < n.firstLogIndexLocked := by omega
  unfold RaftNode.cutAtApplied RaftNode.retainedAfter
  dsimp only
  simp only [if_neg below]
  by_cases whole : n.lastLogIndexLocked ≤ n.lastApplied
  · rw [if_pos whole, if_pos whole]
  · have distance : Word.sub n.lastApplied n.firstLogIndexLocked = n.lastApplied - n.firstLogIndexLocked :=
      Word.sub_eq (by omega) (by omega)
    rw [if_neg whole, if_neg whole, distance, Word.add_eq (by omega), if_pos (by omega)]

/-- A log numbered from the snapshot on is read in range. -/
theorem inRange (rep : Represents n full) : n.InRange where
  term := rep.logTermAtChecked
  append := rep.appendEntriesToLogChecked
  next := rep.nextCommittedEntryChecked
  clone := rep.cloneEntriesFromChecked
  compact := rep.compactChecked

/-- The retained log is numbered. -/
theorem contiguous (rep : Represents n full) : n.Contiguous := by
  intro position entry found
  rw [rep.retained, List.getElem?_drop] at found
  have number := rep.indexed _ _ found
  omega

/-- A positive term at an index is that of the snapshot's end or of an entry. -/
theorem holdsAt (rep : Represents n full) {index term : Nat} (positive : 0 < term)
    (known : n.logTermAtLocked index = term) : n.HoldsAt index term := by
  unfold RaftNode.logTermAtLocked at known
  split at known
  · omega
  split at known
  · rename_i boundary
    exact Or.inl ⟨boundary, known⟩
  split at known
  · rename_i contained
    obtain ⟨above, inside⟩ := (rep.containsLogIndex index).mp contained
    have found : full[index - 1]? = some full[index - 1] := List.getElem?_eq_getElem (by omega)
    rw [rep.entryAt above found] at known
    have number := rep.indexed _ _ found
    refine Or.inr ⟨full[index - 1], rep.mem_log.mpr ⟨by omega, ?_⟩, by omega, known⟩
    rw [show full[index - 1].index - 1 = index - 1 by omega]
    exact found
  · omega

end Represents

/-- An accepted request names a positive term, or follows index zero, and leaves room for the next
index; so does an appended command. -/
def KnownPrev (n : RaftNode) : NodeEvent → Prop
  | .perform (.handleAppendEntries req) _ => n.accepts req = true → req.Anchored
  | .perform (.appendLocal _) _ => n.lastLogIndexLocked + 2 < Word.limit
  | _ => True

instance (n : RaftNode) (event : NodeEvent) : Decidable (KnownPrev n event) := by
  unfold KnownPrev
  split <;> infer_instance

/-- The empty store, or what a node that was started on such a store has saved. -/
inductive SavedStore (unmarshal : Bytes → Option MembershipCommand) : PersistentState → Prop
  /-- The empty store. -/
  | empty : SavedStore unmarshal {}
  /-- A store some node has left. -/
  | saved {id : NodeId} {peers : List NodeId} {state state' : PersistentState} {n : RaftNode} :
      SavedStore unmarshal state →
      Reach (RaftNode.next unmarshal peers) KnownPrev (newRaftNode id peers (some state)) n →
      n.store = some state' → SavedStore unmarshal state'

/-- The log is numbered from the snapshot on, in memory and in the store. -/
structure Numbered (n : RaftNode) : Prop where
  /-- In memory. -/
  memory : ∃ full, Represents n full
  /-- In the store. -/
  store : ∃ state, n.store = some state ∧ ∃ full, Represents (newRaftNode "" [] (some state)) full

namespace Numbered

variable {unmarshal : Bytes → Option MembershipCommand}

/-- A started node is numbered if its store is. -/
theorem start {state : PersistentState} (rep : Represents (newRaftNode "" [] (some state)) full)
    (id : NodeId) (peers : List NodeId) : Numbered (newRaftNode id peers (some state)) :=
  ⟨⟨full, rep.congr rfl rfl rfl⟩, state, rfl, full, rep⟩

/-- `AppendLocal` keeps the log numbered. -/
theorem appendLocal (rep : Represents n full) (save : Bool) (command : Bytes)
    (room : n.lastLogIndexLocked + 2 < Word.limit) :
    ∃ full', Represents (n.appendLocal unmarshal save command).node full' := by
  cases n.appendLocal_cases unmarshal save command with
  | inl refused =>
    obtain ⟨err, same⟩ := refused
    rw [same]
    exact ⟨full, rep⟩
  | inr appended =>
    rw [appended]
    have last := rep.lastLogIndex
    have next : Word.add n.lastLogIndexLocked 1 = full.length + 1 := by
      rw [Word.add_eq (by omega), last]
    have longer : Represents
        { n with log := n.log ++ [⟨n.currentTerm, Word.add n.lastLogIndexLocked 1, command⟩] }
        (full ++ [⟨n.currentTerm, Word.add n.lastLogIndexLocked 1, command⟩]) :=
      rep.snoc next (by omega)
    refine ⟨full ++ [⟨n.currentTerm, Word.add n.lastLogIndexLocked 1, command⟩], ?_⟩
    unfold RaftNode.appendCommand RaftNode.persisting
    dsimp only
    split
    · exact (longer.durable (RaftNode.advanceCommitLocked_durable _ (.appendLocal command)).state).saved save
    · exact longer.saved save

/-- `HandleAppendEntries` keeps the log numbered. -/
theorem handleAppendEntries (rep : Represents n full) (save : Bool) {req : AppendEntriesRequest}
    (known : n.accepts req = true → req.Anchored) :
    ∃ full', Represents (n.handleAppendEntries save req).node full' := by
  cases accepts : n.accepts req with
  | false =>
    obtain ⟨-, log, -, seat⟩ := RaftNode.handleAppendEntries_refused save accepts
    exact ⟨full, rep.congr log seat.included seat.includedTerm⟩
  | true =>
    obtain ⟨current, -, passed⟩ := RaftNode.accepts_iff.mp accepts
    obtain ⟨-, log, -, seat⟩ := RaftNode.handleAppendEntries_accepted save accepts
    have anchored := known accepts
    obtain ⟨full', rep', -⟩ := rep.accepted (fun _ => anchored.1) (fun _ => anchored.2) passed
    have own := RaftNode.accept_seat current
    exact ⟨full', rep'.congr log (seat.included.trans own.included.symm)
      (seat.includedTerm.trans own.includedTerm.symm)⟩

/-- `Compact` keeps the log numbered. -/
theorem compact (rep : Represents n full) (save : Bool) (snapshot : Bytes) :
    Represents (n.compact save snapshot).node full := by
  cases n.compact_cases save snapshot with
  | inl same =>
    rw [same]
    exact rep
  | inr cut =>
    obtain ⟨above, known, same⟩ := cut
    rw [same]
    exact (rep.cutAtApplied above known snapshot).saved save

/-- An operation that keeps the condition keeps the log numbered. -/
theorem perform (numbered : Numbered n) {op : Operation} {save : Bool}
    (known : KnownPrev n (.perform op save)) : Numbered (n.perform unmarshal save op) := by
  obtain ⟨⟨full, rep⟩, state, stored, disk⟩ := numbered
  have memory : ∃ full', Represents (n.perform unmarshal save op) full' := by
    cases writes : op.writes with
    | false =>
      obtain ⟨log, included, includedTerm⟩ := (n.perform_prepared unmarshal save op).log writes
      exact ⟨full, rep.congr log included includedTerm⟩
    | true =>
      cases op with
      | handleAppendEntries req => exact handleAppendEntries rep save known
      | appendLocal command => exact appendLocal rep save command known
      | compact snapshot => exact ⟨full, compact rep save snapshot⟩
      | _ => contradiction
  refine ⟨memory, ?_⟩
  rcases n.perform_store unmarshal save op with kept | wrote
  · exact ⟨state, kept.trans stored, disk⟩
  · obtain ⟨full', rep'⟩ := memory
    exact ⟨_, wrote, full', rep'.congr rfl rfl rfl⟩

/-- An event that keeps the condition keeps the log numbered. -/
theorem next {peers : List NodeId} {event : NodeEvent} {after : RaftNode} (numbered : Numbered n)
    (known : KnownPrev n event) (stepped : n.next unmarshal peers event = some after) :
    Numbered after := by
  cases event with
  | perform op save =>
    obtain rfl := Option.some.inj stepped
    exact numbered.perform known
  | restart =>
    obtain rfl := Option.some.inj stepped
    obtain ⟨-, state, stored, full, disk⟩ := numbered
    rw [stored]
    exact start disk n.id peers

/-- A run that keeps the condition keeps the log numbered. -/
theorem reach {id : NodeId} {peers : List NodeId} {state : PersistentState}
    (rep : Represents (newRaftNode "" [] (some state)) full)
    (run : Reach (RaftNode.next unmarshal peers) KnownPrev (newRaftNode id peers (some state)) n) :
    Numbered n :=
  run.invariant (start rep id peers) fun _ _ _ numbered known stepped => numbered.next known stepped

end Numbered

/-- A store some node has left is numbered. -/
theorem SavedStore.numbered {unmarshal : Bytes → Option MembershipCommand} {state : PersistentState}
    (saved : SavedStore unmarshal state) :
    ∃ full, Represents (newRaftNode "" [] (some state)) full := by
  induction saved with
  | empty => exact ⟨[], by decide, rfl, by decide, rfl, by decide⟩
  | saved _ run stored ih =>
    obtain ⟨full, rep⟩ := ih
    obtain ⟨-, state, same, disk⟩ := Numbered.reach rep run
    obtain rfl := Option.some.inj (stored.symm.trans same)
    exact disk

/-- In every run of a node over an empty or saved store whose steps all keep the condition: the retained
log is numbered without a gap from the snapshot on, no access to it is out of range, and a request is
answered with success only if it follows index zero or an entry or snapshot the node has. -/
theorem log_stays_contiguous {unmarshal : Bytes → Option MembershipCommand} {id : NodeId}
    {peers : List NodeId} {state : PersistentState} (saved : SavedStore unmarshal state)
    (run : Reach (RaftNode.next unmarshal peers) KnownPrev (newRaftNode id peers (some state)) n) :
    n.Contiguous ∧ n.InRange ∧ ∀ req save, KnownPrev n (.perform (.handleAppendEntries req) save) →
      (n.handleAppendEntries save req).value.success = true →
      req.prevLogIndex = 0 ∨ n.HoldsAt req.prevLogIndex req.prevLogTerm := by
  obtain ⟨stored, disk⟩ := saved.numbered
  obtain ⟨⟨full, rep⟩, -⟩ := Numbered.reach disk run
  refine ⟨rep.contiguous, rep.inRange, fun req save known success => ?_⟩
  obtain ⟨-, accepts, passed, -⟩ := RaftNode.handleAppendEntries_success success
  by_cases first : req.prevLogIndex = 0
  · exact Or.inl first
  have positive := (known accepts).1.resolve_left first
  have term : (n.follow req).logTermAtLocked req.prevLogIndex = req.prevLogTerm := by
    by_contra other
    exact passed ⟨Nat.pos_of_ne_zero first, other⟩
  obtain ⟨log, included, includedTerm, -⟩ := n.follow_log req
  have held := (rep.congr log included includedTerm).holdsAt positive term
  unfold RaftNode.HoldsAt at held ⊢
  rw [log, included, includedTerm] at held
  exact Or.inr held

/-- A follower takes entries, restarts, compacts and refuses a request that follows an absent index. -/
theorem log_stays_contiguous_compacted : ∃ n : RaftNode,
    Reach (RaftNode.next plainCommands ["B"]) KnownPrev (newRaftNode "A" ["B"] (some {})) n ∧
      n.lastIncludedIndex = 1 ∧ n.log = [⟨1, 2, [89]⟩] ∧ n.Contiguous ∧ n.InRange := by
  have passed : (Transition.exec (RaftNode.next plainCommands ["B"]) KnownPrev
      (newRaftNode "A" ["B"] (some {}))
      [.perform (.handleAppendEntries ⟨1, "B", 0, 0, [⟨1, 1, [88]⟩, ⟨1, 2, [89]⟩], 1⟩) true,
        .restart, .perform (.handleAppendEntries ⟨1, "B", 2, 1, [], 1⟩) true,
        .perform (.markApplied 1) true, .perform (.compact [7]) true,
        .perform (.handleAppendEntries ⟨1, "B", 9, 1, [⟨1, 10, [90]⟩], 1⟩) true]).any (fun n =>
        decide (n.lastIncludedIndex = 1 ∧ n.log = [⟨1, 2, [89]⟩])) = true := by
    decide +kernel
  obtain ⟨n, run, test⟩ := Reach.of_exec_test passed
  obtain ⟨included, log⟩ := of_decide_eq_true test
  obtain ⟨contiguous, inRange, -⟩ := log_stays_contiguous .empty run
  exact ⟨n, run, included, log, contiguous, inRange⟩

/-- A request with term zero for the absent index 10: it is accepted by an empty node, its entry gets
index 11 at position 0, and the next read of index 5 is out of range. -/
theorem absent_prev_accepted : ∃ n : RaftNode,
    Reach (RaftNode.next plainCommands ["B"]) (fun _ _ => True) (newRaftNode "A" ["B"] (some {})) n ∧
      ¬ (newRaftNode "A" ["B"] (some {})).HoldsAt 10 0 ∧
      ((newRaftNode "A" ["B"] (some {})).handleAppendEntries true
        ⟨1, "B", 10, 0, [⟨1, 0, [88]⟩], 0⟩).value.success = true ∧
      n.log = [⟨1, 11, [88]⟩] ∧ ¬ n.Contiguous ∧ n.logTermAtChecked 5 = none := by
  have passed : (Transition.exec (RaftNode.next plainCommands ["B"]) (fun _ _ => True)
      (newRaftNode "A" ["B"] (some {}))
      [.perform (.handleAppendEntries ⟨1, "B", 10, 0, [⟨1, 0, [88]⟩], 0⟩) true]).any (fun n =>
        decide (((newRaftNode "A" ["B"] (some {})).handleAppendEntries true
            ⟨1, "B", 10, 0, [⟨1, 0, [88]⟩], 0⟩).value.success = true ∧
          n.log = [⟨1, 11, [88]⟩] ∧ n.lastIncludedIndex = 0 ∧ n.logTermAtChecked 5 = none)) = true := by
    decide +kernel
  obtain ⟨n, run, test⟩ := Reach.of_exec_test passed
  obtain ⟨success, log, included, panics⟩ := of_decide_eq_true test
  refine ⟨n, run, ?_, success, log, fun contiguous => ?_, panics⟩
  · simp [RaftNode.HoldsAt, newRaftNode]
  · have number := contiguous 0 ⟨1, 11, [88]⟩ (by rw [log]; rfl)
    rw [included] at number
    contradiction

end

end Raft

import RvKeyValue.Service.Steps
import RvKeyValue.Store.Wire

/-!
# Snapshots of the service

`applyCommittedLoop` takes a snapshot of the state machine under the lock of the machine, and
`Compact` reads the applied index later under the lock of the node. If no `ApplyCommitted` of the node
holds an entry when the snapshot is taken and none fetches one before `Compact`, a stored snapshot has
what every entry up to its index wrote, in every run and after every restart. The code keeps nobody
apart, and a write that is applied between the two is in no snapshot and in no log.
-/

namespace Raft

section

variable {n m : RaftNode}

/-- A section leaves the snapshot alone, and stores it with its index or stores nothing. -/
structure Carries (n m : RaftNode) : Prop where
  /-- The snapshot in memory stays. -/
  snapshot : m.snapshot = n.snapshot
  /-- So does its index. -/
  included : m.lastIncludedIndex = n.lastIncludedIndex
  /-- What is stored. -/
  store : m.store = n.store ∨ ∃ state, m.store = some state ∧ state.snapshot = n.snapshot ∧
    state.lastIncludedIndex = n.lastIncludedIndex

/-- Nothing changed. -/
theorem Carries.refl (n : RaftNode) : Carries n n := ⟨rfl, rfl, Or.inl rfl⟩

/-- A section that keeps the log. -/
theorem KeepsSaved.carries (kept : KeepsSaved n m) : Carries n m := by
  obtain ⟨middle, keeps, saved⟩ := kept
  have snapshot : middle.snapshot = n.snapshot := congrArg LogCore.snapshot keeps.core
  cases saved with
  | inl same =>
    rw [same]
    exact ⟨snapshot, keeps.included, Or.inl keeps.store⟩
  | inr stored =>
    rw [stored]
    exact ⟨snapshot, keeps.included, Or.inr ⟨_, rfl, snapshot, keeps.included⟩⟩

/-- A section before another one, which stores nothing. -/
theorem Carries.after {middle : RaftNode} (carries : Carries middle m)
    (snapshot : middle.snapshot = n.snapshot)
    (included : middle.lastIncludedIndex = n.lastIncludedIndex) (store : middle.store = n.store) :
    Carries n m := by
  refine ⟨carries.snapshot.trans snapshot, carries.included.trans included, ?_⟩
  rw [← snapshot, ← included, ← store]
  exact carries.store

/-- `AppendLocal` after its checks appends an entry of its term and keeps the rest. -/
theorem appendCommand_keeps (n : RaftNode) (save : Bool) (command : Bytes) :
    KeepsSaved { n with log := n.log ++ [(n.appendCommand save command).value] }
      (n.appendCommand save command).node := by
  let appended : RaftNode := { n with log := n.log ++ [(n.appendCommand save command).value] }
  refine Keeps.saved (m := if n.state = .leader then appended.advanceCommitLocked else appended) ?_ save
  split
  · exact (Keeps.refl appended).committed
  · exact .refl appended

/-- `AppendLocal` after its checks. -/
theorem appendCommand_carries (n : RaftNode) (save : Bool) (command : Bytes) :
    Carries n (n.appendCommand save command).node :=
  (appendCommand_keeps n save command).carries.after rfl rfl rfl

/-- Accepting entries. -/
theorem accept_snapshot (n : RaftNode) (req : AppendEntriesRequest) :
    (n.accept req).snapshot = n.snapshot := by
  have snapshot := (n.follow_log req).2.2.2.1
  unfold RaftNode.accept
  cases RaftNode.followCommit_cases { n.follow req with
      log := ((n.follow req).appendLoop (Word.add req.prevLogIndex 1) req.entries).1 }
      req.leaderCommit with
  | inl same => rw [same]; exact snapshot
  | inr raised =>
    obtain ⟨index, -, -, same⟩ := raised
    rw [same]
    exact snapshot

/-- `HandleAppendEntries`. -/
theorem handleAppendEntries_carries (n : RaftNode) (save : Bool) (req : AppendEntriesRequest) :
    Carries n (n.handleAppendEntries save req).node := by
  cases n.handleAppendEntries_cases save req with
  | inl refused => rw [refused]; exact .refl n
  | inr followed =>
    obtain ⟨current, -, answer⟩ := followed
    have following := follow_keeps n current
    cases answer with
    | inl rejected =>
      cases rejected.2 with
      | inl newer => rw [newer.2]; exact (following.saved save).carries
      | inr older => rw [older.2]; exact following.unsaved.carries
    | inr matched =>
      obtain ⟨-, included, store, -⟩ := n.accept_fields req
      have snapshot := accept_snapshot n req
      cases matched.2 with
      | inl changed =>
        rw [changed.2]
        exact ((Keeps.refl (n.accept req)).saved save).carries.after snapshot included store
      | inr unchanged =>
        rw [unchanged.2]
        exact (Carries.refl (n.accept req)).after snapshot included store

/-- Every step but `Compact` and a restart carries the snapshot. -/
theorem Happens.carries {unmarshal : Bytes → Option MembershipCommand} {peers : List NodeId}
    {sv : Server} {event : Event} {reaction : Reaction}
    (happens : Happens unmarshal peers sv event reaction) (going : event ≠ .crash)
    (other : ∀ snapshot save, event ≠ .compact snapshot save) :
    Carries sv.node reaction.server.node ∧ reaction.server.compacted = sv.compacted := by
  cases happens with
  | start kind => exact ⟨.refl _, rfl⟩
  | turn own running shape applying =>
    obtain ⟨middle, marks, kept⟩ := shape.node
    refine ⟨?_, rfl⟩
    rcases marks with rfl | ⟨entry, -, rfl⟩
    · exact kept.carries
    · rw [sv.node.markApplied_eq] at kept
      exact kept.carries.after rfl rfl rfl
  | @append tag save applied command turn running room stepped =>
    refine ⟨?_, rfl⟩
    obtain rfl := Option.some.inj stepped
    have carries : Carries sv.node (sv.node.appendLocal unmarshal save command).node := by
      cases RaftNode.appendLocal_cases unmarshal sv.node save command with
      | inl refused =>
        obtain ⟨err, same⟩ := refused
        rw [same]
        exact .refl _
      | inr appended =>
        rw [appended]
        exact appendCommand_carries sv.node save command
    generalize sv.node.appendLocal unmarshal save command = out at carries
    cases out.err <;> exact carries
  | @handle message save answer here handled =>
    refine ⟨?_, rfl⟩
    cases body : message.body with
    | preVoteRequest req =>
      rw [body] at handled
      obtain rfl := Option.some.inj handled
      exact .refl _
    | voteRequest req =>
      rw [body] at handled
      obtain rfl := Option.some.inj handled
      exact (requestVote_keeps sv.node save req).carries
    | appendRequest req =>
      rw [body] at handled
      obtain rfl := Option.some.inj handled
      exact handleAppendEntries_carries sv.node save req
    | _ => rw [body] at handled; contradiction
  | compact snapshot save => exact absurd rfl (other snapshot save)
  | crash => exact absurd rfl going

/-- While nobody holds an entry and nobody fetches one, no `ApplyCommitted` takes a step, and nobody
holds one afterwards. -/
theorem Happens.idle {unmarshal : Bytes → Option MembershipCommand} {peers : List NodeId}
    {sv : Server} {event : Event} {reaction : Reaction}
    (happens : Happens unmarshal peers sv event reaction)
    (idle : ∀ tag call, sv.calls tag = some call → call.holds = none)
    (waits : ∀ tag save applied, event = .step tag save applied →
      sv.calls tag ≠ some (.apply .fetching)) :
    (∀ tag call, event.call = some tag → sv.calls tag = some call → call.isApply = false) ∧
      ∀ tag call, reaction.server.calls tag = some call → call.holds = none := by
  cases happens with
  | start kind =>
    refine ⟨fun tag call own => by contradiction, fun tag call found => ?_⟩
    cases Server.call_updated found with
    | inl here =>
      rw [← Option.some.inj here.2]
      cases kind <;> rfl
    | inr elsewhere => exact idle tag call elsewhere.2
  | @turn _ tag call turn own running shape applying =>
    have other : call.isApply = false := by
      cases call with
      | apply stage =>
        obtain ⟨save, applied, stepped, -⟩ := applying stage rfl
        have free := idle tag _ running
        cases stage with
        | fetching => exact absurd running (waits tag save applied stepped)
        | holding entry => contradiction
        | marking entry => contradiction
      | _ => rfl
    refine ⟨fun position found same there => ?_, fun position found there => ?_⟩
    · obtain rfl : tag = position := Option.some.inj (own.symm.trans same)
      rw [← Option.some.inj (running.symm.trans there)]
      exact other
    · cases Server.call_updated there with
      | inl here =>
        exact InOrder.holds_of_other ((shape.kind found here.2).2.trans other)
      | inr elsewhere => exact idle position found elsewhere.2
  | @append tag save applied command turn running room stepped =>
    refine ⟨fun position found same there => ?_, fun position found there => ?_⟩
    · obtain rfl : tag = position := Option.some.inj same
      rw [← Option.some.inj (running.symm.trans there)]
      rfl
    · cases Server.call_updated there with
      | inl here =>
        obtain rfl := Option.some.inj stepped
        have next := here.2
        split at next
        · contradiction
        · rw [← Option.some.inj next]
          rfl
      | inr elsewhere => exact idle position found elsewhere.2
  | handle here handled => exact ⟨fun tag call own => by contradiction, idle⟩
  | compact snapshot save => exact ⟨fun tag call own => by contradiction, idle⟩
  | crash => exact ⟨fun tag call own => by contradiction, fun tag call found => by contradiction⟩

end

end Raft

open Raft (Bytes NodeId LogEntry Members Label Event Server Traced History Reaction Happens Steady
  SteadyStep InOrder OrderedCluster AppliesAlone Carries PersistentState MembershipCommand
  decodeMembershipChange)
open Store (Json KVMap KVStateMachine contents writeOf writesOf boltAccepts)
open Transition (Reach)

namespace Service

/-- Whether an entry goes to the state machine. -/
def plain (json : Json) (entry : LogEntry) : Bool :=
  (decodeMembershipChange json.unmarshalMembership entry.command).isNone

/-- What the commands of a log write to a machine with a database. -/
def writes (json : Json) (entries : List LogEntry) : List (Bytes × Option Bytes) :=
  writesOf json true (entries.filter (plain json))

/-- A map whose keys are UTF-8 and whose entries the database takes. -/
def Storable (data : KVMap) : Prop :=
  ∀ key value, data[key]? = some value → Utf8.valid key = true ∧ boltAccepts key value = true

/-- A machine that holds what its database holds, with the last write of some entries to each key. -/
structure Loaded (json : Json) (machine : KVStateMachine) (entries : List LogEntry) : Prop where
  /-- The map is the bucket. -/
  synced : machine.db = some machine.data
  /-- A snapshot of it can be restored. -/
  storable : Storable machine.data
  /-- What the entries wrote is there. -/
  shows : Overwrite.Shows (contents machine.data) (writes json entries)

/-- A snapshot has the last write of some entries to each key; without a snapshot there are none. -/
def Covers (json : Json) (snapshot : Bytes) (entries : List LogEntry) : Prop :=
  snapshot = [] ∧ entries = [] ∨ ∃ data, Storable data ∧
    snapshot = KVStateMachine.snapshot json ⟨data, none⟩ ∧
    Overwrite.Shows (contents data) (writes json entries)

section

variable {json : Json} {machine : KVStateMachine} {entries : List LogEntry}

/-- Entries write one list after the other. -/
theorem writes_append (first second : List LogEntry) :
    writes json (first ++ second) = writes json first ++ writes json second := by
  unfold writes writesOf
  rw [List.filter_append, List.flatMap_append]

/-- A storable map is read back from its snapshot. -/
theorem Storable.utf8 {data : KVMap} (storable : Storable data) {key : Bytes} (there : key ∈ data) :
    Utf8.valid key = true := by
  obtain ⟨value, found⟩ :=
    Option.isSome_iff_exists.mp (Std.ExtTreeMap.mem_iff_isSome_getElem?.mp there)
  exact (storable key value found).1

/-- A storable map is restored on every machine with a database. -/
theorem Storable.restore {data : KVMap} (storable : Storable data) (machine : KVStateMachine)
    {bucket : KVMap} (database : machine.db = some bucket) :
    machine.restoreSnapshot json (KVStateMachine.snapshot json ⟨data, none⟩) = .ok ⟨data, some data⟩ := by
  rw [machine.restore_snapshot json none (fun _ there => storable.utf8 there)
    fun _ key value found => (storable key value found).2, database]
  rfl

/-- Calls for some entries write them. -/
theorem Loaded.calls (loaded : Loaded json machine entries) {more : List LogEntry}
    (commands : more.filter (plain json) = more) :
    Loaded json (machine.calls json more) (entries ++ more) := by
  have written := machine.calls_written json more
  rw [loaded.synced, Option.isSome_some] at written
  have data : contents (machine.calls json more).data =
      Overwrite.replay (contents machine.data) (writesOf json true more) := written.data
  have bucket := written.db
  rw [loaded.synced, Option.map_some, ← data] at bucket
  obtain ⟨held, found, same⟩ := Option.map_eq_some_iff.mp bucket
  refine ⟨found.trans (congrArg some (Store.contents_inj same)), fun key value there => ?_, ?_⟩
  · replace there : contents (machine.calls json more).data key = some value := there
    rw [data] at there
    cases Overwrite.replay_eq_or_mem (contents machine.data) (writesOf json true more) key with
    | inl kept => exact loaded.storable key value (kept.symm.trans there)
    | inr listed =>
      rw [there] at listed
      obtain ⟨utf8, accepted⟩ := Store.mem_writesOf listed
      exact ⟨utf8, accepted rfl⟩
  · rw [writes_append, data, show writes json more = writesOf json true more by
      unfold writes; rw [commands]]
    exact loaded.shows.append

/-- `Apply` succeeds for an entry. -/
theorem Loaded.apply (loaded : Loaded json machine entries) {entry : LogEntry}
    (command : plain json entry = true) {after : KVStateMachine}
    (applied : machine.apply json entry = .ok after) : Loaded json after (entries ++ [entry]) := by
  have called : machine.calls json [entry] = after := by
    simp only [KVStateMachine.calls, KVStateMachine.call, applied]
  rw [← called]
  refine loaded.calls ?_
  rw [List.filter_cons_of_pos command, List.filter_nil]

/-- A membership change writes nothing. -/
theorem Loaded.skip (loaded : Loaded json machine entries) {entry : LogEntry}
    (change : plain json entry = false) : Loaded json machine (entries ++ [entry]) := by
  refine ⟨loaded.synced, loaded.storable, ?_⟩
  have none : writes json [entry] = [] := by
    unfold writes
    rw [List.filter_cons_of_neg (by rw [change]; simp)]
    rfl
  rw [writes_append, none, List.append_nil]
  exact loaded.shows

/-- A snapshot of a machine. -/
theorem Loaded.snapshot (loaded : Loaded json machine entries) :
    Covers json (machine.snapshot json) entries :=
  Or.inr ⟨machine.data, loaded.storable, rfl, loaded.shows⟩

/-- A process that starts over its database restores a snapshot. -/
theorem Loaded.start (loaded : Loaded json machine entries) {snapshot : Bytes}
    {covered : List LogEntry} (covers : Covers json snapshot covered) {restored : KVStateMachine}
    (started : startMachine json machine.db snapshot = some restored) : Loaded json restored covered := by
  unfold startMachine at started
  rw [loaded.synced, KVStateMachine.newBolt_eq] at started
  rcases covers with ⟨rfl, rfl⟩ | ⟨data, storable, rfl, shows⟩
  · obtain rfl := Option.some.inj started
    exact ⟨rfl, loaded.storable, fun key written => by simp [writes, writesOf] at written⟩
  · rw [storable.restore _ rfl] at started
    obtain rfl := Option.some.inj started
    exact ⟨rfl, storable, shows⟩

/-- The machine after a step has what the step applied. -/
theorem Loaded.after (loaded : Loaded json machine entries) {sv after : Server} {event : Event}
    (going : event ≠ .crash) {next : KVStateMachine}
    (applied : machineAfter json sv after machine event = some next) :
    Loaded json next (entries ++ (sv.applies json.unmarshalMembership event).toList) := by
  have same : machineAfter json sv after machine event = some machine →
      sv.applies json.unmarshalMembership event = none →
      Loaded json next (entries ++ (sv.applies json.unmarshalMembership event).toList) := by
    intro unchanged none
    obtain rfl := Option.some.inj (unchanged.symm.trans applied)
    rw [none, Option.toList_none, List.append_nil]
    exact loaded
  cases event with
  | crash => exact absurd rfl going
  | step tag save success =>
    by_cases holding : ∃ entry, sv.calls tag = some (.apply (.holding entry))
    · obtain ⟨entry, running⟩ := holding
      cases decoded : decodeMembershipChange json.unmarshalMembership entry.command with
      | some change =>
        have kind : plain json entry = false := by rw [plain, decoded]; rfl
        have still : machineAfter json sv after machine (.step tag save success) = some machine := by
          cases success with
          | false => rfl
          | true => simp only [machineAfter, running, decoded]
        obtain rfl := Option.some.inj (still.symm.trans applied)
        have either : sv.applies json.unmarshalMembership (.step tag save success) = none ∨
            sv.applies json.unmarshalMembership (.step tag save success) = some entry := by
          simp only [Server.applies, running, decoded]
          cases change with
          | error err => exact Or.inl rfl
          | ok change =>
            dsimp only
            split
            · exact Or.inl rfl
            · exact Or.inr rfl
        rcases either with none | some
        · exact same still none
        · rw [some]
          exact loaded.skip kind
      | none =>
        have kind : plain json entry = true := by rw [plain, decoded]; rfl
        cases success with
        | false => exact same rfl (by simp [Server.applies, running, decoded])
        | true =>
          simp only [machineAfter, running, decoded] at applied
          cases result : machine.apply json entry with
          | error err =>
            rw [result] at applied
            contradiction
          | ok machine' =>
            rw [result] at applied
            obtain rfl := Option.some.inj applied
            simp only [Server.applies, running, decoded, if_true, Option.toList_some]
            exact loaded.apply kind result
    · refine same ?_ ?_
      · cases success with
        | false => rfl
        | true =>
          simp only [machineAfter]
          split
          · rename_i entry running
            exact absurd ⟨entry, running⟩ holding
          · rfl
      · simp only [Server.applies]
        split
        · rename_i entry running
          exact absurd ⟨entry, running⟩ holding
        · rfl
  | _ => exact same rfl rfl

/-- The snapshots of a process, in memory and stored, cover what was compacted below them, and its
machine has what was applied. -/
structure Stored (json : Json) (sv : Server) (history : History) (machine : KVStateMachine) : Prop where
  /-- The machine has the snapshot it started from and what was applied since. -/
  loaded : Loaded json machine (sv.full.take history.base ++ history.applied)
  /-- The snapshot in memory. -/
  memory : Covers json sv.node.snapshot sv.compacted
  /-- The stored snapshot. -/
  disk : ∀ state, sv.node.store = some state →
    Covers json state.snapshot (sv.compacted.take state.lastIncludedIndex)

variable {sv : Server} {history : History} {peers : List NodeId} {event : Event} {reaction : Reaction}

/-- A restart finds the stored snapshot. -/
theorem Stored.restart (stored : Stored json sv history machine) (peers : List NodeId) :
    Covers json (sv.restart peers).node.snapshot (sv.restart peers).compacted ∧
      ∀ state, (sv.restart peers).node.store = some state →
        Covers json state.snapshot ((sv.restart peers).compacted.take state.lastIncludedIndex) := by
  unfold Server.restart
  cases store : sv.node.store with
  | none =>
    refine ⟨Or.inl ⟨rfl, rfl⟩, fun state found => ?_⟩
    contradiction
  | some state =>
    have covers := stored.disk state store
    refine ⟨covers, fun other found => ?_⟩
    obtain rfl : state = other := Option.some.inj found
    show Covers json state.snapshot ((sv.compacted.take state.lastIncludedIndex).take _)
    rw [List.take_take, Nat.min_self]
    exact covers

/-- `Compact` with a snapshot of what was applied. -/
theorem Stored.compact (stored : Stored json sv history machine) (aligned : Raft.Aligned sv)
    {snapshot : Bytes} (covers : Covers json snapshot (sv.full.take sv.node.lastApplied)) (save : Bool) :
    Stored json (sv.compact save snapshot) history machine := by
  have full := (aligned.compact save snapshot).2
  have side := (aligned.compact save snapshot).1.side_eq
  rw [full] at side
  cases sv.node.compact_cases save snapshot with
  | inl same =>
    replace same : (sv.compact save snapshot).node = sv.node := same
    rw [same, ← aligned.side_eq] at side
    refine ⟨by rw [full]; exact stored.loaded, ?_, ?_⟩
    · rw [same, side]
      exact stored.memory
    · rw [same, side]
      exact stored.disk
  | inr cut =>
    obtain ⟨above, known, shape⟩ := cut
    have node : (sv.compact save snapshot).node = ((sv.node.cutAtApplied snapshot).persistLocked save).1 :=
      congrArg Raft.Outcome.node shape
    have carries := ((Raft.Keeps.refl (sv.node.cutAtApplied snapshot)).saved save).carries
    rw [← node] at carries
    rw [carries.included] at side
    replace side : (sv.compact save snapshot).compacted = sv.full.take sv.node.lastApplied := side
    have snapshotted : (sv.compact save snapshot).node.snapshot = snapshot := carries.snapshot
    refine ⟨by rw [full]; exact stored.loaded, ?_, fun state found => ?_⟩
    · rw [side, snapshotted]
      exact covers
    · rw [side]
      rcases carries.store with kept | ⟨saved, at_, bytes, index⟩
      · -- the save failed, and the old snapshot covers less
        have old : sv.node.store = some state := kept.symm.trans found
        have shorter := (aligned.disk state old).covered
        rw [aligned.side] at shorter
        have same : (sv.full.take sv.node.lastApplied).take state.lastIncludedIndex =
            sv.compacted.take state.lastIncludedIndex := by
          rw [aligned.side_eq, List.take_take, List.take_take, Nat.min_eq_left shorter,
            Nat.min_eq_left (by omega)]
        rw [same]
        exact stored.disk state old
      · obtain rfl : saved = state := Option.some.inj (at_.symm.trans found)
        replace bytes : saved.snapshot = snapshot := bytes
        replace index : saved.lastIncludedIndex = sv.node.lastApplied := index
        rw [bytes, index, List.take_take, Nat.min_self]
        exact covers

/-- A process that reacts, and compacts only with a snapshot of what was applied. -/
theorem Stored.react (stored : Stored json sv history machine) (order : InOrder sv history)
    (steady : Steady sv)
    (happens : Happens json.unmarshalMembership peers sv event reaction)
    (outcome : SteadyStep sv event reaction)
    (kept : event ≠ .crash →
      reaction.server.full.take sv.node.commitIndex = sv.full.take sv.node.commitIndex)
    (covers : ∀ snapshot save, event = .compact snapshot save →
      Covers json snapshot (sv.full.take sv.node.lastApplied))
    {next : KVStateMachine} (applied : machineAfter json sv reaction.server machine event = some next) :
    Stored json reaction.server
      (history.next json.unmarshalMembership sv event reaction.server) next := by
  by_cases crash : event = .crash
  · subst crash
    cases happens with
    | turn own => contradiction
    | crash =>
      obtain ⟨memory, disk⟩ := stored.restart peers
      refine ⟨?_, memory, disk⟩
      have side : (sv.restart peers).compacted =
          (sv.restart peers).full.take (sv.restart peers).node.lastIncludedIndex :=
        outcome.steady.aligned.side_eq
      simp only [History.next, List.append_nil]
      rw [← side]
      exact stored.loaded.start memory applied
  · have base : reaction.server.full.take history.base = sv.full.take history.base :=
      InOrder.take_kept (kept crash) (le_trans order.baseLe order.appliedLe)
    have grown : history.next json.unmarshalMembership sv event reaction.server = { history with
        applied := history.applied ++ (sv.applies json.unmarshalMembership event).toList } := by
      unfold History.next
      split
      · exact absurd rfl crash
      · rfl
    have loaded : Loaded json next (reaction.server.full.take history.base ++
        (history.applied ++ (sv.applies json.unmarshalMembership event).toList)) := by
      rw [base, ← List.append_assoc]
      exact stored.loaded.after crash applied
    rw [grown]
    by_cases compacts : ∃ snapshot save, event = .compact snapshot save
    · obtain ⟨snapshot, save, rfl⟩ := compacts
      cases happens with
      | turn own => contradiction
      | compact =>
        have compacted := stored.compact steady.aligned (covers snapshot save rfl) save
        exact ⟨loaded, compacted.memory, compacted.disk⟩
    · obtain ⟨carries, side⟩ := happens.carries crash fun snapshot save same =>
        compacts ⟨snapshot, save, same⟩
      refine ⟨loaded, ?_, fun state found => ?_⟩
      · rw [carries.snapshot, side]
        exact stored.memory
      · rw [side]
        rcases carries.store with same | ⟨saved, at_, bytes, index⟩
        · exact stored.disk state (same.symm.trans found)
        · obtain rfl : saved = state := Option.some.inj (at_.symm.trans found)
          rw [bytes, index, ← steady.aligned.side, List.take_length]
          exact stored.memory

/-- Between the loop's `Snapshot` and its `Compact`: nobody holds an entry, and the snapshot covers
what was applied. -/
structure Taken (json : Json) (sv : Server) (snapshot : Bytes) : Prop where
  /-- Every fetched entry was marked. -/
  idle : ∀ tag call, sv.calls tag = some call → call.holds = none
  /-- The snapshot has what was applied. -/
  covers : Covers json snapshot (sv.full.take sv.node.lastApplied)

/-- While nobody holds an entry the machine has exactly what was applied. -/
theorem Stored.taken (stored : Stored json sv history machine) (order : InOrder sv history)
    (idle : ∀ tag call, sv.calls tag = some call → call.holds = none) :
    Taken json sv (machine.snapshot json) := by
  refine ⟨idle, ?_⟩
  have same := order.applied_unmarked fun tag entry marks => by
    have none := idle tag _ marks
    contradiction
  have whole : sv.full.take history.base ++ history.applied = sv.full.take sv.node.lastApplied := by
    have start : sv.full.take history.base = (sv.full.take sv.node.lastApplied).take history.base := by
      rw [List.take_take, Nat.min_eq_left order.baseLe]
    rw [same, start, List.take_append_drop]
  rw [← whole]
  exact stored.loaded.snapshot

/-- A step that neither fetches an entry nor restarts. -/
theorem Taken.react {snapshot : Bytes} (taken : Taken json sv snapshot) (order : InOrder sv history)
    (steady : Steady sv)
    (packet : ∀ packet req, event.packet = some packet → packet.body = .appendRequest req →
      req.Contiguous)
    (happens : Happens json.unmarshalMembership peers sv event reaction)
    (kept : reaction.server.full.take sv.node.commitIndex = sv.full.take sv.node.commitIndex)
    (going : event ≠ .crash)
    (waits : ∀ tag save applied, event = .step tag save applied →
      sv.calls tag ≠ some (.apply .fetching)) : Taken json reaction.server snapshot := by
  obtain ⟨apart, idle⟩ := happens.idle taken.idle waits
  have applied := (happens.index steady packet going).applied apart
  refine ⟨idle, ?_⟩
  rw [applied, InOrder.take_kept kept order.appliedLe]
  exact taken.covers

/-- The loop of a node takes its snapshot while no `ApplyCommitted` there holds an entry, and none
fetches one before the loop compacts. -/
def snapshotsAlone (s : Service) : Action → Bool
  | .loop node _ =>
    match s.loops node with
    | .snapshotting => !(s.server node).runs fun call => call.holds.isSome
    | _ => true
  | .raft label =>
    match s.loops label.node, s.traced.cluster.stepped label with
    | .compacting _, some (.apply .fetching) => false
    | _, _ => true
  | _ => true

/-- Nothing wraps, committed entries stay, nobody fetches an entry while another one is held, and
nothing is applied between the loop's `Snapshot` and its `Compact`. -/
def SnapshotsAlone (json : Json) (s : Service) (action : Action) : Prop :=
  s.under json AppliesAlone action ∧ s.snapshotsAlone action = true

instance (json : Json) (s : Service) (action : Action) : Decidable (SnapshotsAlone json s action) := by
  unfold SnapshotsAlone
  infer_instance

variable {members : Members} {s s' : Service} {label : Label} {action : Action}

/-- Sections of running calls are steps of the cluster. -/
theorem label_section (own : s.label json action = some label) {tag : Nat}
    (running : label.event.call = some tag) : action = .raft label := by
  cases action with
  | raft found =>
    obtain rfl := Option.some.inj own
    rfl
  | handle id =>
    obtain ⟨h, -, starts⟩ := Option.bind_eq_some_iff.mp own
    split at starts
    · obtain ⟨command, -, rfl⟩ := Option.map_eq_some_iff.mp starts
      contradiction
    · obtain rfl := Option.some.inj starts
      contradiction
    · contradiction
  | loop node save =>
    simp only [Service.label] at own
    split at own
    · obtain rfl := Option.some.inj own
      contradiction
    · obtain rfl := Option.some.inj own
      contradiction
    · contradiction
  | _ => contradiction

/-- What happens at the node of a step of the cluster in which nothing wraps. -/
theorem advance_happens (steady : Raft.SteadyCluster members s.traced.cluster)
    (fits : s.traced.cluster.nothingWraps label = true) {moved : Service}
    (advanced : s.advance json members label = some moved) :
    ∃ reaction, Happens json.unmarshalMembership (members.peers label.node) (s.server label.node)
        label.event reaction ∧ SteadyStep (s.server label.node) label.event reaction ∧
      (∀ packet req, label.event.packet = some packet → packet.body = .appendRequest req →
        req.Contiguous) ∧
      moved.server = Function.update s.server label.node reaction.server ∧
      moved.traced.history = Function.update s.traced.history label.node
        ((s.traced.history label.node).next json.unmarshalMembership (s.server label.node)
          label.event reaction.server) ∧
      (s.server label.node).react json.unmarshalMembership (members.peers label.node) label.event =
        some reaction ∧
      moved.traced.cluster.observed.drop s.traced.cluster.observed.length =
        reaction.observed.map fun shown => ⟨label.node, shown.1, shown.2⟩ := by
  have stepped := (advance_some advanced).2.2.2.2.1
  obtain ⟨c, taken, same⟩ := Option.map_eq_some_iff.mp stepped
  obtain ⟨-, net, reaction, here, reacted, rfl, happens, outcome⟩ := steady.step fits taken
  refine ⟨reaction, happens, outcome, fun packet req found body => ?_, ?_, ?_, reacted, ?_⟩
  · exact steady.net packet ((Raft.Cluster.take_some here).1 packet found) req body
  · unfold server
    rw [← same]
    rfl
  · rw [← same]
    dsimp only
    rw [Raft.Cluster.absorb_own]
    rfl
  · rw [← same]
    exact List.drop_left

/-- The process that has taken a step. -/
theorem server_updated {moved : Service} {after : Server}
    (servers : moved.server = Function.update s.server label.node after) :
    moved.server label.node = after := by
  rw [servers, Function.update_self]

/-- Every process of a service has what its snapshots claim. -/
structure Faithful (json : Json) (members : Members) (s : Service) : Prop where
  /-- What was applied was applied in order. -/
  ordered : OrderedCluster members s.traced
  /-- Snapshots and machines. -/
  stored : ∀ id ∈ members.ids, Stored json (s.server id) (s.traced.history id) (s.machines id)
  /-- Snapshots that the loops have taken. -/
  taken : ∀ id ∈ members.ids, ∀ snapshot, s.loops id = .compacting snapshot →
    Taken json (s.server id) snapshot

namespace Faithful

/-- A started service. -/
theorem initial (json : Json) (members : Members) : Faithful json members (.initial members) where
  ordered := .initial members
  stored id _ := by
    refine ⟨?_, Or.inl ⟨rfl, rfl⟩, fun state found => ?_⟩
    · show Loaded json (KVStateMachine.newBoltKVStateMachine (some ∅)) _
      rw [KVStateMachine.newBolt_eq]
      refine ⟨rfl, fun key value found => ?_, fun key written => ?_⟩
      · rw [Std.ExtTreeMap.getElem?_empty] at found
        contradiction
      · obtain ⟨write, listed, -⟩ := written
        exact absurd listed List.not_mem_nil
    · obtain rfl := Option.some.inj found
      exact Or.inl ⟨rfl, List.take_nil⟩
  taken id _ snapshot at_ := by contradiction

/-- A step of the cluster keeps what processes have. -/
theorem advance (faithful : Faithful json members s)
    (fits : s.traced.cluster.nothingWraps label = true)
    (fetches : s.traced.cluster.fetchesAlone label = true) {moved : Service}
    (advanced : s.advance json members label = some moved)
    (kept : s.traced.cluster.Keeping moved.traced.cluster label)
    (compacts : ∀ snapshot save, label.event = .compact snapshot save →
      s.loops label.node = .compacting snapshot) :
    OrderedCluster members moved.traced ∧ ∀ id ∈ members.ids,
      Stored json (moved.server id) (moved.traced.history id) (moved.machines id) := by
  obtain ⟨inside, -, -, -, stepped, ⟨machine, applied, machines⟩, -⟩ := advance_some advanced
  obtain ⟨reaction, happens, outcome, -, servers, histories, -⟩ :=
    advance_happens faithful.ordered.steady fits advanced
  refine ⟨faithful.ordered.step fits fetches stepped kept, fun id member => ?_⟩
  rw [servers, histories, machines]
  by_cases here : id = label.node
  · rw [here, Function.update_self, Function.update_self, Function.update_self]
    rw [servers, Function.update_self] at applied
    refine (faithful.stored label.node inside).react (faithful.ordered.order label.node inside)
      (faithful.ordered.steady.servers label.node inside) happens outcome (fun going => ?_)
      (fun snapshot save same => ?_) applied
    · rw [← server_updated servers]
      exact kept going
    · exact (faithful.taken label.node inside snapshot (compacts snapshot save same)).covers
  · rw [Function.update_of_ne here, Function.update_of_ne here, Function.update_of_ne here]
    exact faithful.stored id member

/-- A step of the cluster that fetches nothing where a snapshot was taken. -/
theorem advance_taken (faithful : Faithful json members s)
    (fits : s.traced.cluster.nothingWraps label = true) {moved : Service}
    (advanced : s.advance json members label = some moved)
    (kept : s.traced.cluster.Keeping moved.traced.cluster label) {id : NodeId}
    (member : id ∈ members.ids) {snapshot : Bytes} (at_ : s.loops id = .compacting snapshot)
    (going : label.node = id → label.event ≠ .crash)
    (waits : label.node = id → ∀ tag save applied, label.event = .step tag save applied →
      (s.server id).calls tag ≠ some (.apply .fetching)) : Taken json (moved.server id) snapshot := by
  obtain ⟨reaction, happens, outcome, packet, servers, -⟩ :=
    advance_happens faithful.ordered.steady fits advanced
  have taken := faithful.taken id member snapshot at_
  by_cases here : id = label.node
  · subst here
    have same := kept (going rfl)
    rw [show moved.traced.cluster.servers label.node = reaction.server from server_updated servers] at same
    rw [server_updated servers]
    exact taken.react (faithful.ordered.order label.node member)
      (faithful.ordered.steady.servers label.node member) packet happens same (going rfl) (waits rfl)
  · rw [servers, Function.update_of_ne here]
    exact taken

/-- Every step in which nothing wraps and nothing committed is lost, nobody fetches an entry while
another one is held, and nothing is applied between a snapshot and its compaction. -/
theorem step (faithful : Faithful json members s)
    (fits : ∀ label, s.label json action = some label → s.traced.cluster.nothingWraps label = true)
    (fetches : ∀ label, s.label json action = some label →
      s.traced.cluster.fetchesAlone label = true)
    (alone : s.snapshotsAlone action = true) (moves : Moves json members s action s')
    (kept : ∀ label, s.label json action = some label →
      s.traced.cluster.Keeping s'.traced.cluster label) : Faithful json members s' := by
  cases own : s.label json action with
  | none =>
    obtain ⟨traced, machines⟩ := moves.still own
    have servers : s'.server = s.server := by unfold server; rw [traced]
    refine ⟨by rw [traced]; exact faithful.ordered, ?_, fun id member snapshot at_ => ?_⟩
    · rw [servers, traced, machines]
      exact faithful.stored
    · rw [servers]
      rcases moves.holds id snapshot at_ with ⟨before, -⟩ | ⟨-, ⟨save, rfl⟩, snapshotting, rfl⟩
      · exact faithful.taken id member snapshot before
      · refine (faithful.stored id member).taken (faithful.ordered.order id member)
          fun tag call running => ?_
        simp only [snapshotsAlone, snapshotting, Server.runs, Bool.not_eq_true', List.any_eq_false,
          List.mem_range] at alone
        have free := alone tag ((faithful.ordered.steady.servers id member).running_lt running)
        rw [show (s.server id).calls tag = some call from running] at free
        simpa using free
  | some label =>
    obtain ⟨moved, advanced, traced, machines⟩ := moves.moved label own
    have servers : s'.server = moved.server := by unfold server; rw [traced]
    have keeping := kept label own
    rw [traced] at keeping
    obtain ⟨ordered, stored⟩ := faithful.advance (fits label own) (fetches label own) advanced keeping
      fun snapshot save same => moves.compacts label snapshot save own same
    refine ⟨by rw [traced]; exact ordered, ?_, fun id member snapshot at_ => ?_⟩
    · rw [servers, traced, machines]
      exact stored
    · rw [servers]
      rcases moves.holds id snapshot at_ with ⟨before, others⟩ | ⟨silent, -⟩
      · refine faithful.advance_taken (fits label own) advanced keeping member before
          (fun here => (others label own here).1) fun here tag save applied event fetching => ?_
        obtain rfl := label_section own (by rw [event]; rfl)
        subst here
        simp [snapshotsAlone, before, Raft.Cluster.stepped, event,
          show (s.traced.cluster.servers label.node).calls tag = _ from fetching] at alone
      · rw [own] at silent
        contradiction

/-- Every run in which nothing wraps, committed entries stay, nobody fetches an entry while another one
is held and nothing is applied between a snapshot and its compaction. -/
theorem reach
    (run : Reach (Service.step json members) (SnapshotsAlone json) (Service.initial members) s) :
    Faithful json members s := by
  refine run.invariant (.initial json members) fun before after action faithful allowed stepped => ?_
  have moves := (step_does stepped).moves
  have meets : ∀ label, before.label json action = some label → AppliesAlone before.traced label := by
    intro label own
    have under := allowed.1
    unfold Service.under at under
    rwa [own] at under
  refine faithful.step (fun label own => (meets label own).1) (fun label own => (meets label own).2.2)
    allowed.2 moves fun label own => ?_
  obtain ⟨moved, advanced, traced, -⟩ := moves.moved label own
  rw [traced]
  exact faithful.ordered.keeping (meets label own) (advance_some advanced).2.2.2.2.1

end Faithful

/-- In every run in which nothing wraps, committed entries stay, nobody fetches an entry while another
one is held, and nothing is applied between the loop's `Snapshot` and its `Compact`: a stored snapshot
is read back as a map with the last write of the entries up to its index, all of them committed, and
on every machine with a database it is restored so that no write of these or of later entries is
lost. -/
theorem snapshot_has_every_write
    (run : Reach (Service.step json members) (SnapshotsAlone json) (Service.initial members) s)
    {id : NodeId} (member : id ∈ members.ids) {state : PersistentState}
    (stored : (s.server id).node.store = some state) (made : 0 < state.lastIncludedIndex) :
    state.lastIncludedIndex ≤ (s.server id).node.commitIndex ∧
    ∃ data, json.unmarshalMap state.snapshot = some data ∧
      Overwrite.Shows (contents data)
        (writes json ((s.server id).full.take state.lastIncludedIndex)) ∧
      ∀ machine : KVStateMachine, machine.db.isSome = true → ∃ restored,
        machine.restoreSnapshot json state.snapshot = .ok restored ∧ restored.data = data ∧
        ∀ more : List LogEntry,
          Overwrite.Shows (contents (restored.calls json (more.filter (plain json))).data)
            (writes json ((s.server id).full.take state.lastIncludedIndex ++ more)) := by
  have faithful := Faithful.reach run
  have order : InOrder (s.server id) _ := faithful.ordered.order id member
  have aligned : Raft.Aligned (s.server id) := (faithful.ordered.steady.servers id member).aligned
  have covered := (aligned.disk state stored).covered
  rw [aligned.side] at covered
  have start : (s.server id).compacted.take state.lastIncludedIndex =
      (s.server id).full.take state.lastIncludedIndex := by
    rw [aligned.side_eq, List.take_take, Nat.min_eq_left covered]
  have covers := (faithful.stored id member).disk state stored
  rw [start] at covers
  refine ⟨covered.trans (order.includedLe.trans order.appliedLe), ?_⟩
  rcases covers with ⟨-, none⟩ | ⟨data, storable, bytes, shows⟩
  · have length := congrArg List.length none
    rw [List.length_take, List.length_nil] at length
    have inside := aligned.represents.covered
    omega
  · refine ⟨data, ?_, shows, fun machine database => ?_⟩
    · rw [bytes, KVStateMachine.snapshot, Store.insertAll_toList]
      exact json.map_roundtrip data fun key there => storable.utf8 there
    · obtain ⟨bucket, held⟩ := Option.isSome_iff_exists.mp database
      refine ⟨⟨data, some data⟩, ?_, rfl, fun more => ?_⟩
      · rw [bytes]
        exact storable.restore machine held
      · have loaded : Loaded json ⟨data, some data⟩
            ((s.server id).full.take state.lastIncludedIndex) := ⟨rfl, storable, shows⟩
        have twice : (more.filter (plain json)).filter (plain json) = more.filter (plain json) := by
          simp
        have same : writes json (more.filter (plain json)) = writes json more := by
          rw [writes, twice, writes]
        have shown := (loaded.calls twice).shows
        rw [writes_append, same] at shown
        rw [writes_append]
        exact shown

/-- The only member is elected, clients put a key and delete another one until the loop is to take a
snapshot, and the loop has applied the entries. -/
def untilSnapshot : List Action :=
  ofLabels (Label.commitAlone "A" []) ++
    (List.range Raft.snapshotThresholdEntries).flatMap (fun number =>
      [.receive "A" (.write (if number = 0 then .put [98] [50] else .delete [99])), .handle number] ++
        ofLabels (Label.sections "A" (number + 1) 3)) ++
    [.loop "A" true] ++ ofLabels (Label.sections "A" 65 193) ++ [.loop "A" true]

/-- A put is proposed and applied by its handler between the loop's `Snapshot` and its `Compact`, and the
process restarts. -/
def putAfterSnapshot : List Action :=
  [.loop "A" true, .receive "A" (.write (.put [97] [49])), .handle 64] ++
    ofLabels (Label.sections "A" 66 3) ++ [.handle 64] ++ ofLabels (Label.sections "A" 67 4) ++
    [.loop "A" true, .raft ⟨"A", .crash⟩]

/-- A stored snapshot has an index, and the key that was put. -/
def storedAt (index : Nat) (s : Service) : Bool :=
  (s.server "A").node.store.any fun state => decide (state.lastIncludedIndex = index ∧
    (Store.wire.unmarshalMap state.snapshot).map (fun data => contents data [98]) = some (some [50]))

/-- The put was answered and its entry is below the index of the stored snapshot, and neither the
snapshot nor the restarted machine has it. -/
def losesPut (s : Service) : Bool :=
  (s.server "A").node.store.any fun state => decide (
    Moment.answered 64 .noContent ∈ s.journal ∧ state.lastIncludedIndex = 65 ∧
    Overwrite.replay (fun _ => none) (writes Store.wire ((s.server "A").full.take 65)) [97] = some [49] ∧
    (Store.wire.unmarshalMap state.snapshot).map (fun data => contents data [97]) = some none ∧
    (s.server "A").node.lastApplied = 65 ∧ (s.machines "A").get [97] = none)

/-- The loop is about to take a snapshot, and goes on alone or with a put between. -/
theorem untilSnapshot_reaches : ∃ s : Service,
    Reach (Service.step Store.wire Raft.oneNode) (SnapshotsAlone Store.wire)
      (Service.initial Raft.oneNode) s ∧
      (Transition.exec (Service.step Store.wire Raft.oneNode) (SnapshotsAlone Store.wire) s
        [.loop "A" true, .loop "A" true]).any (storedAt 64) = true ∧
      (Transition.exec (Service.step Store.wire Raft.oneNode)
        (fun s action => s.under Store.wire AppliesAlone action) s putAfterSnapshot).any losesPut =
        true := by
  have passed : (Transition.exec (Service.step Store.wire Raft.oneNode) (SnapshotsAlone Store.wire)
      (Service.initial Raft.oneNode) untilSnapshot).any (fun s => decide (
        (Transition.exec (Service.step Store.wire Raft.oneNode) (SnapshotsAlone Store.wire) s
          [.loop "A" true, .loop "A" true]).any (storedAt 64) = true ∧
        (Transition.exec (Service.step Store.wire Raft.oneNode)
          (fun s action => s.under Store.wire AppliesAlone action) s putAfterSnapshot).any losesPut =
          true)) = true := by
    decide +kernel
  obtain ⟨s, run, test⟩ := Reach.of_exec_test passed
  exact ⟨s, run, of_decide_eq_true test⟩

/-- The loop takes a snapshot and compacts. -/
theorem snapshot_has_every_write_alone : ∃ (s : Service) (state : PersistentState),
    Reach (Service.step Store.wire Raft.oneNode) (SnapshotsAlone Store.wire)
      (Service.initial Raft.oneNode) s ∧
      (s.server "A").node.store = some state ∧ state.lastIncludedIndex = 64 ∧
      ∃ data, Store.wire.unmarshalMap state.snapshot = some data ∧ contents data [98] = some [50] ∧
        Overwrite.Shows (contents data) (writes Store.wire ((s.server "A").full.take 64)) := by
  obtain ⟨before, begun, passed, -⟩ := untilSnapshot_reaches
  obtain ⟨s, run, test⟩ := begun.of_exec_any passed
  obtain ⟨state, stored, facts⟩ := (Option.any_eq_true ..).mp test
  obtain ⟨index, has⟩ := of_decide_eq_true facts
  have found := (snapshot_has_every_write run (by decide) stored (by rw [index]; decide)).2
  rw [index] at found
  obtain ⟨data, read, shows, -⟩ := found
  rw [read] at has
  exact ⟨s, state, run, stored, index, data, read, Option.some.inj has, shows⟩

/-- A write is committed, applied and answered between the loop's `Snapshot` and its `Compact`, although
nothing wraps, committed entries stay and nobody fetches an entry while another one is held. The stored
snapshot claims its index and does not have it, and after a restart it is gone. -/
theorem write_after_snapshot_lost : ∃ (s : Service) (state : PersistentState),
    Reach (Service.step Store.wire Raft.oneNode) (fun s action => s.under Store.wire AppliesAlone action)
      (Service.initial Raft.oneNode) s ∧
      Moment.answered 64 .noContent ∈ s.journal ∧
      (s.server "A").node.store = some state ∧ state.lastIncludedIndex = 65 ∧
      Overwrite.replay (fun _ => none) (writes Store.wire ((s.server "A").full.take 65)) [97] =
        some [49] ∧
      (Store.wire.unmarshalMap state.snapshot).map (fun data => contents data [97]) = some none ∧
      (s.server "A").node.lastApplied = 65 ∧ (s.machines "A").get [97] = none := by
  obtain ⟨before, begun, -, passed⟩ := untilSnapshot_reaches
  obtain ⟨s, run, test⟩ := (begun.weaken fun _ _ allowed => allowed.1).of_exec_any passed
  obtain ⟨state, stored, facts⟩ := (Option.any_eq_true ..).mp test
  obtain ⟨answered, index, written, read, applied, lost⟩ := of_decide_eq_true facts
  exact ⟨s, state, run, answered, stored, index, written, read, applied, lost⟩

end

end Service

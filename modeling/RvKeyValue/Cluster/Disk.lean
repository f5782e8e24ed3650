import RvKeyValue.Base.Simulation
import RvKeyValue.Cluster.Tenure
import RvKeyValue.Cluster.Words
import RvKeyValue.Store.StableState

/-!
# The cluster on its databases

In the cluster a process that crashes is built again from the state it saved last. Here a process has a
database, `Save` writes bytes to it, and a process that starts again opens the database and reads the
bytes. The two take the same steps: no saved state is unreadable, and none is read as another.
-/

namespace Raft

open Transition (Reach)
open Store (BoltRaftStore Writable)

/-- The cluster and the database of each process. -/
structure DiskCluster where
  /-- The processes and messages. -/
  cluster : Cluster
  /-- The databases. -/
  disks : NodeId → BoltRaftStore

/-- A process finds a state in its database. -/
def Server.reload (sv : Server) (state : PersistentState) : Server :=
  { sv with node := { sv.node with store := some state } }

/-- So does one of the cluster. -/
def Cluster.reload (c : Cluster) (id : NodeId) (state : PersistentState) : Cluster :=
  { c with servers := Function.update c.servers id ((c.servers id).reload state) }

/-- The database after a step of its process: a state that was saved in the step is written. -/
def record (disk : BoltRaftStore) (before after : RaftNode) : BoltRaftStore :=
  match after.store with
  | none => disk
  | some state => if before.store = some state then disk else disk.save true state

namespace DiskCluster

/-- Every process has been started on a new database. -/
def initial (members : Members) : DiskCluster where
  cluster := .initial members
  disks _ := BoltRaftStore.init {}

/-- One step. A process that starts again opens its database, and does not start when `Load` fails. -/
def step (unmarshal : Bytes → Option MembershipCommand) (members : Members) (d : DiskCluster)
    (label : Label) : Option DiskCluster :=
  if label.event = .crash then
    ((d.disks label.node).init.load).bind fun state =>
      ((d.cluster.reload label.node state).step unmarshal members label).map fun after =>
        { cluster := after
          disks := Function.update d.disks label.node (d.disks label.node).init }
  else
    (d.cluster.step unmarshal members label).map fun after =>
      { cluster := after
        disks := Function.update d.disks label.node (record (d.disks label.node)
          (d.cluster.servers label.node).node (after.servers label.node).node) }

end DiskCluster

section

variable {unmarshal : Bytes → Option MembershipCommand} {members : Members} {c : Cluster}
  {d d' : DiskCluster} {label : Label}

/-- A state that a process whose log is numbered has stored can be saved: its numbers are words. -/
theorem Server.Words.writable {sv : Server} (words : sv.Words) (aligned : Aligned sv)
    {state : PersistentState} (store : sv.node.store = some state) : Writable state := by
  have listed := words.peers.disk state store
  have terms := words.sourced.log.disk state store
  have disk := aligned.disk state store
  have covered : state.lastIncludedIndex ≤
      (sv.compacted.take state.lastIncludedIndex ++ state.log).length := disk.represents.covered
  have bounded := disk.represents.bounded
  have retained : state.log = (sv.compacted.take state.lastIncludedIndex ++ state.log).drop
      state.lastIncludedIndex := disk.represents.retained
  have whole : Raft.Sourced WordTerm (sv.compacted.take state.lastIncludedIndex ++ state.log) :=
    .append (words.sourced.compacted.sublist fun _ => List.mem_of_mem_take) terms
  refine ⟨?_, listed, by omega, ?_, fun entry among => ⟨terms entry among, ?_⟩⟩
  · have low := words.node.disk state store
    have positive : 0 < Word.limit := by decide
    omega
  · have boundary : state.lastIncludedTerm = termAt _ state.lastIncludedIndex :=
      disk.represents.boundary
    rw [boundary, termAt]
    split
    · decide
    · cases found : (sv.compacted.take state.lastIncludedIndex ++ state.log)[state.lastIncludedIndex -
          1]? with
      | none => exact (by decide : 0 < Word.limit)
      | some entry => exact whole entry (List.mem_of_getElem? found)
  · obtain ⟨position, inside, found⟩ := List.getElem_of_mem (List.mem_append_right
      (sv.compacted.take state.lastIncludedIndex) among)
    have index := disk.represents.indexed position entry (List.getElem?_eq_some_iff.mpr ⟨inside, found⟩)
    omega

/-- Every database holds what its process stored last. -/
structure DiskCluster.Faithful (members : Members) (d : DiskCluster) : Prop where
  /-- Logs are numbered. -/
  steady : SteadyCluster members d.cluster
  /-- Terms are words. -/
  words : d.cluster.Words
  /-- What is loaded is what was stored. -/
  loads : ∀ id ∈ members.ids, ∃ state, (d.cluster.servers id).node.store = some state ∧
    (d.disks id).load = some state

/-- A process that finds what it stored goes on as before. -/
theorem Cluster.reload_same {id : NodeId} {state : PersistentState}
    (store : (c.servers id).node.store = some state) : c.reload id state = c := by
  have same : (c.servers id).reload state = c.servers id := by
    unfold Server.reload
    rw [← store]
  unfold Cluster.reload
  rw [same, Function.update_eq_self]

/-- What a process stored last is loaded from the database that was written after its step. -/
theorem record_load {disk : BoltRaftStore} {before after : RaftNode} {old new : PersistentState}
    (stored : before.store = some old) (loads : disk.load = some old) (store : after.store = some new)
    (writable : Writable new) : (record disk before after).load = some new := by
  unfold record
  rw [store]
  dsimp only
  split
  · rename_i unchanged
    rw [loads, ← stored, unchanged]
  · exact Store.unmarshalState_marshalState writable

namespace DiskCluster

/-- On a new database. -/
theorem Faithful.initial (members : Members) : (DiskCluster.initial members).Faithful members where
  steady := .initial members
  words := .initial members
  loads _ _ := ⟨{}, rfl, rfl⟩

/-- The cluster takes the same steps with and without databases. -/
theorem Faithful.view (faithful : d.Faithful members) (label : Label) :
    (d.step unmarshal members label).map DiskCluster.cluster = d.cluster.step unmarshal members label := by
  have forget : ∀ (found : Option Cluster) (disks : Cluster → NodeId → BoltRaftStore),
      (found.map fun after => (⟨after, disks after⟩ : DiskCluster)).map DiskCluster.cluster = found := by
    intro found disks
    cases found <;> rfl
  unfold step
  split
  · rw [BoltRaftStore.load_init]
    by_cases inside : label.node ∈ members.ids
    · obtain ⟨state, store, loads⟩ := faithful.loads label.node inside
      rw [loads, Option.bind_some, Cluster.reload_same store]
      exact forget _ _
    · have nobody : ∀ c : Cluster, c.step unmarshal members label = none := fun c => if_neg inside
      rw [nobody]
      cases (d.disks label.node).load with
      | none => rfl
      | some state => rw [Option.bind_some, nobody, Option.map_none, Option.map_none]
  · exact forget _ _

/-- A step writes the database of its process only. -/
theorem step_disks (stepped : d.step unmarshal members label = some d') :
    d'.disks = Function.update d.disks label.node (if label.event = .crash then
      (d.disks label.node).init
    else record (d.disks label.node) (d.cluster.servers label.node).node
      (d'.cluster.servers label.node).node) := by
  unfold step at stepped
  split at stepped
  · rename_i crash
    obtain ⟨found, -, restarted⟩ := Option.bind_eq_some_iff.mp stepped
    obtain ⟨after, -, rfl⟩ := Option.map_eq_some_iff.mp restarted
    rw [if_pos crash]
  · rename_i going
    obtain ⟨after, -, rfl⟩ := Option.map_eq_some_iff.mp stepped
    rw [if_neg going]

/-- A step keeps the databases faithful. -/
theorem Faithful.next (faithful : d.Faithful members) (fits : d.cluster.nothingWraps label = true)
    (stepped : d.step unmarshal members label = some d') : d'.Faithful members := by
  have viewed : d.cluster.step unmarshal members label = some d'.cluster := by
    rw [← faithful.view label, stepped, Option.map_some]
  have steady := (faithful.steady.step fits viewed).1
  have words := faithful.words.step fits viewed
  refine ⟨steady, words, fun id member => ?_⟩
  obtain ⟨old, stored, loads⟩ := faithful.loads id member
  obtain ⟨-, net, reaction, -, reacted, absorbed⟩ := Cluster.step_some viewed
  rw [step_disks stepped]
  by_cases here : id = label.node
  swap
  · rw [absorbed, d.cluster.absorb_other net reaction here, Function.update_of_ne here]
    exact ⟨old, stored, loads⟩
  subst here
  have own : d'.cluster.servers label.node = reaction.server := by
    rw [absorbed, d.cluster.absorb_own]
  rw [Function.update_self]
  split
  · rename_i crash
    -- a restart keeps the stored state
    rcases Server.react_store reacted with kept | ⟨going, -⟩
    · exact ⟨old, by rw [own, kept, stored], by rw [BoltRaftStore.load_init, loads]⟩
    · exact absurd crash going
  · obtain ⟨state, store⟩ : ∃ state, (d'.cluster.servers label.node).node.store = some state := by
      rw [own]
      rcases Server.react_store reacted with kept | ⟨-, saved⟩
      · exact ⟨old, kept.trans stored⟩
      · exact ⟨_, saved⟩
    have writable := (words.servers label.node).writable (steady.servers label.node member).aligned store
    exact ⟨state, store, record_load stored loads store writable⟩

end DiskCluster

/-- A run on databases is a run of the cluster, and goes on as the cluster does: whatever crashed and
whichever saves failed, every database loads the state its process saved last, so a process that stops
starts again, from that state. -/
theorem restarts_from_disk
    (run : Reach (DiskCluster.step unmarshal members)
      (fun d label => d.cluster.nothingWraps label = true) (.initial members) d) :
    Reach (Cluster.step unmarshal members) (fun c label => c.nothingWraps label = true)
      (.initial members) d.cluster ∧
    (∀ label, (d.step unmarshal members label).map DiskCluster.cluster =
      d.cluster.step unmarshal members label) ∧
    ∀ id ∈ members.ids, ∃ state d', (d.cluster.servers id).node.store = some state ∧
      (d.disks id).load = some state ∧ d.step unmarshal members ⟨id, .crash⟩ = some d' ∧
      (d'.cluster.servers id).node =
        newRaftNode (d.cluster.servers id).node.id (members.peers id) (some state) := by
  have both : d.Faithful members ∧ Reach (Cluster.step unmarshal members)
      (fun c label => c.nothingWraps label = true) (.initial members) d.cluster := by
    refine run.simulate DiskCluster.cluster (.initial members) ?_
    intro before after label faithful fits stepped
    refine ⟨faithful.next fits stepped, Or.inr ⟨label, fits, ?_⟩⟩
    rw [← faithful.view label, stepped, Option.map_some]
  obtain ⟨faithful, reached⟩ := both
  refine ⟨reached, faithful.view, fun id member => ?_⟩
  obtain ⟨state, store, loads⟩ := faithful.loads id member
  have viewed : (d.step unmarshal members ⟨id, .crash⟩).map DiskCluster.cluster = _ := faithful.view _
  have restarts : d.cluster.step unmarshal members ⟨id, .crash⟩ = some (d.cluster.absorb id d.cluster.net
      { server := (d.cluster.servers id).restart (members.peers id) }) := if_pos member
  rw [restarts] at viewed
  obtain ⟨d', stepped, same⟩ := Option.map_eq_some_iff.mp viewed
  refine ⟨state, d', store, loads, stepped, ?_⟩
  rw [same, d.cluster.absorb_own, ← store]
  rfl

end

/-- `A` applies and compacts what it committed, and appends another entry. -/
def appendedAfterCompaction : List Label :=
  [⟨"A", .start .apply⟩] ++ Label.sections "A" 2 3 ++
  [⟨"A", .compact [7] true⟩, ⟨"A", .start (.propose [89])⟩] ++ Label.sections "A" 3 2

/-- `A` crashes after it has compacted what it committed and has appended another entry: it starts again
with the snapshot and the entry, in the term it led. -/
theorem restarts_from_disk_compacted : ∃ d d',
    Reach (DiskCluster.step plainCommands threeNodes)
      (fun d label => d.cluster.nothingWraps label = true) (.initial threeNodes) d ∧
      d.step plainCommands threeNodes ⟨"A", .crash⟩ = some d' ∧
      (d'.cluster.servers "A").node.currentTerm = 1 ∧ (d'.cluster.servers "A").node.votedFor = "A" ∧
      (d'.cluster.servers "A").node.lastIncludedIndex = 1 ∧
      (d'.cluster.servers "A").node.snapshot = [7] ∧
      (d'.cluster.servers "A").node.log = [⟨1, 2, [89]⟩] := by
  have passed : (Transition.exec (DiskCluster.step plainCommands threeNodes)
      (fun d label => d.cluster.nothingWraps label = true) (.initial threeNodes)
      (committedFirst ++ appendedAfterCompaction)).any (fun d =>
        decide ((d.cluster.servers "A").node.store = some
          { currentTerm := 1, votedFor := "A", peers := some ["B", "C"], selfMember := some true
            lastIncludedIndex := 1, lastIncludedTerm := 1, snapshot := [7]
            log := [⟨1, 2, [89]⟩] })) = true := by
    decide +kernel
  obtain ⟨d, run, test⟩ := Reach.of_exec_test passed
  have stored := of_decide_eq_true test
  obtain ⟨state, d', store, -, stepped, built⟩ := (restarts_from_disk run).2.2 "A" (by decide)
  rw [stored] at store
  obtain rfl := Option.some.inj store
  refine ⟨d, d', run, stepped, ?_⟩
  rw [built]
  exact ⟨rfl, rfl, rfl, rfl, rfl⟩

end Raft

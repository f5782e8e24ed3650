import RvKeyValue.Service.Reads

/-!
# Replicas

What the conditions of `ReadsSound` give for the maps of the nodes and for the writes of clients. Two
maps have the last writes of two starts of one log; and a write that was acknowledged stands in the logs
of a majority, of the latest leader, and of every node whose commit index covers it.
-/

namespace Raft

open ReplicatedLog (Chosen Committed)

variable {members : Members} {c : Cluster} {a : Protocol} {entry : LogEntry}

/-- An entry of a prefix that a log has. -/
theorem Simulates.holds_of_prefix (sim : Simulates members c a) {id : NodeId}
    (member : id ∈ members.ids) (positive : 1 ≤ entry.index) {pre : List LogEntry}
    (found : pre[entry.index - 1]? = some entry) (held : pre <+: a.log id) :
    (c.servers id).Holds entry := by
  refine ⟨positive, ?_⟩
  rw [(sim.servers id member).full]
  exact held.getElem?_of_some found

/-- A majority of the members holds a settled entry. -/
theorem Simulates.majority_holds (sim : Simulates members c a) (settled : Settled members a entry) :
    ∃ holders ⊆ members.ids.toFinset, members.ids.length < 2 * holders.card ∧
      ∀ id ∈ holders, (c.servers id).Holds entry := by
  obtain ⟨positive, term, pre, chosen, found⟩ := settled
  obtain ⟨holders, ⟨inside, half⟩, held⟩ := chosen.held sim.good.inv
  rw [List.toFinset_card_of_nodup members.distinct] at half
  refine ⟨holders, inside, half, fun id listed => ?_⟩
  exact sim.holds_of_prefix (List.mem_toFinset.mp (inside listed)) positive found (held id listed).2

/-- The leader of the latest term holds a settled entry. -/
theorem Simulates.leader_holds (sim : Simulates members c a) (settled : Settled members a entry)
    {id : NodeId} (member : id ∈ members.ids) (leads : (c.servers id).node.state = .leader)
    (latest : ∀ other ∈ members.ids,
      (c.servers other).node.currentTerm ≤ (c.servers id).node.currentTerm) :
    (c.servers id).Holds entry := by
  have ok := sim.servers id member
  obtain ⟨positive, term, pre, chosen, found⟩ := settled
  -- somebody who acknowledged the prefix has not passed the leader's term
  have reached : term ≤ a.term id := by
    obtain ⟨holders, quorum, held⟩ := chosen.held sim.good.inv
    obtain ⟨other, listed, -⟩ := members.quorums.meet holders holders quorum quorum
    have inside : other ∈ members.ids := List.mem_toFinset.mp (quorum.1 listed)
    have bound := latest other inside
    rw [(sim.servers other inside).refines.term, ok.refines.term] at bound
    exact (held other listed).1.trans bound
  obtain ⟨election, elected, self, -⟩ := ok.refines.leads leads
  have wrote := sim.good.inv.leaderHolds _ _ elected (by rw [self])
  rw [self] at wrote
  refine sim.holds_of_prefix member positive found ?_
  rw [wrote]
  exact chosen.prefix_leaderLog sim.good.inv reached elected

/-- Of two committed parts of logs one is the start of the other. -/
theorem Simulates.comparable (sim : Simulates members c a) {left right : NodeId}
    (leftMember : left ∈ members.ids) (rightMember : right ∈ members.ids)
    {first second : List LogEntry} (leftPart : first <+: (c.servers left).full)
    (rightPart : second <+: (c.servers right).full)
    (firstCommitted : first.length ≤ (c.servers left).node.commitIndex)
    (secondCommitted : second.length ≤ (c.servers right).node.commitIndex) :
    first <+: second ∨ second <+: first := by
  have committed : ∀ {id : NodeId} {part : List LogEntry}, id ∈ members.ids →
      part <+: (c.servers id).full → part.length ≤ (c.servers id).node.commitIndex →
      Committed LogEntry.term members.quorums a (a.term id) part := by
    intro id part member start low
    have ok := sim.servers id member
    rw [ok.full] at start
    refine ok.refines.commit.shorten ?_
    rw [List.prefix_iff_eq_take.mp start]
    exact List.take_prefix_take_left low
  have one := committed leftMember leftPart firstCommitted
  have two := committed rightMember rightPart secondCommitted
  rcases Nat.le_total first.length second.length with shorter | longer
  · exact Or.inl (one.prefix_of_le sim.good.inv two shorter)
  · exact Or.inr (two.prefix_of_le sim.good.inv one longer)

end Raft

open Raft (Bytes NodeId LogEntry Members Label)
open Raft (threeNodes)
open Store (Json contents encodeCommand wire)
open Transition (Reach)

namespace Service

section

variable {json : Json} {members : Members} {s : Service}

/-- The writes of a log to a key. -/
def writesTo (json : Json) (key : Bytes) (entries : List LogEntry) : List (Bytes × Option Bytes) :=
  (writes json entries).filter fun write => decide (write.1 = key)

/-- A node's map has what some entries wrote: the start of the node's log up to an index that is committed
and that `lastApplied` has not passed. -/
structure Reflects (json : Json) (s : Service) (id : NodeId) (entries : List LogEntry) : Prop where
  /-- They are the start of the log. -/
  start : entries <+: (s.server id).full
  /-- What was applied is among them. -/
  applied : (s.server id).node.lastApplied ≤ entries.length
  /-- All of them are committed. -/
  committed : entries.length ≤ (s.server id).node.commitIndex
  /-- The map has the last of their writes to each key. -/
  shows : Overwrite.Shows (contents (s.machines id).data) (writes json entries)

/-- In every run in which the conditions of `ReadsSound` hold, the maps of any two nodes have the last
writes of two committed starts of one log, which reach as far as each has applied; and where these write
the same to a key, the maps agree on it. -/
theorem replicas_agree
    (run : Reach (Service.step json members) (ReadsSound json) (Service.initial members) s)
    {left right : NodeId} (leftMember : left ∈ members.ids) (rightMember : right ∈ members.ids) :
    ∃ first second, Reflects json s left first ∧ Reflects json s right second ∧
      (first <+: second ∨ second <+: first) ∧
      ∀ key, writesTo json key first ≠ [] → writesTo json key first = writesTo json key second →
        (s.machines left).get key = (s.machines right).get key := by
  obtain ⟨a, linear⟩ := Linear.reach run
  obtain ⟨first, firstStart, firstApplied, firstCommitted, shows⟩ := linear.faithful.shows leftMember
  obtain ⟨second, secondStart, secondApplied, secondCommitted, others⟩ :=
    linear.faithful.shows rightMember
  refine ⟨first, second, ⟨firstStart, firstApplied, firstCommitted, shows⟩,
    ⟨secondStart, secondApplied, secondCommitted, others⟩, ?_, ?_⟩
  · exact linear.sim.comparable leftMember rightMember firstStart secondStart firstCommitted
      secondCommitted
  · intro key some same
    obtain ⟨write, listed⟩ := List.exists_mem_of_ne_nil _ some
    obtain ⟨among, there⟩ := List.mem_filter.mp listed
    have written : ∃ write ∈ writes json first, write.1 = key := ⟨write, among, by simpa using there⟩
    exact shows.agree others written same

end

/-- `A` leads term 1 and commits a put with `B`, which it answers; a heartbeat tells `B`, whose loop applies
the entry. Then `B` is elected with the vote of `C`. -/
def writtenTwice : List Action :=
  ofLabels (Label.campaign "A" 0 1 0 0 [("B", 0)]) ++
  [.receive "A" (.write (.put [97] [49])), .handle 0] ++
  ofLabels (Label.sections "A" 1 9 ++
    Label.rpc "A" "B" 1 (.appendRequest ⟨1, "A", 0, 0, [⟨1, 1, putLetter⟩], 0⟩)
      (.appendResponse ⟨1, "A", 0, 0, [⟨1, 1, putLetter⟩], 0⟩ ⟨1, true⟩) ++ Label.sections "A" 1 3) ++
  [.handle 0] ++
  ofLabels (Label.sections "A" 2 4 ++ [⟨"A", .start .replicate⟩] ++ Label.sections "A" 3 5 ++
    [⟨"B", .serve ⟨"A", "B", 3, .appendRequest ⟨1, "A", 1, 1, [], 1⟩⟩ true⟩]) ++
  [.loop "B" true] ++ ofLabels (Label.sections "B" 0 4 ++ Label.campaign "B" 1 2 1 1 [("C", 0)])

/-- `A` and `B` have applied the put, and both maps have it. -/
theorem replicas_agree_put : ∃ s : Service,
    Reach (Service.step wire threeNodes) (ReadsSound wire) (Service.initial threeNodes) s ∧
      (s.server "A").node.lastApplied = 1 ∧ (s.server "B").node.lastApplied = 1 ∧
      (s.machines "B").get [97] = some [49] ∧
      ∃ first second, Reflects wire s "A" first ∧ Reflects wire s "B" second ∧
        (first <+: second ∨ second <+: first) ∧
        ∀ key, writesTo wire key first ≠ [] → writesTo wire key first = writesTo wire key second →
          (s.machines "A").get key = (s.machines "B").get key := by
  have passed : (Transition.exec (Service.step wire threeNodes) (ReadsSound wire)
      (Service.initial threeNodes) writtenTwice).any (fun s => decide (
        (s.server "A").node.lastApplied = 1 ∧ (s.server "B").node.lastApplied = 1 ∧
          (s.machines "B").get [97] = some [49])) = true := by
    decide +kernel
  obtain ⟨s, run, test⟩ := Reach.of_exec_test passed
  obtain ⟨leftApplied, rightApplied, shown⟩ := of_decide_eq_true test
  exact ⟨s, run, leftApplied, rightApplied, shown, replicas_agree run (by decide) (by decide)⟩

section

variable {json : Json} {members : Members} {s : Service}

/-- In every run in which the conditions of `ReadsSound` hold, the entry of a write that was answered
with 204, by whichever handler, stands in the logs of a majority of the members, in the log of every
node whose commit index covers it, and in the log of a leader whose term no member has passed. -/
theorem acknowledged_writes_kept
    (run : Reach (Service.step json members) (ReadsSound json) (Service.initial members) s)
    {number : Nat} {writer : Handler} (answered : .answered number .noContent ∈ s.journal)
    (given : s.handlers[number]? = some writer) :
    ∃ entry, .appended writer.origin entry ∈ s.journal ∧
      encodeCommand json writer.request.command = .ok entry.command ∧
      (∃ holders ⊆ members.ids.toFinset, members.ids.length < 2 * holders.card ∧
        ∀ id ∈ holders, (s.server id).Holds entry) ∧
      (∀ id ∈ members.ids, entry.index ≤ (s.server id).node.commitIndex →
        (s.server id).Holds entry) ∧
      ∀ id ∈ members.ids, (s.server id).node.state = .leader →
        (∀ other ∈ members.ids,
          (s.server other).node.currentTerm ≤ (s.server id).node.currentTerm) →
        (s.server id).Holds entry := by
  obtain ⟨a, linear⟩ := Linear.reach run
  have served := linear.served number writer given
  obtain ⟨entry, appended, settled⟩ := served.acked answered
  have encoded : encodeCommand json writer.request.command = .ok entry.command := by
    obtain ⟨client, origin, encoded⟩ := linear.written _ _ appended
    obtain ⟨again, same, request⟩ := served.origin
    obtain rfl := Option.some.inj (origin.symm.trans same)
    rw [← request]
    exact encoded
  refine ⟨entry, appended, encoded, linear.sim.majority_holds settled, ?_, ?_⟩
  · exact fun id member covered => linear.sim.holds member settled covered
  · exact fun id member leads latest => linear.sim.leader_holds settled member leads latest

end

/-- The put that `A` answered stands in the log of `B`, which leads term 2. -/
theorem acknowledged_writes_kept_reelected : ∃ (s : Service) (entry : LogEntry),
    Reach (Service.step wire threeNodes) (ReadsSound wire) (Service.initial threeNodes) s ∧
      .answered 0 .noContent ∈ s.journal ∧ (s.server "B").node.state = .leader ∧
      (s.server "B").node.currentTerm = 2 ∧
      encodeCommand wire ⟨.put, [97], [49]⟩ = .ok entry.command ∧ (s.server "B").Holds entry := by
  have passed : (Transition.exec (Service.step wire threeNodes) (ReadsSound wire)
      (Service.initial threeNodes) writtenTwice).any (fun s => decide (
        s.handlers[0]? = some ⟨"A", 0, .write (.put [97] [49]), .answered .noContent⟩ ∧
        .answered 0 .noContent ∈ s.journal ∧ (s.server "B").node.state = .leader ∧
          (s.server "B").node.currentTerm = 2 ∧ ∀ other ∈ threeNodes.ids,
            (s.server other).node.currentTerm ≤ (s.server "B").node.currentTerm)) = true := by
    decide +kernel
  obtain ⟨s, run, test⟩ := Reach.of_exec_test passed
  obtain ⟨given, answered, leads, term, latest⟩ := of_decide_eq_true test
  obtain ⟨entry, -, encoded, -, -, held⟩ := acknowledged_writes_kept run answered given
  exact ⟨s, entry, run, answered, leads, term, encoded, held "B" (by decide) leads latest⟩

end Service

import RvKeyValue.Cluster.Steady

/-!
# What a proposal returns

`ProposeWithRetryInterval` waits until the commit index reaches the index of its entry and
returns the entry. It is then in the node's log if no request was accepted meanwhile that
replaced it; saves may fail, membership may change and nodes may crash. The loop does not look
at the log again, and one run shows an entry returned after another leader overwrote it.
-/

namespace Raft

open Transition (Reach)

/-- Nothing wraps and no accepted request replaces an entry a proposal waits for. -/
def KeepsWaiting (c : Cluster) (label : Label) : Prop :=
  c.nothingWraps label = true ∧ c.waitingKept label = true

instance (c : Cluster) (label : Label) : Decidable (KeepsWaiting c label) := by
  unfold KeepsWaiting
  infer_instance

/-- Every proposal waits for an entry of the log. -/
def Awaited (sv : Server) : Prop :=
  ∀ tag call entry, sv.calls tag = some call → call.awaits = some entry → sv.Holds entry

/-- A step that replaces no awaited entry. -/
theorem Awaited.step {sv : Server} {event : Event} {reaction : Reaction} (awaited : Awaited sv)
    (outcome : SteadyStep sv event reaction)
    (kept : ∀ tag call entry, sv.calls tag = some call → call.awaits = some entry →
      sv.conflicts event entry.index = false) : Awaited reaction.server := by
  intro tag call entry running waits
  obtain ⟨going, source⟩ := outcome.awaits tag call entry running waits
  cases source with
  | inl before =>
    obtain ⟨old, ran, waited⟩ := before
    have held := awaited tag old entry ran waited
    exact held.take (outcome.kept going entry.index held.le_length (kept tag old entry ran waited))
  | inr appended =>
    refine ⟨by omega, ?_⟩
    rw [appended.2, appended.1, Nat.add_sub_cancel, List.getElem?_concat_length]

section

variable {unmarshal : Bytes → Option MembershipCommand} {members : Members}

/-- Steady processes whose proposals wait for entries of their logs. -/
structure AwaitedCluster (members : Members) (c : Cluster) : Prop where
  /-- Processes are steady. -/
  steady : SteadyCluster members c
  /-- Proposals wait for entries of the log. -/
  awaited : ∀ id ∈ members.ids, Awaited (c.servers id)

/-- One step of the cluster. -/
theorem AwaitedCluster.step {c c' : Cluster} {label : Label} (holds : AwaitedCluster members c)
    (allowed : KeepsWaiting c label) (stepped : c.step unmarshal members label = some c') :
    AwaitedCluster members c' := by
  have inside := (Cluster.step_some stepped).1
  obtain ⟨steady, net, reaction, -, -, rfl, -, outcome⟩ := holds.steady.step allowed.1 stepped
  refine ⟨steady, fun id member => ?_⟩
  by_cases here : id = label.node
  · rw [here, c.absorb_own]
    refine (holds.awaited label.node inside).step outcome fun tag call entry running waits => ?_
    have low := (holds.steady.servers label.node inside).running_lt running
    have kept := List.all_eq_true.mp allowed.2 tag (List.mem_range.mpr low)
    rw [running, Option.bind_some, waits] at kept
    simpa using kept
  · rw [c.absorb_other net reaction here]
    exact holds.awaited id member

/-- Every run. -/
theorem AwaitedCluster.reach {c : Cluster}
    (run : Reach (Cluster.step unmarshal members) KeepsWaiting (.initial members) c) :
    AwaitedCluster members c :=
  run.invariant ⟨.initial members, fun id _ tag call entry running => by contradiction⟩
    fun _ _ _ holds allowed stepped => holds.step allowed stepped

/-- The entry a proposal returns is in the log of its node at its index, and committed there. -/
theorem AwaitedCluster.returned {c c' : Cluster} {label : Label} (holds : AwaitedCluster members c)
    (fits : c.nothingWraps label = true) (stepped : c.step unmarshal members label = some c')
    {record : Record} (shown : record ∈ c'.observed.drop c.observed.length) {entry : LogEntry}
    (returned : record.observation = .returned entry) :
    (c'.servers record.node).Holds entry ∧
      entry.index ≤ (c'.servers record.node).node.commitIndex := by
  have inside := (Cluster.step_some stepped).1
  obtain ⟨steady, net, reaction, -, -, rfl, -, outcome⟩ := holds.steady.step fits stepped
  have added : (c.absorb label.node net reaction).observed.drop c.observed.length =
      reaction.observed.map fun shown => ⟨label.node, shown.1, shown.2⟩ := List.drop_left
  rw [added] at shown
  obtain ⟨⟨tag, observation⟩, made, rfl⟩ := List.mem_map.mp shown
  obtain rfl : observation = .returned entry := returned
  obtain ⟨⟨call, running, waits⟩, committed, still, -⟩ := outcome.returned tag entry made
  have held := holds.awaited label.node inside tag call entry running waits
  show ((c.absorb label.node net reaction).servers label.node).Holds entry ∧
    entry.index ≤ ((c.absorb label.node net reaction).servers label.node).node.commitIndex
  rw [c.absorb_own, still]
  exact ⟨held.congr rfl, committed⟩

/-- A successful proposal is committed: the entry it returns is in the log of its node. -/
theorem proposal_committed {c c' : Cluster} {label : Label}
    (run : Reach (Cluster.step unmarshal members) KeepsWaiting (.initial members) c)
    (allowed : KeepsWaiting c label) (stepped : c.step unmarshal members label = some c')
    {record : Record} (shown : record ∈ c'.observed.drop c.observed.length) {entry : LogEntry}
    (returned : record.observation = .returned entry) :
    (c'.servers record.node).Holds entry ∧
      entry.index ≤ (c'.servers record.node).node.commitIndex :=
  (AwaitedCluster.reach run).returned allowed.1 stepped shown returned

end

/-- `A` leads term 1 and commits `[88]` with `B`: one section before the proposal returns. -/
def proposalWaits : List Label :=
  Label.campaign "A" 0 1 0 0 [("B", 0)] ++
  [⟨"A", .start (.propose [88])⟩] ++ Label.sections "A" 1 9 ++
  Label.rpc "A" "B" 1 (.appendRequest ⟨1, "A", 0, 0, [⟨1, 1, [88]⟩], 0⟩)
    (.appendResponse ⟨1, "A", 0, 0, [⟨1, 1, [88]⟩], 0⟩ ⟨1, true⟩) ++ Label.sections "A" 1 2

/-- The entry a leader committed with one follower is in its log. -/
theorem proposal_committed_first : ∃ c c' label record,
    Reach (Cluster.step plainCommands threeNodes) KeepsWaiting (.initial threeNodes) c ∧
      KeepsWaiting c label ∧ c.step plainCommands threeNodes label = some c' ∧
      record ∈ c'.observed.drop c.observed.length ∧ record.observation = .returned ⟨1, 1, [88]⟩ ∧
      (c'.servers record.node).Holds ⟨1, 1, [88]⟩ ∧
      1 ≤ (c'.servers record.node).node.commitIndex := by
  have passed : (Transition.exec (Cluster.step plainCommands threeNodes) KeepsWaiting
      (.initial threeNodes) proposalWaits).any (fun c =>
        decide (KeepsWaiting c ⟨"A", .step 1 true true⟩) &&
          (c.step plainCommands threeNodes ⟨"A", .step 1 true true⟩).any fun c' =>
            decide (⟨"A", 1, .returned ⟨1, 1, [88]⟩⟩ ∈ c'.observed.drop c.observed.length)) =
      true := by
    decide +kernel
  obtain ⟨c, run, test⟩ := Reach.of_exec_test passed
  obtain ⟨allowed, test⟩ := (Bool.and_eq_true ..).mp test
  obtain ⟨c', stepped, shown⟩ := (Option.any_eq_true ..).mp test
  have seen := of_decide_eq_true shown
  obtain ⟨held, committed⟩ := proposal_committed run (of_decide_eq_true allowed) stepped seen rfl
  exact ⟨c, c', _, _, run, of_decide_eq_true allowed, stepped, seen, rfl, held, committed⟩

/-- `A` leads term 1, but nobody gets the entry of its proposal. `B` is elected in term 2 and commits
`[89]` at the same index with `C`; its next request overwrites `A`'s entry and moves `A`'s commit
index, and then the retry timer of the proposal fires. -/
def overwrittenProposal : List Label :=
  Label.campaign "A" 0 1 0 0 [("B", 0)] ++
  [⟨"A", .start (.propose [88])⟩] ++ Label.sections "A" 1 9 ++
  [⟨"A", .failure 1 "B"⟩, ⟨"A", .failure 1 "C"⟩] ++ Label.sections "A" 1 2 ++
  Label.campaign "B" 0 2 0 0 [("C", 0)] ++
  [⟨"B", .start (.propose [89])⟩] ++ Label.sections "B" 1 9 ++
  Label.rpc "B" "C" 1 (.appendRequest ⟨2, "B", 0, 0, [⟨2, 1, [89]⟩], 0⟩)
    (.appendResponse ⟨2, "B", 0, 0, [⟨2, 1, [89]⟩], 0⟩ ⟨2, true⟩) ++ Label.sections "B" 1 3 ++
  [⟨"B", .start .replicate⟩] ++ Label.sections "B" 2 5 ++
  [⟨"A", .serve ⟨"B", "A", 2, .appendRequest ⟨2, "B", 0, 0, [⟨2, 1, [89]⟩], 1⟩⟩ true⟩] ++
  Label.sections "A" 1 1

/-- A proposal returns the entry another leader has overwritten: the log of its node holds the other
entry, although saves succeed, membership is fixed and nothing wraps. -/
theorem overwritten_proposal_returned : ∃ c c' : Cluster, ∃ label : Label,
    Reach (Cluster.step plainCommands threeNodes)
      (fun c label => Cluster.savesSucceed label = true ∧
        c.membershipFixed plainCommands label = true ∧ c.nothingWraps label = true)
      (.initial threeNodes) c ∧
      c.step plainCommands threeNodes label = some c' ∧
      ⟨"A", 1, .returned ⟨1, 1, [88]⟩⟩ ∈ c'.observed.drop c.observed.length ∧
      (c'.servers "A").Holds ⟨2, 1, [89]⟩ := by
  have passed : (Transition.exec (Cluster.step plainCommands threeNodes)
      (fun c label => Cluster.savesSucceed label = true ∧
        c.membershipFixed plainCommands label = true ∧ c.nothingWraps label = true)
      (.initial threeNodes) overwrittenProposal).any (fun c =>
        (c.step plainCommands threeNodes ⟨"A", .step 1 true true⟩).any fun c' =>
          decide (⟨"A", 1, .returned ⟨1, 1, [88]⟩⟩ ∈ c'.observed.drop c.observed.length ∧
            (c'.servers "A").Holds ⟨2, 1, [89]⟩)) = true := by
    decide +kernel
  obtain ⟨c, run, test⟩ := Reach.of_exec_test passed
  obtain ⟨c', stepped, shown⟩ := (Option.any_eq_true ..).mp test
  have facts := of_decide_eq_true shown
  exact ⟨c, c', _, run, stepped, facts⟩

end Raft

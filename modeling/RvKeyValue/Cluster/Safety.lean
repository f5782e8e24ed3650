import RvKeyValue.Cluster.Invariant

/-!
# Safety of the cluster

State machine safety, log matching and truthful leader progress hold in every run in which
`AppendLocal` only runs on a leader and a recorded success answers a request of the leader's
current term. The code checks neither: `ProposeWithRetryInterval` reads the role in one section
and appends in another, and `RecordReplicationSuccess` does not know which term its request
was built in. Two runs show what goes wrong without them.
-/

namespace Raft

open Transition (Reach)

/-- What the safety properties are usually stated under: saves succeed, no membership change is
applied, nothing wraps and each node has one applier. -/
def Assumed (unmarshal : Bytes → Option MembershipCommand) (c : Cluster) (label : Label) : Prop :=
  Cluster.savesSucceed label = true ∧ c.membershipFixed unmarshal label = true ∧
    c.nothingWraps label = true ∧ c.oneApplier label = true

instance (unmarshal : Bytes → Option MembershipCommand) (c : Cluster) (label : Label) :
    Decidable (Assumed unmarshal c label) := by
  unfold Assumed
  infer_instance

/-- `A` leads term 1 and checks its role for a proposal of `[88]`. `B` is elected in term 2 and its
heartbeat makes `A` follow it. Then `A` appends, in term 2, and so does `B`. -/
def deposedAppend : List Label :=
  Label.campaign "A" 0 1 0 0 [("B", 0)] ++
  [⟨"A", .start (.propose [88])⟩] ++ Label.sections "A" 1 1 ++
  Label.campaign "B" 0 2 0 0 [("C", 0)] ++
  [⟨"B", .start .replicate⟩] ++ Label.sections "B" 1 5 ++
  [⟨"A", .serve ⟨"B", "A", 1, .appendRequest ⟨2, "B", 0, 0, [], 0⟩⟩ true⟩] ++
  Label.sections "A" 1 1 ++
  [⟨"B", .start (.propose [89])⟩] ++ Label.sections "B" 2 2

/-- `B` commits its entry with `C` and applies it; its next heartbeat tells `A` that index 1 is
committed, and `A`, whose entry there has the same term, applies its own. -/
def deposedApply : List Label :=
  deposedAppend ++ Label.sections "B" 2 7 ++
  Label.rpc "B" "C" 2 (.appendRequest ⟨2, "B", 0, 0, [⟨2, 1, [89]⟩], 0⟩)
    (.appendResponse ⟨2, "B", 0, 0, [⟨2, 1, [89]⟩], 0⟩ ⟨2, true⟩) ++ Label.sections "B" 2 3 ++
  [⟨"B", .start .apply⟩] ++ Label.sections "B" 3 2 ++
  [⟨"B", .start .replicate⟩] ++ Label.sections "B" 4 5 ++
  [⟨"A", .serve ⟨"B", "A", 4, .appendRequest ⟨2, "B", 0, 0, [⟨2, 1, [89]⟩], 1⟩⟩ true⟩] ++
  [⟨"A", .start .apply⟩] ++ Label.sections "A" 2 2

/-- `A` leads term 1, commits `[88]` with `B`, applies it, and tells `B`, which applies it too. -/
def committedByTwo : List Label :=
  Label.campaign "A" 0 1 0 0 [("B", 0)] ++
  [⟨"A", .start (.propose [88])⟩] ++ Label.sections "A" 1 9 ++
  Label.rpc "A" "B" 1 (.appendRequest ⟨1, "A", 0, 0, [⟨1, 1, [88]⟩], 0⟩)
    (.appendResponse ⟨1, "A", 0, 0, [⟨1, 1, [88]⟩], 0⟩ ⟨1, true⟩) ++ Label.sections "A" 1 3 ++
  [⟨"A", .start .apply⟩] ++ Label.sections "A" 2 2 ++
  [⟨"A", .start .replicate⟩] ++ Label.sections "A" 3 5 ++
  [⟨"B", .serve ⟨"A", "B", 3, .appendRequest ⟨1, "A", 1, 1, [], 1⟩⟩ true⟩] ++
  [⟨"B", .start .apply⟩] ++ Label.sections "B" 0 2

/-- `A` leads term 1 and `B` accepts its entry, but the response is delayed. `C` is elected in term
2 without them and overwrites the entry at `B`; `A` learns of term 2, is elected in term 3, and
only then records the delayed success. -/
def staleSuccess : List Label :=
  Label.campaign "A" 0 1 0 0 [("B", 0), ("C", 0)] ++
  [⟨"A", .start (.propose [88])⟩] ++ Label.sections "A" 1 11 ++
  [⟨"B", .serve ⟨"A", "B", 1, .appendRequest ⟨1, "A", 0, 0, [⟨1, 1, [88]⟩], 0⟩⟩ true⟩] ++
  Label.campaign "C" 0 2 0 0 [("D", 0), ("E", 0)] ++
  [⟨"A", .serve ⟨"C", "A", 0, .voteRequest ⟨2, "C", 0, 0⟩⟩ true⟩] ++
  [⟨"C", .start (.propose [89])⟩] ++ Label.sections "C" 1 11 ++
  [⟨"B", .serve ⟨"C", "B", 1, .appendRequest ⟨2, "C", 0, 0, [⟨2, 1, [89]⟩], 0⟩⟩ true⟩] ++
  Label.campaign "A" 2 3 1 1 [("D", 2), ("E", 2)] ++
  [⟨"A", .reply ⟨"A", "B", 1, .appendResponse ⟨1, "A", 0, 0, [⟨1, 1, [88]⟩], 0⟩ ⟨1, true⟩⟩ true⟩] ++
  Label.sections "A" 1 1

section Properties

variable {members : Members} {unmarshal : Bytes → Option MembershipCommand} {c : Cluster}

/-- No two nodes hand different commands to their state machines for one index. -/
theorem state_machine_safety
    (run : Reach (Cluster.step unmarshal members) (Sound unmarshal) (.initial members) c)
    {left right : Record} (leftSeen : left ∈ c.observed) (rightSeen : right ∈ c.observed)
    {leftEntry rightEntry : LogEntry} (leftHanded : left.observation = .handed leftEntry)
    (rightHanded : right.observation = .handed rightEntry)
    (index : leftEntry.index = rightEntry.index) : leftEntry.command = rightEntry.command := by
  obtain ⟨a, sim⟩ := Simulates.reach run
  have first := sim.observed left leftSeen
  have second := sim.observed right rightSeen
  rw [leftHanded] at first
  rw [rightHanded] at second
  have same : leftEntry = rightEntry := Settled.agree sim.good first second index
  rw [same]

/-- Two nodes that applied the first entry of a leader handed over one command. -/
theorem state_machine_safety_committed : ∃ c left right, ∃ leftEntry rightEntry : LogEntry,
    Reach (Cluster.step plainCommands threeNodes) (Sound plainCommands) (.initial threeNodes) c ∧
      left ∈ c.observed ∧ right ∈ c.observed ∧ left.node = "A" ∧ right.node = "B" ∧
      left.observation = .handed leftEntry ∧ right.observation = .handed rightEntry ∧
      leftEntry.index = 1 ∧ rightEntry.index = 1 ∧ leftEntry.command = rightEntry.command := by
  have passed : (Transition.exec (Cluster.step plainCommands threeNodes) (Sound plainCommands)
      (.initial threeNodes) committedByTwo).any (fun c =>
        decide (⟨"A", 2, .handed ⟨1, 1, [88]⟩⟩ ∈ c.observed ∧
          ⟨"B", 0, .handed ⟨1, 1, [88]⟩⟩ ∈ c.observed)) = true := by
    decide +kernel
  obtain ⟨c, run, test⟩ := Reach.of_exec_test passed
  have facts := of_decide_eq_true test
  exact ⟨c, _, _, _, _, run, facts.1, facts.2, rfl, rfl, rfl, rfl, rfl, rfl,
    state_machine_safety run facts.1 facts.2 rfl rfl rfl⟩

/-- A proposal whose node is deposed between its role check and its append makes two nodes hand
different commands to their state machines for index 1. -/
theorem deposed_append_diverges : ∃ c,
    Reach (Cluster.step plainCommands threeNodes) (Assumed plainCommands) (.initial threeNodes) c ∧
      ⟨"A", 2, .handed ⟨2, 1, [88]⟩⟩ ∈ c.observed ∧ ⟨"B", 3, .handed ⟨2, 1, [89]⟩⟩ ∈ c.observed := by
  have passed : (Transition.exec (Cluster.step plainCommands threeNodes) (Assumed plainCommands)
      (.initial threeNodes) deposedApply).any (fun c =>
        decide (⟨"A", 2, .handed ⟨2, 1, [88]⟩⟩ ∈ c.observed ∧
          ⟨"B", 3, .handed ⟨2, 1, [89]⟩⟩ ∈ c.observed)) = true := by
    decide +kernel
  obtain ⟨c, run, test⟩ := Reach.of_exec_test passed
  exact ⟨c, run, of_decide_eq_true test⟩

/-- A retained entry stands in the abstract log at its index. -/
theorem ServerOk.retained {id : NodeId} {sv : Server} {a : Protocol}
    (ok : ServerOk members id sv a) {entry : LogEntry} (listed : entry ∈ sv.node.log) :
    1 ≤ entry.index ∧ (a.log id)[entry.index - 1]? = some entry := by
  obtain ⟨position, found⟩ := List.mem_iff_getElem?.mp listed
  rw [ok.refines.log.retained, List.getElem?_drop] at found
  have index := ok.refines.log.indexed _ _ found
  have shifted : entry.index - 1 = sv.node.lastIncludedIndex + position := by omega
  rw [shifted]
  exact ⟨by omega, found⟩

/-- Two logs that hold an entry of the same index and term agree on it and on everything below
that both retain. -/
theorem log_matching
    (run : Reach (Cluster.step unmarshal members) (Sound unmarshal) (.initial members) c)
    {left right : NodeId} (leftMember : left ∈ members.ids) (rightMember : right ∈ members.ids)
    {leftEntry rightEntry : LogEntry} (atLeft : leftEntry ∈ (c.servers left).node.log)
    (atRight : rightEntry ∈ (c.servers right).node.log)
    (index : leftEntry.index = rightEntry.index) (term : leftEntry.term = rightEntry.term) :
    leftEntry.command = rightEntry.command ∧
      ∀ lower ∈ (c.servers left).node.log, ∀ other ∈ (c.servers right).node.log,
        lower.index = other.index → lower.index < leftEntry.index →
          lower.term = other.term ∧ lower.command = other.command := by
  obtain ⟨a, sim⟩ := Simulates.reach run
  have leftOk := sim.servers left leftMember
  have rightOk := sim.servers right rightMember
  obtain ⟨positive, foundLeft⟩ := leftOk.retained atLeft
  obtain ⟨-, foundRight⟩ := rightOk.retained atRight
  rw [← index] at foundRight
  have agree := (sim.good.inv.logRooted left).matching (sim.good.inv.logRooted right) foundLeft
    foundRight term
  have same : ∀ position, position < leftEntry.index →
      (a.log left)[position]? = (a.log right)[position]? := by
    intro position below
    have read := congrArg (fun log => log[position]?) agree
    simp only [List.getElem?_take_of_lt (by omega : position < leftEntry.index - 1 + 1)] at read
    exact read
  refine ⟨?_, fun lower lowerListed other otherListed sameIndex below => ?_⟩
  · have entries := same (leftEntry.index - 1) (by omega)
    rw [foundLeft, foundRight, Option.some.injEq] at entries
    rw [entries]
  · obtain ⟨-, lowerFound⟩ := leftOk.retained lowerListed
    obtain ⟨-, otherFound⟩ := rightOk.retained otherListed
    have entries := same (lower.index - 1) (by omega)
    rw [← sameIndex] at otherFound
    rw [lowerFound, otherFound, Option.some.injEq] at entries
    rw [entries]
    exact ⟨rfl, rfl⟩

/-- A leader and the follower that accepted its entry agree on it. -/
theorem log_matching_committed : ∃ c, ∃ leftEntry rightEntry : LogEntry,
    Reach (Cluster.step plainCommands threeNodes) (Sound plainCommands) (.initial threeNodes) c ∧
      leftEntry ∈ (c.servers "A").node.log ∧ rightEntry ∈ (c.servers "B").node.log ∧
      leftEntry.index = rightEntry.index ∧ leftEntry.term = rightEntry.term ∧
      leftEntry.command = rightEntry.command := by
  have passed : (Transition.exec (Cluster.step plainCommands threeNodes) (Sound plainCommands)
      (.initial threeNodes) committedByTwo).any (fun c =>
        decide (⟨1, 1, [88]⟩ ∈ (c.servers "A").node.log ∧
          ⟨1, 1, [88]⟩ ∈ (c.servers "B").node.log)) = true := by
    decide +kernel
  obtain ⟨c, run, test⟩ := Reach.of_exec_test passed
  have facts := of_decide_eq_true test
  exact ⟨c, _, _, run, facts.1, facts.2, rfl, rfl,
    (log_matching run (by decide) (by decide) facts.1 facts.2 rfl rfl).1⟩

/-- An append on a deposed leader gives two logs entries of one index and term that differ. -/
theorem deposed_append_mismatch : ∃ c,
    Reach (Cluster.step plainCommands threeNodes) (Assumed plainCommands) (.initial threeNodes) c ∧
      ⟨2, 1, [88]⟩ ∈ (c.servers "A").node.log ∧ ⟨2, 1, [89]⟩ ∈ (c.servers "B").node.log := by
  have passed : (Transition.exec (Cluster.step plainCommands threeNodes) (Assumed plainCommands)
      (.initial threeNodes) deposedAppend).any (fun c =>
        decide (⟨2, 1, [88]⟩ ∈ (c.servers "A").node.log ∧
          ⟨2, 1, [89]⟩ ∈ (c.servers "B").node.log)) = true := by
    decide +kernel
  obtain ⟨c, run, test⟩ := Reach.of_exec_test passed
  exact ⟨c, run, of_decide_eq_true test⟩

/-- What a leader's match index claims, the peer's whole log holds, unless the peer has moved to a
later term. -/
theorem leader_progress_truthful
    (run : Reach (Cluster.step unmarshal members) (Sound unmarshal) (.initial members) c)
    {id peer : NodeId} (leaderMember : id ∈ members.ids) (peerMember : peer ∈ members.ids)
    (leader : (c.servers id).node.state = .leader) {known : Nat}
    (claimed : ((c.servers id).node.matchIndex.bind fun progress => progress peer) = some known)
    (positive : 0 < known) :
    (c.servers id).node.currentTerm < (c.servers peer).node.currentTerm ∨
      ∀ index, 1 ≤ index → index ≤ known → ∃ entry,
        (c.servers id).full[index - 1]? = some entry ∧
          (c.servers peer).full[index - 1]? = some entry := by
  obtain ⟨a, sim⟩ := Simulates.reach run
  have leaderOk := sim.servers id leaderMember
  have peerOk := sim.servers peer peerMember
  have progress := leaderOk.refines.progress leader
  have listed : peer ∈ members.peers id := by
    by_contra outside
    have absent := (progress.stranger peer outside).2
    rw [claimed] at absent
    contradiction
  obtain ⟨-, found, -, atFound, -, -, within, acked⟩ := progress.peer peer listed
  obtain rfl : known = found := Option.some.inj (claimed.symm.trans atFound)
  have acknowledged := acked.resolve_left (by omega)
  rw [leaderOk.refines.term, peerOk.refines.term, leaderOk.full, peerOk.full]
  cases sim.good.inv.ackedHeld _ _ _ acknowledged with
  | inl held =>
    refine Or.inr fun index low high => ?_
    have inside : index - 1 < (a.log id).length := by omega
    have read : (a.log id)[index - 1]? = some (a.log id)[index - 1] := List.getElem?_eq_getElem inside
    have cut : ((a.log id).take known)[index - 1]? = some (a.log id)[index - 1] := by
      rw [List.getElem?_take_of_lt (by omega)]
      exact read
    exact ⟨_, read, held.getElem?_of_some cut⟩
  | inr lost =>
    obtain ⟨later, election, above, below, -, -⟩ := lost
    exact Or.inl (by omega)

/-- The index a leader recorded for a follower that accepted its entry is held there. -/
theorem leader_progress_truthful_committed : ∃ c,
    Reach (Cluster.step plainCommands threeNodes) (Sound plainCommands) (.initial threeNodes) c ∧
      (c.servers "A").node.state = .leader ∧
      ((c.servers "A").node.matchIndex.bind fun progress => progress "B") = some 1 ∧
      ((c.servers "A").node.currentTerm < (c.servers "B").node.currentTerm ∨
        ∀ index, 1 ≤ index → index ≤ 1 → ∃ entry,
          (c.servers "A").full[index - 1]? = some entry ∧
            (c.servers "B").full[index - 1]? = some entry) := by
  have passed : (Transition.exec (Cluster.step plainCommands threeNodes) (Sound plainCommands)
      (.initial threeNodes) committedByTwo).any (fun c =>
        decide ((c.servers "A").node.state = .leader ∧
          ((c.servers "A").node.matchIndex.bind fun progress => progress "B") = some 1)) = true := by
    decide +kernel
  obtain ⟨c, run, test⟩ := Reach.of_exec_test passed
  have facts := of_decide_eq_true test
  exact ⟨c, run, facts.1, facts.2,
    leader_progress_truthful run (by decide) (by decide) facts.1 facts.2 (by decide)⟩

/-- A success of an earlier leadership, recorded in a later one, claims an entry the peer no longer
holds, although the peer is in no later term. -/
theorem stale_success_claims : ∃ c,
    Reach (Cluster.step plainCommands fiveNodes) (Assumed plainCommands) (.initial fiveNodes) c ∧
      (c.servers "A").node.state = .leader ∧ (c.servers "A").node.currentTerm = 3 ∧
      ((c.servers "A").node.matchIndex.bind fun progress => progress "B") = some 1 ∧
      (c.servers "B").node.currentTerm = 2 ∧
      (c.servers "A").full = [⟨1, 1, [88]⟩] ∧ (c.servers "B").full = [⟨2, 1, [89]⟩] := by
  have passed : (Transition.exec (Cluster.step plainCommands fiveNodes) (Assumed plainCommands)
      (.initial fiveNodes) staleSuccess).any (fun c =>
        decide ((c.servers "A").node.state = .leader ∧ (c.servers "A").node.currentTerm = 3 ∧
          ((c.servers "A").node.matchIndex.bind fun progress => progress "B") = some 1 ∧
          (c.servers "B").node.currentTerm = 2 ∧
          (c.servers "A").full = [⟨1, 1, [88]⟩] ∧
          (c.servers "B").full = [⟨2, 1, [89]⟩])) = true := by
    decide +kernel
  obtain ⟨c, run, test⟩ := Reach.of_exec_test passed
  exact ⟨c, run, of_decide_eq_true test⟩

end Properties

end Raft

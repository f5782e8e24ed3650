import RvKeyValue.Cluster.Sequential

/-!
# Acknowledged proposals survive

In runs of one call at a time, an entry that a proposal returned is in the log of every node
elected later and of every node that commits its index. A quorum acknowledged a prefix with the
entry in some term. An election that starts later is won with the votes of a quorum, all given
during the election, so a voter of both quorums makes the new term no earlier; the new leader
was then elected with the prefix and acknowledges it itself.
-/

namespace Raft

open Transition (Reach)
open ReplicatedLog (Chosen)

section

variable {unmarshal : Bytes → Option MembershipCommand} {members : Members} {c c' : Cluster}
  {label : Label} {a a' : Protocol}

/-- A prefix chosen in a term when the observation at a position was made: running elections count
votes of its quorum only for later terms, and whoever was promoted since has acknowledged it. -/
structure Anchored (members : Members) (c : Cluster) (a : Protocol) (position term : Nat)
    (pre : List LogEntry) (quorum : Finset NodeId) : Prop where
  /-- The prefix is chosen. -/
  chosen : Chosen LogEntry.term members.quorums a term pre
  /-- The nodes are a quorum. -/
  isQuorum : members.quorums.IsQuorum quorum
  /-- They have seen the term. -/
  reached : ∀ voter ∈ quorum, term ≤ a.term voter
  /-- Their votes count only for later terms. -/
  counted : ∀ id ∈ members.ids, ∀ tag stage, (c.servers id).calls tag = some (.election stage) →
    Polled members id (fun _ => True) (fun req voter => voter ∈ quorum → term ≤ req.term) stage
  /-- So do their votes on the way. -/
  granted : ∀ packet ∈ c.net, ∀ stage,
    (c.servers packet.source).calls packet.tag = some (.election stage) → ∀ req resp,
    packet.body = .voteResponse req resp → resp.voteGranted = true → packet.target ∈ quorum →
    term ≤ req.term
  /-- Later leaders acknowledge the prefix. -/
  later : ∀ index record won, position < index → c.observed[index]? = some record →
    record.observation = .promoted won →
    record.node ∈ members.ids ∧ term ≤ won ∧ a.acked record.node won pre

/-- Elections count as before; a response is counted for what it stands for. -/
theorem polled_react {sv : Server} {id : NodeId} {event : Event} {reaction : Reaction}
    {granted : RequestVoteRequest → NodeId → Prop} (inside : id ∈ members.ids)
    (peers : sv.node.peers = members.peers id)
    (happens : Happens unmarshal (members.peers id) sv event reaction)
    (reacted : sv.react unmarshal (members.peers id) event = some reaction)
    (polled : ∀ tag stage, sv.calls tag = some (.election stage) →
      Polled members id (fun _ => True) granted stage)
    (said : ∀ packet save, event = .reply packet save → ∀ stage,
      sv.calls packet.tag = some (.election stage) → ∀ req resp,
      packet.body = .voteResponse req resp → resp.voteGranted = true → granted req packet.target)
    {tag : Nat} {stage : ElectionStage}
    (found : reaction.server.calls tag = some (.election stage)) :
    Polled members id (fun _ => True) granted stage := by
  have source := happens.running.2 tag _ found
  -- the election that took the section was one before
  have election : ∀ call, sv.calls tag = some call → (∀ kind, event ≠ .start kind) →
      ∃ stage, call = .election stage := by
    intro call running other
    cases source with
    | inl started =>
      obtain ⟨kind, event, -, -⟩ := started
      exact absurd event (other kind)
    | inr old =>
      obtain ⟨old, ran, kind⟩ := old
      obtain rfl : call = old := Option.some.inj (running.symm.trans ran)
      cases call with
      | election stage => exact ⟨stage, rfl⟩
      | _ => contradiction
  cases Server.react_cases reacted with
  | start kind =>
    cases Server.call_updated found with
    | inl here =>
      cases kind with
      | election =>
        obtain rfl : .starting = stage := by simpa [Start.call] using here.2
        trivial
      | _ => exact absurd here.2 (by simp [Start.call])
    | inr elsewhere => exact polled tag stage elsewhere.2
  | step own save applied call turn running turned =>
    cases Server.call_updated found with
    | inl here =>
      rw [here.1] at election
      obtain ⟨before, rfl⟩ := election call running (by simp)
      exact Polled.step (fun _ _ => inside) (fun _ => ⟨peers, trivial⟩) (polled own before running) turned
        here.2
    | inr elsewhere => exact polled tag stage elsewhere.2
  | reply message save call turn _ running turned =>
    cases Server.call_updated found with
    | inl here =>
      rw [here.1] at election
      obtain ⟨before, rfl⟩ := election call running (by simp)
      exact (polled _ before running).reply (said message save rfl before running) turned here.2
    | inr elsewhere => exact polled tag stage elsewhere.2
  | failure own peer call next running failed =>
    cases Server.call_updated found with
    | inl here =>
      rw [here.1] at election
      obtain ⟨before, rfl⟩ := election call running (by simp)
      obtain ⟨stage', same, counted⟩ := (polled own before running).failure failed
      obtain rfl : stage' = stage := by simpa [same] using here.2
      exact counted
    | inr elsewhere => exact polled tag stage elsewhere.2
  | cancel own call observed running cancelled =>
    cases Server.call_updated found with
    | inl here => exact absurd here.2 (by simp)
    | inr elsewhere => exact polled tag stage elsewhere.2
  | serve message save answer _ handled =>
    exact polled tag stage found
  | compact snapshot save =>
    exact polled tag stage found
  | crash =>
    contradiction

/-- A message a process sends grants a vote only for a term it had not passed. -/
theorem granted_react {sv : Server} {peers : List NodeId} {event : Event} {reaction : Reaction}
    (happens : Happens unmarshal peers sv event reaction) {packet : Packet}
    (listed : packet ∈ reaction.sent) {req : RequestVoteRequest} {resp : RequestVoteResponse}
    (body : packet.body = .voteResponse req resp) (yes : resp.voteGranted = true) :
    packet.target = sv.node.id ∧ sv.node.currentTerm ≤ req.term := by
  cases happens with
  | start kind => simp at listed
  | turn own running shape _ =>
    obtain ⟨message, sent, rfl⟩ := List.mem_map.mp listed
    exact absurd body (shape.asks message sent req resp)
  | append running room stepped =>
    obtain ⟨message, sent, rfl⟩ := List.mem_map.mp listed
    obtain rfl := Option.some.inj stepped
    split at sent
    · contradiction
    · contradiction
  | @handle asked save answer here handled =>
    obtain ⟨response, answered, rfl⟩ := List.mem_map.mp listed
    obtain rfl : response = .voteResponse req resp := body
    refine ⟨here, ?_⟩
    cases request : asked.body with
    | voteRequest vote =>
      rw [request] at handled
      obtain rfl := Option.some.inj handled
      split at answered
      · simp at answered
      · simp only [Option.toList_some, List.mem_singleton, Body.voteResponse.injEq] at answered
        obtain ⟨rfl, rfl⟩ := answered
        exact RaftNode.requestVote_term yes
    | preVoteRequest vote =>
      rw [request] at handled
      obtain rfl := Option.some.inj handled
      simp at answered
    | appendRequest append =>
      rw [request] at handled
      obtain rfl := Option.some.inj handled
      split at answered
      · simp at answered
      · simp at answered
    | _ => rw [request] at handled; contradiction
  | compact snapshot save => simp at listed
  | crash => simp at listed

/-- Only a section of an election promotes its node. -/
theorem promoted_react {sv : Server} {peers : List NodeId} {event : Event} {reaction : Reaction}
    (happens : Happens unmarshal peers sv event reaction) {tag won : Nat}
    (shown : (tag, .promoted won) ∈ reaction.observed) :
    sv.calls tag = some (.election (.winning won)) ∧ sv.node.currentTerm = won ∧
      reaction.server.node.currentTerm = won ∧ reaction.server.node.state = .leader := by
  cases happens with
  | start kind => simp at shown
  | turn own running shape _ =>
    obtain ⟨observation, made, same⟩ := List.mem_map.mp shown
    obtain ⟨rfl, rfl⟩ := Prod.mk.inj same
    obtain ⟨rfl, before, after, leads⟩ := shape.promoted won made
    exact ⟨running, before, after, leads⟩
  | append running room stepped =>
    obtain ⟨observation, made, same⟩ := List.mem_map.mp shown
    obtain rfl := Option.some.inj stepped
    obtain ⟨-, rfl⟩ := Prod.mk.inj same
    split at made
    · simp [Call.fail] at made
    · simp [Call.pursue] at made
  | handle here handled => simp at shown
  | compact snapshot save => simp at shown
  | crash => simp at shown

/-- A node that wins acknowledges the prefix: the quorum that voted for it has a member that saw the
prefix's term before. -/
theorem acked_of_won {term won : Nat} {pre : List LogEntry} {quorum : Finset NodeId} {id : NodeId}
    {sv sv' : Server} (good : Good members a')
    (chosen : Chosen LogEntry.term members.quorums a' term pre)
    (isQuorum : members.quorums.IsQuorum quorum) (reached : ∀ voter ∈ quorum, term ≤ a.term voter)
    (refines : Refines members id sv.node a) (refines' : Refines members id sv'.node a')
    (polled : Polled members id (fun _ => True) (fun req voter => voter ∈ quorum → term ≤ req.term)
      (.winning won))
    (before : sv.node.currentTerm = won) (after : sv'.node.currentTerm = won)
    (leads : sv'.node.state = .leader) : term ≤ won ∧ a'.acked id won pre := by
  obtain ⟨req, rfl, -, voters, ballots, enough⟩ := polled
  obtain ⟨voter, counted, member⟩ := members.quorums.meet _ _ (ballots.quorum enough) isQuorum
  have newer : term ≤ req.term := by
    by_cases own : voter = id
    · have seen := reached voter member
      rw [own, ← refines.term, before] at seen
      exact seen
    · exact ballots.votes voter (List.mem_toFinset.mp counted) own member
  obtain ⟨election, elected, self, acked⟩ := refines'.leads leads
  have now : a'.term id = req.term := refines'.term.symm.trans after
  rw [now] at elected acked
  have written := chosen.prefix_leaderLog good.inv newer elected
  rw [← good.inv.leaderHolds _ _ elected (by rw [self]; exact now), self] at written
  exact ⟨newer, good.inv.ackedShorter _ _ _ _ acked written⟩

/-- What runs and what is true in a run of one call at a time. -/
structure SequentialOk (members : Members) (c : Cluster) (a : Protocol) : Prop where
  /-- The abstract protocol explains the state. -/
  sim : Simulates members c a
  /-- Proposals wait for entries of their logs. -/
  awaited : AwaitedCluster members c
  /-- One call runs. -/
  orderly : Orderly members c

/-- One step: all of it is kept. -/
theorem SequentialOk.step (ok : SequentialOk members c a)
    (allowed : Sequential unmarshal members c label)
    (stepped : c.step unmarshal members label = some c') :
    ∃ a', SequentialOk members c' a' ∧ a.Grows a' := by
  have inside := (Cluster.step_some stepped).1
  obtain ⟨a', sim, grows⟩ := ok.sim.step (ok.orderly.sound inside allowed) stepped
  have apart : ∀ packet ∈ c.net, packet.source ∈ members.ids ∧ packet.source ≠ packet.target := by
    intro packet listed
    have known := ok.sim.net packet listed
    have other := (members.mem_peers _ known.source _).mp known.target
    exact ⟨known.source, fun same => other.2 same.symm⟩
  obtain ⟨orderly, kept⟩ := ok.orderly.step ok.awaited.steady
    (fun id member => (ok.sim.servers id member).refines.own) apart allowed stepped
  exact ⟨a', ⟨sim, ok.awaited.step ⟨allowed.2.2.1, kept⟩ stepped, orderly⟩, grows⟩

/-- A step keeps a prefix anchored. -/
theorem Anchored.step {position term : Nat} {pre : List LogEntry} {quorum : Finset NodeId}
    (anchored : Anchored members c a position term pre quorum) (ok : SequentialOk members c a)
    (sim : Simulates members c' a') (grows : a.Grows a')
    (allowed : Sequential unmarshal members c label)
    (stepped : c.step unmarshal members label = some c') :
    Anchored members c' a' position term pre quorum := by
  have inside := (Cluster.step_some stepped).1
  obtain ⟨-, net, reaction, taken, reacted, rfl, happens, -⟩ :=
    ok.awaited.steady.step allowed.2.2.1 stepped
  obtain ⟨present, rest⟩ := Cluster.take_some taken
  have refines := (ok.sim.servers _ inside).refines
  have refines' := (sim.servers _ inside).refines
  rw [c.absorb_own] at refines'
  have chosen := anchored.chosen.grow grows
  -- an election that runs after the step and has sent messages ran before it
  have ran : ∀ packet ∈ c.net, ∀ stage,
      ((c.absorb label.node net reaction).servers packet.source).calls packet.tag =
        some (.election stage) →
      ∃ before, (c.servers packet.source).calls packet.tag = some (.election before) := by
    intro packet listed stage found
    by_cases here : packet.source = label.node
    · rw [here, c.absorb_own] at found
      cases happens.running.2 _ _ found with
      | inl started =>
        obtain ⟨kind, -, atTag, -⟩ := started
        have low := ok.orderly.tags packet listed
        rw [here, atTag] at low
        exact absurd low (lt_irrefl _)
      | inr old =>
        obtain ⟨old, before, kind⟩ := old
        cases old with
        | election stage => exact ⟨stage, by rw [here, before]⟩
        | _ => contradiction
    · rw [c.absorb_other net reaction here] at found
      exact ⟨stage, found⟩
  refine ⟨chosen, anchored.isQuorum, fun voter member => ?_, fun id member tag stage found => ?_,
    fun packet listed stage found req resp body yes member => ?_,
    fun index record won after found promoted => ?_⟩
  · exact le_trans (anchored.reached voter member) (grows.term voter)
  · by_cases here : id = label.node
    · subst here
      rw [c.absorb_own] at found
      refine polled_react inside refines.peers happens reacted (anchored.counted _ inside)
        (fun packet save event before running req resp body yes member => ?_) found
      have listed := present packet (by rw [event]; rfl)
      have source : packet.source = label.node := by
        rw [event] at reacted
        simp only [Server.react] at reacted
        split at reacted
        · rename_i own
          exact own.trans refines.own
        · contradiction
      exact anchored.granted packet listed before (by rw [source]; exact running) req resp body yes
        member
    · rw [c.absorb_other net reaction here] at found
      exact anchored.counted id member tag stage found
  · cases List.mem_append.mp listed with
    | inl old =>
      obtain ⟨before, running⟩ := ran packet (rest packet old) stage found
      exact anchored.granted packet (rest packet old) before running req resp body yes member
    | inr new =>
      obtain ⟨target, current⟩ := granted_react happens new body yes
      rw [target, refines.own] at member
      have seen := anchored.reached _ member
      rw [← refines.term] at seen
      exact le_trans seen current
  · cases Cluster.absorb_observed found with
    | inl old =>
      have known := anchored.later index record won after old promoted
      exact ⟨known.1, known.2.1, grows.acked _ _ _ known.2.2⟩
    | inr new =>
      obtain ⟨-, node, made⟩ := new
      rw [promoted] at made
      obtain ⟨running, before, now, leads⟩ := promoted_react happens made
      rw [node]
      exact ⟨inside, acked_of_won sim.good chosen anchored.isQuorum anchored.reached refines refines'
        (anchored.counted _ inside _ _ running) before now leads⟩

/-- An entry a proposal has just returned is in a prefix that is anchored from then on. -/
theorem Anchored.of_returned (ok : SequentialOk members c a) (sim : Simulates members c' a')
    (allowed : Sequential unmarshal members c label)
    (stepped : c.step unmarshal members label = some c') {position : Nat} {record : Record}
    {entry : LogEntry} (new : c.observed.length ≤ position)
    (found : c'.observed[position]? = some record) (returned : record.observation = .returned entry) :
    0 < entry.index ∧ ∃ term pre quorum, Anchored members c' a' position term pre quorum ∧
      pre[entry.index - 1]? = some entry := by
  have inside := (Cluster.step_some stepped).1
  have shown : record ∈ c'.observed.drop c.observed.length := by
    refine List.mem_of_getElem? (i := position - c.observed.length) ?_
    rw [List.getElem?_drop, Nat.add_sub_cancel' new]
    exact found
  obtain ⟨held, committed⟩ := ok.awaited.returned allowed.2.2.1 stepped shown returned
  obtain ⟨-, net, reaction, -, -, rfl, happens, outcome⟩ :=
    ok.awaited.steady.step allowed.2.2.1 stepped
  obtain ⟨-, node, made⟩ := (Cluster.absorb_observed found).resolve_left fun old => by
    have bound := (List.getElem?_eq_some_iff.mp old).1
    omega
  rw [returned] at made
  rw [node] at held committed
  obtain ⟨⟨call, running, -⟩, -, after, alone⟩ := outcome.returned _ entry made
  have positive := held.1
  have server := sim.servers _ inside
  have atLog : (a'.log label.node)[entry.index - 1]? = some entry := by
    rw [← server.full]
    exact held.2
  obtain ⟨-, term, pre, chosen, atPre⟩ := server.refines.settled atLog (by omega)
  obtain ⟨acks, isQuorum, acked⟩ := chosen.2.2.2
  -- the proposal was the only call, and it has returned
  have idle : ∀ id ∈ members.ids, ∀ position,
      ((c.absorb label.node net reaction).servers id).calls position = none := by
    intro id member position
    by_cases here : id = label.node
    · rw [here, c.absorb_own, after]
      show Function.update (c.servers label.node).calls record.tag none position = none
      by_cases same : position = record.tag
      · rw [same, Function.update_self]
      · rw [Function.update_of_ne same]
        cases other : (c.servers label.node).calls position with
        | none => rfl
        | some call' =>
          exact absurd (ok.orderly.single _ inside _ inside _ _ _ _ other running).2 same
    · rw [c.absorb_other net reaction here]
      cases other : (c.servers id).calls position with
      | none => rfl
      | some call' =>
        exact absurd (ok.orderly.single _ member _ inside _ _ _ _ other running).1 here
  refine ⟨positive, term, pre, acks, ⟨chosen, isQuorum, fun voter member => ?_,
    fun id member tag stage found => ?_, fun packet listed stage found => ?_,
    fun index record won later found => ?_⟩, atPre⟩
  · exact sim.good.inv.ackedTerm _ _ _ (acked voter member)
  · rw [idle id member] at found
    contradiction
  · rw [idle _ (sim.net packet listed).source] at found
    contradiction
  · have bound := (List.getElem?_eq_some_iff.mp found).1
    have length : (c.absorb label.node net reaction).observed.length = c.observed.length + 1 := by
      show (c.observed ++ _).length = _
      rw [alone]
      simp
    omega

/-- Every returned entry is in a prefix anchored at its return. -/
def Acknowledged (members : Members) (c : Cluster) (a : Protocol) : Prop :=
  ∀ position record entry, c.observed[position]? = some record →
    record.observation = .returned entry → 0 < entry.index ∧ ∃ term pre quorum,
      Anchored members c a position term pre quorum ∧ pre[entry.index - 1]? = some entry

/-- Every run of one call at a time. -/
theorem Acknowledged.reach
    (run : Reach (Cluster.step unmarshal members) (Sequential unmarshal members) (.initial members) c) :
    ∃ a, SequentialOk members c a ∧ Acknowledged members c a := by
  refine run.invariant (P := fun c => ∃ a, SequentialOk members c a ∧ Acknowledged members c a) ?_
    fun c c' label known allowed stepped => ?_
  · refine ⟨ReplicatedLog.State.initial, ⟨.initial members, ⟨.initial members, ?_⟩, ?_⟩, ?_⟩
    · exact fun id _ tag call entry running => by contradiction
    · exact ⟨by simp [Cluster.initial], by simp [Cluster.initial], by simp [Cluster.initial]⟩
    · exact fun position record entry found => by simp [Cluster.initial] at found
  · obtain ⟨a, ok, acknowledged⟩ := known
    obtain ⟨a', ok', grows⟩ := ok.step allowed stepped
    refine ⟨a', ok', fun position record entry found returned => ?_⟩
    by_cases old : position < c.observed.length
    · obtain ⟨net, reaction, -, -, rfl⟩ := (Cluster.step_some stepped).2
      have earlier : c.observed[position]? = some record :=
        (Cluster.absorb_observed found).resolve_right fun new => by omega
      obtain ⟨positive, term, pre, quorum, anchored, atPre⟩ :=
        acknowledged position record entry earlier returned
      exact ⟨positive, term, pre, quorum, anchored.step ok ok'.sim grows allowed stepped, atPre⟩
    · exact Anchored.of_returned ok ok'.sim allowed stepped (Nat.le_of_not_lt old) found returned

/-- Once a proposal has returned an entry, every node elected afterwards holds it, and so does every
node whose commit index reaches it. -/
theorem acknowledged_survives
    (run : Reach (Cluster.step unmarshal members) (Sequential unmarshal members) (.initial members) c)
    {position : Nat} {record : Record} {entry : LogEntry}
    (found : c.observed[position]? = some record) (returned : record.observation = .returned entry) :
    (∀ index leader won, position < index → c.observed[index]? = some leader →
      leader.observation = .promoted won → (c.servers leader.node).Holds entry) ∧
    ∀ id ∈ members.ids, entry.index ≤ (c.servers id).node.commitIndex →
      (c.servers id).Holds entry := by
  obtain ⟨a, ok, acknowledged⟩ := Acknowledged.reach run
  obtain ⟨positive, term, pre, quorum, anchored, atPre⟩ :=
    acknowledged position record entry found returned
  have inv := ok.sim.good.inv
  refine ⟨fun index leader won after seen promoted => ⟨positive, ?_⟩,
    fun id member committed => ⟨positive, ?_⟩⟩
  · obtain ⟨member, newer, acked⟩ := anchored.later index leader won after seen promoted
    rw [(ok.sim.servers _ member).full]
    cases inv.ackedHeld _ _ _ acked with
    | inl held => exact held.getElem?_of_some atPre
    | inr lost =>
      -- no later leader was elected without a chosen prefix
      obtain ⟨middle, election, above, -, elected, absent⟩ := lost
      exact absurd (anchored.chosen.leader_completeness inv (by omega) elected) absent
  · have server := ok.sim.servers id member
    rw [server.full]
    have inside : entry.index - 1 < (a.log id).length := by
      have bound := server.refines.commitLe
      omega
    obtain ⟨other, atLog⟩ : ∃ other, (a.log id)[entry.index - 1]? = some other :=
      ⟨_, List.getElem?_eq_getElem inside⟩
    have settled := server.refines.settled atLog (by omega)
    have index := server.refines.log.indexed _ _ atLog
    have same : entry = other := Settled.agree ok.sim.good
      ⟨positive, term, pre, anchored.chosen, atPre⟩ settled (by omega)
    rw [atLog, same]

end

/-- `A` leads term 1 and commits `[88]` with `B`; then `B` is elected in term 2 with the vote of `C`,
which has not heard of the entry. -/
def reelected : List Label :=
  Label.campaign "A" 0 1 0 0 [("B", 0)] ++
  [⟨"A", .start (.propose [88])⟩] ++ Label.sections "A" 1 9 ++
  Label.rpc "A" "B" 1 (.appendRequest ⟨1, "A", 0, 0, [⟨1, 1, [88]⟩], 0⟩)
    (.appendResponse ⟨1, "A", 0, 0, [⟨1, 1, [88]⟩], 0⟩ ⟨1, true⟩) ++ Label.sections "A" 1 3 ++
  Label.campaign "B" 0 2 1 1 [("C", 0)]

/-- The entry of the first leader survives in the second one's log. -/
theorem acknowledged_survives_reelected : ∃ (c : Cluster) (position index : Nat)
    (record leader : Record),
    Reach (Cluster.step plainCommands threeNodes) (Sequential plainCommands threeNodes)
      (.initial threeNodes) c ∧
      c.observed[position]? = some record ∧ record.observation = .returned ⟨1, 1, [88]⟩ ∧
      position < index ∧ c.observed[index]? = some leader ∧ leader.observation = .promoted 2 ∧
      leader.node = "B" ∧ (c.servers leader.node).Holds ⟨1, 1, [88]⟩ := by
  have passed : (Transition.exec (Cluster.step plainCommands threeNodes)
      (Sequential plainCommands threeNodes) (.initial threeNodes) reelected).any (fun c =>
        decide (c.observed[1]? = some ⟨"A", 1, .returned ⟨1, 1, [88]⟩⟩ ∧
          c.observed[2]? = some ⟨"B", 0, .promoted 2⟩)) = true := by
    decide +kernel
  obtain ⟨c, run, test⟩ := Reach.of_exec_test passed
  obtain ⟨returned, promoted⟩ := of_decide_eq_true test
  exact ⟨c, 1, 2, _, _, run, returned, rfl, by decide, promoted, rfl, rfl,
    (acknowledged_survives run returned rfl).1 2 _ 2 (by decide) promoted rfl⟩

end Raft

import RvKeyValue.Cluster.Office
import RvKeyValue.Program.Steps

/-!
# Elections of the program

Only the timer starts elections, and it starts the next when the last has returned. So a node runs one
election at a time, which is what the safety of elections needs; and a leader runs none, so it does not
depose itself.
-/

open Raft (Bytes NodeId Members Label Event Server Cluster Reaction ElectionStage Call Enrolled Credible
  FairElections)
open Store (Json)
open Transition (Reach)

namespace Raft

variable {unmarshal : Bytes → Option MembershipCommand} {peers : List NodeId} {sv : Server}
  {event : Event} {reaction : Reaction}

/-- A process that leads after a step led before it, or an election has won and returned. -/
theorem Server.react_leads (reacted : sv.react unmarshal peers event = some reaction)
    (leads : reaction.server.node.state = .leader) :
    sv.node.state = .leader ∨ ∃ tag term, sv.calls tag = some (.election (.winning term)) ∧
      reaction.server.calls tag = none := by
  rcases Server.react_moves reacted with ⟨-, node⟩ | ⟨-, node | ⟨op, runs, node⟩⟩
  · rw [node, newRaftNode_state] at leads
    contradiction
  · rw [node] at leads
    exact Or.inl leads
  · rw [node] at leads
    obtain ⟨-, led | ⟨-, rfl⟩⟩ := RaftNode.perform_leads (Server.operation_ne_becomeLeader runs) leads
    · exact Or.inl led
    · obtain ⟨tag, save, applied, rfl, running⟩ := Server.operation_promoteCandidate runs
      refine Or.inr ⟨tag, _, running, ?_⟩
      simp only [Server.react, running, Option.bind_some, Call.step, Call.electionStep, Option.map_some,
        Option.some.injEq] at reacted
      rw [← reacted]
      exact Function.update_self ..

end Raft

namespace Program

/-- The timer of a node and the elections of its process. -/
structure Paced (timer : TimerStage) (sv : Server) : Prop where
  /-- An election that runs is the one the timer waits for. -/
  waits : ∀ tag stage, sv.calls tag = some (.election stage) → timer = .electing tag
  /-- A leader is not about to start an election. -/
  starts : timer = .starting → sv.node.state ≠ .leader
  /-- A leader runs no election. -/
  free : sv.node.state = .leader → ∀ tag stage, sv.calls tag ≠ some (.election stage)

namespace Paced

variable {json : Json} {members : Members} {p p' : Program} {action : Action} {timer timer' : TimerStage}
  {sv : Server} {unmarshal : Bytes → Option Raft.MembershipCommand} {peers : List NodeId} {event : Event}
  {reaction : Reaction}

/-- No election runs while the timer does something else. -/
theorem none (paced : Paced timer sv) (other : ∀ tag, timer ≠ .electing tag) (tag : Nat)
    (stage : ElectionStage) : sv.calls tag ≠ some (.election stage) :=
  fun running => other tag (paced.waits tag stage running)

/-- Where no election runs, only the start of one matters. -/
theorem idle (free : ∀ tag stage, sv.calls tag ≠ some (.election stage))
    (follows : timer = .starting → sv.node.state ≠ .leader) : Paced timer sv where
  waits tag stage running := absurd running (free tag stage)
  starts := follows
  free _ := free

/-- The timer moves while it waits for no election. -/
theorem turn (paced : Paced timer sv) (other : ∀ tag, timer ≠ .electing tag)
    (follows : timer' = .starting → sv.node.state ≠ .leader) : Paced timer' sv :=
  idle (paced.none other) follows

/-- The timer starts an election. -/
theorem elect (paced : Paced .starting sv)
    (reacted : sv.react unmarshal peers (.start .election) = some reaction) :
    Paced (.electing sv.nextTag) reaction.server := by
  obtain rfl := Option.some.inj reacted
  have follows := paced.starts rfl
  refine ⟨fun tag stage running => ?_, by simp, fun leads => absurd leads follows⟩
  rcases Server.call_updated running with ⟨here, -⟩ | ⟨-, before⟩
  · rw [here]
  · exact absurd before (paced.none (by simp) tag stage)

/-- The process does something else, and the timer waits on for its election. -/
theorem react (paced : Paced timer sv) (other : event ≠ .start .election)
    (reacted : sv.react unmarshal peers event = some reaction) : Paced timer reaction.server := by
  have ran : ∀ tag stage, reaction.server.calls tag = some (.election stage) →
      ∃ before, sv.calls tag = some (.election before) := by
    intro tag stage running
    cases Server.react_election reacted running with
    | kept ran => exact ⟨_, ran⟩
    | started starts => exact absurd starts other
    | stepped _ ran => exact ⟨_, ran⟩
    | replied _ _ ran => exact ⟨_, ran⟩
    | failed _ ran => exact ⟨_, ran⟩
  refine ⟨fun tag stage running => ?_, fun starting leads => ?_, fun leads tag stage running => ?_⟩
  · obtain ⟨before, was⟩ := ran tag stage running
    exact paced.waits tag before was
  · rcases Server.react_leads reacted leads with led | ⟨tag, term, won, -⟩
    · exact paced.starts starting led
    · exact paced.none (by simp [starting]) tag _ won
  · obtain ⟨before, was⟩ := ran tag stage running
    rcases Server.react_leads reacted leads with led | ⟨winner, term, won, ended⟩
    · exact paced.free led tag before was
    · -- the election that has won is the one that runs, and it has returned
      have same := (paced.waits winner _ won).symm.trans (paced.waits tag before was)
      rw [TimerStage.electing.inj same, running] at ended
      contradiction

/-- A step keeps that at every node. -/
theorem atNode {id : NodeId} (paced : Paced (p.loops id).timer (p.server id))
    (at_ : AtNode json members p p' id) : Paced (p'.loops id).timer (p'.server id) := by
  cases at_ with
  | rests server timer =>
    rw [server, timer]
    exact paced
  | turns server timer turns =>
    rw [server, timer]
    cases turns with
    | arm arming least => exact paced.turn (by simp [arming]) (by simp)
    | reset waiting => exact paced.turn (by simp [waiting]) (by simp)
    | fire waiting due => exact paced.turn (by simp [waiting]) (by simp)
    | leads fired => exact paced.turn (by simp [fired]) (by simp)
    | follows fired role => exact paced.turn (by simp [fired]) fun _ => role
    | halt waiting => exact paced.turn (by simp [waiting]) (by simp)
  | elects starting timer reacted server =>
    rw [starting] at paced
    rw [server, timer]
    exact paced.elect reacted
  | @reacts event reaction other reacted server timer =>
    have next := paced.react other reacted
    rw [server]
    rcases timer with same | ⟨ended, moved⟩
    · rw [same]
      exact next
    · have free : ∀ tag stage, reaction.server.calls tag ≠ some (.election stage) := by
        intro tag stage running
        rcases ended with rfl | ⟨waited, timer, gone⟩
        · obtain rfl := Option.some.inj reacted
          contradiction
        · -- it would be the one the timer waited for
          have same := timer.symm.trans (next.waits tag stage running)
          rw [TimerStage.electing.inj same, running] at gone
          contradiction
      rcases moved with timer | timer
      · exact idle free (by simp [timer])
      · exact idle free (by simp [timer])

end Paced

section

variable {json : Json} {members : Members} {p p' : Program} {action : Action}

/-- The elections of every node are paced. -/
def AllPaced (p : Program) : Prop := ∀ id, Paced (p.loops id).timer (p.server id)

/-- At the start nothing runs. -/
theorem AllPaced.initial (members : Members) : (initial members).AllPaced :=
  fun _ => .idle (by intro _ _ running; contradiction) (by intro starting; contradiction)

/-- A step keeps the elections paced. -/
theorem AllPaced.step (paced : p.AllPaced) (stepped : p.step json members action = some p') :
    p'.AllPaced :=
  fun id => (paced id).atNode ((step_does stepped).atNode id)

/-- An election starts only when no other runs on the node. -/
theorem AllPaced.oneElection (paced : p.AllPaced) (stepped : p.step json members action = some p')
    {label : Label} (own : p.label json action = some label) :
    p.service.traced.cluster.oneElection label = true := by
  unfold Cluster.oneElection
  split
  · rename_i starts
    -- only the timer starts one, when it waits for none
    have starting : (p.loops label.node).timer = .starting := by
      cases step_does stepped with
      | serves free moved => exact absurd starts (drives_election free own)
      | elects starting moved =>
        obtain rfl := Option.some.inj own
        exact starting
      | beats starting moved =>
        obtain rfl := Option.some.inj own
        cases starts
      | resets turns => contradiction
      | turns silent turns =>
        rw [silent] at own
        contradiction
      | moves silent timer =>
        rw [silent] at own
        contradiction
      | elapses duration => contradiction
    have free := (paced label.node).none (by simp [starting])
    unfold Server.runs
    rw [Bool.not_eq_true', List.any_eq_false]
    intro tag _
    cases running : (p.service.traced.cluster.servers label.node).calls tag with
    | none => simp
    | some call =>
      cases call with
      | election stage => exact absurd running (free tag stage)
      | _ => simp [Call.isElection]
  · rfl

/-- A run of the program in which no counter wraps. -/
abbrev Runs (json : Json) (members : Members) (p : Program) : Prop :=
  Reach (step json members) (fun p => p.under json fun c label => c.nothingWraps label = true)
    (initial members) p

/-- No counter wraps, and a node runs one election at a time. -/
def Driven (c : Cluster) (label : Label) : Prop :=
  c.nothingWraps label = true ∧ c.oneElection label = true

/-- The service of a program that is reached is reached, with one election at a time. -/
theorem Runs.service (run : Runs json members p) : p.AllPaced ∧
    Reach (Service.step json members) (fun s => s.under json fun t label => Driven t.cluster label)
      (.initial members) p.service := by
  refine run.simulate Program.service (AllPaced.initial members) ?_
  intro before after action paced meets stepped
  have alone : before.under json Driven action :=
    fun label own => ⟨meets label own, paced.oneElection stepped own⟩
  exact ⟨paced.step stepped, (step_does stepped).shows alone⟩

/-- So the cluster is reached, and its elections are fair. -/
theorem Runs.cluster (run : Runs json members p) :
    Reach (Cluster.step json.unmarshalMembership members) (FairElections json.unmarshalMembership)
      (.initial members) p.service.traced.cluster := by
  have fits : ∀ c label, Driven c label → c.nothingWraps label = true := fun _ _ driven => driven.1
  refine (Service.cluster_reached_fixed fits run.service.2).weaken ?_
  rintro c label ⟨⟨fits, one⟩, fixed⟩
  exact ⟨fixed, (Bool.and_eq_true_iff.mp fits).1, one⟩

/-- In every run of the program in which no counter wraps, whatever is lost, whichever saves fail and
whoever crashes, at most one node is promoted in a term and at most one leads it. -/
theorem one_leader (run : Runs json members p) :
    (∀ left ∈ p.service.traced.cluster.observed, ∀ right ∈ p.service.traced.cluster.observed,
      ∀ term, left.observation = .promoted term → right.observation = .promoted term →
        left.node = right.node) ∧
      ∀ left ∈ members.ids, ∀ right ∈ members.ids,
        (p.server left).node.state = .leader → (p.server right).node.state = .leader →
          (p.server left).node.currentTerm = (p.server right).node.currentTerm → left = right := by
  obtain ⟨enrolled, -, -, -, votes, hinted⟩ := Credible.reach run.cluster
  have unique : ∀ left ∈ p.service.traced.cluster.observed,
      ∀ right ∈ p.service.traced.cluster.observed, ∀ term, left.observation = .promoted term →
        right.observation = .promoted term → left.node = right.node :=
    fun left leftSeen right rightSeen term leftPromoted rightPromoted =>
      hinted.fair.agree leftSeen rightSeen leftPromoted rightPromoted
        fun leftPeers rightPeers leftAsked rightAsked => members.close leftAsked rightAsked
  refine ⟨unique, fun left leftInside right rightInside leftLeads rightLeads same => ?_⟩
  obtain ⟨⟨first, firstSeen, firstNode, firstPromoted⟩, -⟩ := (hinted.hinted left leftInside).role leftLeads
  obtain ⟨⟨second, secondSeen, secondNode, secondPromoted⟩, -⟩ :=
    (hinted.hinted right rightInside).role rightLeads
  rw [show (p.service.traced.cluster.servers right).node.currentTerm = _ from same.symm] at secondPromoted
  have agree := unique first firstSeen second secondSeen _ firstPromoted secondPromoted
  rw [firstNode, secondNode] at agree
  have leftOwn := (enrolled left).own
  have rightOwn := (enrolled right).own
  exact (leftOwn.symm.trans agree).trans rightOwn

/-- A leader is spared: it does not crash, and no request of a later term and no response with one is
handed to it. -/
def Spares (json : Json) (id : NodeId) (term : Nat) (p : Program) (action : Action) : Prop :=
  ∀ label, p.label json action = some label → label.node = id → label.event ≠ .crash ∧
    ∀ packet, label.event.packet = some packet → ∀ later, packet.body.term = some later → later ≤ term

/-- A step that spares a leader leaves it the leader of its term. -/
theorem office_kept {id : NodeId} (run : Runs json members p)
    (stepped : p.step json members action = some p') (leads : (p.server id).node.state = .leader)
    (spared : Spares json id (p.server id).node.currentTerm p action) :
    (p'.server id).node.state = .leader ∧
      (p'.server id).node.currentTerm = (p.server id).node.currentTerm := by
  obtain ⟨paced, service⟩ := run.service
  rcases (step_does stepped).cluster with same | ⟨label, own, moved⟩
  · have server : p'.server id = p.server id := congrFun (congrArg Cluster.servers same) id
    rw [server]
    exact ⟨leads, rfl⟩
  -- no command of a client changes the membership
  have fixed : p.service.traced.cluster.membershipFixed json.unmarshalMembership label = true := by
    obtain ⟨-, sourced⟩ := Cluster.Sourced.reach (Q := Store.Plain json)
      ((Service.cluster_reached service).weaken fun _ _ ⟨⟨fits, _⟩, plain⟩ => ⟨fits, plain⟩)
    exact Service.membershipFixed_of_plain sourced label
  rcases (Credible.reach run.cluster).office_kept fixed moved leads with kept | ⟨here, why⟩
  · exact kept
  obtain ⟨running, early⟩ := spared label own here
  rcases why with crash | ⟨tag, save, applied, -, won⟩ | ⟨packet, term, takes, shown, later⟩
  · exact absurd crash running
  · exact absurd won ((paced id).free leads tag _)
  · have bound := early packet takes term shown
    exact absurd later (Nat.not_lt.mpr bound)

/-- In every run of the program a leader leads on in its term, however its timer fires and whoever
else campaigns, until it crashes or is handed a request of a later term or a response with one. -/
theorem leader_keeps_office {id : NodeId} (run : Runs json members p)
    (leads : (p.server id).node.state = .leader)
    (later : Reach (step json members) (fun q action =>
      q.under json (fun c label => c.nothingWraps label = true) action ∧
        Spares json id (p.server id).node.currentTerm q action) p p') :
    (p'.server id).node.state = .leader ∧
      (p'.server id).node.currentTerm = (p.server id).node.currentTerm := by
  refine (later.invariant (P := fun q => Runs json members q ∧ (q.server id).node.state = .leader ∧
    (q.server id).node.currentTerm = (p.server id).node.currentTerm) ⟨run, leads, rfl⟩ ?_).2
  rintro before after action ⟨reached, leading, term⟩ ⟨meets, spared⟩ stepped
  rw [← term] at spared
  obtain ⟨still, kept⟩ := office_kept reached stepped leading spared
  exact ⟨.next reached meets stepped, still, kept.trans term⟩

end

/-- `A` leads term 1 and `B` leads term 2, each elected by its timer. -/
theorem one_leader_two_terms : ∃ p : Program, Runs Store.wire Raft.threeNodes p ∧
    (p.server "A").node.state = .leader ∧ (p.server "A").node.currentTerm = 1 ∧
    (p.server "B").node.state = .leader ∧ (p.server "B").node.currentTerm = 2 ∧
    ∀ other ∈ Raft.threeNodes.ids, (p.server other).node.state = .leader →
      (p.server "A").node.currentTerm = (p.server other).node.currentTerm → "A" = other := by
  have passed : (Transition.exec (step Store.wire Raft.threeNodes)
      (fun p => p.under Store.wire fun c label => c.nothingWraps label = true) (initial Raft.threeNodes)
      (timedCampaign "A" 0 1 [("B", 0)] ++ timedCampaign "B" 0 2 [("C", 0)])).any (fun p =>
        decide ((p.server "A").node.state = .leader ∧ (p.server "A").node.currentTerm = 1 ∧
          (p.server "B").node.state = .leader ∧ (p.server "B").node.currentTerm = 2)) = true := by
    decide +kernel
  obtain ⟨p, run, test⟩ := Reach.of_exec_test passed
  obtain ⟨leads, first, rival, second⟩ := of_decide_eq_true test
  refine ⟨p, run, leads, first, rival, second, fun other inside leadsOther same => ?_⟩
  exact (one_leader run).2 "A" (by decide) other inside leads leadsOther same

/-- The timers of the leader `A` and of `B` fire; `B` asks `A` for a pre-vote, and `A` starts a round of
heartbeats. -/
def challenged : List Action :=
  [.timer "A" (.arm 0), .timer "B" (.arm 7), .elapse maxElectionTimeout, .timer "A" .fire,
    .timer "A" .look, .timer "B" .fire, .timer "B" .look, .timer "B" .start] ++
  ofLabels (Label.sections "B" 0 3 ++
    [⟨"A", .serve ⟨"B", "A", 0, .preVoteRequest ⟨1, "B", 0, 0⟩⟩ true⟩]) ++
  [.heartbeat "A" .tick, .heartbeat "A" .look, .heartbeat "A" .start] ++
  ofLabels (Label.sections "A" 1 5)

instance (json : Json) (id : NodeId) (term : Nat) (p : Program) (action : Action) :
    Decidable (Spares json id term p action) :=
  inferInstanceAs (Decidable (∀ label ∈ p.label json action, label.node = id → label.event ≠ .crash ∧
    ∀ packet ∈ label.event.packet, ∀ later ∈ packet.body.term, later ≤ term))

/-- `A` leads on while its own timer fires, while `B` campaigns, and while it sends heartbeats. -/
theorem leader_keeps_office_challenged : ∃ p p' : Program, Runs Store.wire Raft.threeNodes p ∧
    (p.server "A").node.state = .leader ∧
    Reach (step Store.wire Raft.threeNodes) (fun q action =>
      q.under Store.wire (fun c label => c.nothingWraps label = true) action ∧
        Spares Store.wire "A" (p.server "A").node.currentTerm q action) p p' ∧
    (p'.loops "A").timer = .arming ∧ (p'.loops "B").timer = .electing 0 ∧
    (p'.server "A").node.state = .leader ∧
      (p'.server "A").node.currentTerm = (p.server "A").node.currentTerm := by
  have passed : (Transition.exec (step Store.wire Raft.threeNodes)
      (fun p => p.under Store.wire fun c label => c.nothingWraps label = true) (initial Raft.threeNodes)
      (timedCampaign "A" 0 1 [("C", 0)])).any (fun p =>
        decide ((p.server "A").node.state = .leader) &&
          (Transition.exec (step Store.wire Raft.threeNodes) (fun q action =>
            q.under Store.wire (fun c label => c.nothingWraps label = true) action ∧
              Spares Store.wire "A" (p.server "A").node.currentTerm q action) p
            challenged).any fun p' =>
              decide ((p'.loops "A").timer = .arming ∧ (p'.loops "B").timer = .electing 0)) = true := by
    decide +kernel
  obtain ⟨p, run, test⟩ := Reach.of_exec_test passed
  obtain ⟨leads, continued⟩ := Bool.and_eq_true_iff.mp test
  obtain ⟨p', later, ends⟩ := Reach.of_exec_test continued
  obtain ⟨own, rival⟩ := of_decide_eq_true ends
  have led := of_decide_eq_true leads
  exact ⟨p, p', run, led, later, own, rival, leader_keeps_office run led later⟩

end Program

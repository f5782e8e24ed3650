import RvKeyValue.Program.Loops
import RvKeyValue.Service.FixedMembership

/-!
# What a step of the program can do

The cases are listed once: a step of the service that the loops hear of, a call that a loop starts, or
a move of a loop alone. Whatever the step, it shows a step of the cluster or nothing.
-/

open Raft (Bytes NodeId Members Label Event Server Cluster)
open Store (Json)
open Transition (Reach Shows)

namespace Program

/-- The moves of a timer that start no call, with the stage they lead to. -/
inductive Turns (p : Program) (node : NodeId) : TimerMove → TimerStage → Prop
  /-- A timer is set, for no less than the shortest timeout. -/
  | arm {drawn timeout : Nat} (arming : (p.loops node).timer = .arming)
      (least : minElectionTimeout ≤ timeout) : Turns p node (.arm drawn) (.waiting (p.now + timeout))
  /-- The timer is reset. -/
  | reset {deadline : Nat} (waiting : (p.loops node).timer = .waiting deadline) :
      Turns p node .reset .arming
  /-- It fires when its time has come. -/
  | fire {deadline : Nat} (waiting : (p.loops node).timer = .waiting deadline)
      (due : deadline ≤ p.now) : Turns p node .fire .fired
  /-- A leader waits again. -/
  | leads (fired : (p.loops node).timer = .fired) : Turns p node .look .arming
  /-- Another node is about to start an election. -/
  | follows (fired : (p.loops node).timer = .fired) (role : (p.server node).node.state ≠ .leader) :
      Turns p node .look .starting
  /-- The context is done. -/
  | halt {deadline : Nat} (waiting : (p.loops node).timer = .waiting deadline) :
      Turns p node .halt .stopped

/-- What a step does. -/
inductive Does (json : Json) (members : Members) (p : Program) : Action → Program → Prop
  /-- The service goes on, and the loops of a node hear of it. -/
  | serves {action : Service.Action} {service : Service} (free : drives action = false)
      (stepped : p.service.step json members action = some service) :
      Does json members p (.serve action)
        (({ p with service }).hear p.service (p.service.label json action))
  /-- A timer starts an election. -/
  | elects {node : NodeId} {service : Service} (starting : (p.loops node).timer = .starting)
      (stepped : p.service.step json members (.raft ⟨node, .start .election⟩) = some service) :
      Does json members p (.timer node .start)
        ((({ p with service }).set node
          { p.loops node with timer := .electing (p.server node).nextTag }).note node .election)
  /-- A heartbeat loop starts a round. -/
  | beats {node : NodeId} {service : Service} (starting : (p.loops node).heartbeat = .starting)
      (stepped : p.service.step json members (.raft ⟨node, .start .replicate⟩) = some service) :
      Does json members p (.heartbeat node .start)
        (({ p with service }).set node
          { p.loops node with heartbeat := .replicating (p.server node).nextTag })
  /-- A timer is reset. -/
  | resets {node : NodeId} (turns : Turns p node .reset .arming) :
      Does json members p (.timer node .reset)
        ((p.set node { p.loops node with timer := .arming, reset := false }).note node .reset)
  /-- A timer moves otherwise. -/
  | turns {node : NodeId} {move : TimerMove} {stage : TimerStage}
      (silent : p.label json (.timer node move) = none) (turns : Turns p node move stage) :
      Does json members p (.timer node move) (p.set node { p.loops node with timer := stage })
  /-- A heartbeat loop moves, or a handler fills the channel. -/
  | moves {action : Action} {node : NodeId} {loops : Loops} (silent : p.label json action = none)
      (timer : loops.timer = (p.loops node).timer) :
      Does json members p action (p.set node loops)
  /-- Time passes. -/
  | elapses (duration : Nat) :
      Does json members p (.elapse duration) { p with now := p.now + duration }

section

variable {json : Json} {members : Members} {p p' : Program} {action : Action}

/-- A timeout that is drawn is no less than the shortest. -/
theorem randomElectionTimeout_least {drawn timeout : Nat}
    (random : randomElectionTimeout drawn = some timeout) : minElectionTimeout ≤ timeout := by
  unfold randomElectionTimeout at random
  split at random
  · have timed := Option.some.inj random
    omega
  · contradiction

/-- `RunElectionTimer` does nothing else. -/
theorem runElectionTimer_does {node : NodeId} {move : TimerMove}
    (moved : p.runElectionTimer json members node move = some p') :
    Does json members p (.timer node move) p' := by
  -- a move is made at its stage only
  cases move
  all_goals
    simp only [runElectionTimer] at moved
    split at moved
    rotate_left
    · contradiction
  · rename_i drawn arming
    obtain ⟨timeout, random, rfl⟩ := Option.map_eq_some_iff.mp moved
    exact .turns rfl (.arm arming (randomElectionTimeout_least random))
  · rename_i deadline waiting
    split at moved
    · obtain rfl := Option.some.inj moved
      exact .resets (.reset waiting)
    · contradiction
  · rename_i deadline waiting
    split at moved
    · rename_i due
      obtain rfl := Option.some.inj moved
      exact .turns rfl (.fire waiting due)
    · contradiction
  · rename_i fired
    obtain rfl := Option.some.inj moved
    refine .turns rfl ?_
    split
    · exact .leads fired
    · rename_i role
      exact .follows fired role
  · rename_i starting
    obtain ⟨service, stepped, rfl⟩ := Option.map_eq_some_iff.mp moved
    exact .elects starting stepped
  · rename_i deadline waiting
    obtain rfl := Option.some.inj moved
    exact .turns rfl (.halt waiting)

/-- `RunHeartbeatLoop` does nothing else. -/
theorem runHeartbeatLoop_does {node : NodeId} {move : HeartbeatMove}
    (moved : p.runHeartbeatLoop json members node move = some p') :
    Does json members p (.heartbeat node move) p' := by
  cases move with
  | start =>
    simp only [runHeartbeatLoop] at moved
    split at moved
    · rename_i starting
      obtain ⟨service, stepped, rfl⟩ := Option.map_eq_some_iff.mp moved
      exact .beats starting stepped
    · contradiction
  | _ =>
    simp only [runHeartbeatLoop] at moved
    split at moved
    · obtain rfl := Option.some.inj moved
      exact .moves rfl rfl
    · contradiction

/-- Nothing else is done. -/
theorem step_does (stepped : p.step json members action = some p') : Does json members p action p' := by
  cases action with
  | serve action =>
    simp only [step] at stepped
    split at stepped
    · contradiction
    · rename_i free
      obtain ⟨service, moved, rfl⟩ := Option.map_eq_some_iff.mp stepped
      exact .serves (by simpa using free) moved
  | elapse duration =>
    obtain rfl := Option.some.inj stepped
    exact .elapses duration
  | timer node move => exact runElectionTimer_does stepped
  | heartbeat node move => exact runHeartbeatLoop_does stepped
  | notify node =>
    simp only [step] at stepped
    split at stepped
    · obtain rfl := Option.some.inj stepped
      exact .moves rfl rfl
    · contradiction

/-- The step of the cluster that an action makes meets a condition. -/
def under (json : Json) (allowed : Cluster → Label → Prop) (p : Program) (action : Action) : Prop :=
  ∀ label, p.label json action = some label → allowed p.service.traced.cluster label

instance (json : Json) (allowed : Cluster → Label → Prop) [∀ c label, Decidable (allowed c label)]
    (p : Program) (action : Action) : Decidable (p.under json allowed action) :=
  inferInstanceAs (Decidable (∀ label ∈ p.label json action, allowed p.service.traced.cluster label))

/-- A step of the service at a node: it is not the one that moves, or it reacts. -/
theorem service_at {service : Service} {taken : Service.Action} {label : Label}
    (stepped : p.service.step json members taken = some service)
    (own : p.service.label json taken = some label) (id : NodeId) :
    id ≠ label.node ∧ service.server id = p.server id ∨ id = label.node ∧ ∃ reaction,
      (p.server id).react json.unmarshalMembership (members.peers id) label.event = some reaction ∧
        service.server id = reaction.server := by
  obtain ⟨moved, advanced, same, -⟩ := (Service.step_does stepped).moves.moved label own
  obtain ⟨-, -, -, -, -, -, reaction, reacted, servers⟩ := Service.advance_some advanced
  replace servers : service.server = Function.update p.service.server label.node reaction.server := by
    rw [← servers]
    unfold Service.server
    rw [same]
  rw [servers]
  by_cases here : id = label.node
  · subst here
    exact Or.inr ⟨rfl, reaction, reacted, Function.update_self ..⟩
  · exact Or.inl ⟨here, Function.update_of_ne here ..⟩

/-- What a step is to the service: a step of it with the same step of the cluster, or nothing. -/
theorem Does.service (does : Does json members p action p') :
    p'.service = p.service ∧ p.label json action = none ∨
      ∃ taken, p.service.step json members taken = some p'.service ∧
        p.service.label json taken = p.label json action := by
  cases does with
  | @serves taken service free stepped =>
    refine Or.inr ⟨taken, ?_, rfl⟩
    rw [stepped]
    unfold hear
    split <;> rfl
  | elects starting stepped => exact Or.inr ⟨_, stepped, rfl⟩
  | beats starting stepped => exact Or.inr ⟨_, stepped, rfl⟩
  | resets turns => exact Or.inl ⟨rfl, rfl⟩
  | turns silent turns => exact Or.inl ⟨rfl, silent⟩
  | moves silent timer => exact Or.inl ⟨rfl, silent⟩
  | elapses duration => exact Or.inl ⟨rfl, rfl⟩

/-- What a step shows of the service. -/
theorem Does.shows {allowed : Cluster → Label → Prop} (does : Does json members p action p')
    (meets : p.under json allowed action) :
    Shows (Service.step json members) (fun s => s.under json fun t label => allowed t.cluster label)
      p.service p'.service := by
  rcases does.service with ⟨same, -⟩ | ⟨taken, stepped, own⟩
  · exact Or.inl same
  · refine Or.inr ⟨taken, ?_, stepped⟩
    show p.service.under json (fun t label => allowed t.cluster label) taken
    unfold Service.under
    rw [own]
    split
    · rename_i label found
      exact meets label found
    · trivial

/-- What a step is to the cluster: the step that it is labelled with, or nothing. -/
theorem Does.cluster (does : Does json members p action p') :
    p'.service.traced.cluster = p.service.traced.cluster ∨
      ∃ label, p.label json action = some label ∧
        p.service.traced.cluster.step json.unmarshalMembership members label =
          some p'.service.traced.cluster := by
  rcases does.service with ⟨same, -⟩ | ⟨taken, stepped, own⟩
  · exact Or.inl (by rw [same])
  · obtain ⟨still, moved⟩ := Service.step_cluster stepped
    rw [own] at still moved
    cases made : p.label json action with
    | none => exact Or.inl (still made)
    | some label => exact Or.inr ⟨label, rfl, moved label made⟩

/-- What a step does to the process of a node and to its timer. -/
inductive AtNode (json : Json) (members : Members) (p p' : Program) (id : NodeId) : Prop
  /-- Nothing. -/
  | rests (server : p'.server id = p.server id) (timer : (p'.loops id).timer = (p.loops id).timer)
  /-- The timer moves. -/
  | turns {move : TimerMove} {stage : TimerStage} (server : p'.server id = p.server id)
      (timer : (p'.loops id).timer = stage) (turns : Turns p id move stage)
  /-- The timer starts an election. -/
  | elects {reaction : Raft.Reaction} (starting : (p.loops id).timer = .starting)
      (timer : (p'.loops id).timer = .electing (p.server id).nextTag)
      (reacted : (p.server id).react json.unmarshalMembership (members.peers id) (.start .election) =
        some reaction)
      (server : p'.server id = reaction.server)
  /-- The process does something else; the timer goes on where the election has returned or the
  process was started again. -/
  | reacts {event : Event} {reaction : Raft.Reaction} (other : event ≠ .start .election)
      (reacted : (p.server id).react json.unmarshalMembership (members.peers id) event = some reaction)
      (server : p'.server id = reaction.server)
      (timer : (p'.loops id).timer = (p.loops id).timer ∨
        (event = .crash ∨ ∃ tag, (p.loops id).timer = .electing tag ∧ reaction.server.calls tag = none) ∧
          ((p'.loops id).timer = .arming ∨ (p'.loops id).timer = .stopped))

/-- What a timer hears. -/
theorem Loops.hear_timer (loops : Loops) (before after : Server) (event : Event) :
    (loops.hear before after event).timer = loops.timer ∨
      (event = .crash ∨ ∃ tag, loops.timer = .electing tag ∧ after.calls tag = none) ∧
        ((loops.hear before after event).timer = .arming ∨
          (loops.hear before after event).timer = .stopped) := by
  unfold hear
  split
  · rename_i crash
    exact Or.inr ⟨Or.inl crash, Or.inl rfl⟩
  · dsimp only
    unfold timerAfter
    split
    · rename_i tag timer
      by_cases runs : (after.calls tag).isSome = true
      · rw [if_pos runs]
        exact Or.inl timer.symm
      · rw [if_neg runs]
        refine Or.inr ⟨Or.inr ⟨tag, timer, by simpa using runs⟩, ?_⟩
        split
        · exact Or.inr rfl
        · exact Or.inl rfl
    · exact Or.inl rfl

/-- A node whose loops are set. -/
theorem set_loops (p : Program) (node id : NodeId) (loops : Loops) :
    (p.set node loops).loops id = if id = node then loops else p.loops id := by
  unfold set
  by_cases here : id = node
  · rw [if_pos here, here]
    exact Function.update_self ..
  · rw [if_neg here]
    exact Function.update_of_ne here ..

/-- An action of the service that does not belong to the loops starts no election. -/
theorem drives_election {taken : Service.Action} {label : Label} (free : drives taken = false)
    (own : p.service.label json taken = some label) : label.event ≠ .start .election := by
  intro starts
  obtain ⟨node, event⟩ := label
  obtain rfl : event = .start .election := starts
  cases taken with
  | raft label =>
    obtain rfl := Option.some.inj own
    contradiction
  | handle id =>
    obtain ⟨h, -, made⟩ := Option.bind_eq_some_iff.mp own
    split at made
    · obtain ⟨encoded, -, same⟩ := Option.map_eq_some_iff.mp made
      cases same
    · cases made
    · contradiction
  | loop node save =>
    simp only [Service.label] at own
    split at own
    · cases own
    · cases own
    · contradiction
  | receive node request => contradiction
  | abandon id => contradiction

/-- Every step is one of these at each node. -/
theorem Does.atNode (does : Does json members p action p') (id : NodeId) :
    AtNode json members p p' id := by
  cases does with
  | @serves taken service free stepped =>
    cases own : p.service.label json taken with
    | none =>
      have still := ((Service.step_does stepped).moves.still own).1
      refine .rests ?_ rfl
      show service.traced.cluster.servers id = _
      rw [still]
      rfl
    | some label =>
      rcases service_at stepped own id with ⟨away, server⟩ | ⟨rfl, reaction, reacted, server⟩
      · exact .rests server (by simp only [hear, set_loops, if_neg away])
      · refine .reacts (drives_election free own) reacted server ?_
        rw [← server]
        simp only [hear, set_loops, if_true]
        exact Loops.hear_timer ..
  | @elects node service starting stepped =>
    rcases service_at stepped rfl id with ⟨away, server⟩ | ⟨rfl, reaction, reacted, server⟩
    · exact .rests server (by simp only [note, set_loops, if_neg away])
    · exact .elects starting (by simp only [note, set_loops, if_true]) reacted server
  | @beats node service starting stepped =>
    rcases service_at stepped rfl id with ⟨away, server⟩ | ⟨rfl, reaction, reacted, server⟩
    · exact .rests server (by simp only [set_loops, if_neg away])
    · exact .reacts (by simp) reacted server (Or.inl (by simp only [set_loops, if_true]))
  | @resets node turns =>
    by_cases here : id = node
    · subst here
      exact .turns rfl (by simp [note, set_loops]) turns
    · exact .rests rfl (by simp [note, set_loops, here])
  | @turns node move stage silent turns =>
    by_cases here : id = node
    · subst here
      exact .turns rfl (by simp [set_loops]) turns
    · exact .rests rfl (by simp [set_loops, here])
  | @moves action node loops silent timer =>
    refine .rests rfl ?_
    by_cases here : id = node
    · subst here
      simp [set_loops, timer]
    · simp [set_loops, here]
  | elapses duration => exact .rests rfl rfl

end

end Program

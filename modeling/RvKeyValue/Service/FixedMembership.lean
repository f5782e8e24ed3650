import RvKeyValue.Base.Simulation
import RvKeyValue.Cluster.Enrolled
import RvKeyValue.Cluster.Provenance
import RvKeyValue.Service.Steps

/-!
# The membership of the service

`cmd/node/main.go` mounts the client API under `/kv/` only, so the handlers of `/cluster/members` are
not reached and nobody proposes a membership change. Every command in a log is one that `EncodeCommand`
made, and none of those is read as a membership change. So the members of a running service are those
it was started with.
-/

open Raft (Bytes NodeId LogEntry Members Label Event Server Traced Cluster MembershipCommand
  decodeMembershipChange Proposes Enrolled)
open Store (Json Plain encodeCommand)
open Transition (Reach Shows)

namespace Service

section

variable {json : Json} {members : Members} {s s' : Service} {action : Action} {label : Label}

/-- Handlers propose commands that are not read as a membership change, and nobody else proposes. -/
theorem proposes_plain (stepped : s.step json members action = some s')
    (own : s.label json action = some label) : ∀ command ∈ label.event.proposed, Plain json command := by
  intro command proposed
  cases action with
  | raft found =>
    obtain rfl := Option.some.inj own
    simp only [step] at stepped
    split at stepped
    · rename_i quiet
      -- a proposal is not in the background
      unfold Event.proposed at proposed
      split at proposed
      · rename_i same
        rw [same] at quiet
        contradiction
      · contradiction
    · contradiction
  | receive node request => contradiction
  | handle id =>
    obtain ⟨h, -, made⟩ := Option.bind_eq_some_iff.mp own
    split at made
    · obtain ⟨encoded, ok, rfl⟩ := Option.map_eq_some_iff.mp made
      obtain rfl := Option.some.inj proposed
      cases result : encodeCommand json h.request.command with
      | error err =>
        rw [result] at ok
        contradiction
      | ok bytes =>
        rw [result] at ok
        obtain rfl := Option.some.inj ok
        exact Store.encodeCommand_plain result
    · obtain rfl := Option.some.inj made
      contradiction
    · contradiction
  | abandon id => contradiction
  | loop node save =>
    simp only [Service.label] at own
    split at own
    · obtain rfl := Option.some.inj own
      contradiction
    · obtain rfl := Option.some.inj own
      contradiction
    · contradiction

/-- What an action is to the cluster: the step that it is labelled with, or nothing. -/
theorem step_cluster (stepped : s.step json members action = some s') :
    (s.label json action = none → s'.traced.cluster = s.traced.cluster) ∧
      ∀ label, s.label json action = some label →
        s.traced.cluster.step json.unmarshalMembership members label = some s'.traced.cluster := by
  have moves := (step_does stepped).moves
  refine ⟨fun own => by rw [(moves.still own).1], fun label own => ?_⟩
  obtain ⟨moved, advanced, same, -⟩ := moves.moved label own
  obtain ⟨-, -, -, -, traced, -⟩ := advance_some advanced
  obtain ⟨c, taken, made⟩ := Option.map_eq_some_iff.mp traced
  rw [same, ← made]
  exact taken

/-- What it shows of the cluster. -/
theorem step_shows {allowed : Cluster → Label → Prop} (stepped : s.step json members action = some s')
    (meets : s.under json (fun t label => allowed t.cluster label) action) :
    Shows (Cluster.step json.unmarshalMembership members)
      (fun c label => allowed c label ∧ ∀ command ∈ label.event.proposed, Plain json command)
      s.traced.cluster s'.traced.cluster := by
  obtain ⟨still, moved⟩ := step_cluster stepped
  cases own : s.label json action with
  | none => exact Or.inl (still own)
  | some label =>
    unfold under at meets
    rw [own] at meets
    exact Or.inr ⟨label, ⟨meets, proposes_plain stepped own⟩, moved label own⟩

/-- The cluster of a service that is reached is reached, and plain commands only are proposed. -/
theorem cluster_reached {allowed : Cluster → Label → Prop}
    (run : Reach (step json members) (fun s => s.under json fun t label => allowed t.cluster label)
      (initial members) s) :
    Reach (Cluster.step json.unmarshalMembership members)
      (fun c label => allowed c label ∧ ∀ command ∈ label.event.proposed, Plain json command)
      (.initial members) s.traced.cluster :=
  (run.simulate (fun s => s.traced.cluster) (P := fun _ => True) trivial
    fun _ _ _ _ meets stepped => ⟨trivial, step_shows stepped meets⟩).2

/-- A cluster in which every command is plain applies no membership change. -/
theorem membershipFixed_of_plain {c : Cluster} (sourced : c.Sourced (Plain json)) (label : Label) :
    c.membershipFixed json.unmarshalMembership label = true := by
  unfold Cluster.membershipFixed
  split
  · rename_i entry found
    have plain : Plain json entry.command := by
      unfold Cluster.stepped at found
      split at found
      · exact sourced.calls label.node _ _ found _ rfl
      · contradiction
    rw [plain]
  · rfl

/-- The cluster of a service that is reached without a wrap is reached without a membership change. -/
theorem cluster_reached_fixed {allowed : Cluster → Label → Prop}
    (fits : ∀ c label, allowed c label → c.nothingWraps label = true)
    (run : Reach (step json members) (fun s => s.under json fun t label => allowed t.cluster label)
      (initial members) s) :
    Reach (Cluster.step json.unmarshalMembership members)
      (fun c label => allowed c label ∧ c.membershipFixed json.unmarshalMembership label = true)
      (.initial members) s.traced.cluster := by
  refine ((cluster_reached run).strengthen
    (P := fun c => Raft.SteadyCluster members c ∧ c.Sourced (Plain json))
    ⟨.initial members, .initial members⟩ ?_ ?_).2
  · rintro before after label ⟨steady, sourced⟩ ⟨meets, plain⟩ stepped
    have proposes : Proposes (Plain json) before label := ⟨fits before label meets, plain⟩
    exact ⟨(steady.step proposes.1 stepped).1, sourced.step steady proposes stepped⟩
  · rintro before label ⟨-, sourced⟩ ⟨meets, -⟩
    exact ⟨meets, membershipFixed_of_plain sourced label⟩

/-- The members of the service stay those it was started with: in every run in which terms and indices
fit their words, whichever saves fail and whoever crashes, each node has the peers of its command line,
counts itself a member, and has no membership change in its log. -/
theorem members_stay (run : Reach (step json members)
      (fun s => s.under json fun t label => t.cluster.nothingWraps label = true) (initial members) s)
    (id : NodeId) :
    (s.server id).node.peers = members.peers id ∧ (s.server id).node.selfMember = true ∧
      ∀ entry ∈ (s.server id).full,
        decodeMembershipChange json.unmarshalMembership entry.command = none := by
  have reached := cluster_reached_fixed (fun _ _ fits => fits) run
  have enrolled := Enrolled.reach (reached.weaken fun _ _ allowed => allowed.2) id
  obtain ⟨-, sourced⟩ := Cluster.Sourced.reach (Q := Plain json) (cluster_reached run)
  exact ⟨enrolled.peers, enrolled.belongs, (sourced.servers id).full⟩

end

/-- `A` is elected and appends the command of a client; `B` crashes after its vote. -/
def writtenOnce : List Action :=
  ofLabels (Label.campaign "A" 0 1 0 0 [("B", 0)]) ++
  [.receive "A" (.write (.put [97] [49])), .handle 0] ++
  ofLabels (Label.sections "A" 1 2 ++ [⟨"B", .crash⟩])

/-- The log of `A` has an entry, and it is no membership change. -/
theorem members_stay_written : ∃ s : Service,
    Reach (step Store.wire Raft.threeNodes)
      (fun s => s.under Store.wire fun t label => t.cluster.nothingWraps label = true)
      (initial Raft.threeNodes) s ∧ (s.server "A").full.length = 1 ∧
      (s.server "A").node.peers = Raft.threeNodes.peers "A" ∧ (s.server "A").node.selfMember = true ∧
      ∀ entry ∈ (s.server "A").full,
        decodeMembershipChange Store.wire.unmarshalMembership entry.command = none := by
  have passed : (Transition.exec (step Store.wire Raft.threeNodes)
      (fun s => s.under Store.wire fun t label => t.cluster.nothingWraps label = true)
      (initial Raft.threeNodes) writtenOnce).any (fun s =>
        decide ((s.server "A").full.length = 1)) = true := by
    decide +kernel
  obtain ⟨s, run, test⟩ := Reach.of_exec_test passed
  exact ⟨s, run, of_decide_eq_true test, members_stay run "A"⟩

end Service

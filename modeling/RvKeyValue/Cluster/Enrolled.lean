import RvKeyValue.Cluster.ElectionSafety
import RvKeyValue.Cluster.Rules
import RvKeyValue.Cluster.Watched
import RvKeyValue.Node.Coherence

/-!
# Processes with fixed members

While no membership change is applied, a process has the id and the peers it was started with, and it
counts itself a member, in memory and on disk, whichever saves fail and however often it restarts.
-/

namespace Raft

open Transition (Reach)

section

variable {unmarshal : Bytes → Option MembershipCommand} {sv : Server} {peers : List NodeId}
  {event : Event} {reaction : Reaction}

/-- The calls of a process are numbered below the next number. -/
def Server.Numbered (sv : Server) : Prop :=
  ∀ tag call, sv.calls tag = some call → tag < sv.nextTag

/-- They stay so. -/
theorem Server.Numbered.react (numbered : sv.Numbered)
    (reacted : sv.react unmarshal peers event = some reaction) : reaction.server.Numbered := by
  intro tag call running
  obtain ⟨grows, ⟨before, ran, -⟩ | ⟨kind, rfl, here, -⟩⟩ := Server.react_ran reacted running
  · exact (numbered tag before ran).trans_le grows
  · obtain rfl := Option.some.inj reacted
    show tag < sv.nextTag + 1
    omega

/-- What every run with fixed members keeps of a process. -/
structure Enrolled (members : Members) (id : NodeId) (sv : Server) : Prop where
  /-- The id. -/
  own : sv.node.id = id
  /-- The peers. -/
  peers : sv.node.peers = members.peers id
  /-- The node counts itself a member. -/
  belongs : sv.node.selfMember = true
  /-- So it is on disk, as far as it is stored. -/
  stored : ∀ state, sv.node.store = some state →
    (∀ list, state.peers = some list → list = members.peers id) ∧ state.selfMember.getD true = true
  /-- Role and progress maps agree. -/
  coherent : sv.node.Coherent
  /-- The numbers of the calls. -/
  numbered : sv.Numbered

/-- A step of the process keeps it. -/
theorem Enrolled.react {members : Members} {id : NodeId} (enrolled : Enrolled members id sv)
    (fixed : sv.reconfigures unmarshal event = false)
    (reacted : sv.react unmarshal (members.peers id) event = some reaction) :
    Enrolled members id reaction.server := by
  obtain ⟨listed, belongs⟩ : reaction.server.node.peers = members.peers id ∧
      reaction.server.node.selfMember = true := by
    rcases Server.react_moves reacted with ⟨-, node⟩ | ⟨going, -⟩
    · rw [node]
      cases store : sv.node.store with
      | none => exact ⟨rfl, rfl⟩
      | some state =>
        obtain ⟨listed, belongs⟩ := enrolled.stored state store
        refine ⟨?_, belongs⟩
        show state.peers.getD (members.peers id) = members.peers id
        cases found : state.peers with
        | none => rfl
        | some list => exact listed list found
    · obtain ⟨listed, belongs, -⟩ := Server.react_membership fixed going reacted
      exact ⟨listed.trans enrolled.peers, belongs.trans enrolled.belongs⟩
  have coherent : reaction.server.node.Coherent := by
    rcases Server.react_moves reacted with ⟨-, node⟩ | ⟨-, node | ⟨op, -, node⟩⟩
    · rw [node]
      exact RaftNode.newRaftNode_coherent ..
    · rw [node]
      exact enrolled.coherent
    · rw [node]
      exact (RaftNode.perform_orderly enrolled.coherent event.save op).coherent
  refine ⟨(Server.react_id reacted).trans enrolled.own, listed, belongs, fun state found => ?_, coherent,
    enrolled.numbered.react reacted⟩
  rcases Server.react_store reacted with kept | ⟨-, saved⟩
  · exact enrolled.stored state (kept.symm.trans found)
  · rw [saved] at found
    obtain rfl := Option.some.inj found
    refine ⟨fun list same => ?_, belongs⟩
    simp only [RaftNode.persistentState, clonePeers] at same
    split at same
    · contradiction
    · rw [← Option.some.inj same]
      exact listed

variable {members : Members}

/-- A step that applies no membership change reconfigures nobody. -/
theorem Cluster.reconfigures_of_fixed {c : Cluster} {label : Label}
    (fixed : c.membershipFixed unmarshal label = true) :
    (c.servers label.node).reconfigures unmarshal label.event = false := by
  unfold Cluster.membershipFixed Cluster.stepped at fixed
  unfold Server.reconfigures
  cases event : label.event with
  | step tag save applied =>
    rw [event] at fixed
    dsimp only at fixed ⊢
    repeat' split
    all_goals simp_all
  | _ => rfl

/-- A step of the cluster keeps what every run keeps of its processes. -/
theorem Enrolled.step {c c' : Cluster} {label : Label}
    (enrolled : ∀ id, Enrolled members id (c.servers id))
    (fixed : c.membershipFixed unmarshal label = true)
    (stepped : c.step unmarshal members label = some c') (id : NodeId) :
    Enrolled members id (c'.servers id) :=
  Cluster.step_keeps_servers enrolled stepped
    (fun _ _ reacted => (enrolled label.node).react (Cluster.reconfigures_of_fixed fixed) reacted) id

/-- A process that was just started. -/
theorem Enrolled.initial (members : Members) (id : NodeId) :
    Enrolled members id ((Cluster.initial members).servers id) := by
  refine ⟨rfl, rfl, rfl, fun state store => ?_,
    RaftNode.newRaftNode_coherent id (members.peers id) (some {}),
    fun tag call running => by contradiction⟩
  obtain rfl := Option.some.inj store
  exact ⟨fun list same => by contradiction, rfl⟩

/-- In every run with fixed members. -/
theorem Enrolled.reach {c : Cluster} (run : Reach (Cluster.step unmarshal members)
      (fun c label => c.membershipFixed unmarshal label = true) (.initial members) c) :
    ∀ id, Enrolled members id (c.servers id) :=
  run.invariant (P := fun c => ∀ id, Enrolled members id (c.servers id)) (.initial members)
    fun _ _ _ enrolled fixed stepped => Enrolled.step enrolled fixed stepped

end

end Raft

import RvKeyValue.Base.Simulation
import RvKeyValue.Cluster.Partition

/-!
# What a group can do by itself

Continuations of a run in which only the members of a group take steps, and only with messages of RPCs
within the group. A call starts, takes a section, or has one of its RPCs served and answered: what each
of the three does to the cluster is stated once, and longer continuations are put together from them.
-/

namespace Raft

open Transition (Reach)

/-- A step that a group takes by itself: a member takes it, with messages within the group, saves
succeed, the membership stays, and the timer starts an election only where nobody leads. -/
structure Alone (unmarshal : Bytes → Option MembershipCommand) (group : List NodeId) (c : Cluster)
    (label : Label) : Prop where
  /-- A member takes it. -/
  member : label.node ∈ group
  /-- The messages are of the group. -/
  inside : label.Inside group
  /-- Nobody crashes. -/
  running : label.event ≠ .crash
  /-- Saves succeed. -/
  saves : Cluster.savesSucceed label = true
  /-- No membership change is applied. -/
  fixed : c.membershipFixed unmarshal label = true
  /-- No counter wraps. -/
  fits : c.nothingWraps label = true
  /-- A leader starts no election. -/
  timed : label.event = .start .election → (c.servers label.node).node.state ≠ .leader

/-- A group of members of a cluster. -/
structure Faction where
  /-- How the cluster reads membership changes. -/
  unmarshal : Bytes → Option MembershipCommand
  /-- The members of the cluster. -/
  members : Members
  /-- The group. -/
  ids : List NodeId

namespace Faction

/-- The members in the group. -/
def among (g : Faction) : List NodeId := g.members.ids.filter fun id => decide (id ∈ g.ids)

/-- The peers of a member that are in the group. -/
def voters (g : Faction) (id : NodeId) : List NodeId :=
  (g.members.peers id).filter fun peer => decide (peer ∈ g.ids)

/-- What a group can bring a cluster to by itself. -/
def Goes (g : Faction) (c c' : Cluster) : Prop :=
  Reach (Cluster.step g.unmarshal g.members) (Alone g.unmarshal g.ids) c c'

/-- A member of the group, in a cluster whose members stayed. -/
structure Stands (g : Faction) (c : Cluster) (id : NodeId) : Prop where
  /-- The processes have their ids and peers. -/
  enrolled : ∀ other, Enrolled g.members other (c.servers other)
  /-- The member. -/
  inside : id ∈ g.among

/-- The group has brought a cluster on, and of the processes one has moved: its record, and one of its
calls. -/
structure Moved (g : Faction) (c c' : Cluster) (id : NodeId) (tag : Nat) (node : RaftNode)
    (call : Option Call) : Prop where
  /-- The group did so by itself. -/
  goes : g.Goes c c'
  /-- The record. -/
  node : (c'.servers id).node = node
  /-- The call. -/
  call : (c'.servers id).calls tag = call
  /-- The others stayed. -/
  others : ∀ other ≠ id, c'.servers other = c.servers other

/-- Besides the caller a peer has moved, that has answered an RPC. -/
structure Answered (g : Faction) (c c' : Cluster) (id : NodeId) (tag : Nat) (peer : NodeId)
    (node : RaftNode) (call : Option Call) (record : RaftNode) : Prop where
  /-- The group did so by itself. -/
  goes : g.Goes c c'
  /-- The record of the caller. -/
  node : (c'.servers id).node = node
  /-- The call. -/
  call : (c'.servers id).calls tag = call
  /-- The record of the peer. -/
  callee : (c'.servers peer).node = record
  /-- The others stayed. -/
  others : ∀ other ≠ id, other ≠ peer → c'.servers other = c.servers other
  /-- So did the messages of other RPCs. -/
  net : ∀ packet ∈ c.net, packet.target ≠ peer → packet ∈ c'.net

section

variable {g : Faction} {c c' c'' : Cluster} {id peer : NodeId} {tag : Nat} {call : Call} {turn : Turn}
  {node node' record : RaftNode} {next next' : Option Call}

/-- A member of the group is a member. -/
theorem mem_among : id ∈ g.among ↔ id ∈ g.members.ids ∧ id ∈ g.ids := by
  unfold among
  rw [List.mem_filter, decide_eq_true_eq]

/-- A member's peers in the group are the other members in it. -/
theorem mem_voters (inside : id ∈ g.among) :
    peer ∈ g.voters id ↔ peer ∈ g.among ∧ peer ≠ id := by
  unfold voters
  rw [List.mem_filter, decide_eq_true_eq, g.members.mem_peers id (mem_among.mp inside).1, mem_among]
  tauto

/-- The processes keep their ids and peers. -/
theorem Stands.after (stands : g.Stands c id) (goes : g.Goes c c') : g.Stands c' id where
  enrolled := goes.invariant (P := fun c => ∀ other, Enrolled g.members other (c.servers other))
    stands.enrolled fun _ _ _ before alone stepped => Enrolled.step before alone.fixed stepped
  inside := stands.inside

/-- One movement after another. -/
theorem Moved.trans (first : g.Moved c c' id tag node next) (second : g.Moved c' c'' id tag node' next') :
    g.Moved c c'' id tag node' next' where
  goes := Reach.trans first.goes second.goes
  node := second.node
  call := second.call
  others other here := (second.others other here).trans (first.others other here)

/-- A process that keeps its record leaves all records. -/
theorem Moved.same (moved : g.Moved c c' id tag (c.servers id).node next) (other : NodeId) :
    (c'.servers other).node = (c.servers other).node := by
  by_cases here : other = id
  · rw [here, moved.node]
  · rw [moved.others other here]

/-- The caller moves on after an answer. -/
theorem Answered.trans (answered : g.Answered c c' id tag peer node next record) (apart : peer ≠ id)
    (moved : g.Moved c' c'' id tag node' next') (net : ∀ packet ∈ c'.net, packet ∈ c''.net) :
    g.Answered c c'' id tag peer node' next' record where
  goes := Reach.trans answered.goes moved.goes
  node := moved.node
  call := moved.call
  callee := by rw [moved.others peer apart, answered.callee]
  others other here there := (moved.others other here).trans (answered.others other here there)
  net packet listed elsewhere := net packet (answered.net packet listed elsewhere)

/-- A call starts. -/
theorem start (stands : g.Stands c id) (kind : Start)
    (timed : kind = .election → (c.servers id).node.state ≠ .leader) :
    ∃ c' tag, g.Moved c c' id tag (c.servers id).node kind.call := by
  obtain ⟨known, member⟩ := mem_among.mp stands.inside
  have stepped : c.step g.unmarshal g.members ⟨id, .start kind⟩ = some (c.absorb id c.net
      { server := { c.servers id with
          calls := Function.update (c.servers id).calls (c.servers id).nextTag (some kind.call)
          nextTag := (c.servers id).nextTag + 1 } }) := if_pos known
  have alone : Alone g.unmarshal g.ids c ⟨id, .start kind⟩ := by
    refine ⟨member, fun _ packet taken => by contradiction, by simp, rfl, rfl, rfl, fun same => ?_⟩
    exact timed (Event.start.inj same)
  refine ⟨_, (c.servers id).nextTag, .next .start alone stepped, ?_, ?_,
    fun other apart => c.absorb_other _ _ apart⟩
  · rw [c.absorb_own]
  · rw [c.absorb_own]
    exact Function.update_self ..

/-- A call takes a section. -/
theorem takes (stands : g.Stands c id) (running : (c.servers id).calls tag = some call)
    (kind : (∃ stage, call = .election stage) ∨ ∃ owner stage, call = .replicate owner stage)
    (fits : call = .election .preVoteWon → (c.servers id).node.currentTerm + 1 < Word.limit)
    (stepped : call.step g.unmarshal (c.servers id).node true true = some turn) :
    ∃ c', g.Moved c c' id tag turn.node turn.call ∧
      c'.net = c.net ++ turn.sent.map fun request => ⟨id, request.1, tag, request.2⟩ := by
  obtain ⟨known, member⟩ := mem_among.mp stands.inside
  have reacted : (c.servers id).react g.unmarshal (g.members.peers id) (.step tag true true) =
      some ((c.servers id).resume tag turn) := by
    simp only [Server.react, running, Option.bind_some, stepped, Option.map_some]
  have moved : c.step g.unmarshal g.members ⟨id, .step tag true true⟩ =
      some (c.absorb id c.net ((c.servers id).resume tag turn)) := by
    unfold Cluster.step
    rw [if_pos known]
    simp only [Event.packet, Cluster.take, Option.bind_some, reacted, Option.map_some]
  have alone : Alone g.unmarshal g.ids c ⟨id, .step tag true true⟩ := by
    refine ⟨member, fun _ packet taken => by contradiction, by simp, rfl, ?_, ?_, by simp⟩
    · rcases kind with ⟨stage, rfl⟩ | ⟨owner, stage, rfl⟩
      all_goals simp [Cluster.membershipFixed, Cluster.stepped, running]
    · rcases kind with ⟨stage, rfl⟩ | ⟨owner, stage, rfl⟩
      · cases stage with
        | preVoteWon =>
          have room := fits rfl
          simp [Cluster.nothingWraps, Cluster.termsFit, Cluster.indicesFit, Cluster.stepped, running, room]
        | _ =>
          simp [Cluster.nothingWraps, Cluster.termsFit, Cluster.indicesFit, Cluster.stepped, running]
      · simp [Cluster.nothingWraps, Cluster.termsFit, Cluster.indicesFit, Cluster.stepped, running]
  refine ⟨_, ⟨.next .start alone moved, ?_, ?_, fun other apart => c.absorb_other _ _ apart⟩, ?_⟩
  · rw [c.absorb_own]
    rfl
  · rw [c.absorb_own]
    exact Function.update_self ..
  · show c.net ++ turn.sent.map _ = _
    rw [(stands.enrolled id).own]

/-- An RPC is served and its response delivered. -/
theorem rpc {request answer : Body} (stands : g.Stands c id) (asked : peer ∈ g.voters id)
    (sent : (⟨id, peer, tag, request⟩ : Packet) ∈ c.net)
    (running : (c.servers id).calls tag = some call)
    (handled : Server.handle (c.servers peer).node true request = some (record, some answer))
    (replied : call.reply (c.servers id).node true peer answer = some turn) :
    ∃ c', g.Answered c c' id tag peer turn.node turn.call record := by
  obtain ⟨known, member⟩ := mem_among.mp stands.inside
  obtain ⟨other, apart⟩ := (mem_voters stands.inside).mp asked
  obtain ⟨peerKnown, peerMember⟩ := mem_among.mp other
  have own := (stands.enrolled id).own
  have peerOwn := (stands.enrolled peer).own
  have served : c.step g.unmarshal g.members ⟨peer, .serve ⟨id, peer, tag, request⟩ true⟩ =
      some (c.absorb peer (c.net.erase ⟨id, peer, tag, request⟩)
        { server := { c.servers peer with node := record }
          sent := [⟨id, peer, tag, answer⟩] }) := by
    unfold Cluster.step
    rw [if_pos peerKnown]
    simp only [Event.packet, Cluster.take, if_pos sent, Option.bind_some, Server.react,
      if_pos peerOwn.symm, handled, Option.map_some, Option.toList_some, List.map_cons, List.map_nil]
  have serves : Alone g.unmarshal g.ids c ⟨peer, .serve ⟨id, peer, tag, request⟩ true⟩ := by
    refine ⟨peerMember, fun _ packet taken => ?_, by simp, rfl, rfl, rfl, by simp⟩
    obtain rfl := Option.some.inj taken
    exact ⟨member, peerMember⟩
  generalize between : c.absorb peer (c.net.erase ⟨id, peer, tag, request⟩)
      { server := { c.servers peer with node := record }
        sent := [⟨id, peer, tag, answer⟩] } = c₁ at served
  have caller : c₁.servers id = c.servers id := by
    rw [← between]
    exact c.absorb_other _ _ apart.symm
  have net : c₁.net = c.net.erase ⟨id, peer, tag, request⟩ ++ [⟨id, peer, tag, answer⟩] := by
    rw [← between]
    rfl
  have arrives : (⟨id, peer, tag, answer⟩ : Packet) ∈ c₁.net := by
    rw [net]
    exact List.mem_append_right _ List.mem_cons_self
  have delivered : c₁.step g.unmarshal g.members ⟨id, .reply ⟨id, peer, tag, answer⟩ true⟩ =
      some (c₁.absorb id (c₁.net.erase ⟨id, peer, tag, answer⟩) ((c.servers id).resume tag turn)) := by
    unfold Cluster.step
    rw [if_pos known]
    simp only [Event.packet, Cluster.take, if_pos arrives, Option.bind_some, Server.react, caller,
      if_pos own.symm, running, replied, Option.map_some]
  have delivers : Alone g.unmarshal g.ids c₁ ⟨id, .reply ⟨id, peer, tag, answer⟩ true⟩ := by
    refine ⟨member, fun _ packet taken => ?_, by simp, rfl, rfl, rfl, by simp⟩
    obtain rfl := Option.some.inj taken
    exact ⟨member, peerMember⟩
  refine ⟨_, .next (.next .start serves served) delivers delivered, ?_, ?_, ?_, ?_, ?_⟩
  · rw [c₁.absorb_own]
    rfl
  · rw [c₁.absorb_own]
    exact Function.update_self ..
  · rw [c₁.absorb_other _ _ apart, ← between, c.absorb_own]
  · intro other notCaller notPeer
    rw [c₁.absorb_other _ _ notCaller, ← between, c.absorb_other _ _ notPeer]
  · intro packet listed elsewhere
    have other : ∀ body, packet ≠ ⟨id, peer, tag, body⟩ := by
      rintro body rfl
      exact elsewhere rfl
    refine List.mem_append_left _ ((List.mem_erase_of_ne (other answer)).mpr ?_)
    rw [net]
    exact List.mem_append_left _ ((List.mem_erase_of_ne (other request)).mpr listed)

end

end Faction

end Raft

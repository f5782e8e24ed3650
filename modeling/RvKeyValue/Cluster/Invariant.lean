import RvKeyValue.Cluster.Simulation

/-!
# The invariant of every run

In every state that steps meeting `Sound` reach, there is a state of the abstract protocol
that all processes refine, and every call, message and observation says only what is true in
it. The safety properties of the cluster are read off this one relation.
-/

namespace Raft

section

variable {members : Members} {unmarshal : Bytes → Option MembershipCommand} {id : NodeId}
  {a a' : Protocol}

/-- A process and its abstract node. -/
structure ServerOk (members : Members) (id : NodeId) (sv : Server) (a : Protocol) : Prop where
  /-- The record refines the node. -/
  refines : Refines members id sv.node a
  /-- The store is in step. -/
  persists : Persists members id sv.node
  /-- The compacted entries are the start of the log. -/
  snapshot : SnapshotOk id sv a
  /-- Running calls know only what is true. -/
  calls : ∀ tag call, sv.calls tag = some call → CallOk members id sv.node a call

/-- A message between a member and one of its peers that says what is true. -/
structure PacketOk (members : Members) (a : Protocol) (packet : Packet) : Prop where
  /-- A member made the RPC. -/
  source : packet.source ∈ members.ids
  /-- It called one of its peers. -/
  target : packet.target ∈ members.peers packet.source
  /-- The message is true. -/
  body : BodyOk members a packet.source packet.target packet.body

/-- A cluster and a state of the abstract protocol. -/
structure Simulates (members : Members) (c : Cluster) (a : Protocol) : Prop where
  /-- The protocol's invariant. -/
  good : Good members a
  /-- Every process refines its node. -/
  servers : ∀ id ∈ members.ids, ServerOk members id (c.servers id) a
  /-- Every message is true. -/
  net : ∀ packet ∈ c.net, PacketOk members a packet
  /-- Every observation is true. -/
  observed : ∀ record ∈ c.observed, ObservationOk members a record.node record.observation

/-- The conditions on a step under which the cluster simulates the protocol. -/
def Sound (unmarshal : Bytes → Option MembershipCommand) (c : Cluster) (label : Label) : Prop :=
  Cluster.savesSucceed label = true ∧ c.membershipFixed unmarshal label = true ∧
    c.nothingWraps label = true ∧ c.leaderAppends label = true ∧ c.successCurrent label = true

instance (c : Cluster) (label : Label) : Decidable (Sound unmarshal c label) := by
  unfold Sound
  infer_instance

/-- The whole log of a process is the abstract log. -/
theorem ServerOk.full {sv : Server} (ok : ServerOk members id sv a) : sv.full = a.log id := by
  unfold Server.full
  rw [ok.snapshot, ok.refines.log.retained, List.take_append_drop]

/-- A fresh process refines the abstract node that has done nothing. -/
theorem ServerOk.initial (inside : id ∈ members.ids) :
    ServerOk members id { node := newRaftNode id (members.peers id) (some {}) }
      ReplicatedLog.State.initial where
  refines := {
    member := inside
    own := rfl
    peers := rfl
    selfMember := rfl
    term := rfl
    termFits := by show 0 < Word.limit; decide
    vote := rfl
    log := ⟨le_refl _, rfl, fun _ _ found => by simp [ReplicatedLog.State.initial] at found, rfl,
      by show 1 < Word.limit; decide⟩
    commit := Or.inl rfl
    commitLe := le_refl _
    appliedLe := le_refl _
    includedLe := le_refl _
    leads := fun role => absurd role (by simp [newRaftNode])
    progress := fun role => absurd role (by simp [newRaftNode])
    idle := fun _ => ⟨rfl, rfl⟩
    candidate := fun role => absurd role (by simp [newRaftNode]) }
  persists := ⟨{}, rfl, rfl, rfl, rfl, rfl, rfl, rfl, rfl⟩
  snapshot := rfl
  calls _ _ running := by contradiction

/-- The started cluster simulates the protocol that has done nothing. -/
theorem Simulates.initial (members : Members) :
    Simulates members (.initial members) ReplicatedLog.State.initial where
  good := ⟨.initial _ _, fun _ _ decided => by contradiction, fun _ _ decided => by contradiction⟩
  servers _ inside := .initial inside
  net _ listed := by contradiction
  observed _ listed := by contradiction

/-- A process is untouched by a section elsewhere. -/
theorem ServerOk.elsewhere {sv : Server} {other : NodeId} (ok : ServerOk members id sv a)
    (grows : a.Grows a') (only : a.OnlyAt a' other) (ne : id ≠ other) :
    ServerOk members id sv a' where
  refines := ok.refines.frame grows (only.term id ne) (only.vote id ne) (only.log id ne)
  persists := ok.persists
  snapshot := by
    show sv.compacted = (a'.log id).take sv.node.lastIncludedIndex
    rw [only.log id ne]
    exact ok.snapshot
  calls tag call running := (ok.calls tag call running).stable (.elsewhere sv.node grows only ne)

/-- A section of the process itself keeps its other calls and its compacted entries. -/
theorem ServerOk.advance {sv : Server} {n' : RaftNode} (ok : ServerOk members id sv a)
    (advance : Advance members id sv.node n' a a') (stored : Persists members id n') :
    ServerOk members id { sv with node := n' } a' where
  refines := advance.refines
  persists := stored
  snapshot := by
    have included := le_trans ok.refines.includedLe ok.refines.appliedLe
    have kept := congrArg (List.take sv.node.lastIncludedIndex) advance.committed
    rw [List.take_take, List.take_take, Nat.min_eq_left included] at kept
    show sv.compacted = (a'.log id).take n'.lastIncludedIndex
    rw [advance.snapshot, kept]
    exact ok.snapshot
  calls tag call running := (ok.calls tag call running).stable (advance.continues ok.refines)

/-- Replacing one call of a process. -/
theorem ServerOk.setCall {sv : Server} (ok : ServerOk members id sv a) (tag : Nat)
    (next : Option Call) (known : ∀ call, next = some call → CallOk members id sv.node a call)
    (nextTag : Nat) : ServerOk members id
      { sv with calls := Function.update sv.calls tag next, nextTag := nextTag } a where
  refines := ok.refines
  persists := ok.persists
  snapshot := ok.snapshot
  calls other call running := by
    by_cases same : other = tag
    · subst same
      exact known call (by simpa using running)
    · exact ok.calls other call (by simpa [same] using running)

/-- A turn of a call, with its messages and observations. -/
theorem ServerOk.resume {sv : Server} (ok : ServerOk members id sv a) (tag : Nat) {turn : Turn}
    (turned : TurnOk members id sv.node a turn a') :
    ServerOk members id (sv.resume tag turn).server a' ∧
      (∀ packet ∈ (sv.resume tag turn).sent, PacketOk members a' packet) ∧
      ∀ shown ∈ (sv.resume tag turn).observed, ObservationOk members a' id shown.2 := by
  refine ⟨?_, fun packet listed => ?_, fun shown listed => ?_⟩
  · exact (ok.advance turned.advance turned.persists).setCall tag turn.call turned.call sv.nextTag
  · obtain ⟨request, inside, rfl⟩ := List.mem_map.mp listed
    have sent := turned.sent request inside
    rw [ok.refines.own]
    exact ⟨ok.refines.member, sent.1, sent.2⟩
  · obtain ⟨observation, inside, rfl⟩ := List.mem_map.mp listed
    exact turned.observed observation inside

/-- What a reaction of a process must show for the cluster to follow. -/
structure ReactionOk (members : Members) (id : NodeId) (a : Protocol) (reaction : Reaction)
    (a' : Protocol) : Prop where
  /-- The protocol's invariant. -/
  good : Good members a'
  /-- History has grown. -/
  grows : a.Grows a'
  /-- Only this node moved. -/
  only : a.OnlyAt a' id
  /-- The process refines its node again. -/
  server : ServerOk members id reaction.server a'
  /-- Its messages are true. -/
  sent : ∀ packet ∈ reaction.sent, PacketOk members a' packet
  /-- Its observations are true. -/
  observed : ∀ shown ∈ reaction.observed, ObservationOk members a' id shown.2

/-- The cluster follows the reaction of one process. -/
theorem Simulates.absorb {c : Cluster} (sim : Simulates members c a) {net : List Packet}
    (taken : ∀ packet ∈ net, packet ∈ c.net) {reaction : Reaction}
    (reacted : ReactionOk members id a reaction a') :
    Simulates members (c.absorb id net reaction) a' where
  good := reacted.good
  servers other inside := by
    by_cases same : other = id
    · subst same
      simpa [Cluster.absorb] using reacted.server
    · simpa [Cluster.absorb, same] using
        (sim.servers other inside).elsewhere reacted.grows reacted.only same
  net packet listed := by
    cases List.mem_append.mp listed with
    | inl old =>
      have known := sim.net packet (taken packet old)
      exact ⟨known.source, known.target, known.body.grow reacted.grows⟩
    | inr new => exact reacted.sent packet new
  observed record listed := by
    cases List.mem_append.mp listed with
    | inl old => exact (sim.observed record old).grow reacted.grows
    | inr new =>
      obtain ⟨shown, inside, rfl⟩ := List.mem_map.mp new
      exact reacted.observed shown inside

/-- A process reacts to an event under the conditions. -/
theorem ServerOk.react {sv : Server} (good : Good members a) (ok : ServerOk members id sv a)
    {event : Event} (packet : ∀ packet, event.packet = some packet → PacketOk members a packet)
    (saves : Cluster.savesSucceed ⟨id, event⟩ = true)
    (permitted : ∀ tag save applied call, event = .step tag save applied →
      sv.calls tag = some call → Permitted unmarshal sv.node call)
    {reaction : Reaction} (reacted : sv.react unmarshal (members.peers id) event = some reaction) :
    ∃ a', ReactionOk members id a reaction a' := by
  have stay : ∀ {reaction : Reaction}, ServerOk members id reaction.server a →
      (∀ packet ∈ reaction.sent, PacketOk members a packet) →
      (∀ shown ∈ reaction.observed, ObservationOk members a id shown.2) →
      ReactionOk members id a reaction a :=
    fun server sent observed => ⟨good, .refl a, .refl a id, server, sent, observed⟩
  have turn : ∀ {tag : Nat} {turn : Turn} {a' : Protocol}, TurnOk members id sv.node a turn a' →
      ReactionOk members id a (sv.resume tag turn) a' := by
    intro tag turn a' turned
    have resumed := ok.resume tag turned
    exact ⟨turned.advance.good, turned.advance.grows, turned.advance.only, resumed.1, resumed.2.1,
      resumed.2.2⟩
  cases Server.react_cases reacted with
  | start kind =>
    refine ⟨a, stay (ok.setCall _ _ (fun call same => ?_) _) (by simp) (by simp)⟩
    obtain rfl := Option.some.inj same
    cases kind with
    | election => trivial
    | propose command => trivial
    | replicate => exact ⟨fun entry owned => by contradiction, trivial⟩
    | apply => trivial
  | step tag save applied call next running turned =>
    obtain rfl : save = true := saves
    obtain ⟨a', turnOk⟩ := step_ok good ok.refines ok.persists (ok.calls tag call running)
      (permitted tag true applied call rfl running) turned
    exact ⟨a', turn turnOk⟩
  | reply message save call next mine running turned =>
    obtain rfl : save = true := saves
    have said := (packet message rfl).body
    rw [mine, ok.refines.own] at said
    obtain ⟨a', turnOk⟩ := reply_ok good ok.refines ok.persists (ok.calls _ call running) said turned
    exact ⟨a', turn turnOk⟩
  | failure tag peer call next running failed =>
    refine ⟨a, stay (ok.setCall tag (some next) (fun other same => ?_) sv.nextTag) (by simp) (by simp)⟩
    obtain rfl := Option.some.inj same
    exact failure_ok (ok.calls tag call running) failed
  | cancel tag call observed running cancelled =>
    refine ⟨a, stay (ok.setCall tag none (by simp) sv.nextTag) (by simp) fun shown listed => ?_⟩
    obtain ⟨observation, inside, rfl⟩ := List.mem_map.mp listed
    rw [Call.cancel_shown cancelled inside]
    trivial
  | serve message save answer mine handled =>
    obtain rfl : save = true := saves
    have known := packet message rfl
    have here : message.target = id := mine.trans ok.refines.own
    have said := known.body
    have target := known.target
    rw [here] at said target
    have apart := (members.mem_peers _ known.source id).mp target
    have peer : message.source ∈ members.peers id :=
      (members.mem_peers id apart.1 _).mpr ⟨known.source, fun same => apart.2 same.symm⟩
    obtain ⟨stored, a', advance, response⟩ := handle_ok good ok.refines ok.persists peer said handled
    refine ⟨a', advance.good, advance.grows, advance.only, ok.advance advance stored,
      fun sent listed => ?_, by simp⟩
    obtain ⟨body, inside, rfl⟩ := List.mem_map.mp listed
    refine ⟨known.source, known.target, ?_⟩
    show BodyOk members a' message.source message.target body
    rw [here]
    exact response body (by simpa using inside)
  | compact snapshot save =>
    obtain rfl : save = true := saves
    obtain ⟨refines, stored, kept, commit, state⟩ :=
      compact_refines ok.refines ok.persists ok.snapshot snapshot
    refine ⟨a, stay ⟨refines, stored, kept, fun tag call running => ?_⟩ (by simp) (by simp)⟩
    have continues : Continues id sv.node (sv.compact true snapshot).node a a :=
      ⟨.refl a, commit.ge, fun role _ => ⟨state.symm.trans role, rfl, rfl⟩⟩
    exact (ok.calls tag call running).stable continues
  | crash =>
    obtain ⟨refines, stored, kept⟩ := restart_refines ok.refines ok.persists ok.snapshot
    exact ⟨a, stay ⟨refines, stored, kept, fun tag call running => by contradiction⟩ (by simp)
      (by simp)⟩

/-- The conditions on a step permit the section it takes. -/
theorem Sound.permitted {c : Cluster} {label : Label} (sound : Sound unmarshal c label) {tag : Nat}
    {save applied : Bool} {call : Call} (event : label.event = .step tag save applied)
    (running : (c.servers label.node).calls tag = some call) :
    Permitted unmarshal (c.servers label.node).node call := by
  obtain ⟨-, fixed, wraps, leads, current⟩ := sound
  have stepped : c.stepped label = some call := by
    simp only [Cluster.stepped, event]
    exact running
  simp only [Cluster.membershipFixed, Cluster.nothingWraps, Cluster.termsFit, Cluster.indicesFit,
    Cluster.leaderAppends, Cluster.successCurrent, stepped, Bool.and_eq_true]
    at fixed wraps leads current
  refine ⟨?_, ?_, ?_, ?_, ?_⟩
  · rintro rfl
    simpa using wraps
  · rintro command rfl
    simpa using leads
  · rintro command rfl
    simpa using wraps
  · rintro owner waiting peer req rfl
    exact of_decide_eq_true current
  · rintro entry change rfl decoded
    simp [decoded] at fixed

/-- A step that meets the conditions takes the protocol along. -/
theorem Simulates.step {c c' : Cluster} {label : Label} (sim : Simulates members c a)
    (sound : Sound unmarshal c label) (stepped : c.step unmarshal members label = some c') :
    ∃ a', Simulates members c' a' ∧ a.Grows a' := by
  obtain ⟨inside, net, reaction, taken, reacted, rfl⟩ := Cluster.step_some stepped
  have took := Cluster.take_some taken
  obtain ⟨a', reactionOk⟩ := (sim.servers _ inside).react sim.good
    (fun message same => sim.net message (took.1 message same)) sound.1
    (fun tag save applied call event running => sound.permitted event running) reacted
  exact ⟨a', sim.absorb took.2 reactionOk, reactionOk.grows⟩

/-- Every state reached under the conditions simulates the protocol. -/
theorem Simulates.reach {c : Cluster}
    (run : Transition.Reach (Cluster.step unmarshal members) (Sound unmarshal) (.initial members) c) :
    ∃ a, Simulates members c a := by
  induction run with
  | start => exact ⟨_, .initial members⟩
  | next _ sound stepped ih =>
    obtain ⟨a, sim⟩ := ih
    obtain ⟨a', next, -⟩ := sim.step sound stepped
    exact ⟨a', next⟩

end

end Raft

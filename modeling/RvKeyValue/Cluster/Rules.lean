import RvKeyValue.Cluster.Operations
import RvKeyValue.Node.Roles

/-!
# Rules for invariants

What a step can do, put as rules for the invariants of runs. A process restarts from its store, rests, or
performs an operation. A property of what is saved holds in memory and on disk alike; a property of calls
is kept when calls start with it and go on with it; and a property of processes and messages is kept by
the cluster when the process that takes a step keeps it.
-/

namespace Raft

section

variable {unmarshal : Bytes → Option MembershipCommand} {sv : Server} {peers : List NodeId}
  {event : Event} {reaction : Reaction}

/-- What has a process perform an operation: a section of a call, a message, or a compaction. -/
inductive Server.Performs (sv : Server) : Event → Operation → Prop
  /-- A running call. -/
  | call {tag : Nat} {save applied : Bool} {call : Call} {op : Operation}
      (running : sv.calls tag = some call) (made : call.operation = some op) :
      Performs sv (.step tag save applied) op
  /-- A message. -/
  | message {event : Event} {packet : Packet} {op : Operation} (taken : event.packet = some packet)
      (made : packet.body.operation = some op) : Performs sv event op
  /-- A compaction. -/
  | compact (snapshot : Bytes) (save : Bool) : Performs sv (.compact snapshot save) (.compact snapshot)

/-- Nothing else does. -/
theorem Server.operation_cases {op : Operation} (runs : sv.operation event = some op) :
    sv.Performs event op := by
  cases event with
  | step tag save applied =>
    obtain ⟨call, running, made⟩ := Option.bind_eq_some_iff.mp runs
    exact .call running made
  | reply packet save => exact .message rfl runs
  | serve packet save => exact .message rfl runs
  | compact snapshot save =>
    cases runs
    exact .compact snapshot save
  | _ => cases runs

/-- An operation that no message and no compaction makes is one of a running call. -/
theorem Server.operation_of_call {op : Operation} (runs : sv.operation event = some op)
    (silent : ∀ body : Body, body.operation ≠ some op) (whole : ∀ snapshot, op ≠ .compact snapshot) :
    ∃ tag save applied call, event = .step tag save applied ∧ sv.calls tag = some call ∧
      call.operation = some op := by
  cases Server.operation_cases runs with
  | call running made => exact ⟨_, _, _, _, rfl, running, made⟩
  | message taken made => exact absurd made (silent _)
  | compact snapshot save => exact absurd rfl (whole snapshot)

/-- No process calls `BecomeLeader`. -/
theorem Server.operation_ne_becomeLeader {op : Operation} (runs : sv.operation event = some op) :
    op ≠ .becomeLeader := by
  rintro rfl
  obtain ⟨-, -, -, call, -, -, made⟩ :=
    Server.operation_of_call runs (by rintro ⟨⟩ <;> simp [Body.operation]) (by simp)
  unfold Call.operation at made
  split at made <;> cases made

/-- `promoteCandidate` is called by an election that has counted a majority. -/
theorem Server.operation_promoteCandidate {term : Nat}
    (runs : sv.operation event = some (.promoteCandidate term)) :
    ∃ tag save applied, event = .step tag save applied ∧
      sv.calls tag = some (.election (.winning term)) := by
  obtain ⟨tag, save, applied, call, steps, running, made⟩ :=
    Server.operation_of_call runs (by rintro ⟨⟩ <;> simp [Body.operation]) (by simp)
  unfold Call.operation at made
  split at made <;> cases made
  exact ⟨tag, save, applied, steps, running⟩

/-- The record of a process after a step. -/
theorem Server.react_moves (reacted : sv.react unmarshal peers event = some reaction) :
    event = .crash ∧ reaction.server.node = newRaftNode sv.node.id peers sv.node.store ∨
      event ≠ .crash ∧ (reaction.server.node = sv.node ∨ ∃ op, sv.operation event = some op ∧
        reaction.server.node = sv.node.perform unmarshal event.save op) := by
  by_cases crash : event = .crash
  · subst crash
    obtain rfl := Option.some.inj reacted
    exact Or.inl ⟨rfl, rfl⟩
  · have node := Server.react_node crash reacted
    refine Or.inr ⟨crash, ?_⟩
    cases runs : sv.operation event with
    | none =>
      rw [runs] at node
      exact Or.inl node
    | some op =>
      rw [runs] at node
      exact Or.inr ⟨op, rfl, node⟩

/-- A process keeps its id, in memory and over a restart. -/
theorem Server.react_id (reacted : sv.react unmarshal peers event = some reaction) :
    reaction.server.node.id = sv.node.id := by
  rcases Server.react_moves reacted with ⟨-, node⟩ | ⟨-, node | ⟨op, -, node⟩⟩
  · rw [node]
    cases sv.node.store <;> rfl
  · rw [node]
  · rw [node]
    exact (sv.node.perform_prepared unmarshal event.save op).own

/-- Its store: what was there, or, unless the process has restarted, what the record is then. -/
theorem Server.react_store (reacted : sv.react unmarshal peers event = some reaction) :
    reaction.server.node.store = sv.node.store ∨
      event ≠ .crash ∧ reaction.server.node.store = some reaction.server.node.persistentState := by
  rcases Server.react_moves reacted with ⟨-, node⟩ | ⟨going, node | ⟨op, -, node⟩⟩
  · rw [node]
    cases sv.node.store <;> exact Or.inl rfl
  · rw [node]
    exact Or.inl rfl
  · rw [node]
    rcases sv.node.perform_store unmarshal event.save op with kept | saved
    · exact Or.inl kept
    · exact Or.inr ⟨going, saved⟩

/-- What is saved has a property in memory and on disk. -/
structure RaftNode.Throughout (P : PersistentState → Prop) (n : RaftNode) : Prop where
  /-- What would be saved. -/
  memory : P n.persistentState
  /-- What was saved. -/
  disk : ∀ state, n.store = some state → P state

instance (P : PersistentState → Prop) [DecidablePred P] (n : RaftNode) : Decidable (n.Throughout P) :=
  decidable_of_iff (P n.persistentState ∧ ∀ state ∈ n.store, P state)
    ⟨fun both => ⟨both.1, both.2⟩, fun both => ⟨both.memory, both.disk⟩⟩

/-- The property is kept when a process starts with it and its operations keep it in memory. -/
theorem RaftNode.Throughout.react {P : PersistentState → Prop} (before : sv.node.Throughout P)
    (fresh : ∀ id, P (newRaftNode id peers none).persistentState)
    (boots : ∀ id state, P state → P (newRaftNode id peers (some state)).persistentState)
    (performs : ∀ op, sv.operation event = some op →
      P (sv.node.perform unmarshal event.save op).persistentState)
    (reacted : sv.react unmarshal peers event = some reaction) :
    reaction.server.node.Throughout P := by
  have memory : P reaction.server.node.persistentState := by
    rcases Server.react_moves reacted with ⟨-, node⟩ | ⟨-, node | ⟨op, runs, node⟩⟩
    · rw [node]
      cases store : sv.node.store with
      | none => exact fresh _
      | some state => exact boots _ state (before.disk state store)
    · rw [node]
      exact before.memory
    · rw [node]
      exact performs op runs
  refine ⟨memory, fun state found => ?_⟩
  rcases Server.react_store reacted with kept | ⟨-, saved⟩
  · exact before.disk state (kept.symm.trans found)
  · rw [saved] at found
    rw [← Option.some.inj found]
    exact memory

/-- A property of calls is kept when calls start with it and go on with it. -/
theorem Server.react_calls {P : Call → Prop} (calls : ∀ tag call, sv.calls tag = some call → P call)
    (starts : ∀ kind, event = .start kind → P kind.call)
    (steps : ∀ tag save applied call turn next, event = .step tag save applied → P call →
      call.step unmarshal sv.node save applied = some turn → turn.call = some next → P next)
    (replies : ∀ packet save call turn next, event = .reply packet save → P call →
      call.reply sv.node save packet.target packet.body = some turn → turn.call = some next → P next)
    (fails : ∀ peer call next, P call → call.failure peer = some next → P next)
    (reacted : sv.react unmarshal peers event = some reaction) (tag : Nat) (call : Call)
    (running : reaction.server.calls tag = some call) : P call := by
  have updated : ∀ {position : Nat} {next : Option Call}, (∀ goes, next = some goes → P goes) →
      Function.update sv.calls position next tag = some call → P call := by
    intro position next goes found
    rcases Server.call_updated found with ⟨-, set⟩ | ⟨-, before⟩
    · exact goes call set
    · exact calls tag call before
  cases Server.react_cases reacted with
  | start kind =>
    refine updated (fun goes same => ?_) running
    rw [← Option.some.inj same]
    exact starts kind rfl
  | step position save applied old turn ran turned =>
    refine updated (fun goes same => ?_) running
    exact steps position save applied old turn goes rfl (calls position old ran) turned same
  | reply packet save old turn _ ran turned =>
    refine updated (fun goes same => ?_) running
    exact replies packet save old turn goes rfl (calls packet.tag old ran) turned same
  | failure position peer old next ran failed =>
    refine updated (fun goes same => ?_) running
    rw [← Option.some.inj same]
    exact fails peer old next (calls position old ran) failed
  | cancel position old observed ran _ => exact updated (fun _ same => by contradiction) running
  | serve packet save answer _ _ => exact calls tag call running
  | compact snapshot save => exact calls tag call running
  | crash => contradiction

variable {members : Members} {c c' : Cluster} {label : Label}

/-- Properties of processes and of messages are kept when the process that takes the step, and what it
sends, have them. -/
theorem Cluster.step_keeps {S : NodeId → Server → Prop} {N : Packet → Prop}
    (servers : ∀ id, S id (c.servers id)) (net : ∀ packet ∈ c.net, N packet)
    (stepped : c.step unmarshal members label = some c')
    (reacts : ∀ reaction, label.node ∈ members.ids →
      (∀ packet, label.event.packet = some packet → packet ∈ c.net) →
      (c.servers label.node).react unmarshal (members.peers label.node) label.event = some reaction →
      S label.node reaction.server ∧ ∀ packet ∈ reaction.sent, N packet) :
    (∀ id, S id (c'.servers id)) ∧ ∀ packet ∈ c'.net, N packet := by
  obtain ⟨inside, rest, reaction, taken, reacted, rfl⟩ := Cluster.step_some stepped
  obtain ⟨present, kept⟩ := Cluster.take_some taken
  obtain ⟨server, sent⟩ := reacts reaction inside present reacted
  refine ⟨fun id => ?_, fun packet listed => ?_⟩
  · by_cases here : id = label.node
    · rw [here, c.absorb_own]
      exact server
    · rw [c.absorb_other rest reaction here]
      exact servers id
  · rcases List.mem_append.mp listed with old | new
    · exact net packet (kept packet old)
    · exact sent packet new

/-- A property of processes alone. -/
theorem Cluster.step_keeps_servers {S : NodeId → Server → Prop} (servers : ∀ id, S id (c.servers id))
    (stepped : c.step unmarshal members label = some c')
    (reacts : ∀ reaction, label.node ∈ members.ids →
      (c.servers label.node).react unmarshal (members.peers label.node) label.event = some reaction →
      S label.node reaction.server) (id : NodeId) : S id (c'.servers id) :=
  (Cluster.step_keeps (N := fun _ => True) servers (fun _ _ => trivial) stepped
    fun reaction inside _ reacted => ⟨reacts reaction inside reacted, fun _ _ => trivial⟩).1 id

end

end Raft

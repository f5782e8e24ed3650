import RvKeyValue.Base.Simulation
import RvKeyValue.Service.System

/-!
# What a step of the service can do

Each step is a step of the cluster or none, and then a handler or a loop moves to another stage.
The cases are listed once, with what is known in each, and every invariant of the service is read
off the list.
-/

open Raft (Bytes NodeId LogEntry Members Label Event Server Traced Record Reaction Call Cluster
  MembershipCommand RaftNode decodeMembershipChange)
open Store (Json KVStateMachine encodeCommand)
open Transition (Reach)

namespace Service

/-- The stages a handler moves to on its own. -/
inductive Goes (s : Service) (h : Handler) : Stage → Prop
  /-- `handleGet` finds its node to be the leader. -/
  | leads (at_ : h.stage = .checking) (leader : (s.server h.node).node.state = .leader) :
      Goes s h .proposing
  /-- `handleGet` finds another role. -/
  | follows (at_ : h.stage = .checking) : Goes s h .refused
  /-- A command is not encoded, no leader is known, or `Forward` returns an error. -/
  | fails {response : Response} (at_ : h.stage = .proposing ∨ h.stage = .refused ∨
      ∃ target, h.stage = .forwarding target) (written : response ≠ .noContent)
      (unread : ∀ found, response ≠ .read found) : Goes s h (.answered response)
  /-- The response of the handler at the other node is passed on, cut. -/
  | relays {target : Nat} {other : Handler} {response : Response} (at_ : h.stage = .forwarding target)
      (there : s.handlers[target]? = some other) (said : other.stage.response = some response) :
      Goes s h (.answered response.forwarded)
  /-- The state machine is read. -/
  | reads {entry : LogEntry} {key : Bytes} (at_ : h.stage = .reading entry)
      (asked : h.request = .get key) :
      Goes s h (.answered (.read ((s.machines h.node).get key)))

/-- What a step does. -/
inductive Does (json : Json) (members : Members) (s : Service) : Action → Service → Prop
  /-- A handler goes on alone. -/
  | goes {action : Action} {id : Nat} {h : Handler} {stage : Stage}
      (silent : s.label json action = none) (there : s.handlers[id]? = some h)
      (goes : Goes s h stage) : Does json members s action (s.put id h stage)
  /-- A handler starts its proposal. -/
  | proposes {id : Nat} {h : Handler} {command : Bytes} {moved : Service}
      (there : s.handlers[id]? = some h) (at_ : h.stage = .proposing)
      (encoded : encodeCommand json h.request.command = .ok command)
      (advanced : s.advance json members ⟨h.node, .start (.propose command)⟩ = some moved) :
      Does json members s (.handle id) (moved.put id h (.waiting (s.server h.node).nextTag))
  /-- A handler starts `ApplyCommitted`. -/
  | applies {id : Nat} {h : Handler} {entry : LogEntry} {moved : Service}
      (there : s.handlers[id]? = some h) (at_ : h.stage = .committed entry)
      (advanced : s.advance json members ⟨h.node, .start .apply⟩ = some moved) :
      Does json members s (.handle id) (moved.put id h (.applying entry (s.server h.node).nextTag))
  /-- A handler sends its request to the node it takes for the leader. -/
  | forwards {id : Nat} {h : Handler} (there : s.handlers[id]? = some h) (at_ : h.stage = .refused)
      (known : (s.server h.node).node.leaderID ≠ "")
      (other : (s.server h.node).node.leaderID ≠ (s.server h.node).node.id)
      (member : (s.server h.node).node.leaderID ∈ members.ids) :
      Does json members s (.handle id) ((s.put id h (.forwarding s.handlers.length)).receive
        (s.server h.node).node.leaderID h.origin h.request)
  /-- A client sends a request. -/
  | receives {node : NodeId} {request : Request} (member : node ∈ members.ids) :
      Does json members s (.receive node request) (s.receive node s.handlers.length request)
  /-- A call a handler waits for takes a step. -/
  | hears {label : Label} {moved : Service} {id tag : Nat} {h : Handler}
      (own : label.event.call = some tag) (advanced : s.advance json members label = some moved)
      (waits : s.owner label.node tag = some id) (there : s.handlers[id]? = some h) :
      Does json members s (.raft label) (moved.hear id h (s.server label.node) tag
        (moved.traced.cluster.observed.drop s.traced.cluster.observed.length))
  /-- A call of the loop, or one nobody waits for, takes a step. -/
  | hearsLoop {label : Label} {moved : Service} {tag : Nat} (own : label.event.call = some tag)
      (advanced : s.advance json members label = some moved)
      (alone : s.owner label.node tag = none) :
      Does json members s (.raft label) (moved.hearLoop label.node (s.server label.node) tag
        (moved.traced.cluster.observed.drop s.traced.cluster.observed.length))
  /-- Something else happens at a node. -/
  | happens {label : Label} {moved : Service} (background : background label.event = true)
      (other : label.event.call = none) (going : label.event ≠ .crash)
      (advanced : s.advance json members label = some moved) : Does json members s (.raft label) moved
  /-- A process stops and is started again. -/
  | crashes {node : NodeId} {moved : Service}
      (advanced : s.advance json members ⟨node, .crash⟩ = some moved) :
      Does json members s (.raft ⟨node, .crash⟩) { moved with
        handlers := moved.handlers.map (Handler.lose node)
        loops := Function.update moved.loops node (.applying none) }
  /-- The loop goes on without a step of the cluster. -/
  | turns {node : NodeId} {save : Bool} {stage : LoopStage} (silent : s.label json (.loop node save) = none)
      (from_ : ∀ snapshot, s.loops node ≠ .compacting snapshot)
      (taken : ∀ snapshot, stage = .compacting snapshot →
        s.loops node = .snapshotting ∧ snapshot = (s.machines node).snapshot json) :
      Does json members s (.loop node save) (s.setLoop node stage)
  /-- The loop starts `ApplyCommitted`. -/
  | begins {node : NodeId} {save : Bool} {moved : Service} (at_ : s.loops node = .applying none)
      (advanced : s.advance json members ⟨node, .start .apply⟩ = some moved) :
      Does json members s (.loop node save) (moved.setLoop node (.applying (some (s.server node).nextTag)))
  /-- The loop compacts the log. -/
  | compacts {node : NodeId} {save : Bool} {snapshot : Bytes} {moved : Service} {stage : LoopStage}
      (at_ : s.loops node = .compacting snapshot) (next : stage = .returned ∨ stage = .waiting)
      (advanced : s.advance json members ⟨node, .compact snapshot save⟩ = some moved) :
      Does json members s (.loop node save) (moved.setLoop node stage)

section

variable {json : Json} {members : Members} {s s' : Service} {label : Label}

/-- A handler that waits for a call is found in the list. -/
theorem owner_some {node : NodeId} {tag id : Nat} (waits : s.owner node tag = some id) :
    ∃ h, s.handlers[id]? = some h ∧ h.node = node ∧ h.stage.call = some tag := by
  obtain ⟨inside, found, -⟩ := List.findIdx?_eq_some_iff_getElem.mp waits
  exact ⟨_, List.getElem?_eq_getElem inside, of_decide_eq_true found⟩

/-- No handler waits for a call that has no owner. -/
theorem owner_none {node : NodeId} {tag id : Nat} {h : Handler} (alone : s.owner node tag = none)
    (there : s.handlers[id]? = some h) (here : h.node = node) : h.stage.call ≠ some tag := by
  intro waits
  have free := List.findIdx?_eq_none_iff.mp alone h (List.mem_of_getElem? there)
  rw [decide_eq_true (And.intro here waits)] at free
  contradiction

/-- What a handler's step does. -/
theorem handle_does {id : Nat} {h : Handler} (there : s.handlers[id]? = some h)
    (handled : s.handle json members id h = some s') : Does json members s (.handle id) s' := by
  have silent : ∀ found, s.handlers[id]? = some found → (∀ entry, found.stage ≠ .committed entry) →
      (found.stage = .proposing → ∃ err, encodeCommand json found.request.command = .error err) →
      s.label json (.handle id) = none := by
    intro found at_ other invalid
    simp only [label, at_, Option.bind_some]
    split
    · rename_i proposing
      obtain ⟨err, refused⟩ := invalid proposing
      rw [refused]
      rfl
    · rename_i entry committed
      exact absurd committed (other entry)
    · rfl
  unfold handle at handled
  split at handled
  · rename_i at_
    obtain rfl := Option.some.inj handled
    refine .goes (silent h there (by simp [at_]) (by simp [at_])) there ?_
    split
    · rename_i leader
      exact .leads at_ leader
    · exact .follows at_
  · rename_i at_
    split at handled
    · rename_i text refused
      obtain rfl := Option.some.inj handled
      exact .goes (silent h there (by simp [at_]) fun _ => ⟨_, refused⟩) there
        (.fails (Or.inl at_) (by simp) (by rintro (_ | _) <;> simp [Response.read]))
    · rename_i err other refused
      obtain rfl := Option.some.inj handled
      exact .goes (silent h there (by simp [at_]) fun _ => ⟨_, refused⟩) there
        (.fails (Or.inl at_) (by simp) (by rintro (_ | _) <;> simp [Response.read]))
    · rename_i command encoded
      obtain ⟨moved, advanced, rfl⟩ := Option.map_eq_some_iff.mp handled
      exact .proposes there at_ encoded advanced
  · rename_i at_
    have quiet := silent h there (by simp [at_]) (by simp [at_])
    dsimp only at handled
    split at handled
    · obtain rfl := Option.some.inj handled
      exact .goes quiet there (.fails (Or.inr (Or.inl at_)) (by simp)
        (by rintro (_ | _) <;> simp [Response.read]))
    · rename_i known
      split at handled
      · rename_i member
        obtain rfl := Option.some.inj handled
        exact .forwards there at_ (fun none => known (Or.inl none)) (fun own => known (Or.inr own))
          member
      · obtain rfl := Option.some.inj handled
        exact .goes quiet there (.fails (Or.inr (Or.inl at_)) (by simp)
          (by rintro (_ | _) <;> simp [Response.read]))
  · rename_i target at_
    obtain ⟨response, said, rfl⟩ := Option.map_eq_some_iff.mp handled
    obtain ⟨other, found, wrote⟩ := Option.bind_eq_some_iff.mp said
    exact .goes (silent h there (by simp [at_]) (by simp [at_])) there (.relays at_ found wrote)
  · rename_i entry at_
    obtain ⟨moved, advanced, rfl⟩ := Option.map_eq_some_iff.mp handled
    exact .applies there at_ advanced
  · rename_i entry at_
    have quiet := silent h there (by simp [at_]) (by simp [at_])
    split at handled
    · rename_i key asked
      have read : s' = s.put id h (.answered (.read ((s.machines h.node).get key))) := by
        split at handled
        · rename_i bytes found
          rw [found]
          exact (Option.some.inj handled).symm
        · rename_i missing
          rw [missing]
          exact (Option.some.inj handled).symm
      rw [read]
      exact .goes quiet there (.reads at_ asked)
    · contradiction
  · contradiction

/-- What a step of the loop does. -/
theorem loop_does {node : NodeId} {save : Bool} (looped : s.loop json members node save = some s') :
    Does json members s (.loop node save) s' := by
  unfold loop at looped
  split at looped
  · rename_i at_
    obtain ⟨moved, advanced, rfl⟩ := Option.map_eq_some_iff.mp looped
    exact .begins at_ advanced
  · obtain ⟨next, goes, looped⟩ := Option.bind_eq_some_iff.mp looped
    cases at_ : s.loops node with
    | compacting snapshot =>
      rw [at_] at goes looped
      obtain ⟨moved, advanced, rfl⟩ := Option.map_eq_some_iff.mp looped
      obtain rfl := Option.some.inj goes
      refine .compacts at_ ?_ advanced
      split
      · exact Or.inl rfl
      · exact Or.inr rfl
    | snapshotting =>
      rw [at_] at goes looped
      obtain rfl := Option.some.inj goes
      obtain rfl := Option.some.inj looped
      refine .turns (by simp [label, at_]) (by simp [at_]) fun snapshot same => ⟨at_, ?_⟩
      exact (Raft.LoopStage.compacting.inj same).symm
    | deciding =>
      rw [at_] at goes looped
      obtain rfl := Option.some.inj goes
      obtain rfl := Option.some.inj looped
      refine .turns (by simp [label, at_]) (by simp [at_]) fun snapshot same => ?_
      split at same <;> contradiction
    | waiting =>
      rw [at_] at goes looped
      obtain rfl := Option.some.inj goes
      obtain rfl := Option.some.inj looped
      exact .turns (by simp [label, at_]) (by simp [at_]) fun snapshot same => by contradiction
    | applying call => simp [at_, Raft.LoopStage.next] at goes
    | returned => simp [at_, Raft.LoopStage.next] at goes

/-- Nothing else is done. -/
theorem step_does {action : Action} (stepped : s.step json members action = some s') :
    Does json members s action s' := by
  cases action with
  | raft label =>
    simp only [step] at stepped
    split at stepped
    · rename_i background
      obtain ⟨moved, advanced, rfl⟩ := Option.map_eq_some_iff.mp stepped
      have kept : moved.handlers = s.handlers := by
        obtain ⟨traced, -, rest⟩ := Option.bind_eq_some_iff.mp advanced
        obtain ⟨machine, -, rfl⟩ := Option.map_eq_some_iff.mp rest
        rfl
      obtain ⟨node, event⟩ := label
      unfold notify
      split
      · rename_i crash
        obtain rfl : event = .crash := crash
        exact .crashes advanced
      · rename_i going
        split
        · rename_i none
          exact .happens background none going advanced
        · rename_i tag own
          dsimp only
          have same : moved.owner node tag = s.owner node tag := by rw [owner, owner, kept]
          cases waits : s.owner node tag with
          | none =>
            rw [same, waits, Option.bind_none]
            exact .hearsLoop own advanced waits
          | some id =>
            obtain ⟨h, there, -⟩ := owner_some waits
            rw [same, waits, Option.bind_some, kept, there, Option.map_some]
            exact .hears own advanced waits there
    · contradiction
  | receive node request =>
    simp only [step] at stepped
    split at stepped
    · rename_i member
      obtain rfl := Option.some.inj stepped
      exact .receives member
    · contradiction
  | handle id =>
    obtain ⟨h, there, handled⟩ := Option.bind_eq_some_iff.mp stepped
    exact handle_does there handled
  | abandon id =>
    obtain ⟨h, there, abandoned⟩ := Option.bind_eq_some_iff.mp stepped
    split at abandoned
    · rename_i target at_
      obtain rfl := Option.some.inj abandoned
      exact .goes rfl there (.fails (Or.inr (Or.inr ⟨target, at_⟩)) (by simp)
        (by rintro (_ | _) <;> simp [Response.read]))
    · contradiction
  | loop node save =>
    simp only [step] at stepped
    split at stepped
    · exact loop_does stepped
    · contradiction

/-- What a step of the cluster leaves alone, and what becomes of the node that takes it. -/
theorem advance_some {moved : Service} (advanced : s.advance json members label = some moved) :
    label.node ∈ members.ids ∧ moved.handlers = s.handlers ∧ moved.journal = s.journal ∧
      moved.loops = s.loops ∧ s.traced.step json.unmarshalMembership members label = some moved.traced ∧
      (∃ machine, machineAfter json (s.server label.node) (moved.server label.node)
        (s.machines label.node) label.event = some machine ∧
        moved.machines = Function.update s.machines label.node machine) ∧
      ∃ reaction, (s.server label.node).react json.unmarshalMembership (members.peers label.node)
        label.event = some reaction ∧
        moved.server = Function.update s.server label.node reaction.server := by
  obtain ⟨traced, stepped, rest⟩ := Option.bind_eq_some_iff.mp advanced
  obtain ⟨machine, applied, rfl⟩ := Option.map_eq_some_iff.mp rest
  obtain ⟨c, moved, rfl⟩ := Option.map_eq_some_iff.mp stepped
  obtain ⟨inside, net, reaction, -, reacted, rfl⟩ := Cluster.step_some moved
  exact ⟨inside, rfl, rfl, rfl, stepped, ⟨machine, applied, rfl⟩, reaction, reacted, rfl⟩

/-- Runs of the cluster in which only the sections of one call are taken. -/
abbrev Undisturbed (json : Json) (members : Members) (node : NodeId) (tag : Nat) (save : Bool) :
    Service → Service → Prop :=
  Reach (fun s label => s.advance json members label)
    fun _ label => ∃ applied, label = ⟨node, .step tag save applied⟩

/-- A section of `ApplyCommitted`, with the state machine after it. -/
theorem advance_section {node : NodeId} {tag : Nat} {save applied : Bool} {stage : Raft.ApplyStage}
    {turn : Raft.Turn} {machine : KVStateMachine} (member : node ∈ members.ids)
    (running : (s.server node).calls tag = some (.apply stage))
    (goes : Call.applyStep json.unmarshalMembership (s.server node).node save applied stage = some turn)
    (applies : ∀ after, machineAfter json (s.server node) after (s.machines node)
      (.step tag save applied) = some machine) :
    ∃ moved, Undisturbed json members node tag save s moved ∧
      (moved.server node).node = turn.node ∧ (moved.server node).calls tag = turn.call ∧
      moved.machines node = machine := by
  have reacts : (s.server node).react json.unmarshalMembership (members.peers node)
      (.step tag save applied) = some ((s.server node).resume tag turn) := by
    rw [Server.react, running]
    exact congrArg (Option.map _) goes
  have stepped : s.traced.cluster.step json.unmarshalMembership members ⟨node, .step tag save applied⟩ =
      some (s.traced.cluster.absorb node s.traced.cluster.net ((s.server node).resume tag turn)) := by
    rw [Cluster.step, if_pos member]
    exact congrArg (Option.map _) reacts
  have enabled : (s.advance json members ⟨node, .step tag save applied⟩).isSome = true := by
    simp only [advance, Traced.step, stepped, Option.map_some, Option.bind_some, applies, Option.isSome_some]
  obtain ⟨moved, advanced⟩ := Option.isSome_iff_exists.mp enabled
  obtain ⟨-, -, -, -, -, ⟨other, same, machines⟩, reaction, reacted, servers⟩ := advance_some advanced
  obtain rfl := Option.some.inj ((applies _).symm.trans same)
  obtain rfl := Option.some.inj (reacts.symm.trans reacted)
  have server : moved.server node = ((s.server node).resume tag turn).server := by
    rw [servers]
    exact Function.update_self ..
  refine ⟨moved, Reach.start.next ⟨_, rfl⟩ advanced, congrArg Server.node server, ?_, ?_⟩
  · rw [server]
    exact Function.update_self ..
  · rw [machines]
    exact Function.update_self ..

/-- `ApplyCommitted` as one function is what the sections of such a call do when nothing comes between
them. -/
theorem applyCommitted_sections {node : NodeId} {tag : Nat} {save : Bool} {rounds : Nat}
    {after : RaftNode} {machine : KVStateMachine} {err : Option Store.ApplyError}
    (member : node ∈ members.ids) (running : (s.server node).calls tag = some (.apply .fetching))
    (done : Store.applyCommitted json save rounds (s.server node).node (s.machines node) =
      some (after, machine, err)) :
    ∃ last, Undisturbed json members node tag save s last ∧ (last.server node).node = after ∧
      last.machines node = machine ∧ (last.server node).calls tag = none := by
  induction rounds generalizing s with
  | zero => contradiction
  | succ rounds ih =>
    rw [Store.applyCommitted] at done
    obtain ⟨held, fetch, node₁, call₁, machine₁⟩ :=
      advance_section member running (rfl : Call.applyStep _ _ save false _ = _) fun _ => rfl
    cases fetched : (s.server node).node.nextCommittedEntry with
    | none =>
      rw [fetched] at done node₁ call₁
      cases done
      exact ⟨held, fetch, node₁, machine₁, call₁⟩
    | some entry =>
      rw [fetched] at done node₁ call₁
      dsimp only at done node₁ call₁
      rw [← node₁, ← machine₁] at done
      -- the lock was given back; what the next section does depends on the entry
      cases decoded : decodeMembershipChange json.unmarshalMembership entry.command with
      | none =>
        rw [decoded] at done
        dsimp only at done
        cases applied : (held.machines node).apply json entry with
        | error refused =>
          rw [applied] at done
          cases done
          obtain ⟨last, hand, node₂, call₂, machine₂⟩ :=
            advance_section member call₁ (rfl : Call.applyStep _ _ save false _ = _) fun _ => rfl
          rw [decoded] at node₂ call₂
          exact ⟨last, fetch.trans hand, node₂, machine₂, call₂⟩
        | ok taken =>
          rw [applied] at done
          have succeeds : ∀ server, machineAfter json (held.server node) server (held.machines node)
              (.step tag save true) = some taken := fun _ => by
            simp only [machineAfter, call₁, decoded, applied, Except.toOption]
          obtain ⟨given, hand, node₂, call₂, machine₂⟩ := advance_section member call₁ rfl succeeds
          rw [decoded] at node₂ call₂
          obtain ⟨marked, mark, node₃, call₃, machine₃⟩ :=
            advance_section member call₂ (rfl : Call.applyStep _ _ save false _ = _) fun _ => rfl
          obtain ⟨last, rest, ends⟩ := ih call₃ (by rw [node₃, node₂, machine₃, machine₂]; exact done)
          exact ⟨last, ((fetch.trans hand).trans mark).trans rest, ends⟩
      | some read =>
        rw [decoded] at done
        obtain ⟨changed, hand, node₂, call₂, machine₂⟩ :=
          advance_section member call₁ (rfl : Call.applyStep _ _ save false _ = _) fun _ => rfl
        have run := fetch.trans hand
        rw [decoded] at node₂ call₂
        cases read with
        | error refused =>
          cases done
          exact ⟨changed, run, node₂, machine₂, call₂⟩
        | ok change =>
          dsimp only at done node₂ call₂
          split at done
          · rename_i result failure out
            rw [out] at node₂ call₂
            cases done
            exact ⟨changed, run, node₂, machine₂, call₂⟩
          · rename_i result out
            rw [out] at node₂ call₂
            obtain ⟨last, rest, ends⟩ := ih call₂ (by rw [node₂, machine₂]; exact done)
            exact ⟨last, run.trans rest, ends⟩

/-- What a handler's move leaves in the list. -/
theorem put_handlers {id i : Nat} {h g : Handler} {stage : Stage}
    (found : (s.put id h stage).handlers[i]? = some g) :
    i = id ∧ g = { h with stage } ∨ i ≠ id ∧ s.handlers[i]? = some g := by
  replace found : (s.handlers.set id { h with stage })[i]? = some g := found
  rw [List.getElem?_set] at found
  split at found
  · rename_i same
    split at found
    · exact Or.inl ⟨same.symm, (Option.some.inj found).symm⟩
    · contradiction
  · rename_i other
    exact Or.inr ⟨Ne.symm other, found⟩

/-- What a new request leaves in the list. -/
theorem receive_handlers {node : NodeId} {origin i : Nat} {request : Request} {g : Handler}
    (found : (s.receive node origin request).handlers[i]? = some g) :
    s.handlers[i]? = some g ∨
      i = s.handlers.length ∧ g = ⟨node, origin, request, request.enter⟩ := by
  replace found : (s.handlers ++ [⟨node, origin, request, request.enter⟩])[i]? = some g := found
  rw [List.getElem?_append] at found
  split at found
  · exact Or.inl found
  · rename_i high
    have last := (List.getElem?_eq_some_iff.mp found).1
    rw [List.length_singleton] at last
    have here : i = s.handlers.length := by omega
    rw [here, Nat.sub_self] at found
    exact Or.inr ⟨here, (Option.some.inj found).symm⟩

/-- What a crash leaves in the list. -/
theorem lose_handlers {node : NodeId} {i : Nat} {g : Handler}
    (found : (s.handlers.map (Handler.lose node))[i]? = some g) :
    ∃ h, s.handlers[i]? = some h ∧ g = h.lose node := by
  rw [List.getElem?_map] at found
  obtain ⟨h, there, same⟩ := Option.map_eq_some_iff.mp found
  exact ⟨h, there, same.symm⟩

/-- A handler that has just read its request waits for no call. -/
theorem enter_call (request : Request) : request.enter.call = none := by
  unfold Request.enter
  cases request.refusal with
  | some response => rfl
  | none => cases request <;> rfl

/-- A handler moves on its own to a stage without a call. -/
theorem Goes.call {h : Handler} {stage : Stage} (goes : Goes s h stage) : stage.call = none := by
  cases goes <;> rfl

/-- A handler with an error of its proposal waits for no call. -/
theorem failed_call (request : Request) (err : Option Raft.RaftError) :
    (request.failed err).call = none := by
  unfold Request.failed
  split <;> rfl

/-- A handler whose call has returned waits for no other one. -/
theorem resume_call {h : Handler} {ended : Ending} {tag : Nat}
    (waits : (h.resume ended).call = some tag) : h.stage.call = some tag := by
  unfold Handler.resume at waits
  split at waits
  · contradiction
  · rw [failed_call] at waits
    contradiction
  · split at waits <;> contradiction
  · contradiction
  · exact waits

/-- A step of a process lowers no number, and touches no call but the one it is about, the one it
starts, and all of them in a crash. -/
theorem react_calls {unmarshal : Bytes → Option MembershipCommand} {peers : List NodeId} {sv : Server}
    {event : Event} {reaction : Reaction} (reacted : sv.react unmarshal peers event = some reaction) :
    sv.nextTag ≤ reaction.server.nextTag ∧ ∀ position, event.call = some position ∨
      (∃ kind, event = .start kind ∧ position = sv.nextTag) ∨
      (event = .crash ∧ reaction.server.calls position = none) ∨
      reaction.server.calls position = sv.calls position := by
  have updated : ∀ (tag : Nat) (next : Option Raft.Call) (position : Nat), some tag = some position ∨
      (∃ kind, event = .start kind ∧ position = sv.nextTag) ∨
      (event = .crash ∧ reaction.server.calls position = none) ∨
      Function.update sv.calls tag next position = sv.calls position := by
    intro tag next position
    by_cases here : tag = position
    · exact Or.inl (congrArg some here)
    · exact Or.inr (Or.inr (Or.inr (Function.update_of_ne (Ne.symm here) _ _)))
  cases Server.react_cases reacted with
  | start kind =>
    refine ⟨Nat.le_succ _, fun position => Or.inr ?_⟩
    by_cases here : position = sv.nextTag
    · exact Or.inl ⟨kind, rfl, here⟩
    · exact Or.inr (Or.inr (Function.update_of_ne here _ _))
  | step tag save applied call turn _ _ =>
    exact ⟨le_refl _, updated tag turn.call⟩
  | reply packet save call turn _ _ _ =>
    exact ⟨le_refl _, updated packet.tag turn.call⟩
  | failure tag peer call next _ _ =>
    exact ⟨le_refl _, updated tag (some next)⟩
  | cancel tag call observed _ _ =>
    exact ⟨le_refl _, updated tag none⟩
  | serve packet save answer _ _ =>
    exact ⟨le_refl _, fun position => Or.inr (Or.inr (Or.inr rfl))⟩
  | compact snapshot save =>
    exact ⟨le_refl _, fun position => Or.inr (Or.inr (Or.inr rfl))⟩
  | crash =>
    exact ⟨le_refl _, fun position => Or.inr (Or.inr (Or.inl ⟨rfl, rfl⟩))⟩

/-- A step of the cluster lowers no number. -/
theorem advance_tags {moved : Service} (advanced : s.advance json members label = some moved)
    (node : NodeId) : (s.server node).nextTag ≤ (moved.server node).nextTag := by
  obtain ⟨-, -, -, -, -, -, reaction, reacted, same⟩ := advance_some advanced
  rw [same]
  by_cases here : node = label.node
  · rw [here, Function.update_self]
    exact (react_calls reacted).1
  · rw [Function.update_of_ne here]

/-- A call that starts takes the next number. -/
theorem start_server {moved : Service} {node : NodeId} {kind : Raft.Start}
    (advanced : s.advance json members ⟨node, .start kind⟩ = some moved) :
    moved.server node = { s.server node with
      calls := Function.update (s.server node).calls (s.server node).nextTag (some kind.call)
      nextTag := (s.server node).nextTag + 1 } := by
  obtain ⟨-, -, -, -, -, -, reaction, reacted, same⟩ := advance_some advanced
  obtain rfl := Option.some.inj reacted
  rw [same, Function.update_self]

/-- Handlers wait for calls that were started, and no two of a node for the same one. -/
structure Tagged (s : Service) : Prop where
  /-- The call was started. -/
  given : ∀ (id : Nat) (h : Handler) (tag : Nat), s.handlers[id]? = some h →
    h.stage.call = some tag → tag < (s.server h.node).nextTag
  /-- Nobody else waits for it. -/
  apart : ∀ (left right : Nat) (h k : Handler) (tag : Nat), s.handlers[left]? = some h →
    s.handlers[right]? = some k → h.node = k.node → h.stage.call = some tag →
    k.stage.call = some tag → left = right

/-- Handlers that wait for what they waited for. -/
theorem Tagged.keep (tagged : Tagged s)
    (tags : ∀ node, (s.server node).nextTag ≤ (s'.server node).nextTag)
    (kept : ∀ (i : Nat) (g : Handler) (tag : Nat), s'.handlers[i]? = some g →
      g.stage.call = some tag →
      ∃ h, s.handlers[i]? = some h ∧ h.node = g.node ∧ h.stage.call = some tag) : Tagged s' where
  given i g tag found waits := by
    obtain ⟨h, there, node, call⟩ := kept i g tag found waits
    have given := tagged.given i h tag there call
    rw [node] at given
    exact lt_of_lt_of_le given (tags g.node)
  apart left right g k tag atLeft atRight same leftWaits rightWaits := by
    obtain ⟨h, thereLeft, nodeLeft, callLeft⟩ := kept left g tag atLeft leftWaits
    obtain ⟨h', thereRight, nodeRight, callRight⟩ := kept right k tag atRight rightWaits
    exact tagged.apart left right h h' tag thereLeft thereRight
      (nodeLeft.trans (same.trans nodeRight.symm)) callLeft callRight

/-- A handler that starts a call waits for that one. -/
theorem Tagged.start (tagged : Tagged s) {moved : Service} {id : Nat} {h : Handler} {kind : Raft.Start}
    {stage : Stage} (advanced : s.advance json members ⟨h.node, .start kind⟩ = some moved)
    (waits : stage.call = some (s.server h.node).nextTag) : Tagged (moved.put id h stage) := by
  have kept := (advance_some advanced).2.1
  have fresh := congrArg Server.nextTag (start_server advanced)
  have tags := advance_tags advanced
  -- the number was not given before, so no other handler waits for it
  have old : ∀ (i : Nat) (g : Handler) (tag : Nat), i ≠ id → moved.handlers[i]? = some g →
      g.stage.call = some tag → s.handlers[i]? = some g ∧ tag < (s.server g.node).nextTag := by
    intro i g tag _ found call
    rw [kept] at found
    exact ⟨found, tagged.given i g tag found call⟩
  refine ⟨fun i g tag found call => ?_, fun left right g k tag atLeft atRight same leftCall rightCall => ?_⟩
  · rcases put_handlers found with ⟨-, rfl⟩ | ⟨other, found⟩
    · obtain rfl : (s.server h.node).nextTag = tag := Option.some.inj (waits.symm.trans call)
      show _ < (moved.server h.node).nextTag
      rw [fresh]
      exact Nat.lt_succ_self _
    · exact lt_of_lt_of_le (old i g tag other found call).2 (tags g.node)
  · rcases put_handlers atLeft with ⟨rfl, rfl⟩ | ⟨leftOther, foundLeft⟩
    · rcases put_handlers atRight with ⟨rfl, -⟩ | ⟨rightOther, foundRight⟩
      · rfl
      · have low := (old right k tag rightOther foundRight rightCall).2
        obtain rfl : (s.server h.node).nextTag = tag := Option.some.inj (waits.symm.trans leftCall)
        rw [← show h.node = k.node from same] at low
        exact absurd low (lt_irrefl _)
    · have left_ := old left g tag leftOther foundLeft leftCall
      rcases put_handlers atRight with ⟨rfl, rfl⟩ | ⟨rightOther, foundRight⟩
      · obtain rfl : (s.server h.node).nextTag = tag := Option.some.inj (waits.symm.trans rightCall)
        have low := left_.2
        rw [show g.node = h.node from same] at low
        exact absurd low (lt_irrefl _)
      · exact tagged.apart left right g k tag left_.1 (old right k tag rightOther foundRight rightCall).1
          same leftCall rightCall

/-- What a handler hears leaves the cluster alone, and moves at most the handler. -/
theorem hear_some (s : Service) (id : Nat) (h : Handler) (before : Server) (tag : Nat)
    (shown : List Record) :
    (s.hear id h before tag shown).traced = s.traced ∧
      (s.hear id h before tag shown).machines = s.machines ∧
      (s.hear id h before tag shown).loops = s.loops ∧
      (s.hear id h before tag shown).handlers.length = s.handlers.length ∧
      ∀ i g, (s.hear id h before tag shown).handlers[i]? = some g →
        (i = id ∧ ∃ ended, ending before (s.server h.node) tag shown = some ended ∧
          g = { h with stage := h.resume ended }) ∨
        s.handlers[i]? = some g ∧
          (i = id → ending before (s.server h.node) tag shown = none) := by
  unfold hear
  dsimp only
  split
  · rename_i running
    exact ⟨rfl, rfl, rfl, rfl, fun i g found => Or.inr ⟨found, fun _ => running⟩⟩
  · rename_i ended returned
    refine ⟨rfl, rfl, rfl, List.length_set, fun i g found => ?_⟩
    rcases put_handlers found with ⟨here, same⟩ | ⟨elsewhere, there⟩
    · exact Or.inl ⟨here, ended, returned, same⟩
    · exact Or.inr ⟨there, fun here => absurd here elsewhere⟩

/-- What the loop hears leaves everything but the loop alone. -/
theorem hearLoop_some (s : Service) (node : NodeId) (before : Server) (tag : Nat)
    (shown : List Record) : ∃ loops, s.hearLoop node before tag shown = { s with loops } ∧
      ∀ other, loops other = s.loops other ∨ ∃ failed, loops other = .back failed := by
  unfold hearLoop
  split
  · split
    · exact ⟨s.loops, rfl, fun _ => Or.inl rfl⟩
    · refine ⟨_, rfl, fun other => ?_⟩
      by_cases here : other = node
      · rw [here, Function.update_self]
        exact Or.inr ⟨_, rfl⟩
      · exact Or.inl (Function.update_of_ne here _ _)
  · exact ⟨s.loops, rfl, fun _ => Or.inl rfl⟩

/-- Every step. -/
theorem Tagged.step {action : Action} (tagged : Tagged s) (does : Does json members s action s') :
    Tagged s' := by
  cases does with
  | @goes action id h stage silent there goes =>
    refine tagged.keep (fun _ => le_refl _) fun i g tag found waits => ?_
    rcases put_handlers found with ⟨-, rfl⟩ | ⟨-, old⟩
    · exact absurd waits (by rw [goes.call]; simp)
    · exact ⟨g, old, rfl, waits⟩
  | proposes there at_ encoded advanced => exact tagged.start advanced rfl
  | applies there at_ advanced => exact tagged.start advanced rfl
  | @forwards id h there at_ known other member =>
    refine tagged.keep (fun _ => le_refl _) fun i g tag found waits => ?_
    rcases receive_handlers found with found | ⟨-, rfl⟩
    · rcases put_handlers found with ⟨-, rfl⟩ | ⟨-, old⟩
      · contradiction
      · exact ⟨g, old, rfl, waits⟩
    · exact absurd waits (by rw [enter_call]; simp)
  | receives member =>
    refine tagged.keep (fun _ => le_refl _) fun i g tag found waits => ?_
    rcases receive_handlers found with old | ⟨-, rfl⟩
    · exact ⟨g, old, rfl, waits⟩
    · exact absurd waits (by rw [enter_call]; simp)
  | @hears label moved id tag h own advanced waits there =>
    have kept := (advance_some advanced).2.1
    obtain ⟨traced, -, -, -, handlers⟩ := moved.hear_some id h (s.server label.node) tag
      (moved.traced.cluster.observed.drop s.traced.cluster.observed.length)
    have tags : ∀ node, (s.server node).nextTag ≤ (moved.server node).nextTag := advance_tags advanced
    refine tagged.keep (fun node => ?_) fun i g found at_ call => ?_
    · show _ ≤ (Server.nextTag (Cluster.servers (Traced.cluster _) node))
      rw [traced]
      exact tags node
    · rcases handlers i g at_ with ⟨rfl, ended, -, rfl⟩ | ⟨old, -⟩
      · exact ⟨h, there, rfl, resume_call call⟩
      · rw [kept] at old
        exact ⟨g, old, rfl, call⟩
  | @hearsLoop label moved tag own advanced alone =>
    have kept := (advance_some advanced).2.1
    obtain ⟨loops, same, -⟩ := moved.hearLoop_some label.node (s.server label.node) tag
      (moved.traced.cluster.observed.drop s.traced.cluster.observed.length)
    rw [same]
    refine tagged.keep (fun node => (advance_tags advanced node :))
      fun i g found at_ call => ⟨g, ?_, rfl, call⟩
    rw [← kept]
    exact at_
  | happens background other going advanced =>
    refine tagged.keep (fun node => (advance_tags advanced node :))
      fun i g found at_ call => ⟨g, ?_, rfl, call⟩
    rw [← (advance_some advanced).2.1]
    exact at_
  | @crashes node moved advanced =>
    refine tagged.keep (fun node => (advance_tags advanced node :)) fun i g found at_ call => ?_
    obtain ⟨h, there, rfl⟩ := lose_handlers at_
    rw [(advance_some advanced).2.1] at there
    unfold Handler.lose at call ⊢
    split at call
    · contradiction
    · rename_i stays
      rw [if_neg stays]
      exact ⟨h, there, rfl, call⟩
  | turns silent from_ taken =>
    exact tagged.keep (fun _ => le_refl _) fun i g found at_ call => ⟨g, at_, rfl, call⟩
  | begins at_ advanced =>
    refine tagged.keep (fun node => (advance_tags advanced node :))
      fun i g found there call => ⟨g, ?_, rfl, call⟩
    rw [← (advance_some advanced).2.1]
    exact there
  | compacts at_ next advanced =>
    refine tagged.keep (fun node => (advance_tags advanced node :))
      fun i g found there call => ⟨g, ?_, rfl, call⟩
    rw [← (advance_some advanced).2.1]
    exact there

/-- What a step does to the cluster, the state machines and the loops, whoever takes it. -/
structure Moves (json : Json) (members : Members) (s : Service) (action : Action) (s' : Service) :
    Prop where
  /-- Without a step of the cluster, no node and no state machine changes. -/
  still : s.label json action = none → s'.traced = s.traced ∧ s'.machines = s.machines
  /-- A step of the cluster is made with the state machine of its node. -/
  moved : ∀ label, s.label json action = some label → ∃ moved,
    s.advance json members label = some moved ∧ s'.traced = moved.traced ∧ s'.machines = moved.machines
  /-- Only the loop compacts, with the snapshot it has taken. -/
  compacts : ∀ label snapshot save, s.label json action = some label →
    label.event = .compact snapshot save → s.loops label.node = .compacting snapshot
  /-- A loop has a snapshot while its node neither compacts nor restarts, or takes one now. -/
  holds : ∀ node snapshot, s'.loops node = .compacting snapshot →
    (s.loops node = .compacting snapshot ∧ ∀ label, s.label json action = some label →
      label.node = node → label.event ≠ .crash ∧ ∀ bytes save, label.event ≠ .compact bytes save) ∨
    s.label json action = none ∧ (∃ save, action = .loop node save) ∧ s.loops node = .snapshotting ∧
      snapshot = (s.machines node).snapshot json

/-- A step with the label of one that leaves the loops alone. -/
theorem Moves.of_advance {action : Action} {moved : Service}
    (own : s.label json action = some label) (advanced : s.advance json members label = some moved)
    (going : label.event ≠ .crash) (other : ∀ snapshot save, label.event ≠ .compact snapshot save)
    (traced : s'.traced = moved.traced) (machines : s'.machines = moved.machines)
    (loops : ∀ node snapshot, s'.loops node = .compacting snapshot →
      s.loops node = .compacting snapshot) : Moves json members s action s' where
  still none := by
    rw [own] at none
    contradiction
  moved found same := by
    obtain rfl := Option.some.inj (own.symm.trans same)
    exact ⟨moved, advanced, traced, machines⟩
  compacts found snapshot save same event := by
    obtain rfl := Option.some.inj (own.symm.trans same)
    exact absurd event (other snapshot save)
  holds node snapshot at_ := by
    refine Or.inl ⟨loops node snapshot at_, fun found same _ => ?_⟩
    obtain rfl := Option.some.inj (own.symm.trans same)
    exact ⟨going, other⟩

/-- A step that changes handlers and the journal only. -/
theorem Moves.of_still {action : Action} (silent : s.label json action = none)
    (traced : s'.traced = s.traced) (machines : s'.machines = s.machines)
    (loops : s'.loops = s.loops) : Moves json members s action s' where
  still _ := ⟨traced, machines⟩
  moved found same := by
    rw [silent] at same
    contradiction
  compacts found snapshot save same := by
    rw [silent] at same
    contradiction
  holds node snapshot at_ := by
    rw [loops] at at_
    refine Or.inl ⟨at_, fun found same => ?_⟩
    rw [silent] at same
    contradiction

/-- A loop that has a snapshot after one of the loops moved. -/
theorem compacting_updated {loops : NodeId → LoopStage} {node other : NodeId} {stage : LoopStage}
    {snapshot : Bytes} (at_ : Function.update loops node stage other = .compacting snapshot) :
    other = node ∧ stage = .compacting snapshot ∨ other ≠ node ∧ loops other = .compacting snapshot := by
  by_cases here : other = node
  · rw [here, Function.update_self] at at_
    exact Or.inl ⟨here, at_⟩
  · rw [Function.update_of_ne here] at at_
    exact Or.inr ⟨here, at_⟩

/-- Every step. -/
theorem Does.moves {action : Action} (does : Does json members s action s') :
    Moves json members s action s' := by
  cases does with
  | goes silent there goes => exact .of_still silent rfl rfl rfl
  | @proposes id h command moved there at_ encoded advanced =>
    have own : s.label json (.handle id) = some ⟨h.node, .start (.propose command)⟩ := by
      simp [label, there, at_, encoded, Except.toOption]
    refine .of_advance own advanced (by simp) (by simp) rfl rfl fun node snapshot same => ?_
    rw [← (advance_some advanced).2.2.2.1]
    exact same
  | @applies id h entry moved there at_ advanced =>
    have own : s.label json (.handle id) = some ⟨h.node, .start .apply⟩ := by
      simp [label, there, at_]
    refine .of_advance own advanced (by simp) (by simp) rfl rfl fun node snapshot same => ?_
    rw [← (advance_some advanced).2.2.2.1]
    exact same
  | @forwards id h there at_ known other member =>
    exact .of_still (by simp [label, there, at_]) rfl rfl rfl
  | receives member => exact .of_still rfl rfl rfl rfl
  | @hears found moved id tag h own advanced waits there =>
    obtain ⟨traced, machines, loops, -⟩ := moved.hear_some id h (s.server found.node) tag
      (moved.traced.cluster.observed.drop s.traced.cluster.observed.length)
    refine .of_advance rfl advanced (fun crash => ?_) (fun snapshot save compact => ?_) traced machines
      fun node snapshot same => ?_
    · rw [crash] at own
      contradiction
    · rw [compact] at own
      contradiction
    · rw [loops, (advance_some advanced).2.2.2.1] at same
      exact same
  | @hearsLoop found moved tag own advanced alone =>
    obtain ⟨loops, shape, next⟩ := moved.hearLoop_some found.node (s.server found.node) tag
      (moved.traced.cluster.observed.drop s.traced.cluster.observed.length)
    rw [shape]
    refine .of_advance rfl advanced (fun crash => ?_) (fun snapshot save compact => ?_) rfl rfl
      fun node snapshot same => ?_
    · rw [crash] at own
      contradiction
    · rw [compact] at own
      contradiction
    · rw [← (advance_some advanced).2.2.2.1]
      rcases next node with kept | ⟨failed, other⟩
      · exact kept.symm.trans same
      · rw [show loops node = .compacting snapshot from same] at other
        cases failed <;> contradiction
  | @happens found moved background other going advanced =>
    refine .of_advance rfl advanced going (fun snapshot save compact => ?_) rfl rfl
      fun node snapshot same => ?_
    · rw [compact] at background
      contradiction
    · rw [← (advance_some advanced).2.2.2.1]
      exact same
  | @crashes node moved advanced =>
    refine ⟨fun none => by contradiction, fun found same => ?_, fun found snapshot save same event => ?_,
      fun other snapshot at_ => ?_⟩
    · obtain rfl := Option.some.inj same
      exact ⟨moved, advanced, rfl, rfl⟩
    · obtain rfl := Option.some.inj same
      contradiction
    · rcases compacting_updated at_ with ⟨-, same⟩ | ⟨elsewhere, at_⟩
      · contradiction
      · rw [(advance_some advanced).2.2.2.1] at at_
        refine Or.inl ⟨at_, fun found same there => ?_⟩
        obtain rfl := Option.some.inj same
        exact absurd there.symm elsewhere
  | @turns node save stage silent from_ taken =>
    refine ⟨fun _ => ⟨rfl, rfl⟩, fun found same => ?_, fun found snapshot save same => ?_,
      fun other snapshot at_ => ?_⟩
    · rw [silent] at same
      contradiction
    · rw [silent] at same
      contradiction
    · rcases compacting_updated at_ with ⟨rfl, taking⟩ | ⟨-, at_⟩
      · obtain ⟨snapshotting, bytes⟩ := taken snapshot taking
        exact Or.inr ⟨silent, ⟨save, rfl⟩, snapshotting, bytes⟩
      · refine Or.inl ⟨at_, fun found same => ?_⟩
        rw [silent] at same
        contradiction
  | @begins node save moved at_ advanced =>
    have own : s.label json (.loop node save) = some ⟨node, .start .apply⟩ := by simp [label, at_]
    refine .of_advance own advanced (by simp) (by simp) rfl rfl fun other snapshot same => ?_
    rcases compacting_updated same with ⟨-, same⟩ | ⟨-, same⟩
    · contradiction
    · rwa [(advance_some advanced).2.2.2.1] at same
  | @compacts node save snapshot moved stage at_ next advanced =>
    have own : s.label json (.loop node save) = some ⟨node, .compact snapshot save⟩ := by
      simp [label, at_]
    refine ⟨fun none => ?_, fun found same => ?_, fun found bytes saved same event => ?_,
      fun other bytes there => ?_⟩
    · rw [own] at none
      contradiction
    · obtain rfl := Option.some.inj (own.symm.trans same)
      exact ⟨moved, advanced, rfl, rfl⟩
    · obtain rfl := Option.some.inj (own.symm.trans same)
      obtain ⟨rfl, -⟩ := Event.compact.inj event
      exact at_
    · rcases compacting_updated there with ⟨-, there⟩ | ⟨elsewhere, there⟩
      · rw [there] at next
        simp at next
      · rw [(advance_some advanced).2.2.2.1] at there
        refine Or.inl ⟨there, fun found same node_ => ?_⟩
        obtain rfl := Option.some.inj (own.symm.trans same)
        exact absurd node_.symm elsewhere

end

end Service

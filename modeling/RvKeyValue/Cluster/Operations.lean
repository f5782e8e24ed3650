import RvKeyValue.Cluster.Steady
import RvKeyValue.Node.Operation

/-!
# The operations a cluster runs

A step of a cluster moves at most one record, and moves it by one operation of `raft/node.go` or
`raft/election.go`, or builds it again from its store. So what every operation keeps of a record is
kept by every step between two restarts.
-/

namespace Raft

/-- The operation in the next section of a call. -/
def Call.operation : Call → Option Operation
  | election .preVoteWon => some .becomeCandidate
  | election (.winning term) => some (.promoteCandidate term)
  | propose (.appending command) => some (.appendLocal command)
  | replicate _ .ensuring => some .ensureLeaderProgress
  | replicate _ (.recording _ peer req true) =>
    some (.recordReplicationSuccess peer (Call.matchIndexOf req))
  | replicate _ (.recording _ peer _ false) => some (.recordReplicationFailure peer)
  | apply (.holding entry) => some (.applyEntry entry)
  | apply (.marking entry) => some (.markApplied entry.index)
  | _ => none

/-- The operation a message is handled by: a request by its handler, a response by the check of its
term. -/
def Body.operation : Body → Option Operation
  | preVoteRequest _ => none
  | voteRequest req => some (.requestVote req)
  | appendRequest req => some (.handleAppendEntries req)
  | preVoteResponse _ resp => some (.stepDownForHigherTerm resp.term)
  | voteResponse _ resp => some (.stepDownForHigherTerm resp.term)
  | appendResponse _ resp => some (.stepDownForHigherTerm resp.term)

/-- The operation of an event. -/
def Server.operation (sv : Server) : Event → Option Operation
  | .step tag _ _ => (sv.calls tag).bind Call.operation
  | .reply packet _ => packet.body.operation
  | .serve packet _ => packet.body.operation
  | .compact snapshot _ => some (.compact snapshot)
  | _ => none

/-- Whether the `Save` of an event succeeds. -/
def Event.save : Event → Bool
  | step _ save _ => save
  | reply _ save => save
  | serve _ save => save
  | compact _ save => save
  | _ => true

/-- The record after an operation, if there is one. -/
def RaftNode.performs (unmarshal : Bytes → Option MembershipCommand) (n : RaftNode) (save : Bool) :
    Option Operation → RaftNode
  | none => n
  | some op => n.perform unmarshal save op

section

variable {unmarshal : Bytes → Option MembershipCommand} {n : RaftNode}

/-- `replicateOnce` returns with the record it has. -/
theorem Call.replicated_node (n : RaftNode) (owner : Option LogEntry) :
    (Call.replicated n owner).node = n := by
  cases owner <;> rfl

/-- So it does with an error. -/
theorem Call.replicateFailed_node (n : RaftNode) (err : Option RaftError)
    (owner : Option LogEntry) : (Call.replicateFailed n err owner).node = n := by
  cases owner <;> rfl

/-- A section runs the operation it stands before. -/
theorem Call.step_node {save applied : Bool} {call : Call} {turn : Turn}
    (stepped : call.step unmarshal n save applied = some turn) :
    turn.node = n.performs unmarshal save call.operation := by
  cases call with
  | election stage =>
    simp only [Call.step, Call.electionStep] at stepped
    split at stepped <;> cases stepped
    all_goals
      simp only [Call.campaign]
      repeat' split
      all_goals rfl
  | propose stage =>
    simp only [Call.step, Call.proposeStep] at stepped
    split at stepped <;> cases stepped
    all_goals
      repeat' split
      all_goals rfl
  | replicate owner stage =>
    simp only [Call.step, Call.replicateStep] at stepped
    split at stepped
    case h_9 =>
      split at stepped <;> cases stepped
      split <;> rfl
    all_goals cases stepped
    all_goals
      repeat' split
      all_goals first
        | rfl
        | exact Call.replicated_node _ _
        | exact Call.replicateFailed_node _ _ _
  | apply stage =>
    simp only [Call.step, Call.applyStep] at stepped
    split at stepped <;> cases stepped
    · split <;> rfl
    · rename_i entry
      show _ = n.applyEntry unmarshal save entry
      unfold RaftNode.applyEntry
      split <;> simp_all
    · rfl

/-- A response is first checked for its term. -/
theorem Call.reply_node {save : Bool} {peer : NodeId} {call : Call} {body : Body} {turn : Turn}
    (replied : call.reply n save peer body = some turn) :
    turn.node = n.performs unmarshal save body.operation := by
  unfold Call.reply at replied
  split at replied
  all_goals try split at replied
  all_goals cases replied
  · repeat' split
    all_goals rfl
  · split <;> rfl
  · repeat' split
    all_goals first
      | rfl
      | exact Call.replicated_node _ _
      | exact Call.replicateFailed_node _ _ _

/-- A request is handled by its operation. -/
theorem Server.handle_node {save : Bool} {body : Body} {answer : RaftNode × Option Body}
    (handled : Server.handle n save body = some answer) :
    answer.1 = n.performs unmarshal save body.operation := by
  cases body with
  | preVoteRequest req =>
    obtain rfl := Option.some.inj handled
    rfl
  | voteRequest req =>
    obtain rfl := Option.some.inj handled
    rfl
  | appendRequest req =>
    obtain rfl := Option.some.inj handled
    rfl
  | _ => contradiction

/-- A process that does not restart moves its record by the operation of the event. -/
theorem Server.react_node {sv : Server} {peers : List NodeId} {event : Event} {reaction : Reaction}
    (running : event ≠ .crash) (reacted : sv.react unmarshal peers event = some reaction) :
    reaction.server.node = sv.node.performs unmarshal event.save (sv.operation event) := by
  cases Server.react_cases reacted with
  | start kind => rfl
  | step tag save applied call turn ran turned =>
    simp only [Server.operation, ran]
    exact Call.step_node turned
  | reply packet save call turn own ran turned => exact Call.reply_node turned
  | failure tag peer call next ran failed => rfl
  | cancel tag call observed ran cancelled => rfl
  | serve packet save answer here handled => exact Server.handle_node handled
  | compact snapshot save => rfl
  | crash => exact absurd rfl running

/-- The requests of a process after a step, and those it sent, are requests it had, apart from one
that it has built. -/
structure Server.Asks (sv : Server) (reaction : Reaction) : Prop where
  /-- Requests are kept or built. -/
  calls : ∀ tag call, reaction.server.calls tag = some call → ∀ request ∈ call.requests,
    (∃ before, sv.calls tag = some before ∧ request ∈ before.requests) ∨
      sv.node.buildAppendEntries request.1 = .ok request.2
  /-- Requests that were built are sent. -/
  sent : ∀ packet ∈ reaction.sent, ∀ req, packet.body = .appendRequest req →
    ∃ tag call peer, sv.calls tag = some call ∧ (peer, req) ∈ call.requests

/-- A step in which no request is made. -/
theorem Server.Asks.quiet {sv : Server} {reaction : Reaction}
    (calls : ∀ tag call, reaction.server.calls tag = some call → call.requests ≠ [] →
      sv.calls tag = some call)
    (sent : ∀ packet ∈ reaction.sent, ∀ req, packet.body ≠ .appendRequest req) :
    sv.Asks reaction where
  calls tag call found _ listed :=
    Or.inl ⟨call, calls tag call found (List.ne_nil_of_mem listed), listed⟩
  sent packet listed req same := absurd same (sent packet listed req)

/-- A section of a call. -/
theorem Server.Asks.turn {sv : Server} {tag : Nat} {call : Call} {turn : Turn}
    (running : sv.calls tag = some call) (shape : Shape sv.node call turn) :
    sv.Asks (sv.resume tag turn) where
  calls position next found request listed := by
    rcases Server.call_updated found with ⟨rfl, goes⟩ | ⟨-, before⟩
    · exact (shape.requests next goes request listed).imp_left fun old => ⟨call, running, old⟩
    · exact Or.inl ⟨next, before, listed⟩
  sent packet listed req same := by
    obtain ⟨message, sent, rfl⟩ := List.mem_map.mp listed
    obtain ⟨peer, built⟩ := shape.sent message sent req same
    exact ⟨tag, call, peer, running, built⟩

/-- What a process asks its peers. -/
theorem Server.react_asks {sv : Server} {peers : List NodeId} {event : Event} {reaction : Reaction}
    (fits : ∀ tag save applied, event = .step tag save applied →
      sv.calls tag = some (.election .preVoteWon) → sv.node.currentTerm + 1 < Word.limit)
    (reacted : sv.react unmarshal peers event = some reaction) : sv.Asks reaction := by
  cases Server.react_cases reacted with
  | start kind =>
    refine .quiet (fun position call found asks => ?_) (by simp)
    rcases Server.call_updated found with ⟨-, started⟩ | ⟨-, before⟩
    · rw [← Option.some.inj started] at asks
      cases kind <;> exact absurd rfl asks
    · exact before
  | step tag save applied call turn running turned =>
    by_cases appending : ∃ command, call = .propose (.appending command)
    · obtain ⟨command, rfl⟩ := appending
      obtain rfl := Option.some.inj turned
      refine .quiet (fun position next found asks => ?_) fun packet listed => ?_
      · rcases Server.call_updated found with ⟨-, goes⟩ | ⟨-, before⟩
        · split at goes
          · contradiction
          · rw [← Option.some.inj goes] at asks
            exact absurd rfl asks
        · exact before
      · dsimp only [Server.resume] at listed
        split at listed <;> simp [Call.fail, Call.pursue] at listed
    · exact .turn running (step_shape (fun command same => appending ⟨command, same⟩)
        (fun won => fits tag save applied rfl (by rw [running, won])) turned)
  | reply packet save call turn _ running turned =>
    exact .turn running (reply_shape turned)
  | failure tag peer call next running failed =>
    exact .turn running (failure_shape failed)
  | cancel tag call observed running cancelled =>
    refine .quiet (fun position next found _ => ?_) (by simp)
    rcases Server.call_updated found with ⟨-, goes⟩ | ⟨-, before⟩
    · contradiction
    · exact before
  | serve packet save answer _ handled =>
    refine .quiet (fun _ _ found _ => found) fun message listed req same => ?_
    obtain ⟨body, answered, rfl⟩ := List.mem_map.mp listed
    replace same : body = .appendRequest req := same
    cases asked : packet.body <;> rw [asked] at handled <;> cases handled
    all_goals
      try split at answered
      all_goals simp [same] at answered
  | compact snapshot save =>
    exact .quiet (fun _ _ found _ => found) (by simp)
  | crash =>
    exact .quiet (fun _ _ found _ => by contradiction) (by simp)

end

end Raft

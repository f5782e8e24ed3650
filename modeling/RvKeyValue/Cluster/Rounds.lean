import RvKeyValue.Cluster.Watched
import RvKeyValue.Node.Coherence

/-!
# Errors of a replication round

`replicateOnce` looks a peer of its snapshot up in `nextIndex` twice, to build the request and to record
the result, each time in a section of its own. The maps go when the node steps down, and lose a peer that
is removed. A round that a leader has started and that is between two sections then returns
`ErrUnknownPeer`: `RunHeartbeatLoop` passes it on, and the process ends.

That is the only other way: at every section of every run, a round returns the error of its context, that
of a failed save, or that of a look-up on a node that does not lead or does not list the peer.
-/

namespace Raft

open Transition (Reach)

namespace Call

/-- Whether a call is `replicateOnce`. -/
def isReplicate : Call → Bool
  | replicate _ _ => true
  | _ => false

/-- The peer the next section of `replicateOnce` looks up. -/
def lookup : Call → Option NodeId
  | replicate _ (.building (peer :: _) _) => some peer
  | replicate _ (.recording _ peer _ _) => some peer
  | _ => none

/-- The error with which `replicateOnce` returns from its next section. -/
def sectionError (n : RaftNode) : Call → Option RaftError
  | replicate _ (.building (peer :: _) _) =>
    match n.buildAppendEntries peer with
    | .error err => some err
    | .ok _ => none
  | replicate _ (.recording _ peer req true) => (n.recordReplicationSuccess peer (matchIndexOf req)).2
  | replicate _ (.recording _ peer _ false) => (n.recordReplicationFailure peer).2
  | _ => none

/-- The error with which `replicateOnce` returns when it takes a response. -/
def replyError (n : RaftNode) (save : Bool) : Call → Body → Option RaftError
  | replicate _ _, .appendResponse _ resp => (n.stepDownForHigherTerm save resp.term).err
  | _, _ => none

end Call

/-- The call of `replicateOnce` that returns an error at an event, and the error, absent for that of the
context. -/
def Server.roundError (sv : Server) : Event → Option (Nat × Option RaftError)
  | .step tag _ _ =>
    (sv.calls tag).bind fun call => (call.sectionError sv.node).map fun err => (tag, some err)
  | .reply packet save =>
    (sv.calls packet.tag).bind fun call =>
      (call.replyError sv.node save packet.body).map fun err => (packet.tag, some err)
  | .cancel tag => if (sv.calls tag).any Call.isReplicate then some (tag, none) else none
  | _ => none

/-- A section of `replicateOnce` that looks a peer up runs on a leader that lists the peer. -/
def Server.findsPeer (sv : Server) : Event → Bool
  | .step tag _ _ => ((sv.calls tag).bind Call.lookup).all fun peer =>
    decide (sv.node.state = .leader ∧ peer ∈ sv.node.peers)
  | _ => true

section

variable {unmarshal : Bytes → Option MembershipCommand} {peers : List NodeId} {n : RaftNode}
  {sv : Server} {event : Event} {reaction : Reaction} {tag : Nat} {owner : Option LogEntry}
  {stage : ReplicateStage}

/-- A section that returns an error ends the round with it. -/
theorem Call.replicateStep_fails {err : RaftError}
    (returns : Call.sectionError n (.replicate owner stage) = some err) :
    ∃ m, Call.replicateStep n owner stage = some (Call.replicateFailed m (some err) owner) := by
  cases stage with
  | building remaining requests =>
    cases remaining with
    | nil => contradiction
    | cons peer rest =>
      simp only [Call.sectionError] at returns
      split at returns <;> cases returns
      rename_i failed
      exact ⟨n, by rw [Call.replicateStep, failed]⟩
  | recording waiting peer req success =>
    cases success with
    | true =>
      replace returns : (n.recordReplicationSuccess peer (matchIndexOf req)).2 = some err := returns
      refine ⟨(n.recordReplicationSuccess peer (matchIndexOf req)).1, ?_⟩
      simp only [Call.replicateStep, returns]
    | false =>
      replace returns : (n.recordReplicationFailure peer).2 = some err := returns
      refine ⟨(n.recordReplicationFailure peer).1, ?_⟩
      simp only [Call.replicateStep, returns]
  | _ => contradiction

/-- A section that returns none shows no failure. -/
theorem Call.replicateStep_fine {turn : Turn} (stepped : Call.replicateStep n owner stage = some turn)
    (fine : Call.sectionError n (.replicate owner stage) = none) (err : Option RaftError) :
    Observation.failed err ∉ turn.observed := by
  have quiet : Observation.failed err ∉ (Call.replicated n owner).observed := by
    cases owner <;> simp [Call.replicated, Call.pursue]
  cases stage with
  | ensuring =>
    obtain rfl := Option.some.inj stepped
    simp [Call.spread]
  | listing =>
    obtain rfl := Option.some.inj stepped
    simp [Call.spread]
  | building remaining requests =>
    cases remaining with
    | nil =>
      obtain rfl := Option.some.inj stepped
      simp [Call.spread]
    | cons peer rest =>
      simp only [Call.sectionError] at fine
      split at fine
      · contradiction
      · rename_i req built
        rw [Call.replicateStep, built] at stepped
        obtain rfl := Option.some.inj stepped
        simp [Call.spread]
  | awaiting waiting =>
    cases waiting with
    | nil =>
      obtain rfl := Option.some.inj stepped
      exact quiet
    | cons request rest => contradiction
  | recording waiting peer req success =>
    cases success with
    | true =>
      replace fine : (n.recordReplicationSuccess peer (matchIndexOf req)).2 = none := fine
      obtain rfl := Option.some.inj stepped
      simp only [fine]
      cases owner with
      | none => simp [Call.spread]
      | some entry =>
        dsimp only
        split <;> simp [Call.spread]
    | false =>
      replace fine : (n.recordReplicationFailure peer).2 = none := fine
      obtain rfl := Option.some.inj stepped
      simp [fine, Call.spread]
  | stopping waiting =>
    cases owner with
    | none => contradiction
    | some entry =>
      obtain rfl := Option.some.inj stepped
      split
      · exact quiet
      · simp [Call.spread]

/-- A response that makes `replicateOnce` return an error ends the round with it; any other shows no
failure. -/
theorem Call.replicateReply_shown {save : Bool} {peer : NodeId} {body : Body} {turn : Turn}
    (replied : Call.reply n save peer (.replicate owner stage) body = some turn) :
    (∃ err m, Call.replyError n save (.replicate owner stage) body = some err ∧
        turn = Call.replicateFailed m (some err) owner) ∨
      Call.replyError n save (.replicate owner stage) body = none ∧
        ∀ err, Observation.failed err ∉ turn.observed := by
  unfold Call.reply at replied
  split at replied <;> try contradiction
  rename_i same
  cases same
  split_ifs at replied
  obtain rfl := Option.some.inj replied
  simp only [Call.replyError]
  split
  · rename_i err failed
    exact Or.inl ⟨err, _, failed, rfl⟩
  · rename_i fine
    refine Or.inr ⟨fine, fun err => ?_⟩
    split
    · cases owner <;> simp [Call.replicated, Call.pursue]
    · simp [Call.spread]

/-- A round whose context is done shows that to a proposal. -/
theorem Call.replicateCancel_shown {observed : List Observation}
    (cancelled : Call.cancel (.replicate owner stage) = some observed) :
    observed = if owner.isSome then [.failed none] else [] := by
  unfold Call.cancel at cancelled
  split at cancelled <;> cases cancelled <;> rename_i same <;> cases same <;> rfl

/-- What a round shows when it returns an error: a proposal returns it. -/
theorem Call.replicateFailed_shown (m : RaftNode) (err failure : Option RaftError) :
    Observation.failed failure ∈ (Call.replicateFailed m err owner).observed ↔
      owner.isSome = true ∧ failure = err := by
  cases owner <;> simp [Call.replicateFailed, Call.fail]

/-- A round that returns an error is over, and a proposal that waited for it returns the same error. -/
theorem Server.roundError_ends {err : Option RaftError}
    (reacted : sv.react unmarshal peers event = some reaction)
    (ran : sv.calls tag = some (.replicate owner stage)) (returns : sv.roundError event = some (tag, err)) :
    reaction.server.calls tag = none ∧
      (owner.isSome = true → (tag, Observation.failed err) ∈ reaction.observed) := by
  have ends : ∀ m, (sv.resume tag (Call.replicateFailed m err owner)).server.calls tag = none ∧
      (owner.isSome = true →
        (tag, Observation.failed err) ∈ (sv.resume tag (Call.replicateFailed m err owner)).observed) := by
    intro m
    refine ⟨?_, fun proposal => List.mem_map_of_mem ((Call.replicateFailed_shown m err err).mpr
      ⟨proposal, rfl⟩)⟩
    simp only [Server.resume, Function.update_self]
    cases owner <;> rfl
  cases Server.react_cases reacted with
  | step position save applied call turn running turned =>
    simp only [Server.roundError, running, Option.bind_some] at returns
    obtain ⟨failure, error, same⟩ := Option.map_eq_some_iff.mp returns
    cases same
    obtain rfl := Option.some.inj (ran.symm.trans running)
    obtain ⟨m, failed⟩ := Call.replicateStep_fails error
    obtain rfl := Option.some.inj (failed.symm.trans turned)
    exact ends m
  | reply packet save call turn own running replied =>
    simp only [Server.roundError, running, Option.bind_some] at returns
    obtain ⟨failure, error, same⟩ := Option.map_eq_some_iff.mp returns
    cases same
    obtain rfl := Option.some.inj (ran.symm.trans running)
    rcases Call.replicateReply_shown replied with ⟨known, m, same, rfl⟩ | ⟨fine, -⟩
    · obtain rfl := Option.some.inj (same.symm.trans error)
      exact ends m
    · rw [fine] at error
      contradiction
  | cancel position call observed running cancelled =>
    simp only [Server.roundError] at returns
    split_ifs at returns
    cases returns
    obtain rfl := Option.some.inj (ran.symm.trans running)
    refine ⟨by simp, fun proposal => ?_⟩
    rw [Call.replicateCancel_shown cancelled, if_pos proposal]
    simp
  | _ => contradiction

/-- The only errors a proposal returns out of a round are those of the round. -/
theorem Server.roundError_of_shown {err : Option RaftError}
    (reacted : sv.react unmarshal peers event = some reaction)
    (ran : sv.calls tag = some (.replicate owner stage))
    (shown : (tag, Observation.failed err) ∈ reaction.observed) :
    sv.roundError event = some (tag, err) := by
  cases Server.react_cases reacted with
  | step position save applied call turn running turned =>
    obtain ⟨observation, observed, same⟩ := List.mem_map.mp shown
    cases same
    obtain rfl := Option.some.inj (ran.symm.trans running)
    cases error : Call.sectionError sv.node (.replicate owner stage) with
    | none => exact absurd observed (Call.replicateStep_fine turned error err)
    | some known =>
      obtain ⟨m, failed⟩ := Call.replicateStep_fails error
      obtain rfl := Option.some.inj (failed.symm.trans turned)
      obtain ⟨-, rfl⟩ := (Call.replicateFailed_shown m _ err).mp observed
      simp only [Server.roundError, ran, Option.bind_some, error, Option.map_some]
  | reply packet save call turn own running replied =>
    obtain ⟨observation, observed, same⟩ := List.mem_map.mp shown
    cases same
    obtain rfl := Option.some.inj (ran.symm.trans running)
    rcases Call.replicateReply_shown replied with ⟨known, m, error, rfl⟩ | ⟨-, quiet⟩
    · obtain ⟨-, rfl⟩ := (Call.replicateFailed_shown m _ err).mp observed
      simp only [Server.roundError, ran, Option.bind_some, error, Option.map_some]
    · exact absurd observed (quiet err)
  | cancel position call observed running cancelled =>
    obtain ⟨observation, listed, same⟩ := List.mem_map.mp shown
    cases same
    obtain rfl := Option.some.inj (ran.symm.trans running)
    rw [Call.replicateCancel_shown cancelled] at listed
    split_ifs at listed
    · cases List.mem_singleton.mp listed
      simp only [Server.roundError, ran]
      rfl
    · contradiction
  | _ => contradiction

/-- A section that looks a peer up returns an error exactly if the peer is not tracked. -/
theorem Call.sectionError_eq (n : RaftNode) (call : Call) :
    call.sectionError n = call.lookup.bind fun peer =>
      if (n.nextOf peer).isSome then none else some (.unknownPeer peer) := by
  unfold Call.sectionError
  split
  · rename_i peer rest requests
    simp only [Call.lookup, Option.bind_some]
    unfold RaftNode.buildAppendEntries RaftNode.nextOf
    cases n.nextIndex.bind fun progress => progress peer <;> rfl
  · rename_i waiting peer req
    simp only [Call.lookup, Option.bind_some]
    unfold RaftNode.recordReplicationSuccess RaftNode.nextOf
    cases n.nextIndex.bind fun progress => progress peer <;> rfl
  · rename_i waiting peer req
    simp only [Call.lookup, Option.bind_some]
    unfold RaftNode.recordReplicationFailure RaftNode.nextOf
    cases n.nextIndex.bind fun progress => progress peer with
    | none => rfl
    | some next =>
      rw [Option.isSome_some, if_pos rfl]
      dsimp only
      split_ifs <;> rfl
  · rename_i call build success failure
    unfold Call.lookup
    split
    · exact absurd rfl (build _ _ _ _)
    · rename_i waiting peer req stored
      cases stored with
      | true => exact absurd rfl (success _ _ _ _)
      | false => exact absurd rfl (failure _ _ _ _)
    · rfl

/-- `stepDownForHigherTerm` returns no error but that of its save. -/
theorem RaftNode.stepDownForHigherTerm_err {save : Bool} {term : Nat} {err : RaftError}
    (returns : (n.stepDownForHigherTerm save term).err = some err) : err = .save ∧ save = false := by
  unfold RaftNode.stepDownForHigherTerm at returns
  split_ifs at returns
  exact RaftNode.persistLocked_err returns

/-- The record of a process is one the node has had. -/
theorem Server.node_reach {guard : Server → Event → Prop}
    (run : Reach (Server.next unmarshal peers) guard { node := n } sv) :
    Reach (RaftNode.next unmarshal peers) (fun _ _ => True) n sv.node := by
  refine run.invariant (P := fun sv => Reach (RaftNode.next unmarshal peers) (fun _ _ => True) n sv.node)
    .start fun _ _ _ before _ stepped => ?_
  obtain ⟨reaction, reacted, rfl⟩ := Option.map_eq_some_iff.mp stepped
  exact Server.react_reach reacted before

/-- In every run of a process, under any messages, calls, membership changes and restarts: if the sections
in which `replicateOnce` looks a peer up run on a leader that lists the peer, then it returns an error only
if its context is done or a save has failed. -/
theorem round_error_of_context_or_save {id : NodeId} {store : Option PersistentState}
    (run : Reach (Server.next unmarshal peers) (fun _ _ => True) { node := newRaftNode id peers store } sv)
    (finds : sv.findsPeer event = true) {err : Option RaftError}
    (returns : sv.roundError event = some (tag, err)) :
    err = none ∧ event = .cancel tag ∨ err = some .save ∧ event.save = false := by
  cases event with
  | step position save applied =>
    obtain ⟨call, ran, shown⟩ := Option.bind_eq_some_iff.mp returns
    obtain ⟨failure, error, -⟩ := Option.map_eq_some_iff.mp shown
    rw [Call.sectionError_eq] at error
    obtain ⟨peer, looks, untracked⟩ := Option.bind_eq_some_iff.mp error
    have found : sv.node.state = .leader ∧ peer ∈ sv.node.peers := by
      simpa [Server.findsPeer, ran, looks] using finds
    have coherent : sv.node.Coherent := .reach (Server.node_reach run)
    rw [if_pos ((coherent.nextKeys found.1 peer).mpr found.2)] at untracked
    contradiction
  | reply packet save =>
    obtain ⟨call, ran, shown⟩ := Option.bind_eq_some_iff.mp returns
    obtain ⟨failure, error, same⟩ := Option.map_eq_some_iff.mp shown
    cases same
    unfold Call.replyError at error
    split at error
    · obtain ⟨rfl, failed⟩ := RaftNode.stepDownForHigherTerm_err error
      exact Or.inr ⟨rfl, failed⟩
    · contradiction
  | cancel position =>
    simp only [Server.roundError] at returns
    split_ifs at returns
    cases returns
    exact Or.inl ⟨rfl, rfl⟩
  | _ => contradiction

end

/-- A process is elected in term 1. -/
def electedEvents : List Event :=
  [.start .election, .step 0 true true, .step 0 true true, .step 0 true true,
    .reply ⟨"A", "B", 0, .preVoteResponse ⟨1, "A", 0, 0⟩ ⟨0, true⟩⟩ true, .step 0 true true,
    .step 0 true true, .reply ⟨"A", "B", 0, .voteResponse ⟨1, "A", 0, 0⟩ ⟨1, true⟩⟩ true,
    .step 0 true true, .step 0 true true]

/-- A heartbeat whose first response carries a later term, with a save that fails. -/
theorem round_error_of_context_or_save_response : ∃ sv : Server,
    Reach (Server.next plainCommands ["B", "C"]) (fun _ _ => True)
      { node := newRaftNode "A" ["B", "C"] (some {}) } sv ∧
      ∃ err, sv.roundError (.reply ⟨"A", "B", 1,
        .appendResponse ⟨1, "A", 0, 0, [], 0⟩ ⟨2, false⟩⟩ false) = some (1, err) ∧ err = some .save := by
  have passed : (Transition.exec (Server.next plainCommands ["B", "C"]) (fun _ _ => True)
      { node := newRaftNode "A" ["B", "C"] (some {}) }
      (electedEvents ++ [.start .replicate, .step 1 true true, .step 1 true true, .step 1 true true,
        .step 1 true true, .step 1 true true])).any (fun sv =>
        decide (sv.roundError (.reply ⟨"A", "B", 1,
          .appendResponse ⟨1, "A", 0, 0, [], 0⟩ ⟨2, false⟩⟩ false) = some (1, some .save))) = true := by
    decide +kernel
  obtain ⟨sv, run, test⟩ := Reach.of_exec_test passed
  have returns := of_decide_eq_true test
  rcases round_error_of_context_or_save run rfl returns with ⟨none, -⟩ | ⟨saves, -⟩
  · contradiction
  · exact ⟨sv, run, _, returns, saves⟩

/-- A leader starts a heartbeat, which lists the peers; a vote request of term 2 is handled; and the
heartbeat returns `ErrUnknownPeer`. No save fails. -/
theorem round_error_after_stepDown : ∃ leading started sv : Server,
    Reach (Server.next plainCommands ["B", "C"]) (fun _ event => event.save = true)
      { node := newRaftNode "A" ["B", "C"] (some {}) } leading ∧
      leading.node.state = .leader ∧
      leading.next plainCommands ["B", "C"] (.start .replicate) = some started ∧
      Reach (Server.next plainCommands ["B", "C"]) (fun _ event => event.save = true) started sv ∧
      (sv.react plainCommands ["B", "C"] (.step 1 true true)).isSome = true ∧
      sv.roundError (.step 1 true true) = some (1, some (.unknownPeer "B")) := by
  have passed : (Transition.exec (Server.next plainCommands ["B", "C"]) (fun _ event => event.save = true)
      { node := newRaftNode "A" ["B", "C"] (some {}) } electedEvents).any (fun leading =>
        decide (leading.node.state = .leader) &&
        (leading.next plainCommands ["B", "C"] (.start .replicate)).any fun started =>
          (Transition.exec (Server.next plainCommands ["B", "C"]) (fun _ event => event.save = true) started
            [.step 1 true true, .step 1 true true,
              .serve ⟨"B", "A", 0, .voteRequest ⟨2, "B", 0, 0⟩⟩ true]).any fun sv =>
            (sv.react plainCommands ["B", "C"] (.step 1 true true)).isSome &&
              decide (sv.roundError (.step 1 true true) = some (1, some (.unknownPeer "B")))) = true := by
    decide +kernel
  obtain ⟨leading, elected, test⟩ := Reach.of_exec_test passed
  obtain ⟨role, starts⟩ := (Bool.and_eq_true ..).mp test
  obtain ⟨started, stepped, rest⟩ := (Option.any_eq_true ..).mp starts
  obtain ⟨sv, run, fails⟩ := Reach.of_exec_test rest
  obtain ⟨goes, returns⟩ := (Bool.and_eq_true ..).mp fails
  exact ⟨leading, started, sv, elected, of_decide_eq_true role, stepped, run, goes,
    of_decide_eq_true returns⟩

end Raft

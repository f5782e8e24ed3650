import RvKeyValue.Raft.Replication

/-!
# Calls as sequences of sections

`StartElection`, `ProposeWithRetryInterval`, `ReplicateOnce` and `ApplyCommitted` hold the lock
only inside the sections they are made of, and keep local variables between them. A running
call is the point it has reached together with those variables. Its next section is a
function on the record: every interleaving of calls is an interleaving of these functions.

The RPC client is never nil, so the checks for a nil client are not part of the model.
-/

namespace Raft

/-- A message of one RPC. A response carries the request it answers. -/
inductive Body
  /-- `PreVote` request. -/
  | preVoteRequest (req : PreVoteRequest)
  /-- `PreVote` response. -/
  | preVoteResponse (req : PreVoteRequest) (resp : PreVoteResponse)
  /-- `RequestVote` request. -/
  | voteRequest (req : RequestVoteRequest)
  /-- `RequestVote` response. -/
  | voteResponse (req : RequestVoteRequest) (resp : RequestVoteResponse)
  /-- `AppendEntries` request. -/
  | appendRequest (req : AppendEntriesRequest)
  /-- `AppendEntries` response. -/
  | appendResponse (req : AppendEntriesRequest) (resp : AppendEntriesResponse)
deriving DecidableEq, Repr

/-- Where `StartElection` stands. -/
inductive ElectionStage
  /-- Before `isSelfMember` of `StartElection`. -/
  | starting
  /-- Before `isSelfMember` of `PreVoteElection`. -/
  | preVoteStarting
  /-- Before `electionSnapshot` of `PreVoteElection`. -/
  | preVoteReading
  /-- In the loop of `PreVoteElection`, with the peers whose result is outstanding. -/
  | preVoting (req : PreVoteRequest) (clusterSize votes : Nat) (waiting : List NodeId)
  /-- Before `BecomeCandidate`. -/
  | preVoteWon
  /-- Before `electionSnapshot` of `StartElection`. -/
  | campaigning
  /-- In the loop of `StartElection`. -/
  | voting (req : RequestVoteRequest) (clusterSize votes : Nat) (waiting : List NodeId)
  /-- Before `isCandidateForTerm`, with a peer's answer. -/
  | voteReceived (req : RequestVoteRequest) (clusterSize votes : Nat) (waiting : List NodeId)
      (peer : NodeId) (voteGranted : Bool)
  /-- Before `promoteCandidate`. -/
  | winning (term : Nat)
deriving DecidableEq, Repr

/-- Whether `BecomeCandidate` is behind. -/
def ElectionStage.campaigns : ElectionStage → Bool
  | campaigning => true
  | voting _ _ _ _ => true
  | voteReceived _ _ _ _ _ _ => true
  | winning _ => true
  | _ => false

/-- Where `ProposeWithRetryInterval` stands outside `replicateOnce`. -/
inductive ProposeStage
  /-- Before the first `State` check. -/
  | starting (command : Bytes)
  /-- Before `AppendLocal`. -/
  | appending (command : Bytes)
  /-- Before `isCommitted` at the head of the loop. -/
  | checking (entry : LogEntry)
  /-- Before the `State` check of the loop. -/
  | leading (entry : LogEntry)
  /-- Before `isCommitted` after `replicateOnce`. -/
  | rechecking (entry : LogEntry)
  /-- Waiting for the retry timer. -/
  | sleeping (entry : LogEntry)
deriving DecidableEq, Repr

/-- Where `replicateOnce` stands. -/
inductive ReplicateStage
  /-- Before `ensureLeaderProgress`. -/
  | ensuring
  /-- Before `peerSnapshot`. -/
  | listing
  /-- Before `BuildAppendEntries` for the first remaining peer. -/
  | building (remaining : List NodeId) (requests : List (NodeId × AppendEntriesRequest))
  /-- In the result loop, with the requests whose result is outstanding. -/
  | awaiting (waiting : List (NodeId × AppendEntriesRequest))
  /-- Before `RecordReplicationSuccess` or `RecordReplicationFailure`. -/
  | recording (waiting : List (NodeId × AppendEntriesRequest)) (peer : NodeId)
      (req : AppendEntriesRequest) (success : Bool)
  /-- Before `isCommitted(stopWhenCommitted)`. -/
  | stopping (waiting : List (NodeId × AppendEntriesRequest))
deriving DecidableEq, Repr

/-- Where `ApplyCommitted` stands. -/
inductive ApplyStage
  /-- Before `nextCommittedEntry`. -/
  | fetching
  /-- With a fetched entry, before the entry is applied. -/
  | holding (entry : LogEntry)
  /-- Applied to the state machine, before `markApplied`. -/
  | marking (entry : LogEntry)
deriving DecidableEq, Repr

/-- A running call. -/
inductive Call
  /-- `StartElection`. -/
  | election (stage : ElectionStage)
  /-- `ProposeWithRetryInterval`. -/
  | propose (stage : ProposeStage)
  /-- `replicateOnce`, for the entry a proposal waits for or for a heartbeat. -/
  | replicate (owner : Option LogEntry) (stage : ReplicateStage)
  /-- `ApplyCommitted`. -/
  | apply (stage : ApplyStage)
deriving DecidableEq, Repr

/-- Whether a call is `StartElection`. -/
def Call.isElection : Call → Bool
  | election _ => true
  | _ => false

/-- Whether a call is `ApplyCommitted`. -/
def Call.isApply : Call → Bool
  | apply _ => true
  | _ => false

/-- The entry a proposal waits for. -/
def Call.awaits : Call → Option LogEntry
  | propose (.checking entry) => some entry
  | propose (.leading entry) => some entry
  | propose (.rechecking entry) => some entry
  | propose (.sleeping entry) => some entry
  | replicate owner _ => owner
  | _ => none

/-- The entry an `ApplyCommitted` has fetched and not yet marked. -/
def Call.holds : Call → Option LogEntry
  | apply (.holding entry) => some entry
  | apply (.marking entry) => some entry
  | _ => none

/-- The requests a replication round has built and not recorded the result of. -/
def Call.requests : Call → List (NodeId × AppendEntriesRequest)
  | replicate _ (.building _ requests) => requests
  | replicate _ (.awaiting waiting) => waiting
  | replicate _ (.recording waiting peer req _) => (peer, req) :: waiting
  | replicate _ (.stopping waiting) => waiting
  | _ => []

/-- What a call shows to the outside. -/
inductive Observation
  /-- `promoteCandidate` made the node leader of a term. -/
  | promoted (term : Nat)
  /-- `sm.Apply` was called. -/
  | handed (entry : LogEntry)
  /-- `applyCommittedMembershipChange` was called for an entry. -/
  | reconfigured (entry : LogEntry)
  /-- A proposal returned its entry without an error. -/
  | returned (entry : LogEntry)
  /-- A proposal returned an error, absent for the context's. -/
  | failed (err : Option RaftError)
deriving DecidableEq, Repr

/-- What one section of a call does. -/
structure Turn where
  /-- The record after it. -/
  node : RaftNode
  /-- How the call goes on, absent when it returned. -/
  call : Option Call := none
  /-- Requests sent. -/
  sent : List (NodeId × Body) := []
  /-- What is observed. -/
  observed : List Observation := []

namespace Call

/-- `StartElection` goes on at a stage. -/
def campaign (n : RaftNode) (stage : ElectionStage) : Turn := { node := n, call := some (election stage) }

/-- `ProposeWithRetryInterval` goes on at a stage. -/
def pursue (n : RaftNode) (stage : ProposeStage) : Turn := { node := n, call := some (propose stage) }

/-- `replicateOnce` goes on at a stage. -/
def spread (n : RaftNode) (owner : Option LogEntry) (stage : ReplicateStage) : Turn :=
  { node := n, call := some (replicate owner stage) }

/-- A proposal returns an error. -/
def fail (n : RaftNode) (err : Option RaftError) : Turn := { node := n, observed := [.failed err] }

/-- `replicateOnce` returns nil: a proposal checks its entry, a heartbeat ends. -/
def replicated (n : RaftNode) : Option LogEntry → Turn
  | some entry => pursue n (.rechecking entry)
  | none => { node := n }

/-- `replicateOnce` returns an error: a proposal returns it, a heartbeat ends. -/
def replicateFailed (n : RaftNode) (err : Option RaftError) : Option LogEntry → Turn
  | some _ => fail n err
  | none => { node := n }

/-- The next section of `StartElection`. -/
def electionStep (n : RaftNode) (save : Bool) : ElectionStage → Option Turn
  | .starting => some (if n.selfMember then campaign n .preVoteStarting else { node := n })
  | .preVoteStarting => some (if n.selfMember then campaign n .preVoteReading else { node := n })
  | .preVoteReading =>
    let clusterSize := n.peers.length + 1
    some (if majority clusterSize ≤ 1 then campaign n .preVoteWon
      else { campaign n (.preVoting n.preVoteRequest clusterSize 1 n.peers) with
        sent := n.peers.map fun peer => (peer, .preVoteRequest n.preVoteRequest) })
  | .preVoting _ _ _ [] => some { node := n }
  | .preVoting _ _ _ (_ :: _) => none
  | .preVoteWon =>
    let out := n.becomeCandidate save
    some (if out.err.isSome then { node := out.node } else campaign out.node .campaigning)
  | .campaigning =>
    let clusterSize := n.peers.length + 1
    some (if majority clusterSize ≤ 1 then campaign n (.winning n.currentTerm)
      else { campaign n (.voting n.voteRequest clusterSize 1 n.peers) with
        sent := n.peers.map fun peer => (peer, .voteRequest n.voteRequest) })
  | .voting _ _ _ [] => some { node := n }
  | .voting _ _ _ (_ :: _) => none
  | .voteReceived req clusterSize votes waiting _ voteGranted =>
    some (if n.isCandidateForTerm req.term = false then { node := n }
      else if voteGranted = false then campaign n (.voting req clusterSize votes waiting)
      else if majority clusterSize ≤ votes + 1 then campaign n (.winning req.term)
      else campaign n (.voting req clusterSize (votes + 1) waiting))
  | .winning term =>
    let out := n.promoteCandidate save term
    some { node := out.node, observed := if out.value then [.promoted term] else [] }

/-- The next section of `ProposeWithRetryInterval` outside `replicateOnce`. -/
def proposeStep (unmarshal : Bytes → Option MembershipCommand) (n : RaftNode) (save : Bool) :
    ProposeStage → Option Turn
  | .starting command =>
    some (if n.state = .leader then pursue n (.appending command)
      else fail n (some (.notLeader n.state)))
  | .appending command =>
    let out := n.appendLocal unmarshal save command
    some (match out.err with
      | some err => fail out.node (some err)
      | none => pursue out.node (.checking out.value))
  | .checking entry =>
    some (if entry.index ≤ n.commitIndex then { node := n, observed := [.returned entry] }
      else pursue n (.leading entry))
  | .leading entry =>
    some (if n.state = .leader then spread n (some entry) .ensuring
      else fail n (some (.notLeader n.state)))
  | .rechecking entry =>
    some (if entry.index ≤ n.commitIndex then { node := n, observed := [.returned entry] }
      else pursue n (.sleeping entry))
  | .sleeping entry => some (pursue n (.checking entry))

/-- The index `replicateOnce` records for an accepted request. -/
def matchIndexOf (req : AppendEntriesRequest) : Nat := Word.add req.prevLogIndex req.entries.length

/-- The next section of `replicateOnce`. -/
def replicateStep (n : RaftNode) (owner : Option LogEntry) : ReplicateStage → Option Turn
  | .ensuring => some (spread n.ensureLeaderProgress owner .listing)
  | .listing => some (spread n owner (.building n.peers []))
  | .building [] requests =>
    some { spread n owner (.awaiting requests) with
      sent := requests.map fun request => (request.1, .appendRequest request.2) }
  | .building (peer :: remaining) requests =>
    some (match n.buildAppendEntries peer with
      | .error err => replicateFailed n (some err) owner
      | .ok req => spread n owner (.building remaining (requests ++ [(peer, req)])))
  | .awaiting [] => some (replicated n owner)
  | .awaiting (_ :: _) => none
  | .recording waiting peer req true =>
    let recorded := n.recordReplicationSuccess peer (matchIndexOf req)
    some (match recorded.2 with
      | some err => replicateFailed recorded.1 (some err) owner
      | none =>
        match owner with
        | some entry =>
          if 0 < entry.index then spread recorded.1 owner (.stopping waiting)
          else spread recorded.1 owner (.awaiting waiting)
        | none => spread recorded.1 owner (.awaiting waiting))
  | .recording waiting peer _ false =>
    let recorded := n.recordReplicationFailure peer
    some (match recorded.2 with
      | some err => replicateFailed recorded.1 (some err) owner
      | none => spread recorded.1 owner (.awaiting waiting))
  | .stopping waiting =>
    match owner with
    | some entry =>
      some (if entry.index ≤ n.commitIndex then replicated n owner
        else spread n owner (.awaiting waiting))
    | none => none

/-- The next section of `ApplyCommitted`; `applied` says whether `sm.Apply` succeeds. -/
def applyStep (unmarshal : Bytes → Option MembershipCommand) (n : RaftNode) (save applied : Bool) :
    ApplyStage → Option Turn
  | .fetching =>
    some (match n.nextCommittedEntry with
      | none => { node := n }
      | some entry => { node := n, call := some (apply (.holding entry)) })
  | .holding entry =>
    some (match decodeMembershipChange unmarshal entry.command with
      | some (.error _) => { node := n }
      | some (.ok change) =>
        let out := n.applyCommittedMembershipChange save change entry.index
        { node := out.node
          call := if out.err.isSome then none else some (apply .fetching)
          observed := [.reconfigured entry] }
      | none =>
        { node := n
          call := if applied then some (apply (.marking entry)) else none
          observed := [.handed entry] })
  | .marking entry => some { node := n.markApplied entry.index, call := some (apply .fetching) }

/-- The next section of a call. -/
def step (unmarshal : Bytes → Option MembershipCommand) (n : RaftNode) (save applied : Bool) :
    Call → Option Turn
  | election stage => electionStep n save stage
  | propose stage => proposeStep unmarshal n save stage
  | replicate owner stage => replicateStep n owner stage
  | apply stage => applyStep unmarshal n save applied stage

/-- A response of a peer reaches the loop of its call: `stepDownForHigherTerm` comes first. -/
def reply (n : RaftNode) (save : Bool) (peer : NodeId) : Call → Body → Option Turn
  | election (.preVoting req clusterSize votes waiting), .preVoteResponse asked resp =>
    if asked = req ∧ peer ∈ waiting then
      let out := n.stepDownForHigherTerm save resp.term
      some (if out.err.isSome ∨ out.value = true then { node := out.node }
        else if resp.voteGranted = false then
          campaign out.node (.preVoting req clusterSize votes (waiting.erase peer))
        else if majority clusterSize ≤ votes + 1 then campaign out.node .preVoteWon
        else campaign out.node (.preVoting req clusterSize (votes + 1) (waiting.erase peer)))
    else none
  | election (.voting req clusterSize votes waiting), .voteResponse asked resp =>
    if asked = req ∧ peer ∈ waiting then
      let out := n.stepDownForHigherTerm save resp.term
      some (if out.err.isSome ∨ out.value = true then { node := out.node }
        else campaign out.node
          (.voteReceived req clusterSize votes (waiting.erase peer) peer resp.voteGranted))
    else none
  | replicate owner (.awaiting waiting), .appendResponse asked resp =>
    if (peer, asked) ∈ waiting then
      let out := n.stepDownForHigherTerm save resp.term
      some (match out.err with
        | some err => replicateFailed out.node (some err) owner
        | none =>
          if out.value then replicated out.node owner
          else spread out.node owner
            (.recording (waiting.erase (peer, asked)) peer asked resp.success))
    else none
  | _, _ => none

/-- An RPC to a peer returns an error: the loop goes on with the next result. -/
def failure (peer : NodeId) : Call → Option Call
  | election (.preVoting req clusterSize votes waiting) =>
    if peer ∈ waiting then some (election (.preVoting req clusterSize votes (waiting.erase peer)))
    else none
  | election (.voting req clusterSize votes waiting) =>
    if peer ∈ waiting then some (election (.voting req clusterSize votes (waiting.erase peer)))
    else none
  | replicate owner (.awaiting waiting) =>
    match waiting.find? fun request => request.1 == peer with
    | some request => some (replicate owner (.awaiting (waiting.erase request)))
    | none => none
  | _ => none

/-- The context is done at a point where the call looks at it: what is observed. -/
def cancel : Call → Option (List Observation)
  | election (.preVoting _ _ _ (_ :: _)) => some []
  | election (.voting _ _ _ (_ :: _)) => some []
  | propose (.starting _) => some [.failed none]
  | propose (.sleeping _) => some [.failed none]
  | replicate owner (.building (_ :: _) _) => some (if owner.isSome then [.failed none] else [])
  | replicate owner (.awaiting (_ :: _)) => some (if owner.isSome then [.failed none] else [])
  | _ => none

/-- A cancelled call shows at most a failure. -/
theorem cancel_shown {call : Call} {observed : List Observation}
    (stepped : call.cancel = some observed) {observation : Observation}
    (shown : observation ∈ observed) : observation = .failed none := by
  unfold cancel at stepped
  split at stepped <;> cases stepped
  · simp at shown
  · simp at shown
  · exact List.mem_singleton.mp shown
  · exact List.mem_singleton.mp shown
  all_goals
    split at shown
    · exact List.mem_singleton.mp shown
    · simp at shown

/-- `StartElection` goes on as `StartElection`. -/
theorem electionStep_next {n : RaftNode} {save : Bool} {stage : ElectionStage} {turn : Turn}
    (stepped : electionStep n save stage = some turn) {call : Call} (next : turn.call = some call) :
    ∃ stage', call = election stage' := by
  unfold electionStep at stepped
  split at stepped <;> cases stepped
  all_goals
    simp only [campaign] at next
    repeat' split at next
    all_goals first
      | contradiction
      | exact ⟨_, (Option.some.inj next).symm⟩

/-- What a response does to `StartElection`: the record may step down to the response's term. -/
theorem electionReply_shape {n : RaftNode} {save : Bool} {peer : NodeId} {stage : ElectionStage}
    {body : Body} {turn : Turn} (replied : reply n save peer (election stage) body = some turn) :
    ∃ term, (turn.node = (n.stepDownForHigherTerm save term).node ∧ turn.sent = [] ∧
        turn.observed = []) ∧
      ((∃ req granted, body = .preVoteResponse req ⟨term, granted⟩) ∨
        ∃ req granted, body = .voteResponse req ⟨term, granted⟩) := by
  cases stage with
  | preVoting req clusterSize votes waiting =>
    cases body with
    | preVoteResponse asked resp =>
      simp only [reply] at replied
      split at replied
      · obtain rfl := Option.some.inj replied
        refine ⟨resp.term, ?_, Or.inl ⟨asked, resp.voteGranted, rfl⟩⟩
        repeat' split
        all_goals exact ⟨rfl, rfl, rfl⟩
      · contradiction
    | _ => contradiction
  | voting req clusterSize votes waiting =>
    cases body with
    | voteResponse asked resp =>
      simp only [reply] at replied
      split at replied
      · obtain rfl := Option.some.inj replied
        refine ⟨resp.term, ?_, Or.inr ⟨asked, resp.voteGranted, rfl⟩⟩
        split
        all_goals exact ⟨rfl, rfl, rfl⟩
      · contradiction
    | _ => contradiction
  | _ => contradiction

/-- A response leaves `StartElection` a `StartElection`. -/
theorem electionReply_next {n : RaftNode} {save : Bool} {peer : NodeId} {stage : ElectionStage}
    {body : Body} {turn : Turn} (replied : reply n save peer (election stage) body = some turn)
    {call : Call} (next : turn.call = some call) : ∃ stage', call = election stage' := by
  cases stage with
  | preVoting req clusterSize votes waiting =>
    cases body with
    | preVoteResponse asked resp =>
      simp only [reply] at replied
      split at replied
      · obtain rfl := Option.some.inj replied
        simp only [campaign] at next
        repeat' split at next
        all_goals first
          | contradiction
          | exact ⟨_, (Option.some.inj next).symm⟩
      · contradiction
    | _ => contradiction
  | voting req clusterSize votes waiting =>
    cases body with
    | voteResponse asked resp =>
      simp only [reply] at replied
      split at replied
      · obtain rfl := Option.some.inj replied
        simp only [campaign] at next
        split at next
        · contradiction
        · exact ⟨_, (Option.some.inj next).symm⟩
      · contradiction
    | _ => contradiction
  | _ => contradiction

/-- A response does not bring `StartElection` past `BecomeCandidate`. -/
theorem electionReply_campaigns {n : RaftNode} {save : Bool} {peer : NodeId}
    {stage stage' : ElectionStage} {body : Body} {turn : Turn}
    (replied : reply n save peer (election stage) body = some turn)
    (next : turn.call = some (election stage')) (running : stage'.campaigns = true) :
    stage.campaigns = true := by
  cases stage with
  | preVoting req clusterSize votes waiting =>
    cases body with
    | preVoteResponse asked resp =>
      simp only [reply] at replied
      split at replied
      · obtain rfl := Option.some.inj replied
        simp only [campaign] at next
        repeat' split at next
        all_goals first
          | contradiction
          | (cases next; contradiction)
      · contradiction
    | _ => contradiction
  | voting req clusterSize votes waiting => rfl
  | _ => contradiction

/-- An RPC error does not bring `StartElection` past `BecomeCandidate`. -/
theorem electionFailure_campaigns {peer : NodeId} {stage stage' : ElectionStage}
    (failed : failure peer (election stage) = some (election stage'))
    (running : stage'.campaigns = true) : stage.campaigns = true := by
  cases stage with
  | preVoting req clusterSize votes waiting =>
    simp only [failure] at failed
    split at failed
    · cases failed
      contradiction
    · contradiction
  | voting req clusterSize votes waiting => rfl
  | _ => contradiction

end Call

end Raft

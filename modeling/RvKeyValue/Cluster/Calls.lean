import RvKeyValue.Cluster.FollowerSections

/-!
# What running calls and messages know

Between its sections a call keeps facts about the past: the votes it counted were granted,
the requests it sent describe the leader's log, the entry it fetched is chosen. These facts
only speak of history, which grows, except that a vote request describes the candidate's log
for as long as it campaigns in that term. So whatever happens elsewhere, they stay true.
-/

namespace Raft

open ReplicatedLog (Chosen Committed lastTerm)

section

variable {members : Members} {id : NodeId} {n n' : RaftNode} {a a' : Protocol}

/-- An entry stands in a chosen prefix at its index. -/
def Settled (members : Members) (a : Protocol) (entry : LogEntry) : Prop :=
  1 ≤ entry.index ∧ ∃ term pre, Chosen LogEntry.term members.quorums a term pre ∧
    pre[entry.index - 1]? = some entry

/-- Settled entries stay settled. -/
theorem Settled.grow {entry : LogEntry} (grows : a.Grows a') (settled : Settled members a entry) :
    Settled members a' entry := by
  obtain ⟨positive, term, pre, chosen, found⟩ := settled
  exact ⟨positive, term, pre, chosen.grow grows, found⟩

/-- Two settled entries of one index are the same entry. -/
theorem Settled.agree (good : Good members a) {left right : LogEntry}
    (first : Settled members a left) (second : Settled members a right)
    (same : left.index = right.index) : left = right := by
  obtain ⟨-, leftTerm, leftPre, leftChosen, atLeft⟩ := first
  obtain ⟨-, rightTerm, rightPre, rightChosen, atRight⟩ := second
  rw [← same] at atRight
  exact leftChosen.agree good.inv rightChosen atLeft atRight

/-- An entry below the commit index is settled. -/
theorem Refines.settled (refines : Refines members id n a) {position : Nat} {entry : LogEntry}
    (found : (a.log id)[position]? = some entry) (committed : position < n.commitIndex) :
    Settled members a entry := by
  have index := refines.log.indexed _ _ found
  have read : ((a.log id).take n.commitIndex)[position]? = some entry := by
    rw [List.getElem?_take_of_lt committed]
    exact found
  have position_eq : entry.index - 1 = position := by omega
  cases refines.commit with
  | inl empty =>
    rw [empty] at read
    simp at read
  | inr covered =>
    obtain ⟨term, pre, -, chosen, inside⟩ := covered
    refine ⟨by omega, term, pre, chosen, ?_⟩
    rw [position_eq]
    exact inside.getElem?_of_some read

/-- The requests a replication round sent, or will send, describe the leader's log. -/
def RequestsOk (members : Members) (id : NodeId) (a : Protocol)
    (requests : List (NodeId × AppendEntriesRequest)) : Prop :=
  ∀ request ∈ requests, request.1 ∈ members.peers id ∧
    ∃ log, AppendOk members a id request.2 log

/-- What `StartElection` knows between its sections: its request describes the candidate, and the
votes it counted were granted. -/
def ElectionOk (members : Members) (id : NodeId) (n : RaftNode) (a : Protocol) :
    ElectionStage → Prop :=
  Polled members id (SelfMatch id n a) fun req voter => VoteOk a voter req

/-- What `ProposeWithRetryInterval` knows between its sections. -/
def ProposeOk (a : Protocol) : ProposeStage → Prop
  | .starting _ | .appending _ => True
  | .checking entry | .leading entry | .rechecking entry | .sleeping entry => Written a entry

/-- What `replicateOnce` knows between its sections. -/
def ReplicateOk (members : Members) (id : NodeId) (a : Protocol) : ReplicateStage → Prop
  | .ensuring | .listing => True
  | .building remaining requests =>
    (∀ peer ∈ remaining, peer ∈ members.peers id) ∧ RequestsOk members id a requests
  | .awaiting waiting | .stopping waiting => RequestsOk members id a waiting
  | .recording waiting peer req success =>
    RequestsOk members id a waiting ∧ (success = true → AckOk a peer req)

/-- What `ApplyCommitted` knows between its sections. -/
def ApplyOk (members : Members) (n : RaftNode) (a : Protocol) : ApplyStage → Prop
  | .fetching => True
  | .holding entry | .marking entry => entry.index ≤ n.commitIndex ∧ Settled members a entry

/-- What a running call knows. -/
def CallOk (members : Members) (id : NodeId) (n : RaftNode) (a : Protocol) : Call → Prop
  | .election stage => ElectionOk members id n a stage
  | .propose stage => ProposeOk a stage
  | .replicate owner stage =>
    (∀ entry, owner = some entry → Written a entry) ∧ ReplicateOk members id a stage
  | .apply stage => ApplyOk members n a stage

/-- What a message says is true. -/
def BodyOk (members : Members) (a : Protocol) (source target : NodeId) : Body → Prop
  | .preVoteRequest _ => True
  | .preVoteResponse _ resp => resp.term < Word.limit
  | .voteRequest req => req.candidateID = source ∧ req.term < Word.limit
  | .voteResponse req resp =>
    resp.term < Word.limit ∧ (resp.voteGranted = true → VoteOk a target req)
  | .appendRequest req => ∃ log, AppendOk members a source req log
  | .appendResponse req resp => resp.term < Word.limit ∧ (resp.success = true → AckOk a target req)

/-- What was observed is true. -/
def ObservationOk (members : Members) (a : Protocol) (id : NodeId) : Observation → Prop
  | .promoted term => ∃ election, a.elected term = some election ∧ election.leader = id
  | .handed entry => Settled members a entry
  | .returned entry => Written a entry
  | .reconfigured _ | .failed _ => True

/-- What happened to a node and the history around it, as far as its calls can tell. -/
structure Continues (id : NodeId) (n n' : RaftNode) (a a' : Protocol) : Prop where
  /-- History has grown. -/
  grows : a.Grows a'
  /-- The commit index has not fallen. -/
  commit : n.commitIndex ≤ n'.commitIndex
  /-- A candidate of an old term was one before, on the same log. -/
  steady : n'.state = .candidate → a'.term id ≤ a.term id →
    n.state = .candidate ∧ a'.term id = a.term id ∧ a'.log id = a.log id

/-- A section at the node itself. -/
theorem Advance.continues (refines : Refines members id n a)
    (advance : Advance members id n n' a a') : Continues id n n' a a' where
  grows := advance.grows
  commit := advance.commit
  steady role old := by
    have now := advance.refines.term
    have before := refines.term
    have same := advance.steady role (by omega)
    exact ⟨same.1, by omega, same.2.2⟩

/-- A section at another node. -/
theorem Continues.elsewhere {other : NodeId} (n : RaftNode) (grows : a.Grows a')
    (only : a.OnlyAt a' other) (ne : id ≠ other) : Continues id n n a a' where
  grows := grows
  commit := le_refl _
  steady role _ := ⟨role, only.term id ne, only.log id ne⟩

/-- A granted vote stays granted. -/
theorem VoteOk.grow {voter : NodeId} {req : RequestVoteRequest} (grows : a.Grows a')
    (vote : VoteOk a voter req) : VoteOk a' voter req := by
  obtain ⟨log, granted, fresh⟩ := vote
  exact ⟨log, grows.granted _ _ _ _ granted, fresh⟩

/-- An acknowledgement stays given. -/
theorem AckOk.grow {peer : NodeId} {req : AppendEntriesRequest} (grows : a.Grows a')
    (ack : AckOk a peer req) : AckOk a' peer req := by
  obtain ⟨pre, acked, length⟩ := ack
  exact ⟨pre, grows.acked _ _ _ acked, length⟩

section Stable

variable (continues : Continues id n n' a a')
include continues

/-- A request keeps describing its candidate. -/
theorem SelfMatch.stable {req : RequestVoteRequest} (matched : SelfMatch id n a req) :
    SelfMatch id n' a' req := by
  have later := continues.grows.term id
  refine ⟨matched.1, le_trans matched.2.1 later, fun role term => ?_⟩
  have before := continues.steady role (by rw [term]; exact matched.2.1)
  rw [before.2.2]
  exact matched.2.2 before.1 (before.2.1.symm.trans term)

/-- Requests keep describing a leader's log. -/
theorem RequestsOk.stable {requests : List (NodeId × AppendEntriesRequest)}
    (ok : RequestsOk members id a requests) : RequestsOk members id a' requests := by
  intro request listed
  obtain ⟨peer, log, sent⟩ := ok request listed
  exact ⟨peer, log, sent.grow continues.grows⟩

/-- Whatever happens, a call's knowledge stays true. -/
theorem CallOk.stable {call : Call} (ok : CallOk members id n a call) :
    CallOk members id n' a' call := by
  cases call with
  | election stage =>
    exact Polled.imp ok (fun _ matched => matched.stable continues)
      fun _ _ vote => vote.grow continues.grows
  | propose stage =>
    cases stage with
    | starting _ => trivial
    | appending _ => trivial
    | _ => exact Written.grow continues.grows ok
  | replicate owner stage =>
    refine ⟨fun entry owned => (ok.1 entry owned).grow continues.grows, ?_⟩
    have stageOk := ok.2
    cases stage with
    | ensuring => trivial
    | listing => trivial
    | building remaining requests => exact ⟨stageOk.1, stageOk.2.stable continues⟩
    | awaiting waiting => exact RequestsOk.stable continues stageOk
    | stopping waiting => exact RequestsOk.stable continues stageOk
    | recording waiting peer req success =>
      exact ⟨stageOk.1.stable continues, fun yes => (stageOk.2 yes).grow continues.grows⟩
  | apply stage =>
    cases stage with
    | fetching => trivial
    | _ => exact ⟨le_trans ok.1 continues.commit, ok.2.grow continues.grows⟩

end Stable

/-- What a message says stays true. -/
theorem BodyOk.grow {source target : NodeId} {body : Body} (grows : a.Grows a')
    (ok : BodyOk members a source target body) : BodyOk members a' source target body := by
  cases body with
  | preVoteRequest req => trivial
  | preVoteResponse req resp => exact ok
  | voteRequest req => exact ok
  | voteResponse req resp =>
    exact ⟨ok.1, fun granted => (ok.2 granted).grow grows⟩
  | appendRequest req =>
    obtain ⟨log, sent⟩ := ok
    exact ⟨log, sent.grow grows⟩
  | appendResponse req resp =>
    exact ⟨ok.1, fun success => (ok.2 success).grow grows⟩

/-- What was observed stays true. -/
theorem ObservationOk.grow {observation : Observation} (grows : a.Grows a')
    (ok : ObservationOk members a id observation) : ObservationOk members a' id observation := by
  cases observation with
  | promoted term =>
    obtain ⟨election, decided, self⟩ := ok
    exact ⟨election, grows.elected _ _ decided, self⟩
  | handed entry => exact Settled.grow grows ok
  | returned entry => exact Written.grow grows ok
  | reconfigured entry => trivial
  | failed err => trivial

end

end Raft

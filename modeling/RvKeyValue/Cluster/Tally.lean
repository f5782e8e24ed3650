import RvKeyValue.Base.Quorum
import RvKeyValue.Cluster.System

/-!
# Counting votes

`StartElection` starts with its own vote, waits for one result of each peer, and counts the
grants. Whatever a grant stands for, the counted voters are distinct members, so a count that
reaches `majority` is a quorum.
-/

namespace Raft

/-- The majorities of a membership. -/
def Members.quorums (members : Members) : Quorums NodeId := .majority members.ids.toFinset

/-- A member and its peers are all members. -/
theorem Members.length_peers (members : Members) {id : NodeId} (inside : id ∈ members.ids) :
    (members.peers id).length + 1 = members.ids.length := by
  have same : (members.peers id).Perm (members.ids.erase id) := by
    rw [List.perm_ext_iff_of_nodup (members.peersDistinct id inside) (members.distinct.erase id)]
    intro peer
    rw [members.mem_peers id inside, members.distinct.mem_erase_iff]
    exact And.comm
  have length := List.length_erase_of_mem inside
  have positive := List.length_pos_of_mem inside
  rw [same.length_eq, length]
  omega

/-- A member and its peers are the members. -/
theorem Members.toFinset_ids (members : Members) {id : NodeId} (inside : id ∈ members.ids) :
    members.ids.toFinset = (id :: members.peers id).toFinset := by
  ext peer
  simp only [List.mem_toFinset, List.mem_cons, members.mem_peers id inside]
  by_cases own : peer = id
  · simp [own, inside]
  · simp [own]

/-- A peer list a node can have: named others, each once. `run` and `parsePeers` of `cmd/node/main.go`
reject empty and repeated ids. -/
def Proper (id : NodeId) (peers : List NodeId) : Prop :=
  id ≠ "" ∧ peers.Nodup ∧ id ∉ peers ∧ "" ∉ peers

instance (id : NodeId) (peers : List NodeId) : Decidable (Proper id peers) := by
  unfold Proper
  infer_instance

/-- Two memberships differ in one member at most. -/
def Close (left right : List NodeId) : Prop :=
  (left.toFinset \ right.toFinset).card + (right.toFinset \ left.toFinset).card ≤ 1

instance (left right : List NodeId) : Decidable (Close left right) := by
  unfold Close
  infer_instance

/-- Equal memberships. -/
theorem Close.of_eq {left right : List NodeId} (same : left.toFinset = right.toFinset) :
    Close left right := by
  unfold Close
  rw [same, Finset.sdiff_self]
  exact Nat.zero_le _

/-- The difference is the same from both sides. -/
theorem Close.symm {left right : List NodeId} (close : Close left right) : Close right left := by
  unfold Close at close ⊢
  omega

/-- The peers of a member. -/
theorem Members.proper (members : Members) {id : NodeId} (inside : id ∈ members.ids) :
    Proper id (members.peers id) := by
  refine ⟨members.named id inside, members.peersDistinct id inside, fun own => ?_, fun empty => ?_⟩
  · exact ((members.mem_peers id inside id).mp own).2 rfl
  · exact members.named "" ((members.mem_peers id inside "").mp empty).1 rfl

/-- A node and its peers. -/
def Members.around {id : NodeId} {peers : List NodeId} (proper : Proper id peers) : Members :=
  .ofIds (id :: peers) (List.nodup_cons.mpr ⟨proper.2.2.1, proper.2.1⟩) fun member listed empty => by
    rcases List.mem_cons.mp listed with own | peer
    · exact proper.1 (own.symm.trans empty)
    · rw [empty] at peer
      exact proper.2.2.2 peer

/-- The node has the peers it has. -/
theorem Members.around_peers {id : NodeId} {peers : List NodeId} (proper : Proper id peers) :
    (Members.around proper).peers id = peers := by
  unfold Members.around Members.ofIds
  dsimp only
  rw [List.filter_cons_of_neg (by simp), List.filter_eq_self]
  intro peer listed
  refine decide_eq_true fun own => proper.2.2.1 ?_
  rw [← own]
  exact listed

section

variable {members : Members} {id : NodeId} {granted granted' : NodeId → Prop}
  {clusterSize votes : Nat} {waiting voters : List NodeId} {peer : NodeId}

/-- Counted voters: distinct members, all of which but the candidate granted. -/
structure Ballots (members : Members) (id : NodeId) (granted : NodeId → Prop)
    (voters : List NodeId) : Prop where
  /-- Nobody is counted twice. -/
  distinct : voters.Nodup
  /-- Only members vote. -/
  inside : ∀ voter ∈ voters, voter ∈ members.ids
  /-- Everyone but the candidate granted. -/
  votes : ∀ voter ∈ voters, voter ≠ id → granted voter

/-- A count, with the peers whose result is outstanding. -/
structure Tally (members : Members) (id : NodeId) (granted : NodeId → Prop)
    (clusterSize votes : Nat) (waiting voters : List NodeId) : Prop where
  /-- The size the majority is taken of. -/
  size : clusterSize = members.ids.length
  /-- The counted voters granted. -/
  ballots : Ballots members id granted voters
  /-- They are counted right. -/
  count : votes = voters.length
  /-- Nobody is waited for twice. -/
  distinct : waiting.Nodup
  /-- Who is waited for has not been counted. -/
  pending : ∀ peer ∈ waiting, peer ∈ members.peers id ∧ peer ∉ voters

namespace Ballots

/-- What a grant stands for may be weakened. -/
theorem imp (ballots : Ballots members id granted voters)
    (weaker : ∀ voter, granted voter → granted' voter) : Ballots members id granted' voters where
  distinct := ballots.distinct
  inside := ballots.inside
  votes voter counted other := weaker voter (ballots.votes voter counted other)

/-- Before any answer only the candidate's own vote is counted. -/
theorem own (granted : NodeId → Prop) (inside : id ∈ members.ids) :
    Ballots members id granted [id] where
  distinct := List.nodup_singleton id
  inside voter counted := by
    rw [List.mem_singleton.mp counted]
    exact inside
  votes voter counted other := absurd (List.mem_singleton.mp counted) other

/-- A counted majority is a quorum. -/
theorem quorum (ballots : Ballots members id granted voters)
    (enough : majority members.ids.length ≤ voters.length) :
    members.quorums.IsQuorum voters.toFinset :=
  Quorums.majority_of_count ballots.distinct ballots.inside enough

end Ballots

namespace Tally

/-- What a grant stands for may be weakened. -/
theorem imp (tally : Tally members id granted clusterSize votes waiting voters)
    (weaker : ∀ voter, granted voter → granted' voter) :
    Tally members id granted' clusterSize votes waiting voters :=
  { tally with ballots := tally.ballots.imp weaker }

/-- The count a call starts with. -/
theorem start (granted : NodeId → Prop) (inside : id ∈ members.ids) :
    Tally members id granted ((members.peers id).length + 1) 1 (members.peers id) [id] where
  size := members.length_peers inside
  ballots := .own granted inside
  count := rfl
  distinct := members.peersDistinct id inside
  pending peer listed := by
    have other := (members.mem_peers id inside peer).mp listed
    exact ⟨listed, fun counted => other.2 (List.mem_singleton.mp counted)⟩

/-- The result of a peer is taken out of the outstanding ones. -/
theorem answer (tally : Tally members id granted clusterSize votes waiting voters)
    (listed : peer ∈ waiting) :
    Tally members id granted clusterSize votes (peer :: waiting.erase peer) voters :=
  { tally with
    distinct := List.nodup_cons.mpr
      ⟨fun again => (tally.distinct.mem_erase_iff.mp again).1 rfl, tally.distinct.erase peer⟩
    pending := fun other waits => by
      cases List.mem_cons.mp waits with
      | inl self => rw [self]; exact tally.pending peer listed
      | inr rest => exact tally.pending other (List.mem_of_mem_erase rest) }

/-- A result that grants nothing is dropped. -/
theorem drop (tally : Tally members id granted clusterSize votes (peer :: waiting) voters) :
    Tally members id granted clusterSize votes waiting voters :=
  { tally with
    distinct := (List.nodup_cons.mp tally.distinct).2
    pending := fun other waits => tally.pending other (List.mem_cons_of_mem _ waits) }

/-- A grant is counted. -/
theorem add (tally : Tally members id granted clusterSize votes (peer :: waiting) voters)
    (inside : id ∈ members.ids) (vote : granted peer) :
    Tally members id granted clusterSize (votes + 1) waiting (peer :: voters) where
  size := tally.size
  ballots := {
    distinct := List.nodup_cons.mpr
      ⟨(tally.pending peer List.mem_cons_self).2, tally.ballots.distinct⟩
    inside := fun voter counted => by
      cases List.mem_cons.mp counted with
      | inl same =>
        have listed := (tally.pending peer List.mem_cons_self).1
        rw [same]
        exact ((members.mem_peers id inside peer).mp listed).1
      | inr old => exact tally.ballots.inside voter old
    votes := fun voter counted other => by
      cases List.mem_cons.mp counted with
      | inl same => rw [same]; exact vote
      | inr old => exact tally.ballots.votes voter old other }
  count := by rw [List.length_cons, tally.count]
  distinct := (List.nodup_cons.mp tally.distinct).2
  pending other waits := by
    have known := tally.pending other (List.mem_cons_of_mem _ waits)
    refine ⟨known.1, fun counted => ?_⟩
    cases List.mem_cons.mp counted with
    | inl same =>
      rw [same] at waits
      exact (List.nodup_cons.mp tally.distinct).1 waits
    | inr old => exact known.2 old

/-- A count that reaches the majority makes a quorum. -/
theorem enough (tally : Tally members id granted clusterSize votes waiting voters)
    (reached : majority clusterSize ≤ votes) : majority members.ids.length ≤ voters.length := by
  rw [← tally.size, ← tally.count]
  exact reached

end Tally

/-- What the stages of `StartElection` know about their request, and about the voters counted for
it. -/
def Polled (members : Members) (id : NodeId) (known : RequestVoteRequest → Prop)
    (granted : RequestVoteRequest → NodeId → Prop) : ElectionStage → Prop
  | .voting req clusterSize votes waiting => known req ∧ ∃ voters,
      Tally members id (granted req) clusterSize votes waiting voters
  | .voteReceived req clusterSize votes waiting peer voteGranted => known req ∧
      (voteGranted = true → granted req peer) ∧ ∃ voters,
        Tally members id (granted req) clusterSize votes (peer :: waiting) voters
  | .winning term => ∃ req, req.term = term ∧ known req ∧ ∃ voters,
      Ballots members id (granted req) voters ∧ majority members.ids.length ≤ voters.length
  | _ => True

namespace Polled

variable {n : RaftNode} {stage stage' : ElectionStage} {turn : Turn} {body : Body} {save : Bool}
  {known known' : RequestVoteRequest → Prop} {granted granted' : RequestVoteRequest → NodeId → Prop}

/-- What is known may be weakened. -/
theorem imp (polled : Polled members id known granted stage)
    (weaker : ∀ req, known req → known' req)
    (weakerVote : ∀ req voter, granted req voter → granted' req voter) :
    Polled members id known' granted' stage := by
  cases stage with
  | voting req clusterSize votes waiting =>
    obtain ⟨own, voters, tally⟩ := polled
    exact ⟨weaker req own, voters, tally.imp (weakerVote req)⟩
  | voteReceived req clusterSize votes waiting peer voteGranted =>
    obtain ⟨own, vote, voters, tally⟩ := polled
    exact ⟨weaker req own, fun yes => weakerVote req peer (vote yes), voters,
      tally.imp (weakerVote req)⟩
  | winning term =>
    obtain ⟨req, same, own, voters, ballots, enough⟩ := polled
    exact ⟨req, same, weaker req own, voters, ballots.imp (weakerVote req), enough⟩
  | _ => trivial

/-- A section of `StartElection` counts right, when the peers it reads are those of a membership. -/
theorem step (inside : ∀ req, known req → id ∈ members.ids)
    (start : stage = .campaigning → n.peers = members.peers id ∧ known n.voteRequest)
    (polled : Polled members id known granted stage)
    (stepped : Call.electionStep n save stage = some turn)
    (next : turn.call = some (.election stage')) : Polled members id known granted stage' := by
  cases stage with
  | campaigning =>
    obtain rfl := Option.some.inj stepped
    obtain ⟨peers, own⟩ := start rfl
    have tally := Tally.start (granted n.voteRequest) (inside _ own)
    rw [← peers] at tally
    split at next
    · rename_i alone
      obtain rfl : .winning n.currentTerm = stage' := by simpa [Call.campaign] using next
      exact ⟨n.voteRequest, rfl, own, [id], tally.ballots, tally.enough alone⟩
    · obtain rfl : .voting n.voteRequest (n.peers.length + 1) 1 n.peers = stage' := by
        simpa [Call.campaign] using next
      exact ⟨own, [id], tally⟩
  | voteReceived req clusterSize votes waiting peer voteGranted =>
    obtain rfl := Option.some.inj stepped
    obtain ⟨described, vote, voters, tally⟩ := polled
    split at next
    · contradiction
    split at next
    · obtain rfl : .voting req clusterSize votes waiting = stage' := by
        simpa [Call.campaign] using next
      exact ⟨described, voters, tally.drop⟩
    · rename_i yes
      have more := tally.add (inside req described) (vote (by simpa using yes))
      split at next
      · rename_i reached
        obtain rfl : .winning req.term = stage' := by simpa [Call.campaign] using next
        exact ⟨req, rfl, described, peer :: voters, more.ballots, more.enough reached⟩
      · obtain rfl : .voting req clusterSize (votes + 1) waiting = stage' := by
          simpa [Call.campaign] using next
        exact ⟨described, peer :: voters, more⟩
  | voting req clusterSize votes waiting =>
    cases waiting with
    | nil =>
      obtain rfl := Option.some.inj stepped
      contradiction
    | cons peer rest => contradiction
  | preVoting req clusterSize votes waiting =>
    cases waiting with
    | nil =>
      obtain rfl := Option.some.inj stepped
      contradiction
    | cons peer rest => contradiction
  | winning term =>
    obtain rfl := Option.some.inj stepped
    contradiction
  | preVoteWon =>
    obtain rfl := Option.some.inj stepped
    split at next
    · contradiction
    · obtain rfl : .campaigning = stage' := by simpa [Call.campaign] using next
      trivial
  | starting =>
    obtain rfl := Option.some.inj stepped
    split at next
    · obtain rfl : .preVoteStarting = stage' := by simpa [Call.campaign] using next
      trivial
    · contradiction
  | preVoteStarting =>
    obtain rfl := Option.some.inj stepped
    split at next
    · obtain rfl : .preVoteReading = stage' := by simpa [Call.campaign] using next
      trivial
    · contradiction
  | preVoteReading =>
    obtain rfl := Option.some.inj stepped
    split at next
    · obtain rfl : .preVoteWon = stage' := by simpa [Call.campaign] using next
      trivial
    · obtain rfl : .preVoting n.preVoteRequest (n.peers.length + 1) 1 n.peers = stage' := by
        simpa [Call.campaign] using next
      trivial

/-- A response is counted once, and a granting one for what it stands for. -/
theorem reply (polled : Polled members id known granted stage)
    (said : ∀ req resp, body = .voteResponse req resp → resp.voteGranted = true → granted req peer)
    (replied : Call.reply n save peer (.election stage) body = some turn)
    (next : turn.call = some (.election stage')) : Polled members id known granted stage' := by
  cases stage with
  | preVoting req clusterSize votes waiting =>
    cases body with
    | preVoteResponse asked resp =>
      simp only [Call.reply] at replied
      split at replied
      · obtain rfl := Option.some.inj replied
        split at next
        · contradiction
        split at next
        · obtain rfl : .preVoting req clusterSize votes (waiting.erase peer) = stage' := by
            simpa [Call.campaign] using next
          trivial
        split at next
        · obtain rfl : .preVoteWon = stage' := by simpa [Call.campaign] using next
          trivial
        · obtain rfl : .preVoting req clusterSize (votes + 1) (waiting.erase peer) = stage' := by
            simpa [Call.campaign] using next
          trivial
      · contradiction
    | _ => contradiction
  | voting req clusterSize votes waiting =>
    cases body with
    | voteResponse asked resp =>
      simp only [Call.reply] at replied
      split at replied
      · rename_i expected
        obtain rfl := Option.some.inj replied
        obtain ⟨own, voters, tally⟩ := polled
        split at next
        · contradiction
        · obtain rfl : .voteReceived req clusterSize votes (waiting.erase peer) peer
              resp.voteGranted = stage' := by
            simpa [Call.campaign] using next
          refine ⟨own, fun yes => ?_, voters, tally.answer expected.2⟩
          rw [← expected.1]
          exact said asked resp rfl yes
      · contradiction
    | _ => contradiction
  | _ => contradiction

/-- An RPC that returns an error is dropped from the count. -/
theorem failure {next : Call} (polled : Polled members id known granted stage)
    (failed : Call.failure peer (.election stage) = some next) :
    ∃ stage', next = .election stage' ∧ Polled members id known granted stage' := by
  cases stage with
  | preVoting req clusterSize votes waiting =>
    simp only [Call.failure] at failed
    split at failed
    · exact ⟨_, (Option.some.inj failed).symm, trivial⟩
    · contradiction
  | voting req clusterSize votes waiting =>
    simp only [Call.failure] at failed
    split at failed
    · rename_i waits
      obtain ⟨own, voters, tally⟩ := polled
      exact ⟨_, (Option.some.inj failed).symm, own, voters, (tally.answer waits).drop⟩
    · contradiction
  | _ => contradiction

end Polled

end

end Raft

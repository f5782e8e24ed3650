import RvKeyValue.Cluster.Watched
import RvKeyValue.Node.Terms

/-!
# What a candidacy rests on

`StartElection` asks for pre-votes for the term after the one it reads, enters the next term in a later
section, and fills its vote requests in one after that. Between these sections the node handles the
requests of others, which may bring a later term: then the term entered is not the one the pre-votes
were for, and the term asked for is not the one entered. Where the term stays, both are what they
should be.

`PreVote` itself leaves out one of the checks of `RequestVote`: whether the node has voted in the
term.
-/

namespace Raft

open Transition (Reach)

/-- The vote request with the fields of a pre-vote request. -/
def PreVoteRequest.vote (req : PreVoteRequest) : RequestVoteRequest :=
  ⟨req.term, req.candidateID, req.lastLogIndex, req.lastLogTerm⟩

/-- Adopting a term keeps the log, and clears the vote if the term is a later one. -/
theorem RaftNode.seeTerm_fields (n : RaftNode) (term : Nat) :
    (n.seeTerm term).lastLogIndexLocked = n.lastLogIndexLocked ∧
      (n.seeTerm term).lastLogTermLocked = n.lastLogTermLocked ∧
      (n.seeTerm term).votedFor = if n.currentTerm < term then "" else n.votedFor := by
  unfold RaftNode.seeTerm
  split <;> exact ⟨rfl, rfl, rfl⟩

/-- `RequestVote` grants what `PreVote` grants, unless the node has voted for another in the term. -/
theorem RaftNode.requestVote_grants_iff (n : RaftNode) (save : Bool) (req : PreVoteRequest) :
    (n.requestVote save req.vote).value.voteGranted = true ↔ (n.preVote req).voteGranted = true ∧
      (req.term = n.currentTerm → n.votedFor = "" ∨ n.votedFor = req.candidateID) := by
  rw [RaftNode.requestVote_eq]
  unfold RaftNode.preVote PreVoteRequest.vote
  dsimp only
  by_cases refused : req.term < n.currentTerm ∨ n.selfMember = false ∨
      n.isMemberLocked req.candidateID = false
  · rw [if_pos refused]
    rcases refused with stale | left | stranger
    · simp [stale]
    · simp [left]
    · simp [stranger]
  obtain ⟨index, term, vote⟩ := n.seeTerm_fields req.term
  simp only [not_or] at refused
  obtain ⟨current, member, known⟩ := refused
  have free : ((n.seeTerm req.term).votedFor = "" ∨ (n.seeTerm req.term).votedFor = req.candidateID) ↔
      (req.term = n.currentTerm → n.votedFor = "" ∨ n.votedFor = req.candidateID) := by
    rw [vote]
    by_cases later : n.currentTerm < req.term
    · have other : req.term ≠ n.currentTerm := by omega
      simp [later, other]
    · have same : req.term = n.currentTerm := by omega
      simp [same]
  rw [if_neg (by simp [current, member, known]), if_neg current, if_neg member, if_neg known, index, term,
    ← free]
  split_ifs with granted newer
  · exact ⟨fun _ => granted.symm, fun _ => rfl⟩
  · exact ⟨fun yes => by contradiction, fun yes => absurd yes.symm granted⟩
  · exact ⟨fun yes => by contradiction, fun yes => absurd yes.symm granted⟩

/-- Handling a pre-vote request changes nothing. It is granted exactly when the vote would be, unless it
is granted in the node's own term while the node has voted for another: then, and only then, the two
differ. -/
theorem preVote_is_dry_run (n : RaftNode) (save : Bool) (req : PreVoteRequest) :
    Server.handle n save (.preVoteRequest req) = some (n, some (.preVoteResponse req (n.preVote req))) ∧
      (((n.preVote req).voteGranted = true ↔
          (n.requestVote save req.vote).value.voteGranted = true) ↔
        ((n.preVote req).voteGranted = true → req.term = n.currentTerm →
          n.votedFor = "" ∨ n.votedFor = req.candidateID)) := by
  refine ⟨rfl, ?_⟩
  rw [n.requestVote_grants_iff save req]
  exact ⟨fun same granted => (same.mp granted).2, fun free =>
    ⟨fun granted => ⟨granted, free granted⟩, And.left⟩⟩

/-- A node that has voted for another in term 1, asked about term 2. -/
theorem preVote_is_dry_run_next :
    (((newRaftNode "A" ["B", "C"] (some {})).requestVote true ⟨1, "B", 0, 0⟩).node.requestVote true
      ⟨2, "C", 0, 0⟩).value.voteGranted = true :=
  ((preVote_is_dry_run ((newRaftNode "A" ["B", "C"] (some {})).requestVote true ⟨1, "B", 0, 0⟩).node true
    ⟨2, "C", 0, 0⟩).2.mpr (by decide)).mp (by decide)

/-- A node that has voted for another in term 1, asked about term 1: it promises a vote that it will
not give. -/
theorem preVote_ignores_vote :
    (((newRaftNode "A" ["B", "C"] (some {})).requestVote true ⟨1, "B", 0, 0⟩).node.preVote
        ⟨1, "C", 0, 0⟩).voteGranted = true ∧
      (((newRaftNode "A" ["B", "C"] (some {})).requestVote true ⟨1, "B", 0, 0⟩).node.requestVote true
        ⟨1, "C", 0, 0⟩).value.voteGranted = false := by
  decide

namespace Watched

/-- `BecomeCandidate` runs in the term its call read before it asked for pre-votes. -/
def entersPolled (w : Watched) : Event → Bool
  | .step tag _ _ =>
    match w.server.calls tag with
    | some (.election .preVoteWon) =>
      (w.trails tag).polled.any fun n => decide (n.currentTerm = w.server.node.currentTerm)
    | _ => true
  | _ => true

/-- The record from which `StartElection` fills its vote requests has the term and the vote that
`BecomeCandidate` left. -/
def asksAsEntered (w : Watched) : Event → Bool
  | .step tag _ _ =>
    match w.server.calls tag with
    | some (.election .campaigning) => (w.trails tag).entered.any fun n =>
      decide (n.currentTerm = w.server.node.currentTerm ∧ n.votedFor = w.server.node.votedFor)
    | _ => true
  | _ => true

end Watched

/-- The step applies no membership change, and enters the polled term if it enters one. -/
def EntersPolledTerm (unmarshal : Bytes → Option MembershipCommand) (w : Watched) (event : Event) : Prop :=
  w.server.reconfigures unmarshal event = false ∧ w.entersPolled event = true

instance (unmarshal : Bytes → Option MembershipCommand) (w : Watched) (event : Event) :
    Decidable (EntersPolledTerm unmarshal w event) := by
  unfold EntersPolledTerm
  infer_instance

/-- Whether an election asks for pre-votes or has won them. -/
def ElectionStage.polls : ElectionStage → Bool
  | preVoting _ _ _ _ => true
  | preVoteWon => true
  | _ => false

section

variable {unmarshal : Bytes → Option MembershipCommand} {peers : List NodeId} {w w' : Watched}
  {event : Event}

/-- The peers an election has read are those the node has. -/
def Watched.PollsPeers (w : Watched) : Prop := ∀ tag stage,
  w.server.calls tag = some (.election stage) → stage.polls = true →
    ∃ n, (w.trails tag).polled = some n ∧ n.peers = w.server.node.peers

/-- An election comes to ask for pre-votes, or to have won them at once, by reading the record. -/
theorem Call.electionStep_polls {n : RaftNode} {save : Bool} {stage stage' : ElectionStage} {turn : Turn}
    (stepped : Call.electionStep n save stage = some turn) (goes : turn.call = some (.election stage'))
    (polls : stage'.polls = true) : stage = .preVoteReading ∧ turn.node = n := by
  unfold Call.electionStep at stepped
  split at stepped <;> cases stepped
  case h_3 =>
    refine ⟨rfl, ?_⟩
    split <;> rfl
  all_goals
    simp only [Call.campaign] at goes
    repeat' split at goes
    all_goals cases goes
    all_goals contradiction

/-- A response or an error leaves `StartElection` asking for pre-votes only if it did. -/
theorem Call.electionReply_polls {n : RaftNode} {save : Bool} {peer : NodeId} {body : Body}
    {stage stage' : ElectionStage} {turn : Turn}
    (replied : Call.reply n save peer (.election stage) body = some turn)
    (goes : turn.call = some (.election stage')) (polls : stage'.polls = true) : stage.polls = true := by
  cases stage with
  | preVoting req clusterSize votes waiting => rfl
  | voting req clusterSize votes waiting =>
    cases body with
    | voteResponse asked resp =>
      simp only [Call.reply] at replied
      split at replied
      · obtain rfl := Option.some.inj replied
        simp only [Call.campaign] at goes
        split at goes <;> cases goes
        contradiction
      · contradiction
    | _ => contradiction
  | _ => contradiction

/-- So does an error. -/
theorem Call.electionFailure_polls {peer : NodeId} {stage stage' : ElectionStage}
    (failed : Call.failure peer (.election stage) = some (.election stage')) (polls : stage'.polls = true) :
    stage.polls = true := by
  cases stage with
  | preVoting req clusterSize votes waiting => rfl
  | voting req clusterSize votes waiting =>
    simp only [Call.failure] at failed
    split at failed
    · cases failed
      contradiction
    · contradiction
  | _ => contradiction

/-- A step that applies no membership change. -/
theorem Watched.PollsPeers.next (known : w.PollsPeers)
    (fixed : w.server.reconfigures unmarshal event = false)
    (stepped : w.next unmarshal peers event = some w') : w'.PollsPeers := by
  obtain ⟨reaction, reacted, rfl⟩ := Watched.next_some stepped
  intro tag stage runs polls
  dsimp only at runs ⊢
  have running : event ≠ .crash := by
    rintro rfl
    obtain rfl := Option.some.inj reacted
    contradiction
  obtain ⟨same, -, -⟩ := Server.react_membership fixed running reacted
  rw [same]
  cases Server.react_election reacted runs with
  | kept ran running apart older =>
    rw [Watched.trailsAfter_other apart older]
    exact known tag stage ran polls
  | started starts here => contradiction
  | stepped steps ran turned goes left =>
    subst steps
    obtain ⟨rfl, -⟩ := Call.electionStep_polls turned goes polls
    refine ⟨w.server.node, ?_, rfl⟩
    show (Function.update w.trails tag _ tag).polled = _
    rw [Function.update_self, ran]
    rfl
  | replied replies own ran turned goes =>
    subst replies
    exact known tag _ ran (Call.electionReply_polls turned goes polls)
  | failed fails ran moved =>
    subst fails
    exact known tag _ ran (Call.electionFailure_polls moved polls)

/-- Apart from messages, only `BecomeCandidate` shows a process a term. -/
theorem Server.operation_own {sv : Server} {op : Operation} (own : event.packet = none)
    (performed : sv.operation event = some op) :
    (op = .becomeCandidate ∧ ∃ tag save applied, event = .step tag save applied ∧
      sv.calls tag = some (.election .preVoteWon)) ∨
      op ≠ .becomeCandidate ∧ ∀ n : RaftNode, n.hears op = none := by
  cases event with
  | step tag save applied =>
    obtain ⟨call, ran, same⟩ := Option.bind_eq_some_iff.mp performed
    unfold Call.operation at same
    split at same <;> cases same
    case h_1 => exact Or.inl ⟨rfl, tag, save, applied, rfl, ran⟩
    all_goals exact Or.inr ⟨by simp, fun _ => rfl⟩
  | compact snapshot save =>
    cases performed
    exact Or.inr ⟨by simp, fun _ => rfl⟩
  | _ => contradiction

/-- The section of `StartElection` that has won its pre-votes enters the next term. -/
theorem Server.react_enters {sv : Server} {tag : Nat} {save applied : Bool} {reaction : Reaction}
    (ran : sv.calls tag = some (.election .preVoteWon))
    (reacted : sv.react unmarshal peers (.step tag save applied) = some reaction) :
    reaction.server.node = (sv.node.becomeCandidate save).node := by
  rw [Server.react_node (by simp) reacted]
  simp only [Server.operation, ran]
  rfl

/-- In every run in which no membership change is applied and `BecomeCandidate` always finds the term
its call has read: a process becomes a candidate only of a term for which, in that call, it and peers
that granted a pre-vote for the term are a majority of its membership; and nothing else it does by
itself changes its term. -/
theorem candidate_of_preVoted_term {id : NodeId} {store : Option PersistentState}
    (run : Reach (Watched.next unmarshal peers) (EntersPolledTerm unmarshal)
      (Watched.started (newRaftNode id peers store)) w)
    (allowed : EntersPolledTerm unmarshal w event) (stepped : w.next unmarshal peers event = some w') :
    (∀ tag save applied, event = .step tag save applied →
      w.server.calls tag = some (.election .preVoteWon) → w'.server.node.state = .candidate ∧
        Ballot.Carried w.server.node.peers
          (fun peer => ∃ req, req.term = w'.server.node.currentTerm ∧ PreVoted w.taken tag req peer)
          (majority (w.server.node.peers.length + 1))) ∧
      (event.packet = none → event ≠ .crash →
        w'.server.node.currentTerm ≠ w.server.node.currentTerm →
        ∃ tag save applied, event = .step tag save applied ∧
          w.server.calls tag = some (.election .preVoteWon)) := by
  have told : w.Told := .reach run
  have peered : w.PollsPeers := by
    refine run.invariant (fun tag stage running => ?_)
      fun _ _ _ known allowed stepped => known.next allowed.1 stepped
    cases running
  obtain ⟨reaction, reacted, rfl⟩ := Watched.next_some stepped
  refine ⟨?_, fun own running changed => ?_⟩
  · rintro tag save applied rfl ran
    obtain ⟨n, read, same⟩ := peered tag _ ran rfl
    obtain ⟨polled, reads, carried⟩ := told tag _ ran
    obtain rfl := Option.some.inj (read.symm.trans reads)
    have current : n.currentTerm = w.server.node.currentTerm := by
      simpa [Watched.entersPolled, ran, read] using allowed.2
    have entered := Server.react_enters ran reacted
    have term : reaction.server.node.currentTerm = n.preVoteRequest.term := by
      rw [entered, RaftNode.becomeCandidate_term, ← current]
      rfl
    refine ⟨?_, ?_⟩
    · rw [entered]
      exact (w.server.node.becomeCandidate_role save).1
    · rw [← same]
      exact carried.imp fun voter granted => ⟨n.preVoteRequest, term.symm, granted⟩
  · have moved := Server.react_node running reacted
    cases performed : w.server.operation event with
    | none =>
      rw [performed] at moved
      exact absurd (congrArg RaftNode.currentTerm moved) changed
    | some op =>
      rw [performed] at moved
      rcases Server.operation_own own performed with ⟨-, enters⟩ | ⟨other, silent⟩
      · exact enters
      · have term := w.server.node.perform_term unmarshal event.save other
        rw [silent, Option.getD_none, Nat.max_eq_left (Nat.zero_le _)] at term
        exact absurd ((congrArg RaftNode.currentTerm moved).trans term) changed

end

/-- A process asks for pre-votes for term 1, and one peer grants. -/
def preVotedEvents : List Event :=
  [.start .election, .step 0 true true, .step 0 true true, .step 0 true true,
    .reply ⟨"A", "B", 0, .preVoteResponse ⟨1, "A", 0, 0⟩ ⟨0, true⟩⟩ true]

/-- It becomes a candidate of term 1 with its own vote and that of the peer. -/
theorem candidate_of_preVoted_term_first : ∃ w w' : Watched,
    Reach (Watched.next plainCommands ["B", "C"]) (EntersPolledTerm plainCommands)
      (Watched.started (newRaftNode "A" ["B", "C"] (some {}))) w ∧
      w.next plainCommands ["B", "C"] (.step 0 true true) = some w' ∧
      w'.server.node.state = .candidate ∧ w'.server.node.currentTerm = 1 ∧
      Ballot.Carried w.server.node.peers
        (fun peer => ∃ req, req.term = w'.server.node.currentTerm ∧ PreVoted w.taken 0 req peer)
        (majority (w.server.node.peers.length + 1)) := by
  have passed : (Transition.exec (Watched.next plainCommands ["B", "C"]) (EntersPolledTerm plainCommands)
      (Watched.started (newRaftNode "A" ["B", "C"] (some {}))) preVotedEvents).any (fun w =>
        decide (w.server.calls 0 = some (.election .preVoteWon)) &&
        decide (EntersPolledTerm plainCommands w (.step 0 true true)) &&
        (w.next plainCommands ["B", "C"] (.step 0 true true)).any fun w' =>
          decide (w'.server.node.currentTerm = 1)) = true := by
    decide +kernel
  obtain ⟨w, run, test⟩ := Reach.of_exec_test passed
  simp only [Bool.and_eq_true, decide_eq_true_eq] at test
  obtain ⟨⟨ran, allowed⟩, steps⟩ := test
  obtain ⟨w', stepped, term⟩ := (Option.any_eq_true ..).mp steps
  obtain ⟨candidate, carried⟩ := (candidate_of_preVoted_term run allowed stepped).1 0 true true rfl ran
  exact ⟨w, w', run, stepped, candidate, of_decide_eq_true term, carried⟩

/-- If a leader of term 5 is heard before `BecomeCandidate`, the process becomes a candidate of term 6,
for which nobody has granted a pre-vote. -/
theorem candidate_of_unpolled_term : ∃ w w' : Watched,
    Reach (Watched.next plainCommands ["B", "C"])
      (fun w event => w.server.reconfigures plainCommands event = false)
      (Watched.started (newRaftNode "A" ["B", "C"] (some {}))) w ∧
      w.server.calls 0 = some (.election .preVoteWon) ∧
      w.next plainCommands ["B", "C"] (.step 0 true true) = some w' ∧
      w'.server.node.state = .candidate ∧ w'.server.node.currentTerm = 6 ∧
      ¬ Ballot.Carried w.server.node.peers
        (fun peer => ∃ req, req.term = w'.server.node.currentTerm ∧ PreVoted w.taken 0 req peer)
        (majority (w.server.node.peers.length + 1)) := by
  have passed : (Transition.exec (Watched.next plainCommands ["B", "C"])
      (fun w event => w.server.reconfigures plainCommands event = false)
      (Watched.started (newRaftNode "A" ["B", "C"] (some {})))
      (preVotedEvents ++ [.serve ⟨"C", "A", 0, .appendRequest ⟨5, "C", 0, 0, [], 0⟩⟩ true])).any (fun w =>
        decide (w.server.calls 0 = some (.election .preVoteWon) ∧ w.server.node.peers = ["B", "C"]) &&
        decide (w.taken = [⟨"A", "B", 0, .preVoteResponse ⟨1, "A", 0, 0⟩ ⟨0, true⟩⟩,
          ⟨"C", "A", 0, .appendRequest ⟨5, "C", 0, 0, [], 0⟩⟩]) &&
        (w.next plainCommands ["B", "C"] (.step 0 true true)).any fun w' =>
          decide (w'.server.node.state = .candidate ∧ w'.server.node.currentTerm = 6)) = true := by
    decide +kernel
  obtain ⟨w, run, test⟩ := Reach.of_exec_test passed
  simp only [Bool.and_eq_true, decide_eq_true_eq] at test
  obtain ⟨⟨⟨ran, listed⟩, polled⟩, steps⟩ := test
  obtain ⟨w', stepped, entered⟩ := (Option.any_eq_true ..).mp steps
  obtain ⟨candidate, term⟩ := of_decide_eq_true entered
  refine ⟨w, w', run, ran, stepped, candidate, term, ?_⟩
  rintro ⟨voters, -, enough, grants⟩
  -- a majority of three needs one of the peers
  have two : majority (w.server.node.peers.length + 1) = 2 := by
    rw [listed]
    rfl
  rw [two] at enough
  obtain ⟨voter, counted⟩ : ∃ voter, voter ∈ voters :=
    List.exists_mem_of_length_pos (by omega)
  obtain ⟨req, same, source, resp, heard, -⟩ := grants voter counted
  have first : req.term = 1 := by
    rw [polled] at heard
    rcases List.mem_cons.mp heard with answer | other
    · cases answer
      rfl
    · cases List.mem_singleton.mp other
  omega

/-- A node keeps its id, and its store if it has one. -/
theorem RaftNode.reach_own {unmarshal : Bytes → Option MembershipCommand} {peers : List NodeId}
    {id : NodeId} {state : PersistentState} {n : RaftNode}
    (run : Reach (RaftNode.next unmarshal peers) (fun _ _ => True) (newRaftNode id peers (some state)) n) :
    n.id = id ∧ n.store.isSome = true := by
  refine run.invariant (P := fun n => n.id = id ∧ n.store.isSome = true) ⟨rfl, rfl⟩
    fun _ _ _ known _ stepped => ?_
  exact ⟨(RaftNode.next_id stepped).trans known.1, (RaftNode.next_store stepped).trans known.2⟩

/-- `BecomeCandidate` over a store, without an error, has stored the vote. -/
theorem RaftNode.becomeCandidate_stored {n : RaftNode} {save : Bool}
    (noError : (n.becomeCandidate save).err = none)
    (kept : (n.becomeCandidate save).node.store.isSome = true) :
    ∃ stored, (n.becomeCandidate save).node.store = some stored ∧
      stored.currentTerm = (n.becomeCandidate save).node.currentTerm ∧ stored.votedFor = n.id := by
  cases held : n.store with
  | none =>
    have same : (n.becomeCandidate save).node.store = none := by
      unfold RaftNode.becomeCandidate RaftNode.persisting RaftNode.persistLocked
      simp only [held]
    rw [same] at kept
    contradiction
  | some state =>
    refine ⟨_, RaftNode.persisting_stored held noError, ?_, rfl⟩
    rw [RaftNode.becomeCandidate_term]
    rfl

section

variable {unmarshal : Bytes → Option MembershipCommand} {peers : List NodeId} {w : Watched}
  {event : Event}

/-- In every run in which term and vote are, when `StartElection` fills its vote requests, what
`BecomeCandidate` left: each request carries a term of which the process became a candidate in that
call, with its own vote for itself stored, and in which its vote is its own. -/
theorem votes_asked_for_own_candidacy {id : NodeId} {state : PersistentState}
    (run : Reach (Watched.next unmarshal peers) (fun w event => w.asksAsEntered event = true)
      (Watched.started (newRaftNode id peers (some state))) w)
    (allowed : w.asksAsEntered event = true) {reaction : Reaction}
    (reacted : w.server.react unmarshal peers event = some reaction) {packet : Packet}
    (sent : packet ∈ reaction.sent) {req : RequestVoteRequest} (asks : packet.body = .voteRequest req) :
    (∃ entered stored, (w.trails packet.tag).entered = some entered ∧ entered.state = .candidate ∧
      entered.currentTerm = req.term ∧ entered.votedFor = id ∧ entered.store = some stored ∧
      stored.currentTerm = req.term ∧ stored.votedFor = id) ∧
      w.server.node.currentTerm = req.term ∧ w.server.node.votedFor = id := by
  have told : w.Told := .reach run
  obtain ⟨save, applied, rfl, ran, rfl⟩ := (Server.react_sends reacted sent).2 req asks
  obtain ⟨n, saved, left, noError⟩ := told _ _ ran
  have held : (w.trails packet.tag).Holds (n.becomeCandidate saved).node := Or.inr (Or.inl left)
  obtain ⟨own, kept⟩ := RaftNode.reach_own ((Watched.records run).2 _ _ held)
  obtain ⟨candidate, voted, same⟩ := n.becomeCandidate_role saved
  have named : n.id = id := same.symm.trans own
  obtain ⟨term, vote⟩ : (n.becomeCandidate saved).node.currentTerm = w.server.node.currentTerm ∧
      (n.becomeCandidate saved).node.votedFor = w.server.node.votedFor := by
    simpa [Watched.asksAsEntered, ran, left] using allowed
  obtain ⟨stored, there, storedTerm, storedVote⟩ := RaftNode.becomeCandidate_stored noError kept
  have asked : w.server.node.voteRequest.term = w.server.node.currentTerm := rfl
  refine ⟨⟨_, stored, left, candidate, term, voted.trans named, there, ?_, storedVote.trans named⟩, rfl, ?_⟩
  · rw [storedTerm, asked]
    exact term
  · rw [← vote, voted]
    exact named

end

/-- A process that becomes a candidate of term 1 and asks for votes in it. -/
theorem votes_asked_for_own_candidacy_first : ∃ (w : Watched) (reaction : Reaction) (packet : Packet)
    (req : RequestVoteRequest),
    Reach (Watched.next plainCommands ["B", "C"]) (fun w event => w.asksAsEntered event = true)
      (Watched.started (newRaftNode "A" ["B", "C"] (some {}))) w ∧
      w.server.react plainCommands ["B", "C"] (.step 0 true true) = some reaction ∧
      packet ∈ reaction.sent ∧ packet.body = .voteRequest req ∧ req.term = 1 ∧
      w.server.node.votedFor = "A" := by
  have passed : (Transition.exec (Watched.next plainCommands ["B", "C"])
      (fun w event => w.asksAsEntered event = true)
      (Watched.started (newRaftNode "A" ["B", "C"] (some {})))
      (preVotedEvents ++ [.step 0 true true])).any (fun w =>
        w.asksAsEntered (.step 0 true true) &&
        (w.server.react plainCommands ["B", "C"] (.step 0 true true)).any fun reaction =>
          decide (⟨"A", "B", 0, .voteRequest ⟨1, "A", 0, 0⟩⟩ ∈ reaction.sent)) = true := by
    decide +kernel
  obtain ⟨w, run, test⟩ := Reach.of_exec_test passed
  obtain ⟨allowed, steps⟩ := (Bool.and_eq_true ..).mp test
  obtain ⟨reaction, reacted, sent⟩ := (Option.any_eq_true ..).mp steps
  have listed := of_decide_eq_true sent
  obtain ⟨-, -, vote⟩ := votes_asked_for_own_candidacy run allowed reacted listed rfl
  exact ⟨w, reaction, _, _, run, reacted, listed, rfl, rfl, vote⟩

/-- If a vote request of term 5 is handled and granted after `BecomeCandidate`, the process asks for
votes in term 5, in which it has voted for another. -/
theorem votes_asked_in_others_term : ∃ (w : Watched) (reaction : Reaction) (packet : Packet)
    (req : RequestVoteRequest),
    Reach (Watched.next plainCommands ["B", "C"]) (fun _ _ => True)
      (Watched.started (newRaftNode "A" ["B", "C"] (some {}))) w ∧
      w.server.react plainCommands ["B", "C"] (.step 0 true true) = some reaction ∧
      packet ∈ reaction.sent ∧ packet.body = .voteRequest req ∧ req.term = 5 ∧
      (w.trails 0).entered.map RaftNode.currentTerm = some 1 ∧
      w.server.node.currentTerm = 5 ∧ w.server.node.votedFor = "C" := by
  have passed : (Transition.exec (Watched.next plainCommands ["B", "C"]) (fun _ _ => True)
      (Watched.started (newRaftNode "A" ["B", "C"] (some {})))
      (preVotedEvents ++ [.step 0 true true,
        .serve ⟨"C", "A", 0, .voteRequest ⟨5, "C", 0, 0⟩⟩ true])).any (fun w =>
        decide ((w.trails 0).entered.map RaftNode.currentTerm = some 1 ∧
          w.server.node.currentTerm = 5 ∧ w.server.node.votedFor = "C") &&
        (w.server.react plainCommands ["B", "C"] (.step 0 true true)).any fun reaction =>
          decide (⟨"A", "B", 0, .voteRequest ⟨5, "A", 0, 0⟩⟩ ∈ reaction.sent)) = true := by
    decide +kernel
  obtain ⟨w, run, test⟩ := Reach.of_exec_test passed
  obtain ⟨state, steps⟩ := (Bool.and_eq_true ..).mp test
  obtain ⟨reaction, reacted, sent⟩ := (Option.any_eq_true ..).mp steps
  exact ⟨w, reaction, _, _, run, reacted, of_decide_eq_true sent, rfl, rfl, of_decide_eq_true state⟩

end Raft

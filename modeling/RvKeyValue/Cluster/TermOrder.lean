import RvKeyValue.Cluster.Rules
import RvKeyValue.Cluster.Watched
import RvKeyValue.Node.Terms
import RvKeyValue.Node.Votes

/-!
# The order of terms

A node adds one to its term in two places, for a pre-vote request and when it becomes a candidate. The
term is a 64-bit word that a message can set to its largest value: then both additions give zero, the
term falls, and an election asks about a term long gone.

While an election finds a term with a next one, terms only rise, and both requests of an election carry
a term above every term the node was in or was shown before the election began. What a pre-vote request
names does not count as shown: no node is in that term.
-/

namespace Raft

open Transition (Reach)

/-- The term a message shows its receiver. A pre-vote request names a term its sender has not
entered. -/
def Body.term : Body → Option Nat
  | preVoteRequest _ => none
  | preVoteResponse _ resp => some resp.term
  | voteRequest req => some req.term
  | voteResponse _ resp => some resp.term
  | appendRequest req => some req.term
  | appendResponse _ resp => some resp.term

/-- A term the process was in when a call started, or had been shown before. -/
def Trail.Seen (trail : Trail) (term : Nat) : Prop :=
  (∃ n, trail.began = some n ∧ n.currentTerm = term) ∨
    ∃ packet ∈ trail.before, packet.body.term = some term

/-- A request comes from a member. -/
def RaftNode.attends (n : RaftNode) : Body → Bool
  | .voteRequest req => n.isMemberLocked req.candidateID
  | .appendRequest req => n.isMemberLocked req.leaderID
  | _ => true

/-- An election that adds one to the term finds a term with a next one. -/
def Server.nextTermFits (sv : Server) : Event → Bool
  | .step tag _ _ =>
    match sv.calls tag with
    | some (.election .preVoteReading) => decide (sv.node.currentTerm + 1 < Word.limit)
    | some (.election .preVoteWon) => decide (sv.node.currentTerm + 1 < Word.limit)
    | _ => true
  | _ => true

/-- Saves succeed, no membership change is applied and requests come from members. -/
def AmongMembers (unmarshal : Bytes → Option MembershipCommand) (w : Watched) (event : Event) : Prop :=
  event.save = true ∧ w.server.reconfigures unmarshal event = false ∧
    (event.packet.all fun packet => w.server.node.attends packet.body) = true

instance (unmarshal : Bytes → Option MembershipCommand) (w : Watched) (event : Event) :
    Decidable (AmongMembers unmarshal w event) := by
  unfold AmongMembers
  infer_instance

/-- Besides, no election adds one to the largest term. -/
def TermsFit (unmarshal : Bytes → Option MembershipCommand) (w : Watched) (event : Event) : Prop :=
  AmongMembers unmarshal w event ∧ w.server.nextTermFits event = true

instance (unmarshal : Bytes → Option MembershipCommand) (w : Watched) (event : Event) :
    Decidable (TermsFit unmarshal w event) := by
  unfold TermsFit
  infer_instance

section

variable {unmarshal : Bytes → Option MembershipCommand} {peers : List NodeId} {w w' : Watched}
  {event : Event}

/-- A message that shows a term is handled by an operation that hears it. -/
theorem Body.operation_hears {n : RaftNode} {body : Body} {term : Nat} (shown : body.term = some term)
    (member : n.selfMember = true) (attended : n.attends body = true) :
    ∃ op, body.operation = some op ∧ op ≠ .becomeCandidate ∧ n.hears op = some term := by
  cases body with
  | preVoteRequest req => contradiction
  | preVoteResponse req resp => exact ⟨_, rfl, by simp, shown⟩
  | voteRequest req =>
    replace attended : n.isMemberLocked req.candidateID = true := attended
    refine ⟨_, rfl, by simp, ?_⟩
    simp only [RaftNode.hears, member, attended, Bool.and_self, if_true]
    exact shown
  | voteResponse req resp => exact ⟨_, rfl, by simp, shown⟩
  | appendRequest req =>
    replace attended : n.isMemberLocked req.leaderID = true := attended
    refine ⟨_, rfl, by simp, ?_⟩
    simp only [RaftNode.hears, attended, if_true]
    exact shown
  | appendResponse req resp => exact ⟨_, rfl, by simp, shown⟩

/-- A process becomes a candidate in the section of `StartElection` that has won its pre-votes. -/
theorem Server.operation_enters {sv : Server} (performed : sv.operation event = some .becomeCandidate) :
    ∃ tag save applied, event = .step tag save applied ∧
      sv.calls tag = some (.election .preVoteWon) := by
  obtain ⟨tag, save, applied, call, steps, running, made⟩ :=
    Server.operation_of_call performed (by rintro ⟨⟩ <;> simp [Body.operation]) (by simp)
  unfold Call.operation at made
  split at made <;> cases made
  exact ⟨tag, save, applied, steps, running⟩

/-- What a step does to a stored voter: it stays stored and a member or not, its term does not fall, and
it reaches the term of a message the node attends to. -/
theorem Server.react_term {sv : Server} {reaction : Reaction} (stored : VoterStored sv.node)
    (saves : event.save = true) (fixed : sv.reconfigures unmarshal event = false)
    (fits : sv.nextTermFits event = true) (reacted : sv.react unmarshal peers event = some reaction) :
    VoterStored reaction.server.node ∧
      reaction.server.node.selfMember = sv.node.selfMember ∧
      sv.node.currentTerm ≤ reaction.server.node.currentTerm ∧
      ∀ packet term, event.packet = some packet → packet.body.term = some term →
        sv.node.selfMember = true → sv.node.attends packet.body = true →
        term ≤ reaction.server.node.currentTerm := by
  by_cases crashed : event = .crash
  · subst crashed
    obtain rfl := Option.some.inj reacted
    obtain ⟨state, held, consensus, member⟩ := stored
    have built : (sv.restart peers).node = newRaftNode sv.node.id peers (some state) := by
      simp only [Server.restart, held]
    have term : state.currentTerm = sv.node.currentTerm := congrArg Consensus.currentTerm consensus
    simp only [built]
    refine ⟨⟨state, rfl, rfl, rfl⟩, member, ?_, fun packet _ taken => by cases taken⟩
    rw [← term]
    exact le_refl _
  · have moved := Server.react_node crashed reacted
    obtain ⟨-, member, -⟩ := Server.react_membership fixed crashed reacted
    rw [saves] at moved
    cases performed : sv.operation event with
    | none =>
      rw [performed] at moved
      replace moved : reaction.server.node = sv.node := moved
      refine ⟨by rw [moved]; exact stored, member, by rw [moved],
        fun packet term taken shown own attended => ?_⟩
      -- a message that shows a term has an operation
      obtain ⟨op, handles, -⟩ := Body.operation_hears shown own attended
      cases event with
      | reply message save => cases taken; rw [Server.operation, handles] at performed; contradiction
      | serve message save => cases taken; rw [Server.operation, handles] at performed; contradiction
      | _ => contradiction
    | some op =>
      rw [performed] at moved
      replace moved : reaction.server.node = sv.node.perform unmarshal true op := moved
      refine ⟨by rw [moved]; exact stored.perform op, member, ?_, ?_⟩
      · rw [moved]
        refine sv.node.perform_term_le unmarshal true fun enters => ?_
        obtain ⟨tag, save, applied, rfl, ran⟩ := Server.operation_enters (by rw [performed, enters])
        simpa [Server.nextTermFits, ran] using fits
      · intro packet term taken shown own attended
        obtain ⟨handler, handles, other, hears⟩ := Body.operation_hears shown own attended
        have same : op = handler := by
          cases event with
          | reply message save =>
            cases taken
            exact Option.some.inj (performed.symm.trans handles)
          | serve message save =>
            cases taken
            exact Option.some.inj (performed.symm.trans handles)
          | _ => contradiction
        rw [moved, same, sv.node.perform_term unmarshal true other, hears]
        exact Nat.le_max_right _ _

/-- `StartElection` has `BecomeCandidate` behind it after a section only if it had, or by entering the
next term. -/
theorem Call.electionStep_campaigns {n : RaftNode} {save : Bool} {stage stage' : ElectionStage}
    {turn : Turn} (stepped : Call.electionStep n save stage = some turn)
    (goes : turn.call = some (.election stage')) (running : stage'.campaigns = true) :
    stage.campaigns = true ∨ stage = .preVoteWon ∧ turn.node = (n.becomeCandidate save).node := by
  unfold Call.electionStep at stepped
  split at stepped <;> cases stepped
  case h_6 =>
    refine Or.inr ⟨rfl, ?_⟩
    split <;> rfl
  all_goals
    simp only [Call.campaign] at goes
    repeat' split at goes
    all_goals cases goes
    all_goals first
      | contradiction
      | exact Or.inl rfl

/-- `StartElection` goes past its first section on a member only. -/
theorem Call.electionStep_member {n : RaftNode} {save : Bool} {stage' : ElectionStage} {turn : Turn}
    (stepped : Call.electionStep n save .starting = some turn)
    (goes : turn.call = some (.election stage')) : n.selfMember = true := by
  obtain rfl := Option.some.inj stepped
  split at goes
  · assumption
  · contradiction

/-- What a process knows of terms: the node is stored; no message it attended to shows a later term; and
the terms seen before a running election are no later than the node's, and earlier once the election
has entered its own. -/
structure Watched.Termed (w : Watched) : Prop where
  /-- The node is stored. -/
  stored : VoterStored w.server.node
  /-- No message shows a later term. -/
  heard : w.server.node.selfMember = true → ∀ packet ∈ w.taken, ∀ term,
    packet.body.term = some term → term ≤ w.server.node.currentTerm
  /-- Only a member's elections go on. -/
  member : ∀ tag stage, w.server.calls tag = some (.election stage) → stage ≠ .starting →
    w.server.node.selfMember = true
  /-- An election's earlier terms are no later. -/
  earlier : ∀ tag stage, w.server.calls tag = some (.election stage) →
    w.server.node.selfMember = true → ∀ term, (w.trails tag).Seen term →
      term ≤ w.server.node.currentTerm ∧ (stage.campaigns = true → term < w.server.node.currentTerm)

/-- Terms of a trail stay where they are while the node's term does not fall. -/
theorem Watched.Termed.keep (termed : w.Termed) {tag : Nat} {stage stage' : ElectionStage} {n : RaftNode}
    (ran : w.server.calls tag = some (.election stage)) (same : n.selfMember = w.server.node.selfMember)
    (rises : w.server.node.currentTerm ≤ n.currentTerm)
    (campaigns : stage'.campaigns = true → stage.campaigns = true) (member : n.selfMember = true)
    {term : Nat} (seen : (w.trails tag).Seen term) :
    term ≤ n.currentTerm ∧ (stage'.campaigns = true → term < n.currentTerm) := by
  obtain ⟨low, strict⟩ := termed.earlier tag stage ran (same.symm.trans member) term seen
  refine ⟨by omega, fun running => ?_⟩
  have below := strict (campaigns running)
  omega

/-- A step of the process. -/
theorem Watched.Termed.next (termed : w.Termed) (allowed : TermsFit unmarshal w event)
    (stepped : w.next unmarshal peers event = some w') :
    w'.Termed ∧ w.server.node.currentTerm ≤ w'.server.node.currentTerm := by
  obtain ⟨⟨saves, fixed, attended⟩, fits⟩ := allowed
  obtain ⟨reaction, reacted, rfl⟩ := Watched.next_some stepped
  obtain ⟨stored, same, rises, shown⟩ := Server.react_term termed.stored saves fixed fits reacted
  refine ⟨⟨stored, fun member packet listed term found => ?_, fun tag stage runs later => ?_,
    fun tag stage runs member term seen => ?_⟩, rises⟩
  · rcases List.mem_append.mp listed with old | new
    · exact (termed.heard (same.symm.trans member) packet old term found).trans rises
    · have taken : event.packet = some packet := Option.mem_toList.mp new
      rw [taken] at attended
      exact shown packet term taken found (same.symm.trans member) attended
  · dsimp only at runs ⊢
    rw [same]
    cases Server.react_election reacted runs with
    | kept ran running apart older => exact termed.member tag _ ran later
    | started starts here => exact absurd rfl later
    | @stepped before _ save applied turn steps ran turned goes left =>
      by_cases first : before = .starting
      · subst first
        exact Call.electionStep_member turned goes
      · exact termed.member tag _ ran first
    | @replied before _ save packet turn replies own ran turned goes =>
      refine termed.member tag _ ran ?_
      rintro rfl
      contradiction
    | @failed before _ peer fails ran moved =>
      refine termed.member tag _ ran ?_
      rintro rfl
      contradiction
  · dsimp only at runs member seen ⊢
    cases Server.react_election reacted runs with
    | kept ran running apart older =>
      rw [Watched.trailsAfter_other apart older] at seen
      exact termed.keep ran same rises id member seen
    | started starts here =>
      subst starts here
      replace seen : Trail.Seen (Function.update w.trails w.server.nextTag _ w.server.nextTag) term := seen
      rw [Function.update_self] at seen
      refine ⟨?_, by simp [ElectionStage.campaigns]⟩
      rcases seen with ⟨n, began, rfl⟩ | ⟨packet, listed, found⟩
      · cases began
        exact rises
      · exact (termed.heard (same.symm.trans member) packet listed term found).trans rises
    | @stepped before _ save applied turn steps ran turned goes left =>
      subst steps
      have old : (w.trails tag).Seen term := by
        replace seen : Trail.Seen (Function.update w.trails tag _ tag) term := seen
        rw [Function.update_self] at seen
        unfold Trail.mark at seen
        split at seen <;> exact seen
      obtain ⟨low, strict⟩ := termed.earlier tag before ran (same.symm.trans member) term old
      refine ⟨low.trans rises, fun campaigns => ?_⟩
      rcases Call.electionStep_campaigns turned goes campaigns with ran | ⟨rfl, entered⟩
      · exact (strict ran).trans_le rises
      · have room : w.server.node.currentTerm + 1 < Word.limit := by
          simpa [Server.nextTermFits, ran] using fits
        rw [← left, entered, RaftNode.becomeCandidate_term, Word.add_eq room]
        omega
    | replied replies own ran turned goes =>
      subst replies
      exact termed.keep ran same rises (Call.electionReply_campaigns turned goes) member seen
    | failed fails ran moved =>
      subst fails
      exact termed.keep ran same rises (Call.electionFailure_campaigns moved) member seen

/-- In every run of a stored process, under any messages from members and any restarts, in which no
election adds one to the largest term: no step lowers the term, and a pre-vote or vote request carries a
term above every term its sender was in, or had been shown, before the election began. -/
theorem terms_never_fall {id : NodeId} {state : PersistentState} {reaction : Reaction}
    (run : Reach (Watched.next unmarshal peers) (TermsFit unmarshal)
      (Watched.started (newRaftNode id peers (some state))) w)
    (allowed : TermsFit unmarshal w event) (reacted : w.server.react unmarshal peers event = some reaction) :
    w.server.node.currentTerm ≤ reaction.server.node.currentTerm ∧
      ∀ packet ∈ reaction.sent, ∀ term, (w.trails packet.tag).Seen term →
        (∀ req, packet.body = .preVoteRequest req → term < req.term) ∧
        ∀ req, packet.body = .voteRequest req → term < req.term := by
  have termed : w.Termed := by
    refine run.invariant ?_ fun _ _ _ known allowed stepped => (known.next allowed stepped).1
    refine ⟨⟨state, rfl, rfl, rfl⟩, fun _ packet listed => ?_, fun _ _ runs => ?_, fun _ _ runs => ?_⟩
    · cases listed
    · cases runs
    · cases runs
  obtain ⟨⟨saves, fixed, -⟩, fits⟩ := allowed
  obtain ⟨-, -, rises, -⟩ := Server.react_term termed.stored saves fixed fits reacted
  refine ⟨rises, fun packet sent term seen => ⟨fun req asks => ?_, fun req asks => ?_⟩⟩
  · -- the request of `PreVoteElection` carries the next term
    obtain ⟨save, applied, rfl, ran, rfl⟩ := (Server.react_sends reacted sent).1 req asks
    have member := termed.member _ _ ran (by simp)
    have low := (termed.earlier _ _ ran member term seen).1
    have room : w.server.node.currentTerm + 1 < Word.limit := by
      simpa [Server.nextTermFits, ran] using fits
    have carried : w.server.node.preVoteRequest.term = w.server.node.currentTerm + 1 := Word.add_eq room
    omega
  · -- and that of `StartElection` the term `BecomeCandidate` has entered
    obtain ⟨save, applied, rfl, ran, rfl⟩ := (Server.react_sends reacted sent).2 req asks
    have member := termed.member _ _ ran (by simp)
    exact (termed.earlier _ _ ran member term seen).2 rfl

end

/-- A process that has heard a leader of a term and asks for pre-votes. -/
def polledAfter (term : Nat) : List Event :=
  [.serve ⟨"B", "A", 0, .appendRequest ⟨term, "B", 0, 0, [], 0⟩⟩ true,
    .start .election, .step 0 true true, .step 0 true true]

/-- After a leader of term 3 it asks about term 4. -/
theorem terms_never_fall_next : ∃ (w : Watched) (reaction : Reaction),
    Reach (Watched.next plainCommands ["B", "C"]) (TermsFit plainCommands)
      (Watched.started (newRaftNode "A" ["B", "C"] (some {}))) w ∧
      w.server.react plainCommands ["B", "C"] (.step 0 true true) = some reaction ∧
      ⟨"A", "B", 0, .preVoteRequest ⟨4, "A", 0, 0⟩⟩ ∈ reaction.sent ∧ (w.trails 0).Seen 3 ∧ 3 < 4 := by
  have passed : (Transition.exec (Watched.next plainCommands ["B", "C"]) (TermsFit plainCommands)
      (Watched.started (newRaftNode "A" ["B", "C"] (some {}))) (polledAfter 3)).any (fun w =>
        decide (TermsFit plainCommands w (.step 0 true true)) &&
        decide ((w.trails 0).began.map RaftNode.currentTerm = some 3) &&
        (w.server.react plainCommands ["B", "C"] (.step 0 true true)).any fun reaction =>
          decide (⟨"A", "B", 0, .preVoteRequest ⟨4, "A", 0, 0⟩⟩ ∈ reaction.sent)) = true := by
    decide +kernel
  obtain ⟨w, run, test⟩ := Reach.of_exec_test passed
  simp only [Bool.and_eq_true, decide_eq_true_eq] at test
  obtain ⟨⟨allowed, began⟩, steps⟩ := test
  obtain ⟨reaction, reacted, sent⟩ := (Option.any_eq_true ..).mp steps
  have listed := of_decide_eq_true sent
  have seen : (w.trails 0).Seen 3 := Or.inl (Option.map_eq_some_iff.mp began)
  have asked := ((terms_never_fall run allowed reacted).2 _ listed 3 seen).1 _ rfl
  exact ⟨w, reaction, run, reacted, listed, seen, asked⟩

-- The term a pre-vote request names is not adopted: asked about term 9, a node of term 0 asks about term 1.
example : (Transition.exec (Watched.next plainCommands ["B", "C"]) (TermsFit plainCommands)
    (Watched.started (newRaftNode "A" ["B", "C"] (some {})))
    [.serve ⟨"B", "A", 0, .preVoteRequest ⟨9, "B", 0, 0⟩⟩ true, .start .election, .step 0 true true,
      .step 0 true true]).any (fun w =>
        (w.server.react plainCommands ["B", "C"] (.step 0 true true)).any fun reaction =>
          decide (⟨"A", "B", 0, .preVoteRequest ⟨1, "A", 0, 0⟩⟩ ∈ reaction.sent)) = true := by
  decide +kernel

/-- After a leader of the largest term the process asks about term 0, which its peers may grant, and then
falls from the largest term to term 0. -/
theorem terms_fall_past_largest : ∃ (w w' w'' : Watched) (reaction : Reaction),
    Reach (Watched.next plainCommands ["B", "C"]) (AmongMembers plainCommands)
      (Watched.started (newRaftNode "A" ["B", "C"] (some {}))) w ∧
      w.server.react plainCommands ["B", "C"] (.step 0 true true) = some reaction ∧
      ⟨"A", "B", 0, .preVoteRequest ⟨0, "A", 0, 0⟩⟩ ∈ reaction.sent ∧
      (w.trails 0).Seen (2 ^ 64 - 1) ∧
    Reach (Watched.next plainCommands ["B", "C"]) (AmongMembers plainCommands)
      (Watched.started (newRaftNode "A" ["B", "C"] (some {}))) w' ∧
      w'.server.node.currentTerm = 2 ^ 64 - 1 ∧
      AmongMembers plainCommands w' (.step 0 true true) ∧
      w'.next plainCommands ["B", "C"] (.step 0 true true) = some w'' ∧
      w''.server.node.currentTerm = 0 := by
  have asks : (Transition.exec (Watched.next plainCommands ["B", "C"]) (AmongMembers plainCommands)
      (Watched.started (newRaftNode "A" ["B", "C"] (some {}))) (polledAfter (2 ^ 64 - 1))).any (fun w =>
        decide ((w.trails 0).began.map RaftNode.currentTerm = some (2 ^ 64 - 1)) &&
        (w.server.react plainCommands ["B", "C"] (.step 0 true true)).any fun reaction =>
          decide (⟨"A", "B", 0, .preVoteRequest ⟨0, "A", 0, 0⟩⟩ ∈ reaction.sent)) = true := by
    decide +kernel
  have falls : (Transition.exec (Watched.next plainCommands ["B", "C"]) (AmongMembers plainCommands)
      (Watched.started (newRaftNode "A" ["B", "C"] (some {})))
      (polledAfter (2 ^ 64 - 1) ++ [.step 0 true true,
        .reply ⟨"A", "C", 0, .preVoteResponse ⟨0, "A", 0, 0⟩ ⟨0, true⟩⟩ true])).any (fun w =>
        decide (w.server.node.currentTerm = 2 ^ 64 - 1 ∧ AmongMembers plainCommands w (.step 0 true true)) &&
        (w.next plainCommands ["B", "C"] (.step 0 true true)).any fun w' =>
          decide (w'.server.node.currentTerm = 0)) = true := by
    decide +kernel
  obtain ⟨w, run, test⟩ := Reach.of_exec_test asks
  obtain ⟨began, steps⟩ := (Bool.and_eq_true ..).mp test
  obtain ⟨reaction, reacted, sent⟩ := (Option.any_eq_true ..).mp steps
  obtain ⟨w', run', test'⟩ := Reach.of_exec_test falls
  obtain ⟨before, steps'⟩ := (Bool.and_eq_true ..).mp test'
  obtain ⟨high, allowed⟩ := of_decide_eq_true before
  obtain ⟨w'', stepped, low⟩ := (Option.any_eq_true ..).mp steps'
  have seen : (w.trails 0).Seen (2 ^ 64 - 1) :=
    Or.inl (Option.map_eq_some_iff.mp (of_decide_eq_true began))
  exact ⟨w, w', w'', reaction, run, reacted, of_decide_eq_true sent, seen, run', high, allowed, stepped,
    of_decide_eq_true low⟩

end Raft

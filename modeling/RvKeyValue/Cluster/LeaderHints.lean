import Mathlib.Data.Finset.Lattice.Fold
import RvKeyValue.Base.Hops
import RvKeyValue.Cluster.ElectionSafety
import RvKeyValue.Cluster.Rules
import RvKeyValue.Node.Coherence

/-!
# Leader hints

Every node names the leader it knows of, and a node that is asked and does not lead sends the
request on to that leader. A node names a leader when it is promoted itself, or when it accepts a
request of a leader in the request's term; it forgets the name when its term changes. Requests are
built only by nodes that have leader progress, and those lead the term they are in. So a hint names
the node that was promoted in the term of the node that has it, and since a term has one promoted
node and a promoted node stays in no earlier term, a request that is sent on twice comes to a node
of a later term each time.
-/

namespace Raft

open Transition (Reach)

/-- Where `forwardToLeader` sends a request that a node is asked: to its leader, unless that is
unknown or the node itself. -/
def Cluster.forwards (c : Cluster) (id : NodeId) : Option NodeId :=
  let n := (c.servers id).node
  if n.leaderID = "" ∨ n.leaderID = n.id then none else some n.leaderID

/-- A node was promoted in a term. -/
def Cluster.Promoted (c : Cluster) (id : NodeId) (term : Nat) : Prop :=
  ∃ record ∈ c.observed, record.node = id ∧ record.observation = .promoted term

/-- A record that names a leader, or leads, only in a term in which that node was elected. -/
structure Hinted (elected : NodeId → Nat → Prop) (n : RaftNode) : Prop where
  /-- The named leader was elected. -/
  hint : n.leaderID ≠ "" → elected n.leaderID n.currentTerm
  /-- A leader was elected. -/
  role : n.state = .leader → elected n.id n.currentTerm
  /-- Role and progress fit together. -/
  coherent : n.Coherent

section Records

variable {elected elected' : NodeId → Nat → Prop} {n : RaftNode}

/-- More nodes were elected. -/
theorem Hinted.mono (hinted : Hinted elected n) (more : ∀ id term, elected id term → elected' id term) :
    Hinted elected' n :=
  ⟨fun named => more _ _ (hinted.hint named), fun leads => more _ _ (hinted.role leads),
    hinted.coherent⟩

/-- A record that was just built names nobody. -/
theorem Hinted.restart (elected : NodeId → Nat → Prop) (id : NodeId) (peers : List NodeId)
    (store : Option PersistentState) : Hinted elected (newRaftNode id peers store) := by
  have unnamed : (newRaftNode id peers store).leaderID = "" := by cases store <;> rfl
  refine ⟨fun named => absurd unnamed named, fun leads => ?_, RaftNode.newRaftNode_coherent ..⟩
  rw [newRaftNode_state] at leads
  contradiction

/-- A process reacts to an event: who leads led before or is promoted, and a hint is kept within its term,
the node's own, or the sender's of a request it accepts. -/
theorem Hinted.react {unmarshal : Bytes → Option MembershipCommand} {sv : Server} {peers : List NodeId}
    {event : Event} {reaction : Reaction} (hinted : Hinted elected sv.node)
    (won : ∀ tag save applied term, event = .step tag save applied →
      sv.calls tag = some (.election (.winning term)) →
      (sv.node.promoteCandidate save term).value = true → elected sv.node.id term)
    (packet : ∀ packet req, event.packet = some packet → packet.body = .appendRequest req →
      elected req.leaderID req.term)
    (reacted : sv.react unmarshal peers event = some reaction) :
    Hinted elected reaction.server.node := by
  have own := Server.react_id reacted
  rcases Server.react_moves reacted with ⟨-, node⟩ | ⟨-, node | ⟨op, runs, node⟩⟩
  · rw [node]
    exact .restart ..
  · rw [node]
    exact hinted
  have orderly : RaftNode.Orderly op sv.node reaction.server.node :=
    node ▸ RaftNode.perform_orderly hinted.coherent event.save op
  have role : reaction.server.node.state = .leader →
      elected reaction.server.node.id reaction.server.node.currentTerm := by
    intro leads
    rw [own, orderly.term leads]
    rw [node] at leads
    obtain ⟨-, before | ⟨candidate, rfl⟩⟩ :=
      RaftNode.perform_leads (Server.operation_ne_becomeLeader runs) leads
    · exact hinted.role before
    · obtain ⟨tag, save, applied, rfl, running⟩ := Server.operation_promoteCandidate runs
      refine won tag save applied _ rfl running ?_
      simp only [RaftNode.perform, RaftNode.promoteCandidate] at leads ⊢
      split
      · rename_i refused
        rw [if_pos refused, candidate] at leads
        contradiction
      · rfl
  refine ⟨fun named => ?_, role, orderly.coherent⟩
  rcases orderly.hint with none | ⟨kept, term⟩ | leads | names
  · exact absurd none named
  · rw [kept] at named ⊢
    rw [term]
    exact hinted.hint named
  · rw [orderly.coherent.hint leads]
    exact role leads
  · cases op with
    | handleAppendEntries req =>
      obtain ⟨leader, term⟩ := names
      rw [leader, term]
      cases Server.operation_cases runs with
      | call running made =>
        unfold Call.operation at made
        split at made <;> cases made
      | message taken made =>
        unfold Body.operation at made
        split at made <;> cases made
        exact packet _ req taken ‹_›
    | _ => exact names.elim

end Records

/-- Requests are signed. -/
theorem RaftNode.buildAppendEntries_signed {n : RaftNode} {peer : NodeId} {req : AppendEntriesRequest}
    (built : n.buildAppendEntries peer = .ok req) : req.leaderID = n.id := by
  unfold RaftNode.buildAppendEntries at built
  split at built
  · contradiction
  · obtain rfl := Except.ok.inj built
    rfl

/-- Every `Save` succeeds, membership does not change and terms do not wrap. -/
def FixedMembers (unmarshal : Bytes → Option MembershipCommand) (c : Cluster) (label : Label) : Prop :=
  Cluster.savesSucceed label = true ∧ c.membershipFixed unmarshal label = true ∧
    c.termsFit label = true

instance (unmarshal : Bytes → Option MembershipCommand) (c : Cluster) (label : Label) :
    Decidable (FixedMembers unmarshal c label) := by
  unfold FixedMembers
  infer_instance

section Clusters

variable {unmarshal : Bytes → Option MembershipCommand} {members : Members} {c c' : Cluster}
  {votes : Votes} {label : Label}

/-- A node was promoted in a term and has stored its vote for itself. -/
def Cluster.Elected (c : Cluster) (votes : Votes) (id : NodeId) (term : Nat) : Prop :=
  c.Promoted id term ∧ votes id term id

/-- Every hint, every leader and every request on its way is of a node that was elected. -/
structure HintedCluster (members : Members) (c : Cluster) (votes : Votes) : Prop where
  /-- Stored votes explain the promotions. -/
  fair : FairCluster members.asks (fun id peers => peers = members.peers id) members.ids c votes
  /-- The named leaders were elected. -/
  hinted : ∀ id ∈ members.ids, Hinted (c.Elected votes) (c.servers id).node
  /-- So were the senders of requests that were built. -/
  requests : ∀ id ∈ members.ids, ∀ tag call, (c.servers id).calls tag = some call →
    ∀ request ∈ call.requests, c.Elected votes request.2.leaderID request.2.term
  /-- So were the senders of requests on their way. -/
  net : ∀ packet ∈ c.net, ∀ req, packet.body = .appendRequest req →
    c.Elected votes req.leaderID req.term

namespace HintedCluster

/-- Nobody is named in a started cluster. -/
theorem initial (members : Members) :
    HintedCluster members (.initial members) fun _ _ _ => False where
  fair := .initial members
  hinted id _ := .restart _ id (members.peers id) (some {})
  requests _ _ _ _ running := by contradiction
  net _ listed := by contradiction

/-- A promotion is observed, and the promoted node has stored its vote. -/
theorem promoted (hinted : HintedCluster members c votes) (inside : label.node ∈ members.ids)
    {net : List Packet} {reaction : Reaction} {tag term : Nat} {save applied : Bool}
    (steps : label.event = .step tag save applied)
    (running : (c.servers label.node).calls tag = some (.election (.winning term)))
    (won : ((c.servers label.node).node.promoteCandidate save term).value = true)
    (reacted : (c.servers label.node).react unmarshal (members.peers label.node) label.event =
      some reaction) :
    (c.absorb label.node net reaction).Elected (votes.record label.node reaction.server.node)
      (c.servers label.node).node.id term := by
  have server := hinted.fair.servers _ inside
  obtain ⟨state, voter⟩ := server.voter
  rw [voter.own]
  obtain ⟨candidate, current⟩ := RaftNode.promoteCandidate_promoted won
  refine ⟨⟨⟨label.node, tag, .promoted term⟩, List.mem_append_right _ ?_, rfl, rfl⟩, Or.inl ?_⟩
  · rw [steps] at reacted
    simp only [Server.react, running, Option.bind_some, Call.step, Call.electionStep, won, if_true,
      Option.map_some] at reacted
    obtain rfl := Option.some.inj reacted
    exact List.mem_map.mpr ⟨(tag, .promoted term), List.mem_singleton.mpr rfl, rfl⟩
  · rw [← current]
    exact (server.campaign tag _ running).self rfl candidate

/-- A step names only nodes that were elected, if no other election runs where `BecomeCandidate` fails
to save. -/
theorem next (hinted : HintedCluster members c votes)
    (fixed : c.membershipFixed unmarshal label = true) (fits : c.termsFit label = true)
    (alone : (c.servers label.node).ElectsAlone label.event)
    (stepped : c.step unmarshal members label = some c') :
    HintedCluster members c' (votes.record label.node (c'.servers label.node).node) := by
  have fair := hinted.fair.step fixed fits alone stepped
  obtain ⟨inside, net, reaction, taken, reacted, rfl⟩ := Cluster.step_some stepped
  have took := Cluster.take_some taken
  have own := c.absorb_own label.node net reaction
  rw [own] at fair ⊢
  have more : ∀ id term, c.Elected votes id term →
      (c.absorb label.node net reaction).Elected (votes.record label.node reaction.server.node) id term := by
    rintro id term ⟨⟨record, seen, facts⟩, voted⟩
    exact ⟨⟨record, List.mem_append_left _ seen, facts⟩, Or.inl voted⟩
  have asks : (c.servers label.node).Asks reaction :=
    Server.react_asks (fun _ _ _ steps running => Cluster.termsFit_preVoteWon fits steps running)
      reacted
  refine ⟨fair, fun id member => ?_, fun id member tag call running request listed => ?_,
    fun packet listed req same => ?_⟩
  · by_cases here : id = label.node
    · subst here
      rw [own]
      refine ((hinted.hinted _ inside).mono more).react
        (fun tag save applied term steps running won =>
          hinted.promoted inside steps running won reacted)
        (fun packet req same body => more _ _ (hinted.net packet (took.1 packet same) req body)) reacted
    · rw [c.absorb_other net reaction here]
      exact (hinted.hinted id member).mono more
  · by_cases here : id = label.node
    · subst here
      rw [own] at running
      rcases asks.calls tag call running request listed with ⟨before, ran, old⟩ | built
      · exact more _ _ (hinted.requests _ inside tag before ran request old)
      · have leader := hinted.hinted _ inside
        rw [RaftNode.buildAppendEntries_signed built, RaftNode.buildAppendEntries_term built]
        exact more _ _ (leader.role ((leader.coherent.builds _).mp ⟨_, built⟩).1)
    · rw [c.absorb_other net reaction here] at running
      exact more _ _ (hinted.requests id member tag call running request listed)
  · rcases List.mem_append.mp listed with old | new
    · exact more _ _ (hinted.net packet (took.2 packet old) req same)
    · obtain ⟨tag, call, peer, ran, built⟩ := asks.sent packet new req same
      exact more _ _ (hinted.requests _ inside tag call ran _ built)

/-- A step names only nodes that were elected. -/
theorem step (hinted : HintedCluster members c votes) (allowed : FixedMembers unmarshal c label)
    (stepped : c.step unmarshal members label = some c') :
    HintedCluster members c' (votes.record label.node (c'.servers label.node).node) := by
  obtain ⟨saves, fixed, fits⟩ := allowed
  have alone : (c.servers label.node).ElectsAlone label.event := fun tag save applied steps _ =>
    Or.inl (by simpa [Cluster.savesSucceed, steps] using saves)
  exact hinted.next fixed fits alone stepped

/-- Stored votes explain every hint of a run. -/
theorem reach (run : Reach (Cluster.step unmarshal members) (FixedMembers unmarshal)
    (.initial members) c) : ∃ votes, HintedCluster members c votes :=
  run.invariant (P := fun c => ∃ votes, HintedCluster members c votes) ⟨_, .initial members⟩
    fun _ _ _ ⟨_, hinted⟩ allowed stepped => ⟨_, hinted.step allowed stepped⟩

/-- A named leader is a member that was promoted in the term of the node that names it, and is in no
earlier term. -/
theorem named (hinted : HintedCluster members c votes) {id : NodeId} (inside : id ∈ members.ids)
    (known : (c.servers id).node.leaderID ≠ "") :
    (c.servers id).node.leaderID ∈ members.ids ∧
      c.Promoted (c.servers id).node.leaderID (c.servers id).node.currentTerm ∧
      (c.servers id).node.currentTerm ≤
        (c.servers (c.servers id).node.leaderID).node.currentTerm := by
  obtain ⟨promoted, voted⟩ := (hinted.hinted id inside).hint known
  have member := hinted.fair.voters _ _ _ voted
  obtain ⟨state, voter⟩ := (hinted.fair.servers _ member).voter
  exact ⟨member, promoted, voter.le voted⟩

/-- A request that is sent on twice comes to a later term. -/
theorem climbs (hinted : HintedCluster members c votes) :
    Hops.Climbs c.forwards (fun id => id ∈ members.ids)
      (fun id => (c.servers id).node.currentTerm) := by
  have sends : ∀ {id target}, c.forwards id = some target →
      (c.servers id).node.leaderID = target ∧ target ≠ "" ∧ target ≠ (c.servers id).node.id := by
    intro id target sent
    simp only [Cluster.forwards] at sent
    split at sent
    · contradiction
    · rename_i known
      rw [not_or] at known
      obtain rfl := Option.some.inj sent
      exact ⟨rfl, known.1, known.2⟩
  refine ⟨fun inside sent => ?_, fun {i j k} inside first second => ?_⟩
  · obtain ⟨rfl, known, -⟩ := sends sent
    exact (hinted.named inside known).1
  · obtain ⟨rfl, known, -⟩ := sends first
    obtain ⟨member, ⟨left, leftSeen, leftNode, leftPromoted⟩, above⟩ := hinted.named inside known
    refine lt_of_le_of_ne above fun same => ?_
    obtain ⟨rfl, named, other⟩ := sends second
    obtain ⟨-, ⟨right, rightSeen, rightNode, rightPromoted⟩, -⟩ := hinted.named member named
    -- in one term both hints name the node that was promoted in it
    have agree := hinted.fair.agree leftSeen rightSeen leftPromoted (same ▸ rightPromoted)
      fun leftPeers rightPeers leftAsked rightAsked => members.close leftAsked rightAsked
    obtain ⟨state, voter⟩ := (hinted.fair.servers _ member).voter
    rw [leftNode, rightNode] at agree
    exact other (agree.symm.trans voter.own.symm)

end HintedCluster

/-- Leader hints lead to a node that was promoted, never in a circle, and sending a request on ends. -/
theorem forwarding_ends
    (run : Reach (Cluster.step unmarshal members) (FixedMembers unmarshal) (.initial members) c) :
    (∀ id ∈ members.ids, ∀ target, (c.servers id).node.leaderID = target → target ≠ "" →
      target ∈ members.ids ∧ c.Promoted target (c.servers id).node.currentTerm ∧
        (c.servers id).node.currentTerm ≤ (c.servers target).node.currentTerm) ∧
      (∀ id, ¬ Relation.TransGen
        (fun i j => i ∈ members.ids ∧ (c.servers i).node.leaderID = j ∧ j ≠ "" ∧ j ≠ i) id id) ∧
      ∀ id ∈ members.ids, ∃ hops, Hops.after c.forwards id hops = none := by
  obtain ⟨votes, hinted⟩ := HintedCluster.reach run
  refine ⟨?_, fun id cycle => ?_, fun id inside => ?_⟩
  · rintro id inside target rfl known
    exact hinted.named inside known
  · refine hinted.climbs.acyclic id (Relation.TransGen.mono ?_ _ _ cycle)
    rintro i j ⟨inside, rfl, known, other⟩
    obtain ⟨state, voter⟩ := (hinted.fair.servers _ inside).voter
    refine ⟨inside, ?_⟩
    simp only [Cluster.forwards]
    rw [if_neg (by rw [voter.own]; exact not_or.mpr ⟨known, other⟩)]
  · exact hinted.climbs.ends (fun other member => Finset.le_sup
      (f := fun id => (c.servers id).node.currentTerm) (List.mem_toFinset.mpr member)) inside

end Clusters

/-- `A` leads term 1 and the others hear of it; then `C` is promoted in term 2 and `A` hears of
that. -/
def heardOfTwoLeaders : List Label :=
  Label.campaign "A" 0 1 0 0 [("B", 0)] ++ [⟨"A", .start .replicate⟩] ++ Label.sections "A" 1 5 ++
  [⟨"B", .serve ⟨"A", "B", 1, .appendRequest ⟨1, "A", 0, 0, [], 0⟩⟩ true⟩,
    ⟨"C", .serve ⟨"A", "C", 1, .appendRequest ⟨1, "A", 0, 0, [], 0⟩⟩ true⟩] ++
  Label.campaign "C" 0 2 0 0 [("A", 1)] ++ [⟨"C", .start .replicate⟩] ++ Label.sections "C" 1 5 ++
  [⟨"A", .serve ⟨"C", "A", 1, .appendRequest ⟨2, "C", 0, 0, [], 0⟩⟩ true⟩]

/-- A request to `B` goes to `A` and from there to `C`, where it ends. -/
theorem forwarding_ends_twice : ∃ c,
    Reach (Cluster.step plainCommands threeNodes) (FixedMembers plainCommands)
      (.initial threeNodes) c ∧
      Hops.after c.forwards "B" 1 = some "A" ∧ Hops.after c.forwards "B" 2 = some "C" ∧
      (c.Promoted "A" 1 ∧ (c.servers "B").node.currentTerm ≤ (c.servers "A").node.currentTerm) ∧
      (¬ Relation.TransGen (fun i j => i ∈ threeNodes.ids ∧ (c.servers i).node.leaderID = j ∧
        j ≠ "" ∧ j ≠ i) "B" "B") ∧
      ∃ hops, Hops.after c.forwards "B" hops = none := by
  have passed : (Transition.exec (Cluster.step plainCommands threeNodes)
      (FixedMembers plainCommands) (.initial threeNodes) heardOfTwoLeaders).any (fun c =>
        decide (Hops.after c.forwards "B" 1 = some "A" ∧ Hops.after c.forwards "B" 2 = some "C" ∧
          (c.servers "B").node.leaderID = "A" ∧ (c.servers "B").node.currentTerm = 1)) = true := by
    decide +kernel
  obtain ⟨c, run, test⟩ := Reach.of_exec_test passed
  obtain ⟨first, second, named, term⟩ := of_decide_eq_true test
  obtain ⟨hints, acyclic, ends⟩ := forwarding_ends run
  obtain ⟨-, promoted, later⟩ := hints "B" (by decide) "A" named (by decide)
  rw [term] at promoted
  exact ⟨c, run, first, second, ⟨promoted, later⟩, acyclic "B", ends "B" (by decide)⟩

end Raft

import RvKeyValue.Cluster.ElectionSafety

/-!
# A cluster that changes its members

Nodes are launched with `NewRaftNode` while others run, and a membership change takes effect on
each node when its own `ApplyCommitted` reaches it. `StartElection` counts a majority of the
configuration its node has applied, so two candidates of a term may count over different members.
The stores' votes and the peers each campaign asks are kept as history.

Two campaigns of a term elect one node when their memberships differ in one member at most. Nothing
in the code keeps the applied configurations of two nodes that close.
-/

namespace Raft

open Transition (Reach)

/-- A vote that a store has held. -/
structure Ballot where
  /-- The node that voted. -/
  voter : NodeId
  /-- The term. -/
  term : Nat
  /-- The node it voted for. -/
  candidate : NodeId
deriving DecidableEq, Repr

/-- The peers a candidate asked in a term. -/
structure Canvass where
  /-- The candidate. -/
  node : NodeId
  /-- The term. -/
  term : Nat
  /-- The peers of its configuration. -/
  peers : List NodeId
deriving DecidableEq, Repr

/-- A cluster, the nodes launched so far, and the history of its elections. -/
structure Fleet where
  /-- The processes and messages. -/
  cluster : Cluster
  /-- The nodes that were launched. -/
  started : List NodeId
  /-- The votes stored so far. -/
  ballots : List Ballot := []
  /-- The campaigns so far. -/
  campaigns : List Canvass := []

/-- What happens in a fleet. -/
inductive Action
  /-- A node is started on an empty store with the other members as peers. -/
  | launch (members : Members) (id : NodeId)
  /-- A node takes a step; a restarted process is given the other members as peers. -/
  | run (members : Members) (label : Label)

namespace Fleet

/-- Every member has been launched. -/
def initial (members : Members) : Fleet where
  cluster := .initial members
  started := members.ids

/-- The vote a node has stored. -/
def stored (id : NodeId) (n : RaftNode) : List Ballot :=
  match n.store with
  | some state => if state.votedFor = "" then [] else [⟨id, state.currentTerm, state.votedFor⟩]
  | none => []

/-- The campaign a step opens. -/
def canvass (c : Cluster) (label : Label) : List Canvass :=
  let n := (c.servers label.node).node
  match c.stepped label with
  | some (.election .campaigning) => [⟨label.node, n.currentTerm, n.peers⟩]
  | _ => []

/-- A node is started on an empty store. -/
def launched (c : Cluster) (id : NodeId) (peers : List NodeId) : Cluster :=
  { c with servers := Function.update c.servers id { node := newRaftNode id peers (some {}) } }

/-- One step of the fleet. -/
def step (unmarshal : Bytes → Option MembershipCommand) (f : Fleet) : Action → Option Fleet
  | .launch members id =>
    if id ∈ members.ids ∧ id ∉ f.started then
      some { f with
        cluster := launched f.cluster id (members.peers id)
        started := id :: f.started }
    else none
  | .run members label =>
    if label.node ∈ f.started then
      (f.cluster.step unmarshal members label).map fun c =>
        { f with
          cluster := c
          ballots := f.ballots ++ stored label.node (c.servers label.node).node
          campaigns := f.campaigns ++ canvass f.cluster label }
    else none

/-- A node applies its own return to the cluster, while it has no vote in memory, only in a term
in which its store has held none. -/
def rejoinsUnvoted (unmarshal : Bytes → Option MembershipCommand) (f : Fleet) (label : Label) : Bool :=
  let n := (f.cluster.servers label.node).node
  match f.cluster.stepped label with
  | some (.apply (.holding entry)) =>
    match decodeMembershipChange unmarshal entry.command with
    | some (.ok change) =>
      decide (change = ⟨.addPeer, label.node⟩ → n.selfMember = false → n.votedFor = "" →
        ∀ ballot ∈ f.ballots, ballot.voter = label.node → ballot.term ≠ n.currentTerm)
    | _ => true
  | _ => true

/-- A node asks for votes over a membership at most one member apart from that of every earlier
campaign of the term. -/
def campaignsClose (f : Fleet) (label : Label) : Bool :=
  decide (∀ new ∈ canvass f.cluster label, ∀ old ∈ f.campaigns, old.term = new.term →
    Close (old.node :: old.peers) (new.node :: new.peers))

end Fleet

/-- What the counting of votes rests on while members come and go: terms do not wrap, a node runs one
`StartElection` at a time and returns only in a term it has not voted in, and the campaigns of a term
are over memberships at most one member apart. -/
def FairFleets (unmarshal : Bytes → Option MembershipCommand) (f : Fleet) : Action → Prop
  | .launch _ _ => True
  | .run _ label => f.cluster.termsFit label = true ∧ f.cluster.oneElection label = true ∧
      f.rejoinsUnvoted unmarshal label = true ∧ f.campaignsClose label = true

instance (unmarshal : Bytes → Option MembershipCommand) (f : Fleet) (action : Action) :
    Decidable (FairFleets unmarshal f action) := by
  cases action <;> unfold FairFleets <;> infer_instance

section

variable {unmarshal : Bytes → Option MembershipCommand} {members : Members} {f f' : Fleet}

/-- A change names a peer. -/
theorem decodeMembershipChange_named {data : Bytes} {change : MembershipChange}
    (decoded : decodeMembershipChange unmarshal data = some (.ok change)) : change.peerID ≠ "" := by
  unfold decodeMembershipChange at decoded
  split at decoded
  · contradiction
  split at decoded
  · contradiction
  dsimp only at decoded
  split at decoded
  · cases decoded
  rename_i valid
  obtain rfl := Except.ok.inj (Option.some.inj decoded)
  intro empty
  unfold MembershipChange.validate at valid
  rw [if_pos (by rw [empty]; rfl)] at valid
  contradiction

/-- A validated change leaves a proper list of peers. -/
theorem RaftNode.Reconfigured.proper {n m : RaftNode} {change : MembershipChange}
    (applied : RaftNode.Reconfigured n change m) (named : change.peerID ≠ "")
    (proper : Proper n.id n.peers) : Proper n.id m.peers := by
  obtain ⟨own, distinct, others, unnamed⟩ := proper
  rw [applied.peers]
  by_cases self : change.peerID = n.id
  · rw [if_pos self]
    exact ⟨own, distinct, others, unnamed⟩
  rw [if_neg self]
  by_cases adds : change.type = .addPeer
  · rw [if_pos adds]
    split
    · exact ⟨own, distinct, others, unnamed⟩
    · rename_i new
      have outside : change.peerID ∉ n.peers := by simpa [containsPeer] using new
      refine ⟨own, ?_, ?_, ?_⟩
      · exact List.nodup_append.mpr ⟨distinct, List.nodup_singleton _, by
          rintro peer listed other added rfl
          rw [List.mem_singleton.mp added] at listed
          exact outside listed⟩
      · simpa [others] using fun same => self same.symm
      · simpa [unnamed] using named.symm
  · rw [if_neg adds]
    have kept : ∀ peer, peer ∈ removePeer n.peers change.peerID → peer ∈ n.peers :=
      fun peer listed => List.mem_of_mem_filter listed
    exact ⟨own, distinct.filter _, fun listed => others (kept _ listed),
      fun listed => unnamed (kept _ listed)⟩

namespace Fleet

/-- The votes on record. -/
def votes (f : Fleet) : Votes := fun voter term candidate => ⟨voter, term, candidate⟩ ∈ f.ballots

/-- What a node has stored. -/
theorem mem_stored {id : NodeId} {n : RaftNode} {ballot : Ballot} :
    ballot ∈ stored id n ↔ ballot.voter = id ∧ ∃ state, n.store = some state ∧
      state.currentTerm = ballot.term ∧ state.votedFor = ballot.candidate ∧ ballot.candidate ≠ "" := by
  obtain ⟨voter, term, candidate⟩ := ballot
  unfold stored
  cases store : n.store with
  | none => simp
  | some state =>
    by_cases unvoted : state.votedFor = ""
    · simp only [unvoted, if_true]
      constructor
      · intro listed
        contradiction
      · rintro ⟨-, found, same, -, vote, named⟩
        rw [← Option.some.inj same] at vote
        exact absurd (vote.symm.trans unvoted) named
    · simp only [if_neg unvoted, List.mem_singleton, Ballot.mk.injEq, Option.some.injEq]
      constructor
      · rintro ⟨rfl, rfl, rfl⟩
        exact ⟨rfl, state, rfl, rfl, rfl, unvoted⟩
      · rintro ⟨rfl, found, rfl, rfl, rfl, -⟩
        exact ⟨rfl, rfl, rfl⟩

/-- The history has the vote a node has stored. -/
theorem votes_append (f : Fleet) (c : Cluster) (id : NodeId) (n : RaftNode) (started : List NodeId)
    (campaigns : List Canvass) :
    votes ⟨c, started, f.ballots ++ stored id n, campaigns⟩ = f.votes.record id n := by
  funext voter term candidate
  refine propext ?_
  show _ ∈ f.ballots ++ stored id n ↔ _
  rw [List.mem_append, mem_stored]
  rfl

/-- A step opens one campaign at most. -/
theorem canvass_single {c : Cluster} {label : Label} {left right : Canvass}
    (leftOpens : left ∈ canvass c label) (rightOpens : right ∈ canvass c label) : left = right := by
  unfold canvass at leftOpens rightOpens
  dsimp only at leftOpens rightOpens
  split at leftOpens
  · rename_i opens
    rw [opens] at rightOpens
    exact (List.mem_singleton.mp leftOpens).trans (List.mem_singleton.mp rightOpens).symm
  · contradiction

/-- The peers asked so far. -/
def polls (f : Fleet) : Polls := fun id term peers => ⟨id, term, peers⟩ ∈ f.campaigns

end Fleet

/-- The votes of a fleet explain its promotions, and the campaigns of a term are close. -/
structure FairFleet (f : Fleet) : Prop where
  /-- Every process keeps its votes. -/
  fair : FairCluster f.polls Proper f.started f.cluster f.votes
  /-- Every process runs one election at most. -/
  lone : ∀ id, (f.cluster.servers id).Lone
  /-- Campaigns of a term are over memberships at most one member apart. -/
  close : ∀ left ∈ f.campaigns, ∀ right ∈ f.campaigns, left.term = right.term →
    Close (left.node :: left.peers) (right.node :: right.peers)

namespace FairFleet

/-- Nobody has voted in a started fleet. -/
theorem initial (members : Members) : FairFleet (.initial members) where
  fair := {
    servers := fun id inside => .started _ (members.proper inside) (by simp [Fleet.votes, Fleet.initial])
    voters := by simp [Fleet.votes, Fleet.initial]
    net := by simp [Fleet.initial, Cluster.initial]
    observed := by simp [Fleet.initial, Cluster.initial] }
  lone _ := .idle rfl
  close := by simp [Fleet.initial]

/-- A node is launched. -/
theorem launch (fleet : FairFleet f) {members : Members} {id : NodeId} (inside : id ∈ members.ids)
    (new : id ∉ f.started) : FairFleet { f with
      cluster := Fleet.launched f.cluster id (members.peers id)
      started := id :: f.started } where
  fair := {
    servers := fun other listed => by
      by_cases same : other = id
      · rw [same]
        simp only [Fleet.launched, Function.update_self]
        exact .started _ (members.proper inside) fun _ _ voted => new (fleet.fair.voters _ _ _ voted)
      · simp only [Fleet.launched, Function.update_of_ne same]
        exact fleet.fair.servers other ((List.mem_cons.mp listed).resolve_left same)
    voters := fun _ _ _ voted => List.mem_cons_of_mem _ (fleet.fair.voters _ _ _ voted)
    net := fleet.fair.net
    observed := fleet.fair.observed }
  lone other := by
    by_cases same : other = id
    · rw [same]
      simp only [Fleet.launched, Function.update_self]
      exact .idle rfl
    · simp only [Fleet.launched, Function.update_of_ne same]
      exact fleet.lone other
  close := fleet.close

/-- A node takes a step. -/
theorem run (fleet : FairFleet f) {label : Label} (allowed : FairFleets unmarshal f (.run members label))
    (inside : label.node ∈ f.started) {c : Cluster}
    (stepped : f.cluster.step unmarshal members label = some c) : FairFleet { f with
      cluster := c
      ballots := f.ballots ++ Fleet.stored label.node (c.servers label.node).node
      campaigns := f.campaigns ++ Fleet.canvass f.cluster label } := by
  obtain ⟨member, net, reaction, taken, reacted, rfl⟩ := Cluster.step_some stepped
  have took := Cluster.take_some taken
  obtain ⟨fits, single, rejoins, apart⟩ := allowed
  have apart := of_decide_eq_true apart
  refine ⟨?_, Cluster.step_lone fleet.lone single stepped,
    fun left leftListed right rightListed same => ?_⟩
  · rw [Fleet.votes_append]
    rw [f.cluster.absorb_own]
    have more : FairCluster (Fleet.polls ⟨f.cluster.absorb label.node net reaction, f.started,
        f.ballots ++ Fleet.stored label.node reaction.server.node,
        f.campaigns ++ Fleet.canvass f.cluster label⟩) Proper f.started f.cluster f.votes :=
      fleet.fair.more fun _ _ _ asked => List.mem_append_left _ asked
    have server := more.servers _ inside
    refine more.absorb inside took.2 (server.react (fun _ proper => proper) (members.proper member)
      (fun packet same => more.net packet (took.1 packet same))
      ((fleet.lone _).electsAlone _)
      (fun _ _ _ steps running => Cluster.termsFit_preVoteWon fits steps running)
      (fun tag save applied same running => ?_)
      (fun tag save applied entry change same running decoded =>
        ⟨fun m applied => ?_, fun returns left unvoted candidate voted => ?_⟩) reacted)
    · refine List.mem_append_right _ ?_
      simp [Fleet.canvass, Cluster.stepped, same, running]
    · obtain ⟨state, voter⟩ := server.voter
      rw [← voter.own]
      refine applied.proper (decodeMembershipChange_named decoded) ?_
      rw [voter.own]
      exact server.listed.memory
    · simp only [Fleet.rejoinsUnvoted, Cluster.stepped, same, running, decoded] at rejoins
      exact of_decide_eq_true rejoins returns left unvoted _ voted rfl rfl
  · rcases List.mem_append.mp leftListed with leftOld | leftNew
    · rcases List.mem_append.mp rightListed with rightOld | rightNew
      · exact fleet.close left leftOld right rightOld same
      · exact apart right rightNew left leftOld same
    · rcases List.mem_append.mp rightListed with rightOld | rightNew
      · exact (apart left leftNew right rightOld same.symm).symm
      · rw [Fleet.canvass_single leftNew rightNew]
        exact .of_eq rfl

/-- Every step keeps the fleet fair. -/
theorem step (fleet : FairFleet f) {action : Action} (allowed : FairFleets unmarshal f action)
    (stepped : f.step unmarshal action = some f') : FairFleet f' := by
  cases action with
  | launch members id =>
    simp only [Fleet.step] at stepped
    split at stepped
    · rename_i new
      obtain rfl := Option.some.inj stepped
      exact fleet.launch new.1 new.2
    · contradiction
  | run members label =>
    simp only [Fleet.step] at stepped
    split at stepped
    · rename_i inside
      obtain ⟨c, ran, rfl⟩ := Option.map_eq_some_iff.mp stepped
      exact fleet.run allowed inside ran
    · contradiction

end FairFleet

/-- At most one node is promoted in a term while members come and go. -/
theorem promotions_agree
    (run : Reach (Fleet.step unmarshal) (FairFleets unmarshal) (.initial members) f)
    {left right : Record} (leftSeen : left ∈ f.cluster.observed)
    (rightSeen : right ∈ f.cluster.observed) {term : Nat}
    (leftPromoted : left.observation = .promoted term)
    (rightPromoted : right.observation = .promoted term) : left.node = right.node := by
  have fleet : FairFleet f := run.invariant (.initial members)
    fun _ _ _ fleet allowed stepped => fleet.step allowed stepped
  exact fleet.fair.agree leftSeen rightSeen leftPromoted rightPromoted
    fun leftPeers rightPeers leftAsked rightAsked => fleet.close _ leftAsked _ rightAsked rfl

end

/-- Four members. -/
def fourNodes : Members := .ofIds ["A", "B", "C", "D"] (by decide) (by decide)

/-- `D` is added. -/
def addD : MembershipChange := ⟨.addPeer, "D"⟩

/-- `A` leads three members and commits with `B` that `D` comes. When it has applied that, `D` is
launched, `A` restarts and is elected again by `B` and `D` as one of four. -/
def grownByOne : List Action :=
  let entry : LogEntry := ⟨1, 1, membershipJson addD⟩
  let req : AppendEntriesRequest := ⟨1, "A", 0, 0, [entry], 0⟩
  let three : List Label := Label.campaign "A" 0 1 0 0 [("B", 0)] ++
    [⟨"A", .start (.propose entry.command)⟩] ++ Label.sections "A" 1 9 ++
    Label.rpc "A" "B" 1 (.appendRequest req) (.appendResponse req ⟨1, true⟩) ++
    Label.sections "A" 1 3 ++ [⟨"A", .start .apply⟩] ++ Label.sections "A" 2 3
  let four : List Label :=
    [⟨"A", .crash⟩] ++ Label.campaign "A" 3 2 1 1 [("B", 1), ("D", 0)]
  three.map (.run threeNodes) ++ [.launch fourNodes "D"] ++ four.map (.run fourNodes)

/-- The promotion over four members is the only one of its term. -/
theorem promotions_agree_grown : ∃ f record,
    Reach (Fleet.step (readsChanges [addD])) (FairFleets (readsChanges [addD]))
      (.initial threeNodes) f ∧
      record ∈ f.cluster.observed ∧ record.observation = .promoted 2 ∧
      ∀ other ∈ f.cluster.observed, other.observation = .promoted 2 → other.node = record.node := by
  have passed : (Transition.exec (Fleet.step (readsChanges [addD]))
      (FairFleets (readsChanges [addD])) (.initial threeNodes) grownByOne).any (fun f =>
        decide (⟨"A", 3, .promoted 2⟩ ∈ f.cluster.observed)) = true := by
    decide +kernel
  obtain ⟨f, run, test⟩ := Reach.of_exec_test passed
  have seen := of_decide_eq_true test
  exact ⟨f, _, run, seen, rfl, fun other listed promoted =>
    promotions_agree run listed seen promoted rfl⟩

/-- `E` is removed. -/
def dropE : MembershipChange := ⟨.removePeer, "E"⟩

/-- `D` is removed. -/
def dropD : MembershipChange := ⟨.removePeer, "D"⟩

/-- An accepted `AppendEntries` from `C`, which then records it and goes on. -/
def acceptedFromC (target : NodeId) (tag : Nat) (req : AppendEntriesRequest) : List Label :=
  Label.rpc "C" target tag (.appendRequest req) (.appendResponse req ⟨1, true⟩) ++
    Label.sections "C" tag 2

/-- `C` leads term 1 and removes `E` and then `D`, each committed with `A` and `B` and applied by `C`
before the next. `B` applies both. `B` then wins term 2 with `C`'s vote as one of three members, and
`A`, which has applied neither, with `D`'s and `E`'s as one of five. -/
def removedTwice : List Label :=
  let first : LogEntry := ⟨1, 1, membershipJson dropE⟩
  let second : LogEntry := ⟨1, 2, membershipJson dropD⟩
  Label.campaign "C" 0 1 0 0 [("A", 0), ("B", 0)] ++
  [⟨"C", .start (.propose first.command)⟩] ++ Label.sections "C" 1 11 ++
  acceptedFromC "A" 1 ⟨1, "C", 0, 0, [first], 0⟩ ++ acceptedFromC "B" 1 ⟨1, "C", 0, 0, [first], 0⟩ ++
  Label.sections "C" 1 1 ++ [⟨"C", .start .apply⟩] ++ Label.sections "C" 2 3 ++
  [⟨"C", .start (.propose second.command)⟩] ++ Label.sections "C" 3 10 ++
  acceptedFromC "A" 3 ⟨1, "C", 1, 1, [second], 1⟩ ++ acceptedFromC "B" 3 ⟨1, "C", 1, 1, [second], 1⟩ ++
  Label.sections "C" 3 1 ++ [⟨"C", .start .apply⟩] ++ Label.sections "C" 4 3 ++
  [⟨"C", .start .replicate⟩] ++ Label.sections "C" 5 5 ++
  [⟨"B", .serve ⟨"C", "B", 5, .appendRequest ⟨1, "C", 2, 1, [], 2⟩⟩ true⟩] ++
  [⟨"B", .start .apply⟩] ++ Label.sections "B" 0 5 ++
  Label.campaign "B" 1 2 2 1 [("C", 1)] ++ Label.campaign "A" 0 2 2 1 [("D", 0), ("E", 0)]

/-- An orderly schedule: every `Save` succeeds, nothing wraps, a node runs one `StartElection` and one
`ApplyCommitted` at a time, `AppendLocal` runs only on a leader, and no node is launched. -/
def CarefulFleets (f : Fleet) : Action → Prop
  | .launch _ _ => False
  | .run _ label => Cluster.savesSucceed label = true ∧ f.cluster.nothingWraps label = true ∧
      f.cluster.oneElection label = true ∧ f.cluster.oneApplier label = true ∧
      f.cluster.leaderAppends label = true

instance (f : Fleet) (action : Action) : Decidable (CarefulFleets f action) := by
  cases action <;> unfold CarefulFleets <;> infer_instance

/-- Two nodes are promoted in term 2 of an orderly run, over memberships two members apart. -/
theorem promoted_twice : ∃ f left right,
    Reach (Fleet.step (readsChanges [dropE, dropD])) CarefulFleets (.initial fiveNodes) f ∧
      left ∈ f.cluster.observed ∧ right ∈ f.cluster.observed ∧
      left.observation = .promoted 2 ∧ right.observation = .promoted 2 ∧ left.node ≠ right.node := by
  have passed : (Transition.exec (Fleet.step (readsChanges [dropE, dropD])) CarefulFleets
      (.initial fiveNodes) (removedTwice.map (.run fiveNodes))).any (fun f =>
        decide (⟨"B", 1, .promoted 2⟩ ∈ f.cluster.observed ∧
          ⟨"A", 0, .promoted 2⟩ ∈ f.cluster.observed)) = true := by
    decide +kernel
  obtain ⟨f, run, test⟩ := Reach.of_exec_test passed
  obtain ⟨atB, atA⟩ := of_decide_eq_true test
  exact ⟨f, _, _, run, atB, atA, rfl, rfl, by decide⟩

end Raft

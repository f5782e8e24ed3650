import RvKeyValue.Cluster.Campaigns

/-!
# Election safety

At most one node is promoted in a term, whatever the schedule, the crashes and the failed saves.
A promotion is backed by a majority of durable votes, and a node has one durable vote in each
term. A candidate whose own vote was not stored is not promoted: `BecomeCandidate` then returns
an error and ends the only `StartElection` of its node.
-/

namespace Raft

open Transition (Reach)

/-- What the counting of votes rests on: membership does not change, terms do not wrap and a node
runs one `StartElection` at a time. -/
def FairElections (unmarshal : Bytes → Option MembershipCommand) (c : Cluster) (label : Label) :
    Prop :=
  c.membershipFixed unmarshal label = true ∧ c.termsFit label = true ∧ c.oneElection label = true

instance (unmarshal : Bytes → Option MembershipCommand) (c : Cluster) (label : Label) :
    Decidable (FairElections unmarshal c label) := by
  unfold FairElections
  infer_instance

section

variable {unmarshal : Bytes → Option MembershipCommand} {polls polls' : Polls}
  {good : List NodeId → Prop} {id : NodeId} {n : RaftNode} {state : PersistentState}
  {votes votes' : Votes}

/-- A call that goes on is an election if it was one. -/
theorem Call.step_kind {save applied : Bool} {call next : Call} {turn : Turn}
    (stepped : call.step unmarshal n save applied = some turn) (goes : turn.call = some next) :
    next.isElection = call.isElection := by
  cases call with
  | election stage =>
    obtain ⟨stage', rfl⟩ := Call.electionStep_next stepped goes
    rfl
  | propose stage => exact (proposeStep_aside stepped).call next goes
  | replicate owner stage => exact (replicateStep_aside stepped).call next goes
  | apply stage =>
    simp only [Call.step, Call.applyStep] at stepped
    split at stepped <;> cases stepped
    all_goals
      repeat' split at goes
      all_goals cases goes
    all_goals rfl

/-- So is one that has a response. -/
theorem Call.reply_kind {save : Bool} {peer : NodeId} {call next : Call} {body : Body} {turn : Turn}
    (replied : call.reply n save peer body = some turn) (goes : turn.call = some next) :
    next.isElection = call.isElection := by
  cases call with
  | election stage =>
    obtain ⟨stage', rfl⟩ := Call.electionReply_next replied goes
    rfl
  | replicate owner stage => exact (replicateReply_aside replied).call next goes
  | propose stage => contradiction
  | apply stage => contradiction

/-- So is one that has an error. -/
theorem Call.failure_kind {peer : NodeId} {call next : Call} (failed : call.failure peer = some next) :
    next.isElection = call.isElection := by
  unfold Call.failure at failed
  split at failed
  all_goals
    try split at failed
    all_goals cases failed
  all_goals rfl

/-- A call runs after a step because it ran before, or because the step started it. -/
theorem Server.react_ran {sv : Server} {peers : List NodeId} {event : Event} {reaction : Reaction}
    (reacted : sv.react unmarshal peers event = some reaction) {position : Nat} {call : Call}
    (runs : reaction.server.calls position = some call) :
    sv.nextTag ≤ reaction.server.nextTag ∧
      ((∃ before, sv.calls position = some before ∧ before.isElection = call.isElection) ∨
        ∃ kind : Start, event = .start kind ∧ position = sv.nextTag ∧ call = kind.call) := by
  cases Server.react_cases reacted with
  | start kind =>
    refine ⟨Nat.le_succ _, ?_⟩
    rcases Server.call_updated runs with ⟨here, started⟩ | ⟨-, before⟩
    · exact Or.inr ⟨kind, rfl, here, (Option.some.inj started).symm⟩
    · exact Or.inl ⟨call, before, rfl⟩
  | step tag save applied old turn running turned =>
    refine ⟨le_refl _, ?_⟩
    rcases Server.call_updated runs with ⟨rfl, goes⟩ | ⟨-, before⟩
    · exact Or.inl ⟨old, running, (Call.step_kind turned goes).symm⟩
    · exact Or.inl ⟨call, before, rfl⟩
  | reply packet save old turn _ running turned =>
    refine ⟨le_refl _, ?_⟩
    rcases Server.call_updated runs with ⟨rfl, goes⟩ | ⟨-, before⟩
    · exact Or.inl ⟨old, running, (Call.reply_kind turned goes).symm⟩
    · exact Or.inl ⟨call, before, rfl⟩
  | failure tag peer old next running failed =>
    refine ⟨le_refl _, ?_⟩
    rcases Server.call_updated runs with ⟨rfl, goes⟩ | ⟨-, before⟩
    · obtain rfl := Option.some.inj goes
      exact Or.inl ⟨old, running, (Call.failure_kind failed).symm⟩
    · exact Or.inl ⟨call, before, rfl⟩
  | cancel tag old observed running _ =>
    refine ⟨le_refl _, ?_⟩
    rcases Server.call_updated runs with ⟨-, goes⟩ | ⟨-, before⟩
    · contradiction
    · exact Or.inl ⟨call, before, rfl⟩
  | serve packet save answer _ _ =>
    exact ⟨le_refl _, Or.inl ⟨call, runs, rfl⟩⟩
  | compact snapshot save =>
    exact ⟨le_refl _, Or.inl ⟨call, runs, rfl⟩⟩
  | crash =>
    contradiction

/-- A process runs one election at most. -/
structure Server.Lone (sv : Server) : Prop where
  /-- Calls are numbered below the next number. -/
  fresh : ∀ tag, sv.nextTag ≤ tag → sv.calls tag = none
  /-- There is one election at most. -/
  single : ∀ left right leftStage rightStage, sv.calls left = some (.election leftStage) →
    sv.calls right = some (.election rightStage) → left = right

/-- A `BecomeCandidate` whose `Save` fails is in the only election of its node. -/
def Server.ElectsAlone (sv : Server) (event : Event) : Prop := ∀ tag save applied,
  event = .step tag save applied → sv.calls tag = some (.election .preVoteWon) → save = true ∨
    ∀ position stage, sv.calls position = some (.election stage) → position = tag

namespace Server.Lone

variable {sv : Server}

/-- No call runs in a process that was just started. -/
theorem idle {sv : Server} (none : sv.calls = fun _ => none) : sv.Lone := by
  refine ⟨fun tag _ => by rw [none], fun left _ leftStage _ running => ?_⟩
  rw [none] at running
  contradiction

/-- The calls of a process are numbered below the next number. -/
theorem tag_lt (lone : sv.Lone) {tag : Nat} {call : Call} (running : sv.calls tag = some call) :
    tag < sv.nextTag := by
  by_contra high
  rw [lone.fresh tag (Nat.le_of_not_lt high)] at running
  contradiction

/-- One election at a time stays one. -/
theorem react (lone : sv.Lone) {peers : List NodeId} {event : Event} {reaction : Reaction}
    (alone : event = .start .election → sv.runs Call.isElection = false)
    (reacted : sv.react unmarshal peers event = some reaction) : reaction.server.Lone := by
  -- an election after the step ran before, or is the one the step started
  have known : ∀ {tag stage}, reaction.server.calls tag = some (.election stage) →
      (∃ before, sv.calls tag = some (.election before)) ∨
        tag = sv.nextTag ∧ event = .start .election := by
    intro tag stage running
    rcases (Server.react_ran reacted running).2 with ⟨before, ran, same⟩ | ⟨kind, rfl, here, started⟩
    · cases before with
      | election stage => exact Or.inl ⟨stage, ran⟩
      | _ => contradiction
    · cases kind with
      | election => exact Or.inr ⟨here, rfl⟩
      | _ => contradiction
  have none : event = .start .election → ∀ tag stage, sv.calls tag ≠ some (.election stage) := by
    intro starts tag stage running
    have found : sv.runs Call.isElection = true := List.any_eq_true.mpr
      ⟨tag, List.mem_range.mpr (lone.tag_lt running), by rw [running]; rfl⟩
    rw [alone starts] at found
    contradiction
  refine ⟨fun tag high => ?_, fun left right leftStage rightStage atLeft atRight => ?_⟩
  · by_contra running
    obtain ⟨call, running⟩ := Option.ne_none_iff_exists'.mp running
    obtain ⟨grows, ⟨before, ran, -⟩ | ⟨kind, rfl, here, -⟩⟩ := Server.react_ran reacted running
    · have low := lone.tag_lt ran
      omega
    · obtain rfl := Option.some.inj reacted
      replace high : sv.nextTag + 1 ≤ tag := high
      omega
  · rcases known atLeft with ⟨before, leftRan⟩ | ⟨leftNew, starts⟩
    · rcases known atRight with ⟨other, rightRan⟩ | ⟨-, starts⟩
      · exact lone.single _ _ _ _ leftRan rightRan
      · exact absurd leftRan (none starts _ _)
    · rcases known atRight with ⟨other, rightRan⟩ | ⟨rightNew, -⟩
      · exact absurd rightRan (none starts _ _)
      · rw [leftNew, rightNew]

/-- No other election runs when `BecomeCandidate` fails. -/
theorem electsAlone (lone : sv.Lone) (event : Event) : sv.ElectsAlone event :=
  fun _ _ _ _ running => Or.inr fun _ _ other => lone.single _ _ _ _ other running

end Server.Lone

/-- A process whose node keeps its votes and whose elections know what is true. -/
structure FairServer (polls : Polls) (good : List NodeId → Prop) (id : NodeId) (sv : Server)
    (votes : Votes) : Prop where
  /-- The node keeps its word. -/
  voter : ∃ state, Voter id sv.node state votes
  /-- Its peers are as they should be. -/
  listed : Listed good sv.node
  /-- Its elections know only what is true. -/
  campaign : ∀ tag stage, sv.calls tag = some (.election stage) →
    Campaign polls id sv.node votes stage

/-- What a process's reaction must show, with the votes it has stored. -/
structure FairReaction (polls : Polls) (good : List NodeId → Prop) (id : NodeId) (votes : Votes)
    (reaction : Reaction) : Prop where
  /-- The process is as before. -/
  server : FairServer polls good id reaction.server (votes.record id reaction.server.node)
  /-- Its messages are of named nodes and true. -/
  sent : ∀ packet ∈ reaction.sent, packet.source ≠ "" ∧
    VoteBody (votes.record id reaction.server.node) packet.source packet.target packet.body
  /-- Its promotions are backed. -/
  observed : ∀ shown ∈ reaction.observed,
    Backed polls (votes.record id reaction.server.node) id shown.2

namespace FairServer

variable {sv : Server}

/-- Votes of other nodes do not matter to a process, except that there are more of them. -/
theorem elsewhere (fair : FairServer polls good id sv votes) {other : NodeId}
    (added : votes.Extends other votes') (ne : id ≠ other) : FairServer polls good id sv votes' where
  voter := by
    obtain ⟨state, voter⟩ := fair.voter
    have same : votes' id = votes id := added.only id ne
    exact ⟨state, { voter with
      memory := by rw [same]; exact voter.memory
      disk := by rw [same]; exact voter.disk
      recorded := by rw [same]; exact voter.recorded
      past := by rw [same]; exact voter.past
      named := by rw [same]; exact voter.named
      once := by rw [same]; exact voter.once }⟩
  listed := fair.listed
  campaign tag stage running :=
    (fair.campaign tag stage running).move added fun role => ⟨role, rfl⟩

/-- Others ask for votes. -/
theorem more (fair : FairServer polls good id sv votes)
    (more : ∀ id term peers, polls id term peers → polls' id term peers) :
    FairServer polls' good id sv votes :=
  { fair with campaign := fun tag stage running => (fair.campaign tag stage running).more more }

/-- The record moved: the calls know what they knew. -/
theorem moved (fair : FairServer polls good id sv votes) {n' : RaftNode}
    (voter : ∃ state, Voter id n' state (votes.record id n')) (listed : Listed good n')
    (role : n'.state = .candidate →
      sv.node.state = .candidate ∧ n'.currentTerm = sv.node.currentTerm) :
    FairServer polls good id { sv with node := n' } (votes.record id n') where
  voter := voter
  listed := listed
  campaign tag stage running :=
    (fair.campaign tag stage running).move (votes.extends_record id n') role

/-- The record moved and was possibly saved. -/
theorem saves (fair : FairServer polls good id sv votes) {n' : RaftNode} (moved : Saves sv.node n') :
    FairServer polls good id { sv with node := n' } (votes.record id n') := by
  obtain ⟨state, voter⟩ := fair.voter
  exact fair.moved (voter.saves moved) (fair.listed.saves moved) moved.role

/-- A call is replaced by one that is no election, or by nothing. -/
theorem setOther (fair : FairServer polls good id sv votes) {tag nextTag : Nat} {next : Option Call}
    (other : ∀ call, next = some call → call.isElection = false) :
    FairServer polls good id { sv with calls := Function.update sv.calls tag next, nextTag := nextTag }
      votes := by
  refine ⟨fair.voter, fair.listed, fun position stage running => ?_⟩
  rcases Server.call_updated running with ⟨-, goes⟩ | ⟨-, before⟩
  · have outside := other _ goes
    contradiction
  · exact fair.campaign position stage before

/-- An election takes a section. -/
theorem turn (turn : Turn) {tag : Nat}
    (turned : FairTurn polls good id votes turn)
    (others : ∀ position stage, position ≠ tag → sv.calls position = some (.election stage) →
      Campaign polls id turn.node (votes.record id turn.node) stage) :
    FairServer polls good id { sv with
      node := turn.node, calls := Function.update sv.calls tag turn.call }
      (votes.record id turn.node) := by
  refine ⟨turned.voter, turned.listed, fun position stage running => ?_⟩
  rcases Server.call_updated running with ⟨-, goes⟩ | ⟨elsewhere, before⟩
  · exact turned.campaign stage goes
  · exact others position stage elsewhere before

/-- A call other than an election takes a section, after which the record is a voter's. -/
theorem other (turn : Turn) {tag : Nat}
    (moved : FairServer polls good id { sv with node := turn.node } (votes.record id turn.node))
    (next : ∀ call, turn.call = some call → call.isElection = false) :
    FairServer polls good id { sv with
      node := turn.node, calls := Function.update sv.calls tag turn.call }
      (votes.record id turn.node) :=
  moved.setOther next

/-- An election starts. -/
theorem startElection (fair : FairServer polls good id sv votes) : FairServer polls good id { sv with
      calls := Function.update sv.calls sv.nextTag (some (.election .starting))
      nextTag := sv.nextTag + 1 } votes := by
  refine ⟨fair.voter, fair.listed, fun tag stage running => ?_⟩
  rcases Server.call_updated running with ⟨-, started⟩ | ⟨-, before⟩
  · obtain rfl : .starting = stage := by simpa using started
    exact ⟨fun running => by contradiction, oneNode, trivial⟩
  · exact fair.campaign tag stage before

end FairServer

/-- A handler keeps the voter's word, and a granting response stands for a stored vote. -/
theorem handle_fair {sv : Server} (fair : FairServer polls good id sv votes) {source : NodeId}
    (named : source ≠ "") {save : Bool} {body : Body} (said : VoteBody votes source id body)
    {answer : RaftNode × Option Body} (handled : Server.handle sv.node save body = some answer) :
    FairServer polls good id { sv with node := answer.1 } (votes.record id answer.1) ∧
      ∀ response, answer.2 = some response → VoteBody (votes.record id answer.1) source id response := by
  cases body with
  | preVoteRequest req =>
    obtain rfl := Option.some.inj handled
    refine ⟨fair.saves (Moves.refl _).unsaved, fun response same => ?_⟩
    rw [← Option.some.inj same]
    trivial
  | voteRequest req =>
    obtain rfl := Option.some.inj handled
    refine ⟨fair.saves (requestVote_saves sv.node save req), fun response same => ?_⟩
    dsimp only at same ⊢
    split at same
    · contradiction
    · rename_i succeeded
      obtain rfl := Option.some.inj same
      intro granted
      obtain ⟨state, voter⟩ := fair.voter
      have noError : (sv.node.requestVote save req).err = none := by simpa using succeeded
      obtain ⟨stored, atDisk, term, vote⟩ :=
        RaftNode.requestVote_granted voter.store noError granted
      exact Or.inr ⟨rfl, stored, atDisk, term, vote.trans said, named⟩
  | appendRequest req =>
    obtain rfl := Option.some.inj handled
    refine ⟨fair.saves (handleAppendEntries_saves sv.node save req), fun response same => ?_⟩
    split at same
    · contradiction
    · rw [← Option.some.inj same]
      trivial
  | preVoteResponse req resp => contradiction
  | voteResponse req resp => contradiction
  | appendResponse req resp => contradiction

/-- A section of `ApplyCommitted` that applies a membership change keeps the voter's word, when a node
that comes back has not voted in the term. -/
theorem FairServer.reconfigure {sv : Server} (fair : FairServer polls good id sv votes) (save : Bool)
    {entry : LogEntry} {change : MembershipChange}
    (decoded : decodeMembershipChange unmarshal entry.command = some (.ok change))
    (peers : ∀ m, RaftNode.Reconfigured sv.node change m → good m.peers)
    (later : change = ⟨.addPeer, id⟩ → sv.node.selfMember = false → sv.node.votedFor = "" →
      ∀ candidate, ¬ votes id sv.node.currentTerm candidate) :
    FairServer polls good id
      { sv with node := (sv.node.applyCommittedMembershipChange save change entry.index).node }
      (votes.record id (sv.node.applyCommittedMembershipChange save change entry.index).node) := by
  obtain ⟨state, voter⟩ := fair.voter
  obtain ⟨m, applied, same⟩ := sv.node.applyEntry_eq save decoded
  rw [RaftNode.applyEntry, decoded] at same
  dsimp only at same
  have marked := markApplied_moves m entry.index
  have saved := (m.markApplied entry.index).persistLocked_cases save
  rw [← same] at saved
  have there := (voter.reconfigure applied later).move marked.toRespects
  have listed : Listed good (m.markApplied entry.index) := by
    refine ⟨?_, fun stored found store some => fair.listed.disk stored found ?_ some⟩
    · rw [marked.peers]
      exact peers m applied
    · rw [← applied.store, ← marked.store]
      exact store
  refine fair.moved (there.persisted saved) (listed.persisted saved) fun role => ?_
  have fields : (m.markApplied entry.index).state = .candidate ∧
      (sv.node.applyCommittedMembershipChange save change entry.index).node.currentTerm =
        (m.markApplied entry.index).currentTerm := by
    rcases saved with unsaved | stored
    · rw [unsaved] at role ⊢
      exact ⟨role, rfl⟩
    · rw [stored] at role ⊢
      exact ⟨role, rfl⟩
  obtain ⟨candidate, term⟩ := marked.role fields.1
  exact ⟨applied.role candidate, fields.2.trans (term.trans applied.term)⟩

namespace FairServer

variable {sv : Server} {tag : Nat}

/-- A call starts. -/
theorem start (fair : FairServer polls good id sv votes) (kind : Start) :
    FairReaction polls good id votes { server := { sv with
      calls := Function.update sv.calls sv.nextTag (some kind.call), nextTag := sv.nextTag + 1 } } := by
  obtain ⟨state, voter⟩ := fair.voter
  refine ⟨?_, by simp, by simp⟩
  dsimp only
  rw [voter.record_eq]
  by_cases election : kind = .election
  · rw [election]
    exact fair.startElection
  · refine fair.setOther fun found next => ?_
    rw [← Option.some.inj next]
    cases kind with
    | election => exact absurd rfl election
    | propose command => rfl
    | replicate => rfl
    | apply => rfl

/-- An election takes a turn. -/
theorem resumeElection (fair : FairServer polls good id sv votes) (named : id ≠ "") {turn : Turn}
    (turned : FairTurn polls good id votes turn)
    (others : ∀ position stage, position ≠ tag → sv.calls position = some (.election stage) →
      Campaign polls id turn.node (votes.record id turn.node) stage) :
    FairReaction polls good id votes (sv.resume tag turn) := by
  obtain ⟨state, voter⟩ := fair.voter
  refine ⟨.turn turn turned others, fun message listed => ?_, fun shown listed => ?_⟩
  · obtain ⟨request, sent, rfl⟩ := List.mem_map.mp listed
    dsimp only
    rw [voter.own]
    exact ⟨named, turned.sent request sent⟩
  · obtain ⟨observation, made, rfl⟩ := List.mem_map.mp listed
    exact turned.observed observation made

/-- Another call takes a turn. -/
theorem resumeAside (fair : FairServer polls good id sv votes) (named : id ≠ "") {turn : Turn}
    (turned : Aside sv.node turn) : FairReaction polls good id votes (sv.resume tag turn) := by
  obtain ⟨state, voter⟩ := fair.voter
  refine ⟨.other turn (fair.saves turned.saves) turned.call, fun message listed => ?_,
    fun shown listed => ?_⟩
  · obtain ⟨request, sent, rfl⟩ := List.mem_map.mp listed
    refine ⟨?_, turned.sent request sent _ _ _⟩
    rw [voter.own]
    exact named
  · obtain ⟨observation, made, rfl⟩ := List.mem_map.mp listed
    exact turned.observed observation made _ _ _

/-- An RPC of a call returns an error. -/
theorem failure (fair : FairServer polls good id sv votes) {peer : NodeId} {call next : Call}
    (running : sv.calls tag = some call) (failed : call.failure peer = some next) :
    FairReaction polls good id votes
      { server := { sv with calls := Function.update sv.calls tag (some next) } } := by
  obtain ⟨state, voter⟩ := fair.voter
  refine ⟨?_, by simp, by simp⟩
  cases call with
  | election stage =>
    have known := fair.campaign tag stage running
    obtain ⟨members, polled⟩ := known.polled
    obtain ⟨stage', rfl, counted⟩ := polled.failure failed
    have self := fun counts => known.self (Call.electionFailure_campaigns failed counts)
    have next : ∀ stage, (Call.campaign sv.node stage').call = some (.election stage) →
        stage' = stage := by simp [Call.campaign]
    have still : ∀ {stage}, Campaign polls id sv.node votes stage →
        Campaign polls id sv.node (votes.record id sv.node) stage :=
      fun known => known.move (votes.extends_record id sv.node) fun role => ⟨role, rfl⟩
    refine .turn (Call.campaign sv.node stage') ⟨.still voter fair.listed rfl
      (fun stage found => next stage found ▸ self) (by simp [Call.campaign]) rfl, fun stage found => ?_⟩
      fun position other _ ran => still (fair.campaign position other ran)
    obtain rfl := next stage found
    exact still ⟨self, members, counted⟩
  | replicate owner stage =>
    have other : next.isElection = false := Call.failure_kind failed
    exact .other ⟨sv.node, some next, [], []⟩
      (fair.saves (Moves.refl _).unsaved) fun call found => by
        rw [← Option.some.inj found]
        exact other
  | propose stage => contradiction
  | apply stage => contradiction

end FairServer

/-- A process reacts to an event. -/
theorem FairServer.react {sv : Server} {peers : List NodeId} (fair : FairServer polls good id sv votes)
    (proper : ∀ list, good list → Proper id list) (given : good peers) {event : Event}
    (packet : ∀ packet, event.packet = some packet → packet.source ≠ "" ∧
      VoteBody votes packet.source packet.target packet.body)
    (alone : sv.ElectsAlone event)
    (fits : ∀ tag save applied, event = .step tag save applied →
      sv.calls tag = some (.election .preVoteWon) → sv.node.currentTerm + 1 < Word.limit)
    (asks : ∀ tag save applied, event = .step tag save applied →
      sv.calls tag = some (.election .campaigning) → polls id sv.node.currentTerm sv.node.peers)
    (changes : ∀ tag save applied entry change, event = .step tag save applied →
      sv.calls tag = some (.apply (.holding entry)) →
      decodeMembershipChange unmarshal entry.command = some (.ok change) →
      (∀ m, RaftNode.Reconfigured sv.node change m → good m.peers) ∧
        (change = ⟨.addPeer, id⟩ → sv.node.selfMember = false → sv.node.votedFor = "" →
          ∀ candidate, ¬ votes id sv.node.currentTerm candidate))
    {reaction : Reaction} (reacted : sv.react unmarshal peers event = some reaction) :
    FairReaction polls good id votes reaction := by
  obtain ⟨state, voter⟩ := fair.voter
  have own := proper _ fair.listed.memory
  cases Server.react_cases reacted with
  | start kind => exact fair.start kind
  | step tag save applied call turn running turned =>
    cases call with
    | election stage =>
      have room : stage = .preVoteWon → sv.node.currentTerm + 1 < Word.limit :=
        fun won => fits tag save applied rfl (by rw [running, won])
      refine fair.resumeElection own.1 (electionStep_fair voter fair.listed own
        (fair.campaign tag stage running) room
        (fun counts => asks tag save applied rfl (by rw [running, counts])) turned)
        fun position other elsewhere ran => ?_
      refine electionStep_others own.1 voter fair.listed room (fun won => ?_)
        (fair.campaign position other ran) turned
      -- a failed `BecomeCandidate` is the only election of its node
      exact (alone tag save applied rfl (by rw [running, won])).resolve_right
        fun only => elsewhere (only position other ran)
    | propose stage => exact fair.resumeAside own.1 (proposeStep_aside turned)
    | replicate owner stage => exact fair.resumeAside own.1 (replicateStep_aside turned)
    | apply stage =>
      by_cases reconfigures : ∃ entry change, stage = .holding entry ∧
          decodeMembershipChange unmarshal entry.command = some (.ok change)
      · obtain ⟨entry, change, rfl, decoded⟩ := reconfigures
        obtain ⟨good', later⟩ := changes tag save applied entry change rfl running decoded
        obtain rfl := Option.some.inj turned
        have moved := fair.reconfigure save decoded good' later
        simp only [decoded]
        refine ⟨.other _ moved fun call next => ?_, by simp [Server.resume],
          by simp [Server.resume, Backed]⟩
        split at next
        · contradiction
        · rw [← Option.some.inj next]
          rfl
      · exact fair.resumeAside own.1 (applyStep_aside (fun entry change held decoded =>
          reconfigures ⟨entry, change, held, decoded⟩) turned)
  | reply message save call turn mine running turned =>
    have said := (packet message rfl).2
    rw [mine, voter.own] at said
    cases call with
    | election stage =>
      obtain ⟨term, ⟨node, -⟩, -⟩ := Call.electionReply_shape turned
      have moved := stepDownForHigherTerm_saves sv.node save term
      rw [← node] at moved
      exact fair.resumeElection own.1
        (electionReply_fair voter fair.listed (fair.campaign _ stage running) said turned)
        fun position other _ ran =>
          (fair.campaign position other ran).move (votes.extends_record id _) moved.role
    | replicate owner stage => exact fair.resumeAside own.1 (replicateReply_aside turned)
    | propose stage => contradiction
    | apply stage => contradiction
  | failure tag peer call next running failed => exact fair.failure running failed
  | cancel tag call observed running cancelled =>
    refine ⟨.other ⟨sv.node, none, [], []⟩ (fair.saves (Moves.refl _).unsaved)
      (by simp), by simp, fun shown listed => ?_⟩
    obtain ⟨observation, made, rfl⟩ := List.mem_map.mp listed
    rw [Call.cancel_shown cancelled made]
    trivial
  | serve message save answer mine handled =>
    have known := packet message rfl
    have here : message.target = id := mine.trans voter.own
    have said := known.2
    rw [here] at said
    obtain ⟨server, response⟩ := handle_fair fair known.1 said handled
    refine ⟨server, fun sent listed => ?_, by simp⟩
    obtain ⟨body, answered, rfl⟩ := List.mem_map.mp listed
    refine ⟨known.1, ?_⟩
    show VoteBody _ message.source message.target body
    rw [here]
    exact response body (by simpa using answered)
  | compact snapshot save =>
    have server := fair.saves (compact_saves sv.node save snapshot)
    exact ⟨⟨server.voter, server.listed, server.campaign⟩, by simp, by simp⟩
  | crash =>
    have again : Voter id (sv.restart peers).node state votes := by
      show Voter id (newRaftNode sv.node.id peers sv.node.store) state votes
      rw [voter.own]
      exact voter.restart peers
    refine ⟨?_, by simp, by simp⟩
    dsimp only
    rw [again.record_eq]
    exact ⟨⟨state, again⟩, fair.listed.restart given _, by simp [Server.restart]⟩

/-- Every process keeps its votes, every vote message is true and every promotion is backed. -/
structure FairCluster (polls : Polls) (good : NodeId → List NodeId → Prop) (ids : List NodeId)
    (c : Cluster) (votes : Votes) : Prop where
  /-- Every process keeps its votes. -/
  servers : ∀ id ∈ ids, FairServer polls (good id) id (c.servers id) votes
  /-- Nobody else votes. -/
  voters : ∀ voter term candidate, votes voter term candidate → voter ∈ ids
  /-- Every message is true. -/
  net : ∀ packet ∈ c.net, packet.source ≠ "" ∧
    VoteBody votes packet.source packet.target packet.body
  /-- Every promotion is backed. -/
  observed : ∀ record ∈ c.observed, Backed polls votes record.node record.observation

namespace FairCluster

variable {goods : NodeId → List NodeId → Prop} {ids : List NodeId} {c : Cluster}

/-- Others ask for votes. -/
theorem more (fair : FairCluster polls goods ids c votes)
    (more : ∀ id term peers, polls id term peers → polls' id term peers) :
    FairCluster polls' goods ids c votes where
  servers id inside := (fair.servers id inside).more more
  voters := fair.voters
  net := fair.net
  observed record listed :=
    (fair.observed record listed).grow (votes.extends_refl record.node) more

/-- A process has reacted. -/
theorem absorb (fair : FairCluster polls goods ids c votes) {node : NodeId} (inside : node ∈ ids)
    {net : List Packet} (kept : ∀ packet ∈ net, packet ∈ c.net) {reaction : Reaction}
    (reacted : FairReaction polls (goods node) node votes reaction) :
    FairCluster polls goods ids (c.absorb node net reaction)
      (votes.record node reaction.server.node) := by
  have added := votes.extends_record node reaction.server.node
  refine ⟨fun other member => ?_, fun voter term candidate voted => ?_, fun packet listed => ?_,
    fun record listed => ?_⟩
  · by_cases same : other = node
    · rw [same]
      simpa [Cluster.absorb] using reacted.server
    · simpa [Cluster.absorb, same] using (fair.servers other member).elsewhere added same
  · rcases voted with old | ⟨rfl, -⟩
    · exact fair.voters voter term candidate old
    · exact inside
  · cases List.mem_append.mp listed with
    | inl old =>
      have known := fair.net packet (kept packet old)
      exact ⟨known.1, known.2.grow added⟩
    | inr new => exact reacted.sent packet new
  · cases List.mem_append.mp listed with
    | inl old => exact (fair.observed record old).grow added fun _ _ _ asked => asked
    | inr new =>
      obtain ⟨shown, made, rfl⟩ := List.mem_map.mp new
      exact reacted.observed shown made

/-- Nobody votes twice in a term. -/
theorem once (fair : FairCluster polls goods ids c votes) {voter left right : NodeId} {term : Nat}
    (forLeft : votes voter term left) (forRight : votes voter term right) : left = right := by
  obtain ⟨state, keeps⟩ := (fair.servers voter (fair.voters _ _ _ forLeft)).voter
  exact keeps.once term left right forLeft forRight

/-- Two promotions of a term are of one node, if the members they were voted for by differ in one at
most. -/
theorem agree (fair : FairCluster polls goods ids c votes) {left right : Record}
    (leftSeen : left ∈ c.observed) (rightSeen : right ∈ c.observed) {term : Nat}
    (leftPromoted : left.observation = .promoted term)
    (rightPromoted : right.observation = .promoted term)
    (close : ∀ leftPeers rightPeers, polls left.node term leftPeers →
      polls right.node term rightPeers → Close (left.node :: leftPeers) (right.node :: rightPeers)) :
    left.node = right.node := by
  have leftBacked := fair.observed left leftSeen
  have rightBacked := fair.observed right rightSeen
  rw [leftPromoted] at leftBacked
  rw [rightPromoted] at rightBacked
  obtain ⟨leftMembers, leftInside, leftAsked, leftVoters, leftQuorum, leftVotes⟩ := leftBacked
  obtain ⟨rightMembers, rightInside, rightAsked, rightVoters, rightQuorum, rightVotes⟩ := rightBacked
  have apart := close _ _ leftAsked rightAsked
  unfold Close at apart
  rw [← leftMembers.toFinset_ids leftInside, ← rightMembers.toFinset_ids rightInside] at apart
  -- a voter both counted has one stored vote in the term
  obtain ⟨voter, inLeft, inRight⟩ := Quorums.majority_meet_of_close apart leftQuorum rightQuorum
  exact fair.once (leftVotes voter inLeft) (rightVotes voter inRight)

end FairCluster

/-- With fixed members everybody asks the others. -/
def Members.asks (members : Members) : Polls := fun id _ peers =>
  id ∈ members.ids ∧ peers = members.peers id

variable {members : Members}

/-- With fixed members everybody asks the same nodes. -/
theorem Members.close (members : Members) {left right : NodeId} {leftTerm rightTerm : Nat}
    {leftPeers rightPeers : List NodeId} (leftAsked : members.asks left leftTerm leftPeers)
    (rightAsked : members.asks right rightTerm rightPeers) :
    Close (left :: leftPeers) (right :: rightPeers) := by
  obtain ⟨leftInside, rfl⟩ := leftAsked
  obtain ⟨rightInside, rfl⟩ := rightAsked
  refine .of_eq ?_
  rw [← members.toFinset_ids leftInside, ← members.toFinset_ids rightInside]

/-- Nobody has voted in a started cluster. -/
theorem FairServer.started (polls : Polls) {peers : List NodeId} (given : good peers)
    (unvoted : ∀ term candidate, ¬ votes id term candidate) :
    FairServer polls good id { node := newRaftNode id peers (some {}) } votes where
  voter := ⟨{}, {
    own := rfl
    store := rfl
    term := le_refl _
    memory := fun _ voted => (unvoted _ _ voted).elim
    disk := fun _ voted => (unvoted _ _ voted).elim
    recorded := fun named => absurd rfl named
    past := fun _ _ voted => (unvoted _ _ voted).elim
    named := fun _ _ voted => (unvoted _ _ voted).elim
    once := fun _ _ _ voted => (unvoted _ _ voted).elim }⟩
  listed := ⟨given, fun state peers store some => by
    obtain rfl := Option.some.inj store
    contradiction⟩
  campaign _ _ running := by contradiction

/-- Nobody has voted in a started cluster, and nobody was asked. -/
theorem FairCluster.initial (members : Members) : FairCluster members.asks
    (fun id peers => peers = members.peers id) members.ids (.initial members) fun _ _ _ => False where
  servers id _ := .started members.asks rfl fun _ _ voted => voted
  voters _ _ _ voted := voted.elim
  net _ listed := by contradiction
  observed _ listed := by contradiction

/-- A step adds the vote it stores and breaks no word. -/
theorem FairCluster.step {c c' : Cluster} {label : Label}
    (fair : FairCluster members.asks (fun id peers => peers = members.peers id) members.ids c votes)
    (fixed : c.membershipFixed unmarshal label = true) (fits : c.termsFit label = true)
    (alone : (c.servers label.node).ElectsAlone label.event)
    (stepped : c.step unmarshal members label = some c') :
    FairCluster members.asks (fun id peers => peers = members.peers id) members.ids c'
      (votes.record label.node (c'.servers label.node).node) := by
  obtain ⟨inside, net, reaction, taken, reacted, rfl⟩ := Cluster.step_some stepped
  have took := Cluster.take_some taken
  have server := fair.servers _ inside
  rw [c.absorb_own]
  refine fair.absorb inside took.2 (server.react (fun list same => ?_) rfl
    (fun packet same => fair.net packet (took.1 packet same)) alone
    (fun _ _ _ steps running => Cluster.termsFit_preVoteWon fits steps running)
    (fun tag save applied same running => ⟨inside, server.listed.memory⟩)
    (fun _ _ _ _ _ steps running decoded =>
      absurd decoded (Cluster.membershipFixed_holding fixed steps running)) reacted)
  rw [same]
  exact members.proper inside

/-- Every process runs one election at most, and a step keeps that. -/
theorem Cluster.step_lone {c c' : Cluster} {label : Label} (lone : ∀ id, (c.servers id).Lone)
    (one : c.oneElection label = true) (stepped : c.step unmarshal members label = some c') :
    ∀ id, (c'.servers id).Lone := by
  obtain ⟨-, net, reaction, -, reacted, rfl⟩ := Cluster.step_some stepped
  intro id
  by_cases same : id = label.node
  · subst same
    rw [c.absorb_own]
    exact (lone label.node).react (fun starts => by simpa [Cluster.oneElection, starts] using one)
      reacted
  · rw [c.absorb_other net reaction same]
    exact lone id

/-- Stored votes explain every run. -/
theorem FairCluster.reach {c : Cluster}
    (run : Reach (Cluster.step unmarshal members) (FairElections unmarshal) (.initial members) c) :
    (∃ votes, FairCluster members.asks (fun id peers => peers = members.peers id) members.ids c
      votes) ∧ ∀ id, (c.servers id).Lone := by
  induction run with
  | start => exact ⟨⟨_, .initial members⟩, fun _ => .idle rfl⟩
  | next _ allowed stepped ih =>
    obtain ⟨⟨votes, fair⟩, lone⟩ := ih
    obtain ⟨fixed, fits, one⟩ := allowed
    exact ⟨⟨_, fair.step fixed fits ((lone _).electsAlone _) stepped⟩,
      Cluster.step_lone lone one stepped⟩

/-- At most one node is promoted in a term. -/
theorem election_safety {c : Cluster}
    (run : Reach (Cluster.step unmarshal members) (FairElections unmarshal) (.initial members) c)
    {left right : Record} (leftSeen : left ∈ c.observed) (rightSeen : right ∈ c.observed) {term : Nat}
    (leftPromoted : left.observation = .promoted term)
    (rightPromoted : right.observation = .promoted term) : left.node = right.node := by
  obtain ⟨⟨votes, fair⟩, -⟩ := FairCluster.reach run
  exact fair.agree leftSeen rightSeen leftPromoted rightPromoted
    fun leftPeers rightPeers leftAsked rightAsked => members.close leftAsked rightAsked

end

/-- `A`'s first `BecomeCandidate` fails to save; its second election wins with `B`'s vote, and `B`
crashes after it voted. -/
def electedAfterFailedSave : List Label :=
  [⟨"A", .start .election⟩] ++ Label.sections "A" 0 3 ++
  Label.rpc "A" "B" 0 (.preVoteRequest ⟨1, "A", 0, 0⟩)
    (.preVoteResponse ⟨1, "A", 0, 0⟩ ⟨0, true⟩) ++
  [⟨"A", .step 0 false true⟩] ++ Label.campaign "A" 1 2 0 0 [("B", 0)] ++ [⟨"B", .crash⟩]

/-- The promotion after a failed save is the only one of its term. -/
theorem election_safety_failed_save : ∃ c record,
    Reach (Cluster.step plainCommands threeNodes) (FairElections plainCommands)
      (.initial threeNodes) c ∧
      record ∈ c.observed ∧ record.observation = .promoted 2 ∧
      ∀ other ∈ c.observed, other.observation = .promoted 2 → other.node = record.node := by
  have passed : (Transition.exec (Cluster.step plainCommands threeNodes)
      (FairElections plainCommands) (.initial threeNodes) electedAfterFailedSave).any (fun c =>
        decide (⟨"A", 1, .promoted 2⟩ ∈ c.observed)) = true := by
    decide +kernel
  obtain ⟨c, run, test⟩ := Reach.of_exec_test passed
  have seen := of_decide_eq_true test
  exact ⟨c, _, run, seen, rfl, fun other listed promoted =>
    election_safety run listed seen promoted rfl⟩

end Raft

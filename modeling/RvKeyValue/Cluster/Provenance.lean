import RvKeyValue.Cluster.Rules
import RvKeyValue.Node.Durability

/-!
# Where entries come from

No node makes up an entry: a log grows by `AppendLocal`, with the command of a proposal in the term of the
node, and by `HandleAppendEntries`, with entries of a request that the sender built from its log. So
whatever holds of every entry that is appended holds of every entry in a log, in a store and in a message;
and what holds of every command that is proposed holds of every entry that is returned to a proposal or
handed to a state machine.
-/

namespace Raft

open Transition (Reach)

section

variable {unmarshal : Bytes → Option MembershipCommand} {P : Nat → Bytes → Prop} {Q : Bytes → Prop}
  {n : RaftNode}

/-- The terms and commands of entries are of a kind. -/
def Sourced (P : Nat → Bytes → Prop) (entries : List LogEntry) : Prop :=
  ∀ entry ∈ entries, P entry.term entry.command

/-- A part of such a list. -/
theorem Sourced.sublist {entries part : List LogEntry} (sourced : Sourced P entries)
    (inside : ∀ entry ∈ part, entry ∈ entries) : Sourced P part :=
  fun entry listed => sourced entry (inside entry listed)

/-- Two such lists. -/
theorem Sourced.append {left right : List LogEntry} (first : Sourced P left) (second : Sourced P right) :
    Sourced P (left ++ right) := by
  intro entry listed
  rcases List.mem_append.mp listed with early | late
  · exact first entry early
  · exact second entry late

/-- An entry with the term and the command of another: a node numbers the entries it receives. -/
def LogEntry.Copies (entry original : LogEntry) : Prop :=
  entry.term = original.term ∧ entry.command = original.command

/-- Renumbering copies the entries. -/
theorem normalizeEntries_origin {entries : List LogEntry} {start : Nat} {entry : LogEntry}
    (listed : entry ∈ normalizeEntries start entries) : ∃ sent ∈ entries, entry.Copies sent := by
  induction entries generalizing start with
  | nil => contradiction
  | cons first rest ih =>
    rcases List.mem_cons.mp listed with rfl | later
    · exact ⟨first, List.mem_cons_self, rfl, rfl⟩
    · obtain ⟨sent, among, copies⟩ := ih later
      exact ⟨sent, List.mem_cons_of_mem _ among, copies⟩

/-- The loop of `appendEntriesToLogLocked` leaves entries of the log and copies of the request's. -/
theorem RaftNode.appendLoop_origin {entries : List LogEntry} {index : Nat} {entry : LogEntry}
    (listed : entry ∈ (n.appendLoop index entries).1) :
    entry ∈ n.log ∨ ∃ sent ∈ entries, entry.Copies sent := by
  induction entries generalizing index with
  | nil => exact Or.inl listed
  | cons first rest ih =>
    have skips : ∀ {next : Nat}, entry ∈ (n.appendLoop next rest).1 →
        entry ∈ n.log ∨ ∃ sent ∈ first :: rest, entry.Copies sent := by
      intro next found
      rcases ih found with kept | ⟨sent, among, copies⟩
      · exact Or.inl kept
      · exact Or.inr ⟨sent, List.mem_cons_of_mem _ among, copies⟩
    unfold RaftNode.appendLoop at listed
    split at listed
    · exact skips listed
    split at listed
    · split at listed
      · rcases List.mem_append.mp listed with kept | new
        · exact Or.inl (List.mem_of_mem_take kept)
        · exact Or.inr (normalizeEntries_origin new)
      · exact skips listed
    · rcases List.mem_append.mp listed with kept | new
      · exact Or.inl kept
      · exact Or.inr (normalizeEntries_origin new)

/-- So does `HandleAppendEntries`. -/
theorem RaftNode.handleAppendEntries_origin {save : Bool} {req : AppendEntriesRequest} {entry : LogEntry}
    (listed : entry ∈ (n.handleAppendEntries save req).node.log) :
    entry ∈ n.log ∨ ∃ sent ∈ req.entries, entry.Copies sent := by
  have following : (n.follow req).log = n.log := by
    unfold RaftNode.follow
    dsimp only
    repeat' split
    all_goals rfl
  have accepted : (n.accept req).log =
      ((n.follow req).appendLoop (Word.add req.prevLogIndex 1) req.entries).1 := by
    unfold RaftNode.accept
    rcases RaftNode.followCommit_cases { n.follow req with
        log := ((n.follow req).appendLoop (Word.add req.prevLogIndex 1) req.entries).1 }
        req.leaderCommit with same | ⟨index, -, -, same⟩
    all_goals rw [same]
  have appended : entry ∈ (n.accept req).log →
      entry ∈ n.log ∨ ∃ sent ∈ req.entries, entry.Copies sent := by
    intro found
    rw [accepted] at found
    rw [← following]
    exact RaftNode.appendLoop_origin found
  rcases n.handleAppendEntries_cases save req with
    same | ⟨-, -, ⟨-, ⟨-, same⟩ | ⟨-, same⟩⟩ | ⟨-, ⟨-, same⟩ | ⟨-, same⟩⟩⟩
  all_goals rw [same] at listed
  · exact Or.inl listed
  · exact Or.inl (following ▸ (n.follow req).persistLocked_log save ▸ listed)
  · exact Or.inl (following ▸ listed)
  · exact appended ((n.accept req).persistLocked_log save ▸ listed)
  · exact appended listed

/-- The entries that an operation can add to the log of a node. -/
def RaftNode.Brings (n : RaftNode) (entry : LogEntry) : Operation → Prop
  | .appendLocal command => entry.term = n.currentTerm ∧ entry.command = command
  | .handleAppendEntries req => ∃ sent ∈ req.entries, entry.Copies sent
  | _ => False

/-- An operation leaves entries of the log and entries it brings. -/
theorem RaftNode.perform_origin {save : Bool} {op : Operation} {entry : LogEntry}
    (listed : entry ∈ (n.perform unmarshal save op).log) : entry ∈ n.log ∨ n.Brings entry op := by
  by_cases writes : op.writes = true
  · cases op with
    | handleAppendEntries req => exact RaftNode.handleAppendEntries_origin listed
    | appendLocal command =>
      replace listed : entry ∈ (n.appendLocal unmarshal save command).node.log := listed
      rcases n.appendLocal_log save command with same | ⟨new, term, carries, same⟩
      · rw [same] at listed
        exact Or.inl listed
      · rw [same] at listed
        rcases List.mem_append.mp listed with kept | added
        · exact Or.inl kept
        · rw [List.mem_singleton.mp added]
          exact Or.inr ⟨term, carries⟩
    | compact snapshot => exact Or.inl ((n.compact_log save snapshot).subset listed)
    | _ => exact Bool.noConfusion writes
  · rw [Bool.not_eq_true] at writes
    rw [((n.perform_prepared unmarshal save op).log writes).1] at listed
    exact Or.inl listed

/-- An operation that brings entries of a kind keeps the log so. -/
theorem RaftNode.perform_sourced (log : Sourced P n.log) (save : Bool) {op : Operation}
    (appends : ∀ command, op = .appendLocal command → P n.currentTerm command)
    (carries : ∀ req, op = .handleAppendEntries req → Sourced P req.entries) :
    Sourced P (n.perform unmarshal save op).log := by
  intro entry listed
  rcases RaftNode.perform_origin listed with kept | new
  · exact log entry kept
  · cases op with
    | appendLocal command =>
      rw [new.1, new.2]
      exact appends command rfl
    | handleAppendEntries req =>
      obtain ⟨sent, among, term, command⟩ := new
      rw [term, command]
      exact carries req rfl sent among
    | _ => exact new.elim

/-- `cloneEntriesFromLocked` copies entries of the log. -/
theorem RaftNode.cloneEntriesFromLocked_mem {start : Nat} {entry : LogEntry}
    (copied : entry ∈ n.cloneEntriesFromLocked start) : entry ∈ n.log := by
  unfold RaftNode.cloneEntriesFromLocked at copied
  dsimp only at copied
  generalize (if start ≤ n.lastIncludedIndex then n.firstLogIndexLocked else start) = first at copied
  split at copied
  · simp at copied
  · exact List.mem_of_mem_drop copied

/-- `BuildAppendEntries` takes the entries from the log. -/
theorem RaftNode.buildAppendEntries_sourced {peer : NodeId} {req : AppendEntriesRequest}
    (log : Sourced P n.log) (built : n.buildAppendEntries peer = .ok req) : Sourced P req.entries := by
  unfold RaftNode.buildAppendEntries at built
  split at built
  · contradiction
  · rw [← Except.ok.inj built]
    exact log.sublist fun _ copied => RaftNode.cloneEntriesFromLocked_mem copied

/-- A message that carries entries of a kind only. -/
def Body.Sourced (P : Nat → Bytes → Prop) (body : Body) : Prop :=
  ∀ req, body = .appendRequest req → Raft.Sourced P req.entries

/-- A process whose whole log, in memory and on disk, and whose requests have entries of a kind. -/
structure Server.Sourced (P : Nat → Bytes → Prop) (sv : Server) : Prop where
  /-- The log. -/
  log : sv.node.Throughout fun state => Raft.Sourced P state.log
  /-- What compaction removed. -/
  compacted : Raft.Sourced P sv.compacted
  /-- The requests of the calls. -/
  requests : ∀ tag call, sv.calls tag = some call → ∀ request ∈ call.requests,
    Raft.Sourced P request.2.entries

/-- The whole log. -/
theorem Server.Sourced.full {sv : Server} (sourced : sv.Sourced P) : Raft.Sourced P sv.full :=
  sourced.compacted.append sourced.log.memory

variable {sv : Server} {peers : List NodeId} {event : Event} {reaction : Reaction}

/-- The operation of an event carries what the message of the event does. -/
theorem Server.operation_carries {req : AppendEntriesRequest}
    (runs : sv.operation event = some (.handleAppendEntries req)) :
    ∃ packet, event.packet = some packet ∧ packet.body = .appendRequest req := by
  cases Server.operation_cases runs with
  | call running made =>
    unfold Call.operation at made
    split at made <;> cases made
  | @message _ packet _ taken made =>
    refine ⟨packet, taken, ?_⟩
    unfold Body.operation at made
    split at made <;> cases made
    assumption

/-- A process that appends and is sent entries of a kind only keeps to them, and sends no others. -/
theorem Server.Sourced.react (sourced : sv.Sourced P)
    (appends : ∀ command, sv.operation event = some (.appendLocal command) →
      P sv.node.currentTerm command)
    (taken : ∀ packet, event.packet = some packet → packet.body.Sourced P) (asks : sv.Asks reaction)
    (reacted : sv.react unmarshal peers event = some reaction) :
    reaction.server.Sourced P ∧ ∀ packet ∈ reaction.sent, packet.body.Sourced P := by
  have log : reaction.server.node.Throughout fun state => Raft.Sourced P state.log := by
    refine sourced.log.react (fun _ _ listed => ?_) (fun _ _ log => log) (fun op runs => ?_) reacted
    · simp [newRaftNode, RaftNode.persistentState] at listed
    · refine RaftNode.perform_sourced sourced.log.memory event.save (fun command same => ?_)
        fun req same => ?_
      · exact appends command (by rw [runs, same])
      · obtain ⟨packet, takes, body⟩ := Server.operation_carries (runs.trans (congrArg some same))
        exact taken packet takes req body
  refine ⟨⟨log, ?_, fun tag call running request listed => ?_⟩, fun packet listed req same => ?_⟩
  · cases Server.react_cases reacted with
    | compact snapshot save =>
      exact sourced.compacted.append (sourced.log.memory.sublist fun _ => List.mem_of_mem_take)
    | crash => exact sourced.compacted.sublist fun _ => List.mem_of_mem_take
    | _ => exact sourced.compacted
  · rcases asks.calls tag call running request listed with ⟨old, ran, was⟩ | built
    · exact sourced.requests tag old ran request was
    · exact RaftNode.buildAppendEntries_sourced sourced.log.memory built
  · obtain ⟨tag, call, peer, running, built⟩ := asks.sent packet listed req same
    exact sourced.requests tag call running _ built

/-- The command that a call is about: to append it, to wait for its entry, or to apply that. -/
def Call.command : Call → Option Bytes
  | election _ => none
  | propose (.starting command) => some command
  | propose (.appending command) => some command
  | propose (.checking entry) => some entry.command
  | propose (.leading entry) => some entry.command
  | propose (.rechecking entry) => some entry.command
  | propose (.sleeping entry) => some entry.command
  | replicate owner _ => owner.map LogEntry.command
  | apply .fetching => none
  | apply (.holding entry) => some entry.command
  | apply (.marking entry) => some entry.command

/-- Entries are shown with commands of a kind only. -/
def Observation.About (Q : Bytes → Prop) (observation : Observation) : Prop :=
  ∀ entry, observation = .returned entry ∨ observation = .handed entry → Q entry.command

/-- A call that is about commands of a kind only. -/
def Call.About (Q : Bytes → Prop) (call : Call) : Prop := ∀ command, call.command = some command → Q command

/-- A section after which that is so. -/
structure Turn.About (Q : Bytes → Prop) (turn : Turn) : Prop where
  /-- The call goes on so. -/
  call : ∀ next, turn.call = some next → next.About Q
  /-- What is shown. -/
  observed : ∀ observation ∈ turn.observed, observation.About Q

/-- A call goes on and shows nothing. -/
theorem Turn.About.goes {next : Call} {sent : List (NodeId × Body)} (about : next.About Q) :
    Turn.About Q { node := n, call := some next, sent } where
  call other same := by
    rw [← Option.some.inj same]
    exact about
  observed _ shown := by simp at shown

/-- A call returns. -/
theorem Turn.About.ends {observed : List Observation} (shows : ∀ observation ∈ observed, observation.About Q) :
    Turn.About Q { node := n, observed } where
  call _ same := by contradiction
  observed := shows

/-- A call returns and shows nothing, or an error. -/
theorem Turn.About.fails (errors : List (Option RaftError)) :
    Turn.About Q { node := n, observed := errors.map .failed } :=
  .ends (by simp [Observation.About])

/-- A proposal returns its entry. -/
theorem Turn.About.returns {entry : LogEntry} (about : Q entry.command) :
    Turn.About Q { node := n, observed := [.returned entry] } :=
  .ends (by simp [Observation.About, about])

/-- `replicateOnce` returns, with or without an error. -/
theorem Turn.About.replicated {owner : Option LogEntry} {stage : ReplicateStage}
    (about : (Call.replicate owner stage).About Q) (m : RaftNode) (err : Option RaftError) :
    Turn.About Q (Call.replicated m owner) ∧ Turn.About Q (Call.replicateFailed m err owner) := by
  cases owner with
  | none => exact ⟨.fails [], .fails []⟩
  | some entry => exact ⟨.goes about, .fails [err]⟩

/-- A section of a call. -/
theorem Call.step_about {save applied : Bool} {call : Call} {turn : Turn} (about : call.About Q)
    (fetches : ∀ entry, n.nextCommittedEntry = some entry → Q entry.command)
    (stepped : call.step unmarshal n save applied = some turn) : turn.About Q := by
  cases call with
  | election stage =>
    have silent : ∀ stage, (Call.election stage).About Q := fun _ _ same => by contradiction
    simp only [Call.step, Call.electionStep] at stepped
    split at stepped <;> cases stepped
    all_goals
      repeat' split
      all_goals first
        | exact .goes (silent _)
        | exact .fails []
        | exact .ends (by simp [Observation.About])
  | propose stage =>
    simp only [Call.step, Call.proposeStep] at stepped
    split at stepped <;> cases stepped
    case h_2 command =>
      rcases n.appendLocal_cases unmarshal save command with ⟨err, same⟩ | same
      · rw [same]
        exact .fails [_]
      · rw [same]
        split
        · exact .fails [_]
        · exact .goes about
    all_goals
      try split
      all_goals first
        | exact .goes about
        | exact .fails [_]
        | exact .returns (about _ rfl)
  | replicate owner stage =>
    have ends := Turn.About.replicated about
    simp only [Call.step, Call.replicateStep] at stepped
    repeat' split at stepped
    all_goals cases stepped
    all_goals first
      | exact .goes about
      | exact (ends _ none).1
      | exact (ends _ _).2
  | apply stage =>
    cases stage with
    | fetching =>
      cases stepped
      split
      · exact .fails []
      · rename_i entry found
        refine .goes fun command same => ?_
        rw [← Option.some.inj same]
        exact fetches entry found
    | holding entry =>
      have own : Q entry.command := about _ rfl
      cases stepped
      split
      · exact .fails []
      all_goals
        constructor
        · intro next goes command same
          dsimp only at goes
          split at goes <;> cases goes
          all_goals first
            | contradiction
            | exact about command same
        · simp [Observation.About, own]
    | marking entry =>
      cases stepped
      exact .goes fun _ same => by contradiction

/-- A response reaches its call. -/
theorem Call.reply_about {save : Bool} {peer : NodeId} {call : Call} {body : Body} {turn : Turn}
    (about : call.About Q) (replied : call.reply n save peer body = some turn) : turn.About Q := by
  have silent : ∀ stage, (Call.election stage).About Q := fun _ _ same => by contradiction
  unfold Call.reply at replied
  split at replied
  case h_3 =>
    have ends := Turn.About.replicated about
    split at replied <;> cases replied
    repeat' split
    · exact (ends _ _).2
    · exact (ends _ none).1
    · exact .goes about
  all_goals
    try split at replied
    all_goals cases replied
    repeat' split
    all_goals first
      | exact .fails []
      | exact .goes (silent _)

/-- An RPC of a call returns an error. -/
theorem Call.failure_about {peer : NodeId} {call next : Call} (about : call.About Q)
    (failed : call.failure peer = some next) : next.About Q := by
  unfold Call.failure at failed
  repeat' split at failed
  all_goals cases failed
  all_goals exact about

/-- The command an event proposes. -/
def Event.proposed : Event → Option Bytes
  | start (.propose command) => some command
  | _ => none

/-- The calls of a process after a step. -/
theorem Server.react_about (calls : ∀ tag call, sv.calls tag = some call → call.About Q)
    (proposed : ∀ command ∈ event.proposed, Q command)
    (fetches : ∀ entry, sv.node.nextCommittedEntry = some entry → Q entry.command)
    (reacted : sv.react unmarshal peers event = some reaction) :
    (∀ tag call, reaction.server.calls tag = some call → call.About Q) ∧
      ∀ shown ∈ reaction.observed, shown.2.About Q := by
  constructor
  · refine Server.react_calls calls (fun kind starts => ?_)
      (fun _ _ _ _ _ _ _ about turned => (Call.step_about about fetches turned).call _)
      (fun _ _ _ _ _ _ about turned => (Call.reply_about about turned).call _)
      (fun _ _ _ about failed => Call.failure_about about failed) reacted
    intro command same
    cases kind <;> cases same
    exact proposed _ (by rw [starts]; rfl)
  · intro shown listed
    cases Server.react_cases reacted with
    | step tag save applied call turn running turned =>
      obtain ⟨observation, among, rfl⟩ := List.mem_map.mp listed
      exact (Call.step_about (calls tag call running) fetches turned).observed observation among
    | reply packet save call turn _ running turned =>
      obtain ⟨observation, among, rfl⟩ := List.mem_map.mp listed
      exact (Call.reply_about (calls packet.tag call running) turned).observed observation among
    | cancel tag call observed running cancelled =>
      obtain ⟨observation, among, rfl⟩ := List.mem_map.mp listed
      rw [show observation = .failed none from Call.cancel_shown cancelled among]
      simp [Observation.About]
    | _ => simp at listed

/-- A cluster in which commands of a kind only are known. -/
structure Cluster.Sourced (Q : Bytes → Prop) (c : Cluster) : Prop where
  /-- The logs and requests. -/
  servers : ∀ id, (c.servers id).Sourced fun _ => Q
  /-- The calls. -/
  calls : ∀ id tag call, (c.servers id).calls tag = some call → call.About Q
  /-- The messages. -/
  net : ∀ packet ∈ c.net, packet.body.Sourced fun _ => Q
  /-- What was shown. -/
  observed : ∀ record ∈ c.observed, record.observation.About Q

/-- Nothing wraps, and commands of a kind only are proposed. -/
def Proposes (Q : Bytes → Prop) (c : Cluster) (label : Label) : Prop :=
  c.nothingWraps label = true ∧ ∀ command ∈ label.event.proposed, Q command

instance (Q : Bytes → Prop) [DecidablePred Q] (c : Cluster) (label : Label) :
    Decidable (Proposes Q c label) :=
  inferInstanceAs (Decidable (_ ∧ _))

/-- `AppendLocal` is called by the proposal of its command. -/
theorem Server.operation_appendLocal {command : Bytes}
    (runs : sv.operation event = some (.appendLocal command)) :
    ∃ tag, sv.calls tag = some (.propose (.appending command)) := by
  obtain ⟨tag, -, -, call, -, running, made⟩ :=
    Server.operation_of_call runs (by rintro ⟨⟩ <;> simp [Body.operation]) (by simp)
  unfold Call.operation at made
  split at made <;> cases made
  exact ⟨tag, running⟩

variable {members : Members} {c c' : Cluster} {label : Label}

/-- A step of the cluster. -/
theorem Cluster.Sourced.step (sourced : c.Sourced Q) (steady : SteadyCluster members c)
    (allowed : Proposes Q c label) (stepped : c.step unmarshal members label = some c') :
    c'.Sourced Q := by
  obtain ⟨fits, proposed⟩ := allowed
  obtain ⟨terms, -⟩ := (Bool.and_eq_true ..).mp fits
  have reacts : ∀ reaction, label.node ∈ members.ids →
      (c.servers label.node).react unmarshal (members.peers label.node) label.event = some reaction →
      (∀ tag call, reaction.server.calls tag = some call → call.About Q) ∧
        ∀ shown ∈ reaction.observed, shown.2.About Q := by
    intro reaction inside reacted
    have rep := (steady.servers label.node inside).aligned.represents
    exact Server.react_about (sourced.calls label.node) proposed
      (fun entry next => (sourced.servers label.node).log.memory entry (rep.fetched next).1)
      reacted
  obtain ⟨servers, net⟩ := Cluster.step_keeps (S := fun _ sv => sv.Sourced (fun _ => Q) ∧
      ∀ tag call, sv.calls tag = some call → call.About Q) (N := fun packet => packet.body.Sourced fun _ => Q)
    (fun id => ⟨sourced.servers id, sourced.calls id⟩) sourced.net stepped
    fun reaction inside present reacted => by
      have asks := Server.react_asks
        (fun _ _ _ steps running => Cluster.termsFit_preVoteWon terms steps running) reacted
      obtain ⟨server, sent⟩ := (sourced.servers label.node).react (fun command runs => by
          obtain ⟨tag, running⟩ := Server.operation_appendLocal runs
          exact sourced.calls label.node tag _ running command rfl)
        (fun packet takes => sourced.net packet (present packet takes)) asks reacted
      exact ⟨⟨server, (reacts reaction inside reacted).1⟩, sent⟩
  refine ⟨fun id => (servers id).1, fun id => (servers id).2, net, fun record listed => ?_⟩
  obtain ⟨inside, rest, reaction, -, reacted, rfl⟩ := Cluster.step_some stepped
  rcases List.mem_append.mp listed with old | new
  · exact sourced.observed record old
  · obtain ⟨shown, among, rfl⟩ := List.mem_map.mp new
    exact (reacts reaction inside reacted).2 shown among

/-- A process that was just started has no entries. -/
theorem Server.Sourced.initial (members : Members) (id : NodeId) :
    ((Cluster.initial members).servers id).Sourced P := by
  refine ⟨⟨fun _ listed => ?_, fun state found => ?_⟩, fun _ listed => ?_, fun _ _ running => ?_⟩
  · simp [Cluster.initial, newRaftNode, RaftNode.persistentState] at listed
  · obtain rfl := Option.some.inj found
    exact fun _ listed => by simp at listed
  · simp [Cluster.initial] at listed
  · contradiction

/-- A cluster that was just started knows of no commands. -/
theorem Cluster.Sourced.initial (members : Members) : (Cluster.initial members).Sourced Q where
  servers := .initial members
  calls _ _ _ running := by contradiction
  net _ listed := by simp [Cluster.initial] at listed
  observed _ listed := by simp [Cluster.initial] at listed

/-- A run in which commands of a kind only are proposed knows of no others. -/
theorem Cluster.Sourced.reach
    (run : Reach (Cluster.step unmarshal members) (Proposes Q) (.initial members) c) :
    SteadyCluster members c ∧ c.Sourced Q := by
  refine run.invariant (P := fun c => SteadyCluster members c ∧ c.Sourced Q)
    ⟨.initial members, .initial members⟩ ?_
  rintro before after label ⟨steady, sourced⟩ allowed stepped
  exact ⟨(steady.step allowed.1 stepped).1, sourced.step steady allowed stepped⟩

/-- No command comes from nowhere: what holds of every command that is proposed holds of every entry
in the log of a node, compacted or not, in its store and in a message on its way, and of every entry
that was returned to a proposal or handed to a state machine, whoever crashed and whichever saves
failed. -/
theorem entries_proposed (run : Reach (Cluster.step unmarshal members) (Proposes Q) (.initial members) c) :
    (∀ id, (∀ entry ∈ (c.servers id).full, Q entry.command) ∧
      ∀ state, (c.servers id).node.store = some state → ∀ entry ∈ state.log, Q entry.command) ∧
    (∀ packet ∈ c.net, ∀ req, packet.body = .appendRequest req →
      ∀ entry ∈ req.entries, Q entry.command) ∧
    ∀ record ∈ c.observed, ∀ entry, record.observation = .returned entry ∨
      record.observation = .handed entry → Q entry.command := by
  obtain ⟨-, sourced⟩ := Cluster.Sourced.reach run
  exact ⟨fun id => ⟨(sourced.servers id).full, (sourced.servers id).log.disk⟩, sourced.net,
    sourced.observed⟩

end

/-- `A` commits `[88]` with `B`, applies it and is asked for `[89]`. -/
def appliedThenProposed : List Label :=
  Label.campaign "A" 0 1 0 0 [("B", 0)] ++
  [⟨"A", .start (.propose [88])⟩] ++ Label.sections "A" 1 9 ++
  Label.rpc "A" "B" 1 (.appendRequest ⟨1, "A", 0, 0, [⟨1, 1, [88]⟩], 0⟩)
    (.appendResponse ⟨1, "A", 0, 0, [⟨1, 1, [88]⟩], 0⟩ ⟨1, true⟩) ++ Label.sections "A" 1 3 ++
  [⟨"A", .start .apply⟩] ++ Label.sections "A" 2 3 ++
  [⟨"A", .start (.propose [89])⟩] ++ Label.sections "A" 3 2

/-- What `A` handed to its state machine and what `B` holds is one of the two commands that were
proposed. -/
theorem entries_proposed_two : ∃ c,
    Reach (Cluster.step plainCommands threeNodes)
      (Proposes fun command => command = [88] ∨ command = [89]) (.initial threeNodes) c ∧
      (⟨"A", 2, .handed ⟨1, 1, [88]⟩⟩ : Record) ∈ c.observed ∧
      (c.servers "A").full.length = 2 ∧ (c.servers "B").full = [⟨1, 1, [88]⟩] ∧
      ∀ entry ∈ (c.servers "A").full, entry.command = [88] ∨ entry.command = [89] := by
  have passed : (Transition.exec (Cluster.step plainCommands threeNodes)
      (Proposes fun command => command = [88] ∨ command = [89]) (.initial threeNodes)
      appliedThenProposed).any (fun c =>
        decide (⟨"A", 2, .handed ⟨1, 1, [88]⟩⟩ ∈ c.observed ∧ (c.servers "A").full.length = 2 ∧
          (c.servers "B").full = [⟨1, 1, [88]⟩])) = true := by
    decide +kernel
  obtain ⟨c, run, test⟩ := Reach.of_exec_test passed
  obtain ⟨handed, long, held⟩ := of_decide_eq_true test
  exact ⟨c, run, handed, long, held, ((entries_proposed run).1 "A").1⟩

end Raft

import RvKeyValue.Cluster.Calls

/-!
# The cluster simulates the protocol

Each section of a call, each handler, a compaction and a restart take the abstract protocol
along. The conditions that make this true of every step are that saves succeed, that no
membership change is applied, that no counter wraps, and the two the code does not check:
`AppendLocal` runs on a leader, and a recorded success answers a request of the current term.
-/

namespace Raft

open ReplicatedLog (lastTerm)

section Turns

variable {members : Members} {unmarshal : Bytes → Option MembershipCommand} {id : NodeId}
  {n : RaftNode} {a : Protocol}

/-- A section of a call keeps the relation and says only what is true. -/
structure TurnOk (members : Members) (id : NodeId) (n : RaftNode) (a : Protocol) (turn : Turn)
    (a' : Protocol) : Prop where
  /-- The protocol moved along. -/
  advance : Advance members id n turn.node a a'
  /-- The store is in step. -/
  persists : Persists members id turn.node
  /-- The call knows only what is true. -/
  call : ∀ next, turn.call = some next → CallOk members id turn.node a' next
  /-- Requests go to peers and say what is true. -/
  sent : ∀ request ∈ turn.sent, request.1 ∈ members.peers id ∧
    BodyOk members a' id request.1 request.2
  /-- What is observed is true. -/
  observed : ∀ observation ∈ turn.observed, ObservationOk members a' id observation

/-- A record stays as it is. -/
theorem Advance.idle (good : Good members a) (refines : Refines members id n a) :
    Advance members id n n a a :=
  .stay good refines ⟨rfl, rfl, rfl, rfl, rfl, rfl, rfl, rfl, rfl, rfl, rfl, rfl, rfl⟩

/-- A turn that sends nothing and shows nothing only has to say how the call goes on. -/
theorem TurnOk.quiet {n' : RaftNode} {a' : Protocol} {call : Option Call}
    (advance : Advance members id n n' a a') (persists : Persists members id n')
    (next : ∀ next, call = some next → CallOk members id n' a' next) :
    TurnOk members id n a { node := n', call } a' where
  advance := advance
  persists := persists
  call := next
  sent := by simp
  observed := by simp

/-- A call that returns without showing anything. -/
theorem TurnOk.done {n' : RaftNode} {a' : Protocol} (advance : Advance members id n n' a a')
    (persists : Persists members id n') : TurnOk members id n a { node := n' } a' :=
  .quiet advance persists (by simp)

/-- A call that returns an error. -/
theorem TurnOk.failed {n' : RaftNode} {a' : Protocol} (err : Option RaftError)
    (advance : Advance members id n n' a a') (persists : Persists members id n') :
    TurnOk members id n a (Call.fail n' err) a' where
  advance := advance
  persists := persists
  call := by simp [Call.fail]
  sent := by simp [Call.fail]
  observed := by simp [Call.fail, ObservationOk]

/-- `replicateOnce` returns nil. -/
theorem TurnOk.replicated {n' : RaftNode} {a' : Protocol} {owner : Option LogEntry}
    (advance : Advance members id n n' a a') (persists : Persists members id n')
    (owned : ∀ entry, owner = some entry → Written a' entry) :
    TurnOk members id n a (Call.replicated n' owner) a' := by
  cases owner with
  | none => exact .done advance persists
  | some entry =>
    refine .quiet advance persists fun next same => ?_
    obtain rfl := Option.some.inj same
    exact owned entry rfl

/-- `replicateOnce` returns an error. -/
theorem TurnOk.replicateFailed {n' : RaftNode} {a' : Protocol} (owner : Option LogEntry)
    (err : Option RaftError) (advance : Advance members id n n' a a')
    (persists : Persists members id n') :
    TurnOk members id n a (Call.replicateFailed n' err owner) a' := by
  cases owner with
  | none => exact .done advance persists
  | some entry => exact .failed err advance persists

/-- The request a node builds describes its log. -/
theorem Refines.selfMatch (refines : Refines members id n a) : SelfMatch id n a n.voteRequest := by
  refine ⟨refines.own, refines.term.le, fun _ _ => ⟨refines.log.lastLogIndex, ?_⟩⟩
  rw [lastTerm_eq]
  exact refines.log.lastLogTerm

/-- The record, messages and observations of the next section of `StartElection`. -/
theorem electionStep_advance (good : Good members a) (refines : Refines members id n a)
    (persists : Persists members id n) {stage : ElectionStage}
    (ok : ElectionOk members id n a stage)
    (fits : stage = .preVoteWon → n.currentTerm + 1 < Word.limit) {turn : Turn}
    (stepped : Call.electionStep n true stage = some turn) :
    ∃ a', Advance members id n turn.node a a' ∧ Persists members id turn.node ∧
      (∀ request ∈ turn.sent, request.1 ∈ members.peers id ∧
        BodyOk members a' id request.1 request.2) ∧
      ∀ observation ∈ turn.observed, ObservationOk members a' id observation := by
  have idle := Advance.idle good refines
  cases stage with
  | starting =>
    obtain rfl := Option.some.inj stepped
    split <;> exact ⟨a, idle, persists, by simp [Call.campaign], by simp [Call.campaign]⟩
  | preVoteStarting =>
    obtain rfl := Option.some.inj stepped
    split <;> exact ⟨a, idle, persists, by simp [Call.campaign], by simp [Call.campaign]⟩
  | preVoteReading =>
    obtain rfl := Option.some.inj stepped
    split
    · exact ⟨a, idle, persists, by simp [Call.campaign], by simp [Call.campaign]⟩
    · refine ⟨a, idle, persists, fun request listed => ?_, by simp [Call.campaign]⟩
      obtain ⟨peer, inside, rfl⟩ := List.mem_map.mp listed
      rw [refines.peers] at inside
      exact ⟨inside, trivial⟩
  | preVoting req clusterSize votes waiting =>
    cases waiting with
    | nil =>
      obtain rfl := Option.some.inj stepped
      exact ⟨a, idle, persists, by simp, by simp⟩
    | cons peer rest => contradiction
  | preVoteWon =>
    obtain rfl := Option.some.inj stepped
    obtain ⟨saved, stored, a', advance⟩ := becomeCandidate_advance good refines persists (fits rfl)
    rw [saved]
    exact ⟨a', advance, stored, by simp [Call.campaign], by simp [Call.campaign]⟩
  | campaigning =>
    obtain rfl := Option.some.inj stepped
    split
    · exact ⟨a, idle, persists, by simp [Call.campaign], by simp [Call.campaign]⟩
    · refine ⟨a, idle, persists, fun request listed => ?_, by simp [Call.campaign]⟩
      obtain ⟨peer, inside, rfl⟩ := List.mem_map.mp listed
      rw [refines.peers] at inside
      refine ⟨inside, refines.own, ?_⟩
      show n.currentTerm < Word.limit
      rw [refines.term]
      exact refines.termFits
  | voting req clusterSize votes waiting =>
    cases waiting with
    | nil =>
      obtain rfl := Option.some.inj stepped
      exact ⟨a, idle, persists, by simp, by simp⟩
    | cons peer rest => contradiction
  | voteReceived req clusterSize votes waiting peer voteGranted =>
    obtain rfl := Option.some.inj stepped
    split
    · exact ⟨a, idle, persists, by simp, by simp⟩
    split
    · exact ⟨a, idle, persists, by simp [Call.campaign], by simp [Call.campaign]⟩
    split <;> exact ⟨a, idle, persists, by simp [Call.campaign], by simp [Call.campaign]⟩
  | winning term =>
    obtain rfl := Option.some.inj stepped
    obtain ⟨req, rfl, matched, voters, ballots, enough⟩ := ok
    obtain ⟨-, stored, a', advance, won⟩ :=
      promoteCandidate_advance good refines persists ballots matched enough
    refine ⟨a', advance, stored, by simp, fun observation shown => ?_⟩
    simp only at shown
    split at shown
    · rename_i promoted
      obtain rfl := List.mem_singleton.mp shown
      obtain ⟨election, decided, self, -⟩ := won promoted
      exact ⟨election, decided, self⟩
    · simp at shown

/-- The next section of `StartElection`. -/
theorem electionStep_ok (good : Good members a) (refines : Refines members id n a)
    (persists : Persists members id n) {stage : ElectionStage}
    (ok : ElectionOk members id n a stage)
    (fits : stage = .preVoteWon → n.currentTerm + 1 < Word.limit) {turn : Turn}
    (stepped : Call.electionStep n true stage = some turn) :
    ∃ a', TurnOk members id n a turn a' := by
  obtain ⟨a', advance, stored, sent, observed⟩ :=
    electionStep_advance good refines persists ok fits stepped
  refine ⟨a', advance, stored, fun call same => ?_, sent, observed⟩
  obtain ⟨stage', rfl⟩ := Call.electionStep_next stepped same
  have counted : CallOk members id n a (.election stage') :=
    Polled.step (fun _ _ => refines.member) (fun _ => ⟨refines.peers, refines.selfMatch⟩) ok stepped same
  exact counted.stable (advance.continues refines)

/-- `AppendLocal` on a leader writes an entry or changes nothing. -/
theorem appendLocal_advance (good : Good members a) (refines : Refines members id n a)
    (persists : Persists members id n) (leader : n.state = .leader)
    (room : n.lastLogIndexLocked + 2 < Word.limit) (command : Bytes) :
    Persists members id (n.appendLocal unmarshal true command).node ∧
    ∃ a', Advance members id n (n.appendLocal unmarshal true command).node a a' ∧
      ((n.appendLocal unmarshal true command).err = none →
        Written a' (n.appendLocal unmarshal true command).value) := by
  have idle := Advance.idle good refines
  obtain ⟨-, stored, a', advance, written⟩ :=
    appendCommand_advance good refines persists leader room command
  cases RaftNode.appendLocal_cases unmarshal n true command with
  | inl refused =>
    obtain ⟨err, same⟩ := refused
    rw [same]
    exact ⟨persists, a, idle, by simp⟩
  | inr appended =>
    rw [appended]
    exact ⟨stored, a', advance, fun _ => written⟩

/-- The next section of `ProposeWithRetryInterval`. -/
theorem proposeStep_ok (good : Good members a) (refines : Refines members id n a)
    (persists : Persists members id n) {stage : ProposeStage} (ok : ProposeOk a stage)
    (leads : ∀ command, stage = .appending command →
      n.state = .leader ∧ n.lastLogIndexLocked + 2 < Word.limit) {turn : Turn}
    (stepped : Call.proposeStep unmarshal n true stage = some turn) :
    ∃ a', TurnOk members id n a turn a' := by
  have idle := Advance.idle good refines
  have goOn : ∀ stage, ProposeOk a stage → TurnOk members id n a (Call.pursue n stage) a := by
    intro stage known
    refine .quiet idle persists fun next same => ?_
    obtain rfl := Option.some.inj same
    exact known
  have returns : ∀ entry, Written a entry →
      TurnOk members id n a { node := n, observed := [.returned entry] } a := by
    intro entry written
    refine ⟨idle, persists, by simp, by simp, fun observation shown => ?_⟩
    obtain rfl := List.mem_singleton.mp shown
    exact written
  cases stage with
  | starting command =>
    obtain rfl := Option.some.inj stepped
    split
    · exact ⟨a, goOn _ trivial⟩
    · exact ⟨a, .failed _ idle persists⟩
  | appending command =>
    obtain rfl := Option.some.inj stepped
    have allowed := leads command rfl
    obtain ⟨stored, a', advance, written⟩ :=
      appendLocal_advance good refines persists allowed.1 allowed.2 command
    cases failed : (n.appendLocal unmarshal true command).err with
    | some err => exact ⟨a', .failed _ advance stored⟩
    | none =>
      refine ⟨a', .quiet advance stored fun next same => ?_⟩
      obtain rfl := Option.some.inj same
      exact written failed
  | checking entry =>
    obtain rfl := Option.some.inj stepped
    split
    · exact ⟨a, returns entry ok⟩
    · exact ⟨a, goOn _ ok⟩
  | leading entry =>
    obtain rfl := Option.some.inj stepped
    split
    · refine ⟨a, .quiet idle persists fun next same => ?_⟩
      obtain rfl := Option.some.inj same
      refine ⟨fun owned isOwned => ?_, trivial⟩
      obtain rfl := Option.some.inj isOwned
      exact ok
    · exact ⟨a, .failed _ idle persists⟩
  | rechecking entry =>
    obtain rfl := Option.some.inj stepped
    split
    · exact ⟨a, returns entry ok⟩
    · exact ⟨a, goOn _ ok⟩
  | sleeping entry =>
    obtain rfl := Option.some.inj stepped
    exact ⟨a, goOn _ ok⟩

/-- The next section of `replicateOnce`. -/
theorem replicateStep_ok (good : Good members a) (refines : Refines members id n a)
    (persists : Persists members id n) {owner : Option LogEntry} {stage : ReplicateStage}
    (owned : ∀ entry, owner = some entry → Written a entry)
    (ok : ReplicateOk members id a stage)
    (current : ∀ waiting peer req, stage = .recording waiting peer req true →
      n.state = .leader → req.term = n.currentTerm) {turn : Turn}
    (stepped : Call.replicateStep n owner stage = some turn) :
    ∃ a', TurnOk members id n a turn a' := by
  have idle := Advance.idle good refines
  have goOn : ∀ {n' : RaftNode} {a' : Protocol} (stage : ReplicateStage),
      Advance members id n n' a a' → Persists members id n' → ReplicateOk members id a' stage →
      TurnOk members id n a (Call.spread n' owner stage) a' := by
    intro n' a' stage advance stored known
    refine .quiet advance stored fun next same => ?_
    obtain rfl := Option.some.inj same
    exact ⟨fun entry isOwned => (owned entry isOwned).grow advance.grows, known⟩
  cases stage with
  | ensuring =>
    obtain rfl := Option.some.inj stepped
    rw [refines.ensureLeaderProgress]
    exact ⟨a, goOn _ idle persists trivial⟩
  | listing =>
    obtain rfl := Option.some.inj stepped
    refine ⟨a, goOn _ idle persists ⟨fun peer listed => ?_, fun request listed => ?_⟩⟩
    · rw [← refines.peers]
      exact listed
    · simp at listed
  | building remaining requests =>
    cases remaining with
    | nil =>
      obtain rfl := Option.some.inj stepped
      have going := goOn (.awaiting requests) idle persists ok.2
      refine ⟨a, { going with sent := fun message listed => ?_ }⟩
      obtain ⟨request, inside, rfl⟩ := List.mem_map.mp listed
      exact ok.2 request inside
    | cons peer rest =>
      obtain rfl := Option.some.inj stepped
      cases built : n.buildAppendEntries peer with
      | error err => exact ⟨a, .replicateFailed owner _ idle persists⟩
      | ok req =>
        refine ⟨a, goOn _ idle persists ⟨fun other listed => ok.1 other (List.mem_cons_of_mem _ listed),
          fun request listed => ?_⟩⟩
        cases List.mem_append.mp listed with
        | inl old => exact ok.2 request old
        | inr new =>
          rw [List.mem_singleton.mp new]
          exact ⟨ok.1 peer List.mem_cons_self, _, buildAppendEntries_ok good refines built⟩
  | awaiting waiting =>
    cases waiting with
    | nil =>
      obtain rfl := Option.some.inj stepped
      exact ⟨a, .replicated idle persists owned⟩
    | cons request rest => contradiction
  | recording waiting peer req success =>
    cases success with
    | true =>
      obtain rfl := Option.some.inj stepped
      obtain ⟨stored, a', advance⟩ := recordSuccess_advance good refines persists (ok.2 rfl)
        (current waiting peer req rfl)
      have continues := advance.continues refines
      have waits := ok.1.stable continues
      cases failed : (n.recordReplicationSuccess peer (Call.matchIndexOf req)).2 with
      | some err => exact ⟨a', .replicateFailed owner _ advance stored⟩
      | none =>
        cases owner with
        | none => exact ⟨a', goOn _ advance stored waits⟩
        | some entry =>
          simp only
          split
          · exact ⟨a', goOn _ advance stored waits⟩
          · exact ⟨a', goOn _ advance stored waits⟩
    | false =>
      obtain rfl := Option.some.inj stepped
      obtain ⟨stored, advance⟩ := recordFailure_advance good refines persists peer
      cases failed : (n.recordReplicationFailure peer).2 with
      | some err => exact ⟨a, .replicateFailed owner _ advance stored⟩
      | none => exact ⟨a, goOn _ advance stored ok.1⟩
  | stopping waiting =>
    cases owner with
    | none => contradiction
    | some entry =>
      obtain rfl := Option.some.inj stepped
      split
      · exact ⟨a, .replicated idle persists owned⟩
      · exact ⟨a, goOn _ idle persists ok⟩

/-- The next section of `ApplyCommitted`, which applies no membership change. -/
theorem applyStep_ok (good : Good members a) (refines : Refines members id n a)
    (persists : Persists members id n) {stage : ApplyStage} (ok : ApplyOk members n a stage)
    (fixed : ∀ entry change, stage = .holding entry →
      decodeMembershipChange unmarshal entry.command ≠ some (.ok change)) {applied : Bool}
    {turn : Turn} (stepped : Call.applyStep unmarshal n true applied stage = some turn) :
    ∃ a', TurnOk members id n a turn a' := by
  have idle := Advance.idle good refines
  cases stage with
  | fetching =>
    obtain rfl := Option.some.inj stepped
    cases found : n.nextCommittedEntry with
    | none => exact ⟨a, .done idle persists⟩
    | some entry =>
      obtain ⟨index, committed, read⟩ := nextCommittedEntry_found refines found
      refine ⟨a, .quiet idle persists fun next same => ?_⟩
      obtain rfl := Option.some.inj same
      exact ⟨committed, refines.settled read (by omega)⟩
  | holding entry =>
    obtain rfl := Option.some.inj stepped
    cases decoded : decodeMembershipChange unmarshal entry.command with
    | none =>
      refine ⟨a, idle, persists, fun next same => ?_, by simp, fun observation shown => ?_⟩
      · cases applied with
        | false => contradiction
        | true =>
          obtain rfl := Option.some.inj same
          exact ok
      · obtain rfl := List.mem_singleton.mp shown
        exact ok.2
    | some result =>
      cases result with
      | error err => exact ⟨a, .done idle persists⟩
      | ok change => exact absurd decoded (fixed entry change rfl)
  | marking entry =>
    obtain rfl := Option.some.inj stepped
    obtain ⟨stored, advance⟩ := markApplied_advance good refines persists ok.1
    refine ⟨a, .quiet advance stored fun next same => ?_⟩
    obtain rfl := Option.some.inj same
    trivial

/-- A response that reaches `StartElection`. -/
theorem electionReply_ok (good : Good members a) (refines : Refines members id n a)
    (persists : Persists members id n) {stage : ElectionStage}
    (ok : ElectionOk members id n a stage) {peer : NodeId} {body : Body}
    (said : BodyOk members a id peer body) {turn : Turn}
    (stepped : Call.reply n true peer (.election stage) body = some turn) :
    ∃ a', TurnOk members id n a turn a' := by
  obtain ⟨term, fits, node, sent, observed⟩ : ∃ term, term < Word.limit ∧
      turn.node = (n.stepDownForHigherTerm true term).node ∧ turn.sent = [] ∧
      turn.observed = [] := by
    obtain ⟨term, shape, heard⟩ := Call.electionReply_shape stepped
    refine ⟨term, ?_, shape⟩
    cases heard with
    | inl preVote =>
      obtain ⟨req, granted, rfl⟩ := preVote
      exact said
    | inr vote =>
      obtain ⟨req, granted, rfl⟩ := vote
      exact said.1
  obtain ⟨-, stored, a', advance⟩ := stepDown_advance good refines persists fits
  rw [← node] at stored advance
  refine ⟨a', advance, stored, fun call same => ?_, by simp [sent], by simp [observed]⟩
  obtain ⟨stage', rfl⟩ := Call.electionReply_next stepped same
  have counted : CallOk members id n a (.election stage') :=
    Polled.reply ok (fun req resp heard granted => by rw [heard] at said; exact said.2 granted)
      stepped same
  exact counted.stable (advance.continues refines)

/-- A response that reaches `replicateOnce`. -/
theorem replicateReply_ok (good : Good members a) (refines : Refines members id n a)
    (persists : Persists members id n) {owner : Option LogEntry} {stage : ReplicateStage}
    (ok : CallOk members id n a (.replicate owner stage)) {peer : NodeId} {body : Body}
    (said : BodyOk members a id peer body) {turn : Turn}
    (stepped : Call.reply n true peer (.replicate owner stage) body = some turn) :
    ∃ a', TurnOk members id n a turn a' := by
  cases stage with
  | awaiting waiting =>
    cases body with
    | appendResponse asked resp =>
      simp only [Call.reply] at stepped
      split at stepped
      · obtain rfl := Option.some.inj stepped
        obtain ⟨saved, stored, a', advance⟩ := stepDown_advance good refines persists said.1
        have owned : ∀ entry, owner = some entry → Written a' entry :=
          fun entry isOwned => (ok.1 entry isOwned).grow advance.grows
        refine ⟨a', ?_⟩
        rw [saved]
        simp only
        split
        · exact .replicated advance stored owned
        · refine .quiet advance stored fun next same => ?_
          obtain rfl := Option.some.inj same
          have waits := RequestsOk.stable (advance.continues refines) ok.2
          refine ⟨owned, fun request listed => waits request (List.mem_of_mem_erase listed), ?_⟩
          exact fun success => (said.2 success).grow advance.grows
      · contradiction
    | _ => contradiction
  | _ => contradiction

/-- A response that reaches its call. -/
theorem reply_ok (good : Good members a) (refines : Refines members id n a)
    (persists : Persists members id n) {call : Call} (ok : CallOk members id n a call)
    {peer : NodeId} {body : Body} (said : BodyOk members a id peer body) {turn : Turn}
    (stepped : call.reply n true peer body = some turn) : ∃ a', TurnOk members id n a turn a' := by
  cases call with
  | election stage => exact electionReply_ok good refines persists ok said stepped
  | replicate owner stage => exact replicateReply_ok good refines persists ok said stepped
  | propose stage => contradiction
  | apply stage => contradiction

/-- A call whose RPC failed still knows only what is true. -/
theorem failure_ok {call next : Call} (ok : CallOk members id n a call) {peer : NodeId}
    (stepped : call.failure peer = some next) : CallOk members id n a next := by
  cases call with
  | election stage =>
    obtain ⟨stage', rfl, polled⟩ := Polled.failure ok stepped
    exact polled
  | replicate owner stage =>
    cases stage with
    | awaiting waiting =>
      simp only [Call.failure] at stepped
      split at stepped
      · obtain rfl := Option.some.inj stepped
        exact ⟨ok.1, fun request listed => ok.2 request (List.mem_of_mem_erase listed)⟩
      · contradiction
    | _ => contradiction
  | propose stage => contradiction
  | apply stage => contradiction

/-- The conditions under which the next section of a call keeps the relation. -/
structure Permitted (unmarshal : Bytes → Option MembershipCommand) (n : RaftNode) (call : Call) :
    Prop where
  /-- A candidate's next term is a word. -/
  term : call = .election .preVoteWon → n.currentTerm + 1 < Word.limit
  /-- Only a leader appends. -/
  leads : ∀ command, call = .propose (.appending command) → n.state = .leader
  /-- The index after an appended entry is a word. -/
  room : ∀ command, call = .propose (.appending command) → n.lastLogIndexLocked + 2 < Word.limit
  /-- A leader records successes of its term only. -/
  current : ∀ owner waiting peer req, call = .replicate owner (.recording waiting peer req true) →
    n.state = .leader → req.term = n.currentTerm
  /-- No membership change is applied. -/
  fixed : ∀ entry change, call = .apply (.holding entry) →
    decodeMembershipChange unmarshal entry.command ≠ some (.ok change)

/-- The next section of any call. -/
theorem step_ok (good : Good members a) (refines : Refines members id n a)
    (persists : Persists members id n) {call : Call} (ok : CallOk members id n a call)
    (permitted : Permitted unmarshal n call) {applied : Bool} {turn : Turn}
    (stepped : call.step unmarshal n true applied = some turn) :
    ∃ a', TurnOk members id n a turn a' := by
  cases call with
  | election stage =>
    exact electionStep_ok good refines persists ok (fun same => permitted.term (by rw [same])) stepped
  | propose stage =>
    exact proposeStep_ok good refines persists ok
      (fun command same => ⟨permitted.leads command (by rw [same]),
        permitted.room command (by rw [same])⟩) stepped
  | replicate owner stage =>
    exact replicateStep_ok good refines persists ok.1 ok.2
      (fun waiting peer req same => permitted.current owner waiting peer req (by rw [same])) stepped
  | apply stage =>
    exact applyStep_ok good refines persists ok
      (fun entry change same => permitted.fixed entry change (by rw [same])) stepped

/-- A handler keeps the relation, and its response says what is true. -/
theorem handle_ok (good : Good members a) (refines : Refines members id n a)
    (persists : Persists members id n) {source : NodeId} (peer : source ∈ members.peers id)
    {body : Body} (said : BodyOk members a source id body) {answer : RaftNode × Option Body}
    (handled : Server.handle n true body = some answer) :
    Persists members id answer.1 ∧ ∃ a', Advance members id n answer.1 a a' ∧
      ∀ response, answer.2 = some response → BodyOk members a' source id response := by
  cases body with
  | preVoteRequest req =>
    obtain rfl := Option.some.inj handled
    refine ⟨persists, a, .idle good refines, fun response same => ?_⟩
    obtain rfl := Option.some.inj same
    show (n.preVote req).term < Word.limit
    have bound : n.currentTerm < Word.limit := by rw [refines.term]; exact refines.termFits
    unfold RaftNode.preVote
    split
    · exact bound
    split
    · exact bound
    split
    · exact bound
    · exact bound
  | voteRequest req =>
    obtain rfl := Option.some.inj handled
    have other := (members.mem_peers id refines.member source).mp peer
    have named : req.candidateID ≠ "" := by rw [said.1]; exact members.named source other.1
    obtain ⟨saved, bound, stored, a', advance, granted⟩ :=
      requestVote_advance good refines persists req named said.2
    refine ⟨stored, a', advance, fun response same => ?_⟩
    simp only [saved, Option.isSome_none, Bool.false_eq_true, if_false] at same
    obtain rfl := Option.some.inj same
    exact ⟨bound, fun yes => (granted yes).1⟩
  | appendRequest req =>
    obtain rfl := Option.some.inj handled
    obtain ⟨log, sent⟩ := said
    obtain ⟨saved, bound, stored, a', advance, acked⟩ :=
      handleAppendEntries_advance good refines persists sent
    refine ⟨stored, a', advance, fun response same => ?_⟩
    simp only [saved, Option.isSome_none, Bool.false_eq_true, if_false] at same
    obtain rfl := Option.some.inj same
    exact ⟨bound, acked⟩
  | preVoteResponse req resp => contradiction
  | voteResponse req resp => contradiction
  | appendResponse req resp => contradiction

end Turns

end Raft

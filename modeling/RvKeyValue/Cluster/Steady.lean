import RvKeyValue.Cluster.Aligned

/-!
# Processes in every run

What one section of a call can do to the record and to the call, and from it what every run
keeps: logs stay numbered, requests stay contiguous, and the whole log of a process changes
below an index only when it accepts a request that conflicts with it there.
-/

namespace Raft

section

variable {unmarshal : Bytes → Option MembershipCommand} {n : RaftNode} {call : Call} {turn : Turn}

/-- What a section of a call, other than `AppendLocal`, or a response can do. -/
structure Shape (n : RaftNode) (call : Call) (turn : Turn) : Prop where
  /-- The log is kept; the entry an `ApplyCommitted` holds may be marked. -/
  node : ∃ m, (m = n ∨ ∃ entry, call.holds = some entry ∧ m = n.markApplied entry.index) ∧
    KeepsSaved m turn.node
  /-- A proposal waits for the entry it waited for. -/
  awaits : ∀ next entry, turn.call = some next → next.awaits = some entry → call.awaits = some entry
  /-- A proposal is about to append only after its role check. -/
  appending : ∀ command, turn.call = some (.propose (.appending command)) →
    n.state = .leader ∧ turn.node = n
  /-- Requests are kept or built now. -/
  requests : ∀ next, turn.call = some next → ∀ request ∈ next.requests, request ∈ call.requests ∨
    n.buildAppendEntries request.1 = .ok request.2
  /-- The term stays while there are requests. -/
  term : ∀ next, turn.call = some next → next.requests ≠ [] → turn.node.currentTerm = n.currentTerm
  /-- A call goes on as what it was. -/
  kind : ∀ next, turn.call = some next →
    next.isElection = call.isElection ∧ next.isApply = call.isApply
  /-- Only requests are sent. -/
  asks : ∀ message ∈ turn.sent, ∀ req resp, message.2 ≠ .voteResponse req resp
  /-- Built requests are sent. -/
  sent : ∀ message ∈ turn.sent, ∀ req, message.2 = .appendRequest req →
    ∃ peer, (peer, req) ∈ call.requests
  /-- An entry is returned when the commit index has reached it. -/
  returned : ∀ entry, .returned entry ∈ turn.observed →
    call.awaits = some entry ∧ entry.index ≤ n.commitIndex ∧
      turn.node = n ∧ turn.call = none ∧ turn.observed = [.returned entry]
  /-- A node is promoted that has won the election of its term. -/
  promoted : ∀ term, .promoted term ∈ turn.observed → call = .election (.winning term) ∧
    n.currentTerm = term ∧ turn.node.currentTerm = term ∧ turn.node.state = .leader

/-- What a section leaves of the log and the term. -/
theorem Shape.fields (shape : Shape n call turn) : turn.node.log = n.log ∧
    turn.node.lastIncludedIndex = n.lastIncludedIndex ∧ n.currentTerm ≤ turn.node.currentTerm := by
  obtain ⟨m, marks, kept⟩ := shape.node
  obtain ⟨-, log, included, term⟩ := kept.fields
  rcases marks with rfl | ⟨entry, -, rfl⟩
  · exact ⟨log, included, term⟩
  · rw [n.markApplied_eq] at log included term
    exact ⟨log, included, term⟩

/-- A section keeps a process aligned. -/
theorem Shape.aligned {sv : Server} (shape : Shape sv.node call turn) (aligned : Aligned sv) :
    Aligned { sv with node := turn.node } := by
  obtain ⟨m, marks, kept⟩ := shape.node
  rcases marks with rfl | ⟨entry, -, rfl⟩
  · exact aligned.keepSaved kept
  · exact (aligned.marked entry.index).keepSaved kept

/-- A section that keeps what the call waits for and has built. -/
theorem Shape.goOn {n' : RaftNode} {next : Call} (kept : KeepsSaved n n')
    (awaits : next.awaits = call.awaits)
    (kind : next.isElection = call.isElection ∧ next.isApply = call.isApply)
    (term : next.requests = [] ∨ n'.currentTerm = n.currentTerm)
    (requests : ∀ request ∈ next.requests, request ∈ call.requests)
    (other : ∀ command, next ≠ .propose (.appending command)) :
    Shape n call { node := n', call := some next } where
  node := ⟨n, Or.inl rfl, kept⟩
  awaits found entry same waits := by
    obtain rfl := Option.some.inj same
    rw [← awaits]
    exact waits
  appending command same := absurd (Option.some.inj same) (other command)
  requests found same request listed := by
    obtain rfl := Option.some.inj same
    exact Or.inl (requests request listed)
  term found same present := by
    obtain rfl := Option.some.inj same
    exact term.resolve_left present
  kind found same := by
    obtain rfl := Option.some.inj same
    exact kind
  asks := by simp
  sent := by simp
  returned := by simp
  promoted := by simp

/-- A section that ends the call without a result. -/
theorem Shape.done {n' : RaftNode} (kept : KeepsSaved n n') (observed : List Observation)
    (silent : ∀ entry, .returned entry ∉ observed) (quiet : ∀ term, .promoted term ∉ observed) :
    Shape n call { node := n', observed := observed } where
  node := ⟨n, Or.inl rfl, kept⟩
  awaits := by simp
  appending := by simp
  requests := by simp
  term := by simp
  kind := by simp
  asks := by simp
  sent := by simp
  returned entry shown := absurd shown (silent entry)
  promoted term shown := absurd shown (quiet term)

/-- A proposal that returns its entry. -/
theorem Shape.returns {entry : LogEntry} (waits : call.awaits = some entry)
    (committed : entry.index ≤ n.commitIndex) :
    Shape n call { node := n, observed := [.returned entry] } where
  node := ⟨n, Or.inl rfl, (Keeps.refl n).unsaved⟩
  awaits := by simp
  appending := by simp
  requests := by simp
  term := by simp
  kind := by simp
  asks := by simp
  sent := by simp
  returned found shown := by
    obtain rfl : found = entry := by simpa using shown
    exact ⟨waits, committed, rfl, rfl, rfl⟩
  promoted := by simp

/-- Sections of `StartElection`. -/
theorem electionStep_shape {save : Bool} {stage : ElectionStage}
    (fits : stage = .preVoteWon → n.currentTerm + 1 < Word.limit)
    (stepped : Call.electionStep n save stage = some turn) : Shape n (.election stage) turn := by
  have still := (Keeps.refl n).unsaved
  have goOn : ∀ next, Shape n (.election stage) (Call.campaign n next) := fun next =>
    .goOn still rfl ⟨rfl, rfl⟩ (Or.inr rfl) (by simp [Call.requests]) (by simp)
  have ends : Shape n (.election stage) { node := n } := .done still [] (by simp) (by simp)
  cases stage with
  | starting =>
    obtain rfl := Option.some.inj stepped
    split
    · exact goOn _
    · exact ends
  | preVoteStarting =>
    obtain rfl := Option.some.inj stepped
    split
    · exact goOn _
    · exact ends
  | preVoteReading =>
    obtain rfl := Option.some.inj stepped
    split
    · exact goOn _
    · refine { goOn (.preVoting n.preVoteRequest (n.peers.length + 1) 1 n.peers) with
        asks := by simp
        sent := fun message listed req same => ?_ }
      obtain ⟨peer, -, rfl⟩ := List.mem_map.mp listed
      contradiction
  | preVoting req clusterSize votes waiting =>
    cases waiting with
    | nil =>
      obtain rfl := Option.some.inj stepped
      exact ends
    | cons peer rest => contradiction
  | preVoteWon =>
    obtain rfl := Option.some.inj stepped
    have kept := becomeCandidate_keeps n (fits rfl) save
    split
    · exact .done kept [] (by simp) (by simp)
    · exact .goOn kept rfl ⟨rfl, rfl⟩ (Or.inl rfl) (by simp [Call.requests]) (by simp)
  | campaigning =>
    obtain rfl := Option.some.inj stepped
    split
    · exact goOn _
    · refine { goOn (.voting n.voteRequest (n.peers.length + 1) 1 n.peers) with
        asks := by simp
        sent := fun message listed req same => ?_ }
      obtain ⟨peer, -, rfl⟩ := List.mem_map.mp listed
      contradiction
  | voting req clusterSize votes waiting =>
    cases waiting with
    | nil =>
      obtain rfl := Option.some.inj stepped
      exact ends
    | cons peer rest => contradiction
  | voteReceived req clusterSize votes waiting peer voteGranted =>
    obtain rfl := Option.some.inj stepped
    split
    · exact ends
    split
    · exact goOn _
    split
    · exact goOn _
    · exact goOn _
  | winning term =>
    obtain rfl := Option.some.inj stepped
    have kept := promoteCandidate_keeps n save term
    by_cases won : (n.promoteCandidate save term).value = true
    · simp only [won, if_true]
      refine ⟨⟨n, Or.inl rfl, kept⟩, by simp, by simp, by simp, by simp, by simp, by simp, by simp,
        by simp, fun promoted shown => ?_⟩
      obtain rfl : promoted = term := by simpa using shown
      exact ⟨rfl, (RaftNode.promoteCandidate_promoted won).2, RaftNode.promoteCandidate_leads won⟩
    · simp only [won]
      exact .done kept [] (by simp) (by simp)

/-- Sections of `ProposeWithRetryInterval` other than `AppendLocal`. -/
theorem proposeStep_shape {save : Bool} {stage : ProposeStage}
    (other : ∀ command, stage ≠ .appending command)
    (stepped : Call.proposeStep unmarshal n save stage = some turn) :
    Shape n (.propose stage) turn := by
  have still := (Keeps.refl n).unsaved
  have fails : ∀ err, Shape n (.propose stage) (Call.fail n err) := fun err =>
    .done still _ (by simp) (by simp)
  cases stage with
  | starting command =>
    obtain rfl := Option.some.inj stepped
    split
    · rename_i leader
      refine ⟨⟨n, Or.inl rfl, still⟩, fun next entry same waits => ?_, fun _ _ => ⟨leader, rfl⟩,
        fun next same request listed => ?_, fun _ _ _ => rfl, fun next same => ?_,
        by simp [Call.pursue], by simp [Call.pursue], by simp [Call.pursue], by simp [Call.pursue]⟩
      · rw [← Option.some.inj same] at waits
        contradiction
      · rw [← Option.some.inj same] at listed
        contradiction
      · rw [← Option.some.inj same]
        exact ⟨rfl, rfl⟩
    · exact fails _
  | appending command => exact absurd rfl (other command)
  | checking entry =>
    obtain rfl := Option.some.inj stepped
    split
    · rename_i committed
      exact .returns rfl committed
    · exact .goOn still rfl ⟨rfl, rfl⟩ (Or.inr rfl) (by simp [Call.requests]) (by simp)
  | leading entry =>
    obtain rfl := Option.some.inj stepped
    split
    · exact .goOn still rfl ⟨rfl, rfl⟩ (Or.inr rfl) (by simp [Call.requests]) (by simp)
    · exact fails _
  | rechecking entry =>
    obtain rfl := Option.some.inj stepped
    split
    · rename_i committed
      exact .returns rfl committed
    · exact .goOn still rfl ⟨rfl, rfl⟩ (Or.inr rfl) (by simp [Call.requests]) (by simp)
  | sleeping entry =>
    obtain rfl := Option.some.inj stepped
    exact .goOn still rfl ⟨rfl, rfl⟩ (Or.inr rfl) (by simp [Call.requests]) (by simp)

/-- `replicateOnce` returns. -/
theorem Shape.replicated {n' : RaftNode} {owner : Option LogEntry} {stage : ReplicateStage}
    (kept : KeepsSaved n n') : Shape n (.replicate owner stage) (Call.replicated n' owner) := by
  cases owner with
  | none => exact .done kept [] (by simp) (by simp)
  | some entry => exact .goOn kept rfl ⟨rfl, rfl⟩ (Or.inl rfl) (by simp [Call.requests]) (by simp)

/-- `replicateOnce` returns an error. -/
theorem Shape.replicateFailed {n' : RaftNode} {owner : Option LogEntry} {stage : ReplicateStage}
    (kept : KeepsSaved n n') (err : Option RaftError) :
    Shape n (.replicate owner stage) (Call.replicateFailed n' err owner) := by
  cases owner with
  | none => exact .done kept [] (by simp) (by simp)
  | some entry => exact .done kept _ (by simp) (by simp)

/-- Sections of `replicateOnce`. -/
theorem replicateStep_shape {owner : Option LogEntry} {stage : ReplicateStage}
    (stepped : Call.replicateStep n owner stage = some turn) :
    Shape n (.replicate owner stage) turn := by
  have still := (Keeps.refl n).unsaved
  cases stage with
  | ensuring =>
    obtain rfl := Option.some.inj stepped
    exact .goOn (ensureLeaderProgress_keeps n).unsaved rfl ⟨rfl, rfl⟩ (Or.inl rfl) (by simp [Call.requests])
      (by simp)
  | listing =>
    obtain rfl := Option.some.inj stepped
    exact .goOn still rfl ⟨rfl, rfl⟩ (Or.inr rfl) (by simp [Call.requests]) (by simp)
  | building remaining requests =>
    cases remaining with
    | nil =>
      obtain rfl := Option.some.inj stepped
      have going : Shape n (.replicate owner (.building [] requests))
          (Call.spread n owner (.awaiting requests)) :=
        .goOn still rfl ⟨rfl, rfl⟩ (Or.inr rfl) (by simp [Call.requests]) (by simp)
      refine { going with
        asks := fun message listed req resp same => ?_
        sent := fun message listed req same => ?_ }
      · obtain ⟨request, -, rfl⟩ := List.mem_map.mp listed
        contradiction
      obtain ⟨request, built, rfl⟩ := List.mem_map.mp listed
      obtain rfl : request.2 = req := by simpa using same
      exact ⟨request.1, built⟩
    | cons peer remaining =>
      obtain rfl := Option.some.inj stepped
      split
      · exact .replicateFailed still _
      · rename_i req built
        refine ⟨⟨n, Or.inl rfl, still⟩, fun next entry same waits => ?_, by simp [Call.spread],
          fun next same request listed => ?_, fun _ _ _ => rfl, fun next same => ?_,
          by simp [Call.spread], by simp [Call.spread], by simp [Call.spread], by simp [Call.spread]⟩
        · rw [← Option.some.inj same] at waits
          exact waits
        · rw [← Option.some.inj same] at listed
          cases List.mem_append.mp listed with
          | inl old => exact Or.inl old
          | inr new =>
            rw [List.mem_singleton.mp new]
            exact Or.inr built
        · rw [← Option.some.inj same]
          exact ⟨rfl, rfl⟩
  | awaiting waiting =>
    cases waiting with
    | nil =>
      obtain rfl := Option.some.inj stepped
      exact .replicated still
    | cons request waiting => contradiction
  | recording waiting peer req success =>
    cases success with
    | true =>
      obtain rfl := Option.some.inj stepped
      have kept := (recordReplicationSuccess_keeps n peer (Call.matchIndexOf req)).unsaved
      have goOn : ∀ next, Call.requests (.replicate owner next) = waiting →
          Shape n (.replicate owner (.recording waiting peer req true))
            (Call.spread (n.recordReplicationSuccess peer (Call.matchIndexOf req)).1 owner next) :=
        fun next same => .goOn kept rfl ⟨rfl, rfl⟩ (Or.inr (n.recordReplicationSuccess_term peer _))
          (fun request listed => List.mem_cons_of_mem _ (by rwa [same] at listed)) (by simp)
      split
      · exact .replicateFailed kept _
      · split
        · split
          · exact goOn _ rfl
          · exact goOn _ rfl
        · exact goOn _ rfl
    | false =>
      obtain rfl := Option.some.inj stepped
      have kept := (recordReplicationFailure_keeps n peer).unsaved
      split
      · exact .replicateFailed kept _
      · exact .goOn kept rfl ⟨rfl, rfl⟩ (Or.inr (n.recordReplicationFailure_term peer))
          (fun request listed => List.mem_cons_of_mem _ listed) (by simp)
  | stopping waiting =>
    cases owner with
    | none => contradiction
    | some entry =>
      obtain rfl := Option.some.inj stepped
      split
      · exact .replicated still
      · exact .goOn still rfl ⟨rfl, rfl⟩ (Or.inr rfl) (by simp [Call.requests]) (by simp)

/-- `ApplyCommitted` goes on or returns. -/
theorem Shape.applying {n' : RaftNode} {stage : ApplyStage} {next : Option Call}
    {observed : List Observation} {m : RaftNode}
    (marks : m = n ∨ ∃ entry, Call.holds (.apply stage) = some entry ∧ m = n.markApplied entry.index)
    (kept : KeepsSaved m n') (stays : ∀ call, next = some call → ∃ stage, call = .apply stage)
    (silent : ∀ entry, .returned entry ∉ observed) (quiet : ∀ term, .promoted term ∉ observed) :
    Shape n (.apply stage) { node := n', call := next, observed := observed } where
  node := ⟨m, marks, kept⟩
  awaits call entry same waits := by
    obtain ⟨stage, rfl⟩ := stays call same
    contradiction
  appending command same := by
    obtain ⟨stage, other⟩ := stays _ same
    contradiction
  requests call same request listed := by
    obtain ⟨stage, rfl⟩ := stays call same
    contradiction
  term call same present := by
    obtain ⟨stage, rfl⟩ := stays call same
    exact absurd rfl present
  kind call same := by
    obtain ⟨stage, rfl⟩ := stays call same
    exact ⟨rfl, rfl⟩
  asks := by simp
  sent := by simp
  returned entry shown := absurd shown (silent entry)
  promoted term shown := absurd shown (quiet term)

/-- Sections of `ApplyCommitted`. -/
theorem applyStep_shape {save applied : Bool} {stage : ApplyStage}
    (stepped : Call.applyStep unmarshal n save applied stage = some turn) :
    Shape n (.apply stage) turn := by
  have still := (Keeps.refl n).unsaved
  cases stage with
  | fetching =>
    obtain rfl := Option.some.inj stepped
    split
    · exact .done still [] (by simp) (by simp)
    · exact .applying (Or.inl rfl) still (by simp) (by simp) (by simp)
  | holding entry =>
    obtain rfl := Option.some.inj stepped
    split
    · exact .done still [] (by simp) (by simp)
    · rename_i change _
      refine .applying ?_ (applyCommittedMembershipChange_keeps n save change entry.index)
        (fun call same => ?_) (by simp) (by simp)
      · split
        · exact Or.inl rfl
        · exact Or.inr ⟨entry, rfl, rfl⟩
      split at same
      · contradiction
      · exact ⟨_, (Option.some.inj same).symm⟩
    · refine .applying (Or.inl rfl) still (fun call same => ?_) (by simp) (by simp)
      split at same
      · exact ⟨_, (Option.some.inj same).symm⟩
      · contradiction
  | marking entry =>
    obtain rfl := Option.some.inj stepped
    exact .applying (Or.inr ⟨entry, rfl, rfl⟩) (Keeps.refl _).unsaved (by simp) (by simp) (by simp)

/-- A response that reaches its call. -/
theorem reply_shape {save : Bool} {peer : NodeId} {body : Body}
    (replied : call.reply n save peer body = some turn) : Shape n call turn := by
  cases call with
  | election stage =>
    obtain ⟨term, ⟨node, sent, observed⟩, -⟩ := Call.electionReply_shape replied
    refine ⟨⟨n, Or.inl rfl, by rw [node]; exact stepDownForHigherTerm_keeps n save term⟩,
      fun next entry same waits => ?_, fun command same => ?_, fun next same request listed => ?_,
      fun next same present => ?_, fun next same => ?_, by simp [sent], by simp [sent],
      by simp [observed], by simp [observed]⟩
    · obtain ⟨stage', rfl⟩ := Call.electionReply_next replied same
      contradiction
    · obtain ⟨stage', other⟩ := Call.electionReply_next replied same
      contradiction
    · obtain ⟨stage', rfl⟩ := Call.electionReply_next replied same
      contradiction
    · obtain ⟨stage', rfl⟩ := Call.electionReply_next replied same
      exact absurd rfl present
    · obtain ⟨stage', rfl⟩ := Call.electionReply_next replied same
      exact ⟨rfl, rfl⟩
  | replicate owner stage =>
    cases stage with
    | awaiting waiting =>
      cases body with
      | appendResponse asked resp =>
        simp only [Call.reply] at replied
        split at replied
        · rename_i asks
          obtain rfl := Option.some.inj replied
          have kept := stepDownForHigherTerm_keeps n save resp.term
          split
          · exact .replicateFailed kept _
          · split
            · exact .replicated kept
            · rename_i noError stays
              have still := RaftNode.stepDownForHigherTerm_stays (by simpa using stays)
              refine .goOn kept rfl ⟨rfl, rfl⟩ (Or.inr (by rw [still])) (fun request listed => ?_) (by simp)
              cases List.mem_cons.mp listed with
              | inl same => rw [same]; exact asks
              | inr rest => exact List.mem_of_mem_erase rest
        · contradiction
      | _ => contradiction
    | _ => contradiction
  | propose stage => contradiction
  | apply stage => contradiction

/-- An RPC that failed. -/
theorem failure_shape {peer : NodeId} {next : Call} (failed : call.failure peer = some next) :
    Shape n call { node := n, call := some next } := by
  have still := (Keeps.refl n).unsaved
  unfold Call.failure at failed
  split at failed
  · split at failed
    · rw [← Option.some.inj failed]
      exact .goOn still rfl ⟨rfl, rfl⟩ (Or.inr rfl) (by simp [Call.requests]) (by simp)
    · contradiction
  · split at failed
    · rw [← Option.some.inj failed]
      exact .goOn still rfl ⟨rfl, rfl⟩ (Or.inr rfl) (by simp [Call.requests]) (by simp)
    · contradiction
  · split at failed
    · rw [← Option.some.inj failed]
      exact .goOn still rfl ⟨rfl, rfl⟩ (Or.inr rfl) (fun request listed => List.mem_of_mem_erase listed)
        (by simp)
    · contradiction
  · contradiction

/-- A context that is done. -/
theorem cancel_shape {observed : List Observation} (cancelled : call.cancel = some observed) :
    Shape n call { node := n, observed := observed } :=
  .done (Keeps.refl n).unsaved observed
    (fun entry shown => by have other := Call.cancel_shown cancelled shown; contradiction)
    (fun term shown => by have other := Call.cancel_shown cancelled shown; contradiction)

/-- Every section but `AppendLocal`. -/
theorem step_shape {save applied : Bool} (other : ∀ command, call ≠ .propose (.appending command))
    (fits : call = .election .preVoteWon → n.currentTerm + 1 < Word.limit)
    (stepped : call.step unmarshal n save applied = some turn) : Shape n call turn := by
  cases call with
  | election stage => exact electionStep_shape (fun won => fits (by rw [won])) stepped
  | propose stage => exact proposeStep_shape (fun command same => other command (by rw [same])) stepped
  | replicate owner stage => exact replicateStep_shape stepped
  | apply stage => exact applyStep_shape stepped

end

/-- The call an event belongs to. -/
def Event.call : Event → Option Nat
  | step tag _ _ => some tag
  | reply packet _ => some packet.tag
  | failure tag _ => some tag
  | cancel tag => some tag
  | _ => none

/-- What can happen at a process. -/
inductive Happens (unmarshal : Bytes → Option MembershipCommand) (peers : List NodeId)
    (sv : Server) : Event → Reaction → Prop
  /-- A call starts. -/
  | start (kind : Start) : Happens unmarshal peers sv (.start kind)
      { server := { sv with
          calls := Function.update sv.calls sv.nextTag (some kind.call)
          nextTag := sv.nextTag + 1 } }
  /-- A call goes on and the log is kept. -/
  | turn {event : Event} {tag : Nat} {call : Call} {turn : Turn} (own : event.call = some tag)
      (running : sv.calls tag = some call) (shape : Shape sv.node call turn)
      (applying : ∀ stage, call = .apply stage → ∃ save applied, event = .step tag save applied ∧
        Call.applyStep unmarshal sv.node save applied stage = some turn) :
      Happens unmarshal peers sv event (sv.resume tag turn)
  /-- `AppendLocal` runs. -/
  | append {tag : Nat} {save applied : Bool} {command : Bytes} {turn : Turn}
      (running : sv.calls tag = some (.propose (.appending command)))
      (room : sv.node.lastLogIndexLocked + 2 < Word.limit)
      (stepped : Call.proposeStep unmarshal sv.node save (.appending command) = some turn) :
      Happens unmarshal peers sv (.step tag save applied) (sv.resume tag turn)
  /-- A handler runs. -/
  | handle {packet : Packet} {save : Bool} {answer : RaftNode × Option Body}
      (here : packet.target = sv.node.id)
      (handled : Server.handle sv.node save packet.body = some answer) :
      Happens unmarshal peers sv (.serve packet save)
        { server := { sv with node := answer.1 }
          sent := answer.2.toList.map fun body => { packet with body } }
  /-- `Compact` runs. -/
  | compact (snapshot : Bytes) (save : Bool) : Happens unmarshal peers sv (.compact snapshot save)
      { server := sv.compact save snapshot }
  /-- The process restarts. -/
  | crash : Happens unmarshal peers sv .crash { server := sv.restart peers }

/-- Nothing else happens when nothing wraps. -/
theorem Server.react_happens {sv : Server} {unmarshal : Bytes → Option MembershipCommand}
    {peers : List NodeId} {event : Event}
    (terms : ∀ tag save applied, event = .step tag save applied →
      sv.calls tag = some (.election .preVoteWon) → sv.node.currentTerm + 1 < Word.limit)
    (room : ∀ tag save applied command, event = .step tag save applied →
      sv.calls tag = some (.propose (.appending command)) →
      sv.node.lastLogIndexLocked + 2 < Word.limit)
    {reaction : Reaction} (reacted : sv.react unmarshal peers event = some reaction) :
    Happens unmarshal peers sv event reaction := by
  cases Server.react_cases reacted with
  | start kind =>
    exact .start kind
  | step tag save applied call turn running turned =>
    by_cases appending : ∃ command, call = .propose (.appending command)
    · obtain ⟨command, rfl⟩ := appending
      exact .append running (room tag save applied command rfl running) turned
    · refine .turn rfl running (step_shape (fun command same => ?_) (fun won => ?_) turned)
        fun stage same => ⟨save, applied, rfl, ?_⟩
      · exact appending ⟨command, same⟩
      · exact terms tag save applied rfl (by rw [running, won])
      · rw [same] at turned
        exact turned
  | reply message save call turn _ running turned =>
    refine .turn rfl running (reply_shape turned) fun stage same => ?_
    rw [same] at turned
    contradiction
  | failure tag peer call next running failed =>
    refine .turn rfl running (failure_shape failed) fun stage same => ?_
    rw [same] at failed
    contradiction
  | cancel tag call observed running cancelled =>
    refine .turn rfl running (cancel_shape cancelled) fun stage same => ?_
    rw [same] at cancelled
    contradiction
  | serve message save answer here handled =>
    exact .handle here handled
  | compact snapshot save =>
    exact .compact snapshot save
  | crash =>
    exact .crash

/-- A process whose log is numbered and whose calls hold contiguous requests. -/
structure Steady (sv : Server) : Prop where
  /-- The log is numbered. -/
  aligned : Aligned sv
  /-- Numbers of calls are fresh. -/
  fresh : ∀ tag, sv.nextTag ≤ tag → sv.calls tag = none
  /-- A proposal past its role check is in a positive term. -/
  appending : ∀ tag command, sv.calls tag = some (.propose (.appending command)) →
    0 < sv.node.currentTerm
  /-- Requests are contiguous. -/
  requests : ∀ tag call, sv.calls tag = some call → ∀ request ∈ call.requests, request.2.Contiguous

/-- What a step of a process does to its whole log and its proposals. -/
structure SteadyStep (sv : Server) (event : Event) (reaction : Reaction) : Prop where
  /-- The process stays steady. -/
  steady : Steady reaction.server
  /-- What it sends is contiguous. -/
  sent : ∀ packet ∈ reaction.sent, ∀ req, packet.body = .appendRequest req → req.Contiguous
  /-- Entries below a conflict stay. -/
  kept : event ≠ .crash → ∀ upTo ≤ sv.full.length, sv.conflicts event upTo = false →
    reaction.server.full.take upTo = sv.full.take upTo
  /-- A proposal waits for an entry it waited for, or for the one just appended. -/
  awaits : ∀ tag call entry, reaction.server.calls tag = some call → call.awaits = some entry →
    event ≠ .crash ∧ ((∃ old, sv.calls tag = some old ∧ old.awaits = some entry) ∨
      entry.index = sv.full.length + 1 ∧ reaction.server.full = sv.full ++ [entry])
  /-- An entry is returned to the proposal that waited for it, once the commit index covers it. -/
  returned : ∀ tag entry, (tag, .returned entry) ∈ reaction.observed →
    (∃ call, sv.calls tag = some call ∧ call.awaits = some entry) ∧
      entry.index ≤ sv.node.commitIndex ∧
      reaction.server = { sv with calls := Function.update sv.calls tag none } ∧
      reaction.observed = [(tag, .returned entry)]

namespace Steady

variable {sv : Server}

/-- The record changes, the calls stay. -/
theorem node (steady : Steady sv) {after : Server} (aligned : Aligned after)
    (calls : after.calls = sv.calls) (tags : after.nextTag = sv.nextTag)
    (term : sv.node.currentTerm ≤ after.node.currentTerm) : Steady after where
  aligned := aligned
  fresh := by rw [calls, tags]; exact steady.fresh
  appending tag command running := by
    rw [calls] at running
    exact lt_of_lt_of_le (steady.appending tag command running) term
  requests := by rw [calls]; exact steady.requests

/-- A running call has a number that was given. -/
theorem running_lt (steady : Steady sv) {tag : Nat} {call : Call} (running : sv.calls tag = some call) :
    tag < sv.nextTag := by
  by_contra high
  rw [steady.fresh tag (Nat.le_of_not_lt high)] at running
  contradiction

/-- A call is set. -/
theorem setCall (steady : Steady sv) {tag nextTag : Nat} {next : Option Call}
    (appending : ∀ command, next = some (.propose (.appending command)) → 0 < sv.node.currentTerm)
    (requests : ∀ call, next = some call → ∀ request ∈ call.requests, request.2.Contiguous)
    (fresh : ∀ later, nextTag ≤ later → later ≠ tag ∧ sv.nextTag ≤ later) :
    Steady { sv with calls := Function.update sv.calls tag next, nextTag := nextTag } where
  aligned := ⟨steady.aligned.represents, steady.aligned.side, steady.aligned.positive,
    steady.aligned.disk, steady.aligned.seated⟩
  fresh later high := by
    have bounds := fresh later high
    show Function.update sv.calls tag next later = none
    rw [Function.update_of_ne bounds.1]
    exact steady.fresh later bounds.2
  appending position command running := by
    cases Server.call_updated running with
    | inl here => exact appending command here.2
    | inr elsewhere => exact steady.appending position command elsewhere.2
  requests position call running := by
    cases Server.call_updated running with
    | inl here => exact requests call here.2
    | inr elsewhere => exact steady.requests position call elsewhere.2

/-- A turn of a call that keeps the log. -/
theorem resume (steady : Steady sv) {event : Event} {tag : Nat} {call : Call} {turn : Turn}
    (running : sv.calls tag = some call) (going : event ≠ .crash) (shape : Shape sv.node call turn) :
    SteadyStep sv event (sv.resume tag turn) := by
  obtain ⟨log, -, term⟩ := shape.fields
  have whole : (sv.resume tag turn).server.full = sv.full := by
    show sv.compacted ++ turn.node.log = sv.compacted ++ sv.node.log
    rw [log]
  have moved : Steady { sv with node := turn.node } :=
    steady.node (shape.aligned steady.aligned) rfl rfl term
  have contiguous : ∀ next, turn.call = some next → ∀ request ∈ next.requests,
      request.2.Contiguous := by
    intro next same request listed
    cases shape.requests next same request listed with
    | inl old => exact steady.requests tag call running request old
    | inr built =>
      exact steady.aligned.represents.buildAppendEntries steady.aligned.positive built
  refine ⟨?_, fun packet listed req same => ?_, fun _ upTo _ _ => by rw [whole],
    fun position next entry found waits => ⟨going, Or.inl ?_⟩, fun position entry shown => ?_⟩
  · refine moved.setCall (fun command same => ?_) contiguous fun later high => ⟨?_, high⟩
    · obtain ⟨leader, still⟩ := shape.appending command same
      show 0 < turn.node.currentTerm
      rw [still]
      exact steady.aligned.seated (by rw [leader]; simp)
    · have low := steady.running_lt running
      have above : sv.nextTag ≤ later := high
      omega
  · obtain ⟨message, sent, rfl⟩ := List.mem_map.mp listed
    obtain ⟨peer, built⟩ := shape.sent message sent req same
    exact steady.requests tag call running _ built
  · cases Server.call_updated found with
    | inl here => exact ⟨call, by rw [here.1, running], shape.awaits next entry here.2 waits⟩
    | inr elsewhere => exact ⟨next, elsewhere.2, waits⟩
  · obtain ⟨observation, made, same⟩ := List.mem_map.mp shown
    obtain ⟨rfl, rfl⟩ := Prod.mk.inj same
    obtain ⟨waits, committed, still, ends, alone⟩ := shape.returned entry made
    refine ⟨⟨call, running, waits⟩, committed, ?_, ?_⟩
    · show { sv with node := turn.node, calls := Function.update sv.calls tag turn.call } = _
      rw [still, ends]
    · show turn.observed.map _ = _
      rw [alone]
      rfl

/-- The record and the log change, but no call. -/
theorem serve (steady : Steady sv) {event : Event} {after : Server} {sent : List Packet}
    (aligned : Aligned after) (calls : after.calls = sv.calls) (tags : after.nextTag = sv.nextTag)
    (term : sv.node.currentTerm ≤ after.node.currentTerm) (going : event ≠ .crash)
    (quiet : ∀ packet ∈ sent, ∀ req, packet.body ≠ .appendRequest req)
    (kept : ∀ upTo ≤ sv.full.length, sv.conflicts event upTo = false →
      after.full.take upTo = sv.full.take upTo) :
    SteadyStep sv event { server := after, sent := sent } where
  steady := steady.node aligned calls tags term
  sent packet listed req same := absurd same (quiet packet listed req)
  kept _ := kept
  awaits tag call entry running waits :=
    ⟨going, Or.inl ⟨call, by rw [← calls]; exact running, waits⟩⟩
  returned := by simp

/-- `AppendLocal` extends the whole log, and the proposal waits for the new entry. -/
theorem append (steady : Steady sv) {unmarshal : Bytes → Option MembershipCommand} {event : Event}
    {tag : Nat} {command : Bytes} (running : sv.calls tag = some (.propose (.appending command)))
    (going : event ≠ .crash) (room : sv.node.lastLogIndexLocked + 2 < Word.limit) {save : Bool}
    {turn : Turn}
    (stepped : Call.proposeStep unmarshal sv.node save (.appending command) = some turn) :
    SteadyStep sv event (sv.resume tag turn) := by
  obtain rfl := Option.some.inj stepped
  cases RaftNode.appendLocal_cases unmarshal sv.node save command with
  | inl refused =>
    obtain ⟨err, same⟩ := refused
    rw [same]
    exact steady.resume running going (.done (Keeps.refl sv.node).unsaved _ (by simp) (by simp))
  | inr appended =>
    rw [appended]
    have positive := steady.appending tag command running
    obtain ⟨aligned, whole, index, term, -⟩ :=
      steady.aligned.appendCommand positive room save command
    generalize sv.node.appendCommand save command = out at aligned whole index term
    have moved : Steady { sv with node := out.node } := steady.node aligned rfl rfl term
    have later : ∀ position, sv.nextTag ≤ position → position ≠ tag ∧ sv.nextTag ≤ position := by
      intro position high
      have low := steady.running_lt running
      exact ⟨by omega, high⟩
    have kept : ∀ upTo ≤ sv.full.length,
        (Server.full { sv with node := out.node }).take upTo = sv.full.take upTo := by
      intro upTo within
      rw [whole, List.take_append_of_le_length within]
    cases failed : out.err with
    | some err =>
      refine ⟨moved.setCall (by simp [Call.fail]) (by simp [Call.fail]) later,
        by simp [Server.resume, Call.fail], fun _ upTo within _ => kept upTo within,
        fun position next entry found waits => ⟨going, Or.inl ?_⟩,
        by simp [Server.resume, Call.fail]⟩
      cases Server.call_updated found with
      | inl here => exact absurd here.2 (by simp [Call.fail])
      | inr elsewhere => exact ⟨next, elsewhere.2, waits⟩
    | none =>
      refine ⟨moved.setCall (by simp [Call.pursue]) (fun next same => ?_) later,
        by simp [Server.resume, Call.pursue], fun _ upTo within _ => kept upTo within,
        fun position next entry found waits => ⟨going, ?_⟩, by simp [Server.resume, Call.pursue]⟩
      · obtain rfl := Option.some.inj same
        simp [Call.requests]
      · cases Server.call_updated found with
        | inl here =>
          obtain rfl := Option.some.inj here.2
          obtain rfl : out.value = entry := Option.some.inj waits
          exact Or.inr ⟨index, whole⟩
        | inr elsewhere => exact Or.inl ⟨next, elsewhere.2, waits⟩

/-- A handler. -/
theorem handle (steady : Steady sv) {packet : Packet} {save : Bool}
    (contiguous : ∀ req, packet.body = .appendRequest req → req.Contiguous)
    {answer : RaftNode × Option Body} (handled : Server.handle sv.node save packet.body = some answer) :
    SteadyStep sv (.serve packet save) { server := { sv with node := answer.1 }
                                         sent := answer.2.toList.map fun body => { packet with body } } := by
  have keeps : ∀ {n' : RaftNode} {sent : List Packet}, KeepsSaved sv.node n' →
      (∀ packet ∈ sent, ∀ req, packet.body ≠ .appendRequest req) →
      SteadyStep sv (.serve packet save) { server := { sv with node := n' }, sent := sent } := by
    intro n' sent kept quiet
    obtain ⟨-, log, -, term⟩ := kept.fields
    refine steady.serve (steady.aligned.keepSaved kept) rfl rfl term (by simp) quiet
      fun upTo _ _ => ?_
    show (sv.compacted ++ n'.log).take upTo = _
    rw [log]
    rfl
  cases body : packet.body with
  | preVoteRequest req =>
    rw [body] at handled
    obtain rfl := Option.some.inj handled
    exact keeps (Keeps.refl sv.node).unsaved (by simp)
  | voteRequest req =>
    rw [body] at handled
    obtain rfl := Option.some.inj handled
    refine keeps (requestVote_keeps sv.node save req) fun packet listed other same => ?_
    obtain ⟨response, answered, rfl⟩ := List.mem_map.mp listed
    split at answered
    · simp at answered
    · simp only [Option.toList_some, List.mem_singleton] at answered
      rw [answered] at same
      contradiction
  | appendRequest req =>
    rw [body] at handled
    obtain rfl := Option.some.inj handled
    obtain ⟨aligned, term, -, kept⟩ := steady.aligned.handleAppendEntries (contiguous req body) save
    refine steady.serve aligned rfl rfl term (by simp) (fun packet listed other same => ?_)
      fun upTo within quiet => kept upTo (fun accepts => ?_) within
    · obtain ⟨response, answered, rfl⟩ := List.mem_map.mp listed
      split at answered
      · simp at answered
      · simp only [Option.toList_some, List.mem_singleton] at answered
        rw [answered] at same
        contradiction
    · simp only [Server.conflicts, body, accepts, Bool.true_and] at quiet
      exact quiet
  | preVoteResponse req resp => rw [body] at handled; contradiction
  | voteResponse req resp => rw [body] at handled; contradiction
  | appendResponse req resp => rw [body] at handled; contradiction

/-- A process reacts to an event. -/
theorem react (steady : Steady sv) {unmarshal : Bytes → Option MembershipCommand}
    {peers : List NodeId} {event : Event}
    (packet : ∀ packet req, event.packet = some packet → packet.body = .appendRequest req →
      req.Contiguous)
    {reaction : Reaction} (happens : Happens unmarshal peers sv event reaction) :
    SteadyStep sv event reaction := by
  cases happens with
  | start kind =>
    have silent : kind.call.awaits = none ∧ kind.call.requests = [] ∧
        ∀ command, kind.call ≠ .propose (.appending command) := by
      cases kind <;> simp [Start.call, Call.awaits, Call.requests]
    refine ⟨steady.setCall (fun command same => absurd (Option.some.inj same) (silent.2.2 command))
        (fun call same => ?_) fun later high => ⟨by omega, by omega⟩, by simp,
      fun _ _ _ _ => rfl, fun tag call entry found waits => ⟨by simp, Or.inl ?_⟩, by simp⟩
    · obtain rfl := Option.some.inj same
      rw [silent.2.1]
      simp
    · cases Server.call_updated found with
      | inl here =>
        obtain rfl := Option.some.inj here.2
        rw [silent.1] at waits
        contradiction
      | inr elsewhere => exact ⟨call, elsewhere.2, waits⟩
  | turn own running shape _ =>
    refine steady.resume running (fun crash => ?_) shape
    rw [crash] at own
    contradiction
  | append running room stepped => exact steady.append running (by simp) room stepped
  | handle here handled => exact steady.handle (fun req => packet _ req rfl) handled
  | compact snapshot save =>
    obtain ⟨aligned, whole⟩ := steady.aligned.compact save snapshot
    have term := (sv.node.compact_indices save snapshot).1.ge
    exact steady.serve aligned rfl rfl term (by simp) (by simp) fun upTo _ _ => by rw [whole]
  | crash =>
    exact ⟨⟨steady.aligned.restart peers, fun _ _ => rfl, by simp [Server.restart],
      by simp [Server.restart]⟩, by simp, fun going => absurd rfl going, by simp [Server.restart],
      by simp⟩

end Steady

/-- Every process of a cluster is steady and every request on its way is contiguous. -/
structure SteadyCluster (members : Members) (c : Cluster) : Prop where
  /-- The processes. -/
  servers : ∀ id ∈ members.ids, Steady (c.servers id)
  /-- The messages. -/
  net : ∀ packet ∈ c.net, ∀ req, packet.body = .appendRequest req → req.Contiguous

namespace SteadyCluster

variable {unmarshal : Bytes → Option MembershipCommand} {members : Members}

/-- A started cluster. -/
theorem initial (members : Members) : SteadyCluster members (.initial members) := by
  refine ⟨fun id _ => ⟨⟨⟨le_refl _, rfl, fun position entry found => ?_, rfl, ?_⟩, rfl,
    fun entry listed => ?_, fun state stored => ?_, fun active => absurd rfl active⟩,
    fun _ _ => rfl, by simp [Cluster.initial], by simp [Cluster.initial]⟩, by simp [Cluster.initial]⟩
  · simp [Cluster.initial, Server.full, newRaftNode] at found
  · show 1 < Word.limit
    decide
  · simp [Cluster.initial, Server.full, newRaftNode] at listed
  · obtain rfl := Option.some.inj stored
    refine ⟨le_refl _, ⟨le_refl _, rfl, fun position entry found => ?_, rfl, ?_⟩, fun entry listed => ?_⟩
    · simp at found
    · show 1 < Word.limit
      decide
    · simp at listed

/-- One step: the process that takes it stays steady. -/
theorem step {c c' : Cluster} {label : Label} (steady : SteadyCluster members c)
    (fits : c.nothingWraps label = true) (stepped : c.step unmarshal members label = some c') :
    SteadyCluster members c' ∧ ∃ net reaction,
      Cluster.take c.net label.event.packet = some net ∧
      (c.servers label.node).react unmarshal (members.peers label.node) label.event = some reaction ∧
      c' = c.absorb label.node net reaction ∧
      Happens unmarshal (members.peers label.node) (c.servers label.node) label.event reaction ∧
      SteadyStep (c.servers label.node) label.event reaction := by
  obtain ⟨inside, net, reaction, taken, reacted, rfl⟩ := Cluster.step_some stepped
  obtain ⟨present, rest⟩ := Cluster.take_some taken
  obtain ⟨terms, indices⟩ := (Bool.and_eq_true ..).mp fits
  have happens : Happens unmarshal (members.peers label.node) (c.servers label.node) label.event
      reaction := by
    refine Server.react_happens (fun tag save applied event running => ?_)
      (fun tag save applied command event running => ?_) reacted
    · exact Cluster.termsFit_preVoteWon terms event running
    · simp only [Cluster.indicesFit, Cluster.stepped, event, running] at indices
      exact of_decide_eq_true indices
  have outcome := (steady.servers label.node inside).react
    (fun packet req found body => steady.net packet (present packet found) req body) happens
  refine ⟨⟨fun id member => ?_, fun packet listed req body => ?_⟩, net, reaction, taken, reacted, rfl,
    happens, outcome⟩
  · by_cases here : id = label.node
    · rw [here, c.absorb_own]
      exact outcome.steady
    · rw [c.absorb_other net reaction here]
      exact steady.servers id member
  · cases List.mem_append.mp listed with
    | inl old => exact steady.net packet (rest packet old) req body
    | inr new => exact outcome.sent packet new req body

end SteadyCluster

end Raft

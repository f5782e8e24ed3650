import RvKeyValue.Cluster.ElectionSafety
import RvKeyValue.Cluster.Rules
import RvKeyValue.Cluster.TermOrder

/-!
# Leader Append-Only

A node that leads a term only adds to its log. An append from another node makes it a follower before
its log is touched, and compaction moves entries to the snapshot. A node that has lost a term never
leads that term again: it becomes a candidate of later terms only, and after a crash it starts in the
stored term, which is not earlier, because the vote of a leader for itself was stored.
-/

namespace Raft

open Transition (Reach)

section

variable {unmarshal : Bytes → Option MembershipCommand} {sv : Server} {peers : List NodeId}
  {event : Event} {reaction : Reaction} {op : Operation}

/-- A log to which entries of one term were added. -/
def Grown (term : Nat) (log later : List LogEntry) : Prop :=
  ∃ added, later = log ++ added ∧ ∀ entry ∈ added, entry.term = term

/-- Nothing was added. -/
theorem Grown.refl (term : Nat) (log : List LogEntry) : Grown term log log :=
  ⟨[], (List.append_nil log).symm, by simp⟩

/-- Entries were added twice. -/
theorem Grown.trans {term : Nat} {log later last : List LogEntry} (first : Grown term log later)
    (second : Grown term later last) : Grown term log last := by
  obtain ⟨added, rfl, old⟩ := first
  obtain ⟨more, rfl, new⟩ := second
  refine ⟨added ++ more, List.append_assoc .., fun entry listed => ?_⟩
  rcases List.mem_append.mp listed with before | after
  · exact old entry before
  · exact new entry after

/-- `Compact` is called by nothing but a compaction. -/
theorem Server.operation_compact {snapshot : Bytes} (runs : sv.operation event = some (.compact snapshot)) :
    ∃ save, event = .compact snapshot save := by
  cases Server.operation_cases runs with
  | compact snapshot save => exact ⟨save, rfl⟩
  | call running made =>
    unfold Call.operation at made
    split at made <;> cases made
  | message taken made =>
    unfold Body.operation at made
    split at made <;> cases made

/-- The log of a process that leads after a step other than a compaction. -/
theorem Server.react_log (running : event ≠ .crash) (whole : ∀ snapshot save, event ≠ .compact snapshot save)
    (reacted : sv.react unmarshal peers event = some reaction)
    (leads : reaction.server.node.state = .leader) :
    Grown sv.node.currentTerm sv.node.log reaction.server.node.log := by
  rcases Server.react_moves reacted with ⟨crash, -⟩ | ⟨-, node | ⟨op, runs, node⟩⟩
  · exact absurd crash running
  · rw [node]
    exact .refl ..
  by_cases appends : ∃ command, op = .appendLocal command
  · obtain ⟨command, rfl⟩ := appends
    rw [node]
    rcases sv.node.appendLocal_log event.save command with same | ⟨entry, term, -, same⟩
    · rw [show (sv.node.perform unmarshal event.save (.appendLocal command)).log = _ from same]
      exact .refl ..
    · refine ⟨[entry], same, fun other listed => ?_⟩
      rw [List.mem_singleton.mp listed]
      exact term
  · have compaction : ∀ snapshot, op ≠ .compact snapshot := by
      rintro snapshot rfl
      obtain ⟨save, same⟩ := Server.operation_compact runs
      exact whole snapshot save same
    rw [node] at leads ⊢
    rw [RaftNode.perform_log leads (fun command same => appends ⟨command, same⟩) compaction]
    exact .refl ..

/-- Compaction keeps the whole log. -/
theorem Server.compact_full (sv : Server) (save : Bool) (snapshot : Bytes) :
    (sv.compact save snapshot).full = sv.full := by
  obtain ⟨cut, same⟩ := sv.node.compact_log save snapshot
  have length : sv.node.log.length - (sv.node.compact save snapshot).node.log.length = cut.length := by
    rw [← same, List.length_append]
    omega
  have taken : sv.node.log.take cut.length = cut := by
    rw [← same]
    exact List.take_left' rfl
  show sv.compacted ++ sv.node.log.take _ ++ (sv.node.compact save snapshot).node.log = sv.full
  rw [length, taken, List.append_assoc, same]
  rfl

/-- What a process that leads after a step has done to its whole log: at most added to it, in the term
it is in. -/
theorem Server.react_full (running : event ≠ .crash)
    (reacted : sv.react unmarshal peers event = some reaction)
    (leads : reaction.server.node.state = .leader) :
    Grown sv.node.currentTerm sv.full reaction.server.full := by
  by_cases compacts : ∃ snapshot save, event = .compact snapshot save
  · obtain ⟨snapshot, save, rfl⟩ := compacts
    obtain rfl := Option.some.inj reacted
    rw [show (sv.compact save snapshot).full = sv.full from sv.compact_full save snapshot]
    exact .refl ..
  · have whole : ∀ snapshot save, event ≠ .compact snapshot save :=
      fun snapshot save same => compacts ⟨snapshot, save, same⟩
    obtain ⟨added, log, terms⟩ := Server.react_log running whole reacted leads
    have side : reaction.server.compacted = sv.compacted := by
      cases Server.react_cases reacted with
      | compact snapshot save => exact absurd rfl (whole snapshot save)
      | crash => exact absurd rfl running
      | _ => rfl
    refine ⟨added, ?_, terms⟩
    show reaction.server.compacted ++ reaction.server.node.log = sv.compacted ++ sv.node.log ++ added
    rw [side, log, List.append_assoc]

/-- What a node that has led a term can be, with the log it had then: it leads the term and has only
added to the log, or it will not lead the term again. -/
structure Tenure (term : Nat) (log : List LogEntry) (sv : Server) : Prop where
  /-- The node is in the term or past it. -/
  current : term ≤ sv.node.currentTerm
  /-- So is its store. -/
  stored : ∃ state, sv.node.store = some state ∧ term ≤ state.currentTerm
  /-- It is a candidate of later terms only. -/
  candidate : sv.node.state = .candidate → term < sv.node.currentTerm
  /-- While it leads the term, it adds entries of the term. -/
  log : sv.node.state = .leader → sv.node.currentTerm = term → Grown term log sv.full

/-- The stored term does not fall below a term the node has reached. -/
theorem RaftNode.perform_store_term {n : RaftNode} {term : Nat} {save : Bool}
    (fits : op = .becomeCandidate → n.currentTerm + 1 < Word.limit) (current : term ≤ n.currentTerm)
    (stored : ∃ state, n.store = some state ∧ term ≤ state.currentTerm) :
    ∃ state, (n.perform unmarshal save op).store = some state ∧ term ≤ state.currentTerm := by
  obtain ⟨state, store, low⟩ := stored
  have grows := n.perform_term_le unmarshal save fits
  rcases n.perform_store unmarshal save op with kept | saved
  · exact ⟨state, kept.trans store, low⟩
  · exact ⟨_, saved, current.trans grows⟩

/-- Every step of the process keeps that. -/
theorem Tenure.react {term : Nat} {log : List LogEntry} (tenure : Tenure term log sv)
    (fits : ∀ tag save applied, event = .step tag save applied →
      sv.calls tag = some (.election .preVoteWon) → sv.node.currentTerm + 1 < Word.limit)
    (reacted : sv.react unmarshal peers event = some reaction) : Tenure term log reaction.server := by
  rcases Server.react_moves reacted with ⟨-, node⟩ | ⟨going, node | ⟨op, runs, node⟩⟩
  · obtain ⟨state, store, low⟩ := tenure.stored
    rw [store] at node
    refine ⟨by rw [node]; exact low, ⟨state, by rw [node]; rfl, low⟩, fun candidate => ?_, fun leads => ?_⟩
    · rw [node] at candidate
      contradiction
    · rw [node] at leads
      contradiction
  · refine ⟨by rw [node]; exact tenure.current, by rw [node]; exact tenure.stored,
      by rw [node]; exact tenure.candidate, fun leads current => ?_⟩
    have grown := Server.react_full going reacted leads
    rw [node] at leads current
    rw [current] at grown
    exact (tenure.log leads current).trans grown
  · have room : op = .becomeCandidate → sv.node.currentTerm + 1 < Word.limit := by
      rintro rfl
      obtain ⟨tag, save, applied, steps, running⟩ := Server.operation_enters runs
      exact fits tag save applied steps running
    have own := Server.operation_ne_becomeLeader runs
    have grows := sv.node.perform_term_le unmarshal event.save room
    have low := tenure.current
    refine ⟨by rw [node]; exact low.trans grows,
      by rw [node]; exact RaftNode.perform_store_term room low tenure.stored, fun candidate => ?_,
      fun leads current => ?_⟩
    · rw [node] at candidate ⊢
      rcases RaftNode.perform_candidate own candidate with rfl | ⟨before, same⟩
      · have entered := sv.node.becomeCandidate_term event.save
        rw [Word.add_eq (room rfl)] at entered
        show term < (sv.node.becomeCandidate event.save).node.currentTerm
        omega
      · rw [same]
        exact tenure.candidate before
    · have grown := Server.react_full going reacted leads
      rw [node] at leads current
      obtain ⟨same, role⟩ := RaftNode.perform_leads own leads
      have now : sv.node.currentTerm = term := same.symm.trans current
      rcases role with led | ⟨candidate, -⟩
      · rw [now] at grown
        exact (tenure.log led now).trans grown
      · have above := tenure.candidate candidate
        omega

/-- A leader has stored the term it leads. -/
def Server.LeadsStored (sv : Server) : Prop :=
  sv.node.state = .leader →
    ∃ state, sv.node.store = some state ∧ sv.node.currentTerm ≤ state.currentTerm

/-- A node is promoted in the term of a vote for itself that it has stored. -/
theorem Server.LeadsStored.react {polls : Polls} {good : List NodeId → Prop} {id : NodeId}
    {votes : Votes} (fair : FairServer polls good id sv votes) (stored : sv.LeadsStored)
    (reacted : sv.react unmarshal peers event = some reaction) : reaction.server.LeadsStored := by
  intro leads
  rcases Server.react_moves reacted with ⟨-, node⟩ | ⟨-, node | ⟨op, runs, node⟩⟩
  · rw [node, newRaftNode_state] at leads
    contradiction
  · rw [node] at leads ⊢
    exact stored leads
  rw [node] at leads ⊢
  obtain ⟨same, role⟩ := RaftNode.perform_leads (Server.operation_ne_becomeLeader runs) leads
  have before : ∃ state, sv.node.store = some state ∧ sv.node.currentTerm ≤ state.currentTerm := by
    rcases role with led | ⟨candidate, rfl⟩
    · exact stored led
    · obtain ⟨tag, -, -, -, running⟩ := Server.operation_promoteCandidate runs
      obtain ⟨state, voter⟩ := fair.voter
      have voted := (fair.campaign tag _ running).self rfl candidate
      exact ⟨state, voter.store, voter.past _ _ voted⟩
  rw [same]
  refine RaftNode.perform_store_term (fun starts => ?_) le_rfl before
  -- a candidate does not lead
  subst starts
  have candidate := (sv.node.becomeCandidate_role event.save).1
  rw [show (sv.node.perform unmarshal event.save .becomeCandidate).state = _ from candidate] at leads
  contradiction

variable {members : Members}

/-- In every run a leader has stored the term it leads. -/
theorem Cluster.leadsStored_of_reach {c : Cluster}
    (run : Reach (Cluster.step unmarshal members) (FairElections unmarshal) (.initial members) c)
    {id : NodeId} : (c.servers id).LeadsStored := by
  induction run generalizing id with
  | start =>
    intro leads
    contradiction
  | next before _ stepped ih =>
    obtain ⟨⟨votes, fair⟩, -⟩ := FairCluster.reach before
    exact Cluster.step_keeps_servers (S := fun _ sv => sv.LeadsStored) (fun _ => ih) stepped
      (fun _ inside reacted => ih.react (fair.servers _ inside) reacted) id

/-- What a node can be after it has led a term, in every run from there. -/
theorem Tenure.reach {term : Nat} {log : List LogEntry} {c c' : Cluster} {id : NodeId}
    (tenure : Tenure term log (c.servers id))
    (run : Reach (Cluster.step unmarshal members) (fun c label => c.termsFit label = true) c c') :
    Tenure term log (c'.servers id) := by
  refine run.invariant (P := fun c => Tenure term log (c.servers id)) tenure ?_
  intro before after label tenure fits stepped
  refine Cluster.step_keeps_servers (S := fun other sv => other = id → Tenure term log sv)
    (fun other here => here ▸ tenure) stepped (fun reaction _ reacted here => ?_) id rfl
  rw [← here] at tenure
  exact tenure.react (fun _ _ _ steps running => Cluster.termsFit_preVoteWon fits steps running) reacted

/-- A leader never overwrites or deletes entries of its log: between two states in which a node leads
the same term it has appended entries of that term, whatever the other nodes did, whether it was
deposed or crashed in between and whichever of its saves failed. -/
theorem leader_append_only {c c' : Cluster}
    (run : Reach (Cluster.step unmarshal members) (FairElections unmarshal) (.initial members) c)
    (later : Reach (Cluster.step unmarshal members) (fun c label => c.termsFit label = true) c c')
    {id : NodeId} (leads : (c.servers id).node.state = .leader)
    (leadsLater : (c'.servers id).node.state = .leader)
    (sameTerm : (c'.servers id).node.currentTerm = (c.servers id).node.currentTerm) :
    ∃ added, (c'.servers id).full = (c.servers id).full ++ added ∧
      ∀ entry ∈ added, entry.term = (c.servers id).node.currentTerm := by
  have tenure : Tenure (c.servers id).node.currentTerm (c.servers id).full (c.servers id) := {
    current := le_rfl
    stored := Cluster.leadsStored_of_reach run leads
    candidate := fun candidate => by
      rw [leads] at candidate
      contradiction
    log := fun _ _ => .refl .. }
  exact (tenure.reach later).log leadsLater sameTerm

end

/-- `A` leads term 1 and has committed `[88]` with `B`. -/
def committedFirst : List Label :=
  Label.campaign "A" 0 1 0 0 [("B", 0)] ++
  [⟨"A", .start (.propose [88])⟩] ++ Label.sections "A" 1 9 ++
  Label.rpc "A" "B" 1 (.appendRequest ⟨1, "A", 0, 0, [⟨1, 1, [88]⟩], 0⟩)
    (.appendResponse ⟨1, "A", 0, 0, [⟨1, 1, [88]⟩], 0⟩ ⟨1, true⟩) ++ Label.sections "A" 1 3

/-- `A` applies and compacts what it committed, and appends another entry; `B` crashes meanwhile. -/
def compactedThenAppended : List Label :=
  [⟨"A", .start .apply⟩] ++ Label.sections "A" 2 3 ++ [⟨"B", .crash⟩, ⟨"A", .compact [7] true⟩,
    ⟨"A", .start (.propose [89])⟩] ++ Label.sections "A" 3 2

/-- The leader's log of two entries extends its log of one, although the first is compacted. -/
theorem leader_append_only_compacted : ∃ c c',
    Reach (Cluster.step plainCommands threeNodes) (FairElections plainCommands)
      (.initial threeNodes) c ∧
      Reach (Cluster.step plainCommands threeNodes) (fun c label => c.termsFit label = true) c c' ∧
      (c.servers "A").full = [⟨1, 1, [88]⟩] ∧ (c'.servers "A").node.log = [⟨1, 2, [89]⟩] ∧
      ∃ added, (c'.servers "A").full = (c.servers "A").full ++ added ∧
        ∀ entry ∈ added, entry.term = (c.servers "A").node.currentTerm := by
  have passed : (Transition.exec (Cluster.step plainCommands threeNodes)
      (FairElections plainCommands) (.initial threeNodes) committedFirst).any (fun c =>
        decide ((c.servers "A").node.state = .leader ∧ (c.servers "A").node.currentTerm = 1 ∧
          (c.servers "A").full = [⟨1, 1, [88]⟩]) &&
        (Transition.exec (Cluster.step plainCommands threeNodes)
          (fun c label => c.termsFit label = true) c compactedThenAppended).any fun c' =>
            decide ((c'.servers "A").node.state = .leader ∧ (c'.servers "A").node.currentTerm = 1 ∧
              (c'.servers "A").node.log = [⟨1, 2, [89]⟩])) = true := by
    decide +kernel
  obtain ⟨c, run, test⟩ := Reach.of_exec_test passed
  obtain ⟨here, there⟩ := (Bool.and_eq_true ..).mp test
  obtain ⟨leads, term, first⟩ := of_decide_eq_true here
  obtain ⟨c', later, test'⟩ := Reach.of_exec_test there
  obtain ⟨leads', term', second⟩ := of_decide_eq_true test'
  exact ⟨c, c', run, later, first, second,
    leader_append_only run later leads leads' (term'.trans term.symm)⟩

end Raft
